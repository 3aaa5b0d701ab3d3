import LiteOsKernel.Vm.MapCover
import LiteOsKernel.Lib.Run

/-! The heap of a user space over runs of LOS_DoBrk: its region and the break go together as long as the heap shrinks by
whole pages and grows over free addresses. -/
namespace LiteOsKernel.Vm
open Rbtree LosVmSpace LosVmMapRegion

variable {s s' : LosVmSpace} {l l' : List Nat} {p q a n x addr : Nat} {r : LosVmMapRegion} {st : Int}

def HeapFlag (r : LosVmMapRegion) : Prop := r.regionFlags &&& VM_MAP_REGION_FLAG_HEAP ≠ 0

instance : DecidablePred HeapFlag := fun _ => inferInstanceAs (Decidable (_ ≠ _))

/-- The break, rounded up to pages. -/
def heapEnd (s : LosVmSpace) : Nat := Word.alignUp s.heapNow PAGE_SIZE

/-- A space after a call of LOS_DoBrk, with the space before it, the argument and the result. -/
structure BrkHist where
  before : LosVmSpace
  addr : Nat
  ret : Int
  space : LosVmSpace

def BrkHist.run (depth : Nat) (x : BrkHist) (addr : Nat) : BrkHist :=
  ⟨x.space,addr,(losDoBrk depth x.space addr).2,(losDoBrk depth x.space addr).1⟩

/-- Calls of LOS_DoBrk in any user space that has no heap yet; the start counts as a call that asks for the break. LOS_UnMMap
may nest in itself. -/
@[reducible] def brkSystem (depth : Nat) : Run.System BrkHist Nat where
  init x := (∃ l, SpaceInv x.space l ∧ ∀ p ∈ l, ¬HeapFlag (x.space.region p)) ∧ x.space.heapNow = x.space.heapBase ∧
    x.before = x.space ∧ x.addr = 0 ∧ x.ret = x.space.heapNow
  pre _ addr := addr < 2^32
  run := BrkHist.run (depth + 1)

/-- The heap shrinks by whole pages, and LOS_MemAlloc has a descriptor for the part that goes. -/
def ShrinkOk (s : LosVmSpace) (addr : Nat) : Prop :=
  s.heapBase ≤ addr → addr < s.heapNow →
    Word.alignUp addr PAGE_SIZE < heapEnd s ∧ (addr ≠ s.heapBase → (losMemAlloc s).2 ≠ 0)

instance : Decidable (ShrinkOk s addr) := inferInstanceAs (Decidable (_ → _ → _))

/-- The heap region is the one with the HEAP flag, and it goes from heapBase to the end of the last page of the break. -/
structure HeapInv (s : LosVmSpace) (l : List Nat) : Prop where
  space : SpaceInv s l
  heapBase_le : s.heapBase ≤ s.heapNow
  mark : ∀ p ∈ l, HeapFlag (s.region p) ↔ p = s.heap ∧ s.heapBase < s.heapNow
  heap : s.heapBase < s.heapNow → s.heap ∈ l ∧ (s.region s.heap).range = ⟨s.heapBase,heapEnd s - s.heapBase⟩

private theorem heapFlag_or_fixed (flags : Nat) :
    (flags ||| VM_MAP_REGION_FLAG_FIXED) &&& VM_MAP_REGION_FLAG_HEAP = flags &&& VM_MAP_REGION_FLAG_HEAP := by
  have hz : VM_MAP_REGION_FLAG_FIXED &&& VM_MAP_REGION_FLAG_HEAP = 0 := by decide
  rw [Nat.and_or_distrib_right, hz, Nat.or_zero]

-- No region gets the HEAP flag by a split or a removal

def Unmarked (s : LosVmSpace) (l : List Nat) : Prop := ∀ p ∈ l, ¬HeapFlag (s.region p)

private theorem HalfDone.unmarked (h : SpaceInv s l) (hm : Unmarked s l) (hd : HalfDone s l x s' st) :
    ∃ l', SpaceInv s' l' ∧ SameSpace s s' ∧ Unmarked s' l' := by
  cases hd with
  | none hc => exact ⟨l,h,SameSpace.refl s,hm⟩
  | @split _ p hp h1 h2 ha =>
    obtain ⟨hss,-,hnew⟩ := ha
    have hhead : ¬HeapFlag (headAt (s.region p) x) := hm p hp
    have htail : ¬HeapFlag (tailAt (s.region p) x) := by
      show ¬((s.region p).regionFlags ||| VM_MAP_REGION_FLAG_FIXED) &&& VM_MAP_REGION_FLAG_HEAP ≠ 0
      rw [heapFlag_or_fixed]
      exact hm p hp
    rcases hnew with ⟨-,h',hreg⟩ | ⟨-,hql,l',h',hl',hreg⟩
    · refine ⟨l,h',hss,fun q hq => ?_⟩
      rw [hreg, Function.update_apply]
      split_ifs
      · exact hhead
      · exact hm q hq
    · refine ⟨l',h',hss,fun q hq => ?_⟩
      rw [hreg, Function.update_apply, Function.update_apply]
      split_ifs with hq1 hq2
      · exact htail
      · exact hhead
      · exact hm q (((hl' q).mp hq).resolve_left hq1)

private theorem unMMap_unmarked (depth : Nat) (h : SpaceInv s l) (hm : Unmarked s l) (ha : a < 2^32) (hn : n < 2^32) :
    ∃ l', SpaceInv (losUnMMap depth s a n).1 l' ∧ SameSpace s (losUnMMap depth s a n).1 ∧
      Unmarked (losUnMMap depth s a n).1 l' := by
  cases depth with
  | zero => exact ⟨l,h,SameSpace.refl s,hm⟩
  | succ depth =>
    rw [losUnMMap]
    split_ifs
    · exact ⟨l,h,SameSpace.refl s,hm⟩
    · obtain ⟨had,halt⟩ := losAlign_spec ha
      obtain ⟨hnd,-⟩ := losAlign_spec hn
      have hsum : PAGE_SIZE ∣ Word.add (losAlign a PAGE_SIZE) (losAlign n PAGE_SIZE) := by
        rw [Word.add]
        exact (Nat.dvd_mod_iff (by decide)).mpr (Nat.dvd_add had hnd)
      obtain ⟨s₁,st₁,he₁,hd₁⟩ := adjustStart_half (losUnMMap depth) h had halt
      obtain ⟨l₁,h₁,hss₁,hm₁⟩ := hd₁.unmarked h hm
      rw [osUnMMap]
      simp only [osRegionsRemove, osVmRegionAdjust, he₁]
      by_cases hst₁ : st₁ ≠ 0
      · simp only [if_pos hst₁]
        exact ⟨l₁,h₁,hss₁,hm₁⟩
      simp only [if_neg hst₁]
      obtain ⟨s₂,st₂,he₂,hd₂⟩ := adjustEnd_half (losUnMMap depth) h₁ hsum (word_add_lt _ _)
      obtain ⟨l₂,h₂,hss₂,hm₂⟩ := hd₂.unmarked h₁ hm₁
      simp only [he₂]
      by_cases hst₂ : st₂ ≠ 0
      · simp only [if_pos hst₂]
        exact ⟨l₂,h₂,hss₁.trans hss₂,hm₂⟩
      simp only [if_neg hst₂]
      obtain ⟨s₃,l₃,he₃,h₃,hss₃,hreg,hmem⟩ := removeScan_all (losAlign a PAGE_SIZE)
        (Word.sub (Word.add (losAlign a PAGE_SIZE) (losAlign n PAGE_SIZE)) 1) h₂
      rw [he₃]
      refine ⟨l₃,h₃,(hss₁.trans hss₂).trans hss₃,fun q hq => ?_⟩
      rw [hreg]
      exact hm₂ q ((hmem q).mp hq).1

private theorem allocSpecificRange_state (unMMap : LosVmSpace → Nat → Nat → LosVmSpace × Int) (s : LosVmSpace) (a n flags : Nat) :
    (osAllocSpecificRange unMMap s a n flags).1 = s ∨ (osAllocSpecificRange unMMap s a n flags).1 = (unMMap s a n).1 := by
  rw [osAllocSpecificRange]
  simp only
  split_ifs
  · exact .inl rfl
  · exact .inl rfl
  · exact .inr rfl
  · exact .inr rfl
  · exact .inl rfl
  · exact .inl rfl

/-- The allocation of a region at a fixed address, over whatever is mapped there. -/
private theorem regionAlloc_fixed (depth : Nat) (h : SpaceInv s l) (hm : Unmarked s l) (ha : a < 2^32)
    (ha0 : a ≠ 0) (had : PAGE_SIZE ∣ a) (hn : n < 2^32)
    (hnd : PAGE_SIZE ∣ n) (hn0 : 0 < n) {flags : Nat} (hfix : flags &&& VM_MAP_REGION_FLAG_FIXED ≠ 0) (pgoff : Nat) :
    ∃ s' p l', losRegionAlloc (losUnMMap depth) s a n flags pgoff = (s',p) ∧ SpaceInv s' l' ∧ SameSpace s s' ∧
      ((p = 0 ∧ Unmarked s' l') ∨
        (p ≠ 0 ∧ p ∈ l' ∧ s'.region p = freshRegion a n flags pgoff ∧ ∀ q ∈ l', q ≠ p → ¬HeapFlag (s'.region q))) := by
  obtain ⟨s₁,b,l₁,he,h₁,hss₁,-,hb⟩ := allocSpecificRange_spec (losUnMMap_spec depth) h ha had hn hnd hn0 flags
  have hm₁ : Unmarked s₁ l₁ := by
    have hstate := allocSpecificRange_state (losUnMMap depth) s a n flags
    rw [he] at hstate
    rcases hstate with hs | hs
    · obtain rfl : s₁ = s := hs
      rw [← h₁.scan_eq, h.scan_eq]
      exact hm
    · obtain ⟨l₂,h₂,-,hm₂⟩ := unMMap_unmarked depth h hm ha hn
      rw [← (show s₁ = _ from hs)] at h₂ hm₂
      rw [← h₁.scan_eq, h₂.scan_eq]
      exact hm₂
  by_cases hb0 : b = 0
  · refine ⟨s₁,0,l₁,?_,h₁,hss₁,.inl ⟨rfl,hm₁⟩⟩
    rw [losRegionAlloc, if_neg ha0, he]
    simp only [if_pos hb0]
  obtain ⟨-,hb1,hb2,hfree,-,hba⟩ := hb hb0
  obtain rfl := hba hfix
  -- the range is free now, and the allocation goes on as it would from here
  have hr : RangeOk s₁.base s₁.size (freshRegion b n 0 0) := by
    rw [hss₁.base, hss₁.size]
    exact ⟨hn0,had,hnd,hb1,hb2⟩
  have heq : losRegionAlloc (losUnMMap depth) s b n flags pgoff = losRegionAlloc (losUnMMap depth) s₁ b n flags pgoff := by
    rw [losRegionAlloc, losRegionAlloc, if_neg ha0, if_neg ha0, he, allocSpecificRange_free (losUnMMap depth) h₁ hr hfree]
  obtain ⟨s₂,he₂,hss₂,-,hnew⟩ := regionAlloc_free (losUnMMap depth) h₁ hr hfree flags pgoff
  rw [heq, he₂]
  rcases hnew with ⟨hz,h₂,hreg⟩ | ⟨hz,hql,l₂,h₂,hl₂,hreg⟩
  · refine ⟨s₂,_,l₁,rfl,h₂,hss₁.trans hss₂,.inl ⟨hz,?_⟩⟩
    rw [Unmarked, hreg]
    exact hm₁
  · refine ⟨s₂,_,l₂,rfl,h₂,hss₁.trans hss₂,.inr ⟨hz,(hl₂ _).mpr (.inl rfl),?_,fun q hq hqp => ?_⟩⟩
    · rw [hreg, Function.update_self]
    · rw [hreg, Function.update_of_ne hqp]
      exact hm₁ q (((hl₂ q).mp hq).resolve_left hqp)

-- The heap shrinks

private theorem alignUp_of_dvd (hd : PAGE_SIZE ∣ x) : Word.alignUp x PAGE_SIZE = x := by
  have h1 := Word.le_alignUp x (show 0 < PAGE_SIZE by decide)
  have h2 := Word.alignUp_lt x (show 0 < PAGE_SIZE by decide)
  obtain ⟨i,hi⟩ := hd
  obtain ⟨j,hj⟩ := Word.dvd_alignUp x PAGE_SIZE
  rw [hj] at h1 h2 ⊢
  rw [PAGE_SIZE] at *
  omega

/-- An address of the heap, rounded up to pages. -/
private theorem HeapInv.align_addr (h : HeapInv s l) (h1 : s.heapBase ≤ addr) (h2 : addr ≤ s.heapNow) (h3 : s.heapBase < s.heapNow) :
    losAlign addr PAGE_SIZE = Word.alignUp addr PAGE_SIZE ∧ s.heapBase ≤ Word.alignUp addr PAGE_SIZE ∧ addr < 2^32 := by
  have hup := Word.le_alignUp addr (show 0 < PAGE_SIZE by decide)
  have hend := Word.le_alignUp s.heapNow (show 0 < PAGE_SIZE by decide)
  obtain ⟨hm,hr⟩ := h.heap h3
  have hfin := h.space.fin_lt hm
  rw [fin, hr] at hfin
  change s.heapBase + (heapEnd s - s.heapBase) < 2^32 at hfin
  obtain ⟨j,hj⟩ := Word.dvd_alignUp s.heapNow PAGE_SIZE
  rw [heapEnd] at hfin
  have hp : PAGE_SIZE = 4096 := rfl
  have hlt : addr < 2^32 := by omega
  refine ⟨?_,h1.trans hup,hlt⟩
  rcases losAlign_cases hlt with he | ⟨hlast,-,-⟩
  · exact he
  · have hj' : Word.alignUp s.heapNow PAGE_SIZE = 4096*j := hj
    omega

private theorem shrinkHeap_spec (depth : Nat) (h : HeapInv s l) (h1 : s.heapBase ≤ addr) (h2 : addr < s.heapNow) (hok : ShrinkOk s addr) :
    ∃ s' l', osShrinkHeap (depth + 1) s addr = (s',(addr : Int)) ∧ HeapInv s' l' ∧ s'.heapNow = addr := by
  have h3 : s.heapBase < s.heapNow := Nat.lt_of_le_of_lt h1 h2
  obtain ⟨hlt,hdesc⟩ := hok h1 h2
  obtain ⟨hm,hr⟩ := h.heap h3
  obtain ⟨hN,-,haddr⟩ := h.align_addr h1 (Nat.le_of_lt h2) h3
  obtain ⟨hE,-,-⟩ := h.align_addr (Nat.le_of_lt h3) (Nat.le_refl _) h3
  have hdN := Word.dvd_alignUp addr PAGE_SIZE
  have hdE : PAGE_SIZE ∣ heapEnd s := Word.dvd_alignUp s.heapNow PAGE_SIZE
  have hNa := Word.le_alignUp addr (show 0 < PAGE_SIZE by decide)
  set N := Word.alignUp addr PAGE_SIZE with hNdef
  have hbase : (s.region s.heap).range.base = s.heapBase := by rw [hr]
  have hfin : (s.region s.heap).fin = heapEnd s := by
    rw [fin, hr]
    show s.heapBase + (heapEnd s - s.heapBase) = heapEnd s
    omega
  have hElt := h.space.fin_lt hm
  rw [hfin] at hElt
  have hb0 := h.space.layout.heapBase_pos
  rw [PAGE_SIZE] at hb0
  have hsub : Word.sub (heapEnd s) N = heapEnd s - N := Word.sub_eq (Nat.le_of_lt hlt)
  have hadd : Word.add N (heapEnd s - N) = heapEnd s := by
    rw [Word.add_eq (by omega)]
    omega
  have hal : losAlign (heapEnd s - N) PAGE_SIZE = heapEnd s - N := losAlign_of_dvd (by omega) (Nat.dvd_sub hdE hdN)
  have hal' : losAlign N PAGE_SIZE = N := losAlign_of_dvd (by omega) hdN
  -- the address ends the heap region, so no region goes on over it
  have hcutE : Cut s l (heapEnd s) := by
    intro z hz hzE
    have he : z = s.heap := h.space.eq_of_mem hz hm (show _ ≤ heapEnd s - 1 by omega) (by omega) (by omega) (by omega)
    rw [he, hfin] at hzE
    omega
  obtain ⟨s₁,st₁,he₁,hd₁⟩ := adjustStart_half (losUnMMap depth) h.space hdN (by omega)
  have hfirst : st₁ = 0 ∧ ∃ l₁, SpaceInv s₁ l₁ ∧ SameSpace s s₁ ∧ Cut s₁ l₁ (heapEnd s) ∧
      (s.heapBase < N → s.heap ∈ l₁ ∧ s₁.region s.heap = headAt (s.region s.heap) N) ∧
      (N = s.heapBase → s.heap ∈ l₁ → (s₁.region s.heap).range = (s.region s.heap).range) ∧
      ∀ q ∈ l₁, q ≠ s.heap → N ≤ (s₁.region q).range.base ∧ (s₁.region q).fin ≤ heapEnd s ∨ ¬HeapFlag (s₁.region q) := by
    cases hd₁ with
    | none hc =>
      have hNb : N = s.heapBase := by
        have := hc s.heap hm
        omega
      refine ⟨rfl,l,h.space,SameSpace.refl s,hcutE,fun hlt => by omega,fun _ _ => rfl,fun q hq hqp => .inr fun hf => ?_⟩
      exact hqp ((h.mark q hq).mp hf).1
    | @split _ p hp g1 g2 ha =>
      have hpe : p = s.heap := h.space.eq_of_mem hp hm (Nat.le_of_lt g1) g2 (by omega) (by omega)
      subst hpe
      have hz : (losMemAlloc s).2 ≠ 0 := hdesc fun he => by
        have hd := h.space.layout.heapBase_dvd
        rw [← he] at hd
        rw [alignUp_of_dvd hd] at hNdef
        omega
      obtain ⟨hss,-,hnew⟩ := ha
      obtain ⟨-,hql,l₁,h₁,hl₁,hreg⟩ := hnew.resolve_left fun hc => hz hc.1
      have hpart : Parted s l s.heap N s₁ l₁ (losMemAlloc s).2 := ⟨hql,hl₁,hreg⟩
      refine ⟨if_neg hz,l₁,h₁,hss,(hpart.cut_iff h.space hm g1 g2 _).mpr (.inl hcutE),
        fun _ => ⟨(hl₁ _).mpr (.inr hm),hpart.head_eq hm⟩,fun hb => by omega,fun q hq hqp => ?_⟩
      rcases (hl₁ q).mp hq with rfl | hq
      · left
        rw [hpart.tail_eq, fin_tailAt g2, hfin]
        exact ⟨Nat.le_refl _,Nat.le_refl _⟩
      · right
        rw [hpart.other_eq hq hqp]
        exact fun hf => hqp ((h.mark q hq).mp hf).1
  obtain ⟨rfl,l₁,h₁,hss₁,hcut₁,hhead,hwhole,hother⟩ := hfirst
  obtain ⟨s₂,st₂,he₂,hd₂⟩ := adjustEnd_half (losUnMMap depth) h₁ hdE hElt
  cases hd₂ with
  | split hp g1 g2 ha => exact absurd ⟨g1,g2⟩ (hcut₁ _ hp)
  | none hc =>
  obtain ⟨s₃,l₃,he₃,h₃,hss₃,hreg,hmem⟩ := removeScan_all N (Word.sub (heapEnd s) 1) h₁
  have hrun : losUnMMap (depth + 1) s N (heapEnd s - N) = (s₃,0) := by
    rw [losUnMMap, if_neg (by omega), osUnMMap, hal, hal']
    simp only [osRegionsRemove, osVmRegionAdjust, he₁, hadd, he₂, he₃, ne_eq, not_true_eq_false, if_false]
  rw [osShrinkHeap]
  simp only [hN]
  rw [show losAlign s.heapNow PAGE_SIZE = heapEnd s from hE, hsub, hrun]
  simp only [lt_irrefl, if_false]
  rw [Word.sub_eq (show 1 ≤ heapEnd s by omega)] at hmem
  have hend : ∀ q ∈ l₁, Within s₁ N (heapEnd s - 1) q ↔ N ≤ (s₁.region q).range.base ∧ (s₁.region q).fin ≤ heapEnd s := by
    intro q hq
    rw [Within, endAddr_eq (h₁.ok q hq).size_pos (h₁.fin_lt hq)]
    rw [fin]
    omega
  have hheap : s₃.heap = s.heap := (hss₁.trans hss₃).heap
  have hheapBase : s₃.heapBase = s.heapBase := (hss₁.trans hss₃).heapBase
  refine ⟨_,l₃,rfl,⟨h₃.congr rfl rfl rfl rfl haddr rfl rfl fun _ hp => hp,?_,fun q hq => ?_,fun hlt => ?_⟩,rfl⟩
  · show s₃.heapBase ≤ addr
    omega
  · obtain ⟨hq₁,hqw⟩ := (hmem q).mp hq
    rw [hend q hq₁] at hqw
    show HeapFlag (s₃.region q) ↔ q = s₃.heap ∧ s₃.heapBase < addr
    rw [hreg, hheap, hheapBase]
    by_cases hqh : q = s.heap
    · subst hqh
      by_cases hNb : N = s.heapBase
      · have hrange := hwhole hNb hq₁
        rw [fin, hrange] at hqw
        exact absurd ⟨by omega,Nat.le_of_eq hfin⟩ hqw
      · have hlt' : s.heapBase < N := by omega
        obtain ⟨-,hregh⟩ := hhead hlt'
        rw [hregh]
        refine iff_of_true ((h.mark _ hm).mpr ⟨rfl,h3⟩) ⟨rfl,?_⟩
        refine Nat.lt_of_le_of_ne h1 fun he => hNb ?_
        rw [hNdef, ← he]
        exact alignUp_of_dvd h.space.layout.heapBase_dvd
    · exact iff_of_false ((hother q hq₁ hqh).resolve_left hqw) fun hc => hqh hc.1
  · change s₃.heapBase < addr at hlt
    rw [hheapBase] at hlt
    obtain ⟨hm₁,hregh⟩ := hhead (Nat.lt_of_lt_of_le hlt hNa)
    show s₃.heap ∈ l₃ ∧ (s₃.region s₃.heap).range = ⟨s₃.heapBase,N - s₃.heapBase⟩
    rw [hheap, hheapBase, hreg, hregh]
    refine ⟨(hmem _).mpr ⟨hm₁,?_⟩,?_⟩
    · rw [hend _ hm₁, hregh]
      intro hw
      have hbN' : N ≤ (s.region s.heap).range.base := hw.1
      omega
    · show LosVmMapRange.mk (s.region s.heap).range.base (N - (s.region s.heap).range.base) = _
      rw [hbase]

-- The heap grows

private theorem brkSize_bounds (h : SpaceInv s l) (ha : addr < 2^32) (hle : s.heapBase ≤ addr) :
    addr ≤ s.heapBase + brkSize s addr ∧ s.heapBase + brkSize s addr < addr + PAGE_SIZE := by
  have hb := h.layout.heapBase_pos
  rw [PAGE_SIZE] at hb
  rw [brkSize, Word.sub_eq hle, show PAGE_SIZE = 2^12 from rfl, roundup_two_pow (by omega) (by omega)]
  omega

private theorem heapFlag_or (flags : Nat) : (flags ||| VM_MAP_REGION_FLAG_HEAP) &&& VM_MAP_REGION_FLAG_HEAP ≠ 0 := by
  intro h
  have hbit : VM_MAP_REGION_FLAG_HEAP.testBit 10 = true := by decide
  have hb := congrArg (fun v => v.testBit 10) h
  simp [hbit] at hb

/-- The heap region at p is given a new size, which is where the break goes. -/
theorem HeapInv.grown (h : SpaceInv s l) (hp : p ∈ l) (hn : PAGE_SIZE ∣ n) (hn0 : 0 < n) (hw : s.heapBase + n < 2^32)
    (hbase : (s.region p).range.base = s.heapBase) (hr : SpaceInv (s.setRegion p { s.region p with range := ⟨s.heapBase,n⟩ }) l)
    (hmark : ∀ q ∈ l, HeapFlag (s.region q) ↔ q = p) {t : LosVmSpace}
    (ht : t = { s.setRegion p { s.region p with range := ⟨(s.region p).range.base,n⟩ } with heap := p, heapNow := s.heapBase + n }) :
    HeapInv t l := by
  have hd : PAGE_SIZE ∣ s.heapBase + n := Nat.dvd_add h.layout.heapBase_dvd hn
  have hend : heapEnd t = s.heapBase + n := by
    rw [ht]
    exact alignUp_of_dvd hd
  rw [hbase] at ht
  have hreg : ∀ q, t.region q = if q = p then { s.region p with range := ⟨s.heapBase,n⟩ } else s.region q := by
    intro q
    rw [ht]
    exact region_setRegion
  have hflag : ∀ q ∈ l, HeapFlag (t.region q) ↔ q = p := by
    intro q hq
    rw [hreg]
    split_ifs with hqp
    · subst hqp
      exact hmark q hq
    · exact hmark q hq
  have hlt : t.heapBase < t.heapNow := by
    rw [ht]
    show s.heapBase < s.heapBase + n
    omega
  have hheap : t.heap = p := by rw [ht]
  have hhb : t.heapBase = s.heapBase := by rw [ht]; rfl
  refine ⟨?_,Nat.le_of_lt hlt,fun q hq => ?_,fun _ => ?_⟩
  · rw [ht]
    exact hr.congr rfl rfl rfl rfl hw rfl rfl fun _ hq => hq
  · rw [hflag q hq, hheap]
    exact ⟨fun he => ⟨he,hlt⟩,fun he => he.1⟩
  · rw [hheap, hreg, if_pos rfl, hend, hhb, Nat.add_sub_cancel_left]
    exact ⟨hp,rfl⟩

-- Runs

/-- What a call of LOS_DoBrk promises: an address in the heap becomes the break; otherwise the break moves to the end of the
page of addr, or the call returns -ENOMEM or the old break and the heap stays as it is. -/
structure CallLaw (before : LosVmSpace) (addr : Nat) (ret : Int) (s : LosVmSpace) : Prop where
  shrinks : before.heapBase ≤ addr → addr < before.heapNow → ret = addr ∧ s.heapNow = addr
  fails : (ret = s.heapNow ∧ addr ≤ s.heapNow ∧ s.heapNow < addr + PAGE_SIZE) ∨
    ((ret = -ENOMEM ∨ ret = before.heapNow) ∧ s.heapNow = before.heapNow ∧ s.heap = before.heap ∧
      (before.heapBase < before.heapNow → s.region s.heap = before.region s.heap))

private theorem callLaw_kept {ret : Int} (hret : ret = -ENOMEM ∨ ret = s.heapNow) (hin : s.heapBase ≤ addr → s.heapNow ≤ addr) :
    CallLaw s addr ret s :=
  ⟨fun h1 h2 => absurd (hin h1) (Nat.not_le.mpr h2),.inr ⟨hret,rfl,rfl,fun _ => rfl⟩⟩

private theorem brk_step (depth : Nat) (h : HeapInv s l) (ha : addr < 2^32) (hok : BrkOk s addr) (hshrink : ShrinkOk s addr) :
    ∃ l', HeapInv (losDoBrk (depth + 1) s addr).1 l' ∧
      CallLaw s addr (losDoBrk (depth + 1) s addr).2 (losDoBrk (depth + 1) s addr).1 := by
  have hlay := h.space.layout
  have hb0 := hlay.heapBase_pos
  rw [PAGE_SIZE] at hb0
  rw [losDoBrk]
  by_cases h1 : addr = 0
  · rw [if_pos h1]
    exact ⟨l,h,callLaw_kept (.inr rfl) fun hle => by omega⟩
  rw [if_neg h1]
  by_cases h2 : addr < s.heapBase
  · rw [if_pos h2]
    exact ⟨l,h,callLaw_kept (.inl rfl) fun hle => by omega⟩
  rw [if_neg h2]
  simp only
  have hle : s.heapBase ≤ addr := Nat.not_lt.mp h2
  by_cases h3 : addr < s.heapNow
  · obtain ⟨s',l',he,h',hnow⟩ := shrinkHeap_spec depth h hle h3 hshrink
    rw [if_pos h3, he]
    exact ⟨l',h',fun _ _ => ⟨rfl,hnow⟩,.inl ⟨by rw [hnow],by rw [hnow],by rw [hnow, PAGE_SIZE]; omega⟩⟩
  rw [if_neg h3]
  have hge : s.heapNow ≤ addr := Nat.not_lt.mp h3
  by_cases h4 : s.mapBase ≤ Word.add s.heapBase (brkSize s addr)
  · rw [if_pos h4]
    exact ⟨l,h,callLaw_kept (.inl rfl) fun _ => hge⟩
  rw [if_neg h4]
  obtain ⟨hup1,hup2⟩ := brkSize_bounds h.space ha hle
  obtain ⟨hnd,hnlt⟩ := brkSize_spec s addr
  have htop := hlay.top_lt
  have hok' := ((((hok.resolve_left h1).resolve_left h2).resolve_left h3).resolve_left h4)
  have hgrown : ∀ {s' : LosVmSpace}, s'.heapNow = s.heapBase + brkSize s addr →
      CallLaw s addr ((s.heapBase + brkSize s addr : Nat) : Int) s' := by
    intro s' hnow
    exact ⟨fun _ hlt => absurd hlt h3,.inl ⟨by rw [hnow],by rw [hnow]; exact hup1,by rw [hnow]; exact hup2⟩⟩
  rcases hok' with ⟨hnow,hfirst⟩ | ⟨hnow,hheap,hpos,htop',hapart⟩
  · -- there is no heap region yet
    rw [if_pos hnow]
    set flags := VM_MAP_REGION_FLAG_PERM_READ ||| VM_MAP_REGION_FLAG_PERM_WRITE ||| VM_MAP_REGION_FLAG_FIXED |||
      VM_MAP_REGION_FLAG_PERM_USER with hflags
    have hfix : flags &&& VM_MAP_REGION_FLAG_FIXED ≠ 0 := by
      rw [hflags]
      decide
    have hh0 : s.heapBase ≠ 0 := by omega
    have hnone : Unmarked s l := fun q hq hf => Nat.lt_irrefl s.heapBase (hnow.symm ▸ ((h.mark q hq).mp hf).2)
    by_cases hzero : addr = s.heapBase
    · have hc := hfirst.resolve_left fun hne => hne hzero
      have halloc := regionAlloc_zero (depth + 1) flags 0 hh0 hlay.heapBase_lt hfix hc
      rw [hzero, brkSize_heapBase]
      simp only [halloc, if_true]
      exact ⟨l,h,callLaw_kept (.inl rfl) fun _ => hnow ▸ Nat.le_refl _⟩
    have hpos := brkSize_pos h.space ha (show s.heapBase < addr by omega)
    obtain ⟨s₁,p,l₁,he,h₁,hss,hp⟩ := regionAlloc_fixed (depth + 1) h.space hnone hlay.heapBase_lt hh0 hlay.heapBase_dvd
      hnlt hnd hpos hfix 0
    simp only [he]
    rcases hp with ⟨rfl,hm₁⟩ | ⟨hp0,hpl,hregp,hm₁⟩
    · simp only [if_true]
      refine ⟨l₁,⟨h₁,?_,fun q hq => ?_,fun hlt => ?_⟩,?_⟩
      · rw [hss.heapBase, hss.heapNow]
        exact h.heapBase_le
      · refine iff_of_false (hm₁ q hq) fun hc => ?_
        rw [hss.heapBase, hss.heapNow, hnow] at hc
        exact Nat.lt_irrefl _ hc.2
      · rw [hss.heapBase, hss.heapNow, hnow] at hlt
        exact absurd hlt (Nat.lt_irrefl _)
      · exact ⟨fun _ hlt => absurd hlt h3,.inr ⟨.inl rfl,hss.heapNow,hss.heap,fun hlt => by omega⟩⟩
    · simp only [if_neg hp0]
      have hrange : (s₁.region p).range = ⟨s.heapBase,brkSize s addr⟩ := by rw [hregp]; rfl
      have hfin := (h₁.ok p hpl).fin_le
      rw [fin, hrange, hss.base, hss.size] at hfin
      change s.heapBase + brkSize s addr ≤ s.base + s.size at hfin
      have hadd : Word.add s.heapBase (brkSize s addr) = s.heapBase + brkSize s addr := Word.add_eq (by omega)
      rw [hadd]
      have h₂ := h₁.setRegion_range (p := p) (r := { s₁.region p with
        regionFlags := (s₁.region p).regionFlags ||| VM_MAP_REGION_FLAG_HEAP }) rfl
      set s₂ := s₁.setRegion p { s₁.region p with regionFlags := (s₁.region p).regionFlags ||| VM_MAP_REGION_FLAG_HEAP } with hs₂
      have hreg₂ : ∀ q, s₂.region q = if q = p then { s₁.region p with
          regionFlags := (s₁.region p).regionFlags ||| VM_MAP_REGION_FLAG_HEAP } else s₁.region q := fun q => region_setRegion
      have hrange₂ : (s₂.region p).range = ⟨s.heapBase,brkSize s addr⟩ := by
        rw [hreg₂, if_pos rfl]
        exact hrange
      have hhb : s₂.heapBase = s.heapBase := hss.heapBase
      refine ⟨l₁,HeapInv.grown (s := s₂) (p := p) h₂ hpl hnd hpos (by rw [hhb]; omega) (by rw [hrange₂, hhb]) ?_ (fun q hq => ?_)
        ?_,hgrown rfl⟩
      · rw [hhb]
        exact h₂.setRegion_range hrange₂.symm
      · rw [hreg₂]
        split_ifs with hqp
        · exact iff_of_true (heapFlag_or _) hqp
        · exact iff_of_false (hm₁ q hq hqp) hqp
      · conv_rhs => rw [hhb]
        rfl
  · -- the heap region gets a new end
    rw [if_neg hnow]
    have hlt : s.heapBase < s.heapNow := Nat.lt_of_le_of_ne h.heapBase_le hnow
    obtain ⟨hm,hr⟩ := h.heap hlt
    have hbase : (s.region s.heap).range.base = s.heapBase := by rw [hr]
    rw [hbase] at htop' hapart
    rw [h.space.scan_eq] at hapart
    have hadd : Word.add s.heapBase (brkSize s addr) = s.heapBase + brkSize s addr := Word.add_eq (by omega)
    simp only [hadd]
    refine ⟨l,HeapInv.grown (s := s) (p := s.heap) h.space hm hnd hpos (by omega) hbase ?_ (fun q hq => ?_) ?_,hgrown rfl⟩
    · have hokr := h.space.ok _ hm
      refine h.space.setRegion ⟨hpos,hlay.heapBase_dvd,hnd,hbase ▸ hokr.base_le,htop'⟩ hbase.symm fun q hq hlt => ?_
      have hq0 := (h.space.ok q hq).size_pos
      have hne : q ≠ s.heap := by
        rintro rfl
        omega
      rcases hapart q hq hne with hd | hd
      · omega
      · exact hd
    · rw [h.mark q hq]
      exact ⟨fun hc => hc.1,fun hc => ⟨hc,hlt⟩⟩
    · rfl

/-- What holds after every call. -/
structure BrkLaw (x : BrkHist) : Prop where
  pages : ∀ a, (∃ p, Covers x.space a p ∧ HeapFlag (x.space.region p)) ↔ x.space.heapBase ≤ a ∧ a < heapEnd x.space
  heap : x.space.heapBase < x.space.heapNow → x.space.heap ∈ scan x.space.regionRbTree ∧
    (x.space.region x.space.heap).range = ⟨x.space.heapBase,heapEnd x.space - x.space.heapBase⟩
  call : CallLaw x.before x.addr x.ret x.space

theorem HeapInv.pages (h : HeapInv s l) (a : Nat) :
    (∃ p, Covers s a p ∧ HeapFlag (s.region p)) ↔ s.heapBase ≤ a ∧ a < heapEnd s := by
  have hend := Word.le_alignUp s.heapNow (show 0 < PAGE_SIZE by decide)
  constructor
  · rintro ⟨p,hc,hf⟩
    obtain ⟨hp,h1,h2⟩ := h.space.covers_iff.mp hc
    obtain ⟨rfl,hlt⟩ := (h.mark p hp).mp hf
    obtain ⟨-,hr⟩ := h.heap hlt
    rw [fin, hr] at h2
    rw [hr] at h1
    change s.heapBase ≤ a at h1
    change a < s.heapBase + (heapEnd s - s.heapBase) at h2
    omega
  · rintro ⟨h1,h2⟩
    have hlt : s.heapBase < s.heapNow := by
      refine Nat.lt_of_le_of_ne h.heapBase_le fun he => ?_
      have hd := h.space.layout.heapBase_dvd
      rw [he] at hd
      rw [heapEnd, alignUp_of_dvd hd] at h2
      omega
    obtain ⟨hm,hr⟩ := h.heap hlt
    refine ⟨s.heap,h.space.covers_iff.mpr ⟨hm,?_,?_⟩,(h.mark _ hm).mpr ⟨rfl,hlt⟩⟩
    · rw [hr]
      exact h1
    · rw [fin, hr]
      show a < s.heapBase + (heapEnd s - s.heapBase)
      omega

theorem brkLaw_of_reachable (depth : Nat) {x : BrkHist}
    (h : Run.Reachable (brkSystem depth) (fun x addr => BrkOk x.space addr ∧ ShrinkOk x.space addr) x) : BrkLaw x := by
  have hinv : (∃ l, HeapInv x.space l) ∧ CallLaw x.before x.addr x.ret x.space := by
    refine h.invariant (I := fun x => (∃ l, HeapInv x.space l) ∧ CallLaw x.before x.addr x.ret x.space) ?_
      fun x addr hx hp hok => ?_
    · rintro x ⟨⟨l,hl,hm⟩,hnow,hbefore,haddr,hret⟩
      have hb0 := hl.layout.heapBase_pos
      rw [PAGE_SIZE] at hb0
      rw [hbefore, haddr]
      refine ⟨⟨l,hl,Nat.le_of_eq hnow.symm,fun p hp => ?_,fun hlt => ?_⟩,callLaw_kept (.inr hret) fun hle => by omega⟩
      · exact iff_of_false (hm p hp) fun hc => by omega
      · omega
    · obtain ⟨⟨l,hl⟩,-⟩ := hx
      obtain ⟨l',h',hlaw⟩ := brk_step depth hl hp hok.1 hok.2
      exact ⟨⟨l',h'⟩,hlaw⟩
  obtain ⟨⟨l,hl⟩,hcall⟩ := hinv
  refine ⟨hl.pages,fun hlt => ?_,hcall⟩
  rw [hl.space.scan_eq]
  exact hl.heap hlt

def noHeap : BrkHist := ⟨smallSpace,0,USER_HEAP_BASE,smallSpace⟩

private theorem noHeap_init (depth : Nat) : (brkSystem depth).init noHeap :=
  ⟨⟨[],spaceInv_init (by decide) _ _ _,by simp⟩,rfl,rfl,rfl,rfl⟩

/-- The heap grows to two pages, loses one, is given up and set up again. -/
theorem brkLaw_four_calls : ∃ x : BrkHist, x.ret = (USER_HEAP_BASE + 4096 : Nat) ∧ x.before.heapNow = USER_HEAP_BASE ∧ BrkLaw x := by
  have h₁ : Run.Reachable (brkSystem 2) (fun x addr => BrkOk x.space addr ∧ ShrinkOk x.space addr)
      (noHeap.run 3 (USER_HEAP_BASE + 8000)) :=
    (Run.Reachable.init (noHeap_init 2)).call (USER_HEAP_BASE + 8000) (by decide) (by decide +kernel)
  have h₂ := h₁.call (USER_HEAP_BASE + 4000) (by decide) (by decide +kernel)
  have h₃ := h₂.call USER_HEAP_BASE (by decide) (by decide +kernel)
  have h₄ := h₃.call (USER_HEAP_BASE + 1) (by decide) (by decide +kernel)
  exact ⟨_,by decide +kernel,by decide +kernel,brkLaw_of_reachable 2 h₄⟩

/-- The break does not move inside a page. -/
theorem brkLaw_fails_in_page : ¬ ∀ (depth : Nat) (x : BrkHist), Run.Reachable (brkSystem depth) (fun _ _ => True) x → BrkLaw x := by
  intro hall
  have h := hall 2 _ (((Run.Reachable.init (noHeap_init 2)).call (USER_HEAP_BASE + 4096) (by decide) trivial).call
    (USER_HEAP_BASE + 100) (by decide) trivial)
  have hret := (h.call.shrinks (by decide +kernel) (by decide +kernel)).1
  revert hret
  decide +kernel

end LiteOsKernel.Vm
