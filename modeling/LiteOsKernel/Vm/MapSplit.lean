import LiteOsKernel.Vm.MapAlloc

/-! What a split of a region leaves, attribute by attribute: the head and the tail, or the head alone where no
descriptor is left for the tail. -/
namespace LiteOsKernel.Vm
open Rbtree RbZipper LosVmSpace LosVmMapRegion

variable {s s' s'' : LosVmSpace} {l l' l'' : List Nat} {p q a n x : Nat} {r r' : LosVmMapRegion}
  (unMMap : LosVmSpace → Nat → Nat → LosVmSpace × Int)

/-- The outcome of an allocation: it needs one descriptor, and with one there is the new region q. -/
def AllocatedAs (s : LosVmSpace) (l : List Nat) (s' : LosVmSpace) (old : Nat → LosVmMapRegion) (new : LosVmMapRegion) : Prop :=
  SameSpace s s' ∧ SameHeap (losMemAlloc s).1 s' ∧
    (((losMemAlloc s).2 = 0 ∧ SpaceInv s' l ∧ s'.region = old) ∨
      ((losMemAlloc s).2 ≠ 0 ∧ (losMemAlloc s).2 ∉ l ∧ ∃ l', SpaceInv s' l' ∧ (∀ z, z ∈ l' ↔ z = (losMemAlloc s).2 ∨ z ∈ l) ∧
        s'.region = Function.update old (losMemAlloc s).2 new))

/-- At a free address nothing is unmapped. -/
theorem allocSpecificRange_free (h : SpaceInv s l) (hr : RangeOk s.base s.size (freshRegion x n 0 0)) (hfree : Free s l x n)
    (flags : Nat) : osAllocSpecificRange unMMap s x n flags = (s,x) := by
  have hn0 : 0 < n := hr.size_pos
  have hnd : PAGE_SIZE ∣ n := hr.size_dvd
  have hb : s.base ≤ x := hr.base_le
  have hf : x + n ≤ s.base + s.size := hr.fin_le
  have htop := h.layout.top_lt
  have hlast : Word.sub (Word.add x n) 1 = x + n - 1 := by
    rw [Word.add_eq (by omega), Word.sub_eq (by omega)]
  have hin : losIsRangeInSpace s x n = true := by
    have htop' : Word.sub (Word.add s.base s.size) 1 = s.base + s.size - 1 := by
      rw [Word.add_eq htop, Word.sub_eq (by omega)]
    rw [losIsRangeInSpace, htop']
    simp only [hlast]
    rw [if_neg (by omega), if_neg (by omega), if_neg (by omega), if_neg (by omega)]
  obtain ⟨h1,h2,h3⟩ := (free_iff h (two_le_of_page hnd hn0) (by omega)).mpr hfree
  rw [osAllocSpecificRange, hin, hlast, Word.sub_eq (show 1 ≤ n by omega), if_neg (by simp), if_neg]
  simp [h1, h2, h3]

theorem regionAlloc_free (h : SpaceInv s l) (hr : RangeOk s.base s.size (freshRegion x n 0 0)) (hfree : Free s l x n)
    (flags pgoff : Nat) :
    ∃ s', losRegionAlloc unMMap s x n flags pgoff = (s',(losMemAlloc s).2) ∧
      AllocatedAs s l s' s.region (freshRegion x n flags pgoff) := by
  have hn0 : 0 < n := hr.size_pos
  have hxd : PAGE_SIZE ∣ x := hr.base_dvd
  have hnd : PAGE_SIZE ∣ n := hr.size_dvd
  have hb : s.base ≤ x := hr.base_le
  have hf : x + n ≤ s.base + s.size := hr.fin_le
  have hbase := h.layout.base_pos
  rw [losRegionAlloc, if_neg (show ¬(x = 0) by omega), allocSpecificRange_free unMMap h hr hfree]
  simp only [if_neg (show ¬(x = 0) by omega)]
  obtain ⟨s₁,p,hc,h₁,hss₁,hp,hheap,hnew⟩ := h.createRegion x n flags pgoff
  rw [hc, ← hp]
  rcases hnew with ⟨hp0,hreg⟩ | ⟨hp0,hpu,hpn,hpl,hreg⟩
  · rw [hp0]
    exact ⟨s₁,rfl,hss₁,hheap,.inl ⟨hp ▸ hp0,h₁,hreg⟩⟩
  · simp only [if_neg hp0]
    have hregp : s₁.region p = freshRegion x n flags pgoff := by
      rw [hreg, Function.update_self]
    have hok : RangeOk s₁.base s₁.size (s₁.region p) := by
      rw [hregp, hss₁.base, hss₁.size]
      exact ⟨hn0,hxd,hnd,hb,hf⟩
    have hfree₁ : Free s₁ l (s₁.region p).range.base (s₁.region p).range.size := by
      intro q hq
      have hqp : q ≠ p := fun he => hpl (he ▸ hq)
      rw [hregp, hreg, Function.update_of_ne hqp]
      exact hfree q hq
    obtain ⟨s₂,l₁,l₂,hi,hl,h₂,hreg₂,hss₂,hheap₂⟩ := h₁.insertRegion hp0 hpu hpn hpl hok hfree₁
    rw [hi]
    refine ⟨s₂,rfl,hss₁.trans hss₂,⟨hheap₂.1.trans hheap.1,hheap₂.2.trans hheap.2⟩,.inr ⟨hp ▸ hp0,hp ▸ hpl,_,h₂,fun z => ?_,?_⟩⟩
    · rw [← hp, hl, List.mem_append, List.mem_cons, List.mem_append]
      exact or_left_comm
    · rw [hreg₂, hreg, hp]

/-- A region at x like r, as OsVmRegionDup builds it: the shmid is copied for shared memory only, and what belongs to a
file for a file only. -/
def dupAt (r : LosVmMapRegion) (x n : Nat) : LosVmMapRegion where
  range := ⟨x,n⟩
  pgOff := r.pgOff
  regionFlags := r.regionFlags ||| VM_MAP_REGION_FLAG_FIXED
  shmid := if r.regionFlags &&& VM_MAP_REGION_FLAG_SHM ≠ 0 then r.shmid else 0xFFFFFFFF
  regionType := r.regionType
  fOflags := if r.regionType = .file then r.fOflags else 0
  vnode := if r.regionType = .file then r.vnode else 0

private theorem regionDup_free (h : SpaceInv s l) (hp : p ∈ l) (hr : RangeOk s.base s.size (freshRegion x n 0 0)) (hfree : Free s l x n) :
    ∃ s', osVmRegionDup unMMap s p x n = (s',(losMemAlloc s).2) ∧ AllocatedAs s l s' s.region (dupAt (s.region p) x n) := by
  have hx0 : x ≠ 0 := by
    have := h.layout.base_pos
    have := hr.base_le
    simp only [freshRegion] at this
    omega
  rw [osVmRegionDup]
  simp only [if_neg hx0]
  obtain ⟨s₁,he,hss,hheap,hnew⟩ := regionAlloc_free unMMap h hr hfree
    ((s.region p).regionFlags ||| VM_MAP_REGION_FLAG_FIXED) (s.region p).pgOff
  rw [he]
  rcases hnew with ⟨hz,h₁,hreg⟩ | ⟨hz,hql,l₁,h₁,hl₁,hreg⟩
  · rw [hz]
    simp only [ite_true]
    exact ⟨s₁,rfl,hss,hheap,.inl ⟨hz,h₁,hreg⟩⟩
  · set q := (losMemAlloc s).2 with hq
    have hqp : p ≠ q := fun hc => hql (hc ▸ hp)
    have hregq : s₁.region q = freshRegion x n ((s.region p).regionFlags ||| VM_MAP_REGION_FLAG_FIXED) (s.region p).pgOff := by
      rw [hreg, Function.update_self]
    have hregp : s₁.region p = s.region p := by
      rw [hreg, Function.update_of_ne hqp]
    simp only [if_neg hz, hregq, hregp]
    refine ⟨_,rfl,hss.trans sameSpace_setRegion,hheap,.inr ⟨hz,hql,l₁,h₁.setRegion_range ?_,hl₁,?_⟩⟩
    · rw [hregq]
      split_ifs <;> rfl
    · funext z
      rw [region_setRegion, Function.update_apply, hreg, Function.update_apply]
      split_ifs <;> simp_all [dupAt, freshRegion]

/-- The part of a region before x. -/
def headAt (r : LosVmMapRegion) (x : Nat) : LosVmMapRegion := { r with range := ⟨r.range.base,x - r.range.base⟩ }

/-- The part from x on. -/
def tailAt (r : LosVmMapRegion) (x : Nat) : LosVmMapRegion :=
  { dupAt r x (r.fin - x) with pgOff := Word.add r.pgOff (Word.sub x r.range.base >>> PAGE_SHIFT) }

private theorem regionSplit_exact (h : SpaceInv s l) (hp : p ∈ l) (hx : PAGE_SIZE ∣ x) (h1 : (s.region p).range.base < x)
    (h2 : x < (s.region p).fin) :
    ∃ s', osVmRegionSplit unMMap s p x = (s',(losMemAlloc s).2) ∧
      AllocatedAs s l s' (Function.update s.region p (headAt (s.region p) x)) (tailAt (s.region p) x) := by
  have hok := h.ok p hp
  have hlt := h.fin_lt hp
  have hfin : (s.region p).fin = (s.region p).range.base + (s.region p).range.size := rfl
  have hend := endAddr_eq hok.size_pos hlt
  have hsize : losRegionSize x (losRegionEndAddr (s.region p)) = (s.region p).fin - x := by
    rw [losRegionSize, hend, Word.sub_eq (by omega), Word.add_eq (by omega)]
    omega
  have hold : losRegionSize (s.region p).range.base (Word.sub x 1) = x - (s.region p).range.base := by
    rw [losRegionSize, Word.sub_eq (show 1 ≤ x by omega), Word.sub_eq (by omega), Word.add_eq (by omega)]
    omega
  have hd1 : PAGE_SIZE ∣ x - (s.region p).range.base := Nat.dvd_sub hx hok.base_dvd
  have hd2 : PAGE_SIZE ∣ (s.region p).fin - x := Nat.dvd_sub hok.fin_dvd hx
  rw [osVmRegionSplit]
  simp only [hsize, hold, if_neg (show ¬(x - (s.region p).range.base = 0) by omega)]
  set r₁ : LosVmMapRegion := { s.region p with range := ⟨(s.region p).range.base,x - (s.region p).range.base⟩ } with hr₁
  have hhead : headAt (s.region p) x = r₁ := rfl
  rw [hhead]
  have hreg₁ : (s.setRegion p r₁).region = Function.update s.region p r₁ := by
    funext z
    rw [region_setRegion, Function.update_apply]
  have h₁ : SpaceInv (s.setRegion p r₁) l := h.shrink hp (by omega) hd1 (by omega) rfl
  obtain ⟨hmem,hheap⟩ := losMemAlloc_congr (show SameHeap s (s.setRegion p r₁) from ⟨rfl,rfl⟩)
  have hr : RangeOk (s.setRegion p r₁).base (s.setRegion p r₁).size (freshRegion x ((s.region p).fin - x) 0 0) := by
    refine ⟨by show 0 < (s.region p).fin - x; omega,hx,hd2,?_,?_⟩
    · have := hok.base_le
      show s.base ≤ x
      omega
    · have := hok.fin_le
      show x + ((s.region p).fin - x) ≤ s.base + s.size
      omega
  have hfree : Free (s.setRegion p r₁) l x ((s.region p).fin - x) := by
    intro q hq
    rw [region_setRegion]
    split
    · refine .inl ?_
      show (s.region p).range.base + (x - (s.region p).range.base) ≤ x
      omega
    · next hqp =>
      rcases h.disjoint hq hp hqp with hd | hd
      · exact .inl (by omega)
      · exact .inr (by omega)
  have hregp : (s.setRegion p r₁).region p = r₁ := by
    rw [region_setRegion, if_pos rfl]
  obtain ⟨s₂,he,hss₂,hheap₂,hnew⟩ := regionDup_free unMMap h₁ hp hr hfree
  rw [hmem] at he hnew
  rw [he]
  have hheap' : SameHeap (losMemAlloc s).1 s₂ := ⟨hheap₂.1.trans hheap.1,hheap₂.2.trans hheap.2⟩
  have hss : SameSpace s s₂ := sameSpace_setRegion.trans hss₂
  rw [hregp, hreg₁] at hnew
  rcases hnew with ⟨hz,h₂,hreg₂⟩ | ⟨hz,hql,l₂,h₂,hl₂,hreg₂⟩
  · rw [hz]
    simp only [ite_true]
    exact ⟨s₂,rfl,hss,hheap',.inl ⟨hz,h₂,hreg₂⟩⟩
  · have hqp : p ≠ (losMemAlloc s).2 := fun hc => hql (hc ▸ hp)
    have hreg₂q : s₂.region (losMemAlloc s).2 = dupAt r₁ x ((s.region p).fin - x) := by
      rw [hreg₂, Function.update_self]
    have hreg₂p : s₂.region p = r₁ := by
      rw [hreg₂, Function.update_of_ne hqp, Function.update_self]
    simp only [if_neg hz, hreg₂q, hreg₂p]
    refine ⟨_,rfl,hss.trans sameSpace_setRegion,hheap',.inr ⟨hz,hql,l₂,h₂.setRegion_range ?_,hl₂,?_⟩⟩
    · rw [hreg₂q]
    · funext z
      rw [region_setRegion, Function.update_apply, hreg₂]
      split_ifs with hzq
      · rfl
      · rw [Function.update_of_ne hzq]

/-- No region goes on over the address x. -/
def Cut (s : LosVmSpace) (l : List Nat) (x : Nat) : Prop := ∀ p ∈ l, ¬((s.region p).range.base < x ∧ x < (s.region p).fin)

instance : Decidable (Cut s l x) := inferInstanceAs (Decidable (∀ p ∈ l, _))

theorem Cut.refines (h : Cut s l x) (hr : Refines s l s' l') : Cut s' l' x := by
  intro p hp hc
  obtain ⟨q,hq,h1,h2⟩ := hr p hp
  exact h q hq (by omega)

/-- The regions that do not go on over x stay as they are. -/
def KeepsCut (s : LosVmSpace) (l : List Nat) (s' : LosVmSpace) (l' : List Nat) (x : Nat) : Prop :=
  ∀ q ∈ l, ¬((s.region q).range.base < x ∧ x < (s.region q).fin) → q ∈ l' ∧ s'.region q = s.region q

/-- The outcome of cutting the regions at x. -/
def CutAt (s : LosVmSpace) (l : List Nat) (s' : LosVmSpace) (l' : List Nat) (x : Nat) (done : Prop) : Prop :=
  SpaceInv s' l' ∧ SameSpace s s' ∧ Refines s l s' l' ∧ (done → KeepsCut s l s' l' x ∧ Cut s' l' x)

/-- A half of OsVmRegionAdjust at x: nothing, or the split of the region that goes on over x. -/
inductive HalfDone (s : LosVmSpace) (l : List Nat) (x : Nat) : LosVmSpace → Int → Prop
  | none (h : Cut s l x) : HalfDone s l x s 0
  | split {s' : LosVmSpace} {p : Nat} (hp : p ∈ l) (h1 : (s.region p).range.base < x) (h2 : x < (s.region p).fin)
    (ha : AllocatedAs s l s' (Function.update s.region p (headAt (s.region p) x)) (tailAt (s.region p) x)) :
    HalfDone s l x s' (if (losMemAlloc s).2 = 0 then LOS_ERRNO_VM_NO_MEMORY else 0)

private theorem splitIf_half (h : SpaceInv s l) (hx : PAGE_SIZE ∣ x) (c : Prop) [Decidable c]
    (hpos : c → p ∈ l ∧ (s.region p).range.base < x ∧ x < (s.region p).fin) (hneg : ¬c → Cut s l x) :
    ∃ s' st, (if c then
        (if (osVmRegionSplit unMMap s p x).2 = 0 then ((osVmRegionSplit unMMap s p x).1,LOS_ERRNO_VM_NO_MEMORY)
          else ((osVmRegionSplit unMMap s p x).1,0))
      else (s,0)) = (s',st) ∧ HalfDone s l x s' st := by
  split_ifs with hc hz
  · obtain ⟨hp,h1,h2⟩ := hpos hc
    obtain ⟨s',he,ha⟩ := regionSplit_exact unMMap h hp hx h1 h2
    rw [he] at hz ⊢
    have hd := HalfDone.split hp h1 h2 ha
    rw [if_pos hz] at hd
    exact ⟨s',_,rfl,hd⟩
  · obtain ⟨hp,h1,h2⟩ := hpos hc
    obtain ⟨s',he,ha⟩ := regionSplit_exact unMMap h hp hx h1 h2
    rw [he] at hz ⊢
    have hd := HalfDone.split hp h1 h2 ha
    rw [if_neg hz] at hd
    exact ⟨s',_,rfl,hd⟩
  · exact ⟨s,0,rfl,.none (hneg hc)⟩

theorem adjustStart_half (h : SpaceInv s l) (hx : PAGE_SIZE ∣ x) (hlt : x < 2^32) :
    ∃ s' st, adjustStart unMMap s x = (s',st) ∧ HalfDone s l x s' st := by
  rw [adjustStart]
  apply splitIf_half unMMap h hx
  · rintro ⟨hc0,hc1⟩
    rcases regionFind_spec h.regionMap hlt with ⟨hm,h1,h2⟩ | ⟨h0,-⟩
    · exact ⟨hm,hc1,h2⟩
    · exact absurd h0 hc0
  · intro hc p hp hpc
    have hf := regionFind_eq h hp (Nat.le_of_lt hpc.1) hpc.2
    refine hc ⟨?_,?_⟩
    · rw [hf]
      exact h.ne_zero hp
    · rw [hf]
      exact hpc.1

theorem adjustEnd_half (h : SpaceInv s l) (hx : PAGE_SIZE ∣ x) (hlt : x < 2^32) :
    ∃ s' st, adjustEnd unMMap s x = (s',st) ∧ HalfDone s l x s' st := by
  rw [adjustEnd]
  apply splitIf_half unMMap h hx
  · rintro ⟨hc0,hc1⟩
    by_cases hx0 : x = 0
    · -- the search for the last address of all finds no region
      have hlast : Word.sub x 1 = 2^32 - 1 := by
        rw [hx0]
        decide +kernel
      rw [hlast] at hc0 hc1
      rcases regionFind_spec h.regionMap (show 2^32 - 1 < 2^32 by omega) with ⟨hm,-,h2⟩ | ⟨h0,-⟩
      · have := h.fin_lt hm
        omega
      · exact absurd h0 hc0
    · rw [Word.sub_eq (show 1 ≤ x by omega)] at hc0 hc1 ⊢
      rcases regionFind_spec h.regionMap (show x - 1 < 2^32 by omega) with ⟨hm,h1,h2⟩ | ⟨h0,-⟩
      · rw [endAddr_eq (h.ok _ hm).size_pos (h.fin_lt hm)] at hc1
        exact ⟨hm,by omega,by omega⟩
      · exact absurd h0 hc0
  · intro hc p hp hpc
    rw [Word.sub_eq (show 1 ≤ x by omega)] at hc
    have hf : losRegionFind s (x - 1) = p := regionFind_eq h hp (by omega) (by omega)
    apply hc
    rw [hf]
    refine ⟨h.ne_zero hp,?_⟩
    rw [endAddr_eq (h.ok p hp).size_pos (h.fin_lt hp)]
    -- both x and the end of the region are multiples of the page size
    obtain ⟨i,hi⟩ := hx
    obtain ⟨j,hj⟩ := (h.ok p hp).fin_dvd
    rw [PAGE_SIZE] at hi hj
    omega

theorem fin_headAt (h : r.range.base < x) : (headAt r x).fin = x := by
  show r.range.base + (x - r.range.base) = x
  omega

theorem fin_tailAt (h : x < r.fin) : (tailAt r x).fin = r.fin := by
  show x + (r.fin - x) = r.fin
  omega

theorem HalfDone.cutAt {st : Int} (h : SpaceInv s l) (hd : HalfDone s l x s' st) : ∃ l', CutAt s l s' l' x (st = 0) := by
  cases hd with
  | none hc => exact ⟨l,h,SameSpace.refl s,Refines.refl s l,fun _ => ⟨fun q hq _ => ⟨hq,rfl⟩,hc⟩⟩
  | @split _ p hp h1 h2 ha =>
    obtain ⟨hss,-,hnew⟩ := ha
    have hhead : Inside s l (headAt (s.region p) x) := ⟨p,hp,Nat.le_refl _,by rw [fin_headAt h1]; omega⟩
    rcases hnew with ⟨hz,h',hreg⟩ | ⟨hz,hql,l',h',hl',hreg⟩
    · refine ⟨l,h',hss,fun q hq => ?_,fun h0 => absurd h0 (by rw [if_pos hz]; decide)⟩
      rw [hreg, Function.update_apply]
      split_ifs
      · exact hhead
      · exact ⟨q,hq,Nat.le_refl _,Nat.le_refl _⟩
    · refine ⟨l',h',hss,fun q hq => ?_,fun _ => ⟨fun q hq hqx => ⟨(hl' q).mpr (.inr hq),?_⟩,fun q hq hqx => ?_⟩⟩
      · rw [hreg, Function.update_apply, Function.update_apply]
        split_ifs with hq1 hq2
        · exact ⟨p,hp,Nat.le_of_lt h1,Nat.le_of_eq (fin_tailAt h2)⟩
        · exact hhead
        · exact ⟨q,((hl' q).mp hq).resolve_left hq1,Nat.le_refl _,Nat.le_refl _⟩
      · rw [hreg, Function.update_of_ne (fun (he : q = (losMemAlloc s).2) => hql (he ▸ hq)), Function.update_of_ne]
        rintro rfl
        exact hqx ⟨h1,h2⟩
      · rw [hreg, Function.update_apply, Function.update_apply] at hqx
        split_ifs at hqx with hq1 hq2
        · exact Nat.lt_irrefl x hqx.1
        · rw [fin_headAt h1] at hqx
          exact Nat.lt_irrefl x hqx.2
        · have hd := h.disjoint (((hl' q).mp hq).resolve_left hq1) hp hq2
          omega

end LiteOsKernel.Vm
