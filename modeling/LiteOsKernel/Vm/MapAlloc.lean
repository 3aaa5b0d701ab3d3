import LiteOsKernel.Vm.Regions

/-! Allocation of ranges and regions. -/
namespace LiteOsKernel.Vm
open Rbtree RbZipper LosVmSpace LosVmMapRegion

variable {s s' s'' : LosVmSpace} {l l' l'' : List Nat} {p q addr a b n x : Nat} {r r' : LosVmMapRegion}
  {unMMap : LosVmSpace → Nat → Nat → LosVmSpace × Int}

/-- The regions that do not meet [a, a+n) stay as they are. -/
def Keeps (s : LosVmSpace) (l : List Nat) (s' : LosVmSpace) (l' : List Nat) (a n : Nat) : Prop :=
  ∀ q ∈ l, (s.region q).fin ≤ a ∨ a + n ≤ (s.region q).range.base → q ∈ l' ∧ s'.region q = s.region q

/-- A region of the result lies in a region there was. -/
def Inside (s : LosVmSpace) (l : List Nat) (r : LosVmMapRegion) : Prop :=
  ∃ q ∈ l, (s.region q).range.base ≤ r.range.base ∧ r.fin ≤ (s.region q).fin

def Refines (s : LosVmSpace) (l : List Nat) (s' : LosVmSpace) (l' : List Nat) : Prop := ∀ p ∈ l', Inside s l (s'.region p)

theorem Refines.refl (s : LosVmSpace) (l : List Nat) : Refines s l s l := fun p hp => ⟨p,hp,Nat.le_refl _,Nat.le_refl _⟩

theorem Inside.trans (h : Refines s l s' l') (hr : Inside s' l' r) : Inside s l r := by
  obtain ⟨q,hq,h1,h2⟩ := hr
  obtain ⟨q',hq',h3,h4⟩ := h q hq
  exact ⟨q',hq',h3.trans h1,h2.trans h4⟩

theorem Refines.trans (h : Refines s l s' l') (h' : Refines s' l' s'' l'') : Refines s l s'' l'' :=
  fun p hp => (h' p hp).trans h

/-- What a function does that may stand for LOS_UnMMap. -/
def UnmapSpec (unMMap : LosVmSpace → Nat → Nat → LosVmSpace × Int) : Prop :=
  ∀ {s : LosVmSpace} {l : List Nat} {a n : Nat}, SpaceInv s l → a < 2^32 → n < 2^32 →
    ∃ s' st l', unMMap s a n = (s',st) ∧ SpaceInv s' l' ∧ SameSpace s s' ∧ Refines s l s' l' ∧
      (PAGE_SIZE ∣ a → PAGE_SIZE ∣ n → 0 < n → a + n < 2^32 → st = 0 → Keeps s l s' l' a n ∧ Free s' l' a n)

theorem SpaceInv.add_base_size (h : SpaceInv s l) (hp : p ∈ l) :
    Word.add (s.region p).range.base (s.region p).range.size = (s.region p).fin := Word.add_eq (h.fin_lt hp)

theorem RangeOk.fin_dvd {base size : Nat} (h : RangeOk base size r) : PAGE_SIZE ∣ r.fin := Nat.dvd_add h.base_dvd h.size_dvd

/-- The scan from a node on, when all regions before it end at curEnd at the latest. -/
private theorem allocScan_spec (h : SpaceInv s l) (len : Nat) : ∀ {rest done : List Nat} {fuel curEnd : Nat}, l = done ++ rest →
    rest.length < fuel → (∀ p ∈ done, (s.region p).fin ≤ curEnd) →
    (∀ p ∈ rest, (s.region p).range.base < curEnd → (s.region p).fin ≤ curEnd) →
    PAGE_SIZE ∣ curEnd → s.base ≤ curEnd →
    ∃ found e, allocScan s.regionRbTree len fuel (rest.head?.getD 0) curEnd = (found,e) ∧ PAGE_SIZE ∣ e ∧ s.base ≤ e ∧
      (found = true → Free s l e len ∧ e + len ≤ s.base + s.size) ∧ (found = false → ∀ p ∈ l, (s.region p).fin ≤ e) := by
  intro rest
  induction rest with
  | nil =>
    intro done fuel curEnd hl hf hdone _ hd hb
    rcases fuel with - | fuel
    · cases hf
    refine ⟨false,curEnd,?_,hd,hb,by simp,fun _ p hp => hdone p (by rw [hl, List.append_nil] at hp; exact hp)⟩
    rw [allocScan, List.head?_nil, Option.getD_none, if_pos rfl]
  | cons x rest ih =>
    intro done fuel curEnd hl hf hdone hrest hd hb
    rcases fuel with - | fuel
    · cases hf
    have hx : x ∈ l := by simp [hl]
    have hsucc : losRbSuccessorNode s.regionRbTree x = rest.head?.getD 0 := by
      obtain ⟨T,hr,-,hin⟩ := h.tree
      exact losRbSuccessorNode_eq hr (by rw [hin]; exact Nat.le_succ_of_le (Nat.le_of_eq h.length_eq)) (hin.trans hl)
    have hlen : rest.length < fuel := by simpa using hf
    have hl' : l = (done ++ [x]) ++ rest := by simp [hl]
    have hsort : ∀ q ∈ rest, (s.region x).fin ≤ (s.region q).range.base := by
      have := h.sorted
      rw [hl] at this
      intro q hq
      exact List.rel_of_pairwise_cons (List.pairwise_append.mp this).2.1 hq
    have hx0 := (h.ok x hx).size_pos
    have hadd : Word.add (s.regionRbTree.key x).range.base (s.regionRbTree.key x).range.size = (s.region x).fin :=
      h.add_base_size hx
    rw [List.head?_cons, Option.getD_some, allocScan, if_neg (h.ne_zero hx), hsucc, hadd]
    show ∃ found e, (if (s.region x).range.base < curEnd then _ else if len ≤ (s.region x).range.base - curEnd then _ else _) = _ ∧ _
    by_cases h1 : (s.region x).range.base < curEnd
    · rw [if_pos h1]
      refine ih hl' hlen (fun p hp => ?_) (fun p hp => hrest p (List.mem_cons_of_mem _ hp)) hd hb
      rcases List.mem_append.mp hp with hp | hp
      · exact hdone p hp
      · rw [List.mem_singleton] at hp
        rw [hp]
        exact hrest x List.mem_cons_self h1
    · rw [if_neg h1]
      by_cases h2 : len ≤ (s.region x).range.base - curEnd
      · rw [if_pos h2]
        have hfin := (h.ok x hx).fin_le
        rw [fin] at hfin
        refine ⟨true,curEnd,rfl,hd,hb,fun _ => ⟨fun p hp => ?_,by omega⟩,by simp⟩
        rw [hl] at hp
        rcases List.mem_append.mp hp with hp | hp
        · exact .inl (hdone p hp)
        · rcases List.mem_cons.mp hp with rfl | hp
          · exact .inr (by omega)
          · have := hsort p hp
            rw [fin] at this
            exact .inr (by omega)
      · rw [if_neg h2]
        have hle : curEnd ≤ (s.region x).fin := by
          rw [fin]
          omega
        refine ih hl' hlen (fun p hp => ?_) (fun p hp hlt => ?_) (h.ok x hx).fin_dvd (hb.trans hle)
        · rcases List.mem_append.mp hp with hp | hp
          · exact (hdone p hp).trans hle
          · rw [List.mem_singleton] at hp
            rw [hp]
        · have := hsort p hp
          omega

/-- OsAllocRange returns 0 or the start of a free range in the space. -/
private theorem allocRange_spec (h : SpaceInv s l) (n : Nat) : osAllocRange s n = 0 ∨
    (PAGE_SIZE ∣ osAllocRange s n ∧ s.base ≤ osAllocRange s n ∧ osAllocRange s n + n ≤ s.base + s.size ∧
      Free s l (osAllocRange s n) n) := by
  have hlay := h.layout
  have hmap : s.mapBase < 2^32 := by
    have := hlay.map_le
    have := hlay.top_lt
    omega
  have hfound : ∃ found e, (if losRegionFind s s.mapBase ≠ 0 then
        allocScan s.regionRbTree n (s.regionRbTree.ulNodes + 1) (losRegionFind s s.mapBase)
          (Word.add (s.region (losRegionFind s s.mapBase)).range.base (s.region (losRegionFind s s.mapBase)).range.size)
      else allocScan s.regionRbTree n (s.regionRbTree.ulNodes + 1) (losRbFirstNode s.regionRbTree) s.mapBase) = (found,e) ∧
      PAGE_SIZE ∣ e ∧ s.base ≤ e ∧ (found = true → Free s l e n ∧ e + n ≤ s.base + s.size) ∧
      (found = false → ∀ p ∈ l, (s.region p).fin ≤ e) := by
    rcases regionFind_spec h.regionMap hmap with ⟨hm,h1,h2⟩ | ⟨h0,hno⟩
    · rw [if_pos (h.ne_zero hm), h.add_base_size hm]
      obtain ⟨done,rest,hl⟩ := List.append_of_mem hm
      have hlen : (losRegionFind s s.mapBase :: rest).length < s.regionRbTree.ulNodes + 1 := by
        rw [← h.length_eq, hl]
        simp only [List.length_append, List.length_cons]
        omega
      have hsort := h.sorted
      rw [hl] at hsort
      obtain ⟨-,hs2,hs3⟩ := List.pairwise_append.mp hsort
      refine allocScan_spec h n hl hlen (fun p hp => ?_)
        (fun p hp hlt => ?_) (h.ok _ hm).fin_dvd ((h.ok _ hm).base_le.trans (Nat.le_add_right _ _))
      · exact (hs3 p hp _ List.mem_cons_self).trans (Nat.le_add_right _ _)
      · rcases List.mem_cons.mp hp with rfl | hp
        · exact Nat.le_refl _
        · have := List.rel_of_pairwise_cons hs2 hp
          omega
    · rw [if_neg (by rw [h0]; simp)]
      have hfirst : losRbFirstNode s.regionRbTree = l.head?.getD 0 := by
        obtain ⟨T,hr,-,hin⟩ := h.tree
        rw [losRbFirstNode_eq hr (by rw [hin]; exact Nat.le_of_eq h.length_eq), hin]
      rw [hfirst]
      refine allocScan_spec h n (show l = [] ++ l from rfl) (by rw [h.length_eq]; exact Nat.lt_succ_self _) (by simp) (fun p hp hlt => ?_)
        hlay.mapBase_dvd hlay.mapBase_le
      have := hno p hp
      omega
  obtain ⟨found,e,he,hd,hb,htrue,hfalse⟩ := hfound
  rw [osAllocRange]
  simp only [he]
  cases found with
  | true => exact .inr ⟨hd,hb,(htrue rfl).2,(htrue rfl).1⟩
  | false =>
    simp only
    have hnext : Word.add s.mapBase s.mapSize = s.mapBase + s.mapSize := by
      apply Word.add_eq
      have := hlay.map_le
      have := hlay.top_lt
      omega
    rw [hnext]
    split_ifs with hc
    · have := hlay.map_le
      exact .inr ⟨hd,hb,by omega,fun p hp => .inl (hfalse rfl p hp)⟩
    · exact .inl rfl

private theorem rangeInSpace (h : SpaceInv s l) (ha : a < 2^32) (hn : n < 2^32) (hn0 : 0 < n) (hin : losIsRangeInSpace s a n = true) :
    s.base ≤ a ∧ a + n ≤ s.base + s.size := by
  have htop := h.layout.top_lt
  have hpos := h.layout.base_pos
  have hlast : Word.sub (Word.add s.base s.size) 1 = s.base + s.size - 1 := by
    rw [Word.add_eq htop, Word.sub_eq (by omega)]
  rw [losIsRangeInSpace, hlast] at hin
  simp only [if_neg (Nat.pos_iff_ne_zero.mp hn0)] at hin
  split_ifs at hin with h1 h2 h3
  by_cases hw : a + n < 2^32
  · rw [Word.add_eq hw, Word.sub_eq (by omega)] at h3
    omega
  · by_cases hw' : a + n = 2^32
    · have he : Word.sub (Word.add a n) 1 = 2^32 - 1 := by
        rw [Word.add, hw']
        decide +kernel
      rw [he] at h3
      omega
    · have he : Word.add a n = a + n - 2^32 := by
        rw [Word.add]
        omega
      rw [he, Word.sub_eq (by omega)] at h2
      omega

theorem two_le_of_page (hd : PAGE_SIZE ∣ n) (hn : 0 < n) : 2 ≤ n := by
  have := Nat.le_of_dvd hn hd
  rw [PAGE_SIZE] at this
  omega

/-- OsAllocSpecificRange: 0, or the start of a range that is free after it. -/
theorem allocSpecificRange_spec (hU : UnmapSpec unMMap) (h : SpaceInv s l) (ha : a < 2^32) (had : PAGE_SIZE ∣ a)
    (hn : n < 2^32) (hnd : PAGE_SIZE ∣ n) (hn0 : 0 < n) (flags : Nat) :
    ∃ s' b l', osAllocSpecificRange unMMap s a n flags = (s',b) ∧ SpaceInv s' l' ∧ SameSpace s s' ∧ Refines s l s' l' ∧
      (b ≠ 0 → PAGE_SIZE ∣ b ∧ s.base ≤ b ∧ b + n ≤ s.base + s.size ∧ Free s' l' b n ∧ Keeps s l s' l' b n ∧
        (flags &&& VM_MAP_REGION_FLAG_FIXED ≠ 0 → b = a)) := by
  have hsame : Refines s l s l := Refines.refl s l
  have hnone : ∃ s' b l', ((s,0) : LosVmSpace × Nat) = (s',b) ∧ SpaceInv s' l' ∧ SameSpace s s' ∧ Refines s l s' l' ∧
      (b ≠ 0 → PAGE_SIZE ∣ b ∧ s.base ≤ b ∧ b + n ≤ s.base + s.size ∧ Free s' l' b n ∧ Keeps s l s' l' b n ∧
        (flags &&& VM_MAP_REGION_FLAG_FIXED ≠ 0 → b = a)) :=
    ⟨s,0,l,rfl,h,SameSpace.refl s,hsame,fun hb => absurd rfl hb⟩
  rw [osAllocSpecificRange]
  by_cases hin : losIsRangeInSpace s a n = false
  · rw [if_pos hin]
    exact hnone
  rw [if_neg hin]
  rw [Bool.not_eq_false] at hin
  obtain ⟨hb1,hb2⟩ := rangeInSpace h ha hn hn0 hin
  have hlt : a + n < 2^32 := Nat.lt_of_le_of_lt hb2 h.layout.top_lt
  have hlast : Word.sub (Word.add a n) 1 = a + n - 1 := by
    rw [Word.add_eq hlt, Word.sub_eq (by omega)]
  rw [hlast, Word.sub_eq (show 1 ≤ n by omega)]
  have hfree := free_iff h (two_le_of_page hnd hn0) hlt
  by_cases hc : losRegionFind s a ≠ 0 ∨ losRegionFind s (a + n - 1) ≠ 0 ∨ losRegionRangeFind s a (n - 1) ≠ 0
  · rw [if_pos hc]
    by_cases h1 : flags &&& VM_MAP_REGION_FLAG_FIXED_NOREPLACE ≠ 0
    · rw [if_pos h1]
      exact hnone
    rw [if_neg h1]
    by_cases h2 : flags &&& VM_MAP_REGION_FLAG_FIXED ≠ 0
    · rw [if_pos h2]
      obtain ⟨s',st,l',he,hs',hss,href,hun⟩ := hU h ha hn
      rw [he]
      by_cases hst : st ≠ 0
      · simp only [if_pos hst]
        exact ⟨s',0,l',rfl,hs',hss,href,fun hb => absurd rfl hb⟩
      · simp only [if_neg hst]
        obtain ⟨hkeep,hfree'⟩ := hun had hnd hn0 hlt (not_not.mp hst)
        exact ⟨s',a,l',rfl,hs',hss,href,fun _ => ⟨had,hb1,hb2,hfree',hkeep,fun _ => rfl⟩⟩
    · rw [if_neg h2]
      refine ⟨s,osAllocRange s n,l,rfl,h,SameSpace.refl s,hsame,fun hb => ?_⟩
      obtain ⟨g1,g2,g3,g4⟩ := (allocRange_spec h n).resolve_left hb
      exact ⟨g1,g2,g3,g4,fun q hq _ => ⟨hq,rfl⟩,fun hf => absurd hf h2⟩
  · rw [if_neg hc]
    simp only [not_or, not_not] at hc
    exact ⟨s,a,l,rfl,h,SameSpace.refl s,hsame,fun _ => ⟨had,hb1,hb2,hfree.mp hc,fun q hq _ => ⟨hq,rfl⟩,fun _ => rfl⟩⟩

/-- The outcome of an allocation of n bytes: no region, or a new region p at b. -/
def Allocated (s : LosVmSpace) (l : List Nat) (s' : LosVmSpace) (p n : Nat) (fixed : Nat → Prop) : Prop :=
  ∃ l', SpaceInv s' l' ∧ SameSpace s s' ∧ ((p = 0 ∧ Refines s l s' l') ∨ (p ≠ 0 ∧ p ∈ l' ∧ ∃ b, (s'.region p).range = ⟨b,n⟩ ∧
    Keeps s l s' l' b n ∧ fixed b ∧ ∀ q ∈ l', q ≠ p → Inside s l (s'.region q)))

theorem regionAlloc_spec (hU : UnmapSpec unMMap) (h : SpaceInv s l) (ha : a < 2^32) (had : PAGE_SIZE ∣ a)
    (hn : n < 2^32) (hnd : PAGE_SIZE ∣ n) (hn0 : 0 < n) (flags pgoff : Nat) :
    ∃ s' p, losRegionAlloc unMMap s a n flags pgoff = (s',p) ∧
      Allocated s l s' p n (fun b => (a ≠ 0 → flags &&& VM_MAP_REGION_FLAG_FIXED ≠ 0 → b = a) ∧ (a = 0 → Free s l b n)) := by
  have hrst : ∃ s₁ b l₁, (if a = 0 then (s,osAllocRange s n) else osAllocSpecificRange unMMap s a n flags) = (s₁,b) ∧
      SpaceInv s₁ l₁ ∧ SameSpace s s₁ ∧ Refines s l s₁ l₁ ∧
      (b ≠ 0 → PAGE_SIZE ∣ b ∧ s.base ≤ b ∧ b + n ≤ s.base + s.size ∧ Free s₁ l₁ b n ∧ Keeps s l s₁ l₁ b n ∧
        (a ≠ 0 → flags &&& VM_MAP_REGION_FLAG_FIXED ≠ 0 → b = a) ∧ (a = 0 → Free s l b n)) := by
    by_cases ha0 : a = 0
    · rw [if_pos ha0]
      refine ⟨s,osAllocRange s n,l,rfl,h,SameSpace.refl s,Refines.refl s l,fun hb => ?_⟩
      obtain ⟨g1,g2,g3,g4⟩ := (allocRange_spec h n).resolve_left hb
      exact ⟨g1,g2,g3,g4,fun q hq _ => ⟨hq,rfl⟩,fun hne => absurd ha0 hne,fun _ => g4⟩
    · rw [if_neg ha0]
      obtain ⟨s₁,b,l₁,he,h₁,hss,href,hb⟩ := allocSpecificRange_spec hU h ha had hn hnd hn0 flags
      refine ⟨s₁,b,l₁,he,h₁,hss,href,fun hb0 => ?_⟩
      obtain ⟨g1,g2,g3,g4,g5,g6⟩ := hb hb0
      exact ⟨g1,g2,g3,g4,g5,fun _ => g6,fun h0 => absurd h0 ha0⟩
  obtain ⟨s₁,b,l₁,he,h₁,hss₁,href₁,hb⟩ := hrst
  rw [losRegionAlloc, he]
  by_cases hb0 : b = 0
  · simp only [if_pos hb0]
    exact ⟨s₁,0,rfl,l₁,h₁,hss₁,.inl ⟨rfl,href₁⟩⟩
  simp only [if_neg hb0]
  obtain ⟨g1,g2,g3,g4,g5,g6⟩ := hb hb0
  obtain ⟨s₂,p,hc,h₂,hss₂,-,-,hp⟩ := h₁.createRegion b n flags pgoff
  rw [hc]
  rcases hp with ⟨rfl,hreg⟩ | ⟨hp0,hpu,hpn,hpl,hnew⟩
  · refine ⟨s₂,0,rfl,l₁,h₂,hss₁.trans hss₂,.inl ⟨rfl,fun q hq => ?_⟩⟩
    rw [hreg]
    exact href₁ q hq
  · simp only [if_neg hp0]
    have hne : ∀ q ∈ l₁, q ≠ p := fun q hq hqp => hpl (hqp ▸ hq)
    have hrange : (s₂.region p).range = ⟨b,n⟩ := by
      rw [hnew, Function.update_self]
      rfl
    have hother : ∀ q, q ≠ p → s₂.region q = s₁.region q := by
      intro q hq
      rw [hnew, Function.update_of_ne hq]
    have hok : RangeOk s₂.base s₂.size (s₂.region p) := by
      refine ⟨?_,?_,?_,?_,?_⟩
      · rw [hrange]
        exact hn0
      · rw [hrange]
        exact g1
      · rw [hrange]
        exact hnd
      · rw [hrange, hss₂.base, hss₁.base]
        exact g2
      · rw [fin, hrange, hss₂.base, hss₁.base, hss₂.size, hss₁.size]
        exact g3
    have hfree : Free s₂ l₁ (s₂.region p).range.base (s₂.region p).range.size := by
      intro q hq
      rw [hrange, hother q (hne q hq)]
      exact g4 q hq
    obtain ⟨s₃,l₂,l₃,hi,hl,h₃,hreg₃,hss₃,-⟩ := h₂.insertRegion hp0 hpu hpn hpl hok hfree
    rw [hi]
    have hmem : ∀ q, q ∈ l₂ ++ p :: l₃ ↔ q = p ∨ q ∈ l₁ := by
      intro q
      rw [hl, List.mem_append, List.mem_cons, List.mem_append]
      exact or_left_comm
    refine ⟨s₃,p,rfl,_,h₃,(hss₁.trans hss₂).trans hss₃,.inr ⟨hp0,(hmem p).mpr (.inl rfl),b,?_,?_,g6,?_⟩⟩
    · rw [hreg₃]
      exact hrange
    · intro q hq hdis
      obtain ⟨hq₁,hr₁⟩ := g5 q hq hdis
      refine ⟨(hmem q).mpr (.inr hq₁),?_⟩
      rw [hreg₃, hother q (hne q hq₁), hr₁]
    · intro q hq hqp
      have hq₁ := ((hmem q).mp hq).resolve_left hqp
      rw [hreg₃, hother q hqp]
      exact href₁ q hq₁

private theorem fixed_or (x : Nat) : (x ||| VM_MAP_REGION_FLAG_FIXED) &&& VM_MAP_REGION_FLAG_FIXED ≠ 0 := by
  intro h
  have hbit : VM_MAP_REGION_FLAG_FIXED.testBit 17 = true := by decide
  have hb := congrArg (fun v => v.testBit 17) h
  simp [hbit] at hb

/-- OsVmRegionDup allocates a region at a, or anywhere for a = 0. -/
theorem regionDup_spec (hU : UnmapSpec unMMap) (h : SpaceInv s l) (p : Nat) (ha : a < 2^32) (had : PAGE_SIZE ∣ a)
    (hn : n < 2^32) (hnd : PAGE_SIZE ∣ n) (hn0 : 0 < n) :
    ∃ s' q, osVmRegionDup unMMap s p a n = (s',q) ∧ Allocated s l s' q n (fun b => (a ≠ 0 → b = a) ∧ (a = 0 → Free s l b n)) := by
  rw [osVmRegionDup]
  set flags := if a = 0 then (s.region p).regionFlags &&&
    Word.not (VM_MAP_REGION_FLAG_FIXED ||| VM_MAP_REGION_FLAG_FIXED_NOREPLACE)
    else (s.region p).regionFlags ||| VM_MAP_REGION_FLAG_FIXED with hflags
  have hfix : a ≠ 0 → flags &&& VM_MAP_REGION_FLAG_FIXED ≠ 0 := by
    intro ha0
    rw [hflags, if_neg ha0]
    exact fixed_or _
  obtain ⟨s₁,q,he,l₁,h₁,hss,hq⟩ := regionAlloc_spec hU h ha had hn hnd hn0 flags (s.region p).pgOff
  simp only [he]
  by_cases hq0 : q = 0
  · rw [if_pos hq0]
    refine ⟨s₁,0,rfl,l₁,h₁,hss,.inl ⟨rfl,?_⟩⟩
    exact (hq.resolve_right fun hc => hc.1 hq0).2
  rw [if_neg hq0]
  obtain ⟨-,hql,b,hrange,hkeep,hfixed,hins⟩ := hq.resolve_left fun hc => hq0 hc.1
  have hnew : ∀ r : LosVmMapRegion, r.range = (s₁.region q).range →
      Allocated s l (s₁.setRegion q r) q n (fun b => (a ≠ 0 → b = a) ∧ (a = 0 → Free s l b n)) := by
    intro r hr
    refine ⟨l₁,h₁.setRegion_range hr,hss.trans sameSpace_setRegion,.inr ⟨hq0,hql,b,?_,fun x hx hdis => ?_,?_,?_⟩⟩
    · rw [region_setRegion, if_pos rfl, hr]
      exact hrange
    · obtain ⟨hx₁,hr₁⟩ := hkeep x hx hdis
      refine ⟨hx₁,?_⟩
      by_cases hxq : x = q
      · -- the new region meets the range that x does not meet
        exfalso
        rw [hxq] at hr₁ hdis
        rw [fin, ← hr₁, hrange] at hdis
        simp only at hdis
        omega
      · rw [region_setRegion, if_neg hxq, hr₁]
    · exact ⟨fun ha0 => hfixed.1 ha0 (hfix ha0),hfixed.2⟩
    · intro x hx hxq
      rw [region_setRegion, if_neg hxq]
      exact hins x hx hxq
  refine ⟨_,q,rfl,hnew _ ?_⟩
  split_ifs <;> rfl

end LiteOsKernel.Vm
