import Mathlib.Order.CompletePartialOrder
import LiteOsKernel.Vm.PhysAlloc
import LiteOsKernel.Lib.Run
import Mathlib.Algebra.BigOperators.Group.List.Basic

/-! All segments together: startup, runs of allocations and releases, and the buddy
invariant over every run. -/
namespace LiteOsKernel.Vm
open Buddy

variable {s s' : VmPhys} {i j k p n : Nat} {T T' A : Set Nat}

def FreeBlock (s : VmPhys) (i k p : Nat) : Prop := k < VM_LIST_ORDER_MAX ∧ p ∈ (s.seg i).freeList k

structure SegmentInvariant (s : VmPhys) (i : Nat) (allocated : Set Nat) : Prop where
  disjoint : ∀ k p l q, FreeBlock s i k p → FreeBlock s i l q → (k,p) ≠ (l,q) → Disjoint (block p k) (block q l)
  inside : ∀ k p, FreeBlock s i k p → segLo s i ≤ p ∧ p + 2^k ≤ segHi s i
  aligned : ∀ k p, FreeBlock s i k p → 2^k*PAGE_SIZE ∣ (s.page p).physAddr
  order_head : ∀ k p, segLo s i ≤ p → p < segHi s i → k < VM_LIST_ORDER_MAX → ((s.page p).order = k ↔ FreeBlock s i k p)
  order_other : ∀ p, segLo s i ≤ p → p < segHi s i → (∀ k, ¬FreeBlock s i k p) → (s.page p).order = VM_LIST_ORDER_MAX
  nodup : ∀ k < VM_LIST_ORDER_MAX, ((s.seg i).freeList k).Nodup
  count : ∀ k < VM_LIST_ORDER_MAX, (s.seg i).listCnt k = ((s.seg i).freeList k).length
  pages : ∀ x, segLo s i ≤ x → x < segHi s i → (x ∈ allocated ↔ ¬∃ k p, FreeBlock s i k p ∧ x ∈ block p k)
  buddies : ∀ k p q, k + 1 < VM_LIST_ORDER_MAX → FreeBlock s i k p → FreeBlock s i k q →
    (s.page q).physAddr ≠ (s.page p).physAddr ^^^ 2^(PAGE_SHIFT + k)

/-- Every segment is divided into free blocks and allocated pages, without buddies left to merge. -/
def BuddyInvariant (s : VmPhys) (allocated : Set Nat) : Prop :=
  (∀ i < s.segNum, SegmentInvariant s i allocated) ∧
  ∀ x ∈ allocated, ∃ i < s.segNum, segLo s i ≤ x ∧ x < segHi s i

private theorem SegInv.segmentInvariant (h : SegInv s i T) : SegmentInvariant s i T := by
  have hblock : ∀ {k p}, FreeBlock s i k p → segLo s i ≤ p ∧ p < segHi s i ∧ (s.page p).order = k :=
    fun hb => and_assoc.mp ((h.lists _ hb.1 _).mp hb.2)
  refine ⟨?_,?_,?_,?_,?_,h.nodup,h.count,?_,?_⟩
  · intro k p l q hp hq hne
    obtain ⟨h1,h2,h3⟩ := hblock hp
    obtain ⟨h4,h5,h6⟩ := hblock hq
    rw [Set.disjoint_left]
    intro x hx hx'
    have hpq : p ≠ q := by
      rintro rfl
      exact hne (by rw [← h3, ← h6])
    rw [← h3] at hx
    rw [← h6] at hx'
    exact h.free.disjoint h1 h2 (by rw [h3]; exact hp.1) h4 h5 (by rw [h6]; exact hq.1) hpq hx hx'
  · intro k p hp
    obtain ⟨h1,h2,h3⟩ := hblock hp
    have := h.free.inside p h1 h2 (by rw [h3]; exact hp.1)
    rw [h3] at this
    exact ⟨h1,this⟩
  · intro k p hp
    obtain ⟨h1,h2,h3⟩ := hblock hp
    have := h.free.aligned p h1 h2 (by rw [h3]; exact hp.1)
    rw [h3] at this
    rw [h.addr p h1 h2]
    exact Nat.mul_dvd_mul_right this 4096
  · intro k p h1 h2 hk
    constructor
    · intro h3
      exact ⟨hk,(h.lists k hk p).mpr ⟨⟨h1,h2⟩,h3⟩⟩
    · intro hb
      exact (hblock hb).2.2
  · intro p h1 h2 hno
    by_contra hne
    have hlt : (s.page p).order < VM_LIST_ORDER_MAX := lt_of_le_of_ne (h.free.le_max p h1 h2) hne
    exact hno _ ⟨hlt,(h.lists _ hlt p).mpr ⟨⟨h1,h2⟩,rfl⟩⟩
  · intro x h1 h2
    rw [h.free.cover x h1 h2]
    constructor
    · rintro hx ⟨k,p,hb,hm⟩
      obtain ⟨h3,h4,h5⟩ := hblock hb
      rw [← h5] at hm
      exact hx p h3 h4 (by rw [h5]; exact hb.1) hm
    · intro hx p h3 h4 h5 hm
      exact hx ⟨_,p,⟨h5,(h.lists _ h5 p).mpr ⟨⟨h3,h4⟩,rfl⟩⟩,hm⟩
  · intro k p q hk hp hq he
    obtain ⟨h1,h2,h3⟩ := hblock hp
    obtain ⟨h4,h5,h6⟩ := hblock hq
    have hk' : k < 20 := by
      simp only [VM_LIST_ORDER_MAX] at hk
      omega
    have hpow : 2^(PAGE_SHIFT + k) = vmOrderToPhys k := by
      rw [vmOrderToPhys_eq hk', pow_add, PAGE_SHIFT]
      ring
    rw [h.addr p h1 h2, h.addr q h4 h5, hpow, xor_frame _ hk'] at he
    have := h.free.lonely p q h1 h2 h4 h5 (by rw [h3]; exact hk) (by rw [h3]; exact h6)
    rw [h3] at this
    exact this (Nat.eq_of_mul_eq_mul_right (by norm_num) he)

-- The layout of the segments

structure Layout (s : VmPhys) : Prop where
  num_le : s.segNum ≤ VM_PHYS_SEG_MAX
  start_mod : ∀ i < s.segNum, (s.seg i).start % 4096 = 0
  size_mod : ∀ i < s.segNum, (s.seg i).size % 4096 = 0
  end_lt : ∀ i < s.segNum, (s.seg i).start + (s.seg i).size < 2^32
  apart : ∀ i j, i < j → j < s.segNum → segHi s i ≤ segLo s j

theorem Layout.only (h : Layout s) (ho : Only s s' i) : Layout s' := by
  refine ⟨?_,?_,?_,?_,?_⟩ <;> rw [ho.segNum]
  · exact h.num_le
  · intro j hj; rw [ho.start]; exact h.start_mod j hj
  · intro j hj; rw [ho.size]; exact h.size_mod j hj
  · intro j hj; rw [ho.start, ho.size]; exact h.end_lt j hj
  · intro j l hjl hl; rw [ho.hi, ho.lo]; exact h.apart j l hjl hl

theorem Layout.outside (h : Layout s) (hi : i < s.segNum) (hj : j < s.segNum) (hne : j ≠ i) (h1 : segLo s j ≤ p)
    (h2 : p < segHi s j) : p < segLo s i ∨ segHi s i ≤ p := by
  rcases Nat.lt_or_gt_of_ne hne with hlt | hlt
  · have := h.apart j i hlt hi
    omega
  · have := h.apart i j hlt hj
    omega

structure PhysInv (s : VmPhys) (A : Set Nat) : Prop where
  layout : Layout s
  segs : ∀ i < s.segNum, SegInv s i A
  within : ∀ x ∈ A, ∃ i < s.segNum, segLo s i ≤ x ∧ x < segHi s i

private theorem PhysInv.buddyInvariant (h : PhysInv s A) : BuddyInvariant s A :=
  ⟨fun i hi => (h.segs i hi).segmentInvariant,h.within⟩

/-- Work on one segment keeps the invariant of all. -/
theorem PhysInv.step {A' : Set Nat} (h : PhysInv s A) (hi : i < s.segNum) (h' : SegInv s' i A') (ho : Only s s' i)
    (hA : ∀ x, x < segLo s i ∨ segHi s i ≤ x → (x ∈ A' ↔ x ∈ A)) : PhysInv s' A' := by
  refine ⟨h.layout.only ho,fun j hj => ?_,fun x hx => ?_⟩
  · rw [ho.segNum] at hj
    by_cases hji : j = i
    · rw [hji]
      exact h'
    · exact (h.segs j hj).other ho hji (fun p => h.layout.outside hi hj hji)
        (fun p h1 h2 => hA p (h.layout.outside hi hj hji h1 h2))
  · rw [ho.segNum]
    by_cases hin : segLo s i ≤ x ∧ x < segHi s i
    · exact ⟨i,hi,by rw [ho.lo, ho.hi]; exact hin⟩
    · obtain ⟨j,hj,hx'⟩ := h.within x ((hA x (by omega)).mp hx)
      exact ⟨j,hj,by rw [ho.lo, ho.hi]; exact hx'⟩

-- Startup

private theorem segCreate_mem {segs : List (Nat × Nat)} {st sz : Nat} {a : Nat × Nat} (h : a ∈ osVmPhysSegCreate segs st sz) :
    a ∈ segs ∨ a = (st,sz) := by
  rw [osVmPhysSegCreate] at h
  split_ifs at h with hl
  · exact .inl h
  · rcases List.mem_append.mp h with h | h
    · exact .inl (List.mem_of_mem_take h)
    · rcases List.mem_cons.mp h with h | h
      · exact .inr h
      · refine .inl (List.mem_reverse.mp ?_)
        exact (List.takeWhile_prefix _).subset (List.mem_reverse.mp h)

private theorem segCreate_length {segs : List (Nat × Nat)} (st sz : Nat) (h : segs.length ≤ VM_PHYS_SEG_MAX) :
    (osVmPhysSegCreate segs st sz).length ≤ VM_PHYS_SEG_MAX := by
  rw [osVmPhysSegCreate]
  split_ifs with hl
  · exact h
  · have := (List.takeWhile_prefix (l := segs.reverse) fun a => decide (Word.add st sz < a.1)).length_le
    simp only [List.length_append, List.length_take, List.length_cons, List.length_reverse] at this ⊢
    omega

private theorem segAdd_spec : ∀ (areas segs : List (Nat × Nat)), segs.length ≤ VM_PHYS_SEG_MAX →
    (areas.foldl (fun segs a => osVmPhysSegCreate segs a.1 a.2) segs).length ≤ VM_PHYS_SEG_MAX ∧
    ∀ a ∈ areas.foldl (fun segs a => osVmPhysSegCreate segs a.1 a.2) segs, a ∈ segs ∨ a ∈ areas
  | [], segs, h => ⟨h,fun _ ha => .inl ha⟩
  | b :: areas, segs, h => by
    obtain ⟨h1,h2⟩ := segAdd_spec areas (osVmPhysSegCreate segs b.1 b.2) (segCreate_length _ _ h)
    refine ⟨h1,fun a ha => ?_⟩
    rcases h2 a ha with h3 | h3
    · rcases segCreate_mem h3 with h4 | h4
      · exact .inl h4
      · exact .inr (h4 ▸ List.mem_cons_self)
    · exact .inr (List.mem_cons_of_mem b h3)

private theorem init_lo_mono (page : Nat → LosVmPage) (segs : List (Nat × Nat)) (hij : i < j) (hj : j < segs.length) :
    segHi (osVmPhysInit page segs) i ≤ segLo (osVmPhysInit page segs) j := by
  set f : Nat × Nat → Nat := fun a => a.2 >>> PAGE_SHIFT with hf
  have hlo : ∀ l, segLo (osVmPhysInit page segs) l = ((segs.map f).take l).sum := by
    intro l
    rw [← List.map_take]
    rfl
  have hstep : ∀ l, l < segs.length → segHi (osVmPhysInit page segs) l = segLo (osVmPhysInit page segs) (l+1) := by
    intro l hl
    rw [hlo, List.sum_take_succ _ l (by rw [List.length_map]; exact hl), ← hlo, List.getElem_map]
    simp only [segHi, segLo, osVmPhysInit, hf, List.getD_eq_getElem segs (0,0) hl, Nat.shiftRight_eq_div_pow, PAGE_SHIFT]
  have hmono : ∀ d, i + 1 + d < segs.length → segLo (osVmPhysInit page segs) (i+1) ≤ segLo (osVmPhysInit page segs) (i+1+d) := by
    intro d
    induction d with
    | zero => exact fun _ => le_rfl
    | succ d ih =>
      intro hd
      refine (ih (by omega)).trans ?_
      rw [← Nat.add_assoc, ← hstep _ (by omega)]
      exact Nat.le_add_right _ _
  rw [hstep i (by omega)]
  have := hmono (j - (i+1)) (by omega)
  rwa [Nat.add_sub_cancel' hij] at this

private theorem init_layout (page : Nat → LosVmPage) {areas : List (Nat × Nat)}
    (h : ∀ a ∈ areas, a.1 % 4096 = 0 ∧ a.2 % 4096 = 0 ∧ a.1 + a.2 < 2^32) :
    Layout (osVmPhysInit page (osVmPhysSegAdd areas)) := by
  obtain ⟨hlen,hmem⟩ := segAdd_spec areas [] (Nat.zero_le _)
  have harea : ∀ i < (osVmPhysSegAdd areas).length, ∃ a ∈ areas, (osVmPhysSegAdd areas).getD i (0,0) = a := by
    intro i hi
    rw [List.getD_eq_getElem _ _ hi]
    rcases hmem _ (List.getElem_mem hi) with h1 | h1
    · exact absurd h1 List.not_mem_nil
    · exact ⟨_,h1,rfl⟩
  refine ⟨hlen,?_,?_,?_,fun i j hij hj => init_lo_mono page _ hij hj⟩
  all_goals
    intro i hi
    obtain ⟨a,ha,he⟩ := harea i hi
    simp only [osVmPhysInit, he]
  · exact (h a ha).1
  · exact (h a ha).2.1
  · exact (h a ha).2.2

/-- The pages of a segment after VMPAGEINIT. -/
private theorem pageInitLoop_spec (segID : Nat) : ∀ n (s : VmPhys) (page pa : Nat), pa + n*4096 < 2^32 →
    (pageInitLoop segID n s page pa).seg = s.seg ∧ (pageInitLoop segID n s page pa).segNum = s.segNum ∧
    (∀ p, p < page ∨ page + n ≤ p → (pageInitLoop segID n s page pa).page p = s.page p) ∧
    ∀ p, page ≤ p → p < page + n → (pageInitLoop segID n s page pa).page p =
      { physAddr := pa + (p - page)*4096, segID := segID, order := VM_LIST_ORDER_MAX, nPages := 0, refCounts := 0 }
  | 0, s, page, pa, _ => ⟨rfl,rfl,fun _ _ => rfl,fun p h1 h2 => by omega⟩
  | n + 1, s, page, pa, h => by
    have hadd : Word.add pa PAGE_SIZE = pa + 4096 := Word.add_eq (by rw [PAGE_SIZE]; omega)
    obtain ⟨h1,h2,h3,h4⟩ := pageInitLoop_spec segID n (osVmPageInit s page pa segID) (page+1) (pa+4096) (by omega)
    rw [pageInitLoop, hadd]
    refine ⟨h1,h2,?_,?_⟩
    · intro p hp
      rw [h3 p (by omega)]
      exact if_neg (by omega)
    · intro p hp1 hp2
      by_cases hp : p = page
      · subst hp
        rw [h3 p (by omega), Nat.sub_self, Nat.zero_mul, Nat.add_zero]
        exact if_pos rfl
      · rw [h4 p (by omega) (by omega), show pa + 4096 + (p - (page+1))*4096 = pa + (p - page)*4096 by omega]

/-- A segment whose pages have not been set up yet. -/
def Fresh (s : VmPhys) (i : Nat) : Prop := (s.seg i).freeList = (fun _ => []) ∧ (s.seg i).listCnt = fun _ => 0

private theorem segStartup_spec (hl : Layout s) (hi : i < s.segNum) (hf : Fresh s i) :
    ∃ s', segStartup s i = .ok s' ∧ SegInv s' i ∅ ∧ Only s s' i := by
  have hst := hl.start_mod i hi
  have hsz := hl.size_mod i hi
  have hend := hl.end_lt i hi
  have hsh : (s.seg i).size >>> PAGE_SHIFT = (s.seg i).size/4096 := Nat.shiftRight_eq_div_pow _ _
  obtain ⟨h1,h2,h3,h4⟩ := pageInitLoop_spec i ((s.seg i).size/4096) s (s.seg i).pageBase (s.seg i).start (by omega)
  rw [segStartup, hsh]
  set s₁ := pageInitLoop i ((s.seg i).size/4096) s (s.seg i).pageBase (s.seg i).start
  have ho : Only s s₁ i := by
    refine ⟨h2,?_,?_,?_,?_,h3⟩
    all_goals
      intro j
      rw [h1]
    exact fun _ => rfl
  have hinv : SegInv s₁ i (pages (segLo s i) ((s.seg i).size/4096)) := by
    have hpage : ∀ p, segLo s₁ i ≤ p → p < segHi s₁ i → s₁.page p =
        { physAddr := (s.seg i).start + (p - (s.seg i).pageBase)*4096, segID := i, order := VM_LIST_ORDER_MAX,
          nPages := 0, refCounts := 0 } := by
      rw [ho.lo, ho.hi]
      exact h4
    refine ⟨hi.trans_le hl.num_le,by rw [h1]; exact hst,by rw [h1]; exact hsz,by rw [h1]; exact hend,?_,?_,?_,?_,?_,?_⟩
    · intro p hp1 hp2
      rw [hpage p hp1 hp2]
    · intro p hp1 hp2
      rw [hpage p hp1 hp2, ho.frame, segFrame]
      simp only
      omega
    · refine Free.start _ _ _ _ (fun p hp1 hp2 => by rw [hpage p hp1 hp2]) (fun p hp1 hp2 => ⟨?_,?_⟩)
      · rw [ho.lo] at hp1
        exact hp1
      · rw [ho.hi] at hp2
        exact hp2
    · intro k hk p
      rw [h1, hf.1]
      constructor
      · exact fun hm => absurd hm List.not_mem_nil
      · rintro ⟨⟨hp1,hp2⟩,hp3⟩
        rw [hpage p hp1 hp2] at hp3
        simp only at hp3
        omega
    · intro k _
      rw [h1, hf.1]
      exact List.nodup_nil
    · intro k _
      rw [h1, hf.1, hf.2]
      rfl
  obtain ⟨s₂,hfree,h₂,ho₂⟩ := hinv.freeContiguous (p := segLo s i) (n := (s.seg i).size/4096)
    (by rw [ho.lo]) (by rw [ho.hi]; exact le_rfl) (fun _ hx => hx)
  refine ⟨s₂,hfree,?_,ho.trans ho₂⟩
  rw [Set.sdiff_self] at h₂
  exact h₂

private theorem startupLoop_spec : ∀ n i (s : VmPhys), Layout s → i + n = s.segNum → (∀ j < i, SegInv s j ∅) →
    (∀ j, i ≤ j → Fresh s j) →
    ∃ s', startupLoop n i s = .ok s' ∧ Layout s' ∧ ∀ j < s'.segNum, SegInv s' j ∅
  | 0, i, s, hl, hn, hdone, _ => ⟨s,rfl,hl,fun j hj => hdone j (by omega)⟩
  | n + 1, i, s, hl, hn, hdone, hfresh => by
    obtain ⟨s₁,he,h₁,ho⟩ := segStartup_spec hl (show i < s.segNum by omega) (hfresh i le_rfl)
    obtain ⟨s₂,hloop,h₂,h₃⟩ := startupLoop_spec n (i+1) s₁ (hl.only ho) (by rw [ho.segNum]; omega) (by
        intro j hj
        by_cases hji : j = i
        · rw [hji]
          exact h₁
        · exact (hdone j (by omega)).other ho hji
            (fun p => hl.outside (by omega) (by omega) hji) (fun _ _ _ => Iff.rfl))
      (by
        intro j hj
        rw [Fresh, ho.seg j (by omega)]
        exact hfresh j (by omega))
    refine ⟨s₂,?_,h₂,h₃⟩
    rw [startupLoop]
    simp only [he, bind, Except.bind]
    exact hloop

theorem startup_spec (page : Nat → LosVmPage) {areas : List (Nat × Nat)}
    (h : ∀ a ∈ areas, a.1 % 4096 = 0 ∧ a.2 % 4096 = 0 ∧ a.1 + a.2 < 2^32) :
    ∃ s, osVmPageStartup page areas = .ok s ∧ PhysInv s ∅ := by
  obtain ⟨s,he,hl,hs⟩ := startupLoop_spec _ 0 _ (init_layout page h) (Nat.zero_add _) (fun j hj => absurd hj (Nat.not_lt_zero j))
    (fun j _ => ⟨rfl,rfl⟩)
  exact ⟨s,he,hl,hs,fun x hx => absurd hx (Set.notMem_empty x)⟩

-- Runs

/-- The allocator with the set of pages that are allocated. -/
structure PhysMem where
  phys : VmPhys
  allocated : Set Nat

inductive Call where
  | allocContiguous (nPages : Nat)
  | pageAlloc
  | freeContiguous (page nPages : Nat)
  deriving DecidableEq

/-- The pages a caller gets. -/
def PhysMem.give (m : PhysMem) (n : Nat) : VmPhys × Option Nat → PhysMem
  | (s, none) => ⟨s,m.allocated⟩
  | (s, some page) => ⟨s,m.allocated ∪ pages page n⟩

def PhysMem.call (m : PhysMem) : Call → Panics PhysMem
  | .allocContiguous n => m.give n <$> losPhysPagesAllocContiguous m.phys n
  | .pageAlloc => m.give 1 <$> losPhysPageAlloc m.phys
  | .freeContiguous page n => (fun s => ⟨s,m.allocated \ pages page n⟩) <$> osVmPhysPagesFreeContiguous m.phys page n

/-- Callers ask for a page or more, and free ranges of allocated pages of one segment. -/
def PhysMem.Legal (m : PhysMem) : Call → Prop
  | .allocContiguous n => 0 < n ∧ n < 2^32
  | .pageAlloc => True
  | .freeContiguous page n =>
    ∃ i < m.phys.segNum, segLo m.phys i ≤ page ∧ page + n ≤ segHi m.phys i ∧ pages page n ⊆ m.allocated

/-- The requests whose sizes and addresses stay below 2^32: the loop for the order ends, and the
first page that passes the scan for maximal blocks does not pass it by wrap-around. -/
def Call.NoWrap (s : VmPhys) : Call → Prop
  | .allocContiguous n => n ≤ 2^31 ∧ (256 < n → ∀ i < s.segNum,
      (∀ j < i, ∀ p ∈ (s.seg j).freeList (VM_LIST_ORDER_MAX - 1), largeFits s (s.seg j) n p = false) →
      LargeExact s (s.seg i) n)
  | _ => True

/-- Startup and the calls that end. -/
def physSystem (page : Nat → LosVmPage) (areas : List (Nat × Nat)) : Run.System PhysMem Call where
  init m := ∃ s, osVmPageStartup page areas = .ok s ∧ m = ⟨s,∅⟩
  pre m c := m.Legal c ∧ ∃ m', m.call c = .ok m'
  run m c := (m.call c).toOption.getD m

/-- The states after startup and any number of calls that satisfy ok. -/
abbrev Reachable (ok : VmPhys → Call → Prop) (page : Nat → LosVmPage) (areas : List (Nat × Nat)) :=
  Run.Reachable (physSystem page areas) fun m c => ok m.phys c

private theorem reachable_call {ok : VmPhys → Call → Prop} {page : Nat → LosVmPage} {areas : List (Nat × Nat)} {m m' : PhysMem}
    (before : Reachable ok page areas m) (c : Call) (legal : m.Legal c) (within : ok m.phys c) (done : m.call c = .ok m') :
    Reachable ok page areas m' := by
  have hrun : (physSystem page areas).run m c = m' := by simp only [physSystem, done, Except.toOption, Option.getD_some]
  exact hrun ▸ before.call c ⟨legal,m',done⟩ within

/-- The counters that OsVmPhysPagesGet resets are read by no free list operation. -/
private theorem SegInv.setCounts (h : SegInv s i T) (hp : segLo s i ≤ p) (hph : p < segHi s i) (r c : Nat) :
    SegInv (s.setPage p { s.page p with refCounts := r, nPages := c }) i T ∧
    Only s (s.setPage p { s.page p with refCounts := r, nPages := c }) i := by
  set s₁ := s.setPage p { s.page p with refCounts := r, nPages := c } with hs₁
  have hpage : ∀ q, (s₁.page q).segID = (s.page q).segID ∧ (s₁.page q).physAddr = (s.page q).physAddr ∧
      (s₁.page q).order = (s.page q).order := by
    intro q
    simp only [hs₁, VmPhys.setPage]
    split
    · next hq => rw [hq]; exact ⟨rfl,rfl,rfl⟩
    · exact ⟨rfl,rfl,rfl⟩
  have ho : Only s s₁ i :=
    ⟨rfl,fun _ => rfl,fun _ => rfl,fun _ => rfl,fun _ _ => rfl,fun q hq => if_neg (by omega)⟩
  refine ⟨h.relist ho (fun q => ⟨(hpage q).1,(hpage q).2.1⟩) ?_ ?_ h.nodup h.count,ho⟩
  · exact h.free.congr (fun q _ _ => (hpage q).2.2) (fun _ _ _ => Iff.rfl)
  · intro k hk q
    rw [(hpage q).2.2]
    exact h.lists k hk q

/-- What a request that is served gives: n consecutive pages of one segment that were free and are allocated now. -/
structure Served (s s' : VmPhys) (A : Set Nat) (p n : Nat) : Prop where
  inside : ∃ i < s.segNum, segLo s i ≤ p ∧ p + n ≤ segHi s i
  free : ∀ x ∈ pages p n, x ∉ A
  after : PhysInv s' (A ∪ pages p n)
  segments : s'.segNum = s.segNum ∧ ∀ i, segLo s' i = segLo s i ∧ segHi s' i = segHi s i

theorem PhysInv.pagesGetLoop (h : PhysInv s A) (hn : 0 < n) (hmax : n ≤ 2^31) : ∀ c i, i + c = s.segNum →
    (256 < n → ∀ j < i, ∀ p ∈ (s.seg j).freeList (VM_LIST_ORDER_MAX - 1), largeFits s (s.seg j) n p = false) →
    (256 < n → ∀ i < s.segNum,
      (∀ j < i, ∀ p ∈ (s.seg j).freeList (VM_LIST_ORDER_MAX - 1), largeFits s (s.seg j) n p = false) →
      LargeExact s (s.seg i) n) →
    (pagesGetLoop n c i s = .ok (s,none) ∧ ∀ j, i ≤ j → j < s.segNum → Refuses s j n) ∨
    ∃ s' p, pagesGetLoop n c i s = .ok (s',some p) ∧ Served s s' A p n
  | 0, i, hi, _, _ => .inl ⟨rfl,fun j h1 h2 => by omega⟩
  | c + 1, i, hi, hbefore, hx => by
    have hlt : i < s.segNum := by omega
    rw [Vm.pagesGetLoop]
    rcases (h.segs i hlt).pagesAlloc hn hmax (fun h256 => hx h256 i hlt (hbefore h256)) with
      ⟨he,hnone⟩ | ⟨s₁,p,he,hp,hin,hdis,h₁,ho₁⟩
    · simp only [he, bind, Except.bind]
      have hbefore' : 256 < n → ∀ j < i + 1, ∀ p ∈ (s.seg j).freeList (VM_LIST_ORDER_MAX - 1), largeFits s (s.seg j) n p = false := by
        intro h256 j hj
        rcases Nat.lt_succ_iff_lt_or_eq.mp hj with h1 | h1
        · exact hbefore h256 j h1
        · rw [h1]
          exact hnone.large h256
      rcases h.pagesGetLoop hn hmax c (i+1) (by omega) hbefore' hx with ⟨hrest,hall⟩ | hserved
      · refine .inl ⟨hrest,fun j h1 h2 => ?_⟩
        rcases Nat.eq_or_lt_of_le h1 with h1 | h1
        · exact h1 ▸ hnone
        · exact hall j h1 h2
      · exact .inr hserved
    · simp only [he, bind, Except.bind]
      obtain ⟨h₂,ho₂⟩ := h₁.setCounts (p := p) (by rw [ho₁.lo]; exact hp) (by rw [ho₁.hi]; omega) 0 n
      have ho := ho₁.trans ho₂
      refine .inr ⟨_,p,rfl,⟨i,hlt,hp,hin⟩,hdis,h.step hlt h₂ ho fun x hx => ?_,ho.segNum,fun j => ⟨ho.lo j,ho.hi j⟩⟩
      exact ⟨fun h3 => h3.resolve_right fun h4 => by
        have := h4.1
        have := h4.2
        omega,.inl⟩

/-- Every call within the bounds ends without a panic and keeps the invariant. -/
theorem PhysInv.call {m : PhysMem} {c : Call} (h : PhysInv m.phys m.allocated) (hl : m.Legal c) (hw : c.NoWrap m.phys) :
    ∃ m', m.call c = .ok m' ∧ PhysInv m'.phys m'.allocated := by
  cases c with
  | allocContiguous n =>
    simp only [PhysMem.call, losPhysPagesAllocContiguous, if_neg (show ¬n = 0 by have := hl.1; omega), osVmPhysPagesGet]
    rcases h.pagesGetLoop hl.1 hw.1 _ 0 (Nat.zero_add _) (fun _ j hj => absurd hj (Nat.not_lt_zero j)) hw.2 with
      ⟨he,-⟩ | ⟨s',p,he,h'⟩
    · rw [he]
      exact ⟨_,rfl,h⟩
    · rw [he]
      exact ⟨_,rfl,h'.after⟩
  | pageAlloc =>
    simp only [PhysMem.call, losPhysPageAlloc, osVmPhysPagesGet]
    rcases h.pagesGetLoop (n := 1) (by norm_num) (by norm_num) _ 0 (Nat.zero_add _)
      (fun _ j hj => absurd hj (Nat.not_lt_zero j)) (fun h1 => absurd h1 (by norm_num)) with ⟨he,-⟩ | ⟨s',p,he,h'⟩
    · rw [he]
      exact ⟨_,rfl,h⟩
    · rw [he]
      exact ⟨_,rfl,h'.after⟩
  | freeContiguous page n =>
    obtain ⟨i,hi,h1,h2,h3⟩ := hl
    obtain ⟨s',he,h',ho⟩ := (h.segs i hi).freeContiguous h1 h2 h3
    simp only [PhysMem.call, he]
    refine ⟨_,rfl,h.step hi h' ho fun x hx => ?_⟩
    exact ⟨fun h4 => h4.1,fun h4 => ⟨h4,fun h5 => by
      have := h5.1
      have := h5.2
      omega⟩⟩

theorem physInv_of_reachable {page : Nat → LosVmPage} {areas : List (Nat × Nat)} {m : PhysMem}
    (h : ∀ a ∈ areas, a.1 % 4096 = 0 ∧ a.2 % 4096 = 0 ∧ a.1 + a.2 < 2^32) (hr : Reachable (fun s c => c.NoWrap s) page areas m) :
    PhysInv m.phys m.allocated := by
  refine hr.invariant (I := fun m => PhysInv m.phys m.allocated) ?_ fun m c hm hpre within => ?_
  · rintro - ⟨s,started,rfl⟩
    obtain ⟨s',he,hs⟩ := startup_spec page h
    rw [started] at he
    cases he
    exact hs
  · obtain ⟨m',he,hm'⟩ := hm.call hpre.1 within
    have hrun : (physSystem page areas).run m c = m' := by simp only [physSystem, he, Except.toOption, Option.getD_some]
    exact hrun ▸ hm'

/-- For segments that end below 2^32, startup and every run of calls without wrap-around keep the
buddy invariant, and none of these calls panics. -/
theorem buddyInvariant_of_reachable (page : Nat → LosVmPage) (areas : List (Nat × Nat))
    (h : ∀ a ∈ areas, a.1 % PAGE_SIZE = 0 ∧ a.2 % PAGE_SIZE = 0 ∧ a.1 + a.2 < 2^32) :
    (∃ s, osVmPageStartup page areas = .ok s) ∧
    ∀ m, Reachable (fun s c => c.NoWrap s) page areas m → BuddyInvariant m.phys m.allocated ∧
      ∀ c, m.Legal c → c.NoWrap m.phys → ∃ m', m.call c = .ok m' := by
  refine ⟨?_,fun m hr => ?_⟩
  · obtain ⟨s,he,-⟩ := startup_spec page h
    exact ⟨s,he⟩
  · have hi := physInv_of_reachable h hr
    refine ⟨hi.buddyInvariant,fun c hl hw => ?_⟩
    obtain ⟨m',he,-⟩ := hi.call hl hw
    exact ⟨m',he⟩

/-- The state in which a call ended. -/
def ended {α : Type} (state : α → VmPhys) : Panics α → VmPhys
  | .ok a => state a
  | .error s => s

def returned {α : Type} : Panics α → Bool
  | .ok _ => true
  | .error _ => false

def pageOf : Panics (VmPhys × Option Nat) → Option Nat
  | .ok (_, r) => r
  | .error _ => none

private theorem eq_ok {x : Panics VmPhys} (h : returned x = true) : x = .ok (ended id x) := by
  cases x with
  | ok s => rfl
  | error s => exact absurd h (by simp [returned])

theorem eq_error {α : Type} {x : Panics α} {state : α → VmPhys} (h : returned x = false) : x = .error (ended state x) := by
  cases x with
  | ok s => exact absurd h (by simp [returned])
  | error s => rfl

private theorem call_alloc {m : PhysMem} (h : pageOf (losPhysPagesAllocContiguous m.phys n) = some p) :
    m.call (.allocContiguous n) =
      .ok ⟨ended Prod.fst (losPhysPagesAllocContiguous m.phys n),m.allocated ∪ pages p n⟩ := by
  rw [PhysMem.call]
  rcases he : losPhysPagesAllocContiguous m.phys n with s | ⟨s,r⟩
  · rw [he] at h
    cases h
  · rw [he, pageOf] at h
    rw [h]
    rfl

private theorem call_free {m : PhysMem} (h : returned (osVmPhysPagesFreeContiguous m.phys p n) = true) :
    m.call (.freeContiguous p n) =
      .ok ⟨ended id (osVmPhysPagesFreeContiguous m.phys p n),m.allocated \ pages p n⟩ := by
  rw [PhysMem.call, eq_ok h]
  rfl

def areaStart (areas : List (Nat × Nat)) : VmPhys := ended id (osVmPageStartup (fun _ => default) areas)

/-- A request for three pages of a segment that starts at an odd page. -/
theorem buddyInvariant_eight_pages :
    BuddyInvariant (ended Prod.fst (losPhysPagesAllocContiguous (areaStart [(0x80001000,0x8000)]) 3)) (pages 3 3) := by
  have hareas : ∀ a ∈ [((0x80001000 : Nat),(0x8000 : Nat))],
      a.1 % PAGE_SIZE = 0 ∧ a.2 % PAGE_SIZE = 0 ∧ a.1 + a.2 < 2^32 := by decide
  have hstart : Reachable (fun s c => c.NoWrap s) (fun _ => default) [(0x80001000,0x8000)]
      ⟨areaStart [(0x80001000,0x8000)],∅⟩ := .init ⟨_,eq_ok (by decide +kernel),rfl⟩
  have hstep := reachable_call hstart (.allocContiguous 3) (by norm_num [PhysMem.Legal]) (by norm_num [Call.NoWrap])
    (call_alloc (p := 3) (by decide +kernel))
  have h := ((buddyInvariant_of_reachable (fun _ => default) _ hareas).2 _ hstep).1
  rw [Set.empty_union] at h
  exact h

/-- The page in front of them stays free. -/
example : pageOf (losPhysPagesAllocContiguous (ended Prod.fst (losPhysPagesAllocContiguous (areaStart [(0x80001000,0x8000)]) 3)) 1) = some 0 := by
  decide +kernel

-- Wrap-around

/-- The segment of the last two pages below 2^32, after a page was allocated and freed again. -/
def topFreed : VmPhys :=
  ended id (osVmPhysPagesFreeContiguous
    (ended Prod.fst (losPhysPagesAllocContiguous (areaStart [(0xFFFFE000,0x2000)]) 1)) 0 1)

private theorem topFreed_reachable : Reachable (fun _ _ => True) (fun _ => default) [(0xFFFFE000,0x2000)]
    ⟨topFreed,(∅ ∪ pages 0 1) \ pages 0 1⟩ := by
  have h0 : Reachable (fun _ _ => True) (fun _ => default) [(0xFFFFE000,0x2000)]
      ⟨areaStart [(0xFFFFE000,0x2000)],∅⟩ := .init ⟨_,eq_ok (by decide +kernel),rfl⟩
  have h1 := reachable_call h0 (.allocContiguous 1) (by norm_num [PhysMem.Legal]) trivial
    (call_alloc (p := 0) (by decide +kernel))
  exact reachable_call h1 (.freeContiguous 0 1)
    ⟨0,by decide +kernel,by decide +kernel,by decide +kernel,Set.subset_union_right⟩ trivial
    (call_free (by decide +kernel))

/-- Two maximal blocks, of which the second one is allocated. -/
def halfTaken : VmPhys :=
  let s := ended Prod.fst (losPhysPagesAllocContiguous (areaStart [(0x80000000,0x200000)]) 256)
  let s := ended Prod.fst (losPhysPagesAllocContiguous s 256)
  ended id (osVmPhysPagesFreeContiguous s 0 256)

theorem halfTaken_within : Reachable (fun s c => c.NoWrap s) (fun _ => default) [(0x80000000,0x200000)]
    ⟨halfTaken,((∅ ∪ pages 0 256) ∪ pages 256 256) \ pages 0 256⟩ := by
  have h0 : Reachable (fun s c => c.NoWrap s) (fun _ => default) [(0x80000000,0x200000)]
      ⟨areaStart [(0x80000000,0x200000)],∅⟩ := .init ⟨_,eq_ok (by decide +kernel),rfl⟩
  have h1 := reachable_call h0 (.allocContiguous 256) (by norm_num [PhysMem.Legal]) (by norm_num [Call.NoWrap])
    (call_alloc (p := 0) (by decide +kernel))
  have h2 := reachable_call h1 (.allocContiguous 256) (by norm_num [PhysMem.Legal]) (by norm_num [Call.NoWrap])
    (call_alloc (p := 256) (by decide +kernel))
  exact reachable_call h2 (.freeContiguous 0 256)
    ⟨0,by decide +kernel,by decide +kernel,by decide +kernel,fun x hx => .inl (.inr hx)⟩ trivial
    (call_free (by decide +kernel))

private theorem halfTaken_reachable : Reachable (fun _ _ => True) (fun _ => default) [(0x80000000,0x200000)]
    ⟨halfTaken,((∅ ∪ pages 0 256) ∪ pages 256 256) \ pages 0 256⟩ := halfTaken_within.mono fun _ _ _ => trivial

/-- A segment that ends at 2^32 is left with two free buddies. A request for 0x80000 pages at
0x80000000 panics after it has taken a free block off its list. -/
theorem buddyInvariant_fails_at_wrap :
    (∃ m, Reachable (fun _ _ => True) (fun _ => default) [(0xFFFFE000,0x2000)] m ∧ ¬BuddyInvariant m.phys m.allocated) ∧
    ∃ m s, Reachable (fun _ _ => True) (fun _ => default) [(0x80000000,0x200000)] m ∧
      m.Legal (.allocContiguous 0x80000) ∧ m.call (.allocContiguous 0x80000) = .error s ∧ ¬BuddyInvariant s m.allocated := by
  constructor
  · refine ⟨_,topFreed_reachable,fun h => ?_⟩
    exact (h.1 0 (by decide +kernel)).buddies 0 0 1 (by decide) ⟨by decide,by decide +kernel⟩
      ⟨by decide,by decide +kernel⟩ (by decide +kernel)
  · have herr : losPhysPagesAllocContiguous halfTaken 0x80000 =
        .error (ended Prod.fst (losPhysPagesAllocContiguous halfTaken 0x80000)) := eq_error (by decide +kernel)
    refine ⟨_,ended Prod.fst (losPhysPagesAllocContiguous halfTaken 0x80000),halfTaken_reachable,
      ⟨by decide,by decide⟩,?_,fun h => ?_⟩
    · rw [PhysMem.call, herr]
      rfl
    · have hlists : ∀ k < VM_LIST_ORDER_MAX,
          ((ended Prod.fst (losPhysPagesAllocContiguous halfTaken 0x80000)).seg 0).freeList k = [] := by decide +kernel
      have h0 := (h.1 0 (by decide +kernel)).pages 0 (by decide +kernel) (by decide +kernel)
      refine absurd (h0.mpr ?_) (fun h1 => h1.2 ⟨le_rfl,by norm_num⟩)
      rintro ⟨k,p,⟨hk,hp⟩,-⟩
      rw [hlists k hk] at hp
      exact absurd hp List.not_mem_nil

end LiteOsKernel.Vm
