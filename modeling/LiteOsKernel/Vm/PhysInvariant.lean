import LiteOsKernel.Vm.Phys
import LiteOsKernel.Lib.Buddy
import Mathlib.Data.List.Nodup
import Mathlib.Data.List.Perm.Subperm

/-! Invariant of one physical segment, with the set of pages that are in no free list, and its
preservation by the two free list operations. -/
namespace LiteOsKernel.Vm
open Buddy

variable {s s' s'' : VmPhys} {i j k p n : Nat} {T T' : Set Nat}

/-- First page of a segment. -/
def segLo (s : VmPhys) (i : Nat) : Nat := (s.seg i).pageBase

/-- One past the last page of a segment. -/
def segHi (s : VmPhys) (i : Nat) : Nat := (s.seg i).pageBase + (s.seg i).size/4096

/-- Frame number of a page of a segment. -/
def segFrame (s : VmPhys) (i p : Nat) : Nat := (s.seg i).start/4096 + (p - (s.seg i).pageBase)

structure SegInv (s : VmPhys) (i : Nat) (T : Set Nat) : Prop where
  id_lt : i < VM_PHYS_SEG_MAX
  start_mod : (s.seg i).start % 4096 = 0
  size_mod : (s.seg i).size % 4096 = 0
  end_lt : (s.seg i).start + (s.seg i).size < 2^32
  segID : ∀ p, segLo s i ≤ p → p < segHi s i → (s.page p).segID = i
  addr : ∀ p, segLo s i ≤ p → p < segHi s i → (s.page p).physAddr = segFrame s i p*4096
  free : Free VM_LIST_ORDER_MAX (segLo s i) (segHi s i) (segFrame s i) (fun p => (s.page p).order) T
  lists : ∀ k < VM_LIST_ORDER_MAX, ∀ p, p ∈ (s.seg i).freeList k ↔ (segLo s i ≤ p ∧ p < segHi s i) ∧ (s.page p).order = k
  nodup : ∀ k < VM_LIST_ORDER_MAX, ((s.seg i).freeList k).Nodup
  count : ∀ k < VM_LIST_ORDER_MAX, (s.seg i).listCnt k = ((s.seg i).freeList k).length

/-- Work on one segment changes its free lists and the orders of its pages only. -/
structure Only (s s' : VmPhys) (i : Nat) : Prop where
  segNum : s'.segNum = s.segNum
  start : ∀ j, (s'.seg j).start = (s.seg j).start
  size : ∀ j, (s'.seg j).size = (s.seg j).size
  pageBase : ∀ j, (s'.seg j).pageBase = (s.seg j).pageBase
  seg : ∀ j, j ≠ i → s'.seg j = s.seg j
  page : ∀ p, p < segLo s i ∨ segHi s i ≤ p → s'.page p = s.page p

theorem Only.refl (s : VmPhys) (i : Nat) : Only s s i :=
  ⟨rfl,fun _ => rfl,fun _ => rfl,fun _ => rfl,fun _ _ => rfl,fun _ _ => rfl⟩

theorem Only.lo (h : Only s s' i) (j : Nat) : segLo s' j = segLo s j := h.pageBase j

theorem Only.hi (h : Only s s' i) (j : Nat) : segHi s' j = segHi s j := by rw [segHi, segHi, h.pageBase, h.size]

theorem Only.frame (h : Only s s' i) (j p : Nat) : segFrame s' j p = segFrame s j p := by
  rw [segFrame, segFrame, h.pageBase, h.start]

theorem Only.trans (h : Only s s' i) (h' : Only s' s'' i) : Only s s'' i where
  segNum := h'.segNum.trans h.segNum
  start j := (h'.start j).trans (h.start j)
  size j := (h'.size j).trans (h.size j)
  pageBase j := (h'.pageBase j).trans (h.pageBase j)
  seg j hj := (h'.seg j hj).trans (h.seg j hj)
  page p hp := by
    have hp' : p < segLo s' i ∨ segHi s' i ≤ p := by
      rw [h.lo, h.hi]
      exact hp
    exact (h'.page p hp').trans (h.page p hp)

/-- The invariant of a segment reads nothing of the others. -/
theorem SegInv.other (h : SegInv s j T) (ho : Only s s' i) (hj : j ≠ i)
    (hd : ∀ p, segLo s j ≤ p → p < segHi s j → p < segLo s i ∨ segHi s i ≤ p)
    (ht : ∀ p, segLo s j ≤ p → p < segHi s j → (p ∈ T' ↔ p ∈ T)) : SegInv s' j T' := by
  have hpage : ∀ p, segLo s j ≤ p → p < segHi s j → s'.page p = s.page p := fun p h1 h2 => ho.page p (hd p h1 h2)
  have hframe : segFrame s' j = segFrame s j := funext (ho.frame j)
  refine ⟨h.id_lt,?_,?_,?_,?_,?_,?_,?_,?_,?_⟩
  · rw [ho.start]; exact h.start_mod
  · rw [ho.size]; exact h.size_mod
  · rw [ho.start, ho.size]; exact h.end_lt
  · rw [ho.lo, ho.hi]
    intro p h1 h2
    rw [hpage p h1 h2]
    exact h.segID p h1 h2
  · rw [ho.lo, ho.hi, hframe]
    intro p h1 h2
    rw [hpage p h1 h2]
    exact h.addr p h1 h2
  · rw [ho.lo, ho.hi, hframe]
    exact h.free.congr (fun p h1 h2 => by rw [hpage p h1 h2]) ht
  · rw [ho.lo, ho.hi, ho.seg j hj]
    intro k hk p
    rw [h.lists k hk p]
    constructor
    · rintro ⟨⟨h1,h2⟩,h3⟩
      exact ⟨⟨h1,h2⟩,by rw [hpage p h1 h2]; exact h3⟩
    · rintro ⟨⟨h1,h2⟩,h3⟩
      exact ⟨⟨h1,h2⟩,by rw [← hpage p h1 h2]; exact h3⟩
  · rw [ho.seg j hj]; exact h.nodup
  · rw [ho.seg j hj]; exact h.count

theorem SegInv.congr (h : SegInv s i T) (ht : ∀ p, segLo s i ≤ p → p < segHi s i → (p ∈ T' ↔ p ∈ T)) : SegInv s i T' :=
  { h with free := h.free.congr (fun _ _ _ => rfl) ht }

theorem SegInv.length_le (h : SegInv s i T) (hk : k < VM_LIST_ORDER_MAX) : ((s.seg i).freeList k).length ≤ 2^20 := by
  have hsub : (s.seg i).freeList k ⊆ List.range' (segLo s i) ((s.seg i).size/4096) := by
    intro p hp
    have := ((h.lists k hk p).mp hp).1
    rw [List.mem_range'_1]
    exact this
  have hle := ((h.nodup k hk).subperm hsub).length_le
  rw [List.length_range'] at hle
  have := h.end_lt
  omega

private theorem only_set {v : LosVmPage} {w : VmPhysSeg} (hp : segLo s i ≤ p) (hph : p < segHi s i)
    (h1 : w.start = (s.seg i).start) (h2 : w.size = (s.seg i).size) (h3 : w.pageBase = (s.seg i).pageBase) :
    Only s ((s.setPage p v).setSeg i w) i := by
  have hseg : ∀ j, ((s.setPage p v).setSeg i w).seg j = if j = i then w else s.seg j := fun j => rfl
  refine ⟨rfl,?_,?_,?_,fun j hj => if_neg hj,fun q hq => if_neg (by omega)⟩
  all_goals
    intro j
    rw [hseg]
    split
  · next hj => rw [h1, hj]
  · rfl
  · next hj => rw [h2, hj]
  · rfl
  · next hj => rw [h3, hj]
  · rfl

/-- A free list operation on page p of segment i: p gets order k and the lists follow. -/
theorem SegInv.relist (h : SegInv s i T) (ho : Only s s' i)
    (hpage : ∀ q, (s'.page q).segID = (s.page q).segID ∧ (s'.page q).physAddr = (s.page q).physAddr)
    (hfree : Free VM_LIST_ORDER_MAX (segLo s i) (segHi s i) (segFrame s i) (fun q => (s'.page q).order) T')
    (hlists : ∀ k < VM_LIST_ORDER_MAX, ∀ q,
      q ∈ (s'.seg i).freeList k ↔ (segLo s i ≤ q ∧ q < segHi s i) ∧ (s'.page q).order = k)
    (hnodup : ∀ k < VM_LIST_ORDER_MAX, ((s'.seg i).freeList k).Nodup)
    (hcount : ∀ k < VM_LIST_ORDER_MAX, (s'.seg i).listCnt k = ((s'.seg i).freeList k).length) : SegInv s' i T' := by
  have hframe : segFrame s' i = segFrame s i := funext (ho.frame i)
  refine ⟨h.id_lt,?_,?_,?_,?_,?_,?_,?_,hnodup,hcount⟩
  · rw [ho.start]; exact h.start_mod
  · rw [ho.size]; exact h.size_mod
  · rw [ho.start, ho.size]; exact h.end_lt
  · rw [ho.lo, ho.hi]
    intro q h1 h2
    rw [(hpage q).1]
    exact h.segID q h1 h2
  · rw [ho.lo, ho.hi, hframe]
    intro q h1 h2
    rw [(hpage q).2]
    exact h.addr q h1 h2
  · rw [ho.lo, ho.hi, hframe]
    exact hfree
  · rw [ho.lo, ho.hi]
    exact hlists

theorem SegInv.add (h : SegInv s i T) (hp : segLo s i ≤ p) (hk : k < VM_LIST_ORDER_MAX) (hin : p + 2^k ≤ segHi s i)
    (hal : 2^k ∣ segFrame s i p) (ht : block p k ⊆ T)
    (hb : k + 1 < VM_LIST_ORDER_MAX → ∀ q, segLo s i ≤ q → q < segHi s i → segFrame s i q = segFrame s i p ^^^ 2^k →
      (s.page q).order ≠ k) :
    ∃ s', osVmPhysFreeListAddUnsafe s p k = .ok s' ∧ SegInv s' i (T \ block p k) ∧ Only s s' i := by
  have hk0 := Nat.two_pow_pos k
  have hph : p < segHi s i := by omega
  have hid := h.segID p hp hph
  have hmax := h.free.max_of_taken hp hph (ht (self_mem_block p k))
  have hnot : p ∉ (s.seg i).freeList k := fun hm => by
    have := ((h.lists k hk p).mp hm).2
    omega
  refine ⟨_,if_neg (by rw [hid]; exact not_le.mpr h.id_lt),?_⟩
  rw [hid]
  set s₁ := (s.setPage p { s.page p with order := k }).setSeg i
    (listInsert ((s.setPage p { s.page p with order := k }).seg i) k p) with hs₁
  have hseg : s₁.seg i = listInsert (s.seg i) k p := if_pos rfl
  have hord : ∀ q, (s₁.page q).order = if q = p then k else (s.page q).order := by
    intro q
    simp only [hs₁, VmPhys.setSeg, VmPhys.setPage]
    split <;> rfl
  have ho : Only s s₁ i := only_set hp hph rfl rfl rfl
  refine ⟨h.relist ho ?_ ?_ ?_ ?_ ?_,ho⟩
  · intro q
    simp only [hs₁, VmPhys.setSeg, VmPhys.setPage]
    split
    · next hq => rw [hq]; exact ⟨rfl,rfl⟩
    · exact ⟨rfl,rfl⟩
  · refine (h.free.put hp hk hin hal ht hb).congr (fun q _ _ => hord q) (fun _ _ _ => Iff.rfl)
  · intro l hl q
    rw [hseg, hord]
    simp only [listInsert]
    by_cases hlk : l = k
    · subst hlk
      rw [if_pos rfl, List.mem_append, List.mem_singleton, h.lists l hl q]
      by_cases hq : q = p
      · subst hq
        simp [hp, hph]
      · simp [hq]
    · rw [if_neg hlk, h.lists l hl q]
      by_cases hq : q = p
      · subst hq
        rw [if_pos rfl]
        constructor
        · rintro ⟨-,h1⟩
          omega
        · rintro ⟨-,h1⟩
          exact absurd h1.symm hlk
      · rw [if_neg hq]
  · intro l hl
    rw [hseg]
    simp only [listInsert]
    split
    · next hlk =>
      subst hlk
      rw [List.nodup_append]
      refine ⟨h.nodup l hl,List.nodup_singleton p,?_⟩
      intro a ha b hb hab
      rw [List.mem_singleton.mp hb] at hab
      exact hnot (hab ▸ ha)
    · exact h.nodup l hl
  · intro l hl
    rw [hseg]
    simp only [listInsert]
    split
    · have := h.length_le hl
      rw [h.count l hl, List.length_append, List.length_singleton]
      exact Word.add_eq (by omega)
    · exact h.count l hl

theorem SegInv.del (h : SegInv s i T) (hp : segLo s i ≤ p) (hph : p < segHi s i) (hk : (s.page p).order < VM_LIST_ORDER_MAX) :
    ∃ s', osVmPhysFreeListDelUnsafe s p = .ok s' ∧ SegInv s' i (T ∪ block p (s.page p).order) ∧ Only s s' i ∧
      ∀ q, q ≠ p → (s'.page q).order = (s.page q).order := by
  have hid := h.segID p hp hph
  have hmem := (h.lists _ hk p).mpr ⟨⟨hp,hph⟩,rfl⟩
  refine ⟨_,if_neg ?_,?_⟩
  · rw [hid]
    exact not_or.mpr ⟨not_le.mpr h.id_lt,not_le.mpr hk⟩
  rw [hid]
  set k := (s.page p).order
  set s₁ := (s.setSeg i (listDelete (s.seg i) k p)).setPage p
    { (s.setSeg i (listDelete (s.seg i) k p)).page p with order := VM_LIST_ORDER_MAX } with hs₁
  have hseg : s₁.seg i = listDelete (s.seg i) k p := if_pos rfl
  have hord : ∀ q, (s₁.page q).order = if q = p then VM_LIST_ORDER_MAX else (s.page q).order := by
    intro q
    simp only [hs₁, VmPhys.setSeg, VmPhys.setPage]
    split <;> rfl
  have ho : Only s s₁ i := only_set hp hph rfl rfl rfl
  refine ⟨h.relist ho ?_ ?_ ?_ ?_ ?_,ho,fun q hq => by rw [hord, if_neg hq]⟩
  · intro q
    simp only [hs₁, VmPhys.setSeg, VmPhys.setPage]
    split
    · next hq => rw [hq]; exact ⟨rfl,rfl⟩
    · exact ⟨rfl,rfl⟩
  · exact (h.free.take hp hph hk).congr (fun q _ _ => hord q) (fun _ _ _ => Iff.rfl)
  · intro l hl q
    rw [hseg, hord]
    simp only [listDelete]
    by_cases hlk : l = k
    · rw [if_pos hlk, (h.nodup l hl).mem_erase_iff, h.lists l hl q]
      by_cases hq : q = p
      · subst hq
        simp only [ne_eq, not_true, false_and, if_pos, false_iff, not_and]
        omega
      · simp [hq]
    · rw [if_neg hlk, h.lists l hl q]
      by_cases hq : q = p
      · subst hq
        rw [if_pos rfl]
        constructor
        · rintro ⟨-,h1⟩
          exact absurd h1.symm hlk
        · rintro ⟨-,h1⟩
          omega
      · rw [if_neg hq]
  · intro l hl
    rw [hseg]
    simp only [listDelete]
    split
    · exact (h.nodup l hl).erase p
    · exact h.nodup l hl
  · intro l hl
    rw [hseg]
    simp only [listDelete]
    split
    · next hlk =>
      have hm : p ∈ (s.seg i).freeList l := hlk ▸ hmem
      have := List.length_pos_of_mem hm
      rw [h.count l hl, List.length_erase_of_mem hm, Word.sub_eq (by omega)]
    · exact h.count l hl

theorem SegInv.toPage (h : SegInv s i T) (pa : Nat) : osVmPhysToPage s pa i =
    .ok (if (s.seg i).start ≤ pa ∧ pa < (s.seg i).start + (s.seg i).size then
      some (segLo s i + (pa - (s.seg i).start)/4096) else none) := by
  have hend : segEnd (s.seg i) = (s.seg i).start + (s.seg i).size := Word.add_eq h.end_lt
  rw [osVmPhysToPage, if_neg (not_le.mpr h.id_lt)]
  simp only [hend]
  by_cases hin : (s.seg i).start ≤ pa ∧ pa < (s.seg i).start + (s.seg i).size
  · rw [if_pos hin, if_neg (by omega), Word.sub_eq hin.1, Nat.shiftRight_eq_div_pow]
    rfl
  · rw [if_neg hin, if_pos (by omega)]

end LiteOsKernel.Vm
