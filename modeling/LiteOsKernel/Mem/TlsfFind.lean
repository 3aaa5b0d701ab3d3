import LiteOsKernel.Mem.TlsfRun

/-! The free-list search against its purpose: a free node that is large enough if there is one,
and what LOS_MemAlloc makes of it. -/
namespace LiteOsKernel.Mem.Tlsf
open LiteOsKernel Links Lib

variable {p q : MemPool} {E : List Area} {N F : Set Nat} {L : Nat → List Nat} {a r s size ptr : Nat}

/-- A size that LOS_MemAlloc or LOS_MemAllocAlign passes on to OsMemAlloc. -/
def LetThrough (s : Nat) : Prop :=
  ∃ size < 2^32, allocUse size = some s ∨ ∃ boundary < 2^32, alignUse size boundary = some s

/-- For r bytes the search returns one of the free nodes F that is large enough, or NULL when there is none. -/
structure SearchCorrect (p : MemPool) (F : Set Nat) (r : Nat) : Prop where
  found : (∃ a ∈ F, r ≤ p.sizeAndFlag a) →
    (osMemFindNextSuitableBlock p r).1 ∈ F ∧ r ≤ p.sizeAndFlag (osMemFindNextSuitableBlock p r).1
  null : (∀ a ∈ F, p.sizeAndFlag a < r) → (osMemFindNextSuitableBlock p r).1 = 0

/-- A block that LOS_MemAlloc returns has the requested bytes behind its head. -/
def AllocEnough (p : MemPool) (size : Nat) : Prop :=
  ∀ q ptr, losMemAlloc p size = (q, ptr) → ptr ≠ 0 →
    size + OS_MEM_NODE_HEAD_SIZE ≤ getSize (q.sizeAndFlag (ptr - OS_MEM_NODE_HEAD_SIZE))

/-- For a request below 2^29 bytes: if a free node is large enough, one of those is below 2^29 bytes as well, or its class
is not too low for the request. For a larger one: the first list from the start class on that is not empty starts with a
node of 2^29 bytes or more. -/
def Searchable (p : MemPool) (F : Set Nat) (L : Nat → List Nat) (r : Nat) : Prop :=
  if r < 2^29 then (∃ a ∈ F, r ≤ p.sizeAndFlag a) → ∃ a ∈ F, r ≤ p.sizeAndFlag a ∧
    (p.sizeAndFlag a < 2^29 ∨ (r - 2^28)/2^25 ≤ (p.sizeAndFlag a - 2^29)/2^26)
  else ∀ i ≥ 200 + (r - 2^29)/2^26, (∀ j ≥ 200 + (r - 2^29)/2^26, j < i → L j = []) →
    ∀ a, (L i).head? = some a → 2^29 ≤ p.sizeAndFlag a

private theorem letThrough_bounds (h : LetThrough s) : 8 ≤ s ∧ s < 2^30 := by
  obtain ⟨size,hsz,h1 | ⟨boundary,hbd,h1⟩⟩ := h
  · have := allocUse_spec hsz h1
    omega
  · obtain ⟨h2,h3,i,hi,-,rfl⟩ := alignUse_spec hsz hbd h1
    have h4 := minSize_bounds hsz
    have h5 : 2^2 ≤ 2^i := Nat.pow_le_pow_right (by norm_num) hi
    omega

private theorem allocSizeOf_bounds (h8 : 8 ≤ s) (h30 : s < 2^30) :
    20 ≤ allocSizeOf s ∧ allocSizeOf s%4 = 0 ∧ allocSizeOf s < 2^30 + 2^26 := by
  rw [allocSizeOf]
  omega

namespace FreeLists

/-- A request looks at the class of a node that is large enough, unless a class below its own was computed for the node. -/
private theorem looked_iff (h : FreeLists p F L) (hr : 20 ≤ r) (hr' : r < 2^30 + 2^26) (ha : a ∈ F) (hle : r ≤ p.sizeAndFlag a) :
    ((searchStart r).1 ≤ osMemFreeListIndexGet (p.sizeAndFlag a) ∨ osMemFreeListIndexGet (p.sizeAndFlag a) = (searchStart r).2) ↔
      2^29 ≤ r ∨ p.sizeAndFlag a < 2^29 ∨ (r - 2^28)/2^25 ≤ (p.sizeAndFlag a - 2^29)/2^26 := by
  have h32 := (h.size a ha).2
  rcases Nat.lt_or_ge r (2^29) with h29 | h29
  · rcases Nat.lt_or_ge (p.sizeAndFlag a) (2^29) with hlt | hge
    · exact iff_of_true (searchStart_complete hlt hr hle) (.inr (.inl hlt))
    · rw [searchStart_wrapped_iff hge h32 hr h29]
      omega
  · exact iff_of_true (searchStart_complete_huge h32 h29 hr' hle) (.inl h29)

/-- The first node of a list from the start on is large enough if it and the request are on the same side of 2^29 bytes, or
it alone reaches them. -/
private theorem enough_of_start (h : FreeLists p F L) (hr : 20 ≤ r) (hr4 : r%4 = 0) (hr' : r < 2^30 + 2^26) (ha : a ∈ F)
    (hst : (searchStart r).1 ≤ osMemFreeListIndexGet (p.sizeAndFlag a)) (h29 : r < 2^29 ∨ 2^29 ≤ p.sizeAndFlag a) :
    r ≤ p.sizeAndFlag a := by
  obtain ⟨h4,h32⟩ := h.size a ha
  rcases Nat.lt_or_ge (p.sizeAndFlag a) (2^29) with hlt | hge
  · exact searchStart_le hlt hr hr4 (h29.resolve_right (Nat.not_le.mpr hlt)) h4 hst
  · exact searchStart_wrapped hge h32 hr' hst

private theorem searchable_of_correct (h : FreeLists p F L) (hr : 20 ≤ r) (hr' : r < 2^30 + 2^26) (hc : SearchCorrect p F r) :
    Searchable p F L r := by
  rcases hf : osMemFindNextSuitableBlock p r with ⟨b,i⟩
  have hfind := h.findNextSuitableBlock hr hr' hf
  rw [Searchable]
  split_ifs with h29
  · intro hex
    obtain ⟨hb,hle⟩ := hc.found hex
    rw [hf] at hb hle
    refine ⟨b,hb,hle,((h.looked_iff hr hr' hb hle).mp ?_).resolve_left (by omega)⟩
    rcases hfind with ⟨hst,hhead,-⟩ | ⟨-,⟨-,hi,hcur,-⟩ | ⟨h0,-⟩⟩
    · exact .inl ((h.mem_of_head hhead).2 ▸ hst)
    · exact .inr (hi.trans hcur)
    · exact absurd h0 (h.node b hb).1
  · intro j hj hempty a ha
    have hstart : (searchStart r).1 = 200 + (r - 2^29)/2^26 := by rw [searchStart_huge (by omega) hr']
    obtain ⟨haF,hidx⟩ := h.mem_of_head ha
    by_contra hlt
    rcases hfind with ⟨hst,hhead,hmin⟩ | ⟨hnone,-⟩
    · -- the list is the one that the search takes
      have hij : i = j := by
        rcases Nat.lt_trichotomy i j with hlt | he | hgt
        · rw [hempty i (by omega) hlt] at hhead
          cases hhead
        · exact he
        · rw [hmin j (by omega) hgt] at ha
          cases ha
      obtain rfl : b = a := Option.some.inj (hhead.symm.trans (hij ▸ ha))
      by_cases hex : ∃ c ∈ F, r ≤ p.sizeAndFlag c
      · have hle : r ≤ p.sizeAndFlag b := by simpa only [hf] using (hc.found hex).2
        omega
      · have h0 := hc.null fun c hc' => by
          by_contra hge
          exact hex ⟨c,hc',Nat.not_lt.mp hge⟩
        rw [hf] at h0
        exact (h.node b haF).1 h0
    · have := hnone a haF
      omega

private theorem correct_of_searchable (h : FreeLists p F L) (hr : 20 ≤ r) (hr4 : r%4 = 0) (hr' : r < 2^30 + 2^26)
    (hs : Searchable p F L r) : SearchCorrect p F r := by
  rcases hf : osMemFindNextSuitableBlock p r with ⟨b,i⟩
  have hfind := h.findNextSuitableBlock hr hr' hf
  have hhead : (searchStart r).1 ≤ i → (L i).head? = some b → (∀ j, (searchStart r).1 ≤ j → j < i → L j = []) →
      b ∈ F ∧ r ≤ p.sizeAndFlag b := by
    intro hst hh hmin
    obtain ⟨hb,hidx⟩ := h.mem_of_head hh
    refine ⟨hb,h.enough_of_start hr hr4 hr' hb (hidx ▸ hst) ?_⟩
    rw [Searchable] at hs
    split_ifs at hs with h29
    · exact .inl h29
    · have hstart : (searchStart r).1 = 200 + (r - 2^29)/2^26 := by rw [searchStart_huge (by omega) hr']
      exact .inr (hs i (by omega) (fun j hj hji => hmin j (by omega) hji) b hh)
  refine ⟨fun hex => ?_,fun hall => ?_⟩ <;> rw [hf]
  · rcases hfind with ⟨h1,h2,h3⟩ | ⟨hnone,⟨h1,-,-,h2⟩ | ⟨-,hcur⟩⟩
    · exact hhead h1 h2 h3
    · exact ⟨h1,h2⟩
    · -- the search would have looked at the class of a node that is large enough
      obtain ⟨a,ha,hle,hlook⟩ : ∃ a ∈ F, r ≤ p.sizeAndFlag a ∧
          (2^29 ≤ r ∨ p.sizeAndFlag a < 2^29 ∨ (r - 2^28)/2^25 ≤ (p.sizeAndFlag a - 2^29)/2^26) := by
        rw [Searchable] at hs
        split_ifs at hs with h29
        · obtain ⟨a,ha,hle,hlook⟩ := hs hex
          exact ⟨a,ha,hle,.inr hlook⟩
        · obtain ⟨a,ha,hle⟩ := hex
          exact ⟨a,ha,hle,.inl (by omega)⟩
      rcases (h.looked_iff hr hr' ha hle).mpr hlook with h1 | h1
      · have := hnone a ha
        omega
      · have := hcur a ha h1
        omega
  · rcases hfind with ⟨h1,h2,h3⟩ | ⟨-,⟨h1,-,-,h2⟩ | ⟨h0,-⟩⟩
    · obtain ⟨hb,hle⟩ := hhead h1 h2 h3
      have := hall b hb
      omega
    · have := hall b h1
      omega
    · exact h0

end FreeLists

/-- The block that LOS_MemAlloc returns is the node that its search finds. -/
private theorem losMemAlloc_found (hsz : size < 2^32) (hs : allocUse size = some s)
    (hf : (osMemFindNextSuitableBlock p (allocSizeOf s)).1 ≠ 0) :
    (losMemAlloc p size).2 = (osMemFindNextSuitableBlock p (allocSizeOf s)).1 + OS_MEM_NODE_HEAD_SIZE := by
  have h30 := (allocUse_spec hsz hs).2.1
  rw [losMemAlloc_eq, hs]
  simp only [osMemAlloc, allocSize_eq (show s < 2^31 by omega)]
  rcases hfind : osMemFindNextSuitableBlock p (allocSizeOf s) with ⟨c,i⟩
  rw [hfind] at hf
  have hget : osMemFreeNodeGet p (allocSizeOf s) = (osMemListDelete p i c, c) := by simp only [osMemFreeNodeGet, hfind, if_neg hf]
  simp only [osMemAllocNode, hget, if_pos hf, if_neg hf]
  rfl

namespace Inv

/-- In a sound pool all nodes are below 2^29 bytes. -/
private theorem searchable_iff (h : Inv p E N F ∅ ∅ L) (hr : 20 ≤ r) (hr' : r < 2^30 + 2^26) :
    Searchable p F L r ↔ r < 2^29 ∨ ∀ a ∈ F, p.size a < hugeBound r := by
  have hsize : ∀ a ∈ F, p.sizeAndFlag a = p.size a := fun a ha => h.free_eq (h.sub a ha).1 (h.sub a ha).2
  have hlt := fun a ha => h.free_lt (a := a) ha
  have hL := h.freeLists
  rw [Searchable]
  split_ifs with h29
  · refine iff_of_true ?_ (.inl h29)
    rintro ⟨a,ha,hle⟩
    exact ⟨a,ha,hle,.inl (hlt a ha)⟩
  · have hstart : (searchStart r).1 = 200 + (r - 2^29)/2^26 := by rw [searchStart_huge (by omega) hr']
    constructor
    · intro hs
      refine .inr fun a ha => ?_
      by_contra hge
      have hst := (searchStart_le_iff (hL.size a ha).1 (hlt a ha) (by omega) hr').mpr (by rw [hsize a ha]; omega)
      rcases hf : osMemFindNextSuitableBlock p r with ⟨b,i⟩
      rcases hL.findNextSuitableBlock hr hr' hf with ⟨h1,h2,h3⟩ | ⟨hnone,-⟩
      · have h4 := hs i (by omega) (fun j hj hji => h3 j (by omega) hji) b h2
        have := hlt b (hL.mem_of_head h2).1
        omega
      · have := hnone a ha
        omega
    · intro hs i hi _ a ha
      obtain ⟨haF,hidx⟩ := hL.mem_of_head ha
      have hge := (searchStart_le_iff (hL.size a haF).1 (hlt a haF) (by omega) hr').mp (by omega)
      have := hs.resolve_left h29 a haF
      rw [hsize a haF] at hge
      omega

/-- LOS_MemAlloc returns enough bytes exactly where the search is correct. -/
private theorem allocEnough_iff (h : Inv p E N F ∅ ∅ L) (hsz : size < 2^32) (hs : allocUse size = some s)
    (hx : ∀ x, grownArea p (allocSizeOf s) = some x → x.Fresh p E) :
    AllocEnough p size ↔ Searchable p F L (allocSizeOf s) := by
  obtain ⟨h8,h30,hle⟩ := allocUse_spec hsz hs
  obtain ⟨hk,hk4,hk'⟩ := allocSizeOf_bounds h8 h30
  have hr : s + 12 ≤ allocSizeOf s ∧ allocSizeOf s ≤ s + 15 := by
    rw [allocSizeOf]
    omega
  have hmin : s = minSize size := by
    rw [allocUse] at hs
    split at hs
    case isTrue => cases hs
    case isFalse => exact (Option.some.inj hs).symm
  rw [h.searchable_iff hk hk']
  rcases he : Tlsf.losMemAlloc p size with ⟨q,ptr⟩
  have hspec := h.losMemAlloc hsz hs hx he
  constructor
  · intro hen
    by_contra hno
    obtain ⟨h29,hex⟩ := not_or.mp hno
    simp only [not_forall, not_lt] at hex
    obtain ⟨a,ha,hle'⟩ := hex
    have hc : ¬SearchCorrect p F (allocSizeOf s) := fun hc =>
      ((h.searchable_iff hk hk').mp (h.freeLists.searchable_of_correct hk hk' hc)).elim h29 fun hall => by
        have := hall a ha
        omega
    have hptr : ptr ≠ 0 := by
      intro h0
      refine hc ⟨?_,fun _ => ?_⟩
      · rintro ⟨b,hb,hle⟩
        have := h.free_lt hb
        omega
      · by_contra hne
        have h1 := losMemAlloc_found hsz hs hne
        rw [he, h0, OS_MEM_NODE_HEAD_SIZE] at h1
        omega
    rcases hspec with ⟨-,h0,-⟩ | ⟨-,c,N',F',L',rfl,hg⟩
    · exact hptr h0
    · have h1 := hen q (c + 12) he hptr
      rw [Tlsf.getSize_eq, OS_MEM_NODE_HEAD_SIZE, Nat.add_sub_cancel, ← MemPool.size] at h1
      have h2 := hg.inv.size_lt hg.mem
      rw [minSize] at hmin
      split at hmin <;> simp only [OS_MEM_MIN_ALLOC_SIZE] at * <;> omega
  · intro hok q' ptr' he' hptr
    rw [he] at he'
    obtain ⟨rfl,rfl⟩ := Prod.mk.inj he'
    rcases hspec with ⟨-,h0,-⟩ | ⟨-,c,N',F',L',rfl,hg⟩
    · exact absurd h0 hptr
    · rw [Tlsf.getSize_eq, OS_MEM_NODE_HEAD_SIZE, Nat.add_sub_cancel, ← MemPool.size]
      have h29 : allocSizeOf s < 2^29 := by
        by_contra hge
        obtain ⟨g1,g2,-⟩ := hg.huge (by omega)
        rcases hok with h1 | h1
        · exact hge h1
        · have := h1 c g1
          omega
      have := hg.room h29
      omega

end Inv

/-- In any free lists the search is correct exactly where the request is searchable. LOS_MemAlloc hands out the node that the
search finds; in a sound pool, which may expand, its block has enough bytes exactly where the request is searchable. -/
theorem tlsfSearch_correct_iff (p : MemPool) (F : Set Nat) (L : Nat → List Nat) (s : Nat) (h : FreeLists p F L)
    (hs : LetThrough s) : (SearchCorrect p F (allocSizeOf s) ↔ Searchable p F L (allocSizeOf s)) ∧
      ∀ size < 2^32, allocUse size = some s →
        ((osMemFindNextSuitableBlock p (allocSizeOf s)).1 ≠ 0 →
          (losMemAlloc p size).2 = (osMemFindNextSuitableBlock p (allocSizeOf s)).1 + OS_MEM_NODE_HEAD_SIZE) ∧
        ∀ E N, Inv p E N F ∅ ∅ L → (∀ x, grownArea p (allocSizeOf s) = some x → x.Fresh p E) →
          (AllocEnough p size ↔ Searchable p F L (allocSizeOf s)) := by
  obtain ⟨h8,h30⟩ := letThrough_bounds hs
  obtain ⟨hk,hk4,hk'⟩ := allocSizeOf_bounds h8 h30
  exact ⟨⟨h.searchable_of_correct hk hk',h.correct_of_searchable hk hk4 hk'⟩,fun size hsz hu =>
    ⟨losMemAlloc_found hsz hu,fun E N hI hx => hI.allocEnough_iff hsz hu hx⟩⟩

/-- Two blocks are taken from a pool of one page and the first is freed. -/
def partedHeap (n : Nat) : Heap :=
  (([.alloc 100,.alloc 100,.free 5068] : List Call).take n).foldl (Heap.call fun _ => false)
    ⟨osMemPoolInit (fun _ => 0) [] 0x1000 0x1000,[]⟩

private theorem partedHeap_reachable : Reachable (fun _ => false) Call.BoundaryBelow (partedHeap 3) := by
  have h0 : Reachable (fun _ => false) Call.BoundaryBelow (partedHeap 0) :=
    .init (HeapCreated.mk (by decide) (by decide +kernel) (by decide) (by decide +kernel)
      (show losMemInit (fun _ => 0) [] 0x1000 0x1000 = some _ by
        rw [losMemInit, if_neg (by decide), show osMemAlign 0x1000 OS_MEM_ALIGN_SIZE = 0x1000 by decide +kernel]))
  have h1 : Reachable (fun _ => false) Call.BoundaryBelow (partedHeap 1) :=
    h0.call (.alloc 100) (by norm_num [tlsfSystem, Heap.Legal]) trivial
  have h2 : Reachable (fun _ => false) Call.BoundaryBelow (partedHeap 2) :=
    h1.call (.alloc 100) (by norm_num [tlsfSystem, Heap.Legal]) trivial
  exact h2.call (.free 5068) (show 5068 ∈ (partedHeap 2).live by decide +kernel) trivial

/-- Two nodes are free, at 5056 with 112 bytes and at 5280 with the rest: a request of 200 bytes skips the first. -/
theorem tlsfSearch_correct_two : ∃ F, 5056 ∈ F ∧ 5280 ∈ F ∧ SearchCorrect (partedHeap 3).pool F 212 ∧
    (losMemAlloc (partedHeap 3).pool 200).2 = 5292 ∧ AllocEnough (partedHeap 3).pool 200 := by
  obtain ⟨⟨N,F,L,own,hH⟩,hattr⟩ := good_of_reachable partedHeap_reachable
  have hI := hH.inv
  have hfree : (partedHeap 3).pool.freeList 27 = 5056 ∧ (partedHeap 3).pool.freeList 66 = 5280 ∧
      (osMemFindNextSuitableBlock (partedHeap 3).pool 212).1 = 5280 := by decide +kernel
  have hsmall : 5056 ∈ F := hI.listed_iff.mp ⟨27,by decide,hfree.1 ▸ .here (by rw [hfree.1]; norm_num)⟩
  have hrest : 5280 ∈ F := hI.listed_iff.mp ⟨66,by decide,hfree.2.1 ▸ .here (by rw [hfree.2.1]; norm_num)⟩
  have hu : allocUse 200 = some 200 := by decide +kernel
  have ha : allocSizeOf 200 = 212 := rfl
  have hs : Searchable (partedHeap 3).pool F L 212 :=
    (hI.searchable_iff (by norm_num) (by norm_num)).mpr (.inl (by norm_num))
  have h := tlsfSearch_correct_iff _ F L 200 hI.freeLists ⟨200,by norm_num,.inl hu⟩
  rw [ha] at h
  obtain ⟨hptr,hen⟩ := h.2 200 (by norm_num) hu
  have hn : grownArea (partedHeap 3).pool 212 = none := if_pos (.inr hattr)
  rw [hfree.2.2] at hptr
  exact ⟨F,hsmall,hrest,h.1.mpr hs,hptr (by norm_num),(hen [] N hI (by simp [hn])).mpr hs⟩

/-- A request whose node size is 2^29 gets the one free node of 402652212 bytes. -/
theorem tlsfSearch_fails_huge : ¬∀ (p : MemPool) (F : Set Nat) (L : Nat → List Nat) (s : Nat), FreeLists p F L →
    LetThrough s → SearchCorrect p F (allocSizeOf s) ∧
      ∀ E N size, Inv p E N F ∅ ∅ L → size < 2^32 → allocUse size = some s → AllocEnough p size := by
  intro hall
  obtain ⟨-,F,L,hI⟩ := inv_poolInit (fun _ => 0) [] 0x1000 0x18000000 (by norm_num) (by norm_num)
    (by norm_num) (by norm_num) (by norm_num) (by norm_num)
  have hu : allocUse 536870900 = some 536870900 := by decide +kernel
  obtain ⟨-,hen⟩ := hall _ F L 536870900 hI.freeLists ⟨536870900,by norm_num,.inl hu⟩
  have hptr : (losMemAlloc (osMemPoolInit (fun _ => 0) [] 0x1000 0x18000000) 536870900).2 = 5068 := by decide +kernel
  have hbytes : getSize ((losMemAlloc (osMemPoolInit (fun _ => 0) [] 0x1000 0x18000000) 536870900).1.sizeAndFlag 5056) =
      402652212 := by decide +kernel
  have hle := hen [] _ 536870900 hI (by norm_num) hu _ 5068 (Prod.ext rfl hptr) (by norm_num)
  rw [show 5068 - OS_MEM_NODE_HEAD_SIZE = 5056 from rfl, hbytes] at hle
  simp [OS_MEM_NODE_HEAD_SIZE] at hle

end LiteOsKernel.Mem.Tlsf
