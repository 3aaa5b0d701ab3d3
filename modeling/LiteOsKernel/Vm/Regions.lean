import LiteOsKernel.Vm.Syscall
import LiteOsKernel.Rbtree.Add

/-! The regions of a space as a sorted list of disjoint ranges, and what search, insertion, removal and
in-place changes do to it. -/
namespace LiteOsKernel.Vm
open Rbtree RbZipper LosVmSpace

variable {s s' : LosVmSpace} {l l' l₁ l₂ : List Nat} {p q addr a n : Nat} {r r' : LosVmMapRegion}

namespace LosVmMapRegion

/-- The first address after the region. -/
def fin (r : LosVmMapRegion) : Nat := r.range.base + r.range.size

end LosVmMapRegion
open LosVmMapRegion

/-- A non-empty page-aligned range in [base, base+size). -/
structure RangeOk (base size : Nat) (r : LosVmMapRegion) : Prop where
  size_pos : 0 < r.range.size
  base_dvd : PAGE_SIZE ∣ r.range.base
  size_dvd : PAGE_SIZE ∣ r.range.size
  base_le : base ≤ r.range.base
  fin_le : r.fin ≤ base + size

/-- The constants of a user space. -/
structure SpaceLayout (base size heapBase mapBase mapSize : Nat) : Prop where
  base_pos : 0 < base
  top_lt : base + size < 2^32
  heapBase_dvd : PAGE_SIZE ∣ heapBase
  heapBase_pos : PAGE_SIZE ≤ heapBase
  heapBase_lt : heapBase < 2^32
  mapBase_dvd : PAGE_SIZE ∣ mapBase
  mapBase_le : base ≤ mapBase
  map_le : mapBase + mapSize ≤ base + size

/-- The regions l of the space, in order. -/
structure SpaceInv (s : LosVmSpace) (l : List Nat) : Prop where
  layout : SpaceLayout s.base s.size s.heapBase s.mapBase s.mapSize
  heapNow_lt : s.heapNow < 2^32
  tree : ∃ T, Rep s.regionRbTree T ∧ T.IsRb ∧ T.inorder = l
  length_eq : l.length = s.regionRbTree.ulNodes
  ok : ∀ p ∈ l, RangeOk s.base s.size (s.region p)
  sorted : l.Pairwise fun p q => (s.region p).fin ≤ (s.region q).range.base
  used : ∀ p ∈ l, p ∈ s.used
  nil_used : s.regionRbTree.stNilT ∈ s.used

/-- The regions l of the map of any space, in order: they are not empty, do not wrap around and are apart. -/
structure RegionMap (s : LosVmSpace) (l : List Nat) : Prop where
  tree : ∃ T, Rep s.regionRbTree T ∧ T.IsRb ∧ T.inorder = l
  length_eq : l.length = s.regionRbTree.ulNodes
  size_pos : ∀ p ∈ l, 0 < (s.region p).range.size
  fin_lt : ∀ p ∈ l, (s.region p).fin < 2^32
  sorted : l.Pairwise fun p q => (s.region p).fin ≤ (s.region q).range.base

theorem RegionMap.ne_zero (h : RegionMap s l) (hp : p ∈ l) : p ≠ 0 := by
  obtain ⟨T,hr,-,rfl⟩ := h.tree
  exact fun he => hr.zero_notMem (he ▸ hp)

namespace SpaceInv

theorem nodup (h : SpaceInv s l) : l.Nodup := by
  obtain ⟨T,hr,-,rfl⟩ := h.tree
  exact hr.nodup

theorem ne_nil (h : SpaceInv s l) (hp : p ∈ l) : p ≠ s.regionRbTree.stNilT := by
  obtain ⟨T,hr,-,rfl⟩ := h.tree
  exact hr.ne_nil hp

theorem scan_eq (h : SpaceInv s l) : scan s.regionRbTree = l := by
  obtain ⟨T,hr,-,rfl⟩ := h.tree
  exact Rbtree.scan_eq hr h.length_eq

theorem fin_lt (h : SpaceInv s l) (hp : p ∈ l) : (s.region p).fin < 2^32 :=
  Nat.lt_of_le_of_lt (h.ok p hp).fin_le h.layout.top_lt

theorem regionMap (h : SpaceInv s l) : RegionMap s l :=
  ⟨h.tree,h.length_eq,fun p hp => (h.ok p hp).size_pos,fun _ hp => h.fin_lt hp,h.sorted⟩

theorem ne_zero (h : SpaceInv s l) (hp : p ∈ l) : p ≠ 0 := h.regionMap.ne_zero hp

/-- Two regions do not overlap. -/
theorem disjoint (h : SpaceInv s l) (hp : p ∈ l) (hq : q ∈ l) (hne : p ≠ q) :
    (s.region p).fin ≤ (s.region q).range.base ∨ (s.region q).fin ≤ (s.region p).range.base := by
  have hs : ∀ l : List Nat, (l.Pairwise fun p q => (s.region p).fin ≤ (s.region q).range.base) → p ∈ l → q ∈ l →
      (s.region p).fin ≤ (s.region q).range.base ∨ (s.region q).fin ≤ (s.region p).range.base := by
    intro l
    induction l with
    | nil =>
      intro _ hp
      cases hp
    | cons x l ih =>
      intro hs hp hq
      obtain ⟨hx,hl⟩ := List.pairwise_cons.mp hs
      rcases List.mem_cons.mp hp with rfl | hp
      · rcases List.mem_cons.mp hq with rfl | hq
        · exact absurd rfl hne
        · exact .inl (hx q hq)
      · rcases List.mem_cons.mp hq with rfl | hq
        · exact .inr (hx _ ‹_›)
        · exact ih hl ‹_› hq
  exact hs l h.sorted hp hq

/-- An address is in one region at most. -/
theorem eq_of_mem (h : SpaceInv s l) (hp : p ∈ l) (hq : q ∈ l) (h1 : (s.region p).range.base ≤ a) (h2 : a < (s.region p).fin)
    (h3 : (s.region q).range.base ≤ a) (h4 : a < (s.region q).fin) : p = q := by
  by_contra hne
  rcases h.disjoint hp hq hne with hd | hd <;> omega

/-- The fields that are no part of the regions may change. -/
theorem congr (h : SpaceInv s l) (ht : s'.regionRbTree = s.regionRbTree) (hb : s'.base = s.base) (hz : s'.size = s.size)
    (hh : s'.heapBase = s.heapBase) (hn : s'.heapNow < 2^32) (hm : s'.mapBase = s.mapBase) (hmz : s'.mapSize = s.mapSize)
    (hu : ∀ p ∈ s.used, p ∈ s'.used) : SpaceInv s' l := by
  have hreg : s'.region = s.region := by
    funext p
    rw [LosVmSpace.region, LosVmSpace.region, ht]
  refine ⟨?_,hn,?_,?_,?_,?_,fun p hp => hu p (h.used p hp),?_⟩
  · rw [hb, hz, hh, hm, hmz]
    exact h.layout
  · rw [ht]
    exact h.tree
  · rw [ht]
    exact h.length_eq
  · rw [hb, hz, hreg]
    exact h.ok
  · rw [hreg]
    exact h.sorted
  · rw [ht]
    exact hu _ h.nil_used

end SpaceInv

/-- The last address of a region that does not wrap around. -/
theorem endAddr_eq (h : 0 < r.range.size) (hf : r.fin < 2^32) : losRegionEndAddr r = r.fin - 1 := by
  rw [fin] at hf
  rw [losRegionEndAddr, Word.add_eq hf, Word.sub_eq (by omega), fin]

private theorem endAddr_rangeKey_one (ha : addr < 2^32) : losRegionEndAddr (rangeKey addr 1) = addr := by
  rw [losRegionEndAddr]
  show Word.sub (Word.add addr 1) 1 = addr
  by_cases h : addr + 1 < 2^32
  · rw [Word.add_eq h, Word.sub_eq (by omega)]
    omega
  · have he : addr = 2^32 - 1 := by omega
    rw [he]
    decide +kernel

/-- The outcomes of a comparison with a range that does not wrap around. -/
private theorem cmp_cases (key : LosVmMapRegion) (_ : r.range.base ≤ losRegionEndAddr r) :
    (osRegionRbCmpKeyFn key r = .bigger ∧ (losRegionEndAddr r < key.range.base ∨
      r.range.base ≤ key.range.base ∧ losRegionEndAddr r < losRegionEndAddr key)) ∨
    (osRegionRbCmpKeyFn key r = .smaller ∧ key.range.base < r.range.base ∧ losRegionEndAddr key < losRegionEndAddr r) ∨
    (osRegionRbCmpKeyFn key r = .equal ∧ key.range.base ≤ losRegionEndAddr r ∧
      (r.range.base ≤ key.range.base ∧ losRegionEndAddr key ≤ losRegionEndAddr r ∨
        key.range.base < r.range.base ∧ losRegionEndAddr r ≤ losRegionEndAddr key)) := by
  simp only [osRegionRbCmpKeyFn]
  split_ifs with h1 h2 h3 h4 h5
  · exact .inl ⟨rfl,.inl h1⟩
  · exact .inr (.inr ⟨rfl,by omega,.inl ⟨h2,h3⟩⟩)
  · exact .inl ⟨rfl,.inr ⟨h2,by omega⟩⟩
  · exact .inr (.inr ⟨rfl,by omega,.inr ⟨by omega,h5⟩⟩)
  · exact .inr (.inl ⟨rfl,by omega,by omega⟩)
  · omega
  · omega

theorem RegionMap.endAddr (h : RegionMap s l) (hp : p ∈ l) :
    losRegionEndAddr (s.region p) + 1 = (s.region p).fin ∧ (s.region p).range.base ≤ losRegionEndAddr (s.region p) := by
  have h0 := h.size_pos p hp
  rw [endAddr_eq h0 (h.fin_lt p hp), fin]
  omega

/-- Against a list of disjoint regions every key compares first as bigger, then as equal, then as smaller. -/
theorem RegionMap.monotone (h : RegionMap s l) (key : LosVmMapRegion) :
    Monotone osRegionRbCmpKeyFn s.regionRbTree key l := by
  refine List.Pairwise.imp_of_mem (fun {p q} hp hq hpq => ?_) h.sorted
  show (osRegionRbCmpKeyFn key (s.region p) = _ → osRegionRbCmpKeyFn key (s.region q) = _) ∧
    (osRegionRbCmpKeyFn key (s.region q) = _ → osRegionRbCmpKeyFn key (s.region p) = _)
  obtain ⟨hpe,hpb⟩ := h.endAddr hp
  obtain ⟨hqe,hqb⟩ := h.endAddr hq
  constructor
  · intro hc
    rcases cmp_cases key hpb with ⟨he,-⟩ | ⟨-,h1,h2⟩ | ⟨he,-⟩
    · rw [hc] at he
      cases he
    · rcases cmp_cases key hqb with ⟨-,h3⟩ | ⟨he,-⟩ | ⟨-,h3,h4⟩
      · omega
      · exact he
      · omega
    · rw [hc] at he
      cases he
  · intro hc
    rcases cmp_cases key hqb with ⟨-,h1⟩ | ⟨he,-⟩ | ⟨he,-⟩
    · rcases cmp_cases key hpb with ⟨he,-⟩ | ⟨-,h3,h4⟩ | ⟨-,h3,h4⟩
      · exact he
      · omega
      · omega
    · rw [hc] at he
      cases he
    · rw [hc] at he
      cases he

/-- A key that is no wrapped range compares as equal with the regions inside it and with the one around it. -/
private theorem cmp_equal_iff (h : RegionMap s l) (hp : p ∈ l) {key : LosVmMapRegion} (hk : key.range.base ≤ losRegionEndAddr key) :
    osRegionRbCmpKeyFn key (s.region p) = .equal ↔
      ((s.region p).range.base ≤ key.range.base ∧ losRegionEndAddr key < (s.region p).fin) ∨
      (key.range.base < (s.region p).range.base ∧ (s.region p).fin ≤ losRegionEndAddr key + 1) := by
  obtain ⟨hpe,hpb⟩ := h.endAddr hp
  rcases cmp_cases key hpb with ⟨he,h1⟩ | ⟨he,h1,h2⟩ | ⟨he,h1,h2⟩
  · rw [he]
    exact iff_of_false (by simp) (by omega)
  · rw [he]
    exact iff_of_false (by simp) (by omega)
  · exact iff_of_true he (by omega)

private theorem findRegion_spec (h : RegionMap s l) (vaddr len : Nat) :
    (osFindRegion s.regionRbTree vaddr len ∈ l ∧
      osRegionRbCmpKeyFn (rangeKey vaddr len) (s.region (osFindRegion s.regionRbTree vaddr len)) = .equal) ∨
    (osFindRegion s.regionRbTree vaddr len = 0 ∧ ∀ q ∈ l, osRegionRbCmpKeyFn (rangeKey vaddr len) (s.region q) ≠ .equal) := by
  have hm := h.monotone (rangeKey vaddr len)
  have hlen := h.length_eq
  obtain ⟨T,hr,-,rfl⟩ := h.tree
  rcases losRbGetNode_spec hr hlen hm with ⟨p,he,hp,hk⟩ | ⟨k,he,rfl,hb⟩
  · rw [osFindRegion, he]
    exact .inl ⟨hp,hk⟩
  · rw [osFindRegion, he]
    exact .inr ⟨rfl,fun q hq => hb.ne_equal hq⟩

/-- LOS_RegionFind finds the region of an address. -/
theorem regionFind_spec (h : RegionMap s l) (ha : addr < 2^32) :
    (losRegionFind s addr ∈ l ∧ (s.region (losRegionFind s addr)).range.base ≤ addr ∧
      addr < (s.region (losRegionFind s addr)).fin) ∨
    (losRegionFind s addr = 0 ∧ ∀ q ∈ l, ¬((s.region q).range.base ≤ addr ∧ addr < (s.region q).fin)) := by
  have hk : (rangeKey addr 1).range.base ≤ losRegionEndAddr (rangeKey addr 1) := by
    rw [endAddr_rangeKey_one ha]
    exact Nat.le_refl addr
  have hiff : ∀ q ∈ l, osRegionRbCmpKeyFn (rangeKey addr 1) (s.region q) = .equal ↔
      (s.region q).range.base ≤ addr ∧ addr < (s.region q).fin := by
    intro q hq
    rw [cmp_equal_iff h hq hk, endAddr_rangeKey_one ha]
    have hs := h.size_pos q hq
    show (_ ≤ addr ∧ _) ∨ (addr < _ ∧ _) ↔ _
    rw [fin] at *
    omega
  rcases findRegion_spec h addr 1 with ⟨hp,hc⟩ | ⟨h0,hc⟩
  · exact .inl ⟨hp,(hiff _ hp).mp hc⟩
  · exact .inr ⟨h0,fun q hq hin => hc q hq ((hiff q hq).mpr hin)⟩

theorem regionFind_eq (h : SpaceInv s l) (hp : p ∈ l) (h1 : (s.region p).range.base ≤ addr) (h2 : addr < (s.region p).fin) :
    losRegionFind s addr = p := by
  have ha : addr < 2^32 := Nat.lt_trans h2 (h.fin_lt hp)
  rcases regionFind_spec h.regionMap ha with ⟨hq,h3,h4⟩ | ⟨-,hno⟩
  · exact h.eq_of_mem hq hp h3 h4 h1 h2
  · exact absurd ⟨h1,h2⟩ (hno p hp)

/-- No region meets [a, a+n). -/
def Free (s : LosVmSpace) (l : List Nat) (a n : Nat) : Prop := ∀ p ∈ l, (s.region p).fin ≤ a ∨ a + n ≤ (s.region p).range.base

/-- The three searches of OsAllocSpecificRange find nothing exactly in a free range. -/
theorem free_iff (h : SpaceInv s l) (hn : 2 ≤ n) (ha : a + n < 2^32) :
    (losRegionFind s a = 0 ∧ losRegionFind s (a + n - 1) = 0 ∧ losRegionRangeFind s a (n - 1) = 0) ↔ Free s l a n := by
  have hlast : losRegionEndAddr (rangeKey a (n-1)) = a + n - 2 := by
    have hf : (rangeKey a (n-1)).fin = a + (n - 1) := rfl
    rw [endAddr_eq (show 0 < (rangeKey a (n-1)).range.size from Nat.sub_pos_of_lt (by omega)) (by omega), hf]
    omega
  have hk : (rangeKey a (n-1)).range.base ≤ losRegionEndAddr (rangeKey a (n-1)) := by
    rw [hlast]
    show a ≤ _
    omega
  have hcmp : ∀ q ∈ l, osRegionRbCmpKeyFn (rangeKey a (n-1)) (s.region q) = .equal ↔
      ((s.region q).range.base ≤ a ∧ a + n - 2 < (s.region q).fin) ∨
      (a < (s.region q).range.base ∧ (s.region q).fin ≤ a + n - 2 + 1) := by
    intro q hq
    rw [cmp_equal_iff h.regionMap hq hk, hlast]
    exact Iff.rfl
  constructor
  · rintro ⟨h1,h2,h3⟩ p hp
    have hs := (h.ok p hp).size_pos
    by_contra hno
    rw [not_or] at hno
    rcases regionFind_spec h.regionMap (show a < 2^32 by omega) with ⟨hm,-⟩ | ⟨-,ha1⟩
    · exact h.ne_zero hm h1
    rcases regionFind_spec h.regionMap (show a + n - 1 < 2^32 by omega) with ⟨hm,-⟩ | ⟨-,ha2⟩
    · exact h.ne_zero hm h2
    rcases findRegion_spec h.regionMap a (n-1) with ⟨hm,-⟩ | ⟨-,ha3⟩
    · exact h.ne_zero hm h3
    have g1 := ha1 p hp
    have g2 := ha2 p hp
    have g3 : ¬(((s.region p).range.base ≤ a ∧ a + n - 2 < (s.region p).fin) ∨
        (a < (s.region p).range.base ∧ (s.region p).fin ≤ a + n - 2 + 1)) := fun hc => ha3 p hp ((hcmp p hp).mpr hc)
    have hf : (s.region p).fin = (s.region p).range.base + (s.region p).range.size := rfl
    omega
  · intro hfree
    refine ⟨?_,?_,?_⟩
    · rcases regionFind_spec h.regionMap (show a < 2^32 by omega) with ⟨hm,h1,h2⟩ | ⟨h0,-⟩
      · have := hfree _ hm
        omega
      · exact h0
    · rcases regionFind_spec h.regionMap (show a + n - 1 < 2^32 by omega) with ⟨hm,h1,h2⟩ | ⟨h0,-⟩
      · have := hfree _ hm
        omega
      · exact h0
    · rcases findRegion_spec h.regionMap a (n-1) with ⟨hm,hc⟩ | ⟨h0,-⟩
      · have hc' := (hcmp _ hm).mp hc
        have hs := (h.ok _ hm).size_pos
        have hf := hfree _ hm
        rw [fin] at hc' hf
        omega
      · exact h0

@[simp] theorem region_setRegion : (s.setRegion p r).region q = if q = p then r else s.region q := rfl

/-- What the operations on regions leave alone. -/
structure SameSpace (s s' : LosVmSpace) : Prop where
  base : s'.base = s.base
  size : s'.size = s.size
  heapBase : s'.heapBase = s.heapBase
  heapNow : s'.heapNow = s.heapNow
  heap : s'.heap = s.heap
  mapBase : s'.mapBase = s.mapBase
  mapSize : s'.mapSize = s.mapSize

theorem SameSpace.refl (s : LosVmSpace) : SameSpace s s := ⟨rfl,rfl,rfl,rfl,rfl,rfl,rfl⟩

theorem SameSpace.trans {s'' : LosVmSpace} (h : SameSpace s s') (h' : SameSpace s' s'') : SameSpace s s'' :=
  ⟨h'.1.trans h.1,h'.2.trans h.2,h'.3.trans h.3,h'.4.trans h.4,h'.5.trans h.5,h'.6.trans h.6,h'.7.trans h.7⟩

/-- The descriptors in use and the ones to come are the same. -/
def SameHeap (s s' : LosVmSpace) : Prop := s'.memAlloc = s.memAlloc ∧ s'.used = s.used

theorem losMemAlloc_congr (h : SameHeap s s') :
    (losMemAlloc s').2 = (losMemAlloc s).2 ∧ SameHeap (losMemAlloc s).1 (losMemAlloc s').1 := by
  rw [losMemAlloc, losMemAlloc, h.1]
  cases s.memAlloc with
  | nil => exact ⟨rfl,h⟩
  | cons p ps =>
    simp only [h.2]
    split_ifs
    · exact ⟨rfl,rfl,rfl⟩
    · exact ⟨rfl,rfl,rfl⟩

/-- What OsCreateRegion puts into a descriptor. -/
def freshRegion (vaddr len regionFlags offset : Nat) : LosVmMapRegion :=
  { range := ⟨vaddr,len⟩, pgOff := offset, regionFlags := regionFlags, shmid := 0xFFFFFFFF, regionType := .none,
    fOflags := 0, vnode := 0 }

theorem sameSpace_setRegion : SameSpace s (s.setRegion p r) := ⟨rfl,rfl,rfl,rfl,rfl,rfl,rfl⟩

namespace SpaceInv

private theorem setRegion_tree (h : SpaceInv s l) (p : Nat) (r : LosVmMapRegion) :
    ∃ T, Rep (s.setRegion p r).regionRbTree T ∧ T.IsRb ∧ T.inorder = l := by
  obtain ⟨T,hr,hrb,hin⟩ := h.tree
  exact ⟨T,hr.setRest _ _ _ _,hrb,hin⟩

/-- A region is changed in place: it keeps its base and does not grow into the next one. -/
theorem setRegion (h : SpaceInv s l) (hr : RangeOk s.base s.size r) (hb : r.range.base = (s.region p).range.base)
    (hnext : ∀ q ∈ l, (s.region p).range.base < (s.region q).range.base → r.fin ≤ (s.region q).range.base) :
    SpaceInv (s.setRegion p r) l := by
  refine ⟨h.layout,h.heapNow_lt,h.setRegion_tree p r,h.length_eq,fun q hq => ?_,?_,h.used,h.nil_used⟩
  · rw [region_setRegion]
    split
    · exact hr
    · exact h.ok q hq
  · refine List.Pairwise.imp_of_mem (fun {a b} ha hb' hab => ?_) h.sorted
    have ha0 := (h.ok a ha).size_pos
    rw [region_setRegion, region_setRegion]
    rw [fin] at hab
    split
    · next hap =>
      rw [hap] at hab ha0
      split
      · next hbp =>
        rw [hbp] at hab
        omega
      · exact hnext b hb' (by omega)
    · split
      · next hbp =>
        rw [hbp] at hab
        rw [hb]
        exact hab
      · exact hab

private theorem setRegion_notMem (h : SpaceInv s l) (hp : p ∉ l) (r : LosVmMapRegion) : SpaceInv (s.setRegion p r) l := by
  have hreg : ∀ q ∈ l, (s.setRegion p r).region q = s.region q := fun q hq =>
    if_neg fun (he : q = p) => hp (he ▸ hq)
  refine ⟨h.layout,h.heapNow_lt,h.setRegion_tree p r,h.length_eq,fun q hq => ?_,?_,h.used,h.nil_used⟩
  · rw [hreg q hq]
    exact h.ok q hq
  · refine List.Pairwise.imp_of_mem (fun {a b} ha hb hab => ?_) h.sorted
    rw [hreg a ha, hreg b hb]
    exact hab

/-- A change of anything but the range. -/
theorem setRegion_range (h : SpaceInv s l) (hr : r.range = (s.region p).range) : SpaceInv (s.setRegion p r) l := by
  by_cases hp : p ∈ l
  · have hok := h.ok p hp
    have hfin : r.fin = (s.region p).fin := by rw [fin, fin, hr]
    refine h.setRegion ⟨?_,?_,?_,?_,?_⟩ (by rw [hr]) fun q hq hlt => ?_
    · rw [hr]
      exact hok.size_pos
    · rw [hr]
      exact hok.base_dvd
    · rw [hr]
      exact hok.size_dvd
    · rw [hr]
      exact hok.base_le
    · rw [hfin]
      exact hok.fin_le
    · rw [hfin]
      have hne : p ≠ q := by
        rintro rfl
        omega
      rcases h.disjoint hp hq hne with hd | hd
      · exact hd
      · rw [fin] at hd
        omega
  · exact h.setRegion_notMem hp r

/-- A shorter range. -/
theorem shrink (h : SpaceInv s l) (hp : p ∈ l) (hn : 0 < n) (hd : PAGE_SIZE ∣ n) (hle : n ≤ (s.region p).range.size)
    (hr : r.range = ⟨(s.region p).range.base,n⟩) : SpaceInv (s.setRegion p r) l := by
  have hok := h.ok p hp
  have hfin : r.fin ≤ (s.region p).fin := by
    rw [fin, fin, hr]
    exact Nat.add_le_add_left hle _
  refine h.setRegion ⟨?_,?_,?_,?_,hfin.trans hok.fin_le⟩ (by rw [hr]) fun q hq hlt => ?_
  · rw [hr]
    exact hn
  · rw [hr]
    exact hok.base_dvd
  · rw [hr]
    exact hd
  · rw [hr]
    exact hok.base_le
  · have hne : p ≠ q := by
      rintro rfl
      omega
    rcases h.disjoint hp hq hne with hd' | hd'
    · exact hfin.trans hd'
    · rw [fin] at hd'
      omega

/-- LOS_RegionFree takes the region out of the tree and gives its descriptor back. -/
theorem regionFree (h : SpaceInv s l) (hp : p ∈ l) :
    ∃ s', losRegionFree s p = (s',0) ∧ SpaceInv s' (l.erase p) ∧ s'.region = s.region ∧ SameSpace s s' := by
  have hp0 := h.ne_zero hp
  have hpn := h.ne_nil hp
  have hlen := h.length_eq
  obtain ⟨T,hr,hrb,hin⟩ := h.tree
  rw [← hin] at hp hlen
  obtain ⟨⟨T',hr',hrb',hin'⟩,hn,hkey,hul,-⟩ := rep_deleteNode hr hrb hlen hp
  have hreg : (losMemFree { s with regionRbTree := losRbDelNode s.regionRbTree p } p).region = s.region := hkey
  rw [losRegionFree, if_neg hp0]
  refine ⟨_,rfl,⟨h.layout,h.heapNow_lt,⟨T',hr',hrb',hin'.trans (by rw [hin])⟩,?_,fun q hq => ?_,?_,fun q hq => ?_,?_⟩,hreg,
    ⟨rfl,rfl,rfl,rfl,rfl,rfl,rfl⟩⟩
  · rw [← hin, List.length_erase_of_mem hp, hlen]
    exact hul.symm
  · rw [hreg]
    exact h.ok q (List.mem_of_mem_erase hq)
  · rw [hreg]
    exact h.sorted.sublist List.erase_sublist
  · have hqp := (h.nodup.mem_erase_iff.mp hq)
    exact (List.mem_erase_of_ne hqp.1).mpr (h.used q hqp.2)
  · rw [show (losMemFree { s with regionRbTree := losRbDelNode s.regionRbTree p } p).regionRbTree.stNilT = _ from hn]
    exact (List.mem_erase_of_ne (Ne.symm hpn)).mpr h.nil_used

/-- A region with a free range is inserted at its place. -/
theorem insertRegion (h : SpaceInv s l) (hp0 : p ≠ 0) (hpu : p ∈ s.used) (hpn : p ≠ s.regionRbTree.stNilT) (hpl : p ∉ l)
    (hok : RangeOk s.base s.size (s.region p)) (hfree : Free s l (s.region p).range.base (s.region p).range.size) :
    ∃ s' l₁ l₂, osInsertRegion s p = (s',true) ∧ l = l₁ ++ l₂ ∧ SpaceInv s' (l₁ ++ p :: l₂) ∧ s'.region = s.region ∧
      SameSpace s s' ∧ SameHeap s s' := by
  have hp1 := hok.size_pos
  have hlt : (s.region p).fin < 2^32 := Nat.lt_of_le_of_lt hok.fin_le h.layout.top_lt
  have hend := endAddr_eq hp1 hlt
  have hspan : (s.region p).range.base ≤ losRegionEndAddr (s.region p) := by
    rw [hend, fin]
    omega
  have hcmp : ∀ q ∈ l, osRegionRbCmpKeyFn (s.region p) (s.region q) ≠ .equal := by
    intro q hq he
    have hq1 := (h.ok q hq).size_pos
    have hc := (cmp_equal_iff h.regionMap hq hspan).mp he
    have hf := hfree q hq
    rw [hend, fin, fin] at hc
    rw [fin] at hf
    omega
  have hm := h.regionMap.monotone (s.region p)
  have hlen := h.length_eq
  obtain ⟨T,hr,hrb,hin⟩ := h.tree
  rw [← hin] at hm hlen
  rcases rep_addNode hr hrb hlen hm hp0 hpn (fun hmem => absurd (hin ▸ hmem) hpl) with
    ⟨⟨q,hq,he⟩,-⟩ | ⟨-,t',l₁,l₂,he,hlr,ha⟩
  · exact absurd he (hcmp q (hin ▸ hq))
  obtain ⟨T',hr',hrb',hin'⟩ := ha.rep
  have hreg : ({ s with regionRbTree := t' } : LosVmSpace).region = s.region := ha.key
  rw [hin] at hlr
  refine ⟨{ s with regionRbTree := t' },l₁,l₂,?_,hlr,⟨h.layout,h.heapNow_lt,⟨T',hr',hrb',hin'⟩,?_,?_,?_,?_,?_⟩,hreg,
    ⟨rfl,rfl,rfl,rfl,rfl,rfl,rfl⟩,rfl,rfl⟩
  · rw [osInsertRegion, he]
  · rw [show ({ s with regionRbTree := t' } : LosVmSpace).regionRbTree.ulNodes = _ from ha.ulNodes, ← hlen, hin, hlr]
    simp [Nat.add_assoc]
  · intro q hq
    rw [hreg]
    rcases List.mem_append.mp hq with hq | hq
    · exact h.ok q (hlr ▸ List.mem_append_left _ hq)
    · rcases List.mem_cons.mp hq with rfl | hq
      · exact hok
      · exact h.ok q (hlr ▸ List.mem_append_right _ hq)
  · rw [hreg]
    have hsort := h.sorted
    rw [hlr] at hsort
    obtain ⟨h1,h2,h3⟩ := List.pairwise_append.mp hsort
    refine List.pairwise_append.mpr ⟨h1,List.pairwise_cons.mpr ⟨fun q hq => ?_,h2⟩,fun a ha' b hb => ?_⟩
    · have hql : q ∈ l := hlr ▸ List.mem_append_right _ hq
      obtain ⟨hqe,hqb⟩ := h.regionMap.endAddr hql
      rcases hfree q hql with hf | hf
      · have hs : osRegionRbCmpKeyFn (s.region p) (s.region q) = .smaller := ha.smaller q hq
        rcases cmp_cases (s.region p) hqb with ⟨hc,-⟩ | ⟨-,h4,-⟩ | ⟨hc,-⟩
        · rw [hs] at hc
          cases hc
        · rw [fin] at hf
          omega
        · rw [hs] at hc
          cases hc
      · exact hf
    · rcases List.mem_cons.mp hb with rfl | hb
      · have hal : a ∈ l := hlr ▸ List.mem_append_left _ ha'
        obtain ⟨hae,hab⟩ := h.regionMap.endAddr hal
        rcases hfree a hal with hf | hf
        · exact hf
        · have hs : osRegionRbCmpKeyFn (s.region b) (s.region a) = .bigger := ha.bigger a ha'
          rcases cmp_cases (s.region b) hab with ⟨-,h4⟩ | ⟨hc,-⟩ | ⟨hc,-⟩
          · omega
          · rw [hs] at hc
            cases hc
          · rw [hs] at hc
            cases hc
      · exact h3 a ha' b hb
  · intro q hq
    rcases List.mem_append.mp hq with hq | hq
    · exact h.used q (hlr ▸ List.mem_append_left _ hq)
    · rcases List.mem_cons.mp hq with rfl | hq
      · exact hpu
      · exact h.used q (hlr ▸ List.mem_append_right _ hq)
  · rw [show ({ s with regionRbTree := t' } : LosVmSpace).regionRbTree.stNilT = _ from ha.stNilT]
    exact h.nil_used

/-- OsCreateRegion fills a descriptor that is not in use. -/
theorem createRegion (h : SpaceInv s l) (vaddr len regionFlags offset : Nat) :
    ∃ s' p, osCreateRegion s vaddr len regionFlags offset = (s',p) ∧ SpaceInv s' l ∧ SameSpace s s' ∧
      p = (losMemAlloc s).2 ∧ SameHeap (losMemAlloc s).1 s' ∧
      ((p = 0 ∧ s'.region = s.region) ∨ (p ≠ 0 ∧ p ∈ s'.used ∧ p ≠ s'.regionRbTree.stNilT ∧ p ∉ l ∧
        s'.region = Function.update s.region p (freshRegion vaddr len regionFlags offset))) := by
  have hnull : ∀ ps, SpaceInv { s with memAlloc := ps } l := fun ps => h.congr rfl rfl rfl rfl h.heapNow_lt rfl rfl fun _ hm => hm
  rw [osCreateRegion, losMemAlloc]
  rcases hps : s.memAlloc with - | ⟨p,ps⟩
  · exact ⟨s,0,rfl,h,SameSpace.refl s,rfl,⟨rfl,rfl⟩,.inl ⟨rfl,rfl⟩⟩
  · simp only
    by_cases hp : p = 0 ∨ p ∈ s.used
    · rw [if_pos hp]
      exact ⟨_,0,rfl,hnull ps,⟨rfl,rfl,rfl,rfl,rfl,rfl,rfl⟩,rfl,⟨rfl,rfl⟩,.inl ⟨rfl,rfl⟩⟩
    · rw [if_neg hp]
      obtain ⟨hp0,hpu⟩ := not_or.mp hp
      have hpl : p ∉ l := fun hm => hpu (h.used p hm)
      have hpn : p ≠ s.regionRbTree.stNilT := fun he => hpu (he ▸ h.nil_used)
      simp only [if_neg hp0]
      set v : LosRbNode := { pstParent := 0, pstRight := 0, pstLeft := 0, lColor := .red }
      have h₁ : SpaceInv { s with memAlloc := ps, used := p :: s.used, regionRbTree := s.regionRbTree.setNode p v } l := by
        obtain ⟨T,hr,hrb,hin⟩ := h.tree
        refine ⟨h.layout,h.heapNow_lt,⟨T,hr.setNode (by rw [hin]; exact hpl) hpn v,hrb,hin⟩,h.length_eq,h.ok,h.sorted,
          fun q hq => List.mem_cons_of_mem _ (h.used q hq),List.mem_cons_of_mem _ h.nil_used⟩
      refine ⟨_,p,rfl,h₁.setRegion_notMem hpl _,⟨rfl,rfl,rfl,rfl,rfl,rfl,rfl⟩,rfl,⟨rfl,rfl⟩,
        .inr ⟨hp0,List.mem_cons_self,hpn,hpl,?_⟩⟩
      funext q
      rw [region_setRegion, Function.update_apply]
      rfl

end SpaceInv

end LiteOsKernel.Vm
