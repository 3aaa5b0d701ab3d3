import LiteOsKernel.Vm.SyscallRun

/-! Which page is covered by a region with which attributes: OsUnMMap takes exactly its range out, and a failed
OsVmRegionAdjust loses the rest of a region. -/
namespace LiteOsKernel.Vm
open Rbtree LosVmSpace LosVmMapRegion

variable {s s' s'' : LosVmSpace} {l l' : List Nat} {p q a n x y : Nat} {r r' r'' : LosVmMapRegion} {st : Int}
  (unMMap : LosVmSpace → Nat → Nat → LosVmSpace × Int)

/-- The region p of the tree covers the address x. -/
def Covers (s : LosVmSpace) (x p : Nat) : Prop :=
  p ∈ scan s.regionRbTree ∧ (s.region p).range.base ≤ x ∧ x < (s.region p).range.base + (s.region p).range.size

/-- The page of the file behind an address of the region. -/
def pageIndex (r : LosVmMapRegion) (x : Nat) : Nat := Word.add r.pgOff ((x - r.range.base)/PAGE_SIZE)

/-- The address x is mapped in the same way by both regions. OsCreateRegion makes the shmid -1, and it is set and read for
shared memory only; what belongs to a file is read of a file only. -/
structure SamePage (r r' : LosVmMapRegion) (x : Nat) : Prop where
  regionType : r'.regionType = r.regionType
  regionFlags : r'.regionFlags ||| VM_MAP_REGION_FLAG_FIXED = r.regionFlags ||| VM_MAP_REGION_FLAG_FIXED
  shmid : r.regionFlags &&& VM_MAP_REGION_FLAG_SHM ≠ 0 ∨ r.shmid = 0xFFFFFFFF → r'.shmid = r.shmid
  fOflags : r.regionType = .file ∨ r.fOflags = 0 → r'.fOflags = r.fOflags
  vnode : r.regionType = .file ∨ r.vnode = 0 → r'.vnode = r.vnode
  pageIndex : pageIndex r' x = pageIndex r x

theorem SamePage.refl (r : LosVmMapRegion) (x : Nat) : SamePage r r x := ⟨rfl,rfl,fun _ => rfl,fun _ => rfl,fun _ => rfl,rfl⟩

private theorem shm_iff (h : r'.regionFlags ||| VM_MAP_REGION_FLAG_FIXED = r.regionFlags ||| VM_MAP_REGION_FLAG_FIXED) :
    r'.regionFlags &&& VM_MAP_REGION_FLAG_SHM ≠ 0 ↔ r.regionFlags &&& VM_MAP_REGION_FLAG_SHM ≠ 0 := by
  have hbit : ∀ v, (v ||| VM_MAP_REGION_FLAG_FIXED) &&& VM_MAP_REGION_FLAG_SHM = v &&& VM_MAP_REGION_FLAG_SHM := by
    intro v
    have hz : VM_MAP_REGION_FLAG_FIXED &&& VM_MAP_REGION_FLAG_SHM = 0 := by decide
    rw [Nat.and_or_distrib_right, hz, Nat.or_zero]
  rw [← hbit r'.regionFlags, h, hbit]

theorem SamePage.trans (h : SamePage r r' x) (h' : SamePage r' r'' x) : SamePage r r'' x where
  regionType := h'.regionType.trans h.regionType
  regionFlags := h'.regionFlags.trans h.regionFlags
  shmid hs := by
    have he := h.shmid hs
    refine (h'.shmid ?_).trans he
    rw [shm_iff h.regionFlags, he]
    exact hs
  fOflags hf := by
    have he := h.fOflags hf
    refine (h'.fOflags ?_).trans he
    rw [h.regionType, he]
    exact hf
  vnode hv := by
    have he := h.vnode hv
    refine (h'.vnode ?_).trans he
    rw [h.regionType, he]
    exact hv
  pageIndex := h'.pageIndex.trans h.pageIndex

/-- The same addresses are mapped, in the same way. -/
structure SameMap (s s' : LosVmSpace) : Prop where
  kept : ∀ x p, Covers s x p → ∃ p', Covers s' x p' ∧ SamePage (s.region p) (s'.region p') x
  old : ∀ x p', Covers s' x p' → ∃ p, Covers s x p ∧ SamePage (s.region p) (s'.region p') x

theorem SameMap.refl (s : LosVmSpace) : SameMap s s :=
  ⟨fun x p h => ⟨p,h,.refl _ x⟩,fun x p h => ⟨p,h,.refl _ x⟩⟩

theorem SameMap.trans (h : SameMap s s') (h' : SameMap s' s'') : SameMap s s'' := by
  refine ⟨fun x p hp => ?_,fun x p hp => ?_⟩
  · obtain ⟨p₁,hp₁,h₁⟩ := h.kept x p hp
    obtain ⟨p₂,hp₂,h₂⟩ := h'.kept x p₁ hp₁
    exact ⟨p₂,hp₂,h₁.trans h₂⟩
  · obtain ⟨p₁,hp₁,h₁⟩ := h'.old x p hp
    obtain ⟨p₂,hp₂,h₂⟩ := h.old x p₁ hp₁
    exact ⟨p₂,hp₂,h₂.trans h₁⟩

theorem SpaceInv.covers_iff (h : SpaceInv s l) : Covers s x p ↔ p ∈ l ∧ (s.region p).range.base ≤ x ∧ x < (s.region p).fin := by
  rw [Covers, h.scan_eq]
  rfl

private theorem samePage_headAt (r : LosVmMapRegion) (y x : Nat) : SamePage r (headAt r y) x :=
  ⟨rfl,rfl,fun _ => rfl,fun _ => rfl,fun _ => rfl,rfl⟩

private theorem samePage_tailAt (hb : PAGE_SIZE ∣ r.range.base) (hy : PAGE_SIZE ∣ y) (h1 : r.range.base < y) (h2 : y ≤ x) :
    SamePage r (tailAt r y) x where
  regionType := rfl
  regionFlags := by
    show (r.regionFlags ||| _) ||| _ = _
    rw [Nat.or_assoc, Nat.or_self]
  shmid hs := by
    show (if _ then _ else _) = _
    split_ifs with hc
    · rfl
    · exact (hs.resolve_left hc).symm
  fOflags hf := by
    show (if _ then _ else _) = _
    split_ifs with hc
    · rfl
    · exact (hf.resolve_left hc).symm
  vnode hv := by
    show (if _ then _ else _) = _
    split_ifs with hc
    · rfl
    · exact (hv.resolve_left hc).symm
  pageIndex := by
    show Word.add (Word.add r.pgOff (Word.sub y r.range.base >>> PAGE_SHIFT)) ((x - y)/PAGE_SIZE) = Word.add r.pgOff _
    rw [Word.sub_eq (Nat.le_of_lt h1), Nat.shiftRight_eq_div_pow]
    have hsum : (y - r.range.base)/2^PAGE_SHIFT + (x - y)/PAGE_SIZE = (x - r.range.base)/PAGE_SIZE := by
      obtain ⟨i,hi⟩ := hb
      obtain ⟨j,hj⟩ := hy
      rw [PAGE_SIZE] at *
      rw [PAGE_SHIFT]
      omega
    rw [← hsum, Word.add, Word.add, Word.add, Nat.mod_add_mod, Nat.add_assoc]

/-- The regions after a split of p at y. -/
structure Parted (s : LosVmSpace) (l : List Nat) (p y : Nat) (s' : LosVmSpace) (l' : List Nat) (q : Nat) : Prop where
  notMem : q ∉ l
  mem : ∀ z, z ∈ l' ↔ z = q ∨ z ∈ l
  region : s'.region = Function.update (Function.update s.region p (headAt (s.region p) y)) q (tailAt (s.region p) y)

namespace Parted

theorem tail_eq (h : Parted s l p y s' l' q) : s'.region q = tailAt (s.region p) y := by
  rw [h.region, Function.update_self]

theorem head_eq (h : Parted s l p y s' l' q) (hp : p ∈ l) : s'.region p = headAt (s.region p) y := by
  rw [h.region, Function.update_of_ne (fun he : p = q => h.notMem (he ▸ hp)), Function.update_self]

theorem other_eq (h : Parted s l p y s' l' q) {z : Nat} (hz : z ∈ l) (hzp : z ≠ p) : s'.region z = s.region z := by
  rw [h.region, Function.update_of_ne (fun he : z = q => h.notMem (he ▸ hz)), Function.update_of_ne hzp]

private theorem sameMap (h : SpaceInv s l) (h' : SpaceInv s' l') (hp : p ∈ l) (hy : PAGE_SIZE ∣ y) (h1 : (s.region p).range.base < y)
    (h2 : y < (s.region p).fin) (hpart : Parted s l p y s' l' q) : SameMap s s' := by
  have hhead := fin_headAt h1
  have htail := fin_tailAt h2
  have htailPage : ∀ x, y ≤ x → SamePage (s.region p) (tailAt (s.region p) y) x := fun x hx =>
    samePage_tailAt (h.ok p hp).base_dvd hy h1 hx
  refine ⟨fun x z hz => ?_,fun x z hz => ?_⟩
  · obtain ⟨hzl,hz1,hz2⟩ := h.covers_iff.mp hz
    by_cases hzp : z = p
    · rw [hzp] at hz1 hz2 ⊢
      by_cases hxy : x < y
      · refine ⟨p,h'.covers_iff.mpr ⟨(hpart.mem p).mpr (.inr hp),?_⟩,?_⟩
        · rw [hpart.head_eq hp, hhead]
          exact ⟨hz1,hxy⟩
        · rw [hpart.head_eq hp]
          exact samePage_headAt _ y x
      · refine ⟨q,h'.covers_iff.mpr ⟨(hpart.mem q).mpr (.inl rfl),?_⟩,?_⟩
        · rw [hpart.tail_eq, htail]
          exact ⟨not_lt.mp hxy,hz2⟩
        · rw [hpart.tail_eq]
          exact htailPage x (not_lt.mp hxy)
    · refine ⟨z,h'.covers_iff.mpr ⟨(hpart.mem z).mpr (.inr hzl),?_⟩,?_⟩
      · rw [hpart.other_eq hzl hzp]
        exact ⟨hz1,hz2⟩
      · rw [hpart.other_eq hzl hzp]
        exact .refl _ x
  · obtain ⟨hzl,hz1,hz2⟩ := h'.covers_iff.mp hz
    rcases (hpart.mem z).mp hzl with rfl | hzl
    · rw [hpart.tail_eq] at hz1 hz2 ⊢
      rw [htail] at hz2
      exact ⟨p,h.covers_iff.mpr ⟨hp,(Nat.le_of_lt h1).trans hz1,hz2⟩,htailPage x hz1⟩
    · by_cases hzp : z = p
      · rw [hzp, hpart.head_eq hp] at hz1 hz2 ⊢
        rw [hhead] at hz2
        exact ⟨p,h.covers_iff.mpr ⟨hp,hz1,hz2.trans h2⟩,samePage_headAt _ y x⟩
      · rw [hpart.other_eq hzl hzp] at hz1 hz2 ⊢
        exact ⟨z,h.covers_iff.mpr ⟨hzl,hz1,hz2⟩,.refl _ x⟩

/-- Afterwards the regions go on over the same addresses, but for y. -/
theorem cut_iff (h : SpaceInv s l) (hp : p ∈ l) (h1 : (s.region p).range.base < y) (h2 : y < (s.region p).fin)
    (hpart : Parted s l p y s' l' q) (x : Nat) : Cut s' l' x ↔ Cut s l x ∨ x = y := by
  have hhead := fin_headAt h1
  have htail := fin_tailAt h2
  constructor
  · intro hc
    refine or_iff_not_imp_right.mpr fun hxy z hz hzx => ?_
    by_cases hzp : z = p
    · rw [hzp] at hzx
      rcases Nat.lt_or_gt_of_ne hxy with hlt | hgt
      · refine hc p ((hpart.mem p).mpr (.inr hp)) ?_
        rw [hpart.head_eq hp, hhead]
        exact ⟨hzx.1,hlt⟩
      · refine hc q ((hpart.mem q).mpr (.inl rfl)) ?_
        rw [hpart.tail_eq, htail]
        exact ⟨hgt,hzx.2⟩
    · refine hc z ((hpart.mem z).mpr (.inr hz)) ?_
      rw [hpart.other_eq hz hzp]
      exact hzx
  · intro hc z hz hzx
    rcases (hpart.mem z).mp hz with rfl | hzl
    · rw [hpart.tail_eq, htail] at hzx
      have hyx : y < x := hzx.1
      rcases hc with hc | hc
      · exact hc p hp ⟨h1.trans hyx,hzx.2⟩
      · omega
    · by_cases hzp : z = p
      · rw [hzp, hpart.head_eq hp, hhead] at hzx
        rcases hc with hc | hc
        · exact hc p hp ⟨hzx.1,hzx.2.trans h2⟩
        · omega
      · rw [hpart.other_eq hzl hzp] at hzx
        rcases hc with hc | hc
        · exact hc z hzl hzx
        · rw [hc] at hzx
          have := h.eq_of_mem hzl hp (Nat.le_of_lt hzx.1) hzx.2 (Nat.le_of_lt h1) h2
          exact hzp this

end Parted

/-- A half of OsVmRegionAdjust changes nothing, or where no descriptor is left it loses the rest of a region. -/
theorem HalfDone.covers (h : SpaceInv s l) (hx : PAGE_SIZE ∣ x) (hd : HalfDone s l x s' st) :
    (st = 0 ∧ (¬Cut s l x → (losMemAlloc s).2 ≠ 0) ∧ SameHeap (if Cut s l x then s else (losMemAlloc s).1) s' ∧ SameMap s s' ∧
      ∃ l', SpaceInv s' l' ∧ ∀ y, Cut s' l' y ↔ Cut s l y ∨ y = x) ∨
    (st ≠ 0 ∧ ¬Cut s l x ∧ (losMemAlloc s).2 = 0 ∧ ∃ p, Covers s x p ∧ ∀ p', ¬Covers s' x p') := by
  cases hd with
  | none hc =>
    rw [if_pos hc]
    refine .inl ⟨rfl,fun hn => absurd hc hn,⟨rfl,rfl⟩,.refl s,l,h,fun y => ⟨.inl,?_⟩⟩
    rintro (hy | rfl)
    · exact hy
    · exact hc
  | @split _ p hp h1 h2 ha =>
    obtain ⟨-,hheap,hnew⟩ := ha
    have hcross : ¬Cut s l x := fun hc => hc p hp ⟨h1,h2⟩
    rw [if_neg hcross]
    rcases hnew with ⟨hz,h',hreg⟩ | ⟨hz,hql,l',h',hl',hreg⟩
    · rw [if_pos hz]
      refine .inr ⟨by decide,hcross,hz,p,h.covers_iff.mpr ⟨hp,Nat.le_of_lt h1,h2⟩,fun p' hp' => ?_⟩
      obtain ⟨hpl,hb,hf⟩ := h'.covers_iff.mp hp'
      rw [hreg, Function.update_apply] at hb hf
      split_ifs at hb hf with hpp
      · rw [fin_headAt h1] at hf
        exact Nat.lt_irrefl x hf
      · exact hpp (h.eq_of_mem hpl hp hb hf (Nat.le_of_lt h1) h2)
    · rw [if_neg hz]
      have hpart : Parted s l p x s' l' (losMemAlloc s).2 := ⟨hql,hl',hreg⟩
      exact .inl ⟨rfl,fun _ => hz,hheap,hpart.sameMap h h' hp hx h1 h2,l',h',hpart.cut_iff h hp h1 h2⟩

/-- LOS_MemAlloc has a descriptor for each region that goes on over a or e, the ends of the range to adjust. -/
def CanSplit (s : LosVmSpace) (l : List Nat) (a e : Nat) : Prop :=
  (¬Cut s l a → (losMemAlloc s).2 ≠ 0) ∧
    (¬Cut s l e → e ≠ a → (losMemAlloc (if Cut s l a then s else (losMemAlloc s).1)).2 ≠ 0)

theorem regionAdjust_covers (h : SpaceInv s l) (ha : PAGE_SIZE ∣ a) (hlt : a < 2^32) (hn : PAGE_SIZE ∣ Word.add a n) :
    (CanSplit s l a (Word.add a n) ∧ (osVmRegionAdjust unMMap s a n).2 = 0 ∧ SameMap s (osVmRegionAdjust unMMap s a n).1 ∧
      ∃ l', SpaceInv (osVmRegionAdjust unMMap s a n).1 l' ∧ Cut (osVmRegionAdjust unMMap s a n).1 l' a ∧
        Cut (osVmRegionAdjust unMMap s a n).1 l' (Word.add a n)) ∨
    (¬CanSplit s l a (Word.add a n) ∧ (osVmRegionAdjust unMMap s a n).2 ≠ 0 ∧
      ∃ x p, Covers s x p ∧ ∀ p', ¬Covers (osVmRegionAdjust unMMap s a n).1 x p') := by
  obtain ⟨s₁,st₁,he₁,hd₁⟩ := adjustStart_half unMMap h ha hlt
  rw [osVmRegionAdjust]
  simp only [he₁]
  rcases hd₁.covers h ha with ⟨rfl,hz₁,hheap₁,hsame₁,l₁,h₁,hcut₁⟩ | ⟨hst₁,hc₁,hz₁,p,hp,hlost⟩
  · -- the first half succeeds, and the second one finds the regions that went on over the end before, but for a
    simp only [ne_eq, not_true_eq_false, ite_false]
    obtain ⟨s₂,st₂,he₂,hd₂⟩ := adjustEnd_half unMMap h₁ hn (word_add_lt a n)
    simp only [he₂]
    have hz : (losMemAlloc s₁).2 = (losMemAlloc (if Cut s l a then s else (losMemAlloc s).1)).2 := (losMemAlloc_congr hheap₁).1
    rcases hd₂.covers h₁ hn with ⟨rfl,hz₂,-,hsame₂,l₂,h₂,hcut₂⟩ | ⟨hst₂,hc₂,hz₂,p,hp,hlost⟩
    · refine .inl ⟨⟨hz₁,fun hce hne => ?_⟩,rfl,hsame₁.trans hsame₂,l₂,h₂,?_,?_⟩
      · rw [← hz]
        refine hz₂ fun hc => ?_
        exact ((hcut₁ _).mp hc).elim hce hne
      · exact (hcut₂ a).mpr (.inl ((hcut₁ a).mpr (.inr rfl)))
      · exact (hcut₂ _).mpr (.inr rfl)
    · obtain ⟨p₀,hp₀,-⟩ := hsame₁.old _ p hp
      refine .inr ⟨fun hcan => ?_,hst₂,_,p₀,hp₀,hlost⟩
      rw [hcut₁, not_or] at hc₂
      exact hcan.2 hc₂.1 hc₂.2 (by rw [← hz, hz₂])
  · rw [if_pos hst₁]
    exact .inr ⟨fun hcan => hcan.1 hc₁ hz₁,hst₁,a,p,hp,hlost⟩

/-- A failed OsVmRegionAdjust never leaves the map as it was, and it fails where a descriptor is missing. -/
theorem regionAdjust_intact_iff (h : SpaceInv s l) (ha : PAGE_SIZE ∣ a) (hlt : a < 2^32) (hn : PAGE_SIZE ∣ Word.add a n) :
    ((osVmRegionAdjust unMMap s a n).2 ≠ 0 → SameMap s (osVmRegionAdjust unMMap s a n).1) ↔ CanSplit s l a (Word.add a n) := by
  rcases regionAdjust_covers unMMap h ha hlt hn with ⟨hcan,h0,-⟩ | ⟨hcan,h0,x,p,hp,hlost⟩
  · exact iff_of_true (fun hne => absurd h0 hne) hcan
  · refine iff_of_false (fun hsame => ?_) hcan
    obtain ⟨p',hp',-⟩ := (hsame h0).kept x p hp
    exact hlost p' hp'

/-- A space with three pages at the start of the mapping window, and as many descriptors left as memAlloc has. -/
def threePages (memAlloc : List Nat) : LosVmSpace :=
  VmCall.run 0xff 3 (osUserVmSpaceInit 1 (fun _ => ⟨0,0,0,.red⟩) (fun _ => default) (2 :: memAlloc))
    (.mmap USER_MAP_BASE 12288 3 0x32 none 0)

theorem threePages_inv (memAlloc : List Nat) : ∃ l, SpaceInv (threePages memAlloc) l := by
  have h : SpaceReachable (fun s c => c.Ok s) 0xff 3 (threePages memAlloc) := .call (.init (by decide) _ _ _) _ (by decide) trivial
  exact h.inv

theorem regionAdjust_intact_threePages : ∃ l, ((osVmRegionAdjust (losUnMMap 3) (threePages [3]) (USER_MAP_BASE + 4096) 4096).2 ≠ 0 →
    SameMap (threePages [3]) (osVmRegionAdjust (losUnMMap 3) (threePages [3]) (USER_MAP_BASE + 4096) 4096).1) ↔
      CanSplit (threePages [3]) l (USER_MAP_BASE + 4096) (Word.add (USER_MAP_BASE + 4096) 4096) := by
  obtain ⟨l,h⟩ := threePages_inv [3]
  exact ⟨l,regionAdjust_intact_iff (losUnMMap 3) h (by decide) (by decide) (by decide +kernel)⟩

/-- With no descriptor left the two pages from the middle one on are lost. -/
theorem regionAdjust_intact_fails : ¬ ∀ (s : LosVmSpace) (l : List Nat) (a n : Nat), SpaceInv s l → PAGE_SIZE ∣ a → a < 2^32 →
    PAGE_SIZE ∣ Word.add a n → (osVmRegionAdjust (losUnMMap 3) s a n).2 ≠ 0 →
      SameMap s (osVmRegionAdjust (losUnMMap 3) s a n).1 := by
  intro hall
  obtain ⟨l,h⟩ := threePages_inv []
  have hsame := hall (threePages []) l (USER_MAP_BASE + 4096) 4096 h (by decide) (by decide) (by decide +kernel) (by decide +kernel)
  obtain ⟨p,⟨hp,hc⟩,-⟩ := hsame.kept (USER_MAP_BASE + 4096) 2 ⟨by decide +kernel,by decide +kernel⟩
  revert p
  decide +kernel

/-- The pages of [a, a+m) are mapped no more, and the others as before. -/
structure UnmapsExactly (s s' : LosVmSpace) (a m : Nat) : Prop where
  removed : ∀ x p, a ≤ x → x < a + m → ¬Covers s' x p
  kept : ∀ x p, ¬(a ≤ x ∧ x < a + m) → Covers s x p → ∃ p', Covers s' x p' ∧ SamePage (s.region p) (s'.region p') x
  old : ∀ x p', Covers s' x p' → ∃ p, Covers s x p

private theorem regionsRemove_exact (h : SpaceInv s l) (ha : PAGE_SIZE ∣ a) (halt : a < 2^32) (hn : PAGE_SIZE ∣ n) (hn0 : 0 < n)
    (hle : a + n ≤ 2^32) (h0 : (osRegionsRemove unMMap s a n).2 = 0) : UnmapsExactly s (osRegionsRemove unMMap s a n).1 a n := by
  have hsum : PAGE_SIZE ∣ Word.add a n := by
    rw [Word.add]
    exact (Nat.dvd_mod_iff (by decide)).mpr (Nat.dvd_add ha hn)
  have hlast : Word.sub (Word.add a n) 1 = a + n - 1 := by
    by_cases hw : a + n < 2^32
    · rw [Word.add_eq hw, Word.sub_eq (by omega)]
    · have he : a + n = 2^32 := by omega
      rw [Word.add, he]
      decide +kernel
  rw [osRegionsRemove] at h0 ⊢
  rcases regionAdjust_covers unMMap h ha halt hsum with ⟨-,hz,hsame,l₁,h₁,hc1,hc2⟩ | ⟨-,hne,-⟩
  · simp only [hz, ne_eq, not_true_eq_false, ite_false, hlast]
    set s₁ := (osVmRegionAdjust unMMap s a n).1
    obtain ⟨s₂,l₂,he,h₂,-,hreg,hmem⟩ := removeScan_all a (a + n - 1) h₁
    rw [he]
    -- no region goes on over the end of the range, also where that is the end of all addresses
    have hcut : ∀ q ∈ l₁, ¬((s₁.region q).range.base < a + n ∧ a + n < (s₁.region q).fin) := by
      intro q hq hqx
      by_cases hw : a + n < 2^32
      · rw [Word.add_eq hw] at hc2
        exact hc2 q hq hqx
      · have := h₁.fin_lt hq
        omega
    refine ⟨fun x q hx1 hx2 hq => ?_,fun x q hx hq => ?_,fun x q hq => ?_⟩
    · obtain ⟨hq₂,hb,hf⟩ := h₂.covers_iff.mp hq
      rw [hreg] at hb hf
      obtain ⟨hq₁,hin⟩ := (hmem q).mp hq₂
      have hend := h₁.regionMap.endAddr hq₁
      have g1 := hc1 q hq₁
      have g2 := hcut q hq₁
      rw [Within] at hin
      omega
    · obtain ⟨q₁,hq₁,hp⟩ := hsame.kept x q hq
      obtain ⟨hql,hb,hf⟩ := h₁.covers_iff.mp hq₁
      refine ⟨q₁,h₂.covers_iff.mpr ⟨(hmem q₁).mpr ⟨hql,fun hin => ?_⟩,?_⟩,?_⟩
      · have hend := h₁.regionMap.endAddr hql
        rw [Within] at hin
        omega
      · rw [hreg]
        exact ⟨hb,hf⟩
      · rw [hreg]
        exact hp
    · obtain ⟨hq₂,hb,hf⟩ := h₂.covers_iff.mp hq
      rw [hreg] at hb hf
      obtain ⟨p,hp,-⟩ := hsame.old x q (h₁.covers_iff.mpr ⟨((hmem q).mp hq₂).1,hb,hf⟩)
      exact ⟨p,hp⟩
  · simp only [if_pos hne] at h0
    exact absurd h0 hne

/-- LOS_Align rounds up, but down where the next page would start at 2^32. -/
theorem losAlign_cases (hx : x < 2^32) : losAlign x PAGE_SIZE = Word.alignUp x PAGE_SIZE ∨
    (2^32 - PAGE_SIZE < x ∧ losAlign x PAGE_SIZE = 2^32 - PAGE_SIZE ∧ Word.alignUp x PAGE_SIZE = 2^32) := by
  have hp : PAGE_SIZE = 4096 := rfl
  have hm : Word.sub PAGE_SIZE 1 = 2^12 - 1 := by decide +kernel
  rw [losAlign, hm]
  by_cases hw : x + PAGE_SIZE < 2^32
  · left
    have he : Word.sub (Word.add x PAGE_SIZE) 1 = x + PAGE_SIZE - 1 := by
      rw [Word.add_eq hw, Word.sub_eq (by omega)]
    rw [he, if_pos (by omega), Word.and_not_low (by omega) (by omega), Word.alignUp, hp]
    norm_num
  · by_cases hlast : x = 2^32 - 4096
    · left
      rw [hlast]
      decide +kernel
    · right
      have he : Word.sub (Word.add x PAGE_SIZE) 1 = x + PAGE_SIZE - 2^32 - 1 := by
        have hadd : Word.add x PAGE_SIZE = x + PAGE_SIZE - 2^32 := by
          rw [Word.add]
          omega
        rw [hadd, Word.sub_eq (by omega)]
      rw [he, if_neg (by omega), Word.and_not_low hx (by omega), Word.alignUp, hp]
      rw [hp] at hw
      omega

/-- Where OsUnMMap returns 0 it has unmapped the pages of the range and no others. -/
theorem unMMap_exact (h : SpaceInv s l) (ha : PAGE_SIZE ∣ a) (hn : 0 < n) (hw : a + n < 2^32)
    (h0 : (osUnMMap unMMap s a n).2 = 0) : UnmapsExactly s (osUnMMap unMMap s a n).1 a (Word.alignUp n PAGE_SIZE) := by
  have hp : PAGE_SIZE = 4096 := rfl
  have hdvd := (losAlign_spec (show n < 2^32 by omega)).1
  have hup := Word.alignUp_lt n (show 0 < PAGE_SIZE by decide)
  have hle := Word.le_alignUp n (show 0 < PAGE_SIZE by decide)
  rw [osUnMMap, losAlign_of_dvd (by omega) ha] at h0 ⊢
  simp only at h0 ⊢
  have hst : (osRegionsRemove unMMap s a (losAlign n PAGE_SIZE)).2 = 0 := by
    by_contra hne
    rw [if_pos hne] at h0
    exact absurd h0 (by decide)
  rcases losAlign_cases (show n < 2^32 by omega) with he | ⟨hlast,he,hup'⟩
  · rw [he] at hst hdvd ⊢
    refine regionsRemove_exact unMMap h ha (by omega) hdvd (by omega) ?_ hst
    -- the end of the range is a multiple of the page size
    obtain ⟨i,hi⟩ := ha
    obtain ⟨j,hj⟩ := hdvd
    rw [hj, hp] at hup ⊢
    rw [hp] at hi
    omega
  · -- the range starts at 0, and no region reaches into the last page of all
    have ha0 : a = 0 := Nat.eq_zero_of_dvd_of_lt ha (by omega)
    rw [he] at hst hdvd ⊢
    have hexact := regionsRemove_exact unMMap h ha (by omega) hdvd (by omega) (by omega) hst
    rw [hup']
    refine ⟨fun x p hx1 hx2 hc => ?_,fun x p hx => hexact.kept x p (by omega),hexact.old⟩
    by_cases hxl : x < a + (2^32 - PAGE_SIZE)
    · exact hexact.removed x p hx1 hxl hc
    · obtain ⟨q,hq⟩ := hexact.old x p hc
      obtain ⟨hql,-,hf⟩ := h.covers_iff.mp hq
      have hlt := h.fin_lt hql
      obtain ⟨j,hj⟩ := (h.ok q hql).fin_dvd
      rw [hp] at hj hxl
      omega

theorem unMMap_exact_threePages : ∃ l, SpaceInv (threePages [3,4]) l ∧
    UnmapsExactly (threePages [3,4]) (osUnMMap (losUnMMap 3) (threePages [3,4]) (USER_MAP_BASE + 4096) 100).1 (USER_MAP_BASE + 4096)
      (Word.alignUp 100 PAGE_SIZE) := by
  obtain ⟨l,h⟩ := threePages_inv [3,4]
  exact ⟨l,h,unMMap_exact (losUnMMap 3) h (by decide) (by decide) (by decide) (by decide +kernel)⟩

end LiteOsKernel.Vm
