import LiteOsKernel.Vm.MapCover

/-! The region flags of every address, and what the splits of OsVmRegionAdjust and a change in place do to them. -/
namespace LiteOsKernel.Vm
open Rbtree LosVmSpace LosVmMapRegion

variable {s s' s₁ s₂ : LosVmSpace} {l l' l₁ l₂ : List Nat} {p q a n x y v : Nat} {r : LosVmMapRegion} {st : Int}
  (unMMap : LosVmSpace → Nat → Nat → LosVmSpace × Int)

/-- The flags of the region that LOS_RegionFind returns for x, if it returns one. -/
def flagsAt (s : LosVmSpace) (x : Nat) : Option Nat :=
  if losRegionFind s x = 0 then none else some (s.region (losRegionFind s x)).regionFlags

theorem flagsAt_eq (h : SpaceInv s l) (hp : p ∈ l) (h1 : (s.region p).range.base ≤ x) (h2 : x < (s.region p).fin) :
    flagsAt s x = some (s.region p).regionFlags := by
  rw [flagsAt, regionFind_eq h hp h1 h2, if_neg (h.ne_zero hp)]

theorem flagsAt_none (h : SpaceInv s l) (hx : x < 2^32)
    (hno : ∀ p ∈ l, ¬((s.region p).range.base ≤ x ∧ x < (s.region p).fin)) : flagsAt s x = none := by
  rcases regionFind_spec h.regionMap hx with ⟨hp,h1,h2⟩ | ⟨h0,-⟩
  · exact absurd ⟨h1,h2⟩ (hno _ hp)
  · rw [flagsAt, if_pos h0]

/-- Where the regions agree on an address, so do the flags. -/
private theorem flagsAt_congr (h : SpaceInv s l) (h' : SpaceInv s' l') (hx : x < 2^32)
    (hold : ∀ z ∈ l, (s.region z).range.base ≤ x → x < (s.region z).fin →
      ∃ z' ∈ l', (s'.region z').range.base ≤ x ∧ x < (s'.region z').fin ∧ (s'.region z').regionFlags = (s.region z).regionFlags)
    (hnew : ∀ z' ∈ l', (s'.region z').range.base ≤ x → x < (s'.region z').fin →
      ∃ z ∈ l, (s.region z).range.base ≤ x ∧ x < (s.region z).fin) : flagsAt s' x = flagsAt s x := by
  rcases regionFind_spec h.regionMap hx with ⟨hz,h1,h2⟩ | ⟨-,hno⟩
  · obtain ⟨z',hz',h1',h2',hf⟩ := hold _ hz h1 h2
    rw [flagsAt_eq h hz h1 h2, flagsAt_eq h' hz' h1' h2', hf]
  · rw [flagsAt_none h hx hno]
    refine flagsAt_none h' hx fun z' hz' hc => ?_
    obtain ⟨z,hz,h1,h2⟩ := hnew z' hz' hc.1 hc.2
    exact hno z hz ⟨h1,h2⟩

/-- After a split of p at y the tail has the flag VM_MAP_REGION_FLAG_FIXED as well. -/
theorem Parted.flagsAt (h : SpaceInv s l) (h' : SpaceInv s' l') (hp : p ∈ l) (h1 : (s.region p).range.base < y)
    (h2 : y < (s.region p).fin) (hpart : Parted s l p y s' l' q) (hx : x < 2^32) :
    flagsAt s' x = if y ≤ x ∧ x < (s.region p).fin then some ((s.region p).regionFlags ||| VM_MAP_REGION_FLAG_FIXED)
      else flagsAt s x := by
  have hhead := fin_headAt h1
  have htail := fin_tailAt h2
  split_ifs with hc
  · have hq : s'.region q = tailAt (s.region p) y := hpart.tail_eq
    rw [flagsAt_eq h' ((hpart.mem q).mpr (.inl rfl)) (by rw [hq]; exact hc.1) (by rw [hq, htail]; exact hc.2), hq]
    rfl
  · refine flagsAt_congr h h' hx (fun z hz hz1 hz2 => ?_) fun z hz hz1 hz2 => ?_
    · by_cases hzp : z = p
      · rw [hzp] at hz1 hz2 ⊢
        have hxy : x < y := by
          by_contra hge
          exact hc ⟨not_lt.mp hge,hz2⟩
        refine ⟨p,(hpart.mem p).mpr (.inr hp),?_⟩
        rw [hpart.head_eq hp, hhead]
        exact ⟨hz1,hxy,rfl⟩
      · refine ⟨z,(hpart.mem z).mpr (.inr hz),?_⟩
        rw [hpart.other_eq hz hzp]
        exact ⟨hz1,hz2,rfl⟩
    · rcases (hpart.mem z).mp hz with rfl | hzl
      · rw [hpart.tail_eq] at hz1 hz2
        rw [htail] at hz2
        exact absurd ⟨hz1,hz2⟩ hc
      · by_cases hzp : z = p
        · rw [hzp, hpart.head_eq hp] at hz1 hz2
          rw [hhead] at hz2
          exact ⟨p,hp,hz1,hz2.trans h2⟩
        · rw [hpart.other_eq hzl hzp] at hz1 hz2
          exact ⟨z,hzl,hz1,hz2⟩

/-- New flags for a region are the flags of its addresses. -/
theorem flagsAt_setRegion (h : SpaceInv s l) (hp : p ∈ l) (hr : r.range = (s.region p).range) (hx : x < 2^32) :
    flagsAt (s.setRegion p r) x =
      if (s.region p).range.base ≤ x ∧ x < (s.region p).fin then some r.regionFlags else flagsAt s x := by
  have h' := h.setRegion_range hr
  have hfin : r.fin = (s.region p).fin := by rw [fin, fin, hr]
  have hreg : (s.setRegion p r).region p = r := by
    rw [region_setRegion, if_pos rfl]
  split_ifs with hc
  · rw [flagsAt_eq h' hp (by rw [hreg, hr]; exact hc.1) (by rw [hreg, hfin]; exact hc.2), hreg]
  · refine flagsAt_congr h h' hx (fun z hz hz1 hz2 => ?_) fun z hz hz1 hz2 => ?_
    · have hzp : z ≠ p := by
        rintro rfl
        exact hc ⟨hz1,hz2⟩
      refine ⟨z,hz,?_⟩
      rw [region_setRegion, if_neg hzp]
      exact ⟨hz1,hz2,rfl⟩
    · refine ⟨z,hz,?_⟩
      rw [region_setRegion] at hz1 hz2
      split_ifs at hz1 hz2 with hzp
      · rw [hzp, ← hr, ← hfin]
        exact ⟨hz1,hz2⟩
      · exact ⟨hz1,hz2⟩

/-- No region goes on over an end of a region. -/
theorem cut_of_end (h : SpaceInv s l) (hp : p ∈ l) (hx : x = (s.region p).range.base ∨ x = (s.region p).fin) : Cut s l x := by
  have hsize := (h.ok p hp).size_pos
  have hfin : (s.region p).fin = (s.region p).range.base + (s.region p).range.size := rfl
  rintro z hz ⟨h1,h2⟩
  rcases hx with hx | hx
  · have hzp : z = p := h.eq_of_mem hz hp (Nat.le_of_lt h1) h2 (Nat.le_of_eq hx.symm) (by omega)
    rw [hzp] at h1
    omega
  · -- the address before the end belongs to p, which does not go on
    have hzp : z = p := h.eq_of_mem (a := x - 1) hz hp (by omega) (by omega) (by omega) (by omega)
    rw [hzp] at h2
    omega

/-- A half of OsVmRegionAdjust that succeeds, at an address of the region p or at its end: a split of p inside, and nothing
at the ends. -/
private theorem HalfDone.parted (h : SpaceInv s l) (hp : p ∈ l) (h1 : (s.region p).range.base ≤ x) (h2 : x ≤ (s.region p).fin)
    (hd : HalfDone s l x s' 0) :
    ((s.region p).range.base < x ∧ x < (s.region p).fin ∧ ∃ l' q, SpaceInv s' l' ∧ Parted s l p x s' l' q) ∨
      ((x = (s.region p).range.base ∨ x = (s.region p).fin) ∧ s' = s) := by
  generalize hst : (0 : Int) = st at hd
  cases hd with
  | none hc =>
    have := hc p hp
    exact .inr ⟨by omega,rfl⟩
  | @split _ z hz hz1 hz2 ha =>
    by_cases hend : x = (s.region p).range.base ∨ x = (s.region p).fin
    · exact absurd ⟨hz1,hz2⟩ (cut_of_end h hp hend z hz)
    · rw [not_or] at hend
      have hlt : (s.region p).range.base < x := Nat.lt_of_le_of_ne h1 (Ne.symm hend.1)
      have hgt : x < (s.region p).fin := Nat.lt_of_le_of_ne h2 hend.2
      have hzp : z = p := h.eq_of_mem hz hp (Nat.le_of_lt hz1) hz2 h1 hgt
      rw [hzp] at ha
      obtain ⟨-,-,hnew⟩ := ha
      rcases hnew with ⟨hz0,-,-⟩ | ⟨-,hql,l',h',hl',hreg⟩
      · rw [if_pos hz0] at hst
        exact absurd hst (by decide)
      · exact .inl ⟨hlt,hgt,l',_,h',hql,hl',hreg⟩

/-- The region q of s' is the range [a, e) of the region p of s, and the rest of p stays mapped around it. -/
structure CutOut (s : LosVmSpace) (p a e : Nat) (s' : LosVmSpace) (l' : List Nat) (q : Nat) : Prop where
  inv : SpaceInv s' l'
  mem : q ∈ l'
  base : (s'.region q).range.base = a
  fin : (s'.region q).fin = e
  old : p ∈ l' ∧ (s'.region p).regionFlags = (s.region p).regionFlags
  flags : (s'.region q).regionFlags ||| VM_MAP_REGION_FLAG_FIXED = (s.region p).regionFlags ||| VM_MAP_REGION_FLAG_FIXED
  others : ∀ x < 2^32, ¬(a ≤ x ∧ x < e) → flagsAt s' x =
    if e ≤ x ∧ x < (s.region p).fin then some ((s.region p).regionFlags ||| VM_MAP_REGION_FLAG_FIXED) else flagsAt s x

/-- A region that starts at a is the range up to its end. -/
theorem CutOut.whole (h : SpaceInv s l) (hp : p ∈ l) (h1 : (s.region p).range.base = a) :
    CutOut s p a (s.region p).fin s l p where
  inv := h
  mem := hp
  base := h1
  fin := rfl
  old := ⟨hp,rfl⟩
  flags := rfl
  others x _ hout := by
    rw [if_neg]
    have := (h.ok p hp).size_pos
    have hfin : (s.region p).fin = (s.region p).range.base + (s.region p).range.size := rfl
    omega

/-- The first half cuts off what p has before a. -/
private theorem HalfDone.cutOut (h : SpaceInv s l) (hp : p ∈ l) (h1 : (s.region p).range.base ≤ a) (h2 : a < (s.region p).fin)
    (hd : HalfDone s l a s' 0) : ∃ l' q, CutOut s p a (s.region p).fin s' l' q := by
  rcases hd.parted h hp h1 (Nat.le_of_lt h2) with ⟨hlt,-,l',q,h',hpart⟩ | ⟨hend,rfl⟩
  · have hq : s'.region q = tailAt (s.region p) a := hpart.tail_eq
    refine ⟨l',q,h',(hpart.mem q).mpr (.inl rfl),?_,?_,⟨(hpart.mem p).mpr (.inr hp),?_⟩,?_,fun x hx hout => ?_⟩
    · rw [hq]
      rfl
    · rw [hq, fin_tailAt h2]
    · rw [hpart.head_eq hp]
      rfl
    · rw [hq]
      show ((s.region p).regionFlags ||| _) ||| _ = _
      rw [Nat.or_assoc, Nat.or_self]
    · rw [hpart.flagsAt h h' hp hlt h2 hx, if_neg hout, if_neg (by omega)]
  · exact ⟨l,p,.whole h hp (by omega)⟩

/-- The end of the range [a, a+n) of a region; the search at the end of an empty range finds the whole rest. -/
def rangeEnd (r : LosVmMapRegion) (a n : Nat) : Nat := if n = 0 then r.fin else a + n

/-- The second half cuts off what the region has behind a+n. -/
theorem CutOut.second (h : CutOut s p a (s.region p).fin s₁ l₁ q) (he : a + n ≤ (s.region p).fin)
    (hd : HalfDone s₁ l₁ (a + n) s₂ 0) : ∃ l₂, CutOut s p a (rangeEnd (s.region p) a n) s₂ l₂ q := by
  have hfin := h.fin
  have hbase := h.base
  rcases hd.parted h.inv h.mem (by omega) (by omega) with ⟨hlt,hgt,l₂,z,h₂,hpart⟩ | ⟨hend,rfl⟩
  · have hn : n ≠ 0 := by omega
    rw [rangeEnd, if_neg hn]
    have hq : s₂.region q = headAt (s₁.region q) (a + n) := hpart.head_eq h.mem
    refine ⟨l₂,h₂,(hpart.mem q).mpr (.inr h.mem),?_,?_,⟨(hpart.mem p).mpr (.inr h.old.1),?_⟩,?_,fun x hx hout => ?_⟩
    · rw [hq]
      exact hbase
    · rw [hq, fin_headAt hlt]
    · rw [← h.old.2]
      by_cases hqp : p = q
      · rw [hqp, hq]
        rfl
      · rw [hpart.other_eq h.old.1 hqp]
    · rw [hq]
      exact h.flags
    · rw [hpart.flagsAt h.inv h₂ h.mem hlt hgt hx, hfin, h.flags]
      split_ifs with hc
      · rfl
      · rw [h.others x hx (by omega), if_neg (by omega)]
  · have hre : rangeEnd (s.region p) a n = (s.region p).fin := by
      rw [rangeEnd]
      split_ifs with hn
      · rfl
      · omega
    rw [hre]
    exact ⟨l₁,h⟩

/-- OsVmRegionAdjust makes the range a region of its own, and what is behind it gets VM_MAP_REGION_FLAG_FIXED. -/
theorem regionAdjust_cutOut (h : SpaceInv s l) (ha : PAGE_SIZE ∣ a) (hn : PAGE_SIZE ∣ n) (hp : p ∈ l)
    (h1 : (s.region p).range.base ≤ a) (h2 : a < (s.region p).fin) (he : a + n ≤ (s.region p).fin)
    (h0 : (osVmRegionAdjust unMMap s a n).2 = 0) :
    ∃ l' q, CutOut s p a (rangeEnd (s.region p) a n) (osVmRegionAdjust unMMap s a n).1 l' q := by
  have hlt := h.fin_lt hp
  have hsum : Word.add a n = a + n := Word.add_eq (by omega)
  obtain ⟨s₁,st₁,he₁,hd₁⟩ := adjustStart_half unMMap h ha (by omega)
  rw [osVmRegionAdjust, hsum] at h0 ⊢
  simp only [he₁] at h0 ⊢
  by_cases hst : st₁ ≠ 0
  · rw [if_pos hst] at h0
    exact absurd h0 hst
  rw [not_not] at hst
  rw [hst] at hd₁ h0 ⊢
  simp only [ne_eq, not_true_eq_false, ite_false] at h0 ⊢
  obtain ⟨l₁,q,hcut⟩ := hd₁.cutOut h hp h1 h2
  obtain ⟨s₂,st₂,he₂,hd₂⟩ := adjustEnd_half unMMap hcut.inv (Nat.dvd_add ha hn) (by omega)
  rw [he₂] at h0 ⊢
  simp only at h0 ⊢
  rw [h0] at hd₂
  obtain ⟨l₂,hcut₂⟩ := hcut.second he hd₂
  exact ⟨l₂,q,hcut₂⟩

end LiteOsKernel.Vm
