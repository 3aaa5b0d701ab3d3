import LiteOsKernel.Vm.MapSplit
import LiteOsKernel.Vm.PhysAlloc

/-! Splitting of regions and removal of ranges. -/
namespace LiteOsKernel.Vm
open Rbtree RbZipper LosVmSpace LosVmMapRegion

variable {s s' s'' : LosVmSpace} {l l' l'' : List Nat} {p q addr a b n x y : Nat} {r r' : LosVmMapRegion}
  (unMMap : LosVmSpace → Nat → Nat → LosVmSpace × Int)

private theorem adjustStart_spec (h : SpaceInv s l) (hx : PAGE_SIZE ∣ x) (hlt : x < 2^32) :
    ∃ s' st l', adjustStart unMMap s x = (s',st) ∧ CutAt s l s' l' x (st = 0) := by
  obtain ⟨s',st,he,hd⟩ := adjustStart_half unMMap h hx hlt
  obtain ⟨l',hc⟩ := hd.cutAt h
  exact ⟨s',st,l',he,hc⟩

private theorem adjustEnd_spec (h : SpaceInv s l) (hx : PAGE_SIZE ∣ x) (hlt : x < 2^32) :
    ∃ s' st l', adjustEnd unMMap s x = (s',st) ∧ CutAt s l s' l' x (st = 0) := by
  obtain ⟨s',st,he,hd⟩ := adjustEnd_half unMMap h hx hlt
  obtain ⟨l',hc⟩ := hd.cutAt h
  exact ⟨s',st,l',he,hc⟩

/-- OsVmRegionAdjust cuts the regions at both ends of the range. -/
theorem regionAdjust_spec (h : SpaceInv s l) (ha : PAGE_SIZE ∣ a) (hlt : a < 2^32)
    (hn : PAGE_SIZE ∣ Word.add a n) (hnlt : Word.add a n < 2^32) :
    ∃ s' st l', osVmRegionAdjust unMMap s a n = (s',st) ∧ SpaceInv s' l' ∧ SameSpace s s' ∧ Refines s l s' l' ∧
      (st = 0 → Cut s' l' a ∧ Cut s' l' (Word.add a n) ∧
        ∀ q ∈ l, ¬((s.region q).range.base < a ∧ a < (s.region q).fin) →
          ¬((s.region q).range.base < Word.add a n ∧ Word.add a n < (s.region q).fin) → q ∈ l' ∧ s'.region q = s.region q) := by
  rw [osVmRegionAdjust]
  obtain ⟨s₁,st₁,l₁,he₁,h₁,hss₁,href₁,hdone₁⟩ := adjustStart_spec unMMap h ha hlt
  simp only [he₁]
  by_cases hst : st₁ ≠ 0
  · rw [if_pos hst]
    exact ⟨s₁,st₁,l₁,rfl,h₁,hss₁,href₁,fun h0 => absurd h0 hst⟩
  · rw [if_neg hst]
    obtain ⟨hk₁,hc₁⟩ := hdone₁ (not_not.mp hst)
    obtain ⟨s₂,st₂,l₂,he₂,h₂,hss₂,href₂,hdone₂⟩ := adjustEnd_spec unMMap h₁ hn hnlt
    refine ⟨s₂,st₂,l₂,he₂,h₂,hss₁.trans hss₂,href₁.trans href₂,fun h0 => ?_⟩
    obtain ⟨hk₂,hc₂⟩ := hdone₂ h0
    refine ⟨hc₁.refines href₂,hc₂,fun q hq hq1 hq2 => ?_⟩
    obtain ⟨hq₁,hr₁⟩ := hk₁ q hq hq1
    obtain ⟨hq₂,hr₂⟩ := hk₂ q hq₁ (by rw [hr₁]; exact hq2)
    exact ⟨hq₂,hr₂.trans hr₁⟩

/-- The region lies in [regionBase, regionEnd]. -/
def Within (s : LosVmSpace) (regionBase regionEnd q : Nat) : Prop :=
  regionBase ≤ (s.region q).range.base ∧ losRegionEndAddr (s.region q) ≤ regionEnd

theorem SpaceInv.successor (h : SpaceInv s l) {done rest : List Nat} (hl : l = done ++ x :: rest) :
    losRbSuccessorNode s.regionRbTree x = rest.head?.getD 0 := by
  obtain ⟨T,hr,-,hin⟩ := h.tree
  exact losRbSuccessorNode_eq hr (by rw [hin]; exact Nat.le_succ_of_le (Nat.le_of_eq h.length_eq)) (hin.trans hl)

/-- The scan of OsRegionsRemove from a node on takes out the regions within the range and no others. -/
private theorem removeScan_spec (regionBase regionEnd : Nat) : ∀ {rest done : List Nat} {fuel : Nat} {s : LosVmSpace},
    SpaceInv s (done ++ rest) → rest.length < fuel →
    ∃ s' l', removeScan regionBase regionEnd fuel s (rest.head?.getD 0) (rest.tail.head?.getD 0) = s' ∧ SpaceInv s' l' ∧
      SameSpace s s' ∧ s'.region = s.region ∧ (∀ q ∈ l', q ∈ done ++ rest) ∧ (∀ q ∈ done, q ∈ l') ∧
      (∀ q ∈ rest, q ∈ l' ↔ ¬Within s regionBase regionEnd q) := by
  intro rest
  induction rest with
  | nil =>
    intro done fuel s h hf
    rcases fuel with - | fuel
    · cases hf
    refine ⟨s,done,?_,by rw [List.append_nil] at h; exact h,SameSpace.refl s,rfl,by simp,fun q hq => hq,by simp⟩
    rw [removeScan, List.head?_nil, Option.getD_none, if_pos rfl]
  | cons x rest ih =>
    intro done fuel s h hf
    rcases fuel with - | fuel
    · cases hf
    have hlen : rest.length < fuel := by simpa using hf
    have hx : x ∈ done ++ x :: rest := by simp
    have hxr : x ∉ done ∧ x ∉ rest := by
      have := List.nodup_middle.mp h.nodup
      rw [List.nodup_cons, List.mem_append, not_or] at this
      exact this.1
    rw [List.head?_cons, Option.getD_some, List.tail_cons, removeScan, if_neg (h.ne_zero hx)]
    by_cases hbr : regionEnd < (s.region x).range.base
    · -- the rest lies after the range
      rw [if_pos hbr]
      have hrest : ∀ q ∈ x :: rest, ¬Within s regionBase regionEnd q := by
        intro q hq hw
        have hql : q ∈ done ++ x :: rest := List.mem_append_right _ hq
        obtain ⟨hqe,hqb⟩ := h.regionMap.endAddr hql
        rcases List.mem_cons.mp hq with rfl | hq
        · have := hw.2
          omega
        · have hs := List.rel_of_pairwise_cons (List.pairwise_append.mp h.sorted).2.1 hq
          rw [fin] at hs
          have := hw.2
          omega
      exact ⟨s,done ++ x :: rest,rfl,h,SameSpace.refl s,rfl,fun q hq => hq,fun q hq => List.mem_append_left _ hq,
        fun q hq => iff_of_true (List.mem_append_right _ hq) (hrest q hq)⟩
    · rw [if_neg hbr]
      have hnext : ∀ {s₁ : LosVmSpace} {done₁ : List Nat}, SpaceInv s₁ (done₁ ++ rest) →
          losRbSuccessorNode s₁.regionRbTree (rest.head?.getD 0) = rest.tail.head?.getD 0 := by
        intro s₁ done₁ h₁
        cases rest with
        | nil => rfl
        | cons y rest => exact h₁.successor rfl
      by_cases hw : Within s regionBase regionEnd x
      · -- x is freed
        obtain ⟨s₁,he,h₁,hreg,hss⟩ := h.regionFree hx
        rw [erase_middle h.nodup] at h₁
        obtain ⟨s₂,l₂,he₂,h₂,hss₂,hreg₂,hsub,hdone,hrest⟩ := ih h₁ hlen
        refine ⟨s₂,l₂,?_,h₂,hss.trans hss₂,hreg₂.trans hreg,fun q hq => ?_,hdone,fun q hq => ?_⟩
        · rw [← he₂]
          simp only [if_pos (show _ ∧ _ from hw), he, hnext h₁]
        · rcases List.mem_append.mp (hsub q hq) with hm | hm
          · exact List.mem_append_left _ hm
          · exact List.mem_append_right _ (List.mem_cons_of_mem _ hm)
        · rcases List.mem_cons.mp hq with rfl | hq
          · refine iff_of_false (fun hm => ?_) (not_not.mpr hw)
            rcases List.mem_append.mp (hsub q hm) with hm | hm
            · exact hxr.1 hm
            · exact hxr.2 hm
          · rw [hrest q hq, Within, Within, hreg]
      · -- x is kept
        have h₁ : SpaceInv s ((done ++ [x]) ++ rest) := by
          rw [List.append_assoc]
          exact h
        obtain ⟨s₂,l₂,he₂,h₂,hss₂,hreg₂,hsub,hdone,hrest⟩ := ih h₁ hlen
        refine ⟨s₂,l₂,?_,h₂,hss₂,hreg₂,fun q hq => ?_,fun q hq => hdone q (List.mem_append_left _ hq),fun q hq => ?_⟩
        · rw [← he₂]
          simp only [if_neg (show ¬(_ ∧ _) from hw), hnext h₁]
        · have := hsub q hq
          rw [List.append_assoc] at this
          exact this
        · rcases List.mem_cons.mp hq with rfl | hq
          · exact iff_of_true (hdone q (List.mem_append_right _ List.mem_cons_self)) hw
          · exact hrest q hq

/-- The scan of OsRegionsRemove over the whole tree. -/
theorem removeScan_all (regionBase regionEnd : Nat) (h : SpaceInv s l) :
    ∃ s' l', removeScan regionBase regionEnd (s.regionRbTree.ulNodes + 1) s (losRbFirstNode s.regionRbTree)
        (losRbSuccessorNode s.regionRbTree (losRbFirstNode s.regionRbTree)) = s' ∧ SpaceInv s' l' ∧ SameSpace s s' ∧
      s'.region = s.region ∧ ∀ q, q ∈ l' ↔ q ∈ l ∧ ¬Within s regionBase regionEnd q := by
  have hfirst : losRbFirstNode s.regionRbTree = l.head?.getD 0 := by
    obtain ⟨T,hr,-,hin⟩ := h.tree
    rw [losRbFirstNode_eq hr (by rw [hin]; exact Nat.le_of_eq h.length_eq), hin]
  have hsecond : losRbSuccessorNode s.regionRbTree (l.head?.getD 0) = l.tail.head?.getD 0 := by
    cases hl : l with
    | nil => rfl
    | cons x rest => exact h.successor (show l = [] ++ x :: rest from hl)
  rw [hfirst, hsecond]
  obtain ⟨s₂,l₂,he₂,h₂,hss₂,hreg,hsub,-,hrest⟩ := removeScan_spec regionBase regionEnd (show SpaceInv s ([] ++ l) from h)
    (show l.length < s.regionRbTree.ulNodes + 1 by rw [h.length_eq]; exact Nat.lt_succ_self _)
  refine ⟨s₂,l₂,he₂,h₂,hss₂,hreg,fun q => ⟨fun hq => ?_,fun hq => (hrest q hq.1).mpr hq.2⟩⟩
  have hql : q ∈ l := hsub q hq
  exact ⟨hql,(hrest q hql).mp hq⟩

private theorem regionsRemove_spec (h : SpaceInv s l) (ha : PAGE_SIZE ∣ a) (hlt : a < 2^32)
    (hn : PAGE_SIZE ∣ Word.add a n) (hnlt : Word.add a n < 2^32) :
    ∃ s' st l', osRegionsRemove unMMap s a n = (s',st) ∧ SpaceInv s' l' ∧ SameSpace s s' ∧ Refines s l s' l' ∧
      (0 < n → a + n < 2^32 → st = 0 → Keeps s l s' l' a n ∧ Free s' l' a n) := by
  rw [osRegionsRemove]
  obtain ⟨s₁,st,l₁,he₁,h₁,hss₁,href₁,hdone⟩ := regionAdjust_spec unMMap h ha hlt hn hnlt
  simp only [he₁]
  by_cases hst : st ≠ 0
  · rw [if_pos hst]
    exact ⟨s₁,st,l₁,rfl,h₁,hss₁,href₁,fun _ _ h0 => absurd h0 hst⟩
  rw [if_neg hst]
  obtain ⟨hc1,hc2,hkeep⟩ := hdone (not_not.mp hst)
  obtain ⟨s₂,l₂,he₂,h₂,hss₂,hreg,hmem⟩ := removeScan_all a (Word.sub (Word.add a n) 1) h₁
  rw [he₂]
  refine ⟨s₂,0,l₂,rfl,h₂,hss₁.trans hss₂,fun q hq => ?_,fun hn0 hw _ => ?_⟩
  · rw [hreg]
    exact href₁ q ((hmem q).mp hq).1
  · rw [Word.add_eq hw] at hc2 hkeep hmem
    rw [Word.sub_eq (by omega)] at hmem
    refine ⟨fun q hq hdis => ?_,fun q hq => ?_⟩
    · have hq0 := (h.ok q hq).size_pos
      have hfin : (s.region q).fin = (s.region q).range.base + (s.region q).range.size := rfl
      obtain ⟨hq₁,hr₁⟩ := hkeep q hq (by omega) (by omega)
      refine ⟨(hmem q).mpr ⟨hq₁,fun hin => ?_⟩,by rw [hreg, hr₁]⟩
      have hend := h₁.regionMap.endAddr hq₁
      rw [hr₁] at hend
      rw [Within, hr₁] at hin
      omega
    · obtain ⟨hq₁,hin⟩ := (hmem q).mp hq
      have hend := h₁.regionMap.endAddr hq₁
      have g1 := hc1 q hq₁
      have g2 := hc2 q hq₁
      rw [Within] at hin
      rw [hreg]
      omega

private theorem page_mask : Word.sub PAGE_SIZE 1 = 2^12 - 1 := by decide +kernel

theorem page_dvd_and_not (hx : x < 2^32) : PAGE_SIZE ∣ x &&& Word.not (Word.sub PAGE_SIZE 1) ∧
    x &&& Word.not (Word.sub PAGE_SIZE 1) ≤ x := by
  rw [page_mask, Word.and_not_low hx (by omega)]
  exact ⟨Nat.dvd_mul_left _ _,Nat.div_mul_le_self _ _⟩

private theorem and_not_of_dvd (hx : x < 2^32) (hd : PAGE_SIZE ∣ x) : x &&& Word.not (Word.sub PAGE_SIZE 1) = x := by
  rw [page_mask, Word.and_not_low hx (by omega)]
  exact Nat.div_mul_cancel hd

theorem word_add_lt (x y : Nat) : Word.add x y < 2^32 := by
  rw [Word.add]
  exact Nat.mod_lt _ (by omega)

theorem word_sub_lt (hx : x < 2^32) (hy : y < 2^32) : Word.sub x y < 2^32 := by
  rw [Word.sub]
  split_ifs <;> omega

theorem losAlign_spec (hx : x < 2^32) : PAGE_SIZE ∣ losAlign x PAGE_SIZE ∧ losAlign x PAGE_SIZE < 2^32 := by
  have hs : Word.sub (Word.add x PAGE_SIZE) 1 < 2^32 := word_sub_lt (word_add_lt _ _) (by omega)
  rw [losAlign]
  split_ifs
  · exact ⟨(page_dvd_and_not hs).1,Nat.lt_of_le_of_lt (page_dvd_and_not hs).2 hs⟩
  · exact ⟨(page_dvd_and_not hx).1,Nat.lt_of_le_of_lt (page_dvd_and_not hx).2 hx⟩

theorem losAlign_of_dvd (hx : x < 2^32) (hd : PAGE_SIZE ∣ x) : losAlign x PAGE_SIZE = x := by
  rw [losAlign]
  split_ifs with h
  · by_cases hw : x + PAGE_SIZE < 2^32
    · have he : Word.sub (Word.add x PAGE_SIZE) 1 = x + PAGE_SIZE - 1 := by
        rw [Word.add_eq hw, Word.sub_eq (by rw [PAGE_SIZE]; omega)]
      rw [he, page_mask, Word.and_not_low (by omega) (by omega)]
      obtain ⟨i,rfl⟩ := hd
      rw [PAGE_SIZE]
      omega
    · -- the last page of all: the sum wraps to 0, and the last address rounds down to its page
      have hlast : x = 2^32 - 4096 := by
        obtain ⟨i,rfl⟩ := hd
        rw [PAGE_SIZE] at *
        omega
      rw [hlast]
      decide +kernel
  · exact and_not_of_dvd hx hd

private theorem unMMap_spec : UnmapSpec (osUnMMap unMMap) := by
  intro s l a n h ha hn
  obtain ⟨had,halt⟩ := losAlign_spec ha
  obtain ⟨hnd,hnlt⟩ := losAlign_spec hn
  have hsum : PAGE_SIZE ∣ Word.add (losAlign a PAGE_SIZE) (losAlign n PAGE_SIZE) := by
    rw [Word.add]
    exact (Nat.dvd_mod_iff (by decide)).mpr (Nat.dvd_add had hnd)
  obtain ⟨s',st,l',he,h',hss,href,hdone⟩ := regionsRemove_spec unMMap h had halt hsum (word_add_lt _ _)
  rw [osUnMMap]
  simp only [he]
  refine ⟨s',_,l',rfl,h',hss,href,fun had' hnd' hn0 hw h0 => ?_⟩
  rw [losAlign_of_dvd ha had', losAlign_of_dvd hn hnd'] at hdone
  apply hdone hn0 hw
  by_contra hne
  rw [if_pos hne] at h0
  exact absurd h0 (by decide)

/-- LOS_UnMMap, however deep its calls of itself may nest. -/
theorem losUnMMap_spec (depth : Nat) : UnmapSpec (losUnMMap depth) := by
  cases depth with
  | zero =>
    intro s l a n h _ _
    exact ⟨s,_,l,rfl,h,SameSpace.refl s,Refines.refl s l,fun _ _ _ _ h0 => absurd h0 (by decide)⟩
  | succ depth =>
    intro s l a n h ha hn
    rw [losUnMMap]
    split_ifs
    · exact ⟨s,_,l,rfl,h,SameSpace.refl s,Refines.refl s l,fun _ _ _ _ h0 => absurd h0 (by decide)⟩
    · exact unMMap_spec _ h ha hn

end LiteOsKernel.Vm
