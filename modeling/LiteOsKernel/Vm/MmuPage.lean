import LiteOsKernel.Vm.Mmu
import LiteOsKernel.Lib.Word

/-! The page table one page at a time: a page that LOS_ArchMmuQuery finds is unmapped and mapped again in one round each, so
that LOS_ArchMmuChangeProt and LOS_ArchMmuMove return an error for bad arguments only. -/
namespace LiteOsKernel.Vm
open LosArchMmu

variable {m m' : LosArchMmu} {vaddr paddr paddr' count flags base index n a : Nat} {st : Int}

@[simp] theorem virtTtb_savePte2 (m : LosArchMmu) (a v : Nat) : (m.savePte2 a v).virtTtb = m.virtTtb := rfl

@[simp] theorem virtTtb_savePte1 (m : LosArchMmu) (i v : Nat) : (m.savePte1 i v).virtTtb = Function.update m.virtTtb i v := rfl

private theorem virtTtb_clearPte2 (base n : Nat) (m : LosArchMmu) (index : Nat) :
    (osClearPte2Continuous base n m index).virtTtb = m.virtTtb := by
  induction n generalizing m index with
  | zero => rfl
  | succ n ih =>
    rw [osClearPte2Continuous, ih]
    rfl

private theorem virtTtb_putL2Table (h : osPutL2Table m index a = some m') : m'.virtTtb = m.virtTtb := by
  rw [osPutL2Table] at h
  simp only at h
  split_ifs at h
  · cases h
    rfl
  · cases h
    rfl

/-- The entry of the first level stays or is cleared. -/
private theorem virtTtb_tryUnmapL1PTE (h : osTryUnmapL1PTE m vaddr index n = some m') :
    osGetPte1 m' vaddr = osGetPte1 m vaddr ∨ osGetPte1 m' vaddr = 0 := by
  rw [osTryUnmapL1PTE] at h
  split at h
  · cases h
    exact .inl rfl
  · split_ifs at h
    · cases h
      exact .inl rfl
    · cases h
      exact .inl rfl
    · right
      rw [osGetPte1, virtTtb_putL2Table h, virtTtb_savePte1, Function.update_self]

/-- The mapping of vaddr is a small page of a second-level table, or a first-level entry with no table. -/
inductive Mappable (m : LosArchMmu) (vaddr : Nat) : Prop where
  | invalid (h : osIsPte1Invalid (osGetPte1 m vaddr) = true)
  | table {base : Nat} (h : osIsPte1PageTable (osGetPte1 m vaddr) = true) (hb : osGetPte2BasePtr (osGetPte1 m vaddr) = some base)

private theorem not_invalid_of_table (h : osIsPte1PageTable n = true) : osIsPte1Invalid n = false := by
  rw [osIsPte1PageTable, decide_eq_true_eq] at h
  rw [osIsPte1Invalid, h]
  decide

private theorem not_section_of_table (h : osIsPte1PageTable n = true) : osIsPte1Section n = false := by
  rw [osIsPte1PageTable, decide_eq_true_eq] at h
  rw [osIsPte1Section, h]
  decide

/-- Where the query finds a page and one page can be unmapped at all, there is a table. -/
private theorem table_of_query (hq : losArchMmuQuery m vaddr paddr = some (0,paddr')) (hu : (unmapStep m vaddr 1).isSome) :
    osIsPte1PageTable (osGetPte1 m vaddr) = true ∧ ∃ base, osGetPte2BasePtr (osGetPte1 m vaddr) = some base := by
  rw [losArchMmuQuery] at hq
  rw [unmapStep] at hu
  simp only at hq hu
  by_cases h1 : osIsPte1Invalid (osGetPte1 m vaddr) = true
  · rw [if_pos h1] at hq
    exact absurd (Prod.mk.inj (Option.some.inj hq)).1 (by decide)
  rw [if_neg h1] at hq hu
  by_cases h2 : osIsPte1Section (osGetPte1 m vaddr) = true
  · -- a section is unmapped as a whole only
    rw [if_pos h2, if_neg (fun hc => absurd hc.2 (by decide))] at hu
    cases hu
  rw [if_neg h2] at hq hu
  by_cases h3 : osIsPte1PageTable (osGetPte1 m vaddr) = true
  · refine ⟨h3,?_⟩
    cases hb : osGetPte2BasePtr (osGetPte1 m vaddr) with
    | none =>
      rw [if_pos h3, hb] at hq
      exact absurd (Prod.mk.inj (Option.some.inj hq)).1 (by decide)
    | some base => exact ⟨base,rfl⟩
  · rw [if_neg h3] at hu
    cases hu

private theorem pte2Index_lt (vaddr : Nat) : osGetPte2Index vaddr < MMU_DESCRIPTOR_L2_NUMBERS_PER_L1 := by
  rw [osGetPte2Index, MMU_DESCRIPTOR_L2_NUMBERS_PER_L1, MMU_DESCRIPTOR_L1_SMALL_SIZE, MMU_DESCRIPTOR_L2_SMALL_SHIFT,
    Nat.shiftRight_eq_div_pow, Nat.shiftRight_eq_div_pow]
  omega

/-- The round that unmaps one page of a table. -/
private theorem unmapStep_table (ht : osIsPte1PageTable (osGetPte1 m vaddr) = true) (hb : osGetPte2BasePtr (osGetPte1 m vaddr) = some base)
    {vaddr' count' unmapCount : Nat} (hs : unmapStep m vaddr 1 = some (m',vaddr',count',unmapCount)) :
    count' = 0 ∧ unmapCount = 1 ∧ (osGetPte1 m' vaddr = osGetPte1 m vaddr ∨ osGetPte1 m' vaddr = 0) := by
  have hone : min (MMU_DESCRIPTOR_L2_NUMBERS_PER_L1 - osGetPte2Index vaddr) 1 = 1 :=
    Nat.min_eq_right (Nat.sub_pos_of_lt (pte2Index_lt vaddr))
  rw [unmapStep] at hs
  simp only [not_invalid_of_table ht, not_section_of_table ht, ht, osUnmapL2PTE, hb, hone, Bool.false_eq_true, ite_false, ite_true] at hs
  obtain ⟨m₁,hm₁,hs⟩ := Option.bind_eq_some_iff.mp hs
  cases hs
  refine ⟨rfl,rfl,?_⟩
  have hl1 : osGetPte1 (osClearPte2Continuous base 1 m (osGetPte2Index vaddr)) vaddr = osGetPte1 m vaddr := by
    rw [osGetPte1, virtTtb_clearPte2]
    rfl
  rw [← hl1]
  exact virtTtb_tryUnmapL1PTE hm₁

private theorem unmapLoop_done (fuel : Nat) (m : LosArchMmu) (vaddr tryTime : Nat) (st : Int) :
    unmapLoop (fuel + 1) m vaddr 0 tryTime st = some (m,st) := by
  rw [unmapLoop, if_pos rfl]

/-- A page that the query finds is unmapped in one round, or not at all. -/
private theorem unmap_page (hq : losArchMmuQuery m vaddr paddr = some (0,paddr')) (hu : losArchMmuUnmap m vaddr 1 = some (m',st)) :
    st = 1 ∧ Mappable m' vaddr := by
  rw [losArchMmuUnmap, unmapLoop, if_neg Nat.one_ne_zero] at hu
  obtain ⟨⟨m₁,vaddr₁,count₁,unmapCount⟩,hs,hu⟩ := Option.bind_eq_some_iff.mp hu
  obtain ⟨ht,base,hb⟩ := table_of_query hq (by rw [hs]; rfl)
  obtain ⟨rfl,rfl,hl1⟩ := unmapStep_table ht hb hs
  simp only [Nat.one_ne_zero, ite_false, show TRY_MAX_TIMES ≠ 0 by decide] at hu
  rw [show (1 + TRY_MAX_TIMES)*4097 = (1 + TRY_MAX_TIMES)*4097 - 1 + 1 from rfl, unmapLoop_done] at hu
  cases hu
  refine ⟨rfl,?_⟩
  rcases hl1 with hl1 | hl1
  · exact .table (by rw [hl1, ht]) (by rw [hl1, hb])
  · exact .invalid (by rw [hl1]; decide)

private theorem savePte2_one (base : Nat) (m : LosArchMmu) (index v : Nat) :
    osSavePte2Continuous base 1 m index v = (m.savePte2 (pte2Addr base index) v,1) := by
  rw [osSavePte2Continuous, osSavePte2Continuous]
  simp only [Nat.zero_add, ite_self]

/-- The round that maps one page. -/
private theorem mapStep_page (hm : Mappable m vaddr) {vaddr' count' saveCounts : Nat}
    (hs : mapStep m vaddr paddr 1 flags = some (m',vaddr',paddr',count',saveCounts)) : count' = 0 ∧ saveCounts = 1 := by
  have hone : ∀ m₁ base, (mapPages m₁ base vaddr paddr 1 flags).2.2.2 = (0,1) := by
    intro m₁ base
    rw [mapPages, savePte2_one]
  rw [mapStep, if_neg (fun hc => absurd hc.2.2 (by decide))] at hs
  cases hm with
  | invalid h =>
    rw [if_pos h, osMapL1PTE, if_neg (by rw [h]; decide)] at hs
    simp only at hs
    by_cases hst : (osGetL2Table m (osGetPte1Index vaddr)).2.1 ≠ 0
    · rw [if_pos hst] at hs
      cases hs
    · rw [if_neg hst] at hs
      obtain ⟨ptr,-,hs⟩ := Option.bind_eq_some_iff.mp hs
      rw [← Prod.mk.injEq, ← hone _ ptr, Option.some.inj hs]
  | @table base h hb =>
    rw [if_neg (by rw [not_invalid_of_table h]; decide), if_pos h, osMapL2PageContinous, hb] at hs
    simp only at hs
    rw [← Prod.mk.injEq, ← hone m base, Option.some.inj hs]

private theorem mapLoop_done (fuel : Nat) (m : LosArchMmu) (vaddr paddr tryTime : Nat) (st : Int) :
    mapLoop flags (fuel + 1) m vaddr paddr 0 tryTime st = some (m,st) := by
  rw [mapLoop, if_pos rfl]

private theorem map_page (hm : Mappable m vaddr) (hv : PAGE_SIZE ∣ vaddr) (hp : PAGE_SIZE ∣ paddr)
    (h : losArchMmuMap m vaddr paddr 1 flags = some (m',st)) : st = 1 := by
  obtain ⟨checkRst,hc,h⟩ := Option.bind_eq_some_iff.mp h
  have hc0 : checkRst = 0 := by
    rw [osMapParamCheck] at hc
    split_ifs at hc with h1 h2
    · exact absurd h2 (not_or.mpr ⟨not_not_intro (Nat.mod_eq_zero_of_dvd hv),not_not_intro (Nat.mod_eq_zero_of_dvd hp)⟩)
    · exact (Option.some.inj hc).symm
  rw [hc0, if_neg (lt_irrefl 0), mapLoop, if_neg Nat.one_ne_zero] at h
  obtain ⟨⟨m₁,vaddr₁,paddr₁,count₁,saveCounts⟩,hs,h⟩ := Option.bind_eq_some_iff.mp h
  obtain ⟨rfl,rfl⟩ := mapStep_page hm hs
  simp only [Nat.one_ne_zero, ite_false, show TRY_MAX_TIMES ≠ 0 by decide] at h
  rw [show 1 + TRY_MAX_TIMES = TRY_MAX_TIMES + 1 from rfl, mapLoop_done] at h
  cases h
  rfl

private theorem page_dvd_frame (x : Nat) : PAGE_SIZE ∣ x &&& Word.not (2^12 - 1) := by
  apply Nat.dvd_of_mod_eq_zero
  apply Nat.eq_of_testBit_eq
  intro i
  rw [show PAGE_SIZE = 2^12 from rfl, Nat.testBit_mod_two_pow, Nat.testBit_and, Word.testBit_not (by decide),
    Nat.testBit_two_pow_sub_one, Nat.zero_testBit]
  by_cases hi : i < 12
  · simp [hi]
  · simp [hi]

theorem page_dvd_add (h : PAGE_SIZE ∣ n) (h' : PAGE_SIZE ∣ a) : PAGE_SIZE ∣ Word.add n a := by
  rw [Word.add]
  exact (Nat.dvd_mod_iff (by decide)).mpr (Nat.dvd_add h h')

/-- The physical address that goes with a page of a table is one of a page. -/
private theorem query_table (ht : osIsPte1PageTable (osGetPte1 m vaddr) = true) (hv : PAGE_SIZE ∣ vaddr)
    (hq : losArchMmuQuery m vaddr paddr = some (0,paddr')) : PAGE_SIZE ∣ paddr' := by
  rw [losArchMmuQuery] at hq
  simp only [not_invalid_of_table ht, not_section_of_table ht, ht, Bool.false_eq_true, ite_false, ite_true] at hq
  have hnf : ∀ p : Nat, some (LOS_ERRNO_VM_NOT_FOUND,p) ≠ some ((0 : Int),paddr') := by
    intro p hc
    exact absurd (Prod.mk.inj (Option.some.inj hc)).1 (by decide)
  cases hb : osGetPte2BasePtr (osGetPte1 m vaddr) with
  | none =>
    rw [hb] at hq
    exact absurd hq (hnf paddr)
  | some base =>
    rw [hb] at hq
    simp only at hq
    split_ifs at hq
    · rw [← (Prod.mk.inj (Option.some.inj hq)).2]
      refine page_dvd_add (page_dvd_frame _) ?_
      rw [show MMU_DESCRIPTOR_L2_SMALL_SIZE - 1 = 2^12 - 1 from rfl, Nat.and_two_pow_sub_one_eq_mod]
      exact (Nat.dvd_mod_iff (by decide)).mpr hv
    · exact absurd hq (hnf paddr)

/-- The body of LOS_ArchMmuChangeProt, like that of LOS_ArchMmuMove, never gives up. -/
private theorem remap_page {m₁ : LosArchMmu} {st₁ : Int} (hv : PAGE_SIZE ∣ vaddr)
    (hq : losArchMmuQuery m vaddr paddr = some (0,paddr')) (hu : losArchMmuUnmap m vaddr 1 = some (m₁,st₁)) :
    st₁ = 1 ∧ Mappable m₁ vaddr ∧ PAGE_SIZE ∣ paddr' := by
  obtain ⟨h1,hm⟩ := unmap_page hq hu
  rw [losArchMmuUnmap, unmapLoop, if_neg Nat.one_ne_zero] at hu
  obtain ⟨r,hs,-⟩ := Option.bind_eq_some_iff.mp hu
  obtain ⟨ht,-⟩ := table_of_query hq (by rw [hs]; rfl)
  exact ⟨h1,hm,query_table ht hv hq⟩

private theorem changeProtLoop_ok (hv : PAGE_SIZE ∣ vaddr) (h : changeProtLoop flags count m vaddr paddr = some (m',st)) : st = 0 := by
  induction count generalizing m vaddr paddr with
  | zero =>
    cases h
    rfl
  | succ count ih =>
    have hnext : PAGE_SIZE ∣ Word.add vaddr MMU_DESCRIPTOR_L2_SMALL_SIZE := page_dvd_add hv (Nat.dvd_refl _)
    rw [changeProtLoop] at h
    obtain ⟨⟨status,paddr'⟩,hq,h⟩ := Option.bind_eq_some_iff.mp h
    simp only at h
    by_cases hst : status ≠ 0
    · rw [if_pos hst] at h
      exact ih hnext h
    · rw [if_neg hst] at h
      rw [not_not] at hst
      rw [hst] at hq
      obtain ⟨⟨m₁,st₁⟩,hu,h⟩ := Option.bind_eq_some_iff.mp h
      obtain ⟨rfl,hm,hp⟩ := remap_page hv hq hu
      simp only [show ¬(1 : Int) < 0 by decide, ite_false] at h
      obtain ⟨⟨m₂,st₂⟩,hmap,h⟩ := Option.bind_eq_some_iff.mp h
      obtain rfl := map_page hm hv hp hmap
      simp only [show ¬(1 : Int) < 0 by decide, ite_false] at h
      exact ih hnext h

/-- LOS_ArchMmuChangeProt fails without an effect, and for bad arguments only. -/
theorem changeProt_status (hv : PAGE_SIZE ∣ vaddr) (h : losArchMmuChangeProt m vaddr count flags = some (m',st)) :
    (vaddr = 0 ∨ count = 0) ∧ st = LOS_NOK ∧ m' = m ∨ ¬(vaddr = 0 ∨ count = 0) ∧ st = 0 := by
  rw [losArchMmuChangeProt] at h
  split_ifs at h with hc
  · cases h
    exact .inl ⟨hc,rfl,rfl⟩
  · exact .inr ⟨hc,changeProtLoop_ok hv h⟩

end LiteOsKernel.Vm
