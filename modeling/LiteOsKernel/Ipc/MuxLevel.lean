import LiteOsKernel.Ipc.MuxResult
import LiteOsKernel.Sched.PriorityRun

/-! The levels that a task has and has saved, while its priority is raised, restored, or restored too late. -/
namespace LiteOsKernel.Ipc.Mux
open LiteOsKernel.Sched.Priority
open MuxState

/-- A task with the parameters a is scheduled no later than one with b. -/
def AtLeast (a b : SchedHPF) : Prop := a.basePrio < b.basePrio ∨ a.basePrio = b.basePrio ∧ a.priority ≤ b.priority

instance (a b : SchedHPF) : Decidable (AtLeast a b) := inferInstanceAs (Decidable (_ ∨ _ ∧ _))

/-- The parameters of a task whose own priority is base: it is saved while the task is raised, and nothing is saved otherwise. -/
structure SpInv (sp : SchedHPF) (base : Nat) : Prop where
  base_lt : base < 32
  le : sp.priority ≤ base
  lt : sp.priBitmap < 2^32
  zero : sp.priority = base → sp.priBitmap = 0
  saved : sp.priority < base → sp.priBitmap.testBit base = true
  bits : ∀ k, sp.priBitmap.testBit k = true → sp.priority < k ∧ k ≤ base

variable {sp : SchedHPF} {base k n : Nat} {list : List SchedHPF} {param : SchedParam}

theorem losHighBitGet_eq {m : Nat} (hm : m < 2^32) (hk : m.testBit k = true) (hle : ∀ j, m.testBit j = true → j ≤ k) :
    losHighBitGet m = k := by
  have h0 : m ≠ 0 := by
    rintro rfl
    simp at hk
  have hlog : m.log2 = k := by
    refine Nat.le_antisymm (hle _ (Word.testBit_log2 h0)) ?_
    by_contra hlt
    rw [Word.testBit_of_log2_lt (Nat.not_le.mp hlt)] at hk
    cases hk
  have hlt := Word.log2_lt h0 hm
  rw [losHighBitGet, if_neg h0, Word.clz, if_neg h0]
  omega

private theorem losLowBitGet_eq {m : Nat} (hk : m.testBit k = true) (hlt : k < 32) (hle : ∀ j, m.testBit j = true → k ≤ j) :
    losLowBitGet m = k := by
  have hfind : (List.range 32).find? m.testBit = some k := by
    rw [List.find?_range_eq_some]
    refine ⟨hk,List.mem_range.mpr hlt,fun j hj => ?_⟩
    cases ht : m.testBit j with
    | false => rfl
    | true => exact absurd (hle j ht) (Nat.not_le.mpr hj)
  rw [losLowBitGet, Word.ctz, hfind]
  rfl

/-- A bit is cleared but for the highest one if a task of the list has its level. -/
private theorem testBit_restoreBitmap {m : Nat} (hm : m < 2^32) (hlist : ∀ v ∈ list, v.priority < 32) (k : Nat) :
    (restoreBitmap m list).testBit k = true ↔ m.testBit k = true ∧ (k = losHighBitGet m ∨ ∀ v ∈ list, v.priority ≠ k) := by
  rw [restoreBitmap]
  generalize losHighBitGet m = high
  induction list generalizing m with
  | nil => simp
  | cons v list ih =>
    have hv := hlist v List.mem_cons_self
    have hrest : ∀ v ∈ list, v.priority < 32 := fun v h => hlist v (List.mem_cons_of_mem _ h)
    rw [List.foldl_cons]
    by_cases hh : high ≠ v.priority
    · rw [if_pos hh, ih (Word.clearBit_lt _ hm) hrest, Word.testBit_clearBit hv hm, Bool.and_eq_true, decide_eq_true_eq,
        List.forall_mem_cons]
      constructor
      · rintro ⟨⟨h1,h2⟩,h3⟩
        exact ⟨h1,h3.imp id fun h3 => ⟨h2,h3⟩⟩
      · rintro ⟨h1,rfl | ⟨h2,h3⟩⟩
        · exact ⟨⟨h1,hh.symm⟩,.inl rfl⟩
        · exact ⟨⟨h1,h2⟩,.inr h3⟩
    · rw [if_neg hh, ih hm hrest, List.forall_mem_cons]
      rw [not_not] at hh
      refine and_congr_right fun _ => ⟨fun h => ?_,fun h => h.imp id And.right⟩
      by_cases hk : k = high
      · exact .inl hk
      · exact .inr ⟨fun hc => hk (hh ▸ hc.symm),h.resolve_left hk⟩

theorem SpInv.high (h : SpInv sp base) (hlt : sp.priority < base) : losHighBitGet sp.priBitmap = base :=
  losHighBitGet_eq h.lt (h.saved hlt) fun j hj => (h.bits j hj).2

/-- A task is raised. -/
theorem SpInv.raise (h : SpInv sp base) (param : SchedParam) (hp : param.policy ≠ none) (hlt : param.priority < sp.priority) :
    SpInv (hpfPriorityInheritance sp param) base ∧ (hpfPriorityInheritance sp param).priority = param.priority ∧
      ∀ k, (hpfPriorityInheritance sp param).priBitmap.testBit k = true → k = sp.priority ∨ sp.priBitmap.testBit k = true := by
  have hle := h.le
  have hp32 : sp.priority < 32 := hle.trans_lt h.base_lt
  rw [hpfPriorityInheritance, if_neg hp, if_neg (Nat.not_le.mpr hlt)]
  have hbit : ∀ k, (Word.setBit sp.priBitmap sp.priority).testBit k = true ↔ sp.priBitmap.testBit k = true ∨ sp.priority = k := by
    intro k
    rw [Word.testBit_setBit, Bool.or_eq_true, decide_eq_true_eq]
  refine ⟨⟨h.base_lt,?_,Word.setBit_lt h.lt hp32,?_,fun _ => ?_,fun k hk => ?_⟩,rfl,fun k hk => ((hbit k).mp hk).symm.imp Eq.symm id⟩
  · simp only
    omega
  · simp only
    omega
  · simp only
    rw [hbit]
    rcases Nat.lt_or_eq_of_le hle with hlt' | heq
    · exact .inl (h.saved hlt')
    · exact .inr heq
  · simp only at hk ⊢
    rcases (hbit k).mp hk with hk | rfl
    · have := h.bits k hk
      omega
    · exact ⟨hlt,hle⟩

/-- The own priority is restored where every other level that is saved is that of a task in the list. -/
theorem SpInv.restore (h : SpInv sp base) (list : List SchedHPF) (param : SchedParam) (hp : param.policy ≠ none)
    (hle : sp.priority = base ∨ param.priority ≤ sp.priority) (hlist : ∀ v ∈ list, v.priority < 32)
    (hcover : ∀ k, sp.priBitmap.testBit k = true → k = base ∨ ∃ v ∈ list, v.priority = k) :
    SpInv (hpfPriorityRestore sp list param) base ∧ (hpfPriorityRestore sp list param).priority = base := by
  have hbase := h.base_lt
  have hzero : ∀ p, Word.clearBit 0 p = 0 := fun p => Nat.zero_and _
  rw [hpfPriorityRestore, if_neg hp]
  rcases Nat.lt_or_eq_of_le h.le with hlt | heq
  · have h1 : ¬ sp.priority < param.priority := by omega
    have h2 : sp.priBitmap ≠ 0 := by
      intro hc
      have := h.saved hlt
      rw [hc] at this
      simp at this
    rw [if_neg h1, if_neg h2]
    have hbit : ∀ k, (restoreBitmap sp.priBitmap list).testBit k = true ↔ k = base := by
      intro k
      rw [testBit_restoreBitmap h.lt hlist, h.high hlt]
      constructor
      · rintro ⟨hk,hc | hc⟩
        · exact hc
        · rcases hcover k hk with he | ⟨v,hv,he⟩
          · exact he
          · exact absurd he (hc v hv)
      · intro hk
        rw [hk]
        exact ⟨h.saved hlt,.inl rfl⟩
    have hlow : losLowBitGet (restoreBitmap sp.priBitmap list) = base :=
      losLowBitGet_eq ((hbit base).mpr rfl) hbase fun j hj => ((hbit j).mp hj).ge
    have hclear : Word.clearBit (restoreBitmap sp.priBitmap list) base = 0 := by
      rw [Word.eq_zero_iff_testBit (Word.clearBit_lt _ (restoreBitmap_lt list h.lt))]
      intro i _
      rw [Word.testBit_clearBit hbase (restoreBitmap_lt list h.lt)]
      cases ht : (restoreBitmap sp.priBitmap list).testBit i with
      | false => rfl
      | true =>
        obtain rfl := (hbit i).mp ht
        simp
    simp only
    rw [hlow, if_pos (by omega), hclear]
    refine ⟨⟨hbase,Nat.le_refl _,by norm_num,fun _ => rfl,fun hc => absurd hc (Nat.lt_irrefl _),fun k hk => ?_⟩,rfl⟩
    simp at hk
  · have hb := h.zero heq
    split_ifs
    · refine ⟨⟨hbase,h.le,Word.clearBit_lt _ h.lt,fun _ => ?_,fun hc => ?_,fun k hk => ?_⟩,heq⟩
      · simp only
        rw [hb, hzero]
      · simp only at hc
        omega
      · simp only at hk
        rw [hb, hzero] at hk
        simp at hk
    · exact ⟨h,heq⟩
    · exact ⟨h,heq⟩

/-- The own parameters of a task do not change with its priority. -/
theorem hpfPriorityRestore_basePrio (sp : SchedHPF) (list : List SchedHPF) (param : SchedParam) :
    (hpfPriorityRestore sp list param).basePrio = sp.basePrio := by
  rw [hpfPriorityRestore]
  simp only
  split_ifs <;> rfl

theorem hpfPriorityInheritance_basePrio (sp : SchedHPF) (param : SchedParam) :
    (hpfPriorityInheritance sp param).basePrio = sp.basePrio := by
  rw [hpfPriorityInheritance]
  split_ifs <;> rfl

/-- What is restored for a task that timed out: the level of the task is forgotten, nothing is saved, or the lowest level that is
saved is restored. -/
inductive LateResult (sp : SchedHPF) (base priority : Nat) : SchedHPF → Prop
  | forget (sp' : SchedHPF) (hlt : sp.priority < priority) (hp : sp'.priority = sp.priority) (hinv : SpInv sp' base)
      (hbit : ∀ k, sp'.priBitmap.testBit k = true → sp.priBitmap.testBit k = true ∧ (k = priority → k = base)) :
      LateResult sp base priority sp'
  | none (h0 : sp.priBitmap = 0) : LateResult sp base priority sp
  | lowest (sp' : SchedHPF) (hle : priority ≤ sp.priority) (hl : sp.priBitmap.testBit sp'.priority = true)
      (hlow : ∀ j, sp.priBitmap.testBit j = true → sp'.priority ≤ j) (hinv : SpInv sp' base)
      (hbit : ∀ k, sp'.priBitmap.testBit k = true → sp.priBitmap.testBit k = true) : LateResult sp base priority sp'

private theorem losLowBitGet_spec {m : Nat} (hm : m < 2^32) (h0 : m ≠ 0) :
    losLowBitGet m < 32 ∧ m.testBit (losLowBitGet m) = true ∧ ∀ j, m.testBit j = true → losLowBitGet m ≤ j := by
  rw [losLowBitGet, Word.ctz]
  cases hf : (List.range 32).find? m.testBit with
  | none =>
    refine absurd ((Word.eq_zero_iff_testBit hm).mpr fun i hi => ?_) h0
    simpa using List.find?_eq_none.mp hf i (List.mem_range.mpr hi)
  | some l =>
    obtain ⟨hl,hlt,hlow⟩ := List.find?_range_eq_some.mp hf
    refine ⟨List.mem_range.mp hlt,hl,fun j hj => ?_⟩
    by_contra hc
    have := hlow j (Nat.not_le.mp hc)
    rw [hj] at this
    cases this

theorem SpInv.late (h : SpInv sp base) (param : SchedParam) (hp : param.policy ≠ none) (hp32 : param.priority < 32) :
    LateResult sp base param.priority (hpfPriorityRestore sp [] param) := by
  have hbase := h.base_lt
  have hle := h.le
  rw [hpfPriorityRestore, if_neg hp]
  by_cases hlt : sp.priority < param.priority
  · rw [if_pos hlt]
    have hbit : ∀ k, (Word.clearBit sp.priBitmap param.priority).testBit k = true ↔
        sp.priBitmap.testBit k = true ∧ param.priority ≠ k := by
      intro k
      rw [Word.testBit_clearBit hp32 h.lt, Bool.and_eq_true, decide_eq_true_eq]
    have hsame : ∀ k, sp.priBitmap.testBit k = true → sp.priority < base := fun k hk => by
      have := h.bits k hk
      omega
    split_ifs with hh
    · refine .forget _ hlt rfl ⟨hbase,hle,Word.clearBit_lt _ h.lt,fun heq => ?_,fun hlt' => ?_,fun k hk => ?_⟩ fun k hk => ?_
      · simp only
        rw [h.zero heq]
        exact Nat.zero_and _
      · refine (hbit base).mpr ⟨h.saved hlt',fun hc => hh ?_⟩
        rw [h.high hlt', hc]
      · exact h.bits k ((hbit k).mp hk).1
      · exact ⟨((hbit k).mp hk).1,fun hc => absurd hc.symm ((hbit k).mp hk).2⟩
    · refine .forget _ hlt rfl h fun k hk => ⟨hk,fun hc => ?_⟩
      rw [not_not, h.high (hsame k hk)] at hh
      omega
  · rw [if_neg hlt]
    by_cases h0 : sp.priBitmap = 0
    · rw [if_pos h0]
      exact .none h0
    · rw [if_neg h0]
      obtain ⟨hl32,hl,hlow⟩ := losLowBitGet_spec h.lt h0
      have hrestore : restoreBitmap sp.priBitmap [] = sp.priBitmap := rfl
      simp only [hrestore]
      rw [if_pos (by omega)]
      have hbit : ∀ k, (Word.clearBit sp.priBitmap (losLowBitGet sp.priBitmap)).testBit k = true ↔
          sp.priBitmap.testBit k = true ∧ losLowBitGet sp.priBitmap ≠ k := by
        intro k
        rw [Word.testBit_clearBit hl32 h.lt, Bool.and_eq_true, decide_eq_true_eq]
      have hlbase := (h.bits _ hl).2
      have hlt' : sp.priority < base := by
        have := h.bits _ hl
        omega
      refine .lowest _ (Nat.not_lt.mp hlt) hl hlow ⟨hbase,hlbase,Word.clearBit_lt _ h.lt,fun heq => ?_,fun hne => ?_,fun k hk => ?_⟩
        fun k hk => ((hbit k).mp hk).1
      · rw [Word.eq_zero_iff_testBit (Word.clearBit_lt _ h.lt)]
        intro i _
        refine Bool.eq_false_iff.mpr fun ht => ?_
        obtain ⟨h1,h2⟩ := (hbit i).mp ht
        have h3 := hlow i h1
        have h4 := (h.bits i h1).2
        simp only at heq
        omega
      · simp only at hne
        exact (hbit base).mpr ⟨h.saved hlt',by omega⟩
      · obtain ⟨h1,h2⟩ := (hbit k).mp hk
        have h3 := hlow k h1
        have h4 := (h.bits k h1).2
        simp only
        omega

end LiteOsKernel.Ipc.Mux
