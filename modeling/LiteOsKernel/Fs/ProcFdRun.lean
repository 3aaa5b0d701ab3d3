import LiteOsKernel.Fs.ProcFdTable

/-! CopyFdToProc and CloseProcFd step by step: what each step adds to the reference counts and the tables, and the law along every
interleaving. -/
namespace LiteOsKernel.Fs

section
variable {s s' : FdState} {answer isOpen : Bool} {pc pc' : FdPc} {c : FdCall} {cfg : FdConfig} {sysFd : Int} {target id d : Nat} {fdt : FdTable}
  {kind : Int} {refs : Int → Int} {entries : Nat → Nat → Int → Int}

-- What the steps do to the reference counts and the tables

/-- No descriptor is of two kinds. -/
private theorem kinds_disjoint (cfg : FdConfig) (sysFd : Int) : (isFile sysFd = true → cfg.isSocket sysFd = false ∧ cfg.isMqueue sysFd = false) ∧
    (cfg.isSocket sysFd = true → cfg.isMqueue sysFd = false) := by
  constructor
  · intro hf
    have hlt := (of_decide_eq_true hf).2
    constructor
    · rw [FdConfig.isSocket, decide_eq_false (by omega), Bool.and_false]
    · rw [FdConfig.isMqueue, FdConfig.mqueueFdOffset, decide_eq_false (by omega), Bool.and_false]
  · intro hs
    obtain ⟨hge,hlt⟩ := of_decide_eq_true (Bool.and_eq_true_iff.mp hs).2
    rw [FdConfig.isMqueue, FdConfig.mqueueFdOffset, decide_eq_false (by omega), Bool.and_false]

/-- FdRefer takes one reference to a descriptor that has a count. -/
private theorem fdRefer_eq (s : FdState) (sysFd : Int) (isOpen : Bool) :
    s.fdRefer sysFd isOpen = if s.cfg.Counted sysFd isOpen then 1 else 0 := by
  obtain ⟨hfile,hsocket⟩ := kinds_disjoint s.cfg sysFd
  rw [FdState.fdRefer]
  by_cases hf : isFile sysFd = true
  · simp [FdConfig.Counted, hf, hfile hf]
  · by_cases hs : s.cfg.isSocket sysFd = true
    · simp [FdConfig.Counted, hf, hs, hsocket hs]
    · cases hq : s.cfg.isMqueue sysFd <;> cases isOpen <;> simp [FdConfig.Counted, hf, hs, hq]

/-- FdClose gives one back, for a file only while the target is active. -/
private theorem fdClose_eq (s : FdState) (sysFd : Int) (target : Nat) (isOpen : Bool) : s.fdClose sysFd target isOpen =
    if s.cfg.Counted sysFd isOpen ∧ (isFile sysFd = true → (s.procs target).inactive = false) then 1 else 0 := by
  obtain ⟨hfile,hsocket⟩ := kinds_disjoint s.cfg sysFd
  rw [FdState.fdClose]
  by_cases hf : isFile sysFd = true
  · rw [(hfile hf).1, (hfile hf).2, hf]
    cases (s.procs target).inactive <;> simp [FdConfig.Counted, hf]
  · by_cases hs : s.cfg.isSocket sysFd = true
    · rw [hs, hsocket hs]
      simp [FdConfig.Counted, hf, hs]
    · cases hq : s.cfg.isMqueue sysFd <;> cases isOpen <;> simp [FdConfig.Counted, hf, hs, hq]

/-- What FdClose gives back is what FdRefer took. -/
private theorem fdClose_eq_iff (s : FdState) (sysFd : Int) (target : Nat) (answer isOpen : Bool) :
    s.fdClose sysFd target answer = (if s.cfg.Counted sysFd isOpen then 1 else 0) ↔
      (isFile sysFd = true → (s.procs target).inactive = false) ∧ (s.cfg.isMqueue sysFd = true → answer = isOpen) := by
  obtain ⟨hfile,hsocket⟩ := kinds_disjoint s.cfg sysFd
  rw [fdClose_eq]
  by_cases hf : isFile sysFd = true
  · rw [if_pos (show s.cfg.Counted sysFd isOpen from .inl hf), (hfile hf).2]
    cases (s.procs target).inactive <;> simp [FdConfig.Counted, hf]
  · by_cases hs : s.cfg.isSocket sysFd = true
    · rw [if_pos (show s.cfg.Counted sysFd isOpen from .inr (.inl hs)), hsocket hs]
      simp [FdConfig.Counted, hf, hs]
    · cases hq : s.cfg.isMqueue sysFd <;> cases answer <;> cases isOpen <;> simp [FdConfig.Counted, hf, hs, hq]

private theorem addRefs_refs (s : FdState) (sysFd k n : Int) : (s.addRefs sysFd k).refs n - s.refs n = if n = sysFd then k else 0 := by
  by_cases hn : n = sysFd
  · simp only [FdState.addRefs, hn, Function.update_self, if_true]
    omega
  · simp only [FdState.addRefs, if_neg hn, Function.update_of_ne hn, sub_self]

private theorem addRefs_entry (s : FdState) (sysFd k : Int) (id d : Nat) (n : Int) : (s.addRefs sysFd k).entry id d n = s.entry id d n := rfl

/-- A table that takes the place of another changes the entries of one descriptor. -/
private theorem setTable_entry {t : FdTable} (ht : s.tables id = some fdt) (hsame : ∀ e, e ≠ d → t.sysFd e = fdt.sysFd e) (i e : Nat) (n : Int) :
    (s.setTable id t).entry i e n - s.entry i e n = if i = id ∧ e = d then
      (if t.sysFd d = n ∧ 0 ≤ n then 1 else 0) - (if fdt.sysFd d = n ∧ 0 ≤ n then 1 else 0) else 0 := by
  by_cases hi : i = id
  · subst hi
    simp only [FdState.entry, ht, FdState.setTable, Function.update_self]
    by_cases he : e = d
    · simp only [he, and_self, if_true]
    · simp only [hsame e he, he, and_false, if_false, sub_self]
  · simp only [FdState.entry, FdState.setTable, Function.update_of_ne hi, sub_self]
    rw [if_neg fun h => hi h.1]

/-- A descriptor without an entry gets one. -/
private theorem occupy_entry (ht : s.tables id = some fdt) (hd : fdt.sysFd d < 0) (h0 : 0 ≤ sysFd) (i e : Nat) (n : Int) :
    (s.setTable id (fdt.occupy d sysFd)).entry i e n - s.entry i e n = if i = id ∧ e = d ∧ n = sysFd then 1 else 0 := by
  rw [setTable_entry ht fun e he => Function.update_of_ne he .., FdTable.occupy]
  simp only [Function.update_self]
  split_ifs <;> omega

private theorem clear_entry (ht : s.tables id = some fdt) (hd : 0 ≤ fdt.sysFd d) (i e : Nat) (n : Int) :
    (s.setTable id (fdt.clear d)).entry i e n - s.entry i e n = if i = id ∧ e = d ∧ n = fdt.sysFd d then -1 else 0 := by
  rw [setTable_entry ht fun e he => Function.update_of_ne he .., FdTable.clear]
  simp only [Function.update_self]
  split_ifs <;> omega

-- The calls

/-- What a call that is under way has added so far. -/
def FdCall.Inv (cfg : FdConfig) (c : FdCall) : Prop :=
  match c.pc with
  | .copyGet .. => c.kind = 1 ∧ (∀ n, c.refs n = 0) ∧ ∀ id d n, c.entries id d n = 0
  | .copyRefer sysFd _ => c.kind = 1 ∧ 0 ≤ sysFd ∧ (∀ n, c.refs n = 0) ∧ ∀ id d n, c.entries id d n = 0
  | .copyTable sysFd _ | .copyAssign sysFd .. =>
    c.kind = 1 ∧ 0 ≤ sysFd ∧ c.Refers sysFd (if cfg.Counted sysFd c.isOpen then 1 else 0) ∧ ∀ id d n, c.entries id d n = 0
  | .copyUndo sysFd _ code =>
    c.kind = 1 ∧ 0 < code ∧ c.Refers sysFd (if cfg.Counted sysFd c.isOpen then 1 else 0) ∧ ∀ id d n, c.entries id d n = 0
  | .closeTable .. | .closeClear .. => c.kind = -1 ∧ (∀ n, c.refs n = 0) ∧ ∀ id d n, c.entries id d n = 0
  | .closeRefs sysFd _ => c.kind = -1 ∧ 0 ≤ sysFd ∧ (∀ n, c.refs n = 0) ∧ ∃ id d, c.Enters id d sysFd (-1)
  | .done _ => c.Settled

theorem FdCall.Inv.settled (h : c.Inv cfg) : c.Settled := by
  intro result hdone
  rw [FdCall.Inv, hdone] at h
  exact h result hdone

/-- A step that leaves the state alone only moves the call on. -/
private theorem FdCall.next_same (hstep : fdStep s answer pc = (pc',s)) (hpc : ∀ sysFd target, pc ≠ .copyRefer sysFd target) :
    FdCall.next s answer ⟨kind,pc,isOpen,refs,entries⟩ = ⟨kind,pc',isOpen,refs,entries⟩ := by
  rw [next]
  simp only [hstep, sub_self, add_zero]

/-- A call that fails has added nothing. -/
private theorem settled_failed {result : Int} (h : result < 0) (hr : ∀ n, refs n = 0) (he : ∀ id d n, entries id d n = 0) :
    FdCall.Settled ⟨kind,.done result,isOpen,refs,entries⟩ := by
  intro r hdone
  obtain rfl := FdPc.done.inj hdone
  exact ⟨fun h0 => absurd h (not_lt.mpr h0),fun _ => ⟨hr,he⟩⟩

private theorem settled_ok {result n : Int} (id d : Nat) (h : 0 ≤ result) (h0 : 0 ≤ n) (hr : ∀ m, refs m = if m = n then kind else 0)
    (he : ∀ i e m, entries i e m = if i = id ∧ e = d ∧ m = n then kind else 0) (hk : kind = 1 → result = d) :
    FdCall.Settled ⟨kind,.done result,isOpen,refs,entries⟩ := by
  intro r hdone
  obtain rfl := FdPc.done.inj hdone
  exact ⟨fun _ => ⟨n,id,d,h0,funext hr,funext fun i => funext fun e => funext fun m => he i e m,hk⟩,fun h0 => absurd h0 (not_lt.mpr h)⟩

/-- The step of CopyFdToProc under the semaphore of the table: the call goes back, or occupies the lowest entry that is free. -/
private theorem fdStep_copyAssign (s : FdState) (answer : Bool) (sysFd : Int) (target id : Nat) :
    (∃ code, 0 < code ∧ fdStep s answer (.copyAssign sysFd target id) = (.copyUndo sysFd target code,s)) ∨
      ∃ fdt d, s.tables id = some fdt ∧ answer = true ∧ assignProcessFd fdt 3 = some d ∧
        fdStep s answer (.copyAssign sysFd target id) = (.done d,s.setTable id (fdt.occupy d sysFd)) := by
  rw [fdStep]
  cases ht : s.tables id with
  | none => exact .inl ⟨ESRCH,by decide,rfl⟩
  | some fdt =>
    cases answer with
    | false => exact .inl ⟨ESRCH,by decide,rfl⟩
    | true =>
      cases hd : assignProcessFd fdt 3 with
      | none => exact .inl ⟨EPERM,by decide,by simp only [hd]; rfl⟩
      | some d => exact .inr ⟨fdt,d,rfl,rfl,hd,by simp only [hd]; rfl⟩

/-- The step of CloseProcFd under the semaphore of the table: the call fails, or clears an entry that has a system descriptor. -/
private theorem fdStep_closeClear (s : FdState) (answer : Bool) (procFd : Int) (target id : Nat) :
    (∃ result, result < 0 ∧ fdStep s answer (.closeClear procFd target id) = (.done result,s)) ∨
      ∃ fdt, s.tables id = some fdt ∧ 0 ≤ fdt.sysFd procFd.toNat ∧ fdStep s answer (.closeClear procFd target id) =
        (.closeRefs (fdt.sysFd procFd.toNat) target,s.setTable id (fdt.clear procFd.toNat)) := by
  rw [fdStep]
  cases ht : s.tables id with
  | none => exact .inl ⟨-ESRCH,by decide,rfl⟩
  | some fdt =>
    simp only
    split_ifs with hans hv hs
    · exact .inl ⟨-ESRCH,by decide,rfl⟩
    · exact .inl ⟨-EPERM,by decide,rfl⟩
    · exact .inl ⟨-EPERM,by decide,rfl⟩
    · exact .inr ⟨fdt,rfl,not_lt.mp hs,rfl⟩

/-- A step that meets the condition keeps what is known of a call. -/
theorem FdCall.Inv.next (h : c.Inv s.cfg) (hfree : ∀ id fdt, s.tables id = some fdt → fdt.Marked) (hok : c.StepOk s answer) :
    (c.next s answer).Inv s.cfg := by
  obtain ⟨kind,pc,isOpen,refs,entries⟩ := c
  cases pc with
  | copyGet p fd target =>
    obtain ⟨hk,hr,he⟩ := h
    by_cases hp : s.processMaxNum ≤ target
    · rw [next_same (by rw [fdStep, if_pos hp]) (by nofun)]
      exact settled_failed (by decide) hr he
    · by_cases hs : s.getAssociatedSystemFd p fd < 0
      · rw [next_same (by rw [fdStep, if_neg hp]; exact if_pos hs) (by nofun)]
        exact settled_failed (by decide) hr he
      · rw [next_same (by rw [fdStep, if_neg hp]; exact if_neg hs) (by nofun)]
        exact ⟨hk,not_lt.mp hs,hr,he⟩
  | copyRefer sysFd target =>
    obtain ⟨hk,h0,hr,he⟩ := h
    refine ⟨hk,h0,funext fun n => ?_,fun id d n => ?_⟩
    · simp only [next, fdStep, addRefs_refs, fdRefer_eq]
      rw [show refs n = 0 from hr n, zero_add]
    · simp only [next, fdStep, addRefs_entry, sub_self, add_zero]
      exact he id d n
  | copyTable sysFd target =>
    obtain ⟨hk,h0,hr,he⟩ := h
    cases ht : s.getProcessFTable target with
    | none =>
      rw [next_same (by rw [fdStep, ht]) (by nofun)]
      exact ⟨hk,by decide,hr,he⟩
    | some id =>
      rw [next_same (by rw [fdStep, ht]) (by nofun)]
      exact ⟨hk,h0,hr,he⟩
  | copyAssign sysFd target id =>
    obtain ⟨hk,h0,hr,he⟩ := h
    obtain ⟨code,hcode,hstep⟩ | ⟨fdt,d,ht,hans,hd,hstep⟩ := fdStep_copyAssign s answer sysFd target id
    · rw [next_same hstep (by nofun)]
      exact ⟨hk,hcode,hr,he⟩
    · have hcounted : s.cfg.Counted sysFd isOpen := hok fdt ht hans (by rw [hd]; exact Option.some_ne_none d)
      have hneg : fdt.sysFd d < 0 := by
        by_contra hge
        have := hfree id fdt ht d (not_lt.mp hge)
        rw [(assignProcessFd_some hd).free] at this
        cases this
      obtain rfl : kind = 1 := hk
      simp only [next, hstep]
      refine settled_ok id d (Int.natCast_nonneg d) h0 (fun m => ?_) (fun i e m => ?_) fun _ => rfl
      · have := congrFun hr m
        rw [if_pos hcounted] at this
        rw [show (s.setTable id (fdt.occupy d sysFd)).refs = s.refs from rfl, sub_self, add_zero]
        exact this
      · rw [occupy_entry ht hneg h0, show entries i e m = 0 from he i e m, zero_add]
  | copyUndo sysFd target code =>
    obtain ⟨hk,hcode,hr,he⟩ := h
    have hback := (fdClose_eq_iff s sysFd target answer isOpen).mpr hok
    refine settled_failed (neg_neg_of_pos hcode) (fun n => ?_) fun id d n => ?_
    · simp only [fdStep, addRefs_refs, hback]
      rw [show refs n = _ from congrFun hr n]
      split_ifs <;> omega
    · simp only [fdStep, addRefs_entry, sub_self, add_zero]
      exact he id d n
  | closeTable procFd target =>
    obtain ⟨hk,hr,he⟩ := h
    by_cases hp : s.processMaxNum ≤ target
    · rw [next_same (by rw [fdStep, if_pos hp]) (by nofun)]
      exact settled_failed (by decide) hr he
    · cases ht : s.getProcessFTable target with
      | none =>
        rw [next_same (by rw [fdStep, if_neg hp, ht]) (by nofun)]
        exact settled_failed (by decide) hr he
      | some id =>
        rw [next_same (by rw [fdStep, if_neg hp, ht]) (by nofun)]
        exact ⟨hk,hr,he⟩
  | closeClear procFd target id =>
    obtain ⟨hk,hr,he⟩ := h
    obtain ⟨result,hneg,hstep⟩ | ⟨fdt,ht,hs,hstep⟩ := fdStep_closeClear s answer procFd target id
    · rw [next_same hstep (by nofun)]
      exact settled_failed hneg hr he
    · simp only [next, hstep]
      refine ⟨hk,hs,fun n => ?_,id,procFd.toNat,funext fun i => funext fun e => funext fun m => ?_⟩
      · rw [show (s.setTable id (fdt.clear procFd.toNat)).refs = s.refs from rfl]
        exact (congrArg (refs n + ·) (sub_self _)).trans ((add_zero _).trans (hr n))
      · exact (congrArg₂ (· + ·) (he i e m) (clear_entry ht hs i e m)).trans (zero_add _)
  | closeRefs sysFd target =>
    obtain ⟨hk,h0,hr,id,d,he⟩ := h
    obtain rfl : kind = -1 := hk
    have hback : s.fdClose sysFd target answer = 1 := by
      rw [fdClose_eq]
      exact if_pos hok
    refine settled_ok id d le_rfl h0 (fun n => ?_) (fun i e m => ?_) nofun
    · simp only [fdStep, addRefs_refs, hback]
      rw [show refs n = 0 from hr n, zero_add]
    · simp only [fdStep, addRefs_entry, sub_self, add_zero]
      exact congrFun (congrFun (congrFun he i) e) m
  | done result =>
    rw [next_same rfl (by nofun)]
    exact h

/-- A step after which an ended call is settled meets the condition. -/
private theorem FdCall.Inv.stepOk (h : c.Inv s.cfg) (hs : (c.next s answer).Settled) : c.StepOk s answer := by
  obtain ⟨kind,pc,isOpen,refs,entries⟩ := c
  cases pc with
  | copyAssign sysFd target id =>
    obtain ⟨hk,h0,hr,he⟩ := h
    intro fdt ht hans hfree
    obtain ⟨d,hd⟩ := Option.ne_none_iff_exists'.mp hfree
    have hstep : fdStep s answer (.copyAssign sysFd target id) = (.done d,s.setTable id (fdt.occupy d sysFd)) := by
      simp only [fdStep, ht, hans, Bool.true_eq_false, if_false, hd]
    obtain ⟨n,i,e,-,hrefs,-,-⟩ := (hs d (by rw [FdCall.next, hstep])).1 (Int.natCast_nonneg d)
    by_contra hcounted
    have hone := congrFun hrefs n
    have hzero := congrFun hr n
    obtain rfl : kind = 1 := hk
    change refs n + ((fdStep s answer (.copyAssign sysFd target id)).2.refs n - s.refs n) = if n = n then 1 else 0 at hone
    change refs n = _ at hzero
    rw [hstep, if_pos rfl] at hone
    rw [if_neg hcounted, ite_self] at hzero
    rw [hzero, zero_add] at hone
    exact absurd ((sub_self (s.refs n)).symm.trans hone) (by decide)
  | copyUndo sysFd target code =>
    obtain ⟨-,hcode,hr,-⟩ := h
    have hzero := ((hs (-code) rfl).2 (neg_neg_of_pos hcode)).1 sysFd
    have hrefs := congrFun hr sysFd
    change refs sysFd + ((s.addRefs sysFd (-s.fdClose sysFd target answer)).refs sysFd - s.refs sysFd) = 0 at hzero
    change refs sysFd = _ at hrefs
    rw [addRefs_refs, if_pos rfl, hrefs, if_pos rfl] at hzero
    exact (fdClose_eq_iff s sysFd target answer isOpen).mp (add_neg_eq_zero.mp hzero).symm
  | closeRefs sysFd target =>
    obtain ⟨hk,h0,hr,id,d,he⟩ := h
    obtain ⟨n,i,e,-,hrefs,hent,-⟩ := (hs OK rfl).1 le_rfl
    obtain rfl : kind = -1 := hk
    have hn : sysFd = n := by
      have h1 := congrFun (congrFun (congrFun hent id) d) sysFd
      have h2 := congrFun (congrFun (congrFun he id) d) sysFd
      change entries id d sysFd + ((s.addRefs sysFd _).entry id d sysFd - s.entry id d sysFd) = _ at h1
      change entries id d sysFd = _ at h2
      rw [addRefs_entry, sub_self, add_zero, h2, if_pos ⟨rfl,rfl,rfl⟩] at h1
      by_contra hne
      rw [if_neg fun h => hne h.2.2] at h1
      exact absurd h1 (by decide)
    subst hn
    have hone := congrFun hrefs sysFd
    have hzero : refs sysFd = 0 := hr sysFd
    change refs sysFd + ((s.addRefs sysFd (-s.fdClose sysFd target answer)).refs sysFd - s.refs sysFd) = if sysFd = sysFd then -1 else 0 at hone
    rw [addRefs_refs, if_pos rfl, if_pos rfl, hzero, fdClose_eq] at hone
    by_contra hok
    have hzero : (if s.cfg.Counted sysFd answer ∧ (isFile sysFd = true → (s.procs target).inactive = false) then (1 : Int) else 0) = 0 :=
      if_neg hok
    rw [hzero] at hone
    exact absurd hone (by decide)
  | _ => trivial

/-- A step of a call keeps the tables in order. -/
private theorem slots_fdStep {holder : Nat → Nat → Option Nat} (hs : Slots s holder) : Slots (fdStep s answer pc).2 holder := by
  have hself : ∀ id d, Function.update holder id (Function.update (holder id) d (holder id d)) = holder := fun id d => by
    rw [Function.update_eq_self, Function.update_eq_self]
  cases pc with
  | copyAssign sysFd target id =>
    obtain ⟨code,-,hstep⟩ | ⟨fdt,d,ht,-,hd,hstep⟩ := fdStep_copyAssign s answer sysFd target id
    · rw [hstep]
      exact hs
    · rw [hstep, ← hself id d, slots_iff hs ht fun e he => ?_]
      · simp only [FdTable.occupy, Function.update_self]
        refine ⟨fun _ => rfl,fun hheld => absurd ((hs id fdt ht d).2 hheld).1 ?_⟩
        rw [(assignProcessFd_some hd).free]
        decide
      · exact ⟨Function.update_of_ne he ..,Function.update_of_ne he ..⟩
  | closeClear procFd target id =>
    obtain ⟨result,-,hstep⟩ | ⟨fdt,ht,hsys,hstep⟩ := fdStep_closeClear s answer procFd target id
    · rw [hstep]
      exact hs
    · rw [hstep, ← hself id procFd.toNat, slots_iff hs ht fun e he => ?_]
      · simp only [FdTable.clear, Function.update_self]
        exact ⟨fun h => absurd h (by decide),fun hheld => absurd ((hs id fdt ht procFd.toNat).2 hheld).2 (not_lt.mpr hsys)⟩
      · exact ⟨Function.update_of_ne he ..,Function.update_of_ne he ..⟩
  | copyGet p fd target =>
    simp only [fdStep]
    split
    · exact hs
    · split
      · exact hs
      · exact hs
  | copyTable sysFd target =>
    simp only [fdStep]
    split
    · exact hs
    · exact hs
  | closeTable procFd target =>
    simp only [fdStep]
    split
    · exact hs
    · split
      · exact hs
      · exact hs
  | copyRefer sysFd target => exact hs
  | copyUndo sysFd target code => exact hs
  | closeRefs sysFd target => exact hs
  | done result => exact hs

end

/-- The tables agree with what is held, and of every call it is known what it has added. -/
structure FdGood (w : FdWorld) : Prop where
  slot : Slots w.state w.holder
  calls : ∀ k c, w.calls k = some c → c.Inv w.state.cfg

section
variable {w : FdWorld} {l : FdLabel}

theorem FdGood.agrees (hg : FdGood w) : Agrees w := ⟨hg.slot,fun k c hc => (hg.calls k c hc).settled⟩

theorem FdGood.marked (hg : FdGood w) (id : Nat) (fdt : FdTable) (ht : w.state.tables id = some fdt) : fdt.Marked :=
  fun d => (hg.slot id fdt ht d).1

private theorem fdStep_cfg (s : FdState) (answer : Bool) (pc : FdPc) : (fdStep s answer pc).2.cfg = s.cfg := by
  cases pc <;> simp only [fdStep] <;> repeat' split
  all_goals rfl

private theorem table_cfg (s : FdState) (p : Nat) (call : TableCall) : (call.run s p).2.cfg = s.cfg := by
  cases call <;>
    simp only [TableCall.run, FdState.allocLowestProcessFd, FdState.allocAndAssocProcessFd, FdState.allocSpecifiedProcessFd,
      FdState.associateSystemFd, FdState.disassociateProcessFd, FdState.freeProcessFd] <;> repeat' split
  all_goals rfl

/-- A new call, or a call after a step, among the others. -/
private theorem calls_update {P : FdCall → Prop} {calls : Nat → Option FdCall} {k : Nat} {c : FdCall} (h : ∀ j c, calls j = some c → P c)
    (hc : P c) : ∀ j c', Function.update calls k (some c) j = some c' → P c' := by
  intro j c' hj
  by_cases hk : j = k
  · rw [hk, Function.update_self] at hj
    exact Option.some.inj hj ▸ hc
  · rw [Function.update_of_ne hk] at hj
    exact h j c' hj

theorem FdGood.run (hg : FdGood w) (hpre : l.pre w) (hok : FdOk w l) : FdGood (w.run l) := by
  cases l with
  | table p who call =>
    have ha := (agrees_table_iff hg.agrees call).mpr hok
    refine ⟨ha.slot,?_⟩
    rw [show (w.run (.table p who call)).state.cfg = w.state.cfg from table_cfg w.state p call]
    exact hg.calls
  | copyFdToProc k p fd target => exact ⟨hg.slot,calls_update hg.calls ⟨rfl,fun _ => rfl,fun _ _ _ => rfl⟩⟩
  | closeProcFd k procFd target => exact ⟨hg.slot,calls_update hg.calls ⟨rfl,fun _ => rfl,fun _ _ _ => rfl⟩⟩
  | step k answer =>
    rw [FdWorld.run]
    cases hc : w.calls k with
    | none => exact hg
    | some c =>
      refine ⟨slots_fdStep hg.slot,?_⟩
      rw [show FdState.cfg _ = w.state.cfg from fdStep_cfg w.state answer c.pc]
      exact calls_update hg.calls ((hg.calls k c hc).next hg.marked (hok c hc))
  | inactive p => exact ⟨hg.slot,hg.calls⟩
  | deleteFiles p =>
    refine ⟨fun id fdt ht d => ?_,hg.calls⟩
    simp only [FdWorld.run] at ht
    cases hf : (w.state.procs p).files with
    | none =>
      rw [hf] at ht
      exact hg.slot id fdt ht d
    | some j =>
      by_cases hid : id = j
      · simp only [hf, hid, Function.update_self] at ht
        cases ht
      · simp only [hf, Function.update_of_ne hid] at ht
        exact hg.slot id fdt ht d
  | start p j t =>
    refine ⟨fun id fdt ht d => ?_,hg.calls⟩
    simp only [FdWorld.run] at ht ⊢
    by_cases hid : id = j
    · rw [hid, Function.update_self] at ht
      obtain rfl := Option.some.inj ht
      rw [hid, Function.update_self]
      exact ⟨hpre.2 d,fun h => absurd rfl h⟩
    · rw [Function.update_of_ne hid] at ht
      rw [Function.update_of_ne hid]
      exact hg.slot id fdt ht d

/-- What a step allocates. -/
theorem FdGood.allocated (hg : FdGood w) {id d : Nat} {m : Option Nat} (ha : w.allocated l = some (id,m,d)) :
    w.holder id d = none ∧ ∀ fdt, w.state.tables id = some fdt → ∀ b, m = some b → LowestFree fdt b d := by
  cases l with
  | table p who call => exact allocated_table hg.agrees call ha
  | step k answer =>
    rw [FdWorld.allocated] at ha
    split at ha
    · rename_i kind sysFd target j isOpen refs entries hc
      obtain ⟨code,-,hstep⟩ | ⟨fdt,e,ht,-,hd,hstep⟩ := fdStep_copyAssign w.state answer sysFd target j
      · simp only [hstep] at ha
        cases ha
      · simp only [hstep, Int.toNat_natCast] at ha
        obtain ⟨rfl,rfl,rfl⟩ : j = id ∧ some 3 = m ∧ e = d := by simpa using ha
        have hlow := assignProcessFd_some hd
        refine ⟨by_contra fun hheld => ?_,fun t htt b hb => ?_⟩
        · have := ((hg.slot j fdt ht e).2 hheld).1
          rw [hlow.free] at this
          cases this
        · rw [ht] at htt
          obtain rfl := Option.some.inj htt
          obtain rfl := Option.some.inj hb
          exact hlow
    · cases ha
  | copyFdToProc k p fd target => cases ha
  | closeProcFd k procFd target => cases ha
  | inactive p => cases ha
  | deleteFiles p => cases ha
  | start p j t => cases ha

theorem FdGood.ok (hg : FdGood w) (hlaw : FdLaw w l) : FdOk w l := by
  cases l with
  | table p who call => exact (agrees_table_iff hg.agrees call).mp hlaw.agrees
  | step k answer =>
    intro c hc
    refine (hg.calls k c hc).stepOk (hlaw.agrees.settled k _ ?_)
    rw [FdWorld.run, hc]
    exact Function.update_self ..
  | copyFdToProc k p fd target => trivial
  | closeProcFd k procFd target => trivial
  | inactive p => trivial
  | deleteFiles p => trivial
  | start p j t => trivial

end

/-- Processes 1 and 2 with a table each; descriptor 3 of process 1 is system descriptor 5. -/
def twoProcesses : FdWorld where
  state :=
    { cfg := ⟨false,true,0,0,4⟩
      processMaxNum := 64
      procs := fun p => ⟨false,if p = 1 then some 0 else if p = 2 then some 1 else none⟩
      tables := fun id =>
        if id = 0 then some ⟨256,fun d => if d < 3 then d else if d = 3 then 5 else -1,fun d => d ≤ 3,fun _ => false⟩
        else if id = 1 then some ⟨256,fun d => if d < 3 then d else -1,fun d => d ≤ 2,fun _ => false⟩
        else none
      refs := fun _ => 0 }
  holder := fun _ _ => none
  calls := fun _ => none

/-- Process 1 copies its descriptor 3 to process 2, and the copy is closed again. -/
def copied : FdWorld :=
  [FdLabel.copyFdToProc 0 1 3 2,.step 0 true,.step 0 true,.step 0 true,.step 0 true,.closeProcFd 1 3 2,.step 1 true,.step 1 true,
    .step 1 true].foldl FdWorld.run twoProcesses

/-- Process 2 becomes inactive after the reference is taken: the copy fails and keeps the reference. -/
def exited : FdWorld :=
  [FdLabel.copyFdToProc 0 1 3 2,.step 0 true,.step 0 true,.inactive 2,.step 0 true,.step 0 true].foldl FdWorld.run twoProcesses

end LiteOsKernel.Fs
