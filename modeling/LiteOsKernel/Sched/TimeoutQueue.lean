import LiteOsKernel.Sched.Timeout
import Mathlib.Data.List.Nodup
import Mathlib.Data.List.Range
import Mathlib.Tactic.SplitIfs

/-! What holds of the tasks and of the timeout queues between the calls of the scheduler, and what its functions make of it. -/
namespace LiteOsKernel.Sched.Timeout
open LiteOsKernel.Ipc

/-- The status bits of a task as any other function of the scheduler finds them. -/
structure StatusInv (ops : SchedOps) (st : TaskStatus) : Prop where
  free : st.init = true ∨ st.ready = true ∨ st.running = true → st.pending = false ∧ st.pendTime = false ∧ st.delay = false
  init : st.init = true → st.ready = false ∧ st.running = false
  single : st.running = true → st.ready = false
  suspended : st.suspended = true → st.ready = false ∧ st.running = false
  pending : st.pending = true → st.delay = false
  hpf : ops = .hpf → st.pendTime = true → st.pending = true

/-- A task that waits for a time has a response time, or a scan has taken its node off; freezing says that tasks are frozen. -/
structure TaskInv (freezing taken : Prop) (cb : LosTaskCB) : Prop where
  status : StatusInv cb.ops cb.taskStatus
  frozen : cb.taskStatus.frozen = true → freezing ∧ cb.taskStatus.suspended = true ∧ cb.sortList.responseTime ≠ none
  timed : cb.sortList.responseTime ≠ none → cb.taskStatus.pendTime = true ∨ cb.taskStatus.delay = true
  waits : cb.taskStatus.pendTime = true ∨ cb.taskStatus.delay = true → cb.sortList.responseTime ≠ none ∨ taken

/-- The timeout queues and the nodes: the node of a frozen task is not linked. -/
structure LinkInv (s : SchedState) : Prop where
  coreNum : 0 < s.coreNum
  linked : ∀ t c, t ∈ (s.timeoutQueue c).sortLink ↔
    (s.tcb t).sortList.responseTime ≠ none ∧ (s.tcb t).sortList.cpuid = c ∧ (s.tcb t).taskStatus.frozen = false
  cpu : ∀ t, (s.tcb t).sortList.responseTime ≠ none → (s.tcb t).sortList.cpuid < s.coreNum
  nodup : ∀ c, (s.timeoutQueue c).sortLink.Nodup
  nodeNum : ∀ c, (s.timeoutQueue c).nodeNum = (s.timeoutQueue c).sortLink.length

/-- A scan has taken the node of the task off its queue. -/
def SchedState.Taken (s : SchedState) (t : Nat) : Prop := ∃ c, s.scanning c = some t

structure SchedInv (freezing : Prop) (s : SchedState) : Prop where
  link : LinkInv s
  task : ∀ t, TaskInv freezing (s.Taken t) (s.tcb t)

variable {s s' : SchedState} {t u c : Nat} {cb : LosTaskCB} {st : TaskStatus} {e : EdfEnqueue}
  {freezing taken : Prop} {ops : SchedOps}

theorem addNode2SortLink_perm (f : Nat → Option Nat) (l : List Nat) (n : Nat) : (addNode2SortLink f l n).Perm (n :: l) := by
  cases l with
  | nil => exact List.Perm.refl _
  | cons x rest =>
    rw [addNode2SortLink]
    split_ifs with h1 h2
    · exact List.Perm.refl _
    · exact List.Perm.swap ..
    · refine List.perm_middle.trans (List.Perm.cons n ?_)
      rw [← List.reverse_append, List.takeWhile_append_dropWhile, List.reverse_reverse]

private theorem idleRunqueueFind_lt (h : 0 < s.coreNum) : s.idleRunqueueFind < s.coreNum := by
  have hfold : ∀ (l : List Nat) (b : Nat), (∀ c ∈ l, c < s.coreNum) → b < s.coreNum →
      l.foldl (fun idleCpuid cpuid => if (s.timeoutQueue cpuid).nodeNum < (s.timeoutQueue idleCpuid).nodeNum then cpuid
        else idleCpuid) b < s.coreNum := by
    intro l
    induction l with
    | nil => exact fun b _ hb => hb
    | cons c l ih =>
      intro b hl hb
      refine ih _ (fun d hd => hl d (List.mem_cons_of_mem c hd)) ?_
      simp only
      split_ifs
      · exact hl c List.mem_cons_self
      · exact hb
  refine hfold _ _ (fun c hc => ?_) h
  have := (List.mem_range'_1.mp hc).2
  omega

private theorem timeoutCpuid_lt (h : 0 < s.coreNum) (t : Nat) : s.timeoutCpuid t < s.coreNum := by
  unfold SchedState.timeoutCpuid
  simp only
  split_ifs with hc
  · exact idleRunqueueFind_lt h
  · exact Nat.not_le.mp hc

/-- The status bits do not matter to the queues, but for the one of a frozen task. -/
theorem LinkInv.congr (h : LinkInv s) (hc : s'.coreNum = s.coreNum) (hq : s'.timeoutQueue = s.timeoutQueue)
    (hs : ∀ u, (s'.tcb u).sortList = (s.tcb u).sortList)
    (hf : ∀ u, (s'.tcb u).taskStatus.frozen = (s.tcb u).taskStatus.frozen) : LinkInv s' := by
  refine ⟨hc ▸ h.coreNum,fun u c => ?_,fun u => ?_,?_,?_⟩
  · rw [hq, hs u, hf u]
    exact h.linked u c
  · rw [hc, hs u]
    exact h.cpu u
  · rw [hq]
    exact h.nodup
  · rw [hq]
    exact h.nodeNum

theorem LinkInv.setTcb (h : LinkInv s) (hs : cb.sortList = (s.tcb t).sortList)
    (hf : cb.taskStatus.frozen = (s.tcb t).taskStatus.frozen) : LinkInv (s.setTcb t cb) := by
  have hcb : ∀ u, (s.setTcb t cb).tcb u = cb ∧ u = t ∨ (s.setTcb t cb).tcb u = s.tcb u := by
    intro u
    by_cases hu : u = t
    · subst hu
      exact .inl ⟨Function.update_self ..,rfl⟩
    · exact .inr (Function.update_of_ne hu ..)
  refine h.congr rfl rfl (fun u => ?_) fun u => ?_
  · rcases hcb u with ⟨hu,rfl⟩ | hu
    · rw [hu, hs]
    · rw [hu]
  · rcases hcb u with ⟨hu,rfl⟩ | hu
    · rw [hu, hf]
    · rw [hu]

/-- The node of t is not linked before and should not be after. -/
private theorem LinkInv.setOff (h : LinkInv s) (hb : (s.tcb t).sortList.responseTime = none ∨ (s.tcb t).taskStatus.frozen = true)
    (ha : cb.sortList.responseTime = none ∨ cb.taskStatus.frozen = true)
    (hc : cb.sortList.responseTime ≠ none → cb.sortList.cpuid < s.coreNum) : LinkInv (s.setTcb t cb) := by
  refine ⟨h.coreNum,fun u c => ?_,fun u => ?_,h.nodup,h.nodeNum⟩
  · by_cases hu : u = t
    · subst hu
      refine (h.linked u c).trans ?_
      rw [show (s.setTcb u cb).tcb u = cb from Function.update_self ..]
      refine iff_of_false (fun ⟨h1,_,h3⟩ => ?_) fun ⟨h1,_,h3⟩ => ?_
      · exact hb.elim h1 fun hf => absurd (hf.symm.trans h3) (by decide)
      · exact ha.elim h1 fun hf => absurd (hf.symm.trans h3) (by decide)
    · rw [show (s.setTcb t cb).tcb u = s.tcb u from Function.update_of_ne hu ..]
      exact h.linked u c
  · by_cases hu : u = t
    · subst hu
      rw [show (s.setTcb u cb).tcb u = cb from Function.update_self ..]
      exact hc
    · rw [show (s.setTcb t cb).tcb u = s.tcb u from Function.update_of_ne hu ..]
      exact h.cpu u

/-- A node that is not linked goes into a queue. -/
theorem LinkInv.addNode (h : LinkInv s) (hn : (s.tcb t).sortList.responseTime = none) (hf : (s.tcb t).taskStatus.frozen = false)
    (hc : c < s.coreNum) (r : Nat) : LinkInv ((s.setSortList t ⟨some r,c⟩).addNode c t) := by
  have hperm := addNode2SortLink_perm (fun u => ((s.setSortList t ⟨some r,c⟩).tcb u).sortList.responseTime) (s.timeoutQueue c).sortLink t
  have hnot : ∀ c, t ∉ (s.timeoutQueue c).sortLink := fun c hm => ((h.linked t c).mp hm).1 hn
  refine ⟨h.coreNum,fun u d => ?_,fun u => ?_,fun d => ?_,fun d => ?_⟩
  · by_cases hd : d = c
    · subst hd
      rw [SchedState.addNode]
      simp only [Function.update_self]
      refine hperm.mem_iff.trans ?_
      by_cases hu : u = t
      · subst hu
        simp [SchedState.setSortList, SchedState.setTcb, hf]
      · simp [SchedState.setSortList, SchedState.setTcb, hu, h.linked u d]
    · rw [SchedState.addNode]
      simp only [Function.update_of_ne hd]
      by_cases hu : u = t
      · subst hu
        simp [SchedState.setSortList, SchedState.setTcb, Ne.symm hd, hnot d]
      · simp [SchedState.setSortList, SchedState.setTcb, Function.update_of_ne hu, h.linked u d]
  · by_cases hu : u = t
    · subst hu
      simp [SchedState.addNode, SchedState.setSortList, SchedState.setTcb, hc]
    · simpa [SchedState.addNode, SchedState.setSortList, SchedState.setTcb, Function.update_of_ne hu] using h.cpu u
  · by_cases hd : d = c
    · subst hd
      rw [SchedState.addNode]
      simp only [Function.update_self]
      exact hperm.nodup_iff.mpr (List.nodup_cons.mpr ⟨hnot d,h.nodup d⟩)
    · rw [SchedState.addNode]
      simp only [Function.update_of_ne hd]
      exact h.nodup d
  · by_cases hd : d = c
    · subst hd
      rw [SchedState.addNode]
      simp only [Function.update_self]
      refine Eq.trans ?_ hperm.length_eq.symm
      exact congrArg (· + 1) (h.nodeNum d)
    · rw [SchedState.addNode]
      simp only [Function.update_of_ne hd]
      exact h.nodeNum d

theorem LinkInv.timeoutQueueAdd (h : LinkInv s) (hn : (s.tcb t).sortList.responseTime = none)
    (hf : (s.tcb t).taskStatus.frozen = false) (r : Nat) : LinkInv (s.timeoutQueueAdd t (some r)) :=
  h.addNode hn hf (timeoutCpuid_lt h.coreNum t) r

/-- A linked node leaves its queue: the unlinking is safe. -/
theorem LinkInv.deleteNode (h : LinkInv s) (hc : (s.tcb t).sortList.cpuid = c) (hn : (s.tcb t).sortList.responseTime ≠ none)
    (hf : (s.tcb t).taskStatus.frozen = false) :
    ∃ s', s.deleteNodeSortLink c t = some s' ∧ LinkInv s' ∧ s'.coreNum = s.coreNum ∧ s'.scanning = s.scanning ∧
      s'.tcb = Function.update s.tcb t { s.tcb t with sortList := ⟨none,c⟩ } := by
  have hmem : t ∈ (s.timeoutQueue c).sortLink := (h.linked t c).mpr ⟨hn,hc,hf⟩
  have hlink : s.Linked t := ⟨c,List.mem_range.mpr (hc ▸ h.cpu t hn),hmem⟩
  rw [SchedState.deleteNodeSortLink, if_pos hlink]
  refine ⟨_,rfl,⟨h.coreNum,fun u d => ?_,fun u => ?_,fun d => (h.nodup d).erase t,fun d => ?_⟩,rfl,rfl,by rw [← hc]; rfl⟩
  · simp only [(h.nodup d).mem_erase_iff, h.linked u d]
    by_cases hu : u = t
    · subst hu
      simp [SchedState.setSortList, SchedState.setTcb]
    · simp [SchedState.setSortList, SchedState.setTcb, hu]
  · by_cases hu : u = t
    · subst hu
      simp [SchedState.setSortList, SchedState.setTcb]
    · simpa [SchedState.setSortList, SchedState.setTcb, Function.update_of_ne hu] using h.cpu u
  · simp only
    rw [h.nodeNum d]
    split_ifs with hd
    · subst hd
      rw [List.length_erase_of_mem hmem]
    · rw [List.erase_of_not_mem fun hm => hd (((h.linked t d).mp hm).2.1.symm.trans hc), Nat.sub_zero]

/-- OsSchedTimeoutQueueDelete leaves a node that is not linked. -/
theorem LinkInv.timeoutQueueDelete (h : LinkInv s) (hf : (s.tcb t).taskStatus.frozen = false) :
    ∃ s', s.timeoutQueueDelete t = some s' ∧ LinkInv s' ∧ s'.coreNum = s.coreNum ∧ s'.scanning = s.scanning ∧
      s'.tcb = Function.update s.tcb t { s.tcb t with sortList := ⟨none,(s.tcb t).sortList.cpuid⟩ } := by
  rw [SchedState.timeoutQueueDelete]
  split_ifs with hn
  · exact h.deleteNode rfl hn hf
  · rw [not_not] at hn
    refine ⟨s,rfl,h,rfl,rfl,?_⟩
    have : (⟨none,(s.tcb t).sortList.cpuid⟩ : SortLinkList) = (s.tcb t).sortList := by
      rw [← hn]
    rw [this, Function.update_eq_self]

/-- The queues are as they should, and so are all tasks but one, which a function of the scheduler is at work on. -/
structure SchedInvBut (freezing : Prop) (s : SchedState) (t : Nat) : Prop where
  link : LinkInv s
  task : ∀ u, u ≠ t → TaskInv freezing (s.Taken u) (s.tcb u)

@[simp] theorem setTcb_tcb (s : SchedState) (t : Nat) (cb : LosTaskCB) : (s.setTcb t cb).tcb t = cb := Function.update_self ..

@[simp] theorem setStatus_tcb (s : SchedState) (t : Nat) (st : TaskStatus) :
    (s.setStatus t st).tcb t = { s.tcb t with taskStatus := st } := Function.update_self ..

@[simp] theorem setTcb_currTime (s : SchedState) (t : Nat) (cb : LosTaskCB) : (s.setTcb t cb).currTime = s.currTime := rfl

@[simp] theorem setTcb_setTcb (s : SchedState) (t : Nat) (cb cb' : LosTaskCB) : (s.setTcb t cb).setTcb t cb' = s.setTcb t cb' := by
  simp [SchedState.setTcb]

@[simp] theorem clearBlocked_frozen (st : TaskStatus) : st.clearBlocked.frozen = st.frozen := rfl

@[simp] theorem listDelete_tcb (s : SchedState) (t : Nat) : (s.listDelete t).tcb = s.tcb := rfl

theorem SchedInv.but (h : SchedInv freezing s) (t : Nat) : SchedInvBut freezing s t := ⟨h.link,fun u _ => h.task u⟩

theorem SchedInvBut.all (h : SchedInvBut freezing s t) (ht : TaskInv freezing (s.Taken t) (s.tcb t)) : SchedInv freezing s := by
  refine ⟨h.link,fun u => ?_⟩
  by_cases hu : u = t
  · exact hu ▸ ht
  · exact h.task u hu

/-- The task at work on changes, and the queues are still as they should. -/
theorem SchedInvBut.update (h : SchedInvBut freezing s t) (hl : LinkInv (s.setTcb t cb)) : SchedInvBut freezing (s.setTcb t cb) t := by
  refine ⟨hl,fun u hu => ?_⟩
  rw [show (s.setTcb t cb).tcb u = s.tcb u from Function.update_of_ne hu ..]
  exact h.task u hu

theorem SchedInvBut.setTcb (h : SchedInvBut freezing s t) (hs : cb.sortList = (s.tcb t).sortList)
    (hf : cb.taskStatus.frozen = (s.tcb t).taskStatus.frozen) : SchedInvBut freezing (s.setTcb t cb) t :=
  h.update (h.link.setTcb hs hf)

theorem SchedInvBut.setStatus (h : SchedInvBut freezing s t) (st : TaskStatus) (hf : st.frozen = (s.tcb t).taskStatus.frozen := by simp) :
    SchedInvBut freezing (s.setStatus t st) t :=
  h.setTcb rfl hf

theorem SchedInvBut.listDelete (h : SchedInvBut freezing s t) (u : Nat) : SchedInvBut freezing (s.listDelete u) t :=
  ⟨h.link.congr rfl rfl (fun _ => rfl) fun _ => rfl,h.task⟩

theorem timeoutQueueAdd_tcb (s : SchedState) (t : Nat) (r : Option Nat) :
    (s.timeoutQueueAdd t r).tcb t = { s.tcb t with sortList := ⟨r,s.timeoutCpuid t⟩ } := Function.update_self ..

theorem SchedInvBut.timeoutQueueAdd (h : SchedInvBut freezing s t) (hn : (s.tcb t).sortList.responseTime = none)
    (hf : (s.tcb t).taskStatus.frozen = false) (r : Nat) : SchedInvBut freezing (s.timeoutQueueAdd t (some r)) t := by
  refine ⟨h.link.timeoutQueueAdd hn hf r,fun u hu => ?_⟩
  rw [show (s.timeoutQueueAdd t (some r)).tcb u = s.tcb u from Function.update_of_ne hu ..]
  exact h.task u hu

/-- The node of t is unlinked where it is linked, and nothing else changes. -/
theorem SchedInvBut.timeoutQueueDelete (h : SchedInvBut freezing s t) (hf : (s.tcb t).taskStatus.frozen = false) :
    ∃ s', s.timeoutQueueDelete t = some s' ∧ SchedInvBut freezing s' t ∧ s'.coreNum = s.coreNum ∧ s'.scanning = s.scanning ∧
      s'.tcb t = { s.tcb t with sortList := ⟨none,(s.tcb t).sortList.cpuid⟩ } := by
  obtain ⟨s',he,hl,hcore,hscan,ht⟩ := h.link.timeoutQueueDelete hf
  refine ⟨s',he,⟨hl,fun u hu => ?_⟩,hcore,hscan,?_⟩
  · rw [ht, Function.update_of_ne hu, SchedState.Taken, hscan]
    exact h.task u hu
  · rw [ht, Function.update_self]

/-- A task that waits for nothing. -/
theorem statusInv_of_idle (hr : st.ready = false) (hrun : st.running = false) (hp : st.pending = false) (hpt : st.pendTime = false)
    (hd : st.delay = false) : StatusInv ops st := by
  refine ⟨fun _ => ⟨hp,hpt,hd⟩,fun _ => ⟨hr,hrun⟩,fun _ => hr,fun _ => ⟨hr,hrun⟩,fun _ => hd,fun _ hc => ?_⟩
  exact absurd (hpt.symm.trans hc) (by decide)

/-- A ready task. -/
theorem statusInv_of_ready (hi : st.init = false) (hrun : st.running = false) (hs : st.suspended = false) (hp : st.pending = false)
    (hpt : st.pendTime = false) (hd : st.delay = false) : StatusInv ops st := by
  refine ⟨fun _ => ⟨hp,hpt,hd⟩,fun hc => ?_,fun hc => ?_,fun hc => ?_,fun _ => hd,fun _ hc => ?_⟩
  · exact absurd (hi.symm.trans hc) (by decide)
  · exact absurd (hrun.symm.trans hc) (by decide)
  · exact absurd (hs.symm.trans hc) (by decide)
  · exact absurd (hpt.symm.trans hc) (by decide)

/-- A task that waits. -/
theorem statusInv_of_blocked (hi : st.init = false) (hr : st.ready = false) (hrun : st.running = false)
    (hd : st.pending = true → st.delay = false) (ho : ops = .hpf → st.pendTime = true → st.pending = true) : StatusInv ops st := by
  refine ⟨fun hc => ?_,fun hc => ?_,fun _ => hr,fun _ => ⟨hr,hrun⟩,hd,ho⟩
  · simp [hi, hr, hrun] at hc
  · exact absurd (hi.symm.trans hc) (by decide)

/-- A task that waits is not new, not ready and does not run. -/
theorem StatusInv.blocked (h : StatusInv ops st) (hw : st.pending = true ∨ st.pendTime = true ∨ st.delay = true) :
    st.init = false ∧ st.ready = false ∧ st.running = false := by
  have hno : ¬(st.init = true ∨ st.ready = true ∨ st.running = true) := by
    intro hc
    obtain ⟨h1,h2,h3⟩ := h.free hc
    simp [h1, h2, h3] at hw
  simpa [not_or] using hno

/-- A running task is neither new nor suspended. -/
theorem StatusInv.of_running (h : StatusInv ops st) (hr : st.running = true) : st.init = false ∧ st.suspended = false := by
  constructor
  · exact Bool.eq_false_iff.mpr fun hc => absurd (hr.symm.trans (h.init hc).2) (by decide)
  · exact Bool.eq_false_iff.mpr fun hc => absurd (hr.symm.trans (h.suspended hc).2) (by decide)

theorem taskInv_of_unlinked (hs : StatusInv cb.ops cb.taskStatus) (hn : cb.sortList.responseTime = none)
    (hf : cb.taskStatus.frozen = false) (hw : cb.taskStatus.pendTime = true ∨ cb.taskStatus.delay = true → taken) :
    TaskInv freezing taken cb :=
  ⟨hs,fun hc => absurd (hf.symm.trans hc) (by decide),fun hc => absurd hn hc,fun hc => .inr (hw hc)⟩

theorem taskInv_of_linked (hs : StatusInv cb.ops cb.taskStatus) (hn : cb.sortList.responseTime ≠ none)
    (hf : cb.taskStatus.frozen = false) (hw : cb.taskStatus.pendTime = true ∨ cb.taskStatus.delay = true) : TaskInv freezing taken cb :=
  ⟨hs,fun hc => absurd (hf.symm.trans hc) (by decide),fun _ => hw,fun _ => .inl hn⟩

/-- A task that waits for no time is in no timeout queue. -/
theorem TaskInv.unlinked (h : TaskInv freezing taken cb) (hw : ¬(cb.taskStatus.pendTime = true ∨ cb.taskStatus.delay = true)) :
    cb.sortList.responseTime = none := by
  by_contra hn
  exact hw (h.timed hn)

theorem TaskInv.thawed (h : TaskInv freezing taken cb) (hn : cb.sortList.responseTime = none) : cb.taskStatus.frozen = false :=
  Bool.eq_false_iff.mpr fun hc => (h.frozen hc).2.2 hn

/-- A new, ready or running task. -/
theorem TaskInv.at_work (h : TaskInv freezing taken cb)
    (hc : cb.taskStatus.init = true ∨ cb.taskStatus.ready = true ∨ cb.taskStatus.running = true) :
    cb.sortList.responseTime = none ∧ cb.taskStatus.frozen = false := by
  obtain ⟨-,h2,h3⟩ := h.status.free hc
  have hn := h.unlinked (by simp [h2, h3])
  exact ⟨hn,h.thawed hn⟩

/-- A task whose node is not linked is made ready, or waits for its next period. -/
theorem SchedInvBut.enqueue (h : SchedInvBut freezing s t) (hst : (s.tcb t).taskStatus = st)
    (hn : (s.tcb t).sortList.responseTime = none) (hf : st.frozen = false) (hsus : st.suspended = false) (hrun : st.running = false)
    (hp : st.pending = false) (he : e = .newPeriod ∨ st.init = false ∧ st.ready = false) : SchedInv freezing (s.enqueue t e) := by
  have hready : ∀ taken b w, TaskInv freezing taken
      { s.tcb t with taskStatus := { st.clearBlocked with timeout := b, ready := true }, waitForever := w } := by
    intro taken b w
    exact taskInv_of_unlinked (statusInv_of_ready rfl hrun hsus rfl rfl rfl) hn hf fun hc => hc.elim nofun nofun
  unfold SchedState.enqueue
  cases ho : (s.tcb t).ops with
  | hpf =>
    refine (h.setStatus _ ?_).all ?_
    · rfl
    · rw [setStatus_tcb, hst]
      exact hready _ st.timeout _
  | edf =>
    cases e with
    | timeSlice =>
      refine (h.setStatus _ ?_).all ?_
      · rfl
      · rw [setStatus_tcb, hst]
        exact hready _ false _
    | newPeriod =>
      refine (h.setTcb ?_ ?_).all ?_
      · rfl
      · rfl
      · rw [setTcb_tcb, hst]
        exact hready _ false false
    | nextPeriod finishTime =>
      obtain ⟨hi,hr⟩ := he.resolve_left nofun
      simp only [hst, hrun, Bool.false_eq_true, if_false]
      refine ((h.timeoutQueueAdd hn (by rw [hst, hf]) finishTime).setTcb ?_ ?_).all ?_
      · rfl
      · rw [timeoutQueueAdd_tcb, hst]
      · rw [setTcb_tcb, timeoutQueueAdd_tcb]
        refine taskInv_of_linked (statusInv_of_blocked hi hr rfl (fun hc => ?_) fun hc => ?_) nofun hf (.inl rfl)
        · exact absurd (hp.symm.trans hc) (by decide)
        · exact absurd (ho.symm.trans hc) (by decide)

/-- A task that stops running is ready, or its node goes into a queue where it waits for a time. -/
theorem SchedInvBut.taskSwitch (h : SchedInvBut freezing s t) (hn : (s.tcb t).sortList.responseTime = none)
    (hf : (s.tcb t).taskStatus.frozen = false)
    (hs : StatusInv (s.tcb t).ops { (s.tcb t).taskStatus with running := false }) (r : Nat) : SchedInv freezing (s.taskSwitch t r) := by
  have h' := h.setStatus { (s.tcb t).taskStatus with running := false }
  rw [SchedState.taskSwitch]
  simp only [setStatus_tcb]
  split_ifs with h1 h2
  · refine h'.all ?_
    rw [setStatus_tcb]
    refine taskInv_of_unlinked hs hn hf fun hc => ?_
    obtain ⟨-,h2,h3⟩ := hs.free (.inr (.inl h1))
    exact absurd hc (by simp only [not_or, Bool.not_eq_true]; exact ⟨h2,h3⟩)
  · refine (h'.timeoutQueueAdd ?_ ?_ r).all ?_
    · rw [setStatus_tcb]
      exact hn
    · rw [setStatus_tcb]
      exact hf
    · rw [timeoutQueueAdd_tcb, setStatus_tcb]
      exact taskInv_of_linked hs nofun hf h2
  · refine h'.all ?_
    rw [setStatus_tcb]
    exact taskInv_of_unlinked hs hn hf fun hc => absurd hc h2

/-- The node of a task that may be in a timeout queue is unlinked, and then the bits that say so are cleared. -/
theorem SchedInvBut.leaveQueue (h : SchedInvBut freezing s t) (hf : (s.tcb t).taskStatus.frozen = false) (st : TaskStatus → TaskStatus)
    (hst : ∀ x, (st x).frozen = x.frozen) :
    ∃ s', (s.timeoutQueueDelete t).map (fun s => s.setStatus t (st (s.tcb t).taskStatus)) = some s' ∧ SchedInvBut freezing s' t ∧
      (s'.tcb t).taskStatus = st (s.tcb t).taskStatus ∧ (s'.tcb t).sortList.responseTime = none := by
  obtain ⟨s',he,hb,-,-,hcb⟩ := h.timeoutQueueDelete hf
  refine ⟨s'.setStatus t (st (s'.tcb t).taskStatus),by rw [he]; rfl,hb.setStatus _ (hst _),?_,?_⟩
  all_goals
    rw [setStatus_tcb, hcb]

/-- The node of a task that is frozen is unlinked and keeps its response time. -/
theorem SchedInvBut.freeze (h : SchedInvBut freezing s t) (hf : (s.tcb t).taskStatus.frozen = false) (pm : Bool) :
    ∃ s', s.freeze t pm = some s' ∧ SchedInvBut freezing s' t ∧ s'.scanning = s.scanning ∧
      s'.tcb t = { s.tcb t with taskStatus := { (s.tcb t).taskStatus with
        frozen := pm && ((s.tcb t).taskStatus.pendTime || (s.tcb t).taskStatus.delay) } } := by
  rw [SchedState.freeze]
  simp only
  split_ifs with hpm
  · refine ⟨s,rfl,h,rfl,?_⟩
    have hno : (pm && ((s.tcb t).taskStatus.pendTime || (s.tcb t).taskStatus.delay)) = (s.tcb t).taskStatus.frozen := by
      rw [hf]
      rcases hpm with rfl | hpm
      · rfl
      · simpa using fun _ => hpm
    rw [hno]
  · obtain ⟨s1,he,hb1,hcore,hscan,hcb⟩ := h.timeoutQueueDelete hf
    rw [he, Option.map_some]
    refine ⟨_,rfl,?_,?_,?_⟩
    · simp only [SchedState.setStatus, SchedState.setSortList, setTcb_setTcb, setTcb_tcb]
      refine hb1.update (hb1.link.setOff (.inl ?_) (.inr rfl) fun hn => ?_)
      · rw [hcb]
      · rw [hcb, hcore]
        exact h.link.cpu t hn
    · exact hscan
    · simp only [SchedState.setStatus, SchedState.setSortList, setTcb_setTcb, setTcb_tcb, hcb]
      have hyes : (pm && ((s.tcb t).taskStatus.pendTime || (s.tcb t).taskStatus.delay)) = true := by
        rw [not_or, not_not, Bool.not_eq_false] at hpm
        simpa using hpm
      rw [hyes]

/-- The place in a queue does not depend on the old node. -/
private theorem timeoutQueueAdd_setTcb (s : SchedState) (t : Nat) (cb : LosTaskCB) (l : SortLinkList) (r : Option Nat) :
    (s.setTcb t cb).timeoutQueueAdd t r = (s.setTcb t { cb with sortList := l }).timeoutQueueAdd t r := by
  have hcpuid : (s.setTcb t cb).timeoutCpuid t = (s.setTcb t { cb with sortList := l }).timeoutCpuid t := by
    unfold SchedState.timeoutCpuid
    simp only [setTcb_tcb]
    rfl
  rw [SchedState.timeoutQueueAdd, SchedState.timeoutQueueAdd, hcpuid]
  simp only [SchedState.setSortList, setTcb_setTcb, setTcb_tcb]

/-- The node of a task that is unfrozen goes back into a queue, or the wait of the task is over. -/
theorem SchedInv.unfreeze (h : SchedInv freezing s) (t : Nat) : SchedInv freezing (s.unfreeze t) ∧
    ((s.unfreeze t).tcb t).taskStatus.frozen = false ∧ ((s.unfreeze t).tcb t).ops = (s.tcb t).ops ∧
    ((s.unfreeze t).tcb t).taskStatus.suspended = (s.tcb t).taskStatus.suspended := by
  have ht := h.task t
  have hs := ht.status
  unfold SchedState.unfreeze
  simp only
  by_cases hf : (s.tcb t).taskStatus.frozen = false
  · rw [if_pos hf]
    exact ⟨h,hf,rfl,rfl⟩
  · rw [if_neg hf]
    rw [Bool.not_eq_false] at hf
    obtain ⟨-,hsus,hn⟩ := ht.frozen hf
    obtain ⟨hr,hrun⟩ := hs.suspended hsus
    obtain ⟨r,hr'⟩ := Option.ne_none_iff_exists'.mp hn
    have hb : ∀ cb : LosTaskCB, cb.sortList.responseTime = none → SchedInvBut freezing (s.setTcb t cb) t := fun cb hcb =>
      (h.but t).update (h.link.setOff (.inr hf) (.inl hcb) fun hc => absurd hcb hc)
    have hend : ∀ s1 : SchedState, SchedInvBut freezing s1 t → (s1.tcb t).sortList.responseTime = none →
        (s1.tcb t).ops = (s.tcb t).ops → (s1.tcb t).taskStatus.frozen = false →
        SchedInv freezing (s1.setTcb t { s1.tcb t with
          taskStatus := TaskStatus.clearBlocked { (s.tcb t).taskStatus with frozen := false } }) := by
      intro s1 hb1 hn1 ho1 hf1
      refine (hb1.setTcb ?_ ?_).all ?_
      · rfl
      · exact hf1.symm
      · rw [setTcb_tcb]
        exact taskInv_of_unlinked (statusInv_of_idle hr hrun rfl rfl rfl) hn1 rfl fun hc => hc.elim nofun nofun
    split_ifs with hl
    · simp only [setStatus_tcb, hr']
      rw [SchedState.setStatus, timeoutQueueAdd_setTcb s t _ ⟨none,0⟩]
      refine ⟨((hb _ rfl).timeoutQueueAdd ?_ ?_ r).all ?_,?_,?_,?_⟩
      all_goals try rw [timeoutQueueAdd_tcb]
      all_goals rw [setTcb_tcb]
      exact taskInv_of_linked ⟨hs.free,hs.init,hs.single,hs.suspended,hs.pending,hs.hpf⟩ nofun rfl (ht.timed hn)
    · simp only [SchedState.setStatus, SchedState.setSortList, setTcb_setTcb, setTcb_tcb]
      refine ⟨hend _ ((hb _ ?_).listDelete t) ?_ ?_ ?_,?_,?_,?_⟩
      all_goals simp [TaskStatus.clearBlocked]
    · simp only [SchedState.setStatus, SchedState.setSortList, setTcb_setTcb, setTcb_tcb]
      refine ⟨(hb _ ?_).all ?_,?_,?_,?_⟩
      · rfl
      · rw [setTcb_tcb]
        exact taskInv_of_unlinked (statusInv_of_idle hr hrun rfl rfl rfl) rfl rfl fun hc => hc.elim nofun nofun
      all_goals simp [TaskStatus.clearBlocked]

/-- The wait or the delay of a task is over whose node is not linked. -/
theorem SchedInvBut.timeoutTaskEnd (h : SchedInvBut freezing s t) (hst : (s.tcb t).taskStatus = st)
    (hn : (s.tcb t).sortList.responseTime = none) (hf : st.frozen = false) (hs : StatusInv (s.tcb t).ops st) (e : EdfEnqueue) :
    SchedInv freezing (s.timeoutTaskEnd t e) := by
  rw [SchedState.timeoutTaskEnd]
  simp only [hst]
  by_cases hw : st.pendTime = true ∨ st.delay = true
  · obtain ⟨hi,hr,hrun⟩ := hs.blocked (.inr hw)
    rw [if_pos hw]
    generalize hst' : ({ st with pending := false, pendTime := false, delay := false, timeout := st.timeout || st.pendTime } : TaskStatus)
      = st' at *
    have hend : ∃ s1, (if st.pendTime = true then (s.setStatus t st').listDelete t else s.setStatus t st') = s1 ∧
        SchedInvBut freezing s1 t ∧ s1.tcb t = { s.tcb t with taskStatus := st' } := by
      refine ⟨_,rfl,?_⟩
      have hb := h.setStatus st' (by rw [hst, ← hst'])
      split_ifs
      · exact ⟨hb.listDelete t,by rw [listDelete_tcb, setStatus_tcb]⟩
      · exact ⟨hb,setStatus_tcb ..⟩
    obtain ⟨s1,he1,hb1,hcb1⟩ := hend
    rw [he1]
    by_cases hsus : st.suspended = true
    · rw [if_pos hsus]
      refine hb1.all ?_
      rw [hcb1, ← hst']
      exact taskInv_of_unlinked (statusInv_of_idle hr hrun rfl rfl rfl) hn hf fun hc => hc.elim nofun nofun
    · rw [if_neg hsus]
      refine hb1.enqueue (congrArg LosTaskCB.taskStatus hcb1) ?_ ?_ ?_ ?_ ?_ (.inr ?_)
      · rw [hcb1]
        exact hn
      all_goals subst hst'
      · exact hf
      · exact Bool.eq_false_iff.mpr hsus
      · exact hrun
      · rfl
      · exact ⟨hi,hr⟩
  · rw [if_neg hw]
    refine h.all ?_
    rw [← hst] at hs hf hw
    exact taskInv_of_unlinked hs hn hf fun hc => absurd hc hw

end LiteOsKernel.Sched.Timeout
