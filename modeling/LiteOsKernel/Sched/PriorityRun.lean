import LiteOsKernel.Sched.PriorityQueue
import LiteOsKernel.Lib.Run

/-! The run queue along any run: it holds the ready tasks, each one at its level, and the bitmaps and counters say so. -/
namespace LiteOsKernel.Sched.Priority
open LiteOsKernel.Sched.Timeout (TaskStatus)

variable {t b p : Nat}

/-- The level of a task in the run queue. -/
def cbKey (cb : LosTaskCB) : Option (Nat × Nat) :=
  if cb.taskStatus.ready then some (cb.sp.basePrio,cb.sp.priority) else none

/-- A task between two calls. -/
structure TaskInv (cb : LosTaskCB) : Prop where
  ready : cb.taskStatus.ready = true → cb.taskStatus.init = false ∧ cb.taskStatus.running = false ∧ cb.taskStatus.suspended = false ∧
    cb.taskStatus.pending = false ∧ cb.taskStatus.pendTime = false ∧ cb.taskStatus.delay = false
  running : cb.taskStatus.running = true → cb.taskStatus.init = false ∧ cb.taskStatus.suspended = false ∧
    cb.taskStatus.pending = false ∧ cb.taskStatus.pendTime = false ∧ cb.taskStatus.delay = false
  basePrio : cb.sp.basePrio < 32
  priority : cb.sp.priority < 32
  priBitmap : cb.sp.priBitmap < 2^32
  unused : cb.taskStatus.unused = true → cb.taskStatus.ready = false ∧ cb.taskStatus.running = false ∧
    cb.taskStatus.pending = false ∧ cb.taskStatus.pendTime = false ∧ cb.taskStatus.delay = false

structure PrioInv (s : HpfSched) : Prop where
  queue : QueueInv s.rq fun t => cbKey (s.tcb t)
  task : ∀ t, TaskInv (s.tcb t)

/-- All is as it should but for the status of one task, which a function is at work on. -/
structure PrioInvBut (s : HpfSched) (t : Nat) : Prop where
  queue : QueueInv s.rq fun t => cbKey (s.tcb t)
  task : ∀ u, u ≠ t → TaskInv (s.tcb u)

variable {s : HpfSched} {cb : LosTaskCB} {u : Nat} {st : TaskStatus}

@[simp] theorem setTcb_tcb (s : HpfSched) (t : Nat) (cb : LosTaskCB) : (s.setTcb t cb).tcb t = cb := Function.update_self ..

@[simp] theorem setStatus_tcb (s : HpfSched) (t : Nat) (st : TaskStatus) :
    (s.setStatus t st).tcb t = { s.tcb t with taskStatus := st } := Function.update_self ..

private theorem key_update (s : HpfSched) (t : Nat) (cb : LosTaskCB) :
    (fun u => cbKey (Function.update s.tcb t cb u)) = Function.update (fun u => cbKey (s.tcb u)) t (cbKey cb) := by
  funext u
  by_cases hu : u = t
  · subst hu
    simp
  · simp [hu]

theorem PrioInv.but (h : PrioInv s) (t : Nat) : PrioInvBut s t := ⟨h.queue,fun u _ => h.task u⟩

theorem PrioInvBut.all (h : PrioInvBut s t) (ht : TaskInv (s.tcb t)) : PrioInv s := by
  refine ⟨h.queue,fun u => ?_⟩
  by_cases hu : u = t
  · exact hu ▸ ht
  · exact h.task u hu

theorem PrioInvBut.setTcb (h : PrioInvBut s t) (hk : cbKey cb = cbKey (s.tcb t)) : PrioInvBut (s.setTcb t cb) t := by
  refine ⟨?_,fun u hu => ?_⟩
  · have hkey : (fun u => cbKey ((s.setTcb t cb).tcb u)) = fun u => cbKey (s.tcb u) := by
      rw [HpfSched.setTcb, key_update, hk]
      exact Function.update_eq_self ..
    rw [hkey]
    exact h.queue
  · simp only [HpfSched.setTcb, Function.update_of_ne hu]
    exact h.task u hu

theorem PrioInvBut.setStatus (h : PrioInvBut s t) (hr : st.ready = (s.tcb t).taskStatus.ready) : PrioInvBut (s.setStatus t st) t := by
  refine h.setTcb ?_
  rw [cbKey, cbKey, hr]

/-- A task that is not ready goes to its level. -/
theorem PrioInvBut.enqueue (h : PrioInvBut s t) (hr : (s.tcb t).taskStatus.ready = false) (hb : (s.tcb t).sp.basePrio < 32)
    (hp : (s.tcb t).sp.priority < 32) : PrioInvBut (s.hpfEnqueue t) t ∧
      ((s.hpfEnqueue t).tcb t).taskStatus = { (s.tcb t).taskStatus.clearBlocked with ready := true } ∧
      ((s.hpfEnqueue t).tcb t).sp.basePrio = (s.tcb t).sp.basePrio ∧ ((s.hpfEnqueue t).tcb t).sp.priority = (s.tcb t).sp.priority ∧
      ((s.hpfEnqueue t).tcb t).sp.priBitmap = (s.tcb t).sp.priBitmap := by
  have hn : cbKey (s.tcb t) = none := by
    rw [cbKey, hr]
    rfl
  -- the queue after the insertion at either end
  have hq : ∀ (f : List Nat → Nat → List Nat) (cb : LosTaskCB), (∀ l, (f l t).Perm (t :: l)) →
      cbKey cb = some ((s.tcb t).sp.basePrio,(s.tcb t).sp.priority) →
      PrioInvBut { s.setTcb t cb with rq := priQueInsertAt f s.rq (s.tcb t).sp.basePrio t (s.tcb t).sp.priority } t := by
    intro f cb hf hcb
    refine ⟨?_,fun u hu => ?_⟩
    · simp only [HpfSched.setTcb]
      rw [key_update, hcb]
      exact h.queue.insert hn hb hp hf
    · simp only [HpfSched.setTcb, Function.update_of_ne hu]
      exact h.task u hu
  have hhead : ∀ l : List Nat, (t :: l).Perm (t :: l) := fun _ => List.Perm.refl _
  have htail : ∀ l : List Nat, (l ++ [t]).Perm (t :: l) := fun l => List.perm_append_singleton t l
  rw [HpfSched.hpfEnqueue, HpfSched.priQueInsert]
  simp only
  split <;> split_ifs
  · refine ⟨hq _ _ hhead rfl,?_⟩
    simp [HpfSched.setStatus, HpfSched.setTcb]
  · refine ⟨hq _ _ htail rfl,?_⟩
    simp [HpfSched.setTcb]
  · refine ⟨hq _ _ hhead rfl,?_⟩
    simp [HpfSched.setStatus, HpfSched.setTcb]
  · refine ⟨hq _ _ htail rfl,?_⟩
    simp [HpfSched.setTcb]

/-- A ready task leaves its level. -/
theorem PrioInvBut.dequeue (h : PrioInvBut s t) (hr : (s.tcb t).taskStatus.ready = true) : PrioInvBut (s.hpfDequeue t) t ∧
    (s.hpfDequeue t).tcb t = { s.tcb t with taskStatus := { (s.tcb t).taskStatus with ready := false } } := by
  have hk : cbKey (s.tcb t) = some ((s.tcb t).sp.basePrio,(s.tcb t).sp.priority) := by
    rw [cbKey, hr]
    rfl
  rw [HpfSched.hpfDequeue]
  simp only [hr, if_true]
  refine ⟨⟨?_,fun u hu => ?_⟩,?_⟩
  · simp only [HpfSched.setStatus, HpfSched.setTcb]
    rw [key_update]
    exact h.queue.delete hk
  · simp only [HpfSched.setStatus, HpfSched.setTcb, Function.update_of_ne hu]
    exact h.task u hu
  · exact setStatus_tcb ..

private theorem TaskInv.not_ready (h : TaskInv cb) (hc : cb.taskStatus.init = true ∨ cb.taskStatus.running = true ∨
    cb.taskStatus.suspended = true ∨ cb.taskStatus.pending = true ∨ cb.taskStatus.pendTime = true ∨ cb.taskStatus.delay = true) :
    cb.taskStatus.ready = false := by
  refine Bool.eq_false_iff.mpr fun hr => ?_
  obtain ⟨h1,h2,h3,h4,h5,h6⟩ := h.ready hr
  simp [h1, h2, h3, h4, h5, h6] at hc

private theorem TaskInv.not_running (h : TaskInv cb) (hc : cb.taskStatus.init = true ∨ cb.taskStatus.suspended = true ∨
    cb.taskStatus.pending = true ∨ cb.taskStatus.pendTime = true ∨ cb.taskStatus.delay = true) : cb.taskStatus.running = false := by
  refine Bool.eq_false_iff.mpr fun hr => ?_
  obtain ⟨h1,h2,h3,h4,h5⟩ := h.running hr
  simp [h1, h2, h3, h4, h5] at hc

theorem TaskInv.used (h : TaskInv cb) (hc : cb.taskStatus.ready = true ∨ cb.taskStatus.running = true ∨
    cb.taskStatus.pending = true ∨ cb.taskStatus.pendTime = true ∨ cb.taskStatus.delay = true) : cb.taskStatus.unused = false := by
  refine Bool.eq_false_iff.mpr fun hu => ?_
  obtain ⟨h1,h2,h3,h4,h5⟩ := h.unused hu
  simp [h1, h2, h3, h4, h5] at hc

/-- The parameters of a task stay where only its status changes. -/
theorem TaskInv.status (h : TaskInv cb) (hr : st.ready = false) (hrun : st.running = true → st.init = false ∧ st.suspended = false ∧
    st.pending = false ∧ st.pendTime = false ∧ st.delay = false)
    (hu : st.unused = true → st.running = false ∧ st.pending = false ∧ st.pendTime = false ∧ st.delay = false) :
    TaskInv { cb with taskStatus := st } :=
  ⟨fun hc => absurd (hc.symm.trans hr) (by decide),hrun,h.basePrio,h.priority,h.priBitmap,fun hc => ⟨hr,hu hc⟩⟩

/-- A task that does not run and is not suspended is put into the queue. -/
private theorem PrioInvBut.enqueue_all (h : PrioInvBut s t) (hb : (s.tcb t).sp.basePrio < 32) (hp : (s.tcb t).sp.priority < 32)
    (hm : (s.tcb t).sp.priBitmap < 2^32) (hr : (s.tcb t).taskStatus.ready = false) (hrun : (s.tcb t).taskStatus.running = false)
    (hs : (s.tcb t).taskStatus.suspended = false) (hu : (s.tcb t).taskStatus.unused = false) : PrioInv (s.hpfEnqueue t) := by
  obtain ⟨h1,h2,h3,h4,h5⟩ := h.enqueue hr hb hp
  refine h1.all ⟨fun _ => ?_,fun hc => ?_,h3 ▸ hb,h4 ▸ hp,h5 ▸ hm,fun hc => ?_⟩
  · rw [h2]
    exact ⟨rfl,hrun,hs,rfl,rfl,rfl⟩
  · rw [h2] at hc
    exact absurd (hc.symm.trans hrun) (by decide)
  · rw [h2] at hc
    exact absurd (hc.symm.trans hu) (by decide)

/-! The functions of the scheduler, one after the other. -/

private theorem PrioInv.startToRun (h : PrioInv s) (hr : (s.tcb t).taskStatus.ready = true) : PrioInv (s.hpfStartToRun t) := by
  obtain ⟨h1,h2⟩ := (h.but t).dequeue hr
  obtain ⟨hi,-,hs,hp,hpt,hd⟩ := (h.task t).ready hr
  have hu := (h.task t).used (.inl hr)
  rw [HpfSched.hpfStartToRun]
  refine (h1.setStatus ?_).all ?_
  · rfl
  rw [setStatus_tcb, h2]
  refine (h.task t).status rfl (fun _ => ⟨hi,hs,hp,hpt,hd⟩) fun hc => ?_
  exact absurd (hc.symm.trans hu) (by decide)

/-- A task that runs gives its CPU away and waits, in one way or another. -/
theorem PrioInv.stop (h : PrioInv s) (hrun : (s.tcb t).taskStatus.running = true) (hr : st.ready = false) (hu : st.unused = false) :
    PrioInv ((s.setStatus t st).taskSwitch t) := by
  have hready := (h.task t).not_ready (.inr (.inl hrun))
  rw [HpfSched.taskSwitch]
  refine (((h.but t).setStatus (hr.trans hready.symm)).setStatus ?_).all ?_
  · rfl
  rw [setStatus_tcb, setStatus_tcb]
  refine (h.task t).status hr nofun fun hc => ?_
  exact absurd (hc.symm.trans hu) (by decide)

theorem PrioInv.preempt (h : PrioInv s) (hrun : (s.tcb t).taskStatus.running = true) (timeSlice : Int) :
    PrioInv (s.preempt t timeSlice) := by
  have hready := (h.task t).not_ready (.inr (.inl hrun))
  have hs := ((h.task t).running hrun).2.1
  have hu := (h.task t).used (.inr (.inl hrun))
  have h1 : PrioInvBut (s.setTcb t { s.tcb t with timeSlice := timeSlice }) t := (h.but t).setTcb rfl
  obtain ⟨h2,h3,h4,h5,h6⟩ := h1.enqueue (by simpa using hready) (by simpa using (h.task t).basePrio)
    (by simpa using (h.task t).priority)
  rw [setTcb_tcb] at h3 h4 h5 h6
  simp only at h3 h4 h5 h6
  rw [HpfSched.preempt, HpfSched.taskSwitch]
  refine (h2.setStatus ?_).all ?_
  · rfl
  rw [setStatus_tcb, h3]
  refine ⟨fun _ => ⟨rfl,rfl,hs,rfl,rfl,rfl⟩,nofun,?_,?_,?_,fun hc => absurd (hc.symm.trans hu) (by decide)⟩
  · exact h4 ▸ (h.task t).basePrio
  · exact h5 ▸ (h.task t).priority
  · exact h6 ▸ (h.task t).priBitmap

theorem PrioInv.delay (h : PrioInv s) (hrun : (s.tcb t).taskStatus.running = true) : PrioInv (s.hpfDelay t) :=
  h.stop hrun ((h.task t).not_ready (.inr (.inl hrun))) ((h.task t).used (.inr (.inl hrun)))

theorem PrioInv.wait (h : PrioInv s) (hrun : (s.tcb t).taskStatus.running = true) (forever : Bool) : PrioInv (s.hpfWait t forever) :=
  h.stop hrun ((h.task t).not_ready (.inr (.inl hrun))) ((h.task t).used (.inr (.inl hrun)))

/-- A task that waits does not wait any more: it stays suspended, or it is ready. -/
private theorem PrioInv.unblock (h : PrioInv s) (hb : (s.tcb t).taskStatus.pending = true ∨ (s.tcb t).taskStatus.pendTime = true ∨
    (s.tcb t).taskStatus.delay = true) (hr : st.ready = (s.tcb t).taskStatus.ready) (hrun : st.running = (s.tcb t).taskStatus.running)
    (hs : st.suspended = (s.tcb t).taskStatus.suspended) (hu : st.unused = (s.tcb t).taskStatus.unused) :
    PrioInv (if (s.tcb t).taskStatus.suspended then s.setStatus t st else (s.setStatus t st).hpfEnqueue t) := by
  have hready := (h.task t).not_ready (.inr (.inr (.inr hb)))
  have hrunning := (h.task t).not_running (.inr (.inr hb))
  have hused := (h.task t).used (.inr (.inr hb))
  have h1 := (h.but t).setStatus hr
  split_ifs with hsus
  · refine h1.all ?_
    rw [setStatus_tcb]
    refine (h.task t).status (hr.trans hready) (fun hc => ?_) fun hc => ?_
    · exact absurd (hc.symm.trans (hrun.trans hrunning)) (by decide)
    · exact absurd (hc.symm.trans (hu.trans hused)) (by decide)
  · refine h1.enqueue_all ?_ ?_ ?_ ?_ ?_ ?_ ?_ <;> rw [setStatus_tcb]
    · exact (h.task t).basePrio
    · exact (h.task t).priority
    · exact (h.task t).priBitmap
    · exact hr.trans hready
    · exact hrun.trans hrunning
    · exact hs.trans (Bool.eq_false_iff.mpr hsus)
    · exact hu.trans hused

theorem PrioInv.wake (h : PrioInv s) (hp : (s.tcb t).taskStatus.pending = true) : PrioInv (s.hpfWake t) := by
  unfold HpfSched.hpfWake
  simp only [setStatus_tcb]
  refine h.unblock (.inl hp) ?_ ?_ ?_ ?_ <;> rfl

theorem PrioInv.timeoutWake (h : PrioInv s) (t : Nat) : PrioInv (s.timeoutTaskWake t) := by
  unfold HpfSched.timeoutTaskWake
  by_cases hc : (s.tcb t).taskStatus.pendTime = true ∨ (s.tcb t).taskStatus.delay = true
  · simp only [hc, if_true]
    refine h.unblock (.inr hc) ?_ ?_ ?_ ?_ <;> rfl
  · simp only [hc, if_false]
    exact h

theorem PrioInv.suspend (h : PrioInv s) (hu : (s.tcb t).taskStatus.unused = false) (freeze : Bool) : PrioInv (s.hpfSuspend t freeze) := by
  have hstop : ∀ (s' : HpfSched) (st : TaskStatus), PrioInvBut s' t → s'.tcb t = { s.tcb t with taskStatus := st } →
      st.ready = false → st.unused = false → PrioInv ((s'.setStatus t { (s'.tcb t).taskStatus with
        frozen := (s'.tcb t).taskStatus.frozen || (freeze && ((s'.tcb t).taskStatus.pendTime || (s'.tcb t).taskStatus.delay))
        suspended := true }).taskSwitch t) := by
    intro s' st h1 ht hr hu'
    rw [HpfSched.taskSwitch]
    refine ((h1.setStatus ?_).setStatus ?_).all ?_
    · rfl
    · rfl
    rw [setStatus_tcb, setStatus_tcb, ht]
    refine (h.task t).status hr nofun fun hc => ?_
    exact absurd (hc.symm.trans hu') (by decide)
  rw [HpfSched.hpfSuspend]
  split_ifs with hr
  · obtain ⟨h1,h2⟩ := (h.but t).dequeue hr
    exact hstop _ _ h1 h2 rfl hu
  · exact hstop s (s.tcb t).taskStatus (h.but t) rfl (Bool.eq_false_iff.mpr hr) hu

theorem PrioInv.resume (h : PrioInv s) (hu : (s.tcb t).taskStatus.unused = false) (hs : (s.tcb t).taskStatus.suspended = true)
    (expired : Bool) : PrioInv (s.hpfResume t expired) := by
  have hready := (h.task t).not_ready (.inr (.inr (.inl hs)))
  have hrunning := (h.task t).not_running (.inr (.inl hs))
  -- the status after SchedTaskUnfreeze
  have hst : ∀ st : TaskStatus, st.ready = false → st.running = false → st.unused = false →
      PrioInv (if st.pending = true ∨ st.delay = true then s.setStatus t { st with suspended := false }
        else (s.setStatus t { st with suspended := false }).hpfEnqueue t) := by
    intro st h1 h2 h3
    have hbut : PrioInvBut (s.setStatus t { st with suspended := false }) t := (h.but t).setStatus (h1.trans hready.symm)
    split_ifs
    · refine hbut.all ?_
      rw [setStatus_tcb]
      refine (h.task t).status h1 (fun hc => ?_) fun hc => ?_
      · exact absurd (hc.symm.trans h2) (by decide)
      · exact absurd (hc.symm.trans h3) (by decide)
    · refine hbut.enqueue_all ?_ ?_ ?_ ?_ ?_ ?_ ?_ <;> rw [setStatus_tcb]
      · exact (h.task t).basePrio
      · exact (h.task t).priority
      · exact (h.task t).priBitmap
      · exact h1
      · exact h2
      · exact h3
  rw [HpfSched.hpfResume]
  simp only
  refine hst _ ?_ ?_ ?_ <;> split_ifs
  all_goals first | exact hready | exact hrunning | exact hu

theorem PrioInv.exit (h : PrioInv s) (t : Nat) : PrioInv (s.hpfExit t) := by
  have hstop : ∀ (s' : HpfSched) (st : TaskStatus), PrioInvBut s' t → s'.tcb t = { s.tcb t with taskStatus := st } →
      st.ready = false → st.pending = false → PrioInv (s'.setStatus t { (s'.tcb t).taskStatus with
        delay := false
        pendTime := false
        running := false
        unused := true }) := by
    intro s' st h1 ht hr hp
    refine (h1.setStatus ?_).all ?_
    · rfl
    rw [setStatus_tcb, ht]
    exact (h.task t).status hr nofun fun _ => ⟨rfl,hp,rfl,rfl⟩
  rw [HpfSched.hpfExit]
  simp only
  split_ifs with hr
  · obtain ⟨h1,h2⟩ := (h.but t).dequeue hr
    exact hstop _ _ h1 h2 rfl ((h.task t).ready hr).2.2.2.1
  · refine hstop _ { (s.tcb t).taskStatus with pending := false } ((h.but t).setStatus ?_) (setStatus_tcb ..)
      (Bool.eq_false_iff.mpr hr) rfl
    rfl

theorem PrioInv.start (h : PrioInv s) (hi : (s.tcb t).taskStatus.init = true) (hs : (s.tcb t).taskStatus.suspended = false)
    (hu : (s.tcb t).taskStatus.unused = false) : PrioInv (s.hpfEnqueue t) :=
  (h.but t).enqueue_all (h.task t).basePrio (h.task t).priority (h.task t).priBitmap ((h.task t).not_ready (.inl hi))
    ((h.task t).not_running (.inl hi)) hs hu

/-- The parameters of a task change, but not its level where it is in the queue. -/
theorem PrioInv.setCb (h : PrioInv s) (hst : cb.taskStatus = (s.tcb t).taskStatus) (hk : cbKey cb = cbKey (s.tcb t))
    (hb : cb.sp.basePrio < 32) (hp : cb.sp.priority < 32) (hm : cb.sp.priBitmap < 2^32) : PrioInv (s.setTcb t cb) := by
  refine ((h.but t).setTcb hk).all ?_
  rw [setTcb_tcb]
  refine ⟨?_,?_,hb,hp,hm,?_⟩ <;> rw [hst]
  · exact (h.task t).ready
  · exact (h.task t).running
  · exact (h.task t).unused

/-- The level of a task does not matter where it is not ready. -/
theorem PrioInv.setSp (h : PrioInv s) (hr : (s.tcb t).taskStatus.ready = false) {sp : SchedHPF} (hb : sp.basePrio < 32)
    (hp : sp.priority < 32) (hm : sp.priBitmap < 2^32) : PrioInv (s.setTcb t { s.tcb t with sp := sp }) := by
  refine h.setCb ?_ ?_ hb hp hm
  · rfl
  · rw [cbKey, cbKey, hr]
    rfl

/-- A ready task leaves the queue, its parameters change, and it goes to its new level. -/
private theorem PrioInv.requeue (h : PrioInv s) (hr : (s.tcb t).taskStatus.ready = true) (sp : SchedHPF) (hb : sp.basePrio < 32)
    (hp : sp.priority < 32) (hm : sp.priBitmap < 2^32) :
    PrioInv (((s.hpfDequeue t).setTcb t { (s.hpfDequeue t).tcb t with sp := sp }).hpfEnqueue t) := by
  obtain ⟨h1,h2⟩ := (h.but t).dequeue hr
  obtain ⟨-,hrun,hs,-⟩ := (h.task t).ready hr
  have h3 : PrioInvBut ((s.hpfDequeue t).setTcb t { (s.hpfDequeue t).tcb t with sp := sp }) t := by
    refine h1.setTcb ?_
    rw [cbKey, cbKey, h2]
    rfl
  refine h3.enqueue_all ?_ ?_ ?_ ?_ ?_ ?_ ?_ <;> rw [setTcb_tcb]
  · exact hb
  · exact hp
  · exact hm
  · rw [h2]
  · rw [h2]
    exact hrun
  · rw [h2]
    exact hs
  · rw [h2]
    exact (h.task t).used (.inl hr)

/-- Every thread of the process is moved to the new level, ready or not. -/
theorem PrioInv.basePriorityModify (h : PrioInv s) (t : Nat) (hp : p < 32) : PrioInv (s.basePriorityModify t p) := by
  rw [HpfSched.basePriorityModify]
  generalize s.threadSiblingList (s.tcb t).processCB = threads
  induction threads generalizing s with
  | nil => exact h
  | cons u threads ih =>
    refine ih ?_
    simp only
    split_ifs with hr
    · have h2 := ((h.but u).dequeue hr).2
      rw [h2]
      have := h.requeue hr { (s.tcb u).sp with basePrio := p } hp (h.task u).priority (h.task u).priBitmap
      rwa [h2] at this
    · exact h.setSp (Bool.eq_false_iff.mpr hr) hp (h.task u).priority (h.task u).priBitmap

private theorem hpfEnqueue_tcb_of_ne (s : HpfSched) (hu : u ≠ t) : (s.hpfEnqueue t).tcb u = s.tcb u := by
  rw [HpfSched.hpfEnqueue, HpfSched.priQueInsert]
  simp only
  split <;> split_ifs <;> exact Function.update_of_ne hu ..

private theorem hpfEnqueue_status (s : HpfSched) (t : Nat) :
    ((s.hpfEnqueue t).tcb t).taskStatus = { (s.tcb t).taskStatus.clearBlocked with ready := true } := by
  rw [HpfSched.hpfEnqueue, HpfSched.priQueInsert]
  simp only
  split <;> split_ifs <;> simp [HpfSched.setStatus, HpfSched.setTcb]

private theorem hpfDequeue_tcb_of_ne (s : HpfSched) (hu : u ≠ t) : (s.hpfDequeue t).tcb u = s.tcb u := by
  rw [HpfSched.hpfDequeue]
  simp only
  split_ifs
  · exact Function.update_of_ne hu ..
  · rfl

private theorem hpfDequeue_status (s : HpfSched) (t : Nat) :
    ((s.hpfDequeue t).tcb t).taskStatus = { (s.tcb t).taskStatus with ready := false } := by
  rw [HpfSched.hpfDequeue]
  simp only
  split_ifs with hr
  · simp [HpfSched.setStatus, HpfSched.setTcb]
  · rw [← Bool.eq_false_iff.mpr hr]

/-- The status of a thread whose process changes its priority: it is as before, or that of a task just put into the queue. -/
private theorem basePriorityModify_status (s : HpfSched) (t p u : Nat) :
    ((s.basePriorityModify t p).tcb u).taskStatus = (s.tcb u).taskStatus ∨
      ((s.basePriorityModify t p).tcb u).taskStatus = { (s.tcb u).taskStatus.clearBlocked with ready := true } := by
  rw [HpfSched.basePriorityModify]
  generalize s.threadSiblingList (s.tcb t).processCB = threads
  induction threads generalizing s with
  | nil => exact .inl rfl
  | cons v threads ih =>
    rw [List.foldl_cons]
    generalize hs : (if (s.tcb v).taskStatus.ready = true then _ else _) = s'
    have hstep : (s'.tcb u).taskStatus = (s.tcb u).taskStatus ∨
        (s'.tcb u).taskStatus = { (s.tcb u).taskStatus.clearBlocked with ready := true } := by
      subst hs
      by_cases hu : u = v
      · subst hu
        split_ifs
        · refine .inr ?_
          rw [hpfEnqueue_status, setTcb_tcb, hpfDequeue_status]
          rfl
        · refine .inl ?_
          rw [setTcb_tcb]
      · refine .inl ?_
        split_ifs
        · rw [hpfEnqueue_tcb_of_ne _ hu, HpfSched.setTcb]
          simp only [Function.update_of_ne hu]
          rw [hpfDequeue_tcb_of_ne _ hu]
        · simp only [HpfSched.setTcb, Function.update_of_ne hu]
    rcases hstep with hstep | hstep <;> rcases ih s' with h | h
    · exact .inl (h.trans hstep)
    · exact .inr (h.trans (by rw [hstep]))
    · exact .inr (h.trans hstep)
    · exact .inr (h.trans (by rw [hstep]; rfl))

/-- The parameters of the task may be set: it is not a new task that is suspended. -/
structure ParamInv (s : HpfSched) (t : Nat) : Prop where
  inv : PrioInv s
  used : (s.tcb t).taskStatus.unused = false
  init : (s.tcb t).taskStatus.init = true → (s.tcb t).taskStatus.suspended = false

theorem ParamInv.policy (h : ParamInv s t) (policy : HpfPolicy) :
    ParamInv (if (s.tcb t).sp.policy ≠ policy then
      s.setTcb t { s.tcb t with sp := { (s.tcb t).sp with policy := policy }, timeSlice := 0 } else s) t := by
  split_ifs
  · refine ⟨h.inv.setCb rfl rfl (h.inv.task t).basePrio (h.inv.task t).priority (h.inv.task t).priBitmap,?_,?_⟩ <;> rw [setTcb_tcb]
    · exact h.used
    · exact h.init
  · exact h

theorem ParamInv.basePrio (h : ParamInv s t) {basePrio : Nat} (hb : basePrio < 32) :
    ParamInv (if (s.tcb t).sp.basePrio ≠ basePrio then s.basePriorityModify t basePrio else s) t := by
  by_cases hc : (s.tcb t).sp.basePrio ≠ basePrio
  · rw [if_pos hc]
    have hinv := h.inv.basePriorityModify t hb
    rcases basePriorityModify_status s t basePrio t with he | he
    · exact ⟨hinv,he ▸ h.used,he ▸ h.init⟩
    · refine ⟨hinv,he ▸ h.used,fun hi => ?_⟩
      rw [he] at hi
      cases hi
  · rw [if_neg hc]
    exact h

theorem ParamInv.priority (h : ParamInv s t) {priority : Nat} (hp : priority < 32) :
    PrioInv (if (s.tcb t).taskStatus.ready = true then
        ((s.hpfDequeue t).setPriority t priority ((s.hpfDequeue t).tcb t).sp.priBitmap).hpfEnqueue t
      else if ((s.setPriority t priority (s.tcb t).sp.priBitmap).tcb t).taskStatus.init = true then
        (s.setPriority t priority (s.tcb t).sp.priBitmap).hpfEnqueue t
      else s.setPriority t priority (s.tcb t).sp.priBitmap) := by
  have ht := h.inv.task t
  by_cases hr : (s.tcb t).taskStatus.ready = true
  · rw [if_pos hr]
    have h2 := ((h.inv.but t).dequeue hr).2
    refine h.inv.requeue hr _ ?_ hp ?_
    · rw [h2]
      exact ht.basePrio
    · rw [h2]
      exact ht.priBitmap
  · rw [if_neg hr]
    have h1 : PrioInv (s.setPriority t priority (s.tcb t).sp.priBitmap) :=
      h.inv.setSp (Bool.eq_false_iff.mpr hr) ht.basePrio hp ht.priBitmap
    have hst : ((s.setPriority t priority (s.tcb t).sp.priBitmap).tcb t).taskStatus = (s.tcb t).taskStatus := by
      rw [HpfSched.setPriority, setTcb_tcb]
    rw [hst]
    split_ifs with hi
    · exact h1.start (hst ▸ hi) (hst ▸ h.init hi) (hst ▸ h.used)
    · exact h1

theorem ParamInv.paramModify (h : ParamInv s t) (policy : HpfPolicy) {basePrio priority : Nat} (hb : basePrio < 32)
    (hp : priority < 32) : PrioInv (s.hpfSchedParamModify t policy basePrio priority) :=
  ((h.policy policy).basePrio hb).priority hp

/-- The parameters of an owner change, and its priority only where it is not in the queue. -/
theorem PrioInv.setOwner (h : PrioInv s) {sp : SchedHPF} (hr : (s.tcb t).taskStatus.ready = false ∨
    sp.priority = (s.tcb t).sp.priority) (hb : sp.basePrio = (s.tcb t).sp.basePrio) (hp : sp.priority < 32)
    (hm : sp.priBitmap < 2^32) : PrioInv (s.setTcb t { s.tcb t with sp := sp }) := by
  have hb' : sp.basePrio < 32 := hb ▸ (h.task t).basePrio
  rcases hr with hr | hr
  · exact h.setSp hr hb' hp hm
  · refine h.setCb rfl ?_ hb' hp hm
    rw [cbKey, cbKey, hb, hr]

theorem PrioInv.inherit (h : PrioInv s) {param : SchedParam} (hp : param.priority < 32) (hok : (s.tcb t).taskStatus.ready = true →
    param.policy = none ∨ (s.tcb t).sp.priority ≤ param.priority) : PrioInv (s.priorityInheritance t param) := by
  have ht := h.task t
  rw [HpfSched.priorityInheritance, hpfPriorityInheritance]
  split_ifs with h1 h2
  · exact h.setOwner (.inr rfl) rfl ht.priority ht.priBitmap
  · exact h.setOwner (.inr rfl) rfl ht.priority ht.priBitmap
  · refine h.setOwner (.inl (Bool.eq_false_iff.mpr fun hr => ?_)) rfl hp (Word.setBit_lt ht.priBitmap ht.priority)
    exact (hok hr).elim h1 h2

theorem restoreBitmap_lt (list : List SchedHPF) {m : Nat} (hm : m < 2^32) : restoreBitmap m list < 2^32 := by
  rw [restoreBitmap]
  generalize losHighBitGet m = high
  induction list generalizing m with
  | nil => exact hm
  | cons u list ih =>
    refine ih ?_
    simp only
    split_ifs
    · exact Word.clearBit_lt _ hm
    · exact hm

private theorem losLowBitGet_lt {m : Nat} (h : losLowBitGet m ≠ 32) : losLowBitGet m < 32 := by
  rw [losLowBitGet, Word.ctz] at h ⊢
  cases hf : (List.range 32).find? m.testBit with
  | none =>
    rw [hf] at h
    exact absurd rfl h
  | some i => exact List.mem_range.mp (List.mem_of_find?_eq_some hf)

/-- No level that was saved is restored which is not the priority of the owner. -/
def KeepsPriority (s : HpfSched) (owner : Nat) (list : List Nat) (param : SchedParam) : Prop :=
  let sp := (s.tcb owner).sp
  let priBitmap := restoreBitmap sp.priBitmap (list.map fun u => (s.tcb u).sp)
  param.policy = none ∨ sp.priority < param.priority ∨ sp.priBitmap = 0 ∨
    losLowBitGet priBitmap = 32 ∨ losLowBitGet priBitmap = sp.priority

theorem PrioInv.restore (h : PrioInv s) (list : List Nat) (param : SchedParam)
    (hok : (s.tcb t).taskStatus.ready = true → KeepsPriority s t list param) : PrioInv (s.priorityRestore t list param) := by
  have ht := h.task t
  have hm := restoreBitmap_lt (list.map fun u => (s.tcb u).sp) ht.priBitmap
  rw [HpfSched.priorityRestore, hpfPriorityRestore]
  simp only
  split_ifs with h1 h2 h3 h4 h5
  · exact h.setOwner (.inr rfl) rfl ht.priority ht.priBitmap
  · exact h.setOwner (.inr rfl) rfl ht.priority (Word.clearBit_lt _ ht.priBitmap)
  · exact h.setOwner (.inr rfl) rfl ht.priority ht.priBitmap
  · exact h.setOwner (.inr rfl) rfl ht.priority ht.priBitmap
  · refine h.setOwner ?_ rfl (losLowBitGet_lt h5) (Word.clearBit_lt _ hm)
    cases hr : (s.tcb t).taskStatus.ready with
    | false => exact .inl rfl
    | true =>
      rcases hok hr with hk | hk | hk | hk | hk
      · exact absurd hk h1
      · exact absurd hk h2
      · exact absurd hk h4
      · exact absurd hk h5
      · exact .inr hk
  · exact h.setOwner (.inr rfl) rfl ht.priority hm

/-- siblings stands for the threads that join and leave a process. -/
inductive HpfCall where
  | create (t : Nat) (policy : HpfPolicy) (basePrio priority cpuAffiMask processCB : Nat)
  | siblings (processCB : Nat) (threads : List Nat)
  | start (t : Nat)
  | run (allowed : Nat → Bool)
  | preempt (t : Nat) (timeSlice : Int)
  | yield (t : Nat)
  | delay (t : Nat)
  | wait (t : Nat) (forever : Bool)
  | wake (t : Nat)
  | timeout (t : Nat)
  | suspend (t : Nat) (freeze : Bool)
  | resume (t : Nat) (expired : Bool)
  | exit (t : Nat)
  | paramModify (t : Nat) (policy : HpfPolicy) (basePrio priority : Nat)
  | inherit (owner : Nat) (param : SchedParam)
  | restore (owner : Nat) (list : List Nat) (param : SchedParam)

namespace HpfCall

def step (s : HpfSched) : HpfCall → HpfSched
  | create t policy basePrio priority cpuAffiMask processCB => s.hpfTaskSchedParamInit t policy basePrio priority cpuAffiMask processCB
  | siblings processCB threads => { s with threadSiblingList := Function.update s.threadSiblingList processCB threads }
  | start t => s.hpfEnqueue t
  | run allowed => ((hpfRunqueueTopTaskGet s.rq allowed).map s.hpfStartToRun).getD s
  | preempt t timeSlice => s.preempt t timeSlice
  | yield t => s.hpfYield t
  | delay t => s.hpfDelay t
  | wait t forever => s.hpfWait t forever
  | wake t => s.hpfWake t
  | timeout t => s.timeoutTaskWake t
  | suspend t freeze => s.hpfSuspend t freeze
  | resume t expired => s.hpfResume t expired
  | exit t => s.hpfExit t
  | paramModify t policy basePrio priority => s.hpfSchedParamModify t policy basePrio priority
  | inherit owner param => s.priorityInheritance owner param
  | restore owner list param => s.priorityRestore owner list param

/-- Which calls the kernel makes: the statuses are checked before, and the levels are those of the queue. -/
def Pre (s : HpfSched) : HpfCall → Prop
  | create t _ basePrio priority _ _ => (s.tcb t).taskStatus.unused = true ∧ basePrio < 32 ∧ priority < 32
  | start t => (s.tcb t).taskStatus.init = true ∧ (s.tcb t).taskStatus.suspended = false ∧ (s.tcb t).taskStatus.unused = false
  | preempt t _ | yield t | delay t | wait t _ => (s.tcb t).taskStatus.running = true
  | wake t => (s.tcb t).taskStatus.pending = true
  | suspend t _ => (s.tcb t).taskStatus.unused = false ∧ (s.tcb t).taskStatus.suspended = false
  | resume t _ => (s.tcb t).taskStatus.unused = false ∧ (s.tcb t).taskStatus.suspended = true
  | paramModify t _ basePrio priority => (s.tcb t).taskStatus.unused = false ∧ basePrio < 32 ∧ priority < 32
  | inherit _ param => param.priority < 32
  | siblings .. | run _ | timeout _ | exit _ | restore .. => True

instance (s : HpfSched) : (c : HpfCall) → Decidable (c.Pre s)
  | create .. | start _ | paramModify .. => inferInstanceAs (Decidable (_ ∧ _ ∧ _))
  | suspend .. | resume .. => inferInstanceAs (Decidable (_ ∧ _))
  | preempt .. | yield _ | delay _ | wait .. | wake _ => inferInstanceAs (Decidable (_ = _))
  | inherit .. => inferInstanceAs (Decidable (_ < _))
  | siblings .. | run _ | timeout _ | exit _ | restore .. => inferInstanceAs (Decidable True)

/-- The condition: no priority of a ready task is inherited or restored, and a new task that is suspended keeps its parameters. -/
def Ok (s : HpfSched) : HpfCall → Prop
  | paramModify t _ _ _ => (s.tcb t).taskStatus.init = true → (s.tcb t).taskStatus.suspended = false
  | inherit owner param => (s.tcb owner).taskStatus.ready = true → param.policy = none ∨ (s.tcb owner).sp.priority ≤ param.priority
  | restore owner list param => (s.tcb owner).taskStatus.ready = true → KeepsPriority s owner list param
  | _ => True

end HpfCall

theorem PrioInv.create (h : PrioInv s) (hu : (s.tcb t).taskStatus.unused = true) (hb : b < 32) (hp : p < 32) (policy : HpfPolicy)
    (mask process : Nat) : PrioInv (s.hpfTaskSchedParamInit t policy b p mask process) := by
  have hk : cbKey (s.tcb t) = none := by
    rw [cbKey, ((h.task t).unused hu).1]
    rfl
  refine ((h.but t).setTcb (hk ▸ rfl)).all ?_
  rw [setTcb_tcb]
  exact ⟨nofun,nofun,hb,hp,by norm_num,nofun⟩

theorem PrioInv.run (h : PrioInv s) (allowed : Nat → Bool) :
    PrioInv (((hpfRunqueueTopTaskGet s.rq allowed).map s.hpfStartToRun).getD s) := by
  have htop := h.queue.top allowed
  cases ht : hpfRunqueueTopTaskGet s.rq allowed with
  | none => exact h
  | some t =>
    rw [ht] at htop
    obtain ⟨-,b,p,hk,-⟩ := htop
    refine h.startToRun (t := t) ?_
    by_contra hr
    rw [cbKey, if_neg hr] at hk
    cases hk

/-- One call. -/
theorem HpfCall.step_inv (c : HpfCall) (h : PrioInv s) (hp : c.Pre s) (hok : c.Ok s) : PrioInv (c.step s) := by
  cases c with
  | create t policy b p mask process => exact h.create hp.1 hp.2.1 hp.2.2 policy mask process
  | siblings process threads => exact ⟨h.queue,h.task⟩
  | start t => exact h.start hp.1 hp.2.1 hp.2.2
  | run allowed => exact h.run allowed
  | preempt t timeSlice => exact h.preempt hp timeSlice
  | yield t => exact h.preempt hp 0
  | delay t => exact h.delay hp
  | wait t forever => exact h.wait hp forever
  | wake t => exact h.wake hp
  | timeout t => exact h.timeoutWake t
  | suspend t freeze => exact h.suspend hp.1 freeze
  | resume t expired => exact h.resume hp.1 hp.2 expired
  | exit t => exact h.exit t
  | paramModify t policy b p => exact ParamInv.paramModify ⟨h,hp.1,hok⟩ policy hp.2.1 hp.2.2
  | inherit owner param => exact h.inherit hp hok
  | restore owner list param => exact h.restore list param hok

/-- The law of the run queue: a ready task is linked in the list of its level and in no other, the counters and the bitmaps say
what the lists are, and the task that is chosen for a CPU is one of the first of those that may run there. -/
structure RunqueueLaw (s : HpfSched) : Prop where
  linked : ∀ t, (s.tcb t).taskStatus.ready = true → ∀ b p, t ∈ (s.rq.queueList b).priQueList p ↔
    b = (s.tcb t).sp.basePrio ∧ p = (s.tcb t).sp.priority
  once : ∀ b p, ((s.rq.queueList b).priQueList p).Nodup
  readyTasks : ∀ b p, (s.rq.queueList b).readyTasks p = ((s.rq.queueList b).priQueList p).length
  inner : ∀ b, ∀ p < 32, (s.rq.queueList b).queueBitmap.testBit (31 - p) = true ↔ (s.rq.queueList b).priQueList p ≠ []
  outer : ∀ b < 32, s.rq.queueBitmap.testBit (31 - b) = true ↔ (s.rq.queueList b).queueBitmap ≠ 0
  top : ∀ allowed, match hpfRunqueueTopTaskGet s.rq allowed with
    | some t => (s.tcb t).taskStatus.ready = true ∧ allowed t = true ∧
        ∀ u, (s.tcb u).taskStatus.ready = true → allowed u = true → (s.tcb t).sp.basePrio < (s.tcb u).sp.basePrio ∨
          (s.tcb t).sp.basePrio = (s.tcb u).sp.basePrio ∧ (s.tcb t).sp.priority ≤ (s.tcb u).sp.priority
    | none => ∀ u, (s.tcb u).taskStatus.ready = true → allowed u = false

private theorem cbKey_eq_some : cbKey cb = some (b,p) ↔ cb.taskStatus.ready = true ∧ cb.sp.basePrio = b ∧ cb.sp.priority = p := by
  rw [cbKey]
  split_ifs with hr
  · rw [Option.some.injEq, Prod.mk.injEq]
    exact ⟨fun h => ⟨hr,h⟩,fun h => h.2⟩
  · exact iff_of_false nofun fun h => hr h.1

theorem PrioInv.law (h : PrioInv s) : RunqueueLaw s := by
  refine ⟨fun t hr b p => ?_,h.queue.nodup,h.queue.readyTasks,h.queue.inner,h.queue.outer,fun allowed => ?_⟩
  · rw [h.queue.linked, cbKey_eq_some]
    exact ⟨fun hk => ⟨hk.2.1.symm,hk.2.2.symm⟩,fun hk => ⟨hr,hk.1.symm,hk.2.symm⟩⟩
  · have htop := h.queue.top allowed
    cases ht : hpfRunqueueTopTaskGet s.rq allowed with
    | none =>
      rw [ht] at htop
      intro u hr
      refine htop u fun hk => ?_
      rw [cbKey, if_pos hr] at hk
      cases hk
    | some t =>
      rw [ht] at htop
      obtain ⟨ha,b,p,hk,hleast⟩ := htop
      obtain ⟨hr,rfl,rfl⟩ := cbKey_eq_some.mp hk
      exact ⟨hr,ha,fun u hru hau => hleast u _ _ (cbKey_eq_some.mpr ⟨hru,rfl,rfl⟩) hau⟩

/-- No task is made yet. -/
def schedInit (slices : TimeSlices) : HpfSched where
  slices := slices
  tcb _ := ⟨⟨false,false,false,false,false,false,false,false,false,true⟩,⟨.rr,0,0,0,0⟩,0,0,0⟩
  rq := ⟨fun _ => ⟨fun _ => [],fun _ => 0,0⟩,0⟩
  threadSiblingList _ := []

def hpfSystem : Run.System HpfSched HpfCall where
  init s := ∃ slices, s = schedInit slices
  pre s c := c.Pre s
  run s c := c.step s

instance (s : HpfSched) (c : HpfCall) : Decidable (hpfSystem.pre s c) := inferInstanceAs (Decidable (c.Pre s))

abbrev HpfReachable := Run.Reachable hpfSystem

private theorem hpf_init {ok : HpfSched → HpfCall → Prop} (slices : TimeSlices) : HpfReachable ok (schedInit slices) := .init ⟨slices,rfl⟩

private theorem prioInv_init (slices : TimeSlices) : PrioInv (schedInit slices) := by
  refine ⟨⟨fun t b p => ?_,fun _ _ => List.nodup_nil,fun _ _ => rfl,nofun,fun _ => by norm_num [schedInit],fun b p _ => ?_,
    by norm_num [schedInit],fun b _ => ?_⟩,fun t => ⟨nofun,nofun,by norm_num [schedInit],by norm_num [schedInit],
    by norm_num [schedInit],fun _ => ⟨rfl,rfl,rfl,rfl,rfl⟩⟩⟩
  · exact iff_of_false List.not_mem_nil nofun
  · simp [schedInit]
  · simp [schedInit]

private theorem prioInv_of_reachable (h : HpfReachable (fun s c => c.Ok s) s) : PrioInv s :=
  h.invariant (fun _ ⟨slices,hs⟩ => hs ▸ prioInv_init slices) fun _ c hs hp hok => c.step_inv hs hp hok

/-- The run queue keeps its law along every run in which the priority of a ready task is not changed behind its back. -/
theorem runqueueLaw_of_reachable (s : HpfSched) (h : HpfReachable (fun s c => c.Ok s) s) : RunqueueLaw s :=
  (prioInv_of_reachable h).law

/-- Of two tasks of one process the second runs, and then the levels of both are changed: the first goes to the list of its new one. -/
theorem runqueueLaw_started : ∃ s, HpfReachable (fun s c => c.Ok s) s ∧ (s.tcb 8).taskStatus.running = true ∧
    (s.tcb 8).sp.basePrio = 9 ∧ (s.rq.queueList 10).priQueList 20 = [] ∧ (s.rq.queueList 9).priQueList 3 = [7] ∧ RunqueueLaw s := by
  have h1 : HpfReachable (fun s c => c.Ok s) _ := (hpf_init ⟨0,0,0⟩).call (.create 7 .rr 10 20 1 0) (by decide) trivial
  have h2 := h1.call (.create 8 .rr 10 5 1 0) (by decide) trivial
  have h3 := h2.call (.siblings 0 [7,8]) trivial trivial
  have h4 := h3.call (.start 7) (by decide) trivial
  have h5 := h4.call (.start 8) (by decide) trivial
  have h6 := h5.call (.run fun _ => true) trivial trivial
  have h7 := h6.call (.paramModify 7 .fifo 9 3) (by decide) fun _ => by decide
  exact ⟨_,h7,by decide,by decide,by decide,by decide,runqueueLaw_of_reachable _ h7⟩

/-- A task is preempted by one of a higher priority, which then waits for its mutex. The ready task inherits the priority, and
stays in the list of the old one. -/
theorem runqueueLaw_fails_inherit : ¬ ∀ s, HpfReachable (fun _ _ => True) s → RunqueueLaw s := by
  intro hall
  have h1 : HpfReachable (fun _ _ => True) _ := (hpf_init ⟨0,0,0⟩).call (.create 7 .rr 10 20 1 0) (by decide) trivial
  have h2 : HpfReachable (fun _ _ => True) _ := .call h1 (.start 7) (by decide) trivial
  have h3 : HpfReachable (fun _ _ => True) _ := .call h2 (.run fun _ => true) trivial trivial
  have h4 : HpfReachable (fun _ _ => True) _ := .call h3 (.create 8 .rr 10 5 1 0) (by decide) trivial
  have h5 : HpfReachable (fun _ _ => True) _ := .call h4 (.start 8) (by decide) trivial
  have h6 : HpfReachable (fun _ _ => True) _ := .call h5 (.preempt 7 0) (by decide) trivial
  have h7 : HpfReachable (fun _ _ => True) _ := .call h6 (.run fun _ => true) trivial trivial
  have h8 : HpfReachable (fun _ _ => True) _ := .call h7 (.inherit 7 ⟨some .rr,10,5⟩) (by decide) trivial
  have hlinked := (hall _ h8).linked 7 (by decide) 10 20
  exact absurd (hlinked.mp (by decide)) (by decide)

end LiteOsKernel.Sched.Priority
