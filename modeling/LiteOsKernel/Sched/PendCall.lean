import LiteOsKernel.Sched.TimeoutRun
import Mathlib.Data.List.InsertIdx

/-! Blocking calls on objects that have something to give, with the history of what was given and what was returned, and a task as
the blocking calls see it. -/
namespace LiteOsKernel.Sched.Timeout
open LiteOsKernel.Ipc

/-- What a blocking call returned: LOS_OK or the timeout, and whether the task had been given a token. -/
structure PendReturn where
  task : Nat
  object : Nat
  ok : Bool
  granted : Bool
  deriving DecidableEq

/-- The blocking call that a task is in: its object, its ticks and the response time that ops->waitTimeGet made of them. -/
structure Waiting where
  object : Nat
  ticks : Nat
  responseTime : Nat
  deriving DecidableEq

/-- A run with its history. count holds what each object has to give: the count of a semaphore, the messages or the free places
of a queue, or 1 for a mutex that is free. pend is the call that a task is in, and woken the tasks that were given a token and have
not returned with it. -/
structure PendHist where
  st : SchedState
  count : Nat → Nat
  pend : Nat → Option Waiting
  woken : List (Nat × Nat)
  posts : Nat → Nat
  done : List PendReturn

/-- sched is what the scheduler does besides: tasks start, run, yield, are delayed, suspended and resumed, time passes and the
timeout queues are scanned. -/
inductive PendCall where
  | pend (t object position ticks responseTime : Nat)
  | post (object : Nat) (e : EdfEnqueue)
  | ret (t : Nat)
  | sched (c : SchedCall)

/-- The calls of the scheduler that are not part of a blocking call or a post, by tasks that are in no blocking call. -/
def SchedCall.Apart (x : PendHist) : SchedCall → Prop
  | wait .. | wake .. | adjust .. | exit _ => False
  | delay t _ => x.pend t = none
  | start .. | run _ | yield .. | scanTake _ | scanWake .. | suspend .. | resume .. | clock _ => True

instance (x : PendHist) : (c : SchedCall) → Decidable (c.Apart x)
  | .wait .. | .wake .. | .adjust .. | .exit _ => inferInstanceAs (Decidable False)
  | .delay .. => inferInstanceAs (Decidable (_ = _))
  | .start .. | .run _ | .yield .. | .scanTake _ | .scanWake .. | .suspend .. | .resume .. | .clock _ => inferInstanceAs (Decidable True)

/-- The condition on a call of the scheduler: no deadline task that waits with a timeout times out; no frozen task in a pend list is
resumed after its response time; and between the two parts of a scan its task is neither frozen nor in another delay or timed wait. -/
def SchedCall.Grants (x : PendHist) : SchedCall → Prop
  | scanWake cpuid _ => ∀ t ∈ x.st.scanning cpuid,
      ((x.st.tcb t).ops = .edf → (x.st.tcb t).taskStatus.pending = true → ∀ w ∈ x.pend t, w.ticks = LOS_WAIT_FOREVER) ∧
      ((x.st.tcb t).taskStatus.pendTime = true ∨ (x.st.tcb t).taskStatus.delay = true → (x.st.tcb t).sortList.responseTime = none)
  | suspend t pm _ _ => pm = true → (x.st.tcb t).taskStatus.pendTime = true ∨ (x.st.tcb t).taskStatus.delay = true →
      (x.st.tcb t).sortList.responseTime ≠ none
  | resume t _ => (x.st.tcb t).taskStatus.frozen = true → (x.st.tcb t).taskStatus.pending = true →
      later (x.st.tcb t).sortList.responseTime (some x.st.currTime) = true
  | _ => True

instance (x : PendHist) : (c : SchedCall) → Decidable (c.Grants x)
  | .scanWake .. => inferInstanceAs (Decidable (∀ _ ∈ _, _ ∧ _))
  | .suspend .. => inferInstanceAs (Decidable (_ = true → _))
  | .resume .. => inferInstanceAs (Decidable (_ = true → _))
  | .wait .. | .wake .. | .adjust .. | .exit _ | .delay .. | .start .. | .run _ | .yield .. | .scanTake _ | .clock _ =>
    inferInstanceAs (Decidable True)

namespace PendCall

/-- none: a node is unlinked that is not linked. -/
def step (x : PendHist) : PendCall → Option PendHist
  | pend t object position ticks responseTime =>
    if 0 < x.count object then
      some { x with count := Function.update x.count object (x.count object - 1), done := x.done ++ [⟨t,object,true,true⟩] }
    else
      some { x with
        st := x.st.wait t object position ticks responseTime
        pend := Function.update x.pend t (some ⟨object,ticks,responseTime⟩) }
  | post object e =>
    let posts := Function.update x.posts object (x.posts object + 1)
    match x.st.pendList object with
    | [] => some { x with count := Function.update x.count object (x.count object + 1), posts := posts }
    | t :: _ => (x.st.wake t e).map fun st => { x with st := st, woken := (t,object) :: x.woken, posts := posts }
  | ret t =>
    match x.pend t with
    | none => some x
    | some w =>
      let st := (x.st.tcb t).taskStatus
      some { x with
        st := x.st.setStatus t { st with timeout := false }
        pend := Function.update x.pend t none
        woken := x.woken.erase (t,w.object)
        done := x.done ++ [⟨t,w.object,!st.timeout,decide ((t,w.object) ∈ x.woken)⟩] }
  | sched c => (c.step x.st).map fun st => { x with st := st }

/-- A task that calls runs and is in no other blocking call, and a task that returns runs. -/
def Pre (x : PendHist) : PendCall → Prop
  | pend t object position _ _ => (x.st.tcb t).taskStatus.running = true ∧ x.pend t = none ∧ position ≤ (x.st.pendList object).length
  | post .. => True
  | ret t => (x.st.tcb t).taskStatus.running = true ∧ x.pend t ≠ none
  | sched c => c.Pre x.st ∧ c.Apart x

instance (x : PendHist) : (c : PendCall) → Decidable (c.Pre x)
  | pend .. => inferInstanceAs (Decidable (_ ∧ _ ∧ _))
  | post .. => inferInstanceAs (Decidable True)
  | ret _ | sched _ => inferInstanceAs (Decidable (_ ∧ _))

/-- The condition: besides that of the scheduler's calls, no post finds a frozen task. -/
def Ok (x : PendHist) : PendCall → Prop
  | post object _ => ∀ t ∈ (x.st.pendList object).head?, (x.st.tcb t).taskStatus.frozen = false
  | sched c => c.Grants x
  | pend .. | ret _ => True

instance (x : PendHist) : (c : PendCall) → Decidable (c.Ok x)
  | post .. => inferInstanceAs (Decidable (∀ _ ∈ _, _))
  | sched c => inferInstanceAs (Decidable (c.Grants x))
  | pend .. | ret _ => inferInstanceAs (Decidable True)

end PendCall

/-- A task, the blocking call it is in, the pend lists it is on and the tokens it was given; taken says that a scan has its node. -/
structure TaskPend (cb : LosTaskCB) (call : Option Waiting) (on got : Nat → Prop) (taken : Prop) : Prop where
  init : cb.taskStatus.init = true → call = none
  edf : cb.ops = .edf → cb.taskStatus.ready = true ∨ cb.taskStatus.running = true ∨ cb.taskStatus.pending = true →
    cb.taskStatus.timeout = false
  listed : ∀ o, on o ↔ cb.taskStatus.pending = true ∧ call.map Waiting.object = some o
  idle : call = none → cb.taskStatus.pending = false ∧ (cb.ops = .hpf → cb.taskStatus.timeout = false)
  waits : cb.taskStatus.pending = true → cb.taskStatus.timeout = false ∧ ∀ o, ¬got o
  calls : ∀ o, got o → call.map Waiting.object = some o
  back : ∀ w ∈ call, cb.taskStatus.pending = false →
    (cb.ops = .hpf → (cb.taskStatus.timeout = false ↔ got w.object)) ∧ (cb.ops = .edf → got w.object)
  timed : ∀ w ∈ call, cb.taskStatus.pending = true → w.ticks ≠ LOS_WAIT_FOREVER →
    cb.taskStatus.pendTime = true ∧ (cb.sortList.responseTime = some w.responseTime ∨ taken)
  forever : cb.ops = .edf → ∀ w ∈ call, cb.taskStatus.pending = true → cb.taskStatus.pendTime = true → w.ticks = LOS_WAIT_FOREVER →
    cb.waitForever = true

structure PendInv (initCount : Nat → Nat) (x : PendHist) : Prop where
  sched : SchedInv True x.st
  task : ∀ t, TaskPend (x.st.tcb t) (x.pend t) (fun o => t ∈ x.st.pendList o) (fun o => (t,o) ∈ x.woken) (x.st.Taken t)
  nodup : ∀ o, (x.st.pendList o).Nodup
  woken : x.woken.Nodup
  done : ∀ r ∈ x.done, r.ok = true ↔ r.granted = true
  conserve : ∀ o, initCount o + x.posts o =
    x.count o + x.woken.countP (fun p => p.2 = o) + x.done.countP fun r => r.object = o ∧ r.ok = true

variable {s s' : SchedState} {t u c : Nat} {cb cb' : LosTaskCB} {call : Option Waiting} {on on' got got' : Nat → Prop} {e : EdfEnqueue}
  {taken taken' : Prop} {w : Waiting}

/-- A task keeps its call, and where it waits its response time. -/
theorem TaskPend.congr (h : TaskPend cb call on got taken) (ho : cb'.ops = cb.ops) (hi : cb'.taskStatus.init = cb.taskStatus.init)
    (hp : cb'.taskStatus.pending = cb.taskStatus.pending) (ht : cb'.taskStatus.timeout = cb.taskStatus.timeout)
    (hpt : cb'.taskStatus.pendTime = cb.taskStatus.pendTime) (hwf : cb'.waitForever = cb.waitForever)
    (hr : cb'.taskStatus.ready = true ∨ cb'.taskStatus.running = true → cb.taskStatus.ready = true ∨ cb.taskStatus.running = true)
    (hn : cb.taskStatus.pending = true → ∀ r, cb.sortList.responseTime = some r ∨ taken → cb'.sortList.responseTime = some r ∨ taken') :
    TaskPend cb' call on got taken' := by
  refine ⟨?_,?_,?_,?_,?_,h.calls,?_,fun w hw hc hf => ?_,?_⟩
  · rw [hi]
    exact h.init
  · rw [ho, hp, ht]
    exact fun ho hc => h.edf ho (or_assoc.mp ((or_assoc.mpr hc).imp_left hr))
  · rw [hp]
    exact h.listed
  · rw [hp, ho, ht]
    exact h.idle
  · rw [hp, ht]
    exact h.waits
  · rw [hp, ho, ht]
    exact h.back
  · rw [hp] at hc
    rw [hpt]
    exact ⟨(h.timed w hw hc hf).1,hn hc _ (h.timed w hw hc hf).2⟩
  · rw [ho, hp, hpt, hwf]
    exact h.forever

/-- A task that is on no pend list changes its status and its node. -/
theorem TaskPend.update (h : TaskPend cb call on got taken) (hops : cb'.ops = cb.ops) (hp : cb.taskStatus.pending = false)
    (hp' : cb'.taskStatus.pending = false) (ht : cb.ops = .hpf → cb'.taskStatus.timeout = cb.taskStatus.timeout)
    (hi : cb'.taskStatus.init = true → cb.taskStatus.init = true)
    (he : cb.ops = .edf → cb'.taskStatus.ready = true ∨ cb'.taskStatus.running = true → cb'.taskStatus.timeout = false) :
    TaskPend cb' call on got taken' := by
  have hno : cb'.taskStatus.pending ≠ true := by
    rw [hp']
    nofun
  refine ⟨fun hc => h.init (hi hc),fun ho hc => ?_,fun o => ?_,fun hc => ⟨hp',fun ho => ?_⟩,fun hc => absurd hc hno,h.calls,
    fun w hw _ => ⟨fun ho => ?_,fun ho => ?_⟩,fun w hw hc => absurd hc hno,fun _ w hw hc => absurd hc hno⟩
  all_goals try rw [hops] at ho
  · exact he ho (hc.imp_right fun hc => hc.resolve_right hno)
  · rw [h.listed o, hp, hp']
  · rw [ht ho]
    exact (h.idle hc).2 ho
  · rw [ht ho]
    exact (h.back w hw hp).1 ho
  · exact (h.back w hw hp).2 ho

theorem TaskPend.iff (h : TaskPend cb call on got taken) (hon : ∀ o, on' o ↔ on o) (hgot : ∀ o, got' o ↔ got o)
    (htaken : taken → taken') : TaskPend cb call on' got' taken' := by
  have h1 : on' = on := funext fun o => propext (hon o)
  have h2 : got' = got := funext fun o => propext (hgot o)
  rw [h1, h2]
  exact h.congr rfl rfl rfl rfl rfl rfl id fun _ _ => Or.imp_right htaken

/-- A task that waits for nothing is made ready, or waits for its next period. -/
theorem TaskPend.enqueue (h : TaskPend (s.tcb t) call on got taken) (hp : (s.tcb t).taskStatus.pending = false)
    (hr : (s.tcb t).taskStatus.ready = false) (hrun : (s.tcb t).taskStatus.running = false) (e : EdfEnqueue) :
    TaskPend ((s.enqueue t e).tcb t) call on got taken := by
  unfold SchedState.enqueue
  simp only
  split
  · rename_i ho
    rw [setStatus_tcb]
    exact h.update rfl hp rfl (fun _ => rfl) nofun fun hc => absurd (ho.symm.trans hc) (by decide)
  · rename_i ho
    rw [setStatus_tcb]
    exact h.update rfl hp rfl (fun hc => absurd (ho.symm.trans hc) (by decide)) nofun fun _ _ => rfl
  · rename_i ho
    rw [setTcb_tcb]
    exact h.update rfl hp rfl (fun hc => absurd (ho.symm.trans hc) (by decide)) nofun fun _ _ => rfl
  · rw [if_neg (by rw [hrun]; decide), setTcb_tcb, timeoutQueueAdd_tcb]
    refine h.update rfl hp hp (fun _ => rfl) id fun _ hc => ?_
    rcases hc with hc | hc
    · exact absurd (hr.symm.trans hc) (by decide)
    · exact absurd (hrun.symm.trans hc) (by decide)

/-- The task stops running; where it waits for a time its node goes into a queue with that time. -/
theorem taskSwitch_tcb (s : SchedState) (t r : Nat) : ((s.taskSwitch t r).tcb t).ops = (s.tcb t).ops ∧
    ((s.taskSwitch t r).tcb t).waitForever = (s.tcb t).waitForever ∧
    ((s.taskSwitch t r).tcb t).taskStatus = { (s.tcb t).taskStatus with running := false } ∧
    (((s.tcb t).taskStatus.ready = false ∧ ((s.tcb t).taskStatus.pendTime = true ∨ (s.tcb t).taskStatus.delay = true) →
      ((s.taskSwitch t r).tcb t).sortList.responseTime = some r)) := by
  unfold SchedState.taskSwitch
  simp only [setStatus_tcb]
  split_ifs with h1 h2
  · rw [setStatus_tcb]
    exact ⟨rfl,rfl,rfl,fun hc => absurd (hc.1.symm.trans h1) (by decide)⟩
  · rw [timeoutQueueAdd_tcb, setStatus_tcb]
    exact ⟨rfl,rfl,rfl,fun _ => rfl⟩
  · rw [setStatus_tcb]
    exact ⟨rfl,rfl,rfl,fun hc => absurd hc.2 h2⟩

/-- A task that has begun to wait. -/
theorem taskPend_of_wait (hi : cb.taskStatus.init = false) (hp : cb.taskStatus.pending = true) (ht : cb.taskStatus.timeout = false)
    (hn : w.ticks ≠ LOS_WAIT_FOREVER → cb.taskStatus.pendTime = true ∧ cb.sortList.responseTime = some w.responseTime)
    (hwf : cb.ops = .edf → w.ticks = LOS_WAIT_FOREVER → cb.waitForever = true)
    (hon : ∀ o, on o ↔ o = w.object) (hgot : ∀ o, ¬got o) : TaskPend cb (some w) on got taken := by
  refine ⟨fun hc => ?_,fun _ _ => ht,fun o => ?_,nofun,fun _ => ⟨ht,hgot⟩,fun o hc => absurd hc (hgot o),fun _ _ hc => ?_,
    fun w' hw _ hf => ?_,fun ho w' hw _ _ hf => ?_⟩
  · exact absurd (hi.symm.trans hc) (by decide)
  · rw [hon o, Option.map_some, Option.some.injEq]
    exact ⟨fun h => ⟨hp,h.symm⟩,fun h => h.2.symm⟩
  · exact absurd (hp.symm.trans hc) (by decide)
  · obtain rfl := Option.some.inj hw
    exact ⟨(hn hf).1,.inl (hn hf).2⟩
  · obtain rfl := Option.some.inj hw
    exact hwf ho hf

/-- A task that left its pend list, with a token or with the timeout, and is neither new, ready nor running. -/
theorem taskPend_of_left (hi : cb.taskStatus.init = false) (hr : cb.taskStatus.ready = false) (hrun : cb.taskStatus.running = false)
    (hp : cb.taskStatus.pending = false) (hon : ∀ o, ¬on o) (hgot : ∀ o, got o → o = w.object)
    (hback : (cb.ops = .hpf → (cb.taskStatus.timeout = false ↔ got w.object)) ∧ (cb.ops = .edf → got w.object)) :
    TaskPend cb (some w) on got taken := by
  refine ⟨fun hc => ?_,fun _ hc => ?_,fun o => ?_,nofun,fun hc => ?_,fun o hc => congrArg some (hgot o hc).symm,fun w' hw _ => ?_,
    fun _ _ hc => ?_,fun _ _ _ hc => ?_⟩
  · exact absurd (hi.symm.trans hc) (by decide)
  · simp [hr, hrun, hp] at hc
  · simp [hon o, hp]
  · exact absurd (hp.symm.trans hc) (by decide)
  · obtain rfl := Option.some.inj hw
    exact hback
  all_goals exact absurd (hp.symm.trans hc) (by decide)

/-- Two states that differ only in a task and its node. -/
structure Elsewhere (t : Nat) (s s' : SchedState) : Prop where
  tcb : ∀ u, u ≠ t → s'.tcb u = s.tcb u
  pendList : s'.pendList = s.pendList
  scanning : s'.scanning = s.scanning

theorem Elsewhere.trans {s'' : SchedState} (h : Elsewhere t s s') (h' : Elsewhere t s' s'') : Elsewhere t s s'' :=
  ⟨fun u hu => (h'.tcb u hu).trans (h.tcb u hu),h'.pendList.trans h.pendList,h'.scanning.trans h.scanning⟩

theorem elsewhere_setTcb (s : SchedState) (t : Nat) (cb : LosTaskCB) : Elsewhere t s (s.setTcb t cb) :=
  ⟨fun _ hu => Function.update_of_ne hu ..,rfl,rfl⟩

theorem elsewhere_setStatus (s : SchedState) (t : Nat) (st : TaskStatus) : Elsewhere t s (s.setStatus t st) := elsewhere_setTcb ..

theorem elsewhere_timeoutQueueAdd (s : SchedState) (t : Nat) (r : Option Nat) : Elsewhere t s (s.timeoutQueueAdd t r) :=
  ⟨fun _ hu => Function.update_of_ne hu ..,rfl,rfl⟩

theorem elsewhere_enqueue (s : SchedState) (t : Nat) (e : EdfEnqueue) : Elsewhere t s (s.enqueue t e) := by
  unfold SchedState.enqueue
  simp only
  split
  · exact elsewhere_setTcb ..
  · exact elsewhere_setTcb ..
  · exact elsewhere_setTcb ..
  · split_ifs
    · exact elsewhere_setTcb ..
    · exact (elsewhere_timeoutQueueAdd ..).trans (elsewhere_setTcb ..)

theorem elsewhere_taskSwitch (s : SchedState) (t r : Nat) : Elsewhere t s (s.taskSwitch t r) := by
  unfold SchedState.taskSwitch
  simp only
  split_ifs
  · exact elsewhere_setTcb ..
  · exact (elsewhere_setTcb ..).trans (elsewhere_timeoutQueueAdd ..)
  · exact elsewhere_setTcb ..

theorem deleteNode_some (h : s.deleteNodeSortLink c t = some s') :
    Elsewhere t s s' ∧ s'.tcb t = { s.tcb t with sortList := { (s.tcb t).sortList with responseTime := none } } := by
  rw [SchedState.deleteNodeSortLink] at h
  split_ifs at h
  rw [Option.some.injEq] at h
  subst h
  exact ⟨⟨fun u hu => Function.update_of_ne hu ..,rfl,rfl⟩,by simp [SchedState.setSortList]⟩

private theorem timeoutQueueDelete_some (h : s.timeoutQueueDelete t = some s') :
    Elsewhere t s s' ∧ s'.tcb t = { s.tcb t with sortList := { (s.tcb t).sortList with responseTime := none } } := by
  rw [SchedState.timeoutQueueDelete] at h
  split_ifs at h with hn
  · exact deleteNode_some h
  · rw [Option.some.injEq] at h
    rw [not_not] at hn
    subst h
    refine ⟨⟨fun _ _ => rfl,rfl,rfl⟩,?_⟩
    rw [← hn]

/-- The node of a task that is frozen keeps its response time. -/
theorem freeze_some {pm : Bool} (h : s.freeze t pm = some s') : Elsewhere t s s' ∧
    ∃ f, s'.tcb t = { s.tcb t with taskStatus := { (s.tcb t).taskStatus with frozen := f } } := by
  rw [SchedState.freeze] at h
  simp only at h
  split_ifs at h
  · rw [Option.some.injEq] at h
    subst h
    exact ⟨⟨fun _ _ => rfl,rfl,rfl⟩,_,rfl⟩
  · rw [Option.map_eq_some_iff] at h
    obtain ⟨s1,hd,rfl⟩ := h
    obtain ⟨h1,h2⟩ := timeoutQueueDelete_some hd
    refine ⟨h1.trans ((elsewhere_setTcb ..).trans (elsewhere_setTcb ..)),true,?_⟩
    simp [SchedState.setSortList, SchedState.setStatus, h2]

/-- What HPFWake and EDFWake do to a task that waits, where its node can be unlinked. -/
theorem wake_some {s'' : SchedState} (h : s.wake t e = some s'') : ∃ s1, (s1.tcb t).ops = (s.tcb t).ops ∧
    (s1.tcb t).taskStatus = { (s.tcb t).taskStatus with pending := false, pendTime := false } ∧
    Elsewhere t (s.listDelete t) s1 ∧ s'' = if (s1.tcb t).taskStatus.suspended then s1 else s1.enqueue t e := by
  rw [SchedState.wake] at h
  simp only [Option.map_eq_some_iff] at h
  obtain ⟨s1,h1,rfl⟩ := h
  refine ⟨s1,?_⟩
  split_ifs at h1 with hp
  · rw [Option.map_eq_some_iff] at h1
    obtain ⟨s2,hd,rfl⟩ := h1
    obtain ⟨he,hcb⟩ := timeoutQueueDelete_some hd
    rw [setStatus_tcb] at hcb
    refine ⟨?_,?_,(elsewhere_setStatus ..).trans (he.trans (elsewhere_setStatus ..)),rfl⟩
    all_goals
      rw [setStatus_tcb, hcb]
      rfl
  · rw [Option.some.injEq] at h1
    subst h1
    rw [setStatus_tcb, Bool.not_eq_true] at hp
    refine ⟨?_,?_,elsewhere_setStatus ..,rfl⟩
    · rw [setStatus_tcb]
      rfl
    · rw [setStatus_tcb, ← hp]
      rfl

end LiteOsKernel.Sched.Timeout
