import LiteOsKernel.Lib.Run
import LiteOsKernel.Sched.TimeoutQueue

/-! The timeout queues along any run: a node is linked exactly where its response time and its CPU say, also while a scan is
between the unlinking of a node and the waking of its task. -/
namespace LiteOsKernel.Sched.Timeout
open LiteOsKernel.Ipc

inductive SchedCall where
  | start (t : Nat) (e : EdfEnqueue)
  | run (t : Nat)
  | yield (t : Nat) (e : EdfEnqueue) (responseTime : Nat)
  | delay (t responseTime : Nat)
  | wait (t object position ticks responseTime : Nat)
  | wake (t : Nat) (e : EdfEnqueue)
  | scanTake (cpuid : Nat)
  | scanWake (cpuid : Nat) (e : EdfEnqueue)
  | adjust (t responseTime : Nat)
  | suspend (t : Nat) (pm checkOnRun : Bool) (responseTime : Nat)
  | resume (t : Nat) (e : EdfEnqueue)
  | exit (t : Nat)
  | clock (currTime : Nat)

namespace SchedCall

/-- none: a node is unlinked that is not linked. -/
def step (s : SchedState) : SchedCall → Option SchedState
  | start t e => some (s.enqueue t e)
  | run t => some (s.setStatus t { (s.tcb t).taskStatus with ready := false, running := true })
  | yield t e responseTime => some (s.yield t e responseTime)
  | delay t responseTime => some (s.delay t responseTime)
  | wait t object position ticks responseTime => some (s.wait t object position ticks responseTime)
  | wake t e => s.wake t e
  | scanTake cpuid => s.scanTake cpuid
  | scanWake cpuid e => some (s.scanWake cpuid e)
  | adjust t responseTime => s.timeoutQueueAdjust t responseTime
  | suspend t pm checkOnRun responseTime => s.suspend t pm checkOnRun responseTime
  | resume t e => some (s.resume t e)
  | exit t => s.exit t
  | clock currTime => some { s with currTime := currTime }

/-- A new task is started in its first period, a task that waits or yields runs, a task that is woken waits, a CPU scans its queue
one node after the other, and the clock does not go back. -/
def Pre (s : SchedState) : SchedCall → Prop
  | start t e => (s.tcb t).taskStatus.init = true ∧ (s.tcb t).taskStatus.suspended = false ∧ e = .newPeriod
  | run t => (s.tcb t).taskStatus.ready = true
  | yield t _ _ | delay t _ => (s.tcb t).taskStatus.running = true
  | wait t object position _ _ => (s.tcb t).taskStatus.running = true ∧ position ≤ (s.pendList object).length
  | wake t _ => (s.tcb t).taskStatus.pending = true
  | clock currTime => s.currTime ≤ currTime
  | scanTake cpuid => cpuid < s.coreNum ∧ s.scanning cpuid = none
  | scanWake cpuid _ => s.scanning cpuid ≠ none
  | adjust .. | suspend .. | resume .. | exit .. => True

instance (s : SchedState) : (c : SchedCall) → Decidable (c.Pre s)
  | start .. => inferInstanceAs (Decidable (_ ∧ _ ∧ _))
  | run _ | yield .. | delay .. | wake .. => inferInstanceAs (Decidable (_ = _))
  | wait .. | scanTake _ => inferInstanceAs (Decidable (_ ∧ _))
  | clock _ => inferInstanceAs (Decidable (_ ≤ _))
  | scanWake .. => inferInstanceAs (Decidable (_ ≠ _))
  | adjust .. | suspend .. | resume .. | exit _ => inferInstanceAs (Decidable True)

/-- The condition: no task that is delayed or waits with a timeout is frozen, and a task that was woken after a scan had taken its
node off does not begin another delay or timed wait before the scan wakes it. -/
def Ok (s : SchedState) : SchedCall → Prop
  | suspend t pm _ _ => pm = true → (s.tcb t).taskStatus.pendTime = false ∧ (s.tcb t).taskStatus.delay = false
  | scanWake cpuid _ => ∀ t ∈ s.scanning cpuid, (s.tcb t).taskStatus.pendTime = true ∨ (s.tcb t).taskStatus.delay = true →
      (s.tcb t).sortList.responseTime = none
  | _ => True

instance (s : SchedState) : (c : SchedCall) → Decidable (c.Ok s)
  | suspend .. => inferInstanceAs (Decidable (_ = true → _))
  | scanWake .. => inferInstanceAs (Decidable (∀ _ ∈ _, _))
  | start .. | run _ | yield .. | delay .. | wait .. | wake .. | scanTake _ | adjust .. | resume .. | exit _ | clock _ =>
    inferInstanceAs (Decidable True)

/-- What the queues need of a call: no frozen task is woken, adjusted or ends, and no task is frozen whose node is not linked;
freezing says that tasks may be frozen at all. -/
def Safe (freezing : Prop) (s : SchedState) : SchedCall → Prop
  | wake t _ | adjust t _ | exit t => (s.tcb t).taskStatus.frozen = false
  | suspend t pm _ _ => pm = true → (s.tcb t).taskStatus.pendTime = true ∨ (s.tcb t).taskStatus.delay = true →
      freezing ∧ (s.tcb t).sortList.responseTime ≠ none
  | scanWake cpuid _ => ∀ t ∈ s.scanning cpuid, (s.tcb t).taskStatus.pendTime = true ∨ (s.tcb t).taskStatus.delay = true →
      (s.tcb t).sortList.responseTime = none
  | _ => True

end SchedCall

variable {s : SchedState} {t c : Nat} {st : TaskStatus} {e : EdfEnqueue} {freezing : Prop}

theorem SchedInv.start (h : SchedInv freezing s) (hi : (s.tcb t).taskStatus.init = true)
    (hs : (s.tcb t).taskStatus.suspended = false) : SchedInv freezing (s.enqueue t .newPeriod) := by
  have ht := h.task t
  obtain ⟨hn,hf⟩ := ht.at_work (.inl hi)
  exact (h.but t).enqueue rfl hn hf hs (ht.status.init hi).2 (ht.status.free (.inl hi)).1 (.inl rfl)

theorem SchedInv.runTask (h : SchedInv freezing s) (hr : (s.tcb t).taskStatus.ready = true) :
    SchedInv freezing (s.setStatus t { (s.tcb t).taskStatus with ready := false, running := true }) := by
  have ht := h.task t
  have hs := ht.status
  obtain ⟨hn,hf⟩ := ht.at_work (.inr (.inl hr))
  obtain ⟨h1,h2,h3⟩ := hs.free (.inr (.inl hr))
  refine ((h.but t).setStatus _).all ?_
  rw [setStatus_tcb]
  refine taskInv_of_unlinked ⟨fun _ => ⟨h1,h2,h3⟩,fun hc => ?_,fun _ => rfl,fun hc => ?_,hs.pending,hs.hpf⟩ hn hf fun hc => ?_
  · exact absurd (hr.symm.trans (hs.init hc).1) (by decide)
  · exact absurd (hr.symm.trans (hs.suspended hc).1) (by decide)
  · simp [h2, h3] at hc

theorem SchedInv.delay (h : SchedInv freezing s) (hr : (s.tcb t).taskStatus.running = true) (r : Nat) :
    SchedInv freezing (s.delay t r) := by
  have ht := h.task t
  have hs := ht.status
  obtain ⟨hn,hf⟩ := ht.at_work (.inr (.inr hr))
  obtain ⟨h1,h2,h3⟩ := hs.free (.inr (.inr hr))
  refine ((h.but t).setStatus _).taskSwitch ?_ ?_ ?_ r
  · rw [setStatus_tcb]
    exact hn
  · rw [setStatus_tcb]
    exact hf
  · rw [setStatus_tcb]
    refine statusInv_of_blocked (hs.of_running hr).1 (hs.single hr) rfl (fun hc => ?_) hs.hpf
    exact absurd (h1.symm.trans hc) (by decide)

theorem SchedInv.wait (h : SchedInv freezing s) (hr : (s.tcb t).taskStatus.running = true) (object position ticks r : Nat) :
    SchedInv freezing (s.wait t object position ticks r) := by
  have ht := h.task t
  have hs := ht.status
  obtain ⟨hn,hf⟩ := ht.at_work (.inr (.inr hr))
  have hd := (hs.free (.inr (.inr hr))).2.2
  have hi := (hs.of_running hr).1
  have hb : SchedInvBut freezing
      { s with pendList := Function.update s.pendList object ((s.pendList object).insertIdx position t) } t :=
    ⟨h.link.congr rfl rfl (fun _ => rfl) fun _ => rfl,fun u _ => h.task u⟩
  unfold SchedState.wait
  cases ho : (s.tcb t).ops with
  | hpf =>
    simp only [ho]
    refine (hb.setTcb ?_ ?_).taskSwitch ?_ ?_ ?_ r
    · rfl
    · rfl
    all_goals rw [setTcb_tcb]
    · exact hn
    · exact hf
    · exact statusInv_of_blocked hi (hs.single hr) rfl (fun _ => hd) fun _ _ => rfl
  | edf =>
    simp only [ho]
    refine (hb.setTcb ?_ ?_).taskSwitch ?_ ?_ ?_ r
    · rfl
    · rfl
    all_goals rw [setTcb_tcb]
    · exact hn
    · exact hf
    · exact statusInv_of_blocked hi (hs.single hr) rfl (fun _ => hd) fun _ _ => rfl

theorem SchedInv.yield (h : SchedInv freezing s) (hr : (s.tcb t).taskStatus.running = true) (e : EdfEnqueue) (r : Nat) :
    SchedInv freezing (s.yield t e r) := by
  have ht := h.task t
  have hs := ht.status
  obtain ⟨hn,hf⟩ := ht.at_work (.inr (.inr hr))
  obtain ⟨hi,hsus⟩ := hs.of_running hr
  have hready : ∀ b, StatusInv (s.tcb t).ops
      { (s.tcb t).taskStatus.clearBlocked with timeout := b, ready := true, running := false } := fun b =>
    statusInv_of_ready rfl rfl hsus rfl rfl rfl
  unfold SchedState.yield SchedState.enqueue
  cases ho : (s.tcb t).ops with
  | hpf =>
    refine ((h.but t).setStatus _ ?_).taskSwitch ?_ ?_ ?_ r
    · rfl
    all_goals rw [setStatus_tcb]
    · exact hn
    · exact hf
    · exact hready _
  | edf =>
    cases e with
    | timeSlice =>
      refine ((h.but t).setStatus _ ?_).taskSwitch ?_ ?_ ?_ r
      · rfl
      all_goals rw [setStatus_tcb]
      · exact hn
      · exact hf
      · exact hready _
    | newPeriod =>
      refine ((h.but t).setTcb ?_ ?_).taskSwitch ?_ ?_ ?_ r
      · rfl
      · rfl
      all_goals rw [setTcb_tcb]
      · exact hn
      · exact hf
      · exact hready _
    | nextPeriod finishTime =>
      simp only [hr, if_true]
      refine ((h.but t).setTcb ?_ ?_).taskSwitch ?_ ?_ ?_ r
      · rfl
      · rfl
      all_goals rw [setTcb_tcb]
      · exact hn
      · exact hf
      · refine statusInv_of_blocked hi (hs.single hr) rfl hs.pending fun hc => ?_
        exact absurd (ho.symm.trans hc) (by decide)

theorem SchedInv.wake (h : SchedInv freezing s) (hp : (s.tcb t).taskStatus.pending = true)
    (hf : (s.tcb t).taskStatus.frozen = false) (e : EdfEnqueue) : ∃ s', s.wake t e = some s' ∧ SchedInv freezing s' := by
  have ht := h.task t
  have hd := ht.status.pending hp
  obtain ⟨hi,hr,hrun⟩ := ht.status.blocked (.inl hp)
  have hb := ((h.but t).listDelete t).setStatus { (s.tcb t).taskStatus with pending := false }
  have hleft : ∃ s1, (if (s.tcb t).taskStatus.pendTime = true then
        ((s.listDelete t).setStatus t { (s.tcb t).taskStatus with pending := false }).timeoutQueueDelete t |>.map
          fun s => s.setStatus t { (s.tcb t).taskStatus with pendTime := false }
      else some ((s.listDelete t).setStatus t { (s.tcb t).taskStatus with pending := false })) = some s1 ∧ SchedInvBut freezing s1 t ∧
      (s1.tcb t).taskStatus = { (s.tcb t).taskStatus with pending := false, pendTime := false } ∧
      (s1.tcb t).sortList.responseTime = none := by
    split_ifs with hpt
    · obtain ⟨s1,he,hb1,hst,hn⟩ := hb.leaveQueue (by rw [setStatus_tcb]; exact hf) (fun st => { st with pendTime := false }) fun _ => rfl
      rw [setStatus_tcb] at hst
      exact ⟨s1,he,hb1,hst,hn⟩
    · have hn := ht.unlinked (by rw [hd]; exact fun hc => hc.elim hpt (by decide))
      rw [Bool.not_eq_true] at hpt
      refine ⟨_,rfl,hb,?_,?_⟩
      · rw [setStatus_tcb, ← hpt]
      · rw [setStatus_tcb]
        exact hn
  obtain ⟨s1,he,hb1,hst,hn⟩ := hleft
  refine ⟨if (s1.tcb t).taskStatus.suspended then s1 else s1.enqueue t e,?_,?_⟩
  · rw [SchedState.wake]
    simp only [setStatus_tcb, listDelete_tcb]
    rw [he]
    rfl
  · split_ifs with hs
    · refine hb1.all (taskInv_of_unlinked (statusInv_of_idle ?_ ?_ ?_ ?_ ?_) hn ?_ ?_)
      all_goals simp [hst, hf, hr, hrun, hd]
    · refine hb1.enqueue hst hn hf ?_ hrun rfl (.inr ⟨hi,hr⟩)
      rw [hst] at hs
      exact Bool.eq_false_iff.mpr hs

private theorem status_of_listless (hr : st.ready = false) (hp : st.pending = false) : st = { st with ready := false, pending := false } := by
  cases st
  simp_all

private theorem status_of_timeless (hd : st.delay = false) (hp : st.pendTime = false) : st = { st with delay := false, pendTime := false } := by
  cases st
  simp_all

theorem SchedInv.exit (h : SchedInv freezing s) (hf : (s.tcb t).taskStatus.frozen = false) :
    ∃ s', s.exit t = some s' ∧ SchedInv freezing s' := by
  have ht := h.task t
  -- the first step: the task is in no ready queue and no pend list
  have hfirst : ∃ s1, (if (s.tcb t).taskStatus.ready then s.setStatus t { (s.tcb t).taskStatus with ready := false }
      else if (s.tcb t).taskStatus.pending then (s.listDelete t).setStatus t { (s.tcb t).taskStatus with pending := false }
      else s) = s1 ∧ SchedInvBut freezing s1 t ∧ (s1.tcb t).sortList = (s.tcb t).sortList ∧
      (s1.tcb t).taskStatus = { (s.tcb t).taskStatus with ready := false, pending := false } := by
    refine ⟨_,rfl,?_⟩
    split_ifs with hr hp
    · refine ⟨(h.but t).setStatus _,?_,?_⟩
      · rw [setStatus_tcb]
      · rw [setStatus_tcb, ← (ht.status.free (.inr (.inl hr))).1]
    · refine ⟨((h.but t).listDelete t).setStatus _,?_,?_⟩
      · rw [setStatus_tcb]
        rfl
      · rw [setStatus_tcb, ← Bool.eq_false_iff.mpr hr]
    · refine ⟨h.but t,rfl,?_⟩
      exact status_of_listless (Bool.eq_false_iff.mpr hr) (Bool.eq_false_iff.mpr hp)
  obtain ⟨s1,he1,hb1,hl1,hst1⟩ := hfirst
  -- the second step: the task is in no timeout queue
  have hsecond : ∃ s2, (if (s1.tcb t).taskStatus.delay = true ∨ (s1.tcb t).taskStatus.pendTime = true then
        (s1.timeoutQueueDelete t).map fun s => s.setStatus t { (s.tcb t).taskStatus with delay := false, pendTime := false }
      else some s1) = some s2 ∧ SchedInvBut freezing s2 t ∧ (s2.tcb t).sortList.responseTime = none ∧
      (s2.tcb t).taskStatus = { (s1.tcb t).taskStatus with delay := false, pendTime := false } := by
    split_ifs with hd
    · obtain ⟨s2,he,hb,hst,hn⟩ :=
        hb1.leaveQueue (by rw [hst1]; exact hf) (fun st => { st with delay := false, pendTime := false }) fun _ => rfl
      exact ⟨s2,he,hb,hn,hst⟩
    · rw [hst1] at hd
      rw [not_or, Bool.not_eq_true, Bool.not_eq_true] at hd
      refine ⟨s1,rfl,hb1,?_,?_⟩
      · rw [hl1]
        exact ht.unlinked fun hc => hc.elim (fun hc => absurd (hd.2.symm.trans hc) (by decide)) fun hc => absurd (hd.1.symm.trans hc) (by decide)
      · rw [hst1]
        exact status_of_timeless hd.1 hd.2
  obtain ⟨s2,he2,hb2,hn2,hst2⟩ := hsecond
  refine ⟨s2.setStatus t { (s2.tcb t).taskStatus with running := false, unused := true },?_,(hb2.setStatus _).all ?_⟩
  · unfold SchedState.exit
    simp only [he1, he2]
    rfl
  · rw [setStatus_tcb]
    refine taskInv_of_unlinked (statusInv_of_idle ?_ rfl ?_ ?_ ?_) hn2 ?_ ?_
    all_goals simp [hst2, hst1, hf]

theorem SchedInv.suspend {pm : Bool} (h : SchedInv freezing s) (checkOnRun : Bool) (r : Nat)
    (hok : pm = true → (s.tcb t).taskStatus.pendTime = true ∨ (s.tcb t).taskStatus.delay = true →
      freezing ∧ (s.tcb t).sortList.responseTime ≠ none) :
    ∃ s', s.suspend t pm checkOnRun r = some s' ∧ SchedInv freezing s' := by
  have ht := h.task t
  have hs := ht.status
  unfold SchedState.suspend
  simp only
  by_cases h1 : (s.tcb t).taskStatus.unused = true ∨ (s.tcb t).taskStatus.suspended = true ∨
      (s.tcb t).taskStatus.running = true ∧ checkOnRun = false ∨ (s.tcb t).ops = .edf
  · rw [if_pos h1]
    exact ⟨s,rfl,h⟩
  · rw [if_neg h1]
    rw [not_or, not_or] at h1
    have hf : (s.tcb t).taskStatus.frozen = false := Bool.eq_false_iff.mpr fun hc => h1.2.1 (ht.frozen hc).2.1
    -- the task is not ready any more
    have hfirst : ∃ s1, (if (s.tcb t).taskStatus.ready then s.setStatus t { (s.tcb t).taskStatus with ready := false } else s) = s1 ∧
        SchedInvBut freezing s1 t ∧ s1.scanning = s.scanning ∧
        s1.tcb t = { s.tcb t with taskStatus := { (s.tcb t).taskStatus with ready := false } } := by
      refine ⟨_,rfl,?_⟩
      split_ifs with hr
      · exact ⟨(h.but t).setStatus _,rfl,setStatus_tcb ..⟩
      · refine ⟨h.but t,rfl,?_⟩
        rw [← Bool.eq_false_iff.mpr hr]
    obtain ⟨s1,he1,hb1,hscan1,hcb1⟩ := hfirst
    obtain ⟨s2,he2,hb2,hscan2,hcb2⟩ := hb1.freeze (by rw [hcb1]; exact hf) pm
    rw [he1, he2]
    refine ⟨_,rfl,?_⟩
    simp only [hcb1] at hcb2
    have hb3 := hb2.setStatus { (s2.tcb t).taskStatus with suspended := true }
    split_ifs with hrun
    · obtain ⟨hn,-⟩ := ht.at_work (.inr (.inr hrun))
      obtain ⟨h2,h3,h4⟩ := hs.free (.inr (.inr hrun))
      refine hb3.taskSwitch ?_ ?_ ?_ r
      all_goals rw [setStatus_tcb, hcb2]
      · exact hn
      · simp [h3, h4]
      · exact statusInv_of_idle rfl rfl h2 h3 h4
    · rw [Bool.not_eq_true] at hrun
      refine hb3.all ?_
      rw [setStatus_tcb, hcb2]
      refine ⟨⟨fun hc => ?_,fun _ => ⟨rfl,hrun⟩,fun _ => rfl,fun _ => ⟨rfl,hrun⟩,hs.pending,hs.hpf⟩,fun hc => ?_,ht.timed,fun hc => ?_⟩
      · exact hs.free (hc.imp_right fun hc => hc.elim nofun .inr)
      · simp only [Bool.and_eq_true, Bool.or_eq_true] at hc
        obtain ⟨h1,h2⟩ := hok hc.1 hc.2
        exact ⟨h1,rfl,h2⟩
      · refine (ht.waits hc).imp_right fun ⟨d,hd⟩ => ⟨d,?_⟩
        exact (congrFun (hscan2.trans hscan1) d).trans hd

theorem SchedInv.resume (h : SchedInv freezing s) (t : Nat) (e : EdfEnqueue) : SchedInv freezing (s.resume t e) := by
  unfold SchedState.resume
  simp only
  split_ifs with h1 h2
  · exact h
  all_goals
    obtain ⟨hu,hf,hops,hsus⟩ := h.unfreeze t
    generalize s.unfreeze t = s1 at *
    rw [not_or, not_or, not_not, ← hsus] at h1
    have ht := hu.task t
    have hs := ht.status
    obtain ⟨hr,hrun⟩ := hs.suspended h1.2.1
  · refine ((hu.but t).setStatus _).all ?_
    rw [setStatus_tcb]
    exact ⟨⟨hs.free,hs.init,hs.single,nofun,hs.pending,hs.hpf⟩,fun hc => absurd (hf.symm.trans hc) (by decide),ht.timed,ht.waits⟩
  · rw [setStatus_tcb, not_or, Bool.not_eq_true, Bool.not_eq_true] at h2
    have ho : (s1.tcb t).ops = .hpf := by
      cases ho : (s1.tcb t).ops with
      | hpf => rfl
      | edf => exact absurd (hops.symm.trans ho) h1.2.2
    have hn := ht.unlinked fun hc => hc.elim (fun hc => absurd (h2.1.symm.trans (hs.hpf ho hc)) (by decide))
      fun hc => absurd (h2.2.symm.trans hc) (by decide)
    unfold SchedState.enqueue
    rw [setStatus_tcb]
    simp only [ho]
    refine (((hu.but t).setStatus _).setStatus _).all ?_
    rw [setStatus_tcb, setStatus_tcb]
    exact taskInv_of_unlinked (statusInv_of_ready rfl hrun rfl rfl rfl rfl) hn hf fun hc => hc.elim nofun nofun

/-- The node of a task is taken off its queue where it is due. -/
theorem SchedInv.scanTake (h : SchedInv freezing s) (hfree : s.scanning c = none) : ∃ s', s.scanTake c = some s' ∧ SchedInv freezing s' := by
  rw [SchedState.scanTake]
  cases hq : (s.timeoutQueue c).sortLink with
  | nil => exact ⟨s,rfl,h⟩
  | cons t rest =>
    simp only
    split_ifs with hl
    · exact ⟨s,rfl,h⟩
    · obtain ⟨hn,hc,hf⟩ := (h.link.linked t c).mp (hq ▸ List.mem_cons_self)
      obtain ⟨s1,he,hl1,-,hscan,htcb⟩ := h.link.deleteNode hc hn hf
      rw [he, Option.map_some]
      refine ⟨_,rfl,hl1.congr rfl rfl (fun _ => rfl) fun _ => rfl,fun u => ?_⟩
      rw [SchedState.Taken]
      simp only [htcb, hscan]
      by_cases hu : u = t
      · subst hu
        rw [Function.update_self]
        exact taskInv_of_unlinked (h.task u).status rfl hf fun _ => ⟨c,Function.update_self ..⟩
      · rw [Function.update_of_ne hu]
        have ht := h.task u
        refine ⟨ht.status,ht.frozen,ht.timed,fun hc => (ht.waits hc).imp_right (Exists.imp fun d hd => ?_)⟩
        have hdc : d ≠ c := fun hdc => Option.some_ne_none u (hd.symm.trans (hdc ▸ hfree))
        exact (Function.update_of_ne hdc ..).trans hd

/-- The task of a scan is woken where it waits still. -/
theorem SchedInv.scanWake (h : SchedInv freezing s) (hok : (SchedCall.scanWake c e).Safe freezing s) :
    SchedInv freezing (s.scanWake c e) := by
  rw [SchedState.scanWake]
  cases hc : s.scanning c with
  | none => exact h
  | some t =>
    have ht := h.task t
    have hn : (s.tcb t).sortList.responseTime = none := by
      by_contra hn
      exact hn (hok t hc (ht.timed hn))
    have hf := ht.thawed hn
    have hb : SchedInvBut freezing { s with scanning := Function.update s.scanning c none } t := by
      refine ⟨h.link.congr rfl rfl (fun _ => rfl) fun _ => rfl,fun u hu => ?_⟩
      have hut := h.task u
      refine ⟨hut.status,hut.frozen,hut.timed,fun hw => (hut.waits hw).imp_right fun ⟨d,hd⟩ => ⟨d,?_⟩⟩
      refine (Function.update_of_ne (fun hdc => hu ?_) ..).trans hd
      exact Option.some.inj (hd.symm.trans (hdc ▸ hc))
    simp only [SchedState.timeoutTaskWake, SchedState.timeoutWaitForever]
    split_ifs with hw
    · refine (hb.setTcb ?_ ?_).timeoutTaskEnd rfl ?_ ?_ ?_ e
      · rfl
      · rfl
      all_goals rw [setTcb_tcb]
      · exact hn
      · exact hf
      · have hs := ht.status
        refine ⟨fun hc => ?_,hs.init,hs.single,hs.suspended,hs.pending,fun _ => nofun⟩
        obtain ⟨h1,-,h3⟩ := hs.free hc
        exact ⟨h1,rfl,h3⟩
    · exact hb.timeoutTaskEnd rfl hn hf ht.status e

theorem SchedInv.adjust (h : SchedInv freezing s) (hf : (s.tcb t).taskStatus.frozen = false) (r : Nat) :
    ∃ s', s.timeoutQueueAdjust t r = some s' ∧ SchedInv freezing s' := by
  unfold SchedState.timeoutQueueAdjust
  simp only
  split_ifs with hn
  · have ht := h.task t
    have hcpu := h.link.cpu t hn
    obtain ⟨s1,he,hl1,hcore,hscan,htcb⟩ := h.link.deleteNode rfl hn hf
    refine ⟨_,by rw [he]; rfl,?_,fun u => ?_⟩
    · refine hl1.addNode ?_ ?_ (hcore ▸ hcpu) r
      all_goals rw [htcb, Function.update_self]
      exact hf
    · by_cases hu : u = t
      · subst hu
        simp only [SchedState.addNode, SchedState.setSortList, setTcb_tcb]
        rw [htcb, Function.update_self]
        exact taskInv_of_linked ht.status (Option.some_ne_none _) hf (ht.timed hn)
      · simp only [SchedState.addNode, SchedState.setSortList, SchedState.setTcb, Function.update_of_ne hu]
        rw [htcb, Function.update_of_ne hu, SchedState.Taken, hscan]
        exact h.task u
  · exact ⟨s,rfl,h⟩

/-- A call that is safe unlinks only what is linked. -/
theorem SchedCall.step_inv (c : SchedCall) (h : SchedInv freezing s) (hp : c.Pre s) (hok : c.Safe freezing s) :
    ∃ s', c.step s = some s' ∧ SchedInv freezing s' := by
  cases c with
  | start t e =>
    obtain ⟨hi,hs,rfl⟩ := hp
    exact ⟨_,rfl,h.start hi hs⟩
  | run t => exact ⟨_,rfl,h.runTask hp⟩
  | yield t e r => exact ⟨_,rfl,h.yield hp e r⟩
  | delay t r => exact ⟨_,rfl,h.delay hp r⟩
  | wait t object position ticks r => exact ⟨_,rfl,h.wait hp.1 object position ticks r⟩
  | wake t e => exact h.wake hp hok e
  | scanTake c => exact h.scanTake hp.2
  | scanWake c e => exact ⟨_,rfl,h.scanWake hok⟩
  | adjust t r => exact h.adjust hok r
  | suspend t pm checkOnRun r => exact h.suspend checkOnRun r hok
  | resume t e => exact ⟨_,rfl,h.resume t e⟩
  | exit t => exact h.exit hok
  | clock n => exact ⟨_,rfl,h.link.congr rfl rfl (fun _ => rfl) fun _ => rfl,h.task⟩

/-- Where no task is frozen, the condition makes a call safe. -/
theorem SchedCall.Ok.safe {c : SchedCall} (h : SchedInv False s) (hok : c.Ok s) : c.Safe False s := by
  have hf : ∀ t, (s.tcb t).taskStatus.frozen = false := fun t => Bool.eq_false_iff.mpr fun hc => ((h.task t).frozen hc).1
  cases c with
  | suspend t pm checkOnRun r =>
    intro hpm hw
    obtain ⟨h1,h2⟩ := hok hpm
    simp [h1, h2] at hw
  | scanWake c e => exact hok
  | wake t | adjust t | exit t => exact hf t
  | start | run | yield | delay | wait | scanTake | resume | clock => trivial

/-- Also where it freezes a task, LOS_TaskSuspend unlinks only a linked node. -/
private theorem SchedInv.suspend_ne_none (h : SchedInv False s) (t : Nat) (pm checkOnRun : Bool) (r : Nat) :
    s.suspend t pm checkOnRun r ≠ none := by
  have hf : (s.tcb t).taskStatus.frozen = false := Bool.eq_false_iff.mpr fun hc => ((h.task t).frozen hc).1
  unfold SchedState.suspend
  simp only
  by_cases h1 : (s.tcb t).taskStatus.unused = true ∨ (s.tcb t).taskStatus.suspended = true ∨
      (s.tcb t).taskStatus.running = true ∧ checkOnRun = false ∨ (s.tcb t).ops = .edf
  · rw [if_pos h1]
    nofun
  have hfreeze : ∃ s1, (if (s.tcb t).taskStatus.ready = true then s.setStatus t { (s.tcb t).taskStatus with ready := false }
      else s).freeze t pm = some s1 := by
    split_ifs
    · obtain ⟨s1,he,-⟩ :=
        ((h.but t).setStatus { (s.tcb t).taskStatus with ready := false }).freeze (by rw [setStatus_tcb]; exact hf) pm
      exact ⟨s1,he⟩
    · obtain ⟨s1,he,-⟩ := (h.but t).freeze hf pm
      exact ⟨s1,he⟩
  obtain ⟨s1,he⟩ := hfreeze
  rw [if_neg h1, he]
  nofun

/-- The law of the timeout queues: a node is linked in exactly the queue of its CPU iff its response time is valid, each queue
counts its nodes, and no call unlinks a node that is not linked. -/
structure TimeoutLaw (s : SchedState) : Prop where
  linked : ∀ t c, t ∈ (s.timeoutQueue c).sortLink ↔ (s.tcb t).sortList.responseTime ≠ none ∧ (s.tcb t).sortList.cpuid = c
  once : ∀ c, (s.timeoutQueue c).sortLink.Nodup
  nodeNum : ∀ c, (s.timeoutQueue c).nodeNum = (s.timeoutQueue c).sortLink.length
  safe : ∀ call : SchedCall, call.Pre s → call.step s ≠ none

theorem SchedInv.law (h : SchedInv False s) : TimeoutLaw s := by
  have hf : ∀ t, (s.tcb t).taskStatus.frozen = false := fun t => Bool.eq_false_iff.mpr fun hc => ((h.task t).frozen hc).1
  refine ⟨fun t c => ?_,h.link.nodup,h.link.nodeNum,fun call hp => ?_⟩
  · rw [h.link.linked t c, hf t]
    exact ⟨fun ⟨h1,h2,_⟩ => ⟨h1,h2⟩,fun ⟨h1,h2⟩ => ⟨h1,h2,rfl⟩⟩
  have hok : call.Ok s → call.step s ≠ none := by
    intro hok
    obtain ⟨s',he,-⟩ := call.step_inv h hp (hok.safe h)
    rw [he]
    nofun
  cases call with
  | suspend t pm checkOnRun r => exact h.suspend_ne_none t pm checkOnRun r
  | scanWake => nofun
  | start | run | yield | delay | wait | wake | scanTake | adjust | resume | exit | clock => exact hok trivial

/-- New tasks, with their schedulers and their affinities. -/
def schedInit (coreNum : Nat) (ops : Nat → SchedOps) (cpuAffiMask : Nat → Nat) : SchedState where
  coreNum := coreNum
  currTime := 0
  tcb t := ⟨ops t,cpuAffiMask t,⟨true,false,false,false,false,false,false,false,false,false⟩,false,⟨none,0⟩⟩
  timeoutQueue _ := ⟨[],0⟩
  pendList _ := []
  scanning _ := none

/-- The tasks and what is called on them; a run ends where a node is unlinked that is not linked. -/
def schedSystem : Run.System SchedState SchedCall where
  init s := ∃ coreNum ops cpuAffiMask, 0 < coreNum ∧ s = schedInit coreNum ops cpuAffiMask
  pre s c := c.Pre s ∧ (c.step s).isSome
  run s c := (c.step s).getD s

instance (s : SchedState) (c : SchedCall) : Decidable (schedSystem.pre s c) := inferInstanceAs (Decidable (_ ∧ _))

/-- The states that calls reach when each of them meets ok in the state it is made in. -/
abbrev SchedReachable (ok : SchedState → SchedCall → Prop) : SchedState → Prop := Run.Reachable schedSystem ok

theorem schedInv_init (hc : 0 < c) (ops : Nat → SchedOps) (cpuAffiMask : Nat → Nat) : SchedInv freezing (schedInit c ops cpuAffiMask) := by
  refine ⟨⟨hc,fun t c => ?_,fun t h => absurd rfl h,fun _ => List.nodup_nil,fun _ => rfl⟩,fun t =>
    taskInv_of_unlinked (statusInv_of_idle rfl rfl rfl rfl rfl) rfl rfl fun hc => hc.elim nofun nofun⟩
  simp [schedInit]

theorem SchedReachable.inv (h : SchedReachable (fun s c => c.Ok s) s) : SchedInv False s := by
  refine h.invariant (fun x hx => ?_) fun x c hi hp hok => ?_
  · obtain ⟨coreNum,ops,cpuAffiMask,hc,rfl⟩ := hx
    exact schedInv_init hc ops cpuAffiMask
  · obtain ⟨s1,he,h1⟩ := c.step_inv hi hp.1 (hok.safe hi)
    rwa [show schedSystem.run x c = s1 from congrArg (·.getD x) he]

/-- The timeout queues keep their law along every run in which no task is frozen and no task waits again before its scan is over. -/
theorem timeoutLaw_of_reachable (s : SchedState) (h : SchedReachable (fun s c => c.Ok s) s) : TimeoutLaw s :=
  h.inv.law

/-- Task 7 is woken between the two parts of the scan, and runs on. Then it waits again, and is in the queue again. -/
theorem timeoutLaw_waiting : ∃ s, SchedReachable (fun s c => c.Ok s) s ∧ s.scanning 0 = none ∧ (s.timeoutQueue 0).sortLink = [8,7] ∧
    TimeoutLaw s := by
  have h0 : SchedReachable (fun s c => c.Ok s) (schedInit 1 (fun _ => .hpf) fun _ => 1) := .init ⟨1,_,_,by decide,rfl⟩
  have h1 := h0.calls [.start 7 .newPeriod,.start 8 .newPeriod,.run 7,.wait 7 0 0 10 10,.clock 20,.scanTake 0,.wake 7 .newPeriod,
    .scanWake 0 .newPeriod,.run 8,.delay 8 25,.run 7,.wait 7 0 0 10 30] (by decide +kernel)
  exact ⟨_,h1,by decide +kernel,by decide +kernel,timeoutLaw_of_reachable _ h1⟩

/-- A task that waits with a timeout is frozen when it is suspended. Then the post that wakes it unlinks its node again. -/
theorem timeoutLaw_fails_frozen : ¬ ∀ s, SchedReachable (fun _ _ => True) s → TimeoutLaw s := by
  intro hall
  have h0 : SchedReachable (fun _ _ => True) (schedInit 1 (fun _ => .hpf) fun _ => 1) := .init ⟨1,_,_,by decide,rfl⟩
  have h1 := h0.calls [.start 7 .newPeriod,.run 7,.wait 7 0 0 10 10,.suspend 7 true true 0] (by decide +kernel)
  exact (hall _ h1).safe (.wake 7 .newPeriod) (by decide +kernel) (Option.isNone_iff_eq_none.mp (by decide +kernel))

end LiteOsKernel.Sched.Timeout
