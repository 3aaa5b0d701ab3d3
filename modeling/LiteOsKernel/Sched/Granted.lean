import LiteOsKernel.Sched.PendCall

/-! Blocking calls along any run: LOS_OK is returned where a token was handed over, the timeout where none was, and the timeout of a
task that waits still is ahead. -/
namespace LiteOsKernel.Sched.Timeout
open LiteOsKernel.Ipc

variable {s s' : SchedState} {t u c : Nat} {e : EdfEnqueue} {ic : Nat → Nat} {x : PendHist} {o : Nat} {w : Waiting}

/-- A step of one task that leaves the pend lists and the tokens. -/
private theorem PendInv.elsewhere (hx : PendInv ic x) (he : Elsewhere t x.st s') (hs : SchedInv True s')
    (ht : TaskPend (s'.tcb t) (x.pend t) (fun o => t ∈ x.st.pendList o) (fun o => (t,o) ∈ x.woken) (x.st.Taken t)) :
    PendInv ic { x with st := s' } := by
  refine ⟨hs,fun u => ?_,fun o => ?_,hx.woken,hx.done,hx.conserve⟩
  · simp only [SchedState.Taken, he.pendList, he.scanning]
    by_cases hu : u = t
    · exact hu ▸ ht
    · rw [he.tcb u hu]
      exact hx.task u
  · rw [he.pendList]
    exact hx.nodup o

/-- The tasks other than t keep their calls when only t joins or leaves pend lists and gets or gives back tokens. -/
theorem PendInv.others {x' : PendHist} (hx : PendInv ic x) (htcb : ∀ u, u ≠ t → x'.st.tcb u = x.st.tcb u)
    (hpend : ∀ u, u ≠ t → x'.pend u = x.pend u) (hl : ∀ o u, u ≠ t → (u ∈ x'.st.pendList o ↔ u ∈ x.st.pendList o))
    (hw : ∀ o u, u ≠ t → ((u,o) ∈ x'.woken ↔ (u,o) ∈ x.woken)) (hs : ∀ u, u ≠ t → x.st.Taken u → x'.st.Taken u)
    (ht : TaskPend (x'.st.tcb t) (x'.pend t) (fun o => t ∈ x'.st.pendList o) (fun o => (t,o) ∈ x'.woken) (x'.st.Taken t)) (u : Nat) :
    TaskPend (x'.st.tcb u) (x'.pend u) (fun o => u ∈ x'.st.pendList o) (fun o => (u,o) ∈ x'.woken) (x'.st.Taken u) := by
  by_cases hu : u = t
  · exact hu ▸ ht
  · rw [htcb u hu, hpend u hu]
    exact (hx.task u).iff (fun o => hl o u hu) (fun o => hw o u hu) (hs u hu)

/-- A task that neither waits for an object nor is in a call is on no pend list. -/
private theorem PendInv.listless (hx : PendInv ic x) (hp : (x.st.tcb t).taskStatus.pending = false) (o : Nat) : t ∉ x.st.pendList o := by
  intro hm
  exact absurd (hp.symm.trans (((hx.task t).listed o).mp hm).1) (by decide)

theorem PendInv.start (hx : PendInv ic x) (hi : (x.st.tcb t).taskStatus.init = true) (hs : SchedInv True (x.st.enqueue t e)) :
    PendInv ic { x with st := x.st.enqueue t e } := by
  have ht := hx.task t
  obtain ⟨hr,hrun⟩ := (hx.sched.task t).status.init hi
  exact hx.elsewhere (elsewhere_enqueue ..) hs (ht.enqueue (ht.idle (ht.init hi)).1 hr hrun e)

theorem PendInv.runTask (hx : PendInv ic x) (hr : (x.st.tcb t).taskStatus.ready = true)
    (hs : SchedInv True (x.st.setStatus t { (x.st.tcb t).taskStatus with ready := false, running := true })) :
    PendInv ic { x with st := x.st.setStatus t { (x.st.tcb t).taskStatus with ready := false, running := true } } := by
  have hp := ((hx.sched.task t).status.free (.inr (.inl hr))).1
  refine hx.elsewhere (elsewhere_setTcb ..) hs ?_
  rw [setStatus_tcb]
  exact (hx.task t).update rfl hp hp (fun _ => rfl) id fun ho _ => (hx.task t).edf ho (.inl hr)

theorem PendInv.delay (hx : PendInv ic x) (hr : (x.st.tcb t).taskStatus.running = true) {r : Nat} (hs : SchedInv True (x.st.delay t r)) :
    PendInv ic { x with st := x.st.delay t r } := by
  have hst := (hx.sched.task t).status
  have hp := (hst.free (.inr (.inr hr))).1
  obtain ⟨hops,-,hstatus,-⟩ := taskSwitch_tcb (x.st.setStatus t { (x.st.tcb t).taskStatus with delay := true }) t r
  rw [setStatus_tcb] at hops hstatus
  refine hx.elsewhere ((elsewhere_setTcb ..).trans (elsewhere_taskSwitch ..)) hs ?_
  refine (hx.task t).update hops hp ?_ (fun _ => ?_) ?_ fun ho _ => ?_
  all_goals rw [show x.st.delay t r = (x.st.setStatus t _).taskSwitch t r from rfl, hstatus]
  · exact hp
  · exact id
  · exact (hx.task t).edf ho (.inr (.inl hr))

theorem PendInv.yield (hx : PendInv ic x) (hr : (x.st.tcb t).taskStatus.running = true) {r : Nat} (hs : SchedInv True (x.st.yield t e r)) :
    PendInv ic { x with st := x.st.yield t e r } := by
  have ht := hx.task t
  have hst := (hx.sched.task t).status
  have hp := (hst.free (.inr (.inr hr))).1
  refine hx.elsewhere ((elsewhere_enqueue ..).trans (elsewhere_taskSwitch ..)) hs ?_
  -- the task as it stops running
  have hstop : ∀ cb : LosTaskCB, TaskPend cb (x.pend t) (fun o => t ∈ x.st.pendList o) (fun o => (t,o) ∈ x.woken) (x.st.Taken t) →
      (x.st.enqueue t e).tcb t = cb → cb.taskStatus.pending = false →
      TaskPend (((x.st.enqueue t e).taskSwitch t r).tcb t) (x.pend t) (fun o => t ∈ x.st.pendList o) (fun o => (t,o) ∈ x.woken)
        (x.st.Taken t) := by
    intro cb hcb heq hpend
    obtain ⟨hops,-,hstatus,-⟩ := taskSwitch_tcb (x.st.enqueue t e) t r
    rw [heq] at hops hstatus
    refine hcb.update hops hpend ?_ (fun _ => ?_) ?_ fun ho hc => ?_
    all_goals rw [hstatus]
    · exact hpend
    · exact id
    · rw [hstatus] at hc
      exact hcb.edf ho (hc.imp_right nofun)
  refine hstop _ ?_ rfl ?_
  · unfold SchedState.enqueue
    simp only
    split
    · rename_i ho
      rw [setStatus_tcb]
      exact ht.update rfl hp rfl (fun _ => rfl) nofun fun hc => absurd (ho.symm.trans hc) (by decide)
    · rename_i ho
      rw [setStatus_tcb]
      exact ht.update rfl hp rfl (fun hc => absurd (ho.symm.trans hc) (by decide)) nofun fun _ _ => rfl
    · rename_i ho
      rw [setTcb_tcb]
      exact ht.update rfl hp rfl (fun hc => absurd (ho.symm.trans hc) (by decide)) nofun fun _ _ => rfl
    · rename_i finishTime ho
      rw [if_pos hr, setTcb_tcb]
      exact ht.update rfl hp hp (fun _ => rfl) id fun _ _ => ht.edf ho (.inr (.inl hr))
  · unfold SchedState.enqueue
    simp only
    split
    · rw [setStatus_tcb]
      rfl
    · rw [setStatus_tcb]
      rfl
    · rw [setTcb_tcb]
      rfl
    · rw [if_pos hr, setTcb_tcb]
      exact hp

theorem PendInv.suspend (hx : PendInv ic x) {pm checkOnRun : Bool} {r : Nat} (hs : x.st.suspend t pm checkOnRun r = some s')
    (hinv : SchedInv True s') : PendInv ic { x with st := s' } := by
  have ht := hx.task t
  have hst := (hx.sched.task t).status
  unfold SchedState.suspend at hs
  simp only at hs
  by_cases h1 : (x.st.tcb t).taskStatus.unused = true ∨ (x.st.tcb t).taskStatus.suspended = true ∨
      (x.st.tcb t).taskStatus.running = true ∧ checkOnRun = false ∨ (x.st.tcb t).ops = .edf
  · rw [if_pos h1, Option.some.injEq] at hs
    exact hs ▸ hx
  · rw [if_neg h1, Option.map_eq_some_iff] at hs
    obtain ⟨s2,hf,rfl⟩ := hs
    obtain ⟨he,f,hcb⟩ := freeze_some hf
    have hfirst : Elsewhere t x.st s2 ∧ s2.tcb t = { x.st.tcb t with
        taskStatus := { (x.st.tcb t).taskStatus with ready := false, frozen := f } } := by
      cases hr : (x.st.tcb t).taskStatus.ready with
      | true =>
        rw [if_pos hr] at he hcb
        exact ⟨(elsewhere_setTcb ..).trans he,by rw [hcb, setStatus_tcb]⟩
      | false =>
        rw [if_neg (by rw [hr]; decide)] at he hcb
        exact ⟨he,by rw [hcb, ← hr]⟩
    obtain ⟨he,hcb⟩ := hfirst
    have hstop : Elsewhere t x.st (s2.setStatus t { (s2.tcb t).taskStatus with suspended := true }) := he.trans (elsewhere_setTcb ..)
    have hsus : (s2.setStatus t { (s2.tcb t).taskStatus with suspended := true }).tcb t = { x.st.tcb t with
        taskStatus := { (x.st.tcb t).taskStatus with ready := false, frozen := f, suspended := true } } := by
      rw [setStatus_tcb, hcb]
    split_ifs at hinv ⊢ with hrun
    · have hp := (hst.free (.inr (.inr hrun))).1
      obtain ⟨hops,-,hstatus,-⟩ := taskSwitch_tcb (s2.setStatus t { (s2.tcb t).taskStatus with suspended := true }) t r
      rw [hsus] at hops hstatus
      refine hx.elsewhere (hstop.trans (elsewhere_taskSwitch ..)) hinv (ht.update hops hp ?_ (fun _ => ?_) ?_ fun ho _ => ?_)
      all_goals rw [hstatus]
      · exact hp
      · exact id
      · exact ht.edf ho (.inr (.inl hrun))
    · refine hx.elsewhere hstop hinv ?_
      rw [hsus]
      exact ht.congr rfl rfl rfl rfl rfl rfl (fun hc => hc.imp nofun id) fun _ _ => id

theorem PendInv.resume (hx : PendInv ic x) (hok : (SchedCall.resume t e).Grants x) (hs : SchedInv True (x.st.resume t e)) :
    PendInv ic { x with st := x.st.resume t e } := by
  have ht := hx.task t
  have hst := (hx.sched.task t).status
  unfold SchedState.resume at hs ⊢
  simp only at hs ⊢
  by_cases h1 : (x.st.tcb t).taskStatus.unused = true ∨ ¬(x.st.tcb t).taskStatus.suspended = true ∨ (x.st.tcb t).ops = .edf
  · rw [if_pos h1]
    exact hx
  · rw [if_neg h1] at hs ⊢
    rw [not_or, not_or, not_not] at h1
    obtain ⟨hr,hrun⟩ := hst.suspended h1.2.1
    -- a task that is unfrozen stays on its pend list
    have hunfreeze : Elsewhere t x.st (x.st.unfreeze t) ∧
        TaskPend ((x.st.unfreeze t).tcb t) (x.pend t) (fun o => t ∈ x.st.pendList o) (fun o => (t,o) ∈ x.woken) (x.st.Taken t) ∧
        ((x.st.unfreeze t).tcb t).taskStatus.ready = false ∧ ((x.st.unfreeze t).tcb t).taskStatus.running = false := by
      unfold SchedState.unfreeze
      simp only
      split_ifs with hf hl hp
      · exact ⟨⟨fun _ _ => rfl,rfl,rfl⟩,ht,hr,hrun⟩
      · refine ⟨(elsewhere_setTcb ..).trans (elsewhere_timeoutQueueAdd ..),?_,?_,?_⟩
        all_goals rw [timeoutQueueAdd_tcb, setStatus_tcb]
        · exact ht.congr rfl rfl rfl rfl rfl rfl id fun _ _ => id
        · exact hr
        · exact hrun
      · rw [setStatus_tcb] at hl
        exact absurd (hok (Bool.not_eq_false _ ▸ hf) hp) hl
      · rw [Bool.not_eq_true] at hp
        refine ⟨(elsewhere_setTcb ..).trans ((elsewhere_setTcb ..).trans (elsewhere_setTcb ..)),?_,?_,?_⟩
        all_goals rw [setStatus_tcb]
        · simp only [SchedState.setSortList, setTcb_tcb, setStatus_tcb]
          refine ht.update rfl hp rfl (fun _ => rfl) (fun hc => absurd hc Bool.false_ne_true) fun ho hc => ?_
          exact ht.edf ho (hc.imp_right .inl)
        · exact hr
        · exact hrun
    obtain ⟨he,ht2,hr2,hrun2⟩ := hunfreeze
    generalize x.st.unfreeze t = s1 at *
    have ht3 : TaskPend { s1.tcb t with taskStatus := { (s1.tcb t).taskStatus with suspended := false } } (x.pend t)
        (fun o => t ∈ x.st.pendList o) (fun o => (t,o) ∈ x.woken) (x.st.Taken t) :=
      ht2.congr rfl rfl rfl rfl rfl rfl id fun _ _ => id
    have he3 : Elsewhere t x.st (s1.setStatus t { (s1.tcb t).taskStatus with suspended := false }) := he.trans (elsewhere_setTcb ..)
    split_ifs at hs ⊢ with hb
    · refine hx.elsewhere he3 hs ?_
      rw [setStatus_tcb]
      exact ht3
    · rw [setStatus_tcb, not_or, Bool.not_eq_true] at hb
      refine hx.elsewhere (he3.trans (elsewhere_enqueue ..)) hs (TaskPend.enqueue ?_ ?_ ?_ ?_ e)
      all_goals rw [setStatus_tcb]
      · exact ht3
      · exact hb.1
      · exact hr2
      · exact hrun2

/-- What the wait of a running task does: it joins the list, alone, and waits there as it asked. -/
private theorem PendInv.wait_spec (hx : PendInv ic x) (hr : (x.st.tcb t).taskStatus.running = true) (hnone : x.pend t = none) {position : Nat}
    (hpos : position ≤ (x.st.pendList o).length) (ticks r : Nat) :
    (∀ u, u ≠ t → (x.st.wait t o position ticks r).tcb u = x.st.tcb u) ∧ (x.st.wait t o position ticks r).scanning = x.st.scanning ∧
      (x.st.wait t o position ticks r).pendList = Function.update x.st.pendList o ((x.st.pendList o).insertIdx position t) ∧
        TaskPend ((x.st.wait t o position ticks r).tcb t) (some ⟨o,ticks,r⟩)
          (fun o' => t ∈ Function.update x.st.pendList o ((x.st.pendList o).insertIdx position t) o') (fun o' => (t,o') ∈ x.woken)
          (x.st.Taken t) := by
  have ht := hx.task t
  have hst := (hx.sched.task t).status
  have h1 := (hst.free (.inr (.inr hr))).1
  have hready := hst.single hr
  have hi := (hst.of_running hr).1
  have hnot := hx.listless h1
  have hgot : ∀ o', (t,o') ∉ x.woken := by
    intro o' hm
    have := ht.calls o' hm
    rw [hnone] at this
    cases this
  have hperm : ((x.st.pendList o).insertIdx position t).Perm (t :: x.st.pendList o) := List.perm_insertIdx _ _ hpos
  have htimeout : (x.st.tcb t).taskStatus.timeout = false := by
    cases hops : (x.st.tcb t).ops with
    | hpf => exact (ht.idle hnone).2 hops
    | edf => exact ht.edf hops (.inr (.inl hr))
  have hon : ∀ o', t ∈ Function.update x.st.pendList o ((x.st.pendList o).insertIdx position t) o' ↔ o' = o := by
    intro o'
    by_cases ho : o' = o
    · rw [ho, Function.update_self, hperm.mem_iff]
      exact ⟨fun _ => rfl,fun _ => List.mem_cons_self⟩
    · rw [Function.update_of_ne ho]
      exact ⟨fun hm => absurd hm (hnot o'),fun hc => absurd hc ho⟩
  -- the switch after the task has joined the list
  have hswitch : ∀ s1 : SchedState, (∀ u, u ≠ t → s1.tcb u = x.st.tcb u) → s1.scanning = x.st.scanning →
      s1.pendList = Function.update x.st.pendList o ((x.st.pendList o).insertIdx position t) →
      (s1.tcb t).taskStatus.pending = true → (s1.tcb t).taskStatus.init = false → (s1.tcb t).taskStatus.ready = false →
      (s1.tcb t).taskStatus.timeout = false → (ticks ≠ LOS_WAIT_FOREVER → (s1.tcb t).taskStatus.pendTime = true) →
      ((s1.tcb t).ops = .edf → ticks = LOS_WAIT_FOREVER → (s1.tcb t).waitForever = true) →
      (∀ u, u ≠ t → (s1.taskSwitch t r).tcb u = x.st.tcb u) ∧ (s1.taskSwitch t r).scanning = x.st.scanning ∧
        (s1.taskSwitch t r).pendList = Function.update x.st.pendList o ((x.st.pendList o).insertIdx position t) ∧
        TaskPend ((s1.taskSwitch t r).tcb t) (some ⟨o,ticks,r⟩)
          (fun o' => t ∈ Function.update x.st.pendList o ((x.st.pendList o).insertIdx position t) o') (fun o' => (t,o') ∈ x.woken)
          (x.st.Taken t) := by
    intro s1 htcb hscan hlist h2 h3 h4 h5 h6 h7
    obtain ⟨hops,hforever,hstatus,htime⟩ := taskSwitch_tcb s1 t r
    refine ⟨fun u hu => ?_,(elsewhere_taskSwitch ..).scanning.trans hscan,(elsewhere_taskSwitch ..).pendList.trans hlist,
      taskPend_of_wait ?_ ?_ ?_ (fun hf => ⟨?_,htime ⟨h4,.inl (h6 hf)⟩⟩) (by rw [hops, hforever]; exact h7) hon hgot⟩
    · rw [(elsewhere_taskSwitch ..).tcb u hu, htcb u hu]
    all_goals rw [hstatus]
    · exact h3
    · exact h2
    · exact h5
    · exact h6 hf
  unfold SchedState.wait
  cases hops : (x.st.tcb t).ops with
  | hpf =>
    simp only [hops]
    refine hswitch _ (fun u hu => (elsewhere_setTcb ..).tcb u hu) rfl rfl ?_ ?_ ?_ ?_ (fun hf => ?_) fun ho => ?_
    all_goals try rw [setTcb_tcb]
    · exact hi
    · exact hready
    · exact htimeout
    · simp [hf]
    · exact absurd ((congrArg LosTaskCB.ops (setTcb_tcb ..)).symm.trans ho) (by simp)
  | edf =>
    simp only [hops]
    refine hswitch _ (fun u hu => (elsewhere_setTcb ..).tcb u hu) rfl rfl ?_ ?_ ?_ ?_ (fun _ => ?_) fun _ hf => ?_
    all_goals rw [setTcb_tcb]
    · exact hi
    · exact hready
    · exact htimeout
    · simp [hf]

/-- A task waits for an object that has nothing to give. -/
theorem PendInv.wait (hx : PendInv ic x) (hr : (x.st.tcb t).taskStatus.running = true) (hnone : x.pend t = none) {position : Nat}
    (hpos : position ≤ (x.st.pendList o).length) {ticks r : Nat} (hs : SchedInv True (x.st.wait t o position ticks r)) :
    PendInv ic { x with st := x.st.wait t o position ticks r, pend := Function.update x.pend t (some ⟨o,ticks,r⟩) } := by
  have hnot := hx.listless ((hx.sched.task t).status.free (.inr (.inr hr))).1
  have hperm : ((x.st.pendList o).insertIdx position t).Perm (t :: x.st.pendList o) := List.perm_insertIdx _ _ hpos
  obtain ⟨htcb,hscan,hlist,hend⟩ := hx.wait_spec hr hnone hpos ticks r
  refine ⟨hs,hx.others htcb (fun u hu => Function.update_of_ne hu ..) (fun o' u hu => ?_) (fun _ _ _ => Iff.rfl) (fun u _ => ?_) ?_,
    fun o' => ?_,hx.woken,hx.done,hx.conserve⟩
  · simp only [hlist]
    by_cases ho : o' = o
    · rw [ho, Function.update_self, hperm.mem_iff, List.mem_cons, or_iff_right hu]
    · rw [Function.update_of_ne ho]
  · simp only [SchedState.Taken, hscan]
    exact id
  · simp only [SchedState.Taken, hlist, hscan, Function.update_self]
    exact hend
  · simp only [hlist]
    by_cases ho : o' = o
    · rw [ho, Function.update_self]
      exact hperm.nodup_iff.mpr (List.nodup_cons.mpr ⟨hnot o,hx.nodup o⟩)
    · rw [Function.update_of_ne ho]
      exact hx.nodup o'

private theorem not_mem_listDelete (hn : ∀ o, (s.pendList o).Nodup) (o : Nat) : t ∉ (s.listDelete t).pendList o := (hn o).not_mem_erase

private theorem mem_listDelete (hu : u ≠ t) (o : Nat) : u ∈ (s.listDelete t).pendList o ↔ u ∈ s.pendList o := List.mem_erase_of_ne hu

/-- The first task in the pend list of the object gets a token. -/
theorem PendInv.post (hx : PendInv ic x) {rest : List Nat} (hl : x.st.pendList o = t :: rest) (hs : x.st.wake t e = some s')
    (hinv : SchedInv True s') : PendInv ic { x with
      st := s'
      woken := (t,o) :: x.woken
      posts := Function.update x.posts o (x.posts o + 1) } := by
  have ht := hx.task t
  obtain ⟨hp,hcall⟩ := (ht.listed o).mp (hl ▸ List.mem_cons_self)
  obtain ⟨htime,hgot⟩ := ht.waits hp
  obtain ⟨hi,hr,hrun⟩ := (hx.sched.task t).status.blocked (.inl hp)
  obtain ⟨s1,hops,hst,he,hs'⟩ := wake_some hs
  obtain ⟨w,hw,rfl⟩ := Option.map_eq_some_iff.mp hcall
  have hleft : TaskPend (s1.tcb t) (some w) (fun o' => t ∈ (x.st.listDelete t).pendList o') (fun o' => (t,o') ∈ (t,w.object) :: x.woken)
      (x.st.Taken t) := by
    refine taskPend_of_left ?_ ?_ ?_ ?_ (not_mem_listDelete hx.nodup) (fun o' hc => ?_) ⟨fun _ => ?_,fun _ => List.mem_cons_self⟩
    · rw [hst]
      exact hi
    · rw [hst]
      exact hr
    · rw [hst]
      exact hrun
    · rw [hst]
    · rcases List.mem_cons.mp hc with hc | hc
      · exact (Prod.mk.inj hc).2
      · exact absurd hc (hgot o')
    · rw [hst]
      exact ⟨fun _ => List.mem_cons_self,fun _ => htime⟩
  have hend : Elsewhere t (x.st.listDelete t) s' ∧ TaskPend (s'.tcb t) (some w) (fun o' => t ∈ (x.st.listDelete t).pendList o')
      (fun o' => (t,o') ∈ (t,w.object) :: x.woken) (x.st.Taken t) := by
    rw [hs']
    split_ifs
    · exact ⟨he,hleft⟩
    · refine ⟨he.trans (elsewhere_enqueue ..),hleft.enqueue ?_ ?_ ?_ e⟩
      · rw [hst]
      · rw [hst]
        exact hr
      · rw [hst]
        exact hrun
  obtain ⟨he,hend⟩ := hend
  have hscan : s'.scanning = x.st.scanning := he.scanning
  refine ⟨hinv,hx.others he.tcb (fun _ _ => rfl) (fun o' u hu => ?_) (fun o' u hu => ?_) (fun u _ => ?_) ?_,fun o' => ?_,?_,hx.done,
    fun o' => ?_⟩
  · simp only [he.pendList]
    exact mem_listDelete hu o'
  · simp [hu]
  · simp only [SchedState.Taken, hscan]
    exact id
  · simp only [SchedState.Taken, hscan, he.pendList, hw]
    exact hend
  · simp only [he.pendList]
    exact (hx.nodup o').erase t
  · exact List.nodup_cons.mpr ⟨hgot _,hx.woken⟩
  · have hc := hx.conserve o'
    simp only [List.countP_cons]
    by_cases ho : o' = w.object
    · subst ho
      simp only [Function.update_self, decide_true, if_true]
      omega
    · rw [Function.update_of_ne ho, hc]
      simp [Ne.symm ho]

/-- The wait of a task ends with the timeout, where the task has the priority policy. -/
theorem TaskPend.timeoutTaskEnd {call : Option Waiting} {got : Nat → Prop} {taken : Prop}
    (h : TaskPend (s.tcb t) call (fun o => t ∈ s.pendList o) got taken) (hs : StatusInv (s.tcb t).ops (s.tcb t).taskStatus)
    (hnodup : ∀ o, (s.pendList o).Nodup)
    (hok : (s.tcb t).ops = .edf → (s.tcb t).taskStatus.pending = true → (s.tcb t).taskStatus.pendTime = false) (e : EdfEnqueue) :
    ∃ s', s.timeoutTaskEnd t e = s' ∧ (∀ u, u ≠ t → s'.tcb u = s.tcb u) ∧ s'.scanning = s.scanning ∧
      (∀ u, u ≠ t → ∀ o, u ∈ s'.pendList o ↔ u ∈ s.pendList o) ∧ (∀ o, (s'.pendList o).Nodup) ∧
      ∀ taken' : Prop, TaskPend (s'.tcb t) call (fun o => t ∈ s'.pendList o) got taken' := by
  refine ⟨_,rfl,?_⟩
  rw [SchedState.timeoutTaskEnd]
  simp only
  by_cases hw : (s.tcb t).taskStatus.pendTime = true ∨ (s.tcb t).taskStatus.delay = true
  swap
  · rw [if_neg hw]
    refine ⟨fun _ _ => rfl,rfl,fun _ _ _ => Iff.rfl,hnodup,fun _ => ⟨h.init,h.edf,h.listed,h.idle,h.waits,h.calls,h.back,
      fun w hc hp hf => ?_,h.forever⟩⟩
    exact absurd (.inl (h.timed w hc hp hf).1) hw
  rw [if_pos hw]
  obtain ⟨hi,hr,hrun⟩ := hs.blocked (.inr hw)
  generalize hs1 : s.setStatus t { (s.tcb t).taskStatus with
    pending := false, pendTime := false, delay := false,
    timeout := (s.tcb t).taskStatus.timeout || (s.tcb t).taskStatus.pendTime } = s1
  have hcb : s1.tcb t = { s.tcb t with taskStatus := { (s.tcb t).taskStatus with
      pending := false, pendTime := false, delay := false,
      timeout := (s.tcb t).taskStatus.timeout || (s.tcb t).taskStatus.pendTime } } := by
    rw [← hs1, setStatus_tcb]
  have he : Elsewhere t s s1 := hs1 ▸ elsewhere_setTcb ..
  -- the task is on no pend list any more, and has the timeout where it waited for an object
  have hmid : ∃ s2, (if (s.tcb t).taskStatus.pendTime = true then s1.listDelete t else s1) = s2 ∧ (∀ u, u ≠ t → s2.tcb u = s.tcb u) ∧
      s2.scanning = s.scanning ∧ s2.tcb t = s1.tcb t ∧ (∀ u, u ≠ t → ∀ o, u ∈ s2.pendList o ↔ u ∈ s.pendList o) ∧
      (∀ o, (s2.pendList o).Nodup) ∧ ∀ taken' : Prop, TaskPend (s2.tcb t) call (fun o => t ∈ s2.pendList o) got taken' := by
    refine ⟨_,rfl,?_⟩
    cases hp : (s.tcb t).taskStatus.pending with
    | true =>
      have hpt : (s.tcb t).taskStatus.pendTime = true := hw.resolve_right fun hc => absurd ((hs.pending hp).symm.trans hc) (by decide)
      have hhpf : (s.tcb t).ops ≠ .edf := fun ho => absurd ((hok ho hp).symm.trans hpt) (by decide)
      rw [if_pos hpt]
      have hl : (s1.listDelete t).pendList = (s.listDelete t).pendList := by
        rw [SchedState.listDelete, he.pendList]
        rfl
      obtain ⟨htime,hgot⟩ := h.waits hp
      rcases call with _ | w
      · exact absurd (hp.symm.trans (h.idle rfl).1) (by decide)
      refine ⟨he.tcb,he.scanning,rfl,fun u hu o => ?_,fun o => ?_,fun _ => ?_⟩
      · rw [hl]
        exact mem_listDelete hu o
      · rw [hl]
        exact (hnodup o).erase t
      · simp only [hl]
        rw [listDelete_tcb, hcb]
        refine taskPend_of_left hi hr hrun rfl (not_mem_listDelete hnodup) (fun o hc => absurd hc (hgot o))
          ⟨fun _ => ?_,fun hc => absurd hc hhpf⟩
        simp [hpt, hgot]
    | false =>
      have hnot : ∀ o, t ∉ s.pendList o := fun o hm => absurd (hp.symm.trans ((h.listed o).mp hm).1) (by decide)
      have hsame : Elsewhere t s (if (s.tcb t).taskStatus.pendTime = true then s1.listDelete t else s1) := by
        split_ifs
        · refine ⟨he.tcb,funext fun o => ?_,he.scanning⟩
          rw [SchedState.listDelete, he.pendList]
          exact List.erase_of_not_mem (hnot o)
        · exact he
      have htcb : (if (s.tcb t).taskStatus.pendTime = true then s1.listDelete t else s1).tcb t = s1.tcb t := by
        split_ifs <;> rfl
      refine ⟨hsame.tcb,hsame.scanning,htcb,fun u _ o => by rw [hsame.pendList],fun o => hsame.pendList ▸ hnodup o,fun _ => ?_⟩
      simp only [hsame.pendList]
      rw [htcb, hcb]
      refine h.update rfl hp rfl (fun ho => ?_) id fun _ hc => ?_
      · have hpt : (s.tcb t).taskStatus.pendTime = false :=
          Bool.eq_false_iff.mpr fun hc => absurd (hp.symm.trans (hs.hpf ho hc)) (by decide)
        simp [hpt]
      · simp [hr, hrun] at hc
  obtain ⟨s2,heq,h1,h2,h3,h4,h5,h6⟩ := hmid
  rw [heq]
  split_ifs
  · exact ⟨h1,h2,h4,h5,h6⟩
  · have hen := elsewhere_enqueue s2 t e
    refine ⟨fun u hu => (hen.tcb u hu).trans (h1 u hu),hen.scanning.trans h2,fun u hu o => by rw [hen.pendList, h4 u hu o],
      fun o => hen.pendList ▸ h5 o,fun taken' => ?_⟩
    rw [hen.pendList]
    refine (h6 taken').enqueue ?_ ?_ ?_ e
    all_goals rw [h3, hcb]
    · exact hr
    · exact hrun

/-- The node of a task is in the hands of a scan. -/
theorem PendInv.scanTake (hx : PendInv ic x) (hfree : x.st.scanning c = none) (hs : x.st.scanTake c = some s') (hinv : SchedInv True s') :
    PendInv ic { x with st := s' } := by
  rw [SchedState.scanTake] at hs
  cases hq : (x.st.timeoutQueue c).sortLink with
  | nil =>
    rw [hq, Option.some.injEq] at hs
    exact hs ▸ hx
  | cons t rest =>
    simp only [hq] at hs
    split_ifs at hs
    · rw [Option.some.injEq] at hs
      exact hs ▸ hx
    · rw [Option.map_eq_some_iff] at hs
      obtain ⟨s1,hd,rfl⟩ := hs
      obtain ⟨he,hcb⟩ := deleteNode_some hd
      have htaken : ∀ u, x.st.Taken u → ∃ d, Function.update s1.scanning c (some t) d = some u := by
        rintro u ⟨d,hd⟩
        have hdc : d ≠ c := fun hdc => Option.some_ne_none u (hd.symm.trans (hdc ▸ hfree))
        exact ⟨d,by rw [Function.update_of_ne hdc, he.scanning, hd]⟩
      refine ⟨hinv,hx.others he.tcb (fun _ _ => rfl) (fun o u _ => ?_) (fun _ _ _ => Iff.rfl) (fun u _ => htaken u) ?_,fun o => ?_,hx.woken,
        hx.done,hx.conserve⟩
      · simp only [he.pendList]
      · simp only [he.pendList, hcb]
        exact (hx.task t).congr rfl rfl rfl rfl rfl rfl id fun _ _ _ => .inr ⟨c,Function.update_self ..⟩
      · simp only [he.pendList]
        exact hx.nodup o

/-- The task of a scan is woken. -/
theorem PendInv.scanWake (hx : PendInv ic x) (hok : (SchedCall.scanWake c e).Grants x) (hinv : SchedInv True (x.st.scanWake c e)) :
    PendInv ic { x with st := x.st.scanWake c e } := by
  rw [SchedState.scanWake] at hinv ⊢
  cases hc : x.st.scanning c with
  | none =>
    simp only [hc] at hinv ⊢
    exact hx
  | some t =>
    simp only [hc] at hinv ⊢
    have ht := hx.task t
    have hst := (hx.sched.task t).status
    obtain ⟨hedf,-⟩ := hok t hc
    -- the task as the first part of the wake leaves it
    have hfirst : ∃ s1, SchedState.timeoutWaitForever { x.st with scanning := Function.update x.st.scanning c none } t = s1 ∧
        (∀ u, u ≠ t → s1.tcb u = x.st.tcb u) ∧ s1.scanning = Function.update x.st.scanning c none ∧ s1.pendList = x.st.pendList ∧
        StatusInv (s1.tcb t).ops (s1.tcb t).taskStatus ∧
        ((s1.tcb t).ops = .edf → (s1.tcb t).taskStatus.pending = true → (s1.tcb t).taskStatus.pendTime = false) ∧
        TaskPend (s1.tcb t) (x.pend t) (fun o => t ∈ x.st.pendList o) (fun o => (t,o) ∈ x.woken) (x.st.Taken t) := by
      refine ⟨_,rfl,?_⟩
      rw [SchedState.timeoutWaitForever]
      simp only
      split_ifs with hw
      · refine ⟨fun u hu => (elsewhere_setTcb ..).tcb u hu,rfl,rfl,?_⟩
        rw [setTcb_tcb]
        refine ⟨⟨fun hc => ?_,hst.init,hst.single,hst.suspended,hst.pending,fun _ hc => absurd hc Bool.false_ne_true⟩,
          fun _ _ => rfl,ht.init,ht.edf,ht.listed,
          ht.idle,ht.waits,ht.calls,ht.back,fun w hw' hp hf => absurd (hedf hw.1 hp w hw') hf,fun _ _ _ _ hc => absurd hc Bool.false_ne_true⟩
        obtain ⟨h1,-,h3⟩ := hst.free hc
        exact ⟨h1,rfl,h3⟩
      · refine ⟨fun _ _ => rfl,rfl,rfl,hst,fun ho hp => ?_,ht⟩
        obtain ⟨w,hw'⟩ : ∃ w, x.pend t = some w := Option.ne_none_iff_exists'.mp fun hc => by
          exact absurd (hp.symm.trans (ht.idle hc).1) (by decide)
        exact Bool.eq_false_iff.mpr fun hpt => hw ⟨ho,ht.forever ho w hw' hp hpt (hedf ho hp w hw')⟩
    obtain ⟨s1,heq,h1,h2,h3,h4,h5,h6⟩ := hfirst
    rw [← h3] at h6
    obtain ⟨s2,heq2,g1,g2,g3,g4,g5⟩ := h6.timeoutTaskEnd h4 (fun o => h3 ▸ hx.nodup o) h5 e
    rw [SchedState.timeoutTaskWake, heq, heq2] at hinv ⊢
    refine ⟨hinv,hx.others (fun u hu => (g1 u hu).trans (h1 u hu)) (fun _ _ => rfl) (fun o u hu => ?_) (fun _ _ _ => Iff.rfl)
      (fun u hu => Exists.imp fun d hd => ?_) (g5 _),g4,hx.woken,hx.done,hx.conserve⟩
    · exact (g3 u hu o).trans (by rw [h3])
    · have hdc : d ≠ c := fun hdc => hu (Option.some.inj (hd.symm.trans (hdc ▸ hc)))
      rw [g2, h2, Function.update_of_ne hdc, hd]

/-- A call that does not have to wait. -/
theorem PendInv.take (hx : PendInv ic x) (hpos : 0 < x.count o) (t : Nat) : PendInv ic { x with
    count := Function.update x.count o (x.count o - 1)
    done := x.done ++ [⟨t,o,true,true⟩] } := by
  refine ⟨hx.sched,hx.task,hx.nodup,hx.woken,fun r hr => ?_,fun o' => ?_⟩
  · rcases List.mem_append.mp hr with hr | hr
    · exact hx.done r hr
    · rw [List.mem_singleton.mp hr]
  · have hc := hx.conserve o'
    simp only [List.countP_append, List.countP_singleton]
    by_cases ho : o' = o
    · subst ho
      simp only [Function.update_self, and_self, decide_true, if_true]
      omega
    · rw [Function.update_of_ne ho, hc]
      simp [Ne.symm ho]

/-- A post that finds no task that waits. -/
theorem PendInv.give (hx : PendInv ic x) (o : Nat) : PendInv ic { x with
    count := Function.update x.count o (x.count o + 1)
    posts := Function.update x.posts o (x.posts o + 1) } := by
  refine ⟨hx.sched,hx.task,hx.nodup,hx.woken,hx.done,fun o' => ?_⟩
  have hc := hx.conserve o'
  by_cases ho : o' = o
  · subst ho
    simp only [Function.update_self]
    omega
  · simp only [Function.update_of_ne ho]
    exact hc

/-- A task returns from its call, with LOS_OK where it has a token. -/
theorem PendInv.ret (hx : PendInv ic x) (hr : (x.st.tcb t).taskStatus.running = true) (hcall : x.pend t = some w) :
    PendInv ic { x with
      st := x.st.setStatus t { (x.st.tcb t).taskStatus with timeout := false }
      pend := Function.update x.pend t none
      woken := x.woken.erase (t,w.object)
      done := x.done ++ [⟨t,w.object,!(x.st.tcb t).taskStatus.timeout,decide ((t,w.object) ∈ x.woken)⟩] } := by
  have ht := hx.task t
  have hst := (hx.sched.task t).status
  obtain ⟨h1,h2,h3⟩ := hst.free (.inr (.inr hr))
  obtain ⟨hn,hf⟩ := (hx.sched.task t).at_work (.inr (.inr hr))
  have hback := ht.back w hcall h1
  have hgot : (x.st.tcb t).taskStatus.timeout = false ↔ (t,w.object) ∈ x.woken := by
    cases hops : (x.st.tcb t).ops with
    | hpf => exact hback.1 hops
    | edf => exact iff_of_true (ht.edf hops (.inr (.inl hr))) (hback.2 hops)
  have hnone : ∀ o', (t,o') ∉ x.woken.erase (t,w.object) := by
    intro o' hm
    obtain ⟨hne,hm⟩ := (hx.woken.mem_erase_iff).mp hm
    have := ht.calls o' hm
    rw [hcall, Option.map_some, Option.some.injEq] at this
    exact hne (this ▸ rfl)
  have hinv : SchedInv True (x.st.setStatus t { (x.st.tcb t).taskStatus with timeout := false }) := by
    refine ((hx.sched.but t).setStatus _).all ?_
    rw [setStatus_tcb]
    exact taskInv_of_unlinked ⟨hst.free,hst.init,hst.single,hst.suspended,hst.pending,hst.hpf⟩ hn hf fun hc => by simp [h2, h3] at hc
  refine ⟨hinv,hx.others (elsewhere_setStatus ..).tcb (fun u hu => Function.update_of_ne hu ..) (fun _ _ _ => Iff.rfl)
    (fun o' u hu => ?_) (fun _ _ => id) ?_,hx.nodup,hx.woken.erase _,fun r hm => ?_,fun o' => ?_⟩
  · exact List.mem_erase_of_ne fun hc => hu (Prod.mk.inj hc).1
  · simp only [setStatus_tcb, Function.update_self]
    refine ⟨fun _ => rfl,fun _ _ => rfl,fun o' => ?_,fun _ => ⟨h1,fun _ => rfl⟩,fun hc => ?_,fun o' hc => absurd hc (hnone o'),nofun,nofun,
      fun _ => nofun⟩
    · refine (ht.listed o').trans ⟨fun hc => ?_,fun hc => ?_⟩
      · exact absurd (h1.symm.trans hc.1) (by decide)
      · exact absurd hc.2 nofun
    · exact absurd (h1.symm.trans hc) (by decide)
  · rcases List.mem_append.mp hm with hm | hm
    · exact hx.done r hm
    · rw [List.mem_singleton.mp hm]
      simp only [Bool.not_eq_true', decide_eq_true_eq]
      exact hgot
  · have hc := hx.conserve o'
    simp only [List.countP_append, List.countP_singleton]
    by_cases hm : (t,w.object) ∈ x.woken
    · have he := (List.perm_cons_erase hm).countP_eq fun p => decide (p.2 = o')
      rw [List.countP_cons] at he
      by_cases ho : w.object = o'
      · simp only [ho, hgot.mpr hm, Bool.not_false, and_self, decide_true, if_true] at he ⊢
        subst ho
        omega
      · simp only [ho, false_and, decide_false, Bool.false_eq_true, if_false] at he ⊢
        omega
    · have htime : (x.st.tcb t).taskStatus.timeout = true := by
        cases htime : (x.st.tcb t).taskStatus.timeout with
        | true => rfl
        | false => exact absurd (hgot.mp htime) hm
      rw [List.erase_of_not_mem hm, htime, hc]
      simp

/-- A call of the scheduler that meets the condition is safe for the queues. -/
theorem SchedCall.Grants.safe {c : SchedCall} (hok : c.Grants x) (ha : c.Apart x) : c.Safe True x.st := by
  cases c with
  | wait | wake | adjust | exit => exact ha.elim
  | scanWake c e => exact fun t ht => (hok t ht).2
  | suspend t pm checkOnRun r => exact fun hpm hw => ⟨trivial,hok hpm hw⟩
  | start | run | yield | delay | scanTake | resume | clock => trivial

/-- The scheduler's calls. -/
private theorem PendInv.sched_step (hx : PendInv ic x) {c : SchedCall} (hp : c.Pre x.st) (ha : c.Apart x) (hok : c.Grants x) :
    ∃ s', c.step x.st = some s' ∧ PendInv ic { x with st := s' } := by
  obtain ⟨s',hs,hinv⟩ := c.step_inv hx.sched hp (hok.safe ha)
  refine ⟨s',hs,?_⟩
  cases c with
  | wait | wake | adjust | exit => exact ha.elim
  | suspend t pm checkOnRun r => exact hx.suspend hs hinv
  | scanTake c => exact hx.scanTake hp.2 hs hinv
  | start t e =>
    cases hs
    exact hx.start hp.1 hinv
  | run t =>
    cases hs
    exact hx.runTask hp hinv
  | yield t e r =>
    cases hs
    exact hx.yield hp hinv
  | delay t r =>
    cases hs
    exact hx.delay hp hinv
  | scanWake c e =>
    cases hs
    exact hx.scanWake hok hinv
  | resume t e =>
    cases hs
    exact hx.resume hok hinv
  | clock n =>
    cases hs
    exact ⟨hinv,hx.task,hx.nodup,hx.woken,hx.done,hx.conserve⟩

/-- A call that meets the condition unlinks only what is linked. -/
theorem PendCall.step_inv (c : PendCall) (hx : PendInv ic x) (hp : c.Pre x) (hok : c.Ok x) : ∃ x', c.step x = some x' ∧ PendInv ic x' := by
  cases c with
  | pend t o position ticks r =>
    rw [step]
    split_ifs with hpos
    · exact ⟨_,rfl,hx.take hpos t⟩
    · exact ⟨_,rfl,hx.wait hp.1 hp.2.1 hp.2.2 (hx.sched.wait hp.1 o position ticks r)⟩
  | post o e =>
    rw [step]
    cases hl : x.st.pendList o with
    | nil => exact ⟨_,rfl,hx.give o⟩
    | cons t rest =>
      have hpending := (((hx.task t).listed o).mp (hl ▸ List.mem_cons_self)).1
      obtain ⟨s',hw,hinv⟩ := hx.sched.wake hpending (hok t (by rw [hl]; rfl)) e
      simp only [hw, Option.map_some]
      exact ⟨_,rfl,hx.post hl hw hinv⟩
  | ret t =>
    rw [step]
    cases hcall : x.pend t with
    | none => exact absurd hcall hp.2
    | some w => exact ⟨_,rfl,hx.ret hp.1 hcall⟩
  | sched c =>
    obtain ⟨s',hs,h⟩ := hx.sched_step hp.1 hp.2 hok
    rw [step, hs, Option.map_some]
    exact ⟨_,rfl,h⟩

/-- The law of the blocking calls: LOS_OK is returned exactly where a token was handed over; the tokens that an object had and was
given are there, with a woken task or returned; a task that is in no call or has left its wait is on no pend list; and a task that
waits with a timeout is in the timeout queue of its CPU at its response time, unless it is frozen or a scan is about to wake it. -/
structure PendLaw (initCount : Nat → Nat) (x : PendHist) : Prop where
  returns : ∀ r ∈ x.done, r.ok = true ↔ r.granted = true
  conserve : ∀ o, initCount o + x.posts o =
    x.count o + x.woken.countP (fun p => p.2 = o) + x.done.countP fun r => r.object = o ∧ r.ok = true
  listed : ∀ t o, t ∈ x.st.pendList o →
    (∃ w ∈ x.pend t, w.object = o) ∧ (x.st.tcb t).taskStatus.pending = true ∧ ∀ o', (t,o') ∉ x.woken
  timed : ∀ t, ∀ w ∈ x.pend t, (x.st.tcb t).taskStatus.pending = true → w.ticks ≠ LOS_WAIT_FOREVER →
    (x.st.tcb t).taskStatus.pendTime = true ∧
      ((x.st.tcb t).sortList.responseTime = some w.responseTime ∧
          ((x.st.tcb t).taskStatus.frozen = true ∨ t ∈ (x.st.timeoutQueue (x.st.tcb t).sortList.cpuid).sortLink) ∨ x.st.Taken t)

theorem PendInv.law (hx : PendInv ic x) : PendLaw ic x := by
  refine ⟨hx.done,hx.conserve,fun t o hm => ?_,fun t w hw hp hf => ?_⟩
  · obtain ⟨hp,hcall⟩ := ((hx.task t).listed o).mp hm
    exact ⟨Option.map_eq_some_iff.mp hcall,hp,((hx.task t).waits hp).2⟩
  · obtain ⟨hpt,hn⟩ := (hx.task t).timed w hw hp hf
    refine ⟨hpt,hn.imp_left fun hn => ⟨hn,?_⟩⟩
    rcases Bool.eq_false_or_eq_true (x.st.tcb t).taskStatus.frozen with hfr | hfr
    · exact .inl hfr
    · exact .inr ((hx.sched.link.linked t _).mpr ⟨by rw [hn]; nofun,rfl,hfr⟩)

def pendInit (s : SchedState) (initCount : Nat → Nat) : PendHist := ⟨s,initCount,fun _ => none,[],fun _ => 0,[]⟩

/-- The tasks, the objects and what is called on them; a run ends where a node is unlinked that is not linked. -/
def pendSystem (initCount : Nat → Nat) : Run.System PendHist PendCall where
  init x := ∃ coreNum ops cpuAffiMask, 0 < coreNum ∧ x = pendInit (schedInit coreNum ops cpuAffiMask) initCount
  pre x c := c.Pre x ∧ (c.step x).isSome
  run x c := (c.step x).getD x

instance (initCount : Nat → Nat) (x : PendHist) (c : PendCall) : Decidable ((pendSystem initCount).pre x c) :=
  inferInstanceAs (Decidable (_ ∧ _))

/-- The states that calls reach when each of them meets ok in the state it is made in. -/
abbrev PendReachable (ok : PendHist → PendCall → Prop) (initCount : Nat → Nat) : PendHist → Prop := Run.Reachable (pendSystem initCount) ok

theorem PendReachable.inv (h : PendReachable (fun x c => c.Ok x) ic x) : PendInv ic x := by
  refine h.invariant (fun x hx => ?_) fun x c hi hp hok => ?_
  · obtain ⟨coreNum,ops,cpuAffiMask,hc,rfl⟩ := hx
    refine ⟨schedInv_init hc ops cpuAffiMask,fun t => ?_,fun _ => List.nodup_nil,List.nodup_nil,nofun,fun _ => rfl⟩
    refine ⟨fun _ => rfl,fun _ _ => rfl,fun o => ⟨nofun,nofun⟩,fun _ => ⟨rfl,fun _ => rfl⟩,nofun,nofun,nofun,nofun,fun _ => nofun⟩
  · obtain ⟨x1,he,h1⟩ := c.step_inv hi hp.1 hok
    rwa [show (pendSystem ic).run x c = x1 from congrArg (·.getD x) he]

/-- A blocking call reports success exactly where a token was handed over, along every run that meets the condition. -/
theorem pendLaw_of_reachable (x : PendHist) (initCount : Nat → Nat) (h : PendReachable (fun x c => c.Ok x) initCount x) :
    PendLaw initCount x :=
  h.inv.law

/-- Task 7 waits with a timeout, is suspended, gets the timeout and returns with it when it is resumed. Task 8 waits with a timeout
too, is frozen, resumed in time, and gets the token of a post between the two parts of the scan that has taken its node. -/
theorem pendLaw_timeout : ∃ x, PendReachable (fun x c => c.Ok x) (fun _ => 0) x ∧
    x.done = [⟨7,0,false,false⟩,⟨8,0,true,true⟩] ∧ PendLaw (fun _ => 0) x := by
  have h0 : PendReachable (fun x c => c.Ok x) (fun _ => 0) (pendInit (schedInit 1 (fun _ => .hpf) fun _ => 1) fun _ => 0) :=
    .init ⟨1,_,_,by decide,rfl⟩
  have h1 := h0.calls [.sched (.start 7 .newPeriod),.sched (.run 7),.pend 7 0 0 10 10,.sched (.suspend 7 false true 0),
    .sched (.start 8 .newPeriod),.sched (.run 8),.pend 8 0 1 20 20,.sched (.suspend 8 true true 0),.sched (.clock 15),
    .sched (.resume 8 .newPeriod),.sched (.scanTake 0),.sched (.scanWake 0 .newPeriod),.sched (.resume 7 .newPeriod),.sched (.run 7),
    .ret 7,.sched (.clock 20),.sched (.scanTake 0),.post 0 .newPeriod,.sched (.scanWake 0 .newPeriod),.sched (.run 8),.ret 8]
    (by decide +kernel)
  exact ⟨_,h1,by decide +kernel,pendLaw_of_reachable _ _ h1⟩

/-- A task that is frozen while it waits, and is resumed after its time, returns with LOS_OK although nobody has posted. -/
theorem pendLaw_fails_frozen : ¬ ∀ x, PendReachable (fun _ _ => True) (fun _ => 0) x → PendLaw (fun _ => 0) x := by
  intro hall
  have h0 : PendReachable (fun _ _ => True) (fun _ => 0) (pendInit (schedInit 1 (fun _ => .hpf) fun _ => 1) fun _ => 0) :=
    .init ⟨1,_,_,by decide,rfl⟩
  have h1 := h0.calls [.sched (.start 7 .newPeriod),.sched (.run 7),.pend 7 0 0 10 10,.sched (.suspend 7 true true 0),
    .sched (.clock 20),.sched (.resume 7 .newPeriod),.sched (.run 7),.ret 7] (by decide +kernel)
  exact absurd ((hall _ h1).returns ⟨7,0,true,false⟩ (by decide +kernel)) (by decide)

end LiteOsKernel.Sched.Timeout
