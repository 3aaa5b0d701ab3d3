import LiteOsKernel.Ipc.MuxInv

/-! How the calls of a mutex end, and that each end keeps what holds between two calls. -/
namespace LiteOsKernel.Ipc.Mux
open LiteOsKernel.Ipc.Rwlock (lockPend lockPend_perm)
open LiteOsKernel.Sched.Priority (HpfPolicy SchedHPF SchedParam)
open MuxState

variable {x : MuxHist} {s s' : MuxState} {t m : Nat} {w : Waiter} {r : Resumed} {rest : List Waiter} {mutex : LosMux}

/-- What a lock call does: the free mutex is taken, the owner of a recursive one locks it again, an error is returned, or the task
waits. -/
inductive LockResult (s : MuxState) (t m : Nat) (preemptable : Bool) (timeout : Nat) : Option (MuxState × Option MuxRet) → Prop
  | take (s' : MuxState) (h0 : (s.mux m).muxCount = 0)
      (hs : SameLocks ((s.setMux m { s.mux m with muxCount := 1, owner := some t }).holdListInsert m t) s')
      (hp : (s.mux m).attr.protocol ≠ .protect →
        s' = (s.setMux m { s.mux m with muxCount := 1, owner := some t }).holdListInsert m t) :
      LockResult s t m preemptable timeout (some (s',some .ok))
  | again (h0 : (s.mux m).muxCount ≠ 0) (ho : (s.mux m).owner = some t) (hr : (s.mux m).attr.type = .recursive) :
      LockResult s t m preemptable timeout (some (if (s.mux m).muxCount < MUX_COUNT_MAX then
        s.setMux m { s.mux m with muxCount := (s.mux m).muxCount + 1 } else s,some .ok))
  | error (ret : MuxRet) (h : ret ≠ .ok) : LockResult s t m preemptable timeout (some (s,some ret))
  | wait (s' : MuxState) (l : List Waiter) (ho : (s.mux m).owner ≠ none) (hs : SameLocks s s')
      (hset : s.osMuxBitmapSet m t = some s') (htime : timeout ≠ 0) (hpre : preemptable = true)
      (hself : (s.mux m).owner = some t → (s.mux m).attr.type = .normal)
      (hl : l.Perm (⟨t,timeout⟩ :: (s.mux m).muxList)) :
      LockResult s t m preemptable timeout (some (s'.setMux m { s'.mux m with muxList := l },none))

private theorem osMuxPendOp_result (preemptable : Bool) (t timeout : Nat) (ho : 0 < (s.mux m).muxCount → (s.mux m).owner ≠ none)
    (he : (s.mux m).owner = some t → (s.mux m).attr.type ≠ .errorcheck) :
    LockResult s t m preemptable timeout (s.osMuxPendOp preemptable t m timeout) := by
  rw [MuxState.osMuxPendOp]
  simp only
  by_cases h0 : (s.mux m).muxCount = 0
  · rw [if_pos h0]
    refine .take _ h0 ?_ fun hp => if_neg hp
    split_ifs
    · exact SameLocks.priorityInheritance ..
    · exact SameLocks.refl _
  · rw [if_neg h0]
    have ho := ho (Nat.pos_of_ne_zero h0)
    by_cases h1 : (s.mux m).owner = some t ∧ (s.mux m).attr.type = .recursive
    · rw [if_pos h1]
      exact .again h0 h1.1 h1.2
    · rw [if_neg h1]
      split_ifs with h2 h3
      · exact .error .einval (by decide)
      · exact .error .edeadlk (by decide)
      · obtain ⟨s',hset,hs⟩ := osMuxBitmapSet_eq ho t
        have hself : (s.mux m).owner = some t → (s.mux m).attr.type = .normal := by
          intro hc
          cases htype : (s.mux m).attr.type with
          | normal => rfl
          | recursive => exact absurd ⟨hc,htype⟩ h1
          | errorcheck => exact absurd htype (he hc)
        rw [hset]
        refine .wait s' _ ho hs hset h2 (Bool.eq_true_of_not_eq_false h3) hself ?_
        rw [hs.mux]
        exact lockPend_perm ..

private theorem osMuxLockUnsafe_result (preemptable : Bool) (t timeout : Nat) (ho : 0 < (s.mux m).muxCount → (s.mux m).owner ≠ none) :
    LockResult s t m preemptable timeout (s.osMuxLockUnsafe preemptable t m timeout) := by
  rw [MuxState.osMuxLockUnsafe]
  split_ifs with _ _ h3
  · exact .error .ebadf (by decide)
  · exact .error .einval (by decide)
  · exact .error .edeadlk (by decide)
  · exact osMuxPendOp_result preemptable t timeout ho fun hc ht => h3 ⟨ht,hc⟩

private theorem osMuxTrylockUnsafe_result (preemptable : Bool) (t timeout : Nat) (ho : 0 < (s.mux m).muxCount → (s.mux m).owner ≠ none) :
    LockResult s t m preemptable timeout (s.osMuxTrylockUnsafe preemptable t m timeout) := by
  rw [MuxState.osMuxTrylockUnsafe]
  split_ifs with _ _ h3
  · exact .error .ebadf (by decide)
  · exact .error .einval (by decide)
  · exact .error .ebusy (by decide)
  · refine osMuxPendOp_result preemptable t timeout ho fun hc ht => h3 ⟨hc ▸ nofun,.inr ?_⟩
    rw [ht]
    decide

theorem OwnInv.owner_of_pos (h : OwnInv x) (m : Nat) : 0 < (x.st.mux m).muxCount → (x.st.mux m).owner ≠ none := (h.owned m).mp

/-- The mutex joins the lock list of a task, and was in none. -/
private theorem holdListInsert_mem {m' u : Nat} (s : MuxState) (m t : Nat) :
    m' ∈ ((s.holdListInsert m t).tcb u).lockList ↔ m' ∈ (s.tcb u).lockList ∨ m' = m ∧ u = t := by
  rw [MuxState.holdListInsert, MuxState.setTcb]
  by_cases hu : u = t
  · subst hu
    simp
  · simp [hu]

private theorem holdListInsert_nodup (hl : ∀ u, (s.tcb u).lockList.Nodup) (hm : ∀ u, m ∉ (s.tcb u).lockList) (t u : Nat) :
    ((s.holdListInsert m t).tcb u).lockList.Nodup := by
  rw [MuxState.holdListInsert, MuxState.setTcb]
  by_cases hu : u = t
  · subst hu
    simp only [Function.update_self]
    rw [List.nodup_append]
    refine ⟨hl u,List.nodup_singleton m,fun a ha b hb => ?_⟩
    rw [List.mem_singleton] at hb
    exact fun he => hm u (hb ▸ he ▸ ha)
  · simp only [Function.update_of_ne hu]
    exact hl u

/-- The free mutex is taken. -/
theorem MuxInv.take (h : MuxInv x) (h0 : (x.st.mux m).muxCount = 0) (t : Nat) :
    MuxInv (x.locked m ((x.st.setMux m { x.st.mux m with muxCount := 1, owner := some t }).holdListInsert m t) (some .ok)) := by
  have hnone : (x.st.mux m).owner = none := by
    by_contra hc
    have := (h.own.owned m).mpr hc
    omega
  have hfree : ∀ u, m ∉ (x.st.tcb u).lockList := by
    intro u hm
    rw [h.own.held, hnone] at hm
    cases hm
  rw [MuxHist.locked, if_pos rfl, if_pos h0]
  refine ⟨h.own.step rfl ?_ ?_ ?_ ?_ ?_ ?_,h.wait.setOwner rfl rfl rfl rfl ?_ ?_ ?_⟩
  · exact iff_of_true Nat.one_pos nofun
  · exact fun _ => Nat.le_refl 1
  · rfl
  · intro u m' hm
    rw [holdListInsert_mem]
    exact or_iff_left fun hc => hm hc.1
  · intro u
    rw [holdListInsert_mem]
    refine (or_iff_right (hfree u)).trans ⟨fun hc => hc.2 ▸ rfl,fun hc => ⟨rfl,?_⟩⟩
    exact (Option.some.inj hc).symm
  · exact holdListInsert_nodup h.own.once hfree t
  · exact fun _ => nofun
  · intro r hr hm hf
    have := h.wait.granted r hr hf
    rw [hm, hnone] at this
    cases this
  · exact fun _ _ _ _ _ => nofun

/-- The owner of a recursive mutex locks it once more. -/
theorem MuxInv.again (h : MuxInv x) (ho : (x.st.mux m).owner = some t) (hr : (x.st.mux m).attr.type = .recursive) :
    MuxInv (x.locked m (x.st.setMux m { x.st.mux m with muxCount := (x.st.mux m).muxCount + 1 }) (some .ok)) := by
  have h0 : (x.st.mux m).muxCount ≠ 0 := by
    have := (h.own.owned m).mpr (ho ▸ nofun)
    omega
  rw [MuxHist.locked, if_pos rfl, if_neg h0]
  refine ⟨?_,h.wait.setOwner rfl rfl rfl rfl ?_ ?_ ?_⟩
  · have hown := h.own.step (q := x.st.setMux m { x.st.mux m with muxCount := (x.st.mux m).muxCount + 1 }) rfl ?_ ?_
      (a := x.locks m + 1) (b := x.unlocks m) ?_ ?_ ?_ ?_
    · rwa [Function.update_eq_self m x.unlocks] at hown
    · exact iff_of_true (Nat.succ_pos _) (ho ▸ nofun)
    · exact fun hc => absurd hr hc
    · have := h.own.count m
      simp only
      omega
    · exact fun _ _ _ => Iff.rfl
    · exact h.own.held m
    · exact h.own.once
  · exact h.wait.waiting m
  · exact fun r hr hm => hm ▸ h.wait.granted r hr
  · exact fun r hr hm => hm ▸ h.wait.late r hr

private theorem locked_st (x : MuxHist) (m : Nat) (ret : Option MuxRet) (s s' : MuxState) :
    { x.locked m s ret with st := s' } = x.locked m s' ret := by
  rw [MuxHist.locked, MuxHist.locked]
  split_ifs <;> rfl

/-- A lock call, however it ends. The count of a recursive mutex must not be at its greatest value. -/
theorem MuxInv.lock (h : MuxInv x) (hi : x.st.Idle t) {preemptable : Bool} {timeout : Nat} {res : Option (MuxState × Option MuxRet)}
    (hres : LockResult x.st t m preemptable timeout res)
    (hok : (x.st.mux m).owner = some t → (x.st.mux m).attr.type = .recursive → (x.st.mux m).muxCount < MUX_COUNT_MAX) :
    ∃ x', (res.map fun (st,ret) => x.locked m st ret) = some x' ∧ MuxInv x' := by
  cases hres with
  | take s' h0 hs _ =>
    refine ⟨_,rfl,?_⟩
    have := (h.take h0 t).same (?_ : SameLocks _ s')
    · rwa [locked_st] at this
    · rw [MuxHist.locked, if_pos rfl, if_pos h0]
      exact hs
  | again h0 ho hr =>
    refine ⟨_,rfl,?_⟩
    rw [if_pos (hok ho hr)]
    exact h.again ho hr
  | error ret hret =>
    refine ⟨x.locked m x.st (some ret),rfl,?_⟩
    rw [MuxHist.locked, if_neg (by simpa using hret)]
    exact h
  | wait s' l ho hs _ _ _ _ hl =>
    refine ⟨x.locked m (s'.setMux m { s'.mux m with muxList := l }) none,rfl,?_⟩
    rw [MuxHist.locked, if_neg nofun]
    have hsame := h.same hs
    refine ⟨?_,?_⟩
    · have hown := hsame.own.step (q := s'.setMux m { s'.mux m with muxList := l }) rfl (hsame.own.owned m) (hsame.own.single m)
        (hsame.own.count m) (fun _ _ _ => Iff.rfl) (hsame.own.held m) hsame.own.once
      rwa [Function.update_eq_self m x.unlocks, Function.update_eq_self m x.locks] at hown
    · refine hsame.wait.join (w := ⟨t,timeout⟩) ⟨?_,?_⟩ ?_ l ?_ <;> simp only [hs.mux, hs.resumed]
      · exact hi.1
      · exact hi.2
      · exact ho
      · exact hl

/-- What an unlock call does: an error is returned, the owner of a recursive mutex still has it, the mutex becomes free, or it passes
to the first task that waits. -/
inductive UnlockResult (s : MuxState) (t m : Nat) : Option (MuxState × MuxRet) → Prop
  | error (ret : MuxRet) (h : ret ≠ .ok) : UnlockResult s t m (some (s,ret))
  | again (ho : (s.mux m).owner = some t) (hr : (s.mux m).attr.type = .recursive) (h1 : 1 < (s.mux m).muxCount) :
      UnlockResult s t m (some (s.setMux m { s.mux m with muxCount := (s.mux m).muxCount - 1 },.ok))
  | free (s' : MuxState) (ho : (s.mux m).owner = some t) (h1 : (s.mux m).attr.type = .recursive → (s.mux m).muxCount = 1)
      (hl : (s.mux m).muxList = []) (hres : s'.resumed = s.resumed)
      (hmux : s'.mux = Function.update s.mux m { s.mux m with muxCount := (s.mux m).muxCount - 1, owner := none })
      (hlock : ∀ u, (s'.tcb u).lockList = (s.tcb u).lockList.erase m) (hops : ∀ u, (s'.tcb u).ops = (s.tcb u).ops)
      (hsp : (s.mux m).attr.protocol ≠ .protect → ∀ u, (s'.tcb u).sp = (s.tcb u).sp) : UnlockResult s t m (some (s',.ok))
  | pass (s' : MuxState) (w : Waiter) (rest : List Waiter) (ho : (s.mux m).owner = some t)
      (h1 : (s.mux m).attr.type = .recursive → (s.mux m).muxCount = 1) (hl : (s.mux m).muxList = w :: rest)
      (hres : s'.resumed = s.resumed ++ [⟨w.task,m,false⟩])
      (hmux : s'.mux = Function.update s.mux m { s.mux m with muxCount := 1, owner := some w.task, muxList := rest })
      (hlock : ∀ u, (s'.tcb u).lockList = if u = w.task then (s.tcb u).lockList.erase m ++ [m] else (s.tcb u).lockList.erase m)
      (hops : ∀ u, (s'.tcb u).ops = (s.tcb u).ops) (hsp : (s.mux m).attr.protocol = .inherit → ∀ u,
        (s'.tcb u).sp = ((s.priorityRestore t (s.mux m).muxList (s.tcb w.task).schedParamGet).tcb u).sp) :
      UnlockResult s t m (some (s',.ok))

private theorem holdListInsert_lockList (s : MuxState) (m t u : Nat) :
    ((s.holdListInsert m t).tcb u).lockList = if u = t then (s.tcb u).lockList ++ [m] else (s.tcb u).lockList := by
  rw [MuxState.holdListInsert, MuxState.setTcb]
  by_cases hu : u = t
  · subst hu
    simp
  · simp [hu]

theorem holdListInsert_sp (s : MuxState) (m t u : Nat) :
    ((s.holdListInsert m t).tcb u).sp = (s.tcb u).sp ∧ ((s.holdListInsert m t).tcb u).ops = (s.tcb u).ops := by
  rw [MuxState.holdListInsert, MuxState.setTcb]
  by_cases hu : u = t
  · subst hu
    simp
  · simp [hu]

theorem osMuxBitmapRestore_inherit {o : Nat} (hp : (s.mux m).attr.protocol = .inherit) (ho : (s.mux m).owner = some o)
    (list : List Waiter) (t : Nat) :
    s.osMuxBitmapRestore m list t = some (s.priorityRestore o list (s.tcb t).schedParamGet) := by
  rw [MuxState.osMuxBitmapRestore, if_neg (not_not.mpr hp), ho]
  rfl

/-- Priorities are restored whatever the mutexes are. -/
private theorem priorityRestore_setMux (s : MuxState) (m : Nat) (mutex : LosMux) (o : Nat) (list : List Waiter) (param : SchedParam) :
    ((s.setMux m mutex).priorityRestore o list param).tcb = (s.priorityRestore o list param).tcb := by
  rw [MuxState.priorityRestore, MuxState.priorityRestore]
  have hops : ((s.setMux m mutex).tcb o).ops = (s.tcb o).ops := rfl
  rw [hops]
  cases (s.tcb o).ops <;> rfl

private theorem osMuxPostOp_result {s1 : MuxState} (hs : SameLocks (s.setMux m { s.mux m with muxCount := (s.mux m).muxCount - 1 }) s1)
    (hs1 : (s.mux m).attr.protocol ≠ .protect → s1 = s.setMux m { s.mux m with muxCount := (s.mux m).muxCount - 1 })
    (ho : (s.mux m).owner = some t) (h1 : (s.mux m).attr.type = .recursive → (s.mux m).muxCount = 1) :
    UnlockResult s t m ((s1.osMuxPostOp m).map fun s => (s,.ok)) := by
  have hself : s1.mux m = { s.mux m with muxCount := (s.mux m).muxCount - 1 } := by
    rw [hs.mux]
    exact setMux_self ..
  -- what is written to the mutex last is what counts
  have hupdate : ∀ mutex, Function.update s1.mux m mutex = Function.update s.mux m mutex := by
    intro mutex
    rw [hs.mux, MuxState.setMux]
    exact Function.update_idem ..
  unfold MuxState.osMuxPostOp
  cases hl : (s.mux m).muxList with
  | nil =>
    simp only [hself, hl]
    refine .free _ ho h1 hl hs.resumed ?_ (fun u => ?_) hs.ops fun hp u => ?_
    · rw [MuxState.setMux]
      simp only [MuxState.holdListDelete]
      rw [hupdate, hl]
    · simp only [MuxState.setMux, MuxState.holdListDelete]
      rw [hs.lockList]
      rfl
    · rw [hs1 hp]
      rfl
  | cons w rest =>
    obtain ⟨s2,he,h2⟩ := osMuxBitmapRestore_eq (s := s1) (m := m) (fun _ => by rw [hself]; exact ho ▸ nofun) (w :: rest) w.task
    have hself2 : s2.mux m = { s.mux m with muxCount := (s.mux m).muxCount - 1 } := by rw [h2.mux, hself]
    simp only [hself, hl, he, Option.map_some, hself2]
    refine .pass _ w rest ho h1 hl ?_ ?_ (fun u => ?_) (fun u => ?_) fun hp u => ?_
    · simp only [MuxState.holdListInsert, MuxState.setTcb, MuxState.holdListDelete, MuxState.setMux, h2.resumed, hs.resumed]
    · simp only [MuxState.holdListInsert, MuxState.setTcb, MuxState.holdListDelete, MuxState.setMux]
      rw [h2.mux, hupdate]
    · rw [holdListInsert_lockList]
      simp only [MuxState.holdListDelete, MuxState.setMux]
      rw [h2.lockList, hs.lockList]
      rfl
    · rw [(holdListInsert_sp ..).2]
      exact (h2.ops u).trans (hs.ops u)
    · rw [(holdListInsert_sp ..).1]
      have hnp : (s.mux m).attr.protocol ≠ .protect := by
        rw [hp]
        decide
      rw [osMuxBitmapRestore_inherit (by rw [hself]; exact hp) (by rw [hself]; exact ho), Option.some.injEq] at he
      have hdelete : ∀ s' : MuxState, ((s'.holdListDelete m).tcb u).sp = (s'.tcb u).sp := fun _ => rfl
      rw [← he, hs1 hnp, hl, hdelete]
      exact congrArg (fun tcb : Nat → LosTaskCB => (tcb u).sp) (priorityRestore_setMux ..)

private theorem osMuxUnlockUnsafe_result (s : MuxState) (t m : Nat) : UnlockResult s t m (s.osMuxUnlockUnsafe t m) := by
  rw [MuxState.osMuxUnlockUnsafe]
  simp only
  by_cases h1 : (s.mux m).magic = false
  · rw [if_pos h1]
    exact .error .ebadf (by decide)
  rw [if_neg h1]
  by_cases h2 : osCheckMutexAttr (s.mux m).attr = false
  · rw [if_pos h2]
    exact .error .einval (by decide)
  rw [if_neg h2]
  by_cases h3 : (s.mux m).owner ≠ some t
  · rw [if_pos h3]
    exact .error .eperm (by decide)
  rw [if_neg h3]
  by_cases h4 : (s.mux m).muxCount = 0
  · rw [if_pos h4]
    exact .error .eperm (by decide)
  rw [if_neg h4]
  by_cases h5 : (s.mux m).muxCount - 1 ≠ 0 ∧ (s.mux m).attr.type = .recursive
  · rw [if_pos h5]
    exact .again (not_not.mp h3) h5.2 (by omega)
  rw [if_neg h5]
  refine osMuxPostOp_result ?_ (fun hp => if_neg hp) (not_not.mp h3) fun hr => ?_
  · split_ifs
    · exact SameLocks.priorityRestore ..
    · exact SameLocks.refl _
  · by_contra hc
    exact h5 ⟨by omega,hr⟩

private theorem OwnInv.count_eq_one (h : OwnInv x) (ho : (x.st.mux m).owner = some t)
    (h1 : (x.st.mux m).attr.type = .recursive → (x.st.mux m).muxCount = 1) : (x.st.mux m).muxCount = 1 := by
  by_cases hr : (x.st.mux m).attr.type = .recursive
  · exact h1 hr
  · have hpos := (h.owned m).mpr (ho ▸ nofun)
    have hle := h.single m hr
    omega

/-- An unlock call, however it ends. A mutex with priority inheritance must not be left while a task is late. -/
theorem MuxInv.unlock (h : MuxInv x) (hi : x.st.Idle t) {res : Option (MuxState × MuxRet)} (hres : UnlockResult x.st t m res)
    (hok : (x.st.mux m).owner = some t → (x.st.mux m).muxList = [] → ((x.st.mux m).attr.type = .recursive → (x.st.mux m).muxCount = 1) →
      (x.st.mux m).attr.protocol = .inherit → ∀ r ∈ x.st.resumed, r.mutex = m → r.timeout = false) :
    ∃ x', (res.map fun (st,ret) => x.unlocked t m st ret) = some x' ∧ MuxInv x' := by
  -- no task that was granted the mutex is yet to run, for its owner runs
  have hnone : (x.st.mux m).owner = some t → ∀ r ∈ x.st.resumed, r.mutex = m → r.timeout ≠ false := by
    intro ho r hr hm hf
    have hg := h.wait.granted r hr hf
    rw [hm, ho] at hg
    exact hi.2 r hr (Option.some.inj hg).symm
  cases hres with
  | error ret hret =>
    refine ⟨x.unlocked t m x.st ret,rfl,?_⟩
    rw [MuxHist.unlocked, if_neg hret]
    exact h
  | again ho hr h1 =>
    refine ⟨x.unlocked t m (x.st.setMux m { x.st.mux m with muxCount := (x.st.mux m).muxCount - 1 }) .ok,rfl,?_⟩
    rw [MuxHist.unlocked, if_pos rfl, if_pos (by rw [setMux_self]; exact .inr ho)]
    refine ⟨?_,h.wait.setOwner rfl rfl rfl rfl (h.wait.waiting m) (fun r hr hm => hm ▸ h.wait.granted r hr)
      fun r hr hm => hm ▸ h.wait.late r hr⟩
    have hown := h.own.step (q := x.st.setMux m { x.st.mux m with muxCount := (x.st.mux m).muxCount - 1 }) rfl ?_ ?_
      (a := x.locks m) (b := x.unlocks m + 1) ?_ (fun _ _ _ => Iff.rfl) (h.own.held m) h.own.once
    · rwa [Function.update_eq_self m x.locks] at hown
    · exact iff_of_true (by simp only; omega) (ho ▸ nofun)
    · exact fun hc => absurd hr hc
    · have := h.own.count m
      simp only
      omega
  | free s' ho h1 hl hres hmux hlock _ _ =>
    have hone := h.own.count_eq_one ho h1
    have hself : (s'.mux m).owner = none := by rw [hmux, Function.update_self]
    refine ⟨x.unlocked t m s' .ok,rfl,?_⟩
    rw [MuxHist.unlocked, if_pos rfl, if_pos (.inl hself)]
    refine ⟨?_,h.wait.setOwner hmux hres rfl rfl ?_ ?_ ?_⟩
    · have hown := h.own.step (q := s') hmux ?_ ?_ (a := x.locks m) (b := x.unlocks m + 1) ?_ ?_ ?_ ?_
      · rwa [Function.update_eq_self m x.locks] at hown
      · exact iff_of_false (by simp only; omega) fun hc => hc rfl
      · exact fun _ => by simp only; omega
      · have := h.own.count m
        simp only
        omega
      · intro u m' hm
        rw [hlock, List.mem_erase_of_ne hm]
      · intro u
        rw [hlock]
        exact iff_of_false (h.own.once u).not_mem_erase nofun
      · intro u
        rw [hlock]
        exact (h.own.once u).erase m
    · exact fun hc => absurd hl hc
    · exact fun r hr hm hf => absurd hf (hnone ho r hr hm)
    · exact fun r hr hm hf hp => absurd (hok ho hl h1 hp r hr hm) (by rw [hf]; decide)
  | pass s' w rest ho h1 hl hres hmux hlock _ _ =>
    have hw : w ∈ (x.st.mux m).muxList := hl ▸ List.mem_cons_self
    have hne : w.task ≠ t := hi.1 m w hw
    have hself : (s'.mux m).owner = some w.task := by rw [hmux, Function.update_self]
    refine ⟨x.unlocked t m s' .ok,rfl,?_⟩
    rw [MuxHist.unlocked, if_pos rfl, if_neg (by rw [hself]; simpa using hne)]
    refine ⟨h.own.step hmux (iff_of_true Nat.one_pos nofun) (fun _ => Nat.le_refl 1) rfl ?_ ?_ ?_,
      h.wait.leave hw hmux hres ?_ nofun (fun _ => rfl) fun r hr hm hf => absurd hf (hnone ho r hr hm)⟩
    · intro u m' hm
      rw [hlock]
      split_ifs
      · rw [List.mem_append, List.mem_singleton, List.mem_erase_of_ne hm]
        exact or_iff_left hm
      · exact List.mem_erase_of_ne hm
    · intro u
      rw [hlock]
      split_ifs with hu
      · exact iff_of_true (List.mem_append_right _ List.mem_cons_self) (hu ▸ rfl)
      · exact iff_of_false (h.own.once u).not_mem_erase fun hc => hu (Option.some.inj hc).symm
    · intro u
      rw [hlock]
      have hn := (h.own.once u).erase m
      split_ifs
      · rw [List.nodup_append]
        refine ⟨hn,List.nodup_singleton m,fun a ha b hb he => ?_⟩
        rw [List.mem_singleton] at hb
        exact (h.own.once u).not_mem_erase (hb ▸ he ▸ ha)
      · exact hn
    · rw [hl, List.erase_cons_head]

theorem MuxInv.expire (h : MuxInv x) (hw : w ∈ (x.st.mux m).muxList) (hops : (x.st.tcb w.task).ops = .hpf) :
    MuxInv { x with st := x.st.muxTimeout m w } := by
  have hbit : (x.st.tcb w.task).ops.timeoutBit = true := by
    rw [hops]
    rfl
  refine ⟨?_,h.wait.leave hw rfl rfl rfl (h.wait.waiting m (List.ne_nil_of_mem hw)) (fun hc => ?_)
    fun r hr hm => hm ▸ h.wait.granted r hr⟩
  · have hown := h.own.step (q := x.st.muxTimeout m w) rfl (h.own.owned m) (h.own.single m) (h.own.count m)
      (fun _ _ _ => Iff.rfl) (h.own.held m) h.own.once
    rwa [Function.update_eq_self m x.unlocks, Function.update_eq_self m x.locks] at hown
  · rw [hbit] at hc
    cases hc

theorem MuxInv.resume (h : MuxInv x) (hr : r ∈ x.st.resumed) :
    ∃ x', ((x.st.muxReturn r).map fun (st,_) => { x with st := st }) = some x' ∧ MuxInv x' := by
  have hrun : MuxInv { x with st := { x.st with resumed := x.st.resumed.erase r } } :=
    ⟨⟨h.own.owned,h.own.held,h.own.once,h.own.count,h.own.single⟩,h.wait.run r⟩
  unfold MuxState.muxReturn
  by_cases hf : r.timeout = true
  · simp only [hf, if_true]
    obtain ⟨s',he,hs⟩ := osMuxBitmapRestore_eq (s := { x.st with resumed := x.st.resumed.erase r }) (m := r.mutex)
      (h.wait.late r hr hf) [] r.task
    rw [he]
    exact ⟨_,rfl,hrun.same hs⟩
  · simp only [hf]
    exact ⟨_,rfl,hrun⟩

theorem SameLocks.schedParamModify (s : MuxState) (t : Nat) (threads : List Nat) (policy : HpfPolicy) (basePrio priority : Nat) :
    SameLocks s (s.schedParamModify t threads policy basePrio priority) := by
  refine ⟨rfl,rfl,fun u => ?_,fun u => ?_⟩ <;>
  · rw [MuxState.schedParamModify]
    simp only
    split_ifs <;> rfl

theorem SameLocks.setFinishTime (s : MuxState) (t finishTime : Nat) : SameLocks s (s.setFinishTime t finishTime) := by
  refine ⟨rfl,rfl,fun u => ?_,fun u => ?_⟩ <;>
  · by_cases hu : u = t
    · subst hu
      simp [MuxState.setFinishTime, MuxState.setTcb]
    · simp [MuxState.setFinishTime, MuxState.setTcb, hu]

theorem losMuxLock_result (ho : ∀ m, 0 < (s.mux m).muxCount → (s.mux m).owner ≠ none) (ctx : PendContext) (t m timeout : Nat) :
    LockResult s t m ctx.preemptable timeout (s.losMuxLock ctx t m timeout) := by
  rw [MuxState.losMuxLock]
  split_ifs
  · exact .error .eintr (by decide)
  · exact osMuxLockUnsafe_result _ t timeout (ho m)

theorem losMuxTrylock_result (ho : ∀ m, 0 < (s.mux m).muxCount → (s.mux m).owner ≠ none) (ctx : PendContext) (t m : Nat) :
    LockResult s t m ctx.preemptable 0 (s.losMuxTrylock ctx t m) := by
  rw [MuxState.losMuxTrylock]
  split_ifs
  · exact .error .eintr (by decide)
  · exact osMuxTrylockUnsafe_result _ t 0 (ho m)

theorem losMuxUnlock_result (s : MuxState) (ctx : PendContext) (t m : Nat) : UnlockResult s t m (s.losMuxUnlock ctx t m) := by
  rw [MuxState.losMuxUnlock]
  split_ifs
  · exact .error .eintr (by decide)
  · exact osMuxUnlockUnsafe_result s t m

end LiteOsKernel.Ipc.Mux
