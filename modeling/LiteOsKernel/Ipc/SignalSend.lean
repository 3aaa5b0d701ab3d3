import LiteOsKernel.Ipc.SignalCb

/-! A signal sent to a process: the walk over its threads, and which of them it reaches. -/
namespace LiteOsKernel.Ipc.Signal

/-- Without info a masked signal that the task waits for sets no bit and is reported to nobody. alloc or an old node lets the
send succeed. -/
def Dropped (s : SigCb) (signo : Nat) (alloc : Bool) : Prop :=
  s.waiting = true ∧ s.call = some false ∧ osSigIsMember s.sigprocmask signo = true ∧ osSigIsMember s.sigwaitmask signo = true ∧
    osSigIsMember (s.sigFlag ||| s.sigPendFlag) signo = false ∧ (alloc = true ∨ s.tmpInfoList.any (·.si_signo = signo) = true)

instance (s : SigCb) (signo : Nat) (alloc : Bool) : Decidable (Dropped s signo alloc) := inferInstanceAs (Decidable (_ ∧ _))

variable {p p' : SigProcess} {s : SigCb} {t u n : Nat} {info : SigInfo} {alloc : Bool}

/-- What a send does to the process. -/
structure Broadcast (n : Nat) (p p' : SigProcess) : Prop where
  threads : p'.threads = p.threads
  share : osSigIsMember p.sigShare SIGKILL = true → osSigIsMember p'.sigShare SIGKILL = true
  sig : ∀ t, Delivered n (p.sig t) (p'.sig t)

theorem Broadcast.refl (n : Nat) (p : SigProcess) : Broadcast n p p := ⟨rfl,id,fun _ => .refl n _⟩

theorem Broadcast.trans {p'' : SigProcess} (h : Broadcast n p p') (h' : Broadcast n p' p'') : Broadcast n p p'' :=
  ⟨h'.threads.trans h.threads,fun hs => h'.share (h.share hs),fun t => (h.sig t).trans (h'.sig t)⟩

@[simp] theorem SigProcess.set_threads : (p.set t s).threads = p.threads := rfl

@[simp] theorem SigProcess.set_sigShare : (p.set t s).sigShare = p.sigShare := rfl

theorem SigProcess.set_sig (p : SigProcess) (t : Nat) (s : SigCb) (u : Nat) : (p.set t s).sig u = if u = t then s else p.sig u :=
  Function.update_apply p.sig t s u

theorem SigProcess.set_sig_of_ne (h : u ≠ t) : (p.set t s).sig u = p.sig u := by rw [set_sig, if_neg h]

@[simp] theorem SigProcess.set_sig_self : (p.set t s).sig t = s := by rw [set_sig, if_pos rfl]

theorem broadcast_set (h : Delivered n (p.sig t) s) : Broadcast n p (p.set t s) := by
  refine ⟨rfl,id,fun u => ?_⟩
  rw [SigProcess.set_sig]
  split_ifs with hu
  · rw [hu]
    exact h
  · exact .refl n _

/-- The send has ended a wait of the thread with info. -/
def Woken (p p' : SigProcess) (t : Nat) : Prop :=
  (p.sig t).waiting = true ∧ (p'.sig t).waiting = false ∧ (p.sig t).call = some true

instance (p p' : SigProcess) (t : Nat) : Decidable (Woken p p' t) := inferInstanceAs (Decidable (_ ∧ _))

/-- The send has set the bit of the signal at the thread, or has ended a wait of the thread with info. -/
def Received (p p' : SigProcess) (t n : Nat) : Prop :=
  osSigIsMember ((p'.sig t).sigFlag ||| (p'.sig t).sigPendFlag) n = true ∨ Woken p p' t

/-- A dispatch that succeeds reaches the thread when it is not dropped there. -/
theorem received_of_dispatch (hcall : (p.sig t).waiting = true → (p.sig t).call ≠ none) (hn : goodSigno info.si_signo = true)
    (hret : (osTcbDispatch (p.sig t) info alloc).2 = 0) (hd : ¬ Dropped (p.sig t) info.si_signo alloc) :
    Received p (p.set t (osTcbDispatch (p.sig t) info alloc).1) t info.si_signo := by
  rw [Received, SigProcess.set_sig_self]
  by_cases h0 : info.si_signo = 0
  · exact .inl (osSigIsMember_invalid fun h => h.1 h0)
  · rcases osTcbDispatch_records (p.sig t) alloc hn with hrec | ⟨hw,hm,hset⟩
    · exact .inl hrec
    · obtain ⟨hw',hok⟩ := osTcbDispatch_wakes h0 hret hset
      cases hc : (p.sig t).call with
      | none => exact absurd hc (hcall hw)
      | some c =>
        cases c with
        | true => exact .inr ⟨hw,by rw [SigProcess.set_sig_self]; exact hw',hc⟩
        | false =>
          cases hmem : osSigIsMember ((p.sig t).sigFlag ||| (p.sig t).sigPendFlag) info.si_signo with
          | true => exact .inl ((osTcbDispatch_delivered _ _ _).recorded _ hmem)
          | false => exact absurd ⟨hw,hc,hm,hset,hmem,hok⟩ hd

/-- What SigProcessSignalHandler has found out: the threads in seen were asked whether they wait for the signal, those in passed
whether they mask it. -/
structure Walk (p₀ : SigProcess) (alloc : Nat → Bool) (sigInfo : SigInfo) (seen passed : List Nat) (p : SigProcess)
    (info : ProcessSignalInfo) : Prop where
  info_eq : info.sigInfo = sigInfo
  broadcast : Broadcast sigInfo.si_signo p₀ p
  received : ∀ t, info.receivedTcb = some t → t ∈ p₀.threads ∧
    osSigIsMember ((p.sig t).sigFlag ||| (p.sig t).sigPendFlag) sigInfo.si_signo = true
  awakened : ∀ t, info.receivedTcb = none → info.awakenedTcb = some t →
    p₀.threads.find? (fun t => osSigIsMember (p₀.sig t).sigwaitmask sigInfo.si_signo) = some t ∧
      (Dropped (p₀.sig t) sigInfo.si_signo (alloc t) ∨ Received p₀ p t sigInfo.si_signo)
  masked : info.receivedTcb = none → info.unblockedTcb = none ∧ ∀ v ∈ passed,
    info.awakenedTcb = some v ∨ osSigIsMember (p₀.sig v).sigprocmask sigInfo.si_signo = true
  untouched : info.receivedTcb = none → info.awakenedTcb = none → p = p₀ ∧ info.defaultTcb = seen.head? ∧
    ∀ v ∈ seen, osSigIsMember (p₀.sig v).sigwaitmask sigInfo.si_signo = false

variable {p₀ : SigProcess} {allocs : Nat → Bool} {sigInfo : SigInfo} {seen passed rest : List Nat} {info : ProcessSignalInfo}

/-- What a visit leads to: an error, the end of the walk with a thread that has received the signal, or the next thread. -/
def Visited (p₀ : SigProcess) (allocs : Nat → Bool) (sigInfo : SigInfo) (seen : List Nat)
    (r : (SigProcess × ProcessSignalInfo) × Int) : Prop :=
  Broadcast sigInfo.si_signo p₀ r.1.1 ∧ (r.2 < 0 ∨ Walk p₀ allocs sigInfo seen seen r.1.1 r.1.2 ∧
    (r.2 = 0 ∨ r.2 = SIG_STOP_VISIT ∧ r.1.2.receivedTcb ≠ none))

private theorem Walk.broadcast_dispatch (h : Walk p₀ allocs sigInfo seen passed p info) (t : Nat) (alloc : Bool) :
    Broadcast sigInfo.si_signo p₀ (p.set t (osTcbDispatch (p.sig t) sigInfo alloc).1) :=
  h.broadcast.trans (broadcast_set (osTcbDispatch_delivered _ _ _))

/-- The thread has received the signal. -/
private theorem Walk.receive (h : Walk p₀ allocs sigInfo seen passed p info) (ht : t ∈ p₀.threads) (hn : goodSigno sigInfo.si_signo = true)
    (hm : osSigIsMember (p.sig t).sigprocmask sigInfo.si_signo = false) (d ub aw : Option Nat) :
    Walk p₀ allocs sigInfo seen seen (p.set t (osTcbDispatch (p.sig t) sigInfo alloc).1) ⟨sigInfo,d,ub,aw,some t⟩ := by
  refine ⟨rfl,h.broadcast_dispatch t _,fun u hu => ?_,fun _ hr => (Option.some_ne_none t hr).elim,
    fun hr => (Option.some_ne_none t hr).elim,fun hr => (Option.some_ne_none t hr).elim⟩
  cases hu
  refine ⟨ht,?_⟩
  rw [SigProcess.set_sig_self]
  rcases osTcbDispatch_records (p.sig t) alloc hn with hrec | ⟨-,hm',-⟩
  · exact hrec
  · rw [hm] at hm'
    cases hm'

/-- The thread keeps its mask, or is the one that was awakened, or another has received the signal. -/
theorem Walk.pass (h : Walk p₀ allocs sigInfo (passed ++ [t]) passed p info)
    (hv : ¬ (osSigIsMember (p.sig t).sigprocmask sigInfo.si_signo = false ∧ info.receivedTcb = none ∧ info.awakenedTcb ≠ some t)) :
    Walk p₀ allocs sigInfo (passed ++ [t]) (passed ++ [t]) p info := by
  refine ⟨h.info_eq,h.broadcast,h.received,h.awakened,fun hr => ⟨(h.masked hr).1,fun v hv' => ?_⟩,h.untouched⟩
  rcases List.mem_append.mp hv' with hv' | hv'
  · exact (h.masked hr).2 v hv'
  · rw [List.mem_singleton.mp hv']
    by_cases ha : info.awakenedTcb = some t
    · exact .inl ha
    · refine .inr ?_
      rw [← (h.broadcast.sig t).mask]
      by_contra hm
      exact hv ⟨Bool.not_eq_true _ ▸ hm,hr,ha⟩

theorem visitUnblocked_dispatch {i : SigInfo} {d ub aw : Option Nat} (hm : osSigIsMember (p.sig t).sigprocmask i.si_signo = false)
    (ha : aw ≠ some t) : visitUnblocked allocs p ⟨i,d,ub,aw,none⟩ t =
      if (osTcbDispatch (p.sig t) i (allocs t)).2 < 0 then
        ((p.set t (osTcbDispatch (p.sig t) i (allocs t)).1,⟨i,d,ub <|> some t,aw,none⟩),(osTcbDispatch (p.sig t) i (allocs t)).2)
      else
        ((p.set t (osTcbDispatch (p.sig t) i (allocs t)).1,⟨i,d,ub <|> some t,aw,some t⟩),if aw ≠ none then SIG_STOP_VISIT else 0) := by
  rw [visitUnblocked, if_pos ⟨hm,rfl,ha⟩]
  cases ub <;> rfl

private theorem visitUnblocked_visited (h : Walk p₀ allocs sigInfo (passed ++ [t]) passed p info) (ht : t ∈ p₀.threads)
    (hn : goodSigno sigInfo.si_signo = true) :
    Visited p₀ allocs sigInfo (passed ++ [t]) (visitUnblocked allocs p info t) := by
  obtain ⟨i,d,ub,aw,rc⟩ := info
  obtain rfl : i = sigInfo := h.info_eq
  by_cases hv : osSigIsMember (p.sig t).sigprocmask i.si_signo = false ∧ rc = none ∧ aw ≠ some t
  · obtain ⟨hm,rfl,ha⟩ := hv
    obtain rfl : ub = none := (h.masked rfl).1
    rw [visitUnblocked_dispatch hm ha]
    split_ifs with hret haw
    · exact ⟨h.broadcast_dispatch t _,.inl hret⟩
    · exact ⟨h.broadcast_dispatch t _,.inr ⟨h.receive ht hn hm d (some t) aw,.inr ⟨rfl,Option.some_ne_none t⟩⟩⟩
    · exact ⟨h.broadcast_dispatch t _,.inr ⟨h.receive ht hn hm d (some t) aw,.inl rfl⟩⟩
  · rw [visitUnblocked, if_neg hv]
    exact ⟨h.broadcast,.inr ⟨h.pass hv,.inl rfl⟩⟩

/-- The first half of the visit sets the default thread, and dispatches to a thread that waits for the signal. -/
theorem sigProcessSignalHandler_eq {i : SigInfo} {d ub aw rc : Option Nat} : sigProcessSignalHandler allocs p ⟨i,d,ub,aw,rc⟩ t =
      if osSigIsMember (p.sig t).sigwaitmask i.si_signo = true ∧ aw = none then
        if (osTcbDispatch (p.sig t) i (allocs t)).2 < 0 then
          ((p.set t (osTcbDispatch (p.sig t) i (allocs t)).1,⟨i,d <|> some t,ub,aw,rc⟩),(osTcbDispatch (p.sig t) i (allocs t)).2)
        else if rc ≠ none then
          ((p.set t (osTcbDispatch (p.sig t) i (allocs t)).1,⟨i,d <|> some t,ub,some t,rc⟩),SIG_STOP_VISIT)
        else visitUnblocked allocs (p.set t (osTcbDispatch (p.sig t) i (allocs t)).1) ⟨i,d <|> some t,ub,some t,rc⟩ t
      else visitUnblocked allocs p ⟨i,d <|> some t,ub,aw,rc⟩ t := by
  rw [sigProcessSignalHandler]
  cases d <;> rfl

private theorem sigProcessSignalHandler_visited (h : Walk p₀ allocs sigInfo passed passed p info) (ht : p₀.threads = passed ++ t :: rest)
    (hcall : (p₀.sig t).waiting = true → (p₀.sig t).call ≠ none) (hn : goodSigno sigInfo.si_signo = true) :
    Visited p₀ allocs sigInfo (passed ++ [t]) (sigProcessSignalHandler allocs p info t) := by
  have hmem : t ∈ p₀.threads := by
    rw [ht]
    exact List.mem_append_right passed List.mem_cons_self
  obtain ⟨i,d,ub,aw,rc⟩ := info
  obtain rfl : i = sigInfo := h.info_eq
  rw [sigProcessSignalHandler_eq]
  split_ifs with hw hret hr
  · exact ⟨h.broadcast_dispatch t _,.inl hret⟩
  · refine ⟨h.broadcast_dispatch t _,.inr ⟨⟨rfl,h.broadcast_dispatch t _,fun u hu => ?_,fun _ hn => absurd hn hr,
      fun hn => absurd hn hr,fun hn => absurd hn hr⟩,.inr ⟨rfl,hr⟩⟩⟩
    obtain ⟨hu,hrec⟩ := h.received u hu
    exact ⟨hu,((broadcast_set (osTcbDispatch_delivered (p.sig t) i (allocs t))).sig u).recorded _ hrec⟩
  · obtain rfl : rc = none := not_not.mp hr
    obtain ⟨hw,rfl⟩ := hw
    obtain ⟨rfl,-,hseen⟩ := h.untouched rfl rfl
    refine visitUnblocked_visited ⟨rfl,h.broadcast_dispatch t _,fun _ hu => (Option.some_ne_none _ hu.symm).elim,fun u _ hu => ?_,
      fun _ => ⟨(h.masked rfl).1,fun v hv => ?_⟩,fun _ ha => (Option.some_ne_none t ha).elim⟩ hmem hn
    · cases hu
      refine ⟨?_,?_⟩
      · rw [ht, List.find?_append, List.find?_cons_of_pos (by exact hw), List.find?_eq_none.mpr fun v hv => by simp [hseen v hv]]
        rfl
      · by_cases hd : Dropped (p.sig t) i.si_signo (allocs t)
        · exact .inl hd
        · refine .inr (received_of_dispatch hcall hn ?_ hd)
          rcases osTcbDispatch_ret (p.sig t) i (allocs t) with h0 | h0
          · exact h0
          · rw [h0] at hret
            exact absurd (by decide) hret
    · rcases (h.masked rfl).2 v hv with ha | hm
      · cases ha
      · exact .inr hm
  · refine visitUnblocked_visited ⟨rfl,h.broadcast,h.received,h.awakened,h.masked,fun hr ha => ?_⟩ hmem hn
    obtain ⟨hp,hd,hseen⟩ := h.untouched hr ha
    refine ⟨hp,?_,fun v hv => ?_⟩
    · dsimp only at hd ha ⊢
      rw [hd]
      cases passed <;> rfl
    · rcases List.mem_append.mp hv with hv | hv
      · exact hseen v hv
      · rw [List.mem_singleton.mp hv]
        by_contra hw'
        exact hw ⟨by rw [hp]; exact Bool.not_eq_false _ ▸ hw',ha⟩

/-- The walk over the threads that are left ends in an error, with a thread that has received the signal, or with all threads. -/
theorem foreachChild_walk (hn : goodSigno sigInfo.si_signo = true)
    (hcall : ∀ t, (p₀.sig t).waiting = true → (p₀.sig t).call ≠ none) (h : Walk p₀ allocs sigInfo passed passed p info)
    (ht : p₀.threads = passed ++ rest) {r : (SigProcess × ProcessSignalInfo) × Int}
    (hr : osSigProcessForeachChild (sigProcessSignalHandler allocs) rest p info = r) :
    Broadcast sigInfo.si_signo p₀ r.1.1 ∧ (r.2 < 0 ∨ ¬ r.2 < 0 ∧ ∃ seen, Walk p₀ allocs sigInfo seen seen r.1.1 r.1.2 ∧
      (seen = p₀.threads ∨ r.1.2.receivedTcb ≠ none)) := by
  induction rest generalizing passed p info with
  | nil =>
    rw [List.append_nil] at ht
    subst hr
    exact ⟨h.broadcast,.inr ⟨lt_irrefl (0 : Int),passed,h,.inl ht.symm⟩⟩
  | cons t rest ih =>
    obtain ⟨hb,hv⟩ := sigProcessSignalHandler_visited h ht (hcall t) hn
    rw [osSigProcessForeachChild] at hr
    generalize sigProcessSignalHandler allocs p info t = v at hr hb hv
    obtain ⟨⟨p,info⟩,ret⟩ := v
    dsimp only at hr hb hv
    split_ifs at hr with hret
    · subst hr
      refine ⟨hb,hv.imp_right fun ⟨hw,hstop⟩ => ?_⟩
      rcases hstop with h0 | ⟨hs,hrec⟩
      · exact absurd h0 hret
      · refine ⟨?_,_,hw,.inr hrec⟩
        rw [hs]
        exact (by decide : ¬ SIG_STOP_VISIT < 0)
    · obtain rfl : ret = 0 := not_not.mp hret
      rcases hv with hlt | ⟨hw,-⟩
      · exact absurd hlt (by decide)
      · exact ih hw (by rw [ht, List.append_assoc]; rfl) hr

theorem Walk.start (p : SigProcess) : Walk p allocs sigInfo [] [] p ⟨sigInfo,none,none,none,none⟩ :=
  ⟨rfl,.refl _ p,fun _ hu => (Option.some_ne_none _ hu.symm).elim,fun _ _ hu => (Option.some_ne_none _ hu.symm).elim,
    fun _ => ⟨rfl,fun _ hv => absurd hv List.not_mem_nil⟩,fun _ _ => ⟨rfl,rfl,fun _ hv => absurd hv List.not_mem_nil⟩⟩

/-- A send to the process reaches some thread when it succeeds. -/
theorem osSigProcessSend_spec (hn : goodSigno sigInfo.si_signo = true) (hk : sigInfo.si_signo ≠ SIGKILL)
    (hcall : ∀ t, (p.sig t).waiting = true → (p.sig t).call ≠ none) (hne : p.threads ≠ [])
    (hok : ∀ t ∈ p.threads.find? fun t => osSigIsMember (p.sig t).sigwaitmask sigInfo.si_signo,
      Dropped (p.sig t) sigInfo.si_signo (allocs t) →
        ∃ u ∈ p.threads, osSigIsMember (p.sig u).sigprocmask sigInfo.si_signo = false) :
    Broadcast sigInfo.si_signo p (osSigProcessSend p sigInfo allocs).1 ∧
      ((osSigProcessSend p sigInfo allocs).2 = 0 →
        ∃ t ∈ p.threads, Received p (osSigProcessSend p sigInfo allocs).1 t sigInfo.si_signo) := by
  rw [osSigProcessSend, if_neg hk]
  generalize hr : osSigProcessForeachChild (sigProcessSignalHandler allocs) p.threads p ⟨sigInfo,none,none,none,none⟩ = r
  obtain ⟨hb,hw⟩ := foreachChild_walk hn hcall (Walk.start p) rfl hr
  clear hr
  obtain ⟨⟨p',info⟩,ret⟩ := r
  dsimp only at hb hw ⊢
  rcases hw with hlt | ⟨hge,seen,hw,hall⟩
  · rw [if_pos hlt]
    refine ⟨hb,fun h0 => ?_⟩
    dsimp only at h0
    omega
  · rw [if_neg hge]
    dsimp only
    cases hrec : info.receivedTcb with
    | some t =>
      obtain ⟨ht,hmem⟩ := hw.received t hrec
      rw [sigProcessLoadTcb, if_neg (by simp [hrec])]
      exact ⟨hb,fun _ => ⟨t,ht,.inl hmem⟩⟩
    | none =>
      have hseen : seen = p.threads := hall.resolve_right fun h => h hrec
      cases haw : info.awakenedTcb with
      | some t =>
        obtain ⟨hf,hd⟩ := hw.awakened t hrec haw
        rw [sigProcessLoadTcb, if_neg (by simp [haw])]
        refine ⟨hb,fun _ => ⟨t,List.mem_of_find?_eq_some hf,hd.resolve_left fun hd => ?_⟩⟩
        -- a thread that does not mask the signal would have received it
        obtain ⟨u,hu,hm⟩ := hok t hf hd
        rcases (hw.masked hrec).2 u (hseen ▸ hu) with h | h
        · cases haw.symm.trans h
          rw [hd.2.2.1] at hm
          cases hm
        · rw [hm] at h
          cases h
      | none =>
        obtain ⟨rfl,hdef,hwait⟩ := hw.untouched hrec haw
        obtain ⟨t,ht⟩ : ∃ t, p'.threads.head? = some t := Option.ne_none_iff_exists'.mp fun h => hne (List.head?_eq_none_iff.mp h)
        have hmem : t ∈ p'.threads := List.mem_of_mem_head? ht
        rw [sigProcessLoadTcb, if_pos ⟨haw,hrec⟩, (hw.masked hrec).1, hdef, hseen, ht]
        refine ⟨broadcast_set (osTcbDispatch_delivered _ _ _),fun _ => ⟨t,hmem,.inl ?_⟩⟩
        rw [SigProcess.set_sig_self]
        rcases osTcbDispatch_records (p'.sig t) (allocs t) hn with h | ⟨-,-,h⟩
        · exact h
        · rw [hwait t (hseen ▸ hmem)] at h
          cases h

/-- SIGKILL wakes the waiting threads. -/
theorem foreachKill_broadcast (rest : List Nat) (hi : info.sigInfo.si_signo = n)
    (hinfo : ∀ t ∈ rest, (p.sig t).waiting = true → (p.sig t).call = some true →
      (p.sig t).tmpInfoList.any (·.si_signo = n) = true) :
    Broadcast n p (osSigProcessForeachChild sigProcessKillSigHandler rest p info).1.1 := by
  induction rest generalizing p with
  | nil => exact .refl n p
  | cons t rest ih =>
    have hwake : Delivered n (p.sig t) (osPendingTaskWake (p.sig t) n).1 :=
      osPendingTaskWake_delivered (hinfo t List.mem_cons_self)
    have heq : sigProcessKillSigHandler p info t = ((p.set t (osPendingTaskWake (p.sig t) n).1,info),0) := by
      rw [sigProcessKillSigHandler, hi, ← osPendingTaskWake_ret]
    rw [osSigProcessForeachChild, heq]
    dsimp only
    rw [if_neg (not_not.mpr rfl)]
    refine (broadcast_set hwake).trans (ih fun u hu => ?_)
    rw [SigProcess.set_sig]
    split_ifs with hut
    · intro hw hc
      have hsame := osPendingTaskWake_same hw
      rw [hsame] at hw hc ⊢
      exact hinfo t List.mem_cons_self hw hc
    · exact hinfo u (List.mem_cons_of_mem t hu)

theorem foreachKill_sigShare (rest : List Nat) :
    (osSigProcessForeachChild sigProcessKillSigHandler rest p info).1.1.sigShare = p.sigShare := by
  induction rest generalizing p with
  | nil => rfl
  | cons t rest ih =>
    have heq : sigProcessKillSigHandler p info t =
        ((p.set t (osPendingTaskWake (p.sig t) info.sigInfo.si_signo).1,info),0) := by
      rw [sigProcessKillSigHandler, ← osPendingTaskWake_ret]
    rw [osSigProcessForeachChild, heq]
    exact ih

end LiteOsKernel.Ipc.Signal
