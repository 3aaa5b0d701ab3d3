import LiteOsKernel.Ipc.SignalSend

/-! Sends that end a waiting call: the signal is handed to the call and stays in no set, where one thread takes it. -/
namespace LiteOsKernel.Ipc.Signal

/-- A waiting call with info takes a signal that is sent to its thread; alloc or an old node lets the send succeed. -/
def Hands (s : SigCb) (signo : Nat) (alloc : Bool) : Prop :=
  s.waiting = true ∧ s.call = some true ∧ signo ≠ 0 ∧ osSigIsMember s.sigwaitmask signo = true ∧
    (alloc = true ∨ s.tmpInfoList.any (·.si_signo = signo) = true)

instance (s : SigCb) (signo : Nat) (alloc : Bool) : Decidable (Hands s signo alloc) := inferInstanceAs (Decidable (_ ∧ _))

/-- The thread masks the signal and has no bit of it, and the process has none. -/
def Clean (s : SigCb) (share : BitVec 64) (signo : Nat) : Prop :=
  osSigIsMember s.sigprocmask signo = true ∧ osSigIsMember (s.sigFlag ||| s.sigPendFlag ||| share) signo = false

instance (s : SigCb) (share : BitVec 64) (signo : Nat) : Decidable (Clean s share signo) := inferInstanceAs (Decidable (_ ∧ _))

/-- The first thread that waits for the signal. -/
def waiter (p : SigProcess) (signo : Nat) : Option Nat := p.threads.find? fun t => osSigIsMember (p.sig t).sigwaitmask signo

/-- The first other thread that does not mask it. -/
def receiver (p : SigProcess) (signo : Nat) : Option Nat :=
  p.threads.find? fun u => !osSigIsMember (p.sig u).sigprocmask signo && decide (waiter p signo ≠ some u)

/-- A send that ends a waiting call: the sig_cb of its thread before and after it, the shared set after it, and the other
threads before and after it. -/
structure Handover where
  before : SigCb
  after : SigCb
  share : BitVec 64
  others : List (SigCb × SigCb)
  deriving DecidableEq

def handover (p p' : SigProcess) (t : Nat) : Handover :=
  ⟨p.sig t,p'.sig t,p'.sigShare,(p.threads.filter (· ≠ t)).map fun u => (p.sig u,p'.sig u)⟩

/-- The signal is in no set of the thread or the process, and all other bits are as they were. -/
structure Handover.Exact (h : Handover) (signo : Nat) : Prop where
  sigFlag : h.after.sigFlag = sigDelSet h.before.sigFlag signo
  sigPendFlag : h.after.sigPendFlag = sigDelSet h.before.sigPendFlag signo
  share : osSigIsMember h.share signo = false
  others : ∀ o ∈ h.others, o.2.sigFlag = o.1.sigFlag ∧ o.2.sigPendFlag = o.1.sigPendFlag

variable {p p' p₀ : SigProcess} {s : SigCb} {t u n : Nat} {alloc : Bool} {allocs : Nat → Bool} {sigInfo : SigInfo}
  {passed rest : List Nat} {info : ProcessSignalInfo}

-- One thread

private theorem sigDelSet_of_not_mem {set : BitVec 64} (h0 : n ≠ 0) (hn : goodSigno n = true) (h : osSigIsMember set n = false) :
    sigDelSet set n = set := by
  have hlt := goodSigno_iff.mp hn
  have hbit : set.getLsbD (n - 1) = false := by
    rwa [osSigIsMember_eq ⟨h0,goodSigno_iff.mpr (by omega)⟩] at h
  apply BitVec.eq_of_getLsbD_eq
  intro i hi
  rw [sigDelSet, BitVec.getLsbD_and, BitVec.getLsbD_not, getLsbD_signo2Set]
  by_cases hni : n - 1 = i
  · rw [← hni, hbit, Bool.false_and]
  · simp [hni, hi]

/-- A dispatch that ends a wait with info was handed to it. -/
private theorem hands_of_woken {info : SigInfo} (hc : s.call = some true) (hw : s.waiting = true)
    (hw' : (osTcbDispatch s info alloc).1.waiting = false) : Hands s info.si_signo alloc := by
  by_cases h0 : info.si_signo = 0
  · rw [osTcbDispatch, if_pos h0] at hw'
    cases hw.symm.trans hw'
  · obtain ⟨flag,pend,heq,-⟩ := dispatchFlags_eq s info.si_signo
    obtain ⟨l,⟨-,hd⟩ | ⟨hok,-,hd⟩⟩ := osTcbDispatch_cases s info alloc h0
    · rw [hd, heq] at hw'
      cases hw.symm.trans hw'
    · refine ⟨hw,hc,h0,?_,(Bool.or_eq_true _ _ ▸ hok).symm⟩
      by_contra hm
      rw [hd, heq, osPendingTaskWake] at hw'
      rw [if_neg (by simp [hw]), osSigWaitTaskWake, if_neg (by simp [hm])] at hw'
      cases hw.symm.trans hw'

/-- A masked signal that the thread waits for sets no bit. -/
private theorem osTcbDispatch_masked {info : SigInfo} (hw : s.waiting = true) (hm : osSigIsMember s.sigprocmask info.si_signo = true)
    (hwait : osSigIsMember s.sigwaitmask info.si_signo = true) :
    (osTcbDispatch s info alloc).1.sigFlag = s.sigFlag ∧ (osTcbDispatch s info alloc).1.sigPendFlag = s.sigPendFlag := by
  by_cases h0 : info.si_signo = 0
  · rw [osTcbDispatch, if_pos h0]
    exact ⟨rfl,rfl⟩
  · have hflags : dispatchFlags s info.si_signo = s := by
      rw [dispatchFlags, if_pos hm, if_neg (by simp [hw, hwait])]
    obtain ⟨l,⟨-,hd⟩ | ⟨-,-,hd⟩⟩ := osTcbDispatch_cases s info alloc h0
    · rw [hd, hflags]
      exact ⟨rfl,rfl⟩
    · rw [hd, hflags, osPendingTaskWake]
      split_ifs
      · exact ⟨rfl,rfl⟩
      · rw [osSigWaitTaskWake]
        split_ifs
        · obtain ⟨i,l',hmove,-⟩ := osMoveTmpInfoToUnbInfo_eq { s with tmpInfoList := l } info.si_signo
          rw [hmove]
          exact ⟨rfl,rfl⟩
        · exact ⟨rfl,rfl⟩

/-- A signal of which there is no bit and which sets none is handed over exactly. -/
private theorem handover_exact (hn : goodSigno n = true) (h0 : n ≠ 0) (hclean : Clean (p.sig t) p.sigShare n)
    (hflags : (p'.sig t).sigFlag = (p.sig t).sigFlag ∧ (p'.sig t).sigPendFlag = (p.sig t).sigPendFlag)
    (hshare : p'.sigShare = p.sigShare) (hothers : ∀ u ≠ t, p'.sig u = p.sig u) : (handover p p' t).Exact n := by
  have hno := hclean.2
  rw [osSigIsMember_or, osSigIsMember_or, Bool.or_eq_false_iff, Bool.or_eq_false_iff] at hno
  obtain ⟨⟨hflag,hpend⟩,hsh⟩ := hno
  refine ⟨?_,?_,by rw [handover, hshare]; exact hsh,fun o ho => ?_⟩
  · rw [handover, sigDelSet_of_not_mem h0 hn hflag]
    exact hflags.1
  · rw [handover, sigDelSet_of_not_mem h0 hn hpend]
    exact hflags.2
  · obtain ⟨u,hu,rfl⟩ := List.mem_map.mp ho
    rw [hothers u (of_decide_eq_true (List.mem_filter.mp hu).2)]
    exact ⟨rfl,rfl⟩

theorem osTaskKillUnsafe_handover {signo : Nat} (hn : goodSigno signo = true)
    (hok : Hands (p.sig t) signo alloc → Clean (p.sig t) p.sigShare signo) (hw : Woken p (osTaskKillUnsafe p t signo alloc).1 u) :
    (handover p (osTaskKillUnsafe p t signo alloc).1 u).Exact signo := by
  obtain ⟨hwait,hwoken,hcall⟩ := hw
  rw [osTaskKillUnsafe] at hwoken ⊢
  dsimp only at hwoken ⊢
  by_cases hu : u = t
  · subst hu
    rw [SigProcess.set_sig_self] at hwoken
    have hh := hands_of_woken hcall hwait hwoken
    have hc := hok hh
    refine handover_exact hn hh.2.2.1 hc ?_ rfl fun v hv => SigProcess.set_sig_of_ne hv
    rw [SigProcess.set_sig_self]
    exact osTcbDispatch_masked hwait hc.1 hh.2.2.2.1
  · rw [SigProcess.set_sig_of_ne hu] at hwoken
    cases hwait.symm.trans hwoken

-- The walk over the threads

/-- Only the first thread that waits for the signal and the first other one that does not mask it are dispatched to. -/
structure Touched (p₀ : SigProcess) (allocs : Nat → Bool) (sigInfo : SigInfo) (p : SigProcess) : Prop where
  share : p.sigShare = p₀.sigShare
  sig : ∀ t, p.sig t = p₀.sig t ∨ p.sig t = (osTcbDispatch (p₀.sig t) sigInfo (allocs t)).1 ∧
    (waiter p₀ sigInfo.si_signo = some t ∨ receiver p₀ sigInfo.si_signo = some t)

/-- What SigProcessSignalHandler has found out on its way over the threads in passed. -/
structure Found (p₀ : SigProcess) (allocs : Nat → Bool) (sigInfo : SigInfo) (passed : List Nat) (p : SigProcess)
    (info : ProcessSignalInfo) : Prop where
  touched : Touched p₀ allocs sigInfo p
  info_eq : info.sigInfo = sigInfo
  fresh : ∀ t ∉ passed, p.sig t = p₀.sig t
  awakened : ∀ t, info.awakenedTcb = some t → waiter p₀ sigInfo.si_signo = some t
  waits : info.awakenedTcb = none → ∀ v ∈ passed, osSigIsMember (p₀.sig v).sigwaitmask sigInfo.si_signo = false
  masks : info.receivedTcb = none → ∀ v ∈ passed,
    osSigIsMember (p₀.sig v).sigprocmask sigInfo.si_signo = true ∨ waiter p₀ sigInfo.si_signo = some v

private theorem Touched.dispatch (h : Touched p₀ allocs sigInfo p) (hsig : p.sig t = p₀.sig t)
    (hwho : waiter p₀ sigInfo.si_signo = some t ∨ receiver p₀ sigInfo.si_signo = some t) :
    Touched p₀ allocs sigInfo (p.set t (osTcbDispatch (p.sig t) sigInfo (allocs t)).1) := by
  refine ⟨h.share,fun u => ?_⟩
  rw [SigProcess.set_sig]
  split_ifs with hu
  · subst hu
    exact .inr ⟨by rw [hsig],hwho⟩
  · exact h.sig u

private theorem waiter_of_first (ht : p₀.threads = passed ++ t :: rest)
    (hno : ∀ v ∈ passed, osSigIsMember (p₀.sig v).sigwaitmask n = false) (hw : osSigIsMember (p₀.sig t).sigwaitmask n = true) :
    waiter p₀ n = some t := by
  rw [waiter, ht, List.find?_append, List.find?_cons_of_pos (by exact hw), List.find?_eq_none.mpr fun v hv => by simp [hno v hv]]
  rfl

private theorem waits_of_waiter (h : waiter p₀ n = some t) : osSigIsMember (p₀.sig t).sigwaitmask n = true := by
  have := List.find?_some h
  exact this

private theorem receiver_of_first (ht : p₀.threads = passed ++ t :: rest)
    (hno : ∀ v ∈ passed, osSigIsMember (p₀.sig v).sigprocmask n = true ∨ waiter p₀ n = some v)
    (hm : osSigIsMember (p₀.sig t).sigprocmask n = false) (hw : waiter p₀ n ≠ some t) : receiver p₀ n = some t := by
  rw [receiver, ht, List.find?_append, List.find?_cons_of_pos (by simp [hm, hw]), List.find?_eq_none.mpr fun v hv => ?_]
  · rfl
  · rcases hno v hv with h | h <;> simp [h]

private theorem mem_passed_append (h : u ∉ passed ++ [t]) : u ≠ t ∧ u ∉ passed := by
  rw [List.mem_append, List.mem_singleton, not_or] at h
  exact ⟨h.2,h.1⟩

/-- A visit dispatches to the first waiter or to the first receiver, and stops early only after a receiver. -/
private theorem Found.visit (h : Found p₀ allocs sigInfo passed p info) (ht : p₀.threads = passed ++ t :: rest) (htp : t ∉ passed)
    {r : (SigProcess × ProcessSignalInfo) × Int} (hr : sigProcessSignalHandler allocs p info t = r) :
    Touched p₀ allocs sigInfo r.1.1 ∧ (r.2 = 0 → Found p₀ allocs sigInfo (passed ++ [t]) r.1.1 r.1.2) := by
  have hsig := h.fresh t htp
  obtain ⟨i,d,ub,aw,rc⟩ := info
  obtain rfl : i = sigInfo := h.info_eq
  rw [sigProcessSignalHandler_eq, hsig] at hr
  have hpassed : ∀ v ∈ passed ++ [t], v ∈ passed ∨ v = t := fun v hv => by simpa using hv
  by_cases hw : osSigIsMember (p₀.sig t).sigwaitmask i.si_signo = true ∧ aw = none
  · -- the first thread that waits for the signal
    obtain ⟨hw,rfl⟩ := hw
    have hwt := waiter_of_first ht (h.waits rfl) hw
    have htouched := h.touched.dispatch hsig (.inl hwt)
    rw [hsig] at htouched
    rw [if_pos ⟨hw,rfl⟩] at hr
    split_ifs at hr with hret hrc <;> subst hr
    · exact ⟨htouched,fun h0 => by dsimp only at h0; omega⟩
    · exact ⟨htouched,fun h0 => by cases h0⟩
    · obtain rfl : rc = none := not_not.mp hrc
      rw [visitUnblocked, if_neg fun hc => hc.2.2 rfl]
      have hnot : (some t : Option Nat) ≠ none := Option.some_ne_none t
      refine ⟨htouched,fun _ => ⟨htouched,rfl,fun u hu => ?_,fun u hu => ?_,fun hn => absurd hn hnot,fun _ v hv => ?_⟩⟩
      · obtain ⟨h1,h2⟩ := mem_passed_append hu
        exact (SigProcess.set_sig_of_ne h1).trans (h.fresh u h2)
      · exact hwt.trans hu
      · rcases hpassed v hv with hv | rfl
        · exact h.masks rfl v hv
        · exact .inr hwt
  rw [if_neg hw] at hr
  have hwaits : aw = none → ∀ v ∈ passed ++ [t], osSigIsMember (p₀.sig v).sigwaitmask i.si_signo = false := by
    intro hn v hv
    rcases hpassed v hv with hv | rfl
    · exact h.waits hn v hv
    · by_contra hm
      exact hw ⟨Bool.not_eq_false _ ▸ hm,hn⟩
  by_cases hv : osSigIsMember (p.sig t).sigprocmask i.si_signo = false ∧ rc = none ∧ aw ≠ some t
  · -- the first other thread that does not mask it
    obtain ⟨hm,rfl,ha⟩ := hv
    have hnw : waiter p₀ i.si_signo ≠ some t := by
      intro hwt
      cases haw : aw with
      | none => exact hw ⟨waits_of_waiter hwt,haw⟩
      | some w => exact ha (haw.trans ((h.awakened w haw).symm.trans hwt))
    have hwho := receiver_of_first ht (h.masks rfl) (hsig ▸ hm) hnw
    have htouched := h.touched.dispatch hsig (.inr hwho)
    rw [hsig] at htouched
    rw [visitUnblocked_dispatch hm ha, hsig] at hr
    split_ifs at hr with hret haw <;> subst hr
    · exact ⟨htouched,fun h0 => by dsimp only at h0; omega⟩
    · exact ⟨htouched,fun h0 => by cases h0⟩
    · have hnot : (some t : Option Nat) ≠ none := Option.some_ne_none t
      refine ⟨htouched,fun _ => ⟨htouched,rfl,fun u hu => ?_,h.awakened,hwaits,fun hn => absurd hn hnot⟩⟩
      obtain ⟨h1,h2⟩ := mem_passed_append hu
      exact (SigProcess.set_sig_of_ne h1).trans (h.fresh u h2)
  · rw [visitUnblocked, if_neg hv] at hr
    subst hr
    refine ⟨h.touched,fun _ => ⟨h.touched,rfl,fun u hu => h.fresh u (mem_passed_append hu).2,h.awakened,hwaits,fun hn v hv' => ?_⟩⟩
    rcases hpassed v hv' with hv' | rfl
    · exact h.masks hn v hv'
    · by_cases hm : osSigIsMember (p₀.sig v).sigprocmask i.si_signo = true
      · exact .inl hm
      · refine .inr (h.awakened v ?_)
        by_contra ha
        exact hv ⟨by rw [hsig]; exact Bool.not_eq_true _ ▸ hm,hn,ha⟩

private theorem foreachChild_touched (h : Found p₀ allocs sigInfo passed p info) (ht : p₀.threads = passed ++ rest)
    (hnd : p₀.threads.Nodup) :
    Touched p₀ allocs sigInfo (osSigProcessForeachChild (sigProcessSignalHandler allocs) rest p info).1.1 := by
  induction rest generalizing passed p info with
  | nil => exact h.touched
  | cons t rest ih =>
    have htp : t ∉ passed := by
      rw [ht] at hnd
      exact fun hm => (List.nodup_append.mp hnd).2.2 t hm t List.mem_cons_self rfl
    rw [osSigProcessForeachChild]
    rcases hr : sigProcessSignalHandler allocs p info t with ⟨⟨p',info'⟩,ret⟩
    obtain ⟨h1,h2⟩ := h.visit ht htp hr
    dsimp only at h1 h2 ⊢
    split_ifs with hret
    · exact h1
    · exact ih (h2 (not_not.mp hret)) (by rw [ht, List.append_assoc]; rfl)

theorem Found.start (p : SigProcess) : Found p allocs sigInfo [] p ⟨sigInfo,none,none,none,none⟩ :=
  ⟨⟨rfl,fun _ => .inl rfl⟩,rfl,fun _ _ => rfl,fun _ hu => (Option.some_ne_none _ hu.symm).elim,
    fun _ _ hv => absurd hv List.not_mem_nil,fun _ _ hv => absurd hv List.not_mem_nil⟩

/-- The threads that a send to the process dispatches to: the two of the walk, or one that does not wait for the signal. -/
private theorem osSigProcessSend_touched (allocs : Nat → Bool) (hn : goodSigno sigInfo.si_signo = true) (hk : sigInfo.si_signo ≠ SIGKILL)
    (hcall : ∀ t, (p.sig t).waiting = true → (p.sig t).call ≠ none) (hnd : p.threads.Nodup) :
    (osSigProcessSend p sigInfo allocs).1.sigShare = p.sigShare ∧ ∀ t, (osSigProcessSend p sigInfo allocs).1.sig t = p.sig t ∨
      (osSigProcessSend p sigInfo allocs).1.sig t = (osTcbDispatch (p.sig t) sigInfo (allocs t)).1 ∧
        (waiter p sigInfo.si_signo = some t ∨ receiver p sigInfo.si_signo = some t ∨
          waiter p sigInfo.si_signo = none ∧ osSigIsMember (p.sig t).sigwaitmask sigInfo.si_signo = false) := by
  have hstart : Found p allocs sigInfo [] p ⟨sigInfo,none,none,none,none⟩ := Found.start p
  have htouched := foreachChild_touched hstart rfl hnd
  rw [osSigProcessSend, if_neg hk]
  generalize hr : osSigProcessForeachChild (sigProcessSignalHandler allocs) p.threads p ⟨sigInfo,none,none,none,none⟩ = r at htouched
  obtain ⟨-,hw⟩ := foreachChild_walk hn hcall (Walk.start p) rfl hr
  clear hr
  obtain ⟨⟨p',info⟩,ret⟩ := r
  dsimp only at htouched hw ⊢
  have hkept : p'.sigShare = p.sigShare ∧ ∀ t, p'.sig t = p.sig t ∨ p'.sig t = (osTcbDispatch (p.sig t) sigInfo (allocs t)).1 ∧
      (waiter p sigInfo.si_signo = some t ∨ receiver p sigInfo.si_signo = some t ∨
        waiter p sigInfo.si_signo = none ∧ osSigIsMember (p.sig t).sigwaitmask sigInfo.si_signo = false) :=
    ⟨htouched.share,fun t => (htouched.sig t).imp_right (And.imp_right (Or.imp_right .inl))⟩
  split_ifs with hret
  · exact hkept
  · dsimp only
    rw [sigProcessLoadTcb]
    split_ifs with hnone
    swap
    · exact hkept
    obtain ⟨-,seen,hw,hall⟩ := hw.resolve_left hret
    have hseen : seen = p.threads := hall.resolve_right fun h => h hnone.2
    obtain ⟨rfl,hdef,hwait⟩ := hw.untouched hnone.2 hnone.1
    have hnone' : waiter p' sigInfo.si_signo = none := List.find?_eq_none.mpr fun v hv => by simp [hwait v (hseen ▸ hv)]
    rw [(hw.masked hnone.2).1, hdef, hseen]
    rcases hh : p'.threads.head? with _ | t
    · exact ⟨rfl,fun _ => .inl rfl⟩
    · refine ⟨rfl,fun u => ?_⟩
      rw [SigProcess.set_sig]
      split_ifs with hu
      · subst hu
        exact .inr ⟨rfl,.inr (.inr ⟨hnone',hwait u (hseen ▸ List.mem_of_mem_head? hh)⟩)⟩
      · exact .inl rfl

/-- The first thread that waits for the signal alone takes it, where it masks the signal and has no bit of it and no other
thread leaves it unmasked. -/
theorem osSigProcessSend_handover (hn : goodSigno sigInfo.si_signo = true) (hk : sigInfo.si_signo ≠ SIGKILL)
    (hcall : ∀ t, (p.sig t).waiting = true → (p.sig t).call ≠ none) (hnd : p.threads.Nodup)
    (hwaiter : ∀ t ∈ waiter p sigInfo.si_signo, Hands (p.sig t) sigInfo.si_signo (allocs t) →
      Clean (p.sig t) p.sigShare sigInfo.si_signo ∧ ∀ u ∈ p.threads, osSigIsMember (p.sig u).sigprocmask sigInfo.si_signo = true)
    (hreceiver : ∀ t ∈ receiver p sigInfo.si_signo, ¬Hands (p.sig t) sigInfo.si_signo (allocs t))
    (hw : Woken p (osSigProcessSend p sigInfo allocs).1 t) :
    (handover p (osSigProcessSend p sigInfo allocs).1 t).Exact sigInfo.si_signo := by
  obtain ⟨hshare,hsig⟩ := osSigProcessSend_touched allocs hn hk hcall hnd
  obtain ⟨hwait,hwoken,hinfo⟩ := hw
  rcases hsig t with hsame | ⟨hdisp,hwho⟩
  · rw [hsame] at hwoken
    cases hwait.symm.trans hwoken
  rw [hdisp] at hwoken
  have hh := hands_of_woken hinfo hwait hwoken
  rcases hwho with hwt | hrt | ⟨-,hno⟩
  · obtain ⟨hclean,hall⟩ := hwaiter t hwt hh
    have hnone : receiver p sigInfo.si_signo = none := List.find?_eq_none.mpr fun u hu => by simp [hall u hu]
    refine handover_exact hn hh.2.2.1 hclean ?_ hshare fun u hu => ?_
    · rw [hdisp]
      exact osTcbDispatch_masked hwait hclean.1 hh.2.2.2.1
    · rcases hsig u with h | ⟨-,hwu | hru | ⟨hnw,-⟩⟩
      · exact h
      · exact absurd (Option.some.inj (hwu.symm.trans hwt)) hu
      · cases hnone.symm.trans hru
      · cases hnw.symm.trans hwt
  · exact absurd hh (hreceiver t hrt)
  · rw [hh.2.2.2.1] at hno
    cases hno

/-- SIGKILL ends waits of the process's threads only. -/
theorem foreachKill_sig_of_not_mem (ht : t ∉ rest) :
    (osSigProcessForeachChild sigProcessKillSigHandler rest p info).1.1.sig t = p.sig t := by
  induction rest generalizing p with
  | nil => rfl
  | cons u rest ih =>
    obtain ⟨h1,h2⟩ := List.ne_and_not_mem_of_not_mem_cons ht
    have heq : sigProcessKillSigHandler p info u =
        ((p.set u (osPendingTaskWake (p.sig u) info.sigInfo.si_signo).1,info),0) := by
      rw [sigProcessKillSigHandler, ← osPendingTaskWake_ret]
    rw [osSigProcessForeachChild, heq]
    exact (ih h2).trans (SigProcess.set_sig_of_ne h1)

end LiteOsKernel.Ipc.Signal
