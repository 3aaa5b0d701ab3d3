import LiteOsKernel.Ipc.SignalHandover
import LiteOsKernel.Lib.Run

/-! Signals along any run: an accepted signal stays recorded until a handler entry or a wait consumes it, and each consumption
takes exactly one signal. -/
namespace LiteOsKernel.Ipc.Signal

/-- An accepted signal that has not been consumed, and the thread it was sent to; none is the process. -/
structure Owed where
  dest : Option Nat
  signo : Nat
  deriving DecidableEq

/-- A consumption of signo: by a handler entry, with the sig_cb before and after it and the shared set that it merges; by an
OsSigTimedWaitNoLock call that finds the signal pending; by one that waited, with the signal it was woken for and the send
that woke it. -/
inductive Taken where
  | entry (signo : Nat) (before after : SigCb) (share : BitVec 64)
  | pended (signo : Nat) (before after : SigCb)
  | waited (signo : Nat) (handed : Option Nat) (last : Handover)
  deriving DecidableEq

/-- The process with the signals handed to waiting calls that have not returned, the last send that ended a waiting call of
each thread, the signals owed, and the consumptions. -/
structure SigHist where
  p : SigProcess
  handed : Nat → Option Nat
  last : Nat → Handover
  owed : List Owed
  taken : List Taken

namespace SigHist

/-- The signal has set its bit at the thread, or a waiting call of the thread is about to report it. -/
def RecordedAt (x : SigHist) (t signo : Nat) : Prop :=
  osSigIsMember ((x.p.sig t).sigFlag ||| (x.p.sig t).sigPendFlag) signo = true ∨ x.handed t = some signo

instance (x : SigHist) (t signo : Nat) : Decidable (x.RecordedAt t signo) := inferInstanceAs (Decidable (_ ∨ _))

def Recorded (x : SigHist) (o : Owed) : Prop :=
  match o.dest with
  | some t => x.RecordedAt t o.signo
  | none => o.signo = SIGKILL ∧ osSigIsMember x.p.sigShare SIGKILL = true ∨ ∃ t ∈ x.p.threads, x.RecordedAt t o.signo

/-- A send that returned ret: the waits with info that it ended are handed the signal, and it is owed when it was accepted. -/
def sent (x : SigHist) (dest : Option Nat) (signo : Nat) (p : SigProcess) (ret : Int) : SigHist :=
  { x with
    p := p
    handed := fun t => if Woken x.p p t then some signo else x.handed t
    last := fun t => if Woken x.p p t then handover x.p p t else x.last t
    owed := if ret = 0 ∧ signo ≠ 0 then ⟨dest,signo⟩ :: x.owed else x.owed }

/-- The thread t consumes signo. -/
def consume (x : SigHist) (t signo : Nat) (p : SigProcess) (d : Taken) : SigHist :=
  { x with
    p := p
    owed := x.owed.filter fun o => ¬ (o.signo = signo ∧ (o.dest = none ∨ o.dest = some t))
    taken := x.taken ++ [d] }

end SigHist

inductive SigCall where
  | processSend (info : SigInfo) (alloc : Nat → Bool)
  | taskKill (t signo : Nat) (alloc : Bool)
  | sigprocMask (t how : Nat) (setl : Option (BitVec 64))
  | sigSuspend (t : Nat) (set : BitVec 64)
  | sigTimedWait (t : Nat) (set : BitVec 64)
  | expire (t : Nat) (ops : SchedOps)
  | resume (t : Nat)
  | saveContext (t sigIntLock : Nat) (killed : Bool) (sigHandler : Nat)
  | restorContext (t : Nat)

namespace SigCall

def run (x : SigHist) : SigCall → SigHist
  | processSend info alloc =>
    let (p,ret) := osSigProcessSend x.p info alloc
    x.sent none info.si_signo p ret
  | taskKill t signo alloc =>
    let (p,ret) := osTaskKillUnsafe x.p t signo alloc
    x.sent (some t) signo p ret
  | sigprocMask t how setl => { x with p := x.p.set t (osSigprocMask (x.p.sig t) how setl).1 }
  | sigSuspend t set => { x with p := x.p.set t (osSigSuspend (x.p.sig t) set).1 }
  | sigTimedWait t set =>
    match osSigTimedWaitNoLock (x.p.sig t) set true with
    | (s,some ret) => x.consume t ret.toNat (x.p.set t s) (.pended ret.toNat (x.p.sig t) s)
    | (s,none) => { x with p := x.p.set t s }
  | expire t ops => { x with p := x.p.set t (sigTimeout (x.p.sig t) ops) }
  | resume t =>
    let (s,ret) := sigWaitReturn (x.p.sig t)
    if (x.p.sig t).call = some true ∧ ret = 0 then
      let signo := (sysSigTimedWaitRet s ret).toNat
      { x.consume t signo (x.p.set t s) (.waited signo (x.handed t) (x.last t)) with handed := Function.update x.handed t none }
    else { x with p := x.p.set t s }
  | saveContext t sigIntLock killed sigHandler =>
    match osSaveSignalContext x.p t sigIntLock killed sigHandler with
    | (p,some signo) => x.consume t signo p (.entry signo (x.p.sig t) (p.sig t) x.p.sigShare)
    | (p,none) => { x with p := p }
  | restorContext t => { x with p := osRestorSignalContext x.p t }

/-- Senders check the number, a task that is in a wait makes no call, only a task in waitList times out, one that has left it
runs, and a handler is installed. OsSigSuspend waits forever. -/
def Pre (x : SigHist) : SigCall → Prop
  | processSend info _ => goodSigno info.si_signo = true
  | taskKill t signo _ => t ∈ x.p.threads ∧ goodSigno signo = true
  | sigprocMask t .. | sigSuspend t _ | sigTimedWait t _ | restorContext t => t ∈ x.p.threads ∧ (x.p.sig t).call = none
  | expire t _ => (x.p.sig t).waiting = true ∧ (x.p.sig t).call = some true
  | resume t => (x.p.sig t).waiting = false ∧ (x.p.sig t).call ≠ none
  | saveContext t _ _ sigHandler => t ∈ x.p.threads ∧ (x.p.sig t).call = none ∧ sigHandler ≠ 0

instance (x : SigHist) : (c : SigCall) → Decidable (c.Pre x)
  | processSend .. => inferInstanceAs (Decidable (_ = _))
  | taskKill .. | sigprocMask .. | sigSuspend .. | sigTimedWait .. | expire .. | resume .. | saveContext .. | restorContext .. =>
    inferInstanceAs (Decidable (_ ∧ _))

/-- The condition: a wait finds at most one pending signal of its set; no handler returns while an unconsumed SIGKILL of the
process is in the shared set only; a signal is not sent where it is dropped, nor where a waiting call takes it and a bit of it
is left or another thread gets it too, and SIGKILL not to a process with a waiting call; a task whose wait times out keeps
OS_TASK_STATUS_TIMEOUT. -/
def Ok (x : SigHist) : SigCall → Prop
  | processSend info alloc =>
    if info.si_signo = SIGKILL then
      ∀ t ∈ x.p.threads, (x.p.sig t).waiting = true → (x.p.sig t).call ≠ some true
    else
      (∀ t ∈ waiter x.p info.si_signo,
        (Dropped (x.p.sig t) info.si_signo (alloc t) →
          ∃ u ∈ x.p.threads, osSigIsMember (x.p.sig u).sigprocmask info.si_signo = false) ∧
        (Hands (x.p.sig t) info.si_signo (alloc t) → Clean (x.p.sig t) x.p.sigShare info.si_signo ∧
          ∀ u ∈ x.p.threads, osSigIsMember (x.p.sig u).sigprocmask info.si_signo = true)) ∧
      ∀ t ∈ receiver x.p info.si_signo, ¬ Hands (x.p.sig t) info.si_signo (alloc t)
  | taskKill t signo alloc =>
    ¬ Dropped (x.p.sig t) signo alloc ∧ (Hands (x.p.sig t) signo alloc → Clean (x.p.sig t) x.p.sigShare signo)
  | sigTimedWait t set => AtMostOne ((x.p.sig t).sigPendFlag &&& set)
  | restorContext t =>
    (x.p.sig t).count = 1 → ⟨none,SIGKILL⟩ ∈ x.owed → ∃ u ∈ x.p.threads, x.RecordedAt u SIGKILL
  | expire _ ops => ops.timeoutBit = true
  | sigprocMask .. | sigSuspend .. | resume _ | saveContext .. => True

end SigCall

/-- One set loses signo and nothing else, or the waiting call reports the signal that it was woken for and of which the send
that woke it left no bit. -/
def Taken.Exact : Taken → Prop
  | entry signo before after share =>
    osSigIsMember (before.sigFlag ||| share) signo = true ∧ after.sigFlag = sigDelSet (before.sigFlag ||| share) signo ∧
      after.sigPendFlag = before.sigPendFlag
  | pended signo before after =>
    osSigIsMember before.sigPendFlag signo = true ∧ after.sigPendFlag = sigDelSet before.sigPendFlag signo ∧
      after.sigFlag = before.sigFlag
  | waited signo handed last => handed = some signo ∧ last.Exact signo

/-- No accepted signal is lost, and one consumption takes exactly one signal. -/
structure SigLaw (x : SigHist) : Prop where
  kept : ∀ o ∈ x.owed, x.Recorded o
  exact : ∀ d ∈ x.taken, d.Exact

/-- A thread that was handed a signal is about to report it, and a wait with info ends with a signal or a timeout. -/
structure ThreadInv (s : SigCb) (handed : Option Nat) : Prop where
  reports : ∀ signo, handed = some signo →
    s.call = some true ∧ s.waiting = false ∧ s.timeout = false ∧ s.sigunbinfo.si_signo = signo
  waits : s.waiting = true → s.call ≠ none ∧ s.timeout = false
  woken : s.call = some true → s.waiting = false → s.timeout = false → handed ≠ none

structure SigInv (x : SigHist) : Prop where
  law : SigLaw x
  threads : x.p.threads ≠ []
  nodup : x.p.threads.Nodup
  thread : ∀ t, ThreadInv (x.p.sig t) (x.handed t)
  last : ∀ t m, x.handed t = some m → (x.last t).Exact m

variable {x : SigHist} {p p' : SigProcess} {s s' : SigCb} {set set' : BitVec 64} {t u signo n : Nat} {info : SigInfo} {alloc : Bool}
  {allocs : Nat → Bool} {sigInfo : SigInfo}

namespace SigHist

private theorem sent_handed (h : SigInv x) {dest : Option Nat} {ret : Int} (m : Nat)
    (hm : x.handed t = some m) : (x.sent dest n p' ret).handed t = some m := by
  have hw := ((h.thread t).reports m hm).2.1
  rw [sent]
  simp only [Woken, hw, Bool.false_eq_true, false_and, if_false, hm]

theorem RecordedAt.sent (hr : x.RecordedAt t signo) (h : SigInv x) (hb : Broadcast n x.p p') {dest : Option Nat} {ret : Int} :
    (x.sent dest n p' ret).RecordedAt t signo :=
  hr.imp ((hb.sig t).recorded signo) (sent_handed h signo)

private theorem recordedAt_of_received (hr : Received x.p p' t n) {dest : Option Nat} {ret : Int} :
    (x.sent dest n p' ret).RecordedAt t n :=
  hr.imp_right fun hw => if_pos hw

end SigHist

/-- A send keeps what is recorded, and each wait that it ends reports the signal. -/
theorem SigInv.sent (h : SigInv x) (hb : Broadcast n x.p p') {dest : Option Nat} {ret : Int}
    (hover : ∀ t, Woken x.p p' t → (handover x.p p' t).Exact n)
    (hrec : ret = 0 → n ≠ 0 → (x.sent dest n p' ret).Recorded ⟨dest,n⟩) : SigInv (x.sent dest n p' ret) := by
  have hold : ∀ o, x.Recorded o → (x.sent dest n p' ret).Recorded o := by
    rintro ⟨_ | t,m⟩ ho
    · rcases ho with ⟨hk,hs⟩ | ⟨t,ht,hr⟩
      · exact .inl ⟨hk,hb.share hs⟩
      · exact .inr ⟨t,hb.threads ▸ ht,hr.sent h hb⟩
    · exact SigHist.RecordedAt.sent ho h hb
  refine ⟨⟨fun o ho => ?_,h.law.exact⟩,hb.threads ▸ h.threads,hb.threads ▸ h.nodup,
    fun t => ⟨fun m hm => ?_,fun hw => ?_,fun hc hw ht => ?_⟩,fun t m hm => ?_⟩
  · rw [SigHist.sent] at ho
    dsimp only at ho
    split_ifs at ho with hret
    · rcases List.mem_cons.mp ho with rfl | ho
      · exact hrec hret.1 hret.2
      · exact hold o (h.law.kept o ho)
    · exact hold o (h.law.kept o ho)
  · have hs := hb.sig t
    change (if _ then some n else x.handed t) = some m at hm
    change (p'.sig t).call = some true ∧ (p'.sig t).waiting = false ∧ (p'.sig t).timeout = false ∧
      (p'.sig t).sigunbinfo.si_signo = m
    split_ifs at hm with hwake
    · cases hm
      refine ⟨hs.call.trans hwake.2.2,hwake.2.1,hs.timeout.trans ((h.thread t).waits hwake.1).2,?_⟩
      rcases hs.wake with ⟨hw,-⟩ | ⟨-,-,hu⟩
      · rw [hwake.1, hwake.2.1] at hw
        cases hw
      · exact hu hwake.2.2
    · obtain ⟨hc,hw,ht,hu⟩ := (h.thread t).reports m hm
      refine ⟨hs.call.trans hc,?_,hs.timeout.trans ht,?_⟩
      · rcases hs.wake with ⟨hw',-⟩ | ⟨hw',-⟩
        · exact hw'.trans hw
        · rw [hw] at hw'
          cases hw'
      · rcases hs.wake with ⟨-,hu'⟩ | ⟨hw',-⟩
        · rw [hu', hu]
        · rw [hw] at hw'
          cases hw'
  · have hs := hb.sig t
    rcases hs.wake with ⟨hw',-⟩ | ⟨-,hw',-⟩
    · obtain ⟨hc,ht⟩ := (h.thread t).waits (hw'.symm.trans hw)
      exact ⟨fun hn => hc (hs.call.symm.trans hn),hs.timeout.trans ht⟩
    · exact absurd (hw.symm.trans hw') (by decide)
  · have hs := hb.sig t
    change (if _ then some n else x.handed t) ≠ none
    split_ifs with hwake
    · exact Option.some_ne_none n
    · refine (h.thread t).woken (hs.call.symm.trans hc) ?_ (hs.timeout.symm.trans ht)
      by_contra hw'
      exact hwake ⟨Bool.not_eq_false _ ▸ hw',hw,hs.call.symm.trans hc⟩
  · change (if _ then some n else x.handed t) = some m at hm
    change (if _ then handover x.p p' t else x.last t).Exact m
    split_ifs at hm ⊢ with hwake
    · cases hm
      exact hover t hwake
    · exact h.last t m hm

private theorem processSend_inv (h : SigInv x) (hn : goodSigno sigInfo.si_signo = true)
    (hok : (SigCall.processSend sigInfo allocs).Ok x) : SigInv ((SigCall.processSend sigInfo allocs).run x) := by
  rw [SigCall.Ok] at hok
  rw [SigCall.run]
  by_cases hk : sigInfo.si_signo = SIGKILL
  · rw [if_pos hk] at hok
    rw [osSigProcessSend, if_pos hk]
    have hadd : Broadcast sigInfo.si_signo x.p { x.p with sigShare := (osSigAddSet x.p.sigShare sigInfo.si_signo).1 } :=
      ⟨rfl,osSigIsMember_add_of,fun _ => .refl _ _⟩
    have hnone : ∀ t, ¬ Woken x.p (osSigProcessForeachChild sigProcessKillSigHandler x.p.threads
        { x.p with sigShare := (osSigAddSet x.p.sigShare sigInfo.si_signo).1 } ⟨sigInfo,none,none,none,none⟩).1.1 t := by
      rintro t ⟨hw,hw',hc⟩
      by_cases ht : t ∈ x.p.threads
      · exact hok t ht hw hc
      · rw [foreachKill_sig_of_not_mem ht] at hw'
        cases hw.symm.trans hw'
    refine h.sent (hadd.trans (foreachKill_broadcast _ rfl fun t ht hw hc => absurd hc (hok t ht hw)))
      (fun t ht => absurd ht (hnone t)) fun _ _ => .inl ⟨hk,?_⟩
    change osSigIsMember (osSigProcessForeachChild _ _ _ _).1.1.sigShare SIGKILL = true
    rw [foreachKill_sigShare, hk]
    exact osSigIsMember_add (by decide)
  · rw [if_neg hk] at hok
    have hcall : ∀ t, (x.p.sig t).waiting = true → (x.p.sig t).call ≠ none := fun t ht => ((h.thread t).waits ht).1
    obtain ⟨hb,hrec⟩ := osSigProcessSend_spec hn hk hcall h.threads fun t ht => (hok.1 t ht).1
    refine h.sent hb (fun t => osSigProcessSend_handover hn hk hcall h.nodup (fun t ht => (hok.1 t ht).2) hok.2) fun hret _ => ?_
    obtain ⟨t,ht,hr⟩ := hrec hret
    exact .inr ⟨t,by exact hb.threads.symm ▸ ht,SigHist.recordedAt_of_received hr⟩

private theorem taskKill_inv (h : SigInv x) (hn : goodSigno signo = true) (hok : (SigCall.taskKill t signo alloc).Ok x) :
    SigInv ((SigCall.taskKill t signo alloc).run x) := by
  have hd := osTcbDispatch_delivered (x.p.sig t) ⟨signo,SI_USER,0⟩ alloc
  rw [SigCall.run]
  refine h.sent (broadcast_set hd) (fun u => osTaskKillUnsafe_handover hn hok.2) fun hret _ => ?_
  exact SigHist.recordedAt_of_received
    (received_of_dispatch (fun hw => ((h.thread t).waits hw).1) hn hret hok.1)

/-- A step of the thread t, and the signal that it consumes. -/
structure ThreadStep (x x' : SigHist) (t : Nat) (gone : Option Nat) : Prop where
  threads : x'.p.threads = x.p.threads
  others : ∀ u ≠ t, x'.p.sig u = x.p.sig u ∧ x'.handed u = x.handed u
  recorded : ∀ m, gone ≠ some m → x.RecordedAt t m → x'.RecordedAt t m
  share : osSigIsMember x.p.sigShare SIGKILL = true → osSigIsMember x'.p.sigShare SIGKILL = true ∨
    (⟨none,SIGKILL⟩ ∈ x.owed → ∃ u ∈ x.p.threads, x.RecordedAt u SIGKILL)
  owed : ∀ o ∈ x'.owed, o ∈ x.owed ∧ ¬ (gone = some o.signo ∧ (o.dest = none ∨ o.dest = some t))
  taken : ∀ d ∈ x'.taken, d ∈ x.taken ∨ d.Exact
  thread : ThreadInv (x'.p.sig t) (x'.handed t)
  last : x'.last = x.last
  handed : ∀ m, x'.handed t = some m → x.handed t = some m

theorem SigInv.step {x' : SigHist} (gone : Option Nat) (h : SigInv x) (hs : ThreadStep x x' t gone) : SigInv x' := by
  have hrec : ∀ u m, ¬ (gone = some m ∧ u = t) → x.RecordedAt u m → x'.RecordedAt u m := by
    intro u m hgone hr
    by_cases hu : u = t
    · subst hu
      exact hs.recorded m (fun hg => hgone ⟨hg,rfl⟩) hr
    · rw [SigHist.RecordedAt, (hs.others u hu).1, (hs.others u hu).2]
      exact hr
  refine ⟨⟨fun o ho => ?_,fun d hd => (hs.taken d hd).elim (h.law.exact d) id⟩,hs.threads ▸ h.threads,hs.threads ▸ h.nodup,
    fun u => ?_,fun u m hm => ?_⟩
  · obtain ⟨hmem,hgone⟩ := hs.owed o ho
    obtain ⟨_ | u,m⟩ := o
    · have hkept : ∀ u, x.RecordedAt u m → x'.RecordedAt u m := fun u => hrec u m fun hg => hgone ⟨hg.1,.inl rfl⟩
      rcases h.law.kept _ hmem with ⟨hk,hshare⟩ | ⟨u,hu,hr⟩
      · rcases hs.share hshare with hshare | hall
        · exact .inl ⟨hk,hshare⟩
        · obtain ⟨u,hu,hr⟩ := hall (by rw [← (show m = SIGKILL from hk)]; exact hmem)
          exact .inr ⟨u,hs.threads ▸ hu,hkept u ((show m = SIGKILL from hk) ▸ hr)⟩
      · exact .inr ⟨u,hs.threads ▸ hu,hkept u hr⟩
    · exact hrec u m (fun hg => hgone ⟨hg.1,.inr (by rw [hg.2])⟩) (h.law.kept _ hmem)
  · by_cases hu : u = t
    · rw [hu]
      exact hs.thread
    · rw [(hs.others u hu).1, (hs.others u hu).2]
      exact h.thread u
  · rw [hs.last]
    by_cases hu : u = t
    · exact h.last u m (hu ▸ hs.handed m (hu ▸ hm))
    · rw [(hs.others u hu).2] at hm
      exact h.last u m hm

/-- A step that only writes the sig_cb of t. -/
private theorem threadStep_set (hrec : ∀ m, osSigIsMember ((x.p.sig t).sigFlag ||| (x.p.sig t).sigPendFlag) m = true →
    osSigIsMember (s.sigFlag ||| s.sigPendFlag) m = true) (ht : ThreadInv s (x.handed t)) :
    ThreadStep x { x with p := x.p.set t s } t none := by
  refine ⟨rfl,fun u hu => ⟨SigProcess.set_sig_of_ne hu,rfl⟩,fun m _ hr => ?_,fun hs => .inl hs,
    fun o ho => ⟨ho,fun hg => Option.some_ne_none _ hg.1.symm⟩,fun d hd => .inl hd,?_,rfl,fun _ h => h⟩
  · rw [SigHist.RecordedAt]
    dsimp only
    rw [SigProcess.set_sig_self]
    exact hr.imp_left (hrec m)
  · dsimp only
    rw [SigProcess.set_sig_self]
    exact ht

/-- A consumption of signo by t that writes its sig_cb. -/
private theorem threadStep_consume {d : Taken} (hrec : ∀ m ≠ signo, x.RecordedAt t m →
      osSigIsMember (s.sigFlag ||| s.sigPendFlag) m = true ∨ x.handed t = some m)
    (ht : ThreadInv s (x.handed t)) (hd : d.Exact) : ThreadStep x (x.consume t signo (x.p.set t s) d) t (some signo) := by
  refine ⟨rfl,fun u hu => ⟨SigProcess.set_sig_of_ne hu,rfl⟩,fun m hm hr => ?_,fun hs => .inl hs,
    fun o ho => ?_,fun d' hd' => ?_,?_,rfl,fun _ h => h⟩
  · rw [SigHist.RecordedAt, SigHist.consume]
    dsimp only
    rw [SigProcess.set_sig_self]
    exact hrec m (fun he => hm (he ▸ rfl)) hr
  · obtain ⟨hmem,hkeep⟩ := List.mem_filter.mp ho
    refine ⟨hmem,fun hg => ?_⟩
    rw [decide_eq_true_iff] at hkeep
    exact hkeep ⟨(Option.some.inj hg.1).symm,hg.2⟩
  · rcases List.mem_append.mp hd' with hd' | hd'
    · exact .inl hd'
    · rw [List.mem_singleton.mp hd']
      exact .inr hd
  · rw [SigHist.consume]
    dsimp only
    rw [SigProcess.set_sig_self]
    exact ht

/-- A thread that is in no wait was handed nothing. -/
theorem ThreadInv.idle {handed : Option Nat} (h : ThreadInv s handed) (hc : s.call = none) : handed = none ∧ s.waiting = false := by
  refine ⟨?_,?_⟩
  · cases hh : handed with
    | none => rfl
    | some m => exact absurd ((h.reports m hh).1.symm.trans hc) (by decide)
  · by_contra hw
    exact (h.waits (Bool.not_eq_false _ ▸ hw)).1 hc

private theorem threadInv_idle (hc : s.call = none) (hw : s.waiting = false) : ThreadInv s none :=
  ⟨fun _ hh => (Option.some_ne_none _ hh.symm).elim,fun h => absurd (hw.symm.trans h) (by decide),
    fun h => absurd (hc.symm.trans h) (by decide)⟩

private theorem sigprocMask_inv {how : Nat} {setl : Option (BitVec 64)} (h : SigInv x) (hc : (x.p.sig t).call = none) :
    SigInv ((SigCall.sigprocMask t how setl).run x) := by
  obtain ⟨hh,hw⟩ := (h.thread t).idle hc
  obtain ⟨mask,flag,pend,heq,hor⟩ := osSigprocMask_eq (x.p.sig t) how setl
  rw [SigCall.run, heq]
  refine h.step none (threadStep_set (t := t) (fun m hm => ?_) ?_)
  · dsimp only
    rw [hor]
    exact hm
  · rw [hh]
    exact threadInv_idle hc hw

private theorem threadInv_waits (hc : s.call ≠ none) (hw : s.waiting = true) (ht : s.timeout = false) : ThreadInv s none :=
  ⟨fun _ hh => (Option.some_ne_none _ hh.symm).elim,fun _ => ⟨hc,ht⟩,fun _ h => absurd (hw.symm.trans h) (by decide)⟩

private theorem sigSuspend_inv (h : SigInv x) (hc : (x.p.sig t).call = none) : SigInv ((SigCall.sigSuspend t set).run x) := by
  obtain ⟨hh,hw⟩ := (h.thread t).idle hc
  obtain ⟨flag,pend,heq,hor⟩ := osSigMaskSwitch_eq (x.p.sig t) set
  have hrec : ∀ m, osSigIsMember ((x.p.sig t).sigFlag ||| (x.p.sig t).sigPendFlag) m = true →
      osSigIsMember (flag ||| pend) m = true := fun m hm => by rw [hor]; exact hm
  have hz := osSigMaskSwitch_pend (x.p.sig t) set
  rw [SigCall.run, osSigSuspend]
  rw [heq] at hz ⊢
  by_cases hf : flag = 0
  · obtain ⟨mask,hwait⟩ := osSigTimedWaitNoLock_waits (i := false) (hz hf)
    rw [hwait]
    dsimp only
    rw [if_neg (not_not.mpr hf)]
    refine h.step none (threadStep_set (t := t) hrec ?_)
    rw [hh]
    exact threadInv_waits (by exact Option.some_ne_none false) rfl rfl
  · dsimp only
    rw [if_pos hf]
    refine h.step none (threadStep_set (t := t) hrec ?_)
    rw [hh]
    exact threadInv_idle hc hw

theorem sigTimedWait_inv (h : SigInv x) (hc : (x.p.sig t).call = none) (hok : (SigCall.sigTimedWait t set).Ok x) :
    SigInv ((SigCall.sigTimedWait t set).run x) := by
  obtain ⟨hh,hw⟩ := (h.thread t).idle hc
  rw [SigCall.run]
  by_cases hz : (x.p.sig t).sigPendFlag &&& set = 0
  · obtain ⟨mask,hwait⟩ := osSigTimedWaitNoLock_waits (i := true) hz
    rw [hwait]
    refine h.step none (threadStep_set (t := t) (fun m hm => hm) ?_)
    rw [hh]
    exact threadInv_waits (by exact Option.some_ne_none true) rfl rfl
  · obtain ⟨k,u,l,hk,hpend⟩ := osSigTimedWaitNoLock_pended (i := true) hz
    have hbit : (x.p.sig t).sigPendFlag.getLsbD k = true := by
      rw [BitVec.getLsbD_and, Bool.and_eq_true] at hk
      exact hk.1
    have hdel : (x.p.sig t).sigPendFlag ^^^ ((x.p.sig t).sigPendFlag &&& set) = sigDelSet (x.p.sig t).sigPendFlag (k + 1) := by
      rw [AtMostOne.eq hok hk]
      exact xor_signo2Set hbit
    rw [hpend]
    dsimp only
    rw [Int.toNat_natCast]
    refine h.step _ (threadStep_consume (fun m hm hr => ?_) ?_ ⟨osSigIsMember_bit hbit,hdel,rfl⟩)
    · refine hr.imp_left fun hr => ?_
      dsimp only
      rw [hdel]
      rw [osSigIsMember_or, Bool.or_eq_true] at hr ⊢
      exact hr.imp_right (osSigIsMember_del hm (Nat.succ_ne_zero k))
    · rw [hh]
      exact threadInv_idle hc hw

private theorem expire_inv {ops : SchedOps} (h : SigInv x) (hw : (x.p.sig t).waiting = true) (hok : (SigCall.expire t ops).Ok x) :
    SigInv ((SigCall.expire t ops).run x) := by
  refine h.step none (threadStep_set (t := t) (fun m hm => hm) ⟨fun m hm => ?_,fun hw' => ?_,fun _ _ ht => ?_⟩)
  · exact absurd (hw.symm.trans ((h.thread t).reports m hm).2.1) (by decide)
  · exact absurd (show false = true from hw') (by decide)
  · exact absurd ((show ops.timeoutBit = true from hok).symm.trans ht) (by decide)

/-- A wait with info that did not time out reports the signal that it was woken for. -/
private theorem resume_inv (h : SigInv x) (hw : (x.p.sig t).waiting = false) : SigInv ((SigCall.resume t).run x) := by
  rw [SigCall.run, sigWaitReturn]
  by_cases hrep : (x.p.sig t).call = some true ∧ (x.p.sig t).timeout = false
  · obtain ⟨m,hm⟩ := Option.ne_none_iff_exists'.mp ((h.thread t).woken hrep.1 hw hrep.2)
    have hsigno := ((h.thread t).reports m hm).2.2.2
    have hret : (if (x.p.sig t).timeout = true then -EAGAIN else 0) = 0 := by
      rw [hrep.2]
      rfl
    have hm' : (sysSigTimedWaitRet { x.p.sig t with sigwaitmask := 0, call := none, timeout := false } 0).toNat = m := by
      rw [sysSigTimedWaitRet, if_pos rfl]
      exact hsigno
    dsimp only
    rw [hret, if_pos ⟨hrep.1,rfl⟩, hm']
    refine h.step (some m) ⟨rfl,fun u hu => ⟨SigProcess.set_sig_of_ne hu,Function.update_of_ne hu none x.handed⟩,
      fun m' hne hr => ?_,fun hs => .inl hs,fun o ho => ?_,fun d hd => ?_,?_,rfl,fun m' hm' => ?_⟩
    · rcases hr with hr | hr
      · refine .inl ?_
        dsimp only [SigHist.consume]
        rw [SigProcess.set_sig_self]
        exact hr
      · exact absurd (hm.symm.trans hr) hne
    · obtain ⟨hmem,hkeep⟩ := List.mem_filter.mp ho
      rw [decide_eq_true_iff] at hkeep
      exact ⟨hmem,fun hg => hkeep ⟨(Option.some.inj hg.1).symm,hg.2⟩⟩
    · rcases List.mem_append.mp hd with hd | hd
      · exact .inl hd
      · rw [List.mem_singleton.mp hd]
        exact .inr ⟨hm,h.last t m hm⟩
    · dsimp only [SigHist.consume]
      rw [SigProcess.set_sig_self, Function.update_self]
      exact threadInv_idle rfl hw
    · exact (Option.some_ne_none m' (hm'.symm.trans (Function.update_self t none x.handed))).elim
  · have hh : x.handed t = none := by
      cases hh : x.handed t with
      | none => rfl
      | some m =>
        obtain ⟨hc,-,ht,-⟩ := (h.thread t).reports m hh
        exact absurd ⟨hc,ht⟩ hrep
    dsimp only
    rw [if_neg]
    · refine h.step none (threadStep_set (t := t) (fun m hm => hm) ?_)
      rw [hh]
      exact threadInv_idle rfl hw
    · rintro ⟨hc,hret⟩
      refine hrep ⟨hc,?_⟩
      by_contra ht
      rw [if_pos (Bool.not_eq_false _ ▸ ht)] at hret
      exact absurd hret (by decide)

theorem saveContext_inv {sigIntLock sigHandler : Nat} {killed : Bool} (h : SigInv x) (hc : (x.p.sig t).call = none)
    (hh : sigHandler ≠ 0) : SigInv ((SigCall.saveContext t sigIntLock killed sigHandler).run x) := by
  obtain ⟨hn,hw⟩ := (h.thread t).idle hc
  rw [SigCall.run]
  rcases osSaveSignalContext_cases x.p t sigIntLock killed hh with heq | ⟨k,u,l,hk,heq⟩
  · rw [heq]
    exact h
  · rw [heq]
    dsimp only
    refine h.step _ (threadStep_consume (fun m hm hr => ?_) ?_ ⟨osSigIsMember_bit hk,?_,?_⟩)
    · refine hr.imp_left fun hr => ?_
      dsimp only
      rw [xor_signo2Set hk]
      rw [osSigIsMember_or, Bool.or_eq_true] at hr ⊢
      refine hr.imp_left fun hr => osSigIsMember_del hm (Nat.succ_ne_zero k) ?_
      rw [osSigIsMember_or, hr, Bool.true_or]
    · rw [hn]
      exact threadInv_idle hc hw
    · rw [SigProcess.set_sig_self]
      exact xor_signo2Set hk
    · rw [SigProcess.set_sig_self]

private theorem restorContext_inv (h : SigInv x) (hc : (x.p.sig t).call = none) (hok : (SigCall.restorContext t).Ok x) :
    SigInv ((SigCall.restorContext t).run x) := by
  obtain ⟨hn,hw⟩ := (h.thread t).idle hc
  rw [SigCall.run, osRestorSignalContext]
  by_cases hcount : (x.p.sig t).count = 1
  · rw [if_neg (not_not.mpr hcount)]
    refine h.step (t := t) none ⟨rfl,fun u hu => ⟨SigProcess.set_sig_of_ne hu,rfl⟩,fun m _ hr => ?_,
      fun _ => .inr (hok hcount),fun o ho => ⟨ho,fun hg => Option.some_ne_none _ hg.1.symm⟩,fun d hd => .inl hd,?_,rfl,
      fun _ h => h⟩
    · rw [SigHist.RecordedAt]
      dsimp only
      rw [SigProcess.set_sig_self]
      exact hr
    · dsimp only
      rw [SigProcess.set_sig_self, hn]
      exact threadInv_idle hc hw
  · rw [if_pos hcount]
    exact h

theorem SigCall.step_inv {c : SigCall} (h : SigInv x) (hp : c.Pre x) (hok : c.Ok x) : SigInv (c.run x) := by
  cases c with
  | processSend info alloc => exact processSend_inv h hp hok
  | taskKill t signo alloc => exact taskKill_inv h hp.2 hok
  | sigprocMask t how setl => exact sigprocMask_inv h hp.2
  | sigSuspend t set => exact sigSuspend_inv h hp.2
  | sigTimedWait t set => exact sigTimedWait_inv h hp.2 hok
  | expire t ops => exact expire_inv h hp.1 hok
  | resume t => exact resume_inv h hp.1
  | saveContext t sigIntLock killed sigHandler => exact saveContext_inv h hp.2.1 hp.2.2
  | restorContext t => exact restorContext_inv h hp.2 hok

end LiteOsKernel.Ipc.Signal
