import LiteOsKernel.Ipc.Wait
import Mathlib.Logic.Function.Basic

/-! Signals, after los_signal.c: the signal control blocks of the threads of one process, the set its threads share, and the
calls of OsSigTimedWaitNoLock that wait. -/
namespace LiteOsKernel.Ipc.Signal

def SIGKILL : Nat := 9
def SIGSTOP : Nat := 19
def NSIG : Nat := 65
def UINT64_BIT_SIZE : Nat := 64
def SIG_STOP_VISIT : Int := 1
def SI_USER : Int := 0
def SIG_BLOCK : Nat := 0
def SIG_UNBLOCK : Nat := 1
def SIG_SETMASK : Nat := 2
def EINTR : Int := 4
def EAGAIN : Int := 11
def ENOMEM : Int := 12
def EINVAL : Int := 22

structure SigInfo where
  si_signo : Nat
  si_code : Int
  sival_ptr : Nat
  deriving DecidableEq, Inhabited

/-- The sig_cb of a task, and the OsSigTimedWaitNoLock call that it is in: with info or without, still in waitList or not, and
with its OS_TASK_STATUS_TIMEOUT. -/
structure SigCb where
  sigFlag : BitVec 64
  sigPendFlag : BitVec 64
  sigprocmask : BitVec 64
  sigwaitmask : BitVec 64
  count : Nat
  sigunbinfo : SigInfo
  tmpInfoList : List SigInfo
  call : Option Bool
  waiting : Bool
  timeout : Bool
  deriving DecidableEq, Inhabited

/-- A user process with an installed signal handler. -/
structure SigProcess where
  sigShare : BitVec 64
  threads : List Nat
  sig : Nat → SigCb

def SigProcess.set (p : SigProcess) (tcb : Nat) (s : SigCb) : SigProcess := { p with sig := Function.update p.sig tcb s }

def goodSigno (sig : Nat) : Bool := sig < NSIG

def signo2Set (s : Nat) : BitVec 64 := 1#64 <<< s

/-- For signo 0 the bit number wraps around, and the result is LOS_NOK, which callers take as true. -/
def osSigIsMember (set : BitVec 64) (signo : Nat) : Bool :=
  if signo ≠ 0 ∧ goodSigno (signo - 1) then set &&& signo2Set (signo - 1) ≠ 0 else true

def osSigAddSet (set : BitVec 64) (signo : Nat) : BitVec 64 × Int :=
  if signo = 0 ∨ goodSigno signo = false then (set,-EINVAL) else (set ||| signo2Set (signo - 1),0)

/-- The loop of FindFirstSetedBit: n is shifted until it is 1. -/
def findLoop : Nat → BitVec 64 → Nat → Nat
  | 0, _, count => count
  | fuel+1, n, count => if n ^^^ 1 ≠ 0 then findLoop fuel (n >>> 1) (count + 1) else count

def findFirstSetedBit (n : BitVec 64) : Int :=
  if n = 0 then -1
  else
    let count := findLoop UINT64_BIT_SIZE n 0
    if count < UINT64_BIT_SIZE then count else -1

/-- The first node with signo leaves the list, and its info is kept as the one that unblocks the task. -/
def osMoveTmpInfoToUnbInfo (s : SigCb) (signo : Nat) : SigCb :=
  match s.tmpInfoList.find? (·.si_signo = signo) with
  | some info => { s with sigunbinfo := info, tmpInfoList := s.tmpInfoList.eraseP (·.si_signo = signo) }
  | none => s

/-- alloc says that LOS_MemAlloc has memory; false is LOS_NOK. -/
def osAddSigInfoToTmpList (s : SigCb) (info : SigInfo) (alloc : Bool) : SigCb × Bool :=
  if s.tmpInfoList.any (·.si_signo = info.si_signo) then
    ({ s with tmpInfoList := s.tmpInfoList.replaceF fun i => if i.si_signo = info.si_signo then some info else none },true)
  else if alloc then ({ s with tmpInfoList := info :: s.tmpInfoList },true)
  else (s,false)

def osSigWaitTaskWake (s : SigCb) (signo : Nat) : SigCb :=
  if s.waiting ∧ osSigIsMember s.sigwaitmask signo then
    { osMoveTmpInfoToUnbInfo s signo with waiting := false, sigwaitmask := 0 }
  else s

/-- A task that waits for anything but signals is woken without a change to its sig_cb. -/
def osPendingTaskWake (s : SigCb) (signo : Nat) : SigCb × Int :=
  if s.waiting = false then (s,0) else (osSigWaitTaskWake s signo,0)

/-- The bit that OsTcbDispatch sets: none for a masked signal that the task waits for. -/
def dispatchFlags (s : SigCb) (signo : Nat) : SigCb :=
  if osSigIsMember s.sigprocmask signo then
    if s.waiting = false ∨ osSigIsMember s.sigwaitmask signo = false then
      { s with sigPendFlag := (osSigAddSet s.sigPendFlag signo).1 }
    else s
  else { s with sigFlag := (osSigAddSet s.sigFlag signo).1 }

def osTcbDispatch (s : SigCb) (info : SigInfo) (alloc : Bool) : SigCb × Int :=
  if info.si_signo = 0 then (s,0)
  else
    let (s,ok) := osAddSigInfoToTmpList (dispatchFlags s info.si_signo) info alloc
    if ok = false then (s,-ENOMEM) else osPendingTaskWake s info.si_signo

def osSigMaskSwitch (s : SigCb) (set : BitVec 64) : SigCb :=
  let unmaskset := ~~~set &&& s.sigPendFlag
  let s := { s with sigprocmask := set }
  if unmaskset ≠ 0 then { s with sigFlag := s.sigFlag ||| unmaskset, sigPendFlag := s.sigPendFlag ^^^ unmaskset } else s

/-- setl is none when it is NULL. -/
def osSigprocMask (s : SigCb) (how : Nat) (setl : Option (BitVec 64)) : SigCb × Int :=
  match setl with
  | none => (s,0)
  | some set =>
    let (mask,ret) :=
      if how = SIG_BLOCK then (s.sigprocmask ||| set,0)
      else if how = SIG_UNBLOCK then (s.sigprocmask &&& ~~~set,0)
      else if how = SIG_SETMASK then (set,0)
      else (s.sigprocmask,-EINVAL)
    (osSigMaskSwitch s mask,ret)

structure ProcessSignalInfo where
  sigInfo : SigInfo
  defaultTcb : Option Nat
  unblockedTcb : Option Nat
  awakenedTcb : Option Nat
  receivedTcb : Option Nat

/-- The second half of SigProcessSignalHandler: a thread that does not mask the signal receives it. -/
def visitUnblocked (alloc : Nat → Bool) (p : SigProcess) (info : ProcessSignalInfo) (tcb : Nat) :
    (SigProcess × ProcessSignalInfo) × Int :=
  if osSigIsMember (p.sig tcb).sigprocmask info.sigInfo.si_signo = false ∧ info.receivedTcb = none ∧
      info.awakenedTcb ≠ some tcb then
    let info := if info.unblockedTcb = none then { info with unblockedTcb := some tcb } else info
    let (s,ret) := osTcbDispatch (p.sig tcb) info.sigInfo (alloc tcb)
    if ret < 0 then ((p.set tcb s,info),ret)
    else
      let info := { info with receivedTcb := some tcb }
      ((p.set tcb s,info),if info.awakenedTcb ≠ none then SIG_STOP_VISIT else 0)
  else ((p,info),0)

def sigProcessSignalHandler (alloc : Nat → Bool) (p : SigProcess) (info : ProcessSignalInfo) (tcb : Nat) :
    (SigProcess × ProcessSignalInfo) × Int :=
  let info := if info.defaultTcb = none then { info with defaultTcb := some tcb } else info
  if osSigIsMember (p.sig tcb).sigwaitmask info.sigInfo.si_signo ∧ info.awakenedTcb = none then
    let (s,ret) := osTcbDispatch (p.sig tcb) info.sigInfo (alloc tcb)
    if ret < 0 then ((p.set tcb s,info),ret)
    else
      let info := { info with awakenedTcb := some tcb }
      if info.receivedTcb ≠ none then ((p.set tcb s,info),SIG_STOP_VISIT)
      else visitUnblocked alloc (p.set tcb s) info tcb
  else visitUnblocked alloc p info tcb

def osSigProcessForeachChild (handler : SigProcess → ProcessSignalInfo → Nat → (SigProcess × ProcessSignalInfo) × Int) :
    List Nat → SigProcess → ProcessSignalInfo → (SigProcess × ProcessSignalInfo) × Int
  | [], p, info => ((p,info),0)
  | tcb :: rest, p, info =>
    match handler p info tcb with
    | ((p,info),ret) => if ret ≠ 0 then ((p,info),ret) else osSigProcessForeachChild handler rest p info

def sigProcessKillSigHandler (p : SigProcess) (info : ProcessSignalInfo) (tcb : Nat) : (SigProcess × ProcessSignalInfo) × Int :=
  let (s,ret) := osPendingTaskWake (p.sig tcb) info.sigInfo.si_signo
  ((p.set tcb s,info),ret)

def sigProcessLoadTcb (alloc : Nat → Bool) (p : SigProcess) (info : ProcessSignalInfo) (sigInfo : SigInfo) : SigProcess :=
  if info.awakenedTcb = none ∧ info.receivedTcb = none then
    match info.unblockedTcb, info.defaultTcb with
    | some tcb, _ => p.set tcb (osTcbDispatch (p.sig tcb) sigInfo (alloc tcb)).1
    | none, some tcb => p.set tcb (osTcbDispatch (p.sig tcb) sigInfo (alloc tcb)).1
    | none, none => p
  else p

def osSigProcessSend (p : SigProcess) (sigInfo : SigInfo) (alloc : Nat → Bool) : SigProcess × Int :=
  let info : ProcessSignalInfo := ⟨sigInfo,none,none,none,none⟩
  if sigInfo.si_signo = SIGKILL then
    let p := { p with sigShare := (osSigAddSet p.sigShare sigInfo.si_signo).1 }
    ((osSigProcessForeachChild sigProcessKillSigHandler p.threads p info).1.1,0)
  else
    match osSigProcessForeachChild (sigProcessSignalHandler alloc) p.threads p info with
    | ((p,info),ret) => if ret < 0 then (p,ret) else (sigProcessLoadTcb alloc p info sigInfo,0)

/-- OsTaskKillUnsafe for a user task. -/
def osTaskKillUnsafe (p : SigProcess) (tcb signo : Nat) (alloc : Bool) : SigProcess × Int :=
  let (s,ret) := osTcbDispatch (p.sig tcb) ⟨signo,SI_USER,0⟩ alloc
  (p.set tcb s,ret)

/-- none: the task waits, in ops->wait. info says that the pointer is not NULL. -/
def osSigTimedWaitNoLock (s : SigCb) (set : BitVec 64) (info : Bool) : SigCb × Option Int :=
  let clear := s.sigPendFlag &&& set
  if clear ≠ 0 then
    let ret := findFirstSetedBit clear + 1
    (osMoveTmpInfoToUnbInfo { s with sigPendFlag := s.sigPendFlag ^^^ clear } ret.toNat,some ret)
  else
    let set := (osSigAddSet (osSigAddSet set SIGKILL).1 SIGSTOP).1
    ({ s with sigwaitmask := s.sigwaitmask ||| set, call := some info, waiting := true, timeout := false },none)

/-- SchedTimeoutTaskWake for a task in waitList. -/
def sigTimeout (s : SigCb) (ops : SchedOps) : SigCb := { s with waiting := false, timeout := ops.timeoutBit }

/-- A woken task runs and OsSigTimedWaitNoLock returns. -/
def sigWaitReturn (s : SigCb) : SigCb × Int :=
  ({ s with sigwaitmask := 0, call := none, timeout := false },if s.timeout then -EAGAIN else 0)

/-- What SysSigTimedWait reports after the return ret of OsSigTimedWait, which has copied sigunbinfo. -/
def sysSigTimedWaitRet (s : SigCb) (ret : Int) : Int := if ret = 0 then s.sigunbinfo.si_signo else ret

/-- none: the task waits. -/
def osSigSuspend (s : SigCb) (set : BitVec 64) : SigCb × Option Int :=
  let s := osSigMaskSwitch s set
  if s.sigFlag ≠ 0 then (s,some (-EINTR))
  else
    match osSigTimedWaitNoLock s (~~~set) false with
    | (s,some _) => (s,some (-EINTR))
    | (s,none) => (s,none)

/-- The signal whose handler is entered, if one is. A killed task exits instead. -/
def osSaveSignalContext (p : SigProcess) (tcb sigIntLock : Nat) (killed : Bool) (sigHandler : Nat) : SigProcess × Option Nat :=
  let s := p.sig tcb
  if sigIntLock > 0 then (p,none)
  else if killed then (p,none)
  else if s.count = 0 ∧ (s.sigFlag ≠ 0 ∨ p.sigShare ≠ 0) then
    if sigHandler = 0 then ({ p with sigShare := 0 }.set tcb { s with sigFlag := 0 },none)
    else
      let s := { s with sigFlag := s.sigFlag ||| p.sigShare }
      let signo := (findFirstSetedBit s.sigFlag + 1).toNat
      let s := osMoveTmpInfoToUnbInfo s signo
      (p.set tcb { s with sigFlag := s.sigFlag ^^^ signo2Set (signo - 1), count := s.count + 1 },some signo)
  else (p,none)

def osRestorSignalContext (p : SigProcess) (tcb : Nat) : SigProcess :=
  if (p.sig tcb).count ≠ 1 then p
  else { p with sigShare := 0 }.set tcb { p.sig tcb with count := (p.sig tcb).count - 1 }

end LiteOsKernel.Ipc.Signal
