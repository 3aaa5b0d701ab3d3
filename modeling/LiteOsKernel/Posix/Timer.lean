import LiteOsKernel.Posix.Clock
import LiteOsKernel.Swtmr.Swtmr

/-! POSIX timers on software timers, after time.c, and the task that runs their handlers. Timer IDs are the IDs of the
software timers (LOSCFG_SECURITY_VID is off), and what SwtmrProc sends is left out. -/
namespace LiteOsKernel.Posix
open Swtmr

def EAGAIN : Int := 11
def ENOMEM : Int := 12
def ENOSYS : Int := 38
def SIGALRM : Int := 14
def SIGRTMAX : Int := 64

/-- The address of SwtmrProc. -/
def SwtmrProc : Nat := 1

inductive SigevNotify where
  | signal
  | none
  | thread
  | threadId
  deriving DecidableEq

structure Ksigevent where
  sigev_signo : Int
  sigev_notify : SigevNotify

structure ItimerSpec where
  it_interval : TimeSpec
  it_value : TimeSpec

/-- The timers; the item that each CPU has taken off its handler queue; how many arguments malloc has given out, the n-th as
n; those given back to free. -/
structure PosixState where
  swtmr : SwtmrState
  running : Nat → Option SwtmrHandlerItem
  args : Nat
  freed : Nat → Bool

def posixInit : PosixState := ⟨swtmrBaseInit,fun _ => none,0,fun _ => false⟩

namespace PosixState

def free (s : PosixState) (arg : Nat) : PosixState := { s with freed := Function.update s.freed arg true }

/-- OsTimerCreate by the process owner: the timer ID, or the errno that comes with -1. realtime says that clockID is
CLOCK_REALTIME, timerID that it is not NULL, and enough that malloc finds memory. -/
def osTimerCreate (s : PosixState) (owner : Nat) (realtime : Bool) (evp : Option Ksigevent) (timerID enough : Bool) :
    PosixState × Except Int Nat :=
  let signo := (evp.map (·.sigev_signo)).getD SIGALRM
  if realtime = false ∨ timerID = false ∨ SIGRTMAX < signo ∨ signo < 1 then (s,.error EINVAL)
  else if evp.any (fun evp => evp.sigev_notify ≠ .signal ∧ evp.sigev_notify ≠ .threadId) then (s,.error ENOTSUP)
  else if enough = false then (s,.error ENOMEM)
  else
    let arg := s.args + 1
    let s := { s with args := arg }
    match s.swtmr.losSwtmrCreate owner 1 .once SwtmrProc true arg with
    | (_,.error ret) => (s.free arg,.error (if ret = .maxsize then EAGAIN else EINVAL))
    | (swtmr,.ok swtmrID) => ({ s with swtmr := swtmr },.ok swtmrID)

def validTimerID (s : SwtmrState) (caller swtmrID : Nat) : Bool :=
  decide (swtmrID < OS_SWTMR_MAX_TIMERID ∧ (s.cb (swtmrID % LOSCFG_BASE_CORE_SWTMR_LIMIT)).uwOwnerPid = caller)

/-- timer_delete with 0 or the errno that comes with -1; intActive is OS_INT_ACTIVE. -/
def timer_delete (s : PosixState) (caller : Nat) (intActive : Bool) (timerID : Nat) : PosixState × Int :=
  let swtmrID := timerID % 2 ^ 16
  if intActive = true ∨ validTimerID s.swtmr caller swtmrID = false then (s,EINVAL)
  else
    let swtmr := s.swtmr.cb (swtmrID % LOSCFG_BASE_CORE_SWTMR_LIMIT)
    match s.swtmr.losSwtmrDelete swtmrID with
    | (_,.error _) => (s,EINVAL)
    | (deleted,.ok _) =>
      let s := { s with swtmr := deleted }
      if swtmr.pfnHandler = SwtmrProc ∧ swtmr.uwArg ≠ 0 then (s.free swtmr.uwArg,0) else (s,0)

/-- What timer_settime writes into a block. -/
def settimeCb (swtmr : SwtmrCtrl) (expiry interval : Nat) : SwtmrCtrl :=
  { swtmr with
    ucMode := if interval ≠ 0 then .opp else .noSelfDelete
    uwExpiry := (expiry + if expiry ≠ 0 then 1 else 0) % 2 ^ 32
    uwInterval := interval
    uwOverrun := 0 }

/-- timer_settime with 0 or the errno that comes with -1, without oldValue; none where SwtmrToStart divides by zero. -/
def timer_settime (s : SwtmrState) (cfg : SwtmrConfig) (TICK_PER_SECOND startTime currTime caller : Nat) (intActive : Bool)
    (timerID flags : Nat) (value : Option ItimerSpec) : Option (SwtmrState × Int) :=
  let swtmrID := timerID % 2 ^ 16
  let index := swtmrID % LOSCFG_BASE_CORE_SWTMR_LIMIT
  if flags ≠ 0 then some (s,ENOSYS)
  else
    match value with
    | none => some (s,EINVAL)
    | some value =>
      if intActive = true ∨ validTimerID s caller swtmrID = false then some (s,EINVAL)
      else if validTimeSpec value.it_value = false ∨ validTimeSpec value.it_interval = false then some (s,EINVAL)
      else
        let (s,ret) := s.losSwtmrStop (s.cb index).usTimerID
        if ret ≠ .ok () ∧ ret ≠ .error .notStarted then some (s,EINVAL)
        else
          let expiry := osTimeSpec2Tick TICK_PER_SECOND value.it_value
          let interval := osTimeSpec2Tick TICK_PER_SECOND value.it_interval
          let s := s.setCb index (settimeCb (s.cb index) expiry interval)
          if value.it_value.tv_sec = 0 ∧ value.it_value.tv_nsec = 0 then some (s,0)
          else (s.losSwtmrStart cfg startTime currTime (s.cb index).usTimerID).map fun (s,ret) =>
            (s,if ret = .ok () then 0 else EINVAL)

/-- SwtmrTask copies the first item of its queue, to run its handler next. -/
def taskTake (s : PosixState) (cpuid : Nat) : PosixState :=
  match (s.swtmr.runqueue cpuid).swtmrHandlerQueue with
  | [] => s
  | item :: rest =>
    { s with
      swtmr := { s.swtmr with
        runqueue := Function.update s.swtmr.runqueue cpuid { s.swtmr.runqueue cpuid with swtmrHandlerQueue := rest } }
      running := Function.update s.running cpuid (some item) }

/-- The handler of the item is done. -/
def taskDone (s : PosixState) (cpuid : Nat) : PosixState := { s with running := Function.update s.running cpuid none }

end PosixState

end LiteOsKernel.Posix
