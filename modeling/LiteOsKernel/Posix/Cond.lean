import LiteOsKernel.Ipc.Event

/-! Condition variables, after pthread_cond.c on the architectures where a wait compares the value of the variable: the pieces that
the calls run in one go, which are the sections under cond->mutex, the compare-and-swap of the value and the calls of the event.
Variables that are not initialised and the cancellation of threads are left out. -/
namespace LiteOsKernel.Posix

open Ipc

def ENOERR : Int := 0
def EINVAL : Int := 22
def ETIMEDOUT : Int := 110

structure TimeSpec where
  tv_sec : Int
  tv_nsec : Int
  deriving DecidableEq

def OS_SYS_NS_PER_SECOND : Nat := 1000000000

def validTimeSpec (tp : TimeSpec) : Bool :=
  !(decide (tp.tv_nsec < 0) || decide (OS_SYS_NS_PER_SECOND ≤ tp.tv_nsec) || decide (tp.tv_sec < 0))

/-- In 64-bit words; TICK_PER_SECOND is LOSCFG_BASE_CORE_TICK_PER_SECOND. -/
def osTimeSpec2Tick (TICK_PER_SECOND : Nat) (tp : TimeSpec) : Nat :=
  let ns := (tp.tv_sec * OS_SYS_NS_PER_SECOND + tp.tv_nsec).toNat % 2^64
  let tick := (ns * TICK_PER_SECOND + (OS_SYS_NS_PER_SECOND - 1)) % 2^64 / OS_SYS_NS_PER_SECOND
  if LOS_WAIT_FOREVER < tick then LOS_WAIT_FOREVER else tick

namespace Cond

def BROADCAST_EVENT : BitVec 32 := 1
def COND_COUNTER_STEP : BitVec 32 := 4
def COND_FLAGS_MASK : BitVec 32 := 3
def COND_COUNTER_MASK : BitVec 32 := ~~~COND_FLAGS_MASK

/-- The event with its waiters, the value and the count, an int, of a pthread_cond_t. -/
structure PthreadCond where
  event : Event.EventState
  value : BitVec 32
  count : Int

def pthreadCondInit : PthreadCond := ⟨Event.losEventInit,0,0⟩

/-- The round of the loop that swaps the value; the flags never change. -/
def pthreadCondValueModify (cond : PthreadCond) : PthreadCond :=
  { cond with value := (cond.value - COND_COUNTER_STEP) &&& COND_COUNTER_MASK ||| cond.value &&& COND_FLAGS_MASK }

/-- The section of pthread_cond_broadcast, and whether there is somebody to wake. -/
def broadcastTake (cond : PthreadCond) : PthreadCond × Bool := if 0 < cond.count then ({ cond with count := 0 },true) else (cond,false)

def broadcastWrite (cond : PthreadCond) : PthreadCond :=
  { cond with event := (Event.losEventWrite cond.event true BROADCAST_EVENT).1 }

/-- The section of pthread_cond_signal, and whether there is somebody to wake. -/
def signalTake (cond : PthreadCond) : PthreadCond × Bool :=
  if 0 < cond.count then ({ cond with count := cond.count - 1 },true) else (cond,false)

def signalWrite (cond : PthreadCond) : PthreadCond := { cond with event := (Event.osEventWriteOnce cond.event true 1).1 }

/-- cond->count++. -/
def pthreadCountAdd (cond : PthreadCond) : PthreadCond := { cond with count := (cond.count + 1).bmod (2^32) }

def pthreadCountSub (cond : PthreadCond) : PthreadCond := if 0 < cond.count then { cond with count := cond.count - 1 } else cond

/-- What pthread_cond_timedwait does with its time between the count and the user's mutex: it returns, or waits for so many ticks.
pthread_cond_wait has no time. -/
def waitTicks (TICK_PER_SECOND : Nat) (absTime : Option TimeSpec) : Except Int Nat :=
  match absTime with
  | none => .ok LOS_WAIT_FOREVER
  | some absTime =>
    if absTime.tv_sec = 0 ∧ absTime.tv_nsec = 0 then .error ETIMEDOUT
    else if validTimeSpec absTime = false then .error EINVAL
    else .ok (osTimeSpec2Tick TICK_PER_SECOND absTime)

def pthreadCondWaitSub (cond : PthreadCond) (ctx : PendContext) (task : Nat) (value : BitVec 32) (ticks : Nat) :
    PthreadCond × Option Event.EventRet :=
  let (event,ret) := Event.osEventReadWithCond cond.event cond.value value (~~~1) ctx task 0x0f
    (Event.LOS_WAITMODE_OR ||| Event.LOS_WAITMODE_CLR) ticks
  ({ cond with event := event },ret)

def processReturnVal (cond : PthreadCond) (val : Event.EventRet) : PthreadCond × Int :=
  match val with
  | .ok flags => if flags = 0 ∨ flags = BROADCAST_EVENT then (cond,ENOERR) else (pthreadCountSub cond,EINVAL)
  | .error .readTimeout => (pthreadCountSub cond,ETIMEDOUT)
  | .error _ => (pthreadCountSub cond,EINVAL)

/-- The end of pthread_cond_wait. -/
def waitReturnVal (cond : PthreadCond) (val : Event.EventRet) : PthreadCond × Int :=
  match val with
  | .ok flags => if flags = 0 ∨ flags = BROADCAST_EVENT then (cond,ENOERR) else (pthreadCountSub cond,EINVAL)
  | .error _ => (pthreadCountSub cond,EINVAL)

end Cond

end LiteOsKernel.Posix
