import LiteOsKernel.Common
import Mathlib.Data.Int.Basic
import Mathlib.Logic.Function.Basic

/-! The earliest-deadline-first scheduler, after los_deadline.c: the ready queue at EDFRunqueue.root and the
functions that move a task into and out of it. -/
namespace LiteOsKernel.Sched.Deadline

def OS_SCHED_EDF_MIN_RUNTIME : Nat := 100
def OS_SCHED_EDF_MIN_DEADLINE : Nat := 400
def OS_SCHED_EDF_MAX_DEADLINE : Nat := 5000000
def OS_SCHED_MAX_RESPONSE_TIME : Nat := 2^64 - 1
def LOS_WAIT_FOREVER : Nat := 0xFFFFFFFF

/-- The bits of taskStatus that the scheduler reads. -/
structure TaskStatus where
  init : Bool
  ready : Bool
  suspended : Bool
  pending : Bool
  delay : Bool
  timeout : Bool
  pendTime : Bool
  deriving DecidableEq, Inhabited

/-- EDF_UNUSED, EDF_NEXT_PERIOD, EDF_WAIT_FOREVER and EDF_INIT. -/
inductive EdfFlags where
  | unused
  | nextPeriod
  | waitForever
  | init
  deriving DecidableEq, Inhabited

/-- runTime is INT32, the other times are UINT64; all are in cycles. -/
structure SchedEDF where
  flags : EdfFlags
  runTime : Int
  deadline : Nat
  period : Nat
  finishTime : Nat
  deriving DecidableEq, Inhabited

/-- isEDF says that the policy is LOS_SCHED_DEADLINE. -/
structure LosTaskCB where
  taskStatus : TaskStatus
  startTime : Nat
  waitTime : Nat
  irqUsedTime : Nat
  timeSlice : Int
  isEDF : Bool
  sp : SchedEDF
  deriving DecidableEq, Inhabited

/-- The parameters of a deadline task, in microseconds. -/
structure SchedParam where
  runTimeUs : Nat
  deadlineUs : Nat
  periodUs : Nat
  deriving DecidableEq

/-- OsSchedulerParamCheck for LOS_SCHED_DEADLINE. -/
def osSchedulerParamCheck (p : SchedParam) : Bool :=
  if p.runTimeUs < OS_SCHED_EDF_MIN_RUNTIME ∨ p.deadlineUs ≤ p.runTimeUs then false
  else if p.deadlineUs < OS_SCHED_EDF_MIN_DEADLINE ∨ OS_SCHED_EDF_MAX_DEADLINE < p.deadlineUs then false
  else !decide (p.periodUs < p.deadlineUs)

/-- OS_US_TO_CYCLE on integers of w bits. -/
def usToCycle (w clock time : Nat) : Nat :=
  ((time / 10^6) * clock + ((time % 10^6) * clock % 2^w) / 10^6) % 2^w

/-- The deadline scheduler. root and waitList are the lists of EDFRunqueue, and pended holds the tasks that are linked in
the pend list of some object. When a timeout comes is left open, so the timeout queue is not kept. -/
structure EdfSched where
  tcb : Nat → LosTaskCB
  root : List Nat
  waitList : List Nat
  pended : List Nat

/-- Addition of UINT64 and a signed operand. -/
def add64 (a : Nat) (b : Int) : Nat := ((a + b) % 2^64).toNat

namespace EdfSched

def setTcb (s : EdfSched) (t : Nat) (cb : LosTaskCB) : EdfSched := { s with tcb := Function.update s.tcb t cb }

/-- LOS_ListDelete of the pendList of t. -/
def listDelete (s : EdfSched) (t : Nat) : EdfSched :=
  { s with root := s.root.erase t, waitList := s.waitList.erase t, pended := s.pended.erase t }

def Linked (s : EdfSched) (t : Nat) : Prop := t ∈ s.root ∨ t ∈ s.waitList ∨ t ∈ s.pended

instance (s : EdfSched) (t : Nat) : Decidable (s.Linked t) := inferInstanceAs (Decidable (_ ∨ _))

end EdfSched

/-- The difference of the finish times, taken in 64 bits and cut to INT32. -/
def edfParamCompare (sp1 sp2 : SchedEDF) : Int := Int.bmod ((sp1.finishTime : Int) - sp2.finishTime) (2^32)

/-- LOS_ListHeadInsert: LOS_ListAdd links the node behind list, where none stands for the root of the queue. -/
def losListHeadInsert (l : List Nat) (list : Option Nat) (node : Nat) : List Nat :=
  match list with
  | none => node :: l
  | some x => l.takeWhile (· ≠ x) ++ x :: node :: (l.dropWhile (· ≠ x)).tail

/-- The loop stops at the first ready task that compares greater, and at root when there is none. -/
def deadlineQueueInsert (tcb : Nat → LosTaskCB) (root : List Nat) (taskCB : Nat) : List Nat :=
  if root.isEmpty then root ++ [taskCB]
  else losListHeadInsert root (root.find? fun readyTask => 0 < edfParamCompare (tcb readyTask).sp (tcb taskCB).sp) taskCB

/-- The search of EDFEnqueue for a period that has not passed; fuel bounds its rounds. -/
def periodLoop (sched : SchedEDF) (currTime : Nat) : Nat → Nat → Option Nat
  | 0, _ => none
  | fuel+1, start =>
    let finishTime := add64 start sched.deadline
    if finishTime ≤ currTime ∨ finishTime < add64 start sched.runTime then
      periodLoop sched currTime fuel (add64 start sched.period)
    else some start

/-- EDFEnqueue up to the insertion: whether the task goes to root, and the task as it then is. -/
def edfPrepare (fuel : Nat) (taskCB : LosTaskCB) (currTime : Nat) : Option (Bool × LosTaskCB) :=
  let sched := taskCB.sp
  if taskCB.timeSlice ≤ 0 then
    let first := match sched.flags with
      | .init => currTime
      | .nextPeriod => sched.finishTime
      | .unused | .waitForever => add64 (add64 sched.finishTime (-sched.deadline)) sched.period
    match periodLoop sched currTime fuel first with
    | none => none
    | some start =>
      if currTime < start then
        some (false,{ taskCB with
          waitTime := OS_SCHED_MAX_RESPONSE_TIME
          taskStatus := { taskCB.taskStatus with pendTime := true }
          sp := { sched with finishTime := start, flags := .nextPeriod } })
      else
        some (true,{ taskCB with
          timeSlice := sched.runTime
          sp := { sched with finishTime := add64 start sched.deadline, flags := .unused } })
  else some (true,taskCB)

/-- none: the kernel stops at the assertion, or the search does not end within fuel. -/
def edfEnqueue (fuel : Nat) (s : EdfSched) (t currTime : Nat) : Option EdfSched :=
  if (s.tcb t).taskStatus.ready then none
  else match edfPrepare fuel (s.tcb t) currTime with
    | none => none
    | some (false,cb) => some { s.setTcb t cb with waitList := s.waitList ++ [t] }
    | some (true,cb) =>
      let cb := { cb with taskStatus := { cb.taskStatus with
        init := false, pending := false, delay := false, pendTime := false, timeout := false, ready := true } }
      some { s.setTcb t cb with root := deadlineQueueInsert (Function.update s.tcb t cb) s.root t }

def edfDequeue (s : EdfSched) (t : Nat) : EdfSched :=
  let cb := s.tcb t
  (s.listDelete t).setTcb t { cb with taskStatus := { cb.taskStatus with ready := false } }

/-- A yielding task has no time slice left. -/
def yieldBlock (cb : LosTaskCB) (currTime : Nat) : LosTaskCB := { cb with timeSlice := 0, startTime := currTime }

def edfYield (fuel : Nat) (s : EdfSched) (t currTime : Nat) : Option EdfSched :=
  edfEnqueue fuel (s.setTcb t (yieldBlock (s.tcb t) currTime)) t currTime

def edfDelay (s : EdfSched) (t waitTime : Nat) : EdfSched :=
  let cb := s.tcb t
  s.setTcb t { cb with taskStatus := { cb.taskStatus with delay := true }, waitTime := waitTime }

/-- EDFWait up to the reschedule; waitTime is OS_SCHED_TICK_TO_CYCLE(ticks). -/
def edfWait (s : EdfSched) (t ticks waitTime : Nat) : EdfSched :=
  let cb := s.tcb t
  let cb := { cb with taskStatus := { cb.taskStatus with pending := true, pendTime := true } }
  let cb := if ticks ≠ LOS_WAIT_FOREVER then { cb with waitTime := waitTime }
    else { cb with waitTime := OS_SCHED_MAX_RESPONSE_TIME, sp := { cb.sp with flags := .waitForever } }
  { s.setTcb t cb with pended := s.pended ++ [t] }

/-- A woken task waits for nothing. -/
def wakeBlock (cb : LosTaskCB) : LosTaskCB :=
  { cb with taskStatus := { cb.taskStatus with pending := false, pendTime := false } }

def edfWake (fuel : Nat) (s : EdfSched) (t currTime : Nat) : Option EdfSched :=
  let cb := wakeBlock (s.tcb t)
  let s := (s.listDelete t).setTcb t cb
  if !cb.taskStatus.suspended then edfEnqueue fuel s t currTime else some s

/-- The new parameters, before the task is queued with them. -/
def modifyBlock (clock : Nat) (cb : LosTaskCB) (param : SchedParam) : LosTaskCB :=
  { cb with
    timeSlice := 0
    taskStatus := { cb.taskStatus with ready := false }
    sp := { cb.sp with
      runTime := Int.bmod (usToCycle 32 clock param.runTimeUs) (2^32)
      period := usToCycle 32 clock param.periodUs
      deadline := usToCycle 32 clock param.deadlineUs } }

/-- A ready task leaves the queue and joins it with the new parameters. -/
def edfSchedParamModify (clock fuel : Nat) (s : EdfSched) (t : Nat) (param : SchedParam) (currTime : Nat) : Option EdfSched :=
  let cb := modifyBlock clock (s.tcb t) param
  if (s.tcb t).taskStatus.ready then edfEnqueue fuel ((edfDequeue s t).setTcb t cb) t currTime
  else if (s.tcb t).taskStatus.init then edfEnqueue fuel (s.setTcb t cb) t currTime
  else some (s.setTcb t cb)

/-- EDFTaskSchedParamInit on the control block cb. -/
def edfTaskSchedParamInit (clock : Nat) (cb : LosTaskCB) (param : SchedParam) : LosTaskCB :=
  { cb with
    timeSlice := 0
    isEDF := true
    sp := ⟨.init,Int.bmod (usToCycle 64 clock param.runTimeUs) (2^32),usToCycle 32 clock param.deadlineUs,
      usToCycle 32 clock param.periodUs,0⟩ }

def edfExit (s : EdfSched) (t : Nat) : EdfSched :=
  let status := (s.tcb t).taskStatus
  let s := if status.ready then edfDequeue s t
    else if status.pending then
      (s.listDelete t).setTcb t { s.tcb t with taskStatus := { status with pending := false } }
    else s
  s.setTcb t { s.tcb t with taskStatus := { (s.tcb t).taskStatus with delay := false, pendTime := false } }

/-- The time slice of the running task is used up to currTime. -/
def edfTimeSliceUpdate (s : EdfSched) (t currTime : Nat) : EdfSched :=
  let cb := s.tcb t
  if cb.timeSlice ≤ 0 then s.setTcb t { cb with irqUsedTime := 0 }
  else
    let incTime := Int.bmod ((currTime : Int) - cb.startTime - cb.irqUsedTime) (2^32)
    let cb := { cb with timeSlice := cb.timeSlice - incTime, irqUsedTime := 0, startTime := currTime }
    s.setTcb t (if cb.sp.finishTime ≤ currTime then { cb with timeSlice := 0 } else cb)

/-- The first half of SchedTimeoutTaskWake: a task whose finish time has passed loses its time slice, and one that waits
forever is not timed out. -/
def expireBlock (cb : LosTaskCB) (currTime : Nat) : LosTaskCB :=
  let cb := if cb.sp.finishTime ≤ currTime then { cb with timeSlice := 0 } else cb
  if cb.sp.flags = .waitForever then
    { cb with taskStatus := { cb.taskStatus with pendTime := false }, sp := { cb.sp with flags := .unused } }
  else cb

def timeoutBlock (cb : LosTaskCB) (currTime : Nat) : LosTaskCB :=
  let cb := expireBlock cb currTime
  { cb with taskStatus := { cb.taskStatus with
    pending := false, pendTime := false, delay := false, timeout := cb.taskStatus.timeout || cb.taskStatus.pendTime } }

/-- SchedTimeoutTaskWake on a deadline task. -/
def schedTimeoutTaskWake (fuel : Nat) (s : EdfSched) (t currTime : Nat) : Option EdfSched :=
  let tempStatus := (expireBlock (s.tcb t) currTime).taskStatus
  if tempStatus.pendTime || tempStatus.delay then
    let cb := timeoutBlock (s.tcb t) currTime
    let s := if tempStatus.pendTime then (s.listDelete t).setTcb t cb else s.setTcb t cb
    if !tempStatus.suspended then edfEnqueue fuel s t currTime else some s
  else some (s.setTcb t (expireBlock (s.tcb t) currTime))

def edfRunqueueTopTaskGet (s : EdfSched) : Option Nat := s.root.head?

end LiteOsKernel.Sched.Deadline
