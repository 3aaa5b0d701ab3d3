import LiteOsKernel.Ipc.Wait
import Mathlib.Logic.Function.Basic

/-! Tasks that wait and their timeouts, after los_sched.c, los_sched_pri.h, los_sortlink.c, los_priority.c and los_deadline.c:
the status bits, the timeout queue of each CPU and the pend lists. -/
namespace LiteOsKernel.Sched.Timeout
open LiteOsKernel.Ipc

/-- The bits OS_TASK_STATUS_xxx of taskStatus. -/
structure TaskStatus where
  init : Bool
  ready : Bool
  running : Bool
  suspended : Bool
  pending : Bool
  delay : Bool
  timeout : Bool
  pendTime : Bool
  frozen : Bool
  unused : Bool
  deriving DecidableEq, Inhabited

/-- none is OS_SORT_LINK_INVALID_TIME, which is later than any time. -/
structure SortLinkList where
  responseTime : Option Nat
  cpuid : Nat
  deriving DecidableEq, Inhabited

/-- waitForever says that the flags of a deadline task are EDF_WAIT_FOREVER. -/
structure LosTaskCB where
  ops : SchedOps
  cpuAffiMask : Nat
  taskStatus : TaskStatus
  waitForever : Bool
  sortList : SortLinkList
  deriving DecidableEq, Inhabited

structure SortLinkAttribute where
  sortLink : List Nat
  nodeNum : Nat
  deriving DecidableEq, Inhabited

/-- The tasks, the timeoutQueue of each CPU and the pend list of each IPC object. coreNum is LOSCFG_KERNEL_CORE_NUM. scanning is
the task that the scan of a CPU has taken off the queue and not yet woken: the queue is unlocked in between. -/
structure SchedState where
  coreNum : Nat
  currTime : Nat
  tcb : Nat → LosTaskCB
  timeoutQueue : Nat → SortLinkAttribute
  pendList : Nat → List Nat
  scanning : Nat → Option Nat

/-- What EDFEnqueue does: the time slice is not used up; a new period begins; or the next period is waited for. -/
inductive EdfEnqueue where
  | timeSlice
  | newPeriod
  | nextPeriod (finishTime : Nat)
  deriving DecidableEq

/-- The comparison of two response times. -/
def later : Option Nat → Option Nat → Bool
  | none, some _ => true
  | some a, some b => decide (b < a)
  | _, none => false

/-- AddNode2SortLink: the node goes in front, second, or behind the last one that is not later. -/
def addNode2SortLink (responseTime : Nat → Option Nat) (sortLink : List Nat) (node : Nat) : List Nat :=
  match sortLink with
  | [] => [node]
  | listSorted :: rest =>
    if later (responseTime listSorted) (responseTime node) then node :: listSorted :: rest
    else if responseTime listSorted = responseTime node then listSorted :: node :: rest
    else
      let isLater := fun listSorted => later (responseTime listSorted) (responseTime node)
      (sortLink.reverse.dropWhile isLater).reverse ++ node :: (sortLink.reverse.takeWhile isLater).reverse

namespace TaskStatus

/-- The bits of OS_TASK_STATUS_BLOCKED are cleared. -/
def clearBlocked (st : TaskStatus) : TaskStatus :=
  { st with init := false, pending := false, delay := false, pendTime := false }

end TaskStatus

namespace SchedState

def setTcb (s : SchedState) (t : Nat) (cb : LosTaskCB) : SchedState := { s with tcb := Function.update s.tcb t cb }

def setStatus (s : SchedState) (t : Nat) (st : TaskStatus) : SchedState := s.setTcb t { s.tcb t with taskStatus := st }

/-- LOS_ListDelete of the pendList of t. -/
def listDelete (s : SchedState) (t : Nat) : SchedState := { s with pendList := fun object => (s.pendList object).erase t }

def Linked (s : SchedState) (t : Nat) : Prop := ∃ c ∈ List.range s.coreNum, t ∈ (s.timeoutQueue c).sortLink

instance (s : SchedState) (t : Nat) : Decidable (s.Linked t) := inferInstanceAs (Decidable (∃ _ ∈ _, _))

/-- The CPU with the fewest nodes. -/
def idleRunqueueFind (s : SchedState) : Nat :=
  (List.range' 1 (s.coreNum - 1)).foldl (fun idleCpuid cpuid =>
    if (s.timeoutQueue cpuid).nodeNum < (s.timeoutQueue idleCpuid).nodeNum then cpuid else idleCpuid) 0

/-- AFFI_MASK_TO_CPUID, and any CPU where the mask is not of one CPU. -/
def timeoutCpuid (s : SchedState) (t : Nat) : Nat :=
  let cpuid := ((s.tcb t).cpuAffiMask + (2^16 - 1)) % 2^16
  if s.coreNum ≤ cpuid then s.idleRunqueueFind else cpuid

def setSortList (s : SchedState) (t : Nat) (node : SortLinkList) : SchedState := s.setTcb t { s.tcb t with sortList := node }

/-- The node goes into the queue of a CPU, at its response time. -/
def addNode (s : SchedState) (cpuid t : Nat) : SchedState :=
  let rq := s.timeoutQueue cpuid
  let sortLink := addNode2SortLink (fun u => (s.tcb u).sortList.responseTime) rq.sortLink t
  { s with timeoutQueue := Function.update s.timeoutQueue cpuid ⟨sortLink,rq.nodeNum + 1⟩ }

/-- OsSchedTimeoutQueueAdd. -/
def timeoutQueueAdd (s : SchedState) (t : Nat) (responseTime : Option Nat) : SchedState :=
  (s.setSortList t ⟨responseTime,s.timeoutCpuid t⟩).addNode (s.timeoutCpuid t) t

/-- OsDeleteNodeSortLink, from the queue of a CPU; none where the node is not linked, whose links are NULL. -/
def deleteNodeSortLink (s : SchedState) (cpuid t : Nat) : Option SchedState :=
  if s.Linked t then
    let timeoutQueue := fun c => ⟨(s.timeoutQueue c).sortLink.erase t,(s.timeoutQueue c).nodeNum - if c = cpuid then 1 else 0⟩
    some { s.setSortList t { (s.tcb t).sortList with responseTime := none } with timeoutQueue := timeoutQueue }
  else none

/-- OsSchedTimeoutQueueDelete. -/
def timeoutQueueDelete (s : SchedState) (t : Nat) : Option SchedState :=
  if (s.tcb t).sortList.responseTime ≠ none then s.deleteNodeSortLink (s.tcb t).sortList.cpuid t else some s

/-- OsSchedTimeoutQueueAdjust. -/
def timeoutQueueAdjust (s : SchedState) (t responseTime : Nat) : Option SchedState :=
  let cpuid := (s.tcb t).sortList.cpuid
  if (s.tcb t).sortList.responseTime ≠ none then
    (s.deleteNodeSortLink cpuid t).map fun s => (s.setSortList t ⟨some responseTime,cpuid⟩).addNode cpuid t
  else some s

/-- HPFEnqueue or EDFEnqueue. -/
def enqueue (s : SchedState) (t : Nat) (e : EdfEnqueue) : SchedState :=
  let st := (s.tcb t).taskStatus
  match (s.tcb t).ops, e with
  | .hpf, _ => s.setStatus t { st.clearBlocked with ready := true }
  | .edf, .timeSlice => s.setStatus t { st.clearBlocked with timeout := false, ready := true }
  | .edf, .newPeriod =>
    s.setTcb t { s.tcb t with taskStatus := { st.clearBlocked with timeout := false, ready := true }, waitForever := false }
  | .edf, .nextPeriod finishTime =>
    let s := if st.running then s else s.timeoutQueueAdd t (some finishTime)
    s.setTcb t { s.tcb t with taskStatus := { st with pendTime := true }, waitForever := false }

/-- The part of SchedTaskSwitch that is about the task that stops; responseTime is what ops->waitTimeGet returns. -/
def taskSwitch (s : SchedState) (t responseTime : Nat) : SchedState :=
  let s := s.setStatus t { (s.tcb t).taskStatus with running := false }
  let st := (s.tcb t).taskStatus
  if st.ready then s
  else if st.pendTime ∨ st.delay then s.timeoutQueueAdd t (some responseTime)
  else s

/-- HPFYield, EDFYield, or another task gets the CPU. -/
def yield (s : SchedState) (t : Nat) (e : EdfEnqueue) (responseTime : Nat) : SchedState := (s.enqueue t e).taskSwitch t responseTime

/-- HPFDelay and EDFDelay. -/
def delay (s : SchedState) (t responseTime : Nat) : SchedState :=
  (s.setStatus t { (s.tcb t).taskStatus with delay := true }).taskSwitch t responseTime

/-- HPFWait and EDFWait up to the switch, with the place of the task in the pend list of the object. -/
def wait (s : SchedState) (t object position ticks responseTime : Nat) : SchedState :=
  let cb := s.tcb t
  let s := { s with pendList := Function.update s.pendList object ((s.pendList object).insertIdx position t) }
  let cb := match cb.ops with
    | .hpf =>
      let pendTime := cb.taskStatus.pendTime || ticks ≠ LOS_WAIT_FOREVER
      { cb with taskStatus := { cb.taskStatus with pending := true, pendTime := pendTime } }
    | .edf =>
      let waitForever := cb.waitForever || ticks = LOS_WAIT_FOREVER
      { cb with taskStatus := { cb.taskStatus with pending := true, pendTime := true }, waitForever := waitForever }
  (s.setTcb t cb).taskSwitch t responseTime

/-- HPFWake and EDFWake. -/
def wake (s : SchedState) (t : Nat) (e : EdfEnqueue) : Option SchedState :=
  let s := s.listDelete t
  let s := s.setStatus t { (s.tcb t).taskStatus with pending := false }
  let s := if (s.tcb t).taskStatus.pendTime then
      (s.timeoutQueueDelete t).map fun s => s.setStatus t { (s.tcb t).taskStatus with pendTime := false }
    else some s
  s.map fun s => if (s.tcb t).taskStatus.suspended then s else s.enqueue t e

/-- HPFExit and EDFExit, after which the control block is unused. -/
def exit (s : SchedState) (t : Nat) : Option SchedState :=
  let st := (s.tcb t).taskStatus
  let s := if st.ready then s.setStatus t { st with ready := false }
    else if st.pending then (s.listDelete t).setStatus t { st with pending := false }
    else s
  let st := (s.tcb t).taskStatus
  let s := if st.delay ∨ st.pendTime then
      (s.timeoutQueueDelete t).map fun s => s.setStatus t { (s.tcb t).taskStatus with delay := false, pendTime := false }
    else some s
  s.map fun s => s.setStatus t { (s.tcb t).taskStatus with running := false, unused := true }

/-- SchedTaskFreeze; pm says that tasks are frozen: always where LOSCFG_KERNEL_PM is off, and else in OsIsPmMode. -/
def freeze (s : SchedState) (t : Nat) (pm : Bool) : Option SchedState :=
  let st := (s.tcb t).taskStatus
  if pm = false ∨ ¬(st.pendTime ∨ st.delay) then some s
  else
    let responseTime := (s.tcb t).sortList.responseTime
    (s.timeoutQueueDelete t).map fun s =>
      let s := s.setSortList t { (s.tcb t).sortList with responseTime := responseTime }
      s.setStatus t { (s.tcb t).taskStatus with frozen := true }

/-- SchedTaskUnfreeze. -/
def unfreeze (s : SchedState) (t : Nat) : SchedState :=
  let st := (s.tcb t).taskStatus
  if st.frozen = false then s
  else
    let st := { st with frozen := false }
    let s := s.setStatus t st
    let responseTime := (s.tcb t).sortList.responseTime
    if later responseTime (some s.currTime) then s.timeoutQueueAdd t responseTime
    else
      let s := s.setSortList t { (s.tcb t).sortList with responseTime := none }
      let s := if st.pending then s.listDelete t else s
      s.setStatus t st.clearBlocked

/-- LOS_TaskSuspend; a running task is suspended where checkOnRun, the result of OsTaskSuspendCheckOnRun, allows it. Deadline
tasks are not suspended. -/
def suspend (s : SchedState) (t : Nat) (pm checkOnRun : Bool) (responseTime : Nat) : Option SchedState :=
  let st := (s.tcb t).taskStatus
  if st.unused ∨ st.suspended ∨ (st.running ∧ checkOnRun = false) ∨ (s.tcb t).ops = .edf then some s
  else
    let s := if st.ready then s.setStatus t { st with ready := false } else s
    (s.freeze t pm).map fun s =>
      let s := s.setStatus t { (s.tcb t).taskStatus with suspended := true }
      if st.running then s.taskSwitch t responseTime else s

/-- LOS_TaskResume. -/
def resume (s : SchedState) (t : Nat) (e : EdfEnqueue) : SchedState :=
  let st := (s.tcb t).taskStatus
  if st.unused ∨ ¬st.suspended ∨ (s.tcb t).ops = .edf then s
  else
    let s := s.unfreeze t
    let s := s.setStatus t { (s.tcb t).taskStatus with suspended := false }
    let st := (s.tcb t).taskStatus
    if st.pending ∨ st.delay then s else s.enqueue t e

/-- The first part of SchedTimeoutTaskWake: the wait of a deadline task that waits for ever goes on. -/
def timeoutWaitForever (s : SchedState) (t : Nat) : SchedState :=
  let cb := s.tcb t
  if cb.ops = .edf ∧ cb.waitForever then
    s.setTcb t { cb with taskStatus := { cb.taskStatus with pendTime := false }, waitForever := false }
  else s

/-- The second part: the wait or the delay is over. -/
def timeoutTaskEnd (s : SchedState) (t : Nat) (e : EdfEnqueue) : SchedState :=
  let st := (s.tcb t).taskStatus
  if st.pendTime ∨ st.delay then
    let s := s.setStatus t { st with pending := false, pendTime := false, delay := false, timeout := st.timeout || st.pendTime }
    let s := if st.pendTime then s.listDelete t else s
    if st.suspended then s else s.enqueue t e
  else s

/-- SchedTimeoutTaskWake. -/
def timeoutTaskWake (s : SchedState) (t : Nat) (e : EdfEnqueue) : SchedState := (s.timeoutWaitForever t).timeoutTaskEnd t e

/-- The first part of a round of SchedTimeoutQueueScan: the first node of the queue is taken off, where it is due. -/
def scanTake (s : SchedState) (cpuid : Nat) : Option SchedState :=
  match (s.timeoutQueue cpuid).sortLink with
  | [] => some s
  | t :: _ =>
    if later (s.tcb t).sortList.responseTime (some s.currTime) then some s
    else (s.deleteNodeSortLink cpuid t).map fun s => { s with scanning := Function.update s.scanning cpuid (some t) }

/-- The second part: the task is woken as it is found now. -/
def scanWake (s : SchedState) (cpuid : Nat) (e : EdfEnqueue) : SchedState :=
  match s.scanning cpuid with
  | none => s
  | some t => { s with scanning := Function.update s.scanning cpuid none }.timeoutTaskWake t e

end SchedState

end LiteOsKernel.Sched.Timeout
