import LiteOsKernel.Sched.Timeout
import LiteOsKernel.Lib.BitScan

/-! The run queue of the priority scheduler, after los_priority.c and HPFRunqueueTopTaskGet. The timeout queues and the pend lists
are those of the module on timeouts and left out here. -/
namespace LiteOsKernel.Sched.Priority
open LiteOsKernel.Sched.Timeout (TaskStatus)

def PRIQUEUE_PRIOR0_BIT : Nat := 0x80000000
def OS_SCHED_FIFO_TIMEOUT : Int := 0x7FFFFFFF
def OS_SCHED_READY_MAX : Nat := 30

/-- LOS_SCHED_RR and LOS_SCHED_FIFO. -/
inductive HpfPolicy where
  | rr
  | fifo
  deriving DecidableEq, Inhabited

structure SchedHPF where
  policy : HpfPolicy
  basePrio : Nat
  priority : Nat
  initTimeSlice : Int
  priBitmap : Nat
  deriving DecidableEq, Inhabited

/-- policy is none where it is neither LOS_SCHED_RR nor LOS_SCHED_FIFO. -/
structure SchedParam where
  policy : Option HpfPolicy
  basePrio : Nat
  priority : Nat
  deriving DecidableEq

structure LosTaskCB where
  taskStatus : TaskStatus
  sp : SchedHPF
  timeSlice : Int
  cpuAffiMask : Nat
  processCB : Nat
  deriving DecidableEq, Inhabited

structure HPFQueue where
  priQueList : Nat → List Nat
  readyTasks : Nat → Nat
  queueBitmap : Nat

structure HPFRunqueue where
  queueList : Nat → HPFQueue
  queueBitmap : Nat

/-- The lengths that depend on the board: OS_TIME_SLICE_MIN, OS_SCHED_TIME_SLICES_MIN and OS_SCHED_TIME_SLICES_DIFF. -/
structure TimeSlices where
  sliceMin : Int
  slicesMin : Nat
  slicesDiff : Nat

/-- The tasks of the priority scheduler, their run queue, and the threadSiblingList of each process. -/
structure HpfSched where
  slices : TimeSlices
  tcb : Nat → LosTaskCB
  rq : HPFRunqueue
  threadSiblingList : Nat → List Nat

/-- What PriQueHeadInsert and PriQueTailInsert share. -/
def priQueInsertAt (insert : List Nat → Nat → List Nat) (rq : HPFRunqueue) (basePrio priQue priority : Nat) : HPFRunqueue :=
  let queueList := rq.queueList basePrio
  let bitmap := if queueList.priQueList priority = [] then queueList.queueBitmap ||| PRIQUEUE_PRIOR0_BIT >>> priority
    else queueList.queueBitmap
  let queueList' : HPFQueue := {
    priQueList := Function.update queueList.priQueList priority (insert (queueList.priQueList priority) priQue)
    readyTasks := Function.update queueList.readyTasks priority (queueList.readyTasks priority + 1)
    queueBitmap := bitmap }
  { queueList := Function.update rq.queueList basePrio queueList'
    queueBitmap := if queueList.queueBitmap = 0 then rq.queueBitmap ||| PRIQUEUE_PRIOR0_BIT >>> basePrio else rq.queueBitmap }

def priQueHeadInsert := priQueInsertAt fun priQueList priQue => priQue :: priQueList

def priQueTailInsert := priQueInsertAt fun priQueList priQue => priQueList ++ [priQue]

/-- LOS_ListDelete takes the task off the list that it is on, whichever that is; readyTasks is a UINT32. -/
def priQueDelete (rq : HPFRunqueue) (basePrio priQue priority : Nat) : HPFRunqueue :=
  let lists := fun b => { rq.queueList b with priQueList := fun p => ((rq.queueList b).priQueList p).erase priQue }
  let queueList := lists basePrio
  let bitmap := if queueList.priQueList priority = [] then queueList.queueBitmap &&& Word.not (PRIQUEUE_PRIOR0_BIT >>> priority)
    else queueList.queueBitmap
  let readyTasks := queueList.readyTasks priority
  let queueList' := { queueList with
    readyTasks := Function.update queueList.readyTasks priority (if readyTasks = 0 then 2 ^ 32 - 1 else readyTasks - 1)
    queueBitmap := bitmap }
  { queueList := Function.update lists basePrio queueList'
    queueBitmap := if bitmap = 0 then rq.queueBitmap &&& Word.not (PRIQUEUE_PRIOR0_BIT >>> basePrio) else rq.queueBitmap }

/-- allowed says that the task may run on the CPU: cpuAffiMask and, with LOSCFG_KERNEL_SCHED_PLIMIT, OsSchedLimitCheckTime. -/
def hpfRunqueueTopTaskGet (rq : HPFRunqueue) (allowed : Nat → Bool) : Option Nat :=
  BitScan.scan (fun basePrio =>
    let queueList := rq.queueList basePrio
    BitScan.scan (fun priority => (queueList.priQueList priority).find? allowed) 32 queueList.queueBitmap) 32 rq.queueBitmap

namespace HpfSched

def setTcb (s : HpfSched) (t : Nat) (cb : LosTaskCB) : HpfSched := { s with tcb := Function.update s.tcb t cb }

def setStatus (s : HpfSched) (t : Nat) (st : TaskStatus) : HpfSched := s.setTcb t { s.tcb t with taskStatus := st }

def setPriority (s : HpfSched) (t priority priBitmap : Nat) : HpfSched :=
  s.setTcb t { s.tcb t with sp := { (s.tcb t).sp with priority := priority, priBitmap := priBitmap } }

def timeSliceCalculate (s : HpfSched) (basePrio priority : Nat) : Int :=
  let readyTasks := (s.rq.queueList basePrio).readyTasks priority
  if OS_SCHED_READY_MAX < readyTasks then s.slices.slicesMin
  else ((OS_SCHED_READY_MAX - readyTasks) * s.slices.slicesDiff / OS_SCHED_READY_MAX + s.slices.slicesMin : Nat)

def priQueInsert (s : HpfSched) (t : Nat) : HpfSched :=
  let cb := s.tcb t
  let sched := cb.sp
  let st := { cb.taskStatus.clearBlocked with ready := true }
  match sched.policy with
  | .rr =>
    if s.slices.sliceMin < cb.timeSlice then
      { s.setStatus t st with rq := priQueHeadInsert s.rq sched.basePrio t sched.priority }
    else
      let timeSlice := s.timeSliceCalculate sched.basePrio sched.priority
      { s.setTcb t { cb with taskStatus := st, sp := { sched with initTimeSlice := timeSlice }, timeSlice := timeSlice } with
        rq := priQueTailInsert s.rq sched.basePrio t sched.priority }
  | .fifo =>
    if s.slices.sliceMin < cb.timeSlice ∧ cb.taskStatus.running then
      { s.setStatus t st with rq := priQueHeadInsert s.rq sched.basePrio t sched.priority }
    else
      let timeSlice := OS_SCHED_FIFO_TIMEOUT
      { s.setTcb t { cb with taskStatus := st, sp := { sched with initTimeSlice := timeSlice }, timeSlice := timeSlice } with
        rq := priQueTailInsert s.rq sched.basePrio t sched.priority }

def hpfEnqueue (s : HpfSched) (t : Nat) : HpfSched := s.priQueInsert t

def hpfDequeue (s : HpfSched) (t : Nat) : HpfSched :=
  let sched := (s.tcb t).sp
  if (s.tcb t).taskStatus.ready then
    { s.setStatus t { (s.tcb t).taskStatus with ready := false } with rq := priQueDelete s.rq sched.basePrio t sched.priority }
  else s

/-- TaskCBInit and HPFTaskSchedParamInit of a control block that is unused. -/
def hpfTaskSchedParamInit (s : HpfSched) (t : Nat) (policy : HpfPolicy) (basePrio priority cpuAffiMask processCB : Nat) : HpfSched :=
  s.setTcb t {
    taskStatus := ⟨true,false,false,false,false,false,false,false,false,false⟩
    sp := { policy := policy, basePrio := basePrio, priority := priority, initTimeSlice := 0, priBitmap := 0 }
    timeSlice := 0
    cpuAffiMask := cpuAffiMask
    processCB := processCB }

/-- The task that is chosen for a CPU starts to run. -/
def hpfStartToRun (s : HpfSched) (t : Nat) : HpfSched :=
  let s := s.hpfDequeue t
  s.setStatus t { (s.tcb t).taskStatus with running := true }

/-- The part of SchedTaskSwitch that is about the task that stops. -/
def taskSwitch (s : HpfSched) (t : Nat) : HpfSched := s.setStatus t { (s.tcb t).taskStatus with running := false }

/-- HPFTimeSliceUpdate, and then another task gets the CPU. -/
def preempt (s : HpfSched) (t : Nat) (timeSlice : Int) : HpfSched :=
  ((s.setTcb t { s.tcb t with timeSlice := timeSlice }).hpfEnqueue t).taskSwitch t

def hpfYield (s : HpfSched) (t : Nat) : HpfSched := s.preempt t 0

def hpfDelay (s : HpfSched) (t : Nat) : HpfSched := (s.setStatus t { (s.tcb t).taskStatus with delay := true }).taskSwitch t

/-- forever says that ticks is LOS_WAIT_FOREVER. -/
def hpfWait (s : HpfSched) (t : Nat) (forever : Bool) : HpfSched :=
  let st := (s.tcb t).taskStatus
  (s.setStatus t { st with pending := true, pendTime := st.pendTime || !forever }).taskSwitch t

def hpfWake (s : HpfSched) (t : Nat) : HpfSched :=
  let s := s.setStatus t { (s.tcb t).taskStatus with pending := false, pendTime := false }
  if (s.tcb t).taskStatus.suspended then s else s.hpfEnqueue t

def timeoutTaskWake (s : HpfSched) (t : Nat) : HpfSched :=
  let st := (s.tcb t).taskStatus
  if st.pendTime ∨ st.delay then
    let s := s.setStatus t { st with pending := false, pendTime := false, delay := false, timeout := st.timeout || st.pendTime }
    if st.suspended then s else s.hpfEnqueue t
  else s

/-- HPFExit, after which the control block is unused. -/
def hpfExit (s : HpfSched) (t : Nat) : HpfSched :=
  let s := if (s.tcb t).taskStatus.ready then s.hpfDequeue t
    else s.setStatus t { (s.tcb t).taskStatus with pending := false }
  s.setStatus t { (s.tcb t).taskStatus with delay := false, pendTime := false, running := false, unused := true }

/-- freeze says that SchedTaskFreeze sets OS_TASK_STATUS_FROZEN. -/
def hpfSuspend (s : HpfSched) (t : Nat) (freeze : Bool) : HpfSched :=
  let s := if (s.tcb t).taskStatus.ready then s.hpfDequeue t else s
  let st := (s.tcb t).taskStatus
  let frozen := st.frozen || (freeze && (st.pendTime || st.delay))
  (s.setStatus t { st with frozen := frozen, suspended := true }).taskSwitch t

/-- expired says that SchedTaskUnfreeze finds the response time of a frozen task in the past. -/
def hpfResume (s : HpfSched) (t : Nat) (expired : Bool) : HpfSched :=
  let st := (s.tcb t).taskStatus
  let st : TaskStatus := if st.frozen && expired then { st.clearBlocked with frozen := false } else { st with frozen := false }
  let s := s.setStatus t { st with suspended := false }
  if st.pending ∨ st.delay then s else s.hpfEnqueue t

/-- The threads of the process of a task, one after the other. -/
def basePriorityModify (s : HpfSched) (t priority : Nat) : HpfSched :=
  (s.threadSiblingList (s.tcb t).processCB).foldl (fun s u =>
    if (s.tcb u).taskStatus.ready then
      let s := s.hpfDequeue u
      (s.setTcb u { s.tcb u with sp := { (s.tcb u).sp with basePrio := priority } }).hpfEnqueue u
    else s.setTcb u { s.tcb u with sp := { (s.tcb u).sp with basePrio := priority } }) s

/-- The policy of a priority task is changed to a policy of this scheduler. -/
def hpfSchedParamModify (s : HpfSched) (t : Nat) (policy : HpfPolicy) (basePrio priority : Nat) : HpfSched :=
  let s := if (s.tcb t).sp.policy ≠ policy then
      s.setTcb t { s.tcb t with sp := { (s.tcb t).sp with policy := policy }, timeSlice := 0 }
    else s
  let s := if (s.tcb t).sp.basePrio ≠ basePrio then s.basePriorityModify t basePrio else s
  if (s.tcb t).taskStatus.ready then
    let s := s.hpfDequeue t
    (s.setPriority t priority (s.tcb t).sp.priBitmap).hpfEnqueue t
  else
    let s := s.setPriority t priority (s.tcb t).sp.priBitmap
    if (s.tcb t).taskStatus.init then s.hpfEnqueue t else s

end HpfSched

/-- HPFPriorityInheritance, on the parameters of the owner. -/
def hpfPriorityInheritance (sp : SchedHPF) (param : SchedParam) : SchedHPF :=
  if param.policy = none then sp
  else if sp.priority ≤ param.priority then sp
  else { sp with priority := param.priority, priBitmap := Word.setBit sp.priBitmap sp.priority }

/-- LOS_HighBitGet; the index of no bit is LOS_INVALID_BIT_INDEX. -/
def losHighBitGet (bitmap : Nat) : Nat := if bitmap = 0 then 32 else 31 - Word.clz bitmap

def losLowBitGet (bitmap : Nat) : Nat := Word.ctz bitmap

/-- The loop of HPFPriorityRestore over the tasks that wait: their levels are cleared, but for the highest one. -/
def restoreBitmap (priBitmap : Nat) (list : List SchedHPF) : Nat :=
  let priority := losHighBitGet priBitmap
  list.foldl (fun bitmap pendSp => if priority ≠ pendSp.priority then Word.clearBit bitmap pendSp.priority else bitmap) priBitmap

/-- HPFPriorityRestore, on the parameters of the owner. list has the parameters of the waiting tasks that are of this scheduler, and
is empty where the source passes NULL. -/
def hpfPriorityRestore (sp : SchedHPF) (list : List SchedHPF) (param : SchedParam) : SchedHPF :=
  if param.policy = none then sp
  else if sp.priority < param.priority then
    if losHighBitGet sp.priBitmap ≠ param.priority then { sp with priBitmap := Word.clearBit sp.priBitmap param.priority } else sp
  else if sp.priBitmap = 0 then sp
  else
    let priBitmap := restoreBitmap sp.priBitmap list
    let priority := losLowBitGet priBitmap
    if priority ≠ 32 then { sp with priority := priority, priBitmap := Word.clearBit priBitmap priority }
    else { sp with priBitmap := priBitmap }

namespace HpfSched

def priorityInheritance (s : HpfSched) (owner : Nat) (param : SchedParam) : HpfSched :=
  s.setTcb owner { s.tcb owner with sp := hpfPriorityInheritance (s.tcb owner).sp param }

def priorityRestore (s : HpfSched) (owner : Nat) (list : List Nat) (param : SchedParam) : HpfSched :=
  s.setTcb owner { s.tcb owner with sp := hpfPriorityRestore (s.tcb owner).sp (list.map fun u => (s.tcb u).sp) param }

end HpfSched

end LiteOsKernel.Sched.Priority
