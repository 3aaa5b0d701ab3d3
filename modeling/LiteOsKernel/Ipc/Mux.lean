import LiteOsKernel.Ipc.Rwlock
import LiteOsKernel.Sched.Priority

/-! Mutexes, after los_mux.c, with the parameters of the tasks that own them or wait for them. -/
namespace LiteOsKernel.Ipc.Mux
open LiteOsKernel.Ipc.Rwlock (lockPend)
open LiteOsKernel.Sched.Priority (HpfPolicy SchedHPF SchedParam hpfPriorityInheritance hpfPriorityRestore)

def OS_TASK_PRIORITY_LOWEST : Nat := 31
def MUX_COUNT_MAX : Nat := 0xFFFF

/-- LOS_OK and the codes the mutex functions return. -/
inductive MuxRet where
  | ok
  | eperm
  | eintr
  | ebadf
  | ebusy
  | einval
  | edeadlk
  | etimedout
  deriving DecidableEq

inductive MuxProtocol where
  | none
  | inherit
  | protect
  deriving DecidableEq

inductive MuxType where
  | normal
  | recursive
  | errorcheck
  deriving DecidableEq

structure LosMuxAttr where
  protocol : MuxProtocol
  prioceiling : Nat
  type : MuxType
  deriving DecidableEq

/-- magic says that the mutex is initialised. A muxList that no macro initialised yet is empty too. -/
structure LosMux where
  magic : Bool
  attr : LosMuxAttr
  muxList : List Waiter
  owner : Option Nat
  muxCount : Nat
  deriving DecidableEq

/-- sp is that of a priority task, and finishTime that of a deadline task. -/
structure LosTaskCB where
  ops : SchedOps
  sp : SchedHPF
  finishTime : Nat
  lockList : List Nat
  deriving DecidableEq

/-- A task that left the list of a mutex and has not run since, with its OS_TASK_STATUS_TIMEOUT. -/
structure Resumed where
  task : Nat
  mutex : Nat
  timeout : Bool
  deriving DecidableEq

structure MuxState where
  mux : Nat → LosMux
  tcb : Nat → LosTaskCB
  resumed : List Resumed

def osCheckMutexAttr (attr : LosMuxAttr) : Bool := attr.prioceiling ≤ OS_TASK_PRIORITY_LOWEST

/-- LOS_MuxInit, where magic stays unset if the attribute does not pass. -/
def losMuxInit (attr : LosMuxAttr) : LosMux := ⟨osCheckMutexAttr attr,attr,[],none,0⟩

/-- EDFParamCompare, of which 32 bits are returned. -/
def edfParamCompare (finishTime1 finishTime2 : Nat) : Int := Int.bmod ((finishTime1 : Int) - finishTime2) (2^32)

def hpfParamCompare (param1 param2 : SchedHPF) : Int :=
  if param1.basePrio ≠ param2.basePrio then (param1.basePrio : Int) - param2.basePrio else (param1.priority : Int) - param2.priority

/-- No idle task has a mutex. -/
def osSchedParamCompare (task1 task2 : LosTaskCB) : Int :=
  match task1.ops, task2.ops with
  | .hpf, .hpf => if task1.sp.policy = task2.sp.policy then hpfParamCompare task1.sp task2.sp else 0
  | .edf, .edf => edfParamCompare task1.finishTime task2.finishTime
  | _, _ => 0

/-- ops->schedParamGet, of which a deadline task sets no priority. -/
def LosTaskCB.schedParamGet (cb : LosTaskCB) : SchedParam :=
  match cb.ops with
  | .hpf => ⟨some cb.sp.policy,cb.sp.basePrio,cb.sp.priority⟩
  | .edf => ⟨none,0,0⟩

namespace MuxState

def setMux (s : MuxState) (m : Nat) (mutex : LosMux) : MuxState := { s with mux := Function.update s.mux m mutex }

def setTcb (s : MuxState) (t : Nat) (cb : LosTaskCB) : MuxState := { s with tcb := Function.update s.tcb t cb }

def cmp (s : MuxState) (task1 task2 : Nat) : Int := osSchedParamCompare (s.tcb task1) (s.tcb task2)

/-- owner->ops->priorityInheritance; nothing for a deadline task. -/
def priorityInheritance (s : MuxState) (owner : Nat) (param : SchedParam) : MuxState :=
  match (s.tcb owner).ops with
  | .hpf => s.setTcb owner { s.tcb owner with sp := hpfPriorityInheritance (s.tcb owner).sp param }
  | .edf => s

/-- owner->ops->priorityRestore; the tasks of list with the ops of the owner count. -/
def priorityRestore (s : MuxState) (owner : Nat) (list : List Waiter) (param : SchedParam) : MuxState :=
  match (s.tcb owner).ops with
  | .hpf =>
    let pended := (list.map fun w => s.tcb w.task).filter fun cb => cb.ops = .hpf
    s.setTcb owner { s.tcb owner with sp := hpfPriorityRestore (s.tcb owner).sp (pended.map LosTaskCB.sp) param }
  | .edf => s

/-- none: the owner is NULL, and is dereferenced. -/
def osMuxBitmapSet (s : MuxState) (m runTask : Nat) : Option MuxState :=
  if (s.mux m).attr.protocol ≠ .inherit then some s
  else
    (s.mux m).owner.map fun owner =>
      if 0 < s.cmp owner runTask then s.priorityInheritance owner (s.tcb runTask).schedParamGet else s

/-- none: the owner is NULL, and is dereferenced. list is empty where it is NULL. -/
def osMuxBitmapRestore (s : MuxState) (m : Nat) (list : List Waiter) (runTask : Nat) : Option MuxState :=
  if (s.mux m).attr.protocol ≠ .inherit then some s
  else (s.mux m).owner.map fun owner => s.priorityRestore owner list (s.tcb runTask).schedParamGet

/-- LOS_ListDelete takes the mutex off the lockList that it is on, whichever that is. -/
def holdListDelete (s : MuxState) (m : Nat) : MuxState :=
  { s with tcb := fun t => { s.tcb t with lockList := (s.tcb t).lockList.erase m } }

def holdListInsert (s : MuxState) (m runTask : Nat) : MuxState :=
  s.setTcb runTask { s.tcb runTask with lockList := (s.tcb runTask).lockList ++ [m] }

/-- A result of none: the task waits. -/
def osMuxPendOp (s : MuxState) (preemptable : Bool) (runTask m timeout : Nat) : Option (MuxState × Option MuxRet) :=
  let mutex := s.mux m
  if mutex.muxCount = 0 then
    let s := (s.setMux m { mutex with muxCount := 1, owner := some runTask }).holdListInsert m runTask
    let param := { (s.tcb runTask).schedParamGet with priority := mutex.attr.prioceiling }
    some (if mutex.attr.protocol = .protect then s.priorityInheritance runTask param else s,some .ok)
  else if mutex.owner = some runTask ∧ mutex.attr.type = .recursive then
    some (if mutex.muxCount < MUX_COUNT_MAX then s.setMux m { mutex with muxCount := mutex.muxCount + 1 } else s,some .ok)
  else if timeout = 0 then some (s,some .einval)
  else if preemptable = false then some (s,some .edeadlk)
  else (s.osMuxBitmapSet m runTask).map fun s =>
    (s.setMux m { s.mux m with muxList := lockPend s.cmp ⟨runTask,timeout⟩ (s.mux m).muxList },none)

def osMuxLockUnsafe (s : MuxState) (preemptable : Bool) (runTask m timeout : Nat) : Option (MuxState × Option MuxRet) :=
  let mutex := s.mux m
  if mutex.magic = false then some (s,some .ebadf)
  else if osCheckMutexAttr mutex.attr = false then some (s,some .einval)
  else if mutex.attr.type = .errorcheck ∧ mutex.owner = some runTask then some (s,some .edeadlk)
  else s.osMuxPendOp preemptable runTask m timeout

def osMuxTrylockUnsafe (s : MuxState) (preemptable : Bool) (runTask m timeout : Nat) : Option (MuxState × Option MuxRet) :=
  let mutex := s.mux m
  if mutex.magic = false then some (s,some .ebadf)
  else if osCheckMutexAttr mutex.attr = false then some (s,some .einval)
  else if mutex.owner ≠ none ∧ (mutex.owner ≠ some runTask ∨ mutex.attr.type ≠ .recursive) then some (s,some .ebusy)
  else s.osMuxPendOp preemptable runTask m timeout

def losMuxLock (s : MuxState) (ctx : PendContext) (runTask m timeout : Nat) : Option (MuxState × Option MuxRet) :=
  if ctx.intActive then some (s,some .eintr) else s.osMuxLockUnsafe ctx.preemptable runTask m timeout

def losMuxTrylock (s : MuxState) (ctx : PendContext) (runTask m : Nat) : Option (MuxState × Option MuxRet) :=
  if ctx.intActive then some (s,some .eintr) else s.osMuxTrylockUnsafe ctx.preemptable runTask m 0

def osMuxPostOp (s : MuxState) (m : Nat) : Option MuxState :=
  match (s.mux m).muxList with
  | [] => some ((s.holdListDelete m).setMux m { s.mux m with owner := none })
  | resumedTask :: rest =>
    (s.osMuxBitmapRestore m (s.mux m).muxList resumedTask.task).map fun s =>
      let s := s.setMux m { s.mux m with muxCount := 1, owner := some resumedTask.task, muxList := rest }
      let s := (s.holdListDelete m).holdListInsert m resumedTask.task
      { s with resumed := s.resumed ++ [⟨resumedTask.task,m,false⟩] }

def osMuxUnlockUnsafe (s : MuxState) (taskCB m : Nat) : Option (MuxState × MuxRet) :=
  let mutex := s.mux m
  if mutex.magic = false then some (s,.ebadf)
  else if osCheckMutexAttr mutex.attr = false then some (s,.einval)
  else if mutex.owner ≠ some taskCB then some (s,.eperm)
  else if mutex.muxCount = 0 then some (s,.eperm)
  else
    let s := s.setMux m { mutex with muxCount := mutex.muxCount - 1 }
    if mutex.muxCount - 1 ≠ 0 ∧ mutex.attr.type = .recursive then some (s,.ok)
    else
      let s := if mutex.attr.protocol = .protect then s.priorityRestore taskCB [] (s.tcb taskCB).schedParamGet else s
      (s.osMuxPostOp m).map fun s => (s,.ok)

def losMuxUnlock (s : MuxState) (ctx : PendContext) (runTask m : Nat) : Option (MuxState × MuxRet) :=
  if ctx.intActive then some (s,.eintr) else s.osMuxUnlockUnsafe runTask m

/-- SchedTimeoutTaskWake for a task that waits for the mutex. -/
def muxTimeout (s : MuxState) (m : Nat) (w : Waiter) : MuxState :=
  { s.setMux m { s.mux m with muxList := (s.mux m).muxList.erase w } with
    resumed := s.resumed ++ [⟨w.task,m,(s.tcb w.task).ops.timeoutBit⟩] }

/-- A resumed task runs: ops->wait returns to OsMuxPendOp. -/
def muxReturn (s : MuxState) (r : Resumed) : Option (MuxState × MuxRet) :=
  let s := { s with resumed := s.resumed.erase r }
  if r.timeout then (s.osMuxBitmapRestore r.mutex [] r.task).map fun s => (s,.etimedout) else some (s,.ok)

/-- HPFSchedParamModify: the priority of the process is that of all its threads. -/
def schedParamModify (s : MuxState) (t : Nat) (threads : List Nat) (policy : HpfPolicy) (basePrio priority : Nat) : MuxState :=
  { s with tcb := fun u =>
      let cb := s.tcb u
      if u = t then { cb with sp := { cb.sp with policy := policy, basePrio := basePrio, priority := priority } }
      else if u ∈ threads ∧ (s.tcb t).sp.basePrio ≠ basePrio then { cb with sp := { cb.sp with basePrio := basePrio } }
      else cb }

/-- A deadline task begins a new period. -/
def setFinishTime (s : MuxState) (t finishTime : Nat) : MuxState := s.setTcb t { s.tcb t with finishTime := finishTime }

end MuxState

end LiteOsKernel.Ipc.Mux
