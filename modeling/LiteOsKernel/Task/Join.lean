import Mathlib.Data.List.Basic

/-! Joining, detaching and deleting a task, after los_task.c: the sections under the scheduler lock on the control block that belongs
to one task ID. The exit of a whole process, which joins its tasks by itself, is left out, and so are the resources of a task that
have no part in a join: stack, mutexes, futex, time statistics. -/
namespace LiteOsKernel.Task

def LOS_OK : Nat := 0
def LOS_EPERM : Nat := 1
def LOS_ESRCH : Nat := 3
def LOS_EINTR : Nat := 4
def LOS_EINVAL : Nat := 22
def LOS_EDEADLK : Nat := 35

/-- The bits of taskStatus that are read here, the process, the tasks in joinList and the value for them. -/
structure LosTaskCB where
  unused : Bool
  init : Bool
  exit : Bool
  pthreadJoin : Bool
  systemTask : Bool
  noDelete : Bool
  processCB : Nat
  joinList : List Nat
  joinRetval : Nat

/-- What TaskCBBaseInit and OsProcessAddNewTask write into a free control block. -/
def taskCBInit (taskCB : LosTaskCB) (joinable systemTask noDelete : Bool) (processCB : Nat) : LosTaskCB :=
  { taskCB with
    unused := false, init := true, exit := false, pthreadJoin := joinable, systemTask := systemTask, noDelete := noDelete
    processCB := processCB, joinList := [] }

/-- OsInsertTCBToFreeList; defaultProcess is OsGetDefaultProcessCB(). -/
def osInsertTCBToFreeList (defaultProcess : Nat) : LosTaskCB :=
  ⟨true,false,false,false,false,false,defaultProcess,[],0⟩

/-- The control block after OsTaskJoinPostUnsafe, and the task that is woken. -/
def osTaskJoinPostUnsafe (taskCB : LosTaskCB) : LosTaskCB × Option Nat :=
  match taskCB.pthreadJoin, taskCB.joinList with
  | true, resumedTask :: joinList => ({ taskCB with joinList := joinList, exit := true },some resumedTask)
  | _, _ => ({ taskCB with exit := true },none)

/-- none: the task waits in joinList. -/
def osTaskJoinPendUnsafe (taskCB : LosTaskCB) (runTask : Nat) : LosTaskCB × Option Nat :=
  if taskCB.init then (taskCB,some LOS_EINVAL)
  else if taskCB.exit then (taskCB,some LOS_OK)
  else if taskCB.pthreadJoin = true ∧ taskCB.joinList = [] then ({ taskCB with joinList := [runTask] },none)
  else (taskCB,some LOS_EINVAL)

def osTaskSetDetachUnsafe (taskCB : LosTaskCB) : LosTaskCB × Nat :=
  if taskCB.pthreadJoin then
    if taskCB.joinList = [] then ({ taskCB with pthreadJoin := false },LOS_OK) else (taskCB,LOS_ESRCH)
  else (taskCB,LOS_EINVAL)

def osTaskIsNotDelete (taskCB : LosTaskCB) : Bool := taskCB.unused || taskCB.systemTask || taskCB.noDelete

/-- OsInactiveTaskDelete, and the end of a task that is the last of its process: what waits is woken, and the control block is not
used any more. -/
def osInactiveTaskDelete (taskCB : LosTaskCB) : LosTaskCB × Option Nat :=
  let (taskCB,resumedTask) := osTaskJoinPostUnsafe taskCB
  ({ taskCB with unused := true },resumedTask)

/-- OsRunningTaskToExit; last says that the task is the last of its process. -/
def osRunningTaskToExit (taskCB : LosTaskCB) (last : Bool) : LosTaskCB × Option Nat :=
  if last then osInactiveTaskDelete taskCB
  else if taskCB.pthreadJoin then osTaskJoinPostUnsafe taskCB
  else osInactiveTaskDelete taskCB

/-- OsTaskEntry, when the entry function returns. -/
def osTaskEntryReturn (taskCB : LosTaskCB) (retval : Nat) : LosTaskCB :=
  { taskCB with joinRetval := if taskCB.pthreadJoin then retval else 0 }

/-- OsTaskJoinCheck; valid says that the ID is one of a control block, and current that it is that of the caller. -/
def osTaskJoinCheck (taskCB : LosTaskCB) (valid intActive preemptable current : Bool) : Nat :=
  if valid = false then LOS_EINVAL
  else if intActive then LOS_EINTR
  else if preemptable = false then LOS_EINVAL
  else if taskCB.systemTask then LOS_EPERM
  else if current then LOS_EDEADLK
  else LOS_OK

/-- The first section of LOS_TaskJoin; none: the task waits. -/
def taskJoinPend (taskCB : LosTaskCB) (runTask runProcess : Nat) : LosTaskCB × Option Nat :=
  if taskCB.unused then (taskCB,some LOS_EINVAL)
  else if runProcess ≠ taskCB.processCB then (taskCB,some LOS_EPERM)
  else osTaskJoinPendUnsafe taskCB runTask

/-- The section of LOS_TaskDetach; none: it goes on to LOS_TaskJoin. -/
def taskDetachSet (taskCB : LosTaskCB) (runProcess : Nat) : LosTaskCB × Option Nat :=
  if taskCB.unused then (taskCB,some LOS_EINVAL)
  else if runProcess ≠ taskCB.processCB then (taskCB,some LOS_EPERM)
  else if taskCB.exit then (taskCB,none)
  else ((osTaskSetDetachUnsafe taskCB).1,some (osTaskSetDetachUnsafe taskCB).2)

/-- What the section of LOS_TaskDelete does to a task other than the caller: it refuses, kills a task that runs on another core,
or deletes it and wakes the task that waits for it. -/
inductive DeleteResult where
  | refused
  | killed
  | deleted (taskCB : LosTaskCB) (resumedTask : Option Nat)

def taskDelete (taskCB : LosTaskCB) (running : Bool) : DeleteResult :=
  if osTaskIsNotDelete taskCB then .refused
  else if running then .killed
  else .deleted (osInactiveTaskDelete taskCB).1 (osInactiveTaskDelete taskCB).2

end LiteOsKernel.Task
