import LiteOsKernel.Common

/-! Tasks that wait in the pend list of an IPC object, and how ops->wait returns to them. -/
namespace LiteOsKernel.Ipc

def LOS_WAIT_FOREVER : Nat := 0xFFFFFFFF

/-- The scheduling operations of a task: those of los_priority.c or those of los_deadline.c. -/
inductive SchedOps where
  | hpf
  | edf
  deriving DecidableEq, Inhabited

/-- OS_TASK_STATUS_TIMEOUT as a timed-out task finds it when it runs. SchedTimeoutTaskWake sets the bit and enqueues the
task; HPFEnqueue keeps it, while EDFEnqueue clears it when it makes the task ready. -/
def SchedOps.timeoutBit : SchedOps → Bool
  | hpf => true
  | edf => false

/-- A task in a pend list, with the ticks it waits at most. -/
structure Waiter where
  task : Nat
  ticks : Nat
  deriving DecidableEq

/-- Where a task waits when it is called: an interrupt, a system task or a locked scheduler must not wait. -/
structure PendContext where
  intActive : Bool
  systemTask : Bool
  preemptable : Bool
  deriving DecidableEq

end LiteOsKernel.Ipc
