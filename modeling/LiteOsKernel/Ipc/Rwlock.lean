import LiteOsKernel.Ipc.Wait
import Mathlib.Data.List.Perm.Basic
import Mathlib.Tactic.SplitIfs

/-! Reader-writer locks, after los_rwlock.c. -/
namespace LiteOsKernel.Ipc.Rwlock

def INT8_MAX : Int := 127
def INT8_MIN : Int := -128

/-- LOS_OK and the codes the lock functions return. -/
inductive RwRet where
  | ok
  | eperm
  | eintr
  | ebadf
  | ebusy
  | einval
  | edeadlk
  | etimedout
  deriving DecidableEq

/-- magic says that the lock is initialised. rwCount has 8 bits: positive in read mode, negative in write mode. -/
structure LosRwlock where
  magic : Bool
  rwCount : Int
  writeOwner : Option Nat
  readList : List Waiter
  writeList : List Waiter
  deriving DecidableEq

def losRwlockInit : LosRwlock := ⟨true,0,none,[],[]⟩

/-- cmp is OsSchedParamCompare on the tasks as they are at the call. -/
abbrev Compare := Nat → Nat → Int

def osRwlockCheck (ctx : PendContext) : RwRet :=
  if ctx.intActive then .eintr else if ctx.systemTask then .eperm else .ok

/-- The task comes before the first of the list, or the list is empty. -/
def osRwlockPriCompare (cmp : Compare) (runTask : Nat) (rwList : List Waiter) : Bool :=
  match rwList with
  | [] => true
  | highestTask :: _ => cmp runTask highestTask.task < 0

/-- SchedLockPendFindPosSub, with the insertion in front of the place it returns. -/
def insertSub (cmp : Compare) (w : Waiter) : List Waiter → List Waiter
  | [] => [w]
  | pendedTask :: rest =>
    if cmp pendedTask.task w.task < 0 then pendedTask :: insertSub cmp w rest
    else if 0 < cmp pendedTask.task w.task then w :: pendedTask :: rest
    else pendedTask :: w :: rest

/-- The waiter joins the list where OsSchedLockPendFindPos finds its place. -/
def lockPend (cmp : Compare) (w : Waiter) (lockList : List Waiter) : List Waiter :=
  match lockList, lockList.getLast? with
  | first :: _, some last =>
    if 0 < cmp first.task w.task then w :: lockList
    else if cmp last.task w.task ≤ 0 then lockList ++ [w]
    else insertSub cmp w lockList
  | _, _ => [w]

private theorem insertSub_perm (cmp : Compare) (w : Waiter) : ∀ l, (insertSub cmp w l).Perm (w :: l)
  | [] => List.Perm.refl _
  | a :: l => by
    rw [insertSub]
    split_ifs
    · exact ((insertSub_perm cmp w l).cons a).trans (List.Perm.swap w a l)
    · exact List.Perm.refl _
    · exact List.Perm.swap w a l

theorem lockPend_perm (cmp : Compare) (w : Waiter) (l : List Waiter) : (lockPend cmp w l).Perm (w :: l) := by
  cases l with
  | nil => exact List.Perm.refl _
  | cons a l =>
    unfold lockPend
    simp only [List.getLast?_cons]
    split_ifs
    · exact List.Perm.refl _
    · exact List.perm_append_singleton w (a :: l)
    · exact insertSub_perm cmp w (a :: l)

/-- none: the task waits in readList. -/
def osRwlockRdPendOp (cmp : Compare) (rwlock : LosRwlock) (preemptable : Bool) (runTask timeout : Nat) : LosRwlock × Option RwRet :=
  if 0 ≤ rwlock.rwCount ∧ osRwlockPriCompare cmp runTask rwlock.writeList then
    if rwlock.rwCount = INT8_MAX then (rwlock,some .einval)
    else ({ rwlock with rwCount := rwlock.rwCount + 1 },some .ok)
  else if timeout = 0 then (rwlock,some .einval)
  else if preemptable = false then (rwlock,some .edeadlk)
  else if rwlock.writeOwner = some runTask then (rwlock,some .einval)
  else ({ rwlock with readList := lockPend cmp ⟨runTask,timeout⟩ rwlock.readList },none)

/-- none: the task waits in writeList. -/
def osRwlockWrPendOp (cmp : Compare) (rwlock : LosRwlock) (preemptable : Bool) (runTask timeout : Nat) : LosRwlock × Option RwRet :=
  if rwlock.rwCount = 0 then ({ rwlock with rwCount := -1, writeOwner := some runTask },some .ok)
  else if rwlock.rwCount < 0 ∧ rwlock.writeOwner = some runTask then
    if rwlock.rwCount = INT8_MIN then (rwlock,some .einval)
    else ({ rwlock with rwCount := rwlock.rwCount - 1 },some .ok)
  else if timeout = 0 then (rwlock,some .einval)
  else if preemptable = false then (rwlock,some .edeadlk)
  else ({ rwlock with writeList := lockPend cmp ⟨runTask,timeout⟩ rwlock.writeList },none)

def losRwlockRdLock (cmp : Compare) (rwlock : LosRwlock) (ctx : PendContext) (runTask timeout : Nat) : LosRwlock × Option RwRet :=
  if osRwlockCheck ctx ≠ .ok then (rwlock,some (osRwlockCheck ctx))
  else if rwlock.magic = false then (rwlock,some .ebadf)
  else osRwlockRdPendOp cmp rwlock ctx.preemptable runTask timeout

def losRwlockTryRdLock (cmp : Compare) (rwlock : LosRwlock) (ctx : PendContext) (runTask : Nat) : LosRwlock × Option RwRet :=
  if osRwlockCheck ctx ≠ .ok then (rwlock,some (osRwlockCheck ctx))
  else if rwlock.magic = false then (rwlock,some .ebadf)
  else if rwlock.writeOwner = some runTask then (rwlock,some .einval)
  else if 0 ≤ rwlock.rwCount ∧ osRwlockPriCompare cmp runTask rwlock.writeList = false then (rwlock,some .ebusy)
  else if rwlock.rwCount < 0 then (rwlock,some .ebusy)
  else osRwlockRdPendOp cmp rwlock ctx.preemptable runTask 0

def losRwlockWrLock (cmp : Compare) (rwlock : LosRwlock) (ctx : PendContext) (runTask timeout : Nat) : LosRwlock × Option RwRet :=
  if osRwlockCheck ctx ≠ .ok then (rwlock,some (osRwlockCheck ctx))
  else if rwlock.magic = false then (rwlock,some .ebadf)
  else osRwlockWrPendOp cmp rwlock ctx.preemptable runTask timeout

def losRwlockTryWrLock (cmp : Compare) (rwlock : LosRwlock) (ctx : PendContext) (runTask : Nat) : LosRwlock × Option RwRet :=
  if osRwlockCheck ctx ≠ .ok then (rwlock,some (osRwlockCheck ctx))
  else if rwlock.magic = false then (rwlock,some .ebadf)
  else if 0 < rwlock.rwCount then (rwlock,some .ebusy)
  else if rwlock.rwCount < 0 ∧ rwlock.writeOwner ≠ some runTask then (rwlock,some .ebusy)
  else osRwlockWrPendOp cmp rwlock ctx.preemptable runTask 0

inductive Mode where
  | none
  | read
  | write
  | writeFirst
  | readFirst
  deriving DecidableEq

def osRwlockGetMode (cmp : Compare) (readList writeList : List Waiter) : Mode :=
  match readList, writeList with
  | [], [] => .none
  | _ :: _, [] => .read
  | [], _ :: _ => .write
  | pendedReadTask :: _, pendedWriteTask :: _ =>
    if cmp pendedWriteTask.task pendedReadTask.task ≤ 0 then .writeFirst else .readFirst

/-- The loop of OsRwlockPostOp over the readers: the count, the readers that still wait, those that are woken, and the code. -/
def wakeReaders (stop : Nat → Bool) : Int → List Waiter → Int × List Waiter × List Nat × RwRet
  | rwCount, [] => (rwCount,[],[],.ok)
  | rwCount, resumedTask :: rest =>
    if stop resumedTask.task then (rwCount,resumedTask :: rest,[],.ok)
    else if rwCount = INT8_MAX then (rwCount,resumedTask :: rest,[],.einval)
    else
      let (c,l,woken,ret) := wakeReaders stop (rwCount + 1) rest
      (c,l,resumedTask.task :: woken,ret)

/-- A reader that does not come before the first writer stops the loop when the readers go first. -/
def stopAt (cmp : Compare) (mode : Mode) (writeList : List Waiter) (resumedTask : Nat) : Bool :=
  match mode, writeList with
  | .readFirst, pendedWriteTask :: _ => 0 ≤ cmp resumedTask pendedWriteTask.task
  | _, _ => false

/-- The lock, the tasks that are woken with it, and the code. -/
def osRwlockPostOp (cmp : Compare) (rwlock : LosRwlock) : LosRwlock × List Nat × RwRet :=
  let rwlock := { rwlock with rwCount := 0, writeOwner := none }
  let mode := osRwlockGetMode cmp rwlock.readList rwlock.writeList
  match mode, rwlock.readList, rwlock.writeList with
  | .write, _, resumedTask :: rest | .writeFirst, _, resumedTask :: rest =>
    ({ rwlock with rwCount := -1, writeOwner := some resumedTask.task, writeList := rest },[resumedTask.task],.ok)
  | .read, resumedTask :: rest, _ | .readFirst, resumedTask :: rest, _ =>
    let (c,l,woken,ret) := wakeReaders (stopAt cmp mode rwlock.writeList) 1 rest
    ({ rwlock with rwCount := c, readList := l },resumedTask.task :: woken,ret)
  | _, _, _ => (rwlock,[],.ok)

/-- OsRwlockUnlockUnsafe after the check of LOS_RwlockUnLock. -/
def losRwlockUnLock (cmp : Compare) (rwlock : LosRwlock) (ctx : PendContext) (runTask : Nat) : LosRwlock × List Nat × RwRet :=
  if osRwlockCheck ctx ≠ .ok then (rwlock,[],osRwlockCheck ctx)
  else if rwlock.magic = false then (rwlock,[],.ebadf)
  else if rwlock.rwCount = 0 then (rwlock,[],.eperm)
  else if rwlock.rwCount < 0 ∧ rwlock.writeOwner ≠ some runTask then (rwlock,[],.eperm)
  else if 1 < rwlock.rwCount then ({ rwlock with rwCount := rwlock.rwCount - 1 },[],.ok)
  else if rwlock.rwCount < -1 then ({ rwlock with rwCount := rwlock.rwCount + 1 },[],.ok)
  else osRwlockPostOp cmp rwlock

end LiteOsKernel.Ipc.Rwlock
