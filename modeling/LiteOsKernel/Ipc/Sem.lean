import LiteOsKernel.Ipc.Wait
import Mathlib.Logic.Function.Basic

/-! Semaphores, after los_sem.c: the control blocks with their handles, and tasks that wait, are woken and run again. -/
namespace LiteOsKernel.Ipc.Sem

def LOSCFG_BASE_IPC_SEM_LIMIT : Nat := 1024
def OS_SEM_COUNT_MAX : Nat := 0xFFFE
def OS_SEM_BINARY_COUNT_MAX : Nat := 1
def SEM_SPLIT_BIT : Nat := 16

/-- LOS_OK and the codes LOS_ERRNO_SEM_xxx. -/
inductive SemRet where
  | ok
  | invalid
  | allBusy
  | unavailable
  | pendInterr
  | pendInLock
  | timeout
  | overflow
  | pended
  | pendInSystemTask
  deriving DecidableEq

def setSemId (count semID : Nat) : Nat := (count <<< SEM_SPLIT_BIT) % 2^32 ||| semID

def getSemIndex (semID : Nat) : Nat := semID &&& (1 <<< SEM_SPLIT_BIT) - 1

def getSemCount (semID : Nat) : Nat := semID >>> SEM_SPLIT_BIT

/-- semStat says OS_SEM_USED, and semList is the list of the waiting tasks. deletions is not in the source: it counts how
often the block was deleted, of which semID keeps the last 16 bits. -/
structure LosSemCB where
  semStat : Bool
  semCount : Nat
  maxSemCount : Nat
  semID : Nat
  semList : List Waiter
  deletions : Nat
  deriving DecidableEq

/-- A task that left the list of a semaphore and has not run since, with its OS_TASK_STATUS_TIMEOUT. -/
structure Resumed where
  task : Nat
  index : Nat
  deletions : Nat
  timeout : Bool
  deriving DecidableEq

structure SemState where
  allSem : Nat → LosSemCB
  unusedSemList : List Nat
  resumed : List Resumed

namespace SemState

def getSem (s : SemState) (semHandle : Nat) : LosSemCB := s.allSem (getSemIndex semHandle)

def set (s : SemState) (index : Nat) (sem : LosSemCB) : SemState := { s with allSem := Function.update s.allSem index sem }

@[simp] theorem set_self (s : SemState) (index : Nat) (sem : LosSemCB) : (s.set index sem).allSem index = sem :=
  Function.update_self ..

@[simp] theorem set_resumed (s : SemState) (index : Nat) (sem : LosSemCB) : (s.set index sem).resumed = s.resumed := rfl

@[simp] theorem set_unusedSemList (s : SemState) (index : Nat) (sem : LosSemCB) :
    (s.set index sem).unusedSemList = s.unusedSemList := rfl

theorem set_of_ne {j index : Nat} (h : j ≠ index) (s : SemState) (sem : LosSemCB) : (s.set index sem).allSem j = s.allSem j :=
  Function.update_of_ne h ..

/-- A task leaves the list of the semaphore, of which rest remains, and is made ready. -/
def leave (s : SemState) (index : Nat) (rest : List Waiter) (task : Nat) (timeout : Bool) : SemState :=
  let sem := s.allSem index
  { s.set index { sem with semList := rest } with resumed := s.resumed ++ [⟨task,index,sem.deletions,timeout⟩] }

@[simp] theorem leave_self (s : SemState) (index : Nat) (rest : List Waiter) (task : Nat) (timeout : Bool) :
    (s.leave index rest task timeout).allSem index = { s.allSem index with semList := rest } :=
  Function.update_self ..

theorem leave_of_ne {j index : Nat} (h : j ≠ index) (s : SemState) (rest : List Waiter) (task : Nat) (timeout : Bool) :
    (s.leave index rest task timeout).allSem j = s.allSem j :=
  Function.update_of_ne h ..

/-- The handle is that of a semaphore in use. -/
def Valid (s : SemState) (semHandle : Nat) : Prop :=
  getSemIndex semHandle < LOSCFG_BASE_IPC_SEM_LIMIT ∧ (s.getSem semHandle).semStat = true ∧ (s.getSem semHandle).semID = semHandle

instance (s : SemState) (semHandle : Nat) : Decidable (s.Valid semHandle) := inferInstanceAs (Decidable (_ ∧ _))

end SemState
open SemState

def osSemInit : SemState where
  allSem index := ⟨false,0,0,setSemId 0 index,[],0⟩
  unusedSemList := List.range' 0 LOSCFG_BASE_IPC_SEM_LIMIT
  resumed := []

/-- The handle is the second component of the result. -/
def osSemCreate (s : SemState) (count maxCount : Nat) : SemState × SemRet × Nat :=
  if maxCount < count then (s,.overflow,0)
  else match s.unusedSemList with
    | [] => (s,.allBusy,0)
    | index :: rest =>
      let sem := s.allSem index
      ({ s.set index { sem with semCount := count, semStat := true, maxSemCount := maxCount, semList := [] } with
        unusedSemList := rest },.ok,sem.semID)

def losSemCreate (s : SemState) (count : Nat) : SemState × SemRet × Nat := osSemCreate s count OS_SEM_COUNT_MAX

def losBinarySemCreate (s : SemState) (count : Nat) : SemState × SemRet × Nat := osSemCreate s count OS_SEM_BINARY_COUNT_MAX

def losSemDelete (s : SemState) (semHandle : Nat) : SemState × SemRet :=
  if LOSCFG_BASE_IPC_SEM_LIMIT ≤ getSemIndex semHandle then (s,.invalid)
  else
    let sem := s.getSem semHandle
    if sem.semStat = false ∨ sem.semID ≠ semHandle then (s,.invalid)
    else if sem.semList ≠ [] then (s,.pended)
    else
      let index := getSemIndex semHandle
      ({ s.set index { sem with
          semStat := false
          semID := setSemId (getSemCount sem.semID + 1) (getSemIndex sem.semID)
          deletions := sem.deletions + 1 } with
        unusedSemList := s.unusedSemList ++ [index] },.ok)

/-- none: the task waits, in ops->wait. -/
def losSemPend (s : SemState) (ctx : PendContext) (task semHandle timeout : Nat) : SemState × Option SemRet :=
  if LOSCFG_BASE_IPC_SEM_LIMIT ≤ getSemIndex semHandle then (s,some .invalid)
  else if ctx.intActive then (s,some .pendInterr)
  else if ctx.systemTask then (s,some .pendInSystemTask)
  else
    let sem := s.getSem semHandle
    if sem.semStat = false ∨ sem.semID ≠ semHandle then (s,some .invalid)
    else if 0 < sem.semCount then (s.set (getSemIndex semHandle) { sem with semCount := sem.semCount - 1 },some .ok)
    else if timeout = 0 then (s,some .unavailable)
    else if ctx.preemptable = false then (s,some .pendInLock)
    else (s.set (getSemIndex semHandle) { sem with semList := sem.semList ++ [⟨task,timeout⟩] },none)

def osSemPostUnsafe (s : SemState) (semHandle : Nat) : SemState × SemRet :=
  let sem := s.getSem semHandle
  if sem.semID ≠ semHandle ∨ sem.semStat = false then (s,.invalid)
  else if sem.semCount = sem.maxSemCount then (s,.overflow)
  else match sem.semList with
    | resumedTask :: rest => (s.leave (getSemIndex semHandle) rest resumedTask.task false,.ok)
    | [] => (s.set (getSemIndex semHandle) { sem with semCount := sem.semCount + 1 },.ok)

def losSemPost (s : SemState) (semHandle : Nat) : SemState × SemRet :=
  if LOSCFG_BASE_IPC_SEM_LIMIT ≤ getSemIndex semHandle then (s,.invalid) else osSemPostUnsafe s semHandle

/-- SchedTimeoutTaskWake for a task that waits on the semaphore at index. -/
def semTimeout (s : SemState) (index : Nat) (w : Waiter) (ops : SchedOps) : SemState :=
  s.leave index ((s.allSem index).semList.erase w) w.task ops.timeoutBit

/-- A resumed task runs: LOS_SemPend returns to it. -/
def semReturn (s : SemState) (r : Resumed) : SemState × SemRet :=
  ({ s with resumed := s.resumed.erase r },if r.timeout then .timeout else .ok)

end LiteOsKernel.Ipc.Sem
