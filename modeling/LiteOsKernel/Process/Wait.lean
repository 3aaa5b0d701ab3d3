import LiteOsKernel.Lib.Run
import Mathlib.Data.List.Basic
import Mathlib.Logic.Function.Basic

/-! The threads of a process that wait for its children, after los_process.c: OsWait, and the end of a child up to the wake-up
of its parent. What is copied to the user, containers and signals are left out. -/
namespace LiteOsKernel.Process

/-- A child, with the leader of its group, which stands for the group. -/
structure Child where
  processID : Nat
  pgroup : Nat
  deriving DecidableEq

/-- waitFlag with waitID. -/
inductive WaitFlag where
  | pro (processID : Nat)
  | gid (pgroup : Nat)
  | any
  deriving DecidableEq

structure Waiter where
  task : Nat
  waitFlag : WaitFlag
  deriving DecidableEq

/-- The group and the lists of a process, and the exited processes of each group, of which some have another parent. -/
structure WaitState where
  pgroup : Nat
  childrenList : List Child
  exitChildList : List Child
  exitProcessList : Nat → List Child
  waitList : List Waiter

/-- A waiter that is woken, with the child in its waitID, or none for OS_INVALID_VALUE. -/
structure Woken where
  waiter : Waiter
  waitID : Option Child
  deriving DecidableEq

/-- What OsWaitSetFlag comes to: LOS_ECHILD, a child that has exited, or what the thread waits for. -/
inductive WaitTarget where
  | echild
  | child (childCB : Child)
  | flag (waitFlag : WaitFlag)
  deriving DecidableEq

/-- What OsWait comes to, or that the thread is on the wait list. -/
inductive WaitResult where
  | echild
  | child (childCB : Child)
  | nohang
  | blocked
  deriving DecidableEq

namespace WaitFlag

def isPro : WaitFlag → Bool
  | pro _ => true
  | _ => false

def isAny : WaitFlag → Bool
  | any => true
  | _ => false

/-- The wait is for a group that is not that of the process. -/
def otherGroup (processCB : Child) : WaitFlag → Bool
  | gid pgroup => decide (pgroup ≠ processCB.pgroup)
  | _ => false

/-- The child is one of those that are waited for. -/
def Selects (childCB : Child) : WaitFlag → Prop
  | pro processID => childCB.processID = processID
  | gid pgroup => childCB.pgroup = pgroup
  | any => True

end WaitFlag

/-- OsWaitInsertWaitListInOrder. -/
def osWaitInsertWaitListInOrder (runTask : Waiter) (waitList : List Waiter) : List Waiter :=
  match runTask.waitFlag with
  | .pro _ => runTask :: waitList
  | .gid _ => waitList.takeWhile (·.waitFlag.isPro) ++ runTask :: waitList.dropWhile (·.waitFlag.isPro)
  | .any => waitList.takeWhile (! ·.waitFlag.isAny) ++ runTask :: waitList.dropWhile (! ·.waitFlag.isAny)

/-- OsWaitWakeSpecifiedProcess: the waiters that it passes, those that it wakes, and the list from anyList on; find says that it
has woken one already. -/
def osWaitWakeSpecifiedProcess (processCB : Child) : Bool → List Waiter → List Waiter × List Woken × List Waiter
  | _,[] => ([],[],[])
  | find,taskCB :: list =>
    if taskCB.waitFlag = .pro processCB.processID then
      let (passed,woken,anyList) := osWaitWakeSpecifiedProcess processCB true list
      (passed,⟨taskCB,if find then none else some processCB⟩ :: woken,anyList)
    else if taskCB.waitFlag.isPro = false then ([],[],taskCB :: list)
    else
      let (passed,woken,anyList) := osWaitWakeSpecifiedProcess processCB find list
      (taskCB :: passed,woken,anyList)

/-- The last loop of OsWaitCheckAndWakeParentProcess: the waiters that it leaves and those that it wakes; others says that there
are children left. -/
def wakeAnyList (processCB : Child) (others : Bool) : Bool → List Waiter → List Waiter × List Woken
  | _,[] => ([],[])
  | findSpecified,taskCB :: list =>
    if taskCB.waitFlag.otherGroup processCB then
      let (left,woken) := wakeAnyList processCB others findSpecified list
      (taskCB :: left,woken)
    else
      let waked := ⟨taskCB,if findSpecified then none else some processCB⟩
      if others then (list,[waked])
      else
        let (left,woken) := wakeAnyList processCB others true list
        (left,waked :: woken)

namespace WaitState

/-- OsWaitCheckAndWakeParentProcess: the wait list that it leaves and the waiters that it wakes. -/
def osWaitCheckAndWakeParentProcess (parentCB : WaitState) (processCB : Child) : WaitState × List Woken :=
  let (passed,woken,anyList) := osWaitWakeSpecifiedProcess processCB false parentCB.waitList
  let others := decide (parentCB.childrenList ≠ [])
  if woken ≠ [] then
    if passed ++ anyList = [] ∨ others = true then ({ parentCB with waitList := passed ++ anyList },woken)
    else ({ parentCB with waitList := passed },woken ++ anyList.map fun taskCB => ⟨taskCB,none⟩)
  else
    let (left,woken) := wakeAnyList processCB others false anyList
    ({ parentCB with waitList := passed ++ left },woken)

/-- OsProcessNaturalExit of a child, as far as its parent goes. -/
def osProcessNaturalExit (parentCB : WaitState) (processCB : Child) : WaitState × List Woken :=
  let parentCB := { parentCB with
    childrenList := parentCB.childrenList.erase processCB
    exitChildList := parentCB.exitChildList ++ [processCB]
    exitProcessList := Function.update parentCB.exitProcessList processCB.pgroup
      (parentCB.exitProcessList processCB.pgroup ++ [processCB]) }
  parentCB.osWaitCheckAndWakeParentProcess processCB

/-- WaitFindSpecifiedProcess; valid says that pid is that of a process in use. -/
def waitFindSpecifiedProcess (processCB : WaitState) (pid : Nat) (valid : Bool) : WaitTarget :=
  if valid = false then .echild
  else
    match processCB.exitChildList.find? (·.processID = pid) with
    | some childCB => .child childCB
    | none => if processCB.childrenList.any (·.processID = pid) then .flag (.pro pid) else .echild

/-- A wait for a group: the first of its processes that has exited, if any. -/
def waitGroup (processCB : WaitState) (pgroup : Nat) : WaitTarget :=
  match (processCB.exitProcessList pgroup).head? with
  | some childCB => .child childCB
  | none => .flag (.gid pgroup)

/-- OsWaitSetFlag; group says that there is a group -pid. -/
def osWaitSetFlag (processCB : WaitState) (pid : Int) (valid group : Bool) : WaitTarget :=
  if 0 < pid then processCB.waitFindSpecifiedProcess pid.toNat valid
  else if pid = 0 then processCB.waitGroup processCB.pgroup
  else if pid = -1 then
    match processCB.exitChildList.head? with
    | some childCB => .child childCB
    | none => .flag .any
  else if group = false then .echild
  else processCB.waitGroup (-pid).toNat

def osWaitChildProcessCheck (processCB : WaitState) (pid : Int) (valid group : Bool) : WaitTarget :=
  if processCB.childrenList = [] ∧ processCB.exitChildList = [] then .echild else processCB.osWaitSetFlag pid valid group

/-- OsRecycleZombiesProcess takes a process off the lists. -/
def osRecycleZombiesProcess (processCB : WaitState) (childCB : Child) : WaitState :=
  { processCB with
    exitChildList := processCB.exitChildList.erase childCB
    exitProcessList := Function.update processCB.exitProcessList childCB.pgroup
      ((processCB.exitProcessList childCB.pgroup).erase childCB) }

/-- OsWait up to the sleep of the thread; nohang says that options has LOS_WAIT_WNOHANG. -/
def osWait (processCB : WaitState) (task : Nat) (pid : Int) (nohang valid group : Bool) : WaitState × WaitResult :=
  match processCB.osWaitChildProcessCheck pid valid group with
  | .echild => (processCB,.echild)
  | .child childCB => (processCB.osRecycleZombiesProcess childCB,.child childCB)
  | .flag waitFlag =>
    if nohang then (processCB,.nohang)
    else ({ processCB with waitList := osWaitInsertWaitListInOrder ⟨task,waitFlag⟩ processCB.waitList },.blocked)

end WaitState

end LiteOsKernel.Process
