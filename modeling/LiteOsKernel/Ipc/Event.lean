import LiteOsKernel.Ipc.Wait
import Mathlib.Logic.Basic

/-! Event flags, after los_event.c: the flags of one control block, the tasks that wait for some of them, and those that were
woken and have not looked at the flags again yet. -/
namespace LiteOsKernel.Ipc.Event

def LOS_WAITMODE_AND : BitVec 32 := 4
def LOS_WAITMODE_OR : BitVec 32 := 2
def LOS_WAITMODE_CLR : BitVec 32 := 1

/-- Bit 25, by which a caller tells an error code from flags. -/
def LOS_ERRTYPE_ERROR : BitVec 32 := 0x02000000

/-- The codes LOS_ERRNO_EVENT_xxx. -/
inductive EventErr where
  | ptrNull
  | eventMaskInvalid
  | setBitInvalid
  | flagsInvalid
  | readInInterrupt
  | readInSystemTask
  | readInLock
  | readTimeout
  deriving DecidableEq

/-- What LOS_EventRead returns: an error code, or flags. -/
abbrev EventRet := Except EventErr (BitVec 32)

/-- A task in stEventList, with the eventMask and the eventMode of its control block. -/
structure EventWaiter extends Waiter where
  eventMask : BitVec 32
  eventMode : BitVec 32
  deriving DecidableEq

/-- A task that left stEventList and has not run since, with its OS_TASK_STATUS_TIMEOUT. -/
structure Resumed extends EventWaiter where
  timeout : Bool
  deriving DecidableEq

structure EventState where
  uwEventID : BitVec 32
  stEventList : List EventWaiter
  resumed : List Resumed

def losEventInit : EventState := ⟨0,[],[]⟩

/-- ptr says that the pointer is not NULL. -/
def osEventParamCheck (ptr : Bool) (eventMask mode : BitVec 32) : Option EventErr :=
  if ptr = false then some .ptrNull
  else if eventMask = 0 then some .eventMaskInvalid
  else if eventMask &&& LOS_ERRTYPE_ERROR ≠ 0 then some .setBitInvalid
  else if mode &&& LOS_WAITMODE_OR ≠ 0 ∧ mode &&& LOS_WAITMODE_AND ≠ 0 ∨
      mode &&& ~~~(LOS_WAITMODE_OR ||| LOS_WAITMODE_AND ||| LOS_WAITMODE_CLR) ≠ 0 ∨
      mode &&& (LOS_WAITMODE_OR ||| LOS_WAITMODE_AND) = 0 then some .flagsInvalid
  else none

/-- The flags after the poll, and what it returns. -/
def osEventPoll (eventID eventMask mode : BitVec 32) : BitVec 32 × BitVec 32 :=
  let ret :=
    if mode &&& LOS_WAITMODE_OR ≠ 0 then
      if eventID &&& eventMask ≠ 0 then eventID &&& eventMask else 0
    else if eventMask ≠ 0 ∧ eventMask = eventID &&& eventMask then eventID &&& eventMask else 0
  (if ret ≠ 0 ∧ mode &&& LOS_WAITMODE_CLR ≠ 0 then eventID &&& ~~~ret else eventID,ret)

def osEventReadCheck (ptr : Bool) (ctx : PendContext) (eventMask mode : BitVec 32) : Option EventErr :=
  match osEventParamCheck ptr eventMask mode with
  | some err => some err
  | none =>
    if ctx.intActive then some .readInInterrupt
    else if ctx.systemTask then some .readInSystemTask
    else none

/-- none: the task waits, in ops->wait. -/
def osEventReadImp (s : EventState) (ctx : PendContext) (task : Nat) (eventMask mode : BitVec 32) (timeout : Nat) (once : Bool) :
    EventState × Option EventRet :=
  let (eventID,ret) := if once = false then osEventPoll s.uwEventID eventMask mode else (s.uwEventID,0)
  let s := { s with uwEventID := eventID }
  if ret ≠ 0 then (s,some (.ok ret))
  else if timeout = 0 then (s,some (.ok ret))
  else if ctx.preemptable = false then (s,some (.error .readInLock))
  else ({ s with stEventList := s.stEventList ++ [⟨⟨task,timeout⟩,eventMask,mode⟩] },none)

def osEventRead (s : EventState) (ptr : Bool) (ctx : PendContext) (task : Nat) (eventMask mode : BitVec 32) (timeout : Nat)
    (once : Bool) : EventState × Option EventRet :=
  match osEventReadCheck ptr ctx eventMask mode with
  | some err => (s,some (.error err))
  | none => osEventReadImp s ctx task eventMask mode timeout once

def losEventRead (s : EventState) (ptr : Bool) (ctx : PendContext) (task : Nat) (eventMask mode : BitVec 32) (timeout : Nat) :
    EventState × Option EventRet :=
  osEventRead s ptr ctx task eventMask mode timeout false

/-- The exitFlag of OsEventResume: the writer wakes this task. -/
def osEventResume (resumedTask : EventWaiter) (uwEventID events : BitVec 32) : Bool :=
  (resumedTask.eventMode &&& LOS_WAITMODE_OR ≠ 0 && resumedTask.eventMask &&& events ≠ 0) ||
    (resumedTask.eventMode &&& LOS_WAITMODE_AND ≠ 0 && resumedTask.eventMask &&& uwEventID = resumedTask.eventMask)

/-- The loop of OsEventWriteUnsafe over stEventList: the tasks that stay in it, and those that are woken. -/
def writeLoop (uwEventID events : BitVec 32) (once : Bool) : List EventWaiter → List EventWaiter × List EventWaiter
  | [] => ([],[])
  | resumedTask :: rest =>
    let (stay,woken) := if once then (rest,[]) else writeLoop uwEventID events once rest
    if osEventResume resumedTask uwEventID events then (stay,resumedTask :: woken) else (resumedTask :: stay,woken)

def osEventWriteUnsafe (s : EventState) (events : BitVec 32) (once : Bool) : EventState :=
  let uwEventID := s.uwEventID ||| events
  let (stay,woken) := writeLoop uwEventID events once s.stEventList
  { uwEventID := uwEventID
    stEventList := stay
    resumed := s.resumed ++ woken.map fun w => ⟨w,false⟩ }

def osEventWrite (s : EventState) (ptr : Bool) (events : BitVec 32) (once : Bool) : EventState × Option EventErr :=
  if ptr = false then (s,some .ptrNull)
  else if events &&& LOS_ERRTYPE_ERROR ≠ 0 then (s,some .setBitInvalid)
  else (osEventWriteUnsafe s events once,none)

def losEventWrite (s : EventState) (ptr : Bool) (events : BitVec 32) : EventState × Option EventErr := osEventWrite s ptr events false

def osEventWriteOnce (s : EventState) (ptr : Bool) (events : BitVec 32) : EventState × Option EventErr := osEventWrite s ptr events true

def losEventClear (s : EventState) (ptr : Bool) (eventMask : BitVec 32) : EventState × Option EventErr :=
  if ptr = false then (s,some .ptrNull) else ({ s with uwEventID := s.uwEventID &&& eventMask },none)

/-- SchedTimeoutTaskWake for a task that waits for the event. -/
def eventTimeout (s : EventState) (w : EventWaiter) (ops : SchedOps) : EventState :=
  { s with stEventList := s.stEventList.erase w, resumed := s.resumed ++ [⟨w,ops.timeoutBit⟩] }

/-- A resumed task runs: OsEventReadImp ends with the timeout, or polls again. -/
def eventReturn (s : EventState) (r : Resumed) : EventState × EventRet :=
  let s := { s with resumed := s.resumed.erase r }
  if r.timeout then (s,.error .readTimeout)
  else
    let (eventID,ret) := osEventPoll s.uwEventID r.eventMask r.eventMode
    ({ s with uwEventID := eventID },.ok ret)

/-- OsEventReadWithCond: the read is made only while realValue is still the value that the caller has seen. -/
def osEventReadWithCond (s : EventState) (realValue value clearEvent : BitVec 32) (ctx : PendContext) (task : Nat)
    (eventMask mode : BitVec 32) (timeout : Nat) : EventState × Option EventRet :=
  match osEventReadCheck true ctx eventMask mode with
  | some err => (s,some (.error err))
  | none =>
    if realValue ≠ value then ({ s with uwEventID := s.uwEventID &&& clearEvent },some (.ok 0))
    else osEventReadImp s ctx task eventMask mode timeout false

end LiteOsKernel.Ipc.Event
