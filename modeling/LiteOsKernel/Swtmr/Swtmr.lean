import LiteOsKernel.Sched.Timeout

/-! Software timers, after los_swtmr.c and los_sortlink.c: the control blocks, the free list, the sorted time list
and the handler queue of each CPU. The hooks, the debug data and the wait of the timer task are left out. -/
namespace LiteOsKernel.Swtmr
open Sched.Timeout (SortLinkAttribute addNode2SortLink)

def LOSCFG_BASE_CORE_SWTMR_LIMIT : Nat := 1024
def OS_SWTMR_MAX_TIMERID : Nat := 0xFFFF / LOSCFG_BASE_CORE_SWTMR_LIMIT * LOSCFG_BASE_CORE_SWTMR_LIMIT
def OS_INVALID_VALUE : Nat := 0xFFFFFFFF
def OS_SORT_LINK_INVALID_TIME : Nat := 2 ^ 64 - 1

inductive SwtmrStatus where
  | unused
  | created
  | ticking
  deriving DecidableEq, Inhabited

inductive SwtmrMode where
  | once
  | period
  | noSelfDelete
  | opp
  deriving DecidableEq, Inhabited

inductive SwtmrErrno where
  | intervalNotSuited
  | modeInvalid
  | ptrNull
  | retPtrNull
  | maxsize
  | idInvalid
  | notCreated
  | notStarted
  | tickPtrNull
  deriving DecidableEq

/-- responseTime and cpuid are those of stSortList; a handler or an argument of 0 is NULL. -/
structure SwtmrCtrl where
  responseTime : Nat
  cpuid : Nat
  ucState : SwtmrStatus
  ucMode : SwtmrMode
  usTimerID : Nat
  uwOverrun : Nat
  uwInterval : Nat
  uwExpiry : Nat
  uwArg : Nat
  pfnHandler : Nat
  uwOwnerPid : Nat
  startTime : Nat
  deriving DecidableEq, Inhabited

structure SwtmrHandlerItem where
  handler : Nat
  arg : Nat
  deriving DecidableEq

structure SwtmrRunqueue where
  swtmrSortLink : SortLinkAttribute
  swtmrHandlerQueue : List SwtmrHandlerItem

/-- LOSCFG_KERNEL_CORE_NUM and OS_CYCLE_PER_TICK, a quotient of a UINT32. -/
structure SwtmrConfig where
  coreNum : Nat
  cyclePerTick : Nat
  pos : 0 < cyclePerTick
  lt : cyclePerTick < 2 ^ 32

/-- waking is the timer that SwtmrTask of each CPU has taken off its time list, with its response time, until SwtmrWake. -/
structure SwtmrState where
  cb : Nat → SwtmrCtrl
  freeList : List Nat
  runqueue : Nat → SwtmrRunqueue
  waking : Nat → Option (Nat × Nat)

/-- SwtmrBaseInit. -/
def swtmrBaseInit : SwtmrState where
  cb index := { (default : SwtmrCtrl) with usTimerID := index }
  freeList := List.range LOSCFG_BASE_CORE_SWTMR_LIMIT
  runqueue _ := ⟨⟨[],0⟩,[]⟩
  waking _ := none

namespace SwtmrState

def setCb (s : SwtmrState) (index : Nat) (swtmr : SwtmrCtrl) : SwtmrState := { s with cb := Function.update s.cb index swtmr }

def setSortLink (s : SwtmrState) (cpuid : Nat) (link : SortLinkAttribute) : SwtmrState :=
  { s with runqueue := Function.update s.runqueue cpuid { s.runqueue cpuid with swtmrSortLink := link } }

/-- FindIdleSwtmrRunqueue, and CPU 0 where there is one only. -/
def findIdleSwtmrRunqueue (s : SwtmrState) (coreNum : Nat) : Nat :=
  (List.range' 1 (coreNum - 1)).foldl (fun idleCpuid cpuid =>
    if (s.runqueue cpuid).swtmrSortLink.nodeNum < (s.runqueue idleCpuid).swtmrSortLink.nodeNum then cpuid else idleCpuid) 0

/-- OsAdd2SortLink of a node whose response time is that of swtmr. -/
def addSwtmr2TimeList (s : SwtmrState) (index : Nat) (swtmr : SwtmrCtrl) (cpuid : Nat) : SwtmrState :=
  let s := s.setCb index { swtmr with cpuid := cpuid }
  let link := (s.runqueue cpuid).swtmrSortLink
  s.setSortLink cpuid ⟨addNode2SortLink (fun i => some (s.cb i).responseTime) link.sortLink index,link.nodeNum + 1⟩

def osDeleteNodeSortLink (s : SwtmrState) (cpuid index : Nat) : SwtmrState :=
  let link := (s.runqueue cpuid).swtmrSortLink
  (s.setCb index { s.cb index with responseTime := OS_SORT_LINK_INVALID_TIME }).setSortLink cpuid
    ⟨link.sortLink.erase index,link.nodeNum - 1⟩

def deSwtmrFromTimeList (s : SwtmrState) (index : Nat) : SwtmrState :=
  if (s.cb index).responseTime ≠ OS_SORT_LINK_INVALID_TIME then s.osDeleteNodeSortLink (s.cb index).cpuid index else s

end SwtmrState

/-- The ticks of SwtmrToStart. -/
def startTicks (swtmr : SwtmrCtrl) : Nat :=
  if swtmr.uwOverrun = 0 ∧ (swtmr.ucMode = .once ∨ swtmr.ucMode = .opp ∨ swtmr.ucMode = .noSelfDelete) then swtmr.uwExpiry
  else swtmr.uwInterval

/-- SwtmrToStart up to the time list; none where it divides by zero. -/
def startResponse (cfg : SwtmrConfig) (currTime : Nat) (swtmr : SwtmrCtrl) : Option SwtmrCtrl :=
  let swtmr := { swtmr with ucState := .ticking }
  let period := startTicks swtmr * cfg.cyclePerTick
  let responseTime := (swtmr.startTime + period) % 2 ^ 64
  if responseTime < currTime then
    if period = 0 then none
    else
      let times := (currTime + 2 ^ 64 - swtmr.startTime) % 2 ^ 64 / period % 2 ^ 32
      let startTime := (swtmr.startTime + times * period) % 2 ^ 64
      some { swtmr with startTime := startTime, responseTime := (startTime + period) % 2 ^ 64 }
  else some { swtmr with responseTime := responseTime }

namespace SwtmrState

def swtmrToStart (s : SwtmrState) (cfg : SwtmrConfig) (currTime index cpuid : Nat) : Option SwtmrState :=
  (startResponse cfg currTime (s.cb index)).map (s.addSwtmr2TimeList index · cpuid)

/-- SwtmrStart; OsGetCurrSchedTimeCycle gives startTime first and currTime then. -/
def swtmrStart (s : SwtmrState) (cfg : SwtmrConfig) (startTime currTime index : Nat) : Option SwtmrState :=
  let idleCpu := s.findIdleSwtmrRunqueue cfg.coreNum
  (s.setCb index { s.cb index with startTime := startTime }).swtmrToStart cfg currTime index idleCpu

def swtmrStop (s : SwtmrState) (index : Nat) : SwtmrState :=
  (s.setCb index { s.cb index with ucState := .created, uwOverrun := 0 }).deSwtmrFromTimeList index

def swtmrDelete (s : SwtmrState) (index : Nat) : SwtmrState :=
  let s := { s with freeList := s.freeList ++ [index] }
  s.setCb index { s.cb index with ucState := .unused, uwOwnerPid := OS_INVALID_VALUE }

/-- What SwtmrCreate writes into a block. -/
def createdCb (swtmr : SwtmrCtrl) (owner interval : Nat) (mode : SwtmrMode) (handler arg : Nat) : SwtmrCtrl :=
  { swtmr with
    uwOwnerPid := owner
    pfnHandler := handler
    ucMode := mode
    uwOverrun := 0
    uwInterval := interval
    uwExpiry := interval
    uwArg := arg
    ucState := .created
    responseTime := OS_SORT_LINK_INVALID_TIME }

/-- LOS_SwtmrCreate by the process owner: the ID or the error; swtmrID says whether there is a place for the ID. -/
def losSwtmrCreate (s : SwtmrState) (owner interval : Nat) (mode : SwtmrMode) (handler : Nat) (swtmrID : Bool) (arg : Nat) :
    SwtmrState × Except SwtmrErrno Nat :=
  if interval = 0 then (s,.error .intervalNotSuited)
  else if mode ≠ .once ∧ mode ≠ .period ∧ mode ≠ .noSelfDelete then (s,.error .modeInvalid)
  else if handler = 0 then (s,.error .ptrNull)
  else if swtmrID = false then (s,.error .retPtrNull)
  else
    match s.freeList with
    | [] => (s,.error .maxsize)
    | index :: freeList =>
      let s := { s with freeList := freeList }
      (s.setCb index (createdCb (s.cb index) owner interval mode handler arg),.ok (s.cb index).usTimerID)

/-- LOS_SwtmrStart; none where it divides by zero. -/
def losSwtmrStart (s : SwtmrState) (cfg : SwtmrConfig) (startTime currTime swtmrID : Nat) :
    Option (SwtmrState × Except SwtmrErrno Unit) :=
  let index := swtmrID % LOSCFG_BASE_CORE_SWTMR_LIMIT
  if OS_SWTMR_MAX_TIMERID ≤ swtmrID then some (s,.error .idInvalid)
  else if (s.cb index).usTimerID ≠ swtmrID then some (s,.error .idInvalid)
  else
    match (s.cb index).ucState with
    | .unused => some (s,.error .notCreated)
    | .ticking => ((s.swtmrStop index).swtmrStart cfg startTime currTime index).map (·,.ok ())
    | .created => (s.swtmrStart cfg startTime currTime index).map (·,.ok ())

def losSwtmrStop (s : SwtmrState) (swtmrID : Nat) : SwtmrState × Except SwtmrErrno Unit :=
  let index := swtmrID % LOSCFG_BASE_CORE_SWTMR_LIMIT
  if OS_SWTMR_MAX_TIMERID ≤ swtmrID then (s,.error .idInvalid)
  else if (s.cb index).usTimerID ≠ swtmrID then (s,.error .idInvalid)
  else
    match (s.cb index).ucState with
    | .unused => (s,.error .notCreated)
    | .created => (s,.error .notStarted)
    | .ticking => (s.swtmrStop index,.ok ())

def losSwtmrDelete (s : SwtmrState) (swtmrID : Nat) : SwtmrState × Except SwtmrErrno Unit :=
  let index := swtmrID % LOSCFG_BASE_CORE_SWTMR_LIMIT
  if OS_SWTMR_MAX_TIMERID ≤ swtmrID then (s,.error .idInvalid)
  else if (s.cb index).usTimerID ≠ swtmrID then (s,.error .idInvalid)
  else
    match (s.cb index).ucState with
    | .unused => (s,.error .notCreated)
    | .ticking => ((s.swtmrStop index).swtmrDelete index,.ok ())
    | .created => (s.swtmrDelete index,.ok ())

/-- The ID of a block after its one-shot timer. -/
def nextTimerID (usTimerID : Nat) : Nat :=
  if usTimerID < OS_SWTMR_MAX_TIMERID - LOSCFG_BASE_CORE_SWTMR_LIMIT then usTimerID + LOSCFG_BASE_CORE_SWTMR_LIMIT
  else usTimerID % LOSCFG_BASE_CORE_SWTMR_LIMIT

def pushHandler (s : SwtmrState) (cpuid : Nat) (item : SwtmrHandlerItem) : SwtmrState :=
  let srq := s.runqueue cpuid
  { s with runqueue := Function.update s.runqueue cpuid { srq with swtmrHandlerQueue := srq.swtmrHandlerQueue ++ [item] } }

/-- SwtmrWake on a CPU; none where SwtmrToStart divides by zero. -/
def swtmrWake (s : SwtmrState) (cfg : SwtmrConfig) (cpuid startTime currTime index : Nat) : Option SwtmrState :=
  let s := s.pushHandler cpuid ⟨(s.cb index).pfnHandler,(s.cb index).uwArg⟩
  match (s.cb index).ucMode with
  | .once =>
    let s := s.swtmrDelete index
    some (s.setCb index { s.cb index with usTimerID := nextTimerID (s.cb index).usTimerID })
  | .noSelfDelete => some (s.setCb index { s.cb index with ucState := .created })
  | _ =>
    let overrun := ((s.cb index).uwOverrun + 1) % 2 ^ 32
    (s.setCb index { s.cb index with uwOverrun := overrun, startTime := startTime }).swtmrToStart cfg currTime index cpuid

/-- A round of the loop of ScanSwtmrTimeList up to where it gives up the lock of the list: the first timer of the CPU is
taken off, where it is due at scanTime. -/
def scanTake (s : SwtmrState) (cpuid scanTime : Nat) : SwtmrState :=
  match (s.runqueue cpuid).swtmrSortLink.sortLink with
  | [] => s
  | index :: _ =>
    if (s.cb index).responseTime ≤ scanTime then
      { s.osDeleteNodeSortLink cpuid index with waking := Function.update s.waking cpuid (some (index,(s.cb index).responseTime)) }
    else s

/-- SwtmrWake of the timer that the CPU has taken off; none where it divides by zero. -/
def scanWake (s : SwtmrState) (cfg : SwtmrConfig) (cpuid currTime : Nat) : Option SwtmrState :=
  match s.waking cpuid with
  | none => some s
  | some (index,startTime) => (s.swtmrWake cfg cpuid startTime currTime index).map fun s =>
      { s with waking := Function.update s.waking cpuid none }

def osSwtmrRecycle (s : SwtmrState) (ownerID : Nat) : SwtmrState :=
  (List.range LOSCFG_BASE_CORE_SWTMR_LIMIT).foldl (fun s index =>
    if (s.cb index).uwOwnerPid = ownerID then (s.losSwtmrDelete index).1 else s) s

end SwtmrState

def osSortLinkGetTargetExpireTime (currTime responseTime : Nat) : Nat :=
  if responseTime ≤ currTime then 0 else (responseTime - currTime) % 2 ^ 32

def saturate (time : Nat) : Nat := if OS_INVALID_VALUE < time then OS_INVALID_VALUE else time

def osSwtmrTimeGet (cfg : SwtmrConfig) (currTime : Nat) (swtmr : SwtmrCtrl) : Nat :=
  saturate (osSortLinkGetTargetExpireTime currTime swtmr.responseTime / cfg.cyclePerTick)

namespace SwtmrState

def osSortLinkGetNextExpireTime (s : SwtmrState) (currTime cpuid : Nat) : Nat :=
  match (s.runqueue cpuid).swtmrSortLink.sortLink with
  | [] => OS_SORT_LINK_INVALID_TIME
  | listSorted :: _ => osSortLinkGetTargetExpireTime currTime (s.cb listSorted).responseTime

/-- OsSwtmrGetNextTimeout on a CPU. -/
def osSwtmrGetNextTimeout (s : SwtmrState) (cfg : SwtmrConfig) (currTime cpuid : Nat) : Nat :=
  saturate (s.osSortLinkGetNextExpireTime currTime cpuid / cfg.cyclePerTick)

/-- The cycles that SwtmrTask of a CPU waits. -/
def swtmrTaskWait (s : SwtmrState) (currTime cpuid : Nat) : Nat := s.osSortLinkGetNextExpireTime currTime cpuid

/-- LOS_SwtmrTimeGet; tick says whether there is a place for the ticks. -/
def losSwtmrTimeGet (s : SwtmrState) (cfg : SwtmrConfig) (currTime swtmrID : Nat) (tick : Bool) : Except SwtmrErrno Nat :=
  let index := swtmrID % LOSCFG_BASE_CORE_SWTMR_LIMIT
  if OS_SWTMR_MAX_TIMERID ≤ swtmrID then .error .idInvalid
  else if tick = false then .error .tickPtrNull
  else if (s.cb index).usTimerID ≠ swtmrID then .error .idInvalid
  else
    match (s.cb index).ucState with
    | .unused => .error .notCreated
    | .created => .error .notStarted
    | .ticking => .ok (osSwtmrTimeGet cfg currTime (s.cb index))

end SwtmrState

end LiteOsKernel.Swtmr
