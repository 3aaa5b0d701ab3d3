import LiteOsKernel.Lib.Run
import Mathlib.Algebra.BigOperators.Group.List.Basic
import Mathlib.Algebra.GroupWithZero.Nat
import Mathlib.Algebra.Order.Group.Nat
import Mathlib.Logic.Function.Basic

/-! Limiter sets of processes, after los_plimits.c, los_processlimit.c and los_memlimit.c, with the limiters of
PROCESS_LIMITER_ID_PIDS and PROCESS_LIMITER_ID_MEM in g_limiteOps. A pointer is the address of a set; none where a null or a
freed one is followed. -/
namespace LiteOsKernel.Plimit

def LOS_OK : Nat := 0
def EPERM : Nat := 1
def ENOMEM : Nat := 12
def EACCES : Nat := 13
def EINVAL : Nat := 22

/-- g_processMaxNum. -/
def LOSCFG_BASE_CORE_PROCESS_LIMIT : UInt32 := 64
def OS_USER_PROCESS_PRIORITY_HIGHEST : UInt32 := 10
def OS_NULL_INT : UInt64 := 0xFFFFFFFF

structure PidLimit where
  pidLimit : UInt32
  priorityLimit : UInt32
  pidCount : UInt32

structure ProcMemLimiter where
  usage : UInt64
  limit : UInt64
  peak : UInt64
  failcnt : UInt32

structure ProcLimiterSet where
  parent : Option Nat
  processList : List Nat
  pidCount : UInt32
  pids : PidLimit
  mem : ProcMemLimiter

structure ProcessCB where
  plimits : Option Nat
  memUsed : UInt64

/-- The sets that are allocated, and the process control blocks. -/
structure PlimitState where
  g_rootPLimite : Nat
  sets : Nat → Option ProcLimiterSet
  pcb : Nat → ProcessCB

namespace PlimitState

def setSet (s : PlimitState) (a : Nat) (set : ProcLimiterSet) : PlimitState :=
  { s with sets := Function.update s.sets a (some set) }

def setPcb (s : PlimitState) (p : Nat) (pcb : ProcessCB) : PlimitState := { s with pcb := Function.update s.pcb p pcb }

end PlimitState

def pidLimiterAlloc : PidLimit := ⟨0,0,0⟩

def osMemLimiterAlloc : ProcMemLimiter := ⟨0,0,0,0⟩

def pidLimiterInit (limit : PidLimit) : PidLimit :=
  { limit with pidLimit := LOSCFG_BASE_CORE_PROCESS_LIMIT, priorityLimit := OS_USER_PROCESS_PRIORITY_HIGHEST }

def osMemLimiterInit (limite : ProcMemLimiter) : ProcMemLimiter := { limite with limit := OS_NULL_INT }

def pidLimiterCopy (curr parent : PidLimit) : PidLimit :=
  { curr with pidLimit := parent.pidLimit, priorityLimit := parent.priorityLimit, pidCount := 0 }

def osMemLimiterCopy (dest src : ProcMemLimiter) : ProcMemLimiter := { dest with limit := src.limit }

def osPidLimitAddProcessCheck (limit : PidLimit) : Bool := ¬ limit.pidCount ≥ limit.pidLimit

def osMemLimitAddProcessCheck (limit : ProcMemLimiter) (pcb : ProcessCB) : Bool := ¬ limit.usage + pcb.memUsed > limit.limit

def osPidLimitAddProcess (limit : PidLimit) : PidLimit := { limit with pidCount := limit.pidCount + 1 }

def osPidLimitDelProcess (limit : PidLimit) : PidLimit := { limit with pidCount := limit.pidCount - 1 }

/-- The usage grows, and peak with it. -/
def ProcMemLimiter.grow (limit : ProcMemLimiter) (size : UInt64) : ProcMemLimiter :=
  let usage := limit.usage + size
  { limit with usage := usage, peak := if limit.peak < usage then usage else limit.peak }

def osMemLimitAddProcess (limit : ProcMemLimiter) (pcb : ProcessCB) : ProcMemLimiter := limit.grow pcb.memUsed

def osMemLimitDelProcess (limit : ProcMemLimiter) (pcb : ProcessCB) : ProcMemLimiter :=
  { limit with usage := limit.usage - pcb.memUsed }

/-- A null limiter is refused. -/
def pidLimitMigrateCheck (curr : Option PidLimit) (parent : PidLimit) : Bool :=
  match curr with
  | none => false
  | some curr => ¬ curr.pidCount + parent.pidCount ≥ parent.pidLimit

/-- A null limiter is followed. -/
def memLimiteMigrateCheck (curr : Option ProcMemLimiter) (parent : ProcMemLimiter) : Option Bool :=
  curr.map fun curr => ¬ curr.usage + parent.usage ≥ parent.limit

/-- The limitsList of a set against that of its parent. -/
def plimitsMigrateCheck (pids : Option PidLimit) (mem : Option ProcMemLimiter) (parentPLimits : ProcLimiterSet) : Option Nat :=
  if pidLimitMigrateCheck pids parentPLimits.pids = false then some EPERM
  else (memLimiteMigrateCheck mem parentPLimits.mem).map fun ok => if ok = false then EPERM else LOS_OK

/-- The process leaves processList. -/
def ProcLimiterSet.delProcess (set : ProcLimiterSet) (p : Nat) (pcb : ProcessCB) : ProcLimiterSet :=
  { set with
    pids := osPidLimitDelProcess set.pids
    mem := osMemLimitDelProcess set.mem pcb
    pidCount := set.pidCount - 1
    processList := set.processList.erase p }

def ProcLimiterSet.addProcess (set : ProcLimiterSet) (p : Nat) (pcb : ProcessCB) : ProcLimiterSet :=
  { set with
    pids := osPidLimitAddProcess set.pids
    mem := osMemLimitAddProcess set.mem pcb
    processList := set.processList ++ [p]
    pidCount := set.pidCount + 1 }

def plimitsDeleteProcess (s : PlimitState) (processCB : Nat) : Option PlimitState :=
  match (s.pcb processCB).plimits with
  | none => some s
  | some plimits => (s.sets plimits).map fun set =>
    (s.setSet plimits (set.delProcess processCB (s.pcb processCB))).setPcb processCB { s.pcb processCB with plimits := none }

/-- The second half of PLimitsAddProcess: the process is in no set. -/
def plimitsLinkProcess (s : PlimitState) (plimits processCB : Nat) : Option PlimitState :=
  (s.sets plimits).map fun set =>
    (s.setSet plimits (set.addProcess processCB (s.pcb processCB))).setPcb processCB { s.pcb processCB with plimits := some plimits }

/-- plimits is none when it is NULL. -/
def plimitsAddProcess (s : PlimitState) (plimits : Option Nat) (processCB : Nat) : Option (PlimitState × Nat) :=
  let plimits := plimits.getD s.g_rootPLimite
  if (s.pcb processCB).plimits = some s.g_rootPLimite then some (s,EPERM)
  else if (s.pcb processCB).plimits = some plimits then some (s,LOS_OK)
  else (s.sets plimits).bind fun set =>
    if osPidLimitAddProcessCheck set.pids = false ∨ osMemLimitAddProcessCheck set.mem (s.pcb processCB) = false then some (s,EACCES)
    else (plimitsDeleteProcess s processCB).bind fun s => (plimitsLinkProcess s plimits processCB).map fun s => (s,LOS_OK)

def osPLimitsAddPid (s : PlimitState) (plimits : Option Nat) (pid : Nat) (inactive : Bool) : Option (PlimitState × Nat) :=
  if plimits = none ∨ pid ≥ LOSCFG_BASE_CORE_PROCESS_LIMIT.toNat ∨ pid = 0 then some (s,EINVAL)
  else if plimits = some s.g_rootPLimite then some (s,EPERM)
  else if inactive = true then some (s,EINVAL)
  else plimitsAddProcess s plimits pid

/-- The loop of PLimitsProcessMerge, over at most fuel processes. -/
def mergeLoop (currPLimits parentPLimits : Nat) : Nat → PlimitState → Option PlimitState
  | 0, s => (s.sets currPLimits).bind fun set => if set.processList = [] then some s else none
  | fuel + 1, s => (s.sets currPLimits).bind fun set =>
    match set.processList with
    | [] => some s
    | processCB :: _ =>
      (plimitsDeleteProcess s processCB).bind fun s => (plimitsAddProcess s (some parentPLimits) processCB).bind fun r =>
        mergeLoop currPLimits parentPLimits fuel r.1

def plimitsProcessMerge (s : PlimitState) (currPLimits parentPLimits : Nat) : Option PlimitState :=
  (s.sets currPLimits).bind fun set => mergeLoop currPLimits parentPLimits set.processList.length s

/-- The set of the address is freed when its processes have moved to its parent. -/
def osPLimitsFree (s : PlimitState) (currPLimits : Option Nat) : Option (PlimitState × Nat) :=
  match currPLimits with
  | none => some (s,EINVAL)
  | some curr => (s.sets curr).bind fun set => set.parent.bind fun parent => (s.sets parent).bind fun parentSet =>
    (plimitsMigrateCheck (some set.pids) (some set.mem) parentSet).bind fun ret =>
      if ret ≠ LOS_OK then some (s,ret)
      else (plimitsProcessMerge s curr parent).map fun s => ({ s with sets := Function.update s.sets curr none },LOS_OK)

/-- Memory for the new set, whose address it is, and for its two limiters. A set without all limiters goes to OsPLimitsFree,
where it has no processes and stays allocated or is freed; no other function can reach it. -/
def osPLimitsCreate (s : PlimitState) (parentPLimits run : Nat) (new : Option Nat) (pidAlloc memAlloc : Bool) :
    Option (PlimitState × Option Nat) :=
  match new with
  | none => some (s,none)
  | some newPLimits => (s.sets parentPLimits).bind fun parent =>
    if pidAlloc = false then (plimitsMigrateCheck none none parent).map fun _ => (s,none)
    else
      let pids := pidLimiterCopy pidLimiterAlloc parent.pids
      if memAlloc = false then (plimitsMigrateCheck (some pids) none parent).map fun _ => (s,none)
      else
        let mem := osMemLimiterCopy osMemLimiterAlloc parent.mem
        (plimitsDeleteProcess (s.setSet newPLimits ⟨some parentPLimits,[],0,pids,mem⟩) run).bind fun s =>
          (plimitsAddProcess s (some newPLimits) run).map fun r => (r.1,some newPLimits)

def osMemLimitCheckAndMemAdd (s : PlimitState) (run : Nat) (size : UInt32) : Option (PlimitState × Nat) :=
  match (s.pcb run).plimits with
  | none => some (s,LOS_OK)
  | some plimits => (s.sets plimits).map fun set =>
    if set.mem.usage + size.toUInt64 > set.mem.limit then
      (s.setSet plimits { set with mem := { set.mem with failcnt := set.mem.failcnt + 1 } },ENOMEM)
    else
      ((s.setSet plimits { set with mem := set.mem.grow size.toUInt64 }).setPcb run
        { s.pcb run with memUsed := (s.pcb run).memUsed + size.toUInt64 },LOS_OK)

def osMemLimitMemFree (s : PlimitState) (run : Nat) (size : UInt32) : Option PlimitState :=
  match (s.pcb run).plimits with
  | none => some s
  | some plimits => (s.sets plimits).map fun set =>
    if (s.pcb run).memUsed > size.toUInt64 then
      (s.setSet plimits { set with mem := { set.mem with usage := set.mem.usage - size.toUInt64 } }).setPcb run
        { s.pcb run with memUsed := (s.pcb run).memUsed - size.toUInt64 }
    else s

/-- PidLimitSetPidLimit, for the limiter of a set. -/
def pidLimitSetPidLimit (s : PlimitState) (plimits : Nat) (pidMax : UInt32) : Option (PlimitState × Nat) :=
  if pidMax > LOSCFG_BASE_CORE_PROCESS_LIMIT then some (s,EINVAL)
  else if plimits = s.g_rootPLimite then some (s,EPERM)
  else (s.sets plimits).map fun set =>
    if set.pids.pidCount ≥ pidMax then (s,EPERM)
    else (s.setSet plimits { set with pids := { set.pids with pidLimit := pidMax } },LOS_OK)

/-- OsMemLimitSetMemLimit, for the limiter of a set. -/
def osMemLimitSetMemLimit (s : PlimitState) (plimits : Nat) (value : UInt64) : Option (PlimitState × Nat) :=
  if value = 0 then some (s,EINVAL)
  else if plimits = s.g_rootPLimite then some (s,EPERM)
  else (s.sets plimits).map fun set =>
    if value < set.mem.usage then (s,EINVAL)
    else (s.setSet plimits { set with mem := { set.mem with limit := value } },LOS_OK)

end LiteOsKernel.Plimit
