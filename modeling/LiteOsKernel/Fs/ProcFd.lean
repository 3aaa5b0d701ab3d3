import Mathlib.Data.List.Range
import Mathlib.Logic.Function.Basic

/-! Descriptor tables of processes (vfs_procfd.c): allocation, association with system descriptors, and copies to other processes. The
calls that cross to another process are taken apart at the points where other calls can come in between. -/
namespace LiteOsKernel.Fs

def VFS_ERROR : Int := -1
def OK : Int := 0
def EPERM : Int := 1
def ESRCH : Int := 3
def EBADF : Int := 9
def EBUSY : Int := 16
def EINVAL : Int := 22
def MIN_START_FD : Int := 3
def STDERR_FILENO : Int := 2
def CONFIG_NFILE_DESCRIPTORS : Int := 512

/-- The build: which kinds of descriptors there are, and how many. -/
structure FdConfig where
  lwip : Bool
  posix : Bool
  nsocket : Nat
  ntime : Nat
  nqueue : Nat

def FdConfig.mqueueFdOffset (cfg : FdConfig) : Int := CONFIG_NFILE_DESCRIPTORS + cfg.nsocket + cfg.ntime

/-- fd_table_s; sysFd is the array ft_fds. -/
structure FdTable where
  maxFds : Nat
  sysFd : Nat → Int
  procFds : Nat → Bool
  cloexecFds : Nat → Bool

/-- A process, with the table of its files. -/
structure Process where
  inactive : Bool
  files : Option Nat

/-- The processes, the tables that exist, and what FdRefer and FdClose have added up to for each system descriptor. -/
structure FdState where
  cfg : FdConfig
  processMaxNum : Nat
  procs : Nat → Process
  tables : Nat → Option FdTable
  refs : Int → Int

/-- AssignProcessFd; none is VFS_ERROR. -/
def assignProcessFd (fdt : FdTable) (minFd : Nat) : Option Nat :=
  if fdt.maxFds ≤ minFd then none else (List.range' minFd (fdt.maxFds - minFd)).find? fun i => !fdt.procFds i

/-- IsValidProcessFd, for a table that is there. -/
def isValidProcessFd (fdt : FdTable) (procFd : Int) : Bool := decide (0 ≤ procFd ∧ procFd < fdt.maxFds)

namespace FdTable

/-- Occupies a descriptor and associates it. -/
def occupy (fdt : FdTable) (d : Nat) (sysFd : Int) : FdTable :=
  { fdt with procFds := Function.update fdt.procFds d true, sysFd := Function.update fdt.sysFd d sysFd }

/-- Clears a descriptor. -/
def clear (fdt : FdTable) (d : Nat) : FdTable :=
  { fdt with
    procFds := Function.update fdt.procFds d false
    cloexecFds := Function.update fdt.cloexecFds d false
    sysFd := Function.update fdt.sysFd d (-1) }

end FdTable

namespace FdState

/-- GetFdTable of the process that runs. -/
def getFdTable (s : FdState) (p : Nat) : Option (Nat × FdTable) :=
  match (s.procs p).files with
  | none => none
  | some id => (s.tables id).map fun fdt => (id,fdt)

def setTable (s : FdState) (id : Nat) (fdt : FdTable) : FdState := { s with tables := Function.update s.tables id (some fdt) }

/-- AssociateSystemFd. -/
def associateSystemFd (s : FdState) (p : Nat) (procFd sysFd : Int) : FdState :=
  match s.getFdTable p with
  | none => s
  | some (id,fdt) =>
    if isValidProcessFd fdt procFd = false then s
    else if sysFd < 0 then s
    else s.setTable id { fdt with sysFd := Function.update fdt.sysFd procFd.toNat sysFd }

/-- GetAssociatedSystemFd. -/
def getAssociatedSystemFd (s : FdState) (p : Nat) (procFd : Int) : Int :=
  match s.getFdTable p with
  | none => VFS_ERROR
  | some (_,fdt) =>
    if isValidProcessFd fdt procFd = false then VFS_ERROR
    else if fdt.sysFd procFd.toNat < 0 then VFS_ERROR
    else fdt.sysFd procFd.toNat

/-- AllocSpecifiedProcessFd. -/
def allocSpecifiedProcessFd (s : FdState) (p : Nat) (procFd : Int) : Int × FdState :=
  match s.getFdTable p with
  | none => (-EBADF,s)
  | some (id,fdt) =>
    if isValidProcessFd fdt procFd = false then (-EBADF,s)
    else if 0 ≤ fdt.sysFd procFd.toNat then
      (OK,s.setTable id { fdt with sysFd := Function.update fdt.sysFd procFd.toNat (-1) })
    else if fdt.procFds procFd.toNat then (-EBUSY,s)
    else (OK,s.setTable id { fdt with procFds := Function.update fdt.procFds procFd.toNat true })

/-- FreeProcessFd. -/
def freeProcessFd (s : FdState) (p : Nat) (procFd : Int) : FdState :=
  match s.getFdTable p with
  | none => s
  | some (id,fdt) => if isValidProcessFd fdt procFd = false then s else s.setTable id (fdt.clear procFd.toNat)

/-- DisassociateProcessFd. -/
def disassociateProcessFd (s : FdState) (p : Nat) (procFd : Int) : Int × FdState :=
  match s.getFdTable p with
  | none => (VFS_ERROR,s)
  | some (id,fdt) =>
    if isValidProcessFd fdt procFd = false then (VFS_ERROR,s)
    else if fdt.sysFd procFd.toNat < 0 then (VFS_ERROR,s)
    else if MIN_START_FD ≤ procFd then
      (fdt.sysFd procFd.toNat,s.setTable id { fdt with sysFd := Function.update fdt.sysFd procFd.toNat (-1) })
    else (fdt.sysFd procFd.toNat,s)

/-- AllocLowestProcessFd. -/
def allocLowestProcessFd (s : FdState) (p : Nat) (minFd : Int) : Int × FdState :=
  match s.getFdTable p with
  | none => (VFS_ERROR,s)
  | some (id,fdt) =>
    match assignProcessFd fdt (max minFd MIN_START_FD).toNat with
    | none => (VFS_ERROR,s)
    | some d => (d,s.setTable id { fdt with procFds := Function.update fdt.procFds d true })

/-- AllocAndAssocProcessFd. -/
def allocAndAssocProcessFd (s : FdState) (p : Nat) (sysFd minFd : Int) : Int × FdState :=
  match s.getFdTable p with
  | none => (VFS_ERROR,s)
  | some (id,fdt) =>
    match assignProcessFd fdt (max minFd MIN_START_FD).toNat with
    | none => (VFS_ERROR,s)
    | some d => (d,s.setTable id (fdt.occupy d sysFd))

end FdState

/-- The kinds of system descriptors that have a reference count. -/
def isFile (sysFd : Int) : Bool := decide (STDERR_FILENO < sysFd ∧ sysFd < CONFIG_NFILE_DESCRIPTORS)

namespace FdConfig

def isSocket (cfg : FdConfig) (sysFd : Int) : Bool :=
  cfg.lwip && decide (CONFIG_NFILE_DESCRIPTORS ≤ sysFd ∧ sysFd < CONFIG_NFILE_DESCRIPTORS + cfg.nsocket)

def isMqueue (cfg : FdConfig) (sysFd : Int) : Bool :=
  cfg.posix && decide (cfg.mqueueFdOffset ≤ sysFd ∧ sysFd < cfg.mqueueFdOffset + cfg.nqueue)

end FdConfig

namespace FdState

/-- The references that FdRefer takes; isOpen says whether the queue of a queue descriptor is there. -/
def fdRefer (s : FdState) (sysFd : Int) (isOpen : Bool) : Int :=
  (if isFile sysFd then 1 else 0) + (if s.cfg.isSocket sysFd then 1 else 0) + (if s.cfg.isMqueue sysFd && isOpen then 1 else 0)

/-- The references that FdClose gives back, none for a file once the target is inactive. -/
def fdClose (s : FdState) (sysFd : Int) (targetPid : Nat) (isOpen : Bool) : Int :=
  (if isFile sysFd && !(s.procs targetPid).inactive then 1 else 0) + (if s.cfg.isSocket sysFd then 1 else 0) +
    (if s.cfg.isMqueue sysFd && isOpen then 1 else 0)

def addRefs (s : FdState) (sysFd n : Int) : FdState := { s with refs := Function.update s.refs sysFd (s.refs sysFd + n) }

/-- GetProcessFTable: the table whose semaphore is then waited for. -/
def getProcessFTable (s : FdState) (pid : Nat) : Option Nat := if (s.procs pid).inactive then none else (s.procs pid).files

end FdState

/-- Where a call to CopyFdToProc or CloseProcFd stands. -/
inductive FdPc where
  | copyGet (p : Nat) (fd : Int) (target : Nat)
  | copyRefer (sysFd : Int) (target : Nat)
  | copyTable (sysFd : Int) (target : Nat)
  | copyAssign (sysFd : Int) (target id : Nat)
  | copyUndo (sysFd : Int) (target : Nat) (code : Int)
  | closeTable (procFd : Int) (target : Nat)
  | closeClear (procFd : Int) (target id : Nat)
  | closeRefs (sysFd : Int) (target : Nat)
  | done (result : Int)
  deriving DecidableEq

/-- One step of CopyFdToProc or CloseProcFd: where the call stands then, and the state. answer is that of the semaphore, or whether the
queue of a queue descriptor is there. -/
def fdStep (s : FdState) (answer : Bool) : FdPc → FdPc × FdState
  | .copyGet p fd target =>
    if s.processMaxNum ≤ target then (.done (-EINVAL),s)
    else
      let sysFd := s.getAssociatedSystemFd p fd
      if sysFd < 0 then (.done (-EBADF),s) else (.copyRefer sysFd target,s)
  | .copyRefer sysFd target => (.copyTable sysFd target,s.addRefs sysFd (s.fdRefer sysFd answer))
  | .copyTable sysFd target =>
    match s.getProcessFTable target with
    | none => (.copyUndo sysFd target EPERM,s)
    | some id => (.copyAssign sysFd target id,s)
  | .copyAssign sysFd target id =>
    match s.tables id with
    | none => (.copyUndo sysFd target ESRCH,s)
    | some fdt =>
      if answer = false then (.copyUndo sysFd target ESRCH,s)
      else
        match assignProcessFd fdt 3 with
        | none => (.copyUndo sysFd target EPERM,s)
        | some d => (.done d,s.setTable id (fdt.occupy d sysFd))
  | .copyUndo sysFd target code => (.done (-code),s.addRefs sysFd (-s.fdClose sysFd target answer))
  | .closeTable procFd target =>
    if s.processMaxNum ≤ target then (.done (-EINVAL),s)
    else
      match s.getProcessFTable target with
      | none => (.done (-EPERM),s)
      | some id => (.closeClear procFd target id,s)
  | .closeClear procFd target id =>
    match s.tables id with
    | none => (.done (-ESRCH),s)
    | some fdt =>
      if answer = false then (.done (-ESRCH),s)
      else if isValidProcessFd fdt procFd = false then (.done (-EPERM),s)
      else if fdt.sysFd procFd.toNat < 0 then (.done (-EPERM),s)
      else (.closeRefs (fdt.sysFd procFd.toNat) target,s.setTable id (fdt.clear procFd.toNat))
  | .closeRefs sysFd target => (.done OK,s.addRefs sysFd (-s.fdClose sysFd target answer))
  | .done result => (.done result,s)

end LiteOsKernel.Fs
