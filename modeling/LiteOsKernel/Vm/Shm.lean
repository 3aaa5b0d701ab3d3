import LiteOsKernel.Common
import Mathlib.Logic.Function.Basic

/-! System V shared memory (shm.c): segments, their keys, and the page count and quota that are charged for them. A call runs under
the lock of the segments; the time stamps are left out. -/
namespace LiteOsKernel.Vm.Shm

def SHM_MNI : Nat := 192
def SHM_MIN : Nat := 1
def SHM_MAX : Nat := 4096*PAGE_SIZE
def SHM_ALL : Nat := 4096
def IPC_PRIVATE : Int := 0
def IPC_CREAT : Nat := 0x200
def IPC_EXCL : Nat := 0x400
def S_IRWXU : Nat := 0x1C0
def S_IRWXG : Nat := 0x38
def S_IRWXO : Nat := 0x7
def ACCESSPERMS : Nat := 0x1FF
def SHM_M : Nat := 0x1000
def SHM_R : Nat := 0x100
def SHM_W : Nat := 0x80
def SHM_X : Nat := 0x40
def SHM_GROUPE_TO_USER : Nat := 3
def SHM_OTHER_TO_USER : Nat := 6
def EPERM : Int := 1
def ENOENT : Int := 2
def ENOMEM : Int := 12
def EACCES : Int := 13
def EEXIST : Int := 17
def EINVAL : Int := 22
def ENOSPC : Int := 28
def EIDRM : Int := 43

/-- The bits of the status of a segment. -/
structure Status where
  free : Bool
  used : Bool
  remove : Bool
  deriving DecidableEq

def SHM_SEG_FREE : Status := ⟨true,false,false⟩

/-- shmIDSource: node is the number of pages on the list of the segment. -/
structure ShmIDSource where
  key : Int
  uid : Nat
  gid : Nat
  cuid : Nat
  cgid : Nat
  mode : Nat
  segsz : Nat
  cpid : Nat
  nattch : Nat
  status : Status
  node : Nat
  deriving DecidableEq

/-- ProcIPCLimit, as far as shared memory is concerned. -/
structure ProcIPCLimit where
  shmSize : Nat
  shmFailedCount : Nat
  shmSizeLimit : Nat
  deriving DecidableEq

/-- The segments and what is charged: limitStat by process, limits by limiter, and the limiter of each process. -/
structure ShmState where
  segs : Nat → ShmIDSource
  usedPageCount : Nat
  limitStat : Nat → Nat
  limits : Nat → ProcIPCLimit
  plimits : Nat → Nat

/-- The process that makes a call. -/
structure Caller where
  pid : Nat
  uid : Nat
  gid : Nat
  groups : List Nat

/-- What a call ends with: an id, an error code, or a fault in the kernel. -/
inductive ShmResult where
  | id (shmid : Nat)
  | error (code : Int)
  | fault
  deriving DecidableEq

def ShmResult.IsId : ShmResult → Prop
  | .id _ => True
  | _ => False

namespace ShmState

def setSeg (s : ShmState) (i : Nat) (seg : ShmIDSource) : ShmState := { s with segs := Function.update s.segs i seg }

/-- OsIPCLimitShmAlloc; false is EINVAL. -/
def osIPCLimitShmAlloc (s : ShmState) (c : Caller) (size : Nat) : Bool × ShmState :=
  let l := s.plimits c.pid
  let limit := s.limits l
  if limit.shmSizeLimit ≤ Word.add limit.shmSize size then
    (false,{ s with limits := Function.update s.limits l { limit with shmFailedCount := Word.add limit.shmFailedCount 1 } })
  else
    (true,{ s with
      limitStat := Function.update s.limitStat c.pid (Word.add (s.limitStat c.pid) size)
      limits := Function.update s.limits l { limit with shmSize := Word.add limit.shmSize size } })

/-- OsIPCLimitShmFree, for the process that runs. -/
def osIPCLimitShmFree (s : ShmState) (c : Caller) (size : Nat) : ShmState :=
  let l := s.plimits c.pid
  { s with
    limits := Function.update s.limits l { s.limits l with shmSize := Word.sub (s.limits l).shmSize size }
    limitStat := Function.update s.limitStat c.pid (Word.sub (s.limitStat c.pid) size) }

/-- The first free segment. -/
def findFree (s : ShmState) : Option Nat := (List.range SHM_MNI).find? fun i => (s.segs i).status.free

/-- ShmAllocSegCheck: the rounded size and the number of the segment. -/
def shmAllocSegCheck (s : ShmState) (c : Caller) (size : Nat) : Except Int (Nat × Nat) × ShmState :=
  if size = 0 ∨ size < SHM_MIN ∨ SHM_MAX < size then (.error EINVAL,s)
  else
    let size := losAlign size PAGE_SIZE
    if SHM_ALL < Word.add s.usedPageCount (size >>> PAGE_SHIFT) then (.error ENOMEM,s)
    else
      match s.osIPCLimitShmAlloc c size with
      | (false,s) => (.error ENOMEM,s)
      | (true,s) =>
        match s.findFree with
        | none => (.error ENOSPC,s)
        | some i => (.ok (size,i),s.setSeg i { s.segs i with status := { (s.segs i).status with free := false } })

/-- ShmAllocSeg, with the number of pages that can be had. -/
def shmAllocSeg (s : ShmState) (c : Caller) (key : Int) (size shmflg pages : Nat) : ShmResult × ShmState :=
  match s.shmAllocSegCheck c size with
  | (.error e,s) => (.error e,s)
  | (.ok (size,i),s) =>
    let count := min pages (size >>> PAGE_SHIFT)
    if count ≠ size >>> PAGE_SHIFT then
      let s := s.setSeg i { s.segs i with status := SHM_SEG_FREE, node := 0 }
      (.error ENOMEM,s.osIPCLimitShmFree c size)
    else
      let seg := s.segs i
      let s := { s with usedPageCount := Word.add s.usedPageCount (size >>> PAGE_SHIFT) }
      (.id i,s.setSeg i
        { key := key, uid := c.uid, gid := c.gid, cuid := c.uid, cgid := c.gid, mode := shmflg &&& ACCESSPERMS, segsz := size,
          cpid := c.pid, nattch := 0, status := { seg.status with used := true }, node := seg.node + count })

/-- ShmFreeSeg. -/
def shmFreeSeg (s : ShmState) (c : Caller) (i : Nat) : ShmState :=
  let seg := s.segs i
  if seg.node ≠ seg.segsz >>> PAGE_SHIFT then s.setSeg i { seg with node := 0 }
  else
    let s := s.osIPCLimitShmFree c seg.segsz
    let s := { s with usedPageCount := Word.sub s.usedPageCount (seg.segsz >>> PAGE_SHIFT) }
    s.setSeg i { seg with status := SHM_SEG_FREE, node := 0 }

/-- ShmFindSegByKey. -/
def shmFindSegByKey (s : ShmState) (key : Int) : Option Nat :=
  (List.range SHM_MNI).find? fun i => (s.segs i).status.used && (s.segs i).key = key

/-- ShmSegValidCheck. -/
def shmSegValidCheck (s : ShmState) (i size shmflg : Nat) : ShmResult :=
  if (s.segs i).segsz < size then .error EINVAL
  else if shmflg &&& (IPC_CREAT ||| IPC_EXCL) = (IPC_CREAT ||| IPC_EXCL) then .error EEXIST
  else .id i

/-- ShmFindSeg. -/
def shmFindSeg (s : ShmState) (shmid : Int) : Except Int Nat :=
  if shmid < 0 ∨ SHM_MNI ≤ shmid then .error EINVAL
  else
    let seg := s.segs shmid.toNat
    if seg.status.free = true ∨ seg.nattch = 0 ∧ seg.status.remove = true then .error EIDRM else .ok shmid.toNat

/-- ShmPermCheck. -/
def shmPermCheck (seg : ShmIDSource) (c : Caller) (mode : Nat) : Int :=
  let (tmpMode,privMode,accMode) :=
    if c.uid = seg.uid ∨ c.uid = seg.cuid then (SHM_M,seg.mode,mode &&& S_IRWXU)
    else if seg.gid ∈ c.groups ∨ seg.cgid ∈ c.groups then
      (0,seg.mode <<< SHM_GROUPE_TO_USER,(mode &&& S_IRWXG) <<< SHM_GROUPE_TO_USER)
    else (0,seg.mode <<< SHM_OTHER_TO_USER,(mode &&& S_IRWXO) <<< SHM_OTHER_TO_USER)
  let tmpMode := if privMode &&& SHM_R ≠ 0 then tmpMode ||| SHM_R else tmpMode
  let tmpMode := if privMode &&& SHM_W ≠ 0 then tmpMode ||| SHM_W else tmpMode
  let tmpMode := if privMode &&& SHM_X ≠ 0 then tmpMode ||| SHM_X else tmpMode
  if mode = SHM_M ∧ tmpMode &&& SHM_M ≠ 0 then 0
  else if mode = SHM_M then EACCES
  else if tmpMode &&& accMode = accMode then 0
  else EACCES

/-- ShmGet. -/
def shmGet (s : ShmState) (c : Caller) (key : Int) (size shmflg pages : Nat) : ShmResult × ShmState :=
  if key = IPC_PRIVATE then s.shmAllocSeg c key size shmflg pages
  else
    match s.shmFindSegByKey key with
    | none => if shmflg &&& IPC_CREAT = 0 then (.error ENOENT,s) else s.shmAllocSeg c key size shmflg pages
    | some i =>
      if shmflg &&& IPC_CREAT ≠ 0 ∧ shmflg &&& IPC_EXCL ≠ 0 then (.error EEXIST,s)
      else
        match s.shmFindSeg i with
        | .error _ => (.fault,s)
        | .ok i =>
          if shmPermCheck (s.segs i) c (shmflg &&& ACCESSPERMS) ≠ 0 then
            (.error (shmPermCheck (s.segs i) c (shmflg &&& ACCESSPERMS)),s)
          else (s.shmSegValidCheck i size shmflg,s)

/-- ShmCtl with IPC_RMID. -/
def shmCtlRmid (s : ShmState) (c : Caller) (shmid : Int) : ShmResult × ShmState :=
  match s.shmFindSeg shmid with
  | .error e => (.error e,s)
  | .ok i =>
    let seg := s.segs i
    if shmPermCheck seg c SHM_M ≠ 0 then (.error EPERM,s)
    else
      let s := s.setSeg i { seg with status := { seg.status with remove := true } }
      if seg.nattch = 0 then (.id 0,s.shmFreeSeg c i) else (.id 0,s)

/-- What ShmAt does to the segment, with the access that it asks for and the error of ShmatVmmAlloc if there is one. -/
def shmAt (s : ShmState) (c : Caller) (shmid : Int) (accMode : Nat) (region : Option Int) : ShmResult × ShmState :=
  match s.shmFindSeg shmid with
  | .error e => (.error e,s)
  | .ok i =>
    let seg := s.segs i
    if shmPermCheck seg c accMode ≠ 0 then (.error (shmPermCheck seg c accMode),s)
    else
      match region with
      | some e => (.error e,s)
      | none => (.id i,s.setSeg i { seg with nattch := seg.nattch + 1 })

/-- What OsShmFork does to the segment of a region. -/
def osShmFork (s : ShmState) (shmid : Int) : ShmState :=
  match s.shmFindSeg shmid with
  | .error _ => s
  | .ok i => s.setSeg i { s.segs i with nattch := (s.segs i).nattch + 1 }

/-- What ShmDt and OsShmRegionFree do to the segment of a region. -/
def shmDt (s : ShmState) (c : Caller) (shmid : Int) : ShmState :=
  match s.shmFindSeg shmid with
  | .error _ => s
  | .ok i =>
    let seg := s.segs i
    let s := s.setSeg i { seg with nattch := seg.nattch - 1 }
    if seg.nattch - 1 = 0 ∧ seg.status.remove = true then s.shmFreeSeg c i else s

end ShmState

end LiteOsKernel.Vm.Shm
