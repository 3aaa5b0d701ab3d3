import LiteOsKernel.Common
import LiteOsKernel.Rbtree.Rbtree

/-! Regions of a user address space, after los_vm_map.c: search, allocation of ranges, splitting and
removal, over the red-black tree of the regions. -/
namespace LiteOsKernel.Vm
open Rbtree

def EPERM : Int := 1
def EBADF : Int := 9
def ENOMEM : Int := 12
def EACCES : Int := 13
def EFAULT : Int := 14
def EINVAL : Int := 22
def LOS_ERRNO_VM_NO_MEMORY : Int := -5
def LOS_ERRNO_VM_INVALID_ARGS : Int := -8

def KERNEL_ASPACE_BASE : Nat := 0x40000000
def USER_ASPACE_BASE : Nat := 0x01000000
def USER_ASPACE_SIZE : Nat := KERNEL_ASPACE_BASE - USER_ASPACE_BASE - 0x01000000
def USER_ASPACE_TOP_MAX : Nat := USER_ASPACE_BASE + USER_ASPACE_SIZE
def USER_HEAP_BASE : Nat := USER_ASPACE_TOP_MAX >>> 2
def USER_MAP_BASE : Nat := USER_ASPACE_TOP_MAX >>> 1
def USER_MAP_SIZE : Nat := USER_ASPACE_SIZE >>> 3

def VM_MAP_REGION_FLAG_PERM_USER : Nat := 1 <<< 2
def VM_MAP_REGION_FLAG_PERM_READ : Nat := 1 <<< 3
def VM_MAP_REGION_FLAG_PERM_WRITE : Nat := 1 <<< 4
def VM_MAP_REGION_FLAG_PERM_EXECUTE : Nat := 1 <<< 5
def VM_MAP_REGION_FLAG_SHARED : Nat := 1 <<< 7
def VM_MAP_REGION_FLAG_PRIVATE : Nat := 1 <<< 8
def VM_MAP_REGION_FLAG_STACK : Nat := 1 <<< 9
def VM_MAP_REGION_FLAG_HEAP : Nat := 1 <<< 10
def VM_MAP_REGION_FLAG_TEXT : Nat := 1 <<< 12
def VM_MAP_REGION_FLAG_VDSO : Nat := 1 <<< 14
def VM_MAP_REGION_FLAG_MMAP : Nat := 1 <<< 15
def VM_MAP_REGION_FLAG_SHM : Nat := 1 <<< 16
def VM_MAP_REGION_FLAG_FIXED : Nat := 1 <<< 17
def VM_MAP_REGION_FLAG_FIXED_NOREPLACE : Nat := 1 <<< 18
def VM_MAP_REGION_FLAG_LITEIPC : Nat := 1 <<< 19

structure LosVmMapRange where
  base : Nat
  size : Nat
  deriving DecidableEq, Inhabited

/-- VM_MAP_REGION_TYPE_NONE, _ANON, _FILE and _DEV. -/
inductive RegionType where
  | none
  | anon
  | file
  | dev
  deriving DecidableEq, Inhabited

/-- fOflags and vnode are those of unTypeData.rf. -/
structure LosVmMapRegion where
  range : LosVmMapRange
  pgOff : Nat
  regionFlags : Nat
  shmid : Nat
  regionType : RegionType
  fOflags : Nat
  vnode : Nat
  deriving DecidableEq, Inhabited

/-- A user space. The regions are the keys of the nodes of regionRbTree, and heap is the address of a
node. used lists the addresses that hold descriptors, with that of the sentinel, and memAlloc what the
coming calls of LOS_MemAlloc find. -/
structure LosVmSpace where
  regionRbTree : LosRbTree LosVmMapRegion
  base : Nat
  size : Nat
  heapBase : Nat
  heapNow : Nat
  heap : Nat
  mapBase : Nat
  mapSize : Nat
  used : List Nat
  memAlloc : List Nat

/-- OsUserVmSpaceInit with the tree at sentinel nilT, over any memory. -/
def osUserVmSpaceInit (nilT : Nat) (node : Nat → LosRbNode) (key : Nat → LosVmMapRegion) (memAlloc : List Nat) : LosVmSpace where
  regionRbTree := losRbInitTree nilT node key (fun _ => default)
  base := USER_ASPACE_BASE
  size := USER_ASPACE_SIZE
  heapBase := USER_HEAP_BASE
  heapNow := USER_HEAP_BASE
  heap := 0
  mapBase := USER_MAP_BASE
  mapSize := USER_MAP_SIZE
  used := [nilT]
  memAlloc := memAlloc

namespace LosVmSpace

def region (s : LosVmSpace) (p : Nat) : LosVmMapRegion := s.regionRbTree.key p

def setRegion (s : LosVmSpace) (p : Nat) (r : LosVmMapRegion) : LosVmSpace :=
  { s with regionRbTree := { s.regionRbTree with key := fun q => if q = p then r else s.regionRbTree.key q } }

end LosVmSpace
open LosVmSpace

/-- LOS_MemAlloc for a descriptor: NULL, or memory that is not in use. -/
def losMemAlloc (s : LosVmSpace) : LosVmSpace × Nat :=
  match s.memAlloc with
  | [] => (s,0)
  | p :: ps =>
    if p = 0 ∨ p ∈ s.used then ({ s with memAlloc := ps },0)
    else ({ s with memAlloc := ps, used := p :: s.used },p)

def losMemFree (s : LosVmSpace) (p : Nat) : LosVmSpace := { s with used := s.used.erase p }

def losRegionEndAddr (r : LosVmMapRegion) : Nat := Word.sub (Word.add r.range.base r.range.size) 1

def losRegionSize (start last : Nat) : Nat := Word.add (Word.sub last start) 1

def osRegionRbCmpKeyFn (a b : LosVmMapRegion) : Cmp :=
  let startA := a.range.base
  let endA := losRegionEndAddr a
  let startB := b.range.base
  let endB := losRegionEndAddr b
  if endB < startA then .bigger
  else if startB ≤ startA then
    if endA ≤ endB then .equal else .bigger
  else if startA ≤ startB then
    if endB ≤ endA then .equal else .smaller
  else if endA < startB then .smaller
  else .equal

/-- The key of a search. -/
def rangeKey (vaddr len : Nat) : LosVmMapRegion := { (default : LosVmMapRegion) with range := ⟨vaddr,len⟩ }

def osFindRegion (regionRbTree : LosRbTree LosVmMapRegion) (vaddr len : Nat) : Nat :=
  match losRbGetNode osRegionRbCmpKeyFn regionRbTree (rangeKey vaddr len) with
  | (true,p) => p
  | (false,_) => 0

def losRegionFind (s : LosVmSpace) (addr : Nat) : Nat := osFindRegion s.regionRbTree addr 1

def losRegionRangeFind (s : LosVmSpace) (addr len : Nat) : Nat := osFindRegion s.regionRbTree addr len

/-- The loop of OsAllocRange from a node on: the start of a large enough gap, or the end of the last region. -/
def allocScan (t : LosRbTree LosVmMapRegion) (len : Nat) : Nat → Nat → Nat → Bool × Nat
  | 0, _, curEnd => (false,curEnd)
  | fuel + 1, node, curEnd =>
    if node = 0 then (false,curEnd)
    else
      let nextStart := (t.key node).range.base
      if nextStart < curEnd then allocScan t len fuel (losRbSuccessorNode t node) curEnd
      else if len ≤ nextStart - curEnd then (true,curEnd)
      else allocScan t len fuel (losRbSuccessorNode t node) (Word.add (t.key node).range.base (t.key node).range.size)

def osAllocRange (s : LosVmSpace) (len : Nat) : Nat :=
  let t := s.regionRbTree
  let curRegion := losRegionFind s s.mapBase
  let found :=
    if curRegion ≠ 0 then
      allocScan t len (t.ulNodes + 1) curRegion (Word.add (s.region curRegion).range.base (s.region curRegion).range.size)
    else allocScan t len (t.ulNodes + 1) (losRbFirstNode t) s.mapBase
  match found with
  | (true,curEnd) => curEnd
  | (false,curEnd) =>
    let nextStart := Word.add s.mapBase s.mapSize
    if curEnd ≤ nextStart ∧ len ≤ nextStart - curEnd then curEnd else 0

def losIsRangeInSpace (s : LosVmSpace) (vaddr size : Nat) : Bool :=
  let last := Word.sub (Word.add s.base s.size) 1
  if vaddr < s.base ∨ last < vaddr then false
  else if size = 0 then true
  else if Word.sub (Word.add vaddr size) 1 < vaddr then false
  else if last < Word.sub (Word.add vaddr size) 1 then false
  else true

/-- LOS_UnMMap, which OsAllocSpecificRange calls, is a parameter: the two call each other. -/
def osAllocSpecificRange (unMMap : LosVmSpace → Nat → Nat → LosVmSpace × Int) (s : LosVmSpace) (vaddr len regionFlags : Nat) :
    LosVmSpace × Nat :=
  if losIsRangeInSpace s vaddr len = false then (s,0)
  else if losRegionFind s vaddr ≠ 0 ∨ losRegionFind s (Word.sub (Word.add vaddr len) 1) ≠ 0 ∨
      losRegionRangeFind s vaddr (Word.sub len 1) ≠ 0 then
    if regionFlags &&& VM_MAP_REGION_FLAG_FIXED_NOREPLACE ≠ 0 then (s,0)
    else if regionFlags &&& VM_MAP_REGION_FLAG_FIXED ≠ 0 then
      let (s,status) := unMMap s vaddr len
      if status ≠ 0 then (s,0) else (s,vaddr)
    else (s,osAllocRange s len)
  else (s,vaddr)

def osInsertRegion (s : LosVmSpace) (region : Nat) : LosVmSpace × Bool :=
  let (t,ok) := losRbAddNode osRegionRbCmpKeyFn s.regionRbTree region
  ({ s with regionRbTree := t },ok)

/-- A zeroed descriptor with the range, the flags and the page offset; shmid is -1. -/
def osCreateRegion (s : LosVmSpace) (vaddr len regionFlags offset : Nat) : LosVmSpace × Nat :=
  let (s,region) := losMemAlloc s
  if region = 0 then (s,0)
  else
    let s := { s with regionRbTree := s.regionRbTree.setNode region { pstParent := 0, pstRight := 0, pstLeft := 0, lColor := .red } }
    (s.setRegion region
      { range := ⟨vaddr,len⟩, pgOff := offset, regionFlags := regionFlags, shmid := 0xFFFFFFFF, regionType := .none,
        fOflags := 0, vnode := 0 },region)

def losRegionAlloc (unMMap : LosVmSpace → Nat → Nat → LosVmSpace × Int) (s : LosVmSpace) (vaddr len regionFlags pgoff : Nat) :
    LosVmSpace × Nat :=
  let (s,rstVaddr) :=
    if vaddr = 0 then (s,osAllocRange s len) else osAllocSpecificRange unMMap s vaddr len regionFlags
  if rstVaddr = 0 then (s,0)
  else
    let (s,newRegion) := osCreateRegion s rstVaddr len regionFlags pgoff
    if newRegion = 0 then (s,0)
    else
      let (s,isInsertSucceed) := osInsertRegion s newRegion
      if isInsertSucceed = false then (losMemFree s newRegion,0) else (s,newRegion)

/-- LOS_RegionFree, without the pages of the region. -/
def losRegionFree (s : LosVmSpace) (region : Nat) : LosVmSpace × Int :=
  if region = 0 then (s,LOS_ERRNO_VM_INVALID_ARGS)
  else (losMemFree { s with regionRbTree := losRbDelNode s.regionRbTree region } region,0)

def osVmRegionDup (unMMap : LosVmSpace → Nat → Nat → LosVmSpace × Int) (s : LosVmSpace) (oldRegion vaddr size : Nat) :
    LosVmSpace × Nat :=
  let old := s.region oldRegion
  let regionFlags :=
    if vaddr = 0 then
      old.regionFlags &&& Word.not (VM_MAP_REGION_FLAG_FIXED ||| VM_MAP_REGION_FLAG_FIXED_NOREPLACE)
    else old.regionFlags ||| VM_MAP_REGION_FLAG_FIXED
  let (s,newRegion) := losRegionAlloc unMMap s vaddr size regionFlags old.pgOff
  if newRegion = 0 then (s,0)
  else
    let old := s.region oldRegion
    let new := { s.region newRegion with regionType := old.regionType }
    let new := if old.regionFlags &&& VM_MAP_REGION_FLAG_SHM ≠ 0 then { new with shmid := old.shmid } else new
    let new := if old.regionType = .file then { new with vnode := old.vnode, fOflags := old.fOflags } else new
    (s.setRegion newRegion new,newRegion)

def osVmRegionSplit (unMMap : LosVmSpace → Nat → Nat → LosVmSpace × Int) (s : LosVmSpace) (oldRegion newRegionStart : Nat) :
    LosVmSpace × Nat :=
  let old := s.region oldRegion
  let size := losRegionSize newRegionStart (losRegionEndAddr old)
  let oldSize := losRegionSize old.range.base (Word.sub newRegionStart 1)
  let s := s.setRegion oldRegion { old with range := ⟨old.range.base,oldSize⟩ }
  let s := if oldSize = 0 then { s with regionRbTree := losRbDelNode s.regionRbTree oldRegion } else s
  let (s,newRegion) := osVmRegionDup unMMap s oldRegion newRegionStart size
  if newRegion = 0 then (s,0)
  else
    let old := s.region oldRegion
    (s.setRegion newRegion { s.region newRegion with
      pgOff := Word.add old.pgOff (Word.sub newRegionStart old.range.base >>> PAGE_SHIFT) },newRegion)

/-- The first half of OsVmRegionAdjust: a region that starts before newRegionStart is split there. -/
def adjustStart (unMMap : LosVmSpace → Nat → Nat → LosVmSpace × Int) (s : LosVmSpace) (newRegionStart : Nat) : LosVmSpace × Int :=
  let region := losRegionFind s newRegionStart
  if region ≠ 0 ∧ (s.region region).range.base < newRegionStart then
    let (s,newRegion) := osVmRegionSplit unMMap s region newRegionStart
    if newRegion = 0 then (s,LOS_ERRNO_VM_NO_MEMORY) else (s,0)
  else (s,0)

/-- The second half of OsVmRegionAdjust: a region that goes on after nextRegionBase is split there. -/
def adjustEnd (unMMap : LosVmSpace → Nat → Nat → LosVmSpace × Int) (s : LosVmSpace) (nextRegionBase : Nat) : LosVmSpace × Int :=
  let region := losRegionFind s (Word.sub nextRegionBase 1)
  if region ≠ 0 ∧ nextRegionBase < losRegionEndAddr (s.region region) then
    let (s,newRegion) := osVmRegionSplit unMMap s region nextRegionBase
    if newRegion = 0 then (s,LOS_ERRNO_VM_NO_MEMORY) else (s,0)
  else (s,0)

def osVmRegionAdjust (unMMap : LosVmSpace → Nat → Nat → LosVmSpace × Int) (s : LosVmSpace) (newRegionStart size : Nat) :
    LosVmSpace × Int :=
  let nextRegionBase := Word.add newRegionStart size
  let (s,status) := adjustStart unMMap s newRegionStart
  if status ≠ 0 then (s,status) else adjustEnd unMMap s nextRegionBase

/-- The loop of OsRegionsRemove at a node, with the next node fetched before the body. -/
def removeScan (regionBase regionEnd : Nat) : Nat → LosVmSpace → Nat → Nat → LosVmSpace
  | 0, s, _, _ => s
  | fuel + 1, s, node, next =>
    if node = 0 then s
    else if regionEnd < (s.region node).range.base then s
    else
      let s :=
        if regionBase ≤ (s.region node).range.base ∧ losRegionEndAddr (s.region node) ≤ regionEnd then (losRegionFree s node).1
        else s
      removeScan regionBase regionEnd fuel s next (losRbSuccessorNode s.regionRbTree next)

def osRegionsRemove (unMMap : LosVmSpace → Nat → Nat → LosVmSpace × Int) (s : LosVmSpace) (regionBase size : Nat) :
    LosVmSpace × Int :=
  let regionEnd := Word.sub (Word.add regionBase size) 1
  let (s,status) := osVmRegionAdjust unMMap s regionBase size
  if status ≠ 0 then (s,status)
  else
    let t := s.regionRbTree
    (removeScan regionBase regionEnd (t.ulNodes + 1) s (losRbFirstNode t) (losRbSuccessorNode t (losRbFirstNode t)),0)

def osUnMMap (unMMap : LosVmSpace → Nat → Nat → LosVmSpace × Int) (s : LosVmSpace) (addr size : Nat) : LosVmSpace × Int :=
  let size := losAlign size PAGE_SIZE
  let addr := losAlign addr PAGE_SIZE
  let (s,status) := osRegionsRemove unMMap s addr size
  (s,if status ≠ 0 then -EINVAL else status)

/-- LOS_UnMMap with calls of itself nested at most depth deep. -/
def losUnMMap : Nat → LosVmSpace → Nat → Nat → LosVmSpace × Int
  | 0, s, _, _ => (s,-EINVAL)
  | depth + 1, s, addr, size =>
    if addr = 0 ∨ size = 0 then (s,-EINVAL) else osUnMMap (losUnMMap depth) s addr size

/-- OsUserHeapFree, without the pages. -/
def osUserHeapFree (s : LosVmSpace) (addr : Nat) : Int :=
  if s.heap = 0 then -1
  else if losRegionFind s addr = 0 then -1
  else if losRegionFind s addr = s.heap then 0
  else -1

def osIsRegionCanExpand (s : LosVmSpace) (region size : Nat) : Int :=
  let nextRegion := losRbSuccessorNode s.regionRbTree region
  if nextRegion ≠ 0 ∧ size ≤ Word.sub (s.region nextRegion).range.base (s.region region).range.base then 0 else 1

end LiteOsKernel.Vm
