import LiteOsKernel.Vm.Map

/-! The memory system calls of los_vm_syscall.c on the regions of a user space. -/
namespace LiteOsKernel.Vm
open Rbtree LosVmSpace

def PROT_READ : Nat := 1
def PROT_WRITE : Nat := 2
def PROT_EXEC : Nat := 4
def MAP_SHARED : Nat := 0x01
def MAP_PRIVATE : Nat := 0x02
def MAP_FIXED : Nat := 0x10
def MAP_ANONYMOUS : Nat := 0x20
def MAP_FIXED_NOREPLACE : Nat := 0x100000
def MREMAP_MAYMOVE : Nat := 1
def MREMAP_FIXED : Nat := 2
def O_RDONLY : Nat := 0
def O_WRONLY : Nat := 1
def O_RDWR : Nat := 2
def O_ACCMODE : Nat := 3
def O_APPEND : Nat := 0x400

def isAligned (a b : Nat) : Bool := a &&& (b - 1) = 0

/-- What a bit of flags contributes. -/
def flagIf (flags bit value : Nat) : Nat := if flags &&& bit ≠ 0 then value else 0

def osCvtProtFlagsToRegionFlags (prot flags : Nat) : Nat :=
  VM_MAP_REGION_FLAG_PERM_USER |||
  flagIf prot PROT_READ VM_MAP_REGION_FLAG_PERM_READ |||
  flagIf prot PROT_WRITE (VM_MAP_REGION_FLAG_PERM_READ ||| VM_MAP_REGION_FLAG_PERM_WRITE) |||
  flagIf prot PROT_EXEC (VM_MAP_REGION_FLAG_PERM_READ ||| VM_MAP_REGION_FLAG_PERM_EXECUTE) |||
  flagIf flags MAP_SHARED VM_MAP_REGION_FLAG_SHARED |||
  flagIf flags MAP_PRIVATE VM_MAP_REGION_FLAG_PRIVATE |||
  flagIf flags MAP_FIXED VM_MAP_REGION_FLAG_FIXED |||
  flagIf flags MAP_FIXED_NOREPLACE VM_MAP_REGION_FLAG_FIXED_NOREPLACE

def losIsUserAddress (vaddr : Nat) : Bool :=
  USER_ASPACE_BASE ≤ vaddr && vaddr ≤ USER_ASPACE_BASE + (USER_ASPACE_SIZE - 1)

def losIsUserAddressRange (vaddr len : Nat) : Bool :=
  vaddr < Word.add vaddr len && losIsUserAddress vaddr && losIsUserAddress (Word.sub (Word.add vaddr len) 1)

def losIsNamedMapping (flags : Nat) : Bool := flags &&& MAP_ANONYMOUS = 0

/-- The checks of LOS_MMap on the rounded length; the address may be rounded or dropped. MAP_SUPPORT_MASK
is a constant of the C library. -/
def osCheckMMapParams (mapSupportMask : Nat) (s : LosVmSpace) (vaddr flags len pgoff : Nat) : Except Int Nat :=
  if len = 0 ∨ USER_ASPACE_SIZE < len then .error (-EINVAL)
  else if s.mapSize < len then .error (-ENOMEM)
  else
    let fixed := flags &&& MAP_FIXED ≠ 0 ∨ flags &&& MAP_FIXED_NOREPLACE ≠ 0
    let rounded := roundup vaddr PAGE_SIZE
    let vaddr' := if fixed then vaddr else if rounded ≠ 0 ∧ losIsUserAddressRange rounded len = false then 0 else rounded
    if fixed ∧ (losIsUserAddressRange vaddr len = false ∨ isAligned vaddr PAGE_SIZE = false) then .error (-EINVAL)
    else if flags &&& mapSupportMask = 0 then .error (-EINVAL)
    else if flags &&& (MAP_SHARED ||| MAP_PRIVATE) = 0 ∨
        flags &&& (MAP_SHARED ||| MAP_PRIVATE) = MAP_SHARED ||| MAP_PRIVATE then .error (-EINVAL)
    else if Word.add (len >>> PAGE_SHIFT) pgoff < pgoff then .error (-EINVAL)
    else .ok vaddr'

/-- An open file: mmap says whether the file has an mmap operation, and whether that succeeds. -/
structure File where
  fOflags : Nat
  vnode : Nat
  isDev : Bool
  mmap : Option Bool

def osNamedMmapingPermCheck (filep : File) (flags prot : Nat) : Int :=
  if filep.fOflags &&& O_RDWR = 0 ∧ filep.fOflags &&& O_ACCMODE ≠ O_RDONLY then -EACCES
  else if flags &&& MAP_SHARED ≠ 0 then
    if filep.fOflags &&& O_APPEND ≠ 0 ∧ prot &&& PROT_WRITE ≠ 0 then -EACCES
    else if prot &&& PROT_WRITE ≠ 0 ∧ filep.fOflags &&& O_RDWR = 0 then -EACCES
    else 0
  else 0

/-- OsNamedMMap: the region after it, or nothing where it fails. -/
def osNamedMMap (filep : File) (r : LosVmMapRegion) : Option LosVmMapRegion :=
  match filep.mmap with
  | some true =>
    if filep.isDev then some { r with regionType := .dev }
    else some { r with regionType := .file, vnode := filep.vnode, fOflags := filep.fOflags }
  | _ => none

/-- The mapping of the new region: of a file, or anonymous. -/
def mmapRegion (filep : Option File) (flags : Nat) (r : LosVmMapRegion) : Option LosVmMapRegion :=
  if losIsNamedMapping flags then filep.bind fun f => osNamedMMap f r else some { r with regionType := .anon }

/-- The checks of LOS_MMap on the file behind the descriptor. -/
def mmapFileCheck (filep : Option File) (flags prot : Nat) : Int :=
  if losIsNamedMapping flags then
    match filep with
    | none => -EBADF
    | some f => osNamedMmapingPermCheck f flags prot
  else 0

/-- LOS_MMap; filep is the file behind the descriptor, if there is one. -/
def losMMap (mapSupportMask depth : Nat) (s : LosVmSpace) (vaddr len prot flags : Nat) (filep : Option File) (pgoff : Nat) :
    LosVmSpace × Int :=
  let len := roundup len PAGE_SIZE
  match osCheckMMapParams mapSupportMask s vaddr flags len pgoff with
  | .error e => (s,e)
  | .ok vaddr =>
    if mmapFileCheck filep flags prot < 0 then (s,mmapFileCheck filep flags prot)
    else if osUserHeapFree s vaddr = 0 then (s,vaddr)
    else
      let regionFlags := osCvtProtFlagsToRegionFlags prot flags
      let (s,newRegion) := losRegionAlloc (losUnMMap depth) s vaddr len regionFlags pgoff
      if newRegion = 0 then (s,-ENOMEM)
      else
        let r := s.region newRegion
        let r := { r with regionFlags := r.regionFlags ||| VM_MAP_REGION_FLAG_MMAP }
        match mmapRegion filep flags r with
        | some r' => (s.setRegion newRegion r',r.range.base)
        | none =>
          let s := { s with regionRbTree := losRbDelNode s.regionRbTree newRegion }
          ((losRegionFree s newRegion).1,-ENOMEM)

def osShrinkHeap (depth : Nat) (s : LosVmSpace) (addr : Nat) : LosVmSpace × Int :=
  let newBrk := losAlign addr PAGE_SIZE
  let oldBrk := losAlign s.heapNow PAGE_SIZE
  let (s,status) := losUnMMap depth s newBrk (Word.sub oldBrk newBrk)
  if status < 0 then (s,s.heapNow) else ({ s with heapNow := addr },addr)

/-- The size that LOS_DoBrk gives the heap. -/
def brkSize (s : LosVmSpace) (addr : Nat) : Nat := roundup (Word.sub addr s.heapBase) PAGE_SIZE

def losDoBrk (depth : Nat) (s : LosVmSpace) (addr : Nat) : LosVmSpace × Int :=
  if addr = 0 then (s,s.heapNow)
  else if addr < s.heapBase then (s,-ENOMEM)
  else
    let size := brkSize s addr
    let alignAddr := Word.add s.heapBase size
    if addr < s.heapNow then osShrinkHeap depth s addr
    else if s.mapBase ≤ alignAddr then (s,-ENOMEM)
    else
      let alloc :=
        if s.heapBase = s.heapNow then
          let (s,region) := losRegionAlloc (losUnMMap depth) s s.heapBase size
            (VM_MAP_REGION_FLAG_PERM_READ ||| VM_MAP_REGION_FLAG_PERM_WRITE ||| VM_MAP_REGION_FLAG_FIXED |||
              VM_MAP_REGION_FLAG_PERM_USER) 0
          if region = 0 then (s,false)
          else
            let r := s.region region
            ({ s.setRegion region { r with regionFlags := r.regionFlags ||| VM_MAP_REGION_FLAG_HEAP } with heap := region },true)
        else (s,true)
      match alloc with
      | (s,false) => (s,-ENOMEM)
      | (s,true) =>
        let s := { s with heapNow := alignAddr }
        let r := s.region s.heap
        (s.setRegion s.heap { r with range := ⟨r.range.base,size⟩ },s.heapNow)

def osInheritOldRegionName (oldRegionFlags : Nat) : Nat :=
  if oldRegionFlags &&& VM_MAP_REGION_FLAG_HEAP ≠ 0 then VM_MAP_REGION_FLAG_HEAP
  else if oldRegionFlags &&& VM_MAP_REGION_FLAG_STACK ≠ 0 then VM_MAP_REGION_FLAG_STACK
  else if oldRegionFlags &&& VM_MAP_REGION_FLAG_TEXT ≠ 0 then VM_MAP_REGION_FLAG_TEXT
  else if oldRegionFlags &&& VM_MAP_REGION_FLAG_VDSO ≠ 0 then VM_MAP_REGION_FLAG_VDSO
  else if oldRegionFlags &&& VM_MAP_REGION_FLAG_MMAP ≠ 0 then VM_MAP_REGION_FLAG_MMAP
  else if oldRegionFlags &&& VM_MAP_REGION_FLAG_SHM ≠ 0 then VM_MAP_REGION_FLAG_SHM
  else if oldRegionFlags &&& VM_MAP_REGION_FLAG_LITEIPC ≠ 0 then VM_MAP_REGION_FLAG_LITEIPC
  else 0

def osProtMprotectPermCheck (prot : Nat) (r : LosVmMapRegion) : Bool :=
  let permFlags :=
    (if r.fOflags &&& O_ACCMODE ≠ O_RDONLY then 0 else VM_MAP_REGION_FLAG_PERM_READ) |||
    flagIf r.fOflags O_WRONLY VM_MAP_REGION_FLAG_PERM_WRITE |||
    flagIf r.fOflags O_RDWR (VM_MAP_REGION_FLAG_PERM_READ ||| VM_MAP_REGION_FLAG_PERM_WRITE)
  let protFlags := flagIf prot PROT_READ VM_MAP_REGION_FLAG_PERM_READ ||| flagIf prot PROT_WRITE VM_MAP_REGION_FLAG_PERM_WRITE
  protFlags &&& permFlags = protFlags

/-- LOS_DoMprotect; changeProt is the status of LOS_ArchMmuChangeProt. -/
def losDoMprotect (depth : Nat) (s : LosVmSpace) (vaddr len prot : Nat) (changeProt : Int) : LosVmSpace × Int :=
  let region := losRegionFind s vaddr
  let r := s.region region
  if isAligned vaddr PAGE_SIZE = false ∨ region = 0 ∨ Word.add vaddr len < vaddr then (s,-EINVAL)
  else if prot &&& Word.not (PROT_READ ||| PROT_WRITE ||| PROT_EXEC) ≠ 0 then (s,-EINVAL)
  else if r.regionFlags &&& VM_MAP_REGION_FLAG_VDSO ≠ 0 ∨ r.regionFlags &&& VM_MAP_REGION_FLAG_HEAP ≠ 0 ∨
      r.regionFlags &&& VM_MAP_REGION_FLAG_LITEIPC ≠ 0 then (s,-EPERM)
  else if r.regionType = .file ∧ r.regionFlags &&& VM_MAP_REGION_FLAG_SHARED ≠ 0 ∧ osProtMprotectPermCheck prot r = false then
    (s,-EACCES)
  else
    let len := losAlign len PAGE_SIZE
    if Word.add r.range.base r.range.size < Word.add vaddr len then (s,-EINVAL)
    else
      let s := if len < r.range.size then (osVmRegionAdjust (losUnMMap depth) s vaddr len).1 else s
      let r := s.region region
      let vmFlags := osCvtProtFlagsToRegionFlags prot 0 |||
        flagIf r.regionFlags VM_MAP_REGION_FLAG_SHARED VM_MAP_REGION_FLAG_SHARED ||| osInheritOldRegionName r.regionFlags
      let region := losRegionFind s vaddr
      if region = 0 then (s,-ENOMEM)
      else
        let s := s.setRegion region { s.region region with regionFlags := vmFlags }
        (s,if changeProt ≠ 0 then -ENOMEM else 0)

def osMremapCheck (s : LosVmSpace) (addr oldLen newAddr newLen flags : Nat) : Int :=
  let region := losRegionFind s addr
  let r := (s.region region).range
  if region = 0 ∨ addr < r.base ∨ newLen = 0 then -EINVAL
  else if flags &&& Word.not (MREMAP_FIXED ||| MREMAP_MAYMOVE) ≠ 0 then -EINVAL
  else if flags &&& MREMAP_FIXED = MREMAP_FIXED ∧ flags &&& MREMAP_MAYMOVE = 0 then -EINVAL
  else if isAligned addr PAGE_SIZE = false then -EINVAL
  else if Word.sub (Word.add r.base r.size) addr < oldLen then -EFAULT
  else if oldLen < newLen ∧ Word.add addr newLen < addr then -EINVAL
  else if flags &&& MREMAP_FIXED ≠ 0 ∧ newAddr < Word.add r.base r.size ∧ r.base < Word.add newAddr newLen then -EINVAL
  else if flags &&& MREMAP_FIXED ≠ 0 ∧ isAligned newAddr PAGE_SIZE = false then -EINVAL
  else 0

/-- The end of a move: the new region is given up where LOS_ArchMmuMove fails, else the old one. -/
def finishMove (s : LosVmSpace) (regionOld regionNew : Nat) (mmuMove : Int) (ret : Nat) : LosVmSpace × Int :=
  if mmuMove ≠ 0 then ((losRegionFree s regionNew).1,-ENOMEM) else ((losRegionFree s regionOld).1,ret)

/-- LOS_DoMremap; mmuMove is the status of LOS_ArchMmuMove. -/
def losDoMremap (depth : Nat) (s : LosVmSpace) (oldAddress oldSize newSize flags newAddr : Nat) (mmuMove : Int) : LosVmSpace × Int :=
  let oldSize := losAlign oldSize PAGE_SIZE
  let newSize := losAlign newSize PAGE_SIZE
  let status := osMremapCheck s oldAddress oldSize newAddr newSize flags
  if status ≠ 0 then (s,status)
  else
    let (s,status) := osVmRegionAdjust (losUnMMap depth) s oldAddress oldSize
    if status ≠ 0 then (s,-ENOMEM)
    else
      let regionOld := losRegionFind s oldAddress
      if regionOld = 0 then (s,-ENOMEM)
      else if flags &&& MREMAP_FIXED ≠ 0 then
        let (s,regionNew) := osVmRegionDup (losUnMMap depth) s regionOld newAddr newSize
        if regionNew = 0 then (s,-ENOMEM) else finishMove s regionOld regionNew mmuMove newAddr
      else if newSize < oldSize then
        ((losUnMMap depth s (Word.add oldAddress newSize) (oldSize - newSize)).1,oldAddress)
      else if osIsRegionCanExpand s regionOld newSize = 0 then
        let r := s.region regionOld
        (s.setRegion regionOld { r with range := ⟨r.range.base,newSize⟩ },oldAddress)
      else if flags &&& MREMAP_MAYMOVE ≠ 0 then
        let (s,regionNew) := osVmRegionDup (losUnMMap depth) s regionOld 0 newSize
        if regionNew = 0 then (s,-ENOMEM) else finishMove s regionOld regionNew mmuMove (s.region regionNew).range.base
      else (s,-EINVAL)

end LiteOsKernel.Vm
