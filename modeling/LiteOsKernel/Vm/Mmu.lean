import LiteOsKernel.Vm.Map

/-! The page table of an address space, after los_arch_mmu.c and los_pte_ops.h without SMP and fine locks: query, unmap,
map and change of protection over the two levels of translation tables. -/
namespace LiteOsKernel.Vm

def LOS_ERRNO_VM_NOT_FOUND : Int := -2
def LOS_ERRNO_VM_TIMED_OUT : Int := -13
def LOS_ERRNO_VM_FAULT : Int := -40
def TRY_MAX_TIMES : Nat := 10

def VM_MAP_REGION_FLAG_CACHED : Nat := 0
def VM_MAP_REGION_FLAG_UNCACHED : Nat := 1
def VM_MAP_REGION_FLAG_UNCACHED_DEVICE : Nat := 2
def VM_MAP_REGION_FLAG_STRONGLY_ORDERED : Nat := 3
def VM_MAP_REGION_FLAG_CACHE_MASK : Nat := 3
def VM_MAP_REGION_FLAG_NS : Nat := 1 <<< 6

def MMU_DESCRIPTOR_L1_TYPE_INVALID : Nat := 0
def MMU_DESCRIPTOR_L1_TYPE_PAGE_TABLE : Nat := 1
def MMU_DESCRIPTOR_L1_TYPE_SECTION : Nat := 2
def MMU_DESCRIPTOR_L1_TYPE_MASK : Nat := 3
def MMU_DESCRIPTOR_L1_SMALL_SIZE : Nat := 0x100000
def MMU_DESCRIPTOR_L1_SMALL_SHIFT : Nat := 20
def MMU_DESCRIPTOR_L1_SMALL_L2_TABLES_PER_PAGE : Nat := 4
def MMU_DESCRIPTOR_L1_SMALL_DOMAIN_MASK : Nat := Word.not (0x0f <<< 5)
def MMU_DESCRIPTOR_L1_SMALL_DOMAIN_CLIENT : Nat := 1 <<< 5
def MMU_DESCRIPTOR_L1_PAGETABLE_NON_SECURE : Nat := 1 <<< 3
def MMU_DESCRIPTOR_L1_SECTION_NON_SECURE : Nat := 1 <<< 19
def MMU_DESCRIPTOR_L1_SECTION_NON_GLOBAL : Nat := 1 <<< 17
def MMU_DESCRIPTOR_L1_SECTION_XN : Nat := 1 <<< 4
def MMU_DESCRIPTOR_L1_TEX_SHIFT : Nat := 12
def MMU_DESCRIPTOR_L1_AP2_SHIFT : Nat := 15
def MMU_DESCRIPTOR_L1_AP01_SHIFT : Nat := 10
def MMU_DESCRIPTOR_L2_TYPE_LARGE_PAGE : Nat := 1
def MMU_DESCRIPTOR_L2_TYPE_SMALL_PAGE : Nat := 2
def MMU_DESCRIPTOR_L2_TYPE_SMALL_PAGE_XN : Nat := 3
def MMU_DESCRIPTOR_L2_TYPE_MASK : Nat := 3
def MMU_DESCRIPTOR_L2_SMALL_SIZE : Nat := 0x1000
def MMU_DESCRIPTOR_L2_SMALL_SHIFT : Nat := 12
def MMU_DESCRIPTOR_L2_NUMBERS_PER_L1 : Nat := MMU_DESCRIPTOR_L1_SMALL_SIZE >>> MMU_DESCRIPTOR_L2_SMALL_SHIFT
def MMU_DESCRIPTOR_L2_NON_GLOBAL : Nat := 1 <<< 11
def MMU_DESCRIPTOR_L2_TEX_SHIFT : Nat := 6
def MMU_DESCRIPTOR_L2_AP2_SHIFT : Nat := 9
def MMU_DESCRIPTOR_L2_AP01_SHIFT : Nat := 4

def mmuDescriptorL1SectionAddr (x : Nat) : Nat := x &&& Word.not (MMU_DESCRIPTOR_L1_SMALL_SIZE - 1)

def mmuDescriptorL1PageTableAddr (x : Nat) : Nat := x &&& Word.not ((1 <<< 10) - 1)

def mmuDescriptorL2SmallPageAddr (x : Nat) : Nat := x &&& Word.not (MMU_DESCRIPTOR_L2_SMALL_SIZE - 1)

/-- The first-level table by index and the words of the second-level tables by physical address: kernel addresses are a
fixed shift of these. ptList holds the pages of the second-level tables by address, and physPages what the coming calls of
LOS_PhysPageAlloc find. -/
structure LosArchMmu where
  virtTtb : Nat → Nat
  pte2 : Nat → Nat
  ptList : List Nat
  physPages : List Nat

namespace LosArchMmu

def savePte1 (m : LosArchMmu) (i pte1 : Nat) : LosArchMmu :=
  { m with virtTtb := Function.update m.virtTtb i pte1 }

def savePte2 (m : LosArchMmu) (addr pte2 : Nat) : LosArchMmu :=
  { m with pte2 := Function.update m.pte2 addr pte2 }

end LosArchMmu
open LosArchMmu

def osGetPte1Index (va : Nat) : Nat := va >>> MMU_DESCRIPTOR_L1_SMALL_SHIFT

def osGetPte1 (m : LosArchMmu) (va : Nat) : Nat := m.virtTtb (osGetPte1Index va)

def osIsPte1PageTable (pte1 : Nat) : Bool := pte1 &&& MMU_DESCRIPTOR_L1_TYPE_MASK = MMU_DESCRIPTOR_L1_TYPE_PAGE_TABLE

def osIsPte1Invalid (pte1 : Nat) : Bool := pte1 &&& MMU_DESCRIPTOR_L1_TYPE_MASK = MMU_DESCRIPTOR_L1_TYPE_INVALID

def osIsPte1Section (pte1 : Nat) : Bool := pte1 &&& MMU_DESCRIPTOR_L1_TYPE_MASK = MMU_DESCRIPTOR_L1_TYPE_SECTION

def osGetPte2Index (va : Nat) : Nat := (va % MMU_DESCRIPTOR_L1_SMALL_SIZE) >>> MMU_DESCRIPTOR_L2_SMALL_SHIFT

/-- The address of an entry of a second-level table. -/
def pte2Addr (pte2BasePtr index : Nat) : Nat := pte2BasePtr + 4*index

def osIsPte2SmallPage (pte2 : Nat) : Bool := pte2 &&& MMU_DESCRIPTOR_L2_TYPE_MASK = MMU_DESCRIPTOR_L2_TYPE_SMALL_PAGE

def osIsPte2SmallPageXN (pte2 : Nat) : Bool := pte2 &&& MMU_DESCRIPTOR_L2_TYPE_MASK = MMU_DESCRIPTOR_L2_TYPE_SMALL_PAGE_XN

def osIsPte2LargePage (pte2 : Nat) : Bool := pte2 &&& MMU_DESCRIPTOR_L2_TYPE_MASK = MMU_DESCRIPTOR_L2_TYPE_LARGE_PAGE

/-- LOS_PaddrToKVaddr: NULL for the address 0 only. -/
def losPaddrToKVaddr (paddr : Nat) : Option Nat := if paddr = 0 then none else some paddr

def osGetPte2BasePtr (pte1 : Nat) : Option Nat := losPaddrToKVaddr (mmuDescriptorL1PageTableAddr pte1)

/-- OsSavePte2Continuous, with the number of entries it saved. -/
def osSavePte2Continuous (pte2BasePtr : Nat) : Nat → LosArchMmu → Nat → Nat → LosArchMmu × Nat
  | 0, m, _, _ => (m,0)
  | count + 1, m, index, pte2 =>
    let m := m.savePte2 (pte2Addr pte2BasePtr index) pte2
    if index + 1 = MMU_DESCRIPTOR_L2_NUMBERS_PER_L1 then (m,1)
    else
      let (m,saveCounts) := osSavePte2Continuous pte2BasePtr count m (index + 1) (Word.add pte2 MMU_DESCRIPTOR_L2_SMALL_SIZE)
      (m,saveCounts + 1)

def osClearPte2Continuous (pte2BasePtr : Nat) : Nat → LosArchMmu → Nat → LosArchMmu
  | 0, m, _ => m
  | count + 1, m, index => osClearPte2Continuous pte2BasePtr count (m.savePte2 (pte2Addr pte2BasePtr index) 0) (index + 1)

/-- LOS_PhysPageAlloc for a page of tables: NULL, or a page that is not in use. -/
def ptPageAlloc (m : LosArchMmu) : LosArchMmu × Nat :=
  match m.physPages with
  | [] => (m,0)
  | page :: rest => if page ∈ m.ptList then ({ m with physPages := rest },0) else ({ m with physPages := rest },page)

-- Query and unmap. In all of them none is LOS_Panic, which does not return

/-- LOS_ArchMmuQuery: the status and what paddr holds afterwards. -/
def losArchMmuQuery (m : LosArchMmu) (vaddr paddr : Nat) : Option (Int × Nat) :=
  let l1Entry := osGetPte1 m vaddr
  if osIsPte1Invalid l1Entry then some (LOS_ERRNO_VM_NOT_FOUND,paddr)
  else if osIsPte1Section l1Entry then
    some (0,Word.add (mmuDescriptorL1SectionAddr l1Entry) (vaddr &&& (MMU_DESCRIPTOR_L1_SMALL_SIZE - 1)))
  else if osIsPte1PageTable l1Entry then
    match osGetPte2BasePtr l1Entry with
    | none => some (LOS_ERRNO_VM_NOT_FOUND,paddr)
    | some l2Base =>
      let l2Entry := m.pte2 (pte2Addr l2Base (osGetPte2Index vaddr))
      if osIsPte2SmallPage l2Entry || osIsPte2SmallPageXN l2Entry then
        some (0,Word.add (mmuDescriptorL2SmallPageAddr l2Entry) (vaddr &&& (MMU_DESCRIPTOR_L2_SMALL_SIZE - 1)))
      else if osIsPte2LargePage l2Entry then none
      else some (LOS_ERRNO_VM_NOT_FOUND,paddr)
  else some (0,paddr)

/-- The entries of the four first-level descriptors whose tables share a page. -/
def siblingEntries (m : LosArchMmu) (l1Index : Nat) : List Nat :=
  (List.range MMU_DESCRIPTOR_L1_SMALL_L2_TABLES_PER_PAGE).map fun index =>
    m.virtTtb (l1Index / MMU_DESCRIPTOR_L1_SMALL_L2_TABLES_PER_PAGE * MMU_DESCRIPTOR_L1_SMALL_L2_TABLES_PER_PAGE + index)

/-- OsPutL2Table gives back the page at l2Paddr once no table is left in it; it panics where LOS_VmPageGet does not know the
page, which is one of ptList. -/
def osPutL2Table (m : LosArchMmu) (l1Index l2Paddr : Nat) : Option LosArchMmu :=
  if (siblingEntries m l1Index).any osIsPte1PageTable then some m
  else
    let page := l2Paddr / MMU_DESCRIPTOR_L2_SMALL_SIZE * MMU_DESCRIPTOR_L2_SMALL_SIZE
    if page ∈ m.ptList then some { m with ptList := m.ptList.erase page } else none

/-- The scan of OsTryUnmapL1PTE: what is left of scanCount at the first entry in use, or 0. -/
def scanPte2 (m : LosArchMmu) (pte2BasePtr : Nat) : Nat → Nat → Nat
  | 0, _ => 0
  | scanCount + 1, scanIndex =>
    let scanIndex := if scanIndex = MMU_DESCRIPTOR_L2_NUMBERS_PER_L1 then 0 else scanIndex
    if m.pte2 (pte2Addr pte2BasePtr scanIndex) ≠ 0 then scanCount + 1 else scanPte2 m pte2BasePtr scanCount (scanIndex + 1)

def osTryUnmapL1PTE (m : LosArchMmu) (vaddr scanIndex scanCount : Nat) : Option LosArchMmu :=
  let l1Entry := osGetPte1 m vaddr
  match osGetPte2BasePtr l1Entry with
  | none => some m
  | some pte2BasePtr =>
    if scanPte2 m pte2BasePtr scanCount scanIndex ≠ 0 then some m
    else if osIsPte1PageTable l1Entry = false then some m
    else osPutL2Table (m.savePte1 (osGetPte1Index vaddr) 0) (osGetPte1Index vaddr) (mmuDescriptorL1PageTableAddr l1Entry)

/-- OsUnmapL1Invalid: the entries it skips. -/
def osUnmapL1Invalid (vaddr count : Nat) : Nat :=
  min ((MMU_DESCRIPTOR_L1_SMALL_SIZE - vaddr % MMU_DESCRIPTOR_L1_SMALL_SIZE) >>> MMU_DESCRIPTOR_L2_SMALL_SHIFT) count

/-- OsUnmapL2PTE: the table, unmapCount, and count afterwards. -/
def osUnmapL2PTE (m : LosArchMmu) (vaddr count : Nat) : LosArchMmu × Nat × Nat :=
  let unmapCount := min (MMU_DESCRIPTOR_L2_NUMBERS_PER_L1 - osGetPte2Index vaddr) count
  match osGetPte2BasePtr (osGetPte1 m vaddr) with
  | none => (m,unmapCount,count)
  | some pte2BasePtr => (osClearPte2Continuous pte2BasePtr unmapCount m (osGetPte2Index vaddr),unmapCount,count - unmapCount)

/-- OsUnmapSection: the table, vaddr, count and the number of entries. -/
def osUnmapSection (m : LosArchMmu) (vaddr count : Nat) : LosArchMmu × Nat × Nat × Nat :=
  if osIsPte1Section (osGetPte1 m vaddr) = false then (m,vaddr,count,0)
  else
    (m.savePte1 (osGetPte1Index vaddr) 0,Word.add vaddr MMU_DESCRIPTOR_L1_SMALL_SIZE,
      Word.sub count MMU_DESCRIPTOR_L2_NUMBERS_PER_L1,MMU_DESCRIPTOR_L2_NUMBERS_PER_L1)

/-- The body of LOS_ArchMmuUnmap: the table, vaddr, count and unmapCount after it. -/
def unmapStep (m : LosArchMmu) (vaddr count : Nat) : Option (LosArchMmu × Nat × Nat × Nat) :=
  let l1Entry := osGetPte1 m vaddr
  if osIsPte1Invalid l1Entry then
    let unmapCount := osUnmapL1Invalid vaddr count
    some (m,Word.add vaddr (unmapCount <<< MMU_DESCRIPTOR_L2_SMALL_SHIFT),count - unmapCount,unmapCount)
  else if osIsPte1Section l1Entry then
    if vaddr % MMU_DESCRIPTOR_L1_SMALL_SIZE = 0 ∧ MMU_DESCRIPTOR_L2_NUMBERS_PER_L1 ≤ count then some (osUnmapSection m vaddr count)
    else none
  else if osIsPte1PageTable l1Entry then do
    let (m,unmapCount,count) := osUnmapL2PTE m vaddr count
    let m ← osTryUnmapL1PTE m vaddr (osGetPte2Index vaddr + unmapCount) MMU_DESCRIPTOR_L2_NUMBERS_PER_L1
    some (m,Word.add vaddr (unmapCount <<< MMU_DESCRIPTOR_L2_SMALL_SHIFT),count,unmapCount)
  else none

/-- The loop of LOS_ArchMmuUnmap. -/
def unmapLoop : Nat → LosArchMmu → Nat → Nat → Nat → Int → Option (LosArchMmu × Int)
  | 0, _, _, _, _, _ => none
  | fuel + 1, m, vaddr, count, tryTime, unmapped =>
    if count = 0 then some (m,unmapped)
    else do
      let (m,vaddr,count,unmapCount) ← unmapStep m vaddr count
      let tryTime := if unmapCount = 0 then tryTime - 1 else tryTime
      if tryTime = 0 then some (m,LOS_ERRNO_VM_FAULT) else unmapLoop fuel m vaddr count tryTime (unmapped + unmapCount)

/-- LOS_ArchMmuUnmap. A round that leaves both count and tryTime passes a first-level entry with no table; after 4096
of them in a row the loop does not end. -/
def losArchMmuUnmap (m : LosArchMmu) (vaddr count : Nat) : Option (LosArchMmu × Int) :=
  unmapLoop ((count + TRY_MAX_TIMES)*4097 + 1) m vaddr count TRY_MAX_TIMES 0

-- Map

/-- What the cache bits of the flags are in a descriptor whose type extension starts at bit tex. -/
def cacheFlagsToMMUFlags (tex flags : Nat) : Nat :=
  let cache := flags &&& VM_MAP_REGION_FLAG_CACHE_MASK
  if cache = VM_MAP_REGION_FLAG_CACHED then 1 <<< tex ||| 3 <<< 2
  else if cache = VM_MAP_REGION_FLAG_STRONGLY_ORDERED then 0
  else if cache = VM_MAP_REGION_FLAG_UNCACHED then 1 <<< tex
  else if cache = VM_MAP_REGION_FLAG_UNCACHED_DEVICE then 1 <<< 2
  else Word.sub 0 8

/-- What the permissions are in a descriptor with the access bits AP2 and AP01. -/
def accessFlagsToMMUFlags (ap2 ap01 flags : Nat) : Nat :=
  let user := flags &&& VM_MAP_REGION_FLAG_PERM_USER ≠ 0
  let read := flags &&& VM_MAP_REGION_FLAG_PERM_READ ≠ 0
  if flags &&& VM_MAP_REGION_FLAG_PERM_WRITE ≠ 0 then if user then 3 <<< ap01 else 1 <<< ap01
  else if user ∧ read then 1 <<< ap2 ||| 3 <<< ap01
  else if user ∨ read then 1 <<< ap2 ||| 1 <<< ap01
  else 0

def osCvtSecCacheFlagsToMMUFlags (flags : Nat) : Nat := cacheFlagsToMMUFlags MMU_DESCRIPTOR_L1_TEX_SHIFT flags

def osCvtSecAccessFlagsToMMUFlags (flags : Nat) : Nat :=
  accessFlagsToMMUFlags MMU_DESCRIPTOR_L1_AP2_SHIFT MMU_DESCRIPTOR_L1_AP01_SHIFT flags

def osCvtPte2CacheFlagsToMMUFlags (flags : Nat) : Nat := cacheFlagsToMMUFlags MMU_DESCRIPTOR_L2_TEX_SHIFT flags

def osCvtPte2AccessFlagsToMMUFlags (flags : Nat) : Nat :=
  accessFlagsToMMUFlags MMU_DESCRIPTOR_L2_AP2_SHIFT MMU_DESCRIPTOR_L2_AP01_SHIFT flags

def osCvtSecFlagsToAttrs (flags : Nat) : Nat :=
  let mmuFlags := osCvtSecCacheFlagsToMMUFlags flags
  if mmuFlags = Word.sub 0 8 then mmuFlags
  else
    mmuFlags ||| MMU_DESCRIPTOR_L1_SMALL_DOMAIN_CLIENT ||| osCvtSecAccessFlagsToMMUFlags flags |||
      (if flags &&& VM_MAP_REGION_FLAG_PERM_EXECUTE = 0 then MMU_DESCRIPTOR_L1_SECTION_XN else 0) |||
      (if flags &&& VM_MAP_REGION_FLAG_NS ≠ 0 then MMU_DESCRIPTOR_L1_SECTION_NON_SECURE else 0) |||
      (if flags &&& VM_MAP_REGION_FLAG_PERM_USER ≠ 0 then MMU_DESCRIPTOR_L1_SECTION_NON_GLOBAL else 0)

def osCvtPte2FlagsToAttrs (flags : Nat) : Nat :=
  let mmuFlags := osCvtPte2CacheFlagsToMMUFlags flags
  if mmuFlags = Word.sub 0 8 then mmuFlags
  else
    mmuFlags ||| osCvtPte2AccessFlagsToMMUFlags flags |||
      (if flags &&& VM_MAP_REGION_FLAG_PERM_EXECUTE = 0 then MMU_DESCRIPTOR_L2_TYPE_SMALL_PAGE_XN
        else MMU_DESCRIPTOR_L2_TYPE_SMALL_PAGE) |||
      (if flags &&& VM_MAP_REGION_FLAG_PERM_USER ≠ 0 then MMU_DESCRIPTOR_L2_NON_GLOBAL else 0)

/-- OsMapParamCheck; the first check panics. -/
def osMapParamCheck (flags vaddr paddr : Nat) : Option Int :=
  if flags &&& VM_MAP_REGION_FLAG_NS ≠ 0 then none
  else if vaddr % MMU_DESCRIPTOR_L2_SMALL_SIZE ≠ 0 ∨ paddr % MMU_DESCRIPTOR_L2_SMALL_SIZE ≠ 0 then some LOS_ERRNO_VM_INVALID_ARGS
  else some 0

/-- The memset of a new page for tables. -/
def zeroPage (m : LosArchMmu) (paddr : Nat) : LosArchMmu :=
  { m with pte2 := fun a => if paddr ≤ a ∧ a < paddr + MMU_DESCRIPTOR_L2_SMALL_SIZE then 0 else m.pte2 a }

/-- OsGetL2Table: the status, and the address of the table where it is 0. -/
def osGetL2Table (m : LosArchMmu) (l1Index : Nat) : LosArchMmu × Int × Nat :=
  let l2Offset := MMU_DESCRIPTOR_L2_SMALL_SIZE / MMU_DESCRIPTOR_L1_SMALL_L2_TABLES_PER_PAGE *
    (l1Index % MMU_DESCRIPTOR_L1_SMALL_L2_TABLES_PER_PAGE)
  match (siblingEntries m l1Index).find? osIsPte1PageTable with
  | some ttEntry => (m,0,Word.add (mmuDescriptorL2SmallPageAddr (mmuDescriptorL1PageTableAddr ttEntry)) l2Offset)
  | none =>
    let (m,page) := ptPageAlloc m
    if page = 0 then (m,LOS_ERRNO_VM_NO_MEMORY,0)
    else (zeroPage { m with ptList := page :: m.ptList } page,0,Word.add page l2Offset)

/-- The body of LOS_ArchMmuMap is one of three functions: the table, vaddr, paddr, count and saveCounts after it. -/
abbrev MapStep : Type := LosArchMmu × Nat × Nat × Nat × Nat

/-- The end of OsMapL1PTE and of OsMapL2PageContinous. -/
def mapPages (m : LosArchMmu) (pte2BasePtr vaddr paddr count flags : Nat) : MapStep :=
  let (m,saveCounts) :=
    osSavePte2Continuous pte2BasePtr count m (osGetPte2Index vaddr) (paddr ||| osCvtPte2FlagsToAttrs flags)
  (m,Word.add vaddr (saveCounts <<< MMU_DESCRIPTOR_L2_SMALL_SHIFT),Word.add paddr (saveCounts <<< MMU_DESCRIPTOR_L2_SMALL_SHIFT),
    count - saveCounts,saveCounts)

def osMapSection (m : LosArchMmu) (vaddr paddr count flags : Nat) : MapStep :=
  (m.savePte1 (osGetPte1Index vaddr)
      (mmuDescriptorL1SectionAddr paddr ||| osCvtSecFlagsToAttrs flags ||| MMU_DESCRIPTOR_L1_TYPE_SECTION),
    Word.add vaddr MMU_DESCRIPTOR_L1_SMALL_SIZE,Word.add paddr MMU_DESCRIPTOR_L1_SMALL_SIZE,
    Word.sub count MMU_DESCRIPTOR_L2_NUMBERS_PER_L1,MMU_DESCRIPTOR_L2_NUMBERS_PER_L1)

/-- OsMapL1PTE; a write through NULL is a fault. -/
def osMapL1PTE (m : LosArchMmu) (vaddr paddr count flags : Nat) : Option MapStep :=
  if osIsPte1Invalid (osGetPte1 m vaddr) = false then some (m,vaddr,paddr,count,0)
  else do
    let (m,status,pte2Base) := osGetL2Table m (osGetPte1Index vaddr)
    if status ≠ 0 then none
    else
      let l1Entry := pte2Base ||| MMU_DESCRIPTOR_L1_TYPE_PAGE_TABLE
      let l1Entry := if flags &&& VM_MAP_REGION_FLAG_NS ≠ 0 then l1Entry ||| MMU_DESCRIPTOR_L1_PAGETABLE_NON_SECURE else l1Entry
      let l1Entry := l1Entry &&& MMU_DESCRIPTOR_L1_SMALL_DOMAIN_MASK ||| MMU_DESCRIPTOR_L1_SMALL_DOMAIN_CLIENT
      let pte2BasePtr ← losPaddrToKVaddr pte2Base
      some (mapPages (m.savePte1 (osGetPte1Index vaddr) l1Entry) pte2BasePtr vaddr paddr count flags)

def osMapL2PageContinous (m : LosArchMmu) (vaddr paddr count flags : Nat) : MapStep :=
  match osGetPte2BasePtr (osGetPte1 m vaddr) with
  | none => (m,vaddr,paddr,count,0)
  | some pte2BasePtr => mapPages m pte2BasePtr vaddr paddr count flags

def mapStep (m : LosArchMmu) (vaddr paddr count flags : Nat) : Option MapStep :=
  if vaddr % MMU_DESCRIPTOR_L1_SMALL_SIZE = 0 ∧ paddr % MMU_DESCRIPTOR_L1_SMALL_SIZE = 0 ∧
      MMU_DESCRIPTOR_L2_NUMBERS_PER_L1 ≤ count then some (osMapSection m vaddr paddr count flags)
  else if osIsPte1Invalid (osGetPte1 m vaddr) then osMapL1PTE m vaddr paddr count flags
  else if osIsPte1PageTable (osGetPte1 m vaddr) then some (osMapL2PageContinous m vaddr paddr count flags)
  else none

/-- The loop of LOS_ArchMmuMap: every round takes from count or from tryTime. -/
def mapLoop (flags : Nat) : Nat → LosArchMmu → Nat → Nat → Nat → Nat → Int → Option (LosArchMmu × Int)
  | 0, _, _, _, _, _, _ => none
  | fuel + 1, m, vaddr, paddr, count, tryTime, mapped =>
    if count = 0 then some (m,mapped)
    else do
      let (m,vaddr,paddr,count,saveCounts) ← mapStep m vaddr paddr count flags
      let tryTime := if saveCounts = 0 then tryTime - 1 else tryTime
      if tryTime = 0 then some (m,LOS_ERRNO_VM_TIMED_OUT)
      else mapLoop flags fuel m vaddr paddr count tryTime (mapped + saveCounts)

def losArchMmuMap (m : LosArchMmu) (vaddr paddr count flags : Nat) : Option (LosArchMmu × Int) := do
  let checkRst ← osMapParamCheck flags vaddr paddr
  if checkRst < 0 then some (m,checkRst) else mapLoop flags (count + TRY_MAX_TIMES + 1) m vaddr paddr count TRY_MAX_TIMES 0

/-- The loop of LOS_ArchMmuChangeProt. -/
def changeProtLoop (flags : Nat) : Nat → LosArchMmu → Nat → Nat → Option (LosArchMmu × Int)
  | 0, m, _, _ => some (m,0)
  | count + 1, m, vaddr, paddr => do
    let (status,paddr) ← losArchMmuQuery m vaddr paddr
    if status ≠ 0 then changeProtLoop flags count m (Word.add vaddr MMU_DESCRIPTOR_L2_SMALL_SIZE) paddr
    else
      let (m,status) ← losArchMmuUnmap m vaddr 1
      if status < 0 then some (m,LOS_NOK)
      else
        let (m,status) ← losArchMmuMap m vaddr paddr 1 flags
        if status < 0 then some (m,LOS_NOK)
        else changeProtLoop flags count m (Word.add vaddr MMU_DESCRIPTOR_L2_SMALL_SIZE) paddr

def losArchMmuChangeProt (m : LosArchMmu) (vaddr count flags : Nat) : Option (LosArchMmu × Int) :=
  if vaddr = 0 ∨ count = 0 then some (m,LOS_NOK) else changeProtLoop flags count m vaddr 0

end LiteOsKernel.Vm
