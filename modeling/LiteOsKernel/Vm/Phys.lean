import LiteOsKernel.Common

/-! Physical page allocator of los_vm_phys.c and los_vm_page.c: segments, free lists by
order, splitting, coalescing, and contiguous allocation and release. -/
namespace LiteOsKernel.Vm

def VM_LIST_ORDER_MAX : Nat := 9
def VM_PHYS_SEG_MAX : Nat := 32

structure LosVmPage where
  physAddr : Nat
  segID : Nat
  order : Nat
  nPages : Nat
  refCounts : Nat
  deriving DecidableEq, Inhabited

/-- The page pointers of pageBase and of the free lists are indices into g_vmPageArray;
freeList holds the pages of each list from first to last. -/
structure VmPhysSeg where
  start : Nat
  size : Nat
  pageBase : Nat
  freeList : Nat → List Nat
  listCnt : Nat → Nat

/-- g_vmPageArray (what lies behind its end included) and g_vmPhysSeg. -/
structure VmPhys where
  page : Nat → LosVmPage
  seg : Nat → VmPhysSeg
  segNum : Nat

/-- A call that panics keeps the state it panicked in. -/
abbrev Panics (α : Type) : Type := Except VmPhys α

namespace VmPhys

def setPage (s : VmPhys) (p : Nat) (v : LosVmPage) : VmPhys :=
  { s with page := fun q => if q = p then v else s.page q }

def setSeg (s : VmPhys) (i : Nat) (v : VmPhysSeg) : VmPhys :=
  { s with seg := fun j => if j = i then v else s.seg j }

end VmPhys

/-- One past the last address of a segment, in 32-bit arithmetic. -/
def segEnd (seg : VmPhysSeg) : Nat := Word.add seg.start seg.size

def vmOrderToPages (order : Nat) : Nat := Word.shl 1 order

def vmOrderToPhys (order : Nat) : Nat := Word.shl 1 (PAGE_SHIFT + order)

/-- LOS_LowBitGet: 32 for a word without a set bit. -/
def losLowBitGet (bitmap : Nat) : Nat := Word.ctz bitmap

/-- LOS_HighBitGet: 32 for a word without a set bit. -/
def losHighBitGet (bitmap : Nat) : Nat := if bitmap = 0 then 32 else 31 - Word.clz bitmap

def vmPhysToOrder (phys : Nat) : Nat := min (losLowBitGet (phys >>> PAGE_SHIFT)) (VM_LIST_ORDER_MAX - 1)

def listInsert (seg : VmPhysSeg) (order page : Nat) : VmPhysSeg :=
  { seg with
    freeList := fun k => if k = order then seg.freeList k ++ [page] else seg.freeList k
    listCnt := fun k => if k = order then Word.add (seg.listCnt k) 1 else seg.listCnt k }

def listDelete (seg : VmPhysSeg) (order page : Nat) : VmPhysSeg :=
  { seg with
    freeList := fun k => if k = order then (seg.freeList k).erase page else seg.freeList k
    listCnt := fun k => if k = order then Word.sub (seg.listCnt k) 1 else seg.listCnt k }

def osVmPhysFreeListAddUnsafe (s : VmPhys) (page order : Nat) : Panics VmPhys :=
  if VM_PHYS_SEG_MAX ≤ (s.page page).segID then .error s
  else
    let segID := (s.page page).segID
    let s := s.setPage page { s.page page with order := order }
    .ok (s.setSeg segID (listInsert (s.seg segID) order page))

def osVmPhysFreeListDelUnsafe (s : VmPhys) (page : Nat) : Panics VmPhys :=
  if VM_PHYS_SEG_MAX ≤ (s.page page).segID ∨ VM_LIST_ORDER_MAX ≤ (s.page page).order then .error s
  else
    let segID := (s.page page).segID
    let s := s.setSeg segID (listDelete (s.seg segID) (s.page page).order page)
    .ok (s.setPage page { s.page page with order := VM_LIST_ORDER_MAX })

/-- OsVmPhysPagesSpiltUnsafe, by the number of halvings left; a failed LOS_ASSERT stops the kernel. -/
def splitLoop (s : VmPhys) (page oldOrder : Nat) : Nat → Panics VmPhys
  | 0 => .ok s
  | n + 1 =>
    let buddyPage := page + vmOrderToPages (oldOrder + n)
    if (s.page buddyPage).order ≠ VM_LIST_ORDER_MAX then .error s
    else do
      let s ← osVmPhysFreeListAddUnsafe s buddyPage (oldOrder + n)
      splitLoop s page oldOrder n

def osVmPhysPagesSpiltUnsafe (s : VmPhys) (page oldOrder newOrder : Nat) : Panics VmPhys :=
  splitLoop s page oldOrder (newOrder - oldOrder)

def osVmPhysToPage (s : VmPhys) (pa segID : Nat) : Panics (Option Nat) :=
  if VM_PHYS_SEG_MAX ≤ segID then .error s
  else
    let seg := s.seg segID
    if pa < seg.start ∨ segEnd seg ≤ pa then .ok none
    else .ok (some (seg.pageBase + Word.sub pa seg.start >>> PAGE_SHIFT))

/-- The do-while loop of OsVmPhysPagesFree, by the number of orders left below the largest.
A NULL page after a merge is a fault. -/
def coalesceLoop (s : VmPhys) (page pa order : Nat) : Nat → Panics (VmPhys × Nat × Nat)
  | 0 => .ok (s, page, order)
  | n + 1 => do
    let pa := pa ^^^ vmOrderToPhys order
    match ← osVmPhysToPage s pa (s.page page).segID with
    | none => .ok (s, page, order)
    | some buddyPage =>
      if (s.page buddyPage).order ≠ order then .ok (s, page, order)
      else
        let s ← osVmPhysFreeListDelUnsafe s buddyPage
        let order := order + 1
        let pa := pa &&& Word.not (vmOrderToPhys order - 1)
        match ← osVmPhysToPage s pa (s.page page).segID with
        | none => .error s
        | some page => coalesceLoop s page pa order n

def osVmPhysPagesFree (s : VmPhys) (page order : Nat) : Panics VmPhys :=
  if VM_LIST_ORDER_MAX ≤ order then .ok s
  else do
    let (s, page, order) ← coalesceLoop s page (s.page page).physAddr order (VM_LIST_ORDER_MAX - 1 - order)
    osVmPhysFreeListAddUnsafe s page order

/-- The first loop of OsVmPhysPagesFreeContiguous; every round frees a page or more. -/
def freeAlignedLoop : Nat → VmPhys → Nat → Nat → Panics (VmPhys × Nat × Nat)
  | 0, s, page, nPages => .ok (s, page, nPages)
  | fuel + 1, s, page, nPages =>
    let order := vmPhysToOrder (s.page page).physAddr
    let n := vmOrderToPages order
    if nPages < n then .ok (s, page, nPages)
    else do
      let s ← osVmPhysPagesFree s page order
      freeAlignedLoop fuel s (page + n) (nPages - n)

/-- The second loop of OsVmPhysPagesFreeContiguous. -/
def freeRestLoop : Nat → VmPhys → Nat → Nat → Panics VmPhys
  | 0, s, _, _ => .ok s
  | fuel + 1, s, page, nPages =>
    if nPages = 0 then .ok s
    else do
      let order := losHighBitGet nPages
      let n := vmOrderToPages order
      let s ← osVmPhysPagesFree s page order
      freeRestLoop fuel s (page + n) (nPages - n)

def osVmPhysPagesFreeContiguous (s : VmPhys) (page nPages : Nat) : Panics VmPhys := do
  let (s, page, nPages) ← freeAlignedLoop nPages s page nPages
  freeRestLoop nPages s page nPages

def osVmRecycleExtraPages (s : VmPhys) (page startPage endPage : Nat) : Panics VmPhys :=
  if endPage ≤ startPage then .ok s else osVmPhysPagesFreeContiguous s page (endPage - startPage)

/-- The inner loop of OsVmPhysLargeAlloc: the address at which the walk over maximal free blocks
stops. Every round moves on by a block inside the segment. -/
def largeWalk (s : VmPhys) (seg : VmPhysSeg) (paEnd : Nat) : Nat → Nat → Nat
  | 0, paStart => paStart
  | fuel + 1, paStart =>
    let paStart := Word.add paStart (Word.shl PAGE_SIZE (VM_LIST_ORDER_MAX - 1))
    if paEnd ≤ paStart ∨ paStart < seg.start ∨ segEnd seg ≤ paStart then paStart
    else if (s.page (seg.pageBase + Word.sub paStart seg.start >>> PAGE_SHIFT)).order ≠ VM_LIST_ORDER_MAX - 1 then paStart
    else largeWalk s seg paEnd fuel paStart

/-- The body of the scan of OsVmPhysLargeAlloc: whether page is returned. -/
def largeFits (s : VmPhys) (seg : VmPhysSeg) (nPages page : Nat) : Bool :=
  let paStart := (s.page page).physAddr
  let paEnd := Word.add paStart (Word.shl nPages PAGE_SHIFT)
  if segEnd seg < paEnd then false
  else decide (paEnd ≤ largeWalk s seg paEnd (seg.size >>> (PAGE_SHIFT + 8) + 1) paStart)

def osVmPhysLargeAlloc (s : VmPhys) (seg : VmPhysSeg) (nPages : Nat) : Option Nat :=
  (seg.freeList (VM_LIST_ORDER_MAX - 1)).find? (largeFits s seg nPages)

/-- OsVmPagesToOrder: for more than 2^31 pages the shift leaves the word and the loop does not end. -/
def osVmPagesToOrder (nPages : Nat) : Option Nat :=
  (List.range 32).find? fun order => decide (nPages ≤ vmOrderToPages order)

/-- The order of the first list from order on that is not empty, with its first page. -/
def firstFree (seg : VmPhysSeg) (order : Nat) : Option (Nat × Nat) :=
  (List.range' order (VM_LIST_ORDER_MAX - order)).findSome? fun newOrder =>
    (seg.freeList newOrder).head?.map fun page => (newOrder, page)

/-- The loop that takes the blocks of an allocation off their lists, by the number of blocks. -/
def takeLoop (newOrder : Nat) : Nat → VmPhys → Nat → Panics VmPhys
  | 0, s, _ => .ok s
  | n + 1, s, tmp => do
    let s ← osVmPhysFreeListDelUnsafe s tmp
    takeLoop newOrder n s (tmp + vmOrderToPages newOrder)

/-- OsVmPhysPagesAlloc from DONE on. -/
def allocDone (s : VmPhys) (page nPages order newOrder : Nat) : Panics VmPhys := do
  let s ← takeLoop newOrder ((nPages + vmOrderToPages newOrder - 1) / vmOrderToPages newOrder) s page
  let s ← osVmPhysPagesSpiltUnsafe s page order newOrder
  osVmRecycleExtraPages s (page + nPages) nPages (roundup nPages (vmOrderToPages (min order newOrder)))

def osVmPhysPagesAlloc (s : VmPhys) (segID nPages : Nat) : Panics (VmPhys × Option Nat) :=
  let seg := s.seg segID
  match osVmPagesToOrder nPages with
  | none => .error s
  | some order =>
    if order < VM_LIST_ORDER_MAX then
      match firstFree seg order with
      | none => .ok (s, none)
      | some (newOrder, page) => do
        let s ← allocDone s page nPages order newOrder
        .ok (s, some page)
    else
      match osVmPhysLargeAlloc s seg nPages with
      | none => .ok (s, none)
      | some page => do
        let s ← allocDone s page nPages order (VM_LIST_ORDER_MAX - 1)
        .ok (s, some page)

/-- The loop of OsVmPhysPagesGet over the segments from segID on. -/
def pagesGetLoop (nPages : Nat) : Nat → Nat → VmPhys → Panics (VmPhys × Option Nat)
  | 0, _, s => .ok (s, none)
  | n + 1, segID, s => do
    match ← osVmPhysPagesAlloc s segID nPages with
    | (s, some page) => .ok (s.setPage page { s.page page with refCounts := 0, nPages := nPages }, some page)
    | (s, none) => pagesGetLoop nPages n (segID + 1) s

def osVmPhysPagesGet (s : VmPhys) (nPages : Nat) : Panics (VmPhys × Option Nat) := pagesGetLoop nPages s.segNum 0 s

/-- The page whose kernel address is returned. -/
def losPhysPagesAllocContiguous (s : VmPhys) (nPages : Nat) : Panics (VmPhys × Option Nat) :=
  if nPages = 0 then .ok (s, none) else osVmPhysPagesGet s nPages

def losPhysPageAlloc (s : VmPhys) : Panics (VmPhys × Option Nat) := osVmPhysPagesGet s 1

-- Startup

/-- OsVmPhysSegCreate: from the end, the segments that start behind the new one move up. -/
def osVmPhysSegCreate (segs : List (Nat × Nat)) (start size : Nat) : List (Nat × Nat) :=
  if VM_PHYS_SEG_MAX ≤ segs.length then segs
  else
    let moved := (segs.reverse.takeWhile fun a => decide (Word.add start size < a.1)).reverse
    segs.take (segs.length - moved.length) ++ (start, size) :: moved

/-- OsVmPhysSegAdd for the areas of g_physArea. -/
def osVmPhysSegAdd (areas : List (Nat × Nat)) : List (Nat × Nat) :=
  areas.foldl (fun segs a => osVmPhysSegCreate segs a.1 a.2) []

/-- OsVmPhysInit: the pages of the segments follow each other in g_vmPageArray. -/
def osVmPhysInit (page : Nat → LosVmPage) (segs : List (Nat × Nat)) : VmPhys where
  page := page
  seg := fun i =>
    { start := (segs.getD i (0, 0)).1
      size := (segs.getD i (0, 0)).2
      pageBase := ((segs.take i).map fun a => a.2 >>> PAGE_SHIFT).sum
      freeList := fun _ => []
      listCnt := fun _ => 0 }
  segNum := segs.length

def osVmPageInit (s : VmPhys) (page pa segID : Nat) : VmPhys :=
  s.setPage page { physAddr := pa, segID := segID, order := VM_LIST_ORDER_MAX, nPages := 0, refCounts := 0 }

/-- The two loops over VMPAGEINIT, by the number of pages left. -/
def pageInitLoop (segID : Nat) : Nat → VmPhys → Nat → Nat → VmPhys
  | 0, s, _, _ => s
  | n + 1, s, page, pa => pageInitLoop segID n (osVmPageInit s page pa segID) (page + 1) (Word.add pa PAGE_SIZE)

/-- OsVmPageStartup for one segment. -/
def segStartup (s : VmPhys) (segID : Nat) : Panics VmPhys :=
  let seg := s.seg segID
  let nPage := seg.size >>> PAGE_SHIFT
  osVmPhysPagesFreeContiguous (pageInitLoop segID nPage s seg.pageBase seg.start) seg.pageBase nPage

def startupLoop : Nat → Nat → VmPhys → Panics VmPhys
  | 0, _, s => .ok s
  | n + 1, segID, s => do
    let s ← segStartup s segID
    startupLoop n (segID + 1) s

/-- OsVmPageStartup once the areas exclude the kernel image and the page array; page is what
the memory of the array held before. -/
def osVmPageStartup (page : Nat → LosVmPage) (areas : List (Nat × Nat)) : Panics VmPhys :=
  let s := osVmPhysInit page (osVmPhysSegAdd areas)
  startupLoop s.segNum 0 s

end LiteOsKernel.Vm
