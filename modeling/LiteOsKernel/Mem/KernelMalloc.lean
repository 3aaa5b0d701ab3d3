import LiteOsKernel.Mem.TlsfChain
import LiteOsKernel.Mem.TlsfPlain

/-! LOS_KernelMalloc, LOS_KernelRealloc and LOS_KernelFree of kernel/base/vm/los_vm_map.c: the TLSF heap serves small
requests, and the page allocator large ones with whole pages. -/
namespace LiteOsKernel.Mem.Kernel
open LiteOsKernel Tlsf Run

def KMALLOC_LARGE_SIZE : Nat := Word.shl PAGE_SIZE 2

/-- The heap, whose pool has the words of all memory, and the page allocator beside it: LosVmPage's nPages by page
frame, a UINT16, none where no segment has the frame, the blocks it gave to clients, and the pages it took back. -/
structure KernelMem where
  heap : Arena
  nPages : Nat → Option Nat
  large : List Block
  freed : List (Nat × Nat)
  kHeapInited : Bool

def isAligned (a b : Nat) : Bool := a &&& Word.sub b 1 == 0

-- memcpy_s

/-- memset_s to zero; the bytes above n in the last word stay. -/
def clearBytes (mem : Nat → Nat) (dest n : Nat) : Nat → Nat :=
  let last := dest + 4*(n/4)
  let cleared := zeroWords mem dest (n/4)
  if n%4 = 0 then cleared else Function.update cleared last (mem last >>> (8*(n%4)) <<< (8*(n%4)))

/-- memcpy_s of whole words: true is EOK. A destination of no or of too many bytes is left as it is; where the
count exceeds it or the areas overlap it is cleared. -/
def memcpyS (mem : Nat → Nat) (dest destMax src count : Nat) : (Nat → Nat) × Bool :=
  if destMax = 0 ∨ SECUREC_MEM_MAX_LEN < destMax then (mem, false)
  else if destMax < count ∨ (dest ≠ src ∧ dest < src + count ∧ src < dest + count) then (clearBytes mem dest destMax, false)
  else (copyWords mem dest src (count/4), true)

namespace KernelMem

def setMem (k : KernelMem) (mem : Nat → Nat) : KernelMem :=
  { k with heap := { k.heap with pool := { k.heap.pool with mem := mem } } }

-- Pages

def osVmVaddrToPage (k : KernelMem) (ptr : Nat) : Option Nat := k.nPages (ptr >>> PAGE_SHIFT)

def setNPages (k : KernelMem) (ptr count : Nat) : KernelMem :=
  { k with nPages := Function.update k.nPages (ptr >>> PAGE_SHIFT) (some (count%2^16)) }

/-- With the address of the pages that the allocator finds, or 0. -/
def losPhysPagesAllocContiguous (k : KernelMem) (nPages answer : Nat) : KernelMem × Nat :=
  if nPages = 0 ∨ answer = 0 then (k, 0) else (k.setNPages answer nPages, answer)

def losPhysPagesFreeContiguous (k : KernelMem) (ptr nPages : Nat) : KernelMem :=
  if ptr = 0 ∨ k.osVmVaddrToPage ptr = none then k else { k.setNPages ptr 0 with freed := (ptr,nPages) :: k.freed }

def osMemLargeNodeFree (k : KernelMem) (ptr : Nat) : KernelMem × Nat :=
  match k.osVmVaddrToPage ptr with
  | none => (k, LOS_NOK)
  | some nPages => if nPages = 0 then (k, LOS_NOK) else (k.losPhysPagesFreeContiguous ptr nPages, LOS_OK)

-- The heap

/-- The pointer that a call of the heap returns. -/
def heapResult (k : KernelMem) (c : Call) (pages : List Nat) : Nat :=
  let p := { k.heap.pool with pages := pages }
  match c with
  | .alloc size => (losMemAlloc p size).2
  | .allocAlign size boundary => (losMemAllocAlign p size boundary).2
  | .realloc ptr size => (losMemRealloc (k.heap.largeNodeFree p c) p ptr size).2
  | _ => 0

/-- A call of the heap, with the page counts of the area that it obtains and of the one that it gives back. -/
def heapCall (k : KernelMem) (c : Call) (pages : List Nat) : KernelMem :=
  let p := { k.heap.pool with pages := pages }
  let k₁ := match c.grown p with
    | none => k
    | some x => k.setNPages x.node (x.size >>> PAGE_SHIFT)
  let k₂ := match c.returned p with
    | none => k₁
    | some node => (k₁.osMemLargeNodeFree node).1
  { k₂ with heap := k.heap.run (.call c pages) }

-- los_vm_map.c

def osMemLargeAlloc (k : KernelMem) (size : Nat) : Bool :=
  if k.kHeapInited = false then false else if size < KMALLOC_LARGE_SIZE then false else true

/-- The pages for a request, recorded as a block of the client. -/
def allocPages (k : KernelMem) (size answer : Nat) : KernelMem × Nat :=
  let (k, ptr) := k.losPhysPagesAllocContiguous (roundup size PAGE_SIZE >>> PAGE_SHIFT) answer
  (if ptr = 0 then k else { k with large := ⟨ptr,size,PAGE_SIZE⟩ :: k.large }, ptr)

/-- OsMemLargeNodeFree of a client's block. -/
def freePages (k : KernelMem) (ptr : Nat) : KernelMem × Nat :=
  let (k, ret) := k.osMemLargeNodeFree ptr
  (if ret = LOS_OK then { k with large := k.large.filter (·.ptr ≠ ptr) } else k, ret)

def losKernelMalloc (k : KernelMem) (size answer : Nat) (pages : List Nat) : KernelMem × Nat :=
  if k.osMemLargeAlloc size then k.allocPages size answer
  else (k.heapCall (.alloc size) pages, k.heapResult (.alloc size) pages)

def losKernelMallocAlign (k : KernelMem) (size boundary answer : Nat) (pages : List Nat) : KernelMem × Nat :=
  if k.osMemLargeAlloc size ∧ isAligned PAGE_SIZE boundary then k.allocPages size answer
  else (k.heapCall (.allocAlign size boundary) pages, k.heapResult (.allocAlign size boundary) pages)

def losKernelFree (k : KernelMem) (ptr : Nat) : KernelMem :=
  if osMemIsHeapNode k.heap.pool ptr = false then (k.freePages ptr).1 else k.heapCall (.free ptr) []

def losKernelRealloc (k : KernelMem) (ptr size answer : Nat) (pages : List Nat) : KernelMem × Nat :=
  if ptr = 0 then k.losKernelMalloc size answer pages
  else if osMemIsHeapNode k.heap.pool ptr = false then
    match k.osVmVaddrToPage ptr with
    | none => (k, 0)
    | some _ =>
      let (k, tmpPtr) := k.losKernelMalloc size answer pages
      if tmpPtr = 0 then (k, 0)
      else
        -- page->nPages is read again behind the allocation
        let nPages := (k.osVmVaddrToPage ptr).getD 0
        let (mem, ok) := memcpyS k.heap.pool.mem tmpPtr size ptr (Word.shl nPages PAGE_SHIFT)
        let k := k.setMem mem
        if ok then ((k.freePages ptr).1, tmpPtr) else (k.losKernelFree tmpPtr, 0)
  else (k.heapCall (.realloc ptr size) pages, k.heapResult (.realloc ptr size) pages)

end KernelMem

-- Runs

/-- A call of los_vm_map.c or of the heap with the page allocator's answers, a write outside the heap, or one of
the two switches of the start-up. -/
inductive Request where
  | malloc (size answer : Nat) (pages : List Nat)
  | mallocAlign (size boundary answer : Nat) (pages : List Nat)
  | realloc (ptr size answer : Nat) (pages : List Nat)
  | free (ptr : Nat)
  | heapCall (c : Call) (pages : List Nat)
  | foreign (addr value : Nat)
  | expandEnable
  | heapInited

/-- The whole pages of a block. -/
def span (b : Block) : Area := ⟨b.ptr,roundup b.size PAGE_SIZE⟩

def Apart (x y : Area) : Prop := x.node + x.size ≤ y.node ∨ y.node + y.size ≤ x.node

namespace KernelMem

/-- Whole pages in no use, as the page allocator hands them out. -/
structure Unused (k : KernelMem) (x : Area) : Prop where
  pages : x.Pages k.heap.pool k.heap.areas
  apart : ∀ b ∈ k.large, Apart x (span b)

/-- The arguments of a heap call are legal, and the page allocator keeps its promise. -/
def HeapPre (k : KernelMem) (c : Call) (pages : List Nat) : Prop :=
  k.heap.Legal c ∧ ∀ x, c.grown { k.heap.pool with pages := pages } = some x → k.Unused x

/-- The page allocator keeps its promise about an answer. -/
def PagesPre (k : KernelMem) (size answer : Nat) : Prop :=
  size < 2^32 ∧ (roundup size PAGE_SIZE ≠ 0 → answer ≠ 0 → k.Unused ⟨answer,roundup size PAGE_SIZE⟩)

def MallocPre (k : KernelMem) (size answer : Nat) (pages : List Nat) : Prop :=
  if k.osMemLargeAlloc size then k.PagesPre size answer else k.HeapPre (.alloc size) pages

def Pre (k : KernelMem) : Request → Prop
  | .malloc size answer pages => k.MallocPre size answer pages
  | .mallocAlign size boundary answer pages =>
    if k.osMemLargeAlloc size ∧ isAligned PAGE_SIZE boundary then k.PagesPre size answer
    else k.HeapPre (.allocAlign size boundary) pages
  | .realloc ptr size answer pages =>
    if ptr = 0 then k.MallocPre size answer pages
    else (∃ b ∈ k.large, b.ptr = ptr ∧ k.MallocPre size answer pages) ∨ k.HeapPre (.realloc ptr size) pages
  | .free ptr => ∃ b, (b ∈ k.large ∨ b ∈ k.heap.live) ∧ b.ptr = ptr
  | .heapCall c pages => k.HeapPre c pages
  | .foreign addr value => k.heap.Pre (.foreign addr value)
  | _ => True

def MallocFits (k : KernelMem) (size : Nat) (pages : List Nat) : Prop :=
  k.osMemLargeAlloc size = false → k.heap.Fits (.call (.alloc size) pages)

def FreeFits (k : KernelMem) (ptr : Nat) : Prop :=
  osMemIsHeapNode k.heap.pool ptr → k.heap.Fits (.call (.free ptr) [])

/-- LOS_KernelRealloc of pages as far as the copy, with the new block, which is freed again where the copy fails. -/
def reallocCopied (k : KernelMem) (ptr size answer : Nat) (pages : List Nat) : KernelMem × Nat :=
  let (k, tmpPtr) := k.losKernelMalloc size answer pages
  (k.setMem (memcpyS k.heap.pool.mem tmpPtr size ptr (Word.shl ((k.osVmVaddrToPage ptr).getD 0) PAGE_SHIFT)).1, tmpPtr)

/-- The calls made of the heap fit it. -/
def Fits (k : KernelMem) : Request → Prop
  | .malloc size _ pages => k.MallocFits size pages
  | .mallocAlign size boundary _ pages =>
    ¬(k.osMemLargeAlloc size ∧ isAligned PAGE_SIZE boundary) → k.heap.Fits (.call (.allocAlign size boundary) pages)
  | .realloc ptr size answer pages =>
    if ptr = 0 then k.MallocFits size pages
    else if osMemIsHeapNode k.heap.pool ptr = false then
      k.MallocFits size pages ∧ (k.reallocCopied ptr size answer pages).1.FreeFits (k.reallocCopied ptr size answer pages).2
    else k.heap.Fits (.call (.realloc ptr size) pages)
  | .free ptr => k.FreeFits ptr
  | .heapCall c pages => k.heap.Fits (.call c pages)
  | _ => True

def run (k : KernelMem) : Request → KernelMem
  | .malloc size answer pages => (k.losKernelMalloc size answer pages).1
  | .mallocAlign size boundary answer pages => (k.losKernelMallocAlign size boundary answer pages).1
  | .realloc ptr size answer pages => (k.losKernelRealloc ptr size answer pages).1
  | .free ptr => k.losKernelFree ptr
  | .heapCall c pages => k.heapCall c pages
  | .foreign addr value => { k with heap := k.heap.run (.foreign addr value) }
  | .expandEnable => { k with heap := k.heap.run .expandEnable }
  | .heapInited => { k with kHeapInited := true }

end KernelMem

/-- The kernels whose heap starts as any pool of LOS_MemInit with room for a free node. -/
@[reducible] def kernelSystem (within : Nat → Prop) : System KernelMem Request where
  init k := (arenaSystem within).init k.heap ∧ k.large = [] ∧ k.freed = [] ∧ k.kHeapInited = false
  pre := KernelMem.Pre
  run := KernelMem.run

end LiteOsKernel.Mem.Kernel
