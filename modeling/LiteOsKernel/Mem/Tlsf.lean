import LiteOsKernel.Common

/-! The TLSF heap of kernel/base/mem/tlsf/los_memory.c, function by function.
The pool head is a record and the area behind it a word memory indexed by byte
address, in the 32-bit configuration with LOSCFG_MEM_WATERLINE and LOSCFG_KERNEL_VM. -/
namespace LiteOsKernel.Mem.Tlsf
open LiteOsKernel

def OS_MEM_SLI : Nat := 3
def OS_MEM_SMALL_BUCKET_COUNT : Nat := 31
def OS_MEM_SMALL_BUCKET_MAX_SIZE : Nat := 128
def OS_MEM_FREE_LIST_NUM : Nat := 8
def OS_MEM_LARGE_START_BUCKET : Nat := 7
def OS_MEM_FREE_LIST_COUNT : Nat := 223
def OS_MEM_NODE_MAGIC : Nat := 0xABCDDCBA
def OS_MEM_NODE_USED_FLAG : Nat := 0x80000000
def OS_MEM_NODE_ALIGNED_FLAG : Nat := 0x40000000
def OS_MEM_NODE_LAST_FLAG : Nat := 0x20000000
def OS_MEM_POOL_EXPAND_ENABLE : Nat := 1
def OS_MEM_POOL_LOCK_ENABLE : Nat := 2
def OS_MEM_ALIGN_SIZE : Nat := 4
/-- sizeof(struct OsMemUsedNodeHead): magic, ptr and sizeAndFlag. -/
def OS_MEM_NODE_HEAD_SIZE : Nat := 12
/-- The two list links of a free node. -/
def OS_MEM_MIN_ALLOC_SIZE : Nat := 8
/-- sizeof(struct OsMemPoolHead): info 20, bitmap 28, lists 892, spinlock 16, nextPool 4. -/
def sizeofPoolHead : Nat := 960
def OS_MEM_MIN_POOL_SIZE : Nat := OS_MEM_NODE_HEAD_SIZE + sizeofPoolHead
def MAX_SHRINK_PAGECACHE_TRY : Nat := 2

/-- A pool head with the words of the memory it manages. The field pages holds the
results of the page allocator's coming calls (0 is NULL); panic is set by LOS_Panic. -/
structure MemPool where
  pool : Nat
  totalSize : Nat
  attr : Nat
  waterLine : Nat
  curUsedSize : Nat
  freeListBitmap : Nat → Nat
  freeList : Nat → Nat
  mem : Nat → Nat
  pages : List Nat
  panic : Bool

namespace MemPool

def setWord (p : MemPool) (a v : Nat) : MemPool := { p with mem := Function.update p.mem a v }

-- The members of struct OsMemNodeHead and struct OsMemFreeNodeHead, by offset.
def magic (p : MemPool) (node : Nat) : Nat := p.mem node
def ptr (p : MemPool) (node : Nat) : Nat := p.mem (node + 4)
def sizeAndFlag (p : MemPool) (node : Nat) : Nat := p.mem (node + 8)
def prev (p : MemPool) (node : Nat) : Nat := p.mem (node + 12)
def next (p : MemPool) (node : Nat) : Nat := p.mem (node + 16)
def setMagic (p : MemPool) (node v : Nat) : MemPool := p.setWord node v
def setPtr (p : MemPool) (node v : Nat) : MemPool := p.setWord (node + 4) v
def setSizeAndFlag (p : MemPool) (node v : Nat) : MemPool := p.setWord (node + 8) v
def setPrev (p : MemPool) (node v : Nat) : MemPool := p.setWord (node + 12) v
def setNext (p : MemPool) (node v : Nat) : MemPool := p.setWord (node + 16) v

end MemPool

def getUsedFlag (sizeAndFlag : Nat) : Nat := sizeAndFlag &&& OS_MEM_NODE_USED_FLAG
def getAlignedFlag (sizeAndFlag : Nat) : Nat := sizeAndFlag &&& OS_MEM_NODE_ALIGNED_FLAG
def getLastFlag (sizeAndFlag : Nat) : Nat := sizeAndFlag &&& OS_MEM_NODE_LAST_FLAG
def getAlignedGapsize (sizeAndFlag : Nat) : Nat := sizeAndFlag &&& Word.not OS_MEM_NODE_ALIGNED_FLAG
def getSize (sizeAndFlag : Nat) : Nat :=
  sizeAndFlag &&& Word.not (OS_MEM_NODE_USED_FLAG ||| OS_MEM_NODE_ALIGNED_FLAG ||| OS_MEM_NODE_LAST_FLAG)

/-- OS_MEM_ALIGN for a power of two. -/
def osMemAlign (p alignSize : Nat) : Nat :=
  Word.sub (Word.add p alignSize) 1 &&& Word.not (Word.sub alignSize 1)

def osMemIsPowTwo (value : Nat) : Bool := value &&& Word.sub value 1 == 0
def osMemIsAligned (a b : Nat) : Bool := a &&& Word.sub b 1 == 0

def osMemFirstNode (p : MemPool) : Nat := p.pool + sizeofPoolHead
def osMemEndNode (start size : Nat) : Nat := Word.sub (Word.add start size) OS_MEM_NODE_HEAD_SIZE
def osMemNextNode (p : MemPool) (node : Nat) : Nat := Word.add node (getSize (p.sizeAndFlag node))

-- Size classes

def osMemFFS (bitmap : Nat) : Nat :=
  Word.sub 31 (Word.clz (bitmap &&& Word.add (Word.not bitmap) 1)) % 2^16

def osMemFLS (bitmap : Nat) : Nat := Word.sub 31 (Word.clz bitmap) % 2^16

def osMemLog2 (size : Nat) : Nat := osMemFLS size

def osMemFlGet (size : Nat) : Nat :=
  if size < OS_MEM_SMALL_BUCKET_MAX_SIZE then Word.sub (size >>> 2) 1 else osMemLog2 size

def osMemSlGet (size fl : Nat) : Nat :=
  Word.sub (Word.shl size OS_MEM_SLI >>> fl) OS_MEM_FREE_LIST_NUM

def osMemFreeListIndexGet (size : Nat) : Nat :=
  let fl := osMemFlGet size
  if size < OS_MEM_SMALL_BUCKET_MAX_SIZE then fl
  else
    let sl := osMemSlGet size fl
    Word.add (Word.add OS_MEM_SMALL_BUCKET_COUNT
      (Word.shl (Word.sub fl OS_MEM_LARGE_START_BUCKET) OS_MEM_SLI)) sl

-- Free-list search

/-- The loop of OsMemFindCurSuitableBlock from a list position; fuel bounds the nodes visited. -/
def findCurFrom (p : MemPool) (size : Nat) : Nat → Nat → Nat
  | 0, _ => 0
  | fuel+1, node =>
    if node = 0 then 0
    else if size ≤ p.sizeAndFlag node then node
    else findCurFrom p size fuel (p.next node)

/-- A list inside a 32-bit space has fewer nodes than the fuel, as each takes 20 bytes. -/
@[irreducible] def listFuel : Nat := 2^28

def osMemFindCurSuitableBlock (p : MemPool) (index size : Nat) : Nat :=
  findCurFrom p size listFuel (p.freeList index)

def osMemNotEmptyIndexGet (p : MemPool) (index : Nat) : Nat :=
  let mask := p.freeListBitmap (index >>> 5) &&& Word.not (Word.sub (Word.shl 1 (index &&& 0x1F)) 1)
  if mask ≠ 0 then osMemFFS mask + (index &&& Word.not 0x1F) else OS_MEM_FREE_LIST_COUNT

/-- The word-by-word scan of OsMemFindNextSuitableBlock; some index is its goto DONE. -/
def findNextFrom (p : MemPool) : Nat → Nat → Option Nat
  | 0, _ => none
  | fuel+1, index =>
    if index < OS_MEM_FREE_LIST_COUNT then
      let mask := p.freeListBitmap (index >>> 5)
      if mask ≠ 0 then some (osMemFFS mask + index) else findNextFrom p fuel (index + 32)
    else none

/-- The index from which the bitmap is searched, with curIndex of the source. -/
def searchStart (size : Nat) : Nat × Nat :=
  let fl := osMemFlGet size
  if size < OS_MEM_SMALL_BUCKET_MAX_SIZE then (fl, OS_MEM_FREE_LIST_COUNT)
  else
    let sl := osMemSlGet size fl
    let curIndex := Word.add (Word.add (Word.shl (Word.sub fl OS_MEM_LARGE_START_BUCKET) OS_MEM_SLI) sl)
      OS_MEM_SMALL_BUCKET_COUNT
    (Word.add curIndex 1, curIndex)

/-- Returns the node (0 is NULL) and outIndex. -/
def osMemFindNextSuitableBlock (p : MemPool) (size : Nat) : Nat × Nat :=
  let (index, curIndex) := searchStart size
  let tmp := osMemNotEmptyIndexGet p index
  if tmp ≠ OS_MEM_FREE_LIST_COUNT then (p.freeList tmp, tmp)
  else
    match findNextFrom p 8 (losAlign (index + 1) 32) with
    | some index => (p.freeList index, index)
    | none =>
      if curIndex = OS_MEM_FREE_LIST_COUNT then (0, 0)
      else (osMemFindCurSuitableBlock p curIndex size, curIndex)

-- Free lists

def osMemSetFreeListBit (p : MemPool) (index : Nat) : MemPool :=
  let word := Word.setBit (p.freeListBitmap (index >>> 5)) (index &&& 0x1F)
  { p with freeListBitmap := Function.update p.freeListBitmap (index >>> 5) word }

def osMemClearFreeListBit (p : MemPool) (index : Nat) : MemPool :=
  let word := Word.clearBit (p.freeListBitmap (index >>> 5)) (index &&& 0x1F)
  { p with freeListBitmap := Function.update p.freeListBitmap (index >>> 5) word }

def setFreeList (p : MemPool) (index node : Nat) : MemPool :=
  { p with freeList := Function.update p.freeList index node }

def osMemListAdd (p : MemPool) (listIndex node : Nat) : MemPool :=
  let firstNode := p.freeList listIndex
  let p := if firstNode ≠ 0 then p.setPrev firstNode node else p
  let p := p.setPrev node 0
  let p := p.setNext node firstNode
  let p := setFreeList p listIndex node
  let p := osMemSetFreeListBit p listIndex
  p.setMagic node OS_MEM_NODE_MAGIC

def osMemListDelete (p : MemPool) (listIndex node : Nat) : MemPool :=
  let p :=
    if node = p.freeList listIndex then
      let p := setFreeList p listIndex (p.next node)
      if p.next node = 0 then osMemClearFreeListBit p listIndex else p.setPrev (p.next node) 0
    else
      let p := p.setNext (p.prev node) (p.next node)
      if p.next node ≠ 0 then p.setPrev (p.next node) (p.prev node) else p
  p.setMagic node OS_MEM_NODE_MAGIC

def losPanic (p : MemPool) : MemPool := { p with panic := true }

def osMemFreeNodeAdd (p : MemPool) (node : Nat) : MemPool :=
  let index := osMemFreeListIndexGet (p.sizeAndFlag node)
  if OS_MEM_FREE_LIST_COUNT ≤ index then losPanic p else osMemListAdd p index node

def osMemFreeNodeDelete (p : MemPool) (node : Nat) : MemPool :=
  let index := osMemFreeListIndexGet (p.sizeAndFlag node)
  if OS_MEM_FREE_LIST_COUNT ≤ index then losPanic p else osMemListDelete p index node

/-- Takes a suitable node off its list; node 0 when there is none. -/
def osMemFreeNodeGet (p : MemPool) (size : Nat) : MemPool × Nat :=
  let (firstNode, index) := osMemFindNextSuitableBlock p size
  if firstNode = 0 then (p, 0) else (osMemListDelete p index firstNode, firstNode)

-- Merging and splitting

def osMemMergeNode (p : MemPool) (node : Nat) : MemPool :=
  let p := p.setSizeAndFlag (p.ptr node) (Word.add (p.sizeAndFlag (p.ptr node)) (p.sizeAndFlag node))
  let nextNode := Word.add node (p.sizeAndFlag node)
  if getLastFlag (p.sizeAndFlag nextNode) = 0 then p.setPtr nextNode (p.ptr node) else p

def osMemSplitNode (p : MemPool) (allocNode allocSize : Nat) : MemPool :=
  let newFreeNode := Word.add allocNode allocSize
  let p := p.setPtr newFreeNode allocNode
  let p := p.setSizeAndFlag newFreeNode (Word.sub (p.sizeAndFlag allocNode) allocSize)
  let p := p.setSizeAndFlag allocNode allocSize
  let nextNode := osMemNextNode p newFreeNode
  let p :=
    if getLastFlag (p.sizeAndFlag nextNode) = 0 then
      let p := p.setPtr nextNode newFreeNode
      if getUsedFlag (p.sizeAndFlag nextNode) = 0 then
        osMemMergeNode (osMemFreeNodeDelete p nextNode) nextNode
      else p
    else p
  osMemFreeNodeAdd p newFreeNode

def osMemWaterUsedRecord (p : MemPool) (size : Nat) : MemPool :=
  let p := { p with curUsedSize := Word.add p.curUsedSize size }
  if p.waterLine < p.curUsedSize then { p with waterLine := p.curUsedSize } else p

def osMemCreateUsedNode (addr : Nat) : Nat := addr + OS_MEM_NODE_HEAD_SIZE

-- Sentinels, expansion and shrinking

/-- Each extent of an expanded pool takes a page, so a chain has fewer sentinels than this. -/
@[irreducible] def chainFuel : Nat := 2^20

def lastSentinelFrom (p : MemPool) : Nat → Nat → Nat → Nat → Nat
  | 0, node, _, _ => node
  | fuel+1, node, ptr, size =>
    if ptr ≠ 0 ∧ size ≠ 0 then
      let node := osMemEndNode ptr size
      lastSentinelFrom p fuel node (p.ptr node) (getSize (p.sizeAndFlag node))
    else node

def osMemLastSentinelNodeGet (p : MemPool) (sentinelNode : Nat) : Nat :=
  lastSentinelFrom p chainFuel 0 (p.ptr sentinelNode) (getSize (p.sizeAndFlag sentinelNode))

def osMemSentinelNodeCheck (p : MemPool) (sentinelNode : Nat) : Bool :=
  getUsedFlag (p.sizeAndFlag sentinelNode) != 0 && p.magic sentinelNode == OS_MEM_NODE_MAGIC

def osMemIsLastSentinelNode (p : MemPool) (sentinelNode : Nat) : Bool :=
  !osMemSentinelNodeCheck p sentinelNode || getSize (p.sizeAndFlag sentinelNode) == 0 ||
    p.ptr sentinelNode == 0

def osMemSentinelNodeSet (p : MemPool) (sentinelNode newNode size : Nat) : MemPool :=
  let sentinelNode :=
    if p.ptr sentinelNode ≠ 0 then osMemLastSentinelNodeGet p sentinelNode else sentinelNode
  let p := p.setSizeAndFlag sentinelNode size
  let p := p.setPtr sentinelNode newNode
  let p := p.setSizeAndFlag sentinelNode (p.sizeAndFlag sentinelNode ||| OS_MEM_NODE_USED_FLAG)
  p.setSizeAndFlag sentinelNode (p.sizeAndFlag sentinelNode ||| OS_MEM_NODE_LAST_FLAG)

def preSentinelFrom (p : MemPool) (node : Nat) : Nat → Nat → Nat
  | 0, _ => 0
  | fuel+1, sentinelNode =>
    if sentinelNode = 0 ∨ osMemIsLastSentinelNode p sentinelNode then 0
    else if p.ptr sentinelNode = node then sentinelNode
    else preSentinelFrom p node fuel
      (osMemEndNode (p.ptr sentinelNode) (getSize (p.sizeAndFlag sentinelNode)))

def preSentinelNodeGet (p : MemPool) (node : Nat) : Nat :=
  preSentinelFrom p node chainFuel (osMemEndNode p.pool p.totalSize)

/-- Returns FALSE when the node is not a whole extent; largeNodeFree says whether
OsMemLargeNodeFree found the extent's pages. -/
def tryShrinkPool (largeNodeFree : Nat → Bool) (p : MemPool) (node : Nat) : MemPool × Bool :=
  let totalSize := Word.sub (p.ptr node) node
  let nodeSize := getSize (p.sizeAndFlag node)
  if nodeSize ≠ totalSize then (p, false)
  else
    let preSentinel := preSentinelNodeGet p node
    if preSentinel = 0 then (p, false)
    else
      let mySentinel := p.ptr node
      let p :=
        if osMemIsLastSentinelNode p mySentinel then
          osMemSentinelNodeSet (p.setPtr preSentinel 0) preSentinel 0 0
        else
          let p := p.setSizeAndFlag preSentinel (p.sizeAndFlag mySentinel)
          p.setPtr preSentinel (p.ptr mySentinel)
      (p, largeNodeFree node)

/-- Takes the next answer of LOS_PhysPagesAllocContiguous, trying again after a NULL. -/
def expandPages (p : MemPool) : Nat → MemPool × Nat
  | 0 =>
    match p.pages with
    | [] => (p, 0)
    | newNode :: pages => ({ p with pages := pages }, newNode)
  | tryCount+1 =>
    match p.pages with
    | [] => (p, 0)
    | newNode :: pages =>
      if newNode = 0 then expandPages { p with pages := pages } tryCount
      else ({ p with pages := pages }, newNode)

/-- Returns true for the source's 0. -/
def osMemPoolExpandSub (p : MemPool) (size : Nat) : MemPool × Bool :=
  let size := roundup (Word.add size OS_MEM_NODE_HEAD_SIZE) PAGE_SIZE
  let endNode := osMemEndNode p.pool p.totalSize
  let (p, newNode) := expandPages p MAX_SHRINK_PAGECACHE_TRY
  if newNode = 0 then (p, false)
  else
    let p := p.setSizeAndFlag newNode (Word.sub size OS_MEM_NODE_HEAD_SIZE)
    let p := p.setPtr newNode (osMemEndNode newNode size)
    let p := osMemSentinelNodeSet p endNode newNode size
    let p := osMemFreeNodeAdd p newNode
    let endNode := osMemEndNode newNode size
    let p := ((p.setMagic endNode 0).setPtr endNode 0).setSizeAndFlag endNode 0
    let p := (p.setPtr endNode 0).setMagic endNode OS_MEM_NODE_MAGIC
    let p := osMemSentinelNodeSet p endNode 0 0
    (osMemWaterUsedRecord p OS_MEM_NODE_HEAD_SIZE, true)

def poolSizeFrom (p : MemPool) : Nat → Nat → Nat → Nat
  | 0, _, count => count
  | fuel+1, sentinel, count =>
    if osMemIsLastSentinelNode p sentinel then count
    else
      let size := getSize (p.sizeAndFlag sentinel)
      poolSizeFrom p fuel (osMemEndNode (p.ptr sentinel) size) (Word.add count size)

def losMemPoolSizeGet (p : MemPool) : Nat :=
  poolSizeFrom p chainFuel (osMemEndNode p.pool p.totalSize) p.totalSize

def osMemPoolExpand (p : MemPool) (allocSize : Nat) : MemPool × Bool :=
  let expandDefault := losMemPoolSizeGet p >>> 3
  let (p, ok) := osMemPoolExpandSub p (max expandDefault allocSize)
  if ok then (p, true)
  else if expandDefault < allocSize then (p, false)
  else osMemPoolExpandSub p allocSize

-- Pool creation

/-- OsMemPoolInit on memory with the given contents, with the page allocator's answers. -/
def osMemPoolInit (mem : Nat → Nat) (pages : List Nat) (pool size : Nat) : MemPool :=
  let p : MemPool := ⟨pool,size,OS_MEM_POOL_LOCK_ENABLE,0,0,fun _ => 0,fun _ => 0,mem,pages,false⟩
  let newNode := osMemFirstNode p
  let p := p.setSizeAndFlag newNode (Word.sub (Word.sub size sizeofPoolHead) OS_MEM_NODE_HEAD_SIZE)
  let p := p.setPtr newNode 0
  let p := p.setMagic newNode OS_MEM_NODE_MAGIC
  let p := osMemFreeNodeAdd p newNode
  let endNode := osMemEndNode pool size
  let p := p.setMagic endNode OS_MEM_NODE_MAGIC
  let p := p.setPtr endNode 0
  let p := osMemSentinelNodeSet p endNode 0 0
  let p := { p with curUsedSize := sizeofPoolHead + OS_MEM_NODE_HEAD_SIZE }
  { p with waterLine := p.curUsedSize }

def losMemInit (mem : Nat → Nat) (pages : List Nat) (pool size : Nat) : Option MemPool :=
  if pool = 0 ∨ size ≤ OS_MEM_MIN_POOL_SIZE then none
  else some (osMemPoolInit mem pages pool (osMemAlign size OS_MEM_ALIGN_SIZE))

-- Allocation

/-- OsMemFreeNodeGet with the retry after each successful expansion; fuel bounds the retries. -/
def osMemAllocNode (p : MemPool) (allocSize : Nat) : Nat → MemPool × Nat
  | 0 => (p, 0)
  | fuel+1 =>
    let (p, allocNode) := osMemFreeNodeGet p allocSize
    if allocNode ≠ 0 then (p, allocNode)
    else if p.attr &&& OS_MEM_POOL_EXPAND_ENABLE = 0 then (p, 0)
    else
      let (p, ok) := osMemPoolExpand p allocSize
      if ok then osMemAllocNode p allocSize fuel else (p, 0)

/-- Every expansion uses up an answer of the page allocator, so their number bounds the retries. -/
def osMemAlloc (p : MemPool) (size : Nat) : MemPool × Nat :=
  let allocSize := osMemAlign (Word.add size OS_MEM_NODE_HEAD_SIZE) OS_MEM_ALIGN_SIZE
  let (p, allocNode) := osMemAllocNode p allocSize (p.pages.length + 1)
  if allocNode = 0 then (p, 0)
  else
    let p :=
      if Word.add (Word.add allocSize OS_MEM_NODE_HEAD_SIZE) OS_MEM_MIN_ALLOC_SIZE ≤ p.sizeAndFlag allocNode then
        osMemSplitNode p allocNode allocSize
      else p
    let p := p.setSizeAndFlag allocNode (p.sizeAndFlag allocNode ||| OS_MEM_NODE_USED_FLAG)
    (osMemWaterUsedRecord p (getSize (p.sizeAndFlag allocNode)), osMemCreateUsedNode allocNode)

def losMemAlloc (p : MemPool) (size : Nat) : MemPool × Nat :=
  if size = 0 then (p, 0)
  else
    let size := if size < OS_MEM_MIN_ALLOC_SIZE then OS_MEM_MIN_ALLOC_SIZE else size
    if getUsedFlag size ≠ 0 ∨ getAlignedFlag size ≠ 0 then (p, 0) else osMemAlloc p size

def losMemAllocAlign (p : MemPool) (size boundary : Nat) : MemPool × Nat :=
  if size = 0 ∨ boundary = 0 ∨ !osMemIsPowTwo boundary ∨ !osMemIsAligned boundary 4 then (p, 0)
  else
    let size := if size < OS_MEM_MIN_ALLOC_SIZE then OS_MEM_MIN_ALLOC_SIZE else size
    if Word.sub 0xFFFFFFFF size < Word.sub boundary 4 then (p, 0)
    else
      let useSize := Word.sub (Word.add size boundary) 4
      if getUsedFlag useSize ≠ 0 ∨ getAlignedFlag useSize ≠ 0 then (p, 0)
      else
        let (p, ptr) := osMemAlloc p useSize
        let alignedPtr := osMemAlign ptr boundary
        if ptr = alignedPtr then (p, ptr)
        else
          let gapSize := Word.sub alignedPtr ptr
          let allocNode := Word.sub ptr OS_MEM_NODE_HEAD_SIZE
          let p := p.setSizeAndFlag allocNode (p.sizeAndFlag allocNode ||| OS_MEM_NODE_ALIGNED_FLAG)
          let gapSize := gapSize ||| OS_MEM_NODE_ALIGNED_FLAG
          (p.setWord (Word.sub alignedPtr 4) gapSize, alignedPtr)

-- Validity checks

def addrValidFrom (p : MemPool) (addr : Nat) : Nat → Nat → Bool
  | 0, _ => false
  | fuel+1, sentinel =>
    if osMemIsLastSentinelNode p sentinel then false
    else
      let size := getSize (p.sizeAndFlag sentinel)
      let node := p.ptr sentinel
      if node ≤ addr ∧ addr < Word.add node size then true
      else addrValidFrom p addr fuel (osMemEndNode node size)

def osMemAddrValidCheck (p : MemPool) (addr : Nat) : Bool :=
  if addr = 0 then true
  else if p.pool + sizeofPoolHead ≤ addr ∧ addr < p.pool + p.totalSize then true
  else addrValidFrom p addr chainFuel (osMemEndNode p.pool p.totalSize)

def osMemIsNodeValid (p : MemPool) (node startNode endNode : Nat) : Bool :=
  if ¬(startNode ≤ node ∧ node ≤ endNode) then false
  else if getUsedFlag (p.sizeAndFlag node) ≠ 0 then p.magic node == OS_MEM_NODE_MAGIC
  else osMemAddrValidCheck p (p.ptr node)

def memCheckUsedNode (p : MemPool) (node startNode endNode : Nat) : Bool :=
  if !osMemIsNodeValid p node startNode endNode then false
  else if getUsedFlag (p.sizeAndFlag node) = 0 then false
  else
    let nextNode := osMemNextNode p node
    if !osMemIsNodeValid p nextNode startNode endNode then false
    else if getLastFlag (p.sizeAndFlag nextNode) = 0 ∧ p.ptr nextNode ≠ node then false
    else if node ≠ startNode ∧ (!osMemIsNodeValid p (p.ptr node) startNode endNode ∨
        osMemNextNode p (p.ptr node) ≠ node) then false
    else true

def checkUsedFrom (p : MemPool) (node : Nat) : Nat → Nat → Nat → Nat
  | 0, _, _ => LOS_NOK
  | fuel+1, startNode, endNode =>
    if memCheckUsedNode p node startNode endNode then LOS_OK
    else if osMemIsLastSentinelNode p endNode then LOS_NOK
    else
      let startNode := p.ptr endNode
      checkUsedFrom p node fuel startNode (osMemEndNode startNode (getSize (p.sizeAndFlag endNode)))

def osMemCheckUsedNode (p : MemPool) (node : Nat) : Nat :=
  checkUsedFrom p node chainFuel (osMemFirstNode p) (osMemEndNode p.pool p.totalSize)

-- Freeing

def osMemFree (largeNodeFree : Nat → Bool) (p : MemPool) (node : Nat) : MemPool × Nat :=
  let ret := osMemCheckUsedNode p node
  if ret ≠ LOS_OK then (p, ret)
  else
    let p := { p with curUsedSize := Word.sub p.curUsedSize (getSize (p.sizeAndFlag node)) }
    let p := p.setSizeAndFlag node (getSize (p.sizeAndFlag node))
    let preNode := p.ptr node
    let (p, node) :=
      if preNode ≠ 0 ∧ getUsedFlag (p.sizeAndFlag preNode) = 0 then
        (osMemMergeNode (osMemFreeNodeDelete p preNode) node, preNode)
      else (p, node)
    let nextNode := osMemNextNode p node
    let p :=
      if nextNode ≠ 0 ∧ getUsedFlag (p.sizeAndFlag nextNode) = 0 then
        osMemMergeNode (osMemFreeNodeDelete p nextNode) nextNode
      else p
    let (p, shrunk) :=
      if p.attr &&& OS_MEM_POOL_EXPAND_ENABLE ≠ 0 ∧ p.ptr node ≠ 0 ∧ node < p.ptr node then
        tryShrinkPool largeNodeFree p node
      else (p, false)
    if shrunk then (p, LOS_OK) else (osMemFreeNodeAdd p node, ret)

def losMemFree (largeNodeFree : Nat → Bool) (p : MemPool) (ptr : Nat) : MemPool × Nat :=
  if ptr = 0 ∨ !osMemIsAligned p.pool 4 ∨ !osMemIsAligned ptr 4 then (p, LOS_NOK)
  else
    let gapSize := p.mem (Word.sub ptr 4)
    if getAlignedFlag gapSize ≠ 0 ∧ getUsedFlag gapSize ≠ 0 then (p, LOS_NOK)
    else if getAlignedFlag gapSize ≠ 0 then
      let gapSize := getAlignedGapsize gapSize
      if gapSize &&& (OS_MEM_ALIGN_SIZE - 1) ≠ 0 ∨ Word.sub ptr OS_MEM_NODE_HEAD_SIZE < gapSize then (p, LOS_NOK)
      else osMemFree largeNodeFree p (Word.sub (Word.sub ptr gapSize) OS_MEM_NODE_HEAD_SIZE)
    else osMemFree largeNodeFree p (Word.sub ptr OS_MEM_NODE_HEAD_SIZE)

-- Reallocation

def osMemReAllocSmaller (p : MemPool) (allocSize node nodeSize : Nat) : MemPool :=
  let p := p.setSizeAndFlag node nodeSize
  let p :=
    if Word.add (Word.add allocSize OS_MEM_NODE_HEAD_SIZE) OS_MEM_MIN_ALLOC_SIZE ≤ nodeSize then
      let p := osMemSplitNode p node allocSize
      let p := p.setSizeAndFlag node (p.sizeAndFlag node ||| OS_MEM_NODE_USED_FLAG)
      { p with curUsedSize := Word.sub p.curUsedSize (Word.sub nodeSize allocSize) }
    else p
  p.setSizeAndFlag node (p.sizeAndFlag node ||| OS_MEM_NODE_USED_FLAG)

def osMemMergeNodeForReAllocBigger (p : MemPool) (allocSize node nodeSize nextNode : Nat) : MemPool :=
  let p := p.setSizeAndFlag node nodeSize
  let p := osMemMergeNode (osMemFreeNodeDelete p nextNode) nextNode
  let p :=
    if Word.add (Word.add allocSize OS_MEM_NODE_HEAD_SIZE) OS_MEM_MIN_ALLOC_SIZE ≤ p.sizeAndFlag node then
      osMemSplitNode p node allocSize
    else p
  let p := p.setSizeAndFlag node (p.sizeAndFlag node ||| OS_MEM_NODE_USED_FLAG)
  osMemWaterUsedRecord p (Word.sub (p.sizeAndFlag node) nodeSize)

def osGetRealPtr (p : MemPool) (ptr : Nat) : Nat :=
  let gapSize := p.mem (Word.sub ptr 4)
  if getAlignedFlag gapSize ≠ 0 ∧ getUsedFlag gapSize ≠ 0 then 0
  else if getAlignedFlag gapSize ≠ 0 then
    let gapSize := getAlignedGapsize gapSize
    if gapSize &&& (OS_MEM_ALIGN_SIZE - 1) ≠ 0 ∨
        Word.sub (Word.sub ptr OS_MEM_NODE_HEAD_SIZE) p.pool < gapSize then 0
    else Word.sub ptr gapSize
  else ptr

/-- The words that memcpy moves. -/
def copyWords (mem : Nat → Nat) (dest src : Nat) : Nat → Nat → Nat
  | 0 => mem
  | count+1 => Function.update (copyWords mem dest src count) (dest + 4*count) (mem (src + 4*count))

def zeroWords (mem : Nat → Nat) (dest : Nat) : Nat → Nat → Nat
  | 0 => mem
  | count+1 => Function.update (zeroWords mem dest count) (dest + 4*count) 0

/-- memcpy_s: true is EOK. When the destination is too small or the areas overlap
nothing is copied and the destination is cleared. -/
def memcpyS (p : MemPool) (dest destMax src count : Nat) : MemPool × Bool :=
  if destMax < count ∨ (dest ≠ src ∧ dest < src + count ∧ src < dest + count) then
    ({ p with mem := zeroWords p.mem dest (destMax/4) }, false)
  else ({ p with mem := copyWords p.mem dest src (count/4) }, true)

def osMemRealloc (largeNodeFree : Nat → Bool) (p : MemPool) (ptr node size : Nat) : MemPool × Nat :=
  let allocSize := osMemAlign (Word.add size OS_MEM_NODE_HEAD_SIZE) OS_MEM_ALIGN_SIZE
  let nodeSize := getSize (p.sizeAndFlag node)
  if allocSize ≤ nodeSize then (osMemReAllocSmaller p allocSize node nodeSize, ptr)
  else
    let nextNode := osMemNextNode p node
    if getUsedFlag (p.sizeAndFlag nextNode) = 0 ∧ allocSize ≤ Word.add (p.sizeAndFlag nextNode) nodeSize then
      (osMemMergeNodeForReAllocBigger p allocSize node nodeSize nextNode, ptr)
    else
      let (p, tmpPtr) := osMemAlloc p size
      if tmpPtr = 0 then (p, 0)
      else
        let (p, ok) := memcpyS p tmpPtr size ptr (Word.sub nodeSize OS_MEM_NODE_HEAD_SIZE)
        if ok then ((osMemFree largeNodeFree p node).1, tmpPtr) else ((losMemFree largeNodeFree p tmpPtr).1, 0)

def losMemRealloc (largeNodeFree : Nat → Bool) (p : MemPool) (ptr size : Nat) : MemPool × Nat :=
  if getUsedFlag size ≠ 0 ∨ getAlignedFlag size ≠ 0 then (p, 0)
  else
    let size := if size < OS_MEM_MIN_ALLOC_SIZE then OS_MEM_MIN_ALLOC_SIZE else size
    if ptr = 0 then losMemAlloc p size
    else if size = 0 then ((losMemFree largeNodeFree p ptr).1, 0)
    else
      let ptr := osGetRealPtr p ptr
      if ptr = 0 then (p, 0)
      else
        let node := Word.sub ptr OS_MEM_NODE_HEAD_SIZE
        if osMemCheckUsedNode p node ≠ LOS_OK then (p, 0)
        else osMemRealloc largeNodeFree p ptr node size

end LiteOsKernel.Mem.Tlsf
