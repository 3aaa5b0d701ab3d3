import LiteOsKernel.Lib.Bytes
import LiteOsKernel.Lib.Word
import Mathlib.Data.List.GetD

/-! Flags of the dirty sectors of a block in the block cache (bcache.c). The first sector of a word has its most significant bit. -/
namespace LiteOsKernel.Bcache
open LiteOsKernel LiteOsKernel.Bytes

abbrev Flag := BitVec 32

def ENOERR : Int := 0
def EOK : Int := 0
def VFS_ERROR : Int := -1
def BCACHE_MAGIC_NUM : Nat := 20132016
def UNSIGNED_INTEGER_BITS : Nat := 32
def UNINT_MAX_SHIFT_BITS : Nat := 31
def UNINT_LOG2_SHIFT : Nat := 5
def EVEN_JUDGED : Nat := 2
def UINT_MAX : Flag := BitVec.allOnes 32

/-- x << UNINT_LOG2_SHIFT, as a UINT32. -/
def firstBit (x : Nat) : Nat := Word.shl x UNINT_LOG2_SHIFT

-- FindFlagPos

/-- What FindFlagPos has found: *p1, *p2 and the bit that it looks for. -/
structure Found where
  start : Nat
  stop : Nat
  val : Nat

/-- A bit at the position pos; an error is the end of the search. -/
def Found.bit (s : Found) (pos tmp : Nat) : Except Found Found :=
  if tmp ≠ s.val then .ok s
  else if s.val ≠ 0 ∧ s.start = BCACHE_MAGIC_NUM then .ok { s with start := pos, val := 1 - s.val }
  else if s.val ≠ 0 ∧ s.start ≠ BCACHE_MAGIC_NUM then .error { s with start := 0 }
  else .ok { s with stop := pos, val := 1 - s.val }

/-- The bits of the word i. -/
def Found.word (x : Flag) (i : Nat) (s : Found) : Except Found Found :=
  (List.range UNSIGNED_INTEGER_BITS).foldlM (fun s j => s.bit (Word.add (firstBit i) j) ((x <<< j) >>> UNINT_MAX_SHIFT_BITS).toNat) s

/-- The words from i on. -/
def Found.words : List Flag → Nat → Found → Except Found Found
  | [], _, s => .ok s
  | x :: arr, i, s => do
    let s ← s.word x i
    Found.words arr (i + 1) s

/-- FindFlagPos: the result, *p1 and *p2. -/
def findFlagPos (arr : List Flag) : Int × Nat × Nat :=
  match Found.words arr 0 ⟨BCACHE_MAGIC_NUM,0,1⟩ with
  | .error s => (VFS_ERROR,s.start,s.stop)
  | .ok s =>
    if s.start = BCACHE_MAGIC_NUM then (VFS_ERROR,0,s.stop)
    else (ENOERR,s.start,if s.stop = 0 then firstBit arr.length else s.stop)

-- Blocks

inductive BlockList where
  | listHead
  | freeListHead
  deriving DecidableEq

/-- OsBcacheBlock: listNode tells in which list the block is, inTree whether it is in the red-black tree. -/
structure OsBcacheBlock where
  num : Nat
  flag : List Flag
  data : Nat → UInt8
  modified : Bool
  readFlag : Bool
  used : Bool
  listNode : Option BlockList
  inTree : Bool

/-- OsBcache; breadFun has a number of sectors and the first of them, and its result and what it leaves in the buffer. -/
structure OsBcache where
  blockSize : Nat
  sectorSize : Nat
  sectorPerBlock : Nat
  breadFun : Nat → Nat → Int × (Nat → UInt8)

/-- The loop of GetValLog2; it does not end for 0. -/
def valLog2 : Nat → Nat → Nat → Option Nat
  | 0, _, _ => none
  | fuel+1, i, log2 =>
    if i % 2 = 0 then valLog2 fuel (i / 2) (log2 + 1)
    else some (if i ≠ 1 then 0 else log2)

/-- GetValLog2. -/
def getValLog2 (val : Nat) : Option Nat := valLog2 UNSIGNED_INTEGER_BITS val 0

/-- FreeBlock. -/
def OsBcacheBlock.freeBlock (block : OsBcacheBlock) : OsBcacheBlock :=
  { block with used := false, listNode := some .freeListHead }

/-- BlockRead into the buffer of the cache: the result, the block and the buffer. -/
def blockRead (bc : OsBcache) (block : OsBcacheBlock) : Option (Int × OsBcacheBlock × (Nat → UInt8)) := do
  let log2 ← getValLog2 bc.sectorPerBlock
  let (ret,buf) := bc.breadFun bc.sectorPerBlock (block.num * 2^log2 % 2^64)
  if ret ≠ ENOERR then
    if block.modified = false then
      let block := if block.listNode.isSome then { block with listNode := none, inTree := false } else block
      some (ret,block.freeBlock,buf)
    else some (ret,block,buf)
  else some (ENOERR,{ block with readFlag := true },buf)

/-- CLZ of a word that is not 0. -/
def clz (val : Flag) : Nat := ((List.range UNSIGNED_INTEGER_BITS).find? val.getMsbD).getD UNSIGNED_INTEGER_BITS

/-- sectorPos, the data of the block, and the places and sizes of the calls of memcpy_s. -/
structure Copied where
  sectorPos : Nat
  data : Nat → UInt8
  copies : List (Nat × Nat)

section
-- memcpy_s with the size of the destination and the bytes to copy: its result, and what it puts at the destination
variable (memcpyS : Nat → List UInt8 → Int × List UInt8)

/-- At LOOP the position goes back to the end of the word. -/
def Copied.clamp (s : Copied) (i : Nat) : Copied :=
  if firstBit (i + 1) < s.sectorPos then { s with sectorPos := firstBit (i + 1) } else s

/-- A round of the inner loop of BcacheGetFlag; false is a failed memcpy_s. -/
def flagRound (bc : OsBcache) (buf : Nat → UInt8) (i f n : Nat) (s : Copied) : Bool × Copied :=
  let s := { s with sectorPos := Word.add s.sectorPos n }
  if f % EVEN_JUDGED ≠ 0 ∨ n = 0 then (true,s.clamp i)
  else
    let start := Word.sub s.sectorPos n
    let currentSize := (if firstBit (i + 1) < s.sectorPos then Word.sub (firstBit (i + 1)) start else n) * bc.sectorSize % 2^32
    let pos := start * bc.sectorSize % 2^32
    let (err,xs) := memcpyS (Word.sub bc.blockSize pos) (bytes buf pos currentSize)
    let s := { s with data := store s.data pos xs, copies := s.copies ++ [(pos,currentSize)] }
    if err ≠ EOK then (false,s) else (true,s.clamp i)

/-- The inner loop of BcacheGetFlag; none is a loop that has not ended. -/
def flagRounds (bc : OsBcache) (buf : Nat → UInt8) (i : Nat) :
    Nat → (f : Nat) → (bits : Int) → (val : Flag) → Copied → Option (Bool × Copied)
  | 0, _, _, _, _ => none
  | fuel+1, f, bits, val, s =>
    if bits ≤ 0 then some (true,s)
    else
      let n := if val = 0 then UNSIGNED_INTEGER_BITS else clz val
      match flagRound memcpyS bc buf i f n s with
      | (false,s) => some (false,s)
      | (true,s) => flagRounds bc buf i fuel (f + 1) (bits - n) (~~~(val <<< n)) s

/-- The words from i on. A word takes at most 33 rounds. -/
def flagWords (bc : OsBcache) (buf : Nat → UInt8) : List Flag → Nat → Copied → Option (Bool × Copied)
  | [], _, s => some (true,s)
  | val :: flag, i, s => do
    match ← flagRounds memcpyS bc buf i (UNSIGNED_INTEGER_BITS + 2) 0 UNSIGNED_INTEGER_BITS val s with
    | (false,s) => some (false,s)
    | (true,s) => flagWords bc buf flag (i + 1) s

/-- BcacheGetFlag: the result, the block and the calls of memcpy_s. -/
def bcacheGetFlag (bc : OsBcache) (block : OsBcacheBlock) : Option (Int × OsBcacheBlock × List (Nat × Nat)) :=
  let flag := block.flag.take (bc.sectorPerBlock >>> UNINT_LOG2_SHIFT)
  if block.readFlag then some (ENOERR,block,[])
  else if flag.foldl (· &&& ·) UINT_MAX = UINT_MAX then some (ENOERR,block,[])
  else do
    let (ret,block,buf) ← blockRead bc block
    if ret ≠ ENOERR then some (ret,block,[])
    else
      let (done,s) ← flagWords memcpyS bc buf flag 0 ⟨0,block.data,[]⟩
      some (if done then ENOERR else VFS_ERROR,{ block with data := s.data },s.copies)

end

/-- The loop of BcacheSetFlag, k rounds before its end; none is an access outside the flags. -/
def setFlags : Nat → (i j : Nat) → List Flag → Option (List Flag)
  | 0, _, _, flag => some flag
  | k+1, i, j, flag =>
    if i < flag.length then
      let flag := flag.modify i (· ||| (1#32 <<< (UNINT_MAX_SHIFT_BITS - j)))
      if j + 1 = UNSIGNED_INTEGER_BITS then setFlags k (i + 1) 0 flag else setFlags k i (j + 1) flag
    else none

/-- BcacheSetFlag. -/
def bcacheSetFlag (bc : OsBcache) (block : OsBcacheBlock) (pos size : Nat) : Option OsBcacheBlock :=
  if bc.sectorSize = 0 then some block
  else
    let start := pos / bc.sectorSize
    let num := size / bc.sectorSize
    (setFlags num (start / UNSIGNED_INTEGER_BITS) (start % UNSIGNED_INTEGER_BITS) block.flag).map fun flag => { block with flag := flag }

/-- The flag of a sector. -/
def flagBit (flag : List Flag) (k : Nat) : Bool :=
  (flag.getD (k / UNSIGNED_INTEGER_BITS) 0).getMsbD (k % UNSIGNED_INTEGER_BITS)

end LiteOsKernel.Bcache
