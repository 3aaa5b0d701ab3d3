import LiteOsKernel.Common
import LiteOsKernel.Lib.Chain
import Mathlib.Logic.Function.Basic
import Mathlib.Data.List.Range
import Mathlib.Tactic.IntervalCases

/-! The static memory box (los_membox.c): blocks of one size, whose header is the link of the free list while the block is
free and a magic number while it is allocated. Pointers are 32-bit words; the headers are a memory of their own. -/
namespace LiteOsKernel.Mem
open Chain

def OS_MEMBOX_MAGIC : Nat := 0xa55a5aa5
/-- sizeof(LOS_MEMBOX_INFO). -/
def LOS_MEMBOX_INFO_SIZE : Nat := 16
def OS_MEMBOX_NODE_HEAD_SIZE : Nat := 4

/-- LOS_MEMBOX_INFO, with the pstNext of the node at each address. -/
structure MemboxInfo where
  uwBlkSize : Nat
  uwBlkNum : Nat
  uwBlkCnt : Nat
  stFreeList : Nat
  pstNext : Nat → Nat

/-- LOS_MEMBOX_ALIGNED. -/
def losMemboxAligned (memAddr : Nat) : Nat := roundup memAddr 4

def osMemboxNext (addr blkSize : Nat) : Nat := Word.add addr blkSize
def osMemboxUserAddr (addr : Nat) : Nat := Word.add addr OS_MEMBOX_NODE_HEAD_SIZE
def osMemboxNodeAddr (addr : Nat) : Nat := Word.sub addr OS_MEMBOX_NODE_HEAD_SIZE

/-- The address boxInfo + 1. -/
def firstNode (pool : Nat) : Nat := Word.add pool LOS_MEMBOX_INFO_SIZE

/-- The loop of LOS_MemboxInit: links count nodes, each to the one behind it, and returns the last node reached. -/
def linkNodes (blkSize : Nat) : Nat → Nat → (Nat → Nat) → (Nat → Nat) × Nat
  | 0, node, next => (next,node)
  | count + 1, node, next =>
    linkNodes blkSize count (osMemboxNext node blkSize) (Function.update next node (osMemboxNext node blkSize))

/-- LOS_MemboxInit; none where it divides by zero. -/
def losMemboxInit (pool poolSize blkSize : Nat) (s : MemboxInfo) : Option (Nat × MemboxInfo) :=
  if pool = 0 then some (LOS_NOK,s)
  else if blkSize = 0 then some (LOS_NOK,s)
  else if poolSize < LOS_MEMBOX_INFO_SIZE then some (LOS_NOK,s)
  else
    let uwBlkSize := losMemboxAligned (Word.add blkSize OS_MEMBOX_NODE_HEAD_SIZE)
    if uwBlkSize = 0 then none
    else
      let uwBlkNum := (poolSize - LOS_MEMBOX_INFO_SIZE)/uwBlkSize
      let s := { s with uwBlkSize := uwBlkSize, uwBlkNum := uwBlkNum, uwBlkCnt := 0 }
      if uwBlkNum = 0 then some (LOS_NOK,s)
      else
        let (next,node) := linkNodes uwBlkSize (uwBlkNum - 1) (firstNode pool) s.pstNext
        some (LOS_OK,{ s with stFreeList := firstNode pool, pstNext := Function.update next node 0 })

/-- OsCheckBoxMem. -/
def osCheckBoxMem (pool : Nat) (s : MemboxInfo) (node : Nat) : Nat :=
  if s.uwBlkSize = 0 then LOS_NOK
  else
    let offset := Word.sub node (firstNode pool)
    if offset % s.uwBlkSize ≠ 0 then LOS_NOK
    else if s.uwBlkNum ≤ offset/s.uwBlkSize then LOS_NOK
    else if s.pstNext node = OS_MEMBOX_MAGIC then LOS_OK else LOS_NOK

/-- LOS_MemboxAlloc. -/
def losMemboxAlloc (pool : Nat) (s : MemboxInfo) : Nat × MemboxInfo :=
  if pool = 0 then (0,s)
  else if s.stFreeList ≠ 0 then
    (osMemboxUserAddr s.stFreeList,
      { s with
        stFreeList := s.pstNext s.stFreeList
        pstNext := Function.update s.pstNext s.stFreeList OS_MEMBOX_MAGIC
        uwBlkCnt := Word.add s.uwBlkCnt 1 })
  else (0,s)

/-- LOS_MemboxFree. -/
def losMemboxFree (pool : Nat) (s : MemboxInfo) (box : Nat) : Nat × MemboxInfo :=
  if pool = 0 ∨ box = 0 then (LOS_NOK,s)
  else
    let node := osMemboxNodeAddr box
    if osCheckBoxMem pool s node ≠ LOS_OK then (LOS_NOK,s)
    else
      (LOS_OK,
        { s with
          pstNext := Function.update s.pstNext node s.stFreeList
          stFreeList := node
          uwBlkCnt := Word.sub s.uwBlkCnt 1 })

theorem osCheckBoxMem_iff {pool node : Nat} {s : MemboxInfo} : osCheckBoxMem pool s node = LOS_OK ↔
    s.uwBlkSize ≠ 0 ∧ Word.sub node (firstNode pool) % s.uwBlkSize = 0 ∧
      Word.sub node (firstNode pool) / s.uwBlkSize < s.uwBlkNum ∧ s.pstNext node = OS_MEMBOX_MAGIC := by
  rw [osCheckBoxMem]
  by_cases h0 : s.uwBlkSize = 0
  · simp [h0, LOS_OK, LOS_NOK]
  · by_cases h1 : Word.sub node (firstNode pool) % s.uwBlkSize = 0
    · by_cases h2 : s.uwBlkNum ≤ Word.sub node (firstNode pool) / s.uwBlkSize
      · simp [h0, h1, h2, LOS_OK, LOS_NOK, not_lt.mpr h2]
      · by_cases h3 : s.pstNext node = OS_MEMBOX_MAGIC <;> simp [h0, h1, h2, h3, LOS_OK, LOS_NOK, not_le.mp h2]
    · simp [h0, h1, LOS_OK, LOS_NOK]

theorem losMemboxAlloc_of_ne {pool : Nat} {s : MemboxInfo} (hp : pool ≠ 0) (h : s.stFreeList ≠ 0) : losMemboxAlloc pool s =
    (osMemboxUserAddr s.stFreeList,
      { s with
        stFreeList := s.pstNext s.stFreeList
        pstNext := Function.update s.pstNext s.stFreeList OS_MEMBOX_MAGIC
        uwBlkCnt := Word.add s.uwBlkCnt 1 }) := by
  rw [losMemboxAlloc, if_neg hp, if_pos h]

theorem losMemboxFree_of_check {pool box : Nat} {s : MemboxInfo} (hp : pool ≠ 0) (h0 : OS_MEMBOX_NODE_HEAD_SIZE ≤ box)
    (h : osCheckBoxMem pool s (osMemboxNodeAddr box) = LOS_OK) : losMemboxFree pool s box =
      (LOS_OK,
        { s with
          pstNext := Function.update s.pstNext (box - OS_MEMBOX_NODE_HEAD_SIZE) s.stFreeList
          stFreeList := box - OS_MEMBOX_NODE_HEAD_SIZE
          uwBlkCnt := Word.sub s.uwBlkCnt 1 }) := by
  have hne : ¬ (pool = 0 ∨ box = 0) := by
    rw [not_or]
    refine ⟨hp,?_⟩
    rintro rfl
    exact absurd h0 (by decide)
  have hnode : osMemboxNodeAddr box = box - OS_MEMBOX_NODE_HEAD_SIZE := Word.sub_eq h0
  rw [losMemboxFree, if_neg hne]
  simp only
  rw [if_neg (not_not.mpr h), hnode]

/-- A pointer as a link; the null pointer ends a list. -/
def nodeLink (p : Nat) : Option Nat := if p = 0 then none else some p

theorem nodeLink_of_ne {p : Nat} (h : p ≠ 0) : nodeLink p = some p := if_neg h

/-- The sizes where the header and the rounding do not wrap around. -/
theorem losMemboxAligned_eq {blkSize : Nat} (h : blkSize ≤ 2^32 - 8) :
    losMemboxAligned (Word.add blkSize OS_MEMBOX_NODE_HEAD_SIZE) = (blkSize + 7)/4*4 := by
  rw [OS_MEMBOX_NODE_HEAD_SIZE, Word.add_eq (by omega), losMemboxAligned]
  exact roundup_two_pow (k := 2) (by omega) (by omega)

theorem losMemboxAligned_wrap {blkSize : Nat} (hb : blkSize < 2^32) (h : 2^32 - 8 < blkSize) :
    losMemboxAligned (Word.add blkSize OS_MEMBOX_NODE_HEAD_SIZE) = if blkSize < 2^32 - 3 then 0 else 4 := by
  obtain ⟨k,hk,rfl⟩ : ∃ k < 7, blkSize = 2^32 - 7 + k := ⟨blkSize - (2^32 - 7),by omega,by omega⟩
  rw [losMemboxAligned, roundup]
  interval_cases k <;> decide +kernel

/-- The links of count + 1 nodes that lie one behind the other. -/
theorem linkNodes_spec {blkSize : Nat} (h0 : 0 < blkSize) (count : Nat) {node : Nat} (next : Nat → Nat) (hn : node ≠ 0)
    (hfit : node + (count + 1)*blkSize ≤ 2^32) :
    Chained (fun a => nodeLink (Function.update (linkNodes blkSize count node next).1 (linkNodes blkSize count node next).2 0 a))
        (some node) (List.range' node (count + 1) blkSize) ∧
      (∀ a < node, (linkNodes blkSize count node next).1 a = next a) ∧ node ≤ (linkNodes blkSize count node next).2 := by
  induction count generalizing node next with
  | zero => exact ⟨⟨rfl,by simp [linkNodes, nodeLink, Chained]⟩,fun _ _ => rfl,Nat.le_refl _⟩
  | succ count ih =>
    have hmul : (count + 1 + 1)*blkSize = (count + 1)*blkSize + blkSize := Nat.succ_mul _ _
    have hnext : osMemboxNext node blkSize = node + blkSize := Word.add_eq (by
      have : 0 < (count + 1)*blkSize := Nat.mul_pos (Nat.succ_pos count) h0
      omega)
    obtain ⟨hchain,hlow,hlast⟩ := ih (Function.update next node (node + blkSize)) (show node + blkSize ≠ 0 by omega) (by omega)
    rw [linkNodes, hnext]
    refine ⟨⟨rfl,?_⟩,fun a ha => ?_,by omega⟩
    · simp only
      rw [Function.update_of_ne (by omega), hlow node (by omega), Function.update_self, nodeLink_of_ne (by omega)]
      exact hchain
    · rw [hlow a (by omega), Function.update_of_ne (by omega)]

end LiteOsKernel.Mem
