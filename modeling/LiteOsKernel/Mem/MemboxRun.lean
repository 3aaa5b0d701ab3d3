import LiteOsKernel.Mem.Membox
import LiteOsKernel.Lib.Run
import Mathlib.Data.List.Perm.Basic
import Mathlib.Tactic.Linarith

/-! Runs of allocations and frees on a static memory box: the free and the allocated blocks are all its blocks, each once. -/
namespace LiteOsKernel.Mem
open Chain

/-- A box with the pointers that were allocated and not freed since. -/
structure MemboxHist where
  box : MemboxInfo
  live : List Nat

inductive MemboxCall where
  | alloc
  | free (box : Nat)

namespace MemboxCall

def run (pool : Nat) (x : MemboxHist) : MemboxCall → MemboxHist
  | alloc =>
    let (p,s) := losMemboxAlloc pool x.box
    { box := s, live := if p = 0 then x.live else p :: x.live }
  | free box =>
    let (ret,s) := losMemboxFree pool x.box box
    { box := s, live := if ret = LOS_OK then x.live.erase box else x.live }

/-- A pointer is a word. -/
def Pre : MemboxCall → Prop
  | alloc => True
  | free box => box < 2^32

end MemboxCall

/-- The runs on the box s that LOS_MemboxInit left. -/
def memboxSystem (pool : Nat) (s : MemboxInfo) : Run.System MemboxHist MemboxCall where
  init x := x = ⟨s,[]⟩
  pre _ c := c.Pre
  run := MemboxCall.run pool

abbrev MemboxReachable (pool : Nat) (s : MemboxInfo) : MemboxHist → Prop :=
  Run.Reachable (memboxSystem pool s) fun _ _ => True

/-- The user addresses of the blocks. -/
def boxes (pool : Nat) (s : MemboxInfo) : List Nat :=
  List.range' (pool + LOS_MEMBOX_INFO_SIZE + OS_MEMBOX_NODE_HEAD_SIZE) s.uwBlkNum s.uwBlkSize

/-- What holds of a box in use. -/
structure MemboxGood (pool poolSize blkSize : Nat) (x : MemboxHist) : Prop where
  /-- The free list and the allocated blocks are the blocks of the pool. -/
  parts : ∃ free, Chained (fun a => nodeLink (x.box.pstNext a)) (nodeLink x.box.stFreeList) free ∧
    (free.map (· + OS_MEMBOX_NODE_HEAD_SIZE) ++ x.live).Perm (boxes pool x.box)
  count : x.box.uwBlkCnt = x.live.length
  apart : x.live.Pairwise fun p q =>
    p + blkSize ≤ q - OS_MEMBOX_NODE_HEAD_SIZE ∨ q + blkSize ≤ p - OS_MEMBOX_NODE_HEAD_SIZE
  inside : ∀ p ∈ x.live, pool + LOS_MEMBOX_INFO_SIZE + OS_MEMBOX_NODE_HEAD_SIZE ≤ p ∧ p + blkSize ≤ pool + poolSize
  /-- An allocation fails only when every block is allocated. -/
  alloc : (losMemboxAlloc pool x.box).1 = 0 → x.live.Perm (boxes pool x.box)
  free : ∀ p < 2^32, (losMemboxFree pool x.box p).1 = LOS_OK ↔ p ∈ x.live
  refused : ∀ p < 2^32, p ∉ x.live → (losMemboxFree pool x.box p).2 = x.box

/-- The law of the memory box: it is made without a division by zero, its blocks are large enough, and every run is good. -/
def MemboxLaw (pool poolSize blkSize : Nat) : Prop :=
  ∀ s, losMemboxInit pool poolSize blkSize s ≠ none ∧
    ∀ s', losMemboxInit pool poolSize blkSize s = some (LOS_OK,s') →
      blkSize + OS_MEMBOX_NODE_HEAD_SIZE ≤ s'.uwBlkSize ∧ s'.uwBlkNum * s'.uwBlkSize + LOS_MEMBOX_INFO_SIZE ≤ poolSize ∧
      ∀ x, MemboxReachable pool s' x → MemboxGood pool poolSize blkSize x

/-- Some block of a pool with two or more lies at the address that is the magic number. -/
def MagicBlock (pool uwBlkSize uwBlkNum : Nat) : Prop :=
  2 ≤ uwBlkNum ∧ ∃ i < uwBlkNum, pool + LOS_MEMBOX_INFO_SIZE + i*uwBlkSize = OS_MEMBOX_MAGIC

instance (pool uwBlkSize uwBlkNum : Nat) : Decidable (MagicBlock pool uwBlkSize uwBlkNum) :=
  inferInstanceAs (Decidable (_ ∧ _))

/-- The call is refused before it divides or makes a block. -/
def Refused (pool poolSize blkSize : Nat) : Prop :=
  pool = 0 ∨ blkSize = 0 ∨ poolSize < LOS_MEMBOX_INFO_SIZE ∨
    2^32 - 4 < blkSize ∧ poolSize < LOS_MEMBOX_INFO_SIZE + 4

/-- The condition: the call is refused, or the block size with its header does not wrap around and no block lies at the magic number. -/
def MemboxOk (pool poolSize blkSize : Nat) : Prop :=
  Refused pool poolSize blkSize ∨
    blkSize ≤ 2^32 - 8 ∧ ¬ MagicBlock pool (losMemboxAligned (Word.add blkSize OS_MEMBOX_NODE_HEAD_SIZE))
      ((poolSize - LOS_MEMBOX_INFO_SIZE)/losMemboxAligned (Word.add blkSize OS_MEMBOX_NODE_HEAD_SIZE))

instance (pool poolSize blkSize : Nat) : Decidable (MemboxOk pool poolSize blkSize) :=
  inferInstanceAs (Decidable ((_ ∨ _ ∨ _ ∨ _ ∧ _) ∨ _ ∧ ¬ _))

section

variable {pool poolSize blkSize : Nat} {s s' : MemboxInfo} {x : MemboxHist}

/-- What LOS_MemboxInit leaves when it makes blocks. -/
structure Made (pool poolSize : Nat) (s : MemboxInfo) : Prop where
  nonnull : pool ≠ 0
  size : 8 ≤ s.uwBlkSize
  num : 0 < s.uwBlkNum
  fit : pool + LOS_MEMBOX_INFO_SIZE + s.uwBlkNum * s.uwBlkSize ≤ pool + poolSize
  word : pool + poolSize ≤ 2^32

theorem Made.firstNode (h : Made pool poolSize s) : firstNode pool = pool + LOS_MEMBOX_INFO_SIZE := by
  have := h.fit
  have := h.word
  have := Nat.le_mul_of_pos_left s.uwBlkSize h.num
  have := h.size
  exact Word.add_eq (by omega)

private theorem mem_boxes {p : Nat} : p ∈ boxes pool s ↔
    ∃ i < s.uwBlkNum, p = pool + LOS_MEMBOX_INFO_SIZE + OS_MEMBOX_NODE_HEAD_SIZE + s.uwBlkSize*i := by
  rw [boxes, List.mem_range']

/-- A block with the address of its node ends in the pool. -/
private theorem Made.block_le (h : Made pool poolSize s) {i : Nat} (hi : i < s.uwBlkNum) :
    pool + LOS_MEMBOX_INFO_SIZE + s.uwBlkSize*i + s.uwBlkSize ≤ pool + poolSize := by
  have := h.fit
  have h1 := Nat.mul_le_mul_left s.uwBlkSize (Nat.succ_le_of_lt hi)
  rw [Nat.mul_succ] at h1
  rw [Nat.mul_comm s.uwBlkNum] at this
  omega

/-- The check of a pointer: it is the user address of a block whose header holds the magic number. -/
private theorem Made.check (h : Made pool poolSize s) {p : Nat} (hp : p < 2^32) :
    osCheckBoxMem pool s (osMemboxNodeAddr p) = LOS_OK ↔
      p ∈ boxes pool s ∧ s.pstNext (p - OS_MEMBOX_NODE_HEAD_SIZE) = OS_MEMBOX_MAGIC := by
  have hsize := h.size
  have hword := h.word
  rw [mem_boxes, osCheckBoxMem_iff, h.firstNode, osMemboxNodeAddr]
  constructor
  · rintro ⟨-,hmod,hdiv,hmagic⟩
    have hend := h.block_le hdiv
    rw [Nat.mul_div_cancel' (Nat.dvd_of_mod_eq_zero hmod)] at hend
    have hoff := Nat.mul_div_cancel' (Nat.dvd_of_mod_eq_zero hmod)
    have hp4 : OS_MEMBOX_NODE_HEAD_SIZE ≤ p := by
      by_contra hlt
      rw [OS_MEMBOX_NODE_HEAD_SIZE, LOS_MEMBOX_INFO_SIZE] at *
      rw [Word.sub_eq_of_lt (not_le.mp hlt), Word.sub_eq (by omega)] at hend
      omega
    rw [Word.sub_eq hp4] at hoff hmagic hend hdiv
    refine ⟨⟨_,hdiv,?_⟩,hmagic⟩
    rw [hoff]
    by_cases hle : pool + LOS_MEMBOX_INFO_SIZE ≤ p - OS_MEMBOX_NODE_HEAD_SIZE
    · rw [Word.sub_eq hle]
      omega
    · rw [Word.sub_eq_of_lt (not_le.mp hle)] at hend
      omega
  · rintro ⟨⟨i,hi,rfl⟩,hmagic⟩
    have hnode : Word.sub (pool + LOS_MEMBOX_INFO_SIZE + OS_MEMBOX_NODE_HEAD_SIZE + s.uwBlkSize*i) OS_MEMBOX_NODE_HEAD_SIZE =
        pool + LOS_MEMBOX_INFO_SIZE + s.uwBlkSize*i := by
      rw [Word.sub_eq (by omega)]
      omega
    have hoff : Word.sub (pool + LOS_MEMBOX_INFO_SIZE + s.uwBlkSize*i) (pool + LOS_MEMBOX_INFO_SIZE) = s.uwBlkSize*i := by
      rw [Word.sub_eq (by omega)]
      omega
    rw [hnode, hoff, Nat.mul_div_cancel_left _ (by omega)]
    refine ⟨by omega,Nat.mul_mod_right _ _,hi,?_⟩
    rw [← hmagic]
    congr 1
    omega

theorem Made.nodup (h : Made pool poolSize s) : (boxes pool s).Nodup :=
  List.nodup_range' _ (by have := h.size; omega)

theorem Made.length_le (h : Made pool poolSize s) : (boxes pool s).length < 2^32 := by
  have := h.fit
  have := h.word
  have := Nat.le_mul_of_pos_right s.uwBlkNum (show 0 < s.uwBlkSize by have := h.size; omega)
  rw [boxes, List.length_range']
  rw [LOS_MEMBOX_INFO_SIZE] at *
  omega

theorem Made.congr (h : Made pool poolSize s) (hs : s'.uwBlkSize = s.uwBlkSize) (hn : s'.uwBlkNum = s.uwBlkNum) :
    Made pool poolSize s' :=
  ⟨h.nonnull,by rw [hs]; exact h.size,by rw [hn]; exact h.num,by rw [hs, hn]; exact h.fit,h.word⟩

/-- The node of a block is a word with room for the header. -/
private theorem Made.node_lt (h : Made pool poolSize s) {a : Nat} (ha : a + OS_MEMBOX_NODE_HEAD_SIZE ∈ boxes pool s) :
    a ≠ 0 ∧ a + OS_MEMBOX_NODE_HEAD_SIZE < 2^32 := by
  obtain ⟨i,hi,he⟩ := mem_boxes.mp ha
  have := h.block_le hi
  have := h.word
  have := h.size
  rw [OS_MEMBOX_NODE_HEAD_SIZE, LOS_MEMBOX_INFO_SIZE] at *
  omega

private theorem Made.run_alloc (h : Made pool poolSize s) (ha : s.stFreeList + OS_MEMBOX_NODE_HEAD_SIZE ∈ boxes pool s) (live : List Nat) :
    MemboxCall.alloc.run pool ⟨s,live⟩ =
      ⟨{ s with
          stFreeList := s.pstNext s.stFreeList
          pstNext := Function.update s.pstNext s.stFreeList OS_MEMBOX_MAGIC
          uwBlkCnt := Word.add s.uwBlkCnt 1 },(s.stFreeList + OS_MEMBOX_NODE_HEAD_SIZE) :: live⟩ := by
  obtain ⟨h0,hlt⟩ := h.node_lt ha
  rw [MemboxCall.run, losMemboxAlloc_of_ne h.nonnull h0, osMemboxUserAddr, Word.add_eq hlt]
  simp only [Nat.add_eq_zero_iff, h0, false_and, if_false]

theorem Made.run_free (h : Made pool poolSize s) {a : Nat} (ha : a + OS_MEMBOX_NODE_HEAD_SIZE ∈ boxes pool s)
    (hmagic : s.pstNext a = OS_MEMBOX_MAGIC) (live : List Nat) :
    (MemboxCall.free (a + OS_MEMBOX_NODE_HEAD_SIZE)).run pool ⟨s,live⟩ =
      ⟨{ s with pstNext := Function.update s.pstNext a s.stFreeList, stFreeList := a, uwBlkCnt := Word.sub s.uwBlkCnt 1 },
        live.erase (a + OS_MEMBOX_NODE_HEAD_SIZE)⟩ := by
  have hcheck := (h.check (h.node_lt ha).2).mpr ⟨ha,by rwa [Nat.add_sub_cancel]⟩
  rw [MemboxCall.run, losMemboxFree_of_check h.nonnull (by omega) hcheck, Nat.add_sub_cancel]
  simp only [if_true]

/-- The invariant: the free and the allocated blocks are the blocks, and the headers of the allocated ones hold the magic number. -/
structure MemboxInv (pool poolSize blkSize : Nat) (x : MemboxHist) : Prop where
  made : Made pool poolSize x.box
  room : blkSize + OS_MEMBOX_NODE_HEAD_SIZE ≤ x.box.uwBlkSize
  plain : ¬ MagicBlock pool x.box.uwBlkSize x.box.uwBlkNum
  parts : ∃ free, Chained (fun a => nodeLink (x.box.pstNext a)) (nodeLink x.box.stFreeList) free ∧
    (free.map (· + OS_MEMBOX_NODE_HEAD_SIZE) ++ x.live).Perm (boxes pool x.box)
  magic : ∀ p ∈ x.live, x.box.pstNext (p - OS_MEMBOX_NODE_HEAD_SIZE) = OS_MEMBOX_MAGIC
  count : x.box.uwBlkCnt = x.live.length

/-- No header of a free block holds the magic number. -/
private theorem free_not_magic {free : List Nat} (hp : ¬ MagicBlock pool s.uwBlkSize s.uwBlkNum)
    (hc : Chained (fun a => nodeLink (s.pstNext a)) (nodeLink s.stFreeList) free) (hd : free.Nodup)
    (hsub : ∀ a ∈ free, a + OS_MEMBOX_NODE_HEAD_SIZE ∈ boxes pool s) {a : Nat} (ha : a ∈ free) :
    s.pstNext a ≠ OS_MEMBOX_MAGIC := by
  intro hn
  have hlink : nodeLink (s.pstNext a) = some OS_MEMBOX_MAGIC := by
    rw [hn]
    exact nodeLink_of_ne (by decide)
  rcases hc.next_mem hd ha with h0 | ⟨c,hcf,hca,hc'⟩
  · rw [hlink] at h0
    cases h0
  · rw [hlink] at hc'
    cases hc'
    obtain ⟨i,hi,hia⟩ := mem_boxes.mp (hsub a ha)
    obtain ⟨j,hj,hja⟩ := mem_boxes.mp (hsub _ hcf)
    refine hp ⟨?_,j,hj,by rw [Nat.mul_comm]; omega⟩
    by_contra hone
    obtain rfl : i = j := by omega
    exact hca (by omega)

/-- A pointer passes the check of LOS_MemboxFree exactly when it is allocated. -/
private theorem MemboxInv.check (h : MemboxInv pool poolSize blkSize x) {p : Nat} (hp : p < 2^32) :
    osCheckBoxMem pool x.box (osMemboxNodeAddr p) = LOS_OK ↔ p ∈ x.live := by
  obtain ⟨free,hchain,hperm⟩ := h.parts
  have hd := hperm.nodup_iff.mpr h.made.nodup
  rw [h.made.check hp]
  constructor
  · rintro ⟨hbox,hmagic⟩
    rcases List.mem_append.mp (hperm.mem_iff.mpr hbox) with hf | hl
    · obtain ⟨a,ha,rfl⟩ := List.mem_map.mp hf
      refine absurd hmagic ?_
      rw [Nat.add_sub_cancel]
      exact free_not_magic h.plain hchain (List.Nodup.of_map _ (List.nodup_append.mp hd).1)
        (fun b hb => hperm.mem_iff.mp (List.mem_append_left _ (List.mem_map_of_mem hb))) ha
    · exact hl
  · intro hl
    exact ⟨hperm.mem_iff.mp (List.mem_append_right _ hl),h.magic p hl⟩

private theorem MemboxInv.nonnull_live (h : MemboxInv pool poolSize blkSize x) {p : Nat} (hp : p ∈ x.live) :
    OS_MEMBOX_NODE_HEAD_SIZE ≤ p := by
  obtain ⟨free,-,hperm⟩ := h.parts
  obtain ⟨i,-,rfl⟩ := mem_boxes.mp (hperm.mem_iff.mp (List.mem_append_right _ hp))
  omega

theorem MemboxInv.free_eq (h : MemboxInv pool poolSize blkSize x) {p : Nat} (hp : p < 2^32) :
    losMemboxFree pool x.box p =
      if p ∈ x.live then
        (LOS_OK,{ x.box with pstNext := Function.update x.box.pstNext (p - OS_MEMBOX_NODE_HEAD_SIZE) x.box.stFreeList
                             stFreeList := p - OS_MEMBOX_NODE_HEAD_SIZE, uwBlkCnt := Word.sub x.box.uwBlkCnt 1 })
      else (LOS_NOK,x.box) := by
  by_cases hl : p ∈ x.live
  · rw [if_pos hl, losMemboxFree_of_check h.made.nonnull (h.nonnull_live hl) ((h.check hp).mpr hl)]
  · rw [if_neg hl, losMemboxFree]
    split
    · rfl
    · simp only
      rw [if_pos fun hc => hl ((h.check hp).mp hc)]

theorem MemboxInv.alloc (h : MemboxInv pool poolSize blkSize x) : MemboxInv pool poolSize blkSize (MemboxCall.alloc.run pool x) := by
  obtain ⟨free,hchain,hperm⟩ := h.parts
  have hd := hperm.nodup_iff.mpr h.made.nodup
  by_cases h0 : x.box.stFreeList = 0
  · rw [MemboxCall.run, losMemboxAlloc, if_neg h.made.nonnull, if_neg (not_not.mpr h0)]
    exact h
  · rw [nodeLink_of_ne h0] at hchain
    obtain ⟨a,rest,rfl⟩ : ∃ a rest, free = a :: rest := by
      cases free with
      | nil => exact hchain.elim
      | cons a rest => exact ⟨a,rest,rfl⟩
    obtain ⟨ha,hchain⟩ := hchain
    subst ha
    rw [List.map_cons] at hd hperm
    have hbox : x.box.stFreeList + OS_MEMBOX_NODE_HEAD_SIZE ∈ boxes pool x.box := hperm.mem_iff.mp List.mem_cons_self
    have hlen : x.live.length + 1 < 2^32 := by
      have h1 := hperm.length_eq
      have h2 := h.made.length_le
      rw [List.cons_append, List.length_cons, List.length_append] at h1
      omega
    have hnot : ∀ p ∈ x.live, p - OS_MEMBOX_NODE_HEAD_SIZE ≠ x.box.stFreeList := by
      intro p hp he
      refine (List.nodup_cons.mp hd).1 (List.mem_append_right _ ?_)
      have := h.nonnull_live hp
      rwa [← he, Nat.sub_add_cancel this]
    have hrun := h.made.run_alloc hbox x.live
    rw [hrun]
    refine ⟨⟨h.made.nonnull,h.made.size,h.made.num,h.made.fit,h.made.word⟩,h.room,h.plain,⟨rest,?_,?_⟩,?_,?_⟩
    · refine hchain.congr fun b hb => ?_
      have hbne : b ≠ x.box.stFreeList := by
        rintro rfl
        exact (List.nodup_cons.mp hd).1 (List.mem_append_left _ (List.mem_map_of_mem hb))
      simp only [Function.update_of_ne hbne]
    · exact List.perm_middle.trans hperm
    · intro p hp
      simp only at hp ⊢
      rcases List.mem_cons.mp hp with rfl | hp
      · rw [Nat.add_sub_cancel, Function.update_self]
      · rw [Function.update_of_ne (hnot p hp)]
        exact h.magic p hp
    · simp only [List.length_cons]
      rw [Word.add_eq (by rw [h.count]; exact hlen), h.count]

theorem MemboxInv.free (h : MemboxInv pool poolSize blkSize x) {p : Nat} (hp : p < 2^32) :
    MemboxInv pool poolSize blkSize ((MemboxCall.free p).run pool x) := by
  rw [MemboxCall.run, h.free_eq hp]
  by_cases hl : p ∈ x.live
  · rw [if_pos hl]
    obtain ⟨free,hchain,hperm⟩ := h.parts
    have hd := hperm.nodup_iff.mpr h.made.nodup
    have hp4 := h.nonnull_live hl
    have hdl := List.nodup_append.mp hd
    have hnode : p - OS_MEMBOX_NODE_HEAD_SIZE ≠ 0 := by
      obtain ⟨i,-,rfl⟩ := mem_boxes.mp (hperm.mem_iff.mp (List.mem_append_right _ hl))
      rw [LOS_MEMBOX_INFO_SIZE]
      omega
    have hcount : 0 < x.live.length := List.length_pos_of_mem hl
    refine ⟨⟨h.made.nonnull,h.made.size,h.made.num,h.made.fit,h.made.word⟩,h.room,h.plain,
      ⟨(p - OS_MEMBOX_NODE_HEAD_SIZE) :: free,?_,?_⟩,?_,?_⟩
    · simp only [nodeLink_of_ne hnode]
      refine ⟨rfl,?_⟩
      simp only [Function.update_self]
      refine hchain.congr fun b hb => ?_
      have hbne : b ≠ p - OS_MEMBOX_NODE_HEAD_SIZE := by
        rintro rfl
        refine hdl.2.2 _ (List.mem_map_of_mem hb) _ hl ?_
        exact Nat.sub_add_cancel hp4
      simp only [Function.update_of_ne hbne]
    · simp only [if_pos, List.map_cons, Nat.sub_add_cancel hp4]
      refine List.Perm.trans ?_ hperm
      refine List.Perm.trans ?_ (List.Perm.append_left _ (List.perm_cons_erase hl).symm)
      exact List.perm_middle.symm
    · intro q hq
      simp only [if_pos] at hq ⊢
      have hq' := (List.Nodup.mem_erase_iff hdl.2.1).mp hq
      have hq4 := h.nonnull_live hq'.2
      rw [Function.update_of_ne (by have := hq'.1; omega)]
      exact h.magic q hq'.2
    · simp only [if_pos, List.length_erase_of_mem hl]
      rw [Word.sub_eq (by rw [h.count]; exact hcount), h.count]
  · rw [if_neg hl]
    exact h

/-- One call keeps the invariant. -/
theorem MemboxInv.run (h : MemboxInv pool poolSize blkSize x) (c : MemboxCall) (hc : c.Pre) :
    MemboxInv pool poolSize blkSize (c.run pool x) := by
  cases c with
  | alloc => exact h.alloc
  | free p => exact h.free hc

/-- What LOS_MemboxInit does where the size does not wrap around. -/
private theorem losMemboxInit_of_le (hb : blkSize ≤ 2^32 - 8) (hfit : pool + poolSize ≤ 2^32) (s : MemboxInfo) :
    losMemboxInit pool poolSize blkSize s ≠ none ∧ ∀ s', losMemboxInit pool poolSize blkSize s = some (LOS_OK,s') →
      Made pool poolSize s' ∧ s'.uwBlkSize = losMemboxAligned (Word.add blkSize OS_MEMBOX_NODE_HEAD_SIZE) ∧
      s'.uwBlkNum = (poolSize - LOS_MEMBOX_INFO_SIZE)/s'.uwBlkSize ∧ blkSize + OS_MEMBOX_NODE_HEAD_SIZE ≤ s'.uwBlkSize ∧
      s'.uwBlkCnt = 0 ∧ Chained (fun a => nodeLink (s'.pstNext a)) (nodeLink s'.stFreeList)
        (List.range' (pool + LOS_MEMBOX_INFO_SIZE) s'.uwBlkNum s'.uwBlkSize) := by
  rw [losMemboxInit]
  by_cases hp : pool = 0
  · simp [hp, LOS_OK, LOS_NOK]
  by_cases h0 : blkSize = 0
  · simp [hp, h0, LOS_OK, LOS_NOK]
  by_cases h16 : poolSize < LOS_MEMBOX_INFO_SIZE
  · simp [hp, h0, h16, LOS_OK, LOS_NOK]
  rw [if_neg hp, if_neg h0, if_neg h16]
  obtain ⟨sz,hsz⟩ : ∃ sz, sz = losMemboxAligned (Word.add blkSize OS_MEMBOX_NODE_HEAD_SIZE) := ⟨_,rfl⟩
  have hval := hsz.trans (losMemboxAligned_eq hb)
  have hdvd := Nat.div_add_mod (blkSize + 7) 4
  simp only [← hsz]
  rw [if_neg (show sz ≠ 0 by omega)]
  by_cases hn : (poolSize - LOS_MEMBOX_INFO_SIZE)/sz = 0
  · simp [hn, LOS_OK, LOS_NOK]
  rw [if_neg hn]
  refine ⟨Option.some_ne_none _,?_⟩
  rintro s' h
  cases h
  have hmul := Nat.div_mul_le_self (poolSize - LOS_MEMBOX_INFO_SIZE) sz
  have hmade : Made pool poolSize ⟨sz,(poolSize - LOS_MEMBOX_INFO_SIZE)/sz,0,firstNode pool,s.pstNext⟩ :=
    ⟨hp,by simp only; omega,Nat.pos_of_ne_zero hn,by simp only; omega,hfit⟩
  have hfirst := hmade.firstNode
  refine ⟨⟨hp,by simp only; omega,Nat.pos_of_ne_zero hn,by simp only; omega,hfit⟩,rfl,rfl,?_,rfl,?_⟩
  · rw [OS_MEMBOX_NODE_HEAD_SIZE]
    simp only
    omega
  · simp only [hfirst]
    rw [nodeLink_of_ne (by omega)]
    have hcount : (poolSize - LOS_MEMBOX_INFO_SIZE)/sz - 1 + 1 = (poolSize - LOS_MEMBOX_INFO_SIZE)/sz :=
      Nat.succ_pred hn
    have := (linkNodes_spec (show 0 < sz by omega) ((poolSize - LOS_MEMBOX_INFO_SIZE)/sz - 1) s.pstNext
      (show pool + LOS_MEMBOX_INFO_SIZE ≠ 0 by omega) (by rw [hcount]; omega)).1
    rwa [hcount] at this

/-- The blocks of a made box lie one behind the other; two of them are a block apart. -/
private theorem boxes_apart {p q : Nat} (hp : p ∈ boxes pool s) (hq : q ∈ boxes pool s) (hne : p ≠ q) :
    p + s.uwBlkSize ≤ q ∨ q + s.uwBlkSize ≤ p := by
  obtain ⟨i,-,rfl⟩ := mem_boxes.mp hp
  obtain ⟨j,-,rfl⟩ := mem_boxes.mp hq
  rcases Nat.lt_trichotomy i j with h | rfl | h
  · have := Nat.mul_le_mul_left s.uwBlkSize (Nat.succ_le_of_lt h)
    rw [Nat.mul_succ] at this
    omega
  · exact absurd rfl hne
  · have := Nat.mul_le_mul_left s.uwBlkSize (Nat.succ_le_of_lt h)
    rw [Nat.mul_succ] at this
    omega

theorem MemboxInv.good (h : MemboxInv pool poolSize blkSize x) : MemboxGood pool poolSize blkSize x := by
  obtain ⟨free,hchain,hperm⟩ := h.parts
  have hd := (List.nodup_append.mp (hperm.nodup_iff.mpr h.made.nodup)).2.1
  have hbox : ∀ p ∈ x.live, p ∈ boxes pool x.box := fun p hp => hperm.mem_iff.mp (List.mem_append_right _ hp)
  have hroom := h.room
  refine ⟨⟨free,hchain,hperm⟩,h.count,?_,?_,?_,?_,?_⟩
  · refine List.Pairwise.imp_of_mem ?_ hd
    intro p q hp hq hne
    have := boxes_apart (hbox p hp) (hbox q hq) hne
    omega
  · intro p hp
    obtain ⟨i,hi,rfl⟩ := mem_boxes.mp (hbox p hp)
    have := h.made.block_le hi
    omega
  · intro h0
    by_cases hfree : x.box.stFreeList = 0
    · rw [hfree] at hchain
      cases free with
      | nil => exact hperm
      | cons => exact hchain.elim
    · rw [losMemboxAlloc_of_ne h.made.nonnull hfree] at h0
      rw [nodeLink_of_ne hfree] at hchain
      cases free with
      | nil => exact hchain.elim
      | cons a rest =>
        obtain ⟨i,hi,he⟩ := mem_boxes.mp (hperm.mem_iff.mp (List.mem_append_left x.live (List.mem_map_of_mem List.mem_cons_self)))
        have := h.made.block_le hi
        have := h.made.word
        have := h.made.size
        have h4 : OS_MEMBOX_NODE_HEAD_SIZE = 4 := rfl
        rw [hchain.1, osMemboxUserAddr, Word.add_eq (by omega)] at h0
        omega
  · intro p hp
    rw [h.free_eq hp]
    by_cases hl : p ∈ x.live <;> simp [hl, LOS_OK, LOS_NOK]
  · intro p hp hl
    rw [h.free_eq hp, if_neg hl]

/-- A size that does not wrap around and no block at the magic number: the law holds. -/
private theorem memboxLaw_of_le (hfit : pool + poolSize ≤ 2^32) (hb : blkSize ≤ 2^32 - 8)
    (hm : ¬ MagicBlock pool (losMemboxAligned (Word.add blkSize OS_MEMBOX_NODE_HEAD_SIZE))
      ((poolSize - LOS_MEMBOX_INFO_SIZE)/losMemboxAligned (Word.add blkSize OS_MEMBOX_NODE_HEAD_SIZE))) :
    MemboxLaw pool poolSize blkSize := by
  intro s
  obtain ⟨hne,hok⟩ := losMemboxInit_of_le hb hfit s
  refine ⟨hne,fun s' hs => ?_⟩
  obtain ⟨hmade,hsz,hnum,hroom,hcnt,hchain⟩ := hok s' hs
  refine ⟨hroom,by have := hmade.fit; omega,fun x hx => ?_⟩
  have hinv : MemboxInv pool poolSize blkSize x := by
    refine hx.invariant ?_ fun y c hy hc _ => hy.run c hc
    rintro _ rfl
    refine ⟨hmade,hroom,?_,⟨_,hchain,?_⟩,fun p hp => absurd hp List.not_mem_nil,hcnt⟩
    · rw [hnum, hsz]
      exact hm
    · have hadd : (fun a => a + OS_MEMBOX_NODE_HEAD_SIZE) = (OS_MEMBOX_NODE_HEAD_SIZE + ·) := by
        funext a
        exact Nat.add_comm a OS_MEMBOX_NODE_HEAD_SIZE
      rw [List.append_nil, boxes, hadd, List.map_add_range', Nat.add_comm OS_MEMBOX_NODE_HEAD_SIZE]
  exact hinv.good

/-- A refused call makes no box. -/
private theorem memboxLaw_of_refused (hb : blkSize < 2^32) (h : Refused pool poolSize blkSize) : MemboxLaw pool poolSize blkSize := by
  intro s
  have hok : losMemboxInit pool poolSize blkSize s ≠ none ∧ ∀ s', losMemboxInit pool poolSize blkSize s ≠ some (LOS_OK,s') := by
    rw [losMemboxInit]
    by_cases hp : pool = 0
    · simp [hp, LOS_OK, LOS_NOK]
    by_cases h0 : blkSize = 0
    · simp [hp, h0, LOS_OK, LOS_NOK]
    by_cases h16 : poolSize < LOS_MEMBOX_INFO_SIZE
    · simp [hp, h0, h16, LOS_OK, LOS_NOK]
    obtain h | h | h | ⟨hwrap,h20⟩ := h
    · exact absurd h hp
    · exact absurd h h0
    · exact absurd h h16
    · have hdiv : (poolSize - LOS_MEMBOX_INFO_SIZE)/4 = 0 := Nat.div_eq_of_lt (by omega)
      have hsz : losMemboxAligned (Word.add blkSize OS_MEMBOX_NODE_HEAD_SIZE) = 4 := by
        rw [losMemboxAligned_wrap hb (by omega), if_neg (by omega)]
      rw [if_neg hp, if_neg h0, if_neg h16]
      simp only [hsz, hdiv]
      simp [LOS_OK, LOS_NOK]
  exact ⟨hok.1,fun s' hs => absurd hs (hok.2 s')⟩

/-- A size that wraps around: a division by zero, or blocks of four bytes. -/
private theorem not_memboxLaw_of_wrap (hb : blkSize < 2^32) (hr : ¬ Refused pool poolSize blkSize) (hwrap : 2^32 - 8 < blkSize) :
    ¬ MemboxLaw pool poolSize blkSize := by
  intro hlaw
  simp only [Refused, not_or, not_and, not_lt] at hr
  obtain ⟨hp,h0,h16,h20⟩ := hr
  obtain ⟨hne,hsize⟩ := hlaw ⟨0,0,0,0,fun _ => 0⟩
  rw [losMemboxInit, if_neg hp, if_neg h0, if_neg (not_lt.mpr h16)] at hne hsize
  have hsz := losMemboxAligned_wrap hb hwrap
  by_cases hlt : blkSize < 2^32 - 3
  · rw [if_pos hlt] at hsz
    simp only [hsz, if_true] at hne
    exact hne rfl
  · rw [if_neg hlt] at hsz
    have hnum : (poolSize - LOS_MEMBOX_INFO_SIZE)/4 ≠ 0 := by
      have := h20 (by omega)
      omega
    simp only [hsz, OfNat.ofNat_ne_zero, hnum, if_false] at hsize
    have := (hsize _ rfl).1
    simp only at this
    omega

/-- The call succeeds when some block fits. -/
private theorem losMemboxInit_isOk (hp : pool ≠ 0) (h0 : blkSize ≠ 0) (h16 : ¬ poolSize < LOS_MEMBOX_INFO_SIZE) (s : MemboxInfo)
    (hsz : losMemboxAligned (Word.add blkSize OS_MEMBOX_NODE_HEAD_SIZE) ≠ 0)
    (hn : (poolSize - LOS_MEMBOX_INFO_SIZE)/losMemboxAligned (Word.add blkSize OS_MEMBOX_NODE_HEAD_SIZE) ≠ 0) :
    ∃ s', losMemboxInit pool poolSize blkSize s = some (LOS_OK,s') := by
  rw [losMemboxInit, if_neg hp, if_neg h0, if_neg h16]
  simp only [hsz, hn, if_false]
  exact ⟨_,rfl⟩

/-- A free block whose header holds the magic number is freed again. -/
private theorem not_good_of_magic_next (h : Made pool poolSize s) {a : Nat} (ha : a + OS_MEMBOX_NODE_HEAD_SIZE ∈ boxes pool s)
    (hmagic : s.pstNext a = OS_MEMBOX_MAGIC) {live : List Nat} (hl : a + OS_MEMBOX_NODE_HEAD_SIZE ∉ live) :
    ¬ MemboxGood pool poolSize blkSize ⟨s,live⟩ := by
  intro hgood
  have hlt := (h.node_lt ha).2
  refine hl ((hgood.free _ hlt).mp ?_)
  rw [losMemboxFree_of_check h.nonnull (by omega) ((h.check hlt).mpr ⟨ha,by rwa [Nat.add_sub_cancel]⟩)]

section

variable {t : MemboxInfo} {live : List Nat} {a b : Nat}

private theorem reachable_alloc (hr : MemboxReachable pool s ⟨t,live⟩) (h : Made pool poolSize t) (hf : t.stFreeList = a)
    (ha : a + OS_MEMBOX_NODE_HEAD_SIZE ∈ boxes pool t) :
    ∃ t', MemboxReachable pool s ⟨t',(a + OS_MEMBOX_NODE_HEAD_SIZE) :: live⟩ ∧ Made pool poolSize t' ∧ boxes pool t' = boxes pool t ∧
      t'.stFreeList = t.pstNext a ∧ t'.pstNext = Function.update t.pstNext a OS_MEMBOX_MAGIC := by
  subst hf
  have this : MemboxReachable pool s (MemboxCall.alloc.run pool ⟨t,live⟩) := hr.call .alloc trivial trivial
  rw [h.run_alloc ha] at this
  exact ⟨_,this,h.congr rfl rfl,rfl,rfl,rfl⟩

private theorem reachable_free (hr : MemboxReachable pool s ⟨t,live⟩) (h : Made pool poolSize t)
    (ha : a + OS_MEMBOX_NODE_HEAD_SIZE ∈ boxes pool t) (hmagic : t.pstNext a = OS_MEMBOX_MAGIC) :
    ∃ t', MemboxReachable pool s ⟨t',live.erase (a + OS_MEMBOX_NODE_HEAD_SIZE)⟩ ∧ Made pool poolSize t' ∧
      boxes pool t' = boxes pool t ∧ t'.stFreeList = a ∧ t'.pstNext = Function.update t.pstNext a t.stFreeList := by
  have this : MemboxReachable pool s ((MemboxCall.free (a + OS_MEMBOX_NODE_HEAD_SIZE)).run pool ⟨t,live⟩) :=
    hr.call (.free _) (h.node_lt ha).2 trivial
  rw [h.run_free ha hmagic] at this
  exact ⟨_,this,h.congr rfl rfl,rfl,rfl,rfl⟩

/-- The first block at the magic number: after two allocations and two frees the second block passes as allocated. -/
private theorem not_good_of_magic_first (h : Made pool poolSize s) (ha : a + OS_MEMBOX_NODE_HEAD_SIZE ∈ boxes pool s)
    (hb : b + OS_MEMBOX_NODE_HEAD_SIZE ∈ boxes pool s) (hab : a ≠ b) (hmagic : a = OS_MEMBOX_MAGIC)
    (hfirst : s.stFreeList = a) (hnext : s.pstNext a = b) :
    ∃ x, MemboxReachable pool s x ∧ ¬ MemboxGood pool poolSize blkSize x := by
  obtain ⟨s1,r1,m1,b1,f1,n1⟩ := reachable_alloc (.init rfl) h hfirst ha
  rw [hnext] at f1
  obtain ⟨s2,r2,m2,b2,-,n2⟩ := reachable_alloc r1 m1 f1 (by rw [b1]; exact hb)
  have ha2 : s2.pstNext a = OS_MEMBOX_MAGIC := by rw [n2, Function.update_of_ne hab, n1, Function.update_self]
  have hb2 : s2.pstNext b = OS_MEMBOX_MAGIC := by rw [n2, Function.update_self]
  obtain ⟨s3,r3,m3,b3,f3,n3⟩ := reachable_free r2 m2 (by rw [b2, b1]; exact ha) ha2
  have hb3 : s3.pstNext b = OS_MEMBOX_MAGIC := by rw [n3, Function.update_of_ne hab.symm, hb2]
  obtain ⟨s4,r4,m4,b4,-,n4⟩ := reachable_free r3 m3 (by rw [b3, b2, b1]; exact hb) hb3
  have hb4 : s4.pstNext b = OS_MEMBOX_MAGIC := by rw [n4, Function.update_self, f3, hmagic]
  refine ⟨_,r4,not_good_of_magic_next m4 (by rw [b4, b3, b2, b1]; exact hb) hb4 ?_⟩
  simp [hab.symm]

end

/-- A block at the magic number: some run frees a block that is free. -/
private theorem not_memboxLaw_of_magic (hfit : pool + poolSize ≤ 2^32) (hb : blkSize ≤ 2^32 - 8) (hr : ¬ Refused pool poolSize blkSize)
    (hm : MagicBlock pool (losMemboxAligned (Word.add blkSize OS_MEMBOX_NODE_HEAD_SIZE))
      ((poolSize - LOS_MEMBOX_INFO_SIZE)/losMemboxAligned (Word.add blkSize OS_MEMBOX_NODE_HEAD_SIZE))) :
    ¬ MemboxLaw pool poolSize blkSize := by
  intro hlaw
  simp only [Refused, not_or] at hr
  obtain ⟨hp,h0,h16,-⟩ := hr
  have hval := losMemboxAligned_eq hb
  have hn := hm.1
  obtain ⟨s',hs⟩ := losMemboxInit_isOk hp h0 h16 ⟨0,0,0,0,fun _ => 0⟩ (by omega) (by omega)
  obtain ⟨hmade,hsz,hnum,-,-,hchain⟩ := (losMemboxInit_of_le hb hfit _).2 s' hs
  rw [← hsz, ← hnum] at hm
  obtain ⟨hn,j,hj,hja⟩ := hm
  have hgood := ((hlaw _).2 s' hs).2.2
  have hnext : ∀ i, i + 1 < s'.uwBlkNum → s'.pstNext (pool + LOS_MEMBOX_INFO_SIZE + s'.uwBlkSize*i) =
      pool + LOS_MEMBOX_INFO_SIZE + s'.uwBlkSize*(i + 1) := by
    intro i hi
    have := hchain.next_eq (i := i) (by rw [List.length_range']; exact hi)
    rw [List.getElem_range', List.getElem_range', nodeLink] at this
    split at this
    · cases this
    · exact Option.some.inj this
  have hbox : ∀ i < s'.uwBlkNum, pool + LOS_MEMBOX_INFO_SIZE + s'.uwBlkSize*i + OS_MEMBOX_NODE_HEAD_SIZE ∈ boxes pool s' := by
    intro i hi
    exact mem_boxes.mpr ⟨i,hi,by omega⟩
  rw [Nat.mul_comm] at hja
  cases j with
  | zero =>
    have hfirst : s'.stFreeList = pool + LOS_MEMBOX_INFO_SIZE + s'.uwBlkSize*0 := by
      have := hchain.head_eq
      rw [List.head?_eq_getElem?, List.getElem?_eq_getElem (by rw [List.length_range']; exact hj), List.getElem_range', nodeLink] at this
      split at this
      · cases this
      · exact Option.some.inj this
    obtain ⟨x,hx,hbad⟩ : ∃ x, MemboxReachable pool s' x ∧ ¬ MemboxGood pool poolSize blkSize x := not_good_of_magic_first hmade (hbox 0 hj) (hbox 1 hn)
      (by have := hmade.size; omega) hja hfirst (hnext 0 hn)
    exact hbad (hgood x hx)
  | succ i =>
    refine not_good_of_magic_next hmade (hbox i (by omega)) ?_ List.not_mem_nil (hgood ⟨s',[]⟩ (.init rfl))
    rw [hnext i hj, hja]

/-- The law of the memory box holds exactly when the call is refused, or its block size does not wrap around and no block lies at the
address that is the magic number. -/
theorem memboxLaw_iff (hfit : pool + poolSize ≤ 2^32) (hb : blkSize < 2^32) :
    MemboxLaw pool poolSize blkSize ↔ MemboxOk pool poolSize blkSize := by
  constructor
  · intro hlaw
    by_cases hr : Refused pool poolSize blkSize
    · exact .inl hr
    · have hle : blkSize ≤ 2^32 - 8 := by
        by_contra hwrap
        exact not_memboxLaw_of_wrap hb hr (not_le.mp hwrap) hlaw
      exact .inr ⟨hle,fun hm => not_memboxLaw_of_magic hfit hle hr hm hlaw⟩
  · rintro (hr | ⟨hle,hm⟩)
    · exact memboxLaw_of_refused hb hr
    · exact memboxLaw_of_le hfit hle hm

theorem memboxLaw_64 : MemboxLaw 0x40000000 0x1000 64 :=
  (memboxLaw_iff (by decide) (by decide)).mpr (by decide +kernel)

/-- A block size of 2^32 - 3 bytes is accepted and makes blocks of four bytes. -/
theorem not_memboxLaw : ¬ MemboxLaw 0x40000000 0x1000 0xFFFFFFFD :=
  not_memboxLaw_of_wrap (by decide) (by simp only [Refused]; decide) (by decide)

end

end LiteOsKernel.Mem
