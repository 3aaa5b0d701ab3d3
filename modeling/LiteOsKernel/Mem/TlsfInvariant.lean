import LiteOsKernel.Lib.Links
import LiteOsKernel.Lib.Tiling
import LiteOsKernel.Mem.TlsfIndex

/-! The representation invariant of a TLSF pool and the effect on it of the list and
node primitives, each at the point where the operations call it. -/
namespace LiteOsKernel.Mem.Tlsf
open LiteOsKernel Links Lib

variable {p p' p'' : MemPool} {N F D U X : Set Nat} {L : Nat → List Nat} {a b : Nat}

namespace MemPool

@[simp] theorem mem_setWord (p : MemPool) (a v x : Nat) :
    (p.setWord a v).mem x = if x = a then v else p.mem x := by
  simp only [setWord, Function.update_apply]

@[simp] theorem pool_setWord (p : MemPool) (a v : Nat) : (p.setWord a v).pool = p.pool := rfl
@[simp] theorem totalSize_setWord (p : MemPool) (a v : Nat) : (p.setWord a v).totalSize = p.totalSize := rfl
@[simp] theorem attr_setWord (p : MemPool) (a v : Nat) : (p.setWord a v).attr = p.attr := rfl
@[simp] theorem waterLine_setWord (p : MemPool) (a v : Nat) : (p.setWord a v).waterLine = p.waterLine := rfl
@[simp] theorem curUsedSize_setWord (p : MemPool) (a v : Nat) : (p.setWord a v).curUsedSize = p.curUsedSize := rfl
@[simp] theorem pages_setWord (p : MemPool) (a v : Nat) : (p.setWord a v).pages = p.pages := rfl
@[simp] theorem panic_setWord (p : MemPool) (a v : Nat) : (p.setWord a v).panic = p.panic := rfl
@[simp] theorem freeList_setWord (p : MemPool) (a v : Nat) : (p.setWord a v).freeList = p.freeList := rfl
@[simp] theorem freeListBitmap_setWord (p : MemPool) (a v : Nat) :
    (p.setWord a v).freeListBitmap = p.freeListBitmap := rfl

/-- The size of a node without its flags. -/
def size (p : MemPool) (a : Nat) : Nat := p.sizeAndFlag a % 2^29

end MemPool

/-- The fields of the pool head that no list or node primitive changes. -/
structure SameHead (p p' : MemPool) : Prop where
  pool : p'.pool = p.pool
  totalSize : p'.totalSize = p.totalSize
  attr : p'.attr = p.attr
  waterLine : p'.waterLine = p.waterLine
  curUsedSize : p'.curUsedSize = p.curUsedSize
  pages : p'.pages = p.pages

theorem SameHead.refl (p : MemPool) : SameHead p p := ⟨rfl,rfl,rfl,rfl,rfl,rfl⟩

theorem SameHead.trans (h : SameHead p p') (h' : SameHead p' p'') : SameHead p p'' :=
  ⟨h'.pool.trans h.pool,h'.totalSize.trans h.totalSize,h'.attr.trans h.attr,h'.waterLine.trans h.waterLine,
    h'.curUsedSize.trans h.curUsedSize,h'.pages.trans h.pages⟩

theorem sameHead_setWord (p : MemPool) (a v : Nat) : SameHead p (p.setWord a v) := ⟨rfl,rfl,rfl,rfl,rfl,rfl⟩

/-- Address of the end sentinel. -/
def endAddr (p : MemPool) : Nat := p.pool + p.totalSize - 12

/-- An expansion area: its first node, and its size with the sentinel at its end. -/
structure Area where
  node : Nat
  size : Nat
deriving DecidableEq

def Area.sentinel (x : Area) : Nat := x.node + x.size - 12

/-- The tiled part of an area; its first node points forward to the sentinel. -/
def Area.extent (x : Area) : Extent := ⟨x.node,x.sentinel,x.sentinel⟩

variable {E : List Area}

/-- The sentinel s and those after it name the areas in E, and the last one names none. -/
def SentinelChain (p : MemPool) : Nat → List Area → Prop
  | s, [] => p.sizeAndFlag s = 2^31 + 2^29 ∧ p.magic s = OS_MEM_NODE_MAGIC ∧ p.ptr s = 0
  | s, x :: E => p.sizeAndFlag s = x.size + 2^31 + 2^29 ∧ p.magic s = OS_MEM_NODE_MAGIC ∧ p.ptr s = x.node ∧
      SentinelChain p x.sentinel E

/-- What the page allocator promises about an area of fewer than 2^29 bytes: whole pages outside the pool. -/
structure Area.Ok (p : MemPool) (x : Area) : Prop where
  node_pos : 0 < x.node
  node_mod : x.node%4096 = 0
  size_pos : 0 < x.size
  size_mod : x.size%4096 = 0
  size_lt : x.size < 2^29
  top : x.node + x.size < 2^32
  outside : x.node + x.size ≤ p.pool ∨ p.pool + p.totalSize ≤ x.node

theorem Area.Ok.congr {x : Area} (h : x.Ok p) (hpool : p'.pool = p.pool) (htot : p'.totalSize = p.totalSize) : x.Ok p' :=
  ⟨h.node_pos,h.node_mod,h.size_pos,h.size_mod,h.size_lt,h.top,by rw [hpool, htot]; exact h.outside⟩

/-- The intervals between the pool's heads and sentinels. -/
def extents (p : MemPool) (E : List Area) : List Extent := ⟨osMemFirstNode p,endAddr p,0⟩ :: E.map Area.extent

/-- What LOS_MemInit fixes for the life of a pool, and the chain of its sentinels. -/
structure Fixed (p : MemPool) (E : List Area) : Prop where
  pool_pos : 0 < p.pool
  pool_mod : p.pool%4 = 0
  total_mod : p.totalSize%4 = 0
  total_ge : sizeofPoolHead + 12 + 20 ≤ p.totalSize
  total_le : p.totalSize < 2^29 + 972
  top : p.pool + p.totalSize ≤ 2^32
  panic : p.panic = false
  areas : ∀ x ∈ E, x.Ok p
  nodup : E.Nodup
  chain : SentinelChain p (endAddr p) E

theorem SentinelChain.congr : ∀ {E : List Area} {s : Nat}, SentinelChain p s E →
    (∀ k < 12, p'.mem (s + k) = p.mem (s + k)) → (∀ x ∈ E, ∀ k < 12, p'.mem (x.sentinel + k) = p.mem (x.sentinel + k)) →
    SentinelChain p' s E
  | [], _, h, hs, _ => ⟨(hs 8 (by omega)).trans h.1,(hs 0 (by omega)).trans h.2.1,(hs 4 (by omega)).trans h.2.2⟩
  | x :: _, _, h, hs, hE => ⟨(hs 8 (by omega)).trans h.1,(hs 0 (by omega)).trans h.2.1,(hs 4 (by omega)).trans h.2.2.1,
      h.2.2.2.congr (hE x List.mem_cons_self) fun y hy => hE y (List.mem_cons_of_mem _ hy)⟩

/-- Every sentinel of the chain is marked used and last, with the size 0 or that of an area. -/
theorem SentinelChain.flags : ∀ {E : List Area} {s : Nat}, SentinelChain p s E → ∀ {x : Nat},
    (x = s ∨ ∃ y ∈ E, x = y.sentinel) → p.magic x = OS_MEM_NODE_MAGIC ∧
      (p.sizeAndFlag x = 2^31 + 2^29 ∨ ∃ y ∈ E, p.sizeAndFlag x = y.size + 2^31 + 2^29)
  | [], s, h, x, hx => by
    obtain rfl : x = s := by simpa using hx
    exact ⟨h.2.1,.inl h.1⟩
  | y :: E, s, h, x, hx => by
    obtain ⟨h1,h2,-,h4⟩ := h
    by_cases hxs : x = s
    · exact hxs ▸ ⟨h2,.inr ⟨y,List.mem_cons_self,h1⟩⟩
    · have hx' : x = y.sentinel ∨ ∃ z ∈ E, x = z.sentinel := by
        rcases hx with h5 | ⟨z,hz,h5⟩
        · exact absurd h5 hxs
        · rcases List.mem_cons.mp hz with rfl | hz
          · exact .inl h5
          · exact .inr ⟨z,hz,h5⟩
      obtain ⟨h5,h6⟩ := h4.flags hx'
      exact ⟨h5,h6.imp_right fun ⟨z,hz,h7⟩ => ⟨z,List.mem_cons_of_mem _ hz,h7⟩⟩

theorem extents_congr (hpool : p'.pool = p.pool) (htot : p'.totalSize = p.totalSize) : extents p' E = extents p E := by
  rw [extents, extents, osMemFirstNode, osMemFirstNode, endAddr, endAddr, hpool, htot]

theorem mem_extents {e : Extent} : e ∈ extents p E ↔ e = ⟨osMemFirstNode p,endAddr p,0⟩ ∨ ∃ x ∈ E, x.extent = e := by
  rw [extents, List.mem_cons, List.mem_map]

theorem pool_mem_extents : (⟨osMemFirstNode p,endAddr p,0⟩ : Extent) ∈ extents p E := mem_extents.mpr (.inl rfl)

theorem area_mem_extents {x : Area} (hx : x ∈ E) : x.extent ∈ extents p E := mem_extents.mpr (.inr ⟨x,hx,rfl⟩)

theorem Fixed.congr (h : Fixed p E) (hpool : p'.pool = p.pool) (htot : p'.totalSize = p.totalSize)
    (hpanic : p'.panic = p.panic)
    (htop : ∀ e ∈ extents p E, ∀ k < 12, p'.mem (e.last + k) = p.mem (e.last + k)) : Fixed p' E := by
  have hend : endAddr p' = endAddr p := by rw [endAddr, endAddr, hpool, htot]
  refine ⟨?_,?_,?_,?_,?_,?_,?_,?_,h.nodup,?_⟩
  · rw [hpool]; exact h.pool_pos
  · rw [hpool]; exact h.pool_mod
  · rw [htot]; exact h.total_mod
  · rw [htot]; exact h.total_ge
  · rw [htot]; exact h.total_le
  · rw [hpool, htot]; exact h.top
  · rw [hpanic]; exact h.panic
  · exact fun x hx => (h.areas x hx).congr hpool htot
  · rw [hend]
    exact h.chain.congr (htop _ pool_mem_extents) fun x hx => htop _ (area_mem_extents hx)

/-- The nodes tile the pool and its areas, are aligned, and carry only the used and aligned flags. -/
structure Nodes (p : MemPool) (E : List Area) (N : Set Nat) : Prop where
  tiling : Tiling 20 12 (extents p E) p.size p.ptr N
  mod : ∀ a ∈ N, a%4 = 0 ∧ p.size a%4 = 0
  flags : ∀ a ∈ N, p.sizeAndFlag a = p.size a ∨ p.sizeAndFlag a = p.size a + 2^31 ∨
    p.sizeAndFlag a = p.size a + 2^31 + 2^30

/-- The free lists hold exactly the nodes in F, each in the list of its size class, and the
bitmap marks the lists that are not empty. -/
structure Lists (p : MemPool) (F : Set Nat) (L : Nat → List Nat) : Prop where
  mem_iff : ∀ i a, a ∈ L i ↔ a ∈ F ∧ osMemFreeListIndexGet (p.sizeAndFlag a) = i
  nodup : ∀ i, (L i).Nodup
  linked : ∀ i, Linked p.prev p.next (L i)
  head : ∀ i < OS_MEM_FREE_LIST_COUNT, p.freeList i = (L i).headD 0
  bit : ∀ i < 224, bitSet p i = true ↔ L i ≠ []
  word_lt : ∀ w, p.freeListBitmap w < 2^32

theorem Lists.congr (h : Lists p F L) (hfl : p'.freeList = p.freeList)
    (hbm : p'.freeListBitmap = p.freeListBitmap) (hsf : ∀ b ∈ F, p'.sizeAndFlag b = p.sizeAndFlag b)
    (hprev : ∀ b ∈ F, p'.prev b = p.prev b) (hnext : ∀ b ∈ F, p'.next b = p.next b) : Lists p' F L := by
  have hLF : ∀ j, ∀ b ∈ L j, b ∈ F := fun j b hb => ((h.mem_iff j b).mp hb).1
  refine ⟨?_,h.nodup,?_,?_,?_,?_⟩
  · intro i a
    rw [h.mem_iff]
    constructor
    · rintro ⟨ha,he⟩
      exact ⟨ha,(hsf a ha).symm ▸ he⟩
    · rintro ⟨ha,he⟩
      exact ⟨ha,hsf a ha ▸ he⟩
  · intro i
    exact (h.linked i).congr (fun a ha => hprev a (hLF i a ha)) (fun a ha => hnext a (hLF i a ha))
  · rw [hfl]; exact h.head
  · intro i hi
    rw [bitSet, hbm]
    exact h.bit i hi
  · rw [hbm]; exact h.word_lt

/-- The pool invariant between the steps of an operation: E are the expansion areas, N the nodes,
F those linked in the free lists, D the free nodes an operation has taken off the lists, and U the
nodes whose magic word is not yet written. -/
structure Inv (p : MemPool) (E : List Area) (N F D U : Set Nat) (L : Nat → List Nat) : Prop where
  fixed : Fixed p E
  nodes : Nodes p E N
  lists : Lists p F L
  sub : ∀ a ∈ F, a ∈ N ∧ p.sizeAndFlag a < 2^31
  full : ∀ a ∈ N, p.sizeAndFlag a < 2^31 → a ∈ F ∨ a ∈ D
  apart : ∀ a ∈ D, a ∉ F
  coalesced : ∀ a ∈ F, a + p.size a ∉ F
  magic : ∀ a ∈ N, a ∉ U → p.mem a = OS_MEM_NODE_MAGIC

/-- The used nodes outside X keep their head and their payload, and there are no others. -/
structure UsedKept (p : MemPool) (N : Set Nat) (p' : MemPool) (N' X : Set Nat) : Prop where
  keep : ∀ b ∈ N, b ∉ X → 2^31 ≤ p.sizeAndFlag b → b ∈ N' ∧ p'.sizeAndFlag b = p.sizeAndFlag b ∧
    ∀ x, b + 12 ≤ x → x < b + p.size b → p'.mem x = p.mem x
  only : ∀ b ∈ N', b ∉ X → 2^31 ≤ p'.sizeAndFlag b → b ∈ N ∧ 2^31 ≤ p.sizeAndFlag b

theorem UsedKept.refl : UsedKept p N p N X := ⟨fun _ hb _ _ => ⟨hb,rfl,fun _ _ _ => rfl⟩,fun _ hb _ hu => ⟨hb,hu⟩⟩

theorem UsedKept.trans {N' N'' : Set Nat} (h : UsedKept p N p' N' X) (h' : UsedKept p' N' p'' N'' X) :
    UsedKept p N p'' N'' X := by
  constructor
  · intro b hb hx hu
    obtain ⟨h1,h2,h3⟩ := h.keep b hb hx hu
    obtain ⟨g1,g2,g3⟩ := h'.keep b h1 hx (h2 ▸ hu)
    refine ⟨g1,g2.trans h2,fun x hl hr => ?_⟩
    rw [g3 x hl (by rwa [MemPool.size, h2]), h3 x hl hr]
  · intro b hb hx hu
    obtain ⟨h1,h2⟩ := h'.only b hb hx hu
    exact h.only b h1 hx h2

theorem UsedKept.mono {N' Y : Set Nat} (h : UsedKept p N p' N' X) (hX : X ⊆ Y) : UsedKept p N p' N' Y :=
  ⟨fun b hb hx hu => h.keep b hb (fun hm => hx (hX hm)) hu,fun b hb hx hu => h.only b hb (fun hm => hx (hX hm)) hu⟩

/-- No word of the memory outside the free nodes' link fields and one magic word changes, as
in the list primitives. -/
structure HeadsKept (p p' : MemPool) (N : Set Nat) : Prop where
  pool : p'.pool = p.pool
  totalSize : p'.totalSize = p.totalSize
  sizeAndFlag : ∀ a ∈ N, p'.sizeAndFlag a = p.sizeAndFlag a
  ptr : ∀ a ∈ N, p'.ptr a = p.ptr a

namespace Inv

theorem first_eq (p : MemPool) : osMemFirstNode p = p.pool + 960 := rfl

/-- Every interval lies above address 0 and has its sentinel below 2^32; its blocks are shorter than 2^29. -/
theorem extent_bounds (h : Inv p E N F D U L) {e : Extent} (he : e ∈ extents p E) :
    20 ≤ e.first ∧ e.last + 12 ≤ 2^32 ∧ e.last < e.first + 2^29 ∧ e.last%4 = 0 := by
  obtain ⟨h1,h2,h3,h4,h5,h6,-,h8,-,-⟩ := h.fixed
  simp only [sizeofPoolHead] at h4
  rcases mem_extents.mp he with rfl | ⟨x,hx,rfl⟩
  · simp only [first_eq, endAddr]
    omega
  · obtain ⟨g1,g2,g3,g4,g5,g6,-⟩ := h8 x hx
    simp only [Area.extent, Area.sentinel]
    omega

theorem bounds (h : Inv p E N F D U L) (ha : a ∈ N) :
    20 ≤ a ∧ 20 ≤ p.size a ∧ a + p.size a + 12 ≤ 2^32 ∧ a%4 = 0 ∧ p.size a%4 = 0 := by
  obtain ⟨e,he,h1,h2⟩ := h.nodes.tiling.home a ha
  have h3 := h.nodes.tiling.min a ha
  have h4 := h.extent_bounds he
  have h5 := h.nodes.mod a ha
  omega

/-- The bounds without the alignment. -/
theorem inside (h : Inv p E N F D U L) (ha : a ∈ N) : 20 ≤ a ∧ 20 ≤ p.size a ∧ a + p.size a + 12 ≤ 2^32 :=
  ⟨(h.bounds ha).1,(h.bounds ha).2.1,(h.bounds ha).2.2.1⟩

theorem size_lt (h : Inv p E N F D U L) (ha : a ∈ N) : p.size a + 4 ≤ 2^29 := by
  have h1 := h.nodes.mod a ha
  have h2 : p.size a < 2^29 := Nat.mod_lt _ (by norm_num)
  omega

/-- Two neighbours together are shorter than 2^29. -/
theorem add_size_lt (h : Inv p E N F D U L) (ha : a ∈ N) (hb : b ∈ N) (hab : a + p.size a = b) :
    p.size a + p.size b < 2^29 := by
  obtain ⟨e,he,h1,h2⟩ := h.nodes.tiling.home b hb
  have h3 := h.extent_bounds he
  have h4 := h.bounds ha
  have h5 := h.nodes.tiling.next_ne_first ha he
  rcases h.nodes.tiling.clear ha he with h6 | h6 | h6 <;> omega

theorem free_eq (h : Inv p E N F D U L) (ha : a ∈ N) (hf : p.sizeAndFlag a < 2^31) :
    p.sizeAndFlag a = p.size a := by
  have h1 := h.nodes.flags a ha
  omega

theorem spaced (h : Inv p E N F D U L) (ha : a ∈ N) (hb : b ∈ N) (hab : a ≠ b) :
    a + 20 ≤ b ∨ b + 20 ≤ a := by
  have h1 := h.nodes.tiling.min a ha
  have h2 := h.nodes.tiling.min b hb
  rcases h.nodes.tiling.apart ha hb hab with h3 | h3 <;> omega

/-- The words of a node are no words of a sentinel. -/
theorem off_sentinel (h : Inv p E N F D U L) (ha : a ∈ N) {x : Nat} (hl : a ≤ x) (hr : x < a + p.size a)
    {e : Extent} (he : e ∈ extents p E) : x < e.last ∨ e.last + 12 ≤ x := by
  have h1 := h.nodes.tiling.room e he
  rcases h.nodes.tiling.clear ha he with h2 | h2 | h2 <;> omega

/-- A node, and the address where another one ends. -/
theorem end_apart (h : Inv p E N F D U L) (ha : a ∈ N) (hb : b ∈ N) :
    a + p.size a = b ∨ a + p.size a + 12 ≤ b ∨ b + p.size b ≤ a + p.size a := by
  by_cases he : a + p.size a = b
  · exact .inl he
  · rcases h.nodes.tiling.next a ha with ⟨e,hm,h1⟩ | h1
    · have h2 := h.nodes.tiling.room e hm
      rcases h.nodes.tiling.clear hb hm with h3 | h3 | h3 <;> omega
    · have := h.spaced h1 hb he
      rcases h.nodes.tiling.apart h1 hb he with h2 | h2 <;> omega

theorem sentinel_flags (h : Inv p E N F D U L) {e : Extent} (he : e ∈ extents p E) :
    p.magic e.last = OS_MEM_NODE_MAGIC ∧ ∃ s < 2^29, p.sizeAndFlag e.last = s + 2^31 + 2^29 := by
  have hx : e.last = endAddr p ∨ ∃ y ∈ E, e.last = y.sentinel := by
    rcases mem_extents.mp he with rfl | ⟨x,hx,rfl⟩
    · exact .inl rfl
    · exact .inr ⟨x,hx,rfl⟩
  obtain ⟨h1,h2⟩ := h.fixed.chain.flags hx
  refine ⟨h1,?_⟩
  rcases h2 with h2 | ⟨y,hy,h2⟩
  · exact ⟨0,by norm_num,by rw [h2, Nat.zero_add]⟩
  · exact ⟨y.size,(h.fixed.areas y hy).size_lt,h2⟩

theorem mem_list (h : Inv p E N F D U L) (ha : a ∈ F) :
    a ∈ L (osMemFreeListIndexGet (p.sizeAndFlag a)) := (h.lists.mem_iff _ a).mpr ⟨ha,rfl⟩

theorem index_lt_of_free (h : Inv p E N F D U L) (ha : a ∈ N) (hf : p.sizeAndFlag a < 2^31) :
    osMemFreeListIndexGet (p.sizeAndFlag a) < 207 := by
  have h1 := h.size_lt ha
  have h2 := h.bounds ha
  rw [h.free_eq ha hf]
  exact index_lt (by omega) (by omega)

end Inv

end LiteOsKernel.Mem.Tlsf
