import LiteOsKernel.Mem.TlsfSentinels

/-! Growing a pool by an area of pages, and giving an area back. -/
namespace LiteOsKernel.Mem.Tlsf
open LiteOsKernel Links Lib

variable {p p' : MemPool} {E E₁ E₂ : List Area} {N F D U : Set Nat} {L : Nat → List Nat} {a b r s n : Nat} {x : Area}

-- Expansion

/-- The area does not meet the pool or its areas. -/
structure Area.Fresh (p : MemPool) (E : List Area) (x : Area) : Prop where
  ok : x.Ok p
  apart : ∀ y ∈ E, x.node + x.size ≤ y.node ∨ y.node + y.size ≤ x.node

/-- The pool after the writes of OsMemPoolExpandSub, before the usage is recorded. -/
def linkArea (p : MemPool) (x : Area) : MemPool :=
  let endNode := osMemEndNode p.pool p.totalSize
  let p := p.setSizeAndFlag x.node (x.size - 12)
  let p := p.setPtr x.node x.sentinel
  let p := osMemSentinelNodeSet p endNode x.node x.size
  let p := osMemFreeNodeAdd p x.node
  let p := ((p.setMagic x.sentinel 0).setPtr x.sentinel 0).setSizeAndFlag x.sentinel 0
  let p := (p.setPtr x.sentinel 0).setMagic x.sentinel OS_MEM_NODE_MAGIC
  osMemSentinelNodeSet p x.sentinel 0 0

theorem expandPages_eq (p : MemPool) (k : Nat) : ∃ pages, (expandPages p k).1 = { p with pages := pages } := by
  induction k generalizing p with
  | zero =>
    rw [expandPages]
    split
    · exact ⟨p.pages,rfl⟩
    · exact ⟨_,rfl⟩
  | succ k ih =>
    rw [expandPages]
    split
    · exact ⟨p.pages,rfl⟩
    · split
      · exact ih _
      · exact ⟨_,rfl⟩

theorem poolExpandSub_eq {size : Nat} (hx : x.Ok p) (hs : roundup (Word.add size OS_MEM_NODE_HEAD_SIZE) PAGE_SIZE = x.size)
    (hn : (expandPages p MAX_SHRINK_PAGECACHE_TRY).2 = x.node) : osMemPoolExpandSub p size =
      (osMemWaterUsedRecord (linkArea (expandPages p MAX_SHRINK_PAGECACHE_TRY).1 x) OS_MEM_NODE_HEAD_SIZE, true) := by
  have h0 := hx.node_pos
  have h1 := hx.size_pos
  have h2 := hx.size_mod
  rcases he : expandPages p MAX_SHRINK_PAGECACHE_TRY with ⟨q,node⟩
  obtain rfl : node = x.node := by rw [← hn, he]
  have hsub : Word.sub x.size OS_MEM_NODE_HEAD_SIZE = x.size - 12 := by
    rw [OS_MEM_NODE_HEAD_SIZE, Word.sub_eq (by omega)]
  obtain ⟨pages,hq⟩ := expandPages_eq p MAX_SHRINK_PAGECACHE_TRY
  rw [he] at hq
  simp only at hq
  have hend : osMemEndNode q.pool q.totalSize = osMemEndNode p.pool p.totalSize := by rw [hq]
  simp only [osMemPoolExpandSub, hs, he, if_neg (show ¬x.node = 0 by omega), hsub, hx.endNode_eq, linkArea, hend]

theorem chainEnd_extent (p : MemPool) (E : List Area) : ∃ e ∈ extents p E, e.last = chainEnd (endAddr p) E := by
  rcases chainEnd_mem (endAddr p) E with h1 | ⟨y,hy,h1⟩
  · exact ⟨_,pool_mem_extents,h1.symm⟩
  · exact ⟨_,area_mem_extents hy,h1.symm⟩

namespace Inv

/-- The page answers still to come are no part of the invariant. -/
theorem setPages (h : Inv p E N F D U L) (pages : List Nat) : Inv { p with pages := pages } E N F D U L := by
  refine ⟨h.fixed.congr rfl rfl rfl fun _ _ _ _ => rfl,⟨h.nodes.tiling,h.nodes.mod,h.nodes.flags⟩,
    h.lists.congr rfl rfl (fun _ _ => rfl) (fun _ _ => rfl) fun _ _ => rfl,h.sub,h.full,h.apart,h.coalesced,h.magic⟩

/-- A fresh area lies apart from every interval. -/
private theorem fresh_apart (h : Inv p E N F D U L) (hx : x.Fresh p E) {e : Extent} (he : e ∈ extents p E) :
    x.node + x.size ≤ e.first ∨ e.last + 12 ≤ x.node := by
  have hge := h.fixed.total_ge
  simp only [sizeofPoolHead] at hge
  rcases mem_extents.mp he with rfl | ⟨y,hy,rfl⟩
  · have := hx.ok.outside
    simp only [first_eq, endAddr]
    omega
  · have h1 := (h.fixed.areas y hy).size_pos
    have h2 := (h.fixed.areas y hy).size_mod
    have := hx.apart y hy
    simp only [Area.extent, Area.sentinel]
    omega

theorem fresh_node (h : Inv p E N F D U L) (hx : x.Fresh p E) (ha : a ∈ N) :
    x.node + x.size ≤ a ∨ a + p.size a + 12 ≤ x.node := by
  obtain ⟨e,he,h1,h2⟩ := h.nodes.tiling.home a ha
  rcases h.fresh_apart hx he with h3 | h3 <;> omega

/-- Words outside the pool and its areas are no part of the invariant. -/
theorem setOutside (h : Inv p E N F D U L) {y v : Nat} (hy : ∀ e ∈ extents p E, y < e.first ∨ e.last + 12 ≤ y) :
    Inv (p.setWord y v) E N F D U L ∧ UsedKept p N (p.setWord y v) N ∅ := by
  have hout : ∀ a ∈ N, y < a ∨ a + p.size a ≤ y := by
    intro a ha
    obtain ⟨e,he,h1,h2⟩ := h.nodes.tiling.home a ha
    rcases hy e he with h3 | h3 <;> omega
  have hmem : ∀ a ∈ N, ∀ z, a ≤ z → z < a + p.size a → (p.setWord y v).mem z = p.mem z := by
    intro a ha z hl hr
    have := hout a ha
    rw [MemPool.mem_setWord, if_neg (by omega)]
  have hhead : ∀ a ∈ N, ∀ k < 20, (p.setWord y v).mem (a + k) = p.mem (a + k) := by
    intro a ha k hk
    have := h.inside ha
    exact hmem a ha _ (by omega) (by omega)
  have hsf : ∀ a ∈ N, (p.setWord y v).sizeAndFlag a = p.sizeAndFlag a := fun a ha => hhead a ha 8 (by omega)
  have hsize : ∀ a ∈ N, (p.setWord y v).size a = p.size a := fun a ha => by rw [MemPool.size, hsf a ha, MemPool.size]
  have hFN : ∀ a ∈ F, a ∈ N := fun a ha => (h.sub a ha).1
  have hfix : Fixed (p.setWord y v) E := by
    refine h.fixed.congr rfl rfl rfl fun e he k hk => ?_
    have h1 := hy e he
    have h2 := h.nodes.tiling.room e he
    rw [MemPool.mem_setWord, if_neg (by omega)]
  refine ⟨⟨hfix,⟨?_,?_,?_⟩,?_,?_,?_,h.apart,?_,?_⟩,?_,?_⟩
  · exact h.nodes.tiling.congr hsize fun a ha => hhead a ha 4 (by omega)
  · intro a ha
    rw [hsize a ha]
    exact h.nodes.mod a ha
  · intro a ha
    rw [hsize a ha, hsf a ha]
    exact h.nodes.flags a ha
  · exact h.lists.congr rfl rfl (fun a ha => hsf a (hFN a ha)) (fun a ha => hhead a (hFN a ha) 12 (by omega))
      fun a ha => hhead a (hFN a ha) 16 (by omega)
  · intro a ha
    rw [hsf a (hFN a ha)]
    exact h.sub a ha
  · intro a ha hf
    rw [hsf a ha] at hf
    exact h.full a ha hf
  · intro a ha
    rw [hsize a (hFN a ha)]
    exact h.coalesced a ha
  · intro a ha hU
    exact (hhead a ha 0 (by omega)).trans (h.magic a ha hU)
  · intro a ha _ _
    exact ⟨ha,hsf a ha,fun z hl hr => hmem a ha z (by omega) hr⟩
  · intro a ha _ hu
    exact ⟨ha,hsf a ha ▸ hu⟩

end Inv

/-- The writes that turn the end of an area into the last sentinel. -/
private theorem sentinelInit (q : MemPool) (e : Nat) : ∃ m, osMemSentinelNodeSet
    (((((q.setMagic e 0).setPtr e 0).setSizeAndFlag e 0).setPtr e 0).setMagic e OS_MEM_NODE_MAGIC) e 0 0 =
      { q with mem := m } ∧ ∀ y, m y = if y = e + 8 then 2^31 + 2^29 else if y = e + 4 then 0
        else if y = e then OS_MEM_NODE_MAGIC else q.mem y := by
  set r := ((((q.setMagic e 0).setPtr e 0).setSizeAndFlag e 0).setPtr e 0).setMagic e OS_MEM_NODE_MAGIC with hr
  have hptr : r.ptr e = 0 := by simp [hr, MemPool.ptr, MemPool.setPtr, MemPool.setMagic]
  obtain ⟨m,hm,hmem⟩ := sentinelNodeSet_mem (p := r) (s := e) (n := 0) (v := 0) (t := e)
    (by rw [if_neg (not_not.mpr hptr)]) (by norm_num)
  refine ⟨m,?_,?_⟩
  · rw [hm, hr]
    simp only [MemPool.setPtr, MemPool.setMagic, MemPool.setSizeAndFlag, MemPool.pool_setWord, MemPool.totalSize_setWord,
      MemPool.attr_setWord, MemPool.waterLine_setWord, MemPool.curUsedSize_setWord, MemPool.pages_setWord,
      MemPool.panic_setWord, MemPool.freeList_setWord, MemPool.freeListBitmap_setWord]
  intro y
  rw [hmem, hr]
  simp only [MemPool.setPtr, MemPool.setMagic, MemPool.setSizeAndFlag, MemPool.mem_setWord]
  split_ifs <;> rfl

/-- The pool with the area's head and the sentinel that names it, before the area's node is linked. -/
def areaHeads (p : MemPool) (E : List Area) (x : Area) : MemPool :=
  { p with mem := fun y =>
      if y = chainEnd (endAddr p) E + 8 then x.size + 2^31 + 2^29 else if y = chainEnd (endAddr p) E + 4 then x.node
      else if y = x.node + 4 then x.sentinel else if y = x.node + 8 then x.size - 12 else p.mem y }

namespace Inv

theorem linkArea_eq (h : Inv p E N F D U L) (hx : x.Fresh p E) : ∃ m, linkArea p x =
    { osMemListAdd (areaHeads p E x) (osMemFreeListIndexGet (x.size - 12)) x.node with mem := m } ∧
    ∀ y, m y = if y = x.sentinel + 8 then 2^31 + 2^29 else if y = x.sentinel + 4 then 0
      else if y = x.sentinel then OS_MEM_NODE_MAGIC else
        (osMemListAdd (areaHeads p E x) (osMemFreeListIndexGet (x.size - 12)) x.node).mem y := by
  obtain ⟨-,-,hs0,hs4,hlt,-,-⟩ := hx.ok
  have hout : ∀ k < x.size, ∀ e ∈ extents p E, x.node + k < e.first ∨ e.last + 12 ≤ x.node + k := by
    intro k hk e he
    rcases h.fresh_apart hx he with h1 | h1 <;> omega
  have h1 := (h.setOutside (y := x.node + 8) (v := x.size - 12) (hout 8 (by omega))).1
  have h2 := (h1.setOutside (y := x.node + 4) (v := x.sentinel) (hout 4 (by omega))).1
  obtain ⟨m,hm,hmem⟩ := sentinelNodeSet_mem (n := x.node) (v := x.size) h2.lastSentinel_eq hlt
  have hend : osMemEndNode p.pool p.totalSize = endAddr p := h.endNode_eq
  have hheads : osMemSentinelNodeSet ((p.setSizeAndFlag x.node (x.size - 12)).setPtr x.node x.sentinel)
      (endAddr p) x.node x.size = areaHeads p E x := by
    refine (show _ = _ from hm).trans ?_
    rw [areaHeads]
    congr 1
    funext y
    rw [hmem]
    simp only [MemPool.mem_setWord]
    rfl
  have hidx : osMemFreeListIndexGet (x.size - 12) < 207 := index_lt (by omega) (by omega)
  obtain ⟨e,he,heT⟩ := chainEnd_extent p E
  have hsf : (areaHeads p E x).sizeAndFlag x.node = x.size - 12 := by
    have h3 := h.fresh_apart hx he
    have h4 := h.nodes.tiling.room e he
    simp only [areaHeads, MemPool.sizeAndFlag]
    rw [if_neg (by omega), if_neg (by omega), if_neg (by omega), if_true]
  have hadd : osMemFreeNodeAdd (areaHeads p E x) x.node =
      osMemListAdd (areaHeads p E x) (osMemFreeListIndexGet (x.size - 12)) x.node := by
    rw [osMemFreeNodeAdd, hsf, if_neg (by simp only [OS_MEM_FREE_LIST_COUNT]; omega)]
  obtain ⟨m',hm',hmem'⟩ := sentinelInit
    (osMemListAdd (areaHeads p E x) (osMemFreeListIndexGet (x.size - 12)) x.node) x.sentinel
  refine ⟨m',?_,hmem'⟩
  simp only [linkArea, hend, hheads, hadd]
  exact hm'

end Inv

/-- What OsMemPoolExpandSub leaves: the area's head and sentinel, the sentinel that names it, and the
free lists with its node. -/
structure AreaLinked (p q : MemPool) (E : List Area) (N F : Set Nat) (L' : Nat → List Nat) (x : Area) : Prop where
  head : SameHead p q
  panic : q.panic = p.panic
  lists : Lists q (insert x.node F) L'
  magic : q.magic x.node = OS_MEM_NODE_MAGIC
  ptr : q.ptr x.node = x.sentinel
  sizeAndFlag : q.sizeAndFlag x.node = x.size - 12
  last : SentinelChain q x.sentinel []
  kept : ∀ a ∈ N, ∀ y, a ≤ y → y < a + p.size a → (∀ b ∈ F, y ≠ b + 12 ∧ y ≠ b + 16) → q.mem y = p.mem y
  sentinels : ∀ e ∈ extents p E, ∀ k < 12, q.mem (e.last + k) = (areaHeads p E x).mem (e.last + k)

namespace Inv

theorem areaLinked (h : Inv p E N F ∅ ∅ L) (hx : x.Fresh p E) : ∃ L', AreaLinked p (linkArea p x) E N F L' x := by
  obtain ⟨-,-,hs0,hs4,hlt,-,-⟩ := hx.ok
  obtain ⟨m,hq,hm⟩ := h.linkArea_eq hx
  have hsen : x.sentinel = x.node + x.size - 12 := rfl
  have hfar : ∀ e ∈ extents p E, x.node + x.size ≤ e.first ∨ e.last + 12 ≤ x.node := fun e he => h.fresh_apart hx he
  have hnode : ∀ a ∈ N, x.node + x.size ≤ a ∨ a + p.size a + 12 ≤ x.node := fun a ha => h.fresh_node hx ha
  obtain ⟨t,ht,htT⟩ := chainEnd_extent p E
  have hFN : ∀ a ∈ F, a ∈ N := fun a ha => (h.sub a ha).1
  set i := osMemFreeListIndexGet (x.size - 12)
  have hi : i < 207 := index_lt (by omega) (by omega)
  -- the words of old nodes
  have hr : ∀ a ∈ N, ∀ y, a ≤ y → y < a + p.size a → (areaHeads p E x).mem y = p.mem y := by
    intro a ha y hl hr
    have h1 := h.off_sentinel ha hl hr ht
    have h2 := hnode a ha
    simp only [areaHeads, ← htT]
    rw [if_neg (by omega), if_neg (by omega), if_neg (by omega), if_neg (by omega)]
  have hr8 : (areaHeads p E x).mem (x.node + 8) = x.size - 12 := by
    have h1 := hfar t ht
    have h2 := h.nodes.tiling.room t ht
    simp only [areaHeads, ← htT]
    rw [if_neg (by omega), if_neg (by omega), if_neg (by omega), if_true]
  have hr4 : (areaHeads p E x).mem (x.node + 4) = x.sentinel := by
    have h1 := hfar t ht
    have h2 := h.nodes.tiling.room t ht
    simp only [areaHeads, ← htT]
    rw [if_neg (by omega), if_neg (by omega), if_true]
  have hhead : ∀ a ∈ F, ∀ k < 20, (areaHeads p E x).mem (a + k) = p.mem (a + k) := by
    intro a ha k hk
    have := h.inside (hFN a ha)
    exact hr a (hFN a ha) _ (by omega) (by omega)
  have hlists : Lists (areaHeads p E x) F L := h.lists.congr rfl rfl (fun a ha => hhead a ha 8 (by omega))
    (fun a ha => hhead a ha 12 (by omega)) fun a ha => hhead a ha 16 (by omega)
  have hnF : x.node ∉ F := fun hm => by
    have h1 := hnode _ (hFN _ hm)
    omega
  have hsp : Spaced (insert x.node F) := by
    rintro a (rfl | ha) b (rfl | hb) hab
    · exact absurd rfl hab
    · have h1 := hnode b (hFN b hb)
      have h2 := h.inside (hFN b hb)
      omega
    · have h1 := hnode a (hFN a ha)
      have h2 := h.inside (hFN a ha)
      omega
    · exact h.spaced (hFN a ha) (hFN b hb) hab
  have hadd := hlists.listAdd (a := x.node) (i := i) hsp h.zero_not_free hnF
    (by simp only [OS_MEM_FREE_LIST_COUNT]; omega) (by rw [MemPool.sizeAndFlag, hr8])
  have hch := listAdd_changed (a := x.node) hlists (show i < OS_MEM_FREE_LIST_COUNT by
    simp only [OS_MEM_FREE_LIST_COUNT]; omega)
  obtain ⟨g1,g2,g3,-⟩ := listAdd_fields (areaHeads p E x) i x.node
  have g4 := sameHead_listAdd (areaHeads p E x) i x.node
  have g5 := listAdd_mem (areaHeads p E x) i x.node x.node
  rw [if_pos rfl] at g5
  generalize osMemListAdd (areaHeads p E x) i x.node = r at hq hm hadd hch g1 g2 g3 g4 g5
  rw [hq]
  set q : MemPool := { r with mem := m } with hqdef
  -- outside the sentinel of the area q is r
  have hqr : ∀ y, (y < x.sentinel ∨ x.sentinel + 12 ≤ y) → q.mem y = r.mem y := by
    intro y hy
    refine (hm y).trans ?_
    rw [if_neg (by omega), if_neg (by omega), if_neg (by omega)]
  have hqa : ∀ a ∈ N, ∀ y, a ≤ y → y < a + p.size a → (∀ b ∈ F, y ≠ b + 12 ∧ y ≠ b + 16) → q.mem y = p.mem y := by
    intro a ha y hl hr' hF
    have h1 := hnode a ha
    rw [hqr y (by omega)]
    rcases hch y with h2 | h2 | ⟨b,hb,h2⟩
    · exact h2.trans (hr a ha y hl hr')
    · omega
    · rcases hb with rfl | hb
      · omega
      · have := hF b hb
        omega
  have hq8 : q.mem (x.node + 8) = x.size - 12 := by
    rw [hqr _ (by omega)]
    rcases hch (x.node + 8) with h2 | h2 | ⟨b,hb,h2⟩
    · exact h2.trans hr8
    · omega
    · by_cases hbn : b = x.node
      · omega
      · have := hsp _ (.inl rfl) b hb (Ne.symm hbn)
        omega
  have hq4 : q.mem (x.node + 4) = x.sentinel := by
    rw [hqr _ (by omega)]
    rcases hch (x.node + 4) with h2 | h2 | ⟨b,hb,h2⟩
    · exact h2.trans hr4
    · omega
    · by_cases hbn : b = x.node
      · omega
      · have := hsp _ (.inl rfl) b hb (Ne.symm hbn)
        omega
  have hq0 : q.mem x.node = OS_MEM_NODE_MAGIC := by rw [hqr _ (by omega), g5]
  have g6 : SameHead p q := ⟨g4.pool,g4.totalSize,g4.attr,g4.waterLine,g4.curUsedSize,g4.pages⟩
  refine ⟨Function.update L i (x.node :: L i),⟨g6,g3,?_,hq0,hq4,hq8,
    ⟨?_,?_,?_⟩,hqa,?_⟩⟩
  · have hw : ∀ b ∈ insert x.node F, ∀ k < 20, q.mem (b + k) = r.mem (b + k) := by
      intro b hb k hk
      apply hqr
      rcases hb with rfl | hb
      · omega
      · have h1 := hnode b (hFN b hb)
        have h2 := h.inside (hFN b hb)
        omega
    exact hadd.congr rfl rfl (fun b hb => hw b hb 8 (by omega)) (fun b hb => hw b hb 12 (by omega))
      fun b hb => hw b hb 16 (by omega)
  · exact (hm _).trans (if_pos rfl)
  · exact (hm _).trans (by rw [if_neg (by omega), if_neg (by omega), if_pos rfl])
  · exact (hm _).trans (by rw [if_neg (by omega), if_pos rfl])
  · intro e he k hk
    have h1 := hfar e he
    have h2 := h.nodes.tiling.room e he
    rw [hqr _ (by omega)]
    rcases hch (e.last + k) with h3 | h3 | ⟨b,hb,h3⟩
    · exact h3
    · omega
    · rcases hb with rfl | hb
      · omega
      · have h4 := h.inside (hFN b hb)
        have h5 := h.off_sentinel (x := b + 12) (hFN b hb) (by omega) (by omega) he
        have h6 := h.off_sentinel (x := b + 16) (hFN b hb) (by omega) (by omega) he
        omega

private theorem linkArea_fixed (h : Inv p E N F ∅ ∅ L) (hx : x.Fresh p E) {q : MemPool} {L' : Nat → List Nat}
    (hl : AreaLinked p q E N F L' x) : Fixed q (E ++ [x]) := by
  obtain ⟨f1,f2,f3,f4,f5,f6,f7,f8,f9,f10⟩ := h.fixed
  have hpool := hl.head.pool
  have htot := hl.head.totalSize
  have hend : endAddr q = endAddr p := by rw [endAddr, endAddr, hpool, htot]
  obtain ⟨t,ht,htT⟩ := chainEnd_extent p E
  refine ⟨by rw [hpool]; exact f1,by rw [hpool]; exact f2,by rw [htot]; exact f3,by rw [htot]; exact f4,
    by rw [htot]; exact f5,by rw [hpool, htot]; exact f6,by rw [hl.panic]; exact f7,?_,?_,?_⟩
  · intro y hy
    rcases List.mem_append.mp hy with hy | hy
    · exact (f8 y hy).congr hpool htot
    · rw [List.mem_singleton.mp hy]
      exact hx.ok.congr hpool htot
  · refine List.nodup_append.mpr ⟨f9,List.nodup_singleton x,?_⟩
    rintro y hy z hz rfl
    rw [List.mem_singleton.mp hz] at hy
    have h1 := hx.apart x hy
    have h2 := hx.ok.size_pos
    omega
  · rw [hend]
    have hw : ∀ k < 12, k ≠ 4 → k ≠ 8 → q.mem (t.last + k) = p.mem (t.last + k) := by
      intro k hk h4 h8
      have h1 := h.fresh_apart hx ht
      have h2 := h.nodes.tiling.room t ht
      have h3 := hx.ok.size_pos
      have h4 := hx.ok.size_mod
      rw [hl.sentinels t ht k hk]
      simp only [areaHeads, ← htT]
      rw [if_neg (by omega), if_neg (by omega), if_neg (by omega), if_neg (by omega)]
    have hw4 : q.mem (t.last + 4) = x.node := by
      rw [hl.sentinels t ht 4 (by omega)]
      simp only [areaHeads, ← htT]
      rw [if_neg (by omega), if_true]
    have hw8 : q.mem (t.last + 8) = x.size + 2^31 + 2^29 := by
      rw [hl.sentinels t ht 8 (by omega)]
      simp only [areaHeads, ← htT, if_true]
    have hchain : SentinelChain p (endAddr p) (E ++ []) := by
      rw [List.append_nil]
      exact f10
    apply hchain.rewire h.sentinels_nodup
    · intro y hy hne k hk
      obtain ⟨e,he,rfl⟩ : ∃ e ∈ extents p E, e.last = y := by
        rcases hy with rfl | ⟨z,hz,rfl⟩
        · exact ⟨_,pool_mem_extents,rfl⟩
        · exact ⟨_,area_mem_extents hz,rfl⟩
      have h1 := h.fresh_apart hx he
      have h2 := h.nodes.tiling.room e he
      have h3 := hx.ok.size_pos
      have h4 := hx.ok.size_mod
      have h5 : e ≠ t := by
        rintro rfl
        exact hne htT
      have h6 := h.nodes.tiling.extents e he t ht h5
      have h7 := h.nodes.tiling.room t ht
      rw [hl.sentinels e he k hk]
      simp only [areaHeads, ← htT]
      rw [if_neg (by omega), if_neg (by omega), if_neg (by omega), if_neg (by omega)]
    · rw [← htT]
      exact ⟨hw8,(hw 0 (by omega) (by omega) (by omega)).trans (h.sentinel_flags ht).1,hw4,hl.last⟩

/-- The expanded pool has the area as one more free node. -/
theorem linkArea (h : Inv p E N F ∅ ∅ L) (hx : x.Fresh p E) : ∃ L',
    Inv (Tlsf.linkArea p x) (E ++ [x]) (insert x.node N) (insert x.node F) ∅ ∅ L' ∧
      (Tlsf.linkArea p x).sizeAndFlag x.node = x.size - 12 ∧
      UsedKept p N (Tlsf.linkArea p x) (insert x.node N) ∅ ∧ SameHead p (Tlsf.linkArea p x) := by
  obtain ⟨-,hn4,hs0,hs4,hlt,-,-⟩ := hx.ok
  obtain ⟨L',hl⟩ := h.areaLinked hx
  have hsen : x.sentinel = x.node + x.size - 12 := rfl
  have hnode : ∀ a ∈ N, x.node + x.size ≤ a ∨ a + p.size a + 12 ≤ x.node := fun a ha => h.fresh_node hx ha
  have hFN : ∀ a ∈ F, a ∈ N := fun a ha => (h.sub a ha).1
  set q := Tlsf.linkArea p x
  have hhead : ∀ a ∈ N, ∀ k < 12, q.mem (a + k) = p.mem (a + k) := by
    intro a ha k hk
    have h1 := h.inside ha
    apply hl.kept a ha _ (by omega) (by omega)
    intro b hb
    by_cases hab : a = b
    · omega
    · have := h.spaced ha (hFN b hb) hab
      omega
  have hsf : ∀ a ∈ N, q.sizeAndFlag a = p.sizeAndFlag a := fun a ha => hhead a ha 8 (by omega)
  have hsz : ∀ a ∈ N, q.size a = p.size a := fun a ha => by rw [MemPool.size, hsf a ha, MemPool.size]
  have hszn : q.size x.node = x.size - 12 := by
    rw [MemPool.size, hl.sizeAndFlag]
    omega
  refine ⟨L',⟨?_,⟨?_,?_,?_⟩,hl.lists,?_,?_,fun a ha => absurd ha (Set.notMem_empty a),?_,?_⟩,hl.sizeAndFlag,⟨?_,?_⟩,hl.head⟩
  · exact h.linkArea_fixed hx hl
  · have hext : extents q (E ++ [x]) = extents p E ++ [x.extent] := by
      rw [extents_congr hl.head.pool hl.head.totalSize, extents, extents, List.map_append, List.map_singleton,
        List.cons_append]
    rw [hext]
    apply h.nodes.tiling.addExtent
    · simp only [Area.extent]
      omega
    · intro e he
      have := h.fresh_apart hx he
      simp only [Area.extent]
      omega
    · simp only [Area.extent, hszn]
      omega
    · exact hl.ptr
    · exact hsz
    · exact fun a ha => hhead a ha 4 (by omega)
  · rintro a (rfl | ha)
    · rw [hszn]
      omega
    · rw [hsz a ha]
      exact h.nodes.mod a ha
  · rintro a (rfl | ha)
    · exact .inl (by rw [hszn, hl.sizeAndFlag])
    · rw [hsz a ha, hsf a ha]
      exact h.nodes.flags a ha
  · rintro a (rfl | ha)
    · exact ⟨.inl rfl,by rw [hl.sizeAndFlag]; omega⟩
    · rw [hsf a (hFN a ha)]
      exact ⟨.inr (hFN a ha),(h.sub a ha).2⟩
  · rintro a (rfl | ha) hf
    · exact .inl (.inl rfl)
    · rw [hsf a ha] at hf
      exact (h.full a ha hf).imp_left .inr
  · rintro a (rfl | ha) (hm | hm)
    · omega
    · have := hnode _ (hFN _ hm)
      omega
    · have := hnode a (hFN a ha)
      rw [hsz a (hFN a ha)] at hm
      omega
    · rw [hsz a (hFN a ha)] at hm
      exact h.coalesced a ha hm
  · rintro a (rfl | ha) hU
    · exact hl.magic
    · exact (hhead a ha 0 (by omega)).trans (h.magic a ha hU)
  · intro a ha _ hu
    refine ⟨.inr ha,hsf a ha,fun y hy hr => hl.kept a ha y (by omega) hr ?_⟩
    intro b hb
    have hab : a ≠ b := by
      rintro rfl
      have := (h.sub a hb).2
      omega
    have h2 := h.inside (hFN b hb)
    rcases h.nodes.tiling.apart ha (hFN b hb) hab with h3 | h3 <;> omega
  · rintro a (rfl | ha) _ hu
    · rw [hl.sizeAndFlag] at hu
      omega
    · exact ⟨ha,hsf a ha ▸ hu⟩

end Inv

/-- The pool q has recorded n more bytes than p. -/
structure Recorded (p q : MemPool) (n : Nat) : Prop where
  curUsedSize : q.curUsedSize = Word.add p.curUsedSize n
  waterLine : q.waterLine = max p.waterLine q.curUsedSize

theorem recorded_waterUsedRecord (p : MemPool) (n : Nat) : Recorded p (osMemWaterUsedRecord p n) n := by
  rw [osMemWaterUsedRecord]
  split
  case isTrue h => exact ⟨rfl,(Nat.max_eq_right (Nat.le_of_lt h)).symm⟩
  case isFalse h => exact ⟨rfl,(Nat.max_eq_left (Nat.le_of_not_lt h)).symm⟩

theorem Recorded.congr_left {p'' q : MemPool} {n : Nat} (h : Recorded p'' q n) (hc : p''.curUsedSize = p.curUsedSize)
    (hw : p''.waterLine = p.waterLine) : Recorded p q n :=
  ⟨by rw [h.curUsedSize, hc],by rw [h.waterLine, hw]⟩

/-- The area that OsMemPoolExpand obtains for r bytes from the answers of the page allocator to come. -/
def expandArea (p : MemPool) (r : Nat) : Option Area :=
  let expandDefault := losMemPoolSizeGet p >>> 3
  let (q, node) := expandPages p MAX_SHRINK_PAGECACHE_TRY
  if node ≠ 0 then some ⟨node,roundup (Word.add (max expandDefault r) OS_MEM_NODE_HEAD_SIZE) PAGE_SIZE⟩
  else if expandDefault < r then none
  else
    let (_, node) := expandPages q MAX_SHRINK_PAGECACHE_TRY
    if node ≠ 0 then some ⟨node,roundup (Word.add r OS_MEM_NODE_HEAD_SIZE) PAGE_SIZE⟩ else none

/-- Counting an amount of usage is no part of the invariant. -/
theorem waterUsedRecord_eq (p : MemPool) (s : Nat) : ∃ u w,
    osMemWaterUsedRecord p s = { p with curUsedSize := u, waterLine := w } := by
  rw [osMemWaterUsedRecord]
  split
  · exact ⟨_,_,rfl⟩
  · exact ⟨_,p.waterLine,rfl⟩

theorem mem_waterUsedRecord (p : MemPool) (s : Nat) : (osMemWaterUsedRecord p s).mem = p.mem := by
  obtain ⟨u,w,he⟩ := waterUsedRecord_eq p s
  rw [he]

theorem attr_waterUsedRecord (p : MemPool) (s : Nat) : (osMemWaterUsedRecord p s).attr = p.attr := by
  obtain ⟨u,w,he⟩ := waterUsedRecord_eq p s
  rw [he]

theorem UsedKept.congr_mem {p'' : MemPool} {N' X : Set Nat} (h : UsedKept p N p' N' X) (hm : p''.mem = p'.mem) :
    UsedKept p N p'' N' X := by
  have hsf : ∀ b, p''.sizeAndFlag b = p'.sizeAndFlag b := fun b => congrFun hm (b + 8)
  constructor
  · intro b hb hx hu
    obtain ⟨g1,g2,g3⟩ := h.keep b hb hx hu
    exact ⟨g1,(hsf b).trans g2,fun x hl hr => (congrFun hm x).trans (g3 x hl hr)⟩
  · intro b hb hx hu
    exact h.only b hb hx (hsf b ▸ hu)

theorem UsedKept.congr_left {p'' : MemPool} {N' X : Set Nat} (h : UsedKept p'' N p' N' X) (hm : p''.mem = p.mem) :
    UsedKept p N p' N' X := by
  have hsf : ∀ b, p''.sizeAndFlag b = p.sizeAndFlag b := fun b => congrFun hm (b + 8)
  constructor
  · intro b hb hx hu
    obtain ⟨g1,g2,g3⟩ := h.keep b hb hx ((hsf b).symm ▸ hu)
    refine ⟨g1,g2.trans (hsf b),fun x hl hr => (g3 x hl ?_).trans (congrFun hm x)⟩
    rwa [MemPool.size, hsf b]
  · intro b hb hx hu
    obtain ⟨g1,g2⟩ := h.only b hb hx hu
    exact ⟨g1,hsf b ▸ g2⟩

/-- What an expansion does: one more area, one more free node, and its sentinel recorded. -/
structure Expanded (p q : MemPool) (E : List Area) (N F : Set Nat) (L' : Nat → List Nat) (x : Area) : Prop where
  inv : Inv q (E ++ [x]) (insert x.node N) (insert x.node F) ∅ ∅ L'
  sizeAndFlag : q.sizeAndFlag x.node = x.size - 12
  used : UsedKept p N q (insert x.node N) ∅
  recorded : Recorded p q 12
  attr : q.attr = p.attr

namespace Inv

/-- The usage counters are no part of the invariant. -/
theorem setUsage (h : Inv p E N F D U L) (u w : Nat) :
    Inv { p with curUsedSize := u, waterLine := w } E N F D U L :=
  ⟨h.fixed.congr rfl rfl rfl fun _ _ _ _ => rfl,⟨h.nodes.tiling,h.nodes.mod,h.nodes.flags⟩,
    h.lists.congr rfl rfl (fun _ _ => rfl) (fun _ _ => rfl) fun _ _ => rfl,h.sub,h.full,h.apart,h.coalesced,h.magic⟩

theorem waterUsedRecord (h : Inv p E N F D U L) (s : Nat) : Inv (osMemWaterUsedRecord p s) E N F D U L := by
  obtain ⟨u,w,he⟩ := waterUsedRecord_eq p s
  rw [he]
  exact h.setUsage u w

theorem poolExpandSub (h : Inv p E N F ∅ ∅ L) (hx : x.Fresh p E) {size : Nat}
    (hs : roundup (Word.add size OS_MEM_NODE_HEAD_SIZE) PAGE_SIZE = x.size)
    (hn : (expandPages p MAX_SHRINK_PAGECACHE_TRY).2 = x.node) :
    ∃ q L', osMemPoolExpandSub p size = (q, true) ∧ Expanded p q E N F L' x := by
  obtain ⟨pages,hp⟩ := expandPages_eq p MAX_SHRINK_PAGECACHE_TRY
  rw [poolExpandSub_eq hx.ok hs hn, hp]
  have hx' : x.Fresh { p with pages := pages } E := ⟨hx.ok.congr rfl rfl,hx.apart⟩
  obtain ⟨L',h1,h2,h3,h4⟩ := (h.setPages pages).linkArea hx'
  set q := Tlsf.linkArea { p with pages := pages } x
  have hm := mem_waterUsedRecord q OS_MEM_NODE_HEAD_SIZE
  have hr := recorded_waterUsedRecord q OS_MEM_NODE_HEAD_SIZE
  have ha := (attr_waterUsedRecord q OS_MEM_NODE_HEAD_SIZE).trans h4.attr
  clear_value q
  exact ⟨_,L',rfl,h1.waterUsedRecord _,(congrFun hm _).trans h2,(h3.congr_mem hm).congr_left rfl,
    hr.congr_left h4.curUsedSize h4.waterLine,ha⟩

private theorem expandSize_eq {n : Nat} (h : n < 2^31) :
    roundup (Word.add n OS_MEM_NODE_HEAD_SIZE) PAGE_SIZE = (n + 12 + 4095)/4096*4096 := by
  rw [show Word.add n OS_MEM_NODE_HEAD_SIZE = n + 12 from Word.add_eq (by simp only [OS_MEM_NODE_HEAD_SIZE]; omega),
    show PAGE_SIZE = 2^12 from rfl, roundup_two_pow (by norm_num) (by omega)]
  rfl

theorem poolExpandSub_fail {size : Nat} (h : (expandPages p MAX_SHRINK_PAGECACHE_TRY).2 = 0) :
    osMemPoolExpandSub p size = ((expandPages p MAX_SHRINK_PAGECACHE_TRY).1, false) := by
  rcases he : expandPages p MAX_SHRINK_PAGECACHE_TRY with ⟨q,node⟩
  rw [he] at h
  obtain rfl : node = 0 := h
  simp only [osMemPoolExpandSub, he, if_true]

/-- OsMemPoolExpand fails without effect on the pool, or adds the area obtained, which has room for r bytes. -/
theorem poolExpand (h : Inv p E N F ∅ ∅ L) (hx : ∀ x, expandArea p r = some x → x.Fresh p E) (hr : r < 2^31) :
    (expandArea p r = none ∧ ∃ pages, osMemPoolExpand p r = ({ p with pages := pages }, false)) ∨
      ∃ x q L', expandArea p r = some x ∧ osMemPoolExpand p r = (q, true) ∧ r + 12 ≤ x.size ∧ Expanded p q E N F L' x := by
  have hdef : losMemPoolSizeGet p >>> 3 < 2^29 := by
    rw [Nat.shiftRight_eq_div_pow, h.poolSizeGet_eq]
    have := h.sum_lt
    omega
  set d := losMemPoolSizeGet p >>> 3 with hd
  obtain ⟨pages,hp⟩ := expandPages_eq p MAX_SHRINK_PAGECACHE_TRY
  rcases he : expandPages p MAX_SHRINK_PAGECACHE_TRY with ⟨q,node⟩
  rw [he] at hp
  simp only at hp
  have hs1 := expandSize_eq (n := max d r) (by omega)
  have hs2 := expandSize_eq (n := r) hr
  simp only [expandArea, he, ← hd, hs1, hs2] at hx ⊢
  by_cases hn : node = 0
  · have hfail : osMemPoolExpandSub p (max d r) = (q, false) := by
      rw [poolExpandSub_fail (by rw [he]; exact hn), he]
    simp only [hn, ne_eq, not_true_eq_false, if_false] at hx ⊢
    simp only [osMemPoolExpand, ← hd, hfail, Bool.false_eq_true, if_false]
    by_cases hlt : d < r
    · rw [if_pos hlt, if_pos hlt, hp]
      exact .inl ⟨rfl,pages,rfl⟩
    · rw [if_neg hlt] at hx
      rw [if_neg hlt, if_neg hlt]
      have h' : Inv q E N F ∅ ∅ L := by
        rw [hp]
        exact h.setPages pages
      obtain ⟨pages',hp'⟩ := expandPages_eq q MAX_SHRINK_PAGECACHE_TRY
      rcases he' : expandPages q MAX_SHRINK_PAGECACHE_TRY with ⟨q',node'⟩
      rw [he'] at hp'
      simp only [he'] at hx hp' ⊢
      by_cases hn' : node' = 0
      · rw [poolExpandSub_fail (by rw [he']; exact hn'), he', hp', hp]
        simp only [hn', not_true_eq_false, if_false, true_and]
        exact .inl ⟨pages',rfl⟩
      · simp only [hn', not_false_eq_true, if_true] at hx ⊢
        set x : Area := ⟨node',(r + 12 + 4095)/4096*4096⟩ with hxdef
        have hfresh := hx x rfl
        have hfresh' : x.Fresh q E := ⟨hfresh.ok.congr (by rw [hp]) (by rw [hp]),hfresh.apart⟩
        obtain ⟨q₂,L',h1,h2⟩ := h'.poolExpandSub hfresh' hs2 (by rw [he'])
        rw [hp] at h2
        have hroom : r + 12 ≤ x.size := by
          simp only [hxdef]
          omega
        exact .inr ⟨x,q₂,L',rfl,h1,hroom,⟨h2.inv,h2.sizeAndFlag,h2.used.congr_left rfl,
          h2.recorded.congr_left rfl rfl,h2.attr⟩⟩
  · simp only [hn, ne_eq, not_false_eq_true, if_true] at hx ⊢
    set x : Area := ⟨node,(max d r + 12 + 4095)/4096*4096⟩ with hxdef
    obtain ⟨q₂,L',h1,h2⟩ := h.poolExpandSub (hx x rfl) hs1 (by rw [he])
    have hroom : r + 12 ≤ x.size := by
      simp only [hxdef]
      omega
    simp only [osMemPoolExpand, ← hd, h1, if_true]
    exact .inr ⟨x,q₂,L',rfl,rfl,hroom,h2⟩

end Inv

-- Shrinking

/-- The chain without an area: the sentinel before it takes over the words of the area's own. -/
def unlinkArea (p : MemPool) (pre : Nat) (x : Area) : MemPool :=
  { p with mem := fun y =>
      if y = pre + 8 then p.sizeAndFlag x.sentinel else if y = pre + 4 then p.ptr x.sentinel else p.mem y }

namespace Inv

/-- Two sentinels do not overlap. -/
private theorem sentinels_apart (h : Inv p E N F D U L) {e d : Extent} (he : e ∈ extents p E) (hd : d ∈ extents p E)
    (hne : e.last ≠ d.last) : e.last + 12 ≤ d.last ∨ d.last + 12 ≤ e.last := by
  have h1 := h.nodes.tiling.room e he
  have h2 := h.nodes.tiling.room d hd
  rcases h.nodes.tiling.extents e he d hd (fun hed => hne (hed ▸ rfl)) with h3 | h3 <;> omega

theorem chainEnd_extent_of_split (h : Inv p (E₁ ++ x :: E₂) N F D U L) :
    ∃ e ∈ extents p (E₁ ++ x :: E₂), e.last = chainEnd (endAddr p) E₁ ∧ e.last ≠ x.sentinel := by
  have hnd := h.sentinels_nodup
  rw [List.map_append, List.map_cons, ← List.cons_append] at hnd
  have hne : ∀ y ∈ endAddr p :: E₁.map Area.sentinel, y ≠ x.sentinel :=
    fun y hy => (List.nodup_append.mp hnd).2.2 y hy x.sentinel (List.mem_cons_self)
  rcases chainEnd_mem (endAddr p) E₁ with h1 | ⟨y,hy,h1⟩
  · exact ⟨_,pool_mem_extents,h1.symm,hne _ (List.mem_cons_self)⟩
  · exact ⟨_,area_mem_extents (List.mem_append_left _ hy),h1.symm,
      hne _ (List.mem_cons_of_mem _ (List.mem_map.mpr ⟨y,hy,rfl⟩))⟩

theorem preSentinel_eq (h : Inv p (E₁ ++ x :: E₂) N F D U L) :
    preSentinelNodeGet p x.node = chainEnd (endAddr p) E₁ := by
  have hlen := h.length_lt
  rw [List.length_append, List.length_cons] at hlen
  have hge := h.fixed.total_ge
  simp only [sizeofPoolHead] at hge
  rw [preSentinelNodeGet, h.endNode_eq]
  apply h.fixed.chain.preSentinelFrom_eq _ (by rw [endAddr]; omega) h.fixed.areas ?_ (by omega)
  intro y hy he
  have hxE : x ∈ E₁ ++ x :: E₂ := by simp
  have hyE : y ∈ E₁ ++ x :: E₂ := List.mem_append_left _ hy
  have hne : y ≠ x := by
    rintro rfl
    exact (List.nodup_append.mp h.fixed.nodup).2.2 y hy y List.mem_cons_self rfl
  have h1 := (h.fixed.areas x hxE).size_pos
  have h2 := (h.fixed.areas y hyE).size_pos
  rcases h.area_apart hyE hxE hne with h3 | h3 <;> omega

theorem tryShrinkPool_eq (h : Inv p (E₁ ++ x :: E₂) N F D U L) (lf : Nat → Bool) :
    tryShrinkPool lf p x.node = if p.size x.node = x.size - 12
      then (unlinkArea p (chainEnd (endAddr p) E₁) x, lf x.node) else (p, false) := by
  have hxE : x ∈ E₁ ++ x :: E₂ := by simp
  have hx := h.fixed.areas x hxE
  obtain ⟨-,-,hs0,hs4,-,-,-⟩ := hx
  have hsen : x.sentinel = x.node + x.size - 12 := rfl
  have hptr : p.ptr x.node = x.sentinel := h.nodes.tiling.prev_first x.extent (area_mem_extents hxE)
  have htotal : Word.sub x.sentinel x.node = x.size - 12 := by
    rw [Word.sub_eq (by omega)]
    omega
  obtain ⟨e,he,hpre,hne⟩ := h.chainEnd_extent_of_split
  have hap := h.sentinels_apart he (area_mem_extents hxE) hne
  simp only [Area.extent] at hap
  have hr := h.nodes.tiling.room e he
  have hchain := h.fixed.chain.split
  simp only [tryShrinkPool, hptr, htotal, getSize_eq, show p.sizeAndFlag x.node % 2^29 = p.size x.node from rfl,
    h.preSentinel_eq]
  by_cases hsz : p.size x.node = x.size - 12
  swap
  · rw [if_pos hsz, if_neg hsz]
  rw [if_neg (not_not.mpr hsz), if_pos hsz, ← hpre, if_neg (by omega)]
  cases E₂ with
  | nil =>
    have hlast := hchain.2.2.2.last
    obtain ⟨h1,-,h3⟩ := hchain.2.2.2
    obtain ⟨m,hm,hmem⟩ := sentinelNodeSet_mem (p := p.setPtr e.last 0) (s := e.last) (n := 0) (v := 0) (t := e.last)
      (by simp [MemPool.ptr, MemPool.setPtr]) (by norm_num)
    rw [hlast, if_pos rfl, hm, unlinkArea]
    simp only [MemPool.setPtr, MemPool.pool_setWord, MemPool.totalSize_setWord, MemPool.attr_setWord,
      MemPool.waterLine_setWord, MemPool.curUsedSize_setWord, MemPool.pages_setWord, MemPool.panic_setWord,
      MemPool.freeList_setWord, MemPool.freeListBitmap_setWord, Prod.mk.injEq, MemPool.mk.injEq, true_and, and_true]
    funext y
    rw [hmem, h1, h3]
    simp only [MemPool.setPtr, MemPool.mem_setWord]
    split_ifs <;> rfl
  | cons y E₂ =>
    have hlast := hchain.2.2.2.not_last (h.fixed.areas y (by simp))
    have hp4 : (p.setSizeAndFlag e.last (p.sizeAndFlag x.sentinel)).ptr x.sentinel = p.ptr x.sentinel := by
      rw [MemPool.ptr, MemPool.setSizeAndFlag, MemPool.mem_setWord, if_neg (by omega)]
      rfl
    rw [hlast, if_neg (by simp), hp4, unlinkArea]
    simp only [MemPool.setPtr, MemPool.setSizeAndFlag, MemPool.setWord, Prod.mk.injEq, MemPool.mk.injEq, true_and, and_true]
    funext z
    simp only [Function.update_apply]
    split_ifs <;> first | rfl | omega

private theorem mem_extents_unlinked (h : Inv p (E₁ ++ x :: E₂) N F D U L) (e : Extent) :
    e ∈ extents p (E₁ ++ E₂) ↔ e ∈ extents p (E₁ ++ x :: E₂) ∧ e ≠ x.extent := by
  have hxE : x ∈ E₁ ++ x :: E₂ := by simp
  have hx := h.fixed.areas x hxE
  obtain ⟨hn0,hn4,hs0,hs4,hlt,htop,hout⟩ := hx
  have hge := h.fixed.total_ge
  simp only [sizeofPoolHead] at hge
  have hmem : ∀ y, y ∈ E₁ ++ x :: E₂ ↔ y ∈ E₁ ++ E₂ ∨ y = x := by
    intro y
    simp only [List.mem_append, List.mem_cons]
    tauto
  have hnot : x ∉ E₁ ++ E₂ := by
    have h1 := List.nodup_middle.mp h.fixed.nodup
    exact (List.nodup_cons.mp h1).1
  constructor
  · intro he
    rcases mem_extents.mp he with rfl | ⟨y,hy,rfl⟩
    · refine ⟨pool_mem_extents,?_⟩
      intro hc
      have : osMemFirstNode p = x.node := congrArg Extent.first hc
      rw [first_eq] at this
      omega
    · refine ⟨area_mem_extents ((hmem y).mpr (.inl hy)),?_⟩
      intro hc
      have hne : y ≠ x := fun hyx => hnot (hyx ▸ hy)
      have h1 : y.node = x.node := congrArg Extent.first hc
      have h2 := (h.fixed.areas y ((hmem y).mpr (.inl hy))).size_pos
      rcases h.area_apart ((hmem y).mpr (.inl hy)) hxE hne with h3 | h3 <;> omega
  · rintro ⟨he,hne⟩
    rcases mem_extents.mp he with rfl | ⟨y,hy,rfl⟩
    · exact pool_mem_extents
    · rcases (hmem y).mp hy with hy | rfl
      · exact area_mem_extents hy
      · exact absurd rfl hne

/-- An area whose one node is free and in no list can be unlinked. -/
theorem unlinkArea (h : Inv p (E₁ ++ x :: E₂) N F {x.node} U L) (hsz : p.size x.node = x.size - 12) :
    let q := Tlsf.unlinkArea p (chainEnd (endAddr p) E₁) x
    Inv q (E₁ ++ E₂) (N \ {x.node}) F ∅ U L ∧ UsedKept p N q (N \ {x.node}) {x.node} ∧ SameHead p q := by
  intro q
  have hxE : x ∈ E₁ ++ x :: E₂ := by simp
  have hx := h.fixed.areas x hxE
  obtain ⟨-,-,hs0,hs4,-,-,-⟩ := hx
  have hsen : x.sentinel = x.node + x.size - 12 := rfl
  obtain ⟨t,ht,htT,hne⟩ := h.chainEnd_extent_of_split
  have hnF : x.node ∉ F := h.apart _ rfl
  have hFN : ∀ a ∈ F, a ∈ N := fun a ha => (h.sub a ha).1
  have hmem : ∀ y, (y < t.last ∨ t.last + 12 ≤ y) → q.mem y = p.mem y := by
    intro y hy
    simp only [q, Tlsf.unlinkArea, ← htT]
    rw [if_neg (by omega), if_neg (by omega)]
  have hword : ∀ a ∈ N, ∀ y, a ≤ y → y < a + p.size a → q.mem y = p.mem y := by
    intro a ha y hl hr
    exact hmem y (h.off_sentinel ha hl hr ht)
  have hhead : ∀ a ∈ N, ∀ k < 20, q.mem (a + k) = p.mem (a + k) := by
    intro a ha k hk
    have := h.inside ha
    exact hword a ha _ (by omega) (by omega)
  have hsf : ∀ a ∈ N, q.sizeAndFlag a = p.sizeAndFlag a := fun a ha => hhead a ha 8 (by omega)
  have hsize : ∀ a ∈ N, q.size a = p.size a := fun a ha => by rw [MemPool.size, hsf a ha, MemPool.size]
  have hfix : Fixed q (E₁ ++ E₂) := by
    obtain ⟨f1,f2,f3,f4,f5,f6,f7,f8,f9,f10⟩ := h.fixed
    have hE : ∀ y ∈ E₁ ++ E₂, y ∈ E₁ ++ x :: E₂ := by
      intro y hy
      simp only [List.mem_append, List.mem_cons] at hy ⊢
      tauto
    refine ⟨f1,f2,f3,f4,f5,f6,f7,fun y hy => (f8 y (hE y hy)).congr rfl rfl,(List.nodup_cons.mp (List.nodup_middle.mp f9)).2,?_⟩
    have hsent : ∀ e ∈ extents p (E₁ ++ x :: E₂), e.last ≠ t.last → ∀ k < 12, q.mem (e.last + k) = p.mem (e.last + k) := by
      intro e he het k hk
      have := h.sentinels_apart he ht het
      exact hmem _ (by omega)
    have hnd := h.sentinels_nodup
    rw [List.map_append, List.map_cons, ← List.cons_append] at hnd
    obtain ⟨hnd1,-,hnd3⟩ := List.nodup_append.mp hnd
    apply f10.rewire hnd1
    · intro y hy hyt k hk
      rw [← htT] at hyt
      rcases hy with rfl | ⟨z,hz,rfl⟩
      · exact hsent _ pool_mem_extents hyt k hk
      · exact hsent _ (area_mem_extents (List.mem_append_left _ hz)) hyt k hk
    · have hchain := f10.split
      rw [← htT] at hchain ⊢
      have h8 : q.sizeAndFlag t.last = p.sizeAndFlag x.sentinel := by
        simp only [q, Tlsf.unlinkArea, MemPool.sizeAndFlag, ← htT, if_true]
      have h4 : q.ptr t.last = p.ptr x.sentinel := by
        simp only [q, Tlsf.unlinkArea, MemPool.ptr, ← htT]
        rw [if_neg (by omega), if_true]
      have h0 : q.magic t.last = OS_MEM_NODE_MAGIC := by
        refine Eq.trans ?_ hchain.2.1
        simp only [q, Tlsf.unlinkArea, MemPool.magic, ← htT]
        rw [if_neg (by omega), if_neg (by omega)]
      have hafter : ∀ y ∈ E₂, y.sentinel ≠ t.last := by
        intro y hy he
        rw [htT] at he
        have hy2 : y.sentinel ∈ x.sentinel :: E₂.map Area.sentinel :=
          List.mem_cons_of_mem _ (List.mem_map.mpr ⟨y,hy,rfl⟩)
        rcases chainEnd_mem (endAddr p) E₁ with h1 | ⟨z,hz,h1⟩
        · exact hnd3 _ List.mem_cons_self _ hy2 (h1.symm.trans he.symm)
        · exact hnd3 _ (List.mem_cons_of_mem _ (List.mem_map.mpr ⟨z,hz,rfl⟩)) _ hy2 (h1.symm.trans he.symm)
      cases E₂ with
      | nil => exact ⟨h8.trans hchain.2.2.2.1,h0,h4.trans hchain.2.2.2.2.2⟩
      | cons y E₂ =>
        obtain ⟨c1,-,c3,c4⟩ := hchain.2.2.2
        refine ⟨h8.trans c1,h0,h4.trans c3,c4.congr ?_ ?_⟩
        · exact hsent _ (area_mem_extents (by simp)) (hafter y List.mem_cons_self)
        · intro z hz
          exact hsent _ (area_mem_extents (by simp [hz])) (hafter z (List.mem_cons_of_mem _ hz))
  refine ⟨⟨hfix,⟨?_,?_,?_⟩,?_,?_,?_,fun a ha => absurd ha (Set.notMem_empty a),?_,?_⟩,⟨?_,?_⟩,⟨rfl,rfl,rfl,rfl,rfl,rfl⟩⟩
  · have hdrop := h.nodes.tiling.dropExtent (area_mem_extents hxE) (by simp only [Area.extent, hsz]; omega)
      h.mem_extents_unlinked
    exact hdrop.congr (fun a ha => hsize a ha.1) fun a ha => hhead a ha.1 4 (by omega)
  · rintro a ⟨ha,-⟩
    rw [hsize a ha]
    exact h.nodes.mod a ha
  · rintro a ⟨ha,-⟩
    rw [hsize a ha, hsf a ha]
    exact h.nodes.flags a ha
  · exact h.lists.congr rfl rfl (fun a ha => hsf a (hFN a ha)) (fun a ha => hhead a (hFN a ha) 12 (by omega))
      fun a ha => hhead a (hFN a ha) 16 (by omega)
  · intro a ha
    rw [hsf a (hFN a ha)]
    exact ⟨⟨hFN a ha,fun he => hnF (he ▸ ha)⟩,(h.sub a ha).2⟩
  · rintro a ⟨ha,hne⟩ hf
    rw [hsf a ha] at hf
    exact .inl ((h.full a ha hf).resolve_right hne)
  · intro a ha
    rw [hsize a (hFN a ha)]
    exact h.coalesced a ha
  · rintro a ⟨ha,-⟩ hU
    exact (hhead a ha 0 (by omega)).trans (h.magic a ha hU)
  · intro a ha hne _
    exact ⟨⟨ha,hne⟩,hsf a ha,fun y hy hr => hword a ha y (by omega) hr⟩
  · rintro a ⟨ha,-⟩ _ hu
    exact ⟨ha,hsf a ha ▸ hu⟩

end Inv

end LiteOsKernel.Mem.Tlsf
