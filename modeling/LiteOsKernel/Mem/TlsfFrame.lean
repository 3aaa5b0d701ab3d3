import LiteOsKernel.Mem.TlsfContents

/-! What a call of the heap leaves alone: the words outside the pool and its areas, and where the pool lies. -/
namespace LiteOsKernel.Mem.Tlsf
open LiteOsKernel Links Lib Run

variable {p q r : MemPool} {E E' : List Area} {N N' F F' D U : Set Nat} {L L' : Nat → List Nat} {a b k n v y : Nat} {x : Area}
  {own : Nat → Nat} {h : Arena}

/-- An address that no node and no sentinel takes. -/
def Beyond (p : MemPool) (E : List Area) (y : Nat) : Prop := ∀ e ∈ extents p E, y < e.first ∨ e.last + 12 ≤ y

/-- The step from p to q writes only in the pool and its areas, and moves none of them. -/
structure Confined (p q : MemPool) (E : List Area) : Prop where
  pool : q.pool = p.pool
  totalSize : q.totalSize = p.totalSize
  mem : ∀ y, Beyond p E y → q.mem y = p.mem y

namespace Confined

theorem refl (p : MemPool) (E : List Area) : Confined p p E := ⟨rfl,rfl,fun _ _ => rfl⟩

theorem beyond (h : Confined p q E) (hy : Beyond p E y) : Beyond q E y := by
  rw [Beyond, extents_congr h.pool h.totalSize]
  exact hy

theorem trans (h : Confined p q E) (h' : Confined q r E) : Confined p r E :=
  ⟨h'.pool.trans h.pool,h'.totalSize.trans h.totalSize,fun y hy => (h'.mem y (h.beyond hy)).trans (h.mem y hy)⟩

private theorem of_head (h : SameHead p q) (hm : ∀ y, Beyond p E y → q.mem y = p.mem y) : Confined p q E := ⟨h.pool,h.totalSize,hm⟩

theorem mono (h : Confined p q E) (hsub : ∀ x ∈ E, x ∈ E') : Confined p q E' := by
  refine ⟨h.pool,h.totalSize,fun y hy => h.mem y fun e he => hy e ?_⟩
  rcases mem_extents.mp he with rfl | ⟨x,hx,rfl⟩
  · exact pool_mem_extents
  · exact area_mem_extents (hsub x hx)

end Confined

namespace Inv

private theorem beyond_node (h : Inv p E N F D U L) (ha : a ∈ N) (hy : Beyond p E y) : y < a ∨ a + p.size a + 12 ≤ y := by
  obtain ⟨e,he,h1,h2⟩ := h.nodes.tiling.home a ha
  rcases hy e he with h3 | h3 <;> omega

/-- A write into a node or into the words behind its end. -/
private theorem confined_setWord (h : Inv p E N F D U L) (ha : a ∈ N) (hl : a ≤ b) (hr : b < a + p.size a + 12) :
    Confined p (p.setWord b v) E := by
  refine .of_head (sameHead_setWord p b v) fun y hy => ?_
  have := h.beyond_node ha hy
  rw [MemPool.mem_setWord, if_neg (by omega)]

private theorem confined_freeNodeDelete (h : Inv p E N F D U L) (ha : a ∈ F) : Confined p (osMemFreeNodeDelete p a) E := by
  refine .of_head (sameHead_freeNodeDelete p a) fun y hy => ?_
  have hfree : ∀ c ∈ F, y < c ∨ c + 20 ≤ y := by
    intro c hc
    have h1 := h.beyond_node (h.sub c hc).1 hy
    have h2 := h.inside (h.sub c hc).1
    omega
  rcases h.freeNodeDelete_mem ha y with h1 | h1 | ⟨c,hc,h1⟩
  · exact h1
  · have := hfree a ha
    omega
  · have := hfree c hc
    omega

private theorem confined_freeNodeAdd (h : Inv p E N F D U L) (ha : a ∈ N) (haf : p.sizeAndFlag a < 2^31) :
    Confined p (osMemFreeNodeAdd p a) E := by
  refine .of_head (sameHead_freeNodeAdd p a) fun y hy => ?_
  have hnode : ∀ c ∈ N, y < c ∨ c + 20 ≤ y := by
    intro c hc
    have h1 := h.beyond_node hc hy
    have h2 := h.inside hc
    omega
  rcases h.freeNodeAdd_mem ha haf y with h1 | h1 | ⟨c,rfl | hc,h1⟩
  · exact h1
  · have := hnode a ha
    omega
  · have := hnode c ha
    omega
  · have := hnode c (h.sub c hc).1
    omega

private theorem confined_mergeNode (h : Inv p E N F D U L) (ha : a ∈ N) (hb : b ∈ N) (hab : a + p.size a = b)
    (haf : p.sizeAndFlag a < 2^31) (hbf : p.sizeAndFlag b < 2^31) : Confined p (osMemMergeNode p b) E := by
  refine .of_head (sameHead_mergeNode p b) fun y hy => ?_
  have h1 := h.beyond_node ha hy
  have h2 := h.beyond_node hb hy
  have h3 := h.inside ha
  exact h.mergeNode_mem ha hb hab haf hbf (by omega) (by omega)

/-- A free node taken off its list and merged into the one before it. -/
private theorem confined_absorb (h : Inv p E N F D U L) (hb : b ∈ F) {c d : Nat} (hc : c ∈ N) (hd : d ∈ N) (hcd : c + p.size c = d)
    (hcf : p.sizeAndFlag c < 2^31) (hdf : p.sizeAndFlag d < 2^31) : Confined p (osMemMergeNode (osMemFreeNodeDelete p b) d) E := by
  obtain ⟨L₁,h₁,hk₁,-⟩ := h.freeNodeDelete hb
  refine (h.confined_freeNodeDelete hb).trans (h₁.confined_mergeNode hc hd ?_ ?_ ?_)
  · rw [MemPool.size, hk₁.sizeAndFlag c hc]
    exact hcd
  · rwa [hk₁.sizeAndFlag c hc]
  · rwa [hk₁.sizeAndFlag d hd]

private theorem confined_splitNode (h : Inv p E N F {a} ∅ L) (ha : a ∈ N) (haf : p.sizeAndFlag a < 2^31) (hk : 20 ≤ k) (hk4 : k%4 = 0)
    (hks : k + 20 ≤ p.size a) : Confined p (osMemSplitNode p a k) E := by
  have haF : a ∉ F := h.apart a rfl
  have hla := h.size_lt ha
  have hkN : a + k ∉ N := by
    intro hm
    rcases h.nodes.tiling.apart ha hm (by omega) with h1 | h1 <;> omega
  obtain ⟨h₁,-,hsk,hsf,-⟩ := h.cutNode ha haf haF hk hk4 hks fun hm => hkN (h.sub _ hm).1
  have hhead : (Tlsf.cutNode p a k).pool = p.pool ∧ (Tlsf.cutNode p a k).totalSize = p.totalSize := by
    simp only [Tlsf.cutNode]
    split <;> exact ⟨rfl,rfl⟩
  have hcut : Confined p (Tlsf.cutNode p a k) E := by
    refine ⟨hhead.1,hhead.2,fun y hy => ?_⟩
    have := h.beyond_node ha hy
    rw [cutNode_mem, if_neg (by omega), if_neg (by omega), if_neg (by omega), if_neg (by omega)]
  rw [h.splitNode_eq ha haf hk hks]
  by_cases hfree : getLastFlag (p.sizeAndFlag (a + p.size a)) = 0 ∧ getUsedFlag (p.sizeAndFlag (a + p.size a)) = 0
  · rw [if_pos hfree]
    have hn : a + p.size a ∈ N := by
      rcases h.nodes.tiling.next a ha with ⟨e,hm,he⟩ | hm
      · exact absurd hfree.1 (he ▸ h.last_end hm)
      · exact hm
    have hne : a + p.size a ≠ a := by omega
    have hnf : p.sizeAndFlag (a + p.size a) < 2^31 := (h.used_zero_iff hn).mp hfree.2
    have hnF : a + p.size a ∈ F := (h.full _ hn hnf).resolve_right (by simp only [Set.mem_singleton_iff]; omega)
    have hszk : (Tlsf.cutNode p a k).size (a + k) = p.size a - k := by rw [MemPool.size, hsk, Nat.mod_eq_of_lt (by omega)]
    have hmerge := h₁.confined_absorb hnF (.inl rfl) (.inr hn) (by rw [hszk]; omega) (by rw [hsk]; omega)
      (by rw [hsf _ hn hne]; exact hnf)
    obtain ⟨L₂,h₂,hk₂,-⟩ := h₁.freeNodeDelete hnF
    have hszk₂ : (osMemFreeNodeDelete (Tlsf.cutNode p a k) (a + p.size a)).size (a + k) = p.size a - k := by
      rw [MemPool.size, hk₂.sizeAndFlag _ (.inl rfl), ← MemPool.size, hszk]
    have hszn : (osMemFreeNodeDelete (Tlsf.cutNode p a k) (a + p.size a)).size (a + p.size a) = p.size (a + p.size a) := by
      rw [MemPool.size, hk₂.sizeAndFlag _ (.inr hn), hsf _ hn hne, ← MemPool.size]
    obtain ⟨h₃,hs₃,-⟩ := h₂.mergeNode (a := a + k) (b := a + p.size a) (.inl rfl) (.inr hn) (by rw [hszk₂]; omega)
      (by rw [hk₂.sizeAndFlag _ (.inl rfl), hsk]; omega) (by rw [hk₂.sizeAndFlag _ (.inr hn), hsf _ hn hne]; exact hnf)
      (fun hm => hkN (h.sub _ hm.1).1) fun hm => hm.2 rfl
    have hln := h.add_size_lt ha hn rfl
    exact (hcut.trans hmerge).trans (h₃.confined_freeNodeAdd ⟨.inl rfl,by simp only [Set.mem_singleton_iff]; omega⟩
      (by rw [hs₃, hszk₂, hszn]; omega))
  · rw [if_neg hfree]
    exact hcut.trans (h₁.confined_freeNodeAdd (.inl rfl) (by rw [hsk]; omega))

-- Allocation

private theorem confined_freeNodeGet (h : Inv p E N F ∅ ∅ L) (hk : 20 ≤ k) (hk4 : k%4 = 0) (hk' : k < 2^30 + 2^26)
    (hg : osMemFreeNodeGet p k = (q, a)) : Confined p q E := by
  rw [osMemFreeNodeGet] at hg
  rcases hf : osMemFindNextSuitableBlock p k with ⟨f,i⟩
  simp only [hf] at hg
  split at hg
  case isTrue =>
    obtain ⟨rfl,rfl⟩ := Prod.mk.inj hg
    exact .refl _ E
  case isFalse h0 =>
    obtain ⟨rfl,rfl⟩ := Prod.mk.inj hg
    obtain ⟨h1,h2,-,-⟩ := h.freeLists.find_sound hk hk4 hk' hf h0
    have hi := h.index_lt_of_free (h.sub _ h1).1 (h.sub _ h1).2
    have := h.confined_freeNodeDelete h1
    rwa [osMemFreeNodeDelete, if_neg (by simp only [OS_MEM_FREE_LIST_COUNT]; omega), h2] at this

private theorem confined_trim (h : Inv p E N F {a} ∅ L) (ha : a ∈ N) (haf : p.sizeAndFlag a < 2^31) (hk : 20 ≤ k) (hk4 : k%4 = 0) :
    Confined p (if k + 20 ≤ p.sizeAndFlag a then osMemSplitNode p a k else p) E := by
  split
  case isTrue hs =>
    rw [h.free_eq ha haf] at hs
    exact h.confined_splitNode ha haf hk hk4 hs
  case isFalse => exact .refl p E

/-- Linking an area writes in the area, in the sentinel before it and in the free nodes. -/
private theorem confined_linkArea (h : Inv p E N F ∅ ∅ L) (hx : x.Fresh p E) : Confined p (Tlsf.linkArea p x) (E ++ [x]) := by
  obtain ⟨L',hA⟩ := h.areaLinked hx
  obtain ⟨m,hq,hm⟩ := h.linkArea_eq hx
  have hsen : x.sentinel = x.node + x.size - 12 := rfl
  have hs := hx.ok.size_pos
  have hs4 := hx.ok.size_mod
  obtain ⟨t,ht,htT⟩ := chainEnd_extent p E
  refine .of_head hA.head fun y hy => ?_
  have hold : Beyond p E y := fun e he => hy e (by
    rcases mem_extents.mp he with rfl | ⟨z,hz,rfl⟩
    · exact pool_mem_extents
    · exact area_mem_extents (List.mem_append_left _ hz))
  have hnew := hy x.extent (area_mem_extents (List.mem_append_right _ List.mem_cons_self))
  have hend := hold t ht
  have hroom := h.nodes.tiling.room t ht
  simp only [Area.extent] at hnew
  have hhead : (areaHeads p E x).mem y = p.mem y := by
    simp only [areaHeads, ← htT]
    rw [if_neg (by omega), if_neg (by omega), if_neg (by omega), if_neg (by omega)]
  have hword : ∀ a ∈ F, ∀ k < 20, (areaHeads p E x).mem (a + k) = p.mem (a + k) := by
    intro a ha k hk
    have hb := h.inside (h.sub a ha).1
    have h1 := h.off_sentinel (x := a + k) (h.sub a ha).1 (by omega) (by omega) ht
    have h2 := h.fresh_node hx (h.sub a ha).1
    simp only [areaHeads, ← htT]
    rw [if_neg (by omega), if_neg (by omega), if_neg (by omega), if_neg (by omega)]
  have hlists : Lists (areaHeads p E x) F L := h.lists.congr rfl rfl (fun a ha => hword a ha 8 (by omega))
    (fun a ha => hword a ha 12 (by omega)) fun a ha => hword a ha 16 (by omega)
  have hidx : osMemFreeListIndexGet (x.size - 12) < 207 := by
    have := hx.ok.size_lt
    exact index_lt (by omega) (by omega)
  rw [hq]
  refine (hm y).trans ?_
  rw [if_neg (by omega), if_neg (by omega), if_neg (by omega), ← hhead]
  rcases listAdd_changed (a := x.node) hlists (show osMemFreeListIndexGet (x.size - 12) < OS_MEM_FREE_LIST_COUNT by
    simp only [OS_MEM_FREE_LIST_COUNT]; omega) y with h1 | h1 | ⟨c,rfl | hc,h1⟩
  · exact h1
  · omega
  · omega
  · have h2 := h.beyond_node (h.sub c hc).1 hold
    have h3 := h.inside (h.sub c hc).1
    omega

/-- The page answers and the usage counters are no part of the memory. -/
private theorem confined_record (p : MemPool) (E : List Area) (pages : List Nat) (s : Nat) :
    Confined p { p with pages := pages } E ∧ Confined p (osMemWaterUsedRecord p s) E := by
  refine ⟨⟨rfl,rfl,fun _ _ => rfl⟩,?_⟩
  obtain ⟨u,w,he⟩ := waterUsedRecord_eq p s
  rw [he]
  exact ⟨rfl,rfl,fun _ _ => rfl⟩

private theorem confined_poolExpandSub (h : Inv p E N F ∅ ∅ L) (hx : x.Fresh p E) {size : Nat}
    (hs : roundup (Word.add size OS_MEM_NODE_HEAD_SIZE) PAGE_SIZE = x.size)
    (hn : (expandPages p MAX_SHRINK_PAGECACHE_TRY).2 = x.node) : Confined p (osMemPoolExpandSub p size).1 (E ++ [x]) := by
  obtain ⟨pages,hp⟩ := expandPages_eq p MAX_SHRINK_PAGECACHE_TRY
  rw [poolExpandSub_eq hx.ok hs hn, hp]
  have hx' : x.Fresh { p with pages := pages } E := ⟨hx.ok.congr rfl rfl,hx.apart⟩
  exact ((confined_record p _ pages 0).1.trans ((h.setPages pages).confined_linkArea hx')).trans
    (confined_record _ _ [] OS_MEM_NODE_HEAD_SIZE).2

private theorem confined_poolExpand (h : Inv p E N F ∅ ∅ L) (hx : x.Fresh p E) (he : expandArea p k = some x) :
    Confined p (osMemPoolExpand p k).1 (E ++ [x]) := by
  obtain ⟨pages,hp⟩ := expandPages_eq p MAX_SHRINK_PAGECACHE_TRY
  simp only [expandArea] at he
  by_cases hn : (expandPages p MAX_SHRINK_PAGECACHE_TRY).2 = 0
  · have hfail : osMemPoolExpandSub p (max (losMemPoolSizeGet p >>> 3) k) = ({ p with pages := pages }, false) := by
      rw [poolExpandSub_fail hn, hp]
    have h' := h.setPages pages
    have hx' : x.Fresh { p with pages := pages } E := ⟨hx.ok.congr rfl rfl,hx.apart⟩
    rw [osMemPoolExpand]
    simp only [hfail, Bool.false_eq_true, if_false]
    simp only [hn, ne_eq, not_true_eq_false, if_false, hp] at he
    split at he
    case isTrue => cases he
    case isFalse hd =>
      rw [if_neg hd]
      split at he
      case isFalse => cases he
      case isTrue =>
        obtain rfl := Option.some.inj he
        exact (confined_record p _ pages 0).1.trans (h'.confined_poolExpandSub hx' rfl rfl)
  · simp only [ne_eq, hn, not_false_eq_true, if_true] at he
    obtain rfl := Option.some.inj he
    have hs : roundup (Word.add (max (losMemPoolSizeGet p >>> 3) k) OS_MEM_NODE_HEAD_SIZE) PAGE_SIZE = _ := rfl
    obtain ⟨q,L',hq,-⟩ := h.poolExpandSub hx hs rfl
    have hsub := h.confined_poolExpandSub hx hs rfl
    rw [osMemPoolExpand]
    simp only [hq, if_true] at hsub ⊢
    exact hsub

private theorem confined_allocNode (h : Inv p E N F ∅ ∅ L) (hk : 20 ≤ k) (hk4 : k%4 = 0) (hk' : k < 2^30 + 2^26)
    (hx : ∀ x, grownArea p k = some x → x.Fresh p E) {fuel : Nat} (hf : p.pages.length < fuel)
    (he : osMemAllocNode p k fuel = (q, a)) : Confined p q (E ++ (grownArea p k).toList) := by
  obtain ⟨n,rfl⟩ : ∃ n, fuel = n + 1 := ⟨fuel - 1,by omega⟩
  rcases hg : osMemFreeNodeGet p k with ⟨p₁,c⟩
  simp only [osMemAllocNode, hg] at he
  have hget : Confined p p₁ (E ++ (grownArea p k).toList) :=
    (h.confined_freeNodeGet hk hk4 hk' hg).mono fun x hx => List.mem_append_left _ hx
  by_cases hc : c = 0
  swap
  · rw [if_pos hc] at he
    obtain ⟨rfl,rfl⟩ := Prod.mk.inj he
    exact hget
  obtain rfl : p₁ = p := by
    rcases h.freeNodeGet hk hk4 hk' hg with ⟨-,h1⟩ | ⟨F',L',hd⟩
    · exact h1
    · exact absurd hc hd.ne_zero
  have hgrown : grownArea p₁ k = if p₁.attr &&& OS_MEM_POOL_EXPAND_ENABLE = 0 then none else expandArea p₁ k := by
    simp only [grownArea, hg, hc, ne_eq, not_true_eq_false, false_or]
  simp only [hc, ne_eq, not_true_eq_false, if_false] at he
  by_cases hattr : p₁.attr &&& OS_MEM_POOL_EXPAND_ENABLE = 0
  · rw [if_pos hattr] at he
    obtain ⟨rfl,rfl⟩ := Prod.mk.inj he
    exact hget
  rw [if_neg hattr] at he hgrown
  rw [hgrown] at hx ⊢
  rcases h.poolExpand hx (by omega) with ⟨hn,pages,hp⟩ | ⟨x,p₂,L₂,hn,hp,hroom,hex⟩
  · simp only [hp, Bool.false_eq_true, if_false] at he
    obtain ⟨rfl,rfl⟩ := Prod.mk.inj he
    exact (confined_record p₁ _ pages 0).1
  · have hexp := h.confined_poolExpand (hx x hn) hn
    have hlt := (hx x hn).ok.size_lt
    have hne : p₁.pages ≠ [] := by
      intro hnil
      rw [expandArea_nil hnil] at hn
      cases hn
    have hlen := List.length_pos_of_ne_nil hne
    obtain ⟨m,rfl⟩ : ∃ m, n = m + 1 := ⟨n - 1,by omega⟩
    have hfound := hex.inv.freeNodeGet_ne hk (a := x.node) (.inl rfl) (by rw [hex.sizeAndFlag]; omega)
    rcases hg₂ : osMemFreeNodeGet p₂ k with ⟨p₃,d⟩
    rw [hg₂] at hfound
    simp only [hp, if_true, osMemAllocNode, hg₂, if_pos hfound] at he hexp
    obtain ⟨rfl,rfl⟩ := Prod.mk.inj he
    rw [hn]
    exact hexp.trans (hex.inv.confined_freeNodeGet hk hk4 hk' hg₂)

private theorem confined_osMemAlloc (h : Inv p E N F ∅ ∅ L) {size : Nat} (h8 : 8 ≤ size) (hs : size < 2^30)
    (hx : ∀ x, grownArea p (allocSizeOf size) = some x → x.Fresh p E) :
    Confined p (Tlsf.osMemAlloc p size).1 (E ++ (grownArea p (allocSizeOf size)).toList) := by
  simp only [Tlsf.osMemAlloc, allocSize_eq (show size < 2^31 by omega)]
  have hk : 20 ≤ allocSizeOf size ∧ allocSizeOf size%4 = 0 ∧ allocSizeOf size < 2^30 + 2^26 := by
    rw [allocSizeOf]
    omega
  set k := allocSizeOf size
  rcases hg : osMemAllocNode p k (p.pages.length + 1) with ⟨p₁,a⟩
  have hnode := h.confined_allocNode hk.1 hk.2.1 hk.2.2 hx (Nat.lt_succ_self _) hg
  rw [splitBound_eq (by omega)]
  rcases h.allocNode hk.1 hk.2.1 hk.2.2 hx (Nat.lt_succ_self _) hg with ⟨-,rfl,-⟩ | ⟨-,N₁,F₁,L₁,hd⟩
  · simpa only [if_true] using hnode
  simp only [if_neg hd.ne_zero]
  obtain ⟨N₂,F₂,L₂,h₂,ha₂,-⟩ := hd.inv.trim hd.mem hd.free hk.1 hk.2.1 rfl
  have htrim := hd.inv.confined_trim hd.mem hd.free hk.1 hk.2.1
  exact ((hnode.trans htrim).trans (h₂.confined_setWord (b := a + 8) ha₂ (by omega) (by omega))).trans (confined_record _ _ [] _).2

private theorem confined_losMemAlloc (h : Inv p E N F ∅ ∅ L) {size : Nat} (hsz : size < 2^32)
    (hx : ∀ x, (Call.alloc size).grown p = some x → x.Fresh p E) :
    Confined p (Tlsf.losMemAlloc p size).1 (E ++ ((Call.alloc size).grown p).toList) := by
  rw [losMemAlloc_eq]
  rcases hs : allocUse size with _ | s
  · exact .refl p _
  · have hn : (Call.alloc size).grown p = grownArea p (allocSizeOf s) := by
      simp only [Call.grown, Call.asks, hs]
      rfl
    obtain ⟨h8,h30,-⟩ := allocUse_spec hsz hs
    rw [hn] at hx ⊢
    exact h.confined_osMemAlloc h8 h30 hx

-- Release

private theorem confined_mergePrev (h : Inv p E N F {a} ∅ L) (ha : a ∈ N) (haf : p.sizeAndFlag a < 2^31) :
    Confined p (if p.ptr a ≠ 0 ∧ getUsedFlag (p.sizeAndFlag (p.ptr a)) = 0 then
      (osMemMergeNode (osMemFreeNodeDelete p (p.ptr a)) a, p.ptr a) else (p, a)).1 E := by
  split
  case isTrue hc =>
    have hfirst : ∀ e ∈ extents p E, a ≠ e.first := by
      rintro e he rfl
      rw [h.nodes.tiling.prev_first e he] at hc
      rcases mem_extents.mp he with rfl | ⟨x,-,rfl⟩
      · exact hc.1 rfl
      · exact h.used_end he hc.2
    obtain ⟨hb,hba⟩ := h.nodes.tiling.prev_spec ha hfirst
    have hbf : p.sizeAndFlag (p.ptr a) < 2^31 := (h.used_zero_iff hb).mp hc.2
    have hne : p.ptr a ≠ a := by
      have := h.inside hb
      omega
    exact h.confined_absorb ((h.full _ hb hbf).resolve_right hne) hb ha hba hbf haf
  case isFalse => exact .refl p E

private theorem confined_freeMerged (h : Inv p E N F ∅ ∅ L) (ha : a ∈ N) (hu : 2^31 ≤ p.sizeAndFlag a) :
    Confined p (Tlsf.freeMerged p a).1 E := by
  simp only [Tlsf.freeMerged, show getSize (p.sizeAndFlag a) = p.size a from Tlsf.getSize_eq _]
  set p₀ : MemPool := { p with curUsedSize := Word.sub p.curUsedSize (p.size a) } with hp₀
  have h₀ : Inv p₀ E N F ∅ ∅ L := h.setUsage _ _
  have hc₀ : Confined p p₀ E := ⟨rfl,rfl,fun _ _ => rfl⟩
  have hsize : getSize (p₀.sizeAndFlag a) = p₀.size a := Tlsf.getSize_eq _
  have hu₀ : 2^31 ≤ p₀.sizeAndFlag a := hu
  rw [hsize]
  clear_value p₀
  obtain ⟨h₁,hs₁,-⟩ := h₀.clearFlags ha hu₀
  have hc₁ := h₀.confined_setWord (b := a + 8) (v := p₀.size a) ha (by omega) (by omega)
  rw [← MemPool.setSizeAndFlag] at hc₁
  set p₁ := p₀.setSizeAndFlag a (p₀.size a)
  have haf₁ : p₁.sizeAndFlag a < 2^31 := by
    have := h₀.size_lt ha
    omega
  have hc₂ := h₁.confined_mergePrev ha haf₁
  rcases hpair : (if p₁.ptr a ≠ 0 ∧ getUsedFlag (p₁.sizeAndFlag (p₁.ptr a)) = 0 then
    (osMemMergeNode (osMemFreeNodeDelete p₁ (p₁.ptr a)) a, p₁.ptr a) else (p₁, a)) with ⟨p₂,m⟩
  obtain ⟨N₂,F₂,L₂,h₂,hn₂,hnf₂,-⟩ := h₁.mergePrev ha haf₁ hpair.symm
  rw [hpair] at hc₂
  have hc := (hc₀.trans hc₁).trans hc₂
  dsimp only
  rw [h₂.nextNode_eq hn₂]
  split
  case isTrue hfree =>
    have hm : m + p₂.size m ∈ N₂ := by
      rcases h₂.nodes.tiling.next m hn₂ with ⟨e,he,h1⟩ | hm
      · exact absurd hfree.2 (h1 ▸ h₂.used_end he)
      · exact hm
    have hmf : p₂.sizeAndFlag (m + p₂.size m) < 2^31 := (h₂.used_zero_iff hm).mp hfree.2
    have hne : m + p₂.size m ≠ m := by
      have := h₂.inside hn₂
      omega
    exact hc.trans (h₂.confined_absorb ((h₂.full _ hm hmf).resolve_right hne) hn₂ hm rfl hnf₂ hmf)
  case isFalse => exact hc

/-- Giving back an area writes in the sentinel before it. -/
private theorem confined_unlinkArea {E₁ E₂ : List Area} (h : Inv p (E₁ ++ x :: E₂) N F D U L) :
    Confined p (Tlsf.unlinkArea p (chainEnd (endAddr p) E₁) x) (E₁ ++ x :: E₂) := by
  obtain ⟨t,ht,htT,-⟩ := h.chainEnd_extent_of_split
  refine ⟨rfl,rfl,fun y hy => ?_⟩
  have h1 := hy t ht
  have h2 := h.nodes.tiling.room t ht
  simp only [Tlsf.unlinkArea, ← htT]
  rw [if_neg (by omega), if_neg (by omega)]

private theorem confined_osMemFree (h : Inv p E N F ∅ ∅ L) (ha : a ∈ N) (hu : 2^31 ≤ p.sizeAndFlag a) {lf : Nat → Bool}
    (hlf : ∀ x ∈ E, handedBack p a = some x.node → lf x.node = true) : Confined p (Tlsf.osMemFree lf p a).1 E := by
  rcases hq : Tlsf.freeMerged p a with ⟨q,n⟩
  obtain ⟨N₁,F₁,L₁,hm⟩ := h.freeMerged ha hu hq
  have hc := h.confined_freeMerged ha hu
  rw [hq] at hc
  have hadd := hc.trans (hm.inv.confined_freeNodeAdd hm.mem hm.free)
  have hfw := hm.inv.forward_iff hm.mem
  simp only [osMemFree_eq lf p a (h.checkUsedNode ha hu), hq]
  by_cases hx : q.attr &&& OS_MEM_POOL_EXPAND_ENABLE ≠ 0 ∧ q.ptr n ≠ 0 ∧ n < q.ptr n
  · rw [if_pos hx]
    obtain ⟨x,hxE,rfl⟩ := hfw.mp hx.2
    obtain ⟨E₁,E₂,rfl⟩ := List.append_of_mem hxE
    rw [hm.inv.tryShrinkPool_eq]
    by_cases hsz : q.size x.node = x.size - 12
    · rw [if_pos hsz, hlf x hxE ((hm.handedBack_iff hq).mpr ⟨rfl,hm.attr ▸ hx.1,x,hxE,rfl,hsz⟩)]
      exact hc.trans hm.inv.confined_unlinkArea
    · rw [if_neg hsz]
      exact hadd
  · rw [if_neg hx]
    exact hadd

-- Reallocation

private theorem confined_reAllocSmaller (h : Inv p E N F ∅ ∅ L) (ha : a ∈ N) (hu : 2^31 ≤ p.sizeAndFlag a) (hk : 20 ≤ k) (hk4 : k%4 = 0)
    (hle : k ≤ p.size a) : Confined p (osMemReAllocSmaller p k a (p.size a)) E := by
  have hla := h.size_lt ha
  obtain ⟨h₁,hs₁,-⟩ := h.clearFlags ha hu
  have hc₁ := h.confined_setWord (b := a + 8) (v := p.size a) ha (by omega) (by omega)
  rw [← MemPool.setSizeAndFlag] at hc₁
  rw [osMemReAllocSmaller, splitBound_eq (by omega)]
  set p₁ := p.setSizeAndFlag a (p.size a)
  have hsz₁ : p₁.size a = p.size a := by rw [MemPool.size, hs₁, Nat.mod_eq_of_lt (by omega)]
  by_cases hc : k + 20 ≤ p.size a
  · simp only [if_pos hc]
    obtain ⟨N₂,F₂,L₂,h₂,ha₂,hs₂,-⟩ := h₁.splitNode ha (by omega) hk hk4 (by rw [hsz₁]; exact hc)
    have hc₂ := h₁.confined_splitNode ha (by omega) hk hk4 (by rw [hsz₁]; exact hc)
    obtain ⟨h₃,-⟩ := h₂.setUsed ha₂ (by omega)
    have hc₃ := h₂.confined_setWord (b := a + 8) (v := (osMemSplitNode p₁ a k).sizeAndFlag a ||| OS_MEM_NODE_USED_FLAG) ha₂
      (by omega) (by omega)
    rw [← MemPool.setSizeAndFlag] at hc₃
    set p₃ := (osMemSplitNode p₁ a k).setSizeAndFlag a ((osMemSplitNode p₁ a k).sizeAndFlag a ||| OS_MEM_NODE_USED_FLAG)
    have hc₄ : Confined p₃ { p₃ with curUsedSize := Word.sub p₃.curUsedSize (Word.sub (p.size a) k) } E := ⟨rfl,rfl,fun _ _ => rfl⟩
    have h₄ := h₃.setUsage (Word.sub p₃.curUsedSize (Word.sub (p.size a) k)) p₃.waterLine
    exact (((hc₁.trans hc₂).trans hc₃).trans hc₄).trans (h₄.confined_setWord (b := a + 8) ha₂ (by omega) (by omega))
  · simp only [if_neg hc]
    exact hc₁.trans (h₁.confined_setWord (b := a + 8) ha (by omega) (by omega))

private theorem confined_mergeNodeForReAllocBigger (h : Inv p E N F ∅ ∅ L) (ha : a ∈ N) (hu : 2^31 ≤ p.sizeAndFlag a) (hk : 20 ≤ k)
    (hk4 : k%4 = 0) (hb : a + p.size a ∈ N) (hbf : p.sizeAndFlag (a + p.size a) < 2^31)
    (hsum : k ≤ p.size a + p.size (a + p.size a)) :
    Confined p (osMemMergeNodeForReAllocBigger p k a (p.size a) (a + p.size a)) E := by
  have hba := h.inside ha
  have hlab := h.add_size_lt ha hb rfl
  obtain ⟨h₁,hs₁,-⟩ := h.clearFlags ha hu
  have hc₁ := h.confined_setWord (b := a + 8) (v := p.size a) ha (by omega) (by omega)
  rw [← MemPool.setSizeAndFlag] at hc₁
  rw [osMemMergeNodeForReAllocBigger, splitBound_eq (by omega)]
  have hsb₁ : (p.setSizeAndFlag a (p.size a)).sizeAndFlag (a + p.size a) = p.sizeAndFlag (a + p.size a) := by
    rw [sizeAndFlag_setSizeAndFlag, if_neg (by omega)]
  set p₁ := p.setSizeAndFlag a (p.size a)
  have hsz₁ : p₁.size a = p.size a := by rw [MemPool.size, hs₁, Nat.mod_eq_of_lt (by omega)]
  have hszb₁ : p₁.size (a + p.size a) = p.size (a + p.size a) := congrArg (· % 2^29) hsb₁
  have haf₁ : p₁.sizeAndFlag a < 2^31 := by omega
  have hbf₁ : p₁.sizeAndFlag (a + p.size a) < 2^31 := hsb₁.symm ▸ hbf
  obtain ⟨L₂,h₂,hs₂,-⟩ := h₁.mergeNext ha haf₁ hb (by rw [hsz₁]) hbf₁
  have hne : a + p.size a ≠ a := by omega
  have hc₂ := h₁.confined_absorb ((h₁.full _ hb hbf₁).resolve_right hne) ha hb (by rw [hsz₁]) haf₁ hbf₁
  rw [hsz₁, hszb₁] at hs₂
  set p₂ := osMemMergeNode (osMemFreeNodeDelete p₁ (a + p.size a)) (a + p.size a)
  have ha₂ : a ∈ N \ {a + p.size a} := ⟨ha,by simp only [Set.mem_singleton_iff]; omega⟩
  have haf₂ : p₂.sizeAndFlag a < 2^31 := by omega
  have h₂' : Inv p₂ E (N \ {a + p.size a}) (F \ {a + p.size a}) {a} ∅ L₂ :=
    h₂.weaken subset_rfl h₂.apart fun c hc => hc.1
  obtain ⟨N₃,F₃,L₃,h₃,ha₃,-⟩ := h₂'.trim ha₂ haf₂ hk hk4 rfl
  have hc₃ := h₂'.confined_trim ha₂ haf₂ hk hk4
  exact (((hc₁.trans hc₂).trans hc₃).trans (h₃.confined_setWord (b := a + 8) ha₃ (by omega) (by omega))).trans
    (confined_record _ _ [] _).2

/-- Copying words into the payload of a node. -/
private theorem confined_copyWords (h : Inv p E N F D U L) (ha : a ∈ N) (src : Nat) (hn : 12 + 4*n ≤ p.size a) :
    Confined p { p with mem := Tlsf.copyWords p.mem (a + 12) src n } E := by
  refine ⟨rfl,rfl,fun y hy => copyWords_of_ne fun i hi => ?_⟩
  have := h.beyond_node ha hy
  omega

private theorem confined_osMemRealloc (h : Inv p E N F ∅ ∅ L) (ha : a ∈ N) (hu : 2^31 ≤ p.sizeAndFlag a) {size : Nat} (h8 : 8 ≤ size)
    (hs : size < 2^30) {lf : Nat → Bool}
    (hlf : Moves p a (allocSizeOf size) ∧ ¬NoRoom p (allocSizeOf size) → ∀ y ∈ E ++ (grownArea p (allocSizeOf size)).toList,
      handedBack (copied p (a + 12) a size) a = some y.node → lf y.node = true)
    (hx : Moves p a (allocSizeOf size) → ∀ x, grownArea p (allocSizeOf size) = some x → x.Fresh p E)
    (hfit : Moves p a (allocSizeOf size) → 2^29 ≤ allocSizeOf size → ∀ c ∈ F, hugeBound (allocSizeOf size) ≤ p.size c →
      p.size a ≤ p.size c) (hE : ∀ y ∈ E, y ∈ E')
    (hE' : Moves p a (allocSizeOf size) → ∀ y ∈ (grownArea p (allocSizeOf size)).toList, y ∈ E') :
    Confined p (Tlsf.osMemRealloc lf p (a + 12) a size).1 E' := by
  have hk : 20 ≤ allocSizeOf size ∧ allocSizeOf size%4 = 0 ∧ allocSizeOf size < 2^31 := by
    rw [allocSizeOf]
    omega
  have hsize : getSize (p.sizeAndFlag a) = p.size a := Tlsf.getSize_eq _
  have hba := h.inside ha
  have hmoves : Moves p a (allocSizeOf size) ↔ ¬allocSizeOf size ≤ p.size a ∧
      ¬(getUsedFlag (p.sizeAndFlag (a + p.size a)) = 0 ∧
        allocSizeOf size ≤ Word.add (p.sizeAndFlag (a + p.size a)) (p.size a)) := by
    rw [Moves, hsize, h.nextNode_eq ha]
  simp only [Tlsf.osMemRealloc, allocSize_eq (show size < 2^31 by omega), hsize, h.nextNode_eq ha]
  by_cases hle : allocSizeOf size ≤ p.size a
  · rw [if_pos hle]
    exact (h.confined_reAllocSmaller ha hu hk.1 hk.2.1 hle).mono hE
  rw [if_neg hle]
  by_cases hc : getUsedFlag (p.sizeAndFlag (a + p.size a)) = 0 ∧
      allocSizeOf size ≤ Word.add (p.sizeAndFlag (a + p.size a)) (p.size a)
  · rw [if_pos hc]
    have hb : a + p.size a ∈ N := by
      rcases h.nodes.tiling.next a ha with ⟨e,hm,hend⟩ | hm
      · exact absurd hc.1 (hend ▸ h.used_end hm)
      · exact hm
    have hbf := (h.used_zero_iff hb).mp hc.1
    have hlb := h.size_lt hb
    have hsum := hc.2
    rw [h.free_eq hb hbf, Word.add_eq (by omega)] at hsum
    exact (h.confined_mergeNodeForReAllocBigger ha hu hk.1 hk.2.1 hb hbf (by omega)).mono hE
  rw [if_neg hc]
  have hmv := hmoves.mpr ⟨hle,hc⟩
  have hsub : ∀ y ∈ E ++ (grownArea p (allocSizeOf size)).toList, y ∈ E' := fun y hy =>
    (List.mem_append.mp hy).elim (hE y) (hE' hmv y)
  have hcalloc := h.confined_osMemAlloc h8 hs (hx hmv)
  rcases halloc : Tlsf.osMemAlloc p size with ⟨p₁,tmp⟩
  rw [halloc] at hcalloc
  dsimp only
  rcases h.osMemAlloc h8 hs (hx hmv) halloc with ⟨hn,rfl,-⟩ | ⟨hn,c,N₁,F₁,L₁,rfl,hA⟩
  · rw [if_pos rfl]
    exact hcalloc.mono hsub
  · rw [if_neg (by omega)]
    obtain ⟨hok,hC⟩ := h.copyNode ha hu (by omega) (hfit hmv) halloc hA
    have hcount : Word.sub (p.size a) OS_MEM_NODE_HEAD_SIZE = p.size a - 12 :=
      Word.sub_eq (by simp only [OS_MEM_NODE_HEAD_SIZE]; omega)
    have hcopied : copied p (a + 12) a size = (memcpyS p₁ (c + 12) size (a + 12) (p.size a - 12)).1 := by
      simp only [copied, halloc, hsize, hcount]
    have hpool : (memcpyS p₁ (c + 12) size (a + 12) (p.size a - 12)).1 =
        { p₁ with mem := Tlsf.copyWords p₁.mem (c + 12) (a + 12) ((p.size a - 12)/4) } := by
      rw [memcpyS] at hok ⊢
      split at hok
      · cases hok
      · rename_i hno
        rw [if_neg hno]
    have hfits := hC.fits
    have hsz : (copied p (a + 12) a size).size c = p₁.size c := by
      rw [hcopied, hpool]
      exact congrArg (· % 2^29) (copyWords_of_ne fun i _ => by omega)
    have hcopy := hA.inv.confined_copyWords (n := (p.size a - 12)/4) hA.mem (a + 12) (by omega)
    rw [← hpool, ← hcopied] at hcopy
    have hfree := hC.inv.confined_osMemFree hC.old (by rw [hC.kept]; exact hu) (hlf ⟨hmv,hn⟩)
    rw [hcount, if_pos hok, ← hcopied]
    exact ((hcalloc.trans hcopy).trans hfree).mono hsub

/-- An alignment gap is written in the node's own head and payload. -/
private theorem confined_losMemAllocAlign (h : Inv p E N F ∅ ∅ L) {size boundary : Nat} (hsz : size < 2^32) (hbd : boundary < 2^32)
    (hx : ∀ x, (Call.allocAlign size boundary).grown p = some x → x.Fresh p E)
    (hfit : ∀ r, (Call.allocAlign size boundary).asks p = some r → r < 2^29 ∨ ∀ a ∈ F, p.size a < hugeBound r) :
    Confined p (Tlsf.losMemAllocAlign p size boundary).1 (E ++ ((Call.allocAlign size boundary).grown p).toList) := by
  rcases hs : alignUse size boundary with _ | s
  · rw [losMemAllocAlign_eq, hs]
    exact .refl p _
  have hn : (Call.allocAlign size boundary).grown p = grownArea p (allocSizeOf s) := by
    simp only [Call.grown, Call.asks, hs]
    rfl
  have hask : (Call.allocAlign size boundary).asks p = some (allocSizeOf s) := by
    simp only [Call.asks, hs]
    rfl
  rw [hn] at hx ⊢
  obtain ⟨h30,hsm,i,hi2,-,rfl⟩ := alignUse_spec hsz hbd hs
  have hm := minSize_bounds hsz
  have hp4 : 2^2 ≤ 2^i := Nat.pow_le_pow_right (by norm_num) hi2
  have hcalloc := h.confined_osMemAlloc (by omega) h30 hx
  have hfit' : 2^i ≠ 2^29 ∨ ∀ c ∈ F, p.size c < hugeBound (allocSizeOf s) := by
    rcases hfit _ hask with h1 | h1
    · refine .inl ?_
      rw [allocSizeOf] at h1
      omega
    · exact .inr h1
  rcases halloc : Tlsf.osMemAlloc p s with ⟨p₁,ptr⟩
  rcases he : Tlsf.losMemAllocAlign p size (2^i) with ⟨q,r⟩
  have hspec := h.losMemAllocAlign hsz hbd hs hx hfit' he
  rw [losMemAllocAlign_eq, hs] at he
  dsimp only at he
  rw [halloc] at he hcalloc
  rw [alignPtr] at he
  dsimp only at he
  split at he
  case isTrue =>
    obtain ⟨rfl,rfl⟩ := Prod.mk.inj he
    exact hcalloc
  case isFalse =>
  rcases hspec with ⟨-,-,pages,rfl⟩ | ⟨hroom,b,N',F',L',-,-,hg⟩
  · exact (confined_record p _ pages 0).1
  rcases h.osMemAlloc (by omega) h30 hx halloc with ⟨hno,-⟩ | ⟨-,c,N₁,F₁,L₁,rfl,hA⟩
  · exact absurd hno hroom
  have hb := hg.inv.inside hg.mem
  have hr : b + 12 ≤ r ∧ r ≤ b + q.size b := by
    rcases hg.owns with ⟨h1,-⟩ | ⟨g,h1,h2,h3,h4,-⟩ <;> omega
  obtain ⟨rfl,rfl⟩ := Prod.mk.inj he
  refine hcalloc.trans ⟨rfl,rfl,fun y hy => ?_⟩
  have h1 := hA.inv.beyond_node hA.mem hy
  have h2 := hg.inv.beyond_node hg.mem (show Beyond _ _ y from hy)
  have hnode : Word.sub (c + 12) OS_MEM_NODE_HEAD_SIZE = c := by
    rw [OS_MEM_NODE_HEAD_SIZE, Word.sub_eq (by omega)]
    omega
  have hgap : Word.sub (osMemAlign (c + 12) (2^i)) 4 = osMemAlign (c + 12) (2^i) - 4 := Word.sub_eq (by omega)
  rw [MemPool.mem_setWord, hgap, if_neg (by omega), MemPool.setSizeAndFlag, MemPool.mem_setWord, hnode, if_neg (by omega)]

end Inv

/-- Every call of the heap writes only in the pool and its areas, the one it obtains included. -/
theorem Sound.confined (hS : Sound h N F L own) {c : Call} (hl : h.Legal c)
    (hx : ∀ x, c.grown h.pool = some x → x.Fresh h.pool h.areas)
    (hfit : ∀ r, c.asks h.pool = some r → r < 2^29 ∨ ∀ a ∈ F, h.pool.size a < hugeBound r) (hback : h.Returnable h.pool c) :
    Confined h.pool (h.call h.pool c).pool (h.areas ++ (c.grown h.pool).toList) := by
  have hsub : ∀ x ∈ h.areas, x ∈ h.areas ++ (c.grown h.pool).toList := fun x hx => List.mem_append_left _ hx
  cases c with
  | alloc size => exact hS.held.inv.confined_losMemAlloc hl hx
  | allocAlign size boundary => exact hS.held.inv.confined_losMemAllocAlign hl.1 hl.2 hx hfit
  | realloc ptr size =>
    obtain ⟨rfl | ⟨b,hb,rfl⟩,hsz⟩ := hl
    · have hpool : (h.call h.pool (.realloc 0 size)).pool =
          (losMemRealloc (h.largeNodeFree h.pool (.realloc 0 size)) h.pool 0 size).1 := rfl
      rw [hpool, losMemRealloc_null]
      rcases hs : reallocUse size with _ | s
      · exact .refl _ _
      · have hn : (Call.realloc 0 size).grown h.pool = (Call.alloc s).grown h.pool := by
          simp only [Call.grown, Call.asks, hs, if_true, Option.bind_some]
        rw [hn] at hx ⊢
        have hlt := (reallocUse_spec hsz hs).2.1
        exact hS.held.inv.confined_losMemAlloc (by omega) hx
    · obtain ⟨ha,ho⟩ := hS.held.owns b.ptr (ptr_mem hb)
      have hpool : (h.call h.pool (.realloc b.ptr size)).pool =
          (losMemRealloc (h.largeNodeFree h.pool (.realloc b.ptr size)) h.pool b.ptr size).1 := rfl
      rw [hpool, losMemRealloc_eq hS.held.inv ha ho hsz]
      rcases hs : reallocUse size with _ | s
      · exact .refl _ _
      obtain ⟨h8,h30,hle⟩ := reallocUse_spec hsz hs
      have hask : Moves h.pool (own b.ptr) (allocSizeOf s) →
          ((reallocUse size).map allocSizeOf).filter (fun k => decide (Moves h.pool (own b.ptr) k)) = some (allocSizeOf s) := by
        intro hm
        simp [hs, hm]
      rw [Call.grown, hS.asks_realloc (ptr_mem hb)] at hx ⊢
      rw [hS.asks_realloc (ptr_mem hb)] at hfit
      refine hS.held.inv.confined_osMemRealloc ha ho.used h8 h30 (fun hm y hy hb' => ?_) (fun hm x hx' => hx x (by rw [hask hm]; exact hx'))
        (fun hm h29 c hc hle => ?_) (fun y hy => List.mem_append_left _ hy)
        fun hm y hy => List.mem_append_right _ (by rw [hask hm]; exact hy)
      · have hy' : y ∈ h.areas ++ ((Call.realloc b.ptr size).grown h.pool).toList := by
          rw [Call.grown, hS.asks_realloc (ptr_mem hb), hask hm.1]
          exact hy
        exact h.largeNodeFree_owned _ hy' (hback y hy' ((hS.returned_realloc (ptr_mem hb) hs hm).trans hb'))
      · rcases hfit _ (hask hm) with hlt | hno
        · omega
        · have := hno c hc
          omega
  | free ptr =>
    obtain ⟨b,hb,rfl⟩ := hl
    obtain ⟨ha,ho⟩ := hS.held.owns b.ptr (ptr_mem hb)
    have hpool : (h.call h.pool (.free b.ptr)).pool =
        (losMemFree (h.largeNodeFree h.pool (.free b.ptr)) h.pool b.ptr).1 := rfl
    rw [hpool, losMemFree_eq hS.held.inv ha ho]
    have hrel : (Call.free b.ptr).returned h.pool = handedBack h.pool (own b.ptr) := by
      rw [← (hS.blockNode_eq (ptr_mem hb)).2]
      rfl
    exact (hS.held.inv.confined_osMemFree ha ho.used fun x hx hb' =>
      h.largeNodeFree_owned (.free b.ptr) (hsub x hx) (hback x (hsub x hx) (hrel.trans hb'))).mono hsub
  | store ptr addr value =>
    obtain ⟨⟨b,hb,rfl,h1,h2⟩,-⟩ := hl
    obtain ⟨ha,ho⟩ := hS.held.owns b.ptr (ptr_mem hb)
    have hroom := hS.room b hb
    have hle := ho.le
    exact (hS.held.inv.confined_setWord ha (by omega) (by omega)).mono hsub

end LiteOsKernel.Mem.Tlsf
