import LiteOsKernel.Mem.TlsfAlloc

/-! Release: the checks a used node passes, merging with the free neighbours, and giving back
an area that is free as a whole. -/
namespace LiteOsKernel.Mem.Tlsf
open LiteOsKernel Links Lib

variable {p p' q : MemPool} {E E₁ E₂ : List Area} {N N' F F' D U : Set Nat} {L L' : Nat → List Nat} {a b n r : Nat}
  {x : Area}

namespace Inv

theorem nextNode_eq (h : Inv p E N F D U L) (ha : a ∈ N) : osMemNextNode p a = a + p.size a := by
  have h1 := h.inside ha
  rw [osMemNextNode, Tlsf.getSize_eq]
  exact Word.add_eq (by simp only [MemPool.size] at h1; omega)

-- Checks

theorem addrValid (h : Inv p E N F D U L) {e : Extent} (he : e ∈ extents p E) {addr : Nat} (hl : e.first ≤ addr)
    (hr : addr < e.last + 12) : osMemAddrValidCheck p addr = true := by
  rw [h.addrValid_iff]
  have hge := h.fixed.total_ge
  simp only [sizeofPoolHead] at hge
  rcases mem_extents.mp he with rfl | ⟨x,hx,rfl⟩
  · simp only [endAddr] at hl hr
    exact .inr (.inl ⟨hl,by omega⟩)
  · have h1 := h.fixed.areas x hx
    have h2 := h1.size_pos
    have h3 := h1.size_mod
    simp only [Area.extent, Area.sentinel] at hl hr
    exact .inr (.inr ⟨x,hx,hl,by omega⟩)

private theorem back_valid (h : Inv p E N F D U L) {e : Extent} (he : e ∈ extents p E) :
    osMemAddrValidCheck p e.back = true := by
  rcases mem_extents.mp he with rfl | ⟨x,hx,rfl⟩
  · rfl
  · have h1 := h.nodes.tiling.room _ he
    exact h.addrValid he (by simp only [Area.extent] at *; omega) (by simp only [Area.extent] at *; omega)

private theorem ptr_valid (h : Inv p E N F D U L) (ha : a ∈ N) : osMemAddrValidCheck p (p.ptr a) = true := by
  by_cases hf : ∀ e ∈ extents p E, a ≠ e.first
  · have hp := (h.nodes.tiling.prev_spec ha hf).1
    obtain ⟨e,he,h1,h2⟩ := h.nodes.tiling.home _ hp
    exact h.addrValid he h1 (by omega)
  · simp only [ne_eq, not_forall, not_not] at hf
    obtain ⟨e,he,rfl⟩ := hf
    rw [h.nodes.tiling.prev_first e he]
    exact h.back_valid he

private theorem nodeValid (h : Inv p E N F D ∅ L) (ha : a ∈ N) {s t : Nat} (hl : s ≤ a) (hr : a ≤ t) :
    osMemIsNodeValid p a s t = true := by
  rw [osMemIsNodeValid, if_neg (by omega)]
  split
  · rw [MemPool.magic, h.magic a ha (Set.notMem_empty a), beq_self_eq_true]
  · exact h.ptr_valid ha

private theorem endValid (h : Inv p E N F D U L) {e : Extent} (he : e ∈ extents p E) :
    osMemIsNodeValid p e.last e.first e.last = true := by
  have h1 := h.nodes.tiling.room e he
  rw [osMemIsNodeValid, if_neg (by omega), if_pos (h.used_end he), (h.sentinel_flags he).1, beq_self_eq_true]

private theorem checkUsedNode_extent (h : Inv p E N F D ∅ L) (ha : a ∈ N) (hu : 2^31 ≤ p.sizeAndFlag a) {e : Extent}
    (he : e ∈ extents p E) (hl : e.first ≤ a) (hr : a + p.size a ≤ e.last) : memCheckUsedNode p a e.first e.last = true := by
  have hba := h.inside ha
  have hused : getUsedFlag (p.sizeAndFlag a) ≠ 0 := by
    rw [ne_eq, h.used_zero_iff ha]
    omega
  -- a node of the interval and the sentinel lie in it
  have hnode : ∀ b ∈ N, e.first ≤ b → b ≤ e.last → osMemIsNodeValid p b e.first e.last = true :=
    fun b hb h1 h2 => h.nodeValid hb h1 h2
  have hnext : osMemIsNodeValid p (a + p.size a) e.first e.last = true := by
    by_cases hend : a + p.size a = e.last
    · rw [hend]
      exact h.endValid he
    · rcases h.nodes.tiling.next a ha with ⟨d,hd,h1⟩ | hm
      · have h2 := h.nodes.tiling.room d hd
        have hde : d ≠ e := fun hde => hend (hde ▸ h1)
        rcases h.nodes.tiling.extents d hd e he hde with h3 | h3 <;> omega
      · exact hnode _ hm (by omega) hr
  have hback : ¬(getLastFlag (p.sizeAndFlag (a + p.size a)) = 0 ∧ p.ptr (a + p.size a) ≠ a) := by
    rintro ⟨hlast,hp⟩
    rcases h.nodes.tiling.next a ha with ⟨d,hd,h1⟩ | hm
    · exact h.last_end hd (h1 ▸ hlast)
    · exact hp (h.nodes.tiling.prev_next a ha hm)
  have hprev : ¬(a ≠ e.first ∧ (!osMemIsNodeValid p (p.ptr a) e.first e.last ∨ osMemNextNode p (p.ptr a) ≠ a)) := by
    rintro ⟨hf,hor⟩
    have hfirst : ∀ d ∈ extents p E, a ≠ d.first := by
      rintro d hd rfl
      have h1 := h.nodes.tiling.room d hd
      have hde : d ≠ e := fun hde => hf (hde ▸ rfl)
      rcases h.nodes.tiling.extents d hd e he hde with h3 | h3 <;> omega
    obtain ⟨h1,h2⟩ := h.nodes.tiling.prev_spec ha hfirst
    have h3 := h.inside h1
    have h4 : e.first ≤ p.ptr a := by rcases h.nodes.tiling.clear h1 he with h4 | h4 | h4 <;> omega
    rw [hnode _ h1 h4 (by omega), h.nextNode_eq h1, h2] at hor
    simp at hor
  simp only [memCheckUsedNode, hnode a ha hl (by omega), hused, h.nextNode_eq ha, hnext, hback, hprev, Bool.not_true,
    if_false, Bool.false_eq_true]

/-- Every used node passes the checks of OsMemCheckUsedNode. -/
theorem checkUsedNode (h : Inv p E N F D ∅ L) (ha : a ∈ N) (hu : 2^31 ≤ p.sizeAndFlag a) :
    osMemCheckUsedNode p a = LOS_OK := by
  obtain ⟨e,he,h1,h2⟩ := h.nodes.tiling.home a ha
  have hcheck := h.checkUsedNode_extent ha hu he h1 h2
  rw [osMemCheckUsedNode, h.endNode_eq]
  apply h.fixed.chain.checkUsedFrom_ok chainFuel _ h.fixed.areas h.length_lt
  rcases mem_extents.mp he with rfl | ⟨x,hx,rfl⟩
  · exact .inl hcheck
  · exact .inr ⟨x,hx,hcheck⟩

-- Merging

/-- The back merge of OsMemFree: the node that ends up free, and no linked node before it. -/
theorem mergePrev (h : Inv p E N F {a} ∅ L) (ha : a ∈ N) (haf : p.sizeAndFlag a < 2^31)
    (hq : (q, n) = if p.ptr a ≠ 0 ∧ getUsedFlag (p.sizeAndFlag (p.ptr a)) = 0 then
      (osMemMergeNode (osMemFreeNodeDelete p (p.ptr a)) a, p.ptr a) else (p, a)) :
    ∃ N' F' L', Inv q E N' F' {n} ∅ L' ∧ n ∈ N' ∧ q.sizeAndFlag n < 2^31 ∧ (∀ b ∈ F', b + q.size b ≠ n) ∧
      (n ≤ a ∧ a < n + q.size n) ∧ UsedKept p N q N' ∅ ∧ SameHead p q := by
  have haF : a ∉ F := h.apart a rfl
  have hba' := h.inside ha
  split at hq
  case isTrue hc =>
    obtain ⟨rfl,rfl⟩ := Prod.mk.inj hq
    have hfirst : ∀ e ∈ extents p E, a ≠ e.first := by
      rintro e he rfl
      rw [h.nodes.tiling.prev_first e he] at hc
      rcases mem_extents.mp he with rfl | ⟨x,-,rfl⟩
      · exact hc.1 rfl
      · exact h.used_end he hc.2
    obtain ⟨hb,hba⟩ := h.nodes.tiling.prev_spec ha hfirst
    set b := p.ptr a
    have hbf : p.sizeAndFlag b < 2^31 := (h.used_zero_iff hb).mp hc.2
    have hne : b ≠ a := by
      have := h.inside hb
      omega
    have hbF : b ∈ F := (h.full b hb hbf).resolve_right hne
    obtain ⟨L₁,h₁,hk₁,hu₁⟩ := h.freeNodeDelete hbF
    have hsb : (osMemFreeNodeDelete p b).size b = p.size b := by
      rw [MemPool.size, hk₁.sizeAndFlag b hb, MemPool.size]
    have hsa : (osMemFreeNodeDelete p b).size a = p.size a := by
      rw [MemPool.size, hk₁.sizeAndFlag a ha, MemPool.size]
    obtain ⟨h₂,hs₂,hf₂,-,hu₂⟩ := h₁.mergeNode hb ha (by rw [hsb, hba]) (by rw [hk₁.sizeAndFlag b hb]; exact hbf)
      (by rw [hk₁.sizeAndFlag a ha]; exact haf) (fun hm => hm.2 rfl) (fun hm => haF hm.1)
    rw [hsb, hsa] at hs₂
    have hlt := h.add_size_lt hb ha hba
    have hhead := (sameHead_freeNodeDelete p b).trans (sameHead_mergeNode (osMemFreeNodeDelete p b) a)
    refine ⟨_,_,L₁,h₂.weaken ?_ ?_ ?_,⟨hb,hne⟩,by rw [hs₂]; omega,?_,?_,hu₁.trans hu₂,hhead⟩
    · rintro c ⟨rfl | hc,hca⟩
      · rfl
      · exact absurd hc hca
    · rintro c rfl hm
      exact hm.2 rfl
    · rintro c ⟨hc,-⟩
      exact absurd hc (Set.notMem_empty c)
    · rintro c ⟨hcF,hcb⟩ he
      have hcN := (h.sub c hcF).1
      rw [MemPool.size, hf₂ c hcN hcb, hk₁.sizeAndFlag c hcN] at he
      exact h.coalesced c hcF (he ▸ hbF)
    · rw [MemPool.size, hs₂, Nat.mod_eq_of_lt hlt]
      omega
  case isFalse hc =>
    obtain ⟨rfl,rfl⟩ := Prod.mk.inj hq
    refine ⟨N,F,L,h,ha,haf,?_,⟨le_rfl,by omega⟩,UsedKept.refl,SameHead.refl _⟩
    intro b hb he
    obtain ⟨hbN,hbf⟩ := h.sub b hb
    have hptr : q.ptr n = b := by
      rw [← he]
      exact h.nodes.tiling.prev_next b hbN (he ▸ ha)
    have hb0 := h.inside hbN
    exact hc ⟨by omega,by rw [hptr]; exact (h.used_zero_iff hbN).mpr hbf⟩

end Inv

/-- The pool of OsMemFree before it tries to shrink, and the merged node in no list. -/
def freeMerged (p : MemPool) (node : Nat) : MemPool × Nat :=
  let p := { p with curUsedSize := Word.sub p.curUsedSize (getSize (p.sizeAndFlag node)) }
  let p := p.setSizeAndFlag node (getSize (p.sizeAndFlag node))
  let preNode := p.ptr node
  let (p, node) :=
    if preNode ≠ 0 ∧ getUsedFlag (p.sizeAndFlag preNode) = 0 then
      (osMemMergeNode (osMemFreeNodeDelete p preNode) node, preNode)
    else (p, node)
  let nextNode := osMemNextNode p node
  if nextNode ≠ 0 ∧ getUsedFlag (p.sizeAndFlag nextNode) = 0 then
    (osMemMergeNode (osMemFreeNodeDelete p nextNode) nextNode, node)
  else (p, node)

theorem osMemFree_eq (lf : Nat → Bool) (p : MemPool) (node : Nat) (hc : osMemCheckUsedNode p node = LOS_OK) :
    osMemFree lf p node =
      let (q, n) := freeMerged p node
      let (q, shrunk) :=
        if q.attr &&& OS_MEM_POOL_EXPAND_ENABLE ≠ 0 ∧ q.ptr n ≠ 0 ∧ n < q.ptr n then tryShrinkPool lf q n else (q, false)
      if shrunk then (q, LOS_OK) else (osMemFreeNodeAdd q n, LOS_OK) := by
  simp only [osMemFree, hc, ne_eq, not_true_eq_false, if_false, freeMerged]
  split <;> split <;> rfl

/-- Between the merges of OsMemFree and its end: the node n holds the block of the node a, is in no list,
and has no free neighbour. -/
structure Merged (p q : MemPool) (E : List Area) (N N' F' : Set Nat) (L' : Nat → List Nat) (a n : Nat) : Prop where
  inv : Inv q E N' F' {n} ∅ L'
  mem : n ∈ N'
  free : q.sizeAndFlag n < 2^31
  pred : ∀ b ∈ F', b + q.size b ≠ n
  succ : n + q.size n ∉ F'
  covers : n ≤ a ∧ a < n + q.size n
  used : UsedKept p N q N' {a}
  gone : a ∈ N' → q.sizeAndFlag a < 2^31
  pool : q.pool = p.pool
  totalSize : q.totalSize = p.totalSize
  attr : q.attr = p.attr
  waterLine : q.waterLine = p.waterLine
  curUsedSize : q.curUsedSize = Word.sub p.curUsedSize (p.size a)

namespace Inv

theorem freeMerged (h : Inv p E N F ∅ ∅ L) (ha : a ∈ N) (hu : 2^31 ≤ p.sizeAndFlag a)
    (hq : Tlsf.freeMerged p a = (q, n)) : ∃ N' F' L', Merged p q E N N' F' L' a n := by
  simp only [Tlsf.freeMerged, show getSize (p.sizeAndFlag a) = p.size a from Tlsf.getSize_eq _] at hq
  set p₀ : MemPool := { p with curUsedSize := Word.sub p.curUsedSize (p.size a) } with hp₀
  have h₀ : Inv p₀ E N F ∅ ∅ L := h.setUsage _ _
  have hsize : getSize (p₀.sizeAndFlag a) = p₀.size a := Tlsf.getSize_eq _
  have hf₀ : p₀.pool = p.pool ∧ p₀.totalSize = p.totalSize ∧ p₀.attr = p.attr ∧ p₀.waterLine = p.waterLine ∧
    p₀.curUsedSize = Word.sub p.curUsedSize (p.size a) := ⟨rfl,rfl,rfl,rfl,rfl⟩
  have hu₀ : UsedKept p N p₀ N {a} := UsedKept.refl.congr_mem rfl
  have hu₀' : 2^31 ≤ p₀.sizeAndFlag a := hu
  rw [hsize] at hq
  clear_value p₀
  obtain ⟨h₁,hs₁,hu₁⟩ := h₀.clearFlags ha hu₀'
  have hh₁ := sameHead_setWord p₀ (a + 8) (p₀.size a)
  rw [← MemPool.setSizeAndFlag] at hh₁
  set p₁ := p₀.setSizeAndFlag a (p₀.size a)
  have haf₁ : p₁.sizeAndFlag a < 2^31 := by
    have := h₀.size_lt ha
    omega
  rcases hpair : (if p₁.ptr a ≠ 0 ∧ getUsedFlag (p₁.sizeAndFlag (p₁.ptr a)) = 0 then
    (osMemMergeNode (osMemFreeNodeDelete p₁ (p₁.ptr a)) a, p₁.ptr a) else (p₁, a)) with ⟨p₂,m⟩
  obtain ⟨N₂,F₂,L₂,h₂,hn₂,hnf₂,hpred₂,hcov₂,hu₂,hh₂⟩ := h₁.mergePrev ha haf₁ hpair.symm
  simp only [hpair] at hq
  have hnx := h₂.nextNode_eq hn₂
  have hbn := h₂.inside hn₂
  have hkeep : UsedKept p N p₂ N₂ {a} := (hu₀.trans hu₁).trans (hu₂.mono (Set.empty_subset _))
  have hh := hh₁.trans hh₂
  have hgone : a ∈ N₂ → p₂.sizeAndFlag a < 2^31 := by
    intro haN
    by_contra hge
    have := (hu₂.only a haN (Set.notMem_empty a) (Nat.le_of_not_lt hge)).2
    omega
  rw [hnx] at hq
  split at hq
  case isTrue hfree =>
    have hm : m + p₂.size m ∈ N₂ := by
      rcases h₂.nodes.tiling.next m hn₂ with ⟨e,he,h1⟩ | hm
      · exact absurd hfree.2 (h1 ▸ h₂.used_end he)
      · exact hm
    have hmf : p₂.sizeAndFlag (m + p₂.size m) < 2^31 := (h₂.used_zero_iff hm).mp hfree.2
    obtain ⟨L₃,h₃,hs₃,hf₃,hnn,hu₃,-⟩ := h₂.mergeNext hn₂ hnf₂ hm rfl hmf
    have hh₃ := hh.trans ((sameHead_freeNodeDelete p₂ (m + p₂.size m)).trans
      (sameHead_mergeNode (osMemFreeNodeDelete p₂ (m + p₂.size m)) (m + p₂.size m)))
    obtain ⟨rfl,rfl⟩ := Prod.mk.inj hq
    set q := osMemMergeNode (osMemFreeNodeDelete p₂ (m + p₂.size m)) (m + p₂.size m)
    have hbm := h₂.inside hm
    have hlt := h₂.add_size_lt hn₂ hm rfl
    have hsz : q.size m = p₂.size m + p₂.size (m + p₂.size m) := by
      rw [MemPool.size, hs₃, Nat.mod_eq_of_lt hlt]
    refine ⟨_,_,L₃,h₃.weaken subset_rfl h₃.apart (fun c hc => hc.1),⟨hn₂,by simp only [Set.mem_singleton_iff]; omega⟩,
      by rw [hs₃]; omega,?_,?_,?_,hkeep.trans (hu₃.mono (Set.empty_subset _)),?_,hh₃.pool.trans hf₀.1,
      hh₃.totalSize.trans hf₀.2.1,hh₃.attr.trans hf₀.2.2.1,hh₃.waterLine.trans hf₀.2.2.2.1,
      hh₃.curUsedSize.trans hf₀.2.2.2.2⟩
    · rintro b ⟨hb,-⟩ he
      have hbN := (h₂.sub b hb).1
      rw [MemPool.size, hf₃ b hbN (fun hc => h₂.apart m rfl (hc ▸ hb))] at he
      exact hpred₂ b hb he
    · rw [hsz, ← Nat.add_assoc]
      exact fun hx => hnn hx.1
    · rw [hsz]
      omega
    · intro haN
      by_contra hge
      obtain ⟨h5,h6⟩ := hu₃.only a haN (Set.notMem_empty a) (Nat.le_of_not_lt hge)
      have := hgone h5
      omega
  case isFalse hfree =>
    obtain ⟨rfl,rfl⟩ := Prod.mk.inj hq
    have hnF : m + p₂.size m ∉ F₂ := by
      intro hm
      obtain ⟨hmN,hmf⟩ := h₂.sub _ hm
      exact hfree ⟨by omega,(h₂.used_zero_iff hmN).mpr hmf⟩
    exact ⟨N₂,F₂,L₂,h₂,hn₂,hnf₂,hpred₂,hnF,hcov₂,hkeep,hgone,hh.pool.trans hf₀.1,hh.totalSize.trans hf₀.2.1,
      hh.attr.trans hf₀.2.2.1,hh.waterLine.trans hf₀.2.2.2.1,hh.curUsedSize.trans hf₀.2.2.2.2⟩

end Inv

-- Shrinking

/-- The node that OsMemFree hands to OsMemLargeNodeFree, if any. -/
def handedBack (p : MemPool) (node : Nat) : Option Nat :=
  let (q, n) := freeMerged p node
  if (q.attr &&& OS_MEM_POOL_EXPAND_ENABLE ≠ 0 ∧ q.ptr n ≠ 0 ∧ n < q.ptr n) ∧
      getSize (q.sizeAndFlag n) = Word.sub (q.ptr n) n ∧ preSentinelNodeGet q n ≠ 0 then some n else none

/-- The areas left when the node is given back. -/
def remaining (E : List Area) (node : Option Nat) : List Area := E.filter fun x => node ≠ some x.node

theorem remaining_none : remaining E none = E := List.filter_eq_self.mpr fun _ _ => by simp

namespace Inv

private theorem node_inj (h : Inv p E N F D U L) {y : Area} (hx : x ∈ E) (hy : y ∈ E) (he : x.node = y.node) : x = y := by
  by_contra hne
  have h1 := (h.fixed.areas x hx).size_pos
  have h2 := (h.fixed.areas y hy).size_pos
  rcases h.area_apart hx hy hne with h3 | h3 <;> omega

private theorem remaining_some (h : Inv p (E₁ ++ x :: E₂) N F D U L) : remaining (E₁ ++ x :: E₂) (some x.node) = E₁ ++ E₂ := by
  have hx : x ∈ E₁ ++ x :: E₂ := by simp
  have hnd := (List.nodup_cons.mp (List.nodup_middle.mp h.fixed.nodup)).1
  have hne : ∀ y ∈ E₁ ++ E₂, decide (some x.node ≠ some y.node) = true := by
    intro y hy
    rw [decide_eq_true_eq]
    intro he
    have hyE : y ∈ E₁ ++ x :: E₂ := by
      simp only [List.mem_append, List.mem_cons] at hy ⊢
      tauto
    exact hnd (h.node_inj hx hyE (Option.some.inj he) ▸ hy)
  rw [remaining, List.filter_append, List.filter_cons_of_neg (by simp), ← List.filter_append]
  exact List.filter_eq_self.mpr hne

/-- A node whose back pointer leads forward is the first of an area. -/
theorem forward_iff (h : Inv p E N F D U L) (hn : n ∈ N) :
    (p.ptr n ≠ 0 ∧ n < p.ptr n) ↔ ∃ x ∈ E, x.node = n := by
  constructor
  · rintro ⟨h0,hlt⟩
    by_contra hno
    by_cases hf : ∀ e ∈ extents p E, n ≠ e.first
    · obtain ⟨h1,h2⟩ := h.nodes.tiling.prev_spec hn hf
      have := h.inside h1
      omega
    · simp only [ne_eq, not_forall, not_not] at hf
      obtain ⟨e,he,rfl⟩ := hf
      rcases mem_extents.mp he with rfl | ⟨x,hx,rfl⟩
      · exact h0 (h.nodes.tiling.prev_first _ he)
      · exact hno ⟨x,hx,rfl⟩
  · rintro ⟨x,hx,rfl⟩
    have h1 := h.nodes.tiling.prev_first _ (area_mem_extents hx)
    have h2 := h.nodes.tiling.room _ (area_mem_extents hx)
    simp only [Area.extent] at h1 h2
    rw [MemPool.ptr] at h1 ⊢
    omega

end Inv

/-- A pool q in which p has released the node a, with the areas E' left. -/
structure Freed (p q : MemPool) (E' : List Area) (N N' F' : Set Nat) (L' : Nat → List Nat) (a : Nat) : Prop where
  inv : Inv q E' N' F' ∅ ∅ L'
  used : UsedKept p N q N' {a}
  gone : a ∈ N' → q.sizeAndFlag a < 2^31
  attr : q.attr = p.attr
  waterLine : q.waterLine = p.waterLine
  curUsedSize : q.curUsedSize = Word.sub p.curUsedSize (p.size a)

namespace Merged

/-- Where the merged node is not given back it returns to the lists. -/
theorem freeNodeAdd (h : Merged p q E N N' F' L' a n) : ∃ F'' L'', Freed p (osMemFreeNodeAdd q n) E N N' F'' L'' a := by
  obtain ⟨L₄,h₄,hk₄,hu₄⟩ := h.inv.freeNodeAdd h.mem h.free (h.inv.apart n rfl) h.succ h.pred
  have hh := sameHead_freeNodeAdd q n
  refine ⟨insert n F',L₄,h₄.weaken ?_ ?_ ?_,h.used.trans (hu₄.mono (Set.empty_subset _)),?_,hh.attr.trans h.attr,
    hh.waterLine.trans h.waterLine,hh.curUsedSize.trans h.curUsedSize⟩
  · rintro c ⟨hc,hcn⟩
    exact absurd hc hcn
  · exact fun c hc => absurd hc (Set.notMem_empty c)
  · rintro c ⟨hc,-⟩
    exact hc
  · intro ha
    rw [hk₄.sizeAndFlag a ha]
    exact h.gone ha

/-- The node handed to OsMemLargeNodeFree holds a whole area. -/
theorem handedBack_iff (h : Merged p q E N N' F' L' a n) (hq : freeMerged p a = (q, n)) {m : Nat} :
    handedBack p a = some m ↔
      m = n ∧ p.attr &&& OS_MEM_POOL_EXPAND_ENABLE ≠ 0 ∧ ∃ x ∈ E, x.node = n ∧ q.size n = x.size - 12 := by
  have hwhole : ∀ x ∈ E, x.node = n →
      ((q.sizeAndFlag n % 2^29 = Word.sub (q.ptr n) n ∧ preSentinelNodeGet q n ≠ 0) ↔ q.size n = x.size - 12) := by
    rintro x hxE rfl
    obtain ⟨hn0,hn4,hs0,hs4,hlt,htop,-⟩ := h.inv.fixed.areas x hxE
    have hptr : q.ptr x.node = x.sentinel := h.inv.nodes.tiling.prev_first _ (area_mem_extents hxE)
    have hsen : x.sentinel = x.node + x.size - 12 := rfl
    obtain ⟨E₁,E₂,rfl⟩ := List.append_of_mem hxE
    obtain ⟨e,he,hpre,-⟩ := h.inv.chainEnd_extent_of_split
    have hb := h.inv.extent_bounds he
    have hroom := h.inv.nodes.tiling.room e he
    have hlast : e.last ≠ 0 := by omega
    have hsub : Word.sub x.sentinel x.node = x.size - 12 := by
      rw [Word.sub_eq (by omega)]
      omega
    rw [hptr, hsub, h.inv.preSentinel_eq, ← hpre, ← MemPool.size]
    exact ⟨fun hs => hs.1,fun hs => ⟨hs,hlast⟩⟩
  have hfw := h.inv.forward_iff h.mem
  simp only [handedBack, hq, h.attr, Tlsf.getSize_eq, Option.ite_none_right_eq_some, Option.some.injEq]
  constructor
  · rintro ⟨⟨⟨h1,h2⟩,h3⟩,rfl⟩
    obtain ⟨x,hxE,hx⟩ := hfw.mp h2
    exact ⟨rfl,h1,x,hxE,hx,(hwhole x hxE hx).mp h3⟩
  · rintro ⟨rfl,h1,x,hxE,hx,h3⟩
    exact ⟨⟨⟨h1,hfw.mpr ⟨x,hxE,hx⟩⟩,(hwhole x hxE hx).mpr h3⟩,rfl⟩

end Merged

/-- The area x is free as a whole: its first node fills it, is not used, and is in no free list. -/
structure Whole (p : MemPool) (x : Area) : Prop where
  size : getSize (p.sizeAndFlag x.node) = x.size - OS_MEM_NODE_HEAD_SIZE
  free : getUsedFlag (p.sizeAndFlag x.node) = 0
  unlisted : ¬Listed p x.node

namespace Inv

/-- The node that is handed back holds an area that is free as a whole. -/
theorem handedBack_whole (h : Inv p E N F ∅ ∅ L) (ha : a ∈ N) (hu : 2^31 ≤ p.sizeAndFlag a)
    (hb : handedBack p a = some n) : ∃ x ∈ E, x.node = n ∧ Whole (Tlsf.freeMerged p a).1 x := by
  rcases hq : Tlsf.freeMerged p a with ⟨q,m⟩
  obtain ⟨N₁,F₁,L₁,hm⟩ := h.freeMerged ha hu hq
  obtain ⟨rfl,-,x,hx,rfl,hsz⟩ := (hm.handedBack_iff hq).mp hb
  refine ⟨x,hx,rfl,?_,(hm.inv.used_zero_iff hm.mem).mpr hm.free,?_⟩
  · rw [Tlsf.getSize_eq, OS_MEM_NODE_HEAD_SIZE]
    exact hsz
  · rw [hm.inv.listed_iff]
    exact hm.inv.apart x.node rfl

/-- An area is handed back only where its last used node is released. -/
theorem handedBack_alone (h : Inv p E N F ∅ ∅ L) (ha : a ∈ N) (hu : 2^31 ≤ p.sizeAndFlag a)
    (hb : handedBack p a = some n) : ∃ x ∈ E, x.node ≤ a ∧ a < x.sentinel ∧
      ∀ d ∈ N, 2^31 ≤ p.sizeAndFlag d → x.node ≤ d → d < x.sentinel → d = a := by
  rcases hq : Tlsf.freeMerged p a with ⟨q,m⟩
  obtain ⟨N₁,F₁,L₁,hm⟩ := h.freeMerged ha hu hq
  obtain ⟨rfl,-,x,hx,rfl,hsz⟩ := (hm.handedBack_iff hq).mp hb
  have hcov := hm.covers
  have hroom := h.nodes.tiling.room _ (area_mem_extents hx)
  simp only [Area.extent] at hroom
  have hlast : x.node + q.size x.node = x.sentinel := by
    rw [hsz, Area.sentinel]
    have := (h.fixed.areas x hx).size_pos
    have := (h.fixed.areas x hx).size_mod
    omega
  refine ⟨x,hx,hcov.1,by omega,fun d hd hud hl hr => ?_⟩
  by_contra hne
  -- another used node is still there when the area is one free node
  obtain ⟨h1,h2,-⟩ := hm.used.keep d hd hne hud
  have hdx : d ≠ x.node := by
    rintro rfl
    have := hm.free
    omega
  rcases hm.inv.nodes.tiling.apart h1 hm.mem hdx with h3 | h3
  · have := hm.inv.inside h1
    omega
  · omega

/-- OsMemFree of a used node succeeds; only this node's block is given up, and with it an area that
holds nothing else. -/
theorem osMemFree (h : Inv p E N F ∅ ∅ L) (ha : a ∈ N) (hu : 2^31 ≤ p.sizeAndFlag a) {lf : Nat → Bool}
    (hlf : ∀ x ∈ E, handedBack p a = some x.node → lf x.node = true) : ∃ q N' F' L', Tlsf.osMemFree lf p a = (q, LOS_OK) ∧
      Freed p q (remaining E (handedBack p a)) N N' F' L' a := by
  rcases hq : Tlsf.freeMerged p a with ⟨q,n⟩
  obtain ⟨N₁,F₁,L₁,hm⟩ := h.freeMerged ha hu hq
  have hfw := hm.inv.forward_iff hm.mem
  simp only [osMemFree_eq lf p a (h.checkUsedNode ha hu), hq, hm.attr]
  obtain ⟨F₂,L₂,hadd⟩ := hm.freeNodeAdd
  have hkept : (¬∃ x ∈ E, p.attr &&& OS_MEM_POOL_EXPAND_ENABLE ≠ 0 ∧ x.node = n ∧ q.size n = x.size - 12) →
      remaining E (handedBack p a) = E := by
    intro hno
    have hnone : handedBack p a = none := by
      rw [Option.eq_none_iff_forall_ne_some]
      intro m hm'
      obtain ⟨-,h1,x,h2,h3,h4⟩ := (hm.handedBack_iff hq).mp hm'
      exact hno ⟨x,h2,h1,h3,h4⟩
    rw [hnone, remaining_none]
  -- the area is returned, or is still in use, or there is none
  by_cases hx : p.attr &&& OS_MEM_POOL_EXPAND_ENABLE ≠ 0 ∧ ∃ x ∈ E, x.node = n
  · rw [if_pos (show _ ∧ q.ptr n ≠ 0 ∧ n < q.ptr n from ⟨hx.1,hfw.mpr hx.2⟩)]
    obtain ⟨hattr,x,hxE,rfl⟩ := hx
    obtain ⟨E₁,E₂,rfl⟩ := List.append_of_mem hxE
    rw [hm.inv.tryShrinkPool_eq]
    by_cases hsz : q.size x.node = x.size - 12
    · have hback := (hm.handedBack_iff hq).mpr ⟨rfl,hattr,x,hxE,rfl,hsz⟩
      rw [if_pos hsz, hlf x hxE hback, hback, h.remaining_some]
      obtain ⟨h₂,hu₂,hh₂⟩ := hm.inv.unlinkArea hsz
      have hu₃ : UsedKept q N₁ (Tlsf.unlinkArea q (chainEnd (endAddr q) E₁) x) (N₁ \ {x.node}) ∅ := by
        constructor
        · intro b hb _ hub
          refine hu₂.keep b hb ?_ hub
          rintro rfl
          have := hm.free
          omega
        · intro b hb _ hub
          exact hu₂.only b hb hb.2 hub
      refine ⟨_,_,F₁,L₁,rfl,h₂,hm.used.trans (hu₃.mono (Set.empty_subset _)),?_,hh₂.attr.trans hm.attr,
        hh₂.waterLine.trans hm.waterLine,hh₂.curUsedSize.trans hm.curUsedSize⟩
      intro haN
      by_contra hge
      obtain ⟨h5,h6⟩ := hu₃.only a haN (Set.notMem_empty a) (Nat.le_of_not_lt hge)
      have := hm.gone h5
      omega
    · rw [if_neg hsz, hkept]
      · exact ⟨_,N₁,F₂,L₂,rfl,hadd⟩
      · rintro ⟨y,hy,-,he,h1⟩
        rw [hm.inv.node_inj hy hxE he] at h1
        exact hsz h1
  · rw [if_neg (show ¬(_ ∧ q.ptr n ≠ 0 ∧ n < q.ptr n) from fun hc => hx ⟨hc.1,hfw.mp hc.2⟩), hkept]
    · exact ⟨_,N₁,F₂,L₂,rfl,hadd⟩
    · rintro ⟨y,hy,h1,he,-⟩
      exact hx ⟨h1,y,hy,he⟩

end Inv

end LiteOsKernel.Mem.Tlsf
