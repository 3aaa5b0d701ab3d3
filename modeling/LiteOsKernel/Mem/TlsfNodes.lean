import LiteOsKernel.Mem.TlsfLists

/-! Flag changes, payload writes, merging and splitting of nodes keep the pool invariant. -/
namespace LiteOsKernel.Mem.Tlsf
open LiteOsKernel Links Lib

variable {p p' : MemPool} {E : List Area} {N F D U : Set Nat} {L : Nat → List Nat} {a b : Nat}

@[simp] theorem sizeAndFlag_setSizeAndFlag (p : MemPool) (a v b : Nat) :
    (p.setSizeAndFlag a v).sizeAndFlag b = if b = a then v else p.sizeAndFlag b := by
  simp [MemPool.setSizeAndFlag, MemPool.sizeAndFlag]

@[simp] theorem sizeAndFlag_setPtr_of_ne {p : MemPool} {a v b : Nat} (h : b + 4 ≠ a) :
    (p.setPtr a v).sizeAndFlag b = p.sizeAndFlag b := by
  rw [MemPool.setPtr, MemPool.sizeAndFlag, MemPool.mem_setWord, if_neg (by omega)]
  rfl

theorem sameHead_mergeNode (p : MemPool) (a : Nat) : SameHead p (osMemMergeNode p a) := by
  have h1 : ∀ q x v, SameHead q (q.setSizeAndFlag x v) := fun q x v => sameHead_setWord q _ v
  rw [osMemMergeNode]
  split
  · exact (h1 _ _ _).trans (sameHead_setWord _ _ _)
  · exact h1 _ _ _

theorem sameHead_splitNode (p : MemPool) (a k : Nat) : SameHead p (osMemSplitNode p a k) := by
  have h1 : ∀ q x v, SameHead q (q.setSizeAndFlag x v) := fun q x v => sameHead_setWord q _ v
  have h2 : ∀ q x v, SameHead q (q.setPtr x v) := fun q x v => sameHead_setWord q _ v
  have h3 : ∀ v w, SameHead p (((p.setPtr (Word.add a k) a).setSizeAndFlag (Word.add a k) v).setSizeAndFlag a w) :=
    fun v w => ((h2 _ _ _).trans (h1 _ _ _)).trans (h1 _ _ _)
  rw [osMemSplitNode]
  refine SameHead.trans ?_ (sameHead_freeNodeAdd _ _)
  split
  · dsimp only
    split
    · exact ((h3 _ _).trans (h2 _ _ _)).trans ((sameHead_freeNodeDelete _ _).trans (sameHead_mergeNode _ _))
    · exact (h3 _ _).trans (h2 _ _ _)
  · exact h3 _ _

namespace Inv

/-- Words outside the lists' fields and the sentinels can be written without any effect on them. -/
private theorem setWord_frame (h : Inv p E N F D U L) {x v : Nat} (hx : ∀ e ∈ extents p E, x < e.last ∨ e.last + 12 ≤ x)
    (hF : ∀ b ∈ F, x ≠ b + 8 ∧ x ≠ b + 12 ∧ x ≠ b + 16) :
    Fixed (p.setWord x v) E ∧ Lists (p.setWord x v) F L := by
  refine ⟨h.fixed.congr rfl rfl rfl ?_,h.lists.congr rfl rfl ?_ ?_ ?_⟩
  · intro e he k hk
    have := hx e he
    rw [MemPool.mem_setWord, if_neg (by omega)]
  all_goals
    intro b hb
    have := hF b hb
    first
      | rw [MemPool.sizeAndFlag, MemPool.mem_setWord, if_neg (by omega)]; rfl
      | rw [MemPool.prev, MemPool.mem_setWord, if_neg (by omega)]; rfl
      | rw [MemPool.next, MemPool.mem_setWord, if_neg (by omega)]; rfl

theorem ne_of_mem_free (h : Inv p E N F D U L) (ha : a ∈ N) (haF : a ∉ F) (hb : b ∈ F) :
    a + p.size a ≤ b ∨ b + p.size b ≤ a :=
  h.nodes.tiling.apart ha (h.sub b hb).1 (fun he => haF (he ▸ hb))

/-- A node that is not in a list may change its flags. -/
theorem setFlags (h : Inv p E N F D U L) (D' : Set Nat) (ha : a ∈ N) (haF : a ∉ F) {v : Nat}
    (hv : v = p.size a ∨ v = p.size a + 2^31 ∨ v = p.size a + 2^31 + 2^30)
    (hD : ∀ b ∈ D, b ≠ a → b ∈ D') (hva : v < 2^31 → a ∈ D') (hD' : ∀ b ∈ D', b ∉ F) :
    Inv (p.setSizeAndFlag a v) E N F D' U L ∧ UsedKept p N (p.setSizeAndFlag a v) N {a} := by
  have hsz := h.size_lt ha
  have hba := h.inside ha
  have hvs : v % 2^29 = p.size a := by omega
  obtain ⟨hfix,hlists⟩ := h.setWord_frame (x := a + 8) (v := v)
    (fun e he => h.off_sentinel ha (by omega) (by omega) he) (by
    intro b hb
    have h1 := h.ne_of_mem_free ha haF hb
    have h2 := h.inside (h.sub b hb).1
    omega)
  have hsize : ∀ b ∈ N, (p.setSizeAndFlag a v).size b = p.size b := by
    intro b _
    rw [MemPool.size, sizeAndFlag_setSizeAndFlag]
    split
    case isTrue he => rw [he, hvs]
    case isFalse => rfl
  refine ⟨⟨hfix,⟨?_,?_,?_⟩,hlists,?_,?_,hD',?_,?_⟩,?_⟩
  · apply h.nodes.tiling.congr hsize
    intro b _
    rw [MemPool.ptr, MemPool.setSizeAndFlag, MemPool.mem_setWord, if_neg]
    · rfl
    · intro he
      by_cases hab : a = b
      · omega
      · have := h.spaced ha ‹b ∈ N› hab
        omega
  · intro b hb
    rw [hsize b hb]
    exact h.nodes.mod b hb
  · intro b hb
    rw [hsize b hb, sizeAndFlag_setSizeAndFlag]
    split
    case isTrue he => rw [he]; exact hv
    case isFalse => exact h.nodes.flags b hb
  · intro b hb
    rw [sizeAndFlag_setSizeAndFlag, if_neg (fun he : b = a => haF (he ▸ hb))]
    exact h.sub b hb
  · intro b hb hf
    rw [sizeAndFlag_setSizeAndFlag] at hf
    by_cases hab : b = a
    · rw [if_pos hab] at hf
      exact .inr (hab ▸ hva hf)
    · rw [if_neg hab] at hf
      exact (h.full b hb hf).imp_right fun hd => hD b hd hab
  · intro b hb
    rw [hsize b (h.sub b hb).1]
    exact h.coalesced b hb
  · intro b hb hbU
    rw [MemPool.setSizeAndFlag, MemPool.mem_setWord, if_neg]
    · exact h.magic b hb hbU
    · intro he
      have := h.spaced ha hb (by omega)
      omega
  · constructor
    · intro b hb hne _
      have hab : b ≠ a := hne
      refine ⟨hb,by rw [sizeAndFlag_setSizeAndFlag, if_neg hab],?_⟩
      intro x hl hr
      rw [MemPool.setSizeAndFlag, MemPool.mem_setWord, if_neg]
      intro he
      rcases h.nodes.tiling.apart ha hb hab.symm with h1 | h1 <;> omega
    · intro b hb hne hu
      have hab : b ≠ a := hne
      rw [sizeAndFlag_setSizeAndFlag, if_neg hab] at hu
      exact ⟨hb,hu⟩

/-- Writes to the payload of a used node touch no head, link or sentinel. -/
theorem setPayload (h : Inv p E N F D U L) (ha : a ∈ N) (hu : 2^31 ≤ p.sizeAndFlag a) {x v : Nat}
    (hl : a + 12 ≤ x) (hr : x < a + p.size a) :
    Inv (p.setWord x v) E N F D U L ∧ HeadsKept p (p.setWord x v) N ∧
      ∀ b ∈ N, b ≠ a → ∀ y, b + 12 ≤ y → y < b + p.size b → (p.setWord x v).mem y = p.mem y := by
  have haF : a ∉ F := fun hm => by
    have := (h.sub a hm).2
    omega
  obtain ⟨hfix,hlists⟩ := h.setWord_frame (x := x) (v := v)
    (fun e he => h.off_sentinel ha (by omega) hr he) (by
    intro b hb
    have h1 := h.ne_of_mem_free ha haF hb
    have h2 := h.inside (h.sub b hb).1
    omega)
  have hne : ∀ b ∈ N, ∀ k, k < 12 → x ≠ b + k := by
    intro b hb k hk
    by_cases hab : a = b
    · omega
    · have := h.inside hb
      rcases h.nodes.tiling.apart ha hb hab with h1 | h1 <;> omega
  have hheads : HeadsKept p (p.setWord x v) N := by
    refine ⟨rfl,rfl,?_,?_⟩
    · intro b hb
      rw [MemPool.sizeAndFlag, MemPool.mem_setWord, if_neg (hne b hb 8 (by omega)).symm]
      rfl
    · intro b hb
      rw [MemPool.ptr, MemPool.mem_setWord, if_neg (hne b hb 4 (by omega)).symm]
      rfl
  have hsize : ∀ b ∈ N, (p.setWord x v).size b = p.size b :=
    fun b hb => by rw [MemPool.size, hheads.sizeAndFlag b hb, MemPool.size]
  refine ⟨⟨hfix,⟨h.nodes.tiling.congr hsize hheads.ptr,?_,?_⟩,hlists,?_,?_,h.apart,?_,?_⟩,hheads,?_⟩
  · intro b hb
    rw [hsize b hb]
    exact h.nodes.mod b hb
  · intro b hb
    rw [hsize b hb, hheads.sizeAndFlag b hb]
    exact h.nodes.flags b hb
  · intro b hb
    rw [hheads.sizeAndFlag b (h.sub b hb).1]
    exact h.sub b hb
  · intro b hb hf
    rw [hheads.sizeAndFlag b hb] at hf
    exact h.full b hb hf
  · intro b hb
    rw [hsize b (h.sub b hb).1]
    exact h.coalesced b hb
  · intro b hb hbU
    rw [MemPool.mem_setWord, if_neg (fun he => hne b hb 0 (by omega) he.symm)]
    exact h.magic b hb hbU
  · intro b hb hab y hyl hyr
    rw [MemPool.mem_setWord, if_neg]
    intro he
    rcases h.nodes.tiling.apart ha hb hab.symm with h1 | h1 <;> omega

theorem last_clear (h : Inv p E N F D U L) (ha : a ∈ N) : getLastFlag (p.sizeAndFlag a) = 0 := by
  rw [getLastFlag_eq_zero]
  have h1 := h.nodes.flags a ha
  have h2 := h.size_lt ha
  omega

theorem last_end (h : Inv p E N F D U L) {e : Extent} (he : e ∈ extents p E) :
    getLastFlag (p.sizeAndFlag e.last) ≠ 0 := by
  obtain ⟨-,s,hs,hf⟩ := h.sentinel_flags he
  rw [hf, ne_eq, getLastFlag_eq_zero]
  omega

private theorem mergeNode_eq (h : Inv p E N F D U L) (hb : b ∈ N) (hab : a + p.size a = b) (ha : a ∈ N)
    (haf : p.sizeAndFlag a < 2^31) (hbf : p.sizeAndFlag b < 2^31) :
    (b + p.size b ∈ N ∧ osMemMergeNode p b =
        (p.setSizeAndFlag a (p.size a + p.size b)).setPtr (b + p.size b) a) ∨
      (b + p.size b ∉ N ∧ osMemMergeNode p b = p.setSizeAndFlag a (p.size a + p.size b)) := by
  have hba := h.inside ha
  have hbb := h.inside hb
  have hla := h.size_lt ha
  have hlb := h.size_lt hb
  have htop := h.fixed.top
  have hptr : p.ptr b = a := by
    rw [← hab]
    exact h.nodes.tiling.prev_next a ha (hab ▸ hb)
  have hne : b ≠ a := by omega
  have hptr' : ∀ v, (p.setSizeAndFlag a v).ptr b = a := by
    intro v
    rw [MemPool.ptr, MemPool.setSizeAndFlag, MemPool.mem_setWord, if_neg (by omega)]
    exact hptr
  have hadd : Word.add (p.sizeAndFlag a) (p.sizeAndFlag b) = p.size a + p.size b := by
    rw [h.free_eq ha haf, h.free_eq hb hbf, Word.add_eq (by omega)]
  have hnx : Word.add b (p.sizeAndFlag b) = b + p.size b := by
    rw [h.free_eq hb hbf, Word.add_eq (by omega)]
  simp only [osMemMergeNode, hptr, hadd, hptr', sizeAndFlag_setSizeAndFlag, if_neg hne, hnx]
  rw [if_neg (show b + p.size b ≠ a by omega)]
  rcases h.nodes.tiling.next b hb with ⟨e,hm,he⟩ | hm
  · right
    rw [he, if_neg (h.last_end hm)]
    exact ⟨h.nodes.tiling.last_not_mem hm,rfl⟩
  · left
    rw [if_pos (h.last_clear hm)]
    exact ⟨hm,rfl⟩

/-- The words that a merge may change. -/
theorem mergeNode_mem (h : Inv p E N F D U L) (ha : a ∈ N) (hb : b ∈ N) (hab : a + p.size a = b)
    (haf : p.sizeAndFlag a < 2^31) (hbf : p.sizeAndFlag b < 2^31) {x : Nat} (h1 : x ≠ a + 8)
    (h2 : x ≠ b + p.size b + 4) : (osMemMergeNode p b).mem x = p.mem x := by
  rcases h.mergeNode_eq hb hab ha haf hbf with ⟨-,he⟩ | ⟨-,he⟩
  · rw [he, MemPool.setPtr, MemPool.mem_setWord, if_neg h2, MemPool.setSizeAndFlag, MemPool.mem_setWord,
      if_neg h1]
  · rw [he, MemPool.setSizeAndFlag, MemPool.mem_setWord, if_neg h1]

/-- Two adjacent free nodes outside the lists become one. -/
theorem mergeNode (h : Inv p E N F D U L) (ha : a ∈ N) (hb : b ∈ N) (hab : a + p.size a = b)
    (haf : p.sizeAndFlag a < 2^31) (hbf : p.sizeAndFlag b < 2^31) (haF : a ∉ F) (hbF : b ∉ F) :
    Inv (osMemMergeNode p b) E (N \ {b}) F (D \ {b}) U L ∧
      (osMemMergeNode p b).sizeAndFlag a = p.size a + p.size b ∧
      (∀ c ∈ N, c ≠ a → (osMemMergeNode p b).sizeAndFlag c = p.sizeAndFlag c) ∧
      (∀ c ∈ N, c ≠ b + p.size b → (osMemMergeNode p b).ptr c = p.ptr c) ∧
      UsedKept p N (osMemMergeNode p b) (N \ {b}) ∅ := by
  have hba := h.bounds ha
  have hbb := h.bounds hb
  have hch : ∀ x, x ≠ a + 8 → x ≠ b + p.size b + 4 → (osMemMergeNode p b).mem x = p.mem x :=
    fun x => h.mergeNode_mem ha hb hab haf hbf
  have hsa : (osMemMergeNode p b).sizeAndFlag a = p.size a + p.size b := by
    rcases h.mergeNode_eq hb hab ha haf hbf with ⟨-,he⟩ | ⟨-,he⟩
    · rw [he, sizeAndFlag_setPtr_of_ne (by omega), sizeAndFlag_setSizeAndFlag, if_pos rfl]
    · rw [he, sizeAndFlag_setSizeAndFlag, if_pos rfl]
  have hfields : (osMemMergeNode p b).pool = p.pool ∧ (osMemMergeNode p b).totalSize = p.totalSize ∧
      (osMemMergeNode p b).panic = p.panic ∧
      (osMemMergeNode p b).freeList = p.freeList ∧ (osMemMergeNode p b).freeListBitmap = p.freeListBitmap := by
    rcases h.mergeNode_eq hb hab ha haf hbf with ⟨-,he⟩ | ⟨-,he⟩ <;>
      rw [he] <;> exact ⟨rfl,rfl,rfl,rfl,rfl⟩
  obtain ⟨hpool,htot,hpanic,hfl,hbm⟩ := hfields
  have hptr : b + p.size b ∈ N → (osMemMergeNode p b).ptr (b + p.size b) = a := by
    intro hm
    rcases h.mergeNode_eq hb hab ha haf hbf with ⟨-,he⟩ | ⟨hend,-⟩
    · rw [he, MemPool.ptr, MemPool.setPtr, MemPool.mem_setWord, if_pos rfl]
    · exact absurd hm hend
  have hnext : ∀ c ∈ N, b + p.size b = c ∨ b + p.size b + 12 ≤ c ∨ c + p.size c ≤ b + p.size b :=
    fun c hc => h.end_apart hb hc
  have hsf : ∀ c ∈ N, c ≠ a → (osMemMergeNode p b).sizeAndFlag c = p.sizeAndFlag c := by
    intro c hc hca
    have h1 := h.inside hc
    have h2 := hnext c hc
    exact hch _ (by omega) (by omega)
  have hpt : ∀ c ∈ N, c ≠ b + p.size b → (osMemMergeNode p b).ptr c = p.ptr c := by
    intro c hc hne
    have h1 := h.inside hc
    have h2 := hnext c hc
    apply hch _ _ (by omega)
    intro he
    have := h.spaced ha hc (by omega)
    omega
  have hsz : ∀ c ∈ N, c ≠ a → (osMemMergeNode p b).size c = p.size c :=
    fun c hc hca => by rw [MemPool.size, hsf c hc hca, MemPool.size]
  have hlab := h.add_size_lt ha hb hab
  have hsza : (osMemMergeNode p b).size a = p.size a + p.size b := by
    rw [MemPool.size, hsa]
    exact Nat.mod_eq_of_lt (by omega)
  have hFa : ∀ c ∈ F, c ≠ a := fun c hc he => haF (he ▸ hc)
  refine ⟨⟨?_,⟨?_,?_,?_⟩,?_,?_,?_,?_,?_,?_⟩,hsa,hsf,hpt,?_⟩
  · apply h.fixed.congr hpool htot hpanic
    intro e he k hk
    have h1 := h.off_sentinel (x := a + 8) ha (by omega) (by omega) he
    rcases h.mergeNode_eq hb hab ha haf hbf with ⟨hm,-⟩ | ⟨-,hq⟩
    · have h2 := h.inside hm
      have h3 := h.off_sentinel (x := b + p.size b + 4) hm (by omega) (by omega) he
      exact hch _ (by omega) (by omega)
    · rw [hq, MemPool.setSizeAndFlag, MemPool.mem_setWord, if_neg (by omega)]
  · rw [extents_congr hpool htot]
    apply h.nodes.tiling.merge ha hb hab hsza
    · exact fun c hc hca _ => hsz c hc hca
    · exact hptr
    · exact fun c hc _ hne => hpt c hc hne
  · rintro c ⟨hc,-⟩
    by_cases hca : c = a
    · rw [hca, hsza]
      omega
    · rw [hsz c hc hca]
      exact h.nodes.mod c hc
  · rintro c ⟨hc,-⟩
    by_cases hca : c = a
    · rw [hca, hsza, hsa]
      exact .inl rfl
    · rw [hsz c hc hca, hsf c hc hca]
      exact h.nodes.flags c hc
  · apply h.lists.congr hfl hbm
    · exact fun c hc => hsf c (h.sub c hc).1 (hFa c hc)
    all_goals
      intro c hc
      have h1 := h.inside (h.sub c hc).1
      have h2 := hnext c (h.sub c hc).1
      have h3 := h.spaced ha (h.sub c hc).1 (hFa c hc).symm
      exact hch _ (by omega) (by omega)
  · intro c hc
    have hcN := (h.sub c hc).1
    rw [hsf c hcN (hFa c hc)]
    exact ⟨⟨hcN,fun he => hbF (he ▸ hc)⟩,(h.sub c hc).2⟩
  · rintro c ⟨hc,hcb⟩ hf
    by_cases hca : c = a
    · subst hca
      exact .inr ⟨(h.full c hc haf).resolve_left haF,hcb⟩
    · rw [hsf c hc hca] at hf
      exact (h.full c hc hf).imp_right fun hd => ⟨hd,hcb⟩
  · exact fun c hc => h.apart c hc.1
  · intro c hc
    rw [hsz c (h.sub c hc).1 (hFa c hc)]
    exact h.coalesced c hc
  · rintro c ⟨hc,hcb⟩ hcU
    have h2 := hnext c hc
    have h1 := h.inside hc
    rw [hch c ?_ (by omega)]
    · exact h.magic c hc hcU
    · intro he
      have := h.spaced ha hc (by omega)
      omega
  · constructor
    · intro c hc _ hu
      have hca : c ≠ a := by
        rintro rfl
        omega
      have hcb : c ≠ b := by
        rintro rfl
        omega
      refine ⟨⟨hc,hcb⟩,hsf c hc hca,?_⟩
      intro x hl hr
      have h1 := hnext c hc
      apply hch
      · rcases h.nodes.tiling.apart ha hc hca.symm with h2 | h2 <;> omega
      · omega
    · rintro c ⟨hc,-⟩ _ hu
      have hca : c ≠ a := by
        rintro rfl
        omega
      exact ⟨hc,hsf c hc hca ▸ hu⟩

end Inv

/-- The head words written by OsMemSplitNode before it looks at the next node's state. -/
def cutNode (p : MemPool) (a k : Nat) : MemPool :=
  let q := ((p.setPtr (a + k) a).setSizeAndFlag (a + k) (p.size a - k)).setSizeAndFlag a k
  if getLastFlag (p.sizeAndFlag (a + p.size a)) = 0 then q.setPtr (a + p.size a) (a + k) else q

namespace Inv

theorem cutNode_mem (p : MemPool) (a k x : Nat) : (cutNode p a k).mem x =
    if getLastFlag (p.sizeAndFlag (a + p.size a)) = 0 ∧ x = a + p.size a + 4 then a + k
    else if x = a + 8 then k else if x = a + k + 8 then p.size a - k else if x = a + k + 4 then a
    else p.mem x := by
  simp only [cutNode, MemPool.setPtr, MemPool.setSizeAndFlag]
  split
  case isTrue h => simp [h]
  case isFalse h => simp [h]

private theorem cutNode_fields (p : MemPool) (a k : Nat) : (cutNode p a k).pool = p.pool ∧
    (cutNode p a k).totalSize = p.totalSize ∧ (cutNode p a k).panic = p.panic ∧
    (cutNode p a k).freeList = p.freeList ∧ (cutNode p a k).freeListBitmap = p.freeListBitmap := by
  simp only [cutNode]
  split <;> exact ⟨rfl,rfl,rfl,rfl,rfl⟩

theorem splitNode_eq (h : Inv p E N F D U L) {k : Nat} (ha : a ∈ N) (haf : p.sizeAndFlag a < 2^31)
    (hk : 20 ≤ k) (hks : k + 20 ≤ p.size a) :
    osMemSplitNode p a k = osMemFreeNodeAdd
      (if getLastFlag (p.sizeAndFlag (a + p.size a)) = 0 ∧ getUsedFlag (p.sizeAndFlag (a + p.size a)) = 0 then
        osMemMergeNode (osMemFreeNodeDelete (cutNode p a k) (a + p.size a)) (a + p.size a)
      else cutNode p a k) (a + k) := by
  have hba := h.inside ha
  have hla := h.size_lt ha
  have hf : Word.add a k = a + k := Word.add_eq (by omega)
  have e1 : (p.setPtr (a + k) a).sizeAndFlag a = p.size a := by
    rw [sizeAndFlag_setPtr_of_ne (by omega), h.free_eq ha haf]
  have e2 : Word.sub (p.size a) k = p.size a - k := Word.sub_eq (by omega)
  set q := ((p.setPtr (a + k) a).setSizeAndFlag (a + k) (p.size a - k)).setSizeAndFlag a k with hq
  have e3 : osMemNextNode q (a + k) = a + p.size a := by
    rw [osMemNextNode, hq, sizeAndFlag_setSizeAndFlag, if_neg (by omega), sizeAndFlag_setSizeAndFlag, if_pos rfl,
      getSize_eq, Nat.mod_eq_of_lt (by omega), Word.add_eq (by omega)]
    omega
  have e4 : q.sizeAndFlag (a + p.size a) = p.sizeAndFlag (a + p.size a) := by
    rw [hq, sizeAndFlag_setSizeAndFlag, if_neg (by omega), sizeAndFlag_setSizeAndFlag, if_neg (by omega),
      sizeAndFlag_setPtr_of_ne (by omega)]
  have e5 : (q.setPtr (a + p.size a) (a + k)).sizeAndFlag (a + p.size a) = p.sizeAndFlag (a + p.size a) := by
    rw [sizeAndFlag_setPtr_of_ne (by omega), e4]
  simp only [osMemSplitNode, hf, e1, e2, ← hq, e3, e4, e5, cutNode]
  by_cases hl : getLastFlag (p.sizeAndFlag (a + p.size a)) = 0 <;> simp only [hl, if_true, if_false, true_and, false_and]

/-- Cutting a free node outside the lists in two. -/
theorem cutNode (h : Inv p E N F D U L) {k : Nat} (ha : a ∈ N) (haf : p.sizeAndFlag a < 2^31) (haF : a ∉ F)
    (hk : 20 ≤ k) (hk4 : k%4 = 0) (hks : k + 20 ≤ p.size a) (hDk : a + k ∉ F) :
    Inv (cutNode p a k) E (insert (a + k) N) F (insert (a + k) D) (insert (a + k) U) L ∧
      (Tlsf.cutNode p a k).sizeAndFlag a = k ∧ (Tlsf.cutNode p a k).sizeAndFlag (a + k) = p.size a - k ∧
      (∀ c ∈ N, c ≠ a → (Tlsf.cutNode p a k).sizeAndFlag c = p.sizeAndFlag c) ∧
      UsedKept p N (Tlsf.cutNode p a k) (insert (a + k) N) ∅ := by
  have hba := h.bounds ha
  have hla := h.size_lt ha
  have hmem := cutNode_mem p a k
  obtain ⟨hpool,htot,hpanic,hfl,hbm⟩ := cutNode_fields p a k
  set q := Tlsf.cutNode p a k
  have hout : ∀ c ∈ N, c ≠ a → c + p.size c ≤ a ∨ a + p.size a ≤ c :=
    fun c hc hca => h.nodes.tiling.apart hc ha hca
  -- the node after a, if any, keeps all words but its back pointer
  have hnext : ∀ c ∈ N, c ≠ a → a + p.size a = c ∨ a + p.size a + 12 ≤ c ∨ c + p.size c ≤ a := by
    intro c hc hca
    rcases h.end_apart ha hc with h1 | h1 | h1
    · exact .inl h1
    · exact .inr (.inl h1)
    · rcases hout c hc hca with h2 | h2 <;> omega
  have hch : ∀ x, x ≠ a + p.size a + 4 → (x < a + 8 ∨ a + p.size a ≤ x) → q.mem x = p.mem x := by
    intro x h1 h2
    rw [hmem, if_neg (by omega), if_neg (by omega), if_neg (by omega), if_neg (by omega)]
  have hsa : q.sizeAndFlag a = k := by
    rw [MemPool.sizeAndFlag, hmem, if_neg (by omega), if_pos rfl]
  have hsk : q.sizeAndFlag (a + k) = p.size a - k := by
    rw [MemPool.sizeAndFlag, hmem, if_neg (by omega), if_neg (by omega), if_pos rfl]
  have hsf : ∀ c ∈ N, c ≠ a → q.sizeAndFlag c = p.sizeAndFlag c := by
    intro c hc hca
    have h1 := hnext c hc hca
    have h2 := h.inside hc
    exact hch _ (by omega) (by omega)
  have hsz : ∀ c ∈ N, c ≠ a → q.size c = p.size c :=
    fun c hc hca => by rw [MemPool.size, hsf c hc hca, MemPool.size]
  have hsza : q.size a = k := by rw [MemPool.size, hsa, Nat.mod_eq_of_lt (by omega)]
  have hszk : q.size (a + k) = p.size a - k := by rw [MemPool.size, hsk, Nat.mod_eq_of_lt (by omega)]
  have hFa : ∀ c ∈ F, c ≠ a := fun c hc he => haF (he ▸ hc)
  refine ⟨⟨?_,⟨?_,?_,?_⟩,?_,?_,?_,?_,?_,?_⟩,hsa,hsk,hsf,?_⟩
  · apply h.fixed.congr hpool htot hpanic
    intro e he i hi
    have h1 := fun x hl hr => h.off_sentinel (x := x) ha hl hr he
    have h2 := h1 (a + 8) (by omega) (by omega)
    have h3 := h1 (a + k + 8) (by omega) (by omega)
    have h4 := h1 (a + k + 4) (by omega) (by omega)
    rw [hmem, if_neg, if_neg (by omega), if_neg (by omega), if_neg (by omega)]
    rintro ⟨hl,hx⟩
    rcases h.nodes.tiling.next a ha with ⟨d,hd,h5⟩ | h5
    · exact h.last_end hd (h5 ▸ hl)
    · have h6 := h.inside h5
      have h7 := h.off_sentinel (x := a + p.size a + 4) h5 (by omega) (by omega) he
      omega
  · rw [extents_congr hpool htot]
    apply h.nodes.tiling.split ha hk hks hsza hszk hsz
    · rw [MemPool.ptr, hmem, if_neg (by omega), if_neg (by omega), if_neg (by omega), if_pos rfl]
    · intro hm
      rw [MemPool.ptr, hmem, if_pos ⟨h.last_clear hm,rfl⟩]
    · intro c hc hne
      by_cases hca : c = a
      · subst hca
        exact hch _ (by omega) (by omega)
      · have h1 := hnext c hc hca
        have h2 := h.inside hc
        exact hch _ (by omega) (by omega)
  · rintro c (rfl | hc)
    · rw [hszk]
      omega
    · by_cases hca : c = a
      · rw [hca, hsza]
        omega
      · rw [hsz c hc hca]
        exact h.nodes.mod c hc
  · rintro c (rfl | hc)
    · exact .inl (by rw [hszk, hsk])
    · by_cases hca : c = a
      · exact .inl (by rw [hca, hsza, hsa])
      · rw [hsz c hc hca, hsf c hc hca]
        exact h.nodes.flags c hc
  · apply h.lists.congr hfl hbm
    · exact fun c hc => hsf c (h.sub c hc).1 (hFa c hc)
    all_goals
      intro c hc
      have h1 := hnext c (h.sub c hc).1 (hFa c hc)
      have h2 := h.inside (h.sub c hc).1
      exact hch _ (by omega) (by omega)
  · intro c hc
    rw [hsf c (h.sub c hc).1 (hFa c hc)]
    exact ⟨.inr (h.sub c hc).1,(h.sub c hc).2⟩
  · rintro c (rfl | hc) hf
    · exact .inr (.inl rfl)
    · by_cases hca : c = a
      · subst hca
        exact .inr (.inr ((h.full c hc haf).resolve_left haF))
      · rw [hsf c hc hca] at hf
        exact (h.full c hc hf).imp_right .inr
  · rintro c (rfl | hc)
    · exact hDk
    · exact h.apart c hc
  · intro c hc
    rw [hsz c (h.sub c hc).1 (hFa c hc)]
    exact h.coalesced c hc
  · rintro c (rfl | hc) hcU
    · exact absurd (.inl rfl) hcU
    · by_cases hca : c = a
      · subst hca
        rw [hch c (by omega) (by omega)]
        exact h.magic c hc fun hm => hcU (.inr hm)
      · have h1 := hnext c hc hca
        have h2 := h.inside hc
        rw [hch c (by omega) (by omega)]
        exact h.magic c hc fun hm => hcU (.inr hm)
  · constructor
    · intro c hc _ hu
      have hca : c ≠ a := by
        rintro rfl
        omega
      refine ⟨.inr hc,hsf c hc hca,?_⟩
      intro x hl hr
      have h1 := hnext c hc hca
      exact hch _ (by omega) (by omega)
    · rintro c (rfl | hc) _ hu
      · omega
      · have hca : c ≠ a := by
          rintro rfl
          omega
        exact ⟨hc,hsf c hc hca ▸ hu⟩

end Inv

end LiteOsKernel.Mem.Tlsf
