import LiteOsKernel.Mem.TlsfFree

/-! Reallocation: shrinking in place, growing into the next node, and moving the block. -/
namespace LiteOsKernel.Mem.Tlsf
open LiteOsKernel Links Lib

variable {p p' q : MemPool} {E : List Area} {N N' F F' D U : Set Nat} {L L' : Nat → List Nat} {a b c k r : Nat}

/-- A pool q in which the used node a of p has k bytes or more, in the same place. -/
structure Resized (p q : MemPool) (E : List Area) (N N' F' : Set Nat) (L' : Nat → List Nat) (a k : Nat) : Prop where
  inv : Inv q E N' F' ∅ ∅ L'
  mem : a ∈ N'
  plain : Plain q a
  room : k ≤ q.size a
  used : UsedKept p N q N' {a}
  payload : ∀ y, a + 12 ≤ y → y < a + k → y < a + p.size a → q.mem y = p.mem y
  attr : q.attr = p.attr

namespace Inv

/-- Setting the used flag of a node that has it already changes nothing. -/
private theorem setUsed_again (h : Inv p E N F D U L) (ha : a ∈ N) (hu : Plain p a) :
    p.setSizeAndFlag a (p.sizeAndFlag a ||| OS_MEM_NODE_USED_FLAG) = p := by
  have hs := h.size_lt ha
  have hv : p.sizeAndFlag a ||| OS_MEM_NODE_USED_FLAG = p.sizeAndFlag a :=
    Word.or_two_pow_of_set (k := 31) (by rw [hu]; omega)
  rw [hv, MemPool.setSizeAndFlag, MemPool.setWord, MemPool.sizeAndFlag, Function.update_eq_self]

private theorem setUsed_payload {y v : Nat} (hy : a + 12 ≤ y) : (p.setSizeAndFlag a v).mem y = p.mem y := by
  rw [MemPool.setSizeAndFlag, MemPool.mem_setWord, if_neg (by omega)]

/-- Shrinking in place returns the surplus to the lists and drops an alignment gap. -/
private theorem reAllocSmaller (h : Inv p E N F ∅ ∅ L) (ha : a ∈ N) (hu : 2^31 ≤ p.sizeAndFlag a) (hk : 20 ≤ k)
    (hk4 : k%4 = 0) (hle : k ≤ p.size a) :
    let q := osMemReAllocSmaller p k a (p.size a)
    ∃ N' F' L', Resized p q E N N' F' L' a k ∧ q.waterLine = p.waterLine ∧
      ((q.size a = k ∧ q.curUsedSize = Word.sub p.curUsedSize (p.size a - k)) ∨
        (q.size a = p.size a ∧ q.curUsedSize = p.curUsedSize)) := by
  intro q
  have hla := h.size_lt ha
  obtain ⟨h₁,hs₁,hu₁⟩ := h.clearFlags ha hu
  have hq : q = osMemReAllocSmaller p k a (p.size a) := rfl
  rw [osMemReAllocSmaller, splitBound_eq (by omega)] at hq
  have hh₁ := sameHead_setWord p (a + 8) (p.size a)
  rw [← MemPool.setSizeAndFlag] at hh₁
  have hp₁ : ∀ y, a + 12 ≤ y → (p.setSizeAndFlag a (p.size a)).mem y = p.mem y := fun y hy => setUsed_payload hy
  set p₁ := p.setSizeAndFlag a (p.size a)
  have haf₁ : p₁.sizeAndFlag a < 2^31 := by omega
  have hsz₁ : p₁.size a = p.size a := by rw [MemPool.size, hs₁, Nat.mod_eq_of_lt (by omega)]
  by_cases hc : k + 20 ≤ p.size a
  · obtain ⟨N₂,F₂,L₂,h₂,ha₂,hs₂,hu₂,hp₂⟩ := h₁.splitNode ha haf₁ hk hk4 (by rw [hsz₁]; exact hc)
    obtain ⟨h₃,hs₃,hsz₃,hu₃⟩ := h₂.setUsed ha₂ (by omega)
    have hh₂ := hh₁.trans (sameHead_splitNode p₁ a k)
    have hh₃ := hh₂.trans (sameHead_setWord (osMemSplitNode p₁ a k) (a + 8)
      ((osMemSplitNode p₁ a k).sizeAndFlag a ||| OS_MEM_NODE_USED_FLAG))
    rw [← MemPool.setSizeAndFlag] at hh₃
    simp only [if_pos hc] at hq
    have hp₃ : ∀ y, a + 12 ≤ y → y < a + k → ((osMemSplitNode p₁ a k).setSizeAndFlag a
        ((osMemSplitNode p₁ a k).sizeAndFlag a ||| OS_MEM_NODE_USED_FLAG)).mem y = p.mem y := by
      intro y hl hr
      rw [setUsed_payload hl, hp₂ y hl hr, hp₁ y hl]
    have hsz₂ : (osMemSplitNode p₁ a k).size a = k := by rw [MemPool.size, hs₂, Nat.mod_eq_of_lt (by omega)]
    set p₃ := (osMemSplitNode p₁ a k).setSizeAndFlag a
      ((osMemSplitNode p₁ a k).sizeAndFlag a ||| OS_MEM_NODE_USED_FLAG)
    have hkeep := (hu₁.trans (hu₂.mono (Set.empty_subset _))).trans hu₃
    have hsub : Word.sub (p.size a) k = p.size a - k := Word.sub_eq hle
    rw [hh₃.curUsedSize, hsub] at hq
    clear_value p₃
    have h₄ : Inv { p₃ with curUsedSize := Word.sub p.curUsedSize (p.size a - k) } E N₂ F₂ ∅ ∅ L₂ :=
      h₃.setUsage _ p₃.waterLine
    rw [h₄.setUsed_again ha₂ hs₃] at hq
    rw [hq]
    exact ⟨N₂,F₂,L₂,⟨h₄,ha₂,hs₃,(hsz₃.trans hsz₂).ge,hkeep.congr_mem rfl,fun y hl hr _ => hp₃ y hl hr,hh₃.attr⟩,
      hh₃.waterLine,.inl ⟨hsz₃.trans hsz₂,rfl⟩⟩
  · obtain ⟨h₃,hs₃,hsz₃,hu₃⟩ := h₁.setUsed ha haf₁
    have hh₃ := hh₁.trans (sameHead_setWord p₁ (a + 8) (p₁.sizeAndFlag a ||| OS_MEM_NODE_USED_FLAG))
    rw [← MemPool.setSizeAndFlag] at hh₃
    simp only [if_neg hc] at hq
    rw [hq]
    refine ⟨N,F,L,⟨h₃,ha,hs₃,?_,hu₁.trans hu₃,?_,hh₃.attr⟩,hh₃.waterLine,.inr ⟨hsz₃.trans hsz₁,hh₃.curUsedSize⟩⟩
    · rw [hsz₃, hsz₁]
      exact hle
    · intro y hl _ _
      rw [setUsed_payload hl, hp₁ y hl]

/-- Growing in place takes the next node, which is free and large enough, and splits again. -/
private theorem mergeNodeForReAllocBigger (h : Inv p E N F ∅ ∅ L) (ha : a ∈ N) (hu : 2^31 ≤ p.sizeAndFlag a)
    (hk : 20 ≤ k) (hk4 : k%4 = 0) (hb : a + p.size a ∈ N) (hbf : p.sizeAndFlag (a + p.size a) < 2^31)
    (hsum : k ≤ p.size a + p.size (a + p.size a)) :
    let q := osMemMergeNodeForReAllocBigger p k a (p.size a) (a + p.size a)
    ∃ N' F' L', Resized p q E N N' F' L' a k := by
  intro q
  have hla := h.size_lt ha
  have hba := h.inside ha
  have hlab := h.add_size_lt ha hb rfl
  obtain ⟨h₁,hs₁,hu₁⟩ := h.clearFlags ha hu
  have hq : q = osMemMergeNodeForReAllocBigger p k a (p.size a) (a + p.size a) := rfl
  rw [osMemMergeNodeForReAllocBigger, splitBound_eq (by omega)] at hq
  have hh₁ := sameHead_setWord p (a + 8) (p.size a)
  rw [← MemPool.setSizeAndFlag] at hh₁
  have hw₁ : ∀ y, a + 12 ≤ y → (p.setSizeAndFlag a (p.size a)).mem y = p.mem y := fun y hy => setUsed_payload hy
  set p₁ := p.setSizeAndFlag a (p.size a) with hp₁
  have hsz₁ : p₁.size a = p.size a := by rw [MemPool.size, hs₁, Nat.mod_eq_of_lt (by omega)]
  have hsb₁ : p₁.sizeAndFlag (a + p.size a) = p.sizeAndFlag (a + p.size a) := by
    rw [hp₁, sizeAndFlag_setSizeAndFlag, if_neg (by omega)]
  have hszb₁ : p₁.size (a + p.size a) = p.size (a + p.size a) := congrArg (· % 2^29) hsb₁
  obtain ⟨L₂,h₂,hs₂,-,-,hu₂,hw₂⟩ := h₁.mergeNext ha (by omega) hb (by rw [hsz₁]) (hsb₁.symm ▸ hbf)
  have hh₂ := hh₁.trans ((sameHead_freeNodeDelete p₁ (a + p.size a)).trans
    (sameHead_mergeNode (osMemFreeNodeDelete p₁ (a + p.size a)) (a + p.size a)))
  set p₂ := osMemMergeNode (osMemFreeNodeDelete p₁ (a + p.size a)) (a + p.size a)
  rw [hsz₁, hszb₁] at hs₂
  have ha₂ : a ∈ N \ {a + p.size a} := ⟨ha,by simp only [Set.mem_singleton_iff]; omega⟩
  have haf₂ : p₂.sizeAndFlag a < 2^31 := by omega
  have hsz₂ : p₂.size a = p.size a + p.size (a + p.size a) := by rw [MemPool.size, hs₂, Nat.mod_eq_of_lt hlab]
  set p₃ := if k + 20 ≤ p₂.sizeAndFlag a then osMemSplitNode p₂ a k else p₂ with hp₃
  have h₂' : Inv p₂ E (N \ {a + p.size a}) (F \ {a + p.size a}) {a} ∅ L₂ :=
    h₂.weaken subset_rfl h₂.apart fun c hc => hc.1
  obtain ⟨N₃,F₃,L₃,h₃,ha₃,haf₃,-,hle₃,hu₃,hh₃,hw₃⟩ := h₂'.trim ha₂ haf₂ hk hk4 hp₃
  obtain ⟨h₄,hs₄,hsz₄,hu₄⟩ := h₃.setUsed ha₃ haf₃
  have hh₄ := (hh₂.trans hh₃).trans (sameHead_setWord p₃ (a + 8) (p₃.sizeAndFlag a ||| OS_MEM_NODE_USED_FLAG))
  rw [← MemPool.setSizeAndFlag] at hh₄
  have hw₄ : ∀ y, a + 12 ≤ y → (p₃.setSizeAndFlag a (p₃.sizeAndFlag a ||| OS_MEM_NODE_USED_FLAG)).mem y = p₃.mem y :=
    fun y hy => setUsed_payload hy
  set p₄ := p₃.setSizeAndFlag a (p₃.sizeAndFlag a ||| OS_MEM_NODE_USED_FLAG)
  have hmem := mem_waterUsedRecord p₄ (Word.sub (p₄.sizeAndFlag a) (p.size a))
  have hattr := attr_waterUsedRecord p₄ (Word.sub (p₄.sizeAndFlag a) (p.size a))
  have hsf := congrFun hmem (a + 8)
  rw [hq]
  refine ⟨N₃,F₃,L₃,h₄.waterUsedRecord _,ha₃,hs₄.congr hsf,?_,?_,?_,hattr.trans hh₄.attr⟩
  · rw [MemPool.size, show (osMemWaterUsedRecord p₄ _).sizeAndFlag a = p₄.sizeAndFlag a from hsf, ← MemPool.size, hsz₄]
    exact hle₃ (by omega)
  · exact ((((hu₁.trans (hu₂.mono (Set.empty_subset _))).trans (hu₃.mono (Set.empty_subset _))).trans
      hu₄)).congr_mem hmem
  · intro y hl hr hra
    rw [hmem, hw₄ y hl, hw₃ y hl hr (by omega), hw₂ y hl (by omega), hw₁ y hl]

end Inv

-- Copying

theorem copyWords_of_ne {mem : Nat → Nat} {d s x : Nat} : ∀ {n : Nat}, (∀ i < n, x ≠ d + 4*i) →
    copyWords mem d s n x = mem x
  | 0, _ => rfl
  | n+1, h => by
    rw [copyWords, Function.update_of_ne (h n (by omega))]
    exact copyWords_of_ne fun i hi => h i (by omega)

theorem copyWords_at {mem : Nat → Nat} {d s i : Nat} : ∀ {n : Nat}, i < n →
    copyWords mem d s n (d + 4*i) = mem (s + 4*i)
  | 0, h => absurd h (Nat.not_lt_zero i)
  | n+1, h => by
    rw [copyWords]
    by_cases hi : i = n
    · rw [hi, Function.update_self]
    · rw [Function.update_of_ne (by omega)]
      exact copyWords_at (by omega)

namespace Inv

/-- Copying words into the payload of a used node. -/
theorem copyWords (h : Inv p E N F D U L) (ha : a ∈ N) (hu : 2^31 ≤ p.sizeAndFlag a) (src n : Nat)
    (hn : 12 + 4*n ≤ p.size a) :
    let q : MemPool := { p with mem := Tlsf.copyWords p.mem (a + 12) src n }
    Inv q E N F D U L ∧ (∀ b ∈ N, q.sizeAndFlag b = p.sizeAndFlag b) ∧ UsedKept p N q N {a} := by
  induction n with
  | zero => exact ⟨h.setUsage p.curUsedSize p.waterLine,fun _ _ => rfl,UsedKept.refl⟩
  | succ n ih =>
    obtain ⟨h₁,hs₁,hu₁⟩ := ih (by omega)
    set q : MemPool := { p with mem := Tlsf.copyWords p.mem (a + 12) src n }
    have hsz : q.size a = p.size a := by rw [MemPool.size, hs₁ a ha, MemPool.size]
    obtain ⟨h₂,hk₂,hp₂⟩ := h₁.setPayload (x := a + 12 + 4*n) (v := p.mem (src + 4*n)) ha (by rw [hs₁ a ha]; exact hu)
      (by omega) (by rw [hsz]; omega)
    refine ⟨h₂,fun b hb => (hk₂.sizeAndFlag b hb).trans (hs₁ b hb),hu₁.trans ⟨?_,?_⟩⟩
    · intro b hb hba _
      exact ⟨hb,hk₂.sizeAndFlag b hb,hp₂ b hb hba⟩
    · intro b hb _ hub
      exact ⟨hb,hk₂.sizeAndFlag b hb ▸ hub⟩

end Inv

-- Moving

/-- The block of the node does not get k bytes in place: it is too small, and so is the next node or it is used. -/
def Moves (p : MemPool) (node k : Nat) : Prop :=
  ¬k ≤ getSize (p.sizeAndFlag node) ∧ ¬(getUsedFlag (p.sizeAndFlag (osMemNextNode p node)) = 0 ∧
    k ≤ Word.add (p.sizeAndFlag (osMemNextNode p node)) (getSize (p.sizeAndFlag node)))

instance (p : MemPool) (node k : Nat) : Decidable (Moves p node k) := inferInstanceAs (Decidable (_ ∧ _))

/-- The pool of OsMemRealloc when the block has been copied and its old node is still in use. -/
def copied (p : MemPool) (ptr node size : Nat) : MemPool :=
  (memcpyS (osMemAlloc p size).1 (osMemAlloc p size).2 size ptr
    (Word.sub (getSize (p.sizeAndFlag node)) OS_MEM_NODE_HEAD_SIZE)).1

/-- The pool v in which the block of the node a of p, after it obtained the area x if it had to, has been copied
to the node c of k bytes, and both are in use. -/
structure Copied (p v : MemPool) (x : Option Area) (E : List Area) (N F N' F' : Set Nat) (L' : Nat → List Nat)
    (a c k : Nat) : Prop where
  inv : Inv v (E ++ x.toList) N' F' ∅ ∅ L'
  mem : c ∈ N'
  plain : Plain v c
  old : a ∈ N'
  kept : v.sizeAndFlag a = p.sizeAndFlag a
  ne : c ≠ a
  new : c ∈ N → p.sizeAndFlag c < 2^31
  room : k < 2^29 → k ≤ v.size c
  huge : 2^29 ≤ k → c ∈ F ∧ hugeBound k ≤ p.size c
  fits : p.size a ≤ v.size c
  found : (osMemFreeNodeGet p k).2 ≠ 0 → c = (osMemFreeNodeGet p k).2
  used : UsedKept p N v N' {c}
  payload : ∀ i, 4*i + 12 < p.size a → v.mem (c + 12 + 4*i) = p.mem (a + 12 + 4*i)
  attr : v.attr = p.attr
  recorded : Recorded (countArea p x) v (v.size c)

/-- A pool q in which p has moved the block of the node a to the node c of k bytes; v is the pool before the
node a is released. -/
structure Moved (p v q : MemPool) (x : Option Area) (E : List Area) (N F N' F' : Set Nat) (L' : Nat → List Nat)
    (a c k : Nat) : Prop where
  inv : Inv q (remaining (E ++ x.toList) (handedBack v a)) N' F' ∅ ∅ L'
  copied : ∃ N₁ F₁ L₁, Copied p v x E N F N₁ F₁ L₁ a c k ∧ UsedKept v N₁ q N' {a}
  mem : c ∈ N'
  kept : q.sizeAndFlag c = v.sizeAndFlag c
  used : UsedKept p N q N' {a,c}
  gone : a ∈ N' → q.sizeAndFlag a < 2^31
  payload : ∀ i, 4*i + 12 < p.size a → q.mem (c + 12 + 4*i) = p.mem (a + 12 + 4*i)
  attr : q.attr = p.attr
  waterLine : q.waterLine = v.waterLine
  curUsedSize : q.curUsedSize = Word.sub v.curUsedSize (p.size a)

namespace Moved
variable {v : MemPool} {x : Option Area}

theorem size (h : Moved p v q x E N F N' F' L' a c k) : q.size c = v.size c := congrArg (· % 2^29) h.kept

theorem plain (h : Moved p v q x E N F N' F' L' a c k) : Plain q c := by
  obtain ⟨_,_,_,hc,-⟩ := h.copied
  exact hc.plain.congr h.kept

theorem new (h : Moved p v q x E N F N' F' L' a c k) : c ∈ N → p.sizeAndFlag c < 2^31 := by
  obtain ⟨_,_,_,hc,-⟩ := h.copied
  exact hc.new

theorem lt (h : Moved p v q x E N F N' F' L' a c k) (hk : k < 2^29 ∨ ∀ b ∈ F, p.size b < hugeBound k) : k < 2^29 := by
  obtain ⟨_,_,_,hc,-⟩ := h.copied
  by_contra hge
  obtain ⟨g1,g2⟩ := hc.huge (by omega)
  rcases hk with hk | hk
  · exact hge hk
  · have := hk c g1
    omega

theorem room (h : Moved p v q x E N F N' F' L' a c k) (hk : k < 2^29) : k ≤ q.size c := by
  obtain ⟨_,_,_,hc,-⟩ := h.copied
  rw [h.size]
  exact hc.room hk

end Moved

theorem UsedKept.insert {X Y : Set Nat} (h : UsedKept p N q N' X) (h' : UsedKept q N' p' F' Y) :
    UsedKept p N p' F' (Y ∪ X) :=
  (h.mono Set.subset_union_right).trans (h'.mono Set.subset_union_left)

namespace Inv

/-- The copy is not refused. -/
theorem copyNode (h : Inv p E N F ∅ ∅ L) (ha : a ∈ N) (hu : 2^31 ≤ p.sizeAndFlag a) {size : Nat}
    (hm : p.size a < allocSizeOf size)
    (hfit : 2^29 ≤ allocSizeOf size → ∀ c ∈ F, hugeBound (allocSizeOf size) ≤ p.size c → p.size a ≤ p.size c)
    {p₁ : MemPool} {N₁ F₁ : Set Nat} {L₁ : Nat → List Nat} (halloc : Tlsf.osMemAlloc p size = (p₁, c + 12))
    (hA : Allocated p p₁ (grownArea p (allocSizeOf size)) E N F N₁ F₁ L₁ c (allocSizeOf size)) :
    (memcpyS p₁ (c + 12) size (a + 12) (p.size a - 12)).2 = true ∧
      Copied p (copied p (a + 12) a size) (grownArea p (allocSizeOf size)) E N F N₁ F₁ L₁ a c (allocSizeOf size) := by
  have hba := h.bounds ha
  have hca : c ≠ a := by
    rintro rfl
    have := hA.new ha
    omega
  obtain ⟨ha₁,hsf₁,hw₁⟩ := hA.used.keep a ha (fun he => hca he.symm) hu
  have hbc := hA.inv.inside hA.mem
  have hap := hA.inv.nodes.tiling.apart hA.mem ha₁ hca
  have hsz₁ : p₁.size a = p.size a := by rw [MemPool.size, hsf₁, MemPool.size]
  -- the old payload fits into the new node even where the search returned a smaller one than asked for
  have hsmall : p.size a ≤ p₁.size c := by
    by_cases h29 : allocSizeOf size < 2^29
    · have := hA.room h29
      omega
    · obtain ⟨g1,g2,g3⟩ := hA.huge (by omega)
      rw [g3]
      exact hfit (by omega) c g1 g2
  have hcount : Word.sub (getSize (p.sizeAndFlag a)) OS_MEM_NODE_HEAD_SIZE = p.size a - 12 := by
    rw [Tlsf.getSize_eq, ← MemPool.size, OS_MEM_NODE_HEAD_SIZE, Word.sub_eq (by omega)]
  obtain ⟨v,hv⟩ : ∃ v : MemPool, v = { p₁ with mem := Tlsf.copyWords p₁.mem (c + 12) (a + 12) ((p.size a - 12)/4) } :=
    ⟨_,rfl⟩
  have hcpy : memcpyS p₁ (c + 12) size (a + 12) (p.size a - 12) = (v, true) := by
    rw [memcpyS, if_neg, hv]
    rw [allocSizeOf] at hm
    omega
  have hcopied : copied p (a + 12) a size = v := by simp only [copied, halloc, hcount, hcpy]
  have hplain := hA.plain
  obtain ⟨h₂,hs₂,hu₂⟩ := hA.inv.copyWords hA.mem (by rw [hplain]; omega) (a + 12) ((p.size a - 12)/4) (by omega)
  have hattr : v.attr = p₁.attr := by rw [hv]
  have huse : v.curUsedSize = p₁.curUsedSize := by rw [hv]
  have hwl : v.waterLine = p₁.waterLine := by rw [hv]
  have hat : ∀ i, 4*i + 12 < p.size a → v.mem (c + 12 + 4*i) = p₁.mem (a + 12 + 4*i) := by
    intro i hi
    rw [hv]
    exact copyWords_at (by omega)
  simp only [← hv] at h₂ hs₂ hu₂
  have hsf : v.sizeAndFlag c = p₁.sizeAndFlag c := hs₂ c hA.mem
  have hsz : v.size c = p₁.size c := congrArg (· % 2^29) hsf
  refine ⟨by rw [hcpy],?_⟩
  rw [hcopied]
  refine ⟨h₂,hA.mem,hplain.congr hsf,ha₁,(hs₂ a ha₁).trans hsf₁,hca,hA.new,?_,?_,?_,hA.found,hA.used.trans hu₂,?_,hattr.trans hA.attr,?_⟩
  · rw [hsz]
    exact hA.room
  · intro hge
    obtain ⟨g1,g2,-⟩ := hA.huge hge
    exact ⟨g1,g2⟩
  · rw [hsz]
    exact hsmall
  · intro i hi
    rw [hat i hi, hw₁ _ (by omega) (by omega)]
  · rw [hsz]
    exact ⟨huse.trans hA.recorded.curUsedSize,by rw [hwl, huse]; exact hA.recorded.waterLine⟩

end Inv

/-- The old node is released. -/
theorem Copied.release {v : MemPool} {x : Option Area} {N₁ F₁ : Set Nat} {L₁ : Nat → List Nat}
    (h : Copied p v x E N F N₁ F₁ L₁ a c k) (hu : 2^31 ≤ p.sizeAndFlag a) {lf : Nat → Bool}
    (hlf : ∀ y ∈ E ++ x.toList, handedBack v a = some y.node → lf y.node = true) :
    ∃ q N' F' L', Tlsf.osMemFree lf v a = (q, LOS_OK) ∧ Moved p v q x E N F N' F' L' a c k := by
  have hba := h.inv.inside h.old
  have hbc := h.inv.inside h.mem
  have hsa : v.size a = p.size a := congrArg (· % 2^29) h.kept
  obtain ⟨q,N₂,F₂,L₂,hfree,hF⟩ := h.inv.osMemFree h.old (by rw [h.kept]; exact hu) hlf
  have hplain := h.plain
  obtain ⟨hc₂,hsf₂,hw₂⟩ := hF.used.keep c h.mem h.ne (by rw [hplain]; omega)
  have hfits := h.fits
  refine ⟨q,N₂,F₂,L₂,hfree,hF.inv,⟨N₁,F₁,L₁,h,hF.used⟩,hc₂,hsf₂,?_,hF.gone,?_,hF.attr.trans h.attr,hF.waterLine,?_⟩
  · exact (h.used.insert hF.used).mono (by
      rintro b (hb | hb)
      · exact .inl hb
      · exact .inr hb)
  · intro i hi
    rw [hw₂ _ (by omega) (by omega), h.payload i hi]
  · rw [hF.curUsedSize, hsa]

namespace Inv

/-- OsMemRealloc resizes the block in place, or fails without effect on the pool, or moves the block. -/
theorem osMemRealloc (h : Inv p E N F ∅ ∅ L) (ha : a ∈ N) (hu : 2^31 ≤ p.sizeAndFlag a) {size : Nat} (h8 : 8 ≤ size)
    (hs : size < 2^30) {lf : Nat → Bool}
    (hlf : Moves p a (allocSizeOf size) ∧ ¬NoRoom p (allocSizeOf size) → ∀ y ∈ E ++ (grownArea p (allocSizeOf size)).toList,
      handedBack (copied p (a + 12) a size) a = some y.node → lf y.node = true)
    (hx : Moves p a (allocSizeOf size) → ∀ x, grownArea p (allocSizeOf size) = some x → x.Fresh p E)
    (hfit : Moves p a (allocSizeOf size) → 2^29 ≤ allocSizeOf size → ∀ c ∈ F, hugeBound (allocSizeOf size) ≤ p.size c →
      p.size a ≤ p.size c) (he : Tlsf.osMemRealloc lf p (a + 12) a size = (q, r)) :
    (¬Moves p a (allocSizeOf size) ∧ r = a + 12 ∧ ∃ N' F' L', Resized p q E N N' F' L' a (allocSizeOf size) ∧
      (allocSizeOf size ≤ p.size a → q.waterLine = p.waterLine ∧
        ((q.size a = allocSizeOf size ∧ q.curUsedSize = Word.sub p.curUsedSize (p.size a - allocSizeOf size)) ∨
          (q.size a = p.size a ∧ q.curUsedSize = p.curUsedSize)))) ∨
    (Moves p a (allocSizeOf size) ∧ NoRoom p (allocSizeOf size) ∧ r = 0 ∧
      ∃ pages, q = { p with pages := pages }) ∨
    (Moves p a (allocSizeOf size) ∧ ¬NoRoom p (allocSizeOf size) ∧ ∃ c N' F' L', r = c + 12 ∧
      Moved p (copied p (a + 12) a size) q (grownArea p (allocSizeOf size)) E N F N' F' L' a c (allocSizeOf size)) := by
  have hk : 20 ≤ allocSizeOf size ∧ allocSizeOf size%4 = 0 ∧ allocSizeOf size < 2^31 := by
    rw [allocSizeOf]
    omega
  have hsize : getSize (p.sizeAndFlag a) = p.size a := Tlsf.getSize_eq _
  have hla := h.size_lt ha
  have hba := h.inside ha
  have hmoves : Moves p a (allocSizeOf size) ↔ ¬allocSizeOf size ≤ p.size a ∧
      ¬(getUsedFlag (p.sizeAndFlag (a + p.size a)) = 0 ∧
        allocSizeOf size ≤ Word.add (p.sizeAndFlag (a + p.size a)) (p.size a)) := by
    rw [Moves, hsize, h.nextNode_eq ha]
  simp only [Tlsf.osMemRealloc, allocSize_eq (show size < 2^31 by omega), hsize, h.nextNode_eq ha] at he
  by_cases hle : allocSizeOf size ≤ p.size a
  · rw [if_pos hle] at he
    obtain ⟨rfl,rfl⟩ := Prod.mk.inj he
    obtain ⟨N',F',L',h1,h2⟩ := h.reAllocSmaller ha hu hk.1 hk.2.1 hle
    exact .inl ⟨fun hm => (hmoves.mp hm).1 hle,rfl,N',F',L',h1,fun _ => h2⟩
  rw [if_neg hle] at he
  by_cases hc : getUsedFlag (p.sizeAndFlag (a + p.size a)) = 0 ∧
      allocSizeOf size ≤ Word.add (p.sizeAndFlag (a + p.size a)) (p.size a)
  · rw [if_pos hc] at he
    have hb : a + p.size a ∈ N := by
      rcases h.nodes.tiling.next a ha with ⟨e,hm,hend⟩ | hm
      · exact absurd hc.1 (hend ▸ h.used_end hm)
      · exact hm
    have hbf := (h.used_zero_iff hb).mp hc.1
    have hlb := h.size_lt hb
    obtain ⟨rfl,rfl⟩ := Prod.mk.inj he
    have hsum := hc.2
    rw [h.free_eq hb hbf, Word.add_eq (by omega)] at hsum
    obtain ⟨N',F',L',h1⟩ := h.mergeNodeForReAllocBigger ha hu hk.1 hk.2.1 hb hbf (by omega)
    exact .inl ⟨fun hm => (hmoves.mp hm).2 hc,rfl,N',F',L',h1,fun hle' => absurd hle' hle⟩
  rw [if_neg hc] at he
  have hmv := hmoves.mpr ⟨hle,hc⟩
  rcases halloc : Tlsf.osMemAlloc p size with ⟨p₁,tmp⟩
  simp only [halloc] at he
  rcases h.osMemAlloc h8 hs (hx hmv) halloc with ⟨hn,rfl,hq⟩ | ⟨hn,c,N₁,F₁,L₁,rfl,hA⟩
  · rw [if_pos rfl] at he
    obtain ⟨rfl,rfl⟩ := Prod.mk.inj he
    exact .inr (.inl ⟨hmv,hn,rfl,hq⟩)
  · rw [if_neg (by omega)] at he
    obtain ⟨hok,hC⟩ := h.copyNode ha hu (by omega) (hfit hmv) halloc hA
    obtain ⟨q',N₃,F₃,L₃,hfree,hM⟩ := hC.release hu (hlf ⟨hmv,hn⟩)
    have hcount : Word.sub (p.size a) OS_MEM_NODE_HEAD_SIZE = p.size a - 12 :=
      Word.sub_eq (by simp only [OS_MEM_NODE_HEAD_SIZE]; omega)
    have hcopied : copied p (a + 12) a size = (memcpyS p₁ (c + 12) size (a + 12) (p.size a - 12)).1 := by
      simp only [copied, halloc, hsize, hcount]
    rw [hcount, if_pos hok, ← hcopied, hfree] at he
    obtain ⟨rfl,rfl⟩ := Prod.mk.inj he
    exact .inr (.inr ⟨hmv,hn,c,N₃,F₃,L₃,rfl,hM⟩)

end Inv

end LiteOsKernel.Mem.Tlsf
