import LiteOsKernel.Mem.TlsfInvariant

/-! Insertion into, removal from and search of the free lists keep the pool invariant. -/
namespace LiteOsKernel.Mem.Tlsf
open LiteOsKernel Links Lib

variable {p p' : MemPool} {E : List Area} {N F D U : Set Nat} {L : Nat → List Nat} {a b i : Nat}

@[simp] theorem bitSet_setWord (p : MemPool) (x v j : Nat) : bitSet (p.setWord x v) j = bitSet p j := rfl

private theorem index_split (i : Nat) : i >>> 5 = i/32 ∧ i &&& 0x1F = i%32 :=
  ⟨Nat.shiftRight_eq_div_pow i 5,Nat.and_two_pow_sub_one_eq_mod i 5⟩

private theorem bitSet_setFreeListBit (p : MemPool) (i j : Nat) :
    bitSet (osMemSetFreeListBit p i) j = (bitSet p j || decide (j = i)) := by
  obtain ⟨h1,h2⟩ := index_split i
  simp only [bitSet, osMemSetFreeListBit, h1, h2, Function.update_apply]
  split
  case isTrue hw =>
    rw [Word.testBit_setBit, hw]
    congr 1
    rw [decide_eq_decide]
    omega
  case isFalse hw =>
    have : j ≠ i := fun he => hw (by rw [he])
    simp [this]

private theorem bitSet_clearFreeListBit (hb : ∀ w, p.freeListBitmap w < 2^32) (i j : Nat) :
    bitSet (osMemClearFreeListBit p i) j = (bitSet p j && decide (j ≠ i)) := by
  obtain ⟨h1,h2⟩ := index_split i
  simp only [bitSet, osMemClearFreeListBit, h1, h2, Function.update_apply]
  split
  case isTrue hw =>
    rw [Word.testBit_clearBit (Nat.mod_lt _ (by norm_num)) (hb _), hw]
    congr 1
    rw [decide_eq_decide]
    omega
  case isFalse hw =>
    have : j ≠ i := fun he => hw (by rw [he])
    simp [this]

-- Removal

/-- The words, heads and bits that OsMemListDelete leaves when the node stands between l₁ and l₂. -/
structure Deleted (p p' : MemPool) (i a : Nat) (l₁ l₂ : List Nat) : Prop where
  mem : ∀ x, p'.mem x = if x = a then OS_MEM_NODE_MAGIC
    else if l₂ ≠ [] ∧ x = l₂.headD 0 + 12 then p.prev a
    else if l₁ ≠ [] ∧ x = l₁.getLastD 0 + 16 then p.next a else p.mem x
  freeList : ∀ j, p'.freeList j = if j = i ∧ l₁ = [] then l₂.headD 0 else p.freeList j
  bit : ∀ j, bitSet p' j = (bitSet p j && !decide (j = i ∧ l₁ = [] ∧ l₂ = []))
  word_lt : ∀ w, p'.freeListBitmap w < 2^32
  pool : p'.pool = p.pool
  totalSize : p'.totalSize = p.totalSize
  panic : p'.panic = p.panic

private theorem clear_word_lt (h : ∀ w, p.freeListBitmap w < 2^32) (i w : Nat) :
    (osMemClearFreeListBit p i).freeListBitmap w < 2^32 := by
  simp only [osMemClearFreeListBit, Function.update_apply]
  split
  · exact Word.clearBit_lt _ (h _)
  · exact h w

private theorem headD_ne_zero {l : List Nat} (h : ∀ b ∈ l, b ≠ 0) : l.headD 0 = 0 ↔ l = [] := by
  cases l with
  | nil => simp
  | cons c t => simp [h c (by simp)]

/-- The two branches of OsMemListDelete do the same up to the list position of the node. -/
private theorem listDelete_deleted {l₁ l₂ : List Nat} (hw : ∀ w, p.freeListBitmap w < 2^32)
    (hl : Linked p.prev p.next (l₁ ++ a :: l₂)) (hd : (l₁ ++ a :: l₂).Nodup)
    (h0 : ∀ b ∈ l₁ ++ a :: l₂, b ≠ 0) (hh : p.freeList i = (l₁ ++ a :: l₂).headD 0)
    (hs : ∀ b ∈ l₁ ++ a :: l₂, b ≠ a → a + 20 ≤ b ∨ b + 20 ≤ a) :
    Deleted p (osMemListDelete p i a) i a l₁ l₂ := by
  obtain ⟨hp,hn⟩ := hl l₁ a l₂ rfl
  have hn0 : p.next a = 0 ↔ l₂ = [] := by
    rw [hn]
    exact headD_ne_zero fun b hb => h0 b (by simp [hb])
  cases l₁ with
  | nil =>
    have ha : a = p.freeList i := by simpa using hh.symm
    rw [osMemListDelete, if_pos ha]
    cases l₂ with
    | nil =>
      have hz : (setFreeList p i (p.next a)).next a = 0 := hn0.mpr rfl
      simp only [hz, if_true]
      refine ⟨?_,?_,?_,clear_word_lt hw i,rfl,rfl,rfl⟩
      · intro x
        simp [MemPool.setMagic, osMemClearFreeListBit, setFreeList]
      · intro j
        simp [MemPool.setMagic, osMemClearFreeListBit, setFreeList, Function.update_apply, hn]
      · intro j
        simp only [MemPool.setMagic, bitSet_setWord]
        rw [bitSet_clearFreeListBit (p := setFreeList p i (p.next a)) hw]
        simp [bitSet, setFreeList]
    | cons c t =>
      have hz : (setFreeList p i (p.next a)).next a ≠ 0 := fun hc => by simpa using hn0.mp hc
      have hc : p.next a = c := by simpa using hn
      simp only [hz, if_false]
      refine ⟨?_,?_,?_,hw,rfl,rfl,rfl⟩
      · intro x
        have hne : (setFreeList p i (p.next a)).next a = c := hc
        simp only [MemPool.setMagic, MemPool.setPrev, hne]
        have hpa : p.prev a = 0 := by simpa using hp
        simp [hpa, setFreeList]
      · intro j
        simp [MemPool.setMagic, MemPool.setPrev, setFreeList, Function.update_apply, hc]
      · intro j
        simp [MemPool.setMagic, MemPool.setPrev, bitSet, setFreeList]
  | cons c t =>
    have hne : a ≠ p.freeList i := by
      rw [hh]
      rintro rfl
      simp at hd
    rw [osMemListDelete, if_neg hne]
    have hpa : p.prev a ∈ c :: t := by
      rw [hp, List.getLastD_eq_getLast?, List.getLast?_eq_some_getLast (by simp)]
      exact List.getLast_mem _
    have hpne : p.prev a ≠ a := by
      intro he
      rw [he] at hpa
      exact (List.nodup_append.mp hd).2.2 a hpa a (by simp) rfl
    have hsp := hs _ (List.mem_append_left _ hpa) hpne
    have e1 : (p.setNext (p.prev a) (p.next a)).next a = p.next a := by
      simp only [MemPool.next, MemPool.setNext, MemPool.mem_setWord]
      rw [if_neg (by omega)]
    have e2 : (p.setNext (p.prev a) (p.next a)).prev a = p.prev a := by
      simp only [MemPool.prev, MemPool.setNext, MemPool.mem_setWord] at hsp ⊢
      rw [if_neg (by omega)]
    simp only [e1, e2]
    cases l₂ with
    | nil =>
      have hz : p.next a = 0 := hn0.mpr rfl
      simp only [hz, ne_eq, not_true_eq_false, if_false]
      refine ⟨?_,?_,?_,hw,rfl,rfl,rfl⟩
      · intro x
        simp only [MemPool.setMagic, MemPool.setNext, MemPool.mem_setWord, hz, hp]
        simp
      · intro j
        simp [MemPool.setMagic, MemPool.setNext]
      · intro j
        simp [MemPool.setMagic, MemPool.setNext]
    | cons d u =>
      have hz : p.next a ≠ 0 := fun hc => by simpa using hn0.mp hc
      have hdn : p.next a = d := by simpa using hn
      simp only [ne_eq, hz, not_false_eq_true, if_true]
      refine ⟨?_,?_,?_,hw,rfl,rfl,rfl⟩
      · intro x
        simp only [MemPool.setMagic, MemPool.setNext, MemPool.setPrev, MemPool.mem_setWord, hdn, hp]
        simp
      · intro j
        simp [MemPool.setMagic, MemPool.setNext, MemPool.setPrev]
      · intro j
        simp [MemPool.setMagic, MemPool.setNext, MemPool.setPrev]

/-- A change of link fields and magic words of free nodes moves no node and no flag. -/
private theorem links_frame (h : Inv p E N F D U L)
    (hm : ∀ x, p'.mem x = p.mem x ∨ ∃ b ∈ N, p.sizeAndFlag b < 2^31 ∧ (x = b ∨ x = b + 12 ∨ x = b + 16))
    (hpool : p'.pool = p.pool) (htot : p'.totalSize = p.totalSize) (hpanic : p'.panic = p.panic) :
    Fixed p' E ∧ Nodes p' E N ∧ HeadsKept p p' N ∧ UsedKept p N p' N ∅ := by
  have hkeep : ∀ x, (∀ b ∈ N, p.sizeAndFlag b < 2^31 → x ≠ b ∧ x ≠ b + 12 ∧ x ≠ b + 16) →
      p'.mem x = p.mem x := by
    intro x hx
    rcases hm x with h1 | ⟨b,hb,hf,h1⟩
    · exact h1
    · have := hx b hb hf
      omega
  have hhead : ∀ a ∈ N, p'.sizeAndFlag a = p.sizeAndFlag a ∧ p'.ptr a = p.ptr a := by
    intro a ha
    constructor
    all_goals
      apply hkeep
      intro b hb _
      by_cases hab : a = b
      · omega
      · have := h.spaced ha hb hab
        omega
  have htop : ∀ e ∈ extents p E, ∀ k < 12, p'.mem (e.last + k) = p.mem (e.last + k) := by
    intro e he k hk
    apply hkeep
    intro b hb _
    have h1 := h.inside hb
    refine ⟨?_,?_,?_⟩ <;> intro heq
    · have := h.off_sentinel hb (x := b) le_rfl (by omega) he
      omega
    · have := h.off_sentinel hb (x := b + 12) (by omega) (by omega) he
      omega
    · have := h.off_sentinel hb (x := b + 16) (by omega) (by omega) he
      omega
  refine ⟨h.fixed.congr hpool htot hpanic htop,⟨?_,?_,?_⟩,
    ⟨hpool,htot,fun a ha => (hhead a ha).1,fun a ha => (hhead a ha).2⟩,?_,?_⟩
  · rw [extents_congr hpool htot]
    exact h.nodes.tiling.congr (fun a ha => by rw [MemPool.size, (hhead a ha).1, MemPool.size])
      (fun a ha => (hhead a ha).2)
  · intro a ha
    rw [MemPool.size, (hhead a ha).1]
    exact h.nodes.mod a ha
  · intro a ha
    rw [MemPool.size, (hhead a ha).1]
    exact h.nodes.flags a ha
  · intro b hb _ hu
    refine ⟨hb,(hhead b hb).1,?_⟩
    intro x hl hr
    apply hkeep
    intro c hc hcf
    have hbc : b ≠ c := by
      rintro rfl
      omega
    have h1 := h.inside hc
    rcases h.nodes.tiling.apart hb hc hbc with h3 | h3 <;> omega
  · intro b hb _ hu
    exact ⟨hb,(hhead b hb).1 ▸ hu⟩

/-- Nodes that leave room for a free node's head and links. -/
def Spaced (S : Set Nat) : Prop := ∀ a ∈ S, ∀ b ∈ S, a ≠ b → a + 20 ≤ b ∨ b + 20 ≤ a

private theorem head?_eq_some_iff (l : List Nat) (b : Nat) : l.head? = some b ↔ l ≠ [] ∧ b = l.headD 0 := by
  cases l with
  | nil => simp
  | cons c t => simpa using eq_comm

private theorem getLast?_eq_some_iff (l : List Nat) (b : Nat) :
    l.getLast? = some b ↔ l ≠ [] ∧ b = l.getLastD 0 := by
  rcases List.eq_nil_or_concat l with rfl | ⟨t,c,rfl⟩
  · simp
  · simpa using eq_comm

namespace Deleted
variable {l₁ l₂ : List Nat}

private theorem head_mem (h : l₂ ≠ []) : l₂.headD 0 ∈ l₁ ++ a :: l₂ := by
  have h1 : l₂.headD 0 ∈ l₂ := List.mem_of_mem_head? ((head?_eq_some_iff l₂ _).mpr ⟨h,rfl⟩)
  exact List.mem_append_right _ (List.mem_cons_of_mem _ h1)

private theorem last_mem (h : l₁ ≠ []) : l₁.getLastD 0 ∈ l₁ ++ a :: l₂ := by
  have h1 : l₁.getLastD 0 ∈ l₁ := List.mem_of_getLast? ((getLast?_eq_some_iff l₁ _).mpr ⟨h,rfl⟩)
  exact List.mem_append_left _ h1

theorem changed (h : Deleted p p' i a l₁ l₂) (x : Nat) : p'.mem x = p.mem x ∨ x = a ∨
    ∃ b ∈ l₁ ++ a :: l₂, x = b + 12 ∨ x = b + 16 := by
  rw [h.mem]
  split
  case isTrue hx => exact .inr (.inl hx)
  case isFalse =>
    split
    case isTrue hx => exact .inr (.inr ⟨_,head_mem hx.1,.inl hx.2⟩)
    case isFalse =>
      split
      case isTrue hx => exact .inr (.inr ⟨_,last_mem hx.1,.inr hx.2⟩)
      case isFalse => exact .inl rfl

private theorem mem_eq (h : Deleted p p' i a l₁ l₂) (hF : ∀ b ∈ l₁ ++ a :: l₂, b ∈ F) (hs : Spaced F) (hb : b ∈ F)
    {k : Nat} (hk : k = 4 ∨ k = 8) : p'.mem (b + k) = p.mem (b + k) := by
  rcases h.changed (b + k) with h1 | h1 | ⟨c,hc,h1⟩
  · exact h1
  · by_cases hab : a = b
    · omega
    · have := hs a (hF a (by simp)) b hb hab
      omega
  · by_cases hcb : c = b
    · omega
    · have := hs c (hF c hc) b hb hcb
      omega

private theorem prev_eq (h : Deleted p p' i a l₁ l₂) (hF : ∀ b ∈ l₁ ++ a :: l₂, b ∈ F) (hs : Spaced F) (hb : b ∈ F)
    (hba : b ≠ a) : p'.prev b = if l₂.head? = some b then p.prev a else p.prev b := by
  have h1 := hs b hb a (hF a (by simp)) hba
  rw [MemPool.prev, h.mem, if_neg (by omega)]
  simp only [Nat.add_right_cancel_iff, head?_eq_some_iff]
  split
  case isTrue => rfl
  case isFalse =>
    rw [if_neg]
    · rfl
    · rintro ⟨h2,h3⟩
      have := hs b hb _ (hF _ (last_mem h2)) (by omega)
      omega

theorem next_eq (h : Deleted p p' i a l₁ l₂) (hF : ∀ b ∈ l₁ ++ a :: l₂, b ∈ F) (hs : Spaced F) (hb : b ∈ F)
    (hba : b ≠ a) : p'.next b = if l₁.getLast? = some b then p.next a else p.next b := by
  have h1 := hs b hb a (hF a (by simp)) hba
  rw [MemPool.next, h.mem, if_neg (by omega), if_neg]
  · simp only [Nat.add_right_cancel_iff, getLast?_eq_some_iff]
    rfl
  · rintro ⟨h2,h3⟩
    have := hs b hb _ (hF _ (head_mem h2)) (by omega)
    omega

end Deleted

private theorem Lists.sizeAndFlag_congr (h : ∀ b ∈ F, p'.sizeAndFlag b = p.sizeAndFlag b) (j b : Nat) :
    (b ∈ F ∧ osMemFreeListIndexGet (p'.sizeAndFlag b) = j) ↔
      b ∈ F ∧ osMemFreeListIndexGet (p.sizeAndFlag b) = j := by
  constructor
  · rintro ⟨hb,he⟩
    exact ⟨hb,h b hb ▸ he⟩
  · rintro ⟨hb,he⟩
    exact ⟨hb,(h b hb).symm ▸ he⟩

/-- Removal of a member: the list of its class loses exactly this node. -/
theorem Lists.listDelete (h : Lists p F L) (hs : Spaced F) (h0 : 0 ∉ F) (ha : a ∈ L i)
    (hi : i < OS_MEM_FREE_LIST_COUNT) : ∃ l₁ l₂ L', L i = l₁ ++ a :: l₂ ∧
      Deleted p (osMemListDelete p i a) i a l₁ l₂ ∧ Lists (osMemListDelete p i a) (F \ {a}) L' := by
  obtain ⟨l₁,l₂,hl⟩ := List.append_of_mem ha
  have hF : ∀ b ∈ l₁ ++ a :: l₂, b ∈ F := fun b hb => ((h.mem_iff i b).mp (hl ▸ hb)).1
  have hnd : (l₁ ++ a :: l₂).Nodup := hl ▸ h.nodup i
  have hlk : Linked p.prev p.next (l₁ ++ a :: l₂) := hl ▸ h.linked i
  have hdel : Deleted p (osMemListDelete p i a) i a l₁ l₂ := by
    apply listDelete_deleted h.word_lt hlk hnd
    · exact fun b hb he => h0 (he ▸ hF b hb)
    · exact hl ▸ h.head i hi
    · exact fun b hb hne => hs a (hF a (by simp)) b (hF b hb) hne.symm
  have hsf : ∀ b ∈ F, (osMemListDelete p i a).sizeAndFlag b = p.sizeAndFlag b :=
    fun b hb => hdel.mem_eq hF hs hb (.inr rfl)
  have hmem : ∀ b, b ∈ l₁ ++ l₂ ↔ b ∈ L i ∧ b ≠ a := by
    intro b
    have h1 : a ∉ l₁ := fun hm => (List.nodup_append.mp hnd).2.2 a hm a (by simp) rfl
    have h2 : a ∉ l₂ := (List.nodup_cons.mp (List.nodup_append.mp hnd).2.1).1
    rw [hl]
    by_cases hba : b = a
    · subst hba
      simp [h1, h2]
    · simp [hba]
  have hLF : ∀ j, ∀ b ∈ L j, b ∈ F := fun j b hb => ((h.mem_iff j b).mp hb).1
  have hout : ∀ j, j ≠ i → ∀ b ∈ L j, b ≠ a ∧ b ∉ l₁ ++ l₂ := by
    intro j hj b hb
    have hnot : b ∉ L i := fun hm => hj (((h.mem_iff j b).mp hb).2.symm.trans ((h.mem_iff i b).mp hm).2)
    exact ⟨fun he => hnot (he ▸ ha),fun hm => hnot ((hmem b).mp hm).1⟩
  refine ⟨l₁,l₂,Function.update L i (l₁ ++ l₂),hl,hdel,?_,?_,?_,?_,?_,hdel.word_lt⟩
  · intro j b
    rw [Function.update_apply, Set.mem_sdiff, and_right_comm, Lists.sizeAndFlag_congr hsf, ← h.mem_iff]
    split
    case isTrue hj =>
      subst hj
      exact hmem b
    case isFalse hj => exact ⟨fun hb => ⟨hb,(hout j hj b hb).1⟩,And.left⟩
  · intro j
    rw [Function.update_apply]
    split
    · exact hnd.sublist (List.Sublist.append_left (List.sublist_cons_self a l₂) l₁)
    · exact h.nodup j
  · intro j
    rw [Function.update_apply]
    split
    · apply hlk.remove hnd
      · intro b hb
        exact hdel.prev_eq hF hs (hLF i b ((hmem b).mp hb).1) ((hmem b).mp hb).2
      · intro b hb
        exact hdel.next_eq hF hs (hLF i b ((hmem b).mp hb).1) ((hmem b).mp hb).2
    case isFalse hj =>
      apply (h.linked j).congr
      · intro b hb
        obtain ⟨h1,h2⟩ := hout j hj b hb
        rw [hdel.prev_eq hF hs (hLF j b hb) h1, if_neg]
        exact fun hc => h2 (List.mem_append_right _ (List.mem_of_mem_head? hc))
      · intro b hb
        obtain ⟨h1,h2⟩ := hout j hj b hb
        rw [hdel.next_eq hF hs (hLF j b hb) h1, if_neg]
        exact fun hc => h2 (List.mem_append_left _ (List.mem_of_getLast? hc))
  · intro j hj
    rw [hdel.freeList, Function.update_apply]
    by_cases hji : j = i
    · subst hji
      have hh := h.head j hj
      rw [hl] at hh
      cases l₁ with
      | nil => simp
      | cons c t => simpa using hh
    · simp only [hji, false_and, if_false]
      exact h.head j hj
  · intro j hj
    rw [hdel.bit, Function.update_apply]
    have hb := h.bit j hj
    by_cases hji : j = i
    · subst hji
      rw [hl] at hb
      simp only [if_true, hb.mpr (by simp), true_and, Bool.true_and, Bool.not_eq_true', decide_eq_false_iff_not]
      cases l₁ <;> simp
    · simp only [hji, false_and, decide_false, Bool.not_false, Bool.and_true, if_false]
      exact hb

theorem Inv.spaced_free (h : Inv p E N F D U L) : Spaced F :=
  fun a ha b hb hab => h.spaced (h.sub a ha).1 (h.sub b hb).1 hab

theorem Inv.zero_not_free (h : Inv p E N F D U L) : 0 ∉ F := by
  intro hm
  have h1 := h.inside (h.sub 0 hm).1
  omega

/-- Taking a linked node off its list. -/
theorem Inv.listDelete (h : Inv p E N F D U L) (ha : a ∈ F) (hi : osMemFreeListIndexGet (p.sizeAndFlag a) = i) :
    ∃ L', Inv (osMemListDelete p i a) E N (F \ {a}) (insert a D) (U \ {a}) L' ∧
      HeadsKept p (osMemListDelete p i a) N ∧ UsedKept p N (osMemListDelete p i a) N ∅ := by
  obtain ⟨haN,haf⟩ := h.sub a ha
  have hi207 : i < 207 := hi ▸ h.index_lt_of_free haN haf
  have haL : a ∈ L i := (h.lists.mem_iff i a).mpr ⟨ha,hi⟩
  obtain ⟨l₁,l₂,L',hl,hdel,hlists⟩ := h.lists.listDelete h.spaced_free h.zero_not_free haL
    (by simp only [OS_MEM_FREE_LIST_COUNT]; omega)
  have hF : ∀ b ∈ l₁ ++ a :: l₂, b ∈ F := fun b hb => ((h.lists.mem_iff i b).mp (hl ▸ hb)).1
  obtain ⟨hfix,hnodes,hheads,hused⟩ := @links_frame p (osMemListDelete p i a) E N F D U L h (by
    intro x
    rcases hdel.changed x with h1 | h1 | ⟨b,hb,h1⟩
    · exact .inl h1
    · exact .inr ⟨a,haN,haf,.inl h1⟩
    · exact .inr ⟨b,(h.sub b (hF b hb)).1,(h.sub b (hF b hb)).2,.inr h1⟩)
    hdel.pool hdel.totalSize hdel.panic
  refine ⟨L',⟨hfix,hnodes,hlists,?_,?_,?_,?_,?_⟩,hheads,hused⟩
  · rintro b ⟨hb,-⟩
    rw [hheads.sizeAndFlag b (h.sub b hb).1]
    exact h.sub b hb
  · intro b hb hf
    rw [hheads.sizeAndFlag b hb] at hf
    rcases h.full b hb hf with h1 | h1
    · by_cases hba : b = a
      · exact .inr (.inl hba)
      · exact .inl ⟨h1,hba⟩
    · exact .inr (.inr h1)
  · rintro b (rfl | hb) ⟨hbF,hba⟩
    · exact hba rfl
    · exact h.apart b hb hbF
  · rintro b ⟨hb,-⟩ ⟨hn,-⟩
    rw [MemPool.size, hheads.sizeAndFlag b (h.sub b hb).1] at hn
    exact h.coalesced b hb hn
  · intro b hb hbU
    by_cases hba : b = a
    · rw [hba, hdel.mem, if_pos rfl]
    · rcases hdel.changed b with h1 | h1 | ⟨c,hc,h1⟩
      · rw [h1]
        exact h.magic b hb fun hm => hbU ⟨hm,hba⟩
      · exact absurd h1 hba
      · have := h.spaced hb (h.sub c (hF c hc)).1 (by omega)
        omega

theorem Inv.freeNodeDelete (h : Inv p E N F D U L) (ha : a ∈ F) :
    ∃ L', Inv (osMemFreeNodeDelete p a) E N (F \ {a}) (insert a D) (U \ {a}) L' ∧
      HeadsKept p (osMemFreeNodeDelete p a) N ∧ UsedKept p N (osMemFreeNodeDelete p a) N ∅ := by
  have hi := h.index_lt_of_free (h.sub a ha).1 (h.sub a ha).2
  rw [osMemFreeNodeDelete, if_neg (by simp only [OS_MEM_FREE_LIST_COUNT]; omega)]
  exact h.listDelete ha rfl

/-- The words that taking a node off its list may change. -/
theorem Inv.freeNodeDelete_mem (h : Inv p E N F D U L) (ha : a ∈ F) (x : Nat) :
    (osMemFreeNodeDelete p a).mem x = p.mem x ∨ x = a ∨ ∃ b ∈ F, x = b + 12 ∨ x = b + 16 := by
  have hi := h.index_lt_of_free (h.sub a ha).1 (h.sub a ha).2
  rw [osMemFreeNodeDelete, if_neg (by simp only [OS_MEM_FREE_LIST_COUNT]; omega)]
  obtain ⟨l₁,l₂,L',hl,hdel,-⟩ := h.lists.listDelete h.spaced_free h.zero_not_free (h.mem_list ha)
    (by simp only [OS_MEM_FREE_LIST_COUNT]; omega)
  rcases hdel.changed x with h1 | h1 | ⟨b,hb,h1⟩
  · exact .inl h1
  · exact .inr (.inl h1)
  · exact .inr (.inr ⟨b,((h.lists.mem_iff _ b).mp (hl ▸ hb)).1,h1⟩)

theorem sameHead_listDelete (p : MemPool) (i a : Nat) : SameHead p (osMemListDelete p i a) := by
  simp only [osMemListDelete]
  split_ifs <;> exact ⟨rfl,rfl,rfl,rfl,rfl,rfl⟩

theorem sameHead_freeNodeDelete (p : MemPool) (a : Nat) : SameHead p (osMemFreeNodeDelete p a) := by
  rw [osMemFreeNodeDelete]
  split
  · exact ⟨rfl,rfl,rfl,rfl,rfl,rfl⟩
  · exact sameHead_listDelete p _ a

-- Insertion

private theorem sameHead_setFreeList (p : MemPool) (i a : Nat) : SameHead p (setFreeList p i a) := ⟨rfl,rfl,rfl,rfl,rfl,rfl⟩

private theorem sameHead_setFreeListBit (p : MemPool) (i : Nat) : SameHead p (osMemSetFreeListBit p i) := ⟨rfl,rfl,rfl,rfl,rfl,rfl⟩

theorem sameHead_listAdd (p : MemPool) (i a : Nat) : SameHead p (osMemListAdd p i a) := by
  have hlink (q : MemPool) (f : Nat) : SameHead q ((q.setPrev a 0).setNext a f) :=
    (sameHead_setWord q _ _).trans (sameHead_setWord _ _ _)
  have hbit (q : MemPool) : SameHead q ((osMemSetFreeListBit (setFreeList q i a) i).setMagic a OS_MEM_NODE_MAGIC) :=
    ((sameHead_setFreeList q i a).trans (sameHead_setFreeListBit _ i)).trans (sameHead_setWord _ _ _)
  simp only [osMemListAdd]
  refine SameHead.trans ?_ (hbit _)
  refine SameHead.trans ?_ (hlink _ _)
  split
  · exact sameHead_setWord _ _ _
  · exact SameHead.refl p

theorem sameHead_freeNodeAdd (p : MemPool) (a : Nat) : SameHead p (osMemFreeNodeAdd p a) := by
  rw [osMemFreeNodeAdd]
  split
  · exact ⟨rfl,rfl,rfl,rfl,rfl,rfl⟩
  · exact sameHead_listAdd p _ a

theorem listAdd_mem (p : MemPool) (i a x : Nat) : (osMemListAdd p i a).mem x =
    if x = a then OS_MEM_NODE_MAGIC else if x = a + 16 then p.freeList i else if x = a + 12 then 0
    else if p.freeList i ≠ 0 ∧ x = p.freeList i + 12 then a else p.mem x := by
  simp only [osMemListAdd, MemPool.setMagic, MemPool.mem_setWord, osMemSetFreeListBit, setFreeList,
    MemPool.setNext, MemPool.setPrev]
  by_cases hf : p.freeList i = 0 <;> simp [hf]

theorem listAdd_fields (p : MemPool) (i a : Nat) : (osMemListAdd p i a).pool = p.pool ∧
    (osMemListAdd p i a).totalSize = p.totalSize ∧ (osMemListAdd p i a).panic = p.panic ∧
    ∀ j, (osMemListAdd p i a).freeList j = if j = i then a else p.freeList j := by
  simp only [osMemListAdd, MemPool.setMagic, osMemSetFreeListBit, setFreeList, MemPool.setNext, MemPool.setPrev]
  by_cases hf : p.freeList i = 0 <;> simp [hf, Function.update_apply]

private theorem listAdd_bit (p : MemPool) (i a j : Nat) :
    bitSet (osMemListAdd p i a) j = (bitSet p j || decide (j = i)) := by
  simp only [osMemListAdd, MemPool.setMagic, bitSet_setWord, bitSet_setFreeListBit]
  by_cases hf : p.freeList i = 0 <;> simp [hf, bitSet, setFreeList, MemPool.setNext, MemPool.setPrev]

private theorem listAdd_word_lt (h : ∀ w, p.freeListBitmap w < 2^32) (i a w : Nat) :
    (osMemListAdd p i a).freeListBitmap w < 2^32 := by
  have h32 : i &&& 0x1F < 32 := lt_of_le_of_lt Nat.and_le_right (by norm_num)
  simp only [osMemListAdd, MemPool.setMagic, osMemSetFreeListBit, setFreeList, MemPool.setNext, MemPool.setPrev,
    MemPool.freeListBitmap_setWord, Function.update_apply]
  by_cases hf : p.freeList i = 0
  all_goals
    simp only [hf, ne_eq, not_true_eq_false, not_false_eq_true, if_true, if_false, MemPool.freeListBitmap_setWord]
    split
    · exact Word.setBit_lt (h _) h32
    · exact h w

private theorem head_mem_of_ne {l : List Nat} (h : l.headD 0 ≠ 0) : l.headD 0 ∈ l := by
  cases l <;> simp_all

theorem listAdd_changed (h : Lists p F L) (hi : i < OS_MEM_FREE_LIST_COUNT) (x : Nat) :
    (osMemListAdd p i a).mem x = p.mem x ∨ x = a ∨ ∃ b ∈ insert a F, x = b + 12 ∨ x = b + 16 := by
  rw [listAdd_mem]
  split_ifs with h1 h2 h3 h4
  · exact .inr (.inl h1)
  · exact .inr (.inr ⟨a,.inl rfl,.inr h2⟩)
  · exact .inr (.inr ⟨a,.inl rfl,.inl h3⟩)
  · rw [h.head i hi] at h4
    exact .inr (.inr ⟨_,.inr ((h.mem_iff i _).mp (head_mem_of_ne h4.1)).1,.inl h4.2⟩)
  · exact .inl rfl

/-- The words that returning a node to its list may change. -/
theorem Inv.freeNodeAdd_mem (h : Inv p E N F D U L) (haN : a ∈ N) (haf : p.sizeAndFlag a < 2^31) (x : Nat) :
    (osMemFreeNodeAdd p a).mem x = p.mem x ∨ x = a ∨ ∃ b ∈ insert a F, x = b + 12 ∨ x = b + 16 := by
  have hi := h.index_lt_of_free haN haf
  rw [osMemFreeNodeAdd, if_neg (by simp only [OS_MEM_FREE_LIST_COUNT]; omega)]
  exact listAdd_changed h.lists (by simp only [OS_MEM_FREE_LIST_COUNT]; omega) x

/-- Insertion at the head: the list of the class gains exactly this node. -/
theorem Lists.listAdd (h : Lists p F L) (hs : Spaced (insert a F)) (h0 : 0 ∉ F) (ha : a ∉ F)
    (hi : i < OS_MEM_FREE_LIST_COUNT) (hai : osMemFreeListIndexGet (p.sizeAndFlag a) = i) :
    Lists (osMemListAdd p i a) (insert a F) (Function.update L i (a :: L i)) := by
  have hLF : ∀ j, ∀ b ∈ L j, b ∈ F := fun j b hb => ((h.mem_iff j b).mp hb).1
  have hab : ∀ b ∈ F, a + 20 ≤ b ∨ b + 20 ≤ a := by
    intro b hb
    exact hs a (.inl rfl) b (.inr hb) (fun he => ha (he ▸ hb))
  have hhead : p.freeList i ≠ 0 → p.freeList i ∈ F := by
    rw [h.head i hi]
    exact fun hne => hLF i _ (head_mem_of_ne hne)
  have hsf : ∀ b ∈ insert a F, (osMemListAdd p i a).sizeAndFlag b = p.sizeAndFlag b := by
    intro b hb
    rcases listAdd_changed (a := a) h hi (b + 8) with h1 | h1 | ⟨c,hc,h1⟩
    · exact h1
    · by_cases he : a = b
      · omega
      · have := hs a (.inl rfl) b hb he
        omega
    · by_cases he : c = b
      · omega
      · have := hs c hc b hb he
        omega
  have hprev : ∀ b ∈ F, (osMemListAdd p i a).prev b = if b = p.freeList i then a else p.prev b := by
    intro b hb
    have h1 := hab b hb
    have hb0 : b ≠ 0 := fun he => h0 (he ▸ hb)
    rw [MemPool.prev, listAdd_mem, if_neg (by omega), if_neg (by omega), if_neg (by omega)]
    by_cases he : b = p.freeList i
    · rw [if_pos ⟨by omega,by omega⟩, if_pos he]
    · rw [if_neg (by omega), if_neg he]
      rfl
  have hnext : ∀ b ∈ F, (osMemListAdd p i a).next b = p.next b := by
    intro b hb
    have h1 := hab b hb
    rw [MemPool.next, listAdd_mem, if_neg (by omega), if_neg (by omega), if_neg (by omega), if_neg]
    · rfl
    · rintro ⟨h2,h3⟩
      have := hs b (.inr hb) _ (.inr (hhead h2)) (by omega)
      omega
  have haL : ∀ j, a ∉ L j := fun j hm => ha (hLF j a hm)
  refine ⟨?_,?_,?_,?_,?_,listAdd_word_lt h.word_lt i a⟩
  · intro j b
    rw [Function.update_apply, Lists.sizeAndFlag_congr hsf]
    by_cases hba : b = a
    · subst hba
      by_cases hj : j = i
      · simp [hj, hai]
      · simp [hj, haL j, hai, Ne.symm hj]
    · have h1 := h.mem_iff j b
      split
      case isTrue hj => simpa [hba, ← hj] using h1
      case isFalse hj => simpa [hba] using h1
  · intro j
    rw [Function.update_apply]
    split
    · exact List.nodup_cons.mpr ⟨haL i,h.nodup i⟩
    · exact h.nodup j
  · intro j
    rw [Function.update_apply]
    split
    · apply (h.linked i).push
      · rw [MemPool.prev, listAdd_mem, if_neg (by omega), if_neg (by omega), if_pos rfl]
      · rw [MemPool.next, listAdd_mem, if_neg (by omega), if_pos rfl, h.head i hi]
      · intro b hb hne
        rw [hprev b (hLF i b hb), h.head i hi, if_neg hne]
      · intro b t hl
        rw [hprev b (hLF i b (by simp [hl])), h.head i hi, hl]
        simp
      · exact h.nodup i
      · exact fun b hb => hnext b (hLF i b hb)
    case isFalse hj =>
      apply (h.linked j).congr
      · intro b hb
        rw [hprev b (hLF j b hb), if_neg]
        intro he
        have hb0 : p.freeList i ≠ 0 := fun hz => h0 (hz ▸ he ▸ hLF j b hb)
        rw [h.head i hi] at he hb0
        have hbi : b ∈ L i := he ▸ head_mem_of_ne hb0
        exact hj (((h.mem_iff j b).mp hb).2.symm.trans ((h.mem_iff i b).mp hbi).2)
      · exact fun b hb => hnext b (hLF j b hb)
  · intro j hj
    rw [(listAdd_fields p i a).2.2.2, Function.update_apply]
    split
    · simp
    · exact h.head j hj
  · intro j hj
    rw [listAdd_bit, Function.update_apply]
    have hb := h.bit j hj
    by_cases hji : j = i
    · simp [hji]
    · simpa [hji] using hb

/-- Returning a free node to its list; its neighbours must not be in a list. -/
theorem Inv.freeNodeAdd (h : Inv p E N F D U L) (haN : a ∈ N) (haf : p.sizeAndFlag a < 2^31) (ha : a ∉ F)
    (hnext : a + p.size a ∉ F) (hpred : ∀ b ∈ F, b + p.size b ≠ a) :
    ∃ L', Inv (osMemFreeNodeAdd p a) E N (insert a F) (D \ {a}) (U \ {a}) L' ∧
      HeadsKept p (osMemFreeNodeAdd p a) N ∧ UsedKept p N (osMemFreeNodeAdd p a) N ∅ := by
  have hi := h.index_lt_of_free haN haf
  rw [osMemFreeNodeAdd, if_neg (by simp only [OS_MEM_FREE_LIST_COUNT]; omega)]
  have hi' : osMemFreeListIndexGet (p.sizeAndFlag a) < OS_MEM_FREE_LIST_COUNT := by
    simp only [OS_MEM_FREE_LIST_COUNT]
    omega
  have hsub : ∀ b ∈ insert a F, b ∈ N ∧ p.sizeAndFlag b < 2^31 := by
    rintro b (rfl | hb)
    · exact ⟨haN,haf⟩
    · exact h.sub b hb
  have hs : Spaced (insert a F) := fun b hb c hc hbc => h.spaced (hsub b hb).1 (hsub c hc).1 hbc
  have hlists := h.lists.listAdd hs h.zero_not_free ha hi' rfl
  set i := osMemFreeListIndexGet (p.sizeAndFlag a)
  obtain ⟨h1,h2,h3,-⟩ := listAdd_fields p i a
  have hch := listAdd_changed (a := a) h.lists hi'
  obtain ⟨hfix,hnodes,hheads,hused⟩ := @links_frame p (osMemListAdd p i a) E N F D U L h (by
    intro x
    rcases hch x with h5 | h5 | ⟨b,hb,h5⟩
    · exact .inl h5
    · exact .inr ⟨a,haN,haf,.inl h5⟩
    · exact .inr ⟨b,(hsub b hb).1,(hsub b hb).2,.inr h5⟩) h1 h2 h3
  have hsize : ∀ b ∈ N, (osMemListAdd p i a).size b = p.size b :=
    fun b hb => by rw [MemPool.size, hheads.sizeAndFlag b hb, MemPool.size]
  refine ⟨_,⟨hfix,hnodes,hlists,?_,?_,?_,?_,?_⟩,hheads,hused⟩
  · intro b hb
    rw [hheads.sizeAndFlag b (hsub b hb).1]
    exact hsub b hb
  · intro b hb hf
    rw [hheads.sizeAndFlag b hb] at hf
    by_cases hba : b = a
    · exact .inl (.inl hba)
    · exact (h.full b hb hf).imp .inr fun hd => ⟨hd,hba⟩
  · rintro b ⟨hb,hba⟩ (hm | hm)
    · exact hba hm
    · exact h.apart b hb hm
  · intro b hb hm
    rw [hsize b (hsub b hb).1] at hm
    have hmin := (h.inside (hsub b hb).1).2.1
    rcases hb with rfl | hb
    · rcases hm with hm | hm
      · omega
      · exact hnext hm
    · rcases hm with hm | hm
      · exact hpred b hb hm
      · exact h.coalesced b hb hm
  · intro b hb hbU
    by_cases hba : b = a
    · rw [hba, listAdd_mem, if_pos rfl]
    · rcases hch b with h5 | h5 | ⟨c,hc,h5⟩
      · rw [h5]
        exact h.magic b hb fun hm => hbU ⟨hm,hba⟩
      · exact absurd h5 hba
      · have := h.spaced hb (hsub c hc).1 (by omega)
        omega

end LiteOsKernel.Mem.Tlsf
