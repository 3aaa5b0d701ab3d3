import LiteOsKernel.Mem.TlsfOps
import Mathlib.Data.List.Nodup
import Mathlib.Data.List.Perm.Subperm

/-! The free-list search: it finds a node of a suitable size class or one in the request's own
list, and NULL only when there is none. -/
namespace LiteOsKernel.Mem.Tlsf
open LiteOsKernel Links Lib

variable {p : MemPool} {E : List Area} {N F D U : Set Nat} {L : Nat → List Nat} {a b r i : Nat}

/-- The free lists and the bitmap, with free nodes of any size that do not overlap. -/
structure FreeLists (p : MemPool) (F : Set Nat) (L : Nat → List Nat) : Prop where
  lists : Lists p F L
  node : ∀ a ∈ F, a ≠ 0 ∧ a + 20 ≤ 2^32
  size : ∀ a ∈ F, 4 ≤ p.sizeAndFlag a ∧ p.sizeAndFlag a < 2^32
  spaced : Spaced F

theorem Inv.free_lt (h : Inv p E N F D U L) (ha : a ∈ F) : p.sizeAndFlag a < 2^29 := by
  rw [h.free_eq (h.sub a ha).1 (h.sub a ha).2]
  exact Nat.mod_lt _ (by norm_num)

theorem Inv.freeLists (h : Inv p E N F D U L) : FreeLists p F L := by
  refine ⟨h.lists,?_,?_,h.spaced_free⟩
  · intro a ha
    have := h.inside (h.sub a ha).1
    omega
  · intro a ha
    have h1 := h.inside (h.sub a ha).1
    have h2 := h.size_lt (h.sub a ha).1
    rw [h.free_eq (h.sub a ha).1 (h.sub a ha).2]
    omega

/-- The size from which a free node is taken for a request of 2^29 bytes or more. -/
def hugeBound (r : Nat) : Nat := (9 + (r - 2^29)/2^26)*2^25

theorem searchStart_le_iff {s : Nat} (h4 : 4 ≤ s) (hs : s < 2^29) (hr : 2^29 ≤ r) (hr' : r < 2^30 + 2^26) :
    (searchStart r).1 ≤ osMemFreeListIndexGet s ↔ hugeBound r ≤ s := by
  rw [searchStart_huge hr hr', hugeBound]
  rcases Nat.lt_or_ge s 128 with h128 | h128
  · rw [index_small h4 h128]
    omega
  · obtain ⟨k,h7,h28,hk,hk',he⟩ := index_bounds h128 hs
    rw [he]
    rcases Nat.lt_or_eq_of_le h28 with h27 | rfl
    · have h1 : 8*s/2^k < 16 := by
        rw [Nat.div_lt_iff_lt_mul (Nat.two_pow_pos k)]
        rw [pow_succ] at hk'
        omega
      have h2 : 2^(k+1) ≤ 2^28 := Nat.pow_le_pow_right (by norm_num) (by omega)
      omega
    · omega

theorem searchStart_le {s : Nat} (hs : s < 2^29) (hr : 20 ≤ r) (hr4 : r%4 = 0) (hr' : r < 2^29) (h4 : 4 ≤ s)
    (hi : (searchStart r).1 ≤ osMemFreeListIndexGet s) : r ≤ s := by
  rcases Nat.lt_or_ge r 128 with h128 | h128
  · rw [searchStart_small (by omega) h128] at hi
    rcases Nat.lt_or_ge s 128 with hs128 | hs128
    · rw [index_small h4 hs128] at hi
      simp only at hi
      omega
    · omega
  · rw [searchStart_large h128 hr'] at hi
    by_contra hc
    have := index_mono h4 (show s ≤ r by omega) hr'
    simp only at hi
    omega

/-- A node that is large enough has a class the search looks at, or the request's own class. -/
theorem searchStart_complete {s : Nat} (hs : s < 2^29) (hr : 20 ≤ r) (hrs : r ≤ s) :
    (searchStart r).1 ≤ osMemFreeListIndexGet s ∨ osMemFreeListIndexGet s = (searchStart r).2 := by
  rcases Nat.lt_or_ge r 128 with h128 | h128
  · rw [searchStart_small (by omega) h128]
    have h1 := index_mono (by omega) hrs hs
    rw [index_small (by omega) h128] at h1
    exact .inl h1
  · rw [searchStart_large h128 (by omega)]
    have h1 := index_mono (by omega) hrs hs
    simp only
    omega

/-- A node of 2^29 bytes or more is large enough for each request that looks at its class from the start on. -/
theorem searchStart_wrapped {s : Nat} (hs : 2^29 ≤ s) (hs' : s < 2^32) (hr' : r < 2^30 + 2^26)
    (hi : (searchStart r).1 ≤ osMemFreeListIndexGet s) : r ≤ s := by
  rcases Nat.lt_or_ge r (2^29) with h29 | h29
  · omega
  · rw [searchStart_huge h29 hr'] at hi
    rcases index_wrapped hs hs' with ⟨h1,h2⟩ | ⟨h1,-,-,h2⟩
    · omega
    · by_contra hc
      have := h2 (by omega)
      omega

/-- A request below 2^29 bytes looks at the class of a node of 2^29 bytes or more only if it is not too low. -/
theorem searchStart_wrapped_iff {s : Nat} (hs : 2^29 ≤ s) (hs' : s < 2^32) (hr : 20 ≤ r) (hr' : r < 2^29) :
    ((searchStart r).1 ≤ osMemFreeListIndexGet s ∨ osMemFreeListIndexGet s = (searchStart r).2) ↔
      (r - 2^28)/2^25 ≤ (s - 2^29)/2^26 := by
  have hi := index_wrapped hs hs'
  rcases Nat.lt_or_ge r 128 with h128 | h128
  · rw [searchStart_small (by omega) h128]
    omega
  · rw [searchStart_large h128 hr']
    rcases Nat.lt_or_ge r (2^28) with h28 | h28
    · have := index_mono (by omega) h28.le (show 2^28 < 2^29 by norm_num)
      have := index_large (show 2^28 ≤ 2^28 by norm_num) (by norm_num) (by norm_num) (by norm_num)
      simp only
      omega
    · have := index_large h28 hr' (by norm_num) (by norm_num)
      simp only
      omega

/-- A request of 2^29 bytes or more looks at the class of each node that is large enough. -/
theorem searchStart_complete_huge {s : Nat} (hs' : s < 2^32) (hr : 2^29 ≤ r) (hr' : r < 2^30 + 2^26) (hrs : r ≤ s) :
    (searchStart r).1 ≤ osMemFreeListIndexGet s ∨ osMemFreeListIndexGet s = (searchStart r).2 := by
  rw [searchStart_huge hr hr']
  rcases index_wrapped (by omega) hs' with ⟨h1,h2⟩ | ⟨h1,h2,-⟩
  · simp only
    omega
  · simp only
    omega

private theorem losAlign_32 {x : Nat} (h : x < 2^31) : losAlign x 32 = (x+31)/32*32 :=
  losAlign_two_pow (k := 5) (by decide) (by decide) (by omega)

private theorem findCurFrom_spec (size fuel : Nat) : ∀ l₁ l₂, Linked p.prev p.next (l₁ ++ l₂) →
    findCurFrom p size fuel (l₂.headD 0) ≠ 0 → findCurFrom p size fuel (l₂.headD 0) ∈ l₂ ∧
      size ≤ p.sizeAndFlag (findCurFrom p size fuel (l₂.headD 0)) := by
  induction fuel with
  | zero => intro l₁ l₂ _ h; exact absurd rfl h
  | succ fuel ih =>
    intro l₁ l₂ hl h
    cases l₂ with
    | nil => simp [findCurFrom] at h
    | cons c t =>
      have hn : p.next c = t.headD 0 := (hl l₁ c t rfl).2
      rw [List.headD_cons, findCurFrom, hn] at h ⊢
      by_cases h0 : c = 0
      · simp [h0] at h
      rw [if_neg h0] at h ⊢
      by_cases hs : size ≤ p.sizeAndFlag c
      · rw [if_pos hs]
        exact ⟨List.mem_cons_self,hs⟩
      · rw [if_neg hs] at h ⊢
        obtain ⟨h1,h2⟩ := ih (l₁ ++ [c]) t (by simpa using hl) h
        exact ⟨List.mem_cons_of_mem _ h1,h2⟩

private theorem findCurFrom_none (size fuel : Nat) : ∀ l₁ l₂, Linked p.prev p.next (l₁ ++ l₂) → (∀ b ∈ l₂, b ≠ 0) →
    l₂.length ≤ fuel → findCurFrom p size fuel (l₂.headD 0) = 0 → ∀ b ∈ l₂, p.sizeAndFlag b < size := by
  induction fuel with
  | zero =>
    intro l₁ l₂ _ _ hf _ b hb
    rw [List.length_eq_zero_iff.mp (Nat.le_zero.mp hf)] at hb
    cases hb
  | succ fuel ih =>
    intro l₁ l₂ hl h0 hf h b hb
    cases l₂ with
    | nil => cases hb
    | cons c t =>
      have hn : p.next c = t.headD 0 := (hl l₁ c t rfl).2
      have hc : c ≠ 0 := h0 c List.mem_cons_self
      rw [List.headD_cons, findCurFrom, hn, if_neg hc] at h
      split at h
      case isTrue => exact absurd h hc
      case isFalse hs =>
        rcases List.mem_cons.mp hb with rfl | hb
        · omega
        · rw [List.length_cons] at hf
          exact ih (l₁ ++ [c]) t (by simpa using hl) (fun d hd => h0 d (List.mem_cons_of_mem _ hd)) (by omega) h b hb

namespace FreeLists

/-- Nodes 20 bytes apart below 2^32 are too few to use up the fuel of the list search. -/
theorem length_le (h : FreeLists p F L) (i : Nat) : (L i).length ≤ 2^28 := by
  have hF : ∀ b ∈ L i, b ∈ F := fun b hb => ((h.lists.mem_iff i b).mp hb).1
  have hnd : ((L i).map (· / 20)).Nodup := by
    apply List.Nodup.map_on ?_ (h.lists.nodup i)
    intro b hb c hc he
    by_contra hne
    have := h.spaced b (hF b hb) c (hF c hc) hne
    omega
  have hsub : (L i).map (· / 20) ⊆ List.range (2^28) := by
    intro x hx
    obtain ⟨b,hb,rfl⟩ := List.mem_map.mp hx
    have := h.node b (hF b hb)
    rw [List.mem_range]
    omega
  have hlen := (hnd.subperm hsub).length_le
  rwa [List.length_map, List.length_range] at hlen

private theorem findCur_spec (h : FreeLists p F L) {size : Nat} (hi : i < 223) (hn : osMemFindCurSuitableBlock p i size ≠ 0) :
    osMemFindCurSuitableBlock p i size ∈ L i ∧ size ≤ p.sizeAndFlag (osMemFindCurSuitableBlock p i size) := by
  unfold osMemFindCurSuitableBlock at hn ⊢
  rw [h.lists.head i hi] at hn ⊢
  generalize listFuel = fuel at hn ⊢
  exact findCurFrom_spec size fuel [] (L i) (h.lists.linked i) hn

private theorem findCur_none (h : FreeLists p F L) {size : Nat} (hi : i < 223) (hn : osMemFindCurSuitableBlock p i size = 0) :
    ∀ b ∈ L i, p.sizeAndFlag b < size := by
  unfold osMemFindCurSuitableBlock at hn
  rw [h.lists.head i hi] at hn
  have hfuel : (L i).length ≤ listFuel := by
    rw [listFuel]
    exact h.length_le i
  exact findCurFrom_none size listFuel [] (L i) (h.lists.linked i)
    (fun b hb => (h.node b ((h.lists.mem_iff i b).mp hb).1).1) hfuel hn

theorem index_lt (h : FreeLists p F L) (ha : a ∈ F) : osMemFreeListIndexGet (p.sizeAndFlag a) < 217 :=
  index_lt_word (h.size a ha).1 (h.size a ha).2

private theorem nil_of_bit (h : FreeLists p F L) (hi : i < 224) (hbit : bitSet p i = false) : L i = [] := by
  by_contra hne
  cases hbit.symm.trans ((h.lists.bit i hi).mpr hne)

private theorem head_of_bit (h : FreeLists p F L) (hi : i < 224) (hbit : bitSet p i = true) : (L i).head? = some (p.freeList i) := by
  have hne := (h.lists.bit i hi).mp hbit
  rcases hl : L i with _ | ⟨c,t⟩
  · exact absurd hl hne
  · have hlt := h.index_lt ((h.lists.mem_iff i c).mp (hl ▸ List.mem_cons_self)).1
    rw [((h.lists.mem_iff i c).mp (hl ▸ List.mem_cons_self)).2] at hlt
    rw [h.lists.head i (by simp only [OS_MEM_FREE_LIST_COUNT]; omega), hl, List.headD_cons, List.head?_cons]

theorem mem_of_head (h : FreeLists p F L) (ha : (L i).head? = some a) : a ∈ F ∧ osMemFreeListIndexGet (p.sizeAndFlag a) = i :=
  (h.lists.mem_iff i a).mp (List.mem_of_mem_head? (Option.mem_def.mpr ha))

private theorem bit_of_mem (h : FreeLists p F L) (ha : a ∈ F) : bitSet p (osMemFreeListIndexGet (p.sizeAndFlag a)) = true := by
  have hlt := h.index_lt ha
  rw [h.lists.bit _ (by omega)]
  exact List.ne_nil_of_mem ((h.lists.mem_iff _ a).mpr ⟨ha,rfl⟩)

/-- OsMemFindNextSuitableBlock returns the first node of the first list from the start index on that is not empty. Where there
is none, it returns a node of the request's own class that is large enough, or NULL when that list has none. -/
theorem findNextSuitableBlock (h : FreeLists p F L) (hr : 20 ≤ r) (hr' : r < 2^30 + 2^26)
    (hfind : osMemFindNextSuitableBlock p r = (a, i)) :
    ((searchStart r).1 ≤ i ∧ (L i).head? = some a ∧ ∀ j, (searchStart r).1 ≤ j → j < i → L j = []) ∨
      (∀ b ∈ F, osMemFreeListIndexGet (p.sizeAndFlag b) < (searchStart r).1) ∧
        ((a ∈ F ∧ osMemFreeListIndexGet (p.sizeAndFlag a) = i ∧ i = (searchStart r).2 ∧ r ≤ p.sizeAndFlag a) ∨
          a = 0 ∧ ∀ b ∈ F, osMemFreeListIndexGet (p.sizeAndFlag b) = (searchStart r).2 → p.sizeAndFlag b < r) := by
  obtain ⟨hs1,hs2⟩ := searchStart_bounds (by omega) hr'
  rw [osMemFindNextSuitableBlock] at hfind
  rcases hst : searchStart r with ⟨index,curIndex⟩
  rw [hst] at hs1 hs2 hfind
  simp only at hs1 hs2 hfind ⊢
  have hfound : ∀ j, index ≤ j → j < 224 → bitSet p j = true → (∀ k, index ≤ k → k < j → bitSet p k = false) →
      (p.freeList j, j) = (a, i) → index ≤ i ∧ (L i).head? = some a ∧ ∀ k, index ≤ k → k < i → L k = [] := by
    intro j h1 h2 h3 h4 he
    obtain ⟨rfl,rfl⟩ := Prod.mk.inj he
    exact ⟨h1,h.head_of_bit h2 h3,fun k hk hkj => h.nil_of_bit (by omega) (h4 k hk hkj)⟩
  split at hfind
  case isTrue ht =>
    obtain ⟨h1,h2,h3,h4⟩ := notEmptyIndex_spec h.lists.word_lt hs1 ht
    exact .inl (hfound _ h1 h2 h3 h4 hfind)
  case isFalse ht =>
    rw [losAlign_32 (by omega)] at hfind
    split at hfind
    case h_1 j hj =>
      obtain ⟨h1,h2,h3,h4⟩ := findNextFrom_spec h.lists.word_lt 8 (by omega) hj
      refine .inl (hfound j (by omega) h2 h3 (fun k hk hkj => ?_) hfind)
      rcases Nat.lt_or_ge k ((index + 1 + 31)/32*32) with hlt | hge
      · exact notEmptyIndex_none h.lists.word_lt hs1 (not_not.mp ht) hk (by omega) (by omega)
      · exact h4 k hge hkj
    case h_2 hj =>
      -- the bitmap has no bit from the start index on
      have hnone : ∀ b ∈ F, osMemFreeListIndexGet (p.sizeAndFlag b) < index := by
        intro b hb
        by_contra hge
        have hlt := h.index_lt hb
        have hbit := h.bit_of_mem hb
        have hoff : bitSet p (osMemFreeListIndexGet (p.sizeAndFlag b)) = false := by
          by_cases hw : osMemFreeListIndexGet (p.sizeAndFlag b)/32 = index/32
          · exact notEmptyIndex_none h.lists.word_lt hs1 (not_not.mp ht) (by omega) (by omega) hw
          · exact findNextFrom_none 8 (by omega) (by omega) hj (by omega) (by omega)
        rw [hbit] at hoff
        cases hoff
      refine .inr ⟨hnone,?_⟩
      split at hfind
      case isTrue hc =>
        obtain ⟨rfl,rfl⟩ := Prod.mk.inj hfind
        refine .inr ⟨rfl,fun b hb he => ?_⟩
        have hlt := h.index_lt hb
        rw [he, hc, OS_MEM_FREE_LIST_COUNT] at hlt
        omega
      case isFalse hc =>
        obtain ⟨rfl,rfl⟩ := Prod.mk.inj hfind
        have hcur : curIndex < 223 := hs2.resolve_left hc
        by_cases h0 : osMemFindCurSuitableBlock p curIndex r = 0
        · exact .inr ⟨h0,fun b hb he => h.findCur_none hcur h0 b ((h.lists.mem_iff _ b).mpr ⟨hb,he⟩)⟩
        · obtain ⟨h1,h2⟩ := h.findCur_spec hcur h0
          obtain ⟨h3,h4⟩ := (h.lists.mem_iff _ _).mp h1
          exact .inl ⟨h3,h4,rfl,h2⟩

/-- What the search promises about the node it returns for a request of r bytes. -/
theorem find_sound (h : FreeLists p F L) (hr : 20 ≤ r) (hr4 : r%4 = 0) (hr' : r < 2^30 + 2^26)
    (hfind : osMemFindNextSuitableBlock p r = (a, i)) (ha : a ≠ 0) : a ∈ F ∧ osMemFreeListIndexGet (p.sizeAndFlag a) = i ∧
      (r < 2^29 → r ≤ p.sizeAndFlag a) ∧ (2^29 ≤ r → hugeBound r ≤ p.sizeAndFlag a) := by
  rcases h.findNextSuitableBlock hr hr' hfind with ⟨hst,hhead,-⟩ | ⟨-,⟨h1,h2,-,h3⟩ | ⟨h1,-⟩⟩
  · obtain ⟨h1,rfl⟩ := h.mem_of_head hhead
    obtain ⟨h4,h32⟩ := h.size a h1
    refine ⟨h1,rfl,fun h29 => ?_,fun h29 => ?_⟩ <;> rcases Nat.lt_or_ge (p.sizeAndFlag a) (2^29) with hlt | hge
    · exact searchStart_le hlt hr hr4 h29 h4 hst
    · omega
    · exact (searchStart_le_iff h4 hlt h29 hr').mp hst
    · have := searchStart_wrapped hge h32 hr' hst
      rw [hugeBound]
      omega
  · refine ⟨h1,h2,fun _ => h3,fun h29 => ?_⟩
    rw [hugeBound]
    omega
  · exact absurd h1 ha

theorem find_complete (h : FreeLists p F L) (hr : 20 ≤ r) (ha : a ∈ F) (hle : r ≤ p.sizeAndFlag a) (h29 : p.sizeAndFlag a < 2^29) :
    (osMemFindNextSuitableBlock p r).1 ≠ 0 := by
  rcases hfind : osMemFindNextSuitableBlock p r with ⟨b,i⟩
  rcases h.findNextSuitableBlock hr (by omega) hfind with ⟨-,h2,-⟩ | ⟨h2,⟨h3,-⟩ | ⟨-,h3⟩⟩
  · exact (h.node b (h.mem_of_head h2).1).1
  · exact (h.node b h3).1
  · rcases searchStart_complete h29 hr hle with h5 | h5
    · have := h2 a ha
      omega
    · have := h3 a ha h5
      omega

end FreeLists

/-- The nodes from a list position on. -/
inductive OnList (p : MemPool) : Nat → Nat → Prop
  | here {a : Nat} (h : a ≠ 0) : OnList p a a
  | next {a b : Nat} (h : a ≠ 0) (hb : OnList p (p.next a) b) : OnList p a b

/-- The node is linked in some free list. -/
def Listed (p : MemPool) (a : Nat) : Prop := ∃ i < OS_MEM_FREE_LIST_COUNT, OnList p (p.freeList i) a

private theorem onList_mem {f b : Nat} (h : OnList p f b) : ∀ l₁ l₂, f = l₂.headD 0 → Linked p.prev p.next (l₁ ++ l₂) → b ∈ l₂ := by
  induction h with
  | here h0 =>
    intro l₁ l₂ hf _
    cases l₂ with
    | nil => exact absurd hf h0
    | cons c t => exact hf ▸ List.mem_cons_self
  | next h0 _ ih =>
    intro l₁ l₂ hf hl
    cases l₂ with
    | nil => exact absurd hf h0
    | cons c t =>
      have hn : p.next c = t.headD 0 := (hl l₁ c t rfl).2
      exact List.mem_cons_of_mem _ (ih (l₁ ++ [c]) t (hf ▸ hn) (by simpa using hl))

private theorem mem_onList : ∀ l₁ l₂, Linked p.prev p.next (l₁ ++ l₂) → (∀ c ∈ l₂, c ≠ 0) → b ∈ l₂ → OnList p (l₂.headD 0) b
  | _, [], _, _, hb => absurd hb List.not_mem_nil
  | l₁, c :: t, hl, h0, hb => by
    have hn : p.next c = t.headD 0 := (hl l₁ c t rfl).2
    rcases List.mem_cons.mp hb with rfl | hb
    · exact .here (h0 _ List.mem_cons_self)
    · refine .next (h0 c List.mem_cons_self) ?_
      rw [List.headD_cons,hn]
      exact mem_onList (l₁ ++ [c]) t (by simpa using hl) (fun d hd => h0 d (List.mem_cons_of_mem _ hd)) hb

theorem Inv.listed_iff (h : Inv p E N F D U L) : Listed p a ↔ a ∈ F := by
  have hne : ∀ i, ∀ c ∈ L i, c ≠ 0 := fun i c hc => (h.freeLists.node c ((h.lists.mem_iff i c).mp hc).1).1
  constructor
  · rintro ⟨i,hi,hl⟩
    rw [h.lists.head i hi] at hl
    exact ((h.lists.mem_iff i a).mp (onList_mem hl [] (L i) rfl (h.lists.linked i))).1
  · intro ha
    have hlt := h.index_lt_of_free (h.sub a ha).1 (h.sub a ha).2
    refine ⟨osMemFreeListIndexGet (p.sizeAndFlag a),by simp only [OS_MEM_FREE_LIST_COUNT]; omega,?_⟩
    rw [h.lists.head _ (by simp only [OS_MEM_FREE_LIST_COUNT]; omega)]
    exact mem_onList [] _ (h.lists.linked _) (hne _) (h.mem_list ha)

end LiteOsKernel.Mem.Tlsf
