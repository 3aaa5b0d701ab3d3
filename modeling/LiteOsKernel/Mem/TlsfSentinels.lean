import LiteOsKernel.Mem.TlsfOps
import Mathlib.Data.List.Nodup
import Mathlib.Order.Interval.Finset.Nat
import Mathlib.Algebra.BigOperators.Group.List.Basic

/-! The walks along the sentinel chain compute what the list of areas says. -/
namespace LiteOsKernel.Mem.Tlsf
open LiteOsKernel Links Lib

variable {p p' : MemPool} {E E₁ E₂ : List Area} {N F D U : Set Nat} {L : Nat → List Nat} {a b s n : Nat} {x : Area}

/-- The last sentinel of the chain from s over the areas. -/
def chainEnd : Nat → List Area → Nat
  | s, [] => s
  | _, x :: E => chainEnd x.sentinel E

theorem chainEnd_mem (s : Nat) (E : List Area) : chainEnd s E = s ∨ ∃ x ∈ E, chainEnd s E = x.sentinel := by
  induction E generalizing s with
  | nil => exact .inl rfl
  | cons y E ih =>
    rcases ih y.sentinel with h | ⟨x,hx,h⟩
    · exact .inr ⟨y,List.mem_cons_self,h⟩
    · exact .inr ⟨x,List.mem_cons_of_mem _ hx,h⟩

theorem endNode_eq {start size : Nat} (h : start + size ≤ 2^32) (h12 : 12 ≤ start + size) :
    osMemEndNode start size = start + size - 12 := by
  rw [osMemEndNode, OS_MEM_NODE_HEAD_SIZE]
  rcases Nat.lt_or_eq_of_le h with hlt | heq
  · rw [Word.add_eq hlt, Word.sub_eq (by omega)]
  · rw [Word.add, heq, Nat.mod_self, Word.sub_eq_of_lt (by norm_num), Nat.zero_add]

theorem Area.Ok.endNode_eq (h : x.Ok p) : osMemEndNode x.node x.size = x.sentinel := by
  have h1 := h.top
  have h2 := h.size_pos
  have h3 := h.size_mod
  exact Tlsf.endNode_eq (by omega) (by omega)

theorem Inv.endNode_eq (h : Inv p E N F D U L) : osMemEndNode p.pool p.totalSize = endAddr p := by
  have h1 := h.fixed.top
  have h2 := h.fixed.total_ge
  simp only [sizeofPoolHead] at h2
  exact Tlsf.endNode_eq h1 (by omega)

namespace SentinelChain

theorem split : ∀ {E₁ : List Area} {s : Nat}, SentinelChain p s (E₁ ++ E₂) → SentinelChain p (chainEnd s E₁) E₂
  | [], _, h => h
  | y :: E, _, h => show SentinelChain p (chainEnd y.sentinel E) E₂ from split h.2.2.2

theorem not_last (h : SentinelChain p s (x :: E)) (hx : x.Ok p) : osMemIsLastSentinelNode p s = false := by
  obtain ⟨h1,h2,h3,-⟩ := h
  have hs := hx.size_pos
  have hl := hx.size_lt
  have hn := hx.node_pos
  have hu : getUsedFlag (p.sizeAndFlag s) ≠ 0 := by
    rw [h1, ne_eq, getUsedFlag_eq_zero (by omega)]
    omega
  have hz : getSize (p.sizeAndFlag s) = x.size := by
    rw [h1, getSize_eq]
    omega
  simp only [osMemIsLastSentinelNode, osMemSentinelNodeCheck, h2, h3, hz, bne_iff_ne, ne_eq, hu, not_false_eq_true,
    beq_self_eq_true, Bool.and_true, Bool.or_eq_false_iff, beq_eq_false_iff_ne, Bool.not_eq_false', true_and]
  exact ⟨by omega,by omega⟩

theorem last (h : SentinelChain p s []) : osMemIsLastSentinelNode p s = true := by
  simp [osMemIsLastSentinelNode, h.2.2]

theorem getSize_eq (h : SentinelChain p s (x :: E)) (hx : x.Ok p) : getSize (p.sizeAndFlag s) = x.size := by
  have hl := hx.size_lt
  rw [h.1, Tlsf.getSize_eq]
  omega

private theorem lastSentinelFrom_eq : ∀ {E : List Area} {s : Nat} (fuel node : Nat), SentinelChain p s E → (∀ x ∈ E, x.Ok p) →
    E.length < fuel → lastSentinelFrom p fuel node (p.ptr s) (getSize (p.sizeAndFlag s)) =
      if E = [] then node else chainEnd s E
  | _, _, 0, _, _, _, hf => absurd hf (Nat.not_lt_zero _)
  | [], s, fuel+1, node, h, _, _ => by
    rw [lastSentinelFrom, h.2.2, if_neg (fun hc => hc.1 rfl), if_pos rfl]
  | x :: E, s, fuel+1, node, h, hok, hf => by
    have hx := hok x List.mem_cons_self
    have hn := hx.node_pos
    have hs := hx.size_pos
    rw [lastSentinelFrom, h.getSize_eq hx, h.2.2.1, if_pos ⟨by omega,by omega⟩, hx.endNode_eq, if_neg (by simp)]
    rw [List.length_cons] at hf
    rw [lastSentinelFrom_eq fuel _ h.2.2.2 (fun y hy => hok y (List.mem_cons_of_mem _ hy)) (by omega)]
    cases E with
    | nil => rw [if_pos rfl]; rfl
    | cons y E => rw [if_neg (by simp)]; rfl

theorem preSentinelFrom_eq : ∀ {E₁ : List Area} {s : Nat} (fuel : Nat), SentinelChain p s (E₁ ++ x :: E₂) → s ≠ 0 →
    (∀ y ∈ E₁ ++ x :: E₂, y.Ok p) → (∀ y ∈ E₁, y.node ≠ x.node) → E₁.length < fuel →
      preSentinelFrom p x.node fuel s = chainEnd s E₁
  | _, _, 0, _, _, _, _, hf => absurd hf (Nat.not_lt_zero _)
  | [], s, fuel+1, h, h0, hok, _, _ => by
    have hx := hok x (by simp)
    rw [List.nil_append] at h
    rw [preSentinelFrom, h.not_last hx, if_neg (by simp [h0]), if_pos h.2.2.1]
    rfl
  | y :: E₁, s, fuel+1, h, h0, hok, hne, hf => by
    have hy := hok y (by simp)
    rw [List.cons_append] at h
    have hy0 : y.sentinel ≠ 0 := by
      have h1 := hy.node_pos
      have h2 := hy.size_mod
      have h3 := hy.size_pos
      rw [Area.sentinel]
      omega
    rw [preSentinelFrom, h.not_last hy, if_neg (by simp [h0]), h.2.2.1, if_neg (hne y (by simp)), h.getSize_eq hy,
      hy.endNode_eq]
    rw [List.length_cons] at hf
    exact preSentinelFrom_eq fuel h.2.2.2 hy0 (fun z hz => hok z (List.mem_cons_of_mem _ hz))
      (fun z hz => hne z (List.mem_cons_of_mem _ hz)) (by omega)

private theorem poolSizeFrom_eq : ∀ {E : List Area} {s : Nat} (fuel count : Nat), SentinelChain p s E → (∀ x ∈ E, x.Ok p) →
    E.length < fuel → count + (E.map Area.size).sum < 2^32 → poolSizeFrom p fuel s count = count + (E.map Area.size).sum
  | _, _, 0, _, _, _, hf, _ => absurd hf (Nat.not_lt_zero _)
  | [], s, fuel+1, count, h, _, _, _ => by
    rw [poolSizeFrom, h.last, if_pos rfl]
    rfl
  | x :: E, s, fuel+1, count, h, hok, hf, hlt => by
    have hx := hok x List.mem_cons_self
    rw [List.map_cons, List.sum_cons] at hlt ⊢
    have hadd : Word.add count x.size = count + x.size := Word.add_eq (by omega)
    simp only [poolSizeFrom, h.not_last hx, Bool.false_eq_true, if_false, h.getSize_eq hx, h.2.2.1, hx.endNode_eq, hadd]
    rw [List.length_cons] at hf
    rw [poolSizeFrom_eq fuel _ h.2.2.2 (fun y hy => hok y (List.mem_cons_of_mem _ hy)) (by omega) (by omega)]
    omega

private theorem addrValidFrom_iff : ∀ {E : List Area} {s : Nat} (fuel addr : Nat), SentinelChain p s E → (∀ x ∈ E, x.Ok p) →
    E.length < fuel → (addrValidFrom p addr fuel s = true ↔ ∃ x ∈ E, x.node ≤ addr ∧ addr < x.node + x.size)
  | _, _, 0, _, _, _, hf => absurd hf (Nat.not_lt_zero _)
  | [], s, fuel+1, addr, h, _, _ => by
    rw [addrValidFrom, h.last, if_pos rfl]
    simp
  | x :: E, s, fuel+1, addr, h, hok, hf => by
    have hx := hok x List.mem_cons_self
    have hadd : Word.add x.node x.size = x.node + x.size := Word.add_eq hx.top
    simp only [addrValidFrom, h.not_last hx, Bool.false_eq_true, if_false, h.getSize_eq hx, h.2.2.1, hx.endNode_eq, hadd]
    rw [List.length_cons] at hf
    have ih := addrValidFrom_iff fuel addr h.2.2.2 (fun y hy => hok y (List.mem_cons_of_mem _ hy)) (by omega)
    by_cases hc : x.node ≤ addr ∧ addr < x.node + x.size
    · rw [if_pos hc]
      exact ⟨fun _ => ⟨x,List.mem_cons_self,hc⟩,fun _ => rfl⟩
    · rw [if_neg hc, ih]
      simp [hc]

theorem checkUsedFrom_ok : ∀ {E : List Area} {s : Nat} (fuel first : Nat), SentinelChain p s E → (∀ x ∈ E, x.Ok p) →
    E.length < fuel → (memCheckUsedNode p a first s = true ∨ ∃ x ∈ E, memCheckUsedNode p a x.node x.sentinel = true) →
      checkUsedFrom p a fuel first s = LOS_OK
  | _, _, 0, _, _, _, hf, _ => absurd hf (Nat.not_lt_zero _)
  | [], s, fuel+1, first, h, _, _, hc => by
    rcases hc with hc | ⟨x,hx,-⟩
    · rw [checkUsedFrom, if_pos hc]
    · cases hx
  | x :: E, s, fuel+1, first, h, hok, hf, hc => by
    have hx := hok x List.mem_cons_self
    rw [checkUsedFrom]
    by_cases hnow : memCheckUsedNode p a first s = true
    · rw [if_pos hnow]
    · simp only [hnow, h.not_last hx, Bool.false_eq_true, if_false, h.getSize_eq hx, h.2.2.1, hx.endNode_eq]
      rw [List.length_cons] at hf
      apply checkUsedFrom_ok fuel x.node h.2.2.2 (fun y hy => hok y (List.mem_cons_of_mem _ hy)) (by omega)
      obtain ⟨y,hy,hcy⟩ := hc.resolve_left hnow
      rcases List.mem_cons.mp hy with rfl | hy
      · exact .inl hcy
      · exact .inr ⟨y,hy,hcy⟩

/-- The chain can be led on differently from one of its sentinels. -/
theorem rewire {T : List Area} : ∀ {E₁ : List Area} {s : Nat}, SentinelChain p s (E₁ ++ E₂) → (s :: E₁.map Area.sentinel).Nodup →
    (∀ y, (y = s ∨ ∃ z ∈ E₁, y = z.sentinel) → y ≠ chainEnd s E₁ → ∀ k < 12, p'.mem (y + k) = p.mem (y + k)) →
    SentinelChain p' (chainEnd s E₁) T → SentinelChain p' s (E₁ ++ T)
  | [], _, _, _, _, h' => h'
  | z :: E₁, s, h, hnd, hsame, h' => by
    obtain ⟨hs,hnd⟩ := List.nodup_cons.mp hnd
    have hne : s ≠ chainEnd s (z :: E₁) := by
      intro he
      apply hs
      rcases chainEnd_mem z.sentinel E₁ with h1 | ⟨y,hy,h1⟩
      · exact List.mem_map.mpr ⟨z,List.mem_cons_self,(he.trans h1).symm⟩
      · exact List.mem_map.mpr ⟨y,List.mem_cons_of_mem _ hy,(he.trans h1).symm⟩
    have hw := hsame s (.inl rfl) hne
    refine ⟨(hw 8 (by omega)).trans h.1,(hw 0 (by omega)).trans h.2.1,(hw 4 (by omega)).trans h.2.2.1,?_⟩
    apply rewire h.2.2.2 hnd _ h'
    rintro y hy
    apply hsame y
    rcases hy with rfl | ⟨w,hw,rfl⟩
    · exact .inr ⟨z,List.mem_cons_self,rfl⟩
    · exact .inr ⟨w,List.mem_cons_of_mem _ hw,rfl⟩

end SentinelChain

private theorem or_used_last {v : Nat} (h : v < 2^29) :
    v ||| OS_MEM_NODE_USED_FLAG ||| OS_MEM_NODE_LAST_FLAG = v + 2^31 + 2^29 := by
  rw [or_used (by omega)]
  exact Word.or_two_pow_of_clear (k := 29) (by omega)

/-- OsMemSentinelNodeSet writes the head words of the last sentinel it reaches. -/
theorem sentinelNodeSet_mem {t v : Nat} (ht : (if p.ptr s ≠ 0 then osMemLastSentinelNodeGet p s else s) = t)
    (hv : v < 2^29) : ∃ m, osMemSentinelNodeSet p s n v = { p with mem := m } ∧
      ∀ y, m y = if y = t + 8 then v + 2^31 + 2^29 else if y = t + 4 then n else p.mem y := by
  have heq : osMemSentinelNodeSet p s n v = (((p.setSizeAndFlag t v).setPtr t n).setSizeAndFlag t
      (((p.setSizeAndFlag t v).setPtr t n).sizeAndFlag t ||| OS_MEM_NODE_USED_FLAG)).setSizeAndFlag t
      ((((p.setSizeAndFlag t v).setPtr t n).setSizeAndFlag t
        (((p.setSizeAndFlag t v).setPtr t n).sizeAndFlag t ||| OS_MEM_NODE_USED_FLAG)).sizeAndFlag t |||
          OS_MEM_NODE_LAST_FLAG) := by
    simp only [osMemSentinelNodeSet, ht]
  refine ⟨(osMemSentinelNodeSet p s n v).mem,by rw [heq]; rfl,?_⟩
  intro y
  rw [heq]
  simp only [MemPool.setSizeAndFlag, MemPool.setPtr, MemPool.sizeAndFlag, MemPool.mem_setWord, if_true]
  by_cases h8 : y = t + 8
  · simp [h8, or_used_last hv]
  · simp [h8]

/-- The addresses of disjoint areas, counted. -/
private theorem exists_addresses : ∀ {E : List Area}, E.Nodup →
    (∀ x ∈ E, ∀ y ∈ E, x ≠ y → x.node + x.size ≤ y.node ∨ y.node + y.size ≤ x.node) →
      ∃ A : Finset Nat, A.card = (E.map Area.size).sum ∧ ∀ n, n ∈ A ↔ ∃ x ∈ E, x.node ≤ n ∧ n < x.node + x.size
  | [], _, _ => ⟨∅,rfl,by simp⟩
  | x :: E, hnd, hap => by
    obtain ⟨hx,hnd⟩ := List.nodup_cons.mp hnd
    obtain ⟨A,hcard,hmem⟩ := exists_addresses hnd fun y hy z hz =>
      hap y (List.mem_cons_of_mem _ hy) z (List.mem_cons_of_mem _ hz)
    have hdisj : Disjoint (Finset.Ico x.node (x.node + x.size)) A := by
      rw [Finset.disjoint_left]
      intro n hn hA
      rw [Finset.mem_Ico] at hn
      obtain ⟨y,hy,hyn⟩ := (hmem n).mp hA
      have hne : x ≠ y := fun he => hx (he ▸ hy)
      rcases hap x List.mem_cons_self y (List.mem_cons_of_mem _ hy) hne with h1 | h1 <;> omega
    refine ⟨Finset.Ico x.node (x.node + x.size) ∪ A,?_,?_⟩
    · rw [Finset.card_union_of_disjoint hdisj, hcard, Nat.card_Ico, List.map_cons, List.sum_cons]
      omega
    · intro n
      rw [Finset.mem_union, Finset.mem_Ico, hmem]
      simp

namespace Inv

theorem area_apart (h : Inv p E N F D U L) {y : Area} (hx : x ∈ E) (hy : y ∈ E) (hne : x ≠ y) :
    x.node + x.size ≤ y.node ∨ y.node + y.size ≤ x.node := by
  obtain ⟨-,-,h1,h2,-⟩ := h.fixed.areas x hx
  obtain ⟨-,-,h3,h4,-⟩ := h.fixed.areas y hy
  have hex : x.extent ≠ y.extent := by
    intro he
    simp only [Area.extent, Extent.mk.injEq, Area.sentinel] at he
    apply hne
    cases x
    cases y
    simp only [Area.mk.injEq] at he h1 h2 h3 h4 ⊢
    omega
  have := h.nodes.tiling.extents _ (area_mem_extents hx) _ (area_mem_extents hy) hex
  simp only [Area.extent, Area.sentinel] at this
  omega

/-- The pool and its areas do not exceed the address space. -/
theorem sum_lt (h : Inv p E N F D U L) : p.totalSize + (E.map Area.size).sum < 2^32 := by
  obtain ⟨A,hcard,hmem⟩ := exists_addresses h.fixed.nodup fun x hx y hy => h.area_apart hx hy
  have htop := h.fixed.top
  have hpos := h.fixed.pool_pos
  have hdisj : Disjoint (Finset.Ico p.pool (p.pool + p.totalSize)) A := by
    rw [Finset.disjoint_left]
    intro n hn hA
    rw [Finset.mem_Ico] at hn
    obtain ⟨x,hx,hxn⟩ := (hmem n).mp hA
    have := (h.fixed.areas x hx).outside
    omega
  have hsub : Finset.Ico p.pool (p.pool + p.totalSize) ∪ A ⊆ Finset.Ico 1 (2^32) := by
    intro n hn
    rw [Finset.mem_union, Finset.mem_Ico, hmem] at hn
    rw [Finset.mem_Ico]
    rcases hn with hn | ⟨x,hx,hxn⟩
    · omega
    · have h1 := (h.fixed.areas x hx).top
      have h2 := (h.fixed.areas x hx).node_pos
      omega
  have hle := Finset.card_le_card hsub
  rw [Finset.card_union_of_disjoint hdisj, hcard, Nat.card_Ico, Nat.card_Ico] at hle
  omega

/-- Areas are whole pages, so there are fewer of them than the fuel of the chain walks. -/
theorem length_lt (h : Inv p E N F D U L) : E.length < chainFuel := by
  have hsum := h.sum_lt
  have hge := h.fixed.total_ge
  simp only [sizeofPoolHead] at hge
  have hpage : ∀ E : List Area, (∀ x ∈ E, 4096 ≤ x.size) → 4096*E.length ≤ (E.map Area.size).sum := by
    intro E
    induction E with
    | nil => simp
    | cons x E ih =>
      intro hE
      have h1 := hE x List.mem_cons_self
      have h2 := ih fun y hy => hE y (List.mem_cons_of_mem _ hy)
      rw [List.map_cons, List.sum_cons, List.length_cons]
      omega
  have hlen := hpage E fun x hx => by
    have h1 := (h.fixed.areas x hx).size_pos
    have h2 := (h.fixed.areas x hx).size_mod
    omega
  rw [chainFuel]
  omega

theorem lastSentinel_eq (h : Inv p E N F D U L) :
    (if p.ptr (endAddr p) ≠ 0 then osMemLastSentinelNodeGet p (endAddr p) else endAddr p) = chainEnd (endAddr p) E := by
  have hchain := h.fixed.chain
  rw [osMemLastSentinelNodeGet, hchain.lastSentinelFrom_eq _ 0 h.fixed.areas h.length_lt]
  cases E with
  | nil => rw [if_neg (not_not.mpr hchain.2.2)]; rfl
  | cons x E =>
    have h1 := (h.fixed.areas x List.mem_cons_self).node_pos
    rw [if_pos (by rw [hchain.2.2.1]; omega), if_neg (by simp)]

theorem sentinels_nodup (h : Inv p E N F D U L) : (endAddr p :: E.map Area.sentinel).Nodup := by
  have hge := h.fixed.total_ge
  simp only [sizeofPoolHead] at hge
  have hsz : ∀ x ∈ E, 4096 ≤ x.size := by
    intro x hx
    have h1 := (h.fixed.areas x hx).size_pos
    have h2 := (h.fixed.areas x hx).size_mod
    omega
  refine List.nodup_cons.mpr ⟨?_,?_⟩
  · intro hm
    obtain ⟨x,hx,he⟩ := List.mem_map.mp hm
    have h1 := (h.fixed.areas x hx).outside
    have h2 := hsz x hx
    rw [Area.sentinel, endAddr] at he
    omega
  · apply List.Nodup.map_on ?_ h.fixed.nodup
    intro x hx y hy he
    by_contra hne
    have h1 := hsz x hx
    have h2 := hsz y hy
    rw [Area.sentinel, Area.sentinel] at he
    rcases h.area_apart hx hy hne with h3 | h3 <;> omega

theorem poolSizeGet_eq (h : Inv p E N F D U L) : losMemPoolSizeGet p = p.totalSize + (E.map Area.size).sum := by
  rw [losMemPoolSizeGet, h.endNode_eq]
  exact h.fixed.chain.poolSizeFrom_eq _ _ h.fixed.areas h.length_lt h.sum_lt

theorem addrValid_iff (h : Inv p E N F D U L) (addr : Nat) : osMemAddrValidCheck p addr = true ↔
    addr = 0 ∨ (osMemFirstNode p ≤ addr ∧ addr < p.pool + p.totalSize) ∨
      ∃ x ∈ E, x.node ≤ addr ∧ addr < x.node + x.size := by
  rw [osMemAddrValidCheck, h.endNode_eq, osMemFirstNode]
  have hchain := h.fixed.chain.addrValidFrom_iff chainFuel addr h.fixed.areas h.length_lt
  split_ifs with h1 h2
  · simp [h1]
  · simp [h2]
  · rw [hchain]
    simp [h1, h2]

end Inv

end LiteOsKernel.Mem.Tlsf
