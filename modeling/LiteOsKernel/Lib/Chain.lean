import Mathlib.Data.List.Nodup

/-! Singly linked lists that end in a null link, as lists of addresses, and the walk that finds the member in front of another. -/
namespace LiteOsKernel.Chain

variable {α : Type*} {next next' : α → Option α} {head : Option α} {a p : α} {l : List α}

/-- The members from head on, link by link. -/
def Chained (next : α → Option α) : Option α → List α → Prop
  | none, [] => True
  | some a, b :: l => a = b ∧ Chained next (next a) l
  | none, _ :: _ => False
  | some _, [] => False

theorem Chained.congr (h : Chained next head l) (hn : ∀ a ∈ l, next' a = next a) : Chained next' head l := by
  induction l generalizing head with
  | nil => cases head with
    | none => trivial
    | some a => exact h.elim
  | cons b l ih => cases head with
    | none => exact h.elim
    | some a =>
      obtain ⟨rfl,h⟩ := h
      refine ⟨rfl,?_⟩
      rw [hn a List.mem_cons_self]
      exact ih h fun b hb => hn b (List.mem_cons_of_mem a hb)

theorem Chained.head_eq (h : Chained next head l) : head = l.head? := by
  cases head with
  | none => cases l with
    | nil => rfl
    | cons => exact h.elim
  | some a => cases l with
    | nil => exact h.elim
    | cons => exact congrArg some h.1

/-- The link of a member leads to the member behind it. -/
theorem Chained.next_eq (h : Chained next head l) {i : Nat} (hi : i + 1 < l.length) : next l[i] = some l[i + 1] := by
  induction l generalizing head i with
  | nil => exact absurd hi (Nat.not_lt_zero _)
  | cons b l ih => cases head with
    | none => exact h.elim
    | some b' =>
      obtain ⟨rfl,h⟩ := h
      cases i with
      | zero =>
        have hl : 0 < l.length := Nat.lt_of_succ_lt_succ hi
        rw [List.getElem_cons_zero, h.head_eq, List.head?_eq_getElem?, List.getElem?_eq_getElem hl, List.getElem_cons_succ]
      | succ i => exact ih h (Nat.lt_of_succ_lt_succ hi)

/-- The link of a member ends the list or leads to another member. -/
theorem Chained.next_mem (h : Chained next head l) (hd : l.Nodup) (ha : a ∈ l) :
    next a = none ∨ ∃ c ∈ l, c ≠ a ∧ next a = some c := by
  induction l generalizing head with
  | nil => exact absurd ha List.not_mem_nil
  | cons b l ih => cases head with
    | none => exact h.elim
    | some b' =>
      obtain ⟨rfl,h⟩ := h
      obtain ⟨hb,hd⟩ := List.nodup_cons.mp hd
      rcases List.mem_cons.mp ha with rfl | ha
      · cases l with
        | nil => exact .inl h.head_eq
        | cons c l =>
          refine .inr ⟨c,List.mem_cons_of_mem _ List.mem_cons_self,?_,h.head_eq⟩
          rintro rfl
          exact hb List.mem_cons_self
      · rcases ih h hd ha with hn | ⟨c,hc,hca,hn⟩
        · exact .inl hn
        · exact .inr ⟨c,List.mem_cons_of_mem _ hc,hca,hn⟩

section
variable [DecidableEq α]

/-- The walk from tmp on for the member whose link is p, over at most fuel members. -/
def findPrev (next : α → Option α) (p : α) : Nat → α → Option α
  | 0, _ => none
  | fuel + 1, tmp =>
    match next tmp with
    | none => none
    | some b => if b = p then some tmp else findPrev next p fuel b

/-- The walk finds the member in front of p, and the list without p results when its link skips p. -/
theorem Chained.findPrev (h : Chained next (some a) (a :: l)) (hd : (a :: l).Nodup) (hp : p ∈ l) {fuel : Nat} (hf : l.length ≤ fuel) :
    ∃ tmp, Chain.findPrev next p fuel a = some tmp ∧ tmp ∈ a :: l ∧ tmp ≠ p ∧
      ∀ next', next' tmp = next p → (∀ b ∈ a :: l, b ≠ tmp → b ≠ p → next' b = next b) → Chained next' (some a) ((a :: l).erase p) := by
  induction l generalizing a fuel with
  | nil => exact absurd hp List.not_mem_nil
  | cons b l ih =>
    obtain ⟨fuel,rfl⟩ : ∃ k, fuel = k + 1 := ⟨fuel - 1,by rw [List.length_cons] at hf; omega⟩
    obtain ⟨-,h⟩ := h
    obtain ⟨hab,hd⟩ := List.nodup_cons.mp hd
    have hne : a ≠ p := fun he => hab (he ▸ hp)
    have hb : next a = some b := h.head_eq
    rw [hb] at h
    rw [Chain.findPrev, hb]
    simp only
    by_cases hbp : b = p
    · subst hbp
      refine ⟨a,if_pos rfl,List.mem_cons_self,hne,fun next' htmp hrest => ?_⟩
      obtain ⟨hbl,-⟩ := List.nodup_cons.mp hd
      rw [List.erase_cons_tail (by simpa using hne), List.erase_cons_head]
      refine ⟨rfl,?_⟩
      rw [htmp]
      refine h.2.congr fun c hc => hrest c (List.mem_cons_of_mem _ (List.mem_cons_of_mem _ hc)) ?_ ?_
      · exact fun he => hab (he ▸ List.mem_cons_of_mem _ hc)
      · exact fun he => hbl (he ▸ hc)
    · rw [if_neg hbp]
      have hp' : p ∈ l := (List.mem_cons.mp hp).resolve_left fun he => hbp he.symm
      obtain ⟨tmp,hfind,hmem,htp,hskip⟩ := ih h hd hp' (Nat.le_of_succ_le_succ hf)
      refine ⟨tmp,hfind,List.mem_cons_of_mem a hmem,htp,fun next' htmp hrest => ?_⟩
      rw [List.erase_cons_tail (by simpa using hne)]
      refine ⟨rfl,?_⟩
      rw [hrest a List.mem_cons_self (fun he => hab (he ▸ hmem)) hne, hb]
      exact hskip next' htmp fun c hc => hrest c (List.mem_cons_of_mem a hc)

end

end LiteOsKernel.Chain
