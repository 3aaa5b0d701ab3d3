import Mathlib.Data.List.Basic
import Mathlib.Logic.Function.Basic

/-! Doubly linked lists that end in a null link, as lists of addresses: what the
two link fields of each member hold, and the effect of the usual pointer edits. -/
namespace LiteOsKernel.Links

/-- Each member's links name its neighbours in the list; 0 is the null link. -/
def Linked (prev next : Nat → Nat) (l : List Nat) : Prop :=
  ∀ l₁ a l₂, l = l₁ ++ a :: l₂ → prev a = l₁.getLastD 0 ∧ next a = l₂.headD 0

variable {prev next prev' next' : Nat → Nat} {l : List Nat}

theorem linked_nil : Linked prev next [] := by
  intro l₁ a l₂ h
  simp at h

theorem Linked.congr (h : Linked prev next l) (hp : ∀ a ∈ l, prev' a = prev a)
    (hn : ∀ a ∈ l, next' a = next a) : Linked prev' next' l := by
  intro l₁ a l₂ hl
  have ha : a ∈ l := by simp [hl]
  rw [hp a ha, hn a ha]
  exact h l₁ a l₂ hl

/-- Pushing a new member in front: its links are set and the old head points back to it. -/
theorem Linked.push {a : Nat} (h : Linked prev next l) (hpa : prev' a = 0)
    (hna : next' a = l.headD 0) (hp : ∀ b ∈ l, b ≠ l.headD 0 → prev' b = prev b)
    (hh : ∀ b t, l = b :: t → prev' b = a) (hd : l.Nodup) (hn : ∀ b ∈ l, next' b = next b) :
    Linked prev' next' (a :: l) := by
  intro l₁ b l₂ hl
  cases l₁ with
  | nil =>
    obtain ⟨rfl,rfl⟩ := List.cons.inj hl
    exact ⟨hpa,hna⟩
  | cons c t =>
    obtain ⟨rfl,rfl⟩ := List.cons.inj hl
    have hb : b ∈ t ++ b :: l₂ := by simp
    obtain ⟨h1,h2⟩ := h t b l₂ rfl
    refine ⟨?_,(hn b hb).trans h2⟩
    rw [List.getLastD_cons]
    cases t with
    | nil => exact hh b l₂ rfl
    | cons d t =>
      have hne : b ≠ d := by
        rintro rfl
        simp at hd
      rw [hp b hb (by simpa using hne), h1, List.getLastD_cons, List.getLastD_cons]

/-- Unlinking a member: the neighbours' links skip it. -/
theorem Linked.remove {l₁ l₂ : List Nat} {a : Nat} (h : Linked prev next (l₁ ++ a :: l₂))
    (hd : (l₁ ++ a :: l₂).Nodup)
    (hp : ∀ b ∈ l₁ ++ l₂, prev' b = if l₂.head? = some b then prev a else prev b)
    (hn : ∀ b ∈ l₁ ++ l₂, next' b = if l₁.getLast? = some b then next a else next b) :
    Linked prev' next' (l₁ ++ l₂) := by
  intro m₁ b m₂ hl
  have hb : b ∈ l₁ ++ l₂ := by simp [hl]
  obtain ⟨ha1,ha2⟩ := h l₁ a l₂ rfl
  rw [hp b hb, hn b hb, ha1, ha2]
  have hdis := (List.nodup_append.mp hd).2.2
  rcases List.append_eq_append_iff.mp hl with ⟨t,rfl,ht⟩ | ⟨t,rfl,ht⟩
  · -- b is in l₂
    have hb2 : b ∈ l₂ := by simp [ht]
    have hl1 : l₁.getLast? ≠ some b := fun hlast =>
      hdis b (List.mem_of_getLast? hlast) b (by simp [hb2]) rfl
    rw [if_neg hl1]
    obtain ⟨h1,h2⟩ := h (l₁ ++ a :: t) b m₂ (by simp [ht])
    refine ⟨?_,h2⟩
    cases t with
    | nil => simp [ht]
    | cons c t =>
      have hcb : c ≠ b := by
        rintro rfl
        have := (List.nodup_append.mp hd).2.1
        simp [ht] at this
      rw [ht, if_neg (by simpa using hcb), h1]
      simp
  · -- b is in l₁
    cases t with
    | nil =>
      have hl2 : l₂ = b :: m₂ := by simpa using ht.symm
      subst hl2
      have hl1 : m₁.getLast? ≠ some b := fun hlast =>
        hdis b (by simpa using List.mem_of_getLast? hlast) b (by simp) rfl
      rw [List.append_nil] at h ⊢
      rw [if_neg hl1]
      obtain ⟨h1,h2⟩ := h (m₁ ++ [a]) b m₂ (by simp)
      exact ⟨by simp,h2⟩
    | cons c t =>
      obtain ⟨rfl,rfl⟩ : c = b ∧ m₂ = t ++ l₂ := by simpa [eq_comm] using ht
      have hl2 : l₂.head? ≠ some c := fun hhead =>
        hdis c (by simp) c (by simp [List.mem_of_mem_head? hhead]) rfl
      rw [if_neg hl2]
      obtain ⟨h1,h2⟩ := h m₁ c (t ++ a :: l₂) (by simp)
      refine ⟨h1,?_⟩
      cases t with
      | nil => simp
      | cons d t =>
        have hcd : (d :: t).getLast? ≠ some c := by
          intro hlast
          have hmem := List.mem_of_getLast? hlast
          have := (List.nodup_append.mp hd).1
          simp only [List.nodup_append, List.nodup_cons] at this
          exact this.2.1.1 hmem
        rw [if_neg (by simpa [List.getLast?_append] using hcd), h2]
        simp

end LiteOsKernel.Links
