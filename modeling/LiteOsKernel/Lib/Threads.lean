import Mathlib.Data.List.Count

/-! Threads at their program points: a list of them, of which one at a time goes on to its next point. -/
namespace LiteOsKernel.Threads

variable {α : Type*} [DecidableEq α] {ts : List α} {t t' a : α}

def move (ts : List α) (t t' : α) : List α := t' :: ts.erase t

/-- A thread leaves the points that p counts, or enters them. -/
theorem countP_erase_add (h : t ∈ ts) (p : α → Bool) : (ts.erase t).countP p + (if p t then 1 else 0) = ts.countP p := by
  rw [(List.perm_cons_erase h).countP_eq p, List.countP_cons]

theorem countP_move (h : t ∈ ts) (t' : α) (p : α → Bool) :
    (move ts t t').countP p + (if p t then 1 else 0) = ts.countP p + if p t' then 1 else 0 := by
  rw [move, List.countP_cons, ← countP_erase_add h p]
  omega

theorem mem_of_mem_move (h : a ∈ move ts t t') : a = t' ∨ a ∈ ts := by
  rcases List.mem_cons.mp h with h | h
  · exact .inl h
  · exact .inr (List.mem_of_mem_erase h)

omit [DecidableEq α] in
/-- Threads that are moved at once: those at p were there before, or were at q. -/
theorem countP_map_le {f : α → α} {p q : α → Bool} (h : ∀ t ∈ ts, p (f t) = true → p t = true ∨ q t = true) :
    (ts.map f).countP p ≤ ts.countP p + ts.countP q := by
  induction ts with
  | nil => exact Nat.zero_le _
  | cons t ts ih =>
    have := ih fun u hu => h u (List.mem_cons_of_mem t hu)
    have := h t List.mem_cons_self
    rw [List.map_cons, List.countP_cons, List.countP_cons, List.countP_cons]
    split_ifs <;> first | omega | simp_all

end LiteOsKernel.Threads
