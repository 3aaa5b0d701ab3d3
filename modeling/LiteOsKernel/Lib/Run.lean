import Mathlib.Data.List.Basic

/-! Runs of a system: the states that its calls reach, and the rule that carries an invariant along every run. -/
namespace LiteOsKernel.Run

/-- A system with states σ and calls κ: where it starts, when a call can be made, and what it does. -/
structure System (σ κ : Type*) where
  init : σ → Prop
  pre : σ → κ → Prop
  run : σ → κ → σ

variable {σ κ : Type*} {S : System σ κ} {ok ok' : σ → κ → Prop} {x : σ}

/-- The states that calls reach when each call meets ok. -/
inductive Reachable (S : System σ κ) (ok : σ → κ → Prop) : σ → Prop
  | init {x : σ} (h : S.init x) : Reachable S ok x
  | call {x : σ} (h : Reachable S ok x) (c : κ) (hp : S.pre x c) (hok : ok x c) : Reachable S ok (S.run x c)

/-- What holds at the start and is preserved by every call holds along every run. -/
theorem Reachable.invariant {I : σ → Prop} (h : Reachable S ok x) (hinit : ∀ x, S.init x → I x)
    (hcall : ∀ x c, I x → S.pre x c → ok x c → I (S.run x c)) : I x := by
  induction h with
  | init h => exact hinit _ h
  | call _ c hp hok ih => exact hcall _ c ih hp hok

theorem Reachable.mono (h : Reachable S ok x) (hle : ∀ x c, ok x c → ok' x c) : Reachable S ok' x := by
  induction h with
  | init h => exact .init h
  | call _ c hp hok ih => exact .call ih c hp (hle _ c hok)

/-- The calls of a list can be made one after the other, and each meets ok. -/
def System.Allows (S : System σ κ) (ok : σ → κ → Prop) : σ → List κ → Prop
  | _, [] => True
  | x, c :: cs => S.pre x c ∧ ok x c ∧ S.Allows ok (S.run x c) cs

instance System.decidableAllows [∀ x c, Decidable (S.pre x c)] [∀ x c, Decidable (ok x c)] : ∀ x cs, Decidable (S.Allows ok x cs)
  | _, [] => inferInstanceAs (Decidable True)
  | x, c :: cs => have := System.decidableAllows (S.run x c) cs; inferInstanceAs (Decidable (_ ∧ _ ∧ _))

/-- The state after a list of calls is reached where the state before it is. -/
theorem Reachable.calls (h : Reachable S ok x) (cs : List κ) (hcs : S.Allows ok x cs) : Reachable S ok (cs.foldl S.run x) := by
  induction cs generalizing x with
  | nil => exact h
  | cons c cs ih => exact ih (h.call c hcs.1 hcs.2.1) hcs.2.2

/-- A list of labelled steps from one state to another. -/
inductive Trace {α : Type*} (step : σ → α → σ → Prop) (start : σ) : List α → σ → Prop
  | nil : Trace step start [] start
  | snoc {as : List α} {x y : σ} {a : α} (h : Trace step start as x) (hs : step x a y) : Trace step start (as ++ [a]) y

section
variable {α β : Type*} {step step' : σ → α → σ → Prop} {as bs : List α} {a : α} {y z : σ}

theorem Trace.nil_eq (h : Trace step x [] y) : y = x := by
  generalize has : ([] : List α) = as at h
  cases h with
  | nil => rfl
  | snoc => exact absurd has.symm (List.append_ne_nil_of_right_ne_nil _ (List.cons_ne_nil _ _))

theorem Trace.last (h : Trace step x (as ++ [a]) z) : ∃ y, Trace step x as y ∧ step y a z := by
  generalize hbs : as ++ [a] = bs at h
  cases h with
  | nil => exact absurd hbs (List.append_ne_nil_of_right_ne_nil _ (List.cons_ne_nil _ _))
  | snoc h hs =>
    obtain ⟨rfl,rfl⟩ := List.append_singleton_inj.mp hbs
    exact ⟨_,h,hs⟩

theorem Trace.mono (h : Trace step x as y) (hle : ∀ y a z, step y a z → step' y a z) : Trace step' x as y := by
  induction h with
  | nil => exact .nil
  | snoc _ hs ih => exact .snoc ih (hle _ _ _ hs)

/-- Steps that are determined by part of their labels make traces that are determined by these parts. -/
theorem Trace.unique {f : α → β} (hdet : ∀ x a y b z, step x a y → step x b z → f a = f b → a = b ∧ y = z)
    (h : Trace step x as y) (h' : Trace step x bs z) (hf : as.map f = bs.map f) : as = bs ∧ y = z := by
  induction h generalizing bs z with
  | nil =>
    obtain rfl := List.map_eq_nil_iff.mp hf.symm
    exact ⟨rfl,h'.nil_eq.symm⟩
  | @snoc as x y a h hs ih =>
    rcases bs.eq_nil_or_concat' with rfl | ⟨bs,b,rfl⟩
    · exact absurd (List.map_eq_nil_iff.mp hf) (List.append_ne_nil_of_right_ne_nil _ (List.cons_ne_nil _ _))
    · rw [List.map_append, List.map_append] at hf
      obtain ⟨hf,hab⟩ := List.append_singleton_inj.mp hf
      obtain ⟨w,h',hs'⟩ := h'.last
      obtain ⟨rfl,rfl⟩ := ih h' hf
      obtain ⟨rfl,rfl⟩ := hdet _ _ _ _ _ hs hs' hab
      exact ⟨rfl,rfl⟩

end

end LiteOsKernel.Run
