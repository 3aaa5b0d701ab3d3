import Mathlib.Order.Defs.PartialOrder
import Mathlib.Logic.Basic

/-! Effects that are taken back, the last one first. Taking back may leave something behind: the states are ordered by what is left in them,
and what is left of a later effect stays when the earlier ones are taken back. -/
namespace LiteOsKernel.Lib

/-- Effects ε on states ρ: what an effect does, what taking it back does, and where it is possible. -/
structure Undo (ρ ε : Type*) [PartialOrder ρ] where
  apply : ε → ρ → ρ
  revert : ε → ρ → ρ
  Possible : ε → ρ → Prop
  le_revert : ∀ {e r}, Possible e r → r ≤ revert e (apply e r)
  revert_le : ∀ {e r x}, Possible e r → apply e r ≤ x → revert e (apply e r) ≤ revert e x
  revert_inj : ∀ {e r x}, Possible e r → apply e r ≤ x → revert e x = revert e (apply e r) → x = apply e r

namespace Undo

variable {ρ ε : Type*} [PartialOrder ρ] (U : Undo ρ ε)

/-- Nothing is left of an effect. -/
def Clean (e : ε) (r : ρ) : Prop := U.revert e (U.apply e r) = r

/-- The effects of a list; the last one is in front. -/
def applyAll (r : ρ) : List ε → ρ
  | [] => r
  | e :: es => U.apply e (applyAll r es)

def revertAll : ρ → List ε → ρ
  | x, [] => x
  | x, e :: es => revertAll (U.revert e x) es

/-- Each effect is possible when its turn comes. -/
def AllPossible (r : ρ) : List ε → Prop
  | [] => True
  | e :: es => AllPossible r es ∧ U.Possible e (U.applyAll r es)

def AllClean (r : ρ) : List ε → Prop
  | [] => True
  | e :: es => AllClean r es ∧ U.Clean e (U.applyAll r es)

variable {U} {r x : ρ} {e : ε} {es : List ε}

theorem le_revert_of_le (h : U.Possible e r) (hx : U.apply e r ≤ x) : r ≤ U.revert e x :=
  le_trans (U.le_revert h) (U.revert_le h hx)

/-- An effect is undone just when nothing is left of it and of those after it. -/
theorem revert_eq_iff (h : U.Possible e r) (hx : U.apply e r ≤ x) : U.revert e x = r ↔ x = U.apply e r ∧ U.Clean e r := by
  constructor
  · intro he
    have hle := U.revert_le h hx
    rw [he] at hle
    have hclean : U.revert e (U.apply e r) = r := le_antisymm hle (U.le_revert h)
    exact ⟨U.revert_inj h hx (he.trans hclean.symm),hclean⟩
  · rintro ⟨rfl,hclean⟩
    exact hclean

theorem le_revertAll (h : U.AllPossible r es) (hx : U.applyAll r es ≤ x) : r ≤ U.revertAll x es := by
  induction es generalizing x with
  | nil => exact hx
  | cons e es ih => exact ih h.1 (le_revert_of_le h.2 hx)

/-- The effects of a list are undone just when each of them is clean and nothing was left before. -/
theorem revertAll_eq_iff (h : U.AllPossible r es) (hx : U.applyAll r es ≤ x) :
    U.revertAll x es = r ↔ x = U.applyAll r es ∧ U.AllClean r es := by
  induction es generalizing x with
  | nil => exact (and_iff_left trivial).symm
  | cons e es ih =>
    rw [revertAll, ih h.1 (le_revert_of_le h.2 hx), revert_eq_iff h.2 hx, applyAll, AllClean, and_assoc, and_comm (a := U.Clean e _)]

end Undo

end LiteOsKernel.Lib
