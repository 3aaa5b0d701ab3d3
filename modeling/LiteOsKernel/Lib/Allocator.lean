import Mathlib.Logic.Function.Basic

/-! Allocators that hand out blocks of one region: what an allocation and a release do to the blocks that are handed out. -/
namespace LiteOsKernel.Lib
open Function

/-- An allocator with its states. The blocks it has handed out are known by their addresses, each with its size; of what else is in a
state nothing is said. -/
structure Allocator (H : Type) where
  base : H → Nat
  size : H → Nat
  blocks : H → Nat → Option Nat
  alloc : H → Nat → Option (Nat × H)
  free : H → Nat → H
  alloc_region : ∀ {h n a h'}, alloc h n = some (a,h') → base h < a ∧ a < base h + size h ∧ base h' = base h ∧ size h' = size h
  alloc_blocks : ∀ {h n a h'}, alloc h n = some (a,h') → blocks h a = none ∧ ∃ m, n ≤ m ∧ blocks h' = update (blocks h) a (some m)
  free_region : ∀ {h a}, blocks h a ≠ none → base (free h a) = base h ∧ size (free h a) = size h
  free_blocks : ∀ {h a}, blocks h a ≠ none → blocks (free h a) = update (blocks h) a none

namespace Allocator

variable {H : Type} {A : Allocator H} {h h' g : H} {a b n : Nat}

theorem alloc_held (ha : A.alloc h n = some (a,h')) : A.blocks h' a ≠ none := by
  obtain ⟨-,m,-,hm⟩ := A.alloc_blocks ha
  rw [hm, update_self]
  exact Option.some_ne_none m

/-- The release of a block undoes its allocation, whatever came in between, as long as the blocks are those after the allocation. -/
theorem free_alloc (ha : A.alloc h n = some (a,h')) (hg : A.blocks g = A.blocks h') : A.blocks (A.free g a) = A.blocks h := by
  obtain ⟨hnone,m,-,hm⟩ := A.alloc_blocks ha
  have hheld : A.blocks g a ≠ none := by
    rw [hg]
    exact alloc_held ha
  rw [A.free_blocks hheld, hg, hm, update_idem, ← hnone, update_eq_self]

end Allocator

end LiteOsKernel.Lib
