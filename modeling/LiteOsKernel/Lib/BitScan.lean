import LiteOsKernel.Lib.Word

/-! Search for the first set bit of a word, from the most significant bit on, for which a function has a result. -/
namespace LiteOsKernel.BitScan
open LiteOsKernel.Word

variable {α : Type} {bitmap : Nat}

/-- The set bits are numbered from the most significant one; a bit without a result is cleared, and the search goes on. -/
def scan (f : Nat → Option α) : Nat → Nat → Option α
  | 0, _ => none
  | fuel+1, bitmap =>
    if bitmap = 0 then none
    else
      match f (clz bitmap) with
      | some x => some x
      | none => scan f fuel (clearBit bitmap (31 - clz bitmap))

/-- The result is that of the first set bit that has one, or no set bit has one. -/
def First (f : Nat → Option α) (bitmap : Nat) : Option α → Prop
  | some x => ∃ p < 32, bitmap.testBit (31 - p) = true ∧ f p = some x ∧ ∀ q < p, bitmap.testBit (31 - q) = true → f q = none
  | none => ∀ p < 32, bitmap.testBit (31 - p) = true → f p = none

/-- A word without a bit from n on needs at most n rounds. -/
private theorem scan_of_lt (f : Nat → Option α) (n : Nat) (hn : n ≤ 32) :
    ∀ fuel, n ≤ fuel → ∀ bitmap < 2^n, First f bitmap (scan f fuel bitmap) := by
  induction n with
  | zero =>
    intro fuel _ bitmap hb
    obtain rfl : bitmap = 0 := Nat.lt_one_iff.mp hb
    have hnone : scan f fuel 0 = none := by
      cases fuel <;> rfl
    rw [hnone]
    intro p _ ht
    simp at ht
  | succ n ih =>
    intro fuel hfuel bitmap hb
    have hhigh : ∀ i, n < i → bitmap.testBit i = false := fun i hi =>
      Nat.testBit_lt_two_pow (hb.trans_le (Nat.pow_le_pow_right (by decide) hi))
    cases ht : bitmap.testBit n with
    | false =>
      refine ih (by omega) fuel (by omega) bitmap (Nat.lt_pow_two_of_testBit bitmap fun i hi => ?_)
      rcases Nat.lt_or_eq_of_le hi with hi | rfl
      · exact hhigh i hi
      · exact ht
    | true =>
      have h0 : bitmap ≠ 0 := by
        rintro rfl
        simp at ht
      have hclz : clz bitmap = 31 - n := by
        rw [clz, if_neg h0, (Nat.log2_eq_iff h0).mpr ⟨Nat.ge_two_pow_of_testBit ht,hb⟩]
      have hbit : 31 - (31 - n) = n := by omega
      obtain ⟨m,rfl⟩ : ∃ m, fuel = m + 1 := ⟨fuel - 1,by omega⟩
      rw [scan, if_neg h0, hclz, hbit]
      cases hf : f (31 - n) with
      | some x =>
        refine ⟨31 - n,by omega,by rw [hbit]; exact ht,hf,fun q hq hbq => ?_⟩
        rw [hhigh (31 - q) (by omega)] at hbq
        cases hbq
      | none =>
        -- the rounds that follow see the bits below n
        have hclear : ∀ j, (clearBit bitmap n).testBit j = (bitmap.testBit j && decide (n ≠ j)) :=
          testBit_clearBit (by omega) (hb.trans_le (Nat.pow_le_pow_right (by decide) hn))
        have hlt : clearBit bitmap n < 2^n := by
          refine Nat.lt_pow_two_of_testBit _ fun i hi => ?_
          rw [hclear]
          rcases Nat.lt_or_eq_of_le hi with hi | rfl
          · rw [hhigh i hi, Bool.false_and]
          · simp
        have hrest := ih (by omega) m (by omega) _ hlt
        have hset : ∀ q < 32, bitmap.testBit (31 - q) = true → q = 31 - n ∨ (clearBit bitmap n).testBit (31 - q) = true := by
          intro q hq hbq
          rw [hclear, hbq, Bool.true_and, decide_eq_true_eq]
          omega
        simp only
        cases hs : scan f m (clearBit bitmap n) with
        | some x =>
          rw [hs] at hrest
          obtain ⟨p,hp,hbp,hfp,hq⟩ := hrest
          rw [hclear, Bool.and_eq_true] at hbp
          refine ⟨p,hp,hbp.1,hfp,fun q hqp hbq => ?_⟩
          rcases hset q (by omega) hbq with rfl | hbq
          · exact hf
          · exact hq q hqp hbq
        | none =>
          rw [hs] at hrest
          intro q hq hbq
          rcases hset q hq hbq with rfl | hbq
          · exact hf
          · exact hrest q hq hbq

theorem scan_first (f : Nat → Option α) (hb : bitmap < 2^32) : First f bitmap (scan f 32 bitmap) :=
  scan_of_lt f 32 (Nat.le_refl _) 32 (Nat.le_refl _) bitmap hb

end LiteOsKernel.BitScan
