import Mathlib.Data.Nat.Bitwise
import Mathlib.Tactic.Ring
import Mathlib.Tactic.Linarith

/-! Unsigned 32-bit words as natural numbers below 2^32: complement, single
bits, count of leading and trailing zeros, and rounding to a power of two. -/
namespace LiteOsKernel.Word

/-- Sum of two words, with wrap-around. -/
@[irreducible] def add (x y : Nat) : Nat := (x + y) % 2^32

/-- Difference of two words, with wrap-around. -/
@[irreducible] def sub (x y : Nat) : Nat := if y ≤ x then x - y else x + 2^32 - y

/-- Left shift of a word; the bits above the word are lost. -/
@[irreducible] def shl (x k : Nat) : Nat := (x <<< k) % 2^32

theorem add_eq {x y : Nat} (h : x + y < 2^32) : add x y = x + y := by
  rw [add]
  exact Nat.mod_eq_of_lt h

theorem sub_eq {x y : Nat} (h : y ≤ x) : sub x y = x - y := by
  rw [sub, if_pos h]

theorem sub_eq_of_lt {x y : Nat} (h : x < y) : sub x y = x + 2^32 - y := by
  rw [sub, if_neg (by omega)]

theorem shl_one {k : Nat} (h : k < 32) : shl 1 k = 2^k := by
  rw [shl, Nat.one_shiftLeft]
  exact Nat.mod_eq_of_lt (Nat.pow_lt_pow_right (by norm_num) h)

/-- Bitwise complement of a 32-bit word. -/
def not (x : Nat) : Nat := 2^32 - 1 - x

/-- Leading zeros of a 32-bit word. -/
def clz (x : Nat) : Nat := if x = 0 then 32 else 31 - x.log2

/-- Trailing zeros of a 32-bit word. -/
def ctz (x : Nat) : Nat := ((List.range 32).find? x.testBit).getD 32

def setBit (x i : Nat) : Nat := x ||| 1 <<< i

def clearBit (x i : Nat) : Nat := x &&& not (1 <<< i)

theorem testBit_not {x : Nat} (hx : x < 2^32) (i : Nat) :
    (not x).testBit i = (decide (i < 32) && !x.testBit i) := by
  rw [not, Nat.sub_sub, Nat.add_comm 1 x]
  exact Nat.testBit_two_pow_sub_succ hx i

private theorem one_shl_lt {i : Nat} (hi : i < 32) : 1 <<< i < 2^32 := by
  rw [Nat.one_shiftLeft]
  exact Nat.pow_lt_pow_right (by norm_num) hi

@[simp] theorem testBit_setBit (x i j : Nat) :
    (setBit x i).testBit j = (x.testBit j || decide (i = j)) := by
  simp only [setBit, Nat.testBit_or, Nat.one_shiftLeft, Nat.testBit_two_pow]

theorem testBit_clearBit {x i : Nat} (hi : i < 32) (hx : x < 2^32) (j : Nat) :
    (clearBit x i).testBit j = (x.testBit j && decide (i ≠ j)) := by
  rw [clearBit, Nat.testBit_and, testBit_not (one_shl_lt hi), Nat.one_shiftLeft, Nat.testBit_two_pow]
  by_cases hj : j < 32
  · by_cases hij : i = j <;> simp [hj, hij]
  · have h : x.testBit j = false := Nat.testBit_lt_two_pow
      (hx.trans_le (Nat.pow_le_pow_right (by norm_num) (not_lt.mp hj)))
    simp [h]

theorem setBit_lt {x i : Nat} (hx : x < 2^32) (hi : i < 32) : setBit x i < 2^32 :=
  Nat.or_lt_two_pow hx (one_shl_lt hi)

theorem clearBit_lt {x : Nat} (i : Nat) (hx : x < 2^32) : clearBit x i < 2^32 :=
  (Nat.and_le_left).trans_lt hx

theorem eq_zero_iff_testBit {x : Nat} (hx : x < 2^32) : x = 0 ↔ ∀ i < 32, x.testBit i = false := by
  constructor
  · rintro rfl i _
    simp
  · intro h
    apply Nat.eq_of_testBit_eq
    intro i
    rw [Nat.zero_testBit]
    by_cases hi : i < 32
    · exact h i hi
    · exact Nat.testBit_lt_two_pow
        (hx.trans_le (Nat.pow_le_pow_right (by norm_num) (not_lt.mp hi)))

private theorem and_complement_zero {n m : Nat} (hm : m < 2^n) : m &&& (2^n - (m+1)) = 0 := by
  apply Nat.eq_of_testBit_eq
  intro i
  rw [Nat.testBit_and, Nat.testBit_two_pow_sub_succ hm, Nat.zero_testBit]
  cases m.testBit i <;> simp

/-- A word and its two's complement share exactly the lowest set bit. -/
theorem and_neg_eq_two_pow (n : Nat) : ∀ x, 0 < x → x < 2^n →
    ∃ k < n, x &&& (2^n - x) = 2^k ∧ x.testBit k = true ∧ ∀ j < k, x.testBit j = false := by
  induction n with
  | zero => intro x h0 h1; omega
  | succ n ih =>
    intro x h0 h1
    have hp : 2^(n+1) = 2*2^n := by ring
    have hdiv : (x &&& (2^(n+1) - x))/2 = x/2 &&& (2^(n+1) - x)/2 := Nat.and_div_two
    rcases Nat.mod_two_eq_zero_or_one x with hx | hx
    · obtain ⟨k,hk,he,hb,hl⟩ := ih (x/2) (by omega) (by omega)
      refine ⟨k+1,by omega,?_,by simpa [Nat.testBit_succ] using hb,?_⟩
      · have h2 : (2^(n+1) - x)/2 = 2^n - x/2 := by omega
        have hm : (x &&& (2^(n+1) - x)) % 2 = 0 := by
          have := Nat.and_mod_two_pow (a := x) (b := 2^(n+1) - x) (n := 1)
          simp only [pow_one, hx, Nat.zero_and] at this
          exact this
        have hk2 : 2^(k+1) = 2*2^k := by ring
        rw [h2, he] at hdiv
        omega
      · intro j hj
        cases j with
        | zero => simp [Nat.testBit_zero, hx]
        | succ j => rw [Nat.testBit_succ]; exact hl j (by omega)
    · refine ⟨0,by omega,?_,by simp [Nat.testBit_zero, hx],by omega⟩
      have h2 : (2^(n+1) - x)/2 = 2^n - (x/2+1) := by omega
      rw [h2, and_complement_zero (by omega)] at hdiv
      have hm : (x &&& (2^(n+1) - x)) % 2 = 1 := by
        have h3 : (2^(n+1) - x) % 2 = 1 := by omega
        have := Nat.and_mod_two_pow (a := x) (b := 2^(n+1) - x) (n := 1)
        simp only [pow_one, hx, h3] at this
        exact this
      omega

theorem clz_two_pow {k : Nat} : clz (2^k) = 31 - k := by
  simp [clz]

/-- The power of two given by the trailing zeros divides the word, zero included. -/
theorem two_pow_ctz_dvd {x : Nat} (hx : x < 2^32) {k : Nat} (hk : k ≤ ctz x) : 2^k ∣ x := by
  have hlow : ∀ i < k, x.testBit i = false := by
    intro i hi
    rcases hf : (List.range 32).find? x.testBit with - | j
    · by_cases h32 : i < 32
      · simpa using List.find?_eq_none.mp hf i (List.mem_range.mpr h32)
      · exact Nat.testBit_lt_two_pow (hx.trans_le (Nat.pow_le_pow_right (by norm_num) (not_lt.mp h32)))
    · rw [ctz, hf, Option.getD_some] at hk
      have := (List.find?_range_eq_some.mp hf).2.2 i (by omega)
      simpa using this
  apply Nat.dvd_of_mod_eq_zero
  apply Nat.eq_of_testBit_eq
  intro i
  rw [Nat.testBit_mod_two_pow, Nat.zero_testBit]
  by_cases hi : i < k
  · simp [hi, hlow i hi]
  · simp [hi]

theorem log2_lt {x : Nat} (h0 : x ≠ 0) (hx : x < 2^32) : x.log2 < 32 := (Nat.log2_lt h0).mpr hx

theorem testBit_log2 {x : Nat} (h0 : x ≠ 0) : x.testBit x.log2 = true := by
  have h1 := Nat.log2_self_le h0
  have h2 : x < 2^(x.log2+1) := Nat.lt_log2_self
  rw [Nat.testBit_eq_decide_div_mod_eq]
  have h3 : x / 2^x.log2 = 1 := by
    apply Nat.div_eq_of_lt_le
    · simpa using h1
    · rw [pow_succ] at h2; omega
  simp [h3]

theorem testBit_of_log2_lt {x j : Nat} (h : x.log2 < j) : x.testBit j = false := by
  apply Nat.testBit_lt_two_pow
  exact (Nat.lt_log2_self).trans_le (Nat.pow_le_pow_right (by norm_num) h)

theorem and_two_pow_eq_zero (x k : Nat) : x &&& 2^k = 0 ↔ x/2^k%2 = 0 := by
  rw [Nat.and_comm, Nat.two_pow_and, Nat.testBit_eq_decide_div_mod_eq]
  rcases Nat.mod_two_eq_zero_or_one (x/2^k) with h | h <;> simp [h]

private theorem or_two_pow_div (x k : Nat) : (x ||| 2^k)/2^k = x/2^k ||| 1 := by
  rw [Nat.or_div_two_pow, Nat.div_self (Nat.two_pow_pos k)]

private theorem or_two_pow_mod (x k : Nat) : (x ||| 2^k)%2^k = x%2^k := by
  rw [Nat.or_mod_two_pow, Nat.mod_self, Nat.or_zero]

theorem or_two_pow_of_clear {x k : Nat} (h : x/2^k%2 = 0) : x ||| 2^k = x + 2^k := by
  have h1 : x/2^k ||| 1 = x/2^k + 1 := by
    have := Nat.two_pow_add_eq_or_of_lt (show 1 < 2^1 by norm_num) (x/2^k/2)
    rw [pow_one, Nat.mul_div_cancel' (Nat.dvd_of_mod_eq_zero h)] at this
    exact this.symm
  have h2 := Nat.div_add_mod (x ||| 2^k) (2^k)
  rw [or_two_pow_div, or_two_pow_mod, h1, Nat.mul_add, Nat.mul_one] at h2
  have h3 := Nat.div_add_mod x (2^k)
  omega

theorem or_two_pow_of_set {x k : Nat} (h : x/2^k%2 = 1) : x ||| 2^k = x := by
  apply Nat.eq_of_testBit_eq
  intro i
  rw [Nat.testBit_or, Nat.testBit_two_pow]
  by_cases hi : k = i
  · subst hi
    simp [Nat.testBit_eq_decide_div_mod_eq, h]
  · simp [hi]

/-- Masking off the low k bits of a word rounds it down to a multiple of 2^k. -/
theorem and_not_low {x k : Nat} (hx : x < 2^32) (hk : k ≤ 32) : x &&& not (2^k-1) = x/2^k*2^k := by
  have hp : 2^k ≤ 2^32 := Nat.pow_le_pow_right (by norm_num) hk
  have h0 : 0 < 2^k := Nat.two_pow_pos k
  apply Nat.eq_of_testBit_eq
  intro i
  rw [Nat.testBit_and, testBit_not (by omega), Nat.testBit_two_pow_sub_one, Nat.mul_comm,
    ← Nat.shiftRight_eq_div_pow, Nat.testBit_two_pow_mul, Nat.testBit_shiftRight]
  by_cases hi : k ≤ i
  · by_cases h32 : i < 32
    · simp [hi, h32, Nat.add_sub_cancel' hi]
    · have h : x.testBit i = false := Nat.testBit_lt_two_pow
        (hx.trans_le (Nat.pow_le_pow_right (by norm_num) (not_lt.mp h32)))
      simp [h, Nat.add_sub_cancel' hi]
  · simp [hi, not_le.mp hi]

/-- Rounding up to a multiple of b. -/
def alignUp (x b : Nat) : Nat := (x + b - 1)/b*b

theorem le_alignUp {b : Nat} (x : Nat) (hb : 0 < b) : x ≤ alignUp x b := by
  have := Nat.div_add_mod (x+b-1) b
  have := Nat.mod_lt (x+b-1) hb
  rw [alignUp, Nat.mul_comm]
  omega

theorem alignUp_lt {b : Nat} (x : Nat) (hb : 0 < b) : alignUp x b < x + b := by
  have := Nat.div_mul_le_self (x+b-1) b
  rw [alignUp]
  omega

theorem dvd_alignUp (x b : Nat) : b ∣ alignUp x b := Nat.dvd_mul_left b _

end LiteOsKernel.Word
