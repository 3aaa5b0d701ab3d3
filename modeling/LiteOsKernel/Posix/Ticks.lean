import LiteOsKernel.Posix.Cond
import Mathlib.Algebra.Order.Floor.Div
import Mathlib.Tactic.NormNum
import Mathlib.Tactic.Linarith

/-! Time specifications in ticks and back, after time_posix.h. -/
namespace LiteOsKernel.Posix
open LiteOsKernel.Ipc (LOS_WAIT_FOREVER)

variable {T tick : Nat} {tp tp' : TimeSpec}

/-- OsTick2TimeSpec; the product and the quotients fit into 64 bits. -/
def osTick2TimeSpec (TICK_PER_SECOND tick : Nat) : TimeSpec :=
  let ns := tick * OS_SYS_NS_PER_SECOND / TICK_PER_SECOND
  ⟨(ns / OS_SYS_NS_PER_SECOND : Nat),(ns % OS_SYS_NS_PER_SECOND : Nat)⟩

namespace TimeSpec

/-- The nanoseconds of a time specification, as many as they are. -/
def toNs (tp : TimeSpec) : Nat := (tp.tv_sec * OS_SYS_NS_PER_SECOND + tp.tv_nsec).toNat

/-- The ticks that cover a time specification. -/
def ticks (TICK_PER_SECOND : Nat) (tp : TimeSpec) : Nat :=
  min ((tp.toNs * TICK_PER_SECOND) ⌈/⌉ OS_SYS_NS_PER_SECOND) LOS_WAIT_FOREVER

/-- What OsTimeSpec2Tick divides, before it is cut off to 64 bits. -/
def scaled (TICK_PER_SECOND : Nat) (tp : TimeSpec) : Nat := tp.toNs * TICK_PER_SECOND + (OS_SYS_NS_PER_SECOND - 1)

/-- The product fits into 64 bits, or what is left of it still makes LOS_WAIT_FOREVER ticks. -/
def Fits (TICK_PER_SECOND : Nat) (tp : TimeSpec) : Prop :=
  tp.scaled TICK_PER_SECOND < 2^64 ∨ LOS_WAIT_FOREVER * OS_SYS_NS_PER_SECOND ≤ tp.scaled TICK_PER_SECOND % 2^64

end TimeSpec
open TimeSpec

private theorem min_eq_ite (a b : Nat) : (if b < a then b else a) = min a b := by
  rw [min_def]
  split_ifs <;> omega

private theorem mod_mul_add_mod (a b c n : Nat) : (a % n * b + c) % n = (a*b + c) % n := by
  rw [Nat.add_mod, Nat.mod_mul_mod, ← Nat.add_mod]

/-- The code computes modulo 2^64 all along. -/
theorem osTimeSpec2Tick_eq (T : Nat) (tp : TimeSpec) :
    osTimeSpec2Tick T tp = min (tp.scaled T % 2^64 / OS_SYS_NS_PER_SECOND) LOS_WAIT_FOREVER := by
  have hdef : osTimeSpec2Tick T tp =
      min ((tp.toNs % 2^64 * T + (OS_SYS_NS_PER_SECOND - 1)) % 2^64 / OS_SYS_NS_PER_SECOND) LOS_WAIT_FOREVER := by
    rw [← min_eq_ite]
    rfl
  rw [hdef, mod_mul_add_mod, TimeSpec.scaled]

private theorem ticks_eq (T : Nat) (tp : TimeSpec) : tp.ticks T = min (tp.scaled T / OS_SYS_NS_PER_SECOND) LOS_WAIT_FOREVER := by
  rw [TimeSpec.ticks, TimeSpec.scaled, Nat.ceilDiv_eq_add_pred_div, Nat.add_sub_assoc (by decide)]

/-- A number that 64 bits do not hold makes more ticks than there are. -/
private theorem exact_iff (T : Nat) (tp : TimeSpec) : osTimeSpec2Tick T tp = tp.ticks T ↔ tp.Fits T := by
  rw [osTimeSpec2Tick_eq, ticks_eq, Fits]
  generalize tp.scaled T = x
  rw [OS_SYS_NS_PER_SECOND, LOS_WAIT_FOREVER]
  by_cases hx : x < 2^64
  · rw [Nat.mod_eq_of_lt hx]
    exact iff_of_true rfl (.inl hx)
  · have hlarge : min (x / 1000000000) 0xFFFFFFFF = 0xFFFFFFFF := Nat.min_eq_right (by omega)
    rw [hlarge, min_eq_right_iff]
    omega

private theorem ticks_mono (T : Nat) (h : tp.toNs ≤ tp'.toNs) : tp.ticks T ≤ tp'.ticks T := by
  rw [ticks_eq, ticks_eq]
  refine min_le_min_right _ (Nat.div_le_div_right ?_)
  exact Nat.add_le_add_right (Nat.mul_le_mul_right T h) _

private theorem toNs_osTick2TimeSpec (T tick : Nat) : (osTick2TimeSpec T tick).toNs = tick * OS_SYS_NS_PER_SECOND / T := by
  simp only [TimeSpec.toNs, osTick2TimeSpec]
  have := Nat.div_add_mod' (tick * OS_SYS_NS_PER_SECOND / T) OS_SYS_NS_PER_SECOND
  omega

/-- Rounding down to nanoseconds loses less than a tick. -/
private theorem tick_roundTrip (h0 : 0 < T) (hT : T ≤ 1000) (ht : tick < 2^32) : osTimeSpec2Tick T (osTick2TimeSpec T tick) = tick := by
  have hdiv := Nat.div_add_mod' (tick * OS_SYS_NS_PER_SECOND) T
  have hrem := Nat.mod_lt (tick * OS_SYS_NS_PER_SECOND) h0
  have hscaled : (osTick2TimeSpec T tick).scaled T / OS_SYS_NS_PER_SECOND = tick ∧ (osTick2TimeSpec T tick).scaled T < 2^64 := by
    rw [TimeSpec.scaled, toNs_osTick2TimeSpec]
    rw [OS_SYS_NS_PER_SECOND] at *
    constructor
    · refine Nat.div_eq_of_lt_le ?_ ?_
      · omega
      · omega
    · omega
  rw [osTimeSpec2Tick_eq, Nat.mod_eq_of_lt hscaled.2, hscaled.1, LOS_WAIT_FOREVER]
  omega

/-- What the conversions promise for two time specifications and a number of ticks. -/
structure TickLaw (T : Nat) (tp tp' : TimeSpec) (tick : Nat) : Prop where
  exact : osTimeSpec2Tick T tp = tp.ticks T
  exact' : osTimeSpec2Tick T tp' = tp'.ticks T
  mono : tp.toNs ≤ tp'.toNs → osTimeSpec2Tick T tp ≤ osTimeSpec2Tick T tp'
  roundTrip : osTimeSpec2Tick T (osTick2TimeSpec T tick) = tick

/-- The conversions keep their promise just for the specifications that fit. -/
theorem tickLaw_iff (h0 : 0 < T) (hT : T ≤ 1000) (ht : tick < 2^32) : TickLaw T tp tp' tick ↔ tp.Fits T ∧ tp'.Fits T := by
  constructor
  · intro h
    exact ⟨(exact_iff T tp).mp h.exact,(exact_iff T tp').mp h.exact'⟩
  · rintro ⟨hf,hf'⟩
    have he := (exact_iff T tp).mpr hf
    have he' := (exact_iff T tp').mpr hf'
    refine ⟨he,he',fun hle => ?_,tick_roundTrip h0 hT ht⟩
    rw [he, he']
    exact ticks_mono T hle

theorem tickLaw_iff_second : TickLaw 1000 ⟨1,500000⟩ ⟨2,0⟩ 7 ↔ TimeSpec.Fits 1000 ⟨1,500000⟩ ∧ TimeSpec.Fits 1000 ⟨2,0⟩ :=
  tickLaw_iff (by decide) (by decide) (by decide)

/-- At 1000 ticks a second 213 days and a bit are less than a second. -/
theorem tickLaw_fails_days : ¬ ∀ tp tp' tick, validTimeSpec tp = true → validTimeSpec tp' = true → tick < 2^32 →
    TickLaw 1000 tp tp' tick := by
  intro hall
  have h := (hall ⟨18446745,0⟩ ⟨18446745,0⟩ 0 (by decide) (by decide) (by decide)).exact
  rw [show osTimeSpec2Tick 1000 ⟨18446745,0⟩ = 927 from by decide +kernel] at h
  exact absurd h (by decide +kernel)

end LiteOsKernel.Posix
