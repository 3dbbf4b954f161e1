import Mathlib.Algebra.Order.Field.Rat
import Mathlib.Tactic.FieldSimp
import Mathlib.Tactic.Linarith
import Mathlib.Tactic.Positivity
import Mathlib.Tactic.Ring

/-!
Numbers rounded to so many significant binary digits, to the nearest, and to the even one
of two that are equally near. The exponent has no bounds, so that this is a binary floating
point format away from its overflow and its subnormal numbers. Fractions of whole numbers
stand for the numbers, so that rounding can be run; the rules below are about the rational
numbers they stand for.
-/
namespace PiJade.Rounding

/-- A fraction; its denominator is positive where it is used as a number. -/
structure Fraction where
  num : Nat
  den : Nat

/-- The whole number nearest to `num / den`, the even one in the middle. -/
def nearest (num den : Nat) : Nat :=
  let below := num / den
  let twice := 2 * (num % den)
  if twice < den || (twice == den && below % 2 == 0) then below else below + 1

/-- Places to shift by, so that the whole part has all the digits that are kept. -/
def Fraction.shift (precision : Nat) (x : Fraction) : Nat := precision + x.den.log2 + 1

/-- The digits of the shifted whole part that are not kept. -/
def Fraction.dropped (precision : Nat) (x : Fraction) : Nat :=
  (x.num * 2 ^ x.shift precision / x.den).log2 + 1 - precision

def Fraction.round (precision : Nat) (x : Fraction) : Fraction where
  num := nearest (x.num * 2 ^ x.shift precision) (x.den * 2 ^ x.dropped precision) * 2 ^ x.dropped precision
  den := 2 ^ x.shift precision

def Fraction.div (x : Fraction) (n : Nat) : Fraction := ⟨x.num, x.den * n⟩

/-- The nearest count of units of a decimal place. -/
def Fraction.units (places : Nat) (x : Fraction) : Nat := nearest (x.num * 10 ^ places) x.den

def Fraction.value (x : Fraction) : ℚ := x.num / x.den

/-! ### The nearest whole number -/

theorem nearest_bounds (num : Nat) {den : Nat} (positive : 0 < den) :
    2 * (nearest num den * den) ≤ 2 * num + den ∧ 2 * num ≤ 2 * (nearest num den * den) + den := by
  have parts : num / den * den + num % den = num := by
    rw [Nat.mul_comm]
    exact Nat.div_add_mod num den
  have rest := Nat.mod_lt num positive
  rw [nearest]
  split
  · next down =>
    simp only [Bool.or_eq_true, Bool.and_eq_true, decide_eq_true_eq, beq_iff_eq] at down
    omega
  · next up =>
    simp only [Bool.or_eq_true, Bool.and_eq_true, decide_eq_true_eq, beq_iff_eq, not_or, not_and] at up
    rw [Nat.add_mul, Nat.one_mul]
    omega

theorem nearest_error (num : Nat) {den : Nat} (positive : 0 < den) : |(nearest num den : ℚ) - num / den| ≤ 1 / 2 := by
  obtain ⟨low, high⟩ := nearest_bounds num positive
  have denominator : (0 : ℚ) < den := by exact_mod_cast positive
  have cleared : (nearest num den : ℚ) - num / den = (nearest num den * den - num) / den := by field_simp
  have low' : 2 * ((nearest num den : ℚ) * den) ≤ 2 * num + den := by exact_mod_cast low
  have high' : 2 * (num : ℚ) ≤ 2 * (nearest num den * den) + den := by exact_mod_cast high
  rw [cleared, abs_div, abs_of_pos denominator, div_le_iff₀ denominator, abs_le]
  constructor <;> linarith

/-- A whole number less than a half away is the nearest. -/
theorem nearest_eq {num den m : Nat} (positive : 0 < den) (near : |(num : ℚ) / den - m| < 1 / 2) :
    nearest num den = m := by
  have error := nearest_error num positive
  have apart : |(nearest num den : ℚ) - m| < 1 := by
    have triangle := abs_sub_le (nearest num den : ℚ) (num / den) m
    linarith
  obtain ⟨above, below⟩ := abs_lt.mp apart
  have below' : (nearest num den : ℚ) < (m + 1 : Nat) := by push_cast; linarith
  have above' : (m : ℚ) < (nearest num den + 1 : Nat) := by push_cast; linarith
  rw [Nat.cast_lt] at below' above'
  omega

@[simp] theorem nearest_mul (m : Nat) {den : Nat} (positive : 0 < den) : nearest (m * den) den = m := by
  apply nearest_eq positive
  have denominator : (den : ℚ) ≠ 0 := by exact_mod_cast positive.ne'
  rw [Nat.cast_mul, mul_div_cancel_right₀ _ denominator, sub_self, abs_zero]
  norm_num

variable {x : Fraction}

theorem scaled (places : Nat) (x : Fraction) : ((x.num * 10 ^ places : Nat) : ℚ) / x.den = x.value * 10 ^ places := by
  rw [Fraction.value, div_mul_eq_mul_div, Nat.cast_mul, Nat.cast_pow, Nat.cast_ofNat]

theorem units_error (places : Nat) (positive : 0 < x.den) :
    |(x.units places : ℚ) - x.value * 10 ^ places| ≤ 1 / 2 := by
  rw [← scaled]
  exact nearest_error _ positive

theorem units_eq {places m : Nat} (positive : 0 < x.den) (near : |x.value * 10 ^ places - m| < 1 / 2) :
    x.units places = m := by
  rw [← scaled] at near
  exact nearest_eq positive near

theorem div_value (x : Fraction) (n : Nat) : (x.div n).value = x.value / n := by
  rw [Fraction.value, Fraction.value, div_div, Fraction.div, Nat.cast_mul]

theorem div_den_pos {n : Nat} (positive : 0 < x.den) (divisor : 0 < n) : 0 < (x.div n).den :=
  Nat.mul_pos positive divisor

/-! ### Significant digits -/

variable (precision : Nat)

theorem round_den_pos (x : Fraction) : 0 < (x.round precision).den := Nat.two_pow_pos _

/-- Below `2 ^ k`, the digits dropped are those beyond the precision. -/
theorem dropped_le {k : Nat} (positive : 0 < x.den) (below : x.num < 2 ^ k * x.den) :
    precision + x.dropped precision ≤ k + x.shift precision := by
  have reaches : precision < x.shift precision := by
    rw [Fraction.shift]
    omega
  rw [Fraction.dropped]
  by_cases zero : x.num * 2 ^ x.shift precision / x.den = 0
  · simp only [zero, Nat.log2_zero]
    omega
  · have small : x.num * 2 ^ x.shift precision / x.den < 2 ^ (k + x.shift precision) := by
      rw [Nat.div_lt_iff_lt_mul positive, pow_add]
      calc x.num * 2 ^ x.shift precision < 2 ^ k * x.den * 2 ^ x.shift precision :=
            Nat.mul_lt_mul_of_pos_right below (Nat.two_pow_pos _)
        _ = 2 ^ k * 2 ^ x.shift precision * x.den := by ring
    have digits := (Nat.log2_lt zero).mpr small
    omega

/-- Below `2 ^ k`, the error is at most half a unit in the last digit kept. -/
theorem round_error {k : Nat} (positive : 0 < x.den) (below : x.value < 2 ^ k) :
    |(x.round precision).value - x.value| ≤ 2 ^ k / 2 ^ (precision + 1) := by
  have denominator : (0 : ℚ) < x.den := by exact_mod_cast positive
  have below' : x.num < 2 ^ k * x.den := by
    rw [Fraction.value, div_lt_iff₀ denominator] at below
    exact_mod_cast below
  have dropped : (2 : ℚ) ^ precision * 2 ^ x.dropped precision ≤ 2 ^ k * 2 ^ x.shift precision := by
    rw [← pow_add, ← pow_add]
    exact pow_le_pow_right₀ (by norm_num) (dropped_le precision positive below')
  have error := nearest_error (x.num * 2 ^ x.shift precision)
    (Nat.mul_pos positive (Nat.two_pow_pos (x.dropped precision)))
  generalize kept : nearest (x.num * 2 ^ x.shift precision) (x.den * 2 ^ x.dropped precision) = significand at error
  have scaled : (x.round precision).value - x.value =
      ((significand : ℚ) - (x.num * 2 ^ x.shift precision : Nat) / (x.den * 2 ^ x.dropped precision : Nat)) *
        (2 ^ x.dropped precision / 2 ^ x.shift precision) := by
    simp only [Fraction.value, Fraction.round, kept]
    push_cast
    field_simp
  rw [scaled, abs_mul, abs_of_pos (a := (2 : ℚ) ^ x.dropped precision / 2 ^ x.shift precision) (by positivity)]
  calc _ ≤ 1 / 2 * ((2 : ℚ) ^ x.dropped precision / 2 ^ x.shift precision) :=
        mul_le_mul_of_nonneg_right error (by positivity)
    _ ≤ 2 ^ k / 2 ^ (precision + 1) := by
        rw [pow_succ, div_mul_div_comm, div_le_div_iff₀ (by positivity) (by positivity)]
        linarith

theorem round_lt {k : Nat} (positive : 0 < x.den) (below : x.value < 2 ^ k) :
    (x.round precision).value < 2 ^ (k + 1) := by
  have error := (abs_le.mp (round_error precision positive below)).2
  have tolerance : (2 : ℚ) ^ k / 2 ^ (precision + 1) ≤ 2 ^ k :=
    div_le_self (by positivity) (one_le_pow₀ (by norm_num))
  rw [pow_succ]
  linarith

/-- A whole number of no more digits than are kept does not change. -/
theorem round_whole {n : Nat} (fits : n < 2 ^ precision) :
    (Fraction.round precision ⟨n, 1⟩).value = n := by
  have kept : Fraction.dropped precision ⟨n, 1⟩ ≤ Fraction.shift precision ⟨n, 1⟩ := by
    have dropped := dropped_le precision (x := ⟨n, 1⟩) (k := precision) Nat.one_pos (by simpa using fits)
    omega
  obtain ⟨more, shift⟩ := Nat.exists_eq_add_of_le' kept
  simp only [Fraction.value, Fraction.round, shift, pow_add, Nat.one_mul, ← Nat.mul_assoc,
    nearest_mul _ (Nat.two_pow_pos _)]
  push_cast
  field_simp

end PiJade.Rounding
