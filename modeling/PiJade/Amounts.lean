import PiJade.Process
import PiJade.Radix
import PiJade.Rounding

/-!
How a bitcoin amount reads on the screens (`format_btc_amount` of `main/ui/sign_tx.c`): in
satoshis as a whole number; in BTC as a `double` printed with eight decimals. The text fits
its buffer for every amount. In satoshis, and below 2^26 BTC, it is exactly the amount; from
there on the quotient keeps too few digits.
-/
namespace PiJade.Amounts
open Radix Rounding

/-- The text of an amount and its unit, as they are passed to a screen. -/
structure Amount where
  text : String
  ticker : String
  deriving DecidableEq, Repr

def TICKER_BTC : String := "BTC"
def TICKER_SATS : String := "sats"

/-- The significant binary digits of a `double`. No amount is near its least or its greatest number. -/
def DBL_MANT_DIG : Nat := 53

/-- `1.0 * satoshi`. -/
def toDouble (satoshi : UInt64) : Fraction := Fraction.round DBL_MANT_DIG ⟨satoshi.toNat, 1⟩

/-- `1.0 * satoshi / 1e8`. -/
def inBtc (satoshi : UInt64) : Fraction := ((toDouble satoshi).div (10 ^ 8)).round DBL_MANT_DIG

/-- A number of so many units of the eighth decimal place. -/
def eightDecimals (units : Nat) : String :=
  Nat.repr (units / 10 ^ 8) ++ "." ++ String.ofList ((toRadix 10 8 (units % 10 ^ 8)).map Nat.digitChar)

/-- What `"%.08f"` prints: the nearest number of eight decimals. -/
def printed (x : Fraction) : String := eightDecimals (x.units 8)

/-- What an amount reads; `denomination_sats` is `FEATURE_FLAGS_DENOMINATION_SATS`. -/
def shownAmount (denomination_sats : Bool) (satoshi : UInt64) : Amount :=
  if denomination_sats then ⟨Nat.repr satoshi.toNat, TICKER_SATS⟩ else ⟨printed (inBtc satoshi), TICKER_BTC⟩

/-- The text in `buf`, and the ticker returned. -/
def format_btc_amount {ε : Type} (denomination_sats : Bool) (satoshi : UInt64) (buf_len : Nat) : Check ε Amount := do
  Check.ensure (decide (0 < buf_len))
  let amount := shownAmount denomination_sats satoshi
  Check.ensure (decide (0 < amount.text.length) && decide (amount.text.length < buf_len))
  return amount

/-- How an amount should read. -/
def exactAmount (denomination_sats : Bool) (satoshi : UInt64) : Amount :=
  if denomination_sats then ⟨Nat.repr satoshi.toNat, TICKER_SATS⟩ else ⟨eightDecimals satoshi.toNat, TICKER_BTC⟩

/-! ### The text -/

theorem eightDecimals_length (units : Nat) : (eightDecimals units).length = (Nat.repr (units / 10 ^ 8)).length + 9 := by
  simp only [eightDecimals, String.length_append, String.length_ofList, List.length_map, length_toRadix]
  rfl

theorem repr_injective {m n : Nat} (same : Nat.repr m = Nat.repr n) : m = n := by
  have digits := congrArg String.toList same
  rw [Nat.toList_repr, Nat.toList_repr] at digits
  rw [← Nat.ofDigitChars_ten_toDigits (n := m), digits, Nat.ofDigitChars_ten_toDigits]

theorem digits_recovered (count n : Nat) :
    ((toRadix 10 count n).map Nat.digitChar).map (fun ch => ch.toNat - 48) = toRadix 10 count n := by
  have recovered : ∀ digit < 10, (Nat.digitChar digit).toNat - 48 = digit := by decide
  rw [List.map_map]
  exact (List.map_congr_left fun digit mem => recovered digit (toRadix_lt (by decide) count n digit mem)).trans
    (List.map_id _)

theorem eightDecimals_injective {m n : Nat} (same : eightDecimals m = eightDecimals n) : m = n := by
  have lists := congrArg String.toList same
  simp only [eightDecimals, String.toList_append, String.toList_ofList, List.append_assoc] at lists
  obtain ⟨whole, decimals⟩ := List.append_inj' lists (by simp)
  have quotients : m / 10 ^ 8 = n / 10 ^ 8 := repr_injective (String.toList_inj.mp whole)
  have remainders : m % 10 ^ 8 = n % 10 ^ 8 := by
    have written := congrArg (List.map fun ch => ch.toNat - 48) (List.append_cancel_left decimals)
    rw [digits_recovered, digits_recovered] at written
    have m_fits : m % 10 ^ 8 < 10 ^ 8 := Nat.mod_lt m (by decide)
    have n_fits : n % 10 ^ 8 < 10 ^ 8 := Nat.mod_lt n (by decide)
    rw [← ofRadix_toRadix m_fits, written, ofRadix_toRadix n_fits]
  rw [← Nat.div_add_mod m (10 ^ 8), quotients, remainders, Nat.div_add_mod]

theorem exactAmount_injective {denomination_sats : Bool} {m n : UInt64}
    (same : exactAmount denomination_sats m = exactAmount denomination_sats n) : m = n := by
  apply UInt64.toNat_inj.mp
  cases denomination_sats with
  | false => exact eightDecimals_injective (congrArg Amount.text same)
  | true => exact repr_injective (congrArg Amount.text same)

/-! ### The rounding -/

theorem quotient_den_pos (satoshi : UInt64) : 0 < ((toDouble satoshi).div (10 ^ 8)).den :=
  div_den_pos (round_den_pos _ _) (by decide)

theorem inBtc_den_pos (satoshi : UInt64) : 0 < (inBtc satoshi).den := round_den_pos _ _

theorem quotient_value (satoshi : UInt64) :
    ((toDouble satoshi).div (10 ^ 8)).value = (toDouble satoshi).value / 10 ^ 8 := by
  rw [div_value, Nat.cast_pow, Nat.cast_ofNat]

theorem inBtc_lt (satoshi : UInt64) : (inBtc satoshi).value < 2 ^ 41 := by
  have fits : Fraction.value ⟨satoshi.toNat, 1⟩ < 2 ^ 64 := by
    rw [Fraction.value, Nat.cast_one, div_one]
    exact_mod_cast satoshi.toNat_lt
  have converted : (toDouble satoshi).value < 2 ^ 65 := round_lt _ Nat.one_pos fits
  have quotient : ((toDouble satoshi).div (10 ^ 8)).value < 2 ^ 40 := by
    rw [quotient_value, div_lt_iff₀ (by norm_num)]
    exact converted.trans_le (by norm_num)
  exact round_lt _ (quotient_den_pos satoshi) quotient

/-- Below 2^26 BTC the quotient is rounded by less than half a unit of the eighth decimal, and
    the amount itself not at all. -/
theorem inBtc_error {satoshi : UInt64} (small : satoshi.toNat < 2 ^ 26 * 10 ^ 8) :
    |(inBtc satoshi).value * 10 ^ 8 - satoshi.toNat| < 1 / 2 := by
  have quotient : ((toDouble satoshi).div (10 ^ 8)).value = satoshi.toNat / 10 ^ 8 := by
    rw [quotient_value, toDouble, round_whole _ (small.trans (by decide))]
  have below : (satoshi.toNat : ℚ) / 10 ^ 8 < 2 ^ 26 := by
    rw [div_lt_iff₀ (by norm_num)]
    exact_mod_cast small
  have error := round_error DBL_MANT_DIG (quotient_den_pos satoshi) (quotient ▸ below)
  rw [quotient, ← inBtc] at error
  have factored : (inBtc satoshi).value * 10 ^ 8 - satoshi.toNat =
      ((inBtc satoshi).value - satoshi.toNat / 10 ^ 8) * 10 ^ 8 := by ring
  rw [factored, abs_mul, abs_of_pos (show (0 : ℚ) < 10 ^ 8 by norm_num)]
  calc _ ≤ (2 : ℚ) ^ 26 / 2 ^ (DBL_MANT_DIG + 1) * 10 ^ 8 := mul_le_mul_of_nonneg_right error (by norm_num)
    _ < 1 / 2 := by
      rw [DBL_MANT_DIG]
      norm_num

/-- In satoshis, and below 2^26 BTC, an amount reads as it should. -/
theorem shownAmount_exact {denomination_sats : Bool} {satoshi : UInt64}
    (readable : denomination_sats = true ∨ satoshi.toNat < 2 ^ 26 * 10 ^ 8) :
    shownAmount denomination_sats satoshi = exactAmount denomination_sats satoshi := by
  cases denomination_sats with
  | true => rw [shownAmount, exactAmount, if_pos rfl, if_pos rfl]
  | false =>
    have small := readable.resolve_left Bool.false_ne_true
    have units : (inBtc satoshi).units 8 = satoshi.toNat := units_eq (inBtc_den_pos satoshi) (inBtc_error small)
    simp only [shownAmount, exactAmount, printed, units]

/-- Below 2^26 BTC, two amounts that read the same are the same. -/
theorem shownAmount_injective {denomination_sats : Bool} {m n : UInt64}
    (m_readable : denomination_sats = true ∨ m.toNat < 2 ^ 26 * 10 ^ 8)
    (n_readable : denomination_sats = true ∨ n.toNat < 2 ^ 26 * 10 ^ 8)
    (same : shownAmount denomination_sats m = shownAmount denomination_sats n) : m = n := by
  rw [shownAmount_exact m_readable, shownAmount_exact n_readable] at same
  exact exactAmount_injective same

/-- The texts are short: a whole part of at most thirteen digits, or twenty digits. -/
theorem shownAmount_length (denomination_sats : Bool) (satoshi : UInt64) :
    0 < (shownAmount denomination_sats satoshi).text.length ∧
      (shownAmount denomination_sats satoshi).text.length < 32 := by
  cases denomination_sats with
  | true =>
    have fits := satoshi.toNat_lt
    have digits : (Nat.repr satoshi.toNat).length ≤ 20 := (Nat.length_repr_le_iff (by decide)).mpr (by omega)
    simp only [shownAmount, if_true]
    exact ⟨Nat.length_repr_pos, by omega⟩
  | false =>
    have units : (inBtc satoshi).units 8 < 10 ^ 21 := by
      have rounded := (abs_le.mp (units_error 8 (inBtc_den_pos satoshi))).2
      have value := inBtc_lt satoshi
      generalize (inBtc satoshi).units 8 = units at rounded
      have bounded : (units : ℚ) < 10 ^ 21 := by linarith
      exact_mod_cast bounded
    have digits : (Nat.repr ((inBtc satoshi).units 8 / 10 ^ 8)).length ≤ 13 :=
      (Nat.length_repr_le_iff (by decide)).mpr (by omega)
    have text : (shownAmount false satoshi).text = printed (inBtc satoshi) := by
      rw [shownAmount, if_neg Bool.false_ne_true]
    rw [text, printed, eightDecimals_length]
    omega

/-- The text fits its buffer, whatever the amount. -/
theorem format_btc_amount_eq {ε : Type} (denomination_sats : Bool) (satoshi : UInt64) {buf_len : Nat}
    (room : 32 ≤ buf_len) :
    (format_btc_amount denomination_sats satoshi buf_len : Check ε Amount) =
      .ok (shownAmount denomination_sats satoshi) := by
  obtain ⟨written, short⟩ := shownAmount_length denomination_sats satoshi
  have fits : (shownAmount denomination_sats satoshi).text.length < buf_len := by omega
  have buffer : 0 < buf_len := by omega
  simp only [format_btc_amount, buffer, written, fits, decide_true, Bool.and_self, Check.ensure_true, Check.ok_bind,
    Check.pure_eq]

end PiJade.Amounts
