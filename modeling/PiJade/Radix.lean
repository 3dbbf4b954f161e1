import Mathlib.Algebra.Group.Nat.Defs
import Mathlib.Data.List.Induction
import Mathlib.Tactic.Ring

/-!
Numbers written with a fixed count of digits, the first one the highest.
-/
namespace PiJade.Radix

def ofRadix (base : Nat) (digits : List Nat) : Nat := digits.foldl (fun n digit => n * base + digit) 0

def toRadix (base : Nat) : Nat → Nat → List Nat
  | 0, _ => []
  | count + 1, n => toRadix base count (n / base) ++ [n % base]

variable {base : Nat}

theorem ofRadix_concat (digits : List Nat) (digit : Nat) :
    ofRadix base (digits ++ [digit]) = ofRadix base digits * base + digit := by
  rw [ofRadix, List.foldl_append, List.foldl_cons, List.foldl_nil, ofRadix]

theorem foldl_from (digits : List Nat) (start : Nat) :
    digits.foldl (fun n digit => n * base + digit) start = start * base ^ digits.length + ofRadix base digits := by
  induction digits generalizing start with
  | nil => simp [ofRadix]
  | cons digit digits ih =>
    have later : ofRadix base (digit :: digits) = (0 * base + digit) * base ^ digits.length + ofRadix base digits :=
      ih (0 * base + digit)
    rw [List.foldl_cons, ih, later, List.length_cons]
    ring

theorem ofRadix_append (digits later : List Nat) :
    ofRadix base (digits ++ later) = ofRadix base digits * base ^ later.length + ofRadix base later := by
  rw [ofRadix, List.foldl_append, foldl_from, ← ofRadix]

theorem ofRadix_cons (digit : Nat) (digits : List Nat) :
    ofRadix base (digit :: digits) = digit * base ^ digits.length + ofRadix base digits := by
  rw [ofRadix, List.foldl_cons, foldl_from, Nat.zero_mul, Nat.zero_add]

@[simp] theorem length_toRadix (count n : Nat) : (toRadix base count n).length = count := by
  induction count generalizing n with
  | zero => rfl
  | succ count ih => rw [toRadix, List.length_append, ih, List.length_singleton]

theorem toRadix_lt (positive : 0 < base) (count n : Nat) : ∀ digit ∈ toRadix base count n, digit < base := by
  induction count generalizing n with
  | zero => exact fun _ => nofun
  | succ count ih =>
    intro digit mem
    rcases List.mem_append.mp mem with higher | last
    · exact ih _ digit higher
    · rw [List.mem_singleton.mp last]
      exact Nat.mod_lt n positive

theorem ofRadix_toRadix {count n : Nat} (fits : n < base ^ count) : ofRadix base (toRadix base count n) = n := by
  induction count generalizing n with
  | zero =>
    rw [Nat.pow_zero] at fits
    rw [toRadix, ofRadix, List.foldl_nil]
    omega
  | succ count ih =>
    rw [toRadix, ofRadix_concat, ih]
    · exact Nat.div_add_mod' n base
    · rw [Nat.pow_succ, Nat.mul_comm] at fits
      exact Nat.div_lt_of_lt_mul fits

theorem toRadix_ofRadix {digits : List Nat} (small : ∀ digit ∈ digits, digit < base) :
    toRadix base digits.length (ofRadix base digits) = digits := by
  induction digits using List.reverseRecOn with
  | nil => rfl
  | append_singleton digits digit ih =>
    have last : digit < base := small digit (List.mem_append_right _ List.mem_cons_self)
    have positive : 0 < base := Nat.lt_of_le_of_lt (Nat.zero_le _) last
    rw [List.length_append, List.length_singleton, ofRadix_concat, toRadix, Nat.mul_comm, Nat.mul_add_div positive,
      Nat.mul_add_mod, Nat.div_eq_of_lt last, Nat.mod_eq_of_lt last, Nat.add_zero,
      ih fun digit mem => small digit (List.mem_append_left _ mem)]

theorem ofRadix_lt {digits : List Nat} (small : ∀ digit ∈ digits, digit < base) :
    ofRadix base digits < base ^ digits.length := by
  induction digits using List.reverseRecOn with
  | nil => exact Nat.one_pos
  | append_singleton digits digit ih =>
    have last : digit < base := small digit (List.mem_append_right _ List.mem_cons_self)
    have higher := ih fun digit mem => small digit (List.mem_append_left _ mem)
    rw [ofRadix_concat, List.length_append, List.length_singleton, Nat.pow_succ]
    calc ofRadix base digits * base + digit < ofRadix base digits * base + base := Nat.add_lt_add_left last _
      _ = (ofRadix base digits + 1) * base := (Nat.succ_mul _ _).symm
      _ ≤ base ^ digits.length * base := Nat.mul_le_mul_right _ higher

theorem ofRadix_inj {digits digits' : List Nat} (small : ∀ digit ∈ digits, digit < base)
    (small' : ∀ digit ∈ digits', digit < base) (length : digits.length = digits'.length)
    (same : ofRadix base digits = ofRadix base digits') : digits = digits' := by
  rw [← toRadix_ofRadix small, ← toRadix_ofRadix small', length, same]

/-- A number is told by its digits, each at its place. -/
theorem eq_of_digits {count a b : Nat} (fits : a < base ^ count) (fits' : b < base ^ count)
    (same : ∀ i, i < count → a / base ^ i % base = b / base ^ i % base) : a = b := by
  induction count generalizing a b with
  | zero =>
    rw [Nat.pow_zero] at fits fits'
    omega
  | succ count ih =>
    have higher : a / base = b / base := by
      refine ih ?_ ?_ ?_
      · rw [Nat.pow_succ, Nat.mul_comm] at fits
        exact Nat.div_lt_of_lt_mul fits
      · rw [Nat.pow_succ, Nat.mul_comm] at fits'
        exact Nat.div_lt_of_lt_mul fits'
      · intro i inside
        rw [Nat.div_div_eq_div_mul, Nat.div_div_eq_div_mul, ← Nat.pow_succ']
        exact same (i + 1) (Nat.succ_lt_succ inside)
    have last := same 0 (Nat.succ_pos count)
    rw [Nat.pow_zero, Nat.div_one, Nat.div_one] at last
    rw [← Nat.div_add_mod a base, ← Nat.div_add_mod b base, higher, last]

end PiJade.Radix
