import PiJade.Text

/-!
Decimal numbers (`main/utils/util.c`). Before a digit is taken, the value so far is compared with
the largest value that leaves room for it, so neither the multiplication nor the addition wraps.
-/
namespace PiJade.ParseUint
open Text
set_option linter.unusedSimpArgs false

def max_mul : UInt64 := 0xffffffffffffffff / 10
def max_mod : UInt64 := 0xffffffffffffffff % 10

/-- One round of the loop. -/
def round (value : UInt64) (ch : UInt8) : Option UInt64 :=
  if ch < '0'.toUInt8 ∨ ch > '9'.toUInt8 then none
  else
    let digit := (ch - '0'.toUInt8).toUInt64
    if value > max_mul ∨ (value = max_mul ∧ digit > max_mod) then none
    else some (value * 10 + digit)

def parse_uint64 (str : Bytes) : Option UInt64 :=
  if str.length = 0 ∨ str.length > 20 then none else str.foldlM round 0

def parse_uint32 (str : Bytes) : Option UInt32 :=
  match parse_uint64 str with
  | none => none
  | some value => if value > 0xffffffff then none else some (value &&& 0xffffffff).toUInt32

/-! ### One digit -/

/-- A round takes a digit exactly if the number that it makes is one of 64 bits. -/
theorem round_iff {value next : UInt64} {ch : UInt8} : round value ch = some next ↔
    isdigit ch = true ∧ value.toNat * 10 + (ch.toNat - 48) < 2 ^ 64 ∧ next.toNat = value.toNat * 10 + (ch.toNat - 48) := by
  have zero : '0'.toUInt8 = 48 := rfl
  have nine : '9'.toUInt8 = 57 := rfl
  have mul : max_mul.toNat = 1844674407370955161 := rfl
  have mod : max_mod.toNat = 5 := rfl
  unfold round
  rw [isdigit_iff, zero, nine]
  by_cases other : ch < 48 ∨ ch > 57
  · rw [if_pos other]
    constructor
    · intro none
      cases none
    · rintro ⟨⟨low, high⟩, _⟩
      rcases other with below | above
      · have := UInt8.lt_iff_toNat_lt.mp below
        simp only [UInt8.reduceToNat] at this
        omega
      · have := UInt8.lt_iff_toNat_lt.mp above
        simp only [UInt8.reduceToNat] at this
        omega
  · rw [if_neg other]
    rw [not_or, UInt8.not_lt, gt_iff_lt, UInt8.not_lt, UInt8.le_iff_toNat_le, UInt8.le_iff_toNat_le] at other
    simp only [UInt8.reduceToNat] at other
    have digit : (ch - 48).toUInt64.toNat = ch.toNat - 48 := by
      have above : (48 : UInt8) ≤ ch := UInt8.le_iff_toNat_le.mpr (by simpa using other.1)
      rw [UInt8.toNat_toUInt64, UInt8.toNat_sub_of_le _ _ above]
      rfl
    dsimp only
    by_cases large : value > max_mul ∨ (value = max_mul ∧ (ch - 48).toUInt64 > max_mod)
    · rw [if_pos large]
      constructor
      · intro none
        cases none
      · rintro ⟨_, small, _⟩
        rcases large with above | ⟨same, above⟩
        · have := UInt64.lt_iff_toNat_lt.mp above
          omega
        · have := UInt64.lt_iff_toNat_lt.mp above
          rw [same] at small
          omega
    · rw [if_neg large]
      have small : value.toNat * 10 + (ch.toNat - 48) < 2 ^ 64 := by
        rw [not_or, not_and, gt_iff_lt, gt_iff_lt, UInt64.not_lt, UInt64.not_lt, UInt64.le_iff_toNat_le,
          UInt64.le_iff_toNat_le, ← UInt64.toNat_inj, digit, mul, mod] at large
        omega
      have sum : (value * 10 + (ch - 48).toUInt64).toNat = value.toNat * 10 + (ch.toNat - 48) := by
        rw [UInt64.toNat_add, UInt64.toNat_mul, digit]
        simp only [UInt64.reduceToNat]
        omega
      rw [Option.some.injEq, ← UInt64.toNat_inj, sum, eq_comm]
      exact ⟨fun same => ⟨other, small, same⟩, fun known => known.2.2⟩

/-! ### All digits -/

/-- The number of some digits behind others. -/
def numberFrom (n : Nat) (digits : Bytes) : Nat := digits.foldl (fun n c => n * 10 + (c.toNat - 48)) n

theorem le_numberFrom (n : Nat) (digits : Bytes) : n ≤ numberFrom n digits := by
  induction digits generalizing n with
  | nil => exact Nat.le_refl n
  | cons c rest ih =>
    have later := ih (n * 10 + (c.toNat - 48))
    rw [numberFrom, List.foldl_cons, ← numberFrom]
    omega

theorem rounds_iff {str : Bytes} {value result : UInt64} : str.foldlM round value = some result ↔
    (∀ c ∈ str, isdigit c = true) ∧ numberFrom value.toNat str < 2 ^ 64 ∧ result.toNat = numberFrom value.toNat str := by
  induction str generalizing value with
  | nil =>
    have bound := value.toNat_lt
    rw [List.foldlM_nil, Option.pure_def, Option.some.injEq, ← UInt64.toNat_inj, eq_comm]
    exact ⟨fun same => ⟨nofun, bound, same⟩, fun known => known.2.2⟩
  | cons c rest ih =>
    rw [List.foldlM_cons, Option.bind_eq_bind, Option.bind_eq_some_iff, numberFrom, List.foldl_cons, ← numberFrom]
    constructor
    · rintro ⟨next, taken, later⟩
      obtain ⟨digit, _, same⟩ := round_iff.mp taken
      obtain ⟨digits, small, whole⟩ := ih.mp later
      rw [same] at small whole
      exact ⟨List.forall_mem_cons.mpr ⟨digit, digits⟩, small, whole⟩
    · rintro ⟨digits, small, whole⟩
      obtain ⟨digit, digits⟩ := List.forall_mem_cons.mp digits
      have first : value.toNat * 10 + (c.toNat - 48) < 2 ^ 64 := Nat.lt_of_le_of_lt (le_numberFrom _ rest) small
      have same : (UInt64.ofNat (value.toNat * 10 + (c.toNat - 48))).toNat = value.toNat * 10 + (c.toNat - 48) :=
        UInt64.toNat_ofNat_of_lt' first
      refine ⟨UInt64.ofNat (value.toNat * 10 + (c.toNat - 48)), round_iff.mpr ⟨digit, first, same⟩, ih.mpr ?_⟩
      rw [same]
      exact ⟨digits, small, whole⟩

/-- The strings of numbers below a limit. -/
def Decimal (limit : Nat) (str : Bytes) : Prop :=
  1 ≤ str.length ∧ str.length ≤ 20 ∧ (∀ c ∈ str, isdigit c = true) ∧ number str < limit

theorem parse_uint64_iff {str : Bytes} {value : UInt64} :
    parse_uint64 str = some value ↔ Decimal (2 ^ 64) str ∧ value.toNat = number str := by
  have from_zero : numberFrom (0 : UInt64).toNat str = number str := rfl
  rw [parse_uint64, Decimal]
  by_cases size : str.length = 0 ∨ str.length > 20
  · rw [if_pos size]
    constructor
    · intro none
      cases none
    · rintro ⟨⟨some_digit, few, _⟩, _⟩
      omega
  · rw [if_neg size, rounds_iff, from_zero]
    constructor
    · rintro ⟨digits, small, same⟩
      exact ⟨⟨by omega, by omega, digits, small⟩, same⟩
    · rintro ⟨⟨_, _, digits, small⟩, same⟩
      exact ⟨digits, small, same⟩

theorem parse_uint32_iff {str : Bytes} {value : UInt32} :
    parse_uint32 str = some value ↔ Decimal (2 ^ 32) str ∧ value.toNat = number str := by
  have mask : (0xffffffff : UInt64).toNat = 2 ^ 32 - 1 := rfl
  unfold parse_uint32
  cases parsed : parse_uint64 str with
  | none =>
    constructor
    · intro none
      cases none
    · rintro ⟨⟨some_digit, few, digits, small⟩, _⟩
      have large : number str < 2 ^ 64 := Nat.lt_trans small (by decide)
      have found := @parse_uint64_iff str (UInt64.ofNat (number str))
      rw [parsed] at found
      cases found.mpr ⟨⟨some_digit, few, digits, large⟩, UInt64.toNat_ofNat_of_lt' large⟩
  | some wide =>
    obtain ⟨⟨some_digit, few, digits, _⟩, same⟩ := parse_uint64_iff.mp parsed
    dsimp only
    by_cases above : wide > 0xffffffff
    · rw [if_pos above]
      have large := UInt64.lt_iff_toNat_lt.mp above
      rw [mask] at large
      constructor
      · intro none
        cases none
      · rintro ⟨⟨_, _, _, small⟩, _⟩
        omega
    · rw [if_neg above, Option.some.injEq, ← UInt32.toNat_inj]
      rw [gt_iff_lt, UInt64.not_lt, UInt64.le_iff_toNat_le, mask] at above
      have low : (wide &&& 0xffffffff).toUInt32.toNat = number str := by
        rw [UInt64.toNat_toUInt32, UInt64.toNat_and, mask, Nat.and_two_pow_sub_one_eq_mod, same]
        omega
      rw [low, eq_comm]
      exact ⟨fun known => ⟨⟨some_digit, few, digits, by omega⟩, known⟩, fun known => known.2⟩

/-- Both parsers accept the numbers of their width and no other text, and no step of the loop wraps. -/
theorem parse_uint_exact (str : Bytes) :
    ((parse_uint64 str).isSome = true ↔ Decimal (2 ^ 64) str) ∧
    (∀ value, parse_uint64 str = some value → value.toNat = number str) ∧
    ((parse_uint32 str).isSome = true ↔ Decimal (2 ^ 32) str) ∧
    (∀ value, parse_uint32 str = some value → value.toNat = number str) ∧
    ∀ front ch rest value next, str = front ++ ch :: rest → front.foldlM round 0 = some value → round value ch = some next →
      value.toNat * 10 < 2 ^ 64 ∧ (value * 10).toNat = value.toNat * 10 ∧
        value.toNat * 10 + (ch.toNat - 48) < 2 ^ 64 ∧ next.toNat = value.toNat * 10 + (ch.toNat - 48) := by
  refine ⟨?_, fun value parsed => (parse_uint64_iff.mp parsed).2, ?_, fun value parsed => (parse_uint32_iff.mp parsed).2, ?_⟩
  · rw [Option.isSome_iff_exists]
    constructor
    · rintro ⟨value, parsed⟩
      exact (parse_uint64_iff.mp parsed).1
    · intro decimal
      exact ⟨UInt64.ofNat (number str), parse_uint64_iff.mpr ⟨decimal, UInt64.toNat_ofNat_of_lt' decimal.2.2.2⟩⟩
  · rw [Option.isSome_iff_exists]
    constructor
    · rintro ⟨value, parsed⟩
      exact (parse_uint32_iff.mp parsed).1
    · intro decimal
      exact ⟨UInt32.ofNat (number str), parse_uint32_iff.mpr ⟨decimal, UInt32.toNat_ofNat_of_lt' decimal.2.2.2⟩⟩
  · intro front ch rest value next _ _ taken
    obtain ⟨_, small, same⟩ := round_iff.mp taken
    have product : (value * 10).toNat = value.toNat * 10 := by
      rw [UInt64.toNat_mul]
      simp only [UInt64.reduceToNat]
      omega
    exact ⟨by omega, product, small, same⟩

example : parse_uint64 "18446744073709551615".toUTF8.data.toList = some 0xffffffffffffffff ∧
    parse_uint64 "18446744073709551616".toUTF8.data.toList = none := by decide +kernel

end PiJade.ParseUint
