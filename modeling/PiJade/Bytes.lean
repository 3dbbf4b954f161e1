import Mathlib.Data.List.Basic
import Mathlib.Tactic.Common
import Mathlib.Tactic.IntervalCases

/-!
Byte strings: the little-endian splitting and joining of machine words, and a
write loop over a file descriptor whose system calls may write less than they were
asked to, be interrupted, fail, or never return.
-/
namespace PiJade

/-- The contents of a file or of a buffer. -/
abbrev Bytes := List UInt8

namespace Bytes

/-- Joining the four bytes of a word gives the word back. -/
theorem join_split32 (value : UInt32) :
    value.toUInt8.toUInt32 ||| (value >>> 8).toUInt8.toUInt32 <<< 8 ||| (value >>> 16).toUInt8.toUInt32 <<< 16 |||
      (value >>> 24).toUInt8.toUInt32 <<< 24 = value := by
  apply UInt32.toBitVec_inj.mp
  apply BitVec.eq_of_getLsbD_eq
  intro i bound
  simp [-UInt32.toUInt32_toUInt8]
  interval_cases i <;> simp

theorem join16_eq (low high : UInt8) : low.toNat ||| high.toNat <<< 8 = low.toNat + 256 * high.toNat := by
  rw [Nat.or_comm, ← Nat.shiftLeft_add_eq_or_of_lt low.toNat_lt, Nat.shiftLeft_eq]
  omega

/-- Joining the two low bytes of a count gives the count back when it fits in them. -/
theorem join_split16 {count : Nat} (fits : count < 65536) :
    (UInt8.ofNat count).toNat ||| (UInt8.ofNat (count >>> 8)).toNat <<< 8 = count := by
  rw [join16_eq]
  simp only [UInt8.toNat_ofNat', Nat.shiftRight_eq_div_pow]
  omega

/-- Splitting a joined count gives its two bytes back. -/
theorem split_join16 (low high : UInt8) :
    UInt8.ofNat (low.toNat ||| high.toNat <<< 8) = low ∧
      UInt8.ofNat ((low.toNat ||| high.toNat <<< 8) >>> 8) = high := by
  have lowBound := low.toNat_lt
  have highBound := high.toNat_lt
  rw [join16_eq, Nat.shiftRight_eq_div_pow]
  constructor
  · apply UInt8.toNat_inj.mp
    simp only [UInt8.toNat_ofNat']
    omega
  · apply UInt8.toNat_inj.mp
    simp only [UInt8.toNat_ofNat']
    omega

theorem join16_lt (low high : UInt8) : low.toNat ||| high.toNat <<< 8 < 65536 := by
  have lowBound := low.toNat_lt
  have highBound := high.toNat_lt
  rw [join16_eq]
  omega

/-- Splitting a joined word gives its four bytes back. -/
theorem split_join32 (b0 b1 b2 b3 : UInt8) :
    let joined := b0.toUInt32 ||| b1.toUInt32 <<< 8 ||| b2.toUInt32 <<< 16 ||| b3.toUInt32 <<< 24
    joined.toUInt8 = b0 ∧ (joined >>> 8).toUInt8 = b1 ∧ (joined >>> 16).toUInt8 = b2 ∧ (joined >>> 24).toUInt8 = b3 := by
  refine ⟨?_, ?_, ?_, ?_⟩ <;>
  · apply UInt8.toBitVec_inj.mp
    apply BitVec.eq_of_getLsbD_eq
    intro i bound
    interval_cases i <;> simp

/-- An array of words, as it stands in memory. -/
def ofWords (values : List UInt32) : Bytes :=
  values.flatMap fun value : UInt32 => [value.toUInt8, (value >>> 8).toUInt8, (value >>> 16).toUInt8, (value >>> 24).toUInt8]

def toWords : Bytes → List UInt32
  | b0 :: b1 :: b2 :: b3 :: rest =>
    (b0.toUInt32 ||| b1.toUInt32 <<< 8 ||| b2.toUInt32 <<< 16 ||| b3.toUInt32 <<< 24) :: toWords rest
  | _ => []

@[simp] theorem length_ofWords (values : List UInt32) : (ofWords values).length = 4 * values.length := by
  induction values with
  | nil => rfl
  | cons value later ih =>
    rw [ofWords, List.flatMap_cons, List.length_append, ← ofWords, ih, List.length_cons]
    simp
    omega

theorem toWords_ofWords (values : List UInt32) : toWords (ofWords values) = values := by
  induction values with
  | nil => rfl
  | cons value later ih =>
    rw [ofWords, List.flatMap_cons, ← ofWords]
    simp only [List.cons_append, List.nil_append, toWords, ih, join_split32]

theorem ofWords_toWords : ∀ (count : Nat) (bytes : Bytes), bytes.length = 4 * count →
    ofWords (toWords bytes) = bytes ∧ (toWords bytes).length = count := by
  intro count
  induction count with
  | zero =>
    intro bytes size
    rw [List.length_eq_zero_iff.mp size]
    exact ⟨rfl, rfl⟩
  | succ count ih =>
    intro bytes size
    match bytes, size with
    | b0 :: b1 :: b2 :: b3 :: rest, size =>
      obtain ⟨same, counted⟩ := ih rest (by simp at size; omega)
      obtain ⟨e0, e1, e2, e3⟩ := split_join32 b0 b1 b2 b3
      refine ⟨?_, by rw [toWords, List.length_cons, counted]⟩
      rw [toWords, ofWords, List.flatMap_cons, ← ofWords, same, e0, e1, e2, e3]
      rfl

/-- A count of 16 bits, as it stands in memory. -/
def ofHalf (count : Nat) : Bytes := [UInt8.ofNat count, UInt8.ofNat (count >>> 8)]

def toHalf : Bytes → Nat
  | low :: high :: _ => low.toNat ||| high.toNat <<< 8
  | _ => 0

theorem ofHalf_toHalf {bytes : Bytes} (size : bytes.length = 2) : ofHalf (toHalf bytes) = bytes := by
  match bytes, size with
  | [low, high], _ =>
    obtain ⟨lowByte, highByte⟩ := split_join16 low high
    rw [toHalf, ofHalf, lowByte, highByte]

/-- What one `write` system call does. -/
inductive WriteResult where
  | wrote (count : Nat)
  | interrupted
  | failed
  deriving DecidableEq, Repr

/-- The bytes that reached the file when the loop that writes `data` stops, and
    whether it wrote them all. The loop stops early at a failed call, at a call
    that writes nothing, and where the results end: the process died there. -/
def write_all : Bytes → List WriteResult → Bytes × Bool
  | [], _ => ([], true)
  | _ :: _, [] => ([], false)
  | data, .interrupted :: results => write_all data results
  | _, .failed :: _ => ([], false)
  | data, .wrote count :: results =>
    if count = 0 then ([], false)
    else
      let later := write_all (data.drop count) results
      (data.take count ++ later.1, later.2)

theorem write_all_initial (data : Bytes) (results : List WriteResult) : (write_all data results).1 <+: data := by
  fun_induction write_all data results with
  | case1 => exact List.nil_prefix
  | case2 => exact List.nil_prefix
  | case3 data results _ ih => exact ih
  | case4 => exact List.nil_prefix
  | case5 => exact List.nil_prefix
  | case6 data count results _ _ later ih =>
    have joined : data.take count ++ later.1 <+: data.take count ++ data.drop count :=
      (List.prefix_append_right_inj _).mpr ih
    rwa [List.take_append_drop] at joined

theorem write_all_all {data : Bytes} {results : List WriteResult} (all : (write_all data results).2 = true) :
    (write_all data results).1 = data := by
  fun_induction write_all data results with
  | case1 => rfl
  | case2 => simp at all
  | case3 data results _ ih => exact ih all
  | case4 => simp at all
  | case5 => simp at all
  | case6 data count results _ _ later ih => simp [later, ih all]

end Bytes
end PiJade
