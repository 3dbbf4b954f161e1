import PiJade.Radix
import PiJade.Slip39Checksum
import PiJade.Slip39Collector

/-!
The words of a SLIP39 share and their reading. The fields and the value are numbers cut into
words of ten bits, three more words make the register end at one. A text is parsed to a share
exactly if it writes these words, and the record that the parser fills is that share or zero.
-/
namespace PiJade.Slip39
set_option linter.unusedSimpArgs false
open PolyMod (Code)
open Radix

/-! ### The words of a share -/

/-- The shares that can be written. -/
structure Encodable (share : Share) : Prop extends Limits share where
  identifier : share.identifier.toNat < 2 ^ 15

def bytesNat (bytes : Bytes) : Nat := ofRadix 256 (bytes.map UInt8.toNat)

/-- The identifier, the extendable flag and the exponent. -/
def idExp (share : Share) : Nat :=
  (share.identifier.toNat * 2 + share.extendable.toNat) * 16 + share.iteration_exponent

/-- The indices, the thresholds and the count; what is at least one is written one less. -/
def metadata (share : Share) : Nat :=
  (((share.group_index * 16 + (share.group_threshold - 1)) * 16 + (share.group_count - 1)) * 16 +
    share.member_index.toNat) * 16 + (share.member_threshold - 1)

/-- The words before the checksum; the value is padded in front. -/
def dataWords (share : Share) : List UInt16 :=
  (toRadix 1024 2 (idExp share) ++ toRadix 1024 2 (metadata share) ++
    toRadix 1024 ((8 * share.value.length + 9) / 10) (bytesNat share.value)).map UInt16.ofNat

/-- The three words that the register asks for. -/
def checksumWords (words : List UInt16) : List UInt16 :=
  (toRadix 1024 3 (rs1024_polymod (customization words) (words ++ [0, 0, 0]) ^^^ 1).toNat).map UInt16.ofNat

def encode (share : Share) : List UInt16 := dataWords share ++ checksumWords (dataWords share)

/-! ### The checksum -/

theorem run_three {symbols : List Nat} (three : symbols.length = 3) (small : ∀ symbol ∈ symbols, symbol < 1024) :
    rs1024.run 0 symbols = ofRadix 1024 symbols := by
  obtain ⟨a, b, c, rfl⟩ := List.length_eq_three.mp three
  simp only [List.forall_mem_cons] at small
  obtain ⟨a_small, b_small, c_small, _⟩ := small
  have first : rs1024.step 0 a = 0 * 1024 + a := rs1024.step_of_small (by decide) a_small
  have second : rs1024.step (0 * 1024 + a) b = (0 * 1024 + a) * 1024 + b :=
    rs1024.step_of_small (Nat.lt_trans (show 0 * 1024 + a < 1024 by omega) (by decide)) b_small
  have third : rs1024.step ((0 * 1024 + a) * 1024 + b) c = ((0 * 1024 + a) * 1024 + b) * 1024 + c :=
    rs1024.step_of_small (show (0 * 1024 + a) * 1024 + b < 2 ^ 20 by omega) c_small
  rw [Code.run, List.foldl_cons, first, List.foldl_cons, second, List.foldl_cons, third]
  rfl

theorem map_ofNat_toNat : ∀ (words : List UInt16), (words.map UInt16.toNat).map UInt16.ofNat = words
  | [] => rfl
  | word :: words => by
    rw [List.map_cons, List.map_cons, map_ofNat_toNat words, UInt16.ofNat_toNat]

theorem map_toNat_ofNat {numbers : List Nat} (small : ∀ n ∈ numbers, n < 1024) :
    (numbers.map UInt16.ofNat).map UInt16.toNat = numbers := by
  rw [List.map_map]
  refine (List.map_congr_left (g := id) fun n mem => ?_).trans (List.map_id _)
  show (UInt16.ofNat n).toNat = n
  rw [UInt16.toNat_ofNat', Nat.mod_eq_of_lt (Nat.lt_trans (small n mem) (by decide))]

/-- Exactly one choice of three words makes the register end at one. -/
theorem checksum_iff (customization : Bytes) (words : List UInt16) {check : List UInt16} (three : check.length = 3)
    (listed : ∀ word ∈ check, word.toNat < 1024) : rs1024_polymod customization (words ++ check) = 1 ↔
      check = (toRadix 1024 3 (rs1024_polymod customization (words ++ [0, 0, 0]) ^^^ 1).toNat).map UInt16.ofNat := by
  have small : ∀ n ∈ check.map UInt16.toNat, n < 1024 := by
    intro n mem
    obtain ⟨word, among, rfl⟩ := List.mem_map.mp mem
    exact listed word among
  have counted : (check.map UInt16.toNat).length = 3 := by rw [List.length_map, three]
  have register := rs1024_polymod_toNat customization (words ++ check)
  have blank := rs1024_polymod_toNat customization (words ++ [0, 0, 0])
  rw [List.map_append, ← List.append_assoc, Code.run_append] at register blank
  generalize rs1024.run 1 (customization.map UInt8.toNat ++ words.map UInt16.toNat) = chk at register blank
  have difference := rs1024.run_xor chk 0 (show ([0, 0, 0] : List Nat).length = (check.map UInt16.toNat).length from counted.symm)
  have zeros : List.zipWith (· ^^^ ·) [0, 0, 0] (check.map UInt16.toNat) = check.map UInt16.toNat := by
    obtain ⟨a, b, c, same⟩ := List.length_eq_three.mp counted
    rw [same]
    simp
  rw [zeros, Nat.xor_zero, run_three counted small] at difference
  have register_eq : (rs1024_polymod customization (words ++ check)).toNat =
      (rs1024_polymod customization (words ++ [0, 0, 0])).toNat ^^^ ofRadix 1024 (check.map UInt16.toNat) := by
    rw [register, blank, difference]
    rfl
  have bounded := ofRadix_lt small
  rw [counted] at bounded
  have wanted : (rs1024_polymod customization (words ++ [0, 0, 0]) ^^^ 1).toNat < 1024 ^ 3 := by
    rw [UInt32.toNat_xor, blank]
    refine Nat.xor_lt_two_pow (n := 30) ?_ (by decide)
    exact rs1024_step_lt (rs1024.step (rs1024.step chk 0) 0) (by decide)
  generalize rs1024_polymod customization (words ++ [0, 0, 0]) = without at *
  rw [← UInt32.toNat_inj, register_eq]
  constructor
  · intro one
    have value : ofRadix 1024 (check.map UInt16.toNat) = (without ^^^ 1).toNat := by
      rw [UInt32.toNat_xor, ← one, Nat.xor_xor_cancel_left]
    rw [← value, ← counted, toRadix_ofRadix small, map_ofNat_toNat]
  · intro chosen
    rw [chosen, map_toNat_ofNat (toRadix_lt (by decide) _ _), ofRadix_toRadix wanted, UInt32.toNat_xor,
      Nat.xor_xor_cancel_left]

/-! ### The value -/

theorem takeBytes_value (acc : UInt64) (bits : Nat) (inside : bits ≤ 64) :
    bytesNat (takeBytes acc bits) = acc.toNat % 2 ^ bits / 2 ^ (bits % 8) := by
  fun_induction takeBytes acc bits with
  | case1 bits ih =>
    have place : (UInt64.ofNat bits).toNat % 64 = bits := by
      rw [UInt64.toNat_ofNat', Nat.mod_eq_of_lt (by omega), Nat.mod_eq_of_lt (by omega)]
    have byte : (acc >>> UInt64.ofNat bits).toUInt8.toNat = acc.toNat / 2 ^ bits % 256 := by
      rw [UInt64.toNat_toUInt8, UInt64.toNat_shiftRight, place, Nat.shiftRight_eq_div_pow]
    have whole : 2 ^ bits = 256 ^ (bits / 8) * 2 ^ (bits % 8) := by
      rw [show (256 : Nat) = 2 ^ 8 from rfl, ← Nat.pow_mul, ← Nat.pow_add, Nat.div_add_mod]
    have split : acc.toNat % 2 ^ (bits + 8) =
        acc.toNat % 2 ^ bits + acc.toNat / 2 ^ bits % 256 * 256 ^ (bits / 8) * 2 ^ (bits % 8) := by
      rw [Nat.pow_add, Nat.mod_mul, Nat.mul_assoc, ← whole, Nat.mul_comm (2 ^ bits)]
    show _ = acc.toNat % 2 ^ (bits + 8) / 2 ^ ((bits + 8) % 8)
    rw [bytesNat, List.map_cons, ofRadix_cons, byte, List.length_map, takeBytes_length, ← bytesNat, ih (by omega), split,
      Nat.add_mod_right, Nat.add_mul_div_right _ _ (Nat.two_pow_pos _), Nat.add_comm]
  | case2 bits small =>
    have few : bits < 8 := by
      by_contra large
      exact small (bits - 8) (by omega)
    rw [Nat.mod_eq_of_lt few, Nat.div_eq_of_lt (Nat.mod_lt _ (Nat.two_pow_pos _))]
    rfl

/-- The bits that words carry, as one number behind the bits that are left over. -/
def carried (left : Nat) (words : List (Nat × UInt16)) : Nat := words.foldl (fun n word => n * 2 ^ word.1 + word.2.toNat) left

theorem carried_from (words : List (Nat × UInt16)) (high low : Nat) :
    carried (high + low) words = high * 2 ^ (words.map Prod.fst).sum + carried low words := by
  induction words generalizing high low with
  | nil => simp [carried]
  | cons word words ih =>
    have split : (high + low) * 2 ^ word.1 + word.2.toNat = high * 2 ^ word.1 + (low * 2 ^ word.1 + word.2.toNat) := by ring
    rw [carried, List.foldl_cons, split, ← carried, ih, List.map_cons, List.sum_cons, Nat.pow_add, Nat.mul_assoc]
    rfl

theorem shifted_in (acc : UInt64) {word : UInt16} {bits nbits : Nat} (inside : bits + nbits ≤ 64)
    (small : word.toNat < 2 ^ nbits) (room : nbits < 64) :
    (acc <<< UInt64.ofNat nbits ||| word.toUInt64).toNat % 2 ^ (bits + nbits) =
      acc.toNat % 2 ^ bits * 2 ^ nbits + word.toNat := by
  have place : (UInt64.ofNat nbits).toNat % 64 = nbits := by
    rw [UInt64.toNat_ofNat', Nat.mod_eq_of_lt (by omega), Nat.mod_eq_of_lt (by omega)]
  have high : acc.toNat <<< nbits % 2 ^ 64 % 2 ^ (bits + nbits) = (acc.toNat % 2 ^ bits) <<< nbits := by
    rw [Nat.mod_mod_of_dvd _ (Nat.pow_dvd_pow 2 inside), Nat.shiftLeft_eq, Nat.shiftLeft_eq, Nat.pow_add, Nat.mul_mod_mul_right]
  have low : word.toNat % 2 ^ (bits + nbits) = word.toNat :=
    Nat.mod_eq_of_lt (Nat.lt_of_lt_of_le small (Nat.pow_le_pow_right (by decide) (Nat.le_add_left _ _)))
  rw [UInt64.toNat_or, UInt64.toNat_shiftLeft, place, UInt16.toNat_toUInt64, Nat.or_mod_two_pow, high, low,
    ← Nat.shiftLeft_add_eq_or_of_lt small, Nat.shiftLeft_eq]

/-- The bytes that come out and the bits left over make up what the words carry. -/
theorem valueBytes_value : ∀ (words : List (Nat × UInt16)) (acc : UInt64) (bits : Nat), bits < 8 →
    (∀ word ∈ words, word.1 ≤ 10 ∧ word.2.toNat < 2 ^ word.1) → ∃ left, left < 2 ^ (valueBytes acc bits words).2 ∧
      carried (acc.toNat % 2 ^ bits) words =
        bytesNat (valueBytes acc bits words).1 * 2 ^ (valueBytes acc bits words).2 + left
  | [], acc, bits, _, _ => ⟨acc.toNat % 2 ^ bits, Nat.mod_lt _ (Nat.two_pow_pos _), by simp [carried, valueBytes, bytesNat, ofRadix]⟩
  | (nbits, word) :: words, acc, bits, few, fit => by
    rw [List.forall_mem_cons] at fit
    obtain ⟨⟨narrow, small⟩, fit⟩ := fit
    have next := shifted_in acc (show bits + nbits ≤ 64 by omega) small (by omega)
    generalize grown : (acc <<< UInt64.ofNat nbits ||| word.toUInt64 : UInt64) = acc' at next
    have rest : (bits + nbits) % 8 < 8 := Nat.mod_lt _ (by decide)
    obtain ⟨left, left_small, later⟩ := valueBytes_value words acc' ((bits + nbits) % 8) rest fit
    obtain ⟨length, last⟩ := valueBytes_length words acc' ((bits + nbits) % 8) rest
    have out := takeBytes_value acc' (bits + nbits) (by omega)
    have equation : valueBytes acc bits ((nbits, word) :: words) =
        (takeBytes acc' (bits + nbits) ++ (valueBytes acc' ((bits + nbits) % 8) words).1,
          (valueBytes acc' ((bits + nbits) % 8) words).2) := by
      rw [valueBytes, grown]
    rw [equation]
    generalize valueBytes acc' ((bits + nbits) % 8) words = behind at *
    refine ⟨left, left_small, ?_⟩
    -- what came out of the register, and what stayed in it
    have split : acc'.toNat % 2 ^ (bits + nbits) =
        bytesNat (takeBytes acc' (bits + nbits)) * 2 ^ ((bits + nbits) % 8) + acc'.toNat % 2 ^ ((bits + nbits) % 8) := by
      rw [out, ← Nat.mod_mod_of_dvd acc'.toNat (Nat.pow_dvd_pow 2 (Nat.mod_le (bits + nbits) 8)), Nat.div_add_mod']
    have total : (bits + nbits) % 8 + (words.map Prod.fst).sum = 8 * behind.1.length + behind.2 := by omega
    have joined : bytesNat (takeBytes acc' (bits + nbits) ++ behind.1) =
        bytesNat (takeBytes acc' (bits + nbits)) * 256 ^ behind.1.length + bytesNat behind.1 := by
      rw [bytesNat, List.map_append, ofRadix_append, List.length_map, ← bytesNat, ← bytesNat]
    calc carried (acc.toNat % 2 ^ bits) ((nbits, word) :: words)
        = carried (acc'.toNat % 2 ^ (bits + nbits)) words := by rw [next]; rfl
      _ = bytesNat (takeBytes acc' (bits + nbits)) * 2 ^ ((bits + nbits) % 8) * 2 ^ (words.map Prod.fst).sum +
            (bytesNat behind.1 * 2 ^ behind.2 + left) := by rw [split, carried_from, later]
      _ = bytesNat (takeBytes acc' (bits + nbits)) * 2 ^ (8 * behind.1.length + behind.2) +
            (bytesNat behind.1 * 2 ^ behind.2 + left) := by rw [← total, Nat.pow_add, Nat.mul_assoc]
      _ = _ := by
        rw [joined, Nat.pow_add, Nat.pow_mul]
        ring

/-! ### The fields -/

/-- The share that two numbers and a value say. -/
def shareOf (id_exp metadata : Nat) (value : Bytes) : Share where
  identifier := UInt16.ofNat (id_exp / 32)
  extendable := id_exp.testBit 4
  iteration_exponent := id_exp % 16
  group_index := metadata / 2 ^ 16 % 16
  group_threshold := metadata / 2 ^ 12 % 16 + 1
  group_count := metadata / 2 ^ 8 % 16 + 1
  member_index := UInt8.ofNat (metadata / 2 ^ 4 % 16)
  member_threshold := metadata % 16 + 1
  value := value

theorem two_words {a b : UInt16} (a_listed : a.toNat < 1024) (b_listed : b.toNat < 1024) :
    (a.toUInt32 <<< 10 ||| b.toUInt32).toNat = a.toNat * 1024 + b.toNat := by
  have small : b.toNat < 2 ^ 10 := b_listed
  rw [UInt32.toNat_or, UInt32.toNat_shiftLeft, UInt16.toNat_toUInt32, UInt16.toNat_toUInt32,
    show UInt32.toNat 10 % 32 = 10 from rfl, Nat.shiftLeft_eq, Nat.mod_eq_of_lt (by omega), ← Nat.shiftLeft_eq,
    ← Nat.shiftLeft_add_eq_or_of_lt small, Nat.shiftLeft_eq]

theorem nibble (word : UInt32) : (word &&& 0x0F).toNat = word.toNat % 16 := by
  rw [UInt32.toNat_and, show UInt32.toNat 0x0F = 2 ^ 4 - 1 from rfl, Nat.and_two_pow_sub_one_eq_mod]

theorem shifted (word : UInt32) {by_bits : UInt32} (few : by_bits.toNat < 32) :
    (word >>> by_bits).toNat = word.toNat / 2 ^ by_bits.toNat := by
  rw [UInt32.toNat_shiftRight, Nat.mod_eq_of_lt few, Nat.shiftRight_eq_div_pow]

/-- The words of the value, each with its bits. -/
theorem value_words (first : UInt16) (rest before after : List UInt16) (padding_len start : Nat) (behind : before.length = start) :
    ((List.range (rest.length + 1)).map fun i =>
      (if i = 0 then RADIX_BITS - padding_len else RADIX_BITS, (before ++ first :: rest ++ after).getD (start + i) 0)) =
      (RADIX_BITS - padding_len, first) :: rest.map fun word => (RADIX_BITS, word) := by
  subst behind
  refine List.ext_getElem (by simp) fun i inside _ => ?_
  rw [List.getElem_map, List.getElem_range]
  cases i with
  | zero => simp
  | succ i =>
    have within : i < rest.length := by simpa using inside
    simp [within, List.getD, List.getElem?_append_right, List.getElem?_append_left]

/-- The words of a share: the fields, the value with what is in front of it, the checksum. -/
structure Laid (i0 i1 i2 i3 first : UInt16) (rest check : List UInt16) : Prop where
  listed : ∀ word ∈ [i0, i1, i2, i3] ++ first :: rest ++ check, word.toNat < 1024
  value : rest.length = 12 ∨ rest.length = 25
  check : check.length = 3

section
variable {i0 i1 i2 i3 first : UInt16} {rest check : List UInt16}

/-- The bits in front of the value. -/
def padding (rest : List UInt16) : Nat := 10 * (rest.length + 1) % 16

/-- The bytes that come out of the words of a value. -/
def bytesOf (first : UInt16) (rest : List UInt16) : Bytes × Nat :=
  valueBytes 0 0 ((10 - padding rest, first) :: rest.map fun word => (10, word))

theorem Laid.padding_le (laid : Laid i0 i1 i2 i3 first rest check) : padding rest ≤ 4 := by
  rw [padding]
  rcases laid.value with short | long
  · omega
  · omega

theorem Laid.bytes (laid : Laid i0 i1 i2 i3 first rest check) :
    8 * (bytesOf first rest).1.length = 10 * (rest.length + 1) - padding rest ∧ (bytesOf first rest).2 = 0 := by
  have sum : (((10 - padding rest, first) :: rest.map fun word => (10, word)).map Prod.fst).sum =
      10 * (rest.length + 1) - padding rest := by
    have tens : ((rest.map fun word : UInt16 => (10, word)).map Prod.fst).sum = 10 * rest.length := by
      rw [List.map_map, show (Prod.fst ∘ fun word : UInt16 => (10, word)) = fun _ => 10 from rfl, List.map_const',
        List.sum_replicate_nat, Nat.mul_comm]
    have few := laid.padding_le
    rw [List.map_cons, List.sum_cons, tens]
    show 10 - padding rest + _ = _
    omega
  obtain ⟨length, left⟩ := valueBytes_length ((10 - padding rest, first) :: rest.map fun word => (10, word)) 0 0 (by decide)
  rw [sum] at length left
  rw [bytesOf, length, left, padding]
  rcases laid.value with short | long
  · rw [short]
    decide
  · rw [long]
    decide

theorem Laid.number (laid : Laid i0 i1 i2 i3 first rest check) (padded : first.toNat < 2 ^ (10 - padding rest)) :
    bytesNat (bytesOf first rest).1 = ofRadix 1024 ((first :: rest).map UInt16.toNat) := by
  have fit : ∀ word ∈ (10 - padding rest, first) :: rest.map fun word : UInt16 => (10, word),
      word.1 ≤ 10 ∧ word.2.toNat < 2 ^ word.1 := by
    rw [List.forall_mem_cons]
    refine ⟨⟨Nat.sub_le _ _, padded⟩, fun word mem => ?_⟩
    obtain ⟨index, among, rfl⟩ := List.mem_map.mp mem
    exact ⟨Nat.le_refl _, laid.listed index (by simp [among])⟩
  obtain ⟨left, small, value⟩ := valueBytes_value _ 0 0 (by decide) fit
  rw [← bytesOf, laid.bytes.2] at small value
  rw [Nat.lt_one_iff.mp small, Nat.pow_zero, Nat.mul_one, Nat.add_zero] at value
  rw [← value, carried, List.foldl_cons, List.foldl_map, List.map_cons, ofRadix, List.foldl_cons, List.foldl_map, Nat.mod_one,
    Nat.zero_mul, Nat.zero_mul]
  simp only [Nat.reducePow]

theorem Laid.read_share_eq (laid : Laid i0 i1 i2 i3 first rest check) :
    read_share ([i0, i1, i2, i3] ++ first :: rest ++ check) =
      if rs1024_polymod (customization ([i0, i1, i2, i3] ++ first :: rest ++ check))
          ([i0, i1, i2, i3] ++ first :: rest ++ check) ≠ 1 then .ok (.error .ERR_CHECKSUM)
      else if (i2.toNat * 1024 + i3.toNat) / 2 ^ 8 % 16 < (i2.toNat * 1024 + i3.toNat) / 2 ^ 12 % 16 then
        .ok (.error .ERR_FORMAT)
      else if 2 ^ (10 - padding rest) ≤ first.toNat then .ok (.error .ERR_FORMAT)
      else .ok (.ok (shareOf (i0.toNat * 1024 + i1.toNat) (i2.toNat * 1024 + i3.toNat) (bytesOf first rest).1)) := by
  have id_exp := two_words (laid.listed i0 (by simp)) (laid.listed i1 (by simp))
  have metadata := two_words (laid.listed i2 (by simp)) (laid.listed i3 (by simp))
  have counted : ([i0, i1, i2, i3] ++ first :: rest ++ check).length - METADATA_LENGTH_WORDS = rest.length + 1 := by
    simp only [List.length_append, List.length_cons, List.length_nil, laid.check, METADATA_LENGTH_WORDS, ID_EXP_LENGTH_WORDS,
      CHECKSUM_LENGTH_WORDS]
    omega
  have value := value_words first rest [i0, i1, i2, i3] check (padding rest) 4 rfl
  have words := laid.bytes
  generalize whole : [i0, i1, i2, i3] ++ first :: rest ++ check = indices at *
  have g0 : indices.getD 0 0 = i0 := by rw [← whole]; rfl
  have g1 : indices.getD 1 0 = i1 := by rw [← whole]; rfl
  have g2 : indices.getD ID_EXP_LENGTH_WORDS 0 = i2 := by rw [← whole]; rfl
  have g3 : indices.getD (ID_EXP_LENGTH_WORDS + 1) 0 = i3 := by rw [← whole]; rfl
  have g4 : indices.getD (ID_EXP_LENGTH_WORDS + 2) 0 = first := by rw [← whole]; rfl
  have bit := extendable_iff indices
  rw [g0, g1] at bit
  rw [read_share]
  have out : valueBytes 0 0 ((List.range (rest.length + 1)).map fun i =>
      (if i = 0 then RADIX_BITS - RADIX_BITS * (rest.length + 1) % 16 else RADIX_BITS,
        indices.getD (ID_EXP_LENGTH_WORDS + 2 + i) 0)) = bytesOf first rest := congrArg (valueBytes 0 0) value
  have fits : (decide ((bytesOf first rest).1.length ≠ 0) && decide ((bytesOf first rest).1.length ≤ SLIP39_SHARE_VALUE_MAX)) =
      true := by
    have small := laid.padding_le
    rw [SLIP39_SHARE_VALUE_MAX, Bool.and_eq_true, decide_eq_true_iff, decide_eq_true_iff]
    rcases laid.value with short | long
    · omega
    · omega
  have identifier : ((i0.toUInt32 <<< 10 ||| i1.toUInt32) >>> 5).toUInt16 =
      UInt16.ofNat ((i0.toNat * 1024 + i1.toNat) / 32) := by
    rw [← UInt16.toNat_inj, UInt32.toNat_toUInt16, shifted _ (by decide), id_exp, UInt16.toNat_ofNat']
    rfl
  have member : ((i2.toUInt32 <<< 10 ||| i3.toUInt32) >>> 4 &&& 15).toUInt8 =
      UInt8.ofNat ((i2.toNat * 1024 + i3.toNat) / 2 ^ 4 % 16) := by
    rw [← UInt8.toNat_inj, UInt32.toNat_toUInt8, nibble, shifted _ (by decide), metadata, UInt8.toNat_ofNat']
    rfl
  have extendable : decide (extendableBit indices = true) = (i0.toNat * 1024 + i1.toNat).testBit 4 := by
    rw [Bool.decide_eq_true, extendableBit, g1, Nat.testBit_eq_decide_div_mod_eq, Nat.testBit_eq_decide_div_mod_eq]
    exact decide_eq_decide.mpr (by omega)
  simp only [g0, g1, g2, g3, g4, bit, counted, out, words.2, fits, identifier, member, extendable, nibble,
    shifted (_ : UInt32) (show UInt32.toNat 8 < 32 by decide), shifted (_ : UInt32) (show UInt32.toNat 12 < 32 by decide),
    shifted (_ : UInt32) (show UInt32.toNat 16 < 32 by decide), id_exp, metadata, decide_true,
    Check.ensure_true, Check.ok_bind, Check.pure_eq]
  rfl

end

theorem idExp_shareOf {id_exp : Nat} (small : id_exp < 2 ^ 20) (metadata : Nat) (value : Bytes) :
    idExp (shareOf id_exp metadata value) = id_exp := by
  have bit : (id_exp.testBit 4).toNat = id_exp / 16 % 2 := Nat.toNat_testBit id_exp 4
  simp only [idExp, shareOf, bit, UInt16.toNat_ofNat']
  omega

theorem metadata_shareOf (id_exp : Nat) {number : Nat} (small : number < 2 ^ 20) (value : Bytes) :
    metadata (shareOf id_exp number value) = number := by
  simp only [metadata, shareOf, UInt8.toNat_ofNat', Nat.add_sub_cancel]
  omega

theorem Encodable.idExp_lt {share : Share} (encodable : Encodable share) : idExp share < 2 ^ 20 := by
  have identifier := encodable.identifier
  have exponent := encodable.exponent
  have flag := Bool.toNat_lt share.extendable
  rw [idExp]
  omega

theorem Encodable.metadata_lt {share : Share} (encodable : Encodable share) : metadata share < 2 ^ 20 := by
  have group_index : share.group_index < 16 := encodable.group_index
  have threshold := encodable.group_threshold
  have count : share.group_count ≤ 16 := encodable.group_count
  have member_index : share.member_index.toNat < 16 := encodable.member_index
  have member_threshold : 1 ≤ share.member_threshold ∧ share.member_threshold ≤ 16 := encodable.member_threshold
  rw [metadata]
  omega

theorem Encodable.shareOf_eq {share : Share} (encodable : Encodable share) :
    shareOf (idExp share) (metadata share) share.value = share := by
  obtain ⟨identifier, extendable, exponent, group_index, group_threshold, group_count, member_index, member_threshold, value⟩ :=
    share
  have identifier_lt : identifier.toNat < 2 ^ 15 := encodable.identifier
  have exponent_lt : exponent < 16 := encodable.exponent
  have group_index_lt : group_index < 16 := encodable.group_index
  have threshold : 1 ≤ group_threshold ∧ group_threshold ≤ group_count := encodable.group_threshold
  have count : group_count ≤ 16 := encodable.group_count
  have member_index_lt : member_index.toNat < 16 := encodable.member_index
  have member : 1 ≤ member_threshold ∧ member_threshold ≤ 16 := encodable.member_threshold
  have flag := Bool.toNat_lt extendable
  simp only [shareOf, idExp, metadata, Share.mk.injEq, and_true]
  refine ⟨?_, ?_, ?_, ?_, ?_, ?_, ?_, ?_⟩
  · rw [← UInt16.toNat_inj, UInt16.toNat_ofNat']
    omega
  · rw [Nat.testBit_eq_decide_div_mod_eq]
    cases extendable
    · exact decide_eq_false (by rw [Bool.toNat_false]; omega)
    · exact decide_eq_true (by rw [Bool.toNat_true]; omega)
  · omega
  · omega
  · omega
  · omega
  · rw [← UInt8.toNat_inj, UInt8.toNat_ofNat']
    omega
  · omega

/-- Thresholds that do not exceed the count. -/
theorem Encodable.ordered {share : Share} (encodable : Encodable share) :
    ¬ metadata share / 2 ^ 8 % 16 < metadata share / 2 ^ 12 % 16 := by
  have group_index : share.group_index < 16 := encodable.group_index
  have threshold := encodable.group_threshold
  have count : share.group_count ≤ 16 := encodable.group_count
  have member_index : share.member_index.toNat < 16 := encodable.member_index
  have member_threshold : 1 ≤ share.member_threshold ∧ share.member_threshold ≤ 16 := encodable.member_threshold
  rw [metadata]
  omega

theorem toRadix_two {a b : UInt16} (a_listed : a.toNat < 1024) (b_listed : b.toNat < 1024) :
    (toRadix 1024 2 (a.toNat * 1024 + b.toNat)).map UInt16.ofNat = [a, b] := by
  have digits := @toRadix_ofRadix 1024 [a.toNat, b.toNat] (by simp [a_listed, b_listed])
  have value : ofRadix 1024 [a.toNat, b.toNat] = a.toNat * 1024 + b.toNat := by simp [ofRadix]
  rw [value] at digits
  rw [show (2 : Nat) = [a.toNat, b.toNat].length from rfl, digits]
  simp

theorem ofRadix_two {a b : UInt16} {n : Nat} (small : n < 2 ^ 20) (digits : [a, b] = (toRadix 1024 2 n).map UInt16.ofNat) :
    a.toNat * 1024 + b.toNat = n := by
  have value : ofRadix 1024 ([a, b].map UInt16.toNat) =
      ofRadix 1024 (((toRadix 1024 2 n).map UInt16.ofNat).map UInt16.toNat) := by rw [← digits]
  rw [map_toNat_ofNat (toRadix_lt (by decide) _ _), ofRadix_toRadix (show n < 1024 ^ 2 from small)] at value
  rw [← value]
  simp [ofRadix]

theorem bytesNat_lt (bytes : Bytes) : bytesNat bytes < 256 ^ bytes.length := by
  have bound := @ofRadix_lt 256 (bytes.map UInt8.toNat) fun digit mem => by
    obtain ⟨byte, _, rfl⟩ := List.mem_map.mp mem
    exact byte.toNat_lt
  rwa [List.length_map] at bound

theorem bytesNat_inj {bytes bytes' : Bytes} (length : bytes.length = bytes'.length) (same : bytesNat bytes = bytesNat bytes') :
    bytes = bytes' := by
  have small : ∀ (bytes : Bytes), ∀ digit ∈ bytes.map UInt8.toNat, digit < 256 := by
    intro bytes digit mem
    obtain ⟨byte, _, rfl⟩ := List.mem_map.mp mem
    exact byte.toNat_lt
  have digits := ofRadix_inj (small bytes) (small bytes') (by rw [List.length_map, List.length_map, length]) same
  exact List.map_injective_iff.mpr (fun _ _ => UInt8.toNat_inj.mp) digits

section
variable {i0 i1 i2 i3 first : UInt16} {rest check : List UInt16} {share : Share}

theorem Laid.encode_of_read (laid : Laid i0 i1 i2 i3 first rest check)
    (read : read_share ([i0, i1, i2, i3] ++ first :: rest ++ check) = .ok (.ok share)) :
    Encodable share ∧ [i0, i1, i2, i3] ++ first :: rest ++ check = encode share := by
  have few := laid.padding_le
  obtain ⟨l0, l1, l2, l3⟩ : i0.toNat < 1024 ∧ i1.toNat < 1024 ∧ i2.toNat < 1024 ∧ i3.toNat < 1024 :=
    ⟨laid.listed i0 (by simp), laid.listed i1 (by simp), laid.listed i2 (by simp), laid.listed i3 (by simp)⟩
  have counted : ([i0, i1, i2, i3] ++ first :: rest ++ check).length = SLIP39_SHORT_SHARE_WORDS ∨
      ([i0, i1, i2, i3] ++ first :: rest ++ check).length = SLIP39_LONG_SHARE_WORDS := by
    simp only [List.length_append, List.length_cons, List.length_nil, laid.check, SLIP39_SHORT_SHARE_WORDS,
      SLIP39_LONG_SHARE_WORDS]
    rcases laid.value with short | long
    · omega
    · omega
  have limits := read_share_limits counted read
  rw [laid.read_share_eq] at read
  obtain ⟨passes, read⟩ := not_of_passed read
  obtain ⟨-, read⟩ := not_of_passed read
  obtain ⟨padded, read⟩ := not_of_passed read
  have number := laid.number (Nat.not_le.mp padded)
  obtain ⟨length, -⟩ := laid.bytes
  generalize bytes : (bytesOf first rest).1 = value at *
  obtain rfl := Except.ok.inj (Except.ok.inj read)
  have data : dataWords (shareOf (i0.toNat * 1024 + i1.toNat) (i2.toNat * 1024 + i3.toNat) value) =
      [i0, i1, i2, i3] ++ first :: rest := by
    have words : (8 * value.length + 9) / 10 = ((first :: rest).map UInt16.toNat).length := by
      rw [List.length_map, List.length_cons]
      rcases laid.value with short | long
      · simp only [padding] at length
        omega
      · simp only [padding] at length
        omega
    have small : ∀ digit ∈ (first :: rest).map UInt16.toNat, digit < 1024 := by
      intro digit mem
      obtain ⟨word, among, rfl⟩ := List.mem_map.mp mem
      exact laid.listed word (List.mem_append_left _ (List.mem_append_right _ among))
    rw [dataWords, idExp_shareOf (by omega), metadata_shareOf _ (by omega), List.map_append, List.map_append, toRadix_two l0 l1,
      toRadix_two l2 l3]
    show _ ++ (toRadix 1024 ((8 * value.length + 9) / 10) (bytesNat value)).map UInt16.ofNat = _
    rw [words, number, toRadix_ofRadix small, map_ofNat_toNat]
    rfl
  have customized : customization ([i0, i1, i2, i3] ++ first :: rest ++ check) =
      customization ([i0, i1, i2, i3] ++ first :: rest) := rfl
  rw [customized] at passes
  refine ⟨{ limits with identifier := ?_ }, ?_⟩
  · show (UInt16.ofNat _).toNat < 2 ^ 15
    rw [UInt16.toNat_ofNat']
    omega
  · rw [encode, data, checksumWords]
    exact congrArg _ ((checksum_iff _ _ laid.check fun word mem =>
      laid.listed word (List.mem_append_right _ mem)).mp (Decidable.not_not.mp passes))

theorem Laid.read_of_encode (laid : Laid i0 i1 i2 i3 first rest check) (encodable : Encodable share)
    (written : [i0, i1, i2, i3] ++ first :: rest ++ check = encode share) :
    read_share ([i0, i1, i2, i3] ++ first :: rest ++ check) = .ok (.ok share) := by
  have few := laid.padding_le
  have length_data : (dataWords share).length = 4 + (8 * share.value.length + 9) / 10 := by
    rw [dataWords, List.length_map, List.length_append, List.length_append, length_toRadix, length_toRadix, length_toRadix]
  have length_check : (checksumWords (dataWords share)).length = 3 := by
    rw [checksumWords, List.length_map, length_toRadix]
  obtain ⟨data, checksum⟩ := List.append_inj' written (laid.check.trans length_check.symm)
  have words : rest.length + 1 = (8 * share.value.length + 9) / 10 := by
    have total := congrArg List.length data
    rw [length_data] at total
    simp only [List.length_append, List.length_cons, List.length_nil] at total
    omega
  -- the words of the two numbers and of the value
  have split : [i0, i1] ++ ([i2, i3] ++ (first :: rest)) = (toRadix 1024 2 (idExp share)).map UInt16.ofNat ++
      ((toRadix 1024 2 (metadata share)).map UInt16.ofNat ++
        (toRadix 1024 ((8 * share.value.length + 9) / 10) (bytesNat share.value)).map UInt16.ofNat) := by
    rw [dataWords, List.map_append, List.map_append, List.append_assoc] at data
    exact data
  obtain ⟨first_two, split⟩ := List.append_inj split (by simp)
  obtain ⟨next_two, value_words⟩ := List.append_inj split (by simp)
  have id_exp := ofRadix_two encodable.idExp_lt first_two
  have fields := ofRadix_two encodable.metadata_lt next_two
  have value : ofRadix 1024 ((first :: rest).map UInt16.toNat) = bytesNat share.value := by
    have bound : bytesNat share.value < 1024 ^ ((8 * share.value.length + 9) / 10) := by
      refine Nat.lt_of_lt_of_le (bytesNat_lt _) ?_
      rw [show (256 : Nat) = 2 ^ 8 from rfl, show (1024 : Nat) = 2 ^ 10 from rfl, ← Nat.pow_mul, ← Nat.pow_mul]
      exact Nat.pow_le_pow_right (by decide) (by omega)
    rw [value_words, map_toNat_ofNat (toRadix_lt (by decide) _ _), ofRadix_toRadix bound]
  have padded : first.toNat < 2 ^ (10 - padding rest) := by
    have bits : 8 * share.value.length = 10 - padding rest + 10 * rest.length := by
      rw [padding]
      rcases encodable.value_len with short | long
      · omega
      · omega
    have highest : first.toNat * 2 ^ (10 * rest.length) ≤ bytesNat share.value := by
      rw [← value, List.map_cons, ofRadix_cons, List.length_map, Nat.pow_mul]
      exact Nat.le_add_right _ _
    have bound := Nat.lt_of_le_of_lt highest (bytesNat_lt share.value)
    rw [show (256 : Nat) = 2 ^ 8 from rfl, ← Nat.pow_mul, bits, Nat.pow_add] at bound
    exact Nat.lt_of_mul_lt_mul_right bound
  have out : (bytesOf first rest).1 = share.value := by
    refine bytesNat_inj ?_ ((laid.number padded).trans value)
    have length := laid.bytes.1
    rw [padding] at length
    rcases encodable.value_len with short | long
    · omega
    · omega
  have customized : customization ([i0, i1, i2, i3] ++ first :: rest ++ check) = customization (dataWords share) := by
    rw [← data]
    rfl
  have passes : rs1024_polymod (customization ([i0, i1, i2, i3] ++ first :: rest ++ check))
      ([i0, i1, i2, i3] ++ first :: rest ++ check) = 1 := by
    rw [customized, data]
    exact (checksum_iff _ _ laid.check fun word mem => laid.listed word (List.mem_append_right _ mem)).mpr checksum
  rw [laid.read_share_eq, if_neg (not_not_intro passes), id_exp, fields, if_neg encodable.ordered, if_neg (Nat.not_le.mpr padded),
    out, encodable.shareOf_eq]

end

/-- The fields, the value and the checksum of so many words. -/
theorem laid_of {indices : List UInt16} (listed : ∀ word ∈ indices, word.toNat < 1024)
    (counted : indices.length = SLIP39_SHORT_SHARE_WORDS ∨ indices.length = SLIP39_LONG_SHARE_WORDS) :
    ∃ i0 i1 i2 i3 first rest check, indices = [i0, i1, i2, i3] ++ first :: rest ++ check ∧ Laid i0 i1 i2 i3 first rest check := by
  match indices, counted with
  | i0 :: i1 :: i2 :: i3 :: first :: behind, counted =>
    have split := List.take_append_drop (behind.length - 3) behind
    have length : behind.length = 15 ∨ behind.length = 28 := by
      simp only [List.length_cons, SLIP39_SHORT_SHARE_WORDS, SLIP39_LONG_SHARE_WORDS] at counted
      omega
    have whole : i0 :: i1 :: i2 :: i3 :: first :: behind =
        [i0, i1, i2, i3] ++ first :: behind.take (behind.length - 3) ++ behind.drop (behind.length - 3) := by
      simp
    refine ⟨i0, i1, i2, i3, first, _, _, whole, whole ▸ listed, ?_, ?_⟩
    · rw [List.length_take]
      omega
    · rw [List.length_drop]
      omega
  | [], counted | [_], counted | [_, _], counted | [_, _, _], counted | [_, _, _, _], counted =>
    simp [SLIP39_SHORT_SHARE_WORDS, SLIP39_LONG_SHARE_WORDS] at counted

/-- Words are read as a share exactly if they are its words. -/
theorem read_share_iff {indices : List UInt16} (listed : ∀ word ∈ indices, word.toNat < 1024)
    (counted : indices.length = SLIP39_SHORT_SHARE_WORDS ∨ indices.length = SLIP39_LONG_SHARE_WORDS) {share : Share} :
    read_share indices = .ok (.ok share) ↔ Encodable share ∧ indices = encode share := by
  obtain ⟨i0, i1, i2, i3, first, rest, check, rfl, laid⟩ := laid_of listed counted
  exact ⟨laid.encode_of_read, fun written => laid.read_of_encode written.1 written.2⟩

theorem encode_length {share : Share} (encodable : Encodable share) :
    (encode share).length = SLIP39_SHORT_SHARE_WORDS ∨ (encode share).length = SLIP39_LONG_SHARE_WORDS := by
  rw [encode, List.length_append, dataWords, checksumWords, List.length_map, List.length_map, List.length_append,
    List.length_append, length_toRadix, length_toRadix, length_toRadix, length_toRadix]
  rcases encodable.value_len with short | long
  · left
    rw [short]
    rfl
  · right
    rw [long]
    rfl

/-- A text is parsed to a share exactly if it writes the words of the share. -/
theorem parse_iff {mnemonic : Bytes} {share : Share} :
    slip39_parse_share SLIP39_WORDLIST mnemonic = .ok (.ok share) ↔ Encodable share ∧ Writes mnemonic (encode share) := by
  constructor
  · intro parsed
    simp only [slip39_parse_share, Check.bind_eq_ok] at parsed
    obtain ⟨_, _, parsed⟩ := parsed
    split at parsed
    next => cases parsed
    next indices found =>
      split at parsed
      next => cases parsed
      next known =>
        have counted : indices.length = SLIP39_SHORT_SHARE_WORDS ∨ indices.length = SLIP39_LONG_SHARE_WORDS := by
          by_contra other
          exact known ⟨fun short => other (.inl short), fun long => other (.inr long)⟩
        obtain ⟨writes, _⟩ := lookup_words.mp found
        obtain ⟨encodable, rfl⟩ := (read_share_iff writes.listed counted).mp parsed
        exact ⟨encodable, writes⟩
  · rintro ⟨encodable, writes⟩
    have counted := encode_length encodable
    rw [parse_of_writes writes counted]
    exact (read_share_iff writes.listed counted).mpr ⟨encodable, rfl⟩

end PiJade.Slip39
