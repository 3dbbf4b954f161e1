import Mathlib.Data.List.GetD
import PiJade.Bbqr
import PiJade.DescriptorKeys

/-!
Base32 in memory (`main/utils/util.c`), and the payloads of BBQr (`main/bbqr.c`). The encoder writes
what its size check has counted, padding and terminator included; the decoder stops at both. What
comes out of a payload is its bits, five a character, as whole bytes.
-/
namespace PiJade.Base32.Memory
open DescriptorText.Memory (Exit put putAll put_spec putAll_append putAll_over)
set_option linter.unusedSimpArgs false

/-! ### The encoder -/

section
variable {b32_str_len : Nat}

/-- The inner loop, with the bits that are held: where the next character goes, and the buffer. -/
def takeFives (tmp : UInt32) : Nat → Nat → Vector UInt8 b32_str_len → Except Exit (Nat × Vector UInt8 b32_str_len)
  | num_bits + 5, out, b32_str => do
    let b32_str ← put b32_str out (b32_char (tmp >>> UInt32.ofNat num_bits))
    takeFives tmp num_bits (out + 1) b32_str
  | _, out, b32_str => return (out, b32_str)

/-- The outer loop and the character of the bits that are left. -/
def encodeFrom (tmp : UInt32) (num_bits out : Nat) (b32_str : Vector UInt8 b32_str_len) :
    Bytes → Except Exit (Nat × Vector UInt8 b32_str_len)
  | [] =>
    if 0 < num_bits then do
      let b32_str ← put b32_str out (b32_char (tmp <<< UInt32.ofNat (5 - num_bits)))
      return (out + 1, b32_str)
    else return (out, b32_str)
  | byte :: rest => do
    let tmp := tmp <<< 8 ||| byte.toUInt32
    let (out, b32_str) ← takeFives tmp (num_bits + 8) out b32_str
    encodeFrom tmp ((num_bits + 8) % 5) out b32_str rest

/-- `while (required_padding)`. -/
def pad : Nat → Nat → Vector UInt8 b32_str_len → Except Exit (Nat × Vector UInt8 b32_str_len)
  | 0, out, b32_str => return (out, b32_str)
  | required_padding + 1, out, b32_str => do
    let b32_str ← put b32_str out 61
    pad required_padding (out + 1) b32_str

def requiredChars (bin_len : Nat) : Nat := (bin_len * 8 + 4) / 5

def requiredPadding (bin_len : Nat) (use_padding : Bool) : Nat :=
  if use_padding && requiredChars bin_len % 8 != 0 then 8 - requiredChars bin_len % 8 else 0

/-- The buffer if all fits in it, else nothing. -/
def bin_to_base32 (bin : Bytes) (b32_str : Vector UInt8 b32_str_len) (use_padding : Bool) :
    Except Exit (Option (Vector UInt8 b32_str_len)) :=
  if bin.length = 0 ∨ b32_str_len = 0 then .error .abort
  else if b32_str_len < requiredChars bin.length + requiredPadding bin.length use_padding + 1 then return none
  else do
    let (out, b32_str) ← encodeFrom 0 0 0 b32_str bin
    let (out, b32_str) ← pad (requiredPadding bin.length use_padding) out b32_str
    let b32_str ← put b32_str out 0
    return some b32_str

/-- Writing a text, and where the next character goes. -/
def writeText (text : Bytes) (out : Nat) (b32_str : Vector UInt8 b32_str_len) :
    Except Exit (Nat × Vector UInt8 b32_str_len) := do
  let b32_str ← putAll b32_str out text
  return (out + text.length, b32_str)

theorem writeText_cons (c : UInt8) (text : Bytes) (out : Nat) (b32_str : Vector UInt8 b32_str_len) :
    writeText (c :: text) out b32_str = (put b32_str out c >>= fun later => writeText text (out + 1) later) := by
  rw [writeText, putAll]
  cases put b32_str out c with
  | error exit => rfl
  | ok later =>
    rw [DescriptorText.Memory.value_bind, DescriptorText.Memory.value_bind, writeText, List.length_cons, Nat.add_right_comm,
      Nat.add_assoc]

theorem writeText_append (first second : Bytes) (out : Nat) (b32_str : Vector UInt8 b32_str_len) :
    writeText (first ++ second) out b32_str = (writeText first out b32_str >>= fun next => writeText second next.1 next.2) := by
  induction first generalizing out b32_str with
  | nil => rfl
  | cons c first ih =>
    rw [List.cons_append, writeText_cons, writeText_cons]
    cases put b32_str out c with
    | error exit => rfl
    | ok later => exact ih (out + 1) later

theorem takeFives_eq (tmp : UInt32) (num_bits out : Nat) (b32_str : Vector UInt8 b32_str_len) :
    takeFives tmp num_bits out b32_str = writeText (Base32.takeFives tmp num_bits) out b32_str := by
  fun_induction Base32.takeFives tmp num_bits generalizing out b32_str with
  | case1 held ih =>
    rw [takeFives, writeText_cons]
    simp only [ih]
  | case2 held small =>
    rw [takeFives]
    · rfl
    · exact small

theorem encodeFrom_eq (bin : Bytes) : ∀ (tmp : UInt32) (num_bits out : Nat) (b32_str : Vector UInt8 b32_str_len),
    encodeFrom tmp num_bits out b32_str bin = writeText (Base32.encodeFrom tmp num_bits bin) out b32_str := by
  induction bin with
  | nil =>
    intro tmp num_bits out b32_str
    rw [encodeFrom, Base32.encodeFrom]
    by_cases held : 0 < num_bits
    · rw [if_pos held, if_pos held, writeText_cons]
      rfl
    · rw [if_neg held, if_neg held]
      rfl
  | cons byte rest ih =>
    intro tmp num_bits out b32_str
    rw [encodeFrom, Base32.encodeFrom, writeText_append, takeFives_eq]
    simp only [ih]

theorem pad_eq (required_padding out : Nat) (b32_str : Vector UInt8 b32_str_len) :
    pad required_padding out b32_str = writeText (List.replicate required_padding 61) out b32_str := by
  induction required_padding generalizing out b32_str with
  | zero => rfl
  | succ required_padding ih =>
    rw [pad, List.replicate_succ, writeText_cons]
    simp only [ih]

/-- The characters of some bytes with their padding. -/
def padded (bin : Bytes) (use_padding : Bool) : Bytes :=
  Base32.bin_to_base32 bin ++ List.replicate (requiredPadding bin.length use_padding) 61

theorem padded_length (bin : Bytes) (use_padding : Bool) :
    (padded bin use_padding).length = requiredChars bin.length + requiredPadding bin.length use_padding := by
  rw [padded, List.length_append, List.length_replicate, bin_to_base32_length, requiredChars, Nat.mul_comm]

/-- What is written is what has been counted, and one terminator. -/
theorem bin_to_base32_eq {bin : Bytes} (some_byte : bin ≠ []) {b32_str : Vector UInt8 b32_str_len} {use_padding : Bool}
    (room : (padded bin use_padding).length < b32_str_len) : ∃ later,
    bin_to_base32 bin b32_str use_padding = .ok (some later) ∧
    later.toList = padded bin use_padding ++ 0 :: b32_str.toList.drop ((padded bin use_padding).length + 1) := by
  have held : b32_str.toList.length = b32_str_len := Vector.length_toList
  have cut : b32_str.toList = [] ++ (b32_str.toList.take ((padded bin use_padding).length + 1) ++
      b32_str.toList.drop ((padded bin use_padding).length + 1)) := by simp
  obtain ⟨later, wrote, whole⟩ := @putAll_over _ _ [] _ (padded bin use_padding ++ [0]) _ cut (by simp; omega)
  refine ⟨later, ?_, by simpa using whole⟩
  have count := padded_length bin use_padding
  have present : ¬ (bin.length = 0 ∨ b32_str_len = 0) := by
    rintro (empty | none)
    · exact some_byte (List.length_eq_zero_iff.mp empty)
    · omega
  have written : writeText (padded bin use_padding ++ [0]) 0 b32_str =
      .ok ((padded bin use_padding ++ [0]).length, later) := by
    rw [writeText, show putAll b32_str 0 _ = _ from wrote, DescriptorText.Memory.value_bind, Nat.zero_add]
    rfl
  rw [writeText_append, padded, writeText_append] at written
  rw [bin_to_base32, if_neg present, if_neg (by omega)]
  rw [encodeFrom_eq, ← Base32.bin_to_base32]
  cases chars : writeText (Base32.bin_to_base32 bin) 0 b32_str with
  | error exit => simp [chars, bind, Except.bind] at written
  | ok first =>
    simp only [chars, bind, Except.bind] at written ⊢
    rw [pad_eq]
    cases padding : writeText (List.replicate (requiredPadding bin.length use_padding) 61) first.1 first.2 with
    | error exit => simp [padding] at written
    | ok second =>
      simp only [padding, writeText_cons, bind, Except.bind] at written ⊢
      cases stored : put second.2 second.1 0 with
      | error exit => simp [stored] at written
      | ok third =>
        rw [stored] at written
        have ended : @Except.ok Exit _ (second.1 + 1, third) = .ok (_, later) := written
        rw [(Prod.mk.inj (Except.ok.inj ended)).2]
        rfl

end

/-! ### The decoder -/

section
variable {bin_len : Nat}

/-- The loop of `base32_to_bin`: how many bytes are written, and the buffer. -/
def decodeFrom (tmp : UInt32) (num_bits written : Nat) (bin : Vector UInt8 bin_len) :
    Bytes → Except Exit (Nat × Vector UInt8 bin_len)
  | [] => return (written, bin)
  | ch :: rest =>
    if ch = 0 then return (written, bin)
    else match symbol ch with
    | .padding => return (written, bin)
    | .bad => return (0, bin)
    | .bits value =>
      let tmp := tmp <<< 5 ||| value.toUInt32
      if num_bits + 5 < 8 then decodeFrom tmp (num_bits + 5) written bin rest
      else if bin_len ≤ written then return (0, bin)
      else do
        let bin ← put bin written (tmp >>> UInt32.ofNat (num_bits + 5 - 8)).toUInt8
        decodeFrom tmp (num_bits + 5 - 8) (written + 1) bin rest

def base32_to_bin (b32_str : Bytes) (bin : Vector UInt8 bin_len) : Except Exit (Nat × Vector UInt8 bin_len) :=
  if b32_str.length = 0 ∨ bin_len = 0 then .error .abort else decodeFrom 0 0 0 bin b32_str

theorem decodeFrom_eq (chars : Bytes) : ∀ (tmp : UInt32) (num_bits : Nat) (bin : Vector UInt8 bin_len) (written : Bytes),
    written <+: bin.toList → ∃ later,
      decodeFrom tmp num_bits written.length bin chars =
        .ok ((Base32.decodeFrom bin_len tmp num_bits written chars).length, later) ∧
      Base32.decodeFrom bin_len tmp num_bits written chars <+: later.toList := by
  induction chars with
  | nil =>
    intro tmp num_bits bin written holds
    exact ⟨bin, rfl, holds⟩
  | cons ch rest ih =>
    intro tmp num_bits bin written holds
    rw [decodeFrom, Base32.decodeFrom]
    by_cases nul : ch = 0
    · rw [if_pos nul, if_pos nul]
      exact ⟨bin, rfl, holds⟩
    rw [if_neg nul, if_neg nul]
    cases symbol ch with
    | padding => exact ⟨bin, rfl, holds⟩
    | bad => exact ⟨bin, rfl, List.nil_prefix⟩
    | bits value =>
      dsimp only
      by_cases few : num_bits + 5 < 8
      · rw [if_pos few, if_pos few]
        exact ih _ _ bin written holds
      rw [if_neg few, if_neg few]
      by_cases full : bin_len ≤ written.length
      · rw [if_pos full, if_pos full]
        exact ⟨bin, rfl, List.nil_prefix⟩
      · rw [if_neg full, if_neg full]
        obtain ⟨next, stored, continued⟩ := put_spec holds (Nat.lt_of_not_le full)
          (((tmp <<< 5 ||| value.toUInt32) >>> UInt32.ofNat (num_bits + 5 - 8)).toUInt8)
        obtain ⟨later, others, whole⟩ := ih (tmp <<< 5 ||| value.toUInt32) (num_bits + 5 - 8) next _ continued
        rw [List.length_append, List.length_singleton] at others
        exact ⟨later, by rw [stored, DescriptorText.Memory.value_bind, others], whole⟩

/-- The bytes are those that come out of the text, at the start of the buffer. -/
theorem base32_to_bin_eq {b32_str : Bytes} (some_char : b32_str ≠ []) (bin : Vector UInt8 bin_len) (room : bin_len ≠ 0) :
    ∃ later, base32_to_bin b32_str bin = .ok ((Base32.base32_to_bin b32_str bin_len).length, later) ∧
      Base32.base32_to_bin b32_str bin_len <+: later.toList := by
  have present : ¬ (b32_str.length = 0 ∨ bin_len = 0) := by
    rintro (empty | none)
    · exact some_char (List.length_eq_zero_iff.mp empty)
    · exact room none
  rw [base32_to_bin, if_neg present]
  exact decodeFrom_eq b32_str 0 0 bin [] List.nil_prefix

end

/-- Nothing behind a padding character or a terminator counts. -/
theorem decodeFrom_stops (bin_len : Nat) {behind : Bytes} (stop : ∀ c ∈ behind.head?, c = 0 ∨ c = 61) (chars : Bytes) :
    ∀ (tmp : UInt32) (num_bits : Nat) (written : Bytes),
      Base32.decodeFrom bin_len tmp num_bits written (chars ++ behind) = Base32.decodeFrom bin_len tmp num_bits written chars := by
  induction chars with
  | nil =>
    intro tmp num_bits written
    cases behind with
    | nil => rfl
    | cons c behind =>
      rw [List.nil_append, Base32.decodeFrom, Base32.decodeFrom]
      rcases stop c rfl with rfl | rfl
      · rfl
      · rfl
  | cons c chars ih =>
    intro tmp num_bits written
    rw [List.cons_append, Base32.decodeFrom, Base32.decodeFrom]
    simp only [ih]

/-! ### Payloads -/

/-- The bits of a number, the highest first. -/
def bits : Nat → Nat → List Nat
  | 0, _ => []
  | width + 1, value => value / 2 ^ width % 2 :: bits width value

theorem bits_length (width value : Nat) : (bits width value).length = width := by
  induction width with
  | zero => rfl
  | succ width ih => rw [bits, List.length_cons, ih]

theorem bits_small (width value : Nat) : ∀ bit ∈ bits width value, bit < 2 := by
  induction width with
  | zero => exact List.forall_mem_nil _
  | succ width ih => exact List.forall_mem_cons.mpr ⟨Nat.mod_lt _ (by decide), ih⟩

theorem number_bits (width value : Nat) : number 2 (bits width value) = value % 2 ^ width := by
  induction width with
  | zero => rw [Nat.pow_zero, Nat.mod_one]; rfl
  | succ width ih =>
    rw [bits, number_cons, bits_length, ih, take_digit value width 1]
    rfl

/-- The bits of digits in a base that is a power of two write the same number. -/
theorem number_flatMap {width : Nat} {digits : List Nat} (small : ∀ digit ∈ digits, digit < 2 ^ width) :
    number 2 (digits.flatMap (bits width)) = number (2 ^ width) digits ∧
      (digits.flatMap (bits width)).length = width * digits.length := by
  induction digits with
  | nil => exact ⟨rfl, rfl⟩
  | cons digit rest ih =>
    rw [List.forall_mem_cons] at small
    obtain ⟨same, length⟩ := ih small.2
    rw [List.flatMap_cons, number_append, number_bits, Nat.mod_eq_of_lt small.1, same, length, number_cons, pow_mul,
      List.length_append, bits_length, length, List.length_cons]
    exact ⟨rfl, by ring⟩

theorem flatMap_bits_small {width : Nat} {digits : List Nat} : ∀ bit ∈ digits.flatMap (bits width), bit < 2 := by
  intro bit mem
  obtain ⟨digit, _, inside⟩ := List.mem_flatMap.mp mem
  exact bits_small width digit bit inside

/-- Digits that write the quotient of a number are its first ones. -/
theorem eq_take_of_number {base k left : Nat} {whole front : List Nat} (whole_small : ∀ digit ∈ whole, digit < base)
    (front_small : ∀ digit ∈ front, digit < base) (long : whole.length = front.length + k) (small : left < base ^ k)
    (same : number base whole = number base front * base ^ k + left) : front = whole.take front.length := by
  have cut := number_append base (whole.take front.length) (whole.drop front.length)
  have behind : (whole.drop front.length).length = k := by
    rw [List.length_drop]
    omega
  have behind_small := @number_lt base (whole.drop front.length) fun digit mem => whole_small digit (List.mem_of_mem_drop mem)
  rw [List.take_append_drop, behind, same] at cut
  rw [behind] at behind_small
  have positive : 0 < base ^ k := Nat.lt_of_le_of_lt (Nat.zero_le _) small
  have quotient := congrArg (· / base ^ k) cut
  simp only [Nat.mul_comm _ (base ^ k), Nat.mul_add_div positive, Nat.div_eq_of_lt small, Nat.div_eq_of_lt behind_small,
    Nat.add_zero] at quotient
  refine number_inj ?_ front_small (fun digit mem => whole_small digit (List.mem_of_mem_take mem)) quotient
  rw [List.length_take]
  omega

/-- The bits of characters, by their places in the alphabet. -/
def charBits (chars : Bytes) : List Nat := (chars.map b32_alphabet.idxOf).flatMap (bits 5)

def byteBits (bytes : Bytes) : List Nat := (bytes.map UInt8.toNat).flatMap (bits 8)

theorem alphabet_place : ∀ i : Fin 32, fiveBits (b32_alphabet.getD i 0) = i ∧
    b32_alphabet.idxOf (b32_alphabet.getD i 0) = i := by
  decide

theorem written_of_alphabet {chars : Bytes} (among : ∀ c ∈ chars, c ∈ b32_alphabet) : Written chars := by
  intro c mem
  obtain ⟨i, inside, rfl⟩ := List.mem_iff_getElem.mp (among c mem)
  refine ⟨UInt32.ofNat i, ?_⟩
  have small : i < 32 := inside
  have index : (UInt32.ofNat i &&& 0x1F).toNat = i := by
    rw [UInt32.toNat_and, UInt32.toNat_ofNat', Nat.mod_eq_of_lt (Nat.lt_trans small (by decide))]
    exact (Nat.and_two_pow_sub_one_eq_mod i 5).trans (Nat.mod_eq_of_lt small)
  rw [b32_char, index, List.getD_eq_getElem _ _ inside]

theorem fiveBits_eq {c : UInt8} (among : c ∈ b32_alphabet) : fiveBits c = b32_alphabet.idxOf c := by
  obtain ⟨i, inside, rfl⟩ := List.mem_iff_getElem.mp among
  have place := alphabet_place ⟨i, inside⟩
  simp only [List.getD_eq_getElem _ _ inside] at place
  rw [place.1, place.2]

theorem alphabet_range : ∀ c ∈ b32_alphabet, 65 ≤ c ∧ c ≤ 90 ∨ 50 ≤ c ∧ c ≤ 55 := by decide +kernel

theorem alphabet_letters : ∀ i : Fin 26, UInt8.ofNat (65 + i) ∈ b32_alphabet := by decide

theorem alphabet_digits : ∀ i : Fin 6, UInt8.ofNat (50 + i) ∈ b32_alphabet := by decide

theorem mem_alphabet_iff {c : UInt8} : c ∈ b32_alphabet ↔ 65 ≤ c ∧ c ≤ 90 ∨ 50 ≤ c ∧ c ≤ 55 := by
  refine ⟨alphabet_range c, ?_⟩
  rintro (⟨low, high⟩ | ⟨low, high⟩)
  · have low_nat : 65 ≤ c.toNat := UInt8.le_iff_toNat_le.mp low
    have high_nat : c.toNat ≤ 90 := UInt8.le_iff_toNat_le.mp high
    have letter := alphabet_letters ⟨c.toNat - 65, by omega⟩
    simp only [Nat.add_sub_cancel' low_nat, UInt8.ofNat_toNat] at letter
    exact letter
  · have low_nat : 50 ≤ c.toNat := UInt8.le_iff_toNat_le.mp low
    have high_nat : c.toNat ≤ 55 := UInt8.le_iff_toNat_le.mp high
    have digit := alphabet_digits ⟨c.toNat - 50, by omega⟩
    simp only [Nat.add_sub_cancel' low_nat, UInt8.ofNat_toNat] at digit
    exact digit

theorem is_bbqr_base32_iff (payload : Bytes) : Bbqr.is_bbqr_base32 payload = true ↔
    (∀ c ∈ payload, c ∈ b32_alphabet) ∧ payload.length % 8 ∈ [0, 2, 4, 5, 7] := by
  have capital_a : Bbqr.ascii 'A' = 65 := rfl
  have capital_z : Bbqr.ascii 'Z' = 90 := rfl
  have two : Bbqr.ascii '2' = 50 := rfl
  have seven : Bbqr.ascii '7' = 55 := rfl
  rw [Bbqr.is_bbqr_base32, capital_a, capital_z, two, seven]
  simp only [mem_alphabet_iff, Bool.and_eq_true, Bool.or_eq_true, decide_eq_true_eq, List.all_eq_true, List.mem_cons,
    List.not_mem_nil, or_false, or_assoc]
  exact and_comm

/-- The bytes of a payload are its bits, without those that do not fill a byte. -/
theorem payload_decoded {payload : Bytes} (among : ∀ c ∈ payload, c ∈ b32_alphabet) {bin_len : Nat}
    (room : 5 * payload.length / 8 ≤ bin_len) :
    (Base32.base32_to_bin payload bin_len).length = 5 * payload.length / 8 ∧
    byteBits (Base32.base32_to_bin payload bin_len) = (charBits payload).take (8 * (5 * payload.length / 8)) := by
  obtain ⟨out, left, result, length, small, counted⟩ := decodeFrom_spec bin_len payload 0 0 [] (by decide)
    (written_of_alphabet among) (by simpa using room)
  rw [Nat.zero_add] at length small counted
  have decoded : Base32.base32_to_bin payload bin_len = out := result
  rw [decoded]
  refine ⟨length, ?_⟩
  have places : payload.map b32_alphabet.idxOf = payload.map fiveBits :=
    List.map_congr_left fun c mem => (fiveBits_eq (among c mem)).symm
  have few : ∀ digit ∈ payload.map b32_alphabet.idxOf, digit < 2 ^ 5 := by
    intro digit mem
    obtain ⟨c, inside, rfl⟩ := List.mem_map.mp mem
    exact List.idxOf_lt_length_of_mem (among c inside)
  have byte_small : ∀ digit ∈ out.map UInt8.toNat, digit < 2 ^ 8 := by
    intro digit mem
    obtain ⟨byte, _, rfl⟩ := List.mem_map.mp mem
    exact byte.toNat_lt
  obtain ⟨char_number, char_length⟩ := number_flatMap few
  obtain ⟨byte_number, byte_length⟩ := number_flatMap byte_small
  rw [List.length_map] at char_length byte_length
  have whole : number 2 (charBits payload) = number 2 (byteBits out) * 2 ^ (5 * payload.length % 8) + left := by
    rw [charBits, char_number, byteBits, byte_number, places]
    rw [charNumber, byteNumber] at counted
    simpa using counted
  have first := eq_take_of_number (k := 5 * payload.length % 8) flatMap_bits_small flatMap_bits_small
    (by rw [char_length, byte_length, length]; omega) small whole
  rw [byteBits, first, byte_length, length, charBits]

/-! ### Both directions -/

theorem padded_visible (bin : Bytes) (use_padding : Bool) : (0 : UInt8) ∉ padded bin use_padding := by
  rw [padded, List.mem_append, not_or]
  constructor
  · intro nul
    have letter := bin_to_base32_alphabet bin 0 nul
    revert letter
    decide
  · intro nul
    have same := List.eq_of_mem_replicate nul
    revert same
    decide

/-- The decoder gives back the bytes of a text, however much it sees of what is behind. -/
theorem base32_to_bin_padded (bin behind : Bytes) (use_padding : Bool) {bin_len : Nat} (room : bin.length ≤ bin_len) {n : Nat}
    (enough : (padded bin use_padding).length ≤ n) :
    Base32.base32_to_bin ((padded bin use_padding ++ 0 :: behind).take n) bin_len = bin := by
  rw [padded, List.length_append] at enough
  have stop : ∀ c ∈ ((List.replicate (requiredPadding bin.length use_padding) (61 : UInt8) ++ 0 :: behind).take
      (n - (Base32.bin_to_base32 bin).length)).head?, c = 0 ∨ c = 61 := by
    intro c first
    rw [List.head?_take] at first
    split at first
    next => cases first
    next =>
      cases padding : requiredPadding bin.length use_padding with
      | zero =>
        simp only [padding, List.replicate_zero, List.nil_append, List.head?_cons, Option.mem_some_iff] at first
        exact .inl first.symm
      | succ more =>
        simp only [padding, List.replicate_succ, List.cons_append, List.head?_cons, Option.mem_some_iff] at first
        exact .inr first.symm
  rw [Base32.base32_to_bin, padded, List.append_assoc, List.take_append, List.take_of_length_le (by omega),
    decodeFrom_stops bin_len stop]
  exact base32_to_bin_bin_to_base32 bin room

/-- What the encoder writes into a buffer is as long as its size check says and decodes to the same bytes, with or without
padding and terminator. A payload of BBQr is accepted for its alphabet and its length alone, and becomes all the bytes
that its bits fill. -/
theorem base32_exact :
    (∀ (bin : Bytes) (use_padding : Bool) (b32_str_len : Nat) (b32_str : Vector UInt8 b32_str_len), bin ≠ [] →
      requiredChars bin.length + requiredPadding bin.length use_padding < b32_str_len → ∃ text later,
        bin_to_base32 bin b32_str use_padding = .ok (some later) ∧
        text.length = requiredChars bin.length + requiredPadding bin.length use_padding ∧ 0 ∉ text ∧
        later.toList = text ++ 0 :: b32_str.toList.drop (text.length + 1) ∧
        ∀ n, text.length ≤ n → ∀ (bin_len : Nat) (out : Vector UInt8 bin_len), bin.length ≤ bin_len →
          ∃ decoded, base32_to_bin (later.toList.take n) out = .ok (bin.length, decoded) ∧ bin <+: decoded.toList) ∧
    ∀ payload : Bytes,
      (Bbqr.is_bbqr_base32 payload = true ↔ (∀ c ∈ payload, c ∈ b32_alphabet) ∧ payload.length % 8 ∈ [0, 2, 4, 5, 7]) ∧
      (Bbqr.is_bbqr_base32 payload = true → payload ≠ [] → ∀ (bin_len : Nat) (bin : Vector UInt8 bin_len),
        5 * payload.length / 8 ≤ bin_len → ∃ bytes decoded,
          base32_to_bin payload bin = .ok (5 * payload.length / 8, decoded) ∧ bytes <+: decoded.toList ∧
          bytes.length = 5 * payload.length / 8 ∧ byteBits bytes = (charBits payload).take (8 * bytes.length) ∧
          ∀ (decoders : Bbqr.Decoders) (encoding : UInt8) (is_final : Bool), encoding ≠ Bbqr.ascii 'H' →
            is_final = true ∨ payload.length % 8 = 0 →
            Bbqr.decode_frame_payload decoders encoding payload is_final bin_len = bytes) := by
  constructor
  · intro bin use_padding b32_str_len b32_str some_byte room
    have count := padded_length bin use_padding
    obtain ⟨later, wrote, layout⟩ := @bin_to_base32_eq _ _ some_byte b32_str use_padding (by omega)
    refine ⟨padded bin use_padding, later, wrote, count, padded_visible bin use_padding, layout, ?_⟩
    intro n enough bin_len out fits
    have positive : bin.length ≠ 0 := fun empty => some_byte (List.length_eq_zero_iff.mp empty)
    have some_char : later.toList.take n ≠ [] := by
      intro empty
      have short := congrArg List.length empty
      rw [List.length_take, layout, List.length_append, List.length_cons, count, requiredChars, List.length_nil] at short
      rw [count, requiredChars] at enough
      omega
    obtain ⟨decoded, ran, holds⟩ := base32_to_bin_eq some_char out (by omega)
    have whole : Base32.base32_to_bin (later.toList.take n) bin_len = bin := by
      rw [layout]
      exact base32_to_bin_padded bin _ use_padding fits enough
    rw [whole] at ran holds
    exact ⟨decoded, ran, holds⟩
  · intro payload
    refine ⟨is_bbqr_base32_iff payload, ?_⟩
    intro accepted some_char bin_len bin room
    obtain ⟨among, length⟩ := (is_bbqr_base32_iff payload).mp accepted
    obtain ⟨count, same⟩ := payload_decoded among room
    have positive : payload.length ≠ 0 := fun empty => some_char (List.length_eq_zero_iff.mp empty)
    have bytes_room : bin_len ≠ 0 := by
      simp only [List.mem_cons, List.not_mem_nil, or_false] at length
      omega
    obtain ⟨decoded, ran, holds⟩ := base32_to_bin_eq some_char bin bytes_room
    rw [count] at ran
    refine ⟨_, decoded, ran, holds, count, by rw [count, same], ?_⟩
    intro decoders encoding is_final base32 whole_blocks
    have blocks : ¬ (!is_final && payload.length % 8 ≠ 0) = true := by
      rcases whole_blocks with final | whole
      · simp [final]
      · simp [whole]
    rw [Bbqr.decode_frame_payload, if_neg positive, if_neg base32, if_neg blocks, accepted]
    rfl

end PiJade.Base32.Memory
