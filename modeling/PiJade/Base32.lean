import Mathlib.Tactic.Linarith
import Mathlib.Tactic.Ring
import PiJade.SettingsCodec

/-!
Base32 (`main/utils/util.c`). Both directions push digits into a word and take digits of
the other size out of its end; the word is never cleared, so only its low bits count. Read
as one number, what has come out times the size of the bits still held, plus those bits, is
what has gone in: from this the decoder gives back what the encoder wrote.
-/
namespace PiJade.Base32
set_option linter.unusedSimpArgs false
open SettingsCodec (ascii)

/-- `b32_alphabet`. -/
def b32_alphabet : Bytes := ascii "ABCDEFGHIJKLMNOPQRSTUVWXYZ234567"

/-- The character at the low five bits of a word. -/
def b32_char (word : UInt32) : UInt8 := b32_alphabet.getD (word &&& 0x1F).toNat 0

/-- The inner loop of `bin_to_base32`: five bits at a time, from the top of those held. -/
def takeFives (tmp : UInt32) : Nat → Bytes
  | held + 5 => b32_char (tmp >>> UInt32.ofNat held) :: takeFives tmp held
  | _ => []

/-- The outer loop, with `num_bits` bits held from earlier bytes. -/
def encodeFrom (tmp : UInt32) (num_bits : Nat) : Bytes → Bytes
  | [] => if 0 < num_bits then [b32_char (tmp <<< UInt32.ofNat (5 - num_bits))] else []
  | byte :: rest =>
    let tmp := tmp <<< 8 ||| byte.toUInt32
    takeFives tmp (num_bits + 8) ++ encodeFrom tmp ((num_bits + 8) % 5) rest

/-- The characters `bin_to_base32` writes without padding. -/
def bin_to_base32 (bin : Bytes) : Bytes := encodeFrom 0 0 bin

/-- What a character is to `base32_to_bin`. -/
inductive Symbol where
  | bits (value : UInt8)
  | padding
  | bad
  deriving DecidableEq, Repr

def symbol (ch : UInt8) : Symbol :=
  if 97 ≤ ch ∧ ch ≤ 122 ∨ 65 ≤ ch ∧ ch ≤ 90 then .bits ((ch &&& 0x1F) - 1)
  else if 50 ≤ ch ∧ ch ≤ 55 then .bits (ch - 24)
  else if ch = 61 then .padding
  else .bad

/-- The loop of `base32_to_bin`, with the bytes written so far. A bad character and a full
    destination give nothing. -/
def decodeFrom (bin_len : Nat) (tmp : UInt32) (num_bits : Nat) (written : Bytes) : Bytes → Bytes
  | [] => written
  | ch :: rest =>
    if ch = 0 then written
    else match symbol ch with
    | .padding => written
    | .bad => []
    | .bits value =>
      let tmp := tmp <<< 5 ||| value.toUInt32
      if num_bits + 5 < 8 then decodeFrom bin_len tmp (num_bits + 5) written rest
      else if bin_len ≤ written.length then []
      else decodeFrom bin_len tmp (num_bits + 5 - 8)
        (written ++ [(tmp >>> UInt32.ofNat (num_bits + 5 - 8)).toUInt8]) rest

def base32_to_bin (b32_str : Bytes) (bin_len : Nat) : Bytes := decodeFrom bin_len 0 0 [] b32_str

/-! ### Digits as numbers -/

/-- The number some digits write in a base, the first one highest. -/
def number (base : Nat) (digits : List Nat) : Nat := digits.foldl (fun value digit => value * base + digit) 0

theorem foldl_number (base : Nat) (digits : List Nat) (start : Nat) :
    digits.foldl (fun value digit => value * base + digit) start = start * base ^ digits.length + number base digits := by
  induction digits generalizing start with
  | nil => simp [number]
  | cons digit rest ih =>
    simp only [number, List.foldl_cons, List.length_cons, ih (start * base + digit), ih (0 * base + digit)]
    ring

theorem number_cons (base digit : Nat) (rest : List Nat) :
    number base (digit :: rest) = digit * base ^ rest.length + number base rest := by
  have := foldl_number base rest (0 * base + digit)
  simpa [number] using this

theorem number_append (base : Nat) (front rest : List Nat) :
    number base (front ++ rest) = number base front * base ^ rest.length + number base rest := by
  rw [number, List.foldl_append]
  exact foldl_number base rest _

theorem number_lt {base : Nat} {digits : List Nat} (small : ∀ digit ∈ digits, digit < base) :
    number base digits < base ^ digits.length := by
  induction digits with
  | nil => simp [number]
  | cons digit rest ih =>
    have first := small digit (by simp)
    have later := ih fun other member => small other (by simp [member])
    rw [number_cons, List.length_cons, pow_succ']
    calc digit * base ^ rest.length + number base rest < digit * base ^ rest.length + base ^ rest.length := by omega
      _ = (digit + 1) * base ^ rest.length := by ring
      _ ≤ base * base ^ rest.length := Nat.mul_le_mul_right _ first

/-- Digits of one length are told by their number. -/
theorem number_inj {base : Nat} {first second : List Nat} (length : first.length = second.length)
    (small : ∀ digit ∈ first, digit < base) (small' : ∀ digit ∈ second, digit < base)
    (same : number base first = number base second) : first = second := by
  induction first generalizing second with
  | nil => exact (List.length_eq_zero_iff.mp length.symm).symm
  | cons digit rest ih =>
    cases second with
    | nil => simp at length
    | cons digit' rest' =>
      have later := number_lt fun other member => small other (List.mem_cons_of_mem _ member)
      have later' := number_lt fun other member => small' other (List.mem_cons_of_mem _ member)
      have len : rest.length = rest'.length := Nat.succ.inj length
      rw [number_cons, number_cons, ← len] at same
      rw [← len] at later'
      have positive : 0 < base ^ rest.length := by omega
      have heads : digit = digit' := by
        have quotient := congrArg (· / base ^ rest.length) same
        simpa [Nat.mul_comm _ (base ^ rest.length), Nat.mul_add_div positive, Nat.div_eq_of_lt later,
          Nat.div_eq_of_lt later'] using quotient
      subst heads
      rw [ih len (fun other member => small other (List.mem_cons_of_mem _ member))
        (fun other member => small' other (List.mem_cons_of_mem _ member)) (by omega)]

/-! ### Words -/

theorem toNat_shiftLeft_small (word : UInt32) {k : Nat} (small : k < 32) :
    (word <<< UInt32.ofNat k).toNat = word.toNat * 2 ^ k % 2 ^ 32 := by
  rw [UInt32.toNat_shiftLeft, UInt32.toNat_ofNat', Nat.mod_eq_of_lt (by omega : k < 2 ^ 32), Nat.mod_eq_of_lt small,
    Nat.shiftLeft_eq]

theorem toNat_shiftRight_small (word : UInt32) {k : Nat} (small : k < 32) :
    (word >>> UInt32.ofNat k).toNat = word.toNat / 2 ^ k := by
  rw [UInt32.toNat_shiftRight, UInt32.toNat_ofNat', Nat.mod_eq_of_lt (by omega : k < 2 ^ 32), Nat.mod_eq_of_lt small,
    Nat.shiftRight_eq_div_pow]

/-- Pushing a digit of `k` bits into a word of which `n` bits are held. -/
theorem push_digit (word : UInt32) {digit : UInt32} {k n : Nat} (small : digit.toNat < 2 ^ k) (room : n + k < 32) :
    (word <<< UInt32.ofNat k ||| digit).toNat % 2 ^ (n + k) = word.toNat % 2 ^ n * 2 ^ k + digit.toNat := by
  have divides : 2 ^ (n + k) ∣ 2 ^ 32 := pow_dvd_pow 2 (by omega)
  have split : (2 : Nat) ^ 32 = 2 ^ (32 - k) * 2 ^ k := by rw [← pow_add]; congr 1; omega
  have shifted : word.toNat * 2 ^ k % 2 ^ 32 = word.toNat % 2 ^ (32 - k) * 2 ^ k := by
    rw [split, Nat.mul_mod_mul_right]
  have joined : (word <<< UInt32.ofNat k ||| digit).toNat = word.toNat * 2 ^ k % 2 ^ 32 + digit.toNat := by
    rw [UInt32.toNat_or, toNat_shiftLeft_small word (by omega), shifted, ← Nat.shiftLeft_eq,
      Nat.shiftLeft_add_eq_or_of_lt small]
  rw [joined, Nat.add_mod, Nat.mod_mod_of_dvd _ divides, ← Nat.add_mod, pow_add]
  have low := Nat.mod_add_div (word.toNat) (2 ^ n)
  have below : word.toNat % 2 ^ n * 2 ^ k + digit.toNat < 2 ^ n * 2 ^ k := by
    have held := Nat.mod_lt word.toNat (pow_pos (show 0 < 2 by decide) n)
    calc word.toNat % 2 ^ n * 2 ^ k + digit.toNat < (word.toNat % 2 ^ n + 1) * 2 ^ k := by rw [Nat.add_mul]; omega
      _ ≤ 2 ^ n * 2 ^ k := Nat.mul_le_mul_right _ held
  calc (word.toNat * 2 ^ k + digit.toNat) % (2 ^ n * 2 ^ k)
      = (word.toNat % 2 ^ n * 2 ^ k + digit.toNat + 2 ^ n * 2 ^ k * (word.toNat / 2 ^ n)) % (2 ^ n * 2 ^ k) := by
        congr 1
        conv_lhs => rw [← low]
        ring
    _ = word.toNat % 2 ^ n * 2 ^ k + digit.toNat := by rw [Nat.add_mul_mod_self_left, Nat.mod_eq_of_lt below]

/-- Taking the top `k` of `m + k` bits held leaves the low `m`. -/
theorem take_digit (value m k : Nat) :
    value % 2 ^ (m + k) = value / 2 ^ m % 2 ^ k * 2 ^ m + value % 2 ^ m := by
  rw [pow_add, Nat.mod_mul]
  ring

/-- A character of the alphabet is read as its place in it. -/
theorem symbol_alphabet : ∀ i : Fin 32, symbol (b32_alphabet.getD i 0) = .bits (UInt8.ofNat i) ∧
    b32_alphabet.getD i 0 ≠ 0 := by
  decide

/-- The five bits a character stands for. -/
def fiveBits (ch : UInt8) : Nat :=
  match symbol ch with
  | .bits value => value.toNat
  | _ => 0

theorem b32_char_spec (word : UInt32) : symbol (b32_char word) = .bits (UInt8.ofNat (word.toNat % 32)) ∧
    b32_char word ≠ 0 ∧ fiveBits (b32_char word) = word.toNat % 32 := by
  have index : (word &&& 0x1F).toNat = word.toNat % 32 := by
    rw [UInt32.toNat_and]
    exact Nat.and_two_pow_sub_one_eq_mod word.toNat 5
  have bound : word.toNat % 32 < 32 := Nat.mod_lt _ (by decide)
  have known := symbol_alphabet ⟨word.toNat % 32, bound⟩
  simp only at known
  rw [b32_char, index]
  refine ⟨known.1, known.2, ?_⟩
  rw [fiveBits, known.1]
  simp only [UInt8.toNat_ofNat']
  omega

/-! ### The encoder -/

/-- The number some characters write. -/
def charNumber (chars : Bytes) : Nat := number 32 (chars.map fiveBits)

/-- The number some bytes write. -/
def byteNumber (bytes : Bytes) : Nat := number 256 (bytes.map UInt8.toNat)

theorem charNumber_cons (ch : UInt8) (rest : Bytes) :
    charNumber (ch :: rest) = fiveBits ch * 2 ^ (5 * rest.length) + charNumber rest := by
  rw [charNumber, List.map_cons, number_cons, List.length_map, pow_mul]
  rfl

theorem charNumber_append (front rest : Bytes) :
    charNumber (front ++ rest) = charNumber front * 2 ^ (5 * rest.length) + charNumber rest := by
  rw [charNumber, List.map_append, number_append, List.length_map, pow_mul]
  rfl

theorem byteNumber_cons (byte : UInt8) (rest : Bytes) :
    byteNumber (byte :: rest) = byte.toNat * 2 ^ (8 * rest.length) + byteNumber rest := by
  rw [byteNumber, List.map_cons, number_cons, List.length_map, pow_mul]
  rfl

/-- Bytes of one length are told by their number. -/
theorem byteNumber_inj {first second : Bytes} (length : first.length = second.length)
    (same : byteNumber first = byteNumber second) : first = second := by
  have small : ∀ (bytes : Bytes), ∀ digit ∈ bytes.map UInt8.toNat, digit < 256 := by
    intro bytes digit member
    obtain ⟨byte, _, rfl⟩ := List.mem_map.mp member
    exact byte.toNat_lt
  have digits := number_inj (by simpa using length) (small first) (small second) same
  exact List.map_injective_iff.mpr (fun _ _ => UInt8.toNat_inj.mp) digits

/-- The characters an encoder writes. -/
def Written (chars : Bytes) : Prop := ∀ ch ∈ chars, ∃ word, ch = b32_char word

theorem takeFives_spec (tmp : UInt32) (held : Nat) (room : held < 32) :
    (takeFives tmp held).length = held / 5 ∧ Written (takeFives tmp held) ∧
      charNumber (takeFives tmp held) * 2 ^ (held % 5) + tmp.toNat % 2 ^ (held % 5) = tmp.toNat % 2 ^ held := by
  fun_induction takeFives tmp held with
  | case1 held ih =>
    obtain ⟨length, written, counted⟩ := ih (by omega)
    refine ⟨by rw [List.length_cons, length]; omega, ?_, ?_⟩
    · intro ch member
      rcases List.mem_cons.mp member with rfl | later
      · exact ⟨_, rfl⟩
      · exact written ch later
    · have whole : (2 : Nat) ^ held = 2 ^ (5 * (held / 5)) * 2 ^ (held % 5) := by
        rw [← pow_add, Nat.div_add_mod]
      rw [charNumber_cons, (b32_char_spec _).2.2, toNat_shiftRight_small tmp (by omega), length,
        take_digit tmp.toNat held 5, show (2 : Nat) ^ 5 = 32 from rfl, show (held + 5) % 5 = held % 5 by omega, ← counted,
        whole]
      ring
  | case2 held small =>
    have few : held < 5 := by
      by_contra large
      exact small (held - 5) (by omega)
    refine ⟨by simp; omega, fun ch member => by simp at member, ?_⟩
    rw [Nat.mod_eq_of_lt few]
    simp [charNumber, number]

theorem encodeFrom_spec (bytes : Bytes) : ∀ (tmp : UInt32) (num_bits : Nat), num_bits < 5 →
    ∃ pad < 5, 5 * (encodeFrom tmp num_bits bytes).length = num_bits + 8 * bytes.length + pad ∧
      Written (encodeFrom tmp num_bits bytes) ∧
      charNumber (encodeFrom tmp num_bits bytes) =
        (tmp.toNat % 2 ^ num_bits * 2 ^ (8 * bytes.length) + byteNumber bytes) * 2 ^ pad := by
  induction bytes with
  | nil =>
    intro tmp num_bits few
    by_cases held : 0 < num_bits
    · refine ⟨5 - num_bits, by omega, ?_, ?_, ?_⟩
      · simp only [encodeFrom, held, ↓reduceIte, List.length_singleton, List.length_nil]
        omega
      · intro ch member
        simp only [encodeFrom, held, ↓reduceIte, List.mem_singleton] at member
        exact ⟨_, member⟩
      · have pushed := @push_digit tmp 0 (5 - num_bits) num_bits (by simp) (by omega)
        simp only [UInt32.or_zero, UInt32.toNat_zero, Nat.add_zero, show num_bits + (5 - num_bits) = 5 by omega] at pushed
        have single : charNumber [b32_char (tmp <<< UInt32.ofNat (5 - num_bits))] =
            (tmp <<< UInt32.ofNat (5 - num_bits)).toNat % 32 := by
          rw [charNumber_cons, (b32_char_spec _).2.2]
          simp [charNumber, number]
        simp only [encodeFrom, held, ↓reduceIte]
        rw [single]
        simpa [byteNumber, number] using pushed
    · obtain rfl : num_bits = 0 := by omega
      refine ⟨0, by decide, rfl, fun ch member => by simp [encodeFrom] at member, ?_⟩
      simp [encodeFrom, charNumber, byteNumber, number, Nat.mod_one]
  | cons byte rest ih =>
    intro tmp num_bits few
    simp only [encodeFrom]
    obtain ⟨length, written, fives⟩ := takeFives_spec (tmp <<< 8 ||| byte.toUInt32) (num_bits + 8) (by omega)
    obtain ⟨pad, padded, length', written', counted⟩ :=
      ih (tmp <<< 8 ||| byte.toUInt32) ((num_bits + 8) % 5) (Nat.mod_lt _ (by decide))
    have pushed := @push_digit tmp byte.toUInt32 8 num_bits (by simpa using byte.toNat_lt) (by omega)
    refine ⟨pad, padded, ?_, ?_, ?_⟩
    · rw [List.length_append, length, List.length_cons]
      omega
    · intro ch member
      rcases List.mem_append.mp member with first | later
      · exact written ch first
      · exact written' ch later
    · have word : (tmp <<< 8 ||| byte.toUInt32).toNat % 2 ^ (num_bits + 8) = tmp.toNat % 2 ^ num_bits * 2 ^ 8 + byte.toNat :=
        by simpa using pushed
      rw [charNumber_append, counted, length', byteNumber_cons, List.length_cons]
      have exponent : 2 ^ ((num_bits + 8) % 5 + 8 * rest.length + pad) =
          2 ^ ((num_bits + 8) % 5) * 2 ^ (8 * rest.length) * 2 ^ pad := by rw [pow_add, pow_add]
      have exponent' : 2 ^ (8 * (rest.length + 1)) = 2 ^ 8 * 2 ^ (8 * rest.length) := by rw [Nat.mul_add, pow_add]; ring
      rw [exponent, exponent']
      rw [word] at fives
      calc _ = ((charNumber (takeFives (tmp <<< 8 ||| byte.toUInt32) (num_bits + 8)) * 2 ^ ((num_bits + 8) % 5) +
            (tmp <<< 8 ||| byte.toUInt32).toNat % 2 ^ ((num_bits + 8) % 5)) * 2 ^ (8 * rest.length) +
            byteNumber rest) * 2 ^ pad := by ring
        _ = _ := by rw [fives]; ring

/-! ### The decoder -/

/-- A character of the alphabet is five more bits in the word. -/
theorem decodeFrom_char (bin_len : Nat) (tmp word : UInt32) (num_bits : Nat) (written rest : Bytes) (few : num_bits < 8) :
    ∃ tmp' : UInt32, tmp'.toNat % 2 ^ (num_bits + 5) = tmp.toNat % 2 ^ num_bits * 2 ^ 5 + fiveBits (b32_char word) ∧
      decodeFrom bin_len tmp num_bits written (b32_char word :: rest) =
        if num_bits + 5 < 8 then decodeFrom bin_len tmp' (num_bits + 5) written rest
        else if bin_len ≤ written.length then []
        else decodeFrom bin_len tmp' (num_bits + 5 - 8)
          (written ++ [(tmp' >>> UInt32.ofNat (num_bits + 5 - 8)).toUInt8]) rest := by
  obtain ⟨symbol, nonzero, five⟩ := b32_char_spec word
  refine ⟨tmp <<< 5 ||| (UInt8.ofNat (word.toNat % 32)).toUInt32, ?_, ?_⟩
  · have value : (UInt8.ofNat (word.toNat % 32)).toUInt32.toNat = word.toNat % 32 := by
      rw [UInt8.toNat_toUInt32, UInt8.toNat_ofNat']
      omega
    have pushed := @push_digit tmp (UInt8.ofNat (word.toNat % 32)).toUInt32 5 num_bits (by rw [value]; omega) (by omega)
    rw [value] at pushed
    rw [five]
    exact pushed
  · rw [decodeFrom]
    simp only [nonzero, ↓reduceIte, symbol]

/-- What the decoder makes of `k` characters with `n` bits held: the whole bytes among
    `n + 5k` bits. -/
theorem decodeFrom_spec (bin_len : Nat) (chars : Bytes) : ∀ (tmp : UInt32) (num_bits : Nat) (written : Bytes),
    num_bits < 8 → Written chars → written.length + (num_bits + 5 * chars.length) / 8 ≤ bin_len →
    ∃ (out : Bytes) (left : Nat), decodeFrom bin_len tmp num_bits written chars = written ++ out ∧
      out.length = (num_bits + 5 * chars.length) / 8 ∧ left < 2 ^ ((num_bits + 5 * chars.length) % 8) ∧
      tmp.toNat % 2 ^ num_bits * 2 ^ (5 * chars.length) + charNumber chars =
        byteNumber out * 2 ^ ((num_bits + 5 * chars.length) % 8) + left := by
  induction chars with
  | nil =>
    intro tmp num_bits written few _ _
    refine ⟨[], tmp.toNat % 2 ^ num_bits, by simp [decodeFrom], ?_, ?_, ?_⟩
    · simp only [List.length_nil]
      omega
    · simp only [List.length_nil, Nat.mul_zero, Nat.add_zero, Nat.mod_eq_of_lt few]
      exact Nat.mod_lt _ (pow_pos (by decide) _)
    · simp [charNumber, byteNumber, number]
  | cons ch rest ih =>
    intro tmp num_bits written few valid room
    obtain ⟨word, rfl⟩ := valid ch (by simp)
    have later : Written rest := fun other member => valid other (List.mem_cons_of_mem _ member)
    obtain ⟨tmp', pushed, run⟩ := decodeFrom_char bin_len tmp word num_bits written rest few
    rw [List.length_cons] at room
    have shape : 2 ^ (5 * (rest.length + 1)) = 2 ^ 5 * 2 ^ (5 * rest.length) := by rw [← pow_add]; congr 1; omega
    by_cases short : num_bits + 5 < 8
    · obtain ⟨out, left, result, length, small, counted⟩ := ih tmp' (num_bits + 5) written short later (by omega)
      rw [show num_bits + 5 + 5 * rest.length = num_bits + 5 * (rest.length + 1) by omega] at length small counted
      refine ⟨out, left, ?_, length, small, ?_⟩
      · rw [run, if_pos short, result]
      · rw [List.length_cons, ← counted, charNumber_cons, pushed, shape]
        ring
    · have full : ¬ bin_len ≤ written.length := by omega
      obtain ⟨held, split⟩ : ∃ held, num_bits + 5 = held + 8 := ⟨num_bits + 5 - 8, by omega⟩
      rw [show num_bits + 5 - 8 = held by omega, if_neg short, if_neg full] at run
      obtain ⟨out, left, result, length, small, counted⟩ :=
        ih tmp' held (written ++ [(tmp' >>> UInt32.ofNat held).toUInt8]) (by omega) later
          (by rw [List.length_append, List.length_singleton]; omega)
      have bits : (num_bits + 5 * (rest.length + 1)) % 8 = (held + 5 * rest.length) % 8 := by omega
      refine ⟨(tmp' >>> UInt32.ofNat held).toUInt8 :: out, left, ?_, ?_, ?_, ?_⟩
      · rw [run, result, List.append_assoc, List.singleton_append]
      · rw [List.length_cons, length, List.length_cons]
        omega
      · rw [List.length_cons, bits]
        exact small
      · have byte : (tmp' >>> UInt32.ofNat held).toUInt8.toNat = tmp'.toNat / 2 ^ held % 2 ^ 8 := by
          rw [UInt32.toNat_toUInt8, toNat_shiftRight_small tmp' (by omega)]
        have whole : (2 : Nat) ^ (held + 5 * rest.length) =
            2 ^ (8 * ((held + 5 * rest.length) / 8)) * 2 ^ ((held + 5 * rest.length) % 8) := by
          rw [← pow_add, Nat.div_add_mod]
        rw [split, take_digit tmp'.toNat held 8, ← byte] at pushed
        rw [List.length_cons, bits, byteNumber_cons, length, charNumber_cons, shape]
        calc tmp.toNat % 2 ^ num_bits * (2 ^ 5 * 2 ^ (5 * rest.length)) +
              (fiveBits (b32_char word) * 2 ^ (5 * rest.length) + charNumber rest)
            = (tmp.toNat % 2 ^ num_bits * 2 ^ 5 + fiveBits (b32_char word)) * 2 ^ (5 * rest.length) + charNumber rest := by
              ring
          _ = (tmp' >>> UInt32.ofNat held).toUInt8.toNat * 2 ^ (held + 5 * rest.length) +
                (tmp'.toNat % 2 ^ held * 2 ^ (5 * rest.length) + charNumber rest) := by
              rw [← pushed, pow_add]
              ring
          _ = _ := by
              rw [counted, whole]
              ring

/-- The decoder gives back what the encoder was given. -/
theorem base32_to_bin_bin_to_base32 (bin : Bytes) {bin_len : Nat} (room : bin.length ≤ bin_len) :
    base32_to_bin (bin_to_base32 bin) bin_len = bin := by
  obtain ⟨pad, few, length, written, encoded⟩ := encodeFrom_spec bin 0 0 (by decide)
  have bits : (0 + 5 * (encodeFrom 0 0 bin).length) / 8 = bin.length ∧ (0 + 5 * (encodeFrom 0 0 bin).length) % 8 = pad := by
    omega
  obtain ⟨out, left, result, length', small, decoded⟩ := decodeFrom_spec bin_len (encodeFrom 0 0 bin) 0 0 [] (by decide)
    written (by rw [bits.1]; simpa using room)
  rw [bits.1] at length'
  rw [bits.2, encoded] at decoded
  rw [bits.2] at small
  simp only [UInt32.toNat_zero, Nat.zero_mod, Nat.zero_mul, Nat.zero_add] at decoded
  have same : byteNumber out = byteNumber bin := by
    have quotient := congrArg (· / 2 ^ pad) decoded
    simp only [Nat.mul_comm _ (2 ^ pad), Nat.mul_div_cancel_left _ (pow_pos (show 0 < 2 by decide) pad),
      Nat.mul_add_div (pow_pos (show 0 < 2 by decide) pad), Nat.div_eq_of_lt small, Nat.add_zero] at quotient
    exact quotient.symm
  rw [base32_to_bin, bin_to_base32, result, List.nil_append]
  exact byteNumber_inj length' same

/-- The characters of `n` bytes: five bits each, the last one filled up. -/
theorem bin_to_base32_length (bin : Bytes) : (bin_to_base32 bin).length = (8 * bin.length + 4) / 5 := by
  obtain ⟨pad, few, length, -, -⟩ := encodeFrom_spec bin 0 0 (by decide)
  rw [bin_to_base32]
  omega

/-- The encoder writes capital letters and the digits `2` to `7`. -/
theorem bin_to_base32_alphabet (bin : Bytes) :
    ∀ ch ∈ bin_to_base32 bin, 65 ≤ ch ∧ ch ≤ 90 ∨ 50 ≤ ch ∧ ch ≤ 55 := by
  intro ch member
  obtain ⟨pad, few, length, written, -⟩ := encodeFrom_spec bin 0 0 (by decide)
  obtain ⟨word, rfl⟩ := written ch member
  have letters : ∀ i : Fin 32, 65 ≤ b32_alphabet.getD i 0 ∧ b32_alphabet.getD i 0 ≤ 90 ∨
      50 ≤ b32_alphabet.getD i 0 ∧ b32_alphabet.getD i 0 ≤ 55 := by
    decide
  have bound : (word &&& 0x1F).toNat < 32 := by
    rw [UInt32.toNat_and]
    exact Nat.lt_of_le_of_lt Nat.and_le_right (by decide)
  exact letters ⟨_, bound⟩

end PiJade.Base32
