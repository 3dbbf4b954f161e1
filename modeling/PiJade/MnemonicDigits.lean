import Mathlib.Data.List.GetD
import PiJade.Mnemonic

/-!
The digits of a recovery phrase. What a phrase is, is stated bit by bit: the eleven bits of each
word, the bits of the entropy and of its hash in a row. The three bytes that `seedqr.c` reads give
the index of each word, and the digits are read back as the phrase, if there is one byte more in
the buffer than the phrase needs.
-/
namespace PiJade.Mnemonic
open Text
set_option linter.unusedSimpArgs false

/-! ### Phrases -/

/-- The bits of a byte string, each byte from its most significant one on. -/
def bitsOf (bytes : Bytes) : List Bool :=
  bytes.flatMap fun byte : UInt8 => (List.range 8).map fun k => byte.toNat.testBit (7 - k)

/-- The entropy, and behind it one bit of its hash for every 32. -/
def bip39Bits (lib : Library) (entropy : Bytes) : List Bool :=
  bitsOf entropy ++ (bitsOf (lib.wally_sha256 entropy)).take (entropy.length / 4)

/-- The index of a word is made of eleven bits. -/
def bip39Index (lib : Library) (entropy : Bytes) (i : Nat) : Nat :=
  Nat.ofBits fun j : Fin 11 => (bip39Bits lib entropy).getD (11 * i + 10 - j) false

def phraseWords (lib : Library) (entropy : Bytes) : List Bytes :=
  (List.range (entropy.length * 3 / 4)).map fun i => lib.wordlist.getD (bip39Index lib entropy i) []

/-- Words separated by single spaces. -/
def joined : List Bytes → Bytes
  | [] => []
  | word :: later => word ++ later.flatMap (32 :: ·)

def phrase (lib : Library) (entropy : Bytes) : Bytes := joined (phraseWords lib entropy)

/-- The English list and the standard encoding: the words are sorted, of three to eight letters,
    and no letter alone stands for a word. -/
structure Library.Lawful (lib : Library) : Prop where
  count : lib.wordlist.length = 2048
  sorted : lib.wordlist.Pairwise (· < ·)
  letters : ∀ word ∈ lib.wordlist, 3 ≤ word.length ∧ word.length ≤ 8 ∧ ∀ c ∈ word, 97 ≤ c.toNat ∧ c.toNat ≤ 122
  ambiguous : ∀ word ∈ lib.wordlist, ∃ other ∈ lib.wordlist, other ≠ word ∧ other.take 1 = word.take 1
  standard : ∀ entropy, entropy.length = 16 ∨ entropy.length = 32 →
    lib.bip39_mnemonic_from_bytes entropy = phrase lib entropy

/-! ### Bits -/

theorem bitsOf_getD (bytes : Bytes) (k : Nat) :
    (bitsOf bytes).getD k false = (bytes.getD (k / 8) 0).toNat.testBit (7 - k % 8) := by
  induction bytes generalizing k with
  | nil => simp [bitsOf]
  | cons byte later ih =>
    have eight : ((List.range 8).map fun k => byte.toNat.testBit (7 - k)).length = 8 := by simp
    rw [bitsOf, List.flatMap_cons, ← bitsOf]
    by_cases first : k < 8
    · have quotient : k / 8 = 0 := by omega
      have remainder : k % 8 = k := by omega
      simp [List.getD, List.getElem?_append, first, quotient, remainder]
    · have quotient : k / 8 = (k - 8) / 8 + 1 := by omega
      have remainder : k % 8 = (k - 8) % 8 := by omega
      have behind := ih (k - 8)
      rw [quotient, remainder, List.getD_cons_succ, ← behind]
      simp [List.getD, List.getElem?_append, first]

/-- The working buffer holds the bits of the phrase. -/
theorem work_bits {lib : Library} {entropy : Bytes} (size : entropy.length = 16 ∨ entropy.length = 32) {k : Nat}
    (inside : k < 8 * entropy.length + entropy.length / 4) (rest : Bytes) :
    (bip39Bits lib entropy).getD k false =
      ((entropy ++ (lib.wally_sha256 entropy).getD 0 0 :: rest).getD (k / 8) 0).toNat.testBit (7 - k % 8) := by
  have length : (bitsOf entropy).length = 8 * entropy.length := by
    simp [bitsOf, List.length_flatMap, Nat.mul_comm]
  rw [bip39Bits]
  by_cases first : k < 8 * entropy.length
  · have before : k / 8 < entropy.length := by omega
    have same : (entropy ++ (lib.wally_sha256 entropy).getD 0 0 :: rest).getD (k / 8) 0 = entropy.getD (k / 8) 0 := by
      simp [List.getD, List.getElem?_append, before]
    rw [same, ← bitsOf_getD]
    simp [List.getD, List.getElem?_append, length, first]
  · have offset : k - 8 * entropy.length < entropy.length / 4 := by omega
    have quotient : k / 8 = entropy.length := by omega
    have head : (k - 8 * entropy.length) / 8 = 0 := by omega
    have remainder : (k - 8 * entropy.length) % 8 = k % 8 := by omega
    have hash := bitsOf_getD (lib.wally_sha256 entropy) (k - 8 * entropy.length)
    rw [head, remainder] at hash
    have same : (entropy ++ (lib.wally_sha256 entropy).getD 0 0 :: rest).getD (k / 8) 0 =
        (lib.wally_sha256 entropy).getD 0 0 := by
      simp [List.getD, List.getElem?_append, quotient]
    rw [same, ← hash]
    simp [List.getD, List.getElem?_append, List.getElem?_take, length, first, offset]

/-- A bit of three bytes put together. -/
theorem triple_testBit (a b c : UInt8) (m : Nat) : (a.toNat <<< 16 ||| b.toNat <<< 8 ||| c.toNat).testBit m =
    if m < 8 then c.toNat.testBit m else if m < 16 then b.toNat.testBit (m - 8) else a.toNat.testBit (m - 16) := by
  have high (byte : UInt8) (k : Nat) (above : 8 ≤ k) : byte.toNat.testBit k = false :=
    Nat.testBit_lt_two_pow (Nat.lt_of_lt_of_le byte.toNat_lt (Nat.pow_le_pow_right (by omega) above))
  by_cases third : m < 8
  · have second : ¬ 8 ≤ m := by omega
    have first : ¬ 16 ≤ m := by omega
    simp [Nat.testBit_or, Nat.testBit_shiftLeft, third, second, first]
  · by_cases second : m < 16
    · have first : ¬ 16 ≤ m := by omega
      simp [Nat.testBit_or, Nat.testBit_shiftLeft, third, second, first, Nat.le_of_not_lt third, high c m (by omega)]
    · simp [Nat.testBit_or, Nat.testBit_shiftLeft, third, second, Nat.le_of_not_lt third, Nat.le_of_not_lt second,
        high c m (by omega), high b (m - 8) (by omega)]

/-- The three bytes and the shift give the index of the word. -/
theorem seedqrIndex_eq {lib : Library} {entropy : Bytes} (size : entropy.length = 16 ∨ entropy.length = 32) {i : Nat}
    (word : i < entropy.length * 3 / 4) :
    seedqrIndex (entropy ++ (lib.wally_sha256 entropy).getD 0 0 :: List.replicate (35 - (entropy.length + 1)) 0) i =
      .ok (bip39Index lib entropy i) := by
  have asserted : 11 * i / 8 + 2 <
      (entropy ++ (lib.wally_sha256 entropy).getD 0 0 :: List.replicate (35 - (entropy.length + 1)) 0).length := by
    rw [List.length_append, List.length_cons, List.length_replicate]
    omega
  simp only [seedqrIndex, SEEDQR_INDEX_BITS, asserted, decide_true, Check.ensure_true, Check.ok_bind, Check.pure_eq,
    Except.ok.injEq]
  apply Nat.eq_of_testBit_eq
  intro j
  have mask : (0x7FF : Nat).testBit j = decide (j < 11) := Nat.testBit_two_pow_sub_one 11 j
  rw [Nat.testBit_and, Nat.testBit_shiftRight, triple_testBit, mask]
  by_cases small : j < 11
  · have bit : (bip39Bits lib entropy).getD (11 * i + 10 - j) false = _ :=
      work_bits size (by omega) (List.replicate (35 - (entropy.length + 1)) 0)
    rw [bip39Index, Nat.testBit_ofBits_lt _ j small, bit]
    simp only [small, decide_true, Bool.and_true]
    by_cases third : 24 - 11 - 11 * i % 8 + j < 8
    · have byte : (11 * i + 10 - j) / 8 = 11 * i / 8 + 2 := by omega
      have place : 7 - (11 * i + 10 - j) % 8 = 24 - 11 - 11 * i % 8 + j := by omega
      rw [if_pos third, byte, place]
    · by_cases second : 24 - 11 - 11 * i % 8 + j < 16
      · have byte : (11 * i + 10 - j) / 8 = 11 * i / 8 + 1 := by omega
        have place : 7 - (11 * i + 10 - j) % 8 = 24 - 11 - 11 * i % 8 + j - 8 := by omega
        rw [if_neg third, if_pos second, byte, place]
      · have byte : (11 * i + 10 - j) / 8 = 11 * i / 8 := by omega
        have place : 7 - (11 * i + 10 - j) % 8 = 24 - 11 - 11 * i % 8 + j - 16 := by omega
        rw [if_neg third, if_neg second, byte, place]
  · rw [bip39Index, Nat.testBit_ofBits_ge _ j (by omega)]
    simp [small]

theorem bip39Index_lt (lib : Library) (entropy : Bytes) (i : Nat) : bip39Index lib entropy i < 2048 :=
  Nat.ofBits_lt_two_pow _

/-! ### Digits -/

theorem length_fourDigits {n : Nat} (small : n < 2048) : (fourDigits n).length = 4 := by
  have most : (decimal n).length ≤ 4 := decimal_length_le (by omega) (by omega)
  rw [fourDigits, List.length_append, List.length_replicate]
  omega

theorem number_zeros (zeros : Nat) (digits : Bytes) : number (List.replicate zeros 48 ++ digits) = number digits := by
  induction zeros with
  | zero => rfl
  | succ zeros ih =>
    rw [List.replicate_succ, List.cons_append, ← ih, number, List.foldl_cons]
    rfl

theorem number_fourDigits (n : Nat) : number (fourDigits n) = n := by
  rw [fourDigits, number_zeros, number_decimal]

theorem fourDigits_digits {n : Nat} {c : UInt8} (inside : c ∈ fourDigits n) : isdigit c = true := by
  rw [fourDigits, List.mem_append] at inside
  obtain zero | digit := inside
  · rw [List.eq_of_mem_replicate zero]
    decide
  · exact decimal_digits digit

/-- The digits of a phrase. -/
def digitsOf (lib : Library) (entropy : Bytes) : Bytes :=
  ((List.range (entropy.length * 3 / 4)).map fun i => fourDigits (bip39Index lib entropy i)).flatten

theorem seedqr_digits_eq {lib : Library} {entropy : Bytes} (size : entropy.length = 16 ∨ entropy.length = 32)
    (digits_len : Nat) : seedqr_digits_from_entropy lib entropy digits_len =
      if digits_len < entropy.length * 3 / 4 * 4 + 1 then .ok none else .ok (some (digitsOf lib entropy)) := by
  have known : ¬ (entropy.length ≠ BIP32_ENTROPY_LEN_128 ∧ entropy.length ≠ BIP32_ENTROPY_LEN_256) := by
    rw [BIP32_ENTROPY_LEN_128, BIP32_ENTROPY_LEN_256]
    omega
  rw [seedqr_digits_from_entropy, if_neg known]
  by_cases short : digits_len < entropy.length * 3 / 4 * 4 + 1
  · simp only [SEEDQR_DIGITS_PER_WORD, short, if_true]
  · have each : ∀ i ∈ List.range (entropy.length * 3 / 4), seedqrDigits (entropy ++ (lib.wally_sha256 entropy).getD 0 0 ::
        List.replicate (35 - (entropy.length + 1)) 0) i = .ok (fourDigits (bip39Index lib entropy i)) := by
      intro i inside
      have printed := length_fourDigits (bip39Index_lt lib entropy i)
      rw [seedqrDigits, seedqrIndex_eq size (List.mem_range.mp inside), Check.ok_bind]
      simp [SEEDQR_DIGITS_PER_WORD, printed]
    simp only [SEEDQR_DIGITS_PER_WORD, short, if_false, Check.mapAll_map each]
    rfl

theorem flatten_chunk {chunks : List Bytes} (four : ∀ chunk ∈ chunks, chunk.length = 4) (i : Nat) :
    (chunks.flatten.drop (i * 4)).take 4 = chunks.getD i [] := by
  induction chunks generalizing i with
  | nil => simp
  | cons chunk later ih =>
    obtain ⟨first, others⟩ := List.forall_mem_cons.mp four
    cases i with
    | zero =>
      rw [Nat.zero_mul, List.drop_zero, List.flatten_cons, List.take_left' first]
      rfl
    | succ i =>
      rw [Nat.succ_mul, Nat.add_comm, ← List.drop_drop, List.flatten_cons, List.drop_left' first, ih others]
      rfl

theorem digitsOf_chunk (lib : Library) (entropy : Bytes) {i : Nat} (word : i < entropy.length * 3 / 4) :
    number (((digitsOf lib entropy).drop (i * 4)).take 4) = bip39Index lib entropy i := by
  have four : ∀ chunk ∈ (List.range (entropy.length * 3 / 4)).map (fun i => fourDigits (bip39Index lib entropy i)),
      chunk.length = 4 := by
    intro chunk inside
    obtain ⟨i, _, rfl⟩ := List.mem_map.mp inside
    exact length_fourDigits (bip39Index_lt lib entropy i)
  rw [digitsOf, flatten_chunk four, List.getD_eq_getElem _ _ (by simpa using word), List.getElem_map, List.getElem_range,
    number_fourDigits]

theorem digitsOf_digits {lib : Library} {entropy : Bytes} {c : UInt8} (inside : c ∈ digitsOf lib entropy) :
    isdigit c = true := by
  obtain ⟨chunk, listed, within⟩ := List.mem_flatten.mp inside
  obtain ⟨i, _, rfl⟩ := List.mem_map.mp listed
  exact fourDigits_digits within

theorem length_digitsOf (lib : Library) (entropy : Bytes) :
    (digitsOf lib entropy).length = entropy.length * 3 / 4 * 4 := by
  have four (i : Nat) := length_fourDigits (bip39Index_lt lib entropy i)
  simp [digitsOf, List.length_flatten, Function.comp_def, four]

/-! ### Phrases in a buffer -/

theorem joined_cons (word next : Bytes) (later : List Bytes) :
    joined (word :: next :: later) = word ++ 32 :: joined (next :: later) := rfl

theorem joined_snoc (words : List Bytes) (word : Bytes) :
    joined (words ++ [word]) = joined words ++ (if 0 < words.length then [32] else []) ++ word := by
  cases words with
  | nil => simp [joined]
  | cons first later => simp [joined]

theorem joined_le {least most : Nat} {words : List Bytes} (filled : words ≠ [])
    (each : ∀ word ∈ words, least ≤ word.length ∧ word.length ≤ most) :
    (least + 1) * words.length ≤ (joined words).length + 1 ∧ (joined words).length + 1 ≤ (most + 1) * words.length := by
  induction words with
  | nil => exact absurd rfl filled
  | cons word later ih =>
    obtain ⟨first, others⟩ := List.forall_mem_cons.mp each
    cases later with
    | nil =>
      simp [joined]
      omega
    | cons next rest =>
      obtain ⟨low, high⟩ := ih (List.cons_ne_nil _ _) others
      have size : (joined (word :: next :: rest)).length = word.length + ((joined (next :: rest)).length + 1) := by
        rw [joined_cons, List.length_append, List.length_cons]
      rw [size, List.length_cons, Nat.mul_succ, Nat.mul_succ]
      omega

theorem joined_append_le (front back : List Bytes) : (joined front).length ≤ (joined (front ++ back)).length := by
  cases front with
  | nil => simp [joined]
  | cons word later => simp [joined]

/-! ### The import of digits -/

theorem put_eq {buf_len : Nat} {out bytes : Bytes} (room : out.length + bytes.length ≤ buf_len) :
    put buf_len out bytes = .ok (out ++ bytes) := if_pos room

theorem wordlist_word_eq {wordlist : List Bytes} {index : Nat} (inside : index < wordlist.length) :
    wordlist_word wordlist index = .ok (wordlist.getD index []) := by
  rw [wordlist_word, List.getElem?_eq_getElem inside, List.getD_eq_getElem _ _ inside]

/-- The words of some indices. -/
def wordsAt (lib : Library) (indices : List Nat) : List Bytes := indices.map fun index => lib.wordlist.getD index []

theorem wordsAt_append (lib : Library) (front back : List Nat) :
    wordsAt lib (front ++ back) = wordsAt lib front ++ wordsAt lib back := List.map_append

theorem wordsAt_snoc (lib : Library) (indices : List Nat) (index : Nat) :
    joined (wordsAt lib (indices ++ [index])) =
      joined (wordsAt lib indices) ++ (if 0 < indices.length then [32] else []) ++ lib.wordlist.getD index [] := by
  rw [wordsAt, List.map_append, List.map_singleton, joined_snoc, List.length_map]
  rfl

theorem strtol_digits {text : Bytes} (digits : ∀ c ∈ text, isdigit c = true) : strtol text = number text := by
  cases text with
  | nil => rfl
  | cons c later =>
    have graph := isgraph_isspace (isalnum_isgraph (isdigit_isalnum (digits c List.mem_cons_self)))
    have no_sign : c ≠ 45 ∧ c ≠ 43 := by
      constructor <;>
      · rintro rfl
        exact absurd (digits _ List.mem_cons_self) (by decide)
    have spaces : (c :: later).dropWhile isspace = c :: later := by simp [graph.1]
    have all : (c :: later).takeWhile isdigit = c :: later := List.takeWhile_eq_self_iff.mpr digits
    rw [strtol]
    simp [spaces, no_sign.1, no_sign.2, all]

/-- The loop writes the phrase if there is one byte more than it needs. -/
theorem seedqrWords_eq {lib : Library} (lawful : lib.Lawful) {buf_len : Nat} (room : MNEMONIC_BUFLEN ≤ buf_len)
    {bytes : Bytes} (digits : ∀ c ∈ bytes, isdigit c = true) {indices : List Nat} (back : List Nat)
    (small : ∀ index ∈ indices ++ back, index < 2048)
    (reads : ∀ i < (indices ++ back).length, number ((bytes.drop (i * 4)).take 4) = (indices ++ back).getD i 0)
    (fits : (joined (wordsAt lib indices)).length + 1 < buf_len) :
    seedqrWords lib bytes buf_len (List.range' indices.length back.length) (joined (wordsAt lib indices)) =
      if (joined (wordsAt lib (indices ++ back))).length + 1 < buf_len then
        .ok (some (joined (wordsAt lib (indices ++ back))))
      else .ok none := by
  induction back generalizing indices with
  | nil =>
    rw [List.append_nil, if_pos fits]
    rfl
  | cons index later ih =>
    have rest : indices ++ index :: later = (indices ++ [index]) ++ later := by simp
    have read : number ((bytes.drop (indices.length * 4)).take 4) = index := by
      rw [reads indices.length (by simp), List.getD_append_right _ _ _ _ (Nat.le_refl _)]
      simp
    have below : index < 2048 := small index (by simp)
    have coded : (strtol ((bytes.drop (indices.length * 4)).take 4) % 2 ^ 64).toNat = index := by
      rw [strtol_digits fun c inside => digits c (List.mem_of_mem_drop (List.mem_of_mem_take inside)), read]
      omega
    have inside : index < lib.wordlist.length := lawful.count ▸ below
    have listed : lib.wordlist.getD index [] ∈ lib.wordlist := by
      rw [List.getD_eq_getElem _ _ inside]
      exact List.getElem_mem inside
    obtain ⟨_, most, _⟩ := lawful.letters _ listed
    have grown := congrArg List.length (wordsAt_snoc lib indices index)
    have bound := joined_append_le (wordsAt lib (indices ++ [index])) (wordsAt lib later)
    rw [List.length_append, List.length_append] at grown
    rw [MNEMONIC_BUFLEN] at room
    rw [List.length_cons, List.range'_succ, seedqrWords, coded, if_neg (by omega), wordlist_word_eq inside, Check.ok_bind]
    by_cases full : buf_len ≤ (joined (wordsAt lib indices)).length + 1 + (lib.wordlist.getD index []).length + 1
    · have several : 0 < indices.length := by
        by_contra none
        have empty : indices = [] := List.length_eq_zero_iff.mp (by omega)
        have nothing : (joined (wordsAt lib indices)).length = 0 := by
          rw [empty]
          rfl
        omega
      rw [if_pos several, List.length_singleton] at grown
      have long : ¬ (joined (wordsAt lib (indices ++ index :: later))).length + 1 < buf_len := by
        rw [rest, wordsAt_append]
        omega
      rw [if_pos full, if_neg long]
      rfl
    · have space : (joined (wordsAt lib indices)).length + (if 0 < indices.length then [(32 : UInt8)] else []).length ≤
          (joined (wordsAt lib indices)).length + 1 := by
        split <;> simp
      rw [if_neg full, put_eq (by omega), Check.ok_bind, put_eq (by rw [List.length_append]; omega), Check.ok_bind,
        ← wordsAt_snoc, rest]
      have room_left : (joined (wordsAt lib (indices ++ [index]))).length + 1 < buf_len := by omega
      have next := ih (by rw [← rest]; exact small) (by rw [← rest]; exact reads) room_left
      rw [List.length_append, List.length_singleton] at next
      exact next

/-- The indices of a phrase. -/
def indicesOf (lib : Library) (entropy : Bytes) : List Nat :=
  (List.range (entropy.length * 3 / 4)).map (bip39Index lib entropy)

theorem wordsAt_indicesOf (lib : Library) (entropy : Bytes) :
    wordsAt lib (indicesOf lib entropy) = phraseWords lib entropy := by
  rw [wordsAt, indicesOf, List.map_map]
  rfl

section
variable {lib : Library} {entropy : Bytes} {k : Nat}

theorem cstr_digitsOf : cstr (digitsOf lib entropy) = digitsOf lib entropy := by
  apply cstr_eq_self
  intro nul
  have digit := digitsOf_digits nul
  simp [isdigit] at digit

/-- The digits of a phrase are read back if there is one byte more than the phrase needs. -/
theorem import_seedqr_eq (lawful : lib.Lawful) (size : entropy.length = 16 ∨ entropy.length = 32) {buf_len : Nat}
    (room : MNEMONIC_BUFLEN ≤ buf_len) : import_seedqr lib (digitsOf lib entropy) buf_len =
      if (phrase lib entropy).length + 1 < buf_len then .ok (some (phrase lib entropy ++ [0])) else .ok none := by
  have length := length_digitsOf lib entropy
  have digits : string_all (digitsOf lib entropy) isdigit = true := by
    rw [string_all, cstr_digitsOf, List.all_eq_true]
    exact fun c inside => digitsOf_digits inside
  have looks : ¬ ((digitsOf lib entropy).length ≠ 48 ∧ (digitsOf lib entropy).length ≠ 96 ∨
      (!string_all (digitsOf lib entropy) isdigit) = true) := by
    rw [digits]
    simp
    omega
  have words : (if (digitsOf lib entropy).length = 48 then 12 else 24) = (indicesOf lib entropy).length := by
    rw [indicesOf, List.length_map, List.length_range, length]
    obtain short | long := size
    · simp [short]
    · simp [long]
  have loop : seedqrWords lib (digitsOf lib entropy) buf_len (List.range (indicesOf lib entropy).length) [] =
      if (phrase lib entropy).length + 1 < buf_len then .ok (some (phrase lib entropy)) else .ok none := by
    have small : ∀ index ∈ [] ++ indicesOf lib entropy, index < 2048 := by
      intro index inside
      obtain ⟨i, _, rfl⟩ := List.mem_map.mp inside
      exact bip39Index_lt lib entropy i
    have reads : ∀ i < ([] ++ indicesOf lib entropy).length,
        number (((digitsOf lib entropy).drop (i * 4)).take 4) = ([] ++ indicesOf lib entropy).getD i 0 := by
      intro i inside
      have word : i < entropy.length * 3 / 4 := by simpa [indicesOf] using inside
      rw [digitsOf_chunk lib entropy word, List.nil_append, indicesOf, List.getD_eq_getElem _ _ (by simpa using word)]
      simp
    have fits : (joined (wordsAt lib [])).length + 1 < buf_len := by
      rw [MNEMONIC_BUFLEN] at room
      simp [wordsAt, joined]
      omega
    have whole := seedqrWords_eq lawful room (fun c inside => digitsOf_digits inside) (indicesOf lib entropy) small reads fits
    rw [List.nil_append, wordsAt_indicesOf, List.length_nil, ← List.range_eq_range'] at whole
    exact whole
  simp only [import_seedqr, if_neg looks, words, loop]
  by_cases fits : (phrase lib entropy).length + 1 < buf_len
  · rw [if_pos fits, if_pos fits, Check.ok_bind]
    simp only [put_eq (show (phrase lib entropy).length + [(0 : UInt8)].length ≤ buf_len from Nat.le_of_lt fits)]
    rfl
  · rw [if_neg fits, if_neg fits]
    rfl

end

end PiJade.Mnemonic
