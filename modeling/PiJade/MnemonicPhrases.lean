import PiJade.MnemonicBackups

/-!
Phrases and their entropy. The indices of the words of a phrase are bits in a row; the entropy is at
their start, and so a phrase is that of one entropy only, and words can be completed to a phrase by one
last word for every choice of the bits of entropy that are left to it.
-/
namespace PiJade.Mnemonic
open Text
set_option linter.unusedSimpArgs false

/-! ### Bits of indices -/

/-- A bit of a row of indices. -/
def indexBit (indices : List Nat) (p : Nat) : Bool := (indices.getD (p / 11) 0).testBit (10 - p % 11)

/-- The bytes at the start of a row of indices. -/
def bytesOf (indices : List Nat) (len : Nat) : Bytes :=
  (List.range len).map fun b => UInt8.ofNat (Nat.ofBits fun j : Fin 8 => indexBit indices (8 * b + 7 - j))

theorem length_bytesOf (indices : List Nat) (len : Nat) : (bytesOf indices len).length = len := by
  rw [bytesOf, List.length_map, List.length_range]

theorem bytesOf_bit {indices : List Nat} {len k : Nat} (inside : k < 8 * len) :
    ((bytesOf indices len).getD (k / 8) 0).toNat.testBit (7 - k % 8) = indexBit indices k := by
  have byte : k / 8 < len := by omega
  have small := Nat.ofBits_lt_two_pow fun j : Fin 8 => indexBit indices (8 * (k / 8) + 7 - j)
  have place : 8 * (k / 8) + 7 - (7 - k % 8) = k := by omega
  rw [bytesOf, List.getD_eq_getElem _ _ (by simpa using byte), List.getElem_map, List.getElem_range, UInt8.toNat_ofNat',
    Nat.mod_eq_of_lt small, Nat.testBit_ofBits_lt _ _ (by omega)]
  dsimp only
  rw [place]

/-- Byte strings of one length are equal if their bits are. -/
theorem bytes_ext {first second : Bytes} (length : first.length = second.length)
    (bits : ∀ k < 8 * first.length,
      (first.getD (k / 8) 0).toNat.testBit (7 - k % 8) = (second.getD (k / 8) 0).toNat.testBit (7 - k % 8)) : first =
        second := by
  refine List.ext_getElem length fun b inside inside' => UInt8.toNat_inj.mp (Nat.eq_of_testBit_eq fun j => ?_)
  have small := first[b].toNat_lt
  have small' := second[b].toNat_lt
  by_cases low : j < 8
  · have same := bits (8 * b + (7 - j)) (by omega)
    have quotient : (8 * b + (7 - j)) / 8 = b := by omega
    have bit : 7 - (8 * b + (7 - j)) % 8 = j := by omega
    rw [quotient, bit] at same
    rwa [List.getD_eq_getElem _ _ inside, List.getD_eq_getElem _ _ inside'] at same
  · have power : 2 ^ 8 ≤ 2 ^ j := Nat.pow_le_pow_right (by decide) (by omega)
    rw [Nat.testBit_lt_two_pow (Nat.lt_of_lt_of_le small power), Nat.testBit_lt_two_pow (Nat.lt_of_lt_of_le small' power)]

section
variable {lib : Library}

theorem bip39Index_bit (entropy : Bytes) (i : Nat) {j : Nat} (low : j < 11) :
    (bip39Index lib entropy i).testBit j = (bip39Bits lib entropy).getD (11 * i + 10 - j) false := by
  rw [bip39Index, Nat.testBit_ofBits_lt _ _ low]

theorem bitsOf_length (bytes : Bytes) : (bitsOf bytes).length = 8 * bytes.length := by
  induction bytes with
  | nil => rfl
  | cons byte rest ih =>
    rw [bitsOf, List.flatMap_cons, ← bitsOf, List.length_append, List.length_map, List.length_range, ih, List.length_cons]
    omega

theorem bip39Bits_entropy {entropy : Bytes} {k : Nat} (inside : k < 8 * entropy.length) :
    (bip39Bits lib entropy).getD k false = (entropy.getD (k / 8) 0).toNat.testBit (7 - k % 8) := by
  rw [bip39Bits, List.getD_append _ _ _ _ (by rw [bitsOf_length]; exact inside), bitsOf_getD]

/-- The bits of the indices of a phrase. -/
theorem indexBit_indicesOf {entropy : Bytes} {k : Nat} (inside : k < 11 * (entropy.length * 3 / 4)) :
    indexBit (indicesOf lib entropy) k = (bip39Bits lib entropy).getD k false := by
  have word : k / 11 < entropy.length * 3 / 4 := by omega
  have place : 11 * (k / 11) + 10 - (10 - k % 11) = k := by omega
  rw [indexBit, indicesOf, List.getD_eq_getElem _ _ (by simpa using word), List.getElem_map, List.getElem_range,
    bip39Index_bit _ _ (by omega), place]

/-- The entropy of a phrase is at the start of its indices. -/
theorem bytesOf_indicesOf {entropy : Bytes} (size : entropy.length = 16 ∨ entropy.length = 32) :
    bytesOf (indicesOf lib entropy) entropy.length = entropy := by
  refine bytes_ext (length_bytesOf _ _) fun k inside => ?_
  rw [length_bytesOf] at inside
  rw [bytesOf_bit inside, indexBit_indicesOf (by omega), bip39Bits_entropy inside]

theorem indicesOf_length (entropy : Bytes) : (indicesOf lib entropy).length = entropy.length * 3 / 4 := by
  rw [indicesOf, List.length_map, List.length_range]

theorem indicesOf_small (entropy : Bytes) : ∀ index ∈ indicesOf lib entropy, index < 2048 := by
  intro index inside
  obtain ⟨i, _, rfl⟩ := List.mem_map.mp inside
  exact bip39Index_lt lib entropy i

/-! ### Words and their indices -/

theorem wordlist_nodup (lawful : lib.Lawful) : lib.wordlist.Nodup :=
  lawful.sorted.imp fun before same => absurd (same ▸ before) (List.lt_irrefl _)

/-- The indices of words of the list. -/
theorem indices_of_words (lawful : lib.Lawful) {indices : List Nat} (small : ∀ index ∈ indices, index < 2048) :
    (wordsAt lib indices).map lib.wordlist.idxOf = indices := by
  rw [wordsAt, List.map_map]
  have each : ∀ index ∈ indices, (lib.wordlist.idxOf ∘ fun index => lib.wordlist.getD index []) index = id index := by
    intro index inside
    have bound : index < lib.wordlist.length := lawful.count ▸ small index inside
    rw [Function.comp_apply, List.getD_eq_getElem _ _ bound, (wordlist_nodup lawful).idxOf_getElem]
    rfl
  rw [List.map_congr_left each, List.map_id]

theorem wordsAt_injective (lawful : lib.Lawful) {indices others : List Nat} (small : ∀ index ∈ indices, index < 2048)
    (others_small : ∀ index ∈ others, index < 2048) (same : wordsAt lib indices = wordsAt lib others) : indices =
    others := by
  rw [← indices_of_words lawful small, same, indices_of_words lawful others_small]

theorem wordsAt_no_space (lawful : lib.Lawful) {indices : List Nat} (small : ∀ index ∈ indices, index < 2048) :
    ∀ word ∈ wordsAt lib indices, 32 ∉ word := by
  intro word inside space
  obtain ⟨index, listed, rfl⟩ := List.mem_map.mp inside
  have letters := (lawful.letters _ (wordlist_mem (lawful.count ▸ small index listed))).2.2
  exact absurd (letters 32 space).1 (by decide)

/-- Words without spaces are found again between the spaces. -/
theorem splitOn_joined {words : List Bytes} (filled : words ≠ []) (no_space : ∀ word ∈ words, 32 ∉ word) :
    (joined words).splitOn 32 = words := by
  induction words with
  | nil => exact absurd rfl filled
  | cons word rest ih =>
    obtain ⟨first, others⟩ := List.forall_mem_cons.mp no_space
    cases rest with
    | nil =>
      rw [joined, List.flatMap_nil, List.append_nil]
      exact List.splitOn_eq_singleton first
    | cons next later =>
      rw [joined_cons, List.splitOn_append_cons_self_of_not_mem first, ih (List.cons_ne_nil _ _) others]

/-- What a phrase of twelve or 24 words decodes to, if its checksum is right. -/
def mnemonicToBytes (lib : Library) (text : Bytes) : Option Bytes :=
  let indices := (text.splitOn 32).map lib.wordlist.idxOf
  let entropy := bytesOf indices (if indices.length = 12 then 16 else 32)
  if phrase lib entropy = text then some entropy else none

/-- A phrase decodes to its entropy. -/
theorem mnemonicToBytes_phrase (lawful : lib.Lawful) {entropy : Bytes} (size : entropy.length = 16 ∨ entropy.length = 32) :
    mnemonicToBytes lib (phrase lib entropy) = some entropy := by
  have small := @indicesOf_small lib entropy
  have filled : wordsAt lib (indicesOf lib entropy) ≠ [] := by
    rw [← List.length_pos_iff, wordsAt, List.length_map, indicesOf_length]
    omega
  have words : (phrase lib entropy).splitOn 32 = wordsAt lib (indicesOf lib entropy) := by
    rw [phrase, ← wordsAt_indicesOf, splitOn_joined filled (wordsAt_no_space lawful small)]
  have length : (if (indicesOf lib entropy).length = 12 then 16 else 32) = entropy.length := by
    rw [indicesOf_length]
    rcases size with size | size
    · rw [size, if_pos (by decide)]
    · rw [size, if_neg (by decide)]
  rw [mnemonicToBytes, words, indices_of_words lawful small, length, bytesOf_indicesOf size, if_pos rfl]

/-! ### Words that complete a phrase -/

/-- The bits of the last word that come from the hash. -/
def checksumOf (lib : Library) (front : List Nat) (len quotient : Nat) : Nat :=
  bip39Index lib (bytesOf (front ++ [quotient * 2 ^ (len / 4)]) len) (len * 3 / 4 - 1) % 2 ^ (len / 4)

section
variable {front : List Nat} {len last : Nat}

theorem indexBit_front {indices : List Nat} {k : Nat} (inside : k / 11 < front.length) :
    indexBit (front ++ indices) k = (front.getD (k / 11) 0).testBit (10 - k % 11) := by
  rw [indexBit, List.getD_append _ _ _ _ inside]

theorem indexBit_last {k : Nat} (at_last : k / 11 = front.length) :
    indexBit (front ++ [last]) k = last.testBit (10 - k % 11) := by
  rw [indexBit, at_last, List.getD_append_right _ _ _ _ (Nat.le_refl _), Nat.sub_self]
  rfl

/-- The entropy depends on those bits of the last word only that are above the checksum. -/
theorem bytesOf_quotient (size : len = 16 ∨ len = 32) (count : front.length + 1 = len * 3 / 4) :
    bytesOf (front ++ [last / 2 ^ (len / 4) * 2 ^ (len / 4)]) len = bytesOf (front ++ [last]) len := by
  refine bytes_ext (by rw [length_bytesOf, length_bytesOf]) fun k inside => ?_
  rw [length_bytesOf] at inside
  rw [bytesOf_bit inside, bytesOf_bit inside]
  by_cases before : k / 11 < front.length
  · rw [indexBit_front before, indexBit_front before]
  · have at_last : k / 11 = front.length := by omega
    rw [indexBit_last at_last, indexBit_last at_last, Nat.testBit_mul_two_pow, Nat.testBit_div_two_pow]
    have above : len / 4 ≤ 10 - k % 11 := by omega
    rw [decide_eq_true above, Nat.sub_add_cancel above, Bool.true_and]

theorem bip39Index_front (size : len = 16 ∨ len = 32) (count : front.length + 1 = len * 3 / 4)
    (small : ∀ index ∈ front, index < 2048) {i : Nat} (inside : i < front.length) :
    bip39Index lib (bytesOf (front ++ [last]) len) i = front.getD i 0 := by
  have bound : front.getD i 0 < 2048 := by
    rw [List.getD_eq_getElem _ _ inside]
    exact small _ (List.getElem_mem _)
  have bound' := bip39Index_lt lib (bytesOf (front ++ [last]) len) i
  refine Nat.eq_of_testBit_eq fun j => ?_
  by_cases low : j < 11
  · have entropy_bit : 11 * i + 10 - j < 8 * len := by omega
    have word : (11 * i + 10 - j) / 11 = i := by omega
    have bit : 10 - (11 * i + 10 - j) % 11 = j := by omega
    rw [bip39Index_bit _ _ low, bip39Bits_entropy (by rwa [length_bytesOf]), bytesOf_bit entropy_bit,
      indexBit_front (by rwa [word]), word, bit]
  · have power : 2 ^ 11 ≤ 2 ^ j := Nat.pow_le_pow_right (by decide) (by omega)
    rw [Nat.testBit_lt_two_pow (Nat.lt_of_lt_of_le bound' power), Nat.testBit_lt_two_pow (Nat.lt_of_lt_of_le bound power)]

theorem bip39Index_last (count : front.length + 1 = len * 3 / 4) (small : last < 2048) :
    bip39Index lib (bytesOf (front ++ [last]) len) front.length / 2 ^ (len / 4) = last / 2 ^ (len / 4) := by
  have bound := bip39Index_lt lib (bytesOf (front ++ [last]) len) front.length
  refine Nat.eq_of_testBit_eq fun j => ?_
  rw [Nat.testBit_div_two_pow, Nat.testBit_div_two_pow]
  by_cases low : j + len / 4 < 11
  · have entropy_bit : 11 * front.length + 10 - (j + len / 4) < 8 * len := by omega
    have word : (11 * front.length + 10 - (j + len / 4)) / 11 = front.length := by omega
    have bit : 10 - (11 * front.length + 10 - (j + len / 4)) % 11 = j + len / 4 := by omega
    rw [bip39Index_bit _ _ low, bip39Bits_entropy (by rwa [length_bytesOf]), bytesOf_bit entropy_bit,
      indexBit_last word, bit]
  · have power : 2 ^ 11 ≤ 2 ^ (j + len / 4) := Nat.pow_le_pow_right (by decide) (by omega)
    rw [Nat.testBit_lt_two_pow (Nat.lt_of_lt_of_le bound power), Nat.testBit_lt_two_pow (Nat.lt_of_lt_of_le small power)]

/-- A word completes others to a phrase exactly if its low bits are the checksum of all bits above them. -/
theorem completes_iff (size : len = 16 ∨ len = 32) (count : front.length + 1 = len * 3 / 4)
    (small : ∀ index ∈ front, index < 2048) (last_small : last < 2048) :
    (∃ entropy : Bytes, entropy.length = len ∧ indicesOf lib entropy = front ++ [last]) ↔
      last % 2 ^ (len / 4) = checksumOf lib front len (last / 2 ^ (len / 4)) := by
  have place : len * 3 / 4 - 1 = front.length := by omega
  rw [checksumOf, bytesOf_quotient size count, place]
  constructor
  · rintro ⟨entropy, length, indices⟩
    have same := @bytesOf_indicesOf lib entropy (length ▸ size)
    rw [indices, length] at same
    have at_last : bip39Index lib entropy front.length = (front ++ [last]).getD front.length 0 := by
      rw [← indices, indicesOf, List.getD_eq_getElem _ _ (by rw [List.length_map, List.length_range]; omega),
        List.getElem_map,
        List.getElem_range]
    rw [same, at_last, List.getD_append_right _ _ _ _ (Nat.le_refl _), Nat.sub_self]
    rfl
  · intro checked
    have quotient := @bip39Index_last lib front len last count last_small
    have whole : bip39Index lib (bytesOf (front ++ [last]) len) front.length = last := by
      rw [← Nat.div_add_mod (bip39Index lib _ _) (2 ^ (len / 4)), quotient, ← checked, Nat.div_add_mod]
    refine ⟨bytesOf (front ++ [last]) len, length_bytesOf _ _, List.ext_getElem ?_ fun i inside inside' => ?_⟩
    · rw [indicesOf_length, length_bytesOf, List.length_append, List.length_singleton]
      omega
    · rw [List.length_append, List.length_singleton] at inside'
      simp only [indicesOf, List.getElem_map, List.getElem_range]
      by_cases before : i < front.length
      · rw [bip39Index_front size count small before, List.getElem_append_left before, List.getD_eq_getElem _ _ before]
      · obtain rfl : i = front.length := by omega
        rw [whole, List.getElem_append_right (Nat.le_refl _)]
        simp

end

/-- Of the numbers with one remainder for every quotient there are as many as quotients. -/
theorem countP_remainder {k : Nat} (positive : 0 < k) {remainder : Nat → Nat} (small : ∀ q, remainder q < k) (m : Nat) :
    (List.range (m * k)).countP (fun n => n % k = remainder (n / k)) = m := by
  induction m with
  | zero => simp
  | succ m ih =>
    have split : List.range ((m + 1) * k) = List.range (m * k) ++ (List.range k).map (m * k + ·) := by
      rw [Nat.succ_mul, List.range_add]
    have one : (List.range k).countP (fun n => (m * k + n) % k = remainder ((m * k + n) / k)) = 1 := by
      have same : ∀ n ∈ List.range k, (decide ((m * k + n) % k = remainder ((m * k + n) / k)) = true) ↔
        (n == remainder m) = true := by
        intro n inside
        have below := List.mem_range.mp inside
        have left : (m * k + n) % k = n := by rw [Nat.mul_comm, Nat.mul_add_mod, Nat.mod_eq_of_lt below]
        have above : (m * k + n) / k = m := by
          rw [Nat.mul_comm, Nat.mul_add_div positive, Nat.div_eq_of_lt below, Nat.add_zero]
        rw [left, above, decide_eq_true_iff, beq_iff_eq]
      rw [List.countP_congr same]
      exact List.count_eq_one_of_mem List.nodup_range (List.mem_range.mpr (small m))
    rw [split, List.countP_append, ih, List.countP_map]
    exact congrArg (m + ·) one

end

end PiJade.Mnemonic
