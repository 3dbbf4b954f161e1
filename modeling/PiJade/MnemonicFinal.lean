import PiJade.MnemonicPhrases

/-!
The last word of a phrase (`valid_final_words` and `calculate_valid_final_words` in
`main/process/mnemonic.c`). Every word of the list is printed behind the words that were entered, and the
buffer is given to the validation of libwally, a parameter. The words that are found are those which
complete a phrase, as many as there are choices for the bits of entropy that are left.
-/
namespace PiJade.Mnemonic
open Text
set_option linter.unusedSimpArgs false

def BIP39_WORDLIST_LEN : Nat := 2048
def MNEMONIC_MAX_WORD_LEN : Nat := 8
def MAX_NUM_FINAL_WORDS : Nat := 128

def is_valid_mnemonic_length (nwords : Nat) : Bool := decide (nwords = 12 ∨ nwords = 24)

/-- `snprintf` of a string to where the buffer's text ends. -/
def printAt (buf_len : Nat) (buf s : Bytes) : Check Fault Bytes := do
  Check.ensure (decide (0 < (cstr s).length ∧ (cstr s).length < buf_len - buf.length))
  return buf ++ cstr s

def copyWords : List Bytes → Bytes → Check Fault Bytes
  | [], buf => return buf
  | word :: later, buf => do
    let buf ← printAt MNEMONIC_BUFLEN buf word
    let buf ← put MNEMONIC_BUFLEN buf [32]
    copyWords later buf

structure FinalWords where
  num_possible_words : Nat
  possible_word_list : List Nat
  deriving DecidableEq, Repr

def FinalWords.add (found : FinalWords) (wordlist_index possible_word_list_len : Nat) : FinalWords where
  num_possible_words := found.num_possible_words + 1
  possible_word_list :=
    if found.num_possible_words < possible_word_list_len then found.possible_word_list ++ [wordlist_index]
    else found.possible_word_list

section
variable (lib : Library) (bip39_mnemonic_validate : Bytes → Bool)

def finalFrom (buf : Bytes) (possible_word_list_len : Nat) : List Nat → FinalWords → Check Fault FinalWords
  | [], found => return found
  | wordlist_index :: later, found => do
    let wordlist_extracted ← wordlist_word lib.wordlist wordlist_index
    let text ← printAt MNEMONIC_BUFLEN buf wordlist_extracted
    Check.ensure (decide (3 ≤ (cstr wordlist_extracted).length))
    finalFrom buf possible_word_list_len later
      (if bip39_mnemonic_validate text then found.add wordlist_index possible_word_list_len else found)

def valid_final_words (mnemonic_words : List Bytes) (possible_word_list_len : Nat) : Check Fault FinalWords := do
  Check.ensure (is_valid_mnemonic_length (mnemonic_words.length + 1))
  Check.ensure (decide (0 < possible_word_list_len))
  let buf ← copyWords mnemonic_words []
  finalFrom lib bip39_mnemonic_validate buf possible_word_list_len (List.range BIP39_WORDLIST_LEN) ⟨0, []⟩

/-- The indices of the words. -/
def calculate_valid_final_words (wordlist_words : List Bytes) (nwords : Nat) : Check Fault (List Nat) := do
  Check.ensure (is_valid_mnemonic_length nwords && decide (wordlist_words.length = nwords - 1))
  let found ← valid_final_words lib bip39_mnemonic_validate wordlist_words MAX_NUM_FINAL_WORDS
  Check.ensure (decide (found.num_possible_words = if nwords = 12 then 128 else 8))
  return found.possible_word_list

end

/-- Words of the list are valid if they are the phrase of some entropy. -/
def Validates (lib : Library) (bip39_mnemonic_validate : Bytes → Bool) : Prop :=
  ∀ words : List Bytes, (∀ word ∈ words, word ∈ lib.wordlist) → words.length = 12 ∨ words.length = 24 →
    (bip39_mnemonic_validate (joined words) = true ↔
      ∃ entropy : Bytes, (entropy.length = 16 ∨ entropy.length = 32) ∧ phraseWords lib entropy = words)

/-! ### The buffer -/

/-- Words with a space behind each. -/
def spaced (words : List Bytes) : Bytes := words.flatMap (· ++ [32])

theorem spaced_append (words : List Bytes) (last : Bytes) : spaced words ++ last = joined (words ++ [last]) := by
  induction words with
  | nil => rw [List.nil_append, joined, List.flatMap_nil, List.append_nil, spaced, List.flatMap_nil, List.nil_append]
  | cons word rest ih =>
    have first : spaced (word :: rest) = word ++ 32 :: spaced rest := by
      rw [spaced, List.flatMap_cons, ← spaced, List.append_assoc]
      rfl
    rw [first, List.append_assoc, List.cons_append, ih, List.cons_append]
    cases rest with
    | nil => exact (joined_cons word last []).symm
    | cons next later => exact (joined_cons word next (later ++ [last])).symm

section
variable {lib : Library} {bip39_mnemonic_validate : Bytes → Bool}

theorem printAt_word (lawful : lib.Lawful) {buf_len : Nat} {buf word : Bytes} (listed : word ∈ lib.wordlist)
    (room : buf.length + 8 < buf_len) : printAt buf_len buf word = .ok (buf ++ word) := by
  have letters := lawful.letters word listed
  have fits : 0 < word.length ∧ word.length < buf_len - buf.length := by omega
  rw [printAt, cstr_eq_self (letters_no_nul lawful listed), decide_eq_true fits]
  rfl

theorem copyWords_eq (lawful : lib.Lawful) {words : List Bytes} (listed : ∀ word ∈ words, word ∈ lib.wordlist) :
    ∀ buf : Bytes, buf.length + 9 * words.length ≤ MNEMONIC_BUFLEN → copyWords words buf = .ok (buf ++ spaced words) := by
  induction words with
  | nil =>
    intro buf room
    rw [copyWords, spaced, List.flatMap_nil, List.append_nil]
    rfl
  | cons word rest ih =>
    intro buf room
    obtain ⟨here, others⟩ := List.forall_mem_cons.mp listed
    have letters := lawful.letters word here
    rw [List.length_cons] at room
    have behind : (buf ++ word).length + [(32 : UInt8)].length ≤ MNEMONIC_BUFLEN := by
      rw [List.length_append, List.length_singleton]
      omega
    have left : (buf ++ word ++ [32]).length + 9 * rest.length ≤ MNEMONIC_BUFLEN := by
      rw [List.length_append, List.length_append, List.length_singleton]
      omega
    rw [copyWords, printAt_word lawful here (by omega), Check.ok_bind, put_eq behind, Check.ok_bind, ih others _ left,
      spaced, spaced,
      List.flatMap_cons, List.append_assoc, List.append_assoc, List.append_assoc]

theorem length_spaced_le (lawful : lib.Lawful) {words : List Bytes} (listed : ∀ word ∈ words, word ∈ lib.wordlist) :
    (spaced words).length ≤ 9 * words.length := by
  induction words with
  | nil => exact Nat.le_refl 0
  | cons word rest ih =>
    obtain ⟨here, others⟩ := List.forall_mem_cons.mp listed
    have letters := lawful.letters word here
    have later := ih others
    rw [spaced, List.flatMap_cons, ← spaced, List.length_append, List.length_append, List.length_singleton,
      List.length_cons]
    omega

/-- The indices of the words that are valid behind the buffer. -/
def validOf (lib : Library) (bip39_mnemonic_validate : Bytes → Bool) (buf : Bytes) (indices : List Nat) : List Nat :=
  indices.filter fun index => bip39_mnemonic_validate (buf ++ lib.wordlist.getD index [])

theorem finalFrom_eq (lawful : lib.Lawful) {buf : Bytes} (room : buf.length + 8 < MNEMONIC_BUFLEN) {most : Nat}
    {indices : List Nat} (inside : ∀ index ∈ indices, index < lib.wordlist.length) : ∀ found : FinalWords,
    finalFrom lib bip39_mnemonic_validate buf most indices found = .ok
      ⟨found.num_possible_words + (validOf lib bip39_mnemonic_validate buf indices).length,
        found.possible_word_list ++
          (validOf lib bip39_mnemonic_validate buf indices).take (most - found.num_possible_words)⟩ := by
  induction indices with
  | nil =>
    intro found
    rw [finalFrom, validOf, List.filter_nil, List.length_nil, List.take_nil, List.append_nil]
    rfl
  | cons index later ih =>
    intro found
    obtain ⟨here, others⟩ := List.forall_mem_cons.mp inside
    have listed := wordlist_mem here
    have letters := lawful.letters _ listed
    rw [finalFrom, wordlist_word_eq here, Check.ok_bind, printAt_word lawful listed room, Check.ok_bind,
      cstr_eq_self (letters_no_nul lawful listed), decide_eq_true letters.1, Check.ensure_true, Check.ok_bind, ih others]
    by_cases valid : bip39_mnemonic_validate (buf ++ lib.wordlist.getD index []) = true
    · have hit : validOf lib bip39_mnemonic_validate buf (index :: later) =
          index :: validOf lib bip39_mnemonic_validate buf later := List.filter_cons_of_pos valid
      have count : found.num_possible_words + 1 + (validOf lib bip39_mnemonic_validate buf later).length =
          found.num_possible_words + ((validOf lib bip39_mnemonic_validate buf later).length + 1) := by omega
      rw [if_pos valid, hit, FinalWords.add, List.length_cons, count]
      by_cases more : found.num_possible_words < most
      · have left : most - found.num_possible_words = most - (found.num_possible_words + 1) + 1 := by omega
        rw [if_pos more, left, List.take_succ_cons, List.append_assoc]
        rfl
      · have full : most - found.num_possible_words = 0 := by omega
        have beyond : most - (found.num_possible_words + 1) = 0 := by omega
        rw [if_neg more, full, beyond]
        rfl
    · have miss : validOf lib bip39_mnemonic_validate buf (index :: later) =
      validOf lib bip39_mnemonic_validate buf later :=
        List.filter_cons_of_neg valid
      rw [if_neg valid, miss]

end

/-! ### The words that complete a phrase -/

section
variable {lib : Library} {bip39_mnemonic_validate : Bytes → Bool}

/-- The words of the indices of words. -/
theorem words_of_indices {words : List Bytes} (listed : ∀ word ∈ words, word ∈ lib.wordlist) :
    wordsAt lib (words.map lib.wordlist.idxOf) = words := by
  rw [wordsAt, List.map_map]
  have each : ∀ word ∈ words, ((fun index => lib.wordlist.getD index []) ∘ lib.wordlist.idxOf) word = id word := by
    intro word inside
    have bound := List.idxOf_lt_length_of_mem (listed word inside)
    rw [Function.comp_apply, List.getD_eq_getElem _ _ bound, List.getElem_idxOf]
    rfl
  rw [List.map_congr_left each, List.map_id]

theorem indices_small (lawful : lib.Lawful) {words : List Bytes} (listed : ∀ word ∈ words, word ∈ lib.wordlist) :
    ∀ index ∈ words.map lib.wordlist.idxOf, index < 2048 := by
  intro index inside
  obtain ⟨word, among, rfl⟩ := List.mem_map.mp inside
  exact lawful.count ▸ List.idxOf_lt_length_of_mem (listed word among)

/-- Words are a phrase if their indices are those of an entropy. -/
theorem phraseWords_iff (lawful : lib.Lawful) {indices : List Nat} (small : ∀ index ∈ indices, index < 2048)
    (entropy : Bytes) :
    phraseWords lib entropy = wordsAt lib indices ↔ indicesOf lib entropy = indices := by
  rw [← wordsAt_indicesOf]
  exact ⟨fun same => wordsAt_injective lawful (indicesOf_small entropy) small same, fun same => by rw [same]⟩

/-- The index completes the words to the phrase of some entropy. -/
def Completes (lib : Library) (words : List Bytes) (index : Nat) : Prop :=
  ∃ entropy : Bytes, (entropy.length = 16 ∨ entropy.length = 32) ∧ phraseWords lib entropy =
    words ++ [lib.wordlist.getD index []]

theorem completes_words_iff (lawful : lib.Lawful) {words : List Bytes} (listed : ∀ word ∈ words, word ∈ lib.wordlist)
    {len index : Nat}
    (size : len = 16 ∨ len = 32) (count : words.length + 1 = len * 3 / 4) (small : index < 2048) :
    Completes lib words index ↔
      index % 2 ^ (len / 4) = checksumOf lib (words.map lib.wordlist.idxOf) len (index / 2 ^ (len / 4)) := by
  have front_small := indices_small lawful listed
  have all_small : ∀ i ∈ words.map lib.wordlist.idxOf ++ [index], i < 2048 := by
    intro i inside
    obtain before | last := List.mem_append.mp inside
    · exact front_small i before
    · exact List.mem_singleton.mp last ▸ small
  have whole : words ++ [lib.wordlist.getD index []] = wordsAt lib (words.map lib.wordlist.idxOf ++ [index]) := by
    rw [wordsAt_append, words_of_indices listed]
    rfl
  rw [← completes_iff size (by rw [List.length_map]; exact count) front_small small]
  refine exists_congr fun entropy => ?_
  rw [whole, phraseWords_iff lawful all_small]
  refine and_congr_left fun indices => ?_
  have length := congrArg List.length indices
  rw [indicesOf_length, List.length_append, List.length_map, List.length_singleton, count] at length
  omega

theorem valid_iff (lawful : lib.Lawful) (validates : Validates lib bip39_mnemonic_validate) {words : List Bytes}
    (listed : ∀ word ∈ words, word ∈ lib.wordlist) (count : words.length + 1 = 12 ∨ words.length + 1 = 24) {index : Nat}
    (small : index < 2048) :
    bip39_mnemonic_validate (spaced words ++ lib.wordlist.getD index []) = true ↔ Completes lib words index := by
  have all_listed : ∀ word ∈ words ++ [lib.wordlist.getD index []], word ∈ lib.wordlist := by
    intro word inside
    obtain before | last := List.mem_append.mp inside
    · exact listed word before
    · exact List.mem_singleton.mp last ▸ wordlist_mem (lawful.count ▸ small)
  rw [spaced_append]
  exact validates _ all_listed (by rw [List.length_append, List.length_singleton]; exact count)

theorem mem_valid (lawful : lib.Lawful) (validates : Validates lib bip39_mnemonic_validate) {words : List Bytes}
    (listed : ∀ word ∈ words, word ∈ lib.wordlist) (count : words.length + 1 = 12 ∨ words.length + 1 = 24) {index : Nat} :
    index ∈ validOf lib bip39_mnemonic_validate (spaced words) (List.range 2048) ↔ index < 2048 ∧
      Completes lib words index := by
  rw [validOf, List.mem_filter, List.mem_range]
  exact and_congr_right fun small => valid_iff lawful validates listed count small

/-- There are as many as there are choices for the bits above the checksum. -/
theorem length_valid (lawful : lib.Lawful) (validates : Validates lib bip39_mnemonic_validate) {words : List Bytes}
    {len : Nat}
    (size : len = 16 ∨ len = 32) (listed : ∀ word ∈ words, word ∈ lib.wordlist) (count : words.length + 1 = len * 3 / 4) :
    (validOf lib bip39_mnemonic_validate (spaced words) (List.range 2048)).length = 2048 / 2 ^ (len / 4) := by
  have supported : words.length + 1 = 12 ∨ words.length + 1 = 24 := by omega
  have divides : 2048 / 2 ^ (len / 4) * 2 ^ (len / 4) = 2048 := by
    rcases size with rfl | rfl <;> decide
  have positive : 0 < 2 ^ (len / 4) := Nat.two_pow_pos _
  have counted := countP_remainder positive
    (fun quotient => Nat.mod_lt (bip39Index lib (bytesOf (words.map lib.wordlist.idxOf ++ [quotient * 2 ^
    (len / 4)]) len) (len * 3 / 4 - 1)) positive)
    (2048 / 2 ^ (len / 4))
  rw [divides] at counted
  rw [validOf, ← List.countP_eq_length_filter, ← counted]
  refine List.countP_congr fun index inside => ?_
  have small := List.mem_range.mp inside
  rw [valid_iff lawful validates listed supported small, completes_words_iff lawful listed size count small,
    decide_eq_true_iff]
  rfl

end

/-- For words of the list, all of a phrase but the last, no assertion fails, and what comes out are the words that complete
a phrase, in the order of the list: 128 for twelve words, eight for 24. -/
theorem final_words_exact {lib : Library} {bip39_mnemonic_validate : Bytes → Bool} (lawful : lib.Lawful)
    (validates : Validates lib bip39_mnemonic_validate) {nwords : Nat} (supported : nwords = 12 ∨ nwords = 24)
    {words : List Bytes}
    (listed : ∀ word ∈ words, word ∈ lib.wordlist) (count : words.length + 1 = nwords) :
    ∃ final_words, calculate_valid_final_words lib bip39_mnemonic_validate words nwords = .ok final_words ∧
      final_words.length = (if nwords = 12 then 128 else 8) ∧ final_words.Pairwise (· < ·) ∧
      ∀ index, index ∈ final_words ↔ index < 2048 ∧ Completes lib words index := by
  obtain ⟨len, size, whole, most⟩ : ∃ len, (len = 16 ∨ len = 32) ∧ words.length + 1 = len * 3 / 4 ∧
      2048 / 2 ^ (len / 4) = if nwords = 12 then 128 else 8 := by
    rcases supported with rfl | rfl
    · exact ⟨16, .inl rfl, count, by decide⟩
    · exact ⟨32, .inr rfl, count, by decide⟩
  have both : words.length + 1 = 12 ∨ words.length + 1 = 24 := count.symm ▸ supported
  have length := length_valid lawful validates size listed whole
  rw [most] at length
  have few : (if nwords = 12 then 128 else 8) ≤ MAX_NUM_FINAL_WORDS := by
    rw [MAX_NUM_FINAL_WORDS]
    split <;> decide
  have room : (spaced words).length + 8 < MNEMONIC_BUFLEN := by
    have short := length_spaced_le lawful listed
    rw [MNEMONIC_BUFLEN]
    omega
  have copied : copyWords words [] = .ok (spaced words) := by
    rw [copyWords_eq lawful listed, List.nil_append]
    rw [MNEMONIC_BUFLEN, List.length_nil]
    omega
  have inside : ∀ index ∈ List.range BIP39_WORDLIST_LEN, index < lib.wordlist.length := by
    intro index inside
    rw [lawful.count]
    exact List.mem_range.mp inside
  have found := @finalFrom_eq lib bip39_mnemonic_validate lawful _ room MAX_NUM_FINAL_WORDS _ inside ⟨0, []⟩
  rw [BIP39_WORDLIST_LEN, Nat.zero_add, Nat.sub_zero, List.nil_append, List.take_of_length_le (by rw [length]; exact few),
    length] at found
  have asked : (is_valid_mnemonic_length nwords && decide (words.length = nwords - 1)) = true := by
    rw [is_valid_mnemonic_length, decide_eq_true supported, decide_eq_true (by omega), Bool.and_self]
  refine ⟨validOf lib bip39_mnemonic_validate (spaced words) (List.range 2048), ?_, length,
    List.pairwise_lt_range.filter _, fun index => mem_valid lawful validates listed both⟩
  rw [calculate_valid_final_words, asked, Check.ensure_true, Check.ok_bind, valid_final_words, is_valid_mnemonic_length,
    decide_eq_true both, Check.ensure_true, Check.ok_bind, decide_eq_true (by decide), Check.ensure_true, Check.ok_bind,
      copied,
    Check.ok_bind, BIP39_WORDLIST_LEN, found, Check.ok_bind]
  dsimp only
  rw [decide_eq_true (Eq.refl _), Check.ensure_true, Check.ok_bind]
  rfl

/-! ### A validation -/

theorem phraseWords_no_space {lib : Library} (lawful : lib.Lawful) (entropy : Bytes) : ∀ word ∈ phraseWords lib entropy,
    32 ∉ word := by
  rw [← wordsAt_indicesOf]
  exact wordsAt_no_space lawful (indicesOf_small entropy)

theorem phrase_of_decoded {lib : Library} {text entropy : Bytes} (decoded : mnemonicToBytes lib text = some entropy) :
    (entropy.length = 16 ∨ entropy.length = 32) ∧ phrase lib entropy = text := by
  simp only [mnemonicToBytes, Option.ite_none_right_eq_some, Option.some.injEq] at decoded
  obtain ⟨same, rfl⟩ := decoded
  refine ⟨?_, same⟩
  rw [length_bytesOf]
  split
  · exact .inl rfl
  · exact .inr rfl

/-- A phrase is valid if it decodes. -/
theorem validates_decoded {lib : Library} (lawful : lib.Lawful) : Validates lib fun text =>
    (mnemonicToBytes lib text).isSome := by
  intro words listed count
  dsimp only
  constructor
  · intro valid
    obtain ⟨entropy, decoded⟩ := Option.isSome_iff_exists.mp valid
    obtain ⟨size, same⟩ := phrase_of_decoded decoded
    have no_space : ∀ word ∈ words, 32 ∉ word := by
      intro word inside space
      exact absurd ((lawful.letters word (listed word inside)).2.2 32 space).1 (by decide)
    have filled : words ≠ [] := by
      rw [← List.length_pos_iff]
      omega
    have made : phraseWords lib entropy ≠ [] := by
      rw [← List.length_pos_iff, length_phraseWords]
      omega
    refine ⟨entropy, size, ?_⟩
    rw [← splitOn_joined made (phraseWords_no_space lawful entropy), ← phrase, same, splitOn_joined filled no_space]
  · rintro ⟨entropy, size, rfl⟩
    rw [← phrase, mnemonicToBytes_phrase lawful size]
    rfl

theorem final_words_exact_abandon :
    ∃ final_words, calculate_valid_final_words sample (fun text => (mnemonicToBytes sample text).isSome)
      (List.replicate 11 (firstWords.getD 0 [])) 12 = .ok final_words ∧
      final_words.length = (if 12 = 12 then 128 else 8) ∧ final_words.Pairwise (· < ·) ∧
      ∀ index, index ∈ final_words ↔ index < 2048 ∧ Completes sample (List.replicate 11 (firstWords.getD 0 [])) index :=
  final_words_exact sample_lawful (validates_decoded sample_lawful) (.inl rfl)
    (fun _ inside => List.eq_of_mem_replicate inside ▸ sample_mem.mpr (.inl List.mem_cons_self)) rfl

end PiJade.Mnemonic
