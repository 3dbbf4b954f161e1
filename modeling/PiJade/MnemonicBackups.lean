import PiJade.MnemonicExpand
import PiJade.Sha256

/-!
Every backup of a recovery phrase is read back: raw entropy, the digits of a SeedQR, and the
words or prefixes that stand for one word each. No format takes what is written in a later one.
A phrase that fills the smallest buffer is refused as digits, and only there.
-/
namespace PiJade.Mnemonic
open Text
set_option linter.unusedSimpArgs false

/-- The backups of a phrase. -/
inductive Rendering (lib : Library) (entropy : Bytes) : Bytes → Prop where
  | compact : Rendering lib entropy entropy
  | digits {digits_len : Nat} {text : Bytes}
      (made : seedqr_digits_from_entropy lib entropy digits_len = .ok (some text)) : Rendering lib entropy text
  | words {stems : List Bytes} (shortened : List.Forall₂ (Stem lib) stems (phraseWords lib entropy)) :
      Rendering lib entropy (joined stems)

section
variable {lib : Library} {entropy : Bytes} {k : Nat}

/-! ### The order of the formats -/

/-- A text without a colon is no `ur:`. -/
theorem import_bcur_bip39_none {bytes : Bytes} (no_colon : 58 ∉ bytes) : import_bcur_bip39 lib bytes = .ok none := by
  rw [import_bcur_bip39, if_pos]
  right
  intro same
  have colon : 58 ∈ (bytes.take bcqrtag.length).map tolower := by
    rw [← same]
    decide
  obtain ⟨c, inside, lowered⟩ := List.mem_map.mp colon
  rw [tolower_eq lowered (by decide)] at inside
  exact no_colon (List.mem_of_mem_take inside)

theorem import_compactseedqr_none {bytes : Bytes} (other : bytes.length ≠ 16 ∧ bytes.length ≠ 32) (buf_len : Nat) :
    import_compactseedqr lib bytes buf_len = .ok none := if_pos other

@[simp]
theorem orElse_none (second : Check Fault (Option Bytes)) : orElse (.ok none) second = second := rfl

@[simp]
theorem orElse_some (out : Bytes) (second : Check Fault (Option Bytes)) : orElse (.ok (some out)) second = .ok (some out) := rfl

theorem phraseWords_listed (lawful : lib.Lawful) : ∀ word ∈ phraseWords lib entropy, word ∈ lib.wordlist := by
  intro word inside
  obtain ⟨i, _, rfl⟩ := List.mem_map.mp inside
  exact wordlist_mem (lawful.count ▸ bip39Index_lt lib entropy i)

theorem length_phraseWords (lib : Library) (entropy : Bytes) : (phraseWords lib entropy).length = entropy.length * 3 / 4 := by
  rw [phraseWords, List.length_map, List.length_range]

/-- A phrase and its terminator take one byte for each word more than its letters, so 216 bytes at most. -/
theorem length_phrase_le (lawful : lib.Lawful) (size : entropy.length = 16 ∨ entropy.length = 32) :
    (phrase lib entropy).length + 1 ≤ 9 * (entropy.length * 3 / 4) := by
  have each : ∀ word ∈ phraseWords lib entropy, 3 ≤ word.length ∧ word.length ≤ 8 := by
    intro word inside
    obtain ⟨least, most, _⟩ := lawful.letters word (phraseWords_listed lawful word inside)
    exact ⟨least, most⟩
  have filled : phraseWords lib entropy ≠ [] := by
    rw [← List.length_pos_iff, length_phraseWords]
    omega
  have bound := (joined_le filled each).2
  rwa [length_phraseWords] at bound

/-- Raw entropy is read back. -/
theorem import_compact (lawful : lib.Lawful) (size : entropy.length = 16 ∨ entropy.length = 32) {buf_len : Nat}
    (room : MNEMONIC_BUFLEN ≤ buf_len) :
    import_mnemonic lib entropy buf_len = .ok (some (phrase lib entropy ++ [0])) := by
  have known : ¬ (entropy.length ≠ BIP32_ENTROPY_LEN_128 ∧ entropy.length ≠ BIP32_ENTROPY_LEN_256) := by
    rw [BIP32_ENTROPY_LEN_128, BIP32_ENTROPY_LEN_256]
    omega
  have no_nul : 0 ∉ phrase lib entropy := by
    intro nul
    have char := joined_forall (p := (· ≠ 0)) (by decide) (fun word inside c within zero =>
      letters_no_nul lawful (phraseWords_listed lawful word inside) (zero ▸ within)) 0 nul
    exact char rfl
  have fits : (phrase lib entropy).length < buf_len := by
    have bound := length_phrase_le lawful size
    rw [MNEMONIC_BUFLEN] at room
    omega
  have copied : ([] : Bytes).length + (phrase lib entropy ++ [0]).length ≤ buf_len := by
    rw [List.length_append, List.length_singleton, List.length_nil]
    omega
  have made : import_compactseedqr lib entropy buf_len = .ok (some (phrase lib entropy ++ [0])) := by
    rw [import_compactseedqr, if_neg known]
    simp only [mnemonic_from_entropy, lawful.standard entropy size, cstr_eq_self no_nul, fits, decide_true,
      Check.ensure_true, Check.ok_bind, put_eq copied, List.nil_append]
    rfl
  simp only [import_mnemonic, room, decide_true, Check.ensure_true, Check.ok_bind, made, orElse_some]

/-- Digits are the beginning of no word. -/
theorem expand_words_digits (lawful : lib.Lawful) {bytes : Bytes} (digits : ∀ c ∈ bytes, isdigit c = true) (buf_len : Nat) :
    expand_words lib bytes buf_len = .ok none := by
  have no_nul : 0 ∉ bytes := fun nul => by simpa [isdigit] using digits 0 nul
  refine expand_words_none lawful.listed no_nul fun out accepts => ?_
  obtain ⟨c, inside, letter⟩ := accepts.letter lawful.listed
  have digit := isdigit_iff.mp (digits c inside)
  omega

/-- Digits are read back if there is one byte more than the phrase needs. -/
theorem import_digits (lawful : lib.Lawful) (size : entropy.length = 16 ∨ entropy.length = 32) {buf_len : Nat}
    (room : MNEMONIC_BUFLEN ≤ buf_len) : import_mnemonic lib (digitsOf lib entropy) buf_len =
      if (phrase lib entropy).length + 1 < buf_len then .ok (some (phrase lib entropy ++ [0])) else .ok none := by
  have length := length_digitsOf lib entropy
  have no_colon : 58 ∉ digitsOf lib entropy := fun colon => by simpa [isdigit] using digitsOf_digits colon
  have other : (digitsOf lib entropy).length ≠ 16 ∧ (digitsOf lib entropy).length ≠ 32 := by omega
  simp only [import_mnemonic, room, decide_true, Check.ensure_true, Check.ok_bind, import_compactseedqr_none other,
    orElse_none, import_seedqr_eq lawful size room]
  split
  · rfl
  · rw [orElse_none, import_bcur_bip39_none no_colon, orElse_none,
      expand_words_digits lawful fun c inside => digitsOf_digits inside]

theorem Shortened.of_stems {stems words : List Bytes} (stand : List.Forall₂ (Stem lib) stems words)
    (listed : ∀ word ∈ words, word ∈ lib.wordlist) : Shortened lib stems words := by
  induction stand with
  | nil => exact .nil
  | cons stands _ ih =>
    obtain ⟨first, others⟩ := List.forall_mem_cons.mp listed
    exact .cons ⟨first, stands⟩ (ih others)

/-- Letters are no digits. -/
theorem import_seedqr_none {bytes : Bytes} {c : UInt8} (no_nul : 0 ∉ bytes) (inside : c ∈ bytes)
    (letter : 97 ≤ c.toNat) (buf_len : Nat) : import_seedqr lib bytes buf_len = .ok none := by
  have other : ¬ string_all bytes isdigit = true := by
    rw [string_all, cstr_eq_self no_nul, List.all_eq_true]
    intro digits
    have digit := isdigit_iff.mp (digits c inside)
    omega
  rw [import_seedqr, if_pos]
  right
  simpa using other

/-- Words and stems are read back. -/
theorem import_words (lawful : lib.Lawful) (size : entropy.length = 16 ∨ entropy.length = 32) {buf_len : Nat}
    (room : MNEMONIC_BUFLEN ≤ buf_len) {stems : List Bytes}
    (shortened : List.Forall₂ (Stem lib) stems (phraseWords lib entropy)) :
    import_mnemonic lib (joined stems) buf_len = .ok (some (phrase lib entropy ++ [0])) := by
  have shortened := Shortened.of_stems shortened (phraseWords_listed lawful)
  have each := shortened.each lawful
  have count : stems.length = entropy.length * 3 / 4 := by rw [List.Forall₂.length_eq shortened, length_phraseWords]
  have filled : stems ≠ [] := by
    rw [← List.length_pos_iff, count]
    omega
  have chars : ∀ c ∈ joined stems, c = 32 ∨ 97 ≤ c.toNat ∧ c.toNat ≤ 122 :=
    joined_forall (.inl rfl) fun stem among c within => .inr ((each stem among).2 c within)
  have no_nul : 0 ∉ joined stems := fun nul => by simpa using chars 0 nul
  have no_colon : 58 ∉ joined stems := fun colon => by simpa using chars 58 colon
  have bound := (joined_le filled fun stem among => (each stem among).1).1
  rw [count] at bound
  have other : (joined stems).length ≠ 16 ∧ (joined stems).length ≠ 32 := by omega
  obtain ⟨c, inside, letter⟩ : ∃ c ∈ joined stems, 97 ≤ c.toNat := by
    cases stems with
    | nil => exact absurd rfl filled
    | cons stem later =>
      obtain ⟨⟨two, _⟩, letters⟩ := each stem List.mem_cons_self
      obtain ⟨c, inside⟩ := List.exists_mem_of_length_pos (show 0 < stem.length by omega)
      exact ⟨c, List.mem_append_left _ inside, (letters c inside).1⟩
  have fits := length_phrase_le lawful size
  have expanded : expand_words lib (joined stems) buf_len = .ok (some (phrase lib entropy ++ [0])) := by
    rw [MNEMONIC_BUFLEN] at room
    refine expand_words_eq lawful.listed ⟨stems, phraseWords lib entropy, filled, shortened, rfl, rfl, ?_⟩
    rw [List.length_append, List.length_singleton]
    omega
  simp only [import_mnemonic, room, decide_true, Check.ensure_true, Check.ok_bind, import_compactseedqr_none other,
    orElse_none, import_seedqr_none no_nul inside letter, import_bcur_bip39_none no_colon, expanded]

/-- Words of eight letters at most are as long as they can be if each has eight. -/
theorem joined_full_iff {most : Nat} {words : List Bytes} (filled : words ≠ []) (each : ∀ word ∈ words, word.length ≤ most) :
    (joined words).length + 1 = (most + 1) * words.length ↔ ∀ word ∈ words, word.length = most := by
  induction words with
  | nil => exact absurd rfl filled
  | cons word later ih =>
    obtain ⟨first, others⟩ := List.forall_mem_cons.mp each
    cases later with
    | nil => simp [joined]
    | cons next rest =>
      have same := ih (List.cons_ne_nil _ _) others
      have bound := (@joined_le 0 most _ (List.cons_ne_nil next rest) fun word inside =>
        ⟨Nat.zero_le _, others word inside⟩).2
      have size : (joined (word :: next :: rest)).length = word.length + ((joined (next :: rest)).length + 1) := by
        rw [joined_cons, List.length_append, List.length_cons]
      rw [List.forall_mem_cons, ← same, size, List.length_cons, Nat.mul_succ]
      omega

/-- Every backup is read back, unless the buffer is the smallest there is and the phrase fills it: then the
    digits are refused. -/
theorem backups_read_back_iff (lawful : lib.Lawful) (size : entropy.length = 16 ∨ entropy.length = 32) {buf_len : Nat}
    (room : MNEMONIC_BUFLEN ≤ buf_len) :
    (∀ text, Rendering lib entropy text → import_mnemonic lib text buf_len = .ok (some (phrase lib entropy ++ [0])) ∧
        (phrase lib entropy ++ [0]).length ≤ buf_len) ↔
      ¬ (buf_len = MNEMONIC_BUFLEN ∧ entropy.length = 32 ∧ ∀ word ∈ phraseWords lib entropy, word.length = 8) := by
  have bound := length_phrase_le lawful size
  have count := length_phraseWords lib entropy
  have full := @joined_full_iff 8 (phraseWords lib entropy) (by rw [← List.length_pos_iff]; omega)
    fun word inside => (lawful.letters word (phraseWords_listed lawful word inside)).2.1
  rw [← phrase, count] at full
  have condition : (phrase lib entropy).length + 1 < buf_len ↔
      ¬ (buf_len = MNEMONIC_BUFLEN ∧ entropy.length = 32 ∧ ∀ word ∈ phraseWords lib entropy, word.length = 8) := by
    rw [MNEMONIC_BUFLEN] at room ⊢
    rw [← full]
    omega
  rw [← condition]
  constructor
  · intro read_back
    have made := @seedqr_digits_eq lib _ size (entropy.length * 3 / 4 * 4 + 1)
    rw [if_neg (Nat.lt_irrefl _)] at made
    have result := (read_back _ (.digits made)).1
    rw [import_digits lawful size room] at result
    by_contra filled
    rw [if_neg filled] at result
    simp at result
  · intro fits text rendering
    refine ⟨?_, by simpa using Nat.le_of_lt fits⟩
    cases rendering with
    | compact => exact import_compact lawful size room
    | digits made =>
      rw [seedqr_digits_eq size] at made
      split at made
      · simp at made
      · obtain rfl : digitsOf lib entropy = text := by simpa using made
        rw [import_digits lawful size room, if_pos fits]
    | words shortened => exact import_words lawful size room shortened

end

/-! ### A word list -/

/-- The first words of the English list. -/
def firstWords : List Bytes :=
  [['a', 'b', 'a', 'n', 'd', 'o', 'n'], ['a', 'b', 'i', 'l', 'i', 't', 'y'], ['a', 'b', 'l', 'e'],
    ['a', 'b', 'o', 'u', 't'], ['a', 'b', 'o', 'v', 'e'], ['a', 'b', 's', 'e', 'n', 't'],
    ['a', 'b', 's', 'o', 'r', 'b'], ['a', 'b', 's', 't', 'r', 'a', 'c', 't'], ['a', 'b', 's', 'u', 'r', 'd'],
    ['a', 'b', 'u', 's', 'e'], ['a', 'c', 'c', 'e', 's', 's'], ['a', 'c', 'c', 'i', 'd', 'e', 'n', 't'],
    ['a', 'c', 'c', 'o', 'u', 'n', 't'], ['a', 'c', 'c', 'u', 's', 'e'], ['a', 'c', 'h', 'i', 'e', 'v', 'e'],
    ['a', 'c', 'i', 'd'], ['a', 'c', 'o', 'u', 's', 't', 'i', 'c']].map (List.map Char.toUInt8)

/-- Three letters stand for one of the others. -/
def otherWord (n : Nat) : Bytes :=
  [UInt8.ofNat (98 + n / 256), UInt8.ofNat (97 + n / 16 % 16), UInt8.ofNat (97 + n % 16)]

def sampleList : Library where
  wordlist := firstWords ++ (List.range 2031).map otherWord
  wally_sha256 := Sha256.hash
  bip39_mnemonic_from_bytes := id
  bcur_parse_bip39_wrapper _ := .ok none

def sample : Library := { sampleList with bip39_mnemonic_from_bytes := phrase sampleList }

theorem otherWord_lt {j k : Nat} (order : j < k) (bound : k < 2031) : otherWord j < otherWord k := by
  simp only [otherWord, List.cons_lt_cons_iff, UInt8.lt_iff_toNat_lt, ← UInt8.toNat_inj, UInt8.toNat_ofNat', List.lt_irrefl]
  omega

theorem otherWord_letters {n : Nat} (bound : n < 2031) : ∀ c ∈ otherWord n, 97 ≤ c.toNat ∧ c.toNat ≤ 122 := by
  intro c inside
  simp only [otherWord, List.mem_cons, List.not_mem_nil, or_false] at inside
  obtain rfl | rfl | rfl := inside <;> rw [UInt8.toNat_ofNat'] <;> omega

theorem firstWords_lawful : firstWords.Pairwise (· < ·) ∧ ∀ word ∈ firstWords, word.head? = some 97 ∧
    (3 ≤ word.length ∧ word.length ≤ 8 ∧ ∀ c ∈ word, 97 ≤ c.toNat ∧ c.toNat ≤ 122) ∧
    ∃ other ∈ firstWords, other ≠ word ∧ other.take 1 = word.take 1 := by
  decide +kernel

theorem firstWords_lt {word : Bytes} (listed : word ∈ firstWords) {n : Nat} (bound : n < 2031) : word < otherWord n := by
  obtain ⟨rest, rfl⟩ := List.head?_eq_some_iff.mp (firstWords_lawful.2 word listed).1
  rw [otherWord, List.cons_lt_cons_iff, UInt8.lt_iff_toNat_lt, UInt8.toNat_ofNat']
  left
  show 97 < _
  omega

theorem sample_mem {word : Bytes} : word ∈ sample.wordlist ↔ word ∈ firstWords ∨ ∃ n < 2031, otherWord n = word := by
  simp [sample, sampleList]

theorem sample_lawful : sample.Lawful where
  count := by simp [sample, sampleList, firstWords]
  sorted := by
    refine List.pairwise_append.mpr ⟨firstWords_lawful.1, ?_, ?_⟩
    · refine List.pairwise_map.mpr (List.pairwise_lt_range.imp_of_mem ?_)
      intro j k _ inside order
      exact otherWord_lt order (List.mem_range.mp inside)
    · intro word listed other among
      obtain ⟨n, bound, rfl⟩ := List.mem_map.mp among
      exact firstWords_lt listed (List.mem_range.mp bound)
  letters := by
    intro word inside
    obtain listed | ⟨n, bound, rfl⟩ := sample_mem.mp inside
    · exact (firstWords_lawful.2 word listed).2.1
    · exact ⟨Nat.le_refl 3, Nat.le_add_right 3 5, otherWord_letters bound⟩
  ambiguous := by
    intro word inside
    obtain listed | ⟨n, bound, rfl⟩ := sample_mem.mp inside
    · obtain ⟨other, among, different⟩ := (firstWords_lawful.2 word listed).2.2
      exact ⟨other, sample_mem.mpr (.inl among), different⟩
    · obtain ⟨m, small, near, different⟩ : ∃ m < 2031, m / 256 = n / 256 ∧ m ≠ n := by
        by_cases aligned : n % 256 = 0
        · exact ⟨n + 1, by omega, by omega, by omega⟩
        · exact ⟨n - 1, by omega, by omega, by omega⟩
      refine ⟨otherWord m, sample_mem.mpr (.inr ⟨m, small, rfl⟩), ?_, by simp [otherWord, near]⟩
      intro same
      obtain before | behind := Nat.lt_or_gt_of_ne different
      · exact not_lt_start (same ▸ List.prefix_refl _) (otherWord_lt before bound)
      · exact not_lt_start (same ▸ List.prefix_refl _) (otherWord_lt behind small)
  standard _ _ := rfl

def zeroEntropy : Bytes := List.replicate 16 0

/-- Its words are `acoustic accident acoustic abstract abstract accident`, `abstract` seventeen times, and `acoustic`. -/
def fullEntropy : Bytes :=
  [0x02, 0x00, 0x2c, 0x08, 0x00, 0x70, 0x0e, 0x02, 0xc0, 0x38, 0x07, 0x00, 0xe0, 0x1c, 0x03, 0x80,
    0x70, 0x0e, 0x01, 0xc0, 0x38, 0x07, 0x00, 0xe0, 0x1c, 0x03, 0x80, 0x70, 0x0e, 0x01, 0xc0, 0x38]

/-- The indices are read off the working buffer. -/
theorem indicesOf_read {lib : Library} {entropy : Bytes} (size : entropy.length = 16 ∨ entropy.length = 32) {first : UInt8}
    (hash : (lib.wally_sha256 entropy).getD 0 0 = first) {indices : List Nat}
    (read : (List.range (entropy.length * 3 / 4)).map
      (seedqrIndex (entropy ++ first :: List.replicate (35 - (entropy.length + 1)) 0)) = indices.map Except.ok) :
    indicesOf lib entropy = indices := by
  have same : (List.range (entropy.length * 3 / 4)).map
      (seedqrIndex (entropy ++ first :: List.replicate (35 - (entropy.length + 1)) 0)) =
      (indicesOf lib entropy).map Except.ok := by
    rw [indicesOf, List.map_map, ← hash]
    exact List.map_congr_left fun i inside => seedqrIndex_eq size (List.mem_range.mp inside)
  have injective : Function.Injective (Except.ok : Nat → Check Fault Nat) := fun a b ok => Except.ok.inj ok
  exact List.map_injective_iff.mpr injective (same.symm.trans read)

def fullIndices : List Nat := [16, 11, 16, 7, 7, 11] ++ List.replicate 17 7 ++ [16]

theorem sample_values : (sample.wally_sha256 zeroEntropy).getD 0 0 = 0x37 ∧
    (sample.wally_sha256 fullEntropy).getD 0 0 = 0x10 ∧ (joined (wordsAt sample fullIndices)).length = 215 ∧
    wordsAt sample (List.replicate 11 0 ++ [3]) = List.replicate 11 (firstWords.getD 0 []) ++ [firstWords.getD 3 []] := by
  decide +kernel

theorem backups_read_back_zeroEntropy :
    (∀ text, Rendering sample zeroEntropy text →
      import_mnemonic sample text MNEMONIC_BUFLEN = .ok (some (phrase sample zeroEntropy ++ [0])) ∧
        (phrase sample zeroEntropy ++ [0]).length ≤ MNEMONIC_BUFLEN) ∧
    phraseWords sample zeroEntropy = List.replicate 11 (firstWords.getD 0 []) ++ [firstWords.getD 3 []] := by
  have indices : indicesOf sample zeroEntropy = List.replicate 11 0 ++ [3] :=
    indicesOf_read (.inl rfl) sample_values.1 (by decide)
  refine ⟨(backups_read_back_iff sample_lawful (.inl rfl) (Nat.le_refl _)).mpr ?_, ?_⟩
  · rintro ⟨_, long, _⟩
    exact absurd long (by decide)
  · rw [← wordsAt_indicesOf, indices, sample_values.2.2.2]

theorem full_phrase_refused :
    sample.Lawful ∧ Rendering sample fullEntropy (digitsOf sample fullEntropy) ∧
    (digitsOf sample fullEntropy).length = 96 ∧ (phrase sample fullEntropy ++ [0]).length = MNEMONIC_BUFLEN ∧
    import_mnemonic sample (digitsOf sample fullEntropy) MNEMONIC_BUFLEN = .ok none := by
  have size : fullEntropy.length = 16 ∨ fullEntropy.length = 32 := .inr rfl
  have indices : indicesOf sample fullEntropy = fullIndices := indicesOf_read size sample_values.2.1 (by decide)
  have full : (phrase sample fullEntropy).length = 215 := by
    rw [phrase, ← wordsAt_indicesOf, indices, sample_values.2.2.1]
  have made : seedqr_digits_from_entropy sample fullEntropy 97 = .ok (some (digitsOf sample fullEntropy)) := by
    rw [seedqr_digits_eq size]
    rfl
  refine ⟨sample_lawful, .digits made, length_digitsOf sample fullEntropy, ?_, ?_⟩
  · rw [List.length_append, full]
    rfl
  · rw [import_digits sample_lawful size (Nat.le_refl _), full]
    rfl

end PiJade.Mnemonic
