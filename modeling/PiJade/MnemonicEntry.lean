import Mathlib.Data.List.Perm.Subperm
import PiJade.MnemonicFinal
import PiJade.MnemonicMemory

/-!
Words that are entered one by one (`get_wordlist_words`, `select_wordlist_word` and
`enable_relevant_chars` in `main/process/mnemonic.c`). The device decides which screen comes up: letters
to be typed, or a few words to choose from. A visit of a screen therefore says what is done at either,
and which random byte is drawn. The SLIP-39 list is that of no purpose here.
-/
namespace PiJade.Mnemonic
open Text
set_option linter.unusedSimpArgs false

def NUM_WORDS_SELECT : Nat := 10
def WORDLIST_ENTRY_MAXWORDS : Nat := 33

inductive Purpose where
  | mnemonic_simple
  | mnemonic_advanced
  | wordlist_passphrase
  deriving DecidableEq, Repr

def wordlist_exact_count (purpose : Purpose) : Bool := purpose ≠ .wordlist_passphrase

def is_valid_wordlist_length (purpose : Purpose) (nwords : Nat) : Bool :=
  match purpose with
  | .wordlist_passphrase => nwords ≤ WORDLIST_ENTRY_MAXWORDS
  | _ => is_valid_mnemonic_length nwords

def mnemonic_buffer_size (nwords : Nat) : Nat := (MNEMONIC_MAX_WORD_LEN + 1) * nwords

inductive Key where
  | backspace
  | enter
  | letter (i : Fin 26)
  | other
  deriving DecidableEq, Repr

inductive Turn where
  | left
  | right
  | other
  deriving DecidableEq, Repr

/-- What is drawn when a screen comes up, and what is done at it: a key is pressed, or a wheel is turned until the click. -/
structure Visit where
  random : Nat
  key : Key
  turns : List Turn
  deriving DecidableEq, Repr

inductive WordResult where
  | selected (word : Bytes)
  | backspace
  | done
  deriving DecidableEq, Repr

inductive FinalWordAction where
  | existing
  | calculate
  | abandon
  deriving DecidableEq, Repr

/-! ### Letters -/

/-- The letters that are active. -/
structure Keyboard where
  enabled : Fin 26 → Bool
  enter : Bool
  selected : Option (Fin 26)

/-- A key that is not active cannot be pressed. -/
def Keyboard.press (keyboard : Keyboard) : Key → Key
  | .letter i => if keyboard.enabled i then .letter i else .other
  | .enter => if keyboard.enter then .enter else .other
  | key => key

def letterOf (i : Fin 26) : UInt8 := UInt8.ofNat (97 + i)

/-- The loop over the list, which is left at the first word behind the stem. -/
def enabledFrom (wordlist : List Bytes) (word : Bytes) : List Nat → (Fin 26 → Bool) → Check Fault (Fin 26 → Bool)
  | [], enabled => return enabled
  | wordlist_index :: later, enabled => do
    let wordlist_extracted ← wordlist_word wordlist wordlist_index
    match if 0 < word.length then strncmp wordlist_extracted word word.length else .eq with
    | .lt => enabledFrom wordlist word later enabled
    | .gt => return enabled
    | .eq =>
      let c := (wordlist_extracted.getD word.length 0).toNat
      if letter : 97 ≤ c ∧ c < 123 then
        enabledFrom wordlist word later (Function.update enabled ⟨c - 97, by omega⟩ true)
      else .error (.error .out_of_bounds)

/-- The random letter that is selected at first. -/
def selectLetter (enabled : Fin 26 → Bool) : List (Fin 26) → UInt8 → Option (Fin 26) → Check Fault (Option (Fin 26))
  | [], _, selected => return selected
  | i :: later, iselected, selected =>
    if enabled i then
      if iselected = 0 then do
        Check.ensure selected.isNone
        selectLetter enabled later (iselected - 1) (some i)
      else selectLetter enabled later (iselected - 1) selected
    else selectLetter enabled later iselected selected

def get_uniform_random_byte (random upper_bound : Nat) : Check Fault UInt8 := do
  Check.ensure (decide (upper_bound ≠ 0))
  return UInt8.ofNat (random % upper_bound)

def enable_relevant_chars (purpose : Purpose) (wordlist : List Bytes) (word : Bytes) (filter_word_list : Option (List Nat))
    (random : Nat) : Check Fault Keyboard := do
  let enabled ← enabledFrom wordlist word (filter_word_list.getD (List.range wordlist.length)) fun _ => false
  let num_enabled := (List.finRange 26).countP enabled
  Check.ensure (decide (0 < num_enabled))
  let iselected ← get_uniform_random_byte random num_enabled
  let selected ← selectLetter enabled (List.finRange 26) iselected none
  Check.ensure selected.isSome
  return { enabled, enter := !wordlist_exact_count purpose && decide (word.length = 0), selected }

/-! ### Words -/

/-- What is shown above the letters of a word of a passphrase. -/
def shownWords (wordlist_words : List Bytes) (word : Bytes) : Bytes × Bytes × Bytes :=
  let back n := wordlist_words.getD (wordlist_words.length - n) []
  if wordlist_words.length = 0 then (word, [], [])
  else if wordlist_words.length = 1 then (back 1, word, [])
  else if wordlist_words.length = 2 then (back 2, back 1, word)
  else if word.length = 0 then (back 3, back 2, back 1)
  else (back 2, back 1, word)

def textboxText (purpose : Purpose) (wordlist_words : List Bytes) (word : Bytes) : Check Fault Bytes :=
  if wordlist_exact_count purpose then return word
  else do
    let (first, second, third) := shownWords wordlist_words word
    let ellipsis : Bytes :=
      if 3 < wordlist_words.length ∨ wordlist_words.length = 3 ∧ 0 < word.length then [46, 46, 46, 32] else []
    let buf := ellipsis ++ first ++ [32] ++ second ++ [32] ++ third
    Check.ensure (decide (buf.length < 32))
    return buf

/-- The word at one of the places of the carousel; at the last place is the backspace. -/
def carouselWord (wordlist : List Bytes) (possible_word_list : List Nat) (possible_words selected : Nat) :
    Check Fault (Option Bytes) := do
  Check.ensure (decide (selected ≤ possible_words))
  if selected = possible_words then return none
  else
    match possible_word_list[selected]? with
    | none => .error (.error .out_of_bounds)
    | some index =>
      let wordlist_extracted ← wordlist_word wordlist index
      return some wordlist_extracted

def turned (possible_words selected : Nat) : Turn → Nat
  | .left => (selected + (possible_words + 1) - 1) % (possible_words + 1)
  | .right => (selected + 1) % (possible_words + 1)
  | .other => selected

/-- The loop of the carousel, to the click. -/
def carousel (wordlist : List Bytes) (possible_word_list : List Nat) (possible_words : Nat) :
    Nat → List Turn → Check Fault (Option Bytes)
  | selected, [] => carouselWord wordlist possible_word_list possible_words selected
  | selected, turn :: later => do
    let _ ← carouselWord wordlist possible_word_list possible_words selected
    carousel wordlist possible_word_list possible_words (turned possible_words selected turn) later

/-- Where the wheel of the carousel is when it comes up. -/
def firstSelected (random_first_selection_word : Bool) (random possible_words : Nat) : Check Fault Nat :=
  if random_first_selection_word then do
    let selected ← get_uniform_random_byte random possible_words
    return selected.toNat
  else return 0

section
variable (lib : Library) (purpose : Purpose) (wordlist_words : List Bytes) (p_filter_words : Option (List Nat))

/-- The loop of `select_wordlist_word`; nothing comes out before it ends. -/
def selectFrom (random_first_selection_word : Bool) : List Visit → Bytes → Check Fault (Option WordResult)
  | [], _ => return none
  | visit :: later, word => do
    let backspace :=
      if 0 < word.length then selectFrom random_first_selection_word later word.dropLast else return some .backspace
    Check.ensure (decide (word.length < 6))
    let found ← valid_words lib.wordlist word p_filter_words NUM_WORDS_SELECT
    Check.ensure (decide (0 < found.num_possible_words))
    if found.num_possible_words ≤ NUM_WORDS_SELECT then
      Check.ensure (decide ((decimal (wordlist_words.length + 1)).length + 12 < 16))
      let selected ← firstSelected random_first_selection_word visit.random found.num_possible_words
      match ← carousel lib.wordlist found.output_word_list found.num_possible_words selected visit.turns with
      | some wordlist_extracted => return some (.selected wordlist_extracted)
      | none => backspace
    else
      let _ ← textboxText purpose wordlist_words word
      let keyboard ← enable_relevant_chars purpose lib.wordlist word p_filter_words visit.random
      match keyboard.press visit.key with
      | .backspace => backspace
      | .enter => return some .done
      | .letter i => selectFrom random_first_selection_word later (word ++ [letterOf i])
      | .other => selectFrom random_first_selection_word later word

def select_wordlist_word (random_first_selection_word : Bool) (visits : List Visit) : Check Fault (Option WordResult) := do
  Check.ensure (decide (wordlist_words.length < WORDLIST_ENTRY_MAXWORDS))
  Check.ensure (p_filter_words.isNone == decide ((p_filter_words.getD []).length = 0))
  selectFrom lib purpose wordlist_words p_filter_words random_first_selection_word visits []

end

/-! ### Phrases -/

/-- What is done to enter a word: the question before the last word is answered, and screens are visited. -/
structure Attempt where
  action : FinalWordAction
  visits : List Visit
  deriving DecidableEq, Repr

def writeFrom (output_len : Nat) : List Bytes → Bytes → Check Fault Bytes
  | [], output => return output
  | word :: later, output => do
    let output ← if 0 < output.length then put output_len output [32] else pure output
    let output ← printAt output_len output word
    writeFrom output_len later output

/-- What is written, with its terminator. -/
def write_wordlist_words (wordlist_words : List Bytes) (output_len : Nat) : Check Fault Bytes := do
  Check.ensure (decide (wordlist_words.length ≤ WORDLIST_ENTRY_MAXWORDS))
  Check.ensure (decide (mnemonic_buffer_size wordlist_words.length ≤ output_len))
  let output ← writeFrom output_len wordlist_words []
  return output ++ [0]

section
variable (lib : Library) (bip39_mnemonic_validate : Bytes → Bool) (purpose : Purpose) (nwords output_len : Nat)

/-- How many words were entered, and what is written. -/
def finishWords (wordlist_words : List Bytes) : Check Fault (Nat × Bytes) := do
  Check.ensure (decide (wordlist_words.length = nwords) || !wordlist_exact_count purpose)
  let output ← write_wordlist_words wordlist_words output_len
  return (wordlist_words.length, output)

/-- The words that may be selected, unless all of them. -/
def finalFilter (asked : Bool) (action : FinalWordAction) (wordlist_words : List Bytes) : Check Fault (Option (List Nat)) :=
  if asked ∧ action = .calculate then do
    let final_words ← calculate_valid_final_words lib bip39_mnemonic_validate wordlist_words nwords
    return some final_words
  else return none

/-- The loop of `get_wordlist_words`; nothing comes out before it ends. -/
def wordsFrom : List Attempt → List Bytes → Check Fault (Option (Nat × Bytes))
  | attempts, wordlist_words =>
    if nwords ≤ wordlist_words.length then some <$> finishWords purpose nwords output_len wordlist_words
    else
      match attempts with
      | [] => return none
      | attempt :: later => do
        let asked := decide (purpose = .mnemonic_advanced ∧ wordlist_words.length = nwords - 1)
        if asked ∧ attempt.action = .abandon then return some (0, [])
        else
          let p_filter_words ← finalFilter lib bip39_mnemonic_validate nwords asked attempt.action wordlist_words
          Check.ensure (!wordlist_exact_count purpose || decide ((decimal (wordlist_words.length + 1)).length + 12 < 16))
          match ← select_wordlist_word lib purpose wordlist_words p_filter_words p_filter_words.isSome attempt.visits with
          | none => return none
          | some (.selected word) => wordsFrom later (wordlist_words ++ [word])
          | some .done => some <$> finishWords purpose nwords output_len wordlist_words
          | some .backspace =>
            if 0 < wordlist_words.length then wordsFrom later wordlist_words.dropLast
            else if wordlist_exact_count purpose then return some (0, [])
            else wordsFrom later wordlist_words

def get_wordlist_words (attempts : List Attempt) : Check Fault (Option (Nat × Bytes)) := do
  Check.ensure (decide (nwords ≤ WORDLIST_ENTRY_MAXWORDS))
  Check.ensure (decide (mnemonic_buffer_size nwords ≤ output_len))
  Check.ensure (is_valid_wordlist_length purpose nwords)
  wordsFrom lib bip39_mnemonic_validate purpose nwords output_len attempts []

end

/-- The recovery by words: nothing before the entry ends, then the phrase unless it was abandoned or is none. -/
def mnemonic_recover (lib : Library) (bip39_mnemonic_validate : Bytes → Bool) (nwords : Nat) (advanced_mode : Bool)
    (attempts : List Attempt) : Check Fault (Option (Option Bytes)) := do
  Check.ensure (is_valid_mnemonic_length nwords)
  let purpose : Purpose := if advanced_mode then .mnemonic_advanced else .mnemonic_simple
  match ← get_wordlist_words lib bip39_mnemonic_validate purpose nwords MNEMONIC_BUFLEN attempts with
  | none => return none
  | some (words_entered, mnemonic) =>
    if words_entered = 0 then return some none
    else if words_entered ≠ nwords ∨ bip39_mnemonic_validate (cstr mnemonic) = false then return some none
    else return some (some mnemonic)

/-! ### What is found for a stem -/

/-- The list is made for typing: four letters stand for one word, and a word of three letters begins few others. -/
structure Typeable (wordlist : List Bytes) : Prop where
  listed : Listed wordlist
  four : ∀ word ∈ wordlist, ∀ other ∈ wordlist, word.take 4 = other.take 4 → word = other
  short : ∀ word ∈ wordlist, word.length = 3 →
    (hits wordlist word (List.range wordlist.length)).length ≤ NUM_WORDS_SELECT

/-- Indices in order, into the list. -/
structure Candidates (wordlist : List Bytes) (indices : List Nat) : Prop where
  filled : indices ≠ []
  order : indices.Pairwise (· < ·)
  inside : ∀ j ∈ indices, j < wordlist.length

section
variable {wordlist : List Bytes} {stem : Bytes} {indices : List Nat}

theorem Typeable.all (typeable : Typeable wordlist) : Candidates wordlist (List.range wordlist.length) where
  filled := by
    rw [ne_eq, List.range_eq_nil, typeable.listed.count]
    decide
  order := List.pairwise_lt_range
  inside _ inside := List.mem_range.mp inside

theorem mem_hits_of {j : Nat} : j ∈ hits wordlist stem indices ↔ j ∈ indices ∧ stem <+: wordlist.getD j [] := by
  rw [hits, List.mem_filter, decide_eq_true_iff]

theorem hits_nodup (candidates : Candidates wordlist indices) : (hits wordlist stem indices).Nodup :=
  List.Nodup.filter _ (candidates.order.imp fun before => Nat.ne_of_lt before)

/-- The search finds the words that begin with the stem. -/
theorem valid_words_hits (listed : Listed wordlist) {filter_word_list : Option (List Nat)}
    (candidates : Candidates wordlist (filter_word_list.getD (List.range wordlist.length))) (no_nul : 0 ∉ stem) (most : Nat)
    (few : most ≤ 2048) :
    ∃ exact_match, valid_words wordlist stem filter_word_list most = .ok
      { num_possible_words := (hits wordlist stem (filter_word_list.getD (List.range wordlist.length))).length
        exact_match
        output_word_list := (hits wordlist stem (filter_word_list.getD (List.range wordlist.length))).take most } := by
  by_cases trivial_case : stem.length = 0 ∧ filter_word_list = none
  · obtain ⟨empty, rfl⟩ := trivial_case
    obtain rfl := List.length_eq_zero_iff.mp empty
    have all := congrArg Found.num_possible_words (scan_nil listed most)
    have first := congrArg Found.output_word_list (scan_nil listed most)
    rw [scan] at all first
    dsimp only at all first
    refine ⟨false, ?_⟩
    rw [valid_words, if_pos ⟨rfl, rfl⟩, Option.getD_none, all, first, List.take_range, listed.count, Nat.min_eq_left few]
  · have found := @searchWords_eq _ _ listed no_nul _ most ⟨0, false, []⟩ candidates.order candidates.inside
      (.inl ⟨rfl, rfl⟩)
    rw [Found.and] at found
    dsimp only at found
    rw [Nat.zero_add, List.nil_append, Nat.sub_zero] at found
    rw [valid_words, if_neg trivial_case, found]
    exact ⟨_, rfl⟩

/-- Words of the list that are the same have the same index. -/
theorem index_unique (listed : Listed wordlist) {j k : Nat} (inside : j < wordlist.length) (within : k < wordlist.length)
    (same : wordlist.getD j [] = wordlist.getD k []) : j = k := by
  obtain below | equal | above := Nat.lt_trichotomy j k
  · exact absurd (same ▸ listed.lt below within) (not_lt_start (List.prefix_refl _))
  · exact equal
  · exact absurd (same ▸ listed.lt above inside) (not_lt_start (List.prefix_refl _))

/-- Four letters leave one word at most. -/
theorem hits_long (typeable : Typeable wordlist) (candidates : Candidates wordlist indices) (long : 4 ≤ stem.length) :
    (hits wordlist stem indices).length ≤ 1 := by
  have same : ∀ j ∈ hits wordlist stem indices, ∀ k ∈ hits wordlist stem indices, j = k := by
    intro j hit k other
    obtain ⟨among, starts⟩ := mem_hits_of.mp hit
    obtain ⟨besides, begins⟩ := mem_hits_of.mp other
    have inside := candidates.inside j among
    have within := candidates.inside k besides
    have first : ∀ {word : Bytes}, stem <+: word → word.take 4 = stem.take 4 := by
      rintro _ ⟨rest, rfl⟩
      rw [List.take_append_of_le_length long]
    exact index_unique typeable.listed inside within
      (typeable.four _ (wordlist_mem inside) _ (wordlist_mem within) ((first starts).trans (first begins).symm))
  have distinct := @hits_nodup _ stem _ candidates
  cases all : hits wordlist stem indices with
  | nil => exact Nat.zero_le 1
  | cons j rest =>
    cases rest with
    | nil => exact Nat.le_refl 1
    | cons k rest =>
      rw [all] at same distinct
      have equal := same j List.mem_cons_self k (List.mem_cons_of_mem _ List.mem_cons_self)
      exact absurd (equal ▸ List.mem_cons_self) (List.nodup_cons.mp distinct).1

theorem hits_le (candidates : Candidates wordlist indices) :
    (hits wordlist stem indices).length ≤ (hits wordlist stem (List.range wordlist.length)).length := by
  refine (List.subperm_of_subset (hits_nodup candidates) fun j hit => ?_).length_le
  obtain ⟨among, starts⟩ := mem_hits_of.mp hit
  exact mem_hits.mpr ⟨candidates.inside j among, starts⟩

/-- As long as there are too many words to choose from, less than four letters are typed, and no word ends with them. -/
theorem many_hits (typeable : Typeable wordlist) (candidates : Candidates wordlist indices)
    (many : NUM_WORDS_SELECT < (hits wordlist stem indices).length) :
    stem.length ≤ 3 ∧ ∀ j ∈ indices, stem <+: wordlist.getD j [] → stem.length < (wordlist.getD j []).length := by
  have ten : NUM_WORDS_SELECT = 10 := rfl
  have short : stem.length ≤ 3 := by
    by_contra long
    have one := @hits_long _ stem _ typeable candidates (by omega)
    omega
  refine ⟨short, fun j among starts => ?_⟩
  by_contra ends
  have same := starts.eq_of_length_le (Nat.not_lt.mp ends)
  have word := wordlist_mem (candidates.inside j among)
  rw [← same] at word
  have three := (typeable.listed.letters stem word).1
  have few := typeable.short stem word (by omega)
  have le := @hits_le _ stem _ candidates
  omega

end

/-! ### Active letters -/

section
variable {wordlist : List Bytes} {stem : Bytes} {indices : List Nat}

theorem letterOf_toNat (i : Fin 26) : (letterOf i).toNat = 97 + i := by
  have small := i.isLt
  rw [letterOf, UInt8.toNat_ofNat']
  omega

theorem letterOf_sub {c : UInt8} (letter : 97 ≤ c.toNat ∧ c.toNat < 123) (i : Fin 26) :
    letterOf i = c ↔ i = ⟨c.toNat - 97, by omega⟩ := by
  rw [← UInt8.toNat_inj, letterOf_toNat, Fin.ext_iff]
  dsimp only
  omega

/-- A letter is active if a word goes on with it behind the stem. -/
theorem enabledFrom_eq (listed : Listed wordlist) (no_nul : 0 ∉ stem) (order : indices.Pairwise (· < ·))
    (inside : ∀ j ∈ indices, j < wordlist.length)
    (longer : ∀ j ∈ indices, stem <+: wordlist.getD j [] → stem.length < (wordlist.getD j []).length) :
    ∀ enabled : Fin 26 → Bool, ∃ enabled', enabledFrom wordlist stem indices enabled = .ok enabled' ∧
      ∀ i, enabled' i = true ↔ enabled i = true ∨ ∃ j ∈ indices, stem ++ [letterOf i] <+: wordlist.getD j [] := by
  induction indices with
  | nil =>
    intro enabled
    refine ⟨enabled, rfl, fun i => ⟨.inl, fun either => either.resolve_right ?_⟩⟩
    rintro ⟨j, among, _⟩
    exact absurd among List.not_mem_nil
  | cons j later ih =>
    intro enabled
    obtain ⟨before, order⟩ := List.pairwise_cons.mp order
    obtain ⟨here, inside⟩ := List.forall_mem_cons.mp inside
    obtain ⟨longer_here, longer⟩ := List.forall_mem_cons.mp longer
    have compared := @strncmp_eq_iff (wordlist.getD j []) stem no_nul
    have guarded : (if 0 < stem.length then strncmp (wordlist.getD j []) stem stem.length else .eq) =
        strncmp (wordlist.getD j []) stem stem.length := by
      by_cases filled : 0 < stem.length
      · exact if_pos filled
      · obtain rfl := List.length_eq_zero_iff.mp (Nat.eq_zero_of_not_pos filled)
        rfl
    rw [enabledFrom, wordlist_word_eq here, Check.ok_bind, guarded]
    cases found_here : strncmp (wordlist.getD j []) stem stem.length with
    | lt =>
      obtain ⟨enabled', run, exact_letters⟩ := ih order inside longer enabled
      have differs : ¬ stem <+: wordlist.getD j [] := by
        rw [← compared, found_here]
        decide
      refine ⟨enabled', run, fun i => (exact_letters i).trans (or_congr_right ?_)⟩
      rw [List.exists_mem_cons_iff]
      exact (or_iff_right fun starts => differs ((List.prefix_append _ _).trans starts)).symm
    | gt =>
      have differs : ¬ stem <+: wordlist.getD j [] := by
        rw [← compared, found_here]
        decide
      refine ⟨enabled, rfl, fun i => ⟨.inl, fun either => either.resolve_right ?_⟩⟩
      rintro ⟨k, among, starts⟩
      have begins := (List.prefix_append _ _).trans starts
      obtain rfl | later_word := List.mem_cons.mp among
      · exact differs begins
      · have less := strncmp_lt_of_lt (listed.lt (before k later_word) (inside k later_word)) begins differs no_nul
        rw [found_here] at less
        cases less
    | eq =>
      obtain ⟨rest, word⟩ := compared.mp found_here
      have more := longer_here ⟨rest, word⟩
      rw [← word] at more ⊢
      obtain ⟨c, rest, rfl⟩ : ∃ c rest', rest = c :: rest' := by
        cases rest with
        | nil => simp at more
        | cons c rest => exact ⟨c, rest, rfl⟩
      have char : (stem ++ c :: rest).getD stem.length 0 = c := by
        rw [List.getD_append_right _ _ _ _ (Nat.le_refl _), Nat.sub_self]
        rfl
      have letters := (listed.letters _ (wordlist_mem here)).2.2 c (by rw [← word]; simp)
      have letter : 97 ≤ c.toNat ∧ c.toNat < 123 := by omega
      obtain ⟨enabled', run, exact_letters⟩ := ih order inside longer
        (Function.update enabled ⟨c.toNat - 97, by omega⟩ true)
      simp only [char]
      rw [dif_pos letter]
      refine ⟨enabled', run, fun i => (exact_letters i).trans ?_⟩
      rw [List.exists_mem_cons_iff, ← word, List.prefix_append_right_inj, List.singleton_prefix_cons_iff,
        letterOf_sub letter,
        ← or_assoc, Function.update_apply]
      refine or_congr_left ?_
      by_cases same : i = ⟨c.toNat - 97, by omega⟩
      · simp [same]
      · simp [same]

end

end PiJade.Mnemonic
