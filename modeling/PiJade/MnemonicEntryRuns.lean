import PiJade.MnemonicEntryWords

/-!
Whole entries of phrases. Whatever is done at the screens, no assertion fails and no byte behind a word
is read; what is entered are words of the list, and if the last word is calculated they are a phrase. And
there is no phrase that cannot be entered.
-/
namespace PiJade.Mnemonic
open Text
set_option linter.unusedSimpArgs false

/-! ### Phrases -/

section
variable {lib : Library} {bip39_mnemonic_validate : Bytes → Bool} {purpose : Purpose} {nwords output_len : Nat}

theorem writeFrom_behind (lawful : lib.Lawful) {words : List Bytes} (listed : ∀ word ∈ words, word ∈ lib.wordlist) :
    ∀ output : Bytes, output ≠ [] → output.length + 1 + 9 * words.length ≤ output_len →
      writeFrom output_len words output = .ok (output ++ words.flatMap (32 :: ·)) := by
  induction words with
  | nil =>
    intro output filled room
    rw [writeFrom, List.flatMap_nil, List.append_nil]
    rfl
  | cons word later ih =>
    intro output filled room
    obtain ⟨here, others⟩ := List.forall_mem_cons.mp listed
    have letters := lawful.letters word here
    rw [List.length_cons] at room
    have space : output.length + [(32 : UInt8)].length ≤ output_len := by
      rw [List.length_singleton]
      omega
    have behind : (output ++ [32]).length + 8 < output_len := by
      rw [List.length_append, List.length_singleton]
      omega
    have next := ih others (output ++ [32] ++ word) (by simp) (by
      rw [List.length_append, List.length_append, List.length_singleton]
      omega)
    rw [writeFrom, if_pos (List.length_pos_iff.mpr filled), put_eq space, Check.ok_bind]
    dsimp only
    rw [printAt_word lawful here behind, Check.ok_bind, next, List.flatMap_cons, List.append_assoc, List.append_assoc]
    rfl

theorem write_wordlist_words_eq (lawful : lib.Lawful) {words : List Bytes} (listed : ∀ word ∈ words, word ∈ lib.wordlist)
    (few : words.length ≤ WORDLIST_ENTRY_MAXWORDS) (room : mnemonic_buffer_size words.length ≤ output_len) :
    write_wordlist_words words output_len = .ok (joined words ++ [0]) := by
  have written : writeFrom output_len words [] = .ok (joined words) := by
    cases words with
    | nil => rfl
    | cons word later =>
      obtain ⟨here, others⟩ := List.forall_mem_cons.mp listed
      have letters := lawful.letters word here
      rw [mnemonic_buffer_size, MNEMONIC_MAX_WORD_LEN, List.length_cons] at room
      have filled : word ≠ [] := by
        rw [← List.length_pos_iff]
        omega
      have first := @printAt_word lib lawful output_len [] word here (by rw [List.length_nil]; omega)
      rw [writeFrom, if_neg (by decide), Check.pure_eq, Check.ok_bind]
      dsimp only
      rw [first, Check.ok_bind, List.nil_append, writeFrom_behind lawful others word filled (by omega)]
      rfl
  rw [write_wordlist_words, decide_eq_true few, Check.ensure_true, Check.ok_bind, decide_eq_true room,
    Check.ensure_true, Check.ok_bind,
    written, Check.ok_bind]
  rfl

/-- The words are the phrase of some entropy. -/
def IsPhrase (lib : Library) (words : List Bytes) : Prop :=
  ∃ entropy : Bytes, (entropy.length = 16 ∨ entropy.length = 32) ∧ phraseWords lib entropy = words

/-- What can come out of an entry: nothing if it is abandoned, or words of the list, which are a phrase if the last one is
calculated. -/
def Enters (lib : Library) (purpose : Purpose) (nwords : Nat) (calculated : Prop) (entry : Nat × Bytes) : Prop :=
  entry = (0, []) ∨ ∃ words : List Bytes, (∀ word ∈ words, word ∈ lib.wordlist) ∧ words.length ≤ nwords ∧
    (wordlist_exact_count purpose = true → words.length = nwords) ∧ entry = (words.length, joined words ++ [0]) ∧
    (calculated → IsPhrase lib words)

theorem finishWords_eq (lawful : lib.Lawful) {words : List Bytes} (listed : ∀ word ∈ words, word ∈ lib.wordlist)
    (few : nwords ≤ WORDLIST_ENTRY_MAXWORDS) (room : mnemonic_buffer_size nwords ≤ output_len)
    (count : words.length ≤ nwords)
    (whole : wordlist_exact_count purpose = true → words.length = nwords) :
    finishWords purpose nwords output_len words = .ok (words.length, joined words ++ [0]) := by
  have counted : (decide (words.length = nwords) || !wordlist_exact_count purpose) = true := by
    cases exact_count : wordlist_exact_count purpose with
    | false => exact Bool.or_true _
    | true => rw [decide_eq_true (whole exact_count), Bool.true_or]
  have size : mnemonic_buffer_size words.length ≤ output_len := by
    rw [mnemonic_buffer_size] at room ⊢
    exact Nat.le_trans (Nat.mul_le_mul_left _ count) room
  rw [finishWords, counted, Check.ensure_true, Check.ok_bind, write_wordlist_words_eq lawful listed
    (Nat.le_trans count few) size,
    Check.ok_bind]
  rfl

/-- The words that the last one is selected from. -/
theorem finalFilter_ok (lawful : lib.Lawful) (typeable : Typeable lib.wordlist)
    (validates : Validates lib bip39_mnemonic_validate)
    {words : List Bytes} (listed : ∀ word ∈ words, word ∈ lib.wordlist) {asked : Bool} {action : FinalWordAction}
    (last : asked = true → (nwords = 12 ∨ nwords = 24) ∧ words.length + 1 = nwords) :
    ∃ p_filter_words, finalFilter lib bip39_mnemonic_validate nwords asked action words = .ok p_filter_words ∧
      Candidates lib.wordlist (selectable lib p_filter_words) ∧
      (p_filter_words.isNone == decide ((p_filter_words.getD []).length = 0)) = true ∧
      (asked = true → action = .calculate → ∀ j, j ∈ selectable lib p_filter_words ↔ j < 2048 ∧ Completes lib words j) ∧
      (asked = false ∨ action ≠ .calculate → p_filter_words = none) := by
  rw [finalFilter]
  by_cases calculates : asked = true ∧ action = .calculate
  · obtain ⟨supported, count⟩ := last calculates.1
    obtain ⟨final_words, found, length, order, exact_words⟩ := final_words_exact lawful validates supported listed count
    have filled : 0 < final_words.length := by
      rw [length]
      split <;> decide
    rw [if_pos calculates, found, Check.ok_bind]
    refine ⟨some final_words, rfl, ⟨List.length_pos_iff.mp filled, order, fun j among => ?_⟩, ?_, fun _ _ => exact_words,
      fun other => ?_⟩
    · rw [lawful.count]
      exact ((exact_words j).mp among).1
    · rw [Option.getD_some, decide_eq_false (Nat.ne_of_gt filled)]
      rfl
    · rw [calculates.1, calculates.2] at other
      exact absurd other (by decide)
  · rw [if_neg calculates]
    exact ⟨none, rfl, typeable.all, rfl, fun asks calculated => absurd ⟨asks, calculated⟩ calculates, fun _ => rfl⟩

end

section
variable {lib : Library} {bip39_mnemonic_validate : Bytes → Bool} {purpose : Purpose} {nwords output_len : Nat}

/-- What is entered for one purpose of a calculation is entered for another that asks for more. -/
theorem Enters.mono {calculated narrower : Prop} {entry : Nat × Bytes} (enters : Enters lib purpose nwords calculated entry)
    (implied : narrower → calculated) : Enters lib purpose nwords narrower entry := by
  obtain abandoned | ⟨words, listed, count, whole, same, is_phrase⟩ := enters
  · exact .inl abandoned
  · exact .inr ⟨words, listed, count, whole, same, fun narrow => is_phrase (implied narrow)⟩

/-- What an attempt leads to: the entry waits at its screens, or ends there, or goes on with other words. -/
inductive Step where
  | waits
  | ends (entry : Nat × Bytes)
  | goes (words : List Bytes)

/-- What comes out, with what comes out of the attempts behind it. -/
def Step.andThen (later : List Bytes → Check Fault (Option (Nat × Bytes))) : Step → Check Fault (Option (Nat × Bytes))
  | .waits => .ok none
  | .ends entry => .ok (some entry)
  | .goes words => later words

/-- All that an attempt can do. -/
def Step.Sound (lib : Library) (purpose : Purpose) (nwords : Nat) (action : FinalWordAction) : Step → Prop
  | .waits => True
  | .ends entry => Enters lib purpose nwords (purpose = .mnemonic_advanced) entry
  | .goes words => (∀ word ∈ words, word ∈ lib.wordlist) ∧ words.length ≤ nwords ∧
      (purpose = .mnemonic_advanced → action = .calculate → words.length = nwords → IsPhrase lib words)

theorem title_fits {n : Nat} (few : n < WORDLIST_ENTRY_MAXWORDS) :
    (!wordlist_exact_count purpose || decide ((decimal (n + 1)).length + 12 < 16)) = true := by
  have most : WORDLIST_ENTRY_MAXWORDS = 33 := rfl
  rw [decide_eq_true (decimal_title (by omega)), Bool.or_true]

/-- What a word that is selected leads to, or a key that is pressed instead. -/
def wordBehind (purpose : Purpose) (nwords output_len : Nat) (words : List Bytes)
    (later : List Bytes → Check Fault (Option (Nat × Bytes))) : Option WordResult → Check Fault (Option (Nat × Bytes))
  | none => .ok none
  | some (.selected word) => later (words ++ [word])
  | some .done => some <$> finishWords purpose nwords output_len words
  | some .backspace =>
    if 0 < words.length then later words.dropLast
    else if wordlist_exact_count purpose then .ok (some (0, []))
    else later words

/-- One attempt. -/
theorem wordsFrom_step (lawful : lib.Lawful) (typeable : Typeable lib.wordlist)
    (validates : Validates lib bip39_mnemonic_validate)
    (few : nwords ≤ WORDLIST_ENTRY_MAXWORDS) (room : mnemonic_buffer_size nwords ≤ output_len)
    (supported : is_valid_wordlist_length purpose nwords = true) {words : List Bytes}
    (listed : ∀ word ∈ words, word ∈ lib.wordlist) (short : words.length < nwords) (attempt : Attempt) :
    ∃ step : Step, step.Sound lib purpose nwords attempt.action ∧
      ∀ later, wordsFrom lib bip39_mnemonic_validate purpose nwords output_len (attempt :: later) words =
        step.andThen (wordsFrom lib bip39_mnemonic_validate purpose nwords output_len later) := by
  have last : decide (purpose = .mnemonic_advanced ∧ words.length = nwords - 1) = true →
      (nwords = 12 ∨ nwords = 24) ∧ words.length + 1 = nwords := by
    intro asks
    obtain ⟨rfl, place⟩ := of_decide_eq_true asks
    exact ⟨of_decide_eq_true supported, by omega⟩
  obtain ⟨p_filter_words, found, candidates, both, completes, _⟩ :=
    @finalFilter_ok lib bip39_mnemonic_validate nwords lawful typeable validates words listed _ attempt.action last
  have count_words : words.length < WORDLIST_ENTRY_MAXWORDS := by omega
  obtain ⟨j, among⟩ := List.exists_mem_of_ne_nil _ candidates.filled
  obtain ⟨selected, run, selects⟩ := @selectFrom_ok lib purpose words p_filter_words p_filter_words.isSome typeable
    candidates listed count_words attempt.visits [] ⟨Nat.zero_le _, j, among, List.nil_prefix⟩
  have word_run : select_wordlist_word lib purpose words p_filter_words p_filter_words.isSome attempt.visits =
      .ok selected := by
    rw [select_wordlist_word, decide_eq_true count_words, Check.ensure_true, Check.ok_bind, both, Check.ensure_true,
      Check.ok_bind, run]
  by_cases abandons : decide (purpose = .mnemonic_advanced ∧ words.length = nwords - 1) = true ∧ attempt.action = .abandon
  · refine ⟨.ends (0, []), .inl rfl, fun later => ?_⟩
    rw [wordsFrom, if_neg (Nat.not_le_of_lt short)]
    dsimp only
    rw [if_pos abandons]
    rfl
  · have goes : ∀ later, wordsFrom lib bip39_mnemonic_validate purpose nwords output_len (attempt :: later) words =
        wordBehind purpose nwords output_len words (wordsFrom lib bip39_mnemonic_validate purpose nwords output_len later)
          selected := by
      intro later
      rw [wordsFrom, if_neg (Nat.not_le_of_lt short)]
      dsimp only
      rw [if_neg abandons, found, Check.ok_bind, title_fits count_words, Check.ensure_true, Check.ok_bind, word_run,
        Check.ok_bind]
      rfl
    cases selected with
    | none => exact ⟨.waits, trivial, goes⟩
    | some result =>
      have selects := selects result rfl
      cases result with
      | selected word =>
        obtain ⟨j, among, rfl⟩ := selects
        refine ⟨.goes (words ++ [lib.wordlist.getD j []]), ⟨fun word inside => ?_, ?_, fun advanced calculates whole => ?_⟩,
          goes⟩
        · obtain before | last := List.mem_append.mp inside
          · exact listed word before
          · exact List.mem_singleton.mp last ▸ wordlist_mem (candidates.inside j among)
        · rw [List.length_append, List.length_singleton]
          exact short
        · rw [List.length_append, List.length_singleton] at whole
          have asks := decide_eq_true (And.intro advanced (Nat.eq_sub_of_add_eq whole))
          exact ((completes asks calculates j).mp among).2
      | done =>
        have open_end : wordlist_exact_count purpose = false := selects
        have finished := @finishWords_eq lib purpose nwords output_len lawful words listed few room (Nat.le_of_lt short)
          fun exact_count : wordlist_exact_count purpose = true => absurd (open_end.symm.trans exact_count) Bool.false_ne_true
        refine ⟨.ends (words.length, joined words ++ [0]), .inr ⟨words, listed, Nat.le_of_lt short, ?_, rfl, ?_⟩,
          fun later => ?_⟩
        · exact fun exact_count => absurd (open_end.symm.trans exact_count) Bool.false_ne_true
        · rintro rfl
          exact absurd open_end (by decide)
        · rw [goes, wordBehind, finished]
          rfl
      | backspace =>
        by_cases some_word : 0 < words.length
        · have fewer : words.dropLast.length < nwords := by
            rw [List.length_dropLast]
            omega
          refine ⟨.goes words.dropLast, ⟨fun word inside => listed word ((List.dropLast_sublist words).subset inside),
            Nat.le_of_lt fewer, fun _ _ whole => absurd whole (Nat.ne_of_lt fewer)⟩, fun later => ?_⟩
          exact (goes later).trans (if_pos some_word)
        · by_cases exact_count : wordlist_exact_count purpose = true
          · exact ⟨.ends (0, []), .inl rfl, fun later => (goes later).trans ((if_neg some_word).trans (if_pos exact_count))⟩
          · refine ⟨.goes words, ⟨listed, Nat.le_of_lt short, fun _ _ whole => absurd whole (Nat.ne_of_lt short)⟩,
              fun later => ?_⟩
            exact (goes later).trans ((if_neg some_word).trans (if_neg exact_count))

/-- The entry ends in an attempt whose question is answered with a calculation. -/
def Calculated (lib : Library) (bip39_mnemonic_validate : Bytes → Bool) (purpose : Purpose) (nwords output_len : Nat)
    (attempts : List Attempt) (words : List Bytes) : Prop :=
  purpose = .mnemonic_advanced ∧ ∃ front attempt later, attempts = front ++ attempt :: later ∧
    attempt.action = .calculate ∧
    wordsFrom lib bip39_mnemonic_validate purpose nwords output_len front words = .ok none ∧
    wordsFrom lib bip39_mnemonic_validate purpose nwords output_len (front ++ [attempt]) words ≠ .ok none

/-- With all its words, an entry waits for nothing. -/
theorem wordsFrom_full (lawful : lib.Lawful) (few : nwords ≤ WORDLIST_ENTRY_MAXWORDS)
    (room : mnemonic_buffer_size nwords ≤ output_len) {words : List Bytes} (listed : ∀ word ∈ words, word ∈ lib.wordlist)
    (whole : words.length = nwords) (attempts : List Attempt) :
    wordsFrom lib bip39_mnemonic_validate purpose nwords output_len attempts words =
      .ok (some (words.length, joined words ++ [0])) := by
  have finished := @finishWords_eq lib purpose nwords output_len lawful words listed few room (Nat.le_of_eq whole)
    fun _ => whole
  cases attempts <;>
  · rw [wordsFrom, if_pos (Nat.le_of_eq whole.symm), finished]
    rfl

theorem full_enters {calculated : Prop} {words : List Bytes} (listed : ∀ word ∈ words, word ∈ lib.wordlist)
    (whole : words.length = nwords) (is_phrase : calculated → IsPhrase lib words) :
    Enters lib purpose nwords calculated (words.length, joined words ++ [0]) :=
  .inr ⟨words, listed, Nat.le_of_eq whole, fun _ => whole, rfl, is_phrase⟩

/-- Whatever is done, the loop over the words ends without a fault. The induction is on the attempts: an
    entry ends in the last of them that is not left over. -/
theorem wordsFrom_ok (lawful : lib.Lawful) (typeable : Typeable lib.wordlist)
    (validates : Validates lib bip39_mnemonic_validate)
    (few : nwords ≤ WORDLIST_ENTRY_MAXWORDS) (room : mnemonic_buffer_size nwords ≤ output_len)
    (supported : is_valid_wordlist_length purpose nwords = true) (attempts : List Attempt) : ∀ words : List Bytes,
    (∀ word ∈ words, word ∈ lib.wordlist) → words.length ≤ nwords →
    ∃ outcome, wordsFrom lib bip39_mnemonic_validate purpose nwords output_len attempts words = .ok outcome ∧
      ∀ entry ∈ outcome, Enters lib purpose nwords
        (Calculated lib bip39_mnemonic_validate purpose nwords output_len attempts words) entry := by
  induction attempts with
  | nil =>
    intro words listed count
    obtain short | whole := Nat.lt_or_eq_of_le count
    · refine ⟨none, ?_, fun entry given => absurd given (Option.not_mem_none entry)⟩
      rw [wordsFrom, if_neg (Nat.not_le_of_lt short)]
      rfl
    · refine ⟨_, wordsFrom_full lawful few room listed whole [], fun entry given => ?_⟩
      obtain rfl := Option.mem_some_iff.mp given
      refine full_enters listed whole ?_
      rintro ⟨_, front, attempt, later, split, _⟩
      exact absurd split.symm (by simp)
  | cons attempt later ih =>
    intro words listed count
    obtain short | whole := Nat.lt_or_eq_of_le count
    · obtain ⟨step, sound, steps⟩ := @wordsFrom_step lib bip39_mnemonic_validate purpose nwords output_len lawful typeable
        validates few room supported words listed short attempt
      have waiting : wordsFrom lib bip39_mnemonic_validate purpose nwords output_len [] words = .ok none := by
        rw [wordsFrom, if_neg (Nat.not_le_of_lt short)]
        rfl
      cases step with
      | waits => exact ⟨none, steps later, fun entry given => absurd given (Option.not_mem_none entry)⟩
      | ends entry =>
        refine ⟨some entry, steps later, fun entry given => ?_⟩
        obtain rfl := Option.mem_some_iff.mp given
        exact sound.mono fun calculated => calculated.1
      | goes next =>
        obtain ⟨next_listed, next_count, is_phrase⟩ := sound
        obtain ⟨outcome, run, enters⟩ := ih next next_listed next_count
        refine ⟨outcome, (steps later).trans run, fun entry given => ?_⟩
        obtain next_short | next_whole := Nat.lt_or_eq_of_le next_count
        · refine (enters entry given).mono ?_
          rintro ⟨advanced, front, ending, rest, split, calculates, waits, ends⟩
          cases front with
          | nil =>
            obtain ⟨rfl, rfl⟩ := List.cons.inj split
            refine absurd ?_ ends
            rw [List.nil_append, steps, Step.andThen, wordsFrom, if_neg (Nat.not_le_of_lt next_short)]
            rfl
          | cons first front =>
            obtain ⟨rfl, behind⟩ := List.cons.inj split
            rw [steps] at waits
            rw [List.cons_append, steps] at ends
            exact ⟨advanced, front, ending, rest, behind, calculates, waits, ends⟩
        · rw [wordsFrom_full lawful few room next_listed next_whole later] at run
          cases run
          obtain rfl := Option.mem_some_iff.mp given
          refine full_enters next_listed next_whole ?_
          rintro ⟨advanced, front, ending, rest, split, calculates, waits, _⟩
          cases front with
          | nil =>
            obtain ⟨rfl, rfl⟩ := List.cons.inj split
            exact is_phrase advanced calculates next_whole
          | cons first front =>
            obtain ⟨rfl, _⟩ := List.cons.inj split
            rw [steps, Step.andThen, wordsFrom_full lawful few room next_listed next_whole] at waits
            cases waits
    · refine ⟨_, wordsFrom_full lawful few room listed whole _, fun entry given => ?_⟩
      obtain rfl := Option.mem_some_iff.mp given
      refine full_enters listed whole ?_
      rintro ⟨_, front, _, _, _, _, waits, _⟩
      rw [wordsFrom_full lawful few room listed whole] at waits
      cases waits

/-- Every phrase can be entered, whatever bytes are drawn at the screens, and whether its last word is calculated or not. The
entry does not end before its last attempt. -/
theorem wordsFrom_reaches (lawful : lib.Lawful) (typeable : Typeable lib.wordlist)
    (validates : Validates lib bip39_mnemonic_validate) (few : nwords ≤ WORDLIST_ENTRY_MAXWORDS)
    (room : mnemonic_buffer_size nwords ≤ output_len) (supported : is_valid_wordlist_length purpose nwords = true)
    {action : FinalWordAction} (goes_on : action ≠ .abandon) {draws : List (List Nat)}
    (enough : ∀ drawn ∈ draws, 5 ≤ drawn.length) :
    ∀ front back : List Bytes, (∀ word ∈ front, word ∈ lib.wordlist) → (∀ word ∈ back, word ∈ lib.wordlist) →
    back.length = draws.length → front.length + back.length = nwords →
    (action = .calculate → IsPhrase lib (front ++ back)) →
    ∃ attempts : List Attempt,
      List.Forall₂ (fun attempt drawn => attempt.visits.map Visit.random <+: drawn) attempts draws ∧
      (∀ attempt ∈ attempts, attempt.action = action) ∧
      (∀ k < attempts.length, wordsFrom lib bip39_mnemonic_validate purpose nwords output_len (attempts.take k) front =
        .ok none) ∧
      wordsFrom lib bip39_mnemonic_validate purpose nwords output_len attempts front =
        .ok (some (nwords, joined (front ++ back) ++ [0])) := by
  induction draws with
  | nil =>
    intro front back front_listed back_listed same count _
    obtain rfl := List.length_eq_zero_iff.mp same
    rw [List.length_nil, Nat.add_zero] at count
    refine ⟨[], .nil, fun attempt among => absurd among List.not_mem_nil, fun k few => absurd few (Nat.not_lt_zero k), ?_⟩
    rw [wordsFrom_full lawful few room front_listed count, count, List.append_nil]
  | cons drawn draws ih =>
    intro front back front_listed back_listed same count is_phrase
    obtain ⟨enough_here, enough⟩ := List.forall_mem_cons.mp enough
    obtain ⟨word, back, rfl⟩ := List.exists_cons_of_length_eq_add_one same
    obtain ⟨here, back_listed⟩ := List.forall_mem_cons.mp back_listed
    rw [List.length_cons, List.length_cons] at same
    rw [List.length_cons] at count
    have all_listed : ∀ other ∈ front ++ [word], other ∈ lib.wordlist := by
      intro other inside
      obtain before | last := List.mem_append.mp inside
      · exact front_listed other before
      · exact List.mem_singleton.mp last ▸ here
    obtain ⟨attempts, drawn_attempts, answered, waits, later⟩ := ih enough (front ++ [word]) back all_listed back_listed
      (Nat.succ.inj same) (by rw [List.length_append, List.length_singleton]; omega)
      fun calculates => by rw [List.append_assoc]; exact is_phrase calculates
    obtain ⟨j, inside, rfl⟩ := index_of_mem here
    have count_words : front.length < WORDLIST_ENTRY_MAXWORDS := by omega
    have last : decide (purpose = .mnemonic_advanced ∧ front.length = nwords - 1) = true →
        (nwords = 12 ∨ nwords = 24) ∧ front.length + 1 = nwords := by
      intro asks
      obtain ⟨rfl, place⟩ := of_decide_eq_true asks
      exact ⟨of_decide_eq_true supported, by omega⟩
    obtain ⟨p_filter_words, found, candidates, both, completes, unfiltered⟩ :=
      @finalFilter_ok lib bip39_mnemonic_validate nwords lawful typeable validates front front_listed _ action last
    have among : j ∈ selectable lib p_filter_words := by
      by_cases asks : decide (purpose = .mnemonic_advanced ∧ front.length = nwords - 1) = true ∧ action = .calculate
      · obtain rfl : back = [] := List.length_eq_zero_iff.mp (by have := (last asks.1).2; omega)
        exact (completes asks.1 asks.2 j).mpr ⟨lawful.count ▸ inside, is_phrase asks.2⟩
      · rw [unfiltered (by by_cases asked : decide (purpose = .mnemonic_advanced ∧ front.length = nwords - 1) = true
                           · exact .inr fun calculates => asks ⟨asked, calculates⟩
                           · exact .inl (Bool.eq_false_iff.mpr asked))]
        exact List.mem_range.mpr inside
    obtain ⟨visits, drawn_visits, reached⟩ := @selectFrom_reaches lib purpose front p_filter_words p_filter_words.isSome
      typeable candidates front_listed count_words j among drawn [] (Nat.zero_le _) List.nil_prefix
      (Nat.le_trans enough_here (Nat.le_add_right _ _))
    have word_run : select_wordlist_word lib purpose front p_filter_words p_filter_words.isSome visits = .ok
        (some (.selected (lib.wordlist.getD j []))) := by
      rw [select_wordlist_word, decide_eq_true count_words, Check.ensure_true, Check.ok_bind, both, Check.ensure_true,
        Check.ok_bind]
      exact reached
    have step : ∀ later, wordsFrom lib bip39_mnemonic_validate purpose nwords output_len (⟨action, visits⟩ :: later) front =
        wordsFrom lib bip39_mnemonic_validate purpose nwords output_len later (front ++ [lib.wordlist.getD j []]) := by
      intro later
      rw [wordsFrom, if_neg (by omega)]
      dsimp only
      rw [if_neg fun abandons => goes_on abandons.2, found, Check.ok_bind, title_fits count_words, Check.ensure_true,
        Check.ok_bind, word_run, Check.ok_bind]
    refine ⟨⟨action, visits⟩ :: attempts, .cons drawn_visits drawn_attempts, List.forall_mem_cons.mpr ⟨rfl, answered⟩,
      fun k few => ?_, ?_⟩
    · cases k with
      | zero =>
        rw [List.take_zero, wordsFrom, if_neg (by omega)]
        rfl
      | succ k => rw [List.take_succ_cons, step, waits k (Nat.lt_of_succ_lt_succ few)]
    · rw [step, later, List.append_assoc]
      rfl

theorem supported_few (supported : is_valid_wordlist_length purpose nwords = true) : nwords ≤ WORDLIST_ENTRY_MAXWORDS := by
  have most : WORDLIST_ENTRY_MAXWORDS = 33 := rfl
  have valid : ∀ n, is_valid_mnemonic_length n = true → n ≤ 33 := by
    intro n valid
    rcases of_decide_eq_true valid with rfl | rfl <;> decide
  cases purpose with
  | mnemonic_simple => exact valid nwords supported
  | mnemonic_advanced => exact valid nwords supported
  | wordlist_passphrase => exact of_decide_eq_true supported

theorem get_wordlist_words_eq (supported : is_valid_wordlist_length purpose nwords = true)
    (room : mnemonic_buffer_size nwords ≤ output_len) (attempts : List Attempt) :
    get_wordlist_words lib bip39_mnemonic_validate purpose nwords output_len attempts =
      wordsFrom lib bip39_mnemonic_validate purpose nwords output_len attempts [] := by
  rw [get_wordlist_words, decide_eq_true (supported_few supported), Check.ensure_true, Check.ok_bind, decide_eq_true room,
    Check.ensure_true, Check.ok_bind, supported, Check.ensure_true, Check.ok_bind]

theorem cstr_joined (lawful : lib.Lawful) {words : List Bytes} (listed : ∀ word ∈ words, word ∈ lib.wordlist) :
    cstr (joined words ++ [0]) = joined words := by
  have no_nul : 0 ∉ joined words := by
    intro nul
    have char := joined_forall (p := (· ≠ 0)) (by decide) (fun word inside c within zero =>
      letters_no_nul lawful (listed word inside) (zero ▸ within)) 0 nul
    exact char rfl
  rw [cstr_append no_nul, cstr_nul, List.append_nil]

/-- The purpose of a recovery. -/
def recoveryPurpose (advanced_mode : Bool) : Purpose := if advanced_mode then .mnemonic_advanced else .mnemonic_simple

theorem recovery_supported (supported : nwords = 12 ∨ nwords = 24) (advanced_mode : Bool) :
    is_valid_wordlist_length (recoveryPurpose advanced_mode) nwords = true ∧
      wordlist_exact_count (recoveryPurpose advanced_mode) = true := by
  have valid : is_valid_mnemonic_length nwords = true := decide_eq_true supported
  cases advanced_mode with
  | false => exact ⟨valid, rfl⟩
  | true => exact ⟨valid, rfl⟩

theorem recovery_room (supported : nwords = 12 ∨ nwords = 24) : mnemonic_buffer_size nwords ≤ MNEMONIC_BUFLEN := by
  rcases supported with rfl | rfl <;> decide

/-- What is recovered from an entry. -/
def recovered (bip39_mnemonic_validate : Bytes → Bool) (nwords : Nat) (entry : Nat × Bytes) : Option Bytes :=
  if entry.1 = 0 then none
  else if entry.1 ≠ nwords ∨ bip39_mnemonic_validate (cstr entry.2) = false then none
  else some entry.2

theorem mnemonic_recover_eq (supported : nwords = 12 ∨ nwords = 24) {advanced_mode : Bool} {attempts : List Attempt}
    {outcome : Option (Nat × Bytes)}
    (run : wordsFrom lib bip39_mnemonic_validate (recoveryPurpose advanced_mode) nwords MNEMONIC_BUFLEN attempts [] =
    .ok outcome) :
    mnemonic_recover lib bip39_mnemonic_validate nwords advanced_mode attempts =
      .ok (outcome.map (recovered bip39_mnemonic_validate nwords)) := by
  have valid : is_valid_mnemonic_length nwords = true := decide_eq_true supported
  have entered := @get_wordlist_words_eq lib bip39_mnemonic_validate _ _ _ (recovery_supported supported advanced_mode).1
    (recovery_room supported) attempts
  rw [mnemonic_recover, valid, Check.ensure_true, Check.ok_bind]
  dsimp only
  rw [← recoveryPurpose, entered, run, Check.ok_bind]
  cases outcome with
  | none => rfl
  | some entry =>
    dsimp only [Option.map_some, recovered]
    split_ifs <;> rfl

/-- What is recovered is the phrase of some entropy. -/
theorem recovered_phrase (lawful : lib.Lawful) (validates : Validates lib bip39_mnemonic_validate)
    (supported : nwords = 12 ∨ nwords = 24) {entry : Nat × Bytes} {text : Bytes}
    (enters : Enters lib purpose nwords False entry) (given : recovered bip39_mnemonic_validate nwords entry = some text) :
    ∃ entropy : Bytes, entropy.length * 3 / 4 = nwords ∧ (entropy.length = 16 ∨ entropy.length = 32) ∧
      text = phrase lib entropy ++ [0] := by
  simp only [recovered, Option.ite_none_left_eq_some, Option.some.injEq, not_or, Bool.not_eq_false,
    Decidable.not_not] at given
  obtain ⟨some_word, ⟨whole, valid⟩, rfl⟩ := given
  obtain rfl | ⟨words, listed, _, _, rfl, _⟩ := enters
  · exact absurd rfl some_word
  · dsimp only at whole valid
    rw [cstr_joined lawful listed] at valid
    obtain ⟨entropy, size, same⟩ := (validates words listed (whole ▸ supported)).mp valid
    have count := length_phraseWords lib entropy
    rw [same, whole] at count
    exact ⟨entropy, count.symm, size, by rw [phrase, same]⟩

end

/-! ### A list to type -/

theorem firstWords_take : ∀ word ∈ firstWords, ∀ other ∈ firstWords, word.take 4 = other.take 4 → word = other := by
  decide +kernel

theorem firstWords_long : ∀ word ∈ firstWords, word.length ≠ 3 ∧ word.head? = some 97 := by
  decide +kernel

theorem otherWord_head {n : Nat} (bound : n < 2031) : (otherWord n).head? ≠ some 97 := by
  intro same
  have first := UInt8.toNat_inj.mpr (Option.some.inj same)
  rw [UInt8.toNat_ofNat'] at first
  simp at first
  omega

theorem sample_typeable : Typeable sample.wordlist where
  listed := sample_lawful.listed
  four := by
    intro word listed other among same
    obtain first | ⟨n, bound, rfl⟩ := sample_mem.mp listed
    · obtain also | ⟨m, small, rfl⟩ := sample_mem.mp among
      · exact firstWords_take word first other also same
      · have head := congrArg List.head? same
        rw [List.head?_take, if_neg (by decide), List.head?_take, if_neg (by decide),
          (firstWords_long word first).2] at head
        exact absurd head.symm (otherWord_head small)
    · obtain also | ⟨m, small, rfl⟩ := sample_mem.mp among
      · have head := congrArg List.head? same
        rw [List.head?_take, if_neg (by decide), List.head?_take, if_neg (by decide),
          (firstWords_long other also).2] at head
        exact absurd head (otherWord_head bound)
      · exact same
  short := by
    intro word listed three
    obtain first | ⟨n, bound, rfl⟩ := sample_mem.mp listed
    · exact absurd three (firstWords_long word first).1
    · obtain ⟨j, inside, same⟩ := index_of_mem listed
      have unique : ∀ other ∈ sample.wordlist, otherWord n <+: other → other = sample.wordlist.getD j [] := by
        intro other among starts
        obtain also | ⟨m, small, rfl⟩ := sample_mem.mp among
        · obtain ⟨rest, rfl⟩ := starts
          exact absurd (firstWords_long _ also).2 (otherWord_head bound)
        · exact (same.trans (starts.eq_of_length_le (Nat.le_refl 3))).symm
      have hit := hits_unique sample_lawful.listed inside (same ▸ List.prefix_refl (otherWord n)) unique
      rw [hit]
      exact (by decide : 1 ≤ NUM_WORDS_SELECT)

/-- A recovery never fails, and gives nothing but phrases. And there is no phrase that it does not give: each can be entered,
whatever bytes are drawn at the screens. -/
theorem recovers_phrases {lib : Library} {bip39_mnemonic_validate : Bytes → Bool} (lawful : lib.Lawful)
    (typeable : Typeable lib.wordlist) (validates : Validates lib bip39_mnemonic_validate) {nwords : Nat}
    (supported : nwords = 12 ∨ nwords = 24) (advanced_mode : Bool) :
    (∀ attempts : List Attempt, ∃ outcome,
      mnemonic_recover lib bip39_mnemonic_validate nwords advanced_mode attempts = .ok outcome ∧
      ∀ text, outcome = some (some text) → ∃ entropy : Bytes, entropy.length * 3 / 4 = nwords ∧
        (entropy.length = 16 ∨ entropy.length = 32) ∧ text = phrase lib entropy ++ [0]) ∧
    ∀ entropy : Bytes, entropy.length * 3 / 4 = nwords → entropy.length = 16 ∨ entropy.length = 32 →
      ∀ draws : List (List Nat), draws.length = nwords → (∀ drawn ∈ draws, 5 ≤ drawn.length) → ∃ attempts : List Attempt,
        List.Forall₂ (fun attempt drawn => attempt.visits.map Visit.random <+: drawn) attempts draws ∧
        mnemonic_recover lib bip39_mnemonic_validate nwords advanced_mode attempts =
          .ok (some (some (phrase lib entropy ++ [0]))) := by
  obtain ⟨valid, exact_count⟩ := recovery_supported supported advanced_mode
  have few := supported_few valid
  have room := recovery_room supported
  constructor
  · intro attempts
    obtain ⟨outcome, run, enters⟩ := wordsFrom_ok lawful typeable validates few room valid attempts []
      (fun word inside => absurd inside List.not_mem_nil) (Nat.zero_le _)
    refine ⟨_, mnemonic_recover_eq supported run, fun text given => ?_⟩
    obtain ⟨entry, rfl, text_given⟩ := Option.map_eq_some_iff.mp given
    exact recovered_phrase lawful validates supported ((enters entry rfl).mono False.elim) text_given
  · intro entropy count size draws whole enough
    have listed := @phraseWords_listed lib entropy lawful
    have words := length_phraseWords lib entropy
    rw [count] at words
    obtain ⟨attempts, drawn, _, _, run⟩ := @wordsFrom_reaches lib bip39_mnemonic_validate (recoveryPurpose advanced_mode)
      nwords MNEMONIC_BUFLEN lawful typeable validates few room valid .existing (by decide) draws enough []
      (phraseWords lib entropy) (fun word inside => absurd inside List.not_mem_nil) listed (words.trans whole.symm)
      ((Nat.zero_add _).trans words) fun calculates => absurd calculates (by decide)
    have decodes : bip39_mnemonic_validate (joined (phraseWords lib entropy)) = true :=
      (validates _ listed (words.symm ▸ supported)).mpr ⟨entropy, size, rfl⟩
    refine ⟨attempts, drawn, (mnemonic_recover_eq supported run).trans ?_⟩
    have some_word : ¬ nwords = 0 := by omega
    rw [Option.map_some, recovered, List.nil_append, cstr_joined lawful listed, decodes]
    dsimp only
    rw [if_neg some_word, if_neg (by simp)]
    rfl

theorem recovers_phrases_sample :
    (∀ attempts : List Attempt, ∃ outcome,
      mnemonic_recover sample (fun text => (mnemonicToBytes sample text).isSome) 12 true attempts = .ok outcome ∧
      ∀ text, outcome = some (some text) → ∃ entropy : Bytes, entropy.length * 3 / 4 = 12 ∧
        (entropy.length = 16 ∨ entropy.length = 32) ∧ text = phrase sample entropy ++ [0]) ∧
    ∀ entropy : Bytes, entropy.length * 3 / 4 = 12 → entropy.length = 16 ∨ entropy.length = 32 →
      ∀ draws : List (List Nat), draws.length = 12 → (∀ drawn ∈ draws, 5 ≤ drawn.length) → ∃ attempts : List Attempt,
        List.Forall₂ (fun attempt drawn => attempt.visits.map Visit.random <+: drawn) attempts draws ∧
        mnemonic_recover sample (fun text => (mnemonicToBytes sample text).isSome) 12 true attempts =
          .ok (some (some (phrase sample entropy ++ [0]))) :=
  recovers_phrases sample_lawful sample_typeable (validates_decoded sample_lawful) (.inl rfl) true

end PiJade.Mnemonic
