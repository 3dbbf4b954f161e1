import PiJade.MnemonicEntry

/-!
The entry of one word. As long as letters are asked for, no word ends with what is typed, and so the
letters that are active are exactly those with which a word goes on. The entry keeps to words that can be
selected, and each of them can be reached.
-/
namespace PiJade.Mnemonic
open Text
set_option linter.unusedSimpArgs false

/-! ### Keyboards -/

section
variable {enabled : Fin 26 → Bool}

theorem pred_toNat {n : UInt8} (positive : n ≠ 0) : (n - 1).toNat + 1 = n.toNat := by
  have some_left : 0 < n.toNat := Nat.pos_of_ne_zero fun zero => positive (UInt8.toNat_inj.mp zero)
  have one_le : (1 : UInt8) ≤ n := UInt8.le_iff_toNat_le.mpr some_left
  rw [UInt8.toNat_sub_of_le _ _ one_le]
  exact Nat.sub_add_cancel some_left

/-- A letter that is selected stays so. -/
theorem selectLetter_some {letters : List (Fin 26)} {i : Fin 26} : ∀ iselected : UInt8,
    letters.countP enabled ≤ iselected.toNat → selectLetter enabled letters iselected (some i) = .ok (some i) := by
  induction letters with
  | nil => exact fun _ _ => rfl
  | cons letter later ih =>
    intro iselected left
    rw [List.countP_cons] at left
    rw [selectLetter]
    by_cases active : enabled letter = true
    · rw [if_pos active] at left ⊢
      have some_left : iselected ≠ 0 := by
        rintro rfl
        exact absurd left (Nat.not_succ_le_zero _)
      rw [if_neg some_left]
      have pred := pred_toNat some_left
      exact ih _ (by omega)
    · rw [if_neg active] at left ⊢
      exact ih _ left

/-- One of the active letters is selected. -/
theorem selectLetter_eq {letters : List (Fin 26)} (few : letters.length ≤ 26) : ∀ iselected : UInt8,
    iselected.toNat < letters.countP enabled →
    ∃ i, selectLetter enabled letters iselected none = .ok (some i) ∧ enabled i = true := by
  induction letters with
  | nil => exact fun _ left => absurd left (Nat.not_lt_zero _)
  | cons letter later ih =>
    intro iselected left
    rw [List.length_cons] at few
    rw [List.countP_cons] at left
    rw [selectLetter]
    by_cases active : enabled letter = true
    · rw [if_pos active] at left ⊢
      by_cases first : iselected = 0
      · have count := List.countP_le_length (p := enabled) (l := later)
        have wrapped : (iselected - 1).toNat = 255 := by rw [first]; rfl
        have room : later.countP enabled ≤ (iselected - 1).toNat := by
          rw [wrapped]
          omega
        rw [if_pos first, Option.isNone_none, Check.ensure_true, Check.ok_bind]
        exact ⟨letter, selectLetter_some _ room, active⟩
      · rw [if_neg first]
        have pred := pred_toNat first
        exact ih (by omega) _ (by omega)
    · rw [if_neg active] at left ⊢
      exact ih (by omega) _ left

end

section
variable {wordlist : List Bytes} {stem : Bytes} {filter_word_list : Option (List Nat)} {purpose : Purpose}

/-- Exactly those letters are active with which a word goes on, and one of them is selected. -/
theorem enable_relevant_chars_eq (typeable : Typeable wordlist)
    (candidates : Candidates wordlist (filter_word_list.getD (List.range wordlist.length))) (no_nul : 0 ∉ stem)
    (many : NUM_WORDS_SELECT < (hits wordlist stem (filter_word_list.getD (List.range wordlist.length))).length)
    (random : Nat) :
    ∃ keyboard, enable_relevant_chars purpose wordlist stem filter_word_list random = .ok keyboard ∧
      (∀ i, keyboard.enabled i = true ↔
        ∃ j ∈ filter_word_list.getD (List.range wordlist.length), stem ++ [letterOf i] <+: wordlist.getD j []) ∧
      keyboard.enter = (!wordlist_exact_count purpose && decide (stem.length = 0)) ∧
      ∃ i, keyboard.selected = some i ∧ keyboard.enabled i = true := by
  obtain ⟨short, longer⟩ := many_hits typeable candidates many
  obtain ⟨enabled, run, exact_letters⟩ :=
    enabledFrom_eq typeable.listed no_nul candidates.order candidates.inside longer fun _ => false
  replace exact_letters : ∀ i, enabled i = true ↔
      ∃ j ∈ filter_word_list.getD (List.range wordlist.length), stem ++ [letterOf i] <+: wordlist.getD j [] :=
    fun i => (exact_letters i).trans (or_iff_right Bool.false_ne_true)
  obtain ⟨j, hit⟩ := List.exists_mem_of_length_pos (Nat.zero_lt_of_lt many)
  obtain ⟨among, rest, word⟩ := mem_hits_of.mp hit
  have some_letter : ∃ i, enabled i = true := by
    have more := longer j among ⟨rest, word⟩
    rw [← word] at more
    cases rest with
    | nil => simp at more
    | cons c rest =>
      have letters := (typeable.listed.letters _ (wordlist_mem (candidates.inside j among))).2.2 c (by rw [← word]; simp)
      refine ⟨⟨c.toNat - 97, by omega⟩, (exact_letters _).mpr ⟨j, among, rest, ?_⟩⟩
      rw [(letterOf_sub (by omega) _).mpr rfl, ← word, List.append_assoc]
      rfl
  obtain ⟨i, active⟩ := some_letter
  have count : 0 < (List.finRange 26).countP enabled := List.countP_pos_iff.mpr ⟨i, List.mem_finRange i, active⟩
  have most : (List.finRange 26).countP enabled ≤ 26 := List.countP_le_length
  have below := Nat.mod_lt random count
  have drawn : (UInt8.ofNat (random % (List.finRange 26).countP enabled)).toNat < (List.finRange 26).countP enabled := by
    rw [UInt8.toNat_ofNat']
    omega
  obtain ⟨selected, selects, selected_active⟩ := selectLetter_eq (Nat.le_of_eq List.length_finRange) _ drawn
  refine ⟨⟨enabled, !wordlist_exact_count purpose && decide (stem.length = 0), some selected⟩, ?_, exact_letters, rfl,
    selected, rfl,
    selected_active⟩
  rw [enable_relevant_chars, run, Check.ok_bind]
  dsimp only
  rw [decide_eq_true count, Check.ensure_true, Check.ok_bind, get_uniform_random_byte, decide_eq_true (Nat.ne_of_gt count),
    Check.ensure_true, Check.ok_bind, Check.pure_eq, Check.ok_bind, selects, Check.ok_bind]
  rfl

end

/-! ### Carousels -/

section
variable {wordlist : List Bytes} {possible_word_list : List Nat}

theorem turned_le {possible_words selected : Nat} (inside : selected ≤ possible_words) (turn : Turn) :
    turned possible_words selected turn ≤ possible_words := by
  cases turn with
  | left => exact Nat.le_of_lt_succ (Nat.mod_lt _ (Nat.succ_pos _))
  | right => exact Nat.le_of_lt_succ (Nat.mod_lt _ (Nat.succ_pos _))
  | other => exact inside

/-- Where the wheel is after turns. -/
def turnedTo (possible_words selected : Nat) (turns : List Turn) : Nat := turns.foldl (turned possible_words) selected

theorem carouselWord_eq (inside : ∀ j ∈ possible_word_list, j < wordlist.length) {selected : Nat}
    (selectable : selected ≤ possible_word_list.length) :
    carouselWord wordlist possible_word_list possible_word_list.length selected =
      .ok (possible_word_list[selected]?.map fun j => wordlist.getD j []) := by
  rw [carouselWord, decide_eq_true selectable, Check.ensure_true, Check.ok_bind]
  by_cases last : selected = possible_word_list.length
  · rw [if_pos last, List.getElem?_eq_none (by omega)]
    rfl
  · have place : selected < possible_word_list.length := by omega
    rw [if_neg last, List.getElem?_eq_getElem place]
    dsimp only
    rw [wordlist_word_eq (inside _ (List.getElem_mem place)), Check.ok_bind]
    rfl

/-- What is clicked is a word or the place behind the words. -/
theorem carousel_eq (inside : ∀ j ∈ possible_word_list, j < wordlist.length) (turns : List Turn) :
    ∀ selected : Nat, selected ≤ possible_word_list.length →
    carousel wordlist possible_word_list possible_word_list.length selected turns =
      .ok (possible_word_list[turnedTo possible_word_list.length selected turns]?.map fun j => wordlist.getD j []) := by
  induction turns with
  | nil => exact fun selected selectable => carouselWord_eq inside selectable
  | cons turn later ih =>
    intro selected selectable
    rw [carousel, carouselWord_eq inside selectable, Check.ok_bind]
    exact ih _ (turned_le selectable turn)

end

/-! ### One screen -/

/-- The indices of the words that can be selected. -/
def selectable (lib : Library) (p_filter_words : Option (List Nat)) : List Nat :=
  p_filter_words.getD (List.range lib.wordlist.length)

/-- The indices of the words that are left for a stem. -/
def left (lib : Library) (p_filter_words : Option (List Nat)) (stem : Bytes) : List Nat :=
  hits lib.wordlist stem (selectable lib p_filter_words)

/-- What is typed begins a word that can be selected. -/
structure Typed (lib : Library) (p_filter_words : Option (List Nat)) (stem : Bytes) : Prop where
  short : stem.length ≤ 4
  starts : ∃ j ∈ selectable lib p_filter_words, stem <+: lib.wordlist.getD j []

section
variable {lib : Library} {purpose : Purpose} {wordlist_words : List Bytes} {p_filter_words : Option (List Nat)}
  {random_first_selection_word : Bool} {visit : Visit} {later : List Visit} {stem : Bytes}

/-- The backspace takes a letter away, if there is one. -/
def backFrom (lib : Library) (purpose : Purpose) (wordlist_words : List Bytes) (p_filter_words : Option (List Nat))
    (random_first_selection_word : Bool) (later : List Visit) (stem : Bytes) : Check Fault (Option WordResult) :=
  if 0 < stem.length then
    selectFrom lib purpose wordlist_words p_filter_words random_first_selection_word later stem.dropLast
  else .ok (some .backspace)

def afterClick (lib : Library) (backspace : Check Fault (Option WordResult)) : Option Nat → Check Fault (Option WordResult)
  | some j => .ok (some (.selected (lib.wordlist.getD j [])))
  | none => backspace

def afterKey (lib : Library) (purpose : Purpose) (wordlist_words : List Bytes) (p_filter_words : Option (List Nat))
    (random_first_selection_word : Bool) (later : List Visit) (stem : Bytes) : Key → Check Fault (Option WordResult)
  | .backspace => backFrom lib purpose wordlist_words p_filter_words random_first_selection_word later stem
  | .enter => .ok (some .done)
  | .letter i => selectFrom lib purpose wordlist_words p_filter_words random_first_selection_word later
    (stem ++ [letterOf i])
  | .other => selectFrom lib purpose wordlist_words p_filter_words random_first_selection_word later stem

theorem Typed.no_nul (typeable : Typeable lib.wordlist)
    (candidates : Candidates lib.wordlist (selectable lib p_filter_words))
    (typed : Typed lib p_filter_words stem) : 0 ∉ stem := by
  obtain ⟨j, among, starts⟩ := typed.starts
  exact fun nul => typeable.listed.no_nul (wordlist_mem (candidates.inside j among)) (starts.subset nul)

theorem Typed.some_hit (typed : Typed lib p_filter_words stem) :
    0 < (left lib p_filter_words stem).length := by
  obtain ⟨j, among, starts⟩ := typed.starts
  exact List.length_pos_of_mem (mem_hits_of.mpr ⟨among, starts⟩)

theorem Typed.dropLast (typed : Typed lib p_filter_words stem) : Typed lib p_filter_words stem.dropLast where
  short := by
    rw [List.length_dropLast]
    exact Nat.le_trans (Nat.sub_le _ _) typed.short
  starts := by
    obtain ⟨j, among, starts⟩ := typed.starts
    exact ⟨j, among, (List.dropLast_prefix stem).trans starts⟩

theorem decimal_title {n : Nat} (few : n < 100) : (decimal n).length + 12 < 16 := by
  have digits := decimal_length_le (n := n) (k := 2) (by decide) few
  omega

/-- Where the wheel of the carousel is when it comes up. -/
def drawnAt (random_first_selection_word : Bool) (random possible_words : Nat) : Nat :=
  if random_first_selection_word then random % possible_words else 0

theorem drawnAt_le {random possible_words : Nat} (some_word : 0 < possible_words) :
    drawnAt random_first_selection_word random possible_words ≤ possible_words := by
  have below := Nat.mod_lt random some_word
  rw [drawnAt]
  split
  · exact Nat.le_of_lt below
  · exact Nat.zero_le _

theorem firstSelected_eq {random possible_words : Nat} (some_word : 0 < possible_words)
    (few : possible_words ≤ NUM_WORDS_SELECT) :
    firstSelected random_first_selection_word random possible_words =
      .ok (drawnAt random_first_selection_word random possible_words) := by
  have ten : NUM_WORDS_SELECT = 10 := rfl
  have below := Nat.mod_lt random some_word
  rw [firstSelected, drawnAt]
  cases random_first_selection_word with
  | false => rfl
  | true =>
    rw [if_pos rfl, if_pos rfl, get_uniform_random_byte, decide_eq_true (Nat.ne_of_gt some_word), Check.ensure_true,
      Check.ok_bind, Check.pure_eq, Check.ok_bind, UInt8.toNat_ofNat', Nat.mod_eq_of_lt (by omega)]
    rfl

theorem valid_words_left (typeable : Typeable lib.wordlist)
    (candidates : Candidates lib.wordlist (selectable lib p_filter_words)) (typed : Typed lib p_filter_words stem) :
    ∃ exact_match, valid_words lib.wordlist stem p_filter_words NUM_WORDS_SELECT =
      .ok ⟨(left lib p_filter_words stem).length, exact_match, (left lib p_filter_words stem).take NUM_WORDS_SELECT⟩ :=
  valid_words_hits typeable.listed candidates (typed.no_nul typeable candidates) NUM_WORDS_SELECT (by decide)

/-- A few words are there to choose from. -/
theorem selectFrom_few (typeable : Typeable lib.wordlist)
    (candidates : Candidates lib.wordlist (selectable lib p_filter_words))
    (count : wordlist_words.length < WORDLIST_ENTRY_MAXWORDS)
    (typed : Typed lib p_filter_words stem) (few : (left lib p_filter_words stem).length ≤ NUM_WORDS_SELECT) :
    selectFrom lib purpose wordlist_words p_filter_words random_first_selection_word (visit :: later) stem =
      afterClick lib (backFrom lib purpose wordlist_words p_filter_words random_first_selection_word later stem)
        (left lib p_filter_words stem)[turnedTo (left lib p_filter_words stem).length
          (drawnAt random_first_selection_word visit.random (left lib p_filter_words stem).length) visit.turns]? := by
  have some_hit := typed.some_hit
  have most : WORDLIST_ENTRY_MAXWORDS = 33 := rfl
  obtain ⟨exact_match, found⟩ := valid_words_left typeable candidates typed
  rw [List.take_of_length_le few] at found
  have inside : ∀ j ∈ left lib p_filter_words stem, j < lib.wordlist.length :=
    fun j hit => candidates.inside j (mem_hits_of.mp hit).1
  have start := @drawnAt_le random_first_selection_word visit.random _ some_hit
  have short := typed.short
  rw [selectFrom]
  rw [decide_eq_true (by omega), Check.ensure_true, Check.ok_bind, found, Check.ok_bind]
  dsimp only
  rw [decide_eq_true some_hit, Check.ensure_true, Check.ok_bind, if_pos few, decide_eq_true (decimal_title (by omega)),
    Check.ensure_true, Check.ok_bind, firstSelected_eq some_hit few, Check.ok_bind, carousel_eq inside _ _ start,
      Check.ok_bind]
  cases (left lib p_filter_words stem)[turnedTo (left lib p_filter_words stem).length
    (drawnAt random_first_selection_word visit.random (left lib p_filter_words stem).length) visit.turns]? <;> rfl

theorem length_word (typeable : Typeable lib.wordlist) (listed : ∀ word ∈ wordlist_words, word ∈ lib.wordlist) (n : Nat) :
    (wordlist_words.getD n []).length ≤ 8 := by
  by_cases inside : n < wordlist_words.length
  · rw [List.getD_eq_getElem _ _ inside]
    exact (typeable.listed.letters _ (listed _ (List.getElem_mem inside))).2.1
  · rw [List.getD_eq_default _ _ (Nat.not_lt.mp inside)]
    decide

theorem shownWords_le (each : ∀ n, (wordlist_words.getD n []).length ≤ 8) (short : stem.length ≤ 3) :
    (shownWords wordlist_words stem).1.length ≤ 8 ∧ (shownWords wordlist_words stem).2.1.length ≤ 8 ∧
      (shownWords wordlist_words stem).2.2.length ≤ 8 := by
  have stem_le : stem.length ≤ 8 := Nat.le_trans short (by decide)
  have empty_le : ([] : Bytes).length ≤ 8 := by decide
  rw [shownWords]
  dsimp only
  split_ifs
  · exact ⟨stem_le, empty_le, empty_le⟩
  · exact ⟨each _, stem_le, empty_le⟩
  · exact ⟨each _, each _, stem_le⟩
  · exact ⟨each _, each _, each _⟩
  · exact ⟨each _, each _, stem_le⟩

/-- The text above the letters fits its buffer. -/
theorem textboxText_ok (typeable : Typeable lib.wordlist) (listed : ∀ word ∈ wordlist_words, word ∈ lib.wordlist)
    (short : stem.length ≤ 3) : ∃ text, textboxText purpose wordlist_words stem = .ok text := by
  have each := length_word typeable listed
  rw [textboxText]
  by_cases counted : wordlist_exact_count purpose = true
  · exact ⟨stem, if_pos counted⟩
  · have bounds := shownWords_le each short
    have ellipsis : (if 3 < wordlist_words.length ∨ wordlist_words.length = 3 ∧ 0 < stem.length then
        ([46, 46, 46, 32] : Bytes) else []).length ≤ 4 := by
      split <;> decide
    rw [if_neg counted]
    generalize shownWords wordlist_words stem = shown at bounds ⊢
    obtain ⟨first, second, third⟩ := shown
    dsimp only at bounds ⊢
    rw [decide_eq_true, Check.ensure_true, Check.ok_bind]
    · exact ⟨_, rfl⟩
    · simp only [List.length_append, List.length_singleton]
      omega

/-- Letters are to be typed, with many words left. -/
theorem selectFrom_many (typeable : Typeable lib.wordlist)
    (candidates : Candidates lib.wordlist (selectable lib p_filter_words))
    (listed : ∀ word ∈ wordlist_words, word ∈ lib.wordlist)
    (typed : Typed lib p_filter_words stem)
    (many : NUM_WORDS_SELECT < (left lib p_filter_words stem).length) :
    ∃ keyboard : Keyboard,
      selectFrom lib purpose wordlist_words p_filter_words random_first_selection_word (visit :: later) stem =
        afterKey lib purpose wordlist_words p_filter_words random_first_selection_word later stem
          (keyboard.press visit.key) ∧
      (∀ i, keyboard.enabled i = true ↔ ∃ j ∈ selectable lib p_filter_words,
        stem ++ [letterOf i] <+: lib.wordlist.getD j []) ∧
      keyboard.enter = (!wordlist_exact_count purpose && decide (stem.length = 0)) := by
  obtain ⟨exact_match, found⟩ := valid_words_left typeable candidates typed
  obtain ⟨keyboard, run, letters, enter, _⟩ := @enable_relevant_chars_eq _ _ _ purpose typeable candidates
    (typed.no_nul typeable candidates) many visit.random
  obtain ⟨text, shown⟩ := @textboxText_ok _ purpose _ _ typeable listed (many_hits typeable candidates many).1
  have short := typed.short
  refine ⟨keyboard, ?_, letters, enter⟩
  rw [selectFrom]
  rw [decide_eq_true (by omega), Check.ensure_true, Check.ok_bind, found, Check.ok_bind]
  dsimp only
  rw [decide_eq_true typed.some_hit, Check.ensure_true, Check.ok_bind, if_neg (Nat.not_le.mpr many), shown,
    Check.ok_bind, run,
    Check.ok_bind]
  cases keyboard.press visit.key <;> rfl

end

/-! ### Words -/

/-- What can come out for a word. -/
def Selects (lib : Library) (purpose : Purpose) (p_filter_words : Option (List Nat)) : WordResult → Prop
  | .selected word => ∃ j ∈ selectable lib p_filter_words, lib.wordlist.getD j [] = word
  | .done => wordlist_exact_count purpose = false
  | .backspace => True

section
variable {lib : Library} {purpose : Purpose} {wordlist_words : List Bytes} {p_filter_words : Option (List Nat)}
  {random_first_selection_word : Bool}

/-- Whatever is done, a word is entered without a fault: typing keeps to the words that can be selected. -/
theorem selectFrom_ok (typeable : Typeable lib.wordlist) (candidates : Candidates lib.wordlist
    (selectable lib p_filter_words))
    (listed : ∀ word ∈ wordlist_words, word ∈ lib.wordlist) (count : wordlist_words.length < WORDLIST_ENTRY_MAXWORDS)
    (visits : List Visit) : ∀ stem : Bytes, Typed lib p_filter_words stem →
    ∃ outcome, selectFrom lib purpose wordlist_words p_filter_words random_first_selection_word visits stem = .ok outcome ∧
      ∀ result ∈ outcome, Selects lib purpose p_filter_words result := by
  induction visits with
  | nil => exact fun stem _ => ⟨none, rfl, fun result given => absurd given (Option.not_mem_none result)⟩
  | cons visit later ih =>
    intro stem typed
    have back : ∃ outcome, backFrom lib purpose wordlist_words p_filter_words random_first_selection_word later stem =
      .ok outcome ∧
        ∀ result ∈ outcome, Selects lib purpose p_filter_words result := by
      rw [backFrom]
      by_cases filled : 0 < stem.length
      · rw [if_pos filled]
        exact ih _ typed.dropLast
      · rw [if_neg filled]
        refine ⟨_, rfl, fun result given => ?_⟩
        obtain rfl := Option.mem_some_iff.mp given
        trivial
    by_cases few : (left lib p_filter_words stem).length ≤ NUM_WORDS_SELECT
    · rw [selectFrom_few typeable candidates count typed few]
      cases clicked : (left lib p_filter_words stem)[turnedTo (left lib p_filter_words stem).length
          (drawnAt random_first_selection_word visit.random (left lib p_filter_words stem).length) visit.turns]? with
      | none => exact back
      | some j =>
        refine ⟨_, rfl, fun result given => ?_⟩
        obtain rfl := Option.mem_some_iff.mp given
        exact ⟨j, (mem_hits_of.mp (List.mem_of_getElem? clicked)).1, rfl⟩
    · obtain ⟨keyboard, run, letters, enter⟩ :=
        @selectFrom_many lib purpose wordlist_words p_filter_words random_first_selection_word visit later stem typeable
          candidates listed typed (Nat.not_le.mp few)
      have short := (many_hits typeable candidates (Nat.not_le.mp few)).1
      rw [run]
      cases pressed : visit.key with
      | backspace => exact back
      | other => exact ih stem typed
      | enter =>
        by_cases active : keyboard.enter = true
        · have press : keyboard.press .enter = .enter := if_pos active
          rw [press]
          refine ⟨_, rfl, fun result given => ?_⟩
          obtain rfl := Option.mem_some_iff.mp given
          rw [enter, Bool.and_eq_true, Bool.not_eq_true'] at active
          exact active.1
        · have press : keyboard.press .enter = .other := if_neg active
          rw [press]
          exact ih stem typed
      | letter i =>
        by_cases active : keyboard.enabled i = true
        · have press : keyboard.press (.letter i) = .letter i := if_pos active
          rw [press]
          refine ih _ ⟨?_, (letters i).mp active⟩
          rw [List.length_append, List.length_singleton]
          omega
        · have press : keyboard.press (.letter i) = .other := if_neg active
          rw [press]
          exact ih stem typed

/-- Turning to the right reaches every place. -/
theorem turnedTo_right {possible_words : Nat} (n : Nat) : ∀ selected : Nat, selected ≤ possible_words →
    turnedTo possible_words selected (List.replicate n .right) = (selected + n) % (possible_words + 1) := by
  induction n with
  | zero => exact fun selected inside => (Nat.mod_eq_of_lt (Nat.lt_succ_of_le inside)).symm
  | succ n ih =>
    intro selected inside
    have next := ih _ (turned_le inside .right)
    rw [List.replicate_succ, turnedTo, List.foldl_cons, ← turnedTo, next, turned, Nat.mod_add_mod]
    exact congrArg (· % (possible_words + 1)) (by omega)

theorem turnedTo_place {possible_words selected place : Nat} (inside : selected ≤ possible_words)
    (within : place ≤ possible_words) :
    turnedTo possible_words selected (List.replicate (place + (possible_words + 1 - selected)) .right) = place := by
  have around : selected + (place + (possible_words + 1 - selected)) = place + (possible_words + 1) := by omega
  rw [turnedTo_right _ _ inside, around, Nat.add_mod_right, Nat.mod_eq_of_lt (Nat.lt_succ_of_le within)]

/-- Every word can be selected, in five screens at most and whatever bytes are drawn at them. -/
theorem selectFrom_reaches (typeable : Typeable lib.wordlist)
    (candidates : Candidates lib.wordlist (selectable lib p_filter_words))
    (listed : ∀ word ∈ wordlist_words, word ∈ lib.wordlist) (count : wordlist_words.length < WORDLIST_ENTRY_MAXWORDS)
    {j : Nat}
    (among : j ∈ selectable lib p_filter_words) (draws : List Nat) : ∀ stem : Bytes, stem.length ≤ 4 →
    stem <+: lib.wordlist.getD j [] → 5 ≤ draws.length + stem.length →
    ∃ visits : List Visit, visits.map Visit.random <+: draws ∧
      selectFrom lib purpose wordlist_words p_filter_words random_first_selection_word visits stem =
        .ok (some (.selected (lib.wordlist.getD j []))) := by
  induction draws with
  | nil =>
    intro stem short starts enough
    rw [List.length_nil] at enough
    omega
  | cons random draws ih =>
    intro stem short starts enough
    rw [List.length_cons] at enough
    have typed : Typed lib p_filter_words stem := ⟨short, j, among, starts⟩
    by_cases few : (left lib p_filter_words stem).length ≤ NUM_WORDS_SELECT
    · have hit : j ∈ left lib p_filter_words stem := mem_hits_of.mpr ⟨among, starts⟩
      obtain ⟨place, inside, here⟩ := List.getElem_of_mem hit
      have start := @drawnAt_le random_first_selection_word random _ typed.some_hit
      refine ⟨[⟨random, .other, List.replicate (place + ((left lib p_filter_words stem).length + 1 -
        drawnAt random_first_selection_word random (left lib p_filter_words stem).length)) .right⟩], ?_, ?_⟩
      · exact List.cons_prefix_cons.mpr ⟨rfl, List.nil_prefix⟩
      · rw [selectFrom_few typeable candidates count typed few]
        dsimp only
        rw [turnedTo_place start (Nat.le_of_lt inside), List.getElem?_eq_getElem inside, here]
        rfl
    · have many := Nat.not_le.mp few
      obtain ⟨short, longer⟩ := many_hits typeable candidates many
      obtain ⟨rest, word⟩ := starts
      obtain ⟨c, rest, rfl⟩ : ∃ c rest', rest = c :: rest' := by
        have more := longer j among ⟨rest, word⟩
        rw [← word] at more
        cases rest with
        | nil => simp at more
        | cons c rest => exact ⟨c, rest, rfl⟩
      have letters := (typeable.listed.letters _ (wordlist_mem (candidates.inside j among))).2.2 c (by rw [← word]; simp)
      have letter := (letterOf_sub (c := c) (by omega) ⟨c.toNat - 97, by omega⟩).mpr rfl
      have goes_on : stem ++ [letterOf ⟨c.toNat - 97, by omega⟩] <+: lib.wordlist.getD j [] := by
        refine ⟨rest, ?_⟩
        rw [letter, ← word, List.append_assoc]
        rfl
      obtain ⟨visits, drawn, reached⟩ := ih (stem ++ [letterOf ⟨c.toNat - 97, by omega⟩])
        (by rw [List.length_append, List.length_singleton]; omega) goes_on
        (by rw [List.length_append, List.length_singleton]; omega)
      obtain ⟨keyboard, run, active, _⟩ :=
        @selectFrom_many lib purpose wordlist_words p_filter_words random_first_selection_word
          ⟨random, .letter ⟨c.toNat - 97, by omega⟩, []⟩ visits stem typeable candidates listed typed many
      have press : keyboard.press (.letter ⟨c.toNat - 97, by omega⟩) = .letter ⟨c.toNat - 97, by omega⟩ :=
        if_pos ((active _).mpr ⟨j, among, goes_on⟩)
      refine ⟨⟨random, .letter ⟨c.toNat - 97, by omega⟩, []⟩ :: visits, List.cons_prefix_cons.mpr ⟨rfl, drawn⟩, ?_⟩
      rw [run, press]
      exact reached

end

end PiJade.Mnemonic
