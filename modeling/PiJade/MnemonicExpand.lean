import Mathlib.Data.List.Forall2
import PiJade.MnemonicWords

/-!
The expansion of a text of stems between single spaces to the phrase of their words. What the loop
gives is said for every text, those with zero bytes included.
-/
namespace PiJade.Mnemonic
open Text
set_option linter.unusedSimpArgs false

section
variable {lib : Library}

/-! ### Stems -/

theorem joined_forall {words : List Bytes} {p : UInt8 → Prop} (space : p 32) (each : ∀ word ∈ words, ∀ c ∈ word, p c) :
    ∀ c ∈ joined words, p c := by
  intro c inside
  cases words with
  | nil => cases inside
  | cons word later =>
    obtain ⟨first, others⟩ := List.forall_mem_cons.mp each
    obtain front | back := List.mem_append.mp inside
    · exact first c front
    · obtain ⟨next, among, within⟩ := List.mem_flatMap.mp back
      obtain rfl | within := List.mem_cons.mp within
      · exact space
      · exact others next among c within

theorem Stem.letters (listed : Listed lib.wordlist) {stem word : Bytes} (among : word ∈ lib.wordlist)
    (stands : Stem lib stem word) : ∀ c ∈ stem, 97 ≤ c.toNat ∧ c.toNat ≤ 122 :=
  fun c inside => (listed.letters word among).2.2 c (stands.starts.subset inside)

theorem Stem.no_nul (listed : Listed lib.wordlist) {stem word : Bytes} (among : word ∈ lib.wordlist)
    (stands : Stem lib stem word) : 0 ∉ stem := by
  intro nul
  have letter := (stands.letters listed among 0 nul).1
  simp at letter

theorem Stem.no_space (listed : Listed lib.wordlist) {stem word : Bytes} (among : word ∈ lib.wordlist)
    (stands : Stem lib stem word) : 32 ∉ stem := by
  intro space
  have letter := (stands.letters listed among 32 space).1
  simp at letter

/-- Stems that stand for words of the list. -/
def Shortened (lib : Library) : List Bytes → List Bytes → Prop :=
  List.Forall₂ fun stem word => word ∈ lib.wordlist ∧ Stem lib stem word

theorem Shortened.each (lawful : lib.Lawful) {stems words : List Bytes} (shortened : Shortened lib stems words) :
    ∀ stem ∈ stems, (2 ≤ stem.length ∧ stem.length ≤ 8) ∧ ∀ c ∈ stem, 97 ≤ c.toNat ∧ c.toNat ≤ 122 := by
  induction shortened with
  | nil => exact fun stem inside => absurd inside List.not_mem_nil
  | cons stands _ ih =>
    refine List.forall_mem_cons.mpr ⟨?_, ih⟩
    obtain ⟨listed, stands⟩ := stands
    have shorter := stands.starts.length_le
    have eight := (lawful.letters _ listed).2.1
    exact ⟨⟨stands.two_le lawful listed, by omega⟩, stands.letters lawful.listed listed⟩

/-! ### A turn of the loop -/

/-- A stem and a space, and what is behind. -/
theorem expandFrom_spaced {stem later out : Bytes} {buf_len fuel : Nat} {found : Found} (no_nul : 0 ∉ stem)
    (no_space : 32 ∉ stem) (room : out.length < buf_len)
    (search : valid_words lib.wordlist stem none 1 = .ok found) :
    expandFrom lib buf_len (fuel + 1) (stem ++ 32 :: later) out = (
      if found.num_possible_words ≠ 1 ∧ found.exact_match = false then .ok none
      else do
        let wordlist_extracted ← wordlist_word lib.wordlist (found.output_word_list.headD 0)
        if buf_len ≤ out.length + wordlist_extracted.length then pure none
        else expandFrom lib buf_len fuel later (out ++ wordlist_extracted ++ [32])) := by
  have seen : cstr (stem ++ 32 :: later) = stem ++ 32 :: cstr later := by
    rw [cstr_append no_nul, cstr_cons (by decide)]
  have space : (stem ++ 32 :: cstr later).idxOf 32 = stem.length := by
    rw [List.idxOf_append_of_notMem no_space, List.idxOf_cons_self, Nat.add_zero]
  have spaced : stem.length < (stem ++ 32 :: cstr later).length := by
    rw [List.length_append, List.length_cons]
    omega
  have behind : (stem ++ 32 :: later).drop (stem.length + 1) = later := by
    rw [← List.drop_drop, List.drop_left]
    rfl
  rw [expandFrom, if_neg (Nat.not_le.mpr room)]
  simp only [seen, space, spaced, decide_true, if_true, List.take_left, search, Check.ok_bind, behind]
  congr 1
  cases wordlist_word lib.wordlist (found.output_word_list.headD 0) with
  | error fault => rfl
  | ok word =>
    simp only [Check.ok_bind]
    by_cases full : buf_len ≤ out.length + word.length
    · rw [if_pos full, if_pos full]
    · rw [if_neg full, if_neg full, put_eq (by omega), Check.ok_bind, put_eq (by simp; omega)]
      rfl

/-- What is left when no space is. -/
theorem expandFrom_rest {text out : Bytes} {buf_len fuel : Nat} {found : Found} (no_space : 32 ∉ cstr text)
    (room : out.length < buf_len) (search : valid_words lib.wordlist text none 1 = .ok found) :
    expandFrom lib buf_len (fuel + 1) text out = (
      if found.num_possible_words ≠ 1 ∧ found.exact_match = false then .ok none
      else do
        let wordlist_extracted ← wordlist_word lib.wordlist (found.output_word_list.headD 0)
        if buf_len ≤ out.length + wordlist_extracted.length then pure none
        else pure (some (out ++ wordlist_extracted ++ [0]))) := by
  have spaced : ¬ (cstr text).idxOf 32 < (cstr text).length := by
    rw [List.idxOf_lt_length_iff]
    exact no_space
  rw [expandFrom, if_neg (Nat.not_le.mpr room)]
  simp only [spaced, decide_false, Bool.false_eq_true, if_false, search, Check.ok_bind]
  congr 1
  cases wordlist_word lib.wordlist (found.output_word_list.headD 0) with
  | error fault => rfl
  | ok word =>
    simp only [Check.ok_bind]
    by_cases full : buf_len ≤ out.length + word.length
    · rw [if_pos full, if_pos full]
    · rw [if_neg full, if_neg full, put_eq (by omega), Check.ok_bind, put_eq (by simp; omega)]
      rfl

end

/-! ### Phrases -/

/-- The text is a phrase of stems, and what is written with its words fits. -/
def Accepts (lib : Library) (buf_len : Nat) (text written out : Bytes) : Prop :=
  ∃ stems words, stems ≠ [] ∧ Shortened lib stems words ∧ text = joined stems ∧
    out = written ++ joined words ++ [0] ∧ out.length ≤ buf_len

/-- A zero byte is behind a whole word, which comes after stems whose words fit. -/
def Misread (lib : Library) (buf_len : Nat) (text : Bytes) (written : Nat) : Prop :=
  ∃ stems words word rest, Shortened lib stems words ∧ word ∈ lib.wordlist ∧
    text = joined (stems ++ [word]) ++ 0 :: rest ∧ written + (words.flatMap (· ++ [32])).length < buf_len

section
variable {lib : Library} {buf_len : Nat}

theorem accepts_spaced (listed : Listed lib.wordlist) {stem later written out : Bytes} (no_space : 32 ∉ stem) :
    Accepts lib buf_len (stem ++ 32 :: later) written out ↔
      ∃ word ∈ lib.wordlist, Stem lib stem word ∧ Accepts lib buf_len later (written ++ word ++ [32]) out := by
  constructor
  · rintro ⟨stems, words, filled, shortened, text, expanded, fits⟩
    cases shortened with
    | nil => exact absurd rfl filled
    | @cons first word stems words stands others =>
      cases others with
      | nil =>
        have spaced : 32 ∈ joined [first] := by
          rw [← text]
          simp
        simp only [joined, List.flatMap_nil, List.append_nil] at spaced
        exact absurd spaced (stands.2.no_space listed stands.1)
      | @cons next meant stems words follows others =>
        rw [joined_cons] at text
        obtain ⟨rfl, _, rfl⟩ := split_unique (stands.2.no_space listed stands.1) no_space text
        refine ⟨word, stands.1, stands.2, next :: stems, meant :: words, List.cons_ne_nil _ _, .cons follows others, rfl,
          ?_, fits⟩
        rw [expanded, joined_cons]
        simp
  · rintro ⟨word, among, stands, stems, words, filled, shortened, rfl, expanded, fits⟩
    cases shortened with
    | nil => exact absurd rfl filled
    | @cons next meant stems words follows others =>
      refine ⟨stem :: next :: stems, word :: meant :: words, List.cons_ne_nil _ _, .cons ⟨among, stands⟩ (.cons follows others),
        rfl, ?_, fits⟩
      rw [expanded, joined_cons]
      simp

theorem accepts_rest {text written out : Bytes} (no_space : 32 ∉ text) :
    Accepts lib buf_len text written out ↔
      ∃ word ∈ lib.wordlist, Stem lib text word ∧ out = written ++ word ++ [0] ∧ out.length ≤ buf_len := by
  constructor
  · rintro ⟨stems, words, filled, shortened, rfl, expanded, fits⟩
    cases shortened with
    | nil => exact absurd rfl filled
    | @cons first word stems words stands others =>
      cases others with
      | nil =>
        simp only [joined, List.flatMap_nil, List.append_nil] at expanded ⊢
        exact ⟨word, stands.1, stands.2, expanded, fits⟩
      | cons follows others =>
        rw [joined_cons] at no_space
        exact absurd (by simp) no_space
  · rintro ⟨word, among, stands, expanded, fits⟩
    refine ⟨[text], [word], List.cons_ne_nil _ _, .cons ⟨among, stands⟩ .nil, ?_, ?_, fits⟩
    · simp [joined]
    · simp [joined, expanded]

/-- Nothing with a zero byte is a phrase. -/
theorem Accepts.no_nul (listed : Listed lib.wordlist) {text written out : Bytes}
    (accepts : Accepts lib buf_len text written out) : 0 ∉ text := by
  obtain ⟨stems, words, _, shortened, rfl, _⟩ := accepts
  have each : ∀ stem ∈ stems, ∀ c ∈ stem, c ≠ 0 := by
    clear * - listed shortened
    induction shortened with
    | nil => exact fun stem inside => absurd inside List.not_mem_nil
    | cons stands _ ih =>
      refine List.forall_mem_cons.mpr ⟨?_, ih⟩
      rintro c inside rfl
      exact stands.2.no_nul listed stands.1 inside
  exact fun nul => joined_forall (by decide) each 0 nul rfl

theorem misread_spaced (listed : Listed lib.wordlist) {stem later : Bytes} {written : Nat} (no_space : 32 ∉ stem)
    (no_nul : 0 ∉ stem) :
    Misread lib buf_len (stem ++ 32 :: later) written ↔
      ∃ word ∈ lib.wordlist, Stem lib stem word ∧ Misread lib buf_len later (written + word.length + 1) := by
  constructor
  · rintro ⟨stems, words, last, rest, shortened, whole, text, fits⟩
    cases shortened with
    | nil =>
      have last_no_space : 32 ∉ last := (show Stem lib last last from .inl rfl).no_space listed whole
      simp only [List.nil_append, joined, List.flatMap_nil, List.append_nil] at text
      cases (split_unique last_no_space no_nul text).2.1
    | @cons first word stems words stands others =>
      have more : joined ((first :: stems) ++ [last]) = first ++ 32 :: joined (stems ++ [last]) := by
        cases stems <;> rfl
      rw [more, List.append_assoc, List.cons_append] at text
      obtain ⟨rfl, _, rfl⟩ := split_unique (stands.2.no_space listed stands.1) no_space text
      refine ⟨word, stands.1, stands.2, stems, words, last, rest, others, whole, rfl, ?_⟩
      simp only [List.flatMap_cons, List.length_append, List.length_singleton] at fits
      omega
  · rintro ⟨word, among, stands, stems, words, last, rest, shortened, whole, rfl, fits⟩
    refine ⟨stem :: stems, word :: words, last, rest, .cons ⟨among, stands⟩ shortened, whole, ?_, ?_⟩
    · cases stems <;> simp [joined]
    · simp only [List.flatMap_cons, List.length_append, List.length_singleton]
      omega

theorem misread_rest {text : Bytes} {written : Nat} (no_space : 32 ∉ cstr text) (listed : Listed lib.wordlist) :
    Misread lib buf_len text written ↔
      written < buf_len ∧ ∃ word ∈ lib.wordlist, ∃ rest, text = word ++ 0 :: rest := by
  constructor
  · rintro ⟨stems, words, last, rest, shortened, whole, text, fits⟩
    cases shortened with
    | nil => exact ⟨fits, last, whole, rest, by simpa [joined] using text⟩
    | @cons first word stems words stands others =>
      have more : joined ((first :: stems) ++ [last]) = first ++ 32 :: joined (stems ++ [last]) := by
        cases stems <;> rfl
      rw [text, more, List.append_assoc, List.cons_append, cstr_append (stands.2.no_nul listed stands.1),
        cstr_cons (by decide)] at no_space
      simp at no_space
  · rintro ⟨room, word, among, rest, rfl⟩
    exact ⟨[], [], word, rest, .nil, among, by simp [joined], room⟩

theorem Misread.room {text : Bytes} {written : Nat} (misread : Misread lib buf_len text written) : written < buf_len := by
  obtain ⟨_, _, _, _, _, _, _, fits⟩ := misread
  omega

theorem Accepts.room {text written out : Bytes} (accepts : Accepts lib buf_len text written out) :
    written.length < buf_len := by
  obtain ⟨_, _, _, _, _, rfl, fits⟩ := accepts
  simp only [List.length_append, List.length_singleton] at fits
  omega

/-- What the loop is to give from a text on: it reads behind a word if a zero byte is there, and else it gives the words of
    the stems. -/
def Expanded (lib : Library) (buf_len : Nat) (text written : Bytes) (result : Check Fault (Option Bytes)) : Prop :=
  Misread lib buf_len text written.length ∧ result = .error (.error .out_of_bounds) ∨
    ¬ Misread lib buf_len text written.length ∧ ∃ given, result = .ok given ∧
      ∀ out, given = some out ↔ Accepts lib buf_len text written out

/-- Nothing is given where nothing is to be. -/
theorem Expanded.refused {text written : Bytes} (sound : ¬ Misread lib buf_len text written.length)
    (fails : ∀ out, ¬ Accepts lib buf_len text written out) : Expanded lib buf_len text written (.ok none) :=
  .inr ⟨sound, none, rfl, fun out => ⟨nofun, fun accepts => absurd accepts (fails out)⟩⟩

theorem expandFrom_full {fuel : Nat} {text written : Bytes} (full : ¬ written.length < buf_len) :
    Expanded lib buf_len text written (expandFrom lib buf_len (fuel + 1) text written) := by
  rw [expandFrom, if_pos (Nat.le_of_not_lt full)]
  exact Expanded.refused (fun misread => full misread.room) fun out accepts => full accepts.room

/-- The text behind the last space, with a zero byte in it. -/
theorem expandFrom_nul (listed : Listed lib.wordlist) {fuel : Nat} {text written : Bytes} (room : written.length < buf_len)
    (no_space : 32 ∉ cstr text) (nul : 0 ∈ text) :
    Expanded lib buf_len text written (expandFrom lib buf_len (fuel + 1) text written) := by
  obtain ⟨rest, split⟩ := cstr_cut nul
  have no_nul : 0 ∉ cstr text := fun inside => by simpa using List.mem_takeWhile_imp inside
  have search := @valid_words_nul _ listed _ rest no_nul 1
  have refused : ∀ out, ¬ Accepts lib buf_len text written out := fun out accepts => accepts.no_nul listed nul
  by_cases among : cstr text ∈ lib.wordlist
  · rw [← split, if_pos among] at search
    refine .inl ⟨(misread_rest no_space listed).mpr ⟨room, _, among, rest, split⟩, ?_⟩
    have spaced : ¬ (cstr text).idxOf 32 < (cstr text).length := by
      rw [List.idxOf_lt_length_iff]
      exact no_space
    rw [expandFrom, if_neg (Nat.not_le.mpr room)]
    simp only [spaced, decide_false, Bool.false_eq_true, if_false, search]
    rfl
  · rw [← split, if_neg among] at search
    rw [expandFrom_rest no_space room search]
    refine Expanded.refused (fun misread => ?_) refused
    obtain ⟨_, word, listed_word, other, same⟩ := (misread_rest no_space listed).mp misread
    have word_no_nul : 0 ∉ word := listed.no_nul listed_word
    obtain ⟨same, _, _⟩ := split_unique word_no_nul no_nul (split.symm.trans same)
    exact among (same ▸ listed_word)

/-- The last stem. -/
theorem expandFrom_last (listed : Listed lib.wordlist) {fuel : Nat} {text written : Bytes} (room : written.length < buf_len)
    (no_space : 32 ∉ cstr text) (no_nul : 0 ∉ text) :
    Expanded lib buf_len text written (expandFrom lib buf_len (fuel + 1) text written) := by
  obtain ⟨found, search, outcome⟩ := valid_words_word listed no_nul
  have sound : ¬ Misread lib buf_len text written.length := by
    intro misread
    obtain ⟨_, word, _, rest, rfl⟩ := (misread_rest no_space listed).mp misread
    exact no_nul (by simp)
  rw [expandFrom_rest no_space room search]
  rw [cstr_eq_self no_nul] at no_space
  obtain ⟨fails, no_word⟩ | ⟨hit, word, among, stands, extracted⟩ := outcome
  · rw [if_pos fails]
    refine Expanded.refused sound fun out accepts => ?_
    obtain ⟨word, among, stands, _⟩ := (accepts_rest no_space).mp accepts
    exact no_word word among stands
  · rw [if_neg hit, extracted, Check.ok_bind]
    have accepted (out : Bytes) : Accepts lib buf_len text written out ↔
        out = written ++ word ++ [0] ∧ out.length ≤ buf_len := by
      rw [accepts_rest no_space]
      constructor
      · rintro ⟨other, besides, also, given⟩
        rw [stands.unique among besides also] at given
        exact given
      · exact fun given => ⟨word, among, stands, given⟩
    by_cases full : buf_len ≤ written.length + word.length
    · rw [if_pos full]
      refine Expanded.refused sound fun out accepts => ?_
      obtain ⟨rfl, fits⟩ := (accepted out).mp accepts
      simp only [List.length_append, List.length_singleton] at fits
      omega
    · rw [if_neg full]
      refine .inr ⟨sound, _, rfl, fun out => ?_⟩
      rw [accepted, Option.some_inj]
      constructor
      · rintro rfl
        exact ⟨rfl, by simp; omega⟩
      · exact fun given => given.1.symm

/-- A stem before a space, given what the loop gives from behind it on. -/
theorem expandFrom_step (listed : Listed lib.wordlist) {fuel : Nat} {stem later written : Bytes}
    (room : written.length < buf_len) (no_space : 32 ∉ stem) (no_nul : 0 ∉ stem)
    (goes_on : ∀ written, Expanded lib buf_len later written (expandFrom lib buf_len fuel later written)) :
    Expanded lib buf_len (stem ++ 32 :: later) written (expandFrom lib buf_len (fuel + 1) (stem ++ 32 :: later) written) := by
  obtain ⟨found, search, outcome⟩ := valid_words_word listed no_nul
  rw [expandFrom_spaced no_nul no_space room search]
  obtain ⟨fails, no_word⟩ | ⟨hit, word, among, stands, extracted⟩ := outcome
  · rw [if_pos fails]
    refine Expanded.refused (fun misread => ?_) fun out accepts => ?_
    · obtain ⟨word, among, stands, _⟩ := (misread_spaced listed no_space no_nul).mp misread
      exact no_word word among stands
    · obtain ⟨word, among, stands, _⟩ := (accepts_spaced listed no_space).mp accepts
      exact no_word word among stands
  · rw [if_neg hit, extracted, Check.ok_bind]
    have size : (written ++ word ++ [32]).length = written.length + word.length + 1 := by
      simp only [List.length_append, List.length_singleton]
    have misread : Misread lib buf_len (stem ++ 32 :: later) written.length ↔
        Misread lib buf_len later (written ++ word ++ [32]).length := by
      rw [misread_spaced listed no_space no_nul, size]
      constructor
      · rintro ⟨other, besides, also, behind⟩
        rwa [stands.unique among besides also] at behind
      · exact fun behind => ⟨word, among, stands, behind⟩
    have accepted (out : Bytes) : Accepts lib buf_len (stem ++ 32 :: later) written out ↔
        Accepts lib buf_len later (written ++ word ++ [32]) out := by
      rw [accepts_spaced listed no_space]
      constructor
      · rintro ⟨other, besides, also, behind⟩
        rwa [stands.unique among besides also] at behind
      · exact fun behind => ⟨word, among, stands, behind⟩
    by_cases full : buf_len ≤ written.length + word.length
    · rw [if_pos full]
      refine Expanded.refused (fun behind => ?_) fun out behind => ?_
      · have fits := (misread.mp behind).room
        omega
      · have fits := ((accepted out).mp behind).room
        omega
    · rw [if_neg full]
      simpa only [Expanded, misread, accepted] using goes_on (written ++ word ++ [32])

theorem expandFrom_spec (listed : Listed lib.wordlist) {fuel : Nat} {text : Bytes} (enough : text.length < fuel)
    (written : Bytes) : Expanded lib buf_len text written (expandFrom lib buf_len fuel text written) := by
  induction fuel generalizing text written with
  | zero => omega
  | succ fuel ih =>
    by_cases room : written.length < buf_len
    · by_cases spaced : 32 ∈ cstr text
      · obtain ⟨stem, between, split, no_space⟩ := List.eq_append_cons_of_mem spaced
        have whole : text = cstr text ++ text.dropWhile (· ≠ 0) := List.takeWhile_append_dropWhile.symm
        have no_nul : 0 ∉ stem := by
          intro inside
          have before : 0 ∈ cstr text := split ▸ List.mem_append_left _ inside
          simpa using List.mem_takeWhile_imp before
        rw [split, List.append_assoc, List.cons_append] at whole
        rw [whole, List.length_append, List.length_cons] at enough
        rw [whole]
        exact expandFrom_step listed room no_space no_nul (ih (by omega))
      · by_cases nul : 0 ∈ text
        · exact expandFrom_nul listed room spaced nul
        · exact expandFrom_last listed room spaced nul
    · exact expandFrom_full room

theorem isprint_iff {c : UInt8} : isprint c = true ↔ 32 ≤ c.toNat ∧ c.toNat ≤ 126 := by
  simp [isprint, UInt8.le_iff_toNat_le]

theorem Shortened.printable (listed : Listed lib.wordlist) {stems words : List Bytes}
    (shortened : Shortened lib stems words) : ∀ c ∈ joined stems, isprint c = true := by
  refine joined_forall (by decide) ?_
  induction shortened with
  | nil => exact fun stem inside => absurd inside List.not_mem_nil
  | cons stands _ ih =>
    refine List.forall_mem_cons.mpr ⟨fun c inside => ?_, ih⟩
    have letter := stands.2.letters listed stands.1 c inside
    exact isprint_iff.mpr ⟨by omega, by omega⟩

/-- A text that is misread or accepted begins with a printable character and has no other before a zero byte. -/
theorem printable_start (listed : Listed lib.wordlist) {stems words : List Bytes} (filled : stems ≠ [])
    (shortened : Shortened lib stems words) {text : Bytes} (starts : cstr text = joined stems) :
    string_all text isprint = true ∧ (cstr text).length ≠ 0 := by
  rw [string_all, starts, List.all_eq_true]
  refine ⟨shortened.printable listed, ?_⟩
  cases shortened with
  | nil => exact absurd rfl filled
  | @cons stem word stems words stands others =>
    have some_letter := List.length_pos_iff.mpr (stands.2.ne_nil listed stands.1)
    rw [joined, List.length_append]
    omega

theorem expand_words_spec (listed : Listed lib.wordlist) (text : Bytes) :
    Expanded lib buf_len text [] (expand_words lib text buf_len) := by
  by_cases proper : string_all text isprint = true ∧ (cstr text).length ≠ 0
  · rw [expand_words, proper.1, if_neg (by decide), if_neg proper.2]
    exact expandFrom_spec listed (Nat.lt_succ_self _) []
  · have nothing : expand_words lib text buf_len = .ok none := by
      rw [expand_words]
      by_cases printable : string_all text isprint = true
      · rw [printable, if_neg (by decide), if_pos (not_not.mp fun some_text => proper ⟨printable, some_text⟩)]
      · rw [eq_false_of_ne_true printable]
        rfl
    rw [nothing]
    refine Expanded.refused (fun misread => proper ?_) fun out accepts => proper ?_
    · obtain ⟨stems, words, word, rest, shortened, among, rfl, _⟩ := misread
      have more : Shortened lib (stems ++ [word]) (words ++ [word]) :=
        List.rel_append shortened (.cons ⟨among, .inl rfl⟩ .nil)
      have before : 0 ∉ joined (stems ++ [word]) := fun nul => by simpa [isprint] using more.printable listed 0 nul
      refine printable_start listed (by simp) more ?_
      rw [cstr_append before, cstr_nul, List.append_nil]
    · have no_nul := accepts.no_nul listed
      obtain ⟨stems, words, filled, shortened, rfl, _⟩ := accepts
      exact printable_start listed filled shortened (cstr_eq_self no_nul)

/-- A phrase is expanded. -/
theorem expand_words_eq (listed : Listed lib.wordlist) {text out : Bytes} (accepts : Accepts lib buf_len text [] out) :
    expand_words lib text buf_len = .ok (some out) := by
  obtain ⟨misread, _⟩ | ⟨_, given, run, accepted⟩ := expand_words_spec listed text
  · obtain ⟨stems, words, word, rest, _, _, rfl, _⟩ := misread
    exact absurd (by simp) (accepts.no_nul listed)
  · rw [run, (accepted out).mpr accepts]

/-- Nothing else is, if it has no zero byte. -/
theorem expand_words_none (listed : Listed lib.wordlist) {text : Bytes} (no_nul : 0 ∉ text)
    (refused : ∀ out, ¬ Accepts lib buf_len text [] out) : expand_words lib text buf_len = .ok none := by
  obtain ⟨misread, _⟩ | ⟨_, given, run, accepted⟩ := expand_words_spec listed text
  · obtain ⟨stems, words, word, rest, _, _, rfl, _⟩ := misread
    exact absurd (by simp) no_nul
  · cases given with
    | none => exact run
    | some out => exact absurd ((accepted out).mp rfl) (refused out)

/-- A phrase begins with a letter. -/
theorem Accepts.letter (listed : Listed lib.wordlist) {text written out : Bytes}
    (accepts : Accepts lib buf_len text written out) : ∃ c ∈ text, 97 ≤ c.toNat := by
  obtain ⟨stems, words, filled, shortened, rfl, _⟩ := accepts
  cases shortened with
  | nil => exact absurd rfl filled
  | @cons stem word stems words stands others =>
    obtain ⟨c, inside⟩ := List.exists_mem_of_length_pos (List.length_pos_iff.mpr (stands.2.ne_nil listed stands.1))
    exact ⟨c, List.mem_append_left _ inside, (stands.2.letters listed stands.1 c inside).1⟩

end

end PiJade.Mnemonic
