import Mathlib.Data.List.Nodup
import PiJade.MnemonicDigits

/-!
The words of a recovery phrase, written out or shortened to prefixes that are one of no other word.
The search over the sorted list stops early, but finds what a scan of the whole list finds. Only a
zero byte behind a whole word leads it to a byte behind the word.
-/
namespace PiJade.Mnemonic
open Text
set_option linter.unusedSimpArgs false

/-- A word, or a prefix of it that is one of no other word. -/
def Stem (lib : Library) (stem word : Bytes) : Prop :=
  stem = word ∨ stem <+: word ∧ ∀ other ∈ lib.wordlist, stem <+: other → other = word

/-- The English list: it is in order, and of words of three to eight letters. -/
structure Listed (wordlist : List Bytes) : Prop where
  count : wordlist.length = 2048
  sorted : wordlist.Pairwise (· < ·)
  letters : ∀ word ∈ wordlist, 3 ≤ word.length ∧ word.length ≤ 8 ∧ ∀ c ∈ word, 97 ≤ c.toNat ∧ c.toNat ≤ 122

theorem Library.Lawful.listed {lib : Library} (lawful : lib.Lawful) : Listed lib.wordlist :=
  ⟨lawful.count, lawful.sorted, lawful.letters⟩

/-! ### The search -/

section
variable {wordlist : List Bytes} {stem : Bytes}

theorem Listed.no_nul (listed : Listed wordlist) {word : Bytes} (among : word ∈ wordlist) : 0 ∉ word := by
  intro nul
  have letter := (listed.letters word among).2.2 0 nul
  simp at letter

/-- The words of the list are in order. -/
theorem Listed.lt (listed : Listed wordlist) {j k : Nat} (order : j < k) (inside : k < wordlist.length) :
    wordlist.getD j [] < wordlist.getD k [] := by
  rw [List.getD_eq_getElem _ _ (by omega), List.getD_eq_getElem _ _ inside]
  exact List.pairwise_iff_getElem.mp listed.sorted j k (by omega) inside order

theorem wordlist_mem {k : Nat} (inside : k < wordlist.length) : wordlist.getD k [] ∈ wordlist := by
  rw [List.getD_eq_getElem _ _ inside]
  exact List.getElem_mem inside

/-- The words among those of the indices that begin with the stem. -/
def hits (wordlist : List Bytes) (stem : Bytes) (indices : List Nat) : List Nat :=
  indices.filter fun j => decide (stem <+: wordlist.getD j [])

/-- What a scan of all the indices finds. -/
def scan (wordlist : List Bytes) (stem : Bytes) (indices : List Nat) (output_word_list_len : Nat) : Found where
  num_possible_words := (hits wordlist stem indices).length
  exact_match := indices.any fun j => wordlist.getD j [] = stem
  output_word_list := (hits wordlist stem indices).take output_word_list_len

/-- What was found before, and what a scan of the other indices finds. -/
def Found.and (found : Found) (wordlist : List Bytes) (stem : Bytes) (indices : List Nat) (output_word_list_len : Nat) :
    Found where
  num_possible_words := found.num_possible_words + (hits wordlist stem indices).length
  exact_match := found.exact_match || indices.any fun j => wordlist.getD j [] = stem
  output_word_list :=
    found.output_word_list ++ (hits wordlist stem indices).take (output_word_list_len - found.num_possible_words)

/-- A word is as long as its stem if it is the stem. -/
theorem exact_iff (listed : Listed wordlist) {word : Bytes} (among : word ∈ wordlist) (starts : stem <+: word) :
    word.getD stem.length 0 = 0 ↔ word = stem := by
  obtain ⟨rest, rfl⟩ := starts
  have no_nul := listed.no_nul among
  rw [List.getD_append_right _ _ _ _ (Nat.le_refl _), Nat.sub_self]
  cases rest with
  | nil => simp
  | cons c rest =>
    have char : c ≠ 0 := fun zero => no_nul (by simp [zero])
    simp [char]

/-- Nothing is found where no word begins with the stem. -/
theorem Found.and_nothing {found : Found} {indices : List Nat} {most : Nat}
    (nothing : ∀ j ∈ indices, ¬ stem <+: wordlist.getD j []) : found.and wordlist stem indices most = found := by
  have empty : hits wordlist stem indices = [] := by
    rw [hits, List.filter_eq_nil_iff]
    intro j among
    simpa using nothing j among
  have inexact : (indices.any fun j => decide (wordlist.getD j [] = stem)) = false := by
    rw [List.any_eq_false]
    intro j among same
    exact nothing j among (of_decide_eq_true same ▸ List.prefix_refl _)
  simp only [Found.and, empty, inexact, List.length_nil, Nat.add_zero, Bool.or_false, List.take_nil, List.append_nil]

theorem Found.and_hit {found : Found} {j : Nat} {indices : List Nat} {most : Nat} (starts : stem <+: wordlist.getD j []) :
    (found.add j (decide (wordlist.getD j [] = stem)) most).and wordlist stem indices most =
      found.and wordlist stem (j :: indices) most := by
  have hit : hits wordlist stem (j :: indices) = j :: hits wordlist stem indices :=
    List.filter_cons_of_pos (decide_eq_true starts)
  simp only [Found.and, Found.add, hit, List.length_cons, List.any_cons, Bool.or_assoc, Found.mk.injEq]
  refine ⟨by omega, trivial, ?_⟩
  by_cases room : found.num_possible_words < most
  · have left : most - found.num_possible_words = most - (found.num_possible_words + 1) + 1 := by omega
    rw [if_pos room, left, List.take_succ_cons, List.append_assoc]
    rfl
  · have full : most - found.num_possible_words = 0 := by omega
    have beyond : most - (found.num_possible_words + 1) = 0 := by omega
    rw [if_neg room, full, beyond]
    rfl

theorem Found.and_miss {found : Found} {j : Nat} {indices : List Nat} {most : Nat}
    (differs : ¬ stem <+: wordlist.getD j []) :
    found.and wordlist stem (j :: indices) most = found.and wordlist stem indices most := by
  have miss : hits wordlist stem (j :: indices) = hits wordlist stem indices :=
    List.filter_cons_of_neg (by simpa using differs)
  have inexact : decide (wordlist.getD j [] = stem) = false := decide_eq_false fun same => differs (same ▸ List.prefix_refl _)
  simp only [Found.and, miss, List.any_cons, inexact, Bool.false_or]

/-- The search that stops at the first word behind the stem finds what a scan finds, and no assertion fails: the stem
    itself can only be the first of the words that begin with it. -/
theorem searchWords_eq (listed : Listed wordlist) (no_nul : 0 ∉ stem) {indices : List Nat} {most : Nat} {found : Found}
    (order : indices.Pairwise (· < ·)) (inside : ∀ j ∈ indices, j < wordlist.length)
    (fresh : found.num_possible_words = 0 ∧ found.exact_match = false ∨
      ∀ j ∈ indices, wordlist.getD j [] ≠ stem) :
    searchWords wordlist stem most indices found = .ok (found.and wordlist stem indices most) := by
  induction indices generalizing found with
  | nil => exact (congrArg Except.ok (Found.and_nothing fun j among => absurd among List.not_mem_nil)).symm
  | cons j later ih =>
    obtain ⟨before, order⟩ := List.pairwise_cons.mp order
    obtain ⟨here, inside⟩ := List.forall_mem_cons.mp inside
    have compared := @strncmp_eq_iff (wordlist.getD j []) stem no_nul
    rw [searchWords, wordlist_word_eq here, Check.ok_bind]
    cases found_here : strncmp (wordlist.getD j []) stem stem.length with
    | lt =>
      rw [Found.and_miss (by rw [← compared, found_here]; decide)]
      exact ih order inside (fresh.imp_right fun others => (List.forall_mem_cons.mp others).2)
    | gt =>
      have differs : ¬ stem <+: wordlist.getD j [] := by
        rw [← compared, found_here]
        decide
      refine congrArg Except.ok (Found.and_nothing ?_).symm
      refine List.forall_mem_cons.mpr ⟨differs, fun k among starts => ?_⟩
      have less := strncmp_lt_of_lt (listed.lt (before k among) (inside k among)) starts differs no_nul
      rw [found_here] at less
      cases less
    | eq =>
      have starts := compared.mp found_here
      have whole := exact_iff listed (wordlist_mem here) starts
      have long : ¬ (wordlist.getD j []).length < stem.length := Nat.not_lt.mpr starts.length_le
      have others : ∀ k ∈ later, wordlist.getD k [] ≠ stem := by
        intro k among same
        exact not_lt_start starts (same ▸ listed.lt (before k among) (inside k among))
      have first : wordlist.getD j [] = stem → found.num_possible_words = 0 ∧ found.exact_match = false := by
        intro same
        exact fresh.resolve_right fun different => different j List.mem_cons_self same
      simp only [if_neg long, whole]
      rw [← Found.and_hit starts]
      by_cases same : wordlist.getD j [] = stem
      · obtain ⟨none_yet, inexact⟩ := first same
        simp only [same, none_yet, inexact, decide_true, Bool.not_true, Bool.not_false, Bool.or_true, Check.ensure_true,
          Check.ok_bind]
        exact ih order inside (.inr others)
      · simp only [same, decide_false, Bool.not_false, Bool.true_or, Check.ensure_true, Check.ok_bind]
        exact ih order inside (.inr others)

end

section
variable {lib : Library} {entropy : Bytes} {k : Nat}

theorem letters_no_nul (lawful : lib.Lawful) {word : Bytes} (among : word ∈ lib.wordlist) : 0 ∉ word :=
  lawful.listed.no_nul among

theorem Stem.starts {stem word : Bytes} (stands : Stem lib stem word) : stem <+: word := by
  obtain rfl | ⟨starts, _⟩ := stands
  · exact List.prefix_refl _
  · exact starts

/-- A stem has two letters at least. -/
theorem Stem.two_le (lawful : lib.Lawful) {stem word : Bytes} (listed : word ∈ lib.wordlist)
    (stands : Stem lib stem word) : 2 ≤ stem.length := by
  obtain rfl | ⟨starts, unique⟩ := stands
  · have three := (lawful.letters stem listed).1
    omega
  · by_contra short
    obtain ⟨other, among, different, same⟩ := lawful.ambiguous word listed
    have one : stem = (word.take 1).take stem.length := by
      rw [List.take_take, Nat.min_eq_left (by omega)]
      exact List.prefix_iff_eq_take.mp starts
    rw [← same, List.take_take, Nat.min_eq_left (by omega)] at one
    exact different (unique other among (List.prefix_iff_eq_take.mpr one))

/-- The list has two words, and so no stem is empty. -/
theorem Stem.ne_nil (listed : Listed lib.wordlist) {stem word : Bytes} (among : word ∈ lib.wordlist)
    (stands : Stem lib stem word) : stem ≠ [] := by
  rintro rfl
  obtain rfl | ⟨_, unique⟩ := stands
  · have three := (listed.letters [] among).1
    simp at three
  · have count := listed.count
    have less := listed.lt Nat.zero_lt_one (by omega)
    rw [unique _ (wordlist_mem (by omega)) List.nil_prefix, unique _ (wordlist_mem (by omega)) List.nil_prefix] at less
    exact not_lt_start (List.prefix_refl _) less

theorem index_of_mem {wordlist : List Bytes} {word : Bytes} (among : word ∈ wordlist) :
    ∃ j, j < wordlist.length ∧ wordlist.getD j [] = word := by
  obtain ⟨j, inside, same⟩ := List.getElem_of_mem among
  exact ⟨j, inside, by rw [List.getD_eq_getElem _ _ inside, same]⟩

theorem mem_hits {wordlist : List Bytes} {stem : Bytes} {j : Nat} :
    j ∈ hits wordlist stem (List.range wordlist.length) ↔ j < wordlist.length ∧ stem <+: wordlist.getD j [] := by
  simp [hits]

/-- The search over the whole list finds what a scan finds. -/
theorem valid_words_scan {wordlist : List Bytes} (listed : Listed wordlist) {stem : Bytes} (no_nul : 0 ∉ stem)
    (filled : stem ≠ []) (most : Nat) :
    valid_words wordlist stem none most = .ok (scan wordlist stem (List.range wordlist.length) most) := by
  have not_empty : ¬ (stem.length = 0 ∧ (none : Option (List Nat)) = none) := by simpa using filled
  rw [valid_words, if_neg not_empty, Option.getD_none, searchWords_eq listed no_nul List.pairwise_lt_range
    (fun j among => List.mem_range.mp among) (.inl ⟨rfl, rfl⟩)]
  simp [Found.and, scan]

/-- The first of the words that begin with a stem is the stem itself, if it is a word. -/
theorem hits_exact {wordlist : List Bytes} (listed : Listed wordlist) {j : Nat} (inside : j < wordlist.length) :
    (hits wordlist (wordlist.getD j []) (List.range wordlist.length)).head? = some j := by
  have count : j + (wordlist.length - (j + 1) + 1) = wordlist.length := by omega
  have whole : List.range wordlist.length = List.range j ++ j :: List.range' (j + 1) (wordlist.length - (j + 1)) := by
    have parts := @List.range'_append_1 0 j (wordlist.length - (j + 1) + 1)
    rw [List.range'_succ, Nat.zero_add, count, ← List.range_eq_range', ← List.range_eq_range'] at parts
    exact parts.symm
  have none_before : (List.range j).filter (fun k => decide (wordlist.getD j [] <+: wordlist.getD k [])) = [] := by
    rw [List.filter_eq_nil_iff]
    intro k among
    have less := listed.lt (List.mem_range.mp among) inside
    simpa using fun starts => not_lt_start starts less
  rw [hits, whole, List.filter_append, none_before, List.nil_append, List.filter_cons_of_pos (by simp)]
  rfl

/-- A stem that begins one word only has one hit. -/
theorem hits_unique {wordlist : List Bytes} (listed : Listed wordlist) {stem : Bytes} {j : Nat} (inside : j < wordlist.length)
    (starts : stem <+: wordlist.getD j [])
    (unique : ∀ other ∈ wordlist, stem <+: other → other = wordlist.getD j []) :
    hits wordlist stem (List.range wordlist.length) = [j] := by
  have same_members : ∀ k, k ∈ hits wordlist stem (List.range wordlist.length) ↔ k ∈ [j] := by
    intro k
    rw [mem_hits, List.mem_singleton]
    constructor
    · rintro ⟨within, starts⟩
      have same := unique _ (wordlist_mem within) starts
      obtain below | equal | above := Nat.lt_trichotomy k j
      · exact absurd (same ▸ listed.lt below inside) (not_lt_start (List.prefix_refl _))
      · exact equal
      · exact absurd (same ▸ listed.lt above within) (not_lt_start (List.prefix_refl _))
    · rintro rfl
      exact ⟨inside, starts⟩
  have distinct : (hits wordlist stem (List.range wordlist.length)).Nodup :=
    List.Nodup.filter _ List.nodup_range
  exact List.perm_singleton.mp ((List.perm_ext_iff_of_nodup distinct (List.nodup_singleton j)).mpr same_members)

/-- The search fails for a stem that stands for no word, and finds the word of any other. -/
theorem valid_words_word (listed : Listed lib.wordlist) {stem : Bytes} (no_nul : 0 ∉ stem) :
    ∃ found, valid_words lib.wordlist stem none 1 = .ok found ∧
      ((found.num_possible_words ≠ 1 ∧ found.exact_match = false) ∧ (∀ word ∈ lib.wordlist, ¬ Stem lib stem word) ∨
        ¬ (found.num_possible_words ≠ 1 ∧ found.exact_match = false) ∧ ∃ word ∈ lib.wordlist, Stem lib stem word ∧
          wordlist_word lib.wordlist (found.output_word_list.headD 0) = .ok word) := by
  by_cases filled : stem = []
  · refine ⟨⟨lib.wordlist.length, false, List.range 1⟩, by simp [valid_words, filled], .inl ⟨⟨?_, rfl⟩, ?_⟩⟩
    · rw [listed.count]
      decide
    · exact fun word among stands => stands.ne_nil listed among filled
  · refine ⟨_, valid_words_scan listed no_nul filled 1, ?_⟩
    by_cases exact_word : stem ∈ lib.wordlist
    · obtain ⟨j, inside, rfl⟩ := index_of_mem exact_word
      obtain ⟨later, all⟩ := List.head?_eq_some_iff.mp (hits_exact listed inside)
      have exact_match : (scan lib.wordlist (lib.wordlist.getD j []) (List.range lib.wordlist.length) 1).exact_match = true :=
        List.any_eq_true.mpr ⟨j, List.mem_range.mpr inside, by simp⟩
      refine .inr ⟨fun fails => Bool.noConfusion (exact_match.symm.trans fails.2), _, exact_word, .inl rfl, ?_⟩
      rw [scan, all, List.take_succ_cons, List.headD_cons]
      exact wordlist_word_eq inside
    · have inexact : (scan lib.wordlist stem (List.range lib.wordlist.length) 1).exact_match = false := by
        rw [scan, List.any_eq_false]
        intro j inside same
        exact exact_word (of_decide_eq_true same ▸ wordlist_mem (List.mem_range.mp inside))
      by_cases one : (scan lib.wordlist stem (List.range lib.wordlist.length) 1).num_possible_words = 1
      · obtain ⟨j, only⟩ := List.length_eq_one_iff.mp one
        obtain ⟨inside, starts⟩ := mem_hits.mp (only ▸ List.mem_singleton_self j)
        refine .inr ⟨fun fails => fails.1 one, _, wordlist_mem inside, .inr ⟨starts, fun other among begins => ?_⟩, ?_⟩
        · obtain ⟨k, within, rfl⟩ := index_of_mem among
          have hit := mem_hits.mpr ⟨within, begins⟩
          rw [only, List.mem_singleton] at hit
          rw [hit]
        · rw [scan, only, List.take_succ_cons, List.headD_cons]
          exact wordlist_word_eq inside
      · refine .inl ⟨⟨one, inexact⟩, ?_⟩
        rintro word among (same | ⟨starts, unique⟩)
        · exact exact_word (same ▸ among)
        · obtain ⟨j, inside, rfl⟩ := index_of_mem among
          apply one
          rw [scan, hits_unique listed inside starts unique]
          rfl

theorem Stem.unique {stem word other : Bytes} (among : word ∈ lib.wordlist)
    (besides : other ∈ lib.wordlist) (stands : Stem lib stem word) (also : Stem lib stem other) : other = word := by
  obtain rfl | ⟨starts, unique⟩ := stands
  · obtain same | ⟨_, unique⟩ := also
    · exact same.symm
    · exact (unique stem among (List.prefix_refl _)).symm
  · exact unique other besides also.starts

end

/-! ### Zero bytes -/

/-- A zero byte ends the stem, for the comparison. -/
theorem strncmp_nul {text front rest : Bytes} (text_no_nul : 0 ∉ text) (no_nul : 0 ∉ front) :
    strncmp text (front ++ 0 :: rest) (front ++ 0 :: rest).length =
      if text < front then .lt else if text = front then .eq else .gt := by
  induction front generalizing text with
  | nil =>
    cases text with
    | nil => simp [strncmp]
    | cons c text =>
      have char : c ≠ 0 := fun zero => text_no_nul (by simp [zero])
      have positive : 0 < c := UInt8.pos_iff_ne_zero.mpr char
      simp [strncmp, positive]
  | cons d front ih =>
    have char : d ≠ 0 := fun zero => no_nul (by simp [zero])
    have behind : 0 ∉ front := fun inside => no_nul (List.mem_cons_of_mem _ inside)
    cases text with
    | nil => simp [strncmp, UInt8.pos_iff_ne_zero.mpr char]
    | cons c text =>
      have text_behind : 0 ∉ text := fun inside => text_no_nul (List.mem_cons_of_mem _ inside)
      by_cases below : c < d
      · simp [strncmp, below, List.cons_lt_cons_iff]
      · by_cases above : d < c
        · simp [strncmp, below, above, List.cons_lt_cons_iff, (UInt8.ne_of_lt above).symm]
        · obtain rfl : c = d := UInt8.le_antisymm (UInt8.not_lt.mp above) (UInt8.not_lt.mp below)
          have rest_of_it := ih text_behind behind
          simp only [List.cons_append, List.length_cons, strncmp, List.headD_cons, List.tail_cons, below, if_false, char,
            List.cons_lt_cons_iff, false_or, true_and, List.cons.injEq]
          exact rest_of_it

/-- With a zero byte in the stem, the search reads behind the end of the word before that byte, if it is one. -/
theorem searchWords_nul {wordlist : List Bytes} (listed : Listed wordlist) {front rest : Bytes} (no_nul : 0 ∉ front)
    {indices : List Nat} {most : Nat} {found : Found} (order : indices.Pairwise (· < ·))
    (inside : ∀ j ∈ indices, j < wordlist.length) :
    searchWords wordlist (front ++ 0 :: rest) most indices found =
      if ∃ j ∈ indices, wordlist.getD j [] = front then .error (.error .out_of_bounds) else .ok found := by
  induction indices with
  | nil => simp [searchWords]
  | cons j later ih =>
    obtain ⟨before, order⟩ := List.pairwise_cons.mp order
    obtain ⟨here, inside⟩ := List.forall_mem_cons.mp inside
    rw [searchWords, wordlist_word_eq here, Check.ok_bind, strncmp_nul (listed.no_nul (wordlist_mem here)) no_nul]
    by_cases same : wordlist.getD j [] = front
    · have short : (wordlist.getD j []).length < (front ++ 0 :: rest).length := by
        rw [same, List.length_append, List.length_cons]
        omega
      have not_less : ¬ wordlist.getD j [] < front := same ▸ not_lt_start (List.prefix_refl _)
      have listed_here : ∃ k ∈ j :: later, wordlist.getD k [] = front := ⟨j, List.mem_cons_self, same⟩
      rw [if_neg not_less, if_pos same, if_pos listed_here]
      exact if_pos short
    · by_cases less : wordlist.getD j [] < front
      · have others : (∃ k ∈ j :: later, wordlist.getD k [] = front) ↔ ∃ k ∈ later, wordlist.getD k [] = front := by
          simp only [List.mem_cons, exists_eq_or_imp, same, false_or]
        rw [if_pos less]
        simp only [others]
        exact ih order inside
      · have nowhere : ¬ ∃ k ∈ j :: later, wordlist.getD k [] = front := by
          rintro ⟨k, among, there⟩
          obtain rfl | among := List.mem_cons.mp among
          · exact same there
          · exact less (there ▸ listed.lt (before k among) (inside k among))
        rw [if_neg less, if_neg same, if_neg nowhere]
        rfl

theorem valid_words_nul {wordlist : List Bytes} (listed : Listed wordlist) {front rest : Bytes} (no_nul : 0 ∉ front)
    (most : Nat) :
    valid_words wordlist (front ++ 0 :: rest) none most =
      if front ∈ wordlist then .error (.error .out_of_bounds)
      else .ok { num_possible_words := 0, exact_match := false, output_word_list := [] } := by
  have not_empty : ¬ ((front ++ 0 :: rest).length = 0 ∧ (none : Option (List Nat)) = none) := by simp
  have among : (∃ j ∈ List.range wordlist.length, wordlist.getD j [] = front) ↔ front ∈ wordlist := by
    constructor
    · rintro ⟨j, inside, rfl⟩
      exact wordlist_mem (List.mem_range.mp inside)
    · intro among
      obtain ⟨j, inside, same⟩ := index_of_mem among
      exact ⟨j, List.mem_range.mpr inside, same⟩
  rw [valid_words, if_neg not_empty, Option.getD_none, searchWords_nul listed no_nul List.pairwise_lt_range
    (fun j within => List.mem_range.mp within)]
  simp only [among]

end PiJade.Mnemonic
