import PiJade.MnemonicBackups

/-!
The expansion once more, as it walks through memory (`valid_words` and `expand_words` of
`main/process/mnemonic.c`, `string_all` of `main/utils/util.h`): pointers are places in the text, each byte that
is read is checked to be one of the text or of a word, or its terminator, and the assertions stand
where they are. It gives what the expansion of lists gives, and so what a phrase is.
-/
namespace PiJade.Mnemonic
open Text
set_option linter.unusedSimpArgs false

namespace Memory

/-- The byte at a place of a string, of which the terminator is the last. -/
def charAt (s : Bytes) (p : Nat) : Check Fault UInt8 :=
  if p ≤ s.length then .ok (s.getD p 0) else .error (.error .out_of_bounds)

def string_all (s : Bytes) (fntest : UInt8 → Bool) : Nat → Nat → Check Fault Bool
  | 0, _ => .error (.error .diverged)
  | fuel + 1, p => do
    let c ← charAt s p
    if c = 0 then pure true
    else if !fntest c then pure false
    else string_all s fntest fuel (p + 1)

def strchr (s : Bytes) (wanted : UInt8) : Nat → Nat → Check Fault (Option Nat)
  | 0, _ => .error (.error .diverged)
  | fuel + 1, p => do
    let c ← charAt s p
    if c = wanted then pure (some p)
    else if c = 0 then pure none
    else strchr s wanted fuel (p + 1)

/-- From the character `i` of both strings on. -/
def strncmp (wordlist_extracted s : Bytes) (word : Nat) : Nat → Nat → Check Fault Ordering
  | 0, _ => .ok .eq
  | n + 1, i => do
    let a ← charAt wordlist_extracted i
    let b ← charAt s (word + i)
    if a < b then pure .lt
    else if b < a then pure .gt
    else if a = 0 then pure .eq
    else strncmp wordlist_extracted s word n (i + 1)

def searchWords (wordlist : List Bytes) (s : Bytes) (word word_len output_word_list_len : Nat) :
    List Nat → Found → Check Fault Found
  | [], found => .ok found
  | wordlist_index :: later, found => do
    let wordlist_extracted ← wordlist_word wordlist wordlist_index
    match ← strncmp wordlist_extracted s word word_len 0 with
    | .lt => searchWords wordlist s word word_len output_word_list_len later found
    | .gt => pure found
    | .eq =>
      let c ← charAt wordlist_extracted word_len
      Check.ensure (c ≠ 0 || found.num_possible_words = 0)
      Check.ensure (c ≠ 0 || !found.exact_match)
      searchWords wordlist s word word_len output_word_list_len later (found.add wordlist_index (c = 0) output_word_list_len)

/-- `word` is a place of the text `s`. -/
def valid_words (wordlist : List Bytes) (s : Bytes) (word word_len : Nat) (filter_word_list : Option (List Nat))
    (output_word_list_len : Nat) : Check Fault Found := do
  Check.ensure (0 < output_word_list_len)
  if word_len = 0 ∧ filter_word_list = none then
    pure { num_possible_words := wordlist.length, exact_match := false, output_word_list := List.range output_word_list_len }
  else
    searchWords wordlist s word word_len output_word_list_len (filter_word_list.getD (List.range wordlist.length))
      { num_possible_words := 0, exact_match := false, output_word_list := [] }

/-- The end of the word at `read_ptr`. -/
def wordEnd (bytes : Bytes) (read_ptr : Nat) : Check Fault Nat := do
  match ← strchr bytes 32 (bytes.length + 1) read_ptr with
  | some end_ptr => pure end_ptr
  | none => do
    let c ← charAt bytes bytes.length
    Check.ensure (c = 0)
    pure bytes.length

/-- The loop, from its condition on. -/
def expandLoop (lib : Library) (bytes : Bytes) (buf_len : Nat) : Nat → Nat → Nat → Bytes → Check Fault (Option Bytes)
  | 0, _, _, _ => .error (.error .diverged)
  | fuel + 1, read_ptr, end_ptr, out => do
    let c ← charAt bytes end_ptr
    if c = 0 ∨ buf_len ≤ out.length then do
      Check.ensure (out.length ≤ buf_len)
      pure (if out.length ≠ 0 ∧ c = 0 then some out else none)
    else do
      let end_ptr ← wordEnd bytes read_ptr
      Check.ensure (end_ptr ≤ bytes.length)
      let found ← valid_words lib.wordlist bytes read_ptr (end_ptr - read_ptr) none 1
      if found.num_possible_words ≠ 1 ∧ found.exact_match = false then pure none
      else do
        let wordlist_extracted ← wordlist_word lib.wordlist (found.output_word_list.headD 0)
        if buf_len ≤ out.length + wordlist_extracted.length then pure none
        else do
          let out ← put buf_len out wordlist_extracted
          let c ← charAt bytes end_ptr
          Check.ensure (c = 32 || c = 0)
          let out ← put buf_len out [c]
          expandLoop lib bytes buf_len fuel (end_ptr + 1) end_ptr out

def expand_words (lib : Library) (bytes : Bytes) (buf_len : Nat) : Check Fault (Option Bytes) := do
  Check.ensure (0 < buf_len)
  let c ← charAt bytes bytes.length
  Check.ensure (c = 0)
  let printable ← string_all bytes isprint (bytes.length + 1) 0
  if !printable then pure none
  else expandLoop lib bytes buf_len (bytes.length + 2) 0 0 []

/-! ### Strings -/

theorem charAt_eq {s : Bytes} {p : Nat} (inside : p ≤ s.length) : charAt s p = .ok (s.getD p 0) := if_pos inside

/-- The text from a place on, character by character. -/
theorem drop_cases {s : Bytes} {p : Nat} (inside : p ≤ s.length) :
    p = s.length ∧ s.drop p = [] ∧ s.getD p 0 = 0 ∨ p < s.length ∧ s.drop p = s.getD p 0 :: s.drop (p + 1) := by
  obtain below | rfl := Nat.lt_or_eq_of_le inside
  · refine .inr ⟨below, ?_⟩
    rw [List.getD_eq_getElem _ _ below, List.drop_eq_getElem_cons below]
  · exact .inl ⟨rfl, List.drop_length, List.getD_eq_default _ _ (Nat.le_refl _)⟩

theorem string_all_eq {s : Bytes} {fntest : UInt8 → Bool} {fuel p : Nat} (inside : p ≤ s.length)
    (enough : s.length < p + fuel) : string_all s fntest fuel p = .ok (Mnemonic.string_all (s.drop p) fntest) := by
  induction fuel generalizing p with
  | zero => omega
  | succ fuel ih =>
    rw [string_all, charAt_eq inside, Check.ok_bind]
    obtain ⟨_, nothing, zero⟩ | ⟨below, more⟩ := drop_cases inside
    · rw [zero, if_pos rfl, nothing]
      rfl
    · rw [more, Mnemonic.string_all]
      by_cases zero : s.getD p 0 = 0
      · rw [zero, if_pos rfl, cstr_nul]
        rfl
      · rw [if_neg zero, cstr_cons zero, List.all_cons, ih below (by omega)]
        cases fntest (s.getD p 0) <;> rfl

theorem strchr_eq {s : Bytes} {wanted : UInt8} (char : wanted ≠ 0) {fuel p : Nat} (inside : p ≤ s.length)
    (enough : s.length < p + fuel) :
    strchr s wanted fuel p = .ok (if wanted ∈ cstr (s.drop p) then some (p + (cstr (s.drop p)).idxOf wanted) else none) := by
  induction fuel generalizing p with
  | zero => omega
  | succ fuel ih =>
    rw [strchr, charAt_eq inside, Check.ok_bind]
    obtain ⟨_, nothing, zero⟩ | ⟨below, more⟩ := drop_cases inside
    · rw [zero, if_neg char.symm, if_pos rfl, nothing]
      rfl
    · rw [more]
      by_cases here : s.getD p 0 = wanted
      · rw [here, if_pos rfl, cstr_cons char, List.idxOf_cons_self, if_pos List.mem_cons_self]
        rfl
      · rw [if_neg here]
        by_cases zero : s.getD p 0 = 0
        · rw [zero, if_pos rfl, cstr_nul]
          rfl
        · rw [if_neg zero, cstr_cons zero, ih below (by omega), List.idxOf_cons_ne _ here]
          simp only [List.mem_cons, Ne.symm here, false_or]
          congr 2
          rw [Nat.succ_eq_add_one, Nat.add_assoc, Nat.add_comm 1]

theorem strncmp_take (a b : Bytes) (n : Nat) : Text.strncmp a (b.take n) n = Text.strncmp a b n := by
  induction n generalizing a b with
  | zero => rfl
  | succ n ih =>
    cases b with
    | nil => rfl
    | cons c b =>
      rw [List.take_succ_cons, Text.strncmp, Text.strncmp, List.tail_cons, List.tail_cons, ih, List.headD_cons, List.headD_cons]

theorem headD_drop (s : Bytes) (p : Nat) : (s.drop p).headD 0 = s.getD p 0 := by
  rw [List.headD_eq_head?_getD, List.head?_drop, List.getD_eq_getElem?_getD]

/-- Neither string is read behind its terminator. -/
theorem strncmp_eq {wordlist_extracted s : Bytes} {word n i : Nat} (inside : i ≤ wordlist_extracted.length)
    (room : word + i + n ≤ s.length) :
    strncmp wordlist_extracted s word n i = .ok (Text.strncmp (wordlist_extracted.drop i) (s.drop (word + i)) n) := by
  induction n generalizing i with
  | zero => rfl
  | succ n ih =>
    rw [strncmp, charAt_eq inside, Check.ok_bind, charAt_eq (by omega), Check.ok_bind, Text.strncmp, headD_drop, headD_drop]
    by_cases below : wordlist_extracted.getD i 0 < s.getD (word + i) 0
    · rw [if_pos below, if_pos below]
      rfl
    · rw [if_neg below, if_neg below]
      by_cases above : s.getD (word + i) 0 < wordlist_extracted.getD i 0
      · rw [if_pos above, if_pos above]
        rfl
      · rw [if_neg above, if_neg above]
        obtain ⟨_, _, zero⟩ | ⟨before, _⟩ := drop_cases inside
        · rw [if_pos zero, if_pos zero]
          rfl
        · by_cases zero : wordlist_extracted.getD i 0 = 0
          · rw [if_pos zero, if_pos zero]
            rfl
          · rw [if_neg zero, if_neg zero, ih before (by omega), List.tail_drop, List.tail_drop]
            rfl

/-! ### The search and the loop -/

theorem searchWords_eq {wordlist : List Bytes} {s : Bytes} {word word_len most : Nat} (room : word + word_len ≤ s.length)
    (indices : List Nat) (found : Found) :
    searchWords wordlist s word word_len most indices found =
      Mnemonic.searchWords wordlist ((s.drop word).take word_len) most indices found := by
  have size : ((s.drop word).take word_len).length = word_len := by
    rw [List.length_take, List.length_drop]
    omega
  induction indices generalizing found with
  | nil => rfl
  | cons j later ih =>
    rw [searchWords, Mnemonic.searchWords]
    cases wordlist_word wordlist j with
    | error fault => rfl
    | ok extracted =>
      simp only [Check.ok_bind, strncmp_eq (Nat.zero_le _) (show word + 0 + word_len ≤ s.length by omega), List.drop_zero,
        Nat.add_zero, size, strncmp_take]
      cases Text.strncmp extracted (s.drop word) word_len with
      | lt => exact ih found
      | gt => rfl
      | eq =>
        simp only [charAt]
        by_cases short : extracted.length < word_len
        · rw [if_neg (Nat.not_le.mpr short), if_pos short]
          rfl
        · rw [if_pos (Nat.le_of_not_lt short), if_neg short, Check.ok_bind]
          simp only [ih, ne_eq, decide_not]

theorem valid_words_eq {wordlist : List Bytes} {s : Bytes} {word word_len most : Nat} (room : word + word_len ≤ s.length)
    (some_output : 0 < most) (filter : Option (List Nat)) :
    valid_words wordlist s word word_len filter most =
      Mnemonic.valid_words wordlist ((s.drop word).take word_len) filter most := by
  have size : ((s.drop word).take word_len).length = word_len := by
    rw [List.length_take, List.length_drop]
    omega
  rw [valid_words, Mnemonic.valid_words, decide_eq_true some_output, Check.ensure_true, Check.ok_bind, size]
  split
  · rfl
  · exact searchWords_eq room _ _

/-- The next space, or the end of the text. -/
def endOf (text : Bytes) : Nat := if 32 ∈ cstr text then (cstr text).idxOf 32 else text.length

theorem endOf_le (text : Bytes) : endOf text ≤ text.length := by
  rw [endOf]
  split
  · rename_i spaced
    exact Nat.le_trans (Nat.le_of_lt (List.idxOf_lt_length_iff.mpr spaced)) (List.takeWhile_prefix _).length_le
  · exact Nat.le_refl _

theorem wordEnd_eq {bytes : Bytes} {read_ptr : Nat} (inside : read_ptr ≤ bytes.length) :
    wordEnd bytes read_ptr = .ok (read_ptr + endOf (bytes.drop read_ptr)) := by
  have terminator : bytes.getD bytes.length 0 = 0 := List.getD_eq_default _ _ (Nat.le_refl _)
  rw [wordEnd, strchr_eq (by decide) inside (by omega), Check.ok_bind, endOf]
  by_cases spaced : 32 ∈ cstr (bytes.drop read_ptr)
  · rw [if_pos spaced, if_pos spaced]
    rfl
  · rw [if_neg spaced, if_neg spaced, List.length_drop, Nat.add_sub_cancel' inside]
    simp only [charAt_eq (Nat.le_refl _), terminator]
    rfl

/-- The character a word ends with. -/
theorem getD_endOf {bytes : Bytes} {read_ptr : Nat} (inside : read_ptr ≤ bytes.length) :
    bytes.getD (read_ptr + endOf (bytes.drop read_ptr)) 0 = if 32 ∈ cstr (bytes.drop read_ptr) then 32 else 0 := by
  rw [endOf]
  by_cases spaced : 32 ∈ cstr (bytes.drop read_ptr)
  · rw [if_pos spaced, if_pos spaced, ← headD_drop, ← List.drop_drop]
    have before := List.idxOf_lt_length_iff.mpr spaced
    have there : (cstr (bytes.drop read_ptr))[(cstr (bytes.drop read_ptr)).idxOf 32] = 32 := List.getElem_idxOf before
    have whole : cstr (bytes.drop read_ptr) ++ (bytes.drop read_ptr).dropWhile (· ≠ 0) = bytes.drop read_ptr :=
      List.takeWhile_append_dropWhile
    have first := List.getD_append _ ((bytes.drop read_ptr).dropWhile (· ≠ 0)) (0 : UInt8) _ before
    rw [whole, List.getD_eq_getElem _ _ before, there] at first
    rw [headD_drop]
    exact first
  · rw [if_neg spaced, if_neg spaced, List.length_drop, Nat.add_sub_cancel' inside]
    exact List.getD_eq_default _ _ (Nat.le_refl _)

/-- A turn of the loop over lists, by where its word ends. -/
theorem expandFrom_turn {lib : Library} {buf_len fuel : Nat} {text out : Bytes} :
    expandFrom lib buf_len (fuel + 1) text out = (
      if buf_len ≤ out.length then .ok none
      else do
        let found ← Mnemonic.valid_words lib.wordlist (text.take (endOf text)) none 1
        if found.num_possible_words ≠ 1 ∧ found.exact_match = false then pure none
        else do
          let wordlist_extracted ← wordlist_word lib.wordlist (found.output_word_list.headD 0)
          if buf_len ≤ out.length + wordlist_extracted.length then pure none
          else do
            let out ← put buf_len out wordlist_extracted
            let out ← put buf_len out [if 32 ∈ cstr text then 32 else 0]
            if 32 ∈ cstr text then expandFrom lib buf_len fuel (text.drop (endOf text + 1)) out else pure (some out)) := by
  rw [expandFrom, endOf]
  by_cases spaced : 32 ∈ cstr text
  · simp only [List.idxOf_lt_length_iff, spaced, decide_true, if_true]
  · simp only [List.idxOf_lt_length_iff, spaced, decide_false, Bool.false_eq_true, if_false, List.take_length]

/-- At the head of a turn, with a word before it that did not end the text. -/
theorem expandLoop_eq {lib : Library} {bytes : Bytes} {buf_len fuel read_ptr end_ptr : Nat} {out : Bytes}
    (inside : read_ptr ≤ bytes.length) (last : end_ptr ≤ bytes.length) (goes_on : bytes.getD end_ptr 0 ≠ 0)
    (enough : bytes.length < read_ptr + fuel) (fits : out.length ≤ buf_len) :
    expandLoop lib bytes buf_len (fuel + 1) read_ptr end_ptr out = expandFrom lib buf_len fuel (bytes.drop read_ptr) out := by
  induction fuel generalizing read_ptr end_ptr out with
  | zero => omega
  | succ fuel ih =>
    rw [expandLoop, expandFrom_turn, charAt_eq last, Check.ok_bind]
    by_cases full : buf_len ≤ out.length
    · rw [if_pos (.inr full), if_pos full, decide_eq_true fits, Check.ensure_true, Check.ok_bind,
        if_neg fun ends => goes_on ends.2]
      rfl
    · have size := endOf_le (bytes.drop read_ptr)
      rw [List.length_drop] at size
      have within : read_ptr + endOf (bytes.drop read_ptr) ≤ bytes.length := by omega
      rw [if_neg (not_or.mpr ⟨goes_on, full⟩), if_neg full, wordEnd_eq inside, Check.ok_bind, decide_eq_true within,
        Check.ensure_true, Check.ok_bind, Nat.add_sub_cancel_left, valid_words_eq within Nat.one_pos]
      cases Mnemonic.valid_words lib.wordlist ((bytes.drop read_ptr).take (endOf (bytes.drop read_ptr))) none 1 with
      | error fault => rfl
      | ok found =>
        simp only [Check.ok_bind]
        congr 1
        cases wordlist_word lib.wordlist (found.output_word_list.headD 0) with
        | error fault => rfl
        | ok word =>
          simp only [Check.ok_bind]
          by_cases long : buf_len ≤ out.length + word.length
          · rw [if_pos long, if_pos long]
          · have one_more : (out ++ word).length + 1 ≤ buf_len := by
              rw [List.length_append]
              omega
            have room (c : UInt8) : (out ++ word ++ [c]).length ≤ buf_len := by
              rw [List.length_append, List.length_singleton]
              exact one_more
            rw [if_neg long, if_neg long, put_eq (by omega), Check.ok_bind, charAt_eq within, Check.ok_bind, getD_endOf inside]
            simp only [Check.ok_bind, put_eq (show (out ++ word).length + [_].length ≤ buf_len from one_more)]
            by_cases spaced : 32 ∈ cstr (bytes.drop read_ptr)
            · have char := getD_endOf inside
              rw [if_pos spaced] at char
              have before : read_ptr + endOf (bytes.drop read_ptr) < bytes.length := by
                obtain ⟨_, _, zero⟩ | ⟨below, _⟩ := drop_cases within
                · rw [zero] at char
                  cases char
                · exact below
              have next := @ih (read_ptr + endOf (bytes.drop read_ptr) + 1) (read_ptr + endOf (bytes.drop read_ptr))
                (out ++ word ++ [32]) before within (by rw [char]; decide) (by omega) (room 32)
              simp only [if_pos spaced, List.drop_drop]
              exact next
            · have terminator : bytes.getD bytes.length 0 = 0 := List.getD_eq_default _ _ (Nat.le_refl _)
              have ends : endOf (bytes.drop read_ptr) = bytes.length - read_ptr := by
                rw [endOf, if_neg spaced, List.length_drop]
              simp only [if_neg spaced, ends, Nat.add_sub_cancel' inside]
              rw [expandLoop, charAt_eq (Nat.le_refl _), Check.ok_bind, terminator, if_pos (.inl rfl)]
              simp only [room, decide_true, Check.ensure_true, Check.ok_bind]
              simp

/-- The expansion reads nothing but the text, its words and their terminators, and gives what that of lists gives. -/
theorem expand_words_eq {lib : Library} {buf_len : Nat} (some_room : 0 < buf_len) (bytes : Bytes) :
    expand_words lib bytes buf_len = Mnemonic.expand_words lib bytes buf_len := by
  have terminator : bytes.getD bytes.length 0 = 0 := List.getD_eq_default _ _ (Nat.le_refl _)
  rw [expand_words, Mnemonic.expand_words, decide_eq_true some_room, Check.ensure_true, Check.ok_bind,
    charAt_eq (Nat.le_refl _), Check.ok_bind, terminator, string_all_eq (Nat.zero_le _) (by omega), List.drop_zero]
  simp only [decide_true, Check.ensure_true, Check.ok_bind]
  congr 1
  by_cases first : bytes.getD 0 0 = 0
  · have nothing : (cstr bytes).length = 0 := by
      obtain ⟨_, empty, _⟩ | ⟨_, more⟩ := drop_cases (Nat.zero_le bytes.length)
      · rw [List.drop_zero] at empty
        rw [empty]
        rfl
      · rw [List.drop_zero, first] at more
        rw [more, cstr_nul]
        rfl
    rw [if_pos nothing, expandLoop, charAt_eq (Nat.zero_le _), Check.ok_bind, if_pos (.inl first)]
    rfl
  · obtain ⟨_, _, zero⟩ | ⟨some_text, more⟩ := drop_cases (Nat.zero_le bytes.length)
    · exact absurd zero first
    · have something : (cstr bytes).length ≠ 0 := by
        rw [List.drop_zero] at more
        rw [more, cstr_cons first]
        simp
      rw [if_neg something, expandLoop_eq (Nat.zero_le _) (Nat.zero_le _) first (by omega) (Nat.zero_le _), List.drop_zero]

end Memory

/-! ### What is accepted -/

/-- What is read of the text is either no word or the words of its stems, and nothing else is read or written. -/
def ExpandsExactly (lib : Library) (bytes : Bytes) (buf_len : Nat) : Prop :=
  ∃ given, Memory.expand_words lib bytes buf_len = .ok given ∧ ∀ out, given = some out ↔ Accepts lib buf_len bytes [] out

/-- The search for the characters from a place on gives the count, the first word and the exact match of a scan. -/
def SearchesAll (wordlist : List Bytes) (s : Bytes) (word word_len output_word_list_len : Nat) : Prop :=
  ∃ found, Memory.valid_words wordlist s word word_len none output_word_list_len = .ok found ∧
    found.num_possible_words =
      (scan wordlist ((s.drop word).take word_len) (List.range wordlist.length) output_word_list_len).num_possible_words ∧
    found.exact_match =
      (scan wordlist ((s.drop word).take word_len) (List.range wordlist.length) output_word_list_len).exact_match ∧
    found.output_word_list.head? =
      (scan wordlist ((s.drop word).take word_len) (List.range wordlist.length) output_word_list_len).output_word_list.head?

theorem expandsExactly_iff {lib : Library} (listed : Listed lib.wordlist) {buf_len : Nat} (some_room : 0 < buf_len)
    (bytes : Bytes) : ExpandsExactly lib bytes buf_len ↔ ¬ Misread lib buf_len bytes 0 := by
  rw [ExpandsExactly, Memory.expand_words_eq some_room]
  obtain ⟨misread, run⟩ | ⟨sound, expanded⟩ := @expand_words_spec _ buf_len listed bytes
  · rw [run]
    exact ⟨fun ⟨_, returned, _⟩ => (nomatch returned), fun sound => absurd misread sound⟩
  · exact ⟨fun _ => sound, fun _ => expanded⟩

/-- A scan for a text with a zero byte, or for no text at all. -/
theorem scan_nul {wordlist : List Bytes} (listed : Listed wordlist) {stem : Bytes} (nul : 0 ∈ stem) (most : Nat) :
    scan wordlist stem (List.range wordlist.length) most =
      { num_possible_words := 0, exact_match := false, output_word_list := [] } := by
  have nothing : ∀ j ∈ List.range wordlist.length, ¬ stem <+: wordlist.getD j [] := by
    intro j inside starts
    exact listed.no_nul (wordlist_mem (List.mem_range.mp inside)) (starts.subset nul)
  have found := @Found.and_nothing _ _ ⟨0, false, []⟩ _ most nothing
  simpa [Found.and, scan] using found

theorem scan_nil {wordlist : List Bytes} (listed : Listed wordlist) (most : Nat) :
    scan wordlist [] (List.range wordlist.length) most =
      { num_possible_words := wordlist.length, exact_match := false
        output_word_list := (List.range wordlist.length).take most } := by
  have all : hits wordlist [] (List.range wordlist.length) = List.range wordlist.length := by
    simp [hits]
  have inexact : ((List.range wordlist.length).any fun j => decide (wordlist.getD j [] = [])) = false := by
    rw [List.any_eq_false]
    intro j inside empty
    have three := (listed.letters _ (wordlist_mem (List.mem_range.mp inside))).1
    rw [of_decide_eq_true empty] at three
    simp at three
  simp only [scan, all, inexact, List.length_range]

theorem searchesAll_iff {wordlist : List Bytes} (listed : Listed wordlist) {s : Bytes} {word word_len most : Nat}
    (room : word + word_len ≤ s.length) (some_output : 0 < most) :
    SearchesAll wordlist s word word_len most ↔
      ¬ ∃ entry ∈ wordlist, ∃ rest, (s.drop word).take word_len = entry ++ 0 :: rest := by
  rw [SearchesAll, Memory.valid_words_eq room some_output]
  generalize (s.drop word).take word_len = stem
  by_cases nul : 0 ∈ stem
  · obtain ⟨rest, split⟩ := cstr_cut nul
    have no_nul : 0 ∉ cstr stem := fun inside => by simpa using List.mem_takeWhile_imp inside
    have search := @valid_words_nul _ listed _ rest no_nul most
    rw [← split] at search
    by_cases among : cstr stem ∈ wordlist
    · rw [search, if_pos among]
      exact ⟨fun ⟨_, returned, _⟩ => (nomatch returned), fun sound => absurd ⟨_, among, rest, split⟩ sound⟩
    · rw [search, if_neg among, scan_nul listed nul]
      refine ⟨fun _ ⟨entry, listed_entry, other, same⟩ => among ?_, fun _ => ⟨_, rfl, rfl, rfl, rfl⟩⟩
      obtain ⟨same, _, _⟩ := split_unique (listed.no_nul listed_entry) no_nul (split.symm.trans same)
      exact same ▸ listed_entry
  · have sound : ¬ ∃ entry ∈ wordlist, ∃ rest, stem = entry ++ 0 :: rest := by
      rintro ⟨entry, _, rest, rfl⟩
      exact nul (by simp)
    refine ⟨fun _ => sound, fun _ => ?_⟩
    by_cases filled : stem = []
    · have count := listed.count
      refine ⟨⟨wordlist.length, false, List.range most⟩, by simp [valid_words, filled], ?_⟩
      rw [filled, scan_nil listed]
      refine ⟨rfl, rfl, ?_⟩
      rw [List.take_range, List.head?_range, List.head?_range, if_neg (by omega), if_neg (by omega)]
    · exact ⟨_, valid_words_scan listed nul filled most, rfl, rfl, rfl⟩

/-- A text is expanded exactly if it is a phrase that fits, unless a zero byte is behind a whole word; and the search gives
    what a scan gives unless a zero byte is behind the word that is searched for. -/
theorem expands_exactly_its_grammar_iff {lib : Library} (listed : Listed lib.wordlist) :
    (∀ bytes buf_len, 0 < buf_len → (ExpandsExactly lib bytes buf_len ↔ ¬ Misread lib buf_len bytes 0)) ∧
    ∀ s word word_len output_word_list_len, word + word_len ≤ s.length → 0 < output_word_list_len →
      (SearchesAll lib.wordlist s word word_len output_word_list_len ↔
        ¬ ∃ entry ∈ lib.wordlist, ∃ rest, (s.drop word).take word_len = entry ++ 0 :: rest) :=
  ⟨fun bytes _ some_room => expandsExactly_iff listed some_room bytes,
    fun _ _ _ _ room some_output => searchesAll_iff listed room some_output⟩

theorem Misread.nul {lib : Library} {buf_len : Nat} {text : Bytes} {written : Nat}
    (misread : Misread lib buf_len text written) : 0 ∈ text := by
  obtain ⟨_, _, _, rest, _, _, rfl, _⟩ := misread
  simp

/-- `aban able` -/
def shortText : Bytes := ['a', 'b', 'a', 'n', ' ', 'a', 'b', 'l', 'e'].map Char.toUInt8

theorem expands_exactly_shortText :
    ExpandsExactly sample shortText MNEMONIC_BUFLEN ∧ SearchesAll sample.wordlist shortText 5 4 1 := by
  have no_nul : 0 ∉ shortText := by decide
  refine ⟨((expands_exactly_its_grammar_iff sample_lawful.listed).1 _ _ (by decide)).mpr fun misread => no_nul misread.nul,
    ((expands_exactly_its_grammar_iff sample_lawful.listed).2 _ _ _ _ (by decide) (by decide)).mpr ?_⟩
  rintro ⟨entry, _, rest, same⟩
  have inside : 0 ∈ (shortText.drop 5).take 4 := same ▸ List.mem_append_right _ List.mem_cons_self
  exact no_nul (List.mem_of_mem_drop (List.mem_of_mem_take inside))

/-- `abandon`, a zero byte and an `x`: the ninth character of the word is read, which has seven and its terminator. -/
def nulText : Bytes := firstWords.getD 0 [] ++ [0, 'x'.toUInt8]

theorem nulText_reads_behind_word :
    Listed sample.wordlist ∧ nulText.length = 9 ∧ Mnemonic.string_all nulText isprint = true ∧
      Memory.expand_words sample nulText MNEMONIC_BUFLEN = .error (.error .out_of_bounds) ∧
      (∀ out, ¬ Accepts sample MNEMONIC_BUFLEN nulText [] out) ∧ ¬ ExpandsExactly sample nulText MNEMONIC_BUFLEN := by
  have listed := sample_lawful.listed
  have among : firstWords.getD 0 [] ∈ sample.wordlist := sample_mem.mpr (.inl (by decide))
  have misread : Misread sample MNEMONIC_BUFLEN nulText 0 :=
    ⟨[], [], firstWords.getD 0 [], ['x'.toUInt8], .nil, among, by decide, by decide⟩
  refine ⟨listed, by decide, by decide, ?_, fun out accepts => accepts.no_nul listed misread.nul, ?_⟩
  · rw [Memory.expand_words_eq (by decide)]
    obtain ⟨_, run⟩ | ⟨sound, _⟩ := @expand_words_spec _ MNEMONIC_BUFLEN listed nulText
    · exact run
    · exact absurd misread sound
  · rw [expandsExactly_iff listed (by decide)]
    exact not_not.mpr misread

end PiJade.Mnemonic
