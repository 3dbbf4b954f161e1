import PiJade.Slip39English
import PiJade.Slip39Feistel

/-!
The word lookup of SLIP39 in memory (`main/slip39.c`). An entry of the list is its letters and a
terminator, a word is so many bytes; a read behind either of them, an entry outside the list and a
search that does not end are errors.
-/
namespace PiJade.Slip39.Memory
open DescriptorText.Memory (Exit charAt At)
set_option linter.unusedSimpArgs false

/-- The loop of `wordlist_cmp`, with so many bytes of the word left. -/
def compare (entry word : Bytes) : Nat → Nat → Except Exit Int
  | 0, i => do
    let e ← charAt entry i
    return if e ≠ 0 then 1 else 0
  | left + 1, i => do
    let e ← charAt entry i
    let c ← charAt word i
    let c := lower c
    if e ≠ c then return if e < c then -1 else 1
    else if e = 0 then return -1
    else compare entry word left (i + 1)

def wordlist_cmp (entry word : Bytes) (word_len : Nat) : Except Exit Int := compare entry word word_len 0

/-- `SLIP39_WORDLIST[i]`. -/
def entryAt (i : Nat) : Except Exit Bytes :=
  match ENGLISH[i]? with
  | some letters => .ok (wordBytes letters ++ [0])
  | none => .error .out_of_bounds

def search (word : Bytes) (word_len : Nat) : Nat → Nat → Nat → Except Exit (Option UInt16)
  | 0, _, _ => .error .diverged
  | rounds + 1, lo, hi =>
    if lo < hi then do
      let mid := lo + (hi - lo) / 2
      let entry ← entryAt mid
      let cmp ← wordlist_cmp entry word word_len
      if cmp = 0 then return some (UInt16.ofNat mid)
      else if cmp < 0 then search word word_len rounds (mid + 1) hi
      else search word word_len rounds lo mid
    else return none

def slip39_word_index (word : Bytes) (word_len : Nat) : Except Exit (Option UInt16) :=
  if word_len = 0 then return none else search word word_len (SLIP39_WORD_COUNT + 1) 0 SLIP39_WORD_COUNT

/-! ### Reading -/

/-- The sign of a comparison. -/
def sign : Ordering → Int
  | .lt => -1
  | .eq => 0
  | .gt => 1

theorem compare_at {text word : Bytes} : ∀ {entry later : Bytes} {i : Nat}, At text i (entry ++ [0]) → At word i later →
    compare text word later.length i = .ok (sign (Slip39.wordlist_cmp entry later))
  | [], [], i, here, _ => by
    rw [List.length_nil, compare, here.charAt, ok_bind]
    rfl
  | e :: entry, [], i, here, _ => by
    rw [List.length_nil, compare, At.charAt here, ok_bind, Slip39.wordlist_cmp, List.headD_cons]
    by_cases ended : e = 0
    · rw [if_neg (not_not_intro ended), if_neg (not_not_intro ended)]
      rfl
    · rw [if_pos ended, if_pos ended]
      rfl
  | [], c :: later, i, here, there => by
    -- The terminator stops the comparison, whatever stands in the word.
    rw [List.length_cons, compare, here.charAt, ok_bind, there.charAt, ok_bind, Slip39.wordlist_cmp, List.headD_nil]
    dsimp only
    by_cases same : (0 : UInt8) = lower c
    · rw [if_neg (not_not_intro same), if_pos rfl, if_neg (not_not_intro same), if_pos rfl]
      rfl
    · rw [if_pos same, if_pos same]
      split
      all_goals rfl
  | e :: entry, c :: later, i, here, there => by
    rw [List.length_cons, compare, At.charAt here, ok_bind, there.charAt, ok_bind, Slip39.wordlist_cmp, List.headD_cons,
      List.tail_cons]
    dsimp only
    by_cases same : e = lower c
    · rw [if_neg (not_not_intro same), if_neg (not_not_intro same)]
      by_cases ended : e = 0
      · rw [if_pos ended, if_pos ended]
        rfl
      · rw [if_neg ended, if_neg ended]
        exact compare_at (At.next here) there.next
    · rw [if_pos same, if_pos same]
      split
      all_goals rfl

theorem wordlist_cmp_eq (entry word : Bytes) :
    wordlist_cmp (entry ++ [0]) word word.length = .ok (sign (Slip39.wordlist_cmp entry word)) :=
  compare_at ⟨Nat.zero_le _, rfl⟩ ⟨Nat.zero_le _, rfl⟩

theorem entryAt_eq {i : Nat} (listed : i < SLIP39_WORD_COUNT) : entryAt i = .ok (SLIP39_WORDLIST i ++ [0]) := by
  have inside : i < ENGLISH.length := by rwa [english_count]
  rw [entryAt, SLIP39_WORDLIST, List.getD_eq_getElem?_getD, List.getElem?_eq_getElem inside, Option.getD_some]

/-- The search stays in the list, and each round leaves less of it. -/
theorem search_eq (word : Bytes) : ∀ {rounds lo hi : Nat}, hi ≤ SLIP39_WORD_COUNT → hi - lo ≤ rounds →
    search word word.length (rounds + 1) lo hi = .ok (Slip39.search SLIP39_WORDLIST word rounds lo hi)
  | 0, lo, hi, _, ended => by
    rw [search, if_neg (by omega)]
    rfl
  | rounds + 1, lo, hi, inside, enough => by
    rw [search, Slip39.search]
    by_cases more : lo < hi
    · have middle : lo + (hi - lo) / 2 < hi := by omega
      rw [if_pos more, if_pos more]
      dsimp only
      rw [entryAt_eq (Nat.lt_of_lt_of_le middle inside), ok_bind, wordlist_cmp_eq, ok_bind]
      cases Slip39.wordlist_cmp (SLIP39_WORDLIST (lo + (hi - lo) / 2)) word with
      | eq => rfl
      | lt => exact search_eq word inside (by omega)
      | gt => exact search_eq word (by omega) (by omega)
    · rw [if_neg more, if_neg more]
      rfl

theorem slip39_word_index_eq (word : Bytes) :
    slip39_word_index word word.length = .ok (Slip39.slip39_word_index SLIP39_WORDLIST word) := by
  rw [slip39_word_index, Slip39.slip39_word_index]
  by_cases empty : word.length = 0
  · rw [if_pos empty, if_pos empty]
    rfl
  · rw [if_neg empty, if_neg empty]
    exact search_eq word (Nat.le_refl _) (Nat.le_refl _)

/-! ### What is found -/

/-- No word of the list begins another. -/
theorem eq_of_wordlist_le {i j : Nat} (i_listed : i < SLIP39_WORD_COUNT) (j_listed : j < SLIP39_WORD_COUNT)
    (begins : SLIP39_WORDLIST i <+: SLIP39_WORDLIST j) : i = j := by
  obtain ⟨behind, whole⟩ := begins
  have same : (SLIP39_WORDLIST i).take 4 = (SLIP39_WORDLIST j).take 4 := by
    rw [← whole, List.take_append_of_le_length (wordlist_checked i_listed).1]
  rcases Nat.lt_trichotomy i j with below | equal | above
  · exact absurd (same ▸ take_wordlist_lt below j_listed) (List.lt_irrefl _)
  · exact equal
  · exact absurd (same ▸ take_wordlist_lt above i_listed) (List.lt_irrefl _)

/-- A letter of the alphabet, in either case. -/
def Letter (c : UInt8) : Prop := 65 ≤ c ∧ c ≤ 90 ∨ 97 ≤ c ∧ c ≤ 122

theorem letter_of_lower {c : UInt8} (small : 97 ≤ (lower c).toNat ∧ (lower c).toNat ≤ 122) : Letter c := by
  unfold lower at small
  by_cases capital : 65 ≤ c ∧ c ≤ 90
  · exact .inl capital
  · rw [if_neg capital] at small
    exact .inr ⟨UInt8.le_iff_toNat_le.mpr small.1, UInt8.le_iff_toNat_le.mpr small.2⟩

theorem letters_of_entry {word : Bytes} {i : Nat} (listed : i < SLIP39_WORD_COUNT)
    (entry : word.map lower = SLIP39_WORDLIST i) : ∀ c ∈ word, Letter c := by
  intro c mem
  have among : lower c ∈ SLIP39_WORDLIST i := entry ▸ List.mem_map_of_mem mem
  exact letter_of_lower (wordlist_letter listed among)

/-- What begins an entry or goes on behind one, without being it, is none. -/
theorem none_of_part {word : Bytes} {i : Nat} (listed : i < SLIP39_WORD_COUNT) (other : word.map lower ≠ SLIP39_WORDLIST i)
    (part : word.map lower <+: SLIP39_WORDLIST i ∨ SLIP39_WORDLIST i <+: word.map lower) :
    Slip39.slip39_word_index SLIP39_WORDLIST word = none := by
  rw [Option.eq_none_iff_forall_ne_some]
  intro index found
  obtain ⟨index_listed, entry⟩ := (slip39_word_index_eq_some word index).mp found
  rw [entry] at part other
  rcases part with begins | goes_on
  · exact other (congrArg SLIP39_WORDLIST (eq_of_wordlist_le index_listed listed begins))
  · exact other (congrArg SLIP39_WORDLIST (eq_of_wordlist_le listed index_listed goes_on)).symm

theorem none_of_other {word : Bytes} {c : UInt8} (mem : c ∈ word) (other : ¬ Letter c) :
    Slip39.slip39_word_index SLIP39_WORDLIST word = none := by
  rw [Option.eq_none_iff_forall_ne_some]
  intro index found
  obtain ⟨listed, entry⟩ := (slip39_word_index_eq_some word index).mp found
  exact other (letters_of_entry listed entry c mem)

/-- A byte string is found as the entry that it is in whatever case: no part of an entry, no longer word and none with
another byte than a letter, and every comparison stays within its entry and the word. -/
theorem slip39_word_index_exact (word : Bytes) : ∃ found, slip39_word_index word word.length = .ok found ∧
    (∀ index, found = some index ↔
      index.toNat < SLIP39_WORD_COUNT ∧ word.map lower = (SLIP39_WORDLIST index.toNat).map lower) ∧
    (∀ i < SLIP39_WORD_COUNT, word.map lower ≠ SLIP39_WORDLIST i →
      word.map lower <+: SLIP39_WORDLIST i ∨ SLIP39_WORDLIST i <+: word.map lower → found = none) ∧
    (∀ c ∈ word, c = 0 ∨ ¬ Letter c → found = none) ∧
    ∀ i < SLIP39_WORD_COUNT, ∃ cmp, (do let entry ← entryAt i; wordlist_cmp entry word word.length) = .ok cmp := by
  refine ⟨Slip39.slip39_word_index SLIP39_WORDLIST word, slip39_word_index_eq word, ?_, ?_, ?_, ?_⟩
  · intro index
    rw [slip39_word_index_eq_some]
    constructor
    · rintro ⟨listed, entry⟩
      exact ⟨listed, by rw [lower_entry listed, entry]⟩
    · rintro ⟨listed, entry⟩
      exact ⟨listed, by rw [entry, lower_entry listed]⟩
  · intro i listed other part
    exact none_of_part listed other part
  · rintro c mem (rfl | other)
    · exact none_of_other mem (by rintro (⟨capital, _⟩ | ⟨small, _⟩) <;> contradiction)
    · exact none_of_other mem other
  · intro i listed
    rw [entryAt_eq listed, ok_bind]
    exact ⟨_, wordlist_cmp_eq _ _⟩

end PiJade.Slip39.Memory
