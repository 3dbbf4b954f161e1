import PiJade.Process
import PiJade.Text

/-!
The gate in front of the UR decoder (`bcur_sequence_component_ok` of `main/bcur.c`). The decoder
converts the two numbers of a sequence component with `std::stoul`, which throws on a text that
is no number or too large, and nothing catches that. The gate splits a text as the decoder does
and looks at the numbers first.
-/
namespace PiJade.Bcur
open Text
set_option linter.unusedSimpArgs false

/-! ### Words between separators -/

/-- The words of a text, as a split that drops empty ones returns them. -/
def wordsOf (sep : UInt8) (s : Bytes) : List Bytes := (s.splitOn sep).filter (· ≠ [])

@[simp] theorem wordsOf_nil (sep : UInt8) : wordsOf sep [] = [] := by simp [wordsOf]

@[simp] theorem wordsOf_cons_self (sep : UInt8) (s : Bytes) : wordsOf sep (sep :: s) = wordsOf sep s := by
  have split := List.splitOn_append_cons_self_of_not_mem (List.not_mem_nil : sep ∉ []) s
  rw [List.nil_append] at split
  simp [wordsOf, split]

theorem wordsOf_single {sep : UInt8} {word : Bytes} (filled : word ≠ []) (no_sep : sep ∉ word) :
    wordsOf sep word = [word] := by
  simp [wordsOf, List.splitOn_eq_singleton no_sep, filled]

theorem wordsOf_append {sep : UInt8} {word s : Bytes} (filled : word ≠ []) (no_sep : sep ∉ word) :
    wordsOf sep (word ++ sep :: s) = word :: wordsOf sep s := by
  simp [wordsOf, List.splitOn_append_cons_self_of_not_mem no_sep, filled]

theorem wordsOf_dropWhile (sep : UInt8) (s : Bytes) : wordsOf sep (s.dropWhile (· = sep)) = wordsOf sep s := by
  induction s with
  | nil => rfl
  | cons c rest ih =>
    by_cases same : c = sep
    · simp [same, ih]
    · simp [same]

/-- The first word, and the text behind it. -/
theorem wordsOf_first {sep : UInt8} {s : Bytes} (filled : s ≠ []) (word_first : s.head? ≠ some sep) :
    wordsOf sep s = s.takeWhile (· ≠ sep) :: wordsOf sep (s.dropWhile (· ≠ sep)) := by
  have no_sep : sep ∉ s.takeWhile (· ≠ sep) := fun inside => by simpa using List.mem_takeWhile_imp inside
  have nonempty : s.takeWhile (· ≠ sep) ≠ [] := by
    match s, filled, word_first with
    | c :: rest, _, other =>
      have other : c ≠ sep := by simpa using other
      simp [other]
  generalize before : s.takeWhile (· ≠ sep) = word at *
  generalize behind : s.dropWhile (· ≠ sep) = rest at *
  have whole : s = word ++ rest := by rw [← before, ← behind, List.takeWhile_append_dropWhile]
  match rest, behind with
  | [], _ =>
    rw [whole, List.append_nil, wordsOf_single nonempty no_sep, wordsOf_nil]
  | c :: later, behind =>
    have at_sep : c = sep := by
      have head := List.head?_dropWhile_not (· ≠ sep) s
      rw [behind] at head
      simpa using head
    rw [whole, at_sep, wordsOf_append nonempty no_sep, wordsOf_cons_self]

/-! ### The gate -/

def BCUR_SEQ_LEN_MAX : Nat := 4096
def UINT32_MAX : Nat := 2 ^ 32 - 1

/-- An accumulation past 64 bits. -/
inductive Wrap where
  | wrapped
  deriving DecidableEq, Repr

/-- The digits of one half, from a value on. -/
def halfDigits (maximum : Nat) : Nat → Bytes → Check Wrap Bool
  | _, [] => .ok true
  | value, c :: rest =>
    if !isdigit c then .ok false
    else
      let next := value * 10 + (c.toNat - 48)
      if 2 ^ 64 ≤ next then .error (.error .wrapped)
      else if maximum < next then .ok false
      else halfDigits maximum next rest

def halfOk (maximum : Nat) (half : Bytes) : Check Wrap Bool :=
  if half = [] then .ok false else halfDigits maximum 0 half

/-- What stands before the first dash, and behind it. -/
def bcur_seq_halves_ok (component : Bytes) : Check Wrap Bool :=
  match component.dropWhile (· ≠ '-'.toUInt8) with
  | [] => .ok true
  | _ :: behind => do
    let first ← halfOk UINT32_MAX (component.takeWhile (· ≠ '-'.toUInt8))
    if first then halfOk BCUR_SEQ_LEN_MAX behind else pure false

/-- At most so many components, empty ones skipped. -/
def walkComponents : Nat → Bytes → List Bytes
  | 0, _ => []
  | left + 1, p =>
    let start := p.dropWhile (· = '/'.toUInt8)
    if start = [] then []
    else start.takeWhile (· ≠ '/'.toUInt8) :: walkComponents left (start.dropWhile (· ≠ '/'.toUInt8))

def bcur_sequence_component_ok (bcur : Bytes) : Check Wrap Bool :=
  match bcur.dropWhile (· ≠ ':'.toUInt8) with
  | [] => .ok true
  | _ :: behind =>
    match walkComponents 4 behind with
    | [_, sequence, _] => bcur_seq_halves_ok sequence
    | _ => .ok true

/-! ### The decoder -/

/-- The two pieces that the decoder converts, if it gets there. -/
def decoderPieces (bcur : Bytes) : Option (Bytes × Bytes) :=
  if (bcur.take 3).map tolower ≠ ['u'.toUInt8, 'r'.toUInt8, ':'.toUInt8] then none
  else
    match wordsOf '/'.toUInt8 (bcur.drop 3) with
    | [_, sequence, _] =>
      match wordsOf '-'.toUInt8 sequence with
      | [first, second] => some (first, second)
      | _ => none
    | _ => none

/-- The least `ULONG_MAX` there is, that of a 32 bit machine. -/
def ULONG_MAX : Nat := 2 ^ 32 - 1

/-- `std::stoul`: none where it throws. -/
def stoul (s : Bytes) : Option Nat :=
  let signed := s.dropWhile isspace
  let negative := signed.head? = some '-'.toUInt8
  let unsigned := if negative ∨ signed.head? = some '+'.toUInt8 then signed.tail else signed
  let digits := unsigned.takeWhile isdigit
  if digits = [] ∨ ULONG_MAX < number digits then none
  else some (if negative then (ULONG_MAX + 1 - number digits) % (ULONG_MAX + 1) else number digits)

/-! ### What the gate lets through -/

/-- A number of at most so much, in decimal digits. -/
structure Numeral (maximum : Nat) (piece : Bytes) : Prop where
  filled : piece ≠ []
  digits : ∀ c ∈ piece, isdigit c = true
  most : number piece ≤ maximum

theorem foldl_digits_le (digits : Bytes) (value : Nat) :
    value ≤ digits.foldl (fun n c => n * 10 + (c.toNat - 48)) value := by
  induction digits generalizing value with
  | nil => exact Nat.le_refl _
  | cons c rest ih => exact (by omega : value ≤ value * 10 + (c.toNat - 48)).trans (ih _)

/-- The loop ends without wrapping, and passes digits that make no more than the maximum. -/
theorem halfDigits_eq {maximum value : Nat} (small : maximum < 2 ^ 32) (below : value ≤ maximum) (half : Bytes) :
    halfDigits maximum value half =
      .ok (half.all isdigit && decide (half.foldl (fun n c => n * 10 + (c.toNat - 48)) value ≤ maximum)) := by
  induction half generalizing value with
  | nil => simp [halfDigits, below]
  | cons c rest ih =>
    rw [halfDigits]
    cases digit : isdigit c with
    | false => simp [digit]
    | true =>
      have bounds := isdigit_iff.mp digit
      have no_wrap : ¬ 2 ^ 64 ≤ value * 10 + (c.toNat - 48) := by omega
      simp only [Bool.not_true, Bool.false_eq_true, ↓reduceIte, no_wrap]
      by_cases exceeds : maximum < value * 10 + (c.toNat - 48)
      · have more := foldl_digits_le rest (value * 10 + (c.toNat - 48))
        have not_below : ¬ rest.foldl (fun n c => n * 10 + (c.toNat - 48)) (value * 10 + (c.toNat - 48)) ≤ maximum := by
          omega
        simp [exceeds, digit, not_below]
      · rw [if_neg exceeds, ih (Nat.le_of_not_lt exceeds), List.all_cons, digit, Bool.true_and]
        rfl

theorem halfOk_eq {maximum : Nat} (small : maximum < 2 ^ 32) (half : Bytes) :
    ∃ passed, halfOk maximum half = .ok passed ∧ (passed = true ↔ Numeral maximum half) := by
  by_cases empty : half = []
  · refine ⟨false, by simp [halfOk, empty], ?_⟩
    constructor
    · intro impossible
      cases impossible
    · intro numeral
      exact absurd empty numeral.filled
  · refine ⟨_, by rw [halfOk, if_neg empty, halfDigits_eq small (Nat.zero_le _)], ?_⟩
    rw [Bool.and_eq_true, List.all_eq_true, decide_eq_true_eq]
    constructor
    · rintro ⟨digits, most⟩
      exact ⟨empty, digits, most⟩
    · intro numeral
      exact ⟨numeral.digits, numeral.most⟩

/-- Two numbers with a dash between them. -/
def Sequence (component : Bytes) : Prop :=
  ∃ first second, component = first ++ '-'.toUInt8 :: second ∧ Numeral UINT32_MAX first ∧ Numeral BCUR_SEQ_LEN_MAX second

theorem numeral_no_dash {maximum : Nat} {piece : Bytes} (numeral : Numeral maximum piece) : '-'.toUInt8 ∉ piece := by
  intro inside
  have digit := numeral.digits _ inside
  simp [isdigit, Char.toUInt8] at digit

theorem takeWhile_before_dash {first second : Bytes} (no_dash : '-'.toUInt8 ∉ first) :
    (first ++ '-'.toUInt8 :: second).takeWhile (· ≠ '-'.toUInt8) = first ∧
      (first ++ '-'.toUInt8 :: second).dropWhile (· ≠ '-'.toUInt8) = '-'.toUInt8 :: second := by
  have all : ∀ c ∈ first, decide (c ≠ '-'.toUInt8) = true := by
    intro c inside
    simp
    rintro rfl
    exact no_dash inside
  constructor
  · rw [List.takeWhile_append_of_pos all]
    simp
  · rw [List.dropWhile_append_of_pos all]
    simp

/-- A component passes without a dash, or as two numbers. -/
theorem bcur_seq_halves_ok_eq (component : Bytes) :
    ∃ passed, bcur_seq_halves_ok component = .ok passed ∧
      (passed = true ↔ '-'.toUInt8 ∉ component ∨ Sequence component) := by
  by_cases dash : '-'.toUInt8 ∈ component
  · obtain ⟨first, second, rfl, no_dash⟩ := List.eq_append_cons_of_mem dash
    obtain ⟨before, behind⟩ := @takeWhile_before_dash first second no_dash
    obtain ⟨passedFirst, firstOk, firstIff⟩ := @halfOk_eq UINT32_MAX (by decide) first
    obtain ⟨passedSecond, secondOk, secondIff⟩ := @halfOk_eq BCUR_SEQ_LEN_MAX (by decide) second
    have sequence : Sequence (first ++ '-'.toUInt8 :: second) ↔
        Numeral UINT32_MAX first ∧ Numeral BCUR_SEQ_LEN_MAX second := by
      constructor
      · rintro ⟨other, later, same, numeral, numeralLater⟩
        obtain ⟨beforeOther, behindOther⟩ := @takeWhile_before_dash other later (numeral_no_dash numeral)
        rw [← same, before] at beforeOther
        rw [← same, behind] at behindOther
        cases behindOther
        exact ⟨beforeOther ▸ numeral, numeralLater⟩
      · rintro ⟨numeral, numeralLater⟩
        exact ⟨first, second, rfl, numeral, numeralLater⟩
    refine ⟨passedFirst && passedSecond, ?_, ?_⟩
    · rw [bcur_seq_halves_ok, before, behind]
      simp only [firstOk, Check.ok_bind]
      cases passedFirst with
      | true => simp [secondOk]
      | false => simp
    · rw [sequence, Bool.and_eq_true, firstIff, secondIff]
      simp
  · have none_left : component.dropWhile (· ≠ '-'.toUInt8) = [] := by
      rw [List.dropWhile_eq_nil_iff]
      intro c inside
      simp
      rintro rfl
      exact dash inside
    refine ⟨true, by rw [bcur_seq_halves_ok, none_left], ?_⟩
    simp [dash]

theorem walkComponents_eq (left : Nat) (p : Bytes) : walkComponents left p = (wordsOf '/'.toUInt8 p).take left := by
  induction left generalizing p with
  | zero => simp [walkComponents]
  | succ left ih =>
    rw [walkComponents, ← wordsOf_dropWhile]
    have not_sep : (p.dropWhile (· = '/'.toUInt8)).head? ≠ some '/'.toUInt8 := by
      intro at_sep
      have head := List.head?_dropWhile_not (· = '/'.toUInt8) p
      rw [at_sep] at head
      simp at head
    by_cases empty : p.dropWhile (· = '/'.toUInt8) = []
    · simp [empty]
    · rw [if_neg empty, ih, wordsOf_first empty not_sep, List.take_succ_cons]

/-- Three words and no more, from the first four. -/
theorem take_four_eq {words : List Bytes} {a b c : Bytes} : words.take 4 = [a, b, c] ↔ words = [a, b, c] := by
  match words with
  | [] => simp
  | [_] => simp
  | [_, _] => simp
  | [_, _, _] => simp
  | _ :: _ :: _ :: _ :: _ => simp

theorem tolower_colon {c : UInt8} (lower : tolower c = 'u'.toUInt8 ∨ tolower c = 'r'.toUInt8) : c ≠ ':'.toUInt8 := by
  rintro rfl
  simp [tolower, Char.toUInt8] at lower

/-- Behind the first colon of a text of the decoder stands what the decoder splits. -/
theorem behind_scheme {bcur : Bytes}
    (scheme : (bcur.take 3).map tolower = ['u'.toUInt8, 'r'.toUInt8, ':'.toUInt8]) :
    ∃ colon, bcur.dropWhile (· ≠ ':'.toUInt8) = colon :: bcur.drop 3 := by
  match bcur, scheme with
  | [_], scheme => simp at scheme
  | [_, _], scheme => simp at scheme
  | u :: r :: colon :: rest, scheme =>
    simp only [List.take_succ_cons, List.take_zero, List.map_cons, List.map_nil, List.cons.injEq, and_true] at scheme
    obtain ⟨isU, isR, isColon⟩ := scheme
    have notU := tolower_colon (.inl isU)
    have notR := tolower_colon (.inr isR)
    have same : colon = ':'.toUInt8 := by
      rw [tolower] at isColon
      split at isColon
      case isTrue upper =>
        simp only [Bool.and_eq_true, decide_eq_true_eq, UInt8.le_iff_toNat_le] at upper
        have sum := congrArg UInt8.toNat isColon
        rw [UInt8.toNat_add] at sum
        simp [Char.toUInt8] at sum upper
        omega
      case isFalse => exact isColon
    exact ⟨colon, by simp [notU, notR, same]⟩

/-- The gate never wraps. It passes a text with a colon unless there are three words behind it
    and the second has a dash but is no sequence. -/
theorem bcur_sequence_component_ok_eq (bcur : Bytes) :
    ∃ passed, bcur_sequence_component_ok bcur = .ok passed ∧
      ∀ colon behind, bcur.dropWhile (· ≠ ':'.toUInt8) = colon :: behind →
        (passed = true ↔ ∀ type sequence body, wordsOf '/'.toUInt8 behind = [type, sequence, body] →
          '-'.toUInt8 ∉ sequence ∨ Sequence sequence) := by
  rw [bcur_sequence_component_ok]
  split
  case h_1 no_colon =>
    refine ⟨true, rfl, ?_⟩
    intro colon behind split
    rw [no_colon] at split
    cases split
  case h_2 colon behind split =>
    rw [walkComponents_eq]
    split
    case h_1 type sequence body three =>
      rw [take_four_eq] at three
      obtain ⟨passed, computed, passedIff⟩ := bcur_seq_halves_ok_eq sequence
      refine ⟨passed, computed, ?_⟩
      intro colon' behind' split'
      rw [split] at split'
      cases split'
      rw [passedIff, three]
      constructor
      · rintro ok type' sequence' body' same
        cases same
        exact ok
      · intro ok
        exact ok type sequence body rfl
    case h_2 other =>
      refine ⟨true, rfl, ?_⟩
      intro colon' behind' split'
      rw [split] at split'
      cases split'
      refine iff_of_true rfl ?_
      intro type sequence body three
      exact absurd (take_four_eq.mpr three) (other type sequence body)

/-- The pieces of a sequence are its two numbers. -/
theorem wordsOf_sequence {component first second : Bytes} (two : wordsOf '-'.toUInt8 component = [first, second])
    (passed : '-'.toUInt8 ∉ component ∨ Sequence component) :
    Numeral UINT32_MAX first ∧ Numeral BCUR_SEQ_LEN_MAX second := by
  obtain no_dash | ⟨one, other, rfl, numeral, numeralOther⟩ := passed
  · by_cases empty : component = []
    · simp [empty] at two
    · simp [wordsOf_single empty no_dash] at two
  · rw [wordsOf_append numeral.filled (numeral_no_dash numeral),
      wordsOf_single numeralOther.filled (numeral_no_dash numeralOther)] at two
    cases two
    exact ⟨numeral, numeralOther⟩

/-- A conversion of a number does not throw. -/
theorem stoul_numeral {maximum : Nat} {piece : Bytes} (numeral : Numeral maximum piece) (fits : maximum ≤ ULONG_MAX) :
    stoul piece = some (number piece) := by
  have most := numeral.most
  match piece, numeral with
  | c :: rest, numeral =>
    have digit := numeral.digits c List.mem_cons_self
    have graph := isgraph_isspace (isalnum_isgraph (isdigit_isalnum digit))
    have no_sign : c ≠ '-'.toUInt8 ∧ c ≠ '+'.toUInt8 := by
      constructor
      · rintro rfl
        simp [isdigit, Char.toUInt8] at digit
      · rintro rfl
        simp [isdigit, Char.toUInt8] at digit
    have spaces : (c :: rest).dropWhile isspace = c :: rest := by simp [graph.1]
    have all : (c :: rest).takeWhile isdigit = c :: rest := List.takeWhile_eq_self_iff.mpr numeral.digits
    have small : ¬ ULONG_MAX < number (c :: rest) := by omega
    rw [stoul]
    simp [spaces, no_sign.1, no_sign.2, all, small]

/-- The gate wraps on no text. What it passes and the decoder converts are two numbers, of 32
    bits and of at most 4096, on which the conversion does not throw; and it passes every
    sequence of such numbers. -/
theorem sequence_gate :
    (∀ bcur, ∃ passed, bcur_sequence_component_ok bcur = .ok passed ∧
      (passed = true → ∀ first second, decoderPieces bcur = some (first, second) →
        Numeral UINT32_MAX first ∧ Numeral BCUR_SEQ_LEN_MAX second ∧
          stoul first = some (number first) ∧ stoul second = some (number second))) ∧
    ∀ scheme type n m body : Bytes, scheme.map tolower = ['u'.toUInt8, 'r'.toUInt8, ':'.toUInt8] →
      type ≠ [] → '/'.toUInt8 ∉ type → Numeral UINT32_MAX n → Numeral BCUR_SEQ_LEN_MAX m →
      bcur_sequence_component_ok
        (scheme ++ (type ++ '/'.toUInt8 :: (n ++ '-'.toUInt8 :: m ++ '/'.toUInt8 :: body))) = .ok true := by
  constructor
  · intro bcur
    obtain ⟨passed, computed, passedIff⟩ := bcur_sequence_component_ok_eq bcur
    refine ⟨passed, computed, ?_⟩
    intro through first second pieces
    rw [decoderPieces] at pieces
    split at pieces
    case isTrue => cases pieces
    case isFalse scheme =>
      obtain ⟨colon, behind⟩ := behind_scheme (not_not.mp scheme)
      split at pieces
      case h_2 => cases pieces
      case h_1 type sequence body three =>
        split at pieces
        case h_2 => cases pieces
        case h_1 one other two =>
          cases pieces
          obtain ⟨numeral, numeralOther⟩ := wordsOf_sequence two
            ((passedIff colon _ behind).mp through type sequence body three)
          exact ⟨numeral, numeralOther, stoul_numeral numeral (Nat.le_refl _), stoul_numeral numeralOther (by decide)⟩
  · intro scheme type n m body is_scheme filled no_slash numeral numeralOther
    have three : scheme.length = 3 := by simpa using congrArg List.length is_scheme
    obtain ⟨passed, computed, passedIff⟩ := bcur_sequence_component_ok_eq
      (scheme ++ (type ++ '/'.toUInt8 :: (n ++ '-'.toUInt8 :: m ++ '/'.toUInt8 :: body)))
    obtain ⟨colon, behind⟩ := @behind_scheme
      (scheme ++ (type ++ '/'.toUInt8 :: (n ++ '-'.toUInt8 :: m ++ '/'.toUInt8 :: body)))
      (by rw [List.take_left' three, is_scheme])
    rw [List.drop_left' three] at behind
    have no_slash_inside : '/'.toUInt8 ∉ n ++ '-'.toUInt8 :: m := by
      intro inside
      obtain left | right := List.mem_append.mp inside
      · have digit := numeral.digits _ left
        simp [isdigit, Char.toUInt8] at digit
      · obtain dash | digitInside := List.mem_cons.mp right
        · simp [Char.toUInt8] at dash
        · have digit := numeralOther.digits _ digitInside
          simp [isdigit, Char.toUInt8] at digit
    rw [computed]
    congr 1
    refine (passedIff colon _ behind).mpr ?_
    intro type' sequence' body' words
    rw [wordsOf_append filled no_slash, wordsOf_append (by simp) no_slash_inside] at words
    obtain ⟨-, rfl, -⟩ : type = type' ∧ n ++ '-'.toUInt8 :: m = sequence' ∧ _ := by simpa only [List.cons.injEq] using words
    exact .inr ⟨n, m, rfl, numeral, numeralOther⟩

-- two slashes hide nothing from the gate
example : bcur_sequence_component_ok (List.map Char.toUInt8 ['U', 'R', ':', 'b', '/', '/', 'x', '-', '3', '/', 'a']) =
    .ok false := by decide +kernel

end PiJade.Bcur
