import PiJade.DescriptorChecksum
import PiJade.DescriptorTokens

/-!
Spellings of key expressions. A key expression is accepted if it has a fingerprint, a path, a key
and a child path in their places. Writing the fingerprint in another case, the hardened steps with
another mark or the numbers of the child path in another way gives a key expression that stands in
the place of the old one and comes to the same value.
-/
namespace PiJade.DescriptorText
open Text
open SettingsCodec (ascii)
set_option linter.unusedSimpArgs false

/-! ### Child paths -/

/-- No number has more than ten digits. -/
def Few (rest : Bytes) : Prop :=
  ((rest.drop 2).takeWhile isdigit).length ≤ 10 ∧ ((((rest.drop 2).dropWhile isdigit).drop 1).takeWhile isdigit).length ≤ 10

theorem digits_run {a : Bytes} (all : ∀ c ∈ a, isdigit c = true) (few : a.length ≤ 10) {c : UInt8} (stop : isdigit c = false)
    (q : Bytes) : digits (a ++ c :: q) = a := by
  rw [digits, List.take_append, List.take_of_length_le few, List.takeWhile_append_of_pos all]
  cases 10 - a.length with
  | zero => simp
  | succ left => rw [List.take_succ_cons, List.takeWhile_cons_of_neg (by simp [stop]), List.append_nil]

/-- The child path that is written for two numbers. -/
def childFor (a b : Nat) : Bytes := ascii "/<" ++ decimal a ++ ascii ";" ++ decimal b ++ ascii ">/*"

theorem canonical_child_between {opening sep close : UInt8} {a b : Bytes} (first : Branch a) (second : Branch b)
    (marks : opening = '<'.toUInt8 ∧ sep = ';'.toUInt8 ∧ close = '>'.toUInt8 ∨
      opening = '{'.toUInt8 ∧ sep = ','.toUInt8 ∧ close = '}'.toUInt8)
    (few : Few ('/'.toUInt8 :: opening :: (a ++ sep :: (b ++ close :: ascii "/*")))) {child_len : Nat}
    (room : (childFor (number a) (number b)).length < child_len) :
    canonical_child ('/'.toUInt8 :: opening :: (a ++ sep :: (b ++ close :: ascii "/*"))) child_len =
      some (childFor (number a) (number b)) := by
  have marked : opening ≠ '*'.toUInt8 := by rcases marks with ⟨rfl, _⟩ | ⟨rfl, _⟩ <;> decide
  have sep_stops : isdigit sep = false := by rcases marks with ⟨_, rfl, _⟩ | ⟨_, rfl, _⟩ <;> rfl
  have close_stops : isdigit close = false := by rcases marks with ⟨_, _, rfl⟩ | ⟨_, _, rfl⟩ <;> rfl
  have opens : ¬ (opening ≠ '<'.toUInt8 ∧ opening ≠ '{'.toUInt8) := by rcases marks with ⟨rfl, _⟩ | ⟨rfl, _⟩ <;> decide
  have sep_eq : (if opening = '<'.toUInt8 then ';'.toUInt8 else ','.toUInt8) = sep := by
    rcases marks with ⟨rfl, rfl, _⟩ | ⟨rfl, rfl, _⟩
    · exact if_pos rfl
    · exact if_neg (by decide)
  have close_eq : (if opening = '<'.toUInt8 then '>'.toUInt8 else '}'.toUInt8) = close := by
    rcases marks with ⟨rfl, _, rfl⟩ | ⟨rfl, _, rfl⟩
    · exact if_pos rfl
    · exact if_neg (by decide)
  have any : '/'.toUInt8 :: opening :: (a ++ sep :: (b ++ close :: ascii "/*")) ≠ ascii "/**" := by
    have text : ascii "/**" = ['/'.toUInt8, '*'.toUInt8, '*'.toUInt8] := by simp [ascii, Char.toUInt8]
    rw [text]
    intro same
    exact marked (List.cons.inj (List.cons.inj same).2).1
  have end_length : (ascii "/*").length = 2 := by simp [ascii]
  have long : ¬ ('/'.toUInt8 :: opening :: (a ++ sep :: (b ++ close :: ascii "/*"))).length < 8 := by
    have some_a := List.length_pos_of_ne_nil first.some_digit
    have some_b := List.length_pos_of_ne_nil second.some_digit
    simp only [List.length_cons, List.length_append, end_length]
    omega
  obtain ⟨few_a, few_b⟩ := few
  simp only [List.drop_succ_cons, List.drop_zero] at few_a few_b
  rw [takeWhile_run first.digits sep_stops] at few_a
  rw [dropWhile_run first.digits sep_stops, List.drop_succ_cons, List.drop_zero, takeWhile_run second.digits close_stops] at few_b
  have digits_a := digits_run first.digits few_a sep_stops (b ++ close :: ascii "/*")
  have digits_b := digits_run second.digits few_b close_stops (ascii "/*")
  rw [canonical_child, if_neg any]
  simp only [List.getD_cons_zero, List.getD_cons_succ, List.drop_succ_cons, List.drop_zero]
  rw [if_neg (by rw [not_or, not_or]; exact ⟨long, fun other => other rfl, opens⟩), sep_eq, close_eq, digits_a, List.drop_left,
    if_neg (by
      rw [not_or, not_or, List.head?_cons]
      exact ⟨first.some_digit, Nat.not_lt.mpr first.unhardened, fun other => other rfl⟩),
    List.drop_succ_cons, List.drop_zero, digits_b, List.drop_left,
    if_neg (by
      rw [not_or, not_or, List.head?_cons]
      exact ⟨second.some_digit, Nat.not_lt.mpr second.unhardened, fun other => other rfl⟩),
    List.drop_succ_cons, List.drop_zero, if_neg (fun other => other rfl)]
  exact if_pos room

theorem childFor_length {a b : Nat} (small : a ≤ BIP32_MAX_CHILD_INDEX ∧ b ≤ BIP32_MAX_CHILD_INDEX) :
    (childFor a b).length < 32 := by
  have bound : BIP32_MAX_CHILD_INDEX < 10 ^ 10 := by decide
  have length_a := @decimal_length_le a 10 (by decide) (by omega)
  have length_b := @decimal_length_le b 10 (by decide) (by omega)
  have one : (ascii "/<").length = 2 := by simp [ascii]
  have two : (ascii ";").length = 1 := by simp [ascii]
  have three : (ascii ">/*").length = 3 := by simp [ascii]
  simp only [childFor, List.length_append, one, two, three]
  omega

/-- Every spelling of two numbers gives the same child path. -/
theorem canonical_child_of_pair {rest : Bytes} {a b : Nat} (pair : ChildPair rest a b) (few : Few rest) :
    canonical_child rest 32 = some (childFor a b) := by
  have room := childFor_length pair.small
  cases pair with
  | any =>
    rw [canonical_child, if_pos rfl]
    decide +kernel
  | @angle a b first second =>
    have shape : ascii "/<" ++ a ++ ascii ";" ++ b ++ ascii ">/*" =
        '/'.toUInt8 :: '<'.toUInt8 :: (a ++ ';'.toUInt8 :: (b ++ '>'.toUInt8 :: ascii "/*")) := by
      simp [ascii, Char.toUInt8]
    rw [shape] at few ⊢
    exact canonical_child_between first second (.inl ⟨rfl, rfl, rfl⟩) few room
  | @brace a b first second =>
    have shape : ascii "/\x7b" ++ a ++ ascii "," ++ b ++ ascii "\x7d/*" =
        '/'.toUInt8 :: '{'.toUInt8 :: (a ++ ','.toUInt8 :: (b ++ '}'.toUInt8 :: ascii "/*")) := by
      simp [ascii, Char.toUInt8]
    rw [shape] at few ⊢
    exact canonical_child_between first second (.inr ⟨rfl, rfl, rfl⟩) few room

/-! ### Parts of a key expression -/

/-- A character of the path of an origin. -/
def pathChar (c : UInt8) : Prop :=
  c = '\''.toUInt8 ∨ isdigit c = true ∨ c = '/'.toUInt8 ∨ c = 'h'.toUInt8

/-- A key expression and its parts. -/
structure Parts where
  fingerprint : Bytes
  path : Bytes
  key : Bytes
  child : Bytes

namespace Parts

def text (parts : Parts) : Bytes :=
  '['.toUInt8 :: (parts.fingerprint ++ (parts.path ++ ']'.toUInt8 :: (parts.key ++ parts.child)))

/-- The fingerprint in lower case, one mark for hardened steps, and the key. -/
def value (parts : Parts) : Bytes :=
  '['.toUInt8 :: (parts.fingerprint.map tolower ++ (parts.path.map unify ++ ']'.toUInt8 :: parts.key))

/-- What is looked at in front of the child path. -/
structure Valid (parts : Parts) : Prop where
  eight : parts.fingerprint.length = 8
  hex : ∀ c ∈ parts.fingerprint, isxdigit c = true
  path : ∀ c ∈ parts.path, pathChar c
  step : ∀ c, parts.path.head? = some c → c = '/'.toUInt8
  key : parts.key ≠ [] ∧ '/'.toUInt8 ∉ parts.key
  child : ∀ c, parts.child.head? = some c → c = '/'.toUInt8

end Parts

theorem pathChar_ne {c : UInt8} (char : pathChar c) : c ≠ ']'.toUInt8 := by
  rintro rfl
  rcases char with quote | digit | slash | hardened
  · revert quote
    decide
  · cases digit
  · revert slash
    decide
  · revert hardened
    decide

theorem hex_ne {c d : UInt8} (hex : isxdigit c = true) (other : isxdigit d = false) : c ≠ d := by
  rintro rfl
  rw [hex] at other
  cases other

theorem originPath_of_chars {value_len : Nat} {chars : Bytes} (allowed : ∀ c ∈ chars, pathChar c ∨ c = ']'.toUInt8) :
    ∀ {written : Nat}, written + chars.length < value_len → originPath value_len written chars = .ok (chars.map unify) := by
  induction chars with
  | nil => exact fun _ => rfl
  | cons c rest ih =>
    intro written room
    rw [List.length_cons] at room
    have good : ¬ (c ≠ '\''.toUInt8 ∧ ¬ (isdigit c = true ∨ c = '/'.toUInt8 ∨ c = 'h'.toUInt8 ∨ c = ']'.toUInt8)) := by
      rintro ⟨no_quote, others⟩
      rcases allowed c List.mem_cons_self with (quote | digit | slash | hardened) | closing
      · exact no_quote quote
      · exact others (.inl digit)
      · exact others (.inr (.inl slash))
      · exact others (.inr (.inr (.inl hardened)))
      · exact others (.inr (.inr (.inr closing)))
    rw [originPath, if_neg good, if_neg (by omega), ih (fun d inside => allowed d (List.mem_cons_of_mem _ inside)) (by omega)]
    rfl

theorem takeWhile_key {key child : Bytes} (no_slash : '/'.toUInt8 ∉ key)
    (starts : ∀ c, child.head? = some c → c = '/'.toUInt8) :
    (key ++ child).takeWhile (· ≠ '/'.toUInt8) = key ∧ (key ++ child).dropWhile (· ≠ '/'.toUInt8) = child := by
  have all : ∀ c ∈ key, decide (c ≠ '/'.toUInt8) = true := fun c inside =>
    decide_eq_true fun same => no_slash (same ▸ inside)
  rw [List.takeWhile_append_of_pos all, List.dropWhile_append_of_pos all]
  cases child with
  | nil => simp
  | cons c rest =>
    obtain rfl := starts c rfl
    rw [List.takeWhile_cons_of_neg (by simp), List.dropWhile_cons_of_neg (by simp), List.append_nil]
    exact ⟨rfl, rfl⟩

/-- Where the parts of a key expression are. -/
theorem Parts.layout {parts : Parts} (valid : parts.Valid) :
    parts.text.idxOf? ']'.toUInt8 = some (9 + parts.path.length) ∧
      (parts.text.take 9).drop 1 = parts.fingerprint ∧
      (parts.text.take (9 + parts.path.length + 1)).drop 9 = parts.path ++ [']'.toUInt8] ∧
      parts.text.drop (9 + parts.path.length + 1) = parts.key ++ parts.child ∧
      parts.text.take 9 = '['.toUInt8 :: parts.fingerprint ∧
      parts.text.drop 9 = parts.path ++ ']'.toUInt8 :: (parts.key ++ parts.child) := by
  obtain ⟨eight, hex, path, _, _, _⟩ := valid
  have front : ('['.toUInt8 :: parts.fingerprint).length = 9 := by rw [List.length_cons, eight]
  have split : parts.text = ('['.toUInt8 :: parts.fingerprint) ++ (parts.path ++ ']'.toUInt8 :: (parts.key ++ parts.child)) := rfl
  have whole : parts.text = (('['.toUInt8 :: parts.fingerprint) ++ parts.path) ++ ']'.toUInt8 :: (parts.key ++ parts.child) := by
    rw [split, List.append_assoc]
  have origin_length : (('['.toUInt8 :: parts.fingerprint) ++ parts.path).length = 9 + parts.path.length := by
    rw [List.length_append, front]
  have fresh : ']'.toUInt8 ∉ ('['.toUInt8 :: parts.fingerprint) ++ parts.path := by
    intro inside
    rcases List.mem_append.mp inside with first | later
    · rcases List.mem_cons.mp first with same | in_fingerprint
      · revert same
        decide
      · exact hex_ne (hex _ in_fingerprint) rfl rfl
    · exact pathChar_ne (path _ later) rfl
  have nine : parts.text.take 9 = '['.toUInt8 :: parts.fingerprint := by rw [split, ← front, List.take_left]
  have behind : parts.text.drop 9 = parts.path ++ ']'.toUInt8 :: (parts.key ++ parts.child) := by
    rw [split, ← front, List.drop_left]
  refine ⟨?_, by rw [nine, List.drop_succ_cons, List.drop_zero], ?_, ?_, nine, behind⟩
  · rw [whole, idxOf?_front fresh, origin_length]
  · rw [List.drop_take, behind, Nat.add_assoc, Nat.add_sub_cancel_left,
      show parts.path ++ ']'.toUInt8 :: (parts.key ++ parts.child) =
        (parts.path ++ [']'.toUInt8]) ++ (parts.key ++ parts.child) by simp]
    rw [show parts.path.length + 1 = (parts.path ++ [']'.toUInt8]).length by simp, List.take_left]
  · rw [Nat.add_assoc, ← List.drop_drop, behind,
      show parts.path ++ ']'.toUInt8 :: (parts.key ++ parts.child) =
        (parts.path ++ [']'.toUInt8]) ++ (parts.key ++ parts.child) by simp]
    rw [show parts.path.length + 1 = (parts.path ++ [']'.toUInt8]).length by simp, List.drop_left]

/-- A key expression with valid parts comes to its value, if there is room for it. -/
theorem canonical_key_parts {parts : Parts} (valid : parts.Valid) {child : Bytes} {value_len child_len : Nat}
    (made : canonical_child parts.child child_len = some child) (room : parts.value.length < value_len) :
    canonical_key parts.text value_len child_len = .ok (parts.value, child) := by
  obtain ⟨closed, fingerprint, path, rest, nine, behind⟩ := parts.layout valid
  obtain ⟨key_eq, child_eq⟩ := takeWhile_key valid.key.2 valid.child
  have value_length : parts.value.length = 9 + (parts.path.length + 1) + parts.key.length := by
    simp only [Parts.value, List.length_cons, List.length_append, List.length_map, valid.eight]
    omega
  have some_key := List.length_pos_of_ne_nil valid.key.1
  have ninth : ¬ (parts.text.getD 9 0 ≠ '/'.toUInt8 ∧ parts.text.getD 9 0 ≠ ']'.toUInt8) := by
    have first : parts.text.getD 9 0 = (parts.path ++ ']'.toUInt8 :: (parts.key ++ parts.child)).headD 0 := by
      rw [← behind, List.getD_eq_getElem?_getD, List.headD_eq_head?_getD, List.head?_drop]
    rw [first]
    cases path_eq : parts.path with
    | nil => exact fun both => both.2 rfl
    | cons c later =>
      obtain rfl := valid.step c (by rw [path_eq]; rfl)
      exact fun both => both.1 rfl
  have origin_ok : originPath value_len 9 (parts.path ++ [']'.toUInt8]) = .ok ((parts.path ++ [']'.toUInt8]).map unify) := by
    refine originPath_of_chars ?_ ?_
    · intro c inside
      rcases List.mem_append.mp inside with in_path | last
      · exact .inl (valid.path c in_path)
      · exact .inr (List.mem_singleton.mp last)
    · rw [List.length_append, List.length_singleton]
      omega
  have all_hex : parts.fingerprint.all isxdigit = true := List.all_eq_true.mpr valid.hex
  have opening : parts.text.getD 0 0 = '['.toUInt8 := rfl
  have origin_eq : (parts.text.take 9).map tolower ++ (parts.path ++ [']'.toUInt8]).map unify ++ parts.key = parts.value := by
    rw [nine, Parts.value, List.map_append]
    simp [show unify ']'.toUInt8 = ']'.toUInt8 from rfl, show tolower '['.toUInt8 = '['.toUInt8 from rfl]
  rw [canonical_key, opening, if_neg (fun other => other rfl), closed]
  dsimp only
  rw [if_neg (by rw [not_or]; exact ⟨by omega, ninth⟩), fingerprint, all_hex, if_neg (by simp), path, origin_ok, Check.ok_bind,
    rest, key_eq, child_eq, if_neg valid.key.1, if_neg (by
      rw [← List.length_append, origin_eq]
      omega), made, origin_eq]
  rfl

theorem take_cut {tok : Bytes} {c : UInt8} {i : Nat} (found : tok.idxOf? c = some i) :
    c ∉ tok.take i ∧ tok.drop i = c :: tok.drop (i + 1) := by
  obtain ⟨bound, at_i, before⟩ := List.findIdx?_eq_some_iff_getElem.mp found
  constructor
  · intro inside
    obtain ⟨j, j_bound, at_j⟩ := List.mem_iff_getElem.mp inside
    rw [List.getElem_take] at at_j
    rw [List.length_take] at j_bound
    exact before j (by omega) (by simp [at_j])
  · rw [List.drop_eq_getElem_cons bound, eq_of_beq at_i]

/-- An accepted key expression has valid parts. -/
theorem parts_of_canonical_key {tok : Bytes} {value_len child_len : Nat} {found : Bytes × Bytes}
    (accepted : canonical_key tok value_len child_len = .ok found) :
    ∃ parts : Parts, parts.Valid ∧ tok = parts.text ∧ found.1 = parts.value ∧
      canonical_child parts.child child_len = some found.2 ∧ parts.value.length < value_len := by
  rw [canonical_key] at accepted
  split at accepted
  · cases accepted
  rename_i opened
  split at accepted
  · cases accepted
  rename_i close closed
  obtain ⟨_, inside⟩ := idxOf_of_idxOf? closed
  obtain ⟨fresh, at_close⟩ := take_cut closed
  split at accepted
  · cases accepted
  rename_i shape
  split at accepted
  · cases accepted
  rename_i hex
  obtain ⟨path, read, later⟩ := Check.bind_eq_ok.mp accepted
  dsimp only at later
  split at later
  · cases later
  rename_i some_key
  split at later
  · cases later
  rename_i room
  split at later
  · cases later
  rename_i child made
  cases later
  rw [not_or, Nat.not_lt] at shape
  obtain ⟨path_eq, allowed⟩ := originPath_normal read
  have front_nine : (tok.take close).take 9 = tok.take 9 := by rw [List.take_take, Nat.min_eq_left shape.1]
  have path_text : (tok.take (close + 1)).drop 9 = (tok.take close).drop 9 ++ [']'.toUInt8] := by
    have last : tok.take (close + 1) = tok.take close ++ [']'.toUInt8] := by
      rw [List.take_add, at_close]
      rfl
    rw [last, List.drop_append_of_le_length (by rw [List.length_take]; omega)]
  have bracket : tok.take 9 = '['.toUInt8 :: (tok.take 9).drop 1 := by
    cases tok with
    | nil => simp at inside
    | cons c rest =>
      rw [not_not, List.getD_cons_zero] at opened
      rw [opened, List.take_succ_cons, List.drop_succ_cons, List.drop_zero]
  have key_child := List.takeWhile_append_dropWhile (p := fun c => decide (c ≠ '/'.toUInt8)) (l := tok.drop (close + 1))
  have value_eq : (tok.take 9).map tolower ++ ((tok.take (close + 1)).drop 9).map unify ++
      (tok.drop (close + 1)).takeWhile (· ≠ '/'.toUInt8) =
      (⟨(tok.take 9).drop 1, (tok.take close).drop 9, (tok.drop (close + 1)).takeWhile (· ≠ '/'.toUInt8),
        (tok.drop (close + 1)).dropWhile (· ≠ '/'.toUInt8)⟩ : Parts).value := by
    rw [path_text, Parts.value, bracket]
    simp [show unify ']'.toUInt8 = ']'.toUInt8 from rfl, show tolower '['.toUInt8 = '['.toUInt8 from rfl]
  refine ⟨⟨(tok.take 9).drop 1, (tok.take close).drop 9, (tok.drop (close + 1)).takeWhile (· ≠ '/'.toUInt8),
    (tok.drop (close + 1)).dropWhile (· ≠ '/'.toUInt8)⟩, ⟨?_, ?_, ?_, ?_, ⟨some_key, ?_⟩, ?_⟩, ?_, ?_, made, ?_⟩
  · rw [List.length_drop, List.length_take]
    omega
  · exact fun c listed => List.all_eq_true.mp (not_not.mp hex) c listed
  · intro c listed
    rcases allowed c (by rw [path_text]; exact List.mem_append_left _ listed) with quote | digit | slash | hardened | closing
    · exact .inl quote
    · exact .inr (.inl digit)
    · exact .inr (.inr (.inl slash))
    · exact .inr (.inr (.inr hardened))
    · exact absurd (closing ▸ List.mem_of_mem_drop listed) fresh
  · intro c first
    have listed := List.mem_of_mem_drop (List.mem_of_mem_head? first)
    rw [List.head?_drop] at first
    obtain ⟨nine, at_nine⟩ := List.getElem?_eq_some_iff.mp first
    rw [List.length_take] at nine
    rw [List.getElem_take] at at_nine
    have get : tok.getD 9 0 = c := by
      rw [List.getD_eq_getElem?_getD, List.getElem?_eq_getElem (by omega), at_nine]
      rfl
    rw [get, not_and_or, not_not, not_not] at shape
    rcases shape.2 with slash | closing
    · exact slash
    · exact absurd (closing ▸ listed) fresh
  · intro slash
    have kept := List.mem_takeWhile_imp slash
    simp at kept
  · intro c first
    have dropped := List.head?_dropWhile_not (fun c => decide (c ≠ '/'.toUInt8)) (tok.drop (close + 1))
    rw [first] at dropped
    simpa using dropped
  · rw [Parts.text]
    simp only
    rw [key_child, ← at_close, ← List.cons_append, ← bracket, ← front_nine, ← List.append_assoc, List.take_append_drop,
      List.take_append_drop]
  · rw [path_eq]
    exact value_eq
  · rw [path_eq, ← List.length_append, value_eq] at room
    omega

theorem Parts.unique {parts other : Parts} (valid : parts.Valid) (other_valid : other.Valid) (same : parts.text = other.text) :
    parts = other := by
  obtain ⟨closed, fingerprint, path, rest, _, _⟩ := parts.layout valid
  obtain ⟨other_closed, other_fingerprint, other_path, other_rest, _, _⟩ := other.layout other_valid
  rw [same, other_closed, Option.some.injEq, Nat.add_right_inj] at closed
  rw [same, ← closed, other_path] at path
  rw [same, ← closed, other_rest] at rest
  rw [same, other_fingerprint] at fingerprint
  obtain ⟨key, child⟩ := takeWhile_key valid.key.2 valid.child
  obtain ⟨other_key, other_child⟩ := takeWhile_key other_valid.key.2 other_valid.child
  rw [← rest] at key child
  cases parts
  cases other
  dsimp only at *
  rw [Parts.mk.injEq]
  exact ⟨fingerprint.symm, (List.append_cancel_right path).symm, key.symm.trans other_key, child.symm.trans other_child⟩

/-! ### Another spelling -/

/-- The same key expression: the fingerprint up to the case of its letters, the path up to the marks of
its hardened steps, the key, and the same two numbers in the child path. Where the key closes one
bracket more than it opens, a comma in the child path would end the key expression. -/
structure Rewritten (parts parts' : Parts) : Prop where
  fingerprint : parts'.fingerprint.map tolower = parts.fingerprint.map tolower
  path : parts'.path.map unify = parts.path.map unify
  key : parts'.key = parts.key
  child : ∃ a b, ChildPair parts.child a b ∧ ChildPair parts'.child a b
  few : Few parts'.child
  level : balance parts.key = -1 → parts'.child.getD 1 0 ≠ '{'.toUInt8

def Respelled (tok tok' : Bytes) : Prop :=
  ∃ parts parts' : Parts, parts.Valid ∧ tok = parts.text ∧ tok' = parts'.text ∧ Rewritten parts parts'

theorem ChildPair.shape {rest : Bytes} {a b : Nat} (pair : ChildPair rest a b) :
    rest = ascii "/**" ∨ (∃ x y, (∀ c ∈ x, isdigit c = true) ∧ (∀ c ∈ y, isdigit c = true) ∧
      rest = '/'.toUInt8 :: '<'.toUInt8 :: (x ++ ';'.toUInt8 :: (y ++ '>'.toUInt8 :: ascii "/*"))) ∨
      ∃ x y, (∀ c ∈ x, isdigit c = true) ∧ (∀ c ∈ y, isdigit c = true) ∧
        rest = '/'.toUInt8 :: '{'.toUInt8 :: (x ++ ','.toUInt8 :: (y ++ '}'.toUInt8 :: ascii "/*")) := by
  cases pair with
  | any => exact .inl rfl
  | angle first second => exact .inr (.inl ⟨_, _, first.digits, second.digits, by simp [ascii, Char.toUInt8]⟩)
  | brace first second => exact .inr (.inr ⟨_, _, first.digits, second.digits, by simp [ascii, Char.toUInt8]⟩)

theorem ChildPair.starts {rest : Bytes} {a b : Nat} (pair : ChildPair rest a b) :
    ∀ c, rest.head? = some c → c = '/'.toUInt8 := by
  have any_head : (ascii "/**").head? = some '/'.toUInt8 := by simp [ascii, Char.toUInt8]
  intro c first
  rcases pair.shape with rfl | ⟨x, y, _, _, rfl⟩ | ⟨x, y, _, _, rfl⟩
  · exact (Option.some.inj (any_head.symm.trans first)).symm
  · exact (Option.some.inj first).symm
  · exact (Option.some.inj first).symm

/-- What neither opens nor closes a bracket nor ends a key expression. -/
def Neutral (c : UInt8) : Prop := weight c = 0 ∧ ¬ stops c

/-- What the code asks of a hexadecimal digit elsewhere. -/
theorem hex_digit_table (c : UInt8) : isxdigit (tolower c) = isxdigit c ∧
    (isxdigit c = true → (weight c = 0 ∧ ¬ stops c) ∧ isspace c = false ∧ c ≠ '#'.toUInt8) := by
  have table : ∀ n < 256, isxdigit (tolower (UInt8.ofNat n)) = isxdigit (UInt8.ofNat n) ∧
      (isxdigit (UInt8.ofNat n) = true → (weight (UInt8.ofNat n) = 0 ∧ ¬ stops (UInt8.ofNat n)) ∧
        isspace (UInt8.ofNat n) = false ∧ UInt8.ofNat n ≠ '#'.toUInt8) := by
    decide +kernel
  have this := table c.toNat c.toNat_lt
  rwa [UInt8.ofNat_toNat] at this

theorem neutral_hex {c : UInt8} (hex : isxdigit c = true) : Neutral c := ((hex_digit_table c).2 hex).1

theorem neutral_digit {c : UInt8} (digit : isdigit c = true) : Neutral c := neutral_hex (by simp [isxdigit, digit])

theorem neutral_path {c : UInt8} (char : pathChar c) : Neutral c := by
  rcases char with rfl | digit | rfl | rfl
  · exact ⟨by decide, by decide⟩
  · exact neutral_digit digit
  · exact ⟨by decide, by decide⟩
  · exact ⟨by decide, by decide⟩

theorem balance_neutral {chars : Bytes} (neutral : ∀ c ∈ chars, Neutral c) : balance chars = 0 := by
  induction chars with
  | nil => rfl
  | cons c rest ih =>
    rw [balance, (neutral c List.mem_cons_self).1, ih fun d inside => neutral d (List.mem_cons_of_mem _ inside), Int.add_zero]

theorem runs_neutral {chars : Bytes} (neutral : ∀ c ∈ chars, Neutral c) (group : Int) : Runs group chars :=
  runs_of_none (fun c inside => (neutral c inside).2) group

/-- A child path leaves the nesting as it was, and goes on unless its comma is outside of all brackets. -/
theorem ChildPair.runs {rest : Bytes} {a b : Nat} (pair : ChildPair rest a b) :
    balance rest = 0 ∧ ∀ group, (group = -1 → rest.getD 1 0 ≠ '{'.toUInt8) → Runs group rest := by
  have tail_balance : balance (ascii "/*") = 0 := by decide +kernel
  have tail_runs : ∀ group, Runs group (ascii "/*") := fun group => runs_of_none (by decide +kernel) group
  rcases pair.shape with rfl | ⟨x, y, digits_x, digits_y, rfl⟩ | ⟨x, y, digits_x, digits_y, rfl⟩
  · exact ⟨by decide +kernel, fun group _ => runs_of_none (by decide +kernel) group⟩
  · have balance_x := balance_neutral fun c inside => neutral_digit (digits_x c inside)
    have balance_y := balance_neutral fun c inside => neutral_digit (digits_y c inside)
    constructor
    · simp only [balance, balance_append, balance_x, balance_y, tail_balance]
      decide
    · intro group _
      simp only [Runs, runs_append]
      exact ⟨fun both => absurd both.2 (by decide), fun both => absurd both.2 (by decide),
        runs_neutral (fun c inside => neutral_digit (digits_x c inside)) _, fun both => absurd both.2 (by decide),
        runs_neutral (fun c inside => neutral_digit (digits_y c inside)) _, fun both => absurd both.2 (by decide), tail_runs _⟩
  · have balance_x := balance_neutral fun c inside => neutral_digit (digits_x c inside)
    have balance_y := balance_neutral fun c inside => neutral_digit (digits_y c inside)
    constructor
    · simp only [balance, balance_append, balance_x, balance_y, tail_balance]
      decide
    · intro group inside_brackets
      have nested : group ≠ -1 := fun outside => inside_brackets outside rfl
      simp only [Runs, runs_append, balance_x]
      refine ⟨fun both => absurd both.2 (by decide), fun both => absurd both.2 (by decide),
        runs_neutral (fun c inside => neutral_digit (digits_x c inside)) _, ?_,
        runs_neutral (fun c inside => neutral_digit (digits_y c inside)) _, fun both => absurd both.2 (by decide), tail_runs _⟩
      rintro ⟨zero, _⟩
      have slash : weight '/'.toUInt8 = 0 := by decide
      have brace : weight '{'.toUInt8 = 1 := by decide
      rw [slash, brace] at zero
      omega

/-- The origin closes the bracket that it opens, and no other. -/
theorem Parts.front_runs {parts : Parts} (valid : parts.Valid) :
    balance ('['.toUInt8 :: (parts.fingerprint ++ (parts.path ++ [']'.toUInt8]))) = 0 ∧
      ∀ group, Runs group ('['.toUInt8 :: (parts.fingerprint ++ (parts.path ++ [']'.toUInt8]))) := by
  have neutral_fingerprint : ∀ c ∈ parts.fingerprint, Neutral c := fun c inside => neutral_hex (valid.hex c inside)
  have neutral_steps : ∀ c ∈ parts.path, Neutral c := fun c inside => neutral_path (valid.path c inside)
  constructor
  · simp only [balance, balance_append, balance_neutral neutral_fingerprint, balance_neutral neutral_steps]
    decide
  · intro group
    simp only [Runs, runs_append]
    exact ⟨fun both => absurd both.2 (by decide), runs_neutral neutral_fingerprint _, runs_neutral neutral_steps _,
      fun both => absurd both.2 (by decide), trivial⟩

theorem Parts.text_split (parts : Parts) :
    parts.text = ('['.toUInt8 :: (parts.fingerprint ++ (parts.path ++ [']'.toUInt8]))) ++ (parts.key ++ parts.child) := by
  rw [Parts.text]
  simp

theorem Rewritten.valid {parts parts' : Parts} (rewritten : Rewritten parts parts') (valid : parts.Valid) : parts'.Valid := by
  obtain ⟨a, b, _, pair⟩ := rewritten.child
  have hex_case : ∀ c : UInt8, isxdigit (tolower c) = isxdigit c := fun c => (hex_digit_table c).1
  have unify_path : ∀ c : UInt8, pathChar (unify c) → pathChar c := by
    intro c char
    rw [unify] at char
    split at char
    · exact .inl (by assumption)
    · exact char
  have path_unify : ∀ c : UInt8, pathChar c → pathChar (unify c) := by
    intro c char
    rw [unify]
    split
    · exact .inr (.inr (.inr rfl))
    · exact char
  refine ⟨?_, ?_, ?_, ?_, ?_, pair.starts⟩
  · have lengths := congrArg List.length rewritten.fingerprint
    rwa [List.length_map, List.length_map, valid.eight] at lengths
  · intro c inside
    have mapped : tolower c ∈ parts.fingerprint.map tolower := rewritten.fingerprint ▸ List.mem_map_of_mem inside
    obtain ⟨d, listed, same⟩ := List.mem_map.mp mapped
    rw [← hex_case, ← same, hex_case, valid.hex d listed]
  · intro c inside
    have mapped : unify c ∈ parts.path.map unify := rewritten.path ▸ List.mem_map_of_mem inside
    obtain ⟨d, listed, same⟩ := List.mem_map.mp mapped
    exact unify_path c (same ▸ path_unify d (valid.path d listed))
  · intro c first
    have heads := congrArg List.head? rewritten.path
    rw [List.head?_map, List.head?_map, first, Option.map_some] at heads
    cases old : parts.path.head? with
    | none =>
      rw [old] at heads
      cases heads
    | some d =>
      rw [old, valid.step d old, Option.map_some, Option.some.injEq] at heads
      rw [unify] at heads
      have hardened : 'h'.toUInt8 ≠ unify '/'.toUInt8 := by decide
      split at heads
      · exact absurd heads hardened
      · exact heads
  · rw [rewritten.key]
    exact valid.key

theorem Respelled.agrees {tok tok' : Bytes} (respelled : Respelled tok tok') {found : Bytes × Bytes}
    (accepted : canonical_key tok VALUE_LEN 32 = .ok found) : canonical_key tok' VALUE_LEN 32 = .ok found := by
  obtain ⟨parts, parts', valid, rfl, rfl, rewritten⟩ := respelled
  obtain ⟨other, other_valid, same, value, made, room⟩ := parts_of_canonical_key accepted
  obtain rfl := Parts.unique valid other_valid same
  obtain ⟨a, b, pair, pair'⟩ := rewritten.child
  have same_value : parts'.value = parts.value := by
    rw [Parts.value, Parts.value, rewritten.fingerprint, rewritten.path, rewritten.key]
  have numbers : childFor a b = found.2 := by rw [(canonical_child_normal made).1, pair.normal, childFor]
  have made' := canonical_child_of_pair pair' rewritten.few
  rw [canonical_key_parts (rewritten.valid valid) made' (by rw [same_value]; exact room), same_value, numbers, ← value]

/-- A key expression in another spelling ends where the old one ends. -/
theorem Respelled.fits {tok tok' : Bytes} (respelled : Respelled tok tok') : Fits tok tok' := by
  obtain ⟨parts, parts', valid, rfl, rfl, rewritten⟩ := respelled
  refine ⟨rfl, rfl, ?_⟩
  intro rest rest' heads ends
  obtain ⟨a, b, pair, pair'⟩ := rewritten.child
  obtain ⟨front_balance, _⟩ := parts.front_runs valid
  obtain ⟨front_balance', front_runs'⟩ := parts'.front_runs (rewritten.valid valid)
  have runs := runs_of_token_end (Nat.le_of_eq ends.symm)
  rw [token_end_runs runs] at ends
  have stopped : token_end (0 + balance parts.text) rest = 0 := by omega
  rw [parts.text_split, runs_append, front_balance, runs_append] at runs
  have child_runs : Runs (0 + 0 + balance parts.key) parts'.child := by
    refine pair'.runs.2 _ fun level => rewritten.level ?_
    omega
  have runs' : Runs 0 parts'.text := by
    rw [parts'.text_split, runs_append, front_balance', runs_append, rewritten.key]
    exact ⟨front_runs' 0, runs.2.1, child_runs⟩
  have same_balance : balance parts'.text = balance parts.text := by
    rw [parts.text_split, parts'.text_split]
    simp only [balance_append, front_balance, front_balance', rewritten.key, pair.runs.1, pair'.runs.1]
  rw [token_end_runs runs', same_balance]
  have stopped' : token_end (0 + balance parts.text) rest' = 0 := by
    rw [token_end_zero] at stopped ⊢
    rwa [← heads]
  rw [stopped', Nat.add_zero]

/-! ### Descriptors in another spelling -/

/-- Some key expressions of a descriptor are spelled in another way. -/
inductive PieceRespelled : Piece → Piece → Prop
  | same (piece : Piece) : PieceRespelled piece piece
  | key {tok tok' : Bytes} (respelled : Respelled tok tok') : PieceRespelled (.key tok) (.key tok')

theorem PieceRespelled.agrees {piece piece' : Piece} (respelled : PieceRespelled piece piece') : Agrees piece piece' := by
  cases respelled with
  | same piece =>
    cases piece with
    | literal c => exact .literal c
    | key tok => exact .key fun found accepted => accepted
  | key respelled => exact .key fun found accepted => respelled.agrees accepted

theorem PieceRespelled.replaces {piece piece' : Piece} (respelled : PieceRespelled piece piece')
    (opened : ∀ tok, piece = .key tok → tok.head? = some '['.toUInt8) : Replaces piece piece' := by
  cases respelled with
  | same piece =>
    cases piece with
    | literal c => exact .literal c
    | key tok =>
      refine .key ⟨opened tok rfl, opened tok rfl, fun rest rest' heads ends => ?_⟩
      have runs := runs_of_token_end (Nat.le_of_eq ends.symm)
      rw [token_end_runs runs] at ends ⊢
      have stopped : token_end (0 + balance tok) rest = 0 := by omega
      rw [token_end_zero, heads, ← token_end_zero] at stopped
      rw [stopped, Nat.add_zero]
  | key respelled => exact .key respelled.fits

theorem walked_accepted {ps : List Piece} {state after : Walk} (ran : ps.foldlM Walk.piece state = .ok after) :
    ∀ tok, .key tok ∈ ps → ∃ found, canonical_key tok VALUE_LEN 32 = .ok found := by
  induction ps generalizing state with
  | nil => exact fun tok inside => absurd inside List.not_mem_nil
  | cons piece ps ih =>
    intro tok inside
    obtain ⟨middle, stepped, later⟩ := Check.bind_eq_ok.mp ran
    rcases List.mem_cons.mp inside with rfl | others
    · obtain ⟨found, accepted, _⟩ := Check.bind_eq_ok.mp stepped
      exact ⟨found, accepted⟩
    · exact ih later tok others

/-- A descriptor that is walked to its end, and the same in another spelling. -/
structure Alike (work : Bytes) (ps' : List Piece) (after : Walk) : Prop where
  ran : walk work.length ⟨'('.toUInt8, [], []⟩ work = .ok after
  respelled : List.Forall₂ PieceRespelled (piecesOf work) ps'

theorem piecesOf_splits (work : Bytes) : Splits '('.toUInt8 work (piecesOf work) := splits_pieces (Nat.le_refl _)

theorem walk_accepted {work : Bytes} {after : Walk} (ran : walk work.length ⟨'('.toUInt8, [], []⟩ work = .ok after) :
    ∀ tok, .key tok ∈ piecesOf work → ∃ found, canonical_key tok VALUE_LEN 32 = .ok found := by
  rw [walk_pieces (piecesOf_splits work) rfl (Nat.le_refl _)] at ran
  exact walked_accepted ran

section
variable {work : Bytes} {ps' : List Piece} {after : Walk} (alike : Alike work ps' after)
include alike

theorem Alike.replaces : List.Forall₂ Replaces (piecesOf work) ps' := by
  have both := (List.forall₂_and_left (p := (· ∈ piecesOf work)) _ _).mpr ⟨fun _ inside => inside, alike.respelled⟩
  refine both.imp fun piece piece' known => known.2.replaces fun tok same => ?_
  obtain ⟨found, accepted⟩ := walk_accepted alike.ran tok (same ▸ known.1)
  exact (canonical_key_normal accepted).2.opened

/-- Both begin with the same character. -/
theorem Alike.head : (render ps').head? = work.head? := by
  rw [← render_head alike.replaces, splits_text (piecesOf_splits work)]

/-- A descriptor with some key expressions in another spelling is walked to the same record. -/
theorem Alike.walk : walk (render ps').length ⟨'('.toUInt8, [], []⟩ (render ps') = .ok after := by
  have ran := alike.ran
  rw [walk_pieces (piecesOf_splits work) rfl (Nat.le_refl _)] at ran
  rw [walk_pieces (Replaces.splits (piecesOf_splits work) alike.replaces) rfl (Nat.le_refl _)]
  exact agrees_walk (alike.respelled.imp fun _ _ => PieceRespelled.agrees) ran

end

/-! ### Characters of other spellings -/

/-- What is in no part of a key expression but the key. -/
def Foreign (c : UInt8) : Prop := isspace c = true ∨ c = '#'.toUInt8

theorem foreign_ne {c d : UInt8} (foreign : Foreign c) (visible : isspace d = false ∧ d ≠ '#'.toUInt8) : c ≠ d := by
  rintro rfl
  rcases foreign with space | hash
  · rw [visible.1] at space
    cases space
  · exact visible.2 hash

theorem isxdigit_visible {c : UInt8} (hex : isxdigit c = true) : isspace c = false ∧ c ≠ '#'.toUInt8 :=
  ((hex_digit_table c).2 hex).2

theorem isdigit_visible {c : UInt8} (digit : isdigit c = true) : isspace c = false ∧ c ≠ '#'.toUInt8 :=
  isxdigit_visible (by simp [isxdigit, digit])

theorem pathChar_visible {c : UInt8} (char : pathChar c) : isspace c = false ∧ c ≠ '#'.toUInt8 := by
  rcases char with rfl | digit | rfl | rfl
  · decide
  · exact isdigit_visible digit
  · decide
  · decide

theorem ChildPair.visible {rest : Bytes} {a b : Nat} (pair : ChildPair rest a b) {c : UInt8} (foreign : Foreign c) :
    c ∉ rest := by
  have none_of : ∀ {chars : Bytes}, (∀ d ∈ chars, isspace d = false ∧ d ≠ '#'.toUInt8) → c ∉ chars := fun all inside =>
    foreign_ne foreign (all c inside) rfl
  have digits : ∀ {x : Bytes}, (∀ d ∈ x, isdigit d = true) → c ∉ x := fun all => none_of fun d inside => isdigit_visible (all d inside)
  have tail : c ∉ ascii "/*" := none_of (by decide +kernel)
  rcases pair.shape with rfl | ⟨x, y, digits_x, digits_y, rfl⟩ | ⟨x, y, digits_x, digits_y, rfl⟩
  · exact none_of (by decide +kernel)
  · simp only [List.mem_cons, List.mem_append, not_or]
    exact ⟨foreign_ne foreign (by decide), foreign_ne foreign (by decide), digits digits_x, foreign_ne foreign (by decide),
      digits digits_y, foreign_ne foreign (by decide), tail⟩
  · simp only [List.mem_cons, List.mem_append, not_or]
    exact ⟨foreign_ne foreign (by decide), foreign_ne foreign (by decide), digits digits_x, foreign_ne foreign (by decide),
      digits digits_y, foreign_ne foreign (by decide), tail⟩

theorem Respelled.foreign {tok tok' : Bytes} (respelled : Respelled tok tok') {c : UInt8} (foreign : Foreign c)
    (inside : c ∈ tok') : c ∈ tok := by
  obtain ⟨parts, parts', valid, rfl, rfl, rewritten⟩ := respelled
  obtain ⟨a, b, _, pair⟩ := rewritten.child
  have valid' := rewritten.valid valid
  rw [Parts.text] at inside ⊢
  simp only [List.mem_cons, List.mem_append] at inside ⊢
  rcases inside with opening | hex | path | closing | key | child
  · exact absurd opening (foreign_ne foreign (by decide))
  · exact absurd rfl (foreign_ne foreign (isxdigit_visible (valid'.hex c hex)))
  · exact absurd rfl (foreign_ne foreign (pathChar_visible (valid'.path c path)))
  · exact absurd closing (foreign_ne foreign (by decide))
  · rw [rewritten.key] at key
    exact .inr (.inr (.inr (.inr (.inl key))))
  · exact absurd child (pair.visible foreign)

theorem respelled_foreign {ps ps' : List Piece} (respelled : List.Forall₂ PieceRespelled ps ps') {c : UInt8}
    (foreign : Foreign c) : c ∈ render ps' → c ∈ render ps := by
  induction respelled with
  | nil => exact id
  | cons first _ ih =>
    intro inside
    rw [render, List.flatMap_cons, ← render, List.mem_append] at inside ⊢
    rcases inside with here | later
    · left
      cases first with
      | same => exact here
      | key respelled => exact respelled.foreign foreign here
    · exact .inr (ih later)

theorem Alike.foreign {work : Bytes} {ps' : List Piece} {after : Walk} (alike : Alike work ps' after) {c : UInt8}
    (foreign : Foreign c) (inside : c ∈ render ps') : c ∈ work := by
  rw [← splits_text (piecesOf_splits work)]
  exact respelled_foreign alike.respelled foreign inside

end PiJade.DescriptorText
