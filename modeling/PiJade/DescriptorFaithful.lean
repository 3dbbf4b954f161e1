import Mathlib.Data.Finset.Card
import PiJade.DescriptorText

/-!
What a record says about the descriptor it was made from. A descriptor is read as pieces,
characters and key expressions; a record as parts, characters and signers. The record is
faithful if its parts are those of the pieces, with every key expression in its normal form.
-/
namespace PiJade.DescriptorText
open Text
open SettingsCodec (ascii)
set_option linter.unusedSimpArgs false

/-! ### Pieces of a descriptor -/

inductive Piece where
  | literal (c : UInt8)
  | key (tok : Bytes)
  deriving DecidableEq, Repr

/-- The pieces of a text behind some character, one each round. -/
def pieces : Nat → UInt8 → Bytes → List Piece
  | _, _, [] => []
  | 0, _, _ => []
  | rounds + 1, prev, c :: rest =>
    if (prev = '('.toUInt8 ∨ prev = ','.toUInt8) ∧ is_key_start (c :: rest) then
      .key ((c :: rest).take (token_end 0 (c :: rest))) ::
        pieces rounds prev ((c :: rest).drop (token_end 0 (c :: rest)))
    else .literal c :: pieces rounds c rest

def piecesOf (work : Bytes) : List Piece := pieces work.length '('.toUInt8 work

/-! ### Normal forms -/

/-- Both markers of a hardened step. -/
def unify (c : UInt8) : UInt8 := if c = '\''.toUInt8 then 'h'.toUInt8 else c

/-- The origin of a key expression, with its brackets. -/
def origin (tok : Bytes) : Bytes := tok.take (tok.idxOf ']'.toUInt8 + 1)

/-- What follows the origin. -/
def behind (tok : Bytes) : Bytes := tok.drop (tok.idxOf ']'.toUInt8 + 1)

/-- The origin with a lower-case fingerprint and one marker, and the key. -/
def normalValue (tok : Bytes) : Bytes :=
  ((origin tok).take 9).map tolower ++ ((origin tok).drop 9).map unify ++ (behind tok).takeWhile (· ≠ '/'.toUInt8)

def childText (tok : Bytes) : Bytes := (behind tok).dropWhile (· ≠ '/'.toUInt8)

/-- The two branches of a child path, in the one spelling that is kept. -/
def normalChild (rest : Bytes) : Bytes :=
  if rest = ascii "/**" then ascii "/<0;1>/*"
  else
    let a := (rest.drop 2).takeWhile isdigit
    let b := (((rest.drop 2).dropWhile isdigit).drop 1).takeWhile isdigit
    ascii "/<" ++ decimal (number a) ++ ascii ";" ++ decimal (number b) ++ ascii ">/*"

/-- A branch of a child path. -/
structure Branch (a : Bytes) : Prop where
  some_digit : a ≠ []
  digits : ∀ c ∈ a, isdigit c = true
  unhardened : number a ≤ BIP32_MAX_CHILD_INDEX

/-- The child paths that are accepted. -/
inductive ChildSpelled : Bytes → Prop where
  | any : ChildSpelled (ascii "/**")
  | angle {a b : Bytes} (first : Branch a) (second : Branch b) :
      ChildSpelled (ascii "/<" ++ a ++ ascii ";" ++ b ++ ascii ">/*")
  | brace {a b : Bytes} (first : Branch a) (second : Branch b) :
      ChildSpelled (ascii "/\x7b" ++ a ++ ascii "," ++ b ++ ascii "\x7d/*")

/-- The key expressions that are accepted. -/
structure Spelled (tok : Bytes) : Prop where
  opened : tok.head? = some '['.toUInt8
  fingerprint : ∀ c ∈ ((origin tok).take 9).drop 1, isxdigit c = true
  length : 10 ≤ (origin tok).length
  path : ∀ c ∈ (origin tok).drop 9, c = '\''.toUInt8 ∨ isdigit c = true ∨ c = '/'.toUInt8 ∨ c = 'h'.toUInt8 ∨ c = ']'.toUInt8
  child : ChildSpelled (childText tok)

/-! ### Parts of a record -/

inductive Part where
  | text (c : UInt8)
  | signer (value : Bytes)
  deriving DecidableEq, Repr

def Part.bytes : Part → Bytes
  | .text c => [c]
  | .signer value => value

def Piece.parts : Piece → List Part
  | .literal c => [.text c]
  | .key tok => .signer (normalValue tok) :: (normalChild (childText tok)).map .text

/-- The value with some digits behind its `@`. -/
def resolve (values : List StringValue) (digits : Bytes) : Option Bytes :=
  (values.find? fun sv => sv.key = '@'.toUInt8 :: digits).map (·.value)

/-- A script with the values in the place of its placeholders. -/
def expand (values : List StringValue) (script : Bytes) : List Part :=
  match script with
  | [] => []
  | c :: rest =>
    if c = '@'.toUInt8 then
      match resolve values (rest.takeWhile isdigit) with
      | some value => .signer value :: expand values (rest.dropWhile isdigit)
      | none => .text c :: expand values rest
    else .text c :: expand values rest
termination_by script.length
decreasing_by
  · have shorter := (List.dropWhile_sublist (l := rest) isdigit).length_le
    rw [List.length_cons]
    omega
  · simp
  · simp

/-! ### Key expressions are brought to their normal form -/

theorem takeWhile_run {a : Bytes} (all : ∀ c ∈ a, isdigit c = true) {c : UInt8} (stop : isdigit c = false) (q : Bytes) :
    (a ++ c :: q).takeWhile isdigit = a := by
  rw [List.takeWhile_append_of_pos all, List.takeWhile_cons_of_neg (by simp [stop]), List.append_nil]

theorem dropWhile_run {a : Bytes} (all : ∀ c ∈ a, isdigit c = true) {c : UInt8} (stop : isdigit c = false) (q : Bytes) :
    (a ++ c :: q).dropWhile isdigit = c :: q := by
  rw [List.dropWhile_append_of_pos all, List.dropWhile_cons_of_neg (by simp [stop])]

theorem digits_all {p : Bytes} {c : UInt8} (inside : c ∈ digits p) : isdigit c = true := List.mem_takeWhile_imp inside

/-- The digits read, and the character that must follow them. -/
theorem digits_split {p : Bytes} {c : UInt8} (follows : (p.drop (digits p).length).head? = some c) :
    p = digits p ++ c :: (p.drop (digits p).length).drop 1 := by
  have front : digits p <+: p := (List.takeWhile_prefix isdigit).trans (List.take_prefix 10 p)
  obtain ⟨later, split⟩ := front
  have tail : p.drop (digits p).length = later := by
    nth_rewrite 2 [← split]
    rw [List.drop_left]
  rw [tail] at follows ⊢
  cases later with
  | nil => cases follows
  | cons d rest =>
    cases follows
    exact split.symm

/-- Two branches between the marks of one spelling. -/
theorem two_branches {p : Bytes} {sep close : UInt8} (sep_stops : isdigit sep = false) (close_stops : isdigit close = false)
    (first : (p.drop (digits p).length).head? = some sep)
    (second : (((p.drop (digits p).length).drop 1).drop (digits ((p.drop (digits p).length).drop 1)).length).head? = some close)
    (ends : (((p.drop (digits p).length).drop 1).drop (digits ((p.drop (digits p).length).drop 1)).length).drop 1 =
      ascii "/*") :
    p = digits p ++ sep :: (digits ((p.drop (digits p).length).drop 1) ++ close :: ascii "/*") ∧
      p.takeWhile isdigit = digits p ∧
      ((p.dropWhile isdigit).drop 1).takeWhile isdigit = digits ((p.drop (digits p).length).drop 1) := by
  have one := digits_split first
  have two := digits_split second
  rw [ends] at two
  have take_one := takeWhile_run (fun c => digits_all (p := p) (c := c)) sep_stops ((p.drop (digits p).length).drop 1)
  have drop_one := dropWhile_run (fun c => digits_all (p := p) (c := c)) sep_stops ((p.drop (digits p).length).drop 1)
  rw [← one] at take_one drop_one
  have take_two := takeWhile_run (fun c => digits_all (p := (p.drop (digits p).length).drop 1) (c := c)) close_stops
    (ascii "/*")
  rw [← two] at take_two
  refine ⟨?_, take_one, ?_⟩
  · rw [← two]
    exact one
  · rw [drop_one]
    exact take_two

theorem child_marks {rest : Bytes} (long : ¬ rest.length < 8) :
    rest = rest.getD 0 0 :: rest.getD 1 0 :: rest.drop 2 := by
  match rest, long with
  | first :: second :: later, _ => rfl
  | [first], long => simp at long
  | [], long => simp at long

theorem canonical_child_normal {rest child : Bytes} {child_len : Nat} (found : canonical_child rest child_len = some child) :
    child = normalChild rest ∧ ChildSpelled rest := by
  rw [canonical_child] at found
  by_cases any : rest = ascii "/**"
  · rw [if_pos any] at found
    cases found
    rw [normalChild, if_pos any, any]
    exact ⟨rfl, .any⟩
  rw [if_neg any] at found
  split at found
  · cases found
  rename_i marks
  simp only [not_or, not_and_or, not_not] at marks
  obtain ⟨long, slash, opened⟩ := marks
  have whole := child_marks long
  rw [slash] at whole
  dsimp only at found
  generalize at_sep : (if rest.getD 1 0 = '<'.toUInt8 then ';'.toUInt8 else ','.toUInt8) = sep at found
  generalize at_close : (if rest.getD 1 0 = '<'.toUInt8 then '>'.toUInt8 else '}'.toUInt8) = close at found
  split at found
  · cases found
  rename_i first
  split at found
  · cases found
  rename_i second
  split at found
  · cases found
  rename_i ends
  split at found
  rotate_left
  · cases found
  cases found
  simp only [not_or, not_not, Nat.not_lt] at first second ends
  obtain ⟨some_a, a_low, a_follows⟩ := first
  obtain ⟨some_b, b_low, b_follows⟩ := second
  have sep_stops : isdigit sep = false := by
    rw [← at_sep]
    split <;> rfl
  have close_stops : isdigit close = false := by
    rw [← at_close]
    split <;> rfl
  obtain ⟨split, take_a, take_b⟩ := two_branches sep_stops close_stops a_follows b_follows ends
  refine ⟨?_, ?_⟩
  · rw [normalChild, if_neg any]
    dsimp only
    rw [take_a, take_b]
  · have branch_a : Branch (digits (rest.drop 2)) := ⟨some_a, fun c => digits_all, a_low⟩
    have branch_b : Branch (digits (((rest.drop 2).drop (digits (rest.drop 2)).length).drop 1)) :=
      ⟨some_b, fun c => digits_all, b_low⟩
    rw [whole, split]
    rcases opened with angle | brace
    · rw [angle, if_pos rfl] at at_sep at_close
      rw [angle, ← at_sep, ← at_close]
      simpa [ascii, Char.toUInt8] using ChildSpelled.angle branch_a branch_b
    · rw [brace, if_neg (by decide)] at at_sep at_close
      rw [brace, ← at_sep, ← at_close]
      simpa [ascii, Char.toUInt8] using ChildSpelled.brace branch_a branch_b

/-- The numbers that a child path is written with. -/
inductive ChildPair : Bytes → Nat → Nat → Prop
  | any : ChildPair (ascii "/**") 0 1
  | angle {a b : Bytes} (first : Branch a) (second : Branch b) :
      ChildPair (ascii "/<" ++ a ++ ascii ";" ++ b ++ ascii ">/*") (number a) (number b)
  | brace {a b : Bytes} (first : Branch a) (second : Branch b) :
      ChildPair (ascii "/\x7b" ++ a ++ ascii "," ++ b ++ ascii "\x7d/*") (number a) (number b)

theorem ChildPair.small {rest : Bytes} {a b : Nat} (pair : ChildPair rest a b) :
    a ≤ BIP32_MAX_CHILD_INDEX ∧ b ≤ BIP32_MAX_CHILD_INDEX := by
  cases pair with
  | any => decide
  | angle first second => exact ⟨first.unhardened, second.unhardened⟩
  | brace first second => exact ⟨first.unhardened, second.unhardened⟩

theorem normalChild_between {opening sep close : UInt8} {a b : Bytes} (first : Branch a) (second : Branch b)
    (marked : opening ≠ '*'.toUInt8) (stops : isdigit sep = false) (closes : isdigit close = false) :
    normalChild ('/'.toUInt8 :: opening :: (a ++ sep :: (b ++ close :: ascii "/*"))) =
      ascii "/<" ++ decimal (number a) ++ ascii ";" ++ decimal (number b) ++ ascii ">/*" := by
  have other : '/'.toUInt8 :: opening :: (a ++ sep :: (b ++ close :: ascii "/*")) ≠ ascii "/**" := by
    have text : ascii "/**" = ['/'.toUInt8, '*'.toUInt8, '*'.toUInt8] := by decide +kernel
    rw [text]
    intro same
    exact marked (List.cons.inj (List.cons.inj same).2).1
  rw [normalChild, if_neg other]
  simp only [List.drop_succ_cons, List.drop_zero]
  rw [takeWhile_run first.digits stops, dropWhile_run first.digits stops, List.drop_succ_cons, List.drop_zero,
    takeWhile_run second.digits closes]

/-- A child path keeps its numbers. -/
theorem ChildPair.normal {rest : Bytes} {a b : Nat} (pair : ChildPair rest a b) :
    normalChild rest = ascii "/<" ++ decimal a ++ ascii ";" ++ decimal b ++ ascii ">/*" := by
  cases pair with
  | any => decide +kernel
  | @angle a b first second =>
    have whole := @normalChild_between '<'.toUInt8 ';'.toUInt8 '>'.toUInt8 a b first second (by decide) (by rfl) (by rfl)
    simpa [ascii, Char.toUInt8] using whole
  | @brace a b first second =>
    have whole := @normalChild_between '{'.toUInt8 ','.toUInt8 '}'.toUInt8 a b first second (by decide) (by rfl) (by rfl)
    simpa [ascii, Char.toUInt8] using whole

theorem ChildSpelled.pair {rest : Bytes} (spelled : ChildSpelled rest) : ∃ a b, ChildPair rest a b := by
  cases spelled with
  | any => exact ⟨0, 1, .any⟩
  | angle first second => exact ⟨_, _, .angle first second⟩
  | brace first second => exact ⟨_, _, .brace first second⟩

theorem originPath_normal {value_len : Nat} {chars path : Bytes} {written : Nat}
    (found : originPath value_len written chars = .ok path) :
    path = chars.map unify ∧
      ∀ c ∈ chars, c = '\''.toUInt8 ∨ isdigit c = true ∨ c = '/'.toUInt8 ∨ c = 'h'.toUInt8 ∨ c = ']'.toUInt8 := by
  induction chars generalizing path written with
  | nil =>
    cases found
    exact ⟨rfl, nofun⟩
  | cons c rest ih =>
    rw [originPath] at found
    split at found
    · cases found
    rename_i allowed
    split at found
    · cases found
    obtain ⟨later, read, whole⟩ := Check.bind_eq_ok.mp found
    cases whole
    obtain ⟨rfl, others⟩ := ih read
    refine ⟨rfl, ?_⟩
    rintro d (_ | ⟨_, inside⟩)
    · by_cases quote : c = '\''.toUInt8
      · exact .inl quote
      · exact .inr (not_not.mp fun bad => allowed ⟨quote, bad⟩)
    · exact others d inside

theorem idxOf_of_idxOf? {tok : Bytes} {c : UInt8} {i : Nat} (found : tok.idxOf? c = some i) :
    tok.idxOf c = i ∧ i < tok.length := by
  rw [List.idxOf?, List.findIdx?_eq_some_iff_findIdx_eq] at found
  exact ⟨found.2, found.1⟩

theorem canonical_key_normal {tok : Bytes} {value_len child_len : Nat} {found : Bytes × Bytes}
    (accepted : canonical_key tok value_len child_len = .ok found) :
    found = (normalValue tok, normalChild (childText tok)) ∧ Spelled tok := by
  rw [canonical_key] at accepted
  split at accepted
  · cases accepted
  rename_i opened
  split at accepted
  · cases accepted
  rename_i close closed
  obtain ⟨at_close, inside⟩ := idxOf_of_idxOf? closed
  split at accepted
  · cases accepted
  rename_i shape
  split at accepted
  · cases accepted
  rename_i hex
  obtain ⟨path, read, later⟩ := Check.bind_eq_ok.mp accepted
  dsimp only at later
  split at later
  · cases later
  split at later
  · cases later
  split at later
  · cases later
  rename_i child made
  cases later
  obtain ⟨rfl, allowed⟩ := originPath_normal read
  obtain ⟨rfl, spelled⟩ := canonical_child_normal made
  have origin_eq : origin tok = tok.take (close + 1) := by rw [origin, at_close]
  have behind_eq : behind tok = tok.drop (close + 1) := by rw [behind, at_close]
  have take_nine : (tok.take (close + 1)).take 9 = tok.take 9 := by
    rw [List.take_take]
    congr 1
    omega
  refine ⟨?_, ?_, ?_, ?_, ?_, ?_⟩
  · rw [normalValue, childText, origin_eq, behind_eq, take_nine]
  · cases tok with
    | nil => simp at inside
    | cons c rest =>
      rw [not_not] at opened
      exact congrArg some opened
  · rw [origin_eq, take_nine]
    intro c listed
    exact List.all_eq_true.mp (not_not.mp hex) c listed
  · rw [origin_eq, List.length_take]
    omega
  · rw [origin_eq]
    exact allowed
  · rw [childText, behind_eq]
    exact spelled

/-! ### The walk writes the pieces -/

theorem token_end_pos {p : Bytes} (start : is_key_start p = true) : 0 < token_end 0 p := by
  cases p with
  | nil => simp [is_key_start, ascii] at start
  | cons c rest =>
    have first : ¬ (c = ','.toUInt8 ∨ c = ')'.toUInt8) := by
      rintro (rfl | rfl)
      · simp [is_key_start, ascii, Char.toUInt8] at start
      · simp [is_key_start, ascii, Char.toUInt8] at start
    rw [token_end]
    split_ifs with opens closes ends
    · exact Nat.succ_pos _
    · exact Nat.succ_pos _
    · exact absurd ends.2 first
    · exact Nat.succ_pos _

/-- Where a value is in the table, or the length of the table. -/
def index (values : List StringValue) (value : Bytes) : Nat := values.findIdx fun sv => cstr sv.value = cstr value

def Listed (values : List StringValue) (value : Bytes) : Prop := ∃ sv ∈ values, sv.value = cstr value

/-- What the walk writes for a piece. -/
def Piece.written (values : List StringValue) : Piece → Bytes
  | .literal c => [c]
  | .key tok => '@'.toUInt8 :: decimal (index values (normalValue tok)) ++ normalChild (childText tok)

/-- Values are numbered, and none is listed twice. -/
structure Table (values : List StringValue) : Prop where
  keys : ∀ i sv, values[i]? = some sv → sv.key = '@'.toUInt8 :: decimal i
  strings : ∀ sv ∈ values, cstr sv.value = sv.value
  distinct : (values.map (·.value)).Nodup

@[simp] theorem cstr_cstr (buffer : Bytes) : cstr (cstr buffer) = cstr buffer := by
  apply cstr_eq_self
  intro nul
  have kept := List.mem_takeWhile_imp nul
  simp at kept

theorem index_lt {values : List StringValue} {value : Bytes} (listed : Listed values value) :
    index values value < values.length := by
  obtain ⟨sv, inside, same⟩ := listed
  rw [index, List.findIdx_lt_length]
  exact ⟨sv, inside, by simp [same]⟩

/-- An index is kept as the table grows. -/
theorem index_grows {values larger : List StringValue} {value : Bytes} (listed : Listed values value)
    (grows : values <+: larger) : index larger value = index values value := by
  obtain ⟨more, rfl⟩ := grows
  have bound := index_lt listed
  rw [index] at bound
  rw [index, index, List.findIdx_append, if_pos bound]

section
variable {values : List StringValue} (table : Table values) {value : Bytes}
include table

/-- The index of a listed value leads back to it. -/
theorem index_get (listed : Listed values value) :
    ∃ sv, values[index values value]? = some sv ∧ sv.value = cstr value := by
  have bound := index_lt listed
  have found : decide (cstr (values.get ⟨index values value, bound⟩).value = cstr value) = true :=
    @List.findIdx_getElem _ (fun sv : StringValue => decide (cstr sv.value = cstr value)) values bound
  refine ⟨values.get ⟨index values value, bound⟩, by simp, ?_⟩
  rw [← table.strings _ (List.get_mem values _)]
  exact of_decide_eq_true found

theorem unlisted_index (unlisted : ¬ Listed values value) : index values value = values.length := by
  rw [index, List.findIdx_eq_length]
  intro sv inside
  apply decide_eq_false
  intro same
  rw [table.strings sv inside] at same
  exact unlisted ⟨sv, inside, same⟩

/-- A new value gets the next number. -/
theorem Table.append (unlisted : ¬ Listed values value) :
    Table (values ++ [⟨'@'.toUInt8 :: decimal values.length, cstr value⟩]) := by
  refine ⟨fun i sv found => ?_, fun sv inside => ?_, ?_⟩
  · rcases Nat.lt_or_ge i values.length with old | new
    · rw [List.getElem?_append_left old] at found
      exact table.keys i sv found
    · rw [List.getElem?_append_right new] at found
      have last : i - values.length = 0 := by
        by_contra later
        rw [List.getElem?_eq_none (by simp; omega)] at found
        cases found
      rw [last] at found
      cases found
      rw [show i = values.length by omega]
  · rcases List.mem_append.mp inside with old | new
    · exact table.strings sv old
    · rw [List.mem_singleton.mp new]
      exact cstr_cstr value
  · rw [List.map_append, List.nodup_append]
    refine ⟨table.distinct, by simp, ?_⟩
    rintro old inside new listed rfl
    obtain ⟨sv, listed_sv, rfl⟩ := List.mem_map.mp inside
    simp only [List.map_cons, List.map_nil, List.mem_singleton] at listed
    exact unlisted ⟨sv, listed_sv, listed⟩

end

/-- What the walk has done with the pieces of some text. -/
structure Walked (state : Walk) (ps : List Piece) (after : Walk) : Prop where
  table : Table after.values
  grows : state.values <+: after.values
  script : after.script = state.script ++ ps.flatMap (Piece.written after.values)
  spelled : ∀ tok, .key tok ∈ ps → Spelled tok ∧ Listed after.values (normalValue tok)
  origin : ∀ sv ∈ after.values, sv ∈ state.values ∨ ∃ tok, .key tok ∈ ps ∧ sv.value = cstr (normalValue tok)

theorem walk_key {state after : Walk} {value child : Bytes} (table : Table state.values)
    (ran : state.key value child = .ok after) :
    Table after.values ∧ state.values <+: after.values ∧ Listed after.values value ∧ after.prev = state.prev ∧
      after.script = state.script ++ ('@'.toUInt8 :: decimal (index after.values value) ++ child) ∧
      ∀ sv ∈ after.values, sv ∈ state.values ∨ sv.value = cstr value := by
  rw [Walk.key] at ran
  dsimp only at ran
  rw [← index] at ran
  split at ran
  · cases ran
  split at ran
  · cases ran
  cases ran
  by_cases listed : Listed state.values value
  · have old : ¬ index state.values value = state.values.length := (index_lt listed).ne
    simp only [if_neg old]
    exact ⟨table, List.prefix_refl _, listed, trivial, trivial, fun sv inside => .inl inside⟩
  · have new := unlisted_index table listed
    simp only [if_pos new]
    have larger := table.append listed
    have now_listed : Listed (state.values ++ [⟨'@'.toUInt8 :: decimal state.values.length, cstr value⟩]) value :=
      ⟨_, List.mem_append_right _ (List.mem_singleton_self _), rfl⟩
    have at_end : index (state.values ++ [⟨'@'.toUInt8 :: decimal state.values.length, cstr value⟩]) value =
        state.values.length := by
      rw [index] at new
      rw [index, List.findIdx_append, if_neg (by omega)]
      simp
    rw [new, at_end]
    refine ⟨larger, List.prefix_append _ _, now_listed, trivial, rfl, fun sv inside => ?_⟩
    rcases List.mem_append.mp inside with old | last
    · exact .inl old
    · exact .inr (by rw [List.mem_singleton.mp last])

theorem walk_walked {rounds : Nat} {state after : Walk} {p : Bytes} (table : Table state.values)
    (ran : walk rounds state p = .ok after) : Walked state (pieces rounds state.prev p) after := by
  induction rounds generalizing state p with
  | zero =>
    cases p with
    | nil =>
      cases ran
      exact ⟨table, List.prefix_refl _, by simp [pieces], by simp [pieces], fun sv inside => .inl inside⟩
    | cons c rest => cases ran
  | succ rounds ih =>
    cases p with
    | nil =>
      cases ran
      exact ⟨table, List.prefix_refl _, by simp [pieces], by simp [pieces], fun sv inside => .inl inside⟩
    | cons c rest =>
      rw [walk] at ran
      by_cases start : (state.prev = '('.toUInt8 ∨ state.prev = ','.toUInt8) ∧ is_key_start (c :: rest) = true
      · rw [if_pos start] at ran
        rw [pieces, if_pos start]
        obtain ⟨found, accepted, next⟩ := Check.bind_eq_ok.mp ran
        obtain ⟨middle, written, later⟩ := Check.bind_eq_ok.mp next
        obtain ⟨rfl, spelled⟩ := canonical_key_normal accepted
        obtain ⟨middle_table, first_grows, listed, same_prev, script, origin⟩ := walk_key table written
        have walked := ih middle_table later
        rw [same_prev] at walked
        refine ⟨walked.table, first_grows.trans walked.grows, ?_, ?_, ?_⟩
        · rw [walked.script, script, List.flatMap_cons, Piece.written, index_grows listed walked.grows,
            List.append_assoc]
        · rintro tok (_ | ⟨_, inside⟩)
          · obtain ⟨sv, inside, same⟩ := listed
            exact ⟨spelled, sv, walked.grows.subset inside, same⟩
          · exact walked.spelled tok inside
        · intro sv inside
          rcases walked.origin sv inside with before | ⟨tok, listed_tok, same⟩
          · rcases origin sv before with old | same
            · exact .inl old
            · exact .inr ⟨_, List.mem_cons_self, same⟩
          · exact .inr ⟨tok, List.mem_cons_of_mem _ listed_tok, same⟩
      · rw [if_neg start] at ran
        rw [pieces, if_neg start]
        split at ran
        · cases ran
        have walked := @ih { state with prev := c, script := state.script ++ [c] } rest table ran
        refine ⟨walked.table, walked.grows, ?_, ?_, ?_⟩
        · rw [walked.script, List.flatMap_cons, Piece.written, List.append_assoc]
        · rintro tok (_ | ⟨_, inside⟩)
          exact walked.spelled tok inside
        · intro sv inside
          rcases walked.origin sv inside with old | ⟨tok, listed, same⟩
          · exact .inl old
          · exact .inr ⟨tok, List.mem_cons_of_mem _ listed, same⟩

/-! ### Reading a record -/

/-- The digits at the front of some pieces. -/
def leadingDigits : List Piece → Bytes
  | [] => []
  | .literal c :: ps => if isdigit c then c :: leadingDigits ps else []
  | .key _ :: _ => []

/-- Nothing between the key expressions reads as the placeholder of one of `count` signers, and
    no key expression is cut by a zero byte. -/
def Clean (count : Nat) : List Piece → Prop
  | [] => True
  | .literal c :: ps => (c = '@'.toUInt8 → ∀ i < count, leadingDigits ps ≠ decimal i) ∧ Clean count ps
  | .key tok :: ps => 0 ∉ tok ∧ Clean count ps

/-- The signers of some pieces, as string functions see them. -/
def signers (ps : List Piece) : List Bytes :=
  ps.filterMap fun piece =>
    match piece with
    | .literal _ => none
    | .key tok => some (cstr (normalValue tok))

theorem expand_text {values : List StringValue} {text : Bytes} (plain : ∀ c ∈ text, c ≠ '@'.toUInt8) (script : Bytes) :
    expand values (text ++ script) = text.map .text ++ expand values script := by
  induction text with
  | nil => rfl
  | cons c rest ih =>
    have first : c ≠ '@'.toUInt8 := plain c List.mem_cons_self
    rw [List.cons_append, expand, if_neg first, ih fun d inside => plain d (List.mem_cons_of_mem _ inside)]
    rfl

theorem decimal_plain {n : Nat} {c : UInt8} (inside : c ∈ decimal n) : c ≠ '@'.toUInt8 ∧ c ≠ 0 := by
  have digit := decimal_digits inside
  constructor
  · rintro rfl
    cases digit
  · rintro rfl
    cases digit

theorem normalChild_plain {rest : Bytes} {c : UInt8} (inside : c ∈ normalChild rest) : c ≠ '@'.toUInt8 := by
  rw [normalChild] at inside
  split at inside
  · rintro rfl
    revert inside
    decide
  · simp only [List.mem_append] at inside
    rcases inside with (((first | a) | second) | b) | third
    · rintro rfl
      revert first
      decide
    · exact (decimal_plain a).1
    · rintro rfl
      revert second
      decide
    · exact (decimal_plain b).1
    · rintro rfl
      revert third
      decide

theorem normalChild_head (rest : Bytes) : ∃ later, normalChild rest = '/'.toUInt8 :: later := by
  rw [normalChild]
  split
  · exact ⟨_, rfl⟩
  · exact ⟨_, rfl⟩

section
variable {values : List StringValue} (table : Table values)
include table

theorem resolve_decimal {i : Nat} {sv : StringValue} (found : values[i]? = some sv) :
    resolve values (decimal i) = some sv.value := by
  rw [resolve]
  cases search : values.find? fun sv => sv.key = '@'.toUInt8 :: decimal i with
  | none =>
    have differs := List.find?_eq_none.mp search sv (List.mem_of_getElem? found)
    simp [table.keys i sv found] at differs
  | some other =>
    have key : other.key = '@'.toUInt8 :: decimal i := by simpa using List.find?_some search
    obtain ⟨j, at_j⟩ := List.mem_iff_getElem?.mp (List.mem_of_find?_eq_some search)
    rw [table.keys j other at_j] at key
    have same : j = i := decimal_injective (List.cons.inj key).2
    rw [same, found] at at_j
    cases at_j
    rfl

theorem resolve_other {text : Bytes} (other : ∀ i < values.length, text ≠ decimal i) : resolve values text = none := by
  rw [resolve, Option.map_eq_none_iff, List.find?_eq_none]
  intro sv inside
  obtain ⟨i, at_i⟩ := List.mem_iff_getElem?.mp inside
  have bound : i < values.length := (List.getElem?_eq_some_iff.mp at_i).1
  rw [table.keys i sv at_i]
  simpa using (other i bound).symm

end

theorem takeWhile_written (values : List StringValue) (ps : List Piece) :
    (ps.flatMap (Piece.written values)).takeWhile isdigit = leadingDigits ps := by
  induction ps with
  | nil => rfl
  | cons piece ps ih =>
    cases piece with
    | literal c =>
      rw [List.flatMap_cons, Piece.written, leadingDigits, List.singleton_append, List.takeWhile_cons, ih]
    | key tok =>
      rw [List.flatMap_cons, Piece.written, leadingDigits, List.cons_append, List.cons_append,
        List.takeWhile_cons_of_neg (by decide)]

/-- What the expansion of a written piece looks like, in front of the others. -/
theorem expand_key {values : List StringValue} (table : Table values) {tok : Bytes}
    (listed : Listed values (normalValue tok)) (script : Bytes) :
    expand values (Piece.written values (.key tok) ++ script) =
      .signer (cstr (normalValue tok)) :: (normalChild (childText tok)).map .text ++ expand values script := by
  obtain ⟨sv, found, same⟩ := index_get table listed
  obtain ⟨later, head⟩ := normalChild_head (childText tok)
  have all : ∀ c ∈ decimal (index values (normalValue tok)), isdigit c = true := fun c => decimal_digits
  have run : decimal (index values (normalValue tok)) ++ normalChild (childText tok) ++ script =
      decimal (index values (normalValue tok)) ++ '/'.toUInt8 :: (later ++ script) := by
    rw [head, List.append_assoc, List.cons_append]
  rw [Piece.written, List.cons_append, List.cons_append, expand, if_pos rfl, run, takeWhile_run all (by rfl),
    dropWhile_run all (by rfl), resolve_decimal table found, same]
  dsimp only
  rw [← List.cons_append, ← head, expand_text fun c inside => normalChild_plain inside]
  rfl

theorem expand_literal {values : List StringValue} (table : Table values) {c : UInt8} {ps : List Piece}
    (plain : c = '@'.toUInt8 → ∀ i < values.length, leadingDigits ps ≠ decimal i) :
    expand values (c :: ps.flatMap (Piece.written values)) =
      .text c :: expand values (ps.flatMap (Piece.written values)) := by
  rw [expand]
  by_cases at_sign : c = '@'.toUInt8
  · rw [if_pos at_sign, takeWhile_written, resolve_other table (plain at_sign)]
  · rw [if_neg at_sign]

theorem expand_placeholder {values : List StringValue} (table : Table values) {i : Nat} {sv : StringValue}
    (found : values[i]? = some sv) {ps : List Piece} (digits : leadingDigits ps = decimal i) :
    ∃ later, expand values ('@'.toUInt8 :: ps.flatMap (Piece.written values)) = .signer sv.value :: later := by
  rw [expand, if_pos rfl, takeWhile_written, digits, resolve_decimal table found]
  exact ⟨_, rfl⟩

/-! ### Zero bytes -/

theorem unify_zero {c : UInt8} (zero : unify c = 0) : c = 0 := by
  rw [unify] at zero
  split at zero
  · cases zero
  · exact zero

theorem isxdigit_zero : isxdigit 0 = false := by decide

theorem childSpelled_zero {rest : Bytes} (spelled : ChildSpelled rest) : 0 ∉ rest := by
  have branch_zero : ∀ a : Bytes, Branch a → 0 ∉ a := fun a branch inside => by cases branch.digits 0 inside
  intro nul
  cases spelled with
  | any =>
    revert nul
    decide
  | angle first second =>
    simp only [List.mem_append, branch_zero _ first, branch_zero _ second, or_false] at nul
    revert nul
    decide
  | brace first second =>
    simp only [List.mem_append, branch_zero _ first, branch_zero _ second, or_false] at nul
    revert nul
    decide

theorem origin_zero {tok : Bytes} (spelled : Spelled tok) : 0 ∉ origin tok := by
  rw [← List.take_append_drop 9 (origin tok), List.mem_append]
  rintro (front | path)
  · cases tok with
    | nil => simpa using spelled.opened
    | cons c rest =>
      have opened : c = '['.toUInt8 := by simpa using spelled.opened
      have split : (origin (c :: rest)).take 9 = c :: ((origin (c :: rest)).take 9).drop 1 := by
        rw [origin]
        simp
      rw [split] at front
      rcases List.mem_cons.mp front with zero | hex
      · rw [opened] at zero
        cases zero
      · have bad := spelled.fingerprint 0 hex
        rw [isxdigit_zero] at bad
        cases bad
  · rcases spelled.path 0 path with quote | digit | slash | hardened | closed
    · cases quote
    · cases digit
    · cases slash
    · cases hardened
    · cases closed

/-- A zero byte of a key expression is one of its value. -/
theorem zero_mem_normalValue {tok : Bytes} (spelled : Spelled tok) : 0 ∈ normalValue tok ↔ 0 ∈ tok := by
  have whole : tok = origin tok ++ ((behind tok).takeWhile (· ≠ '/'.toUInt8) ++ childText tok) := by
    rw [childText, List.takeWhile_append_dropWhile, origin, behind, List.take_append_drop]
  have no_origin := origin_zero spelled
  have no_child := childSpelled_zero spelled.child
  have lowered : 0 ∉ ((origin tok).take 9).map tolower := by
    intro inside
    obtain ⟨c, listed, zero⟩ := List.mem_map.mp inside
    rw [tolower_eq zero (by decide)] at listed
    exact no_origin (List.mem_of_mem_take listed)
  have unified : 0 ∉ ((origin tok).drop 9).map unify := by
    intro inside
    obtain ⟨c, listed, zero⟩ := List.mem_map.mp inside
    rw [unify_zero zero] at listed
    exact no_origin (List.mem_of_mem_drop listed)
  constructor
  · intro inside
    rw [normalValue, List.mem_append, List.mem_append] at inside
    rw [whole]
    rcases inside with (bad | bad) | key
    · exact absurd bad lowered
    · exact absurd bad unified
    · exact List.mem_append_right _ (List.mem_append_left _ key)
  · intro inside
    rw [whole, List.mem_append, List.mem_append] at inside
    rcases inside with bad | key | bad
    · exact absurd bad no_origin
    · rw [normalValue]
      exact List.mem_append_right _ key
    · exact absurd bad no_child

/-- A value begins with its bracket. -/
theorem normalValue_head {tok : Bytes} (spelled : Spelled tok) :
    ∃ later, cstr (normalValue tok) = '['.toUInt8 :: later := by
  cases tok with
  | nil => simpa using spelled.opened
  | cons c rest =>
    have opened : c = '['.toUInt8 := by simpa using spelled.opened
    rw [normalValue, origin, opened, List.take_succ_cons, List.take_succ_cons, List.map_cons, List.cons_append,
      List.cons_append, cstr, List.takeWhile_cons_of_pos (by decide)]
    exact ⟨_, rfl⟩

/-! ### Faithful records -/

/-- The record has the signers of the descriptor, in their normal form and in their places. -/
def Faithful (descriptor : DescriptorData) (work : Bytes) : Prop :=
  expand descriptor.values descriptor.script = (piecesOf work).flatMap Piece.parts

/-- With the values in the place of its placeholders, the record reads as the descriptor. -/
def Reproduces (descriptor : DescriptorData) (work : Bytes) : Prop :=
  (expand descriptor.values descriptor.script).flatMap Part.bytes =
    ((piecesOf work).flatMap Piece.parts).flatMap Part.bytes

section
variable {values : List StringValue} (table : Table values) {ps : List Piece}
  (spelled : ∀ tok, .key tok ∈ ps → Spelled tok ∧ Listed values (normalValue tok))
include table spelled

theorem expand_of_clean (clean : Clean values.length ps) :
    expand values (ps.flatMap (Piece.written values)) = ps.flatMap Piece.parts := by
  induction ps with
  | nil => simp [expand]
  | cons piece ps ih =>
    have later := ih fun tok inside => spelled tok (List.mem_cons_of_mem _ inside)
    cases piece with
    | literal c =>
      obtain ⟨plain, rest⟩ := clean
      rw [List.flatMap_cons, Piece.written, List.singleton_append, expand_literal table plain, later rest]
      rfl
    | key tok =>
      obtain ⟨no_nul, rest⟩ := clean
      obtain ⟨tok_spelled, listed⟩ := spelled tok List.mem_cons_self
      have whole : cstr (normalValue tok) = normalValue tok :=
        cstr_eq_self fun nul => no_nul ((zero_mem_normalValue tok_spelled).mp nul)
      rw [List.flatMap_cons, expand_key table listed, later rest, whole]
      rfl

/-- The first thing that is not clean shows in the text. -/
theorem clean_of_text (values_open : ∀ sv ∈ values, ∃ later, sv.value = '['.toUInt8 :: later)
    (same : (expand values (ps.flatMap (Piece.written values))).flatMap Part.bytes =
      (ps.flatMap Piece.parts).flatMap Part.bytes) : Clean values.length ps := by
  induction ps with
  | nil => trivial
  | cons piece ps ih =>
    have later := ih fun tok inside => spelled tok (List.mem_cons_of_mem _ inside)
    cases piece with
    | literal c =>
      have plain : c = '@'.toUInt8 → ∀ i < values.length, leadingDigits ps ≠ decimal i := by
        rintro rfl i bound digits
        have found : values[i]? = some (values.get ⟨i, bound⟩) := by simp
        obtain ⟨_, expanded⟩ := expand_placeholder table found digits
        obtain ⟨_, opened⟩ := values_open _ (List.get_mem values ⟨i, bound⟩)
        rw [List.flatMap_cons, Piece.written, List.singleton_append, expanded, List.flatMap_cons, Part.bytes, opened] at same
        have first := congrArg List.head? same
        simp [Piece.parts, Part.bytes] at first
        revert first
        decide
      refine ⟨plain, later ?_⟩
      rw [List.flatMap_cons, Piece.written, List.singleton_append, expand_literal table plain] at same
      simpa [Piece.parts, Part.bytes] using same
    | key tok =>
      obtain ⟨tok_spelled, listed⟩ := spelled tok List.mem_cons_self
      rw [List.flatMap_cons, expand_key table listed] at same
      have no_nul : 0 ∉ tok := by
        intro nul
        obtain ⟨_, cut⟩ := cstr_cut ((zero_mem_normalValue tok_spelled).mpr nul)
        obtain ⟨_, head⟩ := normalChild_head (childText tok)
        rw [List.flatMap_cons, Piece.parts] at same
        simp only [List.cons_append, List.flatMap_cons, Part.bytes] at same
        generalize cstr (normalValue tok) = kept at cut same
        rw [cut, List.append_assoc, head] at same
        have next := congrArg List.head? (List.append_cancel_left same)
        simp [Part.bytes] at next
        revert next
        decide
      refine ⟨no_nul, later ?_⟩
      have whole : cstr (normalValue tok) = normalValue tok :=
        cstr_eq_self fun nul => no_nul ((zero_mem_normalValue tok_spelled).mp nul)
      rw [whole] at same
      simpa [Piece.parts, Part.bytes] using same

end

theorem signers_mem {ps : List Piece} {value : Bytes} :
    value ∈ signers ps ↔ ∃ tok, .key tok ∈ ps ∧ value = cstr (normalValue tok) := by
  rw [signers, List.mem_filterMap]
  constructor
  · rintro ⟨piece, inside, same⟩
    cases piece with
    | literal c => cases same
    | key tok =>
      cases same
      exact ⟨tok, inside, rfl⟩
  · rintro ⟨tok, inside, rfl⟩
    exact ⟨.key tok, inside, rfl⟩

/-- There is one value for each signer. -/
theorem walked_count {state after : Walk} {ps : List Piece} (walked : Walked state ps after) (empty : state.values = []) :
    (signers ps).dedup.length = after.values.length := by
  have same : (signers ps).toFinset = (after.values.map (·.value)).toFinset := by
    ext value
    rw [List.mem_toFinset, List.mem_toFinset, signers_mem]
    constructor
    · rintro ⟨tok, inside, rfl⟩
      obtain ⟨sv, listed, same⟩ := (walked.spelled tok inside).2
      exact List.mem_map.mpr ⟨sv, listed, same⟩
    · intro inside
      obtain ⟨sv, listed, rfl⟩ := List.mem_map.mp inside
      rcases walked.origin sv listed with old | fresh
      · rw [empty] at old
        cases old
      · exact fresh
  rw [← List.card_toFinset, same, List.toFinset_card_of_nodup walked.table.distinct, List.length_map]

theorem descriptor_text_parse_walked {sha256 : Bytes → Bytes} {text : Bytes} {descriptor : DescriptorData} {name : Bytes}
    (parsed : descriptor_text_parse sha256 text = .ok (descriptor, name)) :
    ∃ work, scanned text = .ok work ∧
      Walked ⟨'('.toUInt8, [], []⟩ (piecesOf work) ⟨'('.toUInt8, descriptor.script, descriptor.values⟩ := by
  rw [descriptor_text_parse] at parsed
  obtain ⟨_, _, parsed⟩ := Check.bind_eq_ok.mp parsed
  obtain ⟨unwrapped, opened, parsed⟩ := Check.bind_eq_ok.mp parsed
  obtain ⟨work, stripped, parsed⟩ := Check.bind_eq_ok.mp parsed
  refine ⟨work, ?_, ?_⟩
  · rw [scanned, opened, Check.ok_bind, stripped]
  · split at parsed
    · cases parsed
    obtain ⟨state, ran, parsed⟩ := Check.bind_eq_ok.mp parsed
    split at parsed
    · cases parsed
    cases parsed
    have start : Table [] := ⟨by simp, by simp, by simp⟩
    have walked := @walk_walked _ ⟨'('.toUInt8, [], []⟩ _ _ start ran
    exact ⟨walked.table, walked.grows, walked.script, walked.spelled, walked.origin⟩

theorem record_clean {sha256 : Bytes → Bytes} {text : Bytes} {descriptor : DescriptorData} {name : Bytes}
    (parsed : descriptor_text_parse sha256 text = .ok (descriptor, name)) :
    ∃ work, scanned text = .ok work ∧ (∀ tok, .key tok ∈ piecesOf work → Spelled tok) ∧
      (Reproduces descriptor work ∧ Faithful descriptor work ↔
        Clean (signers (piecesOf work)).dedup.length (piecesOf work)) := by
  obtain ⟨work, read, walked⟩ := descriptor_text_parse_walked parsed
  have script : descriptor.script = (piecesOf work).flatMap (Piece.written descriptor.values) := by
    simpa using walked.script
  have values_open : ∀ sv ∈ descriptor.values, ∃ later, sv.value = '['.toUInt8 :: later := by
    intro sv inside
    rcases walked.origin sv inside with old | ⟨tok, listed, same⟩
    · cases old
    · rw [same]
      exact normalValue_head (walked.spelled tok listed).1
  refine ⟨work, read, fun tok inside => (walked.spelled tok inside).1, ?_⟩
  rw [walked_count walked rfl, Reproduces, Faithful, script]
  constructor
  · rintro ⟨same, _⟩
    exact clean_of_text walked.table walked.spelled values_open same
  · intro clean
    have whole := expand_of_clean walked.table walked.spelled clean
    exact ⟨by rw [whole], whole⟩

/-- A record is faithful, in its text and in its signers, unless the descriptor writes the
    placeholder of one of its signers itself or a key expression holds a zero byte. -/
theorem faithful_iff_clean {sha256 : Bytes → Bytes} {text : Bytes} {descriptor : DescriptorData} {name : Bytes}
    (parsed : descriptor_text_parse sha256 text = .ok (descriptor, name)) :
    ∃ work, scanned text = .ok work ∧ (∀ tok, .key tok ∈ piecesOf work → Spelled tok) ∧
      (Reproduces descriptor work ∧ Faithful descriptor work ↔
        Clean (signers (piecesOf work)).dedup.length (piecesOf work)) :=
  record_clean parsed

instance decidableClean (count : Nat) : (ps : List Piece) → Decidable (Clean count ps)
  | [] => isTrue trivial
  | .literal c :: ps =>
    have := decidableClean count ps
    inferInstanceAs (Decidable ((c = '@'.toUInt8 → ∀ i < count, leadingDigits ps ≠ decimal i) ∧ Clean count ps))
  | .key tok :: ps =>
    have := decidableClean count ps
    inferInstanceAs (Decidable (0 ∉ tok ∧ Clean count ps))

/-- A key expression without its child path; the key itself is not looked at. -/
def someKey : Bytes := ascii "[73c5da0a/48h]xpub6DkF"

theorem faithful_iff_clean_pkh : ∃ descriptor name work,
    descriptor_text_parse (fun _ => []) (ascii "pkh(" ++ someKey ++ ascii "/<0;1>/*)") = .ok (descriptor, name) ∧
      scanned (ascii "pkh(" ++ someKey ++ ascii "/<0;1>/*)") = .ok work ∧ Reproduces descriptor work ∧
      Faithful descriptor work := by
  have parsed : descriptor_text_parse (fun _ => []) (ascii "pkh(" ++ someKey ++ ascii "/<0;1>/*)") =
      .ok (⟨ascii "pkh(@0/<0;1>/*)", [⟨ascii "@0", someKey⟩], .UNKNOWN⟩, ascii "desc-") := by decide +kernel
  have read : scanned (ascii "pkh(" ++ someKey ++ ascii "/<0;1>/*)") =
      .ok (ascii "pkh(" ++ someKey ++ ascii "/<0;1>/*)") := by decide +kernel
  obtain ⟨work, same, _, faithful⟩ := faithful_iff_clean parsed
  obtain rfl := Except.ok.inj (read.symm.trans same)
  exact ⟨_, _, _, parsed, read, faithful.mpr (by decide +kernel)⟩

/-- A placeholder in the scanned text becomes the signer of the record. -/
theorem scanned_placeholder_signs : ∃ descriptor name work,
    descriptor_text_parse (fun _ => []) (ascii "wsh(sortedmulti(1,@0/<0;1>/*," ++ someKey ++ ascii "/<0;1>/*))") =
      .ok (descriptor, name) ∧
    scanned (ascii "wsh(sortedmulti(1,@0/<0;1>/*," ++ someKey ++ ascii "/<0;1>/*))") = .ok work ∧
    ¬ (Reproduces descriptor work ∧ Faithful descriptor work) := by
  have parsed : descriptor_text_parse (fun _ => [])
      (ascii "wsh(sortedmulti(1,@0/<0;1>/*," ++ someKey ++ ascii "/<0;1>/*))") =
      .ok (⟨ascii "wsh(sortedmulti(1,@0/<0;1>/*,@0/<0;1>/*))", [⟨ascii "@0", someKey⟩], .UNKNOWN⟩, ascii "desc-") := by
    decide +kernel
  have read : scanned (ascii "wsh(sortedmulti(1,@0/<0;1>/*," ++ someKey ++ ascii "/<0;1>/*))") =
      .ok (ascii "wsh(sortedmulti(1,@0/<0;1>/*," ++ someKey ++ ascii "/<0;1>/*))") := by decide +kernel
  obtain ⟨work, same, _, faithful⟩ := record_clean parsed
  obtain rfl := Except.ok.inj (read.symm.trans same)
  refine ⟨_, _, _, parsed, read, fun both => ?_⟩
  have clean := faithful.mp both
  revert clean
  decide +kernel

end PiJade.DescriptorText
