import PiJade.JsonMembers

/-!
White space in JSON exports (`main/descriptor_text.c`). The member that is looked up stays where it
is when its export is spaced in another way, unless the space goes into an escape sequence or into
the name of the member.
-/
namespace PiJade.DescriptorText
open Text Json
set_option linter.unusedSimpArgs false

/-! ### Spaced texts -/

/-- Where a character is read. -/
inductive Place where
  | outside | string | escape
  deriving DecidableEq, Repr

def Place.next : Place → UInt8 → Place
  | .outside, c => if c = quote then .string else .outside
  | .string, c => if c = quote then .outside else if c = backslash then .escape else .string
  | .escape, _ => .string

/-- White space goes anywhere but into an escape sequence. -/
inductive Spaced : Place → Bytes → Bytes → Prop
  | nil {place : Place} : Spaced place [] []
  | keep {place : Place} {c : UInt8} {x x' : Bytes} (later : Spaced (place.next c) x x') : Spaced place (c :: x) (c :: x')
  | blank {place : Place} {c : UInt8} {x x' : Bytes} (space : isspace c = true) (whole : place ≠ .escape)
      (later : Spaced place x x') : Spaced place x (c :: x')

theorem Spaced.refl (place : Place) (x : Bytes) : Spaced place x x := by
  induction x generalizing place with
  | nil => exact .nil
  | cons c x ih => exact .keep (ih _)

theorem space_ne {c d : UInt8} (space : isspace c = true) (visible : isspace d = false) : c ≠ d := by
  rintro rfl
  rw [space] at visible
  cases visible

theorem next_space {place : Place} {c : UInt8} (space : isspace c = true) (whole : place ≠ .escape) : place.next c = place := by
  cases place with
  | outside => exact if_neg (space_ne space rfl)
  | string => exact (if_neg (space_ne space rfl)).trans (if_neg (space_ne space rfl))
  | escape => exact absurd rfl whole

theorem visible_of_tolower {c : UInt8} (visible : isspace (tolower c) = false) : isspace c = false := by
  have table : ∀ n < 256, isspace (tolower (UInt8.ofNat n)) = isspace (UInt8.ofNat n) := by decide +kernel
  have same := table c.toNat c.toNat_lt
  rw [UInt8.ofNat_toNat] at same
  rw [← same, visible]

/-- Where no space was put in, the text is as it was. -/
theorem Spaced.eq_of_visible {place : Place} {x x' : Bytes} (spaced : Spaced place x x')
    (visible : ∀ c ∈ x', isspace c = false) : x' = x := by
  induction spaced with
  | nil => rfl
  | keep _ ih => rw [ih fun d inside => visible d (List.mem_cons_of_mem _ inside)]
  | blank space _ _ _ =>
    have contrary := visible _ List.mem_cons_self
    rw [space] at contrary
    cases contrary

theorem Spaced.blank_of_blank {place : Place} {x x' : Bytes} (spaced : Spaced place x x')
    (blank : ∀ c ∈ x, isspace c = true) : ∀ c ∈ x', isspace c = true := by
  induction spaced with
  | nil => exact blank
  | keep _ ih =>
    intro d inside
    rcases List.mem_cons.mp inside with rfl | later
    · exact blank _ List.mem_cons_self
    · exact ih (fun d inside => blank d (List.mem_cons_of_mem _ inside)) d later
  | blank space _ _ ih =>
    intro d inside
    rcases List.mem_cons.mp inside with rfl | later
    · exact space
    · exact ih blank d later

/-! ### Strings -/

/-- Past the end of the string a place is in. -/
def skipFrom : Place → Bytes → Option Bytes
  | .outside, p => some p
  | .string, p => json_skip_string p
  | .escape, p => json_skip_string (p.drop 1)

theorem skipFrom_cons {place : Place} (within : place ≠ .outside) (c : UInt8) (p : Bytes) :
    skipFrom place (c :: p) = skipFrom (place.next c) p := by
  cases place with
  | outside => exact absurd rfl within
  | string =>
    rw [skipFrom, Place.next]
    by_cases quoted : c = quote
    · rw [if_pos quoted, quoted, json_skip_string_quote, skipFrom]
    · by_cases escaping : c = backslash
      · rw [if_neg quoted, if_pos escaping, escaping, skipFrom]
        cases p with
        | nil => rfl
        | cons d p => rw [json_skip_string_escape, List.drop_succ_cons, List.drop_zero]
      · rw [if_neg quoted, if_neg escaping, json_skip_string_char ⟨quoted, escaping⟩, skipFrom]
  | escape => rw [skipFrom, Place.next, List.drop_succ_cons, List.drop_zero, skipFrom]

theorem skipFrom_nil {place : Place} (within : place ≠ .outside) : skipFrom place [] = none := by
  cases place with
  | outside => exact absurd rfl within
  | string => rfl
  | escape => rfl

/-- What a string is followed by does not matter to where it ends. -/
theorem skipFrom_split {place : Place} (within : place ≠ .outside) {p q : Bytes} (skipped : skipFrom place p = some q) :
    ∃ s, p = s ++ quote :: q ∧ ∀ behind, skipFrom place (s ++ quote :: behind) = some behind := by
  induction p generalizing place with
  | nil =>
    rw [skipFrom_nil within] at skipped
    cases skipped
  | cons c p ih =>
    rw [skipFrom_cons within] at skipped
    by_cases ends : place.next c = .outside
    · rw [ends, skipFrom, Option.some.injEq] at skipped
      have closing : place = .string ∧ c = quote := by
        cases place with
        | outside => exact absurd rfl within
        | string =>
          rw [Place.next] at ends
          split at ends
          · exact ⟨rfl, by assumption⟩
          · split at ends <;> cases ends
        | escape => cases ends
      obtain ⟨rfl, rfl⟩ := closing
      exact ⟨[], by rw [skipped]; rfl, fun behind => json_skip_string_quote behind⟩
    · obtain ⟨s, rfl, later⟩ := ih ends skipped
      refine ⟨c :: s, rfl, fun behind => ?_⟩
      rw [List.cons_append, skipFrom_cons within, later]

theorem skipFrom_length {place : Place} (within : place ≠ .outside) {p q : Bytes} (skipped : skipFrom place p = some q) :
    q.length < p.length := by
  obtain ⟨s, rfl, _⟩ := skipFrom_split within skipped
  simp only [List.length_append, List.length_cons]
  omega

/-- A spaced string ends where it ended. -/
theorem skipFrom_spaced {place : Place} (within : place ≠ .outside) {x x' : Bytes} (spaced : Spaced place x x') {n q : Bytes}
    (skipped : skipFrom place (x ++ quote :: n) = some q) (before : (quote :: n).length ≤ q.length) :
    ∃ s s' y y', x = s ++ quote :: y ∧ x' = s' ++ quote :: y' ∧ q = y ++ quote :: n ∧ Spaced place s s' ∧
      Spaced .outside y y' ∧ ∀ n', skipFrom place (x' ++ quote :: n') = some (y' ++ quote :: n') := by
  induction spaced with
  | nil =>
    have shorter := skipFrom_length within skipped
    rw [List.nil_append] at shorter
    omega
  | @keep place c x x' later ih =>
    rw [List.cons_append, skipFrom_cons within] at skipped
    by_cases ends : place.next c = .outside
    · have closing : c = quote := by
        cases place with
        | outside => exact absurd rfl within
        | string =>
          rw [Place.next] at ends
          split at ends
          · assumption
          · split at ends <;> cases ends
        | escape => cases ends
      subst closing
      rw [ends] at later
      rw [ends, skipFrom, Option.some.injEq] at skipped
      refine ⟨[], [], x, x', rfl, rfl, skipped.symm, .nil, later, fun n' => ?_⟩
      rw [List.cons_append, skipFrom_cons within, ends, skipFrom]
    · obtain ⟨s, s', y, y', rfl, rfl, same, string, rest, run⟩ := ih ends skipped
      refine ⟨c :: s, c :: s', y, y', rfl, rfl, same, .keep string, rest, fun n' => ?_⟩
      rw [List.cons_append, skipFrom_cons within, run]
  | @blank place c x x' space whole later ih =>
    obtain ⟨s, s', y, y', rfl, rfl, same, string, rest, run⟩ := ih within skipped
    refine ⟨s, c :: s', y, y', rfl, rfl, same, .blank space whole string, rest, fun n' => ?_⟩
    rw [List.cons_append, skipFrom_cons within, next_space space whole, run]

/-! ### White space and values -/

theorem skip_ws_length (p : Bytes) : (skip_ws p).length ≤ p.length := (List.dropWhile_sublist _).length_le

theorem skip_ws_suffix (p : Bytes) : skip_ws p <:+ p := List.dropWhile_suffix _

/-- The first character behind some white space is the same. -/
theorem skip_ws_spaced {x x' : Bytes} (spaced : Spaced .outside x x') {n z : Bytes} {c : UInt8}
    (skipped : skip_ws (x ++ quote :: n) = c :: z) (before : (quote :: n).length ≤ z.length) :
    ∃ w w', z = w ++ quote :: n ∧ Spaced (Place.outside.next c) w w' ∧ isspace c = false ∧
      ∀ n', skip_ws (x' ++ quote :: n') = c :: (w' ++ quote :: n') := by
  generalize outside : Place.outside = place at spaced
  induction spaced with
  | nil =>
    have shorter := skip_ws_length ([] ++ quote :: n)
    rw [skipped, List.nil_append, List.length_cons] at shorter
    omega
  | @keep place d x x' later ih =>
    subst outside
    by_cases space : isspace d = true
    · rw [next_space space (by decide)] at later ih
      rw [List.cons_append, skip_ws, List.dropWhile_cons_of_pos space, ← skip_ws] at skipped
      obtain ⟨w, w', same, string, visible, run⟩ := ih skipped rfl
      refine ⟨w, w', same, string, visible, fun n' => ?_⟩
      rw [List.cons_append, skip_ws, List.dropWhile_cons_of_pos space, ← skip_ws, run]
    · rw [List.cons_append, skip_ws, List.dropWhile_cons_of_neg space, List.cons.injEq] at skipped
      obtain ⟨rfl, rfl⟩ := skipped
      refine ⟨x, x', rfl, later, Bool.eq_false_iff.mpr space, fun n' => ?_⟩
      rw [List.cons_append, skip_ws, List.dropWhile_cons_of_neg space]
  | @blank place d x x' space whole later ih =>
    obtain ⟨w, w', same, string, visible, run⟩ := ih skipped outside
    refine ⟨w, w', same, string, visible, fun n' => ?_⟩
    rw [List.cons_append, skip_ws, List.dropWhile_cons_of_pos space, ← skip_ws, run]

theorem skipValue_space {c : UInt8} (space : isspace c = true) (depth : Nat) (p : Bytes) :
    skipValue depth (c :: p) = skipValue depth p := by
  rw [skipValue_cons, if_neg (space_ne space rfl), if_neg (not_or.mpr ⟨space_ne space rfl, space_ne space rfl⟩),
    if_neg (not_or.mpr ⟨space_ne space rfl, space_ne space rfl⟩), if_neg fun both => space_ne space rfl both.1]

/-- A spaced value ends where it ended. -/
theorem skipValue_spaced {x x' : Bytes} (spaced : Spaced .outside x x') {depth : Nat} {n q : Bytes}
    (skipped : skipValue depth (x ++ quote :: n) = some q) (before : (quote :: n).length ≤ q.length) :
    ∃ y y', q = y ++ quote :: n ∧ Spaced .outside y y' ∧
      ∀ n', skipValue depth (x' ++ quote :: n') = some (y' ++ quote :: n') := by
  induction size : x'.length using Nat.strong_induction_on generalizing x x' depth with
  | _ length ih =>
  cases spaced with
  | nil =>
    rw [List.nil_append, skipValue_cons, if_pos rfl] at skipped
    obtain ⟨p, ended, continued⟩ := Option.bind_eq_some_iff.mp skipped
    have shorter := json_skip_string_length ended
    rw [List.length_cons] at before
    split at continued
    · cases continued
      omega
    · have still := skipValue_length continued
      omega
  | @blank _ c x x' space _ later =>
    obtain ⟨y, y', same, rest, run⟩ := ih x'.length (by rw [← size]; exact Nat.lt_succ_self _) later skipped rfl
    refine ⟨y, y', same, rest, fun n' => ?_⟩
    rw [List.cons_append, skipValue_space space, run]
  | @keep _ c x x' later =>
    rw [List.length_cons] at size
    rw [List.cons_append, skipValue_cons] at skipped
    by_cases opening : c = quote
    · subst opening
      rw [if_pos rfl] at skipped
      obtain ⟨p, ended, continued⟩ := Option.bind_eq_some_iff.mp skipped
      have still : q.length ≤ p.length := by
        split at continued
        · cases continued
          exact Nat.le_refl _
        · exact skipValue_length continued
      obtain ⟨s, s', y, y', rfl, rfl, rfl, _, rest, run⟩ :=
        @skipFrom_spaced .string (by decide) x x' later n p ended (Nat.le_trans before still)
      have ended' : ∀ n', json_skip_string ((s' ++ quote :: y') ++ quote :: n') = some (y' ++ quote :: n') := run
      by_cases top : depth = 0
      · rw [if_pos top, Option.some.injEq] at continued
        refine ⟨y, y', continued.symm, rest, fun n' => ?_⟩
        rw [List.cons_append, skipValue_cons, if_pos rfl, ended', Option.bind_some, if_pos top]
      · rw [if_neg top] at continued
        have shorter : y'.length < length := by
          rw [← size, List.length_append, List.length_cons]
          omega
        obtain ⟨z, z', same, later', run'⟩ := ih y'.length shorter rest continued rfl
        refine ⟨z, z', same, later', fun n' => ?_⟩
        rw [List.cons_append, skipValue_cons, if_pos rfl, ended', Option.bind_some, if_neg top, run']
    · have outside : Place.outside.next c = .outside := if_neg opening
      rw [outside] at later
      rw [if_neg opening] at skipped
      have further : ∀ {depth : Nat}, skipValue depth (x ++ quote :: n) = some q → ∃ y y', q = y ++ quote :: n ∧
          Spaced .outside y y' ∧ ∀ n', skipValue depth (x' ++ quote :: n') = some (y' ++ quote :: n') :=
        fun skipped => ih x'.length (by omega) later skipped rfl
      have stays : ∀ {p}, some (c :: (x ++ quote :: n)) = some p → p = (c :: x) ++ quote :: n := fun same => by
        cases same
        rfl
      have here : Spaced .outside (c :: x) (c :: x') := .keep (by rw [outside]; exact later)
      split at skipped
      · rename_i bracket
        obtain ⟨y, y', same, rest, run⟩ := further skipped
        exact ⟨y, y', same, rest, fun n' => by rw [List.cons_append, skipValue_cons, if_neg opening, if_pos bracket, run]⟩
      rename_i no_bracket
      split at skipped
      · rename_i bracket
        split at skipped
        · rename_i top
          exact ⟨c :: x, c :: x', stays skipped, here, fun n' => by
            rw [List.cons_append, skipValue_cons, if_neg opening, if_neg no_bracket, if_pos bracket, if_pos top]⟩
        rename_i below
        split at skipped
        · rename_i last
          cases skipped
          exact ⟨x, x', rfl, later, fun n' => by
            rw [List.cons_append, skipValue_cons, if_neg opening, if_neg no_bracket, if_pos bracket, if_neg below, if_pos last]⟩
        · rename_i deeper
          obtain ⟨y, y', same, rest, run⟩ := further skipped
          exact ⟨y, y', same, rest, fun n' => by
            rw [List.cons_append, skipValue_cons, if_neg opening, if_neg no_bracket, if_pos bracket, if_neg below,
              if_neg deeper, run]⟩
      rename_i no_close
      split at skipped
      · rename_i separator
        exact ⟨c :: x, c :: x', stays skipped, here, fun n' => by
          rw [List.cons_append, skipValue_cons, if_neg opening, if_neg no_bracket, if_neg no_close, if_pos separator]⟩
      · rename_i other
        obtain ⟨y, y', same, rest, run⟩ := further skipped
        exact ⟨y, y', same, rest, fun n' => by
          rw [List.cons_append, skipValue_cons, if_neg opening, if_neg no_bracket, if_neg no_close, if_neg other, run]⟩


/-! ### Members -/

def Colon (gap : Bytes) : Prop :=
  ∃ before behind, (∀ c ∈ before, isspace c = true) ∧ (∀ c ∈ behind, isspace c = true) ∧ gap = before ++ ':'.toUInt8 :: behind

/-- The name of a member stands here, as it is written. -/
structure Names (key name : Bytes) : Prop where
  same : name.map tolower = key.map tolower
  whole : ∀ behind, json_skip_string (name ++ quote :: behind) = some behind

theorem skip_ws_split (p : Bytes) : ∃ blanks, (∀ c ∈ blanks, isspace c = true) ∧ p = blanks ++ skip_ws p :=
  ⟨p.takeWhile isspace, fun _ inside => List.mem_takeWhile_imp inside, List.takeWhile_append_dropWhile.symm⟩

theorem head_cons {p : Bytes} {c : UInt8} (first : ¬ p.head? ≠ some c) : ∃ rest, p = c :: rest :=
  List.head?_eq_some_iff.mp (not_not.mp first)

theorem taken_name (s q : Bytes) : (s ++ quote :: q).take ((s ++ quote :: q).length - q.length - 1) = s := by
  have size : (s ++ quote :: q).length - q.length - 1 = s.length := by
    rw [List.length_append, List.length_cons]
    omega
  rw [size, List.take_left]

theorem findMember_found {key name : Bytes} (names : Names key name) {rounds : Nat} {sep : UInt8} {blanks gap : Bytes}
    (blank : ∀ c ∈ blanks, isspace c = true) (colon : Colon gap) (value : Bytes) :
    findMember key (rounds + 1) (sep :: (blanks ++ quote :: (name ++ quote :: (gap ++ value)))) = some (skip_ws value) := by
  obtain ⟨before, behind, before_blank, behind_blank, rfl⟩ := colon
  rw [findMember, List.drop_succ_cons, List.drop_zero, skip_ws_blank blank rfl]
  dsimp only
  rw [if_neg (by simp [quote]), List.drop_succ_cons, List.drop_zero, names.whole]
  dsimp only
  rw [taken_name, if_pos names.same, List.append_assoc, List.cons_append, skip_ws_blank before_blank rfl, if_neg (by simp),
    List.drop_succ_cons, List.drop_zero, skip_ws, List.dropWhile_append_of_pos behind_blank, ← skip_ws]

/-- One member that is passed by. -/
theorem findMember_other {key name rest : Bytes} {rounds : Nat} {sep : UInt8} {p p₁ p₂ p₃ p₄ : Bytes}
    (start : skip_ws p = quote :: (name ++ quote :: p₁)) (ended : json_skip_string (name ++ quote :: p₁) = some p₁)
    (other : name.map tolower ≠ key.map tolower) (colon : skip_ws p₁ = ':'.toUInt8 :: p₂) (value : skip_ws p₂ = p₃)
    (skipped : skipValue 0 p₃ = some p₄) (comma : skip_ws p₄ = ','.toUInt8 :: rest) :
    findMember key (rounds + 1) (sep :: p) = findMember key rounds (','.toUInt8 :: rest) := by
  rw [findMember, List.drop_succ_cons, List.drop_zero, start]
  dsimp only
  rw [if_neg (by simp [quote]), List.drop_succ_cons, List.drop_zero, ended]
  dsimp only
  rw [taken_name, colon, if_neg (by simp), if_neg other, List.drop_succ_cons, List.drop_zero, value, ← skipValue, skipped]
  dsimp only
  rw [comma, if_neg (by simp)]

theorem findMember_cases {key : Bytes} {rounds : Nat} {sep : UInt8} {p v : Bytes}
    (found : findMember key (rounds + 1) (sep :: p) = some v) :
    ∃ name p₁ p₂, skip_ws p = quote :: (name ++ quote :: p₁) ∧ (∀ behind, json_skip_string (name ++ quote :: behind) = some behind) ∧
      skip_ws p₁ = ':'.toUInt8 :: p₂ ∧
      (name.map tolower = key.map tolower ∧ v = skip_ws p₂ ∨ name.map tolower ≠ key.map tolower ∧ ∃ p₄ rest,
        skipValue 0 (skip_ws p₂) = some p₄ ∧ skip_ws p₄ = ','.toUInt8 :: rest ∧
          findMember key rounds (','.toUInt8 :: rest) = some v) := by
  rw [findMember, List.drop_succ_cons, List.drop_zero] at found
  dsimp only at found
  split at found
  · cases found
  rename_i opened
  obtain ⟨n, start⟩ := head_cons opened
  rw [start, List.drop_succ_cons, List.drop_zero] at found
  split at found
  · cases found
  rename_i p₁ ended
  obtain ⟨name, rfl, whole⟩ := @skipFrom_split .string (by decide) n p₁ ended
  rw [taken_name] at found
  split at found
  · cases found
  rename_i coloned
  obtain ⟨p₂, colon⟩ := head_cons coloned
  rw [colon, List.drop_succ_cons, List.drop_zero] at found
  refine ⟨name, p₁, p₂, start, whole, colon, ?_⟩
  split at found
  · rename_i same
    cases found
    exact .inl ⟨same, rfl⟩
  rename_i other
  split at found
  · cases found
  rename_i p₄ skipped
  split at found
  · cases found
  rename_i separated
  obtain ⟨rest, comma⟩ := head_cons separated
  rw [comma] at found
  exact .inr ⟨other, p₄, rest, skipped, comma, found⟩

/-- In front of a member, white space can be put in wherever it does not split an escape sequence. -/
theorem findMember_spaced {key : Bytes} (visible : ∀ c ∈ key.map tolower, isspace c = false) {rounds : Nat} {sep : UInt8}
    {p v : Bytes} (found : findMember key rounds (sep :: p) = some v) :
    ∃ x name gap, p = x ++ quote :: (name ++ quote :: (gap ++ v)) ∧ Names key name ∧ Colon gap ∧
      ∀ {x'}, Spaced .outside x x' → ∀ {gap' : Bytes}, Colon gap' → ∀ (value : Bytes) {rounds' : Nat}, x.length < rounds' →
        findMember key rounds' (sep :: (x' ++ quote :: (name ++ quote :: (gap' ++ value)))) = some (skip_ws value) := by
  induction rounds generalizing sep p with
  | zero => cases found
  | succ rounds ih =>
    obtain ⟨name, p₁, p₂, start, whole, colon, here | ⟨other, p₄, rest, skipped, comma, later⟩⟩ := findMember_cases found
    · obtain ⟨same, rfl⟩ := here
      obtain ⟨blanks, blank, split⟩ := skip_ws_split p
      obtain ⟨before, before_blank, split₁⟩ := skip_ws_split p₁
      obtain ⟨behind, behind_blank, split₂⟩ := skip_ws_split p₂
      refine ⟨blanks, name, before ++ ':'.toUInt8 :: behind, ?_, ⟨same, whole⟩, ⟨before, behind, before_blank, behind_blank, rfl⟩, ?_⟩
      · rw [List.append_assoc, List.cons_append, ← split₂, ← colon, ← split₁, ← start, ← split]
      · intro x' spaced gap' colon' value rounds' enough
        obtain ⟨rounds', rfl⟩ : ∃ n, rounds' = n + 1 := ⟨rounds' - 1, by omega⟩
        exact findMember_found ⟨same, whole⟩ (spaced.blank_of_blank blank) colon' value
    · obtain ⟨x, found_name, gap, rfl, names, gap_colon, run⟩ := ih later
      -- everything up to the separator is in front of the member
      have value_in := skipValue_suffix skipped
      have rest_in : ','.toUInt8 :: (x ++ quote :: (found_name ++ quote :: (gap ++ v))) <:+ p₂ :=
        (comma ▸ skip_ws_suffix p₄).trans (value_in.trans (skip_ws_suffix p₂))
      have colon_in : ':'.toUInt8 :: p₂ <:+ p₁ := colon ▸ skip_ws_suffix p₁
      have string_in := json_skip_string_suffix (whole p₁)
      have start_in : quote :: (name ++ quote :: p₁) <:+ p := start ▸ skip_ws_suffix p
      obtain ⟨front, rfl⟩ := rest_in.trans ((List.suffix_cons _ _).trans (colon_in.trans (string_in.trans
        ((List.suffix_cons _ _).trans start_in))))
      have long₀ := rest_in.length_le
      have long₁ := colon_in.length_le
      have long₂ := value_in.length_le
      have long₃ := (skip_ws_suffix p₄).length_le
      rw [comma] at long₃
      simp only [List.length_cons, List.length_append] at long₀ long₁ long₃
      refine ⟨front ++ ','.toUInt8 :: x, found_name, gap, by simp, names, gap_colon, ?_⟩
      intro x' spaced gap' colon' behind rounds' enough
      rw [show front ++ ','.toUInt8 :: (x ++ quote :: (found_name ++ quote :: (gap ++ v))) =
        (front ++ ','.toUInt8 :: x) ++ quote :: (found_name ++ quote :: (gap ++ v)) by simp] at start
      have size : (found_name ++ quote :: (gap ++ v)).length = found_name.length + (gap.length + v.length + 1) := by
        simp only [List.length_cons, List.length_append]
      generalize found_name ++ quote :: (gap ++ v) = n at *
      have bound : (quote :: n).length = n.length + 1 := rfl
      obtain ⟨w, w', text, in_name, _, run₁⟩ := skip_ws_spaced spaced start (by
        simp only [List.length_append, List.length_cons]
        omega)
      have ended := whole p₁
      rw [text] at ended
      obtain ⟨s, s', y, y', rfl, rfl, rfl, string, outside, run₂⟩ :=
        @skipFrom_spaced .string (by decide) w w' in_name n p₁ ended (by omega)
      have name_eq : name = s := by
        rw [List.append_assoc, List.cons_append] at text
        exact List.append_cancel_right text
      subst name_eq
      have other' : s'.map tolower ≠ key.map tolower := by
        intro same
        refine other ?_
        rw [← string.eq_of_visible fun c inside => ?_, same]
        exact visible_of_tolower (visible _ (same ▸ List.mem_map_of_mem inside))
      obtain ⟨w₂, w₂', rfl, outside₂, _, run₃⟩ := skip_ws_spaced outside colon (by omega)
      cases value : skip_ws (w₂ ++ quote :: n) with
      | nil =>
        rw [value] at skipped
        cases skipped
      | cons c₃ z =>
        rw [value] at skipped long₂
        rw [List.length_cons] at long₂
        obtain ⟨w₃, w₃', rfl, outside₃, _, run₄⟩ := skip_ws_spaced outside₂ value (by omega)
        obtain ⟨y₄, y₄', rfl, outside₄, run₅⟩ := skipValue_spaced (Spaced.keep outside₃) skipped (by omega)
        obtain ⟨w₆, w₆', same, outside₆, _, run₆⟩ := skip_ws_spaced outside₄ comma (by
          rw [List.length_append]
          omega)
        obtain rfl := List.append_cancel_right same
        obtain ⟨rounds', rfl⟩ : ∃ n, rounds' = n + 1 := ⟨rounds' - 1, by omega⟩
        have shorter : x.length < rounds' := by
          rw [List.length_append, List.length_cons] at enough
          omega
        have start' := run₁ (found_name ++ quote :: (gap' ++ behind))
        rw [List.append_assoc, List.cons_append] at start'
        rw [findMember_other start' ?_ other' (run₃ _) rfl ?_ (run₆ _)]
        · exact run outside₆ colon' behind shorter
        · have ended' := run₂ (found_name ++ quote :: (gap' ++ behind))
          rwa [List.append_assoc, List.cons_append] at ended'
        · rw [run₄]
          exact run₅ _

/-! ### Strings that are copied -/

theorem copyString_unescaped {raw text : Bytes} (read : Unescaped raw text) (tail : Bytes) {out_len : Nat} :
    ∀ {out : Bytes}, (out ++ text).length < out_len → copyString out_len out (raw ++ quote :: tail) = some (out ++ text) := by
  induction read with
  | nil =>
    intro out _
    rw [List.nil_append, copyString_quote, List.append_nil]
  | @char c raw text other _ ih =>
    intro out room
    rw [List.append_cons] at room
    have later := ih room
    rw [← List.append_cons] at later
    have first : ¬ out.length + 1 ≥ out_len := by
      simp only [List.length_append, List.length_cons] at room
      omega
    rw [List.cons_append, copyString_char other, if_neg first, later]
  | @escape c raw text simple _ ih =>
    intro out room
    rw [List.append_cons] at room
    have later := ih room
    rw [← List.append_cons] at later
    have first : ¬ out.length + 1 ≥ out_len := by
      simp only [List.length_append, List.length_cons] at room
      omega
    have known : ¬ (c ≠ quote ∧ c ≠ backslash ∧ c ≠ '/'.toUInt8) := by tauto
    rw [List.cons_append, List.cons_append, copyString_escape, if_neg known, if_neg first, later]

theorem copyString_split {out_len : Nat} : ∀ {out p result : Bytes}, copyString out_len out p = some result →
    ∃ raw tail text, p = raw ++ quote :: tail ∧ Unescaped raw text ∧ result = out ++ text
  | out, [], result, copied => by simp [copyString] at copied
  | out, c :: rest, result, copied => by
    by_cases quoted : c = quote
    · subst quoted
      rw [copyString_quote, Option.some.injEq] at copied
      exact ⟨[], rest, [], rfl, .nil, by rw [List.append_nil, copied]⟩
    · by_cases escaping : c = backslash
      · subst escaping
        cases rest with
        | nil => cases copied
        | cons e rest =>
          rw [copyString_escape] at copied
          split at copied
          · cases copied
          rename_i known
          split at copied
          · cases copied
          obtain ⟨raw, tail, text, rfl, read, rfl⟩ := copyString_split copied
          refine ⟨backslash :: e :: raw, tail, e :: text, rfl, .escape ?_ read, by simp⟩
          tauto
      · rw [copyString_char ⟨quoted, escaping⟩] at copied
        split at copied
        · cases copied
        obtain ⟨raw, tail, text, rfl, read, rfl⟩ := copyString_split copied
        exact ⟨c :: raw, tail, c :: text, rfl, .char ⟨quoted, escaping⟩ read, by simp⟩

theorem Unescaped.length_le {raw text : Bytes} (read : Unescaped raw text) : text.length ≤ raw.length := by
  induction read with
  | nil => exact Nat.le_refl _
  | char _ _ ih => exact Nat.succ_le_succ ih
  | escape _ _ ih =>
    simp only [List.length_cons]
    omega

theorem Unescaped.subset {raw text : Bytes} (read : Unescaped raw text) : ∀ c ∈ text, c ∈ raw := by
  induction read with
  | nil => exact fun _ inside => inside
  | char _ _ ih => exact fun c inside => List.cons_subset_cons _ ih inside
  | escape _ _ ih => exact fun c inside => List.mem_cons_of_mem _ (List.cons_subset_cons _ ih inside)

/-! ### Exports -/

/-- An export in the parts it is read in: everything up to the name of a member, the name, the colon,
the string that is its value, and the rest. -/
structure Export where
  front : Bytes
  name : Bytes
  gap : Bytes
  raw : Bytes
  tail : Bytes

def Export.text (e : Export) : Bytes := e.front ++ (quoted e.name ++ (e.gap ++ (quoted e.raw ++ e.tail)))

/-- The string is what a lookup finds. -/
structure Export.Reads (e : Export) (key result : Bytes) : Prop where
  opens : (skip_ws e.text).head? = some '{'.toUInt8
  found : findMember key ((skip_ws e.text).length + 1) (skip_ws e.text) = some (quoted e.raw ++ e.tail)
  name : e.name.map tolower = key.map tolower
  gap : Colon e.gap
  string : Unescaped e.raw result

/-- The same member behind another front. -/
structure Export.Respaced (e e' : Export) : Prop where
  front : Spaced .outside e.front e'.front
  name : e'.name = e.name
  gap : Colon e'.gap

theorem quoted_append (body rest : Bytes) : quoted body ++ rest = quote :: (body ++ quote :: rest) := by
  rw [quoted, List.cons_append, List.append_assoc, List.singleton_append]

theorem skip_ws_again (p : Bytes) : skip_ws (skip_ws p) = skip_ws p := by
  cases start : skip_ws p with
  | nil => rfl
  | cons c rest =>
    have visible : isspace c = false := by
      have first := List.head?_dropWhile_not isspace p
      rw [← skip_ws, start] at first
      exact first
    exact @skip_ws_blank [] (by simp) _ visible rest

theorem Spaced.length_le {place : Place} {x x' : Bytes} (spaced : Spaced place x x') : x.length ≤ x'.length := by
  induction spaced with
  | nil => exact Nat.le_refl _
  | keep _ ih => exact Nat.succ_le_succ ih
  | blank _ _ _ ih => exact Nat.le_succ_of_le ih

theorem Export.Reads.lookup {e : Export} {key result : Bytes} (reads : e.Reads key result) {out_len : Nat}
    (room : result.length < out_len) : json_get_string (skip_ws e.text) key out_len = some result := by
  have copied := @copyString_unescaped e.raw result reads.string e.tail out_len [] room
  rw [json_get_string, skip_ws_again, if_neg (by rw [reads.opens]; simp), reads.found, quoted_append]
  dsimp only
  rw [if_neg (by simp [quote]), List.drop_succ_cons, List.drop_zero, copied, List.nil_append]

/-- A lookup that succeeds has read an export, and finds its member behind any other front. -/
theorem export_of_lookup {text key result : Bytes} {out_len : Nat} (visible : ∀ c ∈ key.map tolower, isspace c = false)
    (looked_up : json_get_string (skip_ws text) key out_len = some result) :
    ∃ e : Export, text = e.text ∧ e.Reads key result ∧
      ∀ {e' : Export} {result' : Bytes}, e.Respaced e' → Unescaped e'.raw result' → e'.Reads key result' := by
  rw [json_get_string, skip_ws_again] at looked_up
  split at looked_up
  · cases looked_up
  rename_i opened
  obtain ⟨rest, start⟩ := head_cons opened
  split at looked_up
  · cases looked_up
  rename_i v found
  split at looked_up
  · cases looked_up
  rename_i quoted_value
  obtain ⟨q, rfl⟩ := head_cons quoted_value
  rw [List.drop_succ_cons, List.drop_zero] at looked_up
  obtain ⟨raw, tail, _, rfl, string, rfl⟩ := copyString_split looked_up
  rw [start] at found
  obtain ⟨x, name, gap, rfl, names, colon, run⟩ := findMember_spaced visible found
  obtain ⟨lead, lead_blank, split⟩ := skip_ws_split text
  have whole : text = (Export.mk (lead ++ '{'.toUInt8 :: x) name gap raw tail).text := by
    rw [split, start, Export.text]
    simp [quoted, quote]
  refine ⟨⟨lead ++ '{'.toUInt8 :: x, name, gap, raw, tail⟩, whole, ⟨?_, ?_, names.same, colon, string⟩, ?_⟩
  · rw [← whole, start, List.head?_cons]
  · rw [← whole, start, found, quoted_append]
    rfl
  · intro e' result' respaced string'
    have reached : skip_ws ((lead ++ '{'.toUInt8 :: x) ++ quote :: []) = '{'.toUInt8 :: (x ++ quote :: []) := by
      rw [List.append_assoc, List.cons_append, skip_ws_blank lead_blank rfl]
    obtain ⟨w, w', same, outside, _, run'⟩ := skip_ws_spaced respaced.front reached (by simp)
    obtain rfl := List.append_cancel_right same
    have start' : skip_ws e'.text = '{'.toUInt8 :: (w' ++ quote :: (name ++ quote :: (e'.gap ++ (quoted e'.raw ++ e'.tail)))) := by
      rw [Export.text, quoted_append, run', respaced.name]
    refine ⟨by rw [start']; rfl, ?_, by rw [respaced.name]; exact names.same, respaced.gap, string'⟩
    have longer := outside.length_le
    rw [start', run outside respaced.gap, quoted_append]
    · exact congrArg some (@skip_ws_blank [] (by simp) _ rfl _)
    · simp only [List.length_cons, List.length_append]
      omega

end PiJade.DescriptorText
