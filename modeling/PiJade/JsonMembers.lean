import PiJade.DescriptorText
import PiJade.Json

/-!
Members of JSON exports (`main/descriptor_text.c`). Values are skipped by counting brackets and
jumping over strings; on a text that is an object this finds its own members and no others, and
the text of a string is taken unless it has an escape that is not one of three.
-/
namespace PiJade.DescriptorText
open Text Json
set_option linter.unusedSimpArgs false

theorem skip_ws_blank {lead : Bytes} (blank : ∀ c ∈ lead, isspace c = true) {c : UInt8} (visible : isspace c = false)
    (behind : Bytes) : skip_ws (lead ++ c :: behind) = c :: behind := by
  rw [skip_ws, List.dropWhile_append_of_pos blank, List.dropWhile_cons_of_neg (by simp [visible])]

/-! ### Strings -/

theorem json_skip_string_quote (rest : Bytes) : json_skip_string (quote :: rest) = some rest := by
  rw [json_skip_string.eq_def]
  exact if_pos rfl

theorem json_skip_string_escape (c : UInt8) (rest : Bytes) :
    json_skip_string (backslash :: c :: rest) = json_skip_string rest := by
  rw [json_skip_string.eq_def]
  exact (if_neg (by decide)).trans (if_pos rfl)

theorem json_skip_string_char {c : UInt8} (other : c ≠ quote ∧ c ≠ backslash) (rest : Bytes) :
    json_skip_string (c :: rest) = json_skip_string rest := by
  rw [json_skip_string.eq_def]
  exact (if_neg other.1).trans (if_neg other.2)

theorem json_skip_string_chars {chars : Bytes} (others : ∀ c ∈ chars, c ≠ quote ∧ c ≠ backslash) (rest : Bytes) :
    json_skip_string (chars ++ rest) = json_skip_string rest := by
  induction chars with
  | nil => rfl
  | cons c chars ih =>
    rw [List.cons_append, json_skip_string_char (others c List.mem_cons_self),
      ih fun d inside => others d (List.mem_cons_of_mem _ inside)]

theorem xdigit_other {c : UInt8} (hex : isxdigit c = true) : c ≠ quote ∧ c ≠ backslash := by
  constructor <;> rintro rfl <;> cases hex

theorem json_skip_string_body {body : Bytes} (valid : Body body) (rest : Bytes) :
    json_skip_string (body ++ quote :: rest) = some rest := by
  induction valid with
  | nil => exact json_skip_string_quote rest
  | char _ other _ ih => rw [List.cons_append, json_skip_string_char other, ih]
  | escape _ _ ih => rw [List.cons_append, List.cons_append, json_skip_string_escape, ih]
  | unicode _ hex _ ih =>
    rw [List.cons_append, List.cons_append, json_skip_string_escape, List.append_assoc,
      json_skip_string_chars fun c inside => xdigit_other (hex c inside), ih]

theorem json_skip_string_length : ∀ {p later : Bytes}, json_skip_string p = some later → later.length < p.length
  | [], _, skipped => by simp [json_skip_string] at skipped
  | c :: rest, later, skipped => by
    rw [json_skip_string.eq_def] at skipped
    dsimp only at skipped
    split at skipped
    · cases skipped
      exact Nat.lt_succ_self _
    · split at skipped
      · cases rest with
        | nil => cases skipped
        | cons e rest => exact Nat.lt_of_lt_of_le (json_skip_string_length skipped) (by simp only [List.length_cons]; omega)
      · exact Nat.lt_succ_of_lt (json_skip_string_length skipped)

/-! ### Values -/

/-- With as many rounds as there are characters. -/
def skipValue (depth : Nat) (p : Bytes) : Option Bytes := json_skip_value (p.length + 1) depth p

theorem json_skip_value_rounds {rounds : Nat} : ∀ {other depth : Nat} {p : Bytes}, p.length < rounds → p.length < other →
    json_skip_value rounds depth p = json_skip_value other depth p := by
  induction rounds with
  | zero => intro _ _ _ enough _; omega
  | succ rounds ih =>
    intro other depth p enough plenty
    obtain ⟨other, rfl⟩ : ∃ n, other = n + 1 := ⟨other - 1, by omega⟩
    cases p with
    | nil => rfl
    | cons c rest =>
      rw [List.length_cons] at enough plenty
      have behind : ∀ depth, json_skip_value rounds depth rest = json_skip_value other depth rest := fun depth =>
        ih (by omega) (by omega)
      rw [json_skip_value, json_skip_value]
      cases skipped : json_skip_string rest with
      | none => simp only [behind]
      | some later =>
        have shorter := json_skip_string_length skipped
        have beyond : json_skip_value rounds depth later = json_skip_value other depth later := ih (by omega) (by omega)
        simp only [behind, beyond]

theorem skipValue_cons (depth : Nat) (c : UInt8) (rest : Bytes) : skipValue depth (c :: rest) =
    if c = quote then (json_skip_string rest).bind fun p => if depth = 0 then some p else skipValue depth p
    else if c = '{'.toUInt8 ∨ c = '['.toUInt8 then skipValue (depth + 1) rest
    else if c = '}'.toUInt8 ∨ c = ']'.toUInt8 then
      if depth = 0 then some (c :: rest)
      else if depth = 1 then some rest
      else skipValue (depth - 1) rest
    else if c = ','.toUInt8 ∧ depth = 0 then some (c :: rest)
    else skipValue depth rest := by
  rw [skipValue, List.length_cons, json_skip_value]
  cases skipped : json_skip_string rest with
  | none => rfl
  | some later =>
    have shorter := json_skip_string_length skipped
    have beyond : json_skip_value (rest.length + 1) depth later = skipValue depth later :=
      json_skip_value_rounds (by omega) (by omega)
    simp only [beyond]
    rfl

theorem json_skip_string_suffix : ∀ {p later : Bytes}, json_skip_string p = some later → later <:+ p
  | [], _, skipped => by simp [json_skip_string] at skipped
  | c :: rest, later, skipped => by
    rw [json_skip_string.eq_def] at skipped
    dsimp only at skipped
    split at skipped
    · cases skipped
      exact List.suffix_cons _ _
    · split at skipped
      · cases rest with
        | nil => cases skipped
        | cons e rest => exact (json_skip_string_suffix skipped).trans ((List.suffix_cons _ _).trans (List.suffix_cons _ _))
      · exact (json_skip_string_suffix skipped).trans (List.suffix_cons _ _)

theorem skipValue_suffix {p : Bytes} : ∀ {depth : Nat} {later : Bytes}, skipValue depth p = some later → later <:+ p := by
  induction size : p.length using Nat.strong_induction_on generalizing p with
  | _ n ih =>
    intro depth later skipped
    cases p with
    | nil => cases skipped
    | cons c rest =>
      rw [List.length_cons] at size
      have behind : ∀ {depth : Nat}, skipValue depth rest = some later → later <:+ c :: rest := fun found =>
        (ih rest.length (by omega) rfl found).trans (List.suffix_cons _ _)
      rw [skipValue_cons] at skipped
      split at skipped
      · obtain ⟨p, ended, continued⟩ := Option.bind_eq_some_iff.mp skipped
        have shorter := json_skip_string_length ended
        have within := (json_skip_string_suffix ended).trans (List.suffix_cons c rest)
        split at continued
        · cases continued
          exact within
        · exact (ih p.length (by omega) rfl continued).trans within
      · split at skipped
        · exact behind skipped
        · split at skipped
          · split at skipped
            · cases skipped
              exact List.suffix_refl _
            · split at skipped
              · cases skipped
                exact List.suffix_cons _ _
              · exact behind skipped
          · split at skipped
            · cases skipped
              exact List.suffix_refl _
            · exact behind skipped

theorem skipValue_length {p : Bytes} {depth : Nat} {later : Bytes} (skipped : skipValue depth p = some later) :
    later.length ≤ p.length := (skipValue_suffix skipped).length_le

theorem skipValue_quoted {body : Bytes} (valid : Body body) (depth : Nat) (rest : Bytes) :
    skipValue depth (quoted body ++ rest) = if depth = 0 then some rest else skipValue depth rest := by
  rw [quoted, List.cons_append, List.append_assoc, List.singleton_append, skipValue_cons, if_pos rfl,
    json_skip_string_body valid, Option.bind_some]

theorem skipValue_open {c : UInt8} (opens : c = '['.toUInt8 ∨ c = '{'.toUInt8) (depth : Nat) (rest : Bytes) :
    skipValue depth (c :: rest) = skipValue (depth + 1) rest := by
  rw [skipValue_cons]
  rcases opens with rfl | rfl
  · rw [if_neg (by decide), if_pos (.inr rfl)]
  · rw [if_neg (by decide), if_pos (.inl rfl)]

theorem skipValue_close {c : UInt8} (closes : c = ']'.toUInt8 ∨ c = '}'.toUInt8) (depth : Nat) (rest : Bytes) :
    skipValue (depth + 1) (c :: rest) = if depth = 0 then some rest else skipValue depth rest := by
  have other : ¬ (c = '{'.toUInt8 ∨ c = '['.toUInt8) := by rcases closes with rfl | rfl <;> decide
  have unquoted : c ≠ quote := by rcases closes with rfl | rfl <;> decide
  rw [skipValue_cons, if_neg unquoted, if_neg other, if_pos closes.symm]
  cases depth <;> simp

/-- At the top, a separator is where a value ends. -/
theorem skipValue_stop {c : UInt8} (stops : c = ','.toUInt8 ∨ c = '}'.toUInt8) (rest : Bytes) :
    skipValue 0 (c :: rest) = some (c :: rest) := by
  rw [skipValue_cons]
  rcases stops with rfl | rfl
  · rw [if_neg (by decide), if_neg (by decide), if_neg (by decide), if_pos (by decide)]
  · rw [if_neg (by decide), if_neg (by decide), if_pos (by decide), if_pos rfl]

/-- What neither opens nor closes anything. -/
def plain (c : UInt8) : Bool := isspace c || atomic c || c == ','.toUInt8 || c == ':'.toUInt8

theorem plain_ne {c d : UInt8} (is_plain : plain c = true) (marked : plain d = false) : c ≠ d := by
  rintro rfl
  rw [is_plain] at marked
  cases marked

theorem skipValue_plain {depth : Nat} {chars : Bytes} (all_plain : ∀ c ∈ chars, plain c = true)
    (inside : depth = 0 → ','.toUInt8 ∉ chars) (rest : Bytes) : skipValue depth (chars ++ rest) = skipValue depth rest := by
  induction chars with
  | nil => rfl
  | cons c chars ih =>
    have is_plain := all_plain c List.mem_cons_self
    have separates : ¬ (c = ','.toUInt8 ∧ depth = 0) := by
      rintro ⟨rfl, top⟩
      exact inside top List.mem_cons_self
    have brackets : ¬ (c = '{'.toUInt8 ∨ c = '['.toUInt8) := not_or.mpr ⟨plain_ne is_plain rfl, plain_ne is_plain rfl⟩
    have closing : ¬ (c = '}'.toUInt8 ∨ c = ']'.toUInt8) := not_or.mpr ⟨plain_ne is_plain rfl, plain_ne is_plain rfl⟩
    rw [List.cons_append, skipValue_cons, if_neg (plain_ne is_plain rfl), if_neg brackets, if_neg closing, if_neg separates]
    exact ih (fun d member => all_plain d (List.mem_cons_of_mem _ member))
      (fun top member => inside top (List.mem_cons_of_mem _ member))

theorem blank_plain {space : Bytes} (blank : Blank space) : ∀ c ∈ space, plain c = true := fun c inside => by
  rw [plain, blank.isspace c inside]
  rfl

theorem atomic_plain {text : Bytes} (atoms : ∀ c ∈ text, atomic c = true) : ∀ c ∈ text, plain c = true := fun c inside => by
  simp [plain, atoms c inside]

/-- Below an opening bracket, whatever the grammar derives leaves the depth as it was. -/
theorem skipValue_derived {symbol : Symbol} {text : Bytes} (valid : Derives symbol text) (depth : Nat) (rest : Bytes) :
    skipValue (depth + 1) (text ++ rest) = skipValue (depth + 1) rest := by
  have blank : ∀ {space : Bytes}, Blank space → ∀ depth rest,
      skipValue (depth + 1) (space ++ rest) = skipValue (depth + 1) rest := fun is_blank depth rest =>
    skipValue_plain (blank_plain is_blank) (by simp) rest
  have mark : ∀ {c : UInt8}, plain c = true → ∀ depth rest,
      skipValue (depth + 1) (c :: rest) = skipValue (depth + 1) rest := fun {c} is_plain depth rest =>
    @skipValue_plain (depth + 1) [c] (by simp [is_plain]) (by simp) rest
  have comma : plain ','.toUInt8 = true := rfl
  have colon : plain ':'.toUInt8 = true := rfl
  induction valid generalizing depth rest with
  | literal known => exact skipValue_plain (atomic_plain (literal_atomic known).2) (by simp) rest
  | number valid => exact skipValue_plain (atomic_plain valid.atomic.2) (by simp) rest
  | string valid => rw [skipValue_quoted valid, if_neg (by simp)]
  | emptyArray is_blank =>
    rw [List.cons_append, skipValue_open (.inl rfl), List.append_assoc, blank is_blank, List.singleton_append,
      skipValue_close (.inl rfl), if_neg (by simp)]
  | array _ ih =>
    rw [List.cons_append, skipValue_open (.inl rfl), List.append_assoc, ih, List.singleton_append,
      skipValue_close (.inl rfl), if_neg (by simp)]
  | emptyObject is_blank =>
    rw [List.cons_append, skipValue_open (.inr rfl), List.append_assoc, blank is_blank, List.singleton_append,
      skipValue_close (.inr rfl), if_neg (by simp)]
  | object _ ih =>
    rw [List.cons_append, skipValue_open (.inr rfl), List.append_assoc, ih, List.singleton_append,
      skipValue_close (.inr rfl), if_neg (by simp)]
  | element are_blank _ ih => rw [List.append_assoc, blank are_blank.1, List.append_assoc, ih, blank are_blank.2]
  | elements are_blank _ _ ih ih_rest =>
    simp only [List.append_assoc, List.cons_append]
    rw [blank are_blank.1, ih, blank are_blank.2, mark comma, ih_rest]
  | member are_blank named _ ih =>
    obtain ⟨before, between, behind, after⟩ := are_blank
    simp only [List.append_assoc, List.cons_append]
    rw [blank before, skipValue_quoted named, if_neg (by simp), blank between, mark colon, blank behind, ih, blank after]
  | members are_blank named _ _ ih ih_rest =>
    obtain ⟨before, between, behind, after⟩ := are_blank
    simp only [List.append_assoc, List.cons_append]
    rw [blank before, skipValue_quoted named, if_neg (by simp), blank between, mark colon, blank behind, ih, blank after,
      mark comma, ih_rest]

/-- A whole value is skipped up to the separator behind it, or up to space before that. -/
theorem skipValue_value {value after : Bytes} (valid : Derives .value value) (blank : Blank after) {c : UInt8}
    (stops : c = ','.toUInt8 ∨ c = '}'.toUInt8) (rest : Bytes) :
    ∃ later, skipValue 0 (value ++ (after ++ c :: rest)) = some later ∧ skip_ws later = c :: rest := by
  have visible : isspace c = false := by rcases stops with rfl | rfl <;> rfl
  have behind := skip_ws_blank blank.isspace visible rest
  have bracketed : ∀ {items : Bytes} {opening closing : UInt8}, (opening = '['.toUInt8 ∨ opening = '{'.toUInt8) →
      (closing = ']'.toUInt8 ∨ closing = '}'.toUInt8) → (∀ rest, skipValue 1 (items ++ rest) = skipValue 1 rest) →
      ∃ later, skipValue 0 (opening :: (items ++ [closing]) ++ (after ++ c :: rest)) = some later ∧
        skip_ws later = c :: rest := by
    intro items opening closing opens closes within
    refine ⟨_, ?_, behind⟩
    rw [List.cons_append, skipValue_open opens, List.append_assoc, within, List.singleton_append, skipValue_close closes,
      if_pos rfl]
  have atoms : ∀ {text : Bytes}, (∀ c ∈ text, atomic c = true) →
      ∃ later, skipValue 0 (text ++ (after ++ c :: rest)) = some later ∧ skip_ws later = c :: rest := by
    intro text atomic_all
    refine ⟨c :: rest, ?_, by rw [skip_ws, List.dropWhile_cons_of_neg (by simp [visible])]⟩
    rw [skipValue_plain (atomic_plain atomic_all) fun _ inside => absurd (atomic_all _ inside) (by decide),
      skipValue_plain (blank_plain blank) fun _ inside => absurd (blank.isspace _ inside) (by decide),
      skipValue_stop stops]
  cases valid with
  | literal known => exact atoms (literal_atomic known).2
  | number valid => exact atoms valid.atomic.2
  | string valid => exact ⟨_, by rw [skipValue_quoted valid, if_pos rfl], behind⟩
  | emptyArray is_blank =>
    exact bracketed (.inl rfl) (.inl rfl) fun rest => skipValue_plain (blank_plain is_blank) (by simp) rest
  | array items => exact bracketed (.inl rfl) (.inl rfl) (skipValue_derived items 0)
  | emptyObject is_blank =>
    exact bracketed (.inr rfl) (.inr rfl) fun rest => skipValue_plain (blank_plain is_blank) (by simp) rest
  | object items => exact bracketed (.inr rfl) (.inr rfl) (skipValue_derived items 0)

/-! ### Members -/

/-- The name of a member as it is written, against a key. -/
def named (key : Bytes) (member : Bytes × Bytes) : Bool := decide (member.1.map tolower = key.map tolower)

theorem value_visible {value : Bytes} (valid : Derives .value value) :
    ∃ c rest, value = c :: rest ∧ isspace c = false ∧ (c = quote → ∃ body, Body body ∧ value = quoted body) := by
  rcases value_cases valid with ⟨body, is_body, rfl⟩ | ⟨some_char, atoms⟩ | ⟨mark, rest, opens, rfl⟩
  · exact ⟨quote, _, rfl, rfl, fun _ => ⟨body, is_body, rfl⟩⟩
  · obtain ⟨c, rest, rfl⟩ := List.exists_cons_of_ne_nil some_char
    have atom := atoms c List.mem_cons_self
    have table : ∀ n < 256, atomic (UInt8.ofNat n) = true → isspace (UInt8.ofNat n) = false := by decide +kernel
    have visible := table c.toNat c.toNat_lt
    rw [UInt8.ofNat_toNat] at visible
    refine ⟨c, rest, rfl, visible atom, ?_⟩
    rintro rfl
    cases atom
  · refine ⟨mark, rest, rfl, ?_, ?_⟩
    · rcases opens with rfl | rfl <;> rfl
    · rintro rfl
      rcases opens with same | same <;> cases same

theorem findMember_succ (key : Bytes) (rounds : Nat) (sep : UInt8) {before name colon between value : Bytes}
    (blank : Blank before ∧ Blank colon ∧ Blank between) (is_body : Body name) (valid : Derives .value value) (rest : Bytes) :
    findMember key (rounds + 1)
      (sep :: (before ++ (quoted name ++ (colon ++ ':'.toUInt8 :: (between ++ (value ++ rest)))))) =
      if name.map tolower = key.map tolower then some (value ++ rest)
      else
        (skipValue 0 (value ++ rest)).bind fun p =>
          if (skip_ws p).head? ≠ some ','.toUInt8 then none else findMember key rounds (skip_ws p) := by
  obtain ⟨before_blank, colon_blank, between_blank⟩ := blank
  obtain ⟨c, chars, rfl, visible, _⟩ := value_visible valid
  generalize behind : colon ++ ':'.toUInt8 :: (between ++ (c :: chars ++ rest)) = later
  have start : skip_ws (before ++ (quoted name ++ later)) = quote :: (name ++ quote :: later) := by
    rw [quoted, List.cons_append, List.append_assoc, List.singleton_append, skip_ws_blank before_blank.isspace rfl]
  have size : (name ++ quote :: later).length - later.length - 1 = name.length := by
    rw [List.length_append, List.length_cons]
    omega
  rw [findMember, List.drop_succ_cons, List.drop_zero, start]
  dsimp only
  rw [if_neg (by simp [quote]), List.drop_succ_cons, List.drop_zero, json_skip_string_body is_body]
  dsimp only
  rw [size, List.take_left, ← behind, skip_ws_blank colon_blank.isspace rfl, if_neg (by simp), List.drop_succ_cons,
    List.drop_zero, List.cons_append, skip_ws_blank between_blank.isspace visible]
  rw [← skipValue]
  cases skipValue 0 (c :: (chars ++ rest)) <;> rfl

/-- The first member of that name is found, and the text from its value on. -/
theorem findMember_members {members : List (Bytes × Bytes)} {items : Bytes} {symbol : Symbol}
    (valid : Derives symbol items) (listed : symbol = .members members) (key tail : Bytes) (sep : UInt8) {rounds : Nat}
    (enough : items.length < rounds) :
    (members.find? (named key) = none → findMember key rounds (sep :: (items ++ '}'.toUInt8 :: tail)) = none) ∧
    ∀ member, members.find? (named key) = some member → Derives .value member.2 ∧
      ∃ later, findMember key rounds (sep :: (items ++ '}'.toUInt8 :: tail)) = some (member.2 ++ later) := by
  induction valid generalizing members sep rounds with
  | literal | number | string | emptyArray | array | emptyObject | object | element | elements => cases listed
  | @member before name colon between value after are_blank is_body valid _ =>
    cases listed
    obtain ⟨before_blank, colon_blank, between_blank, after_blank⟩ := are_blank
    obtain ⟨rounds, rfl⟩ : ∃ n, rounds = n + 1 := ⟨rounds - 1, by omega⟩
    obtain ⟨later, skipped, stopped⟩ := skipValue_value valid after_blank (.inr rfl) tail
    have step := findMember_succ key rounds sep ⟨before_blank, colon_blank, between_blank⟩ is_body valid
      (after ++ '}'.toUInt8 :: tail)
    rw [skipped, Option.bind_some] at step
    simp only [List.append_assoc, List.cons_append] at step ⊢
    rw [step]
    by_cases same : name.map tolower = key.map tolower
    · simp [named, same, valid]
    · have ends : '}'.toUInt8 ≠ ','.toUInt8 := by decide
      simp [named, same, stopped, ends]
  | @members before name colon between value after items list are_blank is_body valid others _ ih =>
    cases listed
    obtain ⟨before_blank, colon_blank, between_blank, after_blank⟩ := are_blank
    obtain ⟨rounds, rfl⟩ : ∃ n, rounds = n + 1 := ⟨rounds - 1, by omega⟩
    obtain ⟨later, skipped, stopped⟩ := skipValue_value valid after_blank (.inl rfl) (items ++ '}'.toUInt8 :: tail)
    have step := findMember_succ key rounds sep ⟨before_blank, colon_blank, between_blank⟩ is_body valid
      (after ++ ','.toUInt8 :: (items ++ '}'.toUInt8 :: tail))
    rw [skipped, Option.bind_some] at step
    have shorter : items.length < rounds := by
      simp only [List.length_append, List.length_cons] at enough
      omega
    obtain ⟨absent, present⟩ := ih rfl ','.toUInt8 shorter
    simp only [List.append_assoc, List.cons_append] at step ⊢
    rw [step]
    by_cases same : name.map tolower = key.map tolower
    · simp [named, same, valid]
    · rw [if_neg same, List.find?_cons_of_neg (by simp [named, same])]
      simp only [stopped, List.head?_cons, ne_eq, not_true_eq_false, if_false]
      exact ⟨absent, present⟩

/-! ### Values that are strings -/

/-- A body whose only escapes are a quote, a backslash and a slash, and the text it stands for. -/
inductive Unescaped : Bytes → Bytes → Prop
  | nil : Unescaped [] []
  | char {c : UInt8} {raw text : Bytes} (other : c ≠ quote ∧ c ≠ backslash) (rest : Unescaped raw text) :
      Unescaped (c :: raw) (c :: text)
  | escape {c : UInt8} {raw text : Bytes} (simple : c = quote ∨ c = backslash ∨ c = '/'.toUInt8) (rest : Unescaped raw text) :
      Unescaped (backslash :: c :: raw) (c :: text)

theorem unescaped_nil {text : Bytes} : Unescaped [] text ↔ text = [] := by
  constructor
  · rintro ⟨⟩
    rfl
  · rintro rfl
    exact .nil

theorem unescaped_char {c : UInt8} (other : c ≠ quote ∧ c ≠ backslash) {raw text : Bytes} :
    Unescaped (c :: raw) text ↔ ∃ later, text = c :: later ∧ Unescaped raw later := by
  constructor
  · intro read
    cases read with
    | char _ rest => exact ⟨_, rfl, rest⟩
    | escape _ _ => exact absurd rfl other.2
  · rintro ⟨later, rfl, rest⟩
    exact .char other rest

theorem unescaped_escape {c : UInt8} {raw text : Bytes} : Unescaped (backslash :: c :: raw) text ↔
    (c = quote ∨ c = backslash ∨ c = '/'.toUInt8) ∧ ∃ later, text = c :: later ∧ Unescaped raw later := by
  constructor
  · intro read
    cases read with
    | char other _ => exact absurd rfl other.2
    | escape simple rest => exact ⟨simple, _, rfl, rest⟩
  · rintro ⟨simple, later, rfl, rest⟩
    exact .escape simple rest

theorem copyString_char {c : UInt8} (other : c ≠ quote ∧ c ≠ backslash) (out_len : Nat) (out rest : Bytes) :
    copyString out_len out (c :: rest) =
      if out.length + 1 ≥ out_len then none else copyString out_len (out ++ [c]) rest := by
  rw [copyString.eq_def]
  exact (if_neg other.1).trans (if_neg other.2)

theorem copyString_escape (c : UInt8) (out_len : Nat) (out rest : Bytes) :
    copyString out_len out (backslash :: c :: rest) =
      if c ≠ quote ∧ c ≠ backslash ∧ c ≠ '/'.toUInt8 then none
      else if out.length + 1 ≥ out_len then none else copyString out_len (out ++ [c]) rest := by
  rw [copyString.eq_def]
  exact (if_neg (by decide)).trans (if_pos rfl)

theorem copyString_quote (out_len : Nat) (out rest : Bytes) : copyString out_len out (quote :: rest) = some out := by
  rw [copyString.eq_def]
  exact if_pos rfl

/-- A body is copied if its escapes are simple and its text leaves room for a terminator. -/
theorem copyString_body {raw : Bytes} (valid : Body raw) (out_len : Nat) (tail : Bytes) :
    ∀ {out result : Bytes}, out.length < out_len → (copyString out_len out (raw ++ quote :: tail) = some result ↔
      ∃ text, Unescaped raw text ∧ result = out ++ text ∧ result.length < out_len) := by
  -- what one more character comes to, for a body that has been read before
  have further : ∀ {c : UInt8} {rest : Bytes}, (∀ {out result : Bytes}, out.length < out_len →
      (copyString out_len out (rest ++ quote :: tail) = some result ↔
        ∃ text, Unescaped rest text ∧ result = out ++ text ∧ result.length < out_len)) →
      ∀ {out result : Bytes}, (if out.length + 1 ≥ out_len then none
        else copyString out_len (out ++ [c]) (rest ++ quote :: tail)) = some result ↔
        ∃ text, (∃ later, text = c :: later ∧ Unescaped rest later) ∧ result = out ++ text ∧ result.length < out_len := by
    intro c rest ih out result
    by_cases full : out.length + 1 ≥ out_len
    · rw [if_pos full]
      constructor
      · intro impossible
        cases impossible
      · rintro ⟨_, ⟨later, rfl, _⟩, rfl, small⟩
        simp only [List.length_append, List.length_cons] at small
        omega
    · rw [if_neg full, ih (by simp only [List.length_append, List.length_singleton]; omega)]
      constructor
      · rintro ⟨later, read, rfl, small⟩
        exact ⟨c :: later, ⟨later, rfl, read⟩, by simp, small⟩
      · rintro ⟨_, ⟨later, rfl, read⟩, rfl, small⟩
        exact ⟨later, read, by simp, small⟩
  induction valid with
  | nil =>
    intro out result fits
    rw [List.nil_append, copyString_quote]
    constructor
    · rintro ⟨⟩
      exact ⟨[], .nil, by simp, fits⟩
    · rintro ⟨text, read, rfl, _⟩
      rw [unescaped_nil.mp read, List.append_nil]
  | char _ other _ ih =>
    intro out result fits
    rw [List.cons_append, copyString_char other, further ih]
    simp only [unescaped_char other]
  | @escape c rest _ _ ih =>
    intro out result fits
    rw [List.cons_append, List.cons_append, copyString_escape]
    by_cases simple : c = quote ∨ c = backslash ∨ c = '/'.toUInt8
    · rw [if_neg (by tauto), further ih]
      simp only [unescaped_escape, simple, true_and]
    · rw [if_pos (by tauto)]
      simp [unescaped_escape, simple]
  | unicode _ _ _ _ =>
    intro out result fits
    rw [List.cons_append, List.cons_append, copyString_escape, if_pos (by decide)]
    have rejected : ¬ ('u'.toUInt8 = quote ∨ 'u'.toUInt8 = backslash ∨ 'u'.toUInt8 = '/'.toUInt8) := by decide
    simp [unescaped_escape, rejected]

/-- The member that a lookup takes, and the text it stands for. -/
def Lookup (members : List (Bytes × Bytes)) (key : Bytes) (out_len : Nat) (result : Bytes) : Prop :=
  ∃ name raw, members.find? (named key) = some (name, quoted raw) ∧ Unescaped raw result ∧ result.length < out_len

/-- On an object, a lookup takes the first member of that name if it is a usable string. -/
theorem json_get_string_object {members : List (Bytes × Bytes)} {text : Bytes} (object : Object members text) (key : Bytes)
    {out_len : Nat} (room : 0 < out_len) (result : Bytes) :
    json_get_string text key out_len = some result ↔ Lookup members key out_len result := by
  obtain ⟨before, items, after, before_blank, _, rfl, listed⟩ := object
  have start := skip_ws_blank before_blank.isspace (c := '{'.toUInt8) rfl (items ++ '}'.toUInt8 :: after)
  rw [json_get_string, start, if_neg (by simp)]
  rcases listed with ⟨rfl, blank⟩ | valid
  · have nothing : findMember key (('{'.toUInt8 :: (items ++ '}'.toUInt8 :: after)).length + 1)
        ('{'.toUInt8 :: (items ++ '}'.toUInt8 :: after)) = none := by
      rw [findMember, List.drop_succ_cons, List.drop_zero, skip_ws_blank blank.isspace rfl]
      exact if_pos (by rw [List.head?_cons]; decide)
    rw [nothing]
    simp [Lookup]
  · have enough : items.length < ('{'.toUInt8 :: (items ++ '}'.toUInt8 :: after)).length + 1 := by
      simp only [List.length_cons, List.length_append]
      omega
    obtain ⟨absent, present⟩ := findMember_members valid rfl key after '{'.toUInt8 enough
    cases found : members.find? (named key) with
    | none =>
      rw [absent found]
      simp [Lookup, found]
    | some member =>
      obtain ⟨valid, later, reached⟩ := present member found
      rw [reached]
      dsimp only
      obtain ⟨c, rest, whole, _, string⟩ := value_visible valid
      by_cases is_string : c = quote
      · obtain ⟨body, is_body, same⟩ := string is_string
        rw [same, quoted, List.cons_append, List.append_assoc, List.singleton_append, if_neg (by simp [quote]),
          List.drop_succ_cons, List.drop_zero, @copyString_body body is_body out_len later [] result room]
        constructor
        · rintro ⟨text, read, rfl, fits⟩
          exact ⟨member.1, body, by rw [found, ← same], read, fits⟩
        · rintro ⟨name, raw, taken, read, fits⟩
          rw [found, Option.some.injEq] at taken
          have bodies : quoted body = quoted raw := by rw [← same, taken]
          have body_eq : body = raw := by simpa [quoted] using bodies
          exact ⟨result, body_eq ▸ read, rfl, fits⟩
      · rw [if_pos (by rw [whole]; simpa [quote] using is_string)]
        constructor
        · intro impossible
          cases impossible
        · rintro ⟨name, raw, taken, _⟩
          rw [found, Option.some.injEq] at taken
          rw [taken] at whole
          exact absurd (List.cons.inj whole).1.symm is_string

end PiJade.DescriptorText
