import PiJade.Text

/-!
JSON texts as bytes: which texts are values, and which members an object has. Strings are
taken as they are written, with their escapes.
-/
namespace PiJade.Json
open Text
set_option linter.unusedSimpArgs false

def quote : UInt8 := '"'.toUInt8
def backslash : UInt8 := '\\'.toUInt8

/-- Space between tokens. -/
def Blank (space : Bytes) : Prop := ∀ c ∈ space, c = 32 ∨ c = 9 ∨ c = 10 ∨ c = 13

/-- The characters that a backslash may stand before, apart from `u`. -/
def escapes : Bytes := "\"\\/bfnrt".toUTF8.data.toList

/-- What stands between the quotes of a string. -/
inductive Body : Bytes → Prop
  | nil : Body []
  | char {c : UInt8} {rest : Bytes} (printable : 32 ≤ c) (other : c ≠ quote ∧ c ≠ backslash) (body : Body rest) :
      Body (c :: rest)
  | escape {c : UInt8} {rest : Bytes} (known : c ∈ escapes) (body : Body rest) : Body (backslash :: c :: rest)
  | unicode {code rest : Bytes} (four : code.length = 4) (hex : ∀ c ∈ code, isxdigit c = true) (body : Body rest) :
      Body (backslash :: 'u'.toUInt8 :: (code ++ rest))

def quoted (body : Bytes) : Bytes := quote :: (body ++ [quote])

def Digits (text : Bytes) : Prop := text ≠ [] ∧ ∀ c ∈ text, isdigit c = true

/-- The parts of a number: sign, digits without a leading zero, fraction and exponent. -/
structure Number (text : Bytes) : Prop where
  parts : ∃ sign whole fraction exponent, text = sign ++ whole ++ fraction ++ exponent ∧
    (sign = [] ∨ sign = ['-'.toUInt8]) ∧
    (Digits whole ∧ (whole.head? = some '0'.toUInt8 → whole.length = 1)) ∧
    (fraction = [] ∨ ∃ digits, Digits digits ∧ fraction = '.'.toUInt8 :: digits) ∧
    (exponent = [] ∨ ∃ mark sign digits, (mark = 'e'.toUInt8 ∨ mark = 'E'.toUInt8) ∧
      (sign = [] ∨ sign = ['+'.toUInt8] ∨ sign = ['-'.toUInt8]) ∧ Digits digits ∧ exponent = mark :: (sign ++ digits))

def literals : List Bytes :=
  [['t'.toUInt8, 'r'.toUInt8, 'u'.toUInt8, 'e'.toUInt8],
    ['f'.toUInt8, 'a'.toUInt8, 'l'.toUInt8, 's'.toUInt8, 'e'.toUInt8],
    ['n'.toUInt8, 'u'.toUInt8, 'l'.toUInt8, 'l'.toUInt8]]

/-- What a text is read as. The members of an object are the bodies of their names and the
texts of their values. -/
inductive Symbol where
  | value
  | elements
  | members (list : List (Bytes × Bytes))

inductive Derives : Symbol → Bytes → Prop
  | literal {text : Bytes} (known : text ∈ literals) : Derives .value text
  | number {text : Bytes} (valid : Number text) : Derives .value text
  | string {body : Bytes} (valid : Body body) : Derives .value (quoted body)
  | emptyArray {space : Bytes} (blank : Blank space) : Derives .value ('['.toUInt8 :: (space ++ [']'.toUInt8]))
  | array {items : Bytes} (valid : Derives .elements items) : Derives .value ('['.toUInt8 :: (items ++ [']'.toUInt8]))
  | emptyObject {space : Bytes} (blank : Blank space) : Derives .value ('{'.toUInt8 :: (space ++ ['}'.toUInt8]))
  | object {list : List (Bytes × Bytes)} {items : Bytes} (valid : Derives (.members list) items) :
      Derives .value ('{'.toUInt8 :: (items ++ ['}'.toUInt8]))
  | element {before value after : Bytes} (blank : Blank before ∧ Blank after) (valid : Derives .value value) :
      Derives .elements (before ++ (value ++ after))
  | elements {before value after rest : Bytes} (blank : Blank before ∧ Blank after) (valid : Derives .value value)
      (others : Derives .elements rest) : Derives .elements (before ++ (value ++ (after ++ ','.toUInt8 :: rest)))
  | member {before name colon between value after : Bytes} (blank : Blank before ∧ Blank colon ∧ Blank between ∧ Blank after)
      (named : Body name) (valid : Derives .value value) :
      Derives (.members [(name, value)])
        (before ++ (quoted name ++ (colon ++ ':'.toUInt8 :: (between ++ (value ++ after)))))
  | members {before name colon between value after rest : Bytes} {list : List (Bytes × Bytes)}
      (blank : Blank before ∧ Blank colon ∧ Blank between ∧ Blank after) (named : Body name)
      (valid : Derives .value value) (others : Derives (.members list) rest) :
      Derives (.members ((name, value) :: list))
        (before ++ (quoted name ++ (colon ++ ':'.toUInt8 :: (between ++ (value ++ (after ++ ','.toUInt8 :: rest))))))

/-- A text that is an object with these members. -/
def Object (members : List (Bytes × Bytes)) (text : Bytes) : Prop :=
  ∃ before items after, Blank before ∧ Blank after ∧ text = before ++ '{'.toUInt8 :: (items ++ '}'.toUInt8 :: after) ∧
    (members = [] ∧ Blank items ∨ Derives (.members members) items)

/-! ### What values begin with -/

theorem Blank.isspace {space : Bytes} (blank : Blank space) : ∀ c ∈ space, Text.isspace c = true := by
  intro c inside
  rcases blank c inside with rfl | rfl | rfl | rfl <;> rfl

/-- A character of a number or of a literal. -/
def atomic (c : UInt8) : Bool := isalnum c || c == '+'.toUInt8 || c == '-'.toUInt8 || c == '.'.toUInt8

theorem Digits.atomic {text : Bytes} (digits : Digits text) : ∀ c ∈ text, atomic c = true := by
  intro c inside
  rw [Json.atomic, isdigit_isalnum (digits.2 c inside)]
  rfl

theorem Number.atomic {text : Bytes} (number : Number text) : text ≠ [] ∧ ∀ c ∈ text, atomic c = true := by
  obtain ⟨sign, whole, fraction, exponent, rfl, signed, whole_digits, fractional, exponential⟩ := number.parts
  constructor
  · simp [whole_digits.1.1]
  · intro c inside
    simp only [List.mem_append] at inside
    rcases inside with ((in_sign | in_whole) | in_fraction) | in_exponent
    · rcases signed with rfl | rfl
      · cases in_sign
      · rw [List.mem_singleton.mp in_sign]
        rfl
    · exact whole_digits.1.atomic c in_whole
    · rcases fractional with rfl | ⟨digits, valid, rfl⟩
      · cases in_fraction
      · rcases List.mem_cons.mp in_fraction with rfl | in_digits
        · rfl
        · exact valid.atomic c in_digits
    · rcases exponential with rfl | ⟨mark, sign, digits, marked, signed, valid, rfl⟩
      · cases in_exponent
      · simp only [List.mem_cons, List.mem_append] at in_exponent
        rcases in_exponent with rfl | in_sign | in_digits
        · rcases marked with rfl | rfl <;> rfl
        · rcases signed with rfl | rfl | rfl
          · cases in_sign
          · rw [List.mem_singleton.mp in_sign]
            rfl
          · rw [List.mem_singleton.mp in_sign]
            rfl
        · exact valid.atomic c in_digits

theorem literal_atomic {text : Bytes} (known : text ∈ literals) : text ≠ [] ∧ ∀ c ∈ text, atomic c = true := by
  simp only [literals, List.mem_cons, List.not_mem_nil, or_false] at known
  rcases known with rfl | rfl | rfl <;> simp [atomic] <;> decide

/-- A value is a string, characters of a number or of a literal, or in brackets. -/
theorem value_cases {value : Bytes} (valid : Derives .value value) :
    (∃ body, Body body ∧ value = quoted body) ∨ (value ≠ [] ∧ ∀ c ∈ value, atomic c = true) ∨
      ∃ mark rest, (mark = '['.toUInt8 ∨ mark = '{'.toUInt8) ∧ value = mark :: rest := by
  cases valid with
  | literal known => exact .inr (.inl (literal_atomic known))
  | number valid => exact .inr (.inl valid.atomic)
  | string valid => exact .inl ⟨_, valid, rfl⟩
  | emptyArray _ => exact .inr (.inr ⟨_, _, .inl rfl, rfl⟩)
  | array _ => exact .inr (.inr ⟨_, _, .inl rfl, rfl⟩)
  | emptyObject _ => exact .inr (.inr ⟨_, _, .inr rfl, rfl⟩)
  | object _ => exact .inr (.inr ⟨_, _, .inr rfl, rfl⟩)

end PiJade.Json
