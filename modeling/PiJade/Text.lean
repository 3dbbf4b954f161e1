import Mathlib.Data.List.TakeWhile
import Mathlib.Tactic.Common
import PiJade.Bytes

/-!
Text as bytes: the character classes of the C library in its default locale, strings that end
at their first zero byte and how `strncmp` compares them, and decimal numbers.
-/
namespace PiJade.Text
set_option linter.unusedSimpArgs false

def isspace (c : UInt8) : Bool := c == 32 || (9 ≤ c && c ≤ 13)
def isdigit (c : UInt8) : Bool := 48 ≤ c && c ≤ 57
def isxdigit (c : UInt8) : Bool := isdigit c || (65 ≤ c && c ≤ 70) || (97 ≤ c && c ≤ 102)
def isalnum (c : UInt8) : Bool := isdigit c || (65 ≤ c && c ≤ 90) || (97 ≤ c && c ≤ 122)
def isgraph (c : UInt8) : Bool := 33 ≤ c && c ≤ 126
def tolower (c : UInt8) : UInt8 := if 65 ≤ c && c ≤ 90 then c + 32 else c

theorem isgraph_isspace {c : UInt8} (graph : isgraph c = true) : isspace c = false ∧ c ≠ 0 := by
  simp only [isgraph, isspace, Bool.and_eq_true, decide_eq_true_eq, UInt8.le_iff_toNat_le, Bool.or_eq_false_iff,
    beq_eq_false_iff_ne, Bool.and_eq_false_iff, decide_eq_false_iff_not, ne_eq, ← UInt8.toNat_inj, UInt8.reduceToNat] at *
  omega

theorem isalnum_isgraph {c : UInt8} (alnum : isalnum c = true) : isgraph c = true := by
  simp only [isalnum, isgraph, isdigit, Bool.or_eq_true, Bool.and_eq_true, decide_eq_true_eq, UInt8.le_iff_toNat_le,
    UInt8.reduceToNat] at *
  omega

theorem isxdigit_isalnum {c : UInt8} (xdigit : isxdigit c = true) : isalnum c = true := by
  simp only [isxdigit, isalnum, isdigit, Bool.or_eq_true, Bool.and_eq_true, decide_eq_true_eq, UInt8.le_iff_toNat_le,
    UInt8.reduceToNat] at *
  omega

theorem isdigit_isalnum {c : UInt8} (digit : isdigit c = true) : isalnum c = true := by simp [isalnum, digit]

/-- Only letters are lowered. -/
theorem tolower_eq {c d : UInt8} (same : tolower c = d) (other : ¬ (97 ≤ d ∧ d ≤ 122)) : c = d := by
  have table : ∀ n < 256, tolower (UInt8.ofNat n) = UInt8.ofNat n ∨
      97 ≤ tolower (UInt8.ofNat n) ∧ tolower (UInt8.ofNat n) ≤ 122 := by decide +kernel
  have this := table c.toNat c.toNat_lt
  rw [UInt8.ofNat_toNat, same] at this
  rcases this with plain | letter
  · exact plain.symm
  · exact absurd letter other

/-- Texts that are the same are parted at the same place by what is before neither. -/
theorem split_unique {front front' back back' : Bytes} {c d : UInt8} (before' : c ∉ front') (before : d ∉ front)
    (same : front ++ c :: back = front' ++ d :: back') : front = front' ∧ c = d ∧ back = back' := by
  induction front generalizing front' with
  | nil =>
    cases front' with
    | nil => exact ⟨rfl, List.cons.inj same⟩
    | cons x front' => exact absurd (by simp [(List.cons.inj same).1]) before'
  | cons x front ih =>
    cases front' with
    | nil => exact absurd (by simp [← (List.cons.inj same).1]) before
    | cons y front' =>
      obtain ⟨rfl, behind⟩ := List.cons.inj same
      obtain ⟨rfl, others⟩ := ih (fun inside => before' (List.mem_cons_of_mem _ inside))
        (fun inside => before (List.mem_cons_of_mem _ inside)) behind
      exact ⟨rfl, others⟩

/-- What string functions see of a buffer. -/
def cstr (buffer : Bytes) : Bytes := buffer.takeWhile (· ≠ 0)

theorem cstr_nul (rest : Bytes) : cstr (0 :: rest) = [] := List.takeWhile_cons_of_neg (by decide)

theorem cstr_cons {c : UInt8} (char : c ≠ 0) (rest : Bytes) : cstr (c :: rest) = c :: cstr rest :=
  List.takeWhile_cons_of_pos (decide_eq_true char)

theorem cstr_append {front back : Bytes} (no_nul : 0 ∉ front) : cstr (front ++ back) = front ++ cstr back :=
  List.takeWhile_append_of_pos fun _ inside => decide_eq_true fun zero => no_nul (zero ▸ inside)

theorem cstr_eq_self {buffer : Bytes} (no_nul : 0 ∉ buffer) : cstr buffer = buffer := by
  rw [cstr, List.takeWhile_eq_self_iff]
  intro c inside
  simp only [ne_eq, decide_not, Bool.not_eq_eq_eq_not, Bool.not_true, decide_eq_false_iff_not]
  rintro rfl
  exact no_nul inside

/-- A string is cut before its first zero byte. -/
theorem cstr_cut {buffer : Bytes} (nul : 0 ∈ buffer) : ∃ later, buffer = cstr buffer ++ 0 :: later := by
  induction buffer with
  | nil => cases nul
  | cons c rest ih =>
    by_cases zero : c = 0
    · exact ⟨rest, by rw [zero, cstr_nul, List.nil_append]⟩
    · obtain ⟨later, split⟩ := ih (by simpa [Ne.symm zero] using nul)
      refine ⟨later, ?_⟩
      rw [cstr_cons zero, List.cons_append, ← split]

/-! ### Decimal numbers -/

/-- At most `n` characters, and none behind a terminator. -/
def strncmp : Bytes → Bytes → Nat → Ordering
  | _, _, 0 => .eq
  | a, b, n + 1 =>
    if a.headD 0 < b.headD 0 then .lt
    else if b.headD 0 < a.headD 0 then .gt
    else if a.headD 0 = 0 then .eq
    else strncmp a.tail b.tail n

/-- Texts agree as far as the stem goes if it is a prefix. -/
theorem strncmp_eq_iff {text stem : Bytes} (no_nul : 0 ∉ stem) : strncmp text stem stem.length = .eq ↔ stem <+: text := by
  induction stem generalizing text with
  | nil => simp [strncmp]
  | cons c stem ih =>
    have char : c ≠ 0 := fun zero => no_nul (by simp [zero])
    have rest : 0 ∉ stem := fun inside => no_nul (List.mem_cons_of_mem _ inside)
    have positive : 0 < c := UInt8.pos_iff_ne_zero.mpr char
    cases text with
    | nil => simp [strncmp, positive]
    | cons first text =>
      rw [List.cons_prefix_cons, ← ih rest]
      by_cases below : first < c
      · simp [strncmp, below, (UInt8.ne_of_lt below).symm]
      · by_cases above : c < first
        · simp [strncmp, below, above, UInt8.ne_of_lt above]
        · have same : first = c := UInt8.le_antisymm (UInt8.not_lt.mp above) (UInt8.not_lt.mp below)
          simp [strncmp, same, char]

theorem not_lt_start {front text : Bytes} (starts : front <+: text) : ¬ text < front := by
  induction front generalizing text with
  | nil => exact List.not_lt_nil _
  | cons c front ih =>
    obtain ⟨back, rfl⟩ := starts
    rw [List.cons_append, List.cons_lt_cons_iff]
    rintro (below | ⟨_, later⟩)
    · exact UInt8.lt_irrefl c below
    · exact ih (List.prefix_append front back) later

/-- A text before another that begins with the stem is before the stem. -/
theorem strncmp_lt_of_lt {text other stem : Bytes} (before : text < other) (starts : stem <+: other)
    (differs : ¬ stem <+: text) (no_nul : 0 ∉ stem) : strncmp text stem stem.length = .lt := by
  induction stem generalizing text other with
  | nil => exact absurd (List.nil_prefix) differs
  | cons c stem ih =>
    have char : c ≠ 0 := fun zero => no_nul (by simp [zero])
    have rest : 0 ∉ stem := fun inside => no_nul (List.mem_cons_of_mem _ inside)
    have positive : 0 < c := UInt8.pos_iff_ne_zero.mpr char
    obtain ⟨back, rfl⟩ := starts
    cases text with
    | nil => simp [strncmp, positive]
    | cons first text =>
      rw [List.cons_append, List.cons_lt_cons_iff] at before
      obtain below | ⟨rfl, later⟩ := before
      · simp [strncmp, below]
      · have other_rest : ¬ stem <+: text := fun starts => differs (List.cons_prefix_cons.mpr ⟨rfl, starts⟩)
        simpa [strncmp, char] using ih later (List.prefix_append stem back) other_rest rest

/-- As printed by `%u`. -/
def decimal (n : Nat) : Bytes := (Nat.toDigits 10 n).map fun c => UInt8.ofNat c.toNat

/-- What a loop over decimal digits accumulates. -/
def number (digits : Bytes) : Nat := digits.foldl (fun n c => n * 10 + (c.toNat - 48)) 0

theorem char_digit {c : Char} (digit : c.isDigit = true) : 48 ≤ c.toNat ∧ c.toNat ≤ 57 := by
  simpa [Char.isDigit, UInt32.le_iff_toNat_le] using digit

theorem isdigit_iff {c : UInt8} : isdigit c = true ↔ 48 ≤ c.toNat ∧ c.toNat ≤ 57 := by
  simp [isdigit, UInt8.le_iff_toNat_le]

theorem decimal_digits {n : Nat} {c : UInt8} (inside : c ∈ decimal n) : isdigit c = true := by
  obtain ⟨char, listed, rfl⟩ := List.mem_map.mp inside
  have bounds := char_digit (Nat.isDigit_of_mem_toDigits (by decide) (by decide) listed)
  rw [isdigit_iff, UInt8.toNat_ofNat']
  omega

theorem decimal_ne_nil (n : Nat) : decimal n ≠ [] := by simp [decimal, Nat.toDigits_ne_nil]

theorem decimal_length_le {n k : Nat} (positive : 0 < k) (small : n < 10 ^ k) : (decimal n).length ≤ k := by
  rw [decimal, List.length_map]
  exact (Nat.length_toDigits_le_iff (by decide) positive).mpr small

theorem number_map {chars : List Char} (digits : ∀ c ∈ chars, c.isDigit = true) (n : Nat) :
    (chars.map fun c => UInt8.ofNat c.toNat).foldl (fun n c => n * 10 + (c.toNat - 48)) n =
      Nat.ofDigitChars 10 chars n := by
  induction chars generalizing n with
  | nil => rfl
  | cons c rest ih =>
    have bounds := char_digit (digits c List.mem_cons_self)
    have byte : (UInt8.ofNat c.toNat).toNat = c.toNat := by
      rw [UInt8.toNat_ofNat']
      omega
    rw [List.map_cons, List.foldl_cons, ih (fun d inside => digits d (List.mem_cons_of_mem _ inside)), byte,
      Nat.ofDigitChars_cons, Nat.mul_comm]
    rfl

/-- A printed number is read back. -/
@[simp] theorem number_decimal (n : Nat) : number (decimal n) = n := by
  rw [number, decimal, number_map fun c inside => Nat.isDigit_of_mem_toDigits (by decide) (by decide) inside]
  exact Nat.ofDigitChars_ten_toDigits

theorem decimal_injective {m n : Nat} (same : decimal m = decimal n) : m = n := by
  rw [← number_decimal m, same, number_decimal]

end PiJade.Text
