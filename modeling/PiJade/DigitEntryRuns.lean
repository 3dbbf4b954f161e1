import Mathlib.Algebra.Group.Nat.Defs
import Mathlib.Data.List.Basic
import Mathlib.Data.List.Induction
import PiJade.DigitEntry

/-!
Runs of the entry. As long as a digit is selected no assertion fails, and the digits that are set are those that were
clicked and not taken back. An entry whose last digit was set has none selected: another round on it stops the device at
the first wheel or click.
-/
namespace PiJade.DigitEntry
set_option linter.unusedSimpArgs false

/-! ### What was typed -/

def decimal (digits : List Nat) : Nat := digits.foldl (fun value digit => value * 10 + digit) 0

theorem decimal_append (digits : List Nat) (digit : Nat) : decimal (digits ++ [digit]) = decimal digits * 10 + digit := by
  rw [decimal, List.foldl_append]
  rfl

/-- The digits that were clicked and not taken back: the tenth character is the backspace. -/
def typedBy (typed : List Nat) (value : Nat) : List Nat :=
  if value < NUM_ENTRY_DIGITS then typed ++ [value] else if value = 10 then typed.dropLast else typed

def typedAfter (typed : List Nat) (clicked : List Nat) : List Nat := clicked.foldl typedBy typed

def Settings.size (settings : Settings) : Nat := if settings.max_digits ≠ 0 then settings.max_digits else DIGIT_ENTRY_SIZE

/-- The widths that entries have. -/
def Settings.Sized (settings : Settings) : Prop :=
  settings.size = DIGIT_ENTRY_WORD_NUMBER_SIZE ∨ settings.size = DIGIT_ENTRY_SIZE

def Settings.allowsEnter (settings : Settings) : Prop := settings.entry_type ≠ .DIGIT_ENTRY_PIN

/-- A digit that keeps the number small enough, the backspace, or the enter where there is one. -/
def Allowed (settings : Settings) (typed : List Nat) (value : Nat) : Prop :=
  (value < 10 ∧ (settings.max_value ≠ 0 → decimal (typed ++ [value]) ≤ settings.max_value)) ∨ value = 10 ∨
    (value = 11 ∧ settings.allowsEnter)

/-- The digits that are set are those that were typed. -/
structure Holds (settings : Settings) (entry : Entry) (typed : List Nat) : Prop where
  kept : entry.toSettings = settings
  digits : entry.digit.length = DIGIT_ENTRY_SIZE
  statuses : entry.digit_status.length = DIGIT_ENTRY_SIZE
  selected : entry.selected_digit = typed.length
  taken : entry.digit.take typed.length = typed
  set : ∀ i < typed.length, entry.digit_status[i]? = some .SET
  small : ∀ digit ∈ typed, digit < 10
  bounded : settings.max_value ≠ 0 → decimal typed ≤ settings.max_value

section
variable {settings : Settings} {entry : Entry} {typed : List Nat}

theorem Holds.current (holds : Holds settings entry typed) (value : Nat) :
    Holds settings { entry with current_selected_value := value } typed :=
  ⟨holds.kept, holds.digits, holds.statuses, holds.selected, holds.taken, holds.set, holds.small, holds.bounded⟩

theorem get_digit_entry_size_eq (sized : settings.Sized) (same : entry.toSettings = settings) :
    get_digit_entry_size entry = .ok settings.size := by
  subst same
  have valid : decide (entry.size = DIGIT_ENTRY_WORD_NUMBER_SIZE ∨ entry.size = DIGIT_ENTRY_SIZE) = true :=
    decide_eq_true sized
  rw [get_digit_entry_size]
  rw [Settings.size] at *
  simp only [valid, Check.ensure_true, Check.ok_bind, Check.pure_eq]

theorem Holds.digit (holds : Holds settings entry typed) {i : Nat} (inside : i < typed.length) :
    entry.digit[i]? = some typed[i] := by
  rw [← List.getElem?_take_of_lt inside, holds.taken, List.getElem?_eq_getElem inside]

/-- The number of the digits from one on. -/
theorem fold_addDigit (holds : Holds settings entry typed) {i count : Nat} (rest : i + count = typed.length) (value : Nat) :
    Check.fold (addDigit entry) value (List.range' i count) =
      .ok ((typed.drop i).foldl (fun value digit => value * 10 + digit) value) := by
  induction count generalizing i value with
  | zero => rw [List.drop_of_length_le (by omega)]; rfl
  | succ count ih =>
    have inside : i < typed.length := by omega
    have small : typed[i] < 10 := holds.small _ (List.getElem_mem inside)
    have added : addDigit entry value i = .ok (value * 10 + typed[i]) := by
      have digit : typed[i] < NUM_ENTRY_DIGITS := small
      simp [addDigit, holds.digit inside, holds.set i inside, digit]
    rw [List.range'_succ, Check.fold, added, Check.ok_bind, ih (by omega), List.drop_eq_getElem_cons inside, List.foldl_cons]

theorem fold_addDigit_all (holds : Holds settings entry typed) :
    Check.fold (addDigit entry) 0 (List.range entry.selected_digit) = .ok (decimal typed) := by
  rw [List.range_eq_range', holds.selected, fold_addDigit holds (Nat.zero_add _)]
  rfl

theorem allows_enter_iff (same : entry.toSettings = settings) :
    digit_entry_allows_enter entry = true ↔ settings.allowsEnter := by
  rw [← same, Settings.allowsEnter]
  cases kind : entry.entry_type <;> simp [digit_entry_allows_enter, kind]

theorem backspace_asked (entry : Entry) : digit_entry_value_allowed entry 10 = .ok true := rfl

theorem enter_asked (entry : Entry) : digit_entry_value_allowed entry 11 = .ok (digit_entry_allows_enter entry) := by
  by_cases enter : digit_entry_allows_enter entry = true
  · simp [digit_entry_value_allowed, enter, ENTRY_CHARS, NUM_ENTRY_CHARS, NUM_ENTRY_DIGITS, CHAR_BACKSPACE, CHAR_ENTER]
  · simp [digit_entry_value_allowed, enter, ENTRY_CHARS, NUM_ENTRY_CHARS, NUM_ENTRY_DIGITS, CHAR_BACKSPACE, CHAR_ENTER]

/-- A value is allowed while a digit is selected. -/
theorem digit_entry_value_allowed_spec (sized : settings.Sized) (holds : Holds settings entry typed)
    (room : typed.length < settings.size) {value : Nat} (char : value < 12) :
    ∃ allowed, digit_entry_value_allowed entry value = .ok allowed ∧ (allowed = true ↔ Allowed settings typed value) := by
  have size := get_digit_entry_size_eq sized holds.kept
  have in_room : entry.selected_digit < settings.size := by rw [holds.selected]; exact room
  have chars : value < NUM_ENTRY_CHARS := char
  obtain rfl := holds.kept
  rw [digit_entry_value_allowed]
  simp only [chars, decide_true, Check.ensure_true, Check.ok_bind]
  by_cases digit : value < NUM_ENTRY_DIGITS
  · have under_ten : value < 10 := digit
    simp only [if_pos digit, digit_entry_digit_allowed, digit, decide_true, Check.ensure_true, Check.ok_bind, size, in_room]
    by_cases free : entry.max_value = 0
    · exact ⟨true, by simp [free], by simp [Allowed, under_ten, free]⟩
    · refine ⟨decide (decimal typed * 10 + value ≤ entry.max_value), ?_, ?_⟩
      · simp [free, get_candidate_entry_value, digit, fold_addDigit_all holds]
      · rw [decide_eq_true_iff, Allowed, decimal_append]
        constructor
        · exact fun bounded => .inl ⟨under_ten, fun _ => bounded⟩
        · rintro (⟨_, bounded⟩ | ten | ⟨eleven, _⟩)
          · exact bounded free
          · omega
          · omega
  · have digits : ¬ value < 10 := digit
    rw [if_neg digit]
    obtain rfl | rfl : value = 10 ∨ value = 11 := by omega
    · exact ⟨true, rfl, by simp [Allowed]⟩
    · refine ⟨digit_entry_allows_enter entry, ?_, ?_⟩
      · exact enter_asked entry
      · rw [allows_enter_iff rfl, Allowed]
        simp

theorem Allowed.char {value : Nat} (allowed : Allowed settings typed value) : value < 12 := by
  obtain ⟨digit, _⟩ | ten | ⟨eleven, _⟩ := allowed
  · omega
  · omega
  · omega

theorem firstAllowed_spec (sized : settings.Sized) (holds : Holds settings entry typed)
    (room : typed.length < settings.size) {values : List Nat} (chars : ∀ value ∈ values, value < 12)
    (backspace : 10 ∈ values) :
    ∃ value, firstAllowed entry values = .ok { entry with current_selected_value := value } ∧
      Allowed settings typed value := by
  induction values with
  | nil => cases backspace
  | cons first later ih =>
    obtain ⟨first_char, later_chars⟩ := List.forall_mem_cons.mp chars
    obtain ⟨allowed, asked, allowed_iff⟩ := digit_entry_value_allowed_spec sized (holds.current first) room first_char
    rw [firstAllowed, asked, Check.ok_bind]
    cases allowed with
    | true => exact ⟨first, rfl, allowed_iff.mp rfl⟩
    | false =>
      have other : 10 ≠ first := fun same => Bool.noConfusion (allowed_iff.mpr (.inr (.inl same.symm)))
      exact ih later_chars (List.mem_of_ne_of_mem other backspace)

theorem normalise_spec (sized : settings.Sized) (holds : Holds settings entry typed)
    (room : typed.length < settings.size) (char : entry.current_selected_value < 12) :
    ∃ value, normalise_current_digit_entry_value entry = .ok { entry with current_selected_value := value } ∧
      Allowed settings typed value := by
  obtain ⟨allowed, asked, allowed_iff⟩ := digit_entry_value_allowed_spec sized holds room char
  rw [normalise_current_digit_entry_value, asked, Check.ok_bind]
  cases allowed with
  | true => exact ⟨_, rfl, allowed_iff.mp rfl⟩
  | false =>
    simp only [Bool.false_eq_true, if_false]
    by_cases enter : digit_entry_allows_enter entry = true ∧ 0 < entry.selected_digit
    · obtain ⟨enter_allowed, entered, entered_iff⟩ :=
        @digit_entry_value_allowed_spec _ _ _ sized (holds.current 11) room 11 (by decide)
      have has_enter := (allows_enter_iff holds.kept).mp enter.1
      have answer : enter_allowed = true := entered_iff.mpr (.inr (.inr ⟨rfl, has_enter⟩))
      subst answer
      rw [if_pos enter]
      have last : NUM_ENTRY_CHARS - 1 = 11 := rfl
      simp only [last, entered, Check.ok_bind, Check.ensure_true]
      exact ⟨11, rfl, .inr (.inr ⟨rfl, has_enter⟩)⟩
    · rw [if_neg enter]
      exact firstAllowed_spec sized holds room (fun value among => List.mem_range.mp among) (by decide)

/-- How far the backspace is. -/
def toBackspace (direction : Int) (value : Nat) : Nat := (((10 - value) * direction - 1) % 12).toNat + 1

theorem stepFrom_spec (sized : settings.Sized) (holds : Holds settings entry typed)
    (room : typed.length < settings.size) {direction : Int} (either : direction = -1 ∨ direction = 1) {rounds : Nat}
    (char : entry.current_selected_value < 12) (enough : toBackspace direction entry.current_selected_value ≤ rounds) :
    ∃ value, stepFrom direction rounds entry = .ok { entry with current_selected_value := value } ∧
      Allowed settings typed value := by
  induction rounds generalizing entry with
  | zero => exact absurd enough (Nat.not_succ_le_zero _)
  | succ rounds ih =>
    generalize next : ((entry.current_selected_value + NUM_ENTRY_CHARS + direction) % NUM_ENTRY_CHARS).toNat = value
    have count : NUM_ENTRY_CHARS = 12 := rfl
    rw [count] at next
    have next_char : value < 12 := by omega
    obtain ⟨allowed, asked, allowed_iff⟩ := digit_entry_value_allowed_spec sized (holds.current value) room next_char
    rw [stepFrom, count]
    simp only [next, asked, Check.ok_bind]
    cases allowed with
    | true => exact ⟨value, rfl, allowed_iff.mp rfl⟩
    | false =>
      have other : value ≠ 10 := fun same => Bool.noConfusion (allowed_iff.mpr (.inr (.inl same)))
      have nearer : toBackspace direction value ≤ rounds := by
        rw [toBackspace] at enough ⊢
        obtain rfl | rfl := either
        · omega
        · omega
      exact ih (holds.current value) next_char nearer

theorem step_spec (sized : settings.Sized) (holds : Holds settings entry typed)
    (room : typed.length < settings.size) {direction : Int} (either : direction = -1 ∨ direction = 1)
    (char : entry.current_selected_value < 12) :
    ∃ value, step_current_digit_entry_value entry direction = .ok { entry with current_selected_value := value } ∧
      Allowed settings typed value := by
  rw [step_current_digit_entry_value, decide_eq_true either]
  refine stepFrom_spec sized holds room either char ?_
  rw [toBackspace]
  have count : NUM_ENTRY_CHARS = 12 := rfl
  omega

theorem reinitialise_spec (sized : settings.Sized) (holds : Holds settings entry typed)
    (room : typed.length < settings.size) (rnd : UInt8) :
    ∃ value, reinitialise_current_entry_digit entry rnd = .ok { entry with current_selected_value := value } ∧
      Allowed settings typed value := by
  refine normalise_spec sized (holds.current _) room ?_
  cases entry.initial_state with
  | ZERO => exact (by decide : 0 < 12)
  | POSITION =>
    have narrow : settings.size ≤ 6 := by
      obtain four | six := sized
      · rw [four]; decide
      · rw [six]; decide
    show entry.selected_digit < 12
    rw [holds.selected]
    omega
  | RANDOM => exact Nat.lt_trans (Nat.mod_lt _ (by decide)) (by decide)

/-- A digit is drawn, if what stands in it is a character. -/
theorem update_digit_node_spec (sized : settings.Sized) (kept : entry.toSettings = settings)
    (digits : entry.digit.length = DIGIT_ENTRY_SIZE) (statuses : entry.digit_status.length = DIGIT_ENTRY_SIZE)
    (char : entry.current_selected_value < 12) {i : Nat} (inside : i < settings.size)
    (drawn : ∀ digit, entry.digit_status[i]? = some .SET → entry.digit[i]? = some digit → digit < 12) :
    ∃ shown, update_digit_node entry i = .ok shown := by
  have narrow : settings.size ≤ 6 := by
    obtain four | six := sized
    · rw [four]; decide
    · rw [six]; decide
  have in_statuses : i < entry.digit_status.length := by rw [statuses]; exact Nat.lt_of_lt_of_le inside narrow
  have in_digits : i < entry.digit.length := by rw [digits]; exact Nat.lt_of_lt_of_le inside narrow
  have read (value : Nat) (small : value < 12) : ∃ shown, entryChar value = .ok shown := by
    have in_chars : value < ENTRY_CHARS.length := small
    exact ⟨ENTRY_CHARS[value], by rw [entryChar, List.getElem?_eq_getElem in_chars]⟩
  rw [update_digit_node, get_digit_entry_size_eq sized kept]
  simp only [Check.ok_bind, inside, decide_true, Check.ensure_true]
  have status_there := List.getElem?_eq_getElem in_statuses
  have digit_there := List.getElem?_eq_getElem in_digits
  rw [status_there, digit_there]
  cases status : entry.digit_status[i] with
  | EMPTY => exact ⟨_, rfl⟩
  | SELECTED =>
    obtain ⟨shown, read⟩ := read _ char
    exact ⟨[shown], by simp [read]⟩
  | SET =>
    obtain ⟨shown, read⟩ := read _ (drawn _ (status_there.trans (congrArg some status)) digit_there)
    by_cases visible : entry.digits_shown = true
    · exact ⟨[shown], by simp [visible, read]⟩
    · exact ⟨['*'], by simp [visible]⟩

/-! ### Events -/

/-- The digits that were typed are set, the next is selected, and the value it shows can be clicked. -/
structure Inv (settings : Settings) (entry : Entry) (typed : List Nat) : Prop extends Holds settings entry typed where
  room : typed.length ≤ settings.size
  char : entry.current_selected_value < 12
  ready : typed.length < settings.size →
    entry.digit_status[typed.length]? = some .SELECTED ∧ Allowed settings typed entry.current_selected_value
  full : typed.length = settings.size → entry.current_selected_value < 10

theorem Settings.Sized.narrow (sized : settings.Sized) : settings.size ≤ DIGIT_ENTRY_SIZE := by
  obtain four | six := sized
  · rw [four]; decide
  · exact Nat.le_of_eq six

theorem Settings.Sized.positive (sized : settings.Sized) : 0 < settings.size := by
  obtain four | six := sized
  · rw [four]; decide
  · rw [six]; decide

/-- The selected digit shows another value. -/
theorem Inv.show {value : Nat} (inv : Inv settings entry typed) (room : typed.length < settings.size)
    (allowed : Allowed settings typed value) : Inv settings { entry with current_selected_value := value } typed :=
  ⟨inv.toHolds.current value, inv.room, allowed.char, fun _ => ⟨(inv.ready room).1, allowed⟩,
    fun full => absurd full (Nat.ne_of_lt room)⟩

/-- The selected digit is drawn. -/
theorem Inv.drawn (inv : Inv settings entry typed) (sized : settings.Sized) (room : typed.length < settings.size) :
    ∃ shown, update_digit_node entry entry.selected_digit = .ok shown := by
  refine update_digit_node_spec sized inv.kept inv.digits inv.statuses inv.char (by rw [inv.selected]; exact room) ?_
  intro digit set
  rw [inv.selected, (inv.ready room).1] at set
  cases set

/-- The status of the next digit does not matter to those before it. -/
theorem Holds.status (holds : Holds settings entry typed) (status : Status) :
    Holds settings { entry with digit_status := entry.digit_status.set entry.selected_digit status } typed := by
  refine ⟨holds.kept, holds.digits, ?_, holds.selected, holds.taken, ?_, holds.small, holds.bounded⟩
  · rw [List.length_set, holds.statuses]
  · intro i inside
    rw [holds.selected, List.getElem?_set_ne (Nat.ne_of_gt inside)]
    exact holds.set i inside

/-- The next digit is selected. -/
theorem select_spec (sized : settings.Sized) (holds : Holds settings entry typed) (room : typed.length < settings.size)
    {value : Nat} (allowed : Allowed settings typed value) :
    Inv settings { entry with
      current_selected_value := value
      digit_status := entry.digit_status.set entry.selected_digit .SELECTED } typed := by
  have in_statuses : typed.length < entry.digit_status.length := by
    rw [holds.statuses]
    exact Nat.lt_of_lt_of_le room sized.narrow
  refine ⟨(holds.status .SELECTED).current value, Nat.le_of_lt room, allowed.char, fun _ => ⟨?_, allowed⟩,
    fun full => absurd full (Nat.ne_of_lt room)⟩
  rw [holds.selected, List.getElem?_set_self in_statuses]

/-- A digit that is clicked is set. -/
theorem set_holds (sized : settings.Sized) (inv : Inv settings entry typed) (room : typed.length < settings.size)
    (digit : entry.current_selected_value < 10) :
    Holds settings { entry with
      digit := entry.digit.set entry.selected_digit entry.current_selected_value
      digit_status := entry.digit_status.set entry.selected_digit .SET
      selected_digit := entry.selected_digit + 1 } (typed ++ [entry.current_selected_value]) := by
  have in_array := Nat.lt_of_lt_of_le room sized.narrow
  refine ⟨inv.kept, by rw [List.length_set, inv.digits], by rw [List.length_set, inv.statuses],
    by rw [List.length_append, inv.selected]; rfl, ?_, ?_, ?_, ?_⟩
  · rw [List.length_append, inv.selected, List.length_singleton]
    have in_digits : typed.length < entry.digit.length := by rw [inv.digits]; exact in_array
    rw [List.take_succ_eq_append_getElem (by rw [List.length_set]; exact in_digits), List.take_set_of_le (Nat.le_refl _),
      inv.taken, List.getElem_set_self]
  · intro i inside
    rw [List.length_append, List.length_singleton] at inside
    rw [inv.selected]
    obtain before | rfl := Nat.lt_succ_iff_lt_or_eq.mp inside
    · rw [List.getElem?_set_ne (Nat.ne_of_gt before)]
      exact inv.set i before
    · rw [List.getElem?_set_self (by rw [inv.statuses]; exact in_array)]
  · intro other among
    obtain old | new := List.mem_append.mp among
    · exact inv.small other old
    · rwa [List.mem_singleton.mp new]
  · intro limited
    obtain ⟨_, bounded⟩ | ten | ⟨eleven, _⟩ := (inv.ready room).2
    · exact bounded limited
    · omega
    · omega

/-- A digit is clicked: the next is selected, or the entry is full. -/
theorem next_spec (sized : settings.Sized) (inv : Inv settings entry typed) (room : typed.length < settings.size)
    (digit : entry.current_selected_value < 10) (rnd : UInt8) :
    ∃ next another, next_selected_digit entry rnd = .ok (next, another) ∧
      Inv settings next (typed ++ [entry.current_selected_value]) ∧
      (another = false ↔ (typed ++ [entry.current_selected_value]).length = settings.size) := by
  have in_room : entry.selected_digit < settings.size := by rw [inv.selected]; exact room
  have in_array := Nat.lt_of_lt_of_le in_room sized.narrow
  have holds := set_holds sized inv room digit
  have drawn : ∃ shown, update_digit_node { entry with
      digit := entry.digit.set entry.selected_digit entry.current_selected_value
      digit_status := entry.digit_status.set entry.selected_digit .SET } entry.selected_digit = .ok shown := by
    refine update_digit_node_spec sized ?_ holds.digits holds.statuses ?_ in_room ?_
    · exact inv.kept
    · exact inv.char
    intro other _ there
    rw [List.getElem?_set_self (by rw [inv.digits]; exact in_array)] at there
    cases there
    exact inv.char
  obtain ⟨_, drawn⟩ := drawn
  simp only [next_selected_digit, get_digit_entry_size_eq sized inv.kept, Check.ok_bind, in_room, digit, decide_true,
    Check.ensure_true, drawn]
  have length : (typed ++ [entry.current_selected_value]).length = entry.selected_digit + 1 := by
    rw [List.length_append, inv.selected]
    rfl
  by_cases last : settings.size ≤ entry.selected_digit + 1
  · rw [if_pos last]
    have whole : (typed ++ [entry.current_selected_value]).length = settings.size := by omega
    exact ⟨_, false, rfl, ⟨holds, Nat.le_of_eq whole, inv.char, fun more => absurd whole (Nat.ne_of_lt more),
      fun _ => digit⟩, fun _ => whole, fun _ => rfl⟩
  · rw [if_neg last]
    have more : (typed ++ [entry.current_selected_value]).length < settings.size := by omega
    obtain ⟨value, started, allowed⟩ := reinitialise_spec sized (holds.status .SELECTED) more rnd
    have next := select_spec sized holds more allowed
    obtain ⟨shown, drawn⟩ := next.drawn sized more
    simp only [started, Check.ok_bind]
    simp only [drawn, Check.ok_bind]
    exact ⟨_, true, rfl, next, fun last => Bool.noConfusion last, fun whole => absurd whole (Nat.ne_of_lt more)⟩

theorem decimal_dropLast_le (digits : List Nat) : decimal digits.dropLast ≤ decimal digits := by
  by_cases empty : digits = []
  · rw [empty]
    exact Nat.le_refl _
  · have whole := decimal_append digits.dropLast (digits.getLast empty)
    rw [List.dropLast_append_getLast] at whole
    omega

/-- The last digit is given up. -/
theorem Holds.dropLast (holds : Holds settings entry typed) :
    Holds settings { entry with selected_digit := entry.selected_digit - 1 } typed.dropLast := by
  have length := typed.length_dropLast
  refine ⟨holds.kept, holds.digits, holds.statuses, by rw [length, holds.selected], ?_, ?_, ?_, ?_⟩
  · have taken := congrArg (List.take (typed.length - 1)) holds.taken
    rwa [List.take_take, Nat.min_eq_left (Nat.sub_le _ _), ← List.dropLast_eq_take, ← length] at taken
  · intro i inside
    exact holds.set i (by omega)
  · exact fun digit among => holds.small digit ((List.dropLast_sublist typed).subset among)
  · exact fun limited => Nat.le_trans (decimal_dropLast_le typed) (holds.bounded limited)

/-- There is nothing to take back. -/
theorem prev_first (sized : settings.Sized) (inv : Inv settings entry typed) (none : entry.selected_digit = 0) (rnd : UInt8) :
    prev_selected_digit entry rnd = .ok (entry, false) := by
  have positive := sized.positive
  simp [prev_selected_digit, get_digit_entry_size_eq sized inv.kept, none, positive]

/-- The backspace is clicked behind the first digit: the digit before is selected. -/
theorem prev_spec (sized : settings.Sized) (inv : Inv settings entry typed) (room : typed.length < settings.size)
    (rnd : UInt8) :
    ∃ moved another, prev_selected_digit entry rnd = .ok (moved, another) ∧ Inv settings moved typed.dropLast ∧
      (another = false ↔ typed = []) := by
  have in_room : entry.selected_digit < settings.size := by rw [inv.selected]; exact room
  have in_array := Nat.lt_of_lt_of_le in_room sized.narrow
  by_cases first : typed = []
  · have none : entry.selected_digit = 0 := by rw [inv.selected, first]; rfl
    rw [prev_first sized inv none]
    subst first
    exact ⟨entry, false, rfl, inv, by simp⟩
  · have some_digits : entry.selected_digit ≠ 0 := by
      rw [inv.selected]
      exact fun zero => first (List.length_eq_zero_iff.mp zero)
    have emptied := inv.toHolds.status .EMPTY
    have drawn : ∃ shown, update_digit_node { entry with
        digit_status := entry.digit_status.set entry.selected_digit .EMPTY } entry.selected_digit = .ok shown := by
      refine update_digit_node_spec sized emptied.kept emptied.digits emptied.statuses ?_ in_room ?_
      · exact inv.char
      · intro digit set
        rw [List.getElem?_set_self (by rw [inv.statuses]; exact in_array)] at set
        cases set
    obtain ⟨_, drawn⟩ := drawn
    have fewer : typed.dropLast.length < settings.size := by rw [List.length_dropLast]; omega
    have moved := emptied.dropLast
    obtain ⟨value, started, allowed⟩ := reinitialise_spec sized moved fewer rnd
    have back := select_spec sized moved fewer allowed
    obtain ⟨shown, shows⟩ := back.drawn sized fewer
    simp only [prev_selected_digit, get_digit_entry_size_eq sized inv.kept, Check.ok_bind, in_room, decide_true,
      Check.ensure_true, if_neg some_digits]
    simp only [drawn, Check.ok_bind]
    simp only [started, Check.ok_bind]
    simp only [shows, Check.ok_bind]
    exact ⟨_, true, rfl, back, by simp [first]⟩

/-- A number was entered. -/
def Complete (settings : Settings) (typed : List Nat) : Prop :=
  typed ≠ [] ∧ (¬ settings.allowsEnter → typed.length = settings.size)

theorem entryChar_digit {value : Nat} (digit : value < 10) :
    ∃ char, entryChar value = .ok char ∧ char ≠ CHAR_BACKSPACE ∧ char ≠ CHAR_ENTER := by
  have table : ∀ value < 10, ENTRY_CHARS[value]? ≠ none ∧ ENTRY_CHARS[value]? ≠ some CHAR_BACKSPACE ∧
      ENTRY_CHARS[value]? ≠ some CHAR_ENTER := by
    decide
  obtain ⟨inside, no_backspace, no_enter⟩ := table value digit
  obtain ⟨char, there⟩ := Option.ne_none_iff_exists'.mp inside
  rw [there] at no_backspace no_enter
  exact ⟨char, by rw [entryChar, there], fun same => no_backspace (congrArg some same),
    fun same => no_enter (congrArg some same)⟩

/-- An event while a digit is selected. -/
theorem on_event_spec (sized : settings.Sized) (inv : Inv settings entry typed) (room : typed.length < settings.size)
    (event : Event) (rnd : UInt8) :
    ∃ next returned, on_event entry event rnd = .ok (next, returned) ∧
      Inv settings next (typedAfter typed (clicked entry event)) ∧
      (returned = some true → Complete settings (typedAfter typed (clicked entry event))) ∧
      (returned = none → (typedAfter typed (clicked entry event)).length < settings.size) := by
  have wheel {direction : Int} (either : direction = -1 ∨ direction = 1) : ∃ stepped shown,
      step_current_digit_entry_value entry direction = .ok stepped ∧
      update_digit_node stepped stepped.selected_digit = .ok shown ∧ Inv settings stepped typed := by
    obtain ⟨value, stepped, allowed⟩ := step_spec sized inv.toHolds room either inv.char
    have next := inv.show room allowed
    obtain ⟨shown, drawn⟩ := next.drawn sized room
    exact ⟨_, shown, stepped, drawn, next⟩
  cases event with
  | GUI_ALT_EVENT =>
    by_cases disabled : entry.escape_disabled = true
    · exact ⟨entry, none, by simp [on_event, disabled], inv, fun none => (by cases none), fun _ => room⟩
    · exact ⟨entry, some false, by simp [on_event, disabled], inv, fun some => (by cases some), fun none => (by cases none)⟩
  | GUI_WHEEL_LEFT_EVENT =>
    obtain ⟨stepped, shown, moved, drawn, next⟩ := wheel (.inl rfl)
    exact ⟨stepped, none, by simp only [on_event, moved, Check.ok_bind, drawn]; rfl, next, fun none => (by cases none),
      fun _ => room⟩
  | GUI_WHEEL_RIGHT_EVENT =>
    obtain ⟨stepped, shown, moved, drawn, next⟩ := wheel (.inr rfl)
    exact ⟨stepped, none, by simp only [on_event, moved, Check.ok_bind, drawn]; rfl, next, fun none => (by cases none),
      fun _ => room⟩
  | other => exact ⟨entry, none, rfl, inv, fun none => (by cases none), fun _ => room⟩
  | click =>
    obtain ⟨allowed, asked, allowed_iff⟩ := digit_entry_value_allowed_spec sized inv.toHolds room inv.char
    obtain rfl := allowed_iff.mpr (inv.ready room).2
    have char_is : get_current_digit_entry_char entry = entryChar entry.current_selected_value := by
      rw [get_current_digit_entry_char, asked]
      rfl
    have typed_next : typedAfter typed (clicked entry .click) = typedBy typed entry.current_selected_value := rfl
    rw [typed_next]
    simp only [on_event, char_is]
    obtain ⟨digit, _⟩ | ten | ⟨eleven, enter⟩ := (inv.ready room).2
    · obtain ⟨char, shown, no_backspace, no_enter⟩ := entryChar_digit digit
      obtain ⟨next, another, moved, next_inv, last⟩ := next_spec sized inv room digit rnd
      have grown : typedBy typed entry.current_selected_value = typed ++ [entry.current_selected_value] := if_pos digit
      simp only [shown, Check.ok_bind, if_neg no_backspace, if_neg no_enter, moved, grown]
      cases another with
      | true =>
        have more : (typed ++ [entry.current_selected_value]).length ≠ settings.size := fun whole =>
          Bool.noConfusion (last.mpr whole)
        exact ⟨next, none, rfl, next_inv, fun none => (by cases none), fun _ => Nat.lt_of_le_of_ne next_inv.room more⟩
      | false =>
        exact ⟨next, some true, rfl, next_inv, fun _ => ⟨by simp, fun _ => last.mp rfl⟩, fun none => (by cases none)⟩
    · obtain ⟨moved, another, back, moved_inv, last⟩ := prev_spec sized inv room rnd
      have shrunk : typedBy typed entry.current_selected_value = typed.dropLast := by
        rw [typedBy, if_neg (by rw [ten]; decide), if_pos ten]
      have shown : entryChar entry.current_selected_value = .ok CHAR_BACKSPACE := by
        rw [ten]
        rfl
      have fewer : typed.dropLast.length < settings.size := by rw [List.length_dropLast]; omega
      simp only [shown, Check.ok_bind, if_true, back, shrunk]
      cases another with
      | true => exact ⟨moved, none, rfl, moved_inv, fun none => (by cases none), fun _ => fewer⟩
      | false => exact ⟨moved, some false, rfl, moved_inv, fun some => (by cases some), fun none => (by cases none)⟩
    · have same : typedBy typed entry.current_selected_value = typed := by
        rw [typedBy, if_neg (by rw [eleven]; decide), if_neg (by omega)]
      have shown : entryChar entry.current_selected_value = .ok CHAR_ENTER := by
        rw [eleven]
        rfl
      have no_backspace : CHAR_ENTER ≠ CHAR_BACKSPACE := by decide
      have has_enter := (allows_enter_iff inv.kept).mpr enter
      simp only [shown, Check.ok_bind, if_neg no_backspace, if_true, has_enter, Check.ensure_true, same]
      refine ⟨entry, _, rfl, inv, fun entered => ⟨?_, fun none => absurd enter none⟩, fun none => (by cases none)⟩
      rintro rfl
      rw [inv.selected] at entered
      cases entered

/-! ### Entries that are full -/

theorem update_digit_node_full (sized : settings.Sized) (kept : entry.toSettings = settings)
    (full : entry.selected_digit = settings.size) : update_digit_node entry entry.selected_digit = .error .abort := by
  rw [update_digit_node, get_digit_entry_size_eq sized kept]
  simp [full]

theorem digit_refused (sized : settings.Sized) (kept : entry.toSettings = settings)
    (full : entry.selected_digit = settings.size) {value : Nat} (digit : value < 10) :
    digit_entry_value_allowed entry value = .error .abort := by
  have char : value < NUM_ENTRY_CHARS := Nat.lt_trans digit (by decide)
  have in_digits : value < NUM_ENTRY_DIGITS := digit
  simp [digit_entry_value_allowed, char, in_digits, digit_entry_digit_allowed, get_digit_entry_size_eq sized kept, full]

theorem stepFrom_full (sized : settings.Sized) (kept : entry.toSettings = settings)
    (full : entry.selected_digit = settings.size) (direction : Int) (rounds : Nat) :
    stepFrom direction rounds entry = .error .abort ∨
      ∃ value, stepFrom direction rounds entry = .ok { entry with current_selected_value := value } := by
  induction rounds generalizing entry with
  | zero => exact .inl rfl
  | succ rounds ih =>
    generalize next : ((entry.current_selected_value + NUM_ENTRY_CHARS + direction) % NUM_ENTRY_CHARS).toNat = value
    have count : NUM_ENTRY_CHARS = 12 := rfl
    have char : value < 12 := by rw [count] at next; omega
    rw [stepFrom, next]
    by_cases digit : value < 10
    · left
      rw [@digit_refused settings { entry with current_selected_value := value } sized kept full value digit]
      rfl
    · have answered : ∃ allowed, digit_entry_value_allowed { entry with current_selected_value := value } value =
          .ok allowed := by
        obtain rfl | rfl : value = 10 ∨ value = 11 := by omega
        · exact ⟨true, backspace_asked _⟩
        · exact ⟨_, enter_asked _⟩
      obtain ⟨allowed, answered⟩ := answered
      rw [answered]
      cases allowed with
      | true => exact .inr ⟨value, rfl⟩
      | false => exact @ih { entry with current_selected_value := value } kept full

/-- Another round on a full entry stops at the first wheel or click. -/
theorem on_event_full (sized : settings.Sized) (inv : Inv settings entry typed) (full : typed.length = settings.size)
    {event : Event} (touched : event = .GUI_WHEEL_LEFT_EVENT ∨ event = .GUI_WHEEL_RIGHT_EVENT ∨ event = .click)
    (rnd : UInt8) : on_event entry event rnd = .error .abort := by
  have selected : entry.selected_digit = settings.size := inv.selected.trans full
  have wheel {direction : Int} (either : direction = -1 ∨ direction = 1) : (do
      let stepped ← step_current_digit_entry_value entry direction
      let _ ← update_digit_node stepped stepped.selected_digit
      pure (stepped, none) : Check Fault (Entry × Option Bool)) = .error .abort := by
    rw [step_current_digit_entry_value, decide_eq_true either, Check.ensure_true, Check.ok_bind]
    obtain stops | ⟨value, stepped⟩ := stepFrom_full sized inv.kept selected direction NUM_ENTRY_CHARS
    · rw [stops]
      rfl
    · rw [stepped, Check.ok_bind,
        @update_digit_node_full settings { entry with current_selected_value := value } sized inv.kept selected]
      rfl
  obtain rfl | rfl | rfl := touched
  · exact wheel (.inl rfl)
  · exact wheel (.inr rfl)
  · rw [on_event, get_current_digit_entry_char, digit_refused sized inv.kept selected (inv.full full)]
    rfl

/-! ### Entries that are begun -/

theorem mapAll_exists {α β ε : Type} {f : α → Check ε β} {l : List α} (each : ∀ a ∈ l, ∃ b, f a = .ok b) :
    ∃ bs, Check.mapAll f l = .ok bs := by
  induction l with
  | nil => exact ⟨[], rfl⟩
  | cons a rest ih =>
    obtain ⟨⟨b, first⟩, later⟩ := List.forall_mem_cons.mp each
    obtain ⟨bs, others⟩ := ih later
    exact ⟨b :: bs, by rw [Check.mapAll, first, Check.ok_bind, others]; rfl⟩

/-- Nothing is typed, and every digit is drawn. -/
theorem cleared_spec (sized : settings.Sized) (kept : entry.toSettings = settings) (selected : entry.selected_digit = 0)
    (allowed : Allowed settings [] entry.current_selected_value) :
    Inv settings (entry.cleared settings.size) [] ∧
      ∃ shown, Check.mapAll (update_digit_node (entry.cleared settings.size)) (List.range settings.size) = .ok shown := by
  have digits : (entry.cleared settings.size).digit.length = DIGIT_ENTRY_SIZE := by simp [Entry.cleared]
  have statuses : (entry.cleared settings.size).digit_status.length = DIGIT_ENTRY_SIZE := by simp [Entry.cleared]
  have status {i : Nat} (inside : i < settings.size) :
      (entry.cleared settings.size).digit_status[i]? = some (if i = 0 then .SELECTED else .EMPTY) := by
    have in_array := Nat.lt_of_lt_of_le inside sized.narrow
    simp [Entry.cleared, inside, in_array]
  have holds : Holds settings (entry.cleared settings.size) [] := by
    refine ⟨kept, digits, statuses, selected, List.take_zero, ?_, ?_, ?_⟩
    · exact fun i none => absurd none (Nat.not_lt_zero i)
    · exact fun digit none => absurd none List.not_mem_nil
    · exact fun _ => Nat.zero_le _
  refine ⟨⟨holds, Nat.zero_le _, allowed.char, fun room => ⟨status room, allowed⟩,
    fun full => absurd full (Nat.ne_of_lt sized.positive)⟩, mapAll_exists ?_⟩
  intro i among
  have inside := List.mem_range.mp among
  refine update_digit_node_spec sized holds.kept digits statuses ?_ inside ?_
  · exact allowed.char
  intro digit set
  rw [status inside] at set
  split at set <;> cases set

/-- An entry before its screen is made. -/
structure Zeroed (settings : Settings) (entry : Entry) : Prop where
  kept : entry.toSettings = settings
  digits : entry.digit.length = DIGIT_ENTRY_SIZE
  statuses : entry.digit_status.length = DIGIT_ENTRY_SIZE
  selected : entry.selected_digit = 0

theorem Zeroed.holds (zeroed : Zeroed settings entry) : Holds settings entry [] := by
  refine ⟨zeroed.kept, zeroed.digits, zeroed.statuses, zeroed.selected, List.take_zero, ?_, ?_, ?_⟩
  · exact fun i none => absurd none (Nat.not_lt_zero i)
  · exact fun digit none => absurd none List.not_mem_nil
  · exact fun _ => Nat.zero_le _

theorem make_spec (sized : settings.Sized) (zeroed : Zeroed settings entry) (rnd : UInt8) :
    ∃ next, make_digit_entry_activity entry rnd = .ok next ∧ Inv settings next [] := by
  obtain ⟨value, started, allowed⟩ := reinitialise_spec sized zeroed.holds sized.positive rnd
  obtain ⟨inv, shown, drawn⟩ := @cleared_spec settings { entry with current_selected_value := value } sized zeroed.kept
    zeroed.selected allowed
  refine ⟨_, ?_, inv⟩
  simp only [make_digit_entry_activity, get_digit_entry_size_eq sized zeroed.kept, Check.ok_bind, started]
  simp only [drawn, Check.ok_bind, Check.pure_eq]

theorem reset_spec (sized : settings.Sized) (inv : Inv settings entry typed) (rnd : UInt8) :
    ∃ next, reset_digit_entry entry rnd = .ok next ∧ Inv settings next [] := by
  have zeroed : Zeroed settings { entry with selected_digit := 0 } := ⟨inv.kept, inv.digits, inv.statuses, rfl⟩
  obtain ⟨value, started, allowed⟩ := reinitialise_spec sized zeroed.holds sized.positive rnd
  obtain ⟨cleared, shown, drawn⟩ := @cleared_spec settings { entry with selected_digit := 0, current_selected_value := value }
    sized inv.kept rfl allowed
  have size : get_digit_entry_size { entry with selected_digit := 0, current_selected_value := value } =
      .ok settings.size := get_digit_entry_size_eq sized inv.kept
  refine ⟨_, ?_, cleared⟩
  simp only [reset_digit_entry, started, Check.ok_bind, size]
  simp only [drawn, Check.ok_bind, Check.pure_eq]

/-! ### Rounds -/

/-- No wheel is turned and nothing is clicked before the escape, where there is one. -/
def Idle (settings : Settings) : List (Event × UInt8) → Prop
  | [] => True
  | (.other, _) :: later => Idle settings later
  | (.GUI_ALT_EVENT, _) :: later => settings.escape_disabled = true → Idle settings later
  | _ :: _ => False

theorem clicked_swapped (invert : Bool) (entry : Entry) (event : Event) :
    clicked entry (swapped invert event) = clicked entry event := by
  cases event <;> cases invert <;> rfl

/-- A round on an entry that is not full, or is left alone. -/
theorem run_spec (sized : settings.Sized) (inv : Inv settings entry typed) (invert : Bool) {events : List (Event × UInt8)}
    (idle : typed.length = settings.size → Idle settings events) :
    ∃ round, run_digit_entry_loop invert entry events = .ok round ∧
      Inv settings round.entry (typedAfter typed round.clicked) ∧
      (round.returned = some true → Complete settings (typedAfter typed round.clicked)) := by
  induction events generalizing entry typed with
  | nil => exact ⟨_, rfl, inv, fun none => (by cases none)⟩
  | cons first later ih =>
    obtain ⟨event, rnd⟩ := first
    by_cases full : typed.length = settings.size
    · have left_alone := idle full
      cases event with
      | GUI_WHEEL_LEFT_EVENT | GUI_WHEEL_RIGHT_EVENT | click => exact absurd left_alone id
      | other =>
        obtain ⟨round, runs, done⟩ := ih inv fun _ => left_alone
        refine ⟨round, ?_, done⟩
        simp only [run_digit_entry_loop, swapped, on_event, Check.pure_eq, Check.ok_bind, runs, clicked, List.nil_append]
      | GUI_ALT_EVENT =>
        by_cases disabled : settings.escape_disabled = true
        · obtain ⟨round, runs, done⟩ := ih inv fun _ => left_alone disabled
          have no_escape : entry.escape_disabled = true := by rw [inv.kept]; exact disabled
          refine ⟨round, ?_, done⟩
          simp only [run_digit_entry_loop, swapped, on_event, no_escape, if_true, Check.pure_eq, Check.ok_bind, runs, clicked,
            List.nil_append]
        · have escape : ¬ entry.escape_disabled = true := by rw [inv.kept]; exact disabled
          refine ⟨{ entry, returned := some false, clicked := [] }, ?_, inv, fun entered => (by cases entered)⟩
          simp only [run_digit_entry_loop, swapped, on_event, if_neg escape, Check.pure_eq, Check.ok_bind, clicked]
    · have room := Nat.lt_of_le_of_ne inv.room full
      obtain ⟨next, returned, done, next_inv, complete, more⟩ := on_event_spec sized inv room (swapped invert event) rnd
      rw [clicked_swapped] at next_inv complete more
      rw [run_digit_entry_loop, done, Check.ok_bind]
      cases returned with
      | some result =>
        exact ⟨_, rfl, next_inv, fun entered => complete (congrArg some (Option.some.inj entered))⟩
      | none =>
        obtain ⟨round, runs, round_inv, round_complete⟩ := ih next_inv fun whole => absurd whole (Nat.ne_of_lt (more rfl))
        simp only [runs, Check.ok_bind]
        refine ⟨_, rfl, ?_, ?_⟩
        · simp only [typedAfter, List.foldl_append] at round_inv ⊢
          exact round_inv
        · simp only [typedAfter, List.foldl_append] at round_complete ⊢
          exact round_complete

/-- A round on a full entry that is not left alone stops the device. -/
theorem run_full_aborts (sized : settings.Sized) (inv : Inv settings entry typed) (full : typed.length = settings.size)
    (invert : Bool) {events : List (Event × UInt8)} (touched : ¬ Idle settings events) :
    run_digit_entry_loop invert entry events = .error .abort := by
  induction events with
  | nil => exact absurd trivial touched
  | cons first later ih =>
    obtain ⟨event, rnd⟩ := first
    have stops (wheel_or_click : swapped invert event = .GUI_WHEEL_LEFT_EVENT ∨
        swapped invert event = .GUI_WHEEL_RIGHT_EVENT ∨ swapped invert event = .click) :
        run_digit_entry_loop invert entry ((event, rnd) :: later) = .error .abort := by
      rw [run_digit_entry_loop, on_event_full sized inv full wheel_or_click]
      rfl
    cases event with
    | GUI_WHEEL_LEFT_EVENT | GUI_WHEEL_RIGHT_EVENT | click =>
      refine stops ?_
      cases invert <;> decide
    | other =>
      simp only [run_digit_entry_loop, swapped, on_event, Check.pure_eq, Check.ok_bind, ih touched, Check.error_bind]
    | GUI_ALT_EVENT =>
      rw [Idle, Classical.not_imp] at touched
      have no_escape : entry.escape_disabled = true := by rw [inv.kept]; exact touched.1
      simp only [run_digit_entry_loop, swapped, on_event, if_pos no_escape, Check.pure_eq, Check.ok_bind, ih touched.2,
        Check.error_bind]

theorem decimal_lt {digits : List Nat} (small : ∀ digit ∈ digits, digit < 10) : decimal digits < 10 ^ digits.length := by
  induction digits using List.reverseRecOn with
  | nil => exact Nat.one_pos
  | append_singleton digits digit ih =>
    have front := ih fun other among => small other (List.mem_append_left _ among)
    have last := small digit (List.mem_append_right _ (List.mem_singleton.mpr rfl))
    rw [decimal_append, List.length_append, List.length_singleton, Nat.pow_succ]
    omega

/-- What a number that was entered is. -/
structure Entered (settings : Settings) (entry : Entry) (typed : List Nat) : Prop where
  digits : entry.digit.take entry.selected_digit = typed
  small : ∀ digit ∈ typed, digit < 10
  some_digits : typed ≠ []
  pin : settings.entry_type = .DIGIT_ENTRY_PIN → settings.max_digits ≠ DIGIT_ENTRY_WORD_NUMBER_SIZE →
    typed.length = DIGIT_ENTRY_SIZE
  number : get_entry_as_number entry = .ok (decimal typed)
  fits : decimal typed < 10 ^ DIGIT_ENTRY_SIZE
  bounded : settings.max_value ≠ 0 → decimal typed ≤ settings.max_value

theorem entered_spec (sized : settings.Sized) (inv : Inv settings entry typed) (complete : Complete settings typed) :
    Entered settings entry typed := by
  obtain ⟨some_digits, whole⟩ := complete
  have positive := List.length_pos_iff.mpr some_digits
  have size := get_digit_entry_size_eq sized inv.kept
  refine ⟨by rw [inv.selected, inv.taken], inv.small, some_digits, fun pin wide => ?_, ?_, ?_, inv.bounded⟩
  · rw [whole fun enter => enter pin]
    obtain four | six := sized
    · have narrow : settings.max_digits = DIGIT_ENTRY_WORD_NUMBER_SIZE := by
        rw [Settings.size] at four
        split at four
        · exact four
        · cases four
      exact absurd narrow wide
    · exact six
  · rw [get_entry_as_number, size, Check.ok_bind]
    by_cases enter : digit_entry_allows_enter entry = true
    · have counted : 0 < entry.selected_digit ∧ entry.selected_digit ≤ settings.size := by
        rw [inv.selected]
        exact ⟨positive, inv.room⟩
      simp only [if_pos enter, decide_eq_true counted, Check.ensure_true, Check.ok_bind, fold_addDigit_all inv.toHolds]
    · have counted : entry.selected_digit = settings.size := by
        rw [inv.selected]
        exact whole fun has_enter => enter ((allows_enter_iff inv.kept).mpr has_enter)
      simp only [if_neg enter, decide_eq_true counted, Check.ensure_true, Check.ok_bind, fold_addDigit_all inv.toHolds]
  · exact Nat.lt_of_lt_of_le (decimal_lt inv.small)
      (Nat.pow_le_pow_right (by decide) (Nat.le_trans inv.room sized.narrow))

/-- An entry, and what is typed in it, after a caller made its screen, reset it and ran rounds on it in any order. -/
inductive Reached (settings : Settings) : Entry → List Nat → Prop where
  | made {entry next : Entry} {rnd : UInt8} (zeroed : Zeroed settings entry)
      (made : make_digit_entry_activity entry rnd = .ok next) : Reached settings next []
  | reset {entry next : Entry} {typed : List Nat} {rnd : UInt8} (before : Reached settings entry typed)
      (reset : reset_digit_entry entry rnd = .ok next) : Reached settings next []
  | round {entry : Entry} {typed : List Nat} {invert : Bool} {events : List (Event × UInt8)} {round : Round}
      (before : Reached settings entry typed) (run : run_digit_entry_loop invert entry events = .ok round) :
      Reached settings round.entry (typedAfter typed round.clicked)

theorem Reached.inv (sized : settings.Sized) (reached : Reached settings entry typed) : Inv settings entry typed := by
  induction reached with
  | made zeroed made =>
    obtain ⟨_, again, inv⟩ := make_spec sized zeroed _
    rw [made] at again
    cases again
    exact inv
  | reset before reset ih =>
    obtain ⟨_, again, inv⟩ := reset_spec sized ih _
    rw [reset] at again
    cases again
    exact inv
  | @round entry typed invert events round before run ih =>
    by_cases idle : typed.length = settings.size → Idle settings events
    · obtain ⟨_, again, inv, _⟩ := run_spec sized ih invert idle
      rw [run] at again
      cases again
      exact inv
    · rw [Classical.not_imp] at idle
      rw [run_full_aborts sized ih idle.1 invert idle.2] at run
      cases run

/-- The ends of a round without a number. -/
structure ReturnsFalse (settings : Settings) (entry : Entry) (invert : Bool) (rnd : UInt8)
    (later : List (Event × UInt8)) : Prop where
  escape : settings.escape_disabled = false → run_digit_entry_loop invert entry ((.GUI_ALT_EVENT, rnd) :: later) =
    .ok { entry, returned := some false, clicked := [] }
  ignored : settings.escape_disabled = true → run_digit_entry_loop invert entry ((.GUI_ALT_EVENT, rnd) :: later) =
    run_digit_entry_loop invert entry later
  backspace : entry.selected_digit = 0 → ENTRY_CHARS[entry.current_selected_value]? = some CHAR_BACKSPACE →
    run_digit_entry_loop invert entry ((.click, rnd) :: later) =
      .ok { entry, returned := some false, clicked := [entry.current_selected_value] }
  enter : entry.selected_digit = 0 → ENTRY_CHARS[entry.current_selected_value]? = some CHAR_ENTER →
    run_digit_entry_loop invert entry ((.click, rnd) :: later) =
      .ok { entry, returned := some false, clicked := [entry.current_selected_value] }

theorem returns_false (sized : settings.Sized) (inv : Inv settings entry typed) (invert : Bool) (rnd : UInt8)
    (later : List (Event × UInt8)) : ReturnsFalse settings entry invert rnd later := by
  have first (none : entry.selected_digit = 0) : typed = [] :=
    List.length_eq_zero_iff.mp (inv.selected.symm.trans none)
  have clicks {char : Char} (none : entry.selected_digit = 0)
      (there : ENTRY_CHARS[entry.current_selected_value]? = some char) :
      get_current_digit_entry_char entry = .ok char := by
    have empty := first none
    have room : typed.length < settings.size := by rw [empty]; exact sized.positive
    obtain ⟨allowed, asked, allowed_iff⟩ := digit_entry_value_allowed_spec sized inv.toHolds room inv.char
    obtain rfl := allowed_iff.mpr (inv.ready room).2
    rw [get_current_digit_entry_char, asked, Check.ok_bind, Check.ensure_true, Check.ok_bind, entryChar, there]
  refine ⟨?_, ?_, ?_, ?_⟩
  · intro escape
    have escapes : entry.escape_disabled = false := by rw [inv.kept]; exact escape
    simp [run_digit_entry_loop, swapped, on_event, escapes, clicked]
  · intro disabled
    have no_escape : entry.escape_disabled = true := by rw [inv.kept]; exact disabled
    cases runs : run_digit_entry_loop invert entry later with
    | error h => simp [run_digit_entry_loop, swapped, on_event, no_escape, runs]
    | ok round => simp [run_digit_entry_loop, swapped, on_event, no_escape, runs, clicked]
  · intro none backspace
    simp only [run_digit_entry_loop, swapped, on_event, clicks none backspace, Check.ok_bind, if_true,
      prev_first sized inv none, clicked]
    rfl
  · intro none enter
    have no_backspace : CHAR_ENTER ≠ CHAR_BACKSPACE := by decide
    have room : typed.length < settings.size := by rw [first none]; exact sized.positive
    have char : entry.current_selected_value = 11 := by
      have table : ∀ value < 12, ENTRY_CHARS[value]? = some CHAR_ENTER → value = 11 := by decide
      exact table _ inv.char enter
    have has_enter : digit_entry_allows_enter entry = true := by
      obtain ⟨digit, _⟩ | ten | ⟨_, enter⟩ := (inv.ready room).2
      · omega
      · omega
      · exact (allows_enter_iff inv.kept).mpr enter
    simp only [run_digit_entry_loop, swapped, on_event, clicks none enter, Check.ok_bind, if_neg no_backspace, if_true,
      has_enter, Check.ensure_true, none, clicked]
    rfl

/-- What is clicked is what is entered. An entry that is not full can be used for another round, a full one cannot: the
    loop stops the device exactly if it is run on a full entry and a wheel or click comes before an escape. -/
theorem number_entry_sound_iff (sized : settings.Sized) :
    (∀ entry rnd, Zeroed settings entry → ∃ next, make_digit_entry_activity entry rnd = .ok next) ∧
    ∀ entry typed, Reached settings entry typed →
      (∀ rnd, ∃ next, reset_digit_entry entry rnd = .ok next) ∧
      ∀ invert events,
        ((∃ round, run_digit_entry_loop invert entry events = .ok round) ↔
          (entry.selected_digit = settings.size → Idle settings events)) ∧
        (∀ round, run_digit_entry_loop invert entry events = .ok round → round.returned = some true →
          Entered settings round.entry (typedAfter typed round.clicked)) ∧
        ∀ rnd, ReturnsFalse settings entry invert rnd events := by
  refine ⟨fun entry rnd zeroed => ?_, fun entry typed reached => ⟨fun rnd => ?_, fun invert events => ⟨?_, ?_, ?_⟩⟩⟩
  · obtain ⟨next, made, _⟩ := make_spec sized zeroed rnd
    exact ⟨next, made⟩
  · obtain ⟨next, reset, _⟩ := reset_spec sized (reached.inv sized) rnd
    exact ⟨next, reset⟩
  · have inv := reached.inv sized
    rw [inv.selected]
    constructor
    · rintro ⟨round, run⟩ full
      by_contra touched
      rw [run_full_aborts sized inv full invert touched] at run
      cases run
    · intro idle
      obtain ⟨round, run, _⟩ := run_spec sized inv invert idle
      exact ⟨round, run⟩
  · intro round run entered
    have inv := reached.inv sized
    by_cases idle : typed.length = settings.size → Idle settings events
    · obtain ⟨_, again, next_inv, complete⟩ := run_spec sized inv invert idle
      rw [run] at again
      cases again
      exact entered_spec sized next_inv (complete entered)
    · rw [Classical.not_imp] at idle
      rw [run_full_aborts sized inv idle.1 invert idle.2] at run
      cases run
  · exact fun rnd => returns_false sized (reached.inv sized) invert rnd events

end

/-! ### An account index -/

/-- The entry of an account index on its screen. -/
def accountStart : Entry := { accountEntry with
  digit := List.replicate DIGIT_ENTRY_SIZE 0xFF
  digit_status := .SELECTED :: List.replicate 5 .EMPTY }

theorem accountStart_reached : Reached accountEntry.toSettings accountStart [] :=
  @Reached.made _ accountEntry _ 0 ⟨rfl, rfl, rfl, rfl⟩ rfl

/-- The index 10: a one, a zero and the enter. -/
def ten : List (Event × UInt8) :=
  [(.GUI_WHEEL_RIGHT_EVENT, 0), (.click, 0), (.click, 0), (.GUI_WHEEL_LEFT_EVENT, 0), (.click, 0)]

theorem ten_entered :
    ∃ round, run_digit_entry_loop false accountStart ten = .ok round ∧
      Entered accountEntry.toSettings round.entry [1, 0] :=
  ⟨_, rfl, (((number_entry_sound_iff (.inr rfl)).2 _ _ accountStart_reached).2 false ten).2.1 _ rfl rfl⟩

/-- The index 100000: its last digit completes the entry. -/
def tooLarge : List (Event × UInt8) := (.GUI_WHEEL_RIGHT_EVENT, 0) :: List.replicate 6 (.click, 0)

/-- An index that is too large is asked for again on the entry that it filled. The next click stops the device. -/
theorem rejected_index_aborts :
    (∃ round, run_digit_entry_loop false accountStart tooLarge = .ok round ∧ round.returned = some true ∧
      get_entry_as_number round.entry = .ok 100000 ∧
      run_digit_entry_loop false round.entry [(.click, 0)] = .error .abort) ∧
    enterAccountIndex false accountStart [(false, tooLarge), (false, [(.click, 0)])] = .error .abort :=
  ⟨⟨_, rfl, rfl, rfl, rfl⟩, rfl⟩

end PiJade.DigitEntry
