import PiJade.Process

/-!
Entry of a number by its digits (`main/ui/digit_entry.c`), and the entry of an account index
(`handle_address_options`, `main/qrmode.c`). Each step is given the byte that a random digit is drawn from,
if one is drawn.
-/
namespace PiJade.DigitEntry
set_option linter.unusedSimpArgs false

inductive Fault where
  | out_of_bounds
  deriving DecidableEq, Repr

inductive EntryType where
  | DIGIT_ENTRY_PIN
  | DIGIT_ENTRY_INDEX
  | DIGIT_ENTRY_WORD_NUMBER
  deriving DecidableEq, Repr

inductive InitialState where
  | RANDOM
  | ZERO
  | POSITION
  deriving DecidableEq, Repr

inductive Status where
  | EMPTY
  | SELECTED
  | SET
  deriving DecidableEq, Repr

def DIGIT_ENTRY_SIZE : Nat := 6
def DIGIT_ENTRY_WORD_NUMBER_SIZE : Nat := 4

def CHAR_BACKSPACE : Char := '|'
def CHAR_ENTER : Char := '~'
def ENTRY_CHARS : List Char := ['0', '1', '2', '3', '4', '5', '6', '7', '8', '9', CHAR_BACKSPACE, CHAR_ENTER]
def NUM_ENTRY_CHARS : Nat := ENTRY_CHARS.length
def NUM_ENTRY_DIGITS : Nat := NUM_ENTRY_CHARS - 2

/-- What an entry is made with, and whether its screen has no escape. -/
structure Settings where
  entry_type : EntryType
  initial_state : InitialState
  digits_shown : Bool
  max_digits : Nat
  max_value : Nat
  escape_disabled : Bool
  deriving DecidableEq, Repr

structure Entry extends Settings where
  digit : List Nat
  digit_status : List Status
  selected_digit : Nat
  current_selected_value : Nat
  deriving DecidableEq, Repr

inductive Event where
  | GUI_WHEEL_LEFT_EVENT
  | GUI_WHEEL_RIGHT_EVENT
  | GUI_ALT_EVENT
  | click
  | other
  deriving DecidableEq, Repr

def get_digit_entry_size (entry : Entry) : Check Fault Nat := do
  let max_digits := if entry.max_digits ≠ 0 then entry.max_digits else DIGIT_ENTRY_SIZE
  Check.ensure (max_digits = DIGIT_ENTRY_WORD_NUMBER_SIZE ∨ max_digits = DIGIT_ENTRY_SIZE)
  pure max_digits

def digit_entry_allows_enter (entry : Entry) : Bool :=
  entry.entry_type = .DIGIT_ENTRY_INDEX ∨ entry.entry_type = .DIGIT_ENTRY_WORD_NUMBER

/-- One more digit that is set. -/
def addDigit (entry : Entry) (value i : Nat) : Check Fault Nat :=
  match entry.digit_status[i]?, entry.digit[i]? with
  | some status, some digit => do
    Check.ensure (status = .SET ∧ digit < NUM_ENTRY_DIGITS)
    pure (value * 10 + digit)
  | _, _ => .error (.error .out_of_bounds)

def get_candidate_entry_value (entry : Entry) (value : Nat) : Check Fault Nat := do
  Check.ensure (value < NUM_ENTRY_DIGITS)
  let candidate ← Check.fold (addDigit entry) 0 (List.range entry.selected_digit)
  pure (candidate * 10 + value)

def digit_entry_digit_allowed (entry : Entry) (value : Nat) : Check Fault Bool := do
  Check.ensure (value < NUM_ENTRY_DIGITS)
  let entry_size ← get_digit_entry_size entry
  Check.ensure (entry.selected_digit < entry_size)
  if entry.max_value = 0 then pure true
  else do
    let candidate ← get_candidate_entry_value entry value
    pure (candidate ≤ entry.max_value)

def digit_entry_value_allowed (entry : Entry) (value : Nat) : Check Fault Bool := do
  Check.ensure (value < NUM_ENTRY_CHARS)
  if value < NUM_ENTRY_DIGITS then digit_entry_digit_allowed entry value
  else if ENTRY_CHARS[value]? = some CHAR_BACKSPACE then pure true
  else if digit_entry_allows_enter entry then pure (ENTRY_CHARS[value]? = some CHAR_ENTER)
  else pure false

/-- The first of these values that is allowed. -/
def firstAllowed (entry : Entry) : List Nat → Check Fault Entry
  | [] => .error .abort
  | i :: later => do
    if ← digit_entry_value_allowed { entry with current_selected_value := i } i then
      pure { entry with current_selected_value := i }
    else firstAllowed entry later

def normalise_current_digit_entry_value (entry : Entry) : Check Fault Entry := do
  if ← digit_entry_value_allowed entry entry.current_selected_value then pure entry
  else if digit_entry_allows_enter entry ∧ 0 < entry.selected_digit then do
    let entered := { entry with current_selected_value := NUM_ENTRY_CHARS - 1 }
    Check.ensure (ENTRY_CHARS[entered.current_selected_value]? = some CHAR_ENTER)
    let allowed ← digit_entry_value_allowed entered entered.current_selected_value
    Check.ensure allowed
    pure entered
  else firstAllowed entry (List.range NUM_ENTRY_CHARS)

/-- At most so many values on. -/
def stepFrom (direction : Int) : Nat → Entry → Check Fault Entry
  | 0, _ => .error .abort
  | rounds + 1, entry => do
    let value := ((entry.current_selected_value + NUM_ENTRY_CHARS + direction) % NUM_ENTRY_CHARS).toNat
    let stepped := { entry with current_selected_value := value }
    if ← digit_entry_value_allowed stepped value then pure stepped else stepFrom direction rounds stepped

def step_current_digit_entry_value (entry : Entry) (direction : Int) : Check Fault Entry := do
  Check.ensure (direction = -1 ∨ direction = 1)
  stepFrom direction NUM_ENTRY_CHARS entry

def entryChar (value : Nat) : Check Fault Char :=
  match ENTRY_CHARS[value]? with
  | some char => .ok char
  | none => .error (.error .out_of_bounds)

def get_current_digit_entry_char (entry : Entry) : Check Fault Char := do
  let allowed ← digit_entry_value_allowed entry entry.current_selected_value
  Check.ensure allowed
  entryChar entry.current_selected_value

/-- The value of the first random byte that is not too small for its remainder to be fair. -/
def get_uniform_random_byte (upper_bound : Nat) (rnd : UInt8) : Nat := rnd.toNat % upper_bound

def reinitialise_current_entry_digit (entry : Entry) (rnd : UInt8) : Check Fault Entry :=
  normalise_current_digit_entry_value { entry with
    current_selected_value := match entry.initial_state with
      | .ZERO => 0
      | .POSITION => entry.selected_digit
      | .RANDOM => get_uniform_random_byte NUM_ENTRY_DIGITS rnd }

/-- The text that is shown for a digit. -/
def update_digit_node (entry : Entry) (i : Nat) : Check Fault (List Char) := do
  let entry_size ← get_digit_entry_size entry
  Check.ensure (i < entry_size)
  match entry.digit_status[i]?, entry.digit[i]? with
  | some .EMPTY, _ => pure []
  | some .SELECTED, _ => do
    let char ← entryChar entry.current_selected_value
    pure [char]
  | some .SET, some digit => do
    if entry.digits_shown then do
      let char ← entryChar digit
      pure [char]
    else pure ['*']
  | _, _ => .error (.error .out_of_bounds)

/-- Of so many digits the first is selected. -/
def Entry.cleared (entry : Entry) (entry_size : Nat) : Entry := { entry with
  digit := (List.range DIGIT_ENTRY_SIZE).map fun i => if i < entry_size then 0xFF else entry.digit.getD i 0
  digit_status := (List.range DIGIT_ENTRY_SIZE).map fun i =>
    if i < entry_size then (if i = 0 then .SELECTED else .EMPTY) else entry.digit_status.getD i .EMPTY }

def make_digit_entry_activity (entry : Entry) (rnd : UInt8) : Check Fault Entry := do
  let entry_size ← get_digit_entry_size entry
  let started ← reinitialise_current_entry_digit entry rnd
  let cleared := started.cleared entry_size
  let _ ← Check.mapAll (update_digit_node cleared) (List.range entry_size)
  pure cleared

/-- The entry, and whether another digit is selected. -/
def next_selected_digit (entry : Entry) (rnd : UInt8) : Check Fault (Entry × Bool) := do
  let entry_size ← get_digit_entry_size entry
  Check.ensure (entry.selected_digit < entry_size)
  Check.ensure (entry.current_selected_value < 10)
  let copied := { entry with
    digit := entry.digit.set entry.selected_digit entry.current_selected_value
    digit_status := entry.digit_status.set entry.selected_digit .SET }
  let _ ← update_digit_node copied copied.selected_digit
  let moved := { copied with selected_digit := copied.selected_digit + 1 }
  if entry_size ≤ moved.selected_digit then pure (moved, false)
  else do
    let selected := { moved with digit_status := moved.digit_status.set moved.selected_digit .SELECTED }
    let started ← reinitialise_current_entry_digit selected rnd
    let _ ← update_digit_node started started.selected_digit
    pure (started, true)

def prev_selected_digit (entry : Entry) (rnd : UInt8) : Check Fault (Entry × Bool) := do
  let entry_size ← get_digit_entry_size entry
  Check.ensure (entry.selected_digit < entry_size)
  if entry.selected_digit = 0 then pure (entry, false)
  else do
    let emptied := { entry with digit_status := entry.digit_status.set entry.selected_digit .EMPTY }
    let _ ← update_digit_node emptied emptied.selected_digit
    let moved := { emptied with selected_digit := emptied.selected_digit - 1 }
    let started ← reinitialise_current_entry_digit moved rnd
    let selected := { started with digit_status := started.digit_status.set started.selected_digit .SELECTED }
    let _ ← update_digit_node selected selected.selected_digit
    pure (selected, true)

/-- The entry behind an event, and what the loop returns if it does. -/
def on_event (entry : Entry) (event : Event) (rnd : UInt8) : Check Fault (Entry × Option Bool) :=
  match event with
  | .GUI_ALT_EVENT => if entry.escape_disabled then pure (entry, none) else pure (entry, some false)
  | .GUI_WHEEL_LEFT_EVENT => do
    let stepped ← step_current_digit_entry_value entry (-1)
    let _ ← update_digit_node stepped stepped.selected_digit
    pure (stepped, none)
  | .GUI_WHEEL_RIGHT_EVENT => do
    let stepped ← step_current_digit_entry_value entry 1
    let _ ← update_digit_node stepped stepped.selected_digit
    pure (stepped, none)
  | .click => do
    let char ← get_current_digit_entry_char entry
    if char = CHAR_BACKSPACE then do
      let (moved, another) ← prev_selected_digit entry rnd
      pure (moved, if another then none else some false)
    else if char = CHAR_ENTER then do
      Check.ensure (digit_entry_allows_enter entry)
      pure (entry, some (entry.selected_digit ≠ 0))
    else do
      let (moved, another) ← next_selected_digit entry rnd
      pure (moved, if another then none else some true)
  | .other => pure (entry, none)

/-- Some boards swap the two directions of the wheel. -/
def swapped (entry_invert_navigation : Bool) : Event → Event
  | .GUI_WHEEL_LEFT_EVENT => if entry_invert_navigation then .GUI_WHEEL_RIGHT_EVENT else .GUI_WHEEL_LEFT_EVENT
  | .GUI_WHEEL_RIGHT_EVENT => if entry_invert_navigation then .GUI_WHEEL_LEFT_EVENT else .GUI_WHEEL_RIGHT_EVENT
  | event => event

/-- Where the loop is: what it returned, if it did, and the values that were clicked in it. -/
structure Round where
  entry : Entry
  returned : Option Bool
  clicked : List Nat
  deriving DecidableEq, Repr

def clicked (entry : Entry) : Event → List Nat
  | .click => [entry.current_selected_value]
  | _ => []

/-- The loop over the events, until it returns or none is left. -/
def run_digit_entry_loop (entry_invert_navigation : Bool) : Entry → List (Event × UInt8) → Check Fault Round
  | entry, [] => .ok { entry, returned := none, clicked := [] }
  | entry, (event, rnd) :: later => do
    let (next, returned) ← on_event entry (swapped entry_invert_navigation event) rnd
    match returned with
    | some result => pure { entry := next, returned := some result, clicked := clicked entry event }
    | none => do
      let round ← run_digit_entry_loop entry_invert_navigation next later
      pure { round with clicked := clicked entry event ++ round.clicked }

def reset_digit_entry (entry : Entry) (rnd : UInt8) : Check Fault Entry := do
  let started ← reinitialise_current_entry_digit { entry with selected_digit := 0 } rnd
  let entry_size ← get_digit_entry_size started
  let cleared := started.cleared entry_size
  let _ ← Check.mapAll (update_digit_node cleared) (List.range entry_size)
  pure cleared

def get_entry_as_number (entry : Entry) : Check Fault Nat := do
  let entry_size ← get_digit_entry_size entry
  if digit_entry_allows_enter entry then Check.ensure (0 < entry.selected_digit ∧ entry.selected_digit ≤ entry_size)
  else Check.ensure (entry.selected_digit = entry_size)
  Check.fold (addDigit entry) 0 (List.range entry.selected_digit)

/-! ### The account index -/

def ACCOUNT_INDEX_MAX : Nat := 65536

/-- The rounds of the entry of an account index: whether an escape is pending before each, and its events. The index, if
    one is given. -/
def enterAccountIndex (entry_invert_navigation : Bool) : Entry → List (Bool × List (Event × UInt8)) → Check Fault (Option Nat)
  | _, [] => .error .waiting
  | entry, (gui_escape_pending, events) :: later =>
    if gui_escape_pending then pure none
    else do
      let round ← run_digit_entry_loop entry_invert_navigation entry events
      match round.returned with
      | none => .error .waiting
      | some false => pure none
      | some true => do
        let new_account_index ← get_entry_as_number round.entry
        if new_account_index < ACCOUNT_INDEX_MAX then pure (some new_account_index)
        else enterAccountIndex entry_invert_navigation round.entry later

/-- What `handle_address_options` enters the index with. -/
def accountEntry : Entry where
  entry_type := .DIGIT_ENTRY_INDEX
  initial_state := .ZERO
  digits_shown := true
  max_digits := 0
  max_value := 0
  escape_disabled := false
  digit := List.replicate DIGIT_ENTRY_SIZE 0
  digit_status := List.replicate DIGIT_ENTRY_SIZE .EMPTY
  selected_digit := 0
  current_selected_value := 0

end PiJade.DigitEntry
