import PiJade.Machine

/-!
The buttons of the display board (`pijade/host/buttons_gpio.c`): each call of `buttons_wait` reads at most one edge of
the button lines, and repeats the direction that is held. What the kernel answers during a call is given with the
call. Times are nanoseconds of the monotonic clock, as plain numbers; a `uint64_t` has room for
all of them until half a second before its end.
-/
namespace PiJade.ButtonsGpio
set_option linter.unusedSimpArgs false

inductive ButtonEvent where
  | BUTTON_NONE
  | BUTTON_PREV
  | BUTTON_NEXT
  | BUTTON_SELECT
  | BUTTON_UP
  | BUTTON_DOWN
  | BUTTON_KEY1
  | BUTTON_KEY2
  | BUTTON_KEY3
  | BUTTON_ERROR
  deriving DecidableEq

def BUTTONS_REPEAT_DELAY_MS : Nat := 500
def BUTTONS_REPEAT_INTERVAL_MS : Nat := 150
def repeatDelay : Nat := BUTTONS_REPEAT_DELAY_MS * 1000000
def repeatInterval : Nat := BUTTONS_REPEAT_INTERVAL_MS * 1000000
def INT_MAX : Nat := 2147483647

structure Line where
  pin : Nat
  event : ButtonEvent
  deriving DecidableEq

def LINES : List Line := [
  { pin := 5, event := .BUTTON_PREV },
  { pin := 26, event := .BUTTON_NEXT },
  { pin := 6, event := .BUTTON_UP },
  { pin := 19, event := .BUTTON_DOWN },
  { pin := 13, event := .BUTTON_SELECT },
  { pin := 21, event := .BUTTON_KEY1 },
  { pin := 20, event := .BUTTON_KEY2 },
  { pin := 16, event := .BUTTON_KEY3 }]

abbrev Index := Fin LINES.length

def is_direction (event : ButtonEvent) : Bool :=
  event = .BUTTON_PREV || event = .BUTTON_NEXT || event = .BUTTON_UP || event = .BUTTON_DOWN

def is_key (event : ButtonEvent) : Bool := event = .BUTTON_KEY1 || event = .BUTTON_KEY2 || event = .BUTTON_KEY3

structure Buttons where
  held_pin : Nat
  held_event : ButtonEvent
  next_repeat_ns : Nat
  pressed_dirs : BitVec 8
  deriving DecidableEq

/-- The lines have just been claimed. -/
def buttons_open : Buttons where
  held_pin := 0
  held_event := .BUTTON_NONE
  next_repeat_ns := 0
  pressed_dirs := 0

/-! ### What the kernel answers -/

inductive EdgeId where
  | RISING_EDGE
  | FALLING_EDGE
  | other
  deriving DecidableEq

/-- `struct gpio_v2_line_event`. -/
structure LineEvent where
  offset : Nat
  id : EdgeId
  timestamp_ns : Nat
  deriving DecidableEq

inductive Polled where
  | failed (interrupted : Bool)
  | timeout
  | ready (device_failure pollin : Bool)

inductive Got where
  | failed (interrupted : Bool)
  | short
  | event (event : LineEvent)

/-- A call of `buttons_wait`, with the clock before and after the poll. -/
structure Call where
  timeout_ms : Int
  now : Option Nat
  poll : Int → Polled
  now_after : Option Nat
  got : Got

/-- What a call returns, and the state it leaves. -/
structure Result where
  event : ButtonEvent
  timestamp_ns : Nat
  buttons : Buttons
  deriving DecidableEq

/-! ### One call -/

def bit (i : Index) : BitVec 8 := 1#8 <<< i.val

def Buttons.isPressed (buttons : Buttons) (i : Index) : Bool := buttons.pressed_dirs &&& bit i ≠ 0#8

/-- The line at an offset. -/
def findLine (offset : Nat) : Option Index := (List.finRange LINES.length).find? fun i => (LINES.get i).pin = offset

/-- Nobody owns the repeat. -/
def Buttons.disown (buttons : Buttons) : Buttons :=
  { buttons with held_pin := 0, held_event := .BUTTON_NONE, next_repeat_ns := 0 }

/-- A line owns the repeat from an edge on. -/
def Buttons.own (buttons : Buttons) (line : Line) (event : LineEvent) : Buttons :=
  { buttons with
    held_pin := line.pin
    held_event := line.event
    next_repeat_ns := event.timestamp_ns + repeatDelay }

/-- The owner was released: the first direction that is still pressed takes over. -/
def Buttons.handOver (buttons : Buttons) (event : LineEvent) : Buttons :=
  match (List.finRange LINES.length).find? fun j => buttons.isPressed j with
  | some j => buttons.own (LINES.get j) event
  | none => buttons.disown

/-- The line of a released direction is no longer pressed. -/
def Buttons.clearDir (buttons : Buttons) (i : Index) : Buttons :=
  if is_direction (LINES.get i).event then { buttons with pressed_dirs := buttons.pressed_dirs &&& ~~~bit i } else buttons

def release (buttons : Buttons) (i : Index) (event : LineEvent) : Buttons :=
  if buttons.held_event ≠ .BUTTON_NONE ∧ buttons.held_pin = event.offset then (buttons.clearDir i).handOver event
  else buttons.clearDir i

def press (buttons : Buttons) (i : Index) (event : LineEvent) : Buttons :=
  if is_direction (LINES.get i).event then
    let buttons := { buttons with pressed_dirs := buttons.pressed_dirs ||| bit i }
    if buttons.held_event = .BUTTON_NONE then buttons.own (LINES.get i) event else buttons
  else if is_key (LINES.get i).event then buttons.disown
  else buttons

/-- An edge that was read. -/
def line_event (buttons : Buttons) (event : LineEvent) : Result :=
  match findLine event.offset with
  | none => ⟨.BUTTON_NONE, 0, buttons⟩
  | some i =>
    match event.id with
    | .RISING_EDGE => ⟨.BUTTON_NONE, 0, release buttons i event⟩
    | .FALLING_EDGE => ⟨(LINES.get i).event, event.timestamp_ns, press buttons i event⟩
    | .other => ⟨.BUTTON_NONE, 0, buttons⟩

/-- The poll timed out. -/
def timed_out (buttons : Buttons) (now_after : Option Nat) : Result :=
  if buttons.held_event ≠ .BUTTON_NONE then
    match now_after with
    | none => ⟨.BUTTON_ERROR, 0, buttons⟩
    | some now =>
      if buttons.next_repeat_ns ≤ now then
        ⟨buttons.held_event, now, { buttons with next_repeat_ns := now + repeatInterval }⟩
      else ⟨.BUTTON_NONE, 0, buttons⟩
  else ⟨.BUTTON_NONE, 0, buttons⟩

/-- The timeout of the poll while a direction is held. -/
def repeat_timeout (buttons : Buttons) (timeout_ms : Int) (now_ns : Nat) : Int :=
  let remaining_ms :=
    if now_ns < buttons.next_repeat_ns then (buttons.next_repeat_ns - now_ns + 999999) / 1000000 else 0
  let repeat_timeout_ms : Int := if INT_MAX < remaining_ms then INT_MAX else remaining_ms
  if timeout_ms < 0 ∨ repeat_timeout_ms < timeout_ms then repeat_timeout_ms else timeout_ms

/-- The poll, unless the clock cannot be read for its timeout. -/
def polled (buttons : Buttons) (call : Call) : Option Polled :=
  if buttons.held_event ≠ .BUTTON_NONE then
    match call.now with
    | none => none
    | some now => some (call.poll (repeat_timeout buttons call.timeout_ms now))
  else some (call.poll call.timeout_ms)

def buttons_wait (buttons : Buttons) (call : Call) : Result :=
  match polled buttons call with
  | none => ⟨.BUTTON_ERROR, 0, buttons⟩
  | some (.failed interrupted) => ⟨if interrupted then .BUTTON_NONE else .BUTTON_ERROR, 0, buttons⟩
  | some .timeout => timed_out buttons call.now_after
  | some (.ready device_failure pollin) =>
    if device_failure then ⟨.BUTTON_ERROR, 0, buttons⟩
    else if !pollin then ⟨.BUTTON_NONE, 0, buttons⟩
    else
      match call.got with
      | .failed interrupted => ⟨if interrupted then .BUTTON_NONE else .BUTTON_ERROR, 0, buttons⟩
      | .short => ⟨.BUTTON_ERROR, 0, buttons⟩
      | .event event => line_event buttons event

end PiJade.ButtonsGpio
