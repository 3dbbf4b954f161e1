import PiJade.Machine

/-!
The idle timer (`main/idletimer.c` with `CONFIG_LIBJADE`): the task that dims the screen of an unattended device and
powers the device off. A step of the model reads or writes one value that other threads share, so a run is any
interleaving of the task with activity, changed settings and overrides, and requests. Ticks are milliseconds; their
64 bits outlast every device, so they are plain numbers. How long a sleep takes is left to the run.
-/
namespace PiJade.IdleTimer
set_option linter.unusedSimpArgs false

def UINT16_MAX : UInt16 := 65535
def DEFAULT_IDLE_TIMEOUT_SECS : UInt16 := 600
def DEFAULT_SCREEN_TIMEOUT_SECS : UInt16 := 60
def TIMEOUT_SLEEP_PERIOD_SECS : Nat := 60
def portTICK_PERIOD_MS : Nat := 1

def SECS_TO_TICKS (secs : Nat) : Nat := secs * 1000 / portTICK_PERIOD_MS

def period : Nat := SECS_TO_TICKS TIMEOUT_SLEEP_PERIOD_SECS
def slice : Nat := 100 / portTICK_PERIOD_MS

inductive ResetAction where
  | SCREEN_DIMMED
  | REBOOT
  | POWER_OFF
  deriving DecidableEq

/-- What the threads share. -/
structure Shared where
  clock : Nat
  last_activity_registered : Nat
  last_ui_activity_registered : Nat
  min_timeout_override_secs : UInt16
  idle_timeout : UInt16
  screen_timeout : UInt16
  screen_dimmed : Bool
  idletimer_task_should_run : Bool
  idletimer_task_running : Bool
  idletimer_recheck_requested : Bool
  deriving DecidableEq

/-- The variables of the task. -/
structure Locals where
  timeout_secs : UInt16
  last_activity : Nat
  checktime : Nat
  action : ResetAction
  screen_timeout_secs : UInt16
  screen_timeout_disabled : Bool
  projected_ui_timeout_time : Nat
  remaining : Nat
  deriving DecidableEq

namespace Locals

def idle_timeout_disabled (l : Locals) : Bool := l.timeout_secs == UINT16_MAX
def timeout (l : Locals) : Nat := SECS_TO_TICKS l.timeout_secs.toNat
def projected_timeout_time (l : Locals) : Nat := l.last_activity + l.timeout

/-- The idle timeout has elapsed. -/
def idle_elapsed (l : Locals) : Bool := !l.idle_timeout_disabled && l.projected_timeout_time ≤ l.checktime

/-- The screen timeout has elapsed. -/
def screen_elapsed (l : Locals) : Bool := !l.screen_timeout_disabled && l.projected_ui_timeout_time ≤ l.checktime

/-- How long the task sleeps after a pass that ends with the screen dark or lit. -/
def delay (l : Locals) (screen_dimmed : Bool) : Nat :=
  let next_check_time :=
    if !screen_dimmed && !l.screen_timeout_disabled && l.projected_ui_timeout_time < l.projected_timeout_time then
      l.projected_ui_timeout_time
    else l.projected_timeout_time
  if l.checktime < next_check_time ∧ next_check_time < l.checktime + period then next_check_time - l.checktime
  else period

/-- How long the next slice of the sleep is. -/
def step (l : Locals) : Nat := if l.remaining < slice then l.remaining else slice

end Locals

/-- Where the task is: what its next step does. -/
inductive Place where
  /-- tests whether to start a pass -/
  | top
  /-- `storage_get_idle_timeout` -/
  | idleSetting
  /-- compares the setting with the override -/
  | idleOverride
  /-- reads the override again, to use it -/
  | idleRaise
  /-- `get_last_registered_activity(false)` -/
  | activity
  /-- `xTaskGetTickCount` -/
  | tickCount
  /-- tests whether the idle timeout has elapsed, and what to do then -/
  | elapsed
  /-- `show_timeout_warning_screen` -/
  | warning
  /-- `get_last_registered_activity(false) > checktime` -/
  | reread
  /-- tests whether the task is to stop -/
  | stopped
  /-- `switch (action)` -/
  | perform
  /-- `storage_get_screen_timeout` -/
  | screenSetting
  | screenOverride
  | screenRaise
  /-- `get_last_registered_activity(true)` -/
  | uiActivity
  /-- dims the screen if the screen timeout has elapsed -/
  | uiDim
  /-- works out the delay -/
  | choose
  /-- the loop of `idletimer_delay` -/
  | sleeping
  /-- tests the recheck flag -/
  | poll
  /-- clears it -/
  | clear
  /-- is about to call `vTaskDelay` -/
  | drowsy
  /-- is in `vTaskDelay` -/
  | asleep
  /-- has powered off or restarted -/
  | gone
  /-- has returned -/
  | ended
  deriving DecidableEq

structure State where
  shared : Shared
  locals : Locals
  place : Place
  deriving DecidableEq

/-- What the other parts of the firmware answer the task. -/
structure Input where
  usb_is_powered : Bool
  keychain_loaded : Bool
  acted : Bool
  deriving DecidableEq

/-- What an elapsed idle timeout leads to. -/
def Input.action (input : Input) : ResetAction :=
  if !input.usb_is_powered then .POWER_OFF else if input.keychain_loaded then .REBOOT else .SCREEN_DIMMED

/-- One step of the task. -/
def idletimer_task (input : Input) (s : State) : State :=
  match s.place with
  | .top =>
    if s.shared.idletimer_task_should_run then { s with place := .idleSetting }
    else { s with shared := { s.shared with idletimer_task_running := false }, place := .ended }
  | .idleSetting =>
    { s with locals := { s.locals with timeout_secs := s.shared.idle_timeout }, place := .idleOverride }
  | .idleOverride =>
    { s with place := if s.locals.timeout_secs < s.shared.min_timeout_override_secs then .idleRaise else .activity }
  | .idleRaise =>
    { s with locals := { s.locals with timeout_secs := s.shared.min_timeout_override_secs }, place := .activity }
  | .activity =>
    { s with locals := { s.locals with last_activity := s.shared.last_activity_registered }, place := .tickCount }
  | .tickCount => { s with locals := { s.locals with checktime := s.shared.clock }, place := .elapsed }
  | .elapsed =>
    if s.locals.idle_elapsed then
      { s with
        locals := { s.locals with action := input.action },
        place := if input.action = .SCREEN_DIMMED then .perform else .warning }
    else { s with place := .screenSetting }
  | .warning => { s with place := if input.acted then .top else .reread }
  | .reread =>
    { s with place := if s.locals.checktime < s.shared.last_activity_registered then .top else .stopped }
  | .stopped => { s with place := if s.shared.idletimer_task_should_run then .perform else .top }
  | .perform =>
    if s.locals.action = .SCREEN_DIMMED then
      { s with shared := { s.shared with screen_dimmed := true }, place := .screenSetting }
    else { s with place := .gone }
  | .screenSetting =>
    { s with
      locals := { s.locals with
        screen_timeout_secs := s.shared.screen_timeout,
        screen_timeout_disabled := s.shared.screen_timeout == UINT16_MAX },
      place := .screenOverride }
  | .screenOverride =>
    { s with
      place := if s.locals.screen_timeout_secs < s.shared.min_timeout_override_secs then .screenRaise else .uiActivity }
  | .screenRaise =>
    { s with
      locals := { s.locals with screen_timeout_secs := s.shared.min_timeout_override_secs }, place := .uiActivity }
  | .uiActivity =>
    { s with
      locals := { s.locals with
        projected_ui_timeout_time :=
          s.shared.last_ui_activity_registered + SECS_TO_TICKS s.locals.screen_timeout_secs.toNat },
      place := .uiDim }
  | .uiDim =>
    { s with
      shared := { s.shared with screen_dimmed := s.shared.screen_dimmed || s.locals.screen_elapsed }, place := .choose }
  | .choose =>
    { s with
      locals := { s.locals with remaining := s.locals.delay s.shared.screen_dimmed }, place := .sleeping }
  | .sleeping =>
    { s with place := if s.locals.remaining ≠ 0 ∧ s.shared.idletimer_task_should_run then .poll else .top }
  | .poll => { s with place := if s.shared.idletimer_recheck_requested then .clear else .drowsy }
  | .clear => { s with shared := { s.shared with idletimer_recheck_requested := false }, place := .top }
  | .drowsy => { s with place := .asleep }
  | .asleep =>
    { s with locals := { s.locals with remaining := s.locals.remaining - s.locals.step }, place := .sleeping }
  | .gone | .ended => s

/-- What happens next: a step of the task, or of another thread. -/
inductive Event where
  | task (input : Input)
  /-- time passes -/
  | elapse (ticks : Nat)
  /-- the part of `idletimer_register_activity` that holds the mutex -/
  | register_activity (is_ui : Bool)
  /-- the `set_screen_dimmed(false)` that follows it when the screen is dark -/
  | set_screen_lit
  | idletimer_recheck
  /-- the store of `idletimer_set_min_timeout_secs`, which then asks for a recheck -/
  | set_min_timeout_secs (min_timeout_secs : UInt16)
  | storage_set_idle_timeout (secs : UInt16)
  | storage_set_screen_timeout (secs : UInt16)
  | idletimer_request_stop
  deriving DecidableEq

/-- The shared values after a step of another thread. -/
def Shared.changed (s : Shared) : Event → Shared
  | .task _ => s
  | .elapse ticks => { s with clock := s.clock + ticks }
  | .register_activity is_ui =>
    if s.idletimer_task_running then
      { s with
        last_activity_registered := s.clock,
        last_ui_activity_registered := if is_ui then s.clock else s.last_ui_activity_registered }
    else s
  | .set_screen_lit => { s with screen_dimmed := false }
  | .idletimer_recheck => { s with idletimer_recheck_requested := true }
  | .set_min_timeout_secs min_timeout_secs => { s with min_timeout_override_secs := min_timeout_secs }
  | .storage_set_idle_timeout secs => { s with idle_timeout := secs }
  | .storage_set_screen_timeout secs => { s with screen_timeout := secs }
  | .idletimer_request_stop => { s with idletimer_task_should_run := false }

def State.next (s : State) : Event → State
  | .task input => idletimer_task input s
  | e => { s with shared := s.shared.changed e }

/-- The state in which the task starts. A recheck that an earlier task did not see may still be requested. -/
def idletimer_init (clock : Nat) (idle_timeout screen_timeout : UInt16) (start_dimmed recheck_requested : Bool) : State where
  shared :=
    { clock := clock
      last_activity_registered := 0
      last_ui_activity_registered := 0
      min_timeout_override_secs := 0
      idle_timeout := if idle_timeout = 0 then DEFAULT_IDLE_TIMEOUT_SECS else idle_timeout
      screen_timeout := if screen_timeout = 0 then DEFAULT_SCREEN_TIMEOUT_SECS else screen_timeout
      screen_dimmed := start_dimmed
      idletimer_task_should_run := true
      idletimer_task_running := true
      idletimer_recheck_requested := recheck_requested }
  locals :=
    { timeout_secs := 0
      last_activity := 0
      checktime := 0
      action := .SCREEN_DIMMED
      screen_timeout_secs := 0
      screen_timeout_disabled := false
      projected_ui_timeout_time := 0
      remaining := 0 }
  place := .top

end PiJade.IdleTimer
