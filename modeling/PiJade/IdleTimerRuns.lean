import PiJade.IdleTimer

/-!
What the idle timer does to a device that is in use. An observer of the run notes the activities that are registered,
and what of them a pass of the task can have seen. A pass that misses none of them powers off, restarts and dims only
after the whole timeout, and sleeps past no deadline; a request for a recheck costs at most one slice of sleep.
-/
namespace PiJade.IdleTimer
set_option linter.unusedSimpArgs false

/-! ### The observer -/

structure Registration where
  time : Nat
  is_ui : Bool
  deriving DecidableEq

/-- What became of the screen that a pass dims. -/
inductive Dimming where
  | none
  | dark
  | relit
  deriving DecidableEq

structure Notes where
  /-- all activities so far -/
  registered : List Registration
  /-- those since the pass read the last activity -/
  sinceRead : List Registration
  /-- those between that read and the read of the tick count -/
  missed : List Registration
  /-- those before the read of the tick count -/
  atCheck : List Registration
  /-- those before the pass read the last activity again -/
  atReread : List Registration
  dimming : Dimming
  /-- the slices of sleep since a recheck was requested that no pass has followed -/
  waiting : Option Nat
  deriving DecidableEq

def Notes.registers (n : Notes) (r : Registration) : Notes :=
  { n with registered := r :: n.registered, sinceRead := r :: n.sinceRead }

/-- What the observer notes at a step of the task. -/
def Notes.pass (n : Notes) (s : State) : Notes :=
  match s.place with
  | .top => { n with waiting := .none }
  | .activity => { n with sinceRead := [] }
  | .tickCount => { n with missed := n.sinceRead, atCheck := n.registered, dimming := .none }
  | .reread => { n with atReread := n.registered }
  | .perform => { n with dimming := if s.locals.action = .SCREEN_DIMMED then .dark else n.dimming }
  | .uiDim => { n with dimming := if s.locals.screen_elapsed then .dark else n.dimming }
  | .drowsy => { n with waiting := n.waiting.map (· + 1) }
  | _ => n

def Notes.next (n : Notes) (s : State) : Event → Notes
  | .task _ => n.pass s
  | .register_activity is_ui =>
    if s.shared.idletimer_task_running then n.registers ⟨s.shared.clock, is_ui⟩ else n
  | .set_screen_lit => { n with dimming := if n.dimming = .dark then .relit else n.dimming }
  | .idletimer_recheck => { n with waiting := n.waiting.or (some (if s.place = .asleep then 1 else 0)) }
  | _ => n

/-- A state of the run with the notes of the observer. -/
structure Watched where
  state : State
  notes : Notes
  deriving DecidableEq

def watch : Machine Watched Event Unit where
  step w e := { state := w.state.next e, notes := w.notes.next w.state e }
  out _ _ := .none

/-- A run from the start of the task, when nothing is noted. -/
def unwatched (s : State) : Watched where
  state := s
  notes :=
    { registered := []
      sinceRead := []
      missed := []
      atCheck := []
      atReread := []
      dimming := .none
      waiting := .none }

/-! ### What is to hold at each step -/

/-- The step powers the device off, or restarts it. -/
def Resets (w : Watched) (e : Event) : Prop :=
  w.state.place ≠ .gone ∧ (watch.step w e).state.place = .gone

/-- The step makes a lit screen dark. -/
def Dims (w : Watched) (e : Event) : Prop :=
  w.state.shared.screen_dimmed = false ∧ (watch.step w e).state.shared.screen_dimmed = true

/-- The step ends a pass, with the delay before the next one. -/
def Chooses (w : Watched) (e : Event) : Prop :=
  w.state.place = .choose ∧ (watch.step w e).state.place = .sleeping

/-- Nothing in the notes is newer than a timeout before the tick that the pass read. -/
def Idle (w : Watched) (activities : List Registration) (timeout : Nat) : Prop :=
  ∀ r ∈ activities, r.time + timeout ≤ w.state.locals.checktime

/-- The delay ends no later than a deadline that is still ahead. -/
def EndsBy (w : Watched) (delay deadline : Nat) : Prop :=
  w.state.locals.checktime < deadline → w.state.locals.checktime + delay ≤ deadline

structure Timely (w : Watched) (e : Event) : Prop where
  /-- an enabled idle timeout has passed since every activity up to the second read -/
  reset : Resets w e → w.state.locals.idle_timeout_disabled = false ∧
    Idle w w.notes.atReread w.state.locals.timeout
  /-- an enabled idle timeout has passed since every activity before the tick was read -/
  idle_dim : Dims w e → w.state.place = .perform → w.state.locals.idle_timeout_disabled = false ∧
    Idle w w.notes.atCheck w.state.locals.timeout
  /-- an enabled screen timeout has passed since every press before the tick was read -/
  screen_dim : Dims w e → w.state.place ≠ .perform → w.state.locals.screen_timeout_disabled = false ∧
    Idle w (w.notes.atCheck.filter Registration.is_ui) (SECS_TO_TICKS w.state.locals.screen_timeout_secs.toNat)
  /-- the delay is at most a period, and ends by the deadlines ahead -/
  delay : Chooses w e →
    (watch.step w e).state.locals.remaining ≤ period ∧
    (w.state.locals.idle_timeout_disabled = false →
      EndsBy w (watch.step w e).state.locals.remaining w.state.locals.projected_timeout_time) ∧
    (w.state.shared.screen_dimmed = false → w.state.locals.screen_timeout_disabled = false →
      EndsBy w (watch.step w e).state.locals.remaining w.state.locals.projected_ui_timeout_time)
  /-- no more than one slice of sleep is between a request for a recheck and the next pass -/
  recheck : ∀ slices ∈ (watch.step w e).notes.waiting, slices ≤ 1

/-! ### The steps that miss no activity -/

/-- The task, where it relies on what it read before, has missed no activity. -/
structure Sees (w : Watched) : Prop where
  /-- the activities since the first read are later than the tick that the pass read -/
  reread : w.state.place = .reread → ∀ r ∈ w.notes.sinceRead, w.state.locals.checktime < r.time
  /-- when the idle timeout is to dim a lit screen, nothing was registered between the first read and the tick -/
  perform : w.state.place = .perform → w.state.locals.action = .SCREEN_DIMMED →
    w.state.shared.screen_dimmed = false → w.notes.missed = []
  /-- with the idle timeout disabled, and its projected time past, nothing was pressed since the first read -/
  uiActivity : w.state.place = .uiActivity → w.state.locals.idle_timeout_disabled = true →
    w.state.locals.projected_timeout_time ≤ w.state.locals.checktime →
    w.state.locals.screen_timeout_disabled = false → ∀ r ∈ w.notes.sinceRead, r.is_ui = false
  /-- with both timeouts enabled, nothing has lit the screen that the pass dimmed -/
  choose : w.state.place = .choose → w.state.locals.idle_timeout_disabled = false →
    w.state.locals.screen_timeout_disabled = false → w.notes.dimming ≠ .relit

/-- Where the task relies on what it read before. -/
def Place.relies : Place → Bool
  | .reread | .perform | .uiActivity | .choose => true
  | _ => false

theorem sees_elsewhere {w : Watched} (elsewhere : w.state.place.relies = false) : Sees w :=
  ⟨fun here => by simp [here, Place.relies] at elsewhere, fun here => by simp [here, Place.relies] at elsewhere,
    fun here => by simp [here, Place.relies] at elsewhere, fun here => by simp [here, Place.relies] at elsewhere⟩

/-- Only the steps of the task can miss an activity. -/
def Unmissed (w : Watched) : Event → Prop
  | .task _ => Sees w
  | _ => True

/-! ### What the task has read -/

/-- The notes and the reads of the task agree. -/
structure Reads (w : Watched) : Prop where
  ui_le : w.state.shared.last_ui_activity_registered ≤ w.state.shared.last_activity_registered
  le_clock : w.state.shared.last_activity_registered ≤ w.state.shared.clock
  time_le : ∀ r ∈ w.notes.registered, r.time ≤ w.state.shared.last_activity_registered
  ui_time_le : ∀ r ∈ w.notes.registered, r.is_ui = true → r.time ≤ w.state.shared.last_ui_activity_registered
  since : ∀ r ∈ w.notes.sinceRead, r ∈ w.notes.registered
  at_check : ∀ r ∈ w.notes.atCheck, r ∈ w.notes.registered
  old : ∀ r ∈ w.notes.registered, r ∈ w.notes.sinceRead ∨ r.time ≤ w.state.locals.last_activity
  ui_old : (∃ r ∈ w.notes.sinceRead, r.is_ui = true) ∨
    w.state.shared.last_ui_activity_registered ≤ w.state.locals.last_activity
  checked : ∀ r ∈ w.notes.atCheck, r ∈ w.notes.missed ∨ r.time ≤ w.state.locals.last_activity

theorem reads_task {w : Watched} (reads : Reads w) (input : Input) : Reads (watch.step w (.task input)) := by
  obtain ⟨ui_le, le_clock, time_le, ui_time_le, since, at_check, old, ui_old, checked⟩ := reads
  obtain ⟨⟨shared, locals, place⟩, notes⟩ := w
  cases place with
  | activity =>
    exact ⟨ui_le, le_clock, time_le, ui_time_le, nofun, at_check, fun r mem => .inr (time_le r mem), .inr ui_le,
      fun r mem => .inr (time_le r (at_check r mem))⟩
  | tickCount => exact ⟨ui_le, le_clock, time_le, ui_time_le, since, fun _ mem => mem, old, ui_old, old⟩
  | top | elapsed | perform =>
    simp only [watch, State.next, idletimer_task]
    split <;> exact ⟨ui_le, le_clock, time_le, ui_time_le, since, at_check, old, ui_old, checked⟩
  | _ => exact ⟨ui_le, le_clock, time_le, ui_time_le, since, at_check, old, ui_old, checked⟩

theorem reads_register {w : Watched} (reads : Reads w) (is_ui : Bool) :
    Reads (watch.step w (.register_activity is_ui)) := by
  obtain ⟨ui_le, le_clock, time_le, ui_time_le, since, at_check, old, ui_old, checked⟩ := reads
  cases running : w.state.shared.idletimer_task_running with
  | false =>
    simp only [watch, State.next, Shared.changed, Notes.next, running, Bool.false_eq_true, if_false]
    exact ⟨ui_le, le_clock, time_le, ui_time_le, since, at_check, old, ui_old, checked⟩
  | true =>
    simp only [watch, State.next, Shared.changed, Notes.next, running, if_true, Notes.registers]
    refine ⟨?_, Nat.le_refl _, ?_, ?_, ?_, fun r mem => List.mem_cons_of_mem _ (at_check r mem), ?_, ?_, checked⟩
    · cases is_ui with
      | true => exact Nat.le_refl _
      | false => exact Nat.le_trans ui_le le_clock
    · rintro r (_ | ⟨_, mem⟩)
      · exact Nat.le_refl _
      · exact Nat.le_trans (time_le r mem) le_clock
    · rintro r (_ | ⟨_, mem⟩) pressed
      · exact Nat.le_of_eq (if_pos pressed).symm
      · cases is_ui with
        | true => exact Nat.le_trans (time_le r mem) le_clock
        | false => exact ui_time_le r mem pressed
    · rintro r (_ | ⟨_, mem⟩)
      · exact List.mem_cons_self
      · exact List.mem_cons_of_mem _ (since r mem)
    · rintro r (_ | ⟨_, mem⟩)
      · exact .inl List.mem_cons_self
      · exact (old r mem).imp_left (List.mem_cons_of_mem _)
    · cases is_ui with
      | true => exact .inl ⟨_, List.mem_cons_self, rfl⟩
      | false =>
        refine ui_old.imp_left fun pressed => ?_
        obtain ⟨r, mem, is_press⟩ := pressed
        exact ⟨r, List.mem_cons_of_mem _ mem, is_press⟩

theorem reads_next {w : Watched} (reads : Reads w) (e : Event) : Reads (watch.step w e) := by
  obtain ⟨ui_le, le_clock, time_le, ui_time_le, since, at_check, old, ui_old, checked⟩ := reads
  cases e with
  | task input => exact reads_task ⟨ui_le, le_clock, time_le, ui_time_le, since, at_check, old, ui_old, checked⟩ input
  | register_activity is_ui =>
    exact reads_register ⟨ui_le, le_clock, time_le, ui_time_le, since, at_check, old, ui_old, checked⟩ is_ui
  | elapse ticks =>
    exact ⟨ui_le, Nat.le_add_right_of_le le_clock, time_le, ui_time_le, since, at_check, old, ui_old, checked⟩
  | _ => exact ⟨ui_le, le_clock, time_le, ui_time_le, since, at_check, old, ui_old, checked⟩

/-! ### Why the task acts -/

theorem idle_elapsed_iff {l : Locals} :
    l.idle_elapsed = true ↔ l.idle_timeout_disabled = false ∧ l.projected_timeout_time ≤ l.checktime := by
  rw [Locals.idle_elapsed, Bool.and_eq_true, Bool.not_eq_true', decide_eq_true_iff]

theorem screen_elapsed_iff {l : Locals} :
    l.screen_elapsed = true ↔ l.screen_timeout_disabled = false ∧ l.projected_ui_timeout_time ≤ l.checktime := by
  rw [Locals.screen_elapsed, Bool.and_eq_true, Bool.not_eq_true', decide_eq_true_iff]

def Place.warns : Place → Bool
  | .warning | .reread | .stopped => true
  | _ => false

def Place.afterIdle : Place → Bool
  | .screenSetting | .screenOverride | .screenRaise | .uiActivity | .uiDim | .choose => true
  | _ => false

def Place.afterUi : Place → Bool
  | .uiDim | .choose => true
  | _ => false

/-- What the place of the task says of what it has read and done. -/
structure Grounds (w : Watched) : Prop where
  elapsed : w.state.place.warns ∨ w.state.place = .perform → w.state.locals.idle_elapsed = true
  action : w.state.place.warns → w.state.locals.action ≠ .SCREEN_DIMMED
  quiet : w.state.place = .stopped ∨ w.state.place = .perform ∧ w.state.locals.action ≠ .SCREEN_DIMMED →
    ∀ r ∈ w.notes.atReread, r.time ≤ w.state.locals.last_activity
  dark : w.notes.dimming = .dark → w.state.shared.screen_dimmed = true
  idle_dimmed : w.state.place.afterIdle → w.state.locals.idle_elapsed = true → w.notes.dimming ≠ .none
  screen_dimmed : w.state.place = .choose → w.state.locals.screen_elapsed = true → w.notes.dimming ≠ .none
  ui_timeout : w.state.place.afterUi → ∀ r ∈ w.notes.atCheck, r.is_ui = true →
    r.time + SECS_TO_TICKS w.state.locals.screen_timeout_secs.toNat ≤ w.state.locals.projected_ui_timeout_time
  ui_first : w.state.place.afterUi → w.state.locals.idle_timeout_disabled = true →
    w.state.locals.projected_timeout_time ≤ w.state.locals.checktime → w.state.locals.screen_timeout_disabled = false →
    w.state.locals.projected_ui_timeout_time ≤ w.state.locals.checktime

/-- With the idle timeout disabled, what the screen timeout can be projected to. -/
theorem ui_le_projected {l : Locals} (disabled : l.idle_timeout_disabled = true) {ui : Nat} (old : ui ≤ l.last_activity)
    (secs : UInt16) : ui + SECS_TO_TICKS secs.toNat ≤ l.projected_timeout_time := by
  have most : l.timeout_secs = UINT16_MAX := by simpa [Locals.idle_timeout_disabled] using disabled
  have bound : secs.toNat < 65536 := secs.toNat_lt
  have timeout : l.timeout = 65535000 := by rw [Locals.timeout, most]; rfl
  rw [Locals.projected_timeout_time, timeout, SECS_TO_TICKS, portTICK_PERIOD_MS]
  omega

theorem grounds_task {w : Watched} (reads : Reads w) (grounds : Grounds w) (input : Input) (sees : Sees w) :
    Grounds (watch.step w (.task input)) := by
  obtain ⟨elapsed, action, quiet, dark, idle_dimmed, screen_dimmed, ui_timeout, ui_first⟩ := grounds
  obtain ⟨⟨shared, locals, place⟩, notes⟩ := w
  cases place with
  | tickCount => exact ⟨by nofun, nofun, nofun, nofun, nofun, nofun, nofun, nofun⟩
  | elapsed =>
    simp only [watch, State.next, idletimer_task]
    split
    next is_elapsed =>
      split
      next dims => exact ⟨fun _ => is_elapsed, nofun, by simp [dims], dark, nofun, nofun, nofun, nofun⟩
      next resets => exact ⟨fun _ => is_elapsed, fun _ => resets, nofun, dark, nofun, nofun, nofun, nofun⟩
    next not_elapsed => exact ⟨by nofun, nofun, nofun, dark, fun _ is_elapsed => absurd is_elapsed not_elapsed, nofun,
        nofun, nofun⟩
  | warning =>
    simp only [watch, State.next, idletimer_task]
    split
    · exact ⟨by nofun, nofun, nofun, dark, nofun, nofun, nofun, nofun⟩
    · exact ⟨fun _ => elapsed (.inl rfl), fun _ => action rfl, nofun, dark, nofun, nofun, nofun, nofun⟩
  | reread =>
    simp only [watch, State.next, idletimer_task]
    split
    · exact ⟨by nofun, nofun, nofun, dark, nofun, nofun, nofun, nofun⟩
    next still =>
      -- an activity that the first read did not see would be later than the tick, and the second read sees it
      refine ⟨fun _ => elapsed (.inl rfl), fun _ => action rfl, fun _ r mem => ?_, dark, nofun, nofun, nofun, nofun⟩
      refine (reads.old r mem).resolve_left fun since => still ?_
      exact Nat.lt_of_lt_of_le (sees.reread rfl r since) (reads.time_le r mem)
  | stopped =>
    simp only [watch, State.next, idletimer_task]
    split
    · exact ⟨fun _ => elapsed (.inl rfl), nofun, fun _ => quiet (.inl rfl), dark, nofun, nofun, nofun, nofun⟩
    · exact ⟨by nofun, nofun, nofun, dark, nofun, nofun, nofun, nofun⟩
  | perform =>
    simp only [watch, State.next, idletimer_task, Notes.next, Notes.pass]
    split
    · exact ⟨by nofun, nofun, nofun, fun _ => rfl, fun _ _ => nofun, nofun, nofun, nofun⟩
    · exact ⟨by nofun, nofun, nofun, dark, nofun, nofun, nofun, nofun⟩
  | screenSetting | screenRaise => exact ⟨by nofun, nofun, nofun, dark, fun _ => idle_dimmed rfl, nofun, nofun, nofun⟩
  | screenOverride =>
    simp only [watch, State.next, idletimer_task]
    split <;> exact ⟨by nofun, nofun, nofun, dark, fun _ => idle_dimmed rfl, nofun, nofun, nofun⟩
  | uiActivity =>
    refine ⟨by nofun, nofun, nofun, dark, fun _ => idle_dimmed rfl, nofun, fun _ r mem pressed => ?_,
      fun _ disabled past enabled => ?_⟩
    · exact Nat.add_le_add_right (reads.ui_time_le r (reads.at_check r mem) pressed) _
    · have old := reads.ui_old.resolve_left fun pressed => by
        obtain ⟨r, mem, is_press⟩ := pressed
        rw [sees.uiActivity rfl disabled past enabled r mem] at is_press
        cases is_press
      exact Nat.le_trans (ui_le_projected disabled old _) past
  | uiDim =>
    simp only [watch, State.next, idletimer_task, Notes.next, Notes.pass]
    split
    next is_elapsed =>
      exact ⟨by nofun, nofun, nofun, fun _ => Bool.or_eq_true_iff.mpr (.inr is_elapsed), fun _ _ => nofun, fun _ _ => nofun, ui_timeout, ui_first⟩
    next not_elapsed =>
      exact ⟨by nofun, nofun, nofun, fun is_dark => Bool.or_eq_true_iff.mpr (.inl (dark is_dark)), fun _ => idle_dimmed rfl,
        fun _ is_elapsed => absurd is_elapsed not_elapsed, ui_timeout, ui_first⟩
  | top =>
    simp only [watch, State.next, idletimer_task]
    split <;> exact ⟨by nofun, nofun, nofun, dark, nofun, nofun, nofun, nofun⟩
  | idleOverride | sleeping | poll =>
    simp only [watch, State.next, idletimer_task]
    split <;> exact ⟨by nofun, nofun, nofun, dark, nofun, nofun, nofun, nofun⟩
  | _ => exact ⟨by nofun, nofun, nofun, dark, nofun, nofun, nofun, nofun⟩

/-- What the observer notes of the screen and of the reads is left alone by a registration. -/
theorem registers_kept (w : Watched) (is_ui : Bool) :
    (watch.step w (.register_activity is_ui)).notes.atCheck = w.notes.atCheck ∧
    (watch.step w (.register_activity is_ui)).notes.atReread = w.notes.atReread ∧
    (watch.step w (.register_activity is_ui)).notes.dimming = w.notes.dimming ∧
    (watch.step w (.register_activity is_ui)).notes.waiting = w.notes.waiting ∧
    (watch.step w (.register_activity is_ui)).state.shared.screen_dimmed = w.state.shared.screen_dimmed ∧
    (watch.step w (.register_activity is_ui)).state.shared.idletimer_recheck_requested =
      w.state.shared.idletimer_recheck_requested := by
  simp only [watch, State.next, Shared.changed, Notes.next]
  split <;> exact ⟨rfl, rfl, rfl, rfl, rfl, rfl⟩

theorem grounds_next {w : Watched} (reads : Reads w) (grounds : Grounds w) (e : Event) (unmissed : Unmissed w e) :
    Grounds (watch.step w e) := by
  cases e with
  | task input => exact grounds_task reads grounds input unmissed
  | register_activity is_ui =>
    obtain ⟨elapsed, action, quiet, dark, idle_dimmed, screen_dimmed, ui_timeout, ui_first⟩ := grounds
    obtain ⟨check, reread, dimming, -, screen, -⟩ := registers_kept w is_ui
    refine ⟨elapsed, action, fun here => ?_, fun is_dark => ?_, fun here past => ?_, fun here past => ?_, fun here => ?_,
      ui_first⟩
    · rw [reread]
      exact quiet here
    · rw [screen]
      exact dark (dimming.symm.trans is_dark)
    · rw [dimming]
      exact idle_dimmed here past
    · rw [dimming]
      exact screen_dimmed here past
    · rw [check]
      exact ui_timeout here
  | set_screen_lit =>
    obtain ⟨elapsed, action, quiet, dark, idle_dimmed, screen_dimmed, ui_timeout, ui_first⟩ := grounds
    simp only [watch, State.next, Shared.changed, Notes.next]
    split
    · exact ⟨elapsed, action, quiet, nofun, fun _ _ => nofun, fun _ _ => nofun, ui_timeout, ui_first⟩
    next not_dark =>
      exact ⟨elapsed, action, quiet, fun is_dark => absurd is_dark not_dark, idle_dimmed, screen_dimmed, ui_timeout, ui_first⟩
  | _ =>
    obtain ⟨elapsed, action, quiet, dark, idle_dimmed, screen_dimmed, ui_timeout, ui_first⟩ := grounds
    exact ⟨elapsed, action, quiet, dark, idle_dimmed, screen_dimmed, ui_timeout, ui_first⟩

/-! ### Requests for a recheck -/

/-- What the place of the task says of a request that is waiting. -/
structure Waits (w : Watched) : Prop where
  at_most_one : ∀ slices ∈ w.notes.waiting, slices ≤ 1
  fresh : w.state.place = .drowsy → ∀ slices ∈ w.notes.waiting, slices = 0
  requested : w.notes.waiting ≠ none → w.state.shared.idletimer_recheck_requested = true ∨ w.state.place = .top

theorem waits_task {w : Watched} (waits : Waits w) (input : Input) : Waits (watch.step w (.task input)) := by
  obtain ⟨at_most_one, fresh, requested⟩ := waits
  obtain ⟨⟨shared, locals, place⟩, notes⟩ := w
  cases place with
  | top => exact ⟨nofun, fun _ => nofun, fun waiting => absurd rfl waiting⟩
  | poll =>
    simp only [watch, State.next, idletimer_task]
    split
    next flag => exact ⟨at_most_one, nofun, fun _ => .inl flag⟩
    next no_flag =>
      have nobody : notes.waiting = none := by
        by_contra waiting
        exact (requested waiting).elim no_flag nofun
      refine ⟨at_most_one, fun _ slices mem => ?_, fun waiting => absurd nobody waiting⟩
      rw [show (notes.next _ (.task input)).waiting = notes.waiting from rfl, nobody] at mem
      cases mem
  | clear => exact ⟨at_most_one, nofun, fun _ => .inr rfl⟩
  | drowsy =>
    refine ⟨fun slices mem => ?_, nofun, fun waiting => .inl ((requested fun nobody => waiting ?_).resolve_right nofun)⟩
    · obtain ⟨before, was, rfl⟩ := Option.map_eq_some_iff.mp mem
      obtain rfl := fresh rfl before was
      exact Nat.le_refl 1
    · exact congrArg (Option.map (· + 1)) nobody
  | elapsed =>
    simp only [watch, State.next, idletimer_task]
    split
    · split <;> exact ⟨at_most_one, nofun, fun waiting => .inl ((requested waiting).resolve_right nofun)⟩
    · exact ⟨at_most_one, nofun, fun waiting => .inl ((requested waiting).resolve_right nofun)⟩
  | idleOverride | warning | reread | stopped | perform | screenOverride | sleeping =>
    simp only [watch, State.next, idletimer_task]
    split <;> exact ⟨at_most_one, nofun, fun waiting => .inl ((requested waiting).resolve_right nofun)⟩
  | _ => exact ⟨at_most_one, nofun, fun waiting => .inl ((requested waiting).resolve_right nofun)⟩

theorem waits_next {w : Watched} (waits : Waits w) (e : Event) : Waits (watch.step w e) := by
  cases e with
  | task input => exact waits_task waits input
  | register_activity is_ui =>
    obtain ⟨at_most_one, fresh, requested⟩ := waits
    obtain ⟨-, -, -, waiting, -, recheck⟩ := registers_kept w is_ui
    rw [← waiting] at at_most_one fresh requested
    rw [← recheck] at requested
    exact ⟨at_most_one, fresh, requested⟩
  | idletimer_recheck =>
    obtain ⟨at_most_one, fresh, requested⟩ := waits
    refine ⟨fun slices mem => ?_, fun here slices mem => ?_, fun _ => .inl rfl⟩
    · rcases Option.or_eq_some_iff.mp mem with was | ⟨-, new⟩
      · exact at_most_one slices was
      · cases new
        split <;> decide
    · rcases Option.or_eq_some_iff.mp mem with was | ⟨-, new⟩
      · exact fresh here slices was
      · cases new
        exact if_neg (by rw [show w.state.place = .drowsy from here]; nofun)
  | _ =>
    obtain ⟨at_most_one, fresh, requested⟩ := waits
    exact ⟨at_most_one, fresh, requested⟩

/-! ### Every run -/

theorem resets_at {w : Watched} {e : Event} (resets : Resets w e) :
    w.state.place = .perform ∧ w.state.locals.action ≠ .SCREEN_DIMMED := by
  obtain ⟨before, after⟩ := resets
  obtain ⟨⟨shared, locals, place⟩, notes⟩ := w
  cases e with
  | task input =>
    cases place with
    | perform =>
      refine ⟨rfl, fun dims => ?_⟩
      simp only [watch, State.next, idletimer_task] at after
      rw [if_pos dims] at after
      cases after
    | gone => exact absurd rfl before
    | elapsed =>
      simp only [watch, State.next, idletimer_task] at after
      split at after
      · split at after <;> cases after
      · cases after
    | top | idleOverride | warning | reread | stopped | screenOverride | sleeping | poll =>
      simp only [watch, State.next, idletimer_task] at after
      split at after <;> cases after
    | _ => cases after
  | _ => exact absurd after before

theorem dims_at {w : Watched} {e : Event} (dims : Dims w e) :
    (w.state.place = .perform ∧ w.state.locals.action = .SCREEN_DIMMED ∨
      w.state.place = .uiDim ∧ w.state.locals.screen_elapsed = true) ∧ ∃ input, e = .task input := by
  obtain ⟨lit, dark⟩ := dims
  obtain ⟨⟨shared, locals, place⟩, notes⟩ := w
  have not_lit : ¬ shared.screen_dimmed = true := fun still => absurd (lit.symm.trans still) nofun
  cases e with
  | task input =>
    refine ⟨?_, input, rfl⟩
    cases place with
    | perform =>
      simp only [watch, State.next, idletimer_task] at dark
      split at dark
      next dims => exact .inl ⟨rfl, dims⟩
      next => exact absurd dark not_lit
    | uiDim => exact .inr ⟨rfl, (Bool.or_eq_true_iff.mp dark).resolve_left not_lit⟩
    | top | elapsed =>
      simp only [watch, State.next, idletimer_task] at dark
      split at dark <;> exact absurd dark not_lit
    | _ => exact absurd dark not_lit
  | register_activity is_ui =>
    obtain ⟨-, -, -, -, screen, -⟩ := registers_kept ⟨⟨shared, locals, place⟩, notes⟩ is_ui
    exact absurd (screen.symm.trans dark) not_lit
  | set_screen_lit => cases dark
  | _ => exact absurd dark not_lit

theorem chooses_at {w : Watched} {e : Event} (chooses : Chooses w e) :
    w.state.place = .choose ∧ (∃ input, e = .task input) ∧
    (watch.step w e).state.locals.remaining = w.state.locals.delay w.state.shared.screen_dimmed := by
  obtain ⟨before, after⟩ := chooses
  obtain ⟨⟨shared, locals, place⟩, notes⟩ := w
  cases before
  cases e with
  | task input => exact ⟨rfl, ⟨input, rfl⟩, rfl⟩
  | _ => cases after

/-- When the task is to sleep until the earlier of the two projected times. -/
theorem delay_of {l : Locals} {screen_dimmed : Bool}
    (screen_first : screen_dimmed = false → l.screen_timeout_disabled = false → l.idle_timeout_disabled = false →
      l.checktime < l.projected_ui_timeout_time)
    (idle_first : screen_dimmed = false → l.screen_timeout_disabled = false → l.checktime < l.projected_ui_timeout_time →
      l.checktime < l.projected_timeout_time) :
    l.delay screen_dimmed ≤ period ∧
    (l.idle_timeout_disabled = false → l.checktime < l.projected_timeout_time →
      l.checktime + l.delay screen_dimmed ≤ l.projected_timeout_time) ∧
    (screen_dimmed = false → l.screen_timeout_disabled = false → l.checktime < l.projected_ui_timeout_time →
      l.checktime + l.delay screen_dimmed ≤ l.projected_ui_timeout_time) := by
  have soon : ∀ {next : Nat}, (if l.checktime < next ∧ next < l.checktime + period then next - l.checktime else period) ≤
      period ∧ (l.checktime < next → l.checktime + (if l.checktime < next ∧ next < l.checktime + period then
        next - l.checktime else period) ≤ next) := by
    intro next
    split <;> omega
  rw [Locals.delay]
  by_cases screen : (!screen_dimmed && !l.screen_timeout_disabled &&
    decide (l.projected_ui_timeout_time < l.projected_timeout_time)) = true
  · rw [if_pos screen]
    simp only [Bool.and_eq_true, Bool.not_eq_true', decide_eq_true_eq] at screen
    obtain ⟨⟨lit, enabled⟩, earlier⟩ := screen
    refine ⟨soon.1, fun idle_enabled _ => ?_, fun _ _ => soon.2⟩
    exact Nat.le_trans (soon.2 (screen_first lit enabled idle_enabled)) (Nat.le_of_lt earlier)
  · rw [if_neg screen]
    refine ⟨soon.1, fun _ => soon.2, fun lit enabled ahead => ?_⟩
    have later : l.projected_timeout_time ≤ l.projected_ui_timeout_time := by simpa [lit, enabled] using screen
    exact Nat.le_trans (soon.2 (idle_first lit enabled ahead)) later

theorem timely_of {w : Watched} {e : Event} (reads : Reads w) (grounds : Grounds w) (waits : Waits w)
    (unmissed : Unmissed w e) : Timely w e where
  reset resets := by
    obtain ⟨here, action⟩ := resets_at resets
    obtain ⟨enabled, past⟩ := idle_elapsed_iff.mp (grounds.elapsed (.inr here))
    exact ⟨enabled, fun r mem => Nat.le_trans (Nat.add_le_add_right (grounds.quiet (.inr ⟨here, action⟩) r mem) _) past⟩
  idle_dim dims here := by
    obtain ⟨at_place, input, rfl⟩ := dims_at dims
    have action : w.state.locals.action = .SCREEN_DIMMED := by
      rcases at_place with ⟨-, action⟩ | ⟨elsewhere, -⟩
      · exact action
      · cases here.symm.trans elsewhere
    obtain ⟨enabled, past⟩ := idle_elapsed_iff.mp (grounds.elapsed (.inr here))
    refine ⟨enabled, fun r mem => Nat.le_trans (Nat.add_le_add_right ?_ _) past⟩
    refine (reads.checked r mem).resolve_left fun missed => ?_
    rw [Sees.perform unmissed here action dims.1] at missed
    cases missed
  screen_dim dims elsewhere := by
    obtain ⟨⟨here, -⟩ | ⟨here, elapsed⟩, -⟩ := dims_at dims
    · exact absurd here elsewhere
    · obtain ⟨enabled, past⟩ := screen_elapsed_iff.mp elapsed
      refine ⟨enabled, fun r mem => ?_⟩
      obtain ⟨mem, pressed⟩ := List.mem_filter.mp mem
      exact Nat.le_trans (grounds.ui_timeout (by rw [here]; rfl) r mem pressed) past
  delay chooses := by
    obtain ⟨here, ⟨input, rfl⟩, remaining⟩ := chooses_at chooses
    rw [remaining]
    -- a pass in which a timeout has elapsed leaves the screen dark, and nothing has lit it since
    have dark : w.state.locals.idle_timeout_disabled = false → w.state.locals.screen_timeout_disabled = false →
        w.notes.dimming ≠ .none → w.state.shared.screen_dimmed = true := by
      intro idle_enabled enabled dimmed
      have not_relit := Sees.choose unmissed here idle_enabled enabled
      cases dimming : w.notes.dimming with
      | none => exact absurd dimming dimmed
      | dark => exact grounds.dark dimming
      | relit => exact absurd dimming not_relit
    refine delay_of (fun lit enabled idle_enabled => ?_) (fun lit enabled ahead => ?_)
    · by_contra past
      have elapsed := screen_elapsed_iff.mpr ⟨enabled, Nat.not_lt.mp past⟩
      exact absurd (lit.symm.trans (dark idle_enabled enabled (grounds.screen_dimmed here elapsed))) nofun
    · by_contra past
      cases idle_enabled : w.state.locals.idle_timeout_disabled with
      | false =>
        have elapsed := idle_elapsed_iff.mpr ⟨idle_enabled, Nat.not_lt.mp past⟩
        have dimmed := grounds.idle_dimmed (by rw [here]; rfl) elapsed
        exact absurd (lit.symm.trans (dark idle_enabled enabled dimmed)) nofun
      | true =>
        have first := grounds.ui_first (by rw [here]; rfl) idle_enabled (Nat.not_lt.mp past) enabled
        exact absurd ahead (Nat.not_lt.mpr first)
  recheck := (waits_next waits e).at_most_one

/-- What every state of such a run keeps. -/
structure Kept (w : Watched) : Prop where
  reads : Reads w
  grounds : Grounds w
  waits : Waits w

theorem kept_init (clock : Nat) (idle_timeout screen_timeout : UInt16) (start_dimmed recheck_requested : Bool) :
    Kept (unwatched (idletimer_init clock idle_timeout screen_timeout start_dimmed recheck_requested)) where
  reads := ⟨Nat.le_refl 0, Nat.zero_le _, nofun, nofun, nofun, nofun, nofun, .inr (Nat.le_refl 0), nofun⟩
  grounds := ⟨by nofun, nofun, nofun, nofun, nofun, nofun, nofun, nofun⟩
  waits := ⟨nofun, nofun, fun waiting => absurd rfl waiting⟩

theorem kept_next {w : Watched} (kept : Kept w) (e : Event) (unmissed : Unmissed w e) : Kept (watch.step w e) where
  reads := reads_next kept.reads e
  grounds := grounds_next kept.reads kept.grounds e unmissed
  waits := waits_next kept.waits e

/-- Idle actions come only after real idleness, and never late, in a run in which the task misses no activity. -/
theorem idle_actions_timely (clock : Nat) (idle_timeout screen_timeout : UInt16) (start_dimmed recheck_requested : Bool)
    (events : List Event) (e : Event)
    (unmissed : watch.Along Unmissed
      (unwatched (idletimer_init clock idle_timeout screen_timeout start_dimmed recheck_requested)) (events ++ [e])) :
    Timely
      (watch.final (unwatched (idletimer_init clock idle_timeout screen_timeout start_dimmed recheck_requested)) events)
      e := by
  obtain ⟨before, last, -⟩ := (watch.along_append Unmissed _ events [e]).mp unmissed
  have keeps : ∀ w e, Kept w → Unmissed w e → Kept (watch.step w e) := fun w e kept unmissed => kept_next kept e unmissed
  have kept := watch.final_invariant keeps
    (kept_init clock idle_timeout screen_timeout start_dimmed recheck_requested) before
  exact timely_of kept.reads kept.grounds kept.waits last

/-- Nobody is at the device, and it runs on its battery. -/
def away : Input := { usb_is_powered := false, keychain_loaded := true, acted := false }

/-- Ten minutes pass after a message, and the task makes its way to the power-off. -/
def abandoned : List Event :=
  [.elapse 20, .register_activity false, .elapse 600000] ++ List.replicate 9 (.task away)

theorem idle_actions_timely_abandoned :
    Resets (watch.final (unwatched (idletimer_init 0 600 60 false false)) abandoned) (.task away) ∧
    Timely (watch.final (unwatched (idletimer_init 0 600 60 false false)) abandoned) (.task away) := by
  refine ⟨⟨by decide, by decide⟩, idle_actions_timely 0 600 60 false false abandoned (.task away) ?_⟩
  have reread : ∀ {w : Watched}, w.state.place = .reread → w.notes.sinceRead = [] → Sees w := fun here none =>
    ⟨by simp [none], by simp [here], by simp [here], by simp [here]⟩
  have perform : ∀ {w : Watched}, w.state.place = .perform → w.state.locals.action = .POWER_OFF → Sees w :=
    fun here off => ⟨by simp [here], by simp [off], by simp [here], by simp [here]⟩
  exact ⟨trivial, trivial, trivial, sees_elsewhere rfl, sees_elsewhere rfl, sees_elsewhere rfl, sees_elsewhere rfl,
    sees_elsewhere rfl, sees_elsewhere rfl, sees_elsewhere rfl, reread rfl rfl, sees_elsewhere rfl, perform rfl rfl, trivial⟩

/-- The press is registered after the first read of the last activity, at the tick that is read next. -/
def pressed : List Event :=
  [.elapse 600000] ++ List.replicate 4 (.task away) ++ [.register_activity true] ++ List.replicate 5 (.task away)

/-- The device is powered off although a button was pressed at the very tick the pass has read. -/
theorem press_at_the_tick_missed :
    ¬ ∀ (clock : Nat) (idle_timeout screen_timeout : UInt16) (start_dimmed recheck_requested : Bool)
      (events : List Event) (e : Event),
      Timely
        (watch.final (unwatched (idletimer_init clock idle_timeout screen_timeout start_dimmed recheck_requested)) events)
        e := by
  intro timely
  have reset := (timely 0 600 60 false false pressed (.task away)).reset ⟨by decide, by decide⟩
  exact absurd (reset.2 ⟨600000, true⟩ (by decide)) (by decide)

end PiJade.IdleTimer
