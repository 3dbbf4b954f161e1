import Mathlib.Algebra.Group.Nat.Defs
import PiJade.ButtonsGpio

/-!
Key repeat over a whole run of `buttons_wait`. An observer notes the edges that are read, the edge that made a line
the owner of the repeat, and the repeats. The pressed directions are those whose last edge is a press, the owner is
one of them, and nothing but a press and the repeat of the owner is ever returned.
-/
namespace PiJade.ButtonsGpio
set_option linter.unusedSimpArgs false
open ButtonEvent

/-! ### The observer -/

/-- The edge that a call reads. -/
def edge_read (buttons : Buttons) (call : Call) : Option LineEvent :=
  match polled buttons call with
  | some (.ready false true) =>
    match call.got with
    | .event event => if event.id = .other then none else some event
    | _ => none
  | _ => none

/-- The line of an edge is released. -/
def LineEvent.releases (event : LineEvent) (pin : Nat) : Prop := event.id = .RISING_EDGE ∧ event.offset = pin

/-- The line of an edge is pressed. -/
def LineEvent.presses (event : LineEvent) (i : Index) : Prop :=
  event.id = .FALLING_EDGE ∧ event.offset = (LINES.get i).pin

structure Notes where
  /-- the edges so far, the last one first -/
  edges : List LineEvent
  /-- when the owner was made the owner -/
  owned_since : Nat
  /-- the repeats since then -/
  owned_repeats : List Nat
  /-- all repeats -/
  repeats : List Nat

structure Watched where
  buttons : Buttons
  notes : Notes

/-- The last edge that was read of a line is a press. -/
def Notes.Down (notes : Notes) (i : Index) : Prop :=
  (notes.edges.find? fun event => event.offset = (LINES.get i).pin).map LineEvent.id = some .FALLING_EDGE

/-- What is noted of an edge that leaves the buttons in a state. -/
def Notes.edge (notes : Notes) (before after : Buttons) (event : LineEvent) : Notes :=
  if before.held_pin = after.held_pin ∧ before.held_event = after.held_event then
    { notes with edges := event :: notes.edges }
  else { notes with edges := event :: notes.edges, owned_since := event.timestamp_ns, owned_repeats := [] }

/-- What is noted of a call that reads no edge. -/
def Notes.noEdge (notes : Notes) (result : Result) : Notes :=
  if result.event = BUTTON_NONE ∨ result.event = BUTTON_ERROR then notes
  else { notes with owned_repeats := result.timestamp_ns :: notes.owned_repeats, repeats := result.timestamp_ns :: notes.repeats }

def watch : Machine Watched Call Result where
  step w call :=
    let result := buttons_wait w.buttons call
    { buttons := result.buttons
      notes :=
        match edge_read w.buttons call with
        | some event => w.notes.edge w.buttons result.buttons event
        | none => w.notes.noEdge result }
  out w call := some (buttons_wait w.buttons call)

/-- The run starts when the lines are claimed. -/
def opened : Watched where
  buttons := buttons_open
  notes :=
    { edges := []
      owned_since := 0
      owned_repeats := []
      repeats := [] }

/-- The times of the run never go back: an edge that is read is no older than the repeats before it. -/
def Monotonic (w : Watched) (call : Call) : Prop :=
  ∀ event, edge_read w.buttons call = some event → ∀ time ∈ w.notes.repeats, time ≤ event.timestamp_ns

/-- The call neither releases the owner nor presses a key. -/
def LeavesOwner (w : Watched) (call : Call) : Prop :=
  ∀ event, edge_read w.buttons call = some event →
    ¬ event.releases w.buttons.held_pin ∧ ∀ i, is_key (LINES.get i).event = true → ¬ event.presses i

/-! ### What is to hold at each call -/

/-- The line owns the repeat. -/
def Buttons.OwnedBy (buttons : Buttons) (i : Index) : Prop :=
  buttons.held_pin = (LINES.get i).pin ∧ buttons.held_event = (LINES.get i).event

structure Faithful (w : Watched) (call : Call) : Prop where
  /-- the held event is that of a direction whose last edge is a press -/
  held : w.buttons.held_event ≠ BUTTON_NONE →
    ∃ i, w.buttons.OwnedBy i ∧ is_direction (LINES.get i).event = true ∧ w.notes.Down i
  /-- the pressed directions are those whose last edge is a press -/
  pressed : ∀ i, w.buttons.isPressed i = true ↔ is_direction (LINES.get i).event = true ∧ w.notes.Down i
  /-- a press is returned by the call that reads it -/
  press : ∀ event i, edge_read w.buttons call = some event → event.presses i →
    (buttons_wait w.buttons call).event = (LINES.get i).event ∧
      (buttons_wait w.buttons call).timestamp_ns = event.timestamp_ns
  /-- a release returns no event -/
  released : ∀ event, edge_read w.buttons call = some event → event.id = .RISING_EDGE →
    (buttons_wait w.buttons call).event = BUTTON_NONE
  /-- any other event repeats the owner, after the delay and the interval -/
  repeated : (∀ event i, edge_read w.buttons call = some event → ¬ event.presses i) →
    (buttons_wait w.buttons call).event ≠ BUTTON_NONE → (buttons_wait w.buttons call).event ≠ BUTTON_ERROR →
    (buttons_wait w.buttons call).event = w.buttons.held_event ∧ is_direction w.buttons.held_event = true ∧
      w.notes.owned_since + repeatDelay ≤ (buttons_wait w.buttons call).timestamp_ns ∧
      ∀ time ∈ w.notes.owned_repeats, time + repeatInterval ≤ (buttons_wait w.buttons call).timestamp_ns
  /-- nobody becomes the owner before the owner is released or a key is pressed -/
  kept : w.buttons.held_event ≠ BUTTON_NONE → ∀ calls, watch.Along LeavesOwner w calls →
    (watch.final w calls).buttons.held_pin = w.buttons.held_pin ∧
      (watch.final w calls).buttons.held_event = w.buttons.held_event
  /-- a release of the owner passes the repeat to a direction that is still pressed -/
  passed : w.buttons.held_event ≠ BUTTON_NONE → ∀ event, edge_read w.buttons call = some event →
    event.releases w.buttons.held_pin →
    (∃ i, is_direction (LINES.get i).event = true ∧ (watch.step w call).notes.Down i) →
    ∃ i, (watch.step w call).buttons.OwnedBy i ∧ is_direction (LINES.get i).event = true ∧ (watch.step w call).notes.Down i

/-- A repeat comes at least the interval after every repeat before it. -/
def Apart (w : Watched) (call : Call) : Prop :=
  (∀ event i, edge_read w.buttons call = some event → ¬ event.presses i) →
  (buttons_wait w.buttons call).event ≠ BUTTON_NONE → (buttons_wait w.buttons call).event ≠ BUTTON_ERROR →
  ∀ time ∈ w.notes.repeats, time + repeatInterval ≤ (buttons_wait w.buttons call).timestamp_ns

/-! ### The lines -/

theorem pin_inj : ∀ i j : Index, (LINES.get i).pin = (LINES.get j).pin → i = j := by decide

theorem line_event_ne : ∀ i : Index, (LINES.get i).event ≠ BUTTON_NONE ∧ (LINES.get i).event ≠ BUTTON_ERROR := by decide

theorem findLine_eq_some {offset : Nat} {i : Index} : findLine offset = some i ↔ (LINES.get i).pin = offset := by
  constructor
  · intro found
    simpa using List.find?_some found
  · intro pin
    cases found : findLine offset with
    | none => exact absurd (decide_eq_true pin) (List.find?_eq_none.mp found i (List.mem_finRange i))
    | some j =>
      have other : (LINES.get j).pin = offset := by simpa using List.find?_some found
      rw [pin_inj j i (other.trans pin.symm)]

theorem getLsbD_bit : ∀ i j : Index, (bit i).getLsbD j = decide (j = i) := by decide

theorem isPressed_iff {buttons : Buttons} {i : Index} :
    buttons.isPressed i = true ↔ buttons.pressed_dirs.getLsbD i = true := by
  rw [Buttons.isPressed, decide_eq_true_iff, not_iff_comm, Bool.not_eq_true]
  constructor
  · intro clear
    apply BitVec.eq_of_getLsbD_eq
    intro j small
    have other := getLsbD_bit i ⟨j, small⟩
    by_cases same : (⟨j, small⟩ : Index) = i
    · subst same
      rw [BitVec.getLsbD_and, clear, Bool.false_and, BitVec.getLsbD_zero]
    · rw [BitVec.getLsbD_and, other, decide_eq_false same, Bool.and_false, BitVec.getLsbD_zero]
  · intro nothing
    have at_i := congrArg (BitVec.getLsbD · i) nothing
    simpa only [BitVec.getLsbD_and, getLsbD_bit, decide_true, Bool.and_true, BitVec.getLsbD_zero] using at_i

theorem press_dirs (buttons : Buttons) (i : Index) (event : LineEvent) :
    (press buttons i event).pressed_dirs =
      if is_direction (LINES.get i).event then buttons.pressed_dirs ||| bit i else buttons.pressed_dirs := by
  unfold press
  split
  · dsimp only
    split <;> rfl
  · split <;> rfl

theorem release_dirs (buttons : Buttons) (i : Index) (event : LineEvent) :
    (release buttons i event).pressed_dirs =
      if is_direction (LINES.get i).event then buttons.pressed_dirs &&& ~~~bit i else buttons.pressed_dirs := by
  have handed : ((buttons.clearDir i).handOver event).pressed_dirs = (buttons.clearDir i).pressed_dirs := by
    unfold Buttons.handOver
    split <;> rfl
  have cleared : (release buttons i event).pressed_dirs = (buttons.clearDir i).pressed_dirs := by
    unfold release
    split
    · exact handed
    · rfl
  rw [cleared]
  unfold Buttons.clearDir
  split <;> rfl

theorem press_pressed {buttons : Buttons} {i j : Index} {event : LineEvent} :
    (press buttons i event).isPressed j = true ↔
      is_direction (LINES.get i).event = true ∧ j = i ∨ buttons.isPressed j = true := by
  rw [isPressed_iff, isPressed_iff, press_dirs]
  split
  next direction =>
    rw [BitVec.getLsbD_or, getLsbD_bit, Bool.or_eq_true, decide_eq_true_iff, or_comm]
    exact or_congr_left ⟨fun same => ⟨direction, same⟩, And.right⟩
  next other => exact ⟨.inr, fun known => known.resolve_left fun both => other both.1⟩

theorem release_pressed {buttons : Buttons} {i j : Index} {event : LineEvent} :
    (release buttons i event).isPressed j = true ↔
      buttons.isPressed j = true ∧ ¬ (is_direction (LINES.get i).event = true ∧ j = i) := by
  rw [isPressed_iff, isPressed_iff, release_dirs]
  have inside : decide (j.val < 8) = true := decide_eq_true j.isLt
  split
  next direction =>
    rw [BitVec.getLsbD_and, BitVec.getLsbD_not, getLsbD_bit, inside, Bool.true_and, Bool.and_eq_true, Bool.not_eq_true',
      decide_eq_false_iff_not]
    exact and_congr_right fun _ => not_congr ⟨fun same => ⟨direction, same⟩, And.right⟩
  next other => exact ⟨fun set => ⟨set, fun both => other both.1⟩, And.left⟩

/-! ### One call -/

/-- A call reads an edge, or repeats the owner, or does nothing. -/
theorem wait_cases (buttons : Buttons) (call : Call) :
    (∃ event, edge_read buttons call = some event ∧ event.id ≠ .other ∧
      buttons_wait buttons call = line_event buttons event) ∨
    (edge_read buttons call = none ∧ buttons.held_event ≠ BUTTON_NONE ∧ ∃ now, buttons.next_repeat_ns ≤ now ∧
      buttons_wait buttons call = ⟨buttons.held_event, now, { buttons with next_repeat_ns := now + repeatInterval }⟩) ∨
    (edge_read buttons call = none ∧ (buttons_wait buttons call).buttons = buttons ∧
      ((buttons_wait buttons call).event = BUTTON_NONE ∨ (buttons_wait buttons call).event = BUTTON_ERROR)) := by
  unfold edge_read buttons_wait
  cases polled buttons call with
  | none => exact .inr (.inr ⟨rfl, rfl, .inr rfl⟩)
  | some answer =>
    cases answer with
    | failed interrupted =>
      cases interrupted with
      | true => exact .inr (.inr ⟨rfl, rfl, .inl rfl⟩)
      | false => exact .inr (.inr ⟨rfl, rfl, .inr rfl⟩)
    | timeout =>
      dsimp only [timed_out]
      split
      next held =>
        cases call.now_after with
        | none => exact .inr (.inr ⟨rfl, rfl, .inr rfl⟩)
        | some now =>
          dsimp only
          split
          next due => exact .inr (.inl ⟨rfl, held, now, due, rfl⟩)
          next => exact .inr (.inr ⟨rfl, rfl, .inl rfl⟩)
      next => exact .inr (.inr ⟨rfl, rfl, .inl rfl⟩)
    | ready device_failure pollin =>
      cases device_failure with
      | true => exact .inr (.inr ⟨rfl, rfl, .inr rfl⟩)
      | false =>
        cases pollin with
        | false => exact .inr (.inr ⟨rfl, rfl, .inl rfl⟩)
        | true =>
          cases call.got with
          | failed interrupted =>
            cases interrupted with
            | true => exact .inr (.inr ⟨rfl, rfl, .inl rfl⟩)
            | false => exact .inr (.inr ⟨rfl, rfl, .inr rfl⟩)
          | short => exact .inr (.inr ⟨rfl, rfl, .inr rfl⟩)
          | event event =>
            by_cases other : event.id = .other
            · refine .inr (.inr ⟨if_pos other, ?_⟩)
              dsimp only [Bool.false_eq_true, if_false, Bool.not_true, line_event]
              cases findLine event.offset with
              | none => exact ⟨rfl, .inl rfl⟩
              | some i =>
                rw [other]
                exact ⟨rfl, .inl rfl⟩
            · exact .inl ⟨event, if_neg other, other, rfl⟩

theorem handOver_owner (buttons : Buttons) (event : LineEvent) :
    (∃ j, buttons.isPressed j = true ∧ buttons.handOver event = buttons.own (LINES.get j) event) ∨
    ((∀ j, buttons.isPressed j = false) ∧ buttons.handOver event = buttons.disown) := by
  unfold Buttons.handOver
  split
  next j found => exact .inl ⟨j, List.find?_some found, rfl⟩
  next nobody =>
    refine .inr ⟨fun j => ?_, rfl⟩
    simpa using List.find?_eq_none.mp nobody j (List.mem_finRange j)

theorem clearDir_kept (buttons : Buttons) (i : Index) :
    (buttons.clearDir i).held_pin = buttons.held_pin ∧ (buttons.clearDir i).held_event = buttons.held_event ∧
      (buttons.clearDir i).next_repeat_ns = buttons.next_repeat_ns := by
  unfold Buttons.clearDir
  split <;> exact ⟨rfl, rfl, rfl⟩

/-- What a release of a line does to the owner. -/
theorem release_owner (buttons : Buttons) (i : Index) (event : LineEvent) :
    ((buttons.held_event = BUTTON_NONE ∨ buttons.held_pin ≠ event.offset) ∧
      (release buttons i event).held_pin = buttons.held_pin ∧
      (release buttons i event).held_event = buttons.held_event ∧
      (release buttons i event).next_repeat_ns = buttons.next_repeat_ns) ∨
    (buttons.held_event ≠ BUTTON_NONE ∧ buttons.held_pin = event.offset ∧
      ((∃ j, (release buttons i event).isPressed j = true ∧ (release buttons i event).OwnedBy j ∧
        (release buttons i event).next_repeat_ns = event.timestamp_ns + repeatDelay) ∨
      ((∀ j, (release buttons i event).isPressed j = false) ∧ (release buttons i event).held_event = BUTTON_NONE))) := by
  obtain ⟨same_pin, same_event, same_next⟩ := clearDir_kept buttons i
  unfold release
  by_cases owner : buttons.held_event ≠ BUTTON_NONE ∧ buttons.held_pin = event.offset
  · rw [if_pos owner]
    refine .inr ⟨owner.1, owner.2, ?_⟩
    rcases handOver_owner (buttons.clearDir i) event with ⟨j, pressed, handed⟩ | ⟨nobody, handed⟩
    · rw [handed]
      exact .inl ⟨j, pressed, ⟨rfl, rfl⟩, rfl⟩
    · rw [handed]
      exact .inr ⟨nobody, rfl⟩
  · rw [if_neg owner]
    rw [not_and_or, not_not] at owner
    exact .inl ⟨owner, same_pin, same_event, same_next⟩

/-- What a press of a line does to the owner. -/
theorem press_owner (buttons : Buttons) (i : Index) (event : LineEvent) :
    (is_key (LINES.get i).event = true ∧ (press buttons i event).held_event = BUTTON_NONE) ∨
    (is_direction (LINES.get i).event = true ∧ buttons.held_event = BUTTON_NONE ∧ (press buttons i event).OwnedBy i ∧
      (press buttons i event).next_repeat_ns = event.timestamp_ns + repeatDelay) ∨
    ((press buttons i event).held_pin = buttons.held_pin ∧ (press buttons i event).held_event = buttons.held_event ∧
      (press buttons i event).next_repeat_ns = buttons.next_repeat_ns) := by
  unfold press
  split
  next direction =>
    dsimp only
    split
    next nobody => exact .inr (.inl ⟨direction, nobody, ⟨rfl, rfl⟩, rfl⟩)
    next => exact .inr (.inr ⟨rfl, rfl, rfl⟩)
  next =>
    split
    next key => exact .inl ⟨key, rfl⟩
    next => exact .inr (.inr ⟨rfl, rfl, rfl⟩)

/-! ### What every call keeps -/

structure Kept (w : Watched) : Prop where
  pressed : ∀ i, w.buttons.isPressed i = true ↔ is_direction (LINES.get i).event = true ∧ w.notes.Down i
  owner : w.buttons.held_event ≠ BUTTON_NONE → ∃ i, w.buttons.OwnedBy i ∧ w.buttons.isPressed i = true
  due : w.buttons.held_event ≠ BUTTON_NONE → w.notes.owned_since + repeatDelay ≤ w.buttons.next_repeat_ns ∧
    ∀ time ∈ w.notes.owned_repeats, time + repeatInterval ≤ w.buttons.next_repeat_ns

theorem nothing_pressed : ∀ i, buttons_open.isPressed i = false := by decide

theorem kept_opened : Kept opened where
  pressed i := ⟨fun set => absurd (set.symm.trans (nothing_pressed i)) nofun, fun down => by cases down.2⟩
  owner held := absurd rfl held
  due held := absurd rfl held

theorem down_edge {notes : Notes} {before after : Buttons} {event : LineEvent} {i : Index} :
    (notes.edge before after event).Down i ↔
      if event.offset = (LINES.get i).pin then event.id = .FALLING_EDGE else notes.Down i := by
  have edges : (notes.edge before after event).edges = event :: notes.edges := by
    unfold Notes.edge
    split <;> rfl
  rw [Notes.Down, edges, List.find?_cons]
  split
  next same => rw [if_pos (of_decide_eq_true same), Option.map_some, Option.some_inj]
  next other => rw [if_neg (of_decide_eq_false other), Notes.Down]

/-- The pressed directions follow the edges. -/
theorem pressed_edge {w : Watched} (kept : Kept w) {event : LineEvent} (edge : event.id ≠ .other) (i : Index) :
    (line_event w.buttons event).buttons.isPressed i = true ↔ is_direction (LINES.get i).event = true ∧
      (w.notes.edge w.buttons (line_event w.buttons event).buttons event).Down i := by
  rw [down_edge]
  unfold line_event
  cases found : findLine event.offset with
  | none =>
    have elsewhere : event.offset ≠ (LINES.get i).pin := by
      intro same
      rw [findLine_eq_some.mpr same.symm] at found
      cases found
    rw [if_neg elsewhere]
    exact kept.pressed i
  | some k =>
    have pin := findLine_eq_some.mp found
    have here : event.offset = (LINES.get i).pin ↔ i = k :=
      ⟨fun same => pin_inj i k (same.symm.trans pin.symm), fun same => by rw [same, pin]⟩
    cases id : event.id with
    | other => exact absurd id edge
    | RISING_EDGE =>
      dsimp only
      rw [release_pressed, kept.pressed i]
      by_cases same : i = k
      · rw [if_pos (here.mpr same), same]
        simpa using fun direction _ => direction
      · rw [if_neg (mt here.mp same)]
        simp [same]
    | FALLING_EDGE =>
      dsimp only
      rw [press_pressed, kept.pressed i]
      by_cases same : i = k
      · rw [if_pos (here.mpr same), same]
        simpa using fun direction _ => direction
      · rw [if_neg (mt here.mp same)]
        simp [same]

/-- What an edge does to the owner: it keeps it, or there is none, or it makes another line the owner. -/
theorem owner_edge {w : Watched} (kept : Kept w) (event : LineEvent) :
    let after := (line_event w.buttons event).buttons
    (after.held_pin = w.buttons.held_pin ∧ after.held_event = w.buttons.held_event ∧
      after.next_repeat_ns = w.buttons.next_repeat_ns ∧
      (after.held_event ≠ BUTTON_NONE → ∀ i, w.buttons.OwnedBy i → w.buttons.isPressed i = true → after.isPressed i = true)) ∨
    after.held_event = BUTTON_NONE ∨
    (∃ i, after.OwnedBy i ∧ after.isPressed i = true ∧ after.next_repeat_ns = event.timestamp_ns + repeatDelay ∧
      ¬ (w.buttons.held_pin = after.held_pin ∧ w.buttons.held_event = after.held_event)) := by
  unfold line_event
  cases found : findLine event.offset with
  | none => exact .inl ⟨rfl, rfl, rfl, fun _ _ _ pressed => pressed⟩
  | some k =>
    have pin := findLine_eq_some.mp found
    cases id : event.id with
    | other => exact .inl ⟨rfl, rfl, rfl, fun _ _ _ pressed => pressed⟩
    | RISING_EDGE =>
      dsimp only
      rcases release_owner w.buttons k event with ⟨not_owner, same_pin, same_event, same_next⟩ | ⟨held, owner, passed⟩
      · refine .inl ⟨same_pin, same_event, same_next, fun held i owned pressed => ?_⟩
        rw [same_event] at held
        refine release_pressed.mpr ⟨pressed, fun same => ?_⟩
        rw [same.2] at owned
        exact not_owner.elim held fun elsewhere => elsewhere (owned.1.trans pin)
      · rcases passed with ⟨j, pressed, owned, next⟩ | ⟨-, nobody⟩
        · refine .inr (.inr ⟨j, owned, pressed, next, fun same => ?_⟩)
          -- the owner is the line of the edge, whose bit the release has cleared
          obtain ⟨i, owned', pressed'⟩ := kept.owner held
          have is_k : i = k := pin_inj i k (owned'.1.symm.trans (owner.trans pin.symm))
          have is_j : j = k := pin_inj j k (owned.1.symm.trans (same.1.symm.trans (owner.trans pin.symm)))
          rw [is_k] at pressed'
          exact (release_pressed.mp pressed).2 ⟨((kept.pressed k).mp pressed').1, is_j⟩
        · exact .inr (.inl nobody)
    | FALLING_EDGE =>
      dsimp only
      rcases press_owner w.buttons k event with ⟨-, nobody⟩ | ⟨direction, nobody, owned, next⟩ | ⟨same_pin, same_event, same_next⟩
      · exact .inr (.inl nobody)
      · refine .inr (.inr ⟨k, owned, press_pressed.mpr (.inl ⟨direction, rfl⟩), next, fun same => ?_⟩)
        exact (line_event_ne k).1 (owned.2.symm.trans (same.2.symm.trans nobody))
      · exact .inl ⟨same_pin, same_event, same_next, fun _ _ _ pressed => press_pressed.mpr (.inr pressed)⟩

theorem kept_edge {w : Watched} (kept : Kept w) {event : LineEvent} (edge : event.id ≠ .other) :
    Kept
      { buttons := (line_event w.buttons event).buttons
        notes := w.notes.edge w.buttons (line_event w.buttons event).buttons event } := by
  refine ⟨pressed_edge kept edge, fun held => ?_, fun held => ?_⟩
  · rcases owner_edge kept event with ⟨same_pin, same_event, -, pressed⟩ | nobody | ⟨i, owned, pressed, -⟩
    · obtain ⟨i, owned, was⟩ := kept.owner (same_event ▸ held)
      exact ⟨i, ⟨same_pin.trans owned.1, same_event.trans owned.2⟩, pressed held i owned was⟩
    · exact absurd nobody held
    · exact ⟨i, owned, pressed⟩
  · dsimp only at held ⊢
    rcases owner_edge kept event with ⟨same_pin, same_event, same_next, -⟩ | nobody | ⟨i, -, -, next, new⟩
    · rw [Notes.edge, if_pos ⟨same_pin.symm, same_event.symm⟩, same_next]
      exact kept.due (same_event ▸ held)
    · exact absurd nobody held
    · rw [Notes.edge, if_neg new, next]
      exact ⟨Nat.le_refl _, nofun⟩

theorem kept_step {w : Watched} (kept : Kept w) (call : Call) : Kept (watch.step w call) := by
  dsimp only [watch]
  rcases wait_cases w.buttons call with ⟨event, read, edge, result⟩ | ⟨read, held, now, due, result⟩ | ⟨read, same, quiet⟩
  · rw [read, result]
    exact kept_edge kept edge
  · obtain ⟨i, owned, -⟩ := kept.owner held
    have proper : ¬ (w.buttons.held_event = BUTTON_NONE ∨ w.buttons.held_event = BUTTON_ERROR) :=
      fun quiet => quiet.elim held fun error => (line_event_ne i).2 (owned.2.symm.trans error)
    obtain ⟨delayed, spaced⟩ := kept.due held
    rw [read, result]
    dsimp only
    rw [Notes.noEdge, if_neg proper]
    refine ⟨kept.pressed, kept.owner, fun _ => ⟨?_, ?_⟩⟩
    · exact Nat.le_trans delayed (Nat.le_trans due (Nat.le_add_right now _))
    · rintro time (_ | ⟨_, mem⟩)
      · exact Nat.le_refl _
      · exact Nat.le_trans (spaced time mem) (Nat.le_trans due (Nat.le_add_right now _))
  · rw [read, same]
    dsimp only
    rw [Notes.noEdge, if_pos quiet]
    exact kept

/-- The next repeat is an interval after every repeat before it. -/
structure Spaced (w : Watched) : Prop where
  kept : Kept w
  spaced : w.buttons.held_event ≠ BUTTON_NONE → ∀ time ∈ w.notes.repeats, time + repeatInterval ≤ w.buttons.next_repeat_ns

theorem spaced_step {w : Watched} (known : Spaced w) (call : Call) (monotonic : Monotonic w call) :
    Spaced (watch.step w call) := by
  refine ⟨kept_step known.kept call, ?_⟩
  have shorter : repeatInterval ≤ repeatDelay := by decide
  dsimp only [watch]
  rcases wait_cases w.buttons call with ⟨event, read, edge, result⟩ | ⟨read, held, now, due, result⟩ | ⟨read, same, quiet⟩
  · have repeats : (w.notes.edge w.buttons (line_event w.buttons event).buttons event).repeats = w.notes.repeats := by
      unfold Notes.edge
      split <;> rfl
    rw [read, result]
    dsimp only
    rw [repeats]
    intro held time mem
    rcases owner_edge known.kept event with ⟨-, same_event, same_next, -⟩ | nobody | ⟨i, -, -, next, -⟩
    · rw [same_next]
      exact known.spaced (same_event ▸ held) time mem
    · exact absurd nobody held
    · rw [next]
      exact Nat.add_le_add (monotonic event read time mem) shorter
  · rw [read, result]
    dsimp only
    intro _ time mem
    have before : time ∈ w.notes.repeats ∨ time = now := by
      unfold Notes.noEdge at mem
      split at mem
      · exact .inl mem
      · exact (List.mem_cons.mp mem).symm
    rcases before with before | rfl
    · exact Nat.le_trans (known.spaced held time before) (Nat.le_trans due (Nat.le_add_right now _))
    · exact Nat.le_refl _
  · rw [read, same]
    dsimp only
    rw [Notes.noEdge, if_pos quiet]
    exact known.spaced

/-! ### Every run -/

theorem line_event_press {buttons : Buttons} {event : LineEvent} {i : Index} (presses : event.presses i) :
    line_event buttons event = ⟨(LINES.get i).event, event.timestamp_ns, press buttons i event⟩ := by
  obtain ⟨falling, offset⟩ := presses
  rw [line_event, findLine_eq_some.mpr offset.symm]
  dsimp only
  rw [falling]

/-- An edge that is not the press of a line returns nothing. -/
theorem line_event_quiet {buttons : Buttons} {event : LineEvent} (no_press : ∀ i, ¬ event.presses i) :
    (line_event buttons event).event = BUTTON_NONE := by
  unfold line_event
  cases found : findLine event.offset with
  | none => rfl
  | some k =>
    cases id : event.id with
    | FALLING_EDGE => exact absurd ⟨id, (findLine_eq_some.mp found).symm⟩ (no_press k)
    | _ => rfl

/-- A call that leaves the owner alone keeps it. -/
theorem owner_step {w : Watched} {call : Call} (held : w.buttons.held_event ≠ BUTTON_NONE) (leaves : LeavesOwner w call) :
    (watch.step w call).buttons.held_pin = w.buttons.held_pin ∧
      (watch.step w call).buttons.held_event = w.buttons.held_event := by
  dsimp only [watch]
  rcases wait_cases w.buttons call with ⟨event, read, -, result⟩ | ⟨-, -, now, -, result⟩ | ⟨-, same, -⟩
  · obtain ⟨not_released, no_key⟩ := leaves event read
    rw [result]
    unfold line_event
    cases found : findLine event.offset with
    | none => exact ⟨rfl, rfl⟩
    | some k =>
      have pin := findLine_eq_some.mp found
      cases id : event.id with
      | other => exact ⟨rfl, rfl⟩
      | RISING_EDGE =>
        rcases release_owner w.buttons k event with ⟨-, same_pin, same_event, -⟩ | ⟨-, owner, -⟩
        · exact ⟨same_pin, same_event⟩
        · exact absurd ⟨id, owner.symm⟩ not_released
      | FALLING_EDGE =>
        rcases press_owner w.buttons k event with ⟨key, -⟩ | ⟨-, nobody, -⟩ | ⟨same_pin, same_event, -⟩
        · exact absurd ⟨id, pin.symm⟩ (no_key k key)
        · exact absurd nobody held
        · exact ⟨same_pin, same_event⟩
  · rw [result]
    exact ⟨rfl, rfl⟩
  · rw [same]
    exact ⟨rfl, rfl⟩

/-- A call that returns an event without a press repeats the owner. -/
theorem repeat_of {w : Watched} {call : Call}
    (no_press : ∀ event i, edge_read w.buttons call = some event → ¬ event.presses i)
    (some_event : (buttons_wait w.buttons call).event ≠ BUTTON_NONE)
    (no_error : (buttons_wait w.buttons call).event ≠ BUTTON_ERROR) :
    w.buttons.held_event ≠ BUTTON_NONE ∧ (buttons_wait w.buttons call).event = w.buttons.held_event ∧
      w.buttons.next_repeat_ns ≤ (buttons_wait w.buttons call).timestamp_ns := by
  rcases wait_cases w.buttons call with ⟨event, read, -, result⟩ | ⟨-, held, now, due, result⟩ | ⟨-, -, quiet⟩
  · rw [result] at some_event
    exact absurd (line_event_quiet fun i => no_press event i read) some_event
  · rw [result]
    exact ⟨held, rfl, due⟩
  · exact absurd quiet (not_or.mpr ⟨some_event, no_error⟩)

theorem edge_result {buttons : Buttons} {call : Call} {event : LineEvent} (read : edge_read buttons call = some event) :
    event.id ≠ .other ∧ buttons_wait buttons call = line_event buttons event := by
  rcases wait_cases buttons call with ⟨event', read', edge, result⟩ | ⟨nothing, -⟩ | ⟨nothing, -⟩
  · cases read.symm.trans read'
    exact ⟨edge, result⟩
  · cases read.symm.trans nothing
  · cases read.symm.trans nothing

/-- After a release of the owner there is an owner again if a direction is pressed. -/
theorem release_passes {w : Watched} {call : Call} {event : LineEvent} {j : Index} (kept : Kept w)
    (held : w.buttons.held_event ≠ BUTTON_NONE) (read : edge_read w.buttons call = some event)
    (releases : event.releases w.buttons.held_pin) (pressed : (watch.step w call).buttons.isPressed j = true) :
    (watch.step w call).buttons.held_event ≠ BUTTON_NONE := by
  obtain ⟨rising, offset⟩ := releases
  obtain ⟨k, owned, -⟩ := kept.owner held
  have after : (watch.step w call).buttons = release w.buttons k event := by
    dsimp only [watch]
    rw [(edge_result read).2, line_event, findLine_eq_some.mpr (owned.1.symm.trans offset.symm)]
    dsimp only
    rw [rising]
  rw [after] at pressed ⊢
  rcases release_owner w.buttons k event with ⟨not_owner, -⟩ | ⟨-, -, ⟨i, -, taken, -⟩ | ⟨nobody, -⟩⟩
  · exact absurd not_owner (not_or.mpr ⟨held, not_not.mpr offset.symm⟩)
  · rw [taken.2]
    exact (line_event_ne i).1
  · exact absurd (pressed.symm.trans (nobody j)) nofun

theorem faithful_of {w : Watched} (kept : Kept w) (call : Call) : Faithful w call where
  held held := by
    obtain ⟨i, owned, pressed⟩ := kept.owner held
    exact ⟨i, owned, (kept.pressed i).mp pressed⟩
  pressed := kept.pressed
  press event i read presses := by
    rw [(edge_result read).2, line_event_press presses]
    exact ⟨rfl, rfl⟩
  released event read rising := by
    rw [(edge_result read).2]
    exact line_event_quiet fun i presses => by cases rising.symm.trans presses.1
  repeated no_press some_event no_error := by
    obtain ⟨held, same, due⟩ := repeat_of no_press some_event no_error
    obtain ⟨i, owned, pressed⟩ := kept.owner held
    obtain ⟨delayed, spaced⟩ := kept.due held
    refine ⟨same, ?_, Nat.le_trans delayed due, fun time mem => Nat.le_trans (spaced time mem) due⟩
    rw [owned.2]
    exact ((kept.pressed i).mp pressed).1
  kept held calls leaves := by
    induction calls generalizing w with
    | nil => exact ⟨rfl, rfl⟩
    | cons call' rest ih =>
      obtain ⟨first, later⟩ := leaves
      obtain ⟨same_pin, same_event⟩ := owner_step held first
      obtain ⟨rest_pin, rest_event⟩ := ih (kept_step kept call') (same_event ▸ held) later
      exact ⟨rest_pin.trans same_pin, rest_event.trans same_event⟩
  passed held event read releases still := by
    have kept' := kept_step kept call
    obtain ⟨j, direction, down⟩ := still
    have pressed := (kept'.pressed j).mpr ⟨direction, down⟩
    have passes := release_passes kept held read releases pressed
    obtain ⟨i, owned, pressed'⟩ := kept'.owner passes
    exact ⟨i, owned, (kept'.pressed i).mp pressed'⟩

/-! ### Times -/

/-- The times that a call adds to are below a limit. -/
structure Call.Early (call : Call) (limit : Nat) : Prop where
  now_after : ∀ now, call.now_after = some now → now < limit
  edge : ∀ event, call.got = .event event → event.timestamp_ns < limit

theorem line_event_next (buttons : Buttons) (event : LineEvent) :
    (line_event buttons event).buttons.next_repeat_ns = buttons.next_repeat_ns ∨
      (line_event buttons event).buttons.next_repeat_ns = 0 ∨
      (line_event buttons event).buttons.next_repeat_ns = event.timestamp_ns + repeatDelay := by
  have cleared (i : Index) : (buttons.clearDir i).next_repeat_ns = buttons.next_repeat_ns := by
    unfold Buttons.clearDir
    split <;> rfl
  unfold line_event
  split
  · exact .inl rfl
  · split
    · unfold release
      split
      · unfold Buttons.handOver
        split
        · exact .inr (.inr rfl)
        · exact .inr (.inl rfl)
      · exact .inl (cleared _)
    · unfold press
      split
      · dsimp only
        split
        · exact .inr (.inr rfl)
        · exact .inl rfl
      · split
        · exact .inr (.inl rfl)
        · exact .inl rfl
    · exact .inl rfl

theorem next_repeat_le {buttons : Buttons} {call : Call} {limit : Nat} (early : call.Early limit)
    (before : buttons.next_repeat_ns ≤ limit + repeatDelay) :
    (buttons_wait buttons call).buttons.next_repeat_ns ≤ limit + repeatDelay := by
  have shorter : repeatInterval ≤ repeatDelay := by decide
  unfold buttons_wait
  split
  · exact before
  · exact before
  · unfold timed_out
    split
    · split
      · exact before
      next now at_now =>
        have := early.now_after now at_now
        split
        · dsimp only
          omega
        · exact before
    · exact before
  · split
    · exact before
    · split
      · exact before
      · split
        · exact before
        · exact before
        next event got =>
          have := early.edge event got
          rcases line_event_next buttons event with same | zero | owned <;> omega

/-- Until half a second before a `uint64_t` of nanoseconds is full, no sum of times wraps. -/
theorem times_fit {calls : List Call} (early : ∀ call ∈ calls, call.Early (2 ^ 64 - 501000000)) :
    (watch.final opened calls).buttons.next_repeat_ns + 999999 < 2 ^ 64 := by
  have keeps : ∀ (w : Watched) (call : Call), w.buttons.next_repeat_ns ≤ 2 ^ 64 - 501000000 + repeatDelay →
      call.Early (2 ^ 64 - 501000000) →
      (watch.step w call).buttons.next_repeat_ns ≤ 2 ^ 64 - 501000000 + repeatDelay :=
    fun w call before early => next_repeat_le early before
  have delay : repeatDelay = 500000000 := rfl
  have start : opened.buttons.next_repeat_ns ≤ 2 ^ 64 - 501000000 + repeatDelay := Nat.zero_le _
  have below := watch.final_invariant keeps start (watch.along_of_forall early opened)
  omega

/-- Key repeat follows only a direction that is held. -/
theorem repeat_follows_held_direction (calls : List Call) (call : Call) :
    Faithful (watch.final opened calls) call ∧
      (watch.Along Monotonic opened calls → Apart (watch.final opened calls) call) := by
  have start : Spaced opened := ⟨kept_opened, nofun⟩
  have keeps : ∀ w call, Kept w → Kept (watch.step w call) := fun _ call kept => kept_step kept call
  have keeps_spaced : ∀ w call, Spaced w → Monotonic w call → Spaced (watch.step w call) :=
    fun _ call known monotonic => spaced_step known call monotonic
  refine ⟨faithful_of (watch.final_always keeps kept_opened calls) call, fun monotonic no_press some_event no_error time mem => ?_⟩
  obtain ⟨held, -, due⟩ := repeat_of no_press some_event no_error
  exact Nat.le_trans ((watch.final_invariant keeps_spaced start monotonic).spaced held time mem) due

/-- The press of a line. -/
def pressCall (pin time : Nat) : Call where
  timeout_ms := -1
  now := some time
  poll _ := .ready false true
  now_after := none
  got := .event ⟨pin, .FALLING_EDGE, time⟩

/-- A poll that times out. -/
def timeoutCall (time : Nat) : Call where
  timeout_ms := -1
  now := some time
  poll _ := .timeout
  now_after := some time
  got := .short

def heldCalls : List Call := [pressCall 5 1000, timeoutCall 500001000]

/-- Two repeats of a direction that is held, 150 milliseconds apart. -/
theorem repeat_follows_held_direction_twice :
    watch.Along Monotonic opened heldCalls ∧ (watch.final opened heldCalls).notes.repeats = [500001000] ∧
    (buttons_wait (watch.final opened heldCalls).buttons (timeoutCall 650001000)).event = BUTTON_PREV ∧
    Faithful (watch.final opened heldCalls) (timeoutCall 650001000) ∧
    500001000 + repeatInterval ≤
      (buttons_wait (watch.final opened heldCalls).buttons (timeoutCall 650001000)).timestamp_ns := by
  have monotonic : watch.Along Monotonic opened heldCalls := by
    refine ⟨fun event _ time mem => ?_, fun event read => ?_, trivial⟩
    · cases mem
    · cases read
  have repeats : (watch.final opened heldCalls).notes.repeats = [500001000] := by decide
  have event : (buttons_wait (watch.final opened heldCalls).buttons (timeoutCall 650001000)).event = BUTTON_PREV := by
    decide
  have no_press : edge_read (watch.final opened heldCalls).buttons (timeoutCall 650001000) = none := by decide
  obtain ⟨faithful, apart⟩ := repeat_follows_held_direction heldCalls (timeoutCall 650001000)
  refine ⟨monotonic, repeats, event, faithful, apart monotonic ?_ ?_ ?_ _ ?_⟩
  · intro event i read
    rw [no_press] at read
    cases read
  · rw [event]
    decide
  · rw [event]
    decide
  · rw [repeats]
    exact List.mem_singleton_self _

end PiJade.ButtonsGpio
