import Mathlib.Algebra.Group.Nat.Defs
import Mathlib.Data.List.Basic
import Mathlib.Tactic.Common
import PiJade.Machine

/-!
The input gate (`pijade/host/input_gate.h`): whether a button press is discarded
because the panel was not yet showing what the press would act on. The gate sees
panel writes, the screen each one carries, the jobs the gui task has drained when
it composed it, and the job count posted by each dispatched press.
-/
namespace PiJade.InputGate
set_option linter.unusedSimpArgs false

/-- `UINT64_MAX`, the completion time of a write whose clock reading failed. -/
def UINT64_MAX : UInt64 := 18446744073709551615

def INPUT_GATE_SETTLE_TIMEOUT_NS : UInt64 := 1000000000

/-- `input_gate_verdict_t`. -/
inductive Verdict where
  | allow
  | drop_no_frame
  | drop_older
  | drop_pending
  | drop_screen
  deriving DecidableEq, Repr

/-- `input_gate_t`, field by field. -/
structure Gate where
  pending_jobs : UInt32 := 0
  pending_since_ns : UInt64 := 0
  have_pending : Bool := false
  active_start_ns : UInt64 := 0
  active_gen : UInt32 := 0
  active_drained : UInt32 := 0
  have_active : Bool := false
  completed_drained : UInt32 := 0
  drain_advanced_ns : UInt64 := 0
  drain_advanced_gen : UInt32 := 0
  have_completed : Bool := false
  settled_ns : UInt64 := 0
  settled_gen : UInt32 := 0
  have_settled : Bool := false
  last_start_ns : UInt64 := 0
  last_end_ns : UInt64 := 0
  deriving DecidableEq, Repr

/-- `(int32_t)(drained - posted) >= 0`, the wrapped comparison of two job counts. -/
def reached (drained posted : UInt32) : Bool := decide (0 ≤ (drained - posted).toInt32)

def input_gate_input_dispatched (gate : Gate) (dispatch_ns : UInt64) (posted : UInt32) : Gate :=
  let gate := { gate with pending_jobs := posted, pending_since_ns := dispatch_ns, have_pending := true }
  if gate.have_completed && reached gate.completed_drained posted then
    let gate := { gate with have_pending := false }
    -- A mark published after its frame: the settle point moves to that frame, never back.
    if !gate.have_settled || decide (gate.drain_advanced_ns > gate.settled_ns) then
      { gate with
        settled_ns := gate.drain_advanced_ns, settled_gen := gate.drain_advanced_gen, have_settled := true }
    else gate
  else gate

def input_gate_write_begin (gate : Gate) (start_ns : UInt64) (screen_gen drained : UInt32) : Gate :=
  { gate with
    active_start_ns := start_ns, active_gen := screen_gen, active_drained := drained, have_active := true }

def input_gate_write_end (gate : Gate) (end_ns : UInt64) : Gate :=
  let gate := { gate with last_start_ns := gate.active_start_ns, last_end_ns := end_ns }
  let gate :=
    if !gate.have_completed || gate.active_drained != gate.completed_drained then
      { gate with
        completed_drained := gate.active_drained, drain_advanced_ns := end_ns,
        drain_advanced_gen := gate.active_gen, have_completed := true }
    else gate
  let meets_pending := gate.have_pending && reached gate.active_drained gate.pending_jobs
  let new_screen := !gate.have_settled || gate.active_gen != gate.settled_gen
  let gate :=
    if meets_pending || new_screen then
      { gate with settled_ns := end_ns, settled_gen := gate.active_gen, have_settled := true }
    else gate
  let gate := if meets_pending then { gate with have_pending := false } else gate
  { gate with have_active := false, active_start_ns := 0 }

def input_gate_judge (gate : Gate) (press_ns : UInt64) (current_gen : UInt32) : Verdict :=
  if gate.last_end_ns = UINT64_MAX || !gate.have_settled then .drop_no_frame
  else if press_ns < gate.settled_ns then .drop_older
  else if gate.have_pending && decide (press_ns < gate.pending_since_ns + INPUT_GATE_SETTLE_TIMEOUT_NS) then
    .drop_pending
  else if current_gen ≠ gate.settled_gen then .drop_screen
  else .allow

/-! ### What one call does -/

theorem reached_iff {drained posted : Nat} (below : drained < posted + 2 ^ 31) (above : posted < drained + 2 ^ 31) :
    reached (UInt32.ofNat drained) (UInt32.ofNat posted) = true ↔ posted ≤ drained := by
  have small : ((drained : Int) - posted).bmod Int32.size = drained - posted := by
    apply Int.bmod_eq_of_le
    · simp only [Int32.size]; omega
    · simp only [Int32.size]; omega
  simp [reached, Int32.le_iff_toInt_le, small]

/-- What a press must meet to be let through. -/
theorem judge_allow_iff (gate : Gate) (press_ns : UInt64) (current_gen : UInt32) :
    input_gate_judge gate press_ns current_gen = .allow ↔
      gate.last_end_ns ≠ UINT64_MAX ∧ gate.have_settled = true ∧ gate.settled_ns ≤ press_ns ∧
      (gate.have_pending = true → gate.pending_since_ns + INPUT_GATE_SETTLE_TIMEOUT_NS ≤ press_ns) ∧
      current_gen = gate.settled_gen := by
  unfold input_gate_judge
  by_cases noFrame : gate.last_end_ns = UINT64_MAX
  · simp [noFrame]
  · cases settled : gate.have_settled with
    | false => simp [settled]
    | true =>
      simp only [noFrame, settled, decide_false, Bool.not_true, Bool.or_self, Bool.false_eq_true, ↓reduceIte]
      by_cases older : press_ns < gate.settled_ns
      · simp [older, UInt64.not_le.mpr older]
      · cases pending : gate.have_pending with
        | false => simp [older, pending, noFrame, UInt64.not_lt.mp older]
        | true =>
          by_cases early : press_ns < gate.pending_since_ns + INPUT_GATE_SETTLE_TIMEOUT_NS
          · simp [older, early, UInt64.not_le.mpr early]
          · simp [older, pending, early, noFrame, UInt64.not_lt.mp older, UInt64.not_lt.mp early]

/-- The write in flight drains jobs that no completed write has drained. -/
def drainAdvances (gate : Gate) : Bool := !gate.have_completed || gate.active_drained != gate.completed_drained

/-- The write in flight carries every job of the pending mark. -/
def meetsPending (gate : Gate) : Bool := gate.have_pending && reached gate.active_drained gate.pending_jobs

/-- The write in flight carries another screen than the settled one. -/
def newScreen (gate : Gate) : Bool := !gate.have_settled || gate.active_gen != gate.settled_gen

/-- A completed write, field by field. -/
theorem write_end_eq (gate : Gate) (end_ns : UInt64) :
    input_gate_write_end gate end_ns =
      { gate with
        last_start_ns := gate.active_start_ns
        last_end_ns := end_ns
        completed_drained := if drainAdvances gate then gate.active_drained else gate.completed_drained
        drain_advanced_ns := if drainAdvances gate then end_ns else gate.drain_advanced_ns
        drain_advanced_gen := if drainAdvances gate then gate.active_gen else gate.drain_advanced_gen
        have_completed := true
        settled_ns := if meetsPending gate || newScreen gate then end_ns else gate.settled_ns
        settled_gen := if meetsPending gate || newScreen gate then gate.active_gen else gate.settled_gen
        have_settled := true
        have_pending := gate.have_pending && !meetsPending gate
        have_active := false
        active_start_ns := 0 } := by
  obtain ⟨jobs, since, pending, start, gen, drained, active, completed, advanced_ns, advanced_gen, done, settled_ns,
    settled_gen, settled, last_start, last_end⟩ := gate
  simp only [input_gate_write_end, drainAdvances, meetsPending, newScreen]
  rcases eq_or_ne drained completed with rfl | drains
  · by_cases met : reached drained jobs = true
    · rcases eq_or_ne gen settled_gen with rfl | other
      · cases done <;> cases settled <;> cases pending <;> simp [met]
      · cases done <;> cases pending <;> simp [met, other]
    · rcases eq_or_ne gen settled_gen with rfl | other
      · cases done <;> cases settled <;> simp [met]
      · cases done <;> simp [met, other]
  · by_cases met : reached drained jobs = true
    · rcases eq_or_ne gen settled_gen with rfl | other
      · cases settled <;> cases pending <;> simp [met, drains]
      · cases pending <;> simp [met, drains, other]
    · rcases eq_or_ne gen settled_gen with rfl | other
      · cases settled <;> simp [met, drains]
      · simp [met, drains, other]

/-- The mark is met by a write that has already completed. -/
def alreadyMet (gate : Gate) (posted : UInt32) : Bool :=
  gate.have_completed && reached gate.completed_drained posted

/-- The settle point lags behind the write that meets the mark. -/
def repairs (gate : Gate) (posted : UInt32) : Bool :=
  alreadyMet gate posted && (!gate.have_settled || decide (gate.settled_ns < gate.drain_advanced_ns))

/-- A published mark, field by field. -/
theorem input_dispatched_eq (gate : Gate) (dispatch_ns : UInt64) (posted : UInt32) :
    input_gate_input_dispatched gate dispatch_ns posted =
      { gate with
        pending_jobs := posted
        pending_since_ns := dispatch_ns
        have_pending := !alreadyMet gate posted
        settled_ns := if repairs gate posted then gate.drain_advanced_ns else gate.settled_ns
        settled_gen := if repairs gate posted then gate.drain_advanced_gen else gate.settled_gen
        have_settled := gate.have_settled || repairs gate posted } := by
  unfold input_gate_input_dispatched repairs
  by_cases met : alreadyMet gate posted = true
  · have unfolded := met
    simp only [alreadyMet] at unfolded
    by_cases lags : (!gate.have_settled || decide (gate.settled_ns < gate.drain_advanced_ns)) = true
    · simp [met, unfolded, lags]
    · have ⟨settled, kept⟩ : gate.have_settled = true ∧ ¬ gate.settled_ns < gate.drain_advanced_ns := by
        simpa using lags
      simp [met, unfolded, settled, kept]
  · have unfolded := met
    simp only [alreadyMet] at unfolded
    simp [met, unfolded]

/-! ### Runs of the two threads -/

/-- A completed write as the caller knows it, with the unbounded drain count. -/
structure Write where
  screen_gen : UInt32
  drained : Nat
  end_ns : UInt64
  deriving DecidableEq, Repr

/-- A dispatched mark as the caller knows it, with the unbounded job count. -/
structure Mark where
  dispatch_ns : UInt64
  posted : Nat
  deriving DecidableEq, Repr

/-- The calls the gui and input threads make on one gate; the job counts are the
    unbounded ones, of which the gate is handed the low 32 bits. -/
inductive Call where
  | write_begin (start_ns : UInt64) (screen_gen : UInt32) (drained : Nat)
  | write_end (end_ns : UInt64)
  | input_dispatched (dispatch_ns : UInt64) (posted : Nat)
  | judge (press_ns : UInt64) (current_gen : UInt32)
  deriving DecidableEq, Repr

/-- The gate together with what its callers did: the write in flight, the
    completed writes and the marks, latest first, and the unbounded count that
    `completed_drained` stands for. -/
structure Recorded where
  gate : Gate := {}
  active : Option (UInt32 × Nat) := none
  completed : Nat := 0
  writes : List Write := []
  marks : List Mark := []
  deriving DecidableEq, Repr

/-- The gate driven by calls; only judging answers. -/
def recorded : Machine Recorded Call Verdict where
  step r
    | .write_begin start_ns screen_gen drained =>
      { r with
        gate := input_gate_write_begin r.gate start_ns screen_gen (UInt32.ofNat drained)
        active := some (screen_gen, drained) }
    | .write_end end_ns =>
      match r.active with
      | none => { r with gate := input_gate_write_end r.gate end_ns }
      | some (screen_gen, drained) =>
        { r with
          gate := input_gate_write_end r.gate end_ns
          active := none
          completed := if drainAdvances r.gate then drained else r.completed
          writes := ⟨screen_gen, drained, end_ns⟩ :: r.writes }
    | .input_dispatched dispatch_ns posted =>
      { r with
        gate := input_gate_input_dispatched r.gate dispatch_ns (UInt32.ofNat posted)
        marks := ⟨dispatch_ns, posted⟩ :: r.marks }
    | .judge _ _ => r
  out r
    | .judge press_ns current_gen => some (input_gate_judge r.gate press_ns current_gen)
    | _ => none

/-- Writes begin and end in pairs. -/
def Paired (r : Recorded) : Call → Prop
  | .write_begin _ _ _ => r.active = none
  | .write_end _ => r.active ≠ none
  | _ => True

/-- What the gate remembers of its callers, whatever the clock readings are. -/
structure Remembers (r : Recorded) : Prop where
  active : ∀ gen drained, r.active = some (gen, drained) →
    r.gate.active_gen = gen ∧ r.gate.active_drained = UInt32.ofNat drained
  fresh : r.writes = [] → r.gate.have_completed = false ∧ r.gate.have_settled = false
  completed : ∀ last ∈ r.writes.head?, r.gate.have_completed = true ∧ r.gate.have_settled = true ∧
    r.gate.completed_drained = UInt32.ofNat last.drained ∧ r.gate.last_end_ns = last.end_ns
  unmet : r.gate.have_pending = true → r.gate.have_completed = true →
    reached r.gate.completed_drained r.gate.pending_jobs = false

theorem remembers_start : Remembers {} where
  active := by simp
  fresh := by simp
  completed := by simp
  unmet := by simp

theorem remembers_step (r : Recorded) (call : Call) (inv : Remembers r) (paired : Paired r call) :
    Remembers (recorded.step r call) := by
  cases call with
  | write_begin start_ns screen_gen drained =>
    exact ⟨by simp +contextual [recorded, input_gate_write_begin], inv.fresh, inv.completed, inv.unmet⟩
  | judge press_ns current_gen => exact inv
  | input_dispatched dispatch_ns posted =>
    simp only [recorded, input_dispatched_eq]
    refine ⟨inv.active, ?_, ?_, ?_⟩
    · intro none
      obtain ⟨noCompleted, noSettled⟩ := inv.fresh none
      simp [noCompleted, noSettled, repairs, alreadyMet]
    · intro last isLast
      obtain ⟨done, settled, counts, ends⟩ := inv.completed last isLast
      exact ⟨done, by simp [settled], counts, ends⟩
    · intro pending done
      change r.gate.have_completed = true at done
      simpa [alreadyMet, done] using pending
  | write_end end_ns =>
    obtain ⟨⟨gen, drained⟩, flying⟩ := Option.ne_none_iff_exists'.mp paired
    obtain ⟨sameGen, sameDrained⟩ := inv.active gen drained flying
    -- Whether or not the drain count advanced, it is now the count of this write.
    have counted : (if drainAdvances r.gate then r.gate.active_drained else r.gate.completed_drained) =
        UInt32.ofNat drained := by
      by_cases advances : drainAdvances r.gate = true
      · simp [advances, sameDrained]
      · have same : r.gate.active_drained = r.gate.completed_drained := by
          simp_all [drainAdvances]
        simp [advances, ← same, sameDrained]
    simp only [recorded, flying, write_end_eq]
    refine ⟨by simp, by simp, ?_, ?_⟩
    · intro last isLast
      simp only [List.head?_cons, Option.mem_def, Option.some.injEq] at isLast
      subst isLast
      exact ⟨rfl, rfl, counted, rfl⟩
    · intro pending _
      rw [counted, ← sameDrained]
      simp only [Bool.and_eq_true, Bool.not_eq_true'] at pending
      simpa [meetsPending, pending.1] using pending.2

/-! ### Preview frames -/

/-- Two gates that no judgement can tell apart now or later: they differ at most
    in the bookkeeping of the last write, while no write is in flight. -/
structure Alike (r t : Recorded) : Prop where
  active : r.active = t.active
  inFlight : ∀ gen drained, r.active = some (gen, drained) →
    r.gate.active_gen = t.gate.active_gen ∧ r.gate.active_drained = t.gate.active_drained
  pending : r.gate.pending_jobs = t.gate.pending_jobs ∧ r.gate.pending_since_ns = t.gate.pending_since_ns ∧
    r.gate.have_pending = t.gate.have_pending
  completed : r.gate.completed_drained = t.gate.completed_drained ∧
    r.gate.drain_advanced_ns = t.gate.drain_advanced_ns ∧ r.gate.drain_advanced_gen = t.gate.drain_advanced_gen ∧
    r.gate.have_completed = t.gate.have_completed
  settled : r.gate.settled_ns = t.gate.settled_ns ∧ r.gate.settled_gen = t.gate.settled_gen ∧
    r.gate.have_settled = t.gate.have_settled
  usable : r.gate.last_end_ns = UINT64_MAX ↔ t.gate.last_end_ns = UINT64_MAX

theorem Alike.refl (r : Recorded) : Alike r r :=
  ⟨rfl, fun _ _ _ => ⟨rfl, rfl⟩, ⟨rfl, rfl, rfl⟩, ⟨rfl, rfl, rfl, rfl⟩, ⟨rfl, rfl, rfl⟩, Iff.rfl⟩

theorem alike_out (r t : Recorded) (call : Call) (alike : Alike r t) : recorded.out r call = recorded.out t call := by
  cases call with
  | judge press_ns current_gen =>
    obtain ⟨-, since, pending⟩ := alike.pending
    obtain ⟨settledNs, settledGen, settled⟩ := alike.settled
    simp [recorded, input_gate_judge, since, pending, settledNs, settledGen, settled, alike.usable]
  | _ => rfl

theorem alike_step (r t : Recorded) (call : Call) (alike : Alike r t) (paired : Paired r call) :
    Alike (recorded.step r call) (recorded.step t call) := by
  obtain ⟨jobs, since, pending⟩ := alike.pending
  obtain ⟨counts, advancedNs, advancedGen, done⟩ := alike.completed
  obtain ⟨settledNs, settledGen, settled⟩ := alike.settled
  cases call with
  | write_begin start_ns screen_gen drained =>
    exact ⟨rfl, fun _ _ _ => ⟨rfl, rfl⟩, alike.pending, alike.completed, alike.settled, alike.usable⟩
  | judge press_ns current_gen => exact alike
  | input_dispatched dispatch_ns posted =>
    have met : alreadyMet r.gate (UInt32.ofNat posted) = alreadyMet t.gate (UInt32.ofNat posted) := by
      simp [alreadyMet, counts, done]
    have lags : repairs r.gate (UInt32.ofNat posted) = repairs t.gate (UInt32.ofNat posted) := by
      simp [repairs, met, settled, settledNs, advancedNs]
    simp only [recorded, input_dispatched_eq]
    exact ⟨alike.active, alike.inFlight, ⟨rfl, rfl, by simp [met]⟩, alike.completed,
      ⟨by simp [lags, advancedNs, settledNs], by simp [lags, advancedGen, settledGen], by simp [lags, settled]⟩,
      alike.usable⟩
  | write_end end_ns =>
    obtain ⟨⟨gen, drained⟩, flying⟩ := Option.ne_none_iff_exists'.mp paired
    have flying' : t.active = some (gen, drained) := alike.active ▸ flying
    obtain ⟨sameGen, sameDrained⟩ := alike.inFlight gen drained flying
    have advances : drainAdvances r.gate = drainAdvances t.gate := by
      simp [drainAdvances, done, sameDrained, counts]
    have meets : meetsPending r.gate = meetsPending t.gate := by
      simp [meetsPending, pending, sameDrained, jobs]
    have other : newScreen r.gate = newScreen t.gate := by
      simp [newScreen, settled, sameGen, settledGen]
    simp only [recorded, flying, flying', write_end_eq]
    exact ⟨rfl, by simp, ⟨jobs, since, by simp [pending, meets]⟩,
      ⟨by simp [advances, sameDrained, counts], by simp [advances, advancedNs],
        by simp [advances, sameGen, advancedGen], rfl⟩,
      ⟨by simp [meets, other, settledNs], by simp [meets, other, sameGen, settledGen], rfl⟩, Iff.rfl⟩

/-- The two calls of a write that carries the given screen and drain count. -/
def frame (screen_gen : UInt32) (drained : Nat) (times : UInt64 × UInt64) : List Call :=
  [.write_begin times.1 screen_gen drained, .write_end times.2]

/-- One preview frame changes nothing a judgement can see. -/
theorem alike_frame (r : Recorded) (inv : Remembers r) (idle : r.active = none) {last : Write}
    (isLast : last ∈ r.writes.head?) (usable : last.end_ns ≠ UINT64_MAX) (times : UInt64 × UInt64)
    (reading : times.2 ≠ UINT64_MAX) :
    Alike r (recorded.final r (frame r.gate.settled_gen last.drained times)) := by
  obtain ⟨done, settled, counts, ends⟩ := inv.completed last isLast
  have unmet := inv.unmet
  rw [counts] at unmet
  -- The frame drains nothing new, meets no mark and carries the settled screen.
  have quiet : (r.gate.have_pending && reached (UInt32.ofNat last.drained) r.gate.pending_jobs) = false := by
    cases pending : r.gate.have_pending with
    | false => rfl
    | true => simpa using unmet pending done
  simp only [frame, Machine.final_cons, Machine.final_nil, recorded, input_gate_write_begin, write_end_eq]
  refine ⟨idle, by simp [idle], ⟨rfl, rfl, ?_⟩, ⟨?_, ?_, ?_, done⟩, ⟨?_, ?_, settled⟩, ?_⟩
  · simp [meetsPending, quiet]
  · simp [drainAdvances, done, counts]
  · simp [drainAdvances, done, counts]
  · simp [drainAdvances, done, counts]
  · simp [meetsPending, quiet, newScreen, settled]
  · simp
  · simp [ends, usable, reading]

/-- A clock reading that did not fail. -/
def Usable : Call → Prop
  | .write_end end_ns => end_ns ≠ UINT64_MAX
  | _ => True

theorem usable_writes {r : Recorded} {calls : List Call}
    (along : recorded.Along (fun r call => Paired r call ∧ Usable call) r calls)
    (start : ∀ write ∈ r.writes, write.end_ns ≠ UINT64_MAX) :
    ∀ write ∈ (recorded.final r calls).writes, write.end_ns ≠ UINT64_MAX := by
  refine recorded.final_invariant (I := fun r => ∀ write ∈ r.writes, write.end_ns ≠ UINT64_MAX) ?_ start along
  rintro r call all ⟨paired, usable⟩
  cases call with
  | write_end end_ns =>
    obtain ⟨⟨gen, drained⟩, flying⟩ := Option.ne_none_iff_exists'.mp paired
    simp only [recorded, flying]
    intro write member
    rcases List.mem_cons.mp member with rfl | earlier
    · exact usable
    · exact all write earlier
  | _ => exact all

theorem Alike.trans {r s t : Recorded} (first : Alike r s) (second : Alike s t) : Alike r t where
  active := first.active.trans second.active
  inFlight gen drained flying := by
    obtain ⟨sameGen, sameDrained⟩ := first.inFlight gen drained flying
    obtain ⟨sameGen', sameDrained'⟩ := second.inFlight gen drained (first.active ▸ flying)
    exact ⟨sameGen.trans sameGen', sameDrained.trans sameDrained'⟩
  pending := by rw [first.pending.1, first.pending.2.1, first.pending.2.2]; exact second.pending
  completed := by
    rw [first.completed.1, first.completed.2.1, first.completed.2.2.1, first.completed.2.2.2]; exact second.completed
  settled := by rw [first.settled.1, first.settled.2.1, first.settled.2.2]; exact second.settled
  usable := first.usable.trans second.usable

theorem alike_frames (previews : List (UInt64 × UInt64)) :
    ∀ (r : Recorded), Remembers r → r.active = none → ∀ last ∈ r.writes.head?, last.end_ns ≠ UINT64_MAX →
      (∀ times ∈ previews, times.2 ≠ UINT64_MAX) →
      Alike r (recorded.final r (previews.flatMap (frame r.gate.settled_gen last.drained))) := by
  induction previews with
  | nil => intro r _ _ _ _ _ _; exact Alike.refl r
  | cons times previews ih =>
    intro r inv idle last isLast usable readings
    have reading := readings times List.mem_cons_self
    have first := alike_frame r inv idle isLast usable times reading
    -- The next preview repeats the write just inserted, which repeats the last one.
    have again := ih (recorded.final r (frame r.gate.settled_gen last.drained times))
      (recorded.final_invariant remembers_step inv (by simp [frame, Paired, recorded, idle]))
      (first.active ▸ idle) ⟨r.gate.settled_gen, last.drained, times.2⟩ (by simp [frame, recorded]) reading
      (fun other member => readings other (List.mem_cons_of_mem _ member))
    rw [← first.settled.2.1] at again
    rw [List.flatMap_cons, Machine.final_append]
    exact first.trans again

/-- Preview frames cost nothing. From any state reached by paired writes with
    usable clock readings, between two writes, inserting any number of completed
    writes that carry the settled screen and the drain count of the last completed
    write changes no later verdict, whatever the continuation. -/
theorem preview_frames_cost_nothing (front rest : List Call) (previews : List (UInt64 × UInt64)) (last : Write)
    (reachedBy : recorded.Along (fun r call => Paired r call ∧ Usable call) {} front)
    (idle : (recorded.final {} front).active = none)
    (isLast : last ∈ (recorded.final {} front).writes.head?)
    (readings : ∀ times ∈ previews, times.2 ≠ UINT64_MAX)
    (continued : recorded.Along Paired (recorded.final {} front) rest) :
    recorded.outputs (recorded.final {} (front ++
        previews.flatMap (frame (recorded.final {} front).gate.settled_gen last.drained))) rest =
      recorded.outputs (recorded.final {} front) rest := by
  have inv : Remembers (recorded.final {} front) :=
    recorded.final_invariant (fun r call inv admitted => remembers_step r call inv admitted.1) remembers_start
      reachedBy
  have usable : last.end_ns ≠ UINT64_MAX :=
    usable_writes reachedBy (by simp) last (List.mem_of_mem_head? isLast)
  have alike := alike_frames previews _ inv idle last isLast usable readings
  rw [Machine.final_append]
  exact (recorded.outputs_eq_of_sim alike_step (fun r t call related _ => alike_out r t call related) alike
    continued).symm

/-- A camera frame between the frame the user read and the press does not cost the press. -/
theorem preview_frames_cost_nothing_camera :
    recorded.outputs (recorded.final {} ([.write_begin 10 7 5, .write_end 45] ++
        [(60, 95), (110, 145)].flatMap (frame 7 5))) [.judge 50 7] = [.allow] :=
  (preview_frames_cost_nothing [.write_begin 10 7 5, .write_end 45] [.judge 50 7] [(60, 95), (110, 145)] ⟨7, 5, 45⟩
    ⟨⟨rfl, trivial⟩, ⟨Option.some_ne_none _, by simp [Usable, UINT64_MAX]⟩, trivial⟩ rfl rfl
    (by simp [UINT64_MAX]) ⟨trivial, trivial⟩).trans (by decide)

/-! ### Press to panel -/

/-- The assumptions on the callers: writes come in pairs with usable, nondecreasing
    end times; drain counts and marks are nondecreasing; and a mark and a drain
    count that the gate compares differ by less than 2^31. -/
def Admitted (r : Recorded) : Call → Prop
  | .write_begin _ _ drained => r.active = none ∧ ∀ last ∈ r.writes.head?, last.drained ≤ drained
  | .write_end end_ns => ∃ carried ∈ r.active, end_ns ≠ UINT64_MAX ∧
      (∀ last ∈ r.writes.head?, last.end_ns ≤ end_ns) ∧
      (r.gate.have_pending = true → ∀ mark ∈ r.marks.head?,
        carried.2 < mark.posted + 2 ^ 31 ∧ mark.posted < carried.2 + 2 ^ 31)
  | .input_dispatched _ posted => (∀ mark ∈ r.marks.head?, mark.posted ≤ posted) ∧
      (r.gate.have_completed = true → r.completed < posted + 2 ^ 31 ∧ posted < r.completed + 2 ^ 31)
  | .judge _ _ => True

/-- The dispatch time of a mark leaves room for the settle timeout below 2^64 ns. -/
def ClockFits : Call → Prop
  | .input_dispatched dispatch_ns _ => dispatch_ns.toNat + INPUT_GATE_SETTLE_TIMEOUT_NS.toNat < 2 ^ 64
  | _ => True

/-- The completed writes of the current unbroken run that carries a screen, latest first. -/
def currentRun (screen_gen : UInt32) (writes : List Write) : List Write :=
  writes.takeWhile (fun write => write.screen_gen == screen_gen)

theorem currentRun_goes_on {writes : List Write} {screen_gen : UInt32} {drained : Nat} {end_ns : UInt64}
    {first : Write} (isFirst : first ∈ (currentRun screen_gen writes).getLast?) :
    first ∈ (currentRun screen_gen (⟨screen_gen, drained, end_ns⟩ :: writes)).getLast? := by
  have any : currentRun screen_gen writes ≠ [] := by
    intro none
    simp [none] at isFirst
  have cons : currentRun screen_gen (⟨screen_gen, drained, end_ns⟩ :: writes) =
      ⟨screen_gen, drained, end_ns⟩ :: currentRun screen_gen writes := by simp [currentRun]
  rw [cons, List.getLast?_cons]
  simpa [List.getLast?_eq_some_getLast any] using isFirst

theorem currentRun_starts {writes : List Write} {screen_gen : UInt32} {drained : Nat} {end_ns : UInt64}
    (other : ∀ last ∈ writes.head?, last.screen_gen ≠ screen_gen) :
    currentRun screen_gen (⟨screen_gen, drained, end_ns⟩ :: writes) = [⟨screen_gen, drained, end_ns⟩] := by
  cases writes with
  | nil => simp [currentRun]
  | cons last earlier => simp [currentRun, other last (by simp)]

/-- The press is not older than the first frame of the screen it acts on. -/
def ScreenShown (r : Recorded) (press_ns : UInt64) (current_gen : UInt32) : Prop :=
  (∃ last ∈ r.writes.head?, last.screen_gen = current_gen) ∧
    ∃ first ∈ (currentRun current_gen r.writes).getLast?, first.end_ns ≤ press_ns

/-- The work of the latest dispatched press had reached the panel, or a full
    second has passed since its dispatch. -/
def MarkShown (r : Recorded) (press_ns : UInt64) : Prop :=
  ∀ mark ∈ r.marks.head?, (∃ write ∈ r.writes, mark.posted ≤ write.drained ∧ write.end_ns ≤ press_ns) ∨
    mark.dispatch_ns.toNat + 10 ^ 9 ≤ press_ns.toNat

/-- What the gate's times and counts stand for, under the callers' assumptions. -/
structure Tracks (r : Recorded) : Prop where
  remembers : Remembers r
  screen : ∀ last ∈ r.writes.head?, r.gate.settled_gen = last.screen_gen ∧ r.gate.settled_ns ≤ last.end_ns ∧
    r.gate.drain_advanced_ns ≤ last.end_ns
  since : r.writes ≠ [] → ∃ first ∈ (currentRun r.gate.settled_gen r.writes).getLast?,
    first.end_ns ≤ r.gate.settled_ns
  lagging : r.gate.settled_ns < r.gate.drain_advanced_ns → r.gate.drain_advanced_gen = r.gate.settled_gen
  counted : r.gate.have_completed = true → r.gate.completed_drained = UInt32.ofNat r.completed ∧
    ∃ write ∈ r.writes, write.drained = r.completed ∧ write.end_ns = r.gate.drain_advanced_ns
  waiting : r.gate.have_pending = true → ∃ mark ∈ r.marks.head?,
    r.gate.pending_jobs = UInt32.ofNat mark.posted ∧ r.gate.pending_since_ns = mark.dispatch_ns
  met : r.gate.have_pending = false → ∀ mark ∈ r.marks.head?,
    ∃ write ∈ r.writes, mark.posted ≤ write.drained ∧ write.end_ns ≤ r.gate.settled_ns

theorem tracks_start : Tracks {} where
  remembers := remembers_start
  screen := by simp
  since := by simp
  lagging := by simp
  counted := by simp
  waiting := by simp
  met := by simp

theorem paired_of_admitted {r : Recorded} {call : Call} (admitted : Admitted r call) : Paired r call := by
  cases call with
  | write_begin start_ns screen_gen drained => exact admitted.1
  | write_end end_ns =>
    obtain ⟨carried, flying, -⟩ := admitted
    simp only [Option.mem_def] at flying
    simp [Paired, flying]
  | _ => trivial

/-- A frame that completed has settled some screen. -/
theorem settled_of_completed {r : Recorded} (inv : Remembers r) (done : r.gate.have_completed = true) :
    r.gate.have_settled = true ∧ ∃ last, last ∈ r.writes.head? := by
  cases shown : r.writes with
  | nil => simp [(inv.fresh shown).1] at done
  | cons last earlier =>
    have isLast : last ∈ r.writes.head? := by simp [shown]
    exact ⟨(inv.completed last isLast).2.1, last, by simp⟩

/-- A mark that is met on arrival was met by the last write that drained something new. -/
theorem write_of_alreadyMet {r : Recorded} {dispatch_ns : UInt64} {posted : Nat} (inv : Tracks r)
    (admitted : Admitted r (.input_dispatched dispatch_ns posted))
    (met : alreadyMet r.gate (UInt32.ofNat posted) = true) :
    ∃ write ∈ r.writes, posted ≤ write.drained ∧ write.end_ns = r.gate.drain_advanced_ns := by
  simp only [alreadyMet, Bool.and_eq_true] at met
  obtain ⟨done, carried⟩ := met
  obtain ⟨counts, write, shown, drained, ended⟩ := inv.counted done
  obtain ⟨below, above⟩ := admitted.2 done
  refine ⟨write, shown, ?_, ended⟩
  rw [drained]
  exact (reached_iff below above).mp (counts ▸ carried)

private theorem tracks_dispatched (r : Recorded) (dispatch_ns : UInt64) (posted : Nat) (inv : Tracks r)
    (admitted : Admitted r (.input_dispatched dispatch_ns posted)) :
    Tracks (recorded.step r (.input_dispatched dispatch_ns posted)) := by
  have remembers := remembers_step r _ inv.remembers (paired_of_admitted admitted)
  simp only [recorded, input_dispatched_eq] at remembers ⊢
  by_cases met : alreadyMet r.gate (UInt32.ofNat posted) = true
  · obtain ⟨write, shown, drained, ended⟩ := write_of_alreadyMet inv admitted met
    have settled := (settled_of_completed inv.remembers (Bool.and_eq_true _ _ ▸ met).1).1
    by_cases lags : r.gate.settled_ns < r.gate.drain_advanced_ns
    · -- The settle point moves to a later write of the same screen.
      have repaired : repairs r.gate (UInt32.ofNat posted) = true := by simp [repairs, met, lags]
      have sameGen := inv.lagging lags
      simp only [met, repaired, ↓reduceIte, sameGen] at remembers ⊢
      refine ⟨remembers, ?_, ?_, by simp, inv.counted, by simp, ?_⟩
      · intro last isLast
        obtain ⟨gen, -, advanced⟩ := inv.screen last isLast
        exact ⟨gen, advanced, advanced⟩
      · intro any
        obtain ⟨first, isFirst, early⟩ := inv.since any
        exact ⟨first, isFirst, UInt64.le_trans early (UInt64.le_of_lt lags)⟩
      · simpa using ⟨write, shown, drained, by simp [ended]⟩
    · have kept : repairs r.gate (UInt32.ofNat posted) = false := by simp [repairs, settled, lags]
      simp only [met, kept, Bool.false_eq_true, ↓reduceIte] at remembers ⊢
      refine ⟨remembers, inv.screen, inv.since, inv.lagging, inv.counted, by simp, ?_⟩
      simpa using ⟨write, shown, drained, by simpa [ended] using lags⟩
  · have kept : repairs r.gate (UInt32.ofNat posted) = false := by simp [repairs, met]
    simp only [met, kept, Bool.false_eq_true, ↓reduceIte] at remembers ⊢
    exact ⟨remembers, inv.screen, inv.since, inv.lagging, inv.counted, by simp, by simp⟩

/-- No remembered time is after a write that ends in order. -/
theorem Tracks.not_after {r : Recorded} (inv : Tracks r) {end_ns : UInt64}
    (later : ∀ last ∈ r.writes.head?, last.end_ns ≤ end_ns) (any : r.writes ≠ []) :
    r.gate.settled_ns ≤ end_ns ∧ r.gate.drain_advanced_ns ≤ end_ns := by
  obtain ⟨last, earlier, shown⟩ := List.exists_cons_of_ne_nil any
  have isLast : last ∈ r.writes.head? := by simp [shown]
  obtain ⟨-, settledAt, advancedAt⟩ := inv.screen last isLast
  exact ⟨UInt64.le_trans settledAt (later last isLast), UInt64.le_trans advancedAt (later last isLast)⟩

/-- A write that settles nothing repeats the settled screen. -/
theorem Tracks.repeats {r : Recorded} (inv : Tracks r) (quiet : (meetsPending r.gate || newScreen r.gate) = false) :
    r.gate.settled_gen = r.gate.active_gen ∧ r.writes ≠ [] := by
  simp only [newScreen, Bool.or_eq_false_iff, Bool.not_eq_false', bne_eq_false_iff_eq] at quiet
  refine ⟨quiet.2.2.symm, fun none => ?_⟩
  simp [(inv.remembers.fresh none).2] at quiet

/-- The run of the settled screen after a write: it goes on, or it starts with this
    write, which then settles. -/
theorem Tracks.run_after {r : Recorded} (inv : Tracks r) (drained : Nat) {end_ns : UInt64}
    (later : ∀ last ∈ r.writes.head?, last.end_ns ≤ end_ns) :
    ∃ first ∈ (currentRun r.gate.active_gen (⟨r.gate.active_gen, drained, end_ns⟩ :: r.writes)).getLast?,
      first.end_ns ≤ if meetsPending r.gate || newScreen r.gate then end_ns else r.gate.settled_ns := by
  by_cases same : r.writes ≠ [] ∧ r.gate.settled_gen = r.gate.active_gen
  · obtain ⟨first, isFirst, early⟩ := inv.since same.1
    rw [same.2] at isFirst
    refine ⟨first, currentRun_goes_on isFirst, UInt64.le_trans early ?_⟩
    split
    · exact (inv.not_after later same.1).1
    · exact UInt64.le_refl _
  · have other : ∀ last ∈ r.writes.head?, last.screen_gen ≠ r.gate.active_gen := by
      intro last isLast sameScreen
      exact same ⟨List.ne_nil_of_mem (List.mem_of_mem_head? isLast), (inv.screen last isLast).1.trans sameScreen⟩
    have settles : (meetsPending r.gate || newScreen r.gate) = true := by
      by_contra quiet
      obtain ⟨sameScreen, any⟩ := inv.repeats (Bool.eq_false_iff.mpr quiet)
      exact same ⟨any, sameScreen⟩
    refine ⟨⟨r.gate.active_gen, drained, end_ns⟩, by simp [currentRun_starts other], ?_⟩
    rw [if_pos settles]
    exact UInt64.le_refl _

/-- A write that meets the pending mark has drained at least as far. -/
theorem Tracks.meets {r : Recorded} (inv : Tracks r) {drained : Nat}
    (sameDrained : r.gate.active_drained = UInt32.ofNat drained) (pending : r.gate.have_pending = true)
    (window : ∀ mark ∈ r.marks.head?, drained < mark.posted + 2 ^ 31 ∧ mark.posted < drained + 2 ^ 31)
    (meets : meetsPending r.gate = true) {mark : Mark} (isLatest : mark ∈ r.marks.head?) : mark.posted ≤ drained := by
  obtain ⟨latest, isLatest', jobs, -⟩ := inv.waiting pending
  obtain rfl : latest = mark := Option.mem_unique isLatest' isLatest
  obtain ⟨below, above⟩ := window latest isLatest
  simp only [meetsPending, Bool.and_eq_true, sameDrained, jobs] at meets
  exact (reached_iff below above).mp meets.2

private theorem tracks_write_end (r : Recorded) (end_ns : UInt64) (inv : Tracks r)
    (admitted : Admitted r (.write_end end_ns)) : Tracks (recorded.step r (.write_end end_ns)) := by
  have remembers := remembers_step r _ inv.remembers (paired_of_admitted admitted)
  obtain ⟨⟨gen, drained⟩, flying, -, later, window⟩ := admitted
  simp only [Option.mem_def] at flying
  obtain ⟨rfl, sameDrained⟩ := inv.remembers.active gen drained flying
  have runs := inv.run_after drained later
  have repeats := inv.repeats
  simp only [recorded, flying, write_end_eq] at remembers ⊢
  generalize settles_eq : (meetsPending r.gate || newScreen r.gate) = settles at remembers runs repeats ⊢
  have newGen : (if settles then r.gate.active_gen else r.gate.settled_gen) = r.gate.active_gen := by
    cases settles with
    | true => rfl
    | false => exact (repeats rfl).1
  have newTime : (if settles then end_ns else r.gate.settled_ns) ≤ end_ns := by
    cases settles with
    | true => exact UInt64.le_refl _
    | false => exact (inv.not_after later (repeats rfl).2).1
  have advancedTime : (if drainAdvances r.gate then end_ns else r.gate.drain_advanced_ns) ≤ end_ns := by
    cases advances : drainAdvances r.gate with
    | true => exact UInt64.le_refl _
    | false =>
      refine (inv.not_after later fun none => ?_).2
      simp [drainAdvances, (inv.remembers.fresh none).1] at advances
  refine ⟨remembers, ?_, ?_, ?_, ?_, ?_, ?_⟩
  · intro last isLast
    simp only [List.head?_cons, Option.mem_def, Option.some.injEq] at isLast
    subst isLast
    exact ⟨newGen, newTime, advancedTime⟩
  · intro _
    simp only [newGen]
    exact runs
  · intro lags
    cases settles with
    | true => exact absurd lags (UInt64.not_lt.mpr advancedTime)
    | false =>
      cases advances : drainAdvances r.gate with
      | true => exact (repeats rfl).1.symm
      | false =>
        simp only [advances, Bool.false_eq_true, ↓reduceIte] at lags ⊢
        exact inv.lagging lags
  · intro _
    cases advances : drainAdvances r.gate with
    | true => simp [sameDrained]
    | false =>
      have done : r.gate.have_completed = true := by
        simp only [drainAdvances, Bool.or_eq_false_iff, Bool.not_eq_false'] at advances
        exact advances.1
      obtain ⟨counts, write, shown, same, ended⟩ := inv.counted done
      simpa using ⟨counts, Or.inr ⟨write, shown, same, ended⟩⟩
  · intro pending
    simp only [Bool.and_eq_true] at pending
    exact inv.waiting pending.1
  · intro notPending mark isLatest
    cases pending : r.gate.have_pending with
    | false =>
      obtain ⟨write, shown, carries, ended⟩ := inv.met pending mark isLatest
      refine ⟨write, List.mem_cons_of_mem _ shown, carries, UInt64.le_trans ended ?_⟩
      simp only
      split
      · exact (inv.not_after later (List.ne_nil_of_mem shown)).1
      · exact UInt64.le_refl _
    | true =>
      have meets : meetsPending r.gate = true := by simpa [pending] using notPending
      refine ⟨⟨r.gate.active_gen, drained, end_ns⟩, List.mem_cons_self,
        inv.meets sameDrained pending (window pending) meets isLatest, ?_⟩
      simp [← settles_eq, meets]

theorem tracks_step (r : Recorded) (call : Call) (inv : Tracks r) (admitted : Admitted r call) :
    Tracks (recorded.step r call) := by
  cases call with
  | write_begin start_ns screen_gen drained =>
    exact ⟨remembers_step r _ inv.remembers (paired_of_admitted admitted), inv.screen, inv.since, inv.lagging,
      inv.counted, inv.waiting, inv.met⟩
  | judge press_ns current_gen => exact inv
  | input_dispatched dispatch_ns posted => exact tracks_dispatched r dispatch_ns posted inv admitted
  | write_end end_ns => exact tracks_write_end r end_ns inv admitted

/-- The start of the settle window of every mark leaves room for the timeout. -/
def MarksFit (r : Recorded) : Prop :=
  ∀ mark ∈ r.marks, mark.dispatch_ns.toNat + INPUT_GATE_SETTLE_TIMEOUT_NS.toNat < 2 ^ 64

theorem marksFit_step (r : Recorded) (call : Call) (inv : MarksFit r) (fits : ClockFits call) :
    MarksFit (recorded.step r call) := by
  cases call with
  | write_end end_ns => cases flying : r.active <;> simpa [recorded, flying, MarksFit] using inv
  | input_dispatched dispatch_ns posted =>
    intro mark member
    rcases List.mem_cons.mp member with rfl | earlier
    · exact fits
    · exact inv mark earlier
  | _ => exact inv

/-- A press that acts is only let through when the panel showed what it acts on:
    the last completed write carries the screen the press is aimed at and the run
    of that screen began at or before the press, and the work of the latest
    dispatched press was on the panel by then or a full second has passed. -/
theorem allowed_press_saw_panel (calls : List Call) (press_ns : UInt64) (current_gen : UInt32)
    (along : recorded.Along (fun r call => Admitted r call ∧ ClockFits call) {} calls)
    (allowed : input_gate_judge (recorded.final {} calls).gate press_ns current_gen = .allow) :
    ScreenShown (recorded.final {} calls) press_ns current_gen ∧ MarkShown (recorded.final {} calls) press_ns := by
  have tracks : Tracks (recorded.final {} calls) :=
    recorded.final_invariant (fun r call inv admitted => tracks_step r call inv admitted.1) tracks_start along
  have fits : MarksFit (recorded.final {} calls) :=
    recorded.final_invariant (fun r call inv admitted => marksFit_step r call inv admitted.2) (by simp [MarksFit])
      along
  generalize recorded.final {} calls = r at *
  obtain ⟨-, settled, notOlder, waited, sameGen⟩ := (judge_allow_iff ..).mp allowed
  have any : r.writes ≠ [] := fun none => by simp [(tracks.remembers.fresh none).2] at settled
  constructor
  · obtain ⟨last, earlier, shown⟩ := List.exists_cons_of_ne_nil any
    have isLast : last ∈ r.writes.head? := by simp [shown]
    obtain ⟨first, isFirst, early⟩ := tracks.since any
    rw [sameGen]
    exact ⟨⟨last, isLast, (tracks.screen last isLast).1.symm⟩, first, isFirst, UInt64.le_trans early notOlder⟩
  · intro mark isLatest
    cases pending : r.gate.have_pending with
    | false =>
      obtain ⟨write, shown, carries, ended⟩ := tracks.met pending mark isLatest
      exact .inl ⟨write, shown, carries, UInt64.le_trans ended notOlder⟩
    | true =>
      obtain ⟨latest, isLatest', -, since⟩ := tracks.waiting pending
      obtain rfl : latest = mark := Option.mem_unique isLatest' isLatest
      right
      have room := fits latest (List.mem_of_mem_head? isLatest)
      have timeout := UInt64.le_iff_toNat_le.mp (waited pending)
      rw [since, UInt64.toNat_add, Nat.mod_eq_of_lt room] at timeout
      exact timeout

/-- A mark published after the frame that carries it, and a press once that frame is up. -/
theorem allowed_press_saw_panel_late_mark :
    input_gate_judge (recorded.final {} [.write_begin 10 7 5, .write_end 45, .input_dispatched 50 5]).gate 60 7 =
        .allow ∧
      ScreenShown (recorded.final {} [.write_begin 10 7 5, .write_end 45, .input_dispatched 50 5]) 60 7 ∧
      MarkShown (recorded.final {} [.write_begin 10 7 5, .write_end 45, .input_dispatched 50 5]) 60 :=
  ⟨by decide, allowed_press_saw_panel [.write_begin 10 7 5, .write_end 45, .input_dispatched 50 5] 60 7
    (by simp [Admitted, ClockFits, recorded, input_gate_write_begin, input_gate_write_end, UINT64_MAX,
      INPUT_GATE_SETTLE_TIMEOUT_NS, drainAdvances]) (by decide)⟩

/-- Within a second of 2^64 ns the deadline of a mark wraps, and a press ten
    nanoseconds after the dispatch is let through although no write has carried the mark. -/
theorem deadline_wraps :
    recorded.Along Admitted {} [.write_begin 18446744072709551560 7 0, .write_end 18446744072709551600,
        .input_dispatched 18446744072709551616 1] ∧
      input_gate_judge (recorded.final {} [.write_begin 18446744072709551560 7 0, .write_end 18446744072709551600,
        .input_dispatched 18446744072709551616 1]).gate 18446744072709551626 7 = .allow ∧
      ¬ MarkShown (recorded.final {} [.write_begin 18446744072709551560 7 0, .write_end 18446744072709551600,
        .input_dispatched 18446744072709551616 1]) 18446744072709551626 := by
  refine ⟨?_, by decide, ?_⟩
  · simp [Admitted, recorded, input_gate_write_begin, input_gate_write_end, UINT64_MAX, drainAdvances]
  · simp [MarkShown, recorded]

end PiJade.InputGate
