import PiJade.SettingsStore

/-!
Runs of the settings store: a process opens the store, reads, writes, erases and
closes it, its system calls fail or it dies, and a later process opens the same two
files again. A call that the process does not survive is a failed call followed by
`opened`. What a run keeps is stated against the history of write attempts: what a
later boot reads back, which slot the next write takes, and how the sequence numbers
of the two slots compare.
-/
namespace PiJade.SettingsRuns
open SettingsStore
set_option linter.unusedSimpArgs false

/-- One call of `settings_store_write`: its payload, the slot it aimed at, the
    sequence number it drew, and what it returned. -/
structure Attempt where
  data : Bytes
  slot : Slot
  seq : UInt32
  returned : Bool
  deriving DecidableEq, Repr

/-- The two files, the handle if one is open, whether it has been read since it was
    opened, and the writes attempted so far, oldest first. -/
structure World where
  disk : Disk := fun _ => none
  store : Option Store := none
  loaded : Bool := false
  history : List Attempt := []

/-- The calls on the store; `opened false` is an open that finds no memory. -/
inductive Event where
  | opened (allocated : Bool)
  | closed
  | read (fault_a fault_b : Option ReadFault)
  | write (data : Bytes) (calls : WriteCalls)
  | erase (calls : EraseAllCalls)
  deriving DecidableEq, Repr

/-- What a call returns. -/
inductive Reply where
  | read (data : Option Bytes)
  | wrote (ok : Bool)
  | erased (ok : Bool)
  deriving DecidableEq, Repr

section
variable (crc32 : Bytes → UInt32)

/-- The store driven by its callers. -/
def runs : Machine World Event Reply where
  step w
    | .opened allocated =>
      { w with store := if allocated then some settings_store_open else none, loaded := false }
    | .closed => { w with store := none, loaded := false }
    | .read fault_a fault_b =>
      match w.store with
      | none => w
      | some store =>
        { w with store := some (settings_store_read crc32 w.disk store fault_a fault_b).2, loaded := true }
    | .write data calls =>
      match w.store with
      | none => w
      | some store =>
        let (returned, after, disk) := settings_store_write crc32 w.disk store data calls
        { w with
          disk := disk
          store := some after
          history := w.history ++ [⟨data, store.next_slot, after.newest_seq, returned⟩] }
    | .erase calls =>
      match w.store with
      | none => w
      | some store =>
        let (_, after, disk) := settings_store_erase w.disk store calls
        { w with disk := disk, store := some after }
  out w
    | .read fault_a fault_b => w.store.map fun store =>
      .read (settings_store_read crc32 w.disk store fault_a fault_b).1
    | .write data calls => w.store.map fun store => .wrote (settings_store_write crc32 w.disk store data calls).1
    | .erase calls => w.store.map fun store => .erased (settings_store_erase w.disk store calls).1
    | _ => none

/-- What a boot reads from the files: a fresh handle and no failing call. -/
def reread (disk : Disk) : Option Bytes := (settings_store_read crc32 disk settings_store_open none none).1

theorem reread_eq (disk : Disk) : reread crc32 disk =
    (winner (read_slot crc32 (disk .a) none) (read_slot crc32 (disk .b) none)).map (·.2.data) := by
  simp only [reread, settings_store_read]
  cases winner (read_slot crc32 (disk .a) none) (read_slot crc32 (disk .b) none) <;> rfl

/-! ### Crash safety -/

/-- The runs of the crash guarantee: each open is followed by a read before the
    first write, reads and probes do not fail, payloads are of a storable size, and
    nothing is erased. How a write ends is left open. -/
def CrashRun (w : World) : Event → Prop
  | .opened _ => True
  | .closed => True
  | .read fault_a fault_b => fault_a = none ∧ fault_b = none
  | .write data calls => Storable data ∧ w.loaded = true ∧ calls.probe = true
  | .erase _ => False

/-- Which attempt, by its position in the history, each slot holds the complete frame of. -/
abbrev Held := Slot → Option (Nat × Attempt)

/-- What an open handle knows about the slots once it has been read. -/
structure HandleFits (w : World) (held : Held) (store : Store) : Prop where
  counter : ∀ slot i attempt, held slot = some (i, attempt) → attempt.seq ≤ store.newest_seq
  newest : ∀ slot, store.newest_slot = some slot → store.next_slot = slot.other ∧
    ∃ i attempt, held slot = some (i, attempt) ∧
      ∀ k earlier, w.history[k]? = some earlier → earlier.returned = true → k ≤ i
  unsaved : store.newest_slot = none → ∀ attempt ∈ w.history, attempt.returned = false

/-- The invariant of crash runs: each accepted slot holds a frame of the history,
    later attempts carry larger numbers, and no saved attempt is newer than both slots. -/
structure Consistent (w : World) (held : Held) : Prop where
  stored : ∀ slot i attempt, held slot = some (i, attempt) → w.history[i]? = some attempt ∧ attempt.slot = slot ∧
    Storable attempt.data ∧ w.disk slot = some (slot_frame crc32 attempt.seq attempt.data)
  rejected : ∀ slot, held slot = none → ∀ fault contents, read_slot crc32 (w.disk slot) fault ≠ .ok contents
  ordered : ∀ slot i j older newer, held slot = some (i, older) → held slot.other = some (j, newer) → i < j →
    older.seq < newer.seq
  saved : ∀ k attempt, w.history[k]? = some attempt → attempt.returned = true →
    ∃ slot i later, held slot = some (i, later) ∧ k ≤ i
  handle : ∀ store, w.store = some store → w.loaded = true → HandleFits w held store

theorem consistent_start : Consistent crc32 {} (fun _ => none) where
  stored := by simp
  rejected := fun _ _ _ _ => read_slot_absent crc32
  ordered := by simp
  saved := by simp
  handle := by simp

variable {crc32}

/-- A held slot is read back as its attempt. -/
theorem Consistent.read_held {w : World} {held : Held} (inv : Consistent crc32 w held) {slot : Slot} {i : Nat}
    {attempt : Attempt} (holds : held slot = some (i, attempt)) :
    read_slot crc32 (w.disk slot) none = .ok ⟨attempt.data, attempt.seq⟩ := by
  obtain ⟨-, -, storable, onDisk⟩ := inv.stored slot i attempt holds
  rw [onDisk]
  exact read_slot_frame crc32 attempt.seq storable

/-- A slot that is not held is not accepted. -/
theorem Consistent.read_empty {w : World} {held : Held} (inv : Consistent crc32 w held) {slot : Slot}
    (empty : held slot = none) : ∃ reason, read_slot crc32 (w.disk slot) none = .error reason := by
  cases outcome : read_slot crc32 (w.disk slot) none with
  | error reason => exact ⟨reason, rfl⟩
  | ok contents => exact absurd outcome (inv.rejected slot empty none contents)

/-- Two slots never hold the same attempt. -/
theorem Consistent.held_ne {w : World} {held : Held} (inv : Consistent crc32 w held) (slot : Slot) {i j : Nat}
    {x y : Attempt} (here : held slot = some (i, x)) (there : held slot.other = some (j, y)) : i ≠ j := by
  rintro rfl
  obtain ⟨atI, slotX, -⟩ := inv.stored slot i x here
  obtain ⟨atI', slotY, -⟩ := inv.stored slot.other i y there
  obtain rfl : x = y := Option.some.inj (atI.symm.trans atI')
  exact Slot.ne_other slot (slotX.symm.trans slotY)

/-- An attempt is the latest of both slots when the other slot holds none later. -/
theorem latest_of_held {held : Held} {slot : Slot} {i : Nat} {x : Attempt} (here : held slot = some (i, x))
    (there : ∀ j y, held slot.other = some (j, y) → j ≤ i ∧ y.seq ≤ x.seq) :
    ∀ slot' j y, held slot' = some (j, y) → j ≤ i ∧ y.seq ≤ x.seq := by
  intro slot' j y holds
  rcases Slot.eq_or_other slot' slot with rfl | rfl
  · obtain ⟨rfl, rfl⟩ : i = j ∧ x = y := by simpa [here] using holds
    exact ⟨le_refl i, UInt32.le_refl _⟩
  · exact there j y holds

/-- The slot a read decides for holds the latest attempt that either slot holds. -/
theorem Consistent.winner_latest {w : World} {held : Held} (inv : Consistent crc32 w held) :
    match winner (read_slot crc32 (w.disk .a) none) (read_slot crc32 (w.disk .b) none) with
    | none => ∀ slot, held slot = none
    | some (slot, contents) => ∃ i attempt, held slot = some (i, attempt) ∧
        contents = ⟨attempt.data, attempt.seq⟩ ∧
        ∀ slot' j other, held slot' = some (j, other) → j ≤ i ∧ other.seq ≤ attempt.seq := by
  cases atA : held .a with
  | none =>
    obtain ⟨reasonA, readA⟩ := inv.read_empty atA
    cases atB : held .b with
    | none =>
      obtain ⟨reasonB, readB⟩ := inv.read_empty atB
      simp only [readA, readB, winner]
      rintro (_ | _) <;> assumption
    | some pair =>
      obtain ⟨j, y⟩ := pair
      simp only [readA, inv.read_held atB, winner]
      exact ⟨j, y, atB, rfl, latest_of_held atB (by simp [Slot.other, atA])⟩
  | some pair =>
    obtain ⟨i, x⟩ := pair
    cases atB : held .b with
    | none =>
      obtain ⟨reasonB, readB⟩ := inv.read_empty atB
      simp only [inv.read_held atA, readB, winner]
      exact ⟨i, x, atA, rfl, latest_of_held atA (by simp [Slot.other, atB])⟩
    | some pair =>
      obtain ⟨j, y⟩ := pair
      simp only [inv.read_held atA, inv.read_held atB, winner]
      rcases Nat.lt_or_gt_of_ne (inv.held_ne .a atA atB) with before | after
      · -- Slot b holds the later attempt, so the larger number.
        have larger := inv.ordered .a i j x y atA atB before
        rw [if_pos larger]
        refine ⟨j, y, atB, rfl, latest_of_held atB ?_⟩
        simpa [Slot.other, atA] using ⟨before.le, UInt32.le_of_lt larger⟩
      · have larger := inv.ordered .b j i y x atB atA after
        rw [if_neg (UInt32.not_lt.mpr (UInt32.le_of_lt larger))]
        refine ⟨i, x, atA, rfl, latest_of_held atA ?_⟩
        simpa [Slot.other, atB] using ⟨after.le, UInt32.le_of_lt larger⟩

theorem Consistent.after_read {w : World} {held : Held} (inv : Consistent crc32 w held) (store : Store) :
    Consistent crc32
      { w with store := some (settings_store_read crc32 w.disk store none none).2, loaded := true } held := by
  refine ⟨inv.stored, inv.rejected, inv.ordered, inv.saved, ?_⟩
  rintro after same -
  obtain rfl : (settings_store_read crc32 w.disk store none none).2 = after := Option.some.inj same
  have latest := inv.winner_latest
  unfold settings_store_read
  cases decided : winner (read_slot crc32 (w.disk .a) none) (read_slot crc32 (w.disk .b) none) with
  | none =>
    simp only [decided] at latest
    refine ⟨by simp [latest], by simp, fun _ attempt member => ?_⟩
    obtain ⟨k, at_k⟩ := List.mem_iff_getElem?.mp member
    by_contra returned
    obtain ⟨slot, i, later, holds, -⟩ := inv.saved k attempt at_k (by simpa using returned)
    simp [latest] at holds
  | some pair =>
    obtain ⟨slot, contents⟩ := pair
    simp only [decided] at latest
    obtain ⟨i, attempt, holds, rfl, first⟩ := latest
    refine ⟨?_, ?_, by simp⟩
    · intro slot' j other holds'
      have largest := (first slot' j other holds').2
      simp only
      split
      · exact largest
      · exact UInt32.le_trans largest (UInt32.not_lt.mp ‹_›)
    · intro newest same
      obtain rfl : slot = newest := by simpa using same
      refine ⟨rfl, i, attempt, holds, ?_⟩
      intro k earlier at_k returned
      obtain ⟨slot', j, later, holds', before⟩ := inv.saved k earlier at_k returned
      exact before.trans (first slot' j later holds').1

/-- An attempt of the grown history is an old one or the new one. -/
theorem attempt_cases {history : List Attempt} {new attempt : Attempt} {k : Nat}
    (at_k : (history ++ [new])[k]? = some attempt) :
    history[k]? = some attempt ∨ k = history.length ∧ attempt = new := by
  rcases Nat.lt_trichotomy k history.length with inside | rfl | beyond
  · left
    rwa [List.getElem?_append_left inside] at at_k
  · right
    simpa using at_k.symm
  · rw [List.getElem?_eq_none (by simp; omega)] at at_k
    simp at at_k

theorem getElem?_lt {history : List Attempt} {attempt : Attempt} {k : Nat} (at_k : history[k]? = some attempt) :
    k < history.length := (List.getElem?_eq_some_iff.mp at_k).1

/-- A write that is not acknowledged leaves the handle fitting. -/
theorem HandleFits.unacknowledged {w after : World} {held held' : Held} {store : Store}
    (fits : HandleFits w held store) {new : Attempt} (failed : new.returned = false)
    (grown : after.history = w.history ++ [new]) (kept : held' store.next_slot.other = held store.next_slot.other)
    {seq : UInt32} (raised : store.newest_seq ≤ seq)
    (target : ∀ i attempt, held' store.next_slot = some (i, attempt) → attempt.seq ≤ seq) {next : Slot}
    (stays : store.newest_slot ≠ none → next = store.next_slot) :
    HandleFits after held' { store with newest_seq := seq, next_slot := next } := by
  constructor
  · intro slot i attempt holds
    rcases Slot.eq_or_other slot store.next_slot with rfl | rfl
    · exact target i attempt holds
    · exact UInt32.le_trans (fits.counter _ i attempt (kept ▸ holds)) raised
  · intro slot isNewest
    change store.newest_slot = some slot at isNewest
    obtain ⟨aims, i, attempt, holds, latest⟩ := fits.newest slot isNewest
    refine ⟨(stays (by simp [isNewest])).trans aims, i, attempt, ?_, ?_⟩
    · rw [aims, Slot.other_other] at kept
      rw [kept, holds]
    · intro k earlier at_k returned
      rw [grown] at at_k
      rcases attempt_cases at_k with old | ⟨-, rfl⟩
      · exact latest k earlier old returned
      · simp [failed] at returned
  · intro none attempt member
    rw [grown] at member
    rcases List.mem_append.mp member with old | new
    · exact fits.unsaved none attempt old
    · obtain rfl : attempt = _ := List.mem_singleton.mp new
      exact failed

/-- A write that touches no file keeps the invariant. -/
theorem Consistent.untouched {w : World} {held : Held} (inv : Consistent crc32 w held) {store : Store} {new : Attempt}
    (failed : new.returned = false)
    (fits : HandleFits { w with store := some store, history := w.history ++ [new] } held store) :
    Consistent crc32 { w with store := some store, history := w.history ++ [new] } held := by
  refine ⟨?_, inv.rejected, inv.ordered, ?_, ?_⟩
  · intro slot i attempt holds
    obtain ⟨at_i, facts⟩ := inv.stored slot i attempt holds
    exact ⟨by rw [List.getElem?_append_left (getElem?_lt at_i)]; exact at_i, facts⟩
  · intro k attempt at_k returned
    rcases attempt_cases at_k with old | ⟨-, rfl⟩
    · exact inv.saved k attempt old returned
    · simp [failed] at returned
  · rintro after same -
    obtain rfl := Option.some.inj same
    exact fits

/-- The world after a write that replaced its target file. -/
def written (w : World) (before : Store) (file : Option Bytes) (after : Store) (new : Attempt) : World where
  disk := Function.update w.disk before.next_slot file
  store := some after
  loaded := w.loaded
  history := w.history ++ [new]

@[simp] theorem written_target (w : World) (before : Store) (file : Option Bytes) (after : Store) (new : Attempt) :
    (written w before file after new).disk before.next_slot = file := Function.update_self ..

theorem written_other (w : World) (before : Store) (file : Option Bytes) (after : Store) (new : Attempt) {slot : Slot}
    (away : slot ≠ before.next_slot) : (written w before file after new).disk slot = w.disk slot :=
  Function.update_of_ne away ..

@[simp] theorem written_history (w : World) (before : Store) (file : Option Bytes) (after : Store) (new : Attempt) :
    (written w before file after new).history = w.history ++ [new] := rfl

/-- A write that replaces its target, by its complete frame or by something that is
    not accepted and not acknowledged, keeps the invariant: what was saved is in the
    slot it did not touch. -/
theorem Consistent.replaced {w : World} {held : Held} (inv : Consistent crc32 w held) {before after : Store}
    (known : HandleFits w held before) {new : Attempt} (aimed : new.slot = before.next_slot)
    (newer : before.newest_seq < new.seq) {file : Option Bytes} {value : Option (Nat × Attempt)}
    (fate : (value = some (w.history.length, new) ∧ Storable new.data ∧
        file = some (slot_frame crc32 new.seq new.data)) ∨
      (value = none ∧ new.returned = false ∧ ∀ fault contents, read_slot crc32 file fault ≠ .ok contents))
    (fits : HandleFits (written w before file after new) (Function.update held before.next_slot value) after) :
    Consistent crc32 (written w before file after new) (Function.update held before.next_slot value) := by
  have other : ∀ slot i attempt, slot ≠ before.next_slot →
      Function.update held before.next_slot value slot = some (i, attempt) → held slot = some (i, attempt) := by
    intro slot i attempt away holds
    rwa [Function.update_of_ne away] at holds
  refine ⟨?_, ?_, ?_, ?_, ?_⟩
  · intro slot i attempt holds
    by_cases here : slot = before.next_slot
    · subst here
      rw [Function.update_self] at holds
      rcases fate with ⟨isNew, storable, complete⟩ | ⟨isNone, -⟩
      · obtain ⟨rfl, rfl⟩ : i = w.history.length ∧ attempt = new := by simpa [isNew, eq_comm] using holds
        exact ⟨by simp, aimed, storable, by simp [complete]⟩
      · simp [isNone] at holds
    · obtain ⟨at_i, onSlot, storable, onDisk⟩ := inv.stored slot i attempt (other slot i attempt here holds)
      refine ⟨?_, onSlot, storable, ?_⟩
      · rw [written_history, List.getElem?_append_left (getElem?_lt at_i)]
        exact at_i
      · rw [written_other _ _ _ _ _ here]
        exact onDisk
  · intro slot empty fault contents
    by_cases here : slot = before.next_slot
    · subst here
      rw [Function.update_self] at empty
      rw [written_target]
      rcases fate with ⟨isNew, -⟩ | ⟨-, -, rejects⟩
      · simp [isNew] at empty
      · exact rejects fault contents
    · rw [Function.update_of_ne here] at empty
      rw [written_other _ _ _ _ _ here]
      exact inv.rejected slot empty fault contents
  · intro slot i j x y atX atY before_j
    rcases Slot.eq_or_other slot before.next_slot with rfl | rfl
    · -- The newer attempt would be in the slot that was not touched.
      rw [Function.update_self] at atX
      have atY := other _ j y (Slot.other_ne _) atY
      rcases fate with ⟨isNew, -⟩ | ⟨isNone, -⟩
      · obtain ⟨rfl, rfl⟩ : i = w.history.length ∧ x = new := by simpa [isNew, eq_comm] using atX
        exact absurd (getElem?_lt (inv.stored _ j y atY).1) (by omega)
      · simp [isNone] at atX
    · rw [Slot.other_other, Function.update_self] at atY
      have atX := other _ i x (Slot.other_ne _) atX
      rcases fate with ⟨isNew, -⟩ | ⟨isNone, -⟩
      · obtain ⟨rfl, rfl⟩ : j = w.history.length ∧ y = new := by simpa [isNew, eq_comm] using atY
        exact UInt32.lt_of_le_of_lt (known.counter _ i x atX) newer
      · simp [isNone] at atY
  · intro k attempt at_k returned
    rcases fate with ⟨isNew, -⟩ | ⟨-, failed, -⟩
    · refine ⟨before.next_slot, w.history.length, new, by simp [isNew], ?_⟩
      have inside := getElem?_lt at_k
      rw [written_history, List.length_append, List.length_singleton] at inside
      omega
    · rcases attempt_cases at_k with old | ⟨-, rfl⟩
      · cases newest : before.newest_slot with
        | none =>
          have unsaved := known.unsaved newest attempt (List.mem_of_getElem? old)
          simp [unsaved] at returned
        | some slot =>
          obtain ⟨aims, i, later, holds, latest⟩ := known.newest slot newest
          refine ⟨slot, i, later, ?_, latest k attempt old returned⟩
          rw [Function.update_of_ne (by rw [aims]; exact Slot.ne_other slot)]
          exact holds
      · simp [failed] at returned
  · rintro store same -
    obtain rfl := Option.some.inj same
    exact fits

theorem failedStore_eq (store : Store) (seq : UInt32) :
    failedStore store seq = { store with newest_seq := seq, next_slot := if store.newest_slot = none then
      store.next_slot.other else store.next_slot } := by
  unfold failedStore
  split <;> rfl

theorem newest_lt_drawn {disk : Disk} {store : Store} {probe : Bool} (room : drawn disk store probe ≠ UINT32_MAX) :
    store.newest_seq < drawn disk store probe + 1 :=
  UInt32.lt_of_le_of_lt (newest_le_probed store _) (lt_succ_of_ne_max room)

theorem Consistent.after_write {w : World} {held : Held} (inv : Consistent crc32 w held) {store : Store}
    (isOpen : w.store = some store) (loaded : w.loaded = true) {data : Bytes} (storable : Storable data)
    {calls : WriteCalls} (probes : calls.probe = true) :
    ∃ held', Consistent crc32 ((runs crc32).step w (.write data calls)) held' := by
  have known := inv.handle store isOpen loaded
  have outcome := write_outcome crc32 w.disk store data calls
  simp only [runs, isOpen]
  generalize settings_store_write crc32 w.disk store data calls = result at outcome
  have heldFits : ∀ seq, store.newest_seq ≤ seq → ∀ i attempt, held store.next_slot = some (i, attempt) →
      attempt.seq ≤ seq := fun seq raised i attempt holds =>
    UInt32.le_trans (known.counter _ i attempt holds) raised
  cases outcome with
  | refused unfit => exact absurd storable unfit
  | exhausted full =>
    have raised : store.newest_seq ≤ UINT32_MAX := full ▸ newest_le_probed store _
    exact ⟨held, inv.untouched rfl (known.unacknowledged rfl rfl rfl raised (heldFits _ raised) fun _ => rfl)⟩
  | no_memory _ room =>
    have raised := UInt32.le_of_lt (newest_lt_drawn room)
    exact ⟨held, inv.untouched rfl (known.unacknowledged rfl rfl rfl raised (heldFits _ raised) fun _ => rfl)⟩
  | not_opened _ room =>
    have raised := UInt32.le_of_lt (newest_lt_drawn room)
    rw [failedStore_eq]
    exact ⟨held, inv.untouched rfl
      (known.unacknowledged rfl rfl rfl raised (heldFits _ raised) fun some => if_neg some)⟩
  | stopped _ room bytes isPrefix =>
    have newer := newest_lt_drawn room
    rw [failedStore_eq]
    by_cases complete : bytes = slot_frame crc32 (drawn w.disk store calls.probe + 1) data
    · -- The whole frame is in the file although the write failed: it may win at the next boot.
      refine ⟨_, inv.replaced known rfl newer (.inl ⟨rfl, storable, congrArg some complete⟩) ?_⟩
      refine known.unacknowledged rfl rfl (Function.update_of_ne (Slot.other_ne _) ..) (UInt32.le_of_lt newer) ?_
        (fun some => if_neg some)
      simp +contextual
    · refine ⟨_, inv.replaced known rfl newer (.inr ⟨rfl, rfl, fun fault contents accepted =>
        complete (read_slot_torn crc32 storable isPrefix accepted)⟩) ?_⟩
      refine known.unacknowledged rfl rfl (Function.update_of_ne (Slot.other_ne _) ..) (UInt32.le_of_lt newer) ?_
        (fun some => if_neg some)
      simp
  | durable _ room _ =>
    have newer := newest_lt_drawn room
    refine ⟨_, inv.replaced known rfl newer (.inl ⟨rfl, storable, rfl⟩) ⟨?_, ?_, by simp⟩⟩
    · intro slot i attempt holds
      rcases Slot.eq_or_other slot store.next_slot with rfl | rfl
      · rw [Function.update_self] at holds
        obtain ⟨-, rfl⟩ := Prod.mk.inj (Option.some.inj holds)
        exact UInt32.le_refl _
      · rw [Function.update_of_ne (Slot.other_ne _)] at holds
        exact UInt32.le_trans (known.counter _ i attempt holds) (UInt32.le_of_lt newer)
    · intro slot same
      obtain rfl := Option.some.inj same
      refine ⟨rfl, w.history.length, _, Function.update_self .., ?_⟩
      intro k earlier at_k _
      have inside := getElem?_lt at_k
      rw [written_history, List.length_append, List.length_singleton] at inside
      omega
  | cleaned _ _ unclear => simp [unclear] at probes

theorem consistent_step (w : World) (event : Event) (inv : ∃ held, Consistent crc32 w held)
    (admitted : CrashRun w event) : ∃ held, Consistent crc32 ((runs crc32).step w event) held := by
  obtain ⟨held, inv⟩ := inv
  cases event with
  | opened allocated => exact ⟨held, inv.stored, inv.rejected, inv.ordered, inv.saved, by simp [runs]⟩
  | closed => exact ⟨held, inv.stored, inv.rejected, inv.ordered, inv.saved, by simp [runs]⟩
  | read fault_a fault_b =>
    obtain ⟨rfl, rfl⟩ := admitted
    cases isOpen : w.store with
    | none => exact ⟨held, by simpa [runs, isOpen] using inv⟩
    | some store => exact ⟨held, by simpa [runs, isOpen] using inv.after_read store⟩
  | write data calls =>
    obtain ⟨storable, loaded, probes⟩ := admitted
    cases isOpen : w.store with
    | none => exact ⟨held, by simpa [runs, isOpen] using inv⟩
    | some store => exact inv.after_write isOpen loaded storable probes
  | erase calls => exact absurd admitted id

/-- The position of the last write that returned true. -/
def LastSaved (history : List Attempt) (k : Nat) (attempt : Attempt) : Prop :=
  history[k]? = some attempt ∧ attempt.returned = true ∧
    ∀ later newer, history[later]? = some newer → newer.returned = true → later ≤ k

/-- Two-slot crash safety. After any crash run, a boot reads the payload of the
    last write that returned true or of a later attempt, reads nothing only when no
    write ever returned true, and never reads bytes that were not the payload of an
    attempt. The next write of a handle that has been read does not aim at the slot
    of the last write that returned true unless the other slot holds the complete
    frame of a later attempt. -/
theorem two_slot_crash_safety (crc32 : Bytes → UInt32) (events : List Event)
    (along : (runs crc32).Along CrashRun {} events) (w : World) (reached : w = (runs crc32).final {} events) :
    (∀ k attempt, LastSaved w.history k attempt →
      ∃ i later, k ≤ i ∧ w.history[i]? = some later ∧ reread crc32 w.disk = some later.data) ∧
    (reread crc32 w.disk = none → ∀ attempt ∈ w.history, attempt.returned = false) ∧
    (∀ data, reread crc32 w.disk = some data → ∃ attempt ∈ w.history, attempt.data = data) ∧
    (∀ store k attempt, w.store = some store → w.loaded = true → LastSaved w.history k attempt →
      store.next_slot = attempt.slot →
      ∃ i newer, k < i ∧ w.history[i]? = some newer ∧
        w.disk attempt.slot.other = some (slot_frame crc32 newer.seq newer.data)) := by
  obtain ⟨held, inv⟩ : ∃ held, Consistent crc32 w held :=
    reached ▸ (runs crc32).final_invariant consistent_step ⟨_, consistent_start crc32⟩ along
  have latest := inv.winner_latest
  rw [reread_eq]
  generalize winner (read_slot crc32 (w.disk .a) none) (read_slot crc32 (w.disk .b) none) = decided at latest
  refine ⟨?_, ?_, ?_, ?_⟩
  · rintro k attempt ⟨at_k, returned, -⟩
    obtain ⟨slot, i, later, holds, notBefore⟩ := inv.saved k attempt at_k returned
    cases decided with
    | none => simp [latest] at holds
    | some pair =>
      obtain ⟨j, newest, holds', contents, first⟩ := latest
      exact ⟨j, newest, notBefore.trans (first slot i later holds).1, (inv.stored _ j newest holds').1,
        by simp [contents]⟩
  · intro nothing attempt member
    obtain rfl : decided = none := by simpa using nothing
    obtain ⟨k, at_k⟩ := List.mem_iff_getElem?.mp member
    by_contra returned
    obtain ⟨slot, i, later, holds, -⟩ := inv.saved k attempt at_k (by simpa using returned)
    simp [latest] at holds
  · intro data same
    obtain ⟨pair, rfl, rfl⟩ := Option.map_eq_some_iff.mp same
    obtain ⟨i, attempt, holds, contents, -⟩ := latest
    exact ⟨attempt, List.mem_of_getElem? (inv.stored _ i attempt holds).1, by rw [contents]⟩
  · rintro store k attempt isOpen loaded ⟨at_k, returned, -⟩ aims
    have known := inv.handle store isOpen loaded
    cases newest : store.newest_slot with
    | none =>
      have unsaved := known.unsaved newest attempt (List.mem_of_getElem? at_k)
      simp [unsaved] at returned
    | some slot =>
      obtain ⟨next, i, newer, holds, notAfter⟩ := known.newest slot newest
      obtain ⟨at_i, onSlot, -, onDisk⟩ := inv.stored slot i newer holds
      have otherSlot : attempt.slot.other = slot := by rw [← aims, next, Slot.other_other]
      have notSame : k ≠ i := by
        rintro rfl
        obtain rfl : attempt = newer := Option.some.inj (at_k.symm.trans at_i)
        rw [onSlot] at otherSlot
        exact Slot.other_ne slot otherSlot
      exact ⟨i, newer, lt_of_le_of_ne (notAfter k attempt at_k returned) notSame, at_i, otherSlot ▸ onDisk⟩

/-- The power fails while the second payload is being written: the boot finds the first. -/
theorem two_slot_crash_safety_torn :
    ∃ i later, 0 ≤ i ∧
      ((runs fun _ => 0).final {} [.opened true, .read none none, .write [7] { writes := [.wrote 100] },
        .write [8] { writes := [.wrote 3] }, .opened true]).history[i]? = some later ∧
      reread (fun _ => 0) ((runs fun _ => 0).final {} [.opened true, .read none none,
        .write [7] { writes := [.wrote 100] }, .write [8] { writes := [.wrote 3] }, .opened true]).disk =
          some later.data :=
  (two_slot_crash_safety (fun _ => 0) [.opened true, .read none none, .write [7] { writes := [.wrote 100] },
    .write [8] { writes := [.wrote 3] }, .opened true]
    ⟨trivial, ⟨rfl, rfl⟩, ⟨by decide, rfl, rfl⟩, ⟨by decide, rfl, rfl⟩, trivial, trivial⟩ _ rfl).1 0 ⟨[7], .a, 1, true⟩
    ⟨rfl, rfl, by
      intro later newer at_later returned
      match later with
      | 0 => exact le_refl 0
      | 1 =>
        obtain rfl : (⟨[8], .b, 2, false⟩ : Attempt) = newer := Option.some.inj at_later
        simp at returned
      | _ + 2 => simp [runs] at at_later⟩

/-! ### Sequence numbers -/

/-- The number a write draws is larger than that of any frame the other slot holds
    when its header could be read. -/
theorem accepted_lt_drawn {disk : Disk} {store : Store} (room : drawn disk store true ≠ UINT32_MAX)
    {fault : Option ReadFault} {contents : SlotContents}
    (accepted : read_slot crc32 (disk store.next_slot.other) fault = .ok contents) :
    contents.seq < drawn disk store true + 1 := by
  have header := probe_of_accepted crc32 accepted
  refine UInt32.lt_of_le_of_lt ?_ (lt_succ_of_ne_max room)
  rw [drawn, header]
  exact known_le_probed store contents.seq

/-- A boot decides for a slot whose number is larger than the other's. -/
theorem reread_of_larger {disk : Disk} {slot : Slot} {data : Bytes} {seq : UInt32}
    (here : read_slot crc32 (disk slot) none = .ok ⟨data, seq⟩)
    (larger : ∀ contents, read_slot crc32 (disk slot.other) none = .ok contents → contents.seq < seq)
    (store : Store) : (settings_store_read crc32 disk store none none).1 = some data := by
  unfold settings_store_read
  cases slot with
  | a =>
    cases there : read_slot crc32 (disk .b) none with
    | error reason => simp [here, winner]
    | ok contents =>
      have smaller := larger contents there
      simp [here, winner, UInt32.not_lt.mpr (UInt32.le_of_lt smaller)]
  | b =>
    cases there : read_slot crc32 (disk .a) none with
    | error reason => simp [here, winner]
    | ok contents =>
      have smaller := larger contents there
      simp [here, winner, smaller]

/-- A write that returns true has the largest number of both slots. -/
theorem write_true_supersedes {disk : Disk} {store after : Store} {data : Bytes} {calls : WriteCalls} {disk' : Disk}
    (ok : settings_store_write crc32 disk store data calls = (true, after, disk')) :
    (∀ fault contents, read_slot crc32 (disk' store.next_slot.other) fault = .ok contents →
      contents.seq < after.newest_seq) ∧
    read_slot crc32 (disk' store.next_slot) none = .ok ⟨data, after.newest_seq⟩ := by
  have outcome := write_outcome crc32 disk store data calls
  rw [ok] at outcome
  generalize returned : true = flag at outcome
  cases outcome with
  | durable storable room clear =>
    constructor
    · intro fault contents accepted
      rw [Function.update_of_ne (Slot.other_ne _)] at accepted
      rw [clear] at room ⊢
      exact accepted_lt_drawn room accepted
    · rw [Function.update_self]
      exact read_slot_frame crc32 _ storable
  | cleaned storable room unclear =>
    constructor
    · intro fault contents accepted
      rw [Function.update_self, erase_slot_gone returned.symm] at accepted
      exact absurd accepted (read_slot_absent crc32)
    · rw [Function.update_of_ne (Slot.ne_other _), Function.update_self]
      exact read_slot_frame crc32 _ storable
  | _ => simp at returned

/-- The calls made through one handle. -/
def KeepsHandle : Event → Prop
  | .opened _ => False
  | .closed => False
  | _ => True

/-- No call lowers the sequence counter of its handle. -/
theorem counter_step (w : World) (event : Event) (keeps : KeepsHandle event) {store : Store}
    (isOpen : w.store = some store) :
    ∃ after, ((runs crc32).step w event).store = some after ∧ store.newest_seq ≤ after.newest_seq := by
  cases event with
  | opened allocated => exact absurd keeps id
  | closed => exact absurd keeps id
  | read fault_a fault_b =>
    refine ⟨(settings_store_read crc32 w.disk store fault_a fault_b).2, by simp only [runs, isOpen], ?_⟩
    unfold settings_store_read
    split
    · exact UInt32.le_refl _
    · simp only
      split
      · exact UInt32.le_of_lt ‹_›
      · exact UInt32.le_refl _
  | write data calls =>
    refine ⟨(settings_store_write crc32 w.disk store data calls).2.1, by simp only [runs, isOpen], ?_⟩
    have outcome := write_outcome crc32 w.disk store data calls
    generalize settings_store_write crc32 w.disk store data calls = result at outcome
    cases outcome with
    | refused => exact UInt32.le_refl _
    | exhausted full => exact full ▸ newest_le_probed store _
    | no_memory _ room => exact UInt32.le_of_lt (newest_lt_drawn room)
    | not_opened _ room => simpa using UInt32.le_of_lt (newest_lt_drawn room)
    | stopped _ room => simpa using UInt32.le_of_lt (newest_lt_drawn room)
    | durable _ room => exact UInt32.le_of_lt (newest_lt_drawn room)
    | cleaned _ room => exact UInt32.le_of_lt (newest_lt_drawn room)
  | erase calls =>
    exact ⟨(settings_store_erase w.disk store calls).2.1, by simp only [runs, isOpen], UInt32.le_refl _⟩

theorem counter_run {w : World} {store : Store} (isOpen : w.store = some store) {later : List Event}
    (keeps : ∀ event ∈ later, KeepsHandle event) :
    ∃ after, ((runs crc32).final w later).store = some after ∧ store.newest_seq ≤ after.newest_seq := by
  induction later generalizing w store with
  | nil => exact ⟨store, isOpen, UInt32.le_refl _⟩
  | cons event later ih =>
    obtain ⟨between, stillOpen, raised⟩ := counter_step w event (keeps event List.mem_cons_self) isOpen
    obtain ⟨after, final, raised'⟩ := ih stillOpen fun next member => keeps next (List.mem_cons_of_mem _ member)
    exact ⟨after, final, UInt32.le_trans raised raised'⟩

/-- A handle whose counter is at its end refuses to write and touches no file. -/
theorem write_exhausted (crc32 : Bytes → UInt32) (disk : Disk) {store : Store} (full : store.newest_seq = UINT32_MAX)
    (data : Bytes) (calls : WriteCalls) : settings_store_write crc32 disk store data calls = (false, store, disk) := by
  have stays : drawn disk store calls.probe = UINT32_MAX := by
    have raised : store.newest_seq ≤ drawn disk store calls.probe := newest_le_probed store _
    rw [full] at raised
    have small := (drawn disk store calls.probe).toNat_lt
    rw [UInt32.le_iff_toNat_le] at raised
    apply UInt32.toNat_inj.mp
    simp only [UINT32_MAX] at raised ⊢
    simp at raised ⊢
    omega
  have outcome := write_outcome crc32 disk store data calls
  generalize settings_store_write crc32 disk store data calls = result at outcome
  cases outcome with
  | refused => rfl
  | exhausted => rw [← full]
  | no_memory _ room => exact absurd stays room
  | not_opened _ room => exact absurd stays room
  | stopped _ room => exact absurd stays room
  | durable _ room => exact absurd stays room
  | cleaned _ room => exact absurd stays room

/-- A write whose probe of the other header failed, that left its complete frame
    behind and did not return true. -/
def LeavesAmbiguity (crc32 : Bytes → UInt32) (w : World) : Event → Prop
  | .write data calls => ∃ store after disk, w.store = some store ∧ calls.probe = false ∧
      settings_store_write crc32 w.disk store data calls = (false, after, disk) ∧
      disk store.next_slot = some (slot_frame crc32 after.newest_seq data)
  | _ => False

/-- The two slots never hold accepted frames of one number. -/
def Distinct (crc32 : Bytes → UInt32) (disk : Disk) : Prop :=
  ∀ fault_a fault_b a b, read_slot crc32 (disk .a) fault_a = .ok a → read_slot crc32 (disk .b) fault_b = .ok b →
    a.seq ≠ b.seq

/-- The two slots differ when whatever one of them holds has a smaller number than the other. -/
theorem distinct_of_lt {disk : Disk} (slot : Slot)
    (smaller : ∀ fault fault' here there, read_slot crc32 (disk slot) fault = .ok here →
      read_slot crc32 (disk slot.other) fault' = .ok there → there.seq < here.seq) : Distinct crc32 disk := by
  intro fault_a fault_b a b readA readB same
  cases slot with
  | a => exact absurd (smaller fault_a fault_b a b readA readB) (by simp [same])
  | b => exact absurd (smaller fault_b fault_a b a readB readA) (by simp [same])

/-- A write that probed the other header puts nothing beside it but a larger number. -/
theorem distinct_drawn {disk : Disk} {store : Store} {file : Option Bytes} {probe : Bool} (probes : probe = true)
    (room : drawn disk store probe ≠ UINT32_MAX)
    (number : ∀ fault contents, read_slot crc32 file fault = .ok contents →
      contents.seq = drawn disk store probe + 1) :
    Distinct crc32 (Function.update disk store.next_slot file) := by
  subst probes
  refine distinct_of_lt store.next_slot ?_
  intro fault fault' here there readHere readThere
  rw [Function.update_self] at readHere
  rw [Function.update_of_ne (Slot.other_ne _)] at readThere
  rw [number fault here readHere]
  exact accepted_lt_drawn room readThere

theorem distinct_erase {disk : Disk} (inv : Distinct crc32 disk) (store : Store) (calls : EraseAllCalls) :
    Distinct crc32 (settings_store_erase disk store calls).2.2 := by
  simp only [settings_store_erase]
  intro fault_a fault_b a b readA readB
  rw [Function.update_of_ne (by decide), Function.update_self] at readA
  rw [Function.update_self, Function.update_of_ne (by decide)] at readB
  rcases erase_slot_rejected crc32 (disk .a) calls.slot_a with sameA | goneA
  · rcases erase_slot_rejected crc32 (disk .b) calls.slot_b with sameB | goneB
    · exact inv fault_a fault_b a b (sameA ▸ readA) (sameB ▸ readB)
    · exact absurd readB (goneB fault_b b)
  · exact absurd readA (goneA fault_a a)

theorem distinct_write {disk : Disk} (inv : Distinct crc32 disk) {store : Store} {data : Bytes} {calls : WriteCalls}
    (clear : ∀ after disk', calls.probe = false →
      settings_store_write crc32 disk store data calls = (false, after, disk') →
      disk' store.next_slot ≠ some (slot_frame crc32 after.newest_seq data)) :
    Distinct crc32 (settings_store_write crc32 disk store data calls).2.2 := by
  have outcome := write_outcome crc32 disk store data calls
  generalize settings_store_write crc32 disk store data calls = result at outcome clear
  cases outcome with
  | refused => exact inv
  | exhausted => exact inv
  | no_memory => exact inv
  | not_opened => exact inv
  | stopped storable room bytes isPrefix =>
    have number : ∀ fault contents, read_slot crc32 (some bytes) fault = .ok contents →
        bytes = slot_frame crc32 (drawn disk store calls.probe + 1) data :=
      fun fault contents accepted => read_slot_torn crc32 storable isPrefix accepted
    by_cases probes : calls.probe = true
    · refine distinct_drawn probes room fun fault contents accepted => ?_
      rw [number fault contents accepted] at accepted
      exact read_slot_frame_seq crc32 accepted
    · -- Without a probe the frame is not complete, so it is not accepted.
      refine distinct_of_lt store.next_slot ?_
      intro fault fault' here there readHere readThere
      simp only [Function.update_self] at readHere
      refine absurd (number fault here readHere) fun complete => ?_
      exact clear _ _ (by simpa using probes) rfl (by simp [complete])
  | durable storable room probes =>
    exact distinct_drawn probes room fun fault contents accepted => read_slot_frame_seq crc32 accepted
  | cleaned storable room unclear =>
    cases erased : (erase_slot (disk store.next_slot.other) calls.erase).2 with
    | false =>
      refine absurd ?_ (clear _ _ unclear (by rw [erased]))
      rw [Function.update_of_ne (Slot.ne_other _), Function.update_self]
    | true =>
      refine distinct_of_lt store.next_slot ?_
      intro fault fault' here there readHere readThere
      simp only [Function.update_self, erase_slot_gone erased] at readThere
      exact absurd readThere (read_slot_absent crc32)

theorem distinct_step (w : World) (event : Event) (inv : Distinct crc32 w.disk)
    (clear : ¬ LeavesAmbiguity crc32 w event) : Distinct crc32 ((runs crc32).step w event).disk := by
  cases event with
  | opened allocated => exact inv
  | closed => exact inv
  | read fault_a fault_b => cases isOpen : w.store <;> simpa [runs, isOpen] using inv
  | erase calls =>
    cases isOpen : w.store with
    | none => simpa [runs, isOpen] using inv
    | some store =>
      simp only [runs, isOpen]
      exact distinct_erase inv store calls
  | write data calls =>
    cases isOpen : w.store with
    | none => simpa [runs, isOpen] using inv
    | some store =>
      simp only [runs, isOpen]
      refine distinct_write inv ?_
      intro after disk probe result same
      exact clear ⟨store, after, disk, isOpen, probe, result, same⟩

/-- Sequence numbers, over every run from two absent slots in which any call may
    fail. A write that returns true leaves no accepted frame beside it with a number
    as large, so the next boot reads what it wrote; the counter of a handle never
    goes down, and at its end writing is refused before any file is touched; and as
    long as no write whose header probe failed left its complete frame behind
    without returning true, the two slots never carry one number. -/
theorem sequence_numbers (crc32 : Bytes → UInt32) (events : List Event) (w : World)
    (reached : w = (runs crc32).final {} events) :
    (∀ store data calls after disk, w.store = some store →
      settings_store_write crc32 w.disk store data calls = (true, after, disk) →
      (∀ fault contents, read_slot crc32 (disk store.next_slot.other) fault = .ok contents →
        contents.seq < after.newest_seq) ∧
      read_slot crc32 (disk store.next_slot) none = .ok ⟨data, after.newest_seq⟩ ∧
      ∀ reader, (settings_store_read crc32 disk reader none none).1 = some data) ∧
    (∀ store later, w.store = some store → (∀ event ∈ later, KeepsHandle event) →
      ∃ after, ((runs crc32).final w later).store = some after ∧ store.newest_seq ≤ after.newest_seq) ∧
    (∀ store data calls, w.store = some store → store.newest_seq = UINT32_MAX →
      settings_store_write crc32 w.disk store data calls = (false, store, w.disk)) ∧
    ((runs crc32).Along (fun w event => ¬ LeavesAmbiguity crc32 w event) {} events → Distinct crc32 w.disk) := by
  refine ⟨?_, ?_, ?_, ?_⟩
  · intro store data calls after disk _ ok
    obtain ⟨smaller, readBack⟩ := write_true_supersedes ok
    exact ⟨smaller, readBack, reread_of_larger readBack (smaller none)⟩
  · intro store later isOpen keeps
    exact counter_run isOpen keeps
  · intro store data calls _ full
    exact write_exhausted crc32 w.disk full data calls
  · intro clear
    subst reached
    exact (runs crc32).final_invariant (I := fun w => Distinct crc32 w.disk) distinct_step
      (fun _ _ _ _ readA _ => absurd readA (read_slot_absent crc32)) clear

/-- Two plain writes give the slots two numbers. -/
theorem sequence_numbers_two_writes :
    Distinct (fun _ => 0) ((runs fun _ => 0).final {} [.opened true, .read none none,
      .write [7] { writes := [.wrote 100] }, .write [8] { writes := [.wrote 100] }]).disk :=
  (sequence_numbers (fun _ => 0) [.opened true, .read none none, .write [7] { writes := [.wrote 100] },
    .write [8] { writes := [.wrote 100] }] _ rfl).2.2.2 (by simp [LeavesAmbiguity])

/-- A handle that could read neither slot catches up with the number of slot b, and
    cannot erase it: both slots now carry the number 2. -/
theorem equal_numbers :
    read_slot (fun _ => 0) (((runs fun _ => 0).final {} [.opened true, .read none none,
        .write [7] { writes := [.wrote 100] }, .write [8] { writes := [.wrote 100] },
        .opened true, .read (some .opening) (some .opening), .write [9] { probe := false, malloc := false },
        .write [9] { probe := false, writes := [.wrote 100], erase := { opens := false } }]).disk .a) none =
      .ok ⟨[9], 2⟩ ∧
    read_slot (fun _ => 0) (((runs fun _ => 0).final {} [.opened true, .read none none,
        .write [7] { writes := [.wrote 100] }, .write [8] { writes := [.wrote 100] },
        .opened true, .read (some .opening) (some .opening), .write [9] { probe := false, malloc := false },
        .write [9] { probe := false, writes := [.wrote 100], erase := { opens := false } }]).disk .b) none =
      .ok ⟨[8], 2⟩ := by
  constructor <;> rfl

/-! ### Interrupted erasure -/

/-- Where `settings_store_erase` can stop: during or after the erasure of slot a, or
    during or after that of slot b. -/
inductive EraseStop where
  | first (slot_a : EraseCalls)
  | both (slot_a slot_b : EraseCalls)
  deriving DecidableEq, Repr

/-- The files where the erasure stopped. -/
def stopped (disk : Disk) : EraseStop → Disk
  | .first slot_a => Function.update disk .a (erase_slot (disk .a) slot_a).1
  | .both slot_a slot_b =>
    Function.update (Function.update disk .a (erase_slot (disk .a) slot_a).1) .b (erase_slot (disk .b) slot_b).1

/-- Wherever the erasure stops, each file is as it was or not accepted any more. -/
theorem stopped_rejected (crc32 : Bytes → UInt32) (disk : Disk) (stop : EraseStop) (slot : Slot) :
    stopped disk stop slot = disk slot ∨
      ∀ fault contents, read_slot crc32 (stopped disk stop slot) fault ≠ .ok contents := by
  cases stop with
  | first slot_a =>
    cases slot with
    | a => simpa [stopped] using erase_slot_rejected crc32 (disk .a) slot_a
    | b => exact .inl rfl
  | both slot_a slot_b =>
    cases slot with
    | a => simpa [stopped] using erase_slot_rejected crc32 (disk .a) slot_a
    | b => simpa [stopped] using erase_slot_rejected crc32 (disk .b) slot_b

/-- A touched slot is invalid; an untouched one is what it was. -/
theorem stopped_read (crc32 : Bytes → UInt32) {disk : Disk} (stop : EraseStop) {slot : Slot} {contents : SlotContents}
    (accepted : read_slot crc32 (disk slot) none = .ok contents) :
    (stopped disk stop slot = disk slot ∧ read_slot crc32 (stopped disk stop slot) none = .ok contents) ∨
    (stopped disk stop slot ≠ disk slot ∧
      ∃ reason, read_slot crc32 (stopped disk stop slot) none = .error reason) := by
  rcases stopped_rejected crc32 disk stop slot with same | rejects
  · exact .inl ⟨same, same ▸ accepted⟩
  · refine .inr ⟨fun same => rejects none contents (same ▸ accepted), ?_⟩
    cases outcome : read_slot crc32 (stopped disk stop slot) none with
    | error reason => exact ⟨reason, rfl⟩
    | ok contents => exact absurd outcome (rejects none contents)

/-- What a boot finds after an erasure of two valid slots was interrupted or failed
    on a file: the newest payload while its file is as it was, the older payload
    exactly when the newest file has been touched and the older one has not, and
    nothing when both have been touched. -/
theorem interrupted_erase (crc32 : Bytes → UInt32) (disk : Disk) (stop : EraseStop) (newest : Slot)
    (new old : SlotContents)
    (wins : winner (read_slot crc32 (disk .a) none) (read_slot crc32 (disk .b) none) = some (newest, new))
    (second : read_slot crc32 (disk newest.other) none = .ok old) :
    reread crc32 (stopped disk stop) =
      if stopped disk stop newest = disk newest then some new.data
      else if stopped disk stop newest.other = disk newest.other then some old.data
      else none := by
  rw [reread_eq]
  cases newest with
  | a =>
    have second : read_slot crc32 (disk .b) none = .ok old := second
    cases first : read_slot crc32 (disk .a) none with
    | error reason => simp [first, second, winner] at wins
    | ok contents =>
      obtain ⟨notLarger, rfl⟩ : ¬ contents.seq < old.seq ∧ contents = new := by
        simp only [first, second, winner] at wins
        split at wins <;> simp_all
      rcases stopped_read crc32 stop first with ⟨sameA, readA⟩ | ⟨touchedA, reasonA, readA⟩
      · rcases stopped_read crc32 stop second with ⟨sameB, readB⟩ | ⟨touchedB, reasonB, readB⟩
        · simp [sameA, sameB, first, second, winner, notLarger]
        · simp [first, second, readA, readB, sameA, winner]
      · rcases stopped_read crc32 stop second with ⟨sameB, readB⟩ | ⟨touchedB, reasonB, readB⟩
        · simp [first, second, readA, readB, touchedA, sameB, winner, Slot.other]
        · simp [first, second, readA, readB, touchedA, touchedB, winner, Slot.other]
  | b =>
    have second : read_slot crc32 (disk .a) none = .ok old := second
    cases first : read_slot crc32 (disk .b) none with
    | error reason => simp [first, second, winner] at wins
    | ok contents =>
      obtain ⟨larger, rfl⟩ : old.seq < contents.seq ∧ contents = new := by
        simp only [first, second, winner] at wins
        split at wins <;> simp_all
      rcases stopped_read crc32 stop first with ⟨sameB, readB⟩ | ⟨touchedB, reasonB, readB⟩
      · rcases stopped_read crc32 stop second with ⟨sameA, readA⟩ | ⟨touchedA, reasonA, readA⟩
        · simp [sameA, sameB, first, second, winner, larger]
        · simp [first, second, readA, readB, sameB, winner]
      · rcases stopped_read crc32 stop second with ⟨sameA, readA⟩ | ⟨touchedA, reasonA, readA⟩
        · simp [first, second, readA, readB, touchedB, sameA, winner, Slot.other]
        · simp [first, second, readA, readB, touchedA, touchedB, winner, Slot.other]

/-- The two files named one by one. -/
def twoFiles (file_a file_b : Bytes) : Disk
  | .a => some file_a
  | .b => some file_b

/-- With the newest payload in slot b, a failing erasure of slot b alone keeps it. -/
theorem interrupted_erase_newest_survives :
    reread (fun _ => 0) (stopped (twoFiles (slot_frame (fun _ => 0) 2 [8]) (slot_frame (fun _ => 0) 3 [7]))
        (.both { writes := [.wrote 100] } { opens := false })) = some [7] :=
  interrupted_erase (fun _ => 0) (twoFiles (slot_frame (fun _ => 0) 2 [8]) (slot_frame (fun _ => 0) 3 [7]))
    (.both { writes := [.wrote 100] } { opens := false }) .b ⟨[7], 3⟩ ⟨[8], 2⟩ rfl rfl

/-- The newest payload is in slot a, and the process dies between the two erasures:
    the next boot reads the older payload. -/
theorem erase_rolls_back :
    reread (fun _ => 0) (twoFiles (slot_frame (fun _ => 0) 3 [7]) (slot_frame (fun _ => 0) 2 [8])) = some [7] ∧
    reread (fun _ => 0) (stopped (twoFiles (slot_frame (fun _ => 0) 3 [7]) (slot_frame (fun _ => 0) 2 [8]))
      (.first { writes := [.wrote 100] })) = some [8] := by
  constructor <;> rfl

end

end PiJade.SettingsRuns
