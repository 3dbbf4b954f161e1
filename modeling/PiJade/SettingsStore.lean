import Mathlib.Data.List.Basic
import Mathlib.Logic.Function.Basic
import Mathlib.Tactic.Common
import PiJade.Bytes
import PiJade.Machine

/-!
The settings store (`pijade/host/settings_store.c`): one settings blob kept in two
alternating slot files, each a frame of magic, sequence number, length, payload and
CRC. Every system call that can fail is an argument, so that a call of a store
function is a function of the two files, the handle and how its system calls went.
The CRC is an arbitrary function of the framed bytes.
-/
namespace PiJade.SettingsStore
set_option linter.unusedSimpArgs false

open Bytes (WriteResult write_all write_all_initial write_all_all)

def SETTINGS_MAX_LEN : Nat := 131072
def SLOT_HEADER_LEN : Nat := 16
def SLOT_CRC_LEN : Nat := 4
def SLOT_OVERHEAD : Nat := SLOT_HEADER_LEN + SLOT_CRC_LEN
def UINT32_MAX : UInt32 := 4294967295

/-- `PJSLOT01`. -/
def SLOT_MAGIC : Bytes := [80, 74, 83, 76, 79, 84, 48, 49]

/-- The two slot files, `<base>.a` and `<base>.b`. -/
inductive Slot where
  | a
  | b
  deriving DecidableEq, Repr

/-- `1 - slot`. -/
def Slot.other : Slot → Slot
  | .a => .b
  | .b => .a

@[simp] theorem Slot.other_other (slot : Slot) : slot.other.other = slot := by cases slot <;> rfl
@[simp] theorem Slot.other_ne (slot : Slot) : slot.other ≠ slot := by cases slot <;> simp [Slot.other]
@[simp] theorem Slot.ne_other (slot : Slot) : slot ≠ slot.other := (Slot.other_ne slot).symm

theorem Slot.eq_or_other (slot target : Slot) : slot = target ∨ slot = target.other := by
  cases slot <;> cases target <;> simp [Slot.other]

/-- The contents of the two files; `none` where there is no file. -/
abbrev Disk := Slot → Option Bytes

/-- `struct settings_store`; a negative `newest_slot` is `none`. -/
structure Store where
  newest_slot : Option Slot := none
  newest_seq : UInt32 := 0
  next_slot : Slot := .a
  deriving DecidableEq, Repr

/-- `struct slot_contents` of a valid slot. -/
structure SlotContents where
  data : Bytes
  seq : UInt32
  deriving DecidableEq, Repr

/-- Why `read_slot` leaves a slot invalid; all but the first are logged. -/
inductive Ignored where
  | absent
  | failed
  | invalid_size
  | out_of_memory
  | invalid_magic
  | invalid_length
  | invalid_crc
  deriving DecidableEq, Repr

/-- `enum slot_header_state`, with the sequence number a known header carries. -/
inductive SlotHeaderState where
  | absent
  | invalid
  | known (seq : UInt32)
  | unknown
  deriving DecidableEq, Repr

def read_le32 : Bytes → UInt32
  | p0 :: p1 :: p2 :: p3 :: _ => p0.toUInt32 ||| p1.toUInt32 <<< 8 ||| p2.toUInt32 <<< 16 ||| p3.toUInt32 <<< 24
  | _ => 0

def write_le32 (value : UInt32) : Bytes :=
  [value.toUInt8, (value >>> 8).toUInt8, (value >>> 16).toUInt8, (value >>> 24).toUInt8]

@[simp] theorem read_le32_write_le32 (value : UInt32) (rest : Bytes) :
    read_le32 (write_le32 value ++ rest) = value :=
  Bytes.join_split32 value

/-- Only the first four bytes are read. -/
theorem read_le32_append {p : Bytes} (long : 4 ≤ p.length) (rest : Bytes) : read_le32 (p ++ rest) = read_le32 p := by
  match p, long with
  | _ :: _ :: _ :: _ :: _, _ => rfl

@[simp] theorem length_write_le32 (value : UInt32) : (write_le32 value).length = 4 := rfl

/-- The call of `read_slot` that fails. -/
inductive ReadFault where
  | opening
  | fstat
  | frame_malloc
  | read_all
  | data_malloc
  deriving DecidableEq, Repr

/-- How the system calls of one `erase_slot` go. -/
structure EraseCalls where
  lstat : Bool := true
  regular : Bool := true
  opens : Bool := true
  fstat : Bool := true
  writes : List WriteResult := []
  fsync : Bool := true
  close : Bool := true
  unlink : Bool := true
  deriving DecidableEq, Repr

/-- How the system calls of one `settings_store_write` go. -/
structure WriteCalls where
  probe : Bool := true
  malloc : Bool := true
  opens : Bool := true
  writes : List WriteResult := []
  fsync : Bool := true
  close : Bool := true
  erase : EraseCalls := {}
  deriving DecidableEq, Repr

section
variable (crc32 : Bytes → UInt32)

def read_slot (file : Option Bytes) (fault : Option ReadFault) : Except Ignored SlotContents :=
  if fault = some .opening then .error .failed
  else match file with
  | none => .error .absent
  | some frame =>
    if fault = some .fstat then .error .failed
    else if frame.length < SLOT_OVERHEAD ∨ SLOT_OVERHEAD + SETTINGS_MAX_LEN < frame.length then .error .invalid_size
    else if fault = some .frame_malloc then .error .out_of_memory
    else if fault = some .read_all then .error .failed
    else
      let payload_len := (read_le32 (frame.drop 12)).toNat
      if frame.take SLOT_MAGIC.length ≠ SLOT_MAGIC then .error .invalid_magic
      else if payload_len = 0 ∨ SETTINGS_MAX_LEN < payload_len then .error .invalid_length
      else if frame.length ≠ SLOT_OVERHEAD + payload_len then .error .invalid_size
      else if read_le32 (frame.drop (SLOT_HEADER_LEN + payload_len)) ≠
          crc32 (frame.take (SLOT_HEADER_LEN + payload_len)) then .error .invalid_crc
      else if fault = some .data_malloc then .error .out_of_memory
      else .ok { data := (frame.drop SLOT_HEADER_LEN).take payload_len, seq := read_le32 (frame.drop 8) }

/-- The probe of a header; `readable` is false when the file cannot be opened or read. -/
def probe_slot_header (file : Option Bytes) (readable : Bool) : SlotHeaderState :=
  if !readable then .unknown
  else match file with
  | none => .absent
  | some bytes =>
    let header := bytes.take SLOT_HEADER_LEN
    if header.length = SLOT_HEADER_LEN ∧ header.take SLOT_MAGIC.length = SLOT_MAGIC then
      .known (read_le32 (header.drop 8))
    else .invalid

def settings_store_open : Store := {}

/-- The slot `settings_store_read` decides for. -/
def winner : Except Ignored SlotContents → Except Ignored SlotContents → Option (Slot × SlotContents)
  | .ok a, .ok b => if b.seq > a.seq then some (.b, b) else some (.a, a)
  | .ok a, .error _ => some (.a, a)
  | .error _, .ok b => some (.b, b)
  | .error _, .error _ => none

def settings_store_read (disk : Disk) (store : Store) (fault_a fault_b : Option ReadFault) : Option Bytes × Store :=
  match winner (read_slot crc32 (disk .a) fault_a) (read_slot crc32 (disk .b) fault_b) with
  | none => (none, { store with newest_slot := none, next_slot := .a })
  | some (slot, contents) =>
    (some contents.data,
      { newest_slot := some slot
        newest_seq := if contents.seq > store.newest_seq then contents.seq else store.newest_seq
        next_slot := slot.other })

/-- The file after the erasure stopped, and whether it succeeded. The zeros go out
    in chunks of 4096 bytes, which only bounds what one `write` can take. -/
def erase_slot (file : Option Bytes) (calls : EraseCalls) : Option Bytes × Bool :=
  if !calls.lstat then (file, false)
  else match file with
  | none => (none, true)
  | some bytes =>
    if !calls.regular || !calls.opens || !calls.fstat then (file, false)
    else
      let zeros := write_all (List.replicate bytes.length 0) calls.writes
      if zeros.2 && calls.fsync && calls.close && calls.unlink then (none, true)
      else (some (zeros.1 ++ bytes.drop zeros.1.length), false)

/-- Magic, sequence number and payload length. -/
def slot_header (seq : UInt32) (data : Bytes) : Bytes :=
  SLOT_MAGIC ++ (write_le32 seq ++ write_le32 (UInt32.ofNat data.length))

/-- The frame of a payload: header, payload and the CRC of both. -/
def slot_frame (seq : UInt32) (data : Bytes) : Bytes :=
  slot_header seq data ++ data ++ write_le32 (crc32 (slot_header seq data ++ data))

/-- The sequence counter once the header of the other slot has been probed. -/
def probed (store : Store) (header : SlotHeaderState) : UInt32 :=
  match header with
  | .known seq => if seq > store.newest_seq then seq else store.newest_seq
  | _ => store.newest_seq

def settings_store_write (disk : Disk) (store : Store) (data : Bytes) (calls : WriteCalls) : Bool × Store × Disk :=
  if data.length = 0 ∨ SETTINGS_MAX_LEN < data.length then (false, store, disk)
  else
    let target := store.next_slot
    let other := target.other
    let header := probe_slot_header (disk other) calls.probe
    let store := { store with newest_seq := probed store header }
    if store.newest_seq = UINT32_MAX then (false, store, disk)
    else
      let seq := store.newest_seq + 1
      let store := { store with newest_seq := seq }
      if !calls.malloc then (false, store, disk)
      else
        let written := write_all (slot_frame crc32 seq data) calls.writes
        let ok := calls.opens && written.2 && calls.fsync && calls.close
        let disk := if calls.opens then Function.update disk target (some written.1) else disk
        if !ok then
          (false, if store.newest_slot = none then { store with next_slot := target.other } else store, disk)
        else
          let store := { store with newest_slot := some target, next_slot := target.other }
          -- An unreadable other slot may hold a later number than ours.
          if header = .unknown then
            let erased := erase_slot (disk other) calls.erase
            (erased.2, store, Function.update disk other erased.1)
          else (true, store, disk)

/-- `slot_present`; a failing `lstat` other than `ENOENT` counts as present. -/
def slot_present (file : Option Bytes) (lstat : Bool) : Bool := !lstat || file.isSome

/-- How the calls of one `settings_store_erase` go: the two erasures, and the two
    `lstat` calls that look for survivors. -/
structure EraseAllCalls where
  slot_a : EraseCalls := {}
  slot_b : EraseCalls := {}
  lstat_a : Bool := true
  lstat_b : Bool := true
  deriving DecidableEq, Repr

def settings_store_erase (disk : Disk) (store : Store) (calls : EraseAllCalls) : Bool × Store × Disk :=
  let disk := Function.update disk .a (erase_slot (disk .a) calls.slot_a).1
  let disk := Function.update disk .b (erase_slot (disk .b) calls.slot_b).1
  let present_a := slot_present (disk .a) calls.lstat_a
  let present_b := slot_present (disk .b) calls.lstat_b
  (!present_a && !present_b,
    { store with
      newest_slot := none
      next_slot := if present_a != present_b then (if present_a then .a else .b) else .a },
    disk)

/-! ### Frames and slots -/

/-- A payload that the store accepts. -/
def Storable (data : Bytes) : Prop := 0 < data.length ∧ data.length ≤ SETTINGS_MAX_LEN

instance (data : Bytes) : Decidable (Storable data) := inferInstanceAs (Decidable (_ ∧ _))

private theorem ok_of_guard {ε α : Type} {p : Prop} [Decidable p] {e : ε} {x : Except ε α} {value : α}
    (ok : (if p then .error e else x) = .ok value) : ¬ p ∧ x = .ok value := by
  by_cases holds : p
  · simp [holds] at ok
  · exact ⟨holds, by simpa [holds] using ok⟩

/-- What holds of a slot that is accepted. -/
theorem read_slot_ok {file : Option Bytes} {fault : Option ReadFault} {contents : SlotContents}
    (accepted : read_slot crc32 file fault = .ok contents) :
    fault = none ∧ ∃ frame, file = some frame ∧ SLOT_OVERHEAD ≤ frame.length ∧
      frame.take SLOT_MAGIC.length = SLOT_MAGIC ∧
      frame.length = SLOT_OVERHEAD + (read_le32 (frame.drop 12)).toNat ∧
      contents.seq = read_le32 (frame.drop 8) := by
  obtain ⟨opened, accepted⟩ := ok_of_guard accepted
  cases file with
  | none => simp at accepted
  | some frame =>
    obtain ⟨stated, accepted⟩ := ok_of_guard accepted
    obtain ⟨sized, accepted⟩ := ok_of_guard accepted
    obtain ⟨allocated, accepted⟩ := ok_of_guard accepted
    obtain ⟨allRead, accepted⟩ := ok_of_guard accepted
    obtain ⟨magic, accepted⟩ := ok_of_guard accepted
    obtain ⟨-, accepted⟩ := ok_of_guard accepted
    obtain ⟨exactLen, accepted⟩ := ok_of_guard accepted
    obtain ⟨-, accepted⟩ := ok_of_guard accepted
    obtain ⟨copied, accepted⟩ := ok_of_guard accepted
    simp only [Except.ok.injEq] at accepted
    subst accepted
    have healthy : fault = none := by
      rcases fault with _ | fault
      · rfl
      · cases fault <;> simp_all
    exact ⟨healthy, frame, rfl, by omega, by simpa using magic, by simpa using exactLen, rfl⟩

@[simp] theorem length_slot_header (seq : UInt32) (data : Bytes) :
    (slot_header seq data).length = SLOT_HEADER_LEN := rfl

theorem length_slot_frame (seq : UInt32) (data : Bytes) :
    (slot_frame crc32 seq data).length = SLOT_OVERHEAD + data.length := by
  simp only [slot_frame, List.length_append, length_slot_header, length_write_le32, SLOT_OVERHEAD, SLOT_CRC_LEN]
  omega

/-- The sequence field of a frame. -/
theorem frame_seq_field (seq : UInt32) (data : Bytes) : read_le32 ((slot_frame crc32 seq data).drop 8) = seq := by
  have field : (slot_frame crc32 seq data).drop 8 = write_le32 seq ++ (write_le32 (UInt32.ofNat data.length) ++
      (data ++ write_le32 (crc32 (slot_header seq data ++ data)))) := rfl
  rw [field, read_le32_write_le32]

/-- The length field of a frame. -/
theorem frame_len_field (seq : UInt32) {data : Bytes} (storable : Storable data) :
    (read_le32 ((slot_frame crc32 seq data).drop 12)).toNat = data.length := by
  have field : (slot_frame crc32 seq data).drop 12 = write_le32 (UInt32.ofNat data.length) ++
      (data ++ write_le32 (crc32 (slot_header seq data ++ data))) := rfl
  have fits : data.length < 2 ^ 32 := Nat.lt_of_le_of_lt storable.2 (by decide)
  rw [field, read_le32_write_le32, UInt32.toNat_ofNat_of_lt' fits]

/-- A complete frame is read back. -/
theorem read_slot_frame (seq : UInt32) {data : Bytes} (storable : Storable data) :
    read_slot crc32 (some (slot_frame crc32 seq data)) none = .ok ⟨data, seq⟩ := by
  have magic : (slot_frame crc32 seq data).take SLOT_MAGIC.length = SLOT_MAGIC := rfl
  have bodyLength : (slot_header seq data ++ data).length = SLOT_HEADER_LEN + data.length := by simp
  have body : (slot_frame crc32 seq data).take (SLOT_HEADER_LEN + data.length) = slot_header seq data ++ data :=
    List.take_left' bodyLength
  have tail : (slot_frame crc32 seq data).drop (SLOT_HEADER_LEN + data.length) =
      write_le32 (crc32 (slot_header seq data ++ data)) ++ [] := by
    rw [slot_frame, List.drop_left' bodyLength, List.append_nil]
  have payload : ((slot_frame crc32 seq data).drop SLOT_HEADER_LEN).take data.length = data := by
    rw [slot_frame, List.append_assoc, List.drop_left' (length_slot_header seq data), List.take_left' rfl]
  have ⟨nonempty, bounded⟩ := storable
  unfold read_slot
  simp only [reduceCtorEq, ↓reduceIte, length_slot_frame, frame_len_field crc32 seq storable, body, tail, payload,
    magic, frame_seq_field, read_le32_write_le32, ne_eq, not_true_eq_false]
  rw [if_neg (by omega), if_neg (by omega)]

theorem read_slot_frame_seq {seq : UInt32} {data : Bytes} {fault : Option ReadFault} {contents : SlotContents}
    (accepted : read_slot crc32 (some (slot_frame crc32 seq data)) fault = .ok contents) : contents.seq = seq := by
  obtain ⟨-, frame, same, -, -, -, number⟩ := read_slot_ok crc32 accepted
  obtain rfl := Option.some.inj same
  rw [number, frame_seq_field]

/-- A proper prefix of a frame is not accepted: the length field tells what is missing. -/
theorem read_slot_torn {seq : UInt32} {data written : Bytes} (storable : Storable data)
    (isPrefix : written <+: slot_frame crc32 seq data) {fault : Option ReadFault} {contents : SlotContents}
    (accepted : read_slot crc32 (some written) fault = .ok contents) : written = slot_frame crc32 seq data := by
  obtain ⟨-, frame, same, minimal, -, exactLen, -⟩ := read_slot_ok crc32 accepted
  obtain rfl : written = frame := Option.some.inj same
  apply List.IsPrefix.eq_of_length isPrefix
  rw [length_slot_frame, exactLen]
  obtain ⟨missing, whole⟩ := isPrefix
  -- The length field lies within the part that was written.
  have minimal : 20 ≤ written.length := minimal
  have lenField := frame_len_field crc32 seq storable
  rw [← whole, List.drop_append_of_le_length (by omega), read_le32_append (by simp; omega)] at lenField
  rw [lenField]

/-- The header of an accepted slot is known. -/
theorem probe_of_accepted {file : Option Bytes} {fault : Option ReadFault} {contents : SlotContents}
    (accepted : read_slot crc32 file fault = .ok contents) : probe_slot_header file true = .known contents.seq := by
  obtain ⟨-, frame, rfl, minimal, magic, -, seq⟩ := read_slot_ok crc32 accepted
  have minimal : 20 ≤ frame.length := minimal
  have long : (frame.take SLOT_HEADER_LEN).length = SLOT_HEADER_LEN := by
    rw [List.length_take, SLOT_HEADER_LEN]
    omega
  have magic' : (frame.take SLOT_HEADER_LEN).take SLOT_MAGIC.length = SLOT_MAGIC := by
    rw [List.take_take]
    exact magic
  have split : frame.drop 8 = (frame.take SLOT_HEADER_LEN).drop 8 ++ frame.drop SLOT_HEADER_LEN := by
    rw [← List.drop_append_of_le_length (by rw [long]; decide), List.take_append_drop]
  have field : read_le32 ((frame.take SLOT_HEADER_LEN).drop 8) = contents.seq := by
    rw [seq, split, read_le32_append]
    rw [List.length_drop, long]
    decide
  simp [probe_slot_header, long, magic', field]

/-- Everything an erasure can leave behind and return. -/
inductive EraseOutcome : Option Bytes → Option Bytes × Bool → Prop where
  | gone (file : Option Bytes) : EraseOutcome file (none, true)
  | untouched (file : Option Bytes) : EraseOutcome file (file, false)
  | zeroed (bytes : Bytes) (count : Nat) :
      EraseOutcome (some bytes) (some (List.replicate count 0 ++ bytes.drop count), false)

theorem erase_outcome (file : Option Bytes) (calls : EraseCalls) : EraseOutcome file (erase_slot file calls) := by
  unfold erase_slot
  split
  · exact .untouched file
  · cases file with
    | none => exact .gone none
    | some bytes =>
      simp only
      split
      · exact .untouched (some bytes)
      · split
        · exact .gone (some bytes)
        · -- What was written is a run of zeros.
          have zeros : (write_all (List.replicate bytes.length 0) calls.writes).1 =
              List.replicate (write_all (List.replicate bytes.length 0) calls.writes).1.length 0 :=
            List.eq_replicate_of_mem fun byte member =>
              List.eq_of_mem_replicate ((write_all_initial _ _).subset member)
          rw [zeros, List.length_replicate]
          exact .zeroed bytes _

/-- A slot that begins with a zero is not accepted. -/
theorem read_slot_zeroed {count : Nat} {rest : Bytes} {fault : Option ReadFault} {contents : SlotContents} :
    read_slot crc32 (some (List.replicate (count + 1) 0 ++ rest)) fault ≠ .ok contents := by
  intro accepted
  obtain ⟨-, frame, same, -, magic, -⟩ := read_slot_ok crc32 accepted
  obtain rfl := Option.some.inj same
  simp [SLOT_MAGIC, List.replicate_succ] at magic

theorem read_slot_absent {fault : Option ReadFault} {contents : SlotContents} :
    read_slot crc32 none fault ≠ .ok contents := by
  intro accepted
  obtain ⟨-, frame, gone, -⟩ := read_slot_ok crc32 accepted
  simp at gone

/-- An erasure that got anywhere leaves nothing that would be accepted. -/
theorem erase_slot_rejected (file : Option Bytes) (calls : EraseCalls) :
    (erase_slot file calls).1 = file ∨
      ∀ fault contents, read_slot crc32 (erase_slot file calls).1 fault ≠ .ok contents := by
  have outcome := erase_outcome file calls
  generalize erase_slot file calls = erased at outcome
  cases outcome with
  | gone => exact .inr fun _ _ => read_slot_absent crc32
  | untouched => exact .inl rfl
  | zeroed bytes count =>
    cases count with
    | zero => exact .inl rfl
    | succ count => exact .inr fun _ _ => read_slot_zeroed crc32

theorem erase_slot_gone {file : Option Bytes} {calls : EraseCalls} (ok : (erase_slot file calls).2 = true) :
    (erase_slot file calls).1 = none := by
  have outcome := erase_outcome file calls
  generalize erase_slot file calls = erased at outcome ok
  cases outcome with
  | gone => rfl
  | untouched => simp at ok
  | zeroed bytes count => simp at ok

theorem newest_le_probed (store : Store) (header : SlotHeaderState) : store.newest_seq ≤ probed store header := by
  unfold probed
  cases header with
  | known seq =>
    simp only
    split
    · exact UInt32.le_of_lt ‹_›
    · exact UInt32.le_refl _
  | _ => exact UInt32.le_refl _

theorem known_le_probed (store : Store) (seq : UInt32) : seq ≤ probed store (.known seq) := by
  unfold probed
  simp only
  split
  · exact UInt32.le_refl _
  · exact UInt32.not_lt.mp ‹_›

theorem lt_succ_of_ne_max {seq : UInt32} (room : seq ≠ UINT32_MAX) : seq < seq + 1 := by
  have bound : seq.toNat ≠ 4294967295 := fun full => room (UInt32.toNat_inj.mp full)
  have small := seq.toNat_lt
  rw [UInt32.lt_iff_toNat_lt, UInt32.toNat_add]
  simp
  omega

/-! ### What one write can do -/

/-- The handle after a write whose frame did not become durable. -/
def failedStore (store : Store) (seq : UInt32) : Store :=
  if store.newest_slot = none then { store with newest_seq := seq, next_slot := store.next_slot.other }
  else { store with newest_seq := seq }

@[simp] theorem failedStore_newest_seq (store : Store) (seq : UInt32) : (failedStore store seq).newest_seq = seq := by
  unfold failedStore
  split <;> rfl

/-- The sequence counter a write takes its number from. -/
def drawn (disk : Disk) (store : Store) (probe : Bool) : UInt32 :=
  probed store (probe_slot_header (disk store.next_slot.other) probe)

/-- Everything a write can return and leave behind. -/
inductive WriteOutcome (disk : Disk) (store : Store) (data : Bytes) (calls : WriteCalls) :
    Bool × Store × Disk → Prop where
  | refused (unfit : ¬ Storable data) : WriteOutcome disk store data calls (false, store, disk)
  | exhausted (full : drawn disk store calls.probe = UINT32_MAX) :
      WriteOutcome disk store data calls (false, { store with newest_seq := UINT32_MAX }, disk)
  | no_memory (storable : Storable data) (room : drawn disk store calls.probe ≠ UINT32_MAX) :
      WriteOutcome disk store data calls
        (false, { store with newest_seq := drawn disk store calls.probe + 1 }, disk)
  | not_opened (storable : Storable data) (room : drawn disk store calls.probe ≠ UINT32_MAX) :
      WriteOutcome disk store data calls (false, failedStore store (drawn disk store calls.probe + 1), disk)
  | stopped (storable : Storable data) (room : drawn disk store calls.probe ≠ UINT32_MAX) (written : Bytes)
      (isPrefix : written <+: slot_frame crc32 (drawn disk store calls.probe + 1) data) :
      WriteOutcome disk store data calls (false, failedStore store (drawn disk store calls.probe + 1),
        Function.update disk store.next_slot (some written))
  | durable (storable : Storable data) (room : drawn disk store calls.probe ≠ UINT32_MAX)
      (clear : calls.probe = true) :
      WriteOutcome disk store data calls (true,
        { newest_slot := some store.next_slot
          newest_seq := drawn disk store calls.probe + 1
          next_slot := store.next_slot.other },
        Function.update disk store.next_slot (some (slot_frame crc32 (drawn disk store calls.probe + 1) data)))
  | cleaned (storable : Storable data) (room : drawn disk store calls.probe ≠ UINT32_MAX)
      (unclear : calls.probe = false) :
      WriteOutcome disk store data calls ((erase_slot (disk store.next_slot.other) calls.erase).2,
        { newest_slot := some store.next_slot
          newest_seq := drawn disk store calls.probe + 1
          next_slot := store.next_slot.other },
        Function.update (Function.update disk store.next_slot
            (some (slot_frame crc32 (drawn disk store calls.probe + 1) data)))
          store.next_slot.other (erase_slot (disk store.next_slot.other) calls.erase).1)

theorem probe_unknown_iff (file : Option Bytes) (readable : Bool) :
    probe_slot_header file readable = .unknown ↔ readable = false := by
  cases readable with
  | false => simp [probe_slot_header]
  | true =>
    cases file with
    | none => simp [probe_slot_header]
    | some bytes =>
      simp only [probe_slot_header, Bool.not_true, Bool.false_eq_true, ↓reduceIte, Bool.true_eq_false, iff_false]
      split <;> simp

theorem write_outcome (disk : Disk) (store : Store) (data : Bytes) (calls : WriteCalls) :
    WriteOutcome crc32 disk store data calls (settings_store_write crc32 disk store data calls) := by
  unfold settings_store_write
  split
  · exact .refused (by simp only [Storable]; omega)
  · have storable : Storable data := by simp only [Storable]; omega
    simp only
    split
    · rename_i full
      rw [full]
      exact .exhausted full
    · rename_i room
      split
      · exact .no_memory storable room
      · have shape := write_all_initial (slot_frame crc32 (drawn disk store calls.probe + 1) data) calls.writes
        have complete := @write_all_all (slot_frame crc32 (drawn disk store calls.probe + 1) data) calls.writes
        simp only [drawn] at shape complete
        by_cases opened : calls.opens = true
        · simp only [opened, ↓reduceIte, Bool.true_and, probe_unknown_iff]
          split
          · exact .stopped storable room _ shape
          · rename_i ok
            simp only [Bool.not_eq_true', Bool.not_eq_false, Bool.and_eq_true] at ok
            rw [complete ok.1.1]
            split
            · rename_i unclear
              rw [Function.update_of_ne (Slot.other_ne _)]
              exact .cleaned storable room unclear
            · rename_i clear
              exact .durable storable room (by simpa using clear)
        · simp only [opened, Bool.false_and, Bool.not_false, Bool.false_eq_true, ↓reduceIte]
          exact .not_opened storable room

end

end PiJade.SettingsStore
