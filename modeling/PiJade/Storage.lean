import Mathlib.Logic.Function.Basic
import PiJade.Process
import PiJade.SettingsStore

/-!
Device storage (`main/storage.c` over `libjade/nvs_flash.c`). The store is five maps in
memory and the copy of them that outlives a power cut. Every nvs call takes the next
answer of the storage layer: it works, or it fails, and a failed commit may have reached
the copy all the same. Where the answers end the power is cut. The log is a ghost: what
the pin counter was read as, what a commit reported as written, and, of the keychain, the
checks it makes of a stored blob.
-/
namespace PiJade.Storage
set_option linter.unusedSimpArgs false
open SettingsStore (write_le32 read_le32)

/-! ### Names -/

def DEFAULT_NAMESPACE : String := "PIN"
def MULTISIG_NAMESPACE : String := "MULTISIGS"
def DESCRIPTOR_NAMESPACE : String := "DESCRIPTORS"
def OTP_NAMESPACE : String := "OTP"
def HOTP_COUNTERS_NAMESPACE : String := "HOTPC"

def PIN_PRIVATEKEY_FIELD : String := "privatekey"
def PIN_COUNTER_FIELD : String := "counter"
def REPLAY_COUNTER_FIELD : String := "antireplay"
def BLOB_FIELD : String := "blob"
def KEY_FLAGS_FIELD : String := "keyflags"
def USER_PINSERVER_URL_A : String := "pinsvrurlA"
def USER_PINSERVER_URL_B : String := "pinsvrurlB"
def USER_PINSERVER_PUBKEY : String := "pinsvrpubkey"
def NETWORK_TYPE_FIELD : String := "networktype"

/-! ### The maps and the calls on them -/

/-- The five maps, by what is found under each key. -/
abbrev Contents := Fin 5 → String → Option Bytes

/-- The maps with one key of one map bound to a value, or to none. -/
def Contents.bind (contents : Contents) (handle : Fin 5) (key : String) (value : Option Bytes) : Contents :=
  Function.update contents handle (Function.update (contents handle) key value)

/-- What an nvs call answers. `persisted` is read of a failed commit only: the copy was
    written although the call reports a failure. -/
inductive Answer where
  | ok
  | failed (persisted : Bool)
  deriving DecidableEq, Repr

/-- `esp_err_t`, as far as the callers tell the codes apart. -/
inductive EspErr where
  | ESP_OK
  | ESP_ERR_NVS_NOT_FOUND
  | ESP_FAIL
  deriving DecidableEq, Repr

inductive Event where
  | counter (value : UInt8)
  | committed (contents : Contents)
  | set_encrypted_blob
  | hmac_check
  | decrypted

structure Device where
  nvs_storage : Contents
  durable : Contents
  answers : List Answer
  log : List Event

/-- Why code stops that neither returns nor aborts. -/
inductive Interrupt where
  | power_cut
  deriving DecidableEq, Repr

abbrev Code := Proc Device Interrupt

/-- The storage layer's next answer. -/
def answer : Code Answer := fun dev =>
  match dev.answers with
  | [] => (.error (.error .power_cut), dev)
  | first :: rest => (.ok first, { dev with answers := rest })

def record (event : Event) : Code Unit := Proc.update fun dev => { dev with log := dev.log ++ [event] }

/-- The map of everything that has no namespace of its own. -/
def defaultMap : Fin 5 := 0

def get_nvs_ns (ns : String) : Option (Fin 5) :=
  if ns = DEFAULT_NAMESPACE then some defaultMap
  else if ns = MULTISIG_NAMESPACE then some 1
  else if ns = DESCRIPTOR_NAMESPACE then some 2
  else if ns = OTP_NAMESPACE then some 3
  else if ns = HOTP_COUNTERS_NAMESPACE then some 4
  else none

/-- The handle, or nothing when the call fails. -/
def nvs_open (ns : String) : Code (Option (Fin 5)) := do
  match ← answer with
  | .ok => pure (get_nvs_ns ns)
  | .failed _ => pure none

def nvs_set_blob (handle : Fin 5) (key : String) (value : Bytes) : Code EspErr := do
  match ← answer with
  | .ok =>
    Proc.update fun dev => { dev with nvs_storage := dev.nvs_storage.bind handle key (some value) }
    pure .ESP_OK
  | .failed _ => pure .ESP_FAIL

/-- The value, which must fit in `length` bytes. -/
def nvs_get_blob (handle : Fin 5) (key : String) (length : Nat) : Code (Except EspErr Bytes) := do
  match ← answer with
  | .ok =>
    match ← Proc.read fun dev => dev.nvs_storage handle key with
    | none => pure (.error .ESP_ERR_NVS_NOT_FOUND)
    | some value => pure (if length < value.length then .error .ESP_ERR_NVS_NOT_FOUND else .ok value)
  | .failed _ => pure (.error .ESP_FAIL)

/-- A string is stored with its terminator. -/
def nvs_set_str (handle : Fin 5) (key : String) (value : Bytes) : Code EspErr := nvs_set_blob handle key (value ++ [0])

def nvs_set_u32 (handle : Fin 5) (key : String) (value : UInt32) : Code EspErr :=
  nvs_set_blob handle key (write_le32 value)

/-- A shorter value leaves the rest of `le_value` as the stack had it. -/
def nvs_get_u32 (handle : Fin 5) (key : String) (le_value : Bytes) : Code (Except EspErr UInt32) := do
  match ← nvs_get_blob handle key 4 with
  | .error err => pure (.error err)
  | .ok value => pure (.ok (read_le32 (value ++ le_value.drop value.length)))

def nvs_erase_key (handle : Fin 5) (key : String) : Code EspErr := do
  match ← answer with
  | .ok =>
    match ← Proc.read fun dev => dev.nvs_storage handle key with
    | none => pure .ESP_ERR_NVS_NOT_FOUND
    | some _ =>
      Proc.update fun dev => { dev with nvs_storage := dev.nvs_storage.bind handle key none }
      pure .ESP_OK
  | .failed _ => pure .ESP_FAIL

/-- Every handle names one of the maps, and all of them are written. -/
def nvs_commit : Code EspErr := do
  match ← answer with
  | .ok =>
    Proc.update fun dev => { dev with durable := dev.nvs_storage }
    record (.committed (← Proc.read Device.nvs_storage))
    pure .ESP_OK
  | .failed persisted =>
    Proc.update fun dev => { dev with durable := if persisted then dev.nvs_storage else dev.durable }
    pure .ESP_FAIL

/-! ### Writing -/

/-- One `STORAGE_SET_BLOB`, `STORAGE_SET_STRING` or `STORAGE_ERASE`. -/
inductive Edit where
  | SET_BLOB (key : String) (value : Bytes)
  | SET_STRING (key : String) (value : Bytes)
  | ERASE (key : String)
  deriving DecidableEq, Repr

namespace Edit

/-- The nvs call of an edit, and whether its macro goes on after it. -/
def apply (handle : Fin 5) : Edit → Code Bool
  | SET_BLOB key value => do pure ((← nvs_set_blob handle key value) == .ESP_OK)
  | SET_STRING key value => do pure ((← nvs_set_str handle key value) == .ESP_OK)
  | ERASE key => do
    let err ← nvs_erase_key handle key
    pure (err == .ESP_OK || err == .ESP_ERR_NVS_NOT_FOUND)

def key : Edit → String
  | SET_BLOB key _ | SET_STRING key _ | ERASE key => key

/-- What the key holds after the edit. -/
def value : Edit → Option Bytes
  | SET_BLOB _ value => some value
  | SET_STRING _ value => some (value ++ [0])
  | ERASE _ => none

end Edit

/-- The macros in order; each returns false from the caller when its call fails. -/
def edit_all (handle : Fin 5) : List Edit → Code Bool
  | [] => pure true
  | edit :: rest => do
    if ← edit.apply handle then edit_all handle rest
    else pure false

/-- The edits, then `STORAGE_COMMIT`. -/
def edit_commit (handle : Fin 5) (edits : List Edit) : Code Bool := do
  if ← edit_all handle edits then
    pure ((← nvs_commit) == .ESP_OK)
  else pure false

/-- `STORAGE_OPEN`, the edits, and `STORAGE_COMMIT`. -/
def open_edit_commit (ns : String) (edits : List Edit) : Code Bool := do
  match ← nvs_open ns with
  | none => pure false
  | some handle => edit_commit handle edits

def store_blob (ns name : String) (data : Bytes) : Code Bool := do
  Proc.lift (Check.ensure (0 < data.length))
  open_edit_commit ns [.SET_BLOB name data]

def store_string (ns name : String) (str : Bytes) : Code Bool := open_edit_commit ns [.SET_STRING name str]

def erase_key (ns name : String) : Code Bool := open_edit_commit ns [.ERASE name]

/-! ### Reading -/

def read_blob (ns name : String) (len : Nat) : Code (Option Bytes) := do
  match ← nvs_open ns with
  | none => pure none
  | some handle =>
    match ← nvs_get_blob handle name len with
    | .error _ => pure none
    | .ok value => pure (some value)

def read_blob_fixed (ns name : String) (len : Nat) : Code (Option Bytes) := do
  match ← read_blob ns name len with
  | none => pure none
  | some value => pure (if value.length = len then some value else none)

/-- A one-byte field; an unreadable one is zero. -/
def read_byte (name : String) : Code UInt8 := do
  match ← read_blob_fixed DEFAULT_NAMESPACE name 1 with
  | some [byte] => pure byte
  | _ => pure 0

/-! ### The pin counter and the encrypted blob -/

def storage_get_counter : Code UInt8 := do
  let counter ← read_byte PIN_COUNTER_FIELD
  record (.counter counter)
  pure counter

def storage_restore_counter : Code Bool := store_blob DEFAULT_NAMESPACE PIN_COUNTER_FIELD [3]

def storage_set_encrypted_blob (encrypted : Bytes) : Code Bool := do
  record .set_encrypted_blob
  if ← storage_restore_counter then store_blob DEFAULT_NAMESPACE BLOB_FIELD encrypted
  else pure false

def storage_get_encrypted_blob (encrypted_len : Nat) : Code (Option Bytes) :=
  read_blob DEFAULT_NAMESPACE BLOB_FIELD encrypted_len

/-- The blob first, then the counter; a blob that stays keeps a marker that grants no attempt. -/
def storage_erase_encrypted_blob : Code Bool := do
  if ← erase_key DEFAULT_NAMESPACE BLOB_FIELD then
    let _ ← erase_key DEFAULT_NAMESPACE PIN_COUNTER_FIELD
    pure true
  else
    let _ ← store_blob DEFAULT_NAMESPACE PIN_COUNTER_FIELD [4]
    pure false

def storage_decrement_counter : Code Bool := do
  let counter ← storage_get_counter
  if counter == 0 || counter > 3 then
    let _ ← storage_erase_encrypted_blob
    pure false
  else if ← store_blob DEFAULT_NAMESPACE PIN_COUNTER_FIELD [counter - 1] then pure true
  else
    let _ ← storage_erase_encrypted_blob
    pure false

/-! ### Other fields -/

/-- The counter in use; the next one is stored. -/
def storage_get_replay_counter (le_value : Bytes) : Code (Option UInt32) := do
  match ← nvs_open DEFAULT_NAMESPACE with
  | none => pure none
  | some handle =>
    match ← nvs_get_u32 handle REPLAY_COUNTER_FIELD le_value with
    | .error .ESP_ERR_NVS_NOT_FOUND => next handle 0
    | .error _ => pure none
    | .ok j => next handle j
where
  next (handle : Fin 5) (j : UInt32) : Code (Option UInt32) := do
    Proc.lift (Check.ensure (j < 0xFFFFFFFF))
    if ← edit_commit handle [.SET_BLOB REPLAY_COUNTER_FIELD (write_le32 (j + 1))] then pure (some j)
    else pure none

/-- Both urls, a private key to be made again, and a public key if one is given. -/
def storage_set_pinserver_details (urlA urlB pubkey : Bytes) : Code Bool :=
  open_edit_commit DEFAULT_NAMESPACE ([.SET_STRING USER_PINSERVER_URL_A urlA, .SET_STRING USER_PINSERVER_URL_B urlB,
    .ERASE PIN_PRIVATEKEY_FIELD] ++ if 0 < pubkey.length then [.SET_BLOB USER_PINSERVER_PUBKEY pubkey] else [])

def storage_erase_pinserver_details : Code Bool :=
  open_edit_commit DEFAULT_NAMESPACE [.ERASE USER_PINSERVER_URL_A, .ERASE USER_PINSERVER_URL_B,
    .ERASE USER_PINSERVER_PUBKEY, .ERASE PIN_PRIVATEKEY_FIELD]

/-- `network_type_t`: the enumeration's memory is stored as it stands. -/
abbrev NetworkType := UInt32

def NETWORK_TYPE_NONE : NetworkType := 0
def NETWORK_TYPE_MAIN : NetworkType := 1
def NETWORK_TYPE_TEST : NetworkType := 2

def storage_set_network_type_restriction (networktype : NetworkType) : Code Bool :=
  store_blob DEFAULT_NAMESPACE NETWORK_TYPE_FIELD (write_le32 networktype)

def storage_get_network_type_restriction : Code NetworkType := do
  match ← read_blob_fixed DEFAULT_NAMESPACE NETWORK_TYPE_FIELD 4 with
  | none => pure NETWORK_TYPE_NONE
  | some value => pure (read_le32 value)

def storage_set_key_flags (flags : UInt8) : Code Bool := store_blob DEFAULT_NAMESPACE KEY_FLAGS_FIELD [flags]

def storage_get_key_flags : Code UInt8 := read_byte KEY_FLAGS_FIELD

/-! ### What a write does -/

/-- The contents after some edits of one map. -/
def Contents.edit (contents : Contents) (handle : Fin 5) (edits : List Edit) : Contents :=
  edits.foldl (fun before edit => before.bind handle edit.key edit.value) contents

@[simp] theorem edit_nil (contents : Contents) (handle : Fin 5) : contents.edit handle [] = contents := rfl

@[simp] theorem edit_cons (contents : Contents) (handle : Fin 5) (first : Edit) (rest : List Edit) :
    contents.edit handle (first :: rest) = (contents.bind handle first.key first.value).edit handle rest := rfl

theorem bind_self {contents : Contents} {handle : Fin 5} {key : String} {value : Option Bytes}
    (held : contents handle key = value) : contents.bind handle key value = contents := by
  rw [Contents.bind, ← held, Function.update_eq_self, Function.update_eq_self]

theorem bind_same (contents : Contents) (handle : Fin 5) (key : String) (value : Option Bytes) :
    contents.bind handle key value handle key = value := by
  simp [Contents.bind]

theorem bind_other (contents : Contents) (handle : Fin 5) {key other : String} (value : Option Bytes)
    (distinct : other ≠ key) : contents.bind handle key value handle other = contents handle other := by
  simp [Contents.bind, distinct]

section
variable {post : Bool → Device → Prop} {halts : Halt Interrupt → Device → Prop} {dev : Device}

theorem wp_answer {post : Answer → Device → Prop}
    (value : ∀ first rest, dev.answers = first :: rest → post first { dev with answers := rest })
    (cut : dev.answers = [] → halts (.error .power_cut) dev) : Proc.wp answer post halts dev := by
  cases given : dev.answers with
  | nil => simpa [Proc.wp, answer, given] using cut given
  | cons first rest => simpa [Proc.wp, answer, given] using value first rest given

/-- An edit is made when its call is answered, and the code goes on. -/
theorem wp_apply {handle : Fin 5} {edit : Edit}
    (made : ∀ rest, dev.answers = .ok :: rest → post true { dev with
      nvs_storage := dev.nvs_storage.bind handle edit.key edit.value, answers := rest })
    (failed : ∀ persisted rest, dev.answers = .failed persisted :: rest → post false { dev with answers := rest })
    (cut : dev.answers = [] → halts (.error .power_cut) dev) : Proc.wp (edit.apply handle) post halts dev := by
  cases edit with
  | SET_BLOB key value =>
    simp only [Edit.apply, nvs_set_blob, Proc.wp_bind]
    refine wp_answer ?_ cut
    intro first rest given
    cases first with
    | ok => exact made rest given
    | failed persisted => exact failed persisted rest given
  | SET_STRING key value =>
    simp only [Edit.apply, nvs_set_str, nvs_set_blob, Proc.wp_bind]
    refine wp_answer ?_ cut
    intro first rest given
    cases first with
    | ok => exact made rest given
    | failed persisted => exact failed persisted rest given
  | ERASE key =>
    simp only [Edit.apply, nvs_erase_key, Proc.wp_bind]
    refine wp_answer ?_ cut
    intro first rest given
    cases first with
    | ok =>
      have erased := made rest given
      simp only [Proc.wp_bind, Proc.wp_read]
      cases held : dev.nvs_storage handle key with
      | none =>
        -- An absent key is no failure, and binding it to nothing changes nothing.
        rwa [show (Edit.ERASE key).key = key from rfl, show (Edit.ERASE key).value = none from rfl,
          bind_self held] at erased
      | some _ => exact erased
    | failed persisted => exact failed persisted rest given

/-- The edits made are those before the first call that fails. -/
theorem wp_edit_all {handle : Fin 5} {edits : List Edit}
    (failed : ∀ n persisted rest, n < edits.length →
      dev.answers = List.replicate n .ok ++ .failed persisted :: rest →
      post false { dev with nvs_storage := dev.nvs_storage.edit handle (edits.take n), answers := rest })
    (made : ∀ rest, dev.answers = List.replicate edits.length .ok ++ rest →
      post true { dev with nvs_storage := dev.nvs_storage.edit handle edits, answers := rest })
    (cut : ∀ n, n < edits.length → dev.answers = List.replicate n .ok →
      halts (.error .power_cut) { dev with
        nvs_storage := dev.nvs_storage.edit handle (edits.take n), answers := [] }) :
    Proc.wp (edit_all handle edits) post halts dev := by
  induction edits generalizing dev with
  | nil => exact made dev.answers rfl
  | cons first later ih =>
    simp only [edit_all, Proc.wp_bind]
    apply wp_apply
    · intro rest given
      simp only [↓reduceIte]
      apply ih
      · intro n persisted rest' bound answers
        have answers' : dev.answers = List.replicate (n + 1) .ok ++ .failed persisted :: rest' := by
          rw [given, List.replicate_succ, List.cons_append]
          exact congrArg _ answers
        exact failed (n + 1) persisted rest' (Nat.succ_lt_succ bound) answers'
      · intro rest' answers
        apply made
        rw [given, List.length_cons, List.replicate_succ, List.cons_append]
        exact congrArg _ answers
      · intro n bound answers
        have answers' : dev.answers = List.replicate (n + 1) .ok := by
          rw [given, List.replicate_succ]
          exact congrArg _ answers
        exact cut (n + 1) (Nat.succ_lt_succ bound) answers'
    · intro persisted rest given
      exact failed 0 persisted rest (Nat.succ_pos _) given
    · intro none
      have cut' := cut 0 (Nat.succ_pos _) none
      simpa [← none] using cut'

/-- Edits and commit: where the first failing call is decides what was changed. -/
theorem wp_edit_commit {handle : Fin 5} {edits : List Edit}
    (failed : ∀ n persisted rest, n ≤ edits.length →
      dev.answers = List.replicate n .ok ++ .failed persisted :: rest →
      ∀ written : Bool, (written = true → n = edits.length) →
      post false { dev with
        nvs_storage := dev.nvs_storage.edit handle (edits.take n)
        durable := if written then dev.nvs_storage.edit handle (edits.take n) else dev.durable
        answers := rest })
    (done : ∀ rest, dev.answers = List.replicate (edits.length + 1) .ok ++ rest →
      post true {
        nvs_storage := dev.nvs_storage.edit handle edits
        durable := dev.nvs_storage.edit handle edits
        answers := rest
        log := dev.log ++ [.committed (dev.nvs_storage.edit handle edits)] })
    (cut : ∀ n, n ≤ edits.length → dev.answers = List.replicate n .ok →
      halts (.error .power_cut) { dev with
        nvs_storage := dev.nvs_storage.edit handle (edits.take n), answers := [] }) :
    Proc.wp (edit_commit handle edits) post halts dev := by
  simp only [edit_commit, Proc.wp_bind]
  apply wp_edit_all
  · intro n persisted rest bound answers
    exact failed n persisted rest bound.le answers false (fun impossible => by cases impossible)
  · intro rest answers
    simp only [↓reduceIte, nvs_commit, Proc.wp_bind]
    apply wp_answer
    · intro last rest' given
      cases last with
      | ok =>
        apply done rest'
        rw [answers, List.replicate_succ', List.append_assoc, List.singleton_append]
        exact congrArg _ given
      | failed persisted =>
        have answers' : dev.answers = List.replicate edits.length .ok ++ .failed persisted :: rest' := by
          rw [answers]
          exact congrArg _ given
        have outcome := failed edits.length persisted rest' le_rfl answers' persisted (fun _ => rfl)
        rwa [List.take_length] at outcome
    · intro ended
      have outcome := cut edits.length le_rfl (by rw [answers, show rest = [] from ended, List.append_nil])
      rw [List.take_length] at outcome
      rwa [show rest = [] from ended]
  · intro n bound answers
    exact cut n bound.le answers

theorem wp_nvs_open {ns : String} {post : Option (Fin 5) → Device → Prop}
    (opened : ∀ handle rest, get_nvs_ns ns = some handle → dev.answers = .ok :: rest →
      post (some handle) { dev with answers := rest })
    (failed : ∀ first rest, dev.answers = first :: rest → (first = .ok → get_nvs_ns ns = none) →
      post none { dev with answers := rest })
    (cut : dev.answers = [] → halts (.error .power_cut) dev) : Proc.wp (nvs_open ns) post halts dev := by
  simp only [nvs_open, Proc.wp_bind]
  refine wp_answer ?_ cut
  intro first rest given
  cases first with
  | ok =>
    show post (get_nvs_ns ns) _
    cases known : get_nvs_ns ns with
    | none => exact failed .ok rest given (fun _ => known)
    | some handle => exact opened handle rest known given
  | failed persisted => exact failed (.failed persisted) rest given (fun impossible => by cases impossible)

/-- Reading changes nothing but the answers left; what is read is what is stored, if it fits. -/
theorem wp_read_blob {name : String} {len : Nat} {post : Option Bytes → Device → Prop}
    (value : ∀ data answers, dev.nvs_storage defaultMap name = some data → data.length ≤ len →
      post (some data) { dev with answers := answers })
    (failed : ∀ answers, post none { dev with answers := answers })
    (cut : ∀ answers, halts (.error .power_cut) { dev with answers := answers }) :
    Proc.wp (read_blob DEFAULT_NAMESPACE name len) post halts dev := by
  simp only [read_blob, Proc.wp_bind]
  apply wp_nvs_open
  · intro handle rest known given
    obtain rfl : defaultMap = handle := Option.some.inj known
    simp only [nvs_get_blob, Proc.wp_bind]
    apply wp_answer
    · intro first rest' given'
      cases first with
      | ok =>
        simp only [Proc.wp_bind, Proc.wp_read]
        cases held : dev.nvs_storage defaultMap name with
        | none => exact failed rest'
        | some data =>
          by_cases long : len < data.length
          · simpa [long] using failed rest'
          · simpa [long] using value data rest' held (Nat.le_of_not_lt long)
      | failed persisted => exact failed rest'
    · intro ended
      exact cut rest
  · intro first rest given _
    exact failed rest
  · intro ended
    exact cut dev.answers

theorem wp_read_blob_fixed {name : String} {len : Nat} {post : Option Bytes → Device → Prop}
    (value : ∀ data answers, dev.nvs_storage defaultMap name = some data → data.length = len →
      post (some data) { dev with answers := answers })
    (failed : ∀ answers, post none { dev with answers := answers })
    (cut : ∀ answers, halts (.error .power_cut) { dev with answers := answers }) :
    Proc.wp (read_blob_fixed DEFAULT_NAMESPACE name len) post halts dev := by
  simp only [read_blob_fixed, Proc.wp_bind]
  apply wp_read_blob
  · intro data answers held bound
    by_cases exactly : data.length = len
    · simpa [exactly] using value data answers held exactly
    · simpa [exactly] using failed answers
  · intro answers
    exact failed answers
  · exact cut

end

end PiJade.Storage
