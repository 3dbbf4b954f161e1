import Mathlib.Data.List.Basic
import Mathlib.Data.List.Nodup
import Mathlib.Logic.Function.Basic
import Mathlib.Tactic.Common
import PiJade.Bytes

/-!
The settings file format (`libjade/pijade_settings.c`): an allowlist of the default
namespace and four namespaces of registrations, written as one body of entries
behind a magic and a digest, and read back by a walk that first validates the whole
body and then stores it. Reads of the body and writes to the output buffer are
explicit: one that leaves its bounds makes the function answer `none`.
-/
namespace PiJade.SettingsCodec
set_option linter.unusedSimpArgs false

/-- The bytes of an ASCII string literal. -/
def ascii (text : String) : Bytes := text.toList.map fun c => UInt8.ofNat c.toNat

/-- The bytes of a text that is written out, straight from its characters: nothing is decoded. -/
theorem ascii_ofList (chars : List Char) : ascii (String.ofList chars) = chars.map fun c => UInt8.ofNat c.toNat := by
  rw [ascii, String.toList_ofList]

/-- One row of `PERSISTED_FIELDS`. -/
structure Field where
  key : String
  min_len : Nat
  max_len : Nat
  nul_terminated : Bool
  deriving DecidableEq, Repr

def PERSISTED_FIELDS : List Field := [
  ⟨"guiflags", 1, 1, false⟩,
  ⟨"idletimeout", 2, 2, false⟩,
  ⟨"screentimeout", 2, 2, false⟩,
  ⟨"brightness", 1, 1, false⟩,
  ⟨"qrflags", 4, 4, false⟩,
  ⟨"privatekey", 32, 32, false⟩,
  ⟨"blob", 80, 256, false⟩,
  ⟨"counter", 1, 1, false⟩,
  ⟨"antireplay", 4, 4, false⟩,
  ⟨"keyflags", 1, 1, false⟩,
  ⟨"featflags", 1, 1, false⟩,
  ⟨"walleterasepin", 48, 48, false⟩,
  ⟨"networktype", 4, 4, false⟩,
  ⟨"pinsvrurlA", 1, 120, true⟩,
  ⟨"pinsvrurlB", 1, 120, true⟩,
  ⟨"pinsvrpubkey", 33, 33, false⟩,
  ⟨"pinsvrcert", 1, 2048, true⟩]

/-- One row of `PERSISTED_NAMESPACES`; a `modulo` of 0 is no rule. -/
structure Namespace where
  min_len : Nat
  max_len : Nat
  modulo : Nat
  max_entries : Nat
  deriving DecidableEq, Repr

def PIJADE_SETTINGS_MAX_MULTISIG_LEN : Nat := 3281
def PIJADE_SETTINGS_MAX_DESCRIPTOR_LEN : Nat := 3281

/-- Multisig registrations, descriptors, OTP records and HOTP counters. -/
def PERSISTED_NAMESPACES : List Namespace := [
  ⟨114, PIJADE_SETTINGS_MAX_MULTISIG_LEN, 0, 16⟩,
  ⟨41, PIJADE_SETTINGS_MAX_DESCRIPTOR_LEN, 0, 16⟩,
  ⟨32, 288, 16, 16⟩,
  ⟨8, 8, 0, 16⟩]

def SETTINGS_NAMESPACE_COUNT : Nat := 1 + PERSISTED_NAMESPACES.length
def AES_BLOCK_LEN : Nat := 16
def NVS_KEY_NAME_MAX_SIZE : Nat := 16
def UINT32_MAX : UInt32 := 4294967295

/-- `PIJADES4`. -/
def SETTINGS_MAGIC : Bytes := ascii "PIJADES4"
def SETTINGS_DIGEST_LEN : Nat := 4
def SETTINGS_HEADER_LEN : Nat := SETTINGS_MAGIC.length + SETTINGS_DIGEST_LEN

def find_field (key : Bytes) : Option Field := PERSISTED_FIELDS.find? fun field => ascii field.key == key

def user_entry_valid (ns : Nat) (key : Bytes) (value_len : Nat) : Bool :=
  if ns = 0 then false
  else match PERSISTED_NAMESPACES[ns - 1]? with
  | none => false
  | some rule =>
    if key.length = 0 ∨ NVS_KEY_NAME_MAX_SIZE ≤ key.length then false
    else if key.any fun byte => byte < 33 || byte > 126 then false
    else if value_len < rule.min_len ∨ rule.max_len < value_len then false
    else rule.modulo == 0 || (value_len - AES_BLOCK_LEN) % rule.modulo == 0

/-- The library's map as this file uses it: items with unique keys, lookup, and a
    `wally_map_replace` that answers `none` when it fails. -/
structure WallyMap (M : Type) where
  items : M → List (Bytes × Bytes)
  get : M → Bytes → Option Bytes
  replace : M → Bytes → Bytes → Option M
  keys_nodup : ∀ map, ((items map).map Prod.fst).Nodup
  get_iff : ∀ map key value, get map key = some value ↔ (key, value) ∈ items map
  get_replace : ∀ map key value map', replace map key value = some map' →
    ∀ key', get map' key' = if key' = key then some value else get map key'

/-- An entry of the body: its namespace, key and value. -/
structure Entry where
  ns : Nat
  key : Bytes
  value : Bytes
  deriving DecidableEq, Repr

/-- The bytes of an entry: ns, key length, key, value length, value. -/
def Entry.bytes (entry : Entry) : Bytes :=
  [UInt8.ofNat entry.ns, UInt8.ofNat entry.key.length] ++ entry.key ++
    [UInt8.ofNat entry.value.length, UInt8.ofNat (entry.value.length >>> 8)] ++ entry.value

/-- A read of `count` bytes at `p`; `none` when it would leave the input. -/
def readBytes (p : Bytes) (count : Nat) : Option Bytes :=
  if count ≤ p.length then some (p.take count) else none

/-- The four bytes at `p` as a little-endian word. -/
def readWord : Bytes → Option UInt32
  | p0 :: p1 :: p2 :: p3 :: _ =>
    some (p0.toUInt32 ||| p1.toUInt32 <<< 8 ||| p2.toUInt32 <<< 16 ||| p3.toUInt32 <<< 24)
  | _ => none

/-- The framing of the entry at `p`: `some none` when it is refused, else its
    namespace, key, value length and what starts with its value. -/
def entry_frame (p : Bytes) : Option (Option (Nat × Bytes × Nat × Bytes)) := do
  let ns ← p[0]?
  let p := p.drop 1
  if SETTINGS_NAMESPACE_COUNT ≤ ns.toNat ∨ p.length = 0 then some none
  else do
    let key_len ← p[0]?
    let p := p.drop 1
    if key_len = 0 ∨ p.length < key_len.toNat + 2 then some none
    else do
      let key ← readBytes p key_len.toNat
      let p := p.drop key_len.toNat
      let low ← p[0]?
      let high ← p[1]?
      let value_len := low.toNat ||| high.toNat <<< 8
      let p := p.drop 2
      if p.length < value_len then some none
      else some (some (ns.toNat, key, value_len, p))

/-- A string field ends in NUL. -/
def terminated_ok (field : Field) (p : Bytes) (value_len : Nat) : Option Bool :=
  if field.nul_terminated then p[value_len - 1]?.map (· == 0) else some true

/-- The replay counter stays below `UINT32_MAX`. -/
def antireplay_ok (field : Field) (p : Bytes) : Option Bool :=
  if field.key = "antireplay" then (readWord p).map (· != UINT32_MAX) else some true

/-- The network type is one of the three that are defined. -/
def networktype_ok (field : Field) (p : Bytes) : Option Bool :=
  if field.key = "networktype" then (readWord p).map fun word => decide (word ≤ 2) else some true

/-- The checks of a value of the default namespace, which starts at `p`. -/
def default_value_valid (field : Field) (p : Bytes) (value_len : Nat) : Option Bool :=
  if value_len < field.min_len ∨ field.max_len < value_len then some false
  else do
    let terminated ← terminated_ok field p value_len
    let antireplay ← antireplay_ok field p
    let networktype ← networktype_ok field p
    some (terminated && antireplay && networktype)

/-- The variables of the walk: the five maps, the record counts and the two url flags. -/
structure WalkState (M : Type) where
  maps : Nat → M
  namespace_counts : Nat → Nat := fun _ => 0
  urlA_seen : Bool := false
  urlB_seen : Bool := false

section
variable {M : Type} (api : WallyMap M)

/-- The checks of one entry and the bookkeeping they do; the flag is false when the
    entry is refused. -/
def check_entry (storing : Bool) (st : WalkState M) (ns : Nat) (key : Bytes) (value_len : Nat) (p : Bytes) :
    Option (Bool × WalkState M) :=
  if ns = 0 then
    match find_field key with
    | none => some (false, st)
    | some field => do
      let valid ← default_value_valid field p value_len
      if !valid then some (false, st)
      else if storing then some (true, st)
      else if field.key = "pinsvrurlA" then some (true, { st with urlA_seen := true })
      else if field.key = "pinsvrurlB" then some (true, { st with urlB_seen := true })
      else some (true, st)
  else if !user_entry_valid ns key value_len then some (false, st)
  else
    let count := st.namespace_counts ns + 1
    let st := { st with namespace_counts := Function.update st.namespace_counts ns count }
    match PERSISTED_NAMESPACES[ns - 1]? with
    | none => none
    | some rule => some (decide (count ≤ rule.max_entries), st)

/-- The storing of one entry; the flag is false when the map refuses it. -/
def store_entry (st : WalkState M) (ns : Nat) (key : Bytes) (value_len : Nat) (p : Bytes) :
    Option (Bool × WalkState M) := do
  let value ← readBytes p value_len
  match api.replace (st.maps ns) key value with
  | none => some (false, st)
  | some map => some (true, { st with maps := Function.update st.maps ns map })

/-- The loop of `walk_entries`: its verdict and the maps it leaves. Each round
    consumes bytes, so `fuel` rounds are enough for a body of that many bytes. -/
def walk_loop (storing : Bool) : Nat → WalkState M → Bytes → Option (Bool × (Nat → M))
  | _, st, [] => some (storing || st.urlA_seen == st.urlB_seen, st.maps)
  | 0, _, _ :: _ => none
  | fuel + 1, st, byte :: rest =>
    match entry_frame (byte :: rest) with
    | none => none
    | some none => some (false, st.maps)
    | some (some (ns, key, value_len, p)) =>
      match check_entry storing st ns key value_len p with
      | none => none
      | some (false, st) => some (false, st.maps)
      | some (true, st) =>
        if storing then
          match store_entry api st ns key value_len p with
          | none => none
          | some (false, st) => some (false, st.maps)
          | some (true, st) => walk_loop storing fuel st (p.drop value_len)
        else walk_loop storing fuel st (p.drop value_len)

/-- `walk_entries`: with `storing` off this only validates. -/
def walk_entries (storing : Bool) (maps : Nat → M) (body : Bytes) : Option (Bool × (Nat → M)) :=
  walk_loop api storing body.length { maps := maps } body

variable (sha256 : Bytes → Vector UInt8 32)

/-- The digest of a body that the header carries. -/
def digest (body : Bytes) : Bytes := (sha256 body).toList.take SETTINGS_DIGEST_LEN

def pijade_settings_deserialize (maps : Nat → M) (bytes : Bytes) : Option (Bool × (Nat → M)) :=
  if bytes.length < SETTINGS_HEADER_LEN ∨ bytes.take SETTINGS_MAGIC.length ≠ SETTINGS_MAGIC then some (false, maps)
  else
    let body := bytes.drop SETTINGS_HEADER_LEN
    if (bytes.drop SETTINGS_MAGIC.length).take SETTINGS_DIGEST_LEN ≠ digest sha256 body then some (false, maps)
    else
      match walk_entries api false maps body with
      | none => none
      | some (false, maps) => some (false, maps)
      | some (true, maps) => walk_entries api true maps body

/-- The value of a field that is written: one the map holds with a length in range. -/
def field_item (prefs : M) (field : Field) : Option Bytes :=
  (api.get prefs (ascii field.key)).filter fun value =>
    decide (field.min_len ≤ value.length ∧ value.length ≤ field.max_len)

/-- The length an entry adds to the body. -/
def entry_len (key_len value_len : Nat) : Nat := 1 + 1 + key_len + 2 + value_len

/-- The first pass over a record map: `none` when a record is refused. -/
def records_len (ns : Nat) (body_len : Nat) : List (Bytes × Bytes) → Option Nat
  | [] => some body_len
  | (key, value) :: rest =>
    if !user_entry_valid ns key value.length then none
    else records_len ns (body_len + entry_len key.length value.length) rest

/-- The record namespaces, in the order they are written. -/
def recordNamespaces : List Nat := [1, 2, 3, 4]

/-- The first pass: the length of the body. -/
def settings_body_len (maps : Nat → M) : Option Nat :=
  let fields := PERSISTED_FIELDS.foldl (fun body_len field =>
    match field_item api (maps 0) field with
    | none => body_len
    | some value => body_len + entry_len (ascii field.key).length value.length) 0
  recordNamespaces.foldlM (fun body_len ns => records_len ns body_len (api.items (maps ns))) fields

/-- A write of `bytes` at the end of what is written; `none` when it would leave the buffer. -/
def put (size : Nat) (written bytes : Bytes) : Option Bytes :=
  if written.length + bytes.length ≤ size then some (written ++ bytes) else none

/-- The second pass: the body, written into a buffer of `size` bytes. -/
def settings_body (maps : Nat → M) (size : Nat) : Option Bytes := do
  let fields ← PERSISTED_FIELDS.foldlM (fun written field =>
    match field_item api (maps 0) field with
    | none => some written
    | some value => put size written (Entry.bytes ⟨0, ascii field.key, value⟩)) []
  recordNamespaces.foldlM (fun written ns => (api.items (maps ns)).foldlM (fun written item =>
    put size written (Entry.bytes ⟨ns, item.1, item.2⟩)) written) fields

/-- The file for the five maps: `some none` when they are refused or memory is short. -/
def pijade_settings_serialize (malloc : Bool) (maps : Nat → M) : Option (Option Bytes) :=
  match settings_body_len api maps with
  | none => some none
  | some body_len =>
    if !malloc then some none
    else do
      let body ← settings_body api maps body_len
      if body.length ≠ body_len then some none
      else do
        let (valid, _) ← walk_entries api false maps body
        if valid then some (some (SETTINGS_MAGIC ++ digest sha256 body ++ body)) else some none

/-! ### Framing -/

/-- An entry whose framing can be read back: a known namespace, a key length and a
    value length that fit their fields. -/
structure Encodable (entry : Entry) : Prop where
  ns : entry.ns < SETTINGS_NAMESPACE_COUNT
  key_pos : 0 < entry.key.length
  key_fits : entry.key.length < 256
  value_fits : entry.value.length < 65536

theorem bytes_length (entry : Entry) : entry.bytes.length = entry_len entry.key.length entry.value.length := by
  simp only [Entry.bytes, entry_len, List.length_append, List.length_cons, List.length_nil]

theorem bytes_ne_nil (entry : Entry) (rest : Bytes) : entry.bytes ++ rest ≠ [] := by simp [Entry.bytes]

/-- The framing of an entry is read back. -/
theorem entry_frame_bytes {entry : Entry} (encodable : Encodable entry) (rest : Bytes) :
    entry_frame (entry.bytes ++ rest) =
      some (some (entry.ns, entry.key, entry.value.length, entry.value ++ rest)) := by
  obtain ⟨ns, key_pos, key_fits, value_fits⟩ := encodable
  have nsByte : (UInt8.ofNat entry.ns).toNat = entry.ns :=
    UInt8.toNat_ofNat_of_lt' (Nat.lt_trans ns (by decide))
  have keyByte : (UInt8.ofNat entry.key.length).toNat = entry.key.length := UInt8.toNat_ofNat_of_lt' key_fits
  have keyNonzero : UInt8.ofNat entry.key.length ≠ 0 := by
    intro zero
    rw [zero] at keyByte
    simp at keyByte
    omega
  have notOut : ¬ SETTINGS_NAMESPACE_COUNT ≤ entry.ns := Nat.not_le.mpr ns
  simp only [Entry.bytes, List.append_assoc, List.cons_append, List.nil_append]
  unfold entry_frame
  simp only [List.getElem?_cons_zero, Option.bind_eq_bind, Option.bind_some, List.drop_succ_cons, List.drop_zero,
    nsByte, notOut, List.length_cons, Nat.add_eq_zero_iff, one_ne_zero, and_false, or_self, ↓reduceIte, keyByte,
    keyNonzero, List.length_append, false_or]
  rw [if_neg (by omega)]
  simp only [readBytes, List.length_append, List.length_cons, Nat.le_add_right, ↓reduceIte, List.take_left',
    Option.bind_some, List.drop_left', List.getElem?_cons_zero, List.getElem?_cons_succ,
    Bytes.join_split16 value_fits, List.drop_succ_cons, List.drop_zero]
  rw [if_neg (by omega)]

/-- The framing never reads past the input, and what it lets pass is the encoding of an entry. -/
theorem entry_frame_cases (p : Bytes) (some_left : p ≠ []) :
    entry_frame p = some none ∨ ∃ entry rest, Encodable entry ∧ p = entry.bytes ++ rest := by
  obtain ⟨ns, p, rfl⟩ := List.exists_cons_of_ne_nil some_left
  unfold entry_frame
  simp only [List.getElem?_cons_zero, Option.bind_eq_bind, Option.bind_some, List.drop_succ_cons, List.drop_zero]
  by_cases out : SETTINGS_NAMESPACE_COUNT ≤ ns.toNat ∨ p.length = 0
  · exact .inl (if_pos out)
  · rw [if_neg out]
    obtain ⟨known, more⟩ := not_or.mp out
    obtain ⟨key_len, p, rfl⟩ := List.exists_cons_of_length_pos (Nat.pos_of_ne_zero more)
    simp only [List.getElem?_cons_zero, Option.bind_some, List.drop_succ_cons, List.drop_zero]
    by_cases short : key_len = 0 ∨ p.length < key_len.toNat + 2
    · exact .inl (if_pos short)
    · rw [if_neg short]
      obtain ⟨nonzero, long⟩ := not_or.mp short
      have keyLength : (p.take key_len.toNat).length = key_len.toNat := by
        rw [List.length_take]
        omega
      -- The two length bytes follow the key.
      obtain ⟨low, high, q, after⟩ : ∃ low high q, p.drop key_len.toNat = low :: high :: q := by
        match rest : p.drop key_len.toNat with
        | low :: high :: q => exact ⟨low, high, q, rfl⟩
        | [] | [_] =>
          have := congrArg List.length rest
          simp at this
          omega
      simp only [readBytes, after, List.getElem?_cons_zero, List.getElem?_cons_succ, Option.bind_some,
        List.drop_succ_cons, List.drop_zero]
      rw [if_pos (by omega)]
      simp only [Option.bind_some]
      by_cases missing : q.length < low.toNat ||| high.toNat <<< 8
      · exact .inl (if_pos missing)
      · right
        have valueLength : (q.take (low.toNat ||| high.toNat <<< 8)).length = low.toNat ||| high.toNat <<< 8 := by
          rw [List.length_take]
          omega
        refine ⟨⟨ns.toNat, p.take key_len.toNat, q.take (low.toNat ||| high.toNat <<< 8)⟩,
          q.drop (low.toNat ||| high.toNat <<< 8), ⟨Nat.not_le.mp known, ?_, ?_, ?_⟩, ?_⟩
        · rw [keyLength]
          exact Nat.pos_of_ne_zero fun zero => nonzero (UInt8.toNat_inj.mp zero)
        · rw [keyLength]
          exact key_len.toNat_lt
        · rw [valueLength]
          exact Bytes.join16_lt low high
        · obtain ⟨lowByte, highByte⟩ := Bytes.split_join16 low high
          simp only [Entry.bytes, keyLength, valueLength, UInt8.ofNat_toNat, lowByte, highByte, List.append_assoc,
            List.cons_append, List.nil_append, List.take_append_drop]
          rw [← after, List.take_append_drop]

/-! ### What is let through -/

/-- A value a field of the default namespace may have. -/
structure FieldFits (field : Field) (value : Bytes) : Prop where
  min_len : field.min_len ≤ value.length
  max_len : value.length ≤ field.max_len
  terminated : field.nul_terminated = true → value.getLast? = some 0
  antireplay : field.key = "antireplay" → readWord value ≠ some UINT32_MAX
  networktype : field.key = "networktype" → ∃ word, readWord value = some word ∧ word ≤ 2

/-- A record a namespace may hold. -/
structure RecordFits (ns : Nat) (key value : Bytes) : Prop where
  key_pos : 1 ≤ key.length
  key_short : key.length ≤ 15
  graphic : ∀ byte ∈ key, 33 ≤ byte ∧ byte ≤ 126
  value_len : ∃ rule, PERSISTED_NAMESPACES[ns - 1]? = some rule ∧ rule.min_len ≤ value.length ∧
    value.length ≤ rule.max_len ∧ (rule.modulo ≠ 0 → (value.length - AES_BLOCK_LEN) % rule.modulo = 0)

/-- An entry the loader lets through. -/
def EntryFits (entry : Entry) : Prop :=
  (entry.ns = 0 ∧ ∃ field, find_field entry.key = some field ∧ FieldFits field entry.value) ∨
    (entry.ns ∈ recordNamespaces ∧ RecordFits entry.ns entry.key entry.value)

theorem find_field_mem {key : Bytes} {field : Field} (found : find_field key = some field) :
    field ∈ PERSISTED_FIELDS ∧ ascii field.key = key :=
  ⟨List.mem_of_find?_eq_some found, by simpa using List.find?_some found⟩

/-- Every field has at least a byte, and the two that are read as words have four. -/
theorem persisted_field_lengths : ∀ field ∈ PERSISTED_FIELDS, 1 ≤ field.min_len ∧
    ((field.key = "antireplay" ∨ field.key = "networktype") → field.min_len = 4) := by decide

/-- Keys and values of the allowlist fit their length fields. -/
theorem persisted_field_encodable : ∀ field ∈ PERSISTED_FIELDS, 0 < (ascii field.key).length ∧
    (ascii field.key).length < 256 ∧ field.max_len < 65536 := by decide

theorem persisted_namespace_bounds : ∀ rule ∈ PERSISTED_NAMESPACES, rule.max_entries = 16 ∧ rule.max_len < 65536 := by
  decide

theorem readWord_append {value : Bytes} (long : 4 ≤ value.length) (rest : Bytes) :
    ∃ word, readWord (value ++ rest) = some word ∧ readWord value = some word := by
  match value, long with
  | _ :: _ :: _ :: _ :: _, _ => exact ⟨_, rfl, rfl⟩

theorem terminated_ok_iff (field : Field) (value : Bytes) (nonempty : 0 < value.length) (rest : Bytes) :
    ∃ ok, terminated_ok field (value ++ rest) value.length = some ok ∧
      (ok = true ↔ (field.nul_terminated = true → value.getLast? = some 0)) := by
  unfold terminated_ok
  by_cases isText : field.nul_terminated = true
  · have last : value.getLast? = some (value.getLast (List.ne_nil_of_length_pos nonempty)) :=
      List.getLast?_eq_some_getLast _
    rw [if_pos isText, List.getElem?_append_left (by omega), ← List.getLast?_eq_getElem?, last]
    exact ⟨_, rfl, by simp [isText]⟩
  · exact ⟨true, if_neg isText, by simp [isText]⟩

theorem antireplay_ok_iff (field : Field) (value : Bytes) (long : field.key = "antireplay" → 4 ≤ value.length)
    (rest : Bytes) :
    ∃ ok, antireplay_ok field (value ++ rest) = some ok ∧
      (ok = true ↔ (field.key = "antireplay" → readWord value ≠ some UINT32_MAX)) := by
  unfold antireplay_ok
  by_cases isWord : field.key = "antireplay"
  · obtain ⟨word, readAll, readValue⟩ := readWord_append (long isWord) rest
    rw [if_pos isWord, readAll, readValue]
    exact ⟨_, rfl, by simp [isWord]⟩
  · exact ⟨true, if_neg isWord, by simp [isWord]⟩

theorem networktype_ok_iff (field : Field) (value : Bytes) (long : field.key = "networktype" → 4 ≤ value.length)
    (rest : Bytes) :
    ∃ ok, networktype_ok field (value ++ rest) = some ok ∧
      (ok = true ↔ (field.key = "networktype" → ∃ word, readWord value = some word ∧ word ≤ 2)) := by
  unfold networktype_ok
  by_cases isWord : field.key = "networktype"
  · obtain ⟨word, readAll, readValue⟩ := readWord_append (long isWord) rest
    rw [if_pos isWord, readAll, readValue]
    exact ⟨_, rfl, by simp [isWord]⟩
  · exact ⟨true, if_neg isWord, by simp [isWord]⟩

/-- The checks of a default value read only the value and decide whether it fits. -/
theorem default_value_valid_iff {field : Field} (listed : field ∈ PERSISTED_FIELDS) (value rest : Bytes) :
    ∃ valid, default_value_valid field (value ++ rest) value.length = some valid ∧
      (valid = true ↔ FieldFits field value) := by
  obtain ⟨nonempty, words⟩ := persisted_field_lengths field listed
  unfold default_value_valid
  by_cases sized : value.length < field.min_len ∨ field.max_len < value.length
  · exact ⟨false, if_pos sized, by simp; intro fits; have := fits.min_len; have := fits.max_len; omega⟩
  · rw [if_neg sized]
    obtain ⟨atLeast, atMost⟩ : field.min_len ≤ value.length ∧ value.length ≤ field.max_len := by omega
    obtain ⟨b1, terminated, b1_iff⟩ := terminated_ok_iff field value (by omega) rest
    obtain ⟨b2, antireplay, b2_iff⟩ := antireplay_ok_iff field value
      (fun isWord => by have := words (.inl isWord); omega) rest
    obtain ⟨b3, networktype, b3_iff⟩ := networktype_ok_iff field value
      (fun isWord => by have := words (.inr isWord); omega) rest
    refine ⟨b1 && b2 && b3, ?_, ?_⟩
    · rw [terminated, antireplay, networktype]
      rfl
    · simp only [Bool.and_eq_true, b1_iff, b2_iff, b3_iff]
      constructor
      · rintro ⟨⟨first, second⟩, third⟩
        exact ⟨atLeast, atMost, first, second, third⟩
      · intro fits
        exact ⟨⟨fits.terminated, fits.antireplay⟩, fits.networktype⟩

theorem user_entry_valid_iff (ns : Nat) (key value : Bytes) :
    user_entry_valid ns key value.length = true ↔ ns ∈ recordNamespaces ∧ RecordFits ns key value := by
  have known : ns ≠ 0 ∧ (∃ rule, PERSISTED_NAMESPACES[ns - 1]? = some rule) ↔ ns ∈ recordNamespaces := by
    match ns with
    | 0 => simp [recordNamespaces]
    | 1 | 2 | 3 | 4 => simp [PERSISTED_NAMESPACES, recordNamespaces]
    | n + 5 => simp [PERSISTED_NAMESPACES, recordNamespaces]
  unfold user_entry_valid
  by_cases zero : ns = 0
  · simp [zero, recordNamespaces]
  · rw [if_neg zero]
    cases found : PERSISTED_NAMESPACES[ns - 1]? with
    | none =>
      have unknown : ns ∉ recordNamespaces := fun member => by simpa [found] using (known.mpr member).2
      simp [unknown]
    | some rule =>
      have member : ns ∈ recordNamespaces := known.mp ⟨zero, rule, found⟩
      simp only [member, true_and, Bool.if_false_left, Bool.and_eq_true, Bool.not_eq_true', decide_eq_false_iff_not,
        not_or, not_lt, Bool.or_eq_true, beq_iff_eq, List.any_eq_false, Nat.not_le, NVS_KEY_NAME_MAX_SIZE]
      constructor
      · rintro ⟨⟨pos, short⟩, graphic, ⟨atLeast, atMost⟩, divides⟩
        refine ⟨by omega, by omega, ?_, rule, found, atLeast, atMost, ?_⟩
        · intro byte inKey
          simp only [List.any_eq_true, not_exists, not_and, Bool.or_eq_true, decide_eq_true_eq, not_or,
            UInt8.not_lt, gt_iff_lt] at graphic
          exact graphic byte inKey
        · intro hasRule
          exact divides.resolve_left hasRule
      · rintro ⟨pos, short, graphic, rule', found', atLeast, atMost, divides⟩
        obtain rfl : rule = rule' := Option.some.inj (found.symm.trans found')
        refine ⟨⟨by omega, by omega⟩, ?_, ⟨atLeast, atMost⟩, ?_⟩
        · simp only [List.any_eq_true, not_exists, not_and, Bool.or_eq_true, decide_eq_true_eq, not_or,
            UInt8.not_lt, gt_iff_lt]
          exact graphic
        · exact or_iff_not_imp_left.mpr divides

/-! ### The check of one entry -/

/-- The entry sets the named url. -/
def Entry.isUrl (entry : Entry) (name : String) : Bool := entry.ns == 0 && entry.key == ascii name

/-- What the walk requires of the entry it has come to. -/
def Passes (st : WalkState M) (entry : Entry) : Prop :=
  EntryFits entry ∧ (entry.ns ≠ 0 → st.namespace_counts entry.ns < 16)

/-- The variables after an entry that passed its checks. -/
def WalkState.pass (st : WalkState M) (storing : Bool) (entry : Entry) : WalkState M where
  maps := st.maps
  namespace_counts :=
    if entry.ns = 0 then st.namespace_counts
    else Function.update st.namespace_counts entry.ns (st.namespace_counts entry.ns + 1)
  urlA_seen := st.urlA_seen || (!storing && entry.isUrl "pinsvrurlA")
  urlB_seen := st.urlB_seen || (!storing && entry.isUrl "pinsvrurlB")

theorem url_key_iff : ∀ field ∈ PERSISTED_FIELDS,
    (ascii field.key = ascii "pinsvrurlA" ↔ field.key = "pinsvrurlA") ∧
    (ascii field.key = ascii "pinsvrurlB" ↔ field.key = "pinsvrurlB") := by decide

/-- One entry is checked without reading past it; it passes or is refused. -/
theorem check_entry_cases (storing : Bool) (st : WalkState M) (entry : Entry) (rest : Bytes) :
    (Passes st entry ∧ check_entry storing st entry.ns entry.key entry.value.length (entry.value ++ rest) =
      some (true, st.pass storing entry)) ∨
    (¬ Passes st entry ∧ ∃ st', st'.maps = st.maps ∧
      check_entry storing st entry.ns entry.key entry.value.length (entry.value ++ rest) = some (false, st')) := by
  unfold check_entry
  by_cases default : entry.ns = 0
  · rw [if_pos default]
    have passes_iff : Passes st entry ↔ ∃ field, find_field entry.key = some field ∧ FieldFits field entry.value := by
      simp [Passes, EntryFits, default, recordNamespaces]
    cases found : find_field entry.key with
    | none => exact .inr ⟨by simp [passes_iff, found], st, rfl, rfl⟩
    | some field =>
      obtain ⟨listed, key⟩ := find_field_mem found
      obtain ⟨valid, checked, valid_iff⟩ := default_value_valid_iff listed entry.value rest
      simp only [checked, Option.bind_eq_bind, Option.bind_some]
      cases valid with
      | false =>
        have unfit : ¬ FieldFits field entry.value := by simpa using valid_iff
        exact .inr ⟨by simp [passes_iff, found, unfit], st, rfl, rfl⟩
      | true =>
        have fits : FieldFits field entry.value := by simpa using valid_iff
        obtain ⟨urlA, urlB⟩ := url_key_iff field listed
        refine .inl ⟨passes_iff.mpr ⟨field, found, fits⟩, ?_⟩
        simp only [WalkState.pass, Entry.isUrl, default, ← key, beq_self_eq_true, Bool.true_and, ↓reduceIte]
        cases storing with
        | true => simp
        | false =>
          by_cases isA : field.key = "pinsvrurlA"
          · simp [isA, beq_eq_false_iff_ne.mpr (by decide : ascii "pinsvrurlA" ≠ ascii "pinsvrurlB")]
          · by_cases isB : field.key = "pinsvrurlB"
            · simp [isB, beq_eq_false_iff_ne.mpr (by decide : ascii "pinsvrurlB" ≠ ascii "pinsvrurlA")]
            · simp [isA, isB, beq_eq_false_iff_ne.mpr (mt urlA.mp isA), beq_eq_false_iff_ne.mpr (mt urlB.mp isB)]
  · rw [if_neg default]
    have fits_iff : EntryFits entry ↔ user_entry_valid entry.ns entry.key entry.value.length = true := by
      rw [user_entry_valid_iff]
      simp [EntryFits, default]
    cases valid : user_entry_valid entry.ns entry.key entry.value.length with
    | false => exact .inr ⟨fun passes => by simpa [valid] using fits_iff.mp passes.1, st, rfl, rfl⟩
    | true =>
      obtain ⟨-, -, -, -, rule, found, -⟩ := (user_entry_valid_iff ..).mp valid
      have sixteen := (persisted_namespace_bounds rule (List.mem_of_getElem? found)).1
      simp only [found, Bool.not_true, Bool.false_eq_true, ↓reduceIte, sixteen]
      by_cases full : st.namespace_counts entry.ns < 16
      · refine .inl ⟨⟨fits_iff.mpr valid, fun _ => full⟩, ?_⟩
        simp [WalkState.pass, Entry.isUrl, default, Nat.succ_le_of_lt full]
      · refine .inr ⟨fun passes => full (passes.2 default), ⟨st.maps, Function.update st.namespace_counts entry.ns
          (st.namespace_counts entry.ns + 1), st.urlA_seen, st.urlB_seen⟩, rfl, ?_⟩
        simp [Nat.succ_le_iff, full]

/-- One round of the walk, at a body that starts with an entry. -/
theorem walk_loop_cons {storing : Bool} {fuel : Nat} {st : WalkState M} {entry : Entry} {rest : Bytes}
    (encodable : Encodable entry) :
    walk_loop api storing (fuel + 1) st (entry.bytes ++ rest) =
      match check_entry storing st entry.ns entry.key entry.value.length (entry.value ++ rest) with
      | none => none
      | some (false, st) => some (false, st.maps)
      | some (true, st) =>
        if storing then
          match store_entry api st entry.ns entry.key entry.value.length (entry.value ++ rest) with
          | none => none
          | some (false, st) => some (false, st.maps)
          | some (true, st) => walk_loop api storing fuel st rest
        else walk_loop api storing fuel st rest := by
  have framed := entry_frame_bytes encodable rest
  obtain ⟨byte, tail, isCons⟩ := List.exists_cons_of_ne_nil (bytes_ne_nil entry rest)
  rw [isCons] at framed ⊢
  rw [walk_loop, framed]
  simp only [List.drop_left']

end

end PiJade.SettingsCodec
