import PiJade.DescriptorFaithful
import PiJade.JsonScan

/-!
Parsing descriptor texts in memory (`main/descriptor_text.c`). The record and the working copies
are buffers of the sizes they are declared with; a write behind one of them is an error, and so
are a read outside a text or of a string without a terminator, and a loop that does not end.
-/
namespace PiJade.DescriptorText.Memory
open Text
open SettingsCodec (ascii)
set_option linter.unusedSimpArgs false

/-! ### Buffers -/

section
variable {size : Nat}

/-- `buffer[i]`. -/
def get {α : Type} (buffer : Vector α size) (i : Nat) : Except Exit α :=
  match buffer[i]? with
  | some entry => .ok entry
  | none => .error .out_of_bounds

/-- `memcpy(buffer + i, text, text_len)`. -/
def putAll (buffer : Vector UInt8 size) : Nat → Bytes → Except Exit (Vector UInt8 size)
  | _, [] => return buffer
  | i, c :: rest => do
    let buffer ← put buffer i c
    putAll buffer (i + 1) rest

/-- The first bytes of a buffer. -/
def slice (buffer : Vector UInt8 size) (len : Nat) : Except Exit Bytes :=
  if len ≤ size then return buffer.toList.take len else .error .out_of_bounds

/-- What string functions read of a buffer, up to its terminator. -/
def readString (buffer : Vector UInt8 size) : Except Exit Bytes :=
  if 0 ∈ buffer.toList then return cstr buffer.toList else .error .out_of_bounds

/-- `snprintf(buffer + i, room, ..)`, with the length of the whole text. -/
def snprintf (buffer : Vector UInt8 size) (i room : Nat) (text : Bytes) : Except Exit (Vector UInt8 size × Nat) :=
  if room = 0 then return (buffer, text.length)
  else do
    let buffer ← putAll buffer i (text.take (room - 1) ++ [0])
    return (buffer, text.length)

end

/-! ### Key expressions -/

/-- What a loop over digits leaves. -/
structure Accumulated where
  value : UInt64
  digits : Nat
  p : Nat

def accumulate (rest : Bytes) : Nat → Accumulated → Except Exit Accumulated
  | 0, _ => .error .diverged
  | rounds + 1, state =>
    if state.p < rest.length then do
      let c ← charAt rest state.p
      if isdigit c ∧ state.digits < 10 then
        accumulate rest rounds ⟨state.value * 10 + UInt64.ofNat (c.toNat - 48), state.digits + 1, state.p + 1⟩
      else return state
    else return state

/-- `BIP32_MAX_CHILD_INDEX`, as the accumulators are compared with it. -/
def maxChildIndex : UInt64 := 0x7fffffff

def canonical_child (rest : Bytes) {child_len : Nat} (child : Vector UInt8 child_len) :
    Except Exit (Vector UInt8 child_len × Bool) :=
  if child_len < 27 then .error .abort
  else if rest = ascii "/**" then do
    let child ← putAll child 0 (ascii "/<0;1>/*" ++ [0])
    return (child, true)
  else if rest.length < 8 then return (child, false)
  else do
    let first ← charAt rest 0
    let second ← charAt rest 1
    if first ≠ '/'.toUInt8 ∨ (second ≠ '<'.toUInt8 ∧ second ≠ '{'.toUInt8) then return (child, false)
    else
      let sep := if second = '<'.toUInt8 then ';'.toUInt8 else ','.toUInt8
      let close := if second = '<'.toUInt8 then '>'.toUInt8 else '}'.toUInt8
      let a ← accumulate rest (rest.length + 1) ⟨0, 0, 2⟩
      let separated ← looksAt rest a.p sep
      if a.digits = 0 ∨ a.value > maxChildIndex ∨ ¬ separated then return (child, false)
      else
        let b ← accumulate rest (rest.length + 1) ⟨0, 0, a.p + 1⟩
        let closed ← looksAt rest b.p close
        if b.digits = 0 ∨ b.value > maxChildIndex ∨ ¬ closed then return (child, false)
        else if rest.length - (b.p + 1) ≠ 2 then return (child, false)
        else
          let slash ← charAt rest (b.p + 1)
          let star ← charAt rest (b.p + 2)
          if slash ≠ '/'.toUInt8 ∨ star ≠ '*'.toUInt8 then return (child, false)
          else
            let printed ← snprintf child 0 child_len
              (ascii "/<" ++ decimal a.value.toNat ++ ascii ";" ++ decimal b.value.toNat ++ ascii ">/*")
            return (printed.1, decide (0 < printed.2 ∧ printed.2 < child_len))

variable {value_len : Nat}

/-- The bracket and the eight digits behind it; `i` characters are written. -/
def fingerprint (tok : Bytes) : Nat → Nat → Vector UInt8 value_len → Except Exit (Vector UInt8 value_len)
  | 0, _, value => return value
  | left + 1, i, value => do
    let c ← charAt tok i
    if i ≠ 0 ∧ ¬ isxdigit c then .error (.errmsg ERR_INVALID)
    else if i + 1 ≥ value_len then .error (.errmsg ERR_KEY_TOO_LONG)
    else do
      let value ← put value i (tolower c)
      fingerprint tok left (i + 1) value

/-- The path up to the closing bracket; as many characters are written as are behind `p`. -/
def path (tok : Bytes) (close : Nat) : Nat → Nat → Vector UInt8 value_len → Except Exit (Nat × Vector UInt8 value_len)
  | 0, _, _ => .error .diverged
  | rounds + 1, p, value =>
    if p ≤ close then do
      let c ← charAt tok p
      if c ≠ '\''.toUInt8 ∧ ¬ (isdigit c ∨ c = '/'.toUInt8 ∨ c = 'h'.toUInt8 ∨ c = ']'.toUInt8) then
        .error (.errmsg ERR_INVALID)
      else if p + 1 ≥ value_len then .error (.errmsg ERR_KEY_TOO_LONG)
      else do
        let value ← put value p (if c = '\''.toUInt8 then 'h'.toUInt8 else c)
        path tok close rounds (p + 1) value
    else return (p, value)

/-- Where the key ends. -/
def keyEnd (tok : Bytes) : Nat → Nat → Except Exit Nat
  | 0, _ => .error .diverged
  | rounds + 1, p =>
    if p < tok.length then do
      let c ← charAt tok p
      if c ≠ '/'.toUInt8 then keyEnd tok rounds (p + 1) else return p
    else return p

def canonical_key (tok : Bytes) {child_len : Nat} (value : Vector UInt8 value_len) (child : Vector UInt8 child_len) :
    Except Exit (Vector UInt8 value_len × Vector UInt8 child_len) := do
  let first ← charAt tok 0
  if first ≠ '['.toUInt8 then .error (.errmsg ERR_UNSUPPORTED)
  else
    match tok.idxOf? ']'.toUInt8 with
    | none => .error (.errmsg ERR_INVALID)
    | some close =>
      if close < 9 then .error (.errmsg ERR_INVALID)
      else do
        let behind ← charAt tok 9
        if behind ≠ '/'.toUInt8 ∧ behind ≠ ']'.toUInt8 then .error (.errmsg ERR_INVALID)
        else do
          let value ← fingerprint tok 9 0 value
          -- `n` and `p - tok` are the same up to here
          let written ← path tok close (tok.length + 1) 9 value
          let key_start := written.1
          let p ← keyEnd tok (tok.length + 1) key_start
          if p = key_start then .error (.errmsg ERR_INVALID)
          else if key_start + (p - key_start) + 1 > value_len then .error (.errmsg ERR_KEY_TOO_LONG)
          else do
            let value ← putAll written.2 key_start ((tok.take p).drop key_start)
            let value ← put value (key_start + (p - key_start)) 0
            let made ← canonical_child (tok.drop p) child
            if made.2 then return (value, made.1) else .error (.errmsg ERR_UNSUPPORTED)

def token_end (work : Bytes) : Nat → Int → Nat → Except Exit Nat
  | 0, _, _ => .error .diverged
  | rounds + 1, group, p =>
    if p < work.length then do
      let c ← charAt work p
      if c = '['.toUInt8 ∨ c = '<'.toUInt8 ∨ c = '{'.toUInt8 then token_end work rounds (group + 1) (p + 1)
      else if c = ']'.toUInt8 ∨ c = '>'.toUInt8 ∨ c = '}'.toUInt8 then token_end work rounds (group - 1) (p + 1)
      else if group = 0 ∧ (c = ','.toUInt8 ∨ c = ')'.toUInt8) then return p
      else token_end work rounds group (p + 1)
    else return p

/-- Four characters are compared only where there are four. -/
def is_key_start (work : Bytes) (p : Nat) : Except Exit Bool := do
  let opened ← looksAt work p '['.toUInt8
  if opened then return true
  else if p + 4 ≤ work.length then
    return decide ((work.drop p).take 4 = ascii "xpub" ∨ (work.drop p).take 4 = ascii "tpub")
  else return false

/-! ### The record -/

/-- `string_value_t`. -/
structure StringValue where
  value : Vector UInt8 VALUE_LEN
  key : Vector UInt8 16
  value_len : UInt16
  key_len : UInt16

/-- `descriptor_data_t`. -/
structure Descriptor where
  values : Vector StringValue MAX_ALLOWED_SIGNERS
  script : Vector UInt8 MAX_DESCRIPTOR_SCRIPT_LEN
  script_len : UInt16
  num_values : UInt8
  type : DescriptorType

/-- The index of an equal value, or `num_values`, with `left` values still to be compared. -/
def findIndex (values : Vector StringValue MAX_ALLOWED_SIGNERS) (value : Vector UInt8 VALUE_LEN) : Nat → Nat → Except Exit Nat
  | 0, i => return i
  | left + 1, i => do
    let sv ← get values i
    let old ← readString sv.value
    let new ← readString value
    if old = new then return i else findIndex values value left (i + 1)

def addValue (descriptor : Descriptor) (index : Nat) (value : Vector UInt8 VALUE_LEN) : Except Exit Descriptor :=
  if index ≠ descriptor.num_values.toNat then return descriptor
  else if index ≥ MAX_ALLOWED_SIGNERS then .error (.errmsg ERR_TOO_MANY)
  else do
    let sv ← get descriptor.values index
    let printed ← snprintf sv.key 0 16 ('@'.toUInt8 :: decimal index)
    if ¬ (0 < printed.2 ∧ printed.2 < 16) then .error .abort
    else do
      let text ← readString value
      let stored ← putAll sv.value 0 (text ++ [0])
      let values ← put descriptor.values index ⟨stored, printed.1, UInt16.ofNat text.length, UInt16.ofNat printed.2⟩
      return { descriptor with values := values, num_values := descriptor.num_values + 1 }

def writeKey (descriptor : Descriptor) (value : Vector UInt8 VALUE_LEN) (child : Vector UInt8 32) : Except Exit Descriptor := do
  let index ← findIndex descriptor.values value descriptor.num_values.toNat 0
  let descriptor ← addValue descriptor index value
  let path ← readString child
  let room := UInt64.ofNat MAX_DESCRIPTOR_SCRIPT_LEN - descriptor.script_len.toUInt64
  let printed ← snprintf descriptor.script descriptor.script_len.toNat room.toNat ('@'.toUInt8 :: decimal index ++ path)
  if printed.2 = 0 ∨ printed.2 ≥ room.toNat then .error (.errmsg ERR_TOO_LARGE)
  else return { descriptor with script := printed.1, script_len := descriptor.script_len + UInt16.ofNat printed.2 }

/-- What the local buffers of a round hold before they are written. -/
structure Stack where
  value : Vector UInt8 VALUE_LEN
  child : Vector UInt8 32

def walk (stack : Stack) (work : Bytes) : Nat → UInt8 → Descriptor → Nat → Except Exit Descriptor
  | 0, _, _, _ => .error .diverged
  | rounds + 1, prev, descriptor, p =>
    if p < work.length then do
      let start ← is_key_start work p
      if (prev = '('.toUInt8 ∨ prev = ','.toUInt8) ∧ start then do
        let tend ← token_end work (work.length + 1) 0 p
        let found ← canonical_key ((work.take tend).drop p) stack.value stack.child
        let descriptor ← writeKey descriptor found.1 found.2
        walk stack work rounds prev descriptor tend
      else if descriptor.script_len.toNat + 1 ≥ MAX_DESCRIPTOR_SCRIPT_LEN then .error (.errmsg ERR_TOO_LARGE)
      else do
        let c ← charAt work p
        let script ← put descriptor.script descriptor.script_len.toNat c
        walk stack work rounds c { descriptor with script := script, script_len := descriptor.script_len + 1 } (p + 1)
    else do
      let script ← put descriptor.script descriptor.script_len.toNat 0
      return { descriptor with script := script }

/-! ### The text -/

section
variable {work_len : Nat}

/-- The working copy and its label. -/
structure Unwrapped (work_len : Nat) where
  work : Vector UInt8 work_len
  len : Nat
  label : Vector UInt8 (MAX_DESCRIPTOR_NAME_SIZE * 4)

/-- A label that cannot be used is made empty. -/
def keepLabel (found : Written (MAX_DESCRIPTOR_NAME_SIZE * 4)) : Except Exit (Vector UInt8 (MAX_DESCRIPTOR_NAME_SIZE * 4)) :=
  match found.2 with
  | none => put found.1 0 0
  | some label_len => if label_len = 0 then put found.1 0 0 else return found.1

def unwrap (text : Bytes) (work : Vector UInt8 work_len) : Except Exit (Unwrapped work_len) := do
  let p ← skip_ws text (text.length + 1) 0
  let json ← looksAt text p '{'.toUInt8
  if json then do
    let found ← json_get_string text p (ascii "descriptor") work
    match found.2 with
    | none => .error (.errmsg ERR_INVALID)
    | some len => do
      let label ← json_get_string text p (ascii "label") (Vector.replicate (MAX_DESCRIPTOR_NAME_SIZE * 4) 0)
      let label ← keepLabel label
      return ⟨found.1, len, label⟩
  else do
    let work ← putAll work 0 (text.drop p)
    let work ← put work (text.length - p) 0
    return ⟨work, text.length - p, Vector.replicate (MAX_DESCRIPTOR_NAME_SIZE * 4) 0⟩

/-- The length without trailing whitespace. -/
def trim (work : Vector UInt8 work_len) : Nat → Except Exit Nat
  | 0 => return 0
  | len + 1 => do
    let c ← get work len
    if isspace c then trim work len else return len + 1

/-- The length without the checksum, which is verified if there is one. -/
def uncheck (work : Vector UInt8 work_len) (len : Nat) : Except Exit (Vector UInt8 work_len × Nat) := do
  let text ← slice work len
  match text.idxOf? '#'.toUInt8 with
  | none => return (work, len)
  | some hash =>
    if len - hash ≠ 9 then .error (.errmsg ERR_INVALID)
    else do
      let behind ← slice work (hash + 9)
      if ¬ descriptor_checksum_valid (text.take hash) (behind.drop (hash + 1)) then .error (.errmsg ERR_INVALID)
      else do
        let work ← put work hash 0
        return (work, hash)

/-- Moves what is not whitespace to the front, with `left` characters still to be looked at. -/
def compact : Nat → Nat → Nat → Vector UInt8 work_len → Except Exit (Vector UInt8 work_len × Nat)
  | 0, _, w, work => do
    let work ← put work w 0
    return (work, w)
  | left + 1, i, w, work => do
    let c ← get work i
    if isspace c then compact left (i + 1) w work
    else do
      let work ← put work w c
      compact left (i + 1) (w + 1) work

def strip (work : Vector UInt8 work_len) (len : Nat) : Except Exit (Vector UInt8 work_len × Nat) := do
  let len ← trim work len
  let work ← put work len 0
  let unchecked ← uncheck work len
  compact unchecked.2 0 0 unchecked.1

end

/-! ### The name -/

variable {name_len : Nat}

/-- The characters of the label that a name may have, from the `i`th on, behind `nlen` others. -/
def sanitise (label : Vector UInt8 (MAX_DESCRIPTOR_NAME_SIZE * 4)) :
    Nat → Nat → Nat → Vector UInt8 name_len → Except Exit (Vector UInt8 name_len × Nat)
  | 0, _, _, _ => .error .diverged
  | rounds + 1, i, nlen, name => do
    let c ← get label i
    if c ≠ 0 ∧ nlen + 1 < MAX_DESCRIPTOR_NAME_SIZE then
      if c = 32 then do
        let name ← put name nlen '_'.toUInt8
        sanitise label rounds (i + 1) (nlen + 1) name
      else if isgraph c then do
        let name ← put name nlen c
        sanitise label rounds (i + 1) (nlen + 1) name
      else sanitise label rounds (i + 1) nlen name
    else do
      let name ← put name nlen 0
      return (name, nlen)

/-- Keys and values, one behind the other, with `left` of them still to be copied. -/
def copyValues {total : Nat} (values : Vector StringValue MAX_ALLOWED_SIGNERS) :
    Nat → Nat → Nat → Vector UInt8 total → Except Exit (Vector UInt8 total × Nat)
  | 0, _, n, buf => return (buf, n)
  | left + 1, i, n, buf => do
    let sv ← get values i
    let key ← slice sv.key sv.key_len.toNat
    let buf ← putAll buf n key
    let value ← slice sv.value sv.value_len.toNat
    let buf ← putAll buf (n + key.length) value
    copyValues values left (i + 1) (n + key.length + value.length) buf

/-- `string_values_len`, with `left` values still to be added. -/
def stringValuesLen (values : Vector StringValue MAX_ALLOWED_SIGNERS) : Nat → Nat → Except Exit Nat
  | 0, _ => return 0
  | left + 1, i => do
    let sv ← get values i
    let others ← stringValuesLen values left (i + 1)
    return sv.key_len.toNat + sv.value_len.toNat + others

def make_hash_name (sha256 : Bytes → Bytes) (descriptor : Descriptor) (name : Vector UInt8 name_len) :
    Except Exit (Vector UInt8 name_len × Bool) := do
  let values_len ← stringValuesLen descriptor.values descriptor.num_values.toNat 0
  let total := descriptor.script_len.toNat + values_len
  let script ← slice descriptor.script descriptor.script_len.toNat
  let buf ← putAll (Vector.replicate total 0) 0 script
  let copied ← copyValues descriptor.values descriptor.num_values.toNat 0 script.length buf
  if copied.2 ≠ total then .error .abort
  else do
    let hash := sha256 copied.1.toList
    let printed ← snprintf name 0 name_len
      (ascii "desc-" ++ (hash.take 4).flatMap fun b => [hexDigit (b.toNat / 16), hexDigit (b.toNat % 16)])
    return (printed.1, decide (0 < printed.2 ∧ printed.2 < name_len))

def recordName (sha256 : Bytes → Bytes) (label : Vector UInt8 (MAX_DESCRIPTOR_NAME_SIZE * 4)) (descriptor : Descriptor)
    (name : Vector UInt8 name_len) : Except Exit (Vector UInt8 name_len) := do
  let sanitised ← sanitise label (MAX_DESCRIPTOR_NAME_SIZE * 4 + 1) 0 0 name
  if sanitised.2 ≠ 0 then return sanitised.1
  else do
    let made ← make_hash_name sha256 descriptor sanitised.1
    if made.2 then return made.1 else .error (.errmsg ERR_INVALID)

def descriptor_text_parse (sha256 : Bytes → Bytes) (stack : Stack) (text : Bytes) (fresh : Vector UInt8 (text.length + 1))
    (descriptor : Descriptor) (name : Vector UInt8 name_len) : Except Exit (Descriptor × Vector UInt8 name_len) :=
  if text = [] ∨ name_len < MAX_DESCRIPTOR_NAME_SIZE then .error .abort
  else do
    let descriptor := { descriptor with script_len := 0, num_values := 0, type := .UNKNOWN }
    let name ← put name 0 0
    let unwrapped ← unwrap text fresh
    let stripped ← strip unwrapped.work unwrapped.len
    if stripped.2 = 0 then .error (.errmsg ERR_INVALID)
    else do
      let work ← slice stripped.1 stripped.2
      let descriptor ← walk stack work (work.length + 1) '('.toUInt8 descriptor 0
      if descriptor.num_values = 0 then .error (.errmsg ERR_UNSUPPORTED)
      else do
        let name ← recordName sha256 unwrapped.label descriptor name
        return (descriptor, name)

end PiJade.DescriptorText.Memory
