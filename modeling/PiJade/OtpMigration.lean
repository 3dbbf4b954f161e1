import PiJade.Base32Buffers
import PiJade.Otp

/-!
The migration of one-time passwords (`main/otpauth.c`). The fields of an entry come in any order; the
secret is appended to the uri where it is found, name and issuer are kept and inserted when all fields
are read, and what is not a default is appended last. The parser of protocol buffers is the list of
fields that it delivers, the parser of uris a parameter.
-/
namespace PiJade.Otp
open Text
open SettingsCodec (ascii)
open DescriptorText.Memory (Exit readString value_bind)
open UrlCodec (urlencode)
set_option linter.unusedSimpArgs false

def OTP_MIGRATE_PB_FIELD_LEN : Nat := 64
def ALGORITHM_SHA1 : Nat := 1
def ALGORITHM_SHA256 : Nat := 2
def ALGORITHM_SHA512 : Nat := 3
def ALGORITHM_MD5 : Nat := 4
def DIGIT_COUNT_SIX : Nat := 1
def DIGIT_COUNT_EIGHT : Nat := 2
def OTP_TYPE_HOTP : Nat := 1
def OTP_TYPE_TOTP : Nat := 2

/-- A field of an entry, as the decoder finds it. -/
inductive Field where
  | secret (bytes : Bytes)
  | name (bytes : Bytes)
  | issuer (bytes : Bytes)
  | algorithm (value : Nat)
  | digits (value : Nat)
  | type (value : Nat)
  | counter (value : Int64)
  deriving DecidableEq, Repr

/-- The fields of a message that are kept as they are. -/
structure Message where
  algorithm : Nat
  digits : Nat
  type : Nat
  counter : Int64

def MigrationPayload_OtpParameters_init_zero : Message where
  algorithm := 0
  digits := 0
  type := 0
  counter := 0

abbrev Encoded : Type := Vector UInt8 (OTP_MIGRATE_PB_FIELD_LEN * 3 + 1)

/-- `otp_migrate_decode_str_ctx_t`. -/
structure StrCtx where
  name_encoded : Encoded
  has_name : Bool
  name_has_colon : Bool
  issuer_encoded : Encoded
  has_issuer : Bool

/-- Inserting a value behind the start of a uri. -/
def otp_uri_insert (uri start value : Bytes) : Option Bytes :=
  if OTP_MAX_URI_LEN ≤ uri.length + value.length then none
  else some (uri.take start.length ++ value ++ uri.drop start.length)

def append_uri_param (uri key value : Bytes) (first : Bool) : Option Bytes :=
  let param := (if first then 63 else 38) :: key ++ 61 :: value
  if uri.length + param.length < OTP_MAX_URI_LEN then some (uri ++ param) else none

/-- What a buffer takes of a field: all of it, or nothing. -/
def pb_read_stream (bytes : Bytes) (buf_len : Nat) : Bytes := if buf_len < bytes.length then [] else bytes

/-- The base32 buffer holds whatever the stack does. -/
def decode_secret_fn (base32 : Vector UInt8 64) (opt_uri bytes : Bytes) : Except Exit (Option Bytes) :=
  let buf := pb_read_stream bytes 32
  if buf.length = 0 then return none
  else do
    match ← Base32.Memory.bin_to_base32 buf base32 false with
    | none => return none
    | some base32 =>
      let text ← readString base32
      return append_uri_param opt_uri (ascii "secret") text true

def decode_name_fn (str_ctx : StrCtx) (bytes : Bytes) : Except Exit (Option StrCtx) :=
  let buf := pb_read_stream bytes (OTP_MIGRATE_PB_FIELD_LEN - 1)
  if buf.length = 0 then return none
  else do
    let (all, name_encoded) ← urlencode buf str_ctx.name_encoded
    if all then return some { str_ctx with name_encoded, name_has_colon := buf.contains 58, has_name := true }
    else return none

def decode_issuer_fn (str_ctx : StrCtx) (bytes : Bytes) : Except Exit (Option StrCtx) :=
  let buf := pb_read_stream bytes (OTP_MIGRATE_PB_FIELD_LEN - 1)
  if buf.length = 0 then return none
  else do
    let (all, issuer_encoded) ← urlencode buf str_ctx.issuer_encoded
    if all then return some { str_ctx with issuer_encoded, has_issuer := true } else return none

/-- What the decoder works on. -/
structure Decoding where
  uri_out : Bytes
  str_ctx : StrCtx
  message : Message

/-- One field: its callback, or the member that it sets. -/
def decode_field (base32 : Vector UInt8 64) (s : Decoding) : Field → Except Exit (Option Decoding)
  | .secret bytes => do return (← decode_secret_fn base32 s.uri_out bytes).map fun uri_out => { s with uri_out }
  | .name bytes => do return (← decode_name_fn s.str_ctx bytes).map fun str_ctx => { s with str_ctx }
  | .issuer bytes => do return (← decode_issuer_fn s.str_ctx bytes).map fun str_ctx => { s with str_ctx }
  | .algorithm value => return some { s with message := { s.message with algorithm := value } }
  | .digits value => return some { s with message := { s.message with digits := value } }
  | .type value => return some { s with message := { s.message with type := value } }
  | .counter value => return some { s with message := { s.message with counter := value } }

/-- `pb_decode`, on the fields in the order in which they stand. -/
def pb_decode (base32 : Vector UInt8 64) : List Field → Decoding → Except Exit (Option Decoding)
  | [], s => return some s
  | field :: rest, s => do
    match ← decode_field base32 s field with
    | none => return none
    | some s => pb_decode base32 rest s

/-- A text that has been read, or none. -/
def heldText (present : Bool) (encoded : Encoded) : Except Exit Bytes := if present then readString encoded else return []

def insertName (has_name : Bool) (name uri_out : Bytes) : Option Bytes :=
  if has_name then otp_uri_insert uri_out OTP_SCHEMA_FULL name else some uri_out

/-- The issuer stands before the name, unless the name has a colon of its own. -/
def labelIssuer (name_has_colon : Bool) (issuer uri_out : Bytes) : Option Bytes :=
  if name_has_colon then some uri_out
  else (otp_uri_insert uri_out OTP_SCHEMA_FULL [58]).bind fun uri_out => otp_uri_insert uri_out OTP_SCHEMA_FULL issuer

def insertIssuer (has_issuer name_has_colon : Bool) (issuer uri_out : Bytes) : Option Bytes :=
  if has_issuer then
    (labelIssuer name_has_colon issuer uri_out).bind fun uri_out => append_uri_param uri_out (ascii "issuer") issuer false
  else some uri_out

def insertNames (str_ctx : StrCtx) (uri_out : Bytes) : Except Exit (Option Bytes) := do
  let name ← heldText str_ctx.has_name str_ctx.name_encoded
  let issuer ← heldText str_ctx.has_issuer str_ctx.issuer_encoded
  return (insertName str_ctx.has_name name uri_out).bind fun uri_out =>
    insertIssuer str_ctx.has_issuer str_ctx.name_has_colon issuer uri_out

def insertType (type : Nat) (uri_out : Bytes) : Option Bytes :=
  if type = OTP_TYPE_HOTP then otp_uri_insert uri_out OTP_SCHEMA_FULL (ascii "hotp/")
  else if type = OTP_TYPE_TOTP then otp_uri_insert uri_out OTP_SCHEMA_FULL (ascii "totp/")
  else none

/-- The name of an algorithm that is not the default. -/
def algorithmName (algorithm : Nat) : Option Bytes :=
  if algorithm = ALGORITHM_SHA256 then some (ascii "SHA256")
  else if algorithm = ALGORITHM_SHA512 then some (ascii "SHA512")
  else if algorithm = ALGORITHM_MD5 then some (ascii "MD5")
  else none

def appendAlgorithm (algorithm : Nat) (uri_out : Bytes) : Option Bytes :=
  if algorithm ≠ ALGORITHM_SHA1 then
    match algorithmName algorithm with
    | none => none
    | some algo => append_uri_param uri_out (ascii "algorithm") algo false
  else some uri_out

def appendDigits (digits : Nat) (uri_out : Bytes) : Option Bytes :=
  if digits ≠ DIGIT_COUNT_SIX then
    if digits = DIGIT_COUNT_EIGHT then append_uri_param uri_out (ascii "digits") (ascii "8") false else none
  else some uri_out

def appendCounter (type : Nat) (counter : Int64) (uri_out : Bytes) : Except Exit (Option Bytes) :=
  if type = OTP_TYPE_HOTP ∧ 0 < counter then
    let counter_str := decimal counter.toInt.toNat
    if 0 < counter_str.length ∧ counter_str.length < 21 then
      return append_uri_param uri_out (ascii "counter") counter_str false
    else .error .abort
  else return some uri_out

/-- The type, and what is not a default. -/
def appendMembers (message : Message) (uri_out : Bytes) : Except Exit (Option Bytes) :=
  match ((insertType message.type uri_out).bind (appendAlgorithm message.algorithm)).bind (appendDigits message.digits) with
  | none => return none
  | some uri_out => appendCounter message.type message.counter uri_out

def zeroStrings : StrCtx where
  name_encoded := Vector.replicate _ 0
  has_name := false
  name_has_colon := false
  issuer_encoded := Vector.replicate _ 0
  has_issuer := false

/-- The uri of an entry, if there is room for it and all fields are known. -/
def decode_otp_parameters_fn (base32 : Vector UInt8 64) (fields : List Field) : Except Exit (Option Bytes) := do
  match ← pb_decode base32 fields ⟨OTP_SCHEMA_FULL, zeroStrings, MigrationPayload_OtpParameters_init_zero⟩ with
  | none => return none
  | some s =>
    match ← insertNames s.str_ctx s.uri_out with
    | none => return none
    | some uri_out => appendMembers s.message uri_out

/-! ### Entries -/

/-- An entry of a migration. -/
structure Entry where
  secret : Bytes
  name : Bytes
  issuer : Bytes
  hotp : Bool
  md_type : MdType
  eight : Bool
  counter : Int64
  secret_fits : 1 ≤ secret.length ∧ secret.length ≤ 32
  printable : (∀ c ∈ name, UrlCodec.Printable c.toNat) ∧ ∀ c ∈ issuer, UrlCodec.Printable c.toNat
  algorithm_known : md_type ≠ .NONE
  not_negative : 0 ≤ counter

namespace Entry

def algorithm (entry : Entry) : Nat :=
  match entry.md_type with
  | .NONE => 0
  | .SHA1 => ALGORITHM_SHA1
  | .SHA256 => ALGORITHM_SHA256
  | .SHA512 => ALGORITHM_SHA512

def digitCount (entry : Entry) : Nat := if entry.eight then DIGIT_COUNT_EIGHT else DIGIT_COUNT_SIX

def type (entry : Entry) : Nat := if entry.hotp then OTP_TYPE_HOTP else OTP_TYPE_TOTP

/-- The issuer stands before the name, unless the name has a colon of its own. -/
def label (entry : Entry) : Bytes :=
  if entry.issuer = [] ∨ entry.name.contains 58 then entry.name else entry.issuer ++ 58 :: entry.name

end Entry

namespace Field

def secret? : Field → Option Bytes
  | .secret bytes => some bytes
  | _ => none

def name? : Field → Option Bytes
  | .name bytes => some bytes
  | _ => none

def issuer? : Field → Option Bytes
  | .issuer bytes => some bytes
  | _ => none

def algorithm? : Field → Option Nat
  | .algorithm value => some value
  | _ => none

def digits? : Field → Option Nat
  | .digits value => some value
  | _ => none

def type? : Field → Option Nat
  | .type value => some value
  | _ => none

def counter? : Field → Option Int64
  | .counter value => some value
  | _ => none

end Field

/-- The last value of a member, zero if there is none. -/
def lastOf {α : Type} (fields : List Field) (member : Field → Option α) (zero : α) : α :=
  (fields.filterMap member).getLastD zero

/-- The fields of an entry, in whatever order; an empty name or issuer need not be among them. -/
structure Delivers (entry : Entry) (fields : List Field) : Prop where
  secret : fields.filterMap Field.secret? = [entry.secret]
  name : fields.filterMap Field.name? = [entry.name] ∨ entry.name = [] ∧ fields.filterMap Field.name? = []
  issuer : fields.filterMap Field.issuer? = [entry.issuer] ∨ entry.issuer = [] ∧ fields.filterMap Field.issuer? = []
  algorithm : lastOf fields Field.algorithm? 0 = entry.algorithm
  digits : lastOf fields Field.digits? 0 = entry.digitCount
  type : lastOf fields Field.type? 0 = entry.type
  counter : lastOf fields Field.counter? 0 = entry.counter

/-! ### The fields -/

theorem readString_eq {size : Nat} {buffer : Vector UInt8 size} {text : Bytes} (no_nul : 0 ∉ text)
    (terminated : text ++ [0] <+: buffer.toList) : readString buffer = .ok text := by
  have present : 0 ∈ buffer.toList := terminated.subset (List.mem_append_right _ (List.mem_singleton_self _))
  rw [readString, if_pos present, DescriptorText.Memory.cstr_terminated terminated, cstr_eq_self no_nul]
  rfl

theorem pb_read_stream_some {bytes : Bytes} {buf_len : Nat} (read : (pb_read_stream bytes buf_len).length ≠ 0) :
    pb_read_stream bytes buf_len = bytes ∧ bytes ≠ [] ∧ bytes.length ≤ buf_len := by
  unfold pb_read_stream at read ⊢
  split
  next long =>
    rw [if_pos long] at read
    exact absurd rfl read
  next fits =>
    rw [if_neg fits] at read
    exact ⟨rfl, fun empty => read (by rw [empty]; rfl), Nat.not_lt.mp fits⟩

theorem append_uri_param_some {uri key value later : Bytes} {first : Bool}
    (made : append_uri_param uri key value first = some later) :
    later = uri ++ (if first then 63 else 38) :: key ++ 61 :: value ∧ later.length < OTP_MAX_URI_LEN := by
  rw [append_uri_param] at made
  by_cases room : uri.length + ((if first then 63 else 38) :: key ++ 61 :: value : Bytes).length < OTP_MAX_URI_LEN
  · rw [if_pos room] at made
    obtain ⟨⟩ := made
    exact ⟨by simp, by rwa [List.length_append]⟩
  · rw [if_neg room] at made
    cases made

theorem append_later_some {uri key value later : Bytes} (made : append_uri_param uri key value false = some later) :
    later = uri ++ 38 :: key ++ 61 :: value ∧ later.length < OTP_MAX_URI_LEN := append_uri_param_some made

theorem otp_uri_insert_some {start rest value later : Bytes} (made : otp_uri_insert (start ++ rest) start value = some later) :
    later = start ++ value ++ rest ∧ later.length < OTP_MAX_URI_LEN := by
  unfold otp_uri_insert at made
  split at made
  next => cases made
  next room =>
    obtain ⟨⟩ := made
    rw [List.take_left, List.drop_left]
    refine ⟨rfl, ?_⟩
    rw [List.length_append] at room
    rw [List.length_append, List.length_append]
    omega

/-- What a secret adds to a uri. -/
def secretParam (secret : Bytes) : Bytes := 63 :: ascii "secret" ++ 61 :: Base32.bin_to_base32 secret

theorem decode_secret_fn_some {base32 : Vector UInt8 64} {uri bytes later : Bytes}
    (made : decode_secret_fn base32 uri bytes = .ok (some later)) : later = uri ++ secretParam bytes := by
  unfold decode_secret_fn at made
  dsimp only at made
  by_cases empty : (pb_read_stream bytes 32).length = 0
  · rw [if_pos empty] at made
    cases made
  obtain ⟨whole, some_byte, fits⟩ := pb_read_stream_some empty
  have length := Base32.Memory.padded_length bytes false
  have same : Base32.Memory.padded bytes false = Base32.bin_to_base32 bytes := by
    simp [Base32.Memory.padded, Base32.Memory.requiredPadding]
  have no_padding : Base32.Memory.requiredPadding bytes.length false = 0 := rfl
  rw [no_padding, Base32.Memory.requiredChars] at length
  obtain ⟨buffer, wrote, layout⟩ := @Base32.Memory.bin_to_base32_eq _ _ some_byte base32 false (by omega)
  have text : readString buffer = .ok (Base32.bin_to_base32 bytes) := by
    refine readString_eq (same ▸ Base32.Memory.padded_visible bytes false) ?_
    rw [layout, same]
    exact ⟨_, by rw [List.append_assoc]; rfl⟩
  rw [if_neg empty, whole, wrote, value_bind] at made
  dsimp only at made
  rw [text, value_bind] at made
  have appended := append_uri_param_some (Except.ok.inj made)
  rw [appended.1, secretParam]
  simp

/-- Nothing is encoded as a terminator. -/
theorem encode_no_nul (s : Bytes) : 0 ∉ UrlCodec.encode s := by
  intro nul
  obtain ⟨c, _, inside⟩ := List.mem_flatMap.mp nul
  unfold UrlCodec.encodeChar at inside
  split at inside
  next plain =>
    rw [← List.mem_singleton.mp inside] at plain
    revert plain
    decide
  next =>
    split at inside
    next => cases List.mem_singleton.mp inside
    next =>
      obtain ⟨high, low, _⟩ := UrlCodec.escape_number c
      simp only [UrlCodec.escape, List.mem_cons, List.not_mem_nil, or_false] at inside
      rcases inside with percent | upper | lower
      · cases percent
      · rw [← upper] at high
        revert high
        decide
      · rw [← lower] at low
        revert low
        decide

/-- A buffer holds the encoding of a text that has been read. -/
structure Kept (encoded : Encoded) (text : Bytes) : Prop where
  holds : UrlCodec.encode text ++ [0] <+: encoded.toList
  some_char : text ≠ []
  fits : text.length < OTP_MIGRATE_PB_FIELD_LEN

theorem Kept.read {encoded : Encoded} {text : Bytes} (kept : Kept encoded text) :
    readString encoded = .ok (UrlCodec.encode text) := readString_eq (encode_no_nul text) kept.holds

theorem urlencode_kept {bytes : Bytes} {before after : Encoded} (read : (pb_read_stream bytes (OTP_MIGRATE_PB_FIELD_LEN - 1)).length ≠ 0)
    (encoded : urlencode (pb_read_stream bytes (OTP_MIGRATE_PB_FIELD_LEN - 1)) before = .ok (true, after)) : Kept after bytes := by
  obtain ⟨whole, some_char, fits⟩ := pb_read_stream_some read
  rw [whole] at encoded
  refine ⟨?_, some_char, by rw [OTP_MIGRATE_PB_FIELD_LEN] at fits ⊢; omega⟩
  rcases UrlCodec.urlencode_spec some_char (by decide) before with ⟨_, later, ran, holds⟩ | ⟨_, later, ran⟩
  · rw [ran] at encoded
    obtain ⟨⟩ := encoded
    exact holds
  · rw [ran] at encoded
    cases encoded

/-! ### What is kept of the fields -/

/-- What the fields so far say. -/
structure Told where
  params : Bytes
  name : Option Bytes
  issuer : Option Bytes
  message : Message

def Told.add (told : Told) : Field → Told
  | .secret bytes => { told with params := told.params ++ secretParam bytes }
  | .name bytes => { told with name := some bytes }
  | .issuer bytes => { told with issuer := some bytes }
  | .algorithm value => { told with message := { told.message with algorithm := value } }
  | .digits value => { told with message := { told.message with digits := value } }
  | .type value => { told with message := { told.message with type := value } }
  | .counter value => { told with message := { told.message with counter := value } }

/-- A text that has been read, or none. -/
structure Keeps (encoded : Encoded) (present : Bool) (text : Option Bytes) : Prop where
  present : present = text.isSome
  kept : ∀ some_text ∈ text, Kept encoded some_text

/-- The decoder holds what it has been told. -/
structure Holds (s : Decoding) (told : Told) : Prop where
  uri_out : s.uri_out = OTP_SCHEMA_FULL ++ told.params
  name : Keeps s.str_ctx.name_encoded s.str_ctx.has_name told.name
  colon : s.str_ctx.name_has_colon = (told.name.getD []).contains 58
  issuer : Keeps s.str_ctx.issuer_encoded s.str_ctx.has_issuer told.issuer
  message : s.message = told.message

theorem decode_name_fn_some {str_ctx later : StrCtx} {bytes : Bytes} (made : decode_name_fn str_ctx bytes = .ok (some later)) :
    ∃ name_encoded, Kept name_encoded bytes ∧
      later = { str_ctx with name_encoded, name_has_colon := bytes.contains 58, has_name := true } := by
  rw [decode_name_fn] at made
  by_cases empty : (pb_read_stream bytes (OTP_MIGRATE_PB_FIELD_LEN - 1)).length = 0
  · rw [if_pos empty] at made
    cases made
  rw [if_neg empty] at made
  cases encoded : urlencode (pb_read_stream bytes (OTP_MIGRATE_PB_FIELD_LEN - 1)) str_ctx.name_encoded with
  | error exit =>
    rw [encoded] at made
    cases made
  | ok result =>
    obtain ⟨all, name_encoded⟩ := result
    rw [encoded, value_bind] at made
    cases all with
    | false => cases made
    | true =>
      have same := Option.some.inj (Except.ok.inj made)
      rw [(pb_read_stream_some empty).1] at same
      exact ⟨name_encoded, urlencode_kept empty encoded, same.symm⟩

theorem decode_issuer_fn_some {str_ctx later : StrCtx} {bytes : Bytes}
    (made : decode_issuer_fn str_ctx bytes = .ok (some later)) :
    ∃ issuer_encoded, Kept issuer_encoded bytes ∧ later = { str_ctx with issuer_encoded, has_issuer := true } := by
  rw [decode_issuer_fn] at made
  by_cases empty : (pb_read_stream bytes (OTP_MIGRATE_PB_FIELD_LEN - 1)).length = 0
  · rw [if_pos empty] at made
    cases made
  rw [if_neg empty] at made
  cases encoded : urlencode (pb_read_stream bytes (OTP_MIGRATE_PB_FIELD_LEN - 1)) str_ctx.issuer_encoded with
  | error exit =>
    rw [encoded] at made
    cases made
  | ok result =>
    obtain ⟨all, issuer_encoded⟩ := result
    rw [encoded, value_bind] at made
    cases all with
    | false => cases made
    | true => exact ⟨issuer_encoded, urlencode_kept empty encoded, (Option.some.inj (Except.ok.inj made)).symm⟩

/-- A callback that succeeds has made something of its field. -/
theorem map_some {α β : Type} {made : Except Exit (Option α)} {f : α → β} {later : β}
    (ran : (do return (← made).map f) = (.ok (some later) : Except Exit (Option β))) :
    ∃ value, made = .ok (some value) ∧ later = f value := by
  cases made with
  | error exit => cases ran
  | ok result =>
    cases result with
    | none => cases ran
    | some value => exact ⟨value, rfl, (Option.some.inj (Except.ok.inj ran)).symm⟩

theorem decode_field_holds {base32 : Vector UInt8 64} {s later : Decoding} {told : Told} {field : Field} (holds : Holds s told)
    (made : decode_field base32 s field = .ok (some later)) : Holds later (told.add field) := by
  have ⟨uri_out, name, colon, issuer, message⟩ := holds
  cases field with
  | secret bytes =>
    obtain ⟨uri, appended, rfl⟩ := map_some made
    refine ⟨?_, name, colon, issuer, message⟩
    rw [decode_secret_fn_some appended, uri_out, List.append_assoc]
    rfl
  | name bytes =>
    obtain ⟨str_ctx, encoded, rfl⟩ := map_some made
    obtain ⟨name_encoded, kept, rfl⟩ := decode_name_fn_some encoded
    refine ⟨uri_out, ⟨rfl, ?_⟩, rfl, issuer, message⟩
    rintro _ ⟨⟩
    exact kept
  | issuer bytes =>
    obtain ⟨str_ctx, encoded, rfl⟩ := map_some made
    obtain ⟨issuer_encoded, kept, rfl⟩ := decode_issuer_fn_some encoded
    refine ⟨uri_out, name, colon, ⟨rfl, ?_⟩, message⟩
    rintro _ ⟨⟩
    exact kept
  | algorithm value | digits value | type value | counter value =>
    obtain ⟨⟩ := made
    exact ⟨uri_out, name, colon, issuer, by dsimp only [Told.add]; rw [message]⟩

theorem pb_decode_holds {base32 : Vector UInt8 64} : ∀ {fields : List Field} {s later : Decoding} {told : Told}, Holds s told →
    pb_decode base32 fields s = .ok (some later) → Holds later (fields.foldl Told.add told)
  | [], s, later, told, holds, made => by
    obtain ⟨⟩ := made
    exact holds
  | field :: rest, s, later, told, holds, made => by
    rw [pb_decode] at made
    cases ran : decode_field base32 s field with
    | error exit =>
      rw [ran] at made
      cases made
    | ok result =>
      rw [ran, value_bind] at made
      cases result with
      | none => cases made
      | some next =>
        dsimp only at made
        exact @pb_decode_holds _ rest next later _ (decode_field_holds holds ran) made

section
variable (fields : List Field) (told : Told)

theorem told_params : (fields.foldl Told.add told).params =
    told.params ++ (fields.filterMap Field.secret?).flatMap secretParam := by
  induction fields generalizing told with
  | nil => simp
  | cons field rest ih => cases field <;> simp [ih, Told.add, Field.secret?, List.filterMap_cons]

theorem told_name : (fields.foldl Told.add told).name = (fields.filterMap Field.name?).getLast?.or told.name := by
  induction fields generalizing told with
  | nil => rfl
  | cons field rest ih => cases field <;> simp [ih, Told.add, Field.name?, List.filterMap_cons, List.getLast?_cons]

theorem told_issuer : (fields.foldl Told.add told).issuer = (fields.filterMap Field.issuer?).getLast?.or told.issuer := by
  induction fields generalizing told with
  | nil => rfl
  | cons field rest ih => cases field <;> simp [ih, Told.add, Field.issuer?, List.filterMap_cons, List.getLast?_cons]

theorem told_message : (fields.foldl Told.add told).message =
    ⟨lastOf fields Field.algorithm? told.message.algorithm, lastOf fields Field.digits? told.message.digits,
      lastOf fields Field.type? told.message.type, lastOf fields Field.counter? told.message.counter⟩ := by
  induction fields generalizing told with
  | nil => rfl
  | cons field rest ih =>
    rw [List.foldl_cons, ih]
    cases field <;>
      simp [lastOf, Told.add, Field.algorithm?, Field.digits?, Field.type?, Field.counter?, List.getLastD_eq_getLast?,
        List.filterMap_cons, List.getLast?_cons]

end

/-! ### The uri -/

/-- A text, if it is not empty. -/
def someText (text : Bytes) : Option Bytes := if text = [] then none else some text

/-- A parameter, if it has a value. -/
def param (key : Bytes) (value : Option Bytes) : List (Bytes × Bytes) := (value.map (key, ·)).toList

/-- Parameters, each with a mark before it. -/
def params (args : List (Bytes × Bytes)) : Bytes := args.flatMap fun arg => 38 :: arg.1 ++ 61 :: arg.2

namespace Entry

def typeName (entry : Entry) : Bytes := if entry.hotp then ascii "hotp" else ascii "totp"

def labelText (entry : Entry) : Bytes :=
  if entry.issuer = [] ∨ entry.name.contains 58 then UrlCodec.encode entry.name
  else UrlCodec.encode entry.issuer ++ 58 :: UrlCodec.encode entry.name

def issuerParam (entry : Entry) : List (Bytes × Bytes) :=
  param (ascii "issuer") ((someText entry.issuer).map UrlCodec.encode)

def counterParam (entry : Entry) : List (Bytes × Bytes) :=
  param (ascii "counter") (if entry.hotp = true ∧ 0 < entry.counter then some (decimal entry.counter.toInt.toNat) else none)

def args (entry : Entry) : List (Bytes × Bytes) :=
  (ascii "secret", Base32.bin_to_base32 entry.secret) :: (entry.issuerParam ++
    param (ascii "algorithm") (algorithmName entry.algorithm) ++
    param (ascii "digits") (if entry.eight then some (ascii "8") else none) ++ entry.counterParam)

/-- The uri that stands for an entry. -/
def uri (entry : Entry) : Bytes :=
  OTP_SCHEMA_FULL ++ entry.typeName ++ 47 :: entry.labelText ++ 63 :: (params entry.args).tail

end Entry

theorem params_cons (arg : Bytes × Bytes) (rest : List (Bytes × Bytes)) :
    params (arg :: rest) = 38 :: (arg.1 ++ 61 :: arg.2 ++ params rest) := by simp [params]

theorem params_append (first second : List (Bytes × Bytes)) : params (first ++ second) = params first ++ params second :=
  List.flatMap_append

theorem params_none (key : Bytes) : params (param key none) = [] := rfl

theorem params_some (key value : Bytes) : params (param key (some value)) = 38 :: key ++ 61 :: value := by simp [params, param]

/-- The text that a buffer holds, or nothing. -/
theorem Keeps.read {encoded : Encoded} {present : Bool} {text : Bytes} (keeps : Keeps encoded present (someText text)) :
    heldText present encoded = .ok (UrlCodec.encode text) := by
  have ⟨flag, kept⟩ := keeps
  by_cases empty : text = []
  · rw [flag, someText, if_pos empty, empty]
    rfl
  · rw [someText, if_neg empty] at flag kept
    rw [flag, heldText, if_pos Option.isSome_some, (kept text rfl).read]

theorem Keeps.length {encoded : Encoded} {present : Bool} {text : Bytes} (keeps : Keeps encoded present (someText text)) :
    text.length < OTP_MIGRATE_PB_FIELD_LEN := by
  by_cases empty : text = []
  · rw [empty]
    decide
  · exact (keeps.kept text (by rw [someText, if_neg empty]; rfl)).fits

theorem someText_getD (text : Bytes) : (someText text).getD [] = text := by
  by_cases empty : text = []
  · rw [someText, if_pos empty, empty]
    rfl
  · rw [someText, if_neg empty]
    rfl

theorem someText_isSome (text : Bytes) : (someText text).isSome = true ↔ text ≠ [] := by
  by_cases empty : text = [] <;> simp [someText, empty]

theorem insertName_some {has_name : Bool} {text behind later : Bytes} (present : has_name = (someText text).isSome)
    (made : insertName has_name (UrlCodec.encode text) (OTP_SCHEMA_FULL ++ behind) = some later) :
    later = OTP_SCHEMA_FULL ++ (UrlCodec.encode text ++ behind) := by
  simp only [insertName, present, someText_isSome] at made
  by_cases empty : text = []
  · rw [if_neg (not_not_intro empty)] at made
    rw [← Option.some.inj made, empty]
    rfl
  · rw [if_pos empty] at made
    rw [(otp_uri_insert_some made).1, List.append_assoc]

theorem insertIssuer_some {entry : Entry} {has_issuer : Bool} {behind later : Bytes}
    (present : has_issuer = (someText entry.issuer).isSome)
    (made : insertIssuer has_issuer (entry.name.contains 58) (UrlCodec.encode entry.issuer)
      (OTP_SCHEMA_FULL ++ (UrlCodec.encode entry.name ++ behind)) = some later) :
    later = OTP_SCHEMA_FULL ++ entry.labelText ++ behind ++ params entry.issuerParam := by
  simp only [insertIssuer, present, someText_isSome] at made
  by_cases empty : entry.issuer = []
  · rw [if_neg (not_not_intro empty)] at made
    rw [← Option.some.inj made, Entry.labelText, if_pos (.inl empty), Entry.issuerParam, someText, if_pos empty]
    simp [params_none]
  rw [if_pos empty] at made
  have param_text : params entry.issuerParam = 38 :: ascii "issuer" ++ 61 :: UrlCodec.encode entry.issuer := by
    rw [Entry.issuerParam, someText, if_neg empty]
    exact params_some _ _
  obtain ⟨uri, labelled, appended⟩ := Option.bind_eq_some_iff.mp made
  rw [(append_later_some appended).1, param_text]
  by_cases own : entry.name.contains 58 = true
  · rw [labelIssuer, if_pos own] at labelled
    rw [← Option.some.inj labelled, Entry.labelText, if_pos (.inr own)]
    simp
  · rw [labelIssuer, if_neg own] at labelled
    obtain ⟨marked, mark, issued⟩ := Option.bind_eq_some_iff.mp labelled
    rw [(otp_uri_insert_some mark).1, List.append_assoc] at issued
    rw [(otp_uri_insert_some issued).1, Entry.labelText, if_neg (not_or.mpr ⟨empty, own⟩)]
    simp

theorem insertNames_some {str_ctx : StrCtx} {entry : Entry} {behind later : Bytes}
    (name : Keeps str_ctx.name_encoded str_ctx.has_name (someText entry.name))
    (colon : str_ctx.name_has_colon = entry.name.contains 58)
    (issuer : Keeps str_ctx.issuer_encoded str_ctx.has_issuer (someText entry.issuer))
    (made : insertNames str_ctx (OTP_SCHEMA_FULL ++ behind) = .ok (some later)) :
    later = OTP_SCHEMA_FULL ++ entry.labelText ++ behind ++ params entry.issuerParam := by
  rw [insertNames, name.read, value_bind, issuer.read, value_bind] at made
  obtain ⟨uri, inserted, rest⟩ := Option.bind_eq_some_iff.mp (Except.ok.inj made)
  rw [insertName_some name.present inserted, colon] at rest
  exact insertIssuer_some issuer.present rest

theorem insertType_some {entry : Entry} {behind later : Bytes}
    (made : insertType entry.type (OTP_SCHEMA_FULL ++ behind) = some later) :
    later = OTP_SCHEMA_FULL ++ entry.typeName ++ 47 :: behind ∧ later.length < OTP_MAX_URI_LEN := by
  have hotp : ascii "hotp/" = ascii "hotp" ++ [47] := rfl
  have totp : ascii "totp/" = ascii "totp" ++ [47] := rfl
  by_cases kind : entry.hotp = true
  · rw [insertType, Entry.type, if_pos kind, if_pos rfl, hotp] at made
    have inserted := otp_uri_insert_some made
    exact ⟨by rw [inserted.1, Entry.typeName, if_pos kind]; simp, inserted.2⟩
  · rw [insertType, Entry.type, if_neg kind, if_neg (by decide), if_pos rfl, totp] at made
    have inserted := otp_uri_insert_some made
    exact ⟨by rw [inserted.1, Entry.typeName, if_neg kind]; simp, inserted.2⟩

/-- A parameter is appended if it has a value. -/
theorem append_param_some {key uri later : Bytes} {value : Option Bytes} (short : uri.length < OTP_MAX_URI_LEN)
    (made : (match value with | none => some uri | some value => append_uri_param uri key value false) = some later) :
    later = uri ++ params (param key value) ∧ later.length < OTP_MAX_URI_LEN := by
  cases value with
  | none =>
    obtain ⟨⟩ := made
    exact ⟨by rw [params_none, List.append_nil], short⟩
  | some value =>
    have appended := append_later_some made
    exact ⟨by rw [appended.1, params_some]; simp, appended.2⟩

theorem appendAlgorithm_some {entry : Entry} {uri later : Bytes} (short : uri.length < OTP_MAX_URI_LEN)
    (made : appendAlgorithm entry.algorithm uri = some later) :
    later = uri ++ params (param (ascii "algorithm") (algorithmName entry.algorithm)) ∧ later.length < OTP_MAX_URI_LEN := by
  unfold appendAlgorithm at made
  by_cases default : entry.algorithm = ALGORITHM_SHA1
  · rw [if_neg (not_not_intro default)] at made
    rw [default]
    exact append_param_some short made
  · rw [if_pos default] at made
    cases named : algorithmName entry.algorithm with
    | none =>
      rw [named] at made
      cases made
    | some algo =>
      rw [named] at made
      exact append_param_some short made

theorem appendDigits_some {entry : Entry} {uri later : Bytes} (short : uri.length < OTP_MAX_URI_LEN)
    (made : appendDigits entry.digitCount uri = some later) :
    later = uri ++ params (param (ascii "digits") (if entry.eight then some (ascii "8") else none)) ∧
      later.length < OTP_MAX_URI_LEN := by
  by_cases eight : entry.eight = true
  · rw [Entry.digitCount, if_pos eight, appendDigits, if_pos (by decide), if_pos rfl] at made
    rw [if_pos eight]
    exact append_param_some short made
  · rw [Entry.digitCount, if_neg eight, appendDigits, if_neg (by decide)] at made
    rw [if_neg eight]
    exact append_param_some short made

theorem hotp_type (entry : Entry) : entry.type = OTP_TYPE_HOTP ↔ entry.hotp = true := by
  rw [Entry.type]
  cases entry.hotp <;> decide

theorem appendCounter_some {entry : Entry} {uri later : Bytes} (short : uri.length < OTP_MAX_URI_LEN)
    (made : appendCounter entry.type entry.counter uri = .ok (some later)) :
    later = uri ++ params entry.counterParam ∧ later.length < OTP_MAX_URI_LEN := by
  simp only [appendCounter, hotp_type] at made
  rw [Entry.counterParam]
  by_cases counted : entry.hotp = true ∧ 0 < entry.counter
  · rw [if_pos counted] at made
    rw [if_pos counted]
    split at made
    next => exact append_param_some short (Except.ok.inj made)
    next => cases made
  · rw [if_neg counted] at made
    rw [if_neg counted]
    exact append_param_some short (Except.ok.inj made)

theorem appendMembers_some {entry : Entry} {message : Message} {behind later : Bytes}
    (algorithm : message.algorithm = entry.algorithm) (digits : message.digits = entry.digitCount)
    (type : message.type = entry.type) (counter : message.counter = entry.counter)
    (made : appendMembers message (OTP_SCHEMA_FULL ++ behind) = .ok (some later)) :
    later = OTP_SCHEMA_FULL ++ entry.typeName ++ 47 :: behind ++
      params (param (ascii "algorithm") (algorithmName entry.algorithm)) ++
      params (param (ascii "digits") (if entry.eight then some (ascii "8") else none)) ++ params entry.counterParam ∧
    later.length < OTP_MAX_URI_LEN := by
  rw [appendMembers, algorithm, digits, type, counter] at made
  cases chained : ((insertType entry.type (OTP_SCHEMA_FULL ++ behind)).bind (appendAlgorithm entry.algorithm)).bind
      (appendDigits entry.digitCount) with
  | none =>
    rw [chained] at made
    cases made
  | some uri =>
    rw [chained] at made
    obtain ⟨second, chained, eighth⟩ := Option.bind_eq_some_iff.mp chained
    obtain ⟨first, typed, hashed⟩ := Option.bind_eq_some_iff.mp chained
    have with_type := insertType_some typed
    have with_algorithm := appendAlgorithm_some with_type.2 hashed
    have with_digits := appendDigits_some with_algorithm.2 eighth
    have with_counter := appendCounter_some with_digits.2 made
    rw [with_digits.1, with_algorithm.1, with_type.1] at with_counter
    exact with_counter

theorem present_name {names : List Bytes} {text : Bytes} (found : names = [text] ∨ text = [] ∧ names = [])
    (some_chars : ∀ some_text ∈ names.getLast?, some_text ≠ []) : names.getLast?.or none = someText text := by
  rcases found with rfl | ⟨rfl, rfl⟩
  · rw [someText, if_neg (some_chars text rfl)]
    rfl
  · rfl

/-- What is built of the fields of an entry is the uri of the entry, and it fits. -/
theorem uri_of_fields {base32 : Vector UInt8 64} {entry : Entry} {fields : List Field} {uri : Bytes}
    (delivers : Delivers entry fields) (built : decode_otp_parameters_fn base32 fields = .ok (some uri)) :
    uri = entry.uri ∧ uri.length < OTP_MAX_URI_LEN ∧ entry.name.length < OTP_MIGRATE_PB_FIELD_LEN ∧
      entry.issuer.length < OTP_MIGRATE_PB_FIELD_LEN := by
  let told : Told := ⟨[], none, none, MigrationPayload_OtpParameters_init_zero⟩
  have start : Holds ⟨OTP_SCHEMA_FULL, zeroStrings, MigrationPayload_OtpParameters_init_zero⟩ told :=
    ⟨(List.append_nil _).symm, ⟨rfl, nofun⟩, rfl, ⟨rfl, nofun⟩, rfl⟩
  rw [decode_otp_parameters_fn] at built
  cases ran : pb_decode base32 fields ⟨OTP_SCHEMA_FULL, zeroStrings, MigrationPayload_OtpParameters_init_zero⟩ with
  | error exit =>
    rw [ran] at built
    cases built
  | ok result =>
    rw [ran, value_bind] at built
    cases result with
    | none => cases built
    | some s =>
      have ⟨uri_out, name, colon, issuer, message⟩ := pb_decode_holds start ran
      rw [told_name] at name colon
      rw [told_issuer] at issuer
      have named := present_name delivers.name fun text present =>
        (name.kept text (by rw [present]; rfl)).some_char
      have issued := present_name delivers.issuer fun text present =>
        (issuer.kept text (by rw [present]; rfl)).some_char
      rw [show told.name = none from rfl, named] at name colon
      rw [show told.issuer = none from rfl, issued] at issuer
      rw [someText_getD] at colon
      rw [told_params, delivers.secret, List.flatMap_singleton, show told.params = [] from rfl, List.nil_append] at uri_out
      rw [told_message, show told.message = MigrationPayload_OtpParameters_init_zero from rfl] at message
      dsimp only [MigrationPayload_OtpParameters_init_zero] at message
      rw [delivers.algorithm, delivers.digits, delivers.type, delivers.counter] at message
      dsimp only at built
      rw [uri_out] at built
      cases inserted : insertNames s.str_ctx (OTP_SCHEMA_FULL ++ secretParam entry.secret) with
      | error exit =>
        rw [inserted] at built
        cases built
      | ok result =>
        rw [inserted, value_bind] at built
        cases result with
        | none => cases built
        | some later =>
          dsimp only at built
          rw [insertNames_some name colon issuer inserted, List.append_assoc, List.append_assoc] at built
          have made := appendMembers_some (by rw [message]) (by rw [message]) (by rw [message]) (by rw [message]) built
          refine ⟨?_, made.2, name.length, issuer.length⟩
          rw [made.1, Entry.uri, Entry.args, params_cons, List.tail_cons, params_append, params_append, params_append]
          simp [secretParam]

end PiJade.Otp
