import PiJade.CborEnvelope

/-!
The reply to a request to sign a PSBT (the end of `sign_psbt_process`, `main/process/sign_psbt.c`, with
`check_extended_data_fields` of `main/process/process_utils.c`). The serialised PSBT is sent in pieces, and each
piece but the first is asked for by a `get_extended_data` message. An array that was not written to holds what
was on the stack.
-/
namespace PiJade.PsbtReply
open Cbor CborRpc Text
set_option linter.unusedSimpArgs false

/-! ### Messages -/

def MAXLEN_ID : Nat := 16
def MAX_OUTPUT_MSG_SIZE : Nat := 1024 * 3
def PSBT_OUT_CHUNK_SIZE : Nat := MAX_OUTPUT_MSG_SIZE - 64
def UINT32_MAX : Nat := 0xFFFFFFFF

def CBOR_RPC_BAD_PARAMETERS : Int := -32602
def CBOR_RPC_PROTOCOL_ERROR : Int := -32001

def CBOR_RPC_TAG_ID : Bytes := ['i', 'd'].map Char.toUInt8
def CBOR_RPC_TAG_SEQNUM : Bytes := ['s', 'e', 'q', 'n', 'u', 'm'].map Char.toUInt8
def CBOR_RPC_TAG_SEQLEN : Bytes := ['s', 'e', 'q', 'l', 'e', 'n'].map Char.toUInt8
def CBOR_RPC_TAG_RESULT : Bytes := ['r', 'e', 's', 'u', 'l', 't'].map Char.toUInt8

def orig : Bytes := ['o', 'r', 'i', 'g'].map Char.toUInt8
def origid : Bytes := ['o', 'r', 'i', 'g', 'i', 'd'].map Char.toUInt8
def sign_psbt : Bytes := ['s', 'i', 'g', 'n', '_', 'p', 's', 'b', 't'].map Char.toUInt8
def get_extended_data : Bytes :=
  ['g', 'e', 't', '_', 'e', 'x', 't', 'e', 'n', 'd', 'e', 'd', '_', 'd', 'a', 't', 'a'].map Char.toUInt8

/-- The library, with the comparison of a string. -/
structure Library (V : Type) extends Tinycbor V where
  cbor_value_text_string_equals : V → Bytes → Option Bool

/-- A message that was taken from the queue. -/
structure CborMsg (V : Type) where
  cbor : Bytes
  value : V

/-- What is sent: a piece under its number and their count, or an error. -/
inductive Reply where
  | bytes_sequence (id : Bytes) (seqnum seqlen : Nat) (data : Bytes)
  | reject (code : Int) (message : List Char)
  deriving DecidableEq, Repr

/-- The library writes an argument in as few bytes as it fits. -/
def encode_number (major value : Nat) : Bytes :=
  if value < 24 then [UInt8.ofNat (32 * major + value)]
  else if value < 256 then UInt8.ofNat (32 * major + 24) :: bigEndian 1 value
  else if value < 256 ^ 2 then UInt8.ofNat (32 * major + 25) :: bigEndian 2 value
  else if value < 256 ^ 4 then UInt8.ofNat (32 * major + 26) :: bigEndian 4 value
  else UInt8.ofNat (32 * major + 27) :: bigEndian 8 value

def cbor_encode_text_string (text : Bytes) : Bytes := encode_number 3 text.length ++ text
def cbor_encode_byte_string (data : Bytes) : Bytes := encode_number 2 data.length ++ data
def add_uint_to_map (name : Bytes) (value : Nat) : Bytes := cbor_encode_text_string name ++ encode_number 0 value

def rpc_init_cbor_with_sequence (id : Bytes) (seqnum seqlen : Nat) : Check Fault Bytes := do
  Check.ensure (id ≠ [])
  Check.ensure (seqnum ≤ seqlen)
  pure (cbor_encode_text_string CBOR_RPC_TAG_ID ++ cbor_encode_text_string id ++
    add_uint_to_map CBOR_RPC_TAG_SEQNUM seqnum ++ add_uint_to_map CBOR_RPC_TAG_SEQLEN seqlen ++
    cbor_encode_text_string CBOR_RPC_TAG_RESULT)

/-- An array after a text and its terminator were copied to it, if they were. -/
def written (array : Bytes) : Option (Bytes × Nat) → Bytes
  | some (data, _) => data ++ array.drop data.length
  | none => array

section
variable {V : Type} (lib : Library V)

/-! ### Fields -/

def rpc_get_string_len (field : Bytes) (value : V) : Nat :=
  match rpc_get_data lib.toTinycbor field value with
  | none => 0
  | some result =>
    if !cbor_value_is_text_string lib.toTinycbor result then 0 else (stringLength lib.toTinycbor result).getD 0

def rpc_message_valid (message : V) : Bool :=
  cbor_value_is_valid lib.toTinycbor message && cbor_value_is_map lib.toTinycbor message &&
    rpc_get_string_len lib CBOR_RPC_TAG_ID message != 0 && rpc_get_string_len lib CBOR_RPC_TAG_ID message ≤ MAXLEN_ID

def rpc_request_valid (request : V) : Bool :=
  rpc_message_valid lib request && rpc_get_string_len lib CBOR_RPC_TAG_METHOD request != 0 &&
    rpc_get_string_len lib CBOR_RPC_TAG_METHOD request ≤ MAXLEN_METHOD

def rpc_key_equals (value : V) (key data : Bytes) : Check Fault Bool := do
  Check.ensure (cbor_value_is_valid lib.toTinycbor value)
  Check.ensure (cbor_value_is_map lib.toTinycbor value)
  match lib.cbor_value_map_find_value value key with
  | none => .error .abort
  | some result_value => do
    Check.ensure (lib.cbor_value_get_type result_value ≠ .invalid)
    Check.ensure (cbor_value_is_valid lib.toTinycbor result_value)
    Check.ensure (cbor_value_is_text_string lib.toTinycbor result_value)
    match lib.cbor_value_text_string_equals result_value data with
    | none => .error .abort
    | some result => pure result

def rpc_is_method (value : V) (method : Bytes) : Check Fault Bool := rpc_key_equals lib value CBOR_RPC_TAG_METHOD method

def rpc_get_uint32 (field : Bytes) (value : V) : Check Fault (Option Nat) :=
  match rpc_get_data lib.toTinycbor field value with
  | none => .ok none
  | some result =>
    if !lib.cbor_value_is_unsigned_integer result then .ok none
    else
      match lib.cbor_value_get_uint64 result with
      | none => .error .abort
      | some tmp => if UINT32_MAX < tmp then .ok none else .ok (some tmp)

def rpc_get_id_ptr (message : CborMsg V) : Check Fault Ptr :=
  rpc_get_string_ptr lib.toTinycbor message.cbor CBOR_RPC_TAG_ID message.value

def rpc_get_id (value : V) : Check Fault (Option (Bytes × Nat)) :=
  if !cbor_value_is_valid lib.toTinycbor value then .ok none
  else if !cbor_value_is_map lib.toTinycbor value then .ok none
  else rpc_get_string lib.toTinycbor CBOR_RPC_TAG_ID (MAXLEN_ID + 1) value

/-- A message with a method. -/
def IS_CURRENT_MESSAGE (message : CborMsg V) (method : Bytes) : Check Fault Bool :=
  if rpc_request_valid lib message.value then rpc_is_method lib message.value method else pure false

def GET_MSG_PARAMS (message : CborMsg V) : Option V := do
  let params ← lib.cbor_value_map_find_value message.value CBOR_RPC_TAG_PARAMS
  if !cbor_value_is_valid lib.toTinycbor params ∨ lib.cbor_value_get_type params = .invalid ∨
    !cbor_value_is_map lib.toTinycbor params then none else some params

/-- `array` is what the array for the origin's id holds before. -/
def check_extended_data_fields (input : Bytes) (params : V) (array expected_origid expected_orig : Bytes)
    (expected_seqnum expected_seqlen : Nat) : Check Fault Bool := do
  Check.ensure (expected_seqnum ≤ UINT32_MAX)
  Check.ensure (expected_seqlen ≤ UINT32_MAX)
  let ptr ← rpc_get_string_ptr lib.toTinycbor input orig params
  let read ← rpc_get_string lib.toTinycbor origid (MAXLEN_ID + 1) params
  if ptr.size ≠ expected_orig.length ∨
      strncmp (input.drop (ptr.data.getD 0)) expected_orig expected_orig.length ≠ .eq ∨
      cstr (written array read) ≠ cstr expected_origid then pure false
  else
    match ← rpc_get_uint32 lib CBOR_RPC_TAG_SEQLEN params with
    | none => pure false
    | some seqlen =>
      if seqlen ≠ expected_seqlen then pure false
      else
        match ← rpc_get_uint32 lib CBOR_RPC_TAG_SEQNUM params with
        | none => pure false
        | some nextseq => pure (nextseq = expected_seqnum)

/-! ### The reply -/

def jade_process_reply_to_message_bytes_sequence (ctx : CborMsg V) (seqnum seqlen : Nat) (data : Bytes) (buflen : Nat) :
    Check Fault Reply := do
  let ptr ← rpc_get_id_ptr lib ctx
  Check.ensure (ptr.size ≠ 0)
  let id := (ctx.cbor.drop (ptr.data.getD 0)).take ptr.size
  let header ← rpc_init_cbor_with_sequence id seqnum seqlen
  Check.ensure ((encode_number 5 4 ++ header ++ cbor_encode_byte_string data).length ≤ buflen)
  pure (.bytes_sequence id seqnum seqlen data)

/-- A message that is waited for. There is none if the connection is lost. `array` is what the stack holds where
    the id of its origin is read to. -/
structure Arrival (V : Type) where
  message : Option (CborMsg V)
  array : Bytes

inductive Ending where
  | success
  | rejected
  | disconnected
  | waiting
  | abort
  deriving DecidableEq, Repr

/-- What was sent, and how it ended. -/
structure Exchange where
  sent : List Reply
  ending : Ending
  deriving DecidableEq, Repr

def Exchange.behind (reply : Reply) (exchange : Exchange) : Exchange := { exchange with sent := reply :: exchange.sent }

/-- Why the message is refused, if it is. -/
def awaited (original_id : Bytes) (seqnum nmsgs : Nat) (message : CborMsg V) (array : Bytes) :
    Check Fault (Option Reply) := do
  if !(← IS_CURRENT_MESSAGE lib message get_extended_data) then
    pure (some (.reject CBOR_RPC_PROTOCOL_ERROR "Unexpected message, expecting 'get_extended_data'".toList))
  else
    match GET_MSG_PARAMS lib message with
    | none => pure (some (.reject CBOR_RPC_BAD_PARAMETERS "Expecting parameters map".toList))
    | some params => do
      if !(← check_extended_data_fields lib message.cbor params array original_id sign_psbt (seqnum + 1) nmsgs) then
        pure (some (.reject CBOR_RPC_PROTOCOL_ERROR "Mismatched fields in 'get_extended_data' message".toList))
      else pure none

/-- What comes behind a piece: the next message is waited for if there is another piece. -/
def follow (original_id : Bytes) (seqnum nmsgs : Nat) (ctx : CborMsg V) (arrivals : List (Arrival V))
    (next : CborMsg V → List (Arrival V) → Exchange) : Exchange :=
  if seqnum < nmsgs then
    match arrivals with
    | [] => { sent := [], ending := .waiting }
    | arrival :: later =>
      match arrival.message with
      | none => { sent := [], ending := .disconnected }
      | some message =>
        match awaited lib original_id seqnum nmsgs message arrival.array with
        | .error _ => { sent := [], ending := .abort }
        | .ok (some rejection) => { sent := [rejection], ending := .rejected }
        | .ok none => next message later
  else next ctx arrivals

/-- So many turns are left. -/
def sendFrom (original_id bytes : Bytes) (nmsgs : Nat) : Nat → Nat → Nat → CborMsg V → List (Arrival V) → Exchange
  | 0, _, _, _, _ => { sent := [], ending := .success }
  | left + 1, imsg, chunk, ctx, arrivals =>
    if chunk < bytes.length then
      let remaining := bytes.length - chunk
      let chunk_len := if remaining < PSBT_OUT_CHUNK_SIZE then remaining else PSBT_OUT_CHUNK_SIZE
      let seqnum := imsg + 1
      match jade_process_reply_to_message_bytes_sequence lib ctx seqnum nmsgs ((bytes.drop chunk).take chunk_len)
        MAX_OUTPUT_MSG_SIZE with
      | .error _ => { sent := [], ending := .abort }
      | .ok reply => .behind reply (follow lib original_id seqnum nmsgs ctx arrivals
          (sendFrom original_id bytes nmsgs left (imsg + 1) (chunk + chunk_len)))
    else { sent := [], ending := .abort }

/-- A count in an `int`, as it is compared with sizes of 64 bits. -/
def ofInt (count : Nat) : Nat :=
  if count % 2 ^ 32 < 2 ^ 31 then count % 2 ^ 32 else 2 ^ 64 - 2 ^ 32 + count % 2 ^ 32

def nmsgs (bytes_len : Nat) : Nat := ofInt (bytes_len / PSBT_OUT_CHUNK_SIZE + 1)

/-- `array` is what the array for the id holds before. -/
def sign_psbt_reply (ctx : CborMsg V) (array bytes : Bytes) (arrivals : List (Arrival V)) : Exchange :=
  match rpc_get_id lib ctx.value with
  | .error _ => { sent := [], ending := .abort }
  | .ok read => sendFrom lib (written array read) bytes (nmsgs bytes.length) (nmsgs bytes.length) 0 0 ctx arrivals

end

end PiJade.PsbtReply
