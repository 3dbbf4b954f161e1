import PiJade.Cbor
import PiJade.Process
import PiJade.Text

/-!
Fields of a CBOR message (`main/utils/cbor_rpc.c`) and the messages that are read from a scanned code
(`bcur_parse_bytes`, `bcur_parse_psbt` and `bcur_parse_jade_message` of `main/bcur.c`). The CBOR library
is a parameter; a pointer into the input is the place it points to.
-/
namespace PiJade.CborRpc
open Text
set_option linter.unusedSimpArgs false

inductive Fault where
  | out_of_bounds
  deriving DecidableEq, Repr

/-- The types that are told apart here: `simple` is every simple value, floating-point numbers as well. -/
inductive CborType where
  | integer
  | byteString
  | textString
  | array
  | map
  | tag
  | simple
  | invalid
  deriving DecidableEq, Repr

/-- The library, over its values `V`. A call that fails gives nothing. What a string is copied to comes
    back with the length of the string. -/
structure Tinycbor (V : Type) where
  cbor_parser_init : Bytes → Option V
  cbor_value_validate_basic : V → Bool
  cbor_value_get_type : V → CborType
  cbor_value_get_next_byte : V → Nat
  cbor_value_is_unsigned_integer : V → Bool
  cbor_value_is_length_known : V → Bool
  cbor_value_get_string_length : V → Option Nat
  cbor_value_calculate_string_length : V → Option Nat
  cbor_value_copy_byte_string : V → Nat → Option (Bytes × Nat)
  cbor_value_copy_text_string : V → Nat → Option (Bytes × Nat)
  cbor_value_get_uint64 : V → Option Nat
  cbor_value_map_find_value : V → Bytes → Option V
  cbor_value_get_array_length : V → Option Nat
  cbor_value_enter_container : V → Option V
  cbor_value_at_end : V → Bool
  cbor_value_advance_fixed : V → Option V
  cbor_value_leave_container : V → V → Bool

def MAXLEN_METHOD : Nat := 32
def CBOR_RPC_TAG_METHOD : Bytes := ['m', 'e', 't', 'h', 'o', 'd'].map Char.toUInt8
def CBOR_RPC_TAG_PARAMS : Bytes := ['p', 'a', 'r', 'a', 'm', 's'].map Char.toUInt8

def CBOR_BINARY_MASK : UInt8 := 0b01000000
def CBOR_TEXT_MASK : UInt8 := 0b01100000
def CBOR_TYPE_MASK : UInt8 := 0b11100000
def CBOR_LEN_MASK : UInt8 := 0b00011111

section
variable {V : Type} (cbor : Tinycbor V)

def cbor_value_is_valid (value : V) : Bool := cbor.cbor_value_get_type value != .invalid
def cbor_value_is_map (value : V) : Bool := cbor.cbor_value_get_type value == .map
def cbor_value_is_array (value : V) : Bool := cbor.cbor_value_get_type value == .array
def cbor_value_is_byte_string (value : V) : Bool := cbor.cbor_value_get_type value == .byteString
def cbor_value_is_text_string (value : V) : Bool := cbor.cbor_value_get_type value == .textString

def rpc_untrusted_parser_init (input : Bytes) : Option V := do
  let result ← cbor.cbor_parser_init input
  if cbor_value_is_valid cbor result && cbor.cbor_value_validate_basic result then some result else none

/-! ### Fields -/

def rpc_get_data (field : Bytes) (value : V) : Option V :=
  if !cbor_value_is_valid cbor value then none
  else if !cbor_value_is_map cbor value then none
  else do
    let result ← cbor.cbor_value_map_find_value value field
    if cbor.cbor_value_get_type result = .invalid then none
    else if !cbor_value_is_valid cbor result then none
    else some result

/-- How many bytes are before the contents. -/
def get_skip (lencode : UInt8) : Check Fault Nat := do
  Check.ensure (lencode < 27)
  pure (if lencode < 24 then 1 else if lencode = 24 then 2 else if lencode = 25 then 3 else if lencode = 26 then 5 else 0)

/-- A pointer into the input, or none, and a length. -/
structure Ptr where
  data : Option Nat
  size : Nat
  deriving DecidableEq, Repr

def Ptr.null : Ptr where
  data := none
  size := 0

/-- The pointer and the length, if neither is zero. -/
def Ptr.given (ptr : Ptr) : Option (Nat × Nat) := do
  let data ← ptr.data
  if ptr.size ≠ 0 then some (data, ptr.size) else none

def rpc_get_raw_type_ptr (input : Bytes) (value : V) (masktype : UInt8) : Check Fault Ptr :=
  let next_byte := cbor.cbor_value_get_next_byte value
  match input[next_byte]? with
  | none => .error (.error .out_of_bounds)
  | some byte =>
    if byte &&& CBOR_TYPE_MASK ≠ masktype then .ok .null
    else
      match cbor.cbor_value_get_string_length value with
      | none => .ok .null
      | some size =>
        if size = 0 then .ok .null
        else do
          let skip ← get_skip (byte &&& CBOR_LEN_MASK)
          pure { data := some (next_byte + skip), size }

def rpc_get_raw_bytes_ptr (input : Bytes) (value : V) : Check Fault Ptr :=
  rpc_get_raw_type_ptr cbor input value CBOR_BINARY_MASK

def rpc_get_type_ptr (input : Bytes) (field : Bytes) (value : V) (masktype : UInt8) : Check Fault Ptr :=
  match cbor.cbor_value_map_find_value value field with
  | none => .ok .null
  | some result =>
    if cbor.cbor_value_get_type result = .invalid ∨ !cbor_value_is_valid cbor result then .ok .null
    else rpc_get_raw_type_ptr cbor input result masktype

def rpc_get_bytes_ptr (input : Bytes) (field : Bytes) (value : V) : Check Fault Ptr :=
  rpc_get_type_ptr cbor input field value CBOR_BINARY_MASK

def rpc_get_string_ptr (input : Bytes) (field : Bytes) (value : V) : Check Fault Ptr :=
  rpc_get_type_ptr cbor input field value CBOR_TEXT_MASK

/-- The length of a string in one piece, or of all its chunks. -/
def stringLength (result : V) : Option Nat :=
  if cbor.cbor_value_is_length_known result then cbor.cbor_value_get_string_length result
  else cbor.cbor_value_calculate_string_length result

/-- What is copied, and its length, if the field is read. -/
def rpc_get_bytes (field : Bytes) (max : Nat) (value : V) : Check Fault (Option (Bytes × Nat)) := do
  Check.ensure (0 < max)
  match rpc_get_data cbor field value with
  | none => pure none
  | some result =>
    if !cbor_value_is_byte_string cbor result then pure none
    else
      match stringLength cbor result with
      | none => pure none
      | some tmp_len =>
        if tmp_len = 0 ∨ max < tmp_len then pure none
        else
          match cbor.cbor_value_copy_byte_string result max with
          | none => .error .abort
          | some (data, local_written) => do
            Check.ensure (0 < local_written)
            Check.ensure (local_written ≤ max)
            pure (some (data, local_written))

/-- There must be room for the terminator as well. -/
def rpc_get_string (field : Bytes) (max : Nat) (value : V) : Check Fault (Option (Bytes × Nat)) := do
  Check.ensure (0 < max)
  match rpc_get_data cbor field value with
  | none => pure none
  | some result =>
    if !cbor_value_is_text_string cbor result then pure none
    else
      match stringLength cbor result with
      | none => pure none
      | some tmp_len =>
        if max ≤ tmp_len then pure none
        else
          match cbor.cbor_value_copy_text_string result max with
          | none => .error .abort
          | some (data, local_written) => do
            Check.ensure (local_written < max)
            Check.ensure (data[local_written]? = some 0)
            pure (some (data, local_written))

def rpc_get_uint64 (field : Bytes) (value : V) : Check Fault (Option Nat) :=
  match rpc_get_data cbor field value with
  | none => .ok none
  | some result =>
    if !cbor.cbor_value_is_unsigned_integer result then .ok none
    else
      match cbor.cbor_value_get_uint64 result with
      | none => .error .abort
      | some res => .ok (some res)

def rpc_get_method (input : Bytes) (value : V) : Check Fault Ptr := do
  Check.ensure (cbor_value_is_valid cbor value)
  Check.ensure (cbor_value_is_map cbor value)
  let ptr ← rpc_get_string_ptr cbor input CBOR_RPC_TAG_METHOD value
  Check.ensure (ptr.size ≤ MAXLEN_METHOD)
  pure ptr

/-- The loop over the numbers of a path, and the item behind the last. -/
def pathItems : Nat → V → Check Fault (Option (List Nat × V))
  | 0, arrayItem => .ok (some ([], arrayItem))
  | left + 1, arrayItem => do
    Check.ensure (!cbor.cbor_value_at_end arrayItem)
    if !cbor.cbor_value_is_unsigned_integer arrayItem then pure none
    else
      match cbor.cbor_value_get_uint64 arrayItem with
      | none => .error .abort
      | some tmp =>
        if 0xFFFFFFFF < tmp then pure none
        else
          match cbor.cbor_value_advance_fixed arrayItem with
          | none => .error .abort
          | some next => do
            match ← pathItems left next with
            | none => pure none
            | some (path, last) => pure (some (tmp :: path, last))

def rpc_get_bip32_path_from_value (value : V) (max_path_len : Nat) : Check Fault (Option (List Nat)) := do
  Check.ensure (0 < max_path_len)
  if !cbor_value_is_array cbor value then pure none
  else
    match cbor.cbor_value_get_array_length value with
    | none => pure none
    | some num_array_items =>
      if max_path_len < num_array_items then pure none
      else
        match cbor.cbor_value_enter_container value with
        | none => pure none
        | some arrayItem => do
          match ← pathItems cbor num_array_items arrayItem with
          | none => pure none
          | some (path, last) => do
            Check.ensure (cbor.cbor_value_at_end last)
            pure (if cbor.cbor_value_leave_container value last then some path else none)

def rpc_get_bip32_path (field : Bytes) (value : V) (max_path_len : Nat) : Check Fault (Option (List Nat)) :=
  match rpc_get_data cbor field value with
  | none => .ok none
  | some result => rpc_get_bip32_path_from_value cbor result max_path_len

/-! ### Messages -/

/-- Where the bytes are, and how many. -/
def bcur_parse_bytes (input : Bytes) : Check Fault (Option (Nat × Nat)) := do
  Check.ensure (input.length ≠ 0)
  match rpc_untrusted_parser_init cbor input with
  | none => pure none
  | some value => do
    let ptr ← rpc_get_raw_bytes_ptr cbor input value
    pure ptr.given

def bcur_parse_psbt {Psbt : Type} (deserialise_psbt : Bytes → Option Psbt) (input : Bytes) : Check Fault (Option Psbt) := do
  Check.ensure (input.length ≠ 0)
  match ← bcur_parse_bytes cbor input with
  | none => pure none
  | some (data, data_len) => pure (deserialise_psbt ((input.drop data).take data_len))

/-- What `bcur_parse_jade_message` fills in. -/
structure Message (V : Type) where
  root : V
  params : Option V

/-- The message has the method that is expected, or none is. -/
def expectedMethod (input : Bytes) (root : V) : Option Bytes → Check Fault Bool
  | none => .ok true
  | some expected_method => do
    let ptr ← rpc_get_method cbor input root
    match ptr.data with
    | none => pure false
    | some method =>
      pure (ptr.size ≠ 0 && strncmp expected_method (input.drop method) ptr.size = .eq && ptr.size = expected_method.length)

/-- The method, if one is expected, and the parameters, if they are wanted. -/
def bcur_parse_jade_message (input : Bytes) (expected_method : Option Bytes) (params : Bool) :
    Check Fault (Option (Message V)) := do
  Check.ensure (input.length ≠ 0)
  match rpc_untrusted_parser_init cbor input with
  | none => pure none
  | some root =>
    if !cbor_value_is_map cbor root then pure none
    else do
      let expected ← expectedMethod cbor input root expected_method
      if !expected then pure none
      else if !params then pure (some { root, params := none })
      else
        match cbor.cbor_value_map_find_value root CBOR_RPC_TAG_PARAMS with
        | none => pure none
        | some params =>
          if !cbor_value_is_valid cbor params ∨ cbor.cbor_value_get_type params = .invalid ∨ !cbor_value_is_map cbor params
          then pure none
          else pure (some { root, params := some params })

end

end PiJade.CborRpc
