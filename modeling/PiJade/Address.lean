import Mathlib.Data.List.Basic
import Mathlib.Tactic.Common
import PiJade.Wallet

/-!
The text a script is shown as (`main/utils/address.c`): its address, the payload of an
OP_RETURN, or a remark where there is neither. Every text is written into a buffer of
`MAX_ADDRESS_LEN` bytes that the source asserts to be large enough, and it is.
-/
namespace PiJade.Address
set_option linter.unusedSimpArgs false
open Wallet

def MAX_ADDRESS_LEN : Nat := 128
def OP_RETURN : UInt8 := 0x6a

def network_to_p2pkh_prefix : Network → UInt8
  | .BITCOIN => 0x00
  | .LIQUID => 0x39
  | .BITCOIN_TESTNET | .BITCOIN_REGTEST => 0x6f
  | .LIQUID_TESTNET => 0x24
  | .LIQUID_REGTEST => 0xeb

def network_to_p2sh_prefix : Network → UInt8
  | .BITCOIN => 0x05
  | .LIQUID => 0x27
  | .BITCOIN_TESTNET | .BITCOIN_REGTEST => 0xc4
  | .LIQUID_TESTNET => 0x13
  | .LIQUID_REGTEST => 0x4b

def network_to_bech32_prefix : Network → String
  | .BITCOIN => "bc"
  | .LIQUID => "ex"
  | .BITCOIN_TESTNET => "tb"
  | .BITCOIN_REGTEST => "bcrt"
  | .LIQUID_TESTNET => "tex"
  | .LIQUID_REGTEST => "ert"

/-- `wally_hex_from_bytes`. -/
def hexText (bytes : Bytes) : String :=
  String.ofList (bytes.flatMap fun byte => [Nat.digitChar (byte.toNat / 16), Nat.digitChar (byte.toNat % 16)])

/-- The payload in hexadecimal, if it is one push and fits the buffer. -/
def opReturnText (script : Bytes) (has_value : Bool) : String :=
  let opdesc := if has_value then "Burning Asset - OP_RETURN: " else "OP_RETURN: "
  if 3 < script.length ∧ script[1]?.map UInt8.toNat = some (script.length - 2) ∧
      opdesc.length + 2 * (script.length - 2) < MAX_ADDRESS_LEN then
    opdesc ++ hexText (script.drop 2)
  else opdesc ++ "<script length: " ++ Nat.repr (script.length % 2 ^ 32) ++ " - cannot be displayed>"

section
variable {K ε : Type} (wally : Wally K) (network_id : Network)

/-- A text written into the buffer. -/
def writeText (text : String) : Check ε String := do
  Check.ensure (decide (0 < text.length) && decide (text.length < MAX_ADDRESS_LEN))
  return text

def render_op_return (script : Bytes) (has_value : Bool) : Check ε String := do
  Check.ensure (script.head? == some OP_RETURN)
  writeText (opReturnText script has_value)

/-- Base58 of the version byte and a hash of 20 bytes. -/
def base58_addr (version : UInt8) (hash : Bytes) : String := wally.base58_from_bytes (version :: hash.take 20)

def script_to_address (script : Bytes) (has_value : Bool) : Check ε String := do
  Check.ensure (!network_is_liquid network_id)
  if script.isEmpty then writeText "No Address"
  else
    match wally.scriptpubkey_type script with
    | .P2WPKH | .P2WSH | .P2TR =>
      let hrp := network_to_bech32_prefix network_id
      writeText (wally.addr_segwit_from_bytes script hrp)
    | .P2PKH =>
      let version := network_to_p2pkh_prefix network_id
      writeText (base58_addr wally version (script.drop 3))
    | .P2SH =>
      let version := network_to_p2sh_prefix network_id
      writeText (base58_addr wally version (script.drop 2))
    | .OP_RETURN => render_op_return script has_value
    | _ => writeText "Unknown Address"

theorem hexText_length (bytes : Bytes) : (hexText bytes).length = 2 * bytes.length := by
  simp only [hexText, String.length_ofList, List.length_flatMap, List.length_cons, List.length_nil]
  simp [Nat.mul_comm]

theorem opReturnText_fits (script : Bytes) (has_value : Bool) :
    0 < (opReturnText script has_value).length ∧ (opReturnText script has_value).length < MAX_ADDRESS_LEN := by
  unfold opReturnText
  have described : "Burning Asset - OP_RETURN: ".length = 27 ∧ "OP_RETURN: ".length = 11 := by decide
  have fixed : "<script length: ".length = 16 ∧ " - cannot be displayed>".length = 23 := by decide
  have digits : (Nat.repr (script.length % 2 ^ 32)).length ≤ 10 :=
    (Nat.length_repr_le_iff (by omega)).mpr (by omega)
  generalize desc : (if has_value then "Burning Asset - OP_RETURN: " else "OP_RETURN: ") = opdesc
  have bounds : 0 < opdesc.length ∧ opdesc.length ≤ 27 := by
    rw [← desc]
    split <;> omega
  simp only []
  split
  · next fits =>
    simp only [String.length_append, hexText_length, List.length_drop]
    omega
  · simp only [String.length_append, fixed, MAX_ADDRESS_LEN]
    omega

theorem writeText_ok {text : String} (fits : 0 < text.length ∧ text.length < MAX_ADDRESS_LEN) :
    (writeText text : Check ε String) = .ok text := by
  simp [writeText, fits]

variable {wally network_id}

/-- On a bitcoin network every script has a text, and the text fits. -/
theorem script_to_address_isOk (lawful : wally.Lawful) (bitcoin : network_is_liquid network_id = false)
    (script : Bytes) (has_value : Bool) :
    ∃ text, (script_to_address wally network_id script has_value : Check ε String) = .ok text := by
  have hash (version : UInt8) (bytes : Bytes) : (version :: bytes.take 20).length ≤ 21 := by
    simp only [List.length_cons, List.length_take]
    omega
  have room {text : String} (bounds : 0 < text.length ∧ text.length ≤ 90) :
      ∃ written, (writeText text : Check ε String) = .ok written :=
    ⟨text, writeText_ok ⟨bounds.1, by rw [MAX_ADDRESS_LEN]; omega⟩⟩
  simp only [script_to_address, bitcoin, Bool.not_false, Check.ensure_true, Check.ok_bind]
  split
  · exact room (by decide)
  · cases type : wally.scriptpubkey_type script with
    | P2WPKH => exact room (lawful.addr_segwit_length _ _)
    | P2WSH => exact room (lawful.addr_segwit_length _ _)
    | P2TR => exact room (lawful.addr_segwit_length _ _)
    | P2PKH => exact room (lawful.base58_length _ (hash _ _))
    | P2SH => exact room (lawful.base58_length _ (hash _ _))
    | OP_RETURN =>
      have head := lawful.op_return_head script type
      refine ⟨opReturnText script has_value, ?_⟩
      simp [render_op_return, head, OP_RETURN, writeText_ok (opReturnText_fits script has_value)]
    | MULTISIG => exact room (by decide)
    | OTHER => exact room (by decide)

end

end PiJade.Address
