import PiJade.CryptoOutput
import PiJade.PsbtReply

/-!
Exported keys in CBOR, as codes show them (`bcur_build_cbor_crypto_hdkey` and
`bcur_build_cbor_crypto_account` of `main/bcur.c`, with the path and the buffer that `main/qrmode.c`
gives them). The encoder writes into a buffer of a fixed length, and almost every call of it is
asserted to succeed. The wallet is a parameter.
-/
namespace PiJade.CryptoAccount
open Wallet
open PsbtReply (encode_number)
open CryptoOutput (uint32_to_be UR_TAG_USEINFO UR_TAG_KEYPATH UR_TAG_HDKEY)
set_option linter.unusedSimpArgs false

/-! ### The wallet -/

def HASH160_LEN : Nat := 20

/-- `struct ext_key`, as far as it is exported. -/
structure ExtKey where
  pub_key : Bytes
  chain_code : Bytes
  parent160 : Bytes
  depth : UInt8
  child_num : UInt32
  pub_key_length : pub_key.length = EC_PUBLIC_KEY_LEN
  chain_code_length : chain_code.length = CryptoOutput.WALLY_BIP32_CHAIN_CODE_LEN
  parent160_length : parent160.length = HASH160_LEN

/-- The wallet that is open: the network it is restricted to, its fingerprint and its public keys. -/
structure Holder where
  testnet : Bool
  wallet_get_fingerprint : Bytes
  wallet_get_hdkey : Path → Option ExtKey
  fingerprint_length : wallet_get_fingerprint.length = CryptoOutput.BIP32_KEY_FINGERPRINT_LEN

/-- `*(uint32_t*)bytes`. -/
def word (bytes : Bytes) : UInt32 := (Bytes.toWords bytes).headD 0

/-- The word that `uint32_to_be` leaves of the word in front. -/
def swappedWord (bytes : Bytes) : UInt32 := word (uint32_to_be (word bytes))

/-! ### The encoder -/

section
variable {ε : Type} (output_len : Nat)

/-- A call that is asserted to succeed. The encoder keeps count of what it has no room for. -/
def asserted (piece out : Bytes) : Check ε Bytes := do
  Check.ensure ((out ++ piece).length ≤ output_len)
  pure (out ++ piece)

def cbor_encode_uint (value : Nat) (out : Bytes) : Check ε Bytes := asserted output_len (encode_number 0 value) out
def cbor_encode_byte_string (data out : Bytes) : Check ε Bytes := asserted output_len
    (encode_number 2 data.length ++ data) out
def cbor_encoder_create_array (length : Nat) (out : Bytes) : Check ε Bytes := asserted output_len
    (encode_number 4 length) out
def cbor_encoder_create_map (length : Nat) (out : Bytes) : Check ε Bytes := asserted output_len (encode_number 5 length) out
def cbor_encode_tag (tag : Nat) (out : Bytes) : Check ε Bytes := asserted output_len (encode_number 6 tag) out
def cbor_encode_boolean (value : Bool) (out : Bytes) : Check ε Bytes :=
  asserted output_len (encode_number 7 (if value then 21 else 20)) out

/-- A tag whose result is not looked at. -/
def encodeTag (tag : Nat) (out : Bytes) : Bytes := out ++ encode_number 6 tag

/-! ### Keys -/

/-- The network is written for a testnet only. -/
def encodeUseInfo (testnet : Bool) (out : Bytes) : Check ε Bytes :=
  if testnet then do
    let out ← cbor_encode_uint output_len 5 out
    let out := encodeTag UR_TAG_USEINFO out
    let out ← cbor_encoder_create_map output_len 2 out
    let out ← cbor_encode_uint output_len 1 out
    let out ← cbor_encode_uint output_len 0 out
    let out ← cbor_encode_uint output_len 2 out
    cbor_encode_uint output_len 1 out
  else pure out

/-- The loop over the path. -/
def encodePath : Path → Bytes → Check ε Bytes
  | [], out => pure out
  | part :: later, out => do
    let out ← cbor_encode_uint output_len (unharden part).toNat out
    let out ← cbor_encode_boolean output_len (ishardened part) out
    encodePath later out

def encode_hdkey (wallet : Holder) (fingerprint : UInt32) (path : Path) (out : Bytes) : Check ε Bytes := do
  Check.ensure (fingerprint ≠ 0)
  Check.ensure (path.length ≠ 0)
  match wallet.wallet_get_hdkey path with
  | none => .error .abort
  | some hdkey => do
    Check.ensure (hdkey.depth.toNat = path.length)
    let out ← cbor_encoder_create_map output_len (if wallet.testnet then 5 else 4) out
    let out ← cbor_encode_uint output_len 3 out
    let out ← cbor_encode_byte_string output_len hdkey.pub_key out
    let out ← cbor_encode_uint output_len 4 out
    let out ← cbor_encode_byte_string output_len hdkey.chain_code out
    let out ← encodeUseInfo output_len wallet.testnet out
    let out ← cbor_encode_uint output_len 6 out
    let out := encodeTag UR_TAG_KEYPATH out
    let out ← cbor_encoder_create_map output_len 3 out
    let out ← cbor_encode_uint output_len 1 out
    let out ← cbor_encoder_create_array output_len (2 * path.length) out
    let out ← encodePath output_len path out
    let out ← cbor_encode_uint output_len 2 out
    let out ← cbor_encode_uint output_len fingerprint.toNat out
    let out ← cbor_encode_uint output_len 3 out
    let out ← cbor_encode_uint output_len hdkey.depth.toNat out
    let out ← cbor_encode_uint output_len 8 out
    cbor_encode_uint output_len (swappedWord hdkey.parent160).toNat out

def bcur_build_cbor_crypto_hdkey (wallet : Holder) (path : Path) : Check ε Bytes := do
  Check.ensure (path.length ≠ 0)
  Check.ensure (output_len ≥ 128)
  let out ← encode_hdkey output_len wallet (swappedWord wallet.wallet_get_fingerprint) path []
  Check.ensure (out.length ≠ 0)
  pure out

/-! ### Accounts -/

/-- The tags of a variant. -/
def encode_script_variant_tag (script_variant : Variant) (out : Bytes) : Check ε Bytes :=
  match script_variant with
  | .P2PKH => cbor_encode_tag output_len 403 out
  | .P2WPKH => cbor_encode_tag output_len 404 out
  | .P2WPKH_P2SH => do
    let out ← cbor_encode_tag output_len 400 out
    cbor_encode_tag output_len 404 out
  | .MULTI_P2SH => cbor_encode_tag output_len 400 out
  | .MULTI_P2WSH => cbor_encode_tag output_len 401 out
  | .MULTI_P2WSH_P2SH => do
    let out ← cbor_encode_tag output_len 400 out
    cbor_encode_tag output_len 401 out
  | .P2TR => cbor_encode_tag output_len 409 out
  | .GREEN => .error .abort

def bcur_build_cbor_crypto_account (wallet : Holder) (script_variant : Variant) (path : Path) : Check ε Bytes := do
  Check.ensure (path.length ≠ 0)
  Check.ensure (output_len ≥ 128)
  Check.ensure (script_variant ≠ .GREEN)
  let fingerprint := swappedWord wallet.wallet_get_fingerprint
  let out ← cbor_encoder_create_map output_len 2 []
  let out ← cbor_encode_uint output_len 1 out
  let out ← cbor_encode_uint output_len fingerprint.toNat out
  let out ← cbor_encode_uint output_len 2 out
  let out ← cbor_encoder_create_array output_len 1 out
  let out ← encode_script_variant_tag output_len script_variant out
  let out := encodeTag UR_TAG_HDKEY out
  let out ← encode_hdkey output_len wallet fingerprint path out
  Check.ensure (out.length ≠ 0)
  pure out

end

/-! ### Codes -/

def QR_XPUB_WITNESS : UInt32 := 0x100
def QR_XPUB_MULTISIG : UInt32 := 0x200
def QR_XPUB_LEGACY : UInt32 := 0x800
def QR_XPUB_TAPROOT : UInt32 := 0x1000
def ACCOUNT_INDEX_FLAGS_SHIFT : UInt32 := 16

def contains_flags (flags test_flags : UInt32) : Bool := flags &&& test_flags == test_flags

def xpub_script_variant_from_flags (qr_flags : UInt32) : Variant :=
  if contains_flags qr_flags QR_XPUB_TAPROOT then .P2TR
  else if contains_flags qr_flags QR_XPUB_MULTISIG then
    if contains_flags qr_flags (QR_XPUB_WITNESS ||| QR_XPUB_LEGACY) then .MULTI_P2WSH_P2SH
    else if contains_flags qr_flags QR_XPUB_LEGACY then .MULTI_P2SH
    else .MULTI_P2WSH
  else
    if contains_flags qr_flags (QR_XPUB_WITNESS ||| QR_XPUB_LEGACY) then .P2WPKH_P2SH
    else if contains_flags qr_flags QR_XPUB_LEGACY then .P2PKH
    else .P2WPKH

/-- `qr_flags >> ACCOUNT_INDEX_FLAGS_SHIFT`. -/
def accountOf (qr_flags : UInt32) : UInt16 := (qr_flags >>> ACCOUNT_INDEX_FLAGS_SHIFT).toUInt16

def BIP44_COIN_BTC : UInt32 := BIP32_INITIAL_HARDENED_CHILD
def BIP44_COIN_TEST : UInt32 := BIP32_INITIAL_HARDENED_CHILD + 1

section
variable {ε : Type}

def wallet_get_default_xpub_export_path (testnet : Bool) (variant : Variant) (account : UInt16) : Check ε Path :=
  match get_script_variant_purpose variant with
  | none => .error .abort
  | some purpose =>
    if variant = .MULTI_P2SH then pure [purpose]
    else
      let path := [purpose, if testnet then BIP44_COIN_TEST else BIP44_COIN_BTC, harden account.toUInt32]
      if is_multisig variant then
        let bip48_script_type : UInt32 := if variant = .MULTI_P2WSH then 2 else if variant = .MULTI_P2WSH_P2SH then 1 else 0
        pure (path ++ [harden bip48_script_type])
      else pure path

def xpub_export_path_from_flags (testnet : Bool) (qr_flags : UInt32) : Check ε Path :=
  wallet_get_default_xpub_export_path testnet (xpub_script_variant_from_flags qr_flags) (accountOf qr_flags)

/-- The bytes that are shown, in as many codes as it takes. -/
def display_xpub_fullscreen_qr (wallet : Holder) (qr_flags : UInt32) : Check ε Bytes := do
  let path ← xpub_export_path_from_flags wallet.testnet qr_flags
  bcur_build_cbor_crypto_account 128 wallet (xpub_script_variant_from_flags qr_flags) path

end

end PiJade.CryptoAccount
