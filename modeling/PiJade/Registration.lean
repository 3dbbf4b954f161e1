import PiJade.DescriptorText
import PiJade.Keychain
import PiJade.MultisigFile
import PiJade.Walk

/-!
Registered wallets as they are kept: the body of a multisig (`main/multisig.c`) and of a
descriptor (`main/descriptor.c`), and the seal around both (`main/registration_seal.c`). The
readers walk a buffer of the largest size, which holds the opened body and behind it whatever
was on the heap. Enumerations are the bytes they are kept as, since the readers cast any byte
to them. Ciphers, base58 and the derivation of keys are those of libwally, parameters.
-/
namespace PiJade.Registration
open Wallet (Path MAX_PATH_LEN)
open DescriptorText (StringValue)
open Keychain (AES_BLOCK_LEN AES_KEY_LEN_256 AES_PADDED_LEN AES_ENCRYPTED_LEN HMAC_SHA256_LEN)
open Multisig (Signer Codecs MAX_ALLOWED_SIGNERS BIP32_KEY_FINGERPRINT_LEN BIP32_SERIALIZED_LEN XPUB_LEN)
open SettingsCodec (ascii)
set_option linter.unusedSimpArgs false

def refused {α : Type} : Check Fault α := .error (.error .refused)

/-- A check of a writer: it returns false where the check does not hold. -/
def accept (holds : Bool) : Check Fault Unit := if holds then .ok () else refused

@[simp] theorem accept_true : accept true = .ok () := rfl
@[simp] theorem accept_false : accept false = refused := rfl

/-! ### The body of a multisig -/

def CURRENT_MULTISIG_RECORD_VERSION : UInt8 := 4
def MULTISIG_MASTER_BLINDING_KEY_SIZE : Nat := 32

def MULTISIG_BODY_LEN (master_blinding_key_len num_signers total_num_path_elements : Nat) : Nat :=
  5 + master_blinding_key_len + num_signers * (6 + BIP32_SERIALIZED_LEN) + total_num_path_elements * 4

def MAX_MULTISIG_BODY_LEN : Nat :=
  MULTISIG_BODY_LEN MULTISIG_MASTER_BLINDING_KEY_SIZE MAX_ALLOWED_SIGNERS (MAX_ALLOWED_SIGNERS * 2 * MAX_PATH_LEN)

def MIN_MULTISIG_BODY_LEN : Nat := 5 + BIP32_KEY_FINGERPRINT_LEN + 1 + BIP32_SERIALIZED_LEN + 1

/-- What a multisig is registered as. -/
structure Definition where
  variant : UInt8
  sorted : Bool
  threshold : UInt32
  master_blinding_key : Bytes
  signers : List Signer
  deriving DecidableEq, Repr

def pathCode (path : Path) : Bytes := UInt8.ofNat path.length :: Bytes.ofWords path

/-- One signer behind what is written, and the path elements counted so far. -/
def writeSigner (codecs : Codecs) (total_num_path_elements : Nat) (body : Bytes × Nat) (signer : Signer) :
    Check Fault (Bytes × Nat) := do
  let counted_path_elements := body.2 + signer.derivation.length + signer.path.length
  Check.ensure (counted_path_elements ≤ total_num_path_elements)
  Check.ensure (signer.derivation.length ≤ MAX_PATH_LEN)
  match codecs.base58_to_bytes signer.xpub with
  | none => refused
  | some xpub_bytes => do
    accept (xpub_bytes.length = BIP32_SERIALIZED_LEN)
    -- path strings are not kept
    accept (!signer.path_is_string)
    Check.ensure (signer.path.length ≤ MAX_PATH_LEN)
    pure (body.1 ++ (signer.fingerprint ++ pathCode signer.derivation ++ xpub_bytes ++ pathCode signer.path),
      counted_path_elements)

def multisig_body_to_bytes (codecs : Codecs) (multisig : Definition) (total_num_path_elements body_len : Nat) :
    Check Fault Bytes := do
  let num_signers := multisig.signers.length
  let key_len := multisig.master_blinding_key.length
  Check.ensure (0 < multisig.threshold.toNat)
  Check.ensure (key_len = 0 ∨ key_len = MULTISIG_MASTER_BLINDING_KEY_SIZE)
  Check.ensure (multisig.threshold.toNat ≤ num_signers)
  Check.ensure (num_signers ≤ MAX_ALLOWED_SIGNERS)
  Check.ensure (total_num_path_elements ≤ num_signers * 2 * MAX_PATH_LEN)
  Check.ensure (body_len = MULTISIG_BODY_LEN key_len num_signers total_num_path_elements)
  let head := [multisig.variant, if multisig.sorted then 1 else 0, multisig.threshold.toUInt8, UInt8.ofNat key_len] ++
    multisig.master_blinding_key ++ [UInt8.ofNat num_signers]
  let body ← Check.fold (writeSigner codecs total_num_path_elements) (head, 0) multisig.signers
  Check.ensure (body.2 = total_num_path_elements)
  Check.ensure (body.1.length = body_len)
  pure body.1

/-- The calls of libwally on public keys. -/
structure HdKeys (K : Type) where
  bip32_key_unserialize : Bytes → Option K
  bip32_key_from_parent_path : K → Path → Option K
  bip32_key_serialize : K → Option Bytes

section
variable {K : Type} (codecs : Codecs) (keys : HdKeys K)

/-- A key that cannot be read is refused; a derivation that fails is an assertion. -/
def wallet_derive_pubkey (serialised_key : Bytes) (path : Path) : Check Fault K := do
  accept (serialised_key.length = BIP32_SERIALIZED_LEN)
  match keys.bip32_key_unserialize serialised_key with
  | none => refused
  | some root =>
    if path.length = 0 then .ok root
    else
      match keys.bip32_key_from_parent_path root path with
      | none => .error .abort
      | some hdkey => .ok hdkey

/-- The xpub that addresses are derived from. -/
def parentXpub (xpub : Bytes) (path : Path) : Check Fault Bytes :=
  if path.length = 0 then .ok xpub
  else do
    let hdkey ← wallet_derive_pubkey keys xpub path
    match keys.bip32_key_serialize hdkey with
    | none => refused
    | some serialised => .ok serialised

/-- A path behind its length. -/
def readPath : Walk Path := do
  let len ← Walk.byte
  Walk.accept (len.toNat ≤ MAX_PATH_LEN)
  let bytes ← Walk.take (4 * len.toNat)
  pure (Bytes.toWords bytes)

/-- A signer, if its details are wanted, and the xpub that addresses are derived from. -/
def readSigner (wanted : Bool) : Walk (Option Signer × Bytes) := do
  let fingerprint ← Walk.take BIP32_KEY_FINGERPRINT_LEN
  let derivation ← readPath
  let xpub ← Walk.take BIP32_SERIALIZED_LEN
  let text := codecs.base58_from_bytes xpub
  Walk.accept (!wanted || text.length < XPUB_LEN)
  let path ← readPath
  let parent ← Walk.lift (parentXpub keys xpub path)
  pure (if wanted then
    some { fingerprint := fingerprint, derivation := derivation, xpub := text, path_is_string := false, path := path }
    else none, parent)

def read_complete_signers (signer_details_len : Nat) : Walk (List (Option Signer × Bytes)) := do
  let num_signers ← Walk.byte
  Walk.accept (num_signers ≠ 0 ∧ num_signers.toNat ≤ MAX_ALLOWED_SIGNERS)
  Walk.times (fun i => readSigner codecs keys (i < signer_details_len)) 0 num_signers.toNat

/-- `multisig_data_t`, and the details of the signers. -/
structure MultisigData where
  variant : UInt8
  sorted : Bool
  threshold : UInt8
  master_blinding_key : Bytes
  xpubs : List Bytes
  signer_details : List Signer
  deriving DecidableEq, Repr

def readBlindingKey (fin : Nat) : Walk Bytes := do
  let keylen ← Walk.byte
  if keylen = 0 then pure []
  else do
    Walk.accept (keylen.toNat = MULTISIG_MASTER_BLINDING_KEY_SIZE)
    Walk.takeBefore fin keylen.toNat

def readMultisig (body_len signer_details_len : Nat) : Walk MultisigData := do
  let variant ← Walk.byte
  let sorted ← Walk.byte
  let threshold ← Walk.byte
  let master_blinding_key ← readBlindingKey body_len
  Walk.ensureLeft body_len
  let signers ← read_complete_signers codecs keys signer_details_len
  pure { variant := variant, sorted := sorted != 0, threshold := threshold, master_blinding_key := master_blinding_key,
         xpubs := signers.map Prod.snd, signer_details := signers.filterMap Prod.fst }

def multisig_body_from_bytes (buffer : Bytes) (body_len signer_details_len : Nat) : Check Fault MultisigData :=
  if body_len < MIN_MULTISIG_BODY_LEN then refused
  else
    Prod.fst <$> (readMultisig codecs keys body_len signer_details_len >>= fun multisig =>
      Walk.ends body_len >>= fun _ => pure multisig) buffer 0

end

/-! ### The body of a descriptor -/

def CURRENT_DESCRIPTOR_RECORD_VERSION : UInt8 := 1
/-- The sizes of the arrays of a `descriptor_data_t` and its `string_value_t`. -/
def SCRIPT_SIZE : Nat := 512
def KEY_SIZE : Nat := 16
def VALUE_SIZE : Nat := 160

/-- `descriptor_data_t`. -/
structure Descriptor where
  script : Bytes
  values : List StringValue
  type : UInt8
  deriving DecidableEq, Repr

def string_values_len (values : List StringValue) : Nat :=
  (values.map fun entry => entry.key.length + entry.value.length).sum

def DESCRIPTOR_BODY_LEN (descriptor : Descriptor) : Nat :=
  1 + 2 + descriptor.script.length + 1 + descriptor.values.length * 2 * 2 + string_values_len descriptor.values

def MAX_DESCRIPTOR_BODY_LEN : Nat :=
  1 + 2 + SCRIPT_SIZE + 1 + MAX_ALLOWED_SIGNERS * 2 * 2 + MAX_ALLOWED_SIGNERS * (VALUE_SIZE + KEY_SIZE)

def MIN_DESCRIPTOR_BODY_LEN : Nat := 1 + 2 + 1 + 1

def valueCode (entry : StringValue) : Bytes :=
  Bytes.ofHalf entry.key.length ++ entry.key ++ Bytes.ofHalf entry.value.length ++ entry.value

def descriptor_body_to_bytes (descriptor : Descriptor) (body_len : Nat) : Check Fault Bytes := do
  Check.ensure (body_len = DESCRIPTOR_BODY_LEN descriptor)
  Check.ensure (descriptor.script.length ≠ 0)
  Check.ensure (descriptor.values.length ≤ MAX_ALLOWED_SIGNERS)
  let head := descriptor.type :: (Bytes.ofHalf descriptor.script.length ++ descriptor.script ++
    [UInt8.ofNat descriptor.values.length])
  let body := descriptor.values.foldl (fun written entry => written ++ valueCode entry) head
  Check.ensure (body.length = body_len)
  pure body

/-- A string behind its length; its array holds the terminator too. -/
def readString (fin size : Nat) : Walk Bytes := do
  let len ← Walk.halfBefore fin
  Walk.accept (len < size)
  Walk.takeBefore fin len

def readValue (fin : Nat) : Walk StringValue := do
  let key ← readString fin KEY_SIZE
  let value ← readString fin VALUE_SIZE
  pure { key := key, value := value }

def readDescriptor (body_len : Nat) : Walk Descriptor := do
  let type ← Walk.byte
  let script_len ← Walk.half
  Walk.accept (script_len < SCRIPT_SIZE)
  let script ← Walk.takeBefore body_len script_len
  let num_values ← Walk.byteBefore body_len
  Walk.accept (num_values.toNat ≤ MAX_ALLOWED_SIGNERS)
  let values ← Walk.times (fun _ => readValue body_len) 0 num_values.toNat
  pure { script := script, values := values, type := type }

def descriptor_body_from_bytes (buffer : Bytes) (body_len : Nat) : Check Fault Descriptor :=
  if body_len < MIN_DESCRIPTOR_BODY_LEN then refused
  else
    Prod.fst <$> (readDescriptor body_len >>= fun descriptor =>
      Walk.ends body_len >>= fun _ => pure descriptor) buffer 0

/-! ### The seal -/

/-- The calls of libwally on bytes. -/
structure Ciphers where
  aes_cbc_encrypt : Bytes → Bytes → Bytes → Bytes
  aes_cbc_decrypt : Bytes → Bytes → Bytes → Option Bytes
  hmac_sha256 : Bytes → Bytes → Bytes

def REGISTRATION_KEY_LABEL : Bytes := ascii "pijade-registered-wallet-aes-v1"

def REGISTRATION_SEALED_LEN (body_len : Nat) : Nat := 1 + AES_ENCRYPTED_LEN body_len + HMAC_SHA256_LEN
def REGISTRATION_MIN_SEALED_LEN : Nat := REGISTRATION_SEALED_LEN 0

section
variable (ciphers : Ciphers) (keychain : Option Bytes)

/-- The private key of the wallet in use is the key; that there is one is asserted. -/
def wallet_hmac_with_master_key (data : Bytes) : Check Fault Bytes :=
  match keychain with
  | none => .error .abort
  | some priv_key => if data.length = 0 then refused else .ok (ciphers.hmac_sha256 priv_key data)

def aes_encrypt_bytes (aeskey iv bytes : Bytes) : Check Fault Bytes := do
  Check.ensure (aeskey.length = AES_KEY_LEN_256)
  Check.ensure (bytes.length ≠ 0)
  let encrypted := ciphers.aes_cbc_encrypt aeskey iv bytes
  Check.ensure (encrypted.length = AES_PADDED_LEN bytes.length)
  pure (iv ++ encrypted)

def aes_decrypt_bytes (aeskey bytes : Bytes) (output_len : Nat) : Check Fault Bytes := do
  Check.ensure (aeskey.length = AES_KEY_LEN_256)
  Check.ensure (AES_BLOCK_LEN < bytes.length)
  Check.ensure ((bytes.length - AES_BLOCK_LEN) % AES_BLOCK_LEN = 0)
  Check.ensure (bytes.length - AES_BLOCK_LEN ≤ AES_PADDED_LEN output_len)
  match ciphers.aes_cbc_decrypt aeskey (bytes.take AES_BLOCK_LEN) (bytes.drop AES_BLOCK_LEN) with
  | none => refused
  | some output => if output_len < output.length then refused else .ok output

def registration_seal (iv : Bytes) (version : UInt8) (body : Bytes) (output_len : Nat) : Check Fault Bytes := do
  Check.ensure (body.length ≠ 0)
  Check.ensure (output_len = REGISTRATION_SEALED_LEN body.length)
  let key ← wallet_hmac_with_master_key ciphers keychain REGISTRATION_KEY_LABEL
  let encrypted ← aes_encrypt_bytes ciphers key iv body
  let hmac ← wallet_hmac_with_master_key ciphers keychain (version :: encrypted)
  pure (version :: encrypted ++ hmac)

def registration_open (expected_version : UInt8) (bytes : Bytes) (body_len : Nat) : Check Fault Bytes := do
  Check.ensure (body_len ≠ 0)
  if bytes.length < REGISTRATION_MIN_SEALED_LEN ∨ (bytes.length - REGISTRATION_MIN_SEALED_LEN) % AES_BLOCK_LEN ≠ 0 then
    refused
  else do
    let front := bytes.take (bytes.length - HMAC_SHA256_LEN)
    let hmac_calculated ← wallet_hmac_with_master_key ciphers keychain front
    accept (bytes.drop (bytes.length - HMAC_SHA256_LEN) = hmac_calculated)
    accept (bytes.head? = some expected_version)
    let key ← wallet_hmac_with_master_key ciphers keychain REGISTRATION_KEY_LABEL
    aes_decrypt_bytes ciphers key (front.drop 1) body_len

/-- The body is opened into a buffer on the heap and read there. -/
def multisig_data_from_bytes {K : Type} (codecs : Codecs) (keys : HdKeys K) (heap bytes : Bytes)
    (signer_details_len : Nat) : Check Fault MultisigData := do
  let body ← registration_open ciphers keychain CURRENT_MULTISIG_RECORD_VERSION bytes MAX_MULTISIG_BODY_LEN
  multisig_body_from_bytes codecs keys (body ++ heap.drop body.length) body.length signer_details_len

def descriptor_from_bytes (heap bytes : Bytes) : Check Fault Descriptor := do
  let body ← registration_open ciphers keychain CURRENT_DESCRIPTOR_RECORD_VERSION bytes MAX_DESCRIPTOR_BODY_LEN
  descriptor_body_from_bytes (body ++ heap.drop body.length) body.length

end

end PiJade.Registration
