import PiJade.SettingsCodec
import PiJade.Text
import PiJade.Wallet

/-!
The multisig file (`multisig_create_export_file` of `main/multisig.c`, and
`register_multisig_file` of `main/process/register_multisig.c` up to `register_multisig`):
a record written as lines `name: value`, and the parser of such files. Hex, base58 and the
parser of path strings are those of libwally, a parameter.
-/
namespace PiJade.Multisig
open Text Wallet
open SettingsCodec (ascii)
set_option linter.unusedSimpArgs false

def MAX_ALLOWED_SIGNERS : Nat := 15
def MAX_MULTISIG_NAME_SIZE : Nat := 16
def NVS_KEY_NAME_MAX_SIZE : Nat := 16
def BIP32_KEY_FINGERPRINT_LEN : Nat := 4
def BIP32_SERIALIZED_LEN : Nat := 78
def EC_PUBLIC_KEY_LEN : Nat := 33
/-- The size of the xpub of a `signer_t`. -/
def XPUB_LEN : Nat := 120
/-- The size of the buffer for the value of a line. -/
def LINE_VALUE_LEN : Nat := 128

/-- `signer_t`. -/
structure Signer where
  fingerprint : Bytes
  derivation : Path
  xpub : Bytes
  path_is_string : Bool
  path : Path
  deriving DecidableEq, Repr

/-- A registered record with its signer details. -/
structure Record where
  multisig_name : Bytes
  variant : Variant
  sorted : Bool
  threshold : Nat
  master_blinding_key : Bytes
  signers : List Signer
  deriving DecidableEq, Repr

/-- The calls of libwally. -/
structure Codecs where
  hex_from_bytes : Bytes → Bytes
  hex_to_bytes : Bytes → Option Bytes
  base58_from_bytes : Bytes → Bytes
  base58_to_bytes : Bytes → Option Bytes
  bip32_path_from_str : Bytes → Option Path

inductive Stop where
  | errmsg (text : String)
  deriving DecidableEq, Repr

def refuse {α : Type} (text : String) : Check Stop α := .error (.error (.errmsg text))

def MSIG_FILE_NAME : Bytes := ascii "Name"
def MSIG_FILE_FORMAT : Bytes := ascii "Format"
def MSIG_FILE_SORTED : Bytes := ascii "Sorted"
def MSIG_FILE_POLICY : Bytes := ascii "Policy"
def MSIG_FILE_BLINDING_KEY : Bytes := ascii "BlindingKey"
def MSIG_FILE_DERIVATION : Bytes := ascii "Derivation"

def MULTISIG_FILE_MAX_LEN (num_signers : Nat) : Nat :=
  32 + 22 + 17 + 19 + 14 + 78 + num_signers * (13 + MAX_PATH_STR_LEN MAX_PATH_LEN + 122)

/-! ### Export -/

/-- Behind what is written already; fails when the buffer is full. -/
def write_text (output_len : Nat) (output text : Bytes) (add_eol : Bool) : Option Bytes :=
  if output_len - output.length ≤ text.length then none
  else some (output ++ text ++ if add_eol then ascii "\n" else [])

def writeKeyValueLine (output_len : Nat) (output key value : Bytes) : Option Bytes := do
  let output ← write_text output_len output key false
  let output ← write_text output_len output (ascii ": ") false
  write_text output_len output value true

def formatText : Variant → Option Bytes
  | .MULTI_P2WSH => some (ascii "P2WSH")
  | .MULTI_P2WSH_P2SH => some (ascii "P2SH-P2WSH")
  | .MULTI_P2SH => some (ascii "P2SH")
  | _ => none

def writeSigner (codecs : Codecs) (output_len : Nat) (output : Bytes) (signer : Signer) : Option Bytes :=
  if signer.path.length ≠ 0 ∨ signer.path_is_string then none
  else do
    let path ← wallet_bip32_path_as_str signer.derivation (MAX_PATH_STR_LEN MAX_PATH_LEN) false
    let output ← writeKeyValueLine output_len output MSIG_FILE_DERIVATION (ascii path)
    writeKeyValueLine output_len output (codecs.hex_from_bytes signer.fingerprint) signer.xpub

/-- Sorted is the default. -/
def writeSorted (output_len : Nat) (output : Bytes) (sorted : Bool) : Option Bytes :=
  if sorted then some output else writeKeyValueLine output_len output MSIG_FILE_SORTED (ascii "False")

def writeBlindingKey (codecs : Codecs) (output_len : Nat) (output master_blinding_key : Bytes) : Option Bytes :=
  if master_blinding_key.length = 0 then some output
  else writeKeyValueLine output_len output MSIG_FILE_BLINDING_KEY (codecs.hex_from_bytes master_blinding_key)

def writeFile (codecs : Codecs) (record : Record) (output_len : Nat) : Option Bytes := do
  let output ← write_text output_len [] (ascii "# Exported by Blockstream Jade") true
  let output ← writeKeyValueLine output_len output MSIG_FILE_NAME record.multisig_name
  let output ← writeKeyValueLine output_len output MSIG_FILE_POLICY
    (decimal record.threshold ++ ascii " of " ++ decimal record.signers.length)
  let format ← formatText record.variant
  let output ← writeKeyValueLine output_len output MSIG_FILE_FORMAT format
  let output ← writeSorted output_len output record.sorted
  let output ← writeBlindingKey codecs output_len output record.master_blinding_key
  record.signers.foldlM (writeSigner codecs output_len) output

def multisig_create_export_file (codecs : Codecs) (record : Record) (output_len : Nat) : Check Stop (Option Bytes) := do
  Check.ensure (output_len ≥ MULTISIG_FILE_MAX_LEN record.signers.length)
  match writeFile codecs record output_len with
  | none => return none
  | some output => do
    Check.ensure (output.length < output_len)
    return some output

/-! ### The lines of a file -/

/-- The lines `get_next_line` returns, one after the other: those that are empty and comments
    are skipped. -/
def next_lines (file : Bytes) : List Bytes :=
  (file.splitOn '\n'.toUInt8).filter fun line => line ≠ [] ∧ line.head? ≠ some '#'.toUInt8

/-- The name and the value of a line. -/
def split_line (line : Bytes) : Option (Bytes × Bytes) :=
  match line.idxOf? ':'.toUInt8 with
  | none => none
  | some p =>
    if p = 0 then none
    else
      let value := (line.drop (p + 1)).dropWhile isspace
      if value.length = 0 ∨ value.length ≥ LINE_VALUE_LEN then none else some (line.take p, value)

/-! ### The parser -/

/-- The fields read so far; a field not yet read is `none`. -/
structure Fields where
  name : Option Bytes
  name_truncated : Bool
  /-- The threshold and the number of signers. -/
  policy : Option (Nat × Nat)
  format : Option Variant
  sorted : Option Bool
  path : Option Path
  signers : List Signer

def strcasecmp (value text : Bytes) : Bool := (cstr value).map tolower = text.map tolower

def isField (name field : Bytes) : Bool := name.map tolower = field.map tolower

def storage_key_name_valid (name : Bytes) : Bool :=
  decide (name.length ≤ NVS_KEY_NAME_MAX_SIZE) && name.all isgraph && decide (name ≠ [])

/-- The number at the start of a string in base ten, and what is not read of it. -/
def strtoul (text : Bytes) : Nat × Bytes :=
  let p := text.dropWhile isspace
  let negative := p.head? = some '-'.toUInt8
  let q := if negative ∨ p.head? = some '+'.toUInt8 then p.drop 1 else p
  let digits := q.takeWhile isdigit
  if digits = [] then (0, text)
  else if number digits ≥ 2 ^ 64 then (2 ^ 64 - 1, q.dropWhile isdigit)
  else ((if negative then (2 ^ 64 - number digits) % 2 ^ 64 else number digits), q.dropWhile isdigit)

def readName (fields : Fields) (value : Bytes) : Check Stop Fields :=
  if fields.name.isSome then refuse "Invalid multisig file"
  else
    let name := ((value.take (MAX_MULTISIG_NAME_SIZE - 1)).takeWhile (· ≠ 0)).map fun c =>
      if isspace c then '_'.toUInt8 else c
    if !storage_key_name_valid name then refuse "Invalid multisig name"
    else .ok { fields with
      name := some name, name_truncated := decide (value.length > MAX_MULTISIG_NAME_SIZE - 1) }

def readPolicy (fields : Fields) (value : Bytes) : Check Stop Fields :=
  if fields.policy.isSome then refuse "Invalid multisig file"
  else
    match value.idxOf? ' '.toUInt8 with
    | none => refuse "Invalid multisig policy"
    | some space1 =>
      let rest := value.drop (space1 + 1)
      match rest.idxOf? ' '.toUInt8 with
      | none => refuse "Invalid multisig policy"
      | some space2 =>
        let threshold := strtoul (cstr (value.take space1))
        let nsigners := strtoul (cstr (rest.drop (space2 + 1)))
        if threshold.1 = 0 ∨ nsigners.1 = 0 ∨ threshold.1 > nsigners.1 ∨ nsigners.1 > MAX_ALLOWED_SIGNERS ∨
            threshold.2 ≠ [] ∨ 0 ∈ value.take space1 ∨ nsigners.2 ≠ [] ∨ 0 ∈ rest.drop (space2 + 1) ∨
            !strcasecmp (rest.take space2) (ascii "of") then
          refuse "Invalid multisig policy"
        else .ok { fields with policy := some (threshold.1, nsigners.1) }

def readFormat (fields : Fields) (value : Bytes) : Check Stop Fields :=
  if fields.format.isSome then refuse "Invalid multisig file"
  else if strcasecmp value (ascii "P2WSH") then .ok { fields with format := some .MULTI_P2WSH }
  else if strcasecmp value (ascii "P2WSH-P2SH") || strcasecmp value (ascii "P2SH-P2WSH") then
    .ok { fields with format := some .MULTI_P2WSH_P2SH }
  else if strcasecmp value (ascii "P2SH") then .ok { fields with format := some .MULTI_P2SH }
  else refuse "Invalid multisig format"

def readSorted (fields : Fields) (value : Bytes) : Check Stop Fields :=
  if fields.sorted.isSome then refuse "Invalid multisig file"
  else if strcasecmp value (ascii "TRUE") then .ok { fields with sorted := some true }
  else if strcasecmp value (ascii "FALSE") then .ok { fields with sorted := some false }
  else refuse "Invalid sorted flag"

section
variable (codecs : Codecs) (xpub_version : Bytes)

def wallet_bip32_path_from_str (text : Bytes) : Option Path :=
  match codecs.bip32_path_from_str text with
  | none => none
  | some path => if path.length > MAX_PATH_LEN then none else some path

def readDerivation (fields : Fields) (value : Bytes) : Check Stop Fields :=
  match wallet_bip32_path_from_str codecs value with
  | none => refuse "Invalid derivation path"
  | some path =>
    if path.length = 0 then refuse "Invalid derivation path" else .ok { fields with path := some path }

/-- The xpub with the version bytes of the network. -/
def readXpub (value : Bytes) : Check Stop Bytes :=
  if value.length < xpub_version.length ∨ value.length ≥ XPUB_LEN then refuse "Invalid signer xpub"
  else
    match codecs.base58_to_bytes (cstr value) with
    | none => refuse "Invalid signer xpub"
    | some serialised =>
      let key_data := serialised.getD (BIP32_SERIALIZED_LEN - EC_PUBLIC_KEY_LEN) 0
      if serialised.length ≠ BIP32_SERIALIZED_LEN then refuse "Invalid signer xpub"
      else if key_data ≠ 2 ∧ key_data ≠ 3 then refuse "Invalid signer xpub"
      else if serialised.take xpub_version.length = xpub_version then .ok (cstr value)
      else do
        let xpub := codecs.base58_from_bytes (xpub_version ++ serialised.drop xpub_version.length)
        Check.ensure (xpub.length < XPUB_LEN)
        return xpub

def readSigner (fields : Fields) (name value : Bytes) : Check Stop Fields :=
  match fields.name, fields.policy, fields.format, fields.path with
  | some _, some policy, some _, some path =>
    if fields.signers.length ≥ policy.2 ∨ policy.2 = 0 then refuse "Invalid number of signers"
    else
      match codecs.hex_to_bytes name with
      | none => refuse "Invalid signer fingerprint"
      | some fingerprint =>
        if fingerprint.length ≠ BIP32_KEY_FINGERPRINT_LEN then refuse "Invalid signer fingerprint"
        else if path.length = 0 ∨ path.length > MAX_PATH_LEN then refuse "Derivation path too long"
        else do
          let xpub ← readXpub codecs xpub_version value
          return { fields with signers := fields.signers ++ [⟨fingerprint, path, xpub, false, []⟩] }
  | _, _, _, _ => refuse "Insufficient information records"

def readLine (fields : Fields) (line : Bytes) : Check Stop Fields :=
  if ':'.toUInt8 ∈ line ∧ isField (line.takeWhile (· ≠ ':'.toUInt8)) MSIG_FILE_BLINDING_KEY then
    refuse "Master blinding key not supported on bitcoin network"
  else
    match split_line line with
    | none => refuse "Invalid multisig file"
    | some (name, value) =>
      if isField name MSIG_FILE_NAME then readName fields value
      else if isField name MSIG_FILE_POLICY then readPolicy fields value
      else if isField name MSIG_FILE_FORMAT then readFormat fields value
      else if isField name MSIG_FILE_SORTED then readSorted fields value
      else if isField name MSIG_FILE_DERIVATION then readDerivation codecs fields value
      else if name.length = BIP32_KEY_FINGERPRINT_LEN * 2 then readSigner codecs xpub_version fields name value
      else refuse "Invalid multisig file"

/-- What is passed on to `register_multisig`, and whether the user is asked about the name first. -/
structure Registration where
  multisig_name : Bytes
  name_truncated : Bool
  variant : Variant
  sorted : Bool
  threshold : Nat
  signers : List Signer
  deriving DecidableEq, Repr

def BIP32_VER_MAIN_PUBLIC : Bytes := [0x04, 0x88, 0xB2, 0x1E]
def BIP32_VER_TEST_PUBLIC : Bytes := [0x04, 0x35, 0x87, 0xCF]

def xpubVersion (testnet : Bool) : Bytes := if testnet then BIP32_VER_TEST_PUBLIC else BIP32_VER_MAIN_PUBLIC

/-- The network is testnet if keys are restricted to it. -/
def register_multisig_file (testnet : Bool) (file : Bytes) : Check Stop Registration := do
  Check.ensure (file.length ≠ 0)
  let fields ← Check.fold (readLine codecs (xpubVersion testnet)) ⟨none, false, none, none, none, none, []⟩
    (next_lines file)
  match fields.name, fields.policy, fields.format, fields.path with
  | some name, some policy, some variant, some _ =>
    if fields.signers.length ≠ policy.2 ∨ policy.2 = 0 then refuse "Invalid number of signers"
    else do
      Check.ensure (!fields.name_truncated || name.length = MAX_MULTISIG_NAME_SIZE - 1)
      return ⟨name, fields.name_truncated, variant, fields.sorted.getD true, policy.1, fields.signers⟩
  | _, _, _, _ => refuse "Insufficient information records"

end
end PiJade.Multisig
