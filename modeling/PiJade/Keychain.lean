import Mathlib.Data.List.FinRange
import PiJade.Storage

/-!
The keychain (`main/keychain.c`, `main/aes.c`): a table of wallets, a pointer to the one in
use, two caches of what a wallet was made from, and the encrypted blob that keeps one wallet
across restarts. Keys, mnemonics, AES-CBC and HMAC are those of libwally, a parameter:
`Wally` lists the calls. A buffer of the source is the list of its bytes, a pointer into the
table is the slot it points to.
-/
namespace PiJade.Keychain
set_option linter.unusedSimpArgs false
open Storage

/-! ### Data -/

abbrev MAX_SEED_SLOTS : Nat := 8
def BIP39_ENTROPY_LEN_128 : Nat := 16
def BIP39_ENTROPY_LEN_256 : Nat := 32
def SLIP39_MASTER_SECRET_MIN : Nat := 16
def SLIP39_MASTER_SECRET_MAX : Nat := 32
def PASSPHRASE_MAX_LEN : Nat := 100
def BIP32_SERIALIZED_LEN : Nat := 78
def HMAC_SHA256_LEN : Nat := 32
def HMAC_SHA512_LEN : Nat := 64
def GASERVICE_PATH_LEN : Nat := HMAC_SHA512_LEN / 2
def BIP32_ENTROPY_LEN_512 : Nat := 64
def AES_BLOCK_LEN : Nat := 16
def AES_KEY_LEN_256 : Nat := 32

def AES_PADDED_LEN (len : Nat) : Nat := (len / AES_BLOCK_LEN + 1) * AES_BLOCK_LEN
def AES_ENCRYPTED_LEN (len : Nat) : Nat := AES_BLOCK_LEN + AES_PADDED_LEN len

/-- Extended key, service path and master blinding key. -/
def SERIALIZED_KEY_LEN : Nat := BIP32_SERIALIZED_LEN + HMAC_SHA512_LEN + HMAC_SHA512_LEN
def ENCRYPTED_DATA_LEN (len : Nat) : Nat := AES_ENCRYPTED_LEN len + HMAC_SHA256_LEN

def SLIP39_BLOB_TAG : UInt8 := 0x39
def SLIP39_BLOB_LEN (secret_len : Nat) : Nat := 1 + secret_len

/-- The libwally calls, over its extended keys `K`. -/
structure Wally (K : Type) where
  /-- An extended key whose memory is all zero. -/
  zero : K
  bip32_key_serialize : K → Bytes
  bip32_key_unserialize : Bytes → Option K
  bip32_key_from_seed : Bytes → Option K
  asset_blinding_key_from_seed : Bytes → Bytes
  /-- The HMAC-SHA512 of the fixed message and the service child of a key. -/
  gaservice_digest : K → Bytes
  mnemonic_validate : Bytes → Bool
  mnemonic_to_bytes : Bytes → Option Bytes
  mnemonic_from_bytes : Bytes → Option Bytes
  mnemonic_to_seed : Bytes → Bytes → Option Bytes
  aes_cbc_encrypt : Bytes → Bytes → Bytes → Bytes
  aes_cbc_decrypt : Bytes → Bytes → Bytes → Option Bytes
  hmac_sha256 : Bytes → Bytes → Bytes

/-- `keychain_t`, without the two cached service keys. -/
structure Keydata (K : Type) where
  gaservice_path : List UInt32
  master_unblinding_key : Bytes
  seed : Bytes
  xpriv : K
  seed_len : Nat
  deriving DecidableEq

/-- `keychain_slot_t`. -/
structure Slot (K : Type) where
  keydata : Keydata K
  entropy : Bytes
  entropy_len : Nat
  userdata : UInt8
  temporary : Bool
  in_use : Bool
  deriving DecidableEq

/-- The variables of `keychain.c`. -/
structure Ram (K : Type) where
  keychain_slots : Fin MAX_SEED_SLOTS → Slot K
  active_slot : Fin MAX_SEED_SLOTS
  keychain_data : Option (Fin MAX_SEED_SLOTS)
  network_type_restriction : NetworkType
  has_encrypted_blob : Bool
  mnemonic_entropy : Bytes
  mnemonic_entropy_len : Nat
  slip39_master_secret : Bytes
  slip39_master_secret_len : Nat
  key_flags : UInt8

structure Jade (K : Type) where
  ram : Ram K
  device : Device

/-- A zeroed buffer. -/
def zeros (len : Nat) : Bytes := List.replicate len 0

/-- `memcpy` of some bytes to the start of a buffer. -/
def overwrite (buffer bytes : Bytes) : Bytes := bytes ++ buffer.drop bytes.length

section
variable {K : Type} (wally : Wally K)

def Keydata.zero : Keydata K where
  gaservice_path := List.replicate GASERVICE_PATH_LEN 0
  master_unblinding_key := zeros HMAC_SHA512_LEN
  seed := zeros BIP32_ENTROPY_LEN_512
  xpriv := wally.zero
  seed_len := 0

def Slot.zero : Slot K where
  keydata := Keydata.zero wally
  entropy := zeros BIP39_ENTROPY_LEN_256
  entropy_len := 0
  userdata := 0
  temporary := false
  in_use := false

/-- The variables as the program starts with them. -/
def Ram.zero : Ram K where
  keychain_slots := fun _ => Slot.zero wally
  active_slot := 0
  keychain_data := none
  network_type_restriction := NETWORK_TYPE_NONE
  has_encrypted_blob := false
  mnemonic_entropy := zeros BIP39_ENTROPY_LEN_256
  mnemonic_entropy_len := 0
  slip39_master_secret := zeros SLIP39_MASTER_SECRET_MAX
  slip39_master_secret_len := 0
  key_flags := 0

end

abbrev Task (K : Type) := Proc (Jade K) Interrupt

section
variable {K α : Type}

/-- Storage code, run in the keychain. -/
def onDevice (code : Code α) : Task K α := fun jade =>
  ((code jade.device).1, { jade with device := (code jade.device).2 })

def modify (change : Ram K → Ram K) : Task K Unit := Proc.update fun jade => { jade with ram := change jade.ram }

def get (read : Ram K → α) : Task K α := Proc.read fun jade => read jade.ram

def ensure (holds : Bool) : Task K Unit := Proc.lift (Check.ensure holds)

/-- A libwally call whose success is verified. -/
def verified (result : Option α) : Task K α :=
  match result with
  | none => Proc.lift (.error .abort)
  | some value => pure value

end

/-! ### The table -/

section
variable {K : Type} (wally : Wally K)

/-- Changes one slot. -/
def Ram.setSlot (ram : Ram K) (slot : Fin MAX_SEED_SLOTS) (value : Slot K) : Ram K :=
  { ram with keychain_slots := Function.update ram.keychain_slots slot value }

/-- The slot in use. -/
def Ram.active (ram : Ram K) : Slot K := ram.keychain_slots ram.active_slot

/-- Clears both caches. -/
def Ram.dropCaches (ram : Ram K) : Ram K :=
  { ram with
    mnemonic_entropy := zeros BIP39_ENTROPY_LEN_256
    mnemonic_entropy_len := 0
    slip39_master_secret := zeros SLIP39_MASTER_SECRET_MAX
    slip39_master_secret_len := 0 }

def occupy_slot (slot : Fin MAX_SEED_SLOTS) (src : Keydata K) : Task K Unit := modify fun ram =>
  { ram with active_slot := slot, keychain_data := some slot }.setSlot slot { ram.keychain_slots slot with
    in_use := true, keydata := src, entropy := zeros BIP39_ENTROPY_LEN_256, entropy_len := 0 }

def finalise_slot (userdata : UInt8) (temporary : Bool) : Task K Unit := do
  modify Ram.dropCaches
  let key_flags ← onDevice storage_get_key_flags
  modify fun ram => { ram with key_flags := key_flags }.setSlot ram.active_slot { ram.active with
    userdata := userdata, temporary := temporary }

def keychain_clear : Task K Unit := do
  modify fun ram => { ram.dropCaches with
    keychain_slots := fun _ => Slot.zero wally, keychain_data := none, active_slot := 0 }
  let key_flags ← onDevice storage_get_key_flags
  modify fun ram => { ram with key_flags := key_flags }

/-- The keys passed to `keychain_set`: those `keychain_get` returned, or others. -/
inductive Source (K : Type) where
  | self
  | new (src : Keydata K)

def keychain_set (src : Source K) (userdata : UInt8) (temporary : Bool) : Task K Unit := do
  match src with
  | .self => ensure (← get Ram.keychain_data).isSome
  | .new src =>
    keychain_clear wally
    occupy_slot 0 src
  finalise_slot userdata temporary

/-- The first slot not in use. -/
def freeSlot (ram : Ram K) : Option (Fin MAX_SEED_SLOTS) :=
  (List.finRange MAX_SEED_SLOTS).find? fun i => !(ram.keychain_slots i).in_use

def keychain_load_into_free_slot (src : Keydata K) (userdata : UInt8) (temporary : Bool) : Task K Bool := do
  match ← get freeSlot with
  | none => pure false
  | some slot =>
    occupy_slot slot src
    finalise_slot userdata temporary
    pure true

/-- The loop of `slot_at_position`, `seen` slots in use before it. -/
def slotFrom (ram : Ram K) (position seen : Nat) : List (Fin MAX_SEED_SLOTS) → Option (Fin MAX_SEED_SLOTS)
  | [] => none
  | slot :: rest =>
    if (ram.keychain_slots slot).in_use then
      if seen = position then some slot else slotFrom ram position (seen + 1) rest
    else slotFrom ram position seen rest

def slot_at_position (position : Nat) : Task K (Fin MAX_SEED_SLOTS) := do
  match ← get fun ram => slotFrom ram position 0 (List.finRange MAX_SEED_SLOTS) with
  | none => Proc.lift (.error .abort)
  | some slot => pure slot

def keychain_slot_count (ram : Ram K) : Nat :=
  (List.finRange MAX_SEED_SLOTS).countP fun i => (ram.keychain_slots i).in_use

def keychain_slot_activate (position : Nat) : Task K Unit := do
  let slot ← slot_at_position position
  modify fun ram => { ram with active_slot := slot, keychain_data := some slot }

def keychain_slot_forget_active : Task K Unit := do
  ensure (← get Ram.keychain_data).isSome
  modify fun ram => { ram with keychain_data := none }.setSlot ram.active_slot (Slot.zero wally)
  if (← get keychain_slot_count) ≠ 0 then keychain_slot_activate 0
  else keychain_clear wally

/-- Only 12 and 24 words leave entropy in the slot. -/
def keychain_set_entropy (mnemonic : Bytes) : Task K Unit := do
  ensure (← get Ram.keychain_data).isSome
  ensure ((← get Ram.active).entropy_len == 0)
  let entropy ← verified (wally.mnemonic_to_bytes mnemonic)
  if entropy.length ≠ BIP39_ENTROPY_LEN_128 ∧ entropy.length ≠ BIP39_ENTROPY_LEN_256 then
    modify fun ram => ram.setSlot ram.active_slot { ram.active with entropy := zeros BIP39_ENTROPY_LEN_256 }
  else
    modify fun ram => ram.setSlot ram.active_slot { ram.active with
      entropy := overwrite ram.active.entropy entropy, entropy_len := entropy.length }

def keychain_has_pin (ram : Ram K) : Bool := ram.has_encrypted_blob

def keychain_set_temporary : Task K Unit := do
  ensure (← get Ram.keychain_data).isSome
  ensure ((← get Ram.mnemonic_entropy_len) != 0)
  ensure !(← get Ram.active).temporary
  ensure !(← get keychain_has_pin)
  modify fun ram => ram.setSlot ram.active_slot { ram.active with temporary := true }

def keychain_has_temporary : Task K Bool := do
  ensure ((← get Ram.keychain_data).isSome || !(← get Ram.active).temporary)
  pure ((← get Ram.keychain_data).isSome && (← get Ram.active).temporary)

def keychain_cache_mnemonic_entropy (mnemonic : Bytes) : Task K Unit := do
  ensure !(← keychain_has_temporary)
  ensure ((← get Ram.mnemonic_entropy_len) == 0)
  ensure ((← get Ram.slip39_master_secret_len) == 0)
  let entropy ← verified (wally.mnemonic_to_bytes mnemonic)
  modify fun ram => { ram with
    mnemonic_entropy := overwrite ram.mnemonic_entropy entropy, mnemonic_entropy_len := entropy.length }
  ensure (entropy.length == BIP39_ENTROPY_LEN_128 || entropy.length == BIP39_ENTROPY_LEN_256)

def keychain_cache_slip39_master_secret (master_secret : Bytes) : Task K Unit := do
  ensure (master_secret.length == SLIP39_MASTER_SECRET_MIN || master_secret.length == SLIP39_MASTER_SECRET_MAX)
  ensure !(← keychain_has_temporary)
  ensure ((← get Ram.mnemonic_entropy_len) == 0)
  ensure ((← get Ram.slip39_master_secret_len) == 0)
  modify fun ram => { ram with
    slip39_master_secret := overwrite ram.slip39_master_secret master_secret
    slip39_master_secret_len := master_secret.length }

end

/-! ### Preferences -/

def KEY_FLAGS_AUTO_DEFAULT_PASSPHRASE : UInt8 := 0x1
def KEY_FLAGS_USER_TO_ENTER_PASSPHRASE : UInt8 := 0x2
def KEY_FLAGS_WORDLIST_PASSPHRASE : UInt8 := 0x4
def KEY_FLAGS_CONFIRM_EXPORT_BLINDING_KEY : UInt8 := 0x80

/-- `passphrase_freq_t`. -/
inductive PassphraseFreq where
  | NEVER
  | ONCE
  | ALWAYS
  deriving DecidableEq, Repr

/-- `passphrase_type_t`. -/
inductive PassphraseType where
  | WORDLIST
  | FREETEXT
  deriving DecidableEq, Repr

section
variable {K : Type} (wally : Wally K)

/-- Sets or clears flags. -/
def setFlags (flags : UInt8) (on : Bool) (key_flags : UInt8) : UInt8 :=
  if on then key_flags ||| flags else key_flags &&& ~~~flags

def modifyFlags (change : UInt8 → UInt8) : Task K Unit :=
  modify fun ram => { ram with key_flags := change ram.key_flags }

def keychain_set_passphrase_frequency : PassphraseFreq → Task K Unit
  | .NEVER => modifyFlags fun flags =>
    setFlags KEY_FLAGS_USER_TO_ENTER_PASSPHRASE false (setFlags KEY_FLAGS_AUTO_DEFAULT_PASSPHRASE true flags)
  | .ALWAYS => modifyFlags fun flags =>
    setFlags KEY_FLAGS_USER_TO_ENTER_PASSPHRASE true (setFlags KEY_FLAGS_AUTO_DEFAULT_PASSPHRASE false flags)
  | .ONCE => modifyFlags fun flags =>
    setFlags KEY_FLAGS_USER_TO_ENTER_PASSPHRASE true (setFlags KEY_FLAGS_AUTO_DEFAULT_PASSPHRASE true flags)

def keychain_set_passphrase_type (type : PassphraseType) : Task K Unit :=
  modifyFlags (setFlags KEY_FLAGS_WORDLIST_PASSPHRASE (type == .WORDLIST))

def keychain_set_confirm_export_blinding_key (confirm_export : Bool) : Task K Unit :=
  modifyFlags (setFlags KEY_FLAGS_CONFIRM_EXPORT_BLINDING_KEY confirm_export)

/-- A passphrase asked for once is not persisted as one always asked for. -/
def keychain_persist_key_flags : Task K Unit := do
  let key_flags ← get Ram.key_flags
  let once := key_flags &&& KEY_FLAGS_AUTO_DEFAULT_PASSPHRASE != 0 &&
    key_flags &&& KEY_FLAGS_USER_TO_ENTER_PASSPHRASE != 0
  let _ ← onDevice (storage_set_key_flags (if once then key_flags &&& ~~~KEY_FLAGS_USER_TO_ENTER_PASSPHRASE
    else key_flags))
  pure ()

def keychain_clear_network_type_restriction : Task K Unit := do
  if !(← keychain_has_temporary) then
    let _ ← onDevice (storage_set_network_type_restriction NETWORK_TYPE_NONE)
  modify fun ram => { ram with network_type_restriction := NETWORK_TYPE_NONE }

def keychain_is_network_type_consistent (network_type : NetworkType) (ram : Ram K) : Bool :=
  ram.network_type_restriction == NETWORK_TYPE_NONE || network_type == ram.network_type_restriction

def keychain_set_network_type_restriction (network_type : NetworkType) : Task K Unit := do
  ensure (← get (keychain_is_network_type_consistent network_type))
  if (← get Ram.network_type_restriction) == NETWORK_TYPE_NONE then
    if ← get keychain_has_pin then
      if !(← keychain_has_temporary) then
        let _ ← onDevice (storage_set_network_type_restriction network_type)
    modify fun ram => if ram.keychain_data.isSome then { ram with network_type_restriction := network_type } else ram

/-! ### Derivation -/

/-- `wallet_unserialize_gaservice_path`: two bytes for each element. -/
def unserializePath : Bytes → List UInt32
  | high :: low :: rest => ((high.toUInt32 <<< 8) + low.toUInt32) :: unserializePath rest
  | _ => []

/-- The service path of a root key. -/
def wallet_calculate_gaservice_path (root_key : K) : List UInt32 := unserializePath (wally.gaservice_digest root_key)

def keychain_derive_from_seed (seed : Bytes) : Task K (Keydata K) := do
  ensure (seed.length != 0)
  ensure (seed.length ≤ BIP32_ENTROPY_LEN_512)
  let xpriv ← verified (wally.bip32_key_from_seed seed)
  pure {
    gaservice_path := wallet_calculate_gaservice_path wally xpriv
    master_unblinding_key := wally.asset_blinding_key_from_seed seed
    seed := overwrite (zeros BIP32_ENTROPY_LEN_512) seed
    xpriv := xpriv
    seed_len := seed.length }

def keychain_derive_from_mnemonic (mnemonic passphrase : Bytes) : Task K (Option (Keydata K)) := do
  if PASSPHRASE_MAX_LEN < passphrase.length then pure none
  else if !wally.mnemonic_validate mnemonic then pure none
  else
    let seed ← verified (wally.mnemonic_to_seed mnemonic passphrase)
    ensure (seed.length == BIP32_ENTROPY_LEN_512)
    pure (some (← keychain_derive_from_seed wally seed))

def keychain_requires_passphrase (ram : Ram K) : Bool := ram.keychain_data.isNone && ram.mnemonic_entropy_len != 0

def keychain_complete_derivation_with_passphrase (passphrase : Bytes) : Task K Bool := do
  if !(← get keychain_requires_passphrase) then pure false
  else
    match wally.mnemonic_from_bytes (← get fun ram => ram.mnemonic_entropy.take ram.mnemonic_entropy_len) with
    | none => pure false
    | some mnemonic =>
      match ← keychain_derive_from_mnemonic wally mnemonic passphrase with
      | none => pure false
      | some keydata =>
        keychain_set wally (.new keydata) 0 false
        pure true

/-! ### The encrypted blob -/

/-- `wallet_serialize_gaservice_path`: an element of more than 16 bits stops it. -/
def serializePath : List UInt32 → Option Bytes
  | [] => some []
  | element :: rest => do
    guard (element &&& 0xFFFF0000 = 0)
    let later ← serializePath rest
    pure ((element >>> 8).toUInt8 :: (element &&& 0xFF).toUInt8 :: later)

def serialize (keydata : Keydata K) : Task K Bytes := do
  let path ← verified (serializePath keydata.gaservice_path)
  pure (wally.bip32_key_serialize keydata.xpriv ++ path ++ keydata.master_unblinding_key)

def unserialize (decrypted : Bytes) : Task K (Keydata K) := do
  ensure (decrypted.length == SERIALIZED_KEY_LEN)
  let xpriv ← verified (wally.bip32_key_unserialize (decrypted.take BIP32_SERIALIZED_LEN))
  pure { Keydata.zero wally with
    xpriv := xpriv
    gaservice_path := unserializePath ((decrypted.drop BIP32_SERIALIZED_LEN).take HMAC_SHA512_LEN)
    master_unblinding_key := decrypted.drop (BIP32_SERIALIZED_LEN + HMAC_SHA512_LEN) }

/-- The iv, then the encrypted bytes; their length is verified. -/
def aes_encrypt_bytes (aeskey iv bytes : Bytes) : Task K Bytes := do
  ensure (bytes.length != 0)
  let encrypted := wally.aes_cbc_encrypt aeskey iv bytes
  ensure (encrypted.length == AES_PADDED_LEN bytes.length)
  pure (iv ++ encrypted)

def aes_decrypt_bytes (aeskey bytes : Bytes) (output_len : Nat) : Task K (Option Bytes) := do
  ensure (AES_BLOCK_LEN < bytes.length)
  ensure ((bytes.length - AES_BLOCK_LEN) % AES_BLOCK_LEN == 0)
  ensure (bytes.length - AES_BLOCK_LEN ≤ AES_PADDED_LEN output_len)
  match wally.aes_cbc_decrypt aeskey (bytes.take AES_BLOCK_LEN) (bytes.drop AES_BLOCK_LEN) with
  | none => pure none
  | some output => pure (if output_len < output.length then none else some output)

def get_encrypted_blob (aeskey iv bytes : Bytes) : Task K Bytes := do
  let encrypted ← aes_encrypt_bytes wally aeskey iv bytes
  pure (encrypted ++ wally.hmac_sha256 aeskey encrypted)

/-- The check of the HMAC at the tail, then the decryption of what is before it. -/
def get_decrypted_payload (aeskey bytes : Bytes) (output_len : Nat) : Task K (Option Bytes) := do
  ensure (HMAC_SHA256_LEN < bytes.length)
  let front := bytes.take (bytes.length - HMAC_SHA256_LEN)
  onDevice (record .hmac_check)
  if wally.hmac_sha256 aeskey front != bytes.drop (bytes.length - HMAC_SHA256_LEN) then pure none
  else
    match ← aes_decrypt_bytes wally aeskey front output_len with
    | none => pure none
    | some output =>
      onDevice (record .decrypted)
      pure (some output)

def keychain_encrypt_and_save_blob (aeskey iv cleartext_blob : Bytes) : Task K Bool := do
  if aeskey.length ≠ AES_KEY_LEN_256 then pure false
  else if SERIALIZED_KEY_LEN < cleartext_blob.length then pure false
  else
    let encrypted ← get_encrypted_blob wally aeskey iv cleartext_blob
    onDevice (storage_set_encrypted_blob encrypted)

def keychain_pin_attempts_remaining : Task K UInt8 := onDevice storage_get_counter

/-- The flag follows what the erase did, not what was asked for. -/
def keychain_erase_encrypted : Task K Bool := do
  let erased ← onDevice storage_erase_encrypted_blob
  keychain_clear_network_type_restriction
  modify fun ram => { ram with has_encrypted_blob := !erased }
  pure erased

def keychain_load_and_decrypt_blob (aeskey : Bytes) (blob_len : Nat) : Task K (Option Bytes) := do
  if aeskey.length ≠ AES_KEY_LEN_256 ∨ blob_len < AES_PADDED_LEN SERIALIZED_KEY_LEN then pure none
  else if !(← get keychain_has_pin) then refused
  else if !(← onDevice storage_decrement_counter) then refused
  else
    match ← onDevice (storage_get_encrypted_blob (ENCRYPTED_DATA_LEN SERIALIZED_KEY_LEN)) with
    | none =>
      let erased ← onDevice storage_erase_encrypted_blob
      modify fun ram => { ram with has_encrypted_blob := !erased }
      pure none
    | some encrypted =>
      match ← get_decrypted_payload wally aeskey encrypted blob_len with
      | none =>
        if (← keychain_pin_attempts_remaining) == 0 then
          let _ ← keychain_erase_encrypted
        pure none
      | some cleartext_blob =>
        let _ ← onDevice storage_restore_counter
        pure (some cleartext_blob)
where
  /-- Nothing to load; the flag is derived again as a boot would. -/
  refused : Task K (Option Bytes) := do
    let attempts ← keychain_pin_attempts_remaining
    modify fun ram => { ram with has_encrypted_blob := attempts != 0 }
    pure none

/-- What is stored: cached entropy, else a cached master secret behind its tag, else the keys. -/
def keychain_store (aeskey iv : Bytes) : Task K Bool := do
  if aeskey.length ≠ AES_KEY_LEN_256 then pure false
  else
    let ram ← get id
    if ram.keychain_data.isNone ∧ ram.mnemonic_entropy_len = 0 then pure false
    else if ram.mnemonic_entropy_len ≠ 0 then
      ensure (ram.mnemonic_entropy_len == BIP39_ENTROPY_LEN_128 || ram.mnemonic_entropy_len == BIP39_ENTROPY_LEN_256)
      save (ram.mnemonic_entropy.take ram.mnemonic_entropy_len)
    else if ram.slip39_master_secret_len ≠ 0 then
      ensure (ram.slip39_master_secret_len == SLIP39_MASTER_SECRET_MIN ||
        ram.slip39_master_secret_len == SLIP39_MASTER_SECRET_MAX)
      save (SLIP39_BLOB_TAG :: ram.slip39_master_secret.take ram.slip39_master_secret_len)
    else
      match ram.keychain_data with
      | none => pure false
      | some slot => save (← serialize wally (ram.keychain_slots slot).keydata)
where
  save (serialized : Bytes) : Task K Bool := do
    if ← keychain_encrypt_and_save_blob wally aeskey iv serialized then
      keychain_clear_network_type_restriction
      modify fun ram => { ram with has_encrypted_blob := true }
      pure true
    else pure false

def keychain_load (aeskey : Bytes) : Task K Bool := do
  if aeskey.length ≠ AES_KEY_LEN_256 then pure false
  else if (← get Ram.keychain_data).isSome || (← get Ram.mnemonic_entropy_len) != 0 then pure false
  else if !(← get keychain_has_pin) then pure false
  else
    match ← keychain_load_and_decrypt_blob wally aeskey (AES_PADDED_LEN SERIALIZED_KEY_LEN) with
    | none => pure false
    | some serialized => restore serialized
where
  /-- The shape of the cleartext is told by its length, and a tag where two could meet. -/
  restore (serialized : Bytes) : Task K Bool := do
    if serialized.length = BIP39_ENTROPY_LEN_128 ∨ serialized.length = BIP39_ENTROPY_LEN_256 then
      modify fun ram => { ram with
        mnemonic_entropy := overwrite ram.mnemonic_entropy serialized, mnemonic_entropy_len := serialized.length }
      pure true
    else if serialized.length = SERIALIZED_KEY_LEN then
      let keydata ← unserialize wally serialized
      keychain_set wally (.new keydata) 0 false
      pure true
    else if (serialized.length = SLIP39_BLOB_LEN SLIP39_MASTER_SECRET_MIN ∨
        serialized.length = SLIP39_BLOB_LEN SLIP39_MASTER_SECRET_MAX) ∧ serialized.head? = some SLIP39_BLOB_TAG then
      let keydata ← keychain_derive_from_seed wally serialized.tail
      keychain_set wally (.new keydata) 0 false
      pure true
    else pure false

def keychain_reencrypt (curr_aeskey new_aeskey iv : Bytes) : Task K Bool := do
  if curr_aeskey.length ≠ AES_KEY_LEN_256 ∨ new_aeskey.length ≠ AES_KEY_LEN_256 then pure false
  else if !(← get keychain_has_pin) then pure false
  else
    match ← keychain_load_and_decrypt_blob wally curr_aeskey (AES_PADDED_LEN SERIALIZED_KEY_LEN) with
    | none => pure false
    | some serialized => keychain_encrypt_and_save_blob wally new_aeskey iv serialized

def keychain_init_cache : Task K Unit := do
  let network_type_restriction ← onDevice storage_get_network_type_restriction
  let attempts ← keychain_pin_attempts_remaining
  let key_flags ← onDevice storage_get_key_flags
  modify fun ram => { ram with
    network_type_restriction := network_type_restriction, has_encrypted_blob := attempts != 0, key_flags := key_flags }

end
end PiJade.Keychain
