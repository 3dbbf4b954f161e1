import PiJade.KeychainBlob

/-!
The stored wallet comes back. A restart and `keychain_load` with the key of the blob restore
the shape that `keychain_store` wrote, told apart by the length of the cleartext and a tag.
A key under which the HMAC of the blob does not verify opens nothing.
-/
namespace PiJade.Keychain
set_option linter.unusedSimpArgs false
open Storage

section
variable {K : Type} {wally : Wally K} {jade : Jade K}

/-! ### The way back -/

/-- What the code relies on: decryption undoes encryption, an HMAC has its length, and an
    extended key is read back from the bytes it is written as. -/
structure Wally.Lawful (wally : Wally K) : Prop where
  decrypts : ∀ aeskey iv bytes, aeskey.length = AES_KEY_LEN_256 → iv.length = AES_BLOCK_LEN →
    wally.aes_cbc_decrypt aeskey iv (wally.aes_cbc_encrypt aeskey iv bytes) = some bytes
  hmac_length : ∀ aeskey bytes, (wally.hmac_sha256 aeskey bytes).length = HMAC_SHA256_LEN
  key_length : ∀ key, (wally.bip32_key_serialize key).length = BIP32_SERIALIZED_LEN
  unserializes : ∀ key, wally.bip32_key_unserialize (wally.bip32_key_serialize key) = some key

section
variable {aeskey iv serialized : Bytes} {dev : Device} {halts : Halt Interrupt → Jade K → Prop}

theorem Saved.sealed_length (saved : Saved wally aeskey iv serialized dev) (block : iv.length = AES_BLOCK_LEN) :
    (sealed wally aeskey iv serialized).length = AES_ENCRYPTED_LEN serialized.length := by
  rw [sealed, List.length_append, block, saved.padded, AES_ENCRYPTED_LEN]

theorem Saved.blob_length (saved : Saved wally aeskey iv serialized dev) (lawful : wally.Lawful)
    (block : iv.length = AES_BLOCK_LEN) :
    (blobOf wally aeskey iv serialized).length = AES_ENCRYPTED_LEN serialized.length + HMAC_SHA256_LEN := by
  rw [blobOf, List.length_append, saved.sealed_length block, lawful.hmac_length]

theorem Saved.wp_aes_decrypt_bytes (saved : Saved wally aeskey iv serialized dev) (lawful : wally.Lawful)
    (block : iv.length = AES_BLOCK_LEN) {post : Option Bytes → Jade K → Prop} (value : post (some serialized) jade) :
    Proc.wp (aes_decrypt_bytes wally aeskey (sealed wally aeskey iv serialized) (AES_PADDED_LEN SERIALIZED_KEY_LEN))
      post halts jade := by
  have size := saved.sealed_length block
  have most := saved.most
  simp only [AES_ENCRYPTED_LEN, AES_PADDED_LEN, SERIALIZED_KEY_LEN, BIP32_SERIALIZED_LEN, HMAC_SHA512_LEN,
    AES_BLOCK_LEN] at size most
  have after_iv : AES_BLOCK_LEN < (sealed wally aeskey iv serialized).length := by
    rw [size, AES_BLOCK_LEN]
    omega
  have whole : ((sealed wally aeskey iv serialized).length - AES_BLOCK_LEN) % AES_BLOCK_LEN = 0 := by
    rw [size, AES_BLOCK_LEN]
    omega
  have room : (sealed wally aeskey iv serialized).length - AES_BLOCK_LEN ≤
      AES_PADDED_LEN (AES_PADDED_LEN SERIALIZED_KEY_LEN) := by
    rw [size, show AES_PADDED_LEN (AES_PADDED_LEN SERIALIZED_KEY_LEN) = 224 from rfl, AES_BLOCK_LEN]
    omega
  have fits : ¬ AES_PADDED_LEN SERIALIZED_KEY_LEN < serialized.length := by
    rw [show AES_PADDED_LEN SERIALIZED_KEY_LEN = 208 from rfl]
    omega
  have head : (sealed wally aeskey iv serialized).take AES_BLOCK_LEN = iv := by rw [sealed, List.take_left' block]
  have body : (sealed wally aeskey iv serialized).drop AES_BLOCK_LEN = wally.aes_cbc_encrypt aeskey iv serialized := by
    rw [sealed, List.drop_left' block]
  simp only [aes_decrypt_bytes, Proc.wp_bind, wp_keychain_ensure]
  rw [if_pos (decide_eq_true after_iv), if_pos (by simpa using whole), if_pos (decide_eq_true room), head, body,
    lawful.decrypts aeskey iv serialized saved.key block]
  simp only [Proc.wp_pure]
  rw [if_neg fits]
  exact value

/-- The blob opens under its key. -/
theorem Saved.wp_get_decrypted_payload (saved : Saved wally aeskey iv serialized dev) (lawful : wally.Lawful)
    (block : iv.length = AES_BLOCK_LEN) {post : Option Bytes → Jade K → Prop}
    (value : ∀ log, post (some serialized) { jade with device := { jade.device with log := log } }) :
    Proc.wp (get_decrypted_payload wally aeskey (blobOf wally aeskey iv serialized) (AES_PADDED_LEN SERIALIZED_KEY_LEN))
      post halts jade := by
  have length := saved.blob_length lawful block
  have size := saved.sealed_length block
  have long : HMAC_SHA256_LEN < (blobOf wally aeskey iv serialized).length := by
    rw [length, AES_ENCRYPTED_LEN, AES_BLOCK_LEN]
    omega
  have front : (blobOf wally aeskey iv serialized).take ((blobOf wally aeskey iv serialized).length - HMAC_SHA256_LEN) =
      sealed wally aeskey iv serialized := by
    rw [length, Nat.add_sub_cancel, ← size, blobOf, List.take_left]
  have tail : (blobOf wally aeskey iv serialized).drop ((blobOf wally aeskey iv serialized).length - HMAC_SHA256_LEN) =
      wally.hmac_sha256 aeskey (sealed wally aeskey iv serialized) := by
    rw [length, Nat.add_sub_cancel, ← size, blobOf, List.drop_left]
  rw [get_decrypted_payload, Proc.wp_bind, wp_keychain_ensure, if_pos (decide_eq_true long)]
  dsimp only
  rw [Proc.wp_bind, wp_record, front, tail, if_neg (by simp), Proc.wp_bind]
  apply saved.wp_aes_decrypt_bytes lawful block
  exact value _

theorem wp_works_keychain_set {n : Nat} {src : Keydata K} {userdata : UInt8} {temporary : Bool}
    {post : Unit → Jade K → Prop} (works : Works (n + 4) jade.device.answers)
    (value : ∀ left : Jade K, left.ram.keychain_data = some 0 → (left.ram.keychain_slots 0).keydata = src →
      left.ram.mnemonic_entropy_len = 0 → left.ram.slip39_master_secret_len = 0 → post () left) :
    Proc.wp (keychain_set wally (.new src) userdata temporary) post halts jade := by
  simp only [keychain_set, keychain_clear, occupy_slot, finalise_slot, Proc.wp_bind, wp_modify, wp_onDevice,
    storage_get_key_flags]
  apply wp_works_read_byte works
  intro _ answers works _
  apply wp_works_read_byte works
  intro _ answers works _
  apply value
  · rfl
  · simp [Ram.setSlot, Ram.active, Ram.dropCaches]
  · rfl
  · rfl

theorem wp_works_init_cache {n : Nat} {post : Unit → Jade K → Prop} (works : Works (n + 6) jade.device.answers)
    (counter : jade.device.nvs_storage defaultMap PIN_COUNTER_FIELD = some [3])
    (value : ∀ network flags device, device.nvs_storage = jade.device.nvs_storage → post () ⟨{ jade.ram with
      network_type_restriction := network, has_encrypted_blob := true, key_flags := flags }, device⟩) :
    Proc.wp keychain_init_cache post halts jade := by
  simp only [keychain_init_cache, keychain_pin_attempts_remaining, storage_get_key_flags, Proc.wp_bind, wp_onDevice]
  apply wp_works_get_network_type works
  intro network answers works
  apply wp_works_get_counter works
  intro attempts device works memory read
  have three := read 3 counter
  apply wp_works_read_byte works
  intro flags answers _ _
  rw [wp_modify, three]
  exact value network flags _ memory

/-- Storage that works gives back what was saved. -/
theorem Saved.wp_load_and_decrypt_blob (saved : Saved wally aeskey iv serialized dev) (lawful : wally.Lawful)
    (block : iv.length = AES_BLOCK_LEN) {n : Nat} {post : Option Bytes → Jade K → Prop}
    (works : Works (n + 10) jade.device.answers) (memory : jade.device.nvs_storage = dev.durable)
    (pin : jade.ram.has_encrypted_blob = true)
    (value : ∀ left : Jade K, left.ram = jade.ram → Works n left.device.answers → post (some serialized) left) :
    Proc.wp (keychain_load_and_decrypt_blob wally aeskey (AES_PADDED_LEN SERIALIZED_KEY_LEN)) post halts jade := by
  have counter : jade.device.nvs_storage defaultMap PIN_COUNTER_FIELD = some [3] := by
    rw [memory]
    exact saved.counter.durable
  have blob : jade.device.nvs_storage defaultMap BLOB_FIELD = some (blobOf wally aeskey iv serialized) := by
    rw [memory]
    exact saved.blob.durable
  have fits : (blobOf wally aeskey iv serialized).length ≤ ENCRYPTED_DATA_LEN SERIALIZED_KEY_LEN := by
    have most := saved.most
    rw [saved.blob_length lawful block, show ENCRYPTED_DATA_LEN SERIALIZED_KEY_LEN = 256 from rfl]
    simp only [AES_ENCRYPTED_LEN, AES_PADDED_LEN, SERIALIZED_KEY_LEN, BIP32_SERIALIZED_LEN, HMAC_SHA512_LEN,
      AES_BLOCK_LEN, HMAC_SHA256_LEN] at most ⊢
    omega
  rw [keychain_load_and_decrypt_blob, if_neg (by simp [saved.key]), Proc.wp_bind, wp_get,
    if_neg (by simp [keychain_has_pin, pin]), storage_decrement_counter]
  simp only [Proc.wp_bind, wp_onDevice]
  apply wp_works_get_counter works
  intro attempts device works same read
  have three := read 3 counter
  subst three
  rw [if_neg (by decide), Proc.wp_bind]
  apply wp_works_store_blob works (by decide)
  intro counted stored works
  simp only [↓reduceIte, Proc.wp_pure, Bool.not_true, Bool.false_eq_true, Proc.wp_bind, wp_onDevice]
  apply wp_works_read_blob works
  intro result answers works found
  have kept : counted.nvs_storage defaultMap BLOB_FIELD = some (blobOf wally aeskey iv serialized) := by
    rw [stored, bind_leaves _ _ (by decide), same, blob]
  rw [found _ kept fits]
  dsimp only
  rw [Proc.wp_bind]
  apply saved.wp_get_decrypted_payload lawful block
  intro log
  simp only [Proc.wp_bind, wp_onDevice]
  apply wp_works_store_blob works (by decide)
  intro restored _ works
  exact value _ rfl works

end

/-! ### The shapes -/

theorem element_lt {element : UInt32} (short : element &&& 0xFFFF0000 = 0) : element.toNat < 65536 := by
  have parts : element &&& (0xFFFF0000 ||| 0xFFFF) = element &&& 0xFFFF0000 ||| element &&& 0xFFFF :=
    UInt32.toBitVec_inj.mp BitVec.and_or_distrib_left
  have all : element &&& (0xFFFF0000 ||| 0xFFFF) = element := UInt32.and_neg_one
  have low : element = element &&& 0xFFFF := by
    rwa [all, short, UInt32.zero_or] at parts
  rw [low, UInt32.toNat_and]
  exact Nat.lt_of_le_of_lt Nat.and_le_right (by decide)

theorem join_element {element : UInt32} (short : element &&& 0xFFFF0000 = 0) :
    ((element >>> 8).toUInt8.toUInt32 <<< 8) + (element &&& 0xFF).toUInt8.toUInt32 = element := by
  have small := element_lt short
  apply UInt32.toNat_inj.mp
  have low : element.toNat &&& 255 = element.toNat % 256 := Nat.and_two_pow_sub_one_eq_mod _ 8
  simp only [UInt32.toNat_add, UInt32.toNat_shiftLeft, UInt8.toNat_toUInt32, UInt32.toNat_toUInt8, UInt32.toNat_shiftRight,
    UInt32.toNat_and, UInt32.toNat_ofNat, Nat.reduceMod, Nat.reducePow, low, Nat.shiftLeft_eq, Nat.shiftRight_eq_div_pow]
  omega

/-- Two bytes for each element, read back as they were written. -/
theorem unserializePath_serializePath {path : List UInt32} {bytes : Bytes} (written : serializePath path = some bytes) :
    unserializePath bytes = path ∧ bytes.length = 2 * path.length := by
  induction path generalizing bytes with
  | nil =>
    obtain rfl := Option.some.inj written
    exact ⟨rfl, rfl⟩
  | cons element rest ih =>
    simp only [serializePath, Option.bind_eq_bind, Option.bind_eq_some_iff, Option.pure_def, Option.some.injEq] at written
    obtain ⟨_, guarded, later, rest_written, rfl⟩ := written
    have short : element &&& 0xFFFF0000 = 0 := by
      by_contra long
      rw [guard, if_neg long] at guarded
      cases guarded
    obtain ⟨same, length⟩ := ih rest_written
    constructor
    · rw [unserializePath, join_element short, same]
    · rw [List.length_cons, List.length_cons, length, List.length_cons]
      omega

/-- The buffers have the sizes they are declared with. -/
structure Ram.Arrays (ram : Ram K) : Prop where
  mnemonic_entropy : ram.mnemonic_entropy.length = BIP39_ENTROPY_LEN_256
  slip39_master_secret : ram.slip39_master_secret.length = SLIP39_MASTER_SECRET_MAX
  gaservice_path : ∀ slot, (ram.keychain_slots slot).keydata.gaservice_path.length = GASERVICE_PATH_LEN
  master_unblinding_key : ∀ slot, (ram.keychain_slots slot).keydata.master_unblinding_key.length = HMAC_SHA512_LEN

/-- The cached bytes. -/
def Ram.entropy (ram : Ram K) : Bytes := ram.mnemonic_entropy.take ram.mnemonic_entropy_len
def Ram.secret (ram : Ram K) : Bytes := ram.slip39_master_secret.take ram.slip39_master_secret_len

variable (wally) in
/-- What a restart brings back of the state that was stored: the same entropy and no wallet,
    the wallet derived from the same master secret, or the same keys. -/
structure Restored (before after : Ram K) : Prop where
  entropy : before.mnemonic_entropy_len ≠ 0 → after.wallet = none ∧
    after.mnemonic_entropy_len = before.mnemonic_entropy_len ∧ after.entropy = before.entropy
  secret : before.mnemonic_entropy_len = 0 → before.slip39_master_secret_len ≠ 0 →
    ∃ keydata, (∀ jade, keychain_derive_from_seed wally before.secret jade = (.ok keydata, jade)) ∧
      after.wallet = some keydata ∧ after.mnemonic_entropy_len = 0
  keys : before.mnemonic_entropy_len = 0 → before.slip39_master_secret_len = 0 →
    ∃ stored loaded, before.wallet = some stored ∧ after.wallet = some loaded ∧ after.mnemonic_entropy_len = 0 ∧
      loaded.xpriv = stored.xpriv ∧ loaded.gaservice_path = stored.gaservice_path ∧
      loaded.master_unblinding_key = stored.master_unblinding_key

theorem derive_from_seed_eq {seed : Bytes} (some_seed : seed.length ≠ 0) (fits : seed.length ≤ BIP32_ENTROPY_LEN_512)
    {xpriv : K} (derived : wally.bip32_key_from_seed seed = some xpriv) :
    ∃ keydata, ∀ jade, keychain_derive_from_seed wally seed jade = (.ok keydata, jade) := by
  refine ⟨{
    gaservice_path := wallet_calculate_gaservice_path wally xpriv
    master_unblinding_key := wally.asset_blinding_key_from_seed seed
    seed := overwrite (zeros BIP32_ENTROPY_LEN_512) seed
    xpriv := xpriv
    seed_len := seed.length }, fun jade => ?_⟩
  have nonzero : (seed.length != 0) = true := by simpa using some_seed
  rw [keychain_derive_from_seed, nonzero, decide_eq_true fits, derived]
  rfl

theorem wp_of_eq {α : Type} {task : Task K α} {result : α} {left : Jade K} {post : α → Jade K → Prop}
    {halts : Halt Interrupt → Jade K → Prop} (runs : task jade = (.ok result, left)) (holds : post result left) :
    Proc.wp task post halts jade := by
  rw [Proc.wp, runs]
  exact holds

section
variable {before : Ram K} {halts : Halt Interrupt → Jade K → Prop} {n : Nat}

theorem take_length {buffer : Bytes} {len : Nat} (size : buffer.length = 32) (supported : len = 16 ∨ len = 32) :
    (buffer.take len).length = len := by
  rw [List.length_take, size]
  omega

theorem wp_restore_entropy (arrays : before.Arrays) (supported : before.mnemonic_entropy_len = BIP39_ENTROPY_LEN_128 ∨
    before.mnemonic_entropy_len = BIP39_ENTROPY_LEN_256) (empty : jade.ram.keychain_data = none) :
    Proc.wp (keychain_load.restore wally before.entropy) (fun ok left => ok = true ∧ Restored wally before left.ram)
      halts jade := by
  have length : before.entropy.length = before.mnemonic_entropy_len := take_length arrays.mnemonic_entropy supported
  have some_entropy : before.mnemonic_entropy_len ≠ 0 := by
    simp only [BIP39_ENTROPY_LEN_128, BIP39_ENTROPY_LEN_256] at supported
    omega
  rw [keychain_load.restore, length, if_pos supported, Proc.wp_bind, wp_modify, Proc.wp_pure]
  refine ⟨rfl, ?_, fun none => absurd none some_entropy, fun none => absurd none some_entropy⟩
  intro _
  refine ⟨by simp [Ram.wallet, empty], rfl, ?_⟩
  show (overwrite jade.ram.mnemonic_entropy before.entropy).take before.mnemonic_entropy_len = before.entropy
  rw [overwrite, List.take_left' length]

theorem wp_restore_secret (arrays : before.Arrays) (no_entropy : before.mnemonic_entropy_len = 0)
    (supported : before.slip39_master_secret_len = SLIP39_MASTER_SECRET_MIN ∨
      before.slip39_master_secret_len = SLIP39_MASTER_SECRET_MAX)
    (derivable : (wally.bip32_key_from_seed before.secret).isSome) (works : Works (n + 4) jade.device.answers) :
    Proc.wp (keychain_load.restore wally (SLIP39_BLOB_TAG :: before.secret))
      (fun ok left => ok = true ∧ Restored wally before left.ram) halts jade := by
  have length : before.secret.length = before.slip39_master_secret_len := take_length arrays.slip39_master_secret supported
  simp only [SLIP39_MASTER_SECRET_MIN, SLIP39_MASTER_SECRET_MAX] at supported
  obtain ⟨xpriv, derived⟩ := Option.isSome_iff_exists.mp derivable
  obtain ⟨keydata, derives⟩ := derive_from_seed_eq (by omega : before.secret.length ≠ 0)
    (by rw [length, BIP32_ENTROPY_LEN_512]; omega) derived
  have not_entropy : ¬ ((SLIP39_BLOB_TAG :: before.secret).length = BIP39_ENTROPY_LEN_128 ∨
      (SLIP39_BLOB_TAG :: before.secret).length = BIP39_ENTROPY_LEN_256) := by
    rw [List.length_cons, BIP39_ENTROPY_LEN_128, BIP39_ENTROPY_LEN_256]
    omega
  have not_keys : ¬ (SLIP39_BLOB_TAG :: before.secret).length = SERIALIZED_KEY_LEN := by
    rw [List.length_cons, show SERIALIZED_KEY_LEN = 206 from rfl]
    omega
  have tagged : (SLIP39_BLOB_TAG :: before.secret).length = SLIP39_BLOB_LEN SLIP39_MASTER_SECRET_MIN ∨
      (SLIP39_BLOB_TAG :: before.secret).length = SLIP39_BLOB_LEN SLIP39_MASTER_SECRET_MAX := by
    rw [List.length_cons, SLIP39_BLOB_LEN, SLIP39_BLOB_LEN, SLIP39_MASTER_SECRET_MIN, SLIP39_MASTER_SECRET_MAX]
    omega
  rw [keychain_load.restore, if_neg not_entropy, if_neg not_keys, if_pos ⟨tagged, rfl⟩, Proc.wp_bind]
  apply wp_of_eq (derives jade)
  rw [Proc.wp_bind]
  apply wp_works_keychain_set works
  intro left data keys no_entropy' _
  refine ⟨rfl, fun some_entropy => absurd no_entropy some_entropy, ?_, fun _ none => by omega⟩
  intro _ _
  exact ⟨keydata, derives, by simp [Ram.wallet, data, keys], no_entropy'⟩

theorem wp_restore_keys (lawful : wally.Lawful) (arrays : before.Arrays) {slot : Fin MAX_SEED_SLOTS} {path : Bytes}
    (no_entropy : before.mnemonic_entropy_len = 0) (no_secret : before.slip39_master_secret_len = 0)
    (data : before.keychain_data = some slot)
    (written : serializePath (before.keychain_slots slot).keydata.gaservice_path = some path)
    (works : Works (n + 4) jade.device.answers) :
    Proc.wp (keychain_load.restore wally (wally.bip32_key_serialize (before.keychain_slots slot).keydata.xpriv ++ path ++
      (before.keychain_slots slot).keydata.master_unblinding_key))
      (fun ok left => ok = true ∧ Restored wally before left.ram) halts jade := by
  obtain ⟨read, path_length⟩ := unserializePath_serializePath written
  rw [arrays.gaservice_path slot] at path_length
  have key_length := lawful.key_length (before.keychain_slots slot).keydata.xpriv
  have blinding_length := arrays.master_unblinding_key slot
  have unserializes := lawful.unserializes (before.keychain_slots slot).keydata.xpriv
  generalize wally.bip32_key_serialize (before.keychain_slots slot).keydata.xpriv = key at key_length unserializes ⊢
  generalize blinding : (before.keychain_slots slot).keydata.master_unblinding_key = blinding_key at blinding_length ⊢
  have length : (key ++ path ++ blinding_key).length = SERIALIZED_KEY_LEN := by
    rw [List.length_append, List.length_append, key_length, path_length, blinding_length]
    rfl
  have path_length' : path.length = HMAC_SHA512_LEN := path_length
  have first : (key ++ path ++ blinding_key).take BIP32_SERIALIZED_LEN = key := by
    rw [List.append_assoc, List.take_left' key_length]
  have second : ((key ++ path ++ blinding_key).drop BIP32_SERIALIZED_LEN).take HMAC_SHA512_LEN = path := by
    rw [List.append_assoc, List.drop_left' key_length, List.take_left' path_length']
  have third : (key ++ path ++ blinding_key).drop (BIP32_SERIALIZED_LEN + HMAC_SHA512_LEN) = blinding_key := by
    apply List.drop_left'
    rw [List.length_append, key_length, path_length']
  rw [keychain_load.restore, length, if_neg (by decide), if_pos rfl, unserialize, length]
  simp only [beq_self_eq_true, Proc.wp_bind, wp_keychain_ensure, ↓reduceIte, first, unserializes, wp_verified, Proc.wp_pure]
  apply wp_works_keychain_set works
  intro left data' keys no_entropy' _
  refine ⟨rfl, fun some_entropy => absurd no_entropy some_entropy, fun _ some_secret => absurd no_secret some_secret, ?_⟩
  intro _ _
  refine ⟨(before.keychain_slots slot).keydata, (left.ram.keychain_slots 0).keydata, by rw [Ram.wallet, data]; rfl,
    by rw [Ram.wallet, data']; rfl, no_entropy', by rw [keys], ?_, ?_⟩
  · rw [keys]
    exact (congrArg unserializePath second).trans read
  · rw [keys]
    exact third.trans blinding.symm

/-- Bytes written by `keychain_store` are told apart by `keychain_load`. -/
theorem wp_restore {serialized : Bytes} (lawful : wally.Lawful) (arrays : before.Arrays)
    (shape : Cleartext wally before serialized)
    (derivable : before.mnemonic_entropy_len = 0 → before.slip39_master_secret_len ≠ 0 →
      (wally.bip32_key_from_seed before.secret).isSome)
    (empty : jade.ram.keychain_data = none) (works : Works (n + 4) jade.device.answers) :
    Proc.wp (keychain_load.restore wally serialized) (fun ok left => ok = true ∧ Restored wally before left.ram)
      halts jade := by
  cases shape with
  | entropy supported => exact wp_restore_entropy arrays supported empty
  | secret no_entropy wallet supported =>
    have some_secret : before.slip39_master_secret_len ≠ 0 := by
      simp only [SLIP39_MASTER_SECRET_MIN, SLIP39_MASTER_SECRET_MAX] at supported
      omega
    exact wp_restore_secret arrays no_entropy supported (derivable no_entropy some_secret) works
  | keys no_entropy no_secret data written =>
    exact wp_restore_keys lawful arrays no_entropy no_secret data written works

end

/-! ### Round trip -/

/-- A blob whose HMAC does not verify under the key is not opened. -/
theorem wp_load_mismatch {aeskey : Bytes} (settled : Settled jade.ram)
    (mismatch : ∀ blob, jade.device.nvs_storage defaultMap BLOB_FIELD = some blob →
      HMAC_SHA256_LEN < blob.length ∧ ¬ Verifies wally aeskey blob) :
    Proc.wp (keychain_load wally aeskey) (fun ok left => ok = false ∧ Flagged jade.ram left.ram)
      (fun halt _ => halt = .error .power_cut) jade := by
  rw [keychain_load]
  by_cases key : aeskey.length ≠ AES_KEY_LEN_256
  · rw [if_pos key]
    exact ⟨rfl, flagged_refl _⟩
  rw [if_neg key]
  simp only [Proc.wp_bind, wp_get]
  split
  case isTrue => exact ⟨rfl, flagged_refl _⟩
  rw [Proc.wp_bind, wp_get]
  split
  case isTrue => exact ⟨rfl, flagged_refl _⟩
  rw [Proc.wp_bind]
  refine Proc.wp_mono (wp_load_and_decrypt_tried aeskey _) ?_ ?_
  · rintro result left ⟨flagged, opens⟩
    cases result with
    | none => exact ⟨rfl, flagged⟩
    | some serialized =>
      obtain ⟨blob, stored, unlocked⟩ := opens serialized rfl
      rw [opened, if_neg (mismatch blob stored).2] at unlocked
      cases unlocked
  · rintro halt left (cut | unsettled | ⟨blob, stored, short | verifies⟩)
    · exact cut
    · exact absurd settled unsettled
    · exact absurd (mismatch blob stored).1 (Nat.not_lt.mpr short)
    · exact absurd verifies (mismatch blob stored).2

/-- A state that was stored comes back. -/
theorem wp_load_saved {before : Ram K} {aeskey iv serialized : Bytes} {dev : Device} {n : Nat} (lawful : wally.Lawful)
    (arrays : before.Arrays) (block : iv.length = AES_BLOCK_LEN) (shape : Cleartext wally before serialized)
    (saved : Saved wally aeskey iv serialized dev)
    (derivable : before.mnemonic_entropy_len = 0 → before.slip39_master_secret_len ≠ 0 →
      (wally.bip32_key_from_seed before.secret).isSome)
    (empty : jade.ram.keychain_data = none) (nothing : jade.ram.mnemonic_entropy_len = 0)
    (pin : jade.ram.has_encrypted_blob = true) (memory : jade.device.nvs_storage = dev.durable)
    (works : Works (n + 14) jade.device.answers) :
    Proc.wp (keychain_load wally aeskey) (fun ok left => ok = true ∧ Restored wally before left.ram)
      (fun _ _ => False) jade := by
  rw [keychain_load, if_neg (not_not.mpr saved.key)]
  simp only [Proc.wp_bind, wp_get]
  rw [if_neg (by simp [empty, nothing]), Proc.wp_bind, wp_get, if_neg (by simp [keychain_has_pin, pin]), Proc.wp_bind]
  apply saved.wp_load_and_decrypt_blob lawful block works memory pin
  intro left same works
  exact wp_restore lawful arrays shape derivable (by rw [same, empty]) works

end

/-- After `keychain_store` returns true, a restart and `keychain_load` with the same key, on
    storage that works, return true with what was stored, in the shape it had. A key under
    which the HMAC of the stored blob does not verify loads nothing, in any state. -/
theorem stored_wallet_round_trip {K : Type} (wally : Wally K) (lawful : wally.Lawful) :
    (∀ (jade left : Jade K) (aeskey iv : Bytes) (boot load : List Answer), jade.ram.Arrays →
      iv.length = AES_BLOCK_LEN → keychain_store wally aeskey iv jade = (.ok true, left) →
      (jade.ram.mnemonic_entropy_len = 0 → jade.ram.slip39_master_secret_len ≠ 0 →
        (wally.bip32_key_from_seed jade.ram.secret).isSome) →
      Works 6 boot → Works 14 load →
      ∃ booted loaded, keychain_init_cache ((left.restart wally).answering boot) = (.ok (), booted) ∧
        keychain_load wally aeskey (booted.answering load) = (.ok true, loaded) ∧
        Restored wally jade.ram loaded.ram) ∧
    ∀ (jade : Jade K) (aeskey : Bytes), Settled jade.ram →
      (∀ blob, jade.device.nvs_storage defaultMap BLOB_FIELD = some blob →
        HMAC_SHA256_LEN < blob.length ∧ ¬ Verifies wally aeskey blob) →
      ∃ left, keychain_load wally aeskey jade = (.ok false, left) ∧ Flagged jade.ram left.ram ∨
        keychain_load wally aeskey jade = (.error (.error .power_cut), left) := by
  constructor
  · intro jade left aeskey iv boot load arrays block stored derivable boot_works load_works
    obtain ⟨serialized, shape, saved⟩ := Proc.post_of_wp wp_keychain_store_fields stored rfl
    have counter : ((left.restart wally).answering boot).device.nvs_storage defaultMap PIN_COUNTER_FIELD = some [3] :=
      saved.counter.durable
    have boots : Proc.wp keychain_init_cache (fun _ booted => ∃ network flags device,
        device.nvs_storage = left.device.durable ∧ booted = ⟨{ Ram.zero wally with
          network_type_restriction := network, has_encrypted_blob := true, key_flags := flags }, device⟩)
        (fun _ _ => False) ((left.restart wally).answering boot) := by
      apply @wp_works_init_cache _ _ _ 0 _ boot_works counter
      intro network flags device memory
      exact ⟨network, flags, device, memory, rfl⟩
    obtain ⟨_, _, runs, network, flags, device, memory, rfl⟩ := Proc.exists_of_wp boots
    have loads := @wp_load_saved _ wally (Jade.answering ⟨{ Ram.zero wally with
      network_type_restriction := network, has_encrypted_blob := true, key_flags := flags }, device⟩ load) _ _ _ _ _ 0 lawful
      arrays block shape saved derivable rfl rfl rfl memory load_works
    obtain ⟨_, loaded, load_runs, rfl, restored⟩ := Proc.exists_of_wp loads
    exact ⟨_, loaded, runs, load_runs, restored⟩
  · intro jade aeskey settled mismatch
    have outcome := wp_load_mismatch settled mismatch
    rw [Proc.wp] at outcome
    cases runs : keychain_load wally aeskey jade with
    | mk result left =>
      rw [runs] at outcome
      refine ⟨left, ?_⟩
      cases result with
      | ok ok =>
        obtain ⟨rfl, flagged⟩ := outcome
        exact .inl ⟨rfl, flagged⟩
      | error halt =>
        obtain rfl := outcome
        exact .inr rfl

/-! ### A plain library -/

/-- Padding as PKCS7 has it. -/
def pad (bytes : Bytes) : Bytes :=
  bytes ++ List.replicate (AES_BLOCK_LEN - bytes.length % AES_BLOCK_LEN)
    (UInt8.ofNat (AES_BLOCK_LEN - bytes.length % AES_BLOCK_LEN))

def unpad (bytes : Bytes) : Option Bytes := bytes.getLast?.map fun last => bytes.take (bytes.length - last.toNat)

/-- Keys are single bytes, encryption only pads, and an HMAC is the key. -/
def plainWally : Wally UInt8 where
  zero := 0
  bip32_key_serialize key := key :: zeros 77
  bip32_key_unserialize bytes := bytes.head?
  bip32_key_from_seed seed := seed.head?
  asset_blinding_key_from_seed _ := zeros HMAC_SHA512_LEN
  gaservice_digest _ := zeros HMAC_SHA512_LEN
  mnemonic_validate _ := true
  mnemonic_to_bytes mnemonic := some mnemonic
  mnemonic_from_bytes entropy := some entropy
  mnemonic_to_seed mnemonic passphrase := some ((mnemonic ++ passphrase ++ zeros 64).take 64)
  aes_cbc_encrypt _ _ bytes := pad bytes
  aes_cbc_decrypt _ _ bytes := unpad bytes
  hmac_sha256 aeskey _ := (aeskey ++ zeros 32).take 32

theorem unpad_pad (bytes : Bytes) : unpad (pad bytes) = some bytes := by
  have below : bytes.length % AES_BLOCK_LEN < AES_BLOCK_LEN := Nat.mod_lt _ (by decide)
  have positive : AES_BLOCK_LEN - bytes.length % AES_BLOCK_LEN ≠ 0 := by omega
  have small : AES_BLOCK_LEN - bytes.length % AES_BLOCK_LEN < 256 := by
    simp only [AES_BLOCK_LEN]
    omega
  have last : (pad bytes).getLast? = some (UInt8.ofNat (AES_BLOCK_LEN - bytes.length % AES_BLOCK_LEN)) := by
    rw [pad, List.getLast?_append, List.getLast?_replicate, if_neg positive]
    rfl
  rw [unpad, last, Option.map_some, UInt8.toNat_ofNat_of_lt' small, pad, List.length_append, List.length_replicate,
    Nat.add_sub_cancel, List.take_left]

theorem plainWally_lawful : plainWally.Lawful where
  decrypts _ _ bytes _ _ := unpad_pad bytes
  hmac_length _ _ := by
    show (List.take 32 (_ ++ zeros 32)).length = 32
    rw [List.length_take, List.length_append, zeros, List.length_replicate]
    omega
  key_length _ := rfl
  unserializes _ := rfl

/-- A wallet in the active slot, and the master secret it was made from. -/
def secretJade : Jade UInt8 where
  ram := { (Ram.zero plainWally).setSlot (Ram.zero plainWally).active_slot { Slot.zero plainWally with in_use := true } with
    keychain_data := some (Ram.zero plainWally).active_slot
    slip39_master_secret := List.replicate 16 7 ++ zeros 16
    slip39_master_secret_len := 16 }
  device := ⟨fun _ _ => none, fun _ _ => none, List.replicate 9 .ok, []⟩

def sampleKey : Bytes := List.replicate 32 1

theorem secretJade_arrays : secretJade.ram.Arrays where
  mnemonic_entropy := rfl
  slip39_master_secret := rfl
  gaservice_path := by decide
  master_unblinding_key := by decide

/-- A blob of zeros. -/
def blankContents : Contents := fun _ key =>
  if key = BLOB_FIELD then some (zeros 96) else if key = PIN_COUNTER_FIELD then some [3] else none

def blankJade : Jade UInt8 where
  ram := { Ram.zero plainWally with has_encrypted_blob := true }
  device := ⟨blankContents, blankContents, List.replicate 9 .ok, []⟩

theorem blankJade_mismatch (blob : Bytes) (stored : blankJade.device.nvs_storage defaultMap BLOB_FIELD = some blob) :
    HMAC_SHA256_LEN < blob.length ∧ ¬ Verifies plainWally sampleKey blob := by
  obtain rfl : zeros 96 = blob := Option.some.inj stored
  decide

theorem stored_wallet_round_trip_secret :
    (∃ booted loaded,
      keychain_init_cache (((keychain_store plainWally sampleKey (zeros 16) secretJade).2.restart plainWally).answering
        (List.replicate 6 .ok)) = (.ok (), booted) ∧
      keychain_load plainWally sampleKey (booted.answering (List.replicate 14 .ok)) = (.ok true, loaded) ∧
      Restored plainWally secretJade.ram loaded.ram) ∧
    ∃ left, keychain_load plainWally sampleKey blankJade = (.ok false, left) ∧ Flagged blankJade.ram left.ram ∨
      keychain_load plainWally sampleKey blankJade = (.error (.error .power_cut), left) := by
  obtain ⟨comes_back, refuses⟩ := stored_wallet_round_trip plainWally plainWally_lawful
  constructor
  · apply comes_back secretJade _ sampleKey (zeros 16) _ _ secretJade_arrays rfl
    · exact Prod.ext (rfl : _ = Except.ok true) rfl
    · exact fun _ _ => rfl
    · exact List.prefix_refl _
    · exact List.prefix_refl _
  · exact refuses blankJade sampleKey rfl blankJade_mismatch

end PiJade.Keychain
