import PiJade.KeychainRuns
import PiJade.StorageFields

/-!
The blob of a stored wallet. What `keychain_store` encrypts is cached entropy, a cached
master secret behind its tag, or serialised keys; when it returns true the store holds the
blob of one of these and all attempts. What a try to open the blob returns is what the blob
opens to, and nothing of the wallets changes before it is restored.
-/
namespace PiJade.Keychain
set_option linter.unusedSimpArgs false
open Storage

/-! ### Storing -/

section
variable {K : Type} (wally : Wally K)

/-- The wallet in use. -/
def Ram.wallet (ram : Ram K) : Option (Keydata K) := ram.keychain_data.map fun slot => (ram.keychain_slots slot).keydata

/-- The encrypted bytes, the iv before them. -/
def sealed (aeskey iv bytes : Bytes) : Bytes := iv ++ wally.aes_cbc_encrypt aeskey iv bytes

/-- The blob of some bytes: the HMAC follows what was encrypted. -/
def blobOf (aeskey iv bytes : Bytes) : Bytes :=
  sealed wally aeskey iv bytes ++ wally.hmac_sha256 aeskey (sealed wally aeskey iv bytes)

/-- What `keychain_store` writes: the shapes, in the order it tries them. -/
inductive Cleartext (ram : Ram K) : Bytes → Prop where
  | entropy : ram.mnemonic_entropy_len = BIP39_ENTROPY_LEN_128 ∨ ram.mnemonic_entropy_len = BIP39_ENTROPY_LEN_256 →
    Cleartext ram (ram.mnemonic_entropy.take ram.mnemonic_entropy_len)
  | secret : ram.mnemonic_entropy_len = 0 → ram.keychain_data.isSome →
    ram.slip39_master_secret_len = SLIP39_MASTER_SECRET_MIN ∨ ram.slip39_master_secret_len = SLIP39_MASTER_SECRET_MAX →
    Cleartext ram (SLIP39_BLOB_TAG :: ram.slip39_master_secret.take ram.slip39_master_secret_len)
  | keys {slot : Fin MAX_SEED_SLOTS} {path : Bytes} : ram.mnemonic_entropy_len = 0 → ram.slip39_master_secret_len = 0 →
    ram.keychain_data = some slot → serializePath (ram.keychain_slots slot).keydata.gaservice_path = some path →
    Cleartext ram (wally.bip32_key_serialize (ram.keychain_slots slot).keydata.xpriv ++ path ++
      (ram.keychain_slots slot).keydata.master_unblinding_key)

/-- The store holds the blob of some bytes, and all attempts. -/
structure Saved (aeskey iv serialized : Bytes) (dev : Device) : Prop where
  key : aeskey.length = AES_KEY_LEN_256
  positive : 0 < serialized.length
  most : serialized.length ≤ SERIALIZED_KEY_LEN
  padded : (wally.aes_cbc_encrypt aeskey iv serialized).length = AES_PADDED_LEN serialized.length
  counter : Field PIN_COUNTER_FIELD [3] dev
  blob : Field BLOB_FIELD (blobOf wally aeskey iv serialized) dev

variable {wally} {jade : Jade K}

theorem wp_get_encrypted_blob {aeskey iv bytes : Bytes} {post : Bytes → Jade K → Prop}
    {halts : Halt Interrupt → Jade K → Prop} (abort : halts .abort jade)
    (done : 0 < bytes.length → (wally.aes_cbc_encrypt aeskey iv bytes).length = AES_PADDED_LEN bytes.length →
      post (blobOf wally aeskey iv bytes) jade) :
    Proc.wp (get_encrypted_blob wally aeskey iv bytes) post halts jade := by
  simp only [get_encrypted_blob, aes_encrypt_bytes, Proc.wp_bind, wp_keychain_ensure, Proc.wp_pure]
  by_cases positive : bytes.length = 0
  · rw [if_neg (by simpa using positive)]
    exact abort
  · rw [if_pos (by simpa using positive)]
    by_cases padded : (wally.aes_cbc_encrypt aeskey iv bytes).length = AES_PADDED_LEN bytes.length
    · rw [if_pos (by simpa using padded)]
      exact done (Nat.pos_of_ne_zero positive) padded
    · rw [if_neg (by simpa using padded)]
      exact abort

theorem blobOf_length (wally : Wally K) (aeskey iv bytes : Bytes) :
    (blobOf wally aeskey iv bytes).length = iv.length + (wally.aes_cbc_encrypt aeskey iv bytes).length +
      (wally.hmac_sha256 aeskey (sealed wally aeskey iv bytes)).length := by
  rw [blobOf, List.length_append, sealed, List.length_append]

theorem wp_encrypt_and_save {aeskey iv bytes : Bytes} :
    Proc.wp (keychain_encrypt_and_save_blob wally aeskey iv bytes)
      (fun ok left => left.ram = jade.ram ∧ (ok = true → Saved wally aeskey iv bytes left.device)) (fun _ _ => True) jade := by
  rw [keychain_encrypt_and_save_blob]
  by_cases key : aeskey.length = AES_KEY_LEN_256
  · rw [if_neg (not_not.mpr key)]
    by_cases most : SERIALIZED_KEY_LEN < bytes.length
    · rw [if_pos most]
      exact ⟨rfl, fun impossible => by cases impossible⟩
    · rw [if_neg most, Proc.wp_bind]
      apply wp_get_encrypted_blob trivial
      intro positive padded
      have filled : 0 < (blobOf wally aeskey iv bytes).length := by
        rw [blobOf_length, padded, AES_PADDED_LEN, AES_BLOCK_LEN]
        omega
      rw [wp_onDevice]
      refine Proc.wp_mono (wp_set_encrypted_blob_fields filled) ?_ fun _ _ _ => trivial
      intro ok after fields
      refine ⟨rfl, ?_⟩
      intro done
      obtain ⟨counter, blob⟩ := fields done
      exact ⟨key, positive, Nat.le_of_not_lt most, padded, counter, blob⟩
  · rw [if_pos key]
    exact ⟨rfl, fun impossible => by cases impossible⟩

/-- No slot is flagged temporary while no wallet is loaded. -/
def Settled (ram : Ram K) : Prop := (ram.keychain_data.isSome || !ram.active.temporary) = true

theorem wp_has_temporary {post : Bool → Jade K → Prop} {halts : Halt Interrupt → Jade K → Prop}
    (abort : ¬ Settled jade.ram → halts .abort jade) (value : ∀ temporary, post temporary jade) :
    Proc.wp keychain_has_temporary post halts jade := by
  simp only [keychain_has_temporary, Proc.wp_bind, wp_get, wp_keychain_ensure, Proc.wp_pure]
  split
  case isTrue settled => exact value _
  case isFalse unsettled => exact abort unsettled

/-- The restriction is lifted; of the fields only its own is written. -/
theorem wp_clear_network_type_restriction :
    Proc.wp keychain_clear_network_type_restriction (fun _ left =>
      left.ram = { jade.ram with network_type_restriction := NETWORK_TYPE_NONE } ∧
        ∀ key, key ≠ NETWORK_TYPE_FIELD → Leaves key jade.device left.device)
      (fun halt _ => halt = .error .power_cut ∨ ¬ Settled jade.ram) jade := by
  rw [keychain_clear_network_type_restriction, Proc.wp_bind]
  apply wp_has_temporary
  · exact .inr
  · intro temporary
    cases temporary with
    | true => exact ⟨rfl, fun key _ => leaves_refl key jade.device⟩
    | false =>
      simp only [Bool.not_false, ↓reduceIte, Proc.wp_bind, wp_onDevice]
      have leaves : Proc.Keeps (fun dev after => ∀ key, key ≠ NETWORK_TYPE_FIELD → Leaves key dev after)
          (storage_set_network_type_restriction NETWORK_TYPE_NONE) := by
        intro dev key other
        exact leaves_store_blob _ other dev
      have cut : Proc.wp (storage_set_network_type_restriction NETWORK_TYPE_NONE) (fun _ _ => True)
          (fun halt _ => halt = .error .power_cut) jade.device :=
        Proc.wp_mono (wp_store_blob (by decide)) (fun _ _ _ => trivial) fun _ _ halted => halted
      refine Proc.wp_mono (Proc.wp_and (leaves.wp jade.device) cut) ?_ ?_
      · intro ok after both
        exact ⟨rfl, both.1⟩
      · intro halt after both
        exact .inl both.2

theorem wp_save_fields {aeskey iv serialized : Bytes} :
    Proc.wp (keychain_store.save wally aeskey iv serialized)
      (fun ok left => ok = true → Saved wally aeskey iv serialized left.device) (fun _ _ => True) jade := by
  rw [keychain_store.save, Proc.wp_bind]
  refine Proc.wp_mono wp_encrypt_and_save ?_ fun _ _ _ => trivial
  intro ok left saved
  cases ok with
  | false =>
    intro impossible
    cases impossible
  | true =>
    rw [if_pos rfl, Proc.wp_bind]
    refine Proc.wp_mono wp_clear_network_type_restriction ?_ fun _ _ _ => trivial
    intro _ cleared both _
    obtain ⟨key, positive, most, padded, counter, blob⟩ := saved.2 rfl
    exact ⟨key, positive, most, padded, (both.2 _ (by decide)).field counter, (both.2 _ (by decide)).field blob⟩

/-- After a successful store the blob of one of the shapes is kept. -/
theorem wp_keychain_store_fields {aeskey iv : Bytes} :
    Proc.wp (keychain_store wally aeskey iv) (fun ok left => ok = true →
      ∃ serialized, Cleartext wally jade.ram serialized ∧ Saved wally aeskey iv serialized left.device)
      (fun _ _ => True) jade := by
  have saves : ∀ serialized, Cleartext wally jade.ram serialized →
      Proc.wp (keychain_store.save wally aeskey iv serialized) (fun ok left => ok = true →
        ∃ serialized, Cleartext wally jade.ram serialized ∧ Saved wally aeskey iv serialized left.device)
        (fun _ _ => True) jade := by
    intro serialized shape
    refine Proc.wp_mono wp_save_fields ?_ fun _ _ _ => trivial
    intro ok left saved done
    exact ⟨serialized, shape, saved done⟩
  have refuses : Proc.wp (pure false : Task K Bool) (fun ok left => ok = true →
      ∃ serialized, Cleartext wally jade.ram serialized ∧ Saved wally aeskey iv serialized left.device)
      (fun _ _ => True) jade := fun impossible => by cases impossible
  rw [keychain_store]
  by_cases key : aeskey.length ≠ AES_KEY_LEN_256
  · rw [if_pos key]
    exact refuses
  · rw [if_neg key, Proc.wp_bind, wp_get, id]
    by_cases nothing : jade.ram.keychain_data.isNone ∧ jade.ram.mnemonic_entropy_len = 0
    · rw [if_pos nothing]
      exact refuses
    rw [if_neg nothing]
    by_cases entropy : jade.ram.mnemonic_entropy_len ≠ 0
    · rw [if_pos entropy, Proc.wp_bind, wp_keychain_ensure]
      by_cases supported : jade.ram.mnemonic_entropy_len = BIP39_ENTROPY_LEN_128 ∨
          jade.ram.mnemonic_entropy_len = BIP39_ENTROPY_LEN_256
      · rw [if_pos (by simpa using supported)]
        exact saves _ (.entropy supported)
      · rw [if_neg (by simpa using supported)]
        trivial
    rw [if_neg entropy]
    have no_entropy : jade.ram.mnemonic_entropy_len = 0 := not_not.mp entropy
    have wallet : jade.ram.keychain_data.isSome := by
      cases data : jade.ram.keychain_data with
      | none => exact absurd ⟨by rw [data]; rfl, no_entropy⟩ nothing
      | some slot => rfl
    by_cases secret : jade.ram.slip39_master_secret_len ≠ 0
    · rw [if_pos secret, Proc.wp_bind, wp_keychain_ensure]
      by_cases supported : jade.ram.slip39_master_secret_len = SLIP39_MASTER_SECRET_MIN ∨
          jade.ram.slip39_master_secret_len = SLIP39_MASTER_SECRET_MAX
      · rw [if_pos (by simpa using supported)]
        exact saves _ (.secret no_entropy wallet supported)
      · rw [if_neg (by simpa using supported)]
        trivial
    rw [if_neg secret]
    cases data : jade.ram.keychain_data with
    | none =>
      rw [data] at wallet
      cases wallet
    | some slot =>
      simp only [serialize, Proc.wp_bind, wp_verified]
      cases written : serializePath (jade.ram.keychain_slots slot).keydata.gaservice_path with
      | none => trivial
      | some path => exact saves _ (.keys no_entropy (not_not.mp secret) data written)

/-! ### Loading -/

variable (wally) in
/-- The HMAC at the tail of a blob is that of the bytes before it. -/
def Verifies (aeskey blob : Bytes) : Prop :=
  wally.hmac_sha256 aeskey (blob.take (blob.length - HMAC_SHA256_LEN)) = blob.drop (blob.length - HMAC_SHA256_LEN)

instance (aeskey blob : Bytes) : Decidable (Verifies wally aeskey blob) := inferInstanceAs (Decidable (_ = _))

variable (wally) in
/-- What a blob opens to. -/
def opened (aeskey blob : Bytes) : Option Bytes :=
  if Verifies wally aeskey blob then
    wally.aes_cbc_decrypt aeskey ((blob.take (blob.length - HMAC_SHA256_LEN)).take AES_BLOCK_LEN)
      ((blob.take (blob.length - HMAC_SHA256_LEN)).drop AES_BLOCK_LEN)
  else none

/-- Only the flag of a stored wallet and the network restriction may differ. -/
def Flagged (ram ram' : Ram K) : Prop :=
  ∃ network flag, ram' = { ram with network_type_restriction := network, has_encrypted_blob := flag }

theorem flagged_refl (ram : Ram K) : Flagged ram ram := ⟨ram.network_type_restriction, ram.has_encrypted_blob, rfl⟩

theorem flagged_flag (ram : Ram K) (flag : Bool) : Flagged ram { ram with has_encrypted_blob := flag } :=
  ⟨ram.network_type_restriction, flag, rfl⟩

theorem wp_keychain_cutOnly {α : Type} {code : Code α} (cutOnly : CutOnly code) {post : α → Jade K → Prop}
    {halts : Halt Interrupt → Jade K → Prop} (value : ∀ result device, post result { jade with device := device })
    (cut : ∀ device, halts (.error .power_cut) { jade with device := device }) :
    Proc.wp (onDevice code) post halts jade := by
  rw [wp_onDevice]
  refine Proc.wp_mono (cutOnly jade.device) (fun result device _ => value result device) ?_
  rintro halt device rfl
  exact cut device

/-- Where the tail does not verify nothing is decrypted. -/
theorem wp_get_decrypted_payload_opened {aeskey bytes : Bytes} {len : Nat} :
    Proc.wp (get_decrypted_payload wally aeskey bytes len)
      (fun result left => left.ram = jade.ram ∧ ∀ output, result = some output → opened wally aeskey bytes = some output)
      (fun _ _ => bytes.length ≤ HMAC_SHA256_LEN ∨ Verifies wally aeskey bytes) jade := by
  rw [get_decrypted_payload, Proc.wp_bind, wp_keychain_ensure]
  by_cases long : HMAC_SHA256_LEN < bytes.length
  · rw [if_pos (decide_eq_true long)]
    dsimp only
    rw [Proc.wp_bind, wp_record]
    by_cases verifies : Verifies wally aeskey bytes
    · have equal : wally.hmac_sha256 aeskey (bytes.take (bytes.length - HMAC_SHA256_LEN)) =
        bytes.drop (bytes.length - HMAC_SHA256_LEN) := verifies
      rw [if_neg (by simpa using equal)]
      simp only [aes_decrypt_bytes, Proc.wp_bind, wp_keychain_ensure]
      split
      case isFalse => exact .inr verifies
      split
      case isFalse => exact .inr verifies
      split
      case isFalse => exact .inr verifies
      cases decrypted : wally.aes_cbc_decrypt aeskey ((bytes.take (bytes.length - HMAC_SHA256_LEN)).take AES_BLOCK_LEN)
          ((bytes.take (bytes.length - HMAC_SHA256_LEN)).drop AES_BLOCK_LEN) with
      | none => exact ⟨rfl, fun _ impossible => by cases impossible⟩
      | some output =>
        by_cases fits : len < output.length
        · simp only [Proc.wp_pure, if_pos fits]
          exact ⟨trivial, fun _ impossible => by cases impossible⟩
        · simp only [Proc.wp_pure, if_neg fits, Proc.wp_bind, wp_record]
          refine ⟨trivial, ?_⟩
          rintro other ⟨⟩
          rw [opened, if_pos verifies, decrypted]
    · have differs : wally.hmac_sha256 aeskey (bytes.take (bytes.length - HMAC_SHA256_LEN)) ≠
        bytes.drop (bytes.length - HMAC_SHA256_LEN) := verifies
      rw [if_pos (by simpa using differs)]
      exact ⟨rfl, fun _ impossible => by cases impossible⟩
  · rw [if_neg (by simpa using long)]
    exact .inl (Nat.le_of_not_lt long)

variable (wally) in
/-- What comes of a try to open the stored blob: bytes it opens to, or nothing. -/
def Tried (aeskey : Bytes) (jade : Jade K) (result : Option Bytes) (left : Jade K) : Prop :=
  Flagged jade.ram left.ram ∧ ∀ serialized, result = some serialized →
    ∃ blob, jade.device.nvs_storage defaultMap BLOB_FIELD = some blob ∧ opened wally aeskey blob = some serialized

theorem tried_none {aeskey : Bytes} {left : Jade K} (flagged : Flagged jade.ram left.ram) :
    Tried wally aeskey jade none left := ⟨flagged, fun _ impossible => by cases impossible⟩

variable (wally) in
/-- Why a try may end early. -/
def Stops (aeskey : Bytes) (jade : Jade K) (halt : Halt Interrupt) : Prop :=
  halt = .error .power_cut ∨ ¬ Settled jade.ram ∨
    ∃ blob, jade.device.nvs_storage defaultMap BLOB_FIELD = some blob ∧
      (blob.length ≤ HMAC_SHA256_LEN ∨ Verifies wally aeskey blob)

theorem wp_refused_flagged {halts : Halt Interrupt → Jade K → Prop} (aeskey : Bytes) {between : Jade K}
    (same : between.ram = jade.ram) (cut : ∀ left, halts (.error .power_cut) left) :
    Proc.wp keychain_load_and_decrypt_blob.refused (Tried wally aeskey jade) halts between := by
  rw [keychain_load_and_decrypt_blob.refused, keychain_pin_attempts_remaining, Proc.wp_bind]
  apply wp_keychain_cutOnly cutOnly_get_counter
  · intro attempts device
    rw [Proc.wp_bind, wp_modify, Proc.wp_pure]
    apply tried_none
    rw [← same]
    exact flagged_flag _ _
  · intro device
    exact cut _

theorem wp_erase_encrypted_flagged {ram : Ram K} (same : jade.ram = ram) :
    Proc.wp keychain_erase_encrypted (fun _ left => Flagged ram left.ram)
      (fun halt _ => halt = .error .power_cut ∨ ¬ Settled ram) jade := by
  rw [keychain_erase_encrypted, Proc.wp_bind]
  apply wp_keychain_cutOnly cutOnly_erase_encrypted_blob
  · intro erased device
    rw [Proc.wp_bind]
    refine Proc.wp_mono wp_clear_network_type_restriction ?_ ?_
    · intro _ cleared both
      rw [Proc.wp_bind, wp_modify, Proc.wp_pure, both.1, same]
      exact ⟨NETWORK_TYPE_NONE, !erased, rfl⟩
    · intro halt left halted
      rw [← same]
      exact halted
  · intro device
    exact .inl rfl

/-- The blob that is opened is the one in memory before the call. -/
theorem wp_load_and_decrypt_tried (aeskey : Bytes) (len : Nat) :
    Proc.wp (keychain_load_and_decrypt_blob wally aeskey len) (Tried wally aeskey jade)
      (fun halt _ => Stops wally aeskey jade halt) jade := by
  rw [keychain_load_and_decrypt_blob]
  by_cases bad : aeskey.length ≠ AES_KEY_LEN_256 ∨ len < AES_PADDED_LEN SERIALIZED_KEY_LEN
  · rw [if_pos bad]
    exact tried_none (flagged_refl _)
  rw [if_neg bad, Proc.wp_bind, wp_get]
  by_cases pin : keychain_has_pin jade.ram = true
  case neg =>
    rw [if_pos (by simpa using pin)]
    exact wp_refused_flagged aeskey rfl fun _ => .inl rfl
  rw [if_neg (by simpa using pin), Proc.wp_bind, wp_onDevice]
  refine Proc.wp_mono wp_decrement_counter_blob ?_ fun _ _ halted => .inl halted
  intro ok counted blob
  cases ok with
  | false =>
    rw [if_pos (by decide)]
    exact wp_refused_flagged aeskey rfl fun _ => .inl rfl
  | true =>
    rw [if_neg (by decide), Proc.wp_bind, wp_onDevice]
    apply wp_read_blob
    · intro encrypted answers held _
      have stored : jade.device.nvs_storage defaultMap BLOB_FIELD = some encrypted := by
        rw [← blob rfl]
        exact held
      rw [Proc.wp_bind]
      refine Proc.wp_mono wp_get_decrypted_payload_opened ?_ fun _ _ halted => .inr (.inr ⟨encrypted, stored, halted⟩)
      rintro result left ⟨same, opens⟩
      cases result with
      | none =>
        dsimp only
        rw [Proc.wp_bind, keychain_pin_attempts_remaining]
        apply wp_keychain_cutOnly cutOnly_get_counter
        · intro attempts device
          by_cases exhausted : (attempts == 0) = true
          · rw [if_pos exhausted, Proc.wp_bind]
            refine Proc.wp_mono (wp_erase_encrypted_flagged same) ?_ ?_
            · intro _ erased flagged
              exact tried_none flagged
            · rintro halt _ (cut | unsettled)
              · exact .inl cut
              · exact .inr (.inl unsettled)
          · rw [if_neg exhausted]
            apply tried_none
            rw [← same]
            exact flagged_refl _
        · intro device
          exact .inl rfl
      | some serialized =>
        dsimp only
        rw [Proc.wp_bind]
        apply wp_keychain_cutOnly (cutOnly_store_blob (by decide))
        · intro _ device
          refine ⟨?_, ?_⟩
          · rw [← same]
            exact flagged_refl _
          · rintro other ⟨⟩
            exact ⟨encrypted, stored, opens serialized rfl⟩
        · intro device
          exact .inl rfl
    · intro answers
      rw [Proc.wp_bind]
      apply wp_keychain_cutOnly cutOnly_erase_encrypted_blob
      · intro erased device
        exact tried_none (flagged_flag _ _)
      · intro device
        exact .inl rfl
    · intro answers
      exact .inl rfl

end

end PiJade.Keychain
