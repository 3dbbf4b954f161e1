import PiJade.KeychainRoundTrip
import PiJade.MultisigExport
import PiJade.RegistrationCodec

/-!
Registered records, sealed and opened. A seal opens to the body it was put around; a record
of another length, under another HMAC or of another version is refused, and no assertion is
reached. Together with the codecs of the bodies this says what is kept of a wallet.
-/
namespace PiJade.Registration
open Wallet (Path MAX_PATH_LEN BIP32_INITIAL_HARDENED_CHILD)
open Keychain (AES_BLOCK_LEN AES_KEY_LEN_256 AES_PADDED_LEN AES_ENCRYPTED_LEN HMAC_SHA256_LEN)
open Multisig (Signer Codecs MAX_ALLOWED_SIGNERS BIP32_KEY_FINGERPRINT_LEN BIP32_SERIALIZED_LEN XPUB_LEN)
open Walk (Decodes Exact Within)
set_option linter.unusedSimpArgs false

/-! ### The seal -/

/-- What the seal relies on: encryption pads to whole blocks and decryption undoes it, and an
    HMAC has its length. -/
structure Ciphers.Lawful (ciphers : Ciphers) : Prop where
  padded : ∀ aeskey iv bytes, (ciphers.aes_cbc_encrypt aeskey iv bytes).length = AES_PADDED_LEN bytes.length
  decrypts : ∀ aeskey iv bytes, aeskey.length = AES_KEY_LEN_256 → iv.length = AES_BLOCK_LEN →
    ciphers.aes_cbc_decrypt aeskey iv (ciphers.aes_cbc_encrypt aeskey iv bytes) = some bytes
  hmac_length : ∀ key bytes, (ciphers.hmac_sha256 key bytes).length = HMAC_SHA256_LEN

section
variable {ciphers : Ciphers} {priv_key : Bytes}

/-- The version and the encrypted body. -/
def sealedFront (ciphers : Ciphers) (priv_key iv : Bytes) (version : UInt8) (body : Bytes) : Bytes :=
  version :: (iv ++ ciphers.aes_cbc_encrypt (ciphers.hmac_sha256 priv_key REGISTRATION_KEY_LABEL) iv body)

theorem wallet_hmac_eq {data : Bytes} (filled : data ≠ []) :
    wallet_hmac_with_master_key ciphers (some priv_key) data = .ok (ciphers.hmac_sha256 priv_key data) := by
  simp [wallet_hmac_with_master_key, filled]

theorem label_filled : REGISTRATION_KEY_LABEL ≠ [] := by
  simp [REGISTRATION_KEY_LABEL, SettingsCodec.ascii]

theorem registration_seal_eq (lawful : ciphers.Lawful) {iv body : Bytes} {version : UInt8} (filled : 0 < body.length) :
    registration_seal ciphers (some priv_key) iv version body (REGISTRATION_SEALED_LEN body.length) =
      .ok (sealedFront ciphers priv_key iv version body ++
        ciphers.hmac_sha256 priv_key (sealedFront ciphers priv_key iv version body)) := by
  have nonzero : body.length ≠ 0 := Nat.ne_of_gt filled
  have key_length : (ciphers.hmac_sha256 priv_key REGISTRATION_KEY_LABEL).length = AES_KEY_LEN_256 := lawful.hmac_length _ _
  rw [registration_seal]
  simp only [nonzero, wallet_hmac_eq label_filled, aes_encrypt_bytes, key_length, lawful.padded, ne_eq, not_false_iff,
    decide_true, Check.ensure_true, Check.ok_bind, Check.pure_eq, sealedFront,
    wallet_hmac_eq (List.cons_ne_nil version _)]

theorem length_sealedFront (lawful : ciphers.Lawful) {iv body : Bytes} {version : UInt8} (block : iv.length = AES_BLOCK_LEN) :
    (sealedFront ciphers priv_key iv version body).length = 1 + AES_ENCRYPTED_LEN body.length := by
  rw [sealedFront, List.length_cons, List.length_append, block, lawful.padded, AES_ENCRYPTED_LEN]
  omega

/-- What a seal that was made consists of. -/
theorem registration_seal_made (lawful : ciphers.Lawful) {iv body record : Bytes} {version : UInt8} {output_len : Nat}
    (made : registration_seal ciphers (some priv_key) iv version body output_len = .ok record) :
    0 < body.length ∧ output_len = REGISTRATION_SEALED_LEN body.length ∧
      record = sealedFront ciphers priv_key iv version body ++
        ciphers.hmac_sha256 priv_key (sealedFront ciphers priv_key iv version body) := by
  have checked : 0 < body.length ∧ output_len = REGISTRATION_SEALED_LEN body.length := by
    rw [registration_seal, Check.bind_eq_ok] at made
    obtain ⟨_, filled, rest⟩ := made
    rw [Check.bind_eq_ok] at rest
    obtain ⟨_, size, _⟩ := rest
    exact ⟨Nat.pos_of_ne_zero (by simpa using ensure_eq_ok.mp filled), by simpa using ensure_eq_ok.mp size⟩
  rw [checked.2, registration_seal_eq lawful checked.1] at made
  cases made
  exact ⟨checked.1, checked.2, rfl⟩

/-- A seal opens to the body it was put around. -/
theorem registration_open_seal (lawful : ciphers.Lawful) {iv body record : Bytes} {version : UInt8} {body_len output_len : Nat}
    (block : iv.length = AES_BLOCK_LEN) (room : body.length ≤ body_len)
    (made : registration_seal ciphers (some priv_key) iv version body output_len = .ok record) :
    registration_open ciphers (some priv_key) version record body_len = .ok body := by
  obtain ⟨filled, -, rfl⟩ := registration_seal_made lawful made
  have front_length : (sealedFront ciphers priv_key iv version body).length = 1 + AES_ENCRYPTED_LEN body.length :=
    length_sealedFront lawful block
  have key_length : (ciphers.hmac_sha256 priv_key REGISTRATION_KEY_LABEL).length = AES_KEY_LEN_256 := lawful.hmac_length _ _
  generalize front_eq : sealedFront ciphers priv_key iv version body = front at front_length ⊢
  have whole : (front ++ ciphers.hmac_sha256 priv_key front).length = REGISTRATION_SEALED_LEN body.length := by
    rw [List.length_append, front_length, lawful.hmac_length, REGISTRATION_SEALED_LEN]
  have front_size : (front ++ ciphers.hmac_sha256 priv_key front).length - HMAC_SHA256_LEN = front.length := by
    rw [List.length_append, lawful.hmac_length]
    omega
  have passes : ¬ (REGISTRATION_SEALED_LEN body.length < REGISTRATION_MIN_SEALED_LEN ∨
      (REGISTRATION_SEALED_LEN body.length - REGISTRATION_MIN_SEALED_LEN) % AES_BLOCK_LEN ≠ 0) := by
    simp only [REGISTRATION_MIN_SEALED_LEN, REGISTRATION_SEALED_LEN, AES_ENCRYPTED_LEN, AES_PADDED_LEN, AES_BLOCK_LEN,
      HMAC_SHA256_LEN]
    omega
  have front_filled : front ≠ [] := by
    rintro rfl
    rw [List.length_nil] at front_length
    omega
  have version_at : (front ++ ciphers.hmac_sha256 priv_key front).head? = some version := by
    rw [← front_eq]
    rfl
  have encrypted_eq : front.drop 1 =
      iv ++ ciphers.aes_cbc_encrypt (ciphers.hmac_sha256 priv_key REGISTRATION_KEY_LABEL) iv body := by
    rw [← front_eq]
    rfl
  rw [registration_open]
  rw [whole] at front_size ⊢
  rw [if_neg passes, front_size, List.take_left, List.drop_left, version_at]
  simp only [wallet_hmac_eq front_filled, wallet_hmac_eq label_filled, encrypted_eq, decide_true, accept_true,
    Check.ok_bind, aes_decrypt_bytes, key_length, Check.ensure_true]
  rw [List.take_left' block, List.drop_left' block, lawful.decrypts _ _ _ key_length block, List.length_append, block,
    lawful.padded]
  have positive : body_len ≠ 0 := by omega
  have grows : AES_PADDED_LEN body.length ≤ AES_PADDED_LEN body_len :=
    Nat.mul_le_mul_right _ (Nat.succ_le_succ (Nat.div_le_div_right room))
  have blocks : AES_PADDED_LEN body.length % AES_BLOCK_LEN = 0 ∧ 0 < AES_PADDED_LEN body.length := by
    simp only [AES_PADDED_LEN, AES_BLOCK_LEN]
    omega
  have enough : ¬ body_len < body.length := Nat.not_lt.mpr room
  simp [positive, grows, blocks.1, blocks.2, enough]

/-- A record of another length, under another HMAC or of another version. -/
def Foreign (ciphers : Ciphers) (priv_key : Bytes) (expected_version : UInt8) (bytes : Bytes) : Prop :=
  bytes.length < REGISTRATION_MIN_SEALED_LEN ∨ (bytes.length - REGISTRATION_MIN_SEALED_LEN) % AES_BLOCK_LEN ≠ 0 ∨
    bytes.drop (bytes.length - HMAC_SHA256_LEN) ≠
      ciphers.hmac_sha256 priv_key (bytes.take (bytes.length - HMAC_SHA256_LEN)) ∨
    bytes.head? ≠ some expected_version

theorem registration_open_foreign {expected_version : UInt8} {bytes : Bytes} {body_len : Nat} (room : 0 < body_len)
    (foreign : Foreign ciphers priv_key expected_version bytes) :
    registration_open ciphers (some priv_key) expected_version bytes body_len = refused := by
  have positive : body_len ≠ 0 := by omega
  rw [registration_open]
  by_cases gate : bytes.length < REGISTRATION_MIN_SEALED_LEN ∨
      (bytes.length - REGISTRATION_MIN_SEALED_LEN) % AES_BLOCK_LEN ≠ 0
  · rw [if_pos gate]
    simp [positive]
  · have long : HMAC_SHA256_LEN < bytes.length := by
      rw [not_or, Nat.not_lt] at gate
      exact Nat.lt_of_lt_of_le (by decide) gate.1
    have front_filled : bytes.take (bytes.length - HMAC_SHA256_LEN) ≠ [] := by
      intro empty
      have none_left := congrArg List.length empty
      rw [List.length_take, List.length_nil] at none_left
      omega
    rw [if_neg gate]
    simp only [wallet_hmac_eq front_filled]
    by_cases hmac : bytes.drop (bytes.length - HMAC_SHA256_LEN) =
        ciphers.hmac_sha256 priv_key (bytes.take (bytes.length - HMAC_SHA256_LEN))
    · have other : bytes.head? ≠ some expected_version := by
        obtain short | blocks | wrong | other := foreign
        · exact absurd (.inl short) gate
        · exact absurd (.inr blocks) gate
        · exact absurd hmac wrong
        · exact other
      simp [positive, hmac, other, refused]
    · simp [positive, hmac, refused]

end

/-! ### Records -/

section
variable {K : Type} {codecs : Codecs} {keys : HdKeys K} {ciphers : Ciphers} {priv_key : Bytes}

/-- What a multisig is read as. -/
def Definition.data (codecs : Codecs) (keys : HdKeys K) (multisig : Definition) : MultisigData :=
  { variant := multisig.variant, sorted := multisig.sorted, threshold := multisig.threshold.toUInt8,
    master_blinding_key := multisig.master_blinding_key,
    xpubs := multisig.signers.map (derivedXpub codecs keys), signer_details := multisig.signers }

/-- What a multisig was registered as, from what is read of it. -/
def MultisigData.definition (multisig : MultisigData) : Definition :=
  { variant := multisig.variant, sorted := multisig.sorted, threshold := multisig.threshold.toUInt32,
    master_blinding_key := multisig.master_blinding_key, signers := multisig.signer_details }

/-- The body of a multisig and that of a descriptor are read back, from a buffer with anything
    behind them, and a seal opens to the body; what the readers accept is a code of what they
    return; they do not read behind a buffer of the largest size; and foreign records are
    refused. -/
structure Kept (codecs : Codecs) (keys : HdKeys K) (ciphers : Ciphers) (priv_key : Bytes) : Prop where
  multisig : ∀ multisig total body_len body, multisig_body_to_bytes codecs multisig total body_len = .ok body →
    (∀ signer ∈ multisig.signers, Held signer) → (∀ signer ∈ multisig.signers, Derivable codecs keys signer) →
    (multisig.threshold.toUInt8.toNat = multisig.threshold.toNat ∧
      0 < body.length ∧ body.length ≤ MAX_MULTISIG_BODY_LEN) ∧
    ∀ rest signer_details_len, multisig.signers.length ≤ signer_details_len →
      multisig_body_from_bytes codecs keys (body ++ rest) body.length signer_details_len = .ok (multisig.data codecs keys)
  descriptor : ∀ descriptor body_len body, descriptor_body_to_bytes descriptor body_len = .ok body → descriptor.Held →
    (0 < body.length ∧ body.length ≤ MAX_DESCRIPTOR_BODY_LEN) ∧
    ∀ rest, descriptor_body_from_bytes (body ++ rest) body.length = .ok descriptor
  opens : ∀ version iv body body_len, iv.length = AES_BLOCK_LEN → 0 < body.length → body.length ≤ body_len →
    ∃ record, registration_seal ciphers (some priv_key) iv version body (REGISTRATION_SEALED_LEN body.length) = .ok record ∧
      registration_open ciphers (some priv_key) version record body_len = .ok body
  multisig_exact : ∀ buffer body_len signer_details_len multisig,
    multisig_body_from_bytes codecs keys buffer body_len signer_details_len = .ok multisig →
    multisig.xpubs.length ≤ signer_details_len →
    ∃ flag : UInt8, multisig.sorted = (flag != 0) ∧
      buffer.take body_len = multisigCode codecs multisig.variant flag multisig.threshold multisig.master_blinding_key
        multisig.signer_details ∧
      (flag ≤ 1 → 0 < multisig.threshold.toNat → multisig.threshold.toNat ≤ multisig.xpubs.length →
        multisig_body_to_bytes codecs multisig.definition (pathElements multisig.signer_details)
          (MULTISIG_BODY_LEN multisig.master_blinding_key.length multisig.signer_details.length
            (pathElements multisig.signer_details)) = .ok (buffer.take body_len))
  descriptor_exact : ∀ buffer body_len descriptor, descriptor_body_from_bytes buffer body_len = .ok descriptor →
    buffer.take body_len = descriptorCode descriptor ∧
      (0 < descriptor.script.length →
        descriptor_body_to_bytes descriptor (DESCRIPTOR_BODY_LEN descriptor) = .ok (buffer.take body_len))
  multisig_within : ∀ buffer body_len signer_details_len, buffer.length = MAX_MULTISIG_BODY_LEN →
    multisig_body_from_bytes codecs keys buffer body_len signer_details_len ≠ .error (.error .overread)
  descriptor_within : ∀ buffer body_len, buffer.length = MAX_DESCRIPTOR_BODY_LEN →
    descriptor_body_from_bytes buffer body_len ≠ .error (.error .overread)
  refuses : ∀ expected_version bytes body_len, 0 < body_len → Foreign ciphers priv_key expected_version bytes →
    registration_open ciphers (some priv_key) expected_version bytes body_len = refused

/-- The code of a multisig is read, whatever byte stands for the flag. -/
theorem read_multisigCode (variant flag threshold : UInt8) (base58 : Base58 codecs) {key : Bytes} {signers : List Signer}
    (size : key.length = 0 ∨ key.length = MULTISIG_MASTER_BLINDING_KEY_SIZE) (positive : 0 < signers.length)
    (few : signers.length ≤ MAX_ALLOWED_SIGNERS) (held : ∀ signer ∈ signers, Held signer)
    (writable : ∀ signer ∈ signers, Writable codecs signer) (derivable : ∀ signer ∈ signers, Derivable codecs keys signer)
    {rest : Bytes} {signer_details_len : Nat} (wanted : signers.length ≤ signer_details_len) :
    multisig_body_from_bytes codecs keys (multisigCode codecs variant flag threshold key signers ++ rest)
        (multisigCode codecs variant flag threshold key signers).length signer_details_len =
      .ok { variant := variant, sorted := flag != 0, threshold := threshold, master_blinding_key := key,
            xpubs := signers.map (derivedXpub codecs keys), signer_details := signers } := by
  have read : Decodes _ (readMultisig codecs keys (multisigCode codecs variant flag threshold key signers).length _) _ _ :=
    decodes_readMultisig variant flag threshold base58 size positive few wanted held writable derivable
  have long : ¬ (multisigCode codecs variant flag threshold key signers).length < MIN_MULTISIG_BODY_LEN := by
    simp only [multisigCode, List.length_append, List.length_cons, List.length_nil, length_signerCodes held writable,
      MIN_MULTISIG_BODY_LEN, BIP32_SERIALIZED_LEN, BIP32_KEY_FINGERPRINT_LEN]
    omega
  rw [multisig_body_from_bytes, if_neg long, read.all]
  rfl

theorem multisig_read_back (base58 : Base58 codecs) {multisig : Definition} {total body_len : Nat} {body : Bytes}
    (written : multisig_body_to_bytes codecs multisig total body_len = .ok body)
    (held : ∀ signer ∈ multisig.signers, Held signer) (derivable : ∀ signer ∈ multisig.signers, Derivable codecs keys signer)
    {rest : Bytes} {signer_details_len : Nat} (wanted : multisig.signers.length ≤ signer_details_len) :
    multisig_body_from_bytes codecs keys (body ++ rest) body.length signer_details_len = .ok (multisig.data codecs keys) := by
  obtain ⟨accepted, rfl, _⟩ := multisig_body_to_bytes_ok written
  have positive : 0 < multisig.signers.length := Nat.lt_of_lt_of_le accepted.positive accepted.threshold
  have flag : (flagByte multisig.sorted != 0) = multisig.sorted := by
    cases multisig.sorted <;> rfl
  rw [read_multisigCode _ _ _ base58 accepted.key positive accepted.signers_length held accepted.signers derivable wanted,
    flag]
  rfl

/-- The threshold and the body of a multisig fit where they are kept. -/
theorem multisig_fits {multisig : Definition} {total body_len : Nat} {body : Bytes}
    (written : multisig_body_to_bytes codecs multisig total body_len = .ok body) :
    multisig.threshold.toUInt8.toNat = multisig.threshold.toNat ∧ 0 < body.length ∧
      body.length ≤ MAX_MULTISIG_BODY_LEN := by
  obtain ⟨accepted, _, size, most⟩ := multisig_body_to_bytes_ok written
  have threshold := accepted.threshold
  have few := accepted.signers_length
  have key := accepted.key
  rw [MAX_ALLOWED_SIGNERS] at few
  rw [MAX_PATH_LEN] at most
  rw [MULTISIG_MASTER_BLINDING_KEY_SIZE] at key
  refine ⟨?_, ?_, ?_⟩
  · rw [UInt32.toNat_toUInt8]
    omega
  · rw [size, MULTISIG_BODY_LEN]
    omega
  · rw [size, show MAX_MULTISIG_BODY_LEN = 3217 from rfl, MULTISIG_BODY_LEN, BIP32_SERIALIZED_LEN]
    omega

theorem multisig_exactly (base58 : Base58 codecs) {buffer : Bytes} {body_len signer_details_len : Nat}
    {multisig : MultisigData}
    (read : multisig_body_from_bytes codecs keys buffer body_len signer_details_len = .ok multisig) :
    MultisigCode codecs signer_details_len multisig (buffer.take body_len) := by
  rw [multisig_body_from_bytes] at read
  split at read
  case isTrue => cases read
  case isFalse =>
    obtain ⟨walked, walk, same⟩ := Check.bind_eq_ok.mp read
    cases same
    exact (exact_readMultisig base58 body_len signer_details_len).all walk

theorem descriptor_exactly {buffer : Bytes} {body_len : Nat} {descriptor : Descriptor}
    (read : descriptor_body_from_bytes buffer body_len = .ok descriptor) :
    descriptor.Held ∧ descriptor.values.length ≤ MAX_ALLOWED_SIGNERS ∧ buffer.take body_len = descriptorCode descriptor := by
  rw [descriptor_body_from_bytes] at read
  split at read
  case isTrue => cases read
  case isFalse =>
    obtain ⟨walked, walk, same⟩ := Check.bind_eq_ok.mp read
    cases same
    exact (exact_readDescriptor body_len).all walk

theorem descriptor_read_back {descriptor : Descriptor} {body_len : Nat} {body : Bytes}
    (written : descriptor_body_to_bytes descriptor body_len = .ok body) (held : descriptor.Held) (rest : Bytes) :
    descriptor_body_from_bytes (body ++ rest) body.length = .ok descriptor := by
  obtain ⟨_, script, few, rfl⟩ := descriptor_body_to_bytes_eq_ok.mp written
  have read : Decodes _ (readDescriptor (descriptorCode descriptor).length) _ _ := decodes_readDescriptor held few
  have long : ¬ (descriptorCode descriptor).length < MIN_DESCRIPTOR_BODY_LEN := by
    rw [length_descriptorCode, DESCRIPTOR_BODY_LEN, MIN_DESCRIPTOR_BODY_LEN]
    omega
  rw [descriptor_body_from_bytes, if_neg long, read.all]
  rfl

theorem string_values_len_le {values : List DescriptorText.StringValue}
    (key : ∀ entry ∈ values, entry.key.length < KEY_SIZE) (value : ∀ entry ∈ values, entry.value.length < VALUE_SIZE) :
    string_values_len values ≤ values.length * (VALUE_SIZE + KEY_SIZE) := by
  induction values with
  | nil => exact Nat.zero_le _
  | cons entry later ih =>
    obtain ⟨firstKey, otherKeys⟩ := List.forall_mem_cons.mp key
    obtain ⟨firstValue, otherValues⟩ := List.forall_mem_cons.mp value
    have split : string_values_len (entry :: later) = entry.key.length + entry.value.length + string_values_len later := rfl
    have here := ih otherKeys otherValues
    rw [split, List.length_cons, Nat.succ_mul]
    omega

theorem descriptor_fits {descriptor : Descriptor} {body_len : Nat} {body : Bytes}
    (written : descriptor_body_to_bytes descriptor body_len = .ok body) (held : descriptor.Held) :
    0 < body.length ∧ body.length ≤ MAX_DESCRIPTOR_BODY_LEN := by
  obtain ⟨_, _, few, rfl⟩ := descriptor_body_to_bytes_eq_ok.mp written
  have script := held.script
  have strings := string_values_len_le held.key held.value
  rw [length_descriptorCode, DESCRIPTOR_BODY_LEN, show MAX_DESCRIPTOR_BODY_LEN = 3216 from rfl]
  rw [MAX_ALLOWED_SIGNERS] at few
  rw [SCRIPT_SIZE] at script
  rw [show VALUE_SIZE + KEY_SIZE = 176 from rfl] at strings
  omega

/-- A reader that needs no more than there is does not read behind it. -/
theorem within_buffer {α : Type} {walk : Walk α} {len fin : Nat} {buffer : Bytes} (enough : Within walk len)
    (room : len ≤ buffer.length) {c : Check Fault α}
    (reads : c = refused ∨ c = Prod.fst <$> (walk >>= fun a => Walk.ends fin >>= fun _ => pure a) buffer 0) :
    c ≠ .error (.error .overread) := by
  obtain rfl | rfl := reads
  · simp [refused]
  · have here := enough buffer 0 (by omega)
    rw [Walk.bind_apply]
    cases walked : walk buffer 0 with
    | error h =>
      rw [walked] at here
      simpa using here
    | ok read =>
      by_cases at_end : read.2 = fin
      · simp [Walk.bind_apply, Walk.ends, at_end, Walk.pure_apply]
      · simp [Walk.bind_apply, Walk.ends, at_end]

theorem multisig_body_from_bytes_within (base58 : Base58 codecs) {buffer : Bytes} (body_len signer_details_len : Nat)
    (size : buffer.length = MAX_MULTISIG_BODY_LEN) :
    multisig_body_from_bytes codecs keys buffer body_len signer_details_len ≠ .error (.error .overread) := by
  apply within_buffer (within_readMultisig base58 body_len signer_details_len) (Nat.le_of_eq size.symm)
  rw [multisig_body_from_bytes]
  split
  case isTrue => exact .inl rfl
  case isFalse => exact .inr rfl

theorem descriptor_body_from_bytes_within {buffer : Bytes} (body_len : Nat)
    (size : buffer.length = MAX_DESCRIPTOR_BODY_LEN) :
    descriptor_body_from_bytes buffer body_len ≠ .error (.error .overread) := by
  apply within_buffer (within_readDescriptor body_len) (Nat.le_of_eq size.symm)
  rw [descriptor_body_from_bytes]
  split
  case isTrue => exact .inl rfl
  case isFalse => exact .inr rfl

theorem flagByte_of_le {flag : UInt8} (bit : flag ≤ 1) : flagByte (flag != 0) = flag := by
  by_cases zero : flag = 0
  · rw [zero]
    rfl
  · have one : flag = 1 := by
      apply UInt8.toNat_inj.mp
      have most : flag.toNat ≤ 1 := UInt8.le_iff_toNat_le.mp bit
      have positive : flag.toNat ≠ 0 := fun none_set => zero (UInt8.toNat_inj.mp none_set)
      rw [UInt8.toNat_one]
      omega
    rw [one]
    rfl

/-- What was read of a multisig is written as it stood, where its flag is a bit and its
    threshold can be met. -/
theorem MultisigCode.written {multisig : MultisigData} {code : Bytes} {signer_details_len : Nat}
    (read : MultisigCode codecs signer_details_len multisig code) (wanted : multisig.xpubs.length ≤ signer_details_len) :
    ∃ flag : UInt8, multisig.sorted = (flag != 0) ∧
      code = multisigCode codecs multisig.variant flag multisig.threshold multisig.master_blinding_key
        multisig.signer_details ∧
      (flag ≤ 1 → 0 < multisig.threshold.toNat → multisig.threshold.toNat ≤ multisig.xpubs.length →
        multisig_body_to_bytes codecs multisig.definition (pathElements multisig.signer_details)
          (MULTISIG_BODY_LEN multisig.master_blinding_key.length multisig.signer_details.length
            (pathElements multisig.signer_details)) = .ok code) := by
  obtain ⟨same, all, flag, sorted, code_eq⟩ := read.code wanted
  refine ⟨flag, sorted, code_eq, ?_⟩
  intro bit positive met
  have threshold : multisig.threshold.toUInt32.toNat = multisig.threshold.toNat := UInt8.toNat_toUInt32 _
  have accepted : Accepted codecs multisig.definition.threshold.toNat multisig.definition.master_blinding_key
      multisig.definition.signers := by
    refine ⟨?_, ?_, ?_, read.key, fun signer inside => (all signer inside).2⟩
    · exact threshold ▸ positive
    · exact threshold ▸ same ▸ met
    · exact same ▸ read.few
  have writes := multisig_body_to_bytes_of_accepted accepted fun signer inside => (all signer inside).1
  have flag_eq : flagByte multisig.definition.sorted = flag := by
    show flagByte multisig.sorted = flag
    rw [sorted, flagByte_of_le bit]
  have back : multisig.definition.threshold.toUInt8 = multisig.threshold := UInt8.toUInt8_toUInt32 _
  rw [flag_eq, back] at writes
  rw [code_eq]
  exact writes

/-- Registered records are kept: see `Kept`. -/
theorem registered_records (base58 : Base58 codecs) (keys : HdKeys K) (lawful : ciphers.Lawful) (priv_key : Bytes) :
    Kept codecs keys ciphers priv_key where
  multisig multisig total body_len body written held derivable :=
    ⟨multisig_fits written, fun rest signer_details_len wanted => multisig_read_back base58 written held derivable wanted⟩
  descriptor descriptor body_len body written held :=
    ⟨descriptor_fits written held, descriptor_read_back written held⟩
  opens version iv body body_len block filled room :=
    ⟨_, registration_seal_eq lawful filled, registration_open_seal lawful block room (registration_seal_eq lawful filled)⟩
  multisig_exact buffer body_len signer_details_len multisig read wanted :=
    (multisig_exactly base58 read).written wanted
  descriptor_exact buffer body_len descriptor read := by
    obtain ⟨_, few, code⟩ := descriptor_exactly read
    exact ⟨code, fun script => descriptor_body_to_bytes_eq_ok.mpr ⟨rfl, script, few, code⟩⟩
  multisig_within buffer body_len signer_details_len size :=
    multisig_body_from_bytes_within base58 body_len signer_details_len size
  descriptor_within buffer body_len size := descriptor_body_from_bytes_within body_len size
  refuses expected_version bytes body_len room foreign := registration_open_foreign room foreign

/-- A multisig that was written and sealed is read from its record. -/
theorem multisig_record_read_back (base58 : Base58 codecs) (lawful : ciphers.Lawful) {multisig : Definition}
    {total body_len output_len signer_details_len : Nat} {body record iv heap : Bytes}
    (written : multisig_body_to_bytes codecs multisig total body_len = .ok body)
    (held : ∀ signer ∈ multisig.signers, Held signer) (derivable : ∀ signer ∈ multisig.signers, Derivable codecs keys signer)
    (block : iv.length = AES_BLOCK_LEN)
    (made : registration_seal ciphers (some priv_key) iv CURRENT_MULTISIG_RECORD_VERSION body output_len = .ok record)
    (wanted : multisig.signers.length ≤ signer_details_len) :
    multisig_data_from_bytes ciphers (some priv_key) codecs keys heap record signer_details_len =
      .ok (multisig.data codecs keys) := by
  rw [multisig_data_from_bytes, registration_open_seal lawful block (multisig_fits written).2.2 made, Check.ok_bind]
  exact multisig_read_back base58 written held derivable wanted

/-- And so is a descriptor. -/
theorem descriptor_record_read_back (lawful : ciphers.Lawful) {descriptor : Descriptor} {body_len output_len : Nat}
    {body record iv heap : Bytes} (written : descriptor_body_to_bytes descriptor body_len = .ok body)
    (held : descriptor.Held) (block : iv.length = AES_BLOCK_LEN)
    (made : registration_seal ciphers (some priv_key) iv CURRENT_DESCRIPTOR_RECORD_VERSION body output_len = .ok record) :
    descriptor_from_bytes ciphers (some priv_key) heap record = .ok descriptor := by
  rw [descriptor_from_bytes, registration_open_seal lawful block (descriptor_fits written held).2 made, Check.ok_bind]
  exact descriptor_read_back written held _

end

/-! ### One record -/

/-- Base58 of one xpub; other bytes stand for themselves behind a zero. -/
def tableCodecs : Codecs where
  hex_from_bytes bytes := bytes
  hex_to_bytes text := some text
  base58_from_bytes bytes := if bytes = Multisig.knownSerialised then Multisig.knownXpub else 0 :: bytes
  base58_to_bytes text :=
    if text = Multisig.knownXpub then some Multisig.knownSerialised
    else if text.head? = some 0 ∧ text.tail ≠ Multisig.knownSerialised then some text.tail else none
  bip32_path_from_str _ := none

theorem tableCodecs_base58 : Base58 tableCodecs := by
  have no_zero : Multisig.knownXpub.head? = some 120 := by
    rw [Multisig.knownXpub]
    simp [Char.toUInt8]
  constructor
  · intro text bytes read
    simp only [tableCodecs] at read ⊢
    split at read
    case isTrue known =>
      cases read
      rw [if_pos rfl, known]
    case isFalse =>
      split at read
      case isTrue plain =>
        cases read
        rw [if_neg plain.2]
        obtain ⟨rest, rfl⟩ := List.head?_eq_some_iff.mp plain.1
        rfl
      case isFalse => cases read
  · intro bytes size
    simp only [tableCodecs]
    by_cases known : bytes = Multisig.knownSerialised
    · rw [if_pos known, if_pos rfl, known]
    · rw [if_neg known]
      have other : 0 :: bytes ≠ Multisig.knownXpub := by
        intro same
        rw [← same] at no_zero
        cases no_zero
      rw [if_neg other, if_pos ⟨rfl, known⟩]
      rfl

/-- Extended keys as their bytes: a hardened child has no public derivation. -/
def publicKeys : HdKeys Bytes where
  bip32_key_unserialize bytes := some bytes
  bip32_key_from_parent_path root path :=
    if path.any fun element => element &&& BIP32_INITIAL_HARDENED_CHILD ≠ 0 then none else some root
  bip32_key_serialize bytes := some bytes

/-- Encryption only pads, and an HMAC is the key. -/
def plainCiphers : Ciphers where
  aes_cbc_encrypt _ _ bytes := Keychain.pad bytes
  aes_cbc_decrypt _ _ bytes := Keychain.unpad bytes
  hmac_sha256 key _ := (key ++ List.replicate 32 0).take 32

theorem plainCiphers_lawful : plainCiphers.Lawful where
  padded _ _ bytes := by
    show (Keychain.pad bytes).length = _
    rw [Keychain.pad, List.length_append, List.length_replicate, AES_PADDED_LEN, AES_BLOCK_LEN]
    omega
  decrypts _ _ bytes _ _ := Keychain.unpad_pad bytes
  hmac_length key _ := by
    show (List.take 32 (key ++ List.replicate 32 0)).length = 32
    rw [List.length_take, List.length_append, List.length_replicate]
    omega

/-- Any of these signers can sign; each has another derivation, and its path behind the xpub. -/
def pathSigners (paths : List Path) : Definition :=
  { variant := 4, sorted := true, threshold := 1, master_blinding_key := [],
    signers := paths.map fun path => { Multisig.knownSigner (0x80000030 :: path) with path := path } }

theorem pathSigners_held (paths : List Path) : ∀ signer ∈ (pathSigners paths).signers, Held signer := by
  intro signer inside
  obtain ⟨path, -, rfl⟩ := List.mem_map.mp inside
  exact ⟨rfl, Multisig.knownXpub_text.2.2⟩

theorem pathSigners_writable {paths : List Path} (short : ∀ path ∈ paths, path.length < MAX_PATH_LEN) :
    ∀ signer ∈ (pathSigners paths).signers, Writable tableCodecs signer := by
  intro signer inside
  obtain ⟨path, listed, rfl⟩ := List.mem_map.mp inside
  refine ⟨?_, ⟨Multisig.knownSerialised, ?_, by decide⟩, rfl, Nat.le_of_lt (short path listed)⟩
  · exact short path listed
  · simp [tableCodecs, Multisig.knownSigner]

theorem pathSigners_accepted {paths : List Path} (some_signer : 1 ≤ paths.length)
    (few : paths.length ≤ MAX_ALLOWED_SIGNERS) (short : ∀ path ∈ paths, path.length < MAX_PATH_LEN) :
    Accepted tableCodecs 1 [] (pathSigners paths).signers :=
  ⟨Nat.one_pos, by simpa [pathSigners] using some_signer, by simpa [pathSigners] using few, .inl rfl,
    pathSigners_writable short⟩

/-- No path behind the first xpub, one of two elements behind the second. -/
def samplePaths : List Path := [[], [0, 7]]

theorem samplePaths_derivable : ∀ signer ∈ (pathSigners samplePaths).signers, Derivable tableCodecs publicKeys signer := by
  intro signer inside
  rcases List.mem_pair.mp inside with rfl | rfl
  · exact ⟨_, rfl⟩
  · exact ⟨_, rfl⟩

theorem registered_records_two_signers :
    Kept tableCodecs publicKeys plainCiphers [1] ∧
    multisig_body_from_bytes tableCodecs publicKeys (multisigCode tableCodecs 4 1 1 [] (pathSigners samplePaths).signers)
        (multisigCode tableCodecs 4 1 1 [] (pathSigners samplePaths).signers).length 15 =
      .ok ((pathSigners samplePaths).data tableCodecs publicKeys) := by
  have kept := registered_records tableCodecs_base58 publicKeys plainCiphers_lawful [1]
  have accepted : Accepted tableCodecs (pathSigners samplePaths).threshold.toNat
      (pathSigners samplePaths).master_blinding_key (pathSigners samplePaths).signers :=
    pathSigners_accepted (by decide) (by decide) (by decide)
  have written := multisig_body_to_bytes_of_accepted accepted (pathSigners_held samplePaths)
  obtain ⟨_, reads⟩ := kept.multisig _ _ _ _ written (pathSigners_held samplePaths) samplePaths_derivable
  have read := reads [] 15 (by decide)
  rw [List.append_nil] at read
  exact ⟨kept, read⟩

/-- The writer takes a hardened path behind an xpub, on which the reader asserts. And the reader
    takes a flag of 2, which the writer does not write. -/
theorem hardened_path_and_flag :
    (∃ body, multisig_body_to_bytes tableCodecs (pathSigners [[0x80000000]]) 3 (MULTISIG_BODY_LEN 0 1 3) = .ok body ∧
      multisig_body_from_bytes tableCodecs publicKeys body body.length 15 = .error .abort) ∧
    ∃ body multisig, multisig_body_from_bytes tableCodecs publicKeys body body.length 15 = .ok multisig ∧
      ∀ total body_len, multisig_body_to_bytes tableCodecs multisig.definition total body_len ≠ .ok body := by
  constructor
  · refine ⟨multisigCode tableCodecs 4 1 1 [] (pathSigners [[0x80000000]]).signers, ?_, by decide +kernel⟩
    have accepted : Accepted tableCodecs (pathSigners [[0x80000000]]).threshold.toNat
        (pathSigners [[0x80000000]]).master_blinding_key (pathSigners [[0x80000000]]).signers :=
      pathSigners_accepted (by decide) (by decide) (by decide)
    exact multisig_body_to_bytes_of_accepted accepted (pathSigners_held [[0x80000000]])
  · have read := @read_multisigCode _ tableCodecs publicKeys 4 2 1 tableCodecs_base58 [] (pathSigners samplePaths).signers
      (.inl rfl) (by decide) (by decide) (pathSigners_held samplePaths) (pathSigners_writable (by decide))
      samplePaths_derivable [] 15 (by decide)
    rw [List.append_nil] at read
    refine ⟨_, _, read, ?_⟩
    intro total body_len written
    have flags := congrArg (fun code : Bytes => code[1]?) (multisig_body_to_bytes_ok written).2.1
    cases flags

end PiJade.Registration
