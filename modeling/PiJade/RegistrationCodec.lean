import PiJade.Registration

/-!
A registered record is read back as it was written. What the readers accept is the code of
what they return, but for the flag of a multisig, where every byte but zero stands for true;
and they stay within a buffer of the largest size. A seal opens to the body it was put around,
and a record that was not sealed so is refused.
-/
namespace PiJade.Registration
open Wallet (Path MAX_PATH_LEN)
open DescriptorText (StringValue)
open Keychain (AES_BLOCK_LEN AES_KEY_LEN_256 AES_PADDED_LEN AES_ENCRYPTED_LEN HMAC_SHA256_LEN)
open Multisig (Signer Codecs MAX_ALLOWED_SIGNERS BIP32_KEY_FINGERPRINT_LEN BIP32_SERIALIZED_LEN XPUB_LEN)
open Walk (Decodes Exact Within)
set_option linter.unusedSimpArgs false

theorem accept_eq_ok {holds : Bool} {u : Unit} : accept holds = .ok u ↔ holds = true := by
  cases holds with
  | true => simp
  | false => simp [refused]

theorem ensure_eq_ok {holds : Bool} {u : Unit} : (Check.ensure holds : Check Fault Unit) = .ok u ↔ holds = true := by
  cases holds with
  | true => simp
  | false => simp

/-! ### Paths -/

section
variable {fin : Nat}

theorem length_toNat {len : Nat} (few : len < 256) : (UInt8.ofNat len).toNat = len := by
  rw [UInt8.toNat_ofNat']
  omega

theorem decodes_readPath {path : Path} (few : path.length ≤ MAX_PATH_LEN) :
    Decodes fin readPath (pathCode path) path := by
  have size : (UInt8.ofNat path.length).toNat = path.length := length_toNat (by rw [MAX_PATH_LEN] at few; omega)
  have words : Decodes fin _ _ _ := (Walk.decodes_take (Bytes.ofWords path)).map Bytes.toWords
  rw [Bytes.toWords_ofWords, Bytes.length_ofWords, ← size] at words
  exact (Walk.decodes_byte (UInt8.ofNat path.length)).bind (words.accept_bind (by simpa [size] using few))

end

/-- A path of a record, and the bytes it is kept as. -/
def PathCode (path : Path) (code : Bytes) : Prop := path.length ≤ MAX_PATH_LEN ∧ code = pathCode path

theorem exact_readPath : Exact readPath PathCode := by
  apply (Walk.exact_byte.bind fun len _ _ => (Walk.exact_accept _).bind fun _ _ _ =>
    (Walk.exact_take (4 * len.toNat)).bind fun bytes _ _ => Walk.exact_pure (Bytes.toWords bytes)).mono
  rintro path code ⟨len, _, _, rfl, ⟨_, _, _, ⟨few, rfl⟩, ⟨bytes, _, _, ⟨rfl, size⟩, ⟨rfl, rfl⟩, rfl⟩, rfl⟩, rfl⟩
  obtain ⟨same, counted⟩ := Bytes.ofWords_toWords len.toNat bytes size
  refine ⟨by simpa [counted] using few, ?_⟩
  rw [pathCode, counted, same]
  simp

theorem within_readPath : Within readPath (1 + 4 * MAX_PATH_LEN) := by
  rw [readPath]
  refine Walk.within_byte.bind Walk.exact_byte fun len _ _ => .accept_bind fun few => ?_
  have most : len.toNat ≤ MAX_PATH_LEN := by simpa using few
  exact ((Walk.within_take _).bind (Walk.exact_take _) fun bytes _ _ => Walk.within_pure _).mono (by omega)

/-! ### Signers -/

section
variable {K : Type} (codecs : Codecs) (keys : HdKeys K)

/-- What base58 is relied on for: writing and reading undo each other. -/
structure Base58 : Prop where
  written_back : ∀ text bytes, codecs.base58_to_bytes text = some bytes → codecs.base58_from_bytes bytes = text
  read_back : ∀ bytes, bytes.length = BIP32_SERIALIZED_LEN →
    codecs.base58_to_bytes (codecs.base58_from_bytes bytes) = some bytes

/-- A signer as a `signer_t` holds it: its xpub has room for the terminator. -/
structure Held (signer : Signer) : Prop where
  fingerprint : signer.fingerprint.length = BIP32_KEY_FINGERPRINT_LEN
  xpub : signer.xpub.length < XPUB_LEN

/-- A signer that is kept. -/
structure Writable (signer : Signer) : Prop where
  derivation : signer.derivation.length ≤ MAX_PATH_LEN
  xpub : ∃ bytes, codecs.base58_to_bytes signer.xpub = some bytes ∧ bytes.length = BIP32_SERIALIZED_LEN
  no_string : signer.path_is_string = false
  path : signer.path.length ≤ MAX_PATH_LEN

/-- The bytes of the xpub. -/
def xpubBytes (signer : Signer) : Bytes := (codecs.base58_to_bytes signer.xpub).getD []

def signerCode (signer : Signer) : Bytes :=
  signer.fingerprint ++ pathCode signer.derivation ++ xpubBytes codecs signer ++ pathCode signer.path

def pathElements (signers : List Signer) : Nat :=
  (signers.map fun signer => signer.derivation.length + signer.path.length).sum

variable {codecs keys}

theorem Writable.xpubBytes_eq {signer : Signer} (writable : Writable codecs signer) :
    codecs.base58_to_bytes signer.xpub = some (xpubBytes codecs signer) ∧
      (xpubBytes codecs signer).length = BIP32_SERIALIZED_LEN := by
  obtain ⟨bytes, read, size⟩ := writable.xpub
  rw [xpubBytes, read]
  exact ⟨rfl, size⟩

theorem writeSigner_eq_ok {total : Nat} {body after : Bytes × Nat} {signer : Signer} :
    writeSigner codecs total body signer = .ok after ↔
      Writable codecs signer ∧ body.2 + (signer.derivation.length + signer.path.length) ≤ total ∧
        after = (body.1 ++ signerCode codecs signer, body.2 + (signer.derivation.length + signer.path.length)) := by
  rw [writeSigner]
  simp only [Check.bind_eq_ok, ensure_eq_ok, decide_eq_true_eq]
  constructor
  · rintro ⟨_, counted, _, derivation, read⟩
    split at read
    case h_1 => cases read
    case h_2 bytes decoded =>
      simp only [Check.bind_eq_ok, accept_eq_ok, ensure_eq_ok, decide_eq_true_eq, Bool.not_eq_true',
        Check.pure_eq, Except.ok.injEq] at read
      obtain ⟨_, size, _, no_string, _, path, rfl⟩ := read
      refine ⟨⟨derivation, ⟨bytes, decoded, size⟩, no_string, path⟩, by omega, ?_⟩
      rw [signerCode, xpubBytes, decoded, Option.getD_some, Nat.add_assoc]
  · rintro ⟨writable, counted, rfl⟩
    obtain ⟨decoded, size⟩ := writable.xpubBytes_eq
    refine ⟨(), by omega, (), writable.derivation, ?_⟩
    simp only [decoded, size, writable.no_string, writable.path, signerCode, decide_true, accept_true, Bool.not_false,
      Check.ensure_true, Check.ok_bind, Check.pure_eq, Nat.add_assoc]

/-- The signers behind what was written. -/
theorem fold_writeSigner {total : Nat} {signers : List Signer} {body after : Bytes × Nat}
    (written : Check.fold (writeSigner codecs total) body signers = .ok after) :
    (∀ signer ∈ signers, Writable codecs signer) ∧
      after = (body.1 ++ signers.flatMap (signerCode codecs), body.2 + pathElements signers) := by
  induction signers generalizing body with
  | nil =>
    cases written
    exact ⟨by simp, by simp [pathElements]⟩
  | cons signer later ih =>
    rw [Check.fold, Check.bind_eq_ok] at written
    obtain ⟨mid, first, others⟩ := written
    obtain ⟨writable, _, rfl⟩ := writeSigner_eq_ok.mp first
    obtain ⟨all, rfl⟩ := ih others
    refine ⟨List.forall_mem_cons.mpr ⟨writable, all⟩, ?_⟩
    simp [pathElements, Nat.add_assoc]

theorem fold_writeSigner_of_writable {total : Nat} {signers : List Signer} {body : Bytes × Nat}
    (writable : ∀ signer ∈ signers, Writable codecs signer) (counted : body.2 + pathElements signers ≤ total) :
    Check.fold (writeSigner codecs total) body signers =
      .ok (body.1 ++ signers.flatMap (signerCode codecs), body.2 + pathElements signers) := by
  induction signers generalizing body with
  | nil => simp [Check.fold, pathElements]
  | cons signer later ih =>
    obtain ⟨first, others⟩ := List.forall_mem_cons.mp writable
    have split : pathElements (signer :: later) = (signer.derivation.length + signer.path.length) + pathElements later := rfl
    rw [split] at counted ⊢
    rw [Check.fold, writeSigner_eq_ok.mpr ⟨first, by omega, rfl⟩, Check.ok_bind, ih others (by simp only; omega)]
    simp [Nat.add_assoc]

/-- The xpub that addresses are derived from. -/
def derivedXpub (codecs : Codecs) (keys : HdKeys K) (signer : Signer) : Bytes :=
  (parentXpub keys (xpubBytes codecs signer) signer.path).toOption.getD []

/-- The path of a signer can be derived from its xpub. -/
def Derivable (codecs : Codecs) (keys : HdKeys K) (signer : Signer) : Prop :=
  ∃ parent, parentXpub keys (xpubBytes codecs signer) signer.path = .ok parent

theorem decodes_readSigner {fin : Nat} {signer : Signer} (base58 : Base58 codecs) (held : Held signer)
    (writable : Writable codecs signer) (derivable : Derivable codecs keys signer) :
    Decodes fin (readSigner codecs keys true) (signerCode codecs signer) (some signer, derivedXpub codecs keys signer) := by
  obtain ⟨decoded, size⟩ := writable.xpubBytes_eq
  obtain ⟨parent, derived⟩ := derivable
  have text := base58.written_back _ _ decoded
  have derived_eq : derivedXpub codecs keys signer = parent := by
    rw [derivedXpub, derived]
    rfl
  rw [readSigner, ← held.fingerprint, ← size, signerCode, List.append_assoc, List.append_assoc]
  refine (Walk.decodes_take _).bind ((decodes_readPath writable.derivation).bind ((Walk.decodes_take _).bind ?_))
  rw [text]
  refine .accept_bind (by simpa using held.xpub) ?_
  rw [← List.append_nil (pathCode signer.path)]
  refine (decodes_readPath writable.path).bind (.lift_bind derived ?_)
  have same : signer = ⟨signer.fingerprint, signer.derivation, signer.xpub, false, signer.path⟩ := by
    rw [← writable.no_string]
  rw [derived_eq, ← same]
  exact Walk.decodes_pure _

/-- What was read of a signer. -/
structure SignerCode (codecs : Codecs) (wanted : Bool) (read : Option Signer × Bytes) (code : Bytes) : Prop where
  wanted : read.1.isSome = wanted
  code : ∀ signer, read.1 = some signer → Held signer ∧ Writable codecs signer ∧ code = signerCode codecs signer

theorem exact_readSigner (base58 : Base58 codecs) (wanted : Bool) :
    Exact (readSigner codecs keys wanted) (SignerCode codecs wanted) := by
  rw [readSigner]
  apply ((Walk.exact_take _).bind fun _ _ _ => exact_readPath.bind fun _ _ _ => (Walk.exact_take _).bind fun _ _ _ =>
    (Walk.exact_accept _).bind fun _ _ _ => exact_readPath.bind fun _ _ _ =>
      (Walk.exact_lift _).bind fun _ _ _ => Walk.exact_pure _).mono
  rintro read code ⟨fingerprint, _, _, ⟨rfl, prints⟩, ⟨derivation, _, _, ⟨few, rfl⟩, ⟨xpub, _, _, ⟨rfl, size⟩,
    ⟨_, _, _, ⟨short, rfl⟩, ⟨path, _, _, ⟨fewer, rfl⟩, ⟨parent, _, _, ⟨_, rfl⟩, ⟨rfl, rfl⟩, rfl⟩, rfl⟩, rfl⟩, rfl⟩, rfl⟩,
    rfl⟩
  cases wanted with
  | false => exact ⟨rfl, by simp⟩
  | true =>
    refine ⟨rfl, ?_⟩
    rintro signer same
    cases same
    have decoded := base58.read_back xpub size
    refine ⟨⟨prints, by simpa using short⟩, ⟨few, ⟨xpub, decoded, size⟩, rfl, fewer⟩, ?_⟩
    simp [signerCode, xpubBytes, decoded]

theorem wallet_derive_pubkey_reads_nothing (serialised_key : Bytes) (path : Path) :
    wallet_derive_pubkey keys serialised_key path ≠ .error (.error .overread) := by
  rw [wallet_derive_pubkey]
  by_cases size : serialised_key.length = BIP32_SERIALIZED_LEN
  · cases keys.bip32_key_unserialize serialised_key with
    | none => simp [size, refused]
    | some root =>
      by_cases empty : path.length = 0
      · simp [size, empty]
      · cases derived : keys.bip32_key_from_parent_path root path with
        | none => simp [size, empty, derived]
        | some hdkey => simp [size, empty, derived]
  · simp [size, refused]

theorem parentXpub_reads_nothing (xpub : Bytes) (path : Path) :
    parentXpub keys xpub path ≠ .error (.error .overread) := by
  rw [parentXpub]
  by_cases empty : path.length = 0
  · simp [empty]
  · rw [if_neg empty]
    cases derived : wallet_derive_pubkey keys xpub path with
    | error h =>
      have nothing : wallet_derive_pubkey keys xpub path ≠ _ := wallet_derive_pubkey_reads_nothing xpub path
      rw [derived] at nothing
      simpa using nothing
    | ok hdkey =>
      cases serialised : keys.bip32_key_serialize hdkey with
      | none => simp [serialised, refused]
      | some bytes => simp [serialised]

/-- The most bytes of a path, with its length. -/
def PATH_CODE_LEN : Nat := 1 + 4 * MAX_PATH_LEN

theorem within_readSigner (wanted : Bool) :
    Within (readSigner codecs keys wanted)
      (BIP32_KEY_FINGERPRINT_LEN + (PATH_CODE_LEN + (BIP32_SERIALIZED_LEN + PATH_CODE_LEN))) := by
  rw [readSigner]
  refine (Walk.within_take _).bind (Walk.exact_take _) fun fingerprint _ _ => within_readPath.bind exact_readPath
    fun derivation _ _ => (Walk.within_take _).bind (Walk.exact_take _) fun xpub _ _ => .accept_bind fun _ => ?_
  exact within_readPath.bind exact_readPath fun path _ _ =>
    (Walk.within_lift (parentXpub_reads_nothing xpub path)).bind (Walk.exact_lift _) fun _ _ _ => Walk.within_pure _

/-! ### The body of a multisig -/

/-- The bytes of a multisig; any byte may stand for the flag. -/
def multisigCode (codecs : Codecs) (variant flag threshold : UInt8) (key : Bytes) (signers : List Signer) : Bytes :=
  [variant] ++ ([flag] ++ ([threshold] ++ (UInt8.ofNat key.length :: key ++
    (UInt8.ofNat signers.length :: signers.flatMap (signerCode codecs)))))

/-- What the writer asserts of a multisig. -/
structure Accepted (codecs : Codecs) (threshold : Nat) (key : Bytes) (signers : List Signer) : Prop where
  positive : 0 < threshold
  threshold : threshold ≤ signers.length
  signers_length : signers.length ≤ MAX_ALLOWED_SIGNERS
  key : key.length = 0 ∨ key.length = MULTISIG_MASTER_BLINDING_KEY_SIZE
  signers : ∀ signer ∈ signers, Writable codecs signer

def flagByte (sorted : Bool) : UInt8 := if sorted then 1 else 0

theorem head_eq (multisig : Definition) (later : Bytes) :
    [multisig.variant, if multisig.sorted then 1 else 0, multisig.threshold.toUInt8,
        UInt8.ofNat multisig.master_blinding_key.length] ++ multisig.master_blinding_key ++
        [UInt8.ofNat multisig.signers.length] ++ later =
      [multisig.variant] ++ ([flagByte multisig.sorted] ++ ([multisig.threshold.toUInt8] ++
        (UInt8.ofNat multisig.master_blinding_key.length :: multisig.master_blinding_key ++
          (UInt8.ofNat multisig.signers.length :: later)))) := by
  simp [flagByte]

theorem multisig_body_to_bytes_ok {multisig : Definition} {total body_len : Nat} {body : Bytes}
    (written : multisig_body_to_bytes codecs multisig total body_len = .ok body) :
    Accepted codecs multisig.threshold.toNat multisig.master_blinding_key multisig.signers ∧
      body = multisigCode codecs multisig.variant (flagByte multisig.sorted) multisig.threshold.toUInt8
        multisig.master_blinding_key multisig.signers ∧
      body.length = MULTISIG_BODY_LEN multisig.master_blinding_key.length multisig.signers.length total ∧
      total ≤ multisig.signers.length * 2 * MAX_PATH_LEN := by
  rw [multisig_body_to_bytes] at written
  simp only [Check.bind_eq_ok, ensure_eq_ok, decide_eq_true_eq, Check.pure_eq, Except.ok.injEq] at written
  obtain ⟨_, positive, _, key, _, threshold, _, few, _, most, _, size, after, folded, _, _, _, same, rfl⟩ := written
  obtain ⟨writable, rfl⟩ := fold_writeSigner folded
  refine ⟨⟨positive, threshold, few, key, writable⟩, ?_, by rw [same, size], most⟩
  rw [multisigCode, ← head_eq]

theorem length_signerCode {signer : Signer} (held : Held signer) (writable : Writable codecs signer) :
    (signerCode codecs signer).length =
      6 + BIP32_SERIALIZED_LEN + (signer.derivation.length + signer.path.length) * 4 := by
  simp only [signerCode, pathCode, List.length_append, List.length_cons, Bytes.length_ofWords, held.fingerprint,
    writable.xpubBytes_eq.2, BIP32_KEY_FINGERPRINT_LEN]
  omega

theorem length_signerCodes {signers : List Signer} (held : ∀ signer ∈ signers, Held signer)
    (writable : ∀ signer ∈ signers, Writable codecs signer) :
    (signers.flatMap (signerCode codecs)).length =
      signers.length * (6 + BIP32_SERIALIZED_LEN) + pathElements signers * 4 := by
  induction signers with
  | nil => rfl
  | cons signer later ih =>
    obtain ⟨first, others⟩ := List.forall_mem_cons.mp held
    obtain ⟨firstWritable, othersWritable⟩ := List.forall_mem_cons.mp writable
    have split : pathElements (signer :: later) = (signer.derivation.length + signer.path.length) + pathElements later := rfl
    rw [List.flatMap_cons, List.length_append, ih others othersWritable, length_signerCode first firstWritable, split,
      List.length_cons, Nat.succ_mul]
    omega

theorem pathElements_le {signers : List Signer} (writable : ∀ signer ∈ signers, Writable codecs signer) :
    pathElements signers ≤ signers.length * 2 * MAX_PATH_LEN := by
  induction signers with
  | nil => exact Nat.zero_le _
  | cons signer later ih =>
    obtain ⟨first, others⟩ := List.forall_mem_cons.mp writable
    have split : pathElements (signer :: later) = (signer.derivation.length + signer.path.length) + pathElements later := rfl
    have here := ih others
    have derivation := first.derivation
    have path := first.path
    rw [split, List.length_cons]
    rw [MAX_PATH_LEN] at *
    omega

/-- The writer writes every multisig it does not assert against. -/
theorem multisig_body_to_bytes_of_accepted {multisig : Definition}
    (accepted : Accepted codecs multisig.threshold.toNat multisig.master_blinding_key multisig.signers)
    (held : ∀ signer ∈ multisig.signers, Held signer) :
    multisig_body_to_bytes codecs multisig (pathElements multisig.signers)
        (MULTISIG_BODY_LEN multisig.master_blinding_key.length multisig.signers.length (pathElements multisig.signers)) =
      .ok (multisigCode codecs multisig.variant (flagByte multisig.sorted) multisig.threshold.toUInt8
        multisig.master_blinding_key multisig.signers) := by
  rw [multisig_body_to_bytes]
  simp only [accepted.positive, accepted.threshold, accepted.signers_length, accepted.key, pathElements_le accepted.signers,
    decide_true, Check.ensure_true, Check.ok_bind]
  rw [fold_writeSigner_of_writable accepted.signers (by simp)]
  simp only [Nat.zero_add, Check.ok_bind, decide_true, Check.ensure_true, head_eq]
  rw [multisigCode, show decide _ = true from ?_]
  · rfl
  · simp only [List.length_append, List.length_cons, List.length_nil, length_signerCodes held accepted.signers,
      MULTISIG_BODY_LEN, decide_eq_true_eq]
    omega

theorem decodes_readBlindingKey {fin : Nat} {key : Bytes}
    (size : key.length = 0 ∨ key.length = MULTISIG_MASTER_BLINDING_KEY_SIZE) :
    Decodes fin (readBlindingKey fin) (UInt8.ofNat key.length :: key) key := by
  obtain empty | full := size
  · rw [List.length_eq_zero_iff.mp empty]
    exact (Walk.decodes_byte 0).bind (Walk.decodes_pure [])
  · have back : (UInt8.ofNat key.length).toNat = key.length := length_toNat (by rw [full]; decide)
    rw [readBlindingKey, ← List.singleton_append]
    apply (Walk.decodes_byte (UInt8.ofNat key.length)).bind
    rw [if_neg (by rw [full]; decide), back]
    exact .accept_bind (by simpa using full) (Walk.decodes_takeBefore key)

/-- The signers as they are read. -/
def signersRead (codecs : Codecs) (keys : HdKeys K) (signers : List Signer) : List (Option Signer × Bytes) :=
  signers.map fun signer => (some signer, derivedXpub codecs keys signer)

theorem decodes_read_complete_signers {fin signer_details_len : Nat} {signers : List Signer} (base58 : Base58 codecs)
    (some_signer : 0 < signers.length) (few : signers.length ≤ MAX_ALLOWED_SIGNERS)
    (wanted : signers.length ≤ signer_details_len) (held : ∀ signer ∈ signers, Held signer)
    (writable : ∀ signer ∈ signers, Writable codecs signer) (derivable : ∀ signer ∈ signers, Derivable codecs keys signer) :
    Decodes fin (read_complete_signers codecs keys signer_details_len)
      (UInt8.ofNat signers.length :: signers.flatMap (signerCode codecs)) (signersRead codecs keys signers) := by
  have back : (UInt8.ofNat signers.length).toNat = signers.length := length_toNat (by rw [MAX_ALLOWED_SIGNERS] at few; omega)
  have nonzero : UInt8.ofNat signers.length ≠ 0 := by
    intro zero
    rw [zero] at back
    exact Nat.ne_of_lt some_signer back
  have each : ∀ j read, (signersRead codecs keys signers)[j]? = some read →
      Decodes fin (readSigner codecs keys (0 + j < signer_details_len))
        ((read.1.map (signerCode codecs)).getD []) read := by
    intro j read at_j
    rw [signersRead, List.getElem?_map, Option.map_eq_some_iff] at at_j
    obtain ⟨signer, signer_at, rfl⟩ := at_j
    obtain ⟨inside, _⟩ := List.getElem?_eq_some_iff.mp signer_at
    have member := List.mem_of_getElem? signer_at
    rw [show decide (0 + j < signer_details_len) = true by simp; omega]
    exact decodes_readSigner base58 (held signer member) (writable signer member) (derivable signer member)
  have all : Decodes fin
      (Walk.times (fun i => readSigner codecs keys (i < signer_details_len)) 0 (signersRead codecs keys signers).length)
      ((signersRead codecs keys signers).flatMap fun read => (read.1.map (signerCode codecs)).getD [])
      (signersRead codecs keys signers) := Walk.decodes_times (signersRead codecs keys signers) 0 each
  rw [signersRead, List.flatMap_map, List.length_map, ← signersRead] at all
  refine (Walk.decodes_byte _).bind (.accept_bind (by simp [nonzero, back, few]) ?_)
  rw [back]
  exact all

theorem decodes_readMultisig (variant flag threshold : UInt8) {fin signer_details_len : Nat} {key : Bytes}
    {signers : List Signer} (base58 : Base58 codecs)
    (size : key.length = 0 ∨ key.length = MULTISIG_MASTER_BLINDING_KEY_SIZE) (some_signer : 0 < signers.length)
    (few : signers.length ≤ MAX_ALLOWED_SIGNERS) (wanted : signers.length ≤ signer_details_len)
    (held : ∀ signer ∈ signers, Held signer) (writable : ∀ signer ∈ signers, Writable codecs signer)
    (derivable : ∀ signer ∈ signers, Derivable codecs keys signer) :
    Decodes fin (readMultisig codecs keys fin signer_details_len) (multisigCode codecs variant flag threshold key signers)
      { variant := variant, sorted := flag != 0, threshold := threshold, master_blinding_key := key,
        xpubs := signers.map (derivedXpub codecs keys), signer_details := signers } := by
  have returned : (signersRead codecs keys signers).map Prod.snd = signers.map (derivedXpub codecs keys) ∧
      (signersRead codecs keys signers).filterMap Prod.fst = signers := by
    simp [signersRead, List.filterMap_map, Function.comp_def]
  refine (Walk.decodes_byte variant).bind ((Walk.decodes_byte flag).bind ((Walk.decodes_byte threshold).bind
    ((decodes_readBlindingKey size).bind (.ensureLeft_bind (by simp) ?_))))
  have read : Decodes fin _ _ _ := (decodes_read_complete_signers base58 some_signer few wanted held writable derivable).map
    fun read => MultisigData.mk variant (flag != 0) threshold key (read.map Prod.snd) (read.filterMap Prod.fst)
  rwa [returned.1, returned.2] at read

/-- A blinding key behind its length. -/
def KeyCode (key code : Bytes) : Prop :=
  (key.length = 0 ∨ key.length = MULTISIG_MASTER_BLINDING_KEY_SIZE) ∧ code = UInt8.ofNat key.length :: key

theorem exact_readBlindingKey (fin : Nat) : Exact (readBlindingKey fin) KeyCode := by
  have body : ∀ keylen : UInt8, Exact
      (if keylen = 0 then pure [] else do
        Walk.accept (keylen.toNat = MULTISIG_MASTER_BLINDING_KEY_SIZE)
        Walk.takeBefore fin keylen.toNat)
      fun key code => key.length = keylen.toNat ∧ KeyCode key (keylen :: code) := by
    intro keylen
    by_cases zero : keylen = 0
    · rw [if_pos zero, zero]
      apply (Walk.exact_pure []).mono
      rintro key code ⟨rfl, rfl⟩
      exact ⟨rfl, .inl rfl, rfl⟩
    · rw [if_neg zero]
      apply ((Walk.exact_accept _).bind fun _ _ _ => Walk.exact_takeBefore fin keylen.toNat).mono
      rintro key code ⟨_, _, _, ⟨full, rfl⟩, ⟨rfl, size⟩, rfl⟩
      refine ⟨size, .inr (by rw [size]; simpa using full), ?_⟩
      rw [size, UInt8.ofNat_toNat]
  apply (Walk.exact_byte.bind fun keylen _ _ => body keylen).mono
  rintro key code ⟨keylen, _, later, rfl, ⟨_, coded⟩, rfl⟩
  exact coded

theorem codes_signers {signer_details_len : Nat} {reads : List (Option Signer × Bytes)} {i : Nat} {code : Bytes}
    (codes : Walk.Codes (fun i => SignerCode codecs (i < signer_details_len)) i reads code)
    (wanted : i + reads.length ≤ signer_details_len) :
    code = (reads.filterMap Prod.fst).flatMap (signerCode codecs) ∧ (reads.filterMap Prod.fst).length = reads.length ∧
      ∀ signer ∈ reads.filterMap Prod.fst, Held signer ∧ Writable codecs signer := by
  induction reads generalizing i code with
  | nil =>
    rw [Walk.Codes] at codes
    exact ⟨codes, rfl, by simp⟩
  | cons read later ih =>
    rw [List.length_cons] at wanted
    obtain ⟨one, others, first, rest, rfl⟩ := codes
    obtain ⟨same, sizes, all⟩ := ih rest (by omega)
    have present : read.1.isSome = true := by
      rw [first.wanted]
      simp
      omega
    obtain ⟨signer, signer_eq⟩ := Option.isSome_iff_exists.mp present
    obtain ⟨held, writable, rfl⟩ := first.code signer signer_eq
    rw [List.filterMap_cons_some signer_eq]
    refine ⟨by rw [List.flatMap_cons, same], by simp [sizes], ?_⟩
    exact List.forall_mem_cons.mpr ⟨⟨held, writable⟩, all⟩

/-- Signers behind their number. -/
structure SignersCode (codecs : Codecs) (signer_details_len : Nat) (reads : List (Option Signer × Bytes)) (code : Bytes) :
    Prop where
  positive : 0 < reads.length
  few : reads.length ≤ MAX_ALLOWED_SIGNERS
  code : ∃ later, code = UInt8.ofNat reads.length :: later ∧
    Walk.Codes (fun i => SignerCode codecs (i < signer_details_len)) 0 reads later

theorem exact_read_complete_signers (base58 : Base58 codecs) (signer_details_len : Nat) :
    Exact (read_complete_signers codecs keys signer_details_len) (SignersCode codecs signer_details_len) := by
  apply (Walk.exact_byte.bind fun num_signers _ _ => (Walk.exact_accept _).bind fun _ _ _ =>
    Walk.exact_times (fun i => exact_readSigner base58 (i < signer_details_len)) num_signers.toNat 0).mono
  rintro reads code ⟨num_signers, _, _, rfl, ⟨_, _, _, ⟨valid, rfl⟩, ⟨size, codes⟩, rfl⟩, rfl⟩
  obtain ⟨nonzero, few⟩ : num_signers ≠ 0 ∧ num_signers.toNat ≤ MAX_ALLOWED_SIGNERS := by simpa using valid
  refine ⟨?_, by rw [size]; exact few, _, by rw [size, UInt8.ofNat_toNat]; rfl, codes⟩
  rw [size]
  exact Nat.pos_of_ne_zero fun zero => nonzero (UInt8.toNat_inj.mp zero)

/-- A multisig that was read, and the bytes it was read from. -/
structure MultisigCode (codecs : Codecs) (signer_details_len : Nat) (multisig : MultisigData) (code : Bytes) : Prop where
  positive : 0 < multisig.xpubs.length
  few : multisig.xpubs.length ≤ MAX_ALLOWED_SIGNERS
  key : multisig.master_blinding_key.length = 0 ∨
    multisig.master_blinding_key.length = MULTISIG_MASTER_BLINDING_KEY_SIZE
  code : multisig.xpubs.length ≤ signer_details_len →
    multisig.signer_details.length = multisig.xpubs.length ∧
    (∀ signer ∈ multisig.signer_details, Held signer ∧ Writable codecs signer) ∧
    ∃ flag, multisig.sorted = (flag != 0) ∧ code = multisigCode codecs multisig.variant flag multisig.threshold
      multisig.master_blinding_key multisig.signer_details

theorem exact_readMultisig (base58 : Base58 codecs) (fin signer_details_len : Nat) :
    Exact (readMultisig codecs keys fin signer_details_len) (MultisigCode codecs signer_details_len) := by
  rw [readMultisig]
  apply (Walk.exact_byte.bind fun _ _ _ => Walk.exact_byte.bind fun _ _ _ => Walk.exact_byte.bind fun _ _ _ =>
    (exact_readBlindingKey fin).bind fun _ _ _ => (Walk.exact_ensureLeft fin).bind fun _ _ _ =>
      (exact_read_complete_signers base58 signer_details_len).bind fun _ _ _ => Walk.exact_pure _).mono
  rintro multisig code ⟨variant, _, _, rfl, ⟨flag, _, _, rfl, ⟨threshold, _, _, rfl, ⟨key, _, _, ⟨key_size, rfl⟩,
    ⟨_, _, _, rfl, ⟨reads, _, _, signers, ⟨rfl, rfl⟩, rfl⟩, rfl⟩, rfl⟩, rfl⟩, rfl⟩, rfl⟩
  obtain ⟨later, rfl, codes⟩ := signers.code
  have size : (reads.map Prod.snd).length = reads.length := List.length_map _
  refine ⟨by simpa using signers.positive, by simpa using signers.few, key_size, ?_⟩
  intro wanted
  obtain ⟨rfl, same, all⟩ := codes_signers codes (by simpa using wanted)
  refine ⟨by rw [same, size], all, flag, rfl, ?_⟩
  simp only [multisigCode, same, List.append_nil, List.nil_append]

theorem within_readBlindingKey (fin : Nat) : Within (readBlindingKey fin) (1 + MULTISIG_MASTER_BLINDING_KEY_SIZE) := by
  rw [readBlindingKey]
  refine Walk.within_byte.bind Walk.exact_byte fun keylen _ _ => ?_
  by_cases zero : keylen = 0
  · rw [if_pos zero]
    exact (Walk.within_pure []).mono (Nat.zero_le _)
  · rw [if_neg zero]
    refine .accept_bind fun full => ?_
    have size : keylen.toNat = MULTISIG_MASTER_BLINDING_KEY_SIZE := by simpa using full
    rw [size]
    exact Walk.within_takeBefore fin _

/-- All a reader can want of a body: the largest one. -/
theorem within_readMultisig (base58 : Base58 codecs) (fin signer_details_len : Nat) :
    Within (readMultisig codecs keys fin signer_details_len) MAX_MULTISIG_BODY_LEN := by
  have signers : Within (read_complete_signers codecs keys signer_details_len) (1 + MAX_ALLOWED_SIGNERS *
      (BIP32_KEY_FINGERPRINT_LEN + (PATH_CODE_LEN + (BIP32_SERIALIZED_LEN + PATH_CODE_LEN)))) := by
    rw [read_complete_signers]
    refine Walk.within_byte.bind Walk.exact_byte fun num_signers _ _ => .accept_bind fun valid => ?_
    obtain ⟨-, few⟩ : num_signers ≠ 0 ∧ num_signers.toNat ≤ MAX_ALLOWED_SIGNERS := by simpa using valid
    exact (Walk.within_times (fun i => within_readSigner (i < signer_details_len))
      (fun i => exact_readSigner base58 (i < signer_details_len)) num_signers.toNat 0).mono (Nat.mul_le_mul_right _ few)
  have walk := Walk.within_byte.bind Walk.exact_byte fun variant _ _ => Walk.within_byte.bind Walk.exact_byte
    fun sorted _ _ => Walk.within_byte.bind Walk.exact_byte fun threshold _ _ =>
      (within_readBlindingKey fin).bind (exact_readBlindingKey fin) fun key _ _ =>
        (Walk.within_ensureLeft fin).bind (Walk.exact_ensureLeft fin) fun _ _ _ =>
          signers.bind (exact_read_complete_signers base58 signer_details_len) fun reads _ _ =>
            Walk.within_pure (MultisigData.mk variant (sorted != 0) threshold key (reads.map Prod.snd)
              (reads.filterMap Prod.fst))
  exact walk.mono (by decide)

end

/-! ### The body of a descriptor -/

def descriptorCode (descriptor : Descriptor) : Bytes :=
  [descriptor.type] ++ (Bytes.ofHalf descriptor.script.length ++ (descriptor.script ++
    ([UInt8.ofNat descriptor.values.length] ++ descriptor.values.flatMap valueCode)))

/-- A descriptor as a `descriptor_data_t` holds it: its strings have room for the terminator. -/
structure Descriptor.Held (descriptor : Descriptor) : Prop where
  script : descriptor.script.length < SCRIPT_SIZE
  key : ∀ entry ∈ descriptor.values, entry.key.length < KEY_SIZE
  value : ∀ entry ∈ descriptor.values, entry.value.length < VALUE_SIZE

theorem foldl_valueCode (values : List StringValue) (head : Bytes) :
    values.foldl (fun written entry => written ++ valueCode entry) head = head ++ values.flatMap valueCode := by
  induction values generalizing head with
  | nil => simp
  | cons entry later ih => simp [ih]

theorem length_valueCodes (values : List StringValue) :
    (values.flatMap valueCode).length = values.length * 2 * 2 + string_values_len values := by
  induction values with
  | nil => rfl
  | cons entry later ih =>
    have split : string_values_len (entry :: later) = entry.key.length + entry.value.length + string_values_len later := rfl
    rw [List.flatMap_cons, List.length_append, ih, split, List.length_cons]
    simp only [valueCode, Bytes.ofHalf, List.length_append, List.length_cons, List.length_nil]
    omega

theorem length_descriptorCode (descriptor : Descriptor) :
    (descriptorCode descriptor).length = DESCRIPTOR_BODY_LEN descriptor := by
  simp only [descriptorCode, DESCRIPTOR_BODY_LEN, List.length_append, List.length_cons, List.length_nil, Bytes.ofHalf,
    length_valueCodes]
  omega

/-- The writer writes every descriptor it does not assert against. -/
theorem descriptor_body_to_bytes_eq_ok {descriptor : Descriptor} {body_len : Nat} {body : Bytes} :
    descriptor_body_to_bytes descriptor body_len = .ok body ↔
      body_len = DESCRIPTOR_BODY_LEN descriptor ∧ 0 < descriptor.script.length ∧
        descriptor.values.length ≤ MAX_ALLOWED_SIGNERS ∧ body = descriptorCode descriptor := by
  have code : descriptor.type :: (Bytes.ofHalf descriptor.script.length ++ descriptor.script ++
      [UInt8.ofNat descriptor.values.length]) ++ descriptor.values.flatMap valueCode = descriptorCode descriptor := by
    simp [descriptorCode]
  rw [descriptor_body_to_bytes]
  simp only [Check.bind_eq_ok, ensure_eq_ok, decide_eq_true_eq, Check.pure_eq, Except.ok.injEq, foldl_valueCode, code,
    length_descriptorCode]
  constructor
  · rintro ⟨_, size, _, script, _, few, _, _, rfl⟩
    exact ⟨size, Nat.pos_of_ne_zero script, few, rfl⟩
  · rintro ⟨size, script, few, rfl⟩
    exact ⟨(), size, (), Nat.ne_of_gt script, (), few, (), size.symm, rfl⟩

section
variable {fin : Nat}

theorem decodes_readString {size : Nat} {text : Bytes} (room : text.length < size) (small : size ≤ 65536) :
    Decodes fin (readString fin size) (Bytes.ofHalf text.length ++ text) text :=
  (Walk.decodes_halfBefore (by omega)).bind (.accept_bind (by simpa using room) (Walk.decodes_takeBefore text))

theorem decodes_readValue {entry : StringValue} (key : entry.key.length < KEY_SIZE) (value : entry.value.length < VALUE_SIZE) :
    Decodes fin (readValue fin) (valueCode entry) entry := by
  rw [valueCode, List.append_assoc]
  exact (decodes_readString key (by decide)).bind ((decodes_readString value (by decide)).map _)

theorem decodes_readDescriptor {descriptor : Descriptor} (held : descriptor.Held)
    (few : descriptor.values.length ≤ MAX_ALLOWED_SIGNERS) :
    Decodes fin (readDescriptor fin) (descriptorCode descriptor) descriptor := by
  have back : (UInt8.ofNat descriptor.values.length).toNat = descriptor.values.length :=
    length_toNat (by rw [MAX_ALLOWED_SIGNERS] at few; omega)
  have script := held.script
  rw [SCRIPT_SIZE] at script
  have values : Decodes fin (Walk.times (fun _ => readValue fin) 0 descriptor.values.length)
      (descriptor.values.flatMap valueCode) descriptor.values := by
    apply Walk.decodes_times
    intro j entry at_j
    have member := List.mem_of_getElem? at_j
    exact decodes_readValue (held.key entry member) (held.value entry member)
  refine (Walk.decodes_byte descriptor.type).bind ((Walk.decodes_half (by omega)).bind
    (.accept_bind (by simpa using held.script) ((Walk.decodes_takeBefore descriptor.script).bind
      ((Walk.decodes_byteBefore _).bind (.accept_bind (by simpa [back] using few) ?_)))))
  rw [back]
  exact values.map fun values => Descriptor.mk descriptor.script values descriptor.type

end

/-- A string behind its length. -/
def StringCode (size : Nat) (text code : Bytes) : Prop := text.length < size ∧ code = Bytes.ofHalf text.length ++ text

theorem exact_readString (fin size : Nat) : Exact (readString fin size) (StringCode size) := by
  apply ((Walk.exact_halfBefore fin).bind fun len _ _ => (Walk.exact_accept _).bind fun _ _ _ =>
    Walk.exact_takeBefore fin len).mono
  rintro text code ⟨len, _, _, rfl, ⟨_, _, _, ⟨room, rfl⟩, ⟨rfl, same⟩, rfl⟩, rfl⟩
  exact ⟨by simpa [same] using room, by rw [same]⟩

theorem exact_readValue (fin : Nat) : Exact (readValue fin) fun entry code =>
    (entry.key.length < KEY_SIZE ∧ entry.value.length < VALUE_SIZE) ∧ code = valueCode entry := by
  apply ((exact_readString fin KEY_SIZE).bind fun _ _ _ => (exact_readString fin VALUE_SIZE).bind fun _ _ _ =>
    Walk.exact_pure _).mono
  rintro entry code ⟨key, _, _, ⟨key_room, rfl⟩, ⟨value, _, _, ⟨value_room, rfl⟩, ⟨rfl, rfl⟩, rfl⟩, rfl⟩
  exact ⟨⟨key_room, value_room⟩, by simp [valueCode]⟩

theorem codes_values {values : List StringValue} {i : Nat} {code : Bytes}
    (codes : Walk.Codes (fun _ entry code =>
      (entry.key.length < KEY_SIZE ∧ entry.value.length < VALUE_SIZE) ∧ code = valueCode entry) i values code) :
    (∀ entry ∈ values, entry.key.length < KEY_SIZE ∧ entry.value.length < VALUE_SIZE) ∧
      code = values.flatMap valueCode := by
  induction values generalizing i code with
  | nil =>
    rw [Walk.Codes] at codes
    exact ⟨by simp, codes⟩
  | cons entry later ih =>
    obtain ⟨_, others, ⟨room, rfl⟩, rest, rfl⟩ := codes
    obtain ⟨all, rfl⟩ := ih rest
    exact ⟨List.forall_mem_cons.mpr ⟨room, all⟩, rfl⟩

theorem exact_readDescriptor (fin : Nat) : Exact (readDescriptor fin) fun descriptor code =>
    descriptor.Held ∧ descriptor.values.length ≤ MAX_ALLOWED_SIGNERS ∧ code = descriptorCode descriptor := by
  rw [readDescriptor]
  apply (Walk.exact_byte.bind fun _ _ _ => Walk.exact_half.bind fun script_len _ _ => (Walk.exact_accept _).bind
    fun _ _ _ => (Walk.exact_takeBefore fin script_len).bind fun _ _ _ => (Walk.exact_byteBefore fin).bind
      fun num_values _ _ => (Walk.exact_accept _).bind fun _ _ _ =>
        (Walk.exact_times (fun _ => exact_readValue fin) num_values.toNat 0).bind fun _ _ _ => Walk.exact_pure _).mono
  rintro descriptor code ⟨type, _, _, rfl, ⟨script_len, _, _, rfl, ⟨_, _, _, ⟨room, rfl⟩, ⟨script, _, _, ⟨rfl, same⟩,
    ⟨num_values, _, _, rfl, ⟨_, _, _, ⟨few, rfl⟩, ⟨values, _, _, ⟨size, codes⟩, ⟨rfl, rfl⟩, rfl⟩, rfl⟩, rfl⟩, rfl⟩, rfl⟩,
    rfl⟩, rfl⟩
  obtain ⟨all, rfl⟩ := codes_values codes
  refine ⟨⟨by simpa [same] using room, fun entry member => (all entry member).1, fun entry member => (all entry member).2⟩,
    by simpa [size] using few, ?_⟩
  simp [descriptorCode, same, size]

theorem within_readString (fin size : Nat) : Within (readString fin size) (2 + (size - 1)) := by
  rw [readString]
  refine (Walk.within_halfBefore fin).bind (Walk.exact_halfBefore fin) fun len _ _ => .accept_bind fun room => ?_
  have less : len < size := by simpa using room
  exact (Walk.within_takeBefore fin len).mono (by omega)

theorem within_readDescriptor (fin : Nat) : Within (readDescriptor fin) MAX_DESCRIPTOR_BODY_LEN := by
  have value : Within (readValue fin) (2 + (KEY_SIZE - 1) + (2 + (VALUE_SIZE - 1))) :=
    (within_readString fin KEY_SIZE).bind (exact_readString fin KEY_SIZE) fun key _ _ =>
      (within_readString fin VALUE_SIZE).bind (exact_readString fin VALUE_SIZE) fun value _ _ => Walk.within_pure _
  have tail : ∀ (type : UInt8) (script : Bytes), Within (do
      let num_values ← Walk.byteBefore fin
      Walk.accept (num_values.toNat ≤ MAX_ALLOWED_SIGNERS)
      let values ← Walk.times (fun _ => readValue fin) 0 num_values.toNat
      pure (Descriptor.mk script values type))
      (1 + MAX_ALLOWED_SIGNERS * (2 + (KEY_SIZE - 1) + (2 + (VALUE_SIZE - 1)))) := by
    intro type script
    refine (Walk.within_byteBefore fin).bind (Walk.exact_byteBefore fin) fun num_values _ _ => .accept_bind fun valid => ?_
    have few : num_values.toNat ≤ MAX_ALLOWED_SIGNERS := by simpa using valid
    have all := Walk.within_times (fun _ => value) (fun _ => exact_readValue fin) num_values.toNat 0
    exact (all.bind (Walk.exact_times (fun _ => exact_readValue fin) num_values.toNat 0)
      fun _ _ _ => Walk.within_pure _).mono (Nat.mul_le_mul_right _ few)
  have walk : Within (readDescriptor fin)
      (1 + (2 + (SCRIPT_SIZE - 1 + (1 + MAX_ALLOWED_SIGNERS * (2 + (KEY_SIZE - 1) + (2 + (VALUE_SIZE - 1))))))) := by
    rw [readDescriptor]
    refine Walk.within_byte.bind Walk.exact_byte fun type _ _ => Walk.within_half.bind Walk.exact_half
      fun script_len _ _ => .accept_bind fun room => ?_
    have less : script_len < SCRIPT_SIZE := by simpa using room
    exact ((Walk.within_takeBefore fin script_len).mono (by omega)).bind (Walk.exact_takeBefore fin script_len)
      fun script _ _ => tail type script
  exact walk.mono (by decide)

end PiJade.Registration
