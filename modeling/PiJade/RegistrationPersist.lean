import PiJade.RegistrationRecords
import PiJade.SettingsBound

/-!
What registrations leave in the store, and what of it the settings file takes: the names that `main/storage.c` accepts
or makes valid, the listing of `libjade/nvs_flash.c`, and the records that a multisig, a descriptor, an OTP record
(`main/otpauth.c`) and its counter write. A name of 16 bytes is accepted but can be neither listed nor saved.
-/
namespace PiJade.Registration
open Keychain (AES_BLOCK_LEN AES_KEY_LEN_256 AES_PADDED_LEN AES_ENCRYPTED_LEN HMAC_SHA256_LEN)
open Multisig (Codecs storage_key_name_valid BIP32_SERIALIZED_LEN)
open SettingsCodec (WallyMap Entry RecordFits PERSISTED_NAMESPACES NVS_KEY_NAME_MAX_SIZE recordNamespaces
  user_entry_valid_iff pijade_settings_serialize)
open SettingsLoader (WellFormed recordCount)
open SettingsRoundTrip (writtenEntries fieldEntries recordEntries itemEntries serialize_eq_some_iff serialize_cases
  mem_fieldEntries mem_recordEntries)
open SettingsBound (recordCount_written)
open Text (isgraph)
set_option linter.unusedSimpArgs false

/-! ### Names -/

/-- The loop of `storage_key_name_make_valid` from a position on. -/
def make_valid (pos : Nat) : Bytes → Bytes
  | [] => []
  | c :: rest => if NVS_KEY_NAME_MAX_SIZE ≤ pos then [] else (if isgraph c then c else '_'.toUInt8) :: make_valid (pos + 1) rest

def storage_key_name_make_valid (name : Bytes) : Check Fault Bytes := do
  Check.ensure (name ≠ [])
  pure (make_valid 0 name)

/-- The key of an item that is listed. -/
def nvs_entry_info (key : Bytes) : Check Fault Bytes := do
  Check.ensure (decide (key.length < NVS_KEY_NAME_MAX_SIZE))
  pure key

/-- The rule for the key of a record, and that it can be listed. -/
structure KeyPersists (key : Bytes) : Prop where
  key_pos : 1 ≤ key.length
  key_short : key.length ≤ 15
  graphic : ∀ byte ∈ key, 33 ≤ byte ∧ byte ≤ 126
  listed : nvs_entry_info key = .ok key

theorem isgraph_iff {c : UInt8} : isgraph c = true ↔ 33 ≤ c ∧ c ≤ 126 := by
  rw [isgraph, Bool.and_eq_true, decide_eq_true_iff, decide_eq_true_iff]

theorem nvs_entry_info_eq {key : Bytes} : nvs_entry_info key = if key.length ≤ 15 then .ok key else .error .abort := by
  have limit : key.length < NVS_KEY_NAME_MAX_SIZE ↔ key.length ≤ 15 := Nat.lt_succ_iff
  rw [nvs_entry_info]
  by_cases short : key.length ≤ 15
  · rw [if_pos short, decide_eq_true (limit.mpr short)]
    rfl
  · rw [if_neg short, decide_eq_false (mt limit.mp short)]
    rfl

theorem storage_key_name_valid_iff {name : Bytes} :
    storage_key_name_valid name = true ↔ name.length ≤ 16 ∧ (∀ c ∈ name, isgraph c = true) ∧ name ≠ [] := by
  rw [storage_key_name_valid, Bool.and_eq_true, Bool.and_eq_true, decide_eq_true_iff, decide_eq_true_iff,
    List.all_eq_true, and_assoc]
  rfl

theorem keyPersists_iff {name : Bytes} (valid : storage_key_name_valid name = true) :
    KeyPersists name ↔ name.length ≤ 15 := by
  obtain ⟨-, graph, filled⟩ := storage_key_name_valid_iff.mp valid
  refine ⟨KeyPersists.key_short, fun short => ⟨List.length_pos_iff.mpr filled, short, fun c mem => isgraph_iff.mp (graph c mem), ?_⟩⟩
  rw [nvs_entry_info_eq, if_pos short]

/-- From a position on, bytes are kept up to the 16th, and each that is kept is printed. -/
theorem make_valid_spec (pos : Nat) (name : Bytes) :
    (make_valid pos name).length = min name.length (NVS_KEY_NAME_MAX_SIZE - pos) ∧
      ∀ c ∈ make_valid pos name, isgraph c = true := by
  induction name generalizing pos with
  | nil => exact ⟨(Nat.zero_min _).symm, nofun⟩
  | cons c rest ih =>
    rw [make_valid]
    by_cases full : NVS_KEY_NAME_MAX_SIZE ≤ pos
    · rw [if_pos full, Nat.sub_eq_zero_of_le full]
      exact ⟨(Nat.min_zero _).symm, nofun⟩
    · rw [if_neg full]
      obtain ⟨length, graph⟩ := ih (pos + 1)
      refine ⟨?_, List.forall_mem_cons.mpr ⟨?_, graph⟩⟩
      · rw [List.length_cons, length, List.length_cons]
        omega
      · split
        next printed => exact printed
        next => decide

/-- What is made valid is valid. -/
theorem make_valid_valid {name made : Bytes} (result : storage_key_name_make_valid name = .ok made) :
    storage_key_name_valid made = true ∧ (made.length ≤ 15 ↔ name.length ≤ 15) := by
  rw [storage_key_name_make_valid, Check.bind_eq_ok] at result
  obtain ⟨_, filled, made_eq⟩ := result
  have filled : name ≠ [] := by simpa using ensure_eq_ok.mp filled
  cases made_eq
  obtain ⟨length, graph⟩ := make_valid_spec 0 name
  have some_left : 0 < name.length := List.length_pos_iff.mpr filled
  rw [show NVS_KEY_NAME_MAX_SIZE = 16 from rfl] at length
  refine ⟨storage_key_name_valid_iff.mpr ⟨by omega, graph, fun empty => ?_⟩, by omega⟩
  rw [empty, List.length_nil] at length
  omega

/-! ### Records -/

def OTP_MAX_URI_LEN : Nat := 256

section
variable (codecs : Codecs) (ciphers : Ciphers) (priv_key : Bytes)

/-- The record that `otp_save_uri` stores. -/
def otp_save_uri (aeskey iv uri : Bytes) : Check Fault Bytes := do
  Check.ensure (uri.length ≠ 0)
  if OTP_MAX_URI_LEN ≤ uri.length then refused else aes_encrypt_bytes ciphers aeskey iv uri

/-- The records that the writers make for each namespace. -/
inductive Made : Nat → Bytes → Prop where
  | multisig {multisig : Definition} {total body_len output_len : Nat} {body iv record : Bytes}
      (serialised : multisig_body_to_bytes codecs multisig total body_len = .ok body) (block : iv.length = AES_BLOCK_LEN)
      (sealed : registration_seal ciphers (some priv_key) iv CURRENT_MULTISIG_RECORD_VERSION body output_len = .ok record) :
      Made 1 record
  | descriptor {descriptor : Descriptor} {body_len output_len : Nat} {body iv record : Bytes} (held : descriptor.Held)
      (serialised : descriptor_body_to_bytes descriptor body_len = .ok body) (block : iv.length = AES_BLOCK_LEN)
      (sealed : registration_seal ciphers (some priv_key) iv CURRENT_DESCRIPTOR_RECORD_VERSION body output_len = .ok record) :
      Made 2 record
  | otp {aeskey iv uri record : Bytes} (block : iv.length = AES_BLOCK_LEN)
      (saved : otp_save_uri ciphers aeskey iv uri = .ok record) : Made 3 record
  /-- `storage_set_otp_hotp_counter` stores the eight bytes of the counter -/
  | hotp_counter (counter : UInt64) : Made 4 ((List.range 8).map fun i => UInt8.ofNat (counter.toNat >>> (8 * i)))

end

/-- The length rule of a namespace. -/
def LengthFits (ns len : Nat) : Prop :=
  ∃ rule, PERSISTED_NAMESPACES[ns - 1]? = some rule ∧ rule.min_len ≤ len ∧ len ≤ rule.max_len ∧
    (rule.modulo ≠ 0 → (len - AES_BLOCK_LEN) % rule.modulo = 0)

section
variable {codecs : Codecs} {ciphers : Ciphers} {priv_key : Bytes}

theorem seal_length (lawful : ciphers.Lawful) {iv body record : Bytes} {version : UInt8} {output_len : Nat}
    (block : iv.length = AES_BLOCK_LEN)
    (sealed : registration_seal ciphers (some priv_key) iv version body output_len = .ok record) :
    record.length = REGISTRATION_SEALED_LEN body.length := by
  obtain ⟨-, -, rfl⟩ := registration_seal_made lawful sealed
  rw [List.length_append, length_sealedFront lawful block, lawful.hmac_length, REGISTRATION_SEALED_LEN]

theorem otp_length {aeskey iv uri record : Bytes} (block : iv.length = AES_BLOCK_LEN)
    (saved : otp_save_uri ciphers aeskey iv uri = .ok record) :
    uri.length < OTP_MAX_URI_LEN ∧ record.length = AES_ENCRYPTED_LEN uri.length := by
  rw [otp_save_uri, Check.bind_eq_ok] at saved
  obtain ⟨_, -, saved⟩ := saved
  split at saved
  · cases saved
  next short =>
    rw [aes_encrypt_bytes, Check.bind_eq_ok] at saved
    obtain ⟨_, -, saved⟩ := saved
    rw [Check.bind_eq_ok] at saved
    obtain ⟨_, -, saved⟩ := saved
    rw [Check.bind_eq_ok] at saved
    obtain ⟨_, padded, saved⟩ := saved
    cases saved
    have padded : (ciphers.aes_cbc_encrypt aeskey iv uri).length = AES_PADDED_LEN uri.length := by
      simpa using ensure_eq_ok.mp padded
    exact ⟨Nat.lt_of_not_le short, by rw [List.length_append, block, padded, AES_ENCRYPTED_LEN]⟩

theorem made_length (lawful : ciphers.Lawful) {ns : Nat} {record : Bytes} (made : Made codecs ciphers priv_key ns record) :
    ns ∈ recordNamespaces ∧ LengthFits ns record.length := by
  cases made with
  | multisig serialised block sealed =>
    obtain ⟨-, -, most⟩ := multisig_fits serialised
    obtain ⟨accepted, -, size, -⟩ := multisig_body_to_bytes_ok serialised
    have positive := accepted.positive
    have threshold := accepted.threshold
    rw [MULTISIG_BODY_LEN, BIP32_SERIALIZED_LEN] at size
    rw [show MAX_MULTISIG_BODY_LEN = 3217 from rfl] at most
    refine ⟨by decide, _, rfl, ?_⟩
    rw [seal_length lawful block sealed]
    simp only [REGISTRATION_SEALED_LEN, AES_ENCRYPTED_LEN, AES_PADDED_LEN, AES_BLOCK_LEN, HMAC_SHA256_LEN,
      SettingsCodec.PIJADE_SETTINGS_MAX_MULTISIG_LEN]
    omega
  | descriptor held serialised block sealed =>
    obtain ⟨-, most⟩ := descriptor_fits serialised held
    rw [show MAX_DESCRIPTOR_BODY_LEN = 3216 from rfl] at most
    refine ⟨by decide, _, rfl, ?_⟩
    rw [seal_length lawful block sealed]
    simp only [REGISTRATION_SEALED_LEN, AES_ENCRYPTED_LEN, AES_PADDED_LEN, AES_BLOCK_LEN, HMAC_SHA256_LEN,
      SettingsCodec.PIJADE_SETTINGS_MAX_DESCRIPTOR_LEN]
    omega
  | otp block saved =>
    obtain ⟨most, length⟩ := otp_length block saved
    refine ⟨by decide, _, rfl, ?_⟩
    rw [length]
    rw [OTP_MAX_URI_LEN] at most
    simp only [AES_ENCRYPTED_LEN, AES_PADDED_LEN, AES_BLOCK_LEN]
    omega
  | hotp_counter counter => exact ⟨by decide, _, rfl, Nat.le_refl 8, Nat.le_refl 8, fun rule => absurd rfl rule⟩

/-! ### Runs of registrations -/

variable {M : Type} {api : WallyMap M}

/-- The states of the store that registrations lead to, from one without records. What else is saved does not touch
    the records. -/
inductive Registered (codecs : Codecs) (ciphers : Ciphers) (priv_key : Bytes) (api : WallyMap M) : (Nat → M) → Prop where
  | start {maps : Nat → M} (empty : ∀ ns ∈ recordNamespaces, api.items (maps ns) = []) :
      Registered codecs ciphers priv_key api maps
  | register {maps : Nat → M} {ns : Nat} {name record : Bytes} {map : M}
      (before : Registered codecs ciphers priv_key api maps) (valid : storage_key_name_valid name = true)
      (made : Made codecs ciphers priv_key ns record) (stored : api.replace (maps ns) name record = some map) :
      Registered codecs ciphers priv_key api (Function.update maps ns map)
  | save {maps : Nat → M} (before : Registered codecs ciphers priv_key api maps) (prefs : M) :
      Registered codecs ciphers priv_key api (Function.update maps 0 prefs)

/-- Every record has a valid name and a length that its namespace takes. -/
theorem registered_records_fit (lawful : ciphers.Lawful) {maps : Nat → M}
    (registered : Registered codecs ciphers priv_key api maps) :
    ∀ ns ∈ recordNamespaces, ∀ item ∈ api.items (maps ns),
      storage_key_name_valid item.1 = true ∧ LengthFits ns item.2.length := by
  induction registered with
  | start empty =>
    intro ns known item mem
    rw [empty ns known] at mem
    cases mem
  | @register maps ns name record map _ valid made stored ih =>
    intro ns' known item mem
    by_cases here : ns' = ns
    · subst here
      rw [Function.update_self] at mem
      have found := (api.get_iff map item.1 item.2).mpr mem
      rw [api.get_replace _ _ _ _ stored] at found
      split at found
      next same =>
        cases found
        exact ⟨same ▸ valid, (made_length lawful made).2⟩
      next => exact ih ns' known item ((api.get_iff _ _ _).mp found)
    · rw [Function.update_of_ne here] at mem
      exact ih ns' known item mem
  | save _ prefs ih =>
    intro ns known item mem
    rw [Function.update_of_ne (fun zero => absurd (zero ▸ known) (by decide))] at mem
    exact ih ns known item mem

/-- If a settings file is handed out without the records, it is handed out with them. -/
def RecordsPersist (api : WallyMap M) (sha256 : Bytes → Vector UInt8 32) (maps : Nat → M) : Prop :=
  ∀ malloc bare, bare 0 = maps 0 → (∀ ns ∈ recordNamespaces, api.items (bare ns) = []) →
    pijade_settings_serialize api sha256 malloc bare ≠ some none →
    pijade_settings_serialize api sha256 malloc maps ≠ some none

/-- Records have no say in the urls. -/
theorem any_isUrl_written (maps : Nat → M) (name : String) :
    (writtenEntries api maps).any (·.isUrl name) =
      (fieldEntries api (maps 0) SettingsCodec.PERSISTED_FIELDS).any (·.isUrl name) := by
  have records : (recordNamespaces.flatMap (recordEntries api maps)).any (·.isUrl name) = false := by
    refine List.any_eq_false.mpr fun entry mem => ?_
    obtain ⟨ns, known, mem⟩ := List.mem_flatMap.mp mem
    obtain ⟨rfl, -⟩ := (mem_recordEntries api).mp mem
    rw [Entry.isUrl, Bool.and_eq_true, beq_iff_eq, not_and]
    intro zero
    rw [zero] at known
    exact absurd known (by decide)
  rw [writtenEntries, List.any_append, records, Bool.or_false]

theorem records_persist (sha256 : Bytes → Vector UInt8 32) {maps : Nat → M}
    (few : ∀ ns ∈ recordNamespaces, (api.items (maps ns)).length ≤ 16)
    (fits : ∀ ns ∈ recordNamespaces, ∀ item ∈ api.items (maps ns), RecordFits ns item.1 item.2) :
    RecordsPersist api sha256 maps := by
  intro malloc bare same empty handed
  rcases serialize_cases api sha256 malloc bare with refused | ⟨written, formed⟩
  · exact absurd refused handed
  · obtain ⟨memory, -, -⟩ := (serialize_eq_some_iff api sha256).mp written
    have whole : WellFormed (writtenEntries api maps) := by
      refine ⟨fun entry mem => ?_, fun ns known => ?_, ?_⟩
      · rcases List.mem_append.mp mem with field | record
        · rw [← same] at field
          exact formed.fits entry (List.mem_append_left _ field)
        · obtain ⟨ns, known, mem⟩ := List.mem_flatMap.mp record
          obtain ⟨item, item_mem, rfl⟩ := List.mem_map.mp mem
          exact .inr ⟨known, fits ns known item item_mem⟩
      · rw [recordCount_written api maps known]
        exact few ns known
      · have urls := formed.urls
        rw [any_isUrl_written, any_isUrl_written, same] at urls
        rw [any_isUrl_written, any_isUrl_written, urls]
    rw [(serialize_eq_some_iff api sha256).mpr ⟨memory, whole, rfl⟩]
    nofun

/-- A record that does not fit keeps every settings file from being handed out. -/
theorem record_blocks (sha256 : Bytes → Vector UInt8 32) {maps : Nat → M} {ns : Nat} {item : Bytes × Bytes}
    (known : ns ∈ recordNamespaces) (mem : item ∈ api.items (maps ns)) (misfit : ¬ RecordFits ns item.1 item.2)
    (malloc : Bool) : pijade_settings_serialize api sha256 malloc maps = some none := by
  rcases serialize_cases api sha256 malloc maps with refused | ⟨-, formed⟩
  · exact refused
  · have written : (⟨ns, item.1, item.2⟩ : Entry) ∈ writtenEntries api maps :=
      List.mem_append_right _ (List.mem_flatMap.mpr ⟨ns, known, List.mem_map.mpr ⟨item, mem, rfl⟩⟩)
    rcases formed.fits _ written with ⟨zero, -⟩ | ⟨-, record⟩
    · rw [show ns = 0 from zero] at known
      exact absurd known (by decide)
    · exact absurd record misfit

theorem recordFits_iff {ns : Nat} {key value : Bytes} (valid : storage_key_name_valid key = true)
    (sized : LengthFits ns value.length) : RecordFits ns key value ↔ key.length ≤ 15 := by
  refine ⟨RecordFits.key_short, fun short => ?_⟩
  have key_fits := (keyPersists_iff valid).mpr short
  exact ⟨key_fits.key_pos, short, key_fits.graphic, sized⟩

/-- What is registered can be persisted if and only if its names have at most 15 bytes. -/
theorem registered_persist_iff (lawful : ciphers.Lawful) (sha256 : Bytes → Vector UInt8 32) :
    (∀ name, storage_key_name_valid name = true → (KeyPersists name ↔ name.length ≤ 15)) ∧
    (∀ name made, storage_key_name_make_valid name = .ok made → (KeyPersists made ↔ name.length ≤ 15)) ∧
    (∀ ns record, Made codecs ciphers priv_key ns record → LengthFits ns record.length) ∧
    ∀ maps, Registered codecs ciphers priv_key api maps →
      (∀ ns ∈ recordNamespaces, (api.items (maps ns)).length ≤ 16) →
      ((∀ ns ∈ recordNamespaces, ∀ item ∈ api.items (maps ns), item.1.length ≤ 15) → RecordsPersist api sha256 maps) ∧
      (¬ (∀ ns ∈ recordNamespaces, ∀ item ∈ api.items (maps ns), item.1.length ≤ 15) →
        ∀ malloc, pijade_settings_serialize api sha256 malloc maps = some none) := by
  refine ⟨fun name valid => keyPersists_iff valid, fun name made result => ?_, fun ns record made => (made_length lawful made).2,
    fun maps registered few => ⟨fun short => ?_, fun long malloc => ?_⟩⟩
  · obtain ⟨valid, lengths⟩ := make_valid_valid result
    exact (keyPersists_iff valid).trans lengths
  · refine records_persist sha256 few fun ns known item mem => ?_
    obtain ⟨valid, sized⟩ := registered_records_fit lawful registered ns known item mem
    exact (recordFits_iff valid sized).mpr (short ns known item mem)
  · simp only [not_forall, Nat.not_le] at long
    obtain ⟨ns, known, item, mem, long⟩ := long
    obtain ⟨valid, sized⟩ := registered_records_fit lawful registered ns known item mem
    exact record_blocks sha256 known mem (fun fits => Nat.not_lt.mpr fits.key_short long) malloc

/-- A counter is stored under the longest name that is accepted. -/
def longName : Bytes := List.replicate 16 'A'.toUInt8

/-- The store after a multisig record has been registered in an empty one. -/
def vaultMaps (record : Bytes) : Nat → { items : List (Bytes × Bytes) // (items.map Prod.fst).Nodup } :=
  Function.update (fun _ => ⟨[], List.nodup_nil⟩) 1 ⟨[(SettingsCodec.ascii "vault", record)], by simp⟩

/-- And after the counter of a code has been stored under a name. -/
def counterMaps (record name : Bytes) : Nat → { items : List (Bytes × Bytes) // (items.map Prod.fst).Nodup } :=
  Function.update (vaultMaps record) 4 ⟨[(name, (List.range 8).map fun i => UInt8.ofNat (9 >>> (8 * i)))], by simp⟩

theorem vaultMaps_registered : ∃ record, Registered tableCodecs plainCiphers [1] SettingsLoader.listMap (vaultMaps record) := by
  have accepted : Accepted tableCodecs (pathSigners samplePaths).threshold.toNat
      (pathSigners samplePaths).master_blinding_key (pathSigners samplePaths).signers :=
    pathSigners_accepted (by decide) (by decide) (by decide)
  have serialised := multisig_body_to_bytes_of_accepted accepted (pathSigners_held samplePaths)
  have sealed := @registration_seal_eq plainCiphers [1] plainCiphers_lawful (List.replicate 16 5)
    _ CURRENT_MULTISIG_RECORD_VERSION (multisig_fits serialised).2.1
  exact ⟨_, .register (.start fun _ _ => rfl) (by decide) (.multisig serialised rfl sealed) rfl⟩

theorem counterMaps_registered {record name : Bytes} (valid : storage_key_name_valid name = true)
    (before : Registered tableCodecs plainCiphers [1] SettingsLoader.listMap (vaultMaps record)) :
    Registered tableCodecs plainCiphers [1] SettingsLoader.listMap (counterMaps record name) :=
  .register before valid (.hotp_counter 9) rfl

theorem counterMaps_items (record name : Bytes) (ns : Nat) :
    (SettingsLoader.listMap.items (counterMaps record name ns)).length ≤ 1 ∧
      ∀ item ∈ SettingsLoader.listMap.items (counterMaps record name ns),
        item.1 = SettingsCodec.ascii "vault" ∨ item.1 = name := by
  by_cases four : ns = 4
  · subst four
    exact ⟨Nat.le_refl 1, fun item mem => .inr (by rw [List.mem_singleton.mp mem])⟩
  · by_cases one : ns = 1
    · subst one
      exact ⟨Nat.le_refl 1, fun item mem => .inl (by rw [List.mem_singleton.mp mem])⟩
    · rw [counterMaps, Function.update_of_ne four, vaultMaps, Function.update_of_ne one]
      exact ⟨Nat.zero_le 1, fun item inside => absurd inside List.not_mem_nil⟩

/-- A record and a counter are saved; with the counter under the long name they are not. -/
theorem registered_persist_iff_run :
    KeyPersists (make_valid 0 (longName.take 15)) ∧ ¬ KeyPersists longName ∧
    ∃ record,
      Registered tableCodecs plainCiphers [1] SettingsLoader.listMap (counterMaps record (longName.take 15)) ∧
      RecordsPersist SettingsLoader.listMap (fun _ => Vector.replicate 32 0) (counterMaps record (longName.take 15)) ∧
      Registered tableCodecs plainCiphers [1] SettingsLoader.listMap (counterMaps record longName) ∧
      ∀ malloc, pijade_settings_serialize SettingsLoader.listMap (fun _ => Vector.replicate 32 0) malloc
        (counterMaps record longName) = some none := by
  obtain ⟨valid, made, -, run⟩ := @registered_persist_iff tableCodecs plainCiphers [1] _ SettingsLoader.listMap
    plainCiphers_lawful fun _ => Vector.replicate 32 0
  refine ⟨(made (longName.take 15) _ rfl).mpr (by decide), fun persists =>
    absurd ((valid longName (by decide)).mp persists) (by decide), ?_⟩
  obtain ⟨record, registered⟩ := vaultMaps_registered
  have short := @counterMaps_registered record (longName.take 15) (by decide) registered
  have long := @counterMaps_registered record longName (by decide) registered
  have few (name : Bytes) : ∀ ns ∈ recordNamespaces,
      (SettingsLoader.listMap.items (counterMaps record name ns)).length ≤ 16 := by
    intro ns _
    exact Nat.le_trans (counterMaps_items record name ns).1 (by decide)
  refine ⟨record, short, (run _ short (few _)).1 ?_, long, (run _ long (few _)).2 ?_⟩
  · intro ns _ item mem
    rcases (counterMaps_items record _ ns).2 item mem with vault | name
    · rw [vault]
      decide
    · rw [name]
      decide
  · intro all
    exact absurd (all 4 (by decide) _ (List.mem_singleton_self _)) (by decide)

/-- A name of 16 bytes is accepted, and cannot be listed or saved. -/
theorem longName_not_persisted :
    ¬ ((∀ name, storage_key_name_valid name = true → KeyPersists name) ∧
      ∀ name made, storage_key_name_make_valid name = .ok made → KeyPersists made) := by
  rintro ⟨valid, -⟩
  exact absurd (valid longName (by decide)).key_short (by decide)

end

end PiJade.Registration
