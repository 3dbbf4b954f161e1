import Mathlib.Data.List.Basic
import Mathlib.Tactic.Common
import PiJade.Wallet

/-!
What signing a bitcoin psbt reads of it (`main/utils/psbt.c`, and the script checks of
`main/process/sign_psbt.c`): the key iterator that finds the keys of the wallet in use,
the recognition of green multisig signers, and the checks of a script against a single
key, a registered multisig or a registered descriptor. The registered records and the
libwally calls on a psbt are parameters, gathered in `Device`.
-/
namespace PiJade.Psbt
set_option linter.unusedSimpArgs false
open Wallet

/-! ### The psbt -/

/-- The output an input spends, as `wally_psbt_get_input_best_utxo` hands it over. -/
structure Utxo where
  satoshi : UInt64
  script : Bytes
  deriving DecidableEq, Repr

structure Input where
  keypaths : List KeyPath := []
  taproot_leaf_paths : List KeyPath := []
  /-- Whether leaf scripts or a merkle root are present. -/
  taproot_scripts : Bool := false
  utxo : Option Utxo
  /-- Zero where the psbt gives none. -/
  sighash : UInt32 := 0
  deriving DecidableEq, Repr

/-- An output of the psbt with the script and amount of the transaction's. -/
structure Output where
  keypaths : List KeyPath := []
  taproot_leaf_paths : List KeyPath := []
  /-- Whether a taptree is present. -/
  taproot_scripts : Bool := false
  script : Bytes
  satoshi : UInt64
  deriving DecidableEq, Repr

/-- The sum of amounts, without wrapping. -/
def totalOf (amounts : List UInt64) : Nat := (amounts.map UInt64.toNat).sum

/-- A bitcoin psbt that libwally has parsed: its outputs can be counted in 32 bits, as
    anything that fits in a message can, and their total amount in 64. -/
structure WallyPsbt where
  inputs : List Input
  outputs : List Output
  /-- Whether the transaction can be extracted, as it always can before version 2. -/
  extracts : Bool := true
  outputs_count : outputs.length < 2 ^ 32 := by decide
  total_fits : totalOf (outputs.map Output.satoshi) < 2 ^ 64 := by decide

/-- `wally_tx_get_total_output_satoshi`. -/
def WallyPsbt.total_output_satoshi (psbt : WallyPsbt) : UInt64 :=
  UInt64.ofNat (totalOf (psbt.outputs.map Output.satoshi))

/-- `WALLY_SIGTYPE_…`; there is no zero among them. -/
inductive SigType where
  | PRE_SW
  | SW_V0
  | SW_V1
  deriving DecidableEq, Repr

/-! ### Registered records -/

def NVS_KEY_NAME_MAX_SIZE : Nat := 16
def MAX_SEED_SLOTS : Nat := 8

/-- A record name, which storage keeps in `NVS_KEY_NAME_MAX_SIZE` bytes. -/
structure RecordName where
  text : String
  fits : text.utf8ByteSize < NVS_KEY_NAME_MAX_SIZE
  deriving DecidableEq

/-- `multisig_data_t` as `multisig_load_from_storage` lets it through. -/
structure MultisigData where
  variant : Variant
  sorted : Bool
  threshold : Nat
  xpubs : List Bytes
  multi : is_multisig variant = true
  some_threshold : 0 < threshold
  enough : threshold ≤ xpubs.length
  allowed : xpubs.length ≤ MAX_ALLOWED_SIGNERS
  deriving DecidableEq

/-- `descriptor_data_t`: the script, and the key names and values it mentions. -/
structure Descriptor where
  script : String
  values : List (String × String)
  deriving DecidableEq, Repr

/-- The record in use: at most one of `multisig_data` and `descriptor` is set. -/
inductive Record where
  | multisig (wallet_name : RecordName) (data : MultisigData)
  | descriptor (wallet_name : RecordName) (data : Descriptor)
  deriving DecidableEq

/-- What signing takes from outside: libwally, the wallets loaded and the records
    registered. A list of names is `none` where storage fails to give it; a record is
    `none` where it does not load for the wallet. -/
structure Device (K : Type) where
  wally : Wally K
  slots : List (Keychain K)
  few_slots : slots.length ≤ MAX_SEED_SLOTS := by decide
  /-- `FEATURE_FLAGS_DENOMINATION_SATS`. -/
  denomination_sats : Bool := false
  multisig_names : Option (List RecordName)
  multisig_load_from_storage : Keychain K → RecordName → Option MultisigData
  descriptor_names : Option (List RecordName)
  descriptor_load_from_storage : Keychain K → RecordName → Option Descriptor
  /-- libwally's script of a descriptor at a branch and an index. -/
  descriptor_to_script : Descriptor → Network → (multi_index : Nat) → (index : UInt32) → Option Bytes
  /-- `wally_psbt_get_input_signature_type`. -/
  input_signature_type : Input → SigType
  /-- The hash to sign, when libwally can make it. -/
  input_signature_hash : WallyPsbt → Nat → Option Bytes
  /-- Whether `wally_psbt_sign_input_bip32` adds its signature. -/
  sign_input_bip32 : WallyPsbt → Nat → (key_index : Nat) → (txhash : Bytes) → K → Bool

/-- What is relied on: libwally's laws, and that it calls a signature segwit v1 exactly
    where the script spent is a taproot one. -/
structure Device.Lawful {K : Type} (device : Device K) : Prop where
  wally : device.wally.Lawful
  sig_type_p2tr : ∀ input utxo, input.utxo = some utxo → utxo.script ≠ [] →
    (device.input_signature_type input = .SW_V1 ↔ device.wally.scriptpubkey_type utxo.script = .P2TR)

/-! ### The key iterator -/

/-- The keypaths an iterator reads, and whether it may. -/
structure KeyMap where
  keypaths : List KeyPath
  is_taproot : Bool
  taproot_scripts : Bool

def Input.keyMap (input : Input) : KeyMap :=
  let is_taproot := !input.taproot_leaf_paths.isEmpty
  ⟨if is_taproot then input.taproot_leaf_paths else input.keypaths, is_taproot, input.taproot_scripts⟩

def Output.keyMap (output : Output) : KeyMap :=
  let is_taproot := !output.taproot_leaf_paths.isEmpty
  ⟨if is_taproot then output.taproot_leaf_paths else output.keypaths, is_taproot, output.taproot_scripts⟩

/-- A valid `key_iter`. -/
structure KeyIter (K : Type) where
  keypaths : List KeyPath
  key_index : Nat
  hdkey : K
  is_private : Bool
  is_ga_2of3_recovery_key : Bool

/-- The search for the first item that belongs to a key, in the items from number `i`. -/
def searchKey {K : Type} (belongs : KeyPath → Option K) : Nat → List KeyPath → Option (Nat × K)
  | _, [] => none
  | i, item :: rest =>
    match belongs item with
    | some hdkey => some (i, hdkey)
    | none => searchKey belongs (i + 1) rest

section
variable {K : Type} (wally : Wally K) (keychain : Keychain K)

/-- `wally_map_keypath_get_bip32_[public_]key_from`. -/
def get_key (is_private : Bool) (keypaths : List KeyPath) (start_index : Nat) (parent : K) : Option (Nat × K) :=
  searchKey (wally.keypath_key is_private parent) start_index (keypaths.drop start_index)

/-- Taproot is supported for a single key and without scripts. -/
def key_iter_is_supported_taproot (map : KeyMap) : Bool :=
  decide (map.keypaths.length ≤ 1) && !map.taproot_scripts

/-- The parent of a green 2of3 recovery key, from the user key of the subaccount. -/
def key_iter_get_green_2of3_recovery_key (keypaths : List KeyPath) (server_subaccount : UInt32) : Option K :=
  let user := (keypaths.drop 1).find? fun item => is_potential_green_user_path item.path == some server_subaccount
  user.map fun item => wally.bip32_key_from_parent_path keychain.xpriv (item.path.take 2)

/-- `key_iter_next` from key number `key_index` on. -/
def key_iter_from (is_private : Bool) (keypaths : List KeyPath) (key_index : Nat) (recovery : Bool) :
    Option (KeyIter K) :=
  match get_key wally is_private keypaths key_index keychain.xpriv with
  | some (found, hdkey) => some ⟨keypaths, found, hdkey, is_private, recovery⟩
  | none =>
    -- None of three keys: perhaps the recovery key of a green 2of3 subaccount.
    if keypaths.length != 3 then none
    else
      match (keypaths.head?.map KeyPath.path).bind is_potential_green_server_path with
      | none => none
      | some server_subaccount =>
        if server_subaccount == 0 then none
        else
          match key_iter_get_green_2of3_recovery_key wally keychain keypaths server_subaccount with
          | none => none
          | some recovery_hdkey =>
            (get_key wally is_private keypaths key_index recovery_hdkey).map fun (found, hdkey) =>
              ⟨keypaths, found, hdkey, is_private, true⟩

def key_iter_init (is_private : Bool) (map : KeyMap) : Option (KeyIter K) :=
  if map.is_taproot && !key_iter_is_supported_taproot map then none
  else key_iter_from wally keychain is_private map.keypaths 0 false

def key_iter_next (iter : KeyIter K) : Option (KeyIter K) :=
  key_iter_from wally keychain iter.is_private iter.keypaths (iter.key_index + 1) iter.is_ga_2of3_recovery_key

def key_iter_input_begin (input : Input) : Option (KeyIter K) := key_iter_init wally keychain true input.keyMap
def key_iter_input_begin_public (input : Input) : Option (KeyIter K) := key_iter_init wally keychain false input.keyMap
def key_iter_output_begin_public (output : Output) : Option (KeyIter K) :=
  key_iter_init wally keychain false output.keyMap

/-- `psbt_inputs_name_fingerprint`: both maps of every input are searched. -/
def psbt_inputs_name_fingerprint (psbt : WallyPsbt) (fingerprint : Bytes) : Bool :=
  psbt.inputs.any fun input =>
    (input.keypaths ++ input.taproot_leaf_paths).any fun item => item.fingerprint == fingerprint

end

section
variable {K : Type}

def key_iter_get_num_keys (iter : KeyIter K) : Nat := iter.keypaths.length

def key_iter_contains_pubkey (iter : KeyIter K) (pubkey : Bytes) : Bool :=
  iter.keypaths.any fun item => item.key == pubkey

/-- The path of the iterator's key, if it fits a buffer of `path_len` elements. -/
def key_iter_get_path (iter : KeyIter K) (path_len : Nat) : Option Path :=
  match iter.keypaths[iter.key_index]? with
  | some item => if item.path.length ≤ path_len then some item.path else none
  | none => none

end

/-! ### Green multisig signers -/

/-- The paths `is_green_multisig_signers` has met, and the recovery key it returns. -/
structure GreenPaths where
  path : Path := []
  user_path : Path := []
  ga_path : Path := []
  recovery_path : Path := []
  recovery_pubkey : Option Bytes := none

section
variable {K : Type} (wally : Wally K) (keychain : Keychain K) (network_id : Network) (iter : KeyIter K)

/-- One key of `is_green_multisig_signers`; `none` where it returns false. -/
def greenSigner (want_recovery : Bool) (seen : GreenPaths) (item : KeyPath) : Option GreenPaths :=
  let num_keys := key_iter_get_num_keys iter
  if item.fingerprint == wally.fingerprint (wally.ga_service network_id) then
    if seen.ga_path != [] || decide (MAX_GASERVICE_PATH_LEN < item.path.length) then none
    else some { seen with ga_path := item.path }
  else if item.fingerprint == wally.fingerprint keychain.xpriv then
    -- Our own signer, as the user or as the recovery key.
    let as_recovery :=
      num_keys == 3 && iter.is_ga_2of3_recovery_key && seen.path.length == GA_RECOVERY_PATH_LEN
    if as_recovery && (seen.recovery_path != [] || decide (GA_RECOVERY_PATH_LEN < item.path.length)) then none
    else if seen.user_path != [] || decide (GA_USER_PATH_MAX_LEN < item.path.length) then none
    else
      let recovery_path := if as_recovery then item.path else seen.recovery_path
      some { seen with recovery_path := recovery_path, user_path := item.path }
  else if num_keys != 3 || decide (GA_USER_PATH_MAX_LEN < item.path.length) then none
  else
    let seen := { seen with path := item.path }
    if iter.is_ga_2of3_recovery_key && seen.user_path == [] && (is_potential_green_user_path item.path).isSome then
      some { seen with user_path := item.path }
    else if seen.recovery_path == [] && is_potential_green_recovery_path item.path then
      let seen := { seen with recovery_path := item.path }
      if !want_recovery then some seen
      else if item.key.length != EC_PUBLIC_KEY_LEN then none
      else some { seen with recovery_pubkey := some item.key }
    else none

/-- Whether the keys are those of a green multisig; with the recovery key if they are. -/
def is_green_multisig_signers (want_recovery : Bool) : Option (Option Bytes) :=
  let num_keys := key_iter_get_num_keys iter
  if num_keys != 2 && num_keys != 3 then none
  else
    match iter.keypaths.foldlM (greenSigner wally keychain network_id iter want_recovery) {} with
    | none => none
    | some seen =>
      if seen.user_path == [] || seen.ga_path == [] || (num_keys == 3 && seen.recovery_path == []) then none
      else if seen.ga_path.getLast? != seen.user_path.getLast? ||
          (num_keys == 3 && seen.recovery_path.getLast? != seen.user_path.getLast?) then none
      else if num_keys == 3 && iter.is_ga_2of3_recovery_key then some seen.recovery_pubkey
      else if wallet_get_gaservice_path keychain seen.user_path == some seen.ga_path then some seen.recovery_pubkey
      else none

/-! ### Script checks -/

variable {ε : Type}

def verify_ga_script_matches (user_key : K) (recovery_key : Option Bytes) (path : Path) (target_script : Bytes) :
    Check ε Bool := do
  Check.ensure (!target_script.isEmpty)
  let csv_blocks :=
    if recovery_key.isSome then wally.scriptpubkey_csv_blocks_from_csv_2of2_then_1 target_script else none
  if csv_blocks.any fun blocks => !network_is_known_csv_blocks network_id blocks then return false
  let trial_script ←
    wallet_build_ga_script_ex wally keychain network_id user_key recovery_key (csv_blocks.getD 0) path
  return trial_script == some target_script

def verify_singlesig_script_matches (script_variant : Variant) (hdkey : K) (target_script : Bytes) :
    Check ε Bool := do
  Check.ensure (is_singlesig script_variant)
  if script_length_for_variant script_variant != target_script.length then return false
  let trial_script ← wallet_build_singlesig_script wally script_variant hdkey
  return trial_script == some target_script

/-- The keys of the registered signers at a path; `none` where one does not derive or is
    not among the keys of the iterator. -/
def signerPubkeys (path : Path) : List Bytes → Option (List Bytes)
  | [] => some []
  | xpub :: rest =>
    match wallet_derive_pubkey wally xpub path with
    | none => none
    | some hdkey =>
      if !key_iter_contains_pubkey iter (wally.pub_key hdkey) then none
      else (signerPubkeys path rest).map (wally.pub_key hdkey :: ·)

def verify_multisig_script_matches (multisig_data : MultisigData) (path : Path) (target_script : Bytes) :
    Check ε Bool := do
  Check.ensure (!path.isEmpty)
  Check.ensure (!target_script.isEmpty)
  if script_length_for_variant multisig_data.variant != target_script.length then return false
  if multisig_data.xpubs.length != key_iter_get_num_keys iter then return false
  match signerPubkeys wally iter path multisig_data.xpubs with
  | none => return false
  | some pubkeys =>
    let trial_script ←
      wallet_build_multisig_script wally multisig_data.variant multisig_data.sorted multisig_data.threshold pubkeys
    return trial_script == some target_script

end

section
variable {K ε : Type} (device : Device K) (keychain : Keychain K) (network_id : Network) (iter : KeyIter K)

/-- The script of a descriptor, if it fits the buffer for scripts. -/
def wallet_build_descriptor_script (descriptor : Descriptor) (multi_index : Nat) (index : UInt32) : Option Bytes :=
  match device.descriptor_to_script descriptor network_id multi_index index with
  | none => none
  | some script => if script.isEmpty || decide (WALLY_SCRIPTPUBKEY_P2WSH_LEN < script.length) then none else some script

def verify_descriptor_script_matches_impl (descriptor : Descriptor) (multi_index : Nat) (index : UInt32)
    (target_script : Bytes) : Check ε Bool := do
  Check.ensure (!target_script.isEmpty)
  return wallet_build_descriptor_script device network_id descriptor multi_index index == some target_script

/-- The values of a descriptor that are signing keys: all but the blinding key. -/
def numSigningValues (descriptor : Descriptor) : Nat :=
  (descriptor.values.filter fun value => value.1 != "@B").length

def verify_descriptor_script_matches (descriptor : Descriptor) (path : Path) (target_script : Bytes) :
    Check ε Bool := do
  Check.ensure (!path.isEmpty)
  Check.ensure (!target_script.isEmpty)
  if decide (key_iter_get_num_keys iter < numSigningValues descriptor) then return false
  let index := path.getLastD 0
  -- A longer tail is tried as change first, and as a receive path after that.
  if decide (1 < path.length) then
    if ← verify_descriptor_script_matches_impl device network_id descriptor 1 index target_script then return true
  verify_descriptor_script_matches_impl device network_id descriptor 0 index target_script

/-- The check of a script against the record in use. -/
def verify_record (record : Record) (path : Path) (target_script : Bytes) : Check ε Bool :=
  match record with
  | .multisig _ data => verify_multisig_script_matches device.wally iter data path target_script
  | .descriptor _ data => verify_descriptor_script_matches device network_id iter data path target_script

/-- The first record of a list that loads and fits. -/
def firstFitting {α : Type} (load : RecordName → Option α) (verify : α → Check ε Bool) :
    List RecordName → Check ε (Option (RecordName × α))
  | [] => pure none
  | name :: rest =>
    match load name with
    | none => firstFitting load verify rest
    | some data => do
      if ← verify data then return some (name, data)
      firstFitting load verify rest

def get_suitable_multisig_record (path : Path) (target_script : Bytes) :
    Check ε (Option (RecordName × MultisigData)) := do
  Check.ensure (!target_script.isEmpty)
  match device.multisig_names with
  | none => return none
  | some names =>
    firstFitting (device.multisig_load_from_storage keychain)
      (fun data => verify_multisig_script_matches device.wally iter data path target_script) names

def get_suitable_descriptor_record (path : Path) (target_script : Bytes) :
    Check ε (Option (RecordName × Descriptor)) := do
  Check.ensure (!target_script.isEmpty)
  match device.descriptor_names with
  | none => return none
  | some names =>
    firstFitting (device.descriptor_load_from_storage keychain)
      (fun data => verify_descriptor_script_matches device network_id iter data path target_script) names

/-- The search among all records: a multisig one, and without one a descriptor. -/
def findRecord (path : Path) (target_script : Bytes) : Check ε (Option Record) := do
  match ← get_suitable_multisig_record device keychain iter path target_script with
  | some (name, data) => return some (.multisig name data)
  | none =>
    match ← get_suitable_descriptor_record device keychain network_id iter path target_script with
    | some (name, data) => return some (.descriptor name data)
    | none => return none

end

/-! ### What the key iterator finds -/

theorem searchKey_some {K : Type} {belongs : KeyPath → Option K} {items : List KeyPath} {i found : Nat} {hdkey : K}
    (search : searchKey belongs i items = some (found, hdkey)) :
    i ≤ found ∧ ∃ item, items[found - i]? = some item ∧ belongs item = some hdkey := by
  induction items generalizing i with
  | nil => simp [searchKey] at search
  | cons item rest ih =>
    simp only [searchKey] at search
    cases first : belongs item with
    | some key =>
      rw [first] at search
      cases search
      exact ⟨Nat.le_refl _, item, by simp, first⟩
    | none =>
      rw [first] at search
      obtain ⟨past, it, at_it, owned⟩ := ih search
      refine ⟨by omega, it, ?_, owned⟩
      rw [show found - i = (found - (i + 1)) + 1 by omega, List.getElem?_cons_succ]
      exact at_it

section
variable {K : Type} {wally : Wally K} {keychain : Keychain K}

theorem get_key_some {is_private : Bool} {keypaths : List KeyPath} {start found : Nat} {parent hdkey : K}
    (search : get_key wally is_private keypaths start parent = some (found, hdkey)) :
    start ≤ found ∧ ∃ item, keypaths[found]? = some item ∧ wally.keypath_key is_private parent item = some hdkey := by
  obtain ⟨past, item, at_found, owned⟩ := searchKey_some search
  refine ⟨past, item, ?_, owned⟩
  rw [List.getElem?_drop] at at_found
  rwa [show start + (found - start) = found by omega] at at_found

/-- What a valid iterator points at. -/
theorem key_iter_from_some {is_private : Bool} {keypaths : List KeyPath} {start : Nat} {recovery : Bool}
    {iter : KeyIter K} (valid : key_iter_from wally keychain is_private keypaths start recovery = some iter) :
    iter.keypaths = keypaths ∧ iter.is_private = is_private ∧ start ≤ iter.key_index ∧
      ∃ item parent, keypaths[iter.key_index]? = some item ∧
        wally.keypath_key is_private parent item = some iter.hdkey ∧
        (parent = keychain.xpriv ∨ keypaths.length = 3 ∧
          ∃ path, parent = wally.bip32_key_from_parent_path keychain.xpriv path) := by
  unfold key_iter_from at valid
  cases own : get_key wally is_private keypaths start keychain.xpriv with
  | some hit =>
    obtain ⟨found, hdkey⟩ := hit
    rw [own] at valid
    cases valid
    obtain ⟨past, item, at_found, owned⟩ := get_key_some own
    exact ⟨rfl, rfl, past, item, keychain.xpriv, at_found, owned, .inl rfl⟩
  | none =>
    rw [own] at valid
    simp only [bne_iff_ne, ne_eq, ite_not] at valid
    split at valid
    · next three =>
      split at valid
      · cases valid
      · split at valid
        · cases valid
        · split at valid
          · cases valid
          · next recovery_hdkey derived =>
            simp only [Option.map_eq_some_iff] at valid
            obtain ⟨⟨found, hdkey⟩, search, rfl⟩ := valid
            obtain ⟨past, item, at_found, owned⟩ := get_key_some search
            simp only [key_iter_get_green_2of3_recovery_key, Option.map_eq_some_iff] at derived
            obtain ⟨user, _, rfl⟩ := derived
            exact ⟨rfl, rfl, past, item, _, at_found, owned, .inr ⟨three, _, rfl⟩⟩
    · cases valid

theorem key_iter_init_some {is_private : Bool} {map : KeyMap} {iter : KeyIter K}
    (valid : key_iter_init wally keychain is_private map = some iter) :
    key_iter_from wally keychain is_private map.keypaths 0 false = some iter := by
  unfold key_iter_init at valid
  split at valid
  · cases valid
  · exact valid

theorem key_iter_from_index_lt {is_private : Bool} {keypaths : List KeyPath} {start : Nat} {recovery : Bool}
    {iter : KeyIter K} (valid : key_iter_from wally keychain is_private keypaths start recovery = some iter) :
    iter.key_index < keypaths.length := by
  obtain ⟨_, _, _, item, _, at_index, _, _⟩ := key_iter_from_some valid
  exact (List.getElem?_eq_some_iff.mp at_index).1

end

/-! ### What the script checks say -/

section
variable {K ε : Type} {wally : Wally K} {iter : KeyIter K}

/-- The script a registered multisig derives at a path. -/
def multisigAt (wally : Wally K) (data : MultisigData) (path : Path) : Option Bytes :=
  (data.xpubs.mapM fun xpub => (wallet_derive_pubkey wally xpub path).map wally.pub_key).bind
    (multisigScript wally data.variant data.sorted data.threshold)

theorem signerPubkeys_mapM {path : Path} {xpubs pubkeys : List Bytes}
    (derived : signerPubkeys wally iter path xpubs = some pubkeys) :
    (xpubs.mapM fun xpub => (wallet_derive_pubkey wally xpub path).map wally.pub_key) = some pubkeys ∧
      pubkeys.length = xpubs.length := by
  induction xpubs generalizing pubkeys with
  | nil =>
    cases derived
    exact ⟨rfl, rfl⟩
  | cons xpub rest ih =>
    simp only [signerPubkeys] at derived
    split at derived
    · cases derived
    · next hdkey own =>
      split at derived
      · cases derived
      · simp only [Option.map_eq_some_iff] at derived
        obtain ⟨later, at_rest, rfl⟩ := derived
        obtain ⟨mapped, len⟩ := ih at_rest
        simp [List.mapM_cons, own, mapped, len]

theorem verify_multisig_abort {data : MultisigData} {path : Path} {target_script : Bytes}
    (empty : path = [] ∨ target_script = []) :
    (verify_multisig_script_matches wally iter data path target_script : Check ε Bool) = .error .abort := by
  rcases empty with rfl | rfl
  · rfl
  · cases path <;> rfl

/-- With a path and a script, the check answers; if it agrees, the record derives the script. -/
theorem verify_multisig_spec (lawful : wally.Lawful) {data : MultisigData} {path : Path} {target_script : Bytes}
    (some_path : path ≠ []) (some_script : target_script ≠ []) :
    ∃ agrees, (verify_multisig_script_matches wally iter data path target_script : Check ε Bool) = .ok agrees ∧
      (agrees = true → multisigAt wally data path = some target_script) := by
  simp only [verify_multisig_script_matches, List.isEmpty_eq_false_iff.mpr some_path,
    List.isEmpty_eq_false_iff.mpr some_script, Bool.not_false, Check.ensure_true, Check.ok_bind, Check.pure_eq]
  split
  · exact ⟨false, rfl, by simp⟩
  · split
    · exact ⟨false, rfl, by simp⟩
    · cases derived : signerPubkeys wally iter path data.xpubs with
      | none => exact ⟨false, rfl, by simp⟩
      | some pubkeys =>
        obtain ⟨mapped, len⟩ := signerPubkeys_mapM derived
        simp only []
        rw [build_multisig_script_eq lawful data.variant data.sorted data.some_threshold
          (by rw [len]; exact data.enough) (by rw [len]; exact data.allowed)]
        refine ⟨_, rfl, ?_⟩
        intro agrees
        simpa [multisigAt, mapped] using agrees

theorem verify_singlesig_spec (lawful : wally.Lawful) {variant : Variant} (single : is_singlesig variant = true)
    (hdkey : K) (target_script : Bytes) :
    ∃ agrees, (verify_singlesig_script_matches wally variant hdkey target_script : Check ε Bool) = .ok agrees ∧
      (agrees = true → singlesigScript wally variant (wally.pub_key hdkey) = some target_script) := by
  simp only [verify_singlesig_script_matches, single, Check.ensure_true, Check.ok_bind, Check.pure_eq]
  split
  · exact ⟨false, rfl, by simp⟩
  · rw [build_singlesig_script_eq lawful]
    exact ⟨_, rfl, fun agrees => by simpa using agrees⟩

theorem verify_ga_abort {keychain : Keychain K} {network_id : Network} {user_key : K} {recovery_key : Option Bytes}
    {path : Path} :
    (verify_ga_script_matches wally keychain network_id user_key recovery_key path [] : Check ε Bool) =
      .error .abort := rfl

theorem verify_ga_isOk (lawful : wally.Lawful) (keychain : Keychain K) (network_id : Network) (user_key : K)
    (recovery_key : Option Bytes) (path : Path) {target_script : Bytes} (some_script : target_script ≠ []) :
    ∃ agrees, (verify_ga_script_matches wally keychain network_id user_key recovery_key path target_script :
      Check ε Bool) = .ok agrees := by
  simp only [verify_ga_script_matches, List.isEmpty_eq_false_iff.mpr some_script, Bool.not_false, Check.ensure_true,
    Check.ok_bind, Check.pure_eq]
  generalize reads :
    (if recovery_key.isSome then wally.scriptpubkey_csv_blocks_from_csv_2of2_then_1 target_script else none) = csv
  have allowed : csv.getD 0 = 0 ∨ recovery_key.isSome = true := by
    rw [← reads]
    cases recovery_key <;> simp
  obtain ⟨script, built⟩ :=
    build_ga_script_isOk (ε := ε) lawful keychain network_id user_key recovery_key (csv.getD 0) allowed path
  split
  · exact ⟨false, rfl⟩
  · rw [built]
    exact ⟨_, rfl⟩

end

/-! ### What the registered records say -/

section
variable {K ε : Type} {device : Device K} {keychain : Keychain K} {network_id : Network} {iter : KeyIter K}

/-- The record derives the script at the path: a multisig at the path itself, a
    descriptor at the final index, on its receive branch or on its change branch. -/
def Derives (device : Device K) (network_id : Network) (record : Record) (path : Path) (script : Bytes) : Prop :=
  match record with
  | .multisig _ data => multisigAt device.wally data path = some script
  | .descriptor _ data => ∃ multi_index, (multi_index = 0 ∨ multi_index = 1 ∧ 1 < path.length) ∧
      wallet_build_descriptor_script device network_id data multi_index (path.getLastD 0) = some script

/-- A record that loads for the wallet. -/
def Registered (device : Device K) (keychain : Keychain K) (record : Record) : Prop :=
  match record with
  | .multisig name data => (∃ names, device.multisig_names = some names ∧ name ∈ names) ∧
      device.multisig_load_from_storage keychain name = some data
  | .descriptor name data => (∃ names, device.descriptor_names = some names ∧ name ∈ names) ∧
      device.descriptor_load_from_storage keychain name = some data

theorem verify_descriptor_abort {data : Descriptor} {path : Path} {target_script : Bytes}
    (empty : path = [] ∨ target_script = []) :
    (verify_descriptor_script_matches device network_id iter data path target_script : Check ε Bool) =
      .error .abort := by
  rcases empty with rfl | rfl
  · rfl
  · cases path <;> rfl

theorem verify_descriptor_spec {name : RecordName} {data : Descriptor} {path : Path} {target_script : Bytes}
    (some_path : path ≠ []) (some_script : target_script ≠ []) :
    ∃ agrees, (verify_descriptor_script_matches device network_id iter data path target_script : Check ε Bool) =
        .ok agrees ∧ (agrees = true → Derives device network_id (.descriptor name data) path target_script) := by
  simp only [verify_descriptor_script_matches, verify_descriptor_script_matches_impl,
    List.isEmpty_eq_false_iff.mpr some_path, List.isEmpty_eq_false_iff.mpr some_script, Bool.not_false,
    Check.ensure_true, Check.ok_bind, Check.pure_eq]
  split
  · exact ⟨false, rfl, by simp⟩
  · by_cases longer : 1 < path.length
    · simp only [longer, decide_true, if_true]
      cases change :
        wallet_build_descriptor_script device network_id data 1 (path.getLastD 0) == some target_script with
      | true => exact ⟨true, rfl, fun _ => ⟨1, .inr ⟨rfl, longer⟩, by simpa using change⟩⟩
      | false => exact ⟨_, rfl, fun agrees => ⟨0, .inl rfl, by simpa using agrees⟩⟩
    · simp only [longer, decide_false, Bool.false_eq_true, if_false]
      exact ⟨_, rfl, fun agrees => ⟨0, .inl rfl, by simpa using agrees⟩⟩

theorem verify_record_abort {record : Record} {path : Path} {target_script : Bytes}
    (empty : path = [] ∨ target_script = []) :
    (verify_record device network_id iter record path target_script : Check ε Bool) = .error .abort := by
  cases record with
  | multisig name data => exact verify_multisig_abort empty
  | descriptor name data => exact verify_descriptor_abort empty

theorem verify_record_spec (lawful : device.Lawful) (network_id : Network) (iter : KeyIter K) (record : Record)
    {path : Path} {target_script : Bytes} (some_path : path ≠ []) (some_script : target_script ≠ []) :
    ∃ agrees, (verify_record device network_id iter record path target_script : Check ε Bool) = .ok agrees ∧
      (agrees = true → Derives device network_id record path target_script) := by
  cases record with
  | multisig name data => exact verify_multisig_spec lawful.wally some_path some_script
  | descriptor name data => exact verify_descriptor_spec some_path some_script

section
variable {α : Type} {load : RecordName → Option α} {verify : α → Check ε Bool} {names : List RecordName}

theorem firstFitting_some {name : RecordName} {data : α}
    (found : firstFitting load verify names = .ok (some (name, data))) :
    name ∈ names ∧ load name = some data ∧ verify data = .ok true := by
  induction names with
  | nil => simp [firstFitting] at found
  | cons first rest ih =>
    simp only [firstFitting] at found
    have later (at_rest : firstFitting load verify rest = .ok (some (name, data))) :
        name ∈ first :: rest ∧ load name = some data ∧ verify data = .ok true := by
      obtain ⟨mem, loads, fits⟩ := ih at_rest
      exact ⟨List.mem_cons_of_mem _ mem, loads, fits⟩
    split at found
    · exact later found
    · next loaded loads =>
      cases fits : verify loaded with
      | error h => rw [fits] at found; simp at found
      | ok agrees =>
        rw [fits] at found
        cases agrees with
        | true =>
          simp only [Check.ok_bind, if_true, Check.pure_eq, Except.ok.injEq, Option.some.injEq, Prod.mk.injEq] at found
          obtain ⟨rfl, rfl⟩ := found
          exact ⟨by simp, loads, fits⟩
        | false => exact later (by simpa using found)

theorem firstFitting_isOk (answers : ∀ data, ∃ agrees, verify data = .ok agrees) :
    ∃ found, firstFitting load verify names = .ok found := by
  induction names with
  | nil => exact ⟨none, rfl⟩
  | cons first rest ih =>
    simp only [firstFitting]
    split
    · exact ih
    · next data loads =>
      obtain ⟨agrees, fits⟩ := answers data
      rw [fits]
      cases agrees with
      | true => exact ⟨_, rfl⟩
      | false => simpa using ih

theorem firstFitting_none (unloadable : ∀ name ∈ names, load name = none) :
    firstFitting load verify names = .ok none := by
  induction names with
  | nil => rfl
  | cons first rest ih =>
    simp only [firstFitting, unloadable first (by simp)]
    exact ih fun name mem => unloadable name (List.mem_cons_of_mem _ mem)

theorem firstFitting_abort (aborts : ∀ data, verify data = .error .abort) {name : RecordName} {data : α}
    (mem : name ∈ names) (loads : load name = some data) : firstFitting load verify names = .error .abort := by
  induction names with
  | nil => simp at mem
  | cons first rest ih =>
    simp only [firstFitting]
    split
    · next unloadable =>
      rcases List.mem_cons.mp mem with rfl | mem
      · rw [loads] at unloadable
        cases unloadable
      · exact ih mem
    · rw [aborts]
      rfl

end

/-- A record that is found is registered and fits. -/
theorem findRecord_some {path : Path} {target_script : Bytes} {record : Record}
    (found : (findRecord device keychain network_id iter path target_script : Check ε (Option Record)) =
      .ok (some record)) :
    Registered device keychain record ∧
      (verify_record device network_id iter record path target_script : Check ε Bool) = .ok true := by
  simp only [findRecord, get_suitable_multisig_record, get_suitable_descriptor_record] at found
  cases empty : target_script.isEmpty with
  | true => rw [empty] at found; simp at found
  | false =>
    simp only [empty, Bool.not_false, Check.ensure_true, Check.ok_bind] at found
    obtain ⟨multi, at_multi, found⟩ := Check.bind_eq_ok.mp found
    cases multi with
    | some hit =>
      obtain ⟨name, data⟩ := hit
      cases found
      split at at_multi
      · cases at_multi
      · next names listed =>
        obtain ⟨mem, loads, fits⟩ := firstFitting_some at_multi
        exact ⟨⟨⟨names, listed, mem⟩, loads⟩, fits⟩
    | none =>
      obtain ⟨desc, at_desc, found⟩ := Check.bind_eq_ok.mp found
      cases desc with
      | none => cases found
      | some hit =>
        obtain ⟨name, data⟩ := hit
        cases found
        split at at_desc
        · cases at_desc
        · next names listed =>
          obtain ⟨mem, loads, fits⟩ := firstFitting_some at_desc
          exact ⟨⟨⟨names, listed, mem⟩, loads⟩, fits⟩

/-- With a script, and a path unless no record loads, the search answers. -/
theorem findRecord_isOk (lawful : device.Lawful) (keychain : Keychain K) (network_id : Network) (iter : KeyIter K)
    {path : Path} {target_script : Bytes} (some_script : target_script ≠ [])
    (some_path : path ≠ [] ∨ ¬∃ record, Registered device keychain record) :
    ∃ found, (findRecord device keychain network_id iter path target_script : Check ε (Option Record)) =
      .ok found := by
  have multi : ∃ found, (get_suitable_multisig_record device keychain iter path target_script :
      Check ε (Option (RecordName × MultisigData))) = .ok found := by
    simp only [get_suitable_multisig_record, List.isEmpty_eq_false_iff.mpr some_script, Bool.not_false,
      Check.ensure_true, Check.ok_bind, Check.pure_eq]
    cases listed : device.multisig_names with
    | none => exact ⟨none, rfl⟩
    | some names =>
      rcases some_path with some_path | unloadable
      · refine firstFitting_isOk fun data => ?_
        obtain ⟨agrees, answers, _⟩ := verify_multisig_spec lawful.wally some_path some_script
        exact ⟨agrees, answers⟩
      · refine ⟨none, firstFitting_none fun name mem => ?_⟩
        rw [Option.eq_none_iff_forall_ne_some]
        exact fun data loads => unloadable ⟨.multisig name data, ⟨names, listed, mem⟩, loads⟩
  have desc : ∃ found, (get_suitable_descriptor_record device keychain network_id iter path target_script :
      Check ε (Option (RecordName × Descriptor))) = .ok found := by
    simp only [get_suitable_descriptor_record, List.isEmpty_eq_false_iff.mpr some_script, Bool.not_false,
      Check.ensure_true, Check.ok_bind, Check.pure_eq]
    cases listed : device.descriptor_names with
    | none => exact ⟨none, rfl⟩
    | some names =>
      rcases some_path with some_path | unloadable
      · refine firstFitting_isOk fun data => ?_
        obtain ⟨agrees, answers, _⟩ := verify_record_spec lawful network_id iter
          (.descriptor ⟨"", by decide⟩ data) some_path some_script
        exact ⟨agrees, answers⟩
      · refine ⟨none, firstFitting_none fun name mem => ?_⟩
        rw [Option.eq_none_iff_forall_ne_some]
        exact fun data loads => unloadable ⟨.descriptor name data, ⟨names, listed, mem⟩, loads⟩
  obtain ⟨foundMulti, multi⟩ := multi
  obtain ⟨foundDesc, desc⟩ := desc
  rw [findRecord, multi]
  cases foundMulti with
  | some hit => exact ⟨_, rfl⟩
  | none =>
    simp only [Check.ok_bind]
    rw [desc]
    cases foundDesc with
    | some hit => exact ⟨_, rfl⟩
    | none => exact ⟨_, rfl⟩

/-- Otherwise the search runs into an assertion. -/
theorem findRecord_abort {path : Path} {target_script : Bytes}
    (empty : target_script = [] ∨ path = [] ∧ ∃ record, Registered device keychain record) :
    (findRecord device keychain network_id iter path target_script : Check ε (Option Record)) = .error .abort := by
  by_cases no_script : target_script = []
  · subst no_script
    rfl
  · obtain ⟨rfl, record, registered⟩ := empty.resolve_left no_script
    have multi_aborts (data : MultisigData) :
        (verify_multisig_script_matches device.wally iter data [] target_script : Check ε Bool) = .error .abort :=
      verify_multisig_abort (.inl rfl)
    have desc_aborts (data : Descriptor) :
        (verify_descriptor_script_matches device network_id iter data [] target_script : Check ε Bool) =
          .error .abort :=
      verify_descriptor_abort (.inl rfl)
    simp only [findRecord, get_suitable_multisig_record, get_suitable_descriptor_record,
      List.isEmpty_eq_false_iff.mpr no_script, Bool.not_false, Check.ensure_true, Check.ok_bind, Check.pure_eq]
    by_cases multi : ∃ names name data, device.multisig_names = some names ∧ name ∈ names ∧
        device.multisig_load_from_storage keychain name = some data
    · obtain ⟨names, name, data, listed, mem, loads⟩ := multi
      rw [listed]
      simp only [firstFitting_abort multi_aborts mem loads, Check.error_bind]
    · have no_multi : (match device.multisig_names with
          | none => .ok none
          | some names => firstFitting (device.multisig_load_from_storage keychain)
              (fun data => verify_multisig_script_matches device.wally iter data [] target_script) names :
            Check ε (Option (RecordName × MultisigData))) = .ok none := by
        split
        · rfl
        · next names listed =>
          refine firstFitting_none fun name mem => ?_
          rw [Option.eq_none_iff_forall_ne_some]
          exact fun data loads => multi ⟨names, name, data, listed, mem, loads⟩
      rw [no_multi]
      cases record with
      | multisig name data =>
        obtain ⟨⟨names, listed, mem⟩, loads⟩ := registered
        exact absurd ⟨names, name, data, listed, mem, loads⟩ multi
      | descriptor name data =>
        obtain ⟨⟨names, listed, mem⟩, loads⟩ := registered
        simp only [Check.ok_bind]
        rw [listed]
        simp only [firstFitting_abort desc_aborts mem loads, Check.error_bind]

end

end PiJade.Psbt
