import Mathlib.Data.List.Basic
import Mathlib.Tactic.Common
import PiJade.PsbtRuns

/-!
What a user does not see: an output without a screen, in a run that has come to the fee
screen, is change of the wallet in use. Either it is the single-key script of a key of
the wallet, on the standard change path; or one registered record derives it and every
input the wallet signs, as far as the path of the input fits the buffer for paths. A
descriptor is tried on its change branch and then on its receive branch.
-/
namespace PiJade.PsbtChange
set_option linter.unusedSimpArgs false
open Wallet Psbt SignPsbt PsbtInputs PsbtOutputs PsbtScreens PsbtRuns

section
variable {K : Type} (device : Device K) (network_id : Network) (psbt : WallyPsbt) (keychain : Keychain K)
variable (output : Output)

/-- The standard change path of a script variant. -/
def StandardChangePath (variant : Variant) (path : Path) : Prop :=
  ∃ purpose account ptr, path = [purpose, get_bip44_coin_type network_id, account, 1, ptr] ∧
    get_script_variant_purpose variant = some purpose ∧ SUBACT_FLOOR ≤ account ∧ account < SUBACT_CEILING ∧
    ptr < MAX_PATH_PTR

/-- Change to a single key of the wallet, while a single-key input is signed. -/
def SingleKeyChange : Prop :=
  ∃ item variant, output.keyMap.keypaths = [item] ∧
    IsKey item.key (device.wally.pub_key (device.wally.bip32_key_from_parent_path keychain.xpriv item.path)) ∧
    outputVariant device output.script = some variant ∧ StandardChangePath network_id variant item.path ∧
    singlesigScript device.wally variant
      (device.wally.pub_key (device.wally.bip32_key_from_parent_path keychain.xpriv item.path)) = some output.script ∧
    SignsSingleKey device keychain psbt.inputs

/-- The record derives the script that a signed input spends, where its path can be read. -/
def SpendsFrom (record : Record) (input : Input) : Prop :=
  ∀ iter path utxo, signer device keychain input = some iter → key_iter_get_path iter MAX_PATH_LEN = some path →
    input.utxo = some utxo → Derives device network_id record (pathTail path) utxo.script

/-- Change of one registered record, while only its inputs are signed. -/
def RecordChange : Prop :=
  ∃ record, Registered device keychain record ∧
    (∀ input ∈ psbt.inputs, (signer device keychain input).isSome = true →
      SeveralKeys device keychain network_id input ∧ SpendsFrom device network_id keychain record input) ∧
    ∃ iter path front ptr, owned device keychain output = some (iter, path) ∧ pathTail path = front ++ [1, ptr] ∧
      Derives device network_id record (pathTail path) output.script

variable {device network_id psbt keychain output}

/-! ### Single keys -/

theorem standardChangePath_of_expected {variant : Variant} {path : Path}
    (expected : wallet_is_expected_singlesig_path network_id variant true path = true) :
    StandardChangePath network_id variant path := by
  unfold wallet_is_expected_singlesig_path at expected
  split at expected
  · next purpose coin account change ptr =>
    simp only [Bool.and_eq_true, beq_iff_eq, decide_eq_true_eq, changeElement, if_true] at expected
    obtain ⟨⟨⟨⟨⟨at_purpose, rfl⟩, floor⟩, ceiling⟩, rfl⟩, below⟩ := expected
    exact ⟨purpose, account, ptr, rfl, at_purpose.symm, floor, ceiling, below⟩
  · cases expected

/-- What the key and the path of an output are. -/
theorem owned_item {iter : KeyIter K} {path : Path} (own : owned device keychain output = some (iter, path)) :
    iter.keypaths = output.keyMap.keypaths ∧ ∃ item parent, output.keyMap.keypaths[iter.key_index]? = some item ∧
      item.path = path ∧ device.wally.keypath_key false parent item = some iter.hdkey ∧
      (parent = keychain.xpriv ∨ output.keyMap.keypaths.length = 3) := by
  simp only [owned, Option.bind_eq_some_iff] at own
  obtain ⟨begun, begins, found, at_path, fits⟩ := own
  split at fits
  · cases fits
  · cases fits
    obtain ⟨same, _, _, item, parent, at_index, belongs, origin⟩ := key_iter_from_some (key_iter_init_some begins)
    refine ⟨same, item, parent, at_index, ?_, belongs, origin.imp_right And.left⟩
    simp only [key_iter_get_path, same, at_index] at at_path
    split at at_path
    · exact Option.some.inj at_path
    · cases at_path

theorem singleKeyChange_of_hidden (lawful : device.Lawful) {iter : KeyIter K} {path : Path}
    (own : owned device keychain output = some (iter, path)) (one : key_iter_get_num_keys iter = 1)
    (signs : SignsSingleKey device keychain psbt.inputs)
    (hidden : HiddenSingle device network_id iter path output.script) :
    SingleKeyChange device network_id psbt keychain output := by
  obtain ⟨variant, ⟨shows, verified⟩, _, expected⟩ := hidden
  obtain ⟨same, item, parent, at_index, rfl, belongs, origin⟩ := owned_item own
  rw [key_iter_get_num_keys, same] at one
  obtain ⟨only, single⟩ := List.length_eq_one_iff.mp one
  have parent_eq : parent = keychain.xpriv := by
    refine origin.resolve_right fun three => ?_
    omega
  subst parent_eq
  have at_only : item = only := by
    rw [single] at at_index
    rcases List.getElem?_eq_some_iff.mp at_index with ⟨within, rfl⟩
    simp
  subst at_only
  obtain ⟨derived, is_key⟩ := lawful.wally.keypath_key_derived _ _ _ _ belongs
  obtain ⟨agrees, answer, script⟩ := verify_singlesig_spec (ε := Reply) lawful.wally
    (show is_singlesig variant = true by
      unfold outputVariant at shows
      split at shows
      · cases shows
      · exact singlesig_of_script_type shows)
    iter.hdkey output.script
  rw [verified] at answer
  cases answer
  rw [derived] at is_key script
  exact ⟨item, variant, single, is_key, shows, standardChangePath_of_expected expected, script rfl, signs⟩

/-! ### Records -/

theorem derives_of_verified (lawful : device.Lawful) {iter : KeyIter K} {record : Record} {path : Path}
    {script : Bytes}
    (verified : (verify_record device network_id iter record path script : Check Reply Bool) = .ok true) :
    Derives device network_id record path script := by
  by_cases empty : path = [] ∨ script = []
  · rw [verify_record_abort empty] at verified
    cases verified
  · obtain ⟨some_path, some_script⟩ := not_or.mp empty
    obtain ⟨agrees, answer, derives⟩ := verify_record_spec (ε := Reply) lawful network_id iter record some_path
      some_script
    rw [verified] at answer
    cases answer
    exact derives rfl

/-- Every input that was checked is one of the record. -/
theorem detected_derives (lawful : device.Lawful) {inputs : List Input} {record : Record}
    (found : detected device keychain network_id inputs = some (some record)) :
    Registered device keychain record ∧ ∀ input ∈ inputs, ∀ at_input,
      checked device keychain network_id input = some at_input →
      Derives device network_id record at_input.tail at_input.script := by
  unfold detected at found
  cases list : inputs.filterMap (checked device keychain network_id) with
  | nil =>
    rw [list] at found
    cases found
  | cons first rest =>
    rw [list] at found
    simp only [recordOf] at found
    cases suit : suits device keychain network_id first with
    | none =>
      rw [suit] at found
      cases found
    | some chosen =>
      rw [suit] at found
      simp only [] at found
      split at found
      · next all_fit =>
        cases found
        have search : (findRecord device keychain network_id first.iter first.tail first.script :
            Check Reply (Option Record)) = .ok (some record) := by
          unfold suits at suit
          split at suit
          · next answer => rw [answer, suit]
          · cases suit
        obtain ⟨registered, verified⟩ := findRecord_some search
        refine ⟨registered, fun input mem at_input check => ?_⟩
        have member : at_input ∈ first :: rest := by
          rw [← list]
          exact List.mem_filterMap.mpr ⟨input, mem, check⟩
        rcases List.mem_cons.mp member with rfl | later
        · exact derives_of_verified lawful verified
        · have fit := List.all_eq_true.mp all_fit at_input later
          unfold fits at fit
          split at fit
          · next answer => exact derives_of_verified lawful (by rw [answer, fit])
          · cases fit
      · cases found

/-- A path with change element 1 and a tail that looks as expected ends in both. -/
theorem change_tail {cosigner_index : Nat} {path : Path} (change : isChangePath path = true)
    (expected : wallet_is_expected_multisig_path cosigner_index true (pathTail path) = true) :
    ∃ front ptr, pathTail path = front ++ [1, ptr] := by
  unfold isChangePath at change
  split at change
  · next ptr branch rest backwards =>
    have one : branch = 1 := by simpa using change
    subst one
    have split : path = rest.reverse ++ [1] ++ [ptr] := by
      rw [← List.reverse_reverse path, backwards]
      simp
    rw [split, pathTail_append] at expected ⊢
    split at expected
    · simp [wallet_is_expected_multisig_path] at expected
    · next soft =>
      rw [if_neg soft, pathTail_append, if_neg (by decide)]
      exact ⟨pathTail rest.reverse, ptr, by simp⟩
  · cases change

theorem recordChange_of_hidden (lawful : device.Lawful) {iter : KeyIter K} {path : Path}
    (own : owned device keychain output = some (iter, path)) {record : Record}
    (signs : SignsRecord device keychain network_id psbt.inputs record)
    (hidden : HiddenRecord device network_id iter path output.script record) :
    RecordChange device network_id psbt keychain output := by
  obtain ⟨others, found⟩ := signs
  obtain ⟨fits, change, expected⟩ := hidden
  obtain ⟨registered, each⟩ := detected_derives lawful found
  obtain ⟨front, ptr, tail⟩ := change_tail change expected
  refine ⟨record, registered, ?_, iter, path, front, ptr, own, tail, derives_of_verified lawful fits⟩
  intro input mem signed
  obtain ⟨first, signs⟩ := Option.isSome_iff_exists.mp signed
  have several : 1 < key_iter_get_num_keys first ∧ isGreen device keychain network_id first = false := by
    obtain ⟨not_single, not_green⟩ := others input mem
    rw [singleKey_iff signs] at not_single
    rw [greenKeys_iff signs] at not_green
    have many : 1 < key_iter_get_num_keys first := by omega
    exact ⟨many, by simpa [many] using not_green⟩
  refine ⟨⟨first, signs, several⟩, ?_⟩
  intro at_key path utxo at_signer at_path spent
  rw [signs] at at_signer
  cases at_signer
  refine each input mem ⟨first, pathTail path, utxo.script⟩ ?_
  simp [checked, signs, spent, several, at_path]

/-- In every run that comes to the fee screen and signs more than green multisig inputs,
    an output that was not shown is change of the wallet in use. -/
theorem unseen_output_is_change (lawful : device.Lawful) {world : World K} (no_screen : world.shown = [])
    (unsigned : world.signatures = []) (scanned : Bool) {after : World K}
    (runs : (sign_psbt device network_id psbt scanned world).2 = after)
    (fee : ∃ shown ∈ after.shown, isFee shown.screen = true) {i : Nat} (at_i : psbt.outputs[i]? = some output)
    (unseen : ∀ shown ∈ after.shown, ¬Shows device network_id i output shown.screen)
    (not_green : ¬SignsOnlyGreen device after.keychain network_id psbt.inputs) :
    SingleKeyChange device network_id psbt after.keychain output ∨
      RecordChange device network_id psbt after.keychain output := by
  obtain ⟨keychain, _, ends⟩ := sign_psbt_outcome lawful network_id psbt world no_screen unsigned scanned
  rw [runs] at ends
  obtain ⟨in_use, answer, questions, screens, fees, warning, log, _, reviewed, _⟩ := ends.fee_reached fee
  subst in_use
  rcases reviewed.complete i output at_i with hidden | ⟨screen, mem, shows⟩
  · obtain ⟨iter, path, own, ⟨one, signs, single⟩ | ⟨_, green, _⟩ | ⟨_, record, signs, of_record⟩⟩ := hidden
    · exact .inl (singleKeyChange_of_hidden lawful own one signs single)
    · exact absurd green not_green
    · exact .inr (recordChange_of_hidden lawful own signs of_record)
  · refine absurd shows (unseen (accepted screen) ?_)
    rw [log]
    exact List.mem_append_left _ (List.mem_append_right _ (List.mem_map_of_mem mem))

end

/-! ### Two wallets to try it on -/

/-- A number in big-endian bytes. -/
def bigEndian : (len : Nat) → Nat → Bytes
  | 0, _ => []
  | len + 1, n => UInt8.ofNat (n / 256 ^ len) :: bigEndian len n

theorem bigEndian_length (len n : Nat) : (bigEndian len n).length = len := by
  induction len with
  | zero => rfl
  | succ len ih => simp [bigEndian, ih]

/-- Master keys: of the twelve words "abandon … about", of "zoo … wrong", and the green
    service's on the main network. -/
inductive Master where
  | wallet
  | cosigner
  | service
  deriving DecidableEq, Repr

/-- A key, as the path from its master key. -/
structure SampleKey where
  master : Master
  path : Path := []
  deriving DecidableEq, Repr

/-- The native segwit path of the account. -/
def accountPath (change ptr : UInt32) : Path := [harden 84, harden 0, harden 0, change, ptr]

/-- The multisig path behind the account key. -/
def cosignerPath (tail : Path) : Path := [harden 48, harden 0, harden 0, harden 2] ++ tail

/-- A tail that makes the path one element longer than the buffer for paths. -/
def longTail : Path := List.replicate 13 0

/-- The public keys that the examples meet. -/
def samplePubKeys : List (SampleKey × Nat) := [
  (⟨.wallet, accountPath 0 0⟩, 0x0330d54fd0dd420a6e5f8d3624f5f3482cae350f79d5f0753bf5beef9c2d91af3c),
  (⟨.wallet, accountPath 1 0⟩, 0x03025324888e429ab8e3dbaf1f7802648b9cd01e9b418485c5fa4c1b9b5700e1a6),
  (⟨.cosigner, accountPath 0 0⟩, 0x030756317ceec8a038de22a93abac5ea45b6cf496a9a32fb19008c460f468da4ed),
  (⟨.wallet, cosignerPath [0, 0]⟩, 0x03dc1953c2756c7c58d4f48ca1bbba767f414fd236bf4d662b67721ac626c514e0),
  (⟨.cosigner, cosignerPath [0, 0]⟩, 0x0254689c4a585b8f3d9ddea8e9e68d0e8f49f75709fa6e7d075657573815958a81),
  (⟨.wallet, cosignerPath [1, 0]⟩, 0x03481c36858b555f4d2324c0551be2e9938d828a3c500015549a985bbd8d6faffe),
  (⟨.cosigner, cosignerPath [1, 0]⟩, 0x024519266ed6acdd880aa0473bfc4457795e2a1b6921002e46c88336f7fd2c9cdb),
  (⟨.wallet, cosignerPath [1, 5]⟩, 0x03a20462bd44285efab8e3a43e8fffb3c0e931ba77e7bd822e33c4f69507baac52),
  (⟨.cosigner, cosignerPath [1, 5]⟩, 0x028c15de5647286b397e6e134a693845168269c559d1dfcd639f4caac3f8d808b0),
  (⟨.wallet, cosignerPath []⟩, 0x021a3bf5fbf737d0f36993fd46dc4913093beb532d654fe0dfd98bd27585dc9f29),
  (⟨.cosigner, cosignerPath []⟩, 0x030e435aae36818255097925c6d2cedae9867961a5ddcc2e80bd6a0d00687286c3),
  (⟨.wallet, cosignerPath longTail⟩, 0x0350bb3407a70d1d1dad9d2ed7be2d83b9ec07c675bab501ab9e41e804594b5db9),
  (⟨.cosigner, cosignerPath longTail⟩, 0x0325fc16f69b01d3360c3722b7bb32f53f07589a06838103f353ce0fcd4fe10315)]

def samplePubKey (key : SampleKey) : Bytes := bigEndian 33 ((samplePubKeys.lookup key).getD 0)

def sampleFingerprint : SampleKey → Bytes
  | ⟨.wallet, []⟩ => bigEndian 4 0x73c5da0a
  | ⟨.cosigner, []⟩ => bigEndian 4 0x3f635a63
  | ⟨.service, []⟩ => bigEndian 4 0x96a5a9df
  | _ => bigEndian 4 0

/-- Where the payments go. -/
def paymentProgram : Nat := 0x0014b3fa5b8fce924d9ccc459bb337153fb81ebdc13a
def paymentAddress : String := "bc1qk0a9hr7wjfxeenz9nwenw9flhq0tmsf6vsgnn2"

/-- The native segwit scripts of the single keys above. -/
def sampleWitnessPrograms : List (Bytes × Nat) := [
  (samplePubKey ⟨.wallet, accountPath 0 0⟩, 0x0014c0cebcd6c3d3ca8c75dc5ec62ebe55330ef910e2),
  (samplePubKey ⟨.wallet, accountPath 1 0⟩, 0x00143e34985dca6fddc9fb369940e4c7d8e2873f529c),
  (samplePubKey ⟨.cosigner, accountPath 0 0⟩, paymentProgram)]

def sampleScriptType : Bytes → ScriptType
  | 0x00 :: 0x14 :: program => if program.length = 20 then .P2WPKH else .OTHER
  | 0x00 :: 0x20 :: program => if program.length = 32 then .P2WSH else .OTHER
  | 0x51 :: 0x20 :: program => if program.length = 32 then .P2TR else .OTHER
  | 0x6a :: _ => .OP_RETURN
  | _ => .OTHER

/-- libwally on the keys above. What the examples do not ask for is left blank, at its
    right length. -/
def sampleWally : Wally SampleKey where
  pub_key := samplePubKey
  fingerprint := sampleFingerprint
  bip32_key_unserialize _ := none
  bip32_key_from_parent_path parent path := { parent with path := parent.path ++ path }
  keypath_key _ parent item :=
    let derived : SampleKey := { parent with path := parent.path ++ item.path }
    if item.fingerprint = sampleFingerprint parent ∧
        (item.key = samplePubKey derived ∨ item.key = (samplePubKey derived).drop 1) then some derived
    else none
  scriptpubkey_type := sampleScriptType
  witness_program_from_bytes bytes
    | .HASH160 => bigEndian 22 ((sampleWitnessPrograms.lookup bytes).getD 0)
    | .SHA256 => bigEndian 34 0
  scriptpubkey_p2sh_from_bytes _ := bigEndian 23 0
  scriptpubkey_p2pkh_from_bytes _ := bigEndian 25 0
  scriptpubkey_p2tr_from_bytes _ := bigEndian 34 0
  scriptpubkey_multisig_from_bytes pubkeys _ _ := bigEndian (MULTISIG_SCRIPT_LEN pubkeys.length) 0
  scriptpubkey_csv_2of2_then_1_from_bytes _ _ := []
  scriptpubkey_csv_blocks_from_csv_2of2_then_1 _ := none
  base58_from_bytes _ := "-"
  addr_segwit_from_bytes script _ := if script = bigEndian 22 paymentProgram then paymentAddress else "-"
  ga_service _ := ⟨.service, []⟩

theorem sampleWally_lawful : sampleWally.Lawful := by
  refine ⟨?_, fun _ => bigEndian_length 33 _, fun _ => bigEndian_length 22 _, fun _ => bigEndian_length 34 _,
    fun _ => bigEndian_length 23 _, fun _ => bigEndian_length 25 _, fun _ => bigEndian_length 34 _,
    fun _ _ _ => bigEndian_length _ _, ?_, ?_, ?_⟩
  · intro is_private parent item key found
    simp only [sampleWally] at found
    split at found
    · next belongs =>
      cases found
      exact ⟨rfl, belongs.2⟩
    · cases found
  · intro script type
    simp only [sampleWally] at type
    unfold sampleScriptType at type
    split at type <;> first | rfl | (split at type <;> cases type) | cases type
  · intro bytes _
    simp only [sampleWally]
    decide
  · intro script hrp
    simp only [sampleWally]
    split <;> decide

def sampleName : RecordName := ⟨"cold", by decide⟩

/-- The two wallets' two-of-two. -/
def sampleDescriptor : Descriptor where
  script := "wsh(sortedmulti(2,@0/<0;1>/*,@1/<0;1>/*))"
  values := [
    ("@0", "[73c5da0a/48h/0h/0h/2h]xpub6DkFAXWQ2dHxq2vatrt9qyA3bXYU4ToWQwCHbf5XB2mSTexcHZCeKS1VZYcPoBd5X8yVcbX" ++
      "FHJR9R8UCVpt82VX1VhR28mCyxUFL4r6KFrf"),
    ("@1", "[3f635a63/48h/0h/0h/2h]xpub6FHZCoNb3tg3o1GAJQxSwgFNF8mLRtTk2GgkF7n5rwzoxBhUEdFWa8cyZRHqytAzKZWsKz8" ++
      "627cQEMCCfR5GDSv6yXegqirpgDUX41Pxybr")]

/-- The scripts of the descriptor, by branch and index. -/
def sampleDescriptorScripts : List ((Nat × UInt32) × Nat) := [
  ((0, 0), 0x0020b070986bf705e2336a2ecfab1a4d31b8028bd9abdef6cfcde41c20c7f3f7dcd1),
  ((0, 5), 0x0020055ce696217a9a7ac8b323bf9c8bbac725175f37da5127ba19a5d41d95bc2cbc),
  ((1, 0), 0x0020cc83b17af207c23c68983d143d1e8eff22cd96f64d7d376ba60031d1e488d5b2),
  ((1, 5), 0x00204dfb6e89f7ae7fa8f6b72a45f445f81baab9b05d7cc827b55a9494c821690e48)]

def descriptorScript (multi_index : Nat) (index : UInt32) : Bytes :=
  bigEndian 34 ((sampleDescriptorScripts.lookup (multi_index, index)).getD 0)

def sampleWallet : Keychain SampleKey := ⟨⟨.wallet, []⟩, List.replicate 32 0⟩
def sampleCosigner : Keychain SampleKey := ⟨⟨.cosigner, []⟩, List.replicate 32 0⟩

/-- Both wallets are loaded; the first has the descriptor registered. -/
def sampleDevice : Device SampleKey where
  wally := sampleWally
  slots := [sampleWallet, sampleCosigner]
  multisig_names := some []
  multisig_load_from_storage _ _ := none
  descriptor_names := some [sampleName]
  descriptor_load_from_storage keychain name :=
    if keychain.xpriv = ⟨.wallet, []⟩ ∧ name = sampleName then some sampleDescriptor else none
  descriptor_to_script _ _ multi_index index := some (descriptorScript multi_index index)
  input_signature_type input :=
    if input.utxo.any fun utxo => sampleScriptType utxo.script == .P2TR then .SW_V1 else .SW_V0
  input_signature_hash _ _ := some (bigEndian 32 0)
  sign_input_bip32 _ _ _ _ _ := true

theorem sampleDevice_lawful : sampleDevice.Lawful := by
  refine ⟨sampleWally_lawful, ?_⟩
  intro input utxo spent _
  simp only [sampleDevice, spent, Option.any_some, beq_iff_eq, sampleWally]
  split <;> simp_all

def keyAt (master : Master) (path : Path) : KeyPath :=
  ⟨samplePubKey ⟨master, path⟩, sampleFingerprint ⟨master, []⟩, path⟩

def singleKeyScript (key : SampleKey) : Bytes := sampleWally.witness_program_from_bytes (samplePubKey key) .HASH160

def bothKeysAt (tail : Path) : List KeyPath :=
  [keyAt .wallet (cosignerPath tail), keyAt .cosigner (cosignerPath tail)]

def payment : Output := { script := singleKeyScript ⟨.cosigner, accountPath 0 0⟩, satoshi := 60000 }

/-- The screen of the payment where it is the only output shown. -/
def paymentAccepted : Shown :=
  accepted (.output 0 "Output 1/1" paymentAddress payment.script 60000 ⟨"0.00060000", "BTC"⟩ false "")

/-- The user accepts whatever is shown. -/
def sampleWorld : World SampleKey := { keychain := sampleWallet, presses := List.replicate 2 .BTN_SIGNTX_ACCEPT }

def singleKeyChange : Output where
  keypaths := [keyAt .wallet (accountPath 1 0)]
  script := singleKeyScript ⟨.wallet, accountPath 1 0⟩
  satoshi := 35000

def singleKeyInput : Input where
  keypaths := [keyAt .wallet (accountPath 0 0)]
  utxo := some ⟨100000, singleKeyScript ⟨.wallet, accountPath 0 0⟩⟩

/-- A payment with change, from a single-key input. -/
def singleKeyPsbt : WallyPsbt where
  inputs := [singleKeyInput]
  outputs := [payment, singleKeyChange]

theorem singleKey_of_any {K : Type} {device : Device K} {keychain : Keychain K} {input : Input}
    (few : (signer device keychain input).any (fun iter => decide (key_iter_get_num_keys iter ≤ 1)) = true) :
    SingleKey device keychain input := by
  cases at_iter : signer device keychain input with
  | none => simp [at_iter] at few
  | some iter => exact ⟨iter, at_iter, by simpa [at_iter] using few⟩

theorem severalKeys_of_any {K : Type} {device : Device K} {keychain : Keychain K} {network_id : Network} {input : Input}
    (several : (signer device keychain input).any (fun iter =>
      decide (1 < key_iter_get_num_keys iter) && !isGreen device keychain network_id iter) = true) :
    SeveralKeys device keychain network_id input := by
  cases at_iter : signer device keychain input with
  | none => simp [at_iter] at several
  | some iter => exact ⟨iter, at_iter, by simpa [at_iter] using several⟩

/-- The payment is shown, and the change, which is not shown, is the wallet's. -/
theorem unseen_output_is_change_single :
    SingleKeyChange sampleDevice .BITCOIN singleKeyPsbt sampleWallet singleKeyChange ∨
      RecordChange sampleDevice .BITCOIN singleKeyPsbt sampleWallet singleKeyChange := by
  have log : (sign_psbt sampleDevice .BITCOIN singleKeyPsbt false sampleWorld).2.shown =
      [paymentAccepted, accepted (.fee 5000 ⟨"0.00005000", "BTC"⟩ "")] := by
    decide +kernel
  have in_use : (sign_psbt sampleDevice .BITCOIN singleKeyPsbt false sampleWorld).2.keychain = sampleWallet := rfl
  have single : SingleKey sampleDevice sampleWallet singleKeyInput := singleKey_of_any (by decide +kernel)
  rw [← in_use]
  refine unseen_output_is_change (i := 1) sampleDevice_lawful rfl rfl false rfl ?_ rfl ?_ ?_
  · rw [log]
    decide
  · rw [log]
    simp [Shows, accepted, paymentAccepted]
  · rw [in_use]
    rintro ⟨_, only⟩
    exact (only singleKeyInput (by simp [singleKeyPsbt])).1 single

/-! ### Outputs hidden that are not on the change branch -/

section
variable {K : Type} (device : Device K) (network_id : Network) (psbt : WallyPsbt) (keychain : Keychain K)
variable (output : Output)

/-- The record derives the script on its change branch, at the final index of the path. -/
def OnChangeBranch (record : Record) (path : Path) (script : Bytes) : Prop :=
  match record with
  | .multisig _ data =>
    (∃ front ptr, path = front ++ [1, ptr]) ∧ multisigAt device.wally data path = some script
  | .descriptor _ data => wallet_build_descriptor_script device network_id data 1 (path.getLastD 0) = some script

/-- One record derives every signed input at the path of its key, however long, and the
    output on its change branch. -/
def StrictRecordChange : Prop :=
  ∃ record, Registered device keychain record ∧
    (∀ input ∈ psbt.inputs, ∀ iter, signer device keychain input = some iter → 1 < key_iter_get_num_keys iter ∧
      ∃ item utxo, iter.keypaths[iter.key_index]? = some item ∧ input.utxo = some utxo ∧
        Derives device network_id record (pathTail item.path) utxo.script) ∧
    ∃ iter path, owned device keychain output = some (iter, path) ∧
      OnChangeBranch device network_id record (pathTail path) output.script

end

def twoKeyInput : Input where
  keypaths := bothKeysAt [0, 0]
  utxo := some ⟨100000, descriptorScript 0 0⟩

/-- Keys on the change branch, at the script of the receive branch. -/
def receiveScript : Output where
  keypaths := bothKeysAt [1, 5]
  script := descriptorScript 0 5
  satoshi := 35000

def receiveScriptPsbt : WallyPsbt where
  inputs := [twoKeyInput]
  outputs := [payment, receiveScript]

/-- An input of the same keys that the descriptor does not derive, on a long path. -/
def longPathInput : Input where
  keypaths := bothKeysAt longTail
  utxo := some ⟨50000, bigEndian 34 0x0020b2cfd1713ec5603b4140f01387d6bc0bea9067e83dc80c8f53e7baa14d4a0ebc⟩

def twoKeyChange : Output where
  keypaths := bothKeysAt [1, 0]
  script := descriptorScript 1 0
  satoshi := 85000

def longPathPsbt : WallyPsbt where
  inputs := [twoKeyInput, longPathInput]
  outputs := [payment, twoKeyChange]

theorem registered_sample {record : Record} (registered : Registered sampleDevice sampleWallet record) :
    record = .descriptor sampleName sampleDescriptor := by
  cases record with
  | multisig name data =>
    obtain ⟨_, loads⟩ := registered
    cases loads
  | descriptor name data =>
    obtain ⟨_, loads⟩ := registered
    simp only [sampleDevice] at loads
    split at loads
    · next same =>
      cases loads
      rw [same.2]
    · cases loads

theorem not_onlyGreen_of_two {inputs : List Input} (mem : twoKeyInput ∈ inputs) :
    ¬SignsOnlyGreen sampleDevice sampleWallet .BITCOIN inputs := by
  rintro ⟨_, only⟩
  exact (only twoKeyInput mem).2 (severalKeys_of_any (by decide +kernel))

/-- A change output of the descriptor is hidden at the script of its receive branch, and
    next to a signed input that the descriptor does not derive. -/
theorem hidden_off_change_branch :
    ((sign_psbt sampleDevice .BITCOIN receiveScriptPsbt false sampleWorld).2.shown =
        [paymentAccepted, accepted (.fee 5000 ⟨"0.00005000", "BTC"⟩ "")] ∧
      ¬SignsOnlyGreen sampleDevice sampleWallet .BITCOIN receiveScriptPsbt.inputs ∧
      ¬SingleKeyChange sampleDevice .BITCOIN receiveScriptPsbt sampleWallet receiveScript ∧
      ¬StrictRecordChange sampleDevice .BITCOIN receiveScriptPsbt sampleWallet receiveScript) ∧
    ((sign_psbt sampleDevice .BITCOIN longPathPsbt false sampleWorld).2.shown =
        [paymentAccepted, accepted (.fee 5000 ⟨"0.00005000", "BTC"⟩ "")] ∧
      ¬SignsOnlyGreen sampleDevice sampleWallet .BITCOIN longPathPsbt.inputs ∧
      ¬SingleKeyChange sampleDevice .BITCOIN longPathPsbt sampleWallet twoKeyChange ∧
      ¬StrictRecordChange sampleDevice .BITCOIN longPathPsbt sampleWallet twoKeyChange) := by
  refine ⟨⟨by decide +kernel, not_onlyGreen_of_two (by simp [receiveScriptPsbt]), ?_, ?_⟩,
    ⟨by decide +kernel, not_onlyGreen_of_two (by simp [longPathPsbt]), ?_, ?_⟩⟩
  · rintro ⟨item, _, single, _⟩
    have two := congrArg List.length single
    cases two
  · rintro ⟨record, registered, _, iter, path, own, branch⟩
    cases registered_sample registered
    have at_path : (owned sampleDevice sampleWallet receiveScript).map Prod.snd = some (cosignerPath [1, 5]) := by
      decide +kernel
    rw [own] at at_path
    cases at_path
    revert branch
    show ¬(wallet_build_descriptor_script sampleDevice .BITCOIN sampleDescriptor 1
      ((pathTail (cosignerPath [1, 5])).getLastD 0) = some (descriptorScript 0 5))
    decide +kernel
  · rintro ⟨item, _, single, _⟩
    have two := congrArg List.length single
    cases two
  · rintro ⟨record, registered, each, _⟩
    cases registered_sample registered
    obtain ⟨iter, signs⟩ : ∃ iter, signer sampleDevice sampleWallet longPathInput = some iter :=
      Option.isSome_iff_exists.mp (by decide +kernel)
    obtain ⟨_, item, utxo, at_item, spent, derives⟩ := each longPathInput (by simp [longPathPsbt]) iter signs
    cases spent
    have at_path : (signer sampleDevice sampleWallet longPathInput).bind
        (fun iter => iter.keypaths[iter.key_index]?.map KeyPath.path) = some (cosignerPath longTail) := by
      decide +kernel
    rw [signs, Option.bind_some, at_item] at at_path
    have path_eq : item.path = cosignerPath longTail := Option.some.inj at_path
    rw [path_eq] at derives
    obtain ⟨multi_index, rfl | ⟨rfl, _⟩, script⟩ := derives
    · revert script
      decide +kernel
    · revert script
      decide +kernel

end PiJade.PsbtChange
