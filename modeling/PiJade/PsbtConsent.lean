import Mathlib.Data.List.Basic
import Mathlib.Tactic.Common
import PiJade.PsbtChange

/-!
What a signature needs: the user has accepted every output that is not hidden, in order,
and then the fee, which is what the inputs leave over. Without wrapping: the code adds
the input amounts up in 64 bits, so that the fee it shows is the real one as long as
their sum fits. Amounts read as they should in satoshis and below 2^26 BTC. A user who
turns a screen down ends the run without a signature; only the question about the wallet
can be answered with no and the run goes on.
-/
namespace PiJade.PsbtConsent
set_option linter.unusedSimpArgs false
open Wallet Amounts Psbt SignPsbt PsbtInputs PsbtOutputs PsbtScreens PsbtRuns PsbtChange

section
variable {K : Type} (device : Device K) (network_id : Network) (psbt : WallyPsbt)

/-- The item is a key of the wallet: derived from its master key, or from the parent of a
    green 2of3 recovery key, which is derived from that. -/
def HoldsKey (keychain : Keychain K) (item : KeyPath) : Prop :=
  ∃ parent, (parent = keychain.xpriv ∨ ∃ path, parent = device.wally.bip32_key_from_parent_path keychain.xpriv path) ∧
    IsKey item.key (device.wally.pub_key (device.wally.bip32_key_from_parent_path parent item.path))

/-- No sighash, ALL, or for taproot DEFAULT. -/
def SupportedSighash (input : Input) : Prop :=
  input.sighash = 0 ∨ input.sighash = WALLY_SIGHASH_ALL ∨
    device.input_signature_type input = .SW_V1 ∧ input.sighash = WALLY_SIGHASH_DEFAULT

/-- An amount is shown in satoshis, or is below 2^26 BTC. -/
def Readable (satoshi : UInt64) : Prop := device.denomination_sats = true ∨ satoshi.toNat < 2 ^ 26 * 10 ^ 8

/-- The amount on a screen reads as it should. -/
def ReadsRight : Screen → Prop
  | .output _ _ _ _ satoshi amount _ _ =>
    Readable device satoshi → amount = exactAmount device.denomination_sats satoshi
  | .fee fees amount _ => Readable device fees → amount = exactAmount device.denomination_sats fees
  | .switch_wallet _ _ | .nothing_to_sign => True

/-- The user has seen and accepted all there is to accept. -/
def Accepted (after : World K) : Prop :=
  ∃ questions screens fees amount warning,
    after.shown = questions ++ screens.map accepted ++ [accepted (.fee fees amount warning)] ∧
    (∀ before ∈ questions, isQuestion before.screen = true) ∧
    Reviewed device network_id psbt after.keychain screens ∧
    (∀ shown ∈ after.shown, ReadsRight device shown.screen) ∧
    (inputTotal psbt < 2 ^ 64 → totalOf (psbt.outputs.map Output.satoshi) ≤ inputTotal psbt ∧
      fees.toNat = inputTotal psbt - totalOf (psbt.outputs.map Output.satoshi))

/-- A signature that was made with the wallet in use and with consent. -/
def Consented (after : World K) (signature : Signature K) : Prop :=
  (∃ input item, psbt.inputs[signature.index]? = some input ∧
    input.keyMap.keypaths[signature.key_index]? = some item ∧ HoldsKey device after.keychain item ∧
    SupportedSighash device input) ∧ Accepted device network_id psbt after

variable {device network_id psbt}

theorem supportedSighash_of_passes {keychain : Keychain K} {input : Input} (passes : Passes device keychain input)
    (signed : (signer device keychain input).isSome = true) : SupportedSighash device input := by
  obtain ⟨iter, signs⟩ := Option.isSome_iff_exists.mp signed
  rcases passes.2 iter signs with zero | supported
  · exact .inl zero
  · unfold sighash_is_supported at supported
    split at supported
    · next taproot =>
      rcases Bool.or_eq_true_iff.mp supported with default | all
      · exact .inr (.inr ⟨taproot, eq_of_beq default⟩)
      · exact .inr (.inl (eq_of_beq all))
    · exact .inr (.inl (eq_of_beq supported))

theorem holdsKey_of_own (lawful : device.Lawful) {keychain : Keychain K} {keypaths : List KeyPath} {key_index : Nat}
    {hdkey : K} (own : OwnKey device keychain keypaths key_index hdkey) :
    ∃ item, keypaths[key_index]? = some item ∧ HoldsKey device keychain item := by
  obtain ⟨item, parent, at_index, belongs, origin⟩ := own
  obtain ⟨derived, is_key⟩ := lawful.wally.keypath_key_derived _ _ _ _ belongs
  rw [derived] at is_key
  exact ⟨item, at_index, parent, origin.imp_right And.right, is_key⟩

/-- Where the input amounts do not wrap, the fee shown is the real one. -/
theorem fee_exact (enough : psbt.total_output_satoshi ≤ inputAmount psbt) (fits : inputTotal psbt < 2 ^ 64) :
    totalOf (psbt.outputs.map Output.satoshi) ≤ inputTotal psbt ∧
      (inputAmount psbt - psbt.total_output_satoshi).toNat =
        inputTotal psbt - totalOf (psbt.outputs.map Output.satoshi) := by
  have amount : (inputAmount psbt).toNat = inputTotal psbt := by
    rw [inputAmount, UInt64.toNat_ofNat']
    exact Nat.mod_eq_of_lt fits
  have total := total_output_toNat psbt
  have below := UInt64.le_iff_toNat_le.mp enough
  rw [UInt64.toNat_sub_of_le _ _ enough]
  omega

theorem readsRight_question {screen : Screen} (question : isQuestion screen = true) : ReadsRight device screen := by
  cases screen with
  | switch_wallet => trivial
  | nothing_to_sign => trivial
  | output | fee => cases question

theorem readsRight_shows {i : Nat} {output : Output} {screen : Screen} (shows : Shows device network_id i output screen) :
    ReadsRight device screen := by
  obtain ⟨title, is_ours, warning, rfl⟩ := shows
  exact shownAmount_exact

theorem accepted_of_fee {after : World K}
    (at_fee : AtFee device network_id psbt after.keychain after.shown (some .accepted)) :
    Accepted device network_id psbt after := by
  obtain ⟨questions, screens, fees, warning, log, before, reviewed, _, enough, rfl⟩ := at_fee
  refine ⟨questions, screens, _, _, warning, log, fun shown mem => (before shown mem).1, reviewed, ?_, fee_exact enough⟩
  intro shown mem
  simp only [log, List.mem_append, List.mem_singleton, List.mem_map] at mem
  rcases mem with (question | ⟨screen, output, rfl⟩) | rfl
  · exact readsRight_question (before shown question).1
  · obtain ⟨_, _, _, shows⟩ := reviewed.each screen output
    exact readsRight_shows shows
  · exact shownAmount_exact

/-- A screen at or before the fee screen that was turned down is the fee screen itself. -/
theorem declined_at_fee {keychain : Keychain K} {log : List Shown} {answer : Option Answer}
    (at_fee : AtFee device network_id psbt keychain log answer) {shown : Shown} (mem : shown ∈ log)
    (turned_down : declines shown = true) : ∃ other, answer = some other ∧ other ≠ .accepted := by
  obtain ⟨questions, screens, fees, warning, rfl, before, _⟩ := at_fee
  rcases List.mem_append.mp mem with earlier | last
  · rcases List.mem_append.mp earlier with question | output
    · rw [(before shown question).2] at turned_down
      cases turned_down
    · obtain ⟨screen, _, rfl⟩ := List.mem_map.mp output
      rw [declines_accepted] at turned_down
      cases turned_down
  · rw [List.mem_singleton.mp last] at turned_down
    cases answer with
    | none => cases turned_down
    | some other => exact ⟨other, rfl, by simpa [declines, feeScreen] using turned_down⟩

/-- In every run, each signature was made with consent; a run in which the user turned a
    screen down ends with an error and without a signature. -/
theorem signature_needs_consent (lawful : device.Lawful) {world : World K} (no_screen : world.shown = [])
    (unsigned : world.signatures = []) (scanned : Bool) {result : Check Reply Unit} {after : World K}
    (runs : sign_psbt device network_id psbt scanned world = (result, after)) :
    (∀ signature ∈ after.signatures, Consented device network_id psbt after signature) ∧
      ∀ shown ∈ after.shown, declines shown = true →
        result = .error (.error declined) ∧ after.signatures = [] := by
  obtain ⟨keychain, _, ends⟩ := sign_psbt_outcome lawful network_id psbt world no_screen unsigned scanned
  rw [runs] at ends
  have none_made (empty : after.signatures = []) :
      ∀ signature ∈ after.signatures, Consented device network_id psbt after signature := by
    simp [empty]
  cases ends with
  | early unsigned _ turned_down _ =>
    refine ⟨none_made unsigned, ?_⟩
    intro shown mem down
    rw [turned_down shown mem down]
    exact ⟨rfl, unsigned⟩
  | waits _ unsigned at_fee =>
    refine ⟨none_made unsigned, ?_⟩
    intro shown mem down
    obtain ⟨_, no_answer, _⟩ := declined_at_fee at_fee mem down
    cases no_answer
  | rejects _ unsigned _ _ => exact ⟨none_made unsigned, fun _ _ _ => ⟨rfl, unsigned⟩⟩
  | signs in_use signed at_fee _ =>
    subst in_use
    constructor
    · intro signature mem
      refine ⟨?_, accepted_of_fee at_fee⟩
      obtain ⟨input, at_index, flagged, own⟩ := signed signature mem
      obtain ⟨item, at_key, holds⟩ := holdsKey_of_own lawful own
      obtain ⟨_, _, _, _, _, _, _, passes, _⟩ := at_fee
      exact ⟨input, item, at_index, at_key, holds,
        supportedSighash_of_passes (passes input (List.mem_of_getElem? at_index)) flagged⟩
    · intro shown mem down
      obtain ⟨other, same, not_accepted⟩ := declined_at_fee at_fee mem down
      cases same
      exact absurd rfl not_accepted

end

/-- The signature on the payment was made with consent. -/
theorem signature_needs_consent_payment :
    ∃ signature ∈ (sign_psbt sampleDevice .BITCOIN singleKeyPsbt false sampleWorld).2.signatures,
      Consented sampleDevice .BITCOIN singleKeyPsbt
        (sign_psbt sampleDevice .BITCOIN singleKeyPsbt false sampleWorld).2 signature := by
  have signed : (sign_psbt sampleDevice .BITCOIN singleKeyPsbt false sampleWorld).2.signatures =
      [⟨0, 0, ⟨.wallet, accountPath 0 0⟩⟩] := rfl
  have mem : ⟨0, 0, ⟨.wallet, accountPath 0 0⟩⟩ ∈
      (sign_psbt sampleDevice .BITCOIN singleKeyPsbt false sampleWorld).2.signatures := by
    rw [signed]
    exact List.mem_singleton_self _
  exact ⟨_, mem, (signature_needs_consent sampleDevice_lawful rfl rfl false rfl).1 _ mem⟩

/-! ### A wallet question answered with no, amounts that wrap, and one that is rounded -/

def cosignerInput : Input where
  keypaths := [keyAt .cosigner (accountPath 0 0)]
  utxo := some ⟨100000, singleKeyScript ⟨.cosigner, accountPath 0 0⟩⟩

/-- A payment of the other wallet. -/
def cosignerPsbt : WallyPsbt where
  inputs := [cosignerInput]
  outputs := [payment]

/-- The user does not switch, but goes on and accepts. -/
def stayingWorld : World SampleKey where
  keychain := sampleWallet
  presses := [.BTN_NO, .BTN_YES, .BTN_SIGNTX_ACCEPT, .BTN_SIGNTX_ACCEPT]

def largeInput : Input where
  utxo := some ⟨0x8000000000000000, singleKeyScript ⟨.cosigner, accountPath 0 0⟩⟩

/-- The payment above, with two large inputs of others added. -/
def wrappingPsbt : WallyPsbt :=
  { singleKeyPsbt with inputs := [singleKeyInput, largeInput, largeInput] }

/-- A payment of the wallet whose fee is above 2^26 BTC. -/
def roundedPsbt : WallyPsbt where
  inputs := [{ singleKeyInput with utxo := some ⟨6710886400060002, singleKeyScript ⟨.wallet, accountPath 0 0⟩⟩ }]
  outputs := [payment]

/-- A run in which the user said no to another wallet returns without an error; a run
    whose input amounts wrap signs at a fee that is not the real one; a run with a fee of
    67108864.00000002 BTC shows another one. -/
theorem no_to_switch_wrapped_and_rounded_fee :
    ((sign_psbt sampleDevice .BITCOIN cosignerPsbt true stayingWorld).2.shown =
        [⟨.switch_wallet (sampleFingerprint ⟨.cosigner, []⟩) 1, some .rejected⟩, accepted .nothing_to_sign,
          paymentAccepted, accepted (.fee 40000 ⟨"0.00040000", "BTC"⟩ "")] ∧
      (sign_psbt sampleDevice .BITCOIN cosignerPsbt true stayingWorld).1.toOption = some ()) ∧
    ((sign_psbt sampleDevice .BITCOIN wrappingPsbt false sampleWorld).2.shown =
        [paymentAccepted, accepted (.fee 5000 ⟨"0.00005000", "BTC"⟩ "")] ∧
      (sign_psbt sampleDevice .BITCOIN wrappingPsbt false sampleWorld).2.signatures.length = 1 ∧
      inputTotal wrappingPsbt - totalOf (wrappingPsbt.outputs.map Output.satoshi) = 2 ^ 64 + 5000) ∧
    ((sign_psbt sampleDevice .BITCOIN roundedPsbt false sampleWorld).2.shown =
        [paymentAccepted,
          accepted (.fee 6710886400000002 ⟨"67108864.00000001", "BTC"⟩ "Fee amount higher than spend amount!")] ∧
      (sign_psbt sampleDevice .BITCOIN roundedPsbt false sampleWorld).2.signatures.length = 1 ∧
      exactAmount false 6710886400000002 = ⟨"67108864.00000002", "BTC"⟩) := by
  refine ⟨⟨?_, ?_⟩, ⟨?_, ?_, ?_⟩, ?_, ?_, ?_⟩ <;> decide +kernel

end PiJade.PsbtConsent
