import Mathlib.Data.List.Basic
import Mathlib.Tactic.Common
import PiJade.Address
import PiJade.Amounts
import PiJade.Psbt

/-!
Signing a bitcoin psbt (`sign_psbt` of `main/process/sign_psbt.c`, the output and fee
screens of `main/ui/sign_tx.c` and `main/process/sign_utils.c`): the offer to switch to
the wallet the psbt names, the loop over the inputs, the search for change among the
outputs, the screens the user answers, and the loop that signs. What the user presses
is given in advance; the screens shown, with their answers, and the signatures added
are kept in the state.
-/
namespace PiJade.SignPsbt
set_option linter.unusedSimpArgs false
open Wallet Address Amounts Psbt

/-! ### The state -/

/-- `CBOR_RPC_…`. -/
inductive RpcError where
  | BAD_PARAMETERS
  | USER_CANCELLED
  | INTERNAL_ERROR
  deriving DecidableEq, Repr

/-- `retval` and `*errmsg`. -/
structure Reply where
  retval : RpcError
  errmsg : String
  deriving DecidableEq, Repr

/-- A button event that reaches a waiting screen. `other` stands for every event that
    leaves the screen up: its other pages, and timeouts. -/
inductive Press where
  | BTN_YES
  | BTN_NO
  | BTN_SIGNTX_ACCEPT
  | BTN_SIGNTX_REJECT
  /-- KEY3; another press can clear the escape before it is asked for. -/
  | BTN_ESCAPE_HOME (cleared : Bool)
  | other
  deriving DecidableEq, Repr

inductive Answer where
  | accepted
  | rejected
  | escaped (cleared : Bool)
  deriving DecidableEq, Repr

/-- Whether the answer leaves an escape to be asked for. -/
def Answer.leavesEscape : Answer → Bool
  | .escaped cleared => !cleared
  | _ => false

/-- A screen, by what it says. The script and the value of an output and the value of the
    fee, which are not on the screen, are kept beside the texts made of them. -/
inductive Screen where
  | switch_wallet (fingerprint : Bytes) (position : Nat)
  | nothing_to_sign
  | output (index : Nat) (title address : String) (script : Bytes) (satoshi : UInt64) (amount : Amount)
      (is_wallet_output : Bool) (warning : String)
  | fee (fees : UInt64) (amount : Amount) (warning : String)
  deriving DecidableEq, Repr

/-- A screen that was shown; without an answer, the user is still at it. -/
structure Shown where
  screen : Screen
  answer : Option Answer
  deriving DecidableEq, Repr

/-- A signature added to an input, with the key it was made with. -/
structure Signature (K : Type) where
  index : Nat
  key_index : Nat
  hdkey : K

structure World (K : Type) where
  /-- The wallet in use. -/
  keychain : Keychain K
  escape_pending : Bool := false
  presses : List Press
  shown : List Shown := []
  signatures : List (Signature K) := []

/-- The answer a screen gets, by the first press that leaves it, and the presses after. -/
def awaitAnswer (accept reject : Press) : List Press → Option (Answer × List Press)
  | [] => none
  | .BTN_ESCAPE_HOME cleared :: rest => some (.escaped cleared, rest)
  | press :: rest =>
    if press = accept then some (.accepted, rest)
    else if press = reject then some (.rejected, rest)
    else awaitAnswer accept reject rest

section
variable {K : Type}

/-- The state once a screen has its answer. -/
def World.answered (world : World K) (screen : Screen) (answer : Answer) (rest : List Press) : World K :=
  { world with
    presses := rest, escape_pending := answer.leavesEscape, shown := world.shown ++ [⟨screen, some answer⟩] }

/-- Show a screen until it is left; whether it was accepted. -/
def showScreen (accept reject : Press) (screen : Screen) : Proc (World K) Reply Bool := fun world =>
  match awaitAnswer accept reject world.presses with
  | none => (.error .waiting, { world with presses := [], shown := world.shown ++ [⟨screen, none⟩] })
  | some (answer, rest) => (.ok (answer == .accepted), world.answered screen answer rest)

def await_yesno_activity (screen : Screen) : Proc (World K) Reply Bool := showScreen .BTN_YES .BTN_NO screen

def show_input_output_activity (screen : Screen) : Proc (World K) Reply Bool :=
  showScreen .BTN_SIGNTX_ACCEPT .BTN_SIGNTX_REJECT screen

def gui_escape_pending : Proc (World K) Reply Bool := Proc.read World.escape_pending

def declined : Reply := ⟨.USER_CANCELLED, "User declined to sign psbt"⟩

end

/-! ### The wallet the psbt names -/

section
variable {K : Type} (device : Device K) (psbt : WallyPsbt)

/-- The text behind the fingerprint on the question: the position of the wallet. -/
def switchLabel (position num_slots : Nat) : String :=
  " (" ++ Nat.repr (position + 1) ++ "/" ++ Nat.repr num_slots ++ ")"

/-- The loop of `offer_wallet_named_by_psbt`, at the slots from `position` on. -/
def offerSlots : Nat → List (Keychain K) → Proc (World K) Reply Unit
  | _, [] => pure ()
  | position, slot :: rest => do
    if ← gui_escape_pending then return ()
    let slot_fingerprint := device.wally.fingerprint slot.xpriv
    if !psbt_inputs_name_fingerprint psbt slot_fingerprint then offerSlots (position + 1) rest
    else
      -- Four fingerprint bytes in hexadecimal and the position, in a buffer for " (8/8)".
      Proc.lift (Check.ensure (decide (8 + (switchLabel position device.slots.length).length < 8 + 7)))
      if ← await_yesno_activity (.switch_wallet slot_fingerprint position) then
        Proc.update fun world => { world with keychain := slot }
      else offerSlots (position + 1) rest

def offer_wallet_named_by_psbt : Proc (World K) Reply Unit := do
  let keychain ← Proc.read World.keychain
  if psbt_inputs_name_fingerprint psbt (device.wally.fingerprint keychain.xpriv) then return ()
  offerSlots device psbt 0 device.slots

end

/-! ### The inputs -/

/-- `script_flavour_t`. -/
inductive ScriptFlavour where
  | NONE
  | SINGLESIG
  | MULTISIG
  | OTHER
  | MIXED
  deriving DecidableEq, Repr

/-- `signing_flags`, one field for each `PSBT_SIGNING_…` bit. -/
structure SigningFlags where
  singlesig : Bool := false
  multisig : Bool := false
  green_multisig : Bool := false
  single_multisig_record : Bool := false
  multisig_change_abandoned : Bool := false
  deriving DecidableEq, Repr

/-- What the loop over the inputs accumulates. -/
structure InputScan where
  input_amount : UInt64 := 0
  /-- For each input so far, the signature type if it is to be signed. -/
  sig_types : List (Option SigType) := []
  signing_flags : SigningFlags := {}
  record : Option Record := none
  flavour : ScriptFlavour := .NONE
  deriving DecidableEq

def WALLY_SIGHASH_DEFAULT : UInt32 := 0
def WALLY_SIGHASH_ALL : UInt32 := 1

def sighash_is_supported (sig_type : SigType) (sighash : UInt32) : Bool :=
  if sig_type = .SW_V1 then sighash == WALLY_SIGHASH_DEFAULT || sighash == WALLY_SIGHASH_ALL
  else sighash == WALLY_SIGHASH_ALL

def update_aggregate_scripts_flavour (new_script_flavour aggregate : ScriptFlavour) : ScriptFlavour :=
  if aggregate = .NONE then new_script_flavour
  else if aggregate ≠ new_script_flavour then .MIXED
  else aggregate

/-- The tail of a path behind its last hardened element. -/
def path_tail {ε : Type} (path : Path) : Check ε Path := do
  Check.ensure (decide (path_get_unhardened_tail_index path ≤ path.length))
  return path.drop (path_get_unhardened_tail_index path)

section
variable {K : Type} (device : Device K) (keychain : Keychain K) (network_id : Network)

/-- The flavour of a script, and whether it is p2tr. -/
def get_script_flavour (script : Bytes) : ScriptFlavour × Bool :=
  match device.wally.scriptpubkey_type script with
  | .P2PKH | .P2WPKH => (.SINGLESIG, false)
  | .P2TR => (.SINGLESIG, true)
  | .MULTISIG => (.MULTISIG, false)
  | _ => (.OTHER, false)

/-- Whether the keys of an input are those of a green multisig. -/
def isGreen (iter : KeyIter K) : Bool := (is_green_multisig_signers device.wally keychain network_id iter false).isSome

def flagKind (iter : KeyIter K) (flags : SigningFlags) : SigningFlags :=
  if 1 < key_iter_get_num_keys iter then
    if isGreen device keychain network_id iter then { flags with green_multisig := true }
    else { flags with multisig := true }
  else { flags with singlesig := true }

def trackFlavour (sig_type : SigType) (script : Bytes) (aggregate : ScriptFlavour) : Check Reply ScriptFlavour := do
  if script.isEmpty then return aggregate
  let (script_flavour, is_p2tr) := get_script_flavour device script
  Check.ensure (is_p2tr == (sig_type == .SW_V1))
  return update_aggregate_scripts_flavour script_flavour aggregate

/-- Whether all inputs signed so far match one record, and which. -/
def detectRecord (iter : KeyIter K) (script : Bytes) (flags : SigningFlags) (record : Option Record) :
    Check Reply (SigningFlags × Option Record) := do
  if flags.multisig_change_abandoned then return (flags, record)
  if flags.singlesig || flags.green_multisig then return ({ flags with multisig_change_abandoned := true }, record)
  match key_iter_get_path iter MAX_PATH_LEN with
  | none => return (flags, record)
  | some path =>
    let tail ← path_tail path
    if flags.single_multisig_record then
      match record with
      | none => .error .abort
      | some found =>
        if ← verify_record device network_id iter found tail script then return (flags, record)
        return ({ flags with multisig_change_abandoned := true }, record)
    else
      match ← findRecord device keychain network_id iter tail script with
      | some found => return ({ flags with single_multisig_record := true }, some found)
      | none => return ({ flags with multisig_change_abandoned := true }, none)

/-- One round of the loop over the inputs. -/
def scanInput (scan : InputScan) (input : Input) : Check Reply InputScan :=
  match input.utxo with
  | none => .error (.error ⟨.BAD_PARAMETERS, "Input utxo missing"⟩)
  | some utxo =>
    let input_amount := scan.input_amount + utxo.satoshi
    match key_iter_input_begin_public device.wally keychain input with
    | none => .ok { scan with input_amount := input_amount, sig_types := scan.sig_types ++ [none] }
    | some iter =>
      let sig_type := device.input_signature_type input
      let flags := flagKind device keychain network_id iter scan.signing_flags
      if input.sighash != 0 && !sighash_is_supported sig_type input.sighash then
        .error (.error ⟨.BAD_PARAMETERS, "Unsupported sighash value"⟩)
      else do
        let flavour ← trackFlavour device sig_type utxo.script scan.flavour
        let (flags, record) ← detectRecord device keychain network_id iter utxo.script flags scan.record
        return ⟨input_amount, scan.sig_types ++ [some sig_type], flags, record, flavour⟩

def scanInputs (inputs : List Input) : Check Reply InputScan :=
  Check.fold (scanInput device keychain network_id) {} inputs

/-! ### The outputs -/

/-- `output_info_t`: the flags `OUTPUT_FLAG_IS_OURS` and `OUTPUT_FLAG_CHANGE`, and the
    warning, empty where there is none. -/
structure OutputInfo where
  is_ours : Bool := false
  change : Bool := false
  message : String := ""
  deriving DecidableEq, Repr

def OUTPUT_MESSAGE_SIZE : Nat := 128

/-- Whether the penultimate element of a path is 1. -/
def isChangePath (path : Path) : Bool :=
  match path.reverse with
  | _ :: change :: _ => change == 1
  | _ => false

/-- The warning about a path. -/
def pathWarning (text : String) (path : Path) : String :=
  text ++ (wallet_bip32_path_as_str path (MAX_PATH_STR_LEN MAX_PATH_LEN) false).getD "too long"

def unusualReceive : String := "Unusual receive path: "
def unusualChange : String := "Unusual change path suffix: "

def warn (info : OutputInfo) (text : String) (path : Path) : Check Reply OutputInfo := do
  let message := pathWarning text path
  Check.ensure (decide (0 < message.length) && decide (message.length < OUTPUT_MESSAGE_SIZE))
  return { info with message := message }

/-- The script variant of a single-key output. -/
def outputVariant (script : Bytes) : Option Variant :=
  if script.isEmpty then none else get_singlesig_variant_from_script_type (device.wally.scriptpubkey_type script)

def updateSinglesig (flags : SigningFlags) (iter : KeyIter K) (path : Path) (script : Bytes) :
    Check Reply OutputInfo := do
  Check.ensure (iter.key_index == 0)
  if !flags.singlesig then return {}
  match outputVariant device script with
  | none => return {}
  | some variant =>
    if ← verify_singlesig_script_matches device.wally variant iter.hdkey script then
      let is_change := isChangePath path
      let info := { is_ours := true, change := is_change }
      if wallet_is_expected_singlesig_path network_id variant is_change path then return info
      warn info unusualReceive path
    else return {}

def updateGreen (iter : KeyIter K) (path : Path) (script : Bytes) : Check Reply OutputInfo := do
  let num_keys := key_iter_get_num_keys iter
  Check.ensure (decide (iter.key_index < num_keys))
  match is_green_multisig_signers device.wally keychain network_id iter (num_keys == 3) with
  | none => return {}
  | some recovery_key =>
    if iter.is_ga_2of3_recovery_key then return {}
    if ← verify_ga_script_matches device.wally keychain network_id iter.hdkey recovery_key path script then
      return { is_ours := true, change := true }
    return {}

def updateRecord (record : Option Record) (iter : KeyIter K) (path : Path) (script : Bytes) :
    Check Reply OutputInfo := do
  Check.ensure (decide (iter.key_index < key_iter_get_num_keys iter))
  match record with
  | none => .error .abort
  | some found =>
    let tail ← path_tail path
    if ← verify_record device network_id iter found tail script then
      let is_change := isChangePath path
      let info := { is_ours := true, change := is_change }
      if wallet_is_expected_multisig_path iter.key_index is_change tail then return info
      warn info unusualChange path
    else return {}

/-- One round of `psbt_update_outputs`. -/
def updateOutput (flags : SigningFlags) (record : Option Record) (output : Output) : Check Reply OutputInfo :=
  match key_iter_output_begin_public device.wally keychain output with
  | none => .ok {}
  | some iter =>
    match key_iter_get_path iter MAX_PATH_LEN with
    | none => .ok {}
    | some path =>
      if WALLY_SCRIPTPUBKEY_P2WSH_LEN < output.script.length then .ok {}
      else if key_iter_get_num_keys iter = 1 then updateSinglesig device network_id flags iter path output.script
      else if flags = { green_multisig := true, multisig_change_abandoned := true } then
        updateGreen device keychain network_id iter path output.script
      else if flags = { multisig := true, single_multisig_record := true } then
        updateRecord device network_id record iter path output.script
      else .ok {}

def psbt_update_outputs (psbt : WallyPsbt) (flags : SigningFlags) (record : Option Record) :
    Check Reply (List OutputInfo) :=
  Check.mapAll (updateOutput device keychain network_id flags record) psbt.outputs

end

/-! ### The screens -/

section
variable {K : Type} (device : Device K) (network_id : Network) (psbt : WallyPsbt)

/-- The size of the buffers for amounts. -/
def AMOUNT_SIZE : Nat := 32

/-- Whether an output is shown: it has a warning or was not verified as change. -/
def display_output {ε : Type} (info : OutputInfo) : Check ε Bool := do
  if info.message ≠ "" then return true
  if info.change then
    Check.ensure info.is_ours
    return false
  return true

/-- How many outputs are shown: if all would be hidden, none is. -/
def displayable_outputs {ε : Type} (output_info : List OutputInfo) : Check ε Nat := do
  let displayed ← Check.mapAll display_output output_info
  let nDisplayable := displayed.count true
  return if 0 < nDisplayable then nDisplayable else psbt.outputs.length

def outputTitle (nDisplayedOutput nTotalOutputsDisplayed : Nat) : String :=
  "Output " ++ Nat.repr nDisplayedOutput ++ "/" ++ Nat.repr nTotalOutputsDisplayed

def TITLE_SIZE : Nat := 16

/-- Whether the loop skips an output that was verified. -/
def skips {ε : Type} (hiddenOutputs : Bool) (info : OutputInfo) : Check ε Bool := do
  if !hiddenOutputs then return false
  return !(← display_output info)

/-- The loop over the outputs, from number `i` on with `n` shown; the number shown when
    the user has accepted them all. -/
def showOutputs (hiddenOutputs : Bool) (total : Nat) :
    (n i : Nat) → List (Output × OutputInfo) → Proc (World K) Reply (Option Nat)
  | n, _, [] => pure (some n)
  | n, i, (out, info) :: rest => do
    if ← Proc.lift (skips hiddenOutputs info) then showOutputs hiddenOutputs total n (i + 1) rest
    else
      let title := outputTitle (n + 1) total
      Proc.lift (Check.ensure (decide (title.length < TITLE_SIZE)))
      let amount ← Proc.lift (format_btc_amount device.denomination_sats out.satoshi AMOUNT_SIZE)
      let address ← Proc.lift (script_to_address device.wally network_id out.script (decide (0 < out.satoshi)))
      if ← show_input_output_activity
          (.output i title address out.script out.satoshi amount info.is_ours info.message) then
        showOutputs hiddenOutputs total (n + 1) (i + 1) rest
      else pure none

def show_btc_transaction_outputs_activity (output_info : List OutputInfo) : Proc (World K) Reply Bool := do
  Proc.lift (Check.ensure (!network_is_liquid network_id))
  let total ← Proc.lift (displayable_outputs psbt output_info)
  let hiddenOutputs := decide (total < psbt.outputs.length)
  match ← showOutputs device network_id hiddenOutputs total 0 0 (psbt.outputs.zip output_info) with
  | none => return false
  | some shown =>
    Proc.lift (Check.ensure (shown == total))
    return true

/-- The spend amount: the outputs without those flagged as change. -/
def deductChange {ε : Type} (spend_amount : UInt64) (output : Output × OutputInfo) : Check ε UInt64 := do
  if output.2.change then
    Check.ensure (decide (output.1.satoshi ≤ spend_amount))
    return spend_amount - output.1.satoshi
  return spend_amount

def WARN_MSG_HIGH_FEES : String := "Fee amount higher than spend amount!"
def WARN_MSG_MIXED_INPUTS : String := "Your transaction inputs are of varying types."

/-- The warning on the fee screen, empty where there is none. -/
def feeWarning {ε : Type} (warn_fees warn_scripts : Bool) : Check ε String := do
  if warn_fees && warn_scripts then
    let both := WARN_MSG_HIGH_FEES ++ " " ++ WARN_MSG_MIXED_INPUTS
    Check.ensure (decide (both.length < 128))
    return both
  if warn_scripts then return WARN_MSG_MIXED_INPUTS
  if warn_fees then return WARN_MSG_HIGH_FEES
  return ""

def show_btc_final_confirmation_activity (fee : UInt64) (warning_msg : String) : Proc (World K) Reply Bool := do
  Proc.lift (Check.ensure (!network_is_liquid network_id))
  let feeamount ← Proc.lift (format_btc_amount device.denomination_sats fee AMOUNT_SIZE)
  showScreen .BTN_SIGNTX_ACCEPT .BTN_SIGNTX_REJECT (.fee fee feeamount warning_msg)

def show_btc_fee_confirmation_activity (output_info : List OutputInfo) (flavour : ScriptFlavour)
    (input_amount output_amount : UInt64) : Proc (World K) Reply Bool := do
  Proc.lift (Check.ensure (input_amount != 0))
  Proc.lift (Check.ensure (output_amount != 0))
  Proc.lift (Check.ensure (decide (output_amount ≤ input_amount)))
  let fees := input_amount - output_amount
  let spend_amount ← Proc.lift (Check.fold deductChange output_amount (psbt.outputs.zip output_info))
  let warning_msg ← Proc.lift (feeWarning (fees != 0 && decide (spend_amount ≤ fees)) (flavour == .MIXED))
  show_btc_final_confirmation_activity device network_id fees warning_msg

end

/-! ### Signing -/

section
variable {K : Type} (device : Device K) (network_id : Network) (psbt : WallyPsbt)

/-- Sign an input with every key the iterator finds. Each round moves it on, so that
    `fuel` need not exceed the number of keys. -/
def signKeys (index : Nat) (txhash : Bytes) : (fuel : Nat) → Option (KeyIter K) → Proc (World K) Reply Unit
  | 0, _ => pure ()
  | _ + 1, none => pure ()
  | fuel + 1, some iter => do
    if !device.sign_input_bip32 psbt index iter.key_index txhash iter.hdkey then
      Proc.fail ⟨.INTERNAL_ERROR, "Failed to generate signature"⟩
    Proc.update fun world =>
      { world with signatures := world.signatures ++ [⟨index, iter.key_index, iter.hdkey⟩] }
    let keychain ← Proc.read World.keychain
    signKeys index txhash fuel (key_iter_next device.wally keychain iter)

/-- The signing loop, from input number `index` on. -/
def signInputs : (index : Nat) → List (Input × Option SigType) → Proc (World K) Reply Unit
  | _, [] => pure ()
  | index, (input, sig_type) :: rest => do
    if sig_type.isNone then signInputs (index + 1) rest
    else
      match device.input_signature_hash psbt index with
      | none => Proc.fail ⟨.INTERNAL_ERROR, "Failed to generate tx input hash"⟩
      | some txhash =>
        let keychain ← Proc.read World.keychain
        signKeys device psbt index txhash input.keyMap.keypaths.length
          (key_iter_input_begin device.wally keychain input)
        signInputs (index + 1) rest

/-- Code goes on only where the user agreed. -/
def confirm (agreed : Proc (World K) Reply Bool) : Proc (World K) Reply Unit := do
  if ← agreed then pure () else Proc.fail declined

/-- The question asked where no input is to be signed. -/
def nothingToSign (flags : SigningFlags) : Proc (World K) Reply Bool :=
  if flags = {} then await_yesno_activity .nothing_to_sign else pure true

def checkAmounts (input_amount output_amount : UInt64) : Check Reply Unit :=
  if input_amount < output_amount then
    .error (.error ⟨.BAD_PARAMETERS, "Total input amounts less than total output amounts"⟩)
  else .ok ()

/-- Everything after the input loop. -/
def confirmAndSign (keychain : Keychain K) (scan : InputScan) : Proc (World K) Reply Unit := do
  confirm (nothingToSign scan.signing_flags)
  let output_info ←
    Proc.lift (psbt_update_outputs device keychain network_id psbt scan.signing_flags scan.record)
  let output_amount := psbt.total_output_satoshi
  Proc.lift (checkAmounts scan.input_amount output_amount)
  confirm (show_btc_transaction_outputs_activity device network_id psbt output_info)
  confirm (show_btc_fee_confirmation_activity device network_id psbt output_info scan.flavour scan.input_amount output_amount)
  signInputs device psbt 0 (psbt.inputs.zip scan.sig_types)

def checkPsbt : Check Reply Unit :=
  if network_is_liquid network_id then .error (.error ⟨.BAD_PARAMETERS, "Network/psbt type mismatch"⟩)
  else if !psbt.extracts then .error (.error ⟨.BAD_PARAMETERS, "Failed to extract valid txn from passed psbt"⟩)
  else .ok ()

/-- The offer of another wallet, made where the user is at the device. -/
def chooseWallet (scanned : Bool) : Proc (World K) Reply Unit := do
  if scanned then
    offer_wallet_named_by_psbt device psbt
    confirm (Proc.read fun world => !world.escape_pending)

/-- `sign_psbt` on a bitcoin psbt; `scanned` where no process is given, so that the psbt
    came from a scan or from usb storage. -/
def sign_psbt (scanned : Bool) : Proc (World K) Reply Unit := do
  Proc.lift (checkPsbt network_id psbt)
  chooseWallet device psbt scanned
  let keychain ← Proc.read World.keychain
  let scan ← Proc.lift (scanInputs device keychain network_id psbt.inputs)
  confirmAndSign device network_id psbt keychain scan

end

end PiJade.SignPsbt
