import Mathlib.Data.List.Basic
import Mathlib.Tactic.Common
import PiJade.PsbtInputs

/-!
What `psbt_update_outputs` computes, said of the inputs and the output themselves: which
outputs are hidden as change that was verified, and which run into an assertion. What
the inputs contribute is whether a single-key input is signed, whether only green
multisig inputs are, and the one record all signed inputs match.
-/
namespace PiJade.PsbtOutputs
set_option linter.unusedSimpArgs false
open Wallet Psbt SignPsbt PsbtInputs

section
variable {K : Type} (device : Device K) (keychain : Keychain K) (network_id : Network) (inputs : List Input)

/-! ### What the inputs say -/

def SignsSingleKey : Prop := ∃ input ∈ inputs, SingleKey device keychain input

/-- Only green multisig inputs are signed. -/
def SignsOnlyGreen : Prop :=
  (∃ input ∈ inputs, GreenKeys device keychain network_id input) ∧
    ∀ input ∈ inputs, ¬SingleKey device keychain input ∧ ¬SeveralKeys device keychain network_id input

/-- Only inputs of one registered record are signed, as far as they are checked. -/
def SignsRecord (record : Record) : Prop :=
  (∀ input ∈ inputs, ¬SingleKey device keychain input ∧ ¬GreenKeys device keychain network_id input) ∧
    detected device keychain network_id inputs = some (some record)

/-- The flags by which outputs are judged. -/
structure Flags (flags : SigningFlags) (record : Option Record) : Prop where
  singlesig : flags.singlesig = true ↔ SignsSingleKey device keychain inputs
  green : flags = { green_multisig := true, multisig_change_abandoned := true } ↔
    SignsOnlyGreen device keychain network_id inputs
  records : ∀ found, SignsRecord device keychain network_id inputs found ↔
    flags = { multisig := true, single_multisig_record := true } ∧ record = some found
  kept : flags = { multisig := true, single_multisig_record := true } → record.isSome = true

variable {device keychain network_id inputs}

theorem checked_severalKeys {input : Input} {at_input : Checked K}
    (check : checked device keychain network_id input = some at_input) :
    SeveralKeys device keychain network_id input := by
  unfold checked at check
  split at check
  · next iter utxo signs spent =>
    split at check
    · next several => exact ⟨iter, signs, several⟩
    · cases check
  · cases check

theorem detected_some_mem {record : Record} (found : detected device keychain network_id inputs = some (some record)) :
    ∃ input ∈ inputs, (checked device keychain network_id input).isSome = true := by
  unfold detected at found
  cases list : inputs.filterMap (checked device keychain network_id) with
  | nil => rw [list] at found; simp [recordOf] at found
  | cons first rest =>
    have mem : first ∈ inputs.filterMap (checked device keychain network_id) := by simp [list]
    obtain ⟨input, at_input, check⟩ := List.mem_filterMap.mp mem
    exact ⟨input, at_input, by simp [check]⟩

theorem signingFlags_eq {flags other : SigningFlags} (singlesig : flags.singlesig = other.singlesig)
    (multisig : flags.multisig = other.multisig) (green : flags.green_multisig = other.green_multisig)
    (recorded : flags.single_multisig_record = other.single_multisig_record)
    (abandoned : flags.multisig_change_abandoned = other.multisig_change_abandoned) : flags = other := by
  cases flags
  cases other
  simp_all

theorem unset_iff {flag : Bool} {P : Input → Prop} (set : flag = true ↔ ∃ input ∈ inputs, P input) :
    flag = false ↔ ∀ input ∈ inputs, ¬P input := by
  rw [Bool.eq_false_iff, ne_eq, set]
  simp only [not_exists, not_and]

section
variable {scan : InputScan} (scanned : Scanned device keychain network_id inputs scan)
include scanned

theorem scanned_onlyGreen :
    scan.signing_flags = { green_multisig := true, multisig_change_abandoned := true } ↔
      SignsOnlyGreen device keychain network_id inputs := by
  have single := unset_iff scanned.singlesig
  have several := unset_iff scanned.multisig
  constructor
  · intro flags
    simp only [flags, true_iff] at single several
    refine ⟨scanned.green.mp (by rw [flags]), ?_⟩
    intro input mem
    exact ⟨single input mem, several input mem⟩
  · rintro ⟨some_green, others⟩
    have none_single := single.mpr fun input mem => (others input mem).1
    have none_several := several.mpr fun input mem => (others input mem).2
    have green := scanned.green.mpr some_green
    have unrecorded : scan.signing_flags.single_multisig_record = false := by
      rw [Bool.eq_false_iff]
      intro flagged
      obtain ⟨input, mem, check⟩ := scanned.detecting.flagged flagged
      obtain ⟨at_input, check⟩ := Option.isSome_iff_exists.mp check
      exact (others input mem).2 (checked_severalKeys check)
    have abandoned : scan.signing_flags.multisig_change_abandoned = true := by
      obtain ⟨input, mem, multi⟩ := some_green
      exact scanned.detecting.abandoned.mpr (.inl ⟨input, mem, .inr multi⟩)
    exact signingFlags_eq none_single none_several green unrecorded abandoned

theorem scanned_record (record : Record) :
    SignsRecord device keychain network_id inputs record ↔
      scan.signing_flags = { multisig := true, single_multisig_record := true } ∧ scan.record = some record := by
  have single := unset_iff scanned.singlesig
  have green := unset_iff scanned.green
  constructor
  · rintro ⟨others, found⟩
    have none_single := single.mpr fun input mem => (others input mem).1
    have none_green := green.mpr fun input mem => (others input mem).2
    obtain ⟨input, mem, check⟩ := detected_some_mem found
    obtain ⟨at_input, check⟩ := Option.isSome_iff_exists.mp check
    have several := scanned.multisig.mpr ⟨input, mem, checked_severalKeys check⟩
    have live : scan.signing_flags.multisig_change_abandoned = false := by
      rw [Bool.eq_false_iff]
      intro ended
      rcases scanned.detecting.abandoned.mp ended with ⟨plain, mem, single | multi⟩ | no_record
      · exact (others plain mem).1 single
      · exact (others plain mem).2 multi
      · rw [found] at no_record
        cases no_record
    obtain ⟨same, recorded⟩ := scanned.detecting.live live
    rw [found] at same
    have at_record : scan.record = some record := (Option.some.inj same).symm
    rw [at_record, Option.isSome_some] at recorded
    exact ⟨signingFlags_eq none_single several none_green recorded live, at_record⟩
  · rintro ⟨flags, at_record⟩
    simp only [flags, true_iff] at single green
    constructor
    · intro input mem
      exact ⟨single input mem, green input mem⟩
    · rw [(scanned.detecting.live (by rw [flags])).1, at_record]

/-- What the loop over the inputs leaves for the outputs. -/
theorem scanned_flags : Flags device keychain network_id inputs scan.signing_flags scan.record := by
  refine ⟨scanned.singlesig, scanned_onlyGreen scanned, scanned_record scanned, ?_⟩
  intro flags
  rw [← (scanned.detecting.live (by rw [flags])).2, flags]

end

end

/-! ### Hidden and crashing outputs -/

section
variable {K : Type} (device : Device K) (keychain : Keychain K) (network_id : Network) (inputs : List Input)
variable (iter : KeyIter K) (path : Path) (script : Bytes)

/-- The key of the wallet in an output and its path, where the path and the script fit
    their buffers. -/
def owned (output : Output) : Option (KeyIter K × Path) :=
  (key_iter_output_begin_public device.wally keychain output).bind fun iter =>
    (key_iter_get_path iter MAX_PATH_LEN).bind fun path =>
      if WALLY_SCRIPTPUBKEY_P2WSH_LEN < output.script.length then none else some (iter, path)

/-- The script is that of the single key, for the variant it shows. -/
def OwnScript (variant : Variant) : Prop :=
  outputVariant device script = some variant ∧
    (verify_singlesig_script_matches device.wally variant iter.hdkey script : Check Reply Bool) = .ok true

def HiddenSingle : Prop :=
  ∃ variant, OwnScript device iter script variant ∧ isChangePath path = true ∧
    wallet_is_expected_singlesig_path network_id variant true path = true

/-- The warning about the path of a single-key output does not fit. -/
def CrashesSingle : Prop :=
  ∃ variant, OwnScript device iter script variant ∧
    wallet_is_expected_singlesig_path network_id variant (isChangePath path) path = false ∧
    OUTPUT_MESSAGE_SIZE ≤ (pathWarning unusualReceive path).length

def HiddenGreen : Prop :=
  ∃ recovery_key, is_green_multisig_signers device.wally keychain network_id iter
      (key_iter_get_num_keys iter == 3) = some recovery_key ∧ iter.is_ga_2of3_recovery_key = false ∧
    (verify_ga_script_matches device.wally keychain network_id iter.hdkey recovery_key path script :
      Check Reply Bool) = .ok true

/-- A green output without a script. -/
def CrashesGreen (_path : Path) (script : Bytes) : Prop :=
  (∃ recovery_key, is_green_multisig_signers device.wally keychain network_id iter
      (key_iter_get_num_keys iter == 3) = some recovery_key) ∧ iter.is_ga_2of3_recovery_key = false ∧ script = []

def FitsRecord (record : Record) : Prop :=
  (verify_record device network_id iter record (pathTail path) script : Check Reply Bool) = .ok true

def HiddenRecord (record : Record) : Prop :=
  FitsRecord device network_id iter path script record ∧ isChangePath path = true ∧
    wallet_is_expected_multisig_path iter.key_index true (pathTail path) = true

/-- No unhardened tail, no script, or a warning about the path that does not fit. -/
def CrashesRecord (record : Record) : Prop :=
  pathTail path = [] ∨ script = [] ∨
    FitsRecord device network_id iter path script record ∧
      wallet_is_expected_multisig_path iter.key_index (isChangePath path) (pathTail path) = false ∧
      OUTPUT_MESSAGE_SIZE ≤ (pathWarning unusualChange path).length

/-- The output has a key of the wallet, and the condition on its kind holds. -/
def ByKind (Single Green : KeyIter K → Path → Bytes → Prop) (OfRecord : KeyIter K → Path → Bytes → Record → Prop)
    (output : Output) : Prop :=
  ∃ iter path, owned device keychain output = some (iter, path) ∧
    (key_iter_get_num_keys iter = 1 ∧ SignsSingleKey device keychain inputs ∧ Single iter path output.script ∨
      key_iter_get_num_keys iter ≠ 1 ∧ SignsOnlyGreen device keychain network_id inputs ∧
        Green iter path output.script ∨
      key_iter_get_num_keys iter ≠ 1 ∧ ∃ record, SignsRecord device keychain network_id inputs record ∧
        OfRecord iter path output.script record)

/-- The output is hidden from the user as change that was verified. -/
def Hidden : Output → Prop :=
  ByKind device keychain network_id inputs (HiddenSingle device network_id) (HiddenGreen device keychain network_id)
    (HiddenRecord device network_id)

/-- Judging the output runs into an assertion. -/
def Crashes : Output → Prop :=
  ByKind device keychain network_id inputs (CrashesSingle device network_id) (CrashesGreen device keychain network_id)
    (CrashesRecord device network_id)

/-! ### What judging one output does -/

variable {device keychain network_id inputs iter path script}

/-- An output info as the screens rely on it: change is ours. -/
def Judged (hidden crashes : Prop) (info : OutputInfo) : Prop :=
  (info.change = true → info.is_ours = true) ∧ (info.change = true ∧ info.message = "" ↔ hidden) ∧ ¬crashes

theorem judged_none {hidden crashes : Prop} (seen : ¬hidden) (goes_on : ¬crashes) : Judged hidden crashes {} :=
  ⟨by simp, by simp [seen], goes_on⟩

theorem pathWarning_pos (path : Path) {text : String} (some_text : 0 < text.length) :
    0 < (pathWarning text path).length := by
  simp only [pathWarning, String.length_append]
  omega

/-- What follows the verification of an output: no warning, or one that fits, or a crash. -/
theorem warn_judged {is_change expected : Bool} {text : String} (some_text : 0 < text.length) :
    Check.After
      (if expected then return { is_ours := true, change := is_change }
        else warn { is_ours := true, change := is_change } text path)
      (Judged (is_change = true ∧ expected = true)
        (expected = false ∧ OUTPUT_MESSAGE_SIZE ≤ (pathWarning text path).length))
      (fun h => h = .abort ∧ expected = false ∧ OUTPUT_MESSAGE_SIZE ≤ (pathWarning text path).length) := by
  have pos := pathWarning_pos path some_text
  cases expected with
  | true => simp [Judged]
  | false =>
    simp only [Bool.false_eq_true, if_false, warn, pos, decide_true, Bool.true_and]
    by_cases room : (pathWarning text path).length < OUTPUT_MESSAGE_SIZE
    · have some_message : pathWarning text path ≠ "" := by
        intro empty
        simp [empty] at pos
      have fits : ¬OUTPUT_MESSAGE_SIZE ≤ (pathWarning text path).length := by omega
      simp [room, Judged, some_message, fits]
    · have too_long : OUTPUT_MESSAGE_SIZE ≤ (pathWarning text path).length := by omega
      simp [room, too_long]

theorem judged_foreign (foreign : ∀ variant, ¬OwnScript device iter script variant) :
    Judged (HiddenSingle device network_id iter path script) (CrashesSingle device network_id iter path script) {} := by
  refine judged_none ?_ ?_
  · rintro ⟨variant, own, _⟩
    exact foreign variant own
  · rintro ⟨variant, own, _⟩
    exact foreign variant own

theorem updateSinglesig_spec (lawful : device.Lawful) {flags : SigningFlags} (single : flags.singlesig = true)
    (first : iter.key_index = 0) :
    Check.After (updateSinglesig device network_id flags iter path script)
      (Judged (HiddenSingle device network_id iter path script) (CrashesSingle device network_id iter path script))
      (fun h => h = .abort ∧ CrashesSingle device network_id iter path script) := by
  simp only [updateSinglesig, first, beq_self_eq_true, Check.ensure_true, Check.ok_bind, single, Bool.not_true,
    Bool.false_eq_true, if_false]
  have only {variant : Variant} (shows : outputVariant device script = some variant) :
      ∀ {other}, OwnScript device iter script other → other = variant := by
    rintro other ⟨same, _⟩
    rw [shows] at same
    exact (Option.some.inj same).symm
  cases shows : outputVariant device script with
  | none =>
    refine judged_foreign ?_
    rintro _ ⟨same, _⟩
    rw [shows] at same
    cases same
  | some variant =>
    have is_single : is_singlesig variant = true := by
      unfold outputVariant at shows
      split at shows
      · cases shows
      · exact singlesig_of_script_type shows
    obtain ⟨agrees, answer, _⟩ := verify_singlesig_spec (ε := Reply) lawful.wally is_single iter.hdkey script
    simp only [answer, Check.ok_bind]
    cases agrees with
    | false =>
      refine judged_foreign ?_
      intro other own
      cases only shows own
      rw [OwnScript, answer] at own
      simp at own
    | true =>
      have own : OwnScript device iter script variant := ⟨shows, answer⟩
      have hidden : HiddenSingle device network_id iter path script ↔ isChangePath path = true ∧
          wallet_is_expected_singlesig_path network_id variant (isChangePath path) path = true := by
        constructor
        · rintro ⟨other, own', change, expected⟩
          cases only shows own'
          exact ⟨change, by rw [change]; exact expected⟩
        · rintro ⟨change, expected⟩
          rw [change] at expected
          exact ⟨variant, own, change, expected⟩
      have crashes : CrashesSingle device network_id iter path script ↔
          wallet_is_expected_singlesig_path network_id variant (isChangePath path) path = false ∧
            OUTPUT_MESSAGE_SIZE ≤ (pathWarning unusualReceive path).length := by
        constructor
        · rintro ⟨other, own', rest⟩
          cases only shows own'
          exact rest
        · exact fun rest => ⟨variant, own, rest⟩
      rw [hidden, crashes]
      exact warn_judged (by decide)

theorem updateSinglesig_unsigned {flags : SigningFlags} (none_signed : flags.singlesig = false)
    (first : iter.key_index = 0) : updateSinglesig device network_id flags iter path script = .ok {} := by
  simp [updateSinglesig, first, none_signed]

theorem updateGreen_spec (lawful : device.Lawful) (within : iter.key_index < key_iter_get_num_keys iter) :
    Check.After (updateGreen device keychain network_id iter path script)
      (Judged (HiddenGreen device keychain network_id iter path script)
        (CrashesGreen device keychain network_id iter path script))
      (fun h => h = .abort ∧ CrashesGreen device keychain network_id iter path script) := by
  simp only [updateGreen, within, decide_true, Check.ensure_true, Check.ok_bind]
  cases signers : is_green_multisig_signers device.wally keychain network_id iter
      (key_iter_get_num_keys iter == 3) with
  | none => exact judged_none (by simp [HiddenGreen, signers]) (by simp [CrashesGreen, signers])
  | some recovery_key =>
    simp only []
    cases recovery : iter.is_ga_2of3_recovery_key with
    | true => exact judged_none (by simp [HiddenGreen, recovery]) (by simp [CrashesGreen, recovery])
    | false =>
      simp only [Bool.false_eq_true, if_false]
      by_cases empty : script = []
      · subst empty
        rw [verify_ga_abort]
        exact ⟨rfl, ⟨_, signers⟩, recovery, rfl⟩
      · obtain ⟨agrees, answer⟩ := verify_ga_isOk (ε := Reply) lawful.wally keychain network_id iter.hdkey recovery_key
          path empty
        have hidden : HiddenGreen device keychain network_id iter path script ↔ agrees = true := by
          simp [HiddenGreen, signers, recovery, answer]
        have goes_on : ¬CrashesGreen device keychain network_id iter path script := fun crash => empty crash.2.2
        rw [answer]
        cases agrees with
        | true => exact ⟨by simp, by simp [hidden], goes_on⟩
        | false => exact judged_none (by simp [hidden]) goes_on

theorem updateRecord_spec (lawful : device.Lawful) (within : iter.key_index < key_iter_get_num_keys iter)
    (record : Record) :
    Check.After (updateRecord device network_id (some record) iter path script)
      (Judged (HiddenRecord device network_id iter path script record)
        (CrashesRecord device network_id iter path script record))
      (fun h => h = .abort ∧ CrashesRecord device network_id iter path script record) := by
  simp only [updateRecord, within, decide_true, Check.ensure_true, Check.ok_bind, path_tail_eq]
  by_cases empty : pathTail path = [] ∨ script = []
  · rw [verify_record_abort empty]
    exact ⟨rfl, empty.imp_right .inl⟩
  · obtain ⟨some_path, some_script⟩ := not_or.mp empty
    obtain ⟨agrees, answer, _⟩ := verify_record_spec (ε := Reply) lawful network_id iter record some_path
      some_script
    have crashes : CrashesRecord device network_id iter path script record ↔ agrees = true ∧
        wallet_is_expected_multisig_path iter.key_index (isChangePath path) (pathTail path) = false ∧
        OUTPUT_MESSAGE_SIZE ≤ (pathWarning unusualChange path).length := by
      simp [CrashesRecord, some_path, some_script, FitsRecord, answer]
    have hidden : HiddenRecord device network_id iter path script record ↔ agrees = true ∧
        isChangePath path = true ∧
        wallet_is_expected_multisig_path iter.key_index (isChangePath path) (pathTail path) = true := by
      simp only [HiddenRecord, FitsRecord, answer, Except.ok.injEq]
      constructor
      · rintro ⟨yes, change, expected⟩
        exact ⟨yes, change, by rw [change]; exact expected⟩
      · rintro ⟨yes, change, expected⟩
        rw [change] at expected
        exact ⟨yes, change, expected⟩
    rw [answer, crashes, hidden]
    simp only [Check.ok_bind]
    cases agrees with
    | false => exact judged_none (by simp) (by simp)
    | true =>
      simp only [true_and]
      exact warn_judged (by decide)

end

section
variable {K : Type} {device : Device K} {keychain : Keychain K} {network_id : Network} {inputs : List Input}
variable {output : Output} {iter : KeyIter K} {path : Path}

theorem owned_index (own : owned device keychain output = some (iter, path)) :
    iter.key_index < key_iter_get_num_keys iter := by
  simp only [owned, Option.bind_eq_some_iff] at own
  obtain ⟨begun, begins, found, _, fits⟩ := own
  split at fits
  · cases fits
  · cases fits
    have valid := key_iter_init_some begins
    obtain ⟨same, _⟩ := key_iter_from_some valid
    rw [key_iter_get_num_keys, same]
    exact key_iter_from_index_lt valid

theorem updateOutput_eq (flags : SigningFlags) (record : Option Record) :
    updateOutput device keychain network_id flags record output =
      match owned device keychain output with
      | none => .ok {}
      | some (iter, path) =>
        if key_iter_get_num_keys iter = 1 then updateSinglesig device network_id flags iter path output.script
        else if flags = { green_multisig := true, multisig_change_abandoned := true } then
          updateGreen device keychain network_id iter path output.script
        else if flags = { multisig := true, single_multisig_record := true } then
          updateRecord device network_id record iter path output.script
        else .ok {} := by
  unfold updateOutput owned
  cases key_iter_output_begin_public device.wally keychain output with
  | none => rfl
  | some iter =>
    simp only [Option.bind_some]
    cases key_iter_get_path iter MAX_PATH_LEN with
    | none => rfl
    | some path =>
      simp only [Option.bind_some]
      split <;> rfl

theorem signsRecord_unique {record other : Record} (signs : SignsRecord device keychain network_id inputs record)
    (also : SignsRecord device keychain network_id inputs other) : other = record := by
  have same := also.2
  rw [signs.2] at same
  simpa using same.symm

theorem not_green_of_record {record : Record} (signs : SignsRecord device keychain network_id inputs record) :
    ¬SignsOnlyGreen device keychain network_id inputs := by
  rintro ⟨⟨input, mem, green⟩, _⟩
  exact (signs.1 input mem).2 green

section
variable {Single Green : KeyIter K → Path → Bytes → Prop} {OfRecord : KeyIter K → Path → Bytes → Record → Prop}

theorem byKind_single (own : owned device keychain output = some (iter, path)) (one : key_iter_get_num_keys iter = 1) :
    ByKind device keychain network_id inputs Single Green OfRecord output ↔
      SignsSingleKey device keychain inputs ∧ Single iter path output.script := by
  simp [ByKind, own, one]

theorem byKind_green (own : owned device keychain output = some (iter, path)) (several : key_iter_get_num_keys iter ≠ 1)
    (signs : SignsOnlyGreen device keychain network_id inputs) :
    ByKind device keychain network_id inputs Single Green OfRecord output ↔ Green iter path output.script := by
  have no_record : ∀ r, ¬SignsRecord device keychain network_id inputs r :=
    fun _ record => not_green_of_record record signs
  simp [ByKind, own, several, signs, no_record]

theorem byKind_record (own : owned device keychain output = some (iter, path))
    (several : key_iter_get_num_keys iter ≠ 1) {record : Record}
    (signs : SignsRecord device keychain network_id inputs record) :
    ByKind device keychain network_id inputs Single Green OfRecord output ↔
      OfRecord iter path output.script record := by
  constructor
  · rintro ⟨_, _, own', ⟨one, _⟩ | ⟨_, only_green, _⟩ | ⟨_, other, also, holds⟩⟩
    · rw [own] at own'
      cases own'
      exact absurd one several
    · exact absurd only_green (not_green_of_record signs)
    · rw [own] at own'
      cases own'
      rwa [signsRecord_unique signs also] at holds
  · intro holds
    exact ⟨iter, path, own, .inr (.inr ⟨several, record, signs, holds⟩)⟩

theorem byKind_other (own : owned device keychain output = some (iter, path)) (several : key_iter_get_num_keys iter ≠ 1)
    (not_green : ¬SignsOnlyGreen device keychain network_id inputs)
    (no_record : ∀ r, ¬SignsRecord device keychain network_id inputs r) :
    ¬ByKind device keychain network_id inputs Single Green OfRecord output := by
  simp [ByKind, own, several, not_green, no_record]

end

/-- An output is judged as the inputs and the output say. -/
theorem updateOutput_spec (lawful : device.Lawful) {flags : SigningFlags} {record : Option Record}
    (judge : Flags device keychain network_id inputs flags record) (output : Output) :
    Check.After (updateOutput device keychain network_id flags record output)
      (Judged (Hidden device keychain network_id inputs output) (Crashes device keychain network_id inputs output))
      (fun h => h = .abort ∧ Crashes device keychain network_id inputs output) := by
  rw [updateOutput_eq, Hidden, Crashes]
  cases own : owned device keychain output with
  | none => exact judged_none (by simp [ByKind, own]) (by simp [ByKind, own])
  | some key =>
    obtain ⟨iter, path⟩ := key
    have within := owned_index own
    simp only []
    by_cases one : key_iter_get_num_keys iter = 1
    · have first : iter.key_index = 0 := by omega
      rw [if_pos one, byKind_single own one, byKind_single own one, ← judge.singlesig]
      cases single : flags.singlesig with
      | false =>
        rw [updateSinglesig_unsigned single first]
        exact judged_none (by simp) (by simp)
      | true => simpa using updateSinglesig_spec lawful single first
    · rw [if_neg one]
      by_cases green : flags = { green_multisig := true, multisig_change_abandoned := true }
      · have signs := judge.green.mp green
        rw [if_pos green, byKind_green own one signs, byKind_green own one signs]
        exact updateGreen_spec lawful within
      · have not_green := mt judge.green.mpr green
        rw [if_neg green]
        by_cases signs : ∃ found, SignsRecord device keychain network_id inputs found
        · obtain ⟨found, signs⟩ := signs
          obtain ⟨recorded, rfl⟩ := (judge.records found).mp signs
          rw [if_pos recorded, byKind_record own one signs, byKind_record own one signs]
          exact updateRecord_spec lawful within found
        · have no_record := not_exists.mp signs
          have none_now : ¬flags = { multisig := true, single_multisig_record := true } := by
            intro recorded
            obtain ⟨found, at_record⟩ := Option.isSome_iff_exists.mp (judge.kept recorded)
            exact no_record found ((judge.records found).mpr ⟨recorded, at_record⟩)
          rw [if_neg none_now]
          exact judged_none (byKind_other own one not_green no_record) (byKind_other own one not_green no_record)

end

end PiJade.PsbtOutputs
