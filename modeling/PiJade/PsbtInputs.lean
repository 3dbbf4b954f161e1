import Mathlib.Data.List.Basic
import Mathlib.Tactic.Common
import PiJade.SignPsbt

/-!
What the loop over the inputs of a psbt computes, said of the inputs themselves: which
inputs are signed and of which kind, the record that all of them match, and where the
loop stops. An input with a single key or of a green multisig is plain: it ends the
search for a record. The other signed inputs are checked, as far as their path fits the
buffer for paths: the first picks the record, every later one has to match it.
-/
namespace PiJade.PsbtInputs
set_option linter.unusedSimpArgs false
open Wallet Psbt SignPsbt

section
variable {K : Type} (device : Device K) (keychain : Keychain K) (network_id : Network)

/-! ### Kinds of inputs -/

/-- The iterator at the first key of an input that the wallet signs. -/
def signer (input : Input) : Option (KeyIter K) := key_iter_input_begin_public device.wally keychain input

def SingleKey (input : Input) : Prop :=
  ∃ iter, signer device keychain input = some iter ∧ key_iter_get_num_keys iter ≤ 1

def GreenKeys (input : Input) : Prop :=
  ∃ iter, signer device keychain input = some iter ∧ 1 < key_iter_get_num_keys iter ∧
    isGreen device keychain network_id iter = true

/-- Signed with several keys that are not a green multisig's. -/
def SeveralKeys (input : Input) : Prop :=
  ∃ iter, signer device keychain input = some iter ∧ 1 < key_iter_get_num_keys iter ∧
    isGreen device keychain network_id iter = false

/-- The loop does not refuse the input. -/
def Passes (input : Input) : Prop :=
  input.utxo.isSome = true ∧ ∀ iter, signer device keychain input = some iter →
    input.sighash = 0 ∨ sighash_is_supported (device.input_signature_type input) input.sighash = true

/-- What a record is checked against. -/
structure Checked (K : Type) where
  iter : KeyIter K
  tail : Path
  script : Bytes

/-- An input to check records against. -/
def checked (input : Input) : Option (Checked K) :=
  match signer device keychain input, input.utxo with
  | some iter, some utxo =>
    if 1 < key_iter_get_num_keys iter ∧ isGreen device keychain network_id iter = false then
      (key_iter_get_path iter MAX_PATH_LEN).map fun path => ⟨iter, pathTail path, utxo.script⟩
    else none
  | _, _ => none

/-- The record the search gives for an input. -/
def suits (input : Checked K) : Option Record :=
  match (findRecord device keychain network_id input.iter input.tail input.script : Check Reply (Option Record)) with
  | .ok found => found
  | .error _ => none

def fits (record : Record) (input : Checked K) : Bool :=
  match (verify_record device network_id input.iter record input.tail input.script : Check Reply Bool) with
  | .ok agrees => agrees
  | .error _ => false

/-- The record of checked inputs: `some none` before the first one, `none` when there is
    no record that suits the first and fits the others. -/
def recordOf : List (Checked K) → Option (Option Record)
  | [] => some none
  | first :: rest =>
    match suits device keychain network_id first with
    | none => none
    | some record => if rest.all (fits device network_id record) then some (some record) else none

/-- The record of the inputs. -/
def detected (inputs : List Input) : Option (Option Record) :=
  recordOf device keychain network_id (inputs.filterMap (checked device keychain network_id))

/-- The loop runs into an assertion at this input, after the inputs in front of it: the
    search for a record meets an empty script, or an empty path tail and a record to try
    it on; the record found before meets either. -/
def AbortsAt (front : List Input) (input : Input) : Prop :=
  Passes device keychain input ∧
  (∀ before ∈ front, ¬SingleKey device keychain before ∧ ¬GreenKeys device keychain network_id before) ∧
  ∃ at_input, checked device keychain network_id input = some at_input ∧
    ((detected device keychain network_id front = some none ∧
        (at_input.script = [] ∨ at_input.tail = [] ∧ ∃ record, Registered device keychain record)) ∨
      ∃ record, detected device keychain network_id front = some (some record) ∧
        (at_input.tail = [] ∨ at_input.script = []))

/-- The loop goes through all inputs. -/
def Clean (inputs : List Input) : Prop :=
  ∀ (k : Nat) (input : Input), inputs[k]? = some input →
    Passes device keychain input ∧ ¬AbortsAt device keychain network_id (inputs.take k) input

/-! ### What one round does -/

theorem recordOf_append (front : List (Checked K)) (last : Checked K) :
    recordOf device keychain network_id (front ++ [last]) =
      match recordOf device keychain network_id front with
      | none => none
      | some none => (suits device keychain network_id last).map some
      | some (some record) => if fits device network_id record last then some (some record) else none := by
  cases front with
  | nil =>
    simp only [List.nil_append, recordOf]
    cases suits device keychain network_id last <;> simp
  | cons first rest =>
    simp only [List.cons_append, recordOf]
    cases suits device keychain network_id first with
    | none => rfl
    | some record =>
      simp only [List.all_append, List.all_cons, List.all_nil, Bool.and_true, Bool.and_eq_true]
      by_cases before : rest.all (fits device network_id record) = true
      · simp [before]
      · simp [before]

theorem path_tail_eq {ε : Type} (path : Path) : (path_tail path : Check ε Path) = .ok (pathTail path) := by
  simp [path_tail, tail_index_le, pathTail]

theorem trackFlavour_isOk (lawful : device.Lawful) {input : Input} {utxo : Utxo} (spent : input.utxo = some utxo)
    (aggregate : ScriptFlavour) :
    ∃ flavour, trackFlavour device (device.input_signature_type input) utxo.script aggregate = .ok flavour := by
  unfold trackFlavour
  cases empty : utxo.script.isEmpty with
  | true => exact ⟨aggregate, rfl⟩
  | false =>
    have taproot := lawful.sig_type_p2tr input utxo spent (List.isEmpty_eq_false_iff.mp empty)
    refine ⟨update_aggregate_scripts_flavour (get_script_flavour device utxo.script).1 aggregate, ?_⟩
    have same :
        ((get_script_flavour device utxo.script).2 == (device.input_signature_type input == .SW_V1)) = true := by
      cases type : device.wally.scriptpubkey_type utxo.script <;>
        simp only [type, reduceCtorEq, iff_false, iff_true] at taproot <;> simp [get_script_flavour, type, taproot]
    simp [same]

/-- The detection state after the inputs in front. -/
structure Detecting (front : List Input) (flags : SigningFlags) (record : Option Record) : Prop where
  abandoned : flags.multisig_change_abandoned = true ↔
    (∃ input ∈ front, SingleKey device keychain input ∨ GreenKeys device keychain network_id input) ∨
      detected device keychain network_id front = none
  live : flags.multisig_change_abandoned = false →
    detected device keychain network_id front = some record ∧ flags.single_multisig_record = record.isSome
  flagged : flags.single_multisig_record = true →
    ∃ input ∈ front, (checked device keychain network_id input).isSome = true

/-- What the loop has accumulated after the inputs in front. -/
structure Scanned (front : List Input) (scan : InputScan) : Prop where
  clean : Clean device keychain network_id front
  amount : scan.input_amount = UInt64.ofNat (totalOf (front.filterMap fun input => input.utxo.map Utxo.satoshi))
  sig_types : scan.sig_types = front.map fun input =>
    (signer device keychain input).map fun _ => device.input_signature_type input
  singlesig : scan.signing_flags.singlesig = true ↔ ∃ input ∈ front, SingleKey device keychain input
  multisig : scan.signing_flags.multisig = true ↔ ∃ input ∈ front, SeveralKeys device keychain network_id input
  green : scan.signing_flags.green_multisig = true ↔ ∃ input ∈ front, GreenKeys device keychain network_id input
  detecting : Detecting device keychain network_id front scan.signing_flags scan.record

variable {device keychain network_id} {front : List Input} {input : Input} {iter : KeyIter K} {utxo : Utxo}

theorem singleKey_iff (signs : signer device keychain input = some iter) :
    SingleKey device keychain input ↔ key_iter_get_num_keys iter ≤ 1 := by
  simp [SingleKey, signs]

theorem greenKeys_iff (signs : signer device keychain input = some iter) :
    GreenKeys device keychain network_id input ↔
      1 < key_iter_get_num_keys iter ∧ isGreen device keychain network_id iter = true := by
  simp [GreenKeys, signs]

theorem severalKeys_iff (signs : signer device keychain input = some iter) :
    SeveralKeys device keychain network_id input ↔
      1 < key_iter_get_num_keys iter ∧ isGreen device keychain network_id iter = false := by
  simp [SeveralKeys, signs]

theorem checked_unsigned (network_id : Network) (unsigned : signer device keychain input = none) :
    checked device keychain network_id input = none := by
  simp [checked, unsigned]

theorem detected_append_unchecked (unchecked : checked device keychain network_id input = none) :
    detected device keychain network_id (front ++ [input]) = detected device keychain network_id front := by
  simp [detected, List.filterMap_append, unchecked]

theorem detected_append {at_input : Checked K} (check : checked device keychain network_id input = some at_input) :
    detected device keychain network_id (front ++ [input]) =
      match detected device keychain network_id front with
      | none => none
      | some none => (suits device keychain network_id at_input).map some
      | some (some record) => if fits device network_id record at_input then some (some record) else none := by
  simp only [detected, List.filterMap_append, List.filterMap_cons, List.filterMap_nil, check]
  exact recordOf_append device keychain network_id _ at_input

/-- Once there is no record, there is none later. -/
theorem detected_append_none (none_yet : detected device keychain network_id front = none) :
    detected device keychain network_id (front ++ [input]) = none := by
  cases check : checked device keychain network_id input with
  | none => rw [detected_append_unchecked check, none_yet]
  | some at_input => rw [detected_append check, none_yet]

theorem clean_append (clean : Clean device keychain network_id front) (passes : Passes device keychain input)
    (goes_on : ¬AbortsAt device keychain network_id front input) :
    Clean device keychain network_id (front ++ [input]) := by
  intro k at_k found
  by_cases before : k < front.length
  · rw [List.getElem?_append_left before] at found
    rw [List.take_append_of_le_length (Nat.le_of_lt before)]
    exact clean k at_k found
  · rw [List.getElem?_append_right (by omega), List.getElem?_singleton] at found
    split at found
    · next last =>
      cases found
      rw [show k = front.length by omega, List.take_left]
      exact ⟨passes, goes_on⟩
    · cases found

/-- Nothing about records is asked of an input behind a plain one, or once there is none. -/
theorem not_abortsAt_of_abandoned
    (ended : (∃ before ∈ front, SingleKey device keychain before ∨ GreenKeys device keychain network_id before) ∨
      detected device keychain network_id front = none) : ¬AbortsAt device keychain network_id front input := by
  rintro ⟨_, none_plain, at_input, _, records⟩
  rcases ended with ⟨before, mem, plain⟩ | no_record
  · exact plain.elim (none_plain before mem).1 (none_plain before mem).2
  · rcases records with ⟨at_front, _⟩ | ⟨record, at_front, _⟩ <;>
    · rw [no_record] at at_front
      cases at_front

theorem not_abortsAt_of_unchecked (unchecked : checked device keychain network_id input = none) :
    ¬AbortsAt device keychain network_id front input := by
  rintro ⟨_, _, at_input, check, _⟩
  rw [unchecked] at check
  cases check

/-- A checked input aborts by what the inputs in front have detected. -/
theorem abortsAt_iff_of_checked {at_input : Checked K} {record : Option Record}
    (check : checked device keychain network_id input = some at_input)
    (at_front : detected device keychain network_id front = some record) (passes : Passes device keychain input)
    (others : ∀ i ∈ front, ¬SingleKey device keychain i ∧ ¬GreenKeys device keychain network_id i) :
    AbortsAt device keychain network_id front input ↔
      match record with
      | none => at_input.script = [] ∨ at_input.tail = [] ∧ ∃ record, Registered device keychain record
      | some _ => at_input.tail = [] ∨ at_input.script = [] := by
  constructor
  · rintro ⟨_, _, at_input', check', records⟩
    obtain rfl : at_input = at_input' := Option.some.inj (check.symm.trans check')
    rcases records with ⟨at_front', meets⟩ | ⟨found, at_front', meets⟩ <;>
    · obtain rfl := Option.some.inj (at_front.symm.trans at_front')
      exact meets
  · intro meets
    refine ⟨passes, others, at_input, check, ?_⟩
    cases record with
    | none => exact .inl ⟨at_front, meets⟩
    | some found => exact .inr ⟨found, at_front, meets⟩

theorem unchecked_of_plain (signs : signer device keychain input = some iter)
    (plain : SingleKey device keychain input ∨ GreenKeys device keychain network_id input) :
    checked device keychain network_id input = none := by
  rw [singleKey_iff signs, greenKeys_iff signs] at plain
  simp only [checked, signs]
  cases input.utxo with
  | none => rfl
  | some utxo =>
    refine if_neg ?_
    rintro ⟨several, other⟩
    rcases plain with few | ⟨_, same⟩
    · omega
    · rw [other] at same
      cases same

theorem several_of_not_plain (signs : signer device keychain input = some iter)
    (other : ¬(SingleKey device keychain input ∨ GreenKeys device keychain network_id input)) :
    1 < key_iter_get_num_keys iter ∧ isGreen device keychain network_id iter = false := by
  rw [singleKey_iff signs, greenKeys_iff signs] at other
  have several : 1 < key_iter_get_num_keys iter := by omega
  exact ⟨several, by simpa [several] using other⟩

theorem exists_mem_snoc {P : Input → Prop} :
    (∃ i ∈ front ++ [input], P i) ↔ (∃ i ∈ front, P i) ∨ P input := by
  simp only [List.mem_append, List.mem_singleton, or_and_right, exists_or, exists_eq_left]

/-! ### The detection state, by what one more input does to it -/

section
variable {flags flags' : SigningFlags} {record record' : Option Record}

theorem Detecting.flagged_later (before : Detecting device keychain network_id front flags record)
    (same : flags'.single_multisig_record = flags.single_multisig_record)
    (flagged : flags'.single_multisig_record = true) :
    ∃ i ∈ front ++ [input], (checked device keychain network_id i).isSome = true := by
  rw [same] at flagged
  obtain ⟨i, mem, check⟩ := before.flagged flagged
  exact ⟨i, List.mem_append_left _ mem, check⟩

theorem Detecting.none_plain (before : Detecting device keychain network_id front flags record)
    (live : flags.multisig_change_abandoned = false) :
    ¬∃ i ∈ front, SingleKey device keychain i ∨ GreenKeys device keychain network_id i := by
  intro plain
  have abandoned := before.abandoned.mpr (.inl plain)
  rw [live] at abandoned
  cases abandoned

/-- The search ends at this input, or had ended before. -/
theorem Detecting.extend_abandoned (before : Detecting device keychain network_id front flags record)
    (ended : (∃ i ∈ front ++ [input], SingleKey device keychain i ∨ GreenKeys device keychain network_id i) ∨
      detected device keychain network_id (front ++ [input]) = none)
    (abandoned : flags'.multisig_change_abandoned = true)
    (same : flags'.single_multisig_record = flags.single_multisig_record) :
    Detecting device keychain network_id (front ++ [input]) flags' record' := by
  refine ⟨iff_of_true abandoned ended, ?_, before.flagged_later same⟩
  intro live
  rw [abandoned] at live
  cases live

/-- The input is neither plain nor checked. -/
theorem Detecting.extend_unchecked (before : Detecting device keychain network_id front flags record)
    (unchecked : checked device keychain network_id input = none)
    (other : ¬(SingleKey device keychain input ∨ GreenKeys device keychain network_id input)) :
    Detecting device keychain network_id (front ++ [input]) flags record := by
  refine ⟨?_, ?_, before.flagged_later rfl⟩
  · rw [exists_mem_snoc, detected_append_unchecked unchecked, or_iff_left other]
    exact before.abandoned
  · rw [detected_append_unchecked unchecked]
    exact before.live

/-- The input is checked and the search goes on with its record. -/
theorem Detecting.extend_found {found : Record}
    (none_plain : ¬∃ i ∈ front ++ [input], SingleKey device keychain i ∨ GreenKeys device keychain network_id i)
    (check : (checked device keychain network_id input).isSome = true)
    (next : detected device keychain network_id (front ++ [input]) = some (some found))
    (live : flags.multisig_change_abandoned = false) (recorded : flags.single_multisig_record = true) :
    Detecting device keychain network_id (front ++ [input]) flags (some found) := by
  refine ⟨?_, fun _ => ⟨next, recorded⟩, fun _ => ⟨input, by simp, check⟩⟩
  rw [live, next]
  simpa using none_plain

end

/-- What the search leaves as it was, and what it finds. -/
abbrev Searched (device : Device K) (keychain : Keychain K) (network_id : Network) (front : List Input)
    (input : Input) (flags : SigningFlags) (found : Check Reply (SigningFlags × Option Record)) : Prop :=
  Check.After found
    (fun (flags', record') =>
      (flags'.singlesig = flags.singlesig ∧ flags'.multisig = flags.multisig ∧
        flags'.green_multisig = flags.green_multisig) ∧
      Detecting device keychain network_id (front ++ [input]) flags' record' ∧
      ¬AbortsAt device keychain network_id front input)
    (fun h => h = .abort ∧ AbortsAt device keychain network_id front input)

section
variable {flags : SigningFlags} {tail : Path} {script : Bytes}

/-- The record found before, tried on a checked input. -/
theorem recheck_spec (lawful : device.Lawful) (passes : Passes device keychain input) {found : Record}
    (before : Detecting device keychain network_id front flags (some found))
    (live : flags.multisig_change_abandoned = false)
    (none_plain : ¬∃ i ∈ front ++ [input], SingleKey device keychain i ∨ GreenKeys device keychain network_id i)
    (check : checked device keychain network_id input = some ⟨iter, tail, script⟩) :
    Searched device keychain network_id front input flags (do
      if ← verify_record device network_id iter found tail script then return (flags, some found)
      return ({ flags with multisig_change_abandoned := true }, some found)) := by
  obtain ⟨at_front, recorded⟩ := before.live live
  have aborts := abortsAt_iff_of_checked check at_front passes fun i mem =>
    not_or.mp fun plain => before.none_plain live ⟨i, mem, plain⟩
  by_cases empty : tail = [] ∨ script = []
  · rw [verify_record_abort empty]
    exact ⟨rfl, aborts.mpr empty⟩
  · obtain ⟨some_path, some_script⟩ := not_or.mp empty
    obtain ⟨agrees, answer, _⟩ := verify_record_spec (ε := Reply) lawful network_id iter found some_path some_script
    have next : detected device keychain network_id (front ++ [input]) =
        if agrees then some (some found) else none := by
      rw [detected_append check, at_front]
      simp [fits, answer]
    rw [answer]
    cases agrees with
    | true =>
      exact ⟨⟨rfl, rfl, rfl⟩, .extend_found none_plain (by rw [check]; rfl) next live recorded, mt aborts.mp empty⟩
    | false => exact ⟨⟨rfl, rfl, rfl⟩, before.extend_abandoned (.inr next) rfl rfl, mt aborts.mp empty⟩

/-- The search for a record, at the first checked input. -/
theorem search_spec (lawful : device.Lawful) (passes : Passes device keychain input)
    (before : Detecting device keychain network_id front flags none)
    (live : flags.multisig_change_abandoned = false)
    (none_plain : ¬∃ i ∈ front ++ [input], SingleKey device keychain i ∨ GreenKeys device keychain network_id i)
    (check : checked device keychain network_id input = some ⟨iter, tail, script⟩) :
    Searched device keychain network_id front input flags (do
      match ← findRecord device keychain network_id iter tail script with
      | some found => return ({ flags with single_multisig_record := true }, some found)
      | none => return ({ flags with multisig_change_abandoned := true }, none)) := by
  obtain ⟨at_front, unrecorded⟩ := before.live live
  have aborts := abortsAt_iff_of_checked check at_front passes fun i mem =>
    not_or.mp fun plain => before.none_plain live ⟨i, mem, plain⟩
  by_cases empty : script = [] ∨ tail = [] ∧ ∃ r, Registered device keychain r
  · rw [findRecord_abort empty]
    exact ⟨rfl, aborts.mpr empty⟩
  · obtain ⟨some_script, some_path⟩ := not_or.mp empty
    rw [not_and_or] at some_path
    obtain ⟨found, answer⟩ := findRecord_isOk (ε := Reply) lawful keychain network_id iter some_script some_path
    have next : detected device keychain network_id (front ++ [input]) = found.map some := by
      rw [detected_append check, at_front]
      simp [suits, answer]
    rw [answer]
    cases found with
    | some new =>
      exact ⟨⟨rfl, rfl, rfl⟩, .extend_found none_plain (by rw [check]; rfl) next live rfl, mt aborts.mp empty⟩
    | none => exact ⟨⟨rfl, rfl, rfl⟩, before.extend_abandoned (.inr next) rfl rfl, mt aborts.mp empty⟩

end

/-- What looking for the record of one more signed input does. -/
theorem detectRecord_spec (lawful : device.Lawful) (signs : signer device keychain input = some iter)
    (spent : input.utxo = some utxo) (passes : Passes device keychain input) {flags : SigningFlags}
    {record : Option Record} (before : Detecting device keychain network_id front flags record)
    (singlesig : flags.singlesig = true ↔ ∃ i ∈ front ++ [input], SingleKey device keychain i)
    (green : flags.green_multisig = true ↔ ∃ i ∈ front ++ [input], GreenKeys device keychain network_id i) :
    Searched device keychain network_id front input flags
      (detectRecord device keychain network_id iter utxo.script flags record) := by
  have plain_flags : (flags.singlesig || flags.green_multisig) = true ↔
      ∃ i ∈ front ++ [input], SingleKey device keychain i ∨ GreenKeys device keychain network_id i := by
    rw [Bool.or_eq_true, singlesig, green, ← exists_or]
    simp only [← and_or_left]
  unfold detectRecord
  by_cases abandoned : flags.multisig_change_abandoned = true
  · have ended := before.abandoned.mp abandoned
    rw [if_pos abandoned]
    refine ⟨⟨rfl, rfl, rfl⟩, before.extend_abandoned ?_ abandoned rfl, not_abortsAt_of_abandoned ended⟩
    exact ended.imp (fun plain => exists_mem_snoc.mpr (.inl plain)) detected_append_none
  · have live : flags.multisig_change_abandoned = false := by simpa using abandoned
    rw [if_neg abandoned]
    by_cases plain : SingleKey device keychain input ∨ GreenKeys device keychain network_id input
    · -- A plain input ends the search.
      have ends : ∃ i ∈ front ++ [input], SingleKey device keychain i ∨ GreenKeys device keychain network_id i :=
        exists_mem_snoc.mpr (.inr plain)
      rw [if_pos (plain_flags.mpr ends)]
      exact ⟨⟨rfl, rfl, rfl⟩, before.extend_abandoned (.inl ends) rfl rfl,
        not_abortsAt_of_unchecked (unchecked_of_plain signs plain)⟩
    · have none_plain :
          ¬∃ i ∈ front ++ [input], SingleKey device keychain i ∨ GreenKeys device keychain network_id i := by
        rw [exists_mem_snoc]
        exact not_or.mpr ⟨before.none_plain live, plain⟩
      have several := several_of_not_plain signs plain
      rw [if_neg (mt plain_flags.mp none_plain)]
      cases at_path : key_iter_get_path iter MAX_PATH_LEN with
      | none =>
        have unchecked : checked device keychain network_id input = none := by
          simp [checked, signs, spent, several, at_path]
        exact ⟨⟨rfl, rfl, rfl⟩, before.extend_unchecked unchecked plain, not_abortsAt_of_unchecked unchecked⟩
      | some path =>
        have check : checked device keychain network_id input = some ⟨iter, pathTail path, utxo.script⟩ := by
          simp [checked, signs, spent, several, at_path]
        have recorded := (before.live live).2
        simp only [path_tail_eq, Check.ok_bind]
        cases record with
        | some found =>
          rw [if_pos (by simpa using recorded)]
          exact recheck_spec lawful passes before live none_plain check
        | none =>
          rw [if_neg (by simpa using recorded)]
          exact search_spec lawful passes before live none_plain check

theorem flagKind_spec (network_id : Network) (signs : signer device keychain input = some iter) (flags : SigningFlags) :
    ((flagKind device keychain network_id iter flags).singlesig = true ↔
      flags.singlesig = true ∨ SingleKey device keychain input) ∧
    ((flagKind device keychain network_id iter flags).multisig = true ↔
      flags.multisig = true ∨ SeveralKeys device keychain network_id input) ∧
    ((flagKind device keychain network_id iter flags).green_multisig = true ↔
      flags.green_multisig = true ∨ GreenKeys device keychain network_id input) ∧
    (flagKind device keychain network_id iter flags).multisig_change_abandoned = flags.multisig_change_abandoned ∧
    (flagKind device keychain network_id iter flags).single_multisig_record = flags.single_multisig_record := by
  rw [singleKey_iff signs, severalKeys_iff signs, greenKeys_iff signs, flagKind]
  by_cases several : 1 < key_iter_get_num_keys iter
  · have many : ¬key_iter_get_num_keys iter ≤ 1 := by omega
    cases green : isGreen device keychain network_id iter <;> simp [several, many, green]
  · have few : key_iter_get_num_keys iter ≤ 1 := by omega
    simp [several, few]

theorem amount_snoc {scan : InputScan} (spent : input.utxo = some utxo)
    (amount : scan.input_amount = UInt64.ofNat (totalOf (front.filterMap fun i => i.utxo.map Utxo.satoshi))) :
    scan.input_amount + utxo.satoshi =
      UInt64.ofNat (totalOf ((front ++ [input]).filterMap fun i => i.utxo.map Utxo.satoshi)) := by
  simp [totalOf, List.filterMap_append, spent, amount, UInt64.ofNat_add]

/-- Where and how the loop stops. -/
def StopsAt (device : Device K) (keychain : Keychain K) (network_id : Network) (front : List Input) (input : Input)
    (h : Halt Reply) : Prop :=
  Clean device keychain network_id front ∧
    (h = .abort ∧ AbortsAt device keychain network_id front input ∨
      ¬Passes device keychain input ∧ ∃ reply, h = .error reply)

/-- What one round of the loop does. -/
theorem scanInput_spec (lawful : device.Lawful) {scan : InputScan}
    (before : Scanned device keychain network_id front scan) :
    Check.After (scanInput device keychain network_id scan input)
      (Scanned device keychain network_id (front ++ [input])) (StopsAt device keychain network_id front input) := by
  unfold scanInput
  cases spent : input.utxo with
  | none => exact ⟨before.clean, .inr ⟨fun passes => by simp [Passes, spent] at passes, _, rfl⟩⟩
  | some utxo =>
    simp only []
    cases signs : signer device keychain input with
    | none =>
      have passes : Passes device keychain input := ⟨by simp [spent], fun iter at_iter => by simp [signs] at at_iter⟩
      have unchecked := checked_unsigned network_id signs
      have none_of : ¬SingleKey device keychain input ∧ ¬SeveralKeys device keychain network_id input ∧
          ¬GreenKeys device keychain network_id input := by
        simp [SingleKey, SeveralKeys, GreenKeys, signs]
      rw [signer] at signs
      simp only [signs]
      refine ⟨clean_append before.clean passes (not_abortsAt_of_unchecked unchecked), amount_snoc spent before.amount,
        ?_, ?_, ?_, ?_, before.detecting.extend_unchecked unchecked (not_or.mpr ⟨none_of.1, none_of.2.2⟩)⟩
      · simp [before.sig_types, signer, signs]
      · rw [exists_mem_snoc, before.singlesig, or_iff_left none_of.1]
      · rw [exists_mem_snoc, before.multisig, or_iff_left none_of.2.1]
      · rw [exists_mem_snoc, before.green, or_iff_left none_of.2.2]
    | some iter =>
      have begins := signs
      rw [signer] at begins
      simp only [begins]
      by_cases refused : (input.sighash != 0 &&
          !sighash_is_supported (device.input_signature_type input) input.sighash) = true
      · rw [if_pos refused]
        refine ⟨before.clean, .inr ⟨?_, _, rfl⟩⟩
        intro passes
        rcases passes.2 iter signs with zero | supported
        · simp [zero] at refused
        · simp [supported] at refused
      · rw [if_neg refused]
        have passes : Passes device keychain input := by
          refine ⟨by simp [spent], fun _ _ => ?_⟩
          by_cases zero : input.sighash = 0
          · exact .inl zero
          · exact .inr (by simpa [zero] using refused)
        obtain ⟨flavour, tracked⟩ := trackFlavour_isOk device lawful spent scan.flavour
        obtain ⟨single, multi, green, abandoned, recorded⟩ :=
          flagKind_spec network_id signs scan.signing_flags
        have detecting : Detecting device keychain network_id front
            (flagKind device keychain network_id iter scan.signing_flags) scan.record :=
          ⟨by rw [abandoned]; exact before.detecting.abandoned,
            by rw [abandoned, recorded]; exact before.detecting.live,
            by rw [recorded]; exact before.detecting.flagged⟩
        have singlesig := single.trans (by rw [before.singlesig, ← exists_mem_snoc])
        have greens := green.trans (by rw [before.green, ← exists_mem_snoc])
        have found := detectRecord_spec lawful signs spent passes detecting singlesig greens
        rw [tracked]
        simp only [Check.ok_bind]
        cases search : detectRecord device keychain network_id iter utxo.script
            (flagKind device keychain network_id iter scan.signing_flags) scan.record with
        | error h =>
          rw [search] at found
          exact ⟨before.clean, .inl found⟩
        | ok result =>
          obtain ⟨flags, record⟩ := result
          rw [search] at found
          obtain ⟨⟨same_single, same_multi, same_green⟩, detected_now, goes_on⟩ := found
          refine ⟨clean_append before.clean passes goes_on, amount_snoc spent before.amount, ?_, ?_, ?_, ?_,
            detected_now⟩
          · simp [before.sig_types, signs]
          · simp only [same_single]
            exact singlesig
          · simp only [same_multi]
            rw [multi, before.multisig, ← exists_mem_snoc]
          · simp only [same_green]
            exact greens

theorem scanned_nil : Scanned device keychain network_id [] {} := by
  refine ⟨?_, by simp [totalOf], rfl, by simp, by simp, by simp, ⟨by simp [detected, recordOf], ?_, by simp⟩⟩
  · intro k at_k found
    simp at found
  · intro _
    exact ⟨rfl, rfl⟩

/-- What the whole loop does. -/
theorem scanInputs_spec (lawful : device.Lawful) (keychain : Keychain K) (network_id : Network) (inputs : List Input) :
    Check.After (scanInputs device keychain network_id inputs) (Scanned device keychain network_id inputs)
      fun h => ∃ front input later, inputs = front ++ input :: later ∧
        StopsAt device keychain network_id front input h :=
  Check.fold_spec (fun _ _ _ before => scanInput_spec lawful before) inputs [] {} scanned_nil

end

end PiJade.PsbtInputs
