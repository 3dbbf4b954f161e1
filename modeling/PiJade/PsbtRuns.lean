import Mathlib.Data.List.Basic
import Mathlib.Tactic.Common
import PiJade.PsbtScreens

/-!
Whole runs of `sign_psbt`: how a run can end, said of the log of its screens and of the
signatures it made. A run that ends before the fee screen signs nothing; at the fee
screen every output has been shown and accepted, in order, except those that are hidden
as verified change; a run that aborts does so for one of the reasons in `CrashesWith`.
-/
namespace PiJade.PsbtRuns
set_option linter.unusedSimpArgs false
open Wallet Psbt SignPsbt PsbtInputs PsbtOutputs PsbtScreens

section
variable {K : Type} (device : Device K) (network_id : Network) (psbt : WallyPsbt) (keychain : Keychain K)

/-! ### How a run ends -/

/-- The sum of the input amounts, without wrapping. -/
def inputTotal : Nat := totalOf (psbt.inputs.filterMap fun input => input.utxo.map Utxo.satoshi)

/-- The sum of the input amounts, as the code adds them up. -/
def inputAmount : UInt64 := UInt64.ofNat (inputTotal psbt)

open Classical in
/-- The number of outputs that are not hidden. -/
noncomputable def visible : Nat :=
  psbt.outputs.countP fun output => decide (¬Hidden device keychain network_id psbt.inputs output)

/-- More output screens than their titles can count. -/
def TooMany : Prop :=
  1000 ≤ visible device network_id psbt keychain ∨
    visible device network_id psbt keychain = 0 ∧ 1000 ≤ psbt.outputs.length

/-- Signing with this wallet can run into an assertion: at an input, at an output, at an
    output title, or at the fee screen. -/
def CrashesWith : Prop :=
  (∃ k input, psbt.inputs[k]? = some input ∧ (∀ before ∈ psbt.inputs.take k, Passes device keychain before) ∧
    AbortsAt device keychain network_id (psbt.inputs.take k) input) ∨
  (∀ input ∈ psbt.inputs, Passes device keychain input) ∧
    ((∃ output ∈ psbt.outputs, Crashes device keychain network_id psbt.inputs output) ∨
      psbt.total_output_satoshi ≤ inputAmount psbt ∧
        (psbt.total_output_satoshi = 0 ∨ TooMany device network_id psbt keychain))

/-- The screens are those of outputs, in order, and all outputs that are not hidden have one. -/
structure Reviewed (screens : List Screen) : Prop where
  each : ∀ screen ∈ screens, ∃ i output, psbt.outputs[i]? = some output ∧ Shows device network_id i output screen
  ordered : (screens.map outputIndex).Sublist (List.range psbt.outputs.length)
  complete : ∀ (i : Nat) (output : Output), psbt.outputs[i]? = some output →
    Hidden device keychain network_id psbt.inputs output ∨ ∃ screen ∈ screens, Shows device network_id i output screen

/-- The log of a run that has come to the fee screen. -/
def AtFee (shown : List Shown) (answer : Option Answer) : Prop :=
  ∃ questions screens fees warning,
    shown = questions ++ screens.map accepted ++ [⟨feeScreen device fees warning, answer⟩] ∧
    (∀ before ∈ questions, isQuestion before.screen = true ∧ declines before = false) ∧
    Reviewed device network_id psbt keychain screens ∧
    (∀ input ∈ psbt.inputs, Passes device keychain input) ∧
    psbt.total_output_satoshi ≤ inputAmount psbt ∧ fees = inputAmount psbt - psbt.total_output_satoshi

/-- How a run can end that has chosen this wallet. -/
inductive Outcome : Check Reply Unit → World K → Prop where
  | early {h : Halt Reply} {after : World K} (unsigned : after.signatures = [])
      (no_fee : ∀ shown ∈ after.shown, isFee shown.screen = false)
      (turned_down : ∀ shown ∈ after.shown, declines shown = true → h = .error declined)
      (aborts : h = .abort → CrashesWith device network_id psbt keychain) : Outcome (.error h) after
  | waits {after : World K} (in_use : after.keychain = keychain) (unsigned : after.signatures = [])
      (at_fee : AtFee device network_id psbt keychain after.shown none) : Outcome (.error .waiting) after
  | rejects {answer : Answer} {after : World K} (in_use : after.keychain = keychain)
      (unsigned : after.signatures = []) (other : answer ≠ .accepted)
      (at_fee : AtFee device network_id psbt keychain after.shown (some answer)) :
      Outcome (.error (.error declined)) after
  | signs {result : Check Reply Unit} {after : World K} (in_use : after.keychain = keychain)
      (signed : ∀ signature ∈ after.signatures, SignsInput device keychain psbt signature)
      (at_fee : AtFee device network_id psbt keychain after.shown (some .accepted))
      (ends : result = .ok () ∨ ∃ reply, result = .error (.error reply)) : Outcome result after

/-- The output infos are what the inputs and the outputs say. -/
structure JudgedAll (output_info : List OutputInfo) : Prop where
  length : psbt.outputs.length = output_info.length
  each : ∀ (i : Nat) (output : Output), psbt.outputs[i]? = some output → ∃ info, output_info[i]? = some info ∧
    Judged (Hidden device keychain network_id psbt.inputs output)
      (Crashes device keychain network_id psbt.inputs output) info

variable {device network_id psbt keychain}

/-! ### What the outputs were judged -/

theorem updateOutputs_spec (lawful : device.Lawful) {flags : SigningFlags} {record : Option Record}
    (judge : Flags device keychain network_id psbt.inputs flags record) :
    Check.After (psbt_update_outputs device keychain network_id psbt flags record)
      (JudgedAll device network_id psbt keychain)
      (fun h => h = .abort ∧ ∃ output ∈ psbt.outputs, Crashes device keychain network_id psbt.inputs output) := by
  unfold psbt_update_outputs
  cases whole : Check.mapAll (updateOutput device keychain network_id flags record) psbt.outputs with
  | ok output_info =>
    obtain ⟨length, each⟩ := Check.mapAll_ok whole
    refine ⟨length, fun i output at_i => ?_⟩
    obtain ⟨info, at_info, judged⟩ := each i output at_i
    have spec := updateOutput_spec lawful judge output
    rw [judged] at spec
    exact ⟨info, at_info, spec⟩
  | error h =>
    obtain ⟨output, mem, halts⟩ := Check.mapAll_error whole
    have spec := updateOutput_spec lawful judge output
    rw [halts] at spec
    exact ⟨spec.1, output, mem, spec.2⟩

section
variable {output_info : List OutputInfo} (judged : JudgedAll device network_id psbt keychain output_info)
include judged

theorem JudgedAll.ours : ∀ info ∈ output_info, info.change = true → info.is_ours = true := by
  intro info mem
  obtain ⟨i, at_i⟩ := List.mem_iff_getElem?.mp mem
  have within : i < psbt.outputs.length := by
    rw [judged.length]
    exact (List.getElem?_eq_some_iff.mp at_i).1
  obtain ⟨found, at_found, ours, _⟩ := judged.each i _ (List.getElem?_eq_getElem within)
  rw [at_i] at at_found
  cases at_found
  exact ours

theorem JudgedAll.goes_on : ¬∃ output ∈ psbt.outputs, Crashes device keychain network_id psbt.inputs output := by
  rintro ⟨output, mem, crash⟩
  obtain ⟨i, at_i⟩ := List.mem_iff_getElem?.mp mem
  obtain ⟨_, _, _, _, goes_on⟩ := judged.each i output at_i
  exact goes_on crash

theorem JudgedAll.displays_iff {i : Nat} {output : Output} {info : OutputInfo}
    (at_output : psbt.outputs[i]? = some output) (at_info : output_info[i]? = some info) :
    displays info = true ↔ ¬Hidden device keychain network_id psbt.inputs output := by
  obtain ⟨found, at_found, _, hidden, _⟩ := judged.each i output at_output
  rw [at_info] at at_found
  cases at_found
  rw [← hidden, displays]
  cases info.change <;> simp

theorem JudgedAll.count : output_info.countP displays = visible device network_id psbt keychain := by
  classical
  have same : output_info.map displays =
      psbt.outputs.map fun output => decide (¬Hidden device keychain network_id psbt.inputs output) := by
    refine List.ext_getElem? fun i => ?_
    simp only [List.getElem?_map]
    cases at_output : psbt.outputs[i]? with
    | none =>
      rw [List.getElem?_eq_none (by rw [← judged.length]; exact List.getElem?_eq_none_iff.mp at_output)]
      rfl
    | some output =>
      obtain ⟨info, at_info, _⟩ := judged.each i output at_output
      rw [at_info]
      simp only [Option.map_some, Option.some.injEq]
      rw [Bool.eq_iff_iff, decide_eq_true_eq]
      exact judged.displays_iff at_output at_info
  have counted := congrArg (List.countP id) same
  simp only [List.countP_map, Function.id_comp] at counted
  rw [counted, visible]

theorem JudgedAll.tooMany : TooMany device network_id psbt keychain ↔ 1000 ≤ displayTotal output_info := by
  rw [TooMany, displayTotal, judged.count, judged.length]
  split <;> omega

theorem JudgedAll.reviewed :
    Reviewed device network_id psbt keychain (screensOf device network_id psbt output_info) := by
  have at_pair {j : Nat} {pair : Output × OutputInfo} (found : (psbt.outputs.zip output_info)[j]? = some pair) :
      psbt.outputs[j]? = some pair.1 ∧ output_info[j]? = some pair.2 := by
    rw [List.getElem?_zip_eq_some] at found
    exact found
  refine ⟨?_, ?_, ?_⟩
  · intro screen mem
    obtain ⟨j, pair, found, shows⟩ := outputScreens_mem mem
    exact ⟨j, pair.1, (at_pair found).1, by simpa using shows⟩
  · have indices := outputScreens_indices device network_id
      (decide (displayTotal output_info < psbt.outputs.length)) (displayTotal output_info) 0 0
      (psbt.outputs.zip output_info)
    rwa [List.length_zip, ← judged.length, Nat.min_self, ← List.range_eq_range'] at indices
  · intro i output at_output
    obtain ⟨info, at_info, _⟩ := judged.each i output at_output
    have found : (psbt.outputs.zip output_info)[i]? = some (output, info) :=
      List.getElem?_zip_eq_some.mpr ⟨at_output, at_info⟩
    rcases outputScreens_covers (n := 0) (i := 0) found with ⟨_, skipped⟩ | ⟨screen, mem, shows⟩
    · left
      by_contra seen
      rw [(judged.displays_iff at_output at_info).mpr seen] at skipped
      cases skipped
    · exact .inr ⟨screen, mem, by simpa using shows⟩

end

/-! ### Titles -/

theorem title_length (n total : Nat) :
    (outputTitle n total).length = 8 + (Nat.repr n).length + (Nat.repr total).length := by
  have fixed : "Output ".length = 7 ∧ "/".length = 1 := by decide
  simp only [outputTitle, String.length_append, fixed]
  omega

theorem title_fits {n total : Nat} (le : n ≤ total) (few : total < 1000) :
    (outputTitle n total).length < TITLE_SIZE := by
  have here : (Nat.repr n).length ≤ 3 := (Nat.length_repr_le_iff (by omega)).mpr (by omega)
  have there : (Nat.repr total).length ≤ 3 := (Nat.length_repr_le_iff (by omega)).mpr (by omega)
  rw [title_length, TITLE_SIZE]
  omega

/-- The last of a thousand titles does not fit. -/
theorem title_over {total : Nat} (many : 1000 ≤ total) : TITLE_SIZE ≤ (outputTitle total total).length := by
  have digits : ¬(Nat.repr total).length ≤ 3 := by
    rw [Nat.length_repr_le_iff (by omega)]
    omega
  rw [title_length, TITLE_SIZE]
  omega

/-! ### The phases together -/

theorem wp_confirm {agreed : Proc (World K) Reply Bool} {world : World K} {post : Unit → World K → Prop}
    {halts : Halt Reply → World K → Prop} :
    Proc.wp (confirm agreed) post halts world ↔
      Proc.wp agreed (fun yes after => if yes then post () after else halts (.error declined) after) halts world := by
  simp only [confirm, Proc.wp_bind]
  refine ⟨fun holds => Proc.wp_mono holds ?_ fun _ _ halt => halt,
    fun holds => Proc.wp_mono holds ?_ fun _ _ halt => halt⟩
  · intro yes after done
    cases yes <;> exact done
  · intro yes after done
    cases yes <;> exact done

theorem declines_accepted (screen : Screen) : declines (accepted screen) = false := by
  cases screen <;> rfl

theorem isFee_of_question {screen : Screen} (question : isQuestion screen = true) : isFee screen = false := by
  cases screen with
  | fee => cases question
  | _ => rfl

theorem early_of_asking {world : World K} (before : Asking world) {h : Halt Reply}
    (aborts : h = .abort → CrashesWith device network_id psbt keychain) :
    Outcome device network_id psbt keychain (.error h) world := by
  refine .early before.1 ?_ ?_ aborts
  · intro shown mem
    exact isFee_of_question (before.2 shown mem).1
  · intro shown mem turned_down
    rw [(before.2 shown mem).2] at turned_down
    cases turned_down

/-- The log up to an output screen holds no fee screen and nothing turned down. -/
theorem before_fee {world : World K} (before : Asking world) {screens : List Screen}
    (reviewed : Reviewed device network_id psbt keychain screens) (front : List Screen)
    (sub : ∀ screen ∈ front, screen ∈ screens) :
    ∀ shown ∈ world.shown ++ front.map accepted, isFee shown.screen = false ∧ declines shown = false := by
  intro shown mem
  rcases List.mem_append.mp mem with question | output
  · exact ⟨isFee_of_question (before.2 shown question).1, (before.2 shown question).2⟩
  · obtain ⟨screen, at_screen, rfl⟩ := List.mem_map.mp output
    obtain ⟨_, _, _, _, _, _, rfl⟩ := reviewed.each screen (sub screen at_screen)
    exact ⟨rfl, declines_accepted _⟩

/-- A run that crashes once some output screens have been accepted. -/
theorem crashes_after_outputs {world after : World K} (before : Asking world) (unsigned : after.signatures = [])
    {screens front : List Screen} (reviewed : Reviewed device network_id psbt keychain screens)
    (sub : ∀ screen ∈ front, screen ∈ screens) (log : after.shown = world.shown ++ front.map accepted)
    (crashes : CrashesWith device network_id psbt keychain) :
    Outcome device network_id psbt keychain (.error .abort) after := by
  have earlier := before_fee before reviewed front sub
  rw [← log] at earlier
  refine .early unsigned ?_ ?_ (fun _ => crashes)
  · intro shown mem
    exact (earlier shown mem).1
  · intro shown mem turned_down
    rw [(earlier shown mem).2] at turned_down
    cases turned_down

/-- A run that stops at an output screen, which is not yet answered or was turned down. -/
theorem stops_at_output {world after : World K} (before : Asking world) (unsigned : after.signatures = [])
    {screens front : List Screen} {last : Screen} {answer : Option Answer} {h : Halt Reply}
    (reviewed : Reviewed device network_id psbt keychain screens) (sub : front ++ [last] <+: screens)
    (log : after.shown = world.shown ++ front.map accepted ++ [⟨last, answer⟩])
    (ends : h = .waiting ∧ answer = none ∨ h = .error declined) :
    Outcome device network_id psbt keychain (.error h) after := by
  have earlier := before_fee before reviewed front
    fun screen mem => sub.subset (List.mem_append_left _ mem)
  have at_last : isFee last = false := by
    obtain ⟨_, _, _, _, _, _, rfl⟩ := reviewed.each last (sub.subset (by simp))
    rfl
  refine .early unsigned ?_ ?_ ?_
  · intro shown mem
    rw [log] at mem
    rcases List.mem_append.mp mem with earlier_mem | last_mem
    · exact (earlier shown earlier_mem).1
    · rw [List.mem_singleton.mp last_mem]
      exact at_last
  · intro shown mem turned_down
    rw [log] at mem
    rcases List.mem_append.mp mem with earlier_mem | last_mem
    · rw [(earlier shown earlier_mem).2] at turned_down
      cases turned_down
    · rw [List.mem_singleton.mp last_mem] at turned_down
      rcases ends with ⟨_, unanswered⟩ | declined
      · rw [unanswered] at turned_down
        cases last <;> cases turned_down
      · exact declined
  · intro aborts
    rcases ends with ⟨waiting, _⟩ | declined
    · rw [aborts] at waiting
      cases waiting
    · rw [aborts] at declined
      cases declined

theorem scanned_passes {scan : InputScan} (scanned : Scanned device keychain network_id psbt.inputs scan) :
    ∀ input ∈ psbt.inputs, Passes device keychain input := by
  intro input mem
  obtain ⟨k, at_k⟩ := List.mem_iff_getElem?.mp mem
  exact (scanned.clean k input at_k).1

theorem nothingToSign_spec {world : World K} (before : Asking world) (flags : SigningFlags) :
    Proc.wp (nothingToSign flags)
      (fun yes after => after.keychain = world.keychain ∧
        if yes then Asking after else Outcome device network_id psbt keychain (.error (.error declined)) after)
      (fun h => Outcome device network_id psbt keychain (.error h)) world := by
  unfold nothingToSign
  split
  · apply wp_showScreen
    · intro answer rest
      refine ⟨rfl, ?_⟩
      cases accept : answer == .accepted with
      | true =>
        rw [eq_of_beq accept]
        exact before.more rfl rfl rfl rfl
      | false =>
        refine .early before.1 ?_ (fun _ _ _ => rfl) (by simp)
        intro shown mem
        rcases List.mem_append.mp mem with earlier | last
        · exact isFee_of_question (before.2 shown earlier).1
        · rw [List.mem_singleton.mp last]
          rfl
    · apply early_of_asking
      · exact before.more rfl rfl rfl rfl
      · nofun
  · exact ⟨rfl, before⟩

/-- The inputs flagged for signing, as the signing loop reads them. -/
theorem scanned_flagged {scan : InputScan} (scanned : Scanned device keychain network_id psbt.inputs scan) :
    ∀ (j : Nat) (input : Input) (sig_type : Option SigType),
      (psbt.inputs.zip scan.sig_types)[j]? = some (input, sig_type) →
      psbt.inputs[0 + j]? = some input ∧ (sig_type.isSome = true → (signer device keychain input).isSome = true) := by
  intro j input sig_type at_j
  obtain ⟨at_input, at_type⟩ := List.getElem?_zip_eq_some.mp at_j
  simp only [scanned.sig_types, List.getElem?_map, at_input, Option.map_some, Option.some.injEq] at at_type
  refine ⟨by rw [Nat.zero_add]; exact at_input, fun flagged => ?_⟩
  rw [← at_type] at flagged
  simpa using flagged

/-- The log at the fee screen, once the outputs have been accepted. -/
theorem at_fee {world : World K} (before : Asking world) {screens : List Screen}
    (reviewed : Reviewed device network_id psbt keychain screens)
    (passes : ∀ input ∈ psbt.inputs, Passes device keychain input)
    (enough : psbt.total_output_satoshi ≤ inputAmount psbt) (warning : String) (answer : Option Answer) :
    AtFee device network_id psbt keychain (world.shown ++ screens.map accepted ++
      [⟨feeScreen device (inputAmount psbt - psbt.total_output_satoshi) warning, answer⟩]) answer :=
  ⟨world.shown, screens, _, warning, rfl, before.2, reviewed, passes, enough, rfl⟩

/-- From the fee screen on. -/
theorem feeAndSign_spec (bitcoin : network_is_liquid network_id = false) {world mid : World K}
    (before : Asking world) (same : mid.keychain = keychain) (unsigned : mid.signatures = []) {scan : InputScan}
    (scanned : Scanned device keychain network_id psbt.inputs scan) {output_info : List OutputInfo}
    (judged : JudgedAll device network_id psbt keychain output_info)
    (enough : psbt.total_output_satoshi ≤ inputAmount psbt)
    (log : mid.shown = world.shown ++ (screensOf device network_id psbt output_info).map accepted) :
    Proc.wp (confirm (show_btc_fee_confirmation_activity device network_id psbt output_info scan.flavour
        scan.input_amount psbt.total_output_satoshi) >>= fun _ => signInputs device psbt 0 (psbt.inputs.zip scan.sig_types))
      (fun r => Outcome device network_id psbt keychain (.ok r))
      (fun h => Outcome device network_id psbt keychain (.error h)) mid := by
  have passes := scanned_passes scanned
  have at_fee_log := at_fee before judged.reviewed passes enough
  have amount : scan.input_amount = inputAmount psbt := scanned.amount
  rw [amount]
  simp only [Proc.wp_bind, wp_confirm]
  refine Proc.wp_mono (fee_spec bitcoin judged.length enough mid) ?_ ?_
  · rintro yes after ⟨_, warning, answer, rest, rfl, rfl⟩
    cases accept : answer == .accepted with
    | true =>
      rw [eq_of_beq accept]
      have signed := signInputs_spec (psbt.inputs.zip scan.sig_types) 0
        (mid.answered (feeScreen device (inputAmount psbt - psbt.total_output_satoshi) warning) .accepted rest) same
        (scanned_flagged scanned)
      have ends {after : World K} {result : Check Reply Unit}
          (done : Signs (SignsInput device keychain psbt)
            (mid.answered (feeScreen device (inputAmount psbt - psbt.total_output_satoshi) warning) .accepted rest) after)
          (how : result = .ok () ∨ ∃ reply, result = .error (.error reply)) :
          Outcome device network_id psbt keychain result after := by
        refine .signs (done.keychain.trans same) ?_ ?_ how
        · intro signature mem
          refine (done.signatures signature mem).resolve_left fun earlier => ?_
          simp only [World.answered, unsigned, List.not_mem_nil] at earlier
        · rw [done.shown]
          simpa [World.answered, log] using at_fee_log warning (some .accepted)
      refine Proc.wp_mono signed (fun _ _ done => ends done (.inl rfl)) ?_
      rintro h after ⟨⟨reply, rfl⟩, done⟩
      exact ends done (.inr ⟨reply, rfl⟩)
    | false =>
      have other : answer ≠ .accepted := by simpa using accept
      refine .rejects same unsigned other ?_
      simpa [World.answered, log] using at_fee_log warning (some answer)
  · rintro h after (⟨rfl, zero, rfl⟩ | ⟨rfl, _, warning, rfl⟩)
    · refine crashes_after_outputs before unsigned judged.reviewed ?_ log (.inr ⟨passes, .inr ⟨enough, .inl zero⟩⟩)
      intro screen mem
      exact mem
    · refine .waits same unsigned ?_
      simpa [log] using at_fee_log warning none

theorem confirmAndSign_spec (lawful : device.Lawful) (bitcoin : network_is_liquid network_id = false)
    {world : World K} (before : Asking world) (same : world.keychain = keychain) {scan : InputScan}
    (scanned : Scanned device keychain network_id psbt.inputs scan) :
    Proc.wp (confirmAndSign device network_id psbt keychain scan)
      (fun r => Outcome device network_id psbt keychain (.ok r))
      (fun h => Outcome device network_id psbt keychain (.error h)) world := by
  have passes := scanned_passes scanned
  rw [confirmAndSign, Proc.wp_bind, wp_confirm]
  refine Proc.wp_mono (nothingToSign_spec before scan.signing_flags) ?_ fun _ _ done => done
  rintro yes asked ⟨kept, done⟩
  cases yes with
  | false => exact done
  | true =>
    have before : Asking asked := done
    have in_use : asked.keychain = keychain := kept.trans same
    simp only [if_true]
    rw [Proc.wp_bind]
    have update := updateOutputs_spec lawful (scanned_flags scanned)
    cases outputs : psbt_update_outputs device keychain network_id psbt scan.signing_flags scan.record with
    | error h =>
      rw [outputs] at update
      exact early_of_asking before fun _ => .inr ⟨passes, .inl update.2⟩
    | ok output_info =>
      rw [outputs] at update
      have judged : JudgedAll device network_id psbt keychain output_info := update
      rw [Proc.wp_ok, Proc.wp_bind]
      by_cases short : scan.input_amount < psbt.total_output_satoshi
      · rw [checkAmounts, if_pos short]
        exact early_of_asking before (by simp)
      · have enough : psbt.total_output_satoshi ≤ inputAmount psbt := by
          have amount : scan.input_amount = inputAmount psbt := scanned.amount
          rw [amount] at short
          exact UInt64.not_lt.mp short
        rw [checkAmounts, if_neg short, Proc.wp_ok, Proc.wp_bind, wp_confirm]
        refine Proc.wp_mono (outputs_spec lawful bitcoin judged.ours judged.length asked) ?_ ?_
        · rintro yes mid ⟨unmoved, unsigned, shown⟩
          cases yes with
          | true =>
            exact feeAndSign_spec bitcoin before (unmoved.trans in_use) (unsigned.trans before.1) scanned judged
              enough shown.2.1
          | false =>
            obtain ⟨front, last, answer, sub, _, log⟩ := shown
            exact stops_at_output before (unsigned.trans before.1) judged.reviewed sub log (.inr rfl)
        · rintro h mid ⟨unmoved, unsigned, shown⟩
          cases h with
          | abort =>
            obtain ⟨front, sub, within, too_long, log⟩ := shown
            refine crashes_after_outputs before (unsigned.trans before.1) judged.reviewed ?_ log
              (.inr ⟨passes, .inr ⟨enough, .inr (judged.tooMany.mpr ?_)⟩⟩)
            · intro screen mem
              exact sub.subset mem
            · by_contra few
              rw [screensOf_length judged.length] at within
              have title := title_fits (show 0 + front.length + 1 ≤ displayTotal output_info by omega) (by omega)
              omega
          | waiting =>
            obtain ⟨front, last, sub, log⟩ := shown
            exact stops_at_output before (unsigned.trans before.1) judged.reviewed sub log (.inl ⟨rfl, rfl⟩)
          | error reply => exact shown.elim

/-- The wallet phase leaves a wallet the user can be asked about, or ends the run. -/
theorem chooseWallet_spec (network_id : Network) {world : World K} (no_screen : world.shown = [])
    (unsigned : world.signatures = []) (scanned : Bool) :
    Proc.wp (chooseWallet device psbt scanned)
      (fun _ after => Asking after ∧ Usable device psbt scanned world.keychain after.keychain)
      (fun h => Outcome device network_id psbt world.keychain (.error h)) world := by
  have starts : Offered world := ⟨unsigned, by simp [no_screen]⟩
  cases scanned with
  | false => exact ⟨⟨unsigned, by simp [no_screen]⟩, .inl rfl⟩
  | true =>
    simp only [chooseWallet, if_true, Proc.wp_bind]
    refine Proc.wp_mono (offer_spec starts) ?_ ?_
    · rintro _ after ⟨offered, usable⟩
      rw [wp_confirm, Proc.wp_read]
      cases pending : after.escape_pending with
      | false => exact ⟨offered.asking pending, usable⟩
      | true =>
        refine .early offered.unsigned ?_ (fun _ _ _ => rfl) (fun aborts => by cases aborts)
        intro shown mem
        obtain ⟨⟨fingerprint, position, switch⟩, _⟩ := offered.questions shown mem
        rw [switch]
        rfl
    · rintro h after ⟨rfl, asking⟩
      exact early_of_asking asking (fun aborts => by cases aborts)

/-- The input loop ends a run as it does. -/
theorem scan_stops {world : World K} (before : Asking world) {front later : List Input} {input : Input}
    (split : psbt.inputs = front ++ input :: later) {h : Halt Reply}
    (stops : StopsAt device keychain network_id front input h) :
    Outcome device network_id psbt keychain (.error h) world := by
  refine early_of_asking before fun aborts => ?_
  obtain ⟨clean, ⟨_, at_input⟩ | ⟨_, reply, refused⟩⟩ := stops
  · refine .inl ⟨front.length, input, by simp [split], ?_, by simpa [split] using at_input⟩
    intro earlier mem
    rw [split, List.take_left] at mem
    obtain ⟨k, at_k⟩ := List.mem_iff_getElem?.mp mem
    exact (clean k earlier at_k).1
  · rw [aborts] at refused
    cases refused

/-- How every run of `sign_psbt` ends. -/
theorem sign_psbt_outcome (lawful : device.Lawful) (network_id : Network) (psbt : WallyPsbt) (world : World K)
    (no_screen : world.shown = []) (unsigned : world.signatures = []) (scanned : Bool) :
    ∃ keychain, Usable device psbt scanned world.keychain keychain ∧
      Outcome device network_id psbt keychain (sign_psbt device network_id psbt scanned world).1
        (sign_psbt device network_id psbt scanned world).2 := by
  have runs : Proc.wp (sign_psbt device network_id psbt scanned)
      (fun r after => ∃ keychain, Usable device psbt scanned world.keychain keychain ∧
        Outcome device network_id psbt keychain (.ok r) after)
      (fun h after => ∃ keychain, Usable device psbt scanned world.keychain keychain ∧
        Outcome device network_id psbt keychain (.error h) after) world := by
    have starts : Asking world := ⟨unsigned, by simp [no_screen]⟩
    rw [sign_psbt, Proc.wp_bind]
    unfold checkPsbt
    split
    · exact ⟨world.keychain, .inl rfl, early_of_asking starts nofun⟩
    · next bitcoin =>
      split
      · exact ⟨world.keychain, .inl rfl, early_of_asking starts nofun⟩
      · rw [Proc.wp_ok, Proc.wp_bind]
        refine Proc.wp_mono (chooseWallet_spec network_id no_screen unsigned scanned) ?_
          fun _ _ done => ⟨world.keychain, .inl rfl, done⟩
        rintro _ chosen ⟨asking, usable⟩
        rw [Proc.wp_bind, Proc.wp_read, Proc.wp_bind]
        have loop := scanInputs_spec lawful chosen.keychain network_id psbt.inputs
        cases scan : scanInputs device chosen.keychain network_id psbt.inputs with
        | error h =>
          rw [scan] at loop
          obtain ⟨front, input, later, split, stops⟩ := loop
          exact ⟨chosen.keychain, usable, scan_stops asking split stops⟩
        | ok found =>
          rw [scan] at loop
          rw [Proc.wp_ok]
          exact Proc.wp_mono (confirmAndSign_spec lawful (by simpa using bitcoin) asking rfl loop)
            (fun _ _ done => ⟨chosen.keychain, usable, done⟩) (fun _ _ done => ⟨chosen.keychain, usable, done⟩)
  rw [Proc.wp] at runs
  split at runs
  · next at_end => rwa [at_end]
  · next at_end => rwa [at_end]

/-- A run whose log holds a fee screen came there by the wallet in use. -/
theorem Outcome.fee_reached {result : Check Reply Unit} {after : World K}
    (ends : Outcome device network_id psbt keychain result after)
    (fee : ∃ shown ∈ after.shown, isFee shown.screen = true) :
    after.keychain = keychain ∧ ∃ answer, AtFee device network_id psbt keychain after.shown answer := by
  cases ends with
  | early _ no_fee =>
    obtain ⟨shown, mem, is_fee⟩ := fee
    rw [no_fee shown mem] at is_fee
    cases is_fee
  | waits in_use _ at_fee => exact ⟨in_use, _, at_fee⟩
  | rejects in_use _ _ at_fee => exact ⟨in_use, _, at_fee⟩
  | signs in_use _ at_fee => exact ⟨in_use, _, at_fee⟩

end

end PiJade.PsbtRuns
