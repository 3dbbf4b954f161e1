import Mathlib.Data.List.Basic
import Mathlib.Tactic.Common
import PiJade.PsbtConsent

/-!
When signing a psbt can crash: exactly where a wallet that the user can end up with runs
into one of the assertions that `CrashesWith` lists. One direction is in how runs end.
For the other, the user is made to go there: to choose that wallet among those the psbt
names, to go on where nothing is to be signed, and to accept all outputs.
-/
namespace PiJade.PsbtCrash
set_option linter.unusedSimpArgs false
open Wallet Psbt SignPsbt PsbtInputs PsbtOutputs PsbtScreens PsbtRuns PsbtChange PsbtConsent

section
variable {K : Type} {device : Device K} {network_id : Network} {psbt : WallyPsbt} {keychain : Keychain K}

/-! ### A user who accepts -/

/-- The presses accept the next `m` screens. -/
def Accepting : (m : Nat) → List Press → Prop
  | 0, _ => True
  | m + 1, presses => ∃ rest,
    awaitAnswer .BTN_SIGNTX_ACCEPT .BTN_SIGNTX_REJECT presses = some (.accepted, rest) ∧ Accepting m rest

theorem accepting_replicate (m : Nat) : Accepting m (List.replicate m .BTN_SIGNTX_ACCEPT) := by
  induction m with
  | zero => trivial
  | succ m ih => exact ⟨_, by simp [List.replicate_succ, awaitAnswer], ih⟩

/-- A yes in front is not an answer to the screen of an output. -/
theorem accepting_yes {m : Nat} {presses : List Press} (accepts : Accepting m presses) :
    Accepting m (.BTN_YES :: presses) := by
  cases m with
  | zero => trivial
  | succ m =>
    obtain ⟨rest, answer, later⟩ := accepts
    exact ⟨rest, by simpa [awaitAnswer] using answer, later⟩

theorem accepting_mono {n m : Nat} (le : n ≤ m) {presses : List Press} (accepts : Accepting m presses) :
    Accepting n presses := by
  induction n generalizing m presses with
  | zero => trivial
  | succ n ih =>
    cases m with
    | zero => omega
    | succ m =>
      obtain ⟨rest, answer, later⟩ := accepts
      exact ⟨rest, answer, ih (by omega) later⟩

theorem showOutputs_accepting (lawful : device.Lawful) (bitcoin : network_is_liquid network_id = false)
    (hiddenOutputs : Bool) (total : Nat) (list : List (Output × OutputInfo))
    (ours : ∀ pair ∈ list, pair.2.change = true → pair.2.is_ours = true) (world : World K) (n i : Nat)
    (accepts : Accepting (outputScreens device network_id hiddenOutputs total n i list).length world.presses) :
    Proc.wp (showOutputs device network_id hiddenOutputs total n i list) (fun r _ => r.isSome = true)
      (fun h _ => h = .abort) world := by
  induction list generalizing world n i with
  | nil => rfl
  | cons pair rest ih =>
    obtain ⟨out, info⟩ := pair
    have later := ih (fun pair mem => ours pair (List.mem_cons_of_mem _ mem))
    simp only [showOutputs, Proc.wp_bind, skips_eq hiddenOutputs (ours (out, info) (by simp)), Proc.wp_ok]
    simp only [outputScreens] at accepts
    by_cases skip : (hiddenOutputs && !displays info) = true
    · rw [if_pos skip] at accepts ⊢
      exact later world n (i + 1) accepts
    · rw [if_neg skip] at accepts ⊢
      obtain ⟨remaining, answer, accepts⟩ := accepts
      simp only [Proc.wp_bind, Proc.wp_ensure]
      split
      · rw [amountOf_eq, Proc.wp_ok, Proc.wp_bind, addressText_eq lawful bitcoin, Proc.wp_ok, Proc.wp_bind]
        simp only [show_input_output_activity, Proc.wp, showScreen, answer]
        exact later (world.answered _ .accepted remaining) (n + 1) (i + 1) accepts
      · trivial

theorem outputs_accepting (lawful : device.Lawful) (bitcoin : network_is_liquid network_id = false)
    {output_info : List OutputInfo}
    (ours : ∀ info ∈ output_info, info.change = true → info.is_ours = true)
    (len : psbt.outputs.length = output_info.length) {world : World K}
    (accepts : Accepting (screensOf device network_id psbt output_info).length world.presses) :
    Proc.wp (show_btc_transaction_outputs_activity device network_id psbt output_info) (fun yes _ => yes = true)
      (fun h _ => h = .abort) world := by
  simp only [show_btc_transaction_outputs_activity, Proc.wp_bind, bitcoin, Proc.wp_ensure, Bool.not_false, if_true,
    displayable_outputs_eq ours len, Proc.wp_ok]
  refine Proc.wp_mono (showOutputs_accepting lawful bitcoin _ _ (psbt.outputs.zip output_info) ?_ world 0 0 accepts) ?_
    fun _ _ halts => halts
  · intro pair mem
    exact ours pair.2 (List.of_mem_zip mem).2
  · intro shown after all_shown
    obtain ⟨count, rfl⟩ := Option.isSome_iff_exists.mp all_shown
    simp only [Proc.wp_bind, Proc.wp_ensure, Proc.wp_pure]
    split <;> trivial

/-! ### A user who chooses a wallet -/

/-- There are presses that choose a wallet the psbt names, or none. -/
theorem offerSlots_choose {start target : Keychain K} (position : Nat) (rest : List (Keychain K))
    (within : position + rest.length = device.slots.length)
    (wanted : target = start ∨ target ∈ rest ∧ Named device psbt target) :
    ∃ choose, ∀ (more : List Press) (world : World K), world.escape_pending = false → world.keychain = start →
      world.presses = choose ++ more →
      Proc.wp (offerSlots device psbt position rest)
        (fun _ after => after.escape_pending = false ∧ after.keychain = target ∧ after.presses = more)
        (fun _ _ => False) world := by
  induction rest generalizing position with
  | nil =>
    have at_start : target = start := wanted.resolve_right fun ⟨mem, _⟩ => by simp at mem
    subst at_start
    exact ⟨[], fun more world stays same presses => ⟨stays, same, presses⟩⟩
  | cons slot rest ih =>
    have label := label_fits device position (by simp only [List.length_cons] at within; omega)
    have later := ih (position + 1) (by simp only [List.length_cons] at within; omega)
    cases named : psbt_inputs_name_fingerprint psbt (device.wally.fingerprint slot.xpriv) with
    | false =>
      have other : target = start ∨ target ∈ rest ∧ Named device psbt target := by
        refine wanted.imp_right fun ⟨mem, is_named⟩ => ⟨?_, is_named⟩
        refine (List.mem_cons.mp mem).resolve_left fun same => ?_
        rw [same, Named, named] at is_named
        cases is_named
      obtain ⟨choose, chooses⟩ := later other
      refine ⟨choose, fun more world stays same presses => ?_⟩
      simp only [offerSlots, gui_escape_pending, Proc.wp_bind, Proc.wp_read, stays, named, Bool.false_eq_true, if_false,
        Bool.not_false, if_true]
      exact chooses more world stays same presses
    | true =>
      -- The question is shown: yes for the wallet that is wanted, no for any other.
      by_cases here : target = slot
      · subst here
        refine ⟨[.BTN_YES], fun more world stays same presses => ?_⟩
        simp only [offerSlots, gui_escape_pending, Proc.wp_bind, Proc.wp_read, stays, named, Bool.false_eq_true,
          if_false, Bool.not_true, Proc.wp_ensure, label, decide_true, if_true]
        simp only [Proc.wp, await_yesno_activity, showScreen, presses, List.singleton_append, awaitAnswer, if_true]
        exact ⟨rfl, rfl, rfl⟩
      · have other : target = start ∨ target ∈ rest ∧ Named device psbt target :=
          wanted.imp_right fun ⟨mem, is_named⟩ => ⟨(List.mem_cons.mp mem).resolve_left here, is_named⟩
        obtain ⟨choose, chooses⟩ := later other
        refine ⟨.BTN_NO :: choose, fun more world stays same presses => ?_⟩
        simp only [offerSlots, gui_escape_pending, Proc.wp_bind, Proc.wp_read, stays, named, Bool.false_eq_true,
          if_false, Bool.not_true, Proc.wp_ensure, label, decide_true, if_true]
        have answer : awaitAnswer .BTN_YES .BTN_NO world.presses = some (.rejected, choose ++ more) := by
          rw [presses]
          simp [awaitAnswer]
        simp only [Proc.wp, await_yesno_activity, showScreen, answer]
        exact chooses more (world.answered _ .rejected (choose ++ more)) rfl same rfl

theorem chooseWallet_choose {scanned : Bool} {start target : Keychain K}
    (usable : Usable device psbt scanned start target) :
    ∃ choose, ∀ more, Proc.wp (chooseWallet device psbt scanned)
      (fun _ after => after.keychain = target ∧ after.presses = more) (fun _ _ => False)
      { keychain := start, presses := choose ++ more } := by
  cases scanned with
  | false =>
    have at_start : target = start := usable.resolve_right fun ⟨no, _⟩ => by cases no
    subst at_start
    exact ⟨[], fun more => ⟨rfl, rfl⟩⟩
  | true =>
    by_cases named : psbt_inputs_name_fingerprint psbt (device.wally.fingerprint start.xpriv) = true
    · have at_start : target = start := usable.resolve_right fun ⟨_, other, _⟩ => other named
      subst at_start
      refine ⟨[], fun more => ?_⟩
      simp only [chooseWallet, if_true, Proc.wp_bind, offer_wallet_named_by_psbt, Proc.wp_read]
      rw [if_pos named]
      exact ⟨rfl, rfl⟩
    · have wanted : target = start ∨ target ∈ device.slots ∧ Named device psbt target :=
        usable.imp_right fun ⟨_, _, mem, is_named⟩ => ⟨mem, is_named⟩
      obtain ⟨choose, chooses⟩ := offerSlots_choose 0 device.slots (by omega) wanted
      refine ⟨choose, fun more => ?_⟩
      simp only [chooseWallet, if_true, Proc.wp_bind, offer_wallet_named_by_psbt, Proc.wp_read]
      rw [if_neg named]
      refine Proc.wp_mono (chooses more _ rfl rfl rfl) ?_ fun _ _ halts => halts
      rintro _ after ⟨stays, in_use, presses⟩
      rw [wp_confirm, Proc.wp_read, stays]
      exact ⟨in_use, presses⟩

/-! ### The way to an assertion -/

/-- The code runs into an assertion. -/
def Aborts {α : Type} (m : Proc (World K) Reply α) (world : World K) : Prop :=
  Proc.wp m (fun _ _ => False) (fun h _ => h = .abort) world

theorem aborts_iff {α : Type} {m : Proc (World K) Reply α} {world : World K} :
    Aborts m world ↔ (m world).1 = .error .abort := by
  simp only [Aborts, Proc.wp]
  split
  · next runs => simp [runs]
  · next runs => simp [runs]

/-- An assertion of the input loop is met where its turn comes. -/
theorem scanInputs_aborts (lawful : device.Lawful) {inputs : List Input} {k : Nat} {input : Input}
    (at_k : inputs[k]? = some input) (earlier : ∀ before ∈ inputs.take k, Passes device keychain before)
    (aborts : AbortsAt device keychain network_id (inputs.take k) input) :
    scanInputs device keychain network_id inputs = .error .abort := by
  have loop := scanInputs_spec lawful keychain network_id inputs
  cases scan : scanInputs device keychain network_id inputs with
  | ok found =>
    rw [scan] at loop
    exact absurd aborts (loop.clean k input at_k).2
  | error h =>
    rw [scan] at loop
    obtain ⟨front, stop, later, split, clean, ⟨rfl, _⟩ | ⟨refused, _⟩⟩ := loop
    · rfl
    · exfalso
      rcases Nat.lt_trichotomy front.length k with before | same | past
      · refine refused (earlier stop ?_)
        rw [split]
        exact List.mem_take_iff_getElem.mpr ⟨front.length, by simp; omega, by simp⟩
      · rw [split, ← same, List.getElem?_append_right (Nat.le_refl _), Nat.sub_self] at at_k
        cases at_k
        exact refused aborts.1
      · rw [split, List.getElem?_append_left past] at at_k
        rw [split, List.take_append_of_le_length (Nat.le_of_lt past)] at aborts
        exact (clean k input at_k).2 aborts

/-- Where no input is refused, the loop gets through or meets an assertion. -/
theorem scanInputs_passes (lawful : device.Lawful) (network_id : Network) {inputs : List Input}
    (passes : ∀ input ∈ inputs, Passes device keychain input) :
    scanInputs device keychain network_id inputs = .error .abort ∨
      ∃ scan, scanInputs device keychain network_id inputs = .ok scan ∧
        Scanned device keychain network_id inputs scan := by
  have loop := scanInputs_spec lawful keychain network_id inputs
  cases scan : scanInputs device keychain network_id inputs with
  | ok found =>
    rw [scan] at loop
    exact .inr ⟨found, rfl, loop⟩
  | error h =>
    rw [scan] at loop
    obtain ⟨front, stop, later, split, _, ⟨rfl, _⟩ | ⟨refused, _⟩⟩ := loop
    · exact .inl rfl
    · exact absurd (passes stop (by simp [split])) refused

theorem nothingToSign_yes {world : World K} {m : Nat}
    (presses : world.presses = .BTN_YES :: List.replicate m .BTN_SIGNTX_ACCEPT) (flags : SigningFlags) :
    Proc.wp (nothingToSign flags) (fun yes after => yes = true ∧ Accepting m after.presses) (fun _ _ => False)
      world := by
  unfold nothingToSign
  split
  · have answer : awaitAnswer .BTN_YES .BTN_NO world.presses =
        some (.accepted, List.replicate m .BTN_SIGNTX_ACCEPT) := by
      rw [presses]
      simp [awaitAnswer]
    simp only [Proc.wp, await_yesno_activity, showScreen, answer]
    exact ⟨rfl, accepting_replicate m⟩
  · refine ⟨rfl, ?_⟩
    rw [presses]
    exact accepting_yes (accepting_replicate m)

/-- Accepting everything leads to the assertions on outputs, titles and amounts. -/
theorem confirmAndSign_aborts (lawful : device.Lawful) (bitcoin : network_is_liquid network_id = false)
    {scan : InputScan}
    (scanned : Scanned device keychain network_id psbt.inputs scan)
    (reason : (∃ output ∈ psbt.outputs, Crashes device keychain network_id psbt.inputs output) ∨
      psbt.total_output_satoshi ≤ inputAmount psbt ∧
        (psbt.total_output_satoshi = 0 ∨ TooMany device network_id psbt keychain)) {world : World K}
    (presses : world.presses = .BTN_YES :: List.replicate psbt.outputs.length .BTN_SIGNTX_ACCEPT) :
    Aborts (confirmAndSign device network_id psbt keychain scan) world := by
  rw [Aborts, confirmAndSign, Proc.wp_bind, wp_confirm]
  refine Proc.wp_mono (nothingToSign_yes presses scan.signing_flags) ?_ fun _ _ halts => halts.elim
  rintro yes asked ⟨rfl, accepts⟩
  simp only [if_true]
  rw [Proc.wp_bind]
  have update := updateOutputs_spec lawful (scanned_flags scanned)
  cases outputs : psbt_update_outputs device keychain network_id psbt scan.signing_flags scan.record with
  | error h =>
    rw [outputs] at update
    exact update.1
  | ok output_info =>
    rw [outputs] at update
    have judged : JudgedAll device network_id psbt keychain output_info := update
    obtain ⟨enough, zero_or_many⟩ := reason.resolve_left judged.goes_on
    have amount : scan.input_amount = inputAmount psbt := scanned.amount
    have few : (screensOf device network_id psbt output_info).length ≤ psbt.outputs.length := by
      rw [screensOf_length judged.length, displayTotal, judged.length]
      have := List.countP_le_length (p := displays) (l := output_info)
      split <;> omega
    rw [Proc.wp_ok, Proc.wp_bind, checkAmounts, amount, if_neg (UInt64.not_lt.mpr enough), Proc.wp_ok, Proc.wp_bind,
      wp_confirm]
    refine Proc.wp_mono (Proc.wp_and (outputs_spec lawful bitcoin judged.ours judged.length asked)
      (outputs_accepting lawful bitcoin judged.ours judged.length (accepting_mono few accepts))) ?_
      fun _ _ halts => halts.2
    rintro yes mid ⟨ends, rfl⟩
    obtain ⟨_, _, _, _, titles⟩ := ends
    simp only [if_true]
    rcases zero_or_many with zero | many
    · rw [Proc.wp_bind, wp_confirm]
      refine Proc.wp_mono (fee_spec bitcoin judged.length enough mid) ?_ ?_
      · rintro _ _ ⟨some_amount, _⟩
        exact absurd zero some_amount
      · rintro h _ (⟨aborts, _⟩ | ⟨_, some_amount, _⟩)
        · exact aborts
        · exact absurd zero some_amount
    · have too_many := judged.tooMany.mp many
      rw [screensOf_length judged.length] at titles
      have last := titles (displayTotal output_info - 1) (by omega)
      rw [show 0 + (displayTotal output_info - 1) + 1 = displayTotal output_info by omega] at last
      exact absurd (title_over too_many) (by omega)

/-- A wallet the user can choose and that crashes makes some run crash. -/
theorem sign_psbt_aborts (lawful : device.Lawful) (bitcoin : network_is_liquid network_id = false)
    (extracts : psbt.extracts = true) {scanned : Bool} {start : Keychain K}
    (usable : Usable device psbt scanned start keychain) (crashes : CrashesWith device network_id psbt keychain) :
    ∃ presses, (sign_psbt device network_id psbt scanned { keychain := start, presses := presses }).1 =
      .error .abort := by
  obtain ⟨choose, chooses⟩ := chooseWallet_choose usable
  refine ⟨choose ++ .BTN_YES :: List.replicate psbt.outputs.length .BTN_SIGNTX_ACCEPT, aborts_iff.mp ?_⟩
  rw [Aborts, sign_psbt, Proc.wp_bind, checkPsbt, bitcoin, extracts]
  simp only [Bool.false_eq_true, if_false, Bool.not_true, Proc.wp_ok, Proc.wp_bind]
  refine Proc.wp_mono (chooses _) ?_ fun _ _ halts => halts.elim
  rintro _ chosen ⟨rfl, presses⟩
  rw [Proc.wp_bind, Proc.wp_read, Proc.wp_bind]
  rcases crashes with ⟨k, input, at_k, earlier, at_input⟩ | ⟨passes, reason⟩
  · rw [scanInputs_aborts lawful at_k earlier at_input]
    rfl
  · rcases scanInputs_passes lawful network_id passes with aborts | ⟨scan, runs, found⟩
    · rw [aborts]
      rfl
    · rw [runs, Proc.wp_ok]
      exact confirmAndSign_aborts lawful bitcoin found reason presses

theorem sign_psbt_refused (device : Device K)
    (refused : network_is_liquid network_id = true ∨ psbt.extracts = false) (scanned : Bool) (world : World K) :
    ∃ reply, (sign_psbt device network_id psbt scanned world).1 = .error (.error reply) := by
  have checked : ∃ reply, checkPsbt network_id psbt = .error (.error reply) := by
    unfold checkPsbt
    by_cases liquid : network_is_liquid network_id = true
    · exact ⟨_, if_pos liquid⟩
    · rw [if_neg liquid, refused.resolve_left liquid]
      exact ⟨_, rfl⟩
  obtain ⟨reply, fails⟩ := checked
  refine ⟨reply, ?_⟩
  rw [sign_psbt, fails]
  rfl

/-- No run crashes, whatever the user presses, exactly where the psbt is refused at once
    or no wallet the user can choose meets an assertion. -/
theorem never_aborts_iff (lawful : device.Lawful) (scanned : Bool) (start : Keychain K) :
    (∀ escape_pending presses, (sign_psbt device network_id psbt scanned
        { keychain := start, escape_pending := escape_pending, presses := presses }).1 ≠ .error .abort) ↔
      network_is_liquid network_id = true ∨ psbt.extracts = false ∨
        ∀ keychain, Usable device psbt scanned start keychain → ¬CrashesWith device network_id psbt keychain := by
  constructor
  · intro never
    by_cases bitcoin : network_is_liquid network_id = true
    · exact .inl bitcoin
    · refine .inr ?_
      cases extracts : psbt.extracts with
      | false => exact .inl rfl
      | true =>
        refine .inr fun keychain usable crashes => ?_
        obtain ⟨presses, aborts⟩ := sign_psbt_aborts lawful (Bool.eq_false_iff.mpr bitcoin) extracts usable crashes
        exact never false presses aborts
  · rintro refused_or_safe escape_pending presses aborts
    obtain ⟨keychain, usable, ends⟩ := sign_psbt_outcome lawful network_id psbt
      { keychain := start, escape_pending := escape_pending, presses := presses } rfl rfl scanned
    have crashes : CrashesWith device network_id psbt keychain := by
      rw [aborts] at ends
      cases ends with
      | early _ _ _ crashes => exact crashes rfl
      | signs _ _ _ ends => simp at ends
    rcases or_assoc.mpr refused_or_safe with refused | safe
    · obtain ⟨reply, replies⟩ := sign_psbt_refused device refused scanned
        { keychain := start, escape_pending := escape_pending, presses := presses }
      rw [aborts] at replies
      cases replies
    · exact safe keychain usable crashes

end

/-! ### Psbts that crash and one that does not -/

/-- A payment without change. -/
def plainPsbt : WallyPsbt :=
  { cosignerPsbt with inputs := [singleKeyInput] }

theorem plainPsbt_survives : ¬CrashesWith sampleDevice .BITCOIN plainPsbt sampleWallet := by
  rintro (⟨k, input, at_k, _, _, _, at_input, check, _⟩ | ⟨_, ⟨output, mem, crash⟩ | ⟨_, zero | many⟩⟩)
  · have only : input = singleKeyInput := List.mem_singleton.mp (List.mem_of_getElem? at_k)
    subst only
    have unchecked : (checked sampleDevice sampleWallet .BITCOIN singleKeyInput).isSome = false := by decide +kernel
    rw [check] at unchecked
    cases unchecked
  · have only : output = payment := List.mem_singleton.mp mem
    subst only
    obtain ⟨iter, path, own, _⟩ := crash
    cases own
  · exact absurd zero (by decide +kernel)
  · have few : visible sampleDevice .BITCOIN plainPsbt sampleWallet ≤ 1 := List.countP_le_length
    rcases many with many | ⟨_, many⟩
    · omega
    · simp [plainPsbt, cosignerPsbt] at many

/-- The payment never crashes, whatever the user presses. -/
theorem never_aborts_iff_payment :
    sampleDevice.Lawful ∧
    ∀ escape_pending presses, (sign_psbt sampleDevice .BITCOIN plainPsbt false
      { keychain := sampleWallet, escape_pending := escape_pending, presses := presses }).1 ≠ .error .abort := by
  refine ⟨sampleDevice_lawful, (never_aborts_iff sampleDevice_lawful false sampleWallet).mpr (.inr (.inr ?_))⟩
  rintro keychain (rfl | ⟨no, _⟩)
  · exact plainPsbt_survives
  · cases no

/-- All of the input goes to the fee, next to an output that can not be spent. -/
def burningPsbt : WallyPsbt where
  inputs := [singleKeyInput]
  outputs := [{ script := [0x6a], satoshi := 0 }]

/-- Keys on a path without an unhardened tail. -/
def hardenedInput : Input where
  keypaths := bothKeysAt []
  utxo := some ⟨100000, bigEndian 34 0x0020998aa12a72cd12e98f93a8c17424aeabb18b00ed478f15d13d4c019e6529ef6a⟩

def hardenedPsbt : WallyPsbt :=
  { plainPsbt with inputs := [hardenedInput] }

/-- A scanned psbt whose outputs are worth nothing crashes once they are accepted; one
    with keys on a hardened path crashes at once. -/
theorem scanned_psbt_aborts :
    (sign_psbt sampleDevice .BITCOIN burningPsbt true
      { keychain := sampleWallet, presses := [.BTN_SIGNTX_ACCEPT] }).1 = .error .abort ∧
    (sign_psbt sampleDevice .BITCOIN hardenedPsbt true { keychain := sampleWallet, presses := [] }).1 =
      .error .abort := by
  constructor <;> decide +kernel

end PiJade.PsbtCrash
