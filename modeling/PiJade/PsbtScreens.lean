import Mathlib.Data.List.Basic
import Mathlib.Tactic.Common
import PiJade.PsbtOutputs

/-!
What each phase of `sign_psbt` shows and signs, whatever the user presses: the questions
about the wallet, the screens of the outputs, the fee screen, and the loop that signs.
Each phase has one lemma that says how it can end and what it leaves in the log of
screens; the screens of the outputs are those of `outputScreens`, up to the one where
the user stops.
-/
namespace PiJade.PsbtScreens
set_option linter.unusedSimpArgs false
open Wallet Address Amounts Psbt SignPsbt PsbtInputs PsbtOutputs

section
variable {K : Type}

/-! ### Screens -/

/-- The user turns the screen down. A wallet switch can be turned down without leaving,
    unless by an escape that is not cleared. -/
def declines (shown : Shown) : Bool :=
  match shown.screen, shown.answer with
  | .switch_wallet _ _, some answer => answer.leavesEscape
  | _, some answer => answer != .accepted
  | _, none => false

def isFee : Screen → Bool
  | .fee _ _ _ => true
  | _ => false

/-- A screen before the outputs: a question about the wallet, or about nothing to sign. -/
def isQuestion : Screen → Bool
  | .switch_wallet _ _ | .nothing_to_sign => true
  | _ => false

def accepted (screen : Screen) : Shown := ⟨screen, some .accepted⟩

theorem wp_showScreen {accept reject : Press} {screen : Screen} {world : World K} {post : Bool → World K → Prop}
    {halts : Halt Reply → World K → Prop}
    (answers : ∀ answer rest, post (answer == .accepted) (world.answered screen answer rest))
    (waits : halts .waiting { world with presses := [], shown := world.shown ++ [⟨screen, none⟩] }) :
    Proc.wp (showScreen accept reject screen) post halts world := by
  simp only [Proc.wp, showScreen]
  cases awaitAnswer accept reject world.presses with
  | none => exact waits
  | some result => exact answers result.1 result.2

/-! ### The wallet question -/

section
variable (device : Device K) (psbt : WallyPsbt)

/-- The psbt names the wallet. -/
def Named (keychain : Keychain K) : Prop :=
  psbt_inputs_name_fingerprint psbt (device.wally.fingerprint keychain.xpriv) = true

/-- The wallets that can be in use once the user has been asked. -/
def Usable (scanned : Bool) (start keychain : Keychain K) : Prop :=
  keychain = start ∨ scanned = true ∧ ¬Named device psbt start ∧ keychain ∈ device.slots ∧ Named device psbt keychain

/-- A run that has asked wallet questions only; one that was turned down is an escape. -/
structure Offered (world : World K) : Prop where
  unsigned : world.signatures = []
  questions : ∀ shown ∈ world.shown, (∃ fingerprint position, shown.screen = .switch_wallet fingerprint position) ∧
    (declines shown = true → world.escape_pending = true)

/-- A run that waits at a question, with none turned down. -/
def Asking (world : World K) : Prop :=
  world.signatures = [] ∧ ∀ shown ∈ world.shown, isQuestion shown.screen = true ∧ declines shown = false

variable {device psbt}

theorem label_fits (device : Device K) (position : Nat) (within : position < device.slots.length) :
    8 + (switchLabel position device.slots.length).length < 8 + 7 := by
  have few := device.few_slots
  simp only [MAX_SEED_SLOTS] at few
  have here : (Nat.repr (position + 1)).length ≤ 1 := (Nat.length_repr_le_iff (by omega)).mpr (by omega)
  have there : (Nat.repr device.slots.length).length ≤ 1 := (Nat.length_repr_le_iff (by omega)).mpr (by omega)
  have brackets : " (".length = 2 ∧ "/".length = 1 ∧ ")".length = 1 := by decide
  simp only [switchLabel, String.length_append, brackets]
  omega

/-- One more question, not turned down. -/
theorem Asking.more {world after : World K} (before : Asking world) (unsigned : after.signatures = world.signatures)
    {shown : Shown} (log : after.shown = world.shown ++ [shown]) (question : isQuestion shown.screen = true)
    (stays : declines shown = false) : Asking after := by
  refine ⟨unsigned.trans before.1, ?_⟩
  intro any mem
  rw [log] at mem
  rcases List.mem_append.mp mem with earlier | last
  · exact before.2 any earlier
  · rw [List.mem_singleton.mp last]
    exact ⟨question, stays⟩

theorem Offered.none_declined {world : World K} (before : Offered world) (pending : world.escape_pending = false) :
    ∀ shown ∈ world.shown, declines shown = false := by
  intro shown mem
  rw [Bool.eq_false_iff]
  intro turned_down
  have escaped := (before.questions shown mem).2 turned_down
  rw [pending] at escaped
  cases escaped

theorem Offered.answered {world : World K} (before : Offered world) (pending : world.escape_pending = false)
    (fingerprint : Bytes) (position : Nat) (answer : Answer) (rest : List Press) :
    Offered (world.answered (.switch_wallet fingerprint position) answer rest) := by
  refine ⟨before.unsigned, ?_⟩
  intro shown mem
  rcases List.mem_append.mp mem with earlier | last
  · refine ⟨(before.questions shown earlier).1, fun turned_down => ?_⟩
    rw [before.none_declined pending shown earlier] at turned_down
    cases turned_down
  · rw [List.mem_singleton.mp last]
    exact ⟨⟨_, _, rfl⟩, fun turned_down => turned_down⟩

theorem Offered.asking {world : World K} (before : Offered world) (pending : world.escape_pending = false) :
    Asking world := by
  refine ⟨before.unsigned, fun shown mem => ?_⟩
  obtain ⟨⟨fingerprint, position, switch⟩, _⟩ := before.questions shown mem
  exact ⟨by rw [switch]; rfl, before.none_declined pending shown mem⟩

theorem offerSlots_spec {world : World K} (before : Offered world) (position : Nat) (rest : List (Keychain K))
    (within : position + rest.length = device.slots.length) :
    Proc.wp (offerSlots device psbt position rest)
      (fun _ after => Offered after ∧ (after.keychain = world.keychain ∨
        after.keychain ∈ rest ∧ Named device psbt after.keychain))
      (fun h after => h = .waiting ∧ Asking after) world := by
  induction rest generalizing world position with
  | nil => exact ⟨before, .inl rfl⟩
  | cons slot rest ih =>
    have later (now : World K) (ready : Offered now) (same : now.keychain = world.keychain) :
        Proc.wp (offerSlots device psbt (position + 1) rest)
          (fun _ after => Offered after ∧ (after.keychain = world.keychain ∨
            after.keychain ∈ slot :: rest ∧ Named device psbt after.keychain))
          (fun h after => h = .waiting ∧ Asking after) now := by
      refine Proc.wp_mono (ih ready (position + 1) (by simp only [List.length_cons] at within; omega)) ?_
        (fun _ _ halts => halts)
      rintro _ after ⟨offered, unchanged | ⟨mem, named⟩⟩
      · exact ⟨offered, .inl (unchanged.trans same)⟩
      · exact ⟨offered, .inr ⟨List.mem_cons_of_mem _ mem, named⟩⟩
    simp only [offerSlots, gui_escape_pending, Proc.wp_bind, Proc.wp_read]
    cases pending : world.escape_pending with
    | true => exact ⟨before, .inl rfl⟩
    | false =>
      simp only [Bool.false_eq_true, if_false]
      cases named : psbt_inputs_name_fingerprint psbt (device.wally.fingerprint slot.xpriv) with
      | false => exact later world before rfl
      | true =>
        have fits := label_fits device position (by simp only [List.length_cons] at within; omega)
        simp only [Bool.not_true, Bool.false_eq_true, if_false, Proc.wp_bind, Proc.wp_ensure, fits, decide_true,
          if_true, await_yesno_activity]
        apply wp_showScreen
        · intro answer remaining
          have asked := before.answered pending (device.wally.fingerprint slot.xpriv) position answer remaining
          cases accept : answer == .accepted with
          | true => exact ⟨⟨asked.unsigned, asked.questions⟩, .inr ⟨by simp, named⟩⟩
          | false => exact later _ asked rfl
        · exact ⟨rfl, (before.asking pending).more rfl rfl rfl rfl⟩

theorem offer_spec {world : World K} (before : Offered world) :
    Proc.wp (offer_wallet_named_by_psbt device psbt)
      (fun _ after => Offered after ∧ Usable device psbt true world.keychain after.keychain)
      (fun h after => h = .waiting ∧ Asking after) world := by
  simp only [offer_wallet_named_by_psbt, Proc.wp_bind, Proc.wp_read]
  by_cases named : psbt_inputs_name_fingerprint psbt (device.wally.fingerprint world.keychain.xpriv) = true
  · rw [if_pos named]
    exact ⟨before, .inl rfl⟩
  · rw [if_neg named]
    refine Proc.wp_mono (offerSlots_spec before 0 device.slots (by omega)) ?_ (fun _ _ halts => halts)
    rintro _ after ⟨offered, unchanged | ⟨mem, is_named⟩⟩
    · exact ⟨offered, .inl unchanged⟩
    · exact ⟨offered, .inr ⟨rfl, named, mem, is_named⟩⟩

end

/-! ### The output screens -/

/-- An output info that shows its output. -/
def displays (info : OutputInfo) : Bool := info.message ≠ "" || !info.change

theorem display_output_eq {ε : Type} {info : OutputInfo} (ours : info.change = true → info.is_ours = true) :
    (display_output info : Check ε Bool) = .ok (displays info) := by
  unfold display_output displays
  by_cases warned : info.message = ""
  · cases change : info.change with
    | false => simp [warned]
    | true => simp [warned, ours change]
  · simp [warned]

theorem skips_eq {ε : Type} (hiddenOutputs : Bool) {info : OutputInfo}
    (ours : info.change = true → info.is_ours = true) :
    (skips hiddenOutputs info : Check ε Bool) = .ok (hiddenOutputs && !displays info) := by
  cases hiddenOutputs <;> simp [skips, display_output_eq ours]

section
variable (device : Device K) (network_id : Network)

/-- The address on the screen of an output. -/
def addressText (output : Output) : String :=
  let written : Check Reply String :=
    script_to_address device.wally network_id output.script (decide (0 < output.satoshi))
  match written with
  | .ok text => text
  | .error _ => ""

/-- What the device shows for an amount. -/
def amountOf (satoshi : UInt64) : Amount := shownAmount device.denomination_sats satoshi

def outputScreen (total n i : Nat) (output : Output) (info : OutputInfo) : Screen :=
  .output i (outputTitle n total) (addressText device network_id output) output.script output.satoshi
    (amountOf device output.satoshi) info.is_ours info.message

def feeScreen (fees : UInt64) (warning : String) : Screen := .fee fees (amountOf device fees) warning

/-- The screens of the outputs from number `i` on, with `n` shown before them. -/
def outputScreens (hiddenOutputs : Bool) (total : Nat) : (n i : Nat) → List (Output × OutputInfo) → List Screen
  | _, _, [] => []
  | n, i, (out, info) :: rest =>
    if hiddenOutputs && !displays info then outputScreens hiddenOutputs total n (i + 1) rest
    else
      outputScreen device network_id total (n + 1) i out info ::
        outputScreens hiddenOutputs total (n + 1) (i + 1) rest

def outputIndex : Screen → Nat
  | .output index _ _ _ _ _ _ _ => index
  | _ => 0

/-- How showing the outputs ends, with `screens` to show: all accepted; at one that the
    user turned down or is still at; at a title that does not fit. -/
def OutputsEnd (world : World K) (total n : Nat) (screens : List Screen) (result : Check Reply (Option Nat))
    (after : World K) : Prop :=
  after.keychain = world.keychain ∧ after.signatures = world.signatures ∧
    match result with
    | .ok (some m) => m = n + screens.length ∧ after.shown = world.shown ++ screens.map accepted ∧
        ∀ j < screens.length, (outputTitle (n + j + 1) total).length < TITLE_SIZE
    | .ok none => ∃ front last answer, front ++ [last] <+: screens ∧ answer ≠ .accepted ∧
        after.shown = world.shown ++ front.map accepted ++ [⟨last, some answer⟩]
    | .error .waiting => ∃ front last, front ++ [last] <+: screens ∧
        after.shown = world.shown ++ front.map accepted ++ [⟨last, none⟩]
    | .error .abort => ∃ front, front <+: screens ∧ front.length < screens.length ∧
        TITLE_SIZE ≤ (outputTitle (n + front.length + 1) total).length ∧
        after.shown = world.shown ++ front.map accepted
    | .error (.error _) => False

theorem OutputsEnd.cons {world : World K} {total n : Nat} {first : Screen} {screens : List Screen}
    {result : Check Reply (Option Nat)} {after : World K} {rest : List Press}
    (title : (outputTitle (n + 1) total).length < TITLE_SIZE)
    (later : OutputsEnd (world.answered first .accepted rest) total (n + 1) screens result after) :
    OutputsEnd world total n (first :: screens) result after := by
  obtain ⟨keychain, signatures, later⟩ := later
  refine ⟨keychain, signatures, ?_⟩
  rcases result with (_ | _ | reply) | (_ | m)
  · obtain ⟨front, sub, within, too_long, log⟩ := later
    refine ⟨first :: front, by simpa using sub, by simpa using within, ?_,
      by simpa [World.answered, accepted] using log⟩
    rwa [show n + (first :: front).length + 1 = n + 1 + front.length + 1 by simp only [List.length_cons]; omega]
  · obtain ⟨front, last, sub, log⟩ := later
    exact ⟨first :: front, last, by simpa using sub, by simpa [World.answered, accepted] using log⟩
  · exact later
  · obtain ⟨front, last, answer, sub, other, log⟩ := later
    exact ⟨first :: front, last, answer, by simpa using sub, other, by simpa [World.answered, accepted] using log⟩
  · obtain ⟨count, log, titles⟩ := later
    refine ⟨by simp only [List.length_cons]; omega, by simpa [World.answered, accepted] using log, ?_⟩
    intro j within
    cases j with
    | zero => exact title
    | succ j =>
      rw [show n + (j + 1) + 1 = n + 1 + j + 1 by omega]
      exact titles j (by simpa using within)

variable {device network_id}

theorem addressText_eq (lawful : device.Lawful) (bitcoin : network_is_liquid network_id = false) (output : Output) :
    (script_to_address device.wally network_id output.script (decide (0 < output.satoshi)) : Check Reply String) =
      .ok (addressText device network_id output) := by
  obtain ⟨text, writes⟩ := script_to_address_isOk (ε := Reply) lawful.wally bitcoin output.script
    (decide (0 < output.satoshi))
  rw [addressText, writes]

theorem amountOf_eq (satoshi : UInt64) :
    (format_btc_amount device.denomination_sats satoshi AMOUNT_SIZE : Check Reply Amount) =
      .ok (amountOf device satoshi) := format_btc_amount_eq _ _ (Nat.le_refl 32)

theorem showOutputs_spec (lawful : device.Lawful) (bitcoin : network_is_liquid network_id = false)
    (hiddenOutputs : Bool) (total : Nat) (list : List (Output × OutputInfo))
    (ours : ∀ pair ∈ list, pair.2.change = true → pair.2.is_ours = true) (world : World K) (n i : Nat) :
    Proc.wp (showOutputs device network_id hiddenOutputs total n i list)
      (fun r => OutputsEnd world total n (outputScreens device network_id hiddenOutputs total n i list) (.ok r))
      (fun h => OutputsEnd world total n (outputScreens device network_id hiddenOutputs total n i list) (.error h))
      world := by
  induction list generalizing world n i with
  | nil => exact ⟨rfl, rfl, rfl, by simp [outputScreens], by simp [outputScreens]⟩
  | cons pair rest ih =>
    obtain ⟨out, info⟩ := pair
    have later := ih (fun pair mem => ours pair (List.mem_cons_of_mem _ mem))
    have own := ours (out, info) (by simp)
    simp only [showOutputs, outputScreens, Proc.wp_bind, skips_eq hiddenOutputs own, Proc.wp_ok]
    by_cases skip : (hiddenOutputs && !displays info) = true
    · rw [if_pos skip, if_pos skip]
      exact later world n (i + 1)
    · rw [if_neg skip, if_neg skip]
      simp only [Proc.wp_bind, Proc.wp_ensure]
      by_cases fits : (outputTitle (n + 1) total).length < TITLE_SIZE
      · simp only [fits, decide_true, if_true, amountOf_eq, addressText_eq lawful bitcoin, Proc.wp_ok, Proc.wp_bind]
        apply wp_showScreen
        · intro answer remaining
          cases accept : answer == .accepted with
          | true =>
            have yes : answer = .accepted := by simpa using accept
            subst yes
            simp only [if_true]
            exact Proc.wp_mono (later _ (n + 1) (i + 1)) (fun _ _ done => done.cons fits)
              (fun _ _ done => done.cons fits)
          | false =>
            have other : answer ≠ .accepted := by simpa using accept
            exact ⟨rfl, rfl, [], outputScreen device network_id total (n + 1) i out info, answer, by simp, other,
              by simp [World.answered, outputScreen]⟩
        · exact ⟨rfl, rfl, [], outputScreen device network_id total (n + 1) i out info, by simp,
            by simp [outputScreen]⟩
      · simp only [fits, decide_false, Bool.false_eq_true, if_false]
        exact ⟨rfl, rfl, [], by simp, by simp, by simpa using fits, by simp⟩

end

/-! ### Which outputs are shown -/

section
variable (device : Device K) (network_id : Network)

/-- How many outputs are shown. -/
def displayTotal (output_info : List OutputInfo) : Nat :=
  if 0 < output_info.countP displays then output_info.countP displays else output_info.length

/-- The screens of all outputs of a psbt. -/
def screensOf (psbt : WallyPsbt) (output_info : List OutputInfo) : List Screen :=
  outputScreens device network_id (decide (displayTotal output_info < psbt.outputs.length)) (displayTotal output_info)
    0 0 (psbt.outputs.zip output_info)

/-- The screen shows output number `i`. -/
def Shows (i : Nat) (output : Output) (screen : Screen) : Prop :=
  ∃ title is_ours warning, screen = .output i title (addressText device network_id output) output.script output.satoshi
    (amountOf device output.satoshi) is_ours warning

variable {device network_id}

theorem displayed_eq {ε : Type} {output_info : List OutputInfo}
    (ours : ∀ info ∈ output_info, info.change = true → info.is_ours = true) :
    (Check.mapAll display_output output_info : Check ε (List Bool)) = .ok (output_info.map displays) := by
  induction output_info with
  | nil => rfl
  | cons info rest ih =>
    rw [Check.mapAll, display_output_eq (ours info (by simp)), ih fun i mem => ours i (List.mem_cons_of_mem _ mem)]
    rfl

theorem displayable_outputs_eq {ε : Type} {psbt : WallyPsbt} {output_info : List OutputInfo}
    (ours : ∀ info ∈ output_info, info.change = true → info.is_ours = true)
    (len : psbt.outputs.length = output_info.length) :
    (displayable_outputs psbt output_info : Check ε Nat) = .ok (displayTotal output_info) := by
  simp only [displayable_outputs, displayed_eq ours, Check.ok_bind, Check.pure_eq, displayTotal, len, List.count,
    List.countP_map]
  have same : ((fun b => b == true) ∘ displays) = displays := by
    funext info
    simp
  rw [same]

theorem outputScreens_length (hiddenOutputs : Bool) (total n i : Nat) (list : List (Output × OutputInfo)) :
    (outputScreens device network_id hiddenOutputs total n i list).length =
      if hiddenOutputs then (list.map Prod.snd).countP displays else list.length := by
  induction list generalizing n i with
  | nil => cases hiddenOutputs <;> rfl
  | cons pair rest ih =>
    obtain ⟨out, info⟩ := pair
    cases hiddenOutputs with
    | false =>
      simp only [outputScreens, Bool.false_and, Bool.false_eq_true, if_false, List.length_cons]
      rw [ih]
      rfl
    | true =>
      cases shown : displays info <;> simp [outputScreens, shown, ih]

theorem screensOf_length {psbt : WallyPsbt} {output_info : List OutputInfo}
    (len : psbt.outputs.length = output_info.length) :
    (screensOf device network_id psbt output_info).length = displayTotal output_info := by
  have most := List.countP_le_length (p := displays) (l := output_info)
  have infos : (psbt.outputs.zip output_info).map Prod.snd = output_info := List.map_snd_zip (by omega)
  have all : (psbt.outputs.zip output_info).length = output_info.length := by simp [List.length_zip, len]
  rw [screensOf, outputScreens_length, infos, all]
  unfold displayTotal
  by_cases some_shown : 0 < output_info.countP displays
  · simp only [some_shown, if_true, decide_eq_true_eq]
    split <;> omega
  · simp [some_shown, len]

theorem outputScreens_indices (device : Device K) (network_id : Network) (hiddenOutputs : Bool) (total n i : Nat)
    (list : List (Output × OutputInfo)) :
    ((outputScreens device network_id hiddenOutputs total n i list).map outputIndex).Sublist
      (List.range' i list.length) := by
  induction list generalizing n i with
  | nil => simp [outputScreens]
  | cons pair rest ih =>
    obtain ⟨out, info⟩ := pair
    simp only [outputScreens, List.length_cons, List.range'_succ]
    split
    · exact (ih n (i + 1)).cons i
    · exact (ih (n + 1) (i + 1)).cons_cons i

theorem outputScreens_mem {hiddenOutputs : Bool} {total n i : Nat} {list : List (Output × OutputInfo)}
    {screen : Screen} (mem : screen ∈ outputScreens device network_id hiddenOutputs total n i list) :
    ∃ j pair, list[j]? = some pair ∧ Shows device network_id (i + j) pair.1 screen := by
  induction list generalizing n i with
  | nil => simp [outputScreens] at mem
  | cons pair rest ih =>
    obtain ⟨out, info⟩ := pair
    have later {n' : Nat} (at_rest : screen ∈ outputScreens device network_id hiddenOutputs total n' (i + 1) rest) :
        ∃ j pair, ((out, info) :: rest)[j]? = some pair ∧ Shows device network_id (i + j) pair.1 screen := by
      obtain ⟨j, pair, at_j, shows⟩ := ih at_rest
      exact ⟨j + 1, pair, by simpa using at_j, by rwa [show i + (j + 1) = i + 1 + j by omega]⟩
    simp only [outputScreens] at mem
    split at mem
    · exact later mem
    · rcases List.mem_cons.mp mem with rfl | at_rest
      · exact ⟨0, (out, info), rfl, _, _, _, rfl⟩
      · exact later at_rest

/-- An output without a screen is one of those the loop skips. -/
theorem outputScreens_covers {hiddenOutputs : Bool} {total n i j : Nat} {list : List (Output × OutputInfo)}
    {out : Output} {info : OutputInfo} (at_j : list[j]? = some (out, info)) :
    (hiddenOutputs = true ∧ displays info = false) ∨
      ∃ screen ∈ outputScreens device network_id hiddenOutputs total n i list,
        Shows device network_id (i + j) out screen := by
  induction list generalizing n i j with
  | nil => simp at at_j
  | cons pair rest ih =>
    obtain ⟨first, first_info⟩ := pair
    simp only [outputScreens]
    cases j with
    | zero =>
      simp only [List.getElem?_cons_zero, Option.some.injEq, Prod.mk.injEq] at at_j
      obtain ⟨rfl, rfl⟩ := at_j
      split
      · next skip => exact .inl (by simpa using skip)
      · exact .inr ⟨_, List.mem_cons_self, _, _, _, rfl⟩
    | succ j =>
      rw [List.getElem?_cons_succ] at at_j
      rw [show i + (j + 1) = i + 1 + j by omega]
      split
      · exact ih at_j
      · rcases ih (n := n + 1) (i := i + 1) at_j with skipped | ⟨screen, mem, shows⟩
        · exact .inl skipped
        · exact .inr ⟨screen, List.mem_cons_of_mem _ mem, shows⟩

theorem outputs_spec (lawful : device.Lawful) (bitcoin : network_is_liquid network_id = false)
    {psbt : WallyPsbt} {output_info : List OutputInfo}
    (ours : ∀ info ∈ output_info, info.change = true → info.is_ours = true)
    (len : psbt.outputs.length = output_info.length) (world : World K) :
    Proc.wp (show_btc_transaction_outputs_activity device network_id psbt output_info)
      (fun yes => OutputsEnd world (displayTotal output_info) 0 (screensOf device network_id psbt output_info)
        (.ok (if yes then some (displayTotal output_info) else none)))
      (fun h => OutputsEnd world (displayTotal output_info) 0 (screensOf device network_id psbt output_info) (.error h))
      world := by
  simp only [show_btc_transaction_outputs_activity, Proc.wp_bind, bitcoin, Proc.wp_ensure, Bool.not_false, if_true,
    displayable_outputs_eq ours len, Proc.wp_ok]
  refine Proc.wp_mono (showOutputs_spec lawful bitcoin _ _ (psbt.outputs.zip output_info) ?_ world 0 0) ?_
    fun _ _ done => done
  · intro pair mem
    exact ours pair.2 (List.of_mem_zip mem).2
  · intro shown after done
    cases shown with
    | none => exact done
    | some shown =>
      have count : shown = displayTotal output_info := by
        obtain ⟨_, _, count, _⟩ := done
        rw [count, Nat.zero_add]
        exact screensOf_length len
      subst count
      simp only [Proc.wp_bind, Proc.wp_ensure, beq_self_eq_true, if_true]
      exact done

end

/-! ### The fee -/

theorem deduct_isOk {ε : Type} (list : List (Output × OutputInfo)) (spend_amount : UInt64)
    (covered : totalOf (list.map fun pair => pair.1.satoshi) ≤ spend_amount.toNat) :
    ∃ rest, (Check.fold deductChange spend_amount list : Check ε UInt64) = .ok rest := by
  induction list generalizing spend_amount with
  | nil => exact ⟨spend_amount, rfl⟩
  | cons pair rest ih =>
    simp only [totalOf, List.map_cons, List.sum_cons] at covered ih
    simp only [Check.fold, deductChange]
    cases pair.2.change with
    | false => exact ih spend_amount (by omega)
    | true =>
      have enough : pair.1.satoshi ≤ spend_amount := UInt64.le_iff_toNat_le.mpr (by omega)
      simp only [if_true, enough, decide_true, Check.ensure_true, Check.ok_bind, Check.pure_eq]
      refine ih (spend_amount - pair.1.satoshi) ?_
      rw [UInt64.toNat_sub_of_le _ _ enough]
      omega

theorem feeWarning_isOk {ε : Type} (warn_fees warn_scripts : Bool) :
    ∃ warning, (feeWarning warn_fees warn_scripts : Check ε String) = .ok warning := by
  cases warn_fees <;> cases warn_scripts <;> exact ⟨_, rfl⟩

theorem total_output_toNat (psbt : WallyPsbt) :
    psbt.total_output_satoshi.toNat = totalOf (psbt.outputs.map Output.satoshi) := by
  rw [WallyPsbt.total_output_satoshi, UInt64.toNat_ofNat']
  exact Nat.mod_eq_of_lt psbt.total_fits

theorem fee_spec {psbt : WallyPsbt} {output_info : List OutputInfo} {flavour : ScriptFlavour}
    (bitcoin : network_is_liquid network_id = false) (len : psbt.outputs.length = output_info.length)
    {input_amount : UInt64} (enough : psbt.total_output_satoshi ≤ input_amount) (world : World K) :
    Proc.wp (show_btc_fee_confirmation_activity device network_id psbt output_info flavour input_amount
        psbt.total_output_satoshi)
      (fun yes after => psbt.total_output_satoshi ≠ 0 ∧ ∃ warning answer rest, yes = (answer == .accepted) ∧
        after = world.answered (feeScreen device (input_amount - psbt.total_output_satoshi) warning) answer rest)
      (fun h after =>
        h = .abort ∧ psbt.total_output_satoshi = 0 ∧ after = world ∨
        h = .waiting ∧ psbt.total_output_satoshi ≠ 0 ∧ ∃ warning, after = { world with
          presses := []
          shown := world.shown ++ [⟨feeScreen device (input_amount - psbt.total_output_satoshi) warning, none⟩] })
      world := by
  simp only [show_btc_fee_confirmation_activity, Proc.wp_bind, Proc.wp_ensure]
  by_cases zero : psbt.total_output_satoshi = 0
  · by_cases none_in : input_amount = 0 <;> simp [zero, none_in]
  · have some_in : input_amount ≠ 0 := by
      rintro rfl
      exact zero (UInt64.le_zero_iff.mp enough)
    have covered : totalOf ((psbt.outputs.zip output_info).map fun pair => pair.1.satoshi) ≤
        psbt.total_output_satoshi.toNat := by
      rw [show (fun pair : Output × OutputInfo => pair.1.satoshi) = Output.satoshi ∘ Prod.fst from rfl,
        ← List.map_map, List.map_fst_zip (by omega), total_output_toNat]
    obtain ⟨spend, deducted⟩ := deduct_isOk (ε := Reply) (psbt.outputs.zip output_info) _ covered
    simp only [bne_iff_ne, ne_eq, some_in, zero, not_false_eq_true, decide_true, enough, if_true, deducted, Proc.wp_ok]
    obtain ⟨warning, warned⟩ := feeWarning_isOk (ε := Reply)
      (input_amount - psbt.total_output_satoshi != 0 && decide (spend ≤ input_amount - psbt.total_output_satoshi))
      (flavour == .MIXED)
    simp only [warned, Proc.wp_ok, show_btc_final_confirmation_activity, Proc.wp_bind, bitcoin, Bool.not_false,
      Proc.wp_ensure, if_true, amountOf_eq]
    apply wp_showScreen
    · exact fun answer rest => ⟨by simp, warning, answer, rest, rfl, rfl⟩
    · exact .inr ⟨rfl, by simp, warning, rfl⟩

end

/-! ### Signing -/

section
variable {K : Type} (device : Device K) (keychain : Keychain K) (psbt : WallyPsbt)

/-- The key belongs to the wallet at this item: it derives from the master key, or from
    the parent of a green 2of3 recovery key, which does. -/
def OwnKey (keypaths : List KeyPath) (key_index : Nat) (hdkey : K) : Prop :=
  ∃ item parent, keypaths[key_index]? = some item ∧ device.wally.keypath_key true parent item = some hdkey ∧
    (parent = keychain.xpriv ∨ keypaths.length = 3 ∧
      ∃ path, parent = device.wally.bip32_key_from_parent_path keychain.xpriv path)

/-- The signature is one the wallet makes: on an input flagged for signing, with its key. -/
def SignsInput (signature : Signature K) : Prop :=
  ∃ input, psbt.inputs[signature.index]? = some input ∧ (signer device keychain input).isSome = true ∧
    OwnKey device keychain input.keyMap.keypaths signature.key_index signature.hdkey

/-- Signing has only added signatures, all of them of this kind. -/
structure Signs (Kind : Signature K → Prop) (world after : World K) : Prop where
  keychain : after.keychain = world.keychain
  shown : after.shown = world.shown
  signatures : ∀ signature ∈ after.signatures, signature ∈ world.signatures ∨ Kind signature

variable {device keychain psbt} {Kind : Signature K → Prop}

theorem Signs.refl (world : World K) : Signs Kind world world := ⟨rfl, rfl, fun _ mem => .inl mem⟩

theorem Signs.trans {world mid after : World K} (first : Signs Kind world mid) (later : Signs Kind mid after) :
    Signs Kind world after :=
  ⟨later.keychain.trans first.keychain, later.shown.trans first.shown,
    fun signature mem => (later.signatures signature mem).elim (first.signatures signature) .inr⟩

theorem ownKey_of_from {keypaths : List KeyPath} {start : Nat} {recovery : Bool} {iter : KeyIter K}
    (valid : key_iter_from device.wally keychain true keypaths start recovery = some iter) :
    OwnKey device keychain keypaths iter.key_index iter.hdkey := by
  obtain ⟨_, _, _, item, parent, at_index, belongs, origin⟩ := key_iter_from_some valid
  exact ⟨item, parent, at_index, belongs, origin⟩

theorem signKeys_spec (Kind : Signature K → Prop) (keypaths : List KeyPath) {index : Nat} {txhash : Bytes} (fuel : Nat)
    (iter : Option (KeyIter K)) (world : World K) (same : world.keychain = keychain)
    (valid : ∀ at_key, iter = some at_key →
      ∃ start recovery, key_iter_from device.wally keychain true keypaths start recovery = some at_key)
    (kind : ∀ key_index hdkey, OwnKey device keychain keypaths key_index hdkey → Kind ⟨index, key_index, hdkey⟩) :
    Proc.wp (signKeys device psbt index txhash fuel iter) (fun _ => Signs Kind world)
      (fun h after => (∃ reply, h = .error reply) ∧ Signs Kind world after) world := by
  induction fuel generalizing iter world with
  | zero => exact Signs.refl world
  | succ fuel ih =>
    cases iter with
    | none => exact Signs.refl world
    | some at_key =>
      obtain ⟨start, recovery, found⟩ := valid at_key rfl
      simp only [signKeys, Proc.wp_bind]
      cases device.sign_input_bip32 psbt index at_key.key_index txhash at_key.hdkey with
      | false => exact ⟨⟨_, rfl⟩, Signs.refl world⟩
      | true =>
        simp only [Bool.not_true, Bool.false_eq_true, if_false, Proc.wp_pure, Proc.wp_update, Proc.wp_read, same]
        have added : Signs Kind world { world with
            signatures := world.signatures ++ [⟨index, at_key.key_index, at_key.hdkey⟩] } := by
          refine ⟨rfl, rfl, fun signature mem => ?_⟩
          rcases List.mem_append.mp mem with before | last
          · exact .inl before
          · rw [List.mem_singleton.mp last]
            exact .inr (kind _ _ (ownKey_of_from found))
        refine Proc.wp_mono (ih _ _ same ?_) (fun _ _ later => added.trans later)
          (fun _ _ later => ⟨later.1, added.trans later.2⟩)
        intro next at_next
        obtain ⟨same_keypaths, is_private, _⟩ := key_iter_from_some found
        rw [key_iter_next, same_keypaths, is_private] at at_next
        exact ⟨_, _, by rw [← same]; exact at_next⟩

theorem signInputs_spec (list : List (Input × Option SigType)) (index : Nat) (world : World K)
    (same : world.keychain = keychain)
    (flagged : ∀ j input sig_type, list[j]? = some (input, sig_type) →
      psbt.inputs[index + j]? = some input ∧ (sig_type.isSome = true → (signer device keychain input).isSome = true)) :
    Proc.wp (signInputs device psbt index list) (fun _ => Signs (SignsInput device keychain psbt) world)
      (fun h after => (∃ reply, h = .error reply) ∧ Signs (SignsInput device keychain psbt) world after) world := by
  induction list generalizing index world with
  | nil => exact Signs.refl world
  | cons pair rest ih =>
    obtain ⟨input, sig_type⟩ := pair
    have later (now : World K) (at_now : now.keychain = keychain) := ih (index + 1) now at_now
      (fun j i s at_j => by
        rw [show index + 1 + j = index + (j + 1) by omega]
        exact flagged (j + 1) i s (by simpa using at_j))
    simp only [signInputs]
    cases sig_type with
    | none => exact later world same
    | some sig_type =>
      simp only [Option.isNone_some, Bool.false_eq_true, if_false]
      obtain ⟨at_index, ours⟩ := flagged 0 input (some sig_type) rfl
      cases device.input_signature_hash psbt index with
      | none => exact ⟨⟨_, rfl⟩, Signs.refl world⟩
      | some txhash =>
        simp only [Proc.wp_bind, Proc.wp_read]
        refine Proc.wp_mono (signKeys_spec (SignsInput device keychain psbt)
          input.keyMap.keypaths _ _ world same ?_ ?_) ?_ fun _ _ halts => halts
        · intro at_key begins
          rw [key_iter_input_begin, same] at begins
          exact ⟨_, _, key_iter_init_some begins⟩
        · exact fun key_index hdkey own => ⟨input, by simpa using at_index, ours rfl, own⟩
        · intro _ mid signs
          exact Proc.wp_mono (later mid (signs.keychain.trans same)) (fun _ _ done => signs.trans done)
            (fun _ _ done => ⟨done.1, signs.trans done.2⟩)

end

end PiJade.PsbtScreens
