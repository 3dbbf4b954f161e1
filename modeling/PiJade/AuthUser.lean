import PiJade.KeychainSlots

/-!
Unlocking with the PIN (`get_pin_load_keys`, `main/process/auth_user.c`). What the user and the pinserver answer is
given beforehand. The PIN decrypts the wallet before a passphrase is asked for, so a run can fail with the entropy
cached; the theorem says in which runs it stays there.
-/
namespace PiJade.AuthUser
set_option linter.unusedSimpArgs false
open Storage Keychain

def DIGIT_ENTRY_SIZE : Nat := 6

/-- The digits entered. -/
def Pin : Type := { digits : Bytes // digits.length = DIGIT_ENTRY_SIZE }
  deriving DecidableEq

def WALLET_ERASE_PIN : String := "walleterasepin"
def WALLET_ERASE_PIN_SALT_LEN : Nat := 16
def WALLET_ERASE_PIN_VERIFIER_LEN : Nat := 32
def WALLET_ERASE_PIN_RECORD_LEN : Nat := WALLET_ERASE_PIN_SALT_LEN + WALLET_ERASE_PIN_VERIFIER_LEN

def CBOR_RPC_USER_CANCELLED : Int := -32000
def CBOR_RPC_INTERNAL_ERROR : Int := -32603

inductive Reply where
  | ok
  | fail
  | reject (code : Int) (message : String)
  deriving DecidableEq

/-- How the entry of a new PIN goes, turn by turn: it is left, the second entry is left, or both PINs are entered and
    the user goes on or not if they differ. -/
inductive NewPin where
  | abandoned
  | unconfirmed (pin : Pin) (next : NewPin)
  | entered (pin confirmed : Pin) (goes_on : Bool) (next : NewPin)

/-- What is answered while Jade is unlocked. -/
structure Answers where
  /-- The PIN, unless its entry is left. -/
  pin : Option Pin
  /-- The key that the pinserver has for a PIN, unless it cannot be had. -/
  pinclient_get : Pin → Option Bytes
  passphrase : Bytes
  leaves_passphrase : Bool
  change_pin : Bool
  leaves_question : Bool
  new_pin : NewPin
  /-- The key that the pinserver makes for a new PIN. -/
  pinclient_set : Pin → Option Bytes
  /-- The iv drawn when the keys are encrypted again. -/
  iv : Bytes

/-- The device, the request to change the PIN, and the replies to the message. -/
structure Session (K : Type) where
  jade : Jade K
  change_pin_requested : Bool
  replies : List Reply

abbrev Auth (K : Type) := Proc (Session K) Interrupt

section
variable {K α : Type}

/-- Keychain code, run in the session. -/
def keychain (task : Task K α) : Auth K α := fun session =>
  ((task session.jade).1, { session with jade := (task session.jade).2 })

def reply (made : Reply) : Auth K Unit :=
  Proc.update fun session => { session with replies := session.replies ++ [made] }

def set_request_change_pin (change_pin : Bool) : Auth K Unit :=
  Proc.update fun session => { session with change_pin_requested := change_pin }

/-- The host takes the power away. -/
def power_shutdown : Auth K Unit := Proc.fail .power_cut

end

section
variable {K : Type} (wally : Wally K) (wallet_erase_pin_derive : Bytes → Bytes → Option Bytes) (answers : Answers)

def storage_verify_wallet_erase_pin (pin : Bytes) : Code Bool := do
  match ← read_blob_fixed DEFAULT_NAMESPACE WALLET_ERASE_PIN WALLET_ERASE_PIN_RECORD_LEN with
  | none => pure false
  | some record =>
    match wallet_erase_pin_derive pin (record.take WALLET_ERASE_PIN_SALT_LEN) with
    | none => pure false
    | some candidate => pure (candidate == record.drop WALLET_ERASE_PIN_SALT_LEN)

def check_wallet_erase_pin (pin_entered : Pin) : Auth K Unit := do
  if ← keychain (onDevice (storage_verify_wallet_erase_pin wallet_erase_pin_derive pin_entered.val)) then
    let _ ← keychain keychain_erase_encrypted
    keychain (keychain_set_passphrase_frequency .NEVER)
    keychain keychain_persist_key_flags
    reply (.reject CBOR_RPC_INTERNAL_ERROR "Internal Error")
    power_shutdown

/-- The PIN entered, and the key that the pinserver has for it. -/
def get_pin_get_aeskey : Auth K (Option (Pin × Bytes)) := do
  keychain (do ensure (← get keychain_has_pin))
  let pin_attempts_remaining ← keychain keychain_pin_attempts_remaining
  keychain (ensure (0 < pin_attempts_remaining))
  match answers.pin with
  | none =>
    reply (.reject CBOR_RPC_USER_CANCELLED "User abandonded pin entry")
    pure none
  | some pin => pure ((answers.pinclient_get pin).map fun aeskey => (pin, aeskey))

/-- A new PIN is one entered twice. -/
def set_pin_get_aeskey : NewPin → Auth K (Option Bytes)
  | .abandoned => do
    reply (.reject CBOR_RPC_USER_CANCELLED "User abandoned setting new PIN")
    pure none
  | .unconfirmed _ next => set_pin_get_aeskey next
  | .entered pin confirmed goes_on next => do
    if pin = confirmed then pure (answers.pinclient_set pin)
    else if goes_on then set_pin_get_aeskey next
    else
      reply (.reject CBOR_RPC_USER_CANCELLED "User abandoned setting new PIN")
      pure none

/-- The wallet is loaded: it is bound to the source of the message, and the PIN changed if that was asked for. -/
def loaded (aeskey : Bytes) (source : UInt8) (suppress_pin_change_confirmation : Bool) : Auth K Bool := do
  keychain (keychain_set wally .self source false)
  if ← Proc.read Session.change_pin_requested then
    if answers.leaves_question then
      reply (.reject CBOR_RPC_USER_CANCELLED "User abandoned changing PIN")
      pure true
    else if suppress_pin_change_confirmation || answers.change_pin then
      match ← set_pin_get_aeskey answers answers.new_pin with
      | none => pure true
      | some aeskey_new =>
        if ← keychain (keychain_reencrypt wally aeskey aeskey_new answers.iv) then
          finish
        else pure true
    else finish
  else finish
where
  finish : Auth K Bool := do
    set_request_change_pin false
    reply .ok
    pure true

def get_pin_load_keys (source : UInt8) (suppress_pin_change_confirmation : Bool) : Auth K Bool := do
  keychain (do ensure (← get Ram.keychain_data).isNone)
  keychain (do ensure (← get keychain_has_pin))
  match ← get_pin_get_aeskey answers with
  | none => pure false
  | some (pin, aeskey) =>
    if !(← keychain (keychain_load wally aeskey)) then
      check_wallet_erase_pin wallet_erase_pin_derive pin
      reply .fail
      pure false
    else if ← keychain (get keychain_requires_passphrase) then
      if answers.leaves_passphrase then
        -- the entropy is cached already, and would refuse the next load
        keychain (keychain_clear wally)
        reply (.reject CBOR_RPC_USER_CANCELLED "User declined to enter passphrase")
        pure false
      else if !(← keychain (keychain_complete_derivation_with_passphrase wally answers.passphrase)) then
        reply (.reject CBOR_RPC_INTERNAL_ERROR "Failed to derive wallet")
        pure false
      else loaded wally answers aeskey source suppress_pin_change_confirmation
    else loaded wally answers aeskey source suppress_pin_change_confirmation

end

/-! ### What a failed unlock leaves -/

section
variable {K : Type} (wally : Wally K)

/-- No wallet is loaded and both caches are empty. -/
structure Clear (wallets : Wallets K) : Prop where
  pointer : wallets.inUse = none
  slots : ∀ slot, (wallets.slots slot).in_use = false
  entropy : wallets.entropy_len = 0
  secret : wallets.secret_len = 0

/-- A wallet is loaded and both caches are empty. -/
structure Unlocked (wallets : Wallets K) : Prop where
  pointer : wallets.inUse.isSome
  entropy : wallets.entropy_len = 0
  secret : wallets.secret_len = 0

/-- `keychain_load` behind its first checks. -/
def loadStored (aeskey : Bytes) : Task K Bool := do
  match ← keychain_load_and_decrypt_blob wally aeskey (AES_PADDED_LEN SERIALIZED_KEY_LEN) with
  | none => pure false
  | some serialized => keychain_load.restore wally serialized

/-- With a key and a stored wallet, `keychain_load` goes on to decrypt. -/
def Unrefused (jade : Jade K) : Prop :=
  ∀ aeskey : Bytes, aeskey.length = AES_KEY_LEN_256 → keychain_has_pin jade.ram = true →
    keychain_load wally aeskey jade = loadStored wally aeskey jade

/-- A failed run leaves nothing behind, and another leaves a wallet. -/
def Settles (rslt : Bool) (left : Jade K) : Prop :=
  (rslt = false → Clear left.ram.wallets ∧ Unrefused wally left) ∧ (rslt = true → Unlocked left.ram.wallets)

/-- The PIN loads entropy that makes no wallet with the passphrase entered. -/
def Underivable (answers : Answers) (start : Session K) : Prop :=
  ∃ pin aeskey serialized, answers.pin = some pin ∧ answers.pinclient_get pin = some aeskey ∧
    Opens wally start.jade.device.nvs_storage aeskey serialized ∧ IsEntropy serialized ∧
    (∃ left, keychain_load wally aeskey (keychain_pin_attempts_remaining start.jade).2 = (.ok true, left)) ∧
    answers.leaves_passphrase = false ∧ ¬ Derives wally serialized answers.passphrase

end

section
variable {K α : Type} {wally : Wally K} {session : Session K}

theorem wp_keychain {task : Task K α} {post : α → Session K → Prop} {halts : Halt Interrupt → Session K → Prop} :
    Proc.wp (keychain task) post halts session ↔
      Proc.wp task (fun value jade => post value { session with jade := jade })
        (fun halt jade => halts halt { session with jade := jade }) session.jade := by
  simp only [Proc.wp, keychain]
  rcases task session.jade with ⟨_ | _, _⟩ <;> rfl

theorem wp_run {σ ε : Type} {m : Proc σ ε α} {s : σ} :
    Proc.wp m (fun value left => m s = (.ok value, left)) (fun _ _ => True) s := by
  simp only [Proc.wp]
  split
  case h_1 runs => exact runs
  case h_2 => trivial

theorem get_bind {β : Type} {read : Ram K → α} {next : α → Task K β} {jade : Jade K} :
    (get read >>= next) jade = next (read jade.ram) jade := rfl

theorem Clear.unrefused {jade : Jade K} (clear : Clear jade.ram.wallets) : Unrefused wally jade := by
  intro aeskey key pin
  have pointer : jade.ram.keychain_data = none := clear.pointer
  have entropy : jade.ram.mnemonic_entropy_len = 0 := clear.entropy
  rw [keychain_load, if_neg (by simp [key]), get_bind, get_bind, if_neg (by simp [pointer, entropy]), get_bind,
    if_neg (by simp [pin])]
  rfl

/-! ### Each step -/

theorem quiet_attempts_remaining : Keychain.Quiet (keychain_pin_attempts_remaining : Task K UInt8) := quiet_onDevice _

theorem memory_attempts_remaining (jade : Jade K) :
    (keychain_pin_attempts_remaining jade).2.device.nvs_storage = jade.device.nvs_storage := by
  have keeps : Proc.Keeps (fun jade after : Jade K => after.device.nvs_storage = jade.device.nvs_storage)
      keychain_pin_attempts_remaining := by
    apply Proc.keeps_of_wp
    intro jade
    rw [keychain_pin_attempts_remaining, wp_onDevice, storage_get_counter, Proc.wp_bind]
    apply wp_read_byte
    · intros
      rfl
    · intros
      rfl
  exact keeps jade

theorem quiet_reencrypt (curr_aeskey new_aeskey iv : Bytes) (jade : Jade K) :
    Proc.wp (keychain_reencrypt wally curr_aeskey new_aeskey iv) (fun _ left => left.ram.wallets = jade.ram.wallets)
      (fun _ _ => True) jade := by
  rw [keychain_reencrypt]
  split
  case isTrue => rfl
  rw [Proc.wp_bind, wp_get]
  split
  case isTrue => rfl
  rw [Proc.wp_bind]
  refine Proc.wp_mono (wp_load_and_decrypt_tried curr_aeskey _) ?_ fun _ _ _ => trivial
  rintro result left ⟨flagged, -⟩
  cases result with
  | none => exact flagged.wallets
  | some serialized =>
    refine Proc.wp_mono (Proc.Keeps.wp (quiet_encrypt_and_save_blob new_aeskey iv serialized) left) ?_ fun _ _ _ => trivial
    intro _ after same
    exact same.trans flagged.wallets

/-- Only the replies differ. -/
def Alike (session after : Session K) : Prop := after.jade = session.jade

theorem alike_set_pin (answers : Answers) (entry : NewPin) :
    Proc.Keeps Alike (set_pin_get_aeskey answers entry : Auth K (Option Bytes)) := by
  have trans : ∀ first second third : Session K, Alike first second → Alike second third → Alike first third :=
    fun _ _ _ one two => two.trans one
  have left : Proc.Keeps Alike (do
      reply (.reject CBOR_RPC_USER_CANCELLED "User abandoned setting new PIN"); pure none : Auth K (Option Bytes)) :=
    fun _ => rfl
  induction entry with
  | abandoned => exact left
  | unconfirmed pin next ih => exact ih
  | entered pin confirmed goes_on next ih =>
    rw [set_pin_get_aeskey]
    split
    · exact fun _ => rfl
    · split
      · exact ih
      · exact left

/-- The attempts are read, and a key is the one that the pinserver has for the PIN entered. -/
theorem wp_get_pin (answers : Answers) :
    Proc.wp (get_pin_get_aeskey answers) (fun result left =>
      left.jade = (keychain_pin_attempts_remaining session.jade).2 ∧
        result = answers.pin.bind fun pin => (answers.pinclient_get pin).map fun aeskey => (pin, aeskey))
      (fun _ _ => True) session := by
  simp only [get_pin_get_aeskey, Proc.wp_bind, wp_keychain, wp_get, wp_keychain_ensure]
  split
  case isFalse => trivial
  refine Proc.wp_mono wp_run ?_ fun _ _ _ => trivial
  intro attempts between read
  split
  case isFalse => trivial
  cases answers.pin with
  | none => exact ⟨by rw [read], rfl⟩
  | some pin => exact ⟨by rw [read], rfl⟩

theorem quiet_check_wallet_erase_pin (derive : Bytes → Bytes → Option Bytes) (pin : Pin) :
    Proc.wp (check_wallet_erase_pin derive pin) (fun _ left => left.jade.ram.wallets = session.jade.ram.wallets)
      (fun _ _ => True) session := by
  rw [check_wallet_erase_pin, Proc.wp_bind, wp_keychain]
  refine Proc.wp_mono (Proc.Keeps.wp (quiet_onDevice _) session.jade) ?_ fun _ _ _ => trivial
  intro found between same
  cases found with
  | false => exact same
  | true =>
    simp only [↓reduceIte, Proc.wp_bind, wp_keychain]
    refine Proc.wp_mono (Proc.Keeps.wp quiet_erase_encrypted between) ?_ fun _ _ _ => trivial
    intro _ erased _
    refine Proc.wp_mono (Proc.Keeps.wp (quiet_set_passphrase_frequency _) erased) ?_ fun _ _ _ => trivial
    intro _ set _
    exact Proc.wp_mono (Proc.Keeps.wp quiet_persist_key_flags set) (fun _ _ _ => trivial) fun _ _ _ => trivial

theorem wp_loaded {answers : Answers} {aeskey : Bytes} {source : UInt8} {suppress : Bool} :
    Proc.wp (loaded wally answers aeskey source suppress) (fun rslt left => rslt = true ∧ Unlocked left.jade.ram.wallets)
      (fun _ _ => True) session := by
  have finishes : ∀ between : Session K, Unlocked between.jade.ram.wallets →
      Proc.wp loaded.finish (fun rslt left => rslt = true ∧ Unlocked left.jade.ram.wallets) (fun _ _ => True) between :=
    fun _ unlocked => ⟨rfl, unlocked⟩
  simp only [loaded, keychain_set, Proc.wp_bind, wp_keychain, wp_get, wp_keychain_ensure]
  split
  case isFalse => trivial
  case isTrue pointer =>
    apply wp_finalise_slot fun _ => trivial
    intro left same
    have unlocked : Unlocked left.ram.wallets := by
      rw [same]
      exact ⟨pointer, rfl, rfl⟩
    rw [Proc.wp_read]
    split
    case isFalse => exact finishes _ unlocked
    split
    case isTrue => exact ⟨rfl, unlocked⟩
    split
    case isFalse => exact finishes _ unlocked
    rw [Proc.wp_bind]
    refine Proc.wp_mono (Proc.Keeps.wp (alike_set_pin answers answers.new_pin) _) ?_ fun _ _ _ => trivial
    intro entered between alike
    rw [Alike] at alike
    cases entered with
    | none =>
      refine ⟨rfl, ?_⟩
      rw [alike]
      exact unlocked
    | some aeskey_new =>
      rw [Proc.wp_bind, wp_keychain]
      refine Proc.wp_mono (quiet_reencrypt aeskey aeskey_new answers.iv between.jade) ?_ fun _ _ _ => trivial
      intro ok after kept
      rw [alike] at kept
      have still : Unlocked after.ram.wallets := kept ▸ unlocked
      split
      case isTrue => exact finishes _ still
      case isFalse => exact ⟨rfl, still⟩

/-! ### Runs -/

variable {answers : Answers} {derive : Bytes → Bytes → Option Bytes} {source : UInt8} {suppress : Bool}

theorem settles_failed {left : Jade K} (clear : Clear left.ram.wallets) : Settles wally false left :=
  ⟨fun _ => ⟨clear, clear.unrefused⟩, fun impossible => by cases impossible⟩

theorem settles_unlocked {left : Jade K} (unlocked : Unlocked left.ram.wallets) : Settles wally true left :=
  ⟨fun impossible => (by cases impossible), fun _ => unlocked⟩

theorem not_settles_cached {left : Jade K} (cached : left.ram.wallets.entropy_len ≠ 0) : ¬ Settles wally false left :=
  fun settles => cached (settles.1 rfl).1.entropy

theorem opens_unique {contents : Contents} {aeskey serialized other : Bytes} (opens : Opens wally contents aeskey serialized)
    (also : Opens wally contents aeskey other) : serialized = other := by
  obtain ⟨blob, stored, opened⟩ := opens
  obtain ⟨blob', stored', opened'⟩ := also
  obtain rfl := Option.some.inj (stored.symm.trans stored')
  exact Option.some.inj (opened.symm.trans opened')

/-- What is left to say of a run once the load has returned. -/
theorem underivable_iff {start : Session K} {pin : Pin} {aeskey : Bytes} {ok : Bool} {left : Jade K}
    (entered : answers.pin = some pin) (had : answers.pinclient_get pin = some aeskey)
    (runs : keychain_load wally aeskey (keychain_pin_attempts_remaining start.jade).2 = (.ok ok, left)) :
    Underivable wally answers start ↔ ∃ serialized, Opens wally start.jade.device.nvs_storage aeskey serialized ∧
      IsEntropy serialized ∧ ok = true ∧ answers.leaves_passphrase = false ∧
      ¬ Derives wally serialized answers.passphrase := by
  constructor
  · rintro ⟨pin', aeskey', serialized, entered', had', opens, entropy, ⟨left', runs'⟩, stays, bad⟩
    obtain rfl := Option.some.inj (entered.symm.trans entered')
    obtain rfl := Option.some.inj (had.symm.trans had')
    have same := congrArg Prod.fst (runs.symm.trans runs')
    exact ⟨serialized, opens, entropy, by simpa using same, stays, bad⟩
  · rintro ⟨serialized, opens, entropy, rfl, stays, bad⟩
    exact ⟨pin, aeskey, serialized, entered, had, opens, entropy, ⟨left, runs⟩, stays, bad⟩

theorem entropy_positive {serialized : Bytes} (entropy : IsEntropy serialized) : serialized.length ≠ 0 := by
  rcases entropy with length | length
  · rw [length]
    decide
  · rw [length]
    decide

theorem settles_iff {start : Session K} (clear : Clear start.jade.ram.wallets) :
    Proc.wp (get_pin_load_keys wally derive answers source suppress)
      (fun rslt left => Settles wally rslt left.jade ↔ ¬ Underivable wally answers start) (fun _ _ => True) start := by
  have opensUp : ∀ {aeskey : Bytes} {between : Session K}, ¬ Underivable wally answers start →
      Proc.wp (loaded wally answers aeskey source suppress)
        (fun rslt left => Settles wally rslt left.jade ↔ ¬ Underivable wally answers start) (fun _ _ => True) between := by
    intro aeskey between derivable
    refine Proc.wp_mono wp_loaded ?_ fun _ _ _ => trivial
    rintro rslt left ⟨rfl, unlocked⟩
    exact ⟨fun _ => derivable, fun _ => settles_unlocked unlocked⟩
  simp only [get_pin_load_keys, Proc.wp_bind, wp_keychain, wp_get, wp_keychain_ensure]
  split
  case isFalse => trivial
  split
  case isFalse => trivial
  refine Proc.wp_mono (wp_get_pin answers) ?_ fun _ _ _ => trivial
  rintro result asked ⟨read, answered⟩
  have kept : asked.jade.ram.wallets = start.jade.ram.wallets := by
    rw [read]
    exact quiet_attempts_remaining start.jade
  have memory : asked.jade.device.nvs_storage = start.jade.device.nvs_storage := by
    rw [read]
    exact memory_attempts_remaining start.jade
  rw [← kept] at clear
  cases result with
  | none =>
    have never : ¬ Underivable wally answers start := by
      rintro ⟨pin, aeskey, serialized, entered, had, -⟩
      rw [entered, Option.bind_some, had] at answered
      cases answered
    exact ⟨fun _ => never, fun _ => settles_failed clear⟩
  | some keys =>
    obtain ⟨pin, entered, got⟩ := Option.bind_eq_some_iff.mp answered.symm
    obtain ⟨aeskey, had, rfl⟩ := Option.map_eq_some_iff.mp got
    simp only [Proc.wp_bind, wp_keychain]
    refine Proc.wp_mono (Proc.wp_and wp_run (loads_load aeskey)) ?_ fun _ _ _ => trivial
    rintro ok between ⟨runs, loads⟩
    rw [read] at runs
    have reached := underivable_iff entered had runs
    rw [← memory] at reached
    generalize was : between.ram.wallets = after at loads
    cases loads with
    | refused =>
      have never : ¬ Underivable wally answers start := by
        rw [reached]
        rintro ⟨_, -, -, impossible, -⟩
        cases impossible
      simp only [Bool.not_false, ↓reduceIte, Proc.wp_bind]
      refine Proc.wp_mono (quiet_check_wallet_erase_pin derive pin) ?_ fun _ _ _ => trivial
      intro _ left same
      refine ⟨fun _ => never, fun _ => settles_failed ?_⟩
      show Clear left.jade.ram.wallets
      rw [same, was]
      exact clear
    | keys src opens other =>
      have never : ¬ Underivable wally answers start := by
        rw [reached]
        rintro ⟨serialized, also, entropy, -⟩
        rw [opens_unique opens also] at other
        exact other entropy
      have pointer : between.ram.keychain_data = some 0 := congrArg Wallets.inUse was
      simp only [Bool.not_true, Bool.false_eq_true, ↓reduceIte, Proc.wp_bind, wp_keychain, wp_get]
      rw [if_neg (by simp [keychain_requires_passphrase, pointer])]
      exact opensUp never
    | @entropy serialized empty _ opens entropy =>
      have pointer : between.ram.keychain_data = none := (congrArg Wallets.inUse was).trans empty
      have len : between.ram.mnemonic_entropy_len = serialized.length := congrArg Wallets.entropy_len was
      have held : between.ram.entropy = serialized := by
        rw [Ram.entropy, len, show between.ram.mnemonic_entropy = overwrite asked.jade.ram.mnemonic_entropy serialized from
          congrArg Wallets.entropy was, overwrite, List.take_left]
      have required : keychain_requires_passphrase between.ram = true := by
        rw [keychain_requires_passphrase, pointer, len]
        simpa using entropy_positive entropy
      have iff : Underivable wally answers start ↔ answers.leaves_passphrase = false ∧
          ¬ Derives wally serialized answers.passphrase := by
        rw [reached]
        constructor
        · rintro ⟨other, also, _, -, both⟩
          rw [opens_unique opens also]
          exact both
        · exact fun both => ⟨serialized, opens, entropy, rfl, both⟩
      simp only [Bool.not_true, Bool.false_eq_true, ↓reduceIte, Proc.wp_bind, wp_keychain, wp_get]
      rw [if_pos required]
      split
      case isTrue leaves =>
        rw [Proc.wp_bind, wp_keychain]
        apply wp_keychain_clear fun _ => trivial
        intro left cleared
        refine ⟨fun _ => ?_, fun _ => settles_failed ?_⟩
        · rw [iff, leaves]
          rintro ⟨impossible, -⟩
          cases impossible
        · show Clear left.ram.wallets
          rw [cleared]
          exact ⟨rfl, fun _ => rfl, rfl, rfl⟩
      case isFalse stays =>
        rw [Proc.wp_bind, wp_keychain]
        refine Proc.wp_mono (wp_complete_derivation answers.passphrase required) ?_ fun _ _ _ => trivial
        rintro derived left ⟨derives, same, -⟩
        rw [held] at derives
        cases derived with
        | false =>
          have bad : Underivable wally answers start :=
            iff.mpr ⟨by simpa using stays, fun good => by cases derives.mpr good⟩
          refine ⟨fun settles => ?_, fun derivable => absurd bad derivable⟩
          refine absurd settles (not_settles_cached ?_)
          show left.ram.wallets.entropy_len ≠ 0
          rw [same rfl, was]
          exact entropy_positive entropy
        | true =>
          exact opensUp fun bad => (iff.mp bad).2 (derives.mp rfl)

end

/-- In a run that returns, a failure leaves nothing behind and a success leaves a wallet, unless the PIN loads entropy
    that makes no wallet: that exit leaves the entropy in the cache. -/
theorem failed_unlock_leaves_nothing_iff {K : Type} (wally : Wally K)
    (wallet_erase_pin_derive : Bytes → Bytes → Option Bytes) (answers : Answers) (source : UInt8) (suppress : Bool)
    (start left : Session K) (rslt : Bool) (clear : Clear start.jade.ram.wallets)
    (runs : get_pin_load_keys wally wallet_erase_pin_derive answers source suppress start = (.ok rslt, left)) :
    Settles wally rslt left.jade ↔ ¬ Underivable wally answers start :=
  Proc.post_of_wp (settles_iff clear) runs

/-- Sixteen bytes of entropy, stored under the key of the right PIN. -/
def lockedContents : Contents := fun _ key =>
  if key = BLOB_FIELD then some (zeros 16 ++ pad (List.replicate 16 7) ++ sampleKey)
  else if key = PIN_COUNTER_FIELD then some [3] else none

def lockedSession : Session UInt8 where
  jade := {
    ram := { Ram.zero plainWally with has_encrypted_blob := true }
    device := ⟨lockedContents, lockedContents, List.replicate 30 .ok, []⟩ }
  change_pin_requested := false
  replies := []

theorem lockedSession_clear : Clear lockedSession.jade.ram.wallets := ⟨rfl, fun _ => rfl, rfl, rfl⟩

/-- The right PIN, and no passphrase. -/
def rightPin : Answers where
  pin := some ⟨zeros 6, rfl⟩
  pinclient_get _ := some sampleKey
  passphrase := []
  leaves_passphrase := false
  change_pin := false
  leaves_question := false
  new_pin := .abandoned
  pinclient_set _ := none
  iv := zeros 16

theorem failed_unlock_leaves_nothing_iff_rightPin :
    ∃ left, get_pin_load_keys plainWally (fun _ _ => none) rightPin 1 false lockedSession = (.ok true, left) ∧
      (Settles plainWally true left.jade ↔ ¬ Underivable plainWally rightPin lockedSession) := by
  have runs : get_pin_load_keys plainWally (fun _ _ => none) rightPin 1 false lockedSession = (.ok true, _) :=
    Prod.ext (rfl : _ = Except.ok true) rfl
  exact ⟨_, runs, failed_unlock_leaves_nothing_iff plainWally _ rightPin 1 false lockedSession _ true lockedSession_clear
    runs⟩

/-- A library that has no memory for the words. -/
def fullWally : Wally UInt8 := { plainWally with mnemonic_from_bytes := fun _ => none }

/-- The derivation fails, and the same PIN is refused from then on. -/
theorem right_pin_refused :
    ∃ left, Clear lockedSession.jade.ram.wallets ∧
      get_pin_load_keys fullWally (fun _ _ => none) rightPin 1 false lockedSession = (.ok false, left) ∧
      ¬ Clear left.jade.ram.wallets ∧ keychain_has_pin left.jade.ram = true ∧
      keychain_load plainWally sampleKey left.jade = (.ok false, left.jade) := by
  refine ⟨_, lockedSession_clear, Prod.ext (rfl : _ = Except.ok false) rfl, ?_, rfl, rfl⟩
  intro clear
  exact absurd clear.entropy (by decide)

end PiJade.AuthUser
