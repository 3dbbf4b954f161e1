import PiJade.KeychainRoundTrip

/-!
The slot table over all runs. What a call can do to the table, the pointer into it and the
two caches is said once, by `Change`; the invariant of the table is a case split on it. One
part of it fails in general: `keychain_load` looks at one of the caches only, so an entropy
blob can be opened over a cached master secret.
-/
namespace PiJade.Keychain
set_option linter.unusedSimpArgs false
open Storage

section
variable {K : Type} (wally : Wally K)

/-- The table, the wallet in use and the two caches. -/
structure Wallets (K : Type) where
  slots : Fin MAX_SEED_SLOTS → Slot K
  active : Fin MAX_SEED_SLOTS
  inUse : Option (Fin MAX_SEED_SLOTS)
  entropy : Bytes
  entropy_len : Nat
  secret : Bytes
  secret_len : Nat

def Ram.wallets (ram : Ram K) : Wallets K where
  slots := ram.keychain_slots
  active := ram.active_slot
  inUse := ram.keychain_data
  entropy := ram.mnemonic_entropy
  entropy_len := ram.mnemonic_entropy_len
  secret := ram.slip39_master_secret
  secret_len := ram.slip39_master_secret_len

namespace Wallets

def empty : Wallets K := (Ram.zero wally).wallets

/-- Changes the slot in use. -/
def place (wallets : Wallets K) (value : Slot K) : Wallets K :=
  { wallets with slots := Function.update wallets.slots wallets.active value }

def occupy (wallets : Wallets K) (slot : Fin MAX_SEED_SLOTS) (src : Keydata K) : Wallets K :=
  { wallets with active := slot, inUse := some slot }.place { wallets.slots slot with
    in_use := true, keydata := src, entropy := zeros BIP39_ENTROPY_LEN_256, entropy_len := 0 }

def finalise (wallets : Wallets K) (userdata : UInt8) (temporary : Bool) : Wallets K :=
  { wallets with
    entropy := zeros BIP39_ENTROPY_LEN_256
    entropy_len := 0
    secret := zeros SLIP39_MASTER_SECRET_MAX
    secret_len := 0 }.place { wallets.slots wallets.active with userdata := userdata, temporary := temporary }

def activate (wallets : Wallets K) (slot : Fin MAX_SEED_SLOTS) : Wallets K :=
  { wallets with active := slot, inUse := some slot }

def forget (wallets : Wallets K) : Wallets K := { wallets with inUse := none }.place (Slot.zero wally)

end Wallets

/-- The variables once the wallet in use is wiped. -/
def Ram.forgotten (ram : Ram K) : Ram K := { ram with keychain_data := none }.setSlot ram.active_slot (Slot.zero wally)

theorem forgotten_active (ram : Ram K) : (ram.forgotten wally).keychain_slots ram.active_slot = Slot.zero wally :=
  Function.update_self ..

theorem forgotten_other (ram : Ram K) {slot : Fin MAX_SEED_SLOTS} (apart : slot ≠ ram.active_slot) :
    (ram.forgotten wally).keychain_slots slot = ram.keychain_slots slot := Function.update_of_ne apart ..

/-- The slot at a position of the list that the user sees. -/
def Ram.at (ram : Ram K) (position : Nat) : Option (Fin MAX_SEED_SLOTS) :=
  slotFrom ram position 0 (List.finRange MAX_SEED_SLOTS)

/-! ### What a call can do -/

/-- How a call that returns may have changed the wallets. -/
inductive Change (jade : Jade K) : Call K → Wallets K → Prop where
  | keep (made : Call K) : Change jade made jade.ram.wallets
  | clear (made : Call K) : Change jade made (Wallets.empty wally)
  | only (made : Call K) (src : Keydata K) (userdata : UInt8) (temporary : Bool) :
    Change jade made (((Wallets.empty wally).occupy 0 src).finalise userdata temporary)
  | again (userdata : UInt8) (temporary : Bool) : jade.ram.keychain_data.isSome →
    Change jade (.set .self userdata temporary) (jade.ram.wallets.finalise userdata temporary)
  | more {slot : Fin MAX_SEED_SLOTS} (src : Keydata K) (userdata : UInt8) (temporary : Bool) : freeSlot jade.ram = some slot →
    Change jade (.load_into_free_slot src userdata temporary)
      ((jade.ram.wallets.occupy slot src).finalise userdata temporary)
  | activate {position : Nat} {slot : Fin MAX_SEED_SLOTS} : jade.ram.at position = some slot →
    Change jade (.slot_activate position) (jade.ram.wallets.activate slot)
  | forget {slot : Fin MAX_SEED_SLOTS} : jade.ram.keychain_data.isSome → (jade.ram.forgotten wally).at 0 = some slot →
    Change jade .slot_forget_active ((jade.ram.wallets.forget wally).activate slot)
  | entropy (mnemonic entropy : Bytes) (entropy_len : Nat) : jade.ram.keychain_data.isSome →
    Change jade (.set_entropy mnemonic)
      (jade.ram.wallets.place { jade.ram.active with entropy := entropy, entropy_len := entropy_len })
  | temporary : jade.ram.keychain_data.isSome →
    Change jade .set_temporary (jade.ram.wallets.place { jade.ram.active with temporary := true })
  | cacheEntropy (mnemonic entropy : Bytes) (entropy_len : Nat) :
    jade.ram.mnemonic_entropy_len = 0 → jade.ram.slip39_master_secret_len = 0 →
    Change jade (.cache_mnemonic_entropy mnemonic)
      { jade.ram.wallets with entropy := entropy, entropy_len := entropy_len }
  | cacheSecret (master_secret secret : Bytes) (secret_len : Nat) :
    jade.ram.mnemonic_entropy_len = 0 → jade.ram.slip39_master_secret_len = 0 →
    Change jade (.cache_slip39_master_secret master_secret)
      { jade.ram.wallets with secret := secret, secret_len := secret_len }
  | loadEntropy (aeskey entropy : Bytes) {blob serialized : Bytes} : jade.ram.keychain_data = none →
    jade.ram.mnemonic_entropy_len = 0 → jade.device.nvs_storage defaultMap BLOB_FIELD = some blob →
    opened wally aeskey blob = some serialized →
    serialized.length = BIP39_ENTROPY_LEN_128 ∨ serialized.length = BIP39_ENTROPY_LEN_256 →
    Change jade (.load aeskey) { jade.ram.wallets with entropy := entropy, entropy_len := serialized.length }

end

section
variable {K : Type} {wally : Wally K} {jade : Jade K} {halts : Halt Interrupt → Jade K → Prop}
  (cut : ∀ left, halts (.error .power_cut) left)
include cut

theorem wp_finalise_slot {userdata : UInt8} {temporary : Bool} {post : Unit → Jade K → Prop}
    (value : ∀ left : Jade K, left.ram.wallets = jade.ram.wallets.finalise userdata temporary → post () left) :
    Proc.wp (finalise_slot userdata temporary) post halts jade := by
  simp only [finalise_slot, storage_get_key_flags, Proc.wp_bind, wp_modify, wp_onDevice]
  apply wp_read_byte
  · intro flags answers
    exact value _ rfl
  · intro answers
    exact cut _

theorem wp_keychain_clear {post : Unit → Jade K → Prop}
    (value : ∀ left : Jade K, left.ram.wallets = Wallets.empty wally → post () left) :
    Proc.wp (keychain_clear wally) post halts jade := by
  simp only [keychain_clear, storage_get_key_flags, Proc.wp_bind, wp_modify, wp_onDevice]
  apply wp_read_byte
  · intro flags answers
    exact value _ rfl
  · intro answers
    exact cut _

theorem wp_finalise_of {wallets : Wallets K} {userdata : UInt8} {temporary : Bool} {post : Unit → Jade K → Prop}
    (before : jade.ram.wallets = wallets)
    (value : ∀ left : Jade K, left.ram.wallets = wallets.finalise userdata temporary → post () left) :
    Proc.wp (finalise_slot userdata temporary) post halts jade := by
  apply wp_finalise_slot cut
  rwa [before]

theorem wp_keychain_set_new {src : Keydata K} {userdata : UInt8} {temporary : Bool} {post : Unit → Jade K → Prop}
    (value : ∀ left : Jade K,
      left.ram.wallets = ((Wallets.empty wally).occupy 0 src).finalise userdata temporary → post () left) :
    Proc.wp (keychain_set wally (.new src) userdata temporary) post halts jade := by
  simp only [keychain_set, Proc.wp_bind]
  apply wp_keychain_clear cut
  intro left cleared
  rw [Proc.wp_bind, occupy_slot, wp_modify]
  refine wp_finalise_of cut ?_ value
  rw [← cleared]
  rfl

end

/-! ### Calls that leave the wallets -/

section
variable {K α β : Type} {wally : Wally K}

/-- Code that leaves the wallets as they are, however it ends. -/
def Quiet (task : Task K α) : Prop := Proc.Keeps (fun jade after : Jade K => after.ram.wallets = jade.ram.wallets) task

theorem quiet_pure (value : α) : Quiet (pure value : Task K α) := fun _ => rfl

theorem quiet_bind {task : Task K α} {next : α → Task K β} (first : Quiet task) (later : ∀ value, Quiet (next value)) :
    Quiet (task >>= next) := by
  apply Proc.keeps_bind _ first later
  intro _ _ _ one two
  exact two.trans one

theorem quiet_get (read : Ram K → α) : Quiet (get read) := fun _ => rfl

theorem quiet_ensure (holds : Bool) : Quiet (ensure holds : Task K Unit) := fun _ => rfl

theorem quiet_onDevice (code : Code α) : Quiet (onDevice code : Task K α) := fun _ => rfl

theorem quiet_modify {change : Ram K → Ram K} (same : ∀ ram, (change ram).wallets = ram.wallets) : Quiet (modify change) :=
  fun jade => same jade.ram

theorem quiet_verified (result : Option α) : Quiet (verified result : Task K α) := by
  cases result with
  | none => exact fun _ => rfl
  | some value => exact quiet_pure value

theorem quiet_ite {condition : Prop} [Decidable condition] {yes no : Task K α} (first : Quiet yes) (second : Quiet no) :
    Quiet (if condition then yes else no) := by
  split
  · exact first
  · exact second

theorem quiet_flags (change : UInt8 → UInt8) : Quiet (modifyFlags change : Task K Unit) := quiet_modify fun _ => rfl

theorem quiet_has_temporary : Quiet (keychain_has_temporary : Task K Bool) :=
  quiet_bind (quiet_get _) fun _ => quiet_bind (quiet_get _) fun _ => quiet_bind (quiet_ensure _) fun _ =>
    quiet_bind (quiet_get _) fun _ => quiet_bind (quiet_get _) fun _ => quiet_pure _

theorem quiet_clear_network_type_restriction : Quiet (keychain_clear_network_type_restriction : Task K Unit) :=
  quiet_bind quiet_has_temporary fun _ => quiet_ite (quiet_bind (quiet_onDevice _) fun _ => quiet_modify fun _ => rfl)
    (quiet_modify fun _ => rfl)

theorem quiet_set_network_type_restriction (network_type : NetworkType) :
    Quiet (keychain_set_network_type_restriction network_type : Task K Unit) := by
  have restrict : Quiet (modify fun ram : Ram K =>
      if ram.keychain_data.isSome then { ram with network_type_restriction := network_type } else ram) := by
    apply quiet_modify
    intro ram
    split <;> rfl
  refine quiet_bind (quiet_get _) fun _ => quiet_bind (quiet_ensure _) fun _ => quiet_bind (quiet_get _) fun _ => ?_
  refine quiet_ite (quiet_bind (quiet_get _) fun _ => quiet_ite (quiet_bind quiet_has_temporary fun _ => ?_) restrict)
    (quiet_pure _)
  exact quiet_ite (quiet_bind (quiet_onDevice _) fun _ => restrict) restrict

theorem quiet_persist_key_flags : Quiet (keychain_persist_key_flags : Task K Unit) :=
  quiet_bind (quiet_get _) fun _ => quiet_bind (quiet_onDevice _) fun _ => quiet_pure _

theorem quiet_set_passphrase_frequency (freq : PassphraseFreq) :
    Quiet (keychain_set_passphrase_frequency freq : Task K Unit) := by
  cases freq <;> exact quiet_flags _

theorem quiet_erase_encrypted : Quiet (keychain_erase_encrypted : Task K Bool) :=
  quiet_bind (quiet_onDevice _) fun _ => quiet_bind quiet_clear_network_type_restriction fun _ =>
    quiet_bind (quiet_modify fun _ => rfl) fun _ => quiet_pure _

theorem quiet_encrypt_and_save_blob (aeskey iv cleartext_blob : Bytes) :
    Quiet (keychain_encrypt_and_save_blob wally aeskey iv cleartext_blob) := by
  refine quiet_ite (quiet_pure _) (quiet_ite (quiet_pure _) (quiet_bind ?_ fun _ => quiet_onDevice _))
  exact quiet_bind (quiet_bind (quiet_ensure _) fun _ => quiet_bind (quiet_ensure _) fun _ => quiet_pure _) fun _ =>
    quiet_pure _

theorem quiet_save (aeskey iv serialized : Bytes) : Quiet (keychain_store.save wally aeskey iv serialized) :=
  quiet_bind (quiet_encrypt_and_save_blob _ _ _) fun _ => quiet_ite
    (quiet_bind quiet_clear_network_type_restriction fun _ => quiet_bind (quiet_modify fun _ => rfl) fun _ => quiet_pure _)
    (quiet_pure _)

theorem quiet_keychain_store (aeskey iv : Bytes) : Quiet (keychain_store wally aeskey iv) := by
  refine quiet_ite (quiet_pure _) (quiet_bind (quiet_get _) fun ram => quiet_ite (quiet_pure _) ?_)
  refine quiet_ite (quiet_bind (quiet_ensure _) fun _ => quiet_save _ _ _) ?_
  refine quiet_ite (quiet_bind (quiet_ensure _) fun _ => quiet_save _ _ _) ?_
  cases ram.keychain_data with
  | none => exact quiet_pure _
  | some slot => exact quiet_bind (quiet_bind (quiet_verified _) fun _ => quiet_pure _) fun _ => quiet_save _ _ _

theorem quiet_derive_from_seed (seed : Bytes) : Quiet (keychain_derive_from_seed wally seed) :=
  quiet_bind (quiet_ensure _) fun _ => quiet_bind (quiet_ensure _) fun _ => quiet_bind (quiet_verified _) fun _ =>
    quiet_pure _

theorem quiet_derive_from_mnemonic (mnemonic passphrase : Bytes) :
    Quiet (keychain_derive_from_mnemonic wally mnemonic passphrase) :=
  quiet_ite (quiet_pure _) (quiet_ite (quiet_pure _) (quiet_bind (quiet_verified _) fun _ =>
    quiet_bind (quiet_ensure _) fun _ => quiet_bind (quiet_derive_from_seed _) fun _ => quiet_pure _))

theorem quiet_unserialize (decrypted : Bytes) : Quiet (unserialize wally decrypted) :=
  quiet_bind (quiet_ensure _) fun _ => quiet_bind (quiet_verified _) fun _ => quiet_pure _

end

/-! ### Each call -/

section
variable {K : Type} {wally : Wally K} {jade : Jade K}

theorem Quiet.wp_keep {task : Task K Bool} (quiet : Quiet task) (made : Call K) :
    Proc.wp task (fun _ left => Change wally jade made left.ram.wallets) (fun _ _ => True) jade := by
  refine Proc.wp_mono (Proc.Keeps.wp quiet jade) ?_ fun _ _ _ => trivial
  intro _ left same
  rw [same]
  exact .keep made

theorem quiet_returning {task : Task K Unit} (quiet : Quiet task) : Quiet (returning task) :=
  quiet_bind quiet fun _ => quiet_pure _

theorem change_set (src : Source K) (userdata : UInt8) (temporary : Bool) :
    Proc.wp (keychain_set wally src userdata temporary)
      (fun _ left => Change wally jade (.set src userdata temporary) left.ram.wallets) (fun _ _ => True) jade := by
  cases src with
  | self =>
    simp only [keychain_set, Proc.wp_bind, wp_get, wp_keychain_ensure]
    split
    case isTrue loaded =>
      apply wp_finalise_slot fun _ => trivial
      intro left same
      rw [same]
      exact .again userdata temporary loaded
    case isFalse => trivial
  | new src =>
    apply wp_keychain_set_new fun _ => trivial
    intro left same
    rw [same]
    exact .only _ src userdata temporary

theorem change_load_into_free_slot (src : Keydata K) (userdata : UInt8) (temporary : Bool) :
    Proc.wp (keychain_load_into_free_slot src userdata temporary)
      (fun _ left => Change wally jade (.load_into_free_slot src userdata temporary) left.ram.wallets)
      (fun _ _ => True) jade := by
  rw [keychain_load_into_free_slot, Proc.wp_bind, wp_get]
  cases free : freeSlot jade.ram with
  | none => exact .keep _
  | some slot =>
    simp only [Proc.wp_bind, occupy_slot, wp_modify]
    refine wp_finalise_of (fun _ => trivial) (rfl : _ = jade.ram.wallets.occupy slot src) ?_
    intro left same
    rw [Proc.wp_pure, same]
    exact .more src userdata temporary free

theorem change_slot_activate (position : Nat) :
    Proc.wp (keychain_slot_activate position)
      (fun _ left => Change wally jade (.slot_activate position) left.ram.wallets) (fun _ _ => True) jade := by
  rw [keychain_slot_activate, slot_at_position, Proc.wp_bind, Proc.wp_bind, wp_get]
  cases found : slotFrom jade.ram position 0 (List.finRange MAX_SEED_SLOTS) with
  | none => trivial
  | some slot => exact Change.activate found

theorem change_set_entropy (mnemonic : Bytes) :
    Proc.wp (keychain_set_entropy wally mnemonic)
      (fun _ left => Change wally jade (.set_entropy mnemonic) left.ram.wallets) (fun _ _ => True) jade := by
  simp only [keychain_set_entropy, Proc.wp_bind, wp_get, wp_keychain_ensure, wp_verified]
  split
  case isFalse => trivial
  case isTrue loaded =>
    split
    case isFalse => trivial
    case isTrue =>
      cases wally.mnemonic_to_bytes mnemonic with
      | none => trivial
      | some entropy =>
        dsimp only
        split
        case isTrue => exact Change.entropy mnemonic _ _ loaded
        case isFalse => exact Change.entropy mnemonic _ _ loaded

theorem change_set_temporary :
    Proc.wp keychain_set_temporary (fun _ left => Change wally jade .set_temporary left.ram.wallets)
      (fun _ _ => True) jade := by
  simp only [keychain_set_temporary, Proc.wp_bind, wp_get, wp_keychain_ensure, wp_modify]
  split
  case isFalse => trivial
  case isTrue loaded =>
    repeat' split
    all_goals first | trivial | exact Change.temporary loaded

theorem change_cache_mnemonic_entropy (mnemonic : Bytes) :
    Proc.wp (keychain_cache_mnemonic_entropy wally mnemonic)
      (fun _ left => Change wally jade (.cache_mnemonic_entropy mnemonic) left.ram.wallets) (fun _ _ => True) jade := by
  rw [keychain_cache_mnemonic_entropy, Proc.wp_bind]
  apply wp_has_temporary fun _ => trivial
  intro temporary
  simp only [Proc.wp_bind, wp_get, wp_keychain_ensure, wp_verified, wp_modify]
  split
  case isFalse => trivial
  split
  case isFalse => trivial
  case isTrue no_entropy =>
    split
    case isFalse => trivial
    case isTrue no_secret =>
      cases wally.mnemonic_to_bytes mnemonic with
      | none => trivial
      | some entropy =>
        dsimp only
        split
        case isFalse => trivial
        case isTrue => exact Change.cacheEntropy mnemonic _ _ (by simpa using no_entropy) (by simpa using no_secret)

theorem change_cache_slip39_master_secret (master_secret : Bytes) :
    Proc.wp (keychain_cache_slip39_master_secret master_secret)
      (fun _ left => Change wally jade (.cache_slip39_master_secret master_secret) left.ram.wallets)
      (fun _ _ => True) jade := by
  rw [keychain_cache_slip39_master_secret, Proc.wp_bind, wp_keychain_ensure]
  split
  case isFalse => trivial
  rw [Proc.wp_bind]
  apply wp_has_temporary fun _ => trivial
  intro temporary
  simp only [Proc.wp_bind, wp_get, wp_keychain_ensure, wp_modify]
  split
  case isFalse => trivial
  split
  case isFalse => trivial
  case isTrue no_entropy =>
    split
    case isFalse => trivial
    case isTrue no_secret => exact Change.cacheSecret master_secret _ _ (by simpa using no_entropy) (by simpa using no_secret)

variable (wally) in
/-- The entropy and the passphrase make a wallet. -/
def Derives (entropy passphrase : Bytes) : Prop :=
  ∃ mnemonic, wally.mnemonic_from_bytes entropy = some mnemonic ∧ passphrase.length ≤ PASSPHRASE_MAX_LEN ∧
    wally.mnemonic_validate mnemonic = true

theorem wp_derive_from_mnemonic (mnemonic passphrase : Bytes) :
    Proc.wp (keychain_derive_from_mnemonic wally mnemonic passphrase)
      (fun derived left => (derived.isSome ↔ passphrase.length ≤ PASSPHRASE_MAX_LEN ∧
        wally.mnemonic_validate mnemonic = true) ∧ left.ram.wallets = jade.ram.wallets)
      (fun _ _ => True) jade := by
  have shape : Proc.wp (keychain_derive_from_mnemonic wally mnemonic passphrase)
      (fun derived _ => derived.isSome ↔ passphrase.length ≤ PASSPHRASE_MAX_LEN ∧
        wally.mnemonic_validate mnemonic = true) (fun _ _ => True) jade := by
    rw [keychain_derive_from_mnemonic]
    split
    case isTrue long =>
      rw [Proc.wp_pure]
      exact ⟨fun impossible => (by cases impossible), fun fits => absurd fits.1 (Nat.not_le_of_lt long)⟩
    case isFalse fits =>
      split
      case isTrue bad =>
        rw [Proc.wp_pure]
        exact ⟨fun impossible => (by cases impossible), fun good => by rw [good.2] at bad; cases bad⟩
      case isFalse good =>
        have both : passphrase.length ≤ PASSPHRASE_MAX_LEN ∧ wally.mnemonic_validate mnemonic = true :=
          ⟨Nat.le_of_not_lt fits, by simpa using good⟩
        rw [Proc.wp_bind]
        refine Proc.wp_mono (Proc.Keeps.wp (quiet_verified _) jade) ?_ fun _ _ _ => trivial
        intro seed left _
        rw [Proc.wp_bind]
        refine Proc.wp_mono (Proc.Keeps.wp (quiet_ensure _) left) ?_ fun _ _ _ => trivial
        intro _ left _
        rw [Proc.wp_bind]
        refine Proc.wp_mono (Proc.Keeps.wp (quiet_derive_from_seed seed) left) ?_ fun _ _ _ => trivial
        intro keydata left _
        rw [Proc.wp_pure]
        exact ⟨fun _ => both, fun _ => rfl⟩
  exact Proc.wp_mono (Proc.wp_and shape (Proc.Keeps.wp (quiet_derive_from_mnemonic mnemonic passphrase) jade))
    (fun _ _ both => both) fun _ _ _ => trivial

/-- What a derivation comes to: nothing, or the one wallet. -/
theorem wp_complete_derivation (passphrase : Bytes) (required : keychain_requires_passphrase jade.ram = true) :
    Proc.wp (keychain_complete_derivation_with_passphrase wally passphrase)
      (fun derived left => (derived = true ↔ Derives wally jade.ram.entropy passphrase) ∧
        (derived = false → left.ram.wallets = jade.ram.wallets) ∧ (derived = true → ∃ keydata,
          left.ram.wallets = ((Wallets.empty wally).occupy 0 keydata).finalise 0 false))
      (fun _ _ => True) jade := by
  rw [keychain_complete_derivation_with_passphrase, Proc.wp_bind, wp_get, if_neg (by simpa using required), Proc.wp_bind,
    wp_get]
  cases found : wally.mnemonic_from_bytes jade.ram.entropy with
  | none =>
    rw [show wally.mnemonic_from_bytes (jade.ram.mnemonic_entropy.take jade.ram.mnemonic_entropy_len) = none from found]
    refine ⟨⟨fun impossible => (by cases impossible), ?_⟩, fun _ => rfl, fun impossible => by cases impossible⟩
    rintro ⟨mnemonic, other, -⟩
    rw [found] at other
    cases other
  | some mnemonic =>
    rw [show wally.mnemonic_from_bytes (jade.ram.mnemonic_entropy.take jade.ram.mnemonic_entropy_len) = some mnemonic
      from found]
    have derives : Derives wally jade.ram.entropy passphrase ↔
        passphrase.length ≤ PASSPHRASE_MAX_LEN ∧ wally.mnemonic_validate mnemonic = true := by
      constructor
      · rintro ⟨other, same, both⟩
        obtain rfl := Option.some.inj (found.symm.trans same)
        exact both
      · intro both
        exact ⟨mnemonic, found, both⟩
    dsimp only
    rw [Proc.wp_bind]
    refine Proc.wp_mono (wp_derive_from_mnemonic mnemonic passphrase) ?_ fun _ _ _ => trivial
    rintro derived left ⟨shape, same⟩
    cases derived with
    | none =>
      rw [Proc.wp_pure, derives, ← shape]
      exact ⟨Iff.rfl, fun _ => same, fun impossible => by cases impossible⟩
    | some keydata =>
      dsimp only
      rw [Proc.wp_bind]
      apply wp_keychain_set_new fun _ => trivial
      intro after placed
      rw [Proc.wp_pure, derives]
      exact ⟨⟨fun _ => shape.mp rfl, fun _ => rfl⟩, fun impossible => (by cases impossible), fun _ => ⟨keydata, placed⟩⟩

theorem change_complete_derivation (passphrase : Bytes) :
    Proc.wp (keychain_complete_derivation_with_passphrase wally passphrase)
      (fun _ left => Change wally jade (.complete_derivation_with_passphrase passphrase) left.ram.wallets)
      (fun _ _ => True) jade := by
  by_cases required : keychain_requires_passphrase jade.ram = true
  · refine Proc.wp_mono (wp_complete_derivation passphrase required) ?_ fun _ _ _ => trivial
    rintro derived left ⟨-, kept, placed⟩
    cases derived with
    | false =>
      rw [kept rfl]
      exact .keep _
    | true =>
      obtain ⟨keydata, placed⟩ := placed rfl
      rw [placed]
      exact .only _ keydata 0 false
  · rw [keychain_complete_derivation_with_passphrase, Proc.wp_bind, wp_get, if_pos (by simpa using required)]
    exact .keep _

theorem Flagged.wallets {ram ram' : Ram K} (flagged : Flagged ram ram') : ram'.wallets = ram.wallets := by
  obtain ⟨network, flag, rfl⟩ := flagged
  rfl

variable (wally) in
/-- The stored blob opens to these bytes. -/
def Opens (contents : Contents) (aeskey serialized : Bytes) : Prop :=
  ∃ blob, contents defaultMap BLOB_FIELD = some blob ∧ opened wally aeskey blob = some serialized

/-- Bytes that are read as the entropy of a mnemonic. -/
def IsEntropy (serialized : Bytes) : Prop :=
  serialized.length = BIP39_ENTROPY_LEN_128 ∨ serialized.length = BIP39_ENTROPY_LEN_256

variable (wally) in
/-- What a load comes to: nothing, the keys, or entropy in the cache. -/
inductive Loads (jade : Jade K) (aeskey : Bytes) : Bool → Wallets K → Prop where
  | refused : Loads jade aeskey false jade.ram.wallets
  | keys {serialized : Bytes} (src : Keydata K) : Opens wally jade.device.nvs_storage aeskey serialized →
    ¬ IsEntropy serialized → Loads jade aeskey true (((Wallets.empty wally).occupy 0 src).finalise 0 false)
  | entropy {serialized : Bytes} : jade.ram.keychain_data = none → jade.ram.mnemonic_entropy_len = 0 →
    Opens wally jade.device.nvs_storage aeskey serialized → IsEntropy serialized →
    Loads jade aeskey true { jade.ram.wallets with
      entropy := overwrite jade.ram.wallets.entropy serialized, entropy_len := serialized.length }

theorem loads_restore {left : Jade K} {aeskey serialized : Bytes} (same : left.ram.wallets = jade.ram.wallets)
    (empty : jade.ram.keychain_data = none) (no_entropy : jade.ram.mnemonic_entropy_len = 0)
    (opens : Opens wally jade.device.nvs_storage aeskey serialized) :
    Proc.wp (keychain_load.restore wally serialized) (fun ok after => Loads wally jade aeskey ok after.ram.wallets)
      (fun _ _ => True) left := by
  have sets : ¬ IsEntropy serialized → ∀ (between : Jade K) (keydata : Keydata K),
      Proc.wp (do keychain_set wally (.new keydata) 0 false; pure true)
        (fun ok after => Loads wally jade aeskey ok after.ram.wallets) (fun _ _ => True) between := by
    intro other between keydata
    rw [Proc.wp_bind]
    apply wp_keychain_set_new fun _ => trivial
    intro after placed
    rw [Proc.wp_pure, placed]
    exact .keys keydata opens other
  rw [keychain_load.restore]
  split
  case isTrue length =>
    rw [Proc.wp_bind, wp_modify, Proc.wp_pure]
    have cached : Loads wally jade aeskey true { left.ram.wallets with
        entropy := overwrite left.ram.wallets.entropy serialized, entropy_len := serialized.length } := by
      rw [same]
      exact .entropy empty no_entropy opens length
    exact cached
  case isFalse other =>
    split
    case isTrue =>
      simp only [Proc.wp_bind]
      refine Proc.wp_mono (Proc.Keeps.wp (quiet_unserialize serialized) left) ?_ fun _ _ _ => trivial
      intro keydata between _
      exact sets other between keydata
    case isFalse =>
      split
      case isTrue =>
        simp only [Proc.wp_bind]
        refine Proc.wp_mono (Proc.Keeps.wp (quiet_derive_from_seed serialized.tail) left) ?_ fun _ _ _ => trivial
        intro keydata between _
        exact sets other between keydata
      case isFalse =>
        rw [Proc.wp_pure, same]
        exact .refused

theorem loads_load (aeskey : Bytes) :
    Proc.wp (keychain_load wally aeskey) (fun ok left => Loads wally jade aeskey ok left.ram.wallets)
      (fun _ _ => True) jade := by
  rw [keychain_load]
  split
  case isTrue => exact .refused
  simp only [Proc.wp_bind, wp_get]
  split
  case isTrue => exact .refused
  case isFalse nothing =>
    simp only [Bool.or_eq_true, Option.isSome_iff_ne_none, bne_iff_ne, ne_eq, not_or, not_not] at nothing
    rw [Proc.wp_bind, wp_get]
    split
    case isTrue => exact .refused
    rw [Proc.wp_bind]
    refine Proc.wp_mono (wp_load_and_decrypt_tried aeskey _) ?_ fun _ _ _ => trivial
    rintro result left ⟨flagged, opens⟩
    cases result with
    | none =>
      rw [Proc.wp_pure, flagged.wallets]
      exact .refused
    | some serialized =>
      exact loads_restore flagged.wallets nothing.1 nothing.2 (opens serialized rfl)

theorem change_load (aeskey : Bytes) :
    Proc.wp (keychain_load wally aeskey) (fun _ left => Change wally jade (.load aeskey) left.ram.wallets)
      (fun _ _ => True) jade := by
  refine Proc.wp_mono (loads_load aeskey) ?_ fun _ _ _ => trivial
  intro ok left loads
  generalize left.ram.wallets = after at loads
  cases loads with
  | refused => exact .keep _
  | keys src => exact .only _ src 0 false
  | entropy empty no_entropy opens length =>
    obtain ⟨blob, stored, unlocked⟩ := opens
    exact .loadEntropy aeskey _ empty no_entropy stored unlocked length

theorem change_reencrypt (curr_aeskey new_aeskey iv : Bytes) :
    Proc.wp (keychain_reencrypt wally curr_aeskey new_aeskey iv)
      (fun _ left => Change wally jade (.reencrypt curr_aeskey new_aeskey iv) left.ram.wallets) (fun _ _ => True) jade := by
  rw [keychain_reencrypt]
  split
  case isTrue => exact .keep _
  rw [Proc.wp_bind, wp_get]
  split
  case isTrue => exact .keep _
  rw [Proc.wp_bind]
  refine Proc.wp_mono (wp_load_and_decrypt_tried curr_aeskey _) ?_ fun _ _ _ => trivial
  rintro result left ⟨flagged, -⟩
  cases result with
  | none =>
    rw [Proc.wp_pure, flagged.wallets]
    exact .keep _
  | some serialized =>
    refine Proc.wp_mono (Proc.Keeps.wp (quiet_encrypt_and_save_blob new_aeskey iv serialized) left) ?_ fun _ _ _ => trivial
    intro _ after same
    rw [same, flagged.wallets]
    exact .keep _

end

/-! ### Positions -/

section
variable {K : Type} {ram : Ram K}

theorem slotFrom_in_use {position seen : Nat} {slots : List (Fin MAX_SEED_SLOTS)} {slot : Fin MAX_SEED_SLOTS}
    (found : slotFrom ram position seen slots = some slot) : (ram.keychain_slots slot).in_use = true := by
  induction slots generalizing seen with
  | nil => cases found
  | cons first rest ih =>
    rw [slotFrom] at found
    split at found
    case isTrue used =>
      split at found
      case isTrue =>
        obtain rfl := Option.some.inj found
        exact used
      case isFalse => exact ih found
    case isFalse => exact ih found

/-- If a slot is in use there is a first one. -/
theorem slotFrom_first {slots : List (Fin MAX_SEED_SLOTS)} {slot : Fin MAX_SEED_SLOTS} (member : slot ∈ slots)
    (used : (ram.keychain_slots slot).in_use = true) : ∃ first, slotFrom ram 0 0 slots = some first := by
  induction slots with
  | nil => cases member
  | cons head rest ih =>
    rw [slotFrom]
    by_cases first : (ram.keychain_slots head).in_use = true
    · rw [if_pos first, if_pos rfl]
      exact ⟨head, rfl⟩
    · rw [if_neg first]
      rcases List.mem_cons.mp member with rfl | later
      · exact absurd used first
      · exact ih later

theorem slot_count_eq_zero : keychain_slot_count ram = 0 ↔ ∀ slot, (ram.keychain_slots slot).in_use = false := by
  rw [keychain_slot_count, List.countP_eq_zero]
  constructor
  · intro none slot
    simpa using none slot (List.mem_finRange slot)
  · intro none slot _
    simpa using none slot

end

section
variable {K : Type} {wally : Wally K} {jade : Jade K}

theorem wp_slot_activate {position : Nat} {slot : Fin MAX_SEED_SLOTS} {post : Unit → Jade K → Prop}
    {halts : Halt Interrupt → Jade K → Prop} (found : jade.ram.at position = some slot)
    (value : ∀ left : Jade K, left.ram.wallets = jade.ram.wallets.activate slot → post () left) :
    Proc.wp (keychain_slot_activate position) post halts jade := by
  have first : slotFrom jade.ram position 0 (List.finRange MAX_SEED_SLOTS) = some slot := found
  rw [keychain_slot_activate, slot_at_position, Proc.wp_bind, Proc.wp_bind, wp_get, first]
  exact value _ rfl

/-- The wallet in use is wiped; another takes over, or nothing is left. -/
theorem wp_slot_forget_active {post : Unit → Jade K → Prop} {halts : Halt Interrupt → Jade K → Prop}
    (cut : ∀ left, halts (.error .power_cut) left) (loaded : jade.ram.keychain_data.isSome)
    (other : ∀ (left : Jade K) (slot : Fin MAX_SEED_SLOTS), (jade.ram.forgotten wally).at 0 = some slot →
      left.ram.wallets = (jade.ram.wallets.forget wally).activate slot → post () left)
    (last : ∀ left : Jade K, (∀ slot, ((jade.ram.forgotten wally).keychain_slots slot).in_use = false) →
      left.ram.wallets = Wallets.empty wally → post () left) :
    Proc.wp (keychain_slot_forget_active wally) post halts jade := by
  simp only [keychain_slot_forget_active, Proc.wp_bind, wp_get, wp_keychain_ensure, wp_modify]
  rw [if_pos loaded]
  show Proc.wp (if keychain_slot_count (jade.ram.forgotten wally) ≠ 0 then keychain_slot_activate 0 else keychain_clear wally)
    post halts ⟨jade.ram.forgotten wally, jade.device⟩
  by_cases held : keychain_slot_count (jade.ram.forgotten wally) = 0
  · rw [if_neg (not_not.mpr held)]
    apply wp_keychain_clear cut
    intro left cleared
    exact last left (slot_count_eq_zero.mp held) cleared
  · rw [if_pos held]
    have some_used : ∃ slot, ((jade.ram.forgotten wally).keychain_slots slot).in_use = true := by
      by_contra none
      apply held
      rw [slot_count_eq_zero]
      intro slot
      by_contra used
      exact none ⟨slot, by simpa using used⟩
    obtain ⟨slot, used⟩ := some_used
    obtain ⟨first, found⟩ := slotFrom_first (List.mem_finRange slot) used
    apply @wp_slot_activate _ ⟨jade.ram.forgotten wally, jade.device⟩ _ _ _ _ found
    intro left same
    exact other left first found same

theorem change_slot_forget_active :
    Proc.wp (keychain_slot_forget_active wally)
      (fun _ left => Change wally jade .slot_forget_active left.ram.wallets) (fun _ _ => True) jade := by
  by_cases loaded : jade.ram.keychain_data.isSome
  · apply wp_slot_forget_active (fun _ => trivial) loaded
    · intro left slot found same
      rw [same]
      exact .forget loaded found
    · intro left _ same
      rw [same]
      exact .clear _
  · simp only [keychain_slot_forget_active, Proc.wp_bind, wp_get, wp_keychain_ensure]
    rw [if_neg loaded]
    trivial

theorem wp_returning {task : Task K Unit} {post : Jade K → Prop} {halts : Halt Interrupt → Jade K → Prop}
    (holds : Proc.wp task (fun _ => post) halts jade) : Proc.wp (returning task) (fun _ => post) halts jade := by
  rw [returning, Proc.wp_bind]
  exact holds

/-- What any call does to the wallets. -/
theorem call_change (made : Call K) :
    Proc.wp (made.run wally) (fun _ left => Change wally jade made left.ram.wallets) (fun _ _ => True) jade := by
  cases made with
  | set src userdata temporary => exact wp_returning (change_set src userdata temporary)
  | load_into_free_slot src userdata temporary => exact change_load_into_free_slot src userdata temporary
  | slot_activate position => exact wp_returning (change_slot_activate position)
  | slot_forget_active => exact wp_returning change_slot_forget_active
  | set_entropy mnemonic => exact wp_returning (change_set_entropy mnemonic)
  | clear =>
    apply wp_returning
    apply wp_keychain_clear fun _ => trivial
    intro left cleared
    rw [cleared]
    exact .clear _
  | set_passphrase_frequency freq => exact (quiet_returning (quiet_set_passphrase_frequency freq)).wp_keep _
  | set_passphrase_type type => exact (quiet_returning (quiet_flags _)).wp_keep _
  | set_confirm_export_blinding_key confirm_export => exact (quiet_returning (quiet_flags _)).wp_keep _
  | persist_key_flags => exact (quiet_returning quiet_persist_key_flags).wp_keep _
  | set_temporary => exact wp_returning change_set_temporary
  | cache_mnemonic_entropy mnemonic => exact wp_returning (change_cache_mnemonic_entropy mnemonic)
  | cache_slip39_master_secret master_secret => exact wp_returning (change_cache_slip39_master_secret master_secret)
  | clear_network_type_restriction => exact (quiet_returning quiet_clear_network_type_restriction).wp_keep _
  | set_network_type_restriction network_type =>
    exact (quiet_returning (quiet_set_network_type_restriction network_type)).wp_keep _
  | complete_derivation_with_passphrase passphrase => exact change_complete_derivation passphrase
  | store aeskey iv => exact (quiet_keychain_store aeskey iv).wp_keep _
  | load aeskey => exact change_load aeskey
  | reencrypt curr_aeskey new_aeskey iv => exact change_reencrypt curr_aeskey new_aeskey iv
  | erase_encrypted => exact quiet_erase_encrypted.wp_keep _

end

/-! ### The invariant -/

section
variable {K : Type} (wally : Wally K)

/-- The pointer is to the active slot, and no slot but those in use holds anything. -/
structure Table (wallets : Wallets K) : Prop where
  empty_iff : wallets.inUse = none ↔ ∀ slot, (wallets.slots slot).in_use = false
  pointer : ∀ slot, wallets.inUse = some slot → slot = wallets.active ∧ (wallets.slots slot).in_use = true
  unused : ∀ slot, (wallets.slots slot).in_use = false → wallets.slots slot = Slot.zero wally

/-- At most one of the caches holds anything. -/
def Wallets.Exclusive (wallets : Wallets K) : Prop := wallets.entropy_len = 0 ∨ wallets.secret_len = 0

variable {wally} {wallets : Wallets K}

theorem table_empty : Table wally (Wallets.empty wally) where
  empty_iff := ⟨fun _ _ => rfl, fun _ => rfl⟩
  pointer _ impossible := by cases impossible
  unused _ _ := rfl

theorem Table.place (table : Table wally wallets) (loaded : wallets.inUse.isSome) {value : Slot K}
    (used : value.in_use = true) : Table wally (wallets.place value) := by
  obtain ⟨active, data⟩ := Option.isSome_iff_exists.mp loaded
  obtain ⟨rfl, _⟩ := table.pointer active data
  have own : (wallets.place value).slots wallets.active = value := Function.update_self ..
  have others : ∀ slot, slot ≠ wallets.active → (wallets.place value).slots slot = wallets.slots slot :=
    fun slot apart => Function.update_of_ne apart ..
  constructor
  case empty_iff =>
    constructor
    · intro none
      rw [show (wallets.place value).inUse = wallets.inUse from rfl, data] at none
      cases none
    · intro none
      have contradiction := none wallets.active
      rw [own, used] at contradiction
      cases contradiction
  case pointer =>
    intro slot pointed
    have same := (table.pointer slot pointed).1
    refine ⟨same, ?_⟩
    rw [same, own, used]
  case unused =>
    intro slot not_used
    by_cases active : slot = wallets.active
    · rw [active, own, used] at not_used
      cases not_used
    · rw [others slot active] at not_used ⊢
      exact table.unused slot not_used

theorem Table.finalise (table : Table wally wallets) (loaded : wallets.inUse.isSome) (userdata : UInt8)
    (temporary : Bool) : Table wally (wallets.finalise userdata temporary) := by
  obtain ⟨active, data⟩ := Option.isSome_iff_exists.mp loaded
  obtain ⟨rfl, used⟩ := table.pointer active data
  have cleared : Table wally { wallets with
      entropy := zeros BIP39_ENTROPY_LEN_256
      entropy_len := 0
      secret := zeros SLIP39_MASTER_SECRET_MAX
      secret_len := 0 } := ⟨table.empty_iff, table.pointer, table.unused⟩
  exact cleared.place loaded used

theorem Table.activate (table : Table wally wallets) {slot : Fin MAX_SEED_SLOTS}
    (used : (wallets.slots slot).in_use = true) : Table wally (wallets.activate slot) where
  empty_iff := by
    constructor
    · intro impossible
      cases impossible
    · intro none
      have contradiction : (wallets.slots slot).in_use = false := none slot
      rw [used] at contradiction
      cases contradiction
  pointer other pointed := by
    obtain rfl := Option.some.inj pointed
    exact ⟨rfl, used⟩
  unused := table.unused

theorem Table.occupy (table : Table wally wallets) (slot : Fin MAX_SEED_SLOTS) (src : Keydata K) :
    Table wally (wallets.occupy slot src) := by
  have own : (wallets.occupy slot src).slots slot = { wallets.slots slot with
      in_use := true, keydata := src, entropy := zeros BIP39_ENTROPY_LEN_256, entropy_len := 0 } := Function.update_self ..
  have others : ∀ other, other ≠ slot → (wallets.occupy slot src).slots other = wallets.slots other :=
    fun other apart => Function.update_of_ne apart ..
  constructor
  case empty_iff =>
    constructor
    · intro impossible
      cases impossible
    · intro none
      have contradiction := none slot
      rw [own] at contradiction
      cases contradiction
  case pointer =>
    intro other pointed
    obtain rfl := Option.some.inj pointed
    refine ⟨rfl, ?_⟩
    rw [own]
  case unused =>
    intro other not_used
    by_cases same : other = slot
    · rw [same, own] at not_used
      cases not_used
    · rw [others other same] at not_used ⊢
      exact table.unused other not_used

theorem Table.forget (table : Table wally wallets) {slot : Fin MAX_SEED_SLOTS}
    (used : ((wallets.forget wally).slots slot).in_use = true) : Table wally ((wallets.forget wally).activate slot) where
  empty_iff := by
    constructor
    · intro impossible
      cases impossible
    · intro none
      have contradiction : ((wallets.forget wally).slots slot).in_use = false := none slot
      rw [used] at contradiction
      cases contradiction
  pointer other pointed := by
    obtain rfl := Option.some.inj pointed
    exact ⟨rfl, used⟩
  unused other not_used := by
    show Function.update wallets.slots wallets.active (Slot.zero wally) other = Slot.zero wally
    by_cases active : other = wallets.active
    · rw [active, Function.update_self]
    · have kept : ((wallets.forget wally).activate slot).slots other = wallets.slots other := Function.update_of_ne active ..
      rw [Function.update_of_ne active]
      rw [kept] at not_used
      exact table.unused other not_used

variable {jade : Jade K}

/-- No call leaves the table in another state. -/
theorem Change.table {made : Call K} {after : Wallets K} (change : Change wally jade made after)
    (table : Table wally jade.ram.wallets) : Table wally after := by
  cases change with
  | keep => exact table
  | clear => exact table_empty
  | only _ src userdata temporary => exact (table_empty.occupy 0 src).finalise rfl userdata temporary
  | again userdata temporary loaded => exact table.finalise loaded userdata temporary
  | more src userdata temporary free => exact (table.occupy _ src).finalise rfl userdata temporary
  | activate found => exact table.activate (slotFrom_in_use found)
  | forget loaded found => exact table.forget (slotFrom_in_use found)
  | entropy mnemonic entropy entropy_len loaded =>
    obtain ⟨active, data⟩ := Option.isSome_iff_exists.mp loaded
    obtain ⟨rfl, used⟩ := table.pointer active data
    exact table.place loaded used
  | temporary loaded =>
    obtain ⟨active, data⟩ := Option.isSome_iff_exists.mp loaded
    obtain ⟨rfl, used⟩ := table.pointer active data
    exact table.place loaded used
  | cacheEntropy => exact ⟨table.empty_iff, table.pointer, table.unused⟩
  | cacheSecret => exact ⟨table.empty_iff, table.pointer, table.unused⟩
  | loadEntropy => exact ⟨table.empty_iff, table.pointer, table.unused⟩

end

/-! ### Runs -/

section
variable {K : Type} {wally : Wally K} {jade : Jade K}

theorem quiet_init_cache : Quiet (keychain_init_cache : Task K Unit) :=
  quiet_bind (quiet_onDevice _) fun _ => quiet_bind (quiet_onDevice _) fun _ => quiet_bind (quiet_onDevice _) fun _ =>
    quiet_modify fun _ => rfl

theorem after_of_ok {event : Event K} {value : Bool} {left : Jade K}
    (runs : event.task wally (event.start wally jade) = (.ok value, left)) :
    event.after wally jade = (.ok value, left) := by
  rw [Event.after, runs]

theorem after_of_error {event : Event K} {halt : Halt Interrupt} {left : Jade K}
    (runs : event.task wally (event.start wally jade) = (.error halt, left)) :
    event.after wally jade = (.error halt, left.restart wally) := by
  rw [Event.after, runs]

/-- A call changes the wallets as it may; a restart, and a call that ends the program, leave none. -/
theorem step_cases (jade : Jade K) (event : Event K) :
    (∃ made answers, event = .call made answers ∧
      Change wally (jade.answering answers) made ((keychain wally).step jade event).ram.wallets) ∨
      ((keychain wally).step jade event).ram.wallets = Wallets.empty wally := by
  have step : (keychain wally).step jade event = (event.after wally jade).2 := rfl
  rw [step]
  cases runs : event.task wally (event.start wally jade) with
  | mk result left =>
    cases result with
    | error halt =>
      rw [after_of_error runs]
      exact .inr rfl
    | ok value =>
      rw [after_of_ok runs]
      cases event with
      | call made answers =>
        left
        exact ⟨made, answers, rfl, Proc.post_of_wp (call_change made) runs⟩
      | boot answers =>
        right
        exact Proc.post_of_wp (Proc.Keeps.wp (quiet_returning quiet_init_cache) _) runs

/-- No entropy is loaded over a cached master secret: `keychain_load` is not called, without a
    wallet and with a secret cached, on a blob that opens to entropy. -/
def Spares (wally : Wally K) (jade : Jade K) : Event K → Prop
  | .call (.load aeskey) _ => jade.ram.keychain_data = none → jade.ram.slip39_master_secret_len ≠ 0 →
    ∀ blob serialized, jade.device.nvs_storage defaultMap BLOB_FIELD = some blob →
      opened wally aeskey blob = some serialized →
      serialized.length ≠ BIP39_ENTROPY_LEN_128 ∧ serialized.length ≠ BIP39_ENTROPY_LEN_256
  | _ => True

theorem Change.exclusive {made : Call K} {answers : List Answer} {after : Wallets K}
    (change : Change wally (jade.answering answers) made after) (spares : Spares wally jade (.call made answers))
    (exclusive : jade.ram.wallets.Exclusive) : after.Exclusive := by
  cases change with
  | keep => exact exclusive
  | clear => exact .inl rfl
  | only => exact .inl rfl
  | again => exact .inl rfl
  | more => exact .inl rfl
  | activate => exact exclusive
  | forget => exact exclusive
  | entropy => exact exclusive
  | temporary => exact exclusive
  | cacheEntropy _ _ _ _ no_secret => exact .inr no_secret
  | cacheSecret _ _ _ no_entropy _ => exact .inl no_entropy
  | loadEntropy aeskey entropy empty no_entropy stored opens length =>
    right
    by_contra secret
    obtain ⟨short, long⟩ := spares empty secret _ _ stored opens
    rcases length with same | same
    · exact short same
    · exact long same

theorem step_table (event : Event K) (table : Table wally jade.ram.wallets) :
    Table wally ((keychain wally).step jade event).ram.wallets := by
  rcases step_cases jade event with ⟨made, answers, rfl, change⟩ | emptied
  · exact change.table table
  · rw [emptied]
    exact table_empty

theorem step_exclusive (event : Event K) (spares : Spares wally jade event) (exclusive : jade.ram.wallets.Exclusive) :
    ((keychain wally).step jade event).ram.wallets.Exclusive := by
  rcases step_cases jade event with ⟨made, answers, rfl, change⟩ | emptied
  · exact change.exclusive spares exclusive
  · rw [emptied]
    exact .inl rfl

/-- Forgetting wipes the wallet in use and no other slot; with no other wallet all is wiped. -/
theorem forget_exact (table : Table wally jade.ram.wallets) (loaded : jade.ram.keychain_data.isSome) :
    Proc.wp (Call.slot_forget_active.run wally) (fun ok left => ok = true ∧
      left.ram.keychain_slots = Function.update jade.ram.keychain_slots jade.ram.active_slot (Slot.zero wally) ∧
      ((∀ slot, slot ≠ jade.ram.active_slot → (jade.ram.keychain_slots slot).in_use = false) →
        left.ram.wallets = Wallets.empty wally)) (fun halt _ => halt = .error .power_cut) jade := by
  show Proc.wp (returning _) _ _ _
  rw [returning, Proc.wp_bind]
  apply wp_slot_forget_active (fun _ => rfl) loaded
  · intro left slot found same
    have slots : left.ram.wallets.slots = _ := congrArg Wallets.slots same
    refine ⟨rfl, slots, ?_⟩
    intro alone
    have used := slotFrom_in_use found
    by_cases active : slot = jade.ram.active_slot
    · rw [active, forgotten_active] at used
      cases used
    · rw [forgotten_other wally _ active, alone slot active] at used
      cases used
  · intro left none same
    refine ⟨rfl, ?_, fun _ => same⟩
    have slots : left.ram.keychain_slots = fun _ => Slot.zero wally := congrArg Wallets.slots same
    rw [slots]
    funext slot
    by_cases active : slot = jade.ram.active_slot
    · rw [active, Function.update_self]
    · have not_used := none slot
      rw [forgotten_other wally _ active] at not_used
      rw [Function.update_of_ne active]
      exact (table.unused slot not_used).symm

theorem clear_exact : Proc.wp (Call.clear.run wally) (fun ok left => ok = true ∧ left.ram.wallets = Wallets.empty wally)
    (fun halt _ => halt = .error .power_cut) jade := by
  show Proc.wp (returning _) _ _ _
  rw [returning, Proc.wp_bind]
  apply wp_keychain_clear fun _ => rfl
  intro left same
  exact ⟨rfl, same⟩

/-- A call returns, and then something holds, unless the power is cut. -/
def Returns (wally : Wally K) (made : Call K) (jade : Jade K) (post : Jade K → Prop) : Prop :=
  (∃ left, made.run wally jade = (.ok true, left) ∧ post left) ∨
    ∃ left, made.run wally jade = (.error (.error .power_cut), left)

theorem returns_of_wp {made : Call K} {post : Jade K → Prop}
    (holds : Proc.wp (made.run wally) (fun ok left => ok = true ∧ post left)
      (fun halt _ => halt = .error .power_cut) jade) : Returns wally made jade post := by
  rw [Proc.wp] at holds
  cases runs : made.run wally jade with
  | mk result left =>
    rw [runs] at holds
    cases result with
    | ok ok =>
      obtain ⟨rfl, after⟩ := holds
      exact .inl ⟨left, runs, after⟩
    | error halt =>
      obtain rfl := holds
      exact .inr ⟨left, runs⟩

end

/-- In every run in which no entropy is loaded over a cached master secret, the table is in
    order and at most one cache holds anything. Forgetting the wallet in use wipes it and keeps
    the other slots; nothing is left once the last wallet is forgotten, and after a clear. -/
theorem keychain_table_invariant {K : Type} (wally : Wally K) (durable : Contents) (events : List (Event K))
    (along : (keychain wally).Along (Spares wally) (fresh wally durable) events) (jade : Jade K)
    (reached : (keychain wally).final (fresh wally durable) events = jade) :
    Table wally jade.ram.wallets ∧ jade.ram.wallets.Exclusive ∧
      (jade.ram.keychain_data.isSome → ∀ answers, Returns wally .slot_forget_active (jade.answering answers) fun left =>
        left.ram.keychain_slots = Function.update jade.ram.keychain_slots jade.ram.active_slot (Slot.zero wally) ∧
        ((∀ slot, slot ≠ jade.ram.active_slot → (jade.ram.keychain_slots slot).in_use = false) →
          left.ram.wallets = Wallets.empty wally)) ∧
      ∀ answers, Returns wally .clear (jade.answering answers) fun left => left.ram.wallets = Wallets.empty wally := by
  have holds : Table wally jade.ram.wallets ∧ jade.ram.wallets.Exclusive := by
    rw [← reached]
    refine Machine.final_invariant (keychain wally)
      (?_ : ∀ (s : Jade K) e, Table wally s.ram.wallets ∧ s.ram.wallets.Exclusive → Spares wally s e → _)
      ⟨table_empty, .inl rfl⟩ along
    rintro jade event ⟨table, exclusive⟩ spares
    exact ⟨step_table event table, step_exclusive event spares exclusive⟩
  refine ⟨holds.1, holds.2, ?_, ?_⟩
  · intro loaded answers
    exact returns_of_wp (@forget_exact _ wally (jade.answering answers) holds.1 loaded)
  · intro answers
    exact returns_of_wp clear_exact

/-- A wallet is stored by its entropy; after a restart a master secret is cached, and the
    wallet loaded over it. -/
def overSecret : List (Event UInt8) :=
  [.boot (List.replicate 6 .ok), .call (.cache_mnemonic_entropy (List.replicate 16 5)) [],
    .call (.store sampleKey (zeros 16)) (List.replicate 9 .ok), .boot (List.replicate 6 .ok),
    .call (.cache_slip39_master_secret (List.replicate 16 7)) [], .call (.load sampleKey) (List.replicate 10 .ok)]

/-- Every call of the run returns true, and both caches hold something at its end. -/
theorem both_caches_filled :
    (keychain plainWally).outputs (fresh plainWally fun _ _ => none) overSecret = List.replicate 6 (.ok true) ∧
      ¬ ((keychain plainWally).final (fresh plainWally fun _ _ => none) overSecret).ram.wallets.Exclusive := by
  refine ⟨rfl, ?_⟩
  have entropy : ((keychain plainWally).final (fresh plainWally fun _ _ => none) overSecret).ram.mnemonic_entropy_len =
    16 := rfl
  have secret : ((keychain plainWally).final (fresh plainWally fun _ _ => none) overSecret).ram.slip39_master_secret_len =
    16 := rfl
  rintro (none | none)
  · exact absurd (entropy.symm.trans none) (by decide)
  · exact absurd (secret.symm.trans none) (by decide)

/-- The same run without the secret. -/
def overNothing : List (Event UInt8) := overSecret.take 4 ++ [.call (.load sampleKey) (List.replicate 10 .ok)]

theorem keychain_table_invariant_overNothing :
    Table plainWally ((keychain plainWally).final (fresh plainWally fun _ _ => none) overNothing).ram.wallets ∧
      ((keychain plainWally).final (fresh plainWally fun _ _ => none) overNothing).ram.wallets.Exclusive := by
  have along : (keychain plainWally).Along (Spares plainWally) (fresh plainWally fun _ _ => none) overNothing :=
    ⟨trivial, trivial, trivial, trivial, fun _ secret => absurd rfl secret, trivial⟩
  obtain ⟨table, exclusive, _⟩ := keychain_table_invariant plainWally _ _ along _ rfl
  exact ⟨table, exclusive⟩

end PiJade.Keychain
