import PiJade.Keychain
import PiJade.Machine

/-!
Runs of the keychain: calls of its interface in any order, each with the answers the
storage layer gives it, and restarts. A call that runs into an assertion or a power cut
ends the program; what is left is the durable store, and variables that are zero.
-/
namespace PiJade.Keychain
set_option linter.unusedSimpArgs false
open Storage

/-- The calls that change the state. -/
inductive Call (K : Type) where
  | set (src : Source K) (userdata : UInt8) (temporary : Bool)
  | load_into_free_slot (src : Keydata K) (userdata : UInt8) (temporary : Bool)
  | slot_activate (position : Nat)
  | slot_forget_active
  | set_entropy (mnemonic : Bytes)
  | clear
  | set_passphrase_frequency (freq : PassphraseFreq)
  | set_passphrase_type (type : PassphraseType)
  | set_confirm_export_blinding_key (confirm_export : Bool)
  | persist_key_flags
  | set_temporary
  | cache_mnemonic_entropy (mnemonic : Bytes)
  | cache_slip39_master_secret (master_secret : Bytes)
  | clear_network_type_restriction
  | set_network_type_restriction (network_type : NetworkType)
  | complete_derivation_with_passphrase (passphrase : Bytes)
  | store (aeskey iv : Bytes)
  | load (aeskey : Bytes)
  | reencrypt (curr_aeskey new_aeskey iv : Bytes)
  | erase_encrypted

/-- The event of one call, or of a start of the program. -/
inductive Event (K : Type) where
  | call (made : Call K) (answers : List Answer)
  | boot (answers : List Answer)

section
variable {K : Type} (wally : Wally K)

/-- A call without a result. -/
def returning (task : Task K Unit) : Task K Bool := do
  task
  pure true

def Call.run : Call K → Task K Bool
  | set src userdata temporary => returning (keychain_set wally src userdata temporary)
  | load_into_free_slot src userdata temporary => keychain_load_into_free_slot src userdata temporary
  | slot_activate position => returning (keychain_slot_activate position)
  | slot_forget_active => returning (keychain_slot_forget_active wally)
  | set_entropy mnemonic => returning (keychain_set_entropy wally mnemonic)
  | clear => returning (keychain_clear wally)
  | set_passphrase_frequency freq => returning (keychain_set_passphrase_frequency freq)
  | set_passphrase_type type => returning (keychain_set_passphrase_type type)
  | set_confirm_export_blinding_key confirm_export => returning (keychain_set_confirm_export_blinding_key confirm_export)
  | persist_key_flags => returning keychain_persist_key_flags
  | set_temporary => returning keychain_set_temporary
  | cache_mnemonic_entropy mnemonic => returning (keychain_cache_mnemonic_entropy wally mnemonic)
  | cache_slip39_master_secret master_secret => returning (keychain_cache_slip39_master_secret master_secret)
  | clear_network_type_restriction => returning keychain_clear_network_type_restriction
  | set_network_type_restriction network_type => returning (keychain_set_network_type_restriction network_type)
  | complete_derivation_with_passphrase passphrase => keychain_complete_derivation_with_passphrase wally passphrase
  | store aeskey iv => keychain_store wally aeskey iv
  | load aeskey => keychain_load wally aeskey
  | reencrypt curr_aeskey new_aeskey iv => keychain_reencrypt wally curr_aeskey new_aeskey iv
  | erase_encrypted => keychain_erase_encrypted

/-- The program starts again from what is durable. -/
def Jade.restart (jade : Jade K) : Jade K where
  ram := Ram.zero wally
  device := { jade.device with nvs_storage := jade.device.durable }

def Jade.answering (jade : Jade K) (answers : List Answer) : Jade K :=
  { jade with device := { jade.device with answers := answers } }

/-- The task an event runs, and the state it runs in. -/
def Event.task : Event K → Task K Bool
  | call made _ => made.run wally
  | boot _ => returning keychain_init_cache

def Event.start (jade : Jade K) : Event K → Jade K
  | call _ answers => jade.answering answers
  | boot answers => (jade.restart wally).answering answers

/-- How an event ends, and the state it leaves: a program that has ended starts again. -/
def Event.after (jade : Jade K) (event : Event K) : Check Interrupt Bool × Jade K :=
  match event.task wally (event.start wally jade) with
  | (.ok value, left) => (.ok value, left)
  | (.error halt, left) => (.error halt, left.restart wally)

/-- The keychain, by its calls and restarts. -/
def keychain : Machine (Jade K) (Event K) (Check Interrupt Bool) where
  step jade event := (event.after wally jade).2
  out jade event := some (event.after wally jade).1

/-- A device at its first start. -/
def fresh (durable : Contents) : Jade K where
  ram := Ram.zero wally
  device := ⟨durable, durable, [], []⟩

end

/-! ### Rules -/

section
variable {K α : Type} {post : α → Jade K → Prop} {halts : Halt Interrupt → Jade K → Prop} {jade : Jade K}

theorem wp_onDevice {code : Code α} :
    Proc.wp (onDevice code) post halts jade ↔
      Proc.wp code (fun value device => post value { jade with device := device })
        (fun halt device => halts halt { jade with device := device }) jade.device := by
  simp only [Proc.wp, onDevice]
  rcases code jade.device with ⟨_ | _, _⟩ <;> rfl

theorem wp_record {post : Unit → Jade K → Prop} {event : Storage.Event} :
    Proc.wp (onDevice (record event)) post halts jade ↔
      post () { jade with device := { jade.device with log := jade.device.log ++ [event] } } := Iff.rfl

@[simp] theorem wp_get {read : Ram K → α} : Proc.wp (get read) post halts jade ↔ post (read jade.ram) jade := Iff.rfl

@[simp] theorem wp_modify {post : Unit → Jade K → Prop} {change : Ram K → Ram K} :
    Proc.wp (modify change) post halts jade ↔ post () { jade with ram := change jade.ram } := Iff.rfl

@[simp] theorem wp_keychain_ensure {post : Unit → Jade K → Prop} {holds : Bool} :
    Proc.wp (ensure holds) post halts jade ↔ if holds then post () jade else halts .abort jade :=
  Proc.wp_ensure

theorem wp_verified {result : Option α} :
    Proc.wp (verified result) post halts jade ↔ match result with
      | none => halts .abort jade
      | some value => post value jade := by
  cases result <;> rfl

end
end PiJade.Keychain
