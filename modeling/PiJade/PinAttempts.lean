import Mathlib.Data.List.Induction
import PiJade.KeychainRuns

/-!
The bound on pin attempts. Whatever the storage layer does, the attempts a store grants,
in memory and in the durable copy, together with the checks made since the counter was
last restored, never exceed three. A check follows a decrement that was reported as
committed; a decrement that was not only ever lowers what a store grants.
-/
namespace PiJade.PinAttempts
set_option linter.unusedSimpArgs false
open Storage
open Keychain hiding Event

/-- The counter as it would be read. -/
def pinCounter (contents : Contents) : UInt8 :=
  match contents defaultMap PIN_COUNTER_FIELD with
  | some [byte] => byte
  | _ => 0

/-- The attempts a store grants: a counter above three grants none. -/
def attempts (contents : Contents) : Nat := if pinCounter contents ≤ 3 then (pinCounter contents).toNat else 0

/-- The events that restore the counter. -/
def restores : Storage.Event → Bool
  | .decrypted | .set_encrypted_blob => true
  | _ => false

def isCheck : Storage.Event → Bool
  | .hmac_check => true
  | _ => false

/-- The checks since the counter was last restored. -/
def checks (log : List Storage.Event) : Nat :=
  log.foldl (fun count event => if restores event then 0 else if isCheck event then count + 1 else count) 0

/-- A check follows a counter of one to three that was decremented and committed. -/
def Guarded (log : List Storage.Event) : Prop :=
  ∀ front rest, log = front ++ .hmac_check :: rest → ∃ before counter contents,
    front = before ++ [.counter counter, .committed contents] ∧ 1 ≤ counter ∧ counter ≤ 3 ∧
      pinCounter contents = counter - 1

/-- What holds of the device between two calls. -/
structure Bounded (dev : Device) : Prop where
  memory : checks dev.log + attempts dev.nvs_storage ≤ 3
  durable : checks dev.log + attempts dev.durable ≤ 3
  before : ∀ front, front <+: dev.log → checks front ≤ 3
  guarded : Guarded dev.log

/-! ### Logs -/

theorem attempts_le (contents : Contents) : attempts contents ≤ 3 := by
  by_cases small : pinCounter contents ≤ 3
  · rw [attempts, if_pos small]
    exact UInt8.le_iff_toNat_le.mp small
  · rw [attempts, if_neg small]
    omega

theorem checks_snoc (log : List Storage.Event) (event : Storage.Event) :
    checks (log ++ [event]) =
      if restores event then 0 else if isCheck event then checks log + 1 else checks log := by
  simp [checks, List.foldl_append]

/-- Neither a check nor a restoring event. -/
def Quiet (event : Storage.Event) : Prop := restores event = false ∧ isCheck event = false

theorem checks_append_quiet {log events : List Storage.Event} (quiet : ∀ event ∈ events, Quiet event) :
    checks (log ++ events) = checks log := by
  induction events using List.reverseRecOn with
  | nil => simp
  | append_singleton events last ih =>
    obtain ⟨silent, unchecked⟩ := quiet last (by simp)
    rw [← List.append_assoc, checks_snoc, silent, unchecked]
    exact ih fun event member => quiet event (by simp [member])

theorem guarded_snoc {log : List Storage.Event} {event : Storage.Event} (guarded : Guarded log)
    (unchecked : isCheck event = false) : Guarded (log ++ [event]) := by
  intro front rest split
  induction rest using List.reverseRecOn with
  | nil =>
    have last := (List.append_inj_right' split rfl)
    cases last
    simp [isCheck] at unchecked
  | append_singleton rest last =>
    have split' : log ++ [event] = (front ++ .hmac_check :: rest) ++ [last] := by simpa using split
    exact guarded front rest (List.append_inj_left' split' rfl)

theorem guarded_append {log events : List Storage.Event} (guarded : Guarded log)
    (unchecked : ∀ event ∈ events, isCheck event = false) : Guarded (log ++ events) := by
  induction events using List.reverseRecOn with
  | nil => simpa using guarded
  | append_singleton events last ih =>
    rw [← List.append_assoc]
    exact guarded_snoc (ih fun event member => unchecked event (by simp [member])) (unchecked last (by simp))

theorem prefix_snoc {α : Type} {front log : List α} {event : α} (initial : front <+: log ++ [event]) :
    front <+: log ∨ front = log ++ [event] := by
  rcases List.prefix_concat_iff.mp initial with whole | part
  · exact .inr whole
  · exact .inl part

/-- Between restoring events there are at most three checks. -/
theorem countP_checks_le {log before between after : List Storage.Event}
    (bounded : ∀ front, front <+: log → checks front ≤ 3) (split : log = before ++ between ++ after)
    (unrestored : ∀ event ∈ between, restores event = false) : between.countP isCheck ≤ 3 := by
  have counted : ∀ events : List Storage.Event, (∀ event ∈ events, restores event = false) →
      checks (before ++ events) = checks before + events.countP isCheck := by
    intro events
    induction events using List.reverseRecOn with
    | nil => simp
    | append_singleton events last ih =>
      intro unrestored
      have earlier := ih fun event member => unrestored event (by simp [member])
      rw [← List.append_assoc, checks_snoc, unrestored last (by simp), List.countP_append, earlier]
      cases check : isCheck last with
      | true => simp [check, Nat.add_assoc]
      | false => simp [check]
  have bound := bounded (before ++ between) ⟨after, split.symm⟩
  rw [counted between unrestored] at bound
  omega

/-! ### Storage -/

/-- Code that makes no check and raises nothing. -/
structure Calm (dev after : Device) : Prop where
  lower : ∀ n, attempts dev.nvs_storage ≤ n → attempts dev.durable ≤ n →
    attempts after.nvs_storage ≤ n ∧ attempts after.durable ≤ n
  quiet : ∃ events, after.log = dev.log ++ events ∧ ∀ event ∈ events, Quiet event

theorem calm_refl (dev : Device) : Calm dev dev := ⟨fun _ memory durable => ⟨memory, durable⟩, [], by simp⟩

theorem calm_trans (first second third : Device) (one : Calm first second) (two : Calm second third) :
    Calm first third := by
  obtain ⟨events, log, quiet⟩ := one.quiet
  obtain ⟨events', log', quiet'⟩ := two.quiet
  constructor
  · intro n memory durable
    obtain ⟨memory', durable'⟩ := one.lower n memory durable
    exact two.lower n memory' durable'
  · refine ⟨events ++ events', by rw [log', log, List.append_assoc], ?_⟩
    intro event member
    rcases List.mem_append.mp member with early | late
    · exact quiet event early
    · exact quiet' event late

/-- Only the answers differ. -/
theorem calm_answers (dev : Device) (answers : List Answer) : Calm dev { dev with answers := answers } :=
  ⟨fun _ memory durable => ⟨memory, durable⟩, [], by simp⟩

theorem bounded_of_calm {dev after : Device} (bounded : Bounded dev) (calm : Calm dev after) : Bounded after := by
  obtain ⟨events, log, quiet⟩ := calm.quiet
  have same : checks after.log = checks dev.log := by rw [log, checks_append_quiet quiet]
  have memory := bounded.memory
  have durable := bounded.durable
  obtain ⟨memory', durable'⟩ := calm.lower (3 - checks dev.log) (by omega) (by omega)
  constructor
  · omega
  · omega
  · intro front initial
    rw [log] at initial
    obtain ⟨rest, whole⟩ := initial
    rcases List.append_eq_append_iff.mp whole with ⟨middle, part, _⟩ | ⟨middle, part, ends⟩
    · exact bounded.before front ⟨middle, part.symm⟩
    · rw [part, checks_append_quiet fun event member => quiet event (by rw [ends]; simp [member])]
      omega
  · rw [log]
    exact guarded_append bounded.guarded fun event member => (quiet event member).2

/-- One edit of the default map that does not raise the counter. -/
theorem wp_lower_edit {dev : Device} {edit : Edit}
    (lower : attempts (dev.nvs_storage.bind defaultMap edit.key edit.value) ≤ attempts dev.nvs_storage) :
    Proc.wp (open_edit_commit DEFAULT_NAMESPACE [edit])
      (fun ok after => Calm dev after ∧ (ok = true →
        after.nvs_storage = dev.nvs_storage.bind defaultMap edit.key edit.value ∧ after.durable = after.nvs_storage ∧
          after.log = dev.log ++ [.committed after.nvs_storage]))
      (fun _ after => Calm dev after) dev := by
  have edited : ∀ n, attempts (dev.nvs_storage.edit defaultMap ([edit].take n)) ≤ attempts dev.nvs_storage := by
    intro n
    cases n with
    | zero => exact le_rfl
    | succ n => simpa using lower
  simp only [open_edit_commit, Proc.wp_bind]
  apply wp_nvs_open
  · intro handle rest known _
    obtain rfl : defaultMap = handle := Option.some.inj known
    apply wp_edit_commit
    · intro n persisted left _ _ written _
      refine ⟨⟨?_, [], by simp⟩, fun impossible => by cases impossible⟩
      intro m memory durable
      have small := (edited n).trans memory
      cases written with
      | true => exact ⟨small, small⟩
      | false => exact ⟨small, durable⟩
    · intro left _
      have small := edited 1
      refine ⟨⟨?_, [.committed (dev.nvs_storage.edit defaultMap [edit])], rfl, ?_⟩, fun _ => ⟨rfl, rfl, rfl⟩⟩
      · intro m memory durable
        exact ⟨small.trans memory, small.trans memory⟩
      · intro event member
        cases List.mem_singleton.mp member
        exact ⟨rfl, rfl⟩
    · intro n _ _
      refine ⟨?_, [], by simp⟩
      intro m memory durable
      exact ⟨(edited n).trans memory, durable⟩
  · intro first rest _ _
    exact ⟨calm_answers dev rest, fun impossible => by cases impossible⟩
  · intro _
    exact calm_refl dev

theorem attempts_bind_other (contents : Contents) {key : String} (value : Option Bytes) (other : key ≠ PIN_COUNTER_FIELD) :
    attempts (contents.bind defaultMap key value) = attempts contents := by
  have same : pinCounter (contents.bind defaultMap key value) = pinCounter contents := by
    simp only [pinCounter, bind_other contents defaultMap value other.symm]
  rw [attempts, attempts, same]

theorem pinCounter_bind (contents : Contents) (counter : UInt8) :
    pinCounter (contents.bind defaultMap PIN_COUNTER_FIELD (some [counter])) = counter := by
  simp only [pinCounter, bind_same]

theorem attempts_erase (contents : Contents) : attempts (contents.bind defaultMap PIN_COUNTER_FIELD none) = 0 := by
  simp only [attempts, pinCounter, bind_same]
  rfl

/-- A store of a field other than the counter. -/
theorem calm_store_blob {name : String} {data : Bytes} (other : name ≠ PIN_COUNTER_FIELD) :
    Proc.Keeps Calm (store_blob DEFAULT_NAMESPACE name data) := by
  refine Proc.keeps_bind calm_trans (Proc.keeps_lift calm_refl _) fun _ => ?_
  apply Proc.keeps_of_wp
  intro dev
  refine Proc.wp_mono (wp_lower_edit (attempts_bind_other _ _ other).le) ?_ ?_
  · intro _ _ ends
    exact ends.1
  · intro _ _ calm
    exact calm

theorem calm_read_blob (name : String) (len : Nat) : Proc.Keeps Calm (read_blob DEFAULT_NAMESPACE name len) := by
  apply Proc.keeps_of_wp
  intro dev
  apply wp_read_blob
  · intro _ answers _ _
    exact calm_answers dev answers
  · exact calm_answers dev
  · exact calm_answers dev

theorem calm_read_blob_fixed (name : String) (len : Nat) :
    Proc.Keeps Calm (read_blob_fixed DEFAULT_NAMESPACE name len) := by
  refine Proc.keeps_bind calm_trans (calm_read_blob name len) fun value => ?_
  cases value with
  | none => exact Proc.keeps_pure calm_refl _
  | some value => exact Proc.keeps_pure calm_refl _

theorem calm_read_byte (name : String) : Proc.Keeps Calm (read_byte name) := by
  refine Proc.keeps_bind calm_trans (calm_read_blob_fixed name 1) fun value => ?_
  split
  · exact Proc.keeps_pure calm_refl _
  · exact Proc.keeps_pure calm_refl _

theorem calm_record {event : Storage.Event} (quiet : Quiet event) : Proc.Keeps Calm (record event) := by
  intro dev
  refine ⟨fun _ memory durable => ⟨memory, durable⟩, [event], rfl, ?_⟩
  intro other member
  cases List.mem_singleton.mp member
  exact quiet

theorem calm_get_counter : Proc.Keeps Calm storage_get_counter := by
  refine Proc.keeps_bind calm_trans (calm_read_byte _) fun counter => ?_
  refine Proc.keeps_bind calm_trans (calm_record ⟨rfl, rfl⟩) fun _ => ?_
  exact Proc.keeps_pure calm_refl _

/-- The counter read is the one stored, or zero when it cannot be read. -/
theorem wp_get_counter {dev : Device} {post : UInt8 → Device → Prop} {halts : Halt Interrupt → Device → Prop}
    (value : ∀ counter answers, counter = 0 ∨ counter = pinCounter dev.nvs_storage →
      post counter { dev with answers := answers, log := dev.log ++ [.counter counter] })
    (cut : ∀ answers, halts (.error .power_cut) { dev with answers := answers }) :
    Proc.wp storage_get_counter post halts dev := by
  simp only [storage_get_counter, read_byte, Proc.wp_bind]
  apply wp_read_blob_fixed
  · intro data answers held single
    obtain ⟨byte, rfl⟩ := List.length_eq_one_iff.mp single
    have read : pinCounter dev.nvs_storage = byte := by simp only [pinCounter, held]
    exact value byte answers (.inr read.symm)
  · intro answers
    exact value 0 answers (.inl rfl)
  · exact cut

theorem calm_erase_key (name : String) : Proc.Keeps Calm (erase_key DEFAULT_NAMESPACE name) := by
  apply Proc.keeps_of_wp
  intro dev
  have lower : attempts (dev.nvs_storage.bind defaultMap name none) ≤ attempts dev.nvs_storage := by
    by_cases counter : name = PIN_COUNTER_FIELD
    · rw [counter, attempts_erase]
      exact Nat.zero_le _
    · exact (attempts_bind_other _ _ counter).le
  refine Proc.wp_mono (@wp_lower_edit dev (.ERASE name) lower) ?_ ?_
  · intro _ _ ends
    exact ends.1
  · intro _ _ calm
    exact calm

/-- A marker above three grants no attempt. -/
theorem calm_store_marker : Proc.Keeps Calm (store_blob DEFAULT_NAMESPACE PIN_COUNTER_FIELD [4]) := by
  refine Proc.keeps_bind calm_trans (Proc.keeps_lift calm_refl _) fun _ => ?_
  apply Proc.keeps_of_wp
  intro dev
  have lower : attempts (dev.nvs_storage.bind defaultMap PIN_COUNTER_FIELD (some [4])) ≤ attempts dev.nvs_storage := by
    rw [attempts, pinCounter_bind]
    exact Nat.zero_le _
  refine Proc.wp_mono (@wp_lower_edit dev (.SET_BLOB PIN_COUNTER_FIELD [4]) lower) ?_ ?_
  · intro _ _ ends
    exact ends.1
  · intro _ _ calm
    exact calm

theorem calm_erase_encrypted_blob : Proc.Keeps Calm storage_erase_encrypted_blob := by
  refine Proc.keeps_bind calm_trans (calm_erase_key _) fun erased => ?_
  cases erased with
  | true => exact Proc.keeps_bind calm_trans (calm_erase_key _) fun _ => Proc.keeps_pure calm_refl _
  | false => exact Proc.keeps_bind calm_trans calm_store_marker fun _ => Proc.keeps_pure calm_refl _

/-- A counter of one to three was decremented, and the decrement committed. -/
structure Spent (dev after : Device) : Prop where
  positive : 1 ≤ pinCounter dev.nvs_storage
  small : pinCounter dev.nvs_storage ≤ 3
  counter : pinCounter after.nvs_storage = pinCounter dev.nvs_storage - 1
  durable : after.durable = after.nvs_storage
  log : after.log = dev.log ++ [.counter (pinCounter dev.nvs_storage), .committed after.nvs_storage]

theorem attempts_of_small {contents : Contents} (small : pinCounter contents ≤ 3) :
    attempts contents = (pinCounter contents).toNat := if_pos small

theorem toNat_sub_one {counter : UInt8} (positive : 1 ≤ counter) : (counter - 1).toNat = counter.toNat - 1 :=
  UInt8.toNat_sub_of_le counter 1 positive

/-- Giving up: the blob is erased, whatever comes of it. -/
theorem wp_give_up {dev between : Device} (calm : Calm dev between) :
    Proc.wp (do let _ ← storage_erase_encrypted_blob; pure false)
      (fun ok after => if ok then Spent dev after else Calm dev after) (fun _ after => Calm dev after) between := by
  rw [Proc.wp_bind]
  refine Proc.wp_mono (calm_erase_encrypted_blob.wp between) ?_ ?_
  · intro _ after calm'
    exact calm_trans _ _ _ calm calm'
  · intro _ after calm'
    exact calm_trans _ _ _ calm calm'

theorem wp_decrement_counter (dev : Device) :
    Proc.wp storage_decrement_counter (fun ok after => if ok then Spent dev after else Calm dev after)
      (fun _ after => Calm dev after) dev := by
  rw [storage_decrement_counter, Proc.wp_bind]
  apply wp_get_counter
  · intro counter answers read
    have calm : Calm dev { dev with answers := answers, log := dev.log ++ [.counter counter] } :=
      calm_trans _ _ _ (calm_answers dev answers) (calm_record ⟨rfl, rfl⟩ _)
    by_cases invalid : (counter == 0 || decide (counter > 3)) = true
    · rw [if_pos invalid]
      exact wp_give_up calm
    · rw [if_neg invalid]
      simp only [Bool.or_eq_true, beq_iff_eq, decide_eq_true_eq, not_or, gt_iff_lt, UInt8.not_lt] at invalid
      obtain ⟨nonzero, small⟩ := invalid
      obtain rfl : counter = pinCounter dev.nvs_storage := read.resolve_left nonzero
      have positive : 1 ≤ pinCounter dev.nvs_storage := by
        rw [UInt8.le_iff_toNat_le]
        have := UInt8.toNat_inj.not.mpr nonzero
        simp at this ⊢
        omega
      have lower : attempts (dev.nvs_storage.bind defaultMap PIN_COUNTER_FIELD (some [pinCounter dev.nvs_storage - 1])) ≤
          attempts dev.nvs_storage := by
        have less : pinCounter dev.nvs_storage - 1 ≤ 3 := by
          rw [UInt8.le_iff_toNat_le] at small ⊢
          rw [toNat_sub_one positive]
          omega
        rw [attempts, pinCounter_bind, if_pos less, attempts_of_small small, toNat_sub_one positive]
        omega
      simp only [store_blob, Proc.wp_bind, List.length_singleton, Nat.one_pos, decide_true, Check.ensure_true,
        Proc.wp_ok]
      refine Proc.wp_mono (@wp_lower_edit { dev with
        answers := answers, log := dev.log ++ [.counter (pinCounter dev.nvs_storage)] }
        (.SET_BLOB PIN_COUNTER_FIELD [pinCounter dev.nvs_storage - 1]) lower) ?_ ?_
      · intro ok after ends
        cases ok with
        | true =>
          obtain ⟨stored, durable, log⟩ := ends.2 rfl
          refine ⟨positive, small, ?_, durable, ?_⟩
          · rw [stored]
            exact pinCounter_bind _ _
          · rw [log]
            simp
        | false => exact wp_give_up (calm_trans _ _ _ calm ends.1)
      · intro _ after calm'
        exact calm_trans _ _ _ calm calm'
  · exact calm_answers dev

/-! ### Checks -/

theorem attempts_of_spent {dev after : Device} (spent : Spent dev after) :
    attempts after.nvs_storage + 1 = attempts dev.nvs_storage := by
  have small := spent.small
  have positive := UInt8.le_iff_toNat_le.mp spent.positive
  have less : pinCounter after.nvs_storage ≤ 3 := by
    rw [spent.counter, UInt8.le_iff_toNat_le, toNat_sub_one spent.positive]
    rw [UInt8.le_iff_toNat_le] at small
    omega
  rw [attempts_of_small less, attempts_of_small spent.small, spent.counter, toNat_sub_one spent.positive]
  simp at positive
  omega

theorem calm_of_spent {dev after : Device} (spent : Spent dev after) : Calm dev after := by
  have left := attempts_of_spent spent
  constructor
  · intro n memory _
    rw [spent.durable]
    omega
  · refine ⟨_, spent.log, ?_⟩
    intro event member
    rcases List.mem_pair.mp member with rfl | rfl
    · exact ⟨rfl, rfl⟩
    · exact ⟨rfl, rfl⟩

/-- After the check of a spent attempt the bound holds again. -/
theorem bounded_of_check {dev after : Device} (bounded : Bounded dev) (spent : Spent dev after)
    (answers : List Answer) :
    Bounded { after with answers := answers, log := after.log ++ [.hmac_check] } := by
  have between := bounded_of_calm bounded (calm_of_spent spent)
  have left := attempts_of_spent spent
  have one : checks (after.log ++ [.hmac_check]) = checks dev.log + 1 := by
    obtain ⟨events, log, quiet⟩ := (calm_of_spent spent).quiet
    rw [checks_snoc, log, checks_append_quiet quiet]
    rfl
  have memory := bounded.memory
  constructor
  · rw [one]
    show _ + attempts after.nvs_storage ≤ 3
    omega
  · rw [one]
    show _ + attempts after.durable ≤ 3
    rw [spent.durable]
    omega
  · intro front initial
    rcases prefix_snoc initial with part | rfl
    · exact between.before front part
    · omega
  · intro front rest split
    induction rest using List.reverseRecOn with
    | nil =>
      obtain rfl := List.append_inj_left' split rfl
      exact ⟨dev.log, pinCounter dev.nvs_storage, after.nvs_storage, spent.log, spent.positive, spent.small,
        spent.counter⟩
    | append_singleton rest last =>
      have split' : after.log ++ [.hmac_check] = (front ++ .hmac_check :: rest) ++ [last] := by simpa using split
      exact between.guarded front rest (List.append_inj_left' split' rfl)

/-- A restoring event frees the counter. -/
theorem bounded_of_restore {dev : Device} (bounded : Bounded dev) {event : Storage.Event}
    (restoring : restores event = true) (nvs_storage durable : Contents) (answers : List Answer) :
    Bounded ⟨nvs_storage, durable, answers, dev.log ++ [event]⟩ := by
  have none : checks (dev.log ++ [event]) = 0 := by rw [checks_snoc, if_pos restoring]
  have memory := attempts_le nvs_storage
  have durable' := attempts_le durable
  constructor
  · show checks (dev.log ++ [event]) + attempts nvs_storage ≤ 3
    omega
  · show checks (dev.log ++ [event]) + attempts durable ≤ 3
    omega
  · intro front initial
    rcases prefix_snoc initial with part | rfl
    · exact bounded.before front part
    · omega
  · apply guarded_snoc bounded.guarded
    cases event with
    | decrypted => rfl
    | set_encrypted_blob => rfl
    | counter _ => cases restoring
    | committed _ => cases restoring
    | hmac_check => cases restoring

/-- Since the counter was restored there was no check. -/
def Restored (dev : Device) : Prop := Bounded dev ∧ checks dev.log = 0

theorem restored_of_calm {dev after : Device} (restored : Restored dev) (calm : Calm dev after) : Restored after := by
  refine ⟨bounded_of_calm restored.1 calm, ?_⟩
  obtain ⟨events, log, quiet⟩ := calm.quiet
  rw [log, checks_append_quiet quiet]
  exact restored.2

/-- With no check to count, a store may grant anything. -/
theorem restored_of_contents {dev after : Device} (restored : Restored dev)
    (quiet : ∃ events, after.log = dev.log ++ events ∧ ∀ event ∈ events, Quiet event) : Restored after := by
  have granted : Restored { dev with nvs_storage := after.nvs_storage, durable := after.durable } := by
    refine ⟨⟨?_, ?_, restored.1.before, restored.1.guarded⟩, restored.2⟩
    · have := attempts_le after.nvs_storage
      have := restored.2
      show checks dev.log + attempts after.nvs_storage ≤ 3
      omega
    · have := attempts_le after.durable
      have := restored.2
      show checks dev.log + attempts after.durable ≤ 3
      omega
  exact restored_of_calm granted ⟨fun _ memory durable => ⟨memory, durable⟩, quiet⟩

theorem wp_restore_counter {dev : Device} (restored : Restored dev) :
    Proc.wp storage_restore_counter (fun _ => Restored) (fun _ => Restored) dev := by
  simp only [storage_restore_counter, store_blob, open_edit_commit, Proc.wp_bind, List.length_singleton, Nat.one_pos,
    decide_true, Check.ensure_true, Proc.wp_ok]
  apply wp_nvs_open
  · intro handle rest _ _
    apply wp_edit_commit
    · intro n persisted left _ _ written _
      exact restored_of_contents restored ⟨[], by simp⟩
    · intro left _
      refine restored_of_contents restored ⟨[_], rfl, ?_⟩
      intro event member
      cases List.mem_singleton.mp member
      exact ⟨rfl, rfl⟩
    · intro n _ _
      exact restored_of_contents restored ⟨[], by simp⟩
  · intro first rest _ _
    exact restored_of_calm restored (calm_answers dev rest)
  · intro _
    exact restored

theorem wp_set_encrypted_blob {dev : Device} (bounded : Bounded dev) (encrypted : Bytes) :
    Proc.wp (storage_set_encrypted_blob encrypted) (fun _ => Bounded) (fun _ => Bounded) dev := by
  simp only [storage_set_encrypted_blob, record, Proc.wp_bind, Proc.wp_update]
  have restored : Restored { dev with log := dev.log ++ [.set_encrypted_blob] } :=
    ⟨bounded_of_restore bounded rfl _ _ _, checks_snoc _ _⟩
  refine Proc.wp_mono (wp_restore_counter restored) ?_ ?_
  · intro ok after restored'
    cases ok with
    | true =>
      refine Proc.wp_mono ((calm_store_blob (by decide)).wp after) ?_ ?_
      · intro _ _ calm
        exact bounded_of_calm restored'.1 calm
      · intro _ _ calm
        exact bounded_of_calm restored'.1 calm
    | false => exact restored'.1
  · intro _ _ restored'
    exact restored'.1

/-! ### Calm keychain code -/

section
variable {K α β : Type} {wally : Wally K}

/-- Keychain code that makes no check and raises nothing. -/
def CalmTask (task : Task K α) : Prop := Proc.Keeps (fun jade after => Calm jade.device after.device) task

theorem calm_pure (value : α) : CalmTask (pure value : Task K α) := Proc.keeps_pure (fun jade => calm_refl jade.device) _

theorem calm_bind {task : Task K α} {next : α → Task K β} (first : CalmTask task) (later : ∀ value, CalmTask (next value)) :
    CalmTask (task >>= next) := by
  refine Proc.keeps_bind ?_ first later
  intro before between after
  exact calm_trans before.device between.device after.device

theorem calm_get (read : Ram K → α) : CalmTask (get read) := fun jade => calm_refl jade.device

theorem calm_modify (change : Ram K → Ram K) : CalmTask (modify change) := fun jade => calm_refl jade.device

theorem calm_lift (check : Check Interrupt α) : CalmTask (Proc.lift check : Task K α) := fun jade => calm_refl jade.device

theorem calm_ensure (holds : Bool) : CalmTask (Keychain.ensure holds : Task K Unit) := calm_lift _

theorem calm_verified (result : Option α) : CalmTask (verified result : Task K α) := by
  cases result with
  | none => exact calm_lift _
  | some value => exact calm_pure value

theorem calm_onDevice {code : Code α} (calm : Proc.Keeps Calm code) : CalmTask (onDevice code : Task K α) :=
  fun jade => calm jade.device

theorem calm_ite {condition : Prop} [Decidable condition] {yes no : Task K α} (first : CalmTask yes) (second : CalmTask no) :
    CalmTask (if condition then yes else no) := by
  split
  · exact first
  · exact second

theorem calm_occupy_slot (slot : Fin MAX_SEED_SLOTS) (src : Keydata K) : CalmTask (occupy_slot slot src) := calm_modify _

theorem calm_finalise_slot (userdata : UInt8) (temporary : Bool) : CalmTask (finalise_slot userdata temporary : Task K Unit) :=
  calm_bind (calm_modify _) fun _ => calm_bind (calm_onDevice (calm_read_byte _)) fun _ => calm_modify _

theorem calm_clear : CalmTask (keychain_clear wally) :=
  calm_bind (calm_modify _) fun _ => calm_bind (calm_onDevice (calm_read_byte _)) fun _ => calm_modify _

theorem calm_set (src : Source K) (userdata : UInt8) (temporary : Bool) :
    CalmTask (keychain_set wally src userdata temporary) := by
  cases src with
  | self =>
    exact calm_bind (calm_get _) fun _ => calm_bind (calm_ensure _) fun _ => calm_finalise_slot _ _
  | new src =>
    exact calm_bind calm_clear fun _ => calm_bind (calm_occupy_slot _ _) fun _ => calm_finalise_slot _ _

theorem calm_load_into_free_slot (src : Keydata K) (userdata : UInt8) (temporary : Bool) :
    CalmTask (keychain_load_into_free_slot src userdata temporary) := by
  refine calm_bind (calm_get _) fun slot => ?_
  cases slot with
  | none => exact calm_pure _
  | some slot =>
    exact calm_bind (calm_occupy_slot _ _) fun _ => calm_bind (calm_finalise_slot _ _) fun _ => calm_pure _

theorem calm_slot_activate (position : Nat) : CalmTask (keychain_slot_activate position : Task K Unit) := by
  refine calm_bind (calm_bind (calm_get _) fun slot => ?_) fun _ => calm_modify _
  cases slot with
  | none => exact calm_lift _
  | some slot => exact calm_pure _

theorem calm_slot_forget_active : CalmTask (keychain_slot_forget_active wally) :=
  calm_bind (calm_get _) fun _ => calm_bind (calm_ensure _) fun _ => calm_bind (calm_modify _) fun _ =>
    calm_bind (calm_get _) fun _ => calm_ite (calm_slot_activate 0) calm_clear

theorem calm_set_entropy (mnemonic : Bytes) : CalmTask (keychain_set_entropy wally mnemonic) :=
  calm_bind (calm_get _) fun _ => calm_bind (calm_ensure _) fun _ => calm_bind (calm_get _) fun _ =>
    calm_bind (calm_ensure _) fun _ => calm_bind (calm_verified _) fun _ =>
      calm_ite (calm_modify _) (calm_modify _)

theorem calm_set_temporary : CalmTask (keychain_set_temporary : Task K Unit) :=
  calm_bind (calm_get _) fun _ => calm_bind (calm_ensure _) fun _ => calm_bind (calm_get _) fun _ =>
    calm_bind (calm_ensure _) fun _ => calm_bind (calm_get _) fun _ => calm_bind (calm_ensure _) fun _ =>
      calm_bind (calm_get _) fun _ => calm_bind (calm_ensure _) fun _ => calm_modify _

theorem calm_has_temporary : CalmTask (keychain_has_temporary : Task K Bool) :=
  calm_bind (calm_get _) fun _ => calm_bind (calm_get _) fun _ => calm_bind (calm_ensure _) fun _ =>
    calm_bind (calm_get _) fun _ => calm_bind (calm_get _) fun _ => calm_pure _

theorem calm_cache_mnemonic_entropy (mnemonic : Bytes) : CalmTask (keychain_cache_mnemonic_entropy wally mnemonic) :=
  calm_bind calm_has_temporary fun _ => calm_bind (calm_ensure _) fun _ => calm_bind (calm_get _) fun _ =>
    calm_bind (calm_ensure _) fun _ => calm_bind (calm_get _) fun _ => calm_bind (calm_ensure _) fun _ =>
      calm_bind (calm_verified _) fun _ => calm_bind (calm_modify _) fun _ => calm_ensure _

theorem calm_cache_slip39_master_secret (master_secret : Bytes) :
    CalmTask (keychain_cache_slip39_master_secret master_secret : Task K Unit) :=
  calm_bind (calm_ensure _) fun _ => calm_bind calm_has_temporary fun _ => calm_bind (calm_ensure _) fun _ =>
    calm_bind (calm_get _) fun _ => calm_bind (calm_ensure _) fun _ => calm_bind (calm_get _) fun _ =>
      calm_bind (calm_ensure _) fun _ => calm_modify _

theorem calm_modifyFlags (change : UInt8 → UInt8) : CalmTask (modifyFlags change : Task K Unit) := calm_modify _

theorem calm_set_passphrase_frequency (freq : PassphraseFreq) :
    CalmTask (keychain_set_passphrase_frequency freq : Task K Unit) := by
  cases freq <;> exact calm_modify _

theorem calm_persist_key_flags : CalmTask (keychain_persist_key_flags : Task K Unit) :=
  calm_bind (calm_get _) fun _ => calm_bind (calm_onDevice (calm_store_blob (by decide))) fun _ => calm_pure _

theorem calm_store_network_type (network_type : NetworkType) :
    CalmTask (onDevice (storage_set_network_type_restriction network_type) : Task K Bool) :=
  calm_onDevice (calm_store_blob (by decide))

theorem calm_clear_network_type_restriction : CalmTask (keychain_clear_network_type_restriction : Task K Unit) :=
  calm_bind calm_has_temporary fun _ =>
    calm_ite (calm_bind (calm_store_network_type _) fun _ => calm_modify _) (calm_modify _)

theorem calm_set_network_type_restriction (network_type : NetworkType) :
    CalmTask (keychain_set_network_type_restriction network_type : Task K Unit) :=
  calm_bind (calm_get _) fun _ => calm_bind (calm_ensure _) fun _ => calm_bind (calm_get _) fun _ =>
    calm_ite (calm_bind (calm_get _) fun _ => calm_ite
      (calm_bind calm_has_temporary fun _ =>
        calm_ite (calm_bind (calm_store_network_type _) fun _ => calm_modify _) (calm_modify _))
      (calm_modify _)) (calm_pure _)

theorem calm_derive_from_seed (seed : Bytes) : CalmTask (keychain_derive_from_seed wally seed) :=
  calm_bind (calm_ensure _) fun _ => calm_bind (calm_ensure _) fun _ => calm_bind (calm_verified _) fun _ => calm_pure _

theorem calm_complete_derivation (passphrase : Bytes) :
    CalmTask (keychain_complete_derivation_with_passphrase wally passphrase) := by
  refine calm_bind (calm_get _) fun _ => calm_ite (calm_pure _) (calm_bind (calm_get _) fun _ => ?_)
  split
  · exact calm_pure _
  · refine calm_bind (calm_ite (calm_pure _) (calm_ite (calm_pure _) (calm_bind (calm_verified _) fun _ =>
      calm_bind (calm_ensure _) fun _ => calm_bind (calm_derive_from_seed _) fun _ => calm_pure _))) fun keydata => ?_
    cases keydata with
    | none => exact calm_pure _
    | some keydata => exact calm_bind (calm_set _ _ _) fun _ => calm_pure _

theorem calm_attempts_remaining : CalmTask (keychain_pin_attempts_remaining : Task K UInt8) := calm_onDevice calm_get_counter

theorem calm_erase_encrypted : CalmTask (keychain_erase_encrypted : Task K Bool) :=
  calm_bind (calm_onDevice calm_erase_encrypted_blob) fun _ => calm_bind calm_clear_network_type_restriction fun _ =>
    calm_bind (calm_modify _) fun _ => calm_pure _

theorem calm_refused : CalmTask (keychain_load_and_decrypt_blob.refused : Task K (Option Bytes)) :=
  calm_bind calm_attempts_remaining fun _ => calm_bind (calm_modify _) fun _ => calm_pure _

theorem calm_restore (serialized : Bytes) : CalmTask (keychain_load.restore wally serialized) :=
  calm_ite (calm_bind (calm_modify _) fun _ => calm_pure _) (calm_ite
    (calm_bind (calm_bind (calm_ensure _) fun _ => calm_bind (calm_verified _) fun _ => calm_pure _) fun _ =>
      calm_bind (calm_set _ _ _) fun _ => calm_pure _)
    (calm_ite (calm_bind (calm_derive_from_seed _) fun _ => calm_bind (calm_set _ _ _) fun _ => calm_pure _)
      (calm_pure _)))

theorem calm_get_encrypted_blob (aeskey iv bytes : Bytes) : CalmTask (get_encrypted_blob wally aeskey iv bytes) :=
  calm_bind (calm_bind (calm_ensure _) fun _ => calm_bind (calm_ensure _) fun _ => calm_pure _) fun _ => calm_pure _

theorem calm_aes_decrypt_bytes (aeskey bytes : Bytes) (output_len : Nat) :
    CalmTask (aes_decrypt_bytes wally aeskey bytes output_len) := by
  refine calm_bind (calm_ensure _) fun _ => calm_bind (calm_ensure _) fun _ => calm_bind (calm_ensure _) fun _ => ?_
  split
  · exact calm_pure _
  · exact calm_pure _

theorem calm_init_cache : CalmTask (keychain_init_cache : Task K Unit) := by
  have network : Proc.Keeps Calm storage_get_network_type_restriction := by
    refine Proc.keeps_bind calm_trans (calm_read_blob_fixed _ _) fun value => ?_
    cases value with
    | none => exact Proc.keeps_pure calm_refl _
    | some value => exact Proc.keeps_pure calm_refl _
  exact calm_bind (calm_onDevice network) fun _ => calm_bind calm_attempts_remaining fun _ =>
    calm_bind (calm_onDevice (calm_read_byte _)) fun _ => calm_modify _

/-! ### Calls that check -/

theorem CalmTask.wp_bounded {task : Task K α} (calm : CalmTask task) {jade : Jade K} (bounded : Bounded jade.device) :
    Proc.wp task (fun _ after => Bounded after.device) (fun _ after => Bounded after.device) jade := by
  refine Proc.wp_mono (calm.wp jade) ?_ ?_
  · intro _ _ calm'
    exact bounded_of_calm bounded calm'
  · intro _ _ calm'
    exact bounded_of_calm bounded calm'

/-- The check of a blob that an attempt was spent on. -/
theorem wp_get_decrypted_payload {jade : Jade K} {dev : Device} (bounded : Bounded dev) (spent : Spent dev jade.device)
    (aeskey bytes : Bytes) (output_len : Nat) :
    Proc.wp (get_decrypted_payload wally aeskey bytes output_len)
      (fun output after => Bounded after.device ∧ (output ≠ none → Restored after.device))
      (fun _ after => Bounded after.device) jade := by
  rw [get_decrypted_payload, Proc.wp_bind, wp_keychain_ensure]
  have checked := bounded_of_check bounded spent jade.device.answers
  split
  · rw [Proc.wp_bind, wp_record]
    split
    · exact ⟨checked, fun impossible => absurd rfl impossible⟩
    · rw [Proc.wp_bind]
      refine Proc.wp_mono ((calm_aes_decrypt_bytes aeskey _ output_len).wp _) ?_ ?_
      · intro output after calm
        have bounded' := bounded_of_calm checked calm
        cases output with
        | none => exact ⟨bounded', fun impossible => absurd rfl impossible⟩
        | some output =>
          have freed := @bounded_of_restore after.device bounded' .decrypted rfl after.device.nvs_storage
            after.device.durable after.device.answers
          exact ⟨freed, fun _ => ⟨freed, checks_snoc _ _⟩⟩
      · intro _ after calm
        exact bounded_of_calm checked calm
  · exact bounded_of_calm bounded (calm_of_spent spent)

theorem spent_answers {dev after : Device} (spent : Spent dev after) (answers : List Answer) :
    Spent dev { after with answers := answers } :=
  ⟨spent.positive, spent.small, spent.counter, spent.durable, spent.log⟩

theorem wp_load_and_decrypt_blob {jade : Jade K} (bounded : Bounded jade.device) (aeskey : Bytes) (blob_len : Nat) :
    Proc.wp (keychain_load_and_decrypt_blob wally aeskey blob_len) (fun _ after => Bounded after.device)
      (fun _ after => Bounded after.device) jade := by
  rw [keychain_load_and_decrypt_blob]
  split
  · exact bounded
  · rw [Proc.wp_bind, wp_get]
    split
    · exact calm_refused.wp_bounded bounded
    · rw [Proc.wp_bind, wp_onDevice]
      refine Proc.wp_mono (wp_decrement_counter jade.device) ?_ ?_
      · intro ok between ends
        cases ok with
        | false => exact calm_refused.wp_bounded (bounded_of_calm bounded ends)
        | true =>
          have spent : Spent jade.device between := ends
          have bounded' := bounded_of_calm bounded (calm_of_spent spent)
          simp only [Bool.not_true, Bool.false_eq_true, ↓reduceIte]
          rw [Proc.wp_bind, wp_onDevice]
          apply wp_read_blob
          · intro encrypted answers _ _
            rw [Proc.wp_bind]
            refine Proc.wp_mono (wp_get_decrypted_payload bounded (spent_answers spent answers) aeskey encrypted blob_len)
              ?_ ?_
            · intro output after checked
              cases output with
              | none =>
                refine (calm_bind calm_attempts_remaining fun _ => calm_ite
                  (calm_bind calm_erase_encrypted fun _ => calm_pure _) (calm_pure _)).wp_bounded checked.1
              | some output =>
                rw [Proc.wp_bind, wp_onDevice]
                refine Proc.wp_mono (wp_restore_counter (checked.2 (by simp))) ?_ ?_
                · intro _ _ restored
                  exact restored.1
                · intro _ _ restored
                  exact restored.1
            · intro _ after bounded''
              exact bounded''
          · intro answers
            refine (calm_bind (calm_onDevice calm_erase_encrypted_blob) fun _ => calm_bind (calm_modify _) fun _ =>
              calm_pure _).wp_bounded ?_
            exact bounded_of_calm bounded' (calm_answers _ _)
          · intro answers
            exact bounded_of_calm bounded' (calm_answers _ _)
      · intro _ _ calm
        exact bounded_of_calm bounded calm

/-- A counter that grants no attempt leads to no check. -/
theorem wp_load_and_decrypt_refused {jade : Jade K} (nothing : attempts jade.device.nvs_storage = 0) (aeskey : Bytes)
    (blob_len : Nat) :
    Proc.wp (keychain_load_and_decrypt_blob wally aeskey blob_len)
      (fun blob after => blob = none ∧ Calm jade.device after.device) (fun _ after => Calm jade.device after.device)
      jade := by
  have refused : ∀ between : Jade K, Calm jade.device between.device →
      Proc.wp keychain_load_and_decrypt_blob.refused (fun blob after => blob = none ∧ Calm jade.device after.device)
        (fun _ after => Calm jade.device after.device) between := by
    intro between calm
    rw [keychain_load_and_decrypt_blob.refused, Proc.wp_bind]
    refine Proc.wp_mono (calm_attempts_remaining.wp between) ?_ ?_
    · intro _ after calm'
      exact ⟨rfl, calm_trans _ _ _ calm calm'⟩
    · intro _ after calm'
      exact calm_trans _ _ _ calm calm'
  rw [keychain_load_and_decrypt_blob]
  split
  · exact ⟨rfl, calm_refl _⟩
  · rw [Proc.wp_bind, wp_get]
    split
    · exact refused jade (calm_refl _)
    · rw [Proc.wp_bind, wp_onDevice]
      refine Proc.wp_mono (wp_decrement_counter jade.device) ?_ ?_
      · intro ok between ends
        cases ok with
        | false => exact refused { jade with device := between } ends
        | true =>
          have left := attempts_of_spent (show Spent jade.device between from ends)
          omega
      · intro _ _ calm
        exact calm

theorem wp_encrypt_and_save_blob {jade : Jade K} (bounded : Bounded jade.device) (aeskey iv cleartext_blob : Bytes) :
    Proc.wp (keychain_encrypt_and_save_blob wally aeskey iv cleartext_blob) (fun _ after => Bounded after.device)
      (fun _ after => Bounded after.device) jade := by
  rw [keychain_encrypt_and_save_blob]
  split
  · exact bounded
  · split
    · exact bounded
    · rw [Proc.wp_bind]
      refine Proc.wp_mono ((calm_get_encrypted_blob aeskey iv cleartext_blob).wp_bounded bounded) ?_ ?_
      · intro encrypted between bounded'
        rw [wp_onDevice]
        exact wp_set_encrypted_blob bounded' encrypted
      · intro _ _ bounded'
        exact bounded'

theorem wp_keychain_load {jade : Jade K} (bounded : Bounded jade.device) (aeskey : Bytes) :
    Proc.wp (keychain_load wally aeskey) (fun _ after => Bounded after.device) (fun _ after => Bounded after.device)
      jade := by
  rw [keychain_load]
  split
  · exact bounded
  · rw [Proc.wp_bind, wp_get, Proc.wp_bind, wp_get]
    split
    · exact bounded
    · rw [Proc.wp_bind, wp_get]
      split
      · exact bounded
      · rw [Proc.wp_bind]
        refine Proc.wp_mono (wp_load_and_decrypt_blob bounded aeskey _) ?_ ?_
        · intro blob between bounded'
          cases blob with
          | none => exact bounded'
          | some serialized => exact (calm_restore serialized).wp_bounded bounded'
        · intro _ _ bounded'
          exact bounded'

theorem wp_keychain_reencrypt {jade : Jade K} (bounded : Bounded jade.device) (curr_aeskey new_aeskey iv : Bytes) :
    Proc.wp (keychain_reencrypt wally curr_aeskey new_aeskey iv) (fun _ after => Bounded after.device)
      (fun _ after => Bounded after.device) jade := by
  rw [keychain_reencrypt]
  split
  · exact bounded
  · rw [Proc.wp_bind, wp_get]
    split
    · exact bounded
    · rw [Proc.wp_bind]
      refine Proc.wp_mono (wp_load_and_decrypt_blob bounded curr_aeskey _) ?_ ?_
      · intro blob between bounded'
        cases blob with
        | none => exact bounded'
        | some serialized => exact wp_encrypt_and_save_blob bounded' new_aeskey iv serialized
      · intro _ _ bounded'
        exact bounded'

theorem wp_save {jade : Jade K} (bounded : Bounded jade.device) (aeskey iv serialized : Bytes) :
    Proc.wp (keychain_store.save wally aeskey iv serialized) (fun _ after => Bounded after.device)
      (fun _ after => Bounded after.device) jade := by
  rw [keychain_store.save, Proc.wp_bind]
  refine Proc.wp_mono (wp_encrypt_and_save_blob bounded aeskey iv serialized) ?_ ?_
  · intro ok between bounded'
    exact (calm_ite (calm_bind calm_clear_network_type_restriction fun _ => calm_bind (calm_modify _) fun _ =>
      calm_pure _) (calm_pure _)).wp_bounded bounded'
  · intro _ _ bounded'
    exact bounded'

theorem wp_keychain_store {jade : Jade K} (bounded : Bounded jade.device) (aeskey iv : Bytes) :
    Proc.wp (keychain_store wally aeskey iv) (fun _ after => Bounded after.device)
      (fun _ after => Bounded after.device) jade := by
  rw [keychain_store]
  split
  · exact bounded
  · rw [Proc.wp_bind, wp_get]
    split
    · exact bounded
    · split
      · rw [Proc.wp_bind, wp_keychain_ensure]
        split
        · exact wp_save bounded _ _ _
        · exact bounded
      · split
        · rw [Proc.wp_bind, wp_keychain_ensure]
          split
          · exact wp_save bounded _ _ _
          · exact bounded
        · split
          · exact bounded
          · rw [Proc.wp_bind]
            refine Proc.wp_mono ((calm_bind (calm_verified _) fun _ => calm_pure _).wp_bounded bounded) ?_ ?_
            · intro serialized between bounded'
              exact wp_save bounded' _ _ _
            · intro _ _ bounded'
              exact bounded'

theorem calm_returning {task : Task K Unit} (calm : CalmTask task) : CalmTask (returning task) :=
  calm_bind calm fun _ => calm_pure _

theorem wp_call {jade : Jade K} (bounded : Bounded jade.device) (made : Call K) :
    Proc.wp (made.run wally) (fun _ after => Bounded after.device) (fun _ after => Bounded after.device) jade := by
  cases made with
  | set src userdata temporary => exact (calm_returning (calm_set _ _ _)).wp_bounded bounded
  | load_into_free_slot src userdata temporary => exact (calm_load_into_free_slot _ _ _).wp_bounded bounded
  | slot_activate position => exact (calm_returning (calm_slot_activate _)).wp_bounded bounded
  | slot_forget_active => exact (calm_returning calm_slot_forget_active).wp_bounded bounded
  | set_entropy mnemonic => exact (calm_returning (calm_set_entropy _)).wp_bounded bounded
  | clear => exact (calm_returning calm_clear).wp_bounded bounded
  | set_passphrase_frequency freq => exact (calm_returning (calm_set_passphrase_frequency _)).wp_bounded bounded
  | set_passphrase_type type => exact (calm_returning (calm_modifyFlags _)).wp_bounded bounded
  | set_confirm_export_blinding_key confirm_export => exact (calm_returning (calm_modifyFlags _)).wp_bounded bounded
  | persist_key_flags => exact (calm_returning calm_persist_key_flags).wp_bounded bounded
  | set_temporary => exact (calm_returning calm_set_temporary).wp_bounded bounded
  | cache_mnemonic_entropy mnemonic => exact (calm_returning (calm_cache_mnemonic_entropy _)).wp_bounded bounded
  | cache_slip39_master_secret master_secret =>
    exact (calm_returning (calm_cache_slip39_master_secret _)).wp_bounded bounded
  | clear_network_type_restriction => exact (calm_returning calm_clear_network_type_restriction).wp_bounded bounded
  | set_network_type_restriction network_type =>
    exact (calm_returning (calm_set_network_type_restriction _)).wp_bounded bounded
  | complete_derivation_with_passphrase passphrase => exact (calm_complete_derivation _).wp_bounded bounded
  | store aeskey iv => exact wp_keychain_store bounded aeskey iv
  | load aeskey => exact wp_keychain_load bounded aeskey
  | reencrypt curr_aeskey new_aeskey iv => exact wp_keychain_reencrypt bounded curr_aeskey new_aeskey iv
  | erase_encrypted => exact calm_erase_encrypted.wp_bounded bounded

/-! ### Runs -/

theorem bounded_fresh (durable : Contents) : Bounded (fresh wally durable).device := by
  have few := attempts_le durable
  refine ⟨?_, ?_, ?_, ?_⟩
  · show 0 + attempts durable ≤ 3
    omega
  · show 0 + attempts durable ≤ 3
    omega
  · intro front initial
    rw [List.prefix_nil.mp initial]
    exact Nat.zero_le 3
  · intro front rest split
    simp [fresh] at split

theorem bounded_restart {jade : Jade K} (bounded : Bounded jade.device) : Bounded (jade.restart wally).device :=
  ⟨bounded.durable, bounded.durable, bounded.before, bounded.guarded⟩

theorem bounded_step {jade : Jade K} (bounded : Bounded jade.device) (event : Keychain.Event K) :
    Bounded ((keychain wally).step jade event).device := by
  have task : Proc.wp (event.task wally) (fun _ after => Bounded after.device) (fun _ after => Bounded after.device)
      (event.start wally jade) := by
    cases event with
    | call made answers => exact wp_call (bounded_of_calm bounded (calm_answers _ answers)) made
    | boot answers =>
      exact (calm_returning calm_init_cache).wp_bounded (bounded_of_calm (bounded_restart bounded) (calm_answers _ answers))
  simp only [keychain, Keychain.Event.after]
  simp only [Proc.wp] at task
  split at task
  · next ran =>
    rw [ran]
    exact task
  · next ran =>
    rw [ran]
    exact bounded_restart task

/-- The calls that try a key on the stored blob. -/
inductive Tries : Call K → Prop where
  | load (aeskey : Bytes) : Tries (.load aeskey)
  | reencrypt (curr_aeskey new_aeskey iv : Bytes) : Tries (.reencrypt curr_aeskey new_aeskey iv)

theorem wp_refused {jade : Jade K} (nothing : attempts jade.device.nvs_storage = 0) {made : Call K} (tries : Tries made) :
    Proc.wp (made.run wally) (fun ok after => ok = false ∧ Calm jade.device after.device)
      (fun _ after => Calm jade.device after.device) jade := by
  cases tries with
  | load aeskey =>
    simp only [Call.run, keychain_load]
    split
    · exact ⟨rfl, calm_refl _⟩
    · rw [Proc.wp_bind, wp_get, Proc.wp_bind, wp_get]
      split
      · exact ⟨rfl, calm_refl _⟩
      · rw [Proc.wp_bind, wp_get]
        split
        · exact ⟨rfl, calm_refl _⟩
        · rw [Proc.wp_bind]
          refine Proc.wp_mono (wp_load_and_decrypt_refused nothing aeskey _) ?_ ?_
          · rintro blob between ⟨rfl, calm⟩
            exact ⟨rfl, calm⟩
          · intro _ _ calm
            exact calm
  | reencrypt curr_aeskey new_aeskey iv =>
    simp only [Call.run, keychain_reencrypt]
    split
    · exact ⟨rfl, calm_refl _⟩
    · rw [Proc.wp_bind, wp_get]
      split
      · exact ⟨rfl, calm_refl _⟩
      · rw [Proc.wp_bind]
        refine Proc.wp_mono (wp_load_and_decrypt_refused nothing curr_aeskey _) ?_ ?_
        · rintro blob between ⟨rfl, calm⟩
          exact ⟨rfl, calm⟩
        · intro _ _ calm
          exact calm

theorem attempts_eq_zero {contents : Contents} (outside : pinCounter contents = 0 ∨ 3 < pinCounter contents) :
    attempts contents = 0 := by
  rcases outside with zero | large
  · rw [attempts, zero]
    rfl
  · exact if_neg (UInt8.not_le.mpr large)

/-- With a counter of zero or above three no key is tried: the call does not succeed and
    what it logs is neither a check nor a decryption. -/
theorem step_refused {jade : Jade K} (outside : pinCounter jade.device.nvs_storage = 0 ∨
    3 < pinCounter jade.device.nvs_storage) {made : Call K} (tries : Tries made) (answers : List Answer) :
    (keychain wally).out jade (.call made answers) ≠ some (.ok true) ∧
      ∃ events, ((keychain wally).step jade (.call made answers)).device.log = jade.device.log ++ events ∧
        ∀ event ∈ events, Quiet event := by
  have task := @wp_refused K wally (jade.answering answers) (attempts_eq_zero outside) made tries
  simp only [keychain, Keychain.Event.after, Keychain.Event.task, Keychain.Event.start]
  simp only [Proc.wp] at task
  split at task
  · next ran =>
    obtain ⟨rfl, calm⟩ := task
    rw [ran]
    exact ⟨by simp, calm.quiet⟩
  · next ran =>
    rw [ran]
    exact ⟨by simp, task.quiet⟩

/-- In every run of the keychain, whatever the storage layer answers: between restoring
    events at most three checks are made, every check follows a counter of one to three
    that was decremented and committed, and other counters lead to no check. -/
theorem pin_attempts_bounded (wally : Wally K) (durable : Contents) (events : List (Keychain.Event K)) :
    let reached := (keychain wally).final (fresh wally durable) events
    (∀ before between after, reached.device.log = before ++ between ++ after →
      (∀ event ∈ between, restores event = false) → between.countP isCheck ≤ 3) ∧
    Guarded reached.device.log ∧
    ∀ made, Tries made → pinCounter reached.device.nvs_storage = 0 ∨ 3 < pinCounter reached.device.nvs_storage →
      ∀ answers, (keychain wally).out reached (.call made answers) ≠ some (.ok true) ∧
        ∃ later, ((keychain wally).step reached (.call made answers)).device.log = reached.device.log ++ later ∧
          ∀ event ∈ later, Quiet event := by
  intro reached
  have keeps : ∀ (jade : Jade K) event, Bounded jade.device → Bounded ((keychain wally).step jade event).device :=
    fun _ event bounded => bounded_step bounded event
  have bounded : Bounded reached.device := (keychain wally).final_always keeps (bounded_fresh durable) events
  refine ⟨?_, bounded.guarded, ?_⟩
  · intro before between after split unrestored
    exact countP_checks_le bounded.before split unrestored
  · intro made tries outside answers
    exact step_refused outside tries answers

end
end PiJade.PinAttempts
