import PiJade.Storage

/-!
Single fields of the store: what a write of one field leaves of the others, what it has
stored when it succeeds, where storage code can end early, and what it does when every call
of the storage layer works.
-/
namespace PiJade.Storage
set_option linter.unusedSimpArgs false

/-! ### Fields of the store -/

/-- A field of the default map, in memory and in the copy. -/
structure Field (key : String) (value : Bytes) (dev : Device) : Prop where
  memory : dev.nvs_storage defaultMap key = some value
  durable : dev.durable defaultMap key = some value

/-- Code that leaves a field as it is: the copy may catch up with the memory. -/
structure Leaves (key : String) (dev after : Device) : Prop where
  memory : after.nvs_storage defaultMap key = dev.nvs_storage defaultMap key
  durable : after.durable defaultMap key = dev.durable defaultMap key ∨
    after.durable defaultMap key = dev.nvs_storage defaultMap key

theorem Leaves.field {key : String} {value : Bytes} {dev after : Device} (leaves : Leaves key dev after)
    (field : Field key value dev) : Field key value after := by
  refine ⟨leaves.memory.trans field.memory, ?_⟩
  rcases leaves.durable with same | caught
  · exact same.trans field.durable
  · exact caught.trans field.memory

theorem leaves_refl (key : String) (dev : Device) : Leaves key dev dev := ⟨rfl, .inl rfl⟩

theorem bind_leaves (contents : Contents) {key name : String} (value : Option Bytes) (other : key ≠ name) :
    contents.bind defaultMap name value defaultMap key = contents defaultMap key := bind_other contents defaultMap value other

/-- A write of another field. -/
theorem leaves_store_blob {key name : String} (data : Bytes) (other : key ≠ name) :
    Proc.Keeps (Leaves key) (store_blob DEFAULT_NAMESPACE name data) := by
  apply Proc.keeps_of_wp
  intro dev
  rw [store_blob, Proc.wp_bind, Proc.wp_ensure]
  by_cases positive : 0 < data.length
  · rw [if_pos (decide_eq_true positive), open_edit_commit, Proc.wp_bind]
    apply wp_nvs_open
    · intro handle rest known given
      obtain rfl : defaultMap = handle := Option.some.inj known
      have edited : ∀ n, (dev.nvs_storage.edit defaultMap ([Edit.SET_BLOB name data].take n)) defaultMap key =
          dev.nvs_storage defaultMap key := by
        intro n
        cases n with
        | zero => rfl
        | succ n =>
          rw [List.take_succ_cons, List.take_nil, edit_cons, edit_nil]
          exact bind_leaves dev.nvs_storage _ other
      apply wp_edit_commit
      · intro n persisted rest' bound answers written _
        refine ⟨edited n, ?_⟩
        cases written with
        | true => exact .inr (edited n)
        | false => exact .inl rfl
      · intro rest' answers
        exact ⟨edited 1, .inr (edited 1)⟩
      · intro n bound answers
        exact ⟨edited n, .inl rfl⟩
    · intro first rest given unknown
      exact ⟨rfl, .inl rfl⟩
    · intro none
      exact leaves_refl key dev
  · rw [if_neg (by simpa using positive)]
    exact leaves_refl key dev

/-- A write that succeeds has its value in memory and in the copy. -/
theorem wp_store_blob {dev : Device} {name : String} {data : Bytes} (positive : 0 < data.length) :
    Proc.wp (store_blob DEFAULT_NAMESPACE name data) (fun ok after => ok = true →
      after.nvs_storage = dev.nvs_storage.bind defaultMap name (some data) ∧ after.durable = after.nvs_storage)
      (fun halt _ => halt = .error .power_cut) dev := by
  rw [store_blob, Proc.wp_bind, Proc.wp_ensure, if_pos (decide_eq_true positive), open_edit_commit, Proc.wp_bind]
  apply wp_nvs_open
  · intro handle rest known given
    obtain rfl : defaultMap = handle := Option.some.inj known
    apply wp_edit_commit
    · intro n persisted rest' bound answers written _ impossible
      cases impossible
    · intro rest' answers _
      exact ⟨rfl, rfl⟩
    · intro n bound answers
      rfl
  · intro first rest given unknown impossible
    cases impossible
  · intro none
    rfl

theorem wp_set_encrypted_blob_fields {dev : Device} {encrypted : Bytes} (positive : 0 < encrypted.length) :
    Proc.wp (storage_set_encrypted_blob encrypted)
      (fun ok after => ok = true → Field PIN_COUNTER_FIELD [3] after ∧ Field BLOB_FIELD encrypted after)
      (fun halt _ => halt = .error .power_cut) dev := by
  rw [storage_set_encrypted_blob, Proc.wp_bind, record, Proc.wp_update, Proc.wp_bind]
  refine Proc.wp_mono (wp_store_blob (by decide)) ?_ fun _ _ cut => cut
  intro ok restored counter
  cases ok with
  | false =>
    intro impossible
    cases impossible
  | true =>
    obtain ⟨memory, durable⟩ := counter rfl
    have field : Field PIN_COUNTER_FIELD [3] restored := by
      constructor
      · rw [memory, bind_same]
      · rw [durable, memory, bind_same]
    have leaves := (leaves_store_blob encrypted (by decide : PIN_COUNTER_FIELD ≠ BLOB_FIELD)).wp restored
    refine Proc.wp_mono (Proc.wp_and leaves (wp_store_blob positive)) ?_ fun _ _ halted => halted.2
    intro ok after both done
    obtain ⟨memory', durable'⟩ := both.2 done
    refine ⟨both.1.field field, ?_, ?_⟩
    · rw [memory', bind_same]
    · rw [durable', memory', bind_same]

/-- Storage code that ends early only where the power is cut. -/
def CutOnly {α : Type} (code : Code α) : Prop :=
  ∀ dev, Proc.wp code (fun _ _ => True) (fun halt _ => halt = .error .power_cut) dev

theorem cutOnly_bind {α β : Type} {code : Code α} {next : α → Code β} (first : CutOnly code)
    (later : ∀ value, CutOnly (next value)) : CutOnly (code >>= next) := by
  intro dev
  rw [Proc.wp_bind]
  exact Proc.wp_mono (first dev) (fun value after _ => later value after) fun _ _ halted => halted

theorem cutOnly_pure {α : Type} (value : α) : CutOnly (pure value : Code α) := fun _ => trivial

theorem cutOnly_store_blob {name : String} {data : Bytes} (positive : 0 < data.length) :
    CutOnly (store_blob DEFAULT_NAMESPACE name data) := fun _ =>
  Proc.wp_mono (wp_store_blob positive) (fun _ _ _ => trivial) fun _ _ halted => halted

theorem cutOnly_erase_key (name : String) : CutOnly (erase_key DEFAULT_NAMESPACE name) := by
  intro dev
  rw [erase_key, open_edit_commit, Proc.wp_bind]
  apply wp_nvs_open
  · intro handle rest known given
    apply wp_edit_commit
    · intros
      trivial
    · intros
      trivial
    · intros
      rfl
  · intros
    trivial
  · intros
    rfl

theorem cutOnly_erase_encrypted_blob : CutOnly storage_erase_encrypted_blob := by
  apply cutOnly_bind (cutOnly_erase_key _)
  intro erased
  cases erased with
  | true => exact cutOnly_bind (cutOnly_erase_key _) fun _ => cutOnly_pure _
  | false => exact cutOnly_bind (cutOnly_store_blob (by decide)) fun _ => cutOnly_pure _

theorem wp_read_byte {dev : Device} {name : String} {post : UInt8 → Device → Prop} {halts : Halt Interrupt → Device → Prop}
    (value : ∀ byte answers, post byte { dev with answers := answers })
    (cut : ∀ answers, halts (.error .power_cut) { dev with answers := answers }) :
    Proc.wp (read_byte name) post halts dev := by
  rw [read_byte, Proc.wp_bind]
  apply wp_read_blob_fixed
  · intro data answers held single
    obtain ⟨byte, rfl⟩ := List.length_eq_one_iff.mp single
    exact value byte answers
  · intro answers
    exact value 0 answers
  · exact cut

theorem cutOnly_get_counter : CutOnly storage_get_counter := by
  intro dev
  rw [storage_get_counter, Proc.wp_bind]
  apply wp_read_byte
  · intros
    trivial
  · intros
    rfl

/-- A decrement that succeeds leaves the blob. -/
theorem wp_decrement_counter_blob {dev : Device} :
    Proc.wp storage_decrement_counter
      (fun ok after => ok = true → after.nvs_storage defaultMap BLOB_FIELD = dev.nvs_storage defaultMap BLOB_FIELD)
      (fun halt _ => halt = .error .power_cut) dev := by
  have gives_up : ∀ between, Proc.wp (do let _ ← storage_erase_encrypted_blob; pure false)
      (fun ok after => ok = true → after.nvs_storage defaultMap BLOB_FIELD = dev.nvs_storage defaultMap BLOB_FIELD)
      (fun halt _ => halt = .error .power_cut) between := by
    intro between
    rw [Proc.wp_bind]
    refine Proc.wp_mono (cutOnly_erase_encrypted_blob between) ?_ fun _ _ halted => halted
    intro _ _ _ impossible
    cases impossible
  rw [storage_decrement_counter, storage_get_counter]
  simp only [Proc.wp_bind]
  apply wp_read_byte
  · intro counter answers
    rw [record, Proc.wp_bind, Proc.wp_update, Proc.wp_pure]
    by_cases invalid : (counter == 0 || decide (counter > 3)) = true
    · rw [if_pos invalid]
      exact gives_up _
    · rw [if_neg invalid, Proc.wp_bind]
      refine Proc.wp_mono (wp_store_blob Nat.one_pos) ?_ fun _ _ halted => halted
      intro ok after stored
      cases ok with
      | false => exact gives_up after
      | true =>
        intro _
        rw [(stored rfl).1]
        exact bind_leaves _ _ (by decide)
  · intros
    rfl

/-! ### Storage that works -/

/-- The next `n` calls of the storage layer work. -/
def Works (n : Nat) (answers : List Answer) : Prop := List.replicate n Answer.ok <+: answers

section
variable {dev : Device} {n : Nat} {halts : Halt Interrupt → Device → Prop}

theorem wp_works_answer {post : Answer → Device → Prop} (works : Works (n + 1) dev.answers)
    (value : ∀ answers, Works n answers → post .ok { dev with answers := answers }) :
    Proc.wp answer post halts dev := by
  obtain ⟨rest, given⟩ := works
  rw [List.replicate_succ, List.cons_append] at given
  apply wp_answer
  · intro first rest' answers
    rw [← given] at answers
    obtain ⟨rfl, rfl⟩ := List.cons.inj answers
    exact value _ ⟨rest, rfl⟩
  · intro none
    rw [← given] at none
    cases none

theorem wp_works_open {post : Option (Fin 5) → Device → Prop} (works : Works (n + 1) dev.answers)
    (value : ∀ answers, Works n answers → post (some defaultMap) { dev with answers := answers }) :
    Proc.wp (nvs_open DEFAULT_NAMESPACE) post halts dev := by
  rw [nvs_open, Proc.wp_bind]
  apply wp_works_answer works
  intro answers works
  exact value answers works

theorem wp_works_read_blob {name : String} {len : Nat} {post : Option Bytes → Device → Prop} (works : Works (n + 2) dev.answers)
    (value : ∀ result answers, Works n answers →
      (∀ data, dev.nvs_storage defaultMap name = some data → data.length ≤ len → result = some data) →
      post result { dev with answers := answers }) :
    Proc.wp (read_blob DEFAULT_NAMESPACE name len) post halts dev := by
  rw [read_blob, Proc.wp_bind]
  apply wp_works_open works
  intro answers works
  dsimp only
  rw [nvs_get_blob, Proc.wp_bind, Proc.wp_bind]
  apply wp_works_answer works
  intro answers works
  simp only [Proc.wp_bind, Proc.wp_read]
  cases held : dev.nvs_storage defaultMap name with
  | none =>
    apply value _ _ works
    intro data known
    rw [held] at known
    cases known
  | some data =>
    by_cases long : len < data.length
    · simp only [long, ↓reduceIte, Proc.wp_pure]
      apply value _ _ works
      intro other known fits
      rw [held] at known
      cases known
      exact absurd fits (Nat.not_le.mpr long)
    · simp only [long, ↓reduceIte, Proc.wp_pure]
      apply value _ _ works
      intro other known _
      rw [← known, held]

theorem wp_works_read_blob_fixed {name : String} {len : Nat} {post : Option Bytes → Device → Prop}
    (works : Works (n + 2) dev.answers)
    (value : ∀ result answers, Works n answers →
      (∀ data, dev.nvs_storage defaultMap name = some data → data.length = len → result = some data) →
      post result { dev with answers := answers }) :
    Proc.wp (read_blob_fixed DEFAULT_NAMESPACE name len) post halts dev := by
  rw [read_blob_fixed, Proc.wp_bind]
  apply wp_works_read_blob works
  intro result answers works found
  cases result with
  | none =>
    apply value _ _ works
    intro data held exactly
    exact found data held exactly.le
  | some data =>
    by_cases exactly : data.length = len
    · simp only [exactly, ↓reduceIte, Proc.wp_pure]
      apply value _ _ works
      intro other held exactly'
      exact found other held exactly'.le
    · simp only [exactly, ↓reduceIte, Proc.wp_pure]
      apply value _ _ works
      intro other held exactly'
      obtain rfl := Option.some.inj (found other held exactly'.le)
      exact absurd exactly' exactly

theorem wp_works_read_byte {name : String} {post : UInt8 → Device → Prop} (works : Works (n + 2) dev.answers)
    (value : ∀ result answers, Works n answers →
      (∀ byte, dev.nvs_storage defaultMap name = some [byte] → result = byte) → post result { dev with answers := answers }) :
    Proc.wp (read_byte name) post halts dev := by
  rw [read_byte, Proc.wp_bind]
  apply wp_works_read_blob_fixed works
  intro result answers works found
  have same : ∀ byte, dev.nvs_storage defaultMap name = some [byte] → result = some [byte] :=
    fun byte held => found [byte] held rfl
  split
  case h_1 byte =>
    apply value _ _ works
    intro other held
    exact (List.cons.inj (Option.some.inj (same other held))).1
  case h_2 different =>
    apply value _ _ works
    intro other held
    exact absurd (same other held) (different other)

theorem wp_works_get_counter {post : UInt8 → Device → Prop} (works : Works (n + 2) dev.answers)
    (value : ∀ result after, Works n after.answers → after.nvs_storage = dev.nvs_storage →
      (∀ byte, dev.nvs_storage defaultMap PIN_COUNTER_FIELD = some [byte] → result = byte) → post result after) :
    Proc.wp storage_get_counter post halts dev := by
  rw [storage_get_counter, Proc.wp_bind]
  apply wp_works_read_byte works
  intro result answers works found
  exact value result _ works rfl found

theorem wp_works_get_network_type {post : NetworkType → Device → Prop} (works : Works (n + 2) dev.answers)
    (value : ∀ network answers, Works n answers → post network { dev with answers := answers }) :
    Proc.wp storage_get_network_type_restriction post halts dev := by
  rw [storage_get_network_type_restriction, Proc.wp_bind]
  apply wp_works_read_blob_fixed works
  intro result answers works _
  cases result with
  | none => exact value _ answers works
  | some data => exact value _ answers works

theorem wp_works_store_blob {name : String} {data : Bytes} {post : Bool → Device → Prop} (works : Works (n + 3) dev.answers)
    (positive : 0 < data.length)
    (value : ∀ after, after.nvs_storage = dev.nvs_storage.bind defaultMap name (some data) → Works n after.answers →
      post true after) : Proc.wp (store_blob DEFAULT_NAMESPACE name data) post halts dev := by
  rw [store_blob, Proc.wp_bind, Proc.wp_ensure, if_pos (decide_eq_true positive), open_edit_commit]
  rw [Proc.wp_bind]
  apply wp_works_open works
  intro answers works
  dsimp only
  rw [edit_commit, edit_all, Edit.apply, nvs_set_blob]
  simp only [Proc.wp_bind]
  apply wp_works_answer works
  intro answers works
  simp only [Proc.wp_bind, Proc.wp_update, Proc.wp_pure, beq_self_eq_true, ↓reduceIte, edit_all, nvs_commit]
  apply wp_works_answer works
  intro answers works
  exact value _ rfl works

end

end PiJade.Storage
