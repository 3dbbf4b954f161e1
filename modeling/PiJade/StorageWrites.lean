import PiJade.Storage

/-!
Failed writes. Every writing operation of the storage edits the maps in memory one call
after the other and commits them with the last one; no failure takes an edit back. So a
failed operation leaves the store as it was exactly when every edit made before the call
that failed found its value in place already, and else the next commit of any other
operation persists what is left of it.
-/
namespace PiJade.Storage
set_option linter.unusedSimpArgs false
open SettingsStore (write_le32 read_le32)

/-- The operations that write. -/
inductive Write where
  | store_blob (ns name : String) (data : Bytes)
  | store_string (ns name : String) (str : Bytes)
  | erase_key (ns name : String)
  | set_pinserver_details (urlA urlB pubkey : Bytes)
  | erase_pinserver_details
  | get_replay_counter (le_value : Bytes)
  deriving DecidableEq, Repr

/-- An operation, by whether it reports success. -/
def Write.run : Write → Code Bool
  | store_blob ns name data => Storage.store_blob ns name data
  | store_string ns name str => Storage.store_string ns name str
  | erase_key ns name => Storage.erase_key ns name
  | set_pinserver_details urlA urlB pubkey => storage_set_pinserver_details urlA urlB pubkey
  | erase_pinserver_details => storage_erase_pinserver_details
  | get_replay_counter le_value => do pure (← storage_get_replay_counter le_value).isSome

/-- If the operation reports failure, the maps in memory are those before it. -/
def Atomic (write : Write) (dev : Device) : Prop :=
  ∀ after, write.run dev = (.ok false, after) → after.nvs_storage = dev.nvs_storage

/-- The map an operation edits, the nvs calls it makes before the first edit, and the edits. -/
structure Plan where
  handle : Fin 5
  before : Nat
  edits : List Edit

/-- The counter in use. -/
def replayCounter (contents : Contents) (le_value : Bytes) : UInt32 :=
  match contents defaultMap REPLAY_COUNTER_FIELD with
  | none => 0
  | some value => if 4 < value.length then 0 else read_le32 (value ++ le_value.drop value.length)

/-- What an operation is going to do; `none` when no map has its name or an assertion stops it. -/
def Write.plan (contents : Contents) : Write → Option Plan
  | store_blob ns name data =>
    if 0 < data.length then (get_nvs_ns ns).map fun handle => ⟨handle, 1, [.SET_BLOB name data]⟩ else none
  | store_string ns name str => (get_nvs_ns ns).map fun handle => ⟨handle, 1, [.SET_STRING name str]⟩
  | erase_key ns name => (get_nvs_ns ns).map fun handle => ⟨handle, 1, [.ERASE name]⟩
  | set_pinserver_details urlA urlB pubkey => some ⟨defaultMap, 1,
    [.SET_STRING USER_PINSERVER_URL_A urlA, .SET_STRING USER_PINSERVER_URL_B urlB, .ERASE PIN_PRIVATEKEY_FIELD] ++
      if 0 < pubkey.length then [.SET_BLOB USER_PINSERVER_PUBKEY pubkey] else []⟩
  | erase_pinserver_details => some ⟨defaultMap, 1, [.ERASE USER_PINSERVER_URL_A, .ERASE USER_PINSERVER_URL_B,
    .ERASE USER_PINSERVER_PUBKEY, .ERASE PIN_PRIVATEKEY_FIELD]⟩
  | get_replay_counter le_value =>
    if replayCounter contents le_value < 0xFFFFFFFF then
      some ⟨defaultMap, 2, [.SET_BLOB REPLAY_COUNTER_FIELD (write_le32 (replayCounter contents le_value + 1))]⟩
    else none

/-- The first `n` calls work and the one after them fails. -/
def FailsAt (answers : List Answer) (n : Nat) : Prop :=
  ∃ persisted rest, answers = List.replicate n .ok ++ .failed persisted :: rest

/-- Every edit made before the call that fails finds its value in place. -/
def InPlace (write : Write) (dev : Device) : Prop :=
  ∀ plan, write.plan dev.nvs_storage = some plan →
    ∀ n, n ≤ plan.edits.length → FailsAt dev.answers (plan.before + n) →
      ∀ edit ∈ plan.edits.take n, dev.nvs_storage plan.handle edit.key = edit.value

/-! ### Edits in place -/

theorem edit_of_inPlace {contents : Contents} {handle : Fin 5} {edits : List Edit}
    (held : ∀ edit ∈ edits, contents handle edit.key = edit.value) : contents.edit handle edits = contents := by
  induction edits with
  | nil => rfl
  | cons first rest ih =>
    rw [edit_cons, bind_self (held first (by simp))]
    exact ih fun edit member => held edit (by simp [member])

theorem edit_untouched {contents : Contents} {handle : Fin 5} {key : String} {edits : List Edit}
    (absent : key ∉ edits.map Edit.key) : contents.edit handle edits handle key = contents handle key := by
  induction edits generalizing contents with
  | nil => rfl
  | cons first rest ih =>
    simp only [List.map_cons, List.mem_cons, not_or] at absent
    rw [edit_cons, ih absent.2]
    exact bind_other contents handle first.value absent.1

/-- With one edit for each key, every key edited holds its edit's value. -/
theorem edit_held {contents : Contents} {handle : Fin 5} {edits : List Edit} (nodup : (edits.map Edit.key).Nodup)
    {edit : Edit} (member : edit ∈ edits) : contents.edit handle edits handle edit.key = edit.value := by
  induction edits generalizing contents with
  | nil => simp at member
  | cons first rest ih =>
    obtain ⟨fresh, others⟩ := List.nodup_cons.mp nodup
    rw [edit_cons]
    rcases List.mem_cons.mp member with rfl | later
    · rw [edit_untouched fresh]
      exact bind_same contents handle edit.key edit.value
    · exact ih others later

/-- Edits with distinct keys change nothing exactly when each is in place. -/
theorem edit_eq_self_iff {contents : Contents} {handle : Fin 5} {edits : List Edit}
    (nodup : (edits.map Edit.key).Nodup) :
    contents.edit handle edits = contents ↔ ∀ edit ∈ edits, contents handle edit.key = edit.value := by
  constructor
  · intro same edit member
    have held : contents.edit handle edits handle edit.key = edit.value := edit_held nodup member
    rwa [same] at held
  · exact edit_of_inPlace

theorem plan_nodup {write : Write} {contents : Contents} {plan : Plan} (planned : write.plan contents = some plan) :
    (plan.edits.map Edit.key).Nodup := by
  cases write with
  | store_blob ns name data =>
    simp only [Write.plan, Option.ite_none_right_eq_some, Option.map_eq_some_iff] at planned
    obtain ⟨_, _, _, rfl⟩ := planned
    simp
  | store_string ns name str =>
    simp only [Write.plan, Option.map_eq_some_iff] at planned
    obtain ⟨_, _, rfl⟩ := planned
    simp
  | erase_key ns name =>
    simp only [Write.plan, Option.map_eq_some_iff] at planned
    obtain ⟨_, _, rfl⟩ := planned
    simp
  | set_pinserver_details urlA urlB pubkey =>
    obtain rfl := Option.some.inj planned
    by_cases given : 0 < pubkey.length
    · simp only [given, ↓reduceIte, List.map_append, List.map_cons, List.map_nil, Edit.key]
      decide
    · simp only [given, ↓reduceIte, List.append_nil, List.map_cons, List.map_nil, Edit.key]
      decide
  | erase_pinserver_details =>
    obtain rfl := Option.some.inj planned
    decide
  | get_replay_counter le_value =>
    simp only [Write.plan, Option.ite_none_right_eq_some, Option.some.injEq] at planned
    obtain ⟨_, rfl⟩ := planned
    simp

/-! ### Which call fails -/

theorem failsAt_unique {answers : List Answer} {n m : Nat} (first : FailsAt answers n) (second : FailsAt answers m) :
    n = m := by
  obtain ⟨persisted, rest, rfl⟩ := first
  obtain ⟨persisted', rest', same⟩ := second
  induction n generalizing m with
  | zero =>
    cases m with
    | zero => rfl
    | succ m => simp [List.replicate_succ] at same
  | succ n ih =>
    cases m with
    | zero => simp [List.replicate_succ] at same
    | succ m =>
      simp only [List.replicate_succ, List.cons_append, List.cons.injEq, true_and] at same
      rw [ih same]

/-- Answers without a failure among the first `m` fail later, if at all. -/
theorem le_of_failsAt {answers rest : List Answer} {n m : Nat} (fails : FailsAt answers n)
    (worked : answers = List.replicate m .ok ++ rest) : m ≤ n := by
  obtain ⟨persisted, after, rfl⟩ := fails
  by_contra later
  have at_n := congrArg (fun l => l[n]?) worked
  simp only [List.getElem?_append_right, List.length_replicate, le_refl, Nat.sub_self, List.getElem?_cons_zero,
    List.getElem?_append_left, Nat.lt_of_not_le later, List.getElem?_replicate, ↓reduceIte] at at_n
  cases at_n

theorem failsAt_add {answers rest : List Answer} {n m : Nat} (worked : answers = List.replicate m .ok ++ rest)
    (fails : FailsAt rest n) : FailsAt answers (m + n) := by
  obtain ⟨persisted, after, rfl⟩ := fails
  exact ⟨persisted, after, by rw [worked, List.replicate_add, List.append_assoc]⟩

/-! ### How an operation ends -/

section
variable {post : Bool → Device → Prop} {halts : Halt Interrupt → Device → Prop} {dev : Device}

/-- Edits and commit after `m` calls that worked. -/
theorem wp_edits {handle : Fin 5} {edits : List Edit} {m : Nat} {rest : List Answer}
    (worked : dev.answers = List.replicate m .ok ++ rest)
    (failed : ∀ n, n ≤ edits.length → FailsAt dev.answers (m + n) → ∀ durable answers, post false { dev with
      nvs_storage := dev.nvs_storage.edit handle (edits.take n), durable := durable, answers := answers })
    (done : ∀ rest after, dev.answers = List.replicate (m + edits.length + 1) .ok ++ rest → post true after)
    (cut : ∀ n after, dev.answers = List.replicate n .ok → halts (.error .power_cut) after) :
    Proc.wp (edit_commit handle edits) post halts { dev with answers := rest } := by
  apply wp_edit_commit
  · intro n persisted left bound answers written _
    exact failed n bound (failsAt_add worked ⟨persisted, left, answers⟩) _ left
  · intro left answers
    apply done left
    rw [worked, show rest = _ from answers, ← List.append_assoc, ← List.replicate_add, Nat.add_assoc]
  · intro n bound answers
    apply cut (m + n)
    rw [worked, show rest = _ from answers, ← List.replicate_add]

theorem wp_open_edits {ns : String} {handle : Fin 5} {edits : List Edit} (known : get_nvs_ns ns = some handle)
    (early : FailsAt dev.answers 0 → ∀ answers, post false { dev with answers := answers })
    (failed : ∀ n, n ≤ edits.length → FailsAt dev.answers (1 + n) → ∀ durable answers, post false { dev with
      nvs_storage := dev.nvs_storage.edit handle (edits.take n), durable := durable, answers := answers })
    (done : ∀ rest after, dev.answers = List.replicate (1 + edits.length + 1) .ok ++ rest → post true after)
    (cut : ∀ n after, dev.answers = List.replicate n .ok → halts (.error .power_cut) after) :
    Proc.wp (open_edit_commit ns edits) post halts dev := by
  simp only [open_edit_commit, Proc.wp_bind]
  apply wp_nvs_open
  · intro handle' rest known' given
    obtain rfl : handle = handle' := Option.some.inj (known.symm.trans known')
    exact wp_edits (show dev.answers = List.replicate 1 .ok ++ rest from given) failed done cut
  · intro first rest given unopened
    cases first with
    | ok => exact absurd (known.symm.trans (unopened rfl)) (by simp)
    | failed persisted => exact early ⟨persisted, rest, given⟩ rest
  · intro ended
    exact cut 0 dev ended

theorem wp_open_unknown {ns : String} {edits : List Edit} (unknown : get_nvs_ns ns = none)
    (failed : ∀ answers, post false { dev with answers := answers }) (halted : ∀ how after, halts how after) :
    Proc.wp (open_edit_commit ns edits) post halts dev := by
  simp only [open_edit_commit, Proc.wp_bind]
  apply wp_nvs_open
  · intro handle rest known
    exact absurd (known.symm.trans unknown) (by simp)
  · intro first rest _ _
    exact failed rest
  · intro _
    exact halted _ _

/-- The replay counter is read between opening and editing. -/
theorem wp_get_replay_counter {le_value : Bytes}
    (early : ∀ n, n < 2 → FailsAt dev.answers n → ∀ answers, post false { dev with answers := answers })
    (next : ∀ rest, dev.answers = List.replicate 2 .ok ++ rest →
      Proc.wp (storage_get_replay_counter.next defaultMap (replayCounter dev.nvs_storage le_value))
        (fun counter => post counter.isSome) halts { dev with answers := rest })
    (cut : ∀ n after, dev.answers = List.replicate n .ok → halts (.error .power_cut) after) :
    Proc.wp (Write.get_replay_counter le_value).run post halts dev := by
  simp only [Write.run, storage_get_replay_counter, Proc.wp_bind, Proc.wp_pure]
  apply wp_nvs_open
  · intro handle rest known given
    obtain rfl : defaultMap = handle := Option.some.inj known
    simp only [nvs_get_u32, nvs_get_blob, Proc.wp_bind]
    apply wp_answer
    · intro first rest' given'
      have both : dev.answers = [.ok] ++ (first :: rest') := by
        rw [given]
        exact congrArg _ given'
      cases first with
      | ok =>
        have counted := next rest' both
        simp only [Proc.wp_bind, Proc.wp_read]
        simp only [replayCounter] at counted
        cases held : dev.nvs_storage defaultMap REPLAY_COUNTER_FIELD with
        | none =>
          rw [held] at counted
          exact counted
        | some value =>
          rw [held] at counted
          by_cases long : 4 < value.length
          · simp only [long, ↓reduceIte] at counted ⊢
            exact counted
          · simp only [long, ↓reduceIte] at counted ⊢
            exact counted
      | failed persisted => exact early 1 (by decide) ⟨persisted, rest', both⟩ rest'
    · intro ended
      apply cut 1
      rw [given]
      exact congrArg _ ended
  · intro first rest given unopened
    cases first with
    | ok => exact absurd (unopened rfl) (by decide)
    | failed persisted => exact early 0 (by decide) ⟨persisted, rest, given⟩ rest
  · intro ended
    exact cut 0 dev ended

/-- An operation that has its plan ends by the first call that fails. -/
theorem wp_planned {write : Write} {plan : Plan} (planned : write.plan dev.nvs_storage = some plan)
    (early : ∀ n, n < plan.before → FailsAt dev.answers n → ∀ answers, post false { dev with answers := answers })
    (failed : ∀ n, n ≤ plan.edits.length → FailsAt dev.answers (plan.before + n) →
      ∀ durable answers, post false { dev with
        nvs_storage := dev.nvs_storage.edit plan.handle (plan.edits.take n), durable := durable, answers := answers })
    (done : ∀ rest after, dev.answers = List.replicate (plan.before + plan.edits.length + 1) .ok ++ rest →
      post true after)
    (cut : ∀ n after, dev.answers = List.replicate n .ok → halts (.error .power_cut) after) :
    Proc.wp write.run post halts dev := by
  cases write with
  | store_blob ns name data =>
    simp only [Write.plan, Option.ite_none_right_eq_some, Option.map_eq_some_iff] at planned
    obtain ⟨given, handle, known, rfl⟩ := planned
    simp only [Write.run, store_blob, given, decide_true, Check.ensure_true, Proc.wp_bind, Proc.wp_ok]
    exact wp_open_edits known (early 0 Nat.one_pos) failed done cut
  | store_string ns name str =>
    simp only [Write.plan, Option.map_eq_some_iff] at planned
    obtain ⟨handle, known, rfl⟩ := planned
    exact wp_open_edits known (early 0 Nat.one_pos) failed done cut
  | erase_key ns name =>
    simp only [Write.plan, Option.map_eq_some_iff] at planned
    obtain ⟨handle, known, rfl⟩ := planned
    exact wp_open_edits known (early 0 Nat.one_pos) failed done cut
  | set_pinserver_details urlA urlB pubkey =>
    obtain rfl := Option.some.inj planned
    exact wp_open_edits rfl (early 0 Nat.one_pos) failed done cut
  | erase_pinserver_details =>
    obtain rfl := Option.some.inj planned
    exact wp_open_edits rfl (early 0 Nat.one_pos) failed done cut
  | get_replay_counter le_value =>
    simp only [Write.plan, Option.ite_none_right_eq_some, Option.some.injEq] at planned
    obtain ⟨below, rfl⟩ := planned
    refine wp_get_replay_counter early ?_ cut
    intro rest worked
    simp only [storage_get_replay_counter.next, below, decide_true, Check.ensure_true, Proc.wp_bind, Proc.wp_ok]
    apply wp_edits worked
    · exact failed
    · exact done
    · exact cut

/-- An operation without a plan changes nothing. -/
theorem wp_unplanned {write : Write} (unplanned : write.plan dev.nvs_storage = none)
    (failed : ∀ answers, post false { dev with answers := answers }) (halted : ∀ how after, halts how after) :
    Proc.wp write.run post halts dev := by
  cases write with
  | store_blob ns name data =>
    by_cases given : 0 < data.length
    · simp only [Write.plan, given, ↓reduceIte, Option.map_eq_none_iff] at unplanned
      simp only [Write.run, store_blob, given, decide_true, Check.ensure_true, Proc.wp_bind, Proc.wp_ok]
      exact wp_open_unknown unplanned failed halted
    · simp only [Write.run, store_blob, given, decide_false, Check.ensure_false, Proc.wp_bind]
      exact halted _ _
  | store_string ns name str => exact wp_open_unknown (Option.map_eq_none_iff.mp unplanned) failed halted
  | erase_key ns name => exact wp_open_unknown (Option.map_eq_none_iff.mp unplanned) failed halted
  | set_pinserver_details urlA urlB pubkey => simp [Write.plan] at unplanned
  | erase_pinserver_details => simp [Write.plan] at unplanned
  | get_replay_counter le_value =>
    by_cases below : replayCounter dev.nvs_storage le_value < 0xFFFFFFFF
    · simp [Write.plan, below] at unplanned
    · apply wp_get_replay_counter
      · intro n _ _ answers
        exact failed answers
      · intro rest _
        simp only [storage_get_replay_counter.next, below, decide_false, Check.ensure_false, Proc.wp_bind]
        exact halted _ _
      · intro n after _
        exact halted _ _

end

/-! ### Atomicity -/

/-- A write that reports failure has left the store as it was exactly when every edit it
    made before the failing call found its value in place. -/
theorem atomic_iff_inPlace (write : Write) (dev : Device) : Atomic write dev ↔ InPlace write dev := by
  constructor
  · intro atomic plan planned n bound fails
    have ends : Proc.wp write.run (fun ok after => ok = false ∧
        after.nvs_storage = dev.nvs_storage.edit plan.handle (plan.edits.take n)) (fun _ _ => False) dev := by
      apply wp_planned planned
      · intro m early fails'
        have := failsAt_unique fails fails'
        omega
      · intro m _ fails' durable answers
        have same := failsAt_unique fails fails'
        obtain rfl : n = m := by omega
        exact ⟨rfl, rfl⟩
      · intro rest after worked
        have := le_of_failsAt fails worked
        omega
      · intro m after worked
        obtain ⟨persisted, rest, failing⟩ := fails
        have member : Answer.failed persisted ∈ List.replicate m .ok := by
          rw [← worked, failing]
          simp
        cases List.eq_of_mem_replicate member
    obtain ⟨ok, after, ran, rfl, edited⟩ := Proc.exists_of_wp ends
    have unchanged := (atomic after ran).symm.trans edited
    exact (edit_eq_self_iff ((plan_nodup planned).sublist ((List.take_sublist n _).map _))).mp unchanged.symm
  · intro inPlace after ran
    have kept : Proc.wp write.run (fun ok after => ok = false → after.nvs_storage = dev.nvs_storage)
        (fun _ _ => True) dev := by
      cases planned : write.plan dev.nvs_storage with
      | none =>
        apply wp_unplanned planned
        · intro answers _
          rfl
        · intro _ _
          trivial
      | some plan =>
        apply wp_planned planned
        · intro n _ _ answers _
          rfl
        · intro n bound fails durable answers _
          exact edit_of_inPlace (inPlace plan planned n bound fails)
        · intro rest after _ impossible
          cases impossible
        · intro n after _
          trivial
    exact Proc.post_of_wp kept ran rfl

/-- A store with nothing in it. -/
def emptyContents : Contents := fun _ _ => none

/-- The host refuses the commit: both urls stay in memory although the call reports
    failure. A second url that cannot be stored leaves the first one alone. -/
theorem set_pinserver_details_not_atomic :
    ¬ Atomic (.set_pinserver_details [65] [66] []) ⟨emptyContents, emptyContents, [.ok, .ok, .ok, .ok, .failed false], []⟩ ∧
      ¬ Atomic (.set_pinserver_details [65] [66] []) ⟨emptyContents, emptyContents, [.ok, .ok, .failed false], []⟩ := by
  constructor
  · intro atomic
    have unchanged := atomic _ rfl
    have urlA := congrFun (congrFun unchanged 0) USER_PINSERVER_URL_A
    revert urlA
    decide
  · intro atomic
    have unchanged := atomic _ rfl
    have urlA := congrFun (congrFun unchanged 0) USER_PINSERVER_URL_A
    revert urlA
    decide

end PiJade.Storage
