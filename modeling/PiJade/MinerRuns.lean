import PiJade.Miner

/-!
Runs of the miner. In every interleaving of the two tasks with the owner's calls, a task whose
`newwork` is clear works on the template that was accepted last, so a nonce it publishes then
belongs to that template, and a solution is the header, the nonce and the coinbase of one
template. A solution that is delivered has been published by the event just before.
-/
namespace PiJade.Miner
open Sha256 (beNat)
set_option linter.unusedSimpArgs false

/-- What the events of a run amount to: the template accepted last, the publication that waits
    to be delivered, and whether a template was accepted since a task took its work. -/
structure Ledger where
  template : Option Template
  pending : Option (TaskId × HeaderAndTarget × UInt32)
  replaced : TaskId → Bool

def Ledger.empty : Ledger := { template := none, pending := none, replaced := fun _ => false }

/-- A new template drops what was not delivered; a delivery is one of what was pending. -/
def Ledger.next (ledger : Ledger) : Event → Ledger
  | .accepted template => { template := some template, pending := none, replaced := fun _ => true }
  | .took id => { ledger with replaced := Function.update ledger.replaced id false }
  | .published id header nonce => { ledger with pending := some (id, header, nonce) }
  | .delivered _ => { ledger with pending := none }

def Ledger.after (ledger : Ledger) (events : List Event) : Ledger := events.foldl Ledger.next ledger

/-- The header with the nonce has a hash within the target. -/
def Meets (ht : HeaderAndTarget) (nonce : UInt32) : Prop :=
  beNat (Sha256.hash (Sha256.hash { ht.bh with nonce := nonce }.toBytes)).reverse ≤ beNat ht.target.toList

/-- A task that has no new work works on the template accepted last. -/
def Fresh (template : Option Template) (tctx : TaskCtx) (task : Task) : Prop :=
  tctx.newwork = false → ∃ current, template = some current ∧ task.header = current.ht

/-- The cached context is that of a nonce for the header. -/
def Hashing (task : Task) : Prop := ∃ nonce, task.midstate_cached = prepared task.header.bh.toBytes nonce

/-- What holds of a task at each place. A task that left the first park loop because of `stop`
    has no template, but goes no further than the head of its outer loop. -/
def TaskInv (template : Option Template) (tctx : TaskCtx) (task : Task) : Prop :=
  match task.pc with
  | .parkStop | .parkWork | .retired => True
  | .take => tctx.stop = true ∨ tctx.newwork = true
  | .outer => tctx.stop = true ∨ Fresh template tctx task
  | .waitStop | .waitWork => Fresh template tctx task
  | .verify | .checkWork | .checkStop => Fresh template tctx task ∧ Hashing task
  | .publish => Fresh template tctx task ∧ Hashing task ∧ Meets task.header (nonce_get task.midstate_cached)

/-- What holds between two steps. -/
structure Inv (ledger : Ledger) (world : World) : Prop where
  shared : ∀ template, ledger.template = some template →
    (∃ nonce, world.mctx.bh = { template.ht.bh with nonce := nonce }) ∧ world.mctx.rawtx = template.rawtx ∧
      ∀ id, (world.mctx.tasks id).ht = template.ht
  newwork : ∀ id, (world.mctx.tasks id).newwork = ledger.replaced id
  work : ∀ id, ledger.replaced id = true → ledger.template.isSome
  solution : world.mctx.solution_found = true → ∃ id template nonce,
    ledger.pending = some (id, template.ht, nonce) ∧ ledger.template = some template ∧
      world.mctx.bh = { template.ht.bh with nonce := nonce } ∧ Meets template.ht nonce
  tasks : ∀ id, TaskInv ledger.template (world.mctx.tasks id) (world.tasks id)

/-! ### Headers -/

theorem length_toBytes (bh : BlockHeader) : bh.toBytes.length = 80 := by
  simp [BlockHeader.toBytes]

theorem withNonce_toBytes (bh : BlockHeader) (nonce : UInt32) :
    withNonce bh.toBytes nonce = { bh with nonce := nonce }.toBytes := by
  have words (last : UInt32) : Bytes.ofWords [bh.timestamp, bh.bits, last] =
      Bytes.ofWords [bh.timestamp, bh.bits] ++ Bytes.ofWords [last] := rfl
  have front : (Bytes.ofWords [bh.version] ++ bh.prev_block.toList ++ bh.merkle_root.toList ++
      Bytes.ofWords [bh.timestamp, bh.bits]).length = 76 := by
    simp
  rw [withNonce, BlockHeader.toBytes, BlockHeader.toBytes, words, words, ← List.append_assoc, List.take_left' front,
    ← List.append_assoc]

theorem firstContext_eq (stack : Vector UInt32 48) (id : TaskId) (header : HeaderAndTarget) :
    firstContext stack id header = prepared header.bh.toBytes (nonce_start id) :=
  cached_set (length_toBytes _) (cached_start stack (length_toBytes _)) _

/-- A test that succeeds means that the header meets its target. -/
theorem meets_of_within {task : Task} (hashing : Hashing task)
    (within : (verify_nonce task.midstate_cached task.header.target.toList).1 = true) :
    Meets task.header (nonce_get task.midstate_cached) := by
  obtain ⟨nonce, cached⟩ := hashing
  have size := length_toBytes task.header.bh
  rw [cached, verify_nonce_prepared size nonce Vector.length_toList, decide_eq_true_eq, withNonce_toBytes] at within
  rw [cached, nonce_get_prepared size]
  exact within

/-! ### Steps of a task -/

/-- What a step of a task can do. -/
inductive Stepped (template : Option Template) (id : TaskId) (mctx : MinerCtx) (task : Task) :
    MinerCtx → Task → Option Event → Prop where
  | moved {next : Task} (keeps : TaskInv template (mctx.tasks id) next) : Stepped template id mctx task mctx next none
  | took (reason : (mctx.tasks id).stop = true ∨ (mctx.tasks id).newwork = true) :
      Stepped template id mctx task (take_new_work mctx id task).1 (take_new_work mctx id task).2 (some (.took id))
  | published (clear : (mctx.tasks id).newwork = false) (fresh : Fresh template (mctx.tasks id) task)
      (meets : Meets task.header (nonce_get task.midstate_cached)) :
      Stepped template id mctx task
        { mctx with bh := { mctx.bh with nonce := nonce_get task.midstate_cached }, solution_found := true }
        { task with pc := .waitStop } (some (.published id task.header (nonce_get task.midstate_cached)))
  | retired : Stepped template id mctx task (mctx.setTask id { mctx.tasks id with exited := true })
      { task with pc := .retired } none

theorem minertask_stepped {template : Option Template} {id : TaskId} {mctx : MinerCtx} {task : Task}
    (inv : TaskInv template (mctx.tasks id) task) (stack : Vector UInt32 48) :
    Stepped template id mctx task (minertask stack id mctx task).1 (minertask stack id mctx task).2
      (taskEvent id mctx task) := by
  obtain ⟨pc, header, midstate_cached⟩ := task
  cases pc with
  | parkStop =>
    cases stop : (mctx.tasks id).stop with
    | false =>
      simp only [minertask, taskEvent, stop]
      exact .moved trivial
    | true =>
      simp only [minertask, taskEvent, stop]
      exact .moved (.inl stop)
  | parkWork =>
    cases newwork : (mctx.tasks id).newwork with
    | false =>
      simp only [minertask, taskEvent, newwork]
      exact .moved trivial
    | true =>
      simp only [minertask, taskEvent, newwork]
      exact .moved (.inr newwork)
  | take => exact .took inv
  | outer =>
    cases stop : (mctx.tasks id).stop with
    | false =>
      have fresh : Fresh template (mctx.tasks id) _ := inv.resolve_left (by simp [stop])
      simp only [minertask, taskEvent, stop]
      exact .moved ⟨fresh, nonce_start id, firstContext_eq stack id header⟩
    | true =>
      have stops : minertask stack id mctx ⟨.outer, header, midstate_cached⟩ =
        (mctx.setTask id { mctx.tasks id with exited := true }, ⟨.retired, header, midstate_cached⟩) := if_pos stop
      rw [stops]
      exact .retired
  | verify =>
    obtain ⟨fresh, hashing⟩ := inv
    cases within : (verify_nonce midstate_cached header.target.toList).1 with
    | false =>
      simp only [minertask, taskEvent, within]
      exact .moved ⟨fresh, hashing⟩
    | true =>
      simp only [minertask, taskEvent, within]
      exact .moved ⟨fresh, hashing, meets_of_within hashing within⟩
  | publish =>
    obtain ⟨fresh, hashing, meets⟩ := inv
    cases newwork : (mctx.tasks id).newwork with
    | false =>
      simp only [minertask, taskEvent, newwork]
      exact .published newwork fresh meets
    | true =>
      simp only [minertask, taskEvent, newwork]
      exact .moved (.inr newwork)
  | waitStop =>
    cases stop : (mctx.tasks id).stop with
    | false =>
      simp only [minertask, taskEvent, stop]
      exact .moved inv
    | true =>
      simp only [minertask, taskEvent, stop]
      exact .moved (.inl stop)
  | waitWork =>
    cases newwork : (mctx.tasks id).newwork with
    | false =>
      simp only [minertask, taskEvent, newwork]
      exact .moved inv
    | true =>
      simp only [minertask, taskEvent, newwork]
      exact .moved (.inr newwork)
  | checkWork =>
    cases newwork : (mctx.tasks id).newwork with
    | false =>
      simp only [minertask, taskEvent, newwork]
      exact .moved inv
    | true =>
      simp only [minertask, taskEvent, newwork]
      exact .moved (.inr newwork)
  | checkStop =>
    obtain ⟨fresh, nonce, cached⟩ := inv
    cases stop : (mctx.tasks id).stop with
    | false =>
      simp only [minertask, taskEvent, stop]
      refine .moved ⟨fresh, nonce_get midstate_cached + 1, ?_⟩
      have next := cached_set (length_toBytes header.bh) (cached_prepared header.bh.toBytes nonce)
      rw [← cached] at next
      exact next _
    | true =>
      simp only [minertask, taskEvent, stop]
      exact .moved (.inl stop)
  | retired => exact .moved trivial

/-! ### What a step keeps -/

/-- A task's part only depends on its own flags, and holds as long as `stop` is kept. -/
theorem taskInv_mono {template : Option Template} {tctx tctx' : TaskCtx} {task : Task} (inv : TaskInv template tctx task)
    (newwork : tctx'.newwork = tctx.newwork) (stop : tctx.stop = true → tctx'.stop = true) :
    TaskInv template tctx' task := by
  have fresh : Fresh template tctx task → Fresh template tctx' task := by
    intro fresh clear
    exact fresh (newwork ▸ clear)
  obtain ⟨pc, header, midstate_cached⟩ := task
  cases pc with
  | parkStop | parkWork | retired => trivial
  | take =>
    obtain stopped | new := inv
    · exact .inl (stop stopped)
    · exact .inr (newwork.trans new)
  | outer => exact inv.imp stop fresh
  | waitStop | waitWork => exact fresh inv
  | verify | checkWork | checkStop | publish => exact ⟨fresh inv.1, inv.2⟩

/-- With a new template, every task has new work. -/
theorem taskInv_replaced {template next : Option Template} {tctx tctx' : TaskCtx} {task : Task}
    (inv : TaskInv template tctx task) (newwork : tctx'.newwork = true) : TaskInv next tctx' task := by
  have fresh : Fresh next tctx' task := by
    intro clear
    rw [newwork] at clear
    cases clear
  obtain ⟨pc, header, midstate_cached⟩ := task
  cases pc with
  | parkStop | parkWork | retired => trivial
  | take => exact .inr newwork
  | outer => exact .inr fresh
  | waitStop | waitWork => exact fresh
  | verify | checkWork | checkStop | publish => exact ⟨fresh, inv.2⟩

theorem setTask_same (mctx : MinerCtx) (id : TaskId) (tctx : TaskCtx) : (mctx.setTask id tctx).tasks id = tctx := by
  simp [MinerCtx.setTask]

theorem setTask_other (mctx : MinerCtx) {id other : TaskId} (different : other ≠ id) (tctx : TaskCtx) :
    (mctx.setTask id tctx).tasks other = mctx.tasks other := by
  simp [MinerCtx.setTask, different]

theorem taskInv_update {template : Option Template} {tctx : TaskId → TaskCtx} {tasks : TaskId → Task} {id : TaskId}
    {task : Task} (new : TaskInv template (tctx id) task)
    (kept : ∀ other, other ≠ id → TaskInv template (tctx other) (tasks other)) (other : TaskId) :
    TaskInv template (tctx other) (Function.update tasks id task other) := by
  by_cases same : other = id
  · rw [same, Function.update_self]
    exact new
  · rw [Function.update_of_ne same]
    exact kept other same

section
variable {ledger : Ledger} {world : World} {id : TaskId}

/-- Only the flags of one task change, and the task. -/
theorem Inv.setTask (inv : Inv ledger world) {tctx : TaskCtx} {task : Task} {newwork : Bool}
    (flag : tctx.newwork = newwork) (ht : tctx.ht = (world.mctx.tasks id).ht)
    (keeps : TaskInv ledger.template tctx task) (template : newwork = true → ledger.template.isSome) :
    Inv { ledger with replaced := Function.update ledger.replaced id newwork }
      { mctx := world.mctx.setTask id tctx, tasks := Function.update world.tasks id task } := by
  refine ⟨?_, ?_, ?_, inv.solution, taskInv_update ?_ ?_⟩
  · intro current last
    obtain ⟨header, coinbase, work⟩ := inv.shared current last
    refine ⟨header, coinbase, ?_⟩
    intro other
    by_cases same : other = id
    · rw [same, setTask_same, ht, work id]
    · rw [setTask_other _ same, work other]
  · intro other
    by_cases same : other = id
    · simp [same, setTask_same, flag]
    · simp [same, setTask_other _ same, inv.newwork other]
  · intro other
    by_cases same : other = id
    · simpa [same] using template
    · simpa [same] using inv.work other
  · rw [setTask_same]
    exact keeps
  · intro other different
    rw [setTask_other _ different]
    exact inv.tasks other

/-- Flags that are not `newwork` change. -/
theorem Inv.setFlags (inv : Inv ledger world) {tctx : TaskCtx} {task : Task} (ht : tctx.ht = (world.mctx.tasks id).ht)
    (newwork : tctx.newwork = (world.mctx.tasks id).newwork) (keeps : TaskInv ledger.template tctx task) :
    Inv ledger { mctx := world.mctx.setTask id tctx, tasks := Function.update world.tasks id task } := by
  have kept := inv.setTask (newwork.trans (inv.newwork id)) ht keeps (inv.work id)
  rw [Function.update_eq_self] at kept
  exact kept

/-- A publication: the task has no new work, so its header is that of the template. -/
theorem Inv.published (inv : Inv ledger world) (clear : (world.mctx.tasks id).newwork = false)
    (fresh : Fresh ledger.template (world.mctx.tasks id) (world.tasks id)) {nonce : UInt32}
    (meets : Meets (world.tasks id).header nonce) :
    Inv (ledger.next (.published id (world.tasks id).header nonce)) {
      mctx := { world.mctx with bh := { world.mctx.bh with nonce := nonce }, solution_found := true }
      tasks := Function.update world.tasks id { world.tasks id with pc := .waitStop } } := by
  obtain ⟨template, last, header⟩ := fresh clear
  obtain ⟨⟨before, bh⟩, coinbase, work⟩ := inv.shared template last
  refine ⟨?_, inv.newwork, inv.work, ?_, taskInv_update fresh fun other _ => inv.tasks other⟩
  · intro current now
    have same : template = current := Option.some.inj (last.symm.trans now)
    subst same
    exact ⟨⟨nonce, by rw [bh]⟩, coinbase, work⟩
  · intro _
    refine ⟨id, template, nonce, ?_, last, by rw [bh], header ▸ meets⟩
    rw [← header]
    rfl

theorem task_keeps (inv : Inv ledger world) (id : TaskId) (stack : Vector UInt32 48) :
    Inv (ledger.after (world.event (.task id stack)).toList) (world.step (.task id stack)) := by
  have stepped := minertask_stepped (inv.tasks id) stack
  rw [World.event, World.step]
  generalize minertask stack id world.mctx (world.tasks id) = result at stepped
  generalize taskEvent id world.mctx (world.tasks id) = event at stepped
  obtain ⟨mctx', task'⟩ := result
  cases stepped with
  | moved keeps =>
    exact ⟨inv.shared, inv.newwork, inv.work, inv.solution, taskInv_update keeps fun other _ => inv.tasks other⟩
  | took reason =>
    show Inv { ledger with replaced := Function.update ledger.replaced id false } {
      mctx := world.mctx.setTask id { world.mctx.tasks id with newwork := false }
      tasks := Function.update world.tasks id (take_new_work world.mctx id (world.tasks id)).2 }
    refine inv.setTask rfl rfl ?_ ?_
    · obtain stopped | new := reason
      · exact .inl stopped
      · obtain ⟨template, last⟩ := Option.isSome_iff_exists.mp (inv.work id ((inv.newwork id).symm.trans new))
        exact .inr fun _ => ⟨template, last, (inv.shared template last).2.2 id⟩
    · intro new
      cases new
  | published clear fresh meets => exact inv.published clear fresh meets
  | retired => exact inv.setFlags rfl rfl trivial

/-- A new template: every task has new work, and nothing is found for it. -/
theorem Inv.replaced (inv : Inv ledger world) (template : Template) :
    Inv (ledger.next (.accepted template)) { world with mctx := world.mctx.replaced template } := by
  refine ⟨?_, fun _ => rfl, fun _ _ => rfl, ?_, fun id => taskInv_replaced (inv.tasks id) rfl⟩
  · intro current now
    cases now
    exact ⟨⟨template.ht.bh.nonce, rfl⟩, rfl, fun _ => rfl⟩
  · intro found
    cases found

theorem step_keeps (inv : Inv ledger world) (action : Action) :
    Inv (ledger.after (world.event action).toList) (world.step action) := by
  cases action with
  | task id stack => exact task_keeps inv id stack
  | on_new_target wally args =>
    rw [World.event, World.step, on_new_target]
    cases newTemplate wally args with
    | none => exact inv
    | some built => exact inv.replaced built.2
  | check_solutions =>
    rw [World.event, World.step, check_solutions]
    cases found : world.mctx.solution_found with
    | false => exact inv
    | true =>
      refine ⟨inv.shared, inv.newwork, inv.work, ?_, inv.tasks⟩
      intro again
      cases again
  | stop id =>
    have kept : Inv ledger {
        mctx := world.mctx.setTask id { world.mctx.tasks id with stop := true }
        tasks := Function.update world.tasks id (world.tasks id) } :=
      inv.setFlags rfl rfl (taskInv_mono (inv.tasks id) rfl fun _ => rfl)
    rw [Function.update_eq_self] at kept
    exact kept

theorem run_keeps (inv : Inv ledger world) (actions : List Action) :
    Inv (ledger.after (miners.outputs world actions)) (miners.final world actions) := by
  induction actions generalizing ledger world with
  | nil => exact inv
  | cons action rest ih =>
    rw [Machine.outputs, Ledger.after, List.foldl_append]
    exact ih (step_keeps inv action)

end

theorem inv_started (header : TaskId → HeaderAndTarget) (midstate_cached : TaskId → Context) :
    Inv Ledger.empty (started header midstate_cached) := by
  refine ⟨?_, fun _ => rfl, ?_, ?_, fun _ => trivial⟩
  · intro template last
    cases last
  · intro id new
    cases new
  · intro found
    cases found

/-! ### Events -/

/-- A task publishes what it found, while it has no new work. -/
theorem taskEvent_some {id : TaskId} {mctx : MinerCtx} {task : Task} {event : Event}
    (seen : taskEvent id mctx task = some event) :
    event = .took id ∨ task.pc = .publish ∧ (mctx.tasks id).newwork = false ∧
      event = .published id task.header (nonce_get task.midstate_cached) := by
  obtain ⟨pc, header, midstate_cached⟩ := task
  cases pc with
  | take =>
    cases seen
    exact .inl rfl
  | publish =>
    cases clear : (mctx.tasks id).newwork with
    | true =>
      rw [taskEvent, clear] at seen
      cases seen
    | false =>
      rw [taskEvent, clear] at seen
      cases seen
      exact .inr ⟨rfl, rfl, rfl⟩
  | parkStop | parkWork | outer | verify | waitStop | waitWork | checkWork | checkStop | retired => cases seen

theorem event_delivered {world : World} {action : Action} {solution : Bytes}
    (delivered : world.event action = some (.delivered solution)) :
    world.mctx.solution_found = true ∧ solution = world.mctx.bh.toBytes ++ 0x01 :: world.mctx.rawtx := by
  cases action with
  | task id stack =>
    obtain took | ⟨_, _, published⟩ := taskEvent_some delivered
    · cases took
    · cases published
  | on_new_target wally args =>
    obtain ⟨built, _, accepted⟩ := Option.map_eq_some_iff.mp delivered
    cases accepted
  | check_solutions =>
    obtain ⟨copied, given, same⟩ := Option.map_eq_some_iff.mp delivered
    cases same
    cases found : world.mctx.solution_found with
    | false =>
      rw [check_solutions, found] at given
      cases given
    | true =>
      rw [check_solutions, found] at given
      cases given
      exact ⟨rfl, rfl⟩
  | stop id => cases delivered

theorem event_published {world : World} {action : Action} {id : TaskId} {found : HeaderAndTarget} {nonce : UInt32}
    (published : world.event action = some (.published id found nonce)) :
    (world.tasks id).pc = .publish ∧ (world.mctx.tasks id).newwork = false ∧ found = (world.tasks id).header ∧
      nonce = nonce_get (world.tasks id).midstate_cached := by
  cases action with
  | task other stack =>
    obtain took | ⟨pc, clear, same⟩ := taskEvent_some published
    · cases took
    · cases same
      exact ⟨pc, clear, rfl, rfl⟩
  | on_new_target wally args =>
    obtain ⟨built, _, accepted⟩ := Option.map_eq_some_iff.mp published
    cases accepted
  | check_solutions =>
    obtain ⟨copied, _, same⟩ := Option.map_eq_some_iff.mp published
    cases same
  | stop other => cases published

/-- The value of an accepted template is not 0. -/
theorem newTemplate_value {wally : Wally} {args : NewTarget} {coinbasevalue : UInt64} {template : Template}
    (built : newTemplate wally args = some (coinbasevalue, template)) : coinbasevalue ≠ 0 := by
  simp only [newTemplate, bind, Option.bind_eq_some_iff] at built
  obtain ⟨_, _, _, checked, made, _, accepted⟩ := built
  cases accepted
  intro zero
  rw [zero] at checked
  cases checked

/-- Every solution handed to the callback, in every interleaving, is made of one template, the one
    accepted last: its header, with the nonce whose publication is pending, and its coinbase; and
    the header meets the target. A nonce is only published for the template accepted last, and
    only if none was accepted since the task took its work. A delivery takes the publication from
    what is pending, so none is delivered twice. A call of `on_new_target` that returns 0 changes
    nothing. -/
theorem solution_of_one_template (header : TaskId → HeaderAndTarget) (midstate_cached : TaskId → Context)
    (actions : List Action) (action : Action) :
    let world := miners.final (started header midstate_cached) actions
    let ledger := Ledger.empty.after (miners.outputs (started header midstate_cached) actions)
    (∀ solution, world.event action = some (.delivered solution) → ∃ id template nonce,
        ledger.pending = some (id, template.ht, nonce) ∧ ledger.template = some template ∧
          solution = { template.ht.bh with nonce := nonce }.toBytes ++ 0x01 :: template.rawtx ∧
          Meets template.ht nonce ∧ (ledger.next (.delivered solution)).pending = none) ∧
      (∀ id found nonce, world.event action = some (.published id found nonce) →
        ledger.replaced id = false ∧ Meets found nonce ∧
          ∃ template, ledger.template = some template ∧ found = template.ht) ∧
      ∀ wally args, (on_new_target wally args world.mctx).1 = 0 → (on_new_target wally args world.mctx).2 = world.mctx := by
  intro world ledger
  have inv : Inv ledger world := run_keeps (inv_started header midstate_cached) actions
  refine ⟨?_, ?_, ?_⟩
  · intro solution delivered
    obtain ⟨found, rfl⟩ := event_delivered delivered
    obtain ⟨id, template, nonce, pending, last, bh, meets⟩ := inv.solution found
    obtain ⟨_, coinbase, _⟩ := inv.shared template last
    exact ⟨id, template, nonce, pending, last, by rw [bh, coinbase], meets, rfl⟩
  · intro id found nonce published
    obtain ⟨pc, clear, rfl, rfl⟩ := event_published published
    have task := inv.tasks id
    rw [TaskInv, pc] at task
    obtain ⟨fresh, _, meets⟩ := task
    exact ⟨(inv.newwork id).symm.trans clear, meets, fresh clear⟩
  · intro wally args refused
    rw [on_new_target] at refused ⊢
    cases built : newTemplate wally args with
    | none => rfl
    | some accepted =>
      rw [built] at refused
      exact absurd refused (newTemplate_value built)

/-- A library that builds every coinbase. -/
def plainWally : Wally where
  wally_tx_init_alloc := true
  wally_tx_witness_stack_init_alloc := true
  wally_tx_witness_stack_add := true
  wally_tx_add_raw_input := true
  wally_address_to_scriptpubkey _ _ := some [0x51]
  wally_addr_segwit_to_bytes _ _ := none
  wally_tx_add_raw_output _ _ := true
  wally_tx_is_coinbase _ := true
  wally_tx_get_txid _ := some (Vector.replicate 32 7)
  wally_tx_to_bytes tx := some tx.script

def regtestTarget : NewTarget where
  version := 1
  previousblockhash := Vector.replicate 32 1
  target := (bits_to_target 0x207fffff).getD (Vector.replicate 32 0)
  curtime := 5
  bits := 0x207fffff
  height := 100
  address := []

end PiJade.Miner
