import Mathlib.Data.List.ProdSigma
import PiJade.AddressSearchTargets

/-!
Runs of the search. A ledger is kept of what was compared since the targets were last built and of what a Skip jumped.
A turn that goes on has made the next window complete, unless an escape ended its batch and was taken back before it was
looked at again; by induction the ledger is complete whenever the question is asked.
-/
namespace PiJade.AddressSearch
open Wallet
set_option linter.unusedSimpArgs false

/-! ### Comparisons -/

theorem searchFrom_spec (derive : Nat → Bytes) (script : Bytes) (search_depth index : Nat) :
    (∀ compared ∈ (searchFrom derive script search_depth index).2.2, compared.2 = derive compared.1) ∧
    ((searchFrom derive script search_depth index).1 = true →
      derive (searchFrom derive script search_depth index).2.1 = script ∧
        (searchFrom derive script search_depth index).2.1 ∈
          (searchFrom derive script search_depth index).2.2.map Prod.fst) ∧
    ((searchFrom derive script search_depth index).1 = false →
      (searchFrom derive script search_depth index).2.2.map Prod.fst = List.range' index search_depth) := by
  induction search_depth generalizing index with
  | zero => exact ⟨fun _ nothing => absurd nothing List.not_mem_nil, fun found => Bool.noConfusion found, fun _ => rfl⟩
  | succ search_depth ih =>
    rw [searchFrom]
    by_cases same : derive index = script
    · rw [if_pos same]
      exact ⟨fun compared only => by rw [List.mem_singleton.mp only], fun _ => ⟨same, List.mem_singleton.mpr rfl⟩,
        fun fails => Bool.noConfusion fails⟩
    · rw [if_neg same]
      obtain ⟨scripts, found, all⟩ := ih (index + 1)
      refine ⟨List.forall_mem_cons.mpr ⟨rfl, scripts⟩, fun matched => ?_, fun fails => ?_⟩
      · exact ⟨(found matched).1, List.mem_cons_of_mem _ (found matched).2⟩
      · rw [List.map_cons, all fails, List.range'_succ]

/-- What the events tell of a run since its last start. -/
structure Ledger where
  account_index : UInt16
  seen : List (Target × Nat)
  jumped : List (Nat × Nat)

def Ledger.empty : Ledger := { account_index := 0, seen := [], jumped := [] }

/-- More comparisons. -/
def Ledger.saw (ledger : Ledger) (more : List (Target × Nat)) : Ledger := { ledger with seen := ledger.seen ++ more }

def Ledger.next (ledger : Ledger) : Event → Ledger
  | .started account_index => { account_index := account_index, seen := [], jumped := [] }
  | .compared target index _ => ledger.saw [(target, index)]
  | .skipped first last => { ledger with jumped := ledger.jumped ++ [(first, last)] }
  | _ => ledger

def Ledger.after (ledger : Ledger) (events : List Event) : Ledger := events.foldl Ledger.next ledger

/-- An index is between those of a Skip. -/
def Ledger.Jumped (ledger : Ledger) (index : Nat) : Prop :=
  ∃ range ∈ ledger.jumped, range.1 ≤ index ∧ index < range.2

/-- Below an index, every target was compared once at every index that was not jumped, and at no other. -/
def Ledger.Complete (ledger : Ledger) (source : Source) (index : Nat) : Prop :=
  ∀ target j, (Covered source ledger.account_index target ∧ j < index ∧ ¬ ledger.Jumped j → ledger.seen.count (target, j) = 1) ∧
    (¬ (Covered source ledger.account_index target ∧ j < index ∧ ¬ ledger.Jumped j) → ledger.seen.count (target, j) = 0)

/-- What holds of an event, by what was seen before it. -/
def EventOk {Key : Type} (lib : Library Key) (source : Source) (script : Bytes) (ledger : Ledger) : Event → Prop
  | .compared target index derived =>
    Covered source ledger.account_index target ∧ derived = scriptOf lib source target index
  | .asked index => ledger.Complete source index
  | .verified target pathstr => Covered source ledger.account_index target ∧
    ∃ index, (target, index) ∈ ledger.seen ∧ scriptOf lib source target index = script ∧ pathstr = pathOf source target index
  | _ => True

/-- Every event is as it is to be. -/
def Good {Key : Type} (lib : Library Key) (source : Source) (script : Bytes) : Ledger → List Event → Prop
  | _, [] => True
  | ledger, event :: later => EventOk lib source script ledger event ∧ Good lib source script (ledger.next event) later

section
variable {Key : Type} {lib : Library Key} {source : Source} {script : Bytes}

theorem good_append {ledger : Ledger} {front back : List Event} :
    Good lib source script ledger (front ++ back) ↔
      Good lib source script ledger front ∧ Good lib source script (ledger.after front) back := by
  induction front generalizing ledger with
  | nil => simp [Good, Ledger.after]
  | cons event front ih =>
    rw [List.cons_append, Good, Good, ih, and_assoc]
    rfl

theorem after_append (ledger : Ledger) (front back : List Event) :
    ledger.after (front ++ back) = (ledger.after front).after back := List.foldl_append

theorem eventOk_of_good {ledger : Ledger} {front back : List Event} {event : Event}
    (good : Good lib source script ledger (front ++ event :: back)) :
    EventOk lib source script (ledger.after front) event := (good_append.mp good).2.1

/-- The events of one target's comparisons. -/
theorem good_compared {ledger : Ledger} {target : Target} (covered : Covered source ledger.account_index target)
    {compared : List (Nat × Bytes)} (scripts : ∀ c ∈ compared, c.2 = scriptOf lib source target c.1) :
    Good lib source script ledger (compared.map fun c => Event.compared target c.1 c.2) ∧
      ledger.after (compared.map fun c => Event.compared target c.1 c.2) =
        ledger.saw ((compared.map Prod.fst).map fun index => (target, index)) := by
  induction compared generalizing ledger with
  | nil => simp [Good, Ledger.after, Ledger.saw]
  | cons c compared ih =>
    obtain ⟨first, others⟩ := List.forall_mem_cons.mp scripts
    have rest := @ih (ledger.next (.compared target c.1 c.2)) covered others
    refine ⟨⟨⟨covered, first⟩, rest.1⟩, ?_⟩
    rw [List.map_cons, Ledger.after, List.foldl_cons, ← Ledger.after, rest.2]
    simp [Ledger.next, Ledger.saw]

/-- A target is compared at as many indexes as a batch has, up to the script if it is found. -/
theorem searchTarget_ok (valid : source.Valid script) {account_index : UInt16} {built : Built Key}
    (ok : BuiltOk lib source (targetsOf source account_index) built) {i : Nat} {target : Target}
    (there : (targetsOf source account_index)[i]? = some target) {label : List Char} (named : LabelOk source label)
    (index : Nat) :
    ∃ next, searchTarget lib source script built.search_roots label i target index =
        .ok (next, searchFrom (scriptOf lib source target) script (ADDRESS_SEARCH_BATCH_SIZE source.registered_wallet) index) ∧
      LabelOk source next := by
  have roots := ok.roots i target there
  have within : i * source.roots_per_target + source.roots_per_target ≤ built.search_roots.length := by
    have inside : i < (targetsOf source account_index).length := (List.getElem?_eq_some_iff.mp there).1
    rw [ok.allocated, ← Nat.succ_mul]
    exact Nat.mul_le_mul_right _ (Nat.lt_of_lt_of_le inside (length_targetsOf source account_index))
  cases source with
  | singlesig coin_type variant =>
    refine ⟨label, ?_, trivial⟩
    simp only [Source.roots_per_target, Nat.mul_one] at roots within
    simp only [searchTarget, readRoots, if_pos within, Check.ok_bind, roots, rootsOf]
    have compares : ¬ ((!is_singlesig variant) = true ∨ ADDRESS_SEARCH_BATCH_SIZE false = 0 ∨
        script.length ≠ script_length_for_variant variant) := by
      simp [valid.1, valid.2, ADDRESS_SEARCH_BATCH_SIZE]
    rw [wallet_search_for_singlesig_script, Source.registered_wallet, if_neg compares]
    rfl
  | multisig name multisig_data =>
    refine ⟨label, ?_, named⟩
    obtain ⟨_, multi, threshold, some_key, most, size⟩ := valid
    have count : (rootsOf lib (.multisig name multisig_data) target).length = multisig_data.xpubs.length :=
      length_rootsOf lib _ target
    simp only [searchTarget, readRoots, if_pos within, Check.ok_bind, roots]
    have compares : ¬ ((!is_multisig multisig_data.variant) = true ∨ multisig_data.threshold = 0 ∨
        (rootsOf lib (.multisig name multisig_data) target).length = 0 ∨
        MAX_ALLOWED_SIGNERS < (rootsOf lib (.multisig name multisig_data) target).length ∨
        ADDRESS_SEARCH_BATCH_SIZE true = 0 ∨ script.length ≠ script_length_for_variant multisig_data.variant) := by
      rw [count]
      simp [multi, size, ADDRESS_SEARCH_BATCH_SIZE, Nat.ne_of_gt threshold, List.length_pos_iff.mp some_key, most]
    have searched : wallet_search_for_multisig_script lib multisig_data
        (rootsOf lib (.multisig name multisig_data) target) index (ADDRESS_SEARCH_BATCH_SIZE true) script =
        searchFrom (scriptOf lib (.multisig name multisig_data) target) script (ADDRESS_SEARCH_BATCH_SIZE true) index :=
      if_neg compares
    exact congrArg (fun result => Except.ok (label, result)) searched
  | descriptor name num_values =>
    obtain ⟨before, rfl⟩ := named
    refine ⟨branchLabel name target.is_change, ?_, target.is_change, rfl⟩
    obtain ⟨short, most⟩ := valid
    have compares : ¬ (MAX_ALLOWED_SIGNERS < num_values ∨ ADDRESS_SEARCH_BATCH_SIZE true = 0) := by
      simp [most, ADDRESS_SEARCH_BATCH_SIZE]
    simp only [searchTarget, labelBranch_eq short, Check.ok_bind]
    have searched : wallet_search_for_descriptor_script lib num_values (if target.is_change then 1 else 0) index
        (ADDRESS_SEARCH_BATCH_SIZE true) script =
        searchFrom (scriptOf lib (.descriptor name num_values) target) script (ADDRESS_SEARCH_BATCH_SIZE true) index :=
      if_neg compares
    exact congrArg (fun result => Except.ok (branchLabel name target.is_change, result)) searched

/-- A batch that goes on to its end compares every target at every index of the window. -/
theorem searchTargets_ok (valid : source.Valid script) {account_index : UInt16} {s : State Key}
    (ok : BuiltOk lib source (targetsOf source account_index) s.built) {during : Nat → Bool} {later front : List Target}
    (split : targetsOf source account_index = front ++ later) {label : List Char} (named : LabelOk source label)
    {ledger : Ledger} (account : ledger.account_index = account_index) :
    ∃ next found more, (searchTargets lib source script during s front.length later label).2 = .ok (next, found) ∧
      LabelOk source next ∧
      Good lib source script ledger (searchTargets lib source script during s front.length later label).1 ∧
      ledger.after (searchTargets lib source script during s front.length later label).1 =
        ledger.saw more ∧
      (found = none → (∀ i, during i = false) → more = List.product later
        (List.range' s.index (ADDRESS_SEARCH_BATCH_SIZE source.registered_wallet))) ∧
      ∀ i index, found = some (i, index) → ∃ target, (targetsOf source account_index)[i]? = some target ∧
        (target, index) ∈ more ∧ scriptOf lib source target index = script := by
  induction later generalizing front label ledger with
  | nil =>
    refine ⟨label, none, [], rfl, named, trivial, ?_, fun _ _ => rfl, nofun⟩
    rw [Ledger.saw, List.append_nil]
    rfl
  | cons target later ih =>
    rw [searchTargets]
    by_cases stopped : during front.length = true
    · rw [if_pos stopped]
      refine ⟨label, none, [], rfl, named, trivial, ?_, fun _ never => ?_, nofun⟩
      · rw [Ledger.saw, List.append_nil]
        rfl
      · rw [never] at stopped
        cases stopped
    · have there : (targetsOf source account_index)[front.length]? = some target := by
        rw [split, List.getElem?_append_right (Nat.le_refl _), Nat.sub_self]
        rfl
      have covered : Covered source ledger.account_index target := by
        rw [account]
        exact mem_targetsOf.mp (List.mem_of_getElem? there)
      obtain ⟨next, searched, named⟩ := searchTarget_ok valid ok there named s.index
      obtain ⟨scripts, matched, all⟩ := searchFrom_spec (scriptOf lib source target) script
        (ADDRESS_SEARCH_BATCH_SIZE source.registered_wallet) s.index
      obtain ⟨good, seen⟩ := @good_compared _ lib source script _ _ covered _ scripts
      rw [if_neg stopped, searched]
      generalize searchFrom (scriptOf lib source target) script (ADDRESS_SEARCH_BATCH_SIZE source.registered_wallet) s.index
        = result at *
      obtain ⟨verified, target_index, compared⟩ := result
      cases verified with
      | true =>
        refine ⟨next, _, _, rfl, named, good, seen, nofun, ?_⟩
        rintro i index found
        obtain ⟨rfl, rfl⟩ := Prod.mk.inj (Option.some.inj found)
        exact ⟨target, there, List.mem_map_of_mem (matched rfl).2, (matched rfl).1⟩
      | false =>
        have split' : targetsOf source account_index = (front ++ [target]) ++ later := by
          rw [split, List.append_assoc]
          rfl
        have size : (front ++ [target]).length = front.length + 1 := by simp
        have account' : (ledger.after (compared.map fun c => Event.compared target c.1 c.2)).account_index = account_index := by
          rw [seen]
          exact account
        obtain ⟨last, found, more, run, named, rest, after, whole, hit⟩ := ih split' named account'
        rw [size] at run rest after
        refine ⟨last, found, (compared.map Prod.fst).map (fun index => (target, index)) ++ more, run, named,
          good_append.mpr ⟨good, rest⟩, ?_, ?_, ?_⟩
        · refine (after_append ledger (compared.map fun c => Event.compared target c.1 c.2)
            (searchTargets lib source script during s (front.length + 1) later next).1).trans ?_
          rw [after, seen]
          simp [Ledger.saw]
        · intro nothing never
          rw [whole nothing never, all rfl]
          rfl
        · intro i index matched_at
          obtain ⟨other, place, among, same⟩ := hit i index matched_at
          exact ⟨other, place, List.mem_append_right _ among, same⟩

end

/-! ### Turns -/

/-- The state of the loop, and what was seen. -/
structure Inv {Key : Type} (lib : Library Key) (source : Source) (ledger : Ledger) (s : State Key) : Prop where
  account : ledger.account_index = s.account_index
  built : BuiltOk lib source (targetsOf source s.account_index) s.built
  complete : ledger.Complete source s.index
  jumped : ∀ j, ledger.Jumped j → j < s.index

/-- An escape that ends a batch is still there behind it. -/
def Turn.Steady (turn : Turn) : Prop := turn.behind = false → ∀ i, turn.during i = false

section
variable {Key : Type} {lib : Library Key} {source : Source} {script : Bytes}

theorem Ledger.jumped_snoc {ledger : Ledger} {first last j : Nat} :
    (ledger.next (.skipped first last)).Jumped j ↔ ledger.Jumped j ∨ first ≤ j ∧ j < last := by
  simp only [Ledger.next, Ledger.Jumped, List.mem_append, List.mem_singleton, or_and_right, exists_or, exists_eq_left]

/-- A whole batch makes the next window complete. -/
theorem Ledger.Complete.batch {ledger : Ledger} {index size : Nat} (complete : ledger.Complete source index)
    (jumped : ∀ j, ledger.Jumped j → j < index) :
    (ledger.saw (List.product (targetsOf source ledger.account_index) (List.range' index size))).Complete source
      (index + size) := by
  intro target j
  have distinct : (List.product (targetsOf source ledger.account_index) (List.range' index size)).Nodup :=
    (nodup_targetsOf source ledger.account_index).product List.nodup_range'
  have among : (target, j) ∈ List.product (targetsOf source ledger.account_index) (List.range' index size) ↔
      Covered source ledger.account_index target ∧ index ≤ j ∧ j < index + size := by
    rw [List.pair_mem_product, mem_targetsOf, List.mem_range'_1]
  have once_more (inside : Covered source ledger.account_index target ∧ index ≤ j ∧ j < index + size) :=
    List.count_eq_one_of_mem distinct (among.mpr inside)
  have no_more (outside : ¬ (Covered source ledger.account_index target ∧ index ≤ j ∧ j < index + size)) :=
    List.count_eq_zero.mpr (mt among.mp outside)
  obtain ⟨once, never⟩ := complete target j
  have same : (ledger.saw (List.product (targetsOf source ledger.account_index) (List.range' index size))).Jumped j ↔
    ledger.Jumped j := Iff.rfl
  rw [same]
  simp only [Ledger.saw, List.count_append]
  by_cases covered : Covered source ledger.account_index target
  · by_cases before : j < index
    · rw [no_more (by omega), Nat.add_zero]
      exact ⟨fun holds => once ⟨covered, before, holds.2.2⟩,
        fun fails => never fun holds => fails ⟨covered, by omega, holds.2.2⟩⟩
    · have not_jumped : ¬ ledger.Jumped j := fun jump => before (jumped j jump)
      rw [never fun holds => before holds.2.1, Nat.zero_add]
      by_cases inside : j < index + size
      · rw [once_more ⟨covered, Nat.le_of_not_lt before, inside⟩]
        exact ⟨fun _ => rfl, fun fails => absurd ⟨covered, inside, not_jumped⟩ fails⟩
      · rw [no_more fun holds => inside holds.2.2]
        exact ⟨fun holds => absurd holds.2.1 inside, fun _ => rfl⟩
  · rw [never fun holds => covered holds.1, no_more fun holds => covered holds.1]
    exact ⟨fun holds => absurd holds.1 covered, fun _ => rfl⟩

/-- A jump leaves out what it jumps. -/
theorem Ledger.Complete.skip {ledger : Ledger} {index last : Nat} (complete : ledger.Complete source index)
    (further : index ≤ last) :
    (ledger.next (.skipped index last)).Complete source last := by
  intro target j
  obtain ⟨once, never⟩ := complete target j
  simp only [Ledger.jumped_snoc]
  refine ⟨fun holds => once ⟨holds.1, ?_, fun jump => holds.2.2 (.inl jump)⟩, fun fails => never fun holds => fails ⟨holds.1, ?_, ?_⟩⟩
  · by_contra beyond
    exact holds.2.2 (.inr ⟨Nat.le_of_not_lt beyond, holds.2.1⟩)
  · exact Nat.lt_of_lt_of_le holds.2.1 further
  · rintro (jump | ⟨from_index, _⟩)
    · exact holds.2.2 jump
    · exact absurd holds.2.1 (Nat.not_lt.mpr from_index)

theorem complete_start (ledger : Ledger) (account_index : UInt16) :
    (ledger.next (.started account_index)).Complete source 0 :=
  fun _ _ => ⟨fun holds => absurd holds.2.1 (Nat.not_lt_zero _), fun _ => rfl⟩

/-- What is to hold of a turn, or a part of it. -/
structure TurnOk (lib : Library Key) (source : Source) (script : Bytes) (ledger : Ledger)
    (result : List Event × Check Fault (Next Key)) : Prop where
  good : Good lib source script ledger result.1
  in_bounds : result.2 ≠ .error (.error .out_of_bounds)
  goes_on : ∀ next, result.2 = .ok (.goes_on next) → Inv lib source (ledger.after result.1) next
  found : ∀ next i, result.2 = .ok (.found next i) →
    (ledger.after result.1).account_index = next.account_index ∧
    BuiltOk lib source (targetsOf source next.account_index) next.built ∧
    ∃ target, (targetsOf source next.account_index)[i]? = some target ∧ (target, next.index) ∈ (ledger.after result.1).seen ∧
      scriptOf lib source target next.index = script

/-- Behind a whole batch. -/
theorem behindBatch_ok (valid : source.Valid script) {ledger : Ledger} {s : State Key} (turn : Turn)
    (account : ledger.account_index = s.account_index)
    (built : BuiltOk lib source (targetsOf source s.account_index) s.built)
    (complete : ledger.Complete source (s.index + ADDRESS_SEARCH_BATCH_SIZE source.registered_wallet))
    (jumped : ∀ j, ledger.Jumped j → j < s.index + ADDRESS_SEARCH_BATCH_SIZE source.registered_wallet) :
    TurnOk lib source script ledger (behindBatch lib source turn s) := by
  rw [behindBatch]
  split
  · cases turn.answer with
    | true =>
      refine ⟨⟨complete, trivial⟩, nofun, fun next goes_on => ?_, nofun⟩
      cases goes_on
      exact ⟨account, built, complete, jumped⟩
    | false => exact ⟨⟨complete, trivial⟩, nofun, nofun, nofun⟩
  · rename_i window
    cases turn.button with
    | none =>
      refine ⟨trivial, nofun, fun next goes_on => ?_, nofun⟩
      cases goes_on
      exact ⟨account, built, complete, jumped⟩
    | skip =>
      refine ⟨⟨trivial, trivial⟩, nofun, fun next goes_on => ?_, nofun⟩
      cases goes_on
      have further := Nat.le_of_lt (Nat.lt_of_not_le window)
      refine ⟨account, built, complete.skip further, fun j jump => ?_⟩
      obtain before | ⟨_, inside⟩ := Ledger.jumped_snoc.mp jump
      · exact Nat.lt_of_lt_of_le (jumped j before) further
      · exact inside
    | options account_index =>
      dsimp only
      by_cases registered : source.registered_wallet = true
      · rw [if_pos registered]
        exact ⟨trivial, nofun, nofun, nofun⟩
      · rw [if_neg registered]
        by_cases same : account_index = s.account_index
        · rw [if_pos same]
          refine ⟨trivial, nofun, fun next goes_on => ?_, nofun⟩
          cases goes_on
          exact ⟨account, built, complete, jumped⟩
        · rw [if_neg same]
          obtain ⟨rebuilt, run, ok⟩ := build_search_targets_ok valid account_index built.label built.allocated
          rw [run]
          refine ⟨⟨trivial, trivial⟩, nofun, fun next goes_on => ?_, nofun⟩
          cases goes_on
          exact ⟨rfl, ok, complete_start ledger account_index, fun j ⟨_, nothing, _⟩ => absurd nothing List.not_mem_nil⟩
    | exit => exact ⟨trivial, nofun, nofun, nofun⟩

/-- A turn with its events before another part of it. -/
theorem TurnOk.behind {ledger : Ledger} {events : List Event} {result : List Event × Check Fault (Next Key)}
    (good : Good lib source script ledger events) (ok : TurnOk lib source script (ledger.after events) result) :
    TurnOk lib source script ledger (events ++ result.1, result.2) := by
  refine ⟨good_append.mpr ⟨good, ok.good⟩, ok.in_bounds, fun next goes_on => ?_, fun next i found => ?_⟩
  · rw [after_append]
    exact ok.goes_on next goes_on
  · rw [after_append]
    exact ok.found next i found

theorem turnOf_ok (valid : source.Valid script) {ledger : Ledger} {s : State Key} (inv : Inv lib source ledger s)
    {turn : Turn} (steady : turn.Steady) : TurnOk lib source script ledger (turnOf lib source script turn s) := by
  rw [turnOf]
  by_cases head : turn.head = true
  · rw [if_pos head]
    exact ⟨trivial, nofun, nofun, nofun⟩
  · rw [if_neg head]
    obtain ⟨label, found, more, run, named, good, after, whole, hit⟩ :=
      @searchTargets_ok _ lib source script valid s.account_index s inv.built turn.during
        (targetsOf source s.account_index) [] rfl _ inv.built.label ledger inv.account
    rw [List.length_nil, ← inv.built.same] at run good after
    have relabelled : BuiltOk lib source (targetsOf source s.account_index) { s.built with label := label } :=
      ⟨inv.built.same, inv.built.allocated, inv.built.roots, named⟩
    simp only [run]
    cases found with
    | some hit_at =>
      obtain ⟨i, target_index⟩ := hit_at
      refine ⟨good, nofun, nofun, fun next j matched => ?_⟩
      cases matched
      obtain ⟨target, there, among, same⟩ := hit i target_index rfl
      rw [after]
      exact ⟨inv.account, relabelled, target, there, List.mem_append_right _ among, same⟩
    | none =>
      by_cases behind : turn.behind = true
      · simp only [if_pos behind]
        exact ⟨good, nofun, nofun, nofun⟩
      · simp only [if_neg behind]
        have never := steady (eq_false_of_ne_true behind)
        have complete := @Ledger.Complete.batch source ledger s.index
          (ADDRESS_SEARCH_BATCH_SIZE source.registered_wallet) inv.complete inv.jumped
        rw [inv.account, ← whole rfl never, ← after] at complete
        refine TurnOk.behind good (behindBatch_ok valid turn ?_ relabelled complete ?_)
        · rw [after]
          exact inv.account
        · rw [after]
          exact fun j jump => Nat.lt_of_lt_of_le (inv.jumped j jump) (Nat.le_add_right _ _)

end

/-! ### Runs -/

section
variable {Key : Type} {lib : Library Key} {source : Source} {script : Bytes}

/-- What is to hold of a run: its events, the allocation, and what is returned. -/
structure RunOk (lib : Library Key) (source : Source) (script : Bytes) (ledger : Ledger)
    (result : List Event × Check Fault Outcome) : Prop where
  good : Good lib source script ledger result.1
  in_bounds : result.2 ≠ .error (.error .out_of_bounds)
  returned : result.2 = .ok (.left true) → ∃ target pathstr, Event.verified target pathstr ∈ result.1

theorem RunOk.behind {ledger : Ledger} {events : List Event} {result : List Event × Check Fault Outcome}
    (good : Good lib source script ledger events) (ok : RunOk lib source script (ledger.after events) result) :
    RunOk lib source script ledger (events ++ result.1, result.2) := by
  refine ⟨good_append.mpr ⟨good, ok.good⟩, ok.in_bounds, fun done => ?_⟩
  obtain ⟨target, pathstr, among⟩ := ok.returned done
  exact ⟨target, pathstr, List.mem_append_right _ among⟩

theorem report_ok (valid : source.Valid script) {ledger : Ledger} (escape : Bool) {matched : Option (State Key × Nat)}
    (found : ∀ next i, matched = some (next, i) → ledger.account_index = next.account_index ∧
      BuiltOk lib source (targetsOf source next.account_index) next.built ∧
      ∃ target, (targetsOf source next.account_index)[i]? = some target ∧ (target, next.index) ∈ ledger.seen ∧
        scriptOf lib source target next.index = script) :
    RunOk lib source script ledger (report lib source escape matched) := by
  cases escape with
  | true => exact ⟨trivial, nofun, nofun⟩
  | false =>
    cases matched with
    | none => exact ⟨⟨trivial, trivial⟩, nofun, nofun⟩
    | some hit =>
      obtain ⟨s, i⟩ := hit
      obtain ⟨account, built, target, there, among, same⟩ := found s i rfl
      have within : i * source.roots_per_target + source.roots_per_target ≤ s.built.search_roots.length := by
        have inside : i < (targetsOf source s.account_index).length := (List.getElem?_eq_some_iff.mp there).1
        rw [built.allocated, ← Nat.succ_mul]
        exact Nat.mul_le_mul_right _ (Nat.lt_of_lt_of_le inside (length_targetsOf source s.account_index))
      simp only [report, built.same, there, get_search_target_eq valid target built.label within, Bool.false_eq_true, if_false]
      by_cases long : 48 ≤ (targetLabel source target ++ '/' :: (Nat.repr s.index).toList).length
      · rw [if_pos long]
        exact ⟨trivial, nofun, nofun⟩
      · rw [if_neg long]
        refine ⟨⟨⟨?_, s.index, among, same, rfl⟩, trivial⟩, nofun, fun _ => ⟨target, _, List.mem_singleton.mpr rfl⟩⟩
        rw [account]
        exact mem_targetsOf.mp (List.mem_of_getElem? there)

theorem searchLoop_ok (valid : source.Valid script) {ledger : Ledger} {s : State Key} (inv : Inv lib source ledger s)
    (escape : Bool) {turns : List Turn} (steady : ∀ turn ∈ turns, turn.Steady) :
    RunOk lib source script ledger (searchLoop lib source script escape turns s) := by
  induction turns generalizing ledger s with
  | nil => exact ⟨trivial, nofun, nofun⟩
  | cons turn later ih =>
    obtain ⟨first, others⟩ := List.forall_mem_cons.mp steady
    have this := turnOf_ok valid inv first
    rw [searchLoop]
    cases ended : (turnOf lib source script turn s).2 with
    | error halt =>
      refine ⟨this.good, fun out => this.in_bounds ?_, nofun⟩
      rw [ended]
      exact congrArg Except.error (Except.error.inj out)
    | ok next =>
      cases next with
      | abandoned => exact RunOk.behind this.good (@report_ok Key lib source script valid _ escape none nofun)
      | found s' i =>
        refine RunOk.behind this.good (@report_ok Key lib source script valid _ escape (some (s', i)) fun next j same => ?_)
        cases same
        exact this.found s' i ended
      | goes_on s' => exact RunOk.behind this.good (ih (this.goes_on s' ended) others)

theorem verify_address_ok [Inhabited Key] (valid : source.Valid script) (account_index : UInt16) {turns : List Turn}
    (steady : ∀ turn ∈ turns, turn.Steady) (escape : Bool) :
    RunOk lib source script Ledger.empty (verify_address lib source account_index script turns escape) := by
  have labelled : LabelOk source source.label := by
    cases source with
    | singlesig coin_type variant => trivial
    | multisig name multisig_data => exact ⟨false, rfl⟩
    | descriptor name num_values => exact ⟨false, rfl⟩
  obtain ⟨built, run, ok⟩ := @build_search_targets_ok _ lib source script valid account_index _ labelled
    (List.replicate (source.max_targets * source.roots_per_target) default) List.length_replicate
  rw [Source.max_targets] at run
  simp only [verify_address, run]
  refine @RunOk.behind Key lib source script Ledger.empty [.started account_index] _ ⟨trivial, trivial⟩
    (searchLoop_ok valid ?_ escape steady)
  refine ⟨rfl, ok, complete_start Ledger.empty account_index, ?_⟩
  rintro j ⟨_, nothing, _⟩
  exact absurd nothing List.not_mem_nil

end

/-! ### The wallet for a script -/

/-- The length of a script of a type, as the library tells types apart. -/
def Typed (script_type : ScriptType) (script : Bytes) : Prop :=
  match script_type with
  | .P2PKH => script.length = WALLY_SCRIPTPUBKEY_P2PKH_LEN
  | .P2SH => script.length = WALLY_SCRIPTPUBKEY_P2SH_LEN
  | .P2WPKH => script.length = WALLY_SCRIPTPUBKEY_P2WPKH_LEN
  | .P2WSH => script.length = WALLY_SCRIPTPUBKEY_P2WSH_LEN
  | .P2TR => script.length = WALLY_SCRIPTPUBKEY_P2TR_LEN
  | _ => True

/-- What a record that was registered has. -/
def Source.Loaded : Source → Prop
  | .singlesig _ _ => True
  | .multisig name multisig_data =>
    name.length < 16 ∧ 0 < multisig_data.threshold ∧ 0 < multisig_data.xpubs.length ∧
      multisig_data.xpubs.length ≤ MAX_ALLOWED_SIGNERS
  | .descriptor name num_values => name.length < 16 ∧ num_values ≤ MAX_ALLOWED_SIGNERS

theorem variant_of_script_type {variant : Variant} {script_type : ScriptType} {script : Bytes}
    (fits : variant_matches_script_type variant script_type = true) (typed : Typed script_type script) :
    is_multisig variant = true ∧ script.length = script_length_for_variant variant := by
  cases script_type <;> cases variant <;> first | exact ⟨rfl, typed⟩ | cases fits

theorem singlesig_of_script_type {variant : Variant} {script_type : ScriptType} {script : Bytes}
    (single : get_singlesig_variant_from_script_type script_type = some variant) (typed : Typed script_type script) :
    is_singlesig variant = true ∧ script.length = script_length_for_variant variant := by
  cases script_type <;> cases single <;> exact ⟨rfl, typed⟩

theorem searchSource_valid {coin_type : UInt32} {script_type : ScriptType} {selection : Selection} {source : Source}
    {script : Bytes} (searched : searchSource coin_type script_type selection = some source)
    (typed : Typed script_type script) (loaded : ∀ record, selection.record = some record → record.Loaded) :
    source.Valid script := by
  rw [searchSource] at searched
  split at searched
  · cases selected : selection.record with
    | none =>
      rw [load_registered_wallet, selected] at searched
      cases searched
    | some record =>
      have sound := loaded record selected
      rw [load_registered_wallet, selected] at searched
      cases record with
      | singlesig coin_type variant => cases searched
      | descriptor name num_values =>
        cases searched
        exact sound
      | multisig name multisig_data =>
        dsimp only at searched
        split at searched
        · rename_i fits
          cases searched
          obtain ⟨short, threshold, some_key, most⟩ := sound
          obtain ⟨multi, size⟩ := variant_of_script_type fits typed
          exact ⟨short, multi, threshold, some_key, most, size⟩
        · cases searched
  · obtain ⟨variant, single, rfl⟩ := Option.map_eq_some_iff.mp searched
    exact singlesig_of_script_type single typed

/-- In a run in which an escape that ends a batch is still there behind it, every event is as it is to be: the question is
    asked when every target was compared once at every index that was not jumped, and an address is verified for a target
    and an index with its script, under their path. Roots are only written within their allocation. -/
theorem search_covers_what_it_claims {Key : Type} [Inhabited Key] (lib : Library Key) {coin_type : UInt32}
    {script_type : ScriptType} {selection : Selection} {source : Source} {script : Bytes}
    (searched : searchSource coin_type script_type selection = some source) (typed : Typed script_type script)
    (loaded : ∀ record, selection.record = some record → record.Loaded) (account_index : UInt16) {turns : List Turn}
    (steady : ∀ turn ∈ turns, turn.Steady) (escape : Bool) :
    (∀ front event back, (verify_address lib source account_index script turns escape).1 = front ++ event :: back →
      EventOk lib source script (Ledger.empty.after front) event) ∧
    (verify_address lib source account_index script turns escape).2 ≠ .error (.error .out_of_bounds) ∧
    ((verify_address lib source account_index script turns escape).2 = .ok (.left true) →
      ∃ target pathstr, .verified target pathstr ∈ (verify_address lib source account_index script turns escape).1) := by
  have ok := @verify_address_ok _ lib source script _ (searchSource_valid searched typed loaded) account_index turns steady
    escape
  refine ⟨fun front event back split => ?_, ok.in_bounds, ok.returned⟩
  have good := ok.good
  rw [split] at good
  exact eventOk_of_good good

/-! ### Runs of a descriptor -/

/-- The scripts of a descriptor; the branch and the index are their program. -/
def twoBranches : Library Unit where
  wallet_get_hdkey _ := ()
  wallet_derive_pubkey _ _ := ()
  singlesig_script _ _ _ := []
  multisig_script _ _ _ := []
  descriptor_script multi_index index := [0x00, 0x20, UInt8.ofNat multi_index, UInt8.ofNat index] ++ List.replicate 30 0

def vault : Source := .descriptor ['v', 'a', 'u', 'l', 't'] 2

/-- A turn without an escape or a button. -/
def quiet : Turn := { head := false, during := fun _ => false, behind := false, answer := true, button := .none }

theorem search_covers_change_address :
    (∀ front event back, (verify_address twoBranches vault 0 (twoBranches.descriptor_script 1 13) [quiet, quiet] false).1 =
        front ++ event :: back →
      EventOk twoBranches vault (twoBranches.descriptor_script 1 13) (Ledger.empty.after front) event) ∧
    (verify_address twoBranches vault 0 (twoBranches.descriptor_script 1 13) [quiet, quiet] false).2 = .ok (.left true) := by
  refine ⟨(@search_covers_what_it_claims Unit _ twoBranches 0 .P2WSH ⟨true, some vault⟩ vault
    (twoBranches.descriptor_script 1 13) rfl rfl ?_ 0 [quiet, quiet] ?_ false).1, by decide +kernel⟩
  · intro record selected
    cases selected
    exact (by decide : 5 < 16 ∧ 2 ≤ MAX_ALLOWED_SIGNERS)
  · intro turn among
    simp only [List.mem_cons, List.not_mem_nil, or_false, or_self] at among
    rw [among]
    exact fun _ _ => rfl

/-- An escape before the change branch, that another press takes back before it is looked at again. -/
def takenBack : Turn := { quiet with during := fun i => i = 1 }

/-- The run whose first batch is ended so, up to the question. -/
def gappedRun : List Event × Check Fault Outcome :=
  verify_address twoBranches vault 0 (twoBranches.descriptor_script 1 3) (takenBack :: List.replicate 19 quiet) false

/-- What an event says was compared. -/
def Event.comparison : Event → Option (Target × Nat)
  | .compared target index _ => some (target, index)
  | _ => none

/-- Only what the events say was compared is seen. -/
theorem seen_of_comparison {entry : Target × Nat} {events : List Event} {ledger : Ledger}
    (seen : entry ∈ (ledger.after events).seen) : entry ∈ ledger.seen ∨ some entry ∈ events.map Event.comparison := by
  induction events generalizing ledger with
  | nil => exact Or.inl seen
  | cons event rest ih =>
    rw [List.map_cons, List.mem_cons]
    rcases @ih (ledger.next event) seen with before | later
    · cases event with
      | started _ => cases before
      | compared target index _ =>
        rcases List.mem_append.mp before with before | now
        · exact Or.inl before
        · rw [List.mem_singleton.mp now]
          exact Or.inr (Or.inl rfl)
      | _ => exact Or.inl before
    · exact Or.inr (Or.inr later)

/-- The address is one of the change branch, at index 3, and it is asked at index 200 although it was not compared. -/
theorem escape_taken_back_leaves_gap :
    searchSource 0 .P2WSH ⟨true, some vault⟩ = some vault ∧ Typed .P2WSH (twoBranches.descriptor_script 1 3) ∧ vault.Loaded ∧
      scriptOf twoBranches vault ⟨0, true⟩ 3 = twoBranches.descriptor_script 1 3 ∧
      ∃ front, gappedRun.1 = front ++ [.asked 200] ∧
        ¬ EventOk twoBranches vault (twoBranches.descriptor_script 1 3) (Ledger.empty.after front) (.asked 200) := by
  have asked : gappedRun.1.getLast? = some (.asked 200) := by decide +kernel
  have nothing : (Ledger.empty.after gappedRun.1.dropLast).jumped = [] := by decide +kernel
  have never : some (⟨0, true⟩, 3) ∉ gappedRun.1.dropLast.map Event.comparison := by decide +kernel
  have missing : (Ledger.empty.after gappedRun.1.dropLast).seen.count (⟨0, true⟩, 3) = 0 := by
    rw [List.count_eq_zero]
    intro seen
    rcases seen_of_comparison seen with before | later
    · cases before
    · exact never later
  refine ⟨rfl, rfl, (by decide : 5 < 16 ∧ 2 ≤ MAX_ALLOWED_SIGNERS), rfl, gappedRun.1.dropLast,
    (List.dropLast_append_getLast? _ asked).symm, fun complete => ?_⟩
  have once := (complete ⟨0, true⟩ 3).1 ⟨rfl, by decide, fun ⟨_, jump, _⟩ => by rw [nothing] at jump; cases jump⟩
  rw [missing] at once
  cases once

end PiJade.AddressSearch
