import Mathlib.Data.List.Nodup
import PiJade.AddressSearch

/-!
What the search for an address is to cover, and the targets that are built for it: each pair of an account
and a branch once, with its own roots at its own place of the allocation, which is large enough for
every account that can be selected.
-/
namespace PiJade.AddressSearch
open Wallet
set_option linter.unusedSimpArgs false

/-! ### Labels and roots -/

theorem searchPath_text (purpose coin_type : UInt32) (target : Target) :
    ∃ text, wallet_bip32_path_as_str (searchPath purpose coin_type target) LABEL_LEN false = some text :=
  pathAsStrFrom_isSome (by decide : "m".length + 12 * 4 < LABEL_LEN)

theorem purpose_of_singlesig {variant : Variant} (single : is_singlesig variant = true) :
    ∃ purpose, get_script_variant_purpose variant = some purpose := by
  cases variant <;> first | exact ⟨_, rfl⟩ | cases single

/-- The name of a wallet and a branch. -/
def branchLabel (name : List Char) (is_change : Bool) : List Char := name ++ ['/', if is_change then '1' else '0']

theorem labelBranch_eq {name : List Char} (short : name.length < 16) (before is_change : Bool) :
    labelBranch (branchLabel name before) is_change = .ok (branchLabel name is_change) := by
  have room : (branchLabel name before).length < LABEL_LEN := by
    simp [branchLabel, LABEL_LEN, MAX_PATH_STR_LEN, EXPORT_XPUB_PATH_LEN]
    omega
  have last : (branchLabel name before).getLast? = some (if before then '1' else '0') := by
    rw [branchLabel, List.getLast?_append]
    rfl
  have rest : (branchLabel name before).dropLast = name ++ ['/'] := by
    rw [branchLabel, List.dropLast_append_cons]
    rfl
  rw [labelBranch, decide_eq_true room, Check.ensure_true, Check.ok_bind, last, rest]
  cases before <;> simp [branchLabel]

/-! ### What is to be searched -/

/-- The accounts 0, 1, 2 and the one that is selected, or no account of a registered wallet; on both branches. -/
def Covered (source : Source) (account_index : UInt16) (target : Target) : Prop :=
  if source.registered_wallet then target.account_index = 0
  else target.account_index.toNat < 3 ∨ target.account_index = account_index

/-- The roots of a target. -/
def rootsOf {Key : Type} (lib : Library Key) (source : Source) (target : Target) : List Key :=
  match source with
  | .singlesig coin_type variant =>
    [lib.wallet_get_hdkey (searchPath ((get_script_variant_purpose variant).getD 0) coin_type target)]
  | .multisig _ multisig_data =>
    multisig_data.xpubs.map fun xpub => lib.wallet_derive_pubkey xpub [changeElement target.is_change]
  | .descriptor _ _ => []

/-- The script of a target at an index. -/
def scriptOf {Key : Type} (lib : Library Key) (source : Source) (target : Target) (index : Nat) : Bytes :=
  match source with
  | .singlesig coin_type variant =>
    lib.singlesig_script variant
      (lib.wallet_get_hdkey (searchPath ((get_script_variant_purpose variant).getD 0) coin_type target)) index
  | .multisig _ multisig_data => lib.multisig_script multisig_data (rootsOf lib source target) index
  | .descriptor _ _ => lib.descriptor_script (if target.is_change then 1 else 0) index

/-- The text of a path, or the name and the branch. -/
def targetLabel (source : Source) (target : Target) : List Char :=
  match source with
  | .singlesig coin_type variant =>
    ((wallet_bip32_path_as_str (searchPath ((get_script_variant_purpose variant).getD 0) coin_type target) LABEL_LEN
      false).getD "").toList
  | .multisig name _ => branchLabel name target.is_change
  | .descriptor name _ => branchLabel name target.is_change

/-- What is shown for a target and an index. -/
def pathOf (source : Source) (target : Target) (index : Nat) : List Char :=
  targetLabel source target ++ '/' :: (Nat.repr index).toList

/-- A wallet whose scripts are as long as the one that is looked for, with a name that can be stored. -/
def Source.Valid (source : Source) (script : Bytes) : Prop :=
  match source with
  | .singlesig _ variant => is_singlesig variant = true ∧ script.length = script_length_for_variant variant
  | .multisig name multisig_data =>
    name.length < 16 ∧ is_multisig multisig_data.variant = true ∧ 0 < multisig_data.threshold ∧
      0 < multisig_data.xpubs.length ∧ multisig_data.xpubs.length ≤ MAX_ALLOWED_SIGNERS ∧
      script.length = script_length_for_variant multisig_data.variant
  | .descriptor name num_values => name.length < 16 ∧ num_values ≤ MAX_ALLOWED_SIGNERS

/-- The label of a registered wallet names one of its branches. -/
def LabelOk (source : Source) (label : List Char) : Prop :=
  match source with
  | .singlesig _ _ => True
  | .multisig name _ => ∃ is_change, label = branchLabel name is_change
  | .descriptor name _ => ∃ is_change, label = branchLabel name is_change

/-! ### The targets -/

/-- The targets that are built for an account. -/
def targetsOf (source : Source) (account_index : UInt16) : List Target :=
  branches (if source.registered_wallet then [0] else get_search_accounts account_index)

theorem mem_branches {accounts : List UInt16} {target : Target} : target ∈ branches accounts ↔ target.account_index ∈ accounts := by
  obtain ⟨account_index, is_change⟩ := target
  cases is_change <;> simp [branches]

theorem nodup_branches {accounts : List UInt16} (distinct : accounts.Nodup) : (branches accounts).Nodup := by
  refine List.nodup_flatMap.mpr ⟨fun account _ => by simp, distinct.imp ?_⟩
  intro a b different
  simp [Function.onFun, List.disjoint_left, different]

theorem mem_get_search_accounts {account_index a : UInt16} :
    a ∈ get_search_accounts account_index ↔ a.toNat < 3 ∨ a = account_index := by
  have three : a ∈ ([0, 1, 2] : List UInt16) ↔ a.toNat < 3 := by
    simp only [List.mem_cons, List.not_mem_nil, or_false, ← UInt16.toNat_inj]
    show a.toNat = 0 ∨ a.toNat = 1 ∨ a.toNat = 2 ↔ _
    omega
  rw [get_search_accounts, List.mem_append, three, VERIFY_SEARCH_ACCOUNTS]
  by_cases more : 3 ≤ account_index.toNat
  · rw [if_pos more, List.mem_singleton]
  · rw [if_neg more]
    refine ⟨fun among => .inl (among.resolve_right List.not_mem_nil), fun among => .inl ?_⟩
    obtain small | rfl := among
    · exact small
    · omega

theorem nodup_get_search_accounts (account_index : UInt16) : (get_search_accounts account_index).Nodup := by
  rw [get_search_accounts, VERIFY_SEARCH_ACCOUNTS]
  by_cases more : 3 ≤ account_index.toNat
  · rw [if_pos more]
    refine List.Nodup.append (by decide) (List.nodup_singleton _) (List.disjoint_singleton.mpr fun among => ?_)
    simp only [List.mem_cons, List.not_mem_nil, or_false] at among
    obtain rfl | rfl | rfl := among
    · exact absurd more (by decide)
    · exact absurd more (by decide)
    · exact absurd more (by decide)
  · rw [if_neg more]
    decide

theorem mem_targetsOf {source : Source} {account_index : UInt16} {target : Target} :
    target ∈ targetsOf source account_index ↔ Covered source account_index target := by
  rw [targetsOf, mem_branches, Covered]
  split
  · exact List.mem_singleton
  · exact mem_get_search_accounts

theorem nodup_targetsOf (source : Source) (account_index : UInt16) : (targetsOf source account_index).Nodup := by
  apply nodup_branches
  split
  · exact List.nodup_singleton 0
  · exact nodup_get_search_accounts account_index

/-- The most targets there are. -/
def Source.max_targets (source : Source) : Nat := if source.registered_wallet then 2 else VERIFY_SEARCH_MAX_TARGETS

theorem length_branches (accounts : List UInt16) : (branches accounts).length = 2 * accounts.length := by
  induction accounts with
  | nil => rfl
  | cons a rest ih =>
    rw [branches, List.flatMap_cons, List.length_append, ← branches, ih, List.length_cons]
    simp
    omega

theorem length_targetsOf (source : Source) (account_index : UInt16) :
    (targetsOf source account_index).length ≤ source.max_targets := by
  rw [targetsOf, length_branches, Source.max_targets]
  split
  · exact Nat.le_refl _
  · rw [get_search_accounts, List.length_append]
    split <;> simp [VERIFY_SEARCH_MAX_TARGETS, VERIFY_SEARCH_MAX_ACCOUNTS, VERIFY_SEARCH_ACCOUNTS]

theorem length_rootsOf {Key : Type} (lib : Library Key) (source : Source) (target : Target) :
    (rootsOf lib source target).length = source.roots_per_target := by
  cases source <;> simp [rootsOf, Source.roots_per_target]

/-! ### Building -/

section
variable {Key : Type} {lib : Library Key} {source : Source} {script : Bytes}

theorem get_search_target_eq (valid : source.Valid script) (target : Target) {label : List Char} (ok : LabelOk source label)
    {search_roots : List Key} {offset : Nat} (room : offset + source.roots_per_target ≤ search_roots.length) :
    get_search_target lib source target label search_roots offset =
      .ok (targetLabel source target,
        search_roots.take offset ++ rootsOf lib source target ++ search_roots.drop (offset + source.roots_per_target)) := by
  cases source with
  | singlesig coin_type variant =>
    obtain ⟨purpose, known⟩ := purpose_of_singlesig valid.1
    obtain ⟨text, written⟩ := searchPath_text purpose coin_type target
    simp only [get_search_target, get_singlesig_search_root, known, written, Check.ok_bind, Source.roots_per_target] at room ⊢
    rw [writeRoots, List.length_singleton, if_pos room]
    simp [targetLabel, rootsOf, known, written]
  | multisig name multisig_data =>
    obtain ⟨before, rfl⟩ := ok
    obtain ⟨short, _, _, some_key, _⟩ := valid
    simp only [get_search_target, decide_eq_true some_key, Check.ensure_true, Check.ok_bind, Source.roots_per_target] at room ⊢
    rw [writeRoots, List.length_map, if_pos room, Check.ok_bind, labelBranch_eq short]
    rfl
  | descriptor name num_values =>
    obtain ⟨before, rfl⟩ := ok
    simp only [get_search_target, labelBranch_eq valid.1, Check.ok_bind]
    simp [targetLabel, rootsOf, Source.roots_per_target]

theorem targetLabel_ok (source : Source) (target : Target) : LabelOk source (targetLabel source target) := by
  cases source with
  | singlesig coin_type variant => trivial
  | multisig name multisig_data => exact ⟨target.is_change, rfl⟩
  | descriptor name num_values => exact ⟨target.is_change, rfl⟩

/-- Targets with their roots in the allocation, each at its place. -/
structure BuiltOk (lib : Library Key) (source : Source) (targets : List Target) (built : Built Key) : Prop where
  same : built.targets = targets
  allocated : built.search_roots.length = source.max_targets * source.roots_per_target
  roots : ∀ i target, targets[i]? = some target →
    (built.search_roots.drop (i * source.roots_per_target)).take source.roots_per_target = rootsOf lib source target
  label : LabelOk source built.label

/-- The places before one that is written keep their keys. -/
theorem written_before {roots keys : List Key} {n w i : Nat} (room : n * w + w ≤ roots.length) (before : i < n) :
    ((roots.take (n * w) ++ keys ++ roots.drop (n * w + w)).drop (i * w)).take w = (roots.drop (i * w)).take w := by
  have within : i * w + w ≤ n * w := by
    rw [← Nat.succ_mul]
    exact Nat.mul_le_mul_right w before
  have size : (roots.take (n * w)).length = n * w := by
    rw [List.length_take]
    omega
  rw [List.append_assoc, List.drop_append_of_le_length (by omega), List.take_append_of_le_length (by
    rw [List.length_drop]
    omega), List.drop_take, List.take_take, Nat.min_eq_left (by omega)]

theorem written_at {roots keys : List Key} {n w : Nat} (room : n * w + w ≤ roots.length) (size : keys.length = w) :
    ((roots.take (n * w) ++ keys ++ roots.drop (n * w + w)).drop (n * w)).take w = keys := by
  have front : (roots.take (n * w)).length = n * w := by
    rw [List.length_take]
    omega
  have behind : (roots.take (n * w) ++ (keys ++ roots.drop (n * w + w))).drop (n * w) = keys ++ roots.drop (n * w + w) :=
    List.drop_left' front
  rw [List.append_assoc, behind]
  exact List.take_left' size

theorem buildFrom_ok (valid : source.Valid script) {front : List Target} {built : Built Key} (ok : BuiltOk lib source front built)
    (target : Target) (room : front.length < source.max_targets) :
    ∃ next, buildFrom lib source built target = .ok next ∧ BuiltOk lib source (front ++ [target]) next := by
  have most : source.max_targets ≤ VERIFY_SEARCH_MAX_TARGETS := by
    rw [Source.max_targets]
    split <;> decide
  have within : front.length * source.roots_per_target + source.roots_per_target ≤ built.search_roots.length := by
    rw [ok.allocated, ← Nat.succ_mul]
    exact Nat.mul_le_mul_right _ room
  have count : decide (built.targets.length < VERIFY_SEARCH_MAX_TARGETS) = true := by
    rw [ok.same]
    exact decide_eq_true (Nat.lt_of_lt_of_le room most)
  have size := length_rootsOf lib source target
  refine ⟨{
    targets := front ++ [target]
    label := targetLabel source target
    search_roots := built.search_roots.take (front.length * source.roots_per_target) ++ rootsOf lib source target ++
      built.search_roots.drop (front.length * source.roots_per_target + source.roots_per_target) }, ?_, ?_⟩
  · rw [buildFrom, count, Check.ensure_true, Check.ok_bind, ok.same, get_search_target_eq valid target ok.label within]
    rfl
  · refine { same := rfl, allocated := ?_, roots := ?_, label := targetLabel_ok source target }
    · rw [← ok.allocated]
      simp only [List.length_append, List.length_take, List.length_drop, size]
      omega
    · intro i other there
      by_cases before : i < front.length
      · rw [written_before within before]
        rw [List.getElem?_append_left before] at there
        exact ok.roots i other there
      · have last : i = front.length := by
          have inside := (List.getElem?_eq_some_iff.mp there).1
          rw [List.length_append, List.length_singleton] at inside
          omega
        subst last
        rw [List.getElem?_append_right (Nat.le_refl _), Nat.sub_self] at there
        cases there
        exact written_at within size

/-- The targets of an account are built, and their roots fit. -/
theorem build_search_targets_ok (valid : source.Valid script) (account_index : UInt16) {label : List Char}
    (ok : LabelOk source label) {search_roots : List Key}
    (allocated : search_roots.length = source.max_targets * source.roots_per_target) :
    ∃ built, build_search_targets lib source account_index label search_roots = .ok built ∧
      BuiltOk lib source (targetsOf source account_index) built := by
  have bound := length_targetsOf source account_index
  have start : BuiltOk lib source [] { targets := [], label := label, search_roots := search_roots } :=
    { same := rfl, allocated := allocated, roots := fun i target there => by simp at there, label := ok }
  have whole : ∀ (rest front : List Target) (built : Built Key), BuiltOk lib source front built →
      (front ++ rest).length ≤ source.max_targets →
      ∃ next, Check.fold (buildFrom lib source) built rest = .ok next ∧ BuiltOk lib source (front ++ rest) next := by
    intro rest
    induction rest with
    | nil => exact fun front built ok _ => ⟨built, rfl, by rwa [List.append_nil]⟩
    | cons target rest ih =>
      intro front built ok bound
      rw [List.length_append, List.length_cons] at bound
      obtain ⟨next, once, kept⟩ := buildFrom_ok valid ok target (by omega)
      obtain ⟨final, later, done⟩ := ih (front ++ [target]) next kept (by simp; omega)
      refine ⟨final, by rw [Check.fold, once, Check.ok_bind, later], ?_⟩
      rwa [List.append_assoc] at done
  exact whole _ [] _ start bound

end

end PiJade.AddressSearch
