import Mathlib.Data.Finset.Card
import Mathlib.Data.Fintype.Card
import PiJade.Slip39

/-!
What the collector of shares always satisfies. Shares come from `slip39_parse_share`, in any
number and order. The counters count groups, the tables hold exactly the shares stored, and
as soon as enough groups are complete there is no other group that has begun, so none of the
assertions of `slip39_combine` fails.
-/
namespace PiJade.Slip39
set_option linter.unusedSimpArgs false
open Shamir (shamir_interpolate)

/-! ### Parsed shares -/

/-- What the fields of a share can be. -/
structure Limits (share : Share) : Prop where
  value_len : share.value.length = 16 ∨ share.value.length = 32
  group_index : share.group_index < SLIP39_MAX_GROUPS
  group_threshold : 1 ≤ share.group_threshold ∧ share.group_threshold ≤ share.group_count
  group_count : share.group_count ≤ SLIP39_MAX_GROUPS
  member_index : share.member_index.toNat < SLIP39_MAX_MEMBERS
  member_threshold : 1 ≤ share.member_threshold ∧ share.member_threshold ≤ SLIP39_MAX_MEMBERS
  exponent : share.iteration_exponent < 16

theorem takeBytes_length (acc : UInt64) (bits : Nat) : (takeBytes acc bits).length = bits / 8 := by
  fun_induction takeBytes acc bits with
  | case1 bits ih =>
    rw [List.length_cons, ih]
    omega
  | case2 bits small =>
    have few : bits < 8 := by
      by_contra large
      exact small (bits - 8) (by omega)
    rw [List.length_nil]
    omega

/-- Only the number of bits decides how many bytes come out. -/
theorem valueBytes_length (words : List (Nat × UInt16)) : ∀ (acc : UInt64) (bits : Nat), bits < 8 →
    (valueBytes acc bits words).1.length = (bits + (words.map Prod.fst).sum) / 8 ∧
      (valueBytes acc bits words).2 = (bits + (words.map Prod.fst).sum) % 8 := by
  induction words with
  | nil =>
    intro acc bits few
    simp only [valueBytes, List.map_nil, List.sum_nil, List.length_nil]
    omega
  | cons first rest ih =>
    intro acc bits few
    obtain ⟨nbits, word⟩ := first
    obtain ⟨length, left⟩ := ih (acc <<< UInt64.ofNat nbits ||| word.toUInt64) ((bits + nbits) % 8) (Nat.mod_lt _ (by decide))
    simp only [valueBytes, List.length_append, takeBytes_length, length, left, List.map_cons, List.sum_cons]
    omega

theorem four_bits (word : UInt32) : (word &&& 0x0F).toNat < 16 := by
  rw [UInt32.toNat_and]
  exact Nat.lt_of_le_of_lt Nat.and_le_right (by decide)

/-- A check that was passed. -/
theorem not_of_passed {refused : Prop} [Decidable refused] {err : Err} {rest : Check Fault (Except Err Share)}
    {share : Share} (passed : (if refused then .ok (.error err) else rest) = .ok (.ok share)) :
    ¬ refused ∧ rest = .ok (.ok share) := by
  by_cases holds : refused
  · rw [if_pos holds] at passed
    cases passed
  · rw [if_neg holds] at passed
    exact ⟨holds, passed⟩

/-- The bits of the value in a share of some words. -/
def valueBits (num_words : Nat) : Nat :=
  ((List.range (num_words - METADATA_LENGTH_WORDS)).map fun i =>
    if i = 0 then RADIX_BITS - RADIX_BITS * (num_words - METADATA_LENGTH_WORDS) % 16 else RADIX_BITS).sum

theorem read_share_limits {indices : List UInt16} {share : Share}
    (length : indices.length = SLIP39_SHORT_SHARE_WORDS ∨ indices.length = SLIP39_LONG_SHARE_WORDS)
    (read : read_share indices = .ok (.ok share)) : Limits share := by
  simp only [read_share] at read
  obtain ⟨-, read⟩ := not_of_passed read
  obtain ⟨ordered, read⟩ := not_of_passed read
  obtain ⟨-, read⟩ := not_of_passed read
  simp only [Check.bind_eq_ok, Check.pure_eq, Except.ok.injEq] at read
  obtain ⟨_, whole, _, fits, rfl⟩ := read
  constructor
  case value_len =>
    show (valueBytes 0 0 _).1.length = 16 ∨ (valueBytes 0 0 _).1.length = 32
    rw [(valueBytes_length _ 0 0 (by decide)).1, List.map_map]
    rcases length with short | long
    · left
      rw [short]
      exact (show (0 + valueBits SLIP39_SHORT_SHARE_WORDS) / 8 = 16 by decide)
    · right
      rw [long]
      exact (show (0 + valueBits SLIP39_LONG_SHARE_WORDS) / 8 = 32 by decide)
  case group_index => exact four_bits _
  case group_threshold => exact ⟨Nat.succ_le_succ (Nat.zero_le _), Nat.succ_le_succ (Nat.not_lt.mp ordered)⟩
  case group_count => exact four_bits _
  case member_index =>
    show (UInt32.toUInt8 _).toNat < 16
    rw [UInt32.toNat_toUInt8]
    exact Nat.lt_of_le_of_lt (Nat.mod_le _ _) (four_bits _)
  case member_threshold => exact ⟨Nat.succ_le_succ (Nat.zero_le _), four_bits _⟩
  case exponent => exact four_bits _

variable {wordlist : Nat → Bytes}

theorem slip39_parse_share_limits {mnemonic : Bytes} {share : Share}
    (parsed : slip39_parse_share wordlist mnemonic = .ok (.ok share)) : Limits share := by
  simp only [slip39_parse_share, Check.bind_eq_ok] at parsed
  obtain ⟨_, _, rest⟩ := parsed
  split at rest
  case h_1 => cases rest
  case h_2 indices _ =>
    split at rest
    case isTrue => cases rest
    case isFalse length =>
      apply read_share_limits _ rest
      by_contra other
      exact length ⟨fun short => other (.inl short), fun long => other (.inr long)⟩

variable (wordlist) in
/-- A share that `slip39_parse_share` returned. -/
structure Parsed where
  share : Share
  mnemonic : Bytes
  parsed : slip39_parse_share wordlist mnemonic = .ok (.ok share)

theorem Parsed.limits (parsed : Parsed wordlist) : Limits parsed.share := slip39_parse_share_limits parsed.parsed

/-! ### The invariant -/

/-- The shares of one group. -/
def ofGroup (stored : List Share) (g : Fin SLIP39_MAX_GROUPS) : List Share :=
  stored.filter fun share => share.group_index = g.val

/-- The groups that have a share. -/
def Ctx.begun (ctx : Ctx) : Finset (Fin SLIP39_MAX_GROUPS) := Finset.univ.filter fun g => (ctx.groups g).count ≠ 0

/-- The groups that have all their shares. -/
def Ctx.full (ctx : Ctx) : Finset (Fin SLIP39_MAX_GROUPS) :=
  Finset.univ.filter fun g => (ctx.groups g).count ≠ 0 ∧ (ctx.groups g).count = (ctx.groups g).threshold

/-- A context that collects a backup, and the shares it has stored. -/
structure Collecting (ctx : Ctx) (stored : List Share) : Prop where
  started : ctx.started = true
  value_len : ctx.value_len = 16 ∨ ctx.value_len = 32
  group_threshold : 1 ≤ ctx.group_threshold
  agrees : ∀ share ∈ stored, ctx.agrees share = true
  members : ∀ g, (ctx.groups g).members = (ofGroup stored g).map fun share => (share.member_index, share.value)
  thresholds : ∀ g, ∀ share ∈ ofGroup stored g, share.member_threshold = (ctx.groups g).threshold
  distinct : ∀ g, ((ctx.groups g).members.map Prod.fst).Nodup
  threshold : ∀ g, (ctx.groups g).threshold ≤ SLIP39_MAX_MEMBERS
  count : ∀ g, (ctx.groups g).count ≤ (ctx.groups g).threshold
  groups_started : ctx.groups_started = ctx.begun.card
  started_le : ctx.groups_started ≤ ctx.group_threshold
  groups_complete : ctx.groups_complete = ctx.full.card

/-- What holds between calls: nothing has come, or a backup is being collected. -/
def Valid (ctx : Ctx) (stored : List Share) : Prop := ctx = slip39_init ∧ stored = [] ∨ Collecting ctx stored

section
variable {ctx : Ctx} {stored : List Share} {share : Share}

/-- The first share of all opens the collection. -/
theorem adopt_collecting (limits : Limits share) : Collecting (slip39_init.adopt share) [] where
  started := rfl
  value_len := limits.value_len
  group_threshold := limits.group_threshold.1
  agrees _ member := by cases member
  members _ := rfl
  thresholds _ _ member := by cases member
  distinct _ := List.nodup_nil
  threshold _ := Nat.zero_le _
  count _ := Nat.zero_le _
  groups_started := (Finset.card_eq_zero.mpr (by decide : slip39_init.begun = ∅)).symm
  started_le := Nat.zero_le _
  groups_complete := (Finset.card_eq_zero.mpr (by decide : slip39_init.full = ∅)).symm

theorem adopt_agrees (ctx : Ctx) (share : Share) : (ctx.adopt share).agrees share = true := by
  simp [Ctx.agrees, Ctx.adopt]

theorem Collecting.count_eq (collecting : Collecting ctx stored) (g : Fin SLIP39_MAX_GROUPS) :
    (ctx.groups g).count = (ofGroup stored g).length := by
  rw [Group.count, collecting.members g, List.length_map]

/-- The group of a share with the share stored. -/
def Group.with (group : Group) (share : Share) : Group where
  threshold := if group.count = 0 then share.member_threshold else group.threshold
  members := group.members ++ [(share.member_index, share.value)]

/-- The context with a share stored. -/
def Ctx.with (ctx : Ctx) (g : Fin SLIP39_MAX_GROUPS) (share : Share) : Ctx :=
  { ctx with
    groups_started := if (ctx.groups g).count = 0 then ctx.groups_started + 1 else ctx.groups_started
    groups_complete := if ((ctx.groups g).with share).count = ((ctx.groups g).with share).threshold then
      ctx.groups_complete + 1 else ctx.groups_complete
    groups := Function.update ctx.groups g ((ctx.groups g).with share) }

theorem count_with (group : Group) (share : Share) : (group.with share).count = group.count + 1 := by
  rw [Group.count, Group.with, List.length_append]
  rfl

theorem mem_begun {g : Fin SLIP39_MAX_GROUPS} : g ∈ ctx.begun ↔ (ctx.groups g).count ≠ 0 := by
  simp [Ctx.begun]

theorem mem_full {g : Fin SLIP39_MAX_GROUPS} :
    g ∈ ctx.full ↔ (ctx.groups g).count ≠ 0 ∧ (ctx.groups g).count = (ctx.groups g).threshold := by
  simp [Ctx.full]

@[simp] theorem groups_with_self (ctx : Ctx) (g : Fin SLIP39_MAX_GROUPS) (share : Share) :
    (ctx.with g share).groups g = (ctx.groups g).with share := by
  simp [Ctx.with]

@[simp] theorem groups_with_other (ctx : Ctx) {g other : Fin SLIP39_MAX_GROUPS} (share : Share) (apart : other ≠ g) :
    (ctx.with g share).groups other = ctx.groups other := by
  simp [Ctx.with, apart]

/-- One more share in a group begins it, if it is the first. -/
theorem begun_with (ctx : Ctx) (g : Fin SLIP39_MAX_GROUPS) (share : Share) :
    (ctx.with g share).begun = insert g ctx.begun := by
  ext other
  by_cases own : other = g
  · subst own
    simp [mem_begun, count_with]
  · simp [mem_begun, own]

theorem full_with (ctx : Ctx) (g : Fin SLIP39_MAX_GROUPS) (share : Share) (short : g ∉ ctx.full) :
    (ctx.with g share).full =
      if ((ctx.groups g).with share).count = ((ctx.groups g).with share).threshold then insert g ctx.full else ctx.full := by
  by_cases complete : ((ctx.groups g).with share).count = ((ctx.groups g).with share).threshold
  · rw [if_pos complete]
    ext other
    by_cases own : other = g
    · subst own
      simp [mem_full, complete.symm, count_with]
    · simp [mem_full, own]
  · rw [if_neg complete]
    ext other
    by_cases own : other = g
    · subst own
      simp only [short, iff_false, mem_full, groups_with_self]
      exact fun both => complete both.2
    · simp [mem_full, own]

/-- Nothing stands against storing the share in its group. -/
structure Fits (ctx : Ctx) (g : Fin SLIP39_MAX_GROUPS) (share : Share) : Prop where
  same : (ctx.groups g).count ≠ 0 → (ctx.groups g).threshold = share.member_threshold
  unknown : share.member_index ∉ (ctx.groups g).members.map Prod.fst
  short : (ctx.groups g).count ≠ 0 → (ctx.groups g).count ≠ (ctx.groups g).threshold
  room : (ctx.groups g).count = 0 → ctx.groups_started ≠ ctx.group_threshold

/-- A share that fits is stored, and the invariant stays. -/
theorem Collecting.with (collecting : Collecting ctx stored) (limits : Limits share) (agrees : ctx.agrees share = true)
    {g : Fin SLIP39_MAX_GROUPS} (index : share.group_index = g.val) (fits : Fits ctx g share) :
    Collecting (ctx.with g share) (stored ++ [share]) := by
  obtain ⟨same, unknown, short, room⟩ := fits
  have not_full : g ∉ ctx.full := fun full => short (mem_full.mp full).1 (mem_full.mp full).2
  have threshold : ((ctx.groups g).with share).threshold = share.member_threshold := by
    show (if (ctx.groups g).count = 0 then share.member_threshold else (ctx.groups g).threshold) = _
    by_cases first : (ctx.groups g).count = 0
    · rw [if_pos first]
    · rw [if_neg first, same first]
  have own_shares : ofGroup (stored ++ [share]) g = ofGroup stored g ++ [share] := by
    simp [ofGroup, index]
  have other_shares : ∀ other, other ≠ g → ofGroup (stored ++ [share]) other = ofGroup stored other := by
    intro other apart
    have differs : share.group_index ≠ other.val := by
      rw [index]
      exact fun same => apart (Fin.ext same.symm)
    simp [ofGroup, differs]
  constructor
  case started => exact collecting.started
  case value_len => exact collecting.value_len
  case group_threshold => exact collecting.group_threshold
  case agrees =>
    intro one member
    rcases List.mem_append.mp member with earlier | last
    · exact collecting.agrees one earlier
    · rw [List.mem_singleton.mp last]
      exact agrees
  case members =>
    intro other
    by_cases own : other = g
    · subst own
      rw [groups_with_self, own_shares, List.map_append, ← collecting.members]
      rfl
    · rw [groups_with_other ctx share own, other_shares other own, collecting.members]
  case thresholds =>
    intro other one member
    by_cases own : other = g
    · subst own
      rw [own_shares] at member
      rw [groups_with_self, threshold]
      rcases List.mem_append.mp member with earlier | last
      · have some_share : (ctx.groups other).count ≠ 0 := by
          rw [collecting.count_eq]
          exact Nat.pos_iff_ne_zero.mp (List.length_pos_of_mem earlier)
        rw [collecting.thresholds other one earlier, same some_share]
      · rw [List.mem_singleton.mp last]
    · rw [other_shares other own] at member
      rw [groups_with_other ctx share own]
      exact collecting.thresholds other one member
  case distinct =>
    intro other
    by_cases own : other = g
    · subst own
      rw [groups_with_self]
      show ((ctx.groups other).members ++ [(share.member_index, share.value)]).map Prod.fst |>.Nodup
      rw [List.map_append]
      apply List.nodup_append'.mpr
      exact ⟨collecting.distinct other, by simp, by simpa using unknown⟩
    · rw [groups_with_other ctx share own]
      exact collecting.distinct other
  case threshold =>
    intro other
    by_cases own : other = g
    · subst own
      rw [groups_with_self, threshold]
      exact limits.member_threshold.2
    · rw [groups_with_other ctx share own]
      exact collecting.threshold other
  case count =>
    intro other
    by_cases own : other = g
    · subst own
      rw [groups_with_self, count_with, threshold]
      by_cases first : (ctx.groups other).count = 0
      · rw [first]
        exact limits.member_threshold.1
      · have most := collecting.count other
        have missing := short first
        rw [same first] at most missing
        omega
    · rw [groups_with_other ctx share own]
      exact collecting.count other
  case groups_started =>
    rw [begun_with]
    show (if (ctx.groups g).count = 0 then ctx.groups_started + 1 else ctx.groups_started) = _
    by_cases first : (ctx.groups g).count = 0
    · rw [if_pos first, Finset.card_insert_of_notMem (fun begun => mem_begun.mp begun first), collecting.groups_started]
    · rw [if_neg first, Finset.insert_eq_of_mem (mem_begun.mpr first), collecting.groups_started]
  case started_le =>
    show (if (ctx.groups g).count = 0 then ctx.groups_started + 1 else ctx.groups_started) ≤ ctx.group_threshold
    have most := collecting.started_le
    by_cases first : (ctx.groups g).count = 0
    · have missing := room first
      rw [if_pos first]
      omega
    · rw [if_neg first]
      exact most
  case groups_complete =>
    rw [full_with ctx g share not_full]
    show (if ((ctx.groups g).with share).count = ((ctx.groups g).with share).threshold then
      ctx.groups_complete + 1 else ctx.groups_complete) = _
    by_cases complete : ((ctx.groups g).with share).count = ((ctx.groups g).with share).threshold
    · rw [if_pos complete, if_pos complete, Finset.card_insert_of_notMem not_full, collecting.groups_complete]
    · rw [if_neg complete, if_neg complete, collecting.groups_complete]

/-! ### One call -/

theorem find?_index {members : List (UInt8 × Bytes)} {index : UInt8} (unknown : index ∉ members.map Prod.fst) :
    members.find? (fun member => member.1 = index) = none := by
  rw [List.find?_eq_none]
  intro member stored found
  exact unknown (List.mem_map.mpr ⟨member, stored, of_decide_eq_true found⟩)

theorem add_fits (collecting : Collecting ctx stored) {g : Fin SLIP39_MAX_GROUPS} (fits : Fits ctx g share) :
    ctx.add g share = .ok (.OK, ctx.with g share) := by
  have few : (ctx.groups g).count < SLIP39_MAX_MEMBERS := by
    by_cases first : (ctx.groups g).count = 0
    · rw [first]
      decide
    · have most := collecting.count g
      have missing := fits.short first
      have bound := collecting.threshold g
      omega
  rw [Ctx.add, if_neg fun differs => differs.2 (fits.same differs.1), find?_index fits.unknown]
  dsimp only
  rw [if_neg fun full => fits.short full.1 full.2, if_neg fun full => fits.room full.1 full.2, Ctx.store, if_pos few]
  rfl

/-- A share is stored, or refused with the context left as it is. -/
theorem add_cases (collecting : Collecting ctx stored) (g : Fin SLIP39_MAX_GROUPS) (share : Share) :
    Fits ctx g share ∧ ctx.add g share = .ok (.OK, ctx.with g share) ∨
      ∃ err, err ≠ .OK ∧ ctx.add g share = .ok (err, ctx) := by
  by_cases differs : (ctx.groups g).count ≠ 0 ∧ (ctx.groups g).threshold ≠ share.member_threshold
  · refine .inr ⟨.ERR_SET, by decide, ?_⟩
    rw [Ctx.add, if_pos differs]
  by_cases known : share.member_index ∈ (ctx.groups g).members.map Prod.fst
  · cases found : (ctx.groups g).members.find? (fun member => member.1 = share.member_index) with
    | none =>
      obtain ⟨member, stored, same⟩ := List.mem_map.mp known
      exact absurd (decide_eq_true same) (List.find?_eq_none.mp found member stored)
    | some member =>
      refine .inr ⟨if member.2 = share.value then .ERR_DUPLICATE else .ERR_SET, ?_, ?_⟩
      · split <;> decide
      · rw [Ctx.add, if_neg differs, found]
  by_cases full : (ctx.groups g).count ≠ 0 ∧ (ctx.groups g).count = (ctx.groups g).threshold
  · refine .inr ⟨.ERR_GROUP_FULL, by decide, ?_⟩
    rw [Ctx.add, if_neg differs, find?_index known]
    dsimp only
    rw [if_pos full]
  by_cases enough : (ctx.groups g).count = 0 ∧ ctx.groups_started = ctx.group_threshold
  · refine .inr ⟨.ERR_GROUPS_FULL, by decide, ?_⟩
    rw [Ctx.add, if_neg differs, find?_index known]
    dsimp only
    rw [if_neg full, if_pos enough]
  have fits : Fits ctx g share := by
    refine ⟨?_, known, fun some_share same => full ⟨some_share, same⟩, fun first same => enough ⟨first, same⟩⟩
    intro some_share
    by_contra apart
    exact differs ⟨some_share, apart⟩
  exact .inl ⟨fits, add_fits collecting fits⟩

/-- The assertions on a share hold within the limits. -/
theorem slip39_add_share_eq (limits : Limits share) :
    slip39_add_share ctx share =
      if !ctx.started then (ctx.adopt share).add ⟨share.group_index, limits.group_index⟩ share
      else if !ctx.agrees share then .ok (.ERR_SET, ctx)
      else ctx.add ⟨share.group_index, limits.group_index⟩ share := by
  have value : (decide (share.value.length ≠ 0) && decide (share.value.length ≤ SLIP39_SHARE_VALUE_MAX)) = true := by
    rcases limits.value_len with length | length
    · rw [length]
      rfl
    · rw [length]
      rfl
  have threshold : (decide (share.member_threshold ≠ 0) && decide (share.member_threshold ≤ SLIP39_MAX_MEMBERS)) = true := by
    obtain ⟨positive, most⟩ := limits.member_threshold
    simp only [Bool.and_eq_true, decide_eq_true_eq]
    omega
  rw [slip39_add_share, value, Check.ensure_true, Check.ok_bind, dif_pos limits.group_index,
    decide_eq_true limits.member_index, Check.ensure_true, Check.ok_bind, threshold, Check.ensure_true, Check.ok_bind]
  rfl

theorem slip39_add_share_cases (valid : Valid ctx stored) (limits : Limits share) :
    (∃ after, slip39_add_share ctx share = .ok (.OK, after) ∧ Collecting after (stored ++ [share])) ∨
      ∃ err, err ≠ .OK ∧ slip39_add_share ctx share = .ok (err, ctx) := by
  rw [slip39_add_share_eq limits]
  rcases valid with ⟨rfl, rfl⟩ | collecting
  · have collecting := adopt_collecting limits
    have fits : Fits (slip39_init.adopt share) ⟨share.group_index, limits.group_index⟩ share := by
      refine ⟨fun some_share => absurd rfl some_share, by simp [slip39_init, Ctx.adopt],
        fun some_share => absurd rfl some_share, ?_⟩
      intro _ same
      have positive := limits.group_threshold.1
      have none : 0 = share.group_threshold := same
      omega
    refine .inl ⟨_, add_fits collecting fits, ?_⟩
    exact collecting.with limits (adopt_agrees _ _) rfl fits
  · rw [collecting.started, if_neg (by decide)]
    cases agrees : ctx.agrees share with
    | false => exact .inr ⟨.ERR_SET, by decide, rfl⟩
    | true =>
      rw [if_neg (by decide)]
      rcases add_cases collecting ⟨share.group_index, limits.group_index⟩ share with ⟨fits, run⟩ | refused
      · exact .inl ⟨_, run, collecting.with limits agrees rfl fits⟩
      · exact .inr refused

/-! ### Runs -/

/-- Shares added one after another, with what each call returns. -/
def feed (ctx : Ctx) : List Share → Check Fault (List Err × Ctx)
  | [] => pure ([], ctx)
  | share :: rest => do
    let (err, ctx) ← slip39_add_share ctx share
    let (errs, ctx) ← feed ctx rest
    pure (err :: errs, ctx)

/-- The shares that were stored. -/
def storedOf (shares : List Share) (errs : List Err) : List Share :=
  ((shares.zip errs).filter fun given => given.2 = .OK).map Prod.fst

theorem feed_valid {shares : List Share} (limits : ∀ share ∈ shares, Limits share) (valid : Valid ctx stored) :
    ∃ errs after, feed ctx shares = .ok (errs, after) ∧ Valid after (stored ++ storedOf shares errs) := by
  induction shares generalizing ctx stored with
  | nil => exact ⟨[], ctx, rfl, by simpa [storedOf] using valid⟩
  | cons share rest ih =>
    have later : ∀ share ∈ rest, Limits share := fun other member => limits other (List.mem_cons_of_mem _ member)
    rcases slip39_add_share_cases valid (limits share List.mem_cons_self) with ⟨next, run, collecting⟩ | ⟨err, refused, run⟩
    · obtain ⟨errs, after, rest_run, done⟩ := ih later (.inr collecting)
      refine ⟨.OK :: errs, after, ?_, ?_⟩
      · simp [feed, run, rest_run]
      · simpa [storedOf] using done
    · obtain ⟨errs, after, rest_run, done⟩ := ih later valid
      refine ⟨err :: errs, after, ?_, ?_⟩
      · simp [feed, run, rest_run]
      · simpa [storedOf, refused] using done

/-- With enough groups complete, no other group has begun. -/
theorem Collecting.complete (collecting : Collecting ctx stored) (complete : slip39_is_complete ctx = true) :
    (∀ g, (ctx.groups g).count ≠ 0 → (ctx.groups g).count = (ctx.groups g).threshold) ∧
      ctx.begun.card = ctx.group_threshold := by
  have enough : ctx.groups_complete = ctx.group_threshold := by
    simp only [slip39_is_complete, Bool.and_eq_true, decide_eq_true_eq] at complete
    exact complete.2
  have subset : ctx.full ⊆ ctx.begun := by
    intro g member
    exact mem_begun.mpr (mem_full.mp member).1
  have card : ctx.begun.card ≤ ctx.full.card := by
    rw [← collecting.groups_started, ← collecting.groups_complete, enough]
    exact collecting.started_le
  have same := Finset.eq_of_subset_of_card_le subset card
  refine ⟨?_, ?_⟩
  · intro g some_share
    have member := mem_begun.mpr some_share
    rw [← same] at member
    exact (mem_full.mp member).2
  · rw [← same, ← collecting.groups_complete, enough]

/-! ### The combination -/

theorem shamir_interpolate_length {result_index : UInt8} {shares : List (UInt8 × Bytes)} {len : Nat} {out : Bytes}
    (run : shamir_interpolate result_index shares len = some out) : out.length = len := by
  rw [shamir_interpolate] at run
  split at run
  case isTrue => cases run
  case isFalse =>
    obtain ⟨secret, _, rfl⟩ := Option.map_eq_some_iff.mp run
    rw [Shamir.unbitslice, List.length_map, List.length_range]

/-- Recovering a secret from enough shares of one length fails no assertion. -/
theorem recover_secret_safe (crypto : Crypto) {threshold len : Nat} {shares : List (UInt8 × Bytes)}
    (positive : threshold ≠ 0) (enough : threshold ≤ shares.length) (lengths : ∀ one ∈ shares, one.2.length = len) :
    ∃ result, recover_secret crypto threshold shares len = .ok result ∧
      ∀ secret, result = .ok secret → secret.length = len := by
  rw [recover_secret, decide_eq_true positive, Check.ensure_true, Check.ok_bind, if_neg (by omega)]
  by_cases single : threshold = 1
  · rw [if_pos single]
    refine ⟨_, rfl, ?_⟩
    rintro secret same
    cases same
    cases shares with
    | nil => simp [single] at enough
    | cons first rest =>
      have length := lengths first List.mem_cons_self
      rw [List.headD_cons, List.length_take, length, Nat.min_self]
  · rw [if_neg single]
    cases first : shamir_interpolate SECRET_INDEX (shares.take threshold) len with
    | none => exact ⟨_, rfl, fun secret same => by cases same⟩
    | some secret =>
      cases second : shamir_interpolate DIGEST_INDEX (shares.take threshold) len with
      | none => exact ⟨_, rfl, fun secret same => by cases same⟩
      | some digest_share =>
        dsimp only
        split
        case isTrue =>
          refine ⟨_, rfl, ?_⟩
          rintro other same
          cases same
          exact shamir_interpolate_length first
        case isFalse => exact ⟨_, rfl, fun secret same => by cases same⟩

theorem Collecting.value_length (collecting : Collecting ctx stored) (g : Fin SLIP39_MAX_GROUPS) :
    ∀ one ∈ (ctx.groups g).members, one.2.length = ctx.value_len := by
  intro one member
  rw [collecting.members g] at member
  obtain ⟨share, given, rfl⟩ := List.mem_map.mp member
  have agrees := collecting.agrees share (List.mem_filter.mp given).1
  simp only [Ctx.agrees, Bool.and_eq_true, decide_eq_true_eq] at agrees
  exact agrees.2.symm

/-- The loop over the groups takes each group that has begun. -/
theorem recover_groups_safe (crypto : Crypto) (collecting : Collecting ctx stored)
    (complete : ∀ g, (ctx.groups g).count ≠ 0 → (ctx.groups g).count = (ctx.groups g).threshold) :
    ∀ (gs : List (Fin SLIP39_MAX_GROUPS)) (recovered : List (UInt8 × Bytes)),
      (∀ one ∈ recovered, one.2.length = ctx.value_len) →
      ∃ result, recover_groups crypto ctx gs recovered = .ok result ∧
        ∀ groups, result = .ok groups → groups.length = recovered.length + (gs.filter (· ∈ ctx.begun)).length ∧
          ∀ one ∈ groups, one.2.length = ctx.value_len := by
  intro gs
  induction gs with
  | nil =>
    intro recovered lengths
    refine ⟨_, rfl, ?_⟩
    rintro groups same
    cases same
    exact ⟨rfl, lengths⟩
  | cons g rest ih =>
    intro recovered lengths
    rw [recover_groups]
    by_cases empty : (ctx.groups g).count = 0
    · rw [if_pos empty, List.filter_cons_of_neg (by simp [mem_begun, empty])]
      exact ih recovered lengths
    · have full := complete g empty
      rw [if_neg empty, decide_eq_true full, Check.ensure_true, Check.ok_bind,
        List.filter_cons_of_pos (by simp [mem_begun, empty])]
      obtain ⟨result, run, length⟩ := recover_secret_safe crypto (by omega : (ctx.groups g).threshold ≠ 0)
        (Nat.le_of_eq full.symm) (collecting.value_length g)
      rw [run, Check.ok_bind]
      cases result with
      | error err => exact ⟨_, rfl, fun groups same => by cases same⟩
      | ok secret =>
        obtain ⟨result, rest_run, done⟩ := ih (recovered ++ [(UInt8.ofNat g, secret)]) (by
          intro one member
          rcases List.mem_append.mp member with earlier | last
          · exact lengths one earlier
          · rw [List.mem_singleton.mp last]
            exact length secret rfl)
        refine ⟨result, rest_run, ?_⟩
        intro groups same
        obtain ⟨count, all⟩ := done groups same
        refine ⟨?_, all⟩
        rw [count, List.length_append, List.length_singleton, List.length_cons]
        omega

theorem begun_length (ctx : Ctx) :
    ((List.finRange SLIP39_MAX_GROUPS).filter (· ∈ ctx.begun)).length = ctx.begun.card := by
  rw [← List.toFinset_card_of_nodup ((List.nodup_finRange _).filter _)]
  congr 1
  ext g
  simp

theorem decrypt_ems_safe (crypto : Crypto) {ems passphrase : Bytes} (exponent : Nat) (identifier : UInt16)
    (extendable : Bool) (length : ems.length = 16 ∨ ems.length = 32) (short : passphrase.length ≤ PASSPHRASE_MAX_LEN) :
    ∃ master_secret, decrypt_ems crypto ems passphrase exponent identifier extendable = .ok master_secret := by
  have even : (decide (ems.length ≠ 0) && decide (ems.length % 2 = 0) &&
      decide (ems.length ≤ SLIP39_MASTER_SECRET_MAX)) = true := by
    rcases length with same | same
    · rw [same]
      rfl
    · rw [same]
      rfl
  rw [decrypt_ems, even, Check.ensure_true, Check.ok_bind, decide_eq_true short, Check.ensure_true, Check.ok_bind]
  exact ⟨_, rfl⟩

/-- The assertions of `slip39_combine` hold once the collection is complete. -/
theorem Collecting.combine (crypto : Crypto) (collecting : Collecting ctx stored)
    (complete : slip39_is_complete ctx = true) {passphrase : Bytes} (short : passphrase.length ≤ PASSPHRASE_MAX_LEN) :
    ∃ result, slip39_combine crypto ctx passphrase ctx.value_len = .ok result := by
  obtain ⟨full, begun⟩ := collecting.complete complete
  obtain ⟨result, run, groups_ok⟩ := recover_groups_safe crypto collecting full (List.finRange SLIP39_MAX_GROUPS) []
    (fun one member => by cases member)
  rw [slip39_combine, complete, if_neg (by decide), decide_eq_true rfl, Check.ensure_true, Check.ok_bind, run,
    Check.ok_bind]
  cases result with
  | error err => exact ⟨_, rfl⟩
  | ok groups =>
    obtain ⟨count, lengths⟩ := groups_ok groups rfl
    have enough : groups.length = ctx.group_threshold := by
      rw [count, begun_length, begun]
      exact Nat.zero_add _
    have positive := collecting.group_threshold
    obtain ⟨result, run, length⟩ := recover_secret_safe crypto (by omega : ctx.group_threshold ≠ 0)
      (Nat.le_of_eq enough.symm) lengths
    dsimp only
    rw [decide_eq_true enough, Check.ensure_true, Check.ok_bind, run, Check.ok_bind]
    cases result with
    | error err => exact ⟨_, rfl⟩
    | ok ems =>
      have size : ems.length = 16 ∨ ems.length = 32 := by
        rw [length ems rfl]
        exact collecting.value_len
      obtain ⟨master_secret, run⟩ := decrypt_ems_safe crypto ctx.iteration_exponent ctx.identifier ctx.extendable size short
      dsimp only
      rw [run]
      exact ⟨_, rfl⟩

end

/-- What the context says of itself, and of the shares stored in it. -/
structure Consistent (ctx : Ctx) (stored : List Share) : Prop where
  groups_started : ctx.groups_started = ctx.begun.card
  started_le : ctx.groups_started ≤ ctx.group_threshold
  groups_complete : ctx.groups_complete = ctx.full.card
  distinct : ∀ g, ((ctx.groups g).members.map Prod.fst).Nodup
  count : ∀ g, (ctx.groups g).count ≤ (ctx.groups g).threshold ∧ (ctx.groups g).threshold ≤ SLIP39_MAX_MEMBERS
  members : ∀ g, (ctx.groups g).members = (ofGroup stored g).map fun share => (share.member_index, share.value)
  identifier : ∀ share ∈ stored, share.identifier = ctx.identifier
  extendable : ∀ share ∈ stored, share.extendable = ctx.extendable
  exponent : ∀ share ∈ stored, share.iteration_exponent = ctx.iteration_exponent
  group_threshold : ∀ share ∈ stored, share.group_threshold = ctx.group_threshold
  group_count : ∀ share ∈ stored, share.group_count = ctx.group_count
  value_len : ∀ share ∈ stored, share.value.length = ctx.value_len

theorem Valid.consistent {ctx : Ctx} {stored : List Share} (valid : Valid ctx stored) : Consistent ctx stored := by
  rcases valid with ⟨rfl, rfl⟩ | collecting
  · constructor
    case groups_started => exact (Finset.card_eq_zero.mpr (by decide : slip39_init.begun = ∅)).symm
    case started_le => exact Nat.le_refl _
    case groups_complete => exact (Finset.card_eq_zero.mpr (by decide : slip39_init.full = ∅)).symm
    case distinct => exact fun _ => List.nodup_nil
    case count => exact fun _ => ⟨Nat.le_refl _, Nat.zero_le _⟩
    case members => exact fun _ => rfl
    all_goals exact fun _ member => by cases member
  · have agrees : ∀ share ∈ stored, share.identifier = ctx.identifier ∧ share.extendable = ctx.extendable ∧
        share.iteration_exponent = ctx.iteration_exponent ∧ share.group_threshold = ctx.group_threshold ∧
        share.group_count = ctx.group_count ∧ share.value.length = ctx.value_len := by
      intro share member
      have all := collecting.agrees share member
      simp only [Ctx.agrees, Bool.and_eq_true, decide_eq_true_eq] at all
      obtain ⟨⟨⟨⟨⟨identifier, extendable⟩, exponent⟩, threshold⟩, count⟩, length⟩ := all
      exact ⟨identifier.symm, extendable.symm, exponent.symm, threshold.symm, count.symm, length.symm⟩
    constructor
    case groups_started => exact collecting.groups_started
    case started_le => exact collecting.started_le
    case groups_complete => exact collecting.groups_complete
    case distinct => exact collecting.distinct
    case count => exact fun g => ⟨collecting.count g, collecting.threshold g⟩
    case members => exact collecting.members
    case identifier => exact fun share member => (agrees share member).1
    case extendable => exact fun share member => (agrees share member).2.1
    case exponent => exact fun share member => (agrees share member).2.2.1
    case group_threshold => exact fun share member => (agrees share member).2.2.2.1
    case group_count => exact fun share member => (agrees share member).2.2.2.2.1
    case value_len => exact fun share member => (agrees share member).2.2.2.2.2

/-- Whatever parsed shares have been added: the counters and tables are consistent with the
    shares stored, a call that does not store its share changes nothing, and once the
    collection is complete every group that has begun is, there are as many as the threshold
    asks for, and `slip39_combine` passes its assertions. -/
theorem slip39_collector_invariant (wordlist : Nat → Bytes) (crypto : Crypto) (given : List (Parsed wordlist)) :
    ∃ errs ctx, feed slip39_init (given.map Parsed.share) = .ok (errs, ctx) ∧
      Consistent ctx (storedOf (given.map Parsed.share) errs) ∧
      (∀ next : Parsed wordlist, ∃ err after, slip39_add_share ctx next.share = .ok (err, after) ∧
        (err ≠ .OK → after = ctx)) ∧
      (slip39_is_complete ctx = true →
        (∀ g, (ctx.groups g).count ≠ 0 → (ctx.groups g).count = (ctx.groups g).threshold) ∧
        ctx.begun.card = ctx.group_threshold ∧
        ∀ passphrase : Bytes, passphrase.length ≤ PASSPHRASE_MAX_LEN →
          ∃ result, slip39_combine crypto ctx passphrase ctx.value_len = .ok result) := by
  have limits : ∀ share ∈ given.map Parsed.share, Limits share := by
    intro share member
    obtain ⟨parsed, -, rfl⟩ := List.mem_map.mp member
    exact parsed.limits
  obtain ⟨errs, ctx, run, valid⟩ := feed_valid limits (.inl ⟨rfl, rfl⟩)
  rw [List.nil_append] at valid
  refine ⟨errs, ctx, run, valid.consistent, ?_, ?_⟩
  · intro next
    rcases slip39_add_share_cases valid next.limits with ⟨after, stored, -⟩ | ⟨err, -, refused⟩
    · exact ⟨.OK, after, stored, fun other => absurd rfl other⟩
    · exact ⟨err, ctx, refused, fun _ => rfl⟩
  · intro complete
    rcases valid with ⟨rfl, -⟩ | collecting
    · cases complete
    · obtain ⟨full, begun⟩ := collecting.complete complete
      exact ⟨full, begun, fun passphrase short => collecting.combine crypto complete short⟩

end PiJade.Slip39
