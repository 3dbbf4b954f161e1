import PiJade.ShamirInterpolate
import PiJade.Slip39Collector

/-!
A backup made by the rules of SLIP39 is recovered. The master secret is encrypted by four
rounds of a Feistel network and split twice, into group secrets and each of these into
member shares: a threshold of one copies the secret, a larger one takes values of
polynomials that have the secret at 255 and a digest at 254. Any groups and members that
are just enough, in any order and with repetitions, give the master secret back.
-/
namespace PiJade.Slip39
set_option linter.unusedSimpArgs false
open Polynomial
open Shamir (GF256 ofByte ofByte_inj shamir_interpolate shamir_interpolate_eq)

/-- An index of a group, or of a member of a group. -/
abbrev Index := Fin SLIP39_MAX_GROUPS

/-- The index as a share carries it. -/
def Index.byte (i : Index) : UInt8 := UInt8.ofNat i.val

theorem Index.byte_injective : Function.Injective Index.byte := by decide

/-! ### The splitting rules -/

section
variable (crypto : Crypto)

/-- The shares of a secret. -/
structure Splits (threshold : Nat) (secret : Bytes) (value : Index → Bytes) : Prop where
  length : ∀ i, (value i).length = secret.length
  copies : threshold = 1 → ∀ i, value i = secret
  polynomials : 1 < threshold → ∃ (random : Bytes) (f : Nat → GF256[X]), random.length + DIGEST_LENGTH_BYTES = secret.length ∧
    ∀ l < secret.length, (f l).degree < threshold ∧
      (f l).eval (ofByte SECRET_INDEX) = ofByte (secret.getD l 0) ∧
      (f l).eval (ofByte DIGEST_INDEX) = ofByte ((digest crypto random secret ++ random).getD l 0) ∧
      ∀ i, ofByte ((value i).getD l 0) = (f l).eval (ofByte (Index.byte i))

/-- The encryption of a master secret. -/
def encrypt (master_secret passphrase : Bytes) (exponent : Nat) (identifier : UInt16) (extendable : Bool) : Bytes :=
  let half := master_secret.length / 2
  let f := round_function crypto passphrase (leading_salt identifier extendable) (UInt32.ofNat (10000 * 2 ^ exponent / 4)) half
  let halves := rounds f [0, 1, 2, 3] (master_secret.take half, master_secret.drop half)
  halves.2 ++ halves.1

end

/-! ### One secret -/

/-- Bytes are told by the elements they stand for. -/
theorem eq_of_ofByte {out expected : Bytes} (length : out.length = expected.length)
    (same : ∀ l < out.length, ofByte (out.getD l 0) = ofByte (expected.getD l 0)) : out = expected := by
  apply List.ext_getElem length
  intro l below below'
  have byte := ofByte_inj.mp (same l below)
  simpa [List.getD_eq_getElem?_getD, below, below'] using byte

theorem digest_length (crypto : Crypto) (random secret : Bytes) : (digest crypto random secret).length = DIGEST_LENGTH_BYTES := by
  rw [digest, List.length_take, Vector.length_toList]
  rfl

/-- Enough shares of a secret give it back, whatever their order. -/
theorem recover_secret_eq {crypto : Crypto} {threshold : Nat} {secret : Bytes} {value : Index → Bytes} (splits : Splits crypto threshold secret value) (size : secret.length ≤ SLIP39_SHARE_VALUE_MAX)
    (positive : 1 ≤ threshold) (most : threshold ≤ SLIP39_MAX_MEMBERS) {indices : List Index} (distinct : indices.Nodup)
    (count : indices.length = threshold) :
    recover_secret crypto threshold (indices.map fun i => (Index.byte i, value i)) secret.length = .ok (.ok secret) := by
  rw [recover_secret, decide_eq_true (by omega : threshold ≠ 0), Check.ensure_true, Check.ok_bind, List.length_map,
    if_neg (by omega)]
  by_cases single : threshold = 1
  · rw [if_pos single]
    obtain ⟨i, rfl⟩ := List.length_eq_one_iff.mp (count.trans single)
    show Except.ok (Except.ok ((value i).take secret.length)) = _
    rw [splits.copies single i, List.take_length]
  · rw [if_neg single]
    obtain ⟨random, f, shape, rule⟩ := splits.polynomials (by omega)
    have all : (indices.map fun i => (Index.byte i, value i)).take threshold = indices.map fun i => (Index.byte i, value i) := by
      apply List.take_of_length_le
      rw [List.length_map]
      omega
    have nodes : ((indices.map fun i => (Index.byte i, value i)).map Prod.fst).Nodup := by
      rw [List.map_map]
      exact distinct.map Index.byte_injective
    have at_index : ∀ result_index, ∃ out, shamir_interpolate result_index (indices.map fun i => (Index.byte i, value i))
        secret.length = some out ∧ out.length = secret.length ∧
        ∀ l < secret.length, ofByte (out.getD l 0) = (f l).eval (ofByte result_index) := by
      apply shamir_interpolate_eq nodes
      · rw [List.length_map, count]
        exact most
      · exact size
      · intro l below
        rw [List.length_map, count]
        exact (rule l below).1
      · intro share member l below
        obtain ⟨i, -, rfl⟩ := List.mem_map.mp member
        exact (rule l below).2.2.2 i
    obtain ⟨out, run, length, values⟩ := at_index SECRET_INDEX
    obtain ⟨digest_share, run', length', values'⟩ := at_index DIGEST_INDEX
    have found : out = secret := by
      apply eq_of_ofByte length
      intro l below
      rw [length] at below
      rw [values l below, (rule l below).2.1]
    have found_digest : digest_share = digest crypto random secret ++ random := by
      apply eq_of_ofByte
      · rw [length', List.length_append, digest_length]
        omega
      · intro l below
        rw [length'] at below
        rw [values' l below, (rule l below).2.2.1]
    have front : digest_share.take DIGEST_LENGTH_BYTES = digest crypto random secret := by
      rw [found_digest, List.take_left' (digest_length crypto random secret)]
    have back : digest_share.drop DIGEST_LENGTH_BYTES = random := by
      rw [found_digest, List.drop_left' (digest_length crypto random secret)]
    rw [all, run, run']
    dsimp only
    rw [front, back, found, if_pos rfl]
    rfl

/-! ### The cipher -/

theorem xor_length {f half : Bytes} (same : f.length = half.length) : (xor f half).length = half.length := by
  rw [xor, List.length_zipWith, same, Nat.min_self]

theorem xor_xor {f half : Bytes} (same : f.length = half.length) : xor f (xor f half) = half := by
  induction f generalizing half with
  | nil =>
    cases half with
    | nil => rfl
    | cons _ _ => cases same
  | cons a f ih =>
    cases half with
    | nil => cases same
    | cons b half =>
      have cancel : a ^^^ (a ^^^ b) = b := by rw [← UInt8.xor_assoc, UInt8.xor_self, UInt8.zero_xor]
      have later := ih (Nat.succ.inj same)
      simp only [xor] at later ⊢
      rw [List.zipWith_cons_cons, List.zipWith_cons_cons, cancel, later]

theorem rounds_append (f : UInt8 → Bytes → Bytes) (first second : List UInt8) (halves : Bytes × Bytes) :
    rounds f (first ++ second) halves = rounds f second (rounds f first halves) := by
  induction first generalizing halves with
  | nil => rfl
  | cons round rest ih =>
    obtain ⟨half_l, half_r⟩ := halves
    exact ih _

section
variable {f : UInt8 → Bytes → Bytes} {half : Nat} (long : ∀ round half_r, (f round half_r).length = half)
include long

theorem rounds_length (order : List UInt8) {halves : Bytes × Bytes} (sizes : halves.1.length = half ∧ halves.2.length = half) :
    (rounds f order halves).1.length = half ∧ (rounds f order halves).2.length = half := by
  induction order generalizing halves with
  | nil => exact sizes
  | cons round rest ih =>
    obtain ⟨half_l, half_r⟩ := halves
    apply ih
    refine ⟨sizes.2, ?_⟩
    rw [xor_length ((long round half_r).trans sizes.1.symm)]
    exact sizes.1

/-- The rounds in the other order, on the halves the other way round, undo the rounds. -/
theorem rounds_reverse (order : List UInt8) {halves : Bytes × Bytes}
    (sizes : halves.1.length = half ∧ halves.2.length = half) :
    rounds f order.reverse (rounds f order halves).swap = halves.swap := by
  induction order generalizing halves with
  | nil => rfl
  | cons round rest ih =>
    obtain ⟨half_l, half_r⟩ := halves
    have same : (f round half_r).length = half_l.length := (long round half_r).trans sizes.1.symm
    have undone := @ih (half_r, xor (f round half_r) half_l) ⟨sizes.2, (xor_length same).trans sizes.1⟩
    have first : rounds f (round :: rest) (half_l, half_r) = rounds f rest (half_r, xor (f round half_r) half_l) := rfl
    rw [List.reverse_cons, rounds_append, first, undone]
    show (half_r, xor (f round half_r) (xor (f round half_r) half_l)) = (half_r, half_l)
    rw [xor_xor same]

end

theorem cost_eq : ∀ exponent : Fin 16, cost exponent = UInt32.ofNat (10000 * 2 ^ exponent.val / 4) := by decide

/-- Four rounds in the order of their numbers, and the halves swapped at the end. -/
def encryption (f : UInt8 → Bytes → Bytes) (master_secret : Bytes) : Bytes :=
  let halves := rounds f [0, 1, 2, 3] (master_secret.take (master_secret.length / 2), master_secret.drop (master_secret.length / 2))
  halves.2 ++ halves.1

theorem round_function_length (crypto : Crypto) (passphrase salt : Bytes) (cost : UInt32) {half : Nat} (small : half ≤ 32)
    (round : UInt8) (half_r : Bytes) : (round_function crypto passphrase salt cost half round half_r).length = half := by
  rw [round_function, List.length_take, Vector.length_toList]
  omega

section
variable {f : UInt8 → Bytes → Bytes} {master_secret : Bytes} (even : master_secret.length % 2 = 0)
  (long : ∀ round half_r, (f round half_r).length = master_secret.length / 2)
include even long

theorem halves_length :
    (rounds f [0, 1, 2, 3] (master_secret.take (master_secret.length / 2), master_secret.drop (master_secret.length / 2))).1.length =
      master_secret.length / 2 ∧
    (rounds f [0, 1, 2, 3] (master_secret.take (master_secret.length / 2), master_secret.drop (master_secret.length / 2))).2.length =
      master_secret.length / 2 := by
  refine rounds_length long [0, 1, 2, 3] ⟨?_, ?_⟩
  · rw [List.length_take]
    omega
  · rw [List.length_drop]
    omega

theorem encryption_length : (encryption f master_secret).length = master_secret.length := by
  obtain ⟨first, second⟩ := halves_length even long
  rw [encryption, List.length_append, first, second]
  omega

/-- The rounds from the last to the first bring the halves back. -/
theorem encryption_undone : rounds f [3, 2, 1, 0] ((encryption f master_secret).take (master_secret.length / 2),
    (encryption f master_secret).drop (master_secret.length / 2)) =
      (master_secret.drop (master_secret.length / 2), master_secret.take (master_secret.length / 2)) := by
  obtain ⟨_, second⟩ := halves_length even long
  have undone := @rounds_reverse f _ long [0, 1, 2, 3] (master_secret.take (master_secret.length / 2),
    master_secret.drop (master_secret.length / 2)) (by
    rw [List.length_take, List.length_drop]
    omega)
  rw [encryption, List.take_left' second, List.drop_left' second]
  exact undone

end

/-- Decryption gives back what was encrypted with the same number of iterations. -/
theorem decrypt_encryption (crypto : Crypto) {master_secret passphrase : Bytes} (exponent : Nat) (identifier : UInt16)
    (extendable : Bool) (some_byte : master_secret.length ≠ 0) (even : master_secret.length % 2 = 0)
    (small : master_secret.length ≤ SLIP39_MASTER_SECRET_MAX) (short : passphrase.length ≤ PASSPHRASE_MAX_LEN) :
    decrypt_ems crypto (encryption (round_function crypto passphrase (leading_salt identifier extendable) (cost exponent)
      (master_secret.length / 2)) master_secret) passphrase exponent identifier extendable = .ok master_secret := by
  have long := @round_function_length crypto passphrase (leading_salt identifier extendable) (cost exponent)
    (master_secret.length / 2) (by rw [SLIP39_MASTER_SECRET_MAX] at small; omega)
  have checked : (decide (master_secret.length ≠ 0) && decide (master_secret.length % 2 = 0) &&
      decide (master_secret.length ≤ SLIP39_MASTER_SECRET_MAX)) = true := by
    rw [decide_eq_true some_byte, decide_eq_true even, decide_eq_true small]
    rfl
  rw [decrypt_ems, encryption_length even long, checked, Check.ensure_true, Check.ok_bind, decide_eq_true short,
    Check.ensure_true, Check.ok_bind]
  dsimp only
  rw [encryption_undone even long, List.take_append_drop]
  rfl

/-- The iterations of the code are those of the standard. -/
theorem encrypt_eq (crypto : Crypto) (master_secret passphrase : Bytes) {exponent : Nat} (identifier : UInt16)
    (extendable : Bool) (small : exponent < 16) : encrypt crypto master_secret passphrase exponent identifier extendable =
      encryption (round_function crypto passphrase (leading_salt identifier extendable) (cost exponent)
        (master_secret.length / 2)) master_secret := by
  rw [show cost exponent = UInt32.ofNat (10000 * 2 ^ exponent / 4) from cost_eq ⟨exponent, small⟩]
  rfl

/-- Decryption gives back what was encrypted. -/
theorem decrypt_encrypt (crypto : Crypto) {master_secret passphrase : Bytes} {exponent : Nat} (identifier : UInt16)
    (extendable : Bool) (size : master_secret.length = 16 ∨ master_secret.length = 32)
    (short : passphrase.length ≤ PASSPHRASE_MAX_LEN) (small : exponent < 16) :
    (encrypt crypto master_secret passphrase exponent identifier extendable).length = master_secret.length ∧
      decrypt_ems crypto (encrypt crypto master_secret passphrase exponent identifier extendable) passphrase exponent
        identifier extendable = .ok master_secret := by
  have fits : master_secret.length ≤ SLIP39_MASTER_SECRET_MAX := by
    rw [SLIP39_MASTER_SECRET_MAX]
    omega
  have long := @round_function_length crypto passphrase (leading_salt identifier extendable) (cost exponent)
    (master_secret.length / 2) (by omega)
  rw [encrypt_eq crypto master_secret passphrase identifier extendable small]
  exact ⟨encryption_length (by omega) long,
    decrypt_encryption crypto exponent identifier extendable (by omega) (by omega) fits short⟩

/-! ### Backups -/

/-- A master secret split by the rules, within the limits of SLIP39. -/
structure Backup (crypto : Crypto) where
  identifier : UInt16
  extendable : Bool
  iteration_exponent : Nat
  passphrase : Bytes
  master_secret : Bytes
  group_threshold : Nat
  group_count : Nat
  member_threshold : Index → Nat
  group_secret : Index → Bytes
  member_value : Index → Index → Bytes
  secret_len : master_secret.length = 16 ∨ master_secret.length = 32
  exponent_lt : iteration_exponent < 16
  short : passphrase.length ≤ PASSPHRASE_MAX_LEN
  groups : 1 ≤ group_threshold ∧ group_threshold ≤ group_count ∧ group_count ≤ SLIP39_MAX_GROUPS
  members : ∀ g, 1 ≤ member_threshold g ∧ member_threshold g ≤ SLIP39_MAX_MEMBERS
  group_split : Splits crypto group_threshold
    (encrypt crypto master_secret passphrase iteration_exponent identifier extendable) group_secret
  member_split : ∀ g, g.val < group_count → Splits crypto (member_threshold g) (group_secret g) (member_value g)

/-- Just enough groups, and just enough members of each. -/
structure Choice {crypto : Crypto} (backup : Backup crypto) where
  groups : Finset Index
  members : Index → Finset Index
  group_card : groups.card = backup.group_threshold
  group_lt : ∀ g ∈ groups, g.val < backup.group_count
  member_card : ∀ g ∈ groups, (members g).card = backup.member_threshold g

/-- A place that was chosen. -/
def Choice.Chosen {crypto : Crypto} {backup : Backup crypto} (choice : Choice backup) (place : Index × Index) : Prop :=
  place.1 ∈ choice.groups ∧ place.2 ∈ choice.members place.1

namespace Backup
variable {crypto : Crypto} (backup : Backup crypto)

def share (place : Index × Index) : Share where
  identifier := backup.identifier
  extendable := backup.extendable
  iteration_exponent := backup.iteration_exponent
  group_index := place.1.val
  group_threshold := backup.group_threshold
  group_count := backup.group_count
  member_index := place.2.byte
  member_threshold := backup.member_threshold place.1
  value := backup.member_value place.1 place.2

theorem size : backup.master_secret.length ≤ SLIP39_SHARE_VALUE_MAX := by
  rcases backup.secret_len with same | same
  · rw [same]
    decide
  · rw [same]
    decide

theorem group_secret_length (g : Index) : (backup.group_secret g).length = backup.master_secret.length := by
  rw [backup.group_split.length g]
  exact (decrypt_encrypt crypto _ _ backup.secret_len backup.short backup.exponent_lt).1

theorem value_length {place : Index × Index} (known : place.1.val < backup.group_count) :
    (backup.member_value place.1 place.2).length = backup.master_secret.length := by
  rw [(backup.member_split place.1 known).length, backup.group_secret_length]

theorem limits {place : Index × Index} (known : place.1.val < backup.group_count) : Limits (backup.share place) where
  value_len := by
    show (backup.member_value place.1 place.2).length = 16 ∨ (backup.member_value place.1 place.2).length = 32
    rw [backup.value_length known]
    exact backup.secret_len
  group_index := place.1.isLt
  group_threshold := ⟨backup.groups.1, backup.groups.2.1⟩
  group_count := backup.groups.2.2
  member_index := by
    have all : ∀ i : Index, i.byte.toNat < SLIP39_MAX_MEMBERS := by decide
    exact all place.2
  member_threshold := backup.members place.1
  exponent := backup.exponent_lt

/-- The context holds the shares at these places. -/
structure Follows (ctx : Ctx) (places : List (Index × Index)) : Prop where
  collecting : Collecting ctx (places.map backup.share)
  nodup : places.Nodup
  identifier : ctx.identifier = backup.identifier
  extendable : ctx.extendable = backup.extendable
  exponent : ctx.iteration_exponent = backup.iteration_exponent
  group_threshold : ctx.group_threshold = backup.group_threshold
  group_count : ctx.group_count = backup.group_count
  value_len : ctx.value_len = backup.master_secret.length

variable {backup} {ctx : Ctx} {places : List (Index × Index)}

theorem Follows.agrees (follows : backup.Follows ctx places) {place : Index × Index}
    (known : place.1.val < backup.group_count) : ctx.agrees (backup.share place) = true := by
  have length := backup.value_length known
  simp [Ctx.agrees, share, follows.identifier, follows.extendable, follows.exponent, follows.group_threshold,
    follows.group_count, follows.value_len, length]

/-- The members of a group that have come. -/
def come (places : List (Index × Index)) (g : Index) : List Index := (places.filter fun place => place.1 = g).map Prod.snd

theorem ofGroup_share (places : List (Index × Index)) (g : Index) :
    (ofGroup (places.map backup.share) g).map (fun share => (share.member_index, share.value)) =
      (come places g).map fun i => (i.byte, backup.member_value g i) := by
  have same : ofGroup (places.map backup.share) g = (places.filter fun place => place.1 = g).map backup.share := by
    rw [ofGroup, List.filter_map]
    congr 1
    apply List.filter_congr
    intro place _
    exact decide_eq_decide.mpr ⟨fun equal => Fin.ext equal, fun equal => congrArg Fin.val equal⟩
  rw [same, come, List.map_map, List.map_map]
  apply List.map_congr_left
  intro place member
  have own : place.1 = g := of_decide_eq_true (List.mem_filter.mp member).2
  simp only [Function.comp, share, own]

theorem Follows.members (follows : backup.Follows ctx places) (g : Index) :
    (ctx.groups g).members = (come places g).map fun i => (i.byte, backup.member_value g i) := by
  rw [follows.collecting.members g, ofGroup_share]

theorem Follows.count (follows : backup.Follows ctx places) (g : Index) : (ctx.groups g).count = (come places g).length := by
  rw [Group.count, follows.members g, List.length_map]

theorem come_nodup (nodup : places.Nodup) (g : Index) : (come places g).Nodup := by
  rw [come]
  apply List.Nodup.map_on _ (nodup.filter _)
  intro first one second two same
  have own : first.1 = g := of_decide_eq_true (List.mem_filter.mp one).2
  have own' : second.1 = g := of_decide_eq_true (List.mem_filter.mp two).2
  exact Prod.ext (own.trans own'.symm) same

theorem mem_come {g i : Index} : i ∈ come places g ↔ (g, i) ∈ places := by
  simp only [come, List.mem_map, List.mem_filter, decide_eq_true_eq]
  constructor
  · rintro ⟨place, ⟨member, rfl⟩, rfl⟩
    exact member
  · intro member
    exact ⟨(g, i), ⟨member, rfl⟩, rfl⟩

theorem Follows.threshold (follows : backup.Follows ctx places) {g : Index} (some_share : (ctx.groups g).count ≠ 0) :
    (ctx.groups g).threshold = backup.member_threshold g := by
  rw [follows.count g] at some_share
  obtain ⟨i, member⟩ := List.exists_mem_of_length_pos (Nat.pos_of_ne_zero some_share)
  have stored : backup.share (g, i) ∈ ofGroup (places.map backup.share) g := by
    rw [ofGroup, List.mem_filter]
    exact ⟨List.mem_map_of_mem (mem_come.mp member), decide_eq_true rfl⟩
  exact (follows.collecting.thresholds g _ stored).symm

/-! ### The collection -/

/-- A context that holds the shares at these places, or none. -/
def Reached (backup : Backup crypto) (ctx : Ctx) (places : List (Index × Index)) : Prop :=
  ctx = slip39_init ∧ places = [] ∨ backup.Follows ctx places

section
variable {choice : Choice backup} {place : Index × Index}

theorem come_card (follows : backup.Follows ctx places) (g : Index) : (come places g).toFinset.card = (ctx.groups g).count := by
  rw [List.toFinset_card_of_nodup (come_nodup follows.nodup g), follows.count g]

/-- A chosen share that has not come yet is welcome. -/
theorem Follows.fits (follows : backup.Follows ctx places) (earlier : ∀ other ∈ places, choice.Chosen other)
    (chosen : choice.Chosen place) (new : place ∉ places) : Fits ctx place.1 (backup.share place) := by
  constructor
  case same => exact follows.threshold
  case unknown =>
    rw [follows.members, List.map_map]
    intro known
    obtain ⟨i, member, same⟩ := List.mem_map.mp known
    have own : i = place.2 := Index.byte_injective same
    rw [own, mem_come] at member
    exact new member
  case short =>
    intro some_share same
    have subset : (come places place.1).toFinset ⊆ (choice.members place.1).erase place.2 := by
      intro i member
      have come := mem_come.mp (List.mem_toFinset.mp member)
      refine Finset.mem_erase.mpr ⟨?_, (earlier _ come).2⟩
      rintro rfl
      exact new come
    have fewer := Finset.card_le_card subset
    have positive := Finset.card_pos.mpr ⟨_, chosen.2⟩
    rw [come_card follows, same, follows.threshold some_share, Finset.card_erase_of_mem chosen.2,
      choice.member_card _ chosen.1] at fewer
    rw [choice.member_card _ chosen.1] at positive
    omega
  case room =>
    intro first same
    have subset : ctx.begun ⊆ choice.groups.erase place.1 := by
      intro g member
      have some_share := mem_begun.mp member
      refine Finset.mem_erase.mpr ⟨?_, ?_⟩
      · rintro rfl
        exact some_share first
      · rw [follows.count g] at some_share
        obtain ⟨i, come⟩ := List.exists_mem_of_length_pos (Nat.pos_of_ne_zero some_share)
        exact (earlier _ (mem_come.mp come)).1
    have fewer := Finset.card_le_card subset
    have positive := Finset.card_pos.mpr ⟨_, chosen.1⟩
    rw [← follows.collecting.groups_started, same, follows.group_threshold, Finset.card_erase_of_mem chosen.1,
      choice.group_card] at fewer
    rw [choice.group_card] at positive
    omega

theorem Follows.with (follows : backup.Follows ctx places) (known : place.1.val < backup.group_count)
    (fits : Fits ctx place.1 (backup.share place)) (new : place ∉ places) :
    backup.Follows (ctx.with place.1 (backup.share place)) (places ++ [place]) where
  collecting := by
    rw [List.map_append]
    exact follows.collecting.with (backup.limits known) (follows.agrees known) rfl fits
  nodup := by
    refine List.nodup_append'.mpr ⟨follows.nodup, List.nodup_singleton _, ?_⟩
    exact fun other earlier last => new (List.mem_singleton.mp last ▸ earlier)
  identifier := follows.identifier
  extendable := follows.extendable
  exponent := follows.exponent
  group_threshold := follows.group_threshold
  group_count := follows.group_count
  value_len := follows.value_len

/-- A chosen share is stored, if it has not come before; a repetition changes nothing. -/
theorem Follows.add (follows : backup.Follows ctx places) (earlier : ∀ other ∈ places, choice.Chosen other)
    (chosen : choice.Chosen place) :
    ∃ err after places', ctx.add place.1 (backup.share place) = .ok (err, after) ∧ backup.Follows after places' ∧
      ∀ other, other ∈ places' ↔ other ∈ places ∨ other = place := by
  by_cases new : place ∈ places
  · rcases add_cases follows.collecting place.1 (backup.share place) with ⟨fits, -⟩ | ⟨err, -, refused⟩
    · have stored : place.2.byte ∈ (ctx.groups place.1).members.map Prod.fst := by
        rw [follows.members, List.map_map]
        exact List.mem_map.mpr ⟨place.2, mem_come.mpr new, rfl⟩
      exact absurd stored fits.unknown
    · refine ⟨err, ctx, places, refused, follows, ?_⟩
      intro other
      constructor
      · exact .inl
      · rintro (member | rfl)
        · exact member
        · exact new
  · have fits := follows.fits earlier chosen new
    refine ⟨.OK, _, _, add_fits follows.collecting fits, follows.with (choice.group_lt _ chosen.1) fits new, ?_⟩
    intro other
    rw [List.mem_append, List.mem_singleton]

theorem adopt_follows (known : place.1.val < backup.group_count) :
    backup.Follows (slip39_init.adopt (backup.share place)) [] where
  collecting := adopt_collecting (backup.limits known)
  nodup := List.nodup_nil
  identifier := rfl
  extendable := rfl
  exponent := rfl
  group_threshold := rfl
  group_count := rfl
  value_len := backup.value_length known

theorem slip39_add_share_chosen (reached : backup.Reached ctx places) (earlier : ∀ other ∈ places, choice.Chosen other)
    (chosen : choice.Chosen place) :
    ∃ err after places', slip39_add_share ctx (backup.share place) = .ok (err, after) ∧ backup.Follows after places' ∧
      ∀ other, other ∈ places' ↔ other ∈ places ∨ other = place := by
  have known := choice.group_lt _ chosen.1
  rw [slip39_add_share_eq (backup.limits known)]
  rcases reached with ⟨rfl, rfl⟩ | follows
  · exact (adopt_follows known).add earlier chosen
  · rw [follows.collecting.started, if_neg (by decide), follows.agrees known, if_neg (by decide)]
    exact follows.add earlier chosen

/-- Chosen shares in any order, with repetitions: the context holds those that came. -/
theorem feed_reached {fed : List (Index × Index)} (chosen : ∀ place ∈ fed, choice.Chosen place)
    (reached : backup.Reached ctx places) (earlier : ∀ other ∈ places, choice.Chosen other) :
    ∃ errs after places', feed ctx (fed.map backup.share) = .ok (errs, after) ∧ backup.Reached after places' ∧
      ∀ other, other ∈ places' ↔ other ∈ places ∨ other ∈ fed := by
  induction fed generalizing ctx places with
  | nil => exact ⟨[], ctx, places, rfl, reached, by simp⟩
  | cons place rest ih =>
    have own := chosen place List.mem_cons_self
    obtain ⟨err, next, places', run, follows, holds⟩ := slip39_add_share_chosen reached earlier own
    have still : ∀ other ∈ places', choice.Chosen other := by
      intro other member
      rcases (holds other).mp member with before | rfl
      · exact earlier other before
      · exact own
    obtain ⟨errs, after, places'', rest_run, done, all⟩ :=
      ih (fun other member => chosen other (List.mem_cons_of_mem _ member)) (.inr follows) still
    refine ⟨err :: errs, after, places'', ?_, done, ?_⟩
    · simp [feed, run, rest_run]
    · intro other
      rw [all, holds, List.mem_cons, or_assoc]

end

/-! ### The combination -/

section
variable {choice : Choice backup}

/-- All that was chosen has come. -/
structure Gathered (choice : Choice backup) (ctx : Ctx) (places : List (Index × Index)) : Prop where
  follows : backup.Follows ctx places
  all : ∀ place, place ∈ places ↔ choice.Chosen place

theorem Gathered.come (gathered : Gathered choice ctx places) {g : Index} (selected : g ∈ choice.groups) :
    (Backup.come places g).toFinset = choice.members g := by
  ext i
  rw [List.mem_toFinset, mem_come, gathered.all]
  exact and_iff_right selected

theorem Gathered.count (gathered : Gathered choice ctx places) {g : Index} (selected : g ∈ choice.groups) :
    (ctx.groups g).count = backup.member_threshold g := by
  rw [← come_card gathered.follows, gathered.come selected, choice.member_card g selected]

theorem Gathered.begun (gathered : Gathered choice ctx places) : ctx.begun = choice.groups := by
  ext g
  rw [mem_begun]
  constructor
  · intro some_share
    rw [gathered.follows.count g] at some_share
    obtain ⟨i, come⟩ := List.exists_mem_of_length_pos (Nat.pos_of_ne_zero some_share)
    exact ((gathered.all _).mp (mem_come.mp come)).1
  · intro selected
    have positive := (backup.members g).1
    rw [gathered.count selected]
    omega

theorem Gathered.full (gathered : Gathered choice ctx places) : ctx.full = choice.groups := by
  rw [← gathered.begun]
  ext g
  rw [mem_full, mem_begun, and_iff_left_iff_imp]
  intro some_share
  have selected : g ∈ choice.groups := by
    rw [← gathered.begun]
    exact mem_begun.mpr some_share
  rw [gathered.count selected, gathered.follows.threshold some_share]

theorem Gathered.complete (gathered : Gathered choice ctx places) : slip39_is_complete ctx = true := by
  have enough : ctx.groups_complete = ctx.group_threshold := by
    rw [gathered.follows.collecting.groups_complete, gathered.full, choice.group_card, gathered.follows.group_threshold]
  rw [slip39_is_complete, gathered.follows.collecting.started, enough, decide_eq_true rfl]
  rfl

theorem Gathered.group (gathered : Gathered choice ctx places) {g : Index} (some_share : (ctx.groups g).count ≠ 0) :
    recover_secret crypto (ctx.groups g).threshold (ctx.groups g).members ctx.value_len =
      .ok (.ok (backup.group_secret g)) := by
  have selected : g ∈ choice.groups := by
    rw [← gathered.begun]
    exact mem_begun.mpr some_share
  have length := backup.group_secret_length g
  rw [gathered.follows.threshold some_share, gathered.follows.members, gathered.follows.value_len, ← length]
  apply recover_secret_eq (backup.member_split g (choice.group_lt g selected))
  case size =>
    rw [length]
    exact backup.size
  case positive => exact (backup.members g).1
  case most => exact (backup.members g).2
  case distinct => exact come_nodup gathered.follows.nodup g
  case count => rw [← gathered.follows.count, gathered.count selected]

/-- The loop over the groups collects the secret of each chosen group. -/
theorem Gathered.groups (gathered : Gathered choice ctx places) (gs : List Index) (recovered : List (UInt8 × Bytes)) :
    recover_groups crypto ctx gs recovered =
      .ok (.ok (recovered ++ (gs.filter (· ∈ ctx.begun)).map fun g => (g.byte, backup.group_secret g))) := by
  induction gs generalizing recovered with
  | nil =>
    rw [recover_groups, List.filter_nil, List.map_nil, List.append_nil]
    rfl
  | cons g rest ih =>
    rw [recover_groups]
    by_cases empty : (ctx.groups g).count = 0
    · rw [if_pos empty, List.filter_cons_of_neg (by simp [mem_begun, empty]), ih]
    · have full := (gathered.follows.collecting.complete gathered.complete).1 g empty
      rw [if_neg empty, decide_eq_true full, Check.ensure_true, Check.ok_bind, gathered.group empty, Check.ok_bind,
        List.filter_cons_of_pos (by simp [mem_begun, empty]), List.map_cons]
      dsimp only
      rw [ih, List.append_assoc]
      rfl

theorem Gathered.combine (gathered : Gathered choice ctx places) :
    slip39_combine crypto ctx backup.passphrase backup.master_secret.length = .ok (.ok backup.master_secret) := by
  obtain ⟨length, decrypts⟩ := decrypt_encrypt crypto backup.identifier backup.extendable backup.secret_len backup.short
    backup.exponent_lt
  have count : ((List.finRange SLIP39_MAX_GROUPS).filter (· ∈ ctx.begun)).length = backup.group_threshold := by
    rw [begun_length, gathered.begun, choice.group_card]
  have ems : recover_secret crypto backup.group_threshold
      (((List.finRange SLIP39_MAX_GROUPS).filter (· ∈ ctx.begun)).map fun g => (Index.byte g, backup.group_secret g))
      backup.master_secret.length = .ok (.ok (encrypt crypto backup.master_secret backup.passphrase
        backup.iteration_exponent backup.identifier backup.extendable)) := by
    rw [← length]
    apply recover_secret_eq backup.group_split
    case size =>
      rw [length]
      exact backup.size
    case positive => exact backup.groups.1
    case most => exact Nat.le_trans backup.groups.2.1 backup.groups.2.2
    case distinct => exact (List.nodup_finRange _).filter _
    case count => exact count
  rw [slip39_combine, gathered.complete, if_neg (by decide), decide_eq_true gathered.follows.value_len.symm,
    Check.ensure_true, Check.ok_bind, gathered.groups, Check.ok_bind, List.nil_append]
  dsimp only
  rw [List.length_map, count, decide_eq_true gathered.follows.group_threshold.symm, Check.ensure_true, Check.ok_bind,
    gathered.follows.group_threshold, gathered.follows.value_len, ems, Check.ok_bind]
  dsimp only
  rw [gathered.follows.exponent, gathered.follows.identifier, gathered.follows.extendable, decrypts]
  rfl

end

end Backup

/-- Shares made by the splitting rules: any that hold just enough groups with just enough
    members each, in any order and with repetitions, complete the collection, and their
    combination gives the master secret back. -/
theorem slip39_recovers (crypto : Crypto) (backup : Backup crypto) (choice : Choice backup) (fed : List (Index × Index))
    (covers : ∀ place, place ∈ fed ↔ choice.Chosen place) :
    ∃ errs ctx, feed slip39_init (fed.map backup.share) = .ok (errs, ctx) ∧ slip39_is_complete ctx = true ∧
      slip39_combine crypto ctx backup.passphrase backup.master_secret.length = .ok (.ok backup.master_secret) := by
  obtain ⟨errs, ctx, places, run, reached, holds⟩ := Backup.feed_reached (fun place member => (covers place).mp member)
    (.inl ⟨rfl, rfl⟩ : backup.Reached slip39_init []) (fun _ member => by cases member)
  have all : ∀ place, place ∈ places ↔ choice.Chosen place := by
    intro place
    rw [holds, ← covers, List.mem_nil_iff, false_or]
  refine ⟨errs, ctx, run, ?_⟩
  rcases reached with ⟨-, rfl⟩ | follows
  · -- Some group is chosen, and some member of it.
    have some_group : choice.groups.Nonempty := Finset.card_pos.mp (choice.group_card ▸ backup.groups.1)
    obtain ⟨g, selected⟩ := some_group
    have some_member : (choice.members g).Nonempty :=
      Finset.card_pos.mp ((choice.member_card g selected).symm ▸ (backup.members g).1)
    obtain ⟨i, member⟩ := some_member
    cases (all (g, i)).mpr ⟨selected, member⟩
  · have gathered : Backup.Gathered choice ctx places := ⟨follows, all⟩
    exact ⟨gathered.complete, gathered.combine⟩

/-- A digest of bytes 254, and round keys of zeros. -/
def plainCrypto : Crypto where
  hmac_sha256 _ _ := .replicate 32 254
  pbkdf2_hmac_sha256 _ _ _ := .replicate 32 0

/-- A secret of bytes 255 is on the line that has at each index the index itself. -/
theorem splits_line (secret : Bytes) (same : secret = List.replicate 16 SECRET_INDEX) :
    Splits plainCrypto 2 secret fun i => List.replicate 16 i.byte where
  length i := by rw [same, List.length_replicate, List.length_replicate]
  copies single := absurd single (by decide)
  polynomials _ := by
    have at_byte : ∀ (byte : UInt8) (l : Nat), l < secret.length → (List.replicate 16 byte).getD l 0 = byte := by
      intro byte l below
      rw [same, List.length_replicate] at below
      rw [List.getD_eq_getElem?_getD, List.getElem?_replicate, if_pos below, Option.getD_some]
    refine ⟨List.replicate 12 DIGEST_INDEX, fun _ => X, by rw [same]; rfl, ?_⟩
    intro l below
    rw [eval_X, eval_X]
    refine ⟨by rw [degree_X]; decide, ?_, ?_, fun i => ?_⟩
    · rw [same, at_byte _ l below]
    · exact congrArg ofByte (at_byte DIGEST_INDEX l below).symm
    · rw [eval_X, at_byte _ l below]

/-- Two of three groups of one member each. -/
def lineBackup : Backup plainCrypto where
  identifier := 7945
  extendable := true
  iteration_exponent := 1
  passphrase := [84, 82, 69, 90, 79, 82]
  master_secret := List.replicate 16 SECRET_INDEX
  group_threshold := 2
  group_count := 3
  member_threshold _ := 1
  group_secret g := List.replicate 16 g.byte
  member_value g _ := List.replicate 16 g.byte
  secret_len := .inl rfl
  exponent_lt := by decide
  short := by decide
  groups := by decide
  members _ := by decide
  group_split := splits_line _ (by decide)
  member_split g _ := ⟨fun _ => rfl, fun _ _ => rfl, fun more => absurd more (by decide)⟩

def firstIndex : Index := ⟨0, by decide⟩
def thirdIndex : Index := ⟨2, by decide⟩

def lineChoice : Choice lineBackup where
  groups := {firstIndex, thirdIndex}
  members _ := {firstIndex}
  group_card := by decide
  group_lt := by decide
  member_card := by decide

/-- The third group, the first, and the third again. -/
def lineOrder : List (Index × Index) := [(thirdIndex, firstIndex), (firstIndex, firstIndex), (thirdIndex, firstIndex)]

theorem slip39_recovers_line : (∀ place, place ∈ lineOrder ↔ lineChoice.Chosen place) ∧ ∃ errs ctx,
    feed slip39_init (lineOrder.map lineBackup.share) = .ok (errs, ctx) ∧ slip39_is_complete ctx = true ∧
      slip39_combine plainCrypto ctx [84, 82, 69, 90, 79, 82] 16 = .ok (.ok (List.replicate 16 255)) := by
  have covers : ∀ place, place ∈ lineOrder ↔ lineChoice.Chosen place := by
    intro place
    simp only [lineOrder, Choice.Chosen, lineChoice, List.mem_cons, List.not_mem_nil, or_false, Prod.ext_iff,
      Finset.mem_insert, Finset.mem_singleton]
    tauto
  exact ⟨covers, slip39_recovers plainCrypto lineBackup lineChoice lineOrder covers⟩

end PiJade.Slip39
