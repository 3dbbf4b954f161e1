import PiJade.JsonMembers
import PiJade.PolyMod
import PiJade.Radix

/-!
What the checksum of a descriptor detects. A character is one symbol and, with its two
neighbours, part of another one. Two payloads that differ in one character never bring the
register to the same state again, however long they are, so at most one of them has a given
checksum.
-/
namespace PiJade.DescriptorText
open Text
open SettingsCodec (ascii)
open PolyMod (Code feedback)
set_option linter.unusedSimpArgs false

/-! ### The register -/

/-- The register of `descriptor_checksum_polymod`: eight symbols of five bits, seven of them kept. -/
def bip380 : Code where
  width := 5
  kept := 35
  gens := generators.map UInt64.toNat

/-- One generator, if its bit is among those shifted out. -/
def foldBack (top chk : UInt64) (entry : UInt64 × Nat) : UInt64 :=
  if (top >>> UInt64.ofNat entry.2) &&& 1 = 1 then chk ^^^ entry.1 else chk

theorem foldBack_toNat (top : UInt64) : ∀ (gens : List UInt64) {k : Nat} (chk : UInt64), k + gens.length ≤ 64 →
    ((gens.zipIdx k).foldl (foldBack top) chk).toNat =
      chk.toNat ^^^ feedback (gens.map UInt64.toNat) (top.toNat / 2 ^ k)
  | [], _, chk, _ => (Nat.xor_zero _).symm
  | gen :: gens, k, chk, inside => by
    rw [List.length_cons] at inside
    have bit : (top >>> UInt64.ofNat k) &&& 1 = 1 ↔ (top.toNat / 2 ^ k).testBit 0 = true := by
      have index : (UInt64.ofNat k).toNat % 64 = k := by
        rw [UInt64.toNat_ofNat', Nat.mod_eq_of_lt (by omega), Nat.mod_eq_of_lt (by omega)]
      rw [← UInt64.toNat_inj, UInt64.toNat_and, UInt64.toNat_shiftRight, index, Nat.shiftRight_eq_div_pow, Nat.testBit_zero]
      simp only [UInt64.reduceToNat, Nat.and_one_is_mod]
      simp
    rw [List.zipIdx_cons, List.foldl_cons, foldBack_toNat top gens _ (by omega), List.map_cons, feedback,
      Nat.div_div_eq_div_mul, ← Nat.pow_succ, foldBack]
    by_cases taken : (top.toNat / 2 ^ k).testBit 0 = true
    · rw [if_pos (bit.mpr taken), if_pos taken, UInt64.toNat_xor, Nat.xor_assoc]
    · rw [if_neg fun set => taken (bit.mp set), if_neg taken, Nat.zero_xor]

theorem polymod_toNat (chk : UInt64) (value : UInt8) :
    (descriptor_checksum_polymod chk value).toNat = bip380.step chk.toNat value.toNat := by
  have low : (chk &&& 0x7ffffffff).toNat = chk.toNat % 2 ^ 35 := by
    rw [UInt64.toNat_and, show UInt64.toNat 0x7ffffffff = 2 ^ 35 - 1 from rfl, Nat.and_two_pow_sub_one_eq_mod]
  have shifted : ((chk &&& 0x7ffffffff) <<< 5).toNat = chk.toNat % 2 ^ 35 * 2 ^ 5 := by
    rw [UInt64.toNat_shiftLeft, low, show UInt64.toNat 5 % 64 = 5 from rfl, Nat.shiftLeft_eq]
    exact Nat.mod_eq_of_lt (by omega)
  have top : (chk >>> 35).toNat = chk.toNat / 2 ^ 35 := by
    rw [UInt64.toNat_shiftRight, show UInt64.toNat 35 % 64 = 35 from rfl, Nat.shiftRight_eq_div_pow]
  have folded := foldBack_toNat (chk >>> 35) generators ((chk &&& 0x7ffffffff) <<< 5 ^^^ value.toUInt64)
    (show 0 + generators.length ≤ 64 by decide)
  rw [UInt64.toNat_xor, shifted, top, Nat.pow_zero, Nat.div_one, UInt8.toNat_toUInt64] at folded
  exact folded

theorem bip380_step_lt (chk : Nat) {symbol : Nat} (small : symbol < 2 ^ 8) : bip380.step chk symbol < 2 ^ 40 :=
  bip380.step_lt (by decide) (by decide) chk (Nat.lt_trans small (by decide))

theorem polymod_lt (chk : UInt64) (value : UInt8) : (descriptor_checksum_polymod chk value).toNat < 2 ^ 40 := by
  rw [polymod_toNat]
  exact bip380_step_lt _ value.toNat_lt

theorem bip380_pivot (top : Nat) (small : top < 2 ^ bip380.width)
    (low : feedback bip380.gens top % 2 ^ bip380.width = 0) : top = 0 := by
  have checked : ∀ top, top < 32 → feedback bip380.gens top % 32 = 0 → top = 0 := by decide +kernel
  exact checked top small low

theorem polymod_inj {chk chk' : UInt64} (small : chk.toNat < 2 ^ 40) (small' : chk'.toNat < 2 ^ 40) {value : UInt8}
    (same : descriptor_checksum_polymod chk value = descriptor_checksum_polymod chk' value) : chk = chk' := by
  have steps := congrArg UInt64.toNat same
  rw [polymod_toNat, polymod_toNat] at steps
  exact UInt64.toNat_inj.mp (bip380.step_inj bip380_pivot small small' steps)

/-- Registers that are close take different symbols to different registers. -/
theorem polymod_ne {chk chk' : UInt64} {symbol symbol' : UInt8} (near : chk.toNat ^^^ chk'.toNat < 2 ^ 35)
    (small : symbol.toNat < 32) (small' : symbol'.toNat < 32) (other : chk ≠ chk' ∨ symbol ≠ symbol') :
    descriptor_checksum_polymod chk symbol ≠ descriptor_checksum_polymod chk' symbol' := by
  intro same
  have steps := congrArg UInt64.toNat same
  rw [polymod_toNat, polymod_toNat, ← Nat.xor_eq_zero_iff, ← Code.step_xor] at steps
  have symbols : symbol.toNat ^^^ symbol'.toNat < 2 ^ 5 := Nat.xor_lt_two_pow (n := 5) small small'
  rw [bip380.step_of_small near symbols] at steps
  obtain ⟨registers, symbols⟩ := Nat.add_eq_zero_iff.mp steps
  rcases other with chk_other | symbol_other
  · refine chk_other (UInt64.toNat_inj.mp (Nat.xor_eq_zero_iff.mp ?_))
    exact (Nat.mul_eq_zero.mp registers).resolve_right (by decide)
  · exact symbol_other (UInt8.toNat_inj.mp (Nat.xor_eq_zero_iff.mp symbols))

/-- The same symbol drives close registers apart by one more place. -/
theorem polymod_near {chk chk' : UInt64} {symbol : UInt8} {places : Nat} (near : chk.toNat ^^^ chk'.toNat < 2 ^ (5 * places))
    (few : places ≤ 7) : (descriptor_checksum_polymod chk symbol).toNat ^^^ (descriptor_checksum_polymod chk' symbol).toNat <
      2 ^ (5 * (places + 1)) := by
  have inside : chk.toNat ^^^ chk'.toNat < 2 ^ 35 :=
    Nat.lt_of_lt_of_le near (Nat.pow_le_pow_right (by decide) (by omega))
  rw [polymod_toNat, polymod_toNat, ← Code.step_xor, Nat.xor_self, bip380.step_of_small inside (by decide), Nat.mul_succ,
    Nat.pow_add, Nat.add_zero]
  exact Nat.mul_lt_mul_of_pos_right near (by decide)

/-! ### Two payloads side by side -/

/-- What every run keeps: the register has forty bits, the symbol in the making is small. -/
structure Checksum.Bounded (sum : Checksum) : Prop where
  chk : sum.chk.toNat < 2 ^ 40
  group_len : sum.group_len < 3
  group : sum.group.toNat < 3 ^ sum.group_len

/-- Sums that a character has driven apart: the registers differ, or only the symbols in the making
    do and the registers are still close. -/
def Apart (sum sum' : Checksum) : Prop :=
  sum.group_len = sum'.group_len ∧ (sum.group = sum'.group ∧ sum.chk ≠ sum'.chk ∨
    sum.group ≠ sum'.group ∧ 0 < sum.group_len ∧ sum.chk.toNat ^^^ sum'.chk.toNat < 2 ^ (5 * sum.group_len))

/-- `Checksum.add`, from the value of a character on. -/
def Checksum.feed (sum : Checksum) (value : Nat) : Checksum :=
  let chk := descriptor_checksum_polymod sum.chk (UInt8.ofNat (value % 32))
  let group := sum.group * 3 + UInt8.ofNat (value / 32)
  if sum.group_len + 1 = 3 then ⟨descriptor_checksum_polymod chk group, 0, 0⟩ else ⟨chk, group, sum.group_len + 1⟩

theorem add_eq (sum : Checksum) (c : UInt8) : sum.add c = (input_charset.idxOf? c).map sum.feed := by
  unfold Checksum.add
  split
  next unknown => rw [unknown, Option.map_none]
  next value known =>
    rw [known, Option.map_some, Checksum.feed]
    split
    next => rfl
    next => rfl

theorem Checksum.Bounded.group_toNat {sum : Checksum} (bounded : sum.Bounded) {value : Nat} (listed : value < 96) :
    (sum.group * 3 + UInt8.ofNat (value / 32)).toNat = sum.group.toNat * 3 + value / 32 ∧
      sum.group.toNat * 3 + value / 32 < 3 ^ (sum.group_len + 1) := by
  have small : sum.group.toNat < 3 ^ sum.group_len := bounded.group
  have nine : 3 ^ sum.group_len ≤ 3 ^ 2 := Nat.pow_le_pow_right (by decide) (Nat.le_of_lt_succ bounded.group_len)
  have last : value / 32 < 3 := by omega
  have power : 3 ^ (sum.group_len + 1) = 3 ^ sum.group_len * 3 := by rw [Nat.pow_succ]
  rw [UInt8.toNat_add, UInt8.toNat_mul, UInt8.toNat_ofNat', show UInt8.toNat 3 = 3 from rfl]
  omega

theorem Checksum.Bounded.feed {sum : Checksum} (bounded : sum.Bounded) {value : Nat} (listed : value < 96) :
    (sum.feed value).Bounded := by
  obtain ⟨group, small⟩ := bounded.group_toNat listed
  have few := bounded.group_len
  rw [Checksum.feed]
  split
  next =>
    exact { chk := polymod_lt _ _, group_len := Nat.zero_lt_succ 2, group := Nat.one_pos }
  next more =>
    have room : sum.group_len + 1 < 3 := by omega
    exact { chk := polymod_lt _ _, group_len := room, group := group.symm ▸ small }

theorem Checksum.Bounded.group_lt {sum : Checksum} (bounded : sum.Bounded) {value : Nat} (listed : value < 96) :
    (sum.group * 3 + UInt8.ofNat (value / 32)).toNat < 32 := by
  obtain ⟨group, small⟩ := bounded.group_toNat listed
  have most : 3 ^ (sum.group_len + 1) ≤ 3 ^ 3 := Nat.pow_le_pow_right (by decide) bounded.group_len
  omega

/-- Registers that are close after a character, where they or the symbols in the making differ. -/
theorem feed_apart_of_near {sum sum' : Checksum} (bounded : sum.Bounded) (bounded' : sum'.Bounded) {value value' : Nat}
    (listed : value < 96) (listed' : value' < 96) (lens : sum.group_len = sum'.group_len)
    (near : (descriptor_checksum_polymod sum.chk (UInt8.ofNat (value % 32))).toNat ^^^
      (descriptor_checksum_polymod sum'.chk (UInt8.ofNat (value' % 32))).toNat < 2 ^ (5 * (sum.group_len + 1)))
    (other : descriptor_checksum_polymod sum.chk (UInt8.ofNat (value % 32)) ≠
        descriptor_checksum_polymod sum'.chk (UInt8.ofNat (value' % 32)) ∨
      sum.group.toNat * 3 + value / 32 ≠ sum'.group.toNat * 3 + value' / 32) :
    Apart (sum.feed value) (sum'.feed value') := by
  have group := (bounded.group_toNat listed).1
  have group' := (bounded'.group_toNat listed').1
  have differ : descriptor_checksum_polymod sum.chk (UInt8.ofNat (value % 32)) ≠
        descriptor_checksum_polymod sum'.chk (UInt8.ofNat (value' % 32)) ∨
      sum.group * 3 + UInt8.ofNat (value / 32) ≠ sum'.group * 3 + UInt8.ofNat (value' / 32) :=
    other.imp_right fun numbers same => numbers (by rw [← group, ← group', same])
  have few := bounded.group_len
  rw [Checksum.feed, Checksum.feed, ← lens]
  by_cases full : sum.group_len + 1 = 3
  · rw [if_pos full, if_pos full]
    have inside := Nat.lt_of_lt_of_le near (Nat.pow_le_pow_right (by decide) (show 5 * (sum.group_len + 1) ≤ 35 by omega))
    exact ⟨rfl, .inl ⟨rfl, polymod_ne inside (bounded.group_lt listed) (bounded'.group_lt listed') differ⟩⟩
  · rw [if_neg full, if_neg full]
    by_cases same : sum.group * 3 + UInt8.ofNat (value / 32) = sum'.group * 3 + UInt8.ofNat (value' / 32)
    · exact ⟨rfl, .inl ⟨same, differ.resolve_right (not_not_intro same)⟩⟩
    · exact ⟨rfl, .inr ⟨same, Nat.succ_pos _, near⟩⟩

/-- The same character keeps sums apart. -/
theorem Apart.feed {sum sum' : Checksum} (apart : Apart sum sum') (bounded : sum.Bounded) (bounded' : sum'.Bounded)
    {value : Nat} (listed : value < 96) : Apart (sum.feed value) (sum'.feed value) := by
  have few := bounded.group_len
  obtain ⟨lens, ⟨groups, registers⟩ | ⟨groups, started, near⟩⟩ := apart
  · have next : descriptor_checksum_polymod sum.chk (UInt8.ofNat (value % 32)) ≠
        descriptor_checksum_polymod sum'.chk (UInt8.ofNat (value % 32)) := fun same =>
      registers (polymod_inj bounded.chk bounded'.chk same)
    rw [Checksum.feed, Checksum.feed, ← lens, ← groups]
    by_cases full : sum.group_len + 1 = 3
    · rw [if_pos full, if_pos full]
      exact ⟨rfl, .inl ⟨rfl, fun same => next (polymod_inj (polymod_lt _ _) (polymod_lt _ _) same)⟩⟩
    · rw [if_neg full, if_neg full]
      exact ⟨rfl, .inl ⟨rfl, next⟩⟩
  · refine feed_apart_of_near bounded bounded' listed listed lens (polymod_near near (by omega)) (.inr fun same => ?_)
    exact groups (UInt8.toNat_inj.mp (by omega))

/-- Two characters drive a sum apart. -/
theorem feed_apart {sum : Checksum} (bounded : sum.Bounded) {value value' : Nat} (listed : value < 96) (listed' : value' < 96)
    (other : value ≠ value') : Apart (sum.feed value) (sum.feed value') := by
  have low : (UInt8.ofNat (value % 32)).toNat < 32 := by
    rw [UInt8.toNat_ofNat']
    omega
  have low' : (UInt8.ofNat (value' % 32)).toNat < 32 := by
    rw [UInt8.toNat_ofNat']
    omega
  have near : (descriptor_checksum_polymod sum.chk (UInt8.ofNat (value % 32))).toNat ^^^
      (descriptor_checksum_polymod sum.chk (UInt8.ofNat (value' % 32))).toNat < 2 ^ 5 := by
    rw [polymod_toNat, polymod_toNat, ← Code.step_xor, Nat.xor_self]
    have symbols := Nat.xor_lt_two_pow (n := 5) low low'
    rw [bip380.step_of_small (by decide) symbols, Nat.zero_mul, Nat.zero_add]
    exact symbols
  refine feed_apart_of_near bounded bounded listed listed' rfl
    (Nat.lt_of_lt_of_le near (Nat.pow_le_pow_right (by decide) (by omega))) ?_
  by_cases high : value / 32 = value' / 32
  · left
    refine polymod_ne (by rw [Nat.xor_self]; decide) low low' (.inr fun same => ?_)
    have numbers := congrArg UInt8.toNat same
    rw [UInt8.toNat_ofNat', UInt8.toNat_ofNat'] at numbers
    omega
  · right
    omega

/-! ### Whole payloads -/

theorem idxOf?_some {c : UInt8} {value : Nat} (known : input_charset.idxOf? c = some value) :
    value < 96 ∧ input_charset[value]? = some c := by
  have found := List.findIdx?_eq_some_iff_getElem.mp known
  obtain ⟨inside, same, _⟩ := found
  refine ⟨Nat.lt_of_lt_of_le inside (by decide), ?_⟩
  rw [List.getElem?_eq_getElem inside, eq_of_beq same]

theorem bounded_run : ∀ {text : Bytes} {sum after : Checksum}, sum.Bounded → text.foldlM Checksum.add sum = some after →
    after.Bounded
  | [], sum, after, bounded, run => by
    cases run
    exact bounded
  | c :: text, sum, after, bounded, run => by
    rw [List.foldlM_cons, add_eq] at run
    cases known : input_charset.idxOf? c with
    | none =>
      rw [known] at run
      cases run
    | some value =>
      rw [known] at run
      exact bounded_run (bounded.feed (idxOf?_some known).1) run

theorem apart_run : ∀ {text : Bytes} {sum sum' after after' : Checksum}, sum.Bounded → sum'.Bounded → Apart sum sum' →
    text.foldlM Checksum.add sum = some after → text.foldlM Checksum.add sum' = some after' → Apart after after'
  | [], _, _, _, _, _, _, apart, run, run' => by
    cases run
    cases run'
    exact apart
  | c :: text, sum, sum', after, after', bounded, bounded', apart, run, run' => by
    rw [List.foldlM_cons, add_eq] at run run'
    cases known : input_charset.idxOf? c with
    | none =>
      rw [known] at run
      cases run
    | some value =>
      rw [known] at run run'
      have listed := (idxOf?_some known).1
      exact apart_run (bounded.feed listed) (bounded'.feed listed) (apart.feed bounded bounded' listed) run run'

/-- The register behind a payload: the symbol in the making and eight zeros are taken in. -/
def Checksum.finish (sum : Checksum) : UInt64 :=
  (List.range 8).foldl (fun chk _ => descriptor_checksum_polymod chk 0)
    (if sum.group_len ≠ 0 then descriptor_checksum_polymod sum.chk sum.group else sum.chk) ^^^ 1

theorem zeros_inj : ∀ (rounds : List Nat) {chk chk' : UInt64}, chk.toNat < 2 ^ 40 → chk'.toNat < 2 ^ 40 →
    rounds.foldl (fun chk _ => descriptor_checksum_polymod chk 0) chk =
      rounds.foldl (fun chk _ => descriptor_checksum_polymod chk 0) chk' → chk = chk'
  | [], _, _, _, _, same => same
  | _ :: rounds, _, _, small, small', same =>
    polymod_inj small small' (zeros_inj rounds (polymod_lt _ _) (polymod_lt _ _) same)

theorem finish_lt {sum : Checksum} : sum.finish.toNat < 2 ^ 40 := by
  rw [Checksum.finish, UInt64.toNat_xor]
  exact Nat.xor_lt_two_pow (polymod_lt _ _) (by decide)

theorem Apart.finish {sum sum' : Checksum} (apart : Apart sum sum') (bounded : sum.Bounded) (bounded' : sum'.Bounded) :
    sum.finish ≠ sum'.finish := by
  have flushed_lt : ∀ {sum : Checksum}, sum.Bounded →
      (if sum.group_len ≠ 0 then descriptor_checksum_polymod sum.chk sum.group else sum.chk).toNat < 2 ^ 40 := by
    intro sum bounded
    split
    next => exact polymod_lt _ _
    next => exact bounded.chk
  have small : ∀ {sum : Checksum}, sum.Bounded → sum.group.toNat < 32 := by
    intro sum bounded
    have most : 3 ^ sum.group_len ≤ 3 ^ 2 := Nat.pow_le_pow_right (by decide) (Nat.le_of_lt_succ bounded.group_len)
    have group := bounded.group
    omega
  intro same
  have flushed := zeros_inj _ (flushed_lt bounded) (flushed_lt bounded') ((UInt64.xor_left_inj 1).mp same)
  have few := bounded.group_len
  obtain ⟨lens, ⟨groups, registers⟩ | ⟨groups, started, near⟩⟩ := apart
  · rw [← lens, ← groups] at flushed
    split at flushed
    next => exact registers (polymod_inj bounded.chk bounded'.chk flushed)
    next => exact registers flushed
  · rw [if_pos (by omega), if_pos (by omega)] at flushed
    have inside := Nat.lt_of_lt_of_le near (Nat.pow_le_pow_right (by decide) (show 5 * sum.group_len ≤ 35 by omega))
    exact polymod_ne inside (small bounded) (small bounded') (.inr groups) flushed

theorem charset_inj {a b : Nat} (a_small : a < 32) (b_small : b < 32)
    (same : checksum_charset.getD a 0 = checksum_charset.getD b 0) : a = b := by
  have distinct : checksum_charset.Nodup := by decide +kernel
  have length : checksum_charset.length = 32 := rfl
  rw [List.getD_eq_getElem _ _ (length ▸ a_small), List.getD_eq_getElem _ _ (length ▸ b_small)] at same
  exact (List.Nodup.getElem_inj_iff distinct).mp same

/-- The five bits of a register that a place in the checksum writes. -/
theorem register_digit (chk : UInt64) (i : Nat) :
    ((chk >>> UInt64.ofNat (5 * (7 - i))) &&& 31).toNat = chk.toNat / 2 ^ (5 * (7 - i)) % 32 := by
  have place : (UInt64.ofNat (5 * (7 - i))).toNat % 64 = 5 * (7 - i) := by
    rw [UInt64.toNat_ofNat']
    omega
  rw [UInt64.toNat_and, UInt64.toNat_shiftRight, place, show UInt64.toNat 31 = 2 ^ 5 - 1 from rfl,
    Nat.and_two_pow_sub_one_eq_mod, Nat.shiftRight_eq_div_pow]

/-- A checksum is valid for a payload if it writes its register. -/
theorem valid_register {text checksum : Bytes} (valid : descriptor_checksum_valid text checksum = true) :
    ∃ sum, text.foldlM Checksum.add ⟨1, 0, 0⟩ = some sum ∧ ∀ i, i < 8 →
      checksum.getD i 0 = checksum_charset.getD (sum.finish.toNat / 2 ^ (5 * (7 - i)) % 32) 0 := by
  rw [descriptor_checksum_valid] at valid
  split at valid
  next => cases valid
  next sum run =>
    refine ⟨sum, run, fun i inside => ?_⟩
    have same := List.all_eq_true.mp valid i (List.mem_range.mpr inside)
    rw [← register_digit]
    exact eq_of_beq same

/-- Eight places of the checksum write the whole register. -/
theorem register_eq {chk chk' : UInt64} (small : chk.toNat < 2 ^ 40) (small' : chk'.toNat < 2 ^ 40)
    (same : ∀ i, i < 8 → chk.toNat / 2 ^ (5 * (7 - i)) % 32 = chk'.toNat / 2 ^ (5 * (7 - i)) % 32) : chk = chk' := by
  refine UInt64.toNat_inj.mp (@Radix.eq_of_digits 32 8 _ _ small small' fun i inside => ?_)
  have digit := same (7 - i) (by omega)
  rw [show 7 - (7 - i) = i by omega, Nat.pow_mul] at digit
  exact digit

/-- One checksum is not valid for two payloads that differ in one character. -/
theorem valid_unique {front behind checksum : Bytes} {c d : UInt8} (other : d ≠ c)
    (valid : descriptor_checksum_valid (front ++ c :: behind) checksum = true) :
    descriptor_checksum_valid (front ++ d :: behind) checksum = false := by
  by_contra valid'
  obtain ⟨sum, run, digits⟩ := valid_register valid
  obtain ⟨sum', run', digits'⟩ := valid_register (Bool.eq_true_of_not_eq_false valid')
  rw [List.foldlM_append] at run run'
  obtain ⟨before, run_front, run⟩ := Option.bind_eq_some_iff.mp run
  obtain ⟨before', run_front', run'⟩ := Option.bind_eq_some_iff.mp run'
  obtain rfl : before = before' := Option.some.inj (run_front.symm.trans run_front')
  have bounded : before.Bounded := by
    refine bounded_run ?_ run_front
    exact { chk := by decide, group_len := by decide, group := by decide }
  rw [List.foldlM_cons, add_eq] at run run'
  cases known : input_charset.idxOf? c with
  | none =>
    rw [known] at run
    cases run
  | some value =>
    cases known' : input_charset.idxOf? d with
    | none =>
      rw [known'] at run'
      cases run'
    | some value' =>
      rw [known] at run
      rw [known'] at run'
      obtain ⟨listed, get⟩ := idxOf?_some known
      obtain ⟨listed', get'⟩ := idxOf?_some known'
      have values : value ≠ value' := by
        rintro rfl
        exact other (Option.some.inj (get'.symm.trans get))
      have apart := apart_run (bounded.feed listed) (bounded.feed listed') (feed_apart bounded listed listed' values) run run'
      have final := apart.finish (bounded_run (bounded.feed listed) run) (bounded_run (bounded.feed listed') run')
      refine final (register_eq finish_lt finish_lt fun i inside => ?_)
      exact charset_inj (Nat.mod_lt _ (by decide)) (Nat.mod_lt _ (by decide)) ((digits i inside).symm.trans (digits' i inside))

/-! ### Whole texts -/

/-- A text without its last blanks. -/
def trimmed (text : Bytes) : Bytes := (text.reverse.dropWhile isspace).reverse

theorem trimmed_append {c : UInt8} (visible : isspace c = false) (front behind : Bytes) :
    trimmed (front ++ c :: behind) = front ++ c :: trimmed behind := by
  have reversed : (front ++ c :: behind).reverse = behind.reverse ++ c :: front.reverse := by simp
  rw [trimmed, trimmed, reversed, List.dropWhile_append]
  split
  next blank =>
    rw [List.isEmpty_iff.mp blank, List.dropWhile_cons_of_neg (by simp [visible])]
    simp
  next => simp

theorem idxOf?_front {front : Bytes} {c : UInt8} (fresh : c ∉ front) (behind : Bytes) :
    (front ++ c :: behind).idxOf? c = some front.length := by
  rw [List.idxOf?, List.findIdx?_eq_some_iff_getElem]
  refine ⟨by simp, by simp, fun i inside => ?_⟩
  rw [List.getElem_append_left inside]
  intro same
  exact fresh (eq_of_beq same ▸ List.getElem_mem inside)

/-- A payload, its checksum and what is behind it. -/
theorem strip_hash {payload : Bytes} (no_hash : '#'.toUInt8 ∉ payload) (behind : Bytes) :
    strip (payload ++ '#'.toUInt8 :: behind) =
      if (trimmed behind).length ≠ 8 ∨ ¬ descriptor_checksum_valid payload (trimmed behind) then refuse ERR_INVALID
      else .ok (payload.filter fun c => !isspace c) := by
  have work := trimmed_append (show isspace '#'.toUInt8 = false by decide) payload behind
  rw [trimmed] at work
  have nine : (payload ++ '#'.toUInt8 :: trimmed behind).length - payload.length ≠ 9 ↔ (trimmed behind).length ≠ 8 := by
    rw [List.length_append, List.length_cons]
    omega
  rw [strip]
  simp only [work, idxOf?_front no_hash, nine, List.take_left', List.take_left, List.drop_length_add_append,
    List.drop_succ_cons, List.drop_zero]

/-- A plain text is taken from its first visible character on. -/
theorem unwrap_plain {lead : Bytes} (blank : ∀ c ∈ lead, isspace c = true) {c : UInt8} (visible : isspace c = false)
    (plain : c ≠ '{'.toUInt8) (behind : Bytes) : unwrap (lead ++ c :: behind) = .ok (c :: behind, []) := by
  have no_brace : ¬ (c :: behind).head? = some '{'.toUInt8 := fun brace => plain (Option.some.inj brace)
  simp only [unwrap, skip_ws_blank blank visible]
  exact if_neg no_brace

theorem unwrap_payload {lead front : Bytes} (blank : ∀ c ∈ lead, isspace c = true) {c : UInt8}
    (begins : ∀ x ∈ (front ++ [c]).head?, isspace x = false ∧ x ≠ '{'.toUInt8) (behind : Bytes) :
    unwrap (lead ++ (front ++ c :: behind)) = .ok (front ++ c :: behind, []) := by
  cases front with
  | nil =>
    obtain ⟨visible, plain⟩ := begins c rfl
    exact unwrap_plain blank visible plain behind
  | cons x front =>
    obtain ⟨visible, plain⟩ := begins x rfl
    exact unwrap_plain blank visible plain (front ++ c :: behind)

/-- Where a plain text passes the test of its checksum, every text that has one other character in
    the payload is refused, unless that character makes it a JSON export. -/
theorem substitution_refused (sha256 : Bytes → Bytes) {lead front behind rest : Bytes} {c d : UInt8}
    (blank : ∀ c ∈ lead, isspace c = true) (begins : ∀ x ∈ (front ++ [c]).head?, isspace x = false ∧ x ≠ '{'.toUInt8)
    (payload : '#'.toUInt8 ∉ front ++ c :: behind)
    (passes : ∃ work, scanned (lead ++ (front ++ c :: (behind ++ '#'.toUInt8 :: rest))) = .ok work)
    (other : d ≠ c) (visible : isspace d = false) (plain : front = [] → d ≠ '{'.toUInt8) :
    descriptor_text_parse sha256 (lead ++ (front ++ d :: (behind ++ '#'.toUInt8 :: rest))) = refuse ERR_INVALID := by
  have begins' : ∀ x ∈ (front ++ [d]).head?, isspace x = false ∧ x ≠ '{'.toUInt8 := by
    cases front with
    | nil =>
      intro x first
      obtain rfl : d = x := Option.some.inj first
      exact ⟨visible, plain rfl⟩
    | cons x front => exact begins
  obtain ⟨work, passes⟩ := passes
  rw [scanned, unwrap_payload blank begins] at passes
  have whole : ∀ c : UInt8, front ++ c :: (behind ++ '#'.toUInt8 :: rest) = (front ++ c :: behind) ++ '#'.toUInt8 :: rest :=
    fun c => by simp
  have refused : strip (front ++ d :: (behind ++ '#'.toUInt8 :: rest)) = refuse ERR_INVALID := by
    have passed : strip (front ++ c :: (behind ++ '#'.toUInt8 :: rest)) = .ok work := passes
    rw [whole, strip_hash payload] at passed
    split at passed
    next => cases passed
    next passes =>
      rw [not_or, not_not, not_not] at passes
      obtain ⟨length, valid⟩ := passes
      by_cases hash : d = '#'.toUInt8
      · -- the text is cut at the new mark, and what is behind it is too long
        have fresh : '#'.toUInt8 ∉ front := fun mem => payload (List.mem_append_left _ mem)
        subst hash
        rw [strip_hash fresh, if_pos]
        left
        rw [trimmed_append (by decide), List.length_append, List.length_cons, length]
        omega
      · have fresh : '#'.toUInt8 ∉ front ++ d :: behind := by
          intro mem
          rcases List.mem_append.mp mem with before | after
          · exact payload (List.mem_append_left _ before)
          · rcases List.mem_cons.mp after with same | behind_mem
            · exact hash same.symm
            · exact payload (List.mem_append_right _ (List.mem_cons_of_mem _ behind_mem))
        rw [whole, strip_hash fresh, if_pos]
        right
        rw [valid_unique other valid]
        exact Bool.false_ne_true
  have present : decide ((lead ++ (front ++ d :: (behind ++ '#'.toUInt8 :: rest))).length ≠ 0) = true := by simp
  rw [descriptor_text_parse, present, Check.ensure_true, Check.ok_bind, unwrap_payload blank begins', Check.ok_bind, refused]
  rfl

theorem substitution_refused_pkh :
    descriptor_text_parse (fun _ => []) ([32] ++ ([] ++ 'k'.toUInt8 ::
      (ascii "kh([73c5da0a/48h]xpub6DkF/<0;1>/*)" ++ '#'.toUInt8 :: ascii "pvhttgns"))) = refuse ERR_INVALID := by
  refine substitution_refused (fun _ => []) (c := 'p'.toUInt8) (fun x mem => ?_) (fun x first => ?_) (by decide +kernel)
    ⟨ascii "pkh([73c5da0a/48h]xpub6DkF/<0;1>/*)", by decide +kernel⟩ (by decide) (by decide) (fun _ => by decide)
  · rw [List.mem_singleton.mp mem]
    decide
  · obtain rfl : 'p'.toUInt8 = x := Option.some.inj first
    decide

/-- A payload whose first character turns into a brace is read as a JSON export. -/
theorem brace_makes_json : '#'.toUInt8 ∉ 'x'.toUInt8 :: ascii "\"descriptor\":\"pk([00000000]x/**)\"\x7d" ∧
    (∃ work, scanned ('x'.toUInt8 :: (ascii "\"descriptor\":\"pk([00000000]x/**)\"\x7d" ++
      '#'.toUInt8 :: ascii "y264d54e")) = .ok work) ∧
    ∃ descriptor name, descriptor_text_parse (fun _ => []) ('{'.toUInt8 ::
      (ascii "\"descriptor\":\"pk([00000000]x/**)\"\x7d" ++ '#'.toUInt8 :: ascii "y264d54e")) = .ok (descriptor, name) := by
  refine ⟨by decide +kernel, ⟨ascii "x\"descriptor\":\"pk([00000000]x/**)\"\x7d", by decide +kernel⟩,
    ⟨ascii "pk(@0/<0;1>/*)", [⟨ascii "@0", ascii "[00000000]x"⟩], .UNKNOWN⟩, ascii "desc-", by decide +kernel⟩

end PiJade.DescriptorText
