import Mathlib.Data.Nat.Bitwise
import Mathlib.Data.Nat.Digits.Defs
import Mathlib.Tactic.Ring
import PiJade.MinerRuns

/-!
A template is mined on only if its coinbase and its target are what the consensus rules ask for: the
subsidy of its height, the height at the beginning of the input, and the target that the compact bits
of the header stand for. The rules are stated on numbers, apart from the tables and byte layouts of the
miner. Five rewards of the table are rounded up, and height 0 is pushed in another way.
-/
namespace PiJade.Miner
open Sha256 (beNat)
set_option linter.unusedSimpArgs false

/-! ### Rules -/

/-- Blocks between two halvings. -/
def interval (bits : UInt32) : Nat := if bits = 0x207fffff then 150 else 210000

/-- What a block of that height may create. -/
def subsidy (bits : UInt32) (height : Nat) : Nat := 5000000000 / 2 ^ (height / interval bits)

def mantissaOf (bits : UInt32) : Nat := bits.toNat % 2 ^ 23
def exponentOf (bits : UInt32) : Nat := bits.toNat / 2 ^ 24

/-- The sign bit of the compact form. -/
def Negative (bits : UInt32) : Prop := bits.toNat / 2 ^ 23 % 2 = 1

instance instDecidableNegative (bits : UInt32) : Decidable (Negative bits) :=
  inferInstanceAs (Decidable (bits.toNat / 2 ^ 23 % 2 = 1))

/-- The number that the compact form stands for, its sign apart. -/
def compactTarget (bits : UInt32) : Nat :=
  if exponentOf bits ≤ 3 then mantissaOf bits / 256 ^ (3 - exponentOf bits)
  else mantissaOf bits * 256 ^ (exponentOf bits - 3)

/-- A number of a script: its bytes from the least significant one on, with a zero behind a last one that
    would be a sign. -/
def scriptNum (n : Nat) : Bytes :=
  let bytes := (Nat.digits 256 n).map UInt8.ofNat
  if 128 ≤ bytes.getLastD 0 then bytes ++ [0] else bytes

/-- The shortest push of a number. -/
def minimalPush (n : Nat) : Bytes :=
  if n = 0 then [0]
  else if n ≤ 16 then [UInt8.ofNat (0x50 + n)]
  else UInt8.ofNat (scriptNum n).length :: scriptNum n

/-- No call into libwally fails but the conversion of an address: outputs of up to 21 million coins are added, and what
    spends the null output is a coinbase. -/
structure Wally.Works (wally : Wally) : Prop where
  tx_init_alloc : wally.wally_tx_init_alloc = true
  witness_stack_init_alloc : wally.wally_tx_witness_stack_init_alloc = true
  witness_stack_add : wally.wally_tx_witness_stack_add = true
  add_raw_input : wally.wally_tx_add_raw_input = true
  add_raw_output (satoshis : UInt64) (script : Bytes) :
    satoshis.toNat ≤ 2100000000000000 → wally.wally_tx_add_raw_output satoshis script = true
  is_coinbase (tx : Tx) :
    tx.txhash = Vector.replicate 32 0 → tx.utxo_index = 0xFFFFFFFF → wally.wally_tx_is_coinbase tx = true
  get_txid (tx : Tx) : (wally.wally_tx_get_txid tx).isSome
  to_bytes (tx : Tx) : (wally.wally_tx_to_bytes tx).isSome

/-- The address is converted, by either call. -/
def Wally.Converts (wally : Wally) (address : Bytes) : Prop :=
  (wally.wally_address_to_scriptpubkey address (networkOf address).1).isSome ∨
    (wally.wally_addr_segwit_to_bytes address (networkOf address).2).isSome

/-! ### Rewards -/

theorem block_rewards_eq_iff (i : Nat) : (block_rewards.getD i 0).toNat = 5000000000 / 2 ^ i ↔ ¬ (13 ≤ i ∧ i ≤ 17) := by
  by_cases inside : i < 33
  · revert i
    decide +kernel
  · have beyond : block_rewards.getD i 0 = 0 := List.getD_eq_default _ _ (by simpa [block_rewards] using inside)
    have small : 5000000000 < 2 ^ i :=
      Nat.lt_of_lt_of_le (by decide) (Nat.pow_le_pow_right (by decide) (Nat.le_of_not_lt inside))
    rw [beyond, Nat.div_eq_of_lt small]
    simp
    omega

/-! ### Heights -/

theorem digits_eq {n : Nat} (positive : 0 < n) : Nat.digits 256 n = n % 256 :: Nat.digits 256 (n / 256) :=
  Nat.digits_def' (by decide) positive

/-- One more byte of a number of a script. -/
theorem scriptNum_three {n : Nat} (large : 17 ≤ n) (small : n < 2 ^ 23) :
    scriptNum n = if n ≤ 127 then [UInt8.ofNat n] else if n ≤ 32767 then [UInt8.ofNat n, UInt8.ofNat (n / 256)]
      else [UInt8.ofNat n, UInt8.ofNat (n / 256), UInt8.ofNat (n / 65536)] := by
  have low (m : Nat) : UInt8.ofNat (m % 256) = UInt8.ofNat m := by
    apply UInt8.toNat_inj.mp
    simp [UInt8.toNat_ofNat']
  have third : n / 256 / 256 = n / 65536 := by rw [Nat.div_div_eq_div_mul]
  rw [scriptNum, digits_eq (by omega)]
  by_cases one : n < 256
  · have done : n / 256 = 0 := by omega
    have last : (128 : UInt8) ≤ UInt8.ofNat n ↔ 128 ≤ n := by
      rw [UInt8.le_iff_toNat_le, UInt8.toNat_ofNat']
      show 128 ≤ _ ↔ _
      omega
    simp only [done, Nat.digits_zero, List.map_cons, List.map_nil, low, List.getLastD_cons, List.getLastD_nil, last]
    by_cases short : n ≤ 127
    · rw [if_neg (by omega), if_pos short]
    · rw [if_pos (by omega), if_neg short, if_pos (by omega)]
      rfl
  · rw [digits_eq (by omega), third]
    by_cases two : n < 65536
    · have done : n / 65536 = 0 := by omega
      have last : (128 : UInt8) ≤ UInt8.ofNat (n / 256) ↔ 32768 ≤ n := by
        rw [UInt8.le_iff_toNat_le, UInt8.toNat_ofNat']
        show 128 ≤ _ ↔ _
        omega
      simp only [done, Nat.digits_zero, List.map_cons, List.map_nil, low, List.getLastD_cons, List.getLastD_nil, last]
      by_cases short : n ≤ 32767
      · rw [if_neg (by omega), if_neg (by omega), if_pos short]
      · rw [if_pos (by omega), if_neg (by omega), if_neg short]
        rfl
    · have done : n / 65536 / 256 = 0 := by omega
      have last : (128 : UInt8) ≤ UInt8.ofNat (n / 65536) ↔ 8388608 ≤ n := by
        rw [UInt8.le_iff_toNat_le, UInt8.toNat_ofNat']
        show 128 ≤ _ ↔ _
        omega
      rw [digits_eq (by omega), done]
      simp only [Nat.digits_zero, List.map_cons, List.map_nil, low, List.getLastD_cons, List.getLastD_nil, last]
      rw [if_neg (by omega), if_neg (by omega), if_neg (by omega)]

/-- The script begins with the shortest push of a height that is not zero and takes three bytes at most. -/
theorem varint_encode_push {height : UInt32} (positive : 0 < height.toNat) (small : height.toNat < 2 ^ 23) :
    minimalPush height.toNat <+: (varint_encode height.toUInt64).1.take ((varint_encode height.toUInt64).2 + 1) := by
  have whole : height.toUInt64.toNat = height.toNat := rfl
  have first : (height.toUInt64 >>> (8 * 0)).toUInt8 = UInt8.ofNat height.toNat := by
    apply UInt8.toNat_inj.mp
    simp
  have second : (height.toUInt64 >>> (8 * 1)).toUInt8 = UInt8.ofNat (height.toNat / 256) := by
    apply UInt8.toNat_inj.mp
    simp [Nat.shiftRight_eq_div_pow]
  have third : (height.toUInt64 >>> (8 * 2)).toUInt8 = UInt8.ofNat (height.toNat / 65536) := by
    apply UInt8.toNat_inj.mp
    simp [Nat.shiftRight_eq_div_pow]
  have at_most (bound : UInt64) : height.toUInt64 ≤ bound ↔ height.toNat ≤ bound.toNat := by
    rw [UInt64.le_iff_toNat_le, whole]
  by_cases tiny : height.toNat ≤ 16
  · have digit : UInt8.ofNat (0x50 + height.toNat) = height.toUInt64.toUInt8 + 0x50 := by
      apply UInt8.toNat_inj.mp
      simp [UInt8.toNat_ofNat', UInt8.toNat_add, Nat.add_comm]
    have encoded : varint_encode height.toUInt64 = ([height.toUInt64.toUInt8 + 0x50, 0, 0, 0, 0], 1) :=
      if_pos ((at_most 16).mpr tiny)
    rw [encoded, minimalPush, if_neg (by omega), if_pos tiny, digit]
    exact List.prefix_append [_] [0]
  · rw [minimalPush, if_neg (by omega), if_neg tiny, scriptNum_three (by omega) small]
    have sixteen : (16 : UInt64).toNat = 16 := rfl
    have largest1 : (127 : UInt64).toNat = 127 := rfl
    have largest2 : (32767 : UInt64).toNat = 32767 := rfl
    simp only [varint_encode, at_most, first, second, third, sixteen, largest1, largest2]
    rw [if_neg tiny]
    by_cases one : height.toNat ≤ 127
    · rw [if_pos one, if_pos one]
      exact List.prefix_append [1, _] [_]
    · rw [if_neg one, if_neg one]
      by_cases two : height.toNat ≤ 32767
      · rw [if_pos two, if_pos two]
        exact List.prefix_append [2, _, _] [_]
      · rw [if_neg two, if_neg two]
        exact List.prefix_append [3, _, _, _] [_]

/-! ### Targets -/

theorem beNat_append (front back : Bytes) : beNat (front ++ back) = beNat front * 256 ^ back.length + beNat back := by
  induction front with
  | nil => simp [beNat]
  | cons byte rest ih =>
    rw [List.cons_append, beNat, beNat, ih, List.length_append, Nat.pow_add]
    rw [Nat.add_mul, Nat.mul_assoc, Nat.add_assoc]

theorem beNat_zeros (k : Nat) : beNat (List.replicate k 0) = 0 := by
  induction k with
  | zero => rfl
  | succ k ih => simp [List.replicate_succ, beNat, ih]

theorem set_three (k m : Nat) (a b c : UInt8) :
    (((List.replicate (k + (3 + m)) (0 : UInt8)).set k a).set (k + 1) b).set (k + 2) c =
      List.replicate k 0 ++ a :: b :: c :: List.replicate m 0 := by
  induction k with
  | zero => simp [Nat.add_comm 3 m, List.replicate_succ]
  | succ k ih =>
    rw [Nat.add_right_comm, List.replicate_succ]
    simp only [List.set_cons_succ, ih, List.replicate_succ, List.cons_append]

theorem mantissa_toNat (bits : UInt32) : (bits &&& 0x007fffff).toNat = mantissaOf bits := by
  rw [UInt32.toNat_and]
  exact Nat.and_two_pow_sub_one_eq_mod bits.toNat 23

theorem exponent_toNat (bits : UInt32) : (bits >>> 24).toNat = exponentOf bits := by
  rw [UInt32.toNat_shiftRight, exponentOf, ← Nat.shiftRight_eq_div_pow]
  rfl

theorem negative_iff (bits : UInt32) : bits &&& 0x00800000 ≠ 0 ↔ Negative bits := by
  have bit : (bits &&& 0x00800000).toNat = (bits.toNat.testBit 23).toNat * 2 ^ 23 := by
    rw [UInt32.toNat_and]
    exact Nat.and_two_pow bits.toNat 23
  rw [Negative, ne_eq, ← UInt32.toNat_inj, bit, Nat.testBit_eq_decide_div_mod_eq]
  by_cases set : bits.toNat / 2 ^ 23 % 2 = 1
  · simp [set]
  · simp [set]

/-- The target that is read from the compact form is the number it stands for. -/
theorem bits_to_target_spec {bits : UInt32} {target : Vector UInt8 32} (read : bits_to_target bits = some target) :
    ¬ Negative bits ∧ 3 ≤ exponentOf bits ∧ exponentOf bits ≤ 32 ∧ 0 < mantissaOf bits ∧
      beNat target.toList = mantissaOf bits * 256 ^ (exponentOf bits - 3) := by
  simp only [bits_to_target, exponent_toNat, HASH_SIZE] at read
  split at read
  · cases read
  · rename_i sound
    split at read
    · cases read
    · rename_i bounds
      obtain rfl := Option.some.inj read
      obtain ⟨positive, some_mantissa⟩ := not_or.mp sound
      rw [← UInt32.toNat_inj, mantissa_toNat] at some_mantissa
      have low : mantissaOf bits < 2 ^ 23 := Nat.mod_lt _ (by decide)
      refine ⟨mt (negative_iff bits).mpr positive, by omega, by omega, Nat.pos_of_ne_zero some_mantissa, ?_⟩
      have size : 32 = (32 - exponentOf bits) + (3 + (exponentOf bits - 3)) := by omega
      have bytes := set_three (32 - exponentOf bits) (exponentOf bits - 3) ((bits &&& 0x007fffff) >>> 16).toUInt8
        ((bits &&& 0x007fffff) >>> 8).toUInt8 (bits &&& 0x007fffff).toUInt8
      rw [← size] at bytes
      simp only [Vector.toList_setIfInBounds, Vector.toList_replicate, bytes]
      have three : ((bits &&& 0x007fffff) >>> 16).toUInt8.toNat * 65536 + ((bits &&& 0x007fffff) >>> 8).toUInt8.toNat * 256 +
          (bits &&& 0x007fffff).toUInt8.toNat = mantissaOf bits := by
        simp only [UInt32.toNat_toUInt8, UInt32.toNat_shiftRight, mantissa_toNat, Nat.shiftRight_eq_div_pow]
        show mantissaOf bits / 2 ^ 16 % 256 * 65536 + mantissaOf bits / 2 ^ 8 % 256 * 256 + mantissaOf bits % 256 = _
        omega
      rw [beNat_append, beNat_zeros, Nat.zero_mul, Nat.zero_add]
      simp only [beNat, beNat_zeros, List.length_cons, List.length_replicate, Nat.add_zero, Nat.pow_succ]
      rw [← three]
      ring

/-- And every number that can be written so is read. -/
theorem bits_to_target_isSome {bits : UInt32} (positive : ¬ Negative bits) (some_mantissa : 0 < mantissaOf bits)
    (least : 3 ≤ exponentOf bits) (most : exponentOf bits ≤ 32) : ∃ target, bits_to_target bits = some target := by
  have sound : ¬ (bits &&& 0x00800000 ≠ 0 ∨ bits &&& 0x007fffff = 0) := by
    rintro (negative | zero)
    · exact positive ((negative_iff bits).mp negative)
    · rw [← UInt32.toNat_inj, mantissa_toNat] at zero
      exact Nat.ne_of_gt some_mantissa zero
  have bounds : ¬ ((bits >>> 24).toNat < 3 ∨ (bits >>> 24).toNat > HASH_SIZE) := by
    rw [exponent_toNat, HASH_SIZE]
    omega
  exact ⟨_, by rw [bits_to_target, if_neg sound, if_neg bounds]⟩

theorem beNat_inj {a b : Bytes} (size : a.length = b.length) (same : beNat a = beNat b) : a = b := by
  induction a generalizing b with
  | nil => exact (List.length_eq_zero_iff.mp size.symm).symm
  | cons byte rest ih =>
    cases b with
    | nil => cases size
    | cons other later =>
      have lengths : rest.length = later.length := Nat.succ.inj size
      have first := Sha256.beNat_lt rest
      have second := Sha256.beNat_lt later
      have positive : 0 < 256 ^ later.length := Nat.pow_pos (by decide)
      rw [beNat, beNat, lengths] at same
      rw [lengths] at first
      have quotient {x y : Nat} (low : y < 256 ^ later.length) : (x * 256 ^ later.length + y) / 256 ^ later.length = x := by
        rw [Nat.add_comm, Nat.add_mul_div_right _ _ positive, Nat.div_eq_of_lt low, Nat.zero_add]
      have bytes : byte.toNat = other.toNat := (quotient first).symm.trans (same ▸ quotient second)
      rw [bytes] at same
      rw [UInt8.toNat_inj.mp bytes, ih lengths (Nat.add_left_cancel same)]

/-! ### Templates -/

/-- The transaction that a coinbase is made of. -/
def coinbaseTx (height : UInt32) (satoshis : UInt64) (scriptpubkey : Bytes) : Tx where
  version := 2
  locktime := 0
  txhash := Vector.replicate 32 0
  utxo_index := 0xFFFFFFFF
  sequence := 4294967295
  script := (varint_encode height.toUInt64).1.take ((varint_encode height.toUInt64).2 + 1)
  witness := [(Vector.replicate 32 0 : Vector UInt8 32).toList]
  outputs := [(satoshis, scriptpubkey), (0, witnessCommitment)]

/-- What is left when the address is converted. -/
def finished (wally : Wally) (height : UInt32) (satoshis : UInt64) (scriptpubkey : Bytes) :
    Option (Vector UInt8 32 × Bytes) := do
  guard (wally.wally_tx_add_raw_output satoshis scriptpubkey)
  guard (wally.wally_tx_add_raw_output 0 witnessCommitment)
  guard (wally.wally_tx_is_coinbase (coinbaseTx height satoshis scriptpubkey))
  let txid ← wally.wally_tx_get_txid (coinbaseTx height satoshis scriptpubkey)
  let rawtx ← wally.wally_tx_to_bytes (coinbaseTx height satoshis scriptpubkey)
  pure (txid, rawtx)

theorem make_coinbase_tx_eq (wally : Wally) (address : Bytes) (height : UInt32) (satoshis : UInt64) :
    make_coinbase_tx wally address height satoshis = (do
      guard wally.wally_tx_init_alloc
      guard wally.wally_tx_witness_stack_init_alloc
      guard wally.wally_tx_witness_stack_add
      guard wally.wally_tx_add_raw_input
      let scriptpubkey ← (wally.wally_address_to_scriptpubkey address (networkOf address).1).or
        (wally.wally_addr_segwit_to_bytes address (networkOf address).2)
      finished wally height satoshis scriptpubkey) := by
  cases first : wally.wally_address_to_scriptpubkey address (networkOf address).1 with
  | some scriptpubkey =>
    simp only [make_coinbase_tx, first, Option.some_or]
    rfl
  | none =>
    simp only [make_coinbase_tx, first, Option.none_or]
    rfl

theorem make_coinbase_tx_spec {wally : Wally} {address : Bytes} {height : UInt32} {satoshis : UInt64}
    {txid : Vector UInt8 32} {rawtx : Bytes} (made : make_coinbase_tx wally address height satoshis = some (txid, rawtx)) :
    ∃ scriptpubkey, wally.wally_tx_get_txid (coinbaseTx height satoshis scriptpubkey) = some txid ∧
      wally.wally_tx_to_bytes (coinbaseTx height satoshis scriptpubkey) = some rawtx := by
  simp only [make_coinbase_tx_eq, finished, Option.bind_eq_bind, Option.bind_eq_some_iff, Option.pure_def,
    Option.some.injEq, Prod.mk.injEq] at made
  obtain ⟨_, _, _, _, _, _, _, _, scriptpubkey, _, _, _, _, _, _, _, _, identified, _, written, rfl, rfl⟩ := made
  exact ⟨scriptpubkey, identified, written⟩

theorem make_coinbase_tx_isSome {wally : Wally} (works : wally.Works) {address : Bytes} (converts : wally.Converts address)
    (height : UInt32) {satoshis : UInt64} (coins : satoshis.toNat ≤ 2100000000000000) :
    ∃ built, make_coinbase_tx wally address height satoshis = some built := by
  obtain ⟨scriptpubkey, converted⟩ : ∃ scriptpubkey, (wally.wally_address_to_scriptpubkey address (networkOf address).1).or
      (wally.wally_addr_segwit_to_bytes address (networkOf address).2) = some scriptpubkey := by
    rw [← Option.isSome_iff_exists, Option.isSome_or]
    simpa [Wally.Converts] using converts
  obtain ⟨txid, identified⟩ := Option.isSome_iff_exists.mp (works.get_txid (coinbaseTx height satoshis scriptpubkey))
  obtain ⟨rawtx, written⟩ := Option.isSome_iff_exists.mp (works.to_bytes (coinbaseTx height satoshis scriptpubkey))
  have pays := works.add_raw_output satoshis scriptpubkey coins
  have commits := works.add_raw_output 0 witnessCommitment (by decide)
  have coinbase := works.is_coinbase (coinbaseTx height satoshis scriptpubkey) rfl rfl
  refine ⟨(txid, rawtx), ?_⟩
  simp [make_coinbase_tx_eq, finished, works.tx_init_alloc, works.witness_stack_init_alloc, works.witness_stack_add,
    works.add_raw_input, converted, pays, commits, coinbase, identified, written]

theorem coinbasevalue_eq (args : NewTarget) :
    (if args.bits = 0x207fffff then get_block_reward args.height.toNat REGTEST_INTERVAL
      else get_block_reward args.height.toNat MAINET_TESTNET_INTERVAL) =
        block_rewards.getD (args.height.toNat / interval args.bits) 0 := by
  rw [interval]
  split <;> rfl

theorem of_guard {p : Prop} [Decidable p] {done : Unit} (passed : (guard p : Option Unit) = some done) : p := by
  by_contra fails
  simp [guard, fails] at passed

theorem newTemplate_spec {wally : Wally} {args : NewTarget} {value : UInt64} {template : Template}
    (built : newTemplate wally args = some (value, template)) :
    bits_to_target args.bits = some args.target ∧ value ≠ 0 ∧
      value = block_rewards.getD (args.height.toNat / interval args.bits) 0 ∧ template.ht.target = args.target ∧
      template.ht.bh.bits = args.bits ∧
      make_coinbase_tx wally args.address args.height value = some (template.ht.bh.merkle_root, template.rawtx) := by
  simp only [newTemplate, coinbasevalue_eq, Option.bind_eq_bind, Option.bind_eq_some_iff, Option.pure_def, Option.some.injEq,
    Prod.mk.injEq] at built
  obtain ⟨_, read, _, paid, ⟨txid, rawtx⟩, made, rfl, rfl⟩ := built
  exact ⟨of_guard read, of_guard paid, rfl, rfl, rfl, made⟩

theorem newTemplate_isSome {wally : Wally} {args : NewTarget} (read : bits_to_target args.bits = some args.target)
    (paid : block_rewards.getD (args.height.toNat / interval args.bits) 0 ≠ 0)
    (made : ∃ built, make_coinbase_tx wally args.address args.height
      (block_rewards.getD (args.height.toNat / interval args.bits) 0) = some built) :
    ∃ template, newTemplate wally args =
      some (block_rewards.getD (args.height.toNat / interval args.bits) 0, template) := by
  obtain ⟨⟨txid, rawtx⟩, made⟩ := made
  simp only [newTemplate, coinbasevalue_eq, read, paid, made, guard, Option.bind_eq_bind, ne_eq, not_false_eq_true, if_true,
    Option.pure_def, Option.bind_some]
  exact ⟨_, rfl⟩

theorem halving_lt {i : Nat} (paid : block_rewards.getD i 0 ≠ 0) : i < 33 := by
  by_contra beyond
  exact paid (List.getD_eq_default _ _ (by simpa [block_rewards] using beyond))

/-- A subsidy that is not zero is in the table. -/
theorem block_rewards_ne_zero {i : Nat} (paid : 0 < 5000000000 / 2 ^ i) : block_rewards.getD i 0 ≠ 0 := by
  have least : 2 ^ i ≤ 5000000000 := (Nat.div_pos_iff.mp paid).2
  have inside : i < 33 := by
    by_contra beyond
    have large : 2 ^ 33 ≤ 2 ^ i := Nat.pow_le_pow_right (by decide) (Nat.le_of_not_lt beyond)
    omega
  clear paid least
  revert i
  decide +kernel

theorem block_rewards_le (i : Nat) : (block_rewards.getD i 0).toNat ≤ 2100000000000000 := by
  by_cases inside : i < 33
  · revert i
    decide +kernel
  · rw [List.getD_eq_default _ _ (by simpa [block_rewards] using inside)]
    decide

/-- Heights that pay something are pushed in three bytes. -/
theorem height_small {bits height : UInt32} (inside : height.toNat / interval bits < 33) : height.toNat < 2 ^ 23 := by
  have bound : interval bits ≤ 210000 := by
    rw [interval]
    split <;> decide
  have positive : 0 < interval bits := by
    rw [interval]
    split <;> decide
  have below := (Nat.div_lt_iff_lt_mul positive).mp inside
  have most := Nat.mul_le_mul_left 33 bound
  omega

theorem compactTarget_of_le {bits : UInt32} (least : 3 ≤ exponentOf bits) :
    compactTarget bits = mantissaOf bits * 256 ^ (exponentOf bits - 3) := by
  by_cases three : exponentOf bits = 3
  · simp [compactTarget, three]
  · rw [compactTarget, if_neg (by omega)]

/-- What a template that is accepted for those arguments is to be. -/
structure ConsensusValid (wally : Wally) (args : NewTarget) (value : UInt64) (after : MinerCtx) : Prop where
  subsidy : ¬ (13 ≤ args.height.toNat / interval args.bits ∧ args.height.toNat / interval args.bits ≤ 17) →
    value.toNat = subsidy args.bits args.height.toNat
  coinbase : ∃ tx, wally.wally_tx_to_bytes tx = some after.rawtx ∧ wally.wally_tx_get_txid tx = some after.bh.merkle_root ∧
    (tx.outputs.map fun output => output.1.toNat).sum = value.toNat ∧
    (0 < args.height.toNat → minimalPush args.height.toNat <+: tx.script)
  header (id : TaskId) : (after.tasks id).ht.bh = after.bh ∧ after.bh.bits = args.bits
  target (id : TaskId) : beNat (after.tasks id).ht.target.toList = compactTarget args.bits
  range : ¬ Negative args.bits ∧ 0 < compactTarget args.bits ∧ compactTarget args.bits < 2 ^ 256

theorem newTemplate_valid {wally : Wally} {args : NewTarget} {value : UInt64} {template : Template} (mctx : MinerCtx)
    (built : newTemplate wally args = some (value, template)) :
    ConsensusValid wally args value (mctx.replaced template) := by
  obtain ⟨read, paid, rfl, target, bits, made⟩ := newTemplate_spec built
  obtain ⟨positive, least, most, some_mantissa, number⟩ := bits_to_target_spec read
  obtain ⟨scriptpubkey, identified, written⟩ := make_coinbase_tx_spec made
  rw [← compactTarget_of_le least] at number
  have above : 0 < compactTarget args.bits := by
    rw [compactTarget_of_le least]
    exact Nat.mul_pos some_mantissa (Nat.pow_pos (by decide))
  have below : compactTarget args.bits < 2 ^ 256 := by
    rw [← number]
    have bound := Sha256.beNat_lt args.target.toList
    rwa [Vector.length_toList, show (256 : Nat) ^ 32 = 2 ^ 256 from rfl] at bound
  exact {
    subsidy := (block_rewards_eq_iff _).mpr
    coinbase := ⟨_, written, identified, by simp [coinbaseTx], fun later =>
      varint_encode_push later (height_small (halving_lt paid))⟩
    header := fun id => ⟨rfl, bits⟩
    target := fun id => by
      show beNat template.ht.target.toList = _
      rw [target, number]
    range := ⟨positive, above, below⟩ }

/-- Every accepted template is mined on as the rules ask, whatever was mined on before; and a template whose target is
    the positive number of its bits, of an exponent from 3 to 32, is accepted if it pays and its address converts. -/
theorem accepted_templates_are_valid (wally : Wally) (args : NewTarget) (mctx : MinerCtx) :
    ((on_new_target wally args mctx).1 ≠ 0 →
      ConsensusValid wally args (on_new_target wally args mctx).1 (on_new_target wally args mctx).2) ∧
    (wally.Works → wally.Converts args.address → ¬ Negative args.bits →
      3 ≤ exponentOf args.bits → exponentOf args.bits ≤ 32 →
      0 < compactTarget args.bits → beNat args.target.toList = compactTarget args.bits →
      0 < subsidy args.bits args.height.toNat → (on_new_target wally args mctx).1 ≠ 0) := by
  constructor
  · intro accepted
    rw [on_new_target] at accepted ⊢
    cases built : newTemplate wally args with
    | none =>
      rw [built] at accepted
      exact absurd rfl accepted
    | some result => exact newTemplate_valid mctx built
  · intro works converts positive least most above consistent paid
    have some_mantissa : 0 < mantissaOf args.bits := by
      rw [compactTarget_of_le least] at above
      exact Nat.pos_of_mul_pos_right above
    obtain ⟨target, read⟩ := bits_to_target_isSome positive some_mantissa least most
    have number := (bits_to_target_spec read).2.2.2.2
    rw [← compactTarget_of_le least] at number
    have same : target = args.target := by
      apply Vector.toList_inj.mp
      exact beNat_inj (by simp) (number.trans consistent.symm)
    obtain ⟨template, built⟩ := newTemplate_isSome (same ▸ read) (block_rewards_ne_zero paid)
      (make_coinbase_tx_isSome works converts args.height (block_rewards_le _))
    rw [on_new_target, built]
    exact block_rewards_ne_zero paid

/-! ### A library -/

/-- The sizes before scripts and items. -/
def compactSize (n : Nat) : Bytes :=
  if n < 253 then [UInt8.ofNat n] else [253, UInt8.ofNat n, UInt8.ofNat (n / 256)]

def sized (bytes : Bytes) : Bytes := compactSize bytes.length ++ bytes

def outputBytes (output : UInt64 × Bytes) : Bytes :=
  Bytes.ofWords [output.1.toUInt32, (output.1 >>> 32).toUInt32] ++ sized output.2

/-- The serialised transaction, with its witness or as it is hashed. -/
def Tx.toBytes (tx : Tx) (use_witness : Bool) : Bytes :=
  Bytes.ofWords [UInt32.ofNat tx.version] ++ (if use_witness then [0, 1] else []) ++
    [1] ++ tx.txhash.toList ++ Bytes.ofWords [tx.utxo_index] ++ sized tx.script ++ Bytes.ofWords [tx.sequence] ++
    compactSize tx.outputs.length ++
    tx.outputs.flatMap outputBytes ++
    (if use_witness then compactSize tx.witness.length ++ tx.witness.flatMap sized else []) ++
    Bytes.ofWords [UInt32.ofNat tx.locktime]

def p2wpkhAddress : Bytes := List.map Char.toUInt8 [
  'b', 'c', 'r', 't', '1', 'q', 'q', 'y', 'd', 'l', 'k', '0', '9', 'e', '5', 'v', '3', 'k', '8', 'z', 'k', 'm',
  'u', 'x', 's', '6', 'n', 't', 'f', 'u', 's', 'd', 'l', 'f', 'g', '5', 's', 'j', 'x', 'l', 'g', '4', 'e', 'x']

def p2wpkhScript : Bytes := [
  0x00, 0x14, 0x01, 0x1b, 0xfb, 0x3c, 0xb9, 0xa3, 0x23, 0x63, 0x8a, 0xdb, 0xe1, 0xa1, 0xa9, 0xad, 0x3c, 0x83, 0x7e,
  0x94, 0x52, 0x12]

/-- A library that does not run out of memory and knows one address. -/
def libwally : Wally where
  wally_tx_init_alloc := true
  wally_tx_witness_stack_init_alloc := true
  wally_tx_witness_stack_add := true
  wally_tx_add_raw_input := true
  wally_address_to_scriptpubkey _ _ := none
  wally_addr_segwit_to_bytes address addr_family :=
    if address = p2wpkhAddress ∧ addr_family = ['b', 'c', 'r', 't'].map Char.toUInt8 then some p2wpkhScript else none
  wally_tx_add_raw_output satoshis _ := satoshis ≤ 2100000000000000
  wally_tx_is_coinbase tx := tx.txhash = Vector.replicate 32 0 ∧ tx.utxo_index = 0xFFFFFFFF
  wally_tx_get_txid tx := some (Vector.ofFn fun i => (Sha256.hash (Sha256.hash (tx.toBytes false))).getD i 0)
  wally_tx_to_bytes tx := some (tx.toBytes true)

theorem libwally_works : libwally.Works where
  tx_init_alloc := rfl
  witness_stack_init_alloc := rfl
  witness_stack_add := rfl
  add_raw_input := rfl
  add_raw_output _ _ coins := decide_eq_true (UInt64.le_iff_toNat_le.mpr coins)
  is_coinbase _ null index := decide_eq_true ⟨null, index⟩
  get_txid _ := rfl
  to_bytes _ := rfl

theorem libwally_converts : libwally.Converts p2wpkhAddress := by
  right
  decide +kernel

/-- A block of a regression test network. -/
def regtestBlock : NewTarget := { regtestTarget with address := p2wpkhAddress }

theorem regtest_template_is_valid :
    ConsensusValid libwally regtestBlock (on_new_target libwally regtestBlock MinerCtx.zero).1
      (on_new_target libwally regtestBlock MinerCtx.zero).2 :=
  (accepted_templates_are_valid libwally regtestBlock MinerCtx.zero).1
    ((accepted_templates_are_valid libwally regtestBlock MinerCtx.zero).2 libwally_works libwally_converts (by decide)
      (by decide) (by decide) (by decide) (by decide +kernel) (by decide))

/-- A target of a header, written with an exponent of 33. -/
def wideTarget : NewTarget :=
  { regtestBlock with bits := 0x2100ffff, target := ((Vector.replicate 32 0).set 0 0xff).set 1 0xff }

/-- Its bits stand for its target, which is positive, but they are refused. -/
theorem wide_target_refused :
    libwally.Works ∧ libwally.Converts wideTarget.address ∧ ¬ Negative wideTarget.bits ∧
      0 < compactTarget wideTarget.bits ∧ compactTarget wideTarget.bits < 2 ^ 256 ∧
      beNat wideTarget.target.toList = compactTarget wideTarget.bits ∧
      0 < subsidy wideTarget.bits wideTarget.height.toNat ∧
      (on_new_target libwally wideTarget MinerCtx.zero).1 = 0 :=
  ⟨libwally_works, libwally_converts, by decide, by decide, by decide, by decide +kernel, by decide, by decide +kernel⟩

end PiJade.Miner
