import Mathlib.Algebra.GroupWithZero.Units.Fintype
import Mathlib.Algebra.Ring.BooleanRing
import Mathlib.GroupTheory.OrderOfElement
import Mathlib.Tactic.NormNum.Prime
import Mathlib.Tactic.Ring
import PiJade.Shamir

/-!
The field with 256 elements. Over the booleans the code of `main/shamir.c` is the
arithmetic of one byte; it makes a commutative ring, an element of order 255 makes every
element but zero a unit, and the power 254 is then the inverse. On bitsliced words every
operation acts on each lane as the operation of the field.
-/
namespace PiJade.Shamir
set_option linter.unusedSimpArgs false

instance andBool : AndOp Bool := ⟨and⟩
instance xorBool : XorOp Bool := ⟨xor⟩

/-- One byte, bit by bit. -/
abbrev GF256 := Slice Bool

/-! ### The ring -/

theorem and_eq_mul (a b : Bool) : a &&& b = a * b := rfl
theorem xor_eq_add (a b : Bool) : a ^^^ b = a + b := rfl

instance : Zero GF256 := ⟨⟨false, false, false, false, false, false, false, false⟩⟩
instance : One GF256 := ⟨⟨true, false, false, false, false, false, false, false⟩⟩
instance : Add GF256 := ⟨gf256_add⟩
instance : Mul GF256 := ⟨gf256_mul⟩
instance : Neg GF256 := ⟨id⟩

theorem gf256_add_eq (a b : GF256) : gf256_add a b = a + b := rfl
theorem gf256_mul_eq (a b : GF256) : gf256_mul a b = a * b := rfl

theorem add_eq (a b : GF256) : a + b = ⟨a.w0 + b.w0, a.w1 + b.w1, a.w2 + b.w2, a.w3 + b.w3, a.w4 + b.w4, a.w5 + b.w5,
    a.w6 + b.w6, a.w7 + b.w7⟩ := rfl

theorem zero_eq : (0 : GF256) = ⟨0, 0, 0, 0, 0, 0, 0, 0⟩ := rfl
theorem one_eq : (1 : GF256) = ⟨1, 0, 0, 0, 0, 0, 0, 0⟩ := rfl

theorem gf256_add_self (a : GF256) : a + a = 0 := by
  ext1 <;> exact Bool.xor_self _

theorem gf256_mul_comm (a b : GF256) : a * b = b * a := by
  rw [← gf256_mul_eq, ← gf256_mul_eq]
  ext1 <;> simp only [gf256_mul, addMasked, and_eq_mul, xor_eq_add] <;> ring

theorem gf256_mul_add (a b c : GF256) : a * (b + c) = a * b + a * c := by
  simp only [add_eq, ← gf256_mul_eq]
  ext1 <;> simp only [gf256_mul, addMasked, and_eq_mul, xor_eq_add] <;> ring

theorem gf256_mul_assoc (a b c : GF256) : a * b * c = a * (b * c) := by
  simp only [← gf256_mul_eq]
  ext1 <;> simp only [gf256_mul, addMasked, and_eq_mul, xor_eq_add] <;> ring

theorem gf256_one_mul (a : GF256) : 1 * a = a := by
  rw [one_eq, ← gf256_mul_eq]
  ext1 <;> simp only [gf256_mul, addMasked, and_eq_mul, xor_eq_add] <;> ring

theorem gf256_zero_mul (a : GF256) : 0 * a = 0 := by
  rw [zero_eq, ← gf256_mul_eq]
  ext1 <;> simp only [gf256_mul, addMasked, and_eq_mul, xor_eq_add] <;> ring

instance : CommRing GF256 where
  add_assoc a b c := by simp only [add_eq]; ext1 <;> ring
  zero_add a := by simp only [add_eq, zero_eq]; ext1 <;> ring
  add_zero a := by simp only [add_eq, zero_eq]; ext1 <;> ring
  add_comm a b := by simp only [add_eq]; ext1 <;> ring
  neg_add_cancel := gf256_add_self
  mul_assoc := gf256_mul_assoc
  one_mul := gf256_one_mul
  mul_one a := by rw [gf256_mul_comm]; exact gf256_one_mul a
  zero_mul := gf256_zero_mul
  mul_zero a := by rw [gf256_mul_comm]; exact gf256_zero_mul a
  left_distrib := gf256_mul_add
  right_distrib a b c := by rw [gf256_mul_comm, gf256_mul_add, gf256_mul_comm c, gf256_mul_comm c]
  mul_comm := gf256_mul_comm
  nsmul := nsmulRec
  zsmul := zsmulRec

instance : Nontrivial GF256 := ⟨⟨0, 1, by decide⟩⟩

/-! ### Inverses -/

theorem gf256_square_eq (a : GF256) : gf256_square a = a * a := by
  have all : ∀ a0 a1 a2 a3 a4 a5 a6 a7 : Bool, gf256_square (⟨a0, a1, a2, a3, a4, a5, a6, a7⟩ : GF256) =
      gf256_mul ⟨a0, a1, a2, a3, a4, a5, a6, a7⟩ ⟨a0, a1, a2, a3, a4, a5, a6, a7⟩ := by
    decide +kernel
  exact all a.w0 a.w1 a.w2 a.w3 a.w4 a.w5 a.w6 a.w7

theorem gf256_inv_eq (a : GF256) : gf256_inv a = a ^ 254 := by
  simp only [gf256_inv, gf256_square_eq, gf256_mul_eq]
  ring

instance : Fintype GF256 :=
  Fintype.ofEquiv (Bool × Bool × Bool × Bool × Bool × Bool × Bool × Bool)
    { toFun := fun (b0, b1, b2, b3, b4, b5, b6, b7) => ⟨b0, b1, b2, b3, b4, b5, b6, b7⟩
      invFun := fun a => (a.w0, a.w1, a.w2, a.w3, a.w4, a.w5, a.w6, a.w7)
      left_inv := fun _ => rfl
      right_inv := fun _ => rfl }

theorem card_gf256 : Fintype.card GF256 = 256 := by
  rw [Fintype.ofEquiv_card]
  simp only [Fintype.card_prod, Fintype.card_bool]

/-- The element written 3. -/
def generator : GF256 := ⟨true, true, false, false, false, false, false, false⟩

theorem orderOf_generator : orderOf generator = 255 := by
  have fifteen : generator ^ 15 = ⟨true, false, true, false, true, true, false, false⟩ := by decide +kernel
  apply orderOf_eq_of_pow_and_pow_div_prime (by decide)
  · rw [show 255 = 15 * 17 from rfl, pow_mul, fifteen]
    decide +kernel
  · intro p prime divides
    have factors : p = 3 ∨ p = 5 ∨ p = 17 := by
      rw [show 255 = 3 * 5 * 17 from rfl, prime.dvd_mul, prime.dvd_mul, Nat.prime_dvd_prime_iff_eq prime Nat.prime_three,
        Nat.prime_dvd_prime_iff_eq prime Nat.prime_five, Nat.prime_dvd_prime_iff_eq prime (by norm_num)] at divides
      rcases divides with (same | same) | same
      · exact .inl same
      · exact .inr (.inl same)
      · exact .inr (.inr same)
    rcases factors with rfl | rfl | rfl
    · decide +kernel
    · decide +kernel
    · decide +kernel

theorem card_nonzero : Fintype.card { a : GF256 // a ≠ 0 } = 255 := by
  rw [Fintype.card_subtype_compl, card_gf256, Fintype.card_subtype_eq]

/-- A unit as an element that is not zero. -/
def unitValue (u : GF256ˣ) : { a : GF256 // a ≠ 0 } := ⟨u, u.ne_zero⟩

theorem unitValue_injective : Function.Injective unitValue := by
  intro u v same
  exact Units.ext (congrArg Subtype.val same)

theorem card_units : Fintype.card GF256ˣ = 255 := by
  have generates : generator ^ 255 = 1 := by
    rw [← orderOf_generator]
    exact pow_orderOf_eq_one generator
  apply Nat.le_antisymm
  · rw [← card_nonzero]
    exact Fintype.card_le_of_injective _ unitValue_injective
  · have order : orderOf (Units.ofPowEqOne generator 255 generates (by decide)) = 255 := by
      rw [← orderOf_units, Units.val_ofPowEqOne, orderOf_generator]
    calc 255 = orderOf (Units.ofPowEqOne generator 255 generates (by decide)) := order.symm
      _ ≤ Fintype.card GF256ˣ := orderOf_le_card_univ

theorem exists_unit {a : GF256} (nonzero : a ≠ 0) : ∃ u : GF256ˣ, (u : GF256) = a := by
  have bijective : Function.Bijective unitValue :=
    (Fintype.bijective_iff_injective_and_card unitValue).mpr ⟨unitValue_injective, card_units.trans card_nonzero.symm⟩
  obtain ⟨u, value⟩ := bijective.2 ⟨a, nonzero⟩
  exact ⟨u, congrArg Subtype.val value⟩

theorem gf256_mul_inv (a : GF256) (nonzero : a ≠ 0) : a * gf256_inv a = 1 := by
  obtain ⟨u, rfl⟩ := exists_unit nonzero
  have order : u ^ 255 = 1 := by
    rw [← card_units]
    exact pow_card_eq_one
  rw [gf256_inv_eq, ← pow_succ', ← Units.val_pow_eq_pow_val, order, Units.val_one]

instance : Field GF256 where
  inv := gf256_inv
  mul_inv_cancel := gf256_mul_inv
  inv_zero := by rw [gf256_inv_eq]; exact zero_pow (by decide)
  nnqsmul := _
  qsmul := _

theorem gf256_sub_eq (a b : GF256) : a - b = gf256_add a b := by
  rw [sub_eq_add_neg]
  rfl

/-! ### Lanes -/

section
variable {α β : Type} [AndOp α] [XorOp α] [AndOp β] [XorOp β]

/-- A map that keeps `and` and `xor` keeps what is computed with them. -/
structure Keeps (f : α → β) : Prop where
  and (a b : α) : f (a &&& b) = f a &&& f b
  xor (a b : α) : f (a ^^^ b) = f a ^^^ f b

variable {f : α → β} (keeps : Keeps f)
include keeps

theorem map_gf256_add (a b : Slice α) : (gf256_add a b).map f = gf256_add (a.map f) (b.map f) := by
  simp only [gf256_add, Slice.map, keeps.xor]

theorem map_gf256_mul (a b : Slice α) : (gf256_mul a b).map f = gf256_mul (a.map f) (b.map f) := by
  simp only [gf256_mul, addMasked, Slice.map, keeps.xor, keeps.and]

theorem map_gf256_square (a : Slice α) : (gf256_square a).map f = gf256_square (a.map f) := by
  simp only [gf256_square, Slice.map, keeps.xor]

theorem map_gf256_inv (a : Slice α) : (gf256_inv a).map f = gf256_inv (a.map f) := by
  simp only [gf256_inv, map_gf256_mul keeps, map_gf256_square keeps]

end

/-- The byte a bitsliced value carries in one lane. -/
def lane (l : Nat) (x : Slice UInt32) : GF256 := x.map fun word => word.toBitVec.getLsbD l

theorem lane_keeps (l : Nat) : Keeps fun word : UInt32 => word.toBitVec.getLsbD l where
  and a b := by rw [UInt32.toBitVec_and, BitVec.getLsbD_and]; rfl
  xor a b := by rw [UInt32.toBitVec_xor, BitVec.getLsbD_xor]; rfl

@[simp] theorem lane_add (l : Nat) (a b : Slice UInt32) : lane l (gf256_add a b) = lane l a + lane l b :=
  map_gf256_add (lane_keeps l) a b

@[simp] theorem lane_mul (l : Nat) (a b : Slice UInt32) : lane l (gf256_mul a b) = lane l a * lane l b :=
  map_gf256_mul (lane_keeps l) a b

@[simp] theorem lane_inv (l : Nat) (a : Slice UInt32) : lane l (gf256_inv a) = (lane l a)⁻¹ :=
  map_gf256_inv (lane_keeps l) a

/-- The element a byte stands for. -/
def ofByte (byte : UInt8) : GF256 := .ofFn fun k => byte.toBitVec.getLsbD k

theorem ofByte_inj {a b : UInt8} : ofByte a = ofByte b ↔ a = b := by
  constructor
  · intro same
    apply UInt8.toBitVec_inj.mp
    apply BitVec.eq_of_getLsbD_eq
    intro k small
    simp only [ofByte, Slice.ofFn, Slice.mk.injEq] at same
    obtain ⟨s0, s1, s2, s3, s4, s5, s6, s7⟩ := same
    interval_cases k <;> assumption
  · rintro rfl
    rfl

/-- A word with one bit, or none. -/
def oneBit (set : Bool) : UInt32 := if set then 1 else 0

theorem word_bit (word : UInt32) {l : Nat} (small : l < 32) :
    word >>> UInt32.ofNat l &&& 1 = oneBit (word.toBitVec.getLsbD l) := by
  apply UInt32.toNat_inj.mp
  have shift : (word >>> UInt32.ofNat l &&& 1).toNat = word.toNat / 2 ^ l % 2 := by
    rw [UInt32.toNat_and, UInt32.toNat_shiftRight, UInt32.toNat_ofNat', Nat.mod_eq_of_lt (show l < 2 ^ 32 by omega),
      Nat.mod_eq_of_lt small, Nat.shiftRight_eq_div_pow]
    exact Nat.and_one_is_mod _
  have set : word.toBitVec.getLsbD l = decide (word.toNat / 2 ^ l % 2 = 1) := Nat.testBit_eq_decide_div_mod_eq
  rw [shift, set, oneBit]
  by_cases one : word.toNat / 2 ^ l % 2 = 1
  · simp [one]
  · have zero : word.toNat / 2 ^ l % 2 = 0 := by omega
    simp [zero]

theorem byte_bit (byte : UInt8) {k : Nat} (small : k < 8) :
    byte.toUInt32 >>> UInt32.ofNat k &&& 1 = oneBit (byte.toBitVec.getLsbD k) := by
  rw [word_bit _ (by omega), UInt8.toBitVec_toUInt32, BitVec.getLsbD_setWidth, decide_eq_true (by omega), Bool.true_and]

theorem lane_bitslice_setall (byte : UInt8) {l : Nat} (small : l < 32) : lane l (bitslice_setall byte) = ofByte byte := by
  have spread : ∀ set : Bool, (-oneBit set).toBitVec.getLsbD l = set := by
    intro set
    cases set
    · simp [oneBit]
    · interval_cases l <;> decide
  simp only [lane, bitslice_setall, Slice.ofFn, Slice.map, ofByte, byte_bit byte (show 0 < 8 by decide),
    byte_bit byte (show 1 < 8 by decide), byte_bit byte (show 2 < 8 by decide), byte_bit byte (show 3 < 8 by decide),
    byte_bit byte (show 4 < 8 by decide), byte_bit byte (show 5 < 8 by decide), byte_bit byte (show 6 < 8 by decide),
    byte_bit byte (show 7 < 8 by decide), spread]

theorem oneBit_shifted (set : Bool) {n l : Nat} (small : n < 32) (small' : l < 32) :
    (oneBit set <<< UInt32.ofNat n).toBitVec.getLsbD l = (decide (l = n) && set) := by
  have amount : (UInt32.ofNat n).toNat % 32 = n := by
    rw [UInt32.toNat_ofNat', Nat.mod_eq_of_lt (show n < 2 ^ 32 by omega), Nat.mod_eq_of_lt small]
  show (oneBit set <<< UInt32.ofNat n).toNat.testBit l = _
  rw [UInt32.toNat_shiftLeft, amount, Nat.testBit_mod_two_pow, Nat.testBit_shiftLeft]
  cases set with
  | false => simp [oneBit]
  | true =>
    have one : (oneBit true).toNat.testBit (l - n) = decide (l - n = 0) := by
      show (1 : Nat).testBit (l - n) = _
      rw [Bool.eq_iff_iff, Nat.testBit_one_eq_true_iff_self_eq_zero, decide_eq_true_eq]
    rw [one, decide_eq_true small', Bool.true_and, Bool.and_true, Bool.eq_iff_iff]
    simp only [Bool.and_eq_true, decide_eq_true_eq, ge_iff_le]
    omega

/-- A lane of bitsliced bytes is the byte. -/
theorem lane_bitslice (x : Bytes) {len l : Nat} (most : len ≤ 32) (below : l < len) :
    lane l (bitslice x len) = ofByte (x.getD l 0) := by
  have bits : ∀ k < 8, ∀ n ≤ 32, ((List.range n).foldl (fun r arr_idx =>
      r ||| ((x.getD arr_idx 0).toUInt32 >>> UInt32.ofNat k &&& 1) <<< UInt32.ofNat arr_idx) 0).toBitVec.getLsbD l =
        (decide (l < n) && (x.getD l 0).toBitVec.getLsbD k) := by
    intro k small n
    induction n with
    | zero => intro _; simp
    | succ n ih =>
      intro room
      rw [List.range_succ, List.foldl_append, List.foldl_cons, List.foldl_nil, UInt32.toBitVec_or, BitVec.getLsbD_or,
        ih (by omega), byte_bit _ small, oneBit_shifted _ (by omega) (by omega)]
      by_cases here : l = n
      · subst here
        simp
      · have same : l < n + 1 ↔ l < n := by omega
        simp [here, same]
  simp only [lane, bitslice, Slice.ofFn, Slice.map, ofByte, bits 0 (by decide) len most, bits 1 (by decide) len most,
    bits 2 (by decide) len most, bits 3 (by decide) len most, bits 4 (by decide) len most, bits 5 (by decide) len most,
    bits 6 (by decide) len most, bits 7 (by decide) len most, decide_eq_true below, Bool.true_and]

/-- The bytes read back are the lanes. -/
theorem ofByte_unbitslice (x : Slice UInt32) {len l : Nat} (most : len ≤ 32) (below : l < len) :
    ofByte ((unbitslice x len).getD l 0) = lane l x := by
  have joined : ∀ b0 b1 b2 b3 b4 b5 b6 b7 : Bool,
      ofByte ([(oneBit b0, 0), (oneBit b1, 1), (oneBit b2, 2), (oneBit b3, 3), (oneBit b4, 4), (oneBit b5, 5),
        (oneBit b6, 6), (oneBit b7, 7)].foldl (fun r bit => r ||| (bit.1 <<< UInt32.ofNat bit.2).toUInt8) 0) =
        ⟨b0, b1, b2, b3, b4, b5, b6, b7⟩ := by
    decide +kernel
  have element : (unbitslice x len).getD l 0 = (x.words.zipIdx).foldl (fun r bit =>
      r ||| ((bit.1 >>> UInt32.ofNat l &&& 1) <<< UInt32.ofNat bit.2).toUInt8) 0 := by
    rw [unbitslice, List.getD_eq_getElem?_getD, List.getElem?_map, List.getElem?_range below]
    rfl
  rw [element, lane, Slice.map, ← joined]
  simp only [Slice.words, List.zipIdx, List.foldl_cons, List.foldl_nil, word_bit _ (show l < 32 by omega)]

theorem unbitslice_length (x : Slice UInt32) (len : Nat) : (unbitslice x len).length = len := by
  rw [unbitslice, List.length_map, List.length_range]

end PiJade.Shamir
