import PiJade.Gf256
import PiJade.Interpolation

/-!
`shamir_interpolate` computes what its header says: from shares at distinct indices, as many
as the polynomials need, it gives their values at any index, in every lane.
-/
namespace PiJade.Shamir
set_option linter.unusedSimpArgs false
open Polynomial
open Interpolation (eval_eq_sum denominator_ne_zero)

/-- The indices of some shares. -/
def nodes (shares : List Share) : Finset UInt8 := (shares.map Prod.fst).toFinset

theorem nodes_injOn (shares : List Share) : Set.InjOn ofByte (nodes shares : Set UInt8) :=
  fun _ _ _ _ same => ofByte_inj.mp same

section
variable {shares : List Share} {l : Nat} (small : l < 32)
include small

theorem lane_one : lane l (⟨~~~0, 0, 0, 0, 0, 0, 0, 0⟩ : Slice UInt32) = 1 := by
  interval_cases l <;> decide

theorem lane_zero : lane l (⟨0, 0, 0, 0, 0, 0, 0, 0⟩ : Slice UInt32) = 0 := by
  interval_cases l <;> decide

/-- The numerator. -/
theorem lane_num (result_index : UInt8) (start : Slice UInt32) :
    lane l (shares.foldl (fun num share =>
      gf256_mul num (gf256_add (bitslice_setall result_index) (bitslice_setall share.1))) start) =
      lane l start * ((shares.map Prod.fst).map fun k => ofByte result_index - ofByte k).prod := by
  induction shares generalizing start with
  | nil => simp
  | cons share rest ih =>
    rw [List.foldl_cons, ih, lane_mul, lane_add, lane_bitslice_setall _ small, lane_bitslice_setall _ small, mul_assoc,
      List.map_cons, List.map_cons, List.prod_cons, gf256_sub_eq]
    rfl

/-- The factors of a denominator, but for the share's own. -/
theorem lane_denom (share : Share) (i : Nat) (others : List (Share × Nat)) (start : Slice UInt32) :
    lane l (others.foldl (fun denom (other, j) => if i = j then denom
      else gf256_mul denom (gf256_add (bitslice_setall share.1) (bitslice_setall other.1))) start) =
      lane l start * (others.map fun other => if i = other.2 then 1 else ofByte share.1 - ofByte other.1.1).prod := by
  induction others generalizing start with
  | nil => simp
  | cons other rest ih =>
    rw [List.foldl_cons, ih, List.map_cons, List.prod_cons]
    by_cases own : i = other.2
    · simp [own]
    · simp only [if_neg own, lane_mul, lane_add, lane_bitslice_setall _ small, gf256_sub_eq, mul_assoc]
      rfl

end

theorem indices_eq (shares : List Share) : shares.map Prod.fst = shares.zipIdx.map fun place => place.1.1 := by
  conv_lhs => rw [← List.zipIdx_map_fst 0 shares, List.map_map]
  rfl

/-- With distinct indices, the place of a share in the list is told by its index. -/
theorem place_iff {shares : List Share} (distinct : (shares.map Prod.fst).Nodup) {share other : Share} {i j : Nat}
    (here : (share, i) ∈ shares.zipIdx) (there : (other, j) ∈ shares.zipIdx) : i = j ↔ other.1 = share.1 := by
  have first := List.mem_zipIdx_iff_getElem?.mp here
  have second := List.mem_zipIdx_iff_getElem?.mp there
  constructor
  · rintro rfl
    rw [first] at second
    cases second
    rfl
  · intro same
    have inside : i < (shares.map Prod.fst).length := by
      rw [List.length_map]
      exact (List.getElem?_eq_some_iff.mp first).1
    apply (List.getElem?_inj inside distinct).mp
    rw [List.getElem?_map, List.getElem?_map, first, second]
    exact congrArg some same.symm

/-- The product over the other places is the product over the other indices. -/
theorem prod_others {shares : List Share} (distinct : (shares.map Prod.fst).Nodup) {share : Share} {i : Nat}
    (here : (share, i) ∈ shares.zipIdx) :
    (shares.zipIdx.map fun other => if i = other.2 then 1 else ofByte share.1 - ofByte other.1.1).prod =
      ∏ j ∈ (nodes shares).erase share.1, (ofByte share.1 - ofByte j) := by
  have by_index : (shares.zipIdx.map fun other => if i = other.2 then 1 else ofByte share.1 - ofByte other.1.1) =
      (shares.map Prod.fst).map fun k => if k = share.1 then 1 else ofByte share.1 - ofByte k := by
    rw [indices_eq, List.map_map]
    apply List.map_congr_left
    intro other there
    have same : i = other.2 ↔ other.1.1 = share.1 := place_iff distinct here there
    by_cases own : i = other.2
    · simp only [Function.comp, if_pos own, if_pos (same.mp own)]
    · simp only [Function.comp, if_neg own, if_neg (mt same.mpr own)]
  rw [by_index, ← List.prod_toFinset _ distinct, nodes]
  rw [← Finset.prod_erase (shares.map Prod.fst).toFinset
    (show (if share.1 = share.1 then (1 : GF256) else ofByte share.1 - ofByte share.1) = 1 from if_pos rfl)]
  apply Finset.prod_congr rfl
  intro k member
  exact if_neg (Finset.ne_of_mem_erase member)

section
variable {shares : List Share} (distinct : (shares.map Prod.fst).Nodup) {result_index : UInt8} {len : Nat}
include distinct

/-- The denominator of a share in a lane, and the result so far. -/
theorem lane_denominator {share : Share} {i : Nat} (here : (share, i) ∈ shares.zipIdx) (secret : Slice UInt32) {l : Nat}
    (small : l < 32) :
    lane l (denominator result_index shares len i share secret).1 =
      Interpolation.denominator (nodes shares) ofByte (ofByte result_index) share.1 ∧
    lane l (denominator result_index shares len i share secret).2 =
      lane l secret + if ofByte share.1 = ofByte result_index then lane l (bitslice share.2 len) else 0 := by
  have one : ofByte 1 = 1 := by decide
  by_cases own : share.1 = result_index
  · have same : ofByte share.1 = ofByte result_index := by rw [own]
    have start : ¬ (share.1 ≠ result_index) := fun differs => differs own
    constructor
    · rw [denominator, lane_denom small, prod_others distinct here, if_neg start, Interpolation.denominator, if_pos same,
        lane_bitslice_setall _ small, one]
    · rw [denominator, if_neg start, if_pos same, lane_add]
  · have apart : ofByte share.1 ≠ ofByte result_index := fun same => own (ofByte_inj.mp same)
    constructor
    · rw [denominator, lane_denom small, prod_others distinct here, if_pos own, Interpolation.denominator, if_neg apart,
        lane_add, lane_bitslice_setall _ small, lane_bitslice_setall _ small, gf256_sub_eq]
      rfl
    · rw [denominator, if_pos own, if_neg apart, add_zero]

end

/-- A value that is not zero in some lane has a bit set. -/
theorem words_ne_zero {x : Slice UInt32} {l : Nat} (small : l < 32) (nonzero : lane l x ≠ 0) :
    x.words.foldl (· ||| ·) 0 ≠ 0 := by
  intro zero
  apply nonzero
  have all : x.w0 = 0 ∧ x.w1 = 0 ∧ x.w2 = 0 ∧ x.w3 = 0 ∧ x.w4 = 0 ∧ x.w5 = 0 ∧ x.w6 = 0 ∧ x.w7 = 0 := by
    simp only [Slice.words, List.foldl_cons, List.foldl_nil, UInt32.or_eq_zero_iff] at zero
    obtain ⟨⟨⟨⟨⟨⟨⟨⟨-, z0⟩, z1⟩, z2⟩, z3⟩, z4⟩, z5⟩, z6⟩, z7⟩ := zero
    exact ⟨z0, z1, z2, z3, z4, z5, z6, z7⟩
  obtain ⟨z0, z1, z2, z3, z4, z5, z6, z7⟩ := all
  have same : x = ⟨0, 0, 0, 0, 0, 0, 0, 0⟩ := by
    ext1 <;> assumption
  rw [same]
  exact lane_zero small

section
variable {shares : List Share} (distinct : (shares.map Prod.fst).Nodup) {result_index : UInt8} {len : Nat}
include distinct

/-- The loop never meets two equal indices, and adds one term for each share. -/
theorem accumulate_eq (num : Slice UInt32) : ∀ (rest : List (Share × Nat)), (∀ place ∈ rest, place ∈ shares.zipIdx) →
    ∀ secret, ∃ result, accumulate result_index shares len num rest secret = some result ∧
      ∀ l < 32, lane l result = lane l secret + (rest.map fun place =>
        (if ofByte place.1.1 = ofByte result_index then lane l (bitslice place.1.2 len) else 0) +
          (Interpolation.denominator (nodes shares) ofByte (ofByte result_index) place.1.1)⁻¹ * lane l num *
            lane l (bitslice place.1.2 len)).sum := by
  intro rest
  induction rest with
  | nil =>
    intro _ secret
    exact ⟨secret, rfl, fun l _ => by simp⟩
  | cons place rest ih =>
    intro inside secret
    obtain ⟨share, i⟩ := place
    have here := inside (share, i) List.mem_cons_self
    have later : ∀ place ∈ rest, place ∈ shares.zipIdx := fun place member => inside place (List.mem_cons_of_mem _ member)
    have member : share.1 ∈ nodes shares := by
      rw [nodes, List.mem_toFinset]
      exact List.mem_map_of_mem (List.fst_mem_of_mem_zipIdx here)
    have nonzero : (denominator result_index shares len i share secret).1.words.foldl (· ||| ·) 0 ≠ 0 := by
      apply words_ne_zero (show 0 < 32 by decide)
      rw [(lane_denominator distinct here secret (by decide)).1]
      exact denominator_ne_zero (nodes_injOn shares) _ member
    rw [accumulate]
    dsimp only
    rw [if_neg nonzero]
    obtain ⟨result, run, lanes⟩ := ih later (gf256_add (denominator result_index shares len i share secret).2
      (gf256_mul (gf256_mul (gf256_inv (denominator result_index shares len i share secret).1) num)
        (bitslice share.2 len)))
    refine ⟨result, run, ?_⟩
    intro l small
    obtain ⟨denom, start⟩ := @lane_denominator shares distinct result_index len share i here secret l small
    rw [lanes l small, lane_add, lane_mul, lane_mul, lane_inv, denom, start, List.map_cons, List.sum_cons]
    ring

end

/-- Enough shares at distinct indices give the polynomials' values at any index. -/
theorem shamir_interpolate_eq {shares : List Share} {len : Nat} (distinct : (shares.map Prod.fst).Nodup)
    (count : shares.length ≤ SHAMIR_MAX_SHARE_COUNT) (most : len ≤ SHAMIR_MAX_LEN) {f : Nat → GF256[X]}
    (degree : ∀ l < len, (f l).degree < shares.length)
    (values : ∀ share ∈ shares, ∀ l < len, ofByte (share.2.getD l 0) = (f l).eval (ofByte share.1)) (result_index : UInt8) :
    ∃ out, shamir_interpolate result_index shares len = some out ∧ out.length = len ∧
      ∀ l < len, ofByte (out.getD l 0) = (f l).eval (ofByte result_index) := by
  have within : ¬ (SHAMIR_MAX_LEN < len ∨ SHAMIR_MAX_SHARE_COUNT < shares.length) := by omega
  obtain ⟨result, run, lanes⟩ := @accumulate_eq shares distinct result_index len
    (shares.foldl (fun num share => gf256_mul num (gf256_add (bitslice_setall result_index) (bitslice_setall share.1)))
      ⟨~~~0, 0, 0, 0, 0, 0, 0, 0⟩) shares.zipIdx (fun _ member => member) ⟨0, 0, 0, 0, 0, 0, 0, 0⟩
  refine ⟨unbitslice result len, ?_, unbitslice_length result len, ?_⟩
  · rw [shamir_interpolate, if_neg within]
    dsimp only
    rw [run, Option.map_some]
  · intro l below
    have small : l < 32 := Nat.lt_of_lt_of_le below most
    have card : (f l).degree < (nodes shares).card := by
      rw [nodes, List.toFinset_card_of_nodup distinct, List.length_map]
      exact degree l below
    rw [ofByte_unbitslice result most below, lanes l small, lane_zero small, zero_add, lane_num small, lane_one small,
      one_mul, ← eval_eq_sum (nodes_injOn shares) card (ofByte result_index), nodes, List.sum_toFinset _ distinct,
      List.prod_toFinset _ distinct, ← nodes, indices_eq, List.map_map, List.map_map]
    congr 1
    apply List.map_congr_left
    intro place member
    have value : lane l (bitslice place.1.2 len) = (f l).eval (ofByte place.1.1) := by
      rw [lane_bitslice _ most below]
      exact values place.1 (List.fst_mem_of_mem_zipIdx member) l below
    simp only [Function.comp, value]

end PiJade.Shamir
