import Mathlib.Algebra.BigOperators.Fin
import Mathlib.Algebra.Order.BigOperators.Group.Finset
import Mathlib.Algebra.BigOperators.Ring.Finset
import Mathlib.Data.Int.NatAbs

/-!
Sums of distances to the mean of some numbers, when the mean is a quotient rounded towards zero.
Adding one number to all of them moves the mean by that number only as long as rounding goes the
same way before and behind.
-/
namespace PiJade.Deviation
set_option linter.unusedSimpArgs false

variable {ι : Type} [Fintype ι]

/-- The sum of the distances of some numbers from a centre. -/
def spread (d : ι → Int) (centre : Int) : Nat := ∑ i, (d i - centre).natAbs

/-- The mean as a division of integers gives it. -/
def mean (d : ι → Int) : Int := (∑ i, d i).tdiv (Fintype.card ι)

theorem spread_add (d : ι → Int) (c centre : Int) : spread (fun i => d i + c) centre = spread d (centre - c) := by
  unfold spread
  refine Finset.sum_congr rfl fun i _ => ?_
  rw [show d i + c - centre = d i - (centre - c) by omega]

/-- Moving the centre up by one brings the numbers above it nearer and leaves the others behind. -/
theorem spread_succ (d : ι → Int) (centre : Int) : spread d (centre + 1) + Fintype.card ι =
    spread d centre + 2 * (Finset.univ.filter fun i => d i ≤ centre).card := by
  have one : ∀ i, (d i - (centre + 1)).natAbs + 1 = (d i - centre).natAbs + 2 * if d i ≤ centre then 1 else 0 := by
    intro i
    by_cases low : d i ≤ centre
    · rw [if_pos low]
      omega
    · rw [if_neg low]
      omega
  unfold spread
  rw [Finset.card_filter, Finset.mul_sum, ← Finset.sum_add_distrib, ← Finset.sum_congr rfl fun i _ => one i,
    Finset.sum_add_distrib, Finset.sum_const, Finset.card_univ, smul_eq_mul, Nat.mul_one]

variable [Nonempty ι]

theorem card_pos : (0 : Int) < Fintype.card ι := by
  have := Fintype.card_pos (α := ι)
  omega

omit [Fintype ι] [Nonempty ι] in
/-- Rounding towards zero is rounding down, and one more below zero unless the quotient is whole. -/
theorem tdiv_eq_floor (t : Int) {n : Int} (positive : 0 < n) :
    t.tdiv n = t / n + if t < 0 ∧ ¬ n ∣ t then 1 else 0 := by
  rw [Int.tdiv_eq_ediv, Int.sign_eq_one_of_pos positive]
  by_cases below : t < 0 ∧ ¬ n ∣ t
  · rw [if_pos below, if_neg (by rintro (above | whole); exacts [absurd above (by omega), below.2 whole])]
  · rw [if_neg below, if_pos]
    by_cases whole : n ∣ t
    · exact Or.inr whole
    · exact Or.inl (by
        by_contra negative
        exact below ⟨by omega, whole⟩)

omit [Nonempty ι] in
theorem sum_add (d : ι → Int) (c : Int) : ∑ i, (d i + c) = (∑ i, d i) + Fintype.card ι * c := by
  rw [Finset.sum_add_distrib, Finset.sum_const, Finset.card_univ, nsmul_eq_mul]

/-- The numbers not above the quotient rounded down are those below the exact mean, unless the quotient is whole. -/
theorem le_floor_iff {d t : Int} (part : ¬ (Fintype.card ι : Int) ∣ t) :
    d ≤ t / Fintype.card ι ↔ Fintype.card ι * d < t := by
  rw [Int.le_ediv_iff_mul_le card_pos, Int.mul_comm]
  constructor
  · intro le
    refine Int.lt_iff_le_and_ne.mpr ⟨le, fun same => part ⟨d, same.symm⟩⟩
  · exact Int.le_of_lt

/-- The spread around the mean stays the same under a shift of all numbers exactly if their mean is whole, if
both means are rounded in the same direction, or if as many numbers are below the exact mean as above it. -/
theorem spread_mean_add_iff (d : ι → Int) (c : Int) :
    spread (fun i => d i + c) (mean fun i => d i + c) = spread d (mean d) ↔
      (Fintype.card ι : Int) ∣ ∑ i, d i ∨ (0 < ∑ i, d i ↔ 0 < (∑ i, d i) + Fintype.card ι * c) ∨
        2 * (Finset.univ.filter fun i => Fintype.card ι * d i < ∑ i, d i).card = Fintype.card ι := by
  have positive := card_pos (ι := ι)
  unfold mean
  rw [spread_add, sum_add]
  generalize total : ∑ i, d i = t
  have shifted : (t + Fintype.card ι * c).tdiv (Fintype.card ι) - c =
      t / Fintype.card ι + if t + Fintype.card ι * c < 0 ∧ ¬ (Fintype.card ι : Int) ∣ t then 1 else 0 := by
    have parts : (Fintype.card ι : Int) ∣ t + Fintype.card ι * c ↔ (Fintype.card ι : Int) ∣ t :=
      Int.dvd_add_left (Int.dvd_mul_right _ c)
    rw [tdiv_eq_floor _ positive, Int.add_mul_ediv_left _ _ (Int.ne_of_gt positive)]
    simp only [parts]
    omega
  rw [shifted, tdiv_eq_floor _ positive]
  by_cases whole : (Fintype.card ι : Int) ∣ t
  · rw [if_neg fun both => both.2 whole, if_neg fun both => both.2 whole]
    exact ⟨fun _ => Or.inl whole, fun _ => rfl⟩
  · have steps := spread_succ d (t / Fintype.card ι)
    have low : (Finset.univ.filter fun i => d i ≤ t / Fintype.card ι) = Finset.univ.filter fun i => Fintype.card ι * d i < t :=
      Finset.filter_congr fun i _ => le_floor_iff whole
    have nonzero : t ≠ 0 := by
      rintro rfl
      exact whole (Int.dvd_zero _)
    have nonzero' : t + Fintype.card ι * c ≠ 0 := by
      intro zero
      exact whole ⟨-c, by rw [Int.mul_neg]; omega⟩
    rw [low] at steps
    simp only [whole, not_false_eq_true, and_true, false_or]
    by_cases before : t < 0
    · by_cases behind : t + Fintype.card ι * c < 0
      · rw [if_pos before, if_pos behind]
        exact ⟨fun _ => Or.inl (by omega), fun _ => rfl⟩
      · rw [if_pos before, if_neg behind, Int.add_zero]
        constructor
        · intro same
          exact Or.inr (by omega)
        · rintro (sides | half)
          · omega
          · omega
    · by_cases behind : t + Fintype.card ι * c < 0
      · rw [if_neg before, if_pos behind, Int.add_zero]
        constructor
        · intro same
          exact Or.inr (by omega)
        · rintro (sides | half)
          · omega
          · omega
      · rw [if_neg before, if_neg behind]
        exact ⟨fun _ => Or.inl (by omega), fun _ => rfl⟩

/-- Numbers that are all the same do not deviate from their mean. -/
theorem spread_mean_const (c : Int) : spread (fun _ : ι => c) (mean fun _ : ι => c) = 0 := by
  have centre : mean (fun _ : ι => c) = c := by
    rw [mean, Finset.sum_const, Finset.card_univ, nsmul_eq_mul]
    exact Int.mul_tdiv_cancel_left c (Int.ne_of_gt card_pos)
  rw [centre, spread]
  simp only [Int.sub_self, Int.natAbs_zero, Finset.sum_const_zero]

end PiJade.Deviation
