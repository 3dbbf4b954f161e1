import Mathlib.LinearAlgebra.Lagrange

/-!
Lagrange interpolation as programs compute it: one numerator for all nodes, the factor of
the node itself moved into the denominator, and the node that is asked for treated apart.
-/
namespace PiJade.Interpolation
open Polynomial
variable {F ι : Type} [Field F] [DecidableEq F] [DecidableEq ι]

/-- The denominator of a node. -/
def denominator (s : Finset ι) (v : ι → F) (x : F) (k : ι) : F :=
  (if v k = x then 1 else x - v k) * ∏ j ∈ s.erase k, (v k - v j)

variable {s : Finset ι} {v : ι → F}

theorem denominator_ne_zero (distinct : Set.InjOn v s) (x : F) {k : ι} (node : k ∈ s) : denominator s v x k ≠ 0 := by
  apply mul_ne_zero
  · split
    case isTrue => exact one_ne_zero
    case isFalse apart => exact sub_ne_zero.mpr (Ne.symm apart)
  · apply Finset.prod_ne_zero_iff.mpr
    intro j member
    obtain ⟨differs, node'⟩ := Finset.mem_erase.mp member
    exact sub_ne_zero.mpr fun same => differs (distinct node' node same.symm)

/-- The value of a polynomial from its values at enough nodes. -/
theorem eval_eq_sum (distinct : Set.InjOn v s) {f : F[X]} (degree : f.degree < s.card) (x : F) :
    ∑ k ∈ s, ((if v k = x then f.eval (v k) else 0) +
      (denominator s v x k)⁻¹ * (∏ j ∈ s, (x - v j)) * f.eval (v k)) = f.eval x := by
  by_cases at_node : ∃ k ∈ s, v k = x
  · -- The numerator vanishes, and what is left is the value at the node.
    obtain ⟨node, member, rfl⟩ := at_node
    have zero : ∏ j ∈ s, (v node - v j) = 0 := Finset.prod_eq_zero member (sub_self _)
    rw [zero]
    simp only [mul_zero, zero_mul, add_zero]
    rw [Finset.sum_eq_single node]
    · rw [if_pos rfl]
    · intro other other_member differs
      exact if_neg fun same => differs (distinct other_member member same)
    · intro outside
      exact absurd member outside
  · have apart : ∀ k ∈ s, v k ≠ x := fun k member same => at_node ⟨k, member, same⟩
    have value : f.eval x = (Lagrange.interpolate s v fun k => f.eval (v k)).eval x := by
      rw [← Lagrange.eq_interpolate distinct degree]
    rw [value, Lagrange.eval_interpolate_not_at_node _ fun k member => (apart k member).symm, Lagrange.eval_nodal,
      Finset.mul_sum]
    apply Finset.sum_congr rfl
    intro k member
    rw [if_neg (apart k member), zero_add, denominator, if_neg (apart k member), Lagrange.nodalWeight,
      Finset.prod_inv_distrib, mul_inv]
    ring

end PiJade.Interpolation
