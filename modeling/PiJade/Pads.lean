import Mathlib.Algebra.BigOperators.Fin

/-!
Secrets that are cut into pieces which add up to them, in a group in which everything undoes itself. All
pieces but the last are drawn, the last one closes the sum. The pieces give the secret back in every
order, and all of them but one fit every secret equally well.
-/
namespace PiJade.Pads

variable {G : Type} [AddCommGroup G] {n : Nat}

/-- A group in which everything undoes itself. -/
def SelfInverse (G : Type) [AddCommGroup G] : Prop := ∀ a : G, a + a = 0

/-- The drawn pieces and the one that closes the sum. -/
def pieces (secret : G) (draw : Fin n → G) : Fin (n + 1) → G := Fin.snoc draw (secret + ∑ i, draw i)

theorem pieces_drawn (secret : G) (draw : Fin n → G) (i : Fin n) : pieces secret draw i.castSucc = draw i :=
  Fin.snoc_castSucc _ _ _

theorem pieces_last (secret : G) (draw : Fin n → G) : pieces secret draw (Fin.last n) = secret + ∑ i, draw i :=
  Fin.snoc_last _ _

/-- What the pieces add up to. -/
theorem pieces_sum (undoes : SelfInverse G) (secret : G) (draw : Fin n → G) : ∑ i, pieces secret draw i = secret := by
  rw [Fin.sum_univ_castSucc, pieces_last]
  simp only [pieces_drawn]
  rw [add_left_comm, undoes, add_zero]

/-- Pieces that add up to a secret are what is drawn of them and the piece that closes the sum. -/
theorem pieces_of_sum (undoes : SelfInverse G) {secret : G} {all : Fin (n + 1) → G} (sum : ∑ i, all i = secret) :
    pieces secret (Fin.init all) = all := by
  have closing : secret + ∑ i, Fin.init all i = all (Fin.last n) := by
    rw [← sum, Fin.sum_univ_castSucc, add_right_comm]
    simp only [Fin.init]
    rw [undoes, zero_add]
  rw [pieces, closing]
  exact Fin.snoc_init_self all

/-- With one piece missing, exactly one drawing leads to the same other pieces, whatever the secret. -/
theorem pieces_hidden (undoes : SelfInverse G) (secret other : G) (draw : Fin n → G) (missing : Fin (n + 1)) :
    ∃! draw' : Fin n → G, ∀ i ≠ missing, pieces other draw' i = pieces secret draw i := by
  have sum_off : ∀ all : Fin (n + 1) → G, ∑ i, all i = all missing + ∑ i ∈ Finset.univ.erase missing, all i :=
    fun all => (Finset.add_sum_erase _ all (Finset.mem_univ missing)).symm
  let rest := ∑ i ∈ Finset.univ.erase missing, pieces secret draw i
  let all := Function.update (pieces secret draw) missing (other + rest)
  have same : ∀ i ≠ missing, all i = pieces secret draw i := fun i off => Function.update_of_ne off _ _
  have sum : ∑ i, all i = other := by
    have rest_same : ∑ i ∈ Finset.univ.erase missing, all i = rest :=
      Finset.sum_congr rfl fun i inside => same i (Finset.ne_of_mem_erase inside)
    have placed : all missing = other + rest := Function.update_self _ _ _
    rw [sum_off, rest_same, placed, add_assoc, undoes, add_zero]
  refine ⟨Fin.init all, fun i off => ?_, ?_⟩
  · rw [pieces_of_sum undoes sum]
    exact same i off
  · intro draw' agrees
    -- The missing piece is what the others leave of the sum.
    have whole : pieces other draw' = all := by
      funext i
      by_cases off : i = missing
      · subst off
        have left := sum_off (pieces other draw')
        have right := sum_off all
        rw [pieces_sum undoes] at left
        rw [sum] at right
        have others : ∑ j ∈ Finset.univ.erase i, pieces other draw' j = ∑ j ∈ Finset.univ.erase i, all j :=
          Finset.sum_congr rfl fun j inside => by
            rw [agrees j (Finset.ne_of_mem_erase inside), same j (Finset.ne_of_mem_erase inside)]
        rw [others] at left
        exact add_right_cancel (left.symm.trans right)
      · rw [agrees i off, same i off]
    funext i
    rw [← pieces_drawn other draw' i, whole]
    rfl

theorem foldl_add (a : G) (parts : List G) : parts.foldl (· + ·) a = a + parts.sum := by
  induction parts generalizing a with
  | nil => simp
  | cons part rest ih => rw [List.foldl_cons, ih, List.sum_cons, add_assoc]

end PiJade.Pads
