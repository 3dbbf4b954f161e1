import PiJade.Deviation

/-!
The change gate of the camera source (`main/entropy_sources.c`). Two frames are compared by the
averages of 64 blocks, and the mean change is taken off first. The mean is a quotient of integers,
rounded towards zero.
-/
namespace PiJade.CameraSignature
open Deviation
set_option linter.unusedSimpArgs false

def CAMERA_SIGNATURE_SIDE : Nat := 8
abbrev CAMERA_SIGNATURE_BLOCKS : Nat := CAMERA_SIGNATURE_SIDE * CAMERA_SIGNATURE_SIDE

abbrev Signature := Vector UInt8 CAMERA_SIGNATURE_BLOCKS
abbrev Block := Fin CAMERA_SIGNATURE_BLOCKS

/-! ### The score as it is computed -/

/-- A value of `int32_t`, none for one that does not fit. -/
def int32 (n : Int) : Option Int := if -2 ^ 31 ≤ n ∧ n < 2 ^ 31 then some n else none

/-- A value of `uint32_t`, none where it would wrap. -/
def uint32 (n : Nat) : Option Nat := if n < 2 ^ 32 then some n else none

/-- `(int32_t)current[i] - (int32_t)previous[i]`. -/
def difference (previous current : Signature) (i : Block) : Option Int :=
  int32 ((current[i].toNat : Int) - previous[i].toNat)

/-- `(uint32_t)(delta < 0 ? -delta : delta)`. -/
def magnitude (delta : Int) : Option Nat := do
  let positive ← if delta < 0 then int32 (-delta) else some delta
  uint32 positive.toNat

def add_difference (previous current : Signature) (total : Int) (i : Block) : Option Int := do
  let change ← difference previous current i
  int32 (total + change)

def add_delta (previous current : Signature) (mean : Int) (change : Nat) (i : Block) : Option Nat := do
  let moved ← difference previous current i
  let delta ← int32 (moved - mean)
  let size ← magnitude delta
  uint32 (change + size)

def signature_change (previous current : Signature) : Option Nat := do
  let total ← (List.finRange CAMERA_SIGNATURE_BLOCKS).foldlM (add_difference previous current) 0
  let mean ← int32 (total.tdiv CAMERA_SIGNATURE_BLOCKS)
  (List.finRange CAMERA_SIGNATURE_BLOCKS).foldlM (add_delta previous current mean) 0

/-! ### No sum leaves its type -/

/-- The change of a block. -/
def moved (previous current : Signature) (i : Block) : Int := (current[i].toNat : Int) - previous[i].toNat

theorem moved_bounds (previous current : Signature) (i : Block) :
    -255 ≤ moved previous current i ∧ moved previous current i ≤ 255 := by
  have before := previous[i].toNat_lt
  have behind := current[i].toNat_lt
  unfold moved
  omega

theorem int32_of_small {n : Int} (low : -2 ^ 31 ≤ n) (high : n < 2 ^ 31) : int32 n = some n := if_pos ⟨low, high⟩

theorem uint32_of_small {n : Nat} (high : n < 2 ^ 32) : uint32 n = some n := if_pos high

theorem difference_eq (previous current : Signature) (i : Block) :
    difference previous current i = some (moved previous current i) := by
  have bounds := moved_bounds previous current i
  unfold moved at bounds
  exact int32_of_small (by omega) (by omega)

/-- The loop over the blocks adds up the changes. -/
theorem total_eq (previous current : Signature) (blocks : List Block) (start : Int)
    (low : -2 ^ 31 ≤ start - 255 * blocks.length) (high : start + 255 * blocks.length < 2 ^ 31) :
    blocks.foldlM (add_difference previous current) start = some (start + (blocks.map (moved previous current)).sum) := by
  induction blocks generalizing start with
  | nil => rw [List.foldlM_nil, List.map_nil, List.sum_nil, Int.add_zero, Option.pure_def]
  | cons i rest ih =>
    have bounds := moved_bounds previous current i
    rw [List.length_cons] at low high
    have one : add_difference previous current start i = some (start + moved previous current i) := by
      rw [add_difference, difference_eq, Option.bind_eq_bind, Option.bind_some]
      exact int32_of_small (by omega) (by omega)
    rw [List.foldlM_cons, one, Option.bind_eq_bind, Option.bind_some, ih _ (by omega) (by omega), List.map_cons,
      List.sum_cons, Int.add_assoc]

theorem magnitude_eq {delta : Int} (low : -2 ^ 31 < delta) (high : delta < 2 ^ 31) : magnitude delta = some delta.natAbs := by
  unfold magnitude
  by_cases negative : delta < 0
  · rw [if_pos negative, int32_of_small (by omega) (by omega), Option.bind_eq_bind, Option.bind_some]
    dsimp only
    rw [uint32_of_small (by omega), Option.some.injEq]
    omega
  · rw [if_neg negative, Option.bind_eq_bind, Option.bind_some]
    dsimp only
    rw [uint32_of_small (by omega), Option.some.injEq]
    omega

/-- The second loop adds up the distances from the mean. -/
theorem change_eq (previous current : Signature) {mean : Int} (above : -255 ≤ mean) (below : mean ≤ 255)
    (blocks : List Block) (start : Nat) (room : start + 510 * blocks.length < 2 ^ 32) :
    blocks.foldlM (add_delta previous current mean) start =
      some (start + (blocks.map fun i => (moved previous current i - mean).natAbs).sum) := by
  induction blocks generalizing start with
  | nil => rw [List.foldlM_nil, List.map_nil, List.sum_nil, Nat.add_zero, Option.pure_def]
  | cons i rest ih =>
    have bounds := moved_bounds previous current i
    rw [List.length_cons] at room
    have one : add_delta previous current mean start i = some (start + (moved previous current i - mean).natAbs) := by
      rw [add_delta, difference_eq, Option.bind_eq_bind, Option.bind_some, int32_of_small (by omega) (by omega),
        Option.bind_some, magnitude_eq (by omega) (by omega), Option.bind_eq_bind, Option.bind_some]
      exact uint32_of_small (by omega)
    rw [List.foldlM_cons, one, Option.bind_eq_bind, Option.bind_some, ih _ (by omega), List.map_cons, List.sum_cons,
      Nat.add_assoc]

/-! ### What the score is -/

instance some_block : Nonempty Block := ⟨⟨0, by decide⟩⟩

theorem blocks_eq : (CAMERA_SIGNATURE_BLOCKS : Int) = 64 := rfl

theorem mean_bounds (previous current : Signature) :
    -255 ≤ mean (moved previous current) ∧ mean (moved previous current) ≤ 255 := by
  have low : ∑ _i : Block, (-255 : Int) ≤ ∑ i, moved previous current i :=
    Finset.sum_le_sum fun i _ => (moved_bounds previous current i).1
  have high : ∑ i, moved previous current i ≤ ∑ _i : Block, (255 : Int) :=
    Finset.sum_le_sum fun i _ => (moved_bounds previous current i).2
  rw [Finset.sum_const, Finset.card_univ, Fintype.card_fin, nsmul_eq_mul, blocks_eq] at low high
  rw [mean, Fintype.card_fin, blocks_eq, tdiv_eq_floor _ (by omega)]
  split
  · omega
  · omega

theorem signature_change_eq (previous current : Signature) :
    signature_change previous current = some (spread (moved previous current) (mean (moved previous current))) := by
  have bounds := mean_bounds previous current
  have blocks : (List.finRange CAMERA_SIGNATURE_BLOCKS).length = 64 := List.length_finRange
  have sum : ((List.finRange CAMERA_SIGNATURE_BLOCKS).map (moved previous current)).sum = ∑ i, moved previous current i :=
    (Fin.sum_univ_def _).symm
  have centre : (∑ i, moved previous current i).tdiv CAMERA_SIGNATURE_BLOCKS = mean (moved previous current) := by
    rw [mean, Fintype.card_fin]
  rw [signature_change, total_eq _ _ _ _ (by rw [blocks]; omega) (by rw [blocks]; omega), Option.bind_eq_bind,
    Option.bind_some, Int.zero_add, sum, centre, int32_of_small (by omega) (by omega), Option.bind_some,
    change_eq _ _ bounds.1 bounds.2 _ _ (by rw [blocks]; omega), Nat.zero_add, spread, Fin.sum_univ_def]

/-! ### Brightness -/

/-- How much brighter all blocks together are. -/
def brightening (previous current : Signature) : Int := ∑ i, moved previous current i

/-- The blocks that changed by less than the exact mean. -/
def darker (previous current : Signature) : Finset Block :=
  Finset.univ.filter fun i => CAMERA_SIGNATURE_BLOCKS * moved previous current i < brightening previous current

/-- A step of all blocks changes the score unless the mean change is whole, or is rounded in the same direction
with the step as without it, or half of the blocks changed by less than it. A step alone never scores. -/
theorem signature_change_step (previous current stepped : Signature) (c : Int)
    (step : ∀ i : Block, (stepped[i].toNat : Int) = current[i].toNat + c) :
    (signature_change previous stepped = signature_change previous current ↔
      (CAMERA_SIGNATURE_BLOCKS : Int) ∣ brightening previous current ∨
      (0 < brightening previous current ↔ 0 < brightening previous current + CAMERA_SIGNATURE_BLOCKS * c) ∨
      2 * (darker previous current).card = CAMERA_SIGNATURE_BLOCKS) ∧
    signature_change current stepped = some 0 ∧ (signature_change previous current).isSome = true := by
  have shift : moved previous stepped = fun i => moved previous current i + c := by
    funext i
    unfold moved
    rw [step i]
    omega
  have alone : moved current stepped = fun _ => c := by
    funext i
    unfold moved
    rw [step i]
    omega
  refine ⟨?_, ?_, ?_⟩
  · have known := spread_mean_add_iff (moved previous current) c
    rw [Fintype.card_fin] at known
    rw [signature_change_eq, signature_change_eq, Option.some.injEq, shift]
    exact known
  · rw [signature_change_eq, alone, spread_mean_const]
  · rw [signature_change_eq, Option.isSome_some]

/-- A block that became darker by one in a scene that did not change otherwise. -/
def lit (level : UInt8) : Signature := Vector.ofFn fun i => if i.val = 0 then level + 1 else level
def even (level : UInt8) : Signature := Vector.replicate _ level

theorem signature_change_step_whole : signature_change (even 10) (even 21) = signature_change (even 10) (even 20) ∧
    signature_change (even 20) (even 21) = some 0 := by
  have known := signature_change_step (even 10) (even 20) (even 21) 1 (by simp [even])
  exact ⟨known.1.mpr (Or.inl ⟨10, by simp [brightening, moved, even]⟩), known.2.1⟩

theorem signature_change_step_scores :
    ¬ ∀ (previous current stepped : Signature) (c : Int), (∀ i : Block, (stepped[i].toNat : Int) = current[i].toNat + c) →
      signature_change previous stepped = signature_change previous current := by
  intro always
  have same := always (lit 0) (even 0) (even 1) 1 (by simp [even])
  have apart : signature_change (lit 0) (even 1) = some 63 ∧ signature_change (lit 0) (even 0) = some 1 := by
    decide +kernel
  rw [apart.1, apart.2] at same
  cases same

end PiJade.CameraSignature
