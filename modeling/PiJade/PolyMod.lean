import Mathlib.Algebra.BigOperators.Group.Finset.Basic
import Mathlib.Algebra.Group.Nat.Defs
import Mathlib.Algebra.Ring.Hom.Defs
import Mathlib.Data.Nat.Bitwise
import Mathlib.Tactic.Abel

/-!
Checksums by division. A step shifts its state by one symbol, takes the next symbol in and
folds what was shifted out back through generators; everything is linear in exclusive or.
Where a power of an operator fixes nothing but zero, few errors cannot vanish in as many
syndromes.
-/
namespace PiJade.PolyMod
set_option linter.unusedSimpArgs false

/-! ### Exclusive or -/

/-- A map that exclusive or commutes with. -/
def XorLinear (f : Nat → Nat) : Prop := ∀ a b, f (a ^^^ b) = f a ^^^ f b

theorem XorLinear.comp {f g : Nat → Nat} (f_linear : XorLinear f) (g_linear : XorLinear g) :
    XorLinear fun a => f (g a) := fun a b => by
  simp only [g_linear a b, f_linear (g a)]

theorem XorLinear.xor {f g : Nat → Nat} (f_linear : XorLinear f) (g_linear : XorLinear g) :
    XorLinear fun a => f a ^^^ g a := fun a b => by
  simp only [f_linear a b, g_linear a b]
  ac_rfl

theorem XorLinear.iterate {f : Nat → Nat} (linear : XorLinear f) : ∀ n, XorLinear f^[n]
  | 0 => fun _ _ => rfl
  | n + 1 => fun a b => by rw [Function.iterate_succ_apply, linear, linear.iterate n]; rfl

theorem XorLinear.zero {f : Nat → Nat} (linear : XorLinear f) : f 0 = 0 := by
  have double := linear 0 0
  rwa [Nat.xor_self, Nat.xor_self] at double

theorem linear_mod (n : Nat) : XorLinear (· % 2 ^ n) := fun _ _ => Nat.xor_mod_two_pow

theorem linear_div (n : Nat) : XorLinear (· / 2 ^ n) := fun _ _ => Nat.xor_div_two_pow

theorem linear_mul (n : Nat) : XorLinear (· * 2 ^ n) := fun a b => by
  simp only [← Nat.shiftLeft_eq, Nat.shiftLeft_xor_distrib]

theorem top_bit {n a : Nat} (small : a < 2 ^ (n + 1)) :
    a = (if a.testBit n then 2 ^ n else 0) ^^^ a % 2 ^ n := by
  refine Nat.eq_of_testBit_eq fun i => ?_
  rw [Nat.testBit_xor, Nat.testBit_mod_two_pow]
  rcases Nat.lt_trichotomy i n with below | rfl | above
  · split <;> simp [below, Nat.testBit_two_pow, Nat.ne_of_gt below]
  · split <;> simp_all
  · have clear : a.testBit i = false :=
      Nat.testBit_lt_two_pow (Nat.lt_of_lt_of_le small (Nat.pow_le_pow_right (by omega) above))
    split <;> simp [clear, Nat.testBit_two_pow, Nat.ne_of_lt above, Nat.not_lt.mpr (Nat.le_of_lt above)]

/-- XorLinear maps agree where they agree on every single bit. -/
theorem XorLinear.ext {f g : Nat → Nat} (f_linear : XorLinear f) (g_linear : XorLinear g) :
    ∀ {n a : Nat}, (∀ i, i < n → f (2 ^ i) = g (2 ^ i)) → a < 2 ^ n → f a = g a
  | 0, a, _, small => by
    obtain rfl : a = 0 := by simpa using small
    rw [f_linear.zero, g_linear.zero]
  | n + 1, a, bits, small => by
    have rest : f (a % 2 ^ n) = g (a % 2 ^ n) :=
      f_linear.ext g_linear (fun i below => bits i (by omega)) (Nat.mod_lt _ (Nat.two_pow_pos n))
    rw [top_bit small, f_linear, g_linear, rest]
    split
    · rw [bits n (by omega)]
    · rw [f_linear.zero, g_linear.zero]

/-! ### The register -/

/-- The generators that some bits select. -/
def feedback : List Nat → Nat → Nat
  | [], _ => 0
  | gen :: gens, top => (if top.testBit 0 then gen else 0) ^^^ feedback gens (top / 2)

/-- The register of a code: the bits of a symbol, the bits that a step keeps, and what it
folds back. -/
structure Code where
  width : Nat
  kept : Nat
  gens : List Nat

def Code.step (code : Code) (chk symbol : Nat) : Nat :=
  chk % 2 ^ code.kept * 2 ^ code.width ^^^ symbol ^^^ feedback code.gens (chk / 2 ^ code.kept)

def Code.run (code : Code) (chk : Nat) (symbols : List Nat) : Nat := symbols.foldl code.step chk

theorem linear_feedback : ∀ gens, XorLinear (feedback gens)
  | [] => fun _ _ => by simp [feedback]
  | gen :: gens => fun a b => by
    have half := linear_div 1 a b
    simp only [Nat.pow_one] at half
    have later := linear_feedback gens (a / 2) (b / 2)
    have selected : (if (a ^^^ b).testBit 0 then gen else 0) =
        (if a.testBit 0 then gen else 0) ^^^ (if b.testBit 0 then gen else 0) := by
      rw [Nat.testBit_xor]
      cases a.testBit 0 <;> cases b.testBit 0 <;> simp
    rw [feedback, feedback, feedback, selected, half, later]
    ac_rfl

theorem Code.step_xor (code : Code) (chk chk' symbol symbol' : Nat) :
    code.step (chk ^^^ chk') (symbol ^^^ symbol') = code.step chk symbol ^^^ code.step chk' symbol' := by
  have kept := linear_mod code.kept chk chk'
  have top := linear_div code.kept chk chk'
  have shifted := linear_mul code.width (chk % 2 ^ code.kept) (chk' % 2 ^ code.kept)
  simp only at kept top shifted
  rw [step, kept, top, shifted, linear_feedback, step, step]
  ac_rfl

/-- A step without a symbol. -/
abbrev Code.shift (code : Code) (chk : Nat) : Nat := code.step chk 0

theorem Code.linear_shift (code : Code) : XorLinear code.shift := fun a b => code.step_xor a b 0 0

theorem Code.step_eq (code : Code) (chk symbol : Nat) : code.step chk symbol = code.shift chk ^^^ symbol := by
  rw [shift, step, step, Nat.xor_zero]
  ac_rfl

theorem shifted_xor {n low : Nat} (small : low < 2 ^ n) (high : Nat) : high * 2 ^ n ^^^ low = high * 2 ^ n + low := by
  refine Nat.eq_of_testBit_eq fun i => ?_
  rw [Nat.testBit_xor, Nat.mul_comm, Nat.testBit_two_pow_mul, Nat.testBit_two_pow_mul_add _ small]
  by_cases below : i < n
  · simp [below, Nat.not_le.mpr below]
  · have clear : low.testBit i = false :=
      Nat.testBit_lt_two_pow (Nat.lt_of_lt_of_le small (Nat.pow_le_pow_right (by omega) (Nat.not_lt.mp below)))
    simp [below, clear, Nat.not_lt.mp below]

theorem feedback_zero (gens : List Nat) : feedback gens 0 = 0 := (linear_feedback gens).zero

/-- Nothing comes back before something is shifted out. -/
theorem Code.step_of_small (code : Code) {chk symbol : Nat} (chk_small : chk < 2 ^ code.kept) (small : symbol < 2 ^ code.width) :
    code.step chk symbol = chk * 2 ^ code.width + symbol := by
  rw [step, Nat.mod_eq_of_lt chk_small, Nat.div_eq_of_lt chk_small, feedback_zero, Nat.xor_zero, shifted_xor small]

/-- Where the low bits of what comes back tell what was shifted out, only nothing shifts to nothing. -/
theorem Code.shift_eq_zero (code : Code)
    (pivot : ∀ top, top < 2 ^ code.width → feedback code.gens top % 2 ^ code.width = 0 → top = 0) {chk : Nat}
    (small : chk < 2 ^ (code.kept + code.width)) (vanishes : code.shift chk = 0) : chk = 0 := by
  rw [shift, step, Nat.xor_zero, Nat.xor_eq_zero_iff] at vanishes
  have low : feedback code.gens (chk / 2 ^ code.kept) % 2 ^ code.width = 0 := by
    rw [← vanishes, Nat.mul_mod_left]
  have top := pivot _ (Nat.div_lt_of_lt_mul (by rwa [Nat.pow_add] at small)) low
  rw [top, feedback_zero] at vanishes
  have rest : chk % 2 ^ code.kept = 0 := (Nat.mul_eq_zero.mp vanishes).resolve_right (Nat.ne_of_gt (Nat.two_pow_pos _))
  rw [← Nat.div_add_mod chk (2 ^ code.kept), top, rest, Nat.mul_zero]

theorem Code.step_inj (code : Code)
    (pivot : ∀ top, top < 2 ^ code.width → feedback code.gens top % 2 ^ code.width = 0 → top = 0) {chk chk' symbol : Nat}
    (small : chk < 2 ^ (code.kept + code.width)) (small' : chk' < 2 ^ (code.kept + code.width))
    (same : code.step chk symbol = code.step chk' symbol) : chk = chk' := by
  have difference := code.step_xor chk chk' symbol symbol
  rw [same, Nat.xor_self, Nat.xor_self] at difference
  exact Nat.xor_eq_zero_iff.mp (code.shift_eq_zero pivot (Nat.xor_lt_two_pow small small') difference)

/-- The difference of two runs is the run of the difference. -/
theorem Code.run_xor (code : Code) : ∀ {symbols symbols' : List Nat} (chk chk' : Nat), symbols.length = symbols'.length →
    code.run (chk ^^^ chk') (List.zipWith (· ^^^ ·) symbols symbols') = code.run chk symbols ^^^ code.run chk' symbols'
  | [], [], _, _, _ => rfl
  | symbol :: symbols, symbol' :: symbols', chk, chk', same => by
    have later := code.run_xor (code.step chk symbol) (code.step chk' symbol') (Nat.succ.inj same)
    rw [← code.step_xor] at later
    exact later

theorem Code.run_append (code : Code) (chk : Nat) (symbols symbols' : List Nat) :
    code.run chk (symbols ++ symbols') = code.run (code.run chk symbols) symbols' := List.foldl_append

theorem feedback_lt {n : Nat} : ∀ {gens : List Nat}, (∀ gen ∈ gens, gen < 2 ^ n) → ∀ top, feedback gens top < 2 ^ n
  | [], _, _ => Nat.two_pow_pos n
  | gen :: gens, small, top => by
    refine Nat.xor_lt_two_pow ?_ (feedback_lt (fun gen mem => small gen (List.mem_cons_of_mem _ mem)) _)
    split
    · exact small gen List.mem_cons_self
    · exact Nat.two_pow_pos n

theorem Code.step_lt (code : Code) {n : Nat} (kept : code.kept + code.width ≤ n) (small : ∀ gen ∈ code.gens, gen < 2 ^ n)
    (chk : Nat) {symbol : Nat} (symbol_small : symbol < 2 ^ n) : code.step chk symbol < 2 ^ n := by
  have shifted : chk % 2 ^ code.kept * 2 ^ code.width < 2 ^ n := by
    have below := Nat.mul_lt_mul_of_pos_right (Nat.mod_lt chk (Nat.two_pow_pos code.kept)) (Nat.two_pow_pos code.width)
    rw [← Nat.pow_add] at below
    exact Nat.lt_of_lt_of_le below (Nat.pow_le_pow_right (by decide) kept)
  exact Nat.xor_lt_two_pow (Nat.xor_lt_two_pow shifted symbol_small) (feedback_lt small _)

/-! ### Symbols -/

/-- Numbers of so many bits, added by exclusive or. -/
structure Bits (width : Nat) where
  val : Nat
  small : val < 2 ^ width
  deriving DecidableEq

theorem Bits.ext {width : Nat} : ∀ {a b : Bits width}, a.val = b.val → a = b
  | ⟨_, _⟩, ⟨_, _⟩, rfl => rfl

instance bitsAdd (width : Nat) : Add (Bits width) :=
  ⟨fun a b => ⟨a.val ^^^ b.val, Nat.xor_lt_two_pow a.small b.small⟩⟩

instance bitsZero (width : Nat) : Zero (Bits width) := ⟨⟨0, Nat.two_pow_pos width⟩⟩

instance bitsNeg (width : Nat) : Neg (Bits width) := ⟨id⟩

instance bitsAddCommGroup (width : Nat) : AddCommGroup (Bits width) where
  add_assoc a b c := Bits.ext (Nat.xor_assoc _ _ _)
  zero_add a := Bits.ext (Nat.zero_xor _)
  add_zero a := Bits.ext (Nat.xor_zero _)
  neg_add_cancel a := Bits.ext (Nat.xor_self _)
  add_comm a b := Bits.ext (Nat.xor_comm _ _)
  nsmul := nsmulRec
  zsmul := zsmulRec

theorem Bits.val_add {width : Nat} (a b : Bits width) : (a + b).val = a.val ^^^ b.val := rfl

theorem Bits.val_zero {width : Nat} : (0 : Bits width).val = 0 := rfl

/-- A linear map on numbers of so many bits. -/
def XorLinear.toEnd {f : Nat → Nat} (linear : XorLinear f) {width : Nat} (bounded : ∀ a, a < 2 ^ width → f a < 2 ^ width) :
    AddMonoid.End (Bits width) where
  toFun a := ⟨f a.val, bounded a.val a.small⟩
  map_zero' := Bits.ext linear.zero
  map_add' a b := Bits.ext (linear a.val b.val)

theorem XorLinear.toEnd_pow {f : Nat → Nat} (linear : XorLinear f) {width : Nat}
    (bounded : ∀ a, a < 2 ^ width → f a < 2 ^ width) (a : Bits width) :
    ∀ k, ((linear.toEnd bounded ^ k) a).val = f^[k] a.val
  | 0 => rfl
  | k + 1 => by
    rw [Function.iterate_succ_apply', ← linear.toEnd_pow bounded a k, pow_succ']
    rfl

/-! ### Few errors -/

section
variable {M : Type} [AddCommGroup M] {α : AddMonoid.End M} {n : Nat}

theorem pow_add_apply (i j : Nat) (x : M) : (α ^ (i + j)) x = (α ^ i) ((α ^ j) x) := by
  rw [pow_add]
  rfl

theorem pow_eq_zero (injective : ∀ x, α x = 0 → x = 0) : ∀ {i : Nat} {x : M}, (α ^ i) x = 0 → x = 0
  | 0, _, vanishes => vanishes
  | i + 1, x, vanishes => by
    rw [Nat.add_comm, pow_add_apply, pow_one] at vanishes
    exact pow_eq_zero injective (injective _ vanishes)

theorem apart_eq_zero (injective : ∀ x, α x = 0 → x = 0)
    (free : ∀ d, 0 < d → d < n → ∀ x, (α ^ d) x = x → x = 0) {i j : Nat} (below : i < j) (inside : j < n) {x : M}
    (same : (α ^ i) x = (α ^ j) x) : x = 0 := by
  refine free (j - i) (by omega) (by omega) x ?_
  have fixed : (α ^ i) ((α ^ (j - i)) x - x) = 0 := by
    rw [map_sub, ← pow_add_apply, Nat.add_sub_cancel' (Nat.le_of_lt below), same, sub_self]
  exact sub_eq_zero.mp (pow_eq_zero injective fixed)

/-- As many syndromes as there are places determine that nothing is there. -/
theorem vanish (injective : ∀ x, α x = 0 → x = 0) (free : ∀ d, 0 < d → d < n → ∀ x, (α ^ d) x = x → x = 0)
    (places : Finset Nat) : ∀ x : Nat → M, (∀ i ∈ places, i < n) →
    (∀ k, 1 ≤ k → k ≤ places.card → ∑ i ∈ places, (α ^ (k * i)) (x i) = 0) → ∀ i ∈ places, x i = 0 := by
  induction places using Finset.induction_on with
  | empty => exact fun _ _ _ i mem => absurd mem (Finset.notMem_empty i)
  | insert j places fresh ih =>
    intro x inside syndromes
    rw [Finset.card_insert_of_notMem fresh] at syndromes
    -- the error at `j` is eliminated between one syndrome and the next
    have eliminated : ∀ i ∈ places, (α ^ i) (x i) - (α ^ j) (x i) = 0 := by
      refine ih (fun i => (α ^ i) (x i) - (α ^ j) (x i)) (fun i mem => inside i (Finset.mem_insert_of_mem mem)) ?_
      intro k positive few
      have this := syndromes k positive (by omega)
      have next := syndromes (k + 1) (by omega) (by omega)
      rw [Finset.sum_insert fresh] at this next
      have shifted := congrArg (α ^ j) this
      rw [map_add, map_zero, map_sum, ← pow_add_apply,
        show j + k * j = (k + 1) * j by rw [Nat.succ_mul, Nat.add_comm]] at shifted
      rw [← sub_eq_zero.mpr (next.trans shifted.symm), add_sub_add_left_eq_sub, ← Finset.sum_sub_distrib]
      refine Finset.sum_congr rfl fun i _ => ?_
      rw [map_sub, ← pow_add_apply, ← pow_add_apply, ← pow_add_apply, Nat.succ_mul, Nat.add_comm (k * i) j]
    have others : ∀ i ∈ places, x i = 0 := by
      intro i mem
      have same := sub_eq_zero.mp (eliminated i mem)
      rcases Nat.lt_or_gt_of_ne (fun equal : i = j => fresh (equal ▸ mem)) with below | above
      · exact apart_eq_zero injective free below (inside j (Finset.mem_insert_self j places)) same
      · exact apart_eq_zero injective free above (inside i (Finset.mem_insert_of_mem mem)) same.symm
    intro i mem
    rcases Finset.mem_insert.mp mem with rfl | mem
    · have first := syndromes 1 (by omega) (by omega)
      rw [Finset.sum_insert fresh, Finset.sum_eq_zero fun i mem => by rw [others i mem, map_zero], add_zero] at first
      exact pow_eq_zero injective first
    · exact others i mem

/-- A word at a point, its first symbol the highest coefficient. -/
def horner (point : M → M) (word : List M) : M := word.foldl (fun sum symbol => point sum + symbol) 0

theorem horner_eq_sum (point : AddMonoid.End M) (word : List M) :
    horner point word = ∑ i ∈ Finset.range word.length, (point ^ i) (word.reverse.getD i 0) := by
  induction word using List.reverseRecOn with
  | nil => rfl
  | append_singleton word symbol ih =>
    rw [horner, List.foldl_append, List.foldl_cons, List.foldl_nil, ← horner, ih, List.length_append, List.length_singleton,
      Finset.sum_range_succ', map_sum]
    refine congrArg₂ (· + ·) (Finset.sum_congr rfl fun i _ => ?_) ?_
    · rw [Nat.add_comm i 1, pow_add_apply, pow_one]
      simp [Nat.add_comm 1 i]
    · simp

theorem card_support [DecidableEq M] (word : List M) :
    ((Finset.range word.length).filter fun i => word.getD i 0 ≠ 0).card = word.countP (· ≠ 0) := by
  induction word using List.reverseRecOn with
  | nil => rfl
  | append_singleton word symbol ih =>
    have before : ((Finset.range word.length).filter fun i => (word ++ [symbol]).getD i 0 ≠ 0) =
        (Finset.range word.length).filter fun i => word.getD i 0 ≠ 0 := by
      refine Finset.filter_congr fun i mem => ?_
      rw [List.getD_append _ _ _ _ (Finset.mem_range.mp mem)]
    have last : (word ++ [symbol]).getD word.length 0 = symbol := by simp
    rw [List.length_append, List.length_singleton, Finset.range_add_one, Finset.filter_insert, before, last, List.countP_append,
      ← ih]
    by_cases nothing : symbol = 0
    · simp [nothing]
    · rw [if_pos nothing, Finset.card_insert_of_notMem (by simp)]
      simp [nothing]

/-- A word with few symbols that vanishes at as many powers of a point is all zero. -/
theorem few_errors [DecidableEq M] (injective : ∀ x, α x = 0 → x = 0)
    (free : ∀ d, 0 < d → d < n → ∀ x, (α ^ d) x = x → x = 0) {word : List M} (short : word.length ≤ n) {few : Nat}
    (weight : word.countP (· ≠ 0) ≤ few) (syndromes : ∀ k, 1 ≤ k → k ≤ few → horner (α ^ k) word = 0) :
    ∀ symbol ∈ word, symbol = 0 := by
  have support := card_support word.reverse
  rw [List.length_reverse, List.countP_reverse] at support
  have nothing := vanish injective free ((Finset.range word.length).filter fun i => word.reverse.getD i 0 ≠ 0)
    (fun i => word.reverse.getD i 0) (fun i mem => by
      have below := Finset.mem_range.mp (Finset.mem_filter.mp mem).1
      omega) ?_
  · intro symbol mem
    obtain ⟨i, below, rfl⟩ := List.getElem_of_mem (List.mem_reverse.mpr mem)
    by_contra something
    rw [List.length_reverse] at below
    have value : word.reverse.getD i 0 = word.reverse[i] := by simp [below]
    refine something ?_
    rw [← value]
    exact nothing i (Finset.mem_filter.mpr ⟨Finset.mem_range.mpr below, by rw [value]; exact something⟩)
  · intro k positive enough
    have syndrome := syndromes k positive (by omega)
    rw [horner_eq_sum] at syndrome
    refine (Finset.sum_subset (Finset.filter_subset _ _) ?_).trans
      ((Finset.sum_congr rfl fun i _ => by rw [pow_mul]).trans syndrome)
    intro i mem outside
    have zero : word.reverse.getD i 0 = 0 := by
      by_contra something
      exact outside (Finset.mem_filter.mpr ⟨mem, something⟩)
    rw [zero, map_zero]

end
end PiJade.PolyMod
