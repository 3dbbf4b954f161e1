import PiJade.PolyMod
import PiJade.Slip39English

/-!
What the checksum of a SLIP39 share detects. The register of `rs1024_polymod` is a Reed-Solomon
code: three powers of one element of the field with 1024 elements follow the register as
syndromes, and up to three wrong words change one of them.
-/
namespace PiJade.Slip39
set_option linter.unusedSimpArgs false
open PolyMod (Code Bits XorLinear feedback horner)

/-! ### The register -/

/-- The register of `rs1024_polymod`: three symbols of ten bits, two of them kept. -/
def rs1024 : Code where
  width := 10
  kept := 20
  gens := GEN.map UInt32.toNat

/-- One generator, if its bit is among those shifted out. -/
def foldBack (top chk : UInt32) (entry : UInt32 × Nat) : UInt32 :=
  if top >>> UInt32.ofNat entry.2 &&& 1 ≠ 0 then chk ^^^ entry.1 else chk

theorem foldBack_toNat (top : UInt32) : ∀ (gens : List UInt32) {k : Nat} (chk : UInt32), k + gens.length ≤ 32 →
    ((gens.zipIdx k).foldl (foldBack top) chk).toNat =
      chk.toNat ^^^ feedback (gens.map UInt32.toNat) (top.toNat / 2 ^ k)
  | [], _, chk, _ => (Nat.xor_zero _).symm
  | gen :: gens, k, chk, inside => by
    rw [List.length_cons] at inside
    have bit : (top >>> UInt32.ofNat k &&& 1 ≠ 0) ↔ (top.toNat / 2 ^ k).testBit 0 = true := by
      have index : (UInt32.ofNat k).toNat % 32 = k := by
        rw [UInt32.toNat_ofNat', Nat.mod_eq_of_lt (by omega), Nat.mod_eq_of_lt (by omega)]
      rw [ne_eq, ← UInt32.toNat_inj, UInt32.toNat_and, UInt32.toNat_shiftRight, index, Nat.shiftRight_eq_div_pow,
        Nat.testBit_zero]
      simp only [UInt32.reduceToNat, Nat.and_one_is_mod]
      simp
    rw [List.zipIdx_cons, List.foldl_cons, foldBack_toNat top gens _ (by omega), List.map_cons, feedback,
      Nat.div_div_eq_div_mul, ← Nat.pow_succ, foldBack]
    by_cases taken : (top.toNat / 2 ^ k).testBit 0 = true
    · rw [if_pos (bit.mpr taken), if_pos taken, UInt32.toNat_xor, Nat.xor_assoc]
    · rw [if_neg fun set => taken (bit.mp set), if_neg taken, Nat.zero_xor]

theorem rs1024_step (chk v : UInt32) :
    ((GEN.zipIdx).foldl (foldBack (chk >>> 20)) ((chk &&& 0x000FFFFF) <<< 10 ^^^ v)).toNat = rs1024.step chk.toNat v.toNat := by
  have low : (chk &&& 0x000FFFFF).toNat = chk.toNat % 2 ^ 20 := by
    rw [UInt32.toNat_and, show UInt32.toNat 0x000FFFFF = 2 ^ 20 - 1 from rfl, Nat.and_two_pow_sub_one_eq_mod]
  have shifted : ((chk &&& 0x000FFFFF) <<< 10).toNat = chk.toNat % 2 ^ 20 * 2 ^ 10 := by
    rw [UInt32.toNat_shiftLeft, low, show UInt32.toNat 10 % 32 = 10 from rfl, Nat.shiftLeft_eq]
    exact Nat.mod_eq_of_lt (by omega)
  have top : (chk >>> 20).toNat = chk.toNat / 2 ^ 20 := by
    rw [UInt32.toNat_shiftRight, show UInt32.toNat 20 % 32 = 20 from rfl, Nat.shiftRight_eq_div_pow]
  rw [foldBack_toNat (chk >>> 20) GEN _ (by decide), UInt32.toNat_xor, shifted, top, Nat.pow_zero, Nat.div_one]
  rfl

theorem rs1024_polymod_toNat (customization : Bytes) (values : List UInt16) :
    (rs1024_polymod customization values).toNat =
      rs1024.run 1 (customization.map UInt8.toNat ++ values.map UInt16.toNat) := by
  have loop : ∀ (symbols : List UInt32) (chk : UInt32), (symbols.foldl (fun chk v =>
      (GEN.zipIdx).foldl (foldBack (chk >>> 20)) ((chk &&& 0x000FFFFF) <<< 10 ^^^ v)) chk).toNat =
      rs1024.run chk.toNat (symbols.map UInt32.toNat) := by
    intro symbols
    induction symbols with
    | nil => exact fun _ => rfl
    | cons v symbols ih =>
      intro chk
      rw [List.foldl_cons, ih, rs1024_step]
      rfl
  have unfolded := loop (customization.map UInt8.toUInt32 ++ values.map UInt16.toUInt32) 1
  rw [List.map_append, List.map_map, List.map_map] at unfolded
  exact unfolded

/-! ### The syndromes -/

/-- Multiplication by the element that generates the field. -/
def times : Nat → Nat := Code.shift ⟨1, 9, [9]⟩

theorem linear_times : XorLinear times := Code.linear_shift _

theorem times_lt (a : Nat) : times a < 2 ^ 10 :=
  Code.step_lt ⟨1, 9, [9]⟩ (by decide) (by decide) a (by decide)

/-- The register at a power of the element. -/
def syndrome (k chk : Nat) : Nat := times^[2 * k] (chk / 2 ^ 20) ^^^ times^[k] (chk / 2 ^ 10 % 2 ^ 10) ^^^ chk % 2 ^ 10

theorem linear_syndrome (k : Nat) : XorLinear (syndrome k) :=
  (((linear_times.iterate _).comp (PolyMod.linear_div 20)).xor
    ((linear_times.iterate _).comp ((PolyMod.linear_mod 10).comp (PolyMod.linear_div 10)))).xor (PolyMod.linear_mod 10)

theorem syndrome_shift {k : Nat} (first : 1 ≤ k) (last : k ≤ 3) {chk : Nat} (small : chk < 2 ^ 30) :
    syndrome k (rs1024.shift chk) = times^[k] (syndrome k chk) := by
  refine XorLinear.ext ((linear_syndrome k).comp rs1024.linear_shift)
    ((linear_times.iterate k).comp (linear_syndrome k)) (fun i inside => ?_) small
  have bits : ∀ k, k < 3 → ∀ i, i < 30 → syndrome (k + 1) (rs1024.shift (2 ^ i)) = times^[k + 1] (syndrome (k + 1) (2 ^ i)) := by
    decide +kernel
  have this := bits (k - 1) (by omega) i inside
  rwa [Nat.sub_add_cancel first] at this

theorem syndrome_symbol (k : Nat) {symbol : Nat} (small : symbol < 2 ^ 10) : syndrome k symbol = symbol := by
  rw [syndrome, Nat.div_eq_of_lt (Nat.lt_trans small (by decide)), Nat.div_eq_of_lt small, Nat.mod_eq_of_lt small,
    Nat.zero_mod, (linear_times.iterate _).zero, (linear_times.iterate _).zero, Nat.zero_xor, Nat.zero_xor]

theorem syndrome_step {k : Nat} (first : 1 ≤ k) (last : k ≤ 3) {chk symbol : Nat} (small : chk < 2 ^ 30)
    (symbol_small : symbol < 2 ^ 10) : syndrome k (rs1024.step chk symbol) = times^[k] (syndrome k chk) ^^^ symbol := by
  rw [Code.step_eq, linear_syndrome, syndrome_shift first last small, syndrome_symbol k symbol_small]

theorem rs1024_step_lt (chk : Nat) {symbol : Nat} (small : symbol < 2 ^ 10) : rs1024.step chk symbol < 2 ^ 30 :=
  rs1024.step_lt (by decide) (by decide) chk (Nat.lt_trans small (by decide))

/-! ### Symbols -/

def multiply : AddMonoid.End (Bits 10) := linear_times.toEnd fun a _ => times_lt a

/-- The same on the symbols alone, in operations that are fast to check. -/
def double (a : Nat) : Nat := bif Nat.ble 512 a then Nat.xor (Nat.mul 2 a) 1033 else Nat.mul 2 a

theorem times_eq (a : Nat) (small : a < 2 ^ 10) : times a = double a := by
  have step : times a = a % 2 ^ 9 * 2 ^ 1 ^^^ 0 ^^^ ((if (a / 2 ^ 9).testBit 0 then 9 else 0) ^^^ 0) := rfl
  rw [step, Nat.xor_zero, Nat.xor_zero]
  by_cases low : a < 512
  · have above : Nat.ble 512 a = false := Bool.eq_false_iff.mpr fun le => Nat.not_le.mpr low (Nat.le_of_ble_eq_true le)
    have top : a / 2 ^ 9 = 0 := by omega
    have kept : a % 2 ^ 9 = a := by omega
    rw [double, above, cond_false, top, kept, Nat.zero_testBit, if_neg Bool.false_ne_true, Nat.xor_zero]
    exact Nat.mul_comm a 2
  · have above : Nat.ble 512 a = true := Nat.ble_eq_true_of_le (Nat.not_lt.mp low)
    have top : a / 2 ^ 9 = 1 := by omega
    have carried : Nat.mul 2 a = 1 * 2 ^ 10 ^^^ a % 2 ^ 9 * 2 ^ 1 := by
      rw [PolyMod.shifted_xor (by omega)]
      show 2 * a = _
      omega
    rw [double, above, cond_true, top, if_pos (show Nat.testBit 1 0 = true from rfl), carried]
    show _ = (1 * 2 ^ 10 ^^^ a % 2 ^ 9 * 2 ^ 1) ^^^ (1 * 2 ^ 10 ^^^ 9)
    rw [Nat.xor_comm (1 * 2 ^ 10) 9, Nat.xor_comm (1 * 2 ^ 10), Nat.xor_assoc, Nat.xor_comm 9, ← Nat.xor_assoc (1 * 2 ^ 10),
      Nat.xor_self, Nat.zero_xor]

theorem multiply_injective (x : Bits 10) (vanishes : multiply x = 0) : x = 0 := by
  have zero : double x.val = 0 := (times_eq x.val x.small).symm.trans (congrArg Bits.val vanishes)
  refine Bits.ext (show x.val = 0 from ?_)
  rw [double] at zero
  cases above : Nat.ble 512 x.val with
  | false =>
    rw [above, cond_false] at zero
    exact (Nat.mul_eq_zero.mp zero).resolve_left (by decide)
  | true =>
    rw [above, cond_true] at zero
    have odd : 2 * x.val = 1033 := Nat.xor_eq_zero_iff.mp zero
    omega

/-- None of so many powers brings a number to the given one. -/
def away (target : Nat) : Nat → Nat → Bool
  | 0, _ => true
  | powers + 1, a => bif Nat.beq (double a) target then false else away target powers (double a)

theorem away_spec {target : Nat} : ∀ {powers a : Nat}, a < 2 ^ 10 → away target powers a = true → ∀ d, 0 < d → d ≤ powers →
    times^[d] a ≠ target
  | 0, _, _, _, d, positive, most => by omega
  | powers + 1, a, small, checked, d, positive, most => by
    rw [away, ← times_eq a small] at checked
    cases same : Nat.beq (times a) target with
    | true =>
      rw [same] at checked
      cases checked
    | false =>
      rw [same, cond_false] at checked
      obtain ⟨d, rfl⟩ : ∃ d', d = d' + 1 := ⟨d - 1, by omega⟩
      rw [Function.iterate_succ_apply]
      cases d with
      | zero => exact Nat.ne_of_beq_eq_false same
      | succ d => exact away_spec (times_lt a) checked (d + 1) (by omega) (by omega)

theorem orbits : ((List.range 1024).all fun a => a == 0 || away a 32 a) = true := by decide +kernel

/-- Fewer than 33 multiplications move everything but zero. -/
theorem multiply_free (d : Nat) (positive : 0 < d) (below : d < 33) (x : Bits 10) (fixed : (multiply ^ d) x = x) : x = 0 := by
  have checked := List.all_eq_true.mp orbits x.val (List.mem_range.mpr x.small)
  rw [Bool.or_eq_true, beq_iff_eq] at checked
  rcases checked with zero | moved
  · exact Bits.ext zero
  · refine absurd ?_ (away_spec x.small moved d positive (by omega))
    rw [← linear_times.toEnd_pow (fun a _ => times_lt a) x d]
    exact congrArg Bits.val fixed

/-- The register follows the word at the powers of the element. -/
theorem syndrome_run {k : Nat} (first : 1 ≤ k) (last : k ≤ 3) (word : List (Bits 10)) :
    ∀ {chk : Nat} {sum : Bits 10}, chk < 2 ^ 30 → syndrome k chk = sum.val →
      syndrome k (rs1024.run chk (word.map Bits.val)) =
        (word.foldl (fun sum symbol => (multiply ^ k) sum + symbol) sum).val := by
  induction word with
  | nil => exact fun _ same => same
  | cons symbol word ih =>
    intro chk sum small same
    refine ih (rs1024_step_lt chk symbol.small) ?_
    rw [syndrome_step first last small symbol.small, same, Bits.val_add]
    exact congrArg (· ^^^ symbol.val) (linear_times.toEnd_pow (fun a _ => times_lt a) sum k).symm

/-- A word of at most 33 symbols, at most three of them set, leaves something in the register. -/
theorem rs1024_distance {word : List (Bits 10)} (short : word.length ≤ 33) (weight : word.countP (· ≠ 0) ≤ 3)
    (nothing : rs1024.run 0 (word.map Bits.val) = 0) : ∀ symbol ∈ word, symbol = 0 := by
  refine PolyMod.few_errors multiply_injective multiply_free short weight fun k first last => Bits.ext ?_
  have followed := syndrome_run first last word (show 0 < 2 ^ 30 by decide)
    (show syndrome k 0 = (0 : Bits 10).val from (linear_syndrome k).zero)
  rw [nothing, (linear_syndrome k).zero] at followed
  exact followed.symm

/-! ### Wrong words -/

/-- The positions at which two shares carry different words. -/
def differing (a b : List UInt16) : Nat := (List.zip a b).countP fun pair => pair.1 != pair.2

/-- The bit that says which customization string the checksum has. -/
def extendableBit (indices : List UInt16) : Bool := (indices.getD 1 0).toNat.testBit 4

/-- How two words differ. -/
def errorSymbol (x y : UInt16) : Bits 10 where
  val := (x.toNat ^^^ y.toNat) % 2 ^ 10
  small := Nat.mod_lt _ (by decide)

def errors (a b : List UInt16) : List (Bits 10) := List.zipWith errorSymbol a b

theorem errorSymbol_val {x y : UInt16} (x_listed : x.toNat < 1024) (y_listed : y.toNat < 1024) :
    (errorSymbol x y).val = x.toNat ^^^ y.toNat :=
  Nat.mod_eq_of_lt (Nat.xor_lt_two_pow (n := 10) x_listed y_listed)

theorem errorSymbol_eq_zero {x y : UInt16} (x_listed : x.toNat < 1024) (y_listed : y.toNat < 1024) :
    errorSymbol x y = 0 ↔ x = y := by
  rw [← UInt16.toNat_inj, ← Nat.xor_eq_zero_iff, ← errorSymbol_val x_listed y_listed]
  exact ⟨congrArg Bits.val, fun none => Bits.ext none⟩

theorem errors_val : ∀ {a b : List UInt16}, (∀ x ∈ a, x.toNat < 1024) → (∀ y ∈ b, y.toNat < 1024) →
    (errors a b).map Bits.val = List.zipWith (· ^^^ ·) (a.map UInt16.toNat) (b.map UInt16.toNat)
  | [], _, _, _ => rfl
  | _ :: _, [], _, _ => rfl
  | x :: a, y :: b, a_listed, b_listed => by
    rw [List.forall_mem_cons] at a_listed b_listed
    have later := errors_val a_listed.2 b_listed.2
    rw [errors] at later ⊢
    rw [List.zipWith_cons_cons, List.map_cons, later, errorSymbol_val a_listed.1 b_listed.1]
    rfl

theorem errors_weight : ∀ {a b : List UInt16}, (∀ x ∈ a, x.toNat < 1024) → (∀ y ∈ b, y.toNat < 1024) →
    (errors a b).countP (· ≠ 0) = differing a b
  | [], _, _, _ => rfl
  | _ :: _, [], _, _ => rfl
  | x :: a, y :: b, a_listed, b_listed => by
    rw [List.forall_mem_cons] at a_listed b_listed
    have later := errors_weight a_listed.2 b_listed.2
    have same := errorSymbol_eq_zero a_listed.1 b_listed.1
    rw [errors, differing] at later ⊢
    rw [List.zipWith_cons_cons, List.zip_cons_cons, List.countP_cons, List.countP_cons, later]
    simp [same]

theorem differing_of_errors {a b : List UInt16} (a_listed : ∀ x ∈ a, x.toNat < 1024) (b_listed : ∀ y ∈ b, y.toNat < 1024)
    (nothing : ∀ symbol ∈ errors a b, symbol = 0) : differing a b = 0 := by
  rw [← errors_weight a_listed b_listed, List.countP_eq_zero]
  intro symbol mem
  simp [nothing symbol mem]

/-- One customization, two lists of words that differ a little: not both leave the register at one. -/
theorem rs1024_polymod_detects (customization : Bytes) {a b : List UInt16} (a_listed : ∀ x ∈ a, x.toNat < 1024)
    (b_listed : ∀ y ∈ b, y.toNat < 1024) (same : a.length = b.length) (short : a.length ≤ 33) (differs : 1 ≤ differing a b)
    (few : differing a b ≤ 3) : ¬ (rs1024_polymod customization a = 1 ∧ rs1024_polymod customization b = 1) := by
  rintro ⟨a_passes, b_passes⟩
  have a_run := rs1024_polymod_toNat customization a
  have b_run := rs1024_polymod_toNat customization b
  rw [a_passes, Code.run_append] at a_run
  rw [b_passes, Code.run_append] at b_run
  have difference := rs1024.run_xor (rs1024.run 1 (customization.map UInt8.toNat)) (rs1024.run 1 (customization.map UInt8.toNat))
    (show (a.map UInt16.toNat).length = (b.map UInt16.toNat).length by simpa using same)
  rw [← a_run, ← b_run, Nat.xor_self, Nat.xor_self, ← errors_val a_listed b_listed] at difference
  have length : (errors a b).length ≤ 33 := by
    rw [errors, List.length_zipWith]
    omega
  have nothing := rs1024_distance length (by rw [errors_weight a_listed b_listed]; exact few) difference
  have := differing_of_errors a_listed b_listed nothing
  omega

/-! ### Shares -/

/-- The customization string that the bit selects. -/
def customization (indices : List UInt16) : Bytes :=
  if extendableBit indices then CUSTOMIZATION_EXTENDABLE else CUSTOMIZATION_ORIG

theorem extendable_iff (indices : List UInt16) :
    ((indices.getD 0 0).toUInt32 <<< 10 ||| (indices.getD 1 0).toUInt32) >>> 4 &&& 1 ≠ 0 ↔ extendableBit indices = true := by
  -- the first word is above the bit
  have bit : (((indices.getD 0 0).toNat <<< 10 % 2 ^ 32) ||| (indices.getD 1 0).toNat).testBit 4 = extendableBit indices := by
    rw [Nat.testBit_or, Nat.testBit_mod_two_pow, Nat.testBit_shiftLeft]
    simp [extendableBit]
  rw [← bit, Nat.testBit_eq_decide_div_mod_eq, decide_eq_true_iff, ne_eq, ← UInt32.toNat_inj, UInt32.toNat_and,
    UInt32.toNat_shiftRight, UInt32.toNat_or, UInt32.toNat_shiftLeft, UInt16.toNat_toUInt32, UInt16.toNat_toUInt32]
  simp only [UInt32.reduceToNat, Nat.and_one_is_mod, Nat.shiftRight_eq_div_pow, Nat.reduceMod, Nat.reducePow]
  omega

theorem read_share_checksum {indices : List UInt16} (fails : rs1024_polymod (customization indices) indices ≠ 1) :
    read_share indices = .ok (.error .ERR_CHECKSUM) := by
  rw [customization] at fails
  simp only [read_share, extendable_iff]
  exact if_pos fails

/-- The parser gets past the checksum. -/
def Passes (mnemonic : Bytes) : Prop := slip39_parse_share SLIP39_WORDLIST mnemonic ≠ .ok (.error .ERR_CHECKSUM)

/-- Of two texts that write lists of 20 or of 33 words, with the same extendable bit and with one,
    two or three different words, at most one passes the checksum. -/
theorem checksum_detects {mnemonic mnemonic' : Bytes} {a b : List UInt16} (writes : Writes mnemonic a)
    (writes' : Writes mnemonic' b) (counted : a.length = SLIP39_SHORT_SHARE_WORDS ∨ a.length = SLIP39_LONG_SHARE_WORDS)
    (same : a.length = b.length) (extendable : extendableBit a = extendableBit b) (differs : 1 ≤ differing a b)
    (few : differing a b ≤ 3) : ¬ (Passes mnemonic ∧ Passes mnemonic') := by
  rintro ⟨passes, passes'⟩
  rw [Passes, parse_of_writes writes counted] at passes
  rw [Passes, parse_of_writes writes' (same ▸ counted)] at passes'
  have short : a.length ≤ 33 := by
    rcases counted with short | long
    · rw [short]
      decide
    · exact Nat.le_of_eq long
  have one_customization : customization b = customization a := by
    rw [customization, customization, extendable]
  refine rs1024_polymod_detects (customization a) writes.listed writes'.listed same short differs few ⟨?_, ?_⟩
  · by_contra fails
    exact passes (read_share_checksum fails)
  · by_contra fails
    exact passes' (read_share_checksum (one_customization ▸ fails))

/-- The words of a share of sixteen bytes, the only one of its group. -/
def shareWords : List UInt16 :=
  [248, 288, 0, 0, 17, 753, 521, 840, 372, 497, 155, 670, 192, 448, 297, 249, 23, 173, 196, 496]

theorem shareWords_listed : ∀ index ∈ shareWords, index.toNat < SLIP39_WORD_COUNT := by
  simp [shareWords, SLIP39_WORD_COUNT]

/-- The share passes the checksum; with one word of its value changed it does not. -/
theorem checksum_detects_changed_word : Passes (plain shareWords) ∧ ¬Passes (plain (shareWords.set 7 841)) := by
  have listed : ∀ index ∈ shareWords.set 7 841, index.toNat < SLIP39_WORD_COUNT := by
    simp [shareWords, SLIP39_WORD_COUNT]
  have passes : Passes (plain shareWords) := by
    rw [Passes, parse_of_writes (writes_plain shareWords_listed) (.inl rfl)]
    decide +kernel
  refine ⟨passes, fun changed => ?_⟩
  exact checksum_detects (writes_plain shareWords_listed) (writes_plain listed) (.inl rfl) rfl rfl (by decide) (by decide)
    ⟨passes, changed⟩

end PiJade.Slip39
