import Mathlib.Data.List.Rotate
import PiJade.Sha256

/-!
The hashing of the miner (`calc_midstate`, `verify_nonce`, `nonce_get` and `nonce_set` of
`components/miner/miner.c`). The eight registers are not moved from round to round but named
anew, the state of the first block is kept, the padding is written as words, and the hash is
compared from its last word on while the last rounds are still to come.
-/
namespace PiJade.Miner
open Sha256 (Vars beNat beBytes beWord words schedule schedule_input schedule_recurrence)
set_option linter.unusedSimpArgs false

/-! ### The macros -/

def ROTR (x n : UInt32) : UInt32 := x >>> n ||| x <<< (32 - n)
def SHR (x n : UInt32) : UInt32 := (x &&& 0xFFFFFFFF) >>> n
def S0 (x : UInt32) : UInt32 := ROTR x 7 ^^^ ROTR x 18 ^^^ SHR x 3
def S1 (x : UInt32) : UInt32 := ROTR x 17 ^^^ ROTR x 19 ^^^ SHR x 10
def S2 (x : UInt32) : UInt32 := ROTR x 2 ^^^ ROTR x 13 ^^^ ROTR x 22
def S3 (x : UInt32) : UInt32 := ROTR x 6 ^^^ ROTR x 11 ^^^ ROTR x 25
def F0 (x y z : UInt32) : UInt32 := (x &&& y) ||| (z &&& (x ||| y))
def F1 (x y z : UInt32) : UInt32 := z ^^^ (x &&& (y ^^^ z))

def K : List UInt32 := [
  0x428A2F98, 0x71374491, 0xB5C0FBCF, 0xE9B5DBA5, 0x3956C25B, 0x59F111F1, 0x923F82A4, 0xAB1C5ED5,
  0xD807AA98, 0x12835B01, 0x243185BE, 0x550C7DC3, 0x72BE5D74, 0x80DEB1FE, 0x9BDC06A7, 0xC19BF174,
  0xE49B69C1, 0xEFBE4786, 0x0FC19DC6, 0x240CA1CC, 0x2DE92C6F, 0x4A7484AA, 0x5CB0A9DC, 0x76F988DA,
  0x983E5152, 0xA831C66D, 0xB00327C8, 0xBF597FC7, 0xC6E00BF3, 0xD5A79147, 0x06CA6351, 0x14292967,
  0x27B70A85, 0x2E1B2138, 0x4D2C6DFC, 0x53380D13, 0x650A7354, 0x766A0ABB, 0x81C2C92E, 0x92722C85,
  0xA2BFE8A1, 0xA81A664B, 0xC24B8B70, 0xC76C51A3, 0xD192E819, 0xD6990624, 0xF40E3585, 0x106AA070,
  0x19A4C116, 0x1E376C08, 0x2748774C, 0x34B0BCB5, 0x391C0CB3, 0x4ED8AA4A, 0x5B9CCA4F, 0x682E6FF3,
  0x748F82EE, 0x78A5636F, 0x84C87814, 0x8CC70208, 0x90BEFFFA, 0xA4506CEB, 0xBEF9A3F7, 0xC67178F2]

def GET_UINT32_BE (b : Bytes) (i : Nat) : UInt32 :=
  (b.getD i 0).toUInt32 <<< 24 ||| (b.getD (i + 1) 0).toUInt32 <<< 16 ||| (b.getD (i + 2) 0).toUInt32 <<< 8 |||
    (b.getD (i + 3) 0).toUInt32

/-- The bytes of `u.num` from `u.b[3]` down; memory is little-endian. -/
def PUT_UINT32_BE (n : UInt32) (data : Bytes) (offset : Nat) : Bytes :=
  (((data.set offset (n >>> 24).toUInt8).set (offset + 1) (n >>> 16).toUInt8).set (offset + 2) (n >>> 8).toUInt8).set
    (offset + 3) n.toUInt8

/-- The arrays of a computation: the registers `A[8]` and the schedule `W[64]`. -/
structure Work where
  A : List UInt32
  W : List UInt32

/-- `W[t]` is assigned. -/
def R (t : Nat) (work : Work) : Work :=
  let W := work.W
  { work with W := W.set t (S1 (W.getD (t - 2) 0) + W.getD (t - 7) 0 + S0 (W.getD (t - 15) 0) + W.getD (t - 16) 0) }

/-- The arguments `a` to `h` are the registers at these indices. -/
def P (a b c d e f g h : Nat) (x k : UInt32) (A : List UInt32) : List UInt32 :=
  let temp1 := A.getD h 0 + S3 (A.getD e 0) + F1 (A.getD e 0) (A.getD f 0) (A.getD g 0) + k + x
  let temp2 := S2 (A.getD a 0) + F0 (A.getD a 0) (A.getD b 0) (A.getD c 0)
  (A.set d (A.getD d 0 + temp1)).set h (temp1 + temp2)

/-- The indices of a line of the unrolled rounds; every eighth line has the same. -/
def lineP (t : Nat) : UInt32 → UInt32 → List UInt32 → List UInt32 :=
  match t % 8 with
  | 0 => P 0 1 2 3 4 5 6 7
  | 1 => P 7 0 1 2 3 4 5 6
  | 2 => P 6 7 0 1 2 3 4 5
  | 3 => P 5 6 7 0 1 2 3 4
  | 4 => P 4 5 6 7 0 1 2 3
  | 5 => P 3 4 5 6 7 0 1 2
  | 6 => P 2 3 4 5 6 7 0 1
  | _ => P 1 2 3 4 5 6 7 0

/-- The line of round `t`: it takes `W[t]`, or from the sixteenth on `R(t)`. -/
def line (work : Work) (t : Nat) : Work :=
  let work := if t < 16 then work else R t work
  { work with A := lineP t (work.W.getD t 0) (K.getD t 0) work.A }

/-- The lines before that of round `count`. -/
def lines (count : Nat) (work : Work) : Work := (List.range count).foldl line work

/-! ### The functions -/

/-- `_sha256_context`. -/
structure Context where
  buffer : Bytes
  state : List UInt32

/-- `{ 0 }` -/
def Context.zero : Context := { buffer := List.replicate 64 0, state := List.replicate 8 0 }

def H : List UInt32 := [0x6A09E667, 0xBB67AE85, 0x3C6EF372, 0xA54FF53A, 0x510E527F, 0x9B05688C, 0x1F83D9AB, 0x5BE0CD19]

/-- The words read from a buffer, at so many offsets. -/
def getWords (count : Nat) (b : Bytes) : List UInt32 := (List.range count).map fun i => GET_UINT32_BE b (4 * i)

/-- What `W` holds behind the sixteenth word is what the stack held. -/
def calc_midstate (stack : Vector UInt32 48) (buf_ptr : Bytes) (midstate : Context) : Context :=
  let work := lines 64 { A := H, W := getWords 16 buf_ptr ++ stack.toList }
  { state := List.zipWith (· + ·) H work.A
    buffer := (buf_ptr.drop 64).take 12 ++ (midstate.buffer.set 16 0x80).drop 12 }

/-- A byte of the hash and one of the target: `return false` and `return true` are errors. -/
def checkByte (temp3 temp4 : UInt8) : Except Bool Unit :=
  if temp4 < temp3 then .error false
  else if temp4 > temp3 then .error true
  else .ok ()

def CHECK_BYTES (target : Bytes) (sum : UInt32) (offset : Nat) : Except Bool Unit :=
  (List.range 4).forM fun i =>
    checkByte (sum >>> (UInt32.ofNat (i * 8)) &&& 0xff).toUInt8 (target.getD (offset + i) 0)

/-- The eight words of the first hash are put into the buffer. -/
def putWords (values : List UInt32) (buffer : Bytes) : Bytes :=
  (List.range 8).foldl (fun buffer i => PUT_UINT32_BE (values.getD i 0) buffer (4 * i)) buffer

/-- The rounds of the second hash that are left after round 60, and the comparison. -/
def finish (target : Bytes) (work : Work) : Except Bool Unit := do
  CHECK_BYTES target (0x5BE0CD19 + work.A.getD 7 0) 0
  let work := line work 61
  CHECK_BYTES target (0x1F83D9AB + work.A.getD 6 0) 4
  let work := line work 62
  CHECK_BYTES target (0x9B05688C + work.A.getD 5 0) 8
  let work := line work 63
  CHECK_BYTES target (0x510E527F + work.A.getD 4 0) 12
  CHECK_BYTES target (0xA54FF53A + work.A.getD 3 0) 16
  CHECK_BYTES target (0x3C6EF372 + work.A.getD 2 0) 20
  CHECK_BYTES target (0xBB67AE85 + work.A.getD 1 0) 24
  CHECK_BYTES target (0x6A09E667 + work.A.getD 0 0) 28

/-- What is returned in the comparison, or behind it. -/
def returned : Except Bool Unit → Bool
  | .error result => result
  | .ok () => true

/-- The padding of the second block of a header, as it stands in `W`. -/
def headerPadding : List UInt32 := [0x80000000, 0, 0, 0, 0, 0, 0, 0, 0, 0, 0, 640]

/-- The rounds of the first hash: the header's second block on the cached state. -/
def firstRounds (midstate : Context) : Work :=
  lines 64 {
    A := midstate.state
    W := getWords 4 midstate.buffer ++ headerPadding ++ List.replicate 48 0 }

/-- The buffer with the first hash, for the second. -/
def firstHash (midstate : Context) : Bytes :=
  (putWords (List.zipWith (· + ·) midstate.state (firstRounds midstate).A) midstate.buffer).set 32 0x80

def verify_nonce (midstate : Context) (target : Bytes) : Bool × Context :=
  let buffer := firstHash midstate
  let work := lines 61 { A := H, W := getWords 14 buffer ++ [0, 256] ++ (firstRounds midstate).W.drop 16 }
  (returned (finish target work), { midstate with buffer := buffer })

def nonce_get (midstate : Context) : UInt32 :=
  (midstate.buffer.getD 12 0).toUInt32 ||| (midstate.buffer.getD 13 0).toUInt32 <<< 8 |||
    (midstate.buffer.getD 14 0).toUInt32 <<< 16 ||| (midstate.buffer.getD 15 0).toUInt32 <<< 24

def nonce_set (midstate : Context) (nonce : UInt32) : Context :=
  { midstate with buffer := midstate.buffer.take 12 ++ Bytes.ofWords [nonce] ++ midstate.buffer.drop 16 }

/-! ### Rounds -/

theorem F0_eq_Maj (x y z : UInt32) : F0 x y z = Sha256.Maj x y z := by
  apply UInt32.toBitVec_inj.mp
  apply BitVec.eq_of_getLsbD_eq
  intro i bound
  simp only [F0, Sha256.Maj, UInt32.toBitVec_or, UInt32.toBitVec_and, UInt32.toBitVec_xor, BitVec.getLsbD_or,
    BitVec.getLsbD_and, BitVec.getLsbD_xor]
  cases x.toBitVec.getLsbD i <;> cases y.toBitVec.getLsbD i <;> cases z.toBitVec.getLsbD i <;> rfl

theorem F1_eq_Ch (x y z : UInt32) : F1 x y z = Sha256.Ch x y z := by
  apply UInt32.toBitVec_inj.mp
  apply BitVec.eq_of_getLsbD_eq
  intro i bound
  simp only [F1, Sha256.Ch, UInt32.toBitVec_not, UInt32.toBitVec_and, UInt32.toBitVec_xor, BitVec.getLsbD_not,
    BitVec.getLsbD_and, BitVec.getLsbD_xor, bound, decide_true, Bool.true_and]
  cases x.toBitVec.getLsbD i <;> cases y.toBitVec.getLsbD i <;> cases z.toBitVec.getLsbD i <;> rfl

theorem SHR_eq (x n : UInt32) : SHR x n = x >>> n := by
  have all : x &&& 0xFFFFFFFF = x := UInt32.and_neg_one
  rw [SHR, all]

theorem S0_eq (x : UInt32) : S0 x = Sha256.sigma0 x := by
  rw [S0, SHR_eq]
  rfl

theorem S1_eq (x : UInt32) : S1 x = Sha256.sigma1 x := by
  rw [S1, SHR_eq]
  rfl

theorem K_eq : K = Sha256.K := rfl

/-- A line is one round, with the registers turned by one place. -/
theorem lineP_turned (t : Nat) (vars : Vars) (x k : UInt32) :
    lineP t x k (vars.toList.rotate t) = (Sha256.step vars k x).toList.rotate (t + 1) := by
  have small := Nat.mod_lt t (Nat.succ_pos 7)
  have turns : vars.toList.rotate t = vars.toList.rotate (t % 8) := (List.rotate_mod vars.toList t).symm
  have next : (Sha256.step vars k x).toList.rotate (t + 1) =
      (Sha256.step vars k x).toList.rotate ((t % 8 + 1) % 8) := by
    rw [← List.rotate_mod _ (t + 1)]
    congr 1
    show (t + 1) % 8 = (t % 8 + 1) % 8
    omega
  rw [turns, next, lineP]
  generalize t % 8 = r at small
  interval_cases r <;> simp only [P, F0_eq_Maj, F1_eq_Ch] <;> rfl

/-- The arrays before the line of a round: the registers are the working variables, turned, and
    the schedule is there as far as it has been used. -/
structure Follows (state : Vars) (block : List UInt32) (t : Nat) (work : Work) : Prop where
  registers : work.A = (Sha256.rounds state (schedule block) t).toList.rotate t
  size : work.W.length = 64
  filled : ∀ i < max 16 t, work.W.getD i 0 = (schedule block).getD i 0

section
variable {state : Vars} {block : List UInt32} {t : Nat} {work : Work}

/-- `R(t)` is the recurrence of the schedule. -/
theorem R_follows (sixteen : block.length = 16) (later : 16 ≤ t) (within : t < 64) (follows : Follows state block t work) :
    (R t work).A = work.A ∧ (R t work).W.length = 64 ∧
      ∀ i < t + 1, (R t work).W.getD i 0 = (schedule block).getD i 0 := by
  refine ⟨rfl, by simp [R, follows.size], ?_⟩
  intro i inside
  have earlier : ∀ j < t, work.W.getD j 0 = (schedule block).getD j 0 := fun j before => follows.filled j (by omega)
  by_cases last : i = t
  · subst last
    rw [schedule_recurrence sixteen later within, R]
    simp only [S0_eq, S1_eq, earlier _ (show i - 2 < i by omega), earlier _ (show i - 7 < i by omega),
      earlier _ (show i - 15 < i by omega), earlier _ (show i - 16 < i by omega)]
    simp [List.getD, List.getElem?_set, follows.size, within]
  · rw [← earlier i (by omega), R]
    simp [List.getD, List.getElem?_set, Ne.symm last]

theorem line_follows (sixteen : block.length = 16) (within : t < 64) (follows : Follows state block t work) :
    Follows state block (t + 1) (line work t) := by
  have turned : ∀ word, word = (schedule block).getD t 0 → lineP t word (K.getD t 0) work.A =
      (Sha256.rounds state (schedule block) (t + 1)).toList.rotate (t + 1) := by
    intro word same
    rw [follows.registers, lineP_turned, same, K_eq, Sha256.rounds]
  by_cases first : t < 16
  · have same : line work t = { work with A := lineP t (work.W.getD t 0) (K.getD t 0) work.A } := by
      simp [line, first]
    rw [same]
    refine ⟨turned _ (follows.filled t (by omega)), follows.size, ?_⟩
    intro i inside
    exact follows.filled i (by omega)
  · obtain ⟨kept, size, filled⟩ := R_follows sixteen (Nat.le_of_not_lt first) within follows
    have same : line work t = { A := lineP t ((R t work).W.getD t 0) (K.getD t 0) work.A, W := (R t work).W } := by
      simp [line, first, kept]
    rw [same]
    refine ⟨turned _ (filled t (Nat.lt_succ_self t)), size, ?_⟩
    intro i inside
    exact filled i (by omega)

theorem lines_follow (sixteen : block.length = 16) (start : Follows state block 0 work) {count : Nat}
    (most : count ≤ 64) : Follows state block count (lines count work) := by
  induction count with
  | zero => exact start
  | succ count ih =>
    rw [lines, List.range_succ, List.foldl_append]
    exact line_follows sixteen most (ih (Nat.le_of_succ_le most))

/-- The arrays as they are filled for a block. -/
theorem follows_start (sixteen : block.length = 16) {rest : List UInt32} (size : rest.length = 48) :
    Follows state block 0 { A := state.toList, W := block ++ rest } := by
  refine ⟨(List.rotate_zero _).symm, by simp [sixteen, size], ?_⟩
  intro i inside
  have within : i < block.length := by omega
  rw [schedule_input within, List.getD_append _ _ _ _ within]

/-- All lines, and the state is added. -/
theorem lines_compress (sixteen : block.length = 16) (start : Follows state block 0 work) :
    List.zipWith (· + ·) state.toList (lines 64 work).A = (Sha256.compress state block).toList := by
  have turned := (lines_follow sixteen start (Nat.le_refl 64)).registers
  have whole (vars : Vars) : vars.toList.rotate 64 = vars.toList := List.rotate_length_mul vars.toList 8
  rw [turned, whole]
  rfl

end

/-! ### Buffers -/

theorem getWords_eq (count : Nat) (b : Bytes) (inside : 4 * count ≤ b.length) :
    getWords count b = words (b.take (4 * count)) := by
  induction count generalizing b with
  | zero => simp [getWords, words]
  | succ count ih =>
    rcases b with _ | ⟨b0, _ | ⟨b1, _ | ⟨b2, _ | ⟨b3, rest⟩⟩⟩⟩
    · simp at inside
    · simp at inside; omega
    · simp at inside; omega
    · simp at inside; omega
    · have later := ih rest (by simp only [List.length_cons] at inside; omega)
      have shifted (i : Nat) :
          GET_UINT32_BE (b0 :: b1 :: b2 :: b3 :: rest) (4 * (i + 1)) = GET_UINT32_BE rest (4 * i) := rfl
      rw [show 4 * (count + 1) = 4 * count + 1 + 1 + 1 + 1 by omega]
      simp only [List.take_succ_cons, words, ← later, getWords, List.range_succ_eq_map, List.map_cons, List.map_map]
      simp only [Function.comp_def, Nat.succ_eq_add_one, shifted]
      rfl

theorem PUT_UINT32_BE_append (n : UInt32) (front : Bytes) {rest : Bytes} (four : 4 ≤ rest.length) :
    PUT_UINT32_BE n (front ++ rest) front.length = front ++ beBytes n ++ rest.drop 4 := by
  rcases rest with _ | ⟨b0, _ | ⟨b1, _ | ⟨b2, _ | ⟨b3, rest⟩⟩⟩⟩
  · simp at four
  · simp at four
  · simp at four
  · simp at four
  · simp [PUT_UINT32_BE, beBytes, List.set_append_right]

theorem putWords_eq {values : List UInt32} (eight : values.length = 8) {buffer : Bytes} (size : 32 ≤ buffer.length) :
    putWords values buffer = values.flatMap beBytes ++ buffer.drop 32 := by
  have steps : ∀ n ≤ 8, (List.range n).foldl (fun buffer i => PUT_UINT32_BE (values.getD i 0) buffer (4 * i)) buffer =
      (values.take n).flatMap beBytes ++ buffer.drop (4 * n) := by
    intro n most
    induction n with
    | zero => simp
    | succ n ih =>
      have length : ((values.take n).flatMap beBytes).length = 4 * n := by
        rw [Sha256.length_flatMap_beBytes, List.length_take]
        omega
      have one_more : values.take (n + 1) = values.take n ++ [values.getD n 0] := by
        have inside : n < values.length := by omega
        rw [List.take_succ_eq_append_getElem inside, List.getD_eq_getElem _ _ inside]
      have left : 4 ≤ (buffer.drop (4 * n)).length := by
        rw [List.length_drop]
        omega
      have put := PUT_UINT32_BE_append (values.getD n 0) ((values.take n).flatMap beBytes) left
      rw [length, List.drop_drop] at put
      rw [List.range_succ, List.foldl_append, ih (by omega), List.foldl_cons, List.foldl_nil, put, one_more,
        List.flatMap_append, Nat.mul_succ]
      simp
  rw [putWords, steps 8 (Nat.le_refl 8), List.take_of_length_le (Nat.le_of_eq eight)]

/-! ### Comparison -/

/-- A hash and a target, both from the most significant byte on. -/
def compareBytes : Bytes → Bytes → Except Bool Unit
  | byte :: hash, bound :: target => do
    checkByte byte bound
    compareBytes hash target
  | _, _ => .ok ()

theorem returned_compareBytes {hash target : Bytes} (size : hash.length = target.length) :
    returned (compareBytes hash target) = decide (beNat hash ≤ beNat target) := by
  induction hash generalizing target with
  | nil => simp [compareBytes, returned, beNat]
  | cons byte hash ih =>
    rcases target with _ | ⟨bound, target⟩
    · simp at size
    · have same : hash.length = target.length := Nat.succ.inj size
      have hash_lt := Sha256.beNat_lt hash
      have target_lt := Sha256.beNat_lt target
      rw [compareBytes, beNat, beNat, checkByte]
      rw [same] at hash_lt ⊢
      by_cases above : bound < byte
      · have step := UInt8.lt_iff_toNat_lt.mp above
        have larger :
            ¬ byte.toNat * 256 ^ target.length + beNat hash ≤ bound.toNat * 256 ^ target.length + beNat target := by
          nlinarith
        rw [if_pos above, decide_eq_false larger]
        rfl
      · by_cases below : bound > byte
        · have step := UInt8.lt_iff_toNat_lt.mp below
          have smaller :
              byte.toNat * 256 ^ target.length + beNat hash ≤ bound.toNat * 256 ^ target.length + beNat target := by
            nlinarith
          rw [if_neg above, if_pos below, decide_eq_true smaller]
          rfl
        · have equal : bound = byte := UInt8.le_antisymm (UInt8.not_lt.mp below) (UInt8.not_lt.mp above)
          have rest := ih same
          rw [if_neg above, if_neg below, equal]
          show returned (compareBytes hash target) = _
          simpa using rest

theorem compareBytes_append {hash bound : Bytes} (size : hash.length = bound.length) (hash' bound' : Bytes) :
    compareBytes (hash ++ hash') (bound ++ bound') = (compareBytes hash bound >>= fun _ => compareBytes hash' bound') := by
  induction hash generalizing bound with
  | nil =>
    rw [List.length_eq_zero_iff.mp size.symm]
    rfl
  | cons byte hash ih =>
    rcases bound with _ | ⟨limit, bound⟩
    · simp at size
    · rw [List.cons_append, List.cons_append, compareBytes, compareBytes, ih (Nat.succ.inj size), bind_assoc]

theorem low_byte (x : UInt32) : (x &&& 0xff).toUInt8 = x.toUInt8 := by
  rw [UInt32.toUInt8_and]
  exact UInt8.and_neg_one

/-- The macro compares the bytes of a word from the last. -/
theorem CHECK_BYTES_eq (target : Bytes) (sum : UInt32) {offset : Nat} (inside : offset + 4 ≤ target.length) :
    CHECK_BYTES target sum offset = compareBytes (beBytes sum).reverse ((target.drop offset).take 4) := by
  have behind (i : Nat) : target.getD (offset + i) 0 = (target.drop offset).getD i 0 := by
    simp [List.getD, List.getElem?_drop]
  have four : 4 ≤ (target.drop offset).length := by
    rw [List.length_drop]
    omega
  simp only [CHECK_BYTES, behind, low_byte]
  generalize target.drop offset = rest at four
  rcases rest with _ | ⟨b0, _ | ⟨b1, _ | ⟨b2, _ | ⟨b3, rest⟩⟩⟩⟩
  · simp at four
  · simp at four
  · simp at four
  · simp at four
  · have first : sum >>> UInt32.ofNat (0 * 8) = sum := UInt32.shiftRight_zero
    show (do
      checkByte (sum >>> UInt32.ofNat (0 * 8)).toUInt8 b0
      checkByte (sum >>> 8).toUInt8 b1
      checkByte (sum >>> 16).toUInt8 b2
      checkByte (sum >>> 24).toUInt8 b3
      pure ()) = _
    rw [first]
    rfl

theorem compareBytes_word (target : Bytes) (sum : UInt32) {offset : Nat} (inside : offset + 4 ≤ target.length)
    (hash : Bytes) : compareBytes ((beBytes sum).reverse ++ hash) (target.drop offset) =
      (CHECK_BYTES target sum offset >>= fun _ => compareBytes hash (target.drop (offset + 4))) := by
  have length : (beBytes sum).reverse.length = ((target.drop offset).take 4).length := by
    rw [List.length_reverse, Sha256.length_beBytes, List.length_take, List.length_drop]
    omega
  have cut : target.drop offset = (target.drop offset).take 4 ++ target.drop (offset + 4) := by
    rw [← List.drop_drop, List.take_append_drop]
  rw [CHECK_BYTES_eq target sum inside, ← compareBytes_append length, ← cut]

/-- All bytes of a state are compared, from the last. -/
theorem compare_state (state : Vars) {target : Bytes} (size : target.length = 32) :
    compareBytes (Sha256.digest state).reverse target = (do
      CHECK_BYTES target state.h 0
      CHECK_BYTES target state.g 4
      CHECK_BYTES target state.f 8
      CHECK_BYTES target state.e 12
      CHECK_BYTES target state.d 16
      CHECK_BYTES target state.c 20
      CHECK_BYTES target state.b 24
      CHECK_BYTES target state.a 28) := by
  have reversed : (Sha256.digest state).reverse = (beBytes state.h).reverse ++ ((beBytes state.g).reverse ++
      ((beBytes state.f).reverse ++ ((beBytes state.e).reverse ++ ((beBytes state.d).reverse ++
      ((beBytes state.c).reverse ++ ((beBytes state.b).reverse ++ ((beBytes state.a).reverse ++ []))))))) := rfl
  have ends (checked : Except Bool Unit) : (checked >>= fun _ => compareBytes [] (target.drop 32)) = checked := by
    cases checked <;> rfl
  show compareBytes _ (target.drop 0) = _
  rw [reversed, compareBytes_word _ _ (by omega), compareBytes_word _ _ (by omega),
    compareBytes_word _ _ (by omega), compareBytes_word _ _ (by omega), compareBytes_word _ _ (by omega),
    compareBytes_word _ _ (by omega), compareBytes_word _ _ (by omega), compareBytes_word _ _ (by omega), ends]

/-! ### The second hash -/

/-- The comparison between the last rounds is the comparison with the whole hash: a register is
    final once it has been `d`. -/
theorem finish_eq {block : List UInt32} (sixteen : block.length = 16) {work : Work}
    (follows : Follows Sha256.initial block 61 work) {target : Bytes} (size : target.length = 32) :
    finish target work = compareBytes (Sha256.digest (Sha256.compress Sha256.initial block)).reverse target := by
  have turned (vars : Vars) (i : Nat) : vars.toList.rotate i = vars.toList.rotate (i % 8) :=
    (List.rotate_mod vars.toList i).symm
  have after61 := line_follows sixteen (show 61 < 64 by omega) follows
  have after62 := line_follows sixteen (show 62 < 64 by omega) after61
  have after63 := line_follows sixteen (show 63 < 64 by omega) after62
  have last : work.A.getD 7 0 = (Sha256.rounds Sha256.initial (schedule block) 64).h := by
    rw [follows.registers, turned]
    rfl
  have next : (line work 61).A.getD 6 0 = (Sha256.rounds Sha256.initial (schedule block) 64).g := by
    rw [after61.registers, turned]
    rfl
  have third : (line (line work 61) 62).A.getD 5 0 = (Sha256.rounds Sha256.initial (schedule block) 64).f := by
    rw [after62.registers, turned]
    rfl
  have others : (line (line (line work 61) 62) 63).A = (Sha256.rounds Sha256.initial (schedule block) 64).toList := by
    rw [after63.registers, turned]
    rfl
  rw [compare_state _ size]
  simp only [finish, last, next, third, others]
  rfl

/-! ### Headers -/

/-- The header with another nonce. -/
def withNonce (header : Bytes) (nonce : UInt32) : Bytes := header.take 76 ++ Bytes.ofWords [nonce]

/-- The nonce of a header. -/
def nonceOf (header : Bytes) : UInt32 := (Bytes.toWords (header.drop 76)).headD 0

/-- The second block of a header, as it is hard-wired. -/
theorem hash_header {header : Bytes} (size : header.length = 80) :
    Sha256.hash header = Sha256.digest (Sha256.compress
      (Sha256.compress Sha256.initial (words (header.take 64)))
      (words (header.drop 64) ++ headerPadding)) := by
  have padded : Sha256.pad header = header ++ (0x80 :: List.replicate 39 0 ++ Sha256.bitLength 80) := by
    rw [Sha256.pad, size, List.append_assoc]
  have blocks : (Sha256.pad header).length / 64 = 2 := by
    rw [padded, List.length_append, size]
    rfl
  have first : (Sha256.pad header).take 64 = header.take 64 := by
    rw [padded, List.take_append_of_le_length (by omega)]
  have second : (Sha256.pad header).drop 64 = header.drop 64 ++ (0x80 :: List.replicate 39 0 ++ Sha256.bitLength 80) := by
    rw [padded, List.drop_append_of_le_length (by omega)]
  have whole : (header.drop 64 ++ (0x80 :: List.replicate 39 0 ++ Sha256.bitLength 80)).take 64 =
      header.drop 64 ++ (0x80 :: List.replicate 39 0 ++ Sha256.bitLength 80) := by
    apply List.take_of_length_le
    rw [List.length_append, List.length_drop, size]
    decide
  rw [Sha256.hash, blocks, Sha256.absorb, Sha256.absorb, Sha256.absorb, first, second, whole,
    Sha256.words_append (by rw [List.length_drop, size]; decide)]
  rfl

/-- The only block of a hash. -/
theorem hash_hash {first : Bytes} (size : first.length = 32) :
    Sha256.hash first = Sha256.digest (Sha256.compress Sha256.initial
      (words (first ++ 0x80 :: List.replicate 23 0) ++ [0, 256])) := by
  have padded : Sha256.pad first = first ++ 0x80 :: List.replicate 23 0 ++ Sha256.bitLength 32 := by
    rw [Sha256.pad, size]
  have length : (Sha256.pad first).length = 64 := by
    rw [padded, List.length_append, List.length_append, size]
    rfl
  rw [Sha256.hash, length, Sha256.absorb, Sha256.absorb, List.take_of_length_le (Nat.le_of_eq length), padded,
    Sha256.words_append (by rw [List.length_append, size]; decide)]
  rfl

/-- The state behind the first block of a header. -/
def firstState (header : Bytes) : Vars := Sha256.compress Sha256.initial (words (header.take 64))

theorem calc_midstate_eq (stack : Vector UInt32 48) {header : Bytes} (size : header.length = 80) :
    calc_midstate stack header Context.zero =
      { state := (firstState header).toList
        buffer := (header.drop 64).take 12 ++ ([0, 0, 0, 0, 0x80] ++ List.replicate 47 0) } := by
  have read : getWords 16 header = words (header.take 64) := getWords_eq 16 header (by omega)
  have sixteen : (words (header.take 64)).length = 16 := by
    rw [← read, getWords, List.length_map, List.length_range]
  have start : Follows Sha256.initial (words (header.take 64)) 0 { A := H, W := words (header.take 64) ++ stack.toList } :=
    follows_start sixteen (by simp)
  have state := lines_compress sixteen start
  rw [calc_midstate, read, firstState, ← state]
  rfl

theorem nonce_set_eq {front : Bytes} (twelve : front.length = 12) (b0 b1 b2 b3 : UInt8) (rest : Bytes)
    (state : List UInt32) (nonce : UInt32) :
    nonce_set { buffer := front ++ (b0 :: b1 :: b2 :: b3 :: rest), state := state } nonce =
      { buffer := front ++ (Bytes.ofWords [nonce] ++ rest), state := state } := by
  have behind : (front ++ (b0 :: b1 :: b2 :: b3 :: rest)).drop 16 = rest := by
    rw [List.drop_append, twelve, List.drop_of_length_le (by omega)]
    rfl
  rw [nonce_set, List.take_left' twelve, behind, List.append_assoc]

theorem nonce_get_eq {front : Bytes} (twelve : front.length = 12) (rest : Bytes) (state : List UInt32) (nonce : UInt32) :
    nonce_get { buffer := front ++ (Bytes.ofWords [nonce] ++ rest), state := state } = nonce := by
  have at12 (i : Nat) : (front ++ (Bytes.ofWords [nonce] ++ rest)).getD (12 + i) 0 =
      (Bytes.ofWords [nonce] ++ rest).getD i 0 := by
    rw [List.getD_append_right _ _ _ _ (by omega), twelve, Nat.add_sub_cancel_left]
  have joined := Bytes.join_split32 nonce
  rw [nonce_get, at12 0, at12 1, at12 2, at12 3]
  exact joined

/-- The context for a nonce, on the cached state of a header. -/
def prepared (header : Bytes) (nonce : UInt32) : Context where
  buffer := (header.drop 64).take 12 ++ (Bytes.ofWords [nonce] ++ (0x80 :: List.replicate 47 0))
  state := (firstState header).toList

theorem length_withNonce {header : Bytes} (size : header.length = 80) (nonce : UInt32) :
    (withNonce header nonce).length = 80 := by
  rw [withNonce, List.length_append, List.length_take, Bytes.length_ofWords, size]
  rfl

theorem withNonce_take {header : Bytes} (size : header.length = 80) (nonce : UInt32) :
    (withNonce header nonce).take 64 = header.take 64 := by
  rw [withNonce, List.take_append_of_le_length (by rw [List.length_take]; omega), List.take_take]
  rfl

theorem withNonce_drop {header : Bytes} (size : header.length = 80) (nonce : UInt32) :
    (withNonce header nonce).drop 64 = (header.drop 64).take 12 ++ Bytes.ofWords [nonce] := by
  rw [withNonce, List.drop_append_of_le_length (by rw [List.length_take]; omega), List.drop_take]

theorem prepared_buffer {header : Bytes} (size : header.length = 80) (nonce : UInt32) :
    (prepared header nonce).buffer = (withNonce header nonce).drop 64 ++ 0x80 :: List.replicate 47 0 := by
  rw [withNonce_drop size, List.append_assoc]
  rfl

theorem firstRounds_start {header : Bytes} (size : header.length = 80) (nonce : UInt32) :
    (words ((withNonce header nonce).drop 64) ++ headerPadding).length = 16 ∧
      ∃ start, firstRounds (prepared header nonce) = lines 64 start ∧ Follows (firstState header)
        (words ((withNonce header nonce).drop 64) ++ headerPadding) 0 start := by
  have sixteen : ((withNonce header nonce).drop 64).length = 16 := by
    rw [List.length_drop, length_withNonce size]
  have read : getWords 4 (prepared header nonce).buffer = words ((withNonce header nonce).drop 64) := by
    rw [prepared_buffer size, getWords_eq 4 _ (by rw [List.length_append]; omega), List.take_left' sixteen]
  have length : (words ((withNonce header nonce).drop 64) ++ headerPadding).length = 16 := by
    rw [← read, List.length_append, getWords, List.length_map, List.length_range]
    rfl
  refine ⟨length, _, rfl, ?_⟩
  rw [read]
  exact follows_start length (List.length_replicate ..)

/-- The buffer holds the first hash, with the beginning of its padding. -/
theorem firstHash_eq {header : Bytes} (size : header.length = 80) (nonce : UInt32) :
    firstHash (prepared header nonce) = Sha256.hash (withNonce header nonce) ++ 0x80 :: List.replicate 31 0 := by
  obtain ⟨length, start, run, follows⟩ := firstRounds_start size nonce
  have sixteen : ((withNonce header nonce).drop 64).length = 16 := by
    rw [List.length_drop, length_withNonce size]
  have room : 32 ≤ (prepared header nonce).buffer.length := by
    rw [prepared_buffer size, List.length_append, sixteen]
    decide
  have behind : (prepared header nonce).buffer.drop 32 = 0 :: List.replicate 31 0 := by
    rw [prepared_buffer size, List.drop_append, sixteen, List.drop_of_length_le (by omega)]
    rfl
  have hashed : (Sha256.compress (firstState header) (words ((withNonce header nonce).drop 64) ++
      headerPadding)).toList.flatMap beBytes = Sha256.hash (withNonce header nonce) := by
    rw [hash_header (length_withNonce size nonce), withNonce_take size]
    rfl
  have state : List.zipWith (· + ·) (prepared header nonce).state (lines 64 start).A = _ := lines_compress length follows
  rw [firstHash, run, state, putWords_eq rfl room, behind, hashed]
  have thirtytwo : (Sha256.hash (withNonce header nonce)).length = 32 := rfl
  rw [List.set_append_right _ _ (Nat.le_of_eq thirtytwo), thirtytwo]
  rfl

theorem verify_nonce_prepared {header : Bytes} (size : header.length = 80) (nonce : UInt32) {target : Bytes}
    (thirtytwo : target.length = 32) :
    (verify_nonce (prepared header nonce) target).1 =
      decide (beNat (Sha256.hash (Sha256.hash (withNonce header nonce))).reverse ≤ beNat target) := by
  obtain ⟨length, start, run, follows⟩ := firstRounds_start size nonce
  have hash_size : (Sha256.hash (withNonce header nonce)).length = 32 := rfl
  have read : getWords 14 (firstHash (prepared header nonce)) =
      words (Sha256.hash (withNonce header nonce) ++ 0x80 :: List.replicate 23 0) := by
    rw [firstHash_eq size, getWords_eq 14 _ (by rw [List.length_append, hash_size]; decide), List.take_append, hash_size,
      List.take_of_length_le (by omega)]
    rfl
  have sixteen : (words (Sha256.hash (withNonce header nonce) ++ 0x80 :: List.replicate 23 0) ++ [0, 256]).length = 16 := by
    rw [← read, List.length_append, getWords, List.length_map, List.length_range]
    rfl
  have rest : ((firstRounds (prepared header nonce)).W.drop 16).length = 48 := by
    rw [run, List.length_drop, (lines_follow length follows (Nat.le_refl 64)).size]
  have begun : Follows Sha256.initial _ 0 _ := follows_start sixteen rest
  have reached := lines_follow sixteen begun (show 61 ≤ 64 by omega)
  rw [verify_nonce, read]
  have compared := finish_eq sixteen reached thirtytwo
  show returned (finish target (lines 61 { A := Sha256.initial.toList, W := _ })) = _
  rw [compared, ← hash_hash hash_size]
  exact returned_compareBytes (by rw [List.length_reverse, thirtytwo]; rfl)

/-! ### Tests of nonces -/

/-- `midstate_cached` of a task, and the copy of it that was tested last. -/
structure Tested where
  midstate_cached : Context
  ctx : Context

/-- A nonce is set in the cached context; the test is on a copy of that. -/
def test (target : Bytes) (s : Tested) (nonce : UInt32) : Bool × Tested :=
  let midstate_cached := nonce_set s.midstate_cached nonce
  let tested := verify_nonce midstate_cached target
  (tested.1, { midstate_cached := midstate_cached, ctx := tested.2 })

def tests (target : Bytes) (s : Tested) (nonces : List UInt32) : Tested :=
  nonces.foldl (fun s nonce => (test target s nonce).2) s

/-- The cached context between tests is that of a nonce. -/
def Cached (header : Bytes) (midstate_cached : Context) : Prop :=
  ∃ b0 b1 b2 b3, midstate_cached = {
    buffer := (header.drop 64).take 12 ++ (b0 :: b1 :: b2 :: b3 :: 0x80 :: List.replicate 47 0)
    state := (firstState header).toList }

theorem cached_start (stack : Vector UInt32 48) {header : Bytes} (size : header.length = 80) :
    Cached header (calc_midstate stack header Context.zero) := ⟨0, 0, 0, 0, calc_midstate_eq stack size⟩

theorem cached_set {header : Bytes} (size : header.length = 80) {midstate_cached : Context}
    (cached : Cached header midstate_cached) (nonce : UInt32) :
    nonce_set midstate_cached nonce = prepared header nonce := by
  obtain ⟨b0, b1, b2, b3, rfl⟩ := cached
  exact nonce_set_eq (by rw [List.length_take, List.length_drop]; omega) ..

theorem cached_prepared (header : Bytes) (nonce : UInt32) : Cached header (prepared header nonce) := ⟨_, _, _, _, rfl⟩

theorem cached_tests {header : Bytes} (size : header.length = 80) (target : Bytes) (nonces : List UInt32) {s : Tested}
    (cached : Cached header s.midstate_cached) :
    Cached header (tests target s nonces).midstate_cached := by
  induction nonces generalizing s with
  | nil => exact cached
  | cons nonce later ih =>
    apply ih
    show Cached header (nonce_set s.midstate_cached nonce)
    rw [cached_set size cached]
    exact cached_prepared header nonce

theorem nonce_get_prepared {header : Bytes} (size : header.length = 80) (nonce : UInt32) :
    nonce_get (prepared header nonce) = nonce :=
  nonce_get_eq (by rw [List.length_take, List.length_drop]; omega) ..

theorem nonceOf_withNonce {header : Bytes} (size : header.length = 80) (nonce : UInt32) :
    nonceOf (withNonce header nonce) = nonce := by
  have length : (header.take 76).length = 76 := by
    rw [List.length_take, size]
    rfl
  rw [nonceOf, withNonce, List.drop_left' length, Bytes.toWords_ofWords]
  rfl

theorem withNonce_nonceOf {header : Bytes} (size : header.length = 80) : withNonce header (nonceOf header) = header := by
  obtain ⟨back, count⟩ := Bytes.ofWords_toWords 1 (header.drop 76) (by rw [List.length_drop, size])
  obtain ⟨nonce, one⟩ := List.length_eq_one_iff.mp count
  rw [withNonce, nonceOf, one]
  rw [one] at back
  show header.take 76 ++ Bytes.ofWords [nonce] = header
  rw [back, List.take_append_drop]

/-- A header is tested by its hash: the context prepared for it says whether the double hash, as
    a big-endian number, is at most the target. After any tests of other nonces on copies, the
    test of a nonce still says this of the header with that nonce, which is the one that can be
    read from the cached context. -/
theorem optimised_hash_is_hash (stack : Vector UInt32 48) (header : Vector UInt8 80) (target : Vector UInt8 32) :
    ((verify_nonce (nonce_set (calc_midstate stack header.toList Context.zero) (nonceOf header.toList))
          target.toList).1 = true ↔
        beNat (Sha256.hash (Sha256.hash header.toList)).reverse ≤ beNat target.toList) ∧
      ∀ (nonces : List UInt32) (nonce : UInt32),
        let cached := calc_midstate stack header.toList Context.zero
        let tested := test target.toList (tests target.toList { midstate_cached := cached, ctx := cached } nonces) nonce
        (tested.1 = true ↔
            beNat (Sha256.hash (Sha256.hash (withNonce header.toList nonce))).reverse ≤ beNat target.toList) ∧
          nonce_get tested.2.midstate_cached = nonce ∧ nonceOf (withNonce header.toList nonce) = nonce := by
  have size : header.toList.length = 80 := Vector.length_toList
  have thirtytwo : target.toList.length = 32 := Vector.length_toList
  constructor
  · rw [cached_set size (cached_start stack size), verify_nonce_prepared size _ thirtytwo, withNonce_nonceOf size,
      decide_eq_true_eq]
  · intro nonces nonce cached tested
    have kept := cached_tests size target.toList nonces (s := ⟨cached, cached⟩) (cached_start stack size)
    have set := cached_set size kept nonce
    refine ⟨?_, ?_, nonceOf_withNonce size nonce⟩
    · show (verify_nonce (nonce_set (tests target.toList ⟨cached, cached⟩ nonces).midstate_cached nonce) _).1 = true ↔ _
      rw [set, verify_nonce_prepared size nonce thirtytwo, decide_eq_true_eq]
    · show nonce_get (nonce_set (tests target.toList ⟨cached, cached⟩ nonces).midstate_cached nonce) = nonce
      rw [set]
      exact nonce_get_prepared size nonce

end PiJade.Miner
