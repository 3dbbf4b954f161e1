import Mathlib.Data.List.GetD
import Mathlib.Logic.Function.Iterate
import Mathlib.Tactic.Linarith
import PiJade.Bytes

/-!
SHA-256 as the standard defines it: the message is padded to whole blocks, each block is expanded
to a schedule of 64 words, and 64 rounds over eight working variables turn one state into the
next. Big-endian words and numbers are here too.
-/
namespace PiJade.Sha256
set_option linter.unusedSimpArgs false

/-! ### Big-endian words -/

def beWord (b0 b1 b2 b3 : UInt8) : UInt32 :=
  b0.toUInt32 <<< 24 ||| b1.toUInt32 <<< 16 ||| b2.toUInt32 <<< 8 ||| b3.toUInt32

def beBytes (word : UInt32) : Bytes :=
  [(word >>> 24).toUInt8, (word >>> 16).toUInt8, (word >>> 8).toUInt8, word.toUInt8]

/-- The words of a byte string. -/
def words : Bytes → List UInt32
  | b0 :: b1 :: b2 :: b3 :: rest => beWord b0 b1 b2 b3 :: words rest
  | _ => []

/-- A byte string as a number. -/
def beNat : Bytes → Nat
  | [] => 0
  | byte :: rest => byte.toNat * 256 ^ rest.length + beNat rest

@[simp] theorem length_beBytes (word : UInt32) : (beBytes word).length = 4 := rfl

theorem words_append {front : Bytes} (whole : 4 ∣ front.length) (back : Bytes) :
    words (front ++ back) = words front ++ words back := by
  fun_induction words front with
  | case1 b0 b1 b2 b3 rest ih =>
    have shorter : 4 ∣ rest.length := by
      simp only [List.length_cons] at whole
      omega
    rw [List.cons_append, List.cons_append, List.cons_append, List.cons_append, words, ih shorter]
    rfl
  | case2 front short =>
    rcases front with _ | ⟨b0, _ | ⟨b1, _ | ⟨b2, _ | ⟨b3, rest⟩⟩⟩⟩
    · rfl
    · simp at whole
    · simp at whole
    · simp at whole
    · exact absurd rfl (short b0 b1 b2 b3 rest)

theorem length_flatMap_beBytes (values : List UInt32) : (values.flatMap beBytes).length = 4 * values.length := by
  induction values with
  | nil => rfl
  | cons value later ih =>
    rw [List.flatMap_cons, List.length_append, ih, length_beBytes, List.length_cons]
    omega

theorem beNat_lt (bytes : Bytes) : beNat bytes < 256 ^ bytes.length := by
  induction bytes with
  | nil => simp [beNat]
  | cons byte rest ih =>
    have bound := byte.toNat_lt
    rw [beNat, List.length_cons, Nat.pow_succ]
    nlinarith

/-! ### The functions -/

def rotr (x n : UInt32) : UInt32 := x >>> n ||| x <<< (32 - n)
def Ch (x y z : UInt32) : UInt32 := (x &&& y) ^^^ (~~~x &&& z)
def Maj (x y z : UInt32) : UInt32 := (x &&& y) ^^^ (x &&& z) ^^^ (y &&& z)
def Sigma0 (x : UInt32) : UInt32 := rotr x 2 ^^^ rotr x 13 ^^^ rotr x 22
def Sigma1 (x : UInt32) : UInt32 := rotr x 6 ^^^ rotr x 11 ^^^ rotr x 25
def sigma0 (x : UInt32) : UInt32 := rotr x 7 ^^^ rotr x 18 ^^^ x >>> 3
def sigma1 (x : UInt32) : UInt32 := rotr x 17 ^^^ rotr x 19 ^^^ x >>> 10

/-- The first 32 bits of the fractional parts of the cube roots of the first 64 primes. -/
def K : List UInt32 := [
  0x428a2f98, 0x71374491, 0xb5c0fbcf, 0xe9b5dba5, 0x3956c25b, 0x59f111f1, 0x923f82a4, 0xab1c5ed5,
  0xd807aa98, 0x12835b01, 0x243185be, 0x550c7dc3, 0x72be5d74, 0x80deb1fe, 0x9bdc06a7, 0xc19bf174,
  0xe49b69c1, 0xefbe4786, 0x0fc19dc6, 0x240ca1cc, 0x2de92c6f, 0x4a7484aa, 0x5cb0a9dc, 0x76f988da,
  0x983e5152, 0xa831c66d, 0xb00327c8, 0xbf597fc7, 0xc6e00bf3, 0xd5a79147, 0x06ca6351, 0x14292967,
  0x27b70a85, 0x2e1b2138, 0x4d2c6dfc, 0x53380d13, 0x650a7354, 0x766a0abb, 0x81c2c92e, 0x92722c85,
  0xa2bfe8a1, 0xa81a664b, 0xc24b8b70, 0xc76c51a3, 0xd192e819, 0xd6990624, 0xf40e3585, 0x106aa070,
  0x19a4c116, 0x1e376c08, 0x2748774c, 0x34b0bcb5, 0x391c0cb3, 0x4ed8aa4a, 0x5b9cca4f, 0x682e6ff3,
  0x748f82ee, 0x78a5636f, 0x84c87814, 0x8cc70208, 0x90befffa, 0xa4506ceb, 0xbef9a3f7, 0xc67178f2]

/-- The working variables, and the state between blocks. -/
structure Vars where
  a : UInt32
  b : UInt32
  c : UInt32
  d : UInt32
  e : UInt32
  f : UInt32
  g : UInt32
  h : UInt32
  deriving DecidableEq, Repr

def Vars.toList (vars : Vars) : List UInt32 :=
  [vars.a, vars.b, vars.c, vars.d, vars.e, vars.f, vars.g, vars.h]

def initial : Vars where
  a := 0x6a09e667
  b := 0xbb67ae85
  c := 0x3c6ef372
  d := 0xa54ff53a
  e := 0x510e527f
  f := 0x9b05688c
  g := 0x1f83d9ab
  h := 0x5be0cd19

/-! ### Blocks -/

/-- One more word of the schedule. -/
def extend (W : List UInt32) : List UInt32 :=
  let t := W.length
  W ++ [sigma1 (W.getD (t - 2) 0) + W.getD (t - 7) 0 + sigma0 (W.getD (t - 15) 0) + W.getD (t - 16) 0]

/-- The schedule of a block of 16 words. -/
def schedule (block : List UInt32) : List UInt32 := extend^[48] block

theorem length_extends (block : List UInt32) (n : Nat) : (extend^[n] block).length = block.length + n := by
  induction n with
  | zero => rfl
  | succ n ih =>
    rw [Function.iterate_succ_apply', extend, List.length_append, ih]
    rfl

/-- The words that are there stay. -/
theorem extends_getD (block : List UInt32) {n m i : Nat} (inside : i < block.length + n) (further : n ≤ m) :
    (extend^[m] block).getD i 0 = (extend^[n] block).getD i 0 := by
  induction m, further using Nat.le_induction with
  | base => rfl
  | succ m further ih =>
    have there : i < (extend^[m] block).length := by
      rw [length_extends]
      omega
    rw [Function.iterate_succ_apply', extend, List.getD_append _ _ _ _ there, ih]

theorem schedule_input {block : List UInt32} {i : Nat} (inside : i < block.length) :
    (schedule block).getD i 0 = block.getD i 0 := extends_getD block inside (Nat.zero_le 48)

/-- The recurrence of the schedule. -/
theorem schedule_recurrence {block : List UInt32} (size : block.length = 16) {t : Nat} (later : 16 ≤ t)
    (within : t < 64) : (schedule block).getD t 0 = sigma1 ((schedule block).getD (t - 2) 0) +
      (schedule block).getD (t - 7) 0 + sigma0 ((schedule block).getD (t - 15) 0) + (schedule block).getD (t - 16) 0 := by
  have earlier : ∀ i < t, (schedule block).getD i 0 = (extend^[t - 16] block).getD i 0 := by
    intro i before
    exact extends_getD block (by omega) (by omega)
  have reached : (extend^[t - 16] block).length = t := by
    rw [length_extends]
    omega
  have new : (schedule block).getD t 0 = (extend^[t - 16 + 1] block).getD t 0 :=
    extends_getD block (by omega) (by omega)
  rw [new, earlier _ (by omega), earlier _ (by omega), earlier _ (by omega), earlier _ (by omega),
    Function.iterate_succ_apply', extend, reached, List.getD_append_right _ _ _ _ (by omega), reached]
  simp

def step (vars : Vars) (k word : UInt32) : Vars :=
  let T1 := vars.h + Sigma1 vars.e + Ch vars.e vars.f vars.g + k + word
  let T2 := Sigma0 vars.a + Maj vars.a vars.b vars.c
  { a := T1 + T2, b := vars.a, c := vars.b, d := vars.c, e := vars.d + T1, f := vars.e, g := vars.f, h := vars.g }

/-- The working variables after so many rounds. -/
def rounds (state : Vars) (W : List UInt32) : Nat → Vars
  | 0 => state
  | t + 1 => step (rounds state W t) (K.getD t 0) (W.getD t 0)

def Vars.add (state vars : Vars) : Vars where
  a := state.a + vars.a
  b := state.b + vars.b
  c := state.c + vars.c
  d := state.d + vars.d
  e := state.e + vars.e
  f := state.f + vars.f
  g := state.g + vars.g
  h := state.h + vars.h

def compress (state : Vars) (block : List UInt32) : Vars := state.add (rounds state (schedule block) 64)

/-! ### Messages -/

/-- The length of a message in bits. -/
def bitLength (size : Nat) : Bytes := (List.range 8).map fun i => UInt8.ofNat ((8 * size) >>> (56 - 8 * i))

def pad (message : Bytes) : Bytes :=
  message ++ 0x80 :: List.replicate ((119 - message.length % 64) % 64) 0 ++ bitLength message.length

/-- So many blocks of a padded message. -/
def absorb : Nat → Vars → Bytes → Vars
  | 0, state, _ => state
  | blocks + 1, state, message => absorb blocks (compress state (words (message.take 64))) (message.drop 64)

def digest (state : Vars) : Bytes := state.toList.flatMap beBytes

def hash (message : Bytes) : Bytes := digest (absorb ((pad message).length / 64) initial (pad message))

end PiJade.Sha256
