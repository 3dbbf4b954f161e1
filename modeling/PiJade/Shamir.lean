import PiJade.Bytes

/-!
Interpolation of shares (`main/shamir.c`). Up to 32 bytes are handled at a time: word `k` of
a slice carries bit `k` of every byte, and the arithmetic of the field is written once in
terms of `and` and `xor`. The same straight-line code runs over any type with these two
operations; over the booleans it is the arithmetic of one byte.
-/
namespace PiJade.Shamir
set_option linter.unusedSimpArgs false

def SHAMIR_MAX_LEN : Nat := 32
def SHAMIR_MAX_SHARE_COUNT : Nat := 16

/-- The eight words of a bitsliced value. -/
@[ext] structure Slice (α : Type) where
  w0 : α
  w1 : α
  w2 : α
  w3 : α
  w4 : α
  w5 : α
  w6 : α
  w7 : α
  deriving DecidableEq

namespace Slice
variable {α β : Type}

def map (f : α → β) (x : Slice α) : Slice β :=
  ⟨f x.w0, f x.w1, f x.w2, f x.w3, f x.w4, f x.w5, f x.w6, f x.w7⟩

/-- A slice given word by word. -/
def ofFn (f : Nat → α) : Slice α := ⟨f 0, f 1, f 2, f 3, f 4, f 5, f 6, f 7⟩

def words (x : Slice α) : List α := [x.w0, x.w1, x.w2, x.w3, x.w4, x.w5, x.w6, x.w7]

end Slice

section
variable {α : Type} [AndOp α] [XorOp α]

def gf256_add (r x : Slice α) : Slice α :=
  ⟨r.w0 ^^^ x.w0, r.w1 ^^^ x.w1, r.w2 ^^^ x.w2, r.w3 ^^^ x.w3, r.w4 ^^^ x.w4, r.w5 ^^^ x.w5, r.w6 ^^^ x.w6,
    r.w7 ^^^ x.w7⟩

/-- One "add" of `gf256_mul`: a multiple by a power of the variable, where a bit of the
    other factor is set. -/
def addMasked (r a : Slice α) (b : α) : Slice α :=
  ⟨r.w0 ^^^ a.w0 &&& b, r.w1 ^^^ a.w1 &&& b, r.w2 ^^^ a.w2 &&& b, r.w3 ^^^ a.w3 &&& b, r.w4 ^^^ a.w4 &&& b,
    r.w5 ^^^ a.w5 &&& b, r.w6 ^^^ a.w6 &&& b, r.w7 ^^^ a.w7 &&& b⟩

def gf256_mul (a b : Slice α) : Slice α :=
  let ⟨a0, a1, a2, a3, a4, a5, a6, a7⟩ := a
  let r : Slice α :=
    ⟨a0 &&& b.w0, a1 &&& b.w0, a2 &&& b.w0, a3 &&& b.w0, a4 &&& b.w0, a5 &&& b.w0, a6 &&& b.w0, a7 &&& b.w0⟩
  -- After each addition the top coefficient is reduced by x^8 + x^4 + x^3 + x + 1.
  let a0 := a0 ^^^ a7
  let a2 := a2 ^^^ a7
  let a3 := a3 ^^^ a7
  let r := addMasked r ⟨a7, a0, a1, a2, a3, a4, a5, a6⟩ b.w1
  let a7 := a7 ^^^ a6
  let a1 := a1 ^^^ a6
  let a2 := a2 ^^^ a6
  let r := addMasked r ⟨a6, a7, a0, a1, a2, a3, a4, a5⟩ b.w2
  let a6 := a6 ^^^ a5
  let a0 := a0 ^^^ a5
  let a1 := a1 ^^^ a5
  let r := addMasked r ⟨a5, a6, a7, a0, a1, a2, a3, a4⟩ b.w3
  let a5 := a5 ^^^ a4
  let a7 := a7 ^^^ a4
  let a0 := a0 ^^^ a4
  let r := addMasked r ⟨a4, a5, a6, a7, a0, a1, a2, a3⟩ b.w4
  let a4 := a4 ^^^ a3
  let a6 := a6 ^^^ a3
  let a7 := a7 ^^^ a3
  let r := addMasked r ⟨a3, a4, a5, a6, a7, a0, a1, a2⟩ b.w5
  let a3 := a3 ^^^ a2
  let a5 := a5 ^^^ a2
  let a6 := a6 ^^^ a2
  let r := addMasked r ⟨a2, a3, a4, a5, a6, a7, a0, a1⟩ b.w6
  let a2 := a2 ^^^ a1
  let a4 := a4 ^^^ a1
  let a5 := a5 ^^^ a1
  addMasked r ⟨a1, a2, a3, a4, a5, a6, a7, a0⟩ b.w7

def gf256_square (x : Slice α) : Slice α :=
  let r14 := x.w7
  let r12 := x.w6
  let r10 := x.w5
  let r8 := x.w4
  let r6 := x.w3
  let r4 := x.w2
  let r2 := x.w1
  let r0 := x.w0
  let r7 := r14
  let r6 := r6 ^^^ r14
  let r10 := r10 ^^^ r14
  let r4 := r4 ^^^ r12
  let r5 := r12
  let r7 := r7 ^^^ r12
  let r8 := r8 ^^^ r12
  let r2 := r2 ^^^ r10
  let r3 := r10
  let r5 := r5 ^^^ r10
  let r6 := r6 ^^^ r10
  let r1 := r14
  let r2 := r2 ^^^ r14
  let r4 := r4 ^^^ r14
  let r5 := r5 ^^^ r14
  let r0 := r0 ^^^ r8
  let r1 := r1 ^^^ r8
  let r3 := r3 ^^^ r8
  let r4 := r4 ^^^ r8
  ⟨r0, r1, r2, r3, r4, r5, r6, r7⟩

/-- The power 254. -/
def gf256_inv (x : Slice α) : Slice α :=
  let y := gf256_square x
  let y := gf256_square y
  let r := gf256_square y
  let z := gf256_mul r x
  let r := gf256_square r
  let r := gf256_mul r z
  let r := gf256_square r
  let z := gf256_square r
  let z := gf256_square z
  let r := gf256_mul r z
  gf256_mul r y

end

/-- Bit `k` of the first bytes, one bit of the word for each. -/
def bitslice (x : Bytes) (len : Nat) : Slice UInt32 :=
  .ofFn fun bit_idx => (List.range len).foldl (fun r arr_idx =>
    r ||| ((x.getD arr_idx 0).toUInt32 >>> UInt32.ofNat bit_idx &&& 1) <<< UInt32.ofNat arr_idx) 0

def unbitslice (x : Slice UInt32) (len : Nat) : Bytes :=
  (List.range len).map fun arr_idx => (x.words.zipIdx).foldl (fun r (cur, bit_idx) =>
    r ||| ((cur >>> UInt32.ofNat arr_idx &&& 1) <<< UInt32.ofNat bit_idx).toUInt8) 0

def bitslice_setall (x : UInt8) : Slice UInt32 :=
  .ofFn fun idx => -(x.toUInt32 >>> UInt32.ofNat idx &&& 1)

/-- A share: its index and its value. -/
abbrev Share := UInt8 × Bytes

/-- The denominator of one share, and the result so far with the value of a share that
    stands at the index asked for. -/
def denominator (result_index : UInt8) (shares : List Share) (len i : Nat) (share : Share) (secret : Slice UInt32) :
    Slice UInt32 × Slice UInt32 :=
  let start :=
    if share.1 ≠ result_index then (gf256_add (bitslice_setall result_index) (bitslice_setall share.1), secret)
    else (bitslice_setall 1, gf256_add secret (bitslice share.2 len))
  (shares.zipIdx.foldl (fun denom (other, j) =>
    if i = j then denom
    else gf256_mul denom (gf256_add (bitslice_setall share.1) (bitslice_setall other.1))) start.1, start.2)

/-- The loop over the shares; nothing when two indices are the same. -/
def accumulate (result_index : UInt8) (shares : List Share) (len : Nat) (num : Slice UInt32) :
    List (Share × Nat) → Slice UInt32 → Option (Slice UInt32)
  | [], secret => some secret
  | (share, i) :: rest, secret =>
    let (denom, secret) := denominator result_index shares len i share secret
    if denom.words.foldl (· ||| ·) 0 = 0 then none
    else
      let tmp := gf256_inv denom
      let tmp := gf256_mul tmp num
      let tmp := gf256_mul tmp (bitslice share.2 len)
      accumulate result_index shares len num rest (gf256_add secret tmp)

/-- The value at an index of the polynomials through the shares. -/
def shamir_interpolate (result_index : UInt8) (shares : List Share) (len : Nat) : Option Bytes :=
  if SHAMIR_MAX_LEN < len ∨ SHAMIR_MAX_SHARE_COUNT < shares.length then none
  else
    let x := bitslice_setall result_index
    let num := shares.foldl (fun num share => gf256_mul num (gf256_add x (bitslice_setall share.1)))
      (⟨~~~0, 0, 0, 0, 0, 0, 0, 0⟩ : Slice UInt32)
    (accumulate result_index shares len num shares.zipIdx ⟨0, 0, 0, 0, 0, 0, 0, 0⟩).map (unbitslice · len)

end PiJade.Shamir
