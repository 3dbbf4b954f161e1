import PiJade.Cbor
import PiJade.Sha256

/-!
Decoding of CBOR data items. The decoder reads the encodings of well-formed items, every one and
nothing else.
-/
namespace PiJade.Cbor
open Sha256 (beNat)
set_option linter.unusedSimpArgs false

/-! ### Decoding -/

def Form.ofInfo (info : Nat) : Option Form :=
  if info < 24 then some .inside
  else if info = 24 then some .one
  else if info = 25 then some .two
  else if info = 26 then some .four
  else if info = 27 then some .eight
  else none

/-- The major type and the argument, if there is one, and what is behind. -/
def readHead : Bytes → Option (Nat × Option Head × Bytes)
  | [] => none
  | first :: rest =>
    let info := first.toNat % 32
    if info = 31 then some (first.toNat / 32, none, rest)
    else do
      let form ← Form.ofInfo info
      let value := if info < 24 then info else beNat (rest.take form.width)
      if inside : form.width ≤ rest.length ∧ value < form.limit then
        some (first.toNat / 32, some ⟨form, value, inside.2⟩, rest.drop form.width)
      else none

def readChunk (head : Head) (bytes : Bytes) : Option (Chunk × Bytes) :=
  if enough : head.value ≤ bytes.length then
    some (⟨head, bytes.take head.value, List.length_take_of_le enough⟩, bytes.drop head.value)
  else none

/-- The chunks up to the break. -/
def readChunks (major : Nat) : Nat → Bytes → Option (List Chunk × Bytes)
  | 0, _ => none
  | fuel + 1, bytes =>
    if bytes.head? = some 0xff then some ([], bytes.tail)
    else do
      let (kind, head, rest) ← readHead bytes
      let head ← head
      if kind ≠ major then none
      else
        let (chunk, rest) ← readChunk head rest
        let (chunks, rest) ← readChunks major fuel rest
        some (chunk :: chunks, rest)

/-- A string with its length before it, or with chunks up to the break. -/
def decodeString (fuel : Nat) (text : Bool) (head : Option Head) (bytes : Bytes) : Option (Item × Bytes) :=
  match head with
  | some head => (readChunk head bytes).map fun (chunk, rest) => (.string text chunk, rest)
  | none => (readChunks (stringMajor text) fuel bytes).map fun (chunks, rest) => (.chunked text chunks, rest)

/-- An item, given how to decode so many items inside it, or items up to the break. -/
def decodeItem (fuel : Nat) (inner : Option Nat → Bytes → Option (List Item × Bytes)) (bytes : Bytes) :
    Option (Item × Bytes) := do
  let (major, head, rest) ← readHead bytes
  match major, head with
  | 0, some head => some (.unsigned head, rest)
  | 1, some head => some (.negative head, rest)
  | 2, head => decodeString fuel false head rest
  | 3, head => decodeString fuel true head rest
  | 4, head => (inner (head.map (·.value)) rest).map fun (items, rest) => (.array head items, rest)
  | 5, head => do
    let (items, rest) ← inner (head.map (2 * ·.value)) rest
    if items.length % 2 = 0 then some (.map head items, rest) else none
  | 6, some head => do
    let (items, rest) ← inner (some 1) rest
    let item ← items.head?
    some (.tag head item, rest)
  | 7, some head => if head.form = .one ∧ head.value < 32 then none else some (.simple head, rest)
  | _, _ => none

/-- So many items, or the items up to the break. -/
def decodeItems : Nat → Option Nat → Bytes → Option (List Item × Bytes)
  | 0, _, _ => none
  | fuel + 1, count, bytes =>
    if count = some 0 then some ([], bytes)
    else if count = none ∧ bytes.head? = some 0xff then some ([], bytes.tail)
    else do
      let (item, rest) ← decodeItem fuel (decodeItems fuel) bytes
      let (items, rest) ← decodeItems fuel (count.map (· - 1)) rest
      some (item :: items, rest)

/-- The item at the beginning. -/
def decode (bytes : Bytes) : Option (Item × Bytes) := decodeItem bytes.length (decodeItems bytes.length) bytes

/-! ### What is decoded -/

theorem bigEndian_add (width a b : Nat) : bigEndian width (a * 256 ^ width + b) = bigEndian width b := by
  induction width generalizing a with
  | zero => rfl
  | succ width ih =>
    have whole : a * 256 ^ (width + 1) + b = a * 256 * 256 ^ width + b := by
      rw [Nat.pow_succ, Nat.mul_assoc a, Nat.mul_comm 256]
    have byte : UInt8.ofNat ((a * 256 * 256 ^ width + b) / 256 ^ width) = UInt8.ofNat (b / 256 ^ width) := by
      apply UInt8.toNat_inj.mp
      rw [UInt8.toNat_ofNat', UInt8.toNat_ofNat', Nat.add_comm, Nat.add_mul_div_right _ _ (Nat.pow_pos (by decide))]
      omega
    rw [bigEndian, bigEndian, whole, byte, ih]

theorem bigEndian_beNat (bytes : Bytes) : bigEndian bytes.length (beNat bytes) = bytes := by
  induction bytes with
  | nil => rfl
  | cons byte rest ih =>
    have quotient : (byte.toNat * 256 ^ rest.length + beNat rest) / 256 ^ rest.length = byte.toNat := by
      rw [Nat.add_comm, Nat.add_mul_div_right _ _ (Nat.pow_pos (by decide)), Nat.div_eq_of_lt (Sha256.beNat_lt rest),
        Nat.zero_add]
    rw [List.length_cons, beNat, bigEndian, bigEndian_add, ih, quotient, UInt8.ofNat_toNat]

/-- The argument that is read is written so. -/
theorem written_eq {info : Nat} {form : Form} {behind : Bytes} (known : Form.ofInfo info = some form)
    (enough : form.width ≤ behind.length)
    (fits : (if info < 24 then info else beNat (behind.take form.width)) < form.limit) :
    (Head.mk form _ fits).info = info ∧
      bigEndian form.width (if info < 24 then info else beNat (behind.take form.width)) = behind.take form.width := by
  have bytes := bigEndian_beNat (behind.take form.width)
  rw [List.length_take_of_le enough] at bytes
  unfold Form.ofInfo at known
  split_ifs at known with small one two four eight <;> cases known
  · simp [Head.info, small, Form.width, bigEndian]
  all_goals
    refine ⟨by simp [Head.info, *], ?_⟩
    rw [if_neg small]
    exact bytes

/-- An argument is read as it was written. -/
theorem readHead_eq {bytes rest : Bytes} {major : Nat} {head : Option Head}
    (read : readHead bytes = some (major, head, rest)) : bytes = opening major head ++ rest := by
  cases bytes with
  | nil => cases read
  | cons first behind =>
    have whole : 32 * (first.toNat / 32) + first.toNat % 32 = first.toNat := by omega
    simp only [readHead] at read
    by_cases open_ended : first.toNat % 32 = 31
    · simp only [if_pos open_ended, Option.some.injEq, Prod.mk.injEq] at read
      obtain ⟨rfl, rfl, rfl⟩ := read
      rw [open_ended] at whole
      rw [opening, whole, UInt8.ofNat_toNat]
      rfl
    · rw [if_neg open_ended] at read
      obtain ⟨form, known, made⟩ := Option.bind_eq_some_iff.mp read
      by_cases inside : form.width ≤ behind.length ∧
          (if first.toNat % 32 < 24 then first.toNat % 32 else beNat (behind.take form.width)) < form.limit
      · simp only [dif_pos inside, Option.some.injEq, Prod.mk.injEq] at made
        obtain ⟨rfl, rfl, rfl⟩ := made
        obtain ⟨info, argument⟩ := written_eq known inside.1 inside.2
        rw [opening, Head.bytes, info, argument, whole, UInt8.ofNat_toNat, List.cons_append, List.take_append_drop]
      · rw [dif_neg inside] at made
        cases made

theorem readChunk_eq {head : Head} {bytes rest : Bytes} {chunk : Chunk} (read : readChunk head bytes = some (chunk, rest)) :
    chunk.head = head ∧ bytes = chunk.content ++ rest := by
  rw [readChunk] at read
  split at read
  · simp only [Option.some.injEq, Prod.mk.injEq] at read
    obtain ⟨rfl, rfl⟩ := read
    exact ⟨rfl, (List.take_append_drop _ _).symm⟩
  · cases read

theorem break_eq {bytes : Bytes} (ends : bytes.head? = some 0xff) : bytes = closing none ++ bytes.tail := by
  obtain ⟨rest, rfl⟩ := List.head?_eq_some_iff.mp ends
  rfl

theorem readChunks_eq {major fuel : Nat} {bytes rest : Bytes} {chunks : List Chunk}
    (read : readChunks major fuel bytes = some (chunks, rest)) :
    bytes = chunks.flatMap (Chunk.bytes major) ++ closing none ++ rest := by
  induction fuel generalizing bytes chunks with
  | zero => cases read
  | succ fuel ih =>
    rw [readChunks] at read
    split at read
    · rename_i ends
      simp only [Option.some.injEq, Prod.mk.injEq] at read
      obtain ⟨rfl, rfl⟩ := read
      exact break_eq ends
    · obtain ⟨⟨kind, written, behind⟩, first, read⟩ := Option.bind_eq_some_iff.mp read
      obtain ⟨head, rfl, known⟩ := Option.bind_eq_some_iff.mp read
      by_cases other : kind ≠ major
      · rw [if_pos other] at known
        cases known
      · rw [if_neg other] at known
        obtain ⟨⟨chunk, left⟩, one, known⟩ := Option.bind_eq_some_iff.mp known
        obtain ⟨⟨others, stop⟩, later, known⟩ := Option.bind_eq_some_iff.mp known
        simp only [Option.some.injEq, Prod.mk.injEq] at known
        obtain ⟨rfl, rfl⟩ := known
        obtain ⟨rfl, content⟩ := readChunk_eq one
        rw [readHead_eq first, content, ih later, opening, Decidable.not_not.mp other, List.flatMap_cons, Chunk.bytes]
        simp

theorem decodeString_sound {fuel : Nat} {text : Bool} {head : Option Head} {bytes rest : Bytes} {item : Item}
    (read : decodeString fuel text head bytes = some (item, rest)) :
    opening (stringMajor text) head ++ bytes = item.bytes ++ rest ∧ WellFormed item := by
  cases head with
  | some head =>
    obtain ⟨⟨chunk, left⟩, one, made⟩ := Option.map_eq_some_iff.mp read
    simp only [Prod.mk.injEq] at made
    obtain ⟨rfl, rfl⟩ := made
    obtain ⟨rfl, content⟩ := readChunk_eq one
    refine ⟨?_, .string text chunk⟩
    rw [content, Item.bytes, Chunk.bytes, List.append_assoc]
    rfl
  | none =>
    obtain ⟨⟨chunks, left⟩, many, made⟩ := Option.map_eq_some_iff.mp read
    simp only [Prod.mk.injEq] at made
    obtain ⟨rfl, rfl⟩ := made
    refine ⟨?_, .chunked text chunks⟩
    rw [readChunks_eq many, Item.bytes]
    simp

/-- What a decoder of items reads: their encodings, and the break if they are not counted. -/
def Sound (inner : Option Nat → Bytes → Option (List Item × Bytes)) : Prop :=
  ∀ {count : Option Nat} {bytes rest : Bytes} {items : List Item}, inner count bytes = some (items, rest) →
    bytes = bytesAll items ++ (if count = none then closing none else []) ++ rest ∧
      (∀ n ∈ count, items.length = n) ∧ ∀ item ∈ items, WellFormed item

theorem closing_map (head : Option Head) (f : Head → Nat) :
    (if head.map f = none then closing none else []) = closing head := by
  cases head <;> rfl

theorem decodeItem_sound {fuel : Nat} {inner : Option Nat → Bytes → Option (List Item × Bytes)} (sound : Sound inner)
    {bytes rest : Bytes} {item : Item} (read : decodeItem fuel inner bytes = some (item, rest)) :
    bytes = item.bytes ++ rest ∧ WellFormed item := by
  obtain ⟨⟨major, head, behind⟩, first, read⟩ := Option.bind_eq_some_iff.mp read
  rw [readHead_eq first]
  simp only at read
  split at read
  case h_1 head =>
    simp only [Option.some.injEq, Prod.mk.injEq] at read
    obtain ⟨rfl, rfl⟩ := read
    exact ⟨rfl, .unsigned head⟩
  case h_2 head =>
    simp only [Option.some.injEq, Prod.mk.injEq] at read
    obtain ⟨rfl, rfl⟩ := read
    exact ⟨rfl, .negative head⟩
  case h_3 => exact decodeString_sound read
  case h_4 => exact decodeString_sound read
  case h_5 =>
    obtain ⟨⟨items, left⟩, inside, read⟩ := Option.map_eq_some_iff.mp read
    simp only [Prod.mk.injEq] at read
    obtain ⟨rfl, rfl⟩ := read
    obtain ⟨whole, count, each⟩ := sound inside
    refine ⟨?_, .array (fun written listed => count _ (by simp [Option.mem_def.mp listed])) each⟩
    rw [whole, Item.bytes, closing_map]
    simp
  case h_6 =>
    obtain ⟨⟨items, left⟩, inside, read⟩ := Option.bind_eq_some_iff.mp read
    simp only at read
    split at read
    · rename_i paired
      simp only [Option.some.injEq, Prod.mk.injEq] at read
      obtain ⟨rfl, rfl⟩ := read
      obtain ⟨whole, count, each⟩ := sound inside
      refine ⟨?_, .map (fun written listed => count _ (by simp [Option.mem_def.mp listed])) paired each⟩
      rw [whole, Item.bytes, closing_map]
      simp
    · cases read
  case h_7 head =>
    obtain ⟨⟨items, left⟩, inside, read⟩ := Option.bind_eq_some_iff.mp read
    obtain ⟨item, among, read⟩ := Option.bind_eq_some_iff.mp read
    simp only [Option.some.injEq, Prod.mk.injEq] at read
    obtain ⟨rfl, rfl⟩ := read
    obtain ⟨whole, count, each⟩ := sound inside
    obtain ⟨item', rfl⟩ := List.length_eq_one_iff.mp (count 1 rfl)
    obtain rfl : item' = item := by simpa using among
    refine ⟨?_, .tag (each _ List.mem_cons_self)⟩
    rw [whole, Item.bytes, bytesAll, bytesAll]
    simp [opening]
  case h_8 head =>
    split at read
    · cases read
    · rename_i short
      simp only [Option.some.injEq, Prod.mk.injEq] at read
      obtain ⟨rfl, rfl⟩ := read
      refine ⟨rfl, .simple fun one => ?_⟩
      by_contra small
      exact short ⟨one, by omega⟩
  case h_9 => cases read

theorem decodeItems_sound (fuel : Nat) : Sound (decodeItems fuel) := by
  induction fuel with
  | zero =>
    intro count bytes rest items read
    cases read
  | succ fuel ih =>
    intro count bytes rest items read
    rw [decodeItems] at read
    split at read
    · rename_i none_left
      simp only [Option.some.injEq, Prod.mk.injEq] at read
      obtain ⟨rfl, rfl⟩ := read
      subst none_left
      simp [bytesAll]
    · split at read
      · rename_i ends
        simp only [Option.some.injEq, Prod.mk.injEq] at read
        obtain ⟨rfl, rfl⟩ := read
        obtain ⟨rfl, ends⟩ := ends
        refine ⟨by simpa [bytesAll] using break_eq ends, by simp, by simp⟩
      · rename_i some_left _
        obtain ⟨⟨item, behind⟩, first, read⟩ := Option.bind_eq_some_iff.mp read
        obtain ⟨⟨others, left⟩, later, read⟩ := Option.bind_eq_some_iff.mp read
        simp only [Option.some.injEq, Prod.mk.injEq] at read
        obtain ⟨rfl, rfl⟩ := read
        obtain ⟨whole, formed⟩ := decodeItem_sound ih first
        obtain ⟨rest_whole, counted, each⟩ := ih later
        refine ⟨?_, ?_, List.forall_mem_cons.mpr ⟨formed, each⟩⟩
        · rw [whole, rest_whole, bytesAll]
          cases count <;> simp
        · intro n among
          obtain rfl := Option.mem_def.mp among
          have less := counted (n - 1) rfl
          have positive : n ≠ 0 := fun zero => some_left (by rw [zero])
          rw [List.length_cons, less]
          omega

/-! ### What is encoded is decoded -/

theorem beNat_bigEndian {width value : Nat} (fits : value < 256 ^ width) : beNat (bigEndian width value) = value := by
  induction width generalizing value with
  | zero =>
    have zero : value = 0 := by simpa using fits
    rw [zero]
    rfl
  | succ width ih =>
    have positive : 0 < 256 ^ width := Nat.pow_pos (by decide)
    have byte : value / 256 ^ width < 256 := by
      rw [Nat.div_lt_iff_lt_mul positive, Nat.mul_comm, ← Nat.pow_succ]
      exact fits
    have split : value / 256 ^ width * 256 ^ width + value % 256 ^ width = value := Nat.div_add_mod' value _
    have low := bigEndian_add width (value / 256 ^ width) (value % 256 ^ width)
    rw [split] at low
    rw [bigEndian, beNat, length_bigEndian, low, ih (Nat.mod_lt _ positive), UInt8.toNat_ofNat', Nat.mod_eq_of_lt byte, split]

theorem Form.ofInfo_info (head : Head) : Form.ofInfo head.info = some head.form := by
  obtain ⟨form, value, fits⟩ := head
  cases form with
  | inside =>
    have small : value < 24 := fits
    simp [Form.ofInfo, Head.info, small]
  | one | two | four | eight => simp [Form.ofInfo, Head.info]

/-- The argument is the low bits, or in the bytes behind. -/
theorem Head.value_eq (head : Head) :
    (if head.info < 24 then head.info else beNat (bigEndian head.form.width head.value)) = head.value := by
  obtain ⟨form, value, fits⟩ := head
  cases form with
  | inside =>
    have small : value < 24 := fits
    simp [Head.info, small]
  | one | two | four | eight =>
    rw [if_neg (by simp [Head.info])]
    exact beNat_bigEndian fits

theorem readHead_opening {major : Nat} (small : major < 8) (head : Option Head) (rest : Bytes) :
    readHead (opening major head ++ rest) = some (major, head, rest) := by
  cases head with
  | none =>
    have byte : (UInt8.ofNat (32 * major + 31)).toNat = 32 * major + 31 := by
      rw [UInt8.toNat_ofNat']
      omega
    have info : (32 * major + 31) % 32 = 31 := by omega
    have kind : (32 * major + 31) / 32 = major := by omega
    simp only [opening, List.cons_append, List.nil_append, readHead, byte, info, kind, if_true]
  | some head =>
    have low := head.info_le
    have form := Form.ofInfo_info head
    have byte : (UInt8.ofNat (32 * major + head.info)).toNat = 32 * major + head.info := by
      rw [UInt8.toNat_ofNat']
      omega
    have info : (32 * major + head.info) % 32 = head.info := by omega
    have kind : (32 * major + head.info) / 32 = major := by omega
    have counted : head.info ≠ 31 := by
      intro open_ended
      rw [open_ended] at form
      cases form
    have length := length_bigEndian head.form.width head.value
    have taken : (bigEndian head.form.width head.value ++ rest).take head.form.width =
        bigEndian head.form.width head.value := List.take_left' length
    have enough : head.form.width ≤ (bigEndian head.form.width head.value ++ rest).length := by
      rw [List.length_append, length]
      omega
    simp only [opening, Head.bytes, List.cons_append, readHead, byte, info, kind, counted, if_false, form, Option.bind_eq_bind,
      Option.bind_some, taken, head.value_eq, enough, head.fits, and_self, dif_pos, List.drop_left' length]

theorem readChunk_content (chunk : Chunk) (rest : Bytes) : readChunk chunk.head (chunk.content ++ rest) = some (chunk, rest) := by
  obtain ⟨head, content, counted⟩ := chunk
  have enough : head.value ≤ (content ++ rest).length := by
    rw [List.length_append, counted]
    omega
  rw [readChunk, dif_pos enough]
  simp only [List.take_left' counted, List.drop_left' counted]

theorem Head.bytes_pos (major : Nat) (head : Head) : 0 < (head.bytes major).length := Nat.succ_pos _

theorem readChunks_bytes {text : Bool} {chunks : List Chunk} {fuel : Nat} {rest : Bytes}
    (enough : (chunks.flatMap (Chunk.bytes (stringMajor text))).length < fuel) :
    readChunks (stringMajor text) fuel (chunks.flatMap (Chunk.bytes (stringMajor text)) ++ closing none ++ rest) =
      some (chunks, rest) := by
  induction chunks generalizing fuel with
  | nil =>
    obtain ⟨fuel, rfl⟩ : ∃ less, fuel = less + 1 := ⟨fuel - 1, by omega⟩
    rfl
  | cons chunk later ih =>
    obtain ⟨fuel, rfl⟩ : ∃ less, fuel = less + 1 := ⟨fuel - 1, by omega⟩
    rw [List.flatMap_cons, List.length_append, Chunk.bytes, List.length_append] at enough
    have positive := chunk.head.bytes_pos (stringMajor text)
    obtain ⟨first, behind, bytes, _, no_break⟩ := opening_cons (stringMajor_lt text) (some chunk.head)
    have goes_on : ((chunk :: later).flatMap (Chunk.bytes (stringMajor text)) ++ closing none ++ rest).head? ≠ some 0xff := by
      rw [List.flatMap_cons, Chunk.bytes, ← opening, bytes]
      simpa using no_break
    rw [readChunks, if_neg goes_on, List.flatMap_cons, Chunk.bytes]
    have read := @readHead_opening (stringMajor text) (Nat.lt_succ_of_lt (stringMajor_lt text)) (some chunk.head)
      (chunk.content ++ (later.flatMap (Chunk.bytes (stringMajor text)) ++ closing none ++ rest))
    simp only [opening, List.append_assoc] at read ⊢
    simp only [read, Option.bind_eq_bind, Option.bind_some, ne_eq, not_true, if_false, readChunk_content]
    have others := @ih fuel (by omega)
    simp only [List.append_assoc] at others
    rw [others]
    rfl

/-- The item is decoded from its encoding. -/
def Decodes (item : Item) : Prop :=
  ∀ (fuel : Nat) (rest : Bytes), item.bytes.length ≤ fuel →
    decodeItem fuel (decodeItems fuel) (item.bytes ++ rest) = some (item, rest)

theorem decodeItems_bytes {items : List Item} (each : ∀ item ∈ items, Decodes item) {count : Option Nat} {fuel : Nat}
    {rest : Bytes} (counted : ∀ n ∈ count, items.length = n) (enough : (bytesAll items).length < fuel) :
    decodeItems fuel count (bytesAll items ++ ((if count = none then closing none else []) ++ rest)) = some (items, rest) := by
  induction items generalizing count fuel with
  | nil =>
    obtain ⟨fuel, rfl⟩ : ∃ less, fuel = less + 1 := ⟨fuel - 1, by omega⟩
    cases count with
    | none => rfl
    | some n =>
      obtain rfl : 0 = n := counted n rfl
      rfl
  | cons item later ih =>
    obtain ⟨fuel, rfl⟩ : ∃ less, fuel = less + 1 := ⟨fuel - 1, by omega⟩
    obtain ⟨first, others⟩ := List.forall_mem_cons.mp each
    obtain ⟨byte, behind, bytes, _, no_break⟩ := item.bytes_cons
    have positive := congrArg List.length bytes
    rw [List.length_cons] at positive
    rw [bytesAll, List.length_append] at enough
    have some_left : count ≠ some 0 := by
      rintro rfl
      exact absurd (counted 0 rfl) (by simp)
    have goes_on : ¬ (count = none ∧
        (item.bytes ++ (bytesAll later ++ ((if count = none then closing none else []) ++ rest))).head? = some 0xff) := by
      rintro ⟨_, stop⟩
      rw [bytes] at stop
      exact no_break (by simpa using stop)
    have same : (if count = none then closing none else []) = (if count.map (· - 1) = none then closing none else []) := by
      cases count <;> rfl
    have left : ∀ n ∈ count.map (· - 1), later.length = n := by
      intro n among
      obtain ⟨m, rfl, rfl⟩ := Option.map_eq_some_iff.mp among
      have all := counted m rfl
      rw [List.length_cons] at all
      omega
    rw [bytesAll, List.append_assoc, decodeItems, if_neg some_left, if_neg goes_on, first fuel _ (by omega)]
    simp only [Option.bind_eq_bind, Option.bind_some]
    rw [same, ih others left (by omega)]
    rfl

/-- The items of an array or a map are decoded from inside it. -/
theorem decodeItems_inside {items : List Item} (each : ∀ item ∈ items, Decodes item) {head : Option Head} {major fuel : Nat}
    (rest : Bytes) (size : Head → Nat) (counted : ∀ written ∈ head, items.length = size written)
    (enough : (opening major head ++ bytesAll items ++ closing head).length ≤ fuel) :
    decodeItems fuel (head.map size) (bytesAll items ++ (closing head ++ rest)) = some (items, rest) := by
  have opened : 0 < (opening major head).length := by cases head <;> exact Nat.succ_pos _
  rw [List.length_append, List.length_append] at enough
  rw [← closing_map head size]
  refine decodeItems_bytes each ?_ (by omega)
  intro n among
  obtain ⟨written, listed, rfl⟩ := Option.map_eq_some_iff.mp among
  exact counted written listed

theorem decodes_of_wellFormed {item : Item} (formed : WellFormed item) : Decodes item := by
  induction formed with
  | unsigned head =>
    intro fuel rest enough
    rw [decodeItem, Item.bytes, ← opening, readHead_opening (by decide)]
    rfl
  | negative head =>
    intro fuel rest enough
    rw [decodeItem, Item.bytes, ← opening, readHead_opening (by decide)]
    rfl
  | string text chunk =>
    intro fuel rest enough
    rw [decodeItem, Item.bytes, Chunk.bytes, ← opening, List.append_assoc,
      readHead_opening (Nat.lt_succ_of_lt (stringMajor_lt text))]
    cases text with
    | false => simp [stringMajor, decodeString, readChunk_content]
    | true => simp [stringMajor, decodeString, readChunk_content]
  | chunked text chunks =>
    intro fuel rest enough
    rw [Item.bytes, List.length_append, List.length_append] at enough
    have all : (chunks.flatMap (Chunk.bytes (stringMajor text))).length < fuel := by
      simp only [opening, closing, List.length_singleton] at enough
      omega
    rw [decodeItem, Item.bytes, List.append_assoc, List.append_assoc,
      readHead_opening (Nat.lt_succ_of_lt (stringMajor_lt text))]
    have read := @readChunks_bytes text chunks fuel rest all
    rw [List.append_assoc] at read
    cases text with
    | false => simpa [stringMajor, decodeString] using read
    | true => simpa [stringMajor, decodeString] using read
  | array count _ ih =>
    intro fuel rest enough
    rw [Item.bytes] at enough
    have inside := decodeItems_inside ih rest (·.value) count enough
    rw [decodeItem, Item.bytes, List.append_assoc, List.append_assoc, readHead_opening (by decide)]
    simp only [Option.bind_eq_bind, Option.bind_some, inside, Option.map_some]
  | map count paired _ ih =>
    intro fuel rest enough
    rw [Item.bytes] at enough
    have inside := decodeItems_inside ih rest (2 * ·.value) count enough
    rw [decodeItem, Item.bytes, List.append_assoc, List.append_assoc, readHead_opening (by decide)]
    simp only [Option.bind_eq_bind, Option.bind_some, inside, if_pos paired]
  | @tag head item _ ih =>
    intro fuel rest enough
    have tagged : ∀ other ∈ [item], Decodes other := by simpa using ih
    have positive := head.bytes_pos 6
    rw [Item.bytes, List.length_append] at enough
    have inside := @decodeItems_bytes [item] tagged (some 1) fuel rest (by simp)
      (by simp [bytesAll]; omega)
    simp only [bytesAll, List.append_nil, reduceCtorEq, if_false, List.nil_append] at inside
    rw [decodeItem, Item.bytes, ← opening, List.append_assoc, readHead_opening (by decide)]
    simp only [Option.bind_eq_bind, Option.bind_some, inside, List.head?_cons]
  | @simple head short =>
    intro fuel rest enough
    rw [decodeItem, Item.bytes, ← opening, readHead_opening (by decide)]
    have known : ¬ (head.form = .one ∧ head.value < 32) := by
      rintro ⟨one, small⟩
      have bound := short one
      omega
    simp only [Option.bind_eq_bind, Option.bind_some, if_neg known]

/-- What is decoded is a well-formed item at the beginning, and each is. -/
theorem decode_eq_some_iff {bytes rest : Bytes} {item : Item} :
    decode bytes = some (item, rest) ↔ bytes = item.bytes ++ rest ∧ WellFormed item := by
  constructor
  · exact decodeItem_sound (decodeItems_sound _)
  · rintro ⟨rfl, formed⟩
    refine decodes_of_wellFormed formed _ rest ?_
    rw [List.length_append]
    omega

end PiJade.Cbor
