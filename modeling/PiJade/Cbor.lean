import Mathlib.Data.List.Infix
import PiJade.Bytes

/-!
Data items of CBOR, with every way to write them: a count may stand in the initial byte or in one,
two, four or eight bytes behind it, whether or not fewer would do, and strings, arrays and maps may
be left open and closed by a break. Items are encoded as they are written and looked up in a map; in
an input each is at its place.
-/
namespace PiJade.Cbor
set_option linter.unusedSimpArgs false

/-! ### Items -/

/-- Where the argument of an item is: in the initial byte, or in so many bytes behind it. -/
inductive Form where
  | inside
  | one
  | two
  | four
  | eight
  deriving DecidableEq, Repr

def Form.width : Form → Nat
  | .inside => 0
  | .one => 1
  | .two => 2
  | .four => 4
  | .eight => 8

/-- Smaller arguments can be written so. -/
def Form.limit : Form → Nat
  | .inside => 24
  | form => 256 ^ form.width

/-- An argument, and how it is written. -/
structure Head where
  form : Form
  value : Nat
  fits : value < form.limit
  deriving DecidableEq, Repr

/-- The five low bits of the initial byte. -/
def Head.info (head : Head) : Nat :=
  match head.form with
  | .inside => head.value
  | .one => 24
  | .two => 25
  | .four => 26
  | .eight => 27

def bigEndian : Nat → Nat → Bytes
  | 0, _ => []
  | width + 1, value => UInt8.ofNat (value / 256 ^ width) :: bigEndian width value

def Head.bytes (major : Nat) (head : Head) : Bytes :=
  UInt8.ofNat (32 * major + head.info) :: bigEndian head.form.width head.value

/-- A string whose length is written before it. -/
structure Chunk where
  head : Head
  content : Bytes
  counted : content.length = head.value
  deriving DecidableEq, Repr

def Chunk.bytes (major : Nat) (chunk : Chunk) : Bytes := chunk.head.bytes major ++ chunk.content

/-- Without a head, an array or a map is left open. The items of a map are its keys, each with its value
    behind it. Simple values are floating-point numbers as well. -/
inductive Item where
  | unsigned (head : Head)
  | negative (head : Head)
  | string (text : Bool) (chunk : Chunk)
  | chunked (text : Bool) (chunks : List Chunk)
  | array (head : Option Head) (items : List Item)
  | map (head : Option Head) (items : List Item)
  | tag (head : Head) (item : Item)
  | simple (head : Head)

def stringMajor (text : Bool) : Nat := if text then 3 else 2

def Item.major : Item → Nat
  | .unsigned _ => 0
  | .negative _ => 1
  | .string text _ => stringMajor text
  | .chunked text _ => stringMajor text
  | .array _ _ => 4
  | .map _ _ => 5
  | .tag _ _ => 6
  | .simple _ => 7

/-- What stands before the items. -/
def opening (major : Nat) : Option Head → Bytes
  | some head => head.bytes major
  | none => [UInt8.ofNat (32 * major + 31)]

/-- What stands behind them. -/
def closing : Option Head → Bytes
  | some _ => []
  | none => [0xff]

mutual

def Item.bytes : Item → Bytes
  | .unsigned head => head.bytes 0
  | .negative head => head.bytes 1
  | .string text chunk => chunk.bytes (stringMajor text)
  | .chunked text chunks =>
    opening (stringMajor text) none ++ chunks.flatMap (Chunk.bytes (stringMajor text)) ++ closing none
  | .array head items => opening 4 head ++ bytesAll items ++ closing head
  | .map head items => opening 5 head ++ bytesAll items ++ closing head
  | .tag head item => head.bytes 6 ++ item.bytes
  | .simple head => head.bytes 7

def bytesAll : List Item → Bytes
  | [] => []
  | item :: later => item.bytes ++ bytesAll later

end

/-- Counts are right, keys have values, and no simple value is written longer than it has to be. -/
inductive WellFormed : Item → Prop where
  | unsigned (head : Head) : WellFormed (.unsigned head)
  | negative (head : Head) : WellFormed (.negative head)
  | string (text : Bool) (chunk : Chunk) : WellFormed (.string text chunk)
  | chunked (text : Bool) (chunks : List Chunk) : WellFormed (.chunked text chunks)
  | array {head : Option Head} {items : List Item} (count : ∀ written ∈ head, items.length = written.value)
      (each : ∀ item ∈ items, WellFormed item) : WellFormed (.array head items)
  | map {head : Option Head} {items : List Item} (count : ∀ written ∈ head, items.length = 2 * written.value)
      (paired : items.length % 2 = 0) (each : ∀ item ∈ items, WellFormed item) : WellFormed (.map head items)
  | tag {head : Head} {item : Item} (tagged : WellFormed item) : WellFormed (.tag head item)
  | simple {head : Head} (short : head.form = .one → 32 ≤ head.value) : WellFormed (.simple head)

/-! ### Lookup -/

/-- What the string holds, in all its chunks. -/
def Item.content? (text : Bool) : Item → Option Bytes
  | .string kind chunk => if kind = text then some chunk.content else none
  | .chunked kind chunks => if kind = text then some (chunks.flatMap (·.content)) else none
  | _ => none

/-- The item behind the tags. -/
def Item.untagged : Item → Item
  | .tag _ item => item.untagged
  | item => item

/-- The first value whose key is that text, and where it is. -/
def lookup (field : Bytes) : Nat → List Item → Option (Nat × Item)
  | offset, key :: value :: later =>
    if key.untagged.content? true = some field then some (offset + key.bytes.length, value)
    else lookup field (offset + key.bytes.length + value.bytes.length) later
  | _, _ => none

/-- The value of a field of a map that is at `offset`, and where it is. -/
def Item.field (field : Bytes) (offset : Nat) : Item → Option (Nat × Item)
  | .map head items => lookup field (offset + (opening 5 head).length) items
  | _ => none

/-! ### Initial bytes -/

theorem Head.info_le (head : Head) : head.info ≤ 27 := by
  obtain ⟨form, value, fits⟩ := head
  cases form with
  | inside =>
    have small : value < 24 := fits
    simp only [Head.info]
    omega
  | one | two | four | eight => simp [Head.info]

/-- An initial byte holds the major type, and is no break. -/
theorem initial_byte {major info : Nat} (small : major < 8) (low : info < 32) (counted : major = 7 → info ≤ 27) :
    (UInt8.ofNat (32 * major + info)).toNat / 32 = major ∧ UInt8.ofNat (32 * major + info) ≠ 0xff := by
  have byte : (UInt8.ofNat (32 * major + info)).toNat = 32 * major + info := by
    rw [UInt8.toNat_ofNat']
    omega
  refine ⟨by rw [byte]; omega, fun stop => ?_⟩
  rw [stop] at byte
  simp at byte
  omega

theorem opening_cons {major : Nat} (small : major < 7) (head : Option Head) :
    ∃ first rest, opening major head = first :: rest ∧ first.toNat / 32 = major ∧ first ≠ 0xff := by
  cases head with
  | none => exact ⟨_, _, rfl, initial_byte (by omega) (by decide) (by omega)⟩
  | some head =>
    have low := head.info_le
    exact ⟨_, _, rfl, initial_byte (by omega) (by omega) (by omega)⟩

theorem stringMajor_lt (text : Bool) : stringMajor text < 7 := by cases text <;> decide

theorem Item.bytes_cons (item : Item) :
    ∃ first rest, item.bytes = first :: rest ∧ first.toNat / 32 = item.major ∧ first ≠ 0xff := by
  have begins {major : Nat} (small : major < 7) (head : Option Head) (behind : Bytes) :
      ∃ first rest, opening major head ++ behind = first :: rest ∧ first.toNat / 32 = major ∧ first ≠ 0xff := by
    obtain ⟨first, rest, bytes, facts⟩ := opening_cons small head
    exact ⟨first, rest ++ behind, by rw [bytes, List.cons_append], facts⟩
  cases item with
  | unsigned head => exact opening_cons (by decide) (some head)
  | negative head => exact opening_cons (by decide) (some head)
  | string text chunk => exact begins (stringMajor_lt text) (some chunk.head) _
  | chunked text chunks =>
    rw [Item.bytes, List.append_assoc]
    exact begins (stringMajor_lt text) none _
  | array head items =>
    rw [Item.bytes, List.append_assoc]
    exact begins (by decide) head _
  | map head items =>
    rw [Item.bytes, List.append_assoc]
    exact begins (by decide) head _
  | tag head item => exact begins (by decide) (some head) _
  | simple head =>
    have low := head.info_le
    exact ⟨_, _, rfl, initial_byte (by decide) (by omega) fun _ => low⟩

/-! ### Where items are -/

/-- The encoding of an item is at that place of the input. -/
def Located (input : Bytes) (offset : Nat) (item : Item) : Prop := item.bytes <+: input.drop offset

theorem Located.first {input : Bytes} {offset : Nat} {item : Item} (located : Located input offset item) :
    ∃ first, input[offset]? = some first ∧ first.toNat / 32 = item.major := by
  obtain ⟨first, rest, bytes, major, _⟩ := item.bytes_cons
  obtain ⟨behind, whole⟩ := located
  refine ⟨first, ?_, major⟩
  rw [bytes] at whole
  have head := congrArg List.head? whole
  rw [List.head?_drop] at head
  exact head.symm

theorem length_bigEndian (width value : Nat) : (bigEndian width value).length = width := by
  induction width with
  | zero => rfl
  | succ width ih => rw [bigEndian, List.length_cons, ih]

/-- Where a string is, its initial byte and its contents are. -/
theorem Located.string {input : Bytes} {offset : Nat} {text : Bool} {chunk : Chunk}
    (located : Located input offset (.string text chunk)) :
    input[offset]? = some (UInt8.ofNat (32 * stringMajor text + chunk.head.info)) ∧
      chunk.content <+: input.drop (offset + (1 + chunk.head.form.width)) := by
  obtain ⟨behind, whole⟩ := located
  rw [Item.bytes, Chunk.bytes, Head.bytes] at whole
  constructor
  · have head := congrArg List.head? whole
    rw [List.head?_drop] at head
    exact head.symm
  · have later := congrArg (List.drop (1 + chunk.head.form.width)) whole
    rw [List.drop_drop] at later
    refine ⟨behind, ?_⟩
    rw [← later, Nat.add_comm 1, List.cons_append, List.cons_append, List.drop_succ_cons, List.append_assoc,
      List.drop_left' (length_bigEndian _ _)]

/-- The value that is looked up is one of the items, at its place. -/
theorem lookup_spec {field : Bytes} {items : List Item} {offset place : Nat} {value : Item}
    (found : lookup field offset items = some (place, value)) :
    value ∈ items ∧ ∃ front back, bytesAll items = front ++ value.bytes ++ back ∧ place = offset + front.length := by
  induction offset, items using lookup.induct field with
  | case1 offset key first later same =>
    rw [lookup, if_pos same] at found
    simp only [Option.some.injEq, Prod.mk.injEq] at found
    obtain ⟨rfl, rfl⟩ := found
    refine ⟨by simp, key.bytes, bytesAll later, ?_, rfl⟩
    rw [bytesAll, bytesAll, List.append_assoc]
  | case2 offset key first later other ih =>
    rw [lookup, if_neg other] at found
    obtain ⟨among, front, back, whole, at_front⟩ := ih found
    refine ⟨by simp [among], key.bytes ++ first.bytes ++ front, back, ?_, ?_⟩
    · rw [bytesAll, bytesAll, whole]
      simp
    · rw [at_front, List.length_append, List.length_append]
      omega
  | case3 offset items short =>
    rw [lookup] at found
    · cases found
    · exact short

/-- The value of a field is well-formed and at its place. -/
theorem Located.field {input field : Bytes} {offset place : Nat} {item value : Item} (located : Located input offset item)
    (formed : WellFormed item) (found : item.field field offset = some (place, value)) :
    Located input place value ∧ WellFormed value := by
  cases formed with
  | @map head items count paired each =>
    obtain ⟨among, front, back, whole, rfl⟩ := lookup_spec found
    refine ⟨?_, each value among⟩
    obtain ⟨rest, input_eq⟩ := located
    rw [Item.bytes, whole] at input_eq
    have behind := congrArg (List.drop ((opening 5 head).length + front.length)) input_eq
    rw [List.drop_drop] at behind
    refine ⟨back ++ closing head ++ rest, ?_⟩
    rw [Nat.add_assoc, ← behind]
    simp
  | _ => cases found

end PiJade.Cbor
