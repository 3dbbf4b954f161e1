import PiJade.CborDecode
import PiJade.CborRpc

/-!
A scanned CBOR message cannot stop the device, but for two kinds of message that do: a string whose
length takes eight bytes where a pointer to it is asked for, and a method of more than 32 bytes.
Whenever a pointer and a length are given out, they delimit the contents of the string.
-/
namespace PiJade.CborRpc
open Cbor Text
set_option linter.unusedSimpArgs false

/-! ### What the library does -/

/-- Where a value of the library is, with the items of its container from there on. -/
structure Cursor where
  offset : Nat
  items : List Item

def Cursor.current (cursor : Cursor) : Option (Nat × Item) := cursor.items.head?.map (cursor.offset, ·)

def typeOf : Item → CborType
  | .unsigned _ => .integer
  | .negative _ => .integer
  | .string text _ => if text then .textString else .byteString
  | .chunked text _ => if text then .textString else .byteString
  | .array _ _ => .array
  | .map _ _ => .map
  | .tag _ _ => .tag
  | .simple _ => .simple

/-- What is in the buffer a string of these contents is copied to: a terminator if there is room. -/
def copied (content : Bytes) (max : Nat) : Bytes × Nat :=
  (content ++ if content.length < max then [0] else [], content.length)

/-- The library is correct: it accepts only what begins with a well-formed item, and its values stand for
    items of the input. -/
structure Tinycbor.Correct {V : Type} (cbor : Tinycbor V) (view : V → Cursor) : Prop where
  accepts {input : Bytes} {value : V} : cbor.cbor_parser_init input = some value →
    cbor.cbor_value_validate_basic value = true →
    ∃ root rest, input = root.bytes ++ rest ∧ WellFormed root ∧ view value = ⟨0, [root]⟩
  get_type (value : V) : cbor.cbor_value_get_type value = ((view value).current.map (typeOf ·.2)).getD .invalid
  get_next_byte {value : V} {offset : Nat} {item : Item} : (view value).current = some (offset, item) →
    cbor.cbor_value_get_next_byte value = offset
  is_unsigned_integer {value : V} {offset : Nat} {item : Item} : (view value).current = some (offset, item) →
    (cbor.cbor_value_is_unsigned_integer value = true ↔ ∃ head, item = .unsigned head)
  known {value : V} {offset : Nat} {text : Bool} {chunk : Chunk} :
    (view value).current = some (offset, .string text chunk) →
    cbor.cbor_value_is_length_known value = true ∧ cbor.cbor_value_get_string_length value = some chunk.content.length
  unknown {value : V} {offset : Nat} {text : Bool} {chunks : List Chunk} :
    (view value).current = some (offset, .chunked text chunks) →
    cbor.cbor_value_is_length_known value = false ∧ cbor.cbor_value_get_string_length value = none ∧
      cbor.cbor_value_calculate_string_length value = some (chunks.flatMap (·.content)).length
  copy_byte_string {value : V} {offset max : Nat} {item : Item} {content : Bytes} :
    (view value).current = some (offset, item) → item.content? false = some content → content.length ≤ max →
    cbor.cbor_value_copy_byte_string value max = some (copied content max)
  copy_text_string {value : V} {offset max : Nat} {item : Item} {content : Bytes} :
    (view value).current = some (offset, item) → item.content? true = some content → content.length ≤ max →
    cbor.cbor_value_copy_text_string value max = some (copied content max)
  get_uint64 {value : V} {offset : Nat} {head : Head} : (view value).current = some (offset, .unsigned head) →
    cbor.cbor_value_get_uint64 value = some head.value
  map_find_value {value : V} {offset : Nat} {item : Item} (field : Bytes) : (view value).current = some (offset, item) →
    typeOf item = .map →
    ∃ result, cbor.cbor_value_map_find_value value field = some result ∧ (view result).current = item.field field offset
  get_array_length {value : V} {offset : Nat} {head : Option Head} {items : List Item} :
    (view value).current = some (offset, .array head items) →
    cbor.cbor_value_get_array_length value = head.map fun _ => items.length
  enter_container {value : V} {offset : Nat} {head : Option Head} {items : List Item} :
    (view value).current = some (offset, .array head items) →
    ∃ first, cbor.cbor_value_enter_container value = some first ∧ (view first).items = items
  at_end (value : V) : cbor.cbor_value_at_end value = (view value).items.isEmpty
  advance_fixed {value : V} {head : Head} {later : List Item} : (view value).items = .unsigned head :: later →
    ∃ next, cbor.cbor_value_advance_fixed value = some next ∧ (view next).items = later

/-! ### What is asked for -/

/-- A pointer and a length delimit the contents of the string that is at the place addressed. -/
def Delimits (input : Bytes) (text : Bool) (addressed : Option (Nat × Item)) (ptr : Ptr) : Prop :=
  ∀ data, ptr.data = some data → ∃ offset chunk, addressed = some (offset, .string text chunk) ∧
    data = offset + (chunk.head.bytes (stringMajor text)).length ∧ ptr.size = chunk.content.length ∧
    data + ptr.size ≤ input.length ∧ (input.drop data).take ptr.size = chunk.content

/-- What is asked about a field of a map returns. -/
structure FieldReturns {V : Type} (cbor : Tinycbor V) (input : Bytes) (value : V) (offset : Nat) (map : Item)
    (field : Bytes) : Prop where
  bytes_ptr : ∃ ptr, rpc_get_bytes_ptr cbor input field value = .ok ptr ∧
    Delimits input false (map.field field offset) ptr
  string_ptr : ∃ ptr, rpc_get_string_ptr cbor input field value = .ok ptr ∧
    Delimits input true (map.field field offset) ptr
  bytes (max : Nat) (positive : 0 < max) : ∃ result, rpc_get_bytes cbor field max value = .ok result
  string (max : Nat) (positive : 0 < max) : ∃ result, rpc_get_string cbor field max value = .ok result
  uint64 : ∃ result, rpc_get_uint64 cbor field value = .ok result
  bip32_path (max_path_len : Nat) (positive : 0 < max_path_len) :
    ∃ result, rpc_get_bip32_path cbor field value max_path_len = .ok result

/-- Whatever is asked about a scanned message returns. -/
structure EnvelopeReturns {V : Type} (cbor : Tinycbor V) (input : Bytes) (root : Item) : Prop where
  bytes : ∃ result, bcur_parse_bytes cbor input = .ok result ∧
    ∀ data size, result = some (data, size) → Delimits input false (some (0, root)) { data := some data, size }
  psbt (Psbt : Type) (deserialise_psbt : Bytes → Option Psbt) :
    ∃ result, bcur_parse_psbt cbor deserialise_psbt input = .ok result
  message (expected_method : Option Bytes) (params : Bool) :
    ∃ result, bcur_parse_jade_message cbor input expected_method params = .ok result
  method {expected_method : Option Bytes} {params : Bool} {message : Message V} :
    bcur_parse_jade_message cbor input expected_method params = .ok (some message) →
    ∃ ptr, rpc_get_method cbor input message.root = .ok ptr ∧
      Delimits input true (root.field CBOR_RPC_TAG_METHOD 0) ptr
  fields {expected_method : Option Bytes} {params : Bool} {message : Message V} :
    bcur_parse_jade_message cbor input expected_method params = .ok (some message) →
    ∀ field, 0 ∉ field → FieldReturns cbor input message.root 0 root field
  params {expected_method : Option Bytes} {params : Bool} {message : Message V} {value : V} :
    bcur_parse_jade_message cbor input expected_method params = .ok (some message) → message.params = some value →
    ∃ offset map, root.field CBOR_RPC_TAG_PARAMS 0 = some (offset, map) ∧
      ∀ field, 0 ∉ field → FieldReturns cbor input value offset map field

/-- The length of a string that is not empty takes eight bytes. -/
def Wide (text : Bool) (item : Item) : Prop :=
  ∃ chunk, item = .string text chunk ∧ chunk.head.form = .eight ∧ chunk.content ≠ []

/-- No field of the map has such a length. -/
def NarrowFields (offset : Nat) (map : Item) : Prop :=
  ∀ field, 0 ∉ field → ∀ place item text, map.field field offset = some (place, item) → ¬ Wide text item

/-- The messages that are read without stopping. -/
structure Narrow (root : Item) : Prop where
  bytes : ¬ Wide false root
  fields : NarrowFields 0 root
  method : ∀ place chunk, root.field CBOR_RPC_TAG_METHOD 0 = some (place, .string true chunk) →
    chunk.content.length ≤ MAXLEN_METHOD
  params : ∀ place map, root.field CBOR_RPC_TAG_PARAMS 0 = some (place, map) → NarrowFields place map

/-! ### Pointers -/

def maskOf (text : Bool) : UInt8 := if text then CBOR_TEXT_MASK else CBOR_BINARY_MASK

theorem typecode_eq_iff (first : UInt8) (text : Bool) :
    first &&& CBOR_TYPE_MASK = maskOf text ↔ first.toNat / 32 = stringMajor text := by
  have table : ∀ n < 256, ∀ text, UInt8.ofNat n &&& CBOR_TYPE_MASK = maskOf text ↔ n / 32 = stringMajor text := by
    decide +kernel
  have this := table first.toNat first.toNat_lt text
  rwa [UInt8.ofNat_toNat] at this

/-- The initial byte says how many bytes are before the contents, eight bytes of length apart. -/
theorem get_skip_eq (text : Bool) (head : Head) :
    get_skip (UInt8.ofNat (32 * stringMajor text + head.info) &&& CBOR_LEN_MASK) =
      if head.form = .eight then .error .abort else .ok (1 + head.form.width) := by
  have table : ∀ text, ∀ info < 28, get_skip (UInt8.ofNat (32 * stringMajor text + info) &&& CBOR_LEN_MASK) =
      if info = 27 then .error .abort
      else .ok (if info < 24 then 1 else if info = 24 then 2 else if info = 25 then 3 else 5) := by
    decide +kernel
  rw [table text head.info (Nat.lt_succ_of_le head.info_le)]
  obtain ⟨form, value, fits⟩ := head
  cases form with
  | inside =>
    have small : value < 24 := fits
    have counted : value ≠ 27 := by omega
    simp [Head.info, Form.width, small, counted]
  | one | two | four | eight => simp [Head.info, Form.width]

/-- What a pointer getter makes of an item. -/
def pointed (text : Bool) (offset : Nat) : Item → Check Fault Ptr
  | .string kind chunk =>
    if kind = text ∧ chunk.content ≠ [] then
      if chunk.head.form = .eight then .error .abort
      else .ok { data := some (offset + (1 + chunk.head.form.width)), size := chunk.content.length }
    else .ok .null
  | _ => .ok .null

theorem stringMajor_inj {text kind : Bool} (same : stringMajor text = stringMajor kind) : text = kind := by
  revert same
  cases text <;> cases kind <;> decide

section
variable {V : Type} {cbor : Tinycbor V} {view : V → Cursor} {input : Bytes} {value : V} {offset : Nat} {item : Item}

theorem raw_type_ptr_eq (correct : cbor.Correct view) (current : (view value).current = some (offset, item))
    (located : Located input offset item) (text : Bool) :
    rpc_get_raw_type_ptr cbor input value (maskOf text) = pointed text offset item := by
  obtain ⟨first, at_offset, major⟩ := located.first
  simp only [rpc_get_raw_type_ptr, correct.get_next_byte current, at_offset, ne_eq, typecode_eq_iff, major]
  cases item with
  | string kind chunk =>
    by_cases same : kind = text
    · subst same
      obtain ⟨byte, _⟩ := located.string
      obtain rfl : first = _ := Option.some.inj (at_offset.symm.trans byte)
      simp only [Item.major, not_true, if_false, (correct.known current).2, get_skip_eq, pointed, true_and,
        List.length_eq_zero_iff]
      by_cases empty : chunk.content = []
      · simp [empty]
      · by_cases wide : chunk.head.form = .eight
        · simp [empty, wide]
        · simp [empty, wide]
    · have other : ¬ stringMajor kind = stringMajor text := fun majors => same (stringMajor_inj majors)
      simp [Item.major, other, pointed, same]
  | chunked kind chunks =>
    simp only [pointed, (correct.unknown current).2.1]
    split <;> rfl
  | unsigned | negative | array | map | tag | simple => cases text <;> simp [Item.major, stringMajor, pointed]

theorem pointed_ok {text : Bool} (narrow : ¬ Wide text item) : ∃ ptr, pointed text offset item = .ok ptr := by
  cases item with
  | string kind chunk =>
    rw [pointed]
    by_cases asked : kind = text ∧ chunk.content ≠ []
    · rw [if_pos asked]
      have counted : chunk.head.form ≠ .eight := fun wide => narrow ⟨chunk, by rw [asked.1], wide, asked.2⟩
      exact ⟨_, if_neg counted⟩
    · exact ⟨_, if_neg asked⟩
  | _ => exact ⟨_, rfl⟩

theorem pointed_wide {text : Bool} (wide : Wide text item) : pointed text offset item = .error .abort := by
  obtain ⟨chunk, rfl, eight, filled⟩ := wide
  rw [pointed, if_pos ⟨rfl, filled⟩, if_pos eight]

theorem pointed_size {text : Bool} {ptr : Ptr} (made : pointed text offset item = .ok ptr) :
    ptr.size = 0 ∨ ∃ chunk, item = .string text chunk ∧ ptr.size = chunk.content.length := by
  cases item with
  | string kind chunk =>
    rw [pointed] at made
    split at made
    · rename_i asked
      split at made
      · cases made
      · cases made
        exact .inr ⟨chunk, by rw [asked.1], rfl⟩
    · cases made
      exact .inl rfl
  | _ =>
    cases made
    exact .inl rfl

/-- What is pointed to is the contents. -/
theorem pointed_delimits {text : Bool} {ptr : Ptr} (located : Located input offset item)
    (made : pointed text offset item = .ok ptr) : Delimits input text (some (offset, item)) ptr := by
  intro data points
  cases item with
  | string kind chunk =>
    rw [pointed] at made
    split at made
    · rename_i asked
      obtain ⟨rfl, filled⟩ := asked
      split at made
      · cases made
      · cases made
        obtain rfl := Option.some.inj points
        obtain ⟨_, behind, whole⟩ := located.string
        have length := congrArg List.length whole
        rw [List.length_append, List.length_drop] at length
        have positive := List.length_pos_iff.mpr filled
        have inside : offset + (1 + chunk.head.form.width) + chunk.content.length ≤ input.length := by omega
        refine ⟨offset, chunk, rfl, ?_, rfl, inside, ?_⟩
        · rw [Head.bytes, List.length_cons, length_bigEndian, Nat.add_comm 1]
        · rw [← whole, List.take_left]
    · cases made
      cases points
  | _ =>
    cases made
    cases points

/-! ### Fields -/

theorem type_eq (correct : cbor.Correct view) (current : (view value).current = some (offset, item)) :
    cbor.cbor_value_get_type value = typeOf item := by
  rw [correct.get_type, current]
  rfl

theorem typeOf_valid (item : Item) : typeOf item ≠ .invalid := by
  cases item with
  | string text | chunked text => cases text <;> simp [typeOf]
  | _ => simp [typeOf]

/-- The item that is addressed in a map, if there is one. -/
theorem rpc_get_data_spec (correct : cbor.Correct view) (current : (view value).current = some (offset, item))
    (is_map : typeOf item = .map) (field : Bytes) :
    (item.field field offset = none ∧ rpc_get_data cbor field value = none) ∨
      ∃ place found result, item.field field offset = some (place, found) ∧
        rpc_get_data cbor field value = some result ∧ (view result).current = some (place, found) := by
  have kind := type_eq correct current
  obtain ⟨result, looked_up, addressed⟩ := correct.map_find_value field current is_map
  have same : rpc_get_data cbor field value =
      if cbor.cbor_value_get_type result = .invalid then none else some result := by
    simp only [rpc_get_data, cbor_value_is_valid, cbor_value_is_map, kind, is_map, looked_up]
    by_cases invalid : cbor.cbor_value_get_type result = .invalid
    · simp [invalid]
    · simp [invalid]
  cases there : item.field field offset with
  | none =>
    rw [there] at addressed
    have invalid : cbor.cbor_value_get_type result = .invalid := by
      rw [correct.get_type, addressed]
      rfl
    exact .inl ⟨rfl, by rw [same, if_pos invalid]⟩
  | some found =>
    obtain ⟨place, found⟩ := found
    rw [there] at addressed
    have valid : cbor.cbor_value_get_type result ≠ .invalid := by
      rw [type_eq correct addressed]
      exact typeOf_valid found
    exact .inr ⟨place, found, result, rfl, by rw [same, if_neg valid], addressed⟩

theorem type_ptr_eq (correct : cbor.Correct view) (current : (view value).current = some (offset, item))
    (is_map : typeOf item = .map) (located : Located input offset item) (formed : WellFormed item) (field : Bytes)
    (text : Bool) : rpc_get_type_ptr cbor input field value (maskOf text) =
      (item.field field offset).elim (.ok .null) fun found => pointed text found.1 found.2 := by
  obtain ⟨result, looked_up, addressed⟩ := correct.map_find_value field current is_map
  simp only [rpc_get_type_ptr, looked_up, cbor_value_is_valid]
  cases there : item.field field offset with
  | none =>
    rw [there] at addressed
    have invalid : cbor.cbor_value_get_type result = .invalid := by
      rw [correct.get_type, addressed]
      rfl
    simp [invalid]
  | some found =>
    obtain ⟨place, found⟩ := found
    rw [there] at addressed
    have valid : cbor.cbor_value_get_type result ≠ .invalid := by
      rw [type_eq correct addressed]
      exact typeOf_valid found
    obtain ⟨at_place, _⟩ := located.field formed there
    simp [valid, raw_type_ptr_eq correct addressed at_place]

/-- A pointer to a field is given out, or there is none, if its length does not take eight bytes. -/
theorem type_ptr_returns (correct : cbor.Correct view) (current : (view value).current = some (offset, item))
    (is_map : typeOf item = .map) (located : Located input offset item) (formed : WellFormed item) {field : Bytes}
    {text : Bool} (narrow : ∀ place found, item.field field offset = some (place, found) → ¬ Wide text found) :
    ∃ ptr, rpc_get_type_ptr cbor input field value (maskOf text) = .ok ptr ∧
      Delimits input text (item.field field offset) ptr := by
  rw [type_ptr_eq correct current is_map located formed]
  cases there : item.field field offset with
  | none => exact ⟨.null, rfl, fun data points => by cases points⟩
  | some found =>
    obtain ⟨place, found⟩ := found
    obtain ⟨ptr, made⟩ := @pointed_ok place found text (narrow place found there)
    exact ⟨ptr, made, pointed_delimits (located.field formed there).1 made⟩

/-- The length of a string is known, or is counted. -/
theorem stringLength_eq (correct : cbor.Correct view) (current : (view value).current = some (offset, item)) {text : Bool}
    {content : Bytes} (holds : item.content? text = some content) : stringLength cbor value = some content.length := by
  cases item with
  | string kind chunk =>
    rw [Item.content?] at holds
    split at holds
    · cases holds
      obtain ⟨known, length⟩ := correct.known current
      rw [stringLength, if_pos known, length]
    · cases holds
  | chunked kind chunks =>
    rw [Item.content?] at holds
    split at holds
    · cases holds
      obtain ⟨unknown, _, length⟩ := correct.unknown current
      rw [stringLength, unknown, length]
      rfl
    · cases holds
  | _ => cases holds

theorem content_of_type {text : Bool} (kind : typeOf item = if text then .textString else .byteString) :
    ∃ content, item.content? text = some content := by
  cases item with
  | string other chunk =>
    have same : other = text := by cases other <;> cases text <;> simp_all [typeOf]
    exact ⟨chunk.content, if_pos same⟩
  | chunked other chunks =>
    have same : other = text := by cases other <;> cases text <;> simp_all [typeOf]
    exact ⟨_, if_pos same⟩
  | _ => cases text <;> cases kind

theorem content_none {text : Bool} (other : typeOf item ≠ if text then .textString else .byteString) :
    item.content? text = none := by
  cases item with
  | string kind chunk => cases kind <;> cases text <;> simp_all [typeOf, Item.content?]
  | chunked kind chunks => cases kind <;> cases text <;> simp_all [typeOf, Item.content?]
  | _ => rfl

theorem rpc_get_bytes_returns (correct : cbor.Correct view) (current : (view value).current = some (offset, item))
    (is_map : typeOf item = .map) (field : Bytes) {max : Nat} (positive : 0 < max) :
    ∃ result, rpc_get_bytes cbor field max value = .ok result := by
  simp only [rpc_get_bytes, positive, decide_true, Check.ensure_true, Check.ok_bind]
  obtain ⟨_, nothing⟩ | ⟨place, found, result, _, read, addressed⟩ := rpc_get_data_spec correct current is_map field
  · exact ⟨none, by rw [nothing]; rfl⟩
  · simp only [read, cbor_value_is_byte_string, type_eq correct addressed]
    by_cases bytes : typeOf found = .byteString
    · obtain ⟨content, holds⟩ := @content_of_type found false bytes
      simp only [bytes, stringLength_eq correct addressed holds, beq_self_eq_true, Bool.not_true, Bool.false_eq_true,
        if_false]
      by_cases refused : content.length = 0 ∨ max < content.length
      · exact ⟨none, if_pos refused⟩
      · have some_bytes : 0 < content.length := by omega
        have room : content.length ≤ max := by omega
        rw [if_neg refused]
        simp [correct.copy_byte_string addressed holds room, copied, some_bytes, room]
    · exact ⟨none, by simp [bytes]⟩

theorem rpc_get_string_returns (correct : cbor.Correct view) (current : (view value).current = some (offset, item))
    (is_map : typeOf item = .map) (field : Bytes) {max : Nat} (positive : 0 < max) :
    ∃ result, rpc_get_string cbor field max value = .ok result := by
  simp only [rpc_get_string, positive, decide_true, Check.ensure_true, Check.ok_bind]
  obtain ⟨_, nothing⟩ | ⟨place, found, result, _, read, addressed⟩ := rpc_get_data_spec correct current is_map field
  · exact ⟨none, by rw [nothing]; rfl⟩
  · simp only [read, cbor_value_is_text_string, type_eq correct addressed]
    by_cases text : typeOf found = .textString
    · obtain ⟨content, holds⟩ := @content_of_type found true text
      simp only [text, stringLength_eq correct addressed holds]
      by_cases refused : max ≤ content.length
      · exact ⟨none, by simp [refused]⟩
      · have room : content.length < max := Nat.lt_of_not_le refused
        simp [refused, correct.copy_text_string addressed holds (Nat.le_of_lt room), copied, room]
    · exact ⟨none, by simp [text]⟩

theorem rpc_get_uint64_returns (correct : cbor.Correct view) (current : (view value).current = some (offset, item))
    (is_map : typeOf item = .map) (field : Bytes) : ∃ result, rpc_get_uint64 cbor field value = .ok result := by
  rw [rpc_get_uint64]
  obtain ⟨_, nothing⟩ | ⟨place, found, result, _, read, addressed⟩ := rpc_get_data_spec correct current is_map field
  · exact ⟨none, by rw [nothing]⟩
  · simp only [read]
    by_cases number : cbor.cbor_value_is_unsigned_integer result = true
    · obtain ⟨head, rfl⟩ := (correct.is_unsigned_integer addressed).mp number
      exact ⟨some head.value, by simp [number, correct.get_uint64 addressed]⟩
    · exact ⟨none, by simp [number]⟩

/-! ### Paths -/

/-- The loop reads as many numbers as there are items, or stops at one that is no number of a path. -/
theorem pathItems_returns (correct : cbor.Correct view) {left : Nat} {items : List Item} (there : (view value).items = items)
    (enough : left ≤ items.length) :
    ∃ result, pathItems cbor left value = .ok result ∧
      ∀ path last, result = some (path, last) → (view last).items = items.drop left := by
  induction left generalizing value items with
  | zero =>
    refine ⟨_, rfl, ?_⟩
    rintro path last ⟨rfl, rfl⟩
    exact there
  | succ left ih =>
    cases items with
    | nil => simp at enough
    | cons item later =>
      have going : cbor.cbor_value_at_end value = false := by
        rw [correct.at_end, there]
        rfl
      have current : (view value).current = some ((view value).offset, item) := by
        rw [Cursor.current, there]
        rfl
      simp only [pathItems, going, Bool.not_false, Check.ensure_true, Check.ok_bind]
      by_cases number : cbor.cbor_value_is_unsigned_integer value = true
      · obtain ⟨head, rfl⟩ := (correct.is_unsigned_integer current).mp number
        obtain ⟨next, advanced, behind⟩ := correct.advance_fixed there
        obtain ⟨result, rest, ends⟩ := ih behind (by simpa using enough)
        simp only [number, Bool.not_true, Bool.false_eq_true, if_false, correct.get_uint64 current, advanced, rest,
          Check.ok_bind]
        by_cases large : 0xFFFFFFFF < head.value
        · exact ⟨none, if_pos large, fun path last made => by cases made⟩
        · rw [if_neg large]
          cases result with
          | none => exact ⟨none, rfl, fun path last made => by cases made⟩
          | some read =>
            obtain ⟨path, last⟩ := read
            refine ⟨_, rfl, ?_⟩
            rintro path last ⟨rfl, rfl⟩
            exact ends _ _ rfl
      · exact ⟨none, by simp [number], fun path last made => by cases made⟩

theorem rpc_get_bip32_path_returns (correct : cbor.Correct view) (current : (view value).current = some (offset, item))
    (is_map : typeOf item = .map) (field : Bytes) {max_path_len : Nat}
    (positive : 0 < max_path_len) : ∃ result, rpc_get_bip32_path cbor field value max_path_len = .ok result := by
  rw [rpc_get_bip32_path]
  obtain ⟨_, nothing⟩ | ⟨place, found, result, _, read, addressed⟩ := rpc_get_data_spec correct current is_map field
  · exact ⟨none, by rw [nothing]⟩
  · simp only [read, rpc_get_bip32_path_from_value, positive, decide_true, Check.ensure_true, Check.ok_bind,
      cbor_value_is_array, type_eq correct addressed]
    cases found with
    | array head items =>
      obtain ⟨first, entered, inside⟩ := correct.enter_container addressed
      simp only [typeOf, beq_self_eq_true, Bool.not_true, Bool.false_eq_true, if_false, correct.get_array_length addressed,
        entered]
      cases head with
      | none => exact ⟨none, rfl⟩
      | some head =>
        obtain ⟨outcome, loop, ends⟩ := pathItems_returns correct inside (Nat.le_refl _)
        simp only [Option.map_some, loop, Check.ok_bind]
        by_cases long : max_path_len < items.length
        · exact ⟨none, if_pos long⟩
        · rw [if_neg long]
          cases outcome with
          | none => exact ⟨none, rfl⟩
          | some path =>
            obtain ⟨path, last⟩ := path
            have at_end : cbor.cbor_value_at_end last = true := by
              rw [correct.at_end, ends path last rfl, List.drop_length]
              rfl
            exact ⟨_, by simp only [at_end, Check.ensure_true, Check.ok_bind]; rfl⟩
    | string text | chunked text => exact ⟨none, by cases text <;> rfl⟩
    | _ => exact ⟨none, rfl⟩

/-- All that can be asked about a field of a map returns if no length takes eight bytes. -/
theorem field_returns (correct : cbor.Correct view) (current : (view value).current = some (offset, item))
    (is_map : typeOf item = .map) (located : Located input offset item) (formed : WellFormed item)
    (narrow : NarrowFields offset item) {field : Bytes} (no_nul : 0 ∉ field) :
    FieldReturns cbor input value offset item field where
  bytes_ptr := type_ptr_returns correct current is_map located formed fun place found there =>
    narrow field no_nul place found false there
  string_ptr := type_ptr_returns correct current is_map located formed fun place found there =>
    narrow field no_nul place found true there
  bytes _ positive := rpc_get_bytes_returns correct current is_map field positive
  string _ positive := rpc_get_string_returns correct current is_map field positive
  uint64 := rpc_get_uint64_returns correct current is_map field
  bip32_path _ positive := rpc_get_bip32_path_returns correct current is_map field positive

/-- If a pointer to each field is given out, no length takes eight bytes. -/
theorem narrow_of_returns (correct : cbor.Correct view) (current : (view value).current = some (offset, item))
    (is_map : typeOf item = .map) (located : Located input offset item) (formed : WellFormed item)
    (returns : ∀ field, 0 ∉ field → FieldReturns cbor input value offset item field) : NarrowFields offset item := by
  intro field no_nul place found text there wide
  have stops : rpc_get_type_ptr cbor input field value (maskOf text) = .error .abort := by
    rw [type_ptr_eq correct current is_map located formed, there]
    exact pointed_wide wide
  cases text with
  | false =>
    obtain ⟨ptr, made, _⟩ := (returns field no_nul).bytes_ptr
    cases made.symm.trans stops
  | true =>
    obtain ⟨ptr, made, _⟩ := (returns field no_nul).string_ptr
    cases made.symm.trans stops

/-! ### Messages -/

/-- What is accepted begins with the item that is decoded, and the value stands for it. -/
theorem accepted_spec (correct : cbor.Correct view) {root : Item} {rest : Bytes}
    (accepted : rpc_untrusted_parser_init cbor input = some value) (read : decode input = some (root, rest)) :
    (view value).current = some (0, root) ∧ Located input 0 root ∧ WellFormed root ∧ input.length ≠ 0 := by
  obtain ⟨result, parsed, checked⟩ := Option.bind_eq_some_iff.mp accepted
  split at checked
  · rename_i valid
    obtain rfl := Option.some.inj checked
    obtain ⟨first, behind, whole, formed, stands⟩ := correct.accepts parsed (Bool.and_eq_true_iff.mp valid).2
    obtain ⟨rfl, rfl⟩ : first = root ∧ behind = rest := by
      have again := decode_eq_some_iff.mpr ⟨whole, formed⟩
      simpa using again.symm.trans read
    refine ⟨by rw [stands]; rfl, ⟨behind, by rw [whole]; rfl⟩, formed, ?_⟩
    obtain ⟨byte, others, bytes, _⟩ := first.bytes_cons
    rw [whole, bytes]
    simp
  · cases checked

theorem field_is_map {field : Bytes} {found : Nat × Item} (there : item.field field offset = some found) :
    typeOf item = .map := by
  cases item with
  | map head items => rfl
  | _ => cases there

theorem rpc_get_method_eq (correct : cbor.Correct view) (current : (view value).current = some (offset, item))
    (is_map : typeOf item = .map) (located : Located input offset item) (formed : WellFormed item) :
    rpc_get_method cbor input value = (do
      let ptr ← (item.field CBOR_RPC_TAG_METHOD offset).elim (.ok .null) fun found => pointed true found.1 found.2
      Check.ensure (ptr.size ≤ MAXLEN_METHOD)
      pure ptr) := by
  have kind := type_eq correct current
  rw [← type_ptr_eq correct current is_map located formed]
  simp only [rpc_get_method, cbor_value_is_valid, cbor_value_is_map, kind, is_map]
  rfl

/-- The method is given out if its length takes less than eight bytes and is small. -/
theorem rpc_get_method_returns (correct : cbor.Correct view) (current : (view value).current = some (offset, item))
    (is_map : typeOf item = .map) (located : Located input offset item) (formed : WellFormed item)
    (narrow : ∀ place found, item.field CBOR_RPC_TAG_METHOD offset = some (place, found) → ¬ Wide true found)
    (short : ∀ place chunk, item.field CBOR_RPC_TAG_METHOD offset = some (place, .string true chunk) →
      chunk.content.length ≤ MAXLEN_METHOD) :
    ∃ ptr, rpc_get_method cbor input value = .ok ptr ∧
      Delimits input true (item.field CBOR_RPC_TAG_METHOD offset) ptr := by
  obtain ⟨ptr, made, delimits⟩ := type_ptr_returns correct current is_map located formed narrow
  rw [type_ptr_eq correct current is_map located formed] at made
  have small : ptr.size ≤ MAXLEN_METHOD := by
    cases there : item.field CBOR_RPC_TAG_METHOD offset with
    | none =>
      rw [there] at made
      cases made
      exact Nat.zero_le _
    | some found =>
      obtain ⟨place, found⟩ := found
      rw [there] at made
      obtain empty | ⟨chunk, rfl, size⟩ := pointed_size made
      · rw [empty]
        exact Nat.zero_le _
      · rw [size]
        exact short place chunk there
  refine ⟨ptr, ?_, delimits⟩
  rw [rpc_get_method_eq correct current is_map located formed, made, Check.ok_bind]
  simp [small]

/-- If the method is given out, it is small. -/
theorem short_of_returns (correct : cbor.Correct view) (current : (view value).current = some (offset, item))
    (is_map : typeOf item = .map) (located : Located input offset item) (formed : WellFormed item)
    {ptr : Ptr} (returned : rpc_get_method cbor input value = .ok ptr) {place : Nat} {chunk : Chunk}
    (there : item.field CBOR_RPC_TAG_METHOD offset = some (place, .string true chunk)) :
    chunk.content.length ≤ MAXLEN_METHOD := by
  rw [rpc_get_method_eq correct current is_map located formed, there] at returned
  obtain ⟨made, points, checked⟩ := Check.bind_eq_ok.mp returned
  obtain ⟨_, asserted, _⟩ := Check.bind_eq_ok.mp checked
  have small : made.size ≤ MAXLEN_METHOD := by
    by_contra large
    simp [large] at asserted
  by_cases empty : chunk.content = []
  · simp [empty]
  · simp only [Option.elim_some, pointed, true_and, ne_eq, empty, not_false_eq_true, if_true] at points
    split at points
    · cases points
    · cases points
      exact small

/-- A message is the value that was parsed, a map, and its parameters are one. -/
theorem message_spec (correct : cbor.Correct view) (current : (view value).current = some (0, item))
    (accepted : rpc_untrusted_parser_init cbor input = some value) {expected_method : Option Bytes} {params : Bool}
    {message : Message V} (made : bcur_parse_jade_message cbor input expected_method params = .ok (some message)) :
    message.root = value ∧ typeOf item = .map ∧ ∀ found, message.params = some found →
      ∃ place map, item.field CBOR_RPC_TAG_PARAMS 0 = some (place, map) ∧
        (view found).current = some (place, map) ∧ typeOf map = .map := by
  have kind := type_eq correct current
  obtain ⟨_, _, made⟩ := Check.bind_eq_ok.mp made
  simp only [accepted, cbor_value_is_map, kind] at made
  by_cases is_map : typeOf item = .map
  · simp only [is_map, beq_self_eq_true, Bool.not_true, Bool.false_eq_true, if_false] at made
    obtain ⟨expected, _, made⟩ := Check.bind_eq_ok.mp made
    cases expected with
    | false => simp at made
    | true =>
      cases params with
      | false =>
        simp at made
        subst made
        exact ⟨rfl, is_map, fun found none => by cases none⟩
      | true =>
        obtain ⟨result, looked_up, addressed⟩ := correct.map_find_value CBOR_RPC_TAG_PARAMS current is_map
        cases there : item.field CBOR_RPC_TAG_PARAMS 0 with
        | none =>
          have invalid : cbor.cbor_value_get_type result = .invalid := by
            rw [correct.get_type, addressed, there]
            rfl
          simp [looked_up, invalid] at made
        | some found =>
          obtain ⟨place, map⟩ := found
          rw [there] at addressed
          have result_kind := type_eq correct addressed
          by_cases params_map : typeOf map = .map
          · simp [looked_up, cbor_value_is_valid, result_kind, params_map] at made
            subst made
            refine ⟨rfl, is_map, ?_⟩
            rintro found ⟨rfl⟩
            exact ⟨place, map, rfl, addressed, params_map⟩
          · simp [looked_up, result_kind, params_map] at made
  · simp [is_map] at made

/-- Without an expected method the message is a map. -/
theorem message_plain (correct : cbor.Correct view) (current : (view value).current = some (0, item))
    (accepted : rpc_untrusted_parser_init cbor input = some value) (filled : input.length ≠ 0)
    (is_map : typeOf item = .map) :
    bcur_parse_jade_message cbor input none false = .ok (some { root := value, params := none }) := by
  have kind := type_eq correct current
  have some_bytes : input ≠ [] := by simpa using filled
  simp [bcur_parse_jade_message, some_bytes, accepted, cbor_value_is_map, kind, is_map, expectedMethod]

/-- And its parameters are there if they are a map. -/
theorem message_params (correct : cbor.Correct view) (current : (view value).current = some (0, item))
    (accepted : rpc_untrusted_parser_init cbor input = some value) (filled : input.length ≠ 0)
    {place : Nat} {map : Item} (there : item.field CBOR_RPC_TAG_PARAMS 0 = some (place, map)) (params_map : typeOf map = .map) :
    ∃ found, (view found).current = some (place, map) ∧
      bcur_parse_jade_message cbor input none true = .ok (some { root := value, params := some found }) := by
  have is_map := field_is_map there
  have kind := type_eq correct current
  have some_bytes : input ≠ [] := by simpa using filled
  obtain ⟨result, looked_up, addressed⟩ := correct.map_find_value CBOR_RPC_TAG_PARAMS current is_map
  rw [there] at addressed
  refine ⟨result, addressed, ?_⟩
  simp [bcur_parse_jade_message, some_bytes, accepted, cbor_value_is_map, cbor_value_is_valid, kind, is_map, expectedMethod,
    looked_up, type_eq correct addressed, params_map]

/-- A message is read, or refused, if its method can be asked for. -/
theorem message_returns (correct : cbor.Correct view) (current : (view value).current = some (0, item))
    (accepted : rpc_untrusted_parser_init cbor input = some value) (filled : input.length ≠ 0)
    (asked : typeOf item = .map → ∃ ptr, rpc_get_method cbor input value = .ok ptr) (expected_method : Option Bytes)
    (params : Bool) : ∃ result, bcur_parse_jade_message cbor input expected_method params = .ok result := by
  have kind := type_eq correct current
  simp only [bcur_parse_jade_message, ne_eq, filled, not_false_eq_true, decide_true, Check.ensure_true, Check.ok_bind,
    accepted, cbor_value_is_map, kind]
  by_cases is_map : typeOf item = .map
  · obtain ⟨ptr, given⟩ := asked is_map
    obtain ⟨expected, checked⟩ : ∃ expected, expectedMethod cbor input value expected_method = .ok expected := by
      cases expected_method with
      | none => exact ⟨true, rfl⟩
      | some method =>
        simp only [expectedMethod, given, Check.ok_bind]
        cases ptr.data with
        | none => exact ⟨false, rfl⟩
        | some data => exact ⟨_, rfl⟩
    obtain ⟨result, looked_up, _⟩ := correct.map_find_value CBOR_RPC_TAG_PARAMS current is_map
    simp only [is_map, beq_self_eq_true, Bool.not_true, Bool.false_eq_true, if_false, checked, Check.ok_bind, looked_up]
    cases expected with
    | false => exact ⟨none, rfl⟩
    | true =>
      cases params with
      | false => exact ⟨_, rfl⟩
      | true =>
        by_cases refused : (!cbor_value_is_valid cbor result) = true ∨ cbor.cbor_value_get_type result = .invalid ∨
            (!cbor.cbor_value_get_type result == .map) = true
        · exact ⟨none, if_pos refused⟩
        · exact ⟨_, if_neg refused⟩
  · exact ⟨none, by simp [is_map]⟩

theorem bcur_parse_bytes_eq (correct : cbor.Correct view) (current : (view value).current = some (0, item))
    (accepted : rpc_untrusted_parser_init cbor input = some value) (filled : input.length ≠ 0)
    (located : Located input 0 item) :
    bcur_parse_bytes cbor input = (do
      let ptr ← pointed false 0 item
      pure ptr.given) := by
  simp only [bcur_parse_bytes, ne_eq, filled, not_false_eq_true, decide_true, Check.ensure_true, Check.ok_bind, accepted]
  rw [← raw_type_ptr_eq correct current located false]
  rfl

/-- Bytes are given out, or there are none, if their length does not take eight bytes. -/
theorem bcur_parse_bytes_returns (correct : cbor.Correct view) (current : (view value).current = some (0, item))
    (accepted : rpc_untrusted_parser_init cbor input = some value) (filled : input.length ≠ 0)
    (located : Located input 0 item) (narrow : ¬ Wide false item) :
    ∃ result, bcur_parse_bytes cbor input = .ok result ∧
      ∀ data size, result = some (data, size) → Delimits input false (some (0, item)) { data := some data, size } := by
  obtain ⟨⟨points, length⟩, made⟩ := @pointed_ok 0 item false narrow
  have delimits := pointed_delimits located made
  rw [bcur_parse_bytes_eq correct current accepted filled located, made, Check.ok_bind]
  cases points with
  | none => exact ⟨none, rfl, fun data size none => by cases none⟩
  | some place =>
    refine ⟨_, rfl, ?_⟩
    intro data size given
    simp only [Ptr.given, Option.bind_eq_bind, Option.bind_some] at given
    split at given
    · cases given
      exact delimits
    · cases given

/-- A scanned message is read without stopping if and only if its bytes, or the fields of it and of its
    parameters, have no length of eight bytes, and its method is no longer than 32. -/
theorem envelope_returns_iff (correct : cbor.Correct view) {root : Item} {rest : Bytes}
    (accepted : rpc_untrusted_parser_init cbor input = some value) (read : decode input = some (root, rest)) :
    EnvelopeReturns cbor input root ↔ Narrow root := by
  obtain ⟨current, located, formed, filled⟩ := accepted_spec correct accepted read
  constructor
  · intro returns
    have bytes : ¬ Wide false root := by
      intro wide
      obtain ⟨result, given, _⟩ := returns.bytes
      rw [bcur_parse_bytes_eq correct current accepted filled located, pointed_wide wide] at given
      cases given
    have fields : NarrowFields 0 root := by
      intro field no_nul place found text there
      have is_map := field_is_map there
      have plain := message_plain correct current accepted filled is_map
      exact narrow_of_returns correct current is_map located formed (returns.fields plain) field no_nul place found text there
    refine ⟨bytes, fields, ?_, ?_⟩
    · intro place chunk there
      have is_map := field_is_map there
      have plain := message_plain correct current accepted filled is_map
      obtain ⟨ptr, given, _⟩ := returns.method plain
      exact short_of_returns correct current is_map located formed given there
    · intro place map there field no_nul found_at found text inside
      have params_map := field_is_map inside
      obtain ⟨params, params_current, made⟩ := message_params correct current accepted filled there params_map
      obtain ⟨offset, other, again, asked⟩ := returns.params made rfl
      obtain ⟨rfl, rfl⟩ : place = offset ∧ map = other := by simpa using there.symm.trans again
      obtain ⟨at_place, map_formed⟩ := located.field formed there
      exact narrow_of_returns correct params_current params_map at_place map_formed asked field no_nul found_at found text inside
  · intro narrow
    have method (is_map : typeOf root = .map) := rpc_get_method_returns correct current is_map located formed
      (fun place found there => narrow.fields _ (by decide) place found true there) narrow.method
    have bytes := bcur_parse_bytes_returns correct current accepted filled located narrow.bytes
    refine ⟨bytes, ?_, ?_, ?_, ?_, ?_⟩
    · intro Psbt deserialise_psbt
      obtain ⟨result, given, _⟩ := bytes
      simp only [bcur_parse_psbt, ne_eq, filled, not_false_eq_true, decide_true, Check.ensure_true, Check.ok_bind, given]
      cases result with
      | none => exact ⟨none, rfl⟩
      | some found => exact ⟨_, rfl⟩
    · intro expected_method params
      refine message_returns correct current accepted filled (fun is_map => ?_) expected_method params
      obtain ⟨ptr, given, _⟩ := method is_map
      exact ⟨ptr, given⟩
    · intro expected_method params message made
      obtain ⟨rfl, is_map, _⟩ := message_spec correct current accepted made
      exact method is_map
    · intro expected_method params message made field no_nul
      obtain ⟨rfl, is_map, _⟩ := message_spec correct current accepted made
      exact field_returns correct current is_map located formed narrow.fields no_nul
    · intro expected_method params message params_value made given
      obtain ⟨_, _, each⟩ := message_spec correct current accepted made
      obtain ⟨place, map, there, params_current, params_map⟩ := each params_value given
      obtain ⟨at_place, map_formed⟩ := located.field formed there
      refine ⟨place, map, there, fun field no_nul => ?_⟩
      exact field_returns correct params_current params_map at_place map_formed (narrow.params place map there) no_nul

end

/-! ### A library -/

/-- A library whose values are what they stand for. -/
def reference : Tinycbor Cursor where
  cbor_parser_init input := (decode input).map fun found => { offset := 0, items := [found.1] }
  cbor_value_validate_basic _ := true
  cbor_value_get_type cursor := (cursor.current.map (typeOf ·.2)).getD .invalid
  cbor_value_get_next_byte cursor := cursor.offset
  cbor_value_is_unsigned_integer cursor :=
    match cursor.items with
    | .unsigned _ :: _ => true
    | _ => false
  cbor_value_is_length_known cursor :=
    match cursor.items with
    | .string _ _ :: _ => true
    | _ => false
  cbor_value_get_string_length cursor :=
    match cursor.items with
    | .string _ chunk :: _ => some chunk.content.length
    | _ => none
  cbor_value_calculate_string_length cursor :=
    match cursor.items with
    | .string _ chunk :: _ => some chunk.content.length
    | .chunked _ chunks :: _ => some (chunks.flatMap (·.content)).length
    | _ => none
  cbor_value_copy_byte_string cursor max := do
    let content ← cursor.items.head?.bind (Item.content? false)
    if content.length ≤ max then some (copied content max) else none
  cbor_value_copy_text_string cursor max := do
    let content ← cursor.items.head?.bind (Item.content? true)
    if content.length ≤ max then some (copied content max) else none
  cbor_value_get_uint64 cursor :=
    match cursor.items with
    | .unsigned head :: _ => some head.value
    | _ => none
  cbor_value_map_find_value cursor field := do
    let item ← cursor.items.head?
    match item.field field cursor.offset with
    | some (place, found) => some { offset := place, items := [found] }
    | none => some { offset := cursor.offset, items := [] }
  cbor_value_get_array_length cursor :=
    match cursor.items with
    | .array head items :: _ => head.map fun _ => items.length
    | _ => none
  cbor_value_enter_container cursor :=
    match cursor.items with
    | .array head items :: _ => some { offset := cursor.offset + (opening 4 head).length, items }
    | _ => none
  cbor_value_at_end cursor := cursor.items.isEmpty
  cbor_value_advance_fixed cursor :=
    match cursor.items with
    | item :: later => some { offset := cursor.offset + item.bytes.length, items := later }
    | [] => none
  cbor_value_leave_container _ _ := true

theorem current_eq_some {cursor : Cursor} {offset : Nat} {item : Item} (current : cursor.current = some (offset, item)) :
    ∃ later, cursor = { offset, items := item :: later } := by
  obtain ⟨place, items⟩ := cursor
  cases items with
  | nil => cases current
  | cons first later =>
    obtain ⟨rfl, rfl⟩ : place = offset ∧ first = item := by simpa [Cursor.current] using current
    exact ⟨later, rfl⟩

theorem reference_correct : reference.Correct id where
  accepts {input value} parsed _ := by
    obtain ⟨⟨root, rest⟩, read, rfl⟩ := Option.map_eq_some_iff.mp parsed
    obtain ⟨whole, formed⟩ := decode_eq_some_iff.mp read
    exact ⟨root, rest, whole, formed, rfl⟩
  get_type _ := rfl
  get_next_byte current := by
    obtain ⟨later, rfl⟩ := current_eq_some current
    rfl
  is_unsigned_integer {value offset item} current := by
    obtain ⟨later, rfl⟩ := current_eq_some current
    cases item <;> simp [reference]
  known current := by
    obtain ⟨later, rfl⟩ := current_eq_some current
    exact ⟨rfl, rfl⟩
  unknown current := by
    obtain ⟨later, rfl⟩ := current_eq_some current
    exact ⟨rfl, rfl, rfl⟩
  copy_byte_string current holds room := by
    obtain ⟨later, rfl⟩ := current_eq_some current
    simp [reference, holds, room]
  copy_text_string current holds room := by
    obtain ⟨later, rfl⟩ := current_eq_some current
    simp [reference, holds, room]
  get_uint64 current := by
    obtain ⟨later, rfl⟩ := current_eq_some current
    rfl
  map_find_value {value offset item} field current _ := by
    obtain ⟨later, rfl⟩ := current_eq_some current
    cases there : item.field field offset with
    | none => exact ⟨{ offset, items := [] }, by simp [reference, there], rfl⟩
    | some found => exact ⟨{ offset := found.1, items := [found.2] }, by simp [reference, there], rfl⟩
  get_array_length current := by
    obtain ⟨later, rfl⟩ := current_eq_some current
    rfl
  enter_container current := by
    obtain ⟨later, rfl⟩ := current_eq_some current
    exact ⟨_, rfl, rfl⟩
  at_end _ := rfl
  advance_fixed {value head later} there := by
    obtain ⟨offset, items⟩ := value
    cases there
    exact ⟨_, rfl, rfl⟩

theorem reference_accepts {input rest : Bytes} {root : Item} (read : decode input = some (root, rest)) :
    rpc_untrusted_parser_init reference input = some { offset := 0, items := [root] } := by
  have parsed : reference.cbor_parser_init input = some { offset := 0, items := [root] } := by simp [reference, read]
  have valid : cbor_value_is_valid reference { offset := 0, items := [root] } = true := by
    simpa [cbor_value_is_valid, reference, Cursor.current] using typeOf_valid root
  rw [rpc_untrusted_parser_init, parsed]
  simp [valid]
  rfl

def methodText : Chunk where
  head := { form := .inside, value := 6, fits := by decide }
  content := CBOR_RPC_TAG_METHOD
  counted := rfl

def pingText : Chunk where
  head := { form := .inside, value := 4, fits := by decide }
  content := [112, 105, 110, 103]
  counted := rfl

/-- A map with a method and nothing else. -/
def pingItem : Item :=
  .map (some { form := .inside, value := 1, fits := by decide }) [.string true methodText, .string true pingText]

theorem pingItem_narrow : Narrow pingItem := by
  have only {field : Bytes} {place : Nat} {found : Item} (there : pingItem.field field 0 = some (place, found)) :
      found = .string true pingText := by
    simp only [pingItem, Item.field, lookup] at there
    split at there
    · cases there
      rfl
    · cases there
  refine ⟨?_, ?_, ?_, ?_⟩
  · rintro ⟨chunk, wrong, _⟩
    cases wrong
  · rintro field _ place found text there ⟨chunk, same, eight, _⟩
    rw [only there] at same
    cases same
    cases eight
  · intro place chunk there
    cases only there
    decide
  · intro place map there field _ found_at found text inside
    rw [only there] at inside
    cases inside

theorem envelope_returns_ping : EnvelopeReturns reference pingItem.bytes pingItem := by
  have formed : WellFormed pingItem := by
    refine .map ?_ rfl ?_
    · rintro written ⟨rfl⟩
      rfl
    · intro item among
      simp only [List.mem_cons, List.not_mem_nil, or_false] at among
      obtain rfl | rfl := among
      · exact .string true methodText
      · exact .string true pingText
  have read : decode pingItem.bytes = some (pingItem, []) := decode_eq_some_iff.mpr ⟨(List.append_nil _).symm, formed⟩
  exact (envelope_returns_iff reference_correct (reference_accepts read) read).mpr pingItem_narrow

/-- One byte, with its length in eight. -/
def wideBytes : Bytes := [0x5b, 0, 0, 0, 0, 0, 0, 0, 1, 0]

/-- A map whose method has 33 letters. -/
def longMethod : Bytes := [0xa1, 0x66] ++ CBOR_RPC_TAG_METHOD ++ [0x78, 33] ++ List.replicate 33 97

theorem wide_and_long_abort :
    (rpc_untrusted_parser_init reference wideBytes).isSome ∧ bcur_parse_bytes reference wideBytes = .error .abort ∧
    (rpc_untrusted_parser_init reference longMethod).isSome ∧
    bcur_parse_jade_message reference longMethod (some [109, 105, 110, 101]) true = .error .abort := by
  refine ⟨by decide +kernel, by decide +kernel, by decide +kernel, ?_⟩
  rfl

end PiJade.CborRpc
