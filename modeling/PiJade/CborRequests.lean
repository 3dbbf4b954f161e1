import PiJade.CborEnvelope

/-!
Requests (`main/utils/cbor_rpc.c`): the check that every message from a transport passes, its id and its parameters.
-/
namespace PiJade.CborRpc
open Cbor Text
set_option linter.unusedSimpArgs false

def CBOR_RPC_TAG_ID : Bytes := ['i', 'd'].map Char.toUInt8
def MAXLEN_ID : Nat := 16

/-- What is needed of the library for requests as well: where the item of a value ends, if it is valid and complete,
    and simple values. -/
structure Library (V : Type) extends Tinycbor V where
  cbor_value_advance : V → Option Nat
  cbor_value_get_boolean : V → Option Bool
  cbor_value_is_null : V → Bool

section
variable {V : Type} (lib : Library V)

def rpc_get_string_len (field : Bytes) (value : V) : Nat :=
  match rpc_get_data lib.toTinycbor field value with
  | none => 0
  | some result =>
    if !cbor_value_is_text_string lib.toTinycbor result then 0
    else (stringLength lib.toTinycbor result).getD 0

def rpc_message_valid (message : V) : Bool :=
  if !cbor_value_is_valid lib.toTinycbor message then false
  else if !cbor_value_is_map lib.toTinycbor message then false
  else
    let written := rpc_get_string_len lib CBOR_RPC_TAG_ID message
    if written = 0 ∨ MAXLEN_ID < written then false else true

def rpc_request_valid (request : V) : Bool :=
  if !rpc_message_valid lib request then false
  else
    let written := rpc_get_string_len lib CBOR_RPC_TAG_METHOD request
    if written = 0 ∨ MAXLEN_METHOD < written then false else true

def rpc_get_id (value : V) : Check Fault Bytes :=
  if !cbor_value_is_valid lib.toTinycbor value then .ok []
  else if !cbor_value_is_map lib.toTinycbor value then .ok []
  else do
    match ← rpc_get_string lib.toTinycbor CBOR_RPC_TAG_ID (MAXLEN_ID + 1) value with
    | none => pure []
    | some (data, written) => pure (data.take written)

def rpc_get_id_ptr (input : Bytes) (value : V) : Check Fault Ptr :=
  rpc_get_string_ptr lib.toTinycbor input CBOR_RPC_TAG_ID value

def rpc_has_field_data (field : Bytes) (value : V) : Bool :=
  (rpc_get_data lib.toTinycbor field value).any fun result => !lib.cbor_value_is_null result

def rpc_get_map (field : Bytes) (value : V) : Option V :=
  (rpc_get_data lib.toTinycbor field value).filter fun result => cbor_value_is_map lib.toTinycbor result

def rpc_get_bool (field : Bytes) (value : V) : Option Bool :=
  (rpc_get_data lib.toTinycbor field value).bind lib.cbor_value_get_boolean

/-- `GET_MSG_PARAMS`: the parameters, if they are a map. -/
def get_msg_params (value : V) : Option V :=
  match lib.cbor_value_map_find_value value CBOR_RPC_TAG_PARAMS with
  | none => none
  | some params =>
    if !cbor_value_is_valid lib.toTinycbor params ∨ lib.cbor_value_get_type params = .invalid ∨
        !cbor_value_is_map lib.toTinycbor params then none
    else some params

/-- The bytes that a pointer and a length give, none if there is no pointer. -/
def pointedBytes (input : Bytes) (ptr : Check Fault Ptr) : Check Fault Bytes := do
  let ptr ← ptr
  match ptr.data with
  | none => pure []
  | some data =>
    if data + ptr.size ≤ input.length then pure ((input.drop data).take ptr.size) else .error (.error .out_of_bounds)

/-- The text in a field of a message. -/
def textField (root : Item) (field : Bytes) : Option Bytes := (root.field field 0).bind fun found => found.2.content? true

/-- A message that passes the check of a request. -/
def Request (root : Item) : Prop :=
  (∃ id, textField root CBOR_RPC_TAG_ID = some id ∧ id ≠ [] ∧ id.length ≤ MAXLEN_ID) ∧
    ∃ method, textField root CBOR_RPC_TAG_METHOD = some method ∧ method ≠ [] ∧ method.length ≤ MAXLEN_METHOD

/-- The library is correct for requests as well: it passes over well-formed items only, and reads one
    alike without the bytes behind it; a null is one simple value, and a container is left at its end. -/
structure Library.Correct (view : V → Cursor) : Prop extends lib.toTinycbor.Correct view where
  advance {input : Bytes} {value : V} {ptr : Nat} : lib.cbor_parser_init input = some value →
    lib.cbor_value_advance value = some ptr → ∃ root rest, input = root.bytes ++ rest ∧ WellFormed root ∧
      ptr = root.bytes.length ∧ view value = ⟨0, [root]⟩ ∧
      ∃ alone, lib.cbor_parser_init root.bytes = some alone ∧ view alone = ⟨0, [root]⟩
  is_null {value : V} {offset : Nat} {item : Item} : (view value).current = some (offset, item) →
    (lib.cbor_value_is_null value = true ↔ ∃ head, item = .simple head ∧ head.form = .inside ∧ head.value = 22)
  leave_container {value last : V} {offset : Nat} {head : Option Head} {items : List Item} :
    (view value).current = some (offset, .array head items) → (view last).items = [] →
    lib.cbor_value_leave_container value last = true

end

section
variable {V : Type} {lib : Library V} {view : V → Cursor} {value : V} {root : Item}

theorem rpc_get_string_len_eq (correct : lib.toTinycbor.Correct view) (current : (view value).current = some (0, root))
    (is_map : typeOf root = .map) (field : Bytes) :
    rpc_get_string_len lib field value = (textField root field).elim 0 List.length := by
  obtain ⟨there, nothing⟩ | ⟨place, found, result, there, read, addressed⟩ := rpc_get_data_spec correct current is_map field
  · simp [rpc_get_string_len, nothing, textField, there]
  · simp only [rpc_get_string_len, read, cbor_value_is_text_string, type_eq correct addressed, textField, there]
    by_cases text : typeOf found = .textString
    · obtain ⟨content, holds⟩ := @content_of_type found true text
      simp [text, holds, stringLength_eq correct addressed holds]
    · have other := @content_none found true text
      simp [text, other]

/-- The id that a reply or a rejection has. -/
def idOf (root : Item) : Bytes :=
  (textField root CBOR_RPC_TAG_ID).elim [] fun id => if id.length ≤ MAXLEN_ID then id else []

theorem rpc_get_id_eq (correct : lib.toTinycbor.Correct view) (current : (view value).current = some (0, root))
    (is_map : typeOf root = .map) : rpc_get_id lib value = .ok (idOf root) := by
  have kind := type_eq correct current
  simp only [rpc_get_id, cbor_value_is_valid, cbor_value_is_map, kind, is_map, rpc_get_string]
  obtain ⟨there, nothing⟩ | ⟨place, found, result, there, read, addressed⟩ :=
    rpc_get_data_spec correct current is_map CBOR_RPC_TAG_ID
  · simp [nothing, idOf, textField, there]
  · simp only [read, cbor_value_is_text_string, type_eq correct addressed, idOf, textField, there]
    by_cases text : typeOf found = .textString
    · obtain ⟨content, holds⟩ := @content_of_type found true text
      by_cases room : content.length ≤ MAXLEN_ID
      · have fits : ¬ MAXLEN_ID + 1 ≤ content.length := by omega
        have most : content.length ≤ MAXLEN_ID + 1 := by omega
        have shorter : content.length < MAXLEN_ID + 1 := by omega
        simp [text, holds, stringLength_eq correct addressed holds, room, fits,
          correct.copy_text_string addressed holds most, copied, shorter]
      · have large : MAXLEN_ID + 1 ≤ content.length := by omega
        simp [text, holds, stringLength_eq correct addressed holds, room, large]
    · have other := @content_none found true text
      simp [text, other]

theorem rpc_request_valid_iff (correct : lib.toTinycbor.Correct view) (current : (view value).current = some (0, root))
    (is_map : typeOf root = .map) : rpc_request_valid lib value = true ↔ Request root := by
  have kind := type_eq correct current
  have counted (text : Option Bytes) (most : Nat) : ¬ (text.elim 0 List.length = 0 ∨ most < text.elim 0 List.length) ↔
      ∃ content, text = some content ∧ content ≠ [] ∧ content.length ≤ most := by
    cases text with
    | none => simp
    | some content => simp [List.length_eq_zero_iff]
  simp only [rpc_request_valid, rpc_message_valid, cbor_value_is_valid, cbor_value_is_map, kind, is_map,
    rpc_get_string_len_eq correct current is_map, Request, ← counted]
  by_cases id : (textField root CBOR_RPC_TAG_ID).elim 0 List.length = 0 ∨
      MAXLEN_ID < (textField root CBOR_RPC_TAG_ID).elim 0 List.length
  · simp [id]
  · by_cases method : (textField root CBOR_RPC_TAG_METHOD).elim 0 List.length = 0 ∨
        MAXLEN_METHOD < (textField root CBOR_RPC_TAG_METHOD).elim 0 List.length
    · simp [id, method]
    · simp [id, method]

theorem rpc_get_data_some {field : Bytes} {result : V} (read : rpc_get_data lib.toTinycbor field value = some result) :
    cbor_value_is_valid lib.toTinycbor value = true ∧ cbor_value_is_map lib.toTinycbor value = true := by
  rw [rpc_get_data] at read
  grind

/-- A string stops the device if its length is read and fits, and the string is not copied. -/
theorem rpc_get_string_stops_iff (field : Bytes) {max : Nat} (positive : 0 < max) :
    (∃ halt, rpc_get_string lib.toTinycbor field max value = .error halt) ↔
      ∃ result length, rpc_get_data lib.toTinycbor field value = some result ∧
        cbor_value_is_text_string lib.toTinycbor result = true ∧ stringLength lib.toTinycbor result = some length ∧
        length < max ∧ ∀ copy written, lib.cbor_value_copy_text_string result max = some (copy, written) →
          written < max → copy[written]? ≠ some 0 := by
  simp only [rpc_get_string, positive, decide_true, Check.ensure_true, Check.ok_bind]
  cases read : rpc_get_data lib.toTinycbor field value with
  | none => simp
  | some result =>
    by_cases text : cbor_value_is_text_string lib.toTinycbor result = true
    · cases counted : stringLength lib.toTinycbor result with
      | none => simp [text, counted]
      | some length =>
        by_cases fits : length < max
        · cases copied : lib.cbor_value_copy_text_string result max with
          | none => simp [text, counted, Nat.not_le.mpr fits, fits, copied]
          | some copy =>
            obtain ⟨data, written⟩ := copy
            by_cases room : written < max
            · by_cases nul : data[written]? = some 0
              · simp [text, counted, Nat.not_le.mpr fits, fits, copied, room, nul]
              · simp [text, counted, Nat.not_le.mpr fits, fits, copied, room, nul]
            · simp [text, counted, Nat.not_le.mpr fits, fits, copied, room]
        · simp [text, counted, Nat.le_of_not_lt fits, fits]
    · simp [text]

theorem rpc_get_id_stops_iff : (∃ halt, rpc_get_id lib value = .error halt) ↔
    ∃ halt, rpc_get_string lib.toTinycbor CBOR_RPC_TAG_ID (MAXLEN_ID + 1) value = .error halt := by
  by_cases shown : cbor_value_is_valid lib.toTinycbor value = true ∧ cbor_value_is_map lib.toTinycbor value = true
  · simp only [rpc_get_id, shown, Bool.not_true, Bool.false_eq_true, if_false, Check.bind_stops_iff]
    refine ⟨fun either => either.elim id ?_, .inl⟩
    rintro ⟨found, _, halt, stops⟩
    cases found <;> cases stops
  · have returned : ¬ ∃ halt, rpc_get_id lib value = .error halt := by
      rintro ⟨halt, stops⟩
      rw [rpc_get_id] at stops
      grind
    refine ⟨fun stops => absurd stops returned, fun stops => ?_⟩
    obtain ⟨result, length, read, _⟩ := (rpc_get_string_stops_iff CBOR_RPC_TAG_ID (Nat.succ_pos MAXLEN_ID)).mp stops
    exact absurd (rpc_get_data_some read) shown

end

/-! ### Fields -/

/-- What asking for a pointer to a string comes to. -/
def contentOf (text : Bool) (found : Option (Nat × Item)) : Check Fault Bytes :=
  match found with
  | some (_, .string kind chunk) =>
    if kind = text ∧ chunk.content ≠ [] then
      if chunk.head.form = .eight then .error .abort else .ok chunk.content
    else .ok []
  | _ => .ok []

/-- The number of a path that an item is. -/
def pathNumber : Item → Option Nat
  | .unsigned head => if 0xFFFFFFFF < head.value then none else some head.value
  | _ => none

/-- The path that an array of known length is. -/
def elementsOf (max_path_len : Nat) (found : Option (Nat × Item)) : Option (List Nat) :=
  match found with
  | some (_, .array (some _) items) => if max_path_len < items.length then none else items.mapM pathNumber
  | _ => none

/-- A field that is there and is not null. -/
def hasData (found : Option (Nat × Item)) : Bool :=
  match found with
  | some (_, .simple head) => !(head.form == .inside && head.value == 22)
  | some _ => true
  | none => false

theorem contentOf_answers (text : Bool) (found : Option (Nat × Item)) :
    (∃ content, contentOf text found = .ok content) ∨ contentOf text found = .error .abort := by
  rw [contentOf.eq_def]
  split
  · split
    · split
      · exact .inr rfl
      · exact .inl ⟨_, rfl⟩
    · exact .inl ⟨_, rfl⟩
  · exact .inl ⟨_, rfl⟩

section
variable {V : Type} {lib : Library V} {view : V → Cursor} {input : Bytes} {value : V} {offset : Nat} {item : Item}

theorem pointedBytes_eq {text : Bool} (located : Located input offset item) :
    pointedBytes input (pointed text offset item) = contentOf text (some (offset, item)) := by
  cases item with
  | string kind chunk =>
    by_cases asked : kind = text ∧ chunk.content ≠ []
    · by_cases eight : chunk.head.form = .eight
      · simp [pointedBytes, pointed, contentOf, asked, eight]
      · have made : pointed text offset (.string kind chunk) =
            .ok { data := some (offset + (1 + chunk.head.form.width)), size := chunk.content.length } := by
          rw [pointed, if_pos asked, if_neg eight]
        obtain ⟨_, other, same, _, _, inside, contents⟩ := pointed_delimits located made _ rfl
        cases same
        rw [made, contentOf, if_pos asked, if_neg eight, pointedBytes, Check.ok_bind]
        dsimp only
        rw [if_pos inside, contents]
        rfl
    · rw [pointed, if_neg asked, contentOf, if_neg asked]
      rfl
  | _ => rfl

theorem type_bytes_eq (correct : lib.toTinycbor.Correct view) (current : (view value).current = some (offset, item))
    (is_map : typeOf item = .map) (located : Located input offset item) (formed : WellFormed item) (field : Bytes)
    (text : Bool) : pointedBytes input (rpc_get_type_ptr lib.toTinycbor input field value (maskOf text)) =
      contentOf text (item.field field offset) := by
  rw [type_ptr_eq correct current is_map located formed]
  cases there : item.field field offset with
  | none => rfl
  | some found =>
    obtain ⟨place, found⟩ := found
    exact pointedBytes_eq (located.field formed there).1

theorem rpc_has_field_data_eq (correct : lib.Correct view) (current : (view value).current = some (offset, item))
    (is_map : typeOf item = .map) (field : Bytes) : rpc_has_field_data lib field value = hasData (item.field field offset) := by
  rw [rpc_has_field_data]
  obtain ⟨there, nothing⟩ | ⟨place, found, result, there, read, addressed⟩ :=
    rpc_get_data_spec correct.toCorrect current is_map field
  · rw [nothing, there]
    rfl
  · rw [read, there, Option.any_some, Bool.eq_iff_iff, Bool.not_eq_true', Bool.eq_false_iff, ne_eq, correct.is_null addressed]
    cases found with
    | simple head => simp [hasData, imp_iff_not_or]
    | _ => simp [hasData]

theorem get_msg_params_spec (correct : lib.Correct view) (current : (view value).current = some (offset, item))
    (is_map : typeOf item = .map) :
    ((item.field CBOR_RPC_TAG_PARAMS offset).filter (typeOf ·.2 = .map) = none ∧ get_msg_params lib value = none) ∨
      ∃ place map params, item.field CBOR_RPC_TAG_PARAMS offset = some (place, map) ∧ typeOf map = .map ∧
        get_msg_params lib value = some params ∧ (view params).current = some (place, map) := by
  obtain ⟨result, looked_up, addressed⟩ := correct.map_find_value CBOR_RPC_TAG_PARAMS current is_map
  simp only [get_msg_params, looked_up, cbor_value_is_valid, cbor_value_is_map, correct.get_type, addressed]
  cases there : item.field CBOR_RPC_TAG_PARAMS offset with
  | none => exact .inl ⟨rfl, rfl⟩
  | some found =>
    obtain ⟨place, map⟩ := found
    rw [there] at addressed
    by_cases maps : typeOf map = .map
    · exact .inr ⟨place, map, result, rfl, maps, by simp [maps], addressed⟩
    · exact .inl ⟨by simp [maps], by simp [maps]⟩

/-- The loop over a path reads all of its items, or stops at one that is no number of a path. -/
theorem pathItems_eq (correct : lib.toTinycbor.Correct view) {items : List Item} (there : (view value).items = items) :
    ∃ outcome, pathItems lib.toTinycbor items.length value = .ok outcome ∧ outcome.map Prod.fst = items.mapM pathNumber ∧
      ∀ path last, outcome = some (path, last) → (view last).items = [] := by
  induction items generalizing value with
  | nil => exact ⟨_, rfl, rfl, fun path last same => by cases same; exact there⟩
  | cons item items ih =>
    have going : lib.cbor_value_at_end value = false := by
      rw [correct.at_end, there]
      rfl
    have current : (view value).current = some ((view value).offset, item) := by
      rw [Cursor.current, there]
      rfl
    simp only [List.length_cons, pathItems, going, Bool.not_false, Check.ensure_true, Check.ok_bind, List.mapM_cons]
    by_cases number : lib.cbor_value_is_unsigned_integer value = true
    · obtain ⟨head, rfl⟩ := (correct.is_unsigned_integer current).mp number
      obtain ⟨next, advanced, behind⟩ := correct.advance_fixed there
      obtain ⟨outcome, rest, paths, ends⟩ := ih behind
      simp only [number, Bool.not_true, Bool.false_eq_true, if_false, correct.get_uint64 current, advanced, rest,
        Check.ok_bind, pathNumber, ← paths]
      by_cases large : 0xFFFFFFFF < head.value
      · simp only [large, if_true]
        exact ⟨none, rfl, rfl, fun path last same => by cases same⟩
      · simp only [large, if_false]
        cases outcome with
        | none => exact ⟨none, rfl, rfl, fun path last same => by cases same⟩
        | some found =>
          refine ⟨_, rfl, rfl, fun path last same => ?_⟩
          cases same
          exact ends _ _ rfl
    · have other : pathNumber item = none := by
        cases item with
        | unsigned head => exact absurd ((correct.is_unsigned_integer current).mpr ⟨head, rfl⟩) number
        | _ => rfl
      simp only [number, other]
      exact ⟨none, rfl, rfl, fun path last same => by cases same⟩

theorem rpc_get_bip32_path_eq (correct : lib.Correct view) (current : (view value).current = some (offset, item))
    (is_map : typeOf item = .map) (field : Bytes) {max_path_len : Nat} (positive : 0 < max_path_len) :
    rpc_get_bip32_path lib.toTinycbor field value max_path_len = .ok (elementsOf max_path_len (item.field field offset)) := by
  rw [rpc_get_bip32_path]
  obtain ⟨there, nothing⟩ | ⟨place, found, result, there, read, addressed⟩ :=
    rpc_get_data_spec correct.toCorrect current is_map field
  · rw [nothing, there]
    rfl
  · simp only [read, there, rpc_get_bip32_path_from_value, positive, decide_true, Check.ensure_true, Check.ok_bind,
      cbor_value_is_array, type_eq correct.toCorrect addressed]
    cases found with
    | array head items =>
      obtain ⟨first, entered, inside⟩ := correct.enter_container addressed
      simp only [typeOf, beq_self_eq_true, Bool.not_true, Bool.false_eq_true, if_false, correct.get_array_length addressed,
        entered]
      cases head with
      | none => rfl
      | some head =>
        obtain ⟨outcome, loop, paths, ends⟩ := pathItems_eq correct.toCorrect inside
        simp only [Option.map_some, elementsOf, loop, Check.ok_bind]
        by_cases long : max_path_len < items.length
        · rw [if_pos long, if_pos long]
          rfl
        · rw [if_neg long, if_neg long, ← paths]
          cases outcome with
          | none => rfl
          | some found =>
            obtain ⟨path, last⟩ := found
            have done := ends path last rfl
            have at_end : lib.cbor_value_at_end last = true := by
              rw [correct.at_end, done]
              rfl
            simp only [at_end, Check.ensure_true, Check.ok_bind, correct.leave_container addressed done, if_true]
            rfl
    | string text | chunked text => cases text <;> rfl
    | _ => rfl

theorem pathNumbers_length {items : List Item} {path : List Nat} (read : items.mapM pathNumber = some path) :
    path.length = items.length := by
  induction items generalizing path with
  | nil =>
    cases read
    rfl
  | cons item items ih =>
    rw [List.mapM_cons] at read
    obtain ⟨_, _, read⟩ := Option.bind_eq_some_iff.mp read
    obtain ⟨later, rest, made⟩ := Option.bind_eq_some_iff.mp read
    cases made
    rw [List.length_cons, List.length_cons, ih rest]

theorem elementsOf_length {max_path_len : Nat} {found : Option (Nat × Item)} {path : List Nat}
    (given : elementsOf max_path_len found = some path) : path.length ≤ max_path_len := by
  rw [elementsOf.eq_def] at given
  split at given
  · split at given
    · cases given
    · rename_i short
      rw [pathNumbers_length given]
      exact Nat.le_of_not_lt short
  · cases given

end

/-! ### A library -/

/-- The library whose values are what they stand for. -/
def referenceLibrary : Library Cursor where
  toTinycbor := reference
  cbor_value_advance cursor := cursor.items.head?.map fun item => cursor.offset + item.bytes.length
  cbor_value_get_boolean cursor :=
    match cursor.items with
    | .simple head :: _ => if head.value = 20 then some false else if head.value = 21 then some true else none
    | _ => none
  cbor_value_is_null cursor :=
    match cursor.items with
    | .simple head :: _ => head.form == .inside && head.value == 22
    | _ => false

theorem referenceLibrary_correct : referenceLibrary.Correct id where
  toCorrect := reference_correct
  advance {input value ptr} parsed advanced := by
    obtain ⟨⟨root, rest⟩, read, rfl⟩ := Option.map_eq_some_iff.mp parsed
    obtain ⟨whole, formed⟩ := decode_eq_some_iff.mp read
    have alone : decode root.bytes = some (root, []) := decode_eq_some_iff.mpr ⟨(List.append_nil _).symm, formed⟩
    have ends : root.bytes.length = ptr := by simpa [referenceLibrary] using advanced
    exact ⟨root, rest, whole, formed, ends.symm, rfl, ⟨0, [root]⟩, by simp [referenceLibrary, reference, alone], rfl⟩
  is_null {value offset item} current := by
    obtain ⟨later, rfl⟩ := current_eq_some current
    cases item <;> simp [referenceLibrary]
  leave_container _ _ := rfl

end PiJade.CborRpc
