import PiJade.PsbtReply

/-!
What a request for another piece has to be to be accepted, and what becomes of every other message, told by
the fields of the message.
-/
namespace PiJade.PsbtReply
open Cbor CborRpc Text
set_option linter.unusedSimpArgs false

/-- The library is correct. -/
structure Library.Correct {V : Type} (lib : Library V) (view : V → Cursor) : Prop extends
    Tinycbor.Correct lib.toTinycbor view where
  text_string_equals {value : V} {offset : Nat} {item : Item} {content : Bytes} (text : Bytes) :
    (view value).current = some (offset, item) → item.content? true = some content →
    lib.cbor_value_text_string_equals value text = some (decide (content = text))

/-- A message was loaded, and this is its item. -/
def Loaded {V : Type} (lib : Library V) (message : CborMsg V) (root : Item) : Prop :=
  rpc_untrusted_parser_init lib.toTinycbor message.cbor = some message.value ∧
    ∃ rest, decode message.cbor = some (root, rest)

/-! ### Fields -/

def textField (field : Bytes) (offset : Nat) (map : Item) : Option Bytes :=
  (map.field field offset).bind fun found => found.2.content? true

def numberOf : Item → Option Nat
  | .unsigned head => some head.value
  | _ => none

def numberField (field : Bytes) (offset : Nat) (map : Item) : Option Nat :=
  (map.field field offset).bind fun found => numberOf found.2

/-- A text in one piece, its length not in eight bytes. -/
def Plain (field : Bytes) (offset : Nat) (map : Item) : Prop :=
  ∃ place chunk, map.field field offset = some (place, .string true chunk) ∧ chunk.head.form ≠ .eight

/-- A request for the method. -/
structure Request (method : Bytes) (root : Item) : Prop where
  id : ∃ id, textField CBOR_RPC_TAG_ID 0 root = some id ∧ id ≠ [] ∧ id.length ≤ MAXLEN_ID
  method : textField CBOR_RPC_TAG_METHOD 0 root = some method

/-- What the array for the id of the origin holds. -/
def heldId (array : Bytes) (id : Option Bytes) : Bytes :=
  written array (id.bind fun id => if id.length < MAXLEN_ID + 1 then some (id ++ [0], id.length) else none)

/-- The fields of the parameters are taken for those that are expected. -/
structure Accepts (array original_id : Bytes) (seqnum nmsgs : Nat) (place : Nat) (map : Item) : Prop where
  origin : ∃ there chunk, map.field orig place = some (there, .string true chunk) ∧ chunk.content = sign_psbt
  id : cstr (heldId array (textField origid place map)) = cstr original_id
  seqlen : numberField CBOR_RPC_TAG_SEQLEN place map = some nmsgs
  seqnum : numberField CBOR_RPC_TAG_SEQNUM place map = some seqnum

theorem text_iff {item : Item} : typeOf item = .textString ↔ ∃ content, item.content? true = some content := by
  constructor
  · exact fun text => @content_of_type item true text
  · rintro ⟨content, holds⟩
    cases item with
    | string text chunk | chunked text chunks =>
      cases text with
      | true => rfl
      | false => cases holds
    | _ => cases holds

section
variable {V : Type} {lib : Library V} {view : V → Cursor} {value : V} {offset : Nat} {map : Item}

theorem rpc_get_string_len_eq (correct : lib.Correct view) (current : (view value).current = some (offset, map))
    (is_map : typeOf map = .map) (field : Bytes) :
    rpc_get_string_len lib field value = (textField field offset map).elim 0 List.length := by
  rw [rpc_get_string_len, textField]
  obtain ⟨there, nothing⟩ | ⟨place, found, result, there, read, addressed⟩ :=
    rpc_get_data_spec correct.toCorrect current is_map field
  · simp [there, nothing]
  · simp only [there, read, Option.bind_some, cbor_value_is_text_string, type_eq correct.toCorrect addressed]
    cases holds : found.content? true with
    | some content =>
      simp [text_iff.mpr ⟨content, holds⟩, stringLength_eq correct.toCorrect addressed holds]
    | none =>
      have other : typeOf found ≠ .textString := by
        intro text
        obtain ⟨content, some⟩ := text_iff.mp text
        rw [holds] at some
        cases some
      simp [other]

theorem rpc_get_string_eq (correct : lib.Correct view) (current : (view value).current = some (offset, map))
    (is_map : typeOf map = .map) (field : Bytes) {max : Nat} (positive : 0 < max) :
    rpc_get_string lib.toTinycbor field max value = .ok ((textField field offset map).bind fun content =>
      if content.length < max then some (content ++ [0], content.length) else none) := by
  simp only [rpc_get_string, textField, positive, decide_true, Check.ensure_true, Check.ok_bind]
  obtain ⟨there, nothing⟩ | ⟨place, found, result, there, read, addressed⟩ :=
    rpc_get_data_spec correct.toCorrect current is_map field
  · simp [there, nothing]
  · simp only [there, read, Option.bind_some, cbor_value_is_text_string, type_eq correct.toCorrect addressed]
    cases holds : found.content? true with
    | some content =>
      simp only [text_iff.mpr ⟨content, holds⟩, stringLength_eq correct.toCorrect addressed holds, Option.bind_some]
      by_cases refused : max ≤ content.length
      · simp [refused]
      · have room : content.length < max := Nat.lt_of_not_le refused
        simp [refused, correct.copy_text_string addressed holds (Nat.le_of_lt room), copied, room]
    | none =>
      have other : typeOf found ≠ .textString := by
        intro text
        obtain ⟨content, some⟩ := text_iff.mp text
        rw [holds] at some
        cases some
      simp [other]

theorem rpc_get_uint32_eq (correct : lib.Correct view) (current : (view value).current = some (offset, map))
    (is_map : typeOf map = .map) (field : Bytes) :
    rpc_get_uint32 lib field value =
      .ok ((numberField field offset map).bind fun n => if UINT32_MAX < n then none else some n) := by
  rw [rpc_get_uint32, numberField]
  obtain ⟨there, nothing⟩ | ⟨place, found, result, there, read, addressed⟩ :=
    rpc_get_data_spec correct.toCorrect current is_map field
  · simp [there, nothing]
  · simp only [there, read, Option.bind_some]
    by_cases number : lib.cbor_value_is_unsigned_integer result = true
    · obtain ⟨head, rfl⟩ := (correct.is_unsigned_integer addressed).mp number
      simp only [number, correct.get_uint64 addressed, numberOf, Option.bind_some]
      by_cases large : UINT32_MAX < head.value
      · simp [large]
      · simp [large]
    · have other : numberOf found = none := by
        cases found with
        | unsigned head => exact absurd ((correct.is_unsigned_integer addressed).mpr ⟨head, rfl⟩) number
        | _ => rfl
      simp [number, other]

/-! ### Requests -/

theorem textField_is_map {field content : Bytes} (there : textField field offset map = some content) :
    typeOf map = .map := by
  cases found : map.field field offset with
  | none => simp [textField, found] at there
  | some found_at => exact field_is_map found

/-- A text that is not empty and not too long. -/
theorem string_len_iff (correct : lib.Correct view) (current : (view value).current = some (offset, map))
    (is_map : typeOf map = .map) (field : Bytes) (most : Nat) :
    (rpc_get_string_len lib field value != 0 && decide (rpc_get_string_len lib field value ≤ most)) = true ↔
      ∃ content, textField field offset map = some content ∧ content ≠ [] ∧ content.length ≤ most := by
  rw [rpc_get_string_len_eq correct current is_map]
  cases textField field offset map with
  | none => simp
  | some content =>
    rw [Option.elim_some, Bool.and_eq_true, bne_iff_ne, decide_eq_true_iff]
    simp

theorem rpc_request_valid_iff (correct : lib.Correct view) (current : (view value).current = some (0, map)) :
    rpc_request_valid lib value = true ↔
      (∃ id, textField CBOR_RPC_TAG_ID 0 map = some id ∧ id ≠ [] ∧ id.length ≤ MAXLEN_ID) ∧
      ∃ method, textField CBOR_RPC_TAG_METHOD 0 map = some method ∧ method ≠ [] ∧ method.length ≤ MAXLEN_METHOD := by
  have kind := type_eq correct.toCorrect current
  by_cases is_map : typeOf map = .map
  · rw [← string_len_iff correct current is_map, ← string_len_iff correct current is_map]
    have valid : cbor_value_is_valid lib.toTinycbor value = true := by
      simp only [cbor_value_is_valid, kind, is_map]
      decide
    have is_map_value : cbor_value_is_map lib.toTinycbor value = true := by simp [cbor_value_is_map, kind, is_map]
    simp only [rpc_request_valid, rpc_message_valid, valid, is_map_value, Bool.true_and, Bool.and_eq_true, and_assoc]
  · constructor
    · intro valid
      simp [rpc_request_valid, rpc_message_valid, cbor_value_is_map, kind, is_map] at valid
    · rintro ⟨⟨id, there, _⟩, _⟩
      exact absurd (textField_is_map there) is_map

theorem rpc_is_method_eq (correct : lib.Correct view) (current : (view value).current = some (0, map)) {given : Bytes}
    (there : textField CBOR_RPC_TAG_METHOD 0 map = some given) (method : Bytes) :
    rpc_is_method lib value method = .ok (decide (given = method)) := by
  have kind := type_eq correct.toCorrect current
  have is_map := textField_is_map there
  obtain ⟨result, looked_up, addressed⟩ := correct.map_find_value CBOR_RPC_TAG_METHOD current is_map
  obtain ⟨⟨place, item⟩, found, holds⟩ := Option.bind_eq_some_iff.mp there
  rw [found] at addressed
  have result_kind : lib.cbor_value_get_type result = .textString :=
    (type_eq correct.toCorrect addressed).trans (text_iff.mpr ⟨given, holds⟩)
  have map_valid : (CborType.map != CborType.invalid) = true := by decide
  have text_valid : (CborType.textString != CborType.invalid) = true := by decide
  simp [rpc_is_method, rpc_key_equals, cbor_value_is_valid, cbor_value_is_map, cbor_value_is_text_string, kind, is_map,
    looked_up, result_kind, map_valid, text_valid, correct.text_string_equals method addressed holds]

/-- A message is one for the method if it is a request for it. -/
theorem is_current_message_spec (correct : lib.Correct view) {message : CborMsg V} {root : Item}
    (current : (view message.value).current = some (0, root)) {method : Bytes} (some_letters : method ≠ [])
    (short : method.length ≤ MAXLEN_METHOD) :
    ∃ holds, IS_CURRENT_MESSAGE lib message method = .ok holds ∧ (holds = true ↔ Request method root) := by
  have valid_iff := rpc_request_valid_iff correct current
  rw [IS_CURRENT_MESSAGE]
  by_cases valid : rpc_request_valid lib message.value = true
  · obtain ⟨id, given, there, _⟩ := valid_iff.mp valid
    refine ⟨decide (given = method), by rw [if_pos valid, rpc_is_method_eq correct current there], ?_⟩
    rw [decide_eq_true_iff]
    constructor
    · rintro rfl
      exact ⟨id, there⟩
    · intro request
      exact Option.some.inj (there.symm.trans request.method)
  · refine ⟨false, by rw [if_neg valid]; rfl, by simp, fun request => absurd ?_ valid⟩
    exact valid_iff.mpr ⟨request.id, method, request.method, some_letters, short⟩

/-! ### What is refused -/

/-- The parameters of a message. -/
def Params (place : Nat) (map : Item) (root : Item) : Prop :=
  root.field CBOR_RPC_TAG_PARAMS 0 = some (place, map) ∧ typeOf map = .map

/-- The numbers of a piece fit the fields that hold them. -/
def Counted (seqnum nmsgs : Nat) : Prop := seqnum ≤ UINT32_MAX ∧ nmsgs ≤ UINT32_MAX

/-- The length of the origin is not in eight bytes. -/
def NarrowOrigin (place : Nat) (map : Item) : Prop :=
  ∀ there item, map.field orig place = some (there, item) → ¬ Wide true item

/-- The next piece is sent. -/
structure Accepted (array original_id : Bytes) (seqnum nmsgs : Nat) (root : Item) : Prop where
  request : Request get_extended_data root
  params : ∃ place map, Params place map root ∧ Counted seqnum nmsgs ∧ NarrowOrigin place map ∧
    Accepts array original_id seqnum nmsgs place map

/-- The message is not taken for the request that is waited for. -/
def ToldApart (array original_id : Bytes) (seqnum nmsgs : Nat) (root : Item) : Prop :=
  Request get_extended_data root → ∃ place map, Params place map root ∧ Counted seqnum nmsgs ∧ NarrowOrigin place map ∧
    ¬ Accepts array original_id seqnum nmsgs place map

theorem GET_MSG_PARAMS_spec (correct : lib.Correct view) {message : CborMsg V} {root : Item}
    (current : (view message.value).current = some (0, root)) (is_map : typeOf root = .map) :
    (GET_MSG_PARAMS lib message = none ∧ ∀ place map, ¬ Params place map root) ∨
      ∃ place map params, Params place map root ∧ GET_MSG_PARAMS lib message = some params ∧
        (view params).current = some (place, map) := by
  obtain ⟨params, looked_up, addressed⟩ := correct.map_find_value CBOR_RPC_TAG_PARAMS current is_map
  cases there : root.field CBOR_RPC_TAG_PARAMS 0 with
  | none =>
    rw [there] at addressed
    have invalid : lib.cbor_value_get_type params = .invalid := by
      rw [correct.get_type, addressed]
      rfl
    refine .inl ⟨by simp [GET_MSG_PARAMS, looked_up, invalid], ?_⟩
    rintro place map ⟨found, _⟩
    rw [there] at found
    cases found
  | some found =>
    obtain ⟨place, map⟩ := found
    rw [there] at addressed
    have kind := type_eq correct.toCorrect addressed
    by_cases params_map : typeOf map = .map
    · have valid : (CborType.map != CborType.invalid) = true := by decide
      exact .inr ⟨place, map, params, ⟨there, params_map⟩,
        by simp [GET_MSG_PARAMS, looked_up, cbor_value_is_valid, cbor_value_is_map, kind, params_map, valid], addressed⟩
    · refine .inl ⟨by simp [GET_MSG_PARAMS, looked_up, cbor_value_is_map, kind, params_map], ?_⟩
      rintro place other ⟨found, other_map⟩
      rw [there] at found
      cases found
      exact params_map other_map

/-- A text that is pointed to is the one that is expected if it is in one piece. -/
theorem pointed_eq_iff {input : Bytes} {place : Nat} {item : Item} (located : Located input place item) {ptr : Ptr}
    (made : pointed true place item = .ok ptr) {text : Bytes} (letters : text ≠ []) (no_nul : 0 ∉ text) :
    (ptr.size = text.length ∧ strncmp (input.drop (ptr.data.getD 0)) text text.length = .eq) ↔
      ∃ chunk, item = .string true chunk ∧ chunk.content = text := by
  rw [strncmp_eq_iff no_nul]
  have positive := List.length_pos_iff.mpr letters
  cases data : ptr.data with
  | none =>
    have nothing : ptr.size = 0 ∧ ¬ ∃ chunk, item = .string true chunk ∧ chunk.content = text := by
      cases item with
      | string kind chunk =>
        rw [pointed] at made
        split at made
        · split at made
          · cases made
          · cases made
            cases data
        · rename_i other
          cases made
          refine ⟨rfl, ?_⟩
          rintro ⟨_, same, rfl⟩
          cases same
          exact other ⟨rfl, letters⟩
      | _ =>
        cases made
        exact ⟨rfl, by simp⟩
    exact ⟨fun equal => by omega, fun same => absurd same nothing.2⟩
  | some start =>
    obtain ⟨_, chunk, same, _, size, inside, contents⟩ := pointed_delimits located made start data
    obtain ⟨_, rfl⟩ : place = _ ∧ item = .string true chunk := by simpa using same
    rw [Option.getD_some, size]
    rw [size] at contents
    constructor
    · rintro ⟨length, starts⟩
      refine ⟨chunk, rfl, ?_⟩
      rw [length] at contents
      rw [← contents]
      exact (List.prefix_iff_eq_take.mp starts).symm
    · rintro ⟨other, equal, rfl⟩
      cases equal
      exact ⟨rfl, by rw [List.prefix_iff_eq_take, contents]⟩

/-- A pointer to the origin is asked for. -/
theorem origin_ptr_spec (correct : lib.Correct view) {input : Bytes} {params : V} {place : Nat}
    (current : (view params).current = some (place, map)) (is_map : typeOf map = .map) (located : Located input place map)
    (formed : WellFormed map) {text : Bytes} (letters : text ≠ []) (no_nul : 0 ∉ text) :
    (¬ NarrowOrigin place map ∧ rpc_get_string_ptr lib.toTinycbor input orig params = .error .abort) ∨
      (NarrowOrigin place map ∧ ∃ ptr, rpc_get_string_ptr lib.toTinycbor input orig params = .ok ptr ∧
        ((ptr.size = text.length ∧ strncmp (input.drop (ptr.data.getD 0)) text text.length = .eq) ↔
          ∃ there chunk, map.field orig place = some (there, .string true chunk) ∧ chunk.content = text)) := by
  have asked : rpc_get_string_ptr lib.toTinycbor input orig params =
      (map.field orig place).elim (.ok .null) fun found => pointed true found.1 found.2 :=
    type_ptr_eq correct.toCorrect current is_map located formed orig true
  rw [asked]
  cases there : map.field orig place with
  | none =>
    refine .inr ⟨?_, .null, rfl, ?_⟩
    · rintro at_place item found
      rw [there] at found
      cases found
    · constructor
      · rintro ⟨size, _⟩
        exact absurd (List.length_eq_zero_iff.mp size.symm) letters
      · rintro ⟨_, _, found, _⟩
        cases found
  | some found =>
    obtain ⟨at_place, item⟩ := found
    by_cases wide : Wide true item
    · exact .inl ⟨fun narrow => narrow at_place item there wide, pointed_wide wide⟩
    · obtain ⟨ptr, made⟩ := @pointed_ok at_place item true wide
      refine .inr ⟨?_, ptr, made, ?_⟩
      · rintro other_place other found
        rw [there] at found
        cases found
        exact wide
      · rw [pointed_eq_iff (located.field formed there).1 made letters no_nul]
        simp

theorem uint32_eq_some_iff {given : Option Nat} {expected : Nat} (fits : expected ≤ UINT32_MAX) :
    (given.bind fun n => if UINT32_MAX < n then none else some n) = some expected ↔ given = some expected := by
  cases given with
  | none => simp
  | some n =>
    rw [Option.bind_some]
    by_cases large : UINT32_MAX < n
    · rw [if_pos large, Option.some.injEq]
      exact ⟨fun nothing => (by cases nothing), fun same => by omega⟩
    · rw [if_neg large]

/-- The fields are checked, if the numbers fit and the origin is not wide. -/
theorem check_extended_data_fields_spec (correct : lib.Correct view) {input : Bytes} {params : V} {place : Nat}
    (current : (view params).current = some (place, map)) (is_map : typeOf map = .map) (located : Located input place map)
    (formed : WellFormed map) (array original_id : Bytes) (seqnum nmsgs : Nat) :
    (¬ (Counted seqnum nmsgs ∧ NarrowOrigin place map) ∧
      check_extended_data_fields lib input params array original_id sign_psbt seqnum nmsgs = .error .abort) ∨
    ((Counted seqnum nmsgs ∧ NarrowOrigin place map) ∧
      ∃ holds, check_extended_data_fields lib input params array original_id sign_psbt seqnum nmsgs = .ok holds ∧
        (holds = true ↔ Accepts array original_id seqnum nmsgs place map)) := by
  rw [check_extended_data_fields]
  by_cases counted : Counted seqnum nmsgs
  · obtain ⟨seqnum_fits, nmsgs_fits⟩ := counted
    simp only [seqnum_fits, nmsgs_fits, decide_true, Check.ensure_true, Check.ok_bind]
    obtain ⟨wide, asked⟩ | ⟨narrow, ptr, asked, origin⟩ :=
      @origin_ptr_spec _ _ _ _ correct _ _ _ current is_map located formed sign_psbt (by decide) (by decide)
    · exact .inl ⟨fun both => wide both.2, by rw [asked]; rfl⟩
    · refine .inr ⟨⟨⟨seqnum_fits, nmsgs_fits⟩, narrow⟩, ?_⟩
      have seqlen_iff := @uint32_eq_some_iff (numberField CBOR_RPC_TAG_SEQLEN place map) nmsgs nmsgs_fits
      have seqnum_iff := @uint32_eq_some_iff (numberField CBOR_RPC_TAG_SEQNUM place map) seqnum seqnum_fits
      rw [asked, rpc_get_string_eq correct current is_map origid (by decide),
        rpc_get_uint32_eq correct current is_map, rpc_get_uint32_eq correct current is_map]
      simp only [Check.ok_bind]
      by_cases from_origin : (ptr.size = sign_psbt.length ∧
          strncmp (input.drop (ptr.data.getD 0)) sign_psbt sign_psbt.length = .eq) ∧
          cstr (heldId array (textField origid place map)) = cstr original_id
      · obtain ⟨⟨size, same⟩, id⟩ := from_origin
        have there := origin.mp ⟨size, same⟩
        rw [if_neg (by rw [← heldId, id]; simp [size, same])]
        cases seqlen : (numberField CBOR_RPC_TAG_SEQLEN place map).bind fun n => if UINT32_MAX < n then none else some n with
        | none =>
          exact ⟨false, rfl, by simp, fun accepts => by rw [seqlen_iff.mpr accepts.seqlen] at seqlen; cases seqlen⟩
        | some given_len =>
          by_cases right_len : given_len = nmsgs
          · subst right_len
            cases seqnum_read : (numberField CBOR_RPC_TAG_SEQNUM place map).bind fun n =>
                if UINT32_MAX < n then none else some n with
            | none =>
              refine ⟨false, by simp, by simp, fun accepts => ?_⟩
              rw [seqnum_iff.mpr accepts.seqnum] at seqnum_read
              cases seqnum_read
            | some given_num =>
              refine ⟨decide (given_num = seqnum), by simp, ?_⟩
              rw [decide_eq_true_iff]
              constructor
              · rintro rfl
                exact ⟨there, id, seqlen_iff.mp seqlen, seqnum_iff.mp seqnum_read⟩
              · intro accepts
                exact Option.some.inj (seqnum_read.symm.trans (seqnum_iff.mpr accepts.seqnum))
          · refine ⟨false, by simp [right_len], by simp, fun accepts => absurd ?_ right_len⟩
            exact Option.some.inj (seqlen.symm.trans (seqlen_iff.mpr accepts.seqlen))
      · refine ⟨false, ?_, by simp, fun accepts => absurd ⟨origin.mpr accepts.origin, accepts.id⟩ from_origin⟩
        rw [if_pos]
        · rfl
        · rw [← heldId]
          tauto
  · refine .inl ⟨fun both => counted both.1, ?_⟩
    by_cases seqnum_fits : seqnum ≤ UINT32_MAX
    · have large : ¬ nmsgs ≤ UINT32_MAX := fun fits => counted ⟨seqnum_fits, fits⟩
      simp [seqnum_fits, large]
    · simp [seqnum_fits]

/-- What becomes of a message that is waited for. -/
theorem awaited_spec (correct : lib.Correct view) {message : CborMsg V} {root : Item} (loaded : Loaded lib message root)
    (array original_id : Bytes) (seqnum nmsgs : Nat) :
    (awaited lib original_id seqnum nmsgs message array = .ok none ↔ Accepted array original_id (seqnum + 1) nmsgs root) ∧
    ((∃ text, awaited lib original_id seqnum nmsgs message array = .ok (some (.reject CBOR_RPC_PROTOCOL_ERROR text))) ↔
      ToldApart array original_id (seqnum + 1) nmsgs root) ∧
    ∀ reply, awaited lib original_id seqnum nmsgs message array = .ok (some reply) → ∃ code text, reply = .reject code text := by
  obtain ⟨accepted, rest, read⟩ := loaded
  obtain ⟨current, located, formed, _⟩ := accepted_spec correct.toCorrect accepted read
  obtain ⟨holds, asked, request_iff⟩ := @is_current_message_spec _ _ _ correct _ _ current get_extended_data
    (by decide) (by decide)
  rw [awaited, asked, Check.ok_bind]
  cases holds with
  | false =>
    have other : ¬ Request get_extended_data root := fun request => by cases request_iff.mpr request
    refine ⟨⟨fun nothing => (by cases nothing), fun accepted => absurd accepted.request other⟩, ?_, ?_⟩
    · exact ⟨fun _ request => absurd request other, fun _ => ⟨_, rfl⟩⟩
    · intro reply refused
      cases refused
      exact ⟨_, _, rfl⟩
  | true =>
    have request := request_iff.mp rfl
    have is_map := textField_is_map request.method
    obtain ⟨nothing, none_there⟩ | ⟨place, map, params, there, given, params_current⟩ :=
      GET_MSG_PARAMS_spec correct current is_map
    · rw [nothing]
      refine ⟨⟨fun nothing => (by cases nothing), fun accepted => ?_⟩, ⟨?_, fun refused => ?_⟩, ?_⟩
      · obtain ⟨place, map, found, _⟩ := accepted.params
        exact absurd found (none_there place map)
      · rintro ⟨text, refused⟩
        cases refused
      · obtain ⟨place, map, found, _⟩ := refused request
        exact absurd found (none_there place map)
      · intro reply refused
        cases refused
        exact ⟨_, _, rfl⟩
    · obtain ⟨at_place, map_formed⟩ := located.field formed there.1
      have only {other_place : Nat} {other : Item} (found : Params other_place other root) :
          other_place = place ∧ other = map := by
        have same := found.1.symm.trans there.1
        simpa using same
      rw [given]
      obtain ⟨unread, checked⟩ | ⟨⟨counted, narrow⟩, holds, checked, accepts_iff⟩ := check_extended_data_fields_spec correct
        params_current there.2 at_place map_formed array original_id (seqnum + 1) nmsgs
      · simp only [checked, Check.error_bind]
        refine ⟨⟨fun nothing => (by cases nothing), fun accepted => ?_⟩, ⟨?_, fun refused => ?_⟩, ?_⟩
        · obtain ⟨_, _, found, counted, narrow, _⟩ := accepted.params
          obtain ⟨rfl, rfl⟩ := only found
          exact absurd ⟨counted, narrow⟩ unread
        · rintro ⟨text, refused⟩
          cases refused
        · obtain ⟨_, _, found, counted, narrow, _⟩ := refused request
          obtain ⟨rfl, rfl⟩ := only found
          exact absurd ⟨counted, narrow⟩ unread
        · intro reply refused
          cases refused
      · simp only [checked, Check.ok_bind]
        cases holds with
        | true =>
          have accepts := accepts_iff.mp rfl
          refine ⟨⟨fun _ => ⟨request, place, map, there, counted, narrow, accepts⟩, fun _ => rfl⟩, ⟨?_, fun refused => ?_⟩, ?_⟩
          · rintro ⟨text, refused⟩
            cases refused
          · obtain ⟨_, _, found, _, _, other⟩ := refused request
            obtain ⟨rfl, rfl⟩ := only found
            exact absurd accepts other
          · intro reply refused
            cases refused
        | false =>
          have differs : ¬ Accepts array original_id (seqnum + 1) nmsgs place map := fun accepts => by
            cases accepts_iff.mpr accepts
          refine ⟨⟨fun nothing => (by cases nothing), fun accepted => ?_⟩, ⟨?_, fun _ => ⟨_, rfl⟩⟩, ?_⟩
          · obtain ⟨_, _, found, _, _, accepts⟩ := accepted.params
            obtain ⟨rfl, rfl⟩ := only found
            exact absurd accepts differs
          · exact fun _ _ => ⟨place, map, there, counted, narrow, differs⟩
          · intro reply refused
            cases refused
            exact ⟨_, _, rfl⟩

end

end PiJade.PsbtReply
