import PiJade.CborRequests
import PiJade.CborShort
import PiJade.SignMessageRequests

/-!
`sign_message_process`: the fields of a request are read out of its message. Message signing shows exactly what it signs,
unless a string that is asked for has a length of eight bytes, or the id cannot be replied to.
-/
namespace PiJade.SignMessage
open Text Wallet Cbor
open CborRpc (get_msg_params pointedBytes rpc_has_field_data rpc_get_string_ptr rpc_get_bytes_ptr rpc_get_bip32_path
  CBOR_RPC_TAG_PARAMS contentOf elementsOf hasData idOf typeOf Cursor)
open SettingsCodec (ascii)
set_option linter.unusedSimpArgs false

def MESSAGE_FILE : Bytes := ascii "message_file"
def MESSAGE : Bytes := ascii "message"
def PATH : Bytes := ascii "path"
def AE_HOST_COMMITMENT : Bytes := ascii "ae_host_commitment"
def AE_HOST_ENTROPY : Bytes := ascii "ae_host_entropy"

/-- A message that was taken from the queue: its bytes, and the value that they begin with. -/
structure InMessage (V : Type) where
  input : Bytes
  value : V

section
variable {V : Type} (cbor : CborRpc.Library V)

/-- The message that follows, if it is `get_signature`. -/
def signatureRequest (message : InMessage V) : GetSignature where
  rpc_get_id := CborRpc.rpc_get_id cbor message.value
  ae_host_entropy := (get_msg_params cbor message.value).map fun params =>
    pointedBytes message.input (rpc_get_bytes_ptr cbor.toTinycbor message.input AE_HOST_ENTROPY params)

/-- The fields of a request with these parameters. -/
def requestOf (message : InMessage V) (params : V) (get_signature : Option (InMessage V)) : Request where
  rpc_get_id := CborRpc.rpc_get_id cbor message.value
  rpc_get_id_ptr := pointedBytes message.input (CborRpc.rpc_get_id_ptr cbor message.input message.value)
  message_file :=
    if rpc_has_field_data cbor MESSAGE_FILE params then
      some (pointedBytes message.input (rpc_get_string_ptr cbor.toTinycbor message.input MESSAGE_FILE params))
    else none
  message := pointedBytes message.input (rpc_get_string_ptr cbor.toTinycbor message.input MESSAGE params)
  path := do
    let path ← rpc_get_bip32_path cbor.toTinycbor PATH params MAX_PATH_LEN
    pure (path.map (·.map UInt32.ofNat))
  ae_host_commitment :=
    if rpc_has_field_data cbor AE_HOST_COMMITMENT params then
      some (pointedBytes message.input (rpc_get_bytes_ptr cbor.toTinycbor message.input AE_HOST_COMMITMENT params))
    else none
  get_signature := get_signature.map (signatureRequest cbor)

def sign_message_process (lib : Library) (user : Screen → Bool) (message : InMessage V)
    (get_signature : Option (InMessage V)) : Sign Bytes :=
  match get_msg_params cbor message.value with
  | none => Proc.fail (.reject CBOR_RPC_BAD_PARAMETERS "Expecting parameters map")
  | some params => processRequest lib user (requestOf cbor message params get_signature)

end

/-! ### What a message says -/

/-- The parameters of a message, if they are a map. -/
def paramsOf (item : Item) : Option (Nat × Item) := (item.field CBOR_RPC_TAG_PARAMS 0).filter fun found => typeOf found.2 = .map

def signatureItem (item : Item) : GetSignature where
  rpc_get_id := .ok (idOf item)
  ae_host_entropy := (paramsOf item).map fun params => contentOf false (params.2.field AE_HOST_ENTROPY params.1)

/-- The request that a message is, with the message that follows. -/
def requestItem (item : Item) (get_signature : Option Item) : Option Request :=
  (paramsOf item).map fun params => {
    rpc_get_id := .ok (idOf item)
    rpc_get_id_ptr := contentOf true (item.field CborRpc.CBOR_RPC_TAG_ID 0)
    message_file :=
      if hasData (params.2.field MESSAGE_FILE params.1) then some (contentOf true (params.2.field MESSAGE_FILE params.1))
      else none
    message := contentOf true (params.2.field MESSAGE params.1)
    path := .ok ((elementsOf MAX_PATH_LEN (params.2.field PATH params.1)).map (·.map UInt32.ofNat))
    ae_host_commitment :=
      if hasData (params.2.field AE_HOST_COMMITMENT params.1) then
        some (contentOf false (params.2.field AE_HOST_COMMITMENT params.1))
      else none
    get_signature := get_signature.map signatureItem }

theorem requestItem_answered {item : Item} {get_signature : Option Item} {request : Request}
    (reads : requestItem item get_signature = some request) : request.Answered := by
  obtain ⟨params, _, rfl⟩ := Option.map_eq_some_iff.mp reads
  refine ⟨.inl ⟨_, rfl⟩, CborRpc.contentOf_answers .., fun field there => ?_, CborRpc.contentOf_answers .., ⟨_, rfl, ?_⟩,
    fun field there => ?_, fun next there => ?_, fun next field there asked => ?_⟩
  · dsimp only at there
    split at there
    · cases there
      exact CborRpc.contentOf_answers ..
    · cases there
  · intro elements given
    obtain ⟨path, found, rfl⟩ := Option.map_eq_some_iff.mp given
    rw [List.length_map]
    exact CborRpc.elementsOf_length found
  · dsimp only at there
    split at there
    · cases there
      exact CborRpc.contentOf_answers ..
    · cases there
  · obtain ⟨follows, _, rfl⟩ := Option.map_eq_some_iff.mp there
    exact .inl ⟨_, rfl⟩
  · obtain ⟨follows, _, rfl⟩ := Option.map_eq_some_iff.mp there
    obtain ⟨params, _, rfl⟩ := Option.map_eq_some_iff.mp asked
    exact CborRpc.contentOf_answers ..

/-- A message from the queue is a well-formed request, and its value stands for it. -/
structure Stands {V : Type} (view : V → Cursor) (message : InMessage V) (item : Item) : Prop where
  value : (view message.value).current = some (0, item)
  located : Located message.input 0 item
  formed : WellFormed item
  request : CborRpc.Request item

theorem Stands.is_map {V : Type} {view : V → Cursor} {message : InMessage V} {item : Item} (stands : Stands view message item) :
    typeOf item = .map := by
  obtain ⟨⟨id, there, _⟩, _⟩ := stands.request
  obtain ⟨found, found_at, _⟩ := Option.bind_eq_some_iff.mp there
  exact CborRpc.field_is_map found_at

section
variable {V : Type} {cbor : CborRpc.Library V} {view : V → Cursor} (correct : cbor.Correct view)
  {message : InMessage V} {item : Item} (stands : Stands view message item)
include correct stands

/-- The parameters that are found are those of the item. -/
theorem params_spec : (paramsOf item = none ∧ get_msg_params cbor message.value = none) ∨
    ∃ place map params, paramsOf item = some (place, map) ∧ get_msg_params cbor message.value = some params ∧
      (view params).current = some (place, map) ∧ typeOf map = .map ∧ Located message.input place map ∧ WellFormed map := by
  obtain ⟨nothing, missing⟩ | ⟨place, map, params, there, maps, found, current⟩ :=
    CborRpc.get_msg_params_spec correct stands.value stands.is_map
  · exact .inl ⟨nothing, missing⟩
  · obtain ⟨located, formed⟩ := stands.located.field stands.formed there
    refine .inr ⟨place, map, params, ?_, found, current, maps, located, formed⟩
    rw [paramsOf, there]
    simp [maps]

theorem signatureRequest_eq : signatureRequest cbor message = signatureItem item := by
  rw [signatureRequest, signatureItem, CborRpc.rpc_get_id_eq correct.toCorrect stands.value stands.is_map]
  obtain ⟨nothing, missing⟩ | ⟨place, map, params, there, found, current, maps, located, formed⟩ := params_spec correct stands
  · rw [nothing, missing]
    rfl
  · rw [there, found, Option.map_some, Option.map_some]
    have bytes := CborRpc.type_bytes_eq correct.toCorrect current maps located formed AE_HOST_ENTROPY false
    exact congrArg (GetSignature.mk _ <| some ·) bytes

/-- What is read of a message is what it says. -/
theorem requestOf_eq {get_signature : Option (InMessage V)} {next : Option Item}
    (follows : Option.Rel (Stands view) get_signature next) {place : Nat} {map : Item} {params : V}
    (there : paramsOf item = some (place, map)) (current : (view params).current = some (place, map))
    (maps : typeOf map = .map) (located : Located message.input place map) (formed : WellFormed map) :
    requestItem item next = some (requestOf cbor message params get_signature) := by
  have text (field : Bytes) : pointedBytes message.input
      (rpc_get_string_ptr cbor.toTinycbor message.input field params) = contentOf true (map.field field place) :=
    CborRpc.type_bytes_eq correct.toCorrect current maps located formed field true
  have bytes (field : Bytes) : pointedBytes message.input
      (rpc_get_bytes_ptr cbor.toTinycbor message.input field params) = contentOf false (map.field field place) :=
    CborRpc.type_bytes_eq correct.toCorrect current maps located formed field false
  have id_ptr : pointedBytes message.input (CborRpc.rpc_get_id_ptr cbor message.input message.value) =
      contentOf true (item.field CborRpc.CBOR_RPC_TAG_ID 0) :=
    CborRpc.type_bytes_eq correct.toCorrect stands.value stands.is_map stands.located stands.formed _ true
  have id := CborRpc.rpc_get_id_eq correct.toCorrect stands.value stands.is_map
  have path := CborRpc.rpc_get_bip32_path_eq correct current maps PATH (show 0 < MAX_PATH_LEN by decide)
  have later : get_signature.map (signatureRequest cbor) = next.map signatureItem := by
    cases follows with
    | none => rfl
    | some stands => exact congrArg some (signatureRequest_eq correct stands)
  rw [requestItem, there, Option.map_some, requestOf, later, id, id_ptr, text, text, bytes, path,
    CborRpc.rpc_has_field_data_eq correct current maps, CborRpc.rpc_has_field_data_eq correct current maps]
  rfl

end

/-- Message signing shows exactly what it signs. That holds for every file, and for a request exactly if nothing in it stops
    the device: a field that is asked for and whose length takes eight bytes, or an id that a reply cannot have. -/
theorem signing_shows_what_it_signs (lib : Library) (correct : lib.Correct) :
    (∀ (user : Screen → Bool) (str : Bytes) (sig_len : Nat), str ≠ [] → EC_SIGNATURE_LEN * 2 ≤ sig_len →
      Faithful lib user (InFile lib str) (fun _ _ => False) (sign_message_file lib user str sig_len [])) ∧
    ∀ {V : Type} (cbor : CborRpc.Library V) (view : V → Cursor), cbor.Correct view →
      ∀ (message : InMessage V) (item : Item), Stands view message item →
      ∀ (get_signature : Option (InMessage V)) (next : Option Item), Option.Rel (Stands view) get_signature next →
        (∀ request, requestItem item next = some request →
          ((∀ user, Faithful lib user (AskedOf lib request) (AutoOf request)
            (sign_message_process cbor lib user message get_signature [])) ↔ ¬ Stops lib request)) ∧
        (requestItem item next = none → ∀ user, sign_message_process cbor lib user message get_signature [] =
          (.error (.error (.reject CBOR_RPC_BAD_PARAMETERS "Expecting parameters map")), [])) := by
  refine ⟨fun user str sig_len some_text room => ?_, ?_⟩
  · exact faithful_of_wp (Proc.wp_mono (wp_file correct some_text room)
      (fun _ _ produced => produced.faithful _ ⟨by simp, by simp⟩) fun _ _ refused => refused.faithful)
  · intro V cbor view cbor_correct message item stands get_signature next follows
    obtain ⟨nothing, missing⟩ | ⟨place, map, params, there, found, current, maps, located, formed⟩ :=
      params_spec cbor_correct stands
    · refine ⟨fun request reads => ?_, fun _ user => ?_⟩
      · rw [requestItem, nothing] at reads
        cases reads
      · rw [sign_message_process, missing]
        rfl
    · have reads := requestOf_eq cbor_correct stands follows there current maps located formed
      refine ⟨fun request given => ?_, fun nothing => by cases nothing.symm.trans reads⟩
      cases reads.symm.trans given
      simp only [sign_message_process, found]
      exact processRequest_faithful_iff correct (requestItem_answered reads)

/-! ### A request -/

theorem head_value (form : Form) (content : Bytes) (fits : content.length < form.limit) :
    content.length = (Head.mk form content.length fits).value :=
  rfl

def textItem (form : Form) (content : Bytes) (fits : content.length < form.limit) : Item :=
  .string true ⟨⟨form, content.length, fits⟩, content, head_value form content fits⟩

/-- To sign "hi", with its length written in that form, with a child of the root. -/
def hiParams (form : Form) (fits : 2 < form.limit) : Item :=
  .mapOf [
    (textItem .inside MESSAGE (by decide), textItem form (ascii "hi") fits),
    (textItem .inside PATH (by decide), .arrayOf [.uint 1])]

def hiRequest (form : Form) (fits : 2 < form.limit) : Item :=
  .mapOf [
    (textItem .inside CborRpc.CBOR_RPC_TAG_ID (by decide), textItem .inside (ascii "1") (by decide)),
    (textItem .inside CborRpc.CBOR_RPC_TAG_METHOD (by decide), textItem .inside (ascii "sign_message") (by decide)),
    (textItem .inside CBOR_RPC_TAG_PARAMS (by decide), hiParams form fits)]

def hiMessage (form : Form) (fits : 2 < form.limit) : InMessage Cursor where
  input := (hiRequest form fits).bytes
  value := ⟨0, [hiRequest form fits]⟩

theorem hiMessage_stands (form : Form) (fits : 2 < form.limit) : Stands id (hiMessage form fits) (hiRequest form fits) where
  value := rfl
  located := ⟨[], List.append_nil _⟩
  formed := by
    have texts (form : Form) (content : Bytes) (fits : content.length < form.limit) : WellFormed (textItem form content fits) :=
      .string _ _
    have path : WellFormed (.arrayOf [.uint 1]) := by
      refine .arrayOf (show 1 < 256 ^ 8 by decide) fun item among => ?_
      rw [List.mem_singleton.mp among]
      exact .uint 1
    have params : WellFormed (hiParams form fits) := by
      refine .mapOf (show 2 < 256 ^ 8 by decide) fun entry among => ?_
      rcases List.mem_cons.mp among with rfl | among
      · exact ⟨texts .., texts form (ascii "hi") fits⟩
      · cases List.mem_singleton.mp among
        exact ⟨texts .., path⟩
    refine .mapOf (show 3 < 256 ^ 8 by decide) fun entry among => ?_
    rcases List.mem_cons.mp among with rfl | among
    · exact ⟨texts .., texts ..⟩
    · rcases List.mem_cons.mp among with rfl | among
      · exact ⟨texts .., texts ..⟩
      · cases List.mem_singleton.mp among
        exact ⟨texts .., params⟩
  request := ⟨⟨ascii "1", rfl, by decide, by decide⟩, ascii "sign_message", rfl, by decide, by decide⟩

/-- The length of the message takes eight bytes. -/
theorem wide_message_stops : Stands id (hiMessage .eight (by decide)) (hiRequest .eight (by decide)) ∧
    (sign_message_process CborRpc.referenceLibrary plainLibrary (fun _ => true) (hiMessage .eight (by decide)) none []).1 =
      .error .abort := by
  refine ⟨hiMessage_stands _ _, ?_⟩
  decide +kernel

def hiFields : Request where
  rpc_get_id := .ok (ascii "1")
  rpc_get_id_ptr := .ok (ascii "1")
  message_file := none
  message := .ok (ascii "hi")
  path := .ok (some [1])
  ae_host_commitment := none
  get_signature := none

theorem hiRequest_reads : requestItem (hiRequest .inside (by decide)) none = some hiFields := rfl

theorem hiFields_goes_on : ¬ Stops plainLibrary hiFields := by
  have named : Named hiFields.rpc_get_id := ⟨ascii "1", rfl, by decide⟩
  intro stops
  cases stops with
  | message_file stops => cases stops
  | file_reply there => cases there
  | message _ stops => cases stops
  | ae_host_commitment _ stops => cases stops
  | commitment_reply _ _ committed =>
    obtain ⟨_, there, _⟩ := committed
    cases there
  | ae_host_entropy _ _ committed =>
    obtain ⟨_, there, _⟩ := committed
    cases there
  | reply _ _ exchanged _ unnamed =>
    cases exchanged with
    | plain => exact unnamed named
    | entropy _ _ follows => cases follows

/-- A file, and a request. -/
theorem signing_shows_what_it_signs_sample :
    (InFile plainLibrary sampleFile [0x8000002c, 0] (ascii "hello") ∧
      Faithful plainLibrary (fun _ => true) (InFile plainLibrary sampleFile) (fun _ _ => False)
        (sign_message_file plainLibrary (fun _ => true) sampleFile 128 [])) ∧
    AskedOf plainLibrary hiFields [1] (ascii "hi") ∧ ∀ user,
      Faithful plainLibrary user (AskedOf plainLibrary hiFields) (AutoOf hiFields)
        (sign_message_process CborRpc.referenceLibrary plainLibrary user (hiMessage .inside (by decide)) none []) := by
  have signing := signing_shows_what_it_signs plainLibrary plainLibrary_correct
  refine ⟨⟨⟨ascii "SignMessage", ascii "m/44h/0", ascii "ascii", by decide, by decide, by decide, by decide, by decide,
    by decide, by decide⟩, signing.1 (fun _ => true) sampleFile 128 (by decide) (Nat.le_refl _)⟩, ?_, ?_⟩
  · exact .inr ⟨⟨rfl, rfl, rfl, by decide, fun _ there => by cases there⟩, by decide⟩
  · exact ((signing.2 CborRpc.referenceLibrary id CborRpc.referenceLibrary_correct (hiMessage .inside (by decide))
      (hiRequest .inside (by decide)) (hiMessage_stands _ _) none none .none).1 hiFields hiRequest_reads).mpr hiFields_goes_on

end PiJade.SignMessage
