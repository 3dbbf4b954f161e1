import PiJade.PsbtRequests

/-!
Runs of the reply. Every turn sends one piece and waits for the request for the next. If the length of the PSBT is a
multiple of a piece there is one turn too many, which stops the device behind the last piece.
-/
namespace PiJade.PsbtReply
open Cbor CborRpc Text
set_option linter.unusedSimpArgs false

/-! ### One reply -/

def piece (bytes : Bytes) (i : Nat) : Bytes := (bytes.drop (i * PSBT_OUT_CHUNK_SIZE)).take PSBT_OUT_CHUNK_SIZE

/-- The id of a message. -/
def idOf (root : Item) : Bytes := (textField CBOR_RPC_TAG_ID 0 root).getD []

def Named (root : Item) : Prop := idOf root ≠ [] ∧ (idOf root).length ≤ MAXLEN_ID

theorem Request.named {method : Bytes} {root : Item} (request : Request method root) : Named root := by
  obtain ⟨id, there, some_bytes, short⟩ := request.id
  rw [Named, idOf, there]
  exact ⟨some_bytes, short⟩

theorem length_encode_number_le (major value : Nat) : (encode_number major value).length ≤ 9 := by
  rw [encode_number]
  split_ifs <;> simp [length_bigEndian]

theorem length_encode_number_short {major value : Nat} (small : value < 256 ^ 2) :
    (encode_number major value).length ≤ 3 := by
  rw [encode_number]
  split_ifs <;> simp [length_bigEndian]

theorem length_encode_number_one {major value : Nat} (small : value < 24) : (encode_number major value).length = 1 := by
  rw [encode_number, if_pos small]
  rfl

/-- A piece and what is around it fit a message. -/
theorem length_message_le {id data : Bytes} {seqnum seqlen : Nat} (short : id.length ≤ MAXLEN_ID)
    (fits : data.length ≤ PSBT_OUT_CHUNK_SIZE) :
    (encode_number 5 4 ++ (cbor_encode_text_string CBOR_RPC_TAG_ID ++ cbor_encode_text_string id ++
      add_uint_to_map CBOR_RPC_TAG_SEQNUM seqnum ++ add_uint_to_map CBOR_RPC_TAG_SEQLEN seqlen ++
      cbor_encode_text_string CBOR_RPC_TAG_RESULT) ++ cbor_encode_byte_string data).length ≤ MAX_OUTPUT_MSG_SIZE := by
  have chunk_size : PSBT_OUT_CHUNK_SIZE = 3008 := rfl
  have limit : MAX_OUTPUT_MSG_SIZE = 3072 := rfl
  have id_size : MAXLEN_ID = 16 := rfl
  have tag (name : Bytes) (letters : name.length < 24) : (cbor_encode_text_string name).length = 1 + name.length := by
    rw [cbor_encode_text_string, List.length_append, length_encode_number_one letters]
  have id_tag := tag CBOR_RPC_TAG_ID (by decide)
  have seqnum_tag := tag CBOR_RPC_TAG_SEQNUM (by decide)
  have seqlen_tag := tag CBOR_RPC_TAG_SEQLEN (by decide)
  have result_tag := tag CBOR_RPC_TAG_RESULT (by decide)
  have id_text := tag id (by omega)
  have head := @length_encode_number_one 5 4 (by decide)
  have seqnum_number := length_encode_number_le 0 seqnum
  have seqlen_number := length_encode_number_le 0 seqlen
  have data_number := @length_encode_number_short 2 data.length (by omega)
  have id_letters : CBOR_RPC_TAG_ID.length = 2 := rfl
  have seqnum_letters : CBOR_RPC_TAG_SEQNUM.length = 6 := rfl
  have seqlen_letters : CBOR_RPC_TAG_SEQLEN.length = 6 := rfl
  have result_letters : CBOR_RPC_TAG_RESULT.length = 6 := rfl
  simp only [List.length_append, add_uint_to_map, cbor_encode_byte_string, id_tag, seqnum_tag, seqlen_tag, result_tag,
    id_text, head]
  omega

section
variable {V : Type} {lib : Library V} {view : V → Cursor}

theorem rpc_get_id_ptr_spec (correct : lib.Correct view) {message : CborMsg V} {root : Item}
    (loaded : Loaded lib message root) (named : Named root) :
    (Plain CBOR_RPC_TAG_ID 0 root ∧ ∃ ptr, rpc_get_id_ptr lib message = .ok ptr ∧ ptr.size ≠ 0 ∧
      (message.cbor.drop (ptr.data.getD 0)).take ptr.size = idOf root) ∨
    (¬ Plain CBOR_RPC_TAG_ID 0 root ∧
      (rpc_get_id_ptr lib message = .error .abort ∨ rpc_get_id_ptr lib message = .ok .null)) := by
  obtain ⟨accepted, rest, read⟩ := loaded
  obtain ⟨current, located, formed, _⟩ := accepted_spec correct.toCorrect accepted read
  cases there : root.field CBOR_RPC_TAG_ID 0 with
  | none => exact absurd (by simp [idOf, textField, there]) named.1
  | some found =>
    obtain ⟨place, item⟩ := found
    have holds : (item.content? true).getD [] = idOf root := by simp [idOf, textField, there]
    have asked : rpc_get_id_ptr lib message = pointed true place item := by
      have same := type_ptr_eq correct.toCorrect current (field_is_map there) located formed CBOR_RPC_TAG_ID true
      rw [there] at same
      exact same
    rw [asked]
    by_cases plain : ∃ chunk, item = .string true chunk ∧ chunk.head.form ≠ .eight
    · obtain ⟨chunk, rfl, counted⟩ := plain
      have contents : chunk.content = idOf root := holds
      have filled : chunk.content ≠ [] := fun empty => named.1 (contents.symm.trans empty)
      have made : pointed true place (.string true chunk) =
          .ok { data := some (place + (1 + chunk.head.form.width)), size := chunk.content.length } := by
        rw [pointed, if_pos ⟨rfl, filled⟩, if_neg counted]
      refine .inl ⟨⟨place, chunk, there, counted⟩, _, made, by simpa using filled, ?_⟩
      obtain ⟨_, other, same, _, _, _, whole⟩ := pointed_delimits (located.field formed there).1 made _ rfl
      cases same
      exact whole.trans contents
    · refine .inr ⟨?_, ?_⟩
      · rintro ⟨other, chunk, found, counted⟩
        rw [there] at found
        cases found
        exact plain ⟨chunk, rfl, counted⟩
      · cases item with
        | string kind chunk =>
          rw [pointed]
          split
          · rename_i same
            by_cases wide : chunk.head.form = .eight
            · exact .inl (if_pos wide)
            · exact absurd ⟨chunk, by rw [same.1], wide⟩ plain
          · exact .inr rfl
        | _ => exact .inr rfl

/-- A piece is sent if the id of the message can be pointed to. -/
theorem reply_spec (correct : lib.Correct view) {message : CborMsg V} {root : Item}
    (loaded : Loaded lib message root) (named : Named root) {seqnum seqlen : Nat} (ordered : seqnum ≤ seqlen)
    {data : Bytes} (fits : data.length ≤ PSBT_OUT_CHUNK_SIZE) :
    (Plain CBOR_RPC_TAG_ID 0 root ∧ jade_process_reply_to_message_bytes_sequence lib message seqnum seqlen data
        MAX_OUTPUT_MSG_SIZE = .ok (.bytes_sequence (idOf root) seqnum seqlen data)) ∨
    (¬ Plain CBOR_RPC_TAG_ID 0 root ∧ jade_process_reply_to_message_bytes_sequence lib message seqnum seqlen data
        MAX_OUTPUT_MSG_SIZE = .error .abort) := by
  rw [jade_process_reply_to_message_bytes_sequence]
  obtain ⟨plain, ptr, asked, filled, contents⟩ | ⟨unplain, stops | nothing⟩ := rpc_get_id_ptr_spec correct loaded named
  · refine .inl ⟨plain, ?_⟩
    have room := @length_message_le _ _ seqnum seqlen named.2 fits
    rw [asked, Check.ok_bind, contents]
    simp only [filled, rpc_init_cbor_with_sequence, named.1, ordered, room, ne_eq, not_false_eq_true, decide_true,
      Check.ensure_true, Check.ok_bind, Check.pure_eq]
  · exact .inr ⟨unplain, by rw [stops]; rfl⟩
  · exact .inr ⟨unplain, by rw [nothing]; rfl⟩

theorem reply_is_piece {ctx : CborMsg V} {seqnum seqlen buflen : Nat} {data : Bytes} {reply : Reply}
    (sent : jade_process_reply_to_message_bytes_sequence lib ctx seqnum seqlen data buflen = .ok reply) :
    ∃ id, reply = .bytes_sequence id seqnum seqlen data := by
  rw [jade_process_reply_to_message_bytes_sequence] at sent
  obtain ⟨ptr, _, sent⟩ := Check.bind_eq_ok.mp sent
  obtain ⟨_, _, sent⟩ := Check.bind_eq_ok.mp sent
  obtain ⟨header, _, sent⟩ := Check.bind_eq_ok.mp sent
  obtain ⟨_, _, sent⟩ := Check.bind_eq_ok.mp sent
  cases sent
  exact ⟨_, rfl⟩

/-! ### One turn -/

def Reply.isPiece : Reply → Bool
  | .bytes_sequence _ _ _ _ => true
  | .reject _ _ => false

/-- The turns from one number on, from where its piece begins. -/
def turns (lib : Library V) (original_id bytes : Bytes) (nmsgs left imsg : Nat) (ctx : CborMsg V)
    (arrivals : List (Arrival V)) : Exchange :=
  sendFrom lib original_id bytes nmsgs left imsg (min (imsg * PSBT_OUT_CHUNK_SIZE) bytes.length) ctx arrivals

variable {original_id bytes : Bytes} {nmsgs left imsg : Nat} {ctx : CborMsg V} {arrivals : List (Arrival V)}

theorem turns_over (done : bytes.length ≤ imsg * PSBT_OUT_CHUNK_SIZE) :
    turns lib original_id bytes nmsgs (left + 1) imsg ctx arrivals = { sent := [], ending := .abort } := by
  rw [turns, Nat.min_eq_right done, sendFrom, if_neg (Nat.lt_irrefl _)]

/-- The piece of a turn, and where the next begins. -/
theorem chunk_of_turn (more : imsg * PSBT_OUT_CHUNK_SIZE < bytes.length) {remaining chunk_len : Nat}
    (rest : remaining = bytes.length - imsg * PSBT_OUT_CHUNK_SIZE)
    (length : chunk_len = if remaining < PSBT_OUT_CHUNK_SIZE then remaining else PSBT_OUT_CHUNK_SIZE) :
    (bytes.drop (imsg * PSBT_OUT_CHUNK_SIZE)).take chunk_len = piece bytes imsg ∧
      imsg * PSBT_OUT_CHUNK_SIZE + chunk_len = min ((imsg + 1) * PSBT_OUT_CHUNK_SIZE) bytes.length := by
  have next : (imsg + 1) * PSBT_OUT_CHUNK_SIZE = imsg * PSBT_OUT_CHUNK_SIZE + PSBT_OUT_CHUNK_SIZE := Nat.succ_mul _ _
  rw [piece, next]
  split at length
  · rename_i last
    subst length
    have whole : (bytes.drop (imsg * PSBT_OUT_CHUNK_SIZE)).length ≤ chunk_len := by rw [List.length_drop]; omega
    rw [List.take_of_length_le whole, List.take_of_length_le (by omega)]
    exact ⟨rfl, by omega⟩
  · subst length
    exact ⟨rfl, by omega⟩

theorem turns_unsent (more : imsg * PSBT_OUT_CHUNK_SIZE < bytes.length) {h : Halt Fault}
    (stops : jade_process_reply_to_message_bytes_sequence lib ctx (imsg + 1) nmsgs (piece bytes imsg) MAX_OUTPUT_MSG_SIZE =
      .error h) :
    turns lib original_id bytes nmsgs (left + 1) imsg ctx arrivals = { sent := [], ending := .abort } := by
  rw [turns, Nat.min_eq_left (Nat.le_of_lt more), sendFrom, if_pos more]
  simp only [(chunk_of_turn more rfl rfl).1, stops]

theorem turns_sent (more : imsg * PSBT_OUT_CHUNK_SIZE < bytes.length) {reply : Reply}
    (sent : jade_process_reply_to_message_bytes_sequence lib ctx (imsg + 1) nmsgs (piece bytes imsg) MAX_OUTPUT_MSG_SIZE =
      .ok reply) :
    turns lib original_id bytes nmsgs (left + 1) imsg ctx arrivals =
      .behind reply (follow lib original_id (imsg + 1) nmsgs ctx arrivals
        (turns lib original_id bytes nmsgs left (imsg + 1))) := by
  rw [turns, Nat.min_eq_left (Nat.le_of_lt more), sendFrom, if_pos more]
  simp only [(chunk_of_turn more rfl rfl).1, (chunk_of_turn more rfl rfl).2, sent]
  rfl

/-- A turn stops before it sends, or sends its piece. -/
theorem turns_cases (lib : Library V) (original_id bytes : Bytes) (nmsgs left imsg : Nat) (ctx : CborMsg V)
    (arrivals : List (Arrival V)) :
    turns lib original_id bytes nmsgs (left + 1) imsg ctx arrivals = { sent := [], ending := .abort } ∨
      ∃ id, turns lib original_id bytes nmsgs (left + 1) imsg ctx arrivals =
        .behind (.bytes_sequence id (imsg + 1) nmsgs (piece bytes imsg))
          (follow lib original_id (imsg + 1) nmsgs ctx arrivals (turns lib original_id bytes nmsgs left (imsg + 1))) := by
  by_cases more : imsg * PSBT_OUT_CHUNK_SIZE < bytes.length
  · cases sent : jade_process_reply_to_message_bytes_sequence lib ctx (imsg + 1) nmsgs (piece bytes imsg)
      MAX_OUTPUT_MSG_SIZE with
    | error h => exact .inl (turns_unsent more sent)
    | ok reply =>
      obtain ⟨id, rfl⟩ := reply_is_piece sent
      exact .inr ⟨id, turns_sent more sent⟩
  · exact .inl (turns_over (Nat.le_of_not_lt more))

/-! ### Requests that are refused -/

/-- So many pieces are sent. -/
def Exchange.pieces (exchange : Exchange) : Nat := exchange.sent.countP Reply.isPiece

/-- A protocol error is sent behind so many pieces, and nothing else. -/
def EndsWithProtocolError (count : Nat) (exchange : Exchange) : Prop :=
  ∃ front text, exchange = { sent := front ++ [.reject CBOR_RPC_PROTOCOL_ERROR text], ending := .rejected } ∧
    front.length = count ∧ ∀ reply ∈ front, reply.isPiece = true

/-- Behind what was sent before. -/
def Exchange.after (front : List Reply) (exchange : Exchange) : Exchange := { exchange with sent := front ++ exchange.sent }

/-- What is sent in place of a piece is none. -/
theorem awaited_rejects {seqnum : Nat} {message : CborMsg V} {array : Bytes} {rejection : Reply}
    (refused : awaited lib original_id seqnum nmsgs message array = .ok (some rejection)) : rejection.isPiece = false := by
  rw [awaited] at refused
  obtain ⟨current, _, refused⟩ := Check.bind_eq_ok.mp refused
  cases current with
  | false =>
    cases refused
    rfl
  | true =>
    cases given : GET_MSG_PARAMS lib message with
    | none =>
      rw [given] at refused
      cases refused
      rfl
    | some params =>
      rw [given] at refused
      obtain ⟨matched, _, refused⟩ := Check.bind_eq_ok.mp refused
      cases matched with
      | false =>
        cases refused
        rfl
      | true => cases refused

/-- What is done with a message that comes in. -/
theorem follow_spec {seqnum : Nat} {next : CborMsg V → List (Arrival V) → Exchange} {arrival : Arrival V}
    {later : List (Arrival V)} {message : CborMsg V} (more : seqnum < nmsgs) (given : arrival.message = some message) :
    (awaited lib original_id seqnum nmsgs message arrival.array = .ok none ∧
      follow lib original_id seqnum nmsgs ctx (arrival :: later) next = next message later) ∨
    (∃ h, awaited lib original_id seqnum nmsgs message arrival.array = .error h ∧
      follow lib original_id seqnum nmsgs ctx (arrival :: later) next = { sent := [], ending := .abort }) ∨
    ∃ rejection, awaited lib original_id seqnum nmsgs message arrival.array = .ok (some rejection) ∧
      follow lib original_id seqnum nmsgs ctx (arrival :: later) next = { sent := [rejection], ending := .rejected } := by
  rw [follow, if_pos more]
  simp only [given]
  cases asked : awaited lib original_id seqnum nmsgs message arrival.array with
  | error h => exact .inr (.inl ⟨h, rfl, rfl⟩)
  | ok rejection =>
    cases rejection with
    | none => exact .inl ⟨rfl, rfl⟩
    | some rejection => exact .inr (.inr ⟨rejection, rfl, rfl⟩)

/-- Another piece behind one is sent in the next turn. -/
theorem follow_pieces {seqnum : Nat} {next : CborMsg V → List (Arrival V) → Exchange} (more : seqnum < nmsgs)
    (another : 0 < (follow lib original_id seqnum nmsgs ctx arrivals next).pieces) :
    ∃ ctx', follow lib original_id seqnum nmsgs ctx arrivals next = next ctx' (arrivals.drop 1) := by
  cases arrivals with
  | nil => simp [follow, more, Exchange.pieces] at another
  | cons arrival later =>
    cases given : arrival.message with
    | none => simp [follow, more, given, Exchange.pieces] at another
    | some message =>
      obtain ⟨_, goes_on⟩ | ⟨h, _, stops⟩ | ⟨rejection, refused, stops⟩ :=
        @follow_spec V lib original_id nmsgs ctx seqnum next arrival later message more given
      · exact ⟨message, goes_on⟩
      · simp [stops, Exchange.pieces] at another
      · simp [stops, Exchange.pieces, awaited_rejects refused] at another

/-- Where so many pieces are sent, what comes behind them is told by the message that is waited for then. -/
theorem turns_reach {k : Nat} (counted : imsg + left = nmsgs)
    (reached : k < (turns lib original_id bytes nmsgs left imsg ctx arrivals).pieces) :
    ∃ (front : List Reply) (ctx' : CborMsg V), front.length = k + 1 ∧ (∀ reply ∈ front, reply.isPiece = true) ∧
      turns lib original_id bytes nmsgs left imsg ctx arrivals =
        .after front (follow lib original_id (imsg + k + 1) nmsgs ctx' (arrivals.drop k)
          (turns lib original_id bytes nmsgs (left - (k + 1)) (imsg + k + 1))) := by
  induction k generalizing left imsg ctx arrivals with
  | zero =>
    cases left with
    | zero => simp [turns, sendFrom, Exchange.pieces] at reached
    | succ left =>
      obtain stops | ⟨id, sent⟩ := turns_cases lib original_id bytes nmsgs left imsg ctx arrivals
      · simp [stops, Exchange.pieces] at reached
      · exact ⟨[_], ctx, rfl, by simp [Reply.isPiece], sent⟩
  | succ k ih =>
    cases left with
    | zero => simp [turns, sendFrom, Exchange.pieces] at reached
    | succ left =>
      obtain stops | ⟨id, sent⟩ := turns_cases lib original_id bytes nmsgs left imsg ctx arrivals
      · simp [stops, Exchange.pieces] at reached
      · rw [sent, Exchange.pieces, Exchange.behind, List.countP_cons_of_pos (by rfl), Nat.add_lt_add_iff_right] at reached
        by_cases more : imsg + 1 < nmsgs
        · obtain ⟨ctx', goes_on⟩ := follow_pieces more (Nat.zero_lt_of_lt reached)
          rw [goes_on] at reached sent
          obtain ⟨front, last, length, pieces, split⟩ := ih (by omega) reached
          refine ⟨.bytes_sequence id (imsg + 1) nmsgs (piece bytes imsg) :: front, last, by rw [List.length_cons, length],
            List.forall_mem_cons.mpr ⟨rfl, pieces⟩, ?_⟩
          rw [sent, split, List.drop_drop, Nat.add_comm 1 k, show imsg + 1 + k + 1 = imsg + (k + 1) + 1 by omega,
            show left - (k + 1) = left + 1 - (k + 1 + 1) by omega]
          rfl
        · obtain rfl : left = 0 := by omega
          simp [follow, more, turns, sendFrom] at reached

/-- The first that is sent is a piece. -/
theorem turns_first {reply : Reply} {later : List Reply}
    (sent : (turns lib original_id bytes nmsgs left imsg ctx arrivals).sent = reply :: later) : reply.isPiece = true := by
  cases left with
  | zero => cases sent
  | succ left =>
    obtain stops | ⟨id, first⟩ := turns_cases lib original_id bytes nmsgs left imsg ctx arrivals
    · rw [stops] at sent
      cases sent
    · rw [first] at sent
      cases sent
      rfl

/-- A message that is waited for ends the exchange with a protocol error exactly if it is told apart from the one
    that is expected. -/
theorem refused_iff (correct : lib.Correct view) {k : Nat} (counted : imsg + left = nmsgs)
    (reached : k < (turns lib original_id bytes nmsgs left imsg ctx arrivals).pieces) (more : imsg + k + 1 < nmsgs)
    {arrival : Arrival V} {message : CborMsg V} {asked : Item} (there : arrivals[k]? = some arrival)
    (given : arrival.message = some message) (loaded : Loaded lib message asked) :
    EndsWithProtocolError (k + 1) (turns lib original_id bytes nmsgs left imsg ctx arrivals) ↔
      ToldApart arrival.array original_id (imsg + k + 1 + 1) nmsgs asked := by
  obtain ⟨front, ctx', length, pieces, split⟩ := turns_reach counted reached
  obtain ⟨inside, same⟩ := List.getElem?_eq_some_iff.mp there
  rw [split, List.drop_eq_getElem_cons inside, same]
  obtain ⟨_, refused, _⟩ := awaited_spec correct loaded arrival.array original_id (imsg + k + 1) nmsgs
  rw [← refused]
  constructor
  · rintro ⟨other, text, ends, other_length, _⟩
    obtain ⟨sent, ending⟩ := Exchange.mk.inj ends
    obtain ⟨_, behind⟩ := List.append_inj sent (length.trans other_length.symm)
    obtain ⟨_, goes_on⟩ | ⟨h, _, stops⟩ | ⟨rejection, asked, stops⟩ := @follow_spec V lib original_id nmsgs ctx' (imsg + k + 1)
      (turns lib original_id bytes nmsgs (left - (k + 1)) (imsg + k + 1)) arrival (arrivals.drop (k + 1)) message more given
    · rw [goes_on] at behind
      cases turns_first behind
    · rw [stops] at behind
      cases behind
    · rw [stops] at behind
      cases behind
      exact ⟨text, asked⟩
  · rintro ⟨text, rejected⟩
    obtain ⟨asked, _⟩ | ⟨h, asked, _⟩ | ⟨rejection, asked, stops⟩ := @follow_spec V lib original_id nmsgs ctx' (imsg + k + 1)
      (turns lib original_id bytes nmsgs (left - (k + 1)) (imsg + k + 1)) arrival (arrivals.drop (k + 1)) message more given
    · rw [rejected] at asked
      cases asked
    · rw [rejected] at asked
      cases asked
    · rw [rejected] at asked
      cases asked
      exact ⟨front, text, by rw [stops]; rfl, length, pieces⟩

/-! ### Requests that are answered -/

/-- The message asks for that piece. -/
structure Answers (id : Bytes) (seqnum nmsgs : Nat) (root : Item) : Prop where
  request : Request get_extended_data root
  params : ∃ place map, Params place map root ∧ textField orig place map = some sign_psbt ∧
    textField origid place map = some id ∧ numberField CBOR_RPC_TAG_SEQLEN place map = some nmsgs ∧
    numberField CBOR_RPC_TAG_SEQNUM place map = some seqnum

/-- The origin is a text in one piece, its length not in eight bytes. -/
def PlainOrigin (root : Item) : Prop := ∀ place map, Params place map root → Plain orig place map

theorem cstr_terminated (front back : Bytes) : cstr (front ++ 0 :: back) = cstr front := by
  induction front with
  | nil => rfl
  | cons c front ih =>
    by_cases zero : c = 0
    · rw [zero, List.cons_append, cstr_nul, cstr_nul]
    · rw [List.cons_append, cstr_cons zero, cstr_cons zero, ih]

theorem cstr_written (array text : Bytes) (length : Nat) : cstr (written array (some (text ++ [0], length))) = cstr text := by
  rw [written, List.append_assoc]
  exact cstr_terminated text _

theorem accepted_of_answers {array id : Bytes} {seqnum : Nat} {root : Item} (answers : Answers id seqnum nmsgs root)
    (short : id.length ≤ MAXLEN_ID) (same : cstr original_id = cstr id) :
    Accepted array original_id seqnum nmsgs root ↔ Counted seqnum nmsgs ∧ PlainOrigin root := by
  obtain ⟨request, place, map, there, origin, origin_id, seqlen, seqnum_given⟩ := answers
  have only {other_place : Nat} {other : Item} (found : Params other_place other root) :
      other_place = place ∧ other = map := by
    have same := found.1.symm.trans there.1
    simpa using same
  constructor
  · rintro ⟨_, _, _, found, counted, narrow, accepts⟩
    obtain ⟨rfl, rfl⟩ := only found
    refine ⟨counted, fun other_place other found => ?_⟩
    obtain ⟨rfl, rfl⟩ := only found
    obtain ⟨at_place, chunk, origin_there, contents⟩ := accepts.origin
    refine ⟨at_place, chunk, origin_there, fun wide => narrow _ _ origin_there ⟨chunk, rfl, wide, ?_⟩⟩
    rw [contents]
    decide
  · rintro ⟨counted, plain⟩
    obtain ⟨at_place, chunk, origin_there, form⟩ := plain place map there
    refine ⟨request, place, map, there, counted, ?_, ⟨at_place, chunk, origin_there, ?_⟩, ?_, seqlen, seqnum_given⟩
    · rintro other_place item found ⟨other, rfl, wide, _⟩
      rw [origin_there] at found
      cases found
      exact form wide
    · rw [textField, origin_there] at origin
      exact Option.some.inj origin
    · have room : id.length < MAXLEN_ID + 1 := Nat.lt_succ_of_le short
      rw [heldId, origin_id, Option.bind_some, if_pos room, cstr_written, same]

/-- Every message that is waited for asks for the next piece; `root i` is the message that the `i`-th piece answers. -/
def Answered (lib : Library V) (root : Nat → Item) (id : Bytes) (nmsgs imsg : Nat) (arrivals : List (Arrival V)) : Prop :=
  ∀ j, imsg + j + 1 < nmsgs → ∃ arrival message, arrivals[j]? = some arrival ∧ arrival.message = some message ∧
    Loaded lib message (root (imsg + j + 1)) ∧ Answers id (imsg + j + 2) nmsgs (root (imsg + j + 1))

theorem Answered.tail {root : Nat → Item} {id : Bytes} {arrival : Arrival V} {later : List (Arrival V)}
    (answered : Answered lib root id nmsgs imsg (arrival :: later)) : Answered lib root id nmsgs (imsg + 1) later := by
  intro j more
  have next := answered (j + 1) (by omega)
  rwa [List.getElem?_cons_succ, show imsg + (j + 1) + 1 = imsg + 1 + j + 1 by omega,
    show imsg + (j + 1) + 2 = imsg + 1 + j + 2 by omega] at next

/-- What is to hold of the turn of a piece. -/
structure Goes (bytes : Bytes) (nmsgs first i : Nat) (root : Item) : Prop where
  more : i * PSBT_OUT_CHUNK_SIZE < bytes.length
  id : Plain CBOR_RPC_TAG_ID 0 root
  request : first < i → nmsgs ≤ UINT32_MAX ∧ PlainOrigin root

/-- All turns are done exactly if every piece can be sent and every request be read. -/
theorem turns_success_iff (correct : lib.Correct view) {root : Nat → Item} {id : Bytes} (short : id.length ≤ MAXLEN_ID)
    (same : cstr original_id = cstr id) (counted : imsg + left = nmsgs) (positive : 0 < left)
    (loaded : Loaded lib ctx (root imsg)) (named : Named (root imsg))
    (answered : Answered lib root id nmsgs imsg arrivals) :
    ((turns lib original_id bytes nmsgs left imsg ctx arrivals).ending = .success ↔
      ∀ i, imsg ≤ i → i < nmsgs → Goes bytes nmsgs imsg i (root i)) ∧
    ((turns lib original_id bytes nmsgs left imsg ctx arrivals).ending = .success →
      (turns lib original_id bytes nmsgs left imsg ctx arrivals).sent = (List.range' imsg left).map fun i =>
        .bytes_sequence (idOf (root i)) (i + 1) nmsgs (piece bytes i)) := by
  induction left generalizing imsg ctx arrivals with
  | zero => omega
  | succ left ih =>
    by_cases more : imsg * PSBT_OUT_CHUNK_SIZE < bytes.length
    · have ordered : imsg + 1 ≤ nmsgs := by omega
      have fits : (piece bytes imsg).length ≤ PSBT_OUT_CHUNK_SIZE := List.length_take_le _ _
      obtain ⟨plain, sent⟩ | ⟨unplain, unsent⟩ := reply_spec correct loaded named ordered fits
      · rw [turns_sent more sent]
        cases left with
        | zero =>
          have last : ¬ imsg + 1 < nmsgs := by omega
          simp only [follow, last, if_false, turns, sendFrom, Exchange.behind]
          refine ⟨⟨fun _ i low high => ?_, fun _ => trivial⟩, fun _ => rfl⟩
          obtain rfl : i = imsg := by omega
          exact ⟨more, plain, fun above => absurd above (Nat.lt_irrefl _)⟩
        | succ left =>
          have next : imsg + 1 < nmsgs := by omega
          obtain ⟨arrival, message, there, given, message_loaded, answers⟩ := answered 0 next
          cases arrivals with
          | nil => cases there
          | cons first later =>
            obtain rfl : first = arrival := by simpa using there
            obtain ⟨accepted_iff, _, _⟩ := awaited_spec correct message_loaded first.array original_id (imsg + 1) nmsgs
            rw [accepted_of_answers answers short same] at accepted_iff
            obtain ⟨accepted, goes_on⟩ | stops := @follow_spec V lib original_id nmsgs ctx (imsg + 1)
              (turns lib original_id bytes nmsgs (left + 1) (imsg + 1)) first later message next given
            · obtain ⟨⟨_, fits_count⟩, plain_origin⟩ := accepted_iff.mp accepted
              obtain ⟨ends_iff, all⟩ := ih (by omega) (Nat.succ_pos left) message_loaded answers.request.named answered.tail
              rw [goes_on, Exchange.behind]
              refine ⟨ends_iff.trans ⟨fun goes i low high => ?_, fun goes i low high => ?_⟩, fun ends => ?_⟩
              · obtain rfl | above := Nat.eq_or_lt_of_le low
                · exact ⟨more, plain, fun above => absurd above (Nat.lt_irrefl _)⟩
                · have turn := goes i above high
                  refine ⟨turn.more, turn.id, fun _ => ?_⟩
                  obtain rfl | later_turn := Nat.eq_or_lt_of_le above
                  · exact ⟨fits_count, plain_origin⟩
                  · exact turn.request later_turn
              · have turn := goes i (Nat.le_of_succ_le low) high
                exact ⟨turn.more, turn.id, fun above => turn.request (Nat.lt_of_succ_lt above)⟩
              · simp only [all ends, List.range'_succ (s := imsg), List.map_cons]
            · have unread : ¬ (Counted (imsg + 1 + 1) nmsgs ∧ PlainOrigin (root (imsg + 0 + 1))) := by
                intro readable
                have accepted := accepted_iff.mpr readable
                obtain ⟨h, asked, _⟩ | ⟨rejection, asked, _⟩ := stops
                · rw [accepted] at asked
                  cases asked
                · rw [accepted] at asked
                  cases asked
              have fails : (follow lib original_id (imsg + 1) nmsgs ctx (first :: later)
                  (turns lib original_id bytes nmsgs (left + 1) (imsg + 1))).ending ≠ .success := by
                obtain ⟨h, _, stops⟩ | ⟨rejection, _, stops⟩ := stops
                · simp [stops]
                · simp [stops]
              refine ⟨⟨fun ends => absurd ends fails, fun goes => absurd ?_ unread⟩, fun ends => absurd ends fails⟩
              obtain ⟨fits_count, plain_origin⟩ := (goes (imsg + 1) (by omega) next).request (Nat.lt_succ_self imsg)
              exact ⟨⟨Nat.le_trans (by omega) fits_count, fits_count⟩, plain_origin⟩
      · rw [turns_unsent more unsent]
        refine ⟨⟨fun ends => (by cases ends), fun goes => ?_⟩, fun ends => (by cases ends)⟩
        exact absurd (goes imsg (Nat.le_refl _) (by omega)).id unplain
    · rw [turns_over (Nat.le_of_not_lt more)]
      refine ⟨⟨fun ends => (by cases ends), fun goes => ?_⟩, fun ends => (by cases ends)⟩
      exact absurd (goes imsg (Nat.le_refl _) (by omega)).more more

end

/-! ### The whole reply -/

def Reply.payload : Reply → Bytes
  | .bytes_sequence _ _ _ data => data
  | .reject _ _ => []

/-- The messages are numbered and say how many there are; their payloads are the PSBT. -/
structure Complete (bytes : Bytes) (exchange : Exchange) : Prop where
  ending : exchange.ending = .success
  numbered : ∀ i < exchange.sent.length, ∃ id data,
    exchange.sent[i]? = some (.bytes_sequence id (i + 1) exchange.sent.length data) ∧ data ≠ [] ∧
      data.length ≤ PSBT_OUT_CHUNK_SIZE
  whole : exchange.sent.flatMap Reply.payload = bytes

theorem flatMap_piece (bytes : Bytes) (count : Nat) :
    (List.range' 0 count).flatMap (piece bytes) = bytes.take (count * PSBT_OUT_CHUNK_SIZE) := by
  induction count with
  | zero => simp
  | succ count ih =>
    have next : (count + 1) * PSBT_OUT_CHUNK_SIZE = count * PSBT_OUT_CHUNK_SIZE + PSBT_OUT_CHUNK_SIZE := Nat.succ_mul _ _
    rw [List.range'_concat, List.flatMap_append, ih, next, List.take_add]
    simp [piece]

theorem ofInt_of_lt {count : Nat} (small : count < 2 ^ 31) : ofInt count = count := by
  rw [ofInt, Nat.mod_eq_of_lt (Nat.lt_trans small (by decide)), if_pos small]

/-- The count of messages is right only if it fits an `int`. -/
theorem ofInt_right {count : Nat} (fits : 2 ≤ ofInt count → ofInt count ≤ UINT32_MAX)
    (same : ofInt count = count ∨ ofInt count + 1 = count) : ofInt count = count ∧ count < 2 ^ 31 := by
  have limit : UINT32_MAX = 2 ^ 32 - 1 := rfl
  rw [ofInt] at fits same ⊢
  split at fits <;> rename_i small
  · rw [if_pos small] at same ⊢
    omega
  · omega

/-- The last of so many pieces is the last of the PSBT. -/
theorem count_iff {length count : Nat} (positive : 0 < count) (more : (count - 1) * PSBT_OUT_CHUNK_SIZE < length)
    (whole : length ≤ count * PSBT_OUT_CHUNK_SIZE) :
    (PSBT_OUT_CHUNK_SIZE ∣ length ∧ count = length / PSBT_OUT_CHUNK_SIZE) ∨
      (¬ PSBT_OUT_CHUNK_SIZE ∣ length ∧ count = length / PSBT_OUT_CHUNK_SIZE + 1) := by
  have chunk_size : PSBT_OUT_CHUNK_SIZE = 3008 := rfl
  rw [chunk_size] at more whole ⊢
  omega

/-- All turns are run, with the id of the request in an array. -/
theorem sign_psbt_reply_eq {V : Type} {lib : Library V} {view : V → Cursor} (correct : lib.Correct view)
    {first : CborMsg V} {root : Item} (loaded : Loaded lib first root) (request : Request sign_psbt root)
    (array bytes : Bytes) (arrivals : List (Arrival V)) :
    ∃ original_id, cstr original_id = cstr (idOf root) ∧ sign_psbt_reply lib first array bytes arrivals =
      turns lib original_id bytes (nmsgs bytes.length) (nmsgs bytes.length) 0 first arrivals := by
  obtain ⟨accepted, rest, read⟩ := loaded
  obtain ⟨current, _, _, _⟩ := accepted_spec correct.toCorrect accepted read
  obtain ⟨id, there, _, short⟩ := request.id
  have is_map := textField_is_map there
  have kind := type_eq correct.toCorrect current
  have valid : (CborType.map != CborType.invalid) = true := by decide
  have room : id.length < MAXLEN_ID + 1 := Nat.lt_succ_of_le short
  have copied : rpc_get_id lib first.value = .ok (some (id ++ [0], id.length)) := by
    simp only [rpc_get_id, cbor_value_is_valid, cbor_value_is_map, kind, is_map, valid, beq_self_eq_true, Bool.not_true,
      Bool.false_eq_true, if_false, rpc_get_string_eq correct current is_map CBOR_RPC_TAG_ID (Nat.succ_pos MAXLEN_ID), there,
      Option.bind_some, if_pos room]
  refine ⟨written array (some (id ++ [0], id.length)), ?_, ?_⟩
  · rw [cstr_written, idOf, there]
    rfl
  · rw [sign_psbt_reply, copied, turns, Nat.zero_mul, Nat.zero_min]

/-- The reply is complete exactly if the length is no multiple of a piece, there are not too many pieces, and every id
    and origin can be pointed to. -/
theorem complete_iff {V : Type} {lib : Library V} {view : V → Cursor} (correct : lib.Correct view) {first : CborMsg V}
    {root : Nat → Item} (loaded : Loaded lib first (root 0)) (request : Request sign_psbt (root 0)) (array : Bytes)
    {bytes : Bytes} (some_bytes : bytes ≠ []) {arrivals : List (Arrival V)}
    (answered : Answered lib root (idOf (root 0)) (nmsgs bytes.length) 0 arrivals) :
    Complete bytes (sign_psbt_reply lib first array bytes arrivals) ↔
      bytes.length / PSBT_OUT_CHUNK_SIZE + 1 < 2 ^ 31 ∧ ¬ PSBT_OUT_CHUNK_SIZE ∣ bytes.length ∧
        (∀ i < nmsgs bytes.length, Plain CBOR_RPC_TAG_ID 0 (root i)) ∧
        ∀ i, 0 < i → i < nmsgs bytes.length → PlainOrigin (root i) := by
  have named := request.named
  obtain ⟨original_id, same, run⟩ := sign_psbt_reply_eq correct loaded request array bytes arrivals
  have length_pos := List.length_pos_iff.mpr some_bytes
  have chunk_size : PSBT_OUT_CHUNK_SIZE = 3008 := rfl
  rw [run]
  constructor
  · rintro ⟨ending, numbered, whole⟩
    by_cases none : nmsgs bytes.length = 0
    · rw [none] at whole
      exact absurd whole.symm some_bytes
    · have positive := Nat.pos_of_ne_zero none
      obtain ⟨success_iff, sent⟩ := turns_success_iff correct named.2 same (Nat.zero_add _) positive loaded named answered
      have goes := success_iff.mp ending
      rw [sent ending, List.flatMap_map] at whole
      have taken : bytes.take (nmsgs bytes.length * PSBT_OUT_CHUNK_SIZE) = bytes := (flatMap_piece _ _).symm.trans whole
      have enough : bytes.length ≤ nmsgs bytes.length * PSBT_OUT_CHUNK_SIZE := List.take_eq_self_iff _ |>.mp taken
      have last := (goes (nmsgs bytes.length - 1) (Nat.zero_le _) (by omega)).more
      have fits : 2 ≤ nmsgs bytes.length → nmsgs bytes.length ≤ UINT32_MAX :=
        fun two => ((goes 1 (Nat.zero_le _) two).request Nat.one_pos).1
      have ids : ∀ i < nmsgs bytes.length, Plain CBOR_RPC_TAG_ID 0 (root i) := fun i high => (goes i (Nat.zero_le _) high).id
      have origins : ∀ i, 0 < i → i < nmsgs bytes.length → PlainOrigin (root i) :=
        fun i above high => ((goes i (Nat.zero_le _) high).request above).2
      obtain ⟨_, count⟩ | ⟨uneven, count⟩ := count_iff positive last enough
      · have right := ofInt_right fits (.inr (congrArg (· + 1) count))
        have equal : nmsgs bytes.length = bytes.length / PSBT_OUT_CHUNK_SIZE + 1 := right.1
        exact absurd (count.symm.trans equal) (Nat.ne_of_lt (Nat.lt_succ_self _))
      · exact ⟨(ofInt_right fits (.inl count)).2, uneven, ids, origins⟩
  · rintro ⟨small, uneven, ids, origins⟩
    have count : nmsgs bytes.length = bytes.length / PSBT_OUT_CHUNK_SIZE + 1 := ofInt_of_lt small
    obtain ⟨success_iff, sent⟩ := @turns_success_iff V lib view original_id bytes _ _ _ _ _ correct root _ named.2 same (Nat.zero_add _)
      (by rw [count]; exact Nat.succ_pos _) loaded named answered
    have more {i : Nat} (high : i < nmsgs bytes.length) : i * PSBT_OUT_CHUNK_SIZE < bytes.length := by
      rw [count] at high
      rw [chunk_size] at high uneven ⊢
      omega
    have ending := success_iff.mpr fun i _ high => ⟨more high, ids i high, fun above => ⟨?_, origins i above high⟩⟩
    · have all := sent ending
      have length := congrArg List.length all
      rw [List.length_map, List.length_range'] at length
      refine ⟨ending, ?_, ?_⟩
      · intro i inside
        rw [length] at inside ⊢
        refine ⟨idOf (root i), piece bytes i, ?_, ?_, List.length_take_le _ _⟩
        · rw [all, List.getElem?_map, List.getElem?_range' (by exact inside)]
          simp
        · have filled : 0 < (piece bytes i).length := by
            have chunk := more inside
            rw [piece, List.length_take, List.length_drop]
            omega
          exact List.length_pos_iff.mp filled
      · rw [all, List.flatMap_map]
        refine (flatMap_piece _ _).trans (List.take_of_length_le ?_)
        rw [count, chunk_size]
        omega
    · have limit : UINT32_MAX = 4294967295 := rfl
      omega

theorem toldApart_congr {array original_id id : Bytes} (same : cstr original_id = cstr id) (seqnum count : Nat)
    (asked : Item) : ToldApart array original_id seqnum count asked ↔ ToldApart array id seqnum count asked := by
  have accepts_iff (place : Nat) (map : Item) :
      Accepts array original_id seqnum count place map ↔ Accepts array id seqnum count place map :=
    ⟨fun accepts => ⟨accepts.origin, accepts.id.trans same, accepts.seqlen, accepts.seqnum⟩,
      fun accepts => ⟨accepts.origin, accepts.id.trans same.symm, accepts.seqlen, accepts.seqnum⟩⟩
  simp only [ToldApart, accepts_iff]

/-- Where every request asks for the next piece, the reply is complete exactly if the length is no multiple of a piece
    and every id and origin can be pointed to. A message that does not ask for it ends the reply with a protocol error
    exactly if it is told apart from one that does. -/
theorem reply_complete_and_refused_iff {V : Type} {lib : Library V} {view : V → Cursor} (correct : lib.Correct view)
    {first : CborMsg V} {root : Nat → Item} (loaded : Loaded lib first (root 0)) (request : Request sign_psbt (root 0))
    (array : Bytes) {bytes : Bytes} (some_bytes : bytes ≠ []) (arrivals : List (Arrival V)) :
    (Answered lib root (idOf (root 0)) (nmsgs bytes.length) 0 arrivals →
      (Complete bytes (sign_psbt_reply lib first array bytes arrivals) ↔
        bytes.length / PSBT_OUT_CHUNK_SIZE + 1 < 2 ^ 31 ∧ ¬ PSBT_OUT_CHUNK_SIZE ∣ bytes.length ∧
          (∀ i < nmsgs bytes.length, Plain CBOR_RPC_TAG_ID 0 (root i)) ∧
          ∀ i, 0 < i → i < nmsgs bytes.length → PlainOrigin (root i))) ∧
    ∀ k arrival message asked, k + 1 < nmsgs bytes.length → k < (sign_psbt_reply lib first array bytes arrivals).pieces →
      arrivals[k]? = some arrival → arrival.message = some message → Loaded lib message asked →
      ¬ Answers (idOf (root 0)) (k + 2) (nmsgs bytes.length) asked →
      (EndsWithProtocolError (k + 1) (sign_psbt_reply lib first array bytes arrivals) ↔
        ToldApart arrival.array (idOf (root 0)) (k + 2) (nmsgs bytes.length) asked) := by
  refine ⟨fun answered => complete_iff correct loaded request array some_bytes answered, ?_⟩
  intro k arrival message asked more reached there given asked_loaded _
  obtain ⟨original_id, same, run⟩ := sign_psbt_reply_eq correct loaded request array bytes arrivals
  rw [run] at reached ⊢
  rw [← toldApart_congr same]
  have refused := refused_iff correct (Nat.zero_add _) reached (by omega) there given asked_loaded
  rwa [Nat.zero_add] at refused

/-! ### A PSBT of one piece -/

def referenceLibrary : Library Cursor where
  toTinycbor := reference
  cbor_value_text_string_equals cursor text :=
    (cursor.items.head?.bind (Item.content? true)).map fun content => decide (content = text)

theorem referenceLibrary_correct : referenceLibrary.Correct id where
  toCorrect := reference_correct
  text_string_equals text current holds := by
    obtain ⟨later, rfl⟩ := current_eq_some current
    simp [referenceLibrary, holds]

/-- A message as it is loaded. -/
def itemMessage (item : Item) : CborMsg Cursor where
  cbor := item.bytes
  value := { offset := 0, items := [item] }

theorem itemMessage_loaded {item : Item} (formed : WellFormed item) : Loaded referenceLibrary (itemMessage item) item := by
  have read : decode item.bytes = some (item, []) := decode_eq_some_iff.mpr ⟨(List.append_nil _).symm, formed⟩
  exact ⟨reference_accepts read, [], read⟩

def shortText (content : Bytes) (short : content.length < 24) : Item :=
  .string true { head := { form := .inside, value := content.length, fits := short }, content, counted := rfl }

def smallMap (items : List Item) (few : items.length / 2 < 24) : Item :=
  .map (some { form := .inside, value := items.length / 2, fits := few }) items

def smallNumber (value : Nat) (small : value < 24) : Item :=
  .unsigned { form := .inside, value, fits := small }

/-- A request to sign, without its parameters. -/
def signItem : Item :=
  smallMap [shortText CBOR_RPC_TAG_ID (by decide), shortText [55] (by decide), shortText CBOR_RPC_TAG_METHOD (by decide),
    shortText sign_psbt (by decide)] (by decide)

/-- The parameters of the request for the second of two pieces. -/
def secondParams : Item :=
  smallMap [shortText origid (by decide), shortText [55] (by decide), shortText orig (by decide),
    shortText sign_psbt (by decide), shortText CBOR_RPC_TAG_SEQNUM (by decide), smallNumber 2 (by decide),
    shortText CBOR_RPC_TAG_SEQLEN (by decide), smallNumber 2 (by decide)] (by decide)

def secondItem : Item :=
  smallMap [shortText CBOR_RPC_TAG_ID (by decide), shortText [56] (by decide), shortText CBOR_RPC_TAG_METHOD (by decide),
    shortText get_extended_data (by decide), shortText CBOR_RPC_TAG_PARAMS (by decide), secondParams] (by decide)

theorem smallMap_formed {items : List Item} (few : items.length / 2 < 24) (even : items.length % 2 = 0)
    (each : ∀ item ∈ items, WellFormed item) : WellFormed (smallMap items few) := by
  refine .map ?_ even each
  rintro written ⟨rfl⟩
  simp only
  omega

theorem signItem_formed : WellFormed signItem := by
  refine smallMap_formed _ rfl ?_
  intro item among
  simp only [List.mem_cons, List.not_mem_nil, or_false] at among
  obtain rfl | rfl | rfl | rfl := among
  all_goals exact .string true _

theorem signItem_request : Request sign_psbt signItem := ⟨⟨[55], rfl, by decide, by decide⟩, rfl⟩

theorem secondItem_formed : WellFormed secondItem := by
  have fields : WellFormed secondParams := by
    refine smallMap_formed _ rfl ?_
    intro item among
    simp only [List.mem_cons, List.not_mem_nil, or_false] at among
    obtain rfl | rfl | rfl | rfl | rfl | rfl | rfl | rfl := among
    all_goals first | exact .string true _ | exact .unsigned _
  refine smallMap_formed _ rfl ?_
  intro item among
  simp only [List.mem_cons, List.not_mem_nil, or_false] at among
  obtain rfl | rfl | rfl | rfl | rfl | rfl := among
  all_goals first | exact .string true _ | exact fields

theorem secondItem_answers : Answers [55] 2 2 secondItem :=
  ⟨⟨⟨[56], rfl, by decide, by decide⟩, rfl⟩, _, _, ⟨rfl, rfl⟩, rfl, rfl, rfl, rfl⟩

theorem secondItem_plain : PlainOrigin secondItem := by
  rintro place map ⟨there, _⟩
  cases there
  exact ⟨_, _, rfl, by decide⟩

/-- The messages of an exchange of two pieces. -/
def twoRoots (i : Nat) : Item := if i = 0 then signItem else secondItem

def secondArrival : Arrival Cursor where
  message := some (itemMessage secondItem)
  array := []

theorem two_answered : Answered referenceLibrary twoRoots [55] 2 0 [secondArrival] := by
  intro j more
  obtain rfl : j = 0 := by omega
  exact ⟨secondArrival, _, rfl, rfl, itemMessage_loaded secondItem_formed, secondItem_answers⟩

theorem two_pieces_complete :
    Complete (List.replicate 3009 0) (sign_psbt_reply referenceLibrary (itemMessage signItem) [] (List.replicate 3009 0)
      [secondArrival]) := by
  have length : (List.replicate 3009 (0 : UInt8)).length = 3009 := List.length_replicate
  have some_bytes : List.replicate 3009 (0 : UInt8) ≠ [] := List.cons_ne_nil _ _
  have count : nmsgs 3009 = 2 := by decide
  refine ((@reply_complete_and_refused_iff Cursor referenceLibrary id referenceLibrary_correct (itemMessage signItem)
    twoRoots (itemMessage_loaded signItem_formed) signItem_request [] _ some_bytes [secondArrival]).1 ?_).mpr ?_
  · rw [length, count]
    exact two_answered
  · rw [length, count]
    refine ⟨by decide, by decide, fun i high => ?_, fun i above high => ?_⟩
    · obtain rfl | rfl : i = 0 ∨ i = 1 := by omega
      · exact ⟨_, _, rfl, by decide⟩
      · exact ⟨_, _, rfl, by decide⟩
    · obtain rfl : i = 1 := by omega
      exact secondItem_plain

/-- The one piece of 3008 bytes is said to be the first of two. The request for the second stops the device. -/
theorem whole_piece_aborts :
    (∀ i < nmsgs 3008, Plain CBOR_RPC_TAG_ID 0 (twoRoots i)) ∧
    Answered referenceLibrary twoRoots (idOf (twoRoots 0)) (nmsgs 3008) 0 [secondArrival] ∧
    (sign_psbt_reply referenceLibrary (itemMessage signItem) [] (List.replicate 3008 0) [secondArrival]).ending = .abort ∧
    ¬ Complete (List.replicate 3008 0)
      (sign_psbt_reply referenceLibrary (itemMessage signItem) [] (List.replicate 3008 0) [secondArrival]) := by
  have count : nmsgs 3008 = 2 := by decide
  rw [count]
  have aborts : (sign_psbt_reply referenceLibrary (itemMessage signItem) [] (List.replicate 3008 0)
      [secondArrival]).ending = .abort := by decide +kernel
  refine ⟨fun i high => ?_, two_answered, aborts, fun complete => ?_⟩
  · obtain rfl | rfl : i = 0 ∨ i = 1 := by omega
    · exact ⟨_, _, rfl, by decide⟩
    · exact ⟨_, _, rfl, by decide⟩
  · cases aborts.symm.trans complete.ending

end PiJade.PsbtReply
