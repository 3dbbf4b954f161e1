import PiJade.CborRequests
import PiJade.WireFraming

/-!
The requests in which a transport stops the device (`get_msg_len` and `handle_immediate_message` of `main/wire.c`): a
method whose length takes eight bytes passes the check of a request, and its pointer getter asserts that it does
not; a request that is answered at once may have an id that begins with NUL.
Framing does not depend on how the bytes arrive there either.
-/
namespace PiJade.Wire
open Cbor CborRpc Text
set_option linter.unusedSimpArgs false

section
variable {V : Type} (lib : Library V)

/-- The length of a map that the bytes begin with, or zero. -/
def get_msg_len (data_in : Bytes) : Nat :=
  match lib.cbor_parser_init data_in with
  | none => 0
  | some value =>
    match lib.cbor_value_advance value with
    | none => 0
    | some ptr => if cbor_value_is_map lib.toTinycbor value then ptr else 0

/-- The contents of the method, if there is a pointer to them. -/
def methodBytes (message : Bytes) (value : V) : Check CborRpc.Fault (Option Bytes) := do
  let ptr ← rpc_get_method lib.toTinycbor message value
  pure (ptr.data.map fun data => (message.drop data).take ptr.size)

def NONBLOCKING : Bytes := ['n', 'o', 'n', 'b', 'l', 'o', 'c', 'k', 'i', 'n', 'g'].map Char.toUInt8

/-- What a transport reads in some bytes, where they can be parsed. The bytes behind a complete message are left out. -/
def rpcOf (process_libjade_request : Bytes → Check CborRpc.Fault Unit) : Rpc where
  get_msg_len := get_msg_len lib
  rpc_request_valid message := (lib.cbor_parser_init message).elim false (rpc_request_valid lib)
  rpc_get_method message := (lib.cbor_parser_init message).elim (.ok none) (methodBytes lib message)
  nonblocking message := (do
    let value ← lib.cbor_parser_init message
    let params ← rpc_get_map lib CBOR_RPC_TAG_PARAMS value
    rpc_get_bool lib NONBLOCKING params) == some true
  rpc_get_id bytes := (lib.cbor_parser_init bytes).elim (.ok []) (rpc_get_id lib)
  process_libjade_request := process_libjade_request

/-! ### Where a message stops the device -/

/-- Its method is a string in one piece. -/
def Method (root : Item) (method : Bytes) : Prop :=
  ∃ place chunk, root.field CBOR_RPC_TAG_METHOD 0 = some (place, .string true chunk) ∧ chunk.content = method

/-- What the device stops at in a request: the length of the method, the id in a reply, or what `libjade.c` asserts. -/
inductive Stops (board : Board) (rpc : Rpc) (root : Item) : Prop where
  | wide {place : Nat} {method : Item} (there : root.field CBOR_RPC_TAG_METHOD 0 = some (place, method))
      (wide : Wide true method)
  | ping (method : Method root PING) {id : Bytes} (there : textField root CBOR_RPC_TAG_ID = some (0 :: id))
  | version_info (method : Method root VERINFO) (nonblocking : rpc.nonblocking root.bytes = true) {id : Bytes}
      (there : textField root CBOR_RPC_TAG_ID = some (0 :: id))
  | libjade_request (debug : board.debug = true) (method : Method root LIBJADE_REQUEST_METHOD) {halt : Halt CborRpc.Fault}
      (stops : rpc.process_libjade_request root.bytes = .error halt)

/-- Bytes with an id whose length is read and which is not copied. -/
def Uncopied (data : Bytes) : Prop :=
  ∃ value id length, lib.cbor_parser_init data = some value ∧
    rpc_get_data lib.toTinycbor CBOR_RPC_TAG_ID value = some id ∧ cbor_value_is_text_string lib.toTinycbor id = true ∧
    stringLength lib.toTinycbor id = some length ∧ length < MAXLEN_ID + 1 ∧
    ∀ copy written, lib.cbor_value_copy_text_string id (MAXLEN_ID + 1) = some (copy, written) →
      written < MAXLEN_ID + 1 → copy[written]? ≠ some 0

end

/-! ### What is read in a message -/

section
variable {V : Type} {lib : Library V} {view : V → Cursor} {message : Bytes} {value : V} {root : Item}

/-- The contents of the method of a request, unless their length takes eight bytes. -/
theorem methodBytes_spec (correct : lib.toTinycbor.Correct view) (current : (view value).current = some (0, root))
    (located : Located message 0 root) (formed : WellFormed root) (request : Request root) :
    (∃ place method, root.field CBOR_RPC_TAG_METHOD 0 = some (place, method) ∧ Wide true method ∧
      methodBytes lib message value = .error .abort) ∨
    (∀ place method, root.field CBOR_RPC_TAG_METHOD 0 = some (place, method) → ¬ Wide true method) ∧
      ∃ found, methodBytes lib message value = .ok found ∧ ∀ method, found = some method ↔ Method root method := by
  obtain ⟨_, content, text, filled, short⟩ := request
  obtain ⟨⟨place, item⟩, there, holds⟩ := Option.bind_eq_some_iff.mp text
  have is_map := field_is_map there
  have only {place' : Nat} {item' : Item} (again : root.field CBOR_RPC_TAG_METHOD 0 = some (place', item')) :
      item' = item := by
    rw [there] at again
    cases again
    rfl
  by_cases wide : Wide true item
  · refine .inl ⟨place, item, there, wide, ?_⟩
    rw [methodBytes, rpc_get_method_eq correct current is_map located formed, there, Option.elim_some, pointed_wide wide]
    rfl
  · refine .inr ⟨fun place' method again => only again ▸ wide, ?_⟩
    have short_method (place' : Nat) (chunk : Chunk)
        (again : root.field CBOR_RPC_TAG_METHOD 0 = some (place', .string true chunk)) :
        chunk.content.length ≤ MAXLEN_METHOD := by
      rw [← only again, Item.content?, if_pos rfl] at holds
      cases holds
      exact short
    obtain ⟨ptr, returned, delimits⟩ := rpc_get_method_returns correct current is_map located formed
      (fun place' method again => only again ▸ wide) short_method
    refine ⟨ptr.data.map fun data => (message.drop data).take ptr.size, by rw [methodBytes, returned]; rfl, fun method => ?_⟩
    rw [rpc_get_method_eq correct current is_map located formed, there, Option.elim_some] at returned
    obtain ⟨made, points, checked⟩ := Check.bind_eq_ok.mp returned
    obtain ⟨_, _, same⟩ := Check.bind_eq_ok.mp checked
    cases same
    cases item with
    | string kind chunk =>
      rw [Item.content?] at holds
      split at holds
      · rename_i is_text
        cases holds
        subst is_text
        have counted : chunk.head.form ≠ .eight := fun eight => wide ⟨chunk, rfl, eight, filled⟩
        rw [pointed, if_pos ⟨rfl, filled⟩, if_neg counted] at points
        cases points
        obtain ⟨_, _, same, _, _, _, contents⟩ := delimits _ rfl
        rw [there] at same
        cases same
        rw [Option.map_some, contents]
        refine ⟨fun same => ⟨place, chunk, there, Option.some.inj same⟩, ?_⟩
        rintro ⟨_, other, again, rfl⟩
        cases only again
        rfl
      · cases holds
    | chunked kind chunks =>
      cases points
      refine ⟨fun nothing => (by cases nothing), ?_⟩
      rintro ⟨_, other, again, _⟩
      cases only again
    | _ => cases holds

/-! ### What a message comes to -/

/-- What the getters read in a message. -/
structure Reads (rpc : Rpc) (root : Item) : Prop where
  valid : rpc.rpc_request_valid root.bytes = true ↔ Request root
  id : rpc.rpc_get_id root.bytes = .ok (idOf root)
  method : Request root →
    (∃ place method, root.field CBOR_RPC_TAG_METHOD 0 = some (place, method) ∧ Wide true method ∧
      rpc.rpc_get_method root.bytes = .error .abort) ∨
    (∀ place method, root.field CBOR_RPC_TAG_METHOD 0 = some (place, method) → ¬ Wide true method) ∧
      ∃ found, rpc.rpc_get_method root.bytes = .ok found ∧ ∀ method, found = some method ↔ Method root method

theorem reads_of_correct (correct : lib.Correct view) {process_libjade_request : Bytes → Check CborRpc.Fault Unit}
    (parsed : lib.cbor_parser_init root.bytes = some value) (stands : view value = ⟨0, [root]⟩)
    (is_map : typeOf root = .map) (formed : WellFormed root) : Reads (rpcOf lib process_libjade_request) root := by
  have current : (view value).current = some (0, root) := by rw [stands]; rfl
  have located : Located root.bytes 0 root := ⟨[], by rw [List.append_nil, List.drop_zero]⟩
  refine ⟨?_, ?_, fun request => ?_⟩
  · simpa [rpcOf, parsed] using rpc_request_valid_iff correct.toCorrect current is_map
  · simpa [rpcOf, parsed] using rpc_get_id_eq correct.toCorrect current is_map
  · simpa [rpcOf, parsed] using methodBytes_spec correct.toCorrect current located formed request

section
variable {board : Board} {rpc : Rpc}

/-- The id of a message begins with NUL. -/
def NulId (root : Item) : Prop := ∃ id, textField root CBOR_RPC_TAG_ID = some (0 :: id)

theorem reply_stops_iff (reads : Reads rpc root) (request : Request root) (reply : Output) :
    (∃ halt, jade_process_reply_to_message_result rpc root.bytes reply = .error halt) ↔ NulId root := by
  obtain ⟨⟨id, there, filled, short⟩, _⟩ := request
  have found : idOf root = id := by rw [idOf, there, Option.elim_some, if_pos short]
  rw [jade_process_reply_to_message_result, reads.id, found, NulId, there]
  obtain ⟨c, rest, rfl⟩ := List.exists_cons_of_ne_nil filled
  by_cases nul : c = 0
  · simp [nul, cstr_nul]
  · simp [nul, cstr_cons nul]

theorem stops_iff {found : Option Bytes} (named : ∀ method, found = some method ↔ Method root method)
    (narrow : ∀ place method, root.field CBOR_RPC_TAG_METHOD 0 = some (place, method) → ¬ Wide true method) :
    Stops board rpc root ↔ found = some PING ∧ NulId root ∨
      found = some VERINFO ∧ rpc.nonblocking root.bytes = true ∧ NulId root ∨
      board.debug = true ∧ found = some LIBJADE_REQUEST_METHOD ∧
        ∃ halt, rpc.process_libjade_request root.bytes = .error halt := by
  simp only [named]
  refine ⟨fun stops => ?_, ?_⟩
  · cases stops with
    | wide there wide => exact absurd wide (narrow _ _ there)
    | ping method there => exact .inl ⟨method, _, there⟩
    | version_info method nonblocking there => exact .inr (.inl ⟨method, nonblocking, _, there⟩)
    | libjade_request debug method stops => exact .inr (.inr ⟨debug, method, _, stops⟩)
  · rintro (⟨method, _, there⟩ | ⟨method, nonblocking, _, there⟩ | ⟨debug, method, _, stops⟩)
    · exact .ping method there
    · exact .version_info method nonblocking there
    · exact .libjade_request debug method stops

theorem handle_stops_iff (reads : Reads rpc root) (request : Request root) :
    (∃ halt, handle_immediate_message board rpc root.bytes = .error halt) ↔ Stops board rpc root := by
  rw [handle_immediate_message]
  obtain ⟨place, method, there, wide, stops⟩ | ⟨narrow, found, returned, named⟩ := reads.method request
  · rw [stops, Check.error_bind]
    exact ⟨fun _ => .wide there wide, fun _ => ⟨_, rfl⟩⟩
  · rw [stops_iff named narrow, returned, Check.ok_bind]
    cases found with
    | none => simp
    | some method =>
      simp only [Option.some.injEq]
      by_cases ping : method = PING
      · have other : PING ≠ VERINFO ∧ PING ≠ LIBJADE_REQUEST_METHOD := by decide
        simp [ping, other, Check.bind_stops_iff, reply_stops_iff reads request]
      · by_cases version_info : method = VERINFO
        · have other : VERINFO ≠ PING ∧ VERINFO ≠ LIBJADE_REQUEST_METHOD := by decide
          by_cases nonblocking : rpc.nonblocking root.bytes = true
          · simp [version_info, other, nonblocking, Check.bind_stops_iff, reply_stops_iff reads request]
          · simp [version_info, other, nonblocking]
        · by_cases libjade : board.debug = true ∧ method = LIBJADE_REQUEST_METHOD
          · have other : LIBJADE_REQUEST_METHOD ≠ PING ∧ LIBJADE_REQUEST_METHOD ≠ VERINFO := by decide
            simp [libjade, other, Check.bind_stops_iff]
          · simp only [ping, version_info, libjade, if_false]
            simp only [not_and] at libjade
            simp
            tauto

/-- The device stops in a message exactly if it is a request that stops it. -/
theorem dispatch_stops_iff (reads : Reads rpc root) (source : UInt8) :
    (∃ halt, dispatch board rpc source root.bytes = .error halt) ↔ Request root ∧ Stops board rpc root := by
  by_cases request : Request root
  · have valid := reads.valid.mpr request
    simp only [dispatch, valid, Bool.not_true, Bool.false_eq_true, if_false, Check.bind_stops_iff,
      handle_stops_iff reads request]
    simp only [request, true_and]
    refine ⟨?_, .inl⟩
    rintro (stops | ⟨answer, -, halt, stops⟩)
    · exact stops
    · cases answer with
      | some reply => cases stops
      | none =>
        simp only [reject_data, reads.id] at stops
        split at stops <;> cases stops
  · have invalid : rpc.rpc_request_valid root.bytes = false := Bool.eq_false_iff.mpr fun valid => request (reads.valid.mp valid)
    simp [dispatch, invalid, request, reject_data, reads.id]

end

/-- A rejection stops exactly if there is an id that is not copied. -/
theorem reject_stops_iff {process_libjade_request : Bytes → Check CborRpc.Fault Unit} (data : Bytes) (msg : String)
    (rejected_len : Nat) :
    (∃ halt, reject_data (rpcOf lib process_libjade_request) data msg rejected_len = .error halt) ↔ Uncopied lib data := by
  have only_id : (∃ halt, reject_data (rpcOf lib process_libjade_request) data msg rejected_len = .error halt) ↔
      ∃ halt, (rpcOf lib process_libjade_request).rpc_get_id data = .error halt := by
    rw [reject_data, Check.bind_stops_iff]
    exact ⟨fun either => either.elim id fun ⟨_, _, _, stops⟩ => (nomatch stops), .inl⟩
  rw [only_id, Uncopied]
  cases parsed : lib.cbor_parser_init data with
  | none => simp [rpcOf, parsed]
  | some value =>
    simp only [rpcOf, parsed, Option.elim_some, Option.some.injEq, exists_and_left, exists_eq_left', rpc_get_id_stops_iff,
      rpc_get_string_stops_iff CBOR_RPC_TAG_ID (Nat.succ_pos MAXLEN_ID)]

/-! ### Runs -/

/-- Where the device stops in some bytes: in a request at their front, or for an id it cannot copy. -/
structure StopsIn (board : Board) (lib : Library V) (process_libjade_request : Bytes → Check CborRpc.Fault Unit)
    (data : Bytes) : Prop where
  message (source : UInt8) : get_msg_len lib data ≠ 0 →
    ∃ root, WellFormed root ∧ data.take (get_msg_len lib data) = root.bytes ∧
      ((∃ halt, dispatch board (rpcOf lib process_libjade_request) source root.bytes = .error halt) ↔
        Request root ∧ Stops board (rpcOf lib process_libjade_request) root)
  rejection (msg : String) (rejected_len : Nat) :
    (∃ halt, reject_data (rpcOf lib process_libjade_request) data msg rejected_len = .error halt) ↔ Uncopied lib data

theorem stopsIn_of_correct (correct : lib.Correct view) (board : Board)
    (process_libjade_request : Bytes → Check CborRpc.Fault Unit) (data : Bytes) :
    StopsIn board lib process_libjade_request data := by
  refine ⟨fun source found => ?_, reject_stops_iff data⟩
  cases parsed : lib.cbor_parser_init data with
  | none => simp [get_msg_len, parsed] at found
  | some value =>
    cases advanced : lib.cbor_value_advance value with
    | none => simp [get_msg_len, parsed, advanced] at found
    | some ptr =>
      obtain ⟨root, rest, whole, formed, rfl, stands, alone, parsed_alone, stands_alone⟩ := correct.advance parsed advanced
      have current : (view value).current = some (0, root) := by rw [stands]; rfl
      by_cases is_map : typeOf root = .map
      · have length : get_msg_len lib data = root.bytes.length := by
          simp [get_msg_len, parsed, advanced, cbor_value_is_map, type_eq correct.toCorrect current, is_map]
        refine ⟨root, formed, ?_, dispatch_stops_iff (reads_of_correct correct parsed_alone stands_alone is_map formed) source⟩
        rw [length, whole, List.take_left]
      · simp [get_msg_len, parsed, advanced, cbor_value_is_map, type_eq correct.toCorrect current, is_map] at found

end

/-- Two ways to cut a stream give the same outputs and leave the same bytes, or stop the device at the same
    place, if no call finds its buffer stale. A call returns or stops, with the pointer inside the buffer; while it runs the
    pointer may wrap, but the bytes it looks at are in the buffer and grow fewer. The device stops in a request
    whose method has a length of eight bytes, or whose id begins with NUL and is replied to at once. -/
theorem framing_independent_of_cut {V : Type} {lib : Library V} {process_libjade_request : Bytes → Check CborRpc.Fault Unit}
    {board : Board} (stable : Stable (get_msg_len lib)) {clock clock' : Nat → Nat} (monotone : Monotone clock)
    (monotone' : Monotone clock') {source : UInt8} {start start' : State} (fresh : Fresh board clock source start)
    (fresh' : Fresh board clock' source start') {cut cut' : List Delivery}
    (from_source : ∀ delivery ∈ cut ++ cut', delivery.From source) (same : stream cut = stream cut') {after after' : State}
    {unread unread' : Option Bytes}
    (ends : Ends (run board (rpcOf lib process_libjade_request) clock start cut) after unread)
    (ends' : Ends (run board (rpcOf lib process_libjade_request) clock' start' cut') after' unread') :
    (after.stale = false → after'.stale = false → after.sent = after'.sent ∧ unread = unread') ∧
      (unread ≠ none → Ready board (rpcOf lib process_libjade_request) clock after) ∧
      (unread = none → ∃ halt, Halts board (rpcOf lib process_libjade_request) source halt) ∧
      ∀ view, lib.Correct view → ∀ data, StopsIn board lib process_libjade_request data := by
  refine ⟨framing_of_cuts stable monotone monotone' fresh fresh' from_source same ends ends', fun waits => ?_, fun stops => ?_,
    fun view correct data => stopsIn_of_correct correct board process_libjade_request data⟩
  all_goals
    have begins : Handled board (rpcOf lib process_libjade_request) clock start [] (.ok start) := fresh.handled
    have handled := run_handled stable monotone begins (fun d inside => fresh.tagged ▸ from_source d (List.mem_append_left _ inside))
      ends
    generalize run board (rpcOf lib process_libjade_request) clock start cut = result at ends handled
  · cases ends with
    | waiting => exact handled.ready stable monotone
    | stopped => exact absurd rfl waits
  · cases ends with
    | waiting => cases stops
    | stopped =>
      cases handled with
      | stopped halts _ => exact ⟨_, fresh.tagged ▸ halts⟩

/-! ### A transport -/

theorem transport_msg_len (data : Bytes) : get_msg_len referenceLibrary data =
    (decode data).elim 0 fun found => if typeOf found.1 = .map then found.1.bytes.length else 0 := by
  cases read : decode data with
  | none => simp [get_msg_len, referenceLibrary, reference, read]
  | some found =>
    simp [get_msg_len, referenceLibrary, reference, read, cbor_value_is_map, Cursor.current]

theorem transport_stable : Stable (get_msg_len referenceLibrary) := by
  refine ⟨fun data => ?_, fun data more found => ?_⟩
  · rw [transport_msg_len]
    cases read : decode data with
    | none => exact Nat.zero_le _
    | some found =>
      obtain ⟨whole, _⟩ := decode_eq_some_iff.mp read
      have length := congrArg List.length whole
      rw [List.length_append] at length
      rw [Option.elim_some]
      split <;> omega
  · rw [transport_msg_len] at found ⊢
    cases read : decode data with
    | none => simp [read] at found
    | some found =>
      obtain ⟨whole, formed⟩ := decode_eq_some_iff.mp read
      have again : decode (data ++ more) = some (found.1, found.2 ++ more) :=
        decode_eq_some_iff.mpr ⟨by rw [whole, List.append_assoc], formed⟩
      rw [transport_msg_len, again, read]
      rfl

def smallBoard : Board where
  MAX_INPUT_MSG_SIZE := 32
  TIMEOUT_TICKS := 2000
  maxItemSize := 1024
  debug := true
  positive := Nat.succ_pos 31
  small := Nat.lt_two_pow_self

def emptyBuffer : State := ⟨SOURCE_SERIAL, List.replicate 32 0, 0, 0, 0, [], false⟩

theorem emptyBuffer_fresh : Fresh smallBoard (fun _ => 0) SOURCE_SERIAL emptyBuffer :=
  ⟨⟨rfl, by decide, Nat.le_refl 0⟩, rfl, rfl, rfl, rfl⟩

/-- A ping with an id of one letter. -/
def pingRequest : Bytes := [0xa2, 0x62, 105, 100, 0x61, 49, 0x66, 109, 101, 116, 104, 111, 100, 0x64, 112, 105, 110, 103]

/-- The same, with the length of the method in eight bytes. -/
def wideRequest : Bytes :=
  [0xa2, 0x62, 105, 100, 0x61, 49, 0x66, 109, 101, 116, 104, 111, 100, 0x7b, 0, 0, 0, 0, 0, 0, 0, 4, 112, 105, 110, 103]

/-- The whole reading of a transport, with nothing done for a debug request. -/
def transportRpc : Rpc := rpcOf referenceLibrary fun _ => .ok ()

/-- The buffer after a ping and a rejected map. -/
def waitingBuffer (reads : Nat) : State where
  source := SOURCE_SERIAL
  data_in := [0xa1, 0xa1] ++ pingRequest.drop 2 ++ [0xa0, 0xa1] ++ List.replicate 12 0
  read_ptr := 1
  last_processing_time := 0
  reads
  sent := [.ping pingRequest, .rejected [48, 48] "Invalid RPC Request message" 1]
  stale := false

/-- The buffer after a ping, at a request whose method has a length of eight bytes. -/
def stoppedBuffer (read_ptr : UInt64) (behind : Bytes) (reads : Nat) : State where
  source := SOURCE_SERIAL
  data_in := wideRequest ++ behind
  read_ptr
  last_processing_time := 0
  reads
  sent := [.ping pingRequest]
  stale := false

theorem waitingBuffer_runs :
    run smallBoard transportRpc (fun _ => 0) emptyBuffer
      [.chunk (pingRequest.take 5), .chunk (pingRequest.drop 5 ++ [0xa0, 0xa1])] = .ok (waitingBuffer 2) ∧
    run smallBoard transportRpc (fun _ => 0) emptyBuffer [.daemon (pingRequest ++ [0xa0, 0xa1])] =
      .ok (waitingBuffer 1) := by
  exact ⟨rfl, rfl⟩

theorem stoppedBuffer_runs :
    run smallBoard transportRpc (fun _ => 0) emptyBuffer
      [.chunk pingRequest, .chunk (wideRequest.take 5), .chunk (wideRequest.drop 5)] =
      .error (.error (.stopped (stoppedBuffer 5 (List.replicate 6 0) 3) .abort)) ∧
    run smallBoard transportRpc (fun _ => 0) emptyBuffer [.daemon (pingRequest ++ wideRequest)] =
      .error (.error (.stopped (stoppedBuffer 14 [101, 116, 104, 111, 100, 0x7b] 2) .abort)) := by
  exact ⟨rfl, rfl⟩

theorem Ends.of_ok {result : Check Fault State} {state : State} (ran : result = .ok state) :
    Ends result state (some state.unread) := ran ▸ .waiting state

theorem Ends.of_stopped {result : Check Fault State} {state : State} {halt : Halt CborRpc.Fault}
    (ran : result = .error (.error (.stopped state halt))) : Ends result state none := ran ▸ .stopped state halt

/-- A cut inside a ping, and none. The map behind it is rejected, and its successor waits. Then a request whose method
    has a length of eight bytes, cut or not. -/
theorem framing_independent_of_cut_transport :
    ((waitingBuffer 2).sent = (waitingBuffer 1).sent ∧ some (waitingBuffer 2).unread = some (waitingBuffer 1).unread) ∧
    (stoppedBuffer 5 (List.replicate 6 0) 3).sent = (stoppedBuffer 14 [101, 116, 104, 111, 100, 0x7b] 2).sent ∧
    ∃ halt, Halts smallBoard transportRpc SOURCE_SERIAL halt := by
  have from_serial (cut : List Delivery) : ∀ delivery ∈ cut, delivery.From SOURCE_SERIAL := by
    intro delivery _
    cases delivery <;> trivial
  have stopped := framing_independent_of_cut transport_stable monotone_const monotone_const emptyBuffer_fresh
    emptyBuffer_fresh (from_serial _) (by rfl) (.of_stopped stoppedBuffer_runs.1) (.of_stopped stoppedBuffer_runs.2)
  refine ⟨?_, (stopped.1 rfl rfl).1, stopped.2.2.1 rfl⟩
  exact (framing_independent_of_cut transport_stable monotone_const monotone_const emptyBuffer_fresh emptyBuffer_fresh
    (from_serial _) (by rfl) (.of_ok waitingBuffer_runs.1) (.of_ok waitingBuffer_runs.2)).1 rfl rfl

/-- A message that ends in the second chunk is longer than what was kept of it. -/
theorem read_pointer_wraps :
    Stable transportRpc.get_msg_len ∧ Fresh smallBoard (fun _ => 0) SOURCE_SERIAL emptyBuffer ∧
    ∃ state head still, run smallBoard transportRpc (fun _ => 0) emptyBuffer [.chunk [0xa1]] = .ok state ∧
      (Delivery.chunk [0, 0, 0xa0]).Fits smallBoard state ∧
      CallHead smallBoard transportRpc (fun _ => 0) state [0, 0, 0xa0] head still ∧
      smallBoard.MAX_INPUT_MSG_SIZE < head.read_ptr.toNat := by
  refine ⟨transport_stable, emptyBuffer_fresh, _, _, _, rfl, ?_, .next .first rfl, by decide⟩
  simp only [Delivery.Fits]
  decide

end PiJade.Wire
