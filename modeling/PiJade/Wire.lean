import PiJade.Bytes
import PiJade.CborRpc

/-!
Message framing (`main/wire.c`, `libjade_send` of `libjade/libjade.c`). Bytes from a
transport are appended to one buffer, and complete messages are taken from its front. Sizes
are machine words, with the wrap of unsigned arithmetic. What is read in some bytes, and the clock,
are parameters; what is sent to the host or to the main task is logged. An assertion that fails while
a message is answered stops the device.
-/
namespace PiJade.Wire
open Text
set_option linter.unusedSimpArgs false

/-- What depends on the build: sizes, the timeout in ticks and the debug requests. -/
structure Board where
  MAX_INPUT_MSG_SIZE : Nat
  TIMEOUT_TICKS : Nat
  /-- `xRingbufferGetMaxItemSize` of the queue to the main task. -/
  maxItemSize : Nat
  /-- `CONFIG_DEBUG_MODE` and `CONFIG_LIBJADE`. -/
  debug : Bool
  positive : 0 < MAX_INPUT_MSG_SIZE
  small : MAX_INPUT_MSG_SIZE < 2 ^ 32

/-- What is read in some bytes, and what `libjade.c` does for a debug request. A call that fails an assertion stops. -/
structure Rpc where
  /-- The length of the map at the start, or zero if there is no complete one. -/
  get_msg_len : Bytes → Nat
  rpc_request_valid : Bytes → Bool
  rpc_get_method : Bytes → Check CborRpc.Fault (Option Bytes)
  /-- The flag of that name in the parameters is set. -/
  nonblocking : Bytes → Bool
  /-- Empty if there is none. -/
  rpc_get_id : Bytes → Check CborRpc.Fault Bytes
  process_libjade_request : Bytes → Check CborRpc.Fault Unit

/-- Messages answered or passed on, and rejections. -/
inductive Output where
  | ping (message : Bytes)
  | version_info (message : Bytes)
  | libjade_request (message : Bytes)
  | pushed (data : Bytes)
  | rejected (id : Bytes) (msg : String) (rejected_len : Nat)
  deriving DecidableEq, Repr

/-- The buffer of a transport, with its source, and what was sent so far. `reads` counts the
    readings of the clock, and `stale` is a ghost: some call found its buffer stale. -/
structure State where
  source : UInt8
  data_in : Bytes
  read_ptr : UInt64
  last_processing_time : Nat
  reads : Nat
  sent : List Output
  stale : Bool

/-- The device may stop in a message. What it had sent is what the state says. -/
inductive Fault where
  | out_of_bounds
  | diverged
  | stopped (state : State) (halt : Halt CborRpc.Fault)

def PING : Bytes := [112, 105, 110, 103]
def VERINFO : Bytes := [103, 101, 116, 95, 118, 101, 114, 115, 105, 111, 110, 95, 105, 110, 102, 111]
def LIBJADE_REQUEST_METHOD : Bytes := [108, 105, 98, 106, 97, 100, 101, 95, 114, 101, 113, 117, 101, 115, 116]

section
variable (board : Board) (rpc : Rpc)

/-- The id of a rejection; bytes without one are answered as `00`. -/
def reject_data (bytes : Bytes) (msg : String) (rejected_len : Nat) : Check CborRpc.Fault Output := do
  let id ← rpc.rpc_get_id bytes
  return .rejected (if id.length ≠ 0 then cstr id else [48, 48]) msg rejected_len

/-- A reply has an id, also where it is taken for a string. -/
def jade_process_reply_to_message_result (message : Bytes) (reply : Output) : Check CborRpc.Fault Output := do
  let id ← rpc.rpc_get_id message
  Check.ensure (id.length ≠ 0)
  Check.ensure ((cstr id).length ≠ 0)
  return reply

def handle_immediate_message (message : Bytes) : Check CborRpc.Fault (Option Output) := do
  match ← rpc.rpc_get_method message with
  | none => return none
  | some method =>
    if method = PING then do
      let reply ← jade_process_reply_to_message_result rpc message (.ping message)
      return some reply
    else if method = VERINFO then
      if rpc.nonblocking message then do
        let reply ← jade_process_reply_to_message_result rpc message (.version_info message)
        return some reply
      else return none
    else if board.debug ∧ method = LIBJADE_REQUEST_METHOD then do
      rpc.process_libjade_request message
      return some (.libjade_request message)
    else return none

/-- What becomes of a complete message. -/
def dispatch (source : UInt8) (message : Bytes) : Check CborRpc.Fault Output :=
  if !rpc.rpc_request_valid message then reject_data rpc message "Invalid RPC Request message" message.length
  else do
    match ← handle_immediate_message board rpc message with
    | some reply => return reply
    | none =>
      if board.maxItemSize < message.length + 1 then reject_data rpc message "Input message too large" message.length
      else return .pushed (source :: message)

/-- Moves `n` bytes from an offset to the start. -/
def memmove (data : Bytes) (offset n : Nat) : Bytes := (data.drop offset).take n ++ data.drop n

def State.send (state : State) (output : Output) : State := { state with sent := state.sent ++ [output] }

/-- An iteration returns, or there is unprocessed data left, or the device stops. -/
inductive Step where
  | done (state : State)
  | again (state : State)
  | stop (state : State) (halt : Halt CborRpc.Fault)

/-- The end of an iteration: the pointer may wrap below zero until the new data is added to it. -/
def State.consume (state : State) (parse_len msg_len : UInt64) (now : Nat) : Step :=
  if msg_len = parse_len then .done { state with read_ptr := 0, last_processing_time := now }
  else .again { state with
    data_in := memmove state.data_in msg_len.toNat (parse_len - msg_len).toNat
    read_ptr := state.read_ptr - msg_len }

/-- An output is sent, if it is made, and the bytes it is for are consumed. -/
def State.answer (state : State) (output : Check CborRpc.Fault Output) (parse_len msg_len : UInt64) (now : Nat) : Step :=
  match output with
  | .ok output => (state.send output).consume parse_len msg_len now
  | .error halt => .stop state halt

/-- One iteration of the loop of `handle_data`. -/
def iteration (state : State) (new_data_len : UInt64) (have_stale : Bool) (now : Nat) : Step :=
  let parse_len := state.read_ptr + new_data_len
  let data := state.data_in.take parse_len.toNat
  let msg_len := UInt64.ofNat (rpc.get_msg_len data)
  if msg_len = 0 then
    if parse_len.toNat = board.MAX_INPUT_MSG_SIZE then
      state.answer (reject_data rpc data "Invalid RPC Request message" parse_len.toNat) parse_len parse_len now
    else if have_stale then
      state.answer (reject_data rpc data "Invalid RPC Request message" state.read_ptr.toNat) parse_len state.read_ptr now
    else .done { state with read_ptr := parse_len, last_processing_time := now }
  else state.answer (dispatch board rpc state.source (data.take msg_len.toNat)) parse_len msg_len now

def loop (new_data_len : UInt64) (now : Nat) : Nat → State → Bool → Check Fault State
  | 0, _, _ => .error (.error .diverged)
  | rounds + 1, state, have_stale =>
    match iteration board rpc state new_data_len have_stale now with
    | .done state => .ok state
    | .again state => loop new_data_len now rounds state false
    | .stop state halt => .error (.error (.stopped state halt))

variable (clock : Nat → Nat)

/-- There are bytes already, and the timeout has expired. -/
def State.have_stale (state : State) (now : Nat) : Bool :=
  decide (state.read_ptr ≠ 0) && decide (state.last_processing_time + board.TIMEOUT_TICKS < now)

/-- The state when the loop is entered. -/
def State.enter (state : State) (now : Nat) : State :=
  { state with reads := state.reads + 1, stale := state.stale || state.have_stale board now }

/-- The new data is in the buffer already, behind the read pointer. -/
def handle_data (state : State) (new_data_len : UInt64) : Check Fault State := do
  Check.ensure (state.read_ptr.toNat ≤ board.MAX_INPUT_MSG_SIZE &&
    (state.read_ptr + new_data_len).toNat ≤ board.MAX_INPUT_MSG_SIZE)
  let now := clock state.reads
  Check.ensure (state.last_processing_time ≤ now)
  loop board rpc new_data_len now (board.MAX_INPUT_MSG_SIZE + 1) (state.enter board now) (state.have_stale board now)

/-- A transport reads bytes to the free end of the buffer. -/
def State.receive (state : State) (bytes : Bytes) : State :=
  { state with data_in := state.data_in.take state.read_ptr.toNat ++ bytes ++
      state.data_in.drop (state.read_ptr.toNat + bytes.length) }

/-- Bytes that a transport has read, passed to `handle_data`. -/
def feed (state : State) (bytes : Bytes) : Check Fault State :=
  if state.read_ptr.toNat + bytes.length ≤ board.MAX_INPUT_MSG_SIZE then
    handle_data board rpc clock (state.receive bytes) (UInt64.ofNat bytes.length)
  else .error (.error .out_of_bounds)

/-- The loop of `libjade_send`. -/
def sendLoop : Nat → State → Bytes → Check Fault State
  | _, state, [] => .ok state
  | 0, _, _ => .error (.error .diverged)
  | rounds + 1, state, data => do
    let remaining_bytes := UInt64.ofNat board.MAX_INPUT_MSG_SIZE - state.read_ptr
    let copy_len := if data.length > remaining_bytes.toNat then remaining_bytes.toNat else data.length
    let state ← feed board rpc clock state (data.take copy_len)
    sendLoop rounds state (data.drop copy_len)

/-- The source of the bytes a daemon passes on. -/
def SOURCE_SERIAL : UInt8 := 2

def libjade_send (state : State) (data : Bytes) : Check Fault State :=
  sendLoop board rpc clock data.length { state with source := SOURCE_SERIAL } data

/-- How bytes come to a buffer. -/
inductive Delivery where
  | chunk (bytes : Bytes)
  | daemon (data : Bytes)

def Delivery.bytes : Delivery → Bytes
  | .chunk bytes => bytes
  | .daemon data => data

def deliver (state : State) : Delivery → Check Fault State
  | .chunk bytes => feed board rpc clock state bytes
  | .daemon data => libjade_send board rpc clock state data

def run (state : State) (deliveries : List Delivery) : Check Fault State :=
  Check.fold (deliver board rpc clock) state deliveries

end
end PiJade.Wire
