import Mathlib.Order.Monotone.Defs
import PiJade.Wire

/-!
Framing does not depend on how the bytes arrive. What the transport sends, and what is left
in the buffer, is a function of the whole stream, `frame`, as long as no call finds its
buffer stale. It is computed a chunk at a time because the reader of messages is stable: a
complete message at the front stays one, of the same length, whatever follows it.
-/
namespace PiJade.Wire
set_option linter.unusedSimpArgs false

/-- A complete message does not depend on the bytes after it. -/
structure Stable (get_msg_len : Bytes → Nat) : Prop where
  le_length : ∀ data, get_msg_len data ≤ data.length
  append : ∀ data more, get_msg_len data ≠ 0 → get_msg_len (data ++ more) = get_msg_len data

/-- What a stream comes to: what is sent, and the bytes left over unless the device stops. -/
abbrev Framing := List Output × Option Bytes

/-- An output in front, if it is made. -/
def answered (output : Check CborRpc.Fault Output) (later : Framing) : Framing :=
  match output with
  | .ok output => (output :: later.1, later.2)
  | .error _ => ([], none)

/-- The bytes left over are framed with more of them. -/
def Framing.andThen (framing : Framing) (next : Bytes → Framing) : Framing :=
  match framing.2 with
  | none => framing
  | some unread => (framing.1 ++ (next unread).1, (next unread).2)

theorem answered_andThen (output : Check CborRpc.Fault Output) (later : Framing) (next : Bytes → Framing) :
    (answered output later).andThen next = answered output (later.andThen next) := by
  obtain ⟨sent, unread⟩ := later
  cases output <;> cases unread <;> rfl

section
variable (board : Board) (rpc : Rpc) (source : UInt8)

set_option linter.unusedVariables false in
/-- The messages and rejections of a stream, and the bytes left over. -/
def frame (stream : Bytes) : Framing :=
  if nothing : stream = [] then ([], some [])
  else if found : rpc.get_msg_len (stream.take board.MAX_INPUT_MSG_SIZE) ≠ 0 then
    let msg_len := rpc.get_msg_len (stream.take board.MAX_INPUT_MSG_SIZE)
    answered (dispatch board rpc source (stream.take msg_len)) (frame (stream.drop msg_len))
  else if full : board.MAX_INPUT_MSG_SIZE ≤ stream.length then
    answered (reject_data rpc (stream.take board.MAX_INPUT_MSG_SIZE) "Invalid RPC Request message" board.MAX_INPUT_MSG_SIZE)
      (frame (stream.drop board.MAX_INPUT_MSG_SIZE))
  else ([], some stream)
termination_by stream.length
decreasing_by
  · have some_byte := List.length_pos_iff.mpr nothing
    rw [List.length_drop]
    omega
  · have positive := board.positive
    rw [List.length_drop]
    omega

end

section
variable {board : Board} {rpc : Rpc} {source : UInt8}

@[simp] theorem frame_nil : frame board rpc source [] = ([], some []) := by
  rw [frame]
  simp

theorem frame_message {stream : Bytes} (some_byte : stream ≠ [])
    (found : rpc.get_msg_len (stream.take board.MAX_INPUT_MSG_SIZE) ≠ 0) :
    frame board rpc source stream =
      answered (dispatch board rpc source (stream.take (rpc.get_msg_len (stream.take board.MAX_INPUT_MSG_SIZE))))
        (frame board rpc source (stream.drop (rpc.get_msg_len (stream.take board.MAX_INPUT_MSG_SIZE)))) := by
  rw [frame, dif_neg some_byte, dif_pos found]

theorem frame_full {stream : Bytes} (none : rpc.get_msg_len (stream.take board.MAX_INPUT_MSG_SIZE) = 0)
    (full : board.MAX_INPUT_MSG_SIZE ≤ stream.length) :
    frame board rpc source stream =
      answered (reject_data rpc (stream.take board.MAX_INPUT_MSG_SIZE) "Invalid RPC Request message"
        board.MAX_INPUT_MSG_SIZE) (frame board rpc source (stream.drop board.MAX_INPUT_MSG_SIZE)) := by
  have some_byte : stream ≠ [] := by
    rintro rfl
    have positive := board.positive
    exact absurd full (Nat.not_le.mpr positive)
  rw [frame, dif_neg some_byte, dif_neg (not_not.mpr none), dif_pos full]

theorem frame_rest {stream : Bytes} (none : rpc.get_msg_len (stream.take board.MAX_INPUT_MSG_SIZE) = 0)
    (short : stream.length < board.MAX_INPUT_MSG_SIZE) : frame board rpc source stream = ([], some stream) := by
  by_cases nothing : stream = []
  · rw [nothing, frame_nil]
  · rw [frame, dif_neg nothing, dif_neg (not_not.mpr none), dif_neg (Nat.not_le.mpr short)]

/-- The front of a stream is read alike, whatever follows. -/
theorem get_msg_len_take (stable : Stable rpc.get_msg_len) {stream : Bytes} (more : Bytes)
    (found : rpc.get_msg_len (stream.take board.MAX_INPUT_MSG_SIZE) ≠ 0) :
    rpc.get_msg_len ((stream ++ more).take board.MAX_INPUT_MSG_SIZE) =
      rpc.get_msg_len (stream.take board.MAX_INPUT_MSG_SIZE) := by
  rw [List.take_append]
  exact stable.append _ _ found

/-- A stream may be framed in two parts: the bytes left over by the first go before the second, unless
the device has stopped in it. -/
theorem frame_append (stable : Stable rpc.get_msg_len) (stream more : Bytes) :
    frame board rpc source (stream ++ more) =
      (frame board rpc source stream).andThen fun unread => frame board rpc source (unread ++ more) := by
  induction stream using frame.induct board rpc with
  | case1 => simp [Framing.andThen]
  | case2 stream some_byte found msg_len ih =>
    have same := get_msg_len_take stable more found
    have length := stable.le_length (stream.take board.MAX_INPUT_MSG_SIZE)
    rw [List.length_take] at length
    have joined : stream ++ more ≠ [] := by simp [some_byte]
    rw [frame_message some_byte found, frame_message joined (by rwa [same]), same, List.take_append_of_le_length (by omega),
      List.drop_append_of_le_length (by omega), ih, answered_andThen]
  | case3 stream some_byte none full ih =>
    have same : (stream ++ more).take board.MAX_INPUT_MSG_SIZE = stream.take board.MAX_INPUT_MSG_SIZE :=
      List.take_append_of_le_length full
    have longer : board.MAX_INPUT_MSG_SIZE ≤ (stream ++ more).length := by
      rw [List.length_append]
      omega
    rw [frame_full (not_not.mp none) full, frame_full (by rw [same]; exact not_not.mp none) longer, same,
      List.drop_append_of_le_length full, ih, answered_andThen]
  | case4 stream some_byte none short =>
    rw [frame_rest (not_not.mp none) (Nat.lt_of_not_le short)]
    simp [Framing.andThen]

end

/-! ### The loop -/

section
variable {board : Board} {rpc : Rpc} {new_data_len : UInt64} {now : Nat}

/-- The bytes not consumed yet. -/
def State.unread (state : State) : Bytes := state.data_in.take state.read_ptr.toNat

/-- The bytes an iteration looks at. -/
def State.given (state : State) (new_data_len : UInt64) : Bytes :=
  state.data_in.take (state.read_ptr + new_data_len).toNat

theorem memmove_length {data : Bytes} {offset n : Nat} (inside : offset + n ≤ data.length) :
    (memmove data offset n).length = data.length := by
  rw [memmove, List.length_append, List.length_take, List.length_drop, List.length_drop]
  omega

theorem memmove_take {data : Bytes} {offset n : Nat} (inside : offset + n ≤ data.length) :
    (memmove data offset n).take n = (data.drop offset).take n := by
  rw [memmove]
  apply List.take_left'
  rw [List.length_take, List.length_drop]
  omega

/-- What does not change while a call handles its data. -/
structure Same (state after : State) : Prop where
  source : after.source = state.source
  length : after.data_in.length = state.data_in.length
  reads : after.reads = state.reads
  stale : after.stale = state.stale

/-- There are bytes that the device stops in: at the message in front of them, or when they are rejected. -/
def Halts (board : Board) (rpc : Rpc) (source : UInt8) (halt : Halt CborRpc.Fault) : Prop :=
  ∃ data, (rpc.get_msg_len data ≠ 0 ∧ dispatch board rpc source (data.take (rpc.get_msg_len data)) = .error halt) ∨
    (rpc.get_msg_len data = 0 ∧
      ∃ rejected_len, reject_data rpc data "Invalid RPC Request message" rejected_len = .error halt)

/-- An output was sent, for some of the bytes given, which are consumed. -/
structure Continues (state : State) (new_data_len : UInt64) (output : Output) (consumed : Nat) (after : State) : Prop where
  same : Same state after
  sent : after.sent = state.sent ++ [output]
  less : (after.read_ptr + new_data_len).toNat + consumed = (state.read_ptr + new_data_len).toNat
  given : after.given new_data_len = (state.given new_data_len).drop consumed

/-- How a call ends. -/
structure Ended (board : Board) (state : State) (now : Nat) (after : State) : Prop where
  same : Same state after
  below : after.read_ptr.toNat < board.MAX_INPUT_MSG_SIZE
  time : after.last_processing_time = now

/-- The bytes given have been framed. -/
structure Framed (board : Board) (rpc : Rpc) (state : State) (data : Bytes) (after : State) (unread : Option Bytes) :
    Prop where
  sent : after.sent = state.sent ++ (frame board rpc state.source data).1
  unread : unread = (frame board rpc state.source data).2

/-- The first output of a stream, for some bytes of it, or a stop. -/
def FirstOf (board : Board) (rpc : Rpc) (source : UInt8) (data : Bytes) (output : Check CborRpc.Fault Output)
    (consumed : Nat) : Prop :=
  frame board rpc source data = answered output (frame board rpc source (data.drop consumed))

/-- What an iteration does. Stale bytes are rejected though a longer stream may complete them. -/
inductive Round (board : Board) (rpc : Rpc) (state : State) (new_data_len : UInt64) (have_stale : Bool) (now : Nat) :
    Step → Prop where
  | done {after : State} (ended : Ended board state now after)
      (framed : have_stale = false → Framed board rpc state (state.given new_data_len) after (some after.unread)) :
      Round board rpc state new_data_len have_stale now (.done after)
  | again {after : State} {output : Output} {consumed : Nat} (positive : 0 < consumed)
      (continues : Continues state new_data_len output consumed after)
      (first : have_stale = false → FirstOf board rpc state.source (state.given new_data_len) (.ok output) consumed) :
      Round board rpc state new_data_len have_stale now (.again after)
  | stop {halt : Halt CborRpc.Fault} (halts : Halts board rpc state.source halt)
      (framed : have_stale = false → Framed board rpc state (state.given new_data_len) state none) :
      Round board rpc state new_data_len have_stale now (.stop state halt)

theorem same_trans {first second third : State} (one : Same first second) (two : Same second third) : Same first third :=
  ⟨two.source.trans one.source, two.length.trans one.length, two.reads.trans one.reads, two.stale.trans one.stale⟩

/-- Stale bytes are some of the bytes given. -/
def StaleInside (state : State) (new_data_len : UInt64) (have_stale : Bool) : Prop :=
  have_stale = true → state.read_ptr ≠ 0 ∧ state.read_ptr.toNat ≤ (state.read_ptr + new_data_len).toNat

section
variable {state : State} {have_stale : Bool} (length : state.data_in.length = board.MAX_INPUT_MSG_SIZE)
  (inside : (state.read_ptr + new_data_len).toNat ≤ board.MAX_INPUT_MSG_SIZE)
include length inside

theorem given_length : (state.given new_data_len).length = (state.read_ptr + new_data_len).toNat := by
  rw [State.given, List.length_take, length]
  omega

theorem take_given : (state.given new_data_len).take board.MAX_INPUT_MSG_SIZE = state.given new_data_len := by
  apply List.take_of_length_le
  rw [given_length length inside]
  exact inside

/-- Bytes consumed are dropped from the front, or the call ends with an empty buffer, or the device stops. -/
theorem answer_round {output : Check CborRpc.Fault Output} {msg_len : UInt64} (positive : 0 < msg_len.toNat)
    (most : msg_len.toNat ≤ (state.read_ptr + new_data_len).toNat)
    (halts : ∀ halt, output = .error halt → Halts board rpc state.source halt)
    (first : have_stale = false → FirstOf board rpc state.source (state.given new_data_len) output msg_len.toNat) :
    Round board rpc state new_data_len have_stale now
      (state.answer output (state.read_ptr + new_data_len) msg_len now) := by
  cases output with
  | error halt =>
    refine .stop (halts halt rfl) fun fresh => ?_
    have framed := first fresh
    rw [FirstOf, answered] at framed
    exact ⟨by rw [framed, List.append_nil], by rw [framed]⟩
  | ok output =>
    rw [State.answer, State.consume]
    by_cases all : msg_len = state.read_ptr + new_data_len
    · rw [if_pos all]
      refine .done ⟨⟨rfl, rfl, rfl, rfl⟩, board.positive, rfl⟩ (fun fresh => ?_)
      have framed := first fresh
      have whole : (state.given new_data_len).length ≤ msg_len.toNat := by
        rw [given_length length inside, all]
      rw [FirstOf, List.drop_eq_nil_of_le whole, frame_nil] at framed
      exact ⟨by rw [framed]; rfl, by rw [framed]; rfl⟩
    · rw [if_neg all]
      have wraps : state.read_ptr - msg_len + new_data_len = state.read_ptr + new_data_len - msg_len := by grind
      have left : (state.read_ptr + new_data_len - msg_len).toNat = (state.read_ptr + new_data_len).toNat - msg_len.toNat :=
        UInt64.toNat_sub_of_le _ _ (UInt64.le_iff_toNat_le.mpr most)
      have moved : msg_len.toNat + (state.read_ptr + new_data_len - msg_len).toNat ≤ state.data_in.length := by omega
      refine .again positive ⟨⟨rfl, memmove_length moved, rfl, rfl⟩, rfl, ?_, ?_⟩ first
      · simp only [State.send]
        rw [wraps, left]
        omega
      · simp only [State.given, State.send]
        rw [wraps, memmove_take moved, left, List.drop_take]

/-- No message: the whole buffer is rejected, the stale part of it, or nothing. -/
theorem iteration_none (nothing : rpc.get_msg_len (state.given new_data_len) = 0)
    (old : StaleInside state new_data_len have_stale) :
    Round board rpc state new_data_len have_stale now (iteration board rpc state new_data_len have_stale now) := by
  have zero : UInt64.ofNat (rpc.get_msg_len (state.given new_data_len)) = 0 := by
    rw [nothing]
    rfl
  have none := nothing
  rw [← take_given length inside] at none
  simp only [State.given] at zero
  simp only [iteration]
  rw [if_pos zero]
  by_cases full : (state.read_ptr + new_data_len).toNat = board.MAX_INPUT_MSG_SIZE
  · rw [if_pos full]
    have positive := board.positive
    apply answer_round length inside (by omega) (Nat.le_refl _) (fun halt stops => ⟨_, .inr ⟨nothing, _, stops⟩⟩)
    intro _
    have whole : board.MAX_INPUT_MSG_SIZE ≤ (state.given new_data_len).length := by
      rw [given_length length inside, full]
    have framed := @frame_full board rpc state.source _ none whole
    rw [take_given length inside, ← full] at framed
    exact framed
  · rw [if_neg full]
    cases have_stale with
    | false =>
      have below : (state.read_ptr + new_data_len).toNat < board.MAX_INPUT_MSG_SIZE := by omega
      have framed := @frame_rest board rpc state.source _ none (by rwa [given_length length inside])
      refine .done ⟨⟨rfl, rfl, rfl, rfl⟩, below, rfl⟩ (fun _ => ⟨?_, ?_⟩)
      · rw [framed, List.append_nil]
      · rw [framed]
        rfl
    | true =>
      rw [if_pos rfl]
      obtain ⟨some_bytes, most⟩ := old rfl
      have positive : 0 < state.read_ptr.toNat := by
        apply Nat.pos_of_ne_zero
        intro zero
        exact some_bytes (UInt64.toNat_inj.mp zero)
      exact answer_round length inside positive most (fun halt stops => ⟨_, .inr ⟨nothing, _, stops⟩⟩) nofun

variable (stable : Stable rpc.get_msg_len)
include stable

theorem msg_len_toNat : (UInt64.ofNat (rpc.get_msg_len (state.given new_data_len))).toNat =
    rpc.get_msg_len (state.given new_data_len) := by
  have most := stable.le_length (state.given new_data_len)
  have small := board.small
  rw [given_length length inside] at most
  apply UInt64.toNat_ofNat_of_lt'
  exact Nat.lt_of_le_of_lt (Nat.le_trans most inside) (Nat.lt_trans small (by decide))

theorem iteration_message (found : rpc.get_msg_len (state.given new_data_len) ≠ 0) :
    Round board rpc state new_data_len have_stale now (iteration board rpc state new_data_len have_stale now) := by
  have toNat := msg_len_toNat length inside stable
  have some_byte : state.given new_data_len ≠ [] := by
    intro nothing
    rw [nothing] at found
    exact found (Nat.le_zero.mp (stable.le_length []))
  have framed := @frame_message board rpc state.source _ some_byte (by rwa [take_given length inside])
  rw [take_given length inside] at framed
  have positive : 0 < (UInt64.ofNat (rpc.get_msg_len (state.given new_data_len))).toNat := by
    rw [toNat]
    exact Nat.pos_of_ne_zero found
  have most : (UInt64.ofNat (rpc.get_msg_len (state.given new_data_len))).toNat ≤
      (state.read_ptr + new_data_len).toNat := by
    rw [toNat, ← given_length length inside]
    exact stable.le_length _
  have not_zero : UInt64.ofNat (rpc.get_msg_len (state.given new_data_len)) ≠ 0 := by
    intro zero
    rw [zero] at positive
    exact absurd positive (Nat.lt_irrefl 0)
  simp only [State.given] at not_zero
  simp only [iteration]
  rw [if_neg not_zero]
  apply answer_round length inside positive most
  · intro halt stops
    refine ⟨state.given new_data_len, .inl ⟨found, ?_⟩⟩
    rw [← toNat]
    exact stops
  · intro _
    rw [FirstOf, toNat]
    exact framed.trans (by simp only [State.given] at toNat ⊢; rw [toNat])

theorem iteration_round (old : StaleInside state new_data_len have_stale) :
    Round board rpc state new_data_len have_stale now (iteration board rpc state new_data_len have_stale now) := by
  by_cases found : rpc.get_msg_len (state.given new_data_len) = 0
  · exact iteration_none length inside found old
  · exact iteration_message length inside stable found

end

/-! ### A call -/

/-- The states at the head of the loop of a call. -/
inductive LoopHead (board : Board) (rpc : Rpc) (new_data_len : UInt64) (now : Nat) (start : State) (have_stale : Bool) :
    State → Bool → Prop where
  | first : LoopHead board rpc new_data_len now start have_stale start have_stale
  | next {state after : State} {still : Bool} (head : LoopHead board rpc new_data_len now start have_stale state still)
      (again : iteration board rpc state new_data_len still now = .again after) :
      LoopHead board rpc new_data_len now start have_stale after false

/-- What holds at the head of the loop. -/
structure AtHead (board : Board) (new_data_len : UInt64) (state : State) (have_stale : Bool) : Prop where
  length : state.data_in.length = board.MAX_INPUT_MSG_SIZE
  inside : (state.read_ptr + new_data_len).toNat ≤ board.MAX_INPUT_MSG_SIZE
  old : StaleInside state new_data_len have_stale

theorem AtHead.next {state after : State} {have_stale : Bool} (head : AtHead board new_data_len state have_stale)
    {output : Output} {consumed : Nat} (continues : Continues state new_data_len output consumed after) :
    AtHead board new_data_len after false := by
  refine ⟨continues.same.length.trans head.length, ?_, nofun⟩
  have less := continues.less
  have inside := head.inside
  omega

theorem LoopHead.atHead {start state : State} {have_stale still : Bool} (stable : Stable rpc.get_msg_len)
    (begins : AtHead board new_data_len start have_stale)
    (head : LoopHead board rpc new_data_len now start have_stale state still) : AtHead board new_data_len state still := by
  induction head with
  | first => exact begins
  | next _ again ih =>
    have round := @iteration_round _ rpc _ now _ _ ih.length ih.inside stable ih.old
    rw [again] at round
    cases round with
    | again _ continues _ => exact ih.next continues

/-- How a call may end on the bytes given: it returns, or the device stops. -/
inductive Returns (board : Board) (rpc : Rpc) (state : State) (data : Bytes) (have_stale : Bool) (now : Nat) :
    Check Fault State → Prop where
  | waiting {after : State} (ended : Ended board state now after)
      (framed : have_stale = false → Framed board rpc state data after (some after.unread)) :
      Returns board rpc state data have_stale now (.ok after)
  | stopped {after : State} {halt : Halt CborRpc.Fault} (same : Same state after) (halts : Halts board rpc state.source halt)
      (framed : have_stale = false → Framed board rpc state data after none) :
      Returns board rpc state data have_stale now (.error (.error (.stopped after halt)))

/-- What is framed behind a first output. -/
theorem Framed.behind {state middle after : State} {output : Output} {consumed : Nat} {unread : Option Bytes}
    (continues : Continues state new_data_len output consumed middle)
    (first : FirstOf board rpc state.source (state.given new_data_len) (.ok output) consumed)
    (framed : Framed board rpc middle (middle.given new_data_len) after unread) :
    Framed board rpc state (state.given new_data_len) after unread := by
  obtain ⟨sent, unread⟩ := framed
  rw [continues.same.source, continues.given] at sent unread
  rw [continues.sent] at sent
  rw [FirstOf] at first
  refine ⟨?_, ?_⟩
  · rw [sent, first, List.append_assoc]
    rfl
  · rw [unread, first]
    rfl

/-- The rounds are enough, since each one consumes something. -/
theorem loop_returns (stable : Stable rpc.get_msg_len) {rounds : Nat} {state : State} {have_stale : Bool}
    (head : AtHead board new_data_len state have_stale) (enough : (state.read_ptr + new_data_len).toNat < rounds) :
    Returns board rpc state (state.given new_data_len) have_stale now (loop board rpc new_data_len now rounds state have_stale) := by
  induction rounds generalizing state have_stale with
  | zero => exact absurd enough (Nat.not_lt_zero _)
  | succ rounds ih =>
    have round := @iteration_round _ rpc _ now _ _ head.length head.inside stable head.old
    rw [loop]
    cases step : iteration board rpc state new_data_len have_stale now with
    | done after =>
      rw [step] at round
      cases round with
      | done ended framed => exact .waiting ended framed
    | stop after halt =>
      rw [step] at round
      cases round with
      | stop halts framed => exact .stopped ⟨rfl, rfl, rfl, rfl⟩ halts framed
    | again middle =>
      rw [step] at round
      cases round with
      | again positive continues first =>
        have less := continues.less
        have later := ih (head.next continues) (by omega)
        dsimp only
        generalize loop board rpc new_data_len now rounds middle false = result at later ⊢
        cases later with
        | waiting ended framed =>
          exact .waiting ⟨same_trans continues.same ended.same, ended.below, ended.time⟩
            fun fresh => (framed rfl).behind continues (first fresh)
        | stopped same halts framed =>
          rw [continues.same.source] at halts
          exact .stopped (same_trans continues.same same) halts fun fresh => (framed rfl).behind continues (first fresh)

end

section
variable {board : Board} {rpc : Rpc} {clock : Nat → Nat}

/-- A buffer between two calls. -/
structure Waiting (board : Board) (clock : Nat → Nat) (state : State) : Prop where
  length : state.data_in.length = board.MAX_INPUT_MSG_SIZE
  below : state.read_ptr.toNat < board.MAX_INPUT_MSG_SIZE
  time : state.last_processing_time ≤ clock state.reads

/-- Framing goes on where it stopped to wait. -/
theorem Framed.trans (stable : Stable rpc.get_msg_len) {state middle after : State} {data more : Bytes}
    {unread : Option Bytes} (source : middle.source = state.source)
    (one : Framed board rpc state data middle (some middle.unread))
    (two : Framed board rpc middle (middle.unread ++ more) after unread) :
    Framed board rpc state (data ++ more) after unread := by
  obtain ⟨sent, left⟩ := one
  obtain ⟨sent', left'⟩ := two
  rw [source] at sent' left'
  refine ⟨?_, ?_⟩
  · rw [frame_append stable, Framing.andThen, ← left, sent', sent, List.append_assoc]
  · rw [frame_append stable, Framing.andThen, ← left, left']

/-- What is sent to a device that has stopped makes no difference. -/
theorem Framed.stop (stable : Stable rpc.get_msg_len) {state after : State} {data : Bytes}
    (framed : Framed board rpc state data after none) (more : Bytes) :
    Framed board rpc state (data ++ more) after none := by
  obtain ⟨sent, left⟩ := framed
  refine ⟨?_, ?_⟩
  · rw [frame_append stable, Framing.andThen, ← left, sent]
  · rw [frame_append stable, Framing.andThen, ← left]
    exact left

/-- How bytes given to a buffer are handled: they are framed with those before, unless some were stale. -/
inductive Handled (board : Board) (rpc : Rpc) (clock : Nat → Nat) (state : State) (bytes : Bytes) :
    Check Fault State → Prop where
  | waiting {after : State} (waiting : Waiting board clock after) (source : after.source = state.source)
      (framed : after.stale = false →
        state.stale = false ∧ Framed board rpc state (state.unread ++ bytes) after (some after.unread)) :
      Handled board rpc clock state bytes (.ok after)
  | stopped {after : State} {halt : Halt CborRpc.Fault} (halts : Halts board rpc state.source halt)
      (framed : after.stale = false →
        state.stale = false ∧ Framed board rpc state (state.unread ++ bytes) after none) :
      Handled board rpc clock state bytes (.error (.error (.stopped after halt)))

theorem Handled.trans (stable : Stable rpc.get_msg_len) {state middle : State} {bytes more : Bytes}
    {result : Check Fault State} (one : Handled board rpc clock state bytes (.ok middle))
    (two : Handled board rpc clock middle more result) : Handled board rpc clock state (bytes ++ more) result := by
  cases one with
  | waiting _ source first =>
    cases two with
    | waiting waiting source' second =>
      refine .waiting waiting (source'.trans source) fun fresh => ?_
      obtain ⟨middle_fresh, later⟩ := second fresh
      obtain ⟨state_fresh, framed⟩ := first middle_fresh
      rw [← List.append_assoc]
      exact ⟨state_fresh, framed.trans stable source later⟩
    | stopped halts second =>
      rw [source] at halts
      refine .stopped halts fun fresh => ?_
      obtain ⟨middle_fresh, later⟩ := second fresh
      obtain ⟨state_fresh, framed⟩ := first middle_fresh
      rw [← List.append_assoc]
      exact ⟨state_fresh, framed.trans stable source later⟩

/-- A delivery after one that stops the device is not handled. -/
theorem Handled.stop (stable : Stable rpc.get_msg_len) {state after : State} {bytes : Bytes} {halt : Halt CborRpc.Fault}
    (handled : Handled board rpc clock state bytes (.error (.error (.stopped after halt)))) (more : Bytes) :
    Handled board rpc clock state (bytes ++ more) (.error (.error (.stopped after halt))) := by
  cases handled with
  | stopped halts framed =>
    refine .stopped halts fun fresh => ?_
    obtain ⟨state_fresh, framed⟩ := framed fresh
    rw [← List.append_assoc]
    exact ⟨state_fresh, framed.stop stable more⟩

section
variable {state : State} {bytes : Bytes} (waiting : Waiting board clock state)
  (fits : state.read_ptr.toNat + bytes.length ≤ board.MAX_INPUT_MSG_SIZE)
include fits

theorem parse_len_toNat : (state.read_ptr + UInt64.ofNat bytes.length).toNat = state.read_ptr.toNat + bytes.length := by
  have small := board.small
  have length : (UInt64.ofNat bytes.length).toNat = bytes.length := by
    apply UInt64.toNat_ofNat_of_lt'
    rw [UInt64.size]
    omega
  rw [UInt64.toNat_add, length]
  apply Nat.mod_eq_of_lt
  omega

include waiting

theorem receive_length : (state.receive bytes).data_in.length = board.MAX_INPUT_MSG_SIZE := by
  have length := waiting.length
  simp only [State.receive, List.length_append, List.length_take, List.length_drop]
  omega

theorem receive_given : (state.receive bytes).given (UInt64.ofNat bytes.length) = state.unread ++ bytes := by
  have length := waiting.length
  simp only [State.given, State.receive]
  rw [parse_len_toNat fits]
  apply List.take_left'
  rw [List.length_append, List.length_take]
  omega

/-- The loop starts with the bytes kept and the bytes received. -/
theorem enter_atHead (now : Nat) :
    AtHead board (UInt64.ofNat bytes.length) ((state.receive bytes).enter board now)
      ((state.receive bytes).have_stale board now) := by
  have parsed := parse_len_toNat fits
  refine ⟨receive_length waiting fits, ?_, fun stale => ⟨?_, ?_⟩⟩
  · exact parsed.le.trans fits
  · exact of_decide_eq_true (Bool.and_eq_true_iff.mp stale).1
  · exact (Nat.le_add_right _ _).trans parsed.ge

theorem feed_handled (stable : Stable rpc.get_msg_len) (monotone : Monotone clock) :
    Handled board rpc clock state bytes (feed board rpc clock state bytes) := by
  have parsed := parse_len_toNat fits
  have given := receive_given waiting fits
  have asserted : (decide ((state.receive bytes).read_ptr.toNat ≤ board.MAX_INPUT_MSG_SIZE) &&
      decide (((state.receive bytes).read_ptr + UInt64.ofNat bytes.length).toNat ≤ board.MAX_INPUT_MSG_SIZE)) = true := by
    simp only [Bool.and_eq_true, decide_eq_true_eq]
    exact ⟨waiting.below.le, parsed.le.trans fits⟩
  have later : decide ((state.receive bytes).last_processing_time ≤ clock (state.receive bytes).reads) = true :=
    decide_eq_true waiting.time
  have returned := @loop_returns board rpc (UInt64.ofNat bytes.length) (clock state.reads) stable _ _ _
    (enter_atHead waiting fits (clock state.reads)) (Nat.lt_succ_of_le (parsed.le.trans fits))
  rw [feed, if_pos fits, handle_data, asserted, Check.ensure_true, Check.ok_bind]
  dsimp only
  rw [later, Check.ensure_true, Check.ok_bind]
  change Handled board rpc clock state bytes (loop board rpc (UInt64.ofNat bytes.length) (clock state.reads)
    (board.MAX_INPUT_MSG_SIZE + 1) ((state.receive bytes).enter board (clock state.reads))
    ((state.receive bytes).have_stale board (clock state.reads)))
  generalize loop board rpc (UInt64.ofNat bytes.length) (clock state.reads) (board.MAX_INPUT_MSG_SIZE + 1)
    ((state.receive bytes).enter board (clock state.reads))
    ((state.receive bytes).have_stale board (clock state.reads)) = result at returned ⊢
  cases returned with
  | waiting ended framed =>
    refine .waiting ⟨ended.same.length.trans (receive_length waiting fits), ended.below, ?_⟩ ended.same.source fun fresh => ?_
    · rw [ended.time, ended.same.reads]
      exact monotone (Nat.le_succ _)
    · rw [ended.same.stale] at fresh
      obtain ⟨state_fresh, now_fresh⟩ := Bool.or_eq_false_iff.mp fresh
      obtain ⟨sent, unread⟩ := framed now_fresh
      exact ⟨state_fresh, by rw [← given]; exact sent, by rw [← given]; exact unread⟩
  | stopped same halts framed =>
    refine .stopped halts fun fresh => ?_
    rw [same.stale] at fresh
    obtain ⟨state_fresh, now_fresh⟩ := Bool.or_eq_false_iff.mp fresh
    obtain ⟨sent, unread⟩ := framed now_fresh
    exact ⟨state_fresh, by rw [← given]; exact sent, by rw [← given]; exact unread⟩

end

theorem remaining_toNat {state : State} (waiting : Waiting board clock state) :
    (UInt64.ofNat board.MAX_INPUT_MSG_SIZE - state.read_ptr).toNat = board.MAX_INPUT_MSG_SIZE - state.read_ptr.toNat := by
  have small := board.small
  have below := waiting.below
  have size : (UInt64.ofNat board.MAX_INPUT_MSG_SIZE).toNat = board.MAX_INPUT_MSG_SIZE := by
    apply UInt64.toNat_ofNat_of_lt'
    rw [UInt64.size]
    omega
  rw [UInt64.toNat_sub_of_le, size]
  rw [UInt64.le_iff_toNat_le, size]
  exact below.le

/-- Each round passes on at least one byte, since the buffer is never left full. -/
theorem sendLoop_handled (stable : Stable rpc.get_msg_len) (monotone : Monotone clock) {rounds : Nat} {state : State}
    {data : Bytes} (waiting : Waiting board clock state) (some_byte : data ≠ []) (enough : data.length ≤ rounds) :
    Handled board rpc clock state data (sendLoop board rpc clock rounds state data) := by
  induction rounds generalizing state data with
  | zero => exact absurd (List.length_eq_zero_iff.mp (Nat.le_zero.mp enough)) some_byte
  | succ rounds ih =>
    have below := waiting.below
    have length := List.length_pos_iff.mpr some_byte
    rw [sendLoop.eq_3 _ _ _ _ _ _ some_byte, remaining_toNat waiting]
    generalize copied : (if data.length > board.MAX_INPUT_MSG_SIZE - state.read_ptr.toNat then
      board.MAX_INPUT_MSG_SIZE - state.read_ptr.toNat else data.length) = copy_len
    have positive : 0 < copy_len := by grind
    have fits : state.read_ptr.toNat + (data.take copy_len).length ≤ board.MAX_INPUT_MSG_SIZE := by
      rw [List.length_take]
      grind
    have first : Handled board rpc clock state (data.take copy_len) (feed board rpc clock state (data.take copy_len)) :=
      feed_handled waiting fits stable monotone
    have whole : data.take copy_len ++ data.drop copy_len = data := List.take_append_drop _ _
    generalize feed board rpc clock state (data.take copy_len) = fed at first ⊢
    cases first with
    | stopped halts framed =>
      have first : Handled board rpc clock state (data.take copy_len) _ := .stopped halts framed
      have stopped := first.stop stable (data.drop copy_len)
      rwa [whole] at stopped
    | @waiting middle ready source framed =>
      have first : Handled board rpc clock state (data.take copy_len) _ := .waiting ready source framed
      rw [Check.ok_bind]
      by_cases all : data.drop copy_len = []
      · rw [all, List.append_nil] at whole
        rw [whole] at first
        rw [all]
        cases rounds <;> exact first
      · have shorter : (data.drop copy_len).length ≤ rounds := by
          rw [List.length_drop]
          omega
        have joined := first.trans stable (ih ready all shorter)
        rwa [whole] at joined

/-! ### Runs -/

/-- A buffer that has received nothing. -/
structure Fresh (board : Board) (clock : Nat → Nat) (source : UInt8) (state : State) : Prop where
  waiting : Waiting board clock state
  tagged : state.source = source
  empty : state.read_ptr = 0
  sent : state.sent = []
  stale : state.stale = false

/-- The daemon is a serial transport. -/
def Delivery.From (source : UInt8) : Delivery → Prop
  | .chunk _ => True
  | .daemon _ => source = SOURCE_SERIAL

/-- A transport reads no more than there is room for. -/
def Delivery.Fits (board : Board) (state : State) : Delivery → Prop
  | .chunk bytes => state.read_ptr.toNat + bytes.length ≤ board.MAX_INPUT_MSG_SIZE
  | .daemon _ => True

/-- The bytes of some deliveries. -/
def stream (deliveries : List Delivery) : Bytes := deliveries.flatMap Delivery.bytes

theorem Fresh.handled {source : UInt8} {start : State} (fresh : Fresh board clock source start) :
    Handled board rpc clock start [] (.ok start) := by
  have nothing : start.unread = [] := by rw [State.unread, fresh.empty]; rfl
  refine .waiting fresh.waiting rfl fun _ => ⟨fresh.stale, ?_, ?_⟩
  · rw [nothing, List.append_nil, frame_nil, List.append_nil]
  · rw [nothing, List.append_nil, frame_nil]

theorem Handled.waits {start state : State} {data : Bytes} (handled : Handled board rpc clock start data (.ok state)) :
    Waiting board clock state ∧ state.source = start.source := by
  cases handled with
  | waiting waiting source framed => exact ⟨waiting, source⟩

theorem Handled.deliver (stable : Stable rpc.get_msg_len) (monotone : Monotone clock) {start state : State}
    {data : Bytes} (handled : Handled board rpc clock start data (.ok state)) {delivery : Delivery}
    (from_source : delivery.From start.source) (fits : delivery.Fits board state) :
    Handled board rpc clock start (data ++ delivery.bytes) (deliver board rpc clock state delivery) := by
  obtain ⟨waiting, source⟩ := handled.waits
  cases delivery with
  | chunk bytes => exact handled.trans stable (feed_handled waiting fits stable monotone)
  | daemon bytes =>
    have same : { state with source := SOURCE_SERIAL } = state := by
      rw [← show start.source = SOURCE_SERIAL from from_source, ← source]
    simp only [Wire.deliver, libjade_send, Delivery.bytes]
    rw [same]
    by_cases nothing : bytes = []
    · rw [nothing, List.append_nil]
      exact handled
    · exact handled.trans stable (sendLoop_handled stable monotone waiting nothing (Nat.le_refl _))

/-- A delivery that does not fit is refused before anything is done. -/
theorem deliver_refused {state : State} {delivery : Delivery} (no_room : ¬ delivery.Fits board state) :
    deliver board rpc clock state delivery = .error (.error .out_of_bounds) := by
  cases delivery with
  | chunk bytes =>
    simp only [Delivery.Fits] at no_room
    rw [deliver, feed, if_neg no_room]
  | daemon _ => exact absurd trivial no_room

/-- A run ends: the buffer waits for more bytes behind those left over, or the device has stopped. -/
inductive Ends : Check Fault State → State → Option Bytes → Prop where
  | waiting (state : State) : Ends (.ok state) state (some state.unread)
  | stopped (state : State) (halt : Halt CborRpc.Fault) : Ends (.error (.error (.stopped state halt))) state none

/-- Induction on the deliveries. A device that has stopped handles none of the later ones. -/
theorem run_handled (stable : Stable rpc.get_msg_len) (monotone : Monotone clock) {start state : State} {data : Bytes}
    (handled : Handled board rpc clock start data (.ok state)) {deliveries : List Delivery}
    (from_source : ∀ delivery ∈ deliveries, delivery.From start.source) {after : State} {unread : Option Bytes}
    (ends : Ends (run board rpc clock state deliveries) after unread) :
    Handled board rpc clock start (data ++ stream deliveries) (run board rpc clock state deliveries) := by
  induction deliveries generalizing state data with
  | nil => rwa [stream, List.flatMap_nil, List.append_nil]
  | cons delivery later ih =>
    rw [run, Check.fold] at ends ⊢
    by_cases fits : delivery.Fits board state
    · have one := handled.deliver stable monotone (from_source delivery List.mem_cons_self) fits
      rw [stream, List.flatMap_cons, ← List.append_assoc]
      generalize deliver board rpc clock state delivery = delivered at one ends ⊢
      cases one with
      | stopped halts framed => exact (Handled.stopped halts framed).stop stable _
      | waiting waiting source framed =>
        rw [Check.ok_bind] at ends ⊢
        exact ih (.waiting waiting source framed) (fun d inside => from_source d (List.mem_cons_of_mem _ inside)) ends
    · rw [deliver_refused fits] at ends
      cases ends

theorem Handled.ends {start : State} {data : Bytes} {result : Check Fault State}
    (handled : Handled board rpc clock start data result) {after : State} {unread : Option Bytes}
    (ends : Ends result after unread) (fresh : after.stale = false) : Framed board rpc start (start.unread ++ data) after unread := by
  cases ends with
  | waiting =>
    cases handled with
    | waiting _ _ framed => exact (framed fresh).2
  | stopped =>
    cases handled with
    | stopped _ framed => exact (framed fresh).2

/-- The head of the loop in the call that handles a chunk. -/
def CallHead (board : Board) (rpc : Rpc) (clock : Nat → Nat) (state : State) (bytes : Bytes) : State → Bool → Prop :=
  LoopHead board rpc (UInt64.ofNat bytes.length) (clock state.reads)
    ((state.receive bytes).enter board (clock state.reads)) ((state.receive bytes).have_stale board (clock state.reads))

/-- A call looks at bytes of the buffer only, at fewer in each round. -/
theorem callHead_less (stable : Stable rpc.get_msg_len) {state head : State} {bytes : Bytes} {still : Bool}
    (waiting : Waiting board clock state) (fits : state.read_ptr.toNat + bytes.length ≤ board.MAX_INPUT_MSG_SIZE)
    (at_head : CallHead board rpc clock state bytes head still) :
    (head.read_ptr + UInt64.ofNat bytes.length).toNat ≤ board.MAX_INPUT_MSG_SIZE ∧
      ∀ next, iteration board rpc head (UInt64.ofNat bytes.length) still (clock state.reads) = .again next →
        (next.read_ptr + UInt64.ofNat bytes.length).toNat < (head.read_ptr + UInt64.ofNat bytes.length).toNat := by
  have facts := LoopHead.atHead stable (enter_atHead waiting fits (clock state.reads)) at_head
  refine ⟨facts.inside, fun next again => ?_⟩
  have round := @iteration_round _ rpc _ (clock state.reads) _ _ facts.length facts.inside stable facts.old
  rw [again] at round
  cases round with
  | again positive continues _ =>
    have less := continues.less
    omega

/-- What a buffer that waits is ready for: it has room, a delivery that fits returns or stops in a message, and a
    call looks at bytes of the buffer only, at fewer in each round. -/
structure Ready (board : Board) (rpc : Rpc) (clock : Nat → Nat) (state : State) : Prop where
  inside : state.read_ptr.toNat ≤ board.MAX_INPUT_MSG_SIZE
  ends (delivery : Delivery) : delivery.From state.source → delivery.Fits board state →
    (∃ next, deliver board rpc clock state delivery = .ok next) ∨
    ∃ next halt, deliver board rpc clock state delivery = .error (.error (.stopped next halt)) ∧
      Halts board rpc state.source halt
  rounds (bytes : Bytes) (head : State) (still : Bool) : state.read_ptr.toNat + bytes.length ≤ board.MAX_INPUT_MSG_SIZE →
    CallHead board rpc clock state bytes head still →
    (head.read_ptr + UInt64.ofNat bytes.length).toNat ≤ board.MAX_INPUT_MSG_SIZE ∧
      ∀ next, iteration board rpc head (UInt64.ofNat bytes.length) still (clock state.reads) = .again next →
        (next.read_ptr + UInt64.ofNat bytes.length).toNat < (head.read_ptr + UInt64.ofNat bytes.length).toNat

theorem Handled.ready (stable : Stable rpc.get_msg_len) (monotone : Monotone clock) {start state : State} {data : Bytes}
    (handled : Handled board rpc clock start data (.ok state)) : Ready board rpc clock state := by
  obtain ⟨waiting, source⟩ := handled.waits
  refine ⟨waiting.below.le, fun delivery from_source fits => ?_,
    fun bytes head still fits at_head => callHead_less stable waiting fits at_head⟩
  rw [source] at from_source
  have later := handled.deliver stable monotone from_source fits
  generalize Wire.deliver board rpc clock state delivery = result at later ⊢
  cases later with
  | waiting => exact .inl ⟨_, rfl⟩
  | stopped halts => exact .inr ⟨_, _, rfl, by rwa [source]⟩

/-- Two ways to cut a stream give the same outputs and leave the same bytes, or stop the device alike, if no
    call finds its buffer stale. -/
theorem framing_of_cuts (stable : Stable rpc.get_msg_len) {clock' : Nat → Nat} (monotone : Monotone clock)
    (monotone' : Monotone clock') {source : UInt8} {start start' : State} (fresh : Fresh board clock source start)
    (fresh' : Fresh board clock' source start') {cut cut' : List Delivery}
    (from_source : ∀ delivery ∈ cut ++ cut', delivery.From source) (same : stream cut = stream cut') {after after' : State}
    {unread unread' : Option Bytes} (ends : Ends (run board rpc clock start cut) after unread)
    (ends' : Ends (run board rpc clock' start' cut') after' unread') (not_stale : after.stale = false)
    (not_stale' : after'.stale = false) : after.sent = after'.sent ∧ unread = unread' := by
  have handled := run_handled stable monotone (show Handled board rpc clock start [] (.ok start) from fresh.handled)
    (fun d inside => fresh.tagged ▸ from_source d (List.mem_append_left _ inside)) ends
  have handled' := run_handled stable monotone' (show Handled board rpc clock' start' [] (.ok start') from fresh'.handled)
    (fun d inside => fresh'.tagged ▸ from_source d (List.mem_append_right _ inside)) ends'
  obtain ⟨sent, left⟩ := handled.ends ends not_stale
  obtain ⟨sent', left'⟩ := handled'.ends ends' not_stale'
  have empty : start.unread = start'.unread := by rw [State.unread, State.unread, fresh.empty, fresh'.empty]; rfl
  rw [sent, sent', left, left', fresh.sent, fresh'.sent, fresh.tagged, fresh'.tagged, empty, same]
  exact ⟨rfl, rfl⟩

end

end PiJade.Wire
