import PiJade.Machine
import PiJade.MinerHash

/-!
The miner (`components/miner/miner.c`): the two tasks, and the owner's calls `on_new_target`,
`check_solutions` and the stores of `stop_miners`. What holds the lock is one step, and so is
every load and store of a flag. The calls into libwally are parameters of each construction;
the start time and the hash counters, which only `check_speed` reads, are left out.
-/
namespace PiJade.Miner
open Sha256 (beNat)
set_option linter.unusedSimpArgs false

def HASH_SIZE : Nat := 32

/-- `block_header`. -/
structure BlockHeader where
  version : UInt32
  prev_block : Vector UInt8 32
  merkle_root : Vector UInt8 32
  timestamp : UInt32
  bits : UInt32
  nonce : UInt32
  deriving DecidableEq

/-- The structure as it stands in memory. -/
def BlockHeader.toBytes (bh : BlockHeader) : Bytes :=
  Bytes.ofWords [bh.version] ++ bh.prev_block.toList ++ bh.merkle_root.toList ++
    Bytes.ofWords [bh.timestamp, bh.bits, bh.nonce]

/-- `headerandtarget`. -/
structure HeaderAndTarget where
  bh : BlockHeader
  target : Vector UInt8 32
  deriving DecidableEq

/-! ### The coinbase -/

/-- The bytes written, all five of them, and the number returned. -/
def varint_encode (n : UInt64) : Bytes × Nat :=
  let byte (i : UInt64) : UInt8 := (n >>> (8 * i)).toUInt8
  if n ≤ 16 then ([n.toUInt8 + 0x50, 0, 0, 0, 0], 1)
  else if n ≤ 127 then ([0x01, byte 0, byte 1, 0, 0], 2)
  else if n ≤ 32767 then ([0x02, byte 0, byte 1, byte 2, 0], 3)
  else ([0x03, byte 0, byte 1, byte 2, byte 3], 4)

def MAINET_TESTNET_INTERVAL : Nat := 210000
def REGTEST_INTERVAL : Nat := 150

def block_rewards : List UInt64 := [
  5000000000, 2500000000, 1250000000, 625000000, 312500000, 156250000, 78125000, 39062500, 19531250, 9765625, 4882812,
  2441406, 1220703, 610352, 305176, 152588, 76294, 38147, 19073, 9536, 4768, 2384, 1192, 596, 298, 149, 74, 37, 18, 9,
  4, 2, 1]

def get_block_reward (block_height : Nat) (interval : Nat) : UInt64 := block_rewards.getD (block_height / interval) 0

def prefix_matches_ci (s : Bytes) : Bytes → Bool
  | [] => true
  | c :: rest =>
    let first := s.headD 0
    let lc := if 65 ≤ first ∧ first ≤ 90 then first - 65 + 97 else first
    first ≠ 0 && lc = c && prefix_matches_ci s.tail rest

inductive Network where
  | mainnet
  | testnet
  deriving DecidableEq, Repr

/-- The transaction under construction: one input, and its outputs. -/
structure Tx where
  version : Nat
  locktime : Nat
  txhash : Vector UInt8 32
  utxo_index : UInt32
  sequence : UInt32
  script : Bytes
  witness : List Bytes
  outputs : List (UInt64 × Bytes)

/-- What the calls into libwally give in one construction; an allocation may fail in any. -/
structure Wally where
  wally_tx_init_alloc : Bool
  wally_tx_witness_stack_init_alloc : Bool
  wally_tx_witness_stack_add : Bool
  wally_tx_add_raw_input : Bool
  wally_address_to_scriptpubkey : Bytes → Network → Option Bytes
  wally_addr_segwit_to_bytes : Bytes → Bytes → Option Bytes
  wally_tx_add_raw_output : UInt64 → Bytes → Bool
  wally_tx_is_coinbase : Tx → Bool
  wally_tx_get_txid : Tx → Option (Vector UInt8 32)
  wally_tx_to_bytes : Tx → Option Bytes

/-- The commitment of an empty block's witnesses. -/
def witnessCommitment : Bytes := [
  0x6a, 0x24, 0xaa, 0x21, 0xa9, 0xed, 0xe2, 0xf6, 0x1c, 0x3f, 0x71, 0xd1, 0xde, 0xfd, 0x3f, 0xa9, 0x99, 0xdf, 0xa3,
  0x69, 0x53, 0x75, 0x5c, 0x69, 0x06, 0x89, 0x79, 0x99, 0x62, 0xb4, 0x8b, 0xeb, 0xd8, 0x36, 0x97, 0x4e, 0x8c, 0xf9]

/-- The network of an address, and its segwit prefix. -/
def networkOf (address : Bytes) : Network × Bytes :=
  let first := address.headD 0
  if prefix_matches_ci address (['t', 'b'].map Char.toUInt8) ∨ first = 'm'.toUInt8 ∨ first = 'n'.toUInt8 ∨
      first = '2'.toUInt8 then (.testnet, ['t', 'b'].map Char.toUInt8)
  else if prefix_matches_ci address (['b', 'c', 'r', 't'].map Char.toUInt8) then
    (.testnet, ['b', 'c', 'r', 't'].map Char.toUInt8)
  else (.mainnet, ['b', 'c'].map Char.toUInt8)

/-- The identifier and the bytes of the coinbase. A construction that fails is taken not to have
    written them. -/
def make_coinbase_tx (wally : Wally) (address : Bytes) (height : UInt32) (satoshis : UInt64) :
    Option (Vector UInt8 32 × Bytes) := do
  guard wally.wally_tx_init_alloc
  let txid := Vector.replicate 32 0
  let (script_sig, somet) := varint_encode height.toUInt64
  guard wally.wally_tx_witness_stack_init_alloc
  guard wally.wally_tx_witness_stack_add
  guard wally.wally_tx_add_raw_input
  let (network, addr_prefix) := networkOf address
  let scriptpubkey ← match wally.wally_address_to_scriptpubkey address network with
    | some scriptpubkey => some scriptpubkey
    | none => wally.wally_addr_segwit_to_bytes address addr_prefix
  guard (wally.wally_tx_add_raw_output satoshis scriptpubkey)
  guard (wally.wally_tx_add_raw_output 0 witnessCommitment)
  let tx : Tx := {
    version := 2
    locktime := 0
    txhash := txid
    utxo_index := 0xFFFFFFFF
    sequence := 4294967295
    script := script_sig.take (somet + 1)
    witness := [txid.toList]
    outputs := [(satoshis, scriptpubkey), (0, witnessCommitment)] }
  guard (wally.wally_tx_is_coinbase tx)
  let txid ← wally.wally_tx_get_txid tx
  let rawtx ← wally.wally_tx_to_bytes tx
  pure (txid, rawtx)

/-! ### Templates -/

def bits_to_target (bits : UInt32) : Option (Vector UInt8 32) :=
  let mantissa := bits &&& 0x007fffff
  let exponent := (bits >>> 24).toNat
  if bits &&& 0x00800000 ≠ 0 ∨ mantissa = 0 then none
  else if exponent < 3 ∨ exponent > HASH_SIZE then none
  else
    let offset := HASH_SIZE - exponent
    let target : Vector UInt8 32 := Vector.replicate 32 0
    let target := target.setIfInBounds offset (mantissa >>> 16).toUInt8
    let target := target.setIfInBounds (offset + 1) (mantissa >>> 8).toUInt8
    some (target.setIfInBounds (offset + 2) mantissa.toUInt8)

/-- The arguments of `on_new_target`. -/
structure NewTarget where
  version : UInt32
  previousblockhash : Vector UInt8 32
  target : Vector UInt8 32
  curtime : UInt32
  bits : UInt32
  height : UInt32
  address : Bytes

/-- What is mined on: the header, which has no nonce yet, its target and the coinbase. -/
structure Template where
  ht : HeaderAndTarget
  rawtx : Bytes
  deriving DecidableEq

/-- The value of the coinbase and the template, if it is accepted. -/
def newTemplate (wally : Wally) (args : NewTarget) : Option (UInt64 × Template) := do
  guard (bits_to_target args.bits = some args.target)
  let coinbasevalue := if args.bits = 0x207fffff then get_block_reward args.height.toNat REGTEST_INTERVAL
    else get_block_reward args.height.toNat MAINET_TESTNET_INTERVAL
  guard (coinbasevalue ≠ 0)
  let (txid, rawtx) ← make_coinbase_tx wally args.address args.height coinbasevalue
  let bh : BlockHeader := {
    version := args.version
    prev_block := args.previousblockhash.reverse
    merkle_root := txid
    timestamp := args.curtime
    bits := args.bits
    nonce := 0 }
  pure (coinbasevalue, { ht := { bh := bh, target := args.target }, rawtx := rawtx })

/-- Which of the two tasks. -/
inductive TaskId where
  | ctx1
  | ctx2
  deriving DecidableEq, Repr

/-- `task_ctx`, as far as it changes. -/
structure TaskCtx where
  ht : HeaderAndTarget
  newwork : Bool
  stop : Bool
  exited : Bool

/-- `miner_ctx`; `rawtx` is as long as `txlen` says. -/
structure MinerCtx where
  rawtx : Bytes
  bh : BlockHeader
  solution_found : Bool
  tasks : TaskId → TaskCtx

/-- `UINT32_MAX / 2` for the second task. -/
def nonce_start : TaskId → UInt32
  | .ctx1 => 0
  | .ctx2 => 4294967295 / 2

/-- The section under the lock, for a template that was built. -/
def MinerCtx.replaced (mctx : MinerCtx) (template : Template) : MinerCtx where
  rawtx := template.rawtx
  bh := template.ht.bh
  solution_found := false
  tasks id := { mctx.tasks id with ht := template.ht, newwork := true }

def on_new_target (wally : Wally) (args : NewTarget) (mctx : MinerCtx) : UInt64 × MinerCtx :=
  match newTemplate wally args with
  | none => (0, mctx)
  | some (coinbasevalue, template) => (coinbasevalue, mctx.replaced template)

/-- The solution given to the callback, if there is one. -/
def check_solutions (mctx : MinerCtx) : Option Bytes × MinerCtx :=
  if !mctx.solution_found then (none, mctx)
  else (some (mctx.bh.toBytes ++ 0x01 :: mctx.rawtx), { mctx with solution_found := false })

/-! ### Tasks -/

/-- What a task does next. -/
inductive Pc where
  /-- The first park loop: `stop` is loaded, then `newwork`. -/
  | parkStop
  | parkWork
  | take
  /-- The head of the outer loop: `stop` is loaded. -/
  | outer
  | verify
  | publish
  /-- The park loop behind a solution. -/
  | waitStop
  | waitWork
  /-- Behind a nonce that was not within the target. -/
  | checkWork
  | checkStop
  | retired
  deriving DecidableEq, Repr

/-- The variables of a task. -/
structure Task where
  pc : Pc
  header : HeaderAndTarget
  midstate_cached : Context

/-- What is seen of a run from outside. -/
inductive Event where
  | accepted (template : Template)
  | took (id : TaskId)
  /-- The nonce a task found for the header it has been working on. -/
  | published (id : TaskId) (header : HeaderAndTarget) (nonce : UInt32)
  | delivered (solution : Bytes)
  deriving DecidableEq

/-- `mctx->ctx1` or `mctx->ctx2` is changed. -/
def MinerCtx.setTask (mctx : MinerCtx) (id : TaskId) (ctx : TaskCtx) : MinerCtx :=
  { mctx with tasks := Function.update mctx.tasks id ctx }

/-- The section of `take_new_work` under the lock; the task then is at the head of its loop. -/
def take_new_work (mctx : MinerCtx) (id : TaskId) (task : Task) : MinerCtx × Task :=
  (mctx.setTask id { mctx.tasks id with newwork := false }, { task with pc := .outer, header := (mctx.tasks id).ht })

/-- The context at the beginning of a round of the outer loop. -/
def firstContext (stack : Vector UInt32 48) (id : TaskId) (header : HeaderAndTarget) : Context :=
  nonce_set (calc_midstate stack header.bh.toBytes Context.zero) (nonce_start id)

/-- The next step of `minertask`; `stack` is what the stack holds when `W` is allocated. -/
def minertask (stack : Vector UInt32 48) (id : TaskId) (mctx : MinerCtx) (task : Task) : MinerCtx × Task :=
  let tctx := mctx.tasks id
  match task.pc with
  | .parkStop => (mctx, { task with pc := if tctx.stop then .take else .parkWork })
  | .parkWork => (mctx, { task with pc := if tctx.newwork then .take else .parkStop })
  | .take => take_new_work mctx id task
  | .outer =>
    if tctx.stop then (mctx.setTask id { tctx with exited := true }, { task with pc := .retired })
    else (mctx, { task with pc := .verify, midstate_cached := firstContext stack id task.header })
  | .verify =>
    let within := (verify_nonce task.midstate_cached task.header.target.toList).1
    (mctx, { task with pc := if within then .publish else .checkWork })
  | .publish =>
    if !tctx.newwork then
      ({ mctx with bh := { mctx.bh with nonce := nonce_get task.midstate_cached }, solution_found := true },
        { task with pc := .waitStop })
    else (mctx, { task with pc := .take })
  | .waitStop => (mctx, { task with pc := if tctx.stop then .outer else .waitWork })
  | .waitWork => (mctx, { task with pc := if tctx.newwork then .take else .waitStop })
  | .checkWork => (mctx, { task with pc := if tctx.newwork then .take else .checkStop })
  | .checkStop =>
    if tctx.stop then (mctx, { task with pc := .outer })
    else
      let nonce := nonce_get task.midstate_cached + 1
      (mctx, { task with pc := .verify, midstate_cached := nonce_set task.midstate_cached nonce })
  | .retired => (mctx, task)

/-- What is seen of a step of a task. -/
def taskEvent (id : TaskId) (mctx : MinerCtx) (task : Task) : Option Event :=
  match task.pc with
  | .take => some (.took id)
  | .publish =>
    if !(mctx.tasks id).newwork then some (.published id task.header (nonce_get task.midstate_cached)) else none
  | _ => none

/-! ### Interleavings -/

structure World where
  mctx : MinerCtx
  tasks : TaskId → Task

/-- One step of a task, or a call of the owner; `stop` is one of the stores of `stop_miners`. -/
inductive Action where
  | task (id : TaskId) (stack : Vector UInt32 48)
  | on_new_target (wally : Wally) (args : NewTarget)
  | check_solutions
  | stop (id : TaskId)

def World.step (world : World) : Action → World
  | .task id stack =>
    let next := minertask stack id world.mctx (world.tasks id)
    { mctx := next.1, tasks := Function.update world.tasks id next.2 }
  | .on_new_target wally args => { world with mctx := (Miner.on_new_target wally args world.mctx).2 }
  | .check_solutions => { world with mctx := (Miner.check_solutions world.mctx).2 }
  | .stop id => { world with mctx := world.mctx.setTask id { world.mctx.tasks id with stop := true } }

def World.event (world : World) : Action → Option Event
  | .task id _ => taskEvent id world.mctx (world.tasks id)
  | .on_new_target wally args => (newTemplate wally args).map fun built => .accepted built.2
  | .check_solutions => (Miner.check_solutions world.mctx).1.map .delivered
  | .stop _ => none

def miners : Machine World Action Event where
  step := World.step
  out := World.event

def BlockHeader.zero : BlockHeader where
  version := 0
  prev_block := Vector.replicate 32 0
  merkle_root := Vector.replicate 32 0
  timestamp := 0
  bits := 0
  nonce := 0

/-- `calloc` of the context. -/
def MinerCtx.zero : MinerCtx where
  rawtx := []
  bh := BlockHeader.zero
  solution_found := false
  tasks _ := {
    ht := { bh := BlockHeader.zero, target := Vector.replicate 32 0 }
    newwork := false
    stop := false
    exited := false }

/-- The miners as they are started; what their local variables hold is arbitrary. -/
def started (header : TaskId → HeaderAndTarget) (midstate_cached : TaskId → Context) : World where
  mctx := MinerCtx.zero
  tasks id := { pc := .parkStop, header := header id, midstate_cached := midstate_cached id }

end PiJade.Miner
