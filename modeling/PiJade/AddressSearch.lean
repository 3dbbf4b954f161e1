import PiJade.Wallet

/-!
The search for an address (`verify_address` of `main/qrmode.c`, with the search helpers of `main/wallet.c` and
`main/descriptor.c`). A run is given by what its turns read from outside: the flag of an
escape at each place where it is looked at, the answers and the buttons. What it
does is seen as events. Keys and scripts are derived by a library, which is a parameter.
-/
namespace PiJade.AddressSearch
open Wallet
set_option linter.unusedSimpArgs false

inductive Fault where
  | out_of_bounds
  deriving DecidableEq, Repr

/-- A registered record of several signers, as far as it is read here. -/
structure MultisigData where
  variant : Variant
  sorted : Bool
  threshold : Nat
  xpubs : List Bytes

/-- What derives keys and scripts. -/
structure Library (Key : Type) where
  wallet_get_hdkey : Path → Key
  wallet_derive_pubkey : Bytes → Path → Key
  singlesig_script : Variant → Key → Nat → Bytes
  multisig_script : MultisigData → List Key → Nat → Bytes
  /-- The script of a branch of the registered descriptor. -/
  descriptor_script : Nat → Nat → Bytes

/-- The wallet that the address is looked for in; a registered one has a name. -/
inductive Source where
  | singlesig (coin_type : UInt32) (variant : Variant)
  | multisig (name : List Char) (multisig_data : MultisigData)
  | descriptor (name : List Char) (num_values : Nat)

def Source.registered_wallet : Source → Bool
  | .singlesig _ _ => false
  | _ => true

def Source.roots_per_target : Source → Nat
  | .singlesig _ _ => 1
  | .multisig _ multisig_data => multisig_data.xpubs.length
  | .descriptor _ _ => 0

def EXPORT_XPUB_PATH_LEN : Nat := 4
def LABEL_LEN : Nat := MAX_PATH_STR_LEN EXPORT_XPUB_PATH_LEN
def VERIFY_SEARCH_ACCOUNTS : Nat := 3
def VERIFY_SEARCH_MAX_ACCOUNTS : Nat := VERIFY_SEARCH_ACCOUNTS + 1
def VERIFY_SEARCH_MAX_TARGETS : Nat := VERIFY_SEARCH_MAX_ACCOUNTS * 2

def ADDRESS_SEARCH_BATCH_SIZE (registered_wallet : Bool) : Nat := if registered_wallet then 10 else 20
def NUM_BATCHES_TO_RECONFIRM (registered_wallet : Bool) : Nat := if registered_wallet then 20 else 25
def NUM_INDEXES_TO_RECONFIRM (registered_wallet : Bool) : Nat :=
  NUM_BATCHES_TO_RECONFIRM registered_wallet * ADDRESS_SEARCH_BATCH_SIZE registered_wallet

/-! ### Targets -/

/-- `address_search_target_t`. -/
structure Target where
  account_index : UInt16
  is_change : Bool
  deriving DecidableEq, Repr

def get_search_accounts (account_index : UInt16) : List UInt16 :=
  [0, 1, 2] ++ if VERIFY_SEARCH_ACCOUNTS ≤ account_index.toNat then [account_index] else []

/-- The path of a branch of an account. -/
def searchPath (purpose coin_type : UInt32) (target : Target) : Path :=
  [purpose, coin_type, harden target.account_index.toUInt32, changeElement target.is_change]

/-- The label, and the key that is written to `search_roots`. -/
def get_singlesig_search_root {Key : Type} (lib : Library Key) (coin_type : UInt32) (variant : Variant) (target : Target) :
    Check Fault (List Char × Key) :=
  match get_script_variant_purpose variant with
  | none => .error .abort
  | some purpose =>
    match wallet_bip32_path_as_str (searchPath purpose coin_type target) LABEL_LEN false with
    | none => .error .abort
    | some pathstr => .ok (pathstr.toList, lib.wallet_get_hdkey (searchPath purpose coin_type target))

/-- The last character of a registered wallet's label names the branch. -/
def labelBranch (label : List Char) (is_change : Bool) : Check Fault (List Char) := do
  Check.ensure (label.length < LABEL_LEN)
  Check.ensure (label.getLast? = some '0' || label.getLast? = some '1')
  pure (label.dropLast ++ [if is_change then '1' else '0'])

/-- Keys are written to the allocation, if they are within it. -/
def writeRoots {Key : Type} (search_roots : List Key) (offset : Nat) (keys : List Key) : Check Fault (List Key) :=
  if offset + keys.length ≤ search_roots.length then
    .ok (search_roots.take offset ++ keys ++ search_roots.drop (offset + keys.length))
  else .error (.error .out_of_bounds)

def readRoots {Key : Type} (search_roots : List Key) (offset count : Nat) : Check Fault (List Key) :=
  if offset + count ≤ search_roots.length then .ok ((search_roots.drop offset).take count)
  else .error (.error .out_of_bounds)

/-- The label and the roots of one target; `offset` is where its roots stand. -/
def get_search_target {Key : Type} (lib : Library Key) (source : Source) (target : Target) (label : List Char)
    (search_roots : List Key) (offset : Nat) : Check Fault (List Char × List Key) :=
  match source with
  | .multisig _ multisig_data => do
    Check.ensure (0 < multisig_data.xpubs.length)
    let keys := multisig_data.xpubs.map fun xpub => lib.wallet_derive_pubkey xpub [changeElement target.is_change]
    let search_roots ← writeRoots search_roots offset keys
    let label ← labelBranch label target.is_change
    pure (label, search_roots)
  | .descriptor _ _ => do
    let label ← labelBranch label target.is_change
    pure (label, search_roots)
  | .singlesig coin_type variant => do
    let (label, key) ← get_singlesig_search_root lib coin_type variant target
    let search_roots ← writeRoots search_roots offset [key]
    pure (label, search_roots)

/-- What `build_search_targets` has written. -/
structure Built (Key : Type) where
  targets : List Target
  label : List Char
  search_roots : List Key

/-- The targets of accounts on both branches, in order. -/
def branches (accounts : List UInt16) : List Target :=
  accounts.flatMap fun account_index => [⟨account_index, false⟩, ⟨account_index, true⟩]

def buildFrom {Key : Type} (lib : Library Key) (source : Source) (built : Built Key) (target : Target) :
    Check Fault (Built Key) := do
  Check.ensure (built.targets.length < VERIFY_SEARCH_MAX_TARGETS)
  let (label, search_roots) ←
    get_search_target lib source target built.label built.search_roots (built.targets.length * source.roots_per_target)
  pure { targets := built.targets ++ [target], label := label, search_roots := search_roots }

/-- All targets, and their roots in the allocation that is there. -/
def build_search_targets {Key : Type} (lib : Library Key) (source : Source) (account_index : UInt16) (label : List Char)
    (search_roots : List Key) : Check Fault (Built Key) :=
  Check.fold (buildFrom lib source) { targets := [], label := label, search_roots := search_roots }
    (branches (if source.registered_wallet then [0] else get_search_accounts account_index))

/-! ### Batches -/

/-- The scripts of as many indexes are compared. -/
def searchFrom (derive : Nat → Bytes) (script : Bytes) : Nat → Nat → Bool × Nat × List (Nat × Bytes)
  | 0, index => (false, index, [])
  | search_depth + 1, index =>
    if derive index = script then (true, index, [(index, derive index)])
    else
      let (found, last, later) := searchFrom derive script search_depth (index + 1)
      (found, last, (index, derive index) :: later)

/-- Whether the script was found, the index that is left, and what it was compared with. -/
def wallet_search_for_singlesig_script {Key : Type} (lib : Library Key) (variant : Variant) (search_root : Key)
    (index search_depth : Nat) (script : Bytes) : Bool × Nat × List (Nat × Bytes) :=
  if !is_singlesig variant ∨ search_depth = 0 ∨ script.length ≠ script_length_for_variant variant then (false, index, [])
  else searchFrom (lib.singlesig_script variant search_root) script search_depth index

def wallet_search_for_multisig_script {Key : Type} (lib : Library Key) (multisig_data : MultisigData)
    (search_roots : List Key) (index search_depth : Nat) (script : Bytes) : Bool × Nat × List (Nat × Bytes) :=
  if !is_multisig multisig_data.variant ∨ multisig_data.threshold = 0 ∨ search_roots.length = 0 ∨
      MAX_ALLOWED_SIGNERS < search_roots.length ∨ search_depth = 0 ∨
      script.length ≠ script_length_for_variant multisig_data.variant then (false, index, [])
  else searchFrom (lib.multisig_script multisig_data search_roots) script search_depth index

def wallet_search_for_descriptor_script {Key : Type} (lib : Library Key) (num_values multi_index index search_depth : Nat)
    (script : Bytes) : Bool × Nat × List (Nat × Bytes) :=
  if MAX_ALLOWED_SIGNERS < num_values ∨ search_depth = 0 then (false, index, [])
  else searchFrom (lib.descriptor_script multi_index) script search_depth index

/-- One target from an index on; the label of a descriptor is moved to the branch. -/
def searchTarget {Key : Type} (lib : Library Key) (source : Source) (script : Bytes) (search_roots : List Key)
    (label : List Char) (i : Nat) (target : Target) (index : Nat) :
    Check Fault (List Char × Bool × Nat × List (Nat × Bytes)) :=
  let search_depth := ADDRESS_SEARCH_BATCH_SIZE source.registered_wallet
  match source with
  | .multisig _ multisig_data => do
    let roots ← readRoots search_roots (i * source.roots_per_target) source.roots_per_target
    pure (label, wallet_search_for_multisig_script lib multisig_data roots index search_depth script)
  | .descriptor _ num_values => do
    let label ← labelBranch label target.is_change
    pure (label,
      wallet_search_for_descriptor_script lib num_values (if target.is_change then 1 else 0) index search_depth script)
  | .singlesig _ variant => do
    let roots ← readRoots search_roots i 1
    match roots with
    | [search_root] => pure (label, wallet_search_for_singlesig_script lib variant search_root index search_depth script)
    | _ => .error (.error .out_of_bounds)

/-! ### The loop -/

/-- What is seen of a run. -/
inductive Event where
  /-- The targets were built for an account. -/
  | started (account_index : UInt16)
  | compared (target : Target) (index : Nat) (derived : Bytes)
  /-- Skip jumped from an index to another. -/
  | skipped (first last : Nat)
  /-- The question `Address not found`. -/
  | asked (index : Nat)
  | verified (target : Target) (pathstr : List Char)
  | not_verified
  deriving DecidableEq, Repr

/-- The variables of the loop. -/
structure State (Key : Type) where
  account_index : UInt16
  built : Built Key
  index : Nat
  confirmed_at_index : Nat

/-- A button while the search goes on. -/
inductive Button where
  | none
  | skip
  /-- The account that the options are left with. -/
  | options (account_index : UInt16)
  | exit
  deriving DecidableEq, Repr

/-- What one turn of the loop reads: the flag of an escape at its head, before each target, and behind the batch, the
    answer if it asks, and the button otherwise. -/
structure Turn where
  head : Bool
  during : Nat → Bool
  behind : Bool
  answer : Bool
  button : Button

/-- How a turn ends. -/
inductive Next (Key : Type) where
  | goes_on (s : State Key)
  | abandoned
  | found (s : State Key) (matched_target : Nat)

/-- The targets from `i` on, until the script is found or an escape is seen. -/
def searchTargets {Key : Type} (lib : Library Key) (source : Source) (script : Bytes) (during : Nat → Bool)
    (s : State Key) : Nat → List Target → List Char → List Event × Check Fault (List Char × Option (Nat × Nat))
  | _, [], label => ([], .ok (label, none))
  | i, target :: later, label =>
    if during i then ([], .ok (label, none))
    else
      match searchTarget lib source script s.built.search_roots label i target s.index with
      | .error halt => ([], .error halt)
      | .ok (label, verified, target_index, compared) =>
        let events := compared.map fun at_index => Event.compared target at_index.1 at_index.2
        if verified then (events, .ok (label, some (i, target_index)))
        else
          let rest := searchTargets lib source script during s (i + 1) later label
          (events ++ rest.1, rest.2)

/-- Behind a batch that found nothing. -/
def behindBatch {Key : Type} (lib : Library Key) (source : Source) (turn : Turn) (s : State Key) :
    List Event × Check Fault (Next Key) :=
  let num_indexes_to_reconfirm := NUM_INDEXES_TO_RECONFIRM source.registered_wallet
  let index := s.index + ADDRESS_SEARCH_BATCH_SIZE source.registered_wallet
  if s.confirmed_at_index + num_indexes_to_reconfirm ≤ index then
    ([.asked index],
      .ok (if turn.answer then .goes_on { s with index := index, confirmed_at_index := index } else .abandoned))
  else
    match turn.button with
    | .none => ([], .ok (.goes_on { s with index := index }))
    | .skip =>
      let last := s.confirmed_at_index + num_indexes_to_reconfirm
      ([.skipped index last], .ok (.goes_on { s with index := last, confirmed_at_index := last }))
    | .options account_index =>
      if source.registered_wallet then ([], .error .abort)
      else if account_index = s.account_index then ([], .ok (.goes_on { s with index := index }))
      else
        match build_search_targets lib source account_index s.built.label s.built.search_roots with
        | .error halt => ([], .error halt)
        | .ok built =>
          ([.started account_index], .ok (.goes_on {
            account_index := account_index, built := built, index := 0, confirmed_at_index := 0 }))
    | .exit => ([], .ok .abandoned)

def turnOf {Key : Type} (lib : Library Key) (source : Source) (script : Bytes) (turn : Turn) (s : State Key) :
    List Event × Check Fault (Next Key) :=
  if turn.head then ([], .ok .abandoned)
  else
    let batch := searchTargets lib source script turn.during s 0 s.built.targets s.built.label
    match batch.2 with
    | .error halt => (batch.1, .error halt)
    | .ok (label, some (i, target_index)) =>
      (batch.1, .ok (.found { s with built := { s.built with label := label }, index := target_index } i))
    | .ok (label, none) =>
      if turn.behind then (batch.1, .ok .abandoned)
      else
        let rest := behindBatch lib source turn { s with built := { s.built with label := label } }
        (batch.1 ++ rest.1, rest.2)

/-- How a run ends; it may also go on behind the turns that are given. -/
inductive Outcome where
  | searching
  | left (verified : Bool)
  deriving DecidableEq, Repr

/-- Behind the loop: an escape cancels, and otherwise the target is named that matched. -/
def report {Key : Type} (lib : Library Key) (source : Source) (escape : Bool) (matched : Option (State Key × Nat)) :
    List Event × Check Fault Outcome :=
  if escape then ([], .ok (.left false))
  else
    match matched with
    | none => ([.not_verified], .ok (.left false))
    | some (s, matched_target) =>
      match s.built.targets[matched_target]? with
      | none => ([], .error (.error .out_of_bounds))
      | some target =>
        match get_search_target lib source target s.built.label s.built.search_roots
            (matched_target * source.roots_per_target) with
        | .error halt => ([], .error halt)
        | .ok (label, _) =>
          let pathstr := label ++ '/' :: (Nat.repr s.index).toList
          if 48 ≤ pathstr.length then ([], .error .abort)
          else ([.verified target pathstr], .ok (.left true))

/-- The loop over the turns of a run; `escape` is the flag behind it. -/
def searchLoop {Key : Type} (lib : Library Key) (source : Source) (script : Bytes) (escape : Bool) :
    List Turn → State Key → List Event × Check Fault Outcome
  | [], _ => ([], .ok .searching)
  | turn :: later, s =>
    let this := turnOf lib source script turn s
    match this.2 with
    | .error halt => (this.1, .error halt)
    | .ok .abandoned =>
      let rest := report lib source escape none
      (this.1 ++ rest.1, rest.2)
    | .ok (.found s matched_target) =>
      let rest := report lib source escape (some (s, matched_target))
      (this.1 ++ rest.1, rest.2)
    | .ok (.goes_on s) =>
      let rest := searchLoop lib source script escape later s
      (this.1 ++ rest.1, rest.2)

/-! ### The address -/

/-- What the user answers before the search: whether a P2SH address is one of a registered wallet, and the
    record that is selected. -/
structure Selection where
  registered : Bool
  record : Option Source

def variant_matches_script_type (variant : Variant) (script_type : ScriptType) : Bool :=
  (script_type = .P2WSH && variant = .MULTI_P2WSH) ||
    (script_type = .P2SH && (variant = .MULTI_P2SH || variant = .MULTI_P2WSH_P2SH))

/-- The records offered for a script: descriptors, and records of several signers of its type. -/
def load_registered_wallet (script_type : ScriptType) (selection : Selection) : Option Source :=
  match selection.record with
  | some (.multisig name multisig_data) =>
    if variant_matches_script_type multisig_data.variant script_type then some (.multisig name multisig_data) else none
  | some (.descriptor name num_values) => some (.descriptor name num_values)
  | _ => none

/-- The wallet that is searched, if there is one for the script. -/
def searchSource (coin_type : UInt32) (script_type : ScriptType) (selection : Selection) : Option Source :=
  if script_type = .P2WSH ∨ script_type = .P2SH ∧ selection.registered then load_registered_wallet script_type selection
  else (get_singlesig_variant_from_script_type script_type).map (.singlesig coin_type)

/-- The label at the beginning. -/
def Source.label : Source → List Char
  | .singlesig _ _ => []
  | .multisig name _ => name ++ ['/', '0']
  | .descriptor name _ => name ++ ['/', '0']

/-- From the allocation of the roots on. -/
def verify_address {Key : Type} [Inhabited Key] (lib : Library Key) (source : Source) (account_index : UInt16)
    (script : Bytes) (turns : List Turn) (escape : Bool) : List Event × Check Fault Outcome :=
  let max_targets := if source.registered_wallet then 2 else VERIFY_SEARCH_MAX_TARGETS
  let search_roots : List Key := List.replicate (max_targets * source.roots_per_target) default
  match build_search_targets lib source account_index source.label search_roots with
  | .error halt => ([], .error halt)
  | .ok built =>
    let rest := searchLoop lib source script escape turns {
      account_index := account_index, built := built, index := 0, confirmed_at_index := 0 }
    (.started account_index :: rest.1, rest.2)

end PiJade.AddressSearch
