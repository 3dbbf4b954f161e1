import Mathlib.Data.List.Induction
import Mathlib.Data.Nat.Digits.Defs
import Mathlib.Tactic.Common
import PiJade.Bytes
import PiJade.Process

/-!
The wallet (`main/wallet.c`, and the path helpers of `main/utils/util.c`): BIP32 paths,
the script variants, which paths are expected of them, and the scripts built from keys.
Keys, hashes and script encodings are those of libwally, a parameter: `Wally` lists the
calls, `Wally.Lawful` what is relied on of their results. A libwally call whose result
the code verifies is taken to succeed.
-/
namespace PiJade.Wallet
set_option linter.unusedSimpArgs false

/-! ### Networks -/

/-- `network_t` without `NETWORK_NONE`, which every caller has excluded. -/
inductive Network where
  | BITCOIN
  | LIQUID
  | BITCOIN_TESTNET
  | LIQUID_TESTNET
  | BITCOIN_REGTEST
  | LIQUID_REGTEST
  deriving DecidableEq, Repr

def network_is_liquid : Network → Bool
  | .LIQUID | .LIQUID_TESTNET | .LIQUID_REGTEST => true
  | _ => false

def network_to_csv_blocks : Network → List Nat
  | .BITCOIN => [25920, 51840, 65535]
  | .LIQUID => [65535]
  | .BITCOIN_TESTNET | .BITCOIN_REGTEST => [144, 4320, 51840]
  | .LIQUID_TESTNET | .LIQUID_REGTEST => [1440, 65535]

def network_is_known_csv_blocks (network_id : Network) (csv_blocks : Nat) : Bool :=
  (network_to_csv_blocks network_id).contains csv_blocks

def network_is_allowable_csv_blocks (network_id : Network) (csv_blocks : Nat) : Bool :=
  match network_to_csv_blocks network_id with
  | [] => false
  | smallest :: _ => decide (smallest ≤ csv_blocks)

/-! ### Paths -/

/-- A BIP32 path, from the master key down. -/
abbrev Path := List UInt32

def BIP32_INITIAL_HARDENED_CHILD : UInt32 := 0x80000000
def MAX_PATH_LEN : Nat := 16
def MAX_PATH_STR_LEN (max_path_elems : Nat) : Nat := 1 + (1 + 10 + 1) * max_path_elems + 1

def SUBACT_ROOT : UInt32 := BIP32_INITIAL_HARDENED_CHILD + 3
def SUBACT_FLOOR : UInt32 := BIP32_INITIAL_HARDENED_CHILD
def SUBACT_CEILING : UInt32 := BIP32_INITIAL_HARDENED_CHILD + 16384
def PATH_BRANCH : UInt32 := 1
def MAX_PATH_PTR : UInt32 := 10000

def ishardened (n : UInt32) : Bool := n &&& 0x80000000 != 0
def harden (n : UInt32) : UInt32 := n ||| 0x80000000
def unharden (n : UInt32) : UInt32 := n &&& 0x7fffffff

/-- The loop of `path_get_unhardened_tail_index`, at element `i`. -/
def tailIndexFrom (i path_tail_start : Nat) : Path → Nat
  | [] => path_tail_start
  | n :: rest => tailIndexFrom (i + 1) (if ishardened n then i + 1 else path_tail_start) rest

/-- The first index from which all elements are unhardened. -/
def path_get_unhardened_tail_index (path : Path) : Nat := tailIndexFrom 0 0 path

/-- The elements after the last hardened one. -/
def pathTail (path : Path) : Path := path.drop (path_get_unhardened_tail_index path)

/-- One element as `wallet_bip32_path_as_str` prints it. -/
def pathElement (bare : Bool) (part : UInt32) : String :=
  (if bare then "" else "/") ++ Nat.repr (unharden part).toNat ++ (if ishardened part then "'" else "")

/-- The loop of `wallet_bip32_path_as_str`, with `output` printed so far. -/
def pathAsStrFrom (output_len : Nat) (path_only : Bool) (output : String) (first : Bool) : Path → Option String
  | [] => some output
  | part :: rest =>
    let text := pathElement (path_only && first) part
    if output_len - output.length ≤ text.length then none
    else pathAsStrFrom output_len path_only (output ++ text) false rest

/-- `m/a'/b'/c/d`, or nothing when the buffer is too short. -/
def wallet_bip32_path_as_str (parts : Path) (output_len : Nat) (path_only : Bool) : Option String :=
  pathAsStrFrom output_len path_only (if path_only then "" else "m") true parts

/-! ### Script variants -/

/-- `script_variant_t`. -/
inductive Variant where
  | GREEN
  | P2PKH
  | P2WPKH
  | P2WPKH_P2SH
  | MULTI_P2WSH
  | MULTI_P2SH
  | MULTI_P2WSH_P2SH
  | P2TR
  deriving DecidableEq, Repr

/-- `WALLY_SCRIPT_TYPE_…`, the types the code tells apart. -/
inductive ScriptType where
  | OP_RETURN
  | P2PKH
  | P2SH
  | P2WPKH
  | P2WSH
  | P2TR
  | MULTISIG
  | OTHER
  deriving DecidableEq, Repr

def WALLY_SCRIPTPUBKEY_P2PKH_LEN : Nat := 25
def WALLY_SCRIPTPUBKEY_P2SH_LEN : Nat := 23
def WALLY_SCRIPTPUBKEY_P2WPKH_LEN : Nat := 22
def WALLY_SCRIPTPUBKEY_P2WSH_LEN : Nat := 34
def WALLY_SCRIPTPUBKEY_P2TR_LEN : Nat := 34
def EC_PUBLIC_KEY_LEN : Nat := 33
def MAX_ALLOWED_SIGNERS : Nat := 15
def MAX_CSV_BLOCKS_ALLOWED : Nat := 65535
def MULTISIG_SCRIPT_LEN (n : Nat) : Nat := 3 + n * (EC_PUBLIC_KEY_LEN + 1)

def is_singlesig (variant : Variant) : Bool :=
  variant == .P2PKH || variant == .P2WPKH || variant == .P2WPKH_P2SH || variant == .P2TR

def is_multisig (variant : Variant) : Bool :=
  variant == .MULTI_P2SH || variant == .MULTI_P2WSH || variant == .MULTI_P2WSH_P2SH

def script_length_for_variant : Variant → Nat
  | .P2PKH => WALLY_SCRIPTPUBKEY_P2PKH_LEN
  | .P2WPKH => WALLY_SCRIPTPUBKEY_P2WPKH_LEN
  | .P2TR => WALLY_SCRIPTPUBKEY_P2TR_LEN
  | .GREEN | .P2WPKH_P2SH | .MULTI_P2SH | .MULTI_P2WSH_P2SH => WALLY_SCRIPTPUBKEY_P2SH_LEN
  | .MULTI_P2WSH => WALLY_SCRIPTPUBKEY_P2WSH_LEN

/-- The BIP44-like purpose; the green variant has none (the source asserts it away). -/
def get_script_variant_purpose : Variant → Option UInt32
  | .P2PKH => some (BIP32_INITIAL_HARDENED_CHILD + 44)
  | .P2WPKH => some (BIP32_INITIAL_HARDENED_CHILD + 84)
  | .P2WPKH_P2SH => some (BIP32_INITIAL_HARDENED_CHILD + 49)
  | .P2TR => some (BIP32_INITIAL_HARDENED_CHILD + 86)
  | .MULTI_P2SH => some (BIP32_INITIAL_HARDENED_CHILD + 45)
  | .MULTI_P2WSH | .MULTI_P2WSH_P2SH => some (BIP32_INITIAL_HARDENED_CHILD + 48)
  | .GREEN => none

def get_bip44_coin_type : Network → UInt32
  | .BITCOIN => BIP32_INITIAL_HARDENED_CHILD
  | .LIQUID => BIP32_INITIAL_HARDENED_CHILD + 1776
  | _ => BIP32_INITIAL_HARDENED_CHILD + 1

/-- A p2sh script is assumed to wrap p2wpkh. -/
def get_singlesig_variant_from_script_type : ScriptType → Option Variant
  | .P2WPKH => some .P2WPKH
  | .P2PKH => some .P2PKH
  | .P2SH => some .P2WPKH_P2SH
  | .P2TR => some .P2TR
  | _ => none

def changeElement (is_change : Bool) : UInt32 := if is_change then 1 else 0

def wallet_is_expected_singlesig_path (network_id : Network) (variant : Variant) (is_change : Bool)
    (path : Path) : Bool :=
  match path with
  | [purpose, coin, account, change, ptr] =>
    some purpose == get_script_variant_purpose variant && coin == get_bip44_coin_type network_id &&
      decide (SUBACT_FLOOR ≤ account) && decide (account < SUBACT_CEILING) &&
      change == changeElement is_change && decide (ptr < MAX_PATH_PTR)
  | _ => false

/-- At most a cosigner index, the change element and the final index, read from the end. -/
def wallet_is_expected_multisig_path (cosigner_index : Nat) (is_change : Bool) (path : Path) : Bool :=
  match path.reverse with
  | [ptr] => decide (ptr < MAX_PATH_PTR)
  | [ptr, change] => decide (ptr < MAX_PATH_PTR) && change == changeElement is_change
  | [ptr, change, cosigner] =>
    decide (ptr < MAX_PATH_PTR) && change == changeElement is_change && cosigner.toNat == cosigner_index
  | _ => false

theorem singlesig_of_script_type {type : ScriptType} {variant : Variant}
    (found : get_singlesig_variant_from_script_type type = some variant) : is_singlesig variant = true := by
  cases type <;> simp only [get_singlesig_variant_from_script_type, Option.some.injEq, reduceCtorEq] at found <;>
    subst found <;> rfl

/-! ### The text of a path -/

theorem pathElement_length (part : UInt32) (bare : Bool) : (pathElement bare part).length ≤ 12 := by
  have small : (unharden part).toNat < 10 ^ 10 := Nat.lt_trans (unharden part).toNat_lt (by decide)
  have digits : (Nat.repr (unharden part).toNat).length ≤ 10 := Nat.repr_length _ 10 (by decide) small
  have front : (if bare then "" else "/").length ≤ 1 := by
    cases bare <;> decide
  have back : (if ishardened part then "'" else "").length ≤ 1 := by
    cases ishardened part <;> decide
  rw [pathElement, String.length_append, String.length_append]
  omega

/-- A buffer with room for twelve characters an element takes the text of a path. -/
theorem pathAsStrFrom_isSome {output_len : Nat} {output : String} {path_only first : Bool} {path : Path}
    (room : output.length + 12 * path.length < output_len) :
    ∃ text, pathAsStrFrom output_len path_only output first path = some text := by
  induction path generalizing output first with
  | nil => exact ⟨output, rfl⟩
  | cons part rest ih =>
    have size := pathElement_length part (path_only && first)
    rw [List.length_cons] at room
    rw [pathAsStrFrom, if_neg (by omega)]
    exact ih (by rw [String.length_append]; omega)

/-! ### Unhardened tails -/

theorem tailIndexFrom_append (front : Path) (n : UInt32) (i start : Nat) :
    tailIndexFrom i start (front ++ [n]) =
      if ishardened n then i + front.length + 1 else tailIndexFrom i start front := by
  induction front generalizing i start with
  | nil => simp [tailIndexFrom]
  | cons m front ih =>
    simp only [List.cons_append, tailIndexFrom, ih, List.length_cons]
    split <;> omega

theorem tail_index_append (front : Path) (n : UInt32) :
    path_get_unhardened_tail_index (front ++ [n]) =
      if ishardened n then front.length + 1 else path_get_unhardened_tail_index front := by
  simp [path_get_unhardened_tail_index, tailIndexFrom_append]

theorem tail_index_le (path : Path) : path_get_unhardened_tail_index path ≤ path.length := by
  induction path using List.reverseRecOn with
  | nil => exact Nat.le_refl 0
  | append_singleton front n ih =>
    rw [tail_index_append, List.length_append, List.length_singleton]
    split <;> omega

/-- The tail grows at its end, and starts anew behind a hardened element. -/
theorem pathTail_append (front : Path) (n : UInt32) :
    pathTail (front ++ [n]) = if ishardened n then [] else pathTail front ++ [n] := by
  rw [pathTail, tail_index_append]
  split
  · simp
  · exact List.drop_append_of_le_length (tail_index_le front)

/-! ### libwally -/

/-- An item of a keypath map: a public key, and the fingerprint and path of its origin. -/
structure KeyPath where
  key : Bytes
  fingerprint : Bytes
  path : Path
  deriving DecidableEq, Repr

/-- `WALLY_SCRIPT_HASH160` and `WALLY_SCRIPT_SHA256`. -/
inductive ScriptHash where
  | HASH160
  | SHA256
  deriving DecidableEq, Repr

/-- The libwally calls on keys and scripts. `K` is `struct ext_key`. -/
structure Wally (K : Type) where
  pub_key : K → Bytes
  /-- The fingerprint libwally keeps with a key. -/
  fingerprint : K → Bytes
  bip32_key_unserialize : Bytes → Option K
  bip32_key_from_parent_path : K → Path → K
  /-- What `wally_map_keypath_get_bip32_[public_]key_from` makes of one item: the key
      derived from the parent, when the item is found to be one of its keys. -/
  keypath_key : (is_private : Bool) → K → KeyPath → Option K
  /-- `wally_scriptpubkey_get_type` of a script that is not empty. -/
  scriptpubkey_type : Bytes → ScriptType
  witness_program_from_bytes : Bytes → ScriptHash → Bytes
  scriptpubkey_p2sh_from_bytes : Bytes → Bytes
  scriptpubkey_p2pkh_from_bytes : Bytes → Bytes
  scriptpubkey_p2tr_from_bytes : Bytes → Bytes
  scriptpubkey_multisig_from_bytes : List Bytes → (threshold : Nat) → (sorted : Bool) → Bytes
  scriptpubkey_csv_2of2_then_1_from_bytes : List Bytes → (blocks : Nat) → Bytes
  scriptpubkey_csv_blocks_from_csv_2of2_then_1 : Bytes → Option Nat
  /-- `wally_base58_from_bytes` with a checksum. -/
  base58_from_bytes : Bytes → String
  /-- `wally_addr_segwit_from_bytes` of a witness program. -/
  addr_segwit_from_bytes : Bytes → (hrp : String) → String
  /-- The key of the green service on a network. -/
  ga_service : Network → K

/-- A key as a keypath map holds it: in full, or without its parity byte in a taproot map. -/
def IsKey (item : Bytes) (pub_key : Bytes) : Prop := item = pub_key ∨ item = pub_key.drop 1

/-- What is relied on of libwally: a key it finds is derived along the path stated with
    it, and its scripts have the documented lengths. -/
structure Wally.Lawful {K : Type} (wally : Wally K) : Prop where
  keypath_key_derived : ∀ is_private parent item key, wally.keypath_key is_private parent item = some key →
    wally.pub_key key = wally.pub_key (wally.bip32_key_from_parent_path parent item.path) ∧
      IsKey item.key (wally.pub_key key)
  pub_key_length : ∀ key, (wally.pub_key key).length = EC_PUBLIC_KEY_LEN
  witness_hash160_length : ∀ bytes,
    (wally.witness_program_from_bytes bytes .HASH160).length = WALLY_SCRIPTPUBKEY_P2WPKH_LEN
  witness_sha256_length : ∀ bytes,
    (wally.witness_program_from_bytes bytes .SHA256).length = WALLY_SCRIPTPUBKEY_P2WSH_LEN
  p2sh_length : ∀ bytes, (wally.scriptpubkey_p2sh_from_bytes bytes).length = WALLY_SCRIPTPUBKEY_P2SH_LEN
  p2pkh_length : ∀ bytes, (wally.scriptpubkey_p2pkh_from_bytes bytes).length = WALLY_SCRIPTPUBKEY_P2PKH_LEN
  p2tr_length : ∀ bytes, (wally.scriptpubkey_p2tr_from_bytes bytes).length = WALLY_SCRIPTPUBKEY_P2TR_LEN
  multisig_length : ∀ pubkeys threshold sorted,
    (wally.scriptpubkey_multisig_from_bytes pubkeys threshold sorted).length = MULTISIG_SCRIPT_LEN pubkeys.length
  op_return_head : ∀ script, wally.scriptpubkey_type script = .OP_RETURN → script.head? = some 0x6a
  base58_length : ∀ bytes, bytes.length ≤ 21 →
    0 < (wally.base58_from_bytes bytes).length ∧ (wally.base58_from_bytes bytes).length ≤ 90
  addr_segwit_length : ∀ script hrp,
    0 < (wally.addr_segwit_from_bytes script hrp).length ∧ (wally.addr_segwit_from_bytes script hrp).length ≤ 90

/-- `keychain_t`, as far as signing reads it. -/
structure Keychain (K : Type) where
  xpriv : K
  gaservice_path : Path

/-! ### Building scripts -/

section
variable {K ε : Type} (wally : Wally K)

/-- The leaf key of a serialised key; with an empty path the key itself. -/
def wallet_derive_pubkey (serialised_key : Bytes) (path : Path) : Option K :=
  (wally.bip32_key_unserialize serialised_key).map fun root =>
    if path = [] then root else wally.bip32_key_from_parent_path root path

def wallet_p2sh_p2wsh_scriptpubkey_for_bytes (bytes : Bytes) (flags : ScriptHash) : Check ε Bytes := do
  Check.ensure (decide (0 < bytes.length))
  let redeem_script := wally.witness_program_from_bytes bytes flags
  let expected_written :=
    match flags with
    | .SHA256 => WALLY_SCRIPTPUBKEY_P2WSH_LEN
    | .HASH160 => WALLY_SCRIPTPUBKEY_P2WPKH_LEN
  Check.ensure (redeem_script.length == expected_written)
  let output := wally.scriptpubkey_p2sh_from_bytes redeem_script
  Check.ensure (output.length == WALLY_SCRIPTPUBKEY_P2SH_LEN)
  pure output

/-- An m-of-n script, into a buffer for `capacity` keys. -/
def wallet_build_multisig (sorted : Bool) (threshold : Nat) (pubkeys : List Bytes) (capacity : Nat) :
    Check ε Bytes := do
  Check.ensure (decide (0 < threshold))
  Check.ensure (decide (threshold ≤ pubkeys.length))
  Check.ensure (decide (MULTISIG_SCRIPT_LEN pubkeys.length ≤ MULTISIG_SCRIPT_LEN capacity))
  let output := wally.scriptpubkey_multisig_from_bytes pubkeys threshold sorted
  Check.ensure (output.length == MULTISIG_SCRIPT_LEN pubkeys.length)
  pure output

def CSV_MIN_SCRIPT_LEN_OPT : Nat := 6 + 2 * (EC_PUBLIC_KEY_LEN + 1) + 1 + 1
def CSV_MAX_SCRIPT_LEN_OPT : Nat := 6 + 2 * (EC_PUBLIC_KEY_LEN + 1) + 1 + 3

/-- The 2of2 csv script of the bitcoin networks. -/
def wallet_build_csv (pubkeys : List Bytes) (blocks : Nat) : Check ε Bytes := do
  Check.ensure (pubkeys.length == 2)
  Check.ensure (decide (0 < blocks))
  Check.ensure (decide (blocks ≤ MAX_CSV_BLOCKS_ALLOWED))
  let output := wally.scriptpubkey_csv_2of2_then_1_from_bytes pubkeys blocks
  Check.ensure (decide (CSV_MIN_SCRIPT_LEN_OPT ≤ output.length) && decide (output.length ≤ CSV_MAX_SCRIPT_LEN_OPT))
  pure output

def wallet_build_singlesig_script (variant : Variant) (hdkey : K) : Check ε (Option Bytes) := do
  if !is_singlesig variant then return none
  let pubkey := wally.pub_key hdkey
  let output ←
    match variant with
    | .P2WPKH_P2SH => wallet_p2sh_p2wsh_scriptpubkey_for_bytes wally pubkey .HASH160
    | .P2WPKH => pure (wally.witness_program_from_bytes pubkey .HASH160)
    | .P2PKH => pure (wally.scriptpubkey_p2pkh_from_bytes pubkey)
    | .P2TR => pure (wally.scriptpubkey_p2tr_from_bytes pubkey)
    | _ => .error .abort
  Check.ensure (output.length == script_length_for_variant variant)
  return some output

def wallet_build_multisig_script (variant : Variant) (sorted : Bool) (threshold : Nat) (pubkeys : List Bytes) :
    Check ε (Option Bytes) := do
  if !is_multisig variant || threshold == 0 || pubkeys.isEmpty then return none
  let multisig_script ← wallet_build_multisig wally sorted threshold pubkeys MAX_ALLOWED_SIGNERS
  let output ←
    match variant with
    | .MULTI_P2WSH_P2SH => wallet_p2sh_p2wsh_scriptpubkey_for_bytes wally multisig_script .SHA256
    | .MULTI_P2WSH => pure (wally.witness_program_from_bytes multisig_script .SHA256)
    | .MULTI_P2SH => pure (wally.scriptpubkey_p2sh_from_bytes multisig_script)
    | _ => .error .abort
  Check.ensure (output.length == script_length_for_variant variant)
  return some output

/-! ### Green paths and scripts -/

def GASERVICE_ROOT_PATH_LEN : Nat := 1 + 32
def MAX_GASERVICE_PATH_LEN : Nat := GASERVICE_ROOT_PATH_LEN + 2
def GA_USER_PATH_MAX_LEN : Nat := 4
def GA_RECOVERY_PATH_LEN : Nat := 2

def is_potential_green_recovery_path : Path → Bool
  | [branch, ptr] => branch == 1 && !ishardened ptr
  | _ => false

/-- The subaccount of a green user path. -/
def is_potential_green_user_path (path : Path) : Option UInt32 :=
  match path with
  | [root, subaccount, branch, ptr] =>
    if root == harden 3 && ishardened subaccount && branch == 1 && ptr != 0 && !ishardened ptr then
      some (unharden subaccount)
    else none
  | _ => if is_potential_green_recovery_path path then some 0 else none

/-- The subaccount of a green server path. -/
def is_potential_green_server_path (path : Path) : Option UInt32 :=
  let subaccount := path.length == MAX_GASERVICE_PATH_LEN
  let tail_len := if subaccount then 2 else 1
  if path.length != MAX_GASERVICE_PATH_LEN - 1 && !subaccount then none
  else if path.head? != some (if subaccount then 3 else 1) then none
  else if ((path.take (path.length - tail_len)).drop 1).any (fun n => decide (0xffff < n)) then none
  else if (path.drop 1).any ishardened then none
  else some (if subaccount then path.getD (path.length - 2) 0 else 0)

/-- The tail of the service path for a user path, and whether it is a subaccount's. -/
def wallet_get_gaservice_path_tail : Path → Option (Path × Bool)
  | [branch, ptr] => if branch == PATH_BRANCH && decide (ptr < MAX_PATH_PTR) then some ([ptr], false) else none
  | [root, subact, branch, ptr] =>
    if root == SUBACT_ROOT && decide (SUBACT_FLOOR < subact) && decide (subact < SUBACT_CEILING) &&
        branch == PATH_BRANCH && decide (ptr < MAX_PATH_PTR) then
      some ([unharden subact, ptr], true)
    else none
  | _ => none

def wallet_get_gaservice_path_root (keychain : Keychain K) (subaccount_root : Bool) : Path :=
  (if subaccount_root then 3 else 1) :: keychain.gaservice_path

def wallet_get_gaservice_path (keychain : Keychain K) (path : Path) : Option Path :=
  (wallet_get_gaservice_path_tail path).map fun (tail, is_subaccount_path) =>
    wallet_get_gaservice_path_root keychain is_subaccount_path ++ tail

def wallet_get_gaservice_key (keychain : Keychain K) (network_id : Network) (path : Path) : Option K :=
  (wallet_get_gaservice_path_tail path).map fun (tail, is_subaccount_path) =>
    let root := wallet_get_gaservice_path_root keychain is_subaccount_path
    wally.bip32_key_from_parent_path (wally.bip32_key_from_parent_path (wally.ga_service network_id) root) tail

/-- 2of2 or 2of3 multisig, or a 2of2 csv; a recovery key is given by its public key. -/
def wallet_build_ga_script_ex (keychain : Keychain K) (network_id : Network) (user_key : K)
    (recovery_key : Option Bytes) (csv_blocks : Nat) (path : Path) : Check ε (Option Bytes) := do
  if decide (MAX_CSV_BLOCKS_ALLOWED < csv_blocks) || path.isEmpty then return none
  if csv_blocks != 0 && recovery_key.isSome then return none
  if csv_blocks != 0 && !network_is_allowable_csv_blocks network_id csv_blocks then return none
  match wallet_get_gaservice_key wally keychain network_id path with
  | none => return none
  | some gakey =>
    let pubkeys := [wally.pub_key gakey, wally.pub_key user_key] ++ recovery_key.toList
    let script ←
      if csv_blocks != 0 then wallet_build_csv wally pubkeys csv_blocks
      else wallet_build_multisig wally false 2 pubkeys 3
    let output ← wallet_p2sh_p2wsh_scriptpubkey_for_bytes wally script .SHA256
    return some output

/-! ### What the builders return -/

/-- The script of a single key. -/
def singlesigScript (variant : Variant) (pubkey : Bytes) : Option Bytes :=
  match variant with
  | .P2WPKH_P2SH => some (wally.scriptpubkey_p2sh_from_bytes (wally.witness_program_from_bytes pubkey .HASH160))
  | .P2WPKH => some (wally.witness_program_from_bytes pubkey .HASH160)
  | .P2PKH => some (wally.scriptpubkey_p2pkh_from_bytes pubkey)
  | .P2TR => some (wally.scriptpubkey_p2tr_from_bytes pubkey)
  | _ => none

/-- The script of several keys. -/
def multisigScript (variant : Variant) (sorted : Bool) (threshold : Nat) (pubkeys : List Bytes) : Option Bytes :=
  let script := wally.scriptpubkey_multisig_from_bytes pubkeys threshold sorted
  match variant with
  | .MULTI_P2WSH_P2SH => some (wally.scriptpubkey_p2sh_from_bytes (wally.witness_program_from_bytes script .SHA256))
  | .MULTI_P2WSH => some (wally.witness_program_from_bytes script .SHA256)
  | .MULTI_P2SH => some (wally.scriptpubkey_p2sh_from_bytes script)
  | _ => none

variable {wally}

theorem p2sh_p2wsh_eq (lawful : wally.Lawful) {bytes : Bytes} (some_bytes : 0 < bytes.length) (flags : ScriptHash) :
    (wallet_p2sh_p2wsh_scriptpubkey_for_bytes wally bytes flags : Check ε Bytes) =
      .ok (wally.scriptpubkey_p2sh_from_bytes (wally.witness_program_from_bytes bytes flags)) := by
  cases flags <;>
    simp [wallet_p2sh_p2wsh_scriptpubkey_for_bytes, some_bytes, lawful.witness_hash160_length,
      lawful.witness_sha256_length, lawful.p2sh_length]

theorem build_singlesig_script_eq (lawful : wally.Lawful) (variant : Variant) (hdkey : K) :
    (wallet_build_singlesig_script wally variant hdkey : Check ε (Option Bytes)) =
      .ok (singlesigScript wally variant (wally.pub_key hdkey)) := by
  have some_key : 0 < (wally.pub_key hdkey).length := by simp [lawful.pub_key_length, EC_PUBLIC_KEY_LEN]
  cases variant <;>
    simp [wallet_build_singlesig_script, is_singlesig, singlesigScript, script_length_for_variant,
      p2sh_p2wsh_eq lawful some_key, lawful.witness_hash160_length, lawful.p2sh_length, lawful.p2pkh_length,
      lawful.p2tr_length]

theorem build_multisig_eq (lawful : wally.Lawful) {sorted : Bool} {threshold : Nat} {pubkeys : List Bytes}
    {capacity : Nat} (some_threshold : 0 < threshold) (enough : threshold ≤ pubkeys.length)
    (fits : pubkeys.length ≤ capacity) :
    (wallet_build_multisig wally sorted threshold pubkeys capacity : Check ε Bytes) =
      .ok (wally.scriptpubkey_multisig_from_bytes pubkeys threshold sorted) := by
  have room : MULTISIG_SCRIPT_LEN pubkeys.length ≤ MULTISIG_SCRIPT_LEN capacity :=
    Nat.add_le_add_left (Nat.mul_le_mul_right _ fits) 3
  simp [wallet_build_multisig, some_threshold, enough, room, lawful.multisig_length]

theorem build_multisig_script_eq (lawful : wally.Lawful) (variant : Variant) (sorted : Bool) {threshold : Nat}
    {pubkeys : List Bytes} (some_threshold : 0 < threshold) (enough : threshold ≤ pubkeys.length)
    (fits : pubkeys.length ≤ MAX_ALLOWED_SIGNERS) :
    (wallet_build_multisig_script wally variant sorted threshold pubkeys : Check ε (Option Bytes)) =
      .ok (multisigScript wally variant sorted threshold pubkeys) := by
  have some_keys : pubkeys ≠ [] := by
    rintro rfl
    simp only [List.length_nil] at enough
    omega
  have some_script : 0 < (wally.scriptpubkey_multisig_from_bytes pubkeys threshold sorted).length := by
    rw [lawful.multisig_length, MULTISIG_SCRIPT_LEN]
    omega
  cases variant <;>
    simp [wallet_build_multisig_script, is_multisig, multisigScript, script_length_for_variant, some_keys,
      Nat.pos_iff_ne_zero.mp some_threshold, build_multisig_eq lawful some_threshold enough fits,
      p2sh_p2wsh_eq lawful some_script, lawful.witness_sha256_length, lawful.p2sh_length]

/-- Without csv blocks a green script is built or refused, whatever the path. -/
theorem build_ga_script_isOk (lawful : wally.Lawful) (keychain : Keychain K) (network_id : Network) (user_key : K)
    (recovery_key : Option Bytes) (csv_blocks : Nat) (csv : csv_blocks = 0 ∨ recovery_key.isSome = true)
    (path : Path) :
    ∃ script, (wallet_build_ga_script_ex wally keychain network_id user_key recovery_key csv_blocks path :
      Check ε (Option Bytes)) = .ok script := by
  unfold wallet_build_ga_script_ex
  by_cases refused : (decide (MAX_CSV_BLOCKS_ALLOWED < csv_blocks) || path.isEmpty) = true
  · exact ⟨none, by simp [refused]⟩
  · rw [if_neg refused]
    by_cases both : (csv_blocks != 0 && recovery_key.isSome) = true
    · exact ⟨none, by simp [both]⟩
    · have none_set : csv_blocks = 0 := by
        rcases csv with zero | recovery
        · exact zero
        · simpa [recovery] using both
      subst none_set
      cases service : wallet_get_gaservice_key wally keychain network_id path with
      | none => exact ⟨none, by simp⟩
      | some gakey =>
        let pubkeys := [wally.pub_key gakey, wally.pub_key user_key] ++ recovery_key.toList
        have keys : pubkeys.length ≤ 3 := by cases recovery_key <;> simp [pubkeys]
        have enough : 2 ≤ pubkeys.length := by simp [pubkeys]
        have some_script : 0 < (wally.scriptpubkey_multisig_from_bytes pubkeys 2 false).length := by
          rw [lawful.multisig_length, MULTISIG_SCRIPT_LEN]
          omega
        refine ⟨some (wally.scriptpubkey_p2sh_from_bytes (wally.witness_program_from_bytes
          (wally.scriptpubkey_multisig_from_bytes pubkeys 2 false) .SHA256)), ?_⟩
        simp only [bne_self_eq_false, Bool.false_and, Bool.false_eq_true, ↓reduceIte, pure_bind, Check.pure_eq,
          Check.ok_bind]
        rw [build_multisig_eq lawful (by omega) enough keys]
        simp only [Check.ok_bind]
        rw [p2sh_p2wsh_eq lawful some_script]
        rfl

end

end PiJade.Wallet
