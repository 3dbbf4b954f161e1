import PiJade.CborEnvelope
import PiJade.DescriptorText
import PiJade.Wallet

/-!
Output descriptors in CBOR, as scanned codes carry them (`bcur_parse_crypto_output` of `main/bcur.c`
with all it calls). A descriptor is a chain of tags around a map or a key, keys are maps of numbered
entries, and a text is printed of them. The CBOR library and the keys of libwally are parameters; the
loops over tags and entries are given rounds, which are as many as the input has bytes.
-/
namespace PiJade.CryptoOutput
open CborRpc Text
open SettingsCodec (ascii)
open DescriptorText (Stop refuse BIP32_MAX_CHILD_INDEX MAX_ALLOWED_SIGNERS MAX_DESCRIPTOR_SCRIPT_LEN)
open Wallet (MAX_PATH_LEN MAX_PATH_STR_LEN EC_PUBLIC_KEY_LEN harden)
set_option linter.unusedSimpArgs false

/-! ### The libraries -/

/-- The calls of the CBOR library that step through nested items, beside those that messages need. -/
structure Stepping (V : Type) extends Tinycbor V where
  cbor_value_is_boolean : V → Bool
  cbor_value_get_boolean : V → Option Bool
  cbor_value_get_tag : V → Option Nat
  cbor_value_advance : V → Option V

def BIP32_VER_MAIN_PUBLIC : UInt32 := 0x0488B21E
def BIP32_VER_TEST_PUBLIC : UInt32 := 0x043587CF
def BIP32_KEY_FINGERPRINT_LEN : Nat := 4
def WALLY_BIP32_CHAIN_CODE_LEN : Nat := 32

/-- What a public key is made from (`bip32_key_init`). -/
structure KeyParts where
  version : UInt32
  depth : Nat
  child_num : UInt32
  chain_code : Bytes
  pub_key : Bytes
  parent160 : Bytes
  deriving DecidableEq, Repr

/-- The keys of libwally. A call that fails gives nothing. -/
structure HdKeys (K : Type) where
  bip32_key_init : KeyParts → Option K
  bip32_key_to_base58 : K → Option Bytes

/-! ### Constants -/

def UR_TAG_OUTPUT : Nat := 308
def UR_TAG_OUTPUT_NEW : Nat := 40308
def UR_TAG_SH : Nat := 400
def UR_TAG_WSH : Nat := 401
def UR_TAG_PKH : Nat := 403
def UR_TAG_WPKH : Nat := 404
def UR_TAG_MULTI : Nat := 406
def UR_TAG_SORTEDMULTI : Nat := 407
def UR_TAG_HDKEY : Nat := 303
def UR_TAG_HDKEY_NEW : Nat := 40303
def UR_TAG_KEYPATH : Nat := 304
def UR_TAG_KEYPATH_NEW : Nat := 40304
def UR_TAG_USEINFO : Nat := 305
def UR_TAG_USEINFO_NEW : Nat := 40305

def UR_ERR_UNSUPPORTED : String := "Unsupported descriptor"
def UR_ERR_INVALID : String := "Invalid descriptor"
def UR_ERR_TOO_LARGE : String := "Descriptor too large"
def UR_ERR_TOO_MANY : String := "Too many signers"

def UINT32_MAX : Nat := 2 ^ 32 - 1

/-! ### Numbers in a text -/

/-- As printed by `%08x`. -/
def hex8 (n : Nat) : Bytes :=
  (List.range 8).map fun i => DescriptorText.hexDigit (n / 16 ^ (7 - i) % 16)

def uint32_to_be (val : UInt32) : Bytes :=
  [(val >>> 24).toUInt8, (val >>> 16).toUInt8, (val >>> 8).toUInt8, val.toUInt8]

section
variable {V K : Type} (cbor : Stepping V) (keys : HdKeys K) (rounds : Nat)

/-! ### Steps -/

def cbor_value_is_tag (value : V) : Bool := cbor.cbor_value_get_type value == .tag

/-- The tag, and the item behind it. -/
def skip_one_tag (value : V) : Option (Nat × V) :=
  if !cbor_value_is_tag cbor value then none
  else do
    let tag ← cbor.cbor_value_get_tag value
    let next ← cbor.cbor_value_advance_fixed value
    some (tag, next)

/-- The item behind the tag, if it is one of the two. -/
def skip_tag_if (value : V) (a b : Nat) : Option V :=
  if !cbor_value_is_tag cbor value then none
  else do
    let tag ← cbor.cbor_value_get_tag value
    if tag ≠ a ∧ tag ≠ b then none else cbor.cbor_value_advance_fixed value

/-- The item behind the tag, or the item as it is where there is no such tag. -/
def behindTag (value : V) (a b : Nat) : V := (skip_tag_if cbor value a b).getD value

/-- Behind all tags and the item they are on. -/
def advance_over_value : Nat → V → Check Stop (Option V)
  | 0, _ => .error (.error .diverged)
  | rounds + 1, value =>
    if cbor_value_is_tag cbor value then
      match cbor.cbor_value_advance_fixed value with
      | none => .ok none
      | some next => advance_over_value rounds next
    else .ok (cbor.cbor_value_advance value)

/-- The number under a key, and the item behind it. -/
def readKey (it : V) : Option (Nat × V) :=
  if !cbor.cbor_value_is_unsigned_integer it then none
  else do
    let key ← cbor.cbor_value_get_uint64 it
    let next ← cbor.cbor_value_advance it
    some (key, next)

/-- The loop of `map_keys_are_unique_uints`, with the bits of the keys that were seen. -/
def keysFrom : Nat → UInt64 → V → Check Stop Bool
  | 0, _, _ => .error (.error .diverged)
  | left + 1, seen, it =>
    if cbor.cbor_value_at_end it then .ok true
    else
      match readKey cbor it with
      | none => .ok false
      | some (key, it) =>
        if cbor.cbor_value_at_end it then .ok false
        else
          let bit : UInt64 := 1 <<< UInt64.ofNat key
          if key < 64 ∧ seen &&& bit ≠ 0 then .ok false
          else do
            match ← advance_over_value cbor rounds it with
            | none => pure false
            | some it => keysFrom left (if key < 64 then seen ||| bit else seen) it

def map_keys_are_unique_uints (map : V) : Check Stop Bool :=
  if !cbor_value_is_map cbor.toTinycbor map then .ok false
  else
    match cbor.cbor_value_enter_container map with
    | none => .ok false
    | some it => keysFrom cbor rounds rounds 0 it

/-- The loop of `map_find_uint_key`. -/
def findFrom (wanted : Nat) : Nat → V → Check Stop (Option V)
  | 0, _ => .error (.error .diverged)
  | left + 1, it =>
    if cbor.cbor_value_at_end it then .ok none
    else
      match readKey cbor it with
      | none => .ok none
      | some (key, it) =>
        if key = wanted then .ok (some it)
        else do
          match ← advance_over_value cbor rounds it with
          | none => pure none
          | some it => findFrom wanted left it

/-- The value under a number, with its tags. -/
def map_find_uint_key (map : V) (wanted : Nat) : Check Stop (Option V) :=
  if !cbor_value_is_map cbor.toTinycbor map then .ok none
  else
    match cbor.cbor_value_enter_container map with
    | none => .ok none
    | some it => findFrom cbor rounds wanted rounds it

def get_uint32 (value : V) : Option Nat :=
  if !cbor.cbor_value_is_unsigned_integer value then none
  else do
    let v ← cbor.cbor_value_get_uint64 value
    if UINT32_MAX < v then none else some v

def getBoolean (value : V) : Option Bool :=
  if !cbor.cbor_value_is_boolean value then none else cbor.cbor_value_get_boolean value

/-! ### Paths -/

/-- A number, whether it is hardened, and the item behind both. -/
def readComponent (it : V) : Option (Nat × Bool × V) := do
  let index ← get_uint32 cbor it
  if BIP32_MAX_CHILD_INDEX < index then none
  else
    let it ← cbor.cbor_value_advance it
    let hardened ← getBoolean cbor it
    let it ← cbor.cbor_value_advance it
    some (index, hardened, it)

/-- What `origin_components_to_path` has printed and counted. -/
structure Origin where
  path : Bytes
  count : Nat
  last_child : UInt32
  deriving DecidableEq, Repr

def Origin.empty : Origin where
  path := []
  count := 0
  last_child := 0

/-- One more step behind a path. -/
def Origin.step (origin : Origin) (index : Nat) (hardened : Bool) : Origin where
  path := origin.path ++ ((if origin.count = 0 then [] else ascii "/") ++ decimal index ++ if hardened then ascii "h" else [])
  count := origin.count + 1
  last_child := if hardened then harden (UInt32.ofNat index) else UInt32.ofNat index

/-- The loop of `origin_components_to_path`. -/
def componentsFrom (path_len : Nat) : Nat → Origin → V → Check Stop (Option Origin)
  | 0, _, _ => .error (.error .diverged)
  | left + 1, origin, it =>
    if cbor.cbor_value_at_end it then .ok (some origin)
    else if origin.count ≥ MAX_PATH_LEN then .ok none
    else
      match readComponent cbor it with
      | none => .ok none
      | some (index, hardened, it) =>
        if (origin.step index hardened).path.length ≥ path_len then .ok none
        else componentsFrom path_len left (origin.step index hardened) it

def origin_components_to_path (array : V) (path_len : Nat) : Check Stop (Option Origin) := do
  Check.ensure (path_len ≥ MAX_PATH_STR_LEN MAX_PATH_LEN)
  if !cbor_value_is_array cbor.toTinycbor array then pure none
  else
    match cbor.cbor_value_enter_container array with
    | none => pure none
    | some it => componentsFrom cbor path_len rounds .empty it

/-- The two numbers of the pair, if neither is hardened. -/
def readPair (pair : V) : Option (Nat × Nat) := do
  let a ← get_uint32 cbor pair
  let pair ← cbor.cbor_value_advance pair
  let ha ← getBoolean cbor pair
  let pair ← cbor.cbor_value_advance pair
  let b ← get_uint32 cbor pair
  let pair ← cbor.cbor_value_advance pair
  let hb ← getBoolean cbor pair
  if ha ∨ hb ∨ BIP32_MAX_CHILD_INDEX < a ∨ BIP32_MAX_CHILD_INDEX < b then none else some (a, b)

/-- The length of an array, if that is what it is. -/
def arrayLength (value : V) : Option Nat :=
  if !cbor_value_is_array cbor.toTinycbor value then none else cbor.cbor_value_get_array_length value

/-- Behind the pair are an empty array and `false`, and nothing else. -/
def endsInWildcard (it : V) : Option Unit := do
  let it ← cbor.cbor_value_advance it
  let wild_len ← arrayLength cbor it
  if wild_len ≠ 0 then none
  else
    let it ← cbor.cbor_value_advance it
    let wild_hardened ← getBoolean cbor it
    if wild_hardened then none
    else
      let it ← cbor.cbor_value_advance it
      if cbor.cbor_value_at_end it then some () else none

def childText (a b : Nat) : Bytes := ascii "/<" ++ decimal a ++ ascii ";" ++ decimal b ++ ascii ">/*"

def children_to_child_path (array : V) (child_len : Nat) : Option Bytes :=
  if !cbor_value_is_array cbor.toTinycbor array then none
  else do
    let it ← cbor.cbor_value_enter_container array
    let pair_len ← arrayLength cbor it
    if pair_len ≠ 4 then none
    else
      let pair ← cbor.cbor_value_enter_container it
      let (a, b) ← readPair cbor pair
      endsInWildcard cbor it
      if (childText a b).length < child_len then some (childText a b) else none

/-! ### Keys -/

/-- The path of a key, the fingerprint it starts from, and the depth. -/
structure KeyOrigin where
  path : Origin
  fingerprint : Nat
  depth : Nat
  deriving DecidableEq, Repr

/-- A private key is refused, and so is an entry that does not say whether it is one. -/
def refusePrivate (value : V) : Check Stop Unit := do
  match ← map_find_uint_key cbor rounds value 2 with
  | none => pure ()
  | some item => if getBoolean cbor item = some false then pure () else refuse UR_ERR_UNSUPPORTED

/-- The string under a number, which has that many bytes. -/
def readBytes (value : V) (wanted size : Nat) : Check Stop Bytes := do
  match ← map_find_uint_key cbor rounds value wanted with
  | none => refuse UR_ERR_INVALID
  | some item =>
    if !cbor_value_is_byte_string cbor.toTinycbor item then refuse UR_ERR_INVALID
    else
      match cbor.cbor_value_copy_byte_string item size with
      | none => refuse UR_ERR_INVALID
      | some (data, len) => if len ≠ size then refuse UR_ERR_INVALID else pure (data.take size)

/-- The number under another, or zero where there is none. -/
def readNumber (value : V) (wanted : Nat) (most : Nat) (errmsg : String) : Check Stop Nat := do
  match ← map_find_uint_key cbor rounds value wanted with
  | none => pure 0
  | some field =>
    match get_uint32 cbor field with
    | none => refuse errmsg
    | some number => if most < number then refuse errmsg else pure number

/-- The version for the network that is declared. -/
def readVersion (value : V) : Check Stop UInt32 := do
  match ← map_find_uint_key cbor rounds value 5 with
  | none => pure BIP32_VER_MAIN_PUBLIC
  | some item => do
    let item := behindTag cbor item UR_TAG_USEINFO UR_TAG_USEINFO_NEW
    if !(← map_keys_are_unique_uints cbor rounds item) then refuse UR_ERR_UNSUPPORTED
    else
      let _coin_type ← readNumber cbor rounds item 1 0 UR_ERR_UNSUPPORTED
      let net ← readNumber cbor rounds item 2 1 UR_ERR_UNSUPPORTED
      pure (if net ≠ 0 then BIP32_VER_TEST_PUBLIC else BIP32_VER_MAIN_PUBLIC)

/-- The path of an origin. -/
def readPath (origin : V) : Check Stop Origin := do
  match ← map_find_uint_key cbor rounds origin 1 with
  | none => refuse UR_ERR_UNSUPPORTED
  | some item =>
    match ← origin_components_to_path cbor rounds item (MAX_PATH_STR_LEN MAX_PATH_LEN) with
    | none => refuse UR_ERR_UNSUPPORTED
    | some path => pure path

def readFingerprint (origin : V) : Check Stop Nat := do
  match ← map_find_uint_key cbor rounds origin 2 with
  | none => refuse UR_ERR_UNSUPPORTED
  | some item =>
    match get_uint32 cbor item with
    | none => refuse UR_ERR_UNSUPPORTED
    | some fingerprint => pure fingerprint

/-- The depth that is declared, or else the length of the path. -/
def readDepth (origin : V) (count : Nat) : Check Stop Nat := do
  match ← map_find_uint_key cbor rounds origin 3 with
  | none => pure count
  | some item =>
    match get_uint32 cbor item with
    | none => refuse UR_ERR_INVALID
    | some declared_depth => if 255 < declared_depth then refuse UR_ERR_INVALID else pure declared_depth

def readOrigin (value : V) : Check Stop KeyOrigin := do
  match ← map_find_uint_key cbor rounds value 6 with
  | none => refuse UR_ERR_UNSUPPORTED
  | some origin => do
    let origin := behindTag cbor origin UR_TAG_KEYPATH UR_TAG_KEYPATH_NEW
    if !(← map_keys_are_unique_uints cbor rounds origin) then refuse UR_ERR_UNSUPPORTED
    else
      let path ← readPath cbor rounds origin
      let fingerprint ← readFingerprint cbor rounds origin
      let depth ← readDepth cbor rounds origin path.count
      pure { path, fingerprint, depth }

/-- The child path of the components of a path. -/
def readComponents (item : V) : Check Stop Bytes := do
  match ← map_find_uint_key cbor rounds item 1 with
  | none => refuse UR_ERR_UNSUPPORTED
  | some components =>
    match children_to_child_path cbor components 32 with
    | none => refuse UR_ERR_UNSUPPORTED
    | some child => pure child

/-- The child path, which is `/<0;1>/*` where none is declared. -/
def readChild (value : V) : Check Stop Bytes := do
  match ← map_find_uint_key cbor rounds value 7 with
  | none => pure (ascii "/<0;1>/*")
  | some item => do
    let item := behindTag cbor item UR_TAG_KEYPATH UR_TAG_KEYPATH_NEW
    if !(← map_keys_are_unique_uints cbor rounds item) then refuse UR_ERR_UNSUPPORTED
    else readComponents cbor rounds item

/-- The key in base58. -/
def xpubText (parts : KeyParts) : Option Bytes := do
  let hdkey ← keys.bip32_key_init parts
  keys.bip32_key_to_base58 hdkey

/-- `[fp/path]xpub/<a;b>/*`; without a path there is no slash. -/
def keyText (fingerprint : Nat) (path xpub child : Bytes) : Bytes :=
  ascii "[" ++ hex8 fingerprint ++ (if path = [] then [] else ascii "/" ++ path) ++ ascii "]" ++ xpub ++ child

/-- The text of a key, and the key without its tag. -/
def hdkey_to_text (value : V) (out_len : Nat) : Check Stop (Bytes × V) := do
  let value := behindTag cbor value UR_TAG_HDKEY UR_TAG_HDKEY_NEW
  if !(← map_keys_are_unique_uints cbor rounds value) then refuse UR_ERR_UNSUPPORTED
  else
    refusePrivate cbor rounds value
    let key ← readBytes cbor rounds value 3 EC_PUBLIC_KEY_LEN
    let chain_code ← readBytes cbor rounds value 4 WALLY_BIP32_CHAIN_CODE_LEN
    let version ← readVersion cbor rounds value
    let origin ← readOrigin cbor rounds value
    let parent_fingerprint ← readNumber cbor rounds value 8 UINT32_MAX UR_ERR_INVALID
    let child ← readChild cbor rounds value
    let child_num := if origin.depth ≠ 0 then origin.path.last_child else 0
    let parts := ⟨version, origin.depth, child_num, chain_code, key, uint32_to_be (UInt32.ofNat parent_fingerprint)⟩
    match xpubText keys parts with
    | none => refuse UR_ERR_INVALID
    | some xpub =>
      let text := keyText origin.fingerprint origin.path.path xpub child
      if text.length ≥ out_len then refuse UR_ERR_TOO_LARGE else pure (text, value)

/-! ### Outputs -/

/-- `APPEND_TEXT`. -/
def appendText (text_len : Nat) (text str : Bytes) : Check Stop Bytes :=
  if text.length + str.length ≥ text_len then refuse UR_ERR_TOO_LARGE else .ok (text ++ str)

/-- The loop over the keys of a `multi`. -/
def keysText (text_len : Nat) : Nat → Bytes → V → Check Stop Bytes
  | 0, text, _ => .ok text
  | left + 1, text, key => do
    let text ← appendText text_len text (ascii ",")
    let written ← hdkey_to_text cbor keys rounds key (text_len - text.length)
    match ← advance_over_value cbor rounds written.2 with
    | none => refuse UR_ERR_INVALID
    | some key => keysText text_len left (text ++ written.1) key

/-- How many keys have to sign. -/
def readThreshold (value : V) : Check Stop Nat := do
  match ← map_find_uint_key cbor rounds value 1 with
  | none => refuse UR_ERR_INVALID
  | some item =>
    match get_uint32 cbor item with
    | none => refuse UR_ERR_INVALID
    | some threshold => if threshold = 0 then refuse UR_ERR_INVALID else pure threshold

/-- The head of a script for many keys, and the keys. -/
def multiKeys (text_len : Nat) (text : Bytes) (multi_tag threshold : Nat) (value : V) : Check Stop Bytes := do
  match ← map_find_uint_key cbor rounds value 2 with
  | none => refuse UR_ERR_INVALID
  | some list =>
    match arrayLength cbor list with
    | none => refuse UR_ERR_INVALID
    | some num_keys =>
      if num_keys = 0 then refuse UR_ERR_INVALID
      else if num_keys > MAX_ALLOWED_SIGNERS then refuse UR_ERR_TOO_MANY
      else if threshold > num_keys then refuse UR_ERR_INVALID
      else
        let head := ascii (if multi_tag = UR_TAG_SORTEDMULTI then "sortedmulti" else "multi") ++ ascii "(" ++ decimal threshold
        let text ← appendText text_len text (head.take 23)
        match cbor.cbor_value_enter_container list with
        | none => refuse UR_ERR_INVALID
        | some key => keysText cbor keys rounds text_len num_keys text key

/-- What is behind the tag of a `wsh`. -/
def multiText (text_len : Nat) (text : Bytes) (value : V) : Check Stop Bytes :=
  match skip_one_tag cbor value with
  | none => refuse UR_ERR_UNSUPPORTED
  | some (multi_tag, value) =>
    if multi_tag ≠ UR_TAG_MULTI ∧ multi_tag ≠ UR_TAG_SORTEDMULTI then refuse UR_ERR_UNSUPPORTED
    else do
      if !(← map_keys_are_unique_uints cbor rounds value) then refuse UR_ERR_UNSUPPORTED
      else
        let threshold ← readThreshold cbor rounds value
        multiKeys cbor keys rounds text_len text multi_tag threshold value

/-- `closers` closing parentheses. -/
def closeText (text_len : Nat) : Nat → Bytes → Check Stop Bytes
  | 0, text => .ok text
  | closers + 1, text => do
    let text ← appendText text_len text (ascii ")")
    closeText text_len closers text

/-- What is behind the first tag that is no `sh`. -/
def scriptText (text_len closers : Nat) (text : Bytes) (tag : Nat) (value : V) : Check Stop Bytes :=
  if tag = UR_TAG_WSH then do
    let text ← appendText text_len text (ascii "wsh(")
    let text ← multiText cbor keys rounds text_len text value
    closeText text_len (closers + 2) text
  else if tag = UR_TAG_WPKH ∨ tag = UR_TAG_PKH then do
    let text ← appendText text_len text (ascii (if tag = UR_TAG_WPKH then "wpkh(" else "pkh("))
    let written ← hdkey_to_text cbor keys rounds value (text_len - text.length)
    closeText text_len (closers + 1) (text ++ written.1)
  else refuse UR_ERR_UNSUPPORTED

end

section
variable {V K : Type} (cbor : Stepping V) (keys : HdKeys K)

def bcur_parse_crypto_output (input : Bytes) (text_len : Nat) : Check Stop Bytes := do
  Check.ensure (input.length ≠ 0)
  Check.ensure (text_len > MAX_DESCRIPTOR_SCRIPT_LEN)
  let rounds := input.length + 1
  match rpc_untrusted_parser_init cbor.toTinycbor input with
  | none => refuse UR_ERR_INVALID
  | some value => do
    let value := behindTag cbor value UR_TAG_OUTPUT UR_TAG_OUTPUT_NEW
    let inner := skip_tag_if cbor value UR_TAG_SH UR_TAG_SH
    let text ← if inner.isSome then appendText text_len [] (ascii "sh(") else pure []
    match skip_one_tag cbor (inner.getD value) with
    | none => refuse UR_ERR_UNSUPPORTED
    | some (tag, value) => scriptText cbor keys rounds text_len (if inner.isSome then 1 else 0) text tag value

end

end PiJade.CryptoOutput
