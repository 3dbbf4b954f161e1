import PiJade.Process
import PiJade.SettingsCodec
import PiJade.Text

/-!
Descriptor text (`main/descriptor_text.c`). A scanned text, or the member of a JSON export,
is stripped of its checksum and whitespace and walked once: each key expression becomes a
placeholder and a canonical child path, everything else is copied. The hash behind a record's
name is a parameter.
-/
namespace PiJade.DescriptorText
open Text
open SettingsCodec (ascii)
set_option linter.unusedSimpArgs false

def MAX_ALLOWED_SIGNERS : Nat := 15
def MAX_DESCRIPTOR_NAME_SIZE : Nat := 16
def MAX_DESCRIPTOR_SCRIPT_LEN : Nat := 512
/-- The size of the value of a `string_value_t`. -/
def VALUE_LEN : Nat := 160
def BIP32_MAX_CHILD_INDEX : Nat := 2 ^ 31 - 1

def ERR_INVALID : String := "Invalid descriptor"
def ERR_UNSUPPORTED : String := "Unsupported descriptor"
def ERR_TOO_LARGE : String := "Descriptor too large"
def ERR_KEY_TOO_LONG : String := "Descriptor key too long"
def ERR_TOO_MANY : String := "Too many signers"

/-- How parsing ends without a descriptor. -/
inductive Stop where
  | errmsg (text : String)
  | diverged
  deriving DecidableEq, Repr

def refuse {α : Type} (text : String) : Check Stop α := .error (.error (.errmsg text))

/-- `string_value_t`. -/
structure StringValue where
  key : Bytes
  value : Bytes
  deriving DecidableEq, Repr

inductive DescriptorType where
  | UNKNOWN | MINISCRIPT_ONLY | MIXED
  deriving DecidableEq, Repr

/-- `descriptor_data_t`. -/
structure DescriptorData where
  script : Bytes
  values : List StringValue
  type : DescriptorType
  deriving DecidableEq, Repr

/-! ### The checksum -/

def generators : List UInt64 := [0xf5dee51989, 0xa9fdca3312, 0x1bab10e32d, 0x3706b1677a, 0x644d626ffd]

def descriptor_checksum_polymod (chk : UInt64) (value : UInt8) : UInt64 :=
  let top := chk >>> 35
  (generators.zipIdx).foldl (fun chk entry => if (top >>> UInt64.ofNat entry.2) &&& 1 = 1 then chk ^^^ entry.1 else chk)
    (((chk &&& 0x7ffffffff) <<< 5) ^^^ value.toUInt64)

def input_charset : Bytes :=
  ascii "0123456789()[],'/*abcdefgh@:$%\x7b\x7dIJKLMNOPQRSTUVWXYZ&+-.;<=>?!^_|~ijklmnopqrstuvwxyzABCDEFGH`#\"\\ "

def checksum_charset : Bytes := ascii "qpzry9x8gf2tvdw0s3jn54khce6mua7l"

structure Checksum where
  chk : UInt64
  group : UInt8
  group_len : Nat

def Checksum.add (sum : Checksum) (c : UInt8) : Option Checksum :=
  match input_charset.idxOf? c with
  | none => none
  | some value =>
    let chk := descriptor_checksum_polymod sum.chk (UInt8.ofNat (value % 32))
    let group := sum.group * 3 + UInt8.ofNat (value / 32)
    if sum.group_len + 1 = 3 then some ⟨descriptor_checksum_polymod chk group, 0, 0⟩
    else some ⟨chk, group, sum.group_len + 1⟩

def descriptor_checksum_valid (text checksum : Bytes) : Bool :=
  match text.foldlM Checksum.add ⟨1, 0, 0⟩ with
  | none => false
  | some sum =>
    let chk := if sum.group_len ≠ 0 then descriptor_checksum_polymod sum.chk sum.group else sum.chk
    let chk := (List.range 8).foldl (fun chk _ => descriptor_checksum_polymod chk 0) chk ^^^ 1
    (List.range 8).all fun i =>
      checksum.getD i 0 == checksum_charset.getD ((chk >>> UInt64.ofNat (5 * (7 - i))) &&& 31).toNat 0

/-! ### JSON exports -/

def skip_ws (p : Bytes) : Bytes := p.dropWhile isspace

/-- Past the closing quote of a string, from behind its opening quote. -/
def json_skip_string : Bytes → Option Bytes
  | [] => none
  | c :: rest =>
    if c = '"'.toUInt8 then some rest
    else if c = '\\'.toUInt8 then
      match rest with
      | [] => none
      | _ :: rest => json_skip_string rest
    else json_skip_string rest

def json_skip_value : Nat → Nat → Bytes → Option Bytes
  | 0, _, _ => none
  | _, _, [] => none
  | rounds + 1, depth, c :: rest =>
    if c = '"'.toUInt8 then
      match json_skip_string rest with
      | none => none
      | some p => if depth = 0 then some p else json_skip_value rounds depth p
    else if c = '{'.toUInt8 ∨ c = '['.toUInt8 then json_skip_value rounds (depth + 1) rest
    else if c = '}'.toUInt8 ∨ c = ']'.toUInt8 then
      if depth = 0 then some (c :: rest)
      else if depth = 1 then some rest
      else json_skip_value rounds (depth - 1) rest
    else if c = ','.toUInt8 ∧ depth = 0 then some (c :: rest)
    else json_skip_value rounds depth rest

/-- The value of a member, from the opening brace or a separator. -/
def findMember (key : Bytes) : Nat → Bytes → Option Bytes
  | 0, _ => none
  | rounds + 1, p =>
    let p := skip_ws (p.drop 1)
    if p.head? ≠ some '"'.toUInt8 then none
    else
      let name := p.drop 1
      match json_skip_string name with
      | none => none
      | some p =>
        let found := (name.take (name.length - p.length - 1)).map tolower = key.map tolower
        let p := skip_ws p
        if p.head? ≠ some ':'.toUInt8 then none
        else
          let p := skip_ws (p.drop 1)
          if found then some p
          else
            match json_skip_value (p.length + 1) 0 p with
            | none => none
            | some p =>
              let p := skip_ws p
              if p.head? ≠ some ','.toUInt8 then none else findMember key rounds p

def copyString (out_len : Nat) : Bytes → Bytes → Option Bytes
  | _, [] => none
  | out, c :: rest =>
    if c = '"'.toUInt8 then some out
    else if c = '\\'.toUInt8 then
      match rest with
      | [] => none
      | e :: rest =>
        if e ≠ '"'.toUInt8 ∧ e ≠ '\\'.toUInt8 ∧ e ≠ '/'.toUInt8 then none
        else if out.length + 1 ≥ out_len then none
        else copyString out_len (out ++ [e]) rest
    else if out.length + 1 ≥ out_len then none
    else copyString out_len (out ++ [c]) rest

def json_get_string (json key : Bytes) (out_len : Nat) : Option Bytes :=
  let p := skip_ws json
  if p.head? ≠ some '{'.toUInt8 then none
  else
    match findMember key (p.length + 1) p with
    | none => none
    | some p => if p.head? ≠ some '"'.toUInt8 then none else copyString out_len [] (p.drop 1)

/-! ### Key expressions -/

/-- Up to ten digits. -/
def digits (p : Bytes) : Bytes := (p.take 10).takeWhile isdigit

def canonical_child (rest : Bytes) (child_len : Nat) : Option Bytes :=
  if rest = ascii "/**" then some (ascii "/<0;1>/*")
  else if rest.length < 8 ∨ rest.getD 0 0 ≠ '/'.toUInt8 ∨ (rest.getD 1 0 ≠ '<'.toUInt8 ∧ rest.getD 1 0 ≠ '{'.toUInt8) then
    none
  else
    let sep := if rest.getD 1 0 = '<'.toUInt8 then ';'.toUInt8 else ','.toUInt8
    let close := if rest.getD 1 0 = '<'.toUInt8 then '>'.toUInt8 else '}'.toUInt8
    let p := rest.drop 2
    let a := digits p
    let p := p.drop a.length
    if a = [] ∨ number a > BIP32_MAX_CHILD_INDEX ∨ p.head? ≠ some sep then none
    else
      let p := p.drop 1
      let b := digits p
      let p := p.drop b.length
      if b = [] ∨ number b > BIP32_MAX_CHILD_INDEX ∨ p.head? ≠ some close then none
      else if p.drop 1 ≠ ascii "/*" then none
      else
        let child := ascii "/<" ++ decimal (number a) ++ ascii ";" ++ decimal (number b) ++ ascii ">/*"
        if child.length < child_len then some child else none

/-- The path of an origin up to its bracket, behind `written` bytes of a value. -/
def originPath (value_len : Nat) : Nat → Bytes → Check Stop Bytes
  | _, [] => .ok []
  | written, c :: rest =>
    if c ≠ '\''.toUInt8 ∧ ¬ (isdigit c ∨ c = '/'.toUInt8 ∨ c = 'h'.toUInt8 ∨ c = ']'.toUInt8) then refuse ERR_INVALID
    else if written + 1 ≥ value_len then refuse ERR_KEY_TOO_LONG
    else do
      let later ← originPath value_len (written + 1) rest
      return (if c = '\''.toUInt8 then 'h'.toUInt8 else c) :: later

/-- The value and the child path of a key expression. -/
def canonical_key (tok : Bytes) (value_len child_len : Nat) : Check Stop (Bytes × Bytes) :=
  if tok.getD 0 0 ≠ '['.toUInt8 then refuse ERR_UNSUPPORTED
  else
    match tok.idxOf? ']'.toUInt8 with
    | none => refuse ERR_INVALID
    | some close =>
      if close < 9 ∨ (tok.getD 9 0 ≠ '/'.toUInt8 ∧ tok.getD 9 0 ≠ ']'.toUInt8) then refuse ERR_INVALID
      else if ¬ ((tok.take 9).drop 1).all isxdigit then refuse ERR_INVALID
      else do
        let path ← originPath value_len 9 ((tok.take (close + 1)).drop 9)
        let origin := (tok.take 9).map tolower ++ path
        let key := (tok.drop (close + 1)).takeWhile (· ≠ '/'.toUInt8)
        if key = [] then refuse ERR_INVALID
        else if origin.length + key.length + 1 > value_len then refuse ERR_KEY_TOO_LONG
        else
          match canonical_child ((tok.drop (close + 1)).dropWhile (· ≠ '/'.toUInt8)) child_len with
          | none => refuse ERR_UNSUPPORTED
          | some child => return (origin ++ key, child)

/-- The length of a key token: up to the first comma or parenthesis outside a group. -/
def token_end (group : Int) : Bytes → Nat
  | [] => 0
  | c :: rest =>
    if c = '['.toUInt8 ∨ c = '<'.toUInt8 ∨ c = '{'.toUInt8 then token_end (group + 1) rest + 1
    else if c = ']'.toUInt8 ∨ c = '>'.toUInt8 ∨ c = '}'.toUInt8 then token_end (group - 1) rest + 1
    else if group = 0 ∧ (c = ','.toUInt8 ∨ c = ')'.toUInt8) then 0
    else token_end group rest + 1

def is_key_start (p : Bytes) : Bool :=
  p.head? = some '['.toUInt8 || p.take 4 = ascii "xpub" || p.take 4 = ascii "tpub"

/-! ### The walk -/

structure Walk where
  prev : UInt8
  script : Bytes
  values : List StringValue

/-- Writes the placeholder of a value, which gets an index if it is new. -/
def Walk.key (state : Walk) (value child : Bytes) : Check Stop Walk :=
  let index := state.values.findIdx fun sv => cstr sv.value = cstr value
  if index = state.values.length ∧ index ≥ MAX_ALLOWED_SIGNERS then refuse ERR_TOO_MANY
  else
    let values := if index = state.values.length then state.values ++ [⟨'@'.toUInt8 :: decimal index, cstr value⟩]
      else state.values
    let text := '@'.toUInt8 :: decimal index ++ child
    if text.length ≥ MAX_DESCRIPTOR_SCRIPT_LEN - state.script.length then refuse ERR_TOO_LARGE
    else .ok { state with script := state.script ++ text, values := values }

def walk : Nat → Walk → Bytes → Check Stop Walk
  | _, state, [] => .ok state
  | 0, _, _ => .error (.error .diverged)
  | rounds + 1, state, c :: rest =>
    if (state.prev = '('.toUInt8 ∨ state.prev = ','.toUInt8) ∧ is_key_start (c :: rest) then do
      let tend := token_end 0 (c :: rest)
      let found ← canonical_key ((c :: rest).take tend) VALUE_LEN 32
      let state ← state.key found.1 found.2
      walk rounds state ((c :: rest).drop tend)
    else if state.script.length + 1 ≥ MAX_DESCRIPTOR_SCRIPT_LEN then refuse ERR_TOO_LARGE
    else walk rounds { state with prev := c, script := state.script ++ [c] } rest

/-- The text of a scan, or of a member of a JSON export with its label. -/
def unwrap (text : Bytes) : Check Stop (Bytes × Bytes) :=
  let p := skip_ws text
  if p.head? = some '{'.toUInt8 then
    match json_get_string p (ascii "descriptor") (text.length + 1) with
    | none => refuse ERR_INVALID
    | some work => .ok (work, cstr ((json_get_string p (ascii "label") (MAX_DESCRIPTOR_NAME_SIZE * 4)).getD []))
  else .ok (p, [])

/-- Verifies the checksum, if there is one, and removes it with all whitespace. -/
def strip (work : Bytes) : Check Stop Bytes :=
  let work := (work.reverse.dropWhile isspace).reverse
  match work.idxOf? '#'.toUInt8 with
  | none => .ok (work.filter fun c => !isspace c)
  | some hash =>
    if work.length - hash ≠ 9 ∨ ¬ descriptor_checksum_valid (work.take hash) (work.drop (hash + 1)) then refuse ERR_INVALID
    else .ok ((work.take hash).filter fun c => !isspace c)

def hexDigit (n : Nat) : UInt8 := UInt8.ofNat (if n < 10 then 48 + n else 87 + n)

def make_hash_name (sha256 : Bytes → Bytes) (script : Bytes) (values : List StringValue) : Bytes :=
  let hash := sha256 (script ++ values.flatMap fun sv => sv.key ++ sv.value)
  ascii "desc-" ++ (hash.take 4).flatMap fun b => [hexDigit (b.toNat / 16), hexDigit (b.toNat % 16)]

def recordName (sha256 : Bytes → Bytes) (label script : Bytes) (values : List StringValue) : Bytes :=
  let name := (label.filterMap fun c => if c = 32 then some '_'.toUInt8 else if isgraph c then some c else none).take
    (MAX_DESCRIPTOR_NAME_SIZE - 1)
  if name = [] then make_hash_name sha256 script values else name

/-- The scanned descriptor, without whitespace and checksum. -/
def scanned (text : Bytes) : Check Stop Bytes := do
  let unwrapped ← unwrap text
  strip unwrapped.1

def descriptor_text_parse (sha256 : Bytes → Bytes) (text : Bytes) : Check Stop (DescriptorData × Bytes) := do
  Check.ensure (text.length ≠ 0)
  let unwrapped ← unwrap text
  let work ← strip unwrapped.1
  if work = [] then refuse ERR_INVALID
  else
    let state ← walk work.length ⟨'('.toUInt8, [], []⟩ work
    if state.values = [] then refuse ERR_UNSUPPORTED
    else
      return (⟨state.script, state.values, .UNKNOWN⟩, recordName sha256 unwrapped.2 state.script state.values)

end PiJade.DescriptorText
