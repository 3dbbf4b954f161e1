import PiJade.Process
import PiJade.Shamir

/-!
Recovery of a master secret from SLIP39 shares (`main/slip39.c`): the reading of one share
from its words, the collection of shares that belong together, and their combination. The
word list and the two primitives of the crypto library are parameters.
-/
namespace PiJade.Slip39
set_option linter.unusedSimpArgs false
open Shamir (shamir_interpolate)

def SLIP39_WORD_COUNT : Nat := 1024
def SLIP39_MAX_GROUPS : Nat := 16
def SLIP39_MAX_MEMBERS : Nat := 16
def SLIP39_SHORT_SHARE_WORDS : Nat := 20
def SLIP39_LONG_SHARE_WORDS : Nat := 33
def SLIP39_SHARE_VALUE_MAX : Nat := 32
def SLIP39_MASTER_SECRET_MAX : Nat := 32
def RADIX_BITS : Nat := 10
def ID_EXP_LENGTH_WORDS : Nat := 2
def CHECKSUM_LENGTH_WORDS : Nat := 3
def METADATA_LENGTH_WORDS : Nat := ID_EXP_LENGTH_WORDS + 2 + CHECKSUM_LENGTH_WORDS
def DIGEST_LENGTH_BYTES : Nat := 4
def BASE_ITERATION_COUNT : UInt32 := 10000
def ROUND_COUNT : UInt32 := 4
def SECRET_INDEX : UInt8 := 255
def DIGEST_INDEX : UInt8 := 254
def PASSPHRASE_MAX_LEN : Nat := 100

/-- `slip39_err_t`. -/
inductive Err where
  | OK
  | ERR_WORD
  | ERR_LENGTH
  | ERR_CHECKSUM
  | ERR_FORMAT
  | ERR_SET
  | ERR_DUPLICATE
  | ERR_GROUP_FULL
  | ERR_GROUPS_FULL
  | ERR_INCOMPLETE
  | ERR_DIGEST
  deriving DecidableEq, Repr

inductive Fault where
  | out_of_bounds
  deriving DecidableEq, Repr

/-- `slip39_share_t`; the value is as long as `value_len` says. -/
structure Share where
  identifier : UInt16
  extendable : Bool
  iteration_exponent : Nat
  group_index : Nat
  group_threshold : Nat
  group_count : Nat
  member_index : UInt8
  member_threshold : Nat
  value : Bytes
  deriving DecidableEq

/-- `slip39_group_t`: the threshold, and the index and the value of each share so far. -/
structure Group where
  threshold : Nat
  members : List (UInt8 × Bytes)
  deriving DecidableEq

def Group.count (group : Group) : Nat := group.members.length

/-- `slip39_ctx_t`. -/
structure Ctx where
  started : Bool
  identifier : UInt16
  extendable : Bool
  iteration_exponent : Nat
  group_threshold : Nat
  group_count : Nat
  value_len : Nat
  groups_started : Nat
  groups_complete : Nat
  groups : Fin SLIP39_MAX_GROUPS → Group

/-! ### One share -/

def GEN : List UInt32 :=
  [0x00E0E040, 0x01C1C080, 0x03838100, 0x07070200, 0x0E0E0009, 0x1C0C2412, 0x38086C24, 0x3090FC48, 0x21B1F890, 0x03F3F120]

def rs1024_polymod (customization : Bytes) (values : List UInt16) : UInt32 :=
  (customization.map UInt8.toUInt32 ++ values.map UInt16.toUInt32).foldl (fun chk v =>
    let b := chk >>> 20
    (GEN.zipIdx).foldl (fun chk (gen, j) => if b >>> UInt32.ofNat j &&& 1 ≠ 0 then chk ^^^ gen else chk)
      ((chk &&& 0x000FFFFF) <<< 10 ^^^ v)) 1

def lower (c : UInt8) : UInt8 := if 65 ≤ c ∧ c ≤ 90 then c + 32 else c

/-- An entry of the word list against a word in any case; an entry ends with a zero. -/
def wordlist_cmp : Bytes → Bytes → Ordering
  | entry, [] => if entry.headD 0 ≠ 0 then .gt else .eq
  | entry, ch :: rest =>
    if entry.headD 0 ≠ lower ch then (if entry.headD 0 < lower ch then .lt else .gt)
    else if entry.headD 0 = 0 then .lt
    else wordlist_cmp entry.tail rest

/-- The binary search of `slip39_word_index`; each round makes the range smaller. -/
def search (wordlist : Nat → Bytes) (word : Bytes) : Nat → Nat → Nat → Option UInt16
  | 0, _, _ => none
  | rounds + 1, lo, hi =>
    if lo < hi then
      let mid := lo + (hi - lo) / 2
      match wordlist_cmp (wordlist mid) word with
      | .eq => some (UInt16.ofNat mid)
      | .lt => search wordlist word rounds (mid + 1) hi
      | .gt => search wordlist word rounds lo mid
    else none

def slip39_word_index (wordlist : Nat → Bytes) (word : Bytes) : Option UInt16 :=
  if word.length = 0 then none else search wordlist word SLIP39_WORD_COUNT 0 SLIP39_WORD_COUNT

/-- Words are runs of bytes above the space. -/
def words (mnemonic : Bytes) : List Bytes := (mnemonic.splitOnP (· ≤ 32)).filter (·.length ≠ 0)

def lookup (wordlist : Nat → Bytes) (indices : List UInt16) : List Bytes → Except Err (List UInt16)
  | [] => .ok indices
  | word :: rest =>
    if indices.length = SLIP39_LONG_SHARE_WORDS then .error .ERR_LENGTH
    else match slip39_word_index wordlist word with
      | none => .error .ERR_WORD
      | some index => lookup wordlist (indices ++ [index]) rest

def takeBytes (acc : UInt64) : Nat → Bytes
  | bits + 8 => (acc >>> UInt64.ofNat bits).toUInt8 :: takeBytes acc bits
  | _ => []

/-- The bytes in some words, each with the bits it carries, and the bits left over. -/
def valueBytes (acc : UInt64) (bits : Nat) : List (Nat × UInt16) → Bytes × Nat
  | [] => ([], bits)
  | (nbits, word) :: rest =>
    let acc := acc <<< UInt64.ofNat nbits ||| word.toUInt64
    let later := valueBytes acc ((bits + nbits) % 8) rest
    (takeBytes acc (bits + nbits) ++ later.1, later.2)

def CUSTOMIZATION_ORIG : Bytes := [115, 104, 97, 109, 105, 114]
def CUSTOMIZATION_EXTENDABLE : Bytes := CUSTOMIZATION_ORIG ++ [95, 101, 120, 116, 101, 110, 100, 97, 98, 108, 101]

/-- The share that known words write. -/
def read_share (indices : List UInt16) : Check Fault (Except Err Share) :=
  let id_exp := (indices.getD 0 0).toUInt32 <<< 10 ||| (indices.getD 1 0).toUInt32
  let extendable := id_exp >>> 4 &&& 1 ≠ 0
  let customization := if extendable then CUSTOMIZATION_EXTENDABLE else CUSTOMIZATION_ORIG
  if rs1024_polymod customization indices ≠ 1 then .ok (.error .ERR_CHECKSUM)
  else
    let metadata := (indices.getD ID_EXP_LENGTH_WORDS 0).toUInt32 <<< 10 |||
      (indices.getD (ID_EXP_LENGTH_WORDS + 1) 0).toUInt32
    let group_threshold := (metadata >>> 12 &&& 0x0F).toNat
    let group_count := (metadata >>> 8 &&& 0x0F).toNat
    if group_count < group_threshold then .ok (.error .ERR_FORMAT)
    else
      let value_words := indices.length - METADATA_LENGTH_WORDS
      let padding_len := RADIX_BITS * value_words % 16
      let first := ID_EXP_LENGTH_WORDS + 2
      if 2 ^ (RADIX_BITS - padding_len) ≤ (indices.getD first 0).toNat then .ok (.error .ERR_FORMAT)
      else do
        let value := valueBytes 0 0 ((List.range value_words).map fun i =>
          (if i = 0 then RADIX_BITS - padding_len else RADIX_BITS, indices.getD (first + i) 0))
        Check.ensure (value.2 = 0)
        Check.ensure (value.1.length ≠ 0 && value.1.length ≤ SLIP39_SHARE_VALUE_MAX)
        pure (.ok {
          identifier := (id_exp >>> 5).toUInt16
          extendable := extendable
          iteration_exponent := (id_exp &&& 0x0F).toNat
          group_index := (metadata >>> 16 &&& 0x0F).toNat
          group_threshold := group_threshold + 1
          group_count := group_count + 1
          member_index := (metadata >>> 4 &&& 0x0F).toUInt8
          member_threshold := (metadata &&& 0x0F).toNat + 1
          value := value.1 })

def slip39_parse_share (wordlist : Nat → Bytes) (mnemonic : Bytes) : Check Fault (Except Err Share) := do
  Check.ensure (mnemonic.length ≠ 0)
  match lookup wordlist [] (words mnemonic) with
  | .error err => pure (.error err)
  | .ok indices =>
    if indices.length ≠ SLIP39_SHORT_SHARE_WORDS ∧ indices.length ≠ SLIP39_LONG_SHARE_WORDS then pure (.error .ERR_LENGTH)
    else read_share indices

/-! ### The collection -/

def slip39_init : Ctx where
  started := false
  identifier := 0
  extendable := false
  iteration_exponent := 0
  group_threshold := 0
  group_count := 0
  value_len := 0
  groups_started := 0
  groups_complete := 0
  groups := fun _ => { threshold := 0, members := [] }

/-- The first share says what backup is collected. -/
def Ctx.adopt (ctx : Ctx) (share : Share) : Ctx :=
  { ctx with
    started := true
    identifier := share.identifier
    extendable := share.extendable
    iteration_exponent := share.iteration_exponent
    group_threshold := share.group_threshold
    group_count := share.group_count
    value_len := share.value.length }

/-- The share is of the backup collected. -/
def Ctx.agrees (ctx : Ctx) (share : Share) : Bool :=
  ctx.identifier = share.identifier && ctx.extendable = share.extendable &&
    ctx.iteration_exponent = share.iteration_exponent && ctx.group_threshold = share.group_threshold &&
    ctx.group_count = share.group_count && ctx.value_len = share.value.length

/-- The last part of `slip39_add_share`: a share that is stored. -/
def Ctx.store (ctx : Ctx) (g : Fin SLIP39_MAX_GROUPS) (share : Share) : Check Fault (Err × Ctx) :=
  let group := ctx.groups g
  let threshold := if group.count = 0 then share.member_threshold else group.threshold
  if group.count < SLIP39_MAX_MEMBERS then
    let group' : Group := { threshold := threshold, members := group.members ++ [(share.member_index, share.value)] }
    .ok (.OK, { ctx with
      groups_started := if group.count = 0 then ctx.groups_started + 1 else ctx.groups_started
      groups_complete := if group'.count = group'.threshold then ctx.groups_complete + 1 else ctx.groups_complete
      groups := Function.update ctx.groups g group' })
  else .error (.error .out_of_bounds)

/-- The checks of a share against its group. -/
def Ctx.add (ctx : Ctx) (g : Fin SLIP39_MAX_GROUPS) (share : Share) : Check Fault (Err × Ctx) :=
  let group := ctx.groups g
  if group.count ≠ 0 ∧ group.threshold ≠ share.member_threshold then .ok (.ERR_SET, ctx)
  else match group.members.find? (fun member => member.1 = share.member_index) with
    | some member => .ok (if member.2 = share.value then .ERR_DUPLICATE else .ERR_SET, ctx)
    | none =>
      if group.count ≠ 0 ∧ group.count = group.threshold then .ok (.ERR_GROUP_FULL, ctx)
      else if group.count = 0 ∧ ctx.groups_started = ctx.group_threshold then .ok (.ERR_GROUPS_FULL, ctx)
      else ctx.store g share

def slip39_add_share (ctx : Ctx) (share : Share) : Check Fault (Err × Ctx) := do
  Check.ensure (share.value.length ≠ 0 && share.value.length ≤ SLIP39_SHARE_VALUE_MAX)
  if known : share.group_index < SLIP39_MAX_GROUPS then
    Check.ensure (share.member_index.toNat < SLIP39_MAX_MEMBERS)
    Check.ensure (share.member_threshold ≠ 0 && share.member_threshold ≤ SLIP39_MAX_MEMBERS)
    if !ctx.started then (ctx.adopt share).add ⟨share.group_index, known⟩ share
    else if !ctx.agrees share then pure (.ERR_SET, ctx)
    else ctx.add ⟨share.group_index, known⟩ share
  else .error .abort

def slip39_is_complete (ctx : Ctx) : Bool := ctx.started && ctx.groups_complete = ctx.group_threshold

/-! ### The combination -/

/-- What the crypto library computes. -/
structure Crypto where
  /-- `wally_hmac_sha256` of a key and a message. -/
  hmac_sha256 : Bytes → Bytes → Vector UInt8 32
  /-- `wally_pbkdf2_hmac_sha256` of a password, a salt and a cost. -/
  pbkdf2_hmac_sha256 : Bytes → Bytes → UInt32 → Vector UInt8 32

section
variable (crypto : Crypto)

/-- The first bytes of the digest of a secret. -/
def digest (random secret : Bytes) : Bytes := (crypto.hmac_sha256 random secret).toList.take DIGEST_LENGTH_BYTES

def recover_secret (threshold : Nat) (shares : List (UInt8 × Bytes)) (len : Nat) : Check Fault (Except Err Bytes) := do
  Check.ensure (threshold ≠ 0)
  if shares.length < threshold then .error (.error .out_of_bounds)
  else if threshold = 1 then pure (.ok ((shares.headD (0, [])).2.take len))
  else
    match shamir_interpolate SECRET_INDEX (shares.take threshold) len,
      shamir_interpolate DIGEST_INDEX (shares.take threshold) len with
    | some secret, some digest_share =>
      if digest crypto (digest_share.drop DIGEST_LENGTH_BYTES) secret = digest_share.take DIGEST_LENGTH_BYTES then
        pure (.ok secret)
      else pure (.error .ERR_DIGEST)
    | _, _ => pure (.error .ERR_DIGEST)

/-- The salt before the half of a round. -/
def leading_salt (identifier : UInt16) (extendable : Bool) : Bytes :=
  if extendable then [] else CUSTOMIZATION_ORIG ++ [(identifier >>> 8).toUInt8, identifier.toUInt8]

def cost (exponent : Nat) : UInt32 := BASE_ITERATION_COUNT <<< UInt32.ofNat exponent / ROUND_COUNT

def xor (f half : Bytes) : Bytes := List.zipWith (· ^^^ ·) f half

/-- The rounds of the cipher, on the two halves. -/
def rounds (round_function : UInt8 → Bytes → Bytes) : List UInt8 → Bytes × Bytes → Bytes × Bytes
  | [], halves => halves
  | round :: rest, (half_l, half_r) => rounds round_function rest (half_r, xor (round_function round half_r) half_l)

/-- One round: the first bytes of the derived key. -/
def round_function (passphrase salt : Bytes) (cost : UInt32) (half : Nat) (round : UInt8) (half_r : Bytes) : Bytes :=
  (crypto.pbkdf2_hmac_sha256 (round :: passphrase) (salt ++ half_r) cost).toList.take half

def decrypt_ems (ems passphrase : Bytes) (exponent : Nat) (identifier : UInt16) (extendable : Bool) :
    Check Fault Bytes := do
  Check.ensure (ems.length ≠ 0 && ems.length % 2 = 0 && ems.length ≤ SLIP39_MASTER_SECRET_MAX)
  Check.ensure (passphrase.length ≤ PASSPHRASE_MAX_LEN)
  let half := ems.length / 2
  let f := round_function crypto passphrase (leading_salt identifier extendable) (cost exponent) half
  let halves := rounds f [3, 2, 1, 0] (ems.take half, ems.drop half)
  pure (halves.2 ++ halves.1)

/-- The loop over the groups: the secret of each that has shares. -/
def recover_groups (ctx : Ctx) : List (Fin SLIP39_MAX_GROUPS) → List (UInt8 × Bytes) →
    Check Fault (Except Err (List (UInt8 × Bytes)))
  | [], recovered => pure (.ok recovered)
  | g :: rest, recovered =>
    if (ctx.groups g).count = 0 then recover_groups ctx rest recovered
    else do
      Check.ensure ((ctx.groups g).count = (ctx.groups g).threshold)
      match ← recover_secret crypto (ctx.groups g).threshold (ctx.groups g).members ctx.value_len with
      | .error err => pure (.error err)
      | .ok secret => recover_groups ctx rest (recovered ++ [(UInt8.ofNat g, secret)])

def slip39_combine (ctx : Ctx) (passphrase : Bytes) (master_secret_len : Nat) : Check Fault (Except Err Bytes) := do
  if !slip39_is_complete ctx then pure (.error .ERR_INCOMPLETE)
  else
    Check.ensure (master_secret_len = ctx.value_len)
    match ← recover_groups crypto ctx (List.finRange SLIP39_MAX_GROUPS) [] with
    | .error err => pure (.error err)
    | .ok groups =>
      Check.ensure (groups.length = ctx.group_threshold)
      match ← recover_secret crypto ctx.group_threshold groups ctx.value_len with
      | .error err => pure (.error err)
      | .ok ems =>
        let master_secret ← decrypt_ems crypto ems passphrase ctx.iteration_exponent ctx.identifier ctx.extendable
        pure (.ok master_secret)

end
end PiJade.Slip39
