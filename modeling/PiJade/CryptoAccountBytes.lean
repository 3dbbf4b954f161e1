import PiJade.CborShort
import PiJade.CryptoAccount

/-!
What is exported, as items, and how many bytes they come to. An export either writes its item or stops
the device; on a testnet, the codes of wrapped scripts can be too long for their buffer.
-/
namespace PiJade.CryptoAccount
open Cbor Wallet
open PsbtReply (encode_number)
open CryptoOutput (UR_TAG_USEINFO UR_TAG_KEYPATH UR_TAG_HDKEY WALLY_BIP32_CHAIN_CODE_LEN)
set_option linter.unusedSimpArgs false

/-! ### Items -/

/-- The coin is Bitcoin, the network is a testnet. -/
def useInfoItem : Item := .tagged UR_TAG_USEINFO (.numberedMap [(1, .uint 0), (2, .uint 1)])

def stepItems (path : Path) : List Item := path.flatMap fun part => [.uint (unharden part).toNat, .ofBool (ishardened part)]

def originItem (fingerprint : UInt32) (path : Path) (depth : UInt8) : Item :=
  .tagged UR_TAG_KEYPATH (.numberedMap
    [(1, .arrayOf (stepItems path)), (2, .uint fingerprint.toNat), (3, .uint depth.toNat)])

theorem ExtKey.pub_key_fits (key : ExtKey) : key.pub_key.length < 256 ^ 8 := by
  rw [key.pub_key_length]
  decide

theorem ExtKey.chain_code_fits (key : ExtKey) : key.chain_code.length < 256 ^ 8 := by
  rw [key.chain_code_length]
  decide

/-- The entries of a key. -/
def keyPairs (testnet : Bool) (fingerprint : UInt32) (path : Path) (key : ExtKey) : List (Nat × Item) :=
  [(3, .byteString key.pub_key key.pub_key_fits), (4, .byteString key.chain_code key.chain_code_fits)] ++
  (if testnet then [(5, useInfoItem)] else []) ++
  [(6, originItem fingerprint path key.depth), (8, .uint (swappedWord key.parent160).toNat)]

def hdkeyItem (testnet : Bool) (fingerprint : UInt32) (path : Path) (key : ExtKey) : Item :=
  .numberedMap (keyPairs testnet fingerprint path key)

/-- The tags of a variant, outermost first. -/
def variantTags : Variant → List Nat
  | .P2PKH => [403]
  | .P2WPKH => [404]
  | .P2WPKH_P2SH => [400, 404]
  | .MULTI_P2SH => [400]
  | .MULTI_P2WSH => [401]
  | .MULTI_P2WSH_P2SH => [400, 401]
  | .P2TR => [409]
  | .GREEN => []

/-- The one output of an account. -/
def outputItem (variant : Variant) (hdkey : Item) : Item :=
  (variantTags variant).foldr Item.tagged (.tagged UR_TAG_HDKEY hdkey)

def accountItem (fingerprint : UInt32) (output : Item) : Item :=
  .numberedMap [(1, .uint fingerprint.toNat), (2, .arrayOf [output])]

/-! ### Calls of the encoder -/

theorem tag_fits : UR_TAG_USEINFO < 256 ^ 8 ∧ UR_TAG_KEYPATH < 256 ^ 8 ∧ UR_TAG_HDKEY < 256 ^ 8 := by decide

theorem encode_number_eq {value : Nat} (major : Nat) (fits : value < 256 ^ 8) :
    encode_number major value = (Head.short value).bytes major := by
  rw [encode_number, Head.short]
  split_ifs <;> first | rfl | skip
  simp only [Nat.mod_eq_of_lt fits]
  rfl

section
variable {ε : Type} {output_len : Nat} {write more : Bytes → Check ε Bytes} {piece behind : Bytes}

/-- All that is written, or a stop, whatever was written before. -/
def Writes (output_len : Nat) (write : Bytes → Check ε Bytes) (piece : Bytes) : Prop :=
  ∀ out, write out = asserted output_len piece out

/-- The same behind what was written. -/
def Continues (output_len : Nat) (write : Bytes → Check ε Bytes) (piece : Bytes) : Prop :=
  ∀ front out, (asserted output_len front out >>= write) = asserted output_len (front ++ piece) out

theorem Writes.continues (writes : Writes output_len write piece) : Continues output_len write piece := by
  intro front out
  rw [asserted, asserted]
  by_cases fits : (out ++ front).length ≤ output_len
  · simp only [fits, decide_true, Check.ensure_true, Check.ok_bind, Check.pure_eq, writes (out ++ front), asserted,
      List.append_assoc]
  · have more_is_less : ¬ (out ++ (front ++ piece)).length ≤ output_len := by
      simp only [List.length_append] at fits ⊢
      omega
    simp only [fits, more_is_less, decide_false, Check.ensure_false, Check.error_bind]

theorem Continues.congr (continues : Continues output_len write piece) (same : piece = behind) :
    Continues output_len write behind := same ▸ continues

theorem Continues.skip : Continues (ε := ε) output_len pure [] := by
  intro front out
  rw [bind_pure, List.append_nil]

theorem Continues.bind (writes : Continues output_len write piece) (continues : Continues output_len more behind) :
    Continues output_len (fun out => write out >>= more) (piece ++ behind) := by
  intro front out
  rw [← bind_assoc, writes, continues, List.append_assoc]

theorem Writes.bind (writes : Writes output_len write piece) (continues : Continues output_len more behind) :
    Writes output_len (fun out => write out >>= more) (piece ++ behind) := by
  intro out
  show write out >>= more = _
  rw [writes, continues]

/-- What had no room and was not looked at has none behind it either. -/
theorem Writes.unchecked (tag : Nat) (writes : Writes output_len write piece) :
    Writes output_len (fun out => write (encodeTag tag out)) (encode_number 6 tag ++ piece) := by
  intro out
  show write (encodeTag tag out) = _
  rw [writes, asserted, asserted, encodeTag, List.append_assoc]

/-- What is written is not empty, so that it need not be checked. -/
theorem Continues.filled (writes : Continues output_len write piece) (some_piece : piece ≠ []) :
    Continues output_len (fun out => write out >>= fun out => do Check.ensure (out.length ≠ 0); pure out) piece := by
  intro front out
  rw [← bind_assoc, writes, asserted]
  have some_bytes : (out ++ (front ++ piece)).length ≠ 0 := by
    simp [some_piece]
  by_cases fits : (out ++ (front ++ piece)).length ≤ output_len
  · simp only [fits, decide_true, Check.ensure_true, Check.ok_bind, Check.pure_eq, some_bytes, ne_eq, not_false_eq_true]
  · simp only [fits, decide_false, Check.ensure_false, Check.error_bind]

theorem writes_asserted : Writes (ε := ε) output_len (asserted output_len piece) piece := fun _ => rfl

theorem asserted_eq (out : Bytes) : (asserted output_len piece out : Check ε Bytes) =
    if (out ++ piece).length ≤ output_len then .ok (out ++ piece) else .error .abort := by
  rw [asserted]
  split <;> rename_i fits <;>
    simp only [fits, decide_true, decide_false, Check.ensure_true, Check.ensure_false, Check.ok_bind, Check.error_bind,
      Check.pure_eq]

theorem continues_uint (value : Nat) (fits : value < 256 ^ 8) :
    Continues (ε := ε) output_len (cbor_encode_uint output_len value) (Item.uint value).bytes := by
  refine Writes.continues fun out => ?_
  rw [cbor_encode_uint, encode_number_eq 0 fits]
  rfl

theorem continues_bytes {data : Bytes} (fits : data.length < 256 ^ 8) :
    Continues (ε := ε) output_len (cbor_encode_byte_string output_len data) (Item.byteString data fits).bytes := by
  refine Writes.continues fun out => ?_
  rw [cbor_encode_byte_string, encode_number_eq 2 fits]
  rfl

theorem continues_boolean (value : Bool) :
    Continues (ε := ε) output_len (cbor_encode_boolean output_len value) (Item.ofBool value).bytes := by
  refine Writes.continues fun out => ?_
  cases value <;> rfl

/-- All calls for a path. -/
theorem continues_path (path : Path) :
    Continues (ε := ε) output_len (encodePath output_len path) (bytesAll (stepItems path)) := by
  induction path with
  | nil => exact .skip
  | cons part later ih =>
    have small : (unharden part).toNat < 256 ^ 8 := Nat.lt_of_lt_of_le (unharden part).toNat_lt (by decide)
    exact (continues_uint _ small).bind ((continues_boolean (ishardened part)).bind ih)

/-- A map behind a tag whose result is not looked at. -/
theorem continues_tagged_map (tag length : Nat) (continues : Continues output_len more piece) :
    Continues output_len (fun out => cbor_encoder_create_map output_len length (encodeTag tag out) >>= more)
      (encode_number 6 tag ++ (encode_number 5 length ++ piece)) :=
  ((writes_asserted.bind continues).unchecked tag).continues

/-- All calls for the network. -/
theorem continues_use_info (testnet : Bool) : Continues (ε := ε) output_len (encodeUseInfo output_len testnet)
    (if testnet then (Item.uint 5).bytes ++ useInfoItem.bytes else []) := by
  cases testnet with
  | false => exact .skip
  | true =>
    refine Continues.congr ((continues_uint 5 (by decide)).bind (continues_tagged_map UR_TAG_USEINFO 2
      ((continues_uint 1 (by decide)).bind ((continues_uint 0 (by decide)).bind
        ((continues_uint 2 (by decide)).bind (continues_uint 1 (by decide))))))) ?_
    simp [useInfoItem, Item.numberedMap, numbered, flattened, bytesAll, encode_number_eq, encode_number_eq 6 tag_fits.1]

/-! ### Exports -/

theorem word_fits (number : UInt32) : number.toNat < 256 ^ 8 := Nat.lt_of_lt_of_le number.toNat_lt (by decide)

/-- A key is written as its item. -/
theorem writes_hdkey {wallet : Holder} {fingerprint : UInt32} {path : Path} {key : ExtKey} (known : fingerprint ≠ 0)
    (some_path : path ≠ []) (derived : wallet.wallet_get_hdkey path = some key) (deep : key.depth.toNat = path.length) :
    Writes (ε := ε) output_len (encode_hdkey output_len wallet fingerprint path)
      (hdkeyItem wallet.testnet fingerprint path key).bytes := by
  intro out
  have depth_fits : key.depth.toNat < 256 ^ 8 := Nat.lt_of_lt_of_le key.depth.toNat_lt (by decide)
  have long : path.length ≠ 0 := fun none_of => some_path (List.length_eq_zero_iff.mp none_of)
  have as_deep : decide (key.depth.toNat = path.length) = true := decide_eq_true deep
  simp only [encode_hdkey, known, long, derived, as_deep, ne_eq, not_false_eq_true, decide_true, Check.ensure_true,
    Check.ok_bind]
  refine (Writes.bind writes_asserted (Continues.bind (continues_uint 3 (by decide)) (Continues.bind
    (continues_bytes key.pub_key_fits) (Continues.bind (continues_uint 4 (by decide)) (Continues.bind
      (continues_bytes key.chain_code_fits) (Continues.bind (continues_use_info wallet.testnet) (Continues.bind
        (continues_uint 6 (by decide)) (continues_tagged_map UR_TAG_KEYPATH 3 (Continues.bind (continues_uint 1 (by decide))
          (Continues.bind (Writes.continues writes_asserted) (Continues.bind (continues_path path) (Continues.bind
            (continues_uint 2 (by decide)) (Continues.bind (continues_uint _ (word_fits fingerprint)) (Continues.bind
              (continues_uint 3 (by decide)) (Continues.bind (continues_uint _ depth_fits) (Continues.bind
                (continues_uint 8 (by decide)) (continues_uint _ (word_fits _))))))))))))))))) out).trans ?_
  refine congrArg (asserted output_len · out) ?_
  have steps : (stepItems path).length = 2 * path.length := by
    rw [stepItems, List.length_flatMap]
    simp [Nat.mul_comm]
  have steps_fit : 2 * path.length < 256 ^ 8 := by
    have := key.depth.toNat_lt
    omega
  have pairs : (keyPairs wallet.testnet fingerprint path key).length = if wallet.testnet then 5 else 4 := by
    rw [keyPairs]
    cases wallet.testnet <;> rfl
  have count_fits : (if wallet.testnet then 5 else 4) < 256 ^ 8 := by split <;> decide
  rw [hdkeyItem, Item.numberedMap, Item.bytes_mapOf, numbered, List.length_map, pairs, encode_number_eq 5 count_fits,
    keyPairs]
  cases wallet.testnet <;>
    simp [originItem, Item.numberedMap, numbered, flattened, bytesAll, encode_number_eq,
      encode_number_eq 6 tag_fits.2.1, encode_number_eq 4 steps_fit, steps]

/-- The tags of a variant, in turn. -/
theorem writes_variant_tag {variant : Variant} (offered : variant ≠ .GREEN) :
    Writes (ε := ε) output_len (encode_script_variant_tag output_len variant)
      ((variantTags variant).flatMap fun tag => (Head.short tag).bytes 6) := by
  intro out
  cases variant with
  | GREEN => exact absurd rfl offered
  | P2PKH | P2WPKH | MULTI_P2SH | MULTI_P2WSH | P2TR => rfl
  | P2WPKH_P2SH => exact (writes_asserted.bind writes_asserted.continues) out
  | MULTI_P2WSH_P2SH => exact (writes_asserted.bind writes_asserted.continues) out

theorem outputItem_bytes (variant : Variant) (hdkey : Item) :
    (outputItem variant hdkey).bytes =
      ((variantTags variant).flatMap fun tag => (Head.short tag).bytes 6) ++
        ((Head.short UR_TAG_HDKEY).bytes 6 ++ hdkey.bytes) := by
  rw [outputItem]
  induction variantTags variant with
  | nil => exact Item.bytes_tagged _ _
  | cons tag later ih => rw [List.foldr_cons, Item.bytes_tagged, ih, List.flatMap_cons, List.append_assoc]

/-- An account is written as its item, or the device stops. -/
theorem account_eq {wallet : Holder} {variant : Variant} {path : Path} {key : ExtKey} (offered : variant ≠ .GREEN)
    (known : swappedWord wallet.wallet_get_fingerprint ≠ 0) (some_path : path ≠ [])
    (derived : wallet.wallet_get_hdkey path = some key) (deep : key.depth.toNat = path.length) (large : 128 ≤ output_len) :
    (bcur_build_cbor_crypto_account output_len wallet variant path : Check ε Bytes) =
      asserted output_len (accountItem (swappedWord wallet.wallet_get_fingerprint) (outputItem variant
        (hdkeyItem wallet.testnet (swappedWord wallet.wallet_get_fingerprint) path key))).bytes [] := by
  have long : path.length ≠ 0 := fun none_of => some_path (List.length_eq_zero_iff.mp none_of)
  have hdkey : Continues (ε := ε) output_len (fun out => encode_hdkey output_len wallet
      (swappedWord wallet.wallet_get_fingerprint) path (encodeTag UR_TAG_HDKEY out)) _ :=
    ((writes_hdkey known some_path derived deep).unchecked UR_TAG_HDKEY).continues
  simp only [bcur_build_cbor_crypto_account, long, large, offered, ne_eq, not_false_eq_true, decide_true, ge_iff_le,
    Check.ensure_true, Check.ok_bind]
  refine (Writes.bind writes_asserted (Continues.bind (continues_uint 1 (by decide)) (Continues.bind
    (continues_uint _ (word_fits _)) (Continues.bind (continues_uint 2 (by decide)) (Continues.bind
      (Writes.continues writes_asserted) (Continues.bind (writes_variant_tag offered).continues
        (hdkey.filled ?_)))))) []).trans ?_
  · simp [encode_number_eq 6 tag_fits.2.2, Head.bytes]
  · refine congrArg (asserted output_len · []) ?_
    rw [accountItem, Item.numberedMap, Item.bytes_mapOf]
    simp [numbered, flattened, bytesAll, outputItem_bytes, encode_number_eq, encode_number_eq 6 tag_fits.2.2]

/-- A key alone is written as its item, or the device stops. -/
theorem hdkey_eq {wallet : Holder} {path : Path} {key : ExtKey} (known : swappedWord wallet.wallet_get_fingerprint ≠ 0)
    (some_path : path ≠ []) (derived : wallet.wallet_get_hdkey path = some key) (deep : key.depth.toNat = path.length)
    (large : 128 ≤ output_len) :
    (bcur_build_cbor_crypto_hdkey output_len wallet path : Check ε Bytes) =
      asserted output_len (hdkeyItem wallet.testnet (swappedWord wallet.wallet_get_fingerprint) path key).bytes [] := by
  have long : path.length ≠ 0 := fun none_of => some_path (List.length_eq_zero_iff.mp none_of)
  simp only [bcur_build_cbor_crypto_hdkey, long, large, ne_eq, not_false_eq_true, decide_true, ge_iff_le, Check.ensure_true,
    Check.ok_bind]
  have hdkey : Continues (ε := ε) output_len (encode_hdkey output_len wallet
    (swappedWord wallet.wallet_get_fingerprint) path) _ :=
    (writes_hdkey known some_path derived deep).continues
  have some_bytes : (hdkeyItem wallet.testnet (swappedWord wallet.wallet_get_fingerprint) path key).bytes ≠ [] :=
    List.ne_nil_of_length_pos (Item.bytes_pos _)
  have nothing : (asserted output_len [] [] : Check ε Bytes) = .ok [] := (asserted_eq []).trans (if_pos (Nat.zero_le _))
  have filled := (hdkey.filled some_bytes) [] []
  rwa [nothing, Check.ok_bind, List.nil_append] at filled

end

/-! ### Lengths -/

theorem size_small {value : Nat} (small : value < 24) : size value = 1 := if_pos small

@[simp] theorem length_uint (value : Nat) : (Item.uint value).bytes.length = size value := Head.length_short 0 value

@[simp] theorem length_byteString {content : Bytes} (fits : content.length < 256 ^ 8) :
    (Item.byteString content fits).bytes.length = size content.length + content.length := by
  rw [Item.byteString, Item.bytes, Chunk.bytes, List.length_append, Head.length_short]

/-- What a path comes to. -/
def stepsSize (path : Path) : Nat := (path.map fun part => size (unharden part).toNat + 1).sum

theorem length_steps (path : Path) : (bytesAll (stepItems path)).length = stepsSize path := by
  induction path with
  | nil => rfl
  | cons part later ih =>
    have mark : (Item.ofBool (ishardened part)).bytes.length = 1 := by cases ishardened part <;> rfl
    have front : stepItems (part :: later) = .uint (unharden part).toNat :: .ofBool
      (ishardened part) :: stepItems later := rfl
    rw [front, bytesAll, bytesAll, List.length_append, List.length_append, ih, length_uint, mark, stepsSize, stepsSize,
      List.map_cons, List.sum_cons, Nat.add_assoc]

theorem length_hdkey (testnet : Bool) (fingerprint : UInt32) (path : Path) (key : ExtKey) :
    (hdkeyItem testnet fingerprint path key).bytes.length =
      81 + (if testnet then 9 else 0) + size (2 * path.length) + stepsSize path + size fingerprint.toNat +
        size key.depth.toNat + size (swappedWord key.parent160).toNat := by
  have steps : (stepItems path).length = 2 * path.length := by
    rw [stepItems, List.length_flatMap]
    simp [Nat.mul_comm]
  have pub := key.pub_key_length
  have chain := key.chain_code_length
  have tags : size UR_TAG_USEINFO = 3 ∧ size UR_TAG_KEYPATH = 3 := ⟨rfl, rfl⟩
  have pub_size : size EC_PUBLIC_KEY_LEN + EC_PUBLIC_KEY_LEN = 35 := rfl
  have chain_size : size WALLY_BIP32_CHAIN_CODE_LEN + WALLY_BIP32_CHAIN_CODE_LEN = 34 := rfl
  rw [hdkeyItem, keyPairs]
  cases testnet <;>
  · simp (disch := decide) only [useInfoItem, originItem, Item.numberedMap, numbered, List.map_cons, List.map_nil,
      Item.bytes_mapOf, Item.bytes_tagged, Item.bytes_arrayOf, flattened,
      List.flatMap_cons, List.flatMap_nil, List.cons_append, List.nil_append, List.append_nil, List.length_cons,
        List.length_nil,
      bytesAll, List.length_append, Head.length_short, length_uint, length_byteString, length_steps, steps, pub, chain,
        tags,
      size_small, if_true, if_false, Bool.false_eq_true]
    omega

theorem length_account (fingerprint : UInt32) (variant : Variant) (hdkey : Item) :
    (accountItem fingerprint (outputItem variant hdkey)).bytes.length =
      7 + 3 * (variantTags variant).length + size fingerprint.toNat + hdkey.bytes.length := by
  have tags : ((variantTags variant).flatMap fun tag => (Head.short tag).bytes 6).length = 3 *
    (variantTags variant).length := by
    cases variant <;> rfl
  have tag : ((Head.short UR_TAG_HDKEY).bytes 6).length = 3 := rfl
  rw [accountItem, Item.numberedMap, Item.bytes_mapOf]
  simp (disch := decide) only [numbered, List.map_cons, List.map_nil, Item.bytes_arrayOf, flattened, List.flatMap_cons,
    List.flatMap_nil, List.cons_append,
    List.nil_append, List.append_nil, List.length_cons, List.length_nil, bytesAll, List.length_append, outputItem_bytes,
      tags, tag,
    Head.length_short, length_uint, size_small]
  omega

theorem size_word_le (number : UInt32) : size number.toNat ≤ 5 := by
  have small := number.toNat_lt
  rw [size]
  split_ifs <;> omega

theorem stepsSize_le (path : Path) : stepsSize path ≤ 6 * path.length := by
  induction path with
  | nil => rfl
  | cons part later ih =>
    have first := size_word_le (unharden part)
    rw [stepsSize] at ih ⊢
    rw [List.map_cons, List.sum_cons, List.length_cons]
    omega

/-- The buffer is always long enough for the key of a default path. -/
theorem hdkey_fits {ε : Type} {wallet : Holder} {path : Path} {key : ExtKey}
    (known : swappedWord wallet.wallet_get_fingerprint ≠ 0)
    (some_path : path ≠ []) (short : path.length ≤ 4) (derived : wallet.wallet_get_hdkey path = some key)
    (deep : key.depth.toNat = path.length) :
    (bcur_build_cbor_crypto_hdkey 128 wallet path : Check ε Bytes) =
      .ok (hdkeyItem wallet.testnet (swappedWord wallet.wallet_get_fingerprint) path key).bytes := by
  have fingerprint := size_word_le (swappedWord wallet.wallet_get_fingerprint)
  have parent := size_word_le (swappedWord key.parent160)
  have steps := stepsSize_le path
  have fits : (hdkeyItem wallet.testnet (swappedWord wallet.wallet_get_fingerprint) path key).bytes.length ≤ 128 := by
    rw [length_hdkey, deep, size_small (show 2 * path.length < 24 by omega), size_small (show path.length < 24 by omega)]
    split <;> omega
  rw [hdkey_eq known some_path derived deep (le_refl _), asserted_eq, List.nil_append, if_pos fits]

/-! ### The buffer of a code -/

theorem unharden_harden_account (account : UInt16) : (unharden (harden account.toUInt32)).toNat = account.toNat := by
  have same : unharden (harden account.toUInt32) = account.toUInt32 := by
    apply UInt32.toBitVec_inj.mp
    apply BitVec.eq_of_getLsbD_eq
    intro i bound
    simp only [unharden, harden]
    interval_cases i <;> simp
  rw [same, UInt16.toNat_toUInt32]

/-- What the default path of a variant comes to. -/
def pathSize (account : UInt16) : Variant → Nat
  | .MULTI_P2SH => 3
  | .MULTI_P2WSH | .MULTI_P2WSH_P2SH => 8 + size account.toNat
  | _ => 6 + size account.toNat

theorem default_path {ε : Type} {testnet : Bool} {variant : Variant} {account : UInt16} {path : Path}
    (at_path : (wallet_get_default_xpub_export_path testnet variant account : Check ε Path) = .ok path) :
    variant ≠ .GREEN ∧ path ≠ [] ∧ path.length ≤ 4 ∧ stepsSize path = pathSize account variant := by
  have coin : size (unharden (if testnet then BIP44_COIN_TEST else BIP44_COIN_BTC)).toNat = 1 := by cases testnet <;> decide
  have purpose : ∀ n ∈ [44, 45, 48, 49, 84, 86], size (unharden (BIP32_INITIAL_HARDENED_CHILD + n)).toNat = 2 := by
    intro n among
    simp only [List.mem_cons, List.not_mem_nil, or_false] at among
    rcases among with rfl | rfl | rfl | rfl | rfl | rfl <;> decide
  have script_type : ∀ n ∈ [1, 2], size (unharden (harden n)).toNat = 1 := by
    intro n among
    simp only [List.mem_cons, List.not_mem_nil, or_false] at among
    rcases among with rfl | rfl <;> decide
  have numbered := unharden_harden_account account
  cases variant <;> simp only [wallet_get_default_xpub_export_path, get_script_variant_purpose, is_multisig] at at_path <;>
    cases at_path <;> refine ⟨by decide, by simp, by simp, ?_⟩ <;>
    simp only [stepsSize, pathSize, List.cons_append, List.nil_append, List.map_cons, List.map_nil, List.sum_cons,
      List.sum_nil, coin,
      numbered, if_true, if_false, reduceCtorEq, purpose 44 (by decide), purpose 45 (by decide), purpose 48 (by decide),
      purpose 49 (by decide), purpose 84 (by decide), purpose 86 (by decide), script_type 1 (by decide),
      script_type 2 (by decide)] <;>
    omega

theorem size_account_le (account : UInt16) : size account.toNat ≤ 3 := by
  have small := account.toNat_lt
  rw [size]
  split_ifs <;> omega

/-- The numbers of an account: its fingerprint twice, the fingerprint of the parent, and the index. -/
def numbersSize (wallet : Holder) (key : ExtKey) (account : UInt16) : Nat :=
  2 * size (swappedWord wallet.wallet_get_fingerprint).toNat + size (swappedWord key.parent160).toNat + size account.toNat

/-- On a testnet, a wrapped script leaves so many bytes for the numbers. -/
def TooLong (wallet : Holder) (variant : Variant) (key : ExtKey) (account : UInt16) : Prop :=
  wallet.testnet = true ∧ (variant = .MULTI_P2WSH_P2SH ∧ 15 < numbersSize wallet key account ∨
    variant = .P2WPKH_P2SH ∧ 17 < numbersSize wallet key account)

/-- The account that is exported. -/
def exportItem (wallet : Holder) (variant : Variant) (path : Path) (key : ExtKey) : Item :=
  accountItem (swappedWord wallet.wallet_get_fingerprint) (outputItem variant
    (hdkeyItem wallet.testnet (swappedWord wallet.wallet_get_fingerprint) path key))

theorem length_export {ε : Type} {wallet : Holder} {variant : Variant} {account : UInt16} {path : Path} {key : ExtKey}
    (at_path : (wallet_get_default_xpub_export_path wallet.testnet variant account : Check ε Path) = .ok path)
    (deep : key.depth.toNat = path.length) :
    (exportItem wallet variant path key).bytes.length ≤ 128 ↔ ¬ TooLong wallet variant key account := by
  obtain ⟨offered, _, short, steps⟩ := default_path at_path
  have fingerprint := size_word_le (swappedWord wallet.wallet_get_fingerprint)
  have parent := size_word_le (swappedWord key.parent160)
  have index := size_account_le account
  rw [exportItem, length_account, length_hdkey, steps, deep, size_small (show 2 * path.length < 24 by omega),
    size_small (show path.length < 24 by omega)]
  rw [TooLong, numbersSize]
  cases variant <;> cases wallet.testnet <;>
    simp only [pathSize, variantTags, List.length_cons, List.length_nil, if_true, if_false, Bool.false_eq_true,
      reduceCtorEq,
      true_and, false_and, or_false, false_or, not_false_eq_true, iff_true, not_lt] <;>
    omega

/-- Every setting of the flags has a variant with a default path. -/
theorem flags_path (ε : Type) (testnet : Bool) (qr_flags : UInt32) :
    ∃ path, (xpub_export_path_from_flags testnet qr_flags : Check ε Path) = .ok path := by
  have offered : xpub_script_variant_from_flags qr_flags ≠ .GREEN := by
    unfold xpub_script_variant_from_flags
    split_ifs <;> decide
  rw [xpub_export_path_from_flags]
  generalize xpub_script_variant_from_flags qr_flags = variant at offered ⊢
  cases variant with
  | GREEN => exact absurd rfl offered
  | P2PKH | P2WPKH | P2WPKH_P2SH | MULTI_P2SH | MULTI_P2WSH | MULTI_P2WSH_P2SH | P2TR => exact ⟨_, rfl⟩

/-- A key that can be exported: the wallet has a fingerprint that is not zero and derives the key, and
    its account has room. -/
structure Exportable (wallet : Holder) (qr_flags : UInt32) (path : Path) (key : ExtKey) : Prop where
  known : swappedWord wallet.wallet_get_fingerprint ≠ 0
  derived : wallet.wallet_get_hdkey path = some key
  deep : key.depth.toNat = path.length
  short : ¬ TooLong wallet (xpub_script_variant_from_flags qr_flags) key (accountOf qr_flags)

/-- A key that the encoder asserts to have is missing. -/
theorem encode_hdkey_stops {ε : Type} {output_len : Nat} {wallet : Holder} {fingerprint : UInt32} {path : Path}
    (missing : fingerprint = 0 ∨ ∀ key, wallet.wallet_get_hdkey path = some key → key.depth.toNat ≠ path.length)
    (out : Bytes) : (encode_hdkey output_len wallet fingerprint path out : Check ε Bytes) = .error .abort := by
  rw [encode_hdkey]
  by_cases known : fingerprint = 0
  · simp only [known, ne_eq, not_true_eq_false, decide_false, Check.ensure_false, Check.error_bind]
  · have shallow := missing.resolve_left known
    by_cases long : path.length = 0
    · simp only [known, long, ne_eq, not_true_eq_false, not_false_eq_true, decide_true, decide_false, Check.ensure_true,
        Check.ensure_false, Check.ok_bind, Check.error_bind]
    · simp only [known, long, ne_eq, not_false_eq_true, decide_true, Check.ensure_true, Check.ok_bind]
      cases derived : wallet.wallet_get_hdkey path with
      | none => rfl
      | some key => simp only [shallow key derived, decide_false, Check.ensure_false, Check.error_bind]

/-- Behind what is asserted to fit, a stop is a stop. -/
theorem Writes.stops {ε : Type} {output_len : Nat} {write more : Bytes → Check ε Bytes} {piece : Bytes}
    (writes : Writes output_len write piece) (stops : ∀ out, more out = .error .abort) (out : Bytes) :
    (write out >>= more) = .error .abort := by
  rw [writes, asserted_eq]
  split
  · exact stops _
  · rfl

/-- No account is written without its key. -/
theorem account_stops {ε : Type} {output_len : Nat} {wallet : Holder} {variant : Variant} {path : Path}
    (offered : variant ≠ .GREEN) (missing : swappedWord wallet.wallet_get_fingerprint = 0 ∨
      ∀ key, wallet.wallet_get_hdkey path = some key → key.depth.toNat ≠ path.length)
    (some_path : path ≠ []) (large : 128 ≤ output_len) :
    (bcur_build_cbor_crypto_account output_len wallet variant path : Check ε Bytes) = .error .abort := by
  have long : path.length ≠ 0 := fun none_of => some_path (List.length_eq_zero_iff.mp none_of)
  simp only [bcur_build_cbor_crypto_account, long, large, offered, ne_eq, not_false_eq_true, decide_true, ge_iff_le,
    Check.ensure_true, Check.ok_bind]
  refine writes_asserted.stops (fun out => ?_) []
  refine writes_asserted.stops (fun out => ?_) out
  refine writes_asserted.stops (fun out => ?_) out
  refine writes_asserted.stops (fun out => ?_) out
  refine writes_asserted.stops (fun out => ?_) out
  refine (writes_variant_tag offered).stops (fun out => ?_) out
  rw [encode_hdkey_stops missing, Check.error_bind]

/-- For every wallet and every setting of the flags: the code shows exactly the account of the key, or
    there is no key that can be exported and the device stops. -/
theorem xpub_code_exact {ε : Type} (wallet : Holder) (qr_flags : UInt32) :
    ∃ path, (xpub_export_path_from_flags wallet.testnet qr_flags : Check ε Path) = .ok path ∧
      (∀ key, Exportable wallet qr_flags path key → (display_xpub_fullscreen_qr wallet qr_flags : Check ε Bytes) =
        .ok (exportItem wallet (xpub_script_variant_from_flags qr_flags) path key).bytes) ∧
      ((∀ key, ¬ Exportable wallet qr_flags path key) →
        (display_xpub_fullscreen_qr wallet qr_flags : Check ε Bytes) = .error .abort) := by
  obtain ⟨path, at_path⟩ := flags_path ε wallet.testnet qr_flags
  obtain ⟨offered, some_path, _, _⟩ := default_path at_path
  have shown : (display_xpub_fullscreen_qr wallet qr_flags : Check ε Bytes) =
      bcur_build_cbor_crypto_account 128 wallet (xpub_script_variant_from_flags qr_flags) path := by
    rw [display_xpub_fullscreen_qr, at_path, Check.ok_bind]
  refine ⟨path, at_path, fun key able => ?_, fun none_able => ?_⟩
  · rw [shown, account_eq offered able.known some_path able.derived able.deep (le_refl _), asserted_eq, List.nil_append]
    exact if_pos ((length_export at_path able.deep).mpr able.short)
  · rw [shown]
    by_cases missing : swappedWord wallet.wallet_get_fingerprint = 0 ∨
        ∀ key, wallet.wallet_get_hdkey path = some key → key.depth.toNat ≠ path.length
    · exact account_stops offered missing some_path (le_refl _)
    · push Not at missing
      obtain ⟨known, key, derived, deep⟩ := missing
      rw [account_eq offered known some_path derived deep (le_refl _), asserted_eq, List.nil_append]
      exact if_neg fun enough => none_able key ⟨known, derived, deep, (length_export at_path deep).mp enough⟩

/-! ### A wallet on a testnet -/

/-- A wallet that knows one key. -/
def testnetHolder : Holder where
  testnet := true
  wallet_get_fingerprint := [0x73, 0xc5, 0xda, 0x0a]
  wallet_get_hdkey path := some {
    pub_key := [2, 26, 59, 245, 251, 247, 55, 208, 243, 105, 147, 253, 70, 220, 73, 19, 9, 59, 235, 83, 45, 101, 79,
      224, 223, 217,
      139, 210, 117, 133, 220, 159, 41]
    chain_code := [187, 160, 199, 202, 22, 10, 135, 14, 254, 185, 64, 171, 144, 208, 244, 40, 79, 234, 27, 94, 13, 33,
      23, 103, 126,
      130, 63, 195, 126, 45, 87, 99]
    parent160 := [28, 242, 151, 22, 0, 0, 0, 0, 0, 0, 0, 0, 0, 0, 0, 0, 0, 0, 0, 0]
    depth := UInt8.ofNat path.length
    child_num := path.getLast?.getD 0
    pub_key_length := rfl
    chain_code_length := rfl
    parent160_length := rfl }
  fingerprint_length := rfl

/-- There the first account of several signers with wrapped scripts has no code, but that of a single
    signer has; and without a fingerprint no wallet has one. -/
theorem xpub_code_testnet :
    (display_xpub_fullscreen_qr testnetHolder (QR_XPUB_MULTISIG ||| QR_XPUB_WITNESS ||| QR_XPUB_LEGACY) : Check Unit Bytes) =
      .error .abort ∧
    (∃ cbor, (display_xpub_fullscreen_qr testnetHolder (QR_XPUB_WITNESS ||| QR_XPUB_LEGACY) : Check Unit Bytes) =
      .ok cbor) ∧
    (display_xpub_fullscreen_qr { testnetHolder with wallet_get_fingerprint := [0, 0, 0, 0], fingerprint_length := rfl }
      (QR_XPUB_WITNESS ||| QR_XPUB_LEGACY) : Check Unit Bytes) = .error .abort := by
  refine ⟨?_, ?_, ?_⟩
  · obtain ⟨_, at_path, _, stops⟩ := xpub_code_exact (ε := Unit) testnetHolder
      (QR_XPUB_MULTISIG ||| QR_XPUB_WITNESS ||| QR_XPUB_LEGACY)
    cases at_path
    refine stops fun key able => ?_
    cases able.derived
    exact able.short ⟨rfl, .inl ⟨by decide, by decide⟩⟩
  · obtain ⟨_, at_path, shown, _⟩ := xpub_code_exact (ε := Unit) testnetHolder (QR_XPUB_WITNESS ||| QR_XPUB_LEGACY)
    cases at_path
    refine ⟨_, shown _ ⟨by decide, rfl, by decide, ?_⟩⟩
    rintro ⟨_, ⟨wrapped, _⟩ | ⟨_, long⟩⟩
    · exact absurd wrapped (by decide)
    · exact absurd long (by decide)
  · obtain ⟨_, _, _, stops⟩ := xpub_code_exact (ε := Unit)
      { testnetHolder with wallet_get_fingerprint := [0, 0, 0, 0], fingerprint_length := rfl }
      (QR_XPUB_WITNESS ||| QR_XPUB_LEGACY)
    exact stops fun key able => able.known (by decide)

end PiJade.CryptoAccount
