import PiJade.CryptoAccountBytes
import PiJade.CryptoOutputFaithful
import PiJade.SignMessageFields

/-!
An exported account is read back. Its one output is accepted for the scripts of a single signer that are
no taproot, as the text of the key that was exported; for any other script it is refused.
-/
namespace PiJade.CryptoAccount
open Cbor CborRpc Text Wallet
open SettingsCodec (ascii ascii_ofList)
open CryptoOutput
open DescriptorText (BIP32_MAX_CHILD_INDEX MAX_DESCRIPTOR_SCRIPT_LEN Stop)
set_option linter.unusedSimpArgs false

/-! ### What is declared -/

/-- What an export declares of its key. -/
def exportedKey (testnet : Bool) (fingerprint : UInt32) (path : Path) (key : ExtKey) : HdKey where
  pub_key := key.pub_key
  chain_code := key.chain_code
  testnet := testnet
  path := path
  fingerprint := fingerprint.toNat
  depth := key.depth.toNat
  parent_fingerprint := (swappedWord key.parent160).toNat
  pair := (0, 1)

theorem uint32_uint {value : Nat} (small : value ≤ UINT32_MAX) : uint32? (.uint value) = some value := by
  have fits : value < 256 ^ 8 := Nat.lt_of_le_of_lt small (by decide)
  rw [uint32?, Item.number?_uint fits, Option.filter_some, if_pos (by simpa using small)]

theorem word_small (number : UInt32) : number.toNat ≤ UINT32_MAX := Nat.le_pred_of_lt number.toNat_lt

theorem behind_tagged {a : Nat} (b : Nat) (fits : a < 256 ^ 8) (item : Item) : behind a b (.tagged a item) = item := by
  rw [Item.tagged, behind, if_pos (.inl (Head.short_value fits))]

theorem mapOf_numbered {pairs : List (Nat × Item)} {holds : List Item → Prop} (fits : ∀ entry ∈ pairs, entry.1 < 256 ^ 8)
    (once : (pairs.map (·.1)).Nodup) (here : holds (flattened (numbered pairs))) : MapOf holds (.numberedMap pairs) :=
  ⟨_, _, rfl, numbered_of_nodup fits _ once, here⟩

section
variable {pairs : List (Nat × Item)} {number : Nat} {value : Item} {asked : Item → Prop} {absent : Prop}

theorem declared_numbered (fits : ∀ entry ∈ pairs, entry.1 < 256 ^ 8) (there : (number, value) ∈ pairs)
    (said : asked value) :
    Declared number asked (flattened (numbered pairs)) := ⟨value, (entry_numbered fits).mpr there, said⟩

theorem optional_numbered (fits : ∀ entry ∈ pairs, entry.1 < 256 ^ 8) (nothing : ∀ value, (number, value) ∉ pairs)
    (anyway : absent) :
    Optional number asked absent (flattened (numbered pairs)) :=
  .inr ⟨fun value there => nothing value ((entry_numbered fits).mp there), anyway⟩

end

theorem pathOf_steps (path : Path) : pathOf (stepItems path) = some path := by
  induction path with
  | nil => rfl
  | cons part later ih =>
    have small := SignMessage.unharden_small part
    have index : uint32? (.uint (unharden part).toNat) = some (unharden part).toNat := uint32_uint (word_small _)
    have again : stepOf (unharden part).toNat (ishardened part) = part := by
      rw [stepOf, UInt32.ofNat_toNat, SignMessage.rejoined]
    show pathOf (.uint (unharden part).toNat :: .ofBool (ishardened part) :: stepItems later) = _
    simp only [pathOf, index, Option.bind_eq_bind, Option.bind_some, if_neg
      (show ¬ BIP32_MAX_CHILD_INDEX < (unharden part).toNat by
      rw [BIP32_MAX_CHILD_INDEX]; omega), Item.boolean?_ofBool, ih, again]

theorem is_use_info : IsUseInfo true useInfoItem := by
  rw [IsUseInfo, useInfoItem, behind_tagged _ (by decide)]
  refine mapOf_numbered (by decide) (by decide) ⟨.inl ?_, .inl ?_⟩
  · exact declared_numbered (by simp) (List.mem_cons_self) (uint32_uint (by decide))
  · exact declared_numbered (by simp) (List.mem_cons_of_mem _ List.mem_cons_self) (uint32_uint (by decide))

theorem is_origin {path : Path} (short : path.length ≤ MAX_PATH_LEN) (fingerprint : UInt32) (depth : UInt8) :
    IsOrigin path fingerprint.toNat depth.toNat (originItem fingerprint path depth) := by
  rw [IsOrigin, originItem, behind_tagged _ (by decide)]
  have small : depth.toNat ≤ 255 := Nat.le_pred_of_lt depth.toNat_lt
  refine mapOf_numbered (by simp) (by simp) ⟨?_, ?_, .inl ?_⟩
  · exact declared_numbered (by simp) (List.mem_cons_self) ⟨_, _, rfl, pathOf_steps path, short⟩
  · exact declared_numbered (by simp) (List.mem_cons_of_mem _ List.mem_cons_self) (uint32_uint (word_small _))
  · refine declared_numbered (by simp) (List.mem_cons_of_mem _ (List.mem_cons_of_mem _ List.mem_cons_self)) ⟨?_, small⟩
    exact uint32_uint (Nat.le_trans small (by decide))

/-- The key that is exported is declared. -/
theorem is_key {path : Path} (short : path.length ≤ MAX_PATH_LEN) (testnet : Bool) (fingerprint : UInt32) (key : ExtKey) :
    CryptoOutput.IsKey (exportedKey testnet fingerprint path key)
      (.tagged UR_TAG_HDKEY (hdkeyItem testnet fingerprint path key)) := by
  rw [CryptoOutput.IsKey, behind_tagged _ (by decide)]
  have fits : ∀ entry ∈ keyPairs testnet fingerprint path key, entry.1 < 256 ^ 8 := by
    cases testnet <;> simp [keyPairs]
  refine mapOf_numbered fits (by cases testnet <;> simp [keyPairs]) ?_
  exact {
    is_public := optional_numbered fits (by cases testnet <;> simp [keyPairs]) trivial
    pub_key := @declared_numbered _ _ (.byteString key.pub_key key.pub_key_fits) _ fits (by simp [keyPairs])
      ⟨rfl, key.pub_key_length⟩
    chain_code := @declared_numbered _ _ (.byteString key.chain_code key.chain_code_fits) _ fits (by simp [keyPairs])
      ⟨rfl, key.chain_code_length⟩
    use_info := by
      cases testnet with
      | true => exact .inl (declared_numbered fits (by simp [keyPairs]) is_use_info)
      | false => exact optional_numbered fits (by simp [keyPairs]) rfl
    origin := declared_numbered fits (by simp [keyPairs]) (is_origin short fingerprint key.depth)
    children := optional_numbered fits (by cases testnet <;> simp [keyPairs]) rfl
    parent := .inl (@declared_numbered _ _ (.uint (swappedWord key.parent160).toNat) _ fits (by simp [keyPairs])
      (uint32_uint (word_small _))) }

/-- The script that is read of a variant, if it is one of a single key. -/
def outputOf (key : HdKey) : Variant → Option Output
  | .P2PKH => some ⟨false, .single false key⟩
  | .P2WPKH => some ⟨false, .single true key⟩
  | .P2WPKH_P2SH => some ⟨true, .single true key⟩
  | _ => none

theorem script_tag {script : Script} {head : Head} {item : Item} (is_script : IsScript script (.tag head item)) :
    head.value ∈ [UR_TAG_WSH, UR_TAG_WPKH, UR_TAG_PKH] := by
  cases is_script with
  | wsh tag _ => simp [tag]
  | @single witness _ _ _ tag _ => cases witness <;> simp [tag]

theorem wsh_tag {script : Script} {head inner : Head} {item : Item} (wsh : head.value = UR_TAG_WSH)
    (is_script : IsScript script (.tag head (.tag inner item))) : inner.value ∈ [UR_TAG_MULTI, UR_TAG_SORTEDMULTI] := by
  cases is_script with
  | @wsh sorted _ _ _ _ _ multi =>
    obtain ⟨_, _, same, kind, _⟩ := multi
    obtain ⟨rfl, _⟩ := Item.tag.inj same
    cases sorted <;> simp [kind]
  | @single witness _ _ _ tag _ =>
    rw [wsh] at tag
    cases witness <;> cases tag

theorem is_output {path : Path} (short : path.length ≤ MAX_PATH_LEN) (testnet : Bool) (fingerprint : UInt32) (key : ExtKey)
    (variant : Variant) (output : Output) :
    IsOutput output (outputItem variant (hdkeyItem testnet fingerprint path key)) ↔
      outputOf (exportedKey testnet fingerprint path key) variant = some output := by
  have only := is_key short testnet fingerprint key
  have declares {output' : Output} (same : outputOf (exportedKey testnet fingerprint path key) variant = some output') :
      IsOutput output' (outputItem variant (hdkeyItem testnet fingerprint path key)) := by
    cases variant <;> cases same
    · exact .single rfl only
    · exact .single rfl only
    · exact ⟨_, _, rfl, rfl, .single rfl only⟩
  refine ⟨fun here => ?_, declares⟩
  cases variant with
  | P2PKH | P2WPKH | P2WPKH_P2SH => exact congrArg some (output_unique (declares rfl) here)
  | GREEN | P2TR =>
    obtain ⟨sh, script⟩ := output
    cases sh with
    | true =>
      obtain ⟨head, item, same, tag, _⟩ := here
      obtain ⟨rfl, _⟩ := Item.tag.inj same
      cases tag
    | false => exact absurd (script_tag here) (by decide)
  | MULTI_P2WSH =>
    obtain ⟨sh, script⟩ := output
    cases sh with
    | true =>
      obtain ⟨head, item, same, tag, _⟩ := here
      obtain ⟨rfl, _⟩ := Item.tag.inj same
      cases tag
    | false => exact absurd (wsh_tag rfl here) (by decide)
  | MULTI_P2SH =>
    obtain ⟨sh, script⟩ := output
    cases sh with
    | true =>
      obtain ⟨head, item, same, _, is_script⟩ := here
      obtain ⟨_, rfl⟩ := Item.tag.inj same
      exact absurd (script_tag is_script) (by decide)
    | false => exact absurd (script_tag here) (by decide)
  | MULTI_P2WSH_P2SH =>
    obtain ⟨sh, script⟩ := output
    cases sh with
    | true =>
      obtain ⟨head, item, same, _, is_script⟩ := here
      obtain ⟨_, rfl⟩ := Item.tag.inj same
      exact absurd (wsh_tag rfl is_script) (by decide)
    | false => exact absurd (script_tag here) (by decide)

/-! ### Fingerprints -/

/-- A byte in hex. -/
def hexByte (byte : UInt8) : Bytes := [DescriptorText.hexDigit (byte.toNat / 16), DescriptorText.hexDigit (byte.toNat % 16)]

/-- A word comes out as its bytes stand in memory. -/
theorem to_be_swapped {bytes : Bytes} (enough : 4 ≤ bytes.length) : uint32_to_be (swappedWord bytes) = bytes.take 4 := by
  obtain ⟨b0, b1, b2, b3, rest, rfl⟩ : ∃ b0 b1 b2 b3 rest, bytes = b0 :: b1 :: b2 :: b3 :: rest := by
    cases bytes with
    | nil => simp at enough
    | cons b0 bytes => cases bytes with
      | nil => simp at enough
      | cons b1 bytes => cases bytes with
        | nil => simp at enough
        | cons b2 bytes => cases bytes with
          | nil => simp at enough
          | cons b3 rest => exact ⟨b0, b1, b2, b3, rest, rfl⟩
  obtain ⟨e0, e1, e2, e3⟩ := Bytes.split_join32 b0 b1 b2 b3
  obtain ⟨f0, f1, f2, f3⟩ := Bytes.split_join32 b3 b2 b1 b0
  have turned : swappedWord (b0 :: b1 :: b2 :: b3 :: rest) =
      b3.toUInt32 ||| b2.toUInt32 <<< 8 ||| b1.toUInt32 <<< 16 ||| b0.toUInt32 <<< 24 := by
    simp only [swappedWord, word, Bytes.toWords, List.headD_cons, uint32_to_be, e0, e1, e2, e3]
  rw [turned, uint32_to_be, f0, f1, f2, f3]
  rfl

theorem hex8_eq (number : UInt32) : hex8 number.toNat = (uint32_to_be number).flatMap hexByte := by
  have byte (i : Nat) (shift : UInt32) (is_shift : shift.toNat % 32 = i) :
      (number >>> shift).toUInt8.toNat = number.toNat / 2 ^ i % 256 := by
    rw [UInt32.toNat_toUInt8, UInt32.toNat_shiftRight, is_shift, Nat.shiftRight_eq_div_pow]
  have last : number.toUInt8.toNat = number.toNat % 256 := UInt32.toNat_toUInt8 number
  have range : List.range 8 = [0, 1, 2, 3, 4, 5, 6, 7] := rfl
  simp only [hex8, range, List.map_cons, List.map_nil, uint32_to_be, List.flatMap_cons, List.flatMap_nil, hexByte,
    List.cons_append,
    List.nil_append, byte 24 24 rfl, byte 16 16 rfl, byte 8 8 rfl, last]
  simp only [List.cons.injEq, and_true]
  refine ⟨congrArg _ ?_, congrArg _ ?_, congrArg _ ?_, congrArg _ ?_, congrArg _ ?_, congrArg _ ?_, congrArg _ ?_,
    congrArg _ ?_⟩ <;>
    omega

/-! ### Texts -/

/-- What is exported of a key, as it is made from. -/
def exportedParts (testnet : Bool) (key : ExtKey) : KeyParts where
  version := versionOf testnet
  depth := key.depth.toNat
  child_num := key.child_num
  chain_code := key.chain_code
  pub_key := key.pub_key
  parent160 := key.parent160.take 4

/-- `[fp/path]xpub/<0;1>/*`. -/
def exportedText (wallet : Holder) (path : Path) (xpub : Bytes) : Bytes :=
  ascii "[" ++ wallet.wallet_get_fingerprint.flatMap hexByte ++ ascii "/" ++ pathText path ++ ascii "]" ++ xpub ++ ascii "/<0;1>/*"

/-- The text in the script of a variant, if it is one of a single key. -/
def inScript (text : Bytes) : Variant → Option Bytes
  | .P2PKH => some (ascii "pkh(" ++ text ++ ascii ")")
  | .P2WPKH => some (ascii "wpkh(" ++ text ++ ascii ")")
  | .P2WPKH_P2SH => some (ascii "sh(" ++ (ascii "wpkh(" ++ text ++ ascii ")") ++ ascii ")")
  | _ => none

theorem pathText_ne_nil {path : Path} (some_path : path ≠ []) : pathText path ≠ [] := by
  rcases List.eq_nil_or_concat path with rfl | ⟨front, step, rfl⟩
  · exact absurd rfl some_path
  · intro none_of
    rw [List.concat_eq_append, pathText_concat, stepText] at none_of
    simp only [List.append_eq_nil_iff] at none_of
    exact decimal_ne_nil _ none_of.2.2.1

theorem hdkey_text {K : Type} (libwally : HdKeys K) (wallet : Holder) {path : Path} {key : ExtKey} (some_path : path ≠ [])
    (deep : key.depth.toNat = path.length) (child : path.getLast? = some key.child_num) :
    (exportedKey wallet.testnet (swappedWord wallet.wallet_get_fingerprint) path key).text libwally =
      (xpubText libwally (exportedParts wallet.testnet key)).map (exportedText wallet path) := by
  have long : key.depth.toNat ≠ 0 := fun zero => some_path (List.length_eq_zero_iff.mp (deep.symm.trans zero))
  have parts : (exportedKey wallet.testnet (swappedWord wallet.wallet_get_fingerprint) path key).parts =
      exportedParts wallet.testnet key := by
    have parent : uint32_to_be (swappedWord key.parent160) = key.parent160.take 4 :=
      to_be_swapped (by rw [key.parent160_length]; decide)
    simp only [HdKey.parts, exportedKey, exportedParts, if_pos long, child, Option.getD_some, UInt32.ofNat_toNat, parent]
  have fingerprint : hex8 (swappedWord wallet.wallet_get_fingerprint).toNat =
    wallet.wallet_get_fingerprint.flatMap hexByte := by
    have four : wallet.wallet_get_fingerprint.length = 4 := wallet.fingerprint_length
    rw [hex8_eq, to_be_swapped (by omega), List.take_of_length_le (by omega)]
  have plain : childText 0 1 = ascii "/<0;1>/*" := by decide
  rw [HdKey.text, parts]
  cases xpubText libwally (exportedParts wallet.testnet key) with
  | none => rfl
  | some xpub =>
    show some _ = some _
    simp only [exportedKey, keyText, fingerprint, pathText_ne_nil some_path, if_false, exportedText, plain,
      List.append_assoc]

theorem output_text {K : Type} (libwally : HdKeys K) (wallet : Holder) {path : Path} {key : ExtKey} (some_path : path ≠ [])
    (deep : key.depth.toNat = path.length) (child : path.getLast? = some key.child_num) (variant : Variant) :
    (outputOf (exportedKey wallet.testnet (swappedWord wallet.wallet_get_fingerprint) path key) variant).bind
    (·.text libwally) =
      (xpubText libwally (exportedParts wallet.testnet key)).bind fun xpub => inScript
        (exportedText wallet path xpub) variant := by
  have printed := hdkey_text libwally wallet some_path deep child
  cases variant <;>
    simp only [outputOf, inScript, Option.bind_some, Option.bind_none, Option.bind_fun_none, Output.text, Script.text,
      printed,
      Option.map_map] <;>
    cases xpubText libwally (exportedParts wallet.testnet key) <;> rfl

/-! ### Well-formed items -/

theorem wellFormed_hdkey {path : Path} (short : path.length ≤ MAX_PATH_LEN) (testnet : Bool) (fingerprint : UInt32)
    (key : ExtKey) :
    WellFormed (hdkeyItem testnet fingerprint path key) := by
  have steps : WellFormed (.arrayOf (stepItems path)) := by
    have length : (stepItems path).length = 2 * path.length := by
      rw [stepItems, List.length_flatMap]
      simp [Nat.mul_comm]
    have few : MAX_PATH_LEN = 16 := rfl
    refine .arrayOf (by omega) fun item among => ?_
    obtain ⟨part, _, one⟩ := List.mem_flatMap.mp among
    simp only [List.mem_cons, List.not_mem_nil, or_false] at one
    obtain rfl | rfl := one
    · exact .uint _
    · exact .ofBool _
  have origin : WellFormed (originItem fingerprint path key.depth) :=
    .tagged _ (.numberedMap (by simp) (by simp [steps, WellFormed.uint]))
  have use_info : WellFormed useInfoItem := .tagged _ (.numberedMap (by simp) (by simp [WellFormed.uint]))
  refine .numberedMap (by cases testnet <;> simp [keyPairs]) ?_
  cases testnet <;> simp [keyPairs, origin, use_info, WellFormed.uint, WellFormed.byteString]

theorem wellFormed_output {hdkey : Item} (formed : WellFormed hdkey) (variant : Variant) :
    WellFormed (outputItem variant hdkey) := by
  rw [outputItem]
  induction variantTags variant with
  | nil => exact .tagged _ formed
  | cons tag later ih => exact .tagged tag ih

theorem wellFormed_account {output : Item} (formed : WellFormed output) (fingerprint : UInt32) :
    WellFormed (accountItem fingerprint output) := by
  have listed : WellFormed (.arrayOf [output]) := .arrayOf (by simp) (by simpa using formed)
  exact .numberedMap (by simp) (by simp [WellFormed.uint, listed])

/-! ### The round trip -/

theorem ensure_eq_ok {ε : Type} {holds : Bool} {u : Unit} : (Check.ensure holds : Check ε Unit) = .ok u ↔ holds = true := by
  cases holds <;> simp

/-- What is known of an export that was written. -/
theorem account_inv {ε : Type} {wallet : Holder} {variant : Variant} {path : Path} {output_len : Nat} {written : Bytes}
    (exported : (bcur_build_cbor_crypto_account output_len wallet variant path : Check ε Bytes) = .ok written) :
    path ≠ [] ∧ ∃ key, wallet.wallet_get_hdkey path = some key ∧ key.depth.toNat = path.length ∧
      written = (exportItem wallet variant path key).bytes := by
  have whole := exported
  simp only [bcur_build_cbor_crypto_account, Check.bind_eq_ok, ensure_eq_ok, decide_eq_true_eq] at exported
  obtain ⟨_, long, _, large, _, offered, _, _, _, _, _, _, _, _, _, _, _, _, _, hdkey, _⟩ := exported
  have some_path : path ≠ [] := by
    rintro rfl
    exact long rfl
  simp only [encode_hdkey, Check.bind_eq_ok, ensure_eq_ok, decide_eq_true_eq] at hdkey
  obtain ⟨_, known, _, _, hdkey⟩ := hdkey
  cases derived : wallet.wallet_get_hdkey path with
  | none =>
    rw [derived] at hdkey
    cases hdkey
  | some key =>
    rw [derived] at hdkey
    simp only [Check.bind_eq_ok, ensure_eq_ok, decide_eq_true_eq] at hdkey
    obtain ⟨_, deep, _⟩ := hdkey
    refine ⟨some_path, key, rfl, deep, ?_⟩
    rw [account_eq offered known some_path derived deep large, asserted_eq] at whole
    split at whole
    · exact (Except.ok.inj whole).symm
    · cases whole

/-- The one output of an account that was written is read as the text of the key, if its script is one of a single key and no
    taproot; any other is refused. -/
theorem account_round_trip {V K ε : Type} {cbor : Stepping V} {view : V → Cursor} (correct : cbor.Correct view)
    (libwally : HdKeys K)
    {wallet : Holder} {variant : Variant} {path : Path} {output_len text_len : Nat} {written : Bytes}
    (exported : (bcur_build_cbor_crypto_account output_len wallet variant path : Check ε Bytes) = .ok written)
    (short : path.length ≤ MAX_PATH_LEN)
    (child : ∀ key, wallet.wallet_get_hdkey path = some key → path.getLast? = some key.child_num)
    (large : MAX_DESCRIPTOR_SCRIPT_LEN < text_len) :
    ∃ key output, wallet.wallet_get_hdkey path = some key ∧
      decode written = some (accountItem (swappedWord wallet.wallet_get_fingerprint) output, []) ∧
      ∀ value, rpc_untrusted_parser_init cbor.toTinycbor output.bytes = some value → ∀ text,
        bcur_parse_crypto_output cbor libwally output.bytes text_len = .ok text ↔
          ∃ xpub, xpubText libwally (exportedParts wallet.testnet key) = some xpub ∧
            inScript (exportedText wallet path xpub) variant = some text ∧ text.length < text_len := by
  obtain ⟨some_path, key, derived, deep, rfl⟩ := account_inv exported
  have formed : WellFormed (outputItem variant (hdkeyItem wallet.testnet
    (swappedWord wallet.wallet_get_fingerprint) path key)) :=
    wellFormed_output (wellFormed_hdkey short _ _ key) variant
  refine ⟨key, _, derived, decode_eq_some_iff.mpr ⟨(List.append_nil _).symm, wellFormed_account formed _⟩,
    fun value accepted text => ?_⟩
  have read := decode_eq_some_iff.mpr ⟨(List.append_nil _).symm, formed⟩
  rw [(crypto_output_reads correct libwally accepted read large).gives]
  simp only [is_output short]
  have same := output_text libwally wallet some_path deep (child key derived) variant
  constructor
  · rintro ⟨output, of_variant, made, fits⟩
    rw [of_variant, Option.bind_some, made] at same
    obtain ⟨xpub, printed, in_script⟩ := Option.bind_eq_some_iff.mp same.symm
    exact ⟨xpub, printed, in_script, fits⟩
  · rintro ⟨xpub, printed, in_script, fits⟩
    rw [printed, Option.bind_some, in_script] at same
    obtain ⟨output, of_variant, made⟩ := Option.bind_eq_some_iff.mp same
    exact ⟨output, of_variant, made, fits⟩

/-! ### The first account of a testnet -/

def firstPath : Path := [harden 84, harden 1, harden 0]

def firstTpub : Bytes :=
  ascii "tpubDCEjpyp4XbaR9xq2F8tJigb9Evc7sLWg1b9QbHf1HJDgbtEhe3a4vagLVXiAcM916YK4VtiNjQmYLdZP6ViUTvZxFoNmDcyv3adpkrUT9T4"

/-- A library that knows the text of one key. -/
def oneKey : HdKeys KeyParts where
  bip32_key_init := some
  bip32_key_to_base58 _ := some firstTpub

theorem account_round_trip_first : ∃ written key output,
    bcur_build_cbor_crypto_account 128 testnetHolder .P2WPKH firstPath = (.ok written : Check Unit Bytes) ∧
    testnetHolder.wallet_get_hdkey firstPath = some key ∧ decode written = some (accountItem 0x73c5da0a output, []) ∧
    bcur_parse_crypto_output stepping oneKey output.bytes 2912 =
      .ok (ascii "wpkh([73c5da0a/84h/1h/0h]" ++ firstTpub ++ ascii "/<0;1>/*)") := by
  have exported : (bcur_build_cbor_crypto_account 128 testnetHolder .P2WPKH firstPath : Check Unit Bytes) = .ok _ :=
    (account_eq (by decide) (by decide) (by decide) rfl (by decide) (by decide)).trans
      ((asserted_eq _).trans (if_pos (by decide +kernel)))
  obtain ⟨key, output, derived, read, reads⟩ := account_round_trip stepping_correct oneKey exported (by decide) (by
    rintro _ ⟨rfl⟩
    rfl) (show MAX_DESCRIPTOR_SCRIPT_LEN < 2912 by decide)
  refine ⟨_, key, output, exported, derived, read, ?_⟩
  have formed : WellFormed output := by
    have account := (decode_eq_some_iff.mp read).2
    rw [accountItem, Item.numberedMap, Item.mapOf] at account
    cases account with
    | map _ _ each =>
      have listed : WellFormed (.arrayOf [output]) := each _ (by simp [numbered, flattened])
      rw [Item.arrayOf] at listed
      cases listed with
      | array _ each => exact each output List.mem_cons_self
  have accepted := reference_accepts (decode_eq_some_iff.mpr ⟨(List.append_nil output.bytes).symm, formed⟩)
  refine (reads _ accepted _).mpr ⟨firstTpub, rfl, ?_, ?_⟩
  · rw [firstTpub]
    repeat rw [ascii_ofList]
    decide +kernel
  · rw [firstTpub]
    repeat rw [ascii_ofList]
    decide +kernel

end PiJade.CryptoAccount
