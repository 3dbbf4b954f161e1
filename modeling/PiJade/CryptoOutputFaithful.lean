import PiJade.CborShort
import PiJade.CryptoOutputKeys

/-!
Output descriptors are read faithfully. An input is accepted if and only if its item declares an output
whose text has room, and then the text is that of the output; the order of entries does not matter.
-/
namespace PiJade.CryptoOutput
open Cbor CborRpc Text
open SettingsCodec (ascii ascii_ofList)
open DescriptorText (Stop refuse MAX_ALLOWED_SIGNERS MAX_DESCRIPTOR_SCRIPT_LEN)
set_option linter.unusedSimpArgs false

/-! ### Texts that grow -/

theorem appendText_reads {text_len : Nat} (text str : Bytes) :
    Reads (appendText text_len text str) fun more => more = text ++ str ∧ more.length < text_len := by
  rw [appendText]
  split
  · refine .refuse (by decide) ?_
    rintro more ⟨rfl, room⟩
    rw [List.length_append] at room
    omega
  · refine .ok fun more => ?_
    constructor
    · rintro ⟨rfl, room⟩
      rfl
    · rintro rfl
      exact ⟨rfl, by rw [List.length_append]; omega⟩

theorem closeText_reads {text_len : Nat} (closers : Nat) {text : Bytes} (room : text.length < text_len) :
    Reads (closeText text_len closers text) fun more =>
      more = text ++ (List.replicate closers (ascii ")")).flatten ∧ more.length < text_len := by
  induction closers generalizing text with
  | zero =>
    refine .ok fun more => ?_
    simp only [List.replicate_zero, List.flatten_nil, List.append_nil]
    constructor
    · exact fun same => same.1.symm
    · rintro rfl
      exact ⟨rfl, room⟩
  | succ closers ih =>
    refine ((appendText_reads text (ascii ")")).bind fun more here => ih here.2).congr fun more => ?_
    rw [List.replicate_succ, List.flatten_cons]
    constructor
    · rintro ⟨_, ⟨rfl, _⟩, rfl, fits⟩
      exact ⟨List.append_assoc _ _ _, fits⟩
    · rintro ⟨rfl, fits⟩
      refine ⟨_, ⟨rfl, ?_⟩, (List.append_assoc _ _ _).symm, fits⟩
      simp only [List.length_append] at fits ⊢
      omega

theorem multiHead_short {threshold : Nat} (few : threshold ≤ MAX_ALLOWED_SIGNERS) (sorted : Bool) :
    (multiHead sorted threshold).take 23 = multiHead sorted threshold := by
  have bound : MAX_ALLOWED_SIGNERS < 10 ^ 10 := by decide
  have digits := @decimal_length_le threshold 10 (by decide) (by omega)
  refine List.take_of_length_le ?_
  have name : (ascii (if sorted then "sortedmulti" else "multi")).length ≤ 11 := by cases sorted <;> decide
  have opening : (ascii "(").length = 1 := by decide
  rw [multiHead]
  simp only [List.length_append]
  omega

theorem wellFormed_array {head : Option Head} {items : List Item} (formed : WellFormed (.array head items)) :
    ∀ item ∈ items, WellFormed item := by
  cases formed with
  | array _ each => exact each

section
variable {V K : Type} {cbor : Stepping V} {view : V → Cursor} {value : V} {item : Item} {items : List Item}
  {rounds text_len : Nat} (correct : cbor.Correct view) (libwally : HdKeys K)
include correct

/-! ### Keys in turn -/

theorem advance_reads {α : Type} {later : List Item} (there : (view value).items = item :: later)
    (enough : item.bytes.length ≤ rounds) {rest : Option V → Check Stop α} {so : α → Prop}
    (goes_on : ∀ next, (view next).items = later → Reads (rest (some next)) so) :
    Reads (advance_over_value cbor rounds value >>= rest) so := by
  obtain ⟨next, advanced, behind⟩ := advance_over_value_eq correct there enough
  rw [advanced, Check.ok_bind]
  exact goes_on next behind

/-- Each key in turn is read and printed behind a comma. -/
theorem keysText_reads {key : V} (there : (view key).items = items) (formed : ∀ item ∈ items, WellFormed item)
    (enough : (bytesAll items).length ≤ rounds) {text : Bytes} (room : text.length < text_len) :
    Reads (keysText cbor libwally rounds text_len items.length text key) fun more =>
      ∃ keys texts, List.Forall₂ IsKey keys items ∧ keysText? libwally keys = some texts ∧ more = text ++ texts ∧
        more.length < text_len := by
  induction items generalizing key text with
  | nil =>
    refine .ok fun more => ?_
    constructor
    · rintro ⟨keys, texts, each, made, rfl, _⟩
      cases each
      obtain rfl := Option.some.inj made
      exact (List.append_nil text).symm
    · rintro rfl
      exact ⟨[], [], .nil, rfl, (List.append_nil text).symm, room⟩
  | cons item later ih =>
    rw [bytesAll, List.length_append] at enough
    rw [List.length_cons, keysText]
    have stands : Stands view rounds key item := ⟨⟨later, there⟩, formed item List.mem_cons_self, by omega⟩
    refine ((appendText_reads text (ascii ",")).bind fun front begun =>
      (hdkey_reads correct libwally stands (text_len - front.length)).bind fun written read =>
      advance_reads correct (show (view written.2).items = behind UR_TAG_HDKEY UR_TAG_HDKEY_NEW item :: later by
        rw [read.1]
        exact behindTag_stands correct there _ _) (Nat.le_trans (behind_length item _ _) stands.enough) fun next at_later =>
      ih at_later (fun item among => formed item (List.mem_cons_of_mem _ among)) (by omega)
        (show (front ++ written.1).length < text_len by
          obtain ⟨_, _, _, _, fits⟩ := read
          rw [List.length_append]
          omega)).congr fun more => ?_
    constructor
    · rintro ⟨_, ⟨rfl, _⟩, written, ⟨_, first, is_key, printed, _⟩, keys, texts, each, made, rfl, fits⟩
      refine ⟨first :: keys, ascii "," ++ written.1 ++ texts, .cons is_key each, ?_, by simp, fits⟩
      simp [keysText?, printed, made]
    · rintro ⟨_, _, each, made, rfl, fits⟩
      cases each with
      | @cons first _ keys _ is_key each =>
        simp only [keysText?, Option.bind_eq_bind, Option.bind_eq_some_iff, Option.some.injEq] at made
        obtain ⟨written, printed, texts, made, rfl⟩ := made
        simp only [List.length_append] at fits
        refine ⟨_, ⟨rfl, by rw [List.length_append]; omega⟩, (written, _), ⟨rfl, first, is_key, printed, ?_⟩, keys,
          texts, each,
          made, by simp, by simp only [List.length_append]; omega⟩
        simp only [List.length_append]
        omega

/-! ### Scripts -/

theorem readThreshold_reads (at_map : AtMap view rounds value items) :
    Reads (readThreshold cbor rounds value) fun threshold =>
      Declared 1 (fun value => uint32? value = some threshold ∧ threshold ≠ 0) items := by
  refine reads_declared correct at_map (by decide) (by decide : UR_ERR_INVALID ∈ messages) ?_ rfl
  rintro out value' ⟨⟨later, there⟩, _, _⟩
  simp only [get_uint32_eq correct there]
  cases uint32? value' with
  | none => exact .refuse (by decide) fun threshold => by simp
  | some number =>
    simp only
    split
    · exact .refuse (by decide) fun threshold => by simp; omega
    · refine .ok fun threshold => ?_
      simp
      omega

theorem multiKeys_reads (at_map : AtMap view rounds value items) {text : Bytes} (sorted : Bool) {multi_tag threshold : Nat}
    (kind : multi_tag = if sorted then UR_TAG_SORTEDMULTI else UR_TAG_MULTI) :
    Reads (multiKeys cbor libwally rounds text_len text multi_tag threshold value) fun more =>
      Declared 2 (fun value => ∃ keys texts, AreKeys keys value ∧ keys ≠ [] ∧ threshold ≤ keys.length ∧
        keys.length ≤ MAX_ALLOWED_SIGNERS ∧ keysText? libwally keys = some texts ∧
        more = text ++ multiHead sorted threshold ++ texts ∧ more.length < text_len) items := by
  refine reads_declared correct at_map (by decide) (by decide : UR_ERR_INVALID ∈ messages) ?_ rfl
  rintro out value' ⟨⟨later, there⟩, formed, enough⟩
  have head_eq : ascii (if multi_tag = UR_TAG_SORTEDMULTI then "sortedmulti" else "multi") ++ ascii "(" ++ decimal threshold =
      multiHead sorted threshold := by
    rw [kind, multiHead]
    cases sorted <;> rfl
  simp only [head_eq]
  cases counted : arrayLength cbor out with
  | none =>
    refine .refuse (by decide) ?_
    rintro more ⟨keys, texts, ⟨head, items, rfl, _⟩, _⟩
    rw [(arrayLength_eq_some correct there).mpr ⟨head, items, rfl, rfl⟩] at counted
    cases counted
  | some num_keys =>
    obtain ⟨head, items, rfl, length⟩ := (arrayLength_eq_some correct there).mp counted
    have same_length : ∀ {keys}, AreKeys keys (.array (some head) items) → keys.length = num_keys := by
      rintro keys ⟨_, _, same, each⟩
      obtain ⟨_, rfl⟩ := Item.array.inj same
      rw [← length, each.length_eq]
    obtain ⟨first, entered, inside⟩ := enter_array correct there
    have shorter : (bytesAll items).length ≤ rounds := by
      rw [Item.bytes] at enough
      simp only [List.length_append] at enough
      omega
    simp only [entered]
    refine .check (by decide) ?_ fun positive => .check (by decide) ?_ fun few => .check
      (by decide) ?_ fun enough_keys => ?_
    · rintro rfl more ⟨keys, _, are_keys, some_keys, _⟩
      exact some_keys (List.length_eq_zero_iff.mp (same_length are_keys))
    · rintro many more ⟨keys, _, are_keys, _, _, few, _⟩
      rw [same_length are_keys] at few
      omega
    · rintro short more ⟨keys, _, are_keys, _, enough_keys, _⟩
      rw [same_length are_keys] at enough_keys
      omega
    · subst length
      refine ((appendText_reads text _).bind fun front begun =>
        keysText_reads correct libwally inside (wellFormed_array formed) shorter begun.2).congr fun more => ?_
      rw [multiHead_short (by omega)]
      constructor
      · rintro ⟨_, ⟨rfl, _⟩, keys, texts, each, made, rfl, fits⟩
        have counted := each.length_eq
        refine ⟨keys, texts, ⟨head, items, rfl, each⟩, ?_, by omega, by omega, made, rfl, fits⟩
        rintro rfl
        exact positive counted.symm
      · rintro ⟨keys, texts, ⟨_, _, same, each⟩, _, _, _, made, rfl, fits⟩
        obtain ⟨_, rfl⟩ := Item.array.inj same
        refine ⟨_, ⟨rfl, ?_⟩, keys, texts, each, made, rfl, fits⟩
        rw [List.length_append] at fits
        omega

/-- What is behind the tag of a `wsh`. -/
theorem multiText_reads (stands : Stands view rounds value item) {text : Bytes} :
    Reads (multiText cbor libwally rounds text_len text value) fun more =>
      ∃ sorted threshold keys texts, IsMulti sorted threshold keys item ∧ keysText? libwally keys = some texts ∧
        more = text ++ multiHead sorted threshold ++ texts ∧ more.length < text_len := by
  obtain ⟨⟨later, there⟩, formed, enough⟩ := stands
  obtain ⟨tagged, untagged⟩ := skip_one_tag_eq correct there
  rw [multiText]
  cases item with
  | tag multi inner =>
    obtain ⟨next, skipped, at_inner⟩ := tagged multi inner rfl
    have inside : Stands view rounds next inner := by
      refine ⟨⟨later, at_inner⟩, ?_, ?_⟩
      · cases formed with
        | tag tagged => exact tagged
      · rw [Item.bytes, List.length_append] at enough
        omega
    simp only [skipped]
    refine .check (by decide) ?_ fun known => ?_
    · rintro ⟨other, neither⟩ more ⟨sorted, _, _, _, ⟨_, _, ⟨rfl, rfl⟩, kind, _⟩, _⟩
      cases sorted with
      | false => exact other kind
      | true => exact neither kind
    · obtain ⟨sorted, kind⟩ : ∃ sorted : Bool, multi.value = if sorted then UR_TAG_SORTEDMULTI else UR_TAG_MULTI := by
        by_cases sorted : multi.value = UR_TAG_SORTEDMULTI
        · exact ⟨true, sorted⟩
        · exact ⟨false, by_contra fun other => known ⟨other, sorted⟩⟩
      refine (reads_map correct inside fun items at_map => (readThreshold_reads correct at_map).bind fun threshold _ =>
        multiKeys_reads correct libwally at_map sorted kind).congr fun more => ?_
      constructor
      · rintro ⟨head, items, rfl, numbered, threshold, ⟨one, there_one, reads, positive⟩, two, there_two, keys, texts,
          are_keys, _,
          least, few, made, rfl, fits⟩
        exact ⟨sorted, threshold, keys, texts, ⟨multi, _, rfl, kind, ⟨by omega, least, few⟩, head, items, rfl, numbered,
          ⟨one, there_one, reads⟩, two, there_two, are_keys⟩, made, rfl, fits⟩
      · rintro ⟨sorted', threshold, keys, texts, ⟨_, _, same, kind', ⟨positive, least, few⟩, head, items, rfl, numbered,
          ⟨one, there_one, reads⟩, two, there_two, are_keys⟩, made, rfl, fits⟩
        obtain ⟨rfl, rfl⟩ := Item.tag.inj same
        obtain rfl : sorted' = sorted := by
          rw [kind] at kind'
          cases sorted <;> cases sorted' <;> first | rfl | cases kind'
        refine ⟨head, items, rfl, numbered, threshold, ⟨one, there_one, reads, by omega⟩, two, there_two, keys, texts,
          are_keys, ?_,
          least, few, made, rfl, fits⟩
        rintro rfl
        rw [List.length_nil] at least
        omega
  | _ =>
    rw [untagged (by simp)]
    refine .refuse (by decide) ?_
    rintro more ⟨_, _, _, _, ⟨_, _, same, _⟩, _⟩
    cases same

/-- What is behind the tag of a `wsh`, closed. -/
theorem wsh_reads (stands : Stands view rounds value item) (closers : Nat) (text : Bytes) :
    Reads (do
      let text ← appendText text_len text (ascii "wsh(")
      let text ← multiText cbor libwally rounds text_len text value
      closeText text_len (closers + 2) text) fun more =>
        ∃ sorted threshold keys body, IsMulti sorted threshold keys item ∧
          (Script.wsh sorted threshold keys).text libwally = some body ∧
          more = text ++ body ++ (List.replicate closers (ascii ")")).flatten ∧ more.length < text_len := by
  have closing : (List.replicate (closers + 2) (ascii ")")).flatten = ascii "))" ++
    (List.replicate closers (ascii ")")).flatten := by
    rw [Nat.add_comm, List.replicate_add, List.flatten_append]
    rfl
  refine ((appendText_reads text _).bind fun front begun => (multiText_reads correct libwally stands).bind fun body made =>
    closeText_reads (closers + 2) (show body.length < text_len by
      obtain ⟨_, _, _, _, _, _, _, fits⟩ := made
      exact fits)).congr fun more => ?_
  rw [closing]
  constructor
  · rintro ⟨_, ⟨rfl, _⟩, _, ⟨sorted, threshold, keys, texts, multi, made, rfl, _⟩, rfl, fits⟩
    refine ⟨sorted, threshold, keys, ascii "wsh(" ++ multiHead sorted threshold ++ texts ++ ascii "))", multi, ?_,
      by simp, fits⟩
    rw [Script.text, made, Option.map_some]
  · rintro ⟨sorted, threshold, keys, _, multi, made, rfl, fits⟩
    obtain ⟨texts, printed, rfl⟩ := Option.map_eq_some_iff.mp made
    simp only [List.length_append] at fits
    refine ⟨_, ⟨rfl, ?_⟩, _, ⟨sorted, threshold, keys, texts, multi, printed, rfl, ?_⟩, by simp, ?_⟩ <;>
    · simp only [List.length_append]
      omega

/-- A single key, closed. -/
theorem single_reads (stands : Stands view rounds value item) (closers : Nat) (text : Bytes) (witness : Bool) :
    Reads (do
      let text ← appendText text_len text (ascii (if witness then "wpkh(" else "pkh("))
      let written ← hdkey_to_text cbor libwally rounds value (text_len - text.length)
      closeText text_len (closers + 1) (text ++ written.1)) fun more =>
        ∃ key body, IsKey key item ∧ (Script.single witness key).text libwally = some body ∧
          more = text ++ body ++ (List.replicate closers (ascii ")")).flatten ∧ more.length < text_len := by
  have closing : (List.replicate (closers + 1) (ascii ")")).flatten = ascii ")" ++
    (List.replicate closers (ascii ")")).flatten := by
    rw [List.replicate_succ, List.flatten_cons]
  refine ((appendText_reads text _).bind fun front begun =>
    (hdkey_reads correct libwally stands (text_len - front.length)).bind fun written made =>
    closeText_reads (closers + 1) (show (front ++ written.1).length < text_len by
      obtain ⟨_, _, _, _, fits⟩ := made
      rw [List.length_append]
      omega)).congr fun more => ?_
  rw [closing]
  constructor
  · rintro ⟨_, ⟨rfl, _⟩, written, ⟨_, key, is_key, made, _⟩, rfl, fits⟩
    refine ⟨key, ascii (if witness then "wpkh(" else "pkh(") ++ written.1 ++ ascii ")", is_key, ?_, by simp, fits⟩
    rw [Script.text, made, Option.map_some]
  · rintro ⟨key, _, is_key, made, rfl, fits⟩
    obtain ⟨written, printed, rfl⟩ := Option.map_eq_some_iff.mp made
    simp only [List.length_append] at fits
    refine ⟨_, ⟨rfl, ?_⟩, (written, _), ⟨rfl, key, is_key, printed, ?_⟩, by simp, ?_⟩ <;>
    · simp only [List.length_append]
      omega

/-! ### Outputs -/

theorem scriptText_reads (stands : Stands view rounds value item) (closers : Nat) (text : Bytes) (head : Head) :
    Reads (scriptText cbor libwally rounds text_len closers text head.value value) fun more =>
      ∃ script body, IsScript script (.tag head item) ∧ script.text libwally = some body ∧
        more = text ++ body ++ (List.replicate closers (ascii ")")).flatten ∧ more.length < text_len := by
  rw [scriptText]
  have single {witness : Bool} (tag : head.value = if witness then UR_TAG_WPKH else UR_TAG_PKH) (more : Bytes) :
      (∃ key body, IsKey key item ∧ (Script.single witness key).text libwally = some body ∧
        more = text ++ body ++ (List.replicate closers (ascii ")")).flatten ∧ more.length < text_len) ↔
      ∃ script body, IsScript script (.tag head item) ∧ script.text libwally = some body ∧
        more = text ++ body ++ (List.replicate closers (ascii ")")).flatten ∧ more.length < text_len := by
    constructor
    · rintro ⟨key, body, is_key, made⟩
      exact ⟨_, body, .single tag is_key, made⟩
    · rintro ⟨script, body, is_script, made⟩
      cases is_script with
      | wsh wsh _ =>
        rw [tag] at wsh
        cases witness <;> cases wsh
      | @single other key _ _ other_tag is_key =>
        obtain rfl : other = witness := by
          rw [tag] at other_tag
          cases other <;> cases witness <;> first | rfl | cases other_tag
        exact ⟨key, body, is_key, made⟩
  by_cases wsh : head.value = UR_TAG_WSH
  · rw [if_pos wsh]
    refine (wsh_reads correct libwally stands closers text).congr fun more => ?_
    constructor
    · rintro ⟨sorted, threshold, keys, body, multi, made⟩
      exact ⟨_, body, .wsh wsh multi, made⟩
    · rintro ⟨script, body, is_script, made⟩
      cases is_script with
      | @wsh sorted threshold keys _ _ _ multi => exact ⟨sorted, threshold, keys, body, multi, made⟩
      | @single witness _ _ _ tag _ =>
        rw [wsh] at tag
        cases witness <;> cases tag
  · rw [if_neg wsh]
    by_cases wpkh : head.value = UR_TAG_WPKH
    · rw [if_pos (.inl wpkh), if_pos wpkh]
      exact (single_reads correct libwally stands closers text true).congr (single wpkh)
    · by_cases pkh : head.value = UR_TAG_PKH
      · rw [if_pos (.inr pkh), if_neg wpkh]
        exact (single_reads correct libwally stands closers text false).congr (single pkh)
      · rw [if_neg (by tauto)]
        refine .refuse (by decide) ?_
        rintro more ⟨script, body, is_script, _⟩
        cases is_script with
        | wsh tag _ => exact wsh tag
        | @single witness _ _ _ tag _ =>
          cases witness with
          | true => exact wpkh tag
          | false => exact pkh tag

theorem taggedText_reads (stands : Stands view rounds value item) (closers : Nat) (text : Bytes) :
    Reads (match skip_one_tag cbor value with
      | none => refuse UR_ERR_UNSUPPORTED
      | some (tag, value) => scriptText cbor libwally rounds text_len closers text tag value) fun more =>
        ∃ script body, IsScript script item ∧ script.text libwally = some body ∧
          more = text ++ body ++ (List.replicate closers (ascii ")")).flatten ∧ more.length < text_len := by
  obtain ⟨⟨later, there⟩, formed, enough⟩ := stands
  obtain ⟨tagged, untagged⟩ := skip_one_tag_eq correct there
  cases item with
  | tag head inner =>
    obtain ⟨next, skipped, at_inner⟩ := tagged head inner rfl
    simp only [skipped]
    refine scriptText_reads correct libwally ⟨⟨later, at_inner⟩, ?_, ?_⟩ closers text head
    · cases formed with
      | tag tagged => exact tagged
    · rw [Item.bytes, List.length_append] at enough
      omega
  | _ =>
    rw [untagged (by simp)]
    refine .refuse (by decide) ?_
    rintro more ⟨script, body, is_script, _⟩
    cases is_script

end

/-- What an input declares is what it is read as. -/
theorem crypto_output_reads {V K : Type} {cbor : Stepping V} {view : V → Cursor} {value : V} {root : Item}
    {input rest : Bytes}
    {text_len : Nat} (correct : cbor.Correct view) (libwally : HdKeys K)
    (accepted : rpc_untrusted_parser_init cbor.toTinycbor input = some value) (read : decode input = some (root, rest))
    (large : MAX_DESCRIPTOR_SCRIPT_LEN < text_len) :
    Reads (bcur_parse_crypto_output cbor libwally input text_len) fun text =>
      ∃ output : Output, IsOutput output root ∧ output.text libwally = some text ∧ text.length < text_len := by
  obtain ⟨current, ⟨behind_root, whole⟩, formed, filled⟩ := accepted_spec correct.toCorrect accepted read
  have there : ∃ later, (view value).items = root :: later := by
    rw [Cursor.current] at current
    cases items : (view value).items with
    | nil =>
      rw [items] at current
      cases current
    | cons first later =>
      rw [items] at current
      obtain ⟨_, rfl⟩ : _ ∧ first = root := by simpa using current
      exact ⟨later, rfl⟩
  have enough : root.bytes.length ≤ input.length + 1 := by
    have lengths := congrArg List.length whole
    rw [List.length_append, List.drop_zero] at lengths
    omega
  have stands : Stands view (input.length + 1) (behindTag cbor value UR_TAG_OUTPUT UR_TAG_OUTPUT_NEW)
      (behind UR_TAG_OUTPUT UR_TAG_OUTPUT_NEW root) := Stands.behind correct ⟨there, formed, enough⟩ _ _
  simp only [bcur_parse_crypto_output, ne_eq, filled, not_false_eq_true, decide_true, Check.ensure_true, Check.ok_bind,
    large,
    gt_iff_lt, accepted]
  obtain ⟨⟨later, at_body⟩, body_formed, body_enough⟩ := id stands
  obtain ⟨skips, stays⟩ := skip_tag_if_eq correct at_body UR_TAG_SH UR_TAG_SH
  by_cases sh : ∃ head inner, behind UR_TAG_OUTPUT UR_TAG_OUTPUT_NEW root = .tag head inner ∧ head.value = UR_TAG_SH
  · obtain ⟨head, inner, body, tag⟩ := sh
    obtain ⟨next, skipped, at_inner⟩ := skips head inner body (.inl tag)
    rw [body] at body_formed body_enough
    have inside : Stands view (input.length + 1) next inner := by
      refine ⟨⟨later, at_inner⟩, ?_, ?_⟩
      · cases body_formed with
        | tag tagged => exact tagged
      · rw [Item.bytes, List.length_append] at body_enough
        omega
    simp only [skipped, Option.isSome_some, if_true, Option.getD_some]
    refine ((appendText_reads [] _).bind fun front begun => taggedText_reads correct libwally inside 1 front).congr fun text => ?_
    have one : (List.replicate 1 (ascii ")")).flatten = ascii ")" := rfl
    rw [one]
    constructor
    · rintro ⟨_, ⟨rfl, _⟩, script, text, is_script, made, rfl, fits⟩
      refine ⟨⟨true, script⟩, ?_, ?_, fits⟩
      · rw [IsOutput, if_pos rfl]
        exact ⟨head, inner, body, tag, is_script⟩
      · rw [Output.text, made, Option.map_some, if_pos rfl, List.nil_append]
    · rintro ⟨⟨sh, script⟩, is_output, made, fits⟩
      obtain ⟨text, printed, rfl⟩ := Option.map_eq_some_iff.mp made
      cases sh with
      | true =>
        obtain ⟨_, _, same, _, is_script⟩ := is_output
        obtain ⟨rfl, rfl⟩ := Item.tag.inj (body.symm.trans same)
        refine ⟨_, ⟨rfl, ?_⟩, script, text, is_script, printed, rfl, fits⟩
        simp only [if_true, List.length_append] at fits
        rw [List.nil_append]
        omega
      | false =>
        rw [IsOutput, if_neg Bool.false_ne_true, body] at is_output
        exact absurd is_output (isScript_not_sh tag)
  · have none_of : skip_tag_if cbor (behindTag cbor value UR_TAG_OUTPUT UR_TAG_OUTPUT_NEW) UR_TAG_SH UR_TAG_SH = none :=
      stays fun head inner same tag => sh ⟨head, inner, same, tag.elim id id⟩
    simp only [none_of, Option.isSome_none, Bool.false_eq_true, if_false, Option.getD_none, Check.pure_eq, Check.ok_bind]
    refine (taggedText_reads correct libwally stands 0 []).congr fun text => ?_
    constructor
    · rintro ⟨script, text, is_script, made, rfl, fits⟩
      refine ⟨⟨false, script⟩, is_script, ?_, fits⟩
      rw [Output.text, made]
      simp
    · rintro ⟨⟨sh_output, script⟩, is_output, made, fits⟩
      obtain ⟨text, printed, rfl⟩ := Option.map_eq_some_iff.mp made
      cases sh_output with
      | true =>
        obtain ⟨head, inner, body, tag, _⟩ := is_output
        exact absurd ⟨head, inner, body, tag⟩ sh
      | false => exact ⟨script, text, is_output, printed, by simp, fits⟩

/-- An input is accepted if and only if its item declares an output whose text has room; then it is that text, of the only
    output declared. Otherwise it is refused with a message. -/
theorem crypto_output_exact {V K : Type} {cbor : Stepping V} {view : V → Cursor} {value : V} {root : Item}
    {input rest : Bytes} {text_len : Nat} (correct : cbor.Correct view) (libwally : HdKeys K)
    (accepted : rpc_untrusted_parser_init cbor.toTinycbor input = some value) (read : decode input = some (root, rest))
    (large : MAX_DESCRIPTOR_SCRIPT_LEN < text_len) :
    (∀ text, bcur_parse_crypto_output cbor libwally input text_len = .ok text ↔
      ∃ output : Output, IsOutput output root ∧ output.text libwally = some text ∧ text.length < text_len) ∧
    (∀ output output', IsOutput output root → IsOutput output' root → output = output') ∧
    ∀ halt, bcur_parse_crypto_output cbor libwally input text_len = .error halt →
      ∃ text ∈ messages, halt = .error (.errmsg text) := by
  have reads := crypto_output_reads correct libwally accepted read large
  exact ⟨reads.gives, fun _ _ => output_unique, reads.refuses⟩

/-- In whatever order the entries of its maps are, an input is accepted as the same text. -/
theorem crypto_output_unordered {V K : Type} {cbor : Stepping V} {view : V → Cursor} {value value' : V} {root root' : Item}
    {input input' rest rest' : Bytes} {text_len : Nat} (correct : cbor.Correct view) (libwally : HdKeys K)
    (accepted : rpc_untrusted_parser_init cbor.toTinycbor input = some value) (read : decode input = some (root, rest))
    (accepted' : rpc_untrusted_parser_init cbor.toTinycbor input' = some value')
    (read' : decode input' = some (root', rest')) (large : MAX_DESCRIPTOR_SCRIPT_LEN < text_len)
    (reordered : Reordered root root') (text : Bytes) :
    bcur_parse_crypto_output cbor libwally input text_len = .ok text ↔
      bcur_parse_crypto_output cbor libwally input' text_len = .ok text := by
  rw [(crypto_output_reads correct libwally accepted read large).gives,
    (crypto_output_reads correct libwally accepted' read' large).gives]
  constructor
  · rintro ⟨output, declared, printed⟩
    exact ⟨output, (unordered_output output).of_reordered reordered declared, printed⟩
  · rintro ⟨output, declared, printed⟩
    exact ⟨output, (unordered_output output).of_reordered reordered.symm declared, printed⟩

/-! ### A library -/

/-- A library whose values are what they stand for, in its further calls as well. -/
def stepping : Stepping Cursor where
  toTinycbor := { reference with
    cbor_value_enter_container := fun cursor =>
      match cursor.items with
      | .array head items :: _ => some { offset := cursor.offset + (opening 4 head).length, items }
      | .map head items :: _ => some { offset := cursor.offset + (opening 5 head).length, items }
      | _ => none
    cbor_value_advance_fixed := fun cursor =>
      match cursor.items with
      | .tag head item :: later => some { offset := cursor.offset + (head.bytes 6).length, items := item :: later }
      | item :: later => some { offset := cursor.offset + item.bytes.length, items := later }
      | [] => none }
  cbor_value_is_boolean cursor := (cursor.items.head?.bind Item.boolean?).isSome
  cbor_value_get_boolean cursor := cursor.items.head?.bind Item.boolean?
  cbor_value_get_tag cursor :=
    match cursor.items with
    | .tag head _ :: _ => some head.value
    | _ => none
  cbor_value_advance cursor :=
    match cursor.items with
    | item :: later => some { offset := cursor.offset + item.bytes.length, items := later }
    | [] => none

theorem stepping_correct : stepping.Correct id where
  toCorrect := { reference_correct with
    enter_container := fun current => by
      obtain ⟨later, rfl⟩ := current_eq_some current
      exact ⟨_, rfl, rfl⟩
    advance_fixed := fun {value head later} there => by
      obtain ⟨offset, items⟩ := value
      cases there
      exact ⟨_, rfl, rfl⟩ }
  no_integer {value} ends := by
    obtain ⟨offset, items⟩ := value
    cases ends
    rfl
  is_boolean _ := rfl
  get_boolean mark := mark
  get_tag {value head item later} there := by
    obtain ⟨offset, items⟩ := value
    cases there
    rfl
  advance_tag {value head item later} there := by
    obtain ⟨offset, items⟩ := value
    cases there
    exact ⟨_, rfl, rfl⟩
  advance {value item later} there _ := by
    obtain ⟨offset, items⟩ := value
    cases there
    exact ⟨_, rfl, rfl⟩
  enter_map {value head items later} there := by
    obtain ⟨offset, cursor⟩ := value
    cases there
    exact ⟨_, rfl, rfl⟩
  copy_byte_string_long {value max item later content} there holds long := by
    obtain ⟨offset, items⟩ := value
    cases there
    simp [stepping, reference, holds]
    omega

theorem stepping_accepts {input rest : Bytes} {root : Item} (read : decode input = some (root, rest)) :
    rpc_untrusted_parser_init stepping.toTinycbor input = some { offset := 0, items := [root] } := reference_accepts read

/-! ### A descriptor of two keys -/

/-- One of the inputs the firmware checks itself with (`UR_SINGLE_HEX`). -/
def singleInput : Bytes :=
  [217, 1, 145, 217, 1, 151, 162, 1, 1, 2, 130, 217, 1, 47, 165, 3, 88, 33, 2, 26, 59, 245, 251, 247, 55, 208, 243,
   105, 147, 253, 70, 220, 73, 19, 9, 59, 235, 83, 45, 101, 79, 224, 223, 217, 139, 210, 117, 133, 220, 159, 41, 4,
   88, 32, 187, 160, 199, 202, 22, 10, 135, 14, 254, 185, 64, 171, 144, 208, 244, 40, 79, 234, 27, 94, 13, 33, 23,
   103, 126, 130, 63, 195, 126, 45, 87, 99, 5, 217, 1, 49, 162, 1, 0, 2, 0, 6, 217, 1, 48, 163, 1, 136, 24, 48, 245,
   0, 245, 0, 245, 2, 245, 2, 26, 115, 197, 218, 10, 3, 4, 8, 26, 28, 242, 151, 22, 217, 1, 47, 165, 3, 88, 33, 2,
   232, 68, 80, 130, 167, 47, 41, 183, 92, 164, 135, 72, 169, 20, 223, 96, 98, 42, 96, 156, 172, 252, 232, 237, 14,
   53, 128, 69, 96, 116, 29, 41, 4, 88, 32, 207, 183, 24, 131, 240, 22, 118, 245, 135, 208, 35, 204, 83, 163, 91, 199,
   248, 143, 114, 75, 31, 140, 40, 146, 172, 18, 117, 172, 130, 42, 62, 221, 5, 217, 1, 49, 162, 1, 0, 2, 0, 6, 217,
   1, 48, 163, 1, 136, 0, 245, 1, 244, 2, 245, 2, 244, 2, 26, 52, 66, 25, 62, 3, 4, 8, 26, 238, 122, 185, 12]

/-- The keys of that input. -/
def firstParts : KeyParts where
  version := BIP32_VER_MAIN_PUBLIC
  depth := 4
  child_num := 0x80000002
  chain_code :=
    [187, 160, 199, 202, 22, 10, 135, 14, 254, 185, 64, 171, 144, 208, 244, 40, 79, 234, 27, 94, 13, 33, 23, 103, 126,
     130, 63, 195, 126, 45, 87, 99]
  pub_key :=
    [2, 26, 59, 245, 251, 247, 55, 208, 243, 105, 147, 253, 70, 220, 73, 19, 9, 59, 235, 83, 45, 101, 79, 224, 223,
     217, 139, 210, 117, 133, 220, 159, 41]
  parent160 := [28, 242, 151, 22]

def secondParts : KeyParts where
  version := BIP32_VER_MAIN_PUBLIC
  depth := 4
  child_num := 2
  chain_code :=
    [207, 183, 24, 131, 240, 22, 118, 245, 135, 208, 35, 204, 83, 163, 91, 199, 248, 143, 114, 75, 31, 140, 40, 146,
     172, 18, 117, 172, 130, 42, 62, 221]
  pub_key :=
    [2, 232, 68, 80, 130, 167, 47, 41, 183, 92, 164, 135, 72, 169, 20, 223, 96, 98, 42, 96, 156, 172, 252, 232, 237,
     14, 53, 128, 69, 96, 116, 29, 41]
  parent160 := [238, 122, 185, 12]

def firstXpub : Bytes :=
  ascii "xpub6DkFAXWQ2dHxq2vatrt9qyA3bXYU4ToWQwCHbf5XB2mSTexcHZCeKS1VZYcPoBd5X8yVcbXFHJR9R8UCVpt82VX1VhR28mCyxUFL4r6KFrf"

def secondXpub : Bytes :=
  ascii "xpub6FHa3pjLCk84BayeJxFW2SP4XRrFd1JYnxeLeU8EqN3vDfZmbqBqaGJAyiLjTAwm6ZLRQUMv1ZACTj37sR62cfN7fe5JnJ7dh8zL4fiyLHV"

/-- The library, as far as these keys go. -/
def twoKeys : HdKeys KeyParts where
  bip32_key_init parts := if parts = firstParts ∨ parts = secondParts then some parts else none
  bip32_key_to_base58 key := some (if key = firstParts then firstXpub else secondXpub)

/-- The text that is expected of that input (`CANONICAL_TEXT`). -/
def canonicalText : Bytes :=
  ascii "wsh(sortedmulti(1,[73c5da0a/48h/0h/0h/2h]" ++ firstXpub ++ ascii "/<0;1>/*,[3442193e/0h/1/2h/2]" ++ secondXpub ++
    ascii "/<0;1>/*))"

theorem single_parsed : bcur_parse_crypto_output stepping twoKeys singleInput 2912 = .ok canonicalText := by
  rw [twoKeys, canonicalText, firstXpub, secondXpub]
  repeat rw [ascii_ofList]
  decide +kernel

theorem single_decoded : (decode singleInput).isSome = true := by decide +kernel

/-- It is accepted as that text, which is that of the output it declares. -/
theorem crypto_output_exact_single :
    bcur_parse_crypto_output stepping twoKeys singleInput 2912 = .ok canonicalText ∧
    ∃ root rest output, decode singleInput = some (root, rest) ∧ IsOutput output root ∧ output.text twoKeys =
      some canonicalText := by
  obtain ⟨⟨root, rest⟩, read⟩ := Option.isSome_iff_exists.mp single_decoded
  have large : MAX_DESCRIPTOR_SCRIPT_LEN < 2912 := by decide
  have exact_text := (crypto_output_exact stepping_correct twoKeys (stepping_accepts read) read large).1
  obtain ⟨output, declared, printed, _⟩ := (exact_text canonicalText).mp single_parsed
  exact ⟨single_parsed, root, rest, output, read, declared, printed⟩

/-- The entries of the first key, without the tags that may be left out. -/
def plainEntries : List (Nat × Item) :=
  [(3, .byteString firstParts.pub_key (by decide)), (4, .byteString firstParts.chain_code (by decide)),
    (6, .numberedMap [(1, .arrayOf [.uint 48, .ofBool true, .uint 0, .ofBool true, .uint 0, .ofBool true, .uint 2,
    .ofBool true]),
      (2, .uint 0x73c5da0a)]),
    (8, .uint 0x1cf29716)]

/-- The key is accepted with its entries in the opposite order. -/
theorem crypto_output_unordered_reverse :
    bcur_parse_crypto_output stepping twoKeys (Item.tagged UR_TAG_WPKH (.numberedMap plainEntries.reverse)).bytes 2912 =
      .ok (ascii "wpkh([73c5da0a/48h/0h/0h/2h]" ++ firstXpub ++ ascii "/<0;1>/*)") := by
  have formed : ∀ entry ∈ plainEntries, WellFormed entry.2 := by
    have steps : WellFormed (.arrayOf [.uint 48, .ofBool true, .uint 0, .ofBool true, .uint 0, .ofBool true, .uint 2,
      .ofBool true]) :=
      .arrayOf (by decide) (by simp [WellFormed.uint, WellFormed.ofBool])
    simp [plainEntries, WellFormed.uint, WellFormed.byteString, WellFormed.numberedMap, steps]
  have whole : WellFormed (.tagged UR_TAG_WPKH (.numberedMap plainEntries)) := .tagged _ (.numberedMap (by decide) formed)
  have turned : WellFormed (.tagged UR_TAG_WPKH (.numberedMap plainEntries.reverse)) :=
    .tagged _ (.numberedMap (by decide) (by simpa using formed))
  have read := decode_eq_some_iff.mpr ⟨(List.append_nil _).symm, whole⟩
  have read' := decode_eq_some_iff.mpr ⟨(List.append_nil _).symm, turned⟩
  have reordered : Reordered (.tagged UR_TAG_WPKH (.numberedMap plainEntries))
      (.tagged UR_TAG_WPKH (.numberedMap plainEntries.reverse)) := by
    have perm : (numbered plainEntries).Perm (numbered plainEntries.reverse) := (List.reverse_perm _).symm.map _
    exact Relation.ReflTransGen.lift (Item.tagged UR_TAG_WPKH) (fun _ _ inside => Swapped.tag inside) _ _
      (reordered_of_perm perm)
  refine (crypto_output_unordered stepping_correct twoKeys (stepping_accepts read) read (stepping_accepts read') read'
    (by decide) reordered _).mp ?_
  rw [twoKeys, firstXpub, secondXpub]
  repeat rw [ascii_ofList]
  decide +kernel

end PiJade.CryptoOutput
