import Mathlib.Data.Nat.Bitwise
import PiJade.CryptoOutputDeclared

/-!
The reader of output descriptors reads what they declare. Every function gives what the item it is at
declares, or refuses with one of four messages; none of them aborts, and their loops end. So an input
is accepted if and only if its item is an output whose text has room, and its text is that.
-/
namespace PiJade.CryptoOutput
open Cbor CborRpc Text
open SettingsCodec (ascii)
open DescriptorText (Stop refuse BIP32_MAX_CHILD_INDEX MAX_ALLOWED_SIGNERS MAX_DESCRIPTOR_SCRIPT_LEN)
open Wallet (Path MAX_PATH_LEN MAX_PATH_STR_LEN EC_PUBLIC_KEY_LEN harden unharden ishardened)
set_option linter.unusedSimpArgs false

/-! ### What the library does -/

/-- The library is correct in its further calls: a step from a tag leads to the item it is on. -/
structure Stepping.Correct {V : Type} (cbor : Stepping V) (view : V → Cursor) : Prop extends
    cbor.toTinycbor.Correct view where
  no_integer {value : V} : (view value).items = [] → cbor.cbor_value_is_unsigned_integer value = false
  is_boolean (value : V) : cbor.cbor_value_is_boolean value = ((view value).items.head?.bind Item.boolean?).isSome
  get_boolean {value : V} {mark : Bool} : (view value).items.head?.bind Item.boolean? = some mark →
    cbor.cbor_value_get_boolean value = some mark
  get_tag {value : V} {head : Head} {item : Item} {later : List Item} : (view value).items = .tag head item :: later →
    cbor.cbor_value_get_tag value = some head.value
  advance_tag {value : V} {head : Head} {item : Item} {later : List Item} : (view value).items = .tag head item :: later →
    ∃ next, cbor.cbor_value_advance_fixed value = some next ∧ (view next).items = item :: later
  advance {value : V} {item : Item} {later : List Item} : (view value).items = item :: later → typeOf item ≠ .tag →
    ∃ next, cbor.cbor_value_advance value = some next ∧ (view next).items = later
  enter_map {value : V} {head : Option Head} {items later : List Item} : (view value).items = .map head items :: later →
    ∃ first, cbor.cbor_value_enter_container value = some first ∧ (view first).items = items
  copy_byte_string_long {value : V} {max : Nat} {item : Item} {later : List Item} {content : Bytes} :
    (view value).items = item :: later → item.content? false = some content → max < content.length →
    cbor.cbor_value_copy_byte_string value max = none

/-! ### Reading -/

def messages : List String := [UR_ERR_UNSUPPORTED, UR_ERR_INVALID, UR_ERR_TOO_LARGE, UR_ERR_TOO_MANY]

/-- Code that gives what is so and nothing else, and refuses with a message where nothing is. -/
structure Reads {α : Type} (code : Check Stop α) (so : α → Prop) : Prop where
  gives (a : α) : code = .ok a ↔ so a
  refuses (halt : Halt Stop) : code = .error halt → ∃ text ∈ messages, halt = .error (.errmsg text)

namespace Reads
variable {α β : Type} {code : Check Stop α} {so : α → Prop}

theorem congr {other : α → Prop} (reads : Reads code so) (same : ∀ a, so a ↔ other a) : Reads code other :=
  ⟨fun a => (reads.gives a).trans (same a), reads.refuses⟩

theorem ok {a : α} (only : ∀ b, so b ↔ a = b) : Reads (.ok a) so where
  gives b := by rw [only, Except.ok.injEq]
  refuses halt wrong := by cases wrong

theorem refuse {text : String} (known : text ∈ messages) (nothing : ∀ a, ¬ so a) : Reads
    (DescriptorText.refuse text) so where
  gives a := ⟨fun wrong => (by cases wrong), fun here => absurd here (nothing a)⟩
  refuses halt ends := ⟨text, known, by cases ends; rfl⟩

theorem bind {f : α → Check Stop β} {then_so : α → β → Prop} (first : Reads code so)
    (second : ∀ a, so a → Reads (f a) (then_so a)) : Reads (code >>= f) fun b => ∃ a, so a ∧ then_so a b where
  gives b := by
    rw [Check.bind_eq_ok]
    constructor
    · rintro ⟨a, given, rest⟩
      have here := (first.gives a).mp given
      exact ⟨a, here, ((second a here).gives b).mp rest⟩
    · rintro ⟨a, here, there⟩
      exact ⟨a, (first.gives a).mpr here, ((second a here).gives b).mpr there⟩
  refuses halt ends := by
    cases result : code with
    | ok a =>
      rw [result] at ends
      exact (second a ((first.gives a).mp result)).refuses halt ends
    | error other =>
      rw [result] at ends
      cases ends
      exact first.refuses _ result

/-- Code behind a check that refuses nothing that is so. -/
theorem check {refused : Prop} [Decidable refused] {text : String} (known : text ∈ messages)
    (nothing : refused → ∀ a, ¬ so a) (otherwise : ¬ refused → Reads code so) :
    Reads (if refused then DescriptorText.refuse text else code) so := by
  by_cases here : refused
  · rw [if_pos here]
    exact refuse known (nothing here)
  · rw [if_neg here]
    exact otherwise here

/-- Code that gives a value if there is one, and refuses where there is none. -/
theorem option {found : Option α} {text : String} (known : text ∈ messages)
    (nothing : found = none → code = DescriptorText.refuse text) (something : ∀ a, found = some a → code = .ok a) :
    Reads code fun a => found = some a := by
  cases found with
  | none =>
    rw [nothing rfl]
    exact refuse known fun a wrong => by cases wrong
  | some a =>
    rw [something a rfl]
    exact ok fun b => by rw [Option.some.injEq]

end Reads

/-! ### Steps -/

section
variable {V : Type} {cbor : Stepping V} {view : V → Cursor} {value it : V} {item : Item} {items later : List Item}

theorem current_of (stands : (view value).items = item :: later) :
    (view value).current = some ((view value).offset, item) := by
  rw [Cursor.current, stands]
  rfl

variable (correct : cbor.Correct view)
include correct

theorem type_of (stands : (view value).items = item :: later) : cbor.cbor_value_get_type value = typeOf item := by
  rw [correct.get_type, current_of stands]
  rfl

theorem type_of_end (ends : (view value).items = []) : cbor.cbor_value_get_type value = .invalid := by
  rw [correct.get_type, Cursor.current, ends]
  rfl

theorem is_tag_iff (stands : (view value).items = item :: later) :
    cbor_value_is_tag cbor value = true ↔ ∃ head inner, item = .tag head inner := by
  rw [cbor_value_is_tag, type_of correct stands, beq_iff_eq]
  cases item with
  | string text | chunked text => cases text <;> simp [typeOf]
  | _ => simp [typeOf]

theorem is_unsigned (stands : (view value).items = item :: later) :
    cbor.cbor_value_is_unsigned_integer value = item.number?.isSome := by
  rw [Bool.eq_iff_iff, correct.is_unsigned_integer (current_of stands)]
  cases item <;> simp [Item.number?]

theorem get_uint32_eq (stands : (view value).items = item :: later) : get_uint32 cbor value = uint32? item := by
  rw [get_uint32, is_unsigned correct stands, uint32?]
  cases item with
  | unsigned head =>
    simp only [Item.number?, Option.isSome_some, Bool.not_true, Bool.false_eq_true, if_false,
      correct.get_uint64 (current_of stands), Option.bind_eq_bind, Option.bind_some, Option.filter_some, decide_eq_true_eq]
    by_cases large : UINT32_MAX < head.value
    · rw [if_pos large, if_neg (Nat.not_le.mpr large)]
    · rw [if_neg large, if_pos (Nat.not_lt.mp large)]
  | _ => rfl

theorem getBoolean_eq (stands : (view value).items = item :: later) : getBoolean cbor value = item.boolean? := by
  have head : (view value).items.head?.bind Item.boolean? = item.boolean? := by rw [stands]; rfl
  rw [getBoolean, correct.is_boolean, head]
  cases mark : item.boolean? with
  | none => rfl
  | some mark => exact correct.get_boolean (head.trans ‹_›)

theorem readKey_eq (stands : (view value).items = item :: later) :
    (item.number? = none → readKey cbor value = none) ∧
      ∀ number, item.number? = some number → ∃ next, readKey cbor value = some (number, next) ∧ (view next).items =
        later := by
  rw [readKey, is_unsigned correct stands]
  cases item with
  | unsigned head =>
    obtain ⟨next, advanced, behind⟩ := correct.advance stands (by simp [typeOf])
    refine ⟨fun wrong => (by cases wrong), ?_⟩
    rintro number ⟨rfl⟩
    refine ⟨next, ?_, behind⟩
    simp [Item.number?, correct.get_uint64 (current_of stands), advanced]
  | _ => exact ⟨fun _ => rfl, fun number wrong => by cases wrong⟩

theorem skip_one_tag_eq (stands : (view value).items = item :: later) :
    (∀ head inner, item = .tag head inner →
      ∃ next, skip_one_tag cbor value = some (head.value, next) ∧ (view next).items = inner :: later) ∧
    ((∀ head inner, item ≠ .tag head inner) → skip_one_tag cbor value = none) := by
  rw [skip_one_tag]
  constructor
  · rintro head inner rfl
    obtain ⟨next, advanced, behind⟩ := correct.advance_tag stands
    refine ⟨next, ?_, behind⟩
    rw [if_neg (by simp [(is_tag_iff correct stands).mpr ⟨head, inner, rfl⟩]), correct.get_tag stands, advanced]
    rfl
  · intro other
    rw [if_pos]
    have no_tag : ¬ cbor_value_is_tag cbor value = true := fun tag => by
      obtain ⟨head, inner, same⟩ := (is_tag_iff correct stands).mp tag
      exact other head inner same
    simpa using no_tag

theorem skip_tag_if_eq (stands : (view value).items = item :: later) (a b : Nat) :
    (∀ head inner, item = .tag head inner → head.value = a ∨ head.value = b →
      ∃ next, skip_tag_if cbor value a b = some next ∧ (view next).items = inner :: later) ∧
    ((∀ head inner, item = .tag head inner → ¬ (head.value = a ∨ head.value = b)) → skip_tag_if cbor value a b = none) := by
  rw [skip_tag_if]
  constructor
  · rintro head inner rfl wanted
    obtain ⟨next, advanced, behind⟩ := correct.advance_tag stands
    refine ⟨next, ?_, behind⟩
    rw [if_neg (by simp [(is_tag_iff correct stands).mpr ⟨head, inner, rfl⟩]), correct.get_tag stands]
    simp only [Option.bind_eq_bind, Option.bind_some]
    rw [if_neg (by tauto), advanced]
  · intro other
    by_cases tag : cbor_value_is_tag cbor value = true
    · obtain ⟨head, inner, rfl⟩ := (is_tag_iff correct stands).mp tag
      have unwanted := other head inner rfl
      rw [if_neg (by simp [tag]), correct.get_tag stands]
      simp only [Option.bind_eq_bind, Option.bind_some]
      rw [if_pos (by tauto)]
    · rw [if_pos (by simpa using tag)]

theorem behindTag_stands (stands : (view value).items = item :: later) (a b : Nat) :
    (view (behindTag cbor value a b)).items = behind a b item :: later := by
  obtain ⟨skips, stays⟩ := skip_tag_if_eq correct stands a b
  rw [behindTag]
  cases item with
  | tag head inner =>
    rw [behind]
    split
    · obtain ⟨next, skipped, there⟩ := skips head inner rfl ‹_›
      rw [skipped]
      exact there
    · rw [stays (by rintro _ _ ⟨rfl, rfl⟩; assumption)]
      exact stands
  | _ =>
    rw [stays (by rintro _ _ ⟨⟩)]
    exact stands

theorem advance_over_value_eq {rounds : Nat} (stands : (view value).items = item :: later)
    (enough : item.bytes.length ≤ rounds) :
    ∃ next, advance_over_value cbor rounds value = .ok (some next) ∧ (view next).items = later := by
  induction rounds generalizing value item with
  | zero =>
    obtain ⟨first, rest, bytes, _⟩ := item.bytes_cons
    rw [bytes] at enough
    simp at enough
  | succ rounds ih =>
    rw [advance_over_value]
    by_cases tag : cbor_value_is_tag cbor value = true
    · obtain ⟨head, inner, rfl⟩ := (is_tag_iff correct stands).mp tag
      obtain ⟨next, advanced, behind⟩ := correct.advance_tag stands
      have shorter : inner.bytes.length ≤ rounds := by
        rw [Item.bytes, List.length_append] at enough
        have := head.bytes_pos 6
        omega
      rw [if_pos tag, advanced]
      exact ih behind shorter
    · rw [if_neg tag]
      obtain ⟨next, advanced, behind⟩ := correct.advance stands fun same => tag (by
        rw [cbor_value_is_tag, type_of correct stands, same]
        rfl)
      exact ⟨next, by rw [advanced], behind⟩

end

/-! ### Maps -/

def bitOf (number : Nat) : UInt64 := 1 <<< UInt64.ofNat number

theorem toNat_bitOf {number : Nat} (small : number < KEY_LIMIT) : (bitOf number).toNat = 2 ^ number := by
  have below : number < 64 := small
  have power : 2 ^ number < 18446744073709551616 := (Nat.pow_lt_pow_right (by decide) below : 2 ^ number < 2 ^ 64)
  have same : number % 18446744073709551616 % 64 = number := by omega
  rw [bitOf, UInt64.toNat_shiftLeft]
  simp only [UInt64.toNat_one, UInt64.toNat_ofNat', Nat.reducePow]
  rw [same, Nat.shiftLeft_eq, Nat.one_mul, Nat.mod_eq_of_lt power]

theorem bit_iff (word : UInt64) {number : Nat} (small : number < KEY_LIMIT) :
    word &&& bitOf number ≠ 0 ↔ word.toNat.testBit number = true := by
  rw [ne_eq, ← UInt64.toNat_inj, UInt64.toNat_and, toNat_bitOf small, Nat.and_two_pow]
  cases word.toNat.testBit number <;> simp

/-- The bits behind a key are those before it and its own. -/
theorem bit_set (seen : UInt64) (number : Nat) {other : Nat} (low : other < KEY_LIMIT) :
    (if number < 64 then seen ||| bitOf number else seen) &&& bitOf other ≠ 0 ↔
      seen &&& bitOf other ≠ 0 ∨ number = other := by
  split
  · rename_i small
    rw [bit_iff _ low, bit_iff _ low, UInt64.toNat_or, toNat_bitOf small, Nat.testBit_or, Nat.testBit_two_pow,
      Bool.or_eq_true, decide_eq_true_eq]
  · rename_i large
    have differs : number ≠ other := by
      rintro rfl
      exact large low
    simp [differs]

theorem bit_clear (number : Nat) : (0 : UInt64) &&& bitOf number = 0 := by simp

section
variable {V : Type} {cbor : Stepping V} {view : V → Cursor} {value it : V} {item : Item} {items later : List Item}
  {rounds left : Nat} (correct : cbor.Correct view)
include correct

/-- The loop finds out whether all keys are numbers, and none that is seen already or twice is below 64. -/
theorem keysFrom_eq (stands : (view it).items = items) (paired : items.length % 2 = 0)
    (turns : (bytesAll items).length < left) (enough : (bytesAll items).length ≤ rounds) (seen : UInt64) :
    ∃ unique, keysFrom cbor rounds left seen it = .ok unique ∧
      (unique = true ↔ Numbered KEY_LIMIT items ∧
        ∀ number value, number < KEY_LIMIT → seen &&& bitOf number ≠ 0 → ¬ Entry items number value) := by
  induction items using entries.induct generalizing it left seen with
  | case1 key first later ih =>
    rw [bytesAll, bytesAll, List.length_append, List.length_append] at turns enough
    rw [List.length_cons, List.length_cons] at paired
    have begins := key.bytes_pos
    obtain ⟨left, rfl⟩ : ∃ less, left = less + 1 := ⟨left - 1, by omega⟩
    have going : cbor.cbor_value_at_end it = false := by rw [correct.at_end, stands]; rfl
    obtain ⟨no_number, number_read⟩ := readKey_eq correct stands
    rw [keysFrom, going, if_neg Bool.false_ne_true]
    cases same : key.number? with
    | none =>
      refine ⟨false, by rw [no_number same], ?_⟩
      rw [Numbered.cons, same]
      simp
    | some number =>
      obtain ⟨next, read, at_value⟩ := number_read number same
      have value_there : cbor.cbor_value_at_end next = false := by rw [correct.at_end, at_value]; rfl
      obtain ⟨last, advanced, at_later⟩ := advance_over_value_eq correct at_value (by omega : first.bytes.length ≤ rounds)
      simp only [read, value_there, Bool.false_eq_true, if_false, advanced, Check.ok_bind, Check.pure_eq]
      by_cases again : number < 64 ∧ seen &&& bitOf number ≠ 0
      · refine ⟨false, if_pos again, ?_⟩
        simp only [Bool.false_eq_true, false_iff, not_and, not_forall]
        intro _
        exact ⟨number, first, again.1, again.2, not_not.mpr (Entry.cons.mpr (.inl ⟨same, rfl⟩))⟩
      · obtain ⟨unique, rest, meaning⟩ := @ih _ left at_later (by omega) (by omega) (by omega)
          (if number < 64 then seen ||| bitOf number else seen)
        refine ⟨unique, (if_neg again).trans rest, meaning.trans ?_⟩
        rw [Numbered.cons]
        constructor
        · rintro ⟨numbered, fresh⟩
          refine ⟨⟨number, same, numbered, fun small value => ?_⟩, fun other value low was there => ?_⟩
          · exact fresh number value small ((bit_set seen number small).mpr (.inr rfl))
          · obtain ⟨key_eq, rfl⟩ | behind := Entry.cons.mp there
            · obtain rfl : number = other := by simpa [same] using key_eq
              exact again ⟨low, was⟩
            · exact fresh other value low ((bit_set seen number low).mpr (.inl was)) behind
        · rintro ⟨⟨_, key_eq, numbered, once⟩, fresh⟩
          obtain rfl : number = _ := Option.some.inj (same.symm.trans key_eq)
          refine ⟨numbered, fun other value low was there => ?_⟩
          obtain was | rfl := (bit_set seen number low).mp was
          · exact fresh other value low was (Entry.cons.mpr (.inr there))
          · exact once low value there
  | case2 items short =>
    cases items with
    | nil =>
      obtain ⟨left, rfl⟩ : ∃ less, left = less + 1 := ⟨left - 1, by omega⟩
      have ends : cbor.cbor_value_at_end it = true := by rw [correct.at_end, stands]; rfl
      refine ⟨true, by rw [keysFrom, if_pos ends], ?_⟩
      simp only [true_iff]
      exact ⟨⟨by simp [Cbor.keys, entries], by simp [numbersBelow, Cbor.keys, entries]⟩, fun _ _ _ _ => Entry.nil⟩
    | cons key later =>
      cases later with
      | nil => simp at paired
      | cons first later => exact absurd rfl (short key first later)

/-- Whether the item is a map of numbered entries, none of which that is read is there twice. -/
theorem map_keys_eq (stands : (view value).items = item :: later) (formed : WellFormed item)
    (enough : item.bytes.length ≤ rounds) :
    ∃ unique, map_keys_are_unique_uints cbor rounds value = .ok unique ∧
      (unique = true ↔ ∃ head items, item = .map head items ∧ Numbered KEY_LIMIT items) := by
  rw [map_keys_are_unique_uints, cbor_value_is_map, type_of correct stands]
  cases formed with
  | @map head items count paired each =>
    obtain ⟨first, entered, inside⟩ := correct.enter_map stands
    have shorter : (bytesAll items).length < rounds := by
      obtain ⟨byte, rest, opens, _⟩ := opening_cons (show 5 < 7 by decide) head
      rw [Item.bytes, opens] at enough
      simp only [List.length_append, List.length_cons] at enough
      omega
    obtain ⟨unique, found, meaning⟩ :=
      @keysFrom_eq _ _ _ _ _ rounds _ correct inside paired shorter (by omega) 0
    refine ⟨unique, by simp [typeOf, entered, found], meaning.trans ?_⟩
    constructor
    · rintro ⟨numbered, _⟩
      exact ⟨head, items, rfl, numbered⟩
    · rintro ⟨_, _, ⟨rfl, rfl⟩, numbered⟩
      exact ⟨numbered, fun number value _ seen => absurd (bit_clear number) seen⟩
  | string text | chunked text => exact ⟨false, by cases text <;> rfl, by simp⟩
  | _ => exact ⟨false, rfl, by simp⟩

/-- A value that is found in a map: the iterator stands at it. -/
structure Found (view : V → Cursor) (rounds : Nat) (items : List Item) (wanted : Nat) (out : V) (value : Item) : Prop where
  entry : Entry items wanted value
  stands : ∃ later, (view out).items = value :: later
  enough : value.bytes.length ≤ rounds

theorem findFrom_eq (stands : (view it).items = items) (numbers : ∀ key ∈ Cbor.keys items, key.isSome)
    (paired : items.length % 2 = 0) (turns : (bytesAll items).length < left) (enough : (bytesAll items).length ≤ rounds)
    (wanted : Nat) :
    (∃ out value, findFrom cbor rounds wanted left it = .ok (some out) ∧ Found view rounds items wanted out value) ∨
      findFrom cbor rounds wanted left it = .ok none ∧ ∀ value, ¬ Entry items wanted value := by
  induction items using entries.induct generalizing it left with
  | case1 key first later ih =>
    rw [bytesAll, bytesAll, List.length_append, List.length_append] at turns enough
    rw [List.length_cons, List.length_cons] at paired
    have begins := key.bytes_pos
    obtain ⟨left, rfl⟩ : ∃ less, left = less + 1 := ⟨left - 1, by omega⟩
    have going : cbor.cbor_value_at_end it = false := by rw [correct.at_end, stands]; rfl
    obtain ⟨number, same⟩ := Option.isSome_iff_exists.mp (numbers key.number? List.mem_cons_self)
    obtain ⟨next, read, at_value⟩ := (readKey_eq correct stands).2 number same
    obtain ⟨last, advanced, at_later⟩ := @advance_over_value_eq _ _ _ _ _ _ correct rounds at_value (by omega)
    simp only [findFrom, going, Bool.false_eq_true, if_false, read, advanced, Check.ok_bind, Check.pure_eq]
    by_cases here : number = wanted
    · rw [if_pos here]
      exact .inl ⟨next, first, rfl, Entry.cons.mpr (.inl ⟨here ▸ same, rfl⟩), ⟨later, at_value⟩, by omega⟩
    · rw [if_neg here]
      have others : ∀ value, Entry (key :: first :: later) wanted value ↔ Entry later wanted value := by
        intro value
        rw [Entry.cons, same]
        simp [here]
      obtain ⟨out, value, found, entry, there, small⟩ | ⟨found, nothing⟩ :=
        @ih _ left at_later (fun key among => numbers key (List.mem_cons_of_mem _ among)) (by omega) (by omega) (by omega)
      · exact .inl ⟨out, value, found, (others value).mpr entry, there, small⟩
      · exact .inr ⟨found, fun value there => nothing value ((others value).mp there)⟩
  | case2 items short =>
    cases items with
    | nil =>
      obtain ⟨left, rfl⟩ : ∃ less, left = less + 1 := ⟨left - 1, by omega⟩
      have ends : cbor.cbor_value_at_end it = true := by rw [correct.at_end, stands]; rfl
      exact .inr ⟨by rw [findFrom, if_pos ends], fun value => Entry.nil⟩
    | cons key later =>
      cases later with
      | nil => simp at paired
      | cons first later => exact absurd rfl (short key first later)

/-- What is found under a number is what the map declares there. -/
theorem map_find_eq {head : Option Head} (stands : (view value).items = .map head items :: later)
    (formed : WellFormed (.map head items)) (enough : (Item.map head items).bytes.length ≤ rounds)
    (numbered : Numbered KEY_LIMIT items) (wanted : Nat) :
    (∃ out value', map_find_uint_key cbor rounds value wanted = .ok (some out) ∧
    Found view rounds items wanted out value') ∨
      map_find_uint_key cbor rounds value wanted = .ok none ∧ ∀ value', ¬ Entry items wanted value' := by
  cases formed with
  | map count paired each =>
    obtain ⟨first, entered, inside⟩ := correct.enter_map stands
    have shorter : (bytesAll items).length < rounds := by
      obtain ⟨byte, rest, opens, _⟩ := opening_cons (show 5 < 7 by decide) head
      rw [Item.bytes, opens] at enough
      simp only [List.length_append, List.length_cons] at enough
      omega
    have is_map : cbor_value_is_map cbor.toTinycbor value = true := by
      rw [cbor_value_is_map, type_of correct stands]
      rfl
    rw [map_find_uint_key, is_map, entered]
    exact findFrom_eq correct inside numbered.numbers paired shorter (by omega) wanted

end

end PiJade.CryptoOutput
