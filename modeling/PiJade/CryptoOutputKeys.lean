import PiJade.CryptoOutputReads
import PiJade.DescriptorRespelling
import PiJade.SignMessageFields

/-!
Keys of an output descriptor. A path is printed one step at a time and never fills its buffer, and
the text of a key is that of what its entries declare.
-/
namespace PiJade.CryptoOutput
open Cbor CborRpc Text
open SettingsCodec (ascii)
open DescriptorText (Stop refuse BIP32_MAX_CHILD_INDEX)
open Wallet (Path MAX_PATH_LEN MAX_PATH_STR_LEN EC_PUBLIC_KEY_LEN harden unharden ishardened)
set_option linter.unusedSimpArgs false

/-! ### Printed paths -/

/-- What has been printed and counted of a path. -/
def printed (path : Path) : Origin where
  path := pathText path
  count := path.length
  last_child := path.getLast?.getD 0

theorem stepOf_parts {index : Nat} (small : index ≤ BIP32_MAX_CHILD_INDEX) (hardened : Bool) :
    (unharden (stepOf index hardened)).toNat = index ∧ ishardened (stepOf index hardened) = hardened := by
  have low : index < 2 ^ 31 := Nat.lt_of_le_of_lt small (by decide)
  have word : (UInt32.ofNat index).toNat = index := by
    rw [UInt32.toNat_ofNat']
    omega
  have below : index &&& 2 ^ 31 - 1 = index := by rw [Nat.and_two_pow_sub_one_eq_mod, Nat.mod_eq_of_lt low]
  have top : index &&& 2 ^ 31 = 0 := by rw [Nat.and_two_pow, Nat.testBit_lt_two_pow low]; rfl
  cases hardened with
  | false =>
    refine ⟨?_, ?_⟩
    · rw [stepOf, if_neg Bool.false_ne_true, unharden, UInt32.toNat_and, word]
      exact below
    · have clear : UInt32.ofNat index &&& 0x80000000 = 0 := by
        apply UInt32.toNat_inj.mp
        rw [UInt32.toNat_and, word]
        exact top
      rw [stepOf, if_neg Bool.false_ne_true, ishardened, clear]
      rfl
  | true =>
    refine ⟨?_, ?_⟩
    · rw [stepOf, if_pos rfl, unharden, harden, UInt32.toNat_and, UInt32.toNat_or, word, Nat.and_or_distrib_right]
      exact (congrArg (· ||| 0) below).trans (Nat.or_zero _)
    · have set : (UInt32.ofNat index ||| 0x80000000) &&& 0x80000000 = 0x80000000 := by
        apply UInt32.toNat_inj.mp
        rw [UInt32.toNat_and, UInt32.toNat_or, word, Nat.and_or_distrib_right]
        have clear : index &&& (0x80000000 : UInt32).toNat = 0 := top
        rw [clear]
        decide
      rw [stepOf, if_pos rfl, ishardened, harden, set]
      rfl

theorem intercalate_concat (sep : Bytes) (texts : List Bytes) (text : Bytes) :
    sep.intercalate (texts ++ [text]) = sep.intercalate texts ++ ((if texts.length = 0 then [] else sep) ++ text) := by
  induction texts with
  | nil => simp [List.intercalate]
  | cons first later ih =>
    cases later with
    | nil => simp [List.intercalate]
    | cons second later => simpa [List.intercalate] using ih

theorem pathText_concat (path : Path) (step : UInt32) :
    pathText (path ++ [step]) = pathText path ++ ((if path.length = 0 then [] else ascii "/") ++ stepText step) := by
  rw [pathText, List.map_append, List.map_singleton, intercalate_concat, List.length_map, pathText]

theorem printed_step {index : Nat} (small : index ≤ BIP32_MAX_CHILD_INDEX) (hardened : Bool) (path : Path) :
    (printed path).step index hardened = printed (path ++ [stepOf index hardened]) := by
  obtain ⟨number, mark⟩ := stepOf_parts small hardened
  rw [printed, Origin.step, printed, pathText_concat, stepText, number, mark]
  simp [stepOf]

/-- A step takes at most twelve characters, its slash included. -/
theorem pathText_length (path : Path) : (pathText path).length ≤ 12 * path.length := by
  induction path using List.reverseRecOn with
  | nil => simp [pathText]
  | append_singleton path step ih =>
    have small := SignMessage.unharden_small step
    have digits := @decimal_length_le (unharden step).toNat 10 (by decide) (by omega)
    have slash : (if path.length = 0 then [] else ascii "/").length ≤ 1 := by split <;> simp [ascii]
    have mark : (if ishardened step then ascii "h" else []).length ≤ 1 := by split <;> simp [ascii]
    rw [pathText_concat, stepText]
    simp only [List.length_append, List.length_singleton]
    omega

theorem printed_fits {path : Path} (short : path.length ≤ MAX_PATH_LEN) :
    (printed path).path.length < MAX_PATH_STR_LEN MAX_PATH_LEN := by
  have length := pathText_length path
  rw [MAX_PATH_LEN] at short
  rw [MAX_PATH_STR_LEN, MAX_PATH_LEN]
  simp only [printed]
  omega

theorem childText_length {a b : Nat} (small : a ≤ BIP32_MAX_CHILD_INDEX ∧ b ≤ BIP32_MAX_CHILD_INDEX) :
    (childText a b).length < 32 := DescriptorText.childFor_length small

/-! ### Paths -/

section
variable {V : Type} {cbor : Stepping V} {view : V → Cursor} {value it : V} {item : Item} {items later : List Item}
  {rounds left : Nat} (correct : cbor.Correct view)
include correct

theorem enter_array {head : Option Head} (stands : (view value).items = .array head items :: later) :
    ∃ first, cbor.cbor_value_enter_container value = some first ∧ (view first).items = items :=
  correct.enter_container (current_of stands)

theorem over_number {number : Nat} (stands : (view value).items = item :: later) (reads : uint32? item = some number) :
    ∃ next, cbor.cbor_value_advance value = some next ∧ (view next).items = later := by
  refine correct.advance stands fun same => ?_
  cases item with
  | unsigned head => cases same
  | _ => cases reads

theorem over_mark {mark : Bool} (stands : (view value).items = item :: later) (reads : item.boolean? = some mark) :
    ∃ next, cbor.cbor_value_advance value = some next ∧ (view next).items = later := by
  refine correct.advance stands fun same => ?_
  cases item with
  | simple head => cases same
  | _ => cases reads

theorem getBoolean_end (ends : (view value).items = []) : getBoolean cbor value = none := by
  rw [getBoolean, correct.is_boolean, ends]
  rfl

/-- The loop prints the path, unless it is too long. -/
theorem componentsFrom_eq (stands : (view it).items = items) (turns : (bytesAll items).length < left) {front : Path}
    (short : front.length ≤ MAX_PATH_LEN) :
    componentsFrom cbor (MAX_PATH_STR_LEN MAX_PATH_LEN) left (printed front) it =
      .ok ((pathOf items).bind fun path => if (front ++ path).length ≤ MAX_PATH_LEN then some
        (printed (front ++ path)) else none) := by
  obtain ⟨left, rfl⟩ : ∃ less, left = less + 1 := ⟨left - 1, by omega⟩
  induction items using pathOf.induct generalizing it left front with
  | case1 =>
    have ends : cbor.cbor_value_at_end it = true := by rw [correct.at_end, stands]; rfl
    rw [componentsFrom, if_pos ends, pathOf, Option.bind_some, List.append_nil, if_pos short]
  | case2 index mark later ih =>
    rw [bytesAll, bytesAll, List.length_append, List.length_append] at turns
    have begins := index.bytes_pos
    have going : cbor.cbor_value_at_end it = false := by rw [correct.at_end, stands]; rfl
    rw [componentsFrom, going, if_neg Bool.false_ne_true, readComponent, get_uint32_eq correct stands, pathOf]
    cases reads : uint32? index with
    | none => simp
    | some number =>
      obtain ⟨at_mark, advanced, mark_there⟩ := over_number correct stands reads
      by_cases large : BIP32_MAX_CHILD_INDEX < number
      · simp [large]
      · cases marked : mark.boolean? with
        | none => simp [large, advanced, getBoolean_eq correct mark_there, marked]
        | some hardened =>
          obtain ⟨next, passed, there⟩ := over_mark correct mark_there marked
          simp only [Option.bind_eq_bind, Option.bind_some, large, if_false, advanced, getBoolean_eq correct mark_there,
            marked, passed, printed_step (Nat.not_lt.mp large)]
          have counted : (printed front).count = front.length := rfl
          rw [counted]
          by_cases full : front.length ≥ MAX_PATH_LEN
          · rw [if_pos full]
            cases pathOf later with
            | none => rfl
            | some path =>
              simp only [Option.bind_some, List.length_append, List.length_cons]
              rw [if_neg (by omega)]
          · have longer : (front ++ [stepOf number hardened]).length ≤ MAX_PATH_LEN := by
              rw [List.length_append, List.length_singleton]
              omega
            obtain ⟨left, rfl⟩ : ∃ less, left = less + 1 := ⟨left - 1, by omega⟩
            rw [if_neg full, if_neg (Nat.not_le.mpr (printed_fits longer)), ih there longer left (by omega)]
            cases pathOf later with
            | none => rfl
            | some path => simp
  | case3 items short_items other =>
    cases items with
    | nil => exact absurd rfl short_items
    | cons index rest =>
      cases rest with
      | cons mark later => exact absurd rfl (other index mark later)
      | nil =>
        have going : cbor.cbor_value_at_end it = false := by rw [correct.at_end, stands]; rfl
        rw [componentsFrom, going, if_neg Bool.false_ne_true, readComponent, get_uint32_eq correct stands, pathOf]
        · cases reads : uint32? index with
          | none => simp
          | some number =>
            obtain ⟨at_end, advanced, ends⟩ := over_number correct stands reads
            simp [advanced, getBoolean_end correct ends]
        · exact short_items
        · exact other

theorem origin_path_eq (stands : (view value).items = item :: later) (enough : item.bytes.length ≤ rounds) :
    ∃ found, origin_components_to_path cbor rounds value (MAX_PATH_STR_LEN MAX_PATH_LEN) = .ok found ∧
      ∀ origin, found = some origin ↔ ∃ path, IsPath path item ∧ origin = printed path := by
  rw [origin_components_to_path, Check.ensure, if_pos (decide_eq_true (Nat.le_refl _)), Check.ok_bind, cbor_value_is_array,
    type_of correct stands]
  cases item with
  | array head items =>
    obtain ⟨first, entered, inside⟩ := enter_array correct stands
    have shorter : (bytesAll items).length < rounds := by
      obtain ⟨byte, rest, opens, _⟩ := opening_cons (show 4 < 7 by decide) head
      rw [Item.bytes, opens] at enough
      simp only [List.length_append, List.length_cons] at enough
      omega
    have loop := @componentsFrom_eq _ _ _ _ _ _ correct inside shorter [] (Nat.zero_le _)
    refine ⟨_, by simp only [typeOf, entered]; exact loop, fun origin => ?_⟩
    rw [Option.bind_eq_some_iff]
    constructor
    · rintro ⟨path, reads, made⟩
      split at made
      · exact ⟨path, ⟨head, items, rfl, reads, by simpa using ‹_›⟩, (Option.some.inj made).symm⟩
      · cases made
    · rintro ⟨path, ⟨_, _, ⟨rfl, rfl⟩, reads, few⟩, rfl⟩
      exact ⟨path, reads, if_pos (by simpa using few)⟩
  | string text | chunked text => exact ⟨none, by cases text <;> rfl, by simp [IsPath]⟩
  | _ => exact ⟨none, rfl, by simp [IsPath]⟩

/-! ### Children -/

theorem arrayLength_eq_some {length : Nat} (stands : (view value).items = item :: later) :
    arrayLength cbor value = some length ↔ ∃ head items, item = .array (some head) items ∧ items.length = length := by
  rw [arrayLength, cbor_value_is_array, type_of correct stands]
  cases item with
  | array head items =>
    rw [typeOf, correct.get_array_length (current_of stands)]
    cases head <;> simp
  | string text | chunked text => cases text <;> simp [typeOf]
  | _ => simp [typeOf]

theorem arrayLength_end (ends : (view value).items = []) : arrayLength cbor value = none := by
  rw [arrayLength, cbor_value_is_array, type_of_end correct ends]
  rfl

theorem over_array {head : Option Head} (stands : (view value).items = .array head items :: later) :
    ∃ next, cbor.cbor_value_advance value = some next ∧ (view next).items = later :=
  correct.advance stands (by simp [typeOf])

/-- The two numbers behind marks that are not set. -/
theorem readPair_eq_some {first mark second mark' : Item} {a b : Nat}
    (stands : (view value).items = [first, mark, second, mark']) :
    readPair cbor value = some (a, b) ↔ uint32? first = some a ∧ mark.boolean? = some false ∧ uint32? second = some b ∧
      mark'.boolean? = some false ∧ a ≤ BIP32_MAX_CHILD_INDEX ∧ b ≤ BIP32_MAX_CHILD_INDEX := by
  rw [readPair, get_uint32_eq correct stands]
  cases one : uint32? first with
  | none => simp
  | some number =>
    obtain ⟨at_mark, passed, mark_there⟩ := over_number correct stands one
    simp only [Option.bind_eq_bind, Option.bind_some, passed, getBoolean_eq correct mark_there]
    cases marked : mark.boolean? with
    | none => simp
    | some ha =>
      obtain ⟨at_second, passed, second_there⟩ := over_mark correct mark_there marked
      simp only [Option.bind_some, passed, get_uint32_eq correct second_there]
      cases two : uint32? second with
      | none => simp
      | some other =>
        obtain ⟨at_last, passed, last_there⟩ := over_number correct second_there two
        simp only [Option.bind_some, passed, getBoolean_eq correct last_there]
        cases last : mark'.boolean? with
        | none => simp
        | some hb =>
          simp only [Option.bind_some, Option.some.injEq]
          cases ha <;> cases hb <;> simp
          constructor
          · rintro ⟨⟨small, low⟩, rfl, rfl⟩
            exact ⟨rfl, rfl, small, low⟩
          · rintro ⟨rfl, rfl, small, low⟩
            exact ⟨⟨small, low⟩, rfl, rfl⟩

theorem endsInWildcard_iff {head : Option Head} (stands : (view value).items = .array head items :: later) :
    endsInWildcard cbor value = some () ↔
      ∃ counted wildcard, later = [.array (some counted) [], wildcard] ∧ wildcard.boolean? = some false := by
  obtain ⟨at_wild, passed, there⟩ := over_array correct stands
  rw [endsInWildcard, passed, Option.bind_eq_bind, Option.bind_some]
  cases later with
  | nil => simp [arrayLength_end correct there]
  | cons wild rest =>
    simp only [Option.bind_eq_bind, Option.bind_eq_some_iff, arrayLength_eq_some correct there]
    constructor
    · rintro ⟨length, ⟨counted, inner, rfl, same⟩, none_of⟩
      split at none_of
      · cases none_of
      · rename_i zero
        obtain rfl : inner = [] := List.length_eq_zero_iff.mp (same.trans (not_not.mp zero))
        obtain ⟨at_mark, over_wild, mark_there⟩ := over_array correct there
        rw [over_wild, Option.bind_some] at none_of
        cases rest with
        | nil =>
          rw [getBoolean_end correct mark_there] at none_of
          cases none_of
        | cons wildcard rest =>
          rw [getBoolean_eq correct mark_there] at none_of
          obtain ⟨hardened, marked, unset⟩ := Option.bind_eq_some_iff.mp none_of
          cases hardened with
          | true => cases unset
          | false =>
            obtain ⟨at_end, over_mark, end_there⟩ := over_mark correct mark_there marked
            rw [over_mark] at unset
            simp only [Bool.false_eq_true, if_false, Option.bind_some, correct.at_end, end_there] at unset
            cases rest with
            | nil => exact ⟨counted, wildcard, rfl, marked⟩
            | cons more rest => cases unset
    · rintro ⟨counted, wildcard, same, marked⟩
      obtain ⟨rfl, rfl⟩ := List.cons.inj same
      obtain ⟨at_mark, over_wild, mark_there⟩ := over_array correct there
      obtain ⟨at_end, over_mark, end_there⟩ := over_mark correct mark_there marked
      refine ⟨0, ⟨counted, [], rfl, rfl⟩, ?_⟩
      simp [over_wild, getBoolean_eq correct mark_there, marked, over_mark, correct.at_end, end_there]

/-- The child path of a pair is printed, and nothing of any other item. -/
theorem children_path_eq_some {child : Bytes} (stands : (view value).items = item :: later) :
    children_to_child_path cbor value 32 = some child ↔ ∃ pair, IsPair pair item ∧ childText pair.1 pair.2 = child := by
  rw [children_to_child_path, cbor_value_is_array, type_of correct stands]
  cases item with
  | array head items =>
    obtain ⟨it, entered, inside⟩ := enter_array correct stands
    rw [typeOf, if_neg (by simp), entered, Option.bind_eq_bind, Option.bind_some]
    cases items with
    | nil => simp [arrayLength_end correct inside, IsPair]
    | cons first rest =>
      simp only [Option.bind_eq_bind, Option.bind_eq_some_iff, arrayLength_eq_some correct inside]
      constructor
      · rintro ⟨length, ⟨written, four, rfl, counted⟩, later_steps⟩
        split at later_steps
        · cases later_steps
        · rename_i is_four
          obtain ⟨pair, entered_pair, pair_inside⟩ := enter_array correct inside
          rw [entered_pair, Option.bind_some] at later_steps
          obtain ⟨⟨a, b⟩, read, more⟩ := Option.bind_eq_some_iff.mp later_steps
          obtain ⟨_, wild, text⟩ := Option.bind_eq_some_iff.mp more
          obtain ⟨counted_wild, wildcard, rfl, unset⟩ := (endsInWildcard_iff correct inside).mp wild
          obtain ⟨one, mark, two, mark', rfl⟩ := List.length_eq_four.mp (counted.trans (not_not.mp is_four))
          obtain ⟨first, ha, second, hb, small, low⟩ := (readPair_eq_some correct pair_inside).mp read
          rw [if_pos (childText_length ⟨small, low⟩)] at text
          exact ⟨(a, b), ⟨head, written, one, mark, two, mark', counted_wild, wildcard, rfl, first, ha, second, hb,
            unset, small,
            low⟩, Option.some.inj text⟩
      · rintro ⟨pair, ⟨_, written, one, mark, two, mark', counted, wildcard, same, a, ha, b, hb, unset, small, low⟩, rfl⟩
        obtain ⟨_, rfl, rfl⟩ : _ ∧ first = _ ∧ rest = _ := by simpa using same
        obtain ⟨at_pair, entered_pair, pair_inside⟩ := enter_array correct inside
        refine ⟨4, ⟨written, _, rfl, rfl⟩, ?_⟩
        rw [if_neg (by decide), entered_pair, Option.bind_some,
          (readPair_eq_some correct pair_inside).mpr ⟨a, ha, b, hb, small, low⟩, Option.bind_some,
          (endsInWildcard_iff correct inside).mpr ⟨counted, wildcard, rfl, unset⟩, Option.bind_some,
          if_pos (childText_length ⟨small, low⟩)]
  | string text | chunked text => cases text <;> simp [typeOf, IsPair]
  | _ => simp [typeOf, IsPair]

end

/-! ### Fields -/

/-- The text, with the value it was read from, if the key is accepted and there is room. -/
theorem finish_reads {K V : Type} (libwally : HdKeys K) (parts : KeyParts) (fingerprint : Nat) (path child : Bytes)
    (value : V)
    (out_len : Nat) :
    Reads (match xpubText libwally parts with
      | none => refuse UR_ERR_INVALID
      | some xpub =>
        if (keyText fingerprint path xpub child).length ≥ out_len then refuse UR_ERR_TOO_LARGE
        else pure (keyText fingerprint path xpub child, value)) fun found => ∃ xpub, xpubText libwally parts = some xpub ∧
          keyText fingerprint path xpub child = found.1 ∧ value = found.2 ∧ found.1.length < out_len := by
  cases xpubText libwally parts with
  | none => exact .refuse (by decide) fun found => by simp
  | some xpub =>
    simp only [Option.some.injEq, exists_eq_left']
    split
    · refine .refuse (by decide) ?_
      rintro ⟨text, at_value⟩ ⟨rfl, rfl, room⟩
      simp only at room
      omega
    · refine .ok ?_
      rintro ⟨text, at_value⟩
      simp only [Prod.mk.injEq]
      constructor
      · rintro ⟨rfl, rfl, room⟩
        exact ⟨rfl, rfl⟩
      · rintro ⟨rfl, rfl⟩
        exact ⟨rfl, rfl, by omega⟩

/-- A value at a well-formed item that is small enough for the rounds. -/
structure Stands {V : Type} (view : V → Cursor) (rounds : Nat) (value : V) (item : Item) : Prop where
  there : ∃ later, (view value).items = item :: later
  formed : WellFormed item
  enough : item.bytes.length ≤ rounds

/-- A value at a map whose keys have been checked. -/
structure AtMap {V : Type} (view : V → Cursor) (rounds : Nat) (value : V) (items : List Item) : Prop where
  stands : ∃ head, Stands view rounds value (.map head items)
  numbered : Numbered KEY_LIMIT items

theorem optional_iff {items : List Item} (numbered : Numbered KEY_LIMIT items) {wanted : Nat} (low : wanted < KEY_LIMIT)
    {value : Item} (entry : Entry items wanted value) {asked : Item → Prop} {absent : Prop} :
    Optional wanted asked absent items ↔ asked value := by
  constructor
  · rintro (⟨other, there, said⟩ | ⟨nothing, _⟩)
    · rwa [numbered.unique low entry there]
    · exact absurd entry (nothing value)
  · exact fun said => .inl ⟨value, entry, said⟩

theorem optional_none {items : List Item} {wanted : Nat} (nothing : ∀ value, ¬ Entry items wanted value)
    {asked : Item → Prop} {absent : Prop} : Optional wanted asked absent items ↔ absent := by
  constructor
  · rintro (⟨value, there, _⟩ | ⟨_, anyway⟩)
    · exact absurd there (nothing value)
    · exact anyway
  · exact fun anyway => .inr ⟨nothing, anyway⟩

theorem optional_false {items : List Item} {wanted : Nat} {asked : Item → Prop} :
    Optional wanted asked False items ↔ Declared wanted asked items := by simp [Optional]

theorem Optional.imp {items : List Item} {wanted : Nat} {asked also : Item → Prop} {absent other : Prop}
    (here : Optional wanted asked absent items) (present : ∀ value, asked value → also value) (missing : absent → other) :
    Optional wanted also other items := by
  obtain ⟨value, there, said⟩ | ⟨nothing, anyway⟩ := here
  · exact .inl ⟨value, there, present value said⟩
  · exact .inr ⟨nothing, missing anyway⟩

theorem optional_exists {α : Type} {items : List Item} {wanted : Nat} {made : α → Prop} {asked : α → Item → Prop}
    {absent : α → Prop} :
    Optional wanted (fun value => ∃ a, made a ∧ asked a value) (∃ a, made a ∧ absent a) items ↔
      ∃ a, made a ∧ Optional wanted (asked a) (absent a) items := by
  constructor
  · rintro (⟨value, there, a, is_made, said⟩ | ⟨nothing, a, is_made, anyway⟩)
    · exact ⟨a, is_made, .inl ⟨value, there, said⟩⟩
    · exact ⟨a, is_made, .inr ⟨nothing, anyway⟩⟩
  · rintro ⟨a, is_made, here⟩
    exact here.imp (fun value said => ⟨a, is_made, said⟩) fun anyway => ⟨a, is_made, anyway⟩

theorem MapOf.imp {holds also : List Item → Prop} {item : Item} (here : MapOf holds item)
    (more : ∀ items, holds items → also items) : MapOf also item := by
  obtain ⟨head, items, same, numbered, inside⟩ := here
  exact ⟨head, items, same, numbered, more items inside⟩

theorem map_exists {α : Type} {made : α → Prop} {holds : α → List Item → Prop} {item : Item} :
    MapOf (fun items => ∃ a, made a ∧ holds a items) item ↔ ∃ a, made a ∧ MapOf (holds a) item := by
  constructor
  · rintro ⟨head, items, same, numbered, a, is_made, inside⟩
    exact ⟨a, is_made, head, items, same, numbered, inside⟩
  · rintro ⟨a, is_made, here⟩
    exact here.imp fun items inside => ⟨a, is_made, inside⟩

theorem uint32_small {item : Item} {number : Nat} (reads : uint32? item = some number) : number ≤ UINT32_MAX := by
  simpa using (Option.filter_eq_some_iff.mp reads).2

theorem wellFormed_map {head : Option Head} {items : List Item} (formed : WellFormed (.map head items)) :
    ∀ item ∈ items, WellFormed item := by
  cases formed with
  | map _ _ each => exact each

theorem wellFormed_behind {item : Item} (formed : WellFormed item) (a b : Nat) : WellFormed (behind a b item) := by
  cases formed with
  | tag tagged =>
    rw [behind]
    split
    · exact tagged
    · exact .tag tagged
  | _ => constructor <;> assumption

theorem behind_length (item : Item) (a b : Nat) : (behind a b item).bytes.length ≤ item.bytes.length := by
  cases item with
  | tag head item =>
    rw [behind]
    split
    · rw [Item.bytes, List.length_append]
      omega
    · exact Nat.le_refl _
  | _ => exact Nat.le_refl _

section
variable {V α : Type} {cbor : Stepping V} {view : V → Cursor} {value : V} {item : Item} {items : List Item}
  {rounds : Nat} (correct : cbor.Correct view)
include correct

theorem Stands.behind (stands : Stands view rounds value item) (a b : Nat) :
    Stands view rounds (behindTag cbor value a b) (CryptoOutput.behind a b item) := by
  obtain ⟨⟨later, there⟩, formed, enough⟩ := stands
  exact ⟨⟨later, behindTag_stands correct there a b⟩, wellFormed_behind formed a b,
    Nat.le_trans (behind_length item a b) enough⟩

/-- What is read under a number is what is declared there, or what holds without. -/
theorem reads_field (at_map : AtMap view rounds value items) {wanted : Nat} (low : wanted < KEY_LIMIT)
    {rest : Option V → Check Stop α} {asked : α → Item → Prop} {absent : α → Prop}
    (present : ∀ out value', Stands view rounds out value' → Reads (rest (some out)) fun a => asked a value')
    (missing : Reads (rest none) absent) :
    Reads (map_find_uint_key cbor rounds value wanted >>= rest) fun a => Optional wanted (asked a) (absent a) items := by
  obtain ⟨head, ⟨later, there⟩, formed, enough⟩ := at_map.stands
  obtain ⟨out, value', found, entry, stands, small⟩ | ⟨found, nothing⟩ :=
    map_find_eq correct there formed enough at_map.numbered wanted
  · rw [found, Check.ok_bind]
    exact (present out value' ⟨stands, wellFormed_map formed value' entry.mem, small⟩).congr fun a =>
      (optional_iff at_map.numbered low entry).symm
  · rw [found, Check.ok_bind]
    exact missing.congr fun a => (optional_none nothing).symm

theorem reads_declared (at_map : AtMap view rounds value items) {wanted : Nat} (low : wanted < KEY_LIMIT)
    {rest : Option V → Check Stop α} {asked : α → Item → Prop} {text : String} (known : text ∈ messages)
    (present : ∀ out value', Stands view rounds out value' → Reads (rest (some out)) fun a => asked a value')
    (missing : rest none = refuse text) :
    Reads (map_find_uint_key cbor rounds value wanted >>= rest) fun a => Declared wanted (asked a) items := by
  have nothing : Reads (rest none) fun _ => False := by
    rw [missing]
    exact .refuse known fun _ => id
  exact (reads_field correct at_map low present nothing).congr fun a => optional_false

/-- What is read of a map after its keys have been checked. -/
theorem reads_map (stands : Stands view rounds value item) {rest : Check Stop α} {holds : α → List Item → Prop}
    (inside : ∀ items, AtMap view rounds value items → Reads rest fun a => holds a items) :
    Reads (map_keys_are_unique_uints cbor rounds value >>= fun unique => if (!unique) = true then refuse UR_ERR_UNSUPPORTED
      else rest) fun a => MapOf (holds a) item := by
  obtain ⟨⟨later, there⟩, formed, enough⟩ := stands
  obtain ⟨unique, checked, meaning⟩ := map_keys_eq correct there formed enough
  rw [checked, Check.ok_bind]
  cases unique with
  | false =>
    refine .refuse (by decide) ?_
    rintro a ⟨head, items, rfl, numbered, _⟩
    exact Bool.false_ne_true (meaning.mpr ⟨head, items, rfl, numbered⟩)
  | true =>
    obtain ⟨head, items, rfl, numbered⟩ := meaning.mp rfl
    refine (inside items ⟨⟨head, ⟨later, there⟩, formed, enough⟩, numbered⟩).congr fun a => ?_
    constructor
    · exact fun here => ⟨head, items, rfl, numbered, here⟩
    · rintro ⟨_, _, same, _, here⟩
      obtain ⟨_, rfl⟩ := Item.map.inj same
      exact here

/-! ### The parts of a key -/

theorem refusePrivate_reads (at_map : AtMap view rounds value items) :
    Reads (refusePrivate cbor rounds value) fun _ => Optional 2 (Item.boolean? · = some false) True items := by
  refine reads_field correct at_map (by decide) ?_ (.ok fun _ => by simp)
  rintro out value' ⟨⟨later, there⟩, _, _⟩
  simp only [getBoolean_eq correct there]
  split
  · exact .ok fun _ => by simpa using ‹_›
  · exact .refuse (by decide) fun _ => by assumption

theorem readBytes_reads (at_map : AtMap view rounds value items) {wanted : Nat} (low : wanted < KEY_LIMIT) (size : Nat) :
    Reads (readBytes cbor rounds value wanted size) fun bytes => Declared wanted (IsBytes size bytes) items := by
  refine reads_declared correct at_map low (by decide : UR_ERR_INVALID ∈ messages) ?_ rfl
  rintro out value' ⟨⟨later, there⟩, _, _⟩
  cases content : value'.content? false with
  | none =>
    have other : cbor_value_is_byte_string cbor.toTinycbor out = false := by
      rw [cbor_value_is_byte_string, type_of correct there]
      cases value' with
      | string text | chunked text =>
        cases text with
        | true => rfl
        | false => cases content
      | _ => rfl
    simp only [other, Bool.not_false, if_true]
    exact .refuse (by decide) fun bytes => by simp [IsBytes, content]
  | some content' =>
    have bytes : cbor_value_is_byte_string cbor.toTinycbor out = true := by
      rw [cbor_value_is_byte_string, type_of correct there]
      cases value' with
      | string text | chunked text =>
        cases text with
        | true => cases content
        | false => rfl
      | _ => cases content
    simp only [bytes, Bool.not_true, Bool.false_eq_true, if_false]
    by_cases long : size < content'.length
    · simp only [correct.copy_byte_string_long there content long]
      refine .refuse (by decide) ?_
      rintro bytes ⟨same, counted⟩
      obtain rfl := Option.some.inj (content.symm.trans same)
      omega
    · simp only [correct.copy_byte_string (current_of there) content (Nat.not_lt.mp long), copied]
      by_cases counted : content'.length = size
      · rw [if_neg (not_not.mpr counted)]
        refine .ok fun bytes => ?_
        rw [List.take_left' counted, IsBytes, content, Option.some.injEq]
        constructor
        · exact And.left
        · rintro rfl
          exact ⟨rfl, counted⟩
      · rw [if_pos counted]
        refine .refuse (by decide) ?_
        rintro bytes ⟨same, size_eq⟩
        obtain rfl := Option.some.inj (content.symm.trans same)
        exact counted size_eq

theorem readNumber_reads (at_map : AtMap view rounds value items) {wanted : Nat} (low : wanted < KEY_LIMIT) (most : Nat)
    {errmsg : String} (known : errmsg ∈ messages) :
    Reads (readNumber cbor rounds value wanted most errmsg) fun number =>
      Optional wanted (fun value => uint32? value = some number ∧ number ≤ most) (number = 0) items := by
  refine reads_field correct at_map low ?_ (.ok fun number => eq_comm)
  rintro out value' ⟨⟨later, there⟩, _, _⟩
  simp only [get_uint32_eq correct there]
  cases uint32? value' with
  | none => exact .refuse known fun number => by simp
  | some number =>
    simp only
    split
    · exact .refuse known fun other => by simp; omega
    · refine .ok fun other => ?_
      simp
      omega

theorem readVersion_reads (at_map : AtMap view rounds value items) :
    Reads (readVersion cbor rounds value) fun version =>
      ∃ testnet, version = versionOf testnet ∧ Optional 5 (IsUseInfo testnet) (testnet = false) items := by
  have reads : Reads (readVersion cbor rounds value) fun version =>
      Optional 5 (fun value => ∃ testnet, version = versionOf testnet ∧ IsUseInfo testnet value)
        (∃ testnet, version = versionOf testnet ∧ testnet = false) items := by
    refine reads_field correct at_map (by decide) ?_ (.ok fun version => ?_)
    · intro out value' stands
      refine (reads_map correct (stands.behind correct UR_TAG_USEINFO UR_TAG_USEINFO_NEW) fun items at_map =>
        (readNumber_reads correct at_map (by decide) 0 (by decide)).bind fun _ _ =>
          (readNumber_reads correct at_map (by decide) 1 (by decide)).bind fun net _ => .ok fun version => Iff.rfl).congr
            fun version => ?_
      refine Iff.trans ?_ map_exists
      constructor
      · intro here
        refine here.imp ?_
        rintro items ⟨coin_type, coin, net, network, rfl⟩
        refine ⟨decide (net ≠ 0), by by_cases none_of : net = 0 <;> simp [versionOf, none_of], ?_, ?_⟩
        · exact coin.imp (fun value reads => by rw [reads.1, Nat.le_zero.mp reads.2]) fun _ => trivial
        · refine network.imp (fun value reads => ?_) fun none_of => by simp [none_of]
          obtain ⟨read, small⟩ := reads
          rw [read]
          interval_cases net <;> rfl
      · intro here
        refine here.imp ?_
        rintro items ⟨testnet, rfl, coin, network⟩
        refine ⟨0, coin.imp (fun value reads => ⟨reads, Nat.le_refl 0⟩) fun _ => rfl, testnet.toNat, ?_,
          by cases testnet <;> rfl⟩
        refine network.imp (fun value reads => ⟨reads, by cases testnet <;> decide⟩) ?_
        rintro rfl
        rfl
    · constructor
      · rintro ⟨testnet, rfl, rfl⟩
        rfl
      · rintro rfl
        exact ⟨false, rfl, rfl⟩
  exact reads.congr fun version => optional_exists

theorem readPath_reads (at_map : AtMap view rounds value items) :
    Reads (readPath cbor rounds value) fun origin => Declared 1
      (fun value => ∃ path, IsPath path value ∧ origin = printed path)
      items := by
  refine reads_declared correct at_map (by decide) (by decide : UR_ERR_UNSUPPORTED ∈ messages) ?_ rfl
  rintro out value' ⟨⟨later, there⟩, _, enough⟩
  obtain ⟨found, reads, meaning⟩ := origin_path_eq correct there enough
  simp only [reads, Check.ok_bind]
  exact (Reads.option (by decide : UR_ERR_UNSUPPORTED ∈ messages)
    (fun none => by rw [none]) fun origin found => by rw [found]; rfl).congr
    meaning

theorem readFingerprint_reads (at_map : AtMap view rounds value items) :
    Reads (readFingerprint cbor rounds value) fun fingerprint => Declared 2 (uint32? · = some fingerprint) items := by
  refine reads_declared correct at_map (by decide) (by decide : UR_ERR_UNSUPPORTED ∈ messages) ?_ rfl
  rintro out value' ⟨⟨later, there⟩, _, _⟩
  simp only [get_uint32_eq correct there]
  exact .option (by decide : UR_ERR_UNSUPPORTED ∈ messages) (fun none => by rw [none]) fun fingerprint found => by rw [found]; rfl

theorem readDepth_reads (at_map : AtMap view rounds value items) (count : Nat) :
    Reads (readDepth cbor rounds value count) fun depth =>
      Optional 3 (fun value => uint32? value = some depth ∧ depth ≤ 255) (depth = count) items := by
  refine reads_field correct at_map (by decide) ?_ (.ok fun depth => eq_comm)
  rintro out value' ⟨⟨later, there⟩, _, _⟩
  simp only [get_uint32_eq correct there]
  cases uint32? value' with
  | none => exact .refuse (by decide) fun depth => by simp
  | some declared =>
    simp only
    split
    · exact .refuse (by decide) fun depth => by simp; omega
    · refine .ok fun depth => ?_
      simp
      omega

theorem readOrigin_reads (at_map : AtMap view rounds value items) :
    Reads (readOrigin cbor rounds value) fun found =>
      ∃ path, found.path = printed path ∧ Declared 6 (IsOrigin path found.fingerprint found.depth) items := by
  have reads : Reads (readOrigin cbor rounds value) fun found =>
      Declared 6 (fun value => ∃ path, found.path = printed path ∧
        IsOrigin path found.fingerprint found.depth value) items := by
    refine reads_declared correct at_map (by decide) (by decide : UR_ERR_UNSUPPORTED ∈ messages) ?_ rfl
    intro out value' stands
    refine (reads_map correct (stands.behind correct UR_TAG_KEYPATH UR_TAG_KEYPATH_NEW) fun items at_map =>
      (readPath_reads correct at_map).bind fun path _ => (readFingerprint_reads correct at_map).bind fun fingerprint _ =>
        (readDepth_reads correct at_map path.count).bind fun depth _ => .ok fun found => Iff.rfl).congr fun found => ?_
    refine Iff.trans ?_ map_exists
    constructor
    · intro here
      refine here.imp ?_
      rintro items ⟨_, ⟨value, there, path, is_path, rfl⟩, fingerprint, given, depth, declared, rfl⟩
      exact ⟨path, rfl, ⟨value, there, is_path⟩, given, declared⟩
    · intro here
      refine here.imp ?_
      rintro items ⟨path, made, ⟨value, there, is_path⟩, given, declared⟩
      exact ⟨_, ⟨value, there, path, is_path, rfl⟩, _, given, _, declared, by rw [← made]⟩
  refine reads.congr fun found => ?_
  constructor
  · rintro ⟨value, there, path, made, is_origin⟩
    exact ⟨path, made, value, there, is_origin⟩
  · rintro ⟨path, made, value, there, is_origin⟩
    exact ⟨value, there, path, made, is_origin⟩

theorem readComponents_reads (at_map : AtMap view rounds value items) :
    Reads (readComponents cbor rounds value) fun child =>
      Declared 1 (fun value => ∃ pair, IsPair pair value ∧ childText pair.1 pair.2 = child) items := by
  refine reads_declared correct at_map (by decide) (by decide : UR_ERR_UNSUPPORTED ∈ messages) ?_ rfl
  rintro out value' ⟨⟨later, there⟩, _, _⟩
  simp only
  exact (Reads.option (by decide : UR_ERR_UNSUPPORTED ∈ messages)
    (fun none => by rw [none]) fun child found => by rw [found]; rfl).congr
    fun child => children_path_eq_some correct there

theorem readChild_reads (at_map : AtMap view rounds value items) :
    Reads (readChild cbor rounds value) fun child =>
      ∃ pair : Nat × Nat, childText pair.1 pair.2 = child ∧ Optional 7 (IsChildren pair) (pair = (0, 1)) items := by
  have reads : Reads (readChild cbor rounds value) fun child =>
      Optional 7 (fun value => ∃ pair : Nat × Nat, childText pair.1 pair.2 = child ∧ IsChildren pair value)
        (∃ pair : Nat × Nat, childText pair.1 pair.2 = child ∧ pair = (0, 1)) items := by
    refine reads_field correct at_map (by decide) ?_ (.ok fun child => ?_)
    · intro out value' stands
      refine (reads_map correct (stands.behind correct UR_TAG_KEYPATH UR_TAG_KEYPATH_NEW) fun items at_map =>
        readComponents_reads correct at_map).congr fun child => ?_
      refine Iff.trans ?_ map_exists
      constructor
      · intro here
        refine here.imp ?_
        rintro items ⟨value, there, pair, is_pair, made⟩
        exact ⟨pair, made, value, there, is_pair⟩
      · intro here
        refine here.imp ?_
        rintro items ⟨pair, made, value, there, is_pair⟩
        exact ⟨value, there, pair, is_pair, made⟩
    · have plain : childText 0 1 = ascii "/<0;1>/*" := by decide
      constructor
      · rintro ⟨pair, rfl, rfl⟩
        exact plain.symm
      · rintro rfl
        exact ⟨(0, 1), plain, rfl⟩
  exact reads.congr fun child => optional_exists

/-- The text of a key is that of what it declares, if it has room. -/
theorem hdkey_reads {K : Type} (libwally : HdKeys K) (stands : Stands view rounds value item) (out_len : Nat) :
    Reads (hdkey_to_text cbor libwally rounds value out_len) fun found =>
      found.2 = behindTag cbor value UR_TAG_HDKEY UR_TAG_HDKEY_NEW ∧
        ∃ key, IsKey key item ∧ key.text libwally = some found.1 ∧ found.1.length < out_len := by
  refine (reads_map correct (stands.behind correct UR_TAG_HDKEY UR_TAG_HDKEY_NEW) fun items at_map =>
    (refusePrivate_reads correct at_map).bind fun _ _ =>
    (readBytes_reads correct at_map (by decide) EC_PUBLIC_KEY_LEN).bind fun pub_key _ =>
    (readBytes_reads correct at_map (by decide) WALLY_BIP32_CHAIN_CODE_LEN).bind fun chain_code _ =>
    (readVersion_reads correct at_map).bind fun version _ =>
    (readOrigin_reads correct at_map).bind fun origin _ =>
    (readNumber_reads correct at_map (by decide) UINT32_MAX (by decide)).bind fun parent_fingerprint _ =>
    (readChild_reads correct at_map).bind fun child _ =>
    finish_reads libwally _ _ _ _ _ _).congr fun found => ?_
  have gathered : (found.2 = behindTag cbor value UR_TAG_HDKEY UR_TAG_HDKEY_NEW ∧
      ∃ key, IsKey key item ∧ key.text libwally = some found.1 ∧ found.1.length < out_len) ↔
      ∃ key : HdKey, (found.2 = behindTag cbor value UR_TAG_HDKEY UR_TAG_HDKEY_NEW ∧ key.text libwally = some found.1 ∧
        found.1.length < out_len) ∧ IsKey key item := by
    constructor
    · rintro ⟨at_value, key, is_key, text, room⟩
      exact ⟨key, ⟨at_value, text, room⟩, is_key⟩
    · rintro ⟨key, ⟨at_value, text, room⟩, is_key⟩
      exact ⟨at_value, key, is_key, text, room⟩
  refine Iff.trans ?_ (map_exists.trans gathered.symm)
  constructor
  · intro here
    refine here.imp ?_
    rintro items ⟨_, is_public, pub_key, pub, chain_code, chain, _, ⟨testnet, rfl, use_info⟩, ⟨_, fingerprint, depth⟩,
      ⟨path, rfl, origin⟩, parent_fingerprint, parent, _, ⟨pair, rfl, children⟩, xpub, made, text, at_value, room⟩
    refine ⟨⟨pub_key, chain_code, testnet, path, fingerprint, depth, parent_fingerprint, pair⟩, ⟨at_value.symm, ?_, room⟩,
      is_public, pub, chain, use_info, origin, children, parent.imp (fun _ reads => reads.1) id⟩
    rw [HdKey.text]
    exact Option.bind_eq_some_iff.mpr ⟨xpub, made, congrArg some text⟩
  · intro here
    refine here.imp ?_
    rintro items ⟨key, ⟨at_value, text, room⟩, entries⟩
    obtain ⟨xpub, made, text⟩ := Option.bind_eq_some_iff.mp text
    exact ⟨(), entries.is_public, key.pub_key, entries.pub_key, key.chain_code, entries.chain_code, _,
      ⟨key.testnet, rfl, entries.use_info⟩, ⟨printed key.path, key.fingerprint, key.depth⟩, ⟨key.path, rfl, entries.origin⟩,
      key.parent_fingerprint, entries.parent.imp (fun _ reads => ⟨reads, uint32_small reads⟩) id, _,
      ⟨key.pair, rfl, entries.children⟩, xpub, made, Option.some.inj text, at_value.symm, room⟩

end

end PiJade.CryptoOutput
