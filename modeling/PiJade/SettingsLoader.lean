import Mathlib.Data.List.Basic
import Mathlib.Data.List.Nodup
import Mathlib.Logic.Function.Basic
import Mathlib.Tactic.Common
import PiJade.SettingsCodec

/-!
The settings loader: the walk over a body accepts exactly the concatenations of entries
that fit, its two passes agree, and what the second one stores is what the entries say.
A file is refused without a trace or stored as a whole.
-/
namespace PiJade.SettingsLoader
set_option linter.unusedSimpArgs false
open SettingsCodec

section
variable {M : Type} (api : WallyMap M) (sha256 : Bytes → Vector UInt8 32)

/-! ### The walk over entries -/

/-- The walk accepts these entries from these variables. -/
def Accepts (storing : Bool) : WalkState M → List Entry → Prop
  | st, [] => storing = true ∨ st.urlA_seen = st.urlB_seen
  | st, entry :: rest => Encodable entry ∧ Passes st entry ∧ Accepts storing (st.pass storing entry) rest

/-- An encoding starts in only one way with the encoding of an entry. -/
theorem bytes_append_inj {first second : Entry} {rest rest' : Bytes} (one : Encodable first) (two : Encodable second)
    (same : first.bytes ++ rest = second.bytes ++ rest') : first = second ∧ rest = rest' := by
  have framed := entry_frame_bytes one rest
  rw [same, entry_frame_bytes two rest'] at framed
  simp only [Option.some.injEq, Prod.mk.injEq] at framed
  obtain ⟨ns, key, length, values⟩ := framed
  obtain ⟨value, rests⟩ := List.append_inj values length
  obtain ⟨ns1, key1, value1⟩ := first
  obtain ⟨ns2, key2, value2⟩ := second
  simp_all

/-- Validating never reads past the body and leaves the maps alone; it accepts
    exactly the concatenations of entries that pass one after another. -/
theorem walk_validates (fuel : Nat) : ∀ (st : WalkState M) (body : Bytes), body.length ≤ fuel →
    ∃ verdict, walk_loop api false fuel st body = some (verdict, st.maps) ∧
      (verdict = true ↔ ∃ entries, body = entries.flatMap Entry.bytes ∧ Accepts false st entries) := by
  have done : ∀ fuel (st : WalkState M), ∃ verdict, walk_loop api false fuel st [] = some (verdict, st.maps) ∧
      (verdict = true ↔ ∃ entries, [] = entries.flatMap Entry.bytes ∧ Accepts false st entries) := by
    intro fuel st
    refine ⟨st.urlA_seen == st.urlB_seen, by simp [walk_loop], ?_⟩
    constructor
    · intro same
      exact ⟨[], rfl, .inr (by simpa using same)⟩
    · rintro ⟨entries, empty, accepts⟩
      cases entries with
      | nil => simpa [Accepts] using accepts
      | cons entry rest => exact absurd empty.symm (bytes_ne_nil entry _)
  induction fuel with
  | zero =>
    intro st body short
    obtain rfl : body = [] := List.length_eq_zero_iff.mp (Nat.le_zero.mp short)
    exact done 0 st
  | succ fuel ih =>
    intro st body short
    by_cases some_left : body = []
    · subst some_left
      exact done (fuel + 1) st
    · -- A body that parses starts with the entry that the framing reads.
      have starts : ∀ entries, body = entries.flatMap Entry.bytes → Accepts false st entries →
          ∃ entry later, entries = entry :: later ∧ Encodable entry ∧ Passes st entry ∧
            Accepts false (st.pass false entry) later := by
        intro entries same accepts
        cases entries with
        | nil => exact absurd same some_left
        | cons entry later => exact ⟨entry, later, rfl, accepts⟩
      rcases entry_frame_cases body some_left with refused | ⟨entry, rest, encodable, rfl⟩
      · refine ⟨false, ?_, ?_⟩
        · obtain ⟨byte, tail, rfl⟩ := List.exists_cons_of_ne_nil some_left
          rw [walk_loop, refused]
        · simp only [Bool.false_eq_true, false_iff, not_exists, not_and]
          intro entries same accepts
          obtain ⟨entry, later, rfl, encodable, -⟩ := starts entries same accepts
          rw [same, List.flatMap_cons, entry_frame_bytes encodable] at refused
          simp at refused
      · rw [walk_loop_cons api encodable]
        rcases check_entry_cases false st entry rest with ⟨passes, checked⟩ | ⟨refuses, st', same, checked⟩
        · rw [checked]
          have shorter : rest.length ≤ fuel := by
            have := bytes_length entry
            simp only [entry_len] at this
            rw [List.length_append] at short
            omega
          obtain ⟨verdict, walked, verdict_iff⟩ := ih (st.pass false entry) rest shorter
          refine ⟨verdict, walked, verdict_iff.trans ⟨?_, ?_⟩⟩
          · rintro ⟨later, rfl, accepts⟩
            exact ⟨entry :: later, rfl, encodable, passes, accepts⟩
          · rintro ⟨entries, same, accepts⟩
            obtain ⟨first, later, rfl, encodable', -, accepts'⟩ := starts entries same accepts
            obtain ⟨rfl, rfl⟩ := bytes_append_inj encodable encodable' same
            exact ⟨later, rfl, accepts'⟩
        · rw [checked]
          refine ⟨false, by simp [same], ?_⟩
          simp only [Bool.false_eq_true, false_iff, not_exists, not_and]
          intro entries same accepts
          obtain ⟨first, later, rfl, encodable', passes, -⟩ := starts entries same accepts
          obtain ⟨rfl, -⟩ := bytes_append_inj encodable encodable' same
          exact refuses passes

/-- Storing the entries one after another. -/
def storeAll (maps : Nat → M) : List Entry → (Nat → M)
  | [] => maps
  | entry :: rest =>
    match api.replace (maps entry.ns) entry.key entry.value with
    | none => storeAll maps rest
    | some map => storeAll (Function.update maps entry.ns map) rest

/-- What the entries leave under a key, from what was there before. -/
def valueAfter (ns : Nat) (key : Bytes) (before : Option Bytes) (entries : List Entry) : Option Bytes :=
  entries.foldl (fun value entry => if entry.ns = ns ∧ entry.key = key then some entry.value else value) before

theorem accepts_storing {st st' : WalkState M} (counts : st.namespace_counts = st'.namespace_counts)
    {entries : List Entry} (accepts : Accepts false st entries) : Accepts true st' entries := by
  induction entries generalizing st st' with
  | nil => exact .inl rfl
  | cons entry rest ih =>
    obtain ⟨encodable, passes, later⟩ := accepts
    exact ⟨encodable, ⟨passes.1, counts ▸ passes.2⟩, ih (by simp [WalkState.pass, counts]) later⟩

theorem accepts_maps {storing : Bool} {st : WalkState M} {entries : List Entry} (accepts : Accepts storing st entries)
    (maps : Nat → M) : Accepts storing { st with maps := maps } entries := by
  induction entries generalizing st with
  | nil => exact accepts
  | cons entry rest ih => exact ⟨accepts.1, accepts.2.1, ih accepts.2.2⟩

section
variable (succeeds : ∀ map key value, (api.replace map key value).isSome)
include succeeds

/-- Storing a body that passes stores each of its entries. -/
theorem walk_stores (fuel : Nat) (st : WalkState M) (entries : List Entry)
    (enough : (entries.flatMap Entry.bytes).length ≤ fuel) (accepts : Accepts true st entries) :
    walk_loop api true fuel st (entries.flatMap Entry.bytes) = some (true, storeAll api st.maps entries) := by
  induction entries generalizing fuel st with
  | nil => cases fuel <;> simp [walk_loop, storeAll]
  | cons entry rest ih =>
    obtain ⟨encodable, passes, later⟩ := accepts
    rw [List.flatMap_cons, List.length_append, bytes_length, entry_len] at enough
    obtain ⟨fuel, rfl⟩ : ∃ left, fuel = left + 1 := ⟨fuel - 1, by omega⟩
    rw [List.flatMap_cons, walk_loop_cons api encodable]
    rcases check_entry_cases true st entry (rest.flatMap Entry.bytes) with ⟨-, checked⟩ | ⟨refuses, -⟩
    · obtain ⟨map, replaced⟩ := Option.isSome_iff_exists.mp (succeeds (st.maps entry.ns) entry.key entry.value)
      have stored : store_entry api (st.pass true entry) entry.ns entry.key entry.value.length
          (entry.value ++ rest.flatMap Entry.bytes) =
          some (true, { st.pass true entry with maps := Function.update st.maps entry.ns map }) := by
        simp [store_entry, readBytes, WalkState.pass, replaced]
      rw [checked]
      simp only [↓reduceIte, stored]
      rw [ih fuel _ (by omega) (accepts_maps later _), storeAll, replaced]
    · exact absurd passes refuses

theorem get_storeAll (maps : Nat → M) (entries : List Entry) (ns : Nat) (key : Bytes) :
    api.get (storeAll api maps entries ns) key = valueAfter ns key (api.get (maps ns) key) entries := by
  induction entries generalizing maps with
  | nil => rfl
  | cons entry rest ih =>
    obtain ⟨map, replaced⟩ := Option.isSome_iff_exists.mp (succeeds (maps entry.ns) entry.key entry.value)
    rw [storeAll, replaced, valueAfter, List.foldl_cons]
    simp only
    rw [ih, valueAfter]
    congr 1
    by_cases same : entry.ns = ns
    · subst same
      rw [Function.update_self, api.get_replace _ _ _ _ replaced]
      simp [eq_comm]
    · rw [Function.update_of_ne (Ne.symm same)]
      simp [same]

end

/-- A value found under a key was there before or is that of an entry. -/
theorem valueAfter_mem {ns : Nat} {key value : Bytes} {before : Option Bytes} {entries : List Entry}
    (found : valueAfter ns key before entries = some value) : before = some value ∨ ⟨ns, key, value⟩ ∈ entries := by
  induction entries generalizing before with
  | nil => exact .inl found
  | cons entry rest ih =>
    rcases ih found with atHead | inRest
    · by_cases here : entry.ns = ns ∧ entry.key = key
      · obtain ⟨rfl, rfl⟩ := here
        obtain rfl : entry.value = value := by simpa using atHead
        exact .inr List.mem_cons_self
      · exact .inl (by simpa [here] using atHead)
    · exact .inr (List.mem_cons_of_mem _ inRest)

/-- Once there is a value under a key there stays one. -/
theorem valueAfter_isSome {ns : Nat} {key : Bytes} {before : Option Bytes} {entries : List Entry}
    (there : before.isSome ∨ ∃ entry ∈ entries, entry.ns = ns ∧ entry.key = key) :
    (valueAfter ns key before entries).isSome := by
  induction entries generalizing before with
  | nil => simpa [valueAfter] using there
  | cons entry rest ih =>
    refine ih ?_
    by_cases here : entry.ns = ns ∧ entry.key = key
    · simp [here]
    · rcases there with before | ⟨other, member, same⟩
      · exact .inl (by simpa [here] using before)
      · rcases List.mem_cons.mp member with rfl | later
        · exact absurd same here
        · exact .inr ⟨other, later, same⟩

/-! ### A map -/

/-- Replacing in place, or adding at the end. -/
def replaceItem (key value : Bytes) : List (Bytes × Bytes) → List (Bytes × Bytes)
  | [] => [(key, value)]
  | (key', value') :: rest => if key' = key then (key, value) :: rest else (key', value') :: replaceItem key value rest

theorem mem_keys_replaceItem {key value key' : Bytes} {items : List (Bytes × Bytes)} :
    key' ∈ (replaceItem key value items).map Prod.fst ↔ key' = key ∨ key' ∈ items.map Prod.fst := by
  induction items with
  | nil => simp [replaceItem]
  | cons item rest ih =>
    obtain ⟨first, old⟩ := item
    by_cases here : first = key
    · simp [replaceItem, here]
    · simp only [replaceItem, here, ↓reduceIte, List.map_cons, List.mem_cons, ih]
      exact or_left_comm

theorem nodup_replaceItem {key value : Bytes} {items : List (Bytes × Bytes)} (nodup : (items.map Prod.fst).Nodup) :
    ((replaceItem key value items).map Prod.fst).Nodup := by
  induction items with
  | nil => simp [replaceItem]
  | cons item rest ih =>
    obtain ⟨first, old⟩ := item
    obtain ⟨fresh, others⟩ := List.nodup_cons.mp nodup
    by_cases here : first = key
    · subst here
      simpa [replaceItem] using nodup
    · simp only [replaceItem, here, ↓reduceIte, List.map_cons]
      refine List.nodup_cons.mpr ⟨fun member => ?_, ih others⟩
      exact (mem_keys_replaceItem.mp member).elim here fresh

theorem lookup_replaceItem (key value key' : Bytes) (items : List (Bytes × Bytes)) :
    (replaceItem key value items).lookup key' = if key' = key then some value else items.lookup key' := by
  induction items with
  | nil =>
    by_cases same : key' = key
    · simp [replaceItem, List.lookup_cons, same]
    · simp [replaceItem, List.lookup_cons, same, beq_eq_false_iff_ne.mpr same]
  | cons item rest ih =>
    obtain ⟨first, old⟩ := item
    by_cases here : first = key
    · subst here
      by_cases same : key' = first
      · simp [replaceItem, List.lookup_cons, same]
      · simp [replaceItem, List.lookup_cons, same, beq_eq_false_iff_ne.mpr same]
    · by_cases same : key' = first
      · subst same
        simp [replaceItem, here, List.lookup_cons]
      · simp [replaceItem, here, List.lookup_cons, beq_eq_false_iff_ne.mpr same, ih]

theorem lookup_eq_some {items : List (Bytes × Bytes)} (nodup : (items.map Prod.fst).Nodup) (key value : Bytes) :
    items.lookup key = some value ↔ (key, value) ∈ items := by
  induction items with
  | nil => simp
  | cons item rest ih =>
    obtain ⟨first, old⟩ := item
    obtain ⟨fresh, others⟩ := List.nodup_cons.mp nodup
    by_cases here : key = first
    · subst here
      have absent : (key, value) ∉ rest := fun member => fresh (List.mem_map.mpr ⟨_, member, rfl⟩)
      simp [List.lookup_cons, absent, eq_comm]
    · simp [List.lookup_cons, here, beq_eq_false_iff_ne.mpr here, ih others]

/-- Association lists with unique keys are such a map, and replacing always succeeds. -/
def listMap : WallyMap { items : List (Bytes × Bytes) // (items.map Prod.fst).Nodup } where
  items map := map.val
  get map key := map.val.lookup key
  replace map key value := some ⟨replaceItem key value map.val, nodup_replaceItem map.property⟩
  keys_nodup map := map.property
  get_iff map := lookup_eq_some map.property
  get_replace map key value map' same key' := by
    obtain rfl := Option.some.inj same
    exact lookup_replaceItem key value key' map.val

/-! ### Exact acceptance -/

/-- The number of entries of a namespace. -/
def recordCount (entries : List Entry) (ns : Nat) : Nat := entries.countP fun entry => entry.ns == ns

/-- Bodies the loader accepts: every entry fits, no record namespace has more than
    16 of them, and the two urls come together or not at all. -/
structure WellFormed (entries : List Entry) : Prop where
  fits : ∀ entry ∈ entries, EntryFits entry
  counts : ∀ ns ∈ recordNamespaces, recordCount entries ns ≤ 16
  urls : (entries.any (·.isUrl "pinsvrurlA")) = entries.any (·.isUrl "pinsvrurlB")

theorem encodable_of_fits {entry : Entry} (fits : EntryFits entry) : Encodable entry := by
  rcases fits with ⟨default, field, found, fits⟩ | ⟨known, record⟩
  · obtain ⟨listed, key⟩ := find_field_mem found
    obtain ⟨pos, short, small⟩ := persisted_field_encodable field listed
    rw [key] at pos short
    exact ⟨by rw [default]; decide, pos, short, Nat.lt_of_le_of_lt fits.max_len small⟩
  · obtain ⟨rule, found, -, atMost, -⟩ := record.value_len
    have small := (persisted_namespace_bounds rule (List.mem_of_getElem? found)).2
    have inRange : ∀ ns ∈ recordNamespaces, ns < SETTINGS_NAMESPACE_COUNT := by decide
    exact ⟨inRange _ known, record.key_pos, by have := record.key_short; omega, Nat.lt_of_le_of_lt atMost small⟩

/-- Accepted one by one and well formed as a whole are the same. -/
theorem accepts_iff (entries : List Entry) : ∀ (st : WalkState M), (∀ ns, st.namespace_counts ns ≤ 16) →
    (Accepts false st entries ↔ (∀ entry ∈ entries, EntryFits entry) ∧
      (∀ ns ∈ recordNamespaces, st.namespace_counts ns + recordCount entries ns ≤ 16) ∧
      (st.urlA_seen || entries.any (·.isUrl "pinsvrurlA")) =
        (st.urlB_seen || entries.any (·.isUrl "pinsvrurlB"))) := by
  induction entries with
  | nil =>
    intro st bounded
    simp [Accepts, recordCount, bounded]
  | cons entry rest ih =>
    intro st bounded
    by_cases passes : Passes st entry
    · have bounded' : ∀ ns, (st.pass false entry).namespace_counts ns ≤ 16 := by
        intro ns
        by_cases default : entry.ns = 0
        · simpa [WalkState.pass, default] using bounded ns
        · by_cases here : ns = entry.ns
          · subst here
            have room := passes.2 default
            simp only [WalkState.pass, default, ↓reduceIte, Function.update_self]
            omega
          · simpa [WalkState.pass, default, Function.update_of_ne here] using bounded ns
      have counts : ∀ ns ∈ recordNamespaces, (st.pass false entry).namespace_counts ns + recordCount rest ns =
          st.namespace_counts ns + recordCount (entry :: rest) ns := by
        intro ns known
        by_cases here : entry.ns = ns
        · subst here
          have record : entry.ns ≠ 0 := fun zero => by rw [zero] at known; simp [recordNamespaces] at known
          simp only [WalkState.pass, record, ↓reduceIte, Function.update_self, recordCount, List.countP_cons,
            beq_self_eq_true]
          omega
        · have elsewhere : (st.pass false entry).namespace_counts ns = st.namespace_counts ns := by
            simp only [WalkState.pass]
            split
            · rfl
            · rw [Function.update_of_ne (Ne.symm here)]
          simp [elsewhere, recordCount, List.countP_cons, here]
      rw [Accepts, ih _ bounded']
      simp only [encodable_of_fits passes.1, passes, true_and, List.mem_cons, forall_eq_or_imp, passes.1]
      refine and_congr_right fun _ => and_congr ?_ ?_
      · exact forall₂_congr fun ns known => by rw [counts ns known]
      · simp [WalkState.pass, Bool.or_assoc]
    · refine iff_of_false (fun accepts => passes accepts.2.1) ?_
      rintro ⟨fits, counts, -⟩
      refine passes ⟨fits entry List.mem_cons_self, fun record => ?_⟩
      have known : entry.ns ∈ recordNamespaces := by
        rcases fits entry List.mem_cons_self with ⟨zero, -⟩ | ⟨known, -⟩
        · exact absurd zero record
        · exact known
      have := counts entry.ns known
      simp [recordCount, List.countP_cons] at this
      omega

/-- The file of a body. -/
def file (body : Bytes) : Bytes := SETTINGS_MAGIC ++ digest sha256 body ++ body

theorem digest_length (body : Bytes) : (digest sha256 body).length = SETTINGS_DIGEST_LEN := by
  simp [digest, SETTINGS_DIGEST_LEN]

theorem file_inj {body body' : Bytes} (same : file sha256 body = file sha256 body') : body = body' :=
  (List.append_inj same (by simp only [List.length_append, digest_length])).2

/-- The header checks let exactly the files of a body through. -/
theorem deserialize_eq (maps : Nat → M) (bytes : Bytes) :
    (∃ body, bytes = file sha256 body ∧ pijade_settings_deserialize api sha256 maps bytes =
      match walk_entries api false maps body with
      | none => none
      | some (false, maps) => some (false, maps)
      | some (true, maps) => walk_entries api true maps body) ∨
    ((∀ body, bytes ≠ file sha256 body) ∧ pijade_settings_deserialize api sha256 maps bytes = some (false, maps)) := by
  by_cases header : bytes.length < SETTINGS_HEADER_LEN ∨ bytes.take SETTINGS_MAGIC.length ≠ SETTINGS_MAGIC
  · right
    refine ⟨?_, if_pos header⟩
    rintro body rfl
    rcases header with short | magic
    · simp only [file, List.length_append, digest_length, SETTINGS_HEADER_LEN] at short
      omega
    · rw [file, List.append_assoc, List.take_left' rfl] at magic
      exact magic rfl
  · obtain ⟨long, magic⟩ := not_or.mp header
    have magic : bytes.take SETTINGS_MAGIC.length = SETTINGS_MAGIC := by simpa using magic
    have body_eq : (bytes.drop SETTINGS_MAGIC.length).drop SETTINGS_DIGEST_LEN = bytes.drop SETTINGS_HEADER_LEN := by
      rw [List.drop_drop, SETTINGS_HEADER_LEN]
    by_cases tampered : (bytes.drop SETTINGS_MAGIC.length).take SETTINGS_DIGEST_LEN ≠
        digest sha256 (bytes.drop SETTINGS_HEADER_LEN)
    · right
      refine ⟨?_, ?_⟩
      · rintro body rfl
        apply tampered
        have rest : (file sha256 body).drop SETTINGS_HEADER_LEN = body := by
          rw [file, List.drop_left' (by rw [List.length_append, digest_length, SETTINGS_HEADER_LEN])]
        rw [rest, file, List.append_assoc, List.drop_left' rfl, List.take_left' (digest_length sha256 body)]
      · rw [pijade_settings_deserialize, if_neg header]
        exact if_pos tampered
    · left
      refine ⟨bytes.drop SETTINGS_HEADER_LEN, ?_, ?_⟩
      · rw [file, ← not_not.mp tampered, ← body_eq, List.append_assoc, List.take_append_drop]
        have whole := List.take_append_drop SETTINGS_MAGIC.length bytes
        rw [magic] at whole
        exact whole.symm
      · rw [pijade_settings_deserialize, if_neg header]
        exact if_neg tampered

/-- What the loader promises of maps it filled from empty ones. -/
structure WellStored (maps : Nat → M) : Prop where
  fields : ∀ key value, api.get (maps 0) key = some value →
    ∃ field ∈ PERSISTED_FIELDS, ascii field.key = key ∧ FieldFits field value
  urls : (api.get (maps 0) (ascii "pinsvrurlA")).isSome = (api.get (maps 0) (ascii "pinsvrurlB")).isSome
  records : ∀ ns ∈ recordNamespaces, ∀ key value, api.get (maps ns) key = some value → RecordFits ns key value
  counts : ∀ ns ∈ recordNamespaces, (api.items (maps ns)).length ≤ 16

section
variable (succeeds : ∀ map key value, (api.replace map key value).isSome)
include succeeds

/-- A key is stored when an entry carries it. -/
theorem stored_isSome_iff {maps : Nat → M} (empty : ∀ ns key, api.get (maps ns) key = none) (entries : List Entry)
    (name : String) :
    (api.get (storeAll api maps entries 0) (ascii name)).isSome = entries.any (·.isUrl name) := by
  rw [get_storeAll api succeeds, empty]
  by_cases there : entries.any (·.isUrl name) = true
  · rw [there]
    apply valueAfter_isSome
    obtain ⟨entry, member, isUrl⟩ := List.any_eq_true.mp there
    simp only [Entry.isUrl, Bool.and_eq_true, beq_iff_eq] at isUrl
    exact .inr ⟨entry, member, isUrl⟩
  · rw [Bool.not_eq_true] at there
    rw [there]
    cases found : valueAfter 0 (ascii name) none entries with
    | none => rfl
    | some value =>
      rcases valueAfter_mem found with before | member
      · simp at before
      · have := List.any_eq_false.mp there _ member
        simp [Entry.isUrl] at this

theorem wellStored {maps : Nat → M} (empty : ∀ ns key, api.get (maps ns) key = none) {entries : List Entry}
    (formed : WellFormed entries) : WellStored api (storeAll api maps entries) := by
  have stored : ∀ ns key value, api.get (storeAll api maps entries ns) key = some value →
      (⟨ns, key, value⟩ : Entry) ∈ entries := by
    intro ns key value found
    rw [get_storeAll api succeeds, empty] at found
    exact (valueAfter_mem found).resolve_left (by simp)
  refine ⟨?_, ?_, ?_, ?_⟩
  · intro key value found
    rcases formed.fits _ (stored 0 key value found) with ⟨-, field, isField, fits⟩ | ⟨known, -⟩
    · obtain ⟨listed, same⟩ := find_field_mem isField
      exact ⟨field, listed, same, fits⟩
    · simp [recordNamespaces] at known
  · rw [stored_isSome_iff api succeeds empty, stored_isSome_iff api succeeds empty]
    exact formed.urls
  · intro ns known key value found
    rcases formed.fits _ (stored ns key value found) with ⟨zero, -⟩ | ⟨-, fits⟩
    · obtain rfl : ns = 0 := zero
      simp [recordNamespaces] at known
    · exact fits
  · intro ns known
    -- The stored keys are distinct and each is that of an entry.
    have included : (api.items (storeAll api maps entries ns)).map Prod.fst ⊆
        (entries.filter (·.ns == ns)).map Entry.key := by
      intro key member
      obtain ⟨⟨key, value⟩, item, rfl⟩ := List.mem_map.mp member
      have found := stored ns key value ((api.get_iff _ _ _).mpr item)
      exact List.mem_map.mpr ⟨⟨ns, key, value⟩, by simp [found], rfl⟩
    have fewer := List.Nodup.length_le_of_subset (api.keys_nodup _) included
    rw [List.length_map, List.length_map, ← List.countP_eq_length_filter] at fewer
    exact fewer.trans (formed.counts ns known)

/-- The loader answers on every input without reading past it. It returns true on
    exactly the files of well-formed bodies, and then it has stored their entries;
    on every other input it leaves the maps as they were. -/
theorem deserialize_cases (maps : Nat → M) (bytes : Bytes) :
    (∃ entries, WellFormed entries ∧ bytes = file sha256 (entries.flatMap Entry.bytes) ∧
      pijade_settings_deserialize api sha256 maps bytes = some (true, storeAll api maps entries)) ∨
    ((∀ entries, WellFormed entries → bytes ≠ file sha256 (entries.flatMap Entry.bytes)) ∧
      pijade_settings_deserialize api sha256 maps bytes = some (false, maps)) := by
  rcases deserialize_eq api sha256 maps bytes with ⟨body, rfl, result⟩ | ⟨noFile, result⟩
  · have start : ∀ entries : List Entry, Accepts false { maps := maps } entries ↔ WellFormed entries := by
      intro entries
      rw [accepts_iff entries { maps := maps } (by simp)]
      simp only [Nat.zero_add, Bool.false_or]
      constructor
      · rintro ⟨fits, counts, urls⟩
        exact ⟨fits, counts, urls⟩
      · intro formed
        exact ⟨formed.fits, formed.counts, formed.urls⟩
    obtain ⟨verdict, walked, verdict_iff⟩ := walk_validates api body.length { maps := maps } body le_rfl
    have walked : walk_entries api false maps body = some (verdict, maps) := walked
    rw [walked] at result
    cases verdict with
    | true =>
      obtain ⟨entries, rfl, accepts⟩ := verdict_iff.mp rfl
      refine .inl ⟨entries, (start entries).mp accepts, rfl, result.trans ?_⟩
      exact walk_stores api succeeds _ { maps := maps } entries le_rfl (accepts_storing rfl accepts)
    | false =>
      refine .inr ⟨?_, result⟩
      intro entries formed same
      exact absurd (verdict_iff.mpr ⟨entries, file_inj sha256 same, (start entries).mpr formed⟩) (by simp)
  · exact .inr ⟨fun entries _ => noFile _, result⟩

end

/-- The settings loader is all or nothing and exact. On every byte string and every
    content of the maps it answers without reading past the input; answering false
    it leaves all maps as they were; it answers true exactly on the files of
    well-formed bodies, and then stores every entry, one after another; from empty
    maps it leaves them well stored. -/
theorem loader_all_or_nothing (succeeds : ∀ map key value, (api.replace map key value).isSome) (maps : Nat → M)
    (bytes : Bytes) :
    ∃ verdict maps', pijade_settings_deserialize api sha256 maps bytes = some (verdict, maps') ∧
      (verdict = false → maps' = maps) ∧
      (verdict = true → ∃ entries, WellFormed entries ∧ bytes = file sha256 (entries.flatMap Entry.bytes) ∧
        maps' = storeAll api maps entries) ∧
      (verdict = true → (∀ ns, api.items (maps ns) = []) → WellStored api maps') ∧
      ((∃ entries, WellFormed entries ∧ bytes = file sha256 (entries.flatMap Entry.bytes)) → verdict = true) := by
  rcases deserialize_cases api sha256 succeeds maps bytes with ⟨entries, formed, is_file, result⟩ | ⟨noFile, result⟩
  · refine ⟨true, _, result, by simp, fun _ => ⟨entries, formed, is_file, rfl⟩, ?_, fun _ => rfl⟩
    intro _ empty
    refine wellStored api succeeds ?_ formed
    intro ns key
    by_contra found
    obtain ⟨value, there⟩ := Option.ne_none_iff_exists'.mp found
    have := (api.get_iff _ _ _).mp there
    simp [empty ns] at this
  · refine ⟨false, maps, result, fun _ => rfl, by simp, by simp, ?_⟩
    rintro ⟨entries, formed, same⟩
    exact absurd same (noFile entries formed)

/-- Gui flags and a counter. -/
def sampleEntries : List Entry := [⟨0, ascii "guiflags", [3]⟩, ⟨4, ascii "otp", [0, 0, 0, 0, 0, 0, 0, 9]⟩]

/-- A counter that is too short. -/
def lateEntry : Entry := ⟨4, ascii "late", [0, 0, 0, 0]⟩

/-- Other values of both. -/
def storedMaps : Nat → { items : List (Bytes × Bytes) // (items.map Prod.fst).Nodup }
  | 0 => ⟨[(ascii "guiflags", [1])], by decide⟩
  | 4 => ⟨[(ascii "otp", [0, 0, 0, 0, 0, 0, 0, 8])], by decide⟩
  | _ => ⟨[], by decide⟩

theorem sampleEntries_wellFormed : WellFormed sampleEntries where
  fits := by
    intro entry mem
    rcases List.mem_pair.mp mem with rfl | rfl
    · exact .inl ⟨rfl, ⟨"guiflags", 1, 1, false⟩, by decide, by decide, by decide, by decide, by decide, by decide⟩
    · exact .inr ((user_entry_valid_iff 4 (ascii "otp") [0, 0, 0, 0, 0, 0, 0, 9]).mp (by decide))
  counts := by decide
  urls := by decide

/-- The file of both entries replaces what is stored; with a short record behind them it changes nothing. -/
theorem loader_all_or_nothing_late_record :
    (∃ maps', pijade_settings_deserialize listMap (fun _ => Vector.replicate 32 0) storedMaps
        (file (fun _ => Vector.replicate 32 0) (sampleEntries.flatMap Entry.bytes)) = some (true, maps') ∧
      listMap.items (maps' 0) = [(ascii "guiflags", [3])] ∧
      listMap.items (maps' 4) = [(ascii "otp", [0, 0, 0, 0, 0, 0, 0, 9])]) ∧
    pijade_settings_deserialize listMap (fun _ => Vector.replicate 32 0) storedMaps
        (file (fun _ => Vector.replicate 32 0)
          ((sampleEntries ++ [lateEntry]).flatMap Entry.bytes)) = some (false, storedMaps) := by
  constructor
  · obtain ⟨verdict, maps', result, -, -, -, accepts⟩ := loader_all_or_nothing listMap
      (fun _ => Vector.replicate 32 0) (fun _ _ _ => rfl) storedMaps
      (file (fun _ => Vector.replicate 32 0) (sampleEntries.flatMap Entry.bytes))
    obtain rfl : verdict = true := accepts ⟨sampleEntries, sampleEntries_wellFormed, rfl⟩
    have stored : (pijade_settings_deserialize listMap (fun _ => Vector.replicate 32 0) storedMaps
        (file (fun _ => Vector.replicate 32 0) (sampleEntries.flatMap Entry.bytes))).map
          (fun ran => (listMap.items (ran.2 0), listMap.items (ran.2 4))) =
        some ([(ascii "guiflags", [3])], [(ascii "otp", [0, 0, 0, 0, 0, 0, 0, 9])]) := by decide +kernel
    rw [result] at stored
    obtain ⟨flags, counter⟩ := Prod.mk.inj (Option.some.inj stored)
    exact ⟨maps', result, flags, counter⟩
  · obtain ⟨verdict, maps', result, kept, -⟩ := loader_all_or_nothing listMap
      (fun _ => Vector.replicate 32 0) (fun _ _ _ => rfl) storedMaps
      (file (fun _ => Vector.replicate 32 0)
        ((sampleEntries ++ [lateEntry]).flatMap Entry.bytes))
    have refused : (pijade_settings_deserialize listMap (fun _ => Vector.replicate 32 0) storedMaps
        (file (fun _ => Vector.replicate 32 0)
          ((sampleEntries ++ [lateEntry]).flatMap Entry.bytes))).map Prod.fst = some false := by
      decide +kernel
    rw [result] at refused
    obtain rfl : verdict = false := Option.some.inj refused
    rw [result, kept rfl]

end

end PiJade.SettingsLoader
