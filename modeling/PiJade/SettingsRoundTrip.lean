import Mathlib.Data.List.Basic
import Mathlib.Logic.Function.Basic
import Mathlib.Tactic.Common
import PiJade.SettingsLoader

/-!
The settings writer and its round trip: the first pass sizes the buffer, the second one
fills it with the entries of the maps and never leaves it, and the loader gives back
what was written.
-/
namespace PiJade.SettingsRoundTrip
set_option linter.unusedSimpArgs false
open SettingsCodec SettingsLoader

section
variable {M : Type} (api : WallyMap M) (sha256 : Bytes → Vector UInt8 32)

/-- The entries the serializer writes for these fields of the default namespace. -/
def fieldEntries (prefs : M) (fields : List Field) : List Entry :=
  fields.filterMap fun field => (field_item api prefs field).map fun value => ⟨0, ascii field.key, value⟩

/-- The entries of these items of a record namespace. -/
def itemEntries (ns : Nat) (items : List (Bytes × Bytes)) : List Entry := items.map fun item => ⟨ns, item.1, item.2⟩

/-- The entries the serializer writes for a record namespace. -/
def recordEntries (maps : Nat → M) (ns : Nat) : List Entry := itemEntries ns (api.items (maps ns))

/-- All entries the serializer writes, in order. -/
def writtenEntries (maps : Nat → M) : List Entry :=
  fieldEntries api (maps 0) PERSISTED_FIELDS ++ recordNamespaces.flatMap (recordEntries api maps)

/-- The bytes a list of entries takes. -/
def bodyLength (entries : List Entry) : Nat := (entries.flatMap Entry.bytes).length

theorem bodyLength_cons (entry : Entry) (rest : List Entry) :
    bodyLength (entry :: rest) = entry_len entry.key.length entry.value.length + bodyLength rest := by
  simp [bodyLength, bytes_length]

theorem bodyLength_append (front rest : List Entry) :
    bodyLength (front ++ rest) = bodyLength front + bodyLength rest := by
  simp [bodyLength]

/-- The first pass over a record map adds up its entries. -/
theorem records_len_eq {ns : Nat} {items : List (Bytes × Bytes)} {before after : Nat}
    (counted : records_len ns before items = some after) :
    after = before + bodyLength (itemEntries ns items) := by
  induction items generalizing before with
  | nil => simpa [records_len, bodyLength, itemEntries, eq_comm] using counted
  | cons item rest ih =>
    obtain ⟨key, value⟩ := item
    rw [records_len] at counted
    split at counted
    · simp at counted
    · have cons : itemEntries ns ((key, value) :: rest) = ⟨ns, key, value⟩ :: itemEntries ns rest := rfl
      rw [ih counted, cons, bodyLength_cons, Nat.add_assoc]

theorem fields_len_eq (prefs : M) (fields : List Field) (before : Nat) :
    fields.foldl (fun body_len field =>
      match field_item api prefs field with
      | none => body_len
      | some value => body_len + entry_len (ascii field.key).length value.length) before =
      before + bodyLength (fieldEntries api prefs fields) := by
  induction fields generalizing before with
  | nil => simp [bodyLength, fieldEntries]
  | cons field rest ih =>
    rw [List.foldl_cons, ih]
    cases item : field_item api prefs field with
    | none => simp [fieldEntries, item]
    | some value => simp [fieldEntries, item, bodyLength_cons, Nat.add_assoc]

/-- The first pass computes the length of what the second writes. -/
theorem settings_body_len_eq {maps : Nat → M} {body_len : Nat} (counted : settings_body_len api maps = some body_len) :
    body_len = bodyLength (writtenEntries api maps) := by
  have pass : ∀ (namespaces : List Nat) (before after : Nat),
      namespaces.foldlM (fun body_len ns => records_len ns body_len (api.items (maps ns))) before = some after →
      after = before + bodyLength (namespaces.flatMap (recordEntries api maps)) := by
    intro namespaces
    induction namespaces with
    | nil => intro before after same; simpa [bodyLength, eq_comm] using same
    | cons ns rest ih =>
      intro before after same
      rw [List.foldlM_cons] at same
      obtain ⟨between, first, later⟩ := Option.bind_eq_some_iff.mp same
      rw [ih between after later, records_len_eq first, List.flatMap_cons, bodyLength_append, Nat.add_assoc]
      rfl
  have records := pass recordNamespaces _ body_len counted
  rw [records, writtenEntries, bodyLength_append]
  congr 1
  exact (fields_len_eq api (maps 0) PERSISTED_FIELDS 0).trans (Nat.zero_add _)

theorem put_fits {size : Nat} {written : Bytes} {entry : Entry} (later : List Entry)
    (room : written.length + bodyLength (entry :: later) ≤ size) :
    put size written entry.bytes = some (written ++ entry.bytes) ∧
      (written ++ entry.bytes).length + bodyLength later ≤ size := by
  rw [bodyLength_cons, ← bytes_length] at room
  exact ⟨if_pos (by omega), by rw [List.length_append]; omega⟩

/-- Writing the items of a map stays within a buffer that has room for them. -/
theorem put_records {size ns : Nat} (items : List (Bytes × Bytes)) : ∀ (written : Bytes) (later : List Entry),
    written.length + bodyLength (itemEntries ns items ++ later) ≤ size →
    items.foldlM (fun written item => put size written (Entry.bytes ⟨ns, item.1, item.2⟩)) written =
        some (written ++ (itemEntries ns items).flatMap Entry.bytes) ∧
      (written ++ (itemEntries ns items).flatMap Entry.bytes).length + bodyLength later ≤ size := by
  induction items with
  | nil => intro written later room; simpa [itemEntries] using room
  | cons item rest ih =>
    intro written later room
    obtain ⟨first, room'⟩ := put_fits (itemEntries ns rest ++ later) room
    obtain ⟨others, left⟩ := ih _ _ room'
    rw [List.foldlM_cons, first]
    simp only [Option.bind_eq_bind, Option.bind_some, others, itemEntries, List.map_cons, List.flatMap_cons,
      List.append_assoc]
    exact ⟨trivial, by simpa [itemEntries, Nat.add_assoc] using left⟩

/-- Writing the fields of the default map stays within a buffer that has room for them. -/
theorem put_fields {size : Nat} (prefs : M) (fields : List Field) : ∀ (written : Bytes) (later : List Entry),
    written.length + bodyLength (fieldEntries api prefs fields ++ later) ≤ size →
    fields.foldlM (fun written field =>
      match field_item api prefs field with
      | none => some written
      | some value => put size written (Entry.bytes ⟨0, ascii field.key, value⟩)) written =
        some (written ++ (fieldEntries api prefs fields).flatMap Entry.bytes) ∧
      (written ++ (fieldEntries api prefs fields).flatMap Entry.bytes).length + bodyLength later ≤ size := by
  induction fields with
  | nil => intro written later room; simpa [fieldEntries] using room
  | cons field rest ih =>
    intro written later room
    rw [List.foldlM_cons]
    cases item : field_item api prefs field with
    | none =>
      have skipped : fieldEntries api prefs (field :: rest) = fieldEntries api prefs rest := by
        simp [fieldEntries, item]
      rw [skipped] at room ⊢
      simpa using ih written later room
    | some value =>
      have taken : fieldEntries api prefs (field :: rest) =
          ⟨0, ascii field.key, value⟩ :: fieldEntries api prefs rest := by
        simp [fieldEntries, item]
      rw [taken] at room ⊢
      obtain ⟨first, room'⟩ := put_fits _ room
      obtain ⟨others, left⟩ := ih _ _ room'
      simp only [first, Option.bind_eq_bind, Option.bind_some, others, List.flatMap_cons, List.append_assoc]
      exact ⟨trivial, by simpa [Nat.add_assoc] using left⟩

/-- The second pass writes every entry and never leaves the buffer. -/
theorem settings_body_eq (maps : Nat → M) {size : Nat} (room : bodyLength (writtenEntries api maps) ≤ size) :
    settings_body api maps size = some ((writtenEntries api maps).flatMap Entry.bytes) := by
  have pass : ∀ (namespaces : List Nat) (written : Bytes),
      written.length + bodyLength (namespaces.flatMap (recordEntries api maps)) ≤ size →
      namespaces.foldlM (fun written ns => (api.items (maps ns)).foldlM (fun written item =>
        put size written (Entry.bytes ⟨ns, item.1, item.2⟩)) written) written =
          some (written ++ (namespaces.flatMap (recordEntries api maps)).flatMap Entry.bytes) := by
    intro namespaces
    induction namespaces with
    | nil => intro written _; simp
    | cons ns rest ih =>
      intro written room
      rw [List.flatMap_cons] at room
      obtain ⟨first, room'⟩ := put_records (api.items (maps ns)) written _ room
      rw [List.foldlM_cons, first]
      simp only [Option.bind_eq_bind, Option.bind_some]
      rw [ih _ room', List.flatMap_cons, List.flatMap_append, List.append_assoc]
      rfl
  rw [writtenEntries] at room
  obtain ⟨fields, room'⟩ := put_fields api (maps 0) PERSISTED_FIELDS [] _ (by simpa using room)
  refine Option.bind_eq_some_iff.mpr ⟨_, fields, ?_⟩
  rw [pass _ _ room', writtenEntries, List.flatMap_append, List.nil_append]

/-- A record that the first pass counted is valid. -/
theorem records_len_valid {ns : Nat} {items : List (Bytes × Bytes)} {before after : Nat}
    (counted : records_len ns before items = some after) :
    ∀ item ∈ items, user_entry_valid ns item.1 item.2.length = true := by
  induction items generalizing before with
  | nil => simp
  | cons item rest ih =>
    obtain ⟨key, value⟩ := item
    rw [records_len] at counted
    split at counted
    · simp at counted
    · rename_i valid
      exact List.forall_mem_cons.mpr ⟨by simpa using valid, ih counted⟩

theorem mem_fieldEntries {prefs : M} {entry : Entry} : entry ∈ fieldEntries api prefs PERSISTED_FIELDS ↔
    entry.ns = 0 ∧ api.get prefs entry.key = some entry.value ∧ ∃ field ∈ PERSISTED_FIELDS,
      ascii field.key = entry.key ∧ field.min_len ≤ entry.value.length ∧ entry.value.length ≤ field.max_len := by
  simp only [fieldEntries, List.mem_filterMap, Option.map_eq_some_iff, field_item, Option.filter_eq_some_iff,
    decide_eq_true_eq]
  constructor
  · rintro ⟨field, listed, value, ⟨found, sized⟩, rfl⟩
    exact ⟨rfl, found, field, listed, rfl, sized⟩
  · obtain ⟨ns, key, value⟩ := entry
    rintro ⟨rfl, found, field, listed, rfl, sized⟩
    exact ⟨field, listed, value, ⟨found, sized⟩, rfl⟩

theorem mem_recordEntries {maps : Nat → M} {ns : Nat} {entry : Entry} : entry ∈ recordEntries api maps ns ↔
    entry.ns = ns ∧ api.get (maps ns) entry.key = some entry.value := by
  rw [api.get_iff]
  simp only [recordEntries, itemEntries, List.mem_map, Prod.exists]
  constructor
  · rintro ⟨key, value, member, rfl⟩
    exact ⟨rfl, member⟩
  · obtain ⟨ns', key, value⟩ := entry
    rintro ⟨rfl, member⟩
    exact ⟨key, value, member, rfl⟩

/-- What is written is what the maps hold under the keys that persist. -/
theorem mem_writtenEntries {maps : Nat → M} {entry : Entry} (written : entry ∈ writtenEntries api maps) :
    api.get (maps entry.ns) entry.key = some entry.value := by
  rcases List.mem_append.mp written with default | records
  · obtain ⟨zero, found, -⟩ := (mem_fieldEntries api).mp default
    rwa [zero]
  · obtain ⟨ns, -, member⟩ := List.mem_flatMap.mp records
    obtain ⟨rfl, found⟩ := (mem_recordEntries api).mp member
    exact found

theorem written_encodable {maps : Nat → M} {body_len : Nat} (counted : settings_body_len api maps = some body_len) :
    ∀ entry ∈ writtenEntries api maps, Encodable entry := by
  have valid : ∀ (namespaces : List Nat) (before after : Nat),
      namespaces.foldlM (fun body_len ns => records_len ns body_len (api.items (maps ns))) before = some after →
      ∀ ns ∈ namespaces, ∀ item ∈ api.items (maps ns), user_entry_valid ns item.1 item.2.length = true := by
    intro namespaces
    induction namespaces with
    | nil => simp
    | cons first rest ih =>
      intro before after same
      rw [List.foldlM_cons] at same
      obtain ⟨between, here, later⟩ := Option.bind_eq_some_iff.mp same
      exact List.forall_mem_cons.mpr ⟨records_len_valid here, ih between after later⟩
  intro entry written
  rcases List.mem_append.mp written with default | records
  · obtain ⟨zero, -, field, listed, key, -, atMost⟩ := (mem_fieldEntries api).mp default
    obtain ⟨pos, short, small⟩ := persisted_field_encodable field listed
    rw [key] at pos short
    exact ⟨by rw [zero]; decide, pos, short, Nat.lt_of_le_of_lt atMost small⟩
  · obtain ⟨ns, known, member⟩ := List.mem_flatMap.mp records
    obtain ⟨rfl, found⟩ := (mem_recordEntries api).mp member
    have fits := valid _ _ _ counted entry.ns known (entry.key, entry.value) ((api.get_iff _ _ _).mp found)
    exact encodable_of_fits (.inr ((user_entry_valid_iff ..).mp fits))

/-- Entries that can be encoded are told apart by their bytes. -/
theorem flatMap_bytes_inj {entries others : List Entry} (one : ∀ entry ∈ entries, Encodable entry)
    (two : ∀ entry ∈ others, Encodable entry) (same : entries.flatMap Entry.bytes = others.flatMap Entry.bytes) :
    entries = others := by
  induction entries generalizing others with
  | nil =>
    cases others with
    | nil => rfl
    | cons other rest => exact absurd same.symm (bytes_ne_nil other _)
  | cons entry rest ih =>
    cases others with
    | nil => exact absurd same (bytes_ne_nil entry _)
    | cons other rest' =>
      rw [List.flatMap_cons, List.flatMap_cons] at same
      obtain ⟨rfl, rest_eq⟩ := bytes_append_inj (one _ List.mem_cons_self) (two _ List.mem_cons_self) same
      rw [ih (fun _ member => one _ (List.mem_cons_of_mem _ member))
        (fun _ member => two _ (List.mem_cons_of_mem _ member)) rest_eq]

/-- The serializer answers without leaving its buffer or reading past it, and what
    it hands out is the file of the well-formed entries of the maps. -/
theorem serialize_cases (malloc : Bool) (maps : Nat → M) :
    pijade_settings_serialize api sha256 malloc maps = some none ∨
      (pijade_settings_serialize api sha256 malloc maps =
        some (some (file sha256 ((writtenEntries api maps).flatMap Entry.bytes))) ∧
      WellFormed (writtenEntries api maps)) := by
  unfold pijade_settings_serialize
  cases counted : settings_body_len api maps with
  | none => exact .inl rfl
  | some body_len =>
    have length := settings_body_len_eq api counted
    cases malloc with
    | false => exact .inl rfl
    | true =>
      have lengths : ((writtenEntries api maps).flatMap Entry.bytes).length = body_len := length.symm
      simp only [Bool.not_true, Bool.false_eq_true, ↓reduceIte, settings_body_eq api maps length.ge,
        Option.bind_eq_bind, Option.bind_some, lengths, ne_eq, not_true_eq_false]
      obtain ⟨verdict, walked, verdict_iff⟩ := walk_validates api _ { maps := maps }
        ((writtenEntries api maps).flatMap Entry.bytes) le_rfl
      have walked : walk_entries api false maps ((writtenEntries api maps).flatMap Entry.bytes) =
          some (verdict, maps) := walked
      rw [walked]
      cases verdict with
      | false => exact .inl rfl
      | true =>
        refine .inr ⟨rfl, ?_⟩
        obtain ⟨entries, same, accepts⟩ := verdict_iff.mp rfl
        obtain ⟨fits, counts, urls⟩ := (accepts_iff entries { maps := maps } (by simp)).mp accepts
        obtain rfl := flatMap_bytes_inj (written_encodable api counted)
          (fun entry member => encodable_of_fits (fits entry member)) same
        exact ⟨fits, by simpa using counts, by simpa using urls⟩

theorem records_len_of_valid {ns : Nat} {items : List (Bytes × Bytes)}
    (valid : ∀ item ∈ items, user_entry_valid ns item.1 item.2.length = true) (before : Nat) :
    ∃ after, records_len ns before items = some after := by
  induction items generalizing before with
  | nil => exact ⟨before, rfl⟩
  | cons item rest ih =>
    obtain ⟨key, value⟩ := item
    obtain ⟨here, later⟩ := List.forall_mem_cons.mp valid
    obtain ⟨after, counted⟩ := ih later (before + entry_len key.length value.length)
    exact ⟨after, by rw [records_len, here]; exact counted⟩

/-- The first pass refuses nothing but records. -/
theorem settings_body_len_of_valid {maps : Nat → M}
    (valid : ∀ ns ∈ recordNamespaces, ∀ item ∈ api.items (maps ns), user_entry_valid ns item.1 item.2.length = true) :
    ∃ body_len, settings_body_len api maps = some body_len := by
  have pass : ∀ (namespaces : List Nat) (before : Nat),
      (∀ ns ∈ namespaces, ∀ item ∈ api.items (maps ns), user_entry_valid ns item.1 item.2.length = true) →
      ∃ after, namespaces.foldlM (fun body_len ns => records_len ns body_len (api.items (maps ns))) before = some after := by
    intro namespaces
    induction namespaces with
    | nil => exact fun before _ => ⟨before, rfl⟩
    | cons ns rest ih =>
      intro before valid
      obtain ⟨here, later⟩ := List.forall_mem_cons.mp valid
      obtain ⟨between, first⟩ := records_len_of_valid here before
      obtain ⟨after, others⟩ := ih between later
      exact ⟨after, by rw [List.foldlM_cons, first]; exact others⟩
  exact pass recordNamespaces _ valid

/-- The serializer hands out a file for the maps whose entries are well-formed, if there is memory. -/
theorem serialize_eq_some_iff {malloc : Bool} {maps : Nat → M} {bytes : Bytes} :
    pijade_settings_serialize api sha256 malloc maps = some (some bytes) ↔
      malloc = true ∧ WellFormed (writtenEntries api maps) ∧
        bytes = file sha256 ((writtenEntries api maps).flatMap Entry.bytes) := by
  constructor
  · intro handed
    rcases serialize_cases api sha256 malloc maps with refused | ⟨written, formed⟩
    · rw [refused] at handed
      cases handed
    · rw [written] at handed
      cases handed
      cases malloc with
      | true => exact ⟨rfl, formed, rfl⟩
      | false =>
        unfold pijade_settings_serialize at written
        split at written <;> cases written
  · rintro ⟨rfl, formed, rfl⟩
    have valid : ∀ ns ∈ recordNamespaces, ∀ item ∈ api.items (maps ns), user_entry_valid ns item.1 item.2.length = true := by
      intro ns known item mem
      have written : (⟨ns, item.1, item.2⟩ : Entry) ∈ writtenEntries api maps :=
        List.mem_append_right _ (List.mem_flatMap.mpr ⟨ns, known, List.mem_map.mpr ⟨item, mem, rfl⟩⟩)
      rcases formed.fits _ written with ⟨zero, -⟩ | record
      · rw [show ns = 0 from zero] at known
        exact absurd known (by decide)
      · exact (user_entry_valid_iff ns item.1 item.2).mpr record
    obtain ⟨body_len, counted⟩ := settings_body_len_of_valid api valid
    have length := settings_body_len_eq api counted
    have lengths : ((writtenEntries api maps).flatMap Entry.bytes).length = body_len := length.symm
    obtain ⟨passed, walked, passed_iff⟩ := walk_validates api _ { maps := maps }
      ((writtenEntries api maps).flatMap Entry.bytes) le_rfl
    have accepts : Accepts false ({ maps := maps } : WalkState M) (writtenEntries api maps) :=
      (accepts_iff _ _ (by simp)).mpr ⟨formed.fits, by simpa using formed.counts, by simpa using formed.urls⟩
    have walked : walk_entries api false maps ((writtenEntries api maps).flatMap Entry.bytes) = some (passed, maps) := walked
    rw [passed_iff.mpr ⟨_, rfl, accepts⟩] at walked
    simp only [pijade_settings_serialize, counted, Bool.not_true, Bool.false_eq_true, ↓reduceIte,
      settings_body_eq api maps length.ge, Option.bind_eq_bind, Option.bind_some, lengths, ne_eq, not_true_eq_false, walked]
    rfl

/-- The settings codec round trip. Serializing never writes past the buffer sized in
    the first pass, and whatever it hands out is loaded back: into empty maps the
    loader stores the allowlisted fields of the default map whose lengths are in
    range, and exactly the pairs of the four record maps. -/
theorem codec_round_trip (succeeds : ∀ map key value, (api.replace map key value).isSome) (malloc : Bool)
    (maps fresh : Nat → M) (empty : ∀ ns, api.items (fresh ns) = []) :
    pijade_settings_serialize api sha256 malloc maps ≠ none ∧
    ∀ bytes, pijade_settings_serialize api sha256 malloc maps = some (some bytes) →
      ∃ loaded, pijade_settings_deserialize api sha256 fresh bytes = some (true, loaded) ∧
        (∀ key value, api.get (loaded 0) key = some value ↔ api.get (maps 0) key = some value ∧
          ∃ field ∈ PERSISTED_FIELDS, ascii field.key = key ∧ field.min_len ≤ value.length ∧
            value.length ≤ field.max_len) ∧
        (∀ ns ∈ recordNamespaces, ∀ key value, api.get (loaded ns) key = some value ↔
          api.get (maps ns) key = some value) := by
  have none_there : ∀ ns key, api.get (fresh ns) key = none := by
    intro ns key
    by_contra found
    obtain ⟨value, there⟩ := Option.ne_none_iff_exists'.mp found
    simpa [empty ns] using (api.get_iff _ _ _).mp there
  rcases serialize_cases api sha256 malloc maps with refused | ⟨written, formed⟩
  · simp [refused]
  · refine ⟨by simp [written], ?_⟩
    rintro bytes handed
    obtain rfl : file sha256 ((writtenEntries api maps).flatMap Entry.bytes) = bytes := by
      simpa [written] using handed
    have loaded : pijade_settings_deserialize api sha256 fresh
        (file sha256 ((writtenEntries api maps).flatMap Entry.bytes)) =
          some (true, storeAll api fresh (writtenEntries api maps)) := by
      rcases deserialize_cases api sha256 succeeds fresh
        (file sha256 ((writtenEntries api maps).flatMap Entry.bytes))
      with ⟨entries, formed', same, result⟩ | ⟨noFile, -⟩
      · obtain rfl := flatMap_bytes_inj (fun entry member => encodable_of_fits (formed.fits entry member))
          (fun entry member => encodable_of_fits (formed'.fits entry member)) (file_inj sha256 same)
        exact result
      · exact absurd rfl (noFile _ formed)
    -- What is stored under a key is the one entry written for it.
    have stored : ∀ ns key value, api.get (storeAll api fresh (writtenEntries api maps) ns) key = some value ↔
        ⟨ns, key, value⟩ ∈ writtenEntries api maps := by
      intro ns key value
      rw [get_storeAll api succeeds, none_there]
      constructor
      · exact fun found => (valueAfter_mem found).resolve_left (by simp)
      · intro member
        obtain ⟨other, found⟩ : ∃ other, valueAfter ns key none (writtenEntries api maps) = some other :=
          Option.isSome_iff_exists.mp (valueAfter_isSome (.inr ⟨_, member, rfl, rfl⟩))
        have here : api.get (maps ns) key = some value := mem_writtenEntries api member
        have there : api.get (maps ns) key = some other :=
          mem_writtenEntries api ((valueAfter_mem found).resolve_left (by simp))
        rw [found, ← there, here]
    refine ⟨_, loaded, ?_, ?_⟩
    · intro key value
      rw [stored, writtenEntries, List.mem_append, mem_fieldEntries]
      constructor
      · rintro (⟨-, facts⟩ | records)
        · exact facts
        · obtain ⟨ns, known, member⟩ := List.mem_flatMap.mp records
          obtain ⟨rfl, -⟩ := (mem_recordEntries api).mp member
          simp [recordNamespaces] at known
      · exact fun facts => .inl ⟨rfl, facts⟩
    · intro ns known key value
      rw [stored]
      constructor
      · exact fun member => mem_writtenEntries api member
      · intro found
        exact List.mem_append_right _ (List.mem_flatMap.mpr ⟨ns, known, (mem_recordEntries api).mpr ⟨rfl, found⟩⟩)

/-- Gui flags and a registered multisig record. -/
def sampleMaps : Nat → { items : List (Bytes × Bytes) // (items.map Prod.fst).Nodup }
  | 0 => ⟨[(ascii "guiflags", [1])], List.nodup_singleton _⟩
  | 1 => ⟨[(ascii "ms", List.replicate 114 7)], List.nodup_singleton _⟩
  | _ => ⟨[], List.nodup_nil⟩

/-- A device writes both and loads them back. -/
theorem codec_round_trip_record :
    ∃ bytes loaded,
      pijade_settings_serialize listMap (fun _ => Vector.replicate 32 0) true sampleMaps = some (some bytes) ∧
      pijade_settings_deserialize listMap (fun _ => Vector.replicate 32 0) (fun _ => ⟨[], by decide⟩) bytes =
        some (true, loaded) ∧
      listMap.get (loaded 0) (ascii "guiflags") = some [1] ∧
      listMap.get (loaded 1) (ascii "ms") = some (List.replicate 114 7) := by
  obtain ⟨loaded, result, fields, records⟩ := (codec_round_trip listMap (fun _ => Vector.replicate 32 0)
    (fun _ _ _ => rfl) true sampleMaps (fun _ => ⟨[], by decide⟩) (fun _ => rfl)).2 _ rfl
  refine ⟨_, loaded, rfl, result, (fields _ _).mpr ⟨rfl, ⟨"guiflags", 1, 1, false⟩, by decide, rfl, by decide, by decide⟩,
    (records 1 (by decide) _ _).mpr rfl⟩

end

end PiJade.SettingsRoundTrip
