import PiJade.SettingsRoundTrip
import PiJade.SettingsStore

/-!
How long a settings file gets. The allowlist bounds what the default namespace adds, the rules of the record
namespaces bound what each record adds, and a namespace has at most 16 records; all of it together is a payload that
the settings store takes (`pijade/host/settings_store.c`).
-/
namespace PiJade.SettingsBound
set_option linter.unusedSimpArgs false
open SettingsCodec SettingsLoader SettingsRoundTrip
open SettingsStore (Storable SETTINGS_MAX_LEN)

section
variable {M : Type} (api : WallyMap M) (sha256 : Bytes → Vector UInt8 32)

/-! ### The length of the body -/

/-- The most that some fields of the default namespace add. -/
def fieldsBound (fields : List Field) : Nat :=
  (fields.map fun field => entry_len (ascii field.key).length field.max_len).sum

/-- The most that a record of a namespace adds. -/
def recordBound (ns : Nat) : Nat :=
  match PERSISTED_NAMESPACES[ns - 1]? with
  | some rule => entry_len (NVS_KEY_NAME_MAX_SIZE - 1) rule.max_len
  | none => 0

theorem fieldEntries_length_le (prefs : M) (fields : List Field) :
    bodyLength (fieldEntries api prefs fields) ≤ fieldsBound fields := by
  induction fields with
  | nil => exact Nat.le_refl 0
  | cons field rest ih =>
    have cons : fieldsBound (field :: rest) = entry_len (ascii field.key).length field.max_len + fieldsBound rest := by
      simp [fieldsBound]
    cases item : field_item api prefs field with
    | none =>
      have skipped : fieldEntries api prefs (field :: rest) = fieldEntries api prefs rest := by simp [fieldEntries, item]
      rw [skipped, cons]
      exact Nat.le_add_left_of_le ih
    | some value =>
      have taken : fieldEntries api prefs (field :: rest) = ⟨0, ascii field.key, value⟩ :: fieldEntries api prefs rest := by
        simp [fieldEntries, item]
      have sized : value.length ≤ field.max_len := by
        obtain ⟨-, sized⟩ := Option.filter_eq_some_iff.mp item
        exact (of_decide_eq_true sized).2
      rw [taken, cons, bodyLength_cons]
      exact Nat.add_le_add (Nat.add_le_add_left sized _) ih

theorem record_length_le {entry : Entry} (record : RecordFits entry.ns entry.key entry.value) :
    entry_len entry.key.length entry.value.length ≤ recordBound entry.ns := by
  obtain ⟨rule, found, -, most, -⟩ := record.value_len
  have short := record.key_short
  rw [recordBound, found]
  dsimp only [entry_len, NVS_KEY_NAME_MAX_SIZE]
  omega

theorem itemEntries_length_le {ns : Nat} {items : List (Bytes × Bytes)}
    (fits : ∀ entry ∈ itemEntries ns items, RecordFits entry.ns entry.key entry.value) :
    bodyLength (itemEntries ns items) ≤ items.length * recordBound ns := by
  induction items with
  | nil => exact Nat.zero_le _
  | cons item rest ih =>
    have cons : itemEntries ns (item :: rest) = ⟨ns, item.1, item.2⟩ :: itemEntries ns rest := rfl
    rw [cons] at fits ⊢
    obtain ⟨here, later⟩ := List.forall_mem_cons.mp fits
    rw [bodyLength_cons, List.length_cons, Nat.succ_mul, Nat.add_comm]
    exact Nat.add_le_add (ih later) (record_length_le here)

theorem countP_itemEntries (ns other : Nat) (items : List (Bytes × Bytes)) :
    (itemEntries other items).countP (fun entry => entry.ns == ns) = if other = ns then items.length else 0 := by
  rw [itemEntries, List.countP_map]
  split
  next same => exact List.countP_eq_length.mpr fun item _ => by simp [same]
  next differ => exact List.countP_eq_zero.mpr fun item _ => by simp [differ]

/-- The records of a namespace that are written are the items of its map. -/
theorem recordCount_written (maps : Nat → M) {ns : Nat} (known : ns ∈ recordNamespaces) :
    recordCount (writtenEntries api maps) ns = (api.items (maps ns)).length := by
  have fields : (fieldEntries api (maps 0) PERSISTED_FIELDS).countP (fun entry => entry.ns == ns) = 0 := by
    refine List.countP_eq_zero.mpr fun entry mem => ?_
    obtain ⟨zero, -⟩ := (mem_fieldEntries api).mp mem
    rw [zero, beq_iff_eq]
    rintro rfl
    exact absurd known (by decide)
  rw [recordCount, writtenEntries, List.countP_append, fields, Nat.zero_add]
  simp only [recordNamespaces, List.flatMap_cons, List.flatMap_nil, List.append_nil, List.countP_append, recordEntries,
    countP_itemEntries]
  simp only [recordNamespaces, List.mem_cons, List.not_mem_nil, or_false] at known
  rcases known with rfl | rfl | rfl | rfl <;> simp

theorem written_length_le {maps : Nat → M} (formed : WellFormed (writtenEntries api maps)) :
    bodyLength (writtenEntries api maps) ≤
      fieldsBound PERSISTED_FIELDS + (recordNamespaces.map fun ns => 16 * recordBound ns).sum := by
  have records : ∀ namespaces : List Nat, (∀ ns ∈ namespaces, ns ∈ recordNamespaces) →
      bodyLength (namespaces.flatMap (recordEntries api maps)) ≤ (namespaces.map fun ns => 16 * recordBound ns).sum := by
    intro namespaces
    induction namespaces with
    | nil => exact fun _ => Nat.le_refl 0
    | cons ns rest ih =>
      intro known
      obtain ⟨here, later⟩ := List.forall_mem_cons.mp known
      have few := formed.counts ns here
      rw [recordCount_written api maps here] at few
      have fits : ∀ entry ∈ itemEntries ns (api.items (maps ns)), RecordFits entry.ns entry.key entry.value := by
        intro entry mem
        have written : entry ∈ writtenEntries api maps :=
          List.mem_append_right _ (List.mem_flatMap.mpr ⟨ns, here, mem⟩)
        obtain ⟨item, -, rfl⟩ := List.mem_map.mp mem
        rcases formed.fits _ written with ⟨zero, -⟩ | ⟨-, record⟩
        · rw [show ns = 0 from zero] at here
          exact absurd here (by decide)
        · exact record
      rw [List.flatMap_cons, bodyLength_append, List.map_cons, List.sum_cons]
      exact Nat.add_le_add (Nat.le_trans (itemEntries_length_le fits) (Nat.mul_le_mul_right _ few)) (ih later)
  rw [writtenEntries, bodyLength_append]
  exact Nat.add_le_add (fieldEntries_length_le api (maps 0) PERSISTED_FIELDS) (records recordNamespaces fun _ => id)

/-- What the longest body and its header add up to. -/
theorem bounds_fit : SETTINGS_HEADER_LEN +
    (fieldsBound PERSISTED_FIELDS + (recordNamespaces.map fun ns => 16 * recordBound ns).sum) ≤ SETTINGS_MAX_LEN := by
  decide

/-! ### What is handed out -/

/-- A settings file is short enough for the store, and no length in it is cut off; more than 16 records are refused. -/
theorem settings_within_bounds (malloc : Bool) (maps : Nat → M) :
    (∀ bytes, pijade_settings_serialize api sha256 malloc maps = some (some bytes) → Storable bytes ∧
      bytes = file sha256 ((writtenEntries api maps).flatMap Entry.bytes) ∧
      ∀ entry ∈ writtenEntries api maps, (UInt8.ofNat entry.key.length).toNat = entry.key.length ∧
        (UInt8.ofNat entry.value.length).toNat ||| (UInt8.ofNat (entry.value.length >>> 8)).toNat <<< 8 =
          entry.value.length) ∧
    ((∃ ns ∈ recordNamespaces, 16 < (api.items (maps ns)).length) →
      pijade_settings_serialize api sha256 malloc maps = some none) := by
  constructor
  · intro bytes handed
    obtain ⟨-, formed, rfl⟩ := (serialize_eq_some_iff api sha256).mp handed
    refine ⟨?_, rfl, fun entry written => ?_⟩
    · have header : (file sha256 ((writtenEntries api maps).flatMap Entry.bytes)).length =
          SETTINGS_HEADER_LEN + bodyLength (writtenEntries api maps) := by
        rw [file, List.length_append, List.length_append, digest_length]
        rfl
      have most := written_length_le api formed
      have fit := bounds_fit
      rw [Storable, header]
      exact ⟨Nat.lt_of_lt_of_le (by decide) (Nat.le_add_right _ _),
        Nat.le_trans (Nat.add_le_add_left most SETTINGS_HEADER_LEN) fit⟩
    · obtain ⟨-, -, key, value⟩ := encodable_of_fits (formed.fits entry written)
      exact ⟨UInt8.toNat_ofNat_of_lt' key, Bytes.join_split16 value⟩
  · rintro ⟨ns, known, many⟩
    rcases serialize_cases api sha256 malloc maps with refused | ⟨-, formed⟩
    · exact refused
    · have few := formed.counts ns known
      rw [recordCount_written api maps known] at few
      exact absurd few (Nat.not_le.mpr many)

end

end PiJade.SettingsBound
