import PiJade.CborDecode
import PiJade.CborEntries

/-!
Items as an encoder writes them: every argument in as few bytes as it fits, with counts in front. No
other way of writing an argument is shorter, and what is written is well formed.
-/
namespace PiJade.Cbor
set_option linter.unusedSimpArgs false

/-! ### Arguments -/

/-- The shortest head of an argument, which has eight bytes at most. -/
def Head.short (value : Nat) : Head :=
  if inside : value < 24 then ⟨.inside, value, inside⟩
  else if one : value < 256 then ⟨.one, value, one⟩
  else if two : value < 256 ^ 2 then ⟨.two, value, two⟩
  else if four : value < 256 ^ 4 then ⟨.four, value, four⟩
  else ⟨.eight, value % 256 ^ 8, Nat.mod_lt _ (by decide)⟩

/-- How many bytes an argument comes to. -/
def size (value : Nat) : Nat :=
  if value < 24 then 1 else if value < 256 then 2 else if value < 256 ^ 2 then 3 else if value < 256 ^ 4 then 5 else 9

theorem Head.short_value {value : Nat} (fits : value < 256 ^ 8) : (Head.short value).value = value := by
  rw [Head.short]
  split_ifs <;> first | rfl | exact Nat.mod_eq_of_lt fits

theorem Head.length_bytes (major : Nat) (head : Head) : (head.bytes major).length = 1 + head.form.width := by
  rw [Head.bytes, List.length_cons, length_bigEndian, Nat.add_comm]

theorem Head.length_short (major value : Nat) : ((Head.short value).bytes major).length = size value := by
  rw [Head.length_bytes, Head.short, size]
  split_ifs <;> rfl

/-! ### Items -/

def Item.uint (value : Nat) : Item := .unsigned (.short value)

def Item.ofBool (mark : Bool) : Item :=
  .simple (if mark then { form := .inside, value := 21, fits := by decide } else
    { form := .inside, value := 20, fits := by decide })

def Item.byteString (content : Bytes) (fits : content.length < 256 ^ 8) : Item :=
  .string false { head := .short content.length, content, counted := (Head.short_value fits).symm }

def Item.arrayOf (items : List Item) : Item := .array (some (.short items.length)) items

/-- The items of a map. -/
def flattened (pairs : List (Item × Item)) : List Item := pairs.flatMap fun entry => [entry.1, entry.2]

def Item.mapOf (pairs : List (Item × Item)) : Item := .map (some (.short pairs.length)) (flattened pairs)

/-- Entries under numbers. -/
def numbered (pairs : List (Nat × Item)) : List (Item × Item) := pairs.map fun entry => (.uint entry.1, entry.2)

/-- A map whose keys are numbers. -/
def Item.numberedMap (pairs : List (Nat × Item)) : Item := .mapOf (numbered pairs)

def Item.tagged (tag : Nat) (item : Item) : Item := .tag (.short tag) item

@[simp] theorem Item.number?_uint {value : Nat} (fits : value < 256 ^ 8) : (Item.uint value).number? = some value :=
  congrArg some (Head.short_value fits)

@[simp] theorem Item.boolean?_ofBool (mark : Bool) : (Item.ofBool mark).boolean? = some mark := by
  cases mark <;> decide

@[simp] theorem Item.content?_byteString {content : Bytes} (fits : content.length < 256 ^ 8) :
    (Item.byteString content fits).content? false = some content := rfl

theorem length_flattened (pairs : List (Item × Item)) : (flattened pairs).length = 2 * pairs.length := by
  rw [flattened, List.length_flatMap]
  simp [Nat.mul_comm]

@[simp] theorem entries_flattened (pairs : List (Item × Item)) : entries (flattened pairs) = pairs := by
  induction pairs with
  | nil => rfl
  | cons entry later ih =>
    rw [flattened, List.flatMap_cons]
    exact congrArg (entry :: ·) ih

@[simp] theorem Item.bytes_arrayOf (items : List Item) :
    (Item.arrayOf items).bytes = (Head.short items.length).bytes 4 ++ bytesAll items := by
  rw [Item.arrayOf, Item.bytes, opening, closing, List.append_nil]

@[simp] theorem Item.bytes_mapOf (pairs : List (Item × Item)) :
    (Item.mapOf pairs).bytes = (Head.short pairs.length).bytes 5 ++ bytesAll (flattened pairs) := by
  rw [Item.mapOf, Item.bytes, opening, closing, List.append_nil]

@[simp] theorem Item.bytes_tagged (tag : Nat) (item : Item) :
    (Item.tagged tag item).bytes = (Head.short tag).bytes 6 ++ item.bytes := by
  rw [Item.tagged, Item.bytes]

@[simp] theorem bytesAll_append (front back : List Item) : bytesAll (front ++ back) = bytesAll front ++ bytesAll back := by
  induction front with
  | nil => rfl
  | cons item later ih => rw [List.cons_append, bytesAll, bytesAll, ih, List.append_assoc]

@[simp] theorem flattened_append (front back : List (Item × Item)) :
    flattened (front ++ back) = flattened front ++ flattened back := List.flatMap_append

/-! ### What is written is well formed -/

theorem WellFormed.uint (value : Nat) : WellFormed (.uint value) := .unsigned _

theorem WellFormed.ofBool (mark : Bool) : WellFormed (.ofBool mark) := by
  refine .simple fun one => ?_
  cases mark <;> cases one

theorem WellFormed.byteString {content : Bytes} (fits : content.length < 256 ^ 8) : WellFormed (.byteString content fits) :=
  .string _ _

theorem WellFormed.tagged {item : Item} (tag : Nat) (formed : WellFormed item) : WellFormed
    (.tagged tag item) := .tag formed

theorem WellFormed.arrayOf {items : List Item} (fits : items.length < 256 ^ 8) (each : ∀ item ∈ items, WellFormed item) :
    WellFormed (.arrayOf items) := by
  refine .array ?_ each
  rintro _ ⟨rfl⟩
  exact (Head.short_value fits).symm

theorem WellFormed.mapOf {pairs : List (Item × Item)} (fits : pairs.length < 256 ^ 8)
    (each : ∀ entry ∈ pairs, WellFormed entry.1 ∧ WellFormed entry.2) : WellFormed (.mapOf pairs) := by
  have length := length_flattened pairs
  refine .map ?_ (by omega) ?_
  · rintro _ ⟨rfl⟩
    rw [length, Head.short_value fits]
  · intro item among
    obtain ⟨entry, there, one⟩ := List.mem_flatMap.mp among
    simp only [List.mem_cons, List.not_mem_nil, or_false] at one
    obtain rfl | rfl := one
    · exact (each entry there).1
    · exact (each entry there).2

theorem WellFormed.numberedMap {pairs : List (Nat × Item)} (fits : pairs.length < 256 ^ 8)
    (each : ∀ entry ∈ pairs, WellFormed entry.2) : WellFormed (.numberedMap pairs) := by
  refine .mapOf (by rwa [numbered, List.length_map]) fun entry among => ?_
  obtain ⟨entry, there, rfl⟩ := List.mem_map.mp among
  exact ⟨.uint _, each entry there⟩

/-! ### Entries under numbers -/

section
variable {pairs : List (Nat × Item)} (fits : ∀ entry ∈ pairs, entry.1 < 256 ^ 8)
include fits

theorem keys_numbered : keys (flattened (numbered pairs)) = pairs.map fun entry => some entry.1 := by
  rw [keys, entries_flattened, numbered, List.map_map]
  exact List.map_congr_left fun entry among => Item.number?_uint (fits entry among)

/-- No number is there twice. -/
theorem numbered_of_nodup (limit : Nat) (once : (pairs.map (·.1)).Nodup) : Numbered limit (flattened (numbered pairs)) where
  numbers key among := by
    rw [keys_numbered fits] at among
    obtain ⟨entry, _, rfl⟩ := List.mem_map.mp among
    rfl
  once := by
    have numbers : (pairs.map fun entry => some entry.1).filterMap id = pairs.map (·.1) := by
      induction pairs with
      | nil => rfl
      | cons entry later ih => simp [ih (fun entry among => fits entry (List.mem_cons_of_mem _ among))
        (List.nodup_cons.mp once).2]
    rw [numbersBelow, keys_numbered fits, numbers]
    exact once.filter _

theorem entry_numbered {number : Nat} {value : Item} :
    Entry (flattened (numbered pairs)) number value ↔ (number, value) ∈ pairs := by
  rw [Entry, entries_flattened, numbered]
  constructor
  · rintro ⟨_, among, same, rfl⟩
    obtain ⟨entry, there, rfl⟩ := List.mem_map.mp among
    rw [Item.number?_uint (fits entry there)] at same
    rw [← Option.some.inj same]
    exact there
  · intro there
    exact ⟨_, List.mem_map.mpr ⟨_, there, rfl⟩, Item.number?_uint (fits _ there), rfl⟩

end

end PiJade.Cbor
