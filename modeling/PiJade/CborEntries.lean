import Mathlib.Logic.Relation
import PiJade.Cbor

/-!
Maps whose keys are numbers. A map declares under a number what stands behind that key, and as long as
no key is there twice it does not matter in which order its entries are. Items that differ only in the
order of entries, in whatever maps they have inside, are the same but for the place of what they hold.
-/
namespace PiJade.Cbor
set_option linter.unusedSimpArgs false

/-! ### Entries -/

/-- The keys of a map, each with its value. -/
def entries : List Item → List (Item × Item)
  | key :: value :: later => (key, value) :: entries later
  | _ => []

def Item.number? : Item → Option Nat
  | .unsigned head => some head.value
  | _ => none

def Item.boolean? : Item → Option Bool
  | .simple head =>
    if head.form ≠ .inside then none
    else if head.value = 20 then some false
    else if head.value = 21 then some true
    else none
  | _ => none

/-- The map has that value under that number. -/
def Entry (items : List Item) (number : Nat) (value : Item) : Prop :=
  ∃ entry ∈ entries items, entry.1.number? = some number ∧ entry.2 = value

def keys (items : List Item) : List (Option Nat) := (entries items).map (·.1.number?)

/-- The keys that are numbers below a limit. -/
def numbersBelow (limit : Nat) (items : List Item) : List Nat := ((keys items).filterMap id).filter (· < limit)

/-- All keys are numbers, and none below the limit is there twice. -/
structure Numbered (limit : Nat) (items : List Item) : Prop where
  numbers : ∀ key ∈ keys items, key.isSome
  once : (numbersBelow limit items).Nodup

theorem Item.bytes_pos (item : Item) : 0 < item.bytes.length := by
  obtain ⟨first, rest, bytes, _⟩ := item.bytes_cons
  rw [bytes]
  exact Nat.succ_pos _

theorem Entry.cons {key value first : Item} {later : List Item} {number : Nat} :
    Entry (key :: value :: later) number first ↔ key.number? = some number ∧ value = first ∨ Entry later number first := by
  simp only [Entry, entries, List.mem_cons, exists_eq_or_imp]

theorem Entry.nil {number : Nat} {value : Item} : ¬ Entry [] number value := by simp [Entry, entries]

/-- What stands under a number, and that it stands in the list. -/
theorem Entry.mem {items : List Item} {number : Nat} {value : Item} (there : Entry items number value) : value ∈ items := by
  induction items using entries.induct with
  | case1 key first later ih =>
    obtain ⟨_, rfl⟩ | behind := Entry.cons.mp there
    · simp
    · simp [ih behind]
  | case2 items short =>
    obtain ⟨entry, among, _⟩ := there
    rw [entries] at among
    · cases among
    · exact short

theorem mem_numbersBelow {limit number : Nat} {items : List Item} :
    number ∈ numbersBelow limit items ↔ number < limit ∧ ∃ value, Entry items number value := by
  simp only [numbersBelow, keys, List.mem_filter, List.mem_filterMap, List.mem_map, decide_eq_true_eq, Entry, id]
  constructor
  · rintro ⟨⟨key, ⟨entry, among, rfl⟩, same⟩, small⟩
    exact ⟨small, entry.2, entry, among, same, rfl⟩
  · rintro ⟨small, value, entry, among, same, _⟩
    exact ⟨⟨_, ⟨entry, among, rfl⟩, same⟩, small⟩

theorem Numbered.cons {limit : Nat} {key value : Item} {later : List Item} :
    Numbered limit (key :: value :: later) ↔
      ∃ number, key.number? = some number ∧ Numbered limit later ∧
        (number < limit → ∀ value, ¬ Entry later number value) := by
  have keys_eq : keys (key :: value :: later) = key.number? :: keys later := rfl
  have below {number : Nat} (same : key.number? = some number) :
      numbersBelow limit (key :: value :: later) =
        if number < limit then number :: numbersBelow limit later else numbersBelow limit later := by
    rw [numbersBelow, keys_eq, same, @List.filterMap_cons_some _ _ id _ _ _ rfl, List.filter_cons]
    simp [numbersBelow]
  constructor
  · rintro ⟨numbers, once⟩
    rw [keys_eq] at numbers
    obtain ⟨number, same⟩ := Option.isSome_iff_exists.mp (numbers _ List.mem_cons_self)
    rw [below same] at once
    refine ⟨number, same, ⟨fun entry among => numbers entry (List.mem_cons_of_mem _ among), ?_⟩, fun small value there => ?_⟩
    · split at once
      · exact (List.nodup_cons.mp once).2
      · exact once
    · rw [if_pos small] at once
      exact (List.nodup_cons.mp once).1 (mem_numbersBelow.mpr ⟨small, value, there⟩)
  · rintro ⟨number, same, ⟨numbers, once⟩, fresh⟩
    refine ⟨fun entry among => ?_, ?_⟩
    · rw [keys_eq, same, List.mem_cons] at among
      obtain rfl | behind := among
      · rfl
      · exact numbers entry behind
    · rw [below same]
      split
      · rename_i small
        refine List.nodup_cons.mpr ⟨fun again => ?_, once⟩
        obtain ⟨_, value, there⟩ := mem_numbersBelow.mp again
        exact fresh small value there
      · exact once

/-- Under a number there is one value. -/
theorem Numbered.unique {limit number : Nat} {items : List Item} (numbered : Numbered limit items) (small : number < limit)
    {value other : Item} (there : Entry items number value) (again : Entry items number other) : value = other := by
  induction items using entries.induct with
  | case1 key first later ih =>
    obtain ⟨own, same, numbered, fresh⟩ := Numbered.cons.mp numbered
    obtain ⟨key_eq, rfl⟩ | behind := Entry.cons.mp there
    · obtain rfl : own = number := by simpa [same] using key_eq
      obtain ⟨_, rfl⟩ | behind := Entry.cons.mp again
      · rfl
      · exact absurd behind (fresh small _)
    · obtain ⟨key_eq, rfl⟩ | behind_again := Entry.cons.mp again
      · obtain rfl : own = number := by simpa [same] using key_eq
        exact absurd behind (fresh small _)
      · exact ih numbered behind behind_again
  | case2 items short =>
    obtain ⟨entry, among, _⟩ := there
    rw [entries] at among
    · cases among
    · exact short

/-! ### Order -/

/-- Two entries of one map stand in the other order, wherever the map is. -/
inductive Swapped : Item → Item → Prop
  | entries {head : Option Head} {front back : List Item} {key value key' value' : Item} (even : front.length % 2 = 0) :
      Swapped (.map head (front ++ key :: value :: key' :: value' :: back))
        (.map head (front ++ key' :: value' :: key :: value :: back))
  | map {head : Option Head} {front back : List Item} {item item' : Item} (inside : Swapped item item') :
      Swapped (.map head (front ++ item :: back)) (.map head (front ++ item' :: back))
  | array {head : Option Head} {front back : List Item} {item item' : Item} (inside : Swapped item item') :
      Swapped (.array head (front ++ item :: back)) (.array head (front ++ item' :: back))
  | tag {head : Head} {item item' : Item} (inside : Swapped item item') : Swapped (.tag head item) (.tag head item')

/-- The same but for the order of entries. -/
def Reordered : Item → Item → Prop := Relation.ReflTransGen Swapped

theorem Swapped.symm {item item' : Item} (swapped : Swapped item item') : Swapped item' item := by
  induction swapped with
  | entries even => exact .entries even
  | map _ ih => exact .map ih
  | array _ ih => exact .array ih
  | tag _ ih => exact .tag ih

theorem Swapped.number {item item' : Item} (swapped : Swapped item item') : item.number? = none ∧ item'.number? = none := by
  cases swapped <;> exact ⟨rfl, rfl⟩

/-- What holds of an item holds however the entries inside are ordered. -/
def Unordered (holds : Item → Prop) : Prop := ∀ item item', Swapped item item' → holds item → holds item'

theorem Unordered.of_reordered {holds : Item → Prop} (unordered : Unordered holds) {item item' : Item}
    (reordered : Reordered item item') (here : holds item) : holds item' := by
  induction reordered with
  | refl => exact here
  | tail _ step ih => exact unordered _ _ step ih

theorem Reordered.symm {item item' : Item} (reordered : Reordered item item') : Reordered item' item :=
  (@Relation.ReflTransGen.stdSymm _ _ ⟨fun _ _ => Swapped.symm⟩).symm _ _ reordered

/-- What a swap does to the entries of a map: the keys are the same in some order, and each value is still there, but for
    the order inside. -/
structure Rearranged (items items' : List Item) : Prop where
  keys : List.Perm (keys items) (keys items')
  entry {number : Nat} {value : Item} : Entry items number value →
    ∃ value', (value' = value ∨ Swapped value value') ∧ Entry items' number value'

theorem Rearranged.numbered {items items' : List Item} (rearranged : Rearranged items items') {limit : Nat}
    (numbered : Numbered limit items) : Numbered limit items' where
  numbers key among := numbered.numbers key (rearranged.keys.mem_iff.mpr among)
  once := (((rearranged.keys.filterMap id).filter _).nodup_iff).mp numbered.once

theorem Rearranged.cons {items items' : List Item} (rearranged : Rearranged items items') (key value : Item) :
    Rearranged (key :: value :: items) (key :: value :: items') where
  keys := rearranged.keys.cons _
  entry there := by
    obtain here | behind := Entry.cons.mp there
    · exact ⟨_, .inl rfl, Entry.cons.mpr (.inl here)⟩
    · obtain ⟨value', same, there'⟩ := rearranged.entry behind
      exact ⟨value', same, Entry.cons.mpr (.inr there')⟩

theorem rearranged_swap (key value key' value' : Item) (back : List Item) :
    Rearranged (key :: value :: key' :: value' :: back) (key' :: value' :: key :: value :: back) where
  keys := List.Perm.swap _ _ _
  entry there := by
    refine ⟨_, .inl rfl, ?_⟩
    simp only [Entry.cons] at there ⊢
    tauto

theorem rearranged_inside {item item' : Item} (inside : Swapped item item') (back : List Item) :
    Rearranged (item :: back) (item' :: back) := by
  have number : item.number? = item'.number? := inside.number.1.trans inside.number.2.symm
  cases back with
  | nil => exact ⟨.refl _, fun there => absurd there (by simp [Entry, entries])⟩
  | cons value later =>
    refine ⟨by simp only [keys, entries, List.map_cons, number]; exact .refl _, fun there => ⟨_, .inl rfl, ?_⟩⟩
    rw [Entry.cons] at there ⊢
    rwa [← number]

theorem rearranged_value {item item' : Item} (inside : Swapped item item') (key : Item) (back : List Item) :
    Rearranged (key :: item :: back) (key :: item' :: back) where
  keys := .refl _
  entry there := by
    obtain ⟨same, rfl⟩ | behind := Entry.cons.mp there
    · exact ⟨item', .inr inside, Entry.cons.mpr (.inl ⟨same, rfl⟩)⟩
    · exact ⟨_, .inl rfl, Entry.cons.mpr (.inr behind)⟩

/-- One swap in a map, of its entries or inside of one, rearranges them. -/
theorem Swapped.rearranged {head : Option Head} {items : List Item} {item' : Item} (swapped : Swapped (.map head items) item') :
    ∃ items', item' = .map head items' ∧ Rearranged items items' := by
  have behind {front items items' : List Item} (even : front.length % 2 = 0) (rearranged : Rearranged items items') :
      Rearranged (front ++ items) (front ++ items') := by
    induction front using entries.induct with
    | case1 key value later ih =>
      rw [List.length_cons, List.length_cons] at even
      exact (ih (by omega)).cons key value
    | case2 front short =>
      cases front with
      | nil => exact rearranged
      | cons key later =>
        cases later with
        | nil => simp at even
        | cons value later => exact absurd rfl (short key value later)
  cases swapped with
  | entries even => exact ⟨_, rfl, behind even (rearranged_swap _ _ _ _ _)⟩
  | @map _ front back item item' inside =>
    refine ⟨_, rfl, ?_⟩
    obtain even | odd := Nat.mod_two_eq_zero_or_one front.length
    · exact behind even (rearranged_inside inside back)
    · obtain ⟨early, key, rfl⟩ : ∃ early key, front = early ++ [key] := by
        rcases List.eq_nil_or_concat front with rfl | ⟨early, key, rfl⟩
        · simp at odd
        · exact ⟨early, key, by simp⟩
      rw [List.length_append, List.length_singleton] at odd
      rw [List.append_assoc, List.append_assoc]
      exact behind (by omega) (rearranged_value inside key back)

/-- Any order of the entries comes from swaps. -/
theorem reordered_of_perm {head : Option Head} {pairs pairs' : List (Item × Item)} (perm : List.Perm pairs pairs') :
    Reordered (.map head (pairs.flatMap fun entry => [entry.1, entry.2]))
      (.map head (pairs'.flatMap fun entry => [entry.1, entry.2])) := by
  have behind : ∀ front : List (Item × Item), Reordered
      (.map head ((front ++ pairs).flatMap fun entry => [entry.1, entry.2]))
      (.map head ((front ++ pairs').flatMap fun entry => [entry.1, entry.2])) := by
    induction perm with
    | nil => exact fun front => .refl
    | cons entry _ ih =>
      intro front
      have later := ih (front ++ [entry])
      rwa [List.append_assoc, List.append_assoc] at later
    | swap first second later =>
      intro front
      refine .single ?_
      rw [List.flatMap_append, List.flatMap_append]
      refine .entries ?_
      rw [List.length_flatMap]
      simp [Nat.mul_mod_left]
    | trans _ _ one two => exact fun front => (one front).trans (two front)
  exact behind []

end PiJade.Cbor
