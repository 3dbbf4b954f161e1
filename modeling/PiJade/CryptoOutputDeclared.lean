import PiJade.CborEntries
import PiJade.CryptoOutput

/-!
What an output descriptor in CBOR declares: its script, and for each of its keys the public key, the
chain code, the network, the origin, the parent's fingerprint and the pair of child paths, and the text
these come to. None of this depends on the order in which the entries of any map are written.
-/
namespace PiJade.CryptoOutput
open Cbor Text
open SettingsCodec (ascii)
open DescriptorText (BIP32_MAX_CHILD_INDEX MAX_ALLOWED_SIGNERS)
open Wallet (Path MAX_PATH_LEN EC_PUBLIC_KEY_LEN harden unharden ishardened)
set_option linter.unusedSimpArgs false

/-! ### Declarations -/

def uint32? (item : Item) : Option Nat := item.number?.filter (· ≤ UINT32_MAX)

/-- The item behind a tag that is one of the two, or the item as it is. -/
def behind (a b : Nat) : Item → Item
  | .tag head item => if head.value = a ∨ head.value = b then item else .tag head item
  | item => item

/-- Keys that are read are below this number. -/
def KEY_LIMIT : Nat := 64

/-- A map of numbered entries, none of those that are read being there twice, of which that holds. -/
def MapOf (holds : List Item → Prop) (item : Item) : Prop :=
  ∃ head items, item = .map head items ∧ Numbered KEY_LIMIT items ∧ holds items

/-- Under a number stands what is asked for. -/
def Declared (number : Nat) (asked : Item → Prop) (items : List Item) : Prop :=
  ∃ value, Entry items number value ∧ asked value

/-- Under a number stands what is asked for, or nothing stands there and that is enough. -/
def Optional (number : Nat) (asked : Item → Prop) (absent : Prop) (items : List Item) : Prop :=
  Declared number asked items ∨ (∀ value, ¬ Entry items number value) ∧ absent

def stepOf (index : Nat) (hardened : Bool) : UInt32 :=
  if hardened then harden (UInt32.ofNat index) else UInt32.ofNat index

/-- The path of numbers and marks in turn. -/
def pathOf : List Item → Option Path
  | [] => some []
  | index :: mark :: later => do
    let number ← uint32? index
    if BIP32_MAX_CHILD_INDEX < number then none
    else
      let hardened ← mark.boolean?
      let path ← pathOf later
      some (stepOf number hardened :: path)
  | _ => none

/-- What is declared of a key. -/
structure HdKey where
  pub_key : Bytes
  chain_code : Bytes
  testnet : Bool
  path : Path
  fingerprint : Nat
  depth : Nat
  parent_fingerprint : Nat
  pair : Nat × Nat
  deriving DecidableEq, Repr

/-- A byte string of that size. -/
def IsBytes (size : Nat) (bytes : Bytes) (item : Item) : Prop := item.content? false = some bytes ∧ bytes.length = size

/-- The coin is Bitcoin, and the network is that. -/
def IsUseInfo (testnet : Bool) (item : Item) : Prop :=
  MapOf (fun items => Optional 1 (uint32? · = some 0) True items ∧
    Optional 2 (uint32? · = some testnet.toNat) (testnet = false) items) (behind UR_TAG_USEINFO UR_TAG_USEINFO_NEW item)

def IsPath (path : Path) (item : Item) : Prop :=
  ∃ head items, item = .array head items ∧ pathOf items = some path ∧ path.length ≤ MAX_PATH_LEN

/-- The path from the master key with that fingerprint, and the depth that is declared or that of the path. -/
def IsOrigin (path : Path) (fingerprint depth : Nat) (item : Item) : Prop :=
  MapOf (fun items => Declared 1 (IsPath path) items ∧ Declared 2 (uint32? · = some fingerprint) items ∧
    Optional 3 (fun value => uint32? value = some depth ∧ depth ≤ 255) (depth = path.length) items)
    (behind UR_TAG_KEYPATH UR_TAG_KEYPATH_NEW item)

/-- Two child numbers that are not hardened, behind each of which a wildcard stands. -/
def IsPair (pair : Nat × Nat) (item : Item) : Prop :=
  ∃ head written first mark second mark' counted wildcard, item = .array head
      [.array (some written) [first, mark, second, mark'], .array (some counted) [], wildcard] ∧
    uint32? first = some pair.1 ∧ mark.boolean? = some false ∧ uint32? second = some pair.2 ∧
    mark'.boolean? = some false ∧ wildcard.boolean? = some false ∧
    pair.1 ≤ BIP32_MAX_CHILD_INDEX ∧ pair.2 ≤ BIP32_MAX_CHILD_INDEX

def IsChildren (pair : Nat × Nat) (item : Item) : Prop :=
  MapOf (Declared 1 (IsPair pair)) (behind UR_TAG_KEYPATH UR_TAG_KEYPATH_NEW item)

/-- The entries of a key. It is public, and without children it has `<0;1>`. -/
structure KeyEntries (key : HdKey) (items : List Item) : Prop where
  is_public : Optional 2 (Item.boolean? · = some false) True items
  pub_key : Declared 3 (IsBytes EC_PUBLIC_KEY_LEN key.pub_key) items
  chain_code : Declared 4 (IsBytes WALLY_BIP32_CHAIN_CODE_LEN key.chain_code) items
  use_info : Optional 5 (IsUseInfo key.testnet) (key.testnet = false) items
  origin : Declared 6 (IsOrigin key.path key.fingerprint key.depth) items
  children : Optional 7 (IsChildren key.pair) (key.pair = (0, 1)) items
  parent : Optional 8 (uint32? · = some key.parent_fingerprint) (key.parent_fingerprint = 0) items

def IsKey (key : HdKey) (item : Item) : Prop := MapOf (KeyEntries key) (behind UR_TAG_HDKEY UR_TAG_HDKEY_NEW item)

/-- A script: so many signatures of its keys, or of a single key. -/
inductive Script where
  | wsh (sorted : Bool) (threshold : Nat) (keys : List HdKey)
  | single (witness : Bool) (key : HdKey)
  deriving DecidableEq, Repr

/-- The keys of an array whose length is written before it. -/
def AreKeys (keys : List HdKey) (item : Item) : Prop :=
  ∃ head items, item = .array (some head) items ∧ List.Forall₂ IsKey keys items

/-- So many signatures of the keys. -/
def IsMulti (sorted : Bool) (threshold : Nat) (keys : List HdKey) (item : Item) : Prop :=
  ∃ multi inner, item = .tag multi inner ∧ (multi.value = if sorted then UR_TAG_SORTEDMULTI else UR_TAG_MULTI) ∧
    (1 ≤ threshold ∧ threshold ≤ keys.length ∧ keys.length ≤ MAX_ALLOWED_SIGNERS) ∧
    MapOf (fun items => Declared 1 (uint32? · = some threshold) items ∧ Declared 2 (AreKeys keys) items) inner

/-- The script behind the tags. -/
inductive IsScript : Script → Item → Prop
  | wsh {sorted : Bool} {threshold : Nat} {keys : List HdKey} {head : Head} {item : Item} (tag : head.value = UR_TAG_WSH)
      (multi : IsMulti sorted threshold keys item) : IsScript (.wsh sorted threshold keys) (.tag head item)
  | single {witness : Bool} {key : HdKey} {head : Head} {item : Item}
      (tag : head.value = if witness then UR_TAG_WPKH else UR_TAG_PKH) (only : IsKey key item) :
      IsScript (.single witness key) (.tag head item)

structure Output where
  sh : Bool
  script : Script
  deriving DecidableEq, Repr

/-- Behind the outermost tag, which may be left out, and the tag of a script hash. -/
def IsOutput (output : Output) (root : Item) : Prop :=
  if output.sh then
    ∃ head item, behind UR_TAG_OUTPUT UR_TAG_OUTPUT_NEW root = .tag head item ∧ head.value = UR_TAG_SH ∧
      IsScript output.script item
  else IsScript output.script (behind UR_TAG_OUTPUT UR_TAG_OUTPUT_NEW root)

/-! ### Texts -/

def versionOf (testnet : Bool) : UInt32 := if testnet then BIP32_VER_TEST_PUBLIC else BIP32_VER_MAIN_PUBLIC

/-- What the key is made from. The child number is the last of the path, unless it is a master key. -/
def HdKey.parts (key : HdKey) : KeyParts where
  version := versionOf key.testnet
  depth := key.depth
  child_num := if key.depth ≠ 0 then key.path.getLast?.getD 0 else 0
  chain_code := key.chain_code
  pub_key := key.pub_key
  parent160 := uint32_to_be (UInt32.ofNat key.parent_fingerprint)

def stepText (step : UInt32) : Bytes := decimal (unharden step).toNat ++ if ishardened step then ascii "h" else []

/-- How a script of many keys begins. -/
def multiHead (sorted : Bool) (threshold : Nat) : Bytes :=
  ascii (if sorted then "sortedmulti" else "multi") ++ ascii "(" ++ decimal threshold

def pathText (path : Path) : Bytes := (ascii "/").intercalate (path.map stepText)

section
variable {K : Type} (libwally : HdKeys K)

def HdKey.text (key : HdKey) : Option Bytes := do
  let xpub ← xpubText libwally key.parts
  some (keyText key.fingerprint (pathText key.path) xpub (childText key.pair.1 key.pair.2))

/-- Each key behind a comma. -/
def keysText? : List HdKey → Option Bytes
  | [] => some []
  | key :: later => do
    let text ← key.text libwally
    let rest ← keysText? later
    some (ascii "," ++ text ++ rest)

def Script.text : Script → Option Bytes
  | .wsh sorted threshold keys => (keysText? libwally keys).map
    (ascii "wsh(" ++ multiHead sorted threshold ++ · ++ ascii "))")
  | .single witness key => (key.text libwally).map (ascii (if witness then "wpkh(" else "pkh(") ++ · ++ ascii ")")

def Output.text (output : Output) : Option Bytes :=
  (output.script.text libwally).map fun text => if output.sh then ascii "sh(" ++ text ++ ascii ")" else text

end

/-! ### The order of entries -/

/-- Items without entries. -/
def Rigid (item : Item) : Prop := ∀ item', ¬ Swapped item item'

theorem rigid_of_number {item : Item} {number : Nat} (reads : item.number? = some number) : Rigid item := by
  intro item' swapped
  cases swapped <;> cases reads

theorem rigid_of_uint32 {item : Item} {number : Nat} (reads : uint32? item = some number) : Rigid item :=
  rigid_of_number (Option.filter_eq_some_iff.mp reads).1

theorem rigid_of_boolean {item : Item} {mark : Bool} (reads : item.boolean? = some mark) : Rigid item := by
  intro item' swapped
  cases swapped <;> cases reads

theorem rigid_of_content {item : Item} {text : Bool} {bytes : Bytes}
    (reads : item.content? text = some bytes) : Rigid item := by
  intro item' swapped
  cases swapped <;> cases reads

theorem rigid_array {head : Option Head} {items : List Item} (each : ∀ item ∈ items, Rigid item) : Rigid
    (.array head items) := by
  intro item' swapped
  cases swapped with
  | @array _ front back item item' inside => exact each item (by simp) item' inside

theorem unordered_rigid {holds : Item → Prop} (rigid : ∀ item, holds item → Rigid item) : Unordered holds :=
  fun item item' swapped here => absurd swapped (rigid item here item')

theorem rigid_path {items : List Item} {path : Path} (reads : pathOf items = some path) : ∀ item ∈ items, Rigid item := by
  induction items using pathOf.induct generalizing path with
  | case1 => simp
  | case2 index mark later ih =>
    simp only [pathOf, Option.bind_eq_bind, Option.bind_eq_some_iff] at reads
    obtain ⟨number, first, small⟩ := reads
    split at small
    · cases small
    · simp only [Option.bind_eq_some_iff] at small
      obtain ⟨hardened, second, path, rest, _⟩ := small
      simp only [List.mem_cons, forall_eq_or_imp]
      exact ⟨rigid_of_uint32 first, rigid_of_boolean second, ih rest⟩
  | case3 items short other =>
    rw [pathOf] at reads
    · cases reads
    · exact short
    · exact other

/-- What holds of the entries of a map holds however they are ordered. -/
def Stable (holds : List Item → Prop) : Prop :=
  ∀ items items', Rearranged items items' → Rearranged items' items → holds items → holds items'

theorem stable_declared {number : Nat} {asked : Item → Prop} (unordered : Unordered asked) : Stable
    (Declared number asked) := by
  rintro items items' rearranged _ ⟨value, there, said⟩
  obtain ⟨value', same, there'⟩ := rearranged.entry there
  refine ⟨value', there', ?_⟩
  obtain rfl | swapped := same
  · exact said
  · exact unordered _ _ swapped said

theorem stable_optional {number : Nat} {asked : Item → Prop} {absent : Prop} (unordered : Unordered asked) :
    Stable (Optional number asked absent) := by
  rintro _ _ rearranged back (declared | ⟨nothing, anyway⟩)
  · exact .inl (stable_declared unordered _ _ rearranged back declared)
  · refine .inr ⟨fun value there => ?_, anyway⟩
    obtain ⟨value', _, there'⟩ := back.entry there
    exact nothing value' there'

theorem Stable.and {holds also : List Item → Prop} (one : Stable holds) (two : Stable also) :
    Stable fun items => holds items ∧ also items :=
  fun _ _ rearranged back both => ⟨one _ _ rearranged back both.1, two _ _ rearranged back both.2⟩

theorem unordered_map {holds : List Item → Prop} (stable : Stable holds) : Unordered (MapOf holds) := by
  rintro item item' swapped ⟨head, items, rfl, numbered, here⟩
  obtain ⟨items', rfl, rearranged⟩ := swapped.rearranged
  obtain ⟨again, same, back⟩ := swapped.symm.rearranged
  obtain ⟨_, rfl⟩ := Item.map.inj same
  exact ⟨head, items', rfl, rearranged.numbered numbered, stable _ _ rearranged back here⟩

theorem unordered_behind {holds : Item → Prop} (unordered : Unordered holds) (a b : Nat) :
    Unordered fun item => holds (behind a b item) := by
  intro item item' swapped here
  cases swapped with
  | tag inside =>
    rw [behind] at here ⊢
    split
    · rw [if_pos ‹_›] at here
      exact unordered _ _ inside here
    · rw [if_neg ‹_›] at here
      exact unordered _ _ (.tag inside) here
  | entries even => exact unordered _ _ (.entries even) here
  | map inside => exact unordered _ _ (.map inside) here
  | array inside => exact unordered _ _ (.array inside) here

theorem unordered_uint32 (number : Nat) : Unordered (uint32? · = some number) :=
  unordered_rigid fun _ => rigid_of_uint32

theorem unordered_use_info (testnet : Bool) : Unordered (IsUseInfo testnet) :=
  unordered_behind (unordered_map (.and (stable_optional (unordered_uint32 _)) (stable_optional (unordered_uint32 _)))) _ _

theorem unordered_path (path : Path) : Unordered (IsPath path) := by
  refine unordered_rigid ?_
  rintro item ⟨head, items, rfl, reads, _⟩
  exact rigid_array (rigid_path reads)

theorem unordered_origin (path : Path) (fingerprint depth : Nat) : Unordered (IsOrigin path fingerprint depth) := by
  refine unordered_behind (unordered_map ?_) _ _
  refine .and (stable_declared (unordered_path path)) (.and (stable_declared (unordered_uint32 _)) (stable_optional ?_))
  exact unordered_rigid fun _ reads => rigid_of_uint32 reads.1

theorem unordered_pair (pair : Nat × Nat) : Unordered (IsPair pair) := by
  refine unordered_rigid ?_
  rintro item ⟨head, written, first, mark, second, mark', counted, wildcard, rfl, a, ha, b, hb, wild, _⟩
  refine rigid_array ?_
  simp only [List.mem_cons, List.not_mem_nil, or_false, forall_eq_or_imp, forall_eq]
  refine ⟨rigid_array ?_, rigid_array (by simp), rigid_of_boolean wild⟩
  simp only [List.mem_cons, List.not_mem_nil, or_false, forall_eq_or_imp, forall_eq]
  exact ⟨rigid_of_uint32 a, rigid_of_boolean ha, rigid_of_uint32 b, rigid_of_boolean hb⟩

theorem unordered_children (pair : Nat × Nat) : Unordered (IsChildren pair) :=
  unordered_behind (unordered_map (stable_declared (unordered_pair pair))) _ _

theorem stable_key (key : HdKey) : Stable (KeyEntries key) := by
  intro _ _ rearranged back entries
  exact {
    is_public := stable_optional (unordered_rigid fun _ => rigid_of_boolean) _ _ rearranged back entries.is_public
    pub_key := stable_declared (unordered_rigid fun _ reads => rigid_of_content reads.1) _ _ rearranged back entries.pub_key
    chain_code := stable_declared (unordered_rigid fun _ reads => rigid_of_content reads.1) _ _ rearranged back entries.chain_code
    use_info := stable_optional (unordered_use_info _) _ _ rearranged back entries.use_info
    origin := stable_declared (unordered_origin _ _ _) _ _ rearranged back entries.origin
    children := stable_optional (unordered_children _) _ _ rearranged back entries.children
    parent := stable_optional (unordered_uint32 _) _ _ rearranged back entries.parent }

theorem unordered_key (key : HdKey) : Unordered (IsKey key) := unordered_behind (unordered_map (stable_key key)) _ _

theorem unordered_keys (keys : List HdKey) : Unordered (AreKeys keys) := by
  rintro item item' swapped ⟨head, items, rfl, each⟩
  cases swapped with
  | @array _ front back item item' inside =>
    refine ⟨head, _, rfl, ?_⟩
    clear * - each inside
    induction front generalizing keys with
    | nil =>
      cases each with
      | cons first later => exact .cons (unordered_key _ _ _ inside first) later
    | cons other front ih =>
      cases each with
      | cons first later => exact .cons first (ih _ later)

theorem unordered_multi (sorted : Bool) (threshold : Nat) (keys : List HdKey) : Unordered
    (IsMulti sorted threshold keys) := by
  rintro item item' swapped ⟨multi, inner, rfl, kind, some_of, map⟩
  cases swapped with
  | @tag _ _ inner' inside =>
    refine ⟨multi, inner', rfl, kind, some_of, unordered_map (.and ?_ ?_) _ _ inside map⟩
    · exact stable_declared (unordered_uint32 threshold)
    · exact stable_declared (unordered_keys keys)

theorem unordered_script (script : Script) : Unordered (IsScript script) := by
  intro item item' swapped here
  cases here with
  | wsh tag multi =>
    cases swapped with
    | tag inside => exact .wsh tag (unordered_multi _ _ _ _ _ inside multi)
  | single tag only =>
    cases swapped with
    | tag inside => exact .single tag (unordered_key _ _ _ inside only)

/-- What an output declares does not depend on the order of entries. -/
theorem unordered_output (output : Output) : Unordered (IsOutput output) := by
  refine @unordered_behind (fun item => if output.sh then
    ∃ head inner, item = .tag head inner ∧ head.value = UR_TAG_SH ∧ IsScript output.script inner
    else IsScript output.script item) ?_ UR_TAG_OUTPUT UR_TAG_OUTPUT_NEW
  intro item item' swapped here
  split at here
  · obtain ⟨head, inner, rfl, tag, script⟩ := here
    cases swapped with
    | @tag _ _ inner' inside =>
      rw [if_pos ‹_›]
      exact ⟨head, inner', rfl, tag, unordered_script _ _ _ inside script⟩
  · rw [if_neg ‹_›]
    exact unordered_script _ _ _ swapped here

/-! ### One output -/

section
variable {items : List Item} {wanted : Nat} {asked also : Item → Prop}

theorem Declared.both (numbered : Numbered KEY_LIMIT items) (low : wanted < KEY_LIMIT) (one : Declared wanted asked items)
    (two : Declared wanted also items) : ∃ value, asked value ∧ also value := by
  obtain ⟨value, there, said⟩ := one
  obtain ⟨value', there', said'⟩ := two
  rw [numbered.unique low there' there] at said'
  exact ⟨value, said, said'⟩

theorem Optional.both {absent other : Prop} (numbered : Numbered KEY_LIMIT items) (low : wanted < KEY_LIMIT)
    (one : Optional wanted asked absent items) (two : Optional wanted also other items) :
    (∃ value, asked value ∧ also value) ∨ absent ∧ other := by
  obtain declared | ⟨nothing, anyway⟩ := one
  · obtain declared' | ⟨nothing, _⟩ := two
    · exact .inl (declared.both numbered low declared')
    · obtain ⟨value, there, _⟩ := declared
      exact absurd there (nothing value)
  · obtain ⟨value, there, _⟩ | ⟨_, anyway'⟩ := two
    · exact absurd there (nothing value)
    · exact .inr ⟨anyway, anyway'⟩

theorem MapOf.both {holds more : List Item → Prop} {item : Item} (one : MapOf holds item) (two : MapOf more item) :
    ∃ items, Numbered KEY_LIMIT items ∧ holds items ∧ more items := by
  obtain ⟨head, items, rfl, numbered, here⟩ := one
  obtain ⟨_, _, same, _, there⟩ := two
  obtain ⟨_, rfl⟩ := Item.map.inj same
  exact ⟨items, numbered, here, there⟩

end

theorem uint32_unique {a b : Nat} {item : Item} (one : uint32? item = some a) (two : uint32? item = some b) : a = b :=
  Option.some.inj (one.symm.trans two)

theorem use_info_unique {a b : Bool} {item : Item} (one : IsUseInfo a item) (two : IsUseInfo b item) : a = b := by
  obtain ⟨items, numbered, ⟨_, here⟩, _, there⟩ := MapOf.both one two
  obtain ⟨value, reads, reads'⟩ | ⟨rfl, rfl⟩ := here.both numbered (by decide) there
  · have same := uint32_unique reads reads'
    cases a <;> cases b <;> first | rfl | cases same
  · rfl

theorem path_unique {a b : Path} {item : Item} (one : IsPath a item) (two : IsPath b item) : a = b := by
  obtain ⟨head, items, rfl, reads, _⟩ := one
  obtain ⟨_, _, same, reads', _⟩ := two
  obtain ⟨_, rfl⟩ := Item.array.inj same
  exact Option.some.inj (reads.symm.trans reads')

theorem origin_unique {path path' : Path} {fingerprint fingerprint' depth depth' : Nat} {item : Item}
    (one : IsOrigin path fingerprint depth item) (two : IsOrigin path' fingerprint' depth' item) :
    path = path' ∧ fingerprint = fingerprint' ∧ depth = depth' := by
  obtain ⟨items, numbered, ⟨is_path, given, deep⟩, is_path', given', deep'⟩ := MapOf.both one two
  obtain ⟨value, one, two⟩ := is_path.both numbered (by decide) is_path'
  obtain rfl := path_unique one two
  obtain ⟨value, one, two⟩ := given.both numbered (by decide) given'
  obtain rfl := uint32_unique one two
  obtain ⟨value, one, two⟩ | ⟨one, two⟩ := deep.both numbered (by decide) deep'
  · exact ⟨rfl, rfl, uint32_unique one.1 two.1⟩
  · exact ⟨rfl, rfl, one.trans two.symm⟩

theorem pair_unique {a b : Nat × Nat} {item : Item} (one : IsPair a item) (two : IsPair b item) : a = b := by
  obtain ⟨_, _, _, _, _, _, _, _, rfl, first, _, second, _⟩ := one
  obtain ⟨_, _, _, _, _, _, _, _, same, first', _, second', _⟩ := two
  simp only [Item.array.injEq, List.cons.injEq] at same
  obtain ⟨_, ⟨_, rfl, _, rfl, _⟩, _⟩ := same
  exact Prod.ext (uint32_unique first first') (uint32_unique second second')

theorem key_unique {a b : HdKey} {item : Item} (one : IsKey a item) (two : IsKey b item) : a = b := by
  obtain ⟨items, numbered, here, there⟩ := MapOf.both one two
  obtain ⟨pub_key, chain_code, testnet, path, fingerprint, depth, parent_fingerprint, pair⟩ := a
  obtain ⟨pub_key', chain_code', testnet', path', fingerprint', depth', parent_fingerprint', pair'⟩ := b
  obtain ⟨_, pub, pub'⟩ := here.pub_key.both numbered (by decide) there.pub_key
  obtain rfl : pub_key = pub_key' := Option.some.inj (pub.1.symm.trans pub'.1)
  obtain ⟨_, chain, chain'⟩ := here.chain_code.both numbered (by decide) there.chain_code
  obtain rfl : chain_code = chain_code' := Option.some.inj (chain.1.symm.trans chain'.1)
  obtain rfl : testnet = testnet' := by
    obtain ⟨_, info, info'⟩ | ⟨none_of, no_one⟩ := here.use_info.both numbered (by decide) there.use_info
    · exact use_info_unique info info'
    · exact none_of.trans no_one.symm
  obtain ⟨_, origin, origin'⟩ := here.origin.both numbered (by decide) there.origin
  obtain ⟨rfl, rfl, rfl⟩ : path = path' ∧ fingerprint = fingerprint' ∧ depth = depth' := origin_unique origin origin'
  obtain rfl : pair = pair' := by
    obtain ⟨_, children, children'⟩ | ⟨none_of, no_one⟩ := here.children.both numbered (by decide) there.children
    · obtain ⟨_, numbered, components, components'⟩ := MapOf.both children children'
      obtain ⟨_, is_pair, is_pair'⟩ := components.both numbered (by decide) components'
      exact pair_unique is_pair is_pair'
    · exact none_of.trans no_one.symm
  obtain rfl : parent_fingerprint = parent_fingerprint' := by
    obtain ⟨_, parent, parent'⟩ | ⟨none_of, no_one⟩ := here.parent.both numbered (by decide) there.parent
    · exact uint32_unique parent parent'
    · exact none_of.trans no_one.symm
  rfl

theorem keys_unique {a b : List HdKey} {item : Item} (one : AreKeys a item) (two : AreKeys b item) : a = b := by
  obtain ⟨head, items, rfl, each⟩ := one
  obtain ⟨_, _, same, each'⟩ := two
  obtain ⟨_, rfl⟩ := Item.array.inj same
  clear same
  induction each generalizing b with
  | nil =>
    cases each'
    rfl
  | cons first _ ih =>
    cases each' with
    | cons first' later' => rw [key_unique first first', ih later']

theorem script_unique {a b : Script} {item : Item} (one : IsScript a item) (two : IsScript b item) : a = b := by
  cases one with
  | @wsh sorted threshold keys head inner tag multi =>
    cases two with
    | @wsh sorted' threshold' keys' _ _ _ multi' =>
      obtain ⟨_, _, rfl, kind, _, map⟩ := multi
      obtain ⟨_, _, same, kind', _, map'⟩ := multi'
      obtain ⟨rfl, rfl⟩ := Item.tag.inj same
      obtain rfl : sorted = sorted' := by
        rw [kind] at kind'
        cases sorted <;> cases sorted' <;> first | rfl | cases kind'
      obtain ⟨items, numbered, ⟨number, are_keys⟩, number', are_keys'⟩ := MapOf.both map map'
      obtain ⟨_, reads, reads'⟩ := number.both numbered (by decide) number'
      obtain rfl := uint32_unique reads reads'
      obtain ⟨_, listed, listed'⟩ := are_keys.both numbered (by decide) are_keys'
      rw [keys_unique listed listed']
    | @single witness _ _ _ tag' _ =>
      rw [tag] at tag'
      cases witness <;> cases tag'
  | @single witness key head inner tag only =>
    cases two with
    | wsh tag' _ =>
      rw [tag'] at tag
      cases witness <;> cases tag
    | @single witness' key' _ _ tag' only' =>
      obtain rfl : witness = witness' := by
        rw [tag] at tag'
        cases witness <;> cases witness' <;> first | rfl | cases tag'
      rw [key_unique only only']

theorem isScript_not_sh {script : Script} {head : Head} {item : Item} (sh : head.value = UR_TAG_SH) :
    ¬ IsScript script (.tag head item) := by
  intro is_script
  cases is_script with
  | wsh tag _ =>
    rw [sh] at tag
    cases tag
  | @single witness _ _ _ tag _ =>
    rw [sh] at tag
    cases witness <;> cases tag

/-- An item declares one output at most. -/
theorem output_unique {a b : Output} {root : Item} (one : IsOutput a root) (two : IsOutput b root) : a = b := by
  obtain ⟨sh, script⟩ := a
  obtain ⟨sh', script'⟩ := b
  rw [IsOutput] at one two
  cases sh with
  | true =>
    obtain ⟨head, inner, body, tag, is_script⟩ := one
    rw [body] at two
    cases sh' with
    | true =>
      obtain ⟨_, _, same, _, is_script'⟩ := two
      obtain ⟨rfl, rfl⟩ := Item.tag.inj same
      exact congrArg (Output.mk true) (script_unique is_script is_script')
    | false => exact absurd two (isScript_not_sh tag)
  | false =>
    cases sh' with
    | true =>
      obtain ⟨head, inner, body, tag, _⟩ := two
      rw [body] at one
      exact absurd one (isScript_not_sh tag)
    | false => exact congrArg (Output.mk false) (script_unique one two)

end PiJade.CryptoOutput
