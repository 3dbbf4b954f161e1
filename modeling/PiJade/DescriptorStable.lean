import PiJade.DescriptorRespelling
import PiJade.JsonSpacing

/-!
One record for one wallet (`main/descriptor_text.c`). A record with its values written back is a
descriptor of that record, and so is every other spelling of a descriptor: another case of the
fingerprints, other marks of hardened steps, other child paths with the same numbers, other space.
-/
namespace PiJade.DescriptorText
open Text Json
open SettingsCodec (ascii)
set_option linter.unusedSimpArgs false

/-! ### Texts without space -/

def squeezed (p : Bytes) : Bytes := p.filter fun c => !isspace c

theorem mem_squeezed {p : Bytes} {c : UInt8} : c ∈ squeezed p ↔ c ∈ p ∧ isspace c = false := by
  rw [squeezed, List.mem_filter, Bool.not_eq_true']

theorem squeezed_append (p q : Bytes) : squeezed (p ++ q) = squeezed p ++ squeezed q := List.filter_append ..

theorem squeezed_blank {p : Bytes} (blank : ∀ c ∈ p, isspace c = true) : squeezed p = [] := by
  rw [squeezed, List.filter_eq_nil_iff]
  intro c inside
  simp [blank c inside]

theorem squeezed_self {p : Bytes} (visible : ∀ c ∈ p, isspace c = false) : squeezed p = p := by
  rw [squeezed, List.filter_eq_self]
  intro c inside
  simp [visible c inside]

theorem squeezed_skip_ws (p : Bytes) : squeezed (skip_ws p) = squeezed p := by
  obtain ⟨lead, blank, split⟩ := skip_ws_split p
  conv_rhs => rw [split, squeezed_append, squeezed_blank blank, List.nil_append]

theorem squeezed_trimmed (p : Bytes) : squeezed (trimmed p) = squeezed p := by
  have reversed : ∀ q : Bytes, squeezed q.reverse = (squeezed q).reverse := fun q => List.filter_reverse ..
  rw [trimmed, reversed]
  rw [show p.reverse.dropWhile isspace = skip_ws p.reverse from rfl, squeezed_skip_ws, reversed, List.reverse_reverse]

theorem skip_ws_head (p : Bytes) : (skip_ws p).head? = (squeezed p).head? := by
  rw [← squeezed_skip_ws]
  cases start : skip_ws p with
  | nil => rfl
  | cons c rest =>
    have visible : isspace c = false := by
      have first := List.head?_dropWhile_not isspace p
      rw [← skip_ws, start] at first
      exact first
    rw [squeezed, List.filter_cons_of_pos (by simp [visible])]
    rfl

/-- Without a checksum, only the space goes. -/
theorem strip_squeezes {w : Bytes} (no_hash : '#'.toUInt8 ∉ w) : strip w = .ok (squeezed w) := by
  have none : (trimmed w).idxOf? '#'.toUInt8 = none := by
    rw [List.idxOf?_eq_none_iff]
    intro inside
    rw [trimmed, List.mem_reverse] at inside
    exact no_hash (List.mem_reverse.mp ((List.dropWhile_sublist _).subset inside))
  rw [strip, ← trimmed, none, ← squeezed_trimmed]
  rfl

theorem strip_within {w work : Bytes} (stripped : strip w = .ok work) :
    (∀ c ∈ work, c ∈ w) ∧ ∀ c, Foreign c → c ∉ work := by
  have within : ∀ c ∈ trimmed w, c ∈ w := fun c inside => by
    rw [trimmed, List.mem_reverse] at inside
    exact List.mem_reverse.mp ((List.dropWhile_sublist _).subset inside)
  have squeezed_foreign : ∀ p : Bytes, '#'.toUInt8 ∉ p → ∀ c, Foreign c → c ∉ squeezed p := by
    intro p no_hash c foreign inside
    obtain ⟨listed, visible⟩ := mem_squeezed.mp inside
    rcases foreign with space | rfl
    · rw [visible] at space
      cases space
    · exact no_hash listed
  rw [strip, ← trimmed] at stripped
  split at stripped
  · rename_i none
    cases stripped
    exact ⟨fun c inside => within c (mem_squeezed.mp inside).1, squeezed_foreign _ (List.idxOf?_eq_none_iff.mp none)⟩
  · rename_i hash at_hash
    split at stripped
    · cases stripped
    cases stripped
    exact ⟨fun c inside => within c (List.mem_of_mem_take (mem_squeezed.mp inside).1), squeezed_foreign _ (take_cut at_hash).1⟩

/-! ### Parsing -/

theorem parse_iff {sha256 : Bytes → Bytes} {text w label work : Bytes} (opened : unwrap text = .ok (w, label))
    (stripped : strip w = .ok work) {descriptor : DescriptorData} {name : Bytes} :
    descriptor_text_parse sha256 text = .ok (descriptor, name) ↔
      text ≠ [] ∧ work ≠ [] ∧ ∃ after, walk work.length ⟨'('.toUInt8, [], []⟩ work = .ok after ∧ after.values ≠ [] ∧
        descriptor = ⟨after.script, after.values, .UNKNOWN⟩ ∧
        name = recordName sha256 label after.script after.values := by
  rw [descriptor_text_parse, Check.bind_eq_ok, opened]
  constructor
  · rintro ⟨_, ensured, parsed⟩
    rw [Check.ok_bind, stripped, Check.ok_bind] at parsed
    have some_text : text ≠ [] := by
      rintro rfl
      cases ensured
    split at parsed
    · cases parsed
    rename_i some_work
    obtain ⟨after, ran, parsed⟩ := Check.bind_eq_ok.mp parsed
    split at parsed
    · cases parsed
    rename_i some_value
    cases parsed
    exact ⟨some_text, some_work, after, ran, some_value, rfl, rfl⟩
  · rintro ⟨some_text, some_work, after, ran, some_value, rfl, rfl⟩
    refine ⟨(), ?_, ?_⟩
    · exact if_pos (decide_eq_true (mt List.length_eq_zero_iff.mp some_text))
    · rw [Check.ok_bind, stripped, Check.ok_bind, if_neg some_work, ran, Check.ok_bind, if_neg some_value]
      rfl

/-- What is parsed, and what comes of it. -/
theorem parse_cases {sha256 : Bytes → Bytes} {text : Bytes} {descriptor : DescriptorData} {name : Bytes}
    (parsed : descriptor_text_parse sha256 text = .ok (descriptor, name)) :
    ∃ w label work after, unwrap text = .ok (w, label) ∧ strip w = .ok work ∧ work ≠ [] ∧
      walk work.length ⟨'('.toUInt8, [], []⟩ work = .ok after ∧ after.values ≠ [] ∧
      descriptor = ⟨after.script, after.values, .UNKNOWN⟩ ∧ name = recordName sha256 label after.script after.values := by
  have whole := parsed
  rw [descriptor_text_parse] at parsed
  obtain ⟨_, _, parsed⟩ := Check.bind_eq_ok.mp parsed
  obtain ⟨⟨w, label⟩, opened, parsed⟩ := Check.bind_eq_ok.mp parsed
  obtain ⟨work, stripped, _⟩ := Check.bind_eq_ok.mp parsed
  obtain ⟨_, some_work, after, ran, some_value, same, same_name⟩ := (parse_iff opened stripped).mp whole
  exact ⟨w, label, work, after, opened, stripped, some_work, ran, some_value, same, same_name⟩

/-- Another text of the same descriptor comes to the same record. -/
theorem parse_alike (sha256 : Bytes → Bytes) {work : Bytes} {ps' : List Piece} {after : Walk} (alike : Alike work ps' after)
    (some_work : work ≠ []) (some_value : after.values ≠ []) (no_hash : '#'.toUInt8 ∉ work) {text' w' label' : Bytes}
    (opened' : unwrap text' = .ok (w', label')) (same : squeezed w' = render ps') :
    descriptor_text_parse sha256 text' =
      .ok (⟨after.script, after.values, .UNKNOWN⟩, recordName sha256 label' after.script after.values) := by
  have some_pieces : render ps' ≠ [] := fun empty => by
    have heads := alike.head
    rw [empty, List.head?_nil, eq_comm, List.head?_eq_none_iff] at heads
    exact some_work heads
  have no_hash' : '#'.toUInt8 ∉ w' := fun inside =>
    no_hash (alike.foreign (.inr rfl) (same ▸ mem_squeezed.mpr ⟨inside, rfl⟩))
  have some_text : text' ≠ [] := by
    rintro rfl
    cases opened'
    exact some_pieces same.symm
  refine (parse_iff opened' (strip_squeezes no_hash')).mpr ⟨some_text, ?_, after, ?_, some_value, rfl, rfl⟩
  · rw [same]
    exact some_pieces
  · rw [same]
    exact alike.walk

/-! ### Values written back -/

/-- The text of a record, with its values in the place of its placeholders. -/
def substituted (descriptor : DescriptorData) : Bytes :=
  (expand descriptor.values descriptor.script).flatMap Part.bytes

/-- A piece in its normal form. -/
def Piece.normal : Piece → Piece
  | .literal c => .literal c
  | .key tok => .key (normalValue tok ++ normalChild (childText tok))

theorem parts_bytes (piece : Piece) : piece.parts.flatMap Part.bytes = piece.normal.text := by
  have plain : ∀ chars : Bytes, (chars.map Part.text).flatMap Part.bytes = chars := fun chars => by
    induction chars with
    | nil => rfl
    | cons c chars ih => rw [List.map_cons, List.flatMap_cons, ih, Part.bytes, List.singleton_append]
  cases piece with
  | literal c => rfl
  | key tok => rw [Piece.parts, List.flatMap_cons, plain, Part.bytes, Piece.normal, Piece.text]

theorem render_normal (ps : List Piece) : (ps.flatMap Piece.parts).flatMap Part.bytes = render (ps.map Piece.normal) := by
  rw [List.flatMap_assoc, render, List.flatMap_map]
  exact congrArg ps.flatMap (funext parts_bytes)

theorem tolower_again (c : UInt8) : tolower (tolower c) = tolower c := by
  have table : ∀ n < 256, tolower (tolower (UInt8.ofNat n)) = tolower (UInt8.ofNat n) := by decide +kernel
  have same := table c.toNat c.toNat_lt
  rwa [UInt8.ofNat_toNat] at same

theorem unify_again (c : UInt8) : unify (unify c) = unify c := by
  by_cases mark : c = '\''.toUInt8
  · rw [mark]
    rfl
  · rw [unify, unify, if_neg mark, if_neg mark]

theorem branch_decimal {n : Nat} (small : n ≤ BIP32_MAX_CHILD_INDEX) : Branch (decimal n) :=
  ⟨decimal_ne_nil n, fun _ inside => decimal_digits inside, by rwa [number_decimal]⟩

/-- The child path that is written has the numbers it is written for. -/
theorem childFor_pair {a b : Nat} (small : a ≤ BIP32_MAX_CHILD_INDEX ∧ b ≤ BIP32_MAX_CHILD_INDEX) :
    ChildPair (childFor a b) a b := by
  have pair := ChildPair.angle (branch_decimal small.1) (branch_decimal small.2)
  rwa [number_decimal, number_decimal] at pair

theorem childFor_shape (a b : Nat) : childFor a b =
    '/'.toUInt8 :: '<'.toUInt8 :: (decimal a ++ ';'.toUInt8 :: (decimal b ++ '>'.toUInt8 :: ascii "/*")) := by
  simp [childFor, ascii, Char.toUInt8]

theorem childFor_few {a b : Nat} (small : a ≤ BIP32_MAX_CHILD_INDEX ∧ b ≤ BIP32_MAX_CHILD_INDEX) : Few (childFor a b) := by
  have bound : BIP32_MAX_CHILD_INDEX < 10 ^ 10 := by decide
  have length_a := @decimal_length_le a 10 (by decide) (by omega)
  have length_b := @decimal_length_le b 10 (by decide) (by omega)
  rw [Few, childFor_shape]
  simp only [List.drop_succ_cons, List.drop_zero]
  rw [takeWhile_run (fun _ inside => decimal_digits inside) rfl, dropWhile_run (fun _ inside => decimal_digits inside) rfl,
    List.drop_succ_cons, List.drop_zero, takeWhile_run (fun _ inside => decimal_digits inside) rfl]
  exact ⟨length_a, length_b⟩

/-- The normal form of a key expression is another spelling of it. -/
theorem normal_respelled {tok : Bytes} {found : Bytes × Bytes} (accepted : canonical_key tok VALUE_LEN 32 = .ok found) :
    Respelled tok (normalValue tok ++ normalChild (childText tok)) := by
  obtain ⟨same, _⟩ := canonical_key_normal accepted
  obtain ⟨parts, valid, rfl, value, made, _⟩ := parts_of_canonical_key accepted
  obtain ⟨child, spelled⟩ := canonical_child_normal made
  obtain ⟨a, b, pair⟩ := spelled.pair
  have numbers : found.2 = childFor a b := by rw [child, pair.normal, childFor]
  refine ⟨parts, ⟨parts.fingerprint.map tolower, parts.path.map unify, parts.key, found.2⟩, valid, rfl, ?_, ?_⟩
  · rw [show normalValue parts.text = found.1 by rw [same], show normalChild (childText parts.text) = found.2 by rw [same], value,
      Parts.value, Parts.text]
    simp
  · refine ⟨?_, ?_, rfl, ⟨a, b, pair, ?_⟩, ?_, ?_⟩
    · rw [List.map_map]
      exact List.map_congr_left fun c _ => tolower_again c
    · rw [List.map_map]
      exact List.map_congr_left fun c _ => unify_again c
    · rw [numbers]
      exact childFor_pair pair.small
    · rw [numbers]
      exact childFor_few pair.small
    · intro _
      have angle : '<'.toUInt8 ≠ '{'.toUInt8 := by decide
      rw [numbers, childFor_shape]
      exact angle

theorem normal_alike {work : Bytes} {after : Walk} (ran : walk work.length ⟨'('.toUInt8, [], []⟩ work = .ok after) :
    Alike work ((piecesOf work).map Piece.normal) after := by
  refine ⟨ran, List.forall₂_map_right_iff.mpr (List.forall₂_same.mpr fun piece inside => ?_)⟩
  cases piece with
  | literal c => exact .same _
  | key tok =>
    obtain ⟨found, accepted⟩ := walk_accepted ran tok inside
    exact .key (normal_respelled accepted)

theorem clean_of_plain {count : Nat} {ps : List Piece} (no_at : '@'.toUInt8 ∉ render ps) (no_nul : 0 ∉ render ps) :
    Clean count ps := by
  induction ps with
  | nil => trivial
  | cons piece ps ih =>
    rw [render, List.flatMap_cons, ← render, List.mem_append, not_or] at no_at no_nul
    have later := ih no_at.2 no_nul.2
    cases piece with
    | literal c => exact ⟨fun same => absurd (List.mem_singleton.mpr same.symm) no_at.1, later⟩
    | key tok => exact ⟨no_nul.1, later⟩

theorem descriptor_visible : ∀ c ∈ (ascii "descriptor").map tolower, isspace c = false := by decide +kernel

theorem unwrap_text {text : Bytes} (plain : (skip_ws text).head? ≠ some '{'.toUInt8) : unwrap text = .ok (skip_ws text, []) :=
  if_neg plain

theorem unwrap_json {text : Bytes} (json : (skip_ws text).head? = some '{'.toUInt8) : unwrap text =
    match json_get_string (skip_ws text) (ascii "descriptor") (text.length + 1) with
    | none => refuse ERR_INVALID
    | some work => .ok (work, cstr ((json_get_string (skip_ws text) (ascii "label") (MAX_DESCRIPTOR_NAME_SIZE * 4)).getD [])) :=
  if_pos json

theorem unwrap_within {text w label : Bytes} (opened : unwrap text = .ok (w, label)) : ∀ c ∈ w, c ∈ text := by
  intro c inside
  by_cases json : (skip_ws text).head? = some '{'.toUInt8
  · rw [unwrap_json json] at opened
    split at opened
    · cases opened
    rename_i work found
    cases opened
    obtain ⟨e, same, reads, _⟩ := export_of_lookup descriptor_visible found
    rw [same, Export.text, quoted, quoted]
    simp [reads.string.subset c inside]
  · rw [unwrap_text json] at opened
    cases opened
    exact (skip_ws_suffix text).subset inside

/-- The record, written back, is the descriptor in its normal form. -/
theorem substituted_normal {sha256 : Bytes → Bytes} {text : Bytes} {descriptor : DescriptorData} {name work : Bytes}
    (parsed : descriptor_text_parse sha256 text = .ok (descriptor, name)) (read : scanned text = .ok work)
    (no_at : '@'.toUInt8 ∉ work) (no_nul : 0 ∉ work) :
    substituted descriptor = render ((piecesOf work).map Piece.normal) := by
  obtain ⟨other, read', walked⟩ := descriptor_text_parse_walked parsed
  obtain rfl := Except.ok.inj (read.symm.trans read')
  have script : descriptor.script = (piecesOf work).flatMap (Piece.written descriptor.values) := by simpa using walked.script
  rw [← splits_text (piecesOf_splits work)] at no_at no_nul
  rw [substituted, script, expand_of_clean walked.table walked.spelled (clean_of_plain no_at no_nul), render_normal]

theorem recordName_nil (sha256 : Bytes → Bytes) (script : Bytes) (values : List StringValue) :
    recordName sha256 [] script values = make_hash_name sha256 script values := by
  simp [recordName]

/-! ### Other spellings of a text -/

/-- The same descriptor, with some key expressions in another spelling and with other space. -/
def Respells (w w' : Bytes) : Prop :=
  ∃ ps', squeezed w' = render ps' ∧ List.Forall₂ PieceRespelled (piecesOf (squeezed w)) ps'

/-- A record that is written back is parsed to itself, unless it looks like an export. A text without
    checksum is parsed to the same record in every other spelling; an export is so too, with any other
    space in front of the name of its member. -/
theorem canonical_form_stable (sha256 : Bytes → Bytes) {text : Bytes} {descriptor : DescriptorData} {name : Bytes}
    (parsed : descriptor_text_parse sha256 text = .ok (descriptor, name)) :
    ('@'.toUInt8 ∉ text → 0 ∉ text → (substituted descriptor).head? ≠ some '{'.toUInt8 →
      descriptor_text_parse sha256 (substituted descriptor) =
        .ok (descriptor, make_hash_name sha256 descriptor.script descriptor.values)) ∧
    ((skip_ws text).head? ≠ some '{'.toUInt8 → '#'.toUInt8 ∉ text → ∀ text', Respells text text' →
      descriptor_text_parse sha256 text' = .ok (descriptor, name)) ∧
    ((skip_ws text).head? = some '{'.toUInt8 → ∃ (e : Export) (w : Bytes), text = e.text ∧ e.Reads (ascii "descriptor") w ∧
      ('#'.toUInt8 ∉ w → ∀ (e' : Export) (w' : Bytes), e.Respaced e' → Unescaped e'.raw w' → Respells w w' →
        ∃ label, descriptor_text_parse sha256 e'.text =
          .ok (descriptor, recordName sha256 label descriptor.script descriptor.values))) := by
  obtain ⟨w, label, work, after, opened, stripped, some_work, ran, some_value, rfl, rfl⟩ := parse_cases parsed
  obtain ⟨within, no_foreign⟩ := strip_within stripped
  refine ⟨?_, ?_, ?_⟩
  · intro no_at no_nul plain
    have alike := normal_alike ran
    have read : scanned text = .ok work := by rw [scanned, opened, Check.ok_bind, stripped]
    have whole := substituted_normal parsed read (fun inside => no_at (unwrap_within opened _ (within _ inside)))
      (fun inside => no_nul (unwrap_within opened _ (within _ inside)))
    rw [whole] at plain ⊢
    have visible : squeezed (render ((piecesOf work).map Piece.normal)) = render ((piecesOf work).map Piece.normal) := by
      refine squeezed_self fun c inside => Bool.eq_false_iff.mpr fun space => ?_
      exact no_foreign c (.inl space) (alike.foreign (.inl space) inside)
    have opened' := @unwrap_text (render ((piecesOf work).map Piece.normal)) (by rw [skip_ws_head, visible]; exact plain)
    rw [parse_alike sha256 alike some_work some_value (no_foreign _ (.inr rfl)) opened' (by rw [squeezed_skip_ws, visible]),
      recordName_nil]
  · rintro plain no_hash text' ⟨ps', same, respelled⟩
    rw [unwrap_text plain] at opened
    cases opened
    have no_hash' : '#'.toUInt8 ∉ skip_ws text := fun inside => no_hash ((skip_ws_suffix text).subset inside)
    rw [strip_squeezes no_hash', squeezed_skip_ws] at stripped
    cases stripped
    have alike : Alike (squeezed text) ps' after := ⟨ran, respelled⟩
    have opened' := @unwrap_text text' (by rw [skip_ws_head, same, alike.head, ← skip_ws_head]; exact plain)
    exact parse_alike sha256 alike some_work some_value (no_foreign _ (.inr rfl)) opened' (by rw [squeezed_skip_ws, same])
  · intro json
    rw [unwrap_json json] at opened
    split at opened
    · cases opened
    rename_i member found
    cases opened
    obtain ⟨e, same_text, reads, others⟩ := export_of_lookup descriptor_visible found
    refine ⟨e, w, same_text, reads, ?_⟩
    rintro no_hash e' w' respaced string ⟨ps', same, respelled⟩
    rw [strip_squeezes no_hash] at stripped
    cases stripped
    have reads' := others respaced string
    have room : w'.length < e'.text.length + 1 := by
      have shorter := string.length_le
      simp only [Export.text, quoted, List.length_append, List.length_cons]
      omega
    have opened' := unwrap_json reads'.opens
    rw [reads'.lookup room] at opened'
    exact ⟨_, parse_alike sha256 ⟨ran, respelled⟩ some_work some_value (no_foreign _ (.inr rfl)) opened' same⟩

theorem respells_self (w : Bytes) : Respells w w :=
  ⟨piecesOf (squeezed w), (splits_text (piecesOf_splits _)).symm, List.forall₂_same.mpr fun piece _ => .same piece⟩

/-- One key in two spellings, and an export with a blank in front. -/
theorem canonical_form_stable_pkh :
    (∃ descriptor name, descriptor_text_parse (fun _ => []) (ascii "pkh([AB000000/48']x/**)") = .ok (descriptor, name) ∧
      descriptor_text_parse (fun _ => []) (substituted descriptor) = .ok (descriptor, name) ∧
      descriptor_text_parse (fun _ => []) (ascii " pkh( [aB000000/48h]x/\x7b00,1\x7d/*)") = .ok (descriptor, name)) ∧
    ∃ (e : Export) (descriptor : DescriptorData) (label name : Bytes),
      e.text = ascii "\x7b\"descriptor\":\"pkh([00000000]x/**)\"\x7d" ∧
      descriptor_text_parse (fun _ => []) e.text = .ok (descriptor, name) ∧
      descriptor_text_parse (fun _ => []) { e with front := 32 :: e.front }.text =
        .ok (descriptor, recordName (fun _ => []) label descriptor.script descriptor.values) := by
  constructor
  · have parsed : descriptor_text_parse (fun _ => []) (ascii "pkh([AB000000/48']x/**)") =
        .ok (⟨ascii "pkh(@0/<0;1>/*)", [⟨ascii "@0", ascii "[ab000000/48h]x"⟩], .UNKNOWN⟩, ascii "desc-") := by decide +kernel
    have read : scanned (ascii "pkh([AB000000/48']x/**)") = .ok (ascii "pkh([AB000000/48']x/**)") := by decide +kernel
    obtain ⟨written_back, respelled, _⟩ := canonical_form_stable (fun _ => []) parsed
    have whole := substituted_normal parsed read (by decide +kernel) (by decide +kernel)
    have no_at : '@'.toUInt8 ∉ ascii "pkh([AB000000/48']x/**)" := by decide +kernel
    have no_nul : 0 ∉ ascii "pkh([AB000000/48']x/**)" := by decide +kernel
    refine ⟨_, _, parsed, written_back no_at no_nul ?_, respelled (by decide +kernel) (by decide +kernel) _ ?_⟩
    · rw [whole]
      decide +kernel
    · have pieces : piecesOf (squeezed (ascii "pkh([AB000000/48']x/**)")) = [.literal 'p'.toUInt8, .literal 'k'.toUInt8,
          .literal 'h'.toUInt8, .literal '('.toUInt8, .key (ascii "[AB000000/48']x/**"), .literal ')'.toUInt8] := by decide +kernel
      have path : ∀ c ∈ ascii "/48'", c = '\''.toUInt8 ∨ isdigit c = true ∨ c = '/'.toUInt8 ∨ c = 'h'.toUInt8 := by decide +kernel
      have one_key : Respelled (ascii "[AB000000/48']x/**") (ascii "[aB000000/48h]x/\x7b00,1\x7d/*") := by
        refine ⟨⟨ascii "AB000000", ascii "/48'", ascii "x", ascii "/**"⟩,
          ⟨ascii "aB000000", ascii "/48h", ascii "x", ascii "/\x7b00,1\x7d/*"⟩, ⟨by decide +kernel, by decide +kernel, path,
            by decide +kernel, by decide +kernel, by decide +kernel⟩, by decide +kernel, by decide +kernel,
          by decide +kernel, by decide +kernel, rfl, ⟨0, 1, .any, ?_⟩, ⟨by decide +kernel, by decide +kernel⟩, by decide +kernel⟩
        have first : Branch (ascii "00") := ⟨by decide +kernel, by decide +kernel, by decide +kernel⟩
        have second : Branch (ascii "1") := ⟨by decide +kernel, by decide +kernel, by decide +kernel⟩
        exact .brace first second
      refine ⟨[.literal 'p'.toUInt8, .literal 'k'.toUInt8, .literal 'h'.toUInt8, .literal '('.toUInt8,
        .key (ascii "[aB000000/48h]x/\x7b00,1\x7d/*"), .literal ')'.toUInt8], by decide +kernel, ?_⟩
      rw [pieces]
      exact .cons (.same _) (.cons (.same _) (.cons (.same _) (.cons (.same _) (.cons (.key one_key) (.cons (.same _) .nil)))))
  · have parsed : descriptor_text_parse (fun _ => []) (ascii "\x7b\"descriptor\":\"pkh([00000000]x/**)\"\x7d") =
        .ok (⟨ascii "pkh(@0/<0;1>/*)", [⟨ascii "@0", ascii "[00000000]x"⟩], .UNKNOWN⟩, ascii "desc-") := by decide +kernel
    obtain ⟨_, _, exported⟩ := canonical_form_stable (fun _ => []) parsed
    obtain ⟨e, w, same, reads, spaced⟩ := exported (by decide +kernel)
    have no_hash : '#'.toUInt8 ∉ w := fun inside => by
      have listed : '#'.toUInt8 ∈ e.text := by
        rw [Export.text, quoted, quoted]
        simp [reads.string.subset _ inside]
      rw [← same] at listed
      revert listed
      decide +kernel
    obtain ⟨label, found⟩ := spaced no_hash { e with front := 32 :: e.front } w
      ⟨.blank rfl (by decide) (Spaced.refl _ _), rfl, reads.gap⟩ reads.string (respells_self w)
    exact ⟨e, _, label, _, same.symm, same ▸ parsed, found⟩

/-- Where other spellings of a text are refused: a record whose script begins like an export, a pair
in braces behind a key that closes one bracket more than it opens, and space in the name of a member
or in an escape sequence. -/
theorem canonical_form_unstable :
    (∃ descriptor name, descriptor_text_parse (fun _ => []) (ascii "\x7b\"descriptor\":\"\x7b([00000000]x/**)\"\x7d") =
        .ok (descriptor, name) ∧ descriptor_text_parse (fun _ => []) (substituted descriptor) = refuse ERR_INVALID) ∧
    (∃ result, descriptor_text_parse (fun _ => []) (ascii "pkh([00000000]x>/**") = .ok result ∧
      descriptor_text_parse (fun _ => []) (ascii "pkh([00000000]x>/\x7b0,1\x7d/*") = refuse ERR_UNSUPPORTED) ∧
    (∃ result, descriptor_text_parse (fun _ => []) (ascii "\x7b\"descriptor\":\"pkh([00000000]x/**)\"\x7d") = .ok result ∧
      descriptor_text_parse (fun _ => []) (ascii "\x7b\"descri ptor\":\"pkh([00000000]x/**)\"\x7d") = refuse ERR_INVALID) ∧
    ∃ result, descriptor_text_parse (fun _ => []) (ascii "\x7b\"descriptor\":\"pkh([00000000]x\\/**)\"\x7d") = .ok result ∧
      descriptor_text_parse (fun _ => []) (ascii "\x7b\"descriptor\":\"pkh([00000000]x\\ /**)\"\x7d") = refuse ERR_INVALID := by
  refine ⟨?_, ⟨(⟨ascii "pkh(@0/<0;1>/*", [⟨ascii "@0", ascii "[00000000]x>"⟩], .UNKNOWN⟩, ascii "desc-"), ?_, ?_⟩,
    ⟨(⟨ascii "pkh(@0/<0;1>/*)", [⟨ascii "@0", ascii "[00000000]x"⟩], .UNKNOWN⟩, ascii "desc-"), ?_, ?_⟩,
    ⟨(⟨ascii "pkh(@0/<0;1>/*)", [⟨ascii "@0", ascii "[00000000]x"⟩], .UNKNOWN⟩, ascii "desc-"), ?_, ?_⟩⟩
  · have parsed : descriptor_text_parse (fun _ => []) (ascii "\x7b\"descriptor\":\"\x7b([00000000]x/**)\"\x7d") =
        .ok (⟨ascii "\x7b(@0/<0;1>/*)", [⟨ascii "@0", ascii "[00000000]x"⟩], .UNKNOWN⟩, ascii "desc-") := by decide +kernel
    have read : scanned (ascii "\x7b\"descriptor\":\"\x7b([00000000]x/**)\"\x7d") = .ok (ascii "\x7b([00000000]x/**)") := by
      decide +kernel
    refine ⟨_, _, parsed, ?_⟩
    rw [substituted_normal parsed read (by decide +kernel) (by decide +kernel)]
    decide +kernel
  all_goals decide +kernel

end PiJade.DescriptorText
