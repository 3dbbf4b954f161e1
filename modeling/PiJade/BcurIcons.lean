import PiJade.Bytes
import PiJade.Process

/-!
The QR codes of a UR (`bcur_create_qr_icons` of `main/bcur.c`). Parts are pulled from an encoder
and painted; on the densities of the xpub flow those with an `I` are left out, and a decoder
here is fed what is painted until it succeeds. When that takes too many parts, all is discarded
and the parts are painted as they come. The encoder and the decoder are those of the bc-ur
library, parameters. An icon stands for the text it shows.
-/
namespace PiJade.Bcur
set_option linter.unusedSimpArgs false

/-- The encoder of one payload: its parts in order, and whether it is complete after so many. -/
structure UrEncoder where
  urseqlen : Nat
  urnext_part : Nat → Bytes
  uris_complete : Nat → Bool

/-- The decoder, over its states. -/
structure UrDecoder (V : Type) where
  urcreate : V
  urreceive_part : V → Bytes → V
  uris_success : V → Bool

/-- How the function ends without a set: its loop goes on, or it writes behind the icons. -/
inductive Stop where
  | diverged
  | overflow
  deriving DecidableEq, Repr

def QRCODE_MAX_VERSION : Nat := 12
def QR_ALPHANUMERIC_CAPACITY : List Nat := [0, 25, 47, 77, 114, 154, 195, 224, 279, 335, 395, 468, 535]
def BCUR_FRAGMENT_SIZE_V3 : Nat := 9
def BCUR_FILTER_MAX_QR_VERSION : Nat := 4
def BCUR_FILTER_MAX_PULLS : Nat := 2000
def BCUR_FILTER_MAX_EXTRA_ICONS : Nat := 100

/-- Computed in 64 bits and kept in 16. -/
def BCUR_MAX_FRAGMENT_SIZE (capacity : Nat) (bcur_type : Bytes) : Nat :=
  (capacity + 2 ^ 64 - bcur_type.length - 12 - 42) % 2 ^ 64 / 2 % 2 ^ 16

def BCUR_NUM_FRAGMENTS (num_pure_fragments : Nat) : Nat :=
  if num_pure_fragments ≤ 300 then 4 * num_pure_fragments / 3 else num_pure_fragments + 100

def bcur_type_contains_i (bcur_type : Bytes) : Bool :=
  bcur_type.contains 'I'.toUInt8 || bcur_type.contains 'i'.toUInt8

/-- The variables of the loop over parts. `fed` are the parts the decoder was given. -/
structure Painting (V : Type) where
  qr_icons : List Bytes
  pulls : Nat
  skipped : Nat
  verified : Bool
  target_num_icons : Nat
  vdecoder : V
  fed : List Bytes

/-- What one call works with. -/
structure Job (V : Type) where
  encoder : UrEncoder
  decoder : UrDecoder V
  capacity : Nat
  num_fragments : Nat
  max_num_icons : Nat

section
variable {V : Type} (job : Job V)

/-- The target after a set verified: a third on top of the parts it needed. -/
def raisedTarget (essential : Nat) : Nat := max (essential + (essential + 2) / 3) job.num_fragments

/-- The decoder is given the part that will be shown. -/
def verify (fragment : Bytes) (s : Painting V) : Painting V :=
  if s.verified then s
  else
    let vdecoder := job.decoder.urreceive_part s.vdecoder fragment
    let verified := job.decoder.uris_success vdecoder
    { s with
      vdecoder := vdecoder
      fed := s.fed ++ [fragment]
      verified := verified
      target_num_icons := if verified then raisedTarget job (s.qr_icons.length + 1) else s.target_num_icons }

/-- One part is pulled, and painted or left out. -/
def pullPart (filtering : Bool) (s : Painting V) : Check Stop (Painting V) :=
  let fragment := job.encoder.urnext_part s.pulls
  if filtering ∧ (fragment.contains 'I'.toUInt8 ∨ job.capacity < fragment.length) then
    .ok { s with pulls := s.pulls + 1, skipped := s.skipped + 1 }
  else do
    Check.ensure (fragment.length ≤ job.capacity)
    if job.max_num_icons ≤ s.qr_icons.length then .error (.error .overflow)
    else
      let fedOne := verify job fragment s
      .ok { fedOne with pulls := s.pulls + 1, qr_icons := s.qr_icons ++ [fragment] }

def pull_limit (filtering : Bool) : Nat := if filtering then BCUR_FILTER_MAX_PULLS else job.num_fragments
def icon_limit (filtering : Bool) : Nat := if filtering then job.max_num_icons else job.num_fragments

/-- The condition of the loop, without the limit of pulls. -/
def wanting (filtering : Bool) (s : Painting V) : Bool :=
  decide (s.qr_icons.length < icon_limit job filtering) && !(s.verified && decide (s.target_num_icons ≤ s.qr_icons.length))

/-- The variables before the first part; the encoder is a fresh one. -/
def fresh (filtering : Bool) : Painting V :=
  { qr_icons := [], pulls := 0, skipped := 0, verified := !filtering, target_num_icons := job.num_fragments,
    vdecoder := job.decoder.urcreate, fed := [] }

def paint (filtering : Bool) : Check Stop (Painting V) :=
  Check.loop (wanting job filtering) (pullPart job filtering) (pull_limit job filtering) (fresh job filtering)

/-- The set that is shown, whether it was filtered, and an attempt that was discarded before. -/
structure Outcome (V : Type) where
  painting : Painting V
  filtering : Bool
  discarded : Option (Painting V)

/-- The rounds of the outer loop: the second paints the parts as they come. -/
def attempts : Nat → Bool → Option (Painting V) → Check Stop (Outcome V)
  | 0, _, _ => .error (.error .diverged)
  | rounds + 1, filtering, discarded => do
    let s ← paint job filtering
    if (s.verified ∧ job.num_fragments ≤ s.qr_icons.length) ∨ ¬ filtering then
      pure { painting := s, filtering := filtering, discarded := discarded }
    else attempts rounds false (some s)

end

def filter_uppercase_i (bcur_type : Bytes) (qr_version : Nat) : Bool :=
  !bcur_type_contains_i bcur_type && decide (qr_version ≤ BCUR_FILTER_MAX_QR_VERSION)

/-- The job of a call. -/
def jobOf {V : Type} (encoder : UrEncoder) (decoder : UrDecoder V) (bcur_type : Bytes) (qr_version : Nat) : Job V :=
  let num_fragments := BCUR_NUM_FRAGMENTS encoder.urseqlen
  { encoder := encoder, decoder := decoder, capacity := QR_ALPHANUMERIC_CAPACITY.getD qr_version 0,
    num_fragments := num_fragments
    max_num_icons := if filter_uppercase_i bcur_type qr_version then num_fragments + BCUR_FILTER_MAX_EXTRA_ICONS
      else num_fragments }

def bcur_max_fragment_size (bcur_type : Bytes) (qr_version : Nat) : Nat :=
  if qr_version = 3 then BCUR_FRAGMENT_SIZE_V3
  else BCUR_MAX_FRAGMENT_SIZE (QR_ALPHANUMERIC_CAPACITY.getD qr_version 0) bcur_type

/-- Every text has a QR code: `qrcode_initText` returns zero, whatever mode it picks. -/
def bcur_create_qr_icons {V : Type} (rounds : Nat) (encoder : UrEncoder) (decoder : UrDecoder V) (bcur_type : Bytes)
    (qr_version : Nat) : Check Stop (Outcome V) := do
  Check.ensure (3 ≤ qr_version)
  Check.ensure (qr_version ≤ QRCODE_MAX_VERSION)
  let job := jobOf encoder decoder bcur_type qr_version
  Check.ensure (bcur_max_fragment_size bcur_type qr_version < job.capacity)
  Check.ensure (encoder.urseqlen ≤ job.num_fragments)
  let outcome ← attempts job rounds (filter_uppercase_i bcur_type qr_version) none
  Check.ensure (encoder.urseqlen ≤ outcome.painting.qr_icons.length)
  Check.ensure (encoder.uris_complete outcome.painting.pulls)
  pure outcome

/-! ### What is painted -/

section
variable {V : Type} {job : Job V}

/-- The decoder after some parts. -/
def UrDecoder.after (decoder : UrDecoder V) (parts : List Bytes) : V :=
  parts.foldl decoder.urreceive_part decoder.urcreate

/-- The first parts of a fresh encoder. -/
def UrEncoder.parts (encoder : UrEncoder) (count : Nat) : List Bytes := (List.range count).map encoder.urnext_part

theorem UrEncoder.parts_succ (encoder : UrEncoder) (count : Nat) :
    encoder.parts (count + 1) = encoder.parts count ++ [encoder.urnext_part count] := by
  simp [UrEncoder.parts, List.range_succ]

@[simp] theorem UrEncoder.length_parts (encoder : UrEncoder) (count : Nat) : (encoder.parts count).length = count := by
  simp [UrEncoder.parts]

/-- A part that can be painted while filtering. -/
def Clean (job : Job V) (part : Bytes) : Prop := 'I'.toUInt8 ∉ part ∧ part.length ≤ job.capacity

/-- While filtering: what is painted is clean and comes from the encoder in order, and the
    decoder was given the first of it, all of it as long as it has not succeeded. -/
structure Filtered (job : Job V) (s : Painting V) : Prop where
  clean : ∀ part ∈ s.qr_icons, Clean job part
  pulled : s.qr_icons.Sublist (job.encoder.parts s.pulls)
  room : s.qr_icons.length ≤ job.max_num_icons
  fed : s.fed <+: s.qr_icons
  decoder : s.vdecoder = job.decoder.after s.fed
  verified : s.verified = true → job.decoder.uris_success s.vdecoder = true
  unverified : s.verified = false → s.fed = s.qr_icons

theorem filtered_fresh : Filtered job (fresh job true) where
  clean := by simp [fresh]
  pulled := by simp [fresh]
  room := Nat.zero_le _
  fed := List.prefix_refl _
  decoder := rfl
  verified := by simp [fresh]
  unverified _ := rfl

theorem filtered_pullPart {s : Painting V} (inv : Filtered job s) (going : wanting job true s = true) :
    ∃ s', pullPart job true s = .ok s' ∧ Filtered job s' ∧ s'.pulls = s.pulls + 1 := by
  have room : s.qr_icons.length < job.max_num_icons := by
    simp only [wanting, icon_limit, Bool.and_eq_true, decide_eq_true_eq] at going
    exact going.1
  rw [pullPart]
  generalize part : job.encoder.urnext_part s.pulls = fragment
  have pulledOne : job.encoder.parts (s.pulls + 1) = job.encoder.parts s.pulls ++ [fragment] := by
    rw [UrEncoder.parts_succ, part]
  by_cases skip : fragment.contains 'I'.toUInt8 ∨ job.capacity < fragment.length
  · refine ⟨_, if_pos ⟨rfl, skip⟩, ?_, rfl⟩
    exact { inv with pulled := pulledOne ▸ inv.pulled.trans (List.sublist_append_left _ _) }
  · rw [not_or, Nat.not_lt] at skip
    obtain ⟨no_i, fits⟩ := skip
    have clean : Clean job fragment := ⟨by simpa using no_i, fits⟩
    have cleanAll : ∀ p ∈ s.qr_icons ++ [fragment], Clean job p := by
      intro p member
      obtain before | here := List.mem_append.mp member
      · exact inv.clean p before
      · exact List.mem_singleton.mp here ▸ clean
    have pulled : (s.qr_icons ++ [fragment]).Sublist (job.encoder.parts (s.pulls + 1)) :=
      pulledOne ▸ inv.pulled.append_right [fragment]
    have sized : (s.qr_icons ++ [fragment]).length ≤ job.max_num_icons := by
      rw [List.length_append]
      exact room
    rw [if_neg (by simp only [true_and, not_or, Nat.not_lt]; exact ⟨no_i, fits⟩)]
    refine ⟨_, by rw [decide_eq_true fits, Check.ensure_true, Check.ok_bind, if_neg (Nat.not_le.mpr room)], ?_, rfl⟩
    cases done : s.verified with
    | true =>
      have same : verify job fragment s = s := by rw [verify, if_pos done]
      rw [same]
      exact ⟨cleanAll, pulled, sized, inv.fed.trans (List.prefix_append _ _), inv.decoder, inv.verified,
        fun unverified => by rw [done] at unverified; cases unverified⟩
    | false =>
      have all : s.fed ++ [fragment] = s.qr_icons ++ [fragment] := by rw [inv.unverified done]
      have fedOne : verify job fragment s = { s with
          vdecoder := job.decoder.urreceive_part s.vdecoder fragment
          fed := s.fed ++ [fragment]
          verified := job.decoder.uris_success (job.decoder.urreceive_part s.vdecoder fragment)
          target_num_icons := if job.decoder.uris_success (job.decoder.urreceive_part s.vdecoder fragment) then
            raisedTarget job (s.qr_icons.length + 1) else s.target_num_icons } := by
        rw [verify, if_neg (by simp [done])]
      rw [fedOne]
      refine ⟨cleanAll, pulled, sized, ?_, ?_, fun succeeded => succeeded, fun _ => all⟩
      · show s.fed ++ [fragment] <+: s.qr_icons ++ [fragment]
        exact all ▸ List.prefix_refl _
      · rw [inv.decoder]
        simp [UrDecoder.after]

/-- A filtered attempt ends, with at most so many parts pulled. -/
theorem paint_filtering : ∃ s, paint job true = .ok s ∧ Filtered job s ∧ s.pulls ≤ BCUR_FILTER_MAX_PULLS := by
  obtain ⟨s, painted, inv, most, _⟩ := @Check.loop_spec Stop (Painting V) (wanting job true) (pullPart job true)
    (Filtered job) Painting.pulls (fun s inv going => filtered_pullPart inv going) (pull_limit job true) (fresh job true) filtered_fresh
  exact ⟨s, painted, inv, by simpa [fresh, pull_limit] using most⟩

/-- Without the filter: the parts are painted as they come. -/
structure Plain (job : Job V) (s : Painting V) : Prop where
  icons : s.qr_icons = job.encoder.parts s.pulls
  verified : s.verified = true
  target : s.target_num_icons = job.num_fragments

theorem plain_pullPart {s : Painting V} (fits : ∀ i < job.num_fragments, (job.encoder.urnext_part i).length ≤ job.capacity)
    (room : job.num_fragments ≤ job.max_num_icons) (inv : Plain job s) (going : wanting job false s = true) :
    ∃ s', pullPart job false s = .ok s' ∧ Plain job s' ∧ s'.pulls = s.pulls + 1 := by
  have early : s.pulls < job.num_fragments := by
    simp only [wanting, icon_limit, Bool.and_eq_true, decide_eq_true_eq, inv.icons, UrEncoder.length_parts] at going
    exact going.1
  have free : ¬ job.max_num_icons ≤ s.qr_icons.length := by
    rw [inv.icons, UrEncoder.length_parts]
    omega
  have same : verify job (job.encoder.urnext_part s.pulls) s = s := by rw [verify, if_pos inv.verified]
  refine ⟨{ s with pulls := s.pulls + 1, qr_icons := s.qr_icons ++ [job.encoder.urnext_part s.pulls] }, ?_, ?_, rfl⟩
  · simp [pullPart, fits s.pulls early, free, same]
  · exact ⟨by rw [UrEncoder.parts_succ, inv.icons], inv.verified, inv.target⟩

theorem paint_plain (fits : ∀ i < job.num_fragments, (job.encoder.urnext_part i).length ≤ job.capacity)
    (room : job.num_fragments ≤ job.max_num_icons) :
    ∃ s, paint job false = .ok s ∧ Plain job s ∧ s.pulls = job.num_fragments := by
  obtain ⟨s, painted, inv, most, ended⟩ := @Check.loop_spec Stop (Painting V) (wanting job false)
    (pullPart job false) (Plain job) Painting.pulls (fun s inv going => plain_pullPart fits room inv going)
    (pull_limit job false) (fresh job false) ⟨rfl, rfl, rfl⟩
  refine ⟨s, painted, inv, ?_⟩
  have limit : (fresh job false).pulls + pull_limit job false = job.num_fragments := by simp [fresh, pull_limit]
  rw [limit] at most ended
  obtain left | all := ended
  · simp only [wanting, icon_limit, inv.icons, inv.target, inv.verified, UrEncoder.length_parts] at left
    simp at left
    omega
  · exact all

/-! ### The set that is shown -/

/-- A filtered set: clean parts, the first of which make a fresh decoder succeed. It was given
    no others. -/
structure FilteredSet (job : Job V) (painting : Painting V) : Prop where
  clean : ∀ part ∈ painting.qr_icons, 'I'.toUInt8 ∉ part ∧ part.length ≤ job.capacity
  fed : painting.fed <+: painting.qr_icons
  succeeds : job.decoder.uris_success (painting.fed.foldl job.decoder.urreceive_part job.decoder.urcreate) = true
  least : job.num_fragments ≤ painting.qr_icons.length
  most : painting.qr_icons.length ≤ job.num_fragments + BCUR_FILTER_MAX_EXTRA_ICONS

/-- A plain set: the first parts of the encoder, as many as upstream shows. -/
def PlainSet (job : Job V) (painting : Painting V) : Prop :=
  painting.qr_icons = (List.range job.num_fragments).map job.encoder.urnext_part

/-- What the encoder is relied on for: it is complete once it made its pure parts, and the
    parts of a plain set fit the code. -/
structure UrEncoder.Lawful (encoder : UrEncoder) (capacity : Nat) : Prop where
  completes : ∀ count, encoder.urseqlen ≤ count → encoder.uris_complete count = true
  fits : ∀ i < BCUR_NUM_FRAGMENTS encoder.urseqlen, (encoder.urnext_part i).length ≤ capacity

theorem le_BCUR_NUM_FRAGMENTS (count : Nat) : count ≤ BCUR_NUM_FRAGMENTS count := by
  rw [BCUR_NUM_FRAGMENTS]
  split
  case isTrue => omega
  case isFalse => omega

theorem attempts_plain {rounds : Nat} {discarded : Option (Painting V)}
    (fits : ∀ i < job.num_fragments, (job.encoder.urnext_part i).length ≤ job.capacity)
    (room : job.num_fragments ≤ job.max_num_icons) :
    ∃ s, attempts job (rounds + 1) false discarded = .ok ⟨s, false, discarded⟩ ∧ PlainSet job s ∧
      s.pulls = job.num_fragments := by
  obtain ⟨s, painted, plain, all⟩ := paint_plain fits room
  refine ⟨s, ?_, by rw [PlainSet, plain.icons, all]; rfl, all⟩
  rw [attempts, painted, Check.ok_bind, if_pos (.inr (by decide))]
  rfl

/-- A filtered attempt is shown if it verified with enough parts, else the plain set is. -/
theorem attempts_filtering {rounds : Nat}
    (fits : ∀ i < job.num_fragments, (job.encoder.urnext_part i).length ≤ job.capacity)
    (room : job.max_num_icons = job.num_fragments + BCUR_FILTER_MAX_EXTRA_ICONS) :
    ∃ outcome, attempts job (rounds + 2) true none = .ok outcome ∧
      (FilteredSet job outcome.painting ∧ outcome.discarded = none ∧ outcome.painting.pulls ≤ BCUR_FILTER_MAX_PULLS ∧
          outcome.painting.qr_icons.length ≤ outcome.painting.pulls ∨
        PlainSet job outcome.painting ∧ outcome.painting.pulls = job.num_fragments ∧
          ∃ s, outcome.discarded = some s ∧ s.pulls ≤ BCUR_FILTER_MAX_PULLS) := by
  obtain ⟨s, painted, inv, most⟩ := @paint_filtering V job
  by_cases done : s.verified = true ∧ job.num_fragments ≤ s.qr_icons.length
  · refine ⟨⟨s, true, none⟩, ?_, .inl ⟨?_, rfl, most, ?_⟩⟩
    · rw [attempts, painted, Check.ok_bind, if_pos (.inl done)]
      rfl
    · have succeeded := inv.verified done.1
      rw [inv.decoder] at succeeded
      exact ⟨inv.clean, inv.fed, succeeded, done.2, room ▸ inv.room⟩
    · simpa using inv.pulled.length_le
  · obtain ⟨plain, shown, set, all⟩ := @attempts_plain V job rounds (some s) fits (by omega)
    refine ⟨⟨plain, false, some s⟩, ?_, .inr ⟨set, all, s, rfl, most⟩⟩
    rw [attempts, painted, Check.ok_bind, if_neg (not_or.mpr ⟨done, by simp⟩), shown]

/-- What is shown of a UR is filtered and verified, or it is the plain set; nothing is written
    behind the icons, and at most so many parts are pulled before falling back. -/
theorem displayed_ur_set (encoder : UrEncoder) (decoder : UrDecoder V) (bcur_type : Bytes) (qr_version : Nat)
    (lowest : 3 ≤ qr_version) (highest : qr_version ≤ QRCODE_MAX_VERSION)
    (no_underflow : bcur_max_fragment_size bcur_type qr_version < QR_ALPHANUMERIC_CAPACITY.getD qr_version 0)
    (lawful : encoder.Lawful (QR_ALPHANUMERIC_CAPACITY.getD qr_version 0)) (rounds : Nat) (two : 2 ≤ rounds) :
    ∃ outcome, bcur_create_qr_icons rounds encoder decoder bcur_type qr_version = .ok outcome ∧
      (FilteredSet (jobOf encoder decoder bcur_type qr_version) outcome.painting ∨
        PlainSet (jobOf encoder decoder bcur_type qr_version) outcome.painting) ∧
      outcome.painting.qr_icons.length ≤ (jobOf encoder decoder bcur_type qr_version).max_num_icons ∧
      outcome.painting.pulls ≤ max BCUR_FILTER_MAX_PULLS (BCUR_NUM_FRAGMENTS encoder.urseqlen) ∧
      (∀ attempt, outcome.discarded = some attempt → attempt.pulls ≤ BCUR_FILTER_MAX_PULLS) ∧
      (bcur_type_contains_i bcur_type = true ∨ BCUR_FILTER_MAX_QR_VERSION < qr_version →
        PlainSet (jobOf encoder decoder bcur_type qr_version) outcome.painting ∧ outcome.discarded = none) := by
  obtain ⟨rounds, rfl⟩ : ∃ k, rounds = k + 2 := ⟨rounds - 2, by omega⟩
  generalize job_eq : jobOf encoder decoder bcur_type qr_version = job
  have num_fragments : job.num_fragments = BCUR_NUM_FRAGMENTS encoder.urseqlen := by rw [← job_eq]; rfl
  have capacity : job.capacity = QR_ALPHANUMERIC_CAPACITY.getD qr_version 0 := by rw [← job_eq]; rfl
  have encoder_eq : job.encoder = encoder := by rw [← job_eq]; rfl
  have max_num_icons : job.max_num_icons = if filter_uppercase_i bcur_type qr_version then
      job.num_fragments + BCUR_FILTER_MAX_EXTRA_ICONS else job.num_fragments := by rw [← job_eq]; rfl
  have enough : encoder.urseqlen ≤ job.num_fragments := num_fragments ▸ le_BCUR_NUM_FRAGMENTS _
  have fits : ∀ i < job.num_fragments, (job.encoder.urnext_part i).length ≤ job.capacity := by
    rw [num_fragments, capacity, encoder_eq]
    exact lawful.fits
  -- the assertions at the end hold of every set that has the pure parts
  have asserted : ∀ outcome, attempts job (rounds + 2) (filter_uppercase_i bcur_type qr_version) none = .ok outcome →
      job.num_fragments ≤ outcome.painting.qr_icons.length → job.num_fragments ≤ outcome.painting.pulls →
      bcur_create_qr_icons (rounds + 2) encoder decoder bcur_type qr_version = .ok outcome := by
    intro outcome shown icons pulls
    rw [← capacity] at no_underflow
    rw [bcur_create_qr_icons]
    simp only [job_eq, lowest, highest, no_underflow, enough, decide_true, Check.ensure_true, Check.ok_bind, shown,
      enough.trans icons, lawful.completes _ (enough.trans pulls), Check.pure_eq]
  cases filter : filter_uppercase_i bcur_type qr_version with
  | false =>
    rw [filter] at asserted max_num_icons
    rw [if_neg (by decide)] at max_num_icons
    obtain ⟨s, shown, set, all⟩ := @attempts_plain V job (rounds + 1) none fits (by omega)
    have size : s.qr_icons.length = job.num_fragments := by rw [set, List.length_map, List.length_range]
    refine ⟨_, asserted _ shown (Nat.le_of_eq size.symm) (Nat.le_of_eq all.symm), .inr set, ?_, ?_, ?_, ?_⟩
    · exact Nat.le_of_eq (size.trans max_num_icons.symm)
    · exact (Nat.le_of_eq (all.trans num_fragments)).trans (Nat.le_max_right _ _)
    · simp
    · exact fun _ => ⟨set, rfl⟩
  | true =>
    rw [filter] at asserted max_num_icons
    rw [if_pos rfl] at max_num_icons
    obtain ⟨outcome, shown, sets⟩ := @attempts_filtering V job rounds fits max_num_icons
    have unfiltered : ¬ (bcur_type_contains_i bcur_type = true ∨ BCUR_FILTER_MAX_QR_VERSION < qr_version) := by
      simpa [filter_uppercase_i] using filter
    obtain ⟨set, kept, most, pulled⟩ | ⟨set, all, attempt, dropped, most⟩ := sets
    · refine ⟨outcome, asserted outcome shown set.least (set.least.trans pulled), .inl set, ?_, ?_, ?_, ?_⟩
      · exact max_num_icons ▸ set.most
      · exact most.trans (Nat.le_max_left _ _)
      · simp [kept]
      · exact fun off => absurd off unfiltered
    · have size : outcome.painting.qr_icons.length = job.num_fragments := by rw [set, List.length_map, List.length_range]
      refine ⟨outcome, asserted outcome shown (Nat.le_of_eq size.symm) (Nat.le_of_eq all.symm), .inr set, ?_, ?_, ?_, ?_⟩
      · rw [size, max_num_icons]
        exact Nat.le_add_right _ _
      · exact (Nat.le_of_eq (all.trans num_fragments)).trans (Nat.le_max_right _ _)
      · intro other same
        rw [dropped] at same
        cases same
        exact most
      · exact fun off => absurd off unfiltered

end

/-- Three pure parts; every third part of the stream has an `I`. -/
def threeParts : UrEncoder where
  urseqlen := 3
  urnext_part i := List.map Char.toUInt8 ['U', 'R', ':', 'B', 'Y', 'T', 'E', 'S', '/', if i % 3 = 1 then 'I' else 'A']
  uris_complete count := decide (3 ≤ count)

/-- Succeeds on the third part. -/
def countingDecoder : UrDecoder Nat where
  urcreate := 0
  urreceive_part count _ := count + 1
  uris_success count := decide (3 ≤ count)

def bytesType : Bytes := List.map Char.toUInt8 ['b', 'y', 't', 'e', 's']

theorem threeParts_lawful : threeParts.Lawful (QR_ALPHANUMERIC_CAPACITY.getD 4 0) where
  completes count enough := by simpa [threeParts] using enough
  fits := by decide

theorem displayed_ur_set_threeParts :
    ∃ outcome, bcur_create_qr_icons 2 threeParts countingDecoder bytesType 4 = .ok outcome ∧
      (FilteredSet (jobOf threeParts countingDecoder bytesType 4) outcome.painting ∨
        PlainSet (jobOf threeParts countingDecoder bytesType 4) outcome.painting) := by
  obtain ⟨outcome, shown, set, _⟩ := displayed_ur_set threeParts countingDecoder bytesType 4 (by decide) (by decide)
    (by decide) threeParts_lawful 2 (by decide)
  exact ⟨outcome, shown, set⟩

-- three clean parts verify, and the margin of a third adds one more
example : (bcur_create_qr_icons 2 threeParts countingDecoder bytesType 4).toOption.map (fun outcome =>
    (outcome.painting.qr_icons.length, outcome.painting.pulls, outcome.filtering)) = some (4, 6, true) := by decide +kernel

end PiJade.Bcur
