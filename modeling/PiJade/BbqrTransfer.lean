import PiJade.BbqrContext

/-!
A payload cut into frames comes back whole. Frames arrive in any order and any number of
times, between frames of other transfers and frames that cannot be read. Once a part that
gives the block length has been taken, the context holds exactly the parts that have come,
each at its place (`Follows`); with all of them there the buffer is the payload.
-/
namespace PiJade.Bbqr
set_option linter.unusedSimpArgs false
open Base32 (bin_to_base32 base32_to_bin)

/-! ### Frames -/

def digitChar (digit : Nat) : UInt8 :=
  if digit < 10 then UInt8.ofNat (48 + digit) else UInt8.ofNat (65 + (digit - 10))

/-- Bytes as capital hex digits. -/
def hexText (bytes : Bytes) : Bytes :=
  bytes.flatMap fun byte => [digitChar (byte.toNat / 16), digitChar (byte.toNat % 16)]

/-- A payload and how it is cut and encoded. -/
structure Cut where
  payload : Bytes
  block_len : Nat
  num_parts : Nat
  encoding : UInt8
  file_type : UInt8

namespace Cut
variable (cut : Cut)

def part (index : Nat) : Bytes := (cut.payload.drop (index * cut.block_len)).take cut.block_len

def text (index : Nat) : Bytes :=
  if cut.encoding = ascii 'H' then hexText (cut.part index) else bin_to_base32 (cut.part index)

def frame (index : Nat) : Bytes :=
  [ascii 'B', ascii '$', cut.encoding, cut.file_type, digitChar (cut.num_parts / 36), digitChar (cut.num_parts % 36),
    digitChar (index / 36), digitChar (index % 36)] ++ cut.text index

def head (index : Nat) : Header where
  encoding := cut.encoding
  file_type := cut.file_type
  num_parts := cut.num_parts
  index := index

end Cut

/-- A payload in frames a reader is meant to take. -/
structure Transfer extends Cut where
  parts : 1 ≤ num_parts ∧ num_parts ≤ BBQR_MAX_PARTS
  cut : (num_parts - 1) * block_len < payload.length ∧ payload.length ≤ num_parts * block_len
  room : num_parts * block_len ≤ MAX_INPUT_MSG_SIZE
  known_encoding : encoding = ascii 'H' ∨ encoding = ascii '2' ∨ encoding = ascii 'Z'
  known_file_type : is_known_file_type file_type = true
  frames_fit : ∀ index < num_parts, (toCut.frame index).length ≤ QR_MAX_PAYLOAD_LENGTH

/-- Hex text is read as the bytes it writes. -/
def ReadsHex (decoders : Decoders) : Prop :=
  ∀ bytes out_len, bytes.length ≤ out_len → decoders.wally_hex_n_to_bytes (hexText bytes) out_len = some bytes

theorem base36_digitChar : ∀ digit : Fin 36, base36 (digitChar digit) = some digit.val := by decide

theorem parse_base36_pair_digits {value : Nat} (small : value ≤ BBQR_MAX_PARTS) :
    parse_base36_pair (digitChar (value / 36)) (digitChar (value % 36)) = some value := by
  simp only [BBQR_MAX_PARTS] at small
  have high := base36_digitChar ⟨value / 36, by omega⟩
  have low := base36_digitChar ⟨value % 36, by omega⟩
  simp only at high low
  simp only [parse_base36_pair, high, low, Option.some.injEq]
  omega

theorem hexText_length (bytes : Bytes) : (hexText bytes).length = 2 * bytes.length := by
  induction bytes with
  | nil => rfl
  | cons byte rest ih =>
    rw [hexText, List.flatMap_cons, List.length_append, ← hexText, ih, List.length_cons]
    simp only [List.length_cons, List.length_nil]
    omega

namespace Transfer
variable (transfer : Transfer) {index : Nat}

theorem header_frame (below : index < transfer.num_parts) : header (transfer.frame index) = some (transfer.head index) := by
  have parts := transfer.parts
  have first : bbqr_is_header (transfer.frame index) = true := by
    simp [bbqr_is_header, Cut.frame, BBQR_HEADER_LEN]
  have total := @parse_base36_pair_digits transfer.num_parts parts.2
  have which := @parse_base36_pair_digits index (by omega)
  have known : ¬ ((transfer.encoding ≠ ascii 'H' ∧ transfer.encoding ≠ ascii '2' ∧ transfer.encoding ≠ ascii 'Z') ∨
      (!is_known_file_type transfer.file_type) = true) := by
    rw [transfer.known_file_type]
    rcases transfer.known_encoding with same | same | same
    · simp [same]
    · simp [same]
    · simp [same]
  have encoding : (transfer.frame index).getD 2 0 = transfer.encoding := rfl
  have file_type : (transfer.frame index).getD 3 0 = transfer.file_type := rfl
  have parts_read : parse_base36_pair ((transfer.frame index).getD 4 0) ((transfer.frame index).getD 5 0) =
      some transfer.num_parts := total
  have index_read : parse_base36_pair ((transfer.frame index).getD 6 0) ((transfer.frame index).getD 7 0) =
      some index := which
  rw [header, first, if_neg (by decide), encoding, file_type, if_neg known, parts_read, index_read]
  dsimp only
  rw [if_neg (by omega)]
  rfl

/-- The bytes every part but the last has; the only part is the last. -/
def stride : Nat := if transfer.num_parts = 1 then transfer.payload.length else transfer.block_len

theorem part_length (below : index < transfer.num_parts) : (transfer.part index).length =
    if index = transfer.num_parts - 1 then transfer.payload.length - (transfer.num_parts - 1) * transfer.block_len
    else transfer.block_len := by
  obtain ⟨some_byte, most⟩ := transfer.cut
  rw [Cut.part, List.length_take, List.length_drop]
  obtain ⟨n, count⟩ : ∃ n, transfer.num_parts = n + 1 := ⟨transfer.num_parts - 1, by omega⟩
  rw [count, Nat.add_sub_cancel] at some_byte ⊢
  rw [count, Nat.succ_mul] at most
  by_cases last : index = n
  · rw [if_pos last, last]
    omega
  · rw [if_neg last]
    have earlier : (index + 1) * transfer.block_len ≤ n * transfer.block_len := Nat.mul_le_mul_right _ (by omega)
    rw [Nat.succ_mul] at earlier
    omega

theorem block_pos : 1 ≤ transfer.block_len := by
  obtain ⟨some_byte, most⟩ := transfer.cut
  by_contra none
  obtain zero : transfer.block_len = 0 := by omega
  rw [zero] at most
  simp only [Nat.mul_zero] at most
  omega

theorem part_nonempty (below : index < transfer.num_parts) : 1 ≤ (transfer.part index).length := by
  have block := transfer.block_pos
  have cut := transfer.cut
  rw [transfer.part_length below]
  split <;> omega

/-- The parts before the last fill whole groups of characters. -/
def Aligned : Prop := transfer.encoding = ascii 'H' ∨ transfer.num_parts = 1 ∨ 5 ∣ transfer.block_len

theorem text_length (index : Nat) : (transfer.text index).length =
    if transfer.encoding = ascii 'H' then 2 * (transfer.part index).length else (8 * (transfer.part index).length + 4) / 5 := by
  rw [Cut.text]
  split
  · exact hexText_length _
  · exact Base32.bin_to_base32_length _

/-- A part fits into the buffer it is decoded into. -/
theorem part_fits (below : index < transfer.num_parts) : (transfer.part index).length ≤ BBQR_MAX_FRAME_DECODED := by
  have fits := transfer.frames_fit index below
  have text := transfer.text_length index
  simp only [Cut.frame, List.length_append, List.length_cons, List.length_nil, QR_MAX_PAYLOAD_LENGTH] at fits
  simp only [BBQR_MAX_FRAME_DECODED, BBQR_MAX_FRAME_PAYLOAD, QR_MAX_PAYLOAD_LENGTH, BBQR_HEADER_LEN]
  split at text <;> omega

theorem is_bbqr_base32_text (bytes : Bytes) : is_bbqr_base32 (bin_to_base32 bytes) = true := by
  rw [is_bbqr_base32, Bool.and_eq_true]
  constructor
  · have length := Base32.bin_to_base32_length bytes
    simp only [Bool.or_eq_true, decide_eq_true_eq]
    omega
  · rw [List.all_eq_true]
    intro ch member
    simp only [Bool.or_eq_true, Bool.and_eq_true, decide_eq_true_eq]
    exact Base32.bin_to_base32_alphabet bytes ch member

/-- The payload of a frame is read as the part it carries. -/
theorem decoded_frame {decoders : Decoders} (reads_hex : ReadsHex decoders) (aligned : transfer.Aligned)
    (below : index < transfer.num_parts) :
    decoded decoders (transfer.head index) (transfer.frame index) = transfer.part index := by
  have text : (transfer.frame index).drop BBQR_HEADER_LEN = transfer.text index := rfl
  have length := transfer.text_length index
  have nonempty := transfer.part_nonempty below
  have fits := transfer.part_fits below
  rw [decoded, text, decode_frame_payload]
  show (if (transfer.text index).length = 0 then [] else if transfer.encoding = ascii 'H' then _ else _) = _
  by_cases hex : transfer.encoding = ascii 'H'
  · rw [if_pos hex] at length
    rw [if_neg (by omega), if_pos hex, if_neg (by omega), Cut.text, if_pos hex, reads_hex _ _ fits]
    dsimp only
    rw [if_neg (by rw [hexText_length]; omega)]
  · rw [if_neg hex] at length
    have whole : ¬ ((!(transfer.head index).is_final && decide ((transfer.text index).length % 8 ≠ 0)) = true) := by
      rw [Bool.and_eq_true, Bool.not_eq_true', decide_eq_true_eq]
      rintro ⟨earlier, uneven⟩
      have before : index ≠ transfer.num_parts - 1 := of_decide_eq_false earlier
      have full := transfer.part_length below
      rw [if_neg before] at full
      rcases aligned with same | single | ⟨groups, five⟩
      · exact hex same
      · omega
      · omega
    rw [if_neg (by omega), if_neg hex, if_neg whole]
    have read : transfer.text index = bin_to_base32 (transfer.part index) := by rw [Cut.text, if_neg hex]
    rw [read, is_bbqr_base32_text, if_neg (by decide)]
    exact Base32.base32_to_bin_bin_to_base32 _ fits

/-- Only aligned parts are taken first. -/
theorem aligned_of_read {decoders : Decoders} (below : index < transfer.num_parts)
    (full : index + 1 < transfer.num_parts ∨ transfer.num_parts = 1)
    (read : 1 ≤ (decoded decoders (transfer.head index) (transfer.frame index)).length) : transfer.Aligned := by
  by_cases hex : transfer.encoding = ascii 'H'
  · exact .inl hex
  by_cases single : transfer.num_parts = 1
  · exact .inr (.inl single)
  refine .inr (.inr ?_)
  by_contra uneven
  have text : (transfer.frame index).drop BBQR_HEADER_LEN = transfer.text index := rfl
  have length := transfer.text_length index
  have size := transfer.part_length below
  rw [if_neg (by omega)] at size
  rw [if_neg hex, size] at length
  have earlier : (transfer.head index).is_final = false := by
    rw [Header.is_final]
    exact decide_eq_false (by show index ≠ transfer.num_parts - 1; omega)
  have cut_off : (!(transfer.head index).is_final && decide ((transfer.text index).length % 8 ≠ 0)) = true := by
    rw [earlier, Bool.not_false, Bool.true_and]
    apply decide_eq_true
    omega
  have nothing : decoded decoders (transfer.head index) (transfer.frame index) = [] := by
    rw [decoded, text, decode_frame_payload]
    show (if (transfer.text index).length = 0 then [] else if transfer.encoding = ascii 'H' then _ else _) = _
    have block := transfer.block_pos
    rw [if_neg (by omega), if_neg hex, if_pos cut_off]
  rw [nothing] at read
  simp at read

/-! ### The parts that have come -/

/-- The context holds the parts at the indices shown, each at its place. -/
structure Follows (decoders : Decoders) (shown : Nat → Prop) (ctx : Ctx) (held : Bytes) : Prop where
  collects : Collects decoders ctx held
  encoding : ctx.encoding = transfer.encoding
  file_type : ctx.file_type = transfer.file_type
  num_parts : ctx.num_parts = transfer.num_parts
  block_len : ctx.block_len = transfer.stride
  seen : ∀ index < transfer.num_parts, bit ctx.seen index = true ↔ shown index
  holds : ∀ index < transfer.num_parts, shown index → ctx.extent index = (transfer.part index).length ∧
    HoldsAt held (index * transfer.stride) (transfer.part index)

variable {transfer} {decoders : Decoders} {shown : Nat → Prop} {ctx : Ctx} {held : Bytes}

/-- The part at the place a context keeps for it. -/
theorem part_stride (below : index < transfer.num_parts) :
    if index = transfer.num_parts - 1 then (transfer.part index).length ≤ transfer.stride
    else (transfer.part index).length = transfer.stride := by
  have length := transfer.part_length below
  obtain ⟨some_byte, most⟩ := transfer.cut
  obtain ⟨n, count⟩ : ∃ n, transfer.num_parts = n + 1 := ⟨transfer.num_parts - 1, by omega⟩
  rw [stride]
  rw [count, Nat.add_sub_cancel] at length ⊢
  rw [count, Nat.succ_mul] at most
  by_cases last : index = n
  · rw [if_pos last] at length ⊢
    rw [length]
    by_cases single : n + 1 = 1
    · rw [if_pos single]
      exact Nat.sub_le _ _
    · rw [if_neg single]
      omega
  · rw [if_neg last] at length ⊢
    rw [if_neg (by omega)]
    exact length

theorem Follows.fits (follows : transfer.Follows decoders shown ctx held) (below : index < transfer.num_parts) :
    Fits ctx (transfer.head index) (transfer.part index) := by
  have size := transfer.part_stride below
  rw [Fits, follows.block_len, Header.is_final]
  show if decide (index = transfer.num_parts - 1) = true then _ else _
  simp only [decide_eq_true_eq]
  exact size

theorem Follows.own (follows : transfer.Follows decoders shown ctx held) (index : Nat) :
    foreign ctx (transfer.head index) = false := by
  simp [foreign, Cut.head, follows.encoding, follows.file_type, follows.num_parts]

/-- One more part at its place. -/
theorem Follows.placed (follows : transfer.Follows decoders shown ctx held) (below : index < transfer.num_parts)
    (unseen : bit ctx.seen index = false) :
    transfer.Follows decoders (fun other => other = index ∨ shown other)
      (placed ctx held (transfer.head index) (transfer.part index))
      (written held (index * ctx.block_len) (transfer.part index)) := by
  have inside : index < ctx.num_parts := by rw [follows.num_parts]; exact below
  have fits := follows.fits below
  have parts : (transfer.head index).num_parts = ctx.num_parts := follows.num_parts.symm
  have room : index * ctx.block_len + (transfer.part index).length ≤ held.length :=
    follows.collects.part_room inside fits
  have collects := follows.collects.placed parts inside fits (transfer.part_nonempty below) unseen
  refine ⟨collects, follows.encoding, follows.file_type, follows.num_parts, follows.block_len, ?_, ?_⟩
  · intro other other_below
    show bit (markBit ctx.seen index) other = true ↔ _
    rw [bit_markBit (follows.collects.bits_room inside), Bool.or_eq_true, decide_eq_true_eq, follows.seen other other_below]
  · intro other other_below here
    by_cases own : other = index
    · subst own
      refine ⟨extent_placed_self parts fits, ?_⟩
      rw [← follows.block_len]
      exact written_holdsAt room
    · obtain ⟨extent, holds⟩ := follows.holds other other_below (here.resolve_left own)
      refine ⟨?_, ?_⟩
      · rw [← extent]
        exact extent_placed parts own
      · intro k within
        have set := (follows.seen other other_below).mpr (here.resolve_left own)
        have most := follows.collects.extent_le set
        rw [← follows.block_len, getElem?_written_block room fits.le own (by omega), follows.block_len]
        exact holds k within

theorem stride_offset (below : index < transfer.num_parts) : index * transfer.stride = index * transfer.block_len := by
  rw [stride]
  split
  case isTrue single =>
    obtain rfl : index = 0 := by omega
    rw [Nat.zero_mul, Nat.zero_mul]
  case isFalse => rfl

theorem Follows.last_extent (follows : transfer.Follows decoders shown ctx held)
    (all : ∀ index < transfer.num_parts, shown index) :
    ctx.final_len = transfer.payload.length - (transfer.num_parts - 1) * transfer.block_len := by
  have parts := transfer.parts.1
  have last : transfer.num_parts - 1 < transfer.num_parts := by omega
  have extent := (follows.holds _ last (all _ last)).1
  rw [Ctx.extent, follows.num_parts, if_pos rfl, transfer.part_length last, if_pos rfl] at extent
  exact extent

theorem Follows.total_eq (follows : transfer.Follows decoders shown ctx held)
    (all : ∀ index < transfer.num_parts, shown index) : ctx.total = transfer.payload.length := by
  have parts := transfer.parts.1
  have cut := transfer.cut.1
  have last := @stride_offset transfer (transfer.num_parts - 1) (by omega)
  rw [Ctx.total, follows.last_extent all, follows.block_len, follows.num_parts, Nat.mul_comm, last]
  omega

/-- With every part there the buffer is the payload. -/
theorem Follows.payload (follows : transfer.Follows decoders shown ctx held)
    (all : ∀ index < transfer.num_parts, shown index) : held.take ctx.total = transfer.payload := by
  have total := follows.total_eq all
  have complete : ctx.num_seen = ctx.num_parts := by
    apply follows.collects.complete_iff.mpr
    intro index below
    rw [follows.num_parts] at below
    exact (follows.seen index below).mpr (all index below)
  apply List.ext_getElem?
  intro k
  by_cases below : k < ctx.total
  · have last := follows.collects.final ((follows.collects.complete_iff.mp complete) _
      (by have := follows.collects.parts.1; omega))
    obtain ⟨inside, within, split⟩ := follows.collects.covered below last.2
    rw [follows.num_parts] at inside
    obtain ⟨extent, holds⟩ := follows.holds _ inside (all _ inside)
    rw [extent] at within
    have here := holds _ within
    have room : k % ctx.block_len < transfer.block_len := by
      have size := within
      rw [Cut.part, List.length_take] at size
      omega
    rw [Cut.part, List.getElem?_take_of_lt room, List.getElem?_drop, ← stride_offset inside, ← follows.block_len,
      split] at here
    rw [List.getElem?_take_of_lt below, here]
  · rw [List.getElem?_eq_none (by rw [List.length_take]; omega), List.getElem?_eq_none (by omega)]

theorem Follows.complete_iff (follows : transfer.Follows decoders shown ctx held) :
    ctx.num_seen = ctx.num_parts ↔ ∀ index < transfer.num_parts, shown index := by
  rw [follows.collects.complete_iff, follows.num_parts]
  constructor
  · intro all index below
    exact (follows.seen index below).mp (all index below)
  · intro all index below
    exact (follows.seen index below).mpr (all index below)

theorem Follows.progress_iff (follows : transfer.Follows decoders shown ctx held) :
    ctx.progress = .COMPLETE ↔ ∀ index < transfer.num_parts, shown index := by
  rw [← follows.complete_iff, Ctx.progress]
  by_cases complete : ctx.num_seen = ctx.num_parts
  · simp [complete]
  · simp [complete]

theorem Follows.congr {shown' : Nat → Prop} (follows : transfer.Follows decoders shown ctx held)
    (same : ∀ index < transfer.num_parts, shown index ↔ shown' index) :
    transfer.Follows decoders shown' ctx held where
  collects := follows.collects
  encoding := follows.encoding
  file_type := follows.file_type
  num_parts := follows.num_parts
  block_len := follows.block_len
  seen index below := (follows.seen index below).trans (same index below)
  holds index below come := follows.holds index below ((same index below).mpr come)

/-! ### Calls -/

theorem reads_frame (reads_hex : ReadsHex decoders) (aligned : transfer.Aligned) (below : index < transfer.num_parts)
    (own : foreign ctx (transfer.head index) = false) : Reads decoders ctx (transfer.frame index) (transfer.head index) where
  header_read := transfer.header_frame below
  own := own
  payload_read := by
    rw [transfer.decoded_frame reads_hex aligned below]
    exact transfer.part_nonempty below

/-- A frame of the transfer is taken. -/
theorem Follows.collect (follows : transfer.Follows decoders shown ctx held) (reads_hex : ReadsHex decoders)
    (aligned : transfer.Aligned) (heap : Heap) (below : index < transfer.num_parts) :
    ∃ after held', bbqr_collect decoders heap ctx (transfer.frame index) = .ok (after.progress, after) ∧
      transfer.Follows decoders (fun other => other = index ∨ shown other) after held' := by
  have reads := reads_frame reads_hex aligned below (follows.own index)
  have part := transfer.decoded_frame reads_hex aligned below
  have collecting := follows.collects.num_parts_ne
  -- What is held at a seen index is the part of this frame, so the collection never restarts.
  have same_held : bit ctx.seen index = true →
      ¬ Differs ctx (transfer.head index) (decoded decoders (transfer.head index) (transfer.frame index)) := by
    intro set differs
    obtain ⟨extent, holds⟩ := follows.holds index below ((follows.seen index below).mp set)
    rw [part] at differs
    refine differs ⟨extent, ?_⟩
    rw [follows.collects.buffer, follows.block_len]
    exact holds
  have goes_on : ¬ (ctx = Ctx.zero ∨ RepeatsDifferently decoders ctx (transfer.frame index)) := by
    rintro (rfl | ⟨head, reads', -, set, differs⟩)
    · exact collecting rfl
    · obtain rfl := reads.unique reads'
      exact same_held set differs
  obtain ⟨result, run, collected⟩ := bbqr_collect_cases heap (.inr ⟨held, follows.collects⟩) (transfer.frame index)
  cases collected with
  | passed_over passed => exact absurd reads (passed _)
  | again head reads' _ set _ =>
    obtain rfl := reads.unique reads'
    refine ⟨ctx, held, run, follows.congr ?_⟩
    intro other _
    constructor
    · exact .inr
    · rintro (rfl | come)
      · exact (follows.seen _ below).mp set
      · exact come
  | misfit head reads' _ _ misfit =>
    obtain rfl := reads.unique reads'
    rw [part] at misfit
    exact absurd (follows.fits below) misfit
  | another head found reads' found_collects unseen fits =>
    obtain rfl := reads.unique reads'
    obtain rfl := follows.collects.held_unique found_collects
    rw [part] at run
    exact ⟨_, _, run, follows.placed below unseen⟩
  | no_beginning head reads' restart _ => exact absurd restart goes_on
  | beginning head reads' restart _ => exact absurd restart goes_on

variable (transfer) in
/-- A frame that cannot be read, or that is of another transfer. -/
def Stray (decoders : Decoders) (data : Bytes) : Prop :=
  ∀ head, header data = some head → (decoded decoders head data).length = 0 ∨ head.encoding ≠ transfer.encoding ∨
    head.file_type ≠ transfer.file_type ∨ head.num_parts ≠ transfer.num_parts

theorem Follows.collect_stray (follows : transfer.Follows decoders shown ctx held) (heap : Heap) {data : Bytes}
    (stray : transfer.Stray decoders data) : bbqr_collect decoders heap ctx data = .ok (.REJECTED, ctx) := by
  have passed : PassedOver decoders ctx data := by
    intro head reads
    obtain ⟨encoding, file_type, num_parts⟩ := reads.parts follows.collects.num_parts_ne
    have read := reads.payload_read
    rcases stray head reads.header_read with empty | other | other | other
    · omega
    · exact other (encoding.trans follows.encoding)
    · exact other (file_type.trans follows.file_type)
    · exact other (num_parts.trans follows.num_parts)
  obtain ⟨result, run, collected⟩ := bbqr_collect_cases heap (.inr ⟨held, follows.collects⟩) data
  rw [run, collected.unique (.passed_over passed)]

variable (transfer) in
/-- What the transfer is worth to the caller. -/
def worth (decoders : Decoders) : Option Bytes :=
  if transfer.encoding = ascii 'Z' then inflation decoders transfer.payload else some transfer.payload

/-- The result is the payload when every part has come, and nothing before. -/
theorem Follows.finalise (follows : transfer.Follows decoders shown ctx held) :
    ∃ result after, bbqr_finalise decoders ctx = .ok (result, after) ∧ transfer.Follows decoders shown after held ∧
      ((∀ index < transfer.num_parts, shown index) →
        result = (transfer.worth decoders).map fun out => (out, transfer.file_type)) ∧
      (¬ (∀ index < transfer.num_parts, shown index) → result = none) := by
  by_cases complete : ctx.num_seen = ctx.num_parts
  · have all := follows.complete_iff.mp complete
    have result : delivered decoders ctx held = transfer.worth decoders := by
      rw [delivered, worth, follows.payload all, follows.encoding]
    refine ⟨_, _, bbqr_finalise_complete follows.collects complete, ?_, ?_, fun short => absurd all short⟩
    · have collects := finalised_collects follows.collects complete
      rw [finalised_shape] at collects ⊢
      exact { follows with collects := collects }
    · intro _
      rw [result, follows.file_type]
  · refine ⟨_, _, bbqr_finalise_incomplete (.inr complete), follows, ?_, fun _ => rfl⟩
    intro all
    exact absurd (follows.complete_iff.mpr all) complete

/-- The part that gives the block length opens the collection. -/
theorem opening_follows (heap : Heap) (below : index < transfer.num_parts)
    (full : index + 1 < transfer.num_parts ∨ transfer.num_parts = 1)
    (can : CanBegin (transfer.head index) (transfer.part index)) :
    ∃ held, transfer.Follows decoders (fun other => other = index)
      (opening heap (transfer.head index) (transfer.part index)) held := by
  have some_byte := transfer.part_nonempty below
  have begins := @begun_collects decoders (transfer.head index) (transfer.part index) heap ⟨below, transfer.parts.2⟩
    some_byte can.2
  have size : (transfer.part index).length = transfer.stride := by
    rw [transfer.part_length below, stride]
    by_cases single : transfer.num_parts = 1
    · rw [if_pos single, if_pos (by omega), single]
      omega
    · rw [if_neg single, if_neg (by omega)]
  have empty : transfer.Follows decoders (fun _ => False) (begun heap (transfer.head index) (transfer.part index))
      (malloc heap ((transfer.part index).length * transfer.num_parts)) := by
    refine ⟨begins, rfl, rfl, rfl, size, ?_, fun other _ come => come.elim⟩
    intro other _
    rw [show bit (begun heap (transfer.head index) (transfer.part index)).seen other = false from bit_zero other]
    simp
  refine ⟨_, (empty.placed below (bit_zero index)).congr ?_⟩
  intro other _
  simp

/-- A context the first frame of the transfer was taken in follows the transfer. -/
theorem follows_of_taken (reads_hex : ReadsHex decoders) {heap : Heap} {result : CollectResult}
    (below : index < transfer.num_parts) (full : index + 1 < transfer.num_parts ∨ transfer.num_parts = 1)
    (taken : bbqr_collect decoders heap Ctx.zero (transfer.frame index) = .ok (result, ctx))
    (accepted : result ≠ .REJECTED) :
    transfer.Aligned ∧ ∃ held, transfer.Follows decoders (fun other => other = index) ctx held := by
  obtain ⟨_, run, collected⟩ := @bbqr_collect_cases decoders Ctx.zero heap (.inl rfl) (transfer.frame index)
  rw [taken] at run
  cases run
  cases collected with
  | passed_over => exact absurd rfl accepted
  | again _ _ collecting => exact absurd rfl collecting
  | misfit => exact absurd rfl accepted
  | another _ _ _ collects => exact absurd rfl collects.num_parts_ne
  | no_beginning => exact absurd rfl accepted
  | beginning head reads _ can =>
    have same := reads.header_read
    rw [transfer.header_frame below] at same
    cases same
    have aligned := transfer.aligned_of_read below full reads.payload_read
    rw [transfer.decoded_frame reads_hex aligned below] at can ⊢
    exact ⟨aligned, opening_follows heap below full can⟩

/-! ### Whole runs -/

variable (transfer) in
/-- The calls of a run: frames of the transfer, strays, and requests for the result. -/
def Mixes (decoders : Decoders) : Call → Prop
  | .collect data _ => (∃ index < transfer.num_parts, data = transfer.frame index) ∨ transfer.Stray decoders data
  | .finalise => True

variable (transfer) in
/-- The frame at an index is among the calls. -/
def Shown (calls : List Call) (index : Nat) : Prop := ∃ heap, Call.collect (transfer.frame index) heap ∈ calls

theorem frame_inj {other : Nat} (below : index < transfer.num_parts) (below' : other < transfer.num_parts)
    (same : transfer.frame index = transfer.frame other) : index = other := by
  have heads := transfer.header_frame below
  rw [same, transfer.header_frame below'] at heads
  exact congrArg Header.index (Option.some.inj heads.symm)

theorem shown_cons {data : Bytes} {heap : Heap} {calls : List Call} :
    transfer.Shown (.collect data heap :: calls) index ↔ transfer.frame index = data ∨ transfer.Shown calls index := by
  constructor
  · rintro ⟨heap', member⟩
    rcases List.mem_cons.mp member with same | later
    · cases same
      exact .inl rfl
    · exact .inr ⟨heap', later⟩
  · rintro (rfl | ⟨heap', later⟩)
    · exact ⟨heap, List.mem_cons_self⟩
    · exact ⟨heap', List.mem_cons_of_mem _ later⟩

/-- The context holds the parts that have come, after any calls. -/
theorem Follows.run (reads_hex : ReadsHex decoders) (aligned : transfer.Aligned) {calls : List Call}
    (mixed : ∀ call ∈ calls, transfer.Mixes decoders call) (follows : transfer.Follows decoders shown ctx held) :
    ∃ held', transfer.Follows decoders (fun index => shown index ∨ transfer.Shown calls index)
      ((reader decoders).final ctx calls) held' := by
  induction calls generalizing shown ctx held with
  | nil =>
    refine ⟨held, follows.congr ?_⟩
    intro index _
    simp [Shown]
  | cons call rest ih =>
    have later : ∀ call ∈ rest, transfer.Mixes decoders call := fun other member => mixed other (List.mem_cons_of_mem _ member)
    rw [Machine.final_cons]
    cases call with
    | collect data heap =>
      rcases mixed _ List.mem_cons_self with ⟨index, below, rfl⟩ | stray
      · obtain ⟨after, held', run, follows'⟩ := follows.collect reads_hex aligned heap below
        have step : (reader decoders).step ctx (.collect (transfer.frame index) heap) = after := by
          simp [reader, Call.run, run]
        obtain ⟨final, done⟩ := ih later follows'
        rw [step]
        refine ⟨final, done.congr ?_⟩
        intro other below'
        have same : transfer.frame other = transfer.frame index ↔ other = index :=
          ⟨frame_inj below' below, fun same => by rw [same]⟩
        rw [shown_cons, same]
        tauto
      · have run := follows.collect_stray heap stray
        have step : (reader decoders).step ctx (.collect data heap) = ctx := by simp [reader, Call.run, run]
        obtain ⟨final, done⟩ := ih later follows
        rw [step]
        refine ⟨final, done.congr ?_⟩
        intro other below'
        have apart : transfer.frame other ≠ data := by
          rintro rfl
          have part := transfer.part_nonempty below'
          rcases stray _ (transfer.header_frame below') with empty | differs | differs | differs
          · rw [transfer.decoded_frame reads_hex aligned below'] at empty
            omega
          · exact differs rfl
          · exact differs rfl
          · exact differs rfl
        rw [shown_cons]
        tauto
    | finalise =>
      obtain ⟨result, after, run, follows', -, -⟩ := follows.finalise
      have step : (reader decoders).step ctx .finalise = after := by simp [reader, Call.run, run]
      obtain ⟨final, done⟩ := ih later follows'
      rw [step]
      refine ⟨final, done.congr ?_⟩
      intro other _
      simp [Shown]

end Transfer

/-- A payload cut into frames comes back. In a context that collects nothing, a part that
    gives the block length is taken; then come frames of the transfer in any order and
    number, strays, and requests for the result. A frame of the transfer is always taken,
    and completes the collection exactly when no index is missing; from then on the result
    is the payload, or its inflation, and before that there is none. -/
theorem bbqr_reassembles (decoders : Decoders) (reads_hex : ReadsHex decoders) (transfer : Transfer) (before : List Call)
    (empty : ((reader decoders).final Ctx.zero before).num_parts = 0) (start : Nat) (below : start < transfer.num_parts)
    (full : start + 1 < transfer.num_parts ∨ transfer.num_parts = 1) (heap : Heap) (first : CollectResult) (ctx : Ctx)
    (taken : bbqr_collect decoders heap ((reader decoders).final Ctx.zero before) (transfer.frame start) = .ok (first, ctx))
    (accepted : first ≠ .REJECTED) (calls : List Call) (mixed : ∀ call ∈ calls, transfer.Mixes decoders call) :
    let reached := (reader decoders).final ctx calls
    let come := fun index => index = start ∨ transfer.Shown calls index
    (∀ index < transfer.num_parts, ∀ heap, ∃ result after,
      bbqr_collect decoders heap reached (transfer.frame index) = .ok (result, after) ∧ result ≠ .REJECTED ∧
        (result = .COMPLETE ↔ ∀ other < transfer.num_parts, other = index ∨ come other)) ∧
    ∃ result after, bbqr_finalise decoders reached = .ok (result, after) ∧
      ((∀ index < transfer.num_parts, come index) →
        result = (transfer.worth decoders).map fun out => (out, transfer.file_type)) ∧
      (¬ (∀ index < transfer.num_parts, come index) → result = none) := by
  intro reached come
  have zero : (reader decoders).final Ctx.zero before = Ctx.zero := by
    rcases @reader_valid decoders before with same | ⟨held, collects⟩
    · exact same
    · exact absurd empty collects.num_parts_ne
  rw [zero] at taken
  obtain ⟨aligned, held, follows⟩ := Transfer.follows_of_taken reads_hex below full taken accepted
  obtain ⟨final, done⟩ := follows.run reads_hex aligned mixed
  refine ⟨?_, ?_⟩
  · intro index inside heap
    obtain ⟨after, held', run, follows'⟩ := done.collect reads_hex aligned heap inside
    exact ⟨after.progress, after, run, progress_ne_rejected after, follows'.progress_iff⟩
  · obtain ⟨result, after, run, -, all, short⟩ := done.finalise
    exact ⟨result, after, run, all, short⟩

/-- A reader of hex text, and an inflater that refuses everything. -/
def hexOnly : Decoders where
  wally_hex_n_to_bytes text out_len := if text.length / 2 ≤ out_len then read text else none
  tinfl_decompress _ _ := { done := false, consumed := 0, produced := [] }
where
  digit (c : UInt8) : Option Nat := (base36 c).filter (· < 16)
  read : Bytes → Option Bytes
    | [] => some []
    | [_] => none
    | high :: low :: rest =>
      match digit high, digit low, read rest with
      | some high, some low, some bytes => some (UInt8.ofNat (high * 16 + low) :: bytes)
      | _, _, _ => none

theorem hexOnly_reads : ReadsHex hexOnly := by
  have digits : ∀ value : Fin 16, hexOnly.digit (digitChar value) = some value.val := by decide
  have read : ∀ bytes : Bytes, hexOnly.read (hexText bytes) = some bytes := by
    intro bytes
    induction bytes with
    | nil => rfl
    | cons byte rest ih =>
      have bound := byte.toNat_lt
      have high := digits ⟨byte.toNat / 16, by omega⟩
      have low := digits ⟨byte.toNat % 16, by omega⟩
      have joined : byte.toNat / 16 * 16 + byte.toNat % 16 = byte.toNat := by omega
      simp only at high low
      show hexOnly.read (digitChar (byte.toNat / 16) :: digitChar (byte.toNat % 16) :: hexText rest) = _
      rw [hexOnly.read, high, low, ih]
      dsimp only
      rw [joined, UInt8.ofNat_toNat]
  intro bytes out_len room
  show (if (hexText bytes).length / 2 ≤ out_len then hexOnly.read (hexText bytes) else none) = _
  rw [hexText_length, if_pos (by omega), read]

/-- Six bytes in two base32 frames. -/
def sixBytes : Transfer where
  payload := [1, 2, 3, 4, 5, 6]
  block_len := 5
  num_parts := 2
  encoding := ascii '2'
  file_type := ascii 'P'
  parts := by decide
  cut := by decide
  room := by decide
  known_encoding := by decide
  known_file_type := by decide
  frames_fit := by decide

theorem bbqr_reassembles_sixBytes :
    ∃ ctx, bbqr_collect hexOnly (fun _ => 0) Ctx.zero (sixBytes.frame 0) = .ok (.IN_PROGRESS, ctx) ∧
      ∃ after, bbqr_finalise hexOnly ((reader hexOnly).final ctx [.collect (sixBytes.frame 1) (fun _ => 0)]) =
        .ok (some ([1, 2, 3, 4, 5, 6], ascii 'P'), after) := by
  obtain ⟨ctx, taken⟩ : ∃ ctx, bbqr_collect hexOnly (fun _ => 0) Ctx.zero (sixBytes.frame 0) = .ok (.IN_PROGRESS, ctx) :=
    ⟨_, rfl⟩
  refine ⟨ctx, taken, ?_⟩
  obtain ⟨-, result, after, run, whole, -⟩ := bbqr_reassembles hexOnly hexOnly_reads sixBytes [] rfl 0 (by decide)
    (by decide) (fun _ => 0) .IN_PROGRESS ctx taken (by decide) [.collect (sixBytes.frame 1) (fun _ => 0)]
    (by
      intro call member
      rw [List.mem_singleton] at member
      subst member
      exact .inl ⟨1, by decide, rfl⟩)
  refine ⟨after, ?_⟩
  rw [run, whole]
  · rfl
  · intro index below
    have either : index = 0 ∨ index = 1 := by
      have bound : index < 2 := below
      omega
    rcases either with rfl | rfl
    · exact .inl rfl
    · exact .inr ⟨_, List.mem_singleton.mpr rfl⟩

end PiJade.Bbqr
