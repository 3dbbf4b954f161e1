import Mathlib.Data.Finset.Card
import Mathlib.Data.Finset.Range
import Mathlib.Data.Nat.Bitwise
import PiJade.Bbqr
import PiJade.Machine

/-!
What a BBQr context always satisfies. A context is zeroed, or it collects: its buffer is a
grid of blocks, one for each part, and the bitmap, the counters and the grid agree. From
this no access leaves a buffer and no assertion fails. What the buffer holds at a place
whose part has not come is never read, so nothing of an earlier transfer comes back.
-/
namespace PiJade.Bbqr
set_option linter.unusedSimpArgs false

/-! ### The bitmap -/

def bit (seen : Bytes) (index : Nat) : Bool := (seen.getD (index / 8) 0).toNat.testBit (index % 8)

/-- The indices whose bits are set. -/
def setBits (seen : Bytes) : Finset Nat := (Finset.range (8 * seen.length)).filter fun index => bit seen index

def markBit (seen : Bytes) (index : Nat) : Bytes :=
  seen.set (index / 8) (seen.getD (index / 8) 0 ||| 1 <<< UInt8.ofNat (index % 8))

theorem toNat_shifted_one {k : Nat} (small : k < 8) : ((1 : UInt8) <<< UInt8.ofNat k).toNat = 2 ^ k := by
  interval_cases k <;> rfl

theorem and_shifted_one (byte : UInt8) {k : Nat} (small : k < 8) :
    (byte &&& 1 <<< UInt8.ofNat k ≠ 0) ↔ byte.toNat.testBit k = true := by
  rw [← UInt8.toNat_inj.ne, UInt8.toNat_and, toNat_shifted_one small, Nat.and_two_pow]
  have positive : 0 < 2 ^ k := Nat.two_pow_pos k
  cases byte.toNat.testBit k <;> simp

theorem getD_of_lt {seen : Bytes} {i : Nat} (inside : i < seen.length) : seen[i]? = some (seen.getD i 0) := by
  rw [List.getD_eq_getElem?_getD, List.getElem?_eq_getElem inside]
  rfl

theorem part_seen_eq {ctx : Ctx} {index : Nat} (inside : index < 8 * ctx.seen.length) :
    part_seen ctx index = .ok (bit ctx.seen index) := by
  have byte := @getD_of_lt ctx.seen (index / 8) (by omega)
  rw [part_seen, byte]
  simp only [Except.ok.injEq]
  rw [Bool.eq_iff_iff, decide_eq_true_iff]
  exact and_shifted_one _ (Nat.mod_lt _ (by decide))

theorem mark_part_seen_eq {ctx : Ctx} {index : Nat} (inside : index < 8 * ctx.seen.length) :
    mark_part_seen ctx index = .ok { ctx with seen := markBit ctx.seen index } := by
  have byte := @getD_of_lt ctx.seen (index / 8) (by omega)
  rw [mark_part_seen, byte]
  rfl

@[simp] theorem markBit_length (seen : Bytes) (index : Nat) : (markBit seen index).length = seen.length := by
  simp [markBit]

theorem bit_markBit {seen : Bytes} {index : Nat} (inside : index < 8 * seen.length) (other : Nat) :
    bit (markBit seen index) other = (decide (other = index) || bit seen other) := by
  have room : index / 8 < seen.length := by omega
  by_cases byte : other / 8 = index / 8
  · have value : (markBit seen index).getD (other / 8) 0 =
        seen.getD (other / 8) 0 ||| 1 <<< UInt8.ofNat (index % 8) := by
      rw [markBit, byte, List.getD_eq_getElem?_getD, List.getElem?_set_self room]
      rfl
    rw [bit, value, UInt8.toNat_or, Nat.testBit_or, toNat_shifted_one (Nat.mod_lt _ (by decide)), Nat.testBit_two_pow,
      Bool.or_comm, bit]
    congr 1
    apply decide_eq_decide.mpr
    omega
  · have value : (markBit seen index).getD (other / 8) 0 = seen.getD (other / 8) 0 := by
      rw [markBit, List.getD_eq_getElem?_getD, List.getElem?_set_ne (Ne.symm byte), ← List.getD_eq_getElem?_getD]
    have differs : other ≠ index := by
      rintro rfl
      exact byte rfl
    rw [bit, value, ← bit]
    simp [differs]

theorem mem_setBits {seen : Bytes} {index : Nat} :
    index ∈ setBits seen ↔ index < 8 * seen.length ∧ bit seen index = true := by
  simp [setBits]

theorem setBits_markBit {seen : Bytes} {index : Nat} (inside : index < 8 * seen.length) :
    setBits (markBit seen index) = insert index (setBits seen) := by
  ext other
  simp only [mem_setBits, markBit_length, bit_markBit inside, Finset.mem_insert, Bool.or_eq_true, decide_eq_true_eq]
  constructor
  · rintro ⟨below, rfl | set⟩
    · exact .inl rfl
    · exact .inr ⟨below, set⟩
  · rintro (rfl | ⟨below, set⟩)
    · exact ⟨inside, .inl rfl⟩
    · exact ⟨below, .inr set⟩

/-! ### The buffer -/

/-- The buffer after a `memcpy` inside it. -/
def written (held : Bytes) (offset : Nat) (part : Bytes) : Bytes :=
  held.take offset ++ part ++ held.drop (offset + part.length)

theorem written_length {held part : Bytes} {offset : Nat} (fits : offset + part.length ≤ held.length) :
    (written held offset part).length = held.length := by
  simp only [written, List.length_append, List.length_take, List.length_drop]
  omega

theorem getElem?_written {held part : Bytes} {offset : Nat} (fits : offset + part.length ≤ held.length) (k : Nat) :
    (written held offset part)[k]? = if offset ≤ k ∧ k < offset + part.length then part[k - offset]? else held[k]? := by
  have front : (held.take offset).length = offset := by rw [List.length_take]; omega
  by_cases before : k < offset
  · rw [if_neg (by omega), written, List.append_assoc, List.getElem?_append_left (by omega), List.getElem?_take_of_lt before]
  · rw [written, List.append_assoc, List.getElem?_append_right (by omega), front]
    by_cases inside : k - offset < part.length
    · rw [if_pos (by omega), List.getElem?_append_left inside]
    · rw [if_neg (by omega), List.getElem?_append_right (by omega), List.getElem?_drop]
      congr 1
      omega

/-- The bytes from an offset on are these. -/
def HoldsAt (held : Bytes) (offset : Nat) (part : Bytes) : Prop :=
  ∀ k < part.length, held[offset + k]? = part[k]?

theorem take_drop_eq_iff {held part : Bytes} {offset : Nat} :
    (held.drop offset).take part.length = part ↔ HoldsAt held offset part := by
  constructor
  · intro same k below
    rw [← List.getElem?_drop, ← List.getElem?_take_of_lt below, same]
  · intro holds
    apply List.ext_getElem?
    intro k
    by_cases below : k < part.length
    · rw [List.getElem?_take_of_lt below, List.getElem?_drop, holds k below]
    · rw [List.getElem?_eq_none (by rw [List.length_take]; omega), List.getElem?_eq_none (by omega)]

theorem written_holdsAt {held part : Bytes} {offset : Nat} (fits : offset + part.length ≤ held.length) :
    HoldsAt (written held offset part) offset part := by
  intro k below
  rw [getElem?_written fits, if_pos (by omega)]
  congr 1
  omega

theorem memcpy_inside {held part : Bytes} {offset : Nat} (fits : offset + part.length ≤ held.length) :
    memcpy (some held) offset part = .ok (written held offset part) := by
  simp only [memcpy, if_pos fits]
  rfl

theorem memcmp_inside {held part : Bytes} {offset : Nat} (fits : offset + part.length ≤ held.length) :
    memcmp (some held) offset part = .ok (decide ((held.drop offset).take part.length = part)) := by
  simp only [memcmp, if_pos fits]

theorem front_inside {held : Bytes} {len : Nat} (fits : len ≤ held.length) : front (some held) len = .ok (held.take len) := by
  simp only [front, if_pos fits]

/-! ### Contexts that collect -/

/-- How much of a block its part fills. -/
def Ctx.extent (ctx : Ctx) (index : Nat) : Nat := if index = ctx.num_parts - 1 then ctx.final_len else ctx.block_len

def Ctx.total (ctx : Ctx) : Nat := ctx.block_len * (ctx.num_parts - 1) + ctx.final_len

section
variable (decoders : Decoders)

structure Collects (ctx : Ctx) (held : Bytes) : Prop where
  buffer : ctx.data = some held
  held_len : held.length = ctx.data_len
  grid : ctx.data_len = ctx.block_len * ctx.num_parts
  room : ctx.data_len ≤ MAX_INPUT_MSG_SIZE
  block : 1 ≤ ctx.block_len
  parts : 1 ≤ ctx.num_parts ∧ ctx.num_parts ≤ BBQR_MAX_PARTS
  bitmap : ctx.seen.length = (BBQR_MAX_PARTS + 7) / 8
  counted : ctx.num_seen = (setBits ctx.seen).card
  inside : ∀ index ∈ setBits ctx.seen, index < ctx.num_parts
  final : bit ctx.seen (ctx.num_parts - 1) = true → 1 ≤ ctx.final_len ∧ ctx.final_len ≤ ctx.block_len
  inflated : ∀ out, ctx.inflated = some out → ctx.inflated_len = out.length ∧ ctx.num_seen = ctx.num_parts ∧
    inflation decoders (held.take ctx.total) = some out

/-- A context is zeroed or it collects. -/
def Valid (ctx : Ctx) : Prop := ctx = Ctx.zero ∨ ∃ held, Collects decoders ctx held

variable {decoders} {ctx : Ctx} {held : Bytes}

theorem Collects.bits_room (collects : Collects decoders ctx held) {index : Nat} (below : index < ctx.num_parts) :
    index < 8 * ctx.seen.length := by
  have most := collects.parts.2
  rw [collects.bitmap]
  simp only [BBQR_MAX_PARTS] at most ⊢
  omega

/-- A block lies inside the buffer. -/
theorem Collects.block_room (collects : Collects decoders ctx held) {index : Nat} (below : index < ctx.num_parts) :
    index * ctx.block_len + ctx.block_len ≤ held.length := by
  rw [collects.held_len, collects.grid, ← Nat.succ_mul, Nat.mul_comm ctx.block_len]
  exact Nat.mul_le_mul_right _ below

theorem Collects.extent_le (collects : Collects decoders ctx held) {index : Nat} (set : bit ctx.seen index = true) :
    ctx.extent index ≤ ctx.block_len := by
  rw [Ctx.extent]
  split
  case isTrue last =>
    rw [last] at set
    exact (collects.final set).2
  case isFalse => exact Nat.le_refl _

theorem Collects.complete_iff (collects : Collects decoders ctx held) :
    ctx.num_seen = ctx.num_parts ↔ ∀ index < ctx.num_parts, bit ctx.seen index = true := by
  have subset : setBits ctx.seen ⊆ Finset.range ctx.num_parts := by
    intro index member
    exact Finset.mem_range.mpr (collects.inside index member)
  rw [collects.counted]
  constructor
  · intro full index below
    have same := Finset.eq_of_subset_of_card_le subset (by rw [Finset.card_range, full])
    have member : index ∈ setBits ctx.seen := by
      rw [same]
      exact Finset.mem_range.mpr below
    exact (mem_setBits.mp member).2
  · intro all
    have same : setBits ctx.seen = Finset.range ctx.num_parts := by
      apply Finset.Subset.antisymm subset
      intro index member
      have below := Finset.mem_range.mp member
      exact mem_setBits.mpr ⟨collects.bits_room below, all index below⟩
    rw [same, Finset.card_range]

/-- A complete collection has a length between one byte and the whole buffer. -/
theorem Collects.total_bounds (collects : Collects decoders ctx held) (complete : ctx.num_seen = ctx.num_parts) :
    0 < ctx.total ∧ ctx.total ≤ ctx.data_len := by
  have last := collects.complete_iff.mp complete (ctx.num_parts - 1) (by have := collects.parts.1; omega)
  obtain ⟨some_byte, most⟩ := collects.final last
  have split : ctx.block_len * ctx.num_parts = ctx.block_len * (ctx.num_parts - 1) + ctx.block_len := by
    obtain ⟨n, count⟩ : ∃ n, ctx.num_parts = n + 1 := ⟨ctx.num_parts - 1, by have := collects.parts.1; omega⟩
    rw [count, Nat.add_sub_cancel, Nat.mul_succ]
  rw [Ctx.total, collects.grid, split]
  omega

end
/-! ### One part -/

theorem base36_le {c : UInt8} {digit : Nat} (read : base36 c = some digit) : digit ≤ 35 := by
  have bounds : (ascii '0').toNat = 48 ∧ (ascii 'A').toNat = 65 := by decide
  rw [base36] at read
  split at read
  case isTrue range =>
    have high : c.toNat ≤ 57 := range.2
    cases read
    omega
  case isFalse =>
    split at read
    case isTrue range =>
      have high : c.toNat ≤ 90 := range.2
      cases read
      omega
    case isFalse => cases read

theorem parse_base36_pair_le {first second : UInt8} {value : Nat} (read : parse_base36_pair first second = some value) :
    value ≤ BBQR_MAX_PARTS := by
  rw [parse_base36_pair] at read
  split at read
  case h_1 high low first_read second_read =>
    have highest := base36_le first_read
    have lowest := base36_le second_read
    cases read
    simp only [BBQR_MAX_PARTS]
    omega
  case h_2 => cases read

/-- A header names one of at most 1295 parts. -/
theorem header_bounds {data : Bytes} {head : Header} (read : header data = some head) :
    head.index < head.num_parts ∧ head.num_parts ≤ BBQR_MAX_PARTS := by
  rw [header] at read
  split at read
  case isTrue => cases read
  case isFalse =>
    split at read
    case isTrue => cases read
    case isFalse =>
      split at read
      case h_1 num_parts index parts_read index_read =>
        split at read
        case isTrue => cases read
        case isFalse named =>
          cases read
          exact ⟨by simp only; omega, parse_base36_pair_le parts_read⟩
      case h_2 => cases read

/-- A part that may stand at its place. -/
def Fits (ctx : Ctx) (head : Header) (part : Bytes) : Prop :=
  if head.is_final then part.length ≤ ctx.block_len else part.length = ctx.block_len

instance (ctx : Ctx) (head : Header) (part : Bytes) : Decidable (Fits ctx head part) := by
  unfold Fits
  infer_instance

/-- The context with one more part in its place. -/
def placed (ctx : Ctx) (held : Bytes) (head : Header) (part : Bytes) : Ctx :=
  { ctx with
    data := some (written held (head.index * ctx.block_len) part)
    final_len := if head.is_final then part.length else ctx.final_len
    seen := markBit ctx.seen head.index
    num_seen := ctx.num_seen + 1 }

/-- The context when a collection begins. -/
def begun (heap : Heap) (head : Header) (part : Bytes) : Ctx :=
  { Ctx.zero with
    data := some (malloc heap (part.length * head.num_parts))
    data_len := part.length * head.num_parts
    block_len := part.length
    num_parts := head.num_parts
    encoding := head.encoding
    file_type := head.file_type }

theorem Fits.le {ctx : Ctx} {head : Header} {part : Bytes} (fits : Fits ctx head part) : part.length ≤ ctx.block_len := by
  rw [Fits] at fits
  split at fits
  case isTrue => exact fits
  case isFalse => exact Nat.le_of_eq fits

section
variable {decoders : Decoders} {ctx : Ctx} {held : Bytes} {head : Header} {part : Bytes}

theorem begun_fits (heap : Heap) (head : Header) (part : Bytes) : Fits (begun heap head part) head part := by
  rw [Fits]
  split
  · exact Nat.le_refl _
  · rfl

theorem Collects.part_room (collects : Collects decoders ctx held) (below : head.index < ctx.num_parts)
    (fits : Fits ctx head part) : head.index * ctx.block_len + part.length ≤ held.length := by
  have room := collects.block_room below
  have most := fits.le
  omega

theorem place_misfit (misfit : ¬ Fits ctx head part) : place ctx head part = .ok (.REJECTED, ctx) := by
  rw [place, if_pos]
  rw [Fits] at misfit
  cases last : head.is_final with
  | true =>
    simp only [last, ↓reduceIte] at misfit ⊢
    omega
  | false =>
    simp only [last, Bool.false_eq_true, ↓reduceIte] at misfit ⊢
    exact misfit

theorem place_fits (collects : Collects decoders ctx held) (below : head.index < ctx.num_parts)
    (fits : Fits ctx head part) :
    place ctx head part = .ok ((placed ctx held head part).progress, placed ctx held head part) := by
  have room := collects.part_room below fits
  rw [place, if_neg]
  · rw [collects.buffer, memcpy_inside room, Check.ok_bind]
    dsimp only
    rw [mark_part_seen_eq (by exact collects.bits_room below)]
    rfl
  · rw [Fits] at fits
    cases last : head.is_final with
    | true =>
      simp only [last, ↓reduceIte] at fits ⊢
      omega
    | false =>
      simp only [last, Bool.false_eq_true, ↓reduceIte, not_not] at fits ⊢
      exact fits

theorem bit_zero (index : Nat) : bit Ctx.zero.seen index = false := by
  have zero : Ctx.zero.seen.getD (index / 8) 0 = 0 := by
    rw [Ctx.zero, List.getD_eq_getElem?_getD, List.getElem?_replicate]
    split <;> rfl
  rw [bit, zero]
  simp

/-- A part in a place of its own keeps a context that collects. -/
theorem Collects.placed (collects : Collects decoders ctx held) (parts : head.num_parts = ctx.num_parts)
    (below : head.index < ctx.num_parts) (fits : Fits ctx head part) (some_byte : 1 ≤ part.length)
    (unseen : bit ctx.seen head.index = false) :
    Collects decoders (placed ctx held head part) (written held (head.index * ctx.block_len) part) := by
  have bits := collects.bits_room below
  constructor
  case buffer => rfl
  case held_len => rw [written_length (collects.part_room below fits)]; exact collects.held_len
  case grid => exact collects.grid
  case room => exact collects.room
  case block => exact collects.block
  case parts => exact collects.parts
  case bitmap =>
    show (markBit ctx.seen head.index).length = _
    rw [markBit_length, collects.bitmap]
  case counted =>
    show ctx.num_seen + 1 = (setBits (markBit ctx.seen head.index)).card
    have outside : head.index ∉ setBits ctx.seen := by
      intro member
      rw [(mem_setBits.mp member).2] at unseen
      cases unseen
    rw [setBits_markBit bits, Finset.card_insert_of_notMem outside, collects.counted]
  case inside =>
    intro index member
    have either : index ∈ insert head.index (setBits ctx.seen) := by
      rw [← setBits_markBit bits]
      exact member
    rcases Finset.mem_insert.mp either with rfl | earlier
    · exact below
    · exact collects.inside index earlier
  case final =>
    intro last
    show 1 ≤ (if head.is_final then part.length else ctx.final_len) ∧
      (if head.is_final then part.length else ctx.final_len) ≤ ctx.block_len
    have marked : bit (markBit ctx.seen head.index) (ctx.num_parts - 1) = true := last
    rw [bit_markBit bits] at marked
    cases is_final : head.is_final with
    | true =>
      simp only [↓reduceIte]
      exact ⟨some_byte, fits.le⟩
    | false =>
      simp only [Bool.false_eq_true, ↓reduceIte]
      have differs : ctx.num_parts - 1 ≠ head.index := by
        rw [Header.is_final, parts] at is_final
        intro same
        simp [same] at is_final
      simp only [differs, decide_false, Bool.false_or] at marked
      exact collects.final marked
  case inflated =>
    -- The inflated bytes come with the last part, and this one was missing.
    intro out inflated
    obtain ⟨-, complete, -⟩ := collects.inflated out inflated
    rw [collects.complete_iff.mp complete head.index below] at unseen
    cases unseen

theorem begun_collects (heap : Heap) (bounds : head.index < head.num_parts ∧ head.num_parts ≤ BBQR_MAX_PARTS)
    (some_byte : 1 ≤ part.length) (room : part.length * head.num_parts ≤ MAX_INPUT_MSG_SIZE) :
    Collects decoders (begun heap head part) (malloc heap (part.length * head.num_parts)) := by
  have empty : setBits Ctx.zero.seen = ∅ := by
    apply Finset.eq_empty_of_forall_notMem
    intro index member
    have set := (mem_setBits.mp member).2
    rw [bit_zero] at set
    cases set
  constructor
  case buffer => rfl
  case held_len => simp [malloc, begun]
  case grid => rfl
  case room => exact room
  case block => exact some_byte
  case parts => exact ⟨by show 1 ≤ head.num_parts; omega, bounds.2⟩
  case bitmap => simp [begun, Ctx.zero]
  case counted =>
    show 0 = (setBits Ctx.zero.seen).card
    rw [empty, Finset.card_empty]
  case inside =>
    intro index member
    have none : index ∈ (∅ : Finset Nat) := by
      rw [← empty]
      exact member
    simp at none
  case final =>
    intro last
    have none := bit_zero (head.num_parts - 1)
    rw [show bit Ctx.zero.seen (head.num_parts - 1) = true from last] at none
    cases none
  case inflated =>
    intro out inflated
    cases inflated

end

/-! ### One frame -/

/-- The context after the part that opens a collection. -/
def opening (heap : Heap) (head : Header) (part : Bytes) : Ctx :=
  placed (begun heap head part) (malloc heap (part.length * head.num_parts)) head part

section
variable (decoders : Decoders)

/-- A frame whose header and payload are read, and are of the transfer collected. -/
structure Reads (ctx : Ctx) (data : Bytes) (head : Header) : Prop where
  header_read : header data = some head
  own : foreign ctx head = false
  payload_read : 1 ≤ (decoded decoders head data).length

/-- The part of a frame is not what is held at its index. -/
def Differs (ctx : Ctx) (head : Header) (part : Bytes) : Prop :=
  ¬ (ctx.extent head.index = part.length ∧ HoldsAt (ctx.data.getD []) (head.index * ctx.block_len) part)

/-- A frame that repeats a seen index of the transfer with different content. -/
def RepeatsDifferently (ctx : Ctx) (data : Bytes) : Prop :=
  ∃ head, Reads decoders ctx data head ∧ ctx.num_parts ≠ 0 ∧ bit ctx.seen head.index = true ∧
    Differs ctx head (decoded decoders head data)

/-- Why a frame is passed over at first sight. -/
def PassedOver (ctx : Ctx) (data : Bytes) : Prop := ∀ head, ¬ Reads decoders ctx data head

def CanBegin (head : Header) (part : Bytes) : Prop :=
  ¬ (head.is_final = true ∧ 1 < head.num_parts) ∧ part.length * head.num_parts ≤ MAX_INPUT_MSG_SIZE

/-- What becomes of a frame, by what is held when it comes. -/
inductive Collected (heap : Heap) (ctx : Ctx) (data : Bytes) : CollectResult × Ctx → Prop where
  | passed_over (passed : PassedOver decoders ctx data) : Collected heap ctx data (.REJECTED, ctx)
  | again (head : Header) (reads : Reads decoders ctx data head) (collecting : ctx.num_parts ≠ 0)
      (seen : bit ctx.seen head.index = true) (same : ¬ Differs ctx head (decoded decoders head data)) :
      Collected heap ctx data (ctx.progress, ctx)
  | misfit (head : Header) (reads : Reads decoders ctx data head) (collecting : ctx.num_parts ≠ 0)
      (unseen : bit ctx.seen head.index = false) (misfit : ¬ Fits ctx head (decoded decoders head data)) :
      Collected heap ctx data (.REJECTED, ctx)
  | another (head : Header) (held : Bytes) (reads : Reads decoders ctx data head) (collects : Collects decoders ctx held)
      (unseen : bit ctx.seen head.index = false) (fits : Fits ctx head (decoded decoders head data)) :
      Collected heap ctx data ((placed ctx held head (decoded decoders head data)).progress,
        placed ctx held head (decoded decoders head data))
  | no_beginning (head : Header) (reads : Reads decoders ctx data head)
      (restart : ctx = Ctx.zero ∨ RepeatsDifferently decoders ctx data)
      (cannot : ¬ CanBegin head (decoded decoders head data)) : Collected heap ctx data (.REJECTED, Ctx.zero)
  | beginning (head : Header) (reads : Reads decoders ctx data head)
      (restart : ctx = Ctx.zero ∨ RepeatsDifferently decoders ctx data)
      (can : CanBegin head (decoded decoders head data)) :
      Collected heap ctx data ((opening heap head (decoded decoders head data)).progress,
        opening heap head (decoded decoders head data))

variable {decoders} {heap : Heap} {ctx : Ctx} {held : Bytes} {head : Header} {data : Bytes}

theorem Reads.unique {other : Header} (reads : Reads decoders ctx data head) (reads' : Reads decoders ctx data other) :
    head = other := by
  have same := reads.header_read
  rw [reads'.header_read] at same
  exact (Option.some.inj same).symm

theorem Reads.parts (reads : Reads decoders ctx data head) (collecting : ctx.num_parts ≠ 0) :
    head.encoding = ctx.encoding ∧ head.file_type = ctx.file_type ∧ head.num_parts = ctx.num_parts := by
  have own := reads.own
  simp only [foreign, collecting, ne_eq, not_false_eq_true, decide_true, Bool.true_and, Bool.or_eq_false_iff,
    decide_eq_false_iff_not, not_not] at own
  exact ⟨own.1.1.symm, own.1.2.symm, own.2.symm⟩

/-- In an empty context a part opens a collection, or is refused. -/
theorem begin_and_place_zero (decoders : Decoders) (heap : Heap) {part : Bytes}
    (bounds : head.index < head.num_parts ∧ head.num_parts ≤ BBQR_MAX_PARTS) (some_byte : 1 ≤ part.length) :
    begin_and_place heap Ctx.zero head part = .ok (.REJECTED, Ctx.zero) ∧ ¬ CanBegin head part ∨
      begin_and_place heap Ctx.zero head part = .ok ((opening heap head part).progress, opening heap head part) ∧
        CanBegin head part := by
  rw [begin_and_place, begin_collection, if_neg (by simp [Ctx.zero])]
  by_cases short : head.is_final = true ∧ 1 < head.num_parts
  · rw [if_pos short]
    exact .inl ⟨rfl, fun can => can.1 short⟩
  · rw [if_neg short]
    by_cases large : MAX_INPUT_MSG_SIZE < part.length * head.num_parts
    · rw [if_pos large]
      exact .inl ⟨rfl, fun can => Nat.not_le.mpr large can.2⟩
    · rw [if_neg large]
      have collects := @begun_collects decoders head part heap bounds some_byte (by omega)
      exact .inr ⟨place_fits collects bounds.1 (begun_fits heap head part), short, by omega⟩

/-- The part of a frame is compared with what is held at a seen index. -/
theorem same_part_cases (collects : Collects decoders ctx held) {part : Bytes} (parts : head.num_parts = ctx.num_parts)
    (below : head.index < ctx.num_parts) (seen : bit ctx.seen head.index = true) :
    same_part ctx head part = .ok true ∧ ¬ Differs ctx head part ∨
      same_part ctx head part = .ok false ∧ Differs ctx head part := by
  have extent : (if head.is_final then ctx.final_len else ctx.block_len) = ctx.extent head.index := by
    rw [Ctx.extent, Header.is_final, parts]
    simp only [decide_eq_true_eq]
  have held_data : ctx.data.getD [] = held := by rw [collects.buffer]; rfl
  rw [same_part, extent]
  by_cases length : ctx.extent head.index = part.length
  · have room : head.index * ctx.block_len + part.length ≤ held.length := by
      have block := collects.block_room below
      have most := collects.extent_le seen
      omega
    rw [if_pos length, collects.buffer, memcmp_inside room]
    by_cases same : HoldsAt held (head.index * ctx.block_len) part
    · left
      rw [decide_eq_true (take_drop_eq_iff.mpr same)]
      refine ⟨rfl, fun differs => differs ⟨length, ?_⟩⟩
      rw [held_data]
      exact same
    · right
      rw [decide_eq_false fun equal => same (take_drop_eq_iff.mp equal)]
      refine ⟨rfl, fun holds => same ?_⟩
      rw [← held_data]
      exact holds.2
  · rw [if_neg length]
    exact .inr ⟨rfl, fun holds => length holds.1⟩

/-- No frame makes `bbqr_collect` leave a buffer, and one of the named things becomes of
    it. -/
theorem bbqr_collect_cases (heap : Heap) (valid : Valid decoders ctx) (data : Bytes) :
    ∃ result, bbqr_collect decoders heap ctx data = .ok result ∧ Collected decoders heap ctx data result := by
  rw [bbqr_collect]
  cases read : header data with
  | none =>
    refine ⟨_, rfl, .passed_over fun head reads => ?_⟩
    rw [reads.header_read] at read
    cases read
  | some head =>
    dsimp only
    have bounds := header_bounds read
    by_cases own : foreign ctx head = true
    · rw [if_pos own]
      refine ⟨_, rfl, .passed_over fun other reads => ?_⟩
      have same := reads.header_read
      rw [read] at same
      cases same
      rw [reads.own] at own
      cases own
    · rw [if_neg own]
      by_cases empty : (decoded decoders head data).length = 0
      · rw [if_pos empty]
        refine ⟨_, rfl, .passed_over fun other reads => ?_⟩
        have same := reads.header_read
        rw [read] at same
        cases same
        have some_byte := reads.payload_read
        omega
      · rw [if_neg empty]
        have reads : Reads decoders ctx data head := ⟨read, by simpa using own, by omega⟩
        rcases valid with rfl | ⟨held, collects⟩
        · simp only [Ctx.zero, ne_eq, not_true_eq_false, ↓reduceIte, Check.ok_bind, Bool.false_eq_true]
          obtain ⟨run, cannot⟩ | ⟨run, can⟩ := begin_and_place_zero decoders heap bounds reads.payload_read
          · exact ⟨_, run, .no_beginning head reads (.inl rfl) cannot⟩
          · exact ⟨_, run, .beginning head reads (.inl rfl) can⟩
        · have collecting : ctx.num_parts ≠ 0 := by have := collects.parts.1; omega
          have parts := (reads.parts collecting).2.2
          have below : head.index < ctx.num_parts := by omega
          rw [if_pos collecting, part_seen_eq (collects.bits_room below), Check.ok_bind]
          cases seen : bit ctx.seen head.index with
          | true =>
            rw [if_pos rfl]
            obtain ⟨run, same⟩ | ⟨run, differs⟩ :=
              @same_part_cases _ _ _ _ collects (decoded decoders head data) parts below seen
            · rw [run, Check.ok_bind, if_pos rfl]
              exact ⟨_, rfl, .again head reads collecting seen same⟩
            · rw [run, Check.ok_bind, if_neg (by decide), collection_reset]
              have restart : ctx = Ctx.zero ∨ RepeatsDifferently decoders ctx data :=
                .inr ⟨head, reads, collecting, seen, differs⟩
              obtain ⟨run, cannot⟩ | ⟨run, can⟩ := begin_and_place_zero decoders heap bounds reads.payload_read
              · exact ⟨_, run, .no_beginning head reads restart cannot⟩
              · exact ⟨_, run, .beginning head reads restart can⟩
          | false =>
            rw [if_neg (by decide), begin_and_place, begin_collection, if_pos collecting]
            dsimp only
            by_cases fits : Fits ctx head (decoded decoders head data)
            · exact ⟨_, place_fits collects below fits, .another head held reads collects seen fits⟩
            · exact ⟨_, place_misfit fits, .misfit head reads collecting seen fits⟩

theorem Collects.num_parts_ne (collects : Collects decoders ctx held) : ctx.num_parts ≠ 0 := by
  have parts := collects.parts.1
  omega

theorem Collects.held_unique {other : Bytes} (collects : Collects decoders ctx held)
    (collects' : Collects decoders ctx other) : held = other := by
  have same := collects.buffer
  rw [collects'.buffer] at same
  exact (Option.some.inj same).symm

/-- What becomes of a frame is settled by the context and the frame. -/
theorem Collected.unique {result result' : CollectResult × Ctx} (one : Collected decoders heap ctx data result)
    (two : Collected decoders heap ctx data result') : result = result' := by
  have zero : ctx = Ctx.zero → ctx.num_parts = 0 := by
    rintro rfl
    rfl
  cases one <;> cases two
  all_goals grind [PassedOver, Reads.unique, RepeatsDifferently, Collects.num_parts_ne, Collects.held_unique]

theorem Reads.bounds (reads : Reads decoders ctx data head) :
    head.index < head.num_parts ∧ head.num_parts ≤ BBQR_MAX_PARTS := header_bounds reads.header_read

theorem opening_collects (heap : Heap) {part : Bytes}
    (bounds : head.index < head.num_parts ∧ head.num_parts ≤ BBQR_MAX_PARTS) (some_byte : 1 ≤ part.length)
    (can : CanBegin head part) :
    Collects decoders (opening heap head part)
      (written (malloc heap (part.length * head.num_parts)) (head.index * part.length) part) := by
  have begins := @begun_collects decoders head part heap bounds some_byte can.2
  apply begins.placed rfl bounds.1 (begun_fits heap head part) some_byte
  exact bit_zero head.index

/-- Frames keep contexts valid. -/
theorem Collected.valid {result : CollectResult × Ctx} (collected : Collected decoders heap ctx data result)
    (valid : Valid decoders ctx) : Valid decoders result.2 := by
  cases collected with
  | passed_over => exact valid
  | again => exact valid
  | misfit => exact valid
  | another head held reads collects unseen fits =>
    have parts := (reads.parts collects.num_parts_ne).2.2
    exact .inr ⟨_, collects.placed parts (parts ▸ reads.bounds.1) fits reads.payload_read unseen⟩
  | no_beginning => exact .inl rfl
  | beginning head reads restart can => exact .inr ⟨_, opening_collects heap reads.bounds reads.payload_read can⟩

theorem progress_ne_rejected (ctx : Ctx) : ctx.progress ≠ .REJECTED := by
  rw [Ctx.progress]
  split
  · exact fun same => by cases same
  · exact fun same => by cases same

/-- A refused frame changes nothing, unless it repeats an index with different content;
    then nothing is left. -/
theorem Collected.rejected {result : CollectResult × Ctx} (collected : Collected decoders heap ctx data result)
    (refused : result.1 = .REJECTED) :
    (¬ RepeatsDifferently decoders ctx data → result.2 = ctx) ∧
      (RepeatsDifferently decoders ctx data → result.2 = Ctx.zero) := by
  cases collected with
  | passed_over passed =>
    refine ⟨fun _ => rfl, ?_⟩
    rintro ⟨head, reads, -⟩
    exact absurd reads (passed head)
  | again => exact absurd refused (progress_ne_rejected _)
  | misfit head reads collecting unseen misfit =>
    refine ⟨fun _ => rfl, ?_⟩
    rintro ⟨other, reads', -, seen, -⟩
    rw [← reads.unique reads', unseen] at seen
    cases seen
  | another => exact absurd refused (progress_ne_rejected _)
  | no_beginning head reads restart cannot =>
    refine ⟨fun not_repeated => ?_, fun _ => rfl⟩
    rcases restart with rfl | repeated
    · rfl
    · exact absurd repeated not_repeated
  | beginning => exact absurd refused (progress_ne_rejected _)

end

/-! ### The result -/

section
variable (decoders : Decoders)

/-- What a complete collection is worth. -/
def delivered (ctx : Ctx) (held : Bytes) : Option Bytes :=
  if ctx.encoding = ascii 'Z' then inflation decoders (held.take ctx.total) else some (held.take ctx.total)

/-- The context with what has been inflated. -/
def finalised (ctx : Ctx) (held : Bytes) : Ctx :=
  if ctx.encoding = ascii 'Z' then
    match inflation decoders (held.take ctx.total) with
    | none => ctx
    | some out => { ctx with inflated := some out, inflated_len := out.length }
  else ctx

variable {decoders} {ctx : Ctx} {held : Bytes}

theorem bbqr_finalise_incomplete (incomplete : ctx.num_parts = 0 ∨ ctx.num_seen ≠ ctx.num_parts) :
    bbqr_finalise decoders ctx = .ok (none, ctx) := by
  rw [bbqr_finalise, if_pos]
  rcases incomplete with none | short
  · exact .inl none
  · exact .inr (.inl short)

theorem inflate_raw_deflate_eq (collects : Collects decoders ctx held) (complete : ctx.num_seen = ctx.num_parts) :
    inflate_raw_deflate decoders ctx ctx.total = .ok ((inflation decoders (held.take ctx.total)).map fun out =>
      { ctx with inflated := some out, inflated_len := out.length }) := by
  obtain ⟨some_byte, most⟩ := collects.total_bounds complete
  have inside : ctx.total ≤ held.length := by
    rw [collects.held_len]
    exact most
  have nonzero : decide (ctx.total ≠ 0) = true := decide_eq_true (by omega)
  simp only [inflate_raw_deflate, collects.buffer, Option.isSome_some, Check.ensure_true, nonzero, Check.ok_bind,
    front_inside inside]
  cases inflation decoders (held.take ctx.total) with
  | none => rfl
  | some out => rfl

theorem bbqr_finalise_complete (collects : Collects decoders ctx held) (complete : ctx.num_seen = ctx.num_parts) :
    bbqr_finalise decoders ctx =
      .ok ((delivered decoders ctx held).map fun out => (out, ctx.file_type), finalised decoders ctx held) := by
  obtain ⟨some_byte, most⟩ := collects.total_bounds complete
  have inside : ctx.total ≤ held.length := by
    rw [collects.held_len]
    exact most
  have asserted : (decide (ctx.total ≠ 0) && decide (ctx.total ≤ ctx.data_len)) = true := by
    simp only [Bool.and_eq_true, decide_eq_true_eq]
    omega
  have goes_on : ¬ (ctx.num_parts = 0 ∨ ctx.num_seen ≠ ctx.num_parts ∨ ctx.data = none) := by
    rw [collects.buffer]
    simp [collects.num_parts_ne, complete]
  rw [bbqr_finalise, if_neg goes_on]
  dsimp only
  rw [← Ctx.total, asserted, Check.ensure_true, Check.ok_bind, delivered, finalised]
  by_cases zipped : ctx.encoding = ascii 'Z'
  · simp only [if_pos zipped]
    cases cached : ctx.inflated with
    | none =>
      rw [inflate_raw_deflate_eq collects complete]
      cases inflation decoders (held.take ctx.total) with
      | none => rfl
      | some out =>
        simp only [Option.isSome_none, Bool.false_eq_true, ↓reduceIte, Option.map_some, Check.ok_bind,
          front_inside (Nat.le_refl out.length), List.take_length]
        rfl
    | some out =>
      obtain ⟨length, -, inflates⟩ := collects.inflated out cached
      have unchanged : { ctx with inflated := some out, inflated_len := out.length } = ctx := by
        rw [← cached, ← length]
      simp only [inflates, unchanged, Option.isSome_some, ↓reduceIte, Check.pure_eq, Check.ok_bind, cached, length,
        front_inside (Nat.le_refl out.length), List.take_length, Option.map_some]
  · simp only [if_neg zipped, collects.buffer, front_inside inside, Check.ok_bind, Check.pure_eq, Option.map_some]

theorem finalised_shape (decoders : Decoders) (ctx : Ctx) (held : Bytes) :
    finalised decoders ctx held = { ctx with
      inflated := (finalised decoders ctx held).inflated
      inflated_len := (finalised decoders ctx held).inflated_len } := by
  rw [finalised]
  split
  · cases inflation decoders (held.take ctx.total) <;> rfl
  · rfl

theorem finalised_collects (collects : Collects decoders ctx held) (complete : ctx.num_seen = ctx.num_parts) :
    Collects decoders (finalised decoders ctx held) held := by
  rw [finalised]
  split
  case isTrue =>
    split
    case h_1 => exact collects
    case h_2 out inflates =>
      exact { collects with
        inflated := by
          intro other same
          cases same
          exact ⟨rfl, complete, inflates⟩ }
  case isFalse => exact collects

end

/-! ### Runs -/

/-- A call on a context; a new buffer finds whatever the allocator gives it. -/
inductive Call where
  | collect (data : Bytes) (heap : Heap)
  | finalise

inductive Reply where
  | collected (result : CollectResult)
  | finalised (result : Option (Bytes × UInt8))
  deriving DecidableEq

section
variable (decoders : Decoders)

def Call.run (ctx : Ctx) : Call → Check Fault (Reply × Ctx)
  | collect data heap => do
    let (result, ctx) ← bbqr_collect decoders heap ctx data
    pure (.collected result, ctx)
  | finalise => do
    let (result, ctx) ← bbqr_finalise decoders ctx
    pure (.finalised result, ctx)

/-- A context and the calls on it. -/
def reader : Machine Ctx Call (Check Fault Reply) where
  step ctx call :=
    match call.run decoders ctx with
    | .ok (_, ctx) => ctx
    | .error _ => ctx
  out ctx call := some ((call.run decoders ctx).map Prod.fst)

/-- Two contexts that hold the same parts. Their buffers may differ where no part has
    come yet. -/
def Alike (ctx other : Ctx) : Prop :=
  ctx = Ctx.zero ∧ other = Ctx.zero ∨
    ∃ held held', Collects decoders ctx held ∧ Collects decoders other held' ∧
      other = { ctx with data := some held' } ∧
      ∀ index < ctx.num_parts, bit ctx.seen index = true → ∀ k < ctx.extent index,
        held[index * ctx.block_len + k]? = held'[index * ctx.block_len + k]?

variable {decoders} {ctx other : Ctx} {held held' : Bytes} {head : Header} {part : Bytes}

/-- Blocks do not overlap. -/
theorem block_disjoint {index index' block k k' : Nat} (differs : index ≠ index') (inside : k < block)
    (inside' : k' < block) : index * block + k ≠ index' * block + k' := by
  intro same
  have quotient := congrArg (· / block) same
  have positive : 0 < block := by omega
  simp only [Nat.mul_comm _ block, Nat.mul_add_div positive, Nat.div_eq_of_lt inside, Nat.div_eq_of_lt inside'] at quotient
  exact differs (by simpa using quotient)

/-- A part leaves the other blocks alone. -/
theorem getElem?_written_block {block index index' k : Nat} (room : index * block + part.length ≤ held.length)
    (most : part.length ≤ block) (differs : index' ≠ index) (inside : k < block) :
    (written held (index * block) part)[index' * block + k]? = held[index' * block + k]? := by
  rw [getElem?_written room, if_neg]
  rintro ⟨after, before⟩
  have apart := @block_disjoint index' index block k (index' * block + k - index * block) differs inside (by omega)
  omega

theorem extent_placed (parts : head.num_parts = ctx.num_parts) {index : Nat} (differs : index ≠ head.index) :
    (placed ctx held head part).extent index = ctx.extent index := by
  show (if index = ctx.num_parts - 1 then (if head.is_final then part.length else ctx.final_len) else ctx.block_len) = _
  rw [Ctx.extent]
  by_cases last : index = ctx.num_parts - 1
  · have earlier : head.is_final = false := by
      rw [Header.is_final, parts]
      exact decide_eq_false (by omega)
    simp [last, earlier]
  · simp [last]

theorem extent_placed_self (parts : head.num_parts = ctx.num_parts) (fits : Fits ctx head part) :
    (placed ctx held head part).extent head.index = part.length := by
  show (if head.index = ctx.num_parts - 1 then (if head.is_final then part.length else ctx.final_len)
    else ctx.block_len) = _
  rw [Fits] at fits
  have final : head.is_final = decide (head.index = ctx.num_parts - 1) := by rw [Header.is_final, parts]
  by_cases last : head.index = ctx.num_parts - 1
  · rw [if_pos last, final, decide_eq_true last, if_pos rfl]
  · rw [final, decide_eq_false last, if_neg (by decide)] at fits
    rw [if_neg last, fits]

theorem alike_placed (collects : Collects decoders ctx held)
    (collects' : Collects decoders { ctx with data := some held' } held') (parts : head.num_parts = ctx.num_parts)
    (below : head.index < ctx.num_parts) (fits : Fits ctx head part) (some_byte : 1 ≤ part.length)
    (unseen : bit ctx.seen head.index = false)
    (same : ∀ index < ctx.num_parts, bit ctx.seen index = true → ∀ k < ctx.extent index,
      held[index * ctx.block_len + k]? = held'[index * ctx.block_len + k]?) :
    Alike decoders (placed ctx held head part) (placed { ctx with data := some held' } held' head part) := by
  refine .inr ⟨_, _, collects.placed parts below fits some_byte unseen,
    collects'.placed parts below fits some_byte unseen, rfl, ?_⟩
  intro index inside set k within
  have room := collects.part_room below fits
  have room' : head.index * ctx.block_len + part.length ≤ held'.length := collects'.part_room below fits
  show (written held (head.index * ctx.block_len) part)[index * ctx.block_len + k]? =
    (written held' (head.index * ctx.block_len) part)[index * ctx.block_len + k]?
  by_cases own : index = head.index
  · subst own
    rw [extent_placed_self parts fits] at within
    rw [written_holdsAt room k within, written_holdsAt room' k within]
  · have marked : bit (markBit ctx.seen head.index) index = true := set
    rw [bit_markBit (collects.bits_room below), decide_eq_false own, Bool.false_or] at marked
    rw [extent_placed parts own] at within
    have most := collects.extent_le marked
    rw [getElem?_written_block room fits.le own (by omega), getElem?_written_block room' fits.le own (by omega)]
    exact same index inside marked k within

theorem alike_opening (heap heap' : Heap) (bounds : head.index < head.num_parts ∧ head.num_parts ≤ BBQR_MAX_PARTS)
    (some_byte : 1 ≤ part.length) (can : CanBegin head part) :
    Alike decoders (opening heap head part) (opening heap' head part) := by
  have begins := @begun_collects decoders head part heap bounds some_byte can.2
  have begins' := @begun_collects decoders head part heap' bounds some_byte can.2
  apply alike_placed begins begins' rfl bounds.1 (begun_fits heap head part) some_byte (bit_zero head.index)
  intro index inside set
  rw [show bit (begun heap head part).seen index = false from bit_zero index] at set
  cases set

theorem differs_iff (buffer : ctx.data = some held) (seen : bit ctx.seen head.index = true)
    (below : head.index < ctx.num_parts)
    (same : ∀ index < ctx.num_parts, bit ctx.seen index = true → ∀ k < ctx.extent index,
      held[index * ctx.block_len + k]? = held'[index * ctx.block_len + k]?) :
    Differs { ctx with data := some held' } head part ↔ Differs ctx head part := by
  have agree : ctx.extent head.index = part.length →
      (HoldsAt held' (head.index * ctx.block_len) part ↔ HoldsAt held (head.index * ctx.block_len) part) := by
    intro length
    apply forall_congr'
    intro k
    apply imp_congr_right
    intro within
    rw [same head.index below seen k (by omega)]
  rw [Differs, Differs, buffer]
  apply not_congr
  exact and_congr_right agree

/-- Alike contexts make the same of a frame, whatever new buffers hold. -/
theorem Collected.alike {heap : Heap} (heap' : Heap) {data : Bytes} {result : CollectResult × Ctx}
    (alike : Alike decoders ctx other) (collected : Collected decoders heap ctx data result) :
    ∃ result', Collected decoders heap' other data result' ∧ result.1 = result'.1 ∧ Alike decoders result.2 result'.2 := by
  rcases alike with ⟨rfl, rfl⟩ | ⟨held, held', collects, collects', rfl, same⟩
  · have empty : Alike decoders Ctx.zero Ctx.zero := .inl ⟨rfl, rfl⟩
    cases collected with
    | passed_over passed => exact ⟨_, .passed_over passed, rfl, empty⟩
    | again _ _ collecting => exact absurd rfl collecting
    | misfit _ _ collecting => exact absurd rfl collecting
    | another _ _ _ collects => exact absurd rfl collects.num_parts_ne
    | no_beginning head reads restart cannot => exact ⟨_, .no_beginning head reads (.inl rfl) cannot, rfl, empty⟩
    | beginning head reads restart can =>
      exact ⟨_, .beginning head reads (.inl rfl) can, rfl, alike_opening heap heap' reads.bounds reads.payload_read can⟩
  · have alike : Alike decoders ctx { ctx with data := some held' } := .inr ⟨held, held', collects, collects', rfl, same⟩
    have reads_iff : ∀ head, Reads decoders { ctx with data := some held' } data head ↔ Reads decoders ctx data head :=
      fun head => ⟨fun reads => ⟨reads.1, reads.2, reads.3⟩, fun reads => ⟨reads.1, reads.2, reads.3⟩⟩
    have below : ∀ {head}, Reads decoders ctx data head → head.num_parts = ctx.num_parts ∧ head.index < ctx.num_parts :=
      fun reads => ⟨(reads.parts collects.num_parts_ne).2.2, (reads.parts collects.num_parts_ne).2.2 ▸ reads.bounds.1⟩
    have repeated : ∀ {head}, Reads decoders ctx data head → ctx = Ctx.zero ∨ RepeatsDifferently decoders ctx data →
        RepeatsDifferently decoders { ctx with data := some held' } data := by
      intro head reads restart
      rcases restart with rfl | ⟨other, reads', collecting, seen, differs⟩
      · exact absurd rfl collects.num_parts_ne
      · exact ⟨other, (reads_iff other).mpr reads', collecting, seen,
          (differs_iff collects.buffer seen (below reads').2 same).mpr differs⟩
    cases collected with
    | passed_over passed =>
      exact ⟨_, .passed_over fun head reads => passed head ((reads_iff head).mp reads), rfl, alike⟩
    | again head reads collecting seen held_same =>
      refine ⟨_, .again head ((reads_iff head).mpr reads) collecting seen ?_, rfl, alike⟩
      exact fun differs => held_same ((differs_iff collects.buffer seen (below reads).2 same).mp differs)
    | misfit head reads collecting unseen misfit =>
      exact ⟨_, .misfit head ((reads_iff head).mpr reads) collecting unseen misfit, rfl, alike⟩
    | another head found reads found_collects unseen fits =>
      obtain rfl := collects.held_unique found_collects
      refine ⟨_, .another head held' ((reads_iff head).mpr reads) collects' unseen fits, rfl, ?_⟩
      exact alike_placed collects collects' (below reads).1 (below reads).2 fits reads.payload_read unseen same
    | no_beginning head reads restart cannot =>
      exact ⟨_, .no_beginning head ((reads_iff head).mpr reads) (.inr (repeated reads restart)) cannot, rfl,
        .inl ⟨rfl, rfl⟩⟩
    | beginning head reads restart can =>
      exact ⟨_, .beginning head ((reads_iff head).mpr reads) (.inr (repeated reads restart)) can, rfl,
        alike_opening heap heap' reads.bounds reads.payload_read can⟩

theorem Alike.valid (alike : Alike decoders ctx other) : Valid decoders ctx ∧ Valid decoders other := by
  rcases alike with ⟨rfl, rfl⟩ | ⟨held, held', collects, collects', -, -⟩
  · exact ⟨.inl rfl, .inl rfl⟩
  · exact ⟨.inr ⟨held, collects⟩, .inr ⟨held', collects'⟩⟩

/-- Every byte of a complete collection is in the part of its block. -/
theorem Collects.covered (collects : Collects decoders ctx held) {k : Nat} (below : k < ctx.total)
    (last : ctx.final_len ≤ ctx.block_len) :
    k / ctx.block_len < ctx.num_parts ∧ k % ctx.block_len < ctx.extent (k / ctx.block_len) ∧
      k / ctx.block_len * ctx.block_len + k % ctx.block_len = k := by
  have block := collects.block
  have within := Nat.mod_lt k block
  have split := Nat.div_add_mod' k ctx.block_len
  obtain ⟨n, count⟩ : ∃ n, ctx.num_parts = n + 1 := ⟨ctx.num_parts - 1, by have := collects.parts.1; omega⟩
  rw [Ctx.total, count, Nat.add_sub_cancel] at below
  have most : k / ctx.block_len < n + 1 := by
    apply (Nat.div_lt_iff_lt_mul block).mpr
    rw [Nat.succ_mul, Nat.mul_comm n]
    omega
  refine ⟨by omega, ?_, split⟩
  rw [Ctx.extent, count, Nat.add_sub_cancel]
  by_cases final : k / ctx.block_len = n
  · rw [if_pos final]
    rw [final, Nat.mul_comm n] at split
    omega
  · rw [if_neg final]
    exact within

theorem take_total_eq (collects : Collects decoders ctx held) (complete : ctx.num_seen = ctx.num_parts)
    (same : ∀ index < ctx.num_parts, bit ctx.seen index = true → ∀ k < ctx.extent index,
      held[index * ctx.block_len + k]? = held'[index * ctx.block_len + k]?) :
    held.take ctx.total = held'.take ctx.total := by
  have all := collects.complete_iff.mp complete
  have last := collects.final (all (ctx.num_parts - 1) (by have := collects.parts.1; omega))
  apply List.ext_getElem?
  intro k
  by_cases below : k < ctx.total
  · rw [List.getElem?_take_of_lt below, List.getElem?_take_of_lt below]
    obtain ⟨inside, within, split⟩ := collects.covered below last.2
    rw [← split]
    exact same _ inside (all _ inside) _ within
  · rw [List.getElem?_eq_none (by rw [List.length_take]; omega), List.getElem?_eq_none (by rw [List.length_take]; omega)]

/-- Alike contexts give the same result. -/
theorem bbqr_finalise_alike (alike : Alike decoders ctx other) :
    ∃ result result', bbqr_finalise decoders ctx = .ok result ∧ bbqr_finalise decoders other = .ok result' ∧
      result.1 = result'.1 ∧ Alike decoders result.2 result'.2 := by
  rcases alike with ⟨rfl, rfl⟩ | ⟨held, held', collects, collects', rfl, same⟩
  · have run := @bbqr_finalise_incomplete decoders Ctx.zero (.inl rfl)
    exact ⟨_, _, run, run, rfl, .inl ⟨rfl, rfl⟩⟩
  · by_cases complete : ctx.num_seen = ctx.num_parts
    · have result : delivered decoders { ctx with data := some held' } held' = delivered decoders ctx held := by
        rw [delivered, delivered, take_total_eq collects complete same]
        rfl
      have moved : finalised decoders { ctx with data := some held' } held' =
          { finalised decoders ctx held with data := some held' } := by
        rw [finalised, finalised, take_total_eq collects complete same]
        show (if ctx.encoding = ascii 'Z' then _ else _) = _
        split
        · show (match inflation decoders (held'.take ctx.total) with | none => _ | some out => _) = _
          cases inflation decoders (held'.take ctx.total) <;> rfl
        · rfl
      refine ⟨_, _, bbqr_finalise_complete collects complete, bbqr_finalise_complete collects' complete, ?_, ?_⟩
      · rw [result]
      · refine .inr ⟨held, held', finalised_collects collects complete, finalised_collects collects' complete, moved, ?_⟩
        rw [finalised_shape]
        exact same
    · have run : ∀ ctx : Ctx, ctx.num_seen ≠ ctx.num_parts → bbqr_finalise decoders ctx = .ok (none, ctx) :=
        fun ctx short => bbqr_finalise_incomplete (.inr short)
      exact ⟨_, _, run ctx complete, run { ctx with data := some held' } complete, rfl,
        .inr ⟨held, held', collects, collects', rfl, same⟩⟩

/-- The same call, with whatever new buffers hold. -/
inductive SameCall : Call → Call → Prop where
  | collect (data : Bytes) (heap heap' : Heap) : SameCall (.collect data heap) (.collect data heap')
  | finalise : SameCall .finalise .finalise

/-- Alike contexts answer a call alike and stay alike, and no call fails. -/
theorem run_alike (alike : Alike decoders ctx other) {call call' : Call} (same : SameCall call call') :
    ∃ reply after after', call.run decoders ctx = .ok (reply, after) ∧ call'.run decoders other = .ok (reply, after') ∧
      Alike decoders after after' := by
  cases same with
  | collect data heap heap' =>
    obtain ⟨result, run, collected⟩ := bbqr_collect_cases heap alike.valid.1 data
    obtain ⟨result', run', collected'⟩ := bbqr_collect_cases heap' alike.valid.2 data
    obtain ⟨expected, transferred, same, stays⟩ := collected.alike heap' alike
    obtain rfl := transferred.unique collected'
    refine ⟨.collected result.1, result.2, expected.2, ?_, ?_, stays⟩
    · simp [Call.run, run]
    · simp [Call.run, run', same]
  | finalise =>
    obtain ⟨result, result', run, run', same, stays⟩ := bbqr_finalise_alike alike
    refine ⟨.finalised result.1, result.2, result'.2, ?_, ?_, stays⟩
    · simp [Call.run, run]
    · simp [Call.run, run', same]

theorem outputs_alike (alike : Alike decoders ctx other) {calls calls' : List Call}
    (same : List.Forall₂ SameCall calls calls') :
    (reader decoders).outputs ctx calls = (reader decoders).outputs other calls' := by
  induction same generalizing ctx other with
  | nil => rfl
  | cons first _ ih =>
    obtain ⟨reply, after, after', run, run', stays⟩ := run_alike alike first
    simp only [Machine.outputs, reader, run, run']
    exact congrArg _ (ih stays)

/-- No call fails, and calls keep contexts valid. -/
theorem run_valid (valid : Valid decoders ctx) (call : Call) :
    ∃ reply after, call.run decoders ctx = .ok (reply, after) ∧ Valid decoders after := by
  cases call with
  | collect data heap =>
    obtain ⟨result, run, collected⟩ := bbqr_collect_cases heap valid data
    exact ⟨.collected result.1, result.2, by simp [Call.run, run], collected.valid valid⟩
  | finalise =>
    by_cases incomplete : ctx.num_parts = 0 ∨ ctx.num_seen ≠ ctx.num_parts
    · have run := @bbqr_finalise_incomplete decoders ctx incomplete
      exact ⟨.finalised none, ctx, by simp [Call.run, run], valid⟩
    · simp only [not_or, not_not] at incomplete
      rcases valid with rfl | ⟨held, collects⟩
      · exact absurd rfl incomplete.1
      · have run := bbqr_finalise_complete collects incomplete.2
        exact ⟨_, _, by simp [Call.run, run]; rfl, .inr ⟨held, finalised_collects collects incomplete.2⟩⟩

theorem reader_valid (calls : List Call) : Valid decoders ((reader decoders).final Ctx.zero calls) := by
  apply (reader decoders).final_always _ (.inl rfl)
  intro ctx call valid
  obtain ⟨reply, after, run, stays⟩ := run_valid valid call
  simp only [reader, run]
  exact stays

variable (decoders)

/-- The fields of a context agree with each other. -/
structure Consistent (ctx : Ctx) : Prop where
  empty_iff : ctx.num_parts = 0 ↔ ctx.data = none
  buffer : ∀ held, ctx.data = some held → held.length = ctx.data_len
  parts : ctx.num_parts ≠ 0 → 1 ≤ ctx.num_parts ∧ ctx.num_parts ≤ BBQR_MAX_PARTS
  counted : ctx.num_parts ≠ 0 → ctx.num_seen = (setBits ctx.seen).card
  below : ctx.num_parts ≠ 0 → ∀ index ∈ setBits ctx.seen, index < ctx.num_parts
  grid : ctx.num_parts ≠ 0 → ctx.data_len = ctx.block_len * ctx.num_parts ∧ ctx.data_len ≤ MAX_INPUT_MSG_SIZE
  final : ctx.num_parts ≠ 0 → ctx.num_parts - 1 ∈ setBits ctx.seen → 1 ≤ ctx.final_len ∧ ctx.final_len ≤ ctx.block_len

theorem Valid.consistent (valid : Valid decoders ctx) : Consistent ctx := by
  rcases valid with rfl | ⟨held, collects⟩
  · have empty : ¬ Ctx.zero.num_parts ≠ 0 := fun ne => ne rfl
    constructor
    case empty_iff => exact ⟨fun _ => rfl, fun _ => rfl⟩
    case buffer => intro held same; cases same
    all_goals exact fun ne => absurd ne empty
  · constructor
    case empty_iff => simp [collects.num_parts_ne, collects.buffer]
    case buffer =>
      intro other same
      rw [collects.buffer] at same
      cases same
      exact collects.held_len
    case parts => exact fun _ => collects.parts
    case counted => exact fun _ => collects.counted
    case below => exact fun _ => collects.inside
    case grid => exact fun _ => ⟨collects.grid, collects.room⟩
    case final => exact fun _ member => collects.final (mem_setBits.mp member).2

/-- After any calls the context is consistent and no call leaves a buffer or fails an
    assertion. A refused frame changes nothing, unless it repeats a seen index with
    different content: then the context is empty, and every later answer is what it would
    be had there been no earlier transfer, whatever is left in memory. -/
theorem bbqr_context_invariant (calls : List Call) :
    let ctx := (reader decoders).final Ctx.zero calls
    Consistent ctx ∧
    (∀ call : Call, ∃ reply after, call.run decoders ctx = .ok (reply, after)) ∧
    ∀ data heap after, bbqr_collect decoders heap ctx data = .ok (.REJECTED, after) →
      (¬ RepeatsDifferently decoders ctx data → after = ctx) ∧
      (RepeatsDifferently decoders ctx data → after = Ctx.zero ∧
        ∀ later later', List.Forall₂ SameCall later later' →
          (reader decoders).outputs after later = (reader decoders).outputs Ctx.zero later') := by
  intro ctx
  have valid : Valid decoders ctx := reader_valid calls
  refine ⟨valid.consistent, ?_, ?_⟩
  · intro call
    obtain ⟨reply, after, run, -⟩ := run_valid valid call
    exact ⟨reply, after, run⟩
  · intro data heap after refused
    obtain ⟨result, run, collected⟩ := bbqr_collect_cases heap valid data
    rw [refused] at run
    cases run
    obtain ⟨unchanged, emptied⟩ := collected.rejected rfl
    refine ⟨unchanged, ?_⟩
    intro repeated
    have empty : after = Ctx.zero := emptied repeated
    refine ⟨empty, ?_⟩
    intro later later' same
    rw [empty]
    exact outputs_alike (.inl ⟨rfl, rfl⟩) same

end

end PiJade.Bbqr
