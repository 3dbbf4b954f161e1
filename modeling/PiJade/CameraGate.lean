import PiJade.Bytes
import PiJade.CameraSignature
import PiJade.RingBuffer
import PiJade.Sha256
import Mathlib.Data.List.MinMax

/-!
Entropy from the camera (`main/entropy_sources.c`). A frame counts if it is not flat, if its blocks
moved since the frame that counted last, and if its digest is none of the last ones that counted.
Only frames that count reach the hasher. Counters are numbers without a bound here; together
they are the number of frames, so that a `size_t` has room for them below that many frames.
-/
namespace PiJade.CameraGate
open CameraSignature RingBuffer
set_option linter.unusedSimpArgs false

abbrev CAMERA_ENTROPY_FRAMES : Nat := 50
def CAMERA_FRAME_MIN_RANGE : Int := 8
def CAMERA_FRAME_MIN_CHANGE : Nat := 128
def SHA256_LEN : Nat := 32
def BIP39_ENTROPY_LEN_128 : Nat := 16
def BIP39_ENTROPY_LEN_256 : Nat := 32

/-- What stops the device. -/
inductive Exit where
  | assertion
  | out_of_bounds
  | division_by_zero
  | overflow
  deriving DecidableEq, Repr

def ensure (holds : Bool) : Except Exit Unit := if holds then .ok () else .error .assertion

/-- What the camera hands over. -/
structure Frame where
  width : Nat
  height : Nat
  data : Bytes
  deriving DecidableEq

structure camera_entropy_ctx where
  hasher : Bytes
  label_node : Bool
  label_says_enough : Bool
  nframes : Nat
  nrejected_flat : Nat
  nrejected_still : Nat
  nrejected_repeat : Nat
  frame_digests : Vector Bytes CAMERA_ENTROPY_FRAMES
  signature : Signature
  last_signature : Signature
  have_signature : Bool

/-- The context before the first frame, after what is hashed first. -/
def camera_entropy_ctx.start (hashed : Bytes) (label_node : Bool) : camera_entropy_ctx where
  hasher := hashed
  label_node := label_node
  label_says_enough := false
  nframes := 0
  nrejected_flat := 0
  nrejected_still := 0
  nrejected_repeat := 0
  frame_digests := Vector.replicate _ (List.replicate SHA256_LEN 0)
  signature := Vector.replicate _ 0
  last_signature := Vector.replicate _ 0
  have_signature := false

/-! ### Averages of blocks -/

def pixel (data : Bytes) (i : Nat) : Except Exit UInt8 :=
  match data[i]? with
  | some value => .ok value
  | none => .error .out_of_bounds

/-- The sum over a block whose first pixel is given. -/
def block_sum (data : Bytes) (width block_width block_height first : Nat) : Except Exit UInt32 :=
  (List.range block_height).foldlM (fun sum y =>
    (List.range block_width).foldlM (fun sum x => do
      let value ← pixel data (first + y * width + x)
      return sum + value.toUInt32) sum) 0

def block_average (frame : Frame) (block_width block_height : Nat) (block_pixels : UInt32) (i : Block) :
    Except Exit UInt8 := do
  let sum ← block_sum frame.data frame.width block_width block_height
    (i.val / CAMERA_SIGNATURE_SIDE * block_height * frame.width + i.val % CAMERA_SIGNATURE_SIDE * block_width)
  if block_pixels = 0 then .error .division_by_zero
  else return (sum / block_pixels).toUInt8

def frame_signature (frame : Frame) : Except Exit Signature := do
  let block_width := frame.width / CAMERA_SIGNATURE_SIDE
  let block_height := frame.height / CAMERA_SIGNATURE_SIDE
  ensure (block_width != 0)
  ensure (block_height != 0)
  let block_pixels := UInt32.ofNat (block_width * block_height)
  Vector.ofFnM (block_average frame block_width block_height block_pixels)

/-! ### One frame -/

/-- The darkest and the lightest pixel, up to where the range is known to be enough. -/
def scan_range : Bytes → UInt8 → UInt8 → UInt8 × UInt8
  | [], darkest, lightest => (darkest, lightest)
  | value :: rest, darkest, lightest =>
    let darkest := if value < darkest then value else darkest
    let lightest := if value > lightest then value else lightest
    if (lightest.toNat : Int) - darkest.toNat ≥ CAMERA_FRAME_MIN_RANGE then (darkest, lightest)
    else scan_range rest darkest lightest

def flat (data : Bytes) : Bool :=
  let (darkest, lightest) := scan_range data 0xff 0
  (lightest.toNat : Int) - darkest.toNat < CAMERA_FRAME_MIN_RANGE

def still (ctx : camera_entropy_ctx) (signature : Signature) : Except Exit Bool :=
  if ctx.have_signature then
    match signature_change ctx.last_signature signature with
    | none => .error .overflow
    | some change => return decide (change < CAMERA_FRAME_MIN_CHANGE)
  else return false

/-- The loop over the digests that are kept. -/
def repeated (ctx : camera_entropy_ctx) (digest : Bytes) : Bool :=
  let nkept := if ctx.nframes < CAMERA_ENTROPY_FRAMES then ctx.nframes else CAMERA_ENTROPY_FRAMES
  (List.range nkept).any fun i => decide (ctx.frame_digests[i]? = some digest)

section
variable (sha256 : Bytes → Bytes)

/-- What is left of the callback for a frame that counts. -/
def accept (ctx : camera_entropy_ctx) (frame : Frame) : camera_entropy_ctx :=
  let ctx := { ctx with
    frame_digests := ctx.frame_digests.set (ctx.nframes % CAMERA_ENTROPY_FRAMES) (sha256 frame.data)
      (Nat.mod_lt _ (by decide))
    hasher := ctx.hasher ++ frame.data
    last_signature := ctx.signature
    have_signature := true
    nframes := ctx.nframes + 1 }
  if !ctx.label_says_enough && decide (ctx.nframes ≥ CAMERA_ENTROPY_FRAMES) && ctx.label_node then
    { ctx with label_says_enough := true }
  else ctx

def camera_entropy_feed (ctx : camera_entropy_ctx) (frame : Frame) : Except Exit camera_entropy_ctx := do
  ensure (frame.data.length != 0)
  if flat frame.data then return { ctx with nrejected_flat := ctx.nrejected_flat + 1 }
  else do
    let signature ← frame_signature frame
    let ctx := { ctx with signature := signature }
    let unmoved ← still ctx signature
    if unmoved then return { ctx with nrejected_still := ctx.nrejected_still + 1 }
    else if repeated ctx (sha256 frame.data) then return { ctx with nrejected_repeat := ctx.nrejected_repeat + 1 }
    else return accept sha256 ctx frame

/-- The entropy, none for a collection that did not come to its end. -/
def gather_camera_entropy (nwords entropy_len : Nat) (macid ticks : Bytes) (label_node : Bool) (frames : List Frame)
    (gui_escape_pending : Bool) (devrnd : Bytes) : Except Exit (Option Bytes) := do
  ensure (nwords = 12 || nwords = 24)
  ensure (entropy_len = if nwords = 12 then BIP39_ENTROPY_LEN_128 else BIP39_ENTROPY_LEN_256)
  let ctx ← frames.foldlM (camera_entropy_feed sha256) (.start (macid ++ ticks) label_node)
  if !gui_escape_pending && decide (ctx.nframes ≥ CAMERA_ENTROPY_FRAMES) then
    return some ((sha256 (ctx.hasher ++ devrnd)).take entropy_len)
  else return none

end

/-! ### Frames that are as large as they say -/

theorem foldlM_total {α σ : Type} {round : σ → α → Except Exit σ} {items : List α}
    (total : ∀ s, ∀ a ∈ items, ∃ next, round s a = .ok next) (start : σ) : ∃ last, items.foldlM round start = .ok last := by
  induction items generalizing start with
  | nil => exact ⟨start, rfl⟩
  | cons a rest ih =>
    obtain ⟨next, one⟩ := total start a List.mem_cons_self
    rw [List.foldlM_cons, one]
    exact ih (fun s b member => total s b (List.mem_cons_of_mem a member)) next

theorem block_sum_total {data : Bytes} {width block_width block_height first : Nat}
    (inside : ∀ x y, x < block_width → y < block_height → first + y * width + x < data.length) :
    ∃ sum, block_sum data width block_width block_height first = .ok sum := by
  refine foldlM_total (fun sum y row => foldlM_total (fun sum x column => ?_) sum) 0
  rw [List.mem_range] at row column
  have here := inside x y column row
  have value : pixel data (first + y * width + x) = .ok data[first + y * width + x] := by
    unfold pixel
    rw [List.getElem?_eq_getElem here]
  dsimp only
  rw [value]
  exact ⟨_, rfl⟩

/-- The pixels of all blocks are within a frame. -/
theorem block_inside {width height by' bx x y : Nat} (row : by' < CAMERA_SIGNATURE_SIDE) (column : bx < CAMERA_SIGNATURE_SIDE)
    (left : x < width / CAMERA_SIGNATURE_SIDE) (top : y < height / CAMERA_SIGNATURE_SIDE) :
    by' * (height / CAMERA_SIGNATURE_SIDE) * width + bx * (width / CAMERA_SIGNATURE_SIDE) + y * width + x < width * height := by
  have line : bx * (width / CAMERA_SIGNATURE_SIDE) + x < width := by
    have whole := Nat.mul_div_le width CAMERA_SIGNATURE_SIDE
    have next : (bx + 1) * (width / CAMERA_SIGNATURE_SIDE) ≤ CAMERA_SIGNATURE_SIDE * (width / CAMERA_SIGNATURE_SIDE) :=
      Nat.mul_le_mul_right _ column
    rw [Nat.add_mul, Nat.one_mul] at next
    omega
  have lines : by' * (height / CAMERA_SIGNATURE_SIDE) + y + 1 ≤ height := by
    have whole := Nat.mul_div_le height CAMERA_SIGNATURE_SIDE
    have next : (by' + 1) * (height / CAMERA_SIGNATURE_SIDE) ≤ CAMERA_SIGNATURE_SIDE * (height / CAMERA_SIGNATURE_SIDE) :=
      Nat.mul_le_mul_right _ row
    rw [Nat.add_mul, Nat.one_mul] at next
    omega
  have area := Nat.mul_le_mul_left width lines
  rw [Nat.mul_add, Nat.mul_add, Nat.mul_one, Nat.mul_comm width, Nat.mul_comm width y] at area
  omega

/-- A frame of at least one pixel for each block has a signature. -/
theorem frame_signature_total {frame : Frame} (wide : CAMERA_SIGNATURE_SIDE ≤ frame.width)
    (high : CAMERA_SIGNATURE_SIDE ≤ frame.height) (small : frame.width * frame.height < 2 ^ 32)
    (whole : frame.width * frame.height ≤ frame.data.length) : ∃ signature, frame_signature frame = .ok signature := by
  have columns : 0 < frame.width / CAMERA_SIGNATURE_SIDE := Nat.div_pos wide (by decide)
  have rows : 0 < frame.height / CAMERA_SIGNATURE_SIDE := Nat.div_pos high (by decide)
  have pixels : UInt32.ofNat (frame.width / CAMERA_SIGNATURE_SIDE * (frame.height / CAMERA_SIGNATURE_SIDE)) ≠ 0 := by
    intro zero
    have less := Nat.mul_le_mul (Nat.div_le_self frame.width CAMERA_SIGNATURE_SIDE) (Nat.div_le_self frame.height CAMERA_SIGNATURE_SIDE)
    have some_pixel := Nat.mul_pos columns rows
    have none := congrArg UInt32.toNat zero
    rw [UInt32.toNat_ofNat_of_lt' (Nat.lt_of_le_of_lt less small)] at none
    simp only [UInt32.reduceToNat] at none
    omega
  have each : ∀ i, ∃ average, block_average frame (frame.width / CAMERA_SIGNATURE_SIDE) (frame.height / CAMERA_SIGNATURE_SIDE)
      (UInt32.ofNat (frame.width / CAMERA_SIGNATURE_SIDE * (frame.height / CAMERA_SIGNATURE_SIDE))) i = .ok average := by
    intro i
    obtain ⟨sum, known⟩ := @block_sum_total frame.data frame.width (frame.width / CAMERA_SIGNATURE_SIDE)
      (frame.height / CAMERA_SIGNATURE_SIDE) (i.val / CAMERA_SIGNATURE_SIDE * (frame.height / CAMERA_SIGNATURE_SIDE) * frame.width +
        i.val % CAMERA_SIGNATURE_SIDE * (frame.width / CAMERA_SIGNATURE_SIDE)) (by
      intro x y left top
      have row : i.val / CAMERA_SIGNATURE_SIDE < CAMERA_SIGNATURE_SIDE := Nat.div_lt_of_lt_mul i.isLt
      exact Nat.lt_of_lt_of_le (block_inside row (Nat.mod_lt _ (by decide)) left top) whole)
    refine ⟨(sum / UInt32.ofNat (frame.width / CAMERA_SIGNATURE_SIDE * (frame.height / CAMERA_SIGNATURE_SIDE))).toUInt8, ?_⟩
    rw [block_average, known]
    change (if _ then _ else _) = _
    rw [if_neg pixels]
    rfl
  obtain ⟨averages, known⟩ := Classical.axiomOfChoice each
  refine ⟨Vector.ofFn averages, ?_⟩
  rw [frame_signature, bne_iff_ne.mpr (Nat.ne_of_gt columns), bne_iff_ne.mpr (Nat.ne_of_gt rows)]
  change Vector.ofFnM _ = _
  rw [funext known]
  exact Vector.ofFnM_pure

/-! ### The range of a frame -/

/-- The difference between the lightest and the darkest pixel. -/
def pixel_range (data : Bytes) : Int :=
  ((data.map UInt8.toNat).foldl max 0 : Nat) - ((data.map UInt8.toNat).foldl min 255 : Nat)

theorem le_foldl_max (values : List Nat) (start : Nat) : start ≤ values.foldl max start := by
  induction values generalizing start with
  | nil => exact Nat.le_refl start
  | cons value rest ih => exact Nat.le_trans (Nat.le_max_left start value) (ih (max start value))

theorem foldl_min_le (values : List Nat) (start : Nat) : values.foldl min start ≤ start := by
  induction values generalizing start with
  | nil => exact Nat.le_refl start
  | cons value rest ih => exact Nat.le_trans (ih (min start value)) (Nat.min_le_left start value)

/-- Stopping early does not change whether the range is enough. -/
theorem scan_range_enough (data : Bytes) (darkest lightest : UInt8) :
    CAMERA_FRAME_MIN_RANGE ≤ ((scan_range data darkest lightest).2.toNat : Int) - (scan_range data darkest lightest).1.toNat ↔
      CAMERA_FRAME_MIN_RANGE ≤
        (((data.map UInt8.toNat).foldl max lightest.toNat : Nat) : Int) - ((data.map UInt8.toNat).foldl min darkest.toNat : Nat) := by
  induction data generalizing darkest lightest with
  | nil => exact Iff.rfl
  | cons value rest ih =>
    have low : (if value < darkest then value else darkest).toNat = min darkest.toNat value.toNat := by
      by_cases less : value < darkest
      · rw [if_pos less, Nat.min_eq_right (Nat.le_of_lt (UInt8.lt_iff_toNat_lt.mp less))]
      · rw [if_neg less, Nat.min_eq_left (UInt8.le_iff_toNat_le.mp (UInt8.not_lt.mp less))]
    have high : (if value > lightest then value else lightest).toNat = max lightest.toNat value.toNat := by
      by_cases more : value > lightest
      · rw [if_pos more, Nat.max_eq_right (Nat.le_of_lt (UInt8.lt_iff_toNat_lt.mp more))]
      · rw [if_neg more, Nat.max_eq_left (UInt8.le_iff_toNat_le.mp (UInt8.not_lt.mp more))]
    rw [scan_range, List.map_cons, List.foldl_cons, List.foldl_cons, ← low, ← high]
    generalize (if value < darkest then value else darkest) = dark
    generalize (if value > lightest then value else lightest) = light
    by_cases enough : (light.toNat : Int) - dark.toNat ≥ CAMERA_FRAME_MIN_RANGE
    · rw [if_pos enough]
      have up := le_foldl_max (rest.map UInt8.toNat) light.toNat
      have down := foldl_min_le (rest.map UInt8.toNat) dark.toNat
      exact ⟨fun _ => by omega, fun _ => enough⟩
    · rw [if_neg enough]
      exact ih dark light

theorem flat_iff (data : Bytes) : flat data = true ↔ pixel_range data < CAMERA_FRAME_MIN_RANGE := by
  have enough := scan_range_enough data 0xff 0
  rw [flat, decide_eq_true_eq, ← Int.not_le, enough, Int.not_le]
  rfl

/-! ### What a frame does -/

section
variable {sha256 : Bytes → Bytes}

/-- The frames that did not count. -/
def camera_entropy_ctx.nrejected (ctx : camera_entropy_ctx) : Nat :=
  ctx.nrejected_flat + ctx.nrejected_still + ctx.nrejected_repeat

/-- What a frame that does not count leaves as it was; it is tallied once. -/
structure Untouched (ctx next : camera_entropy_ctx) : Prop where
  nframes : next.nframes = ctx.nframes
  last_signature : next.last_signature = ctx.last_signature
  have_signature : next.have_signature = ctx.have_signature
  frame_digests : next.frame_digests = ctx.frame_digests
  hasher : next.hasher = ctx.hasher
  tallied : next.nrejected = ctx.nrejected + 1

/-- Whether a frame moved since the last one that counted. -/
def Moved (ctx : camera_entropy_ctx) (signature : Signature) : Prop :=
  ctx.have_signature = true → ∃ change, signature_change ctx.last_signature signature = some change ∧
    CAMERA_FRAME_MIN_CHANGE ≤ change

/-- The tests that a frame with a signature has to pass. -/
structure Passes (sha256 : Bytes → Bytes) (ctx : camera_entropy_ctx) (frame : Frame) (signature : Signature) : Prop where
  averages : frame_signature frame = .ok signature
  range : CAMERA_FRAME_MIN_RANGE ≤ pixel_range frame.data
  moved : Moved ctx signature
  fresh : repeated ctx (sha256 frame.data) = false

theorem still_eq (ctx : camera_entropy_ctx) (signature : Signature) :
    ∃ unmoved, still ctx signature = .ok unmoved ∧ (unmoved = false ↔ Moved ctx signature) := by
  obtain ⟨score, change⟩ : ∃ score, signature_change ctx.last_signature signature = some score :=
    ⟨_, signature_change_eq _ _⟩
  unfold still Moved
  rw [change]
  by_cases known : ctx.have_signature = true
  · rw [if_pos known]
    refine ⟨decide (score < CAMERA_FRAME_MIN_CHANGE), rfl, ?_⟩
    rw [decide_eq_false_iff_not, Nat.not_lt]
    constructor
    · intro enough _
      exact ⟨score, rfl, enough⟩
    · intro enough
      obtain ⟨same, equal, enough⟩ := enough known
      cases equal
      exact enough
  · rw [if_neg known]
    exact ⟨false, rfl, fun _ yes => absurd yes known, fun _ => rfl⟩

/-- A frame passes all tests and counts, or fails one and leaves the context as it was but for the tallies. -/
theorem feed_cases {ctx next : camera_entropy_ctx} {frame : Frame} (fed : camera_entropy_feed sha256 ctx frame = .ok next) :
    (∃ signature, Passes sha256 ctx frame signature ∧ next = accept sha256 { ctx with signature := signature } frame) ∨
    (¬ (∃ signature, Passes sha256 ctx frame signature) ∧ Untouched ctx next) := by
  unfold camera_entropy_feed at fed
  cases some_data : frame.data.length != 0 with
  | false =>
    rw [some_data] at fed
    cases fed
  | true =>
    rw [some_data] at fed
    change (if flat frame.data = true then _ else _) = _ at fed
    by_cases dull : flat frame.data = true
    · rw [if_pos dull] at fed
      cases fed
      right
      refine ⟨?_, ⟨rfl, rfl, rfl, rfl, rfl, by simp only [camera_entropy_ctx.nrejected]; omega⟩⟩
      rintro ⟨signature, passes⟩
      have := (flat_iff frame.data).mp dull
      have := passes.range
      omega
    · rw [if_neg dull] at fed
      rw [flat_iff, Int.not_lt] at dull
      cases averages : frame_signature frame with
      | error exit =>
        rw [averages] at fed
        cases fed
      | ok signature =>
        obtain ⟨unmoved, moves, moved_iff⟩ := still_eq { ctx with signature := signature } signature
        rw [averages] at fed
        change (still { ctx with signature := signature } signature >>= _) = _ at fed
        rw [moves] at fed
        change (if unmoved = true then _ else _) = _ at fed
        cases unmoved with
        | true =>
          cases fed
          right
          refine ⟨?_, ⟨rfl, rfl, rfl, rfl, rfl, by simp only [camera_entropy_ctx.nrejected]; omega⟩⟩
          rintro ⟨other, passes⟩
          have same := passes.averages
          rw [averages] at same
          cases same
          cases moved_iff.mpr passes.moved
        | false =>
          rw [if_neg Bool.false_ne_true] at fed
          by_cases again : repeated { ctx with signature := signature } (sha256 frame.data) = true
          · rw [if_pos again] at fed
            cases fed
            right
            refine ⟨?_, ⟨rfl, rfl, rfl, rfl, rfl, by simp only [camera_entropy_ctx.nrejected]; omega⟩⟩
            rintro ⟨other, passes⟩
            cases again.symm.trans passes.fresh
          · rw [if_neg again] at fed
            cases fed
            left
            exact ⟨signature, ⟨averages, dull, moved_iff.mp rfl, Bool.eq_false_iff.mpr again⟩, rfl⟩

/-- No frame of the size it is said to have stops the device. -/
theorem feed_total (ctx : camera_entropy_ctx) {frame : Frame} (wide : CAMERA_SIGNATURE_SIDE ≤ frame.width)
    (high : CAMERA_SIGNATURE_SIDE ≤ frame.height) (small : frame.width * frame.height < 2 ^ 32)
    (whole : frame.width * frame.height ≤ frame.data.length) : ∃ next, camera_entropy_feed sha256 ctx frame = .ok next := by
  have some_data : (frame.data.length != 0) = true := by
    have area := Nat.mul_le_mul wide high
    rw [bne_iff_ne]
    simp only [CAMERA_SIGNATURE_SIDE] at area
    omega
  obtain ⟨signature, averages⟩ := frame_signature_total wide high small whole
  unfold camera_entropy_feed
  rw [some_data]
  change ∃ next, (if flat frame.data = true then _ else _) = _
  by_cases dull : flat frame.data = true
  · rw [if_pos dull]
    exact ⟨_, rfl⟩
  · obtain ⟨unmoved, moves, _⟩ := still_eq { ctx with signature := signature } signature
    rw [if_neg dull, averages]
    change ∃ next, (still { ctx with signature := signature } signature >>= _) = _
    rw [moves]
    change ∃ next, (if unmoved = true then _ else _) = _
    split
    · exact ⟨_, rfl⟩
    · split
      · exact ⟨_, rfl⟩
      · exact ⟨_, rfl⟩

@[simp] theorem accept_nframes (ctx : camera_entropy_ctx) (frame : Frame) :
    (accept sha256 ctx frame).nframes = ctx.nframes + 1 := by
  unfold accept
  dsimp only
  split
  · rfl
  · rfl

@[simp] theorem accept_last_signature (ctx : camera_entropy_ctx) (frame : Frame) :
    (accept sha256 ctx frame).last_signature = ctx.signature := by
  unfold accept
  dsimp only
  split
  · rfl
  · rfl

@[simp] theorem accept_have_signature (ctx : camera_entropy_ctx) (frame : Frame) :
    (accept sha256 ctx frame).have_signature = true := by
  unfold accept
  dsimp only
  split
  · rfl
  · rfl

@[simp] theorem accept_frame_digests (ctx : camera_entropy_ctx) (frame : Frame) :
    (accept sha256 ctx frame).frame_digests = ctx.frame_digests.set (ctx.nframes % CAMERA_ENTROPY_FRAMES)
      (sha256 frame.data) (Nat.mod_lt _ (by decide)) := by
  unfold accept
  dsimp only
  split
  · rfl
  · rfl

@[simp] theorem accept_hasher (ctx : camera_entropy_ctx) (frame : Frame) :
    (accept sha256 ctx frame).hasher = ctx.hasher ++ frame.data := by
  unfold accept
  dsimp only
  split
  · rfl
  · rfl

@[simp] theorem accept_nrejected (ctx : camera_entropy_ctx) (frame : Frame) :
    (accept sha256 ctx frame).nrejected = ctx.nrejected := by
  unfold accept
  dsimp only
  split
  · rfl
  · rfl

theorem Untouched.not_accepted {ctx next : camera_entropy_ctx} (untouched : Untouched ctx next) :
    next.nframes ≠ ctx.nframes + 1 := by
  rw [untouched.nframes]
  omega

end

/-! ### Whole collections -/

section
variable (sha256 : Bytes → Bytes) (hashed : Bytes) (label_node : Bool)

/-- The context after some frames, and which of them counted. -/
inductive Collected : List Frame → List Frame → camera_entropy_ctx → Prop where
  | start : Collected [] [] (.start hashed label_node)
  | accepted {fed taken frame ctx next} : Collected fed taken ctx → camera_entropy_feed sha256 ctx frame = .ok next →
      next.nframes = ctx.nframes + 1 → Collected (fed ++ [frame]) (taken ++ [frame]) next
  | rejected {fed taken frame ctx next} : Collected fed taken ctx → camera_entropy_feed sha256 ctx frame = .ok next →
      next.nframes ≠ ctx.nframes + 1 → Collected (fed ++ [frame]) taken next

/-- What makes a frame count after others that did: its pixels are apart, its blocks moved since the last one, and
its digest is none of the last ones. -/
structure Counts (before : List Frame) (frame : Frame) : Prop where
  range : CAMERA_FRAME_MIN_RANGE ≤ pixel_range frame.data
  moved : ∃ current, frame_signature frame = .ok current ∧ ∀ last, before.getLast? = some last →
    ∃ previous change, frame_signature last = .ok previous ∧ signature_change previous current = some change ∧
      CAMERA_FRAME_MIN_CHANGE ≤ change
  fresh : ∀ j old, before.length ≤ j + CAMERA_ENTROPY_FRAMES → before[j]? = some old → sha256 old.data ≠ sha256 frame.data

/-- What the context knows of the frames that counted. -/
structure Knows (taken : List Frame) (ctx : camera_entropy_ctx) : Prop where
  nframes : ctx.nframes = taken.length
  digests : Keeps ctx.frame_digests (taken.map fun frame => sha256 frame.data)
  none_yet : ctx.have_signature = false → taken = []
  last : ctx.have_signature = true → ∃ last, taken.getLast? = some last ∧ frame_signature last = .ok ctx.last_signature
  hasher : ctx.hasher = hashed ++ taken.flatMap Frame.data

variable {sha256 hashed label_node}

theorem knows_start : Knows sha256 hashed [] (.start hashed label_node) where
  nframes := rfl
  digests := keeps_nil _
  none_yet _ := rfl
  last known := by cases known
  hasher := (List.append_nil hashed).symm

theorem Knows.untouched {taken : List Frame} {ctx next : camera_entropy_ctx} (knows : Knows sha256 hashed taken ctx)
    (untouched : Untouched ctx next) : Knows sha256 hashed taken next where
  nframes := untouched.nframes.trans knows.nframes
  digests := by
    rw [untouched.frame_digests]
    exact knows.digests
  none_yet := by
    rw [untouched.have_signature]
    exact knows.none_yet
  last := by
    rw [untouched.have_signature, untouched.last_signature]
    exact knows.last
  hasher := untouched.hasher.trans knows.hasher

theorem Knows.accept {taken : List Frame} {ctx : camera_entropy_ctx} (knows : Knows sha256 hashed taken ctx) {frame : Frame}
    {signature : Signature} (averages : frame_signature frame = .ok signature) :
    Knows sha256 hashed (taken ++ [frame]) (accept sha256 { ctx with signature := signature } frame) where
  nframes := by
    rw [accept_nframes, List.length_append, List.length_singleton]
    exact congrArg (· + 1) knows.nframes
  digests := by
    have pushed := knows.digests.push (sha256 frame.data) (Nat.mod_lt _ (by decide))
    rw [accept_frame_digests, List.map_append, List.map_singleton]
    simp only [List.length_map, ← knows.nframes] at pushed
    exact pushed
  none_yet none := by
    rw [accept_have_signature] at none
    cases none
  last _ := by
    rw [accept_last_signature]
    exact ⟨frame, List.getLast?_concat, averages⟩
  hasher := by
    rw [accept_hasher, List.flatMap_append, List.flatMap_singleton, ← List.append_assoc]
    exact congrArg (· ++ frame.data) knows.hasher

/-- The loop over the ring finds exactly the digests of the last frames that counted. -/
theorem Knows.repeated_iff {taken : List Frame} {ctx : camera_entropy_ctx} (knows : Knows sha256 hashed taken ctx)
    (digest : Bytes) : repeated ctx digest = true ↔
      ∃ j old, taken.length ≤ j + CAMERA_ENTROPY_FRAMES ∧ taken[j]? = some old ∧ sha256 old.data = digest := by
  have nkept : (if ctx.nframes < CAMERA_ENTROPY_FRAMES then ctx.nframes else CAMERA_ENTROPY_FRAMES) =
      min (taken.map fun frame => sha256 frame.data).length CAMERA_ENTROPY_FRAMES := by
    rw [List.length_map, ← knows.nframes]
    split
    · omega
    · omega
  have used := knows.digests.used_iff digest
  unfold repeated
  rw [nkept, List.any_eq_true]
  simp only [List.mem_range, decide_eq_true_eq]
  rw [used, Recent]
  constructor
  · rintro ⟨j, late, found⟩
    rw [List.getElem?_map, Option.map_eq_some_iff] at found
    obtain ⟨old, here, same⟩ := found
    exact ⟨j, old, by rwa [List.length_map] at late, here, same⟩
  · rintro ⟨j, old, late, here, same⟩
    refine ⟨j, by rwa [List.length_map], ?_⟩
    rw [List.getElem?_map, here, Option.map_some, same]

/-- The tests of the code are what makes a frame count. -/
theorem Knows.passes_iff {taken : List Frame} {ctx : camera_entropy_ctx} (knows : Knows sha256 hashed taken ctx)
    (frame : Frame) : (∃ signature, Passes sha256 ctx frame signature) ↔ Counts sha256 taken frame := by
  have found := knows.repeated_iff (sha256 frame.data)
  constructor
  · rintro ⟨signature, passes⟩
    refine ⟨passes.range, ⟨signature, passes.averages, ?_⟩, ?_⟩
    · intro last behind
      cases known : ctx.have_signature with
      | false =>
        rw [knows.none_yet known] at behind
        cases behind
      | true =>
        obtain ⟨same, newest, previous⟩ := knows.last known
        obtain ⟨change, scored, enough⟩ := passes.moved known
        rw [newest] at behind
        cases behind
        exact ⟨_, change, previous, scored, enough⟩
    · intro j old late here same
      have again := found.mpr ⟨j, old, late, here, same⟩
      rw [passes.fresh] at again
      cases again
  · rintro ⟨range, ⟨signature, averages, moved⟩, fresh⟩
    refine ⟨signature, averages, range, ?_, ?_⟩
    · intro known
      obtain ⟨last, newest, previous⟩ := knows.last known
      obtain ⟨other, change, same, scored, enough⟩ := moved last newest
      rw [previous] at same
      cases same
      exact ⟨change, scored, enough⟩
    · rw [← Bool.not_eq_true, found]
      rintro ⟨j, old, late, here, same⟩
      exact fresh j old late here same

/-- One frame: it counts exactly if it has what makes it count, and changes nothing that matters otherwise. -/
theorem Knows.feed {taken : List Frame} {ctx next : camera_entropy_ctx} (knows : Knows sha256 hashed taken ctx)
    {frame : Frame} (fed : camera_entropy_feed sha256 ctx frame = .ok next) :
    (Counts sha256 taken frame ∧ next.nframes = ctx.nframes + 1 ∧ Knows sha256 hashed (taken ++ [frame]) next) ∨
    (¬ Counts sha256 taken frame ∧ Untouched ctx next ∧ Knows sha256 hashed taken next) := by
  rcases feed_cases fed with ⟨signature, passes, same⟩ | ⟨fails, untouched⟩
  · rw [same]
    exact Or.inl ⟨(knows.passes_iff frame).mp ⟨signature, passes⟩, accept_nframes _ _, knows.accept passes.averages⟩
  · exact Or.inr ⟨fun counts => fails ((knows.passes_iff frame).mpr counts), untouched, knows.untouched untouched⟩

theorem Collected.knows {fed taken : List Frame} {ctx : camera_entropy_ctx}
    (collected : Collected sha256 hashed label_node fed taken ctx) :
    Knows sha256 hashed taken ctx ∧ ∀ before frame rest, taken = before ++ frame :: rest → Counts sha256 before frame := by
  induction collected with
  | start =>
    refine ⟨knows_start, ?_⟩
    intro before frame rest split
    simp at split
  | accepted _ step counted ih =>
    rcases ih.1.feed step with ⟨counts, _, knows⟩ | ⟨_, untouched, _⟩
    · refine ⟨knows, ?_⟩
      intro before frame rest split
      rcases List.eq_nil_or_concat rest with rfl | ⟨front, last, rfl⟩
      · obtain ⟨same, newest⟩ := List.append_inj' split rfl
        cases newest
        rw [← same]
        exact counts
      · rw [List.concat_eq_append, ← List.cons_append, ← List.append_assoc] at split
        exact ih.2 before frame front (List.append_inj' split rfl).1
    · exact absurd counted untouched.not_accepted
  | rejected _ step uncounted ih =>
    rcases ih.1.feed step with ⟨_, counted, _⟩ | ⟨_, _, knows⟩
    · exact absurd counted uncounted
    · exact ⟨knows, ih.2⟩

/-- Every frame is tallied by one of the counters. -/
theorem Collected.tallied {fed taken : List Frame} {ctx : camera_entropy_ctx}
    (collected : Collected sha256 hashed label_node fed taken ctx) : ctx.nframes + ctx.nrejected = fed.length := by
  induction collected with
  | start => rfl
  | accepted _ step counted ih =>
    rcases feed_cases step with ⟨signature, _, rfl⟩ | ⟨_, untouched⟩
    · rw [counted, accept_nrejected, List.length_append, List.length_singleton, ← ih]
      simp only [camera_entropy_ctx.nrejected]
      omega
    · exact absurd counted untouched.not_accepted
  | rejected _ step uncounted ih =>
    rcases feed_cases step with ⟨signature, _, rfl⟩ | ⟨_, untouched⟩
    · exact absurd (accept_nframes _ _) uncounted
    · rw [untouched.nframes, untouched.tallied, List.length_append, List.length_singleton, ← ih]
      omega

/-- The frames that are fed determine the context, and each run that does not stop the device is a collection. -/
theorem run_iff {fed : List Frame} {ctx : camera_entropy_ctx} :
    fed.foldlM (camera_entropy_feed sha256) (.start hashed label_node) = .ok ctx ↔
      ∃ taken, Collected sha256 hashed label_node fed taken ctx := by
  constructor
  · intro run
    induction fed using List.reverseRecOn generalizing ctx with
    | nil =>
      cases run
      exact ⟨[], .start⟩
    | append_singleton fed frame ih =>
      rw [List.foldlM_append] at run
      cases before : fed.foldlM (camera_entropy_feed sha256) (.start hashed label_node) with
      | error exit =>
        rw [before] at run
        cases run
      | ok middle =>
        rw [before] at run
        change List.foldlM (camera_entropy_feed sha256) middle [frame] = _ at run
        have step : camera_entropy_feed sha256 middle frame = .ok ctx := by
          simpa only [List.foldlM_cons, List.foldlM_nil, bind_pure] using run
        obtain ⟨taken, collected⟩ := ih before
        by_cases counted : ctx.nframes = middle.nframes + 1
        · exact ⟨_, .accepted collected step counted⟩
        · exact ⟨_, .rejected collected step counted⟩
  · rintro ⟨taken, collected⟩
    induction collected with
    | start => rfl
    | accepted _ step _ ih =>
      rw [List.foldlM_append, ih]
      change List.foldlM (camera_entropy_feed sha256) _ [_] = _
      rw [List.foldlM_cons, step]
      rfl
    | rejected _ step _ ih =>
      rw [List.foldlM_append, ih]
      change List.foldlM (camera_entropy_feed sha256) _ [_] = _
      rw [List.foldlM_cons, step]
      rfl

end

/-- Whatever the camera delivers, the frames that count are those that are apart in their pixels, from the frame
before and from the last digests, the others leave no trace, and no entropy is reported before enough frames. -/
theorem camera_entropy_gate (sha256 : Bytes → Bytes) (macid ticks : Bytes) (label_node : Bool) :
    (∀ fed taken ctx, Collected sha256 (macid ++ ticks) label_node fed taken ctx →
      ctx.nframes = taken.length ∧ ctx.nframes + ctx.nrejected = fed.length ∧
      (∀ before frame rest, taken = before ++ frame :: rest → Counts sha256 before frame) ∧
      ∀ frame next, camera_entropy_feed sha256 ctx frame = .ok next →
        Counts sha256 taken frame ∧ next.nframes = ctx.nframes + 1 ∨
        ¬ Counts sha256 taken frame ∧ Untouched ctx next) ∧
    ∀ nwords entropy_len fed gui_escape_pending devrnd entropy,
      gather_camera_entropy sha256 nwords entropy_len macid ticks label_node fed gui_escape_pending devrnd = .ok (some entropy) →
      ∃ taken ctx, Collected sha256 (macid ++ ticks) label_node fed taken ctx ∧ CAMERA_ENTROPY_FRAMES ≤ taken.length ∧
        entropy = (sha256 (macid ++ ticks ++ taken.flatMap Frame.data ++ devrnd)).take entropy_len := by
  constructor
  · intro fed taken ctx collected
    obtain ⟨knows, counted⟩ := collected.knows
    refine ⟨knows.nframes, collected.tallied, counted, ?_⟩
    intro frame next step
    rcases knows.feed step with ⟨counts, more, _⟩ | ⟨fails, untouched, _⟩
    · exact Or.inl ⟨counts, more⟩
    · exact Or.inr ⟨fails, untouched⟩
  · intro nwords entropy_len fed gui_escape_pending devrnd entropy gathered
    unfold gather_camera_entropy at gathered
    cases words : ensure (nwords = 12 || nwords = 24) with
    | error exit =>
      rw [words] at gathered
      cases gathered
    | ok _ =>
      rw [words] at gathered
      cases size : ensure (entropy_len = if nwords = 12 then BIP39_ENTROPY_LEN_128 else BIP39_ENTROPY_LEN_256) with
      | error exit =>
        rw [size] at gathered
        cases gathered
      | ok _ =>
        rw [size] at gathered
        cases run : fed.foldlM (camera_entropy_feed sha256) (.start (macid ++ ticks) label_node) with
        | error exit =>
          rw [run] at gathered
          cases gathered
        | ok ctx =>
          rw [run] at gathered
          obtain ⟨taken, collected⟩ := run_iff.mp run
          have knows := collected.knows.1
          change (if (!gui_escape_pending && decide (ctx.nframes ≥ CAMERA_ENTROPY_FRAMES)) = true then _ else _) = _ at gathered
          by_cases finished : (!gui_escape_pending && decide (ctx.nframes ≥ CAMERA_ENTROPY_FRAMES)) = true
          · rw [if_pos finished] at gathered
            cases gathered
            rw [Bool.and_eq_true, decide_eq_true_eq, knows.nframes] at finished
            exact ⟨taken, ctx, collected, finished.2, by rw [knows.hasher]⟩
          · rw [if_neg finished] at gathered
            cases gathered

/-- A frame of one pixel for each block. -/
def stripes (seed : Nat) : Frame where
  width := 8
  height := 8
  data := (List.range 64).map fun i => UInt8.ofNat (seed * i)

theorem stripes_counts : Counts Sha256.hash [] (stripes 3) where
  range := by decide +kernel
  moved := by
    obtain ⟨current, averages⟩ := @frame_signature_total (stripes 3) (by decide) (by decide) (by decide) (by decide)
    refine ⟨current, averages, ?_⟩
    intro last none
    cases none
  fresh := by
    intro j old _ here
    cases here

/-- The blocks of one pixel. -/
theorem frame_signature_of_pixels {frame : Frame} (wide : frame.width / CAMERA_SIGNATURE_SIDE = 1)
    (high : frame.height / CAMERA_SIGNATURE_SIDE = 1) :
    frame_signature frame = Vector.ofFnM (block_average frame 1 1 1) := by
  have some_pixel : ensure ((1 : Nat) != 0) = .ok () := rfl
  have pixels : UInt32.ofNat (1 * 1) = 1 := rfl
  rw [frame_signature, wide, high, some_pixel, pixels]
  generalize Vector.ofFnM (block_average frame 1 1 1) = averages
  rfl

/-- One pixel for each block and a ninth column, whose last pixel is a number. -/
def halves (left right number : UInt8) : Frame where
  width := 9
  height := 8
  data := ((List.range 71).map fun i => if i % 9 < 4 then left else right) ++ [number]

def halvesSignature (left right : UInt8) : Signature := Vector.ofFn fun i => if i.val % 8 < 4 then left else right

/-- The ninth column is in no block. -/
theorem frame_signature_halves (left right number : UInt8) :
    frame_signature (halves left right number) = .ok (halvesSignature left right) := by
  have each (i : Block) : block_average (halves left right number) 1 1 1 i = .ok (if i.val % 8 < 4 then left else right) := by
    have inside : i.val < 64 := i.isLt
    have first : i.val / 8 * 9 + i.val % 8 < 71 := by omega
    have column : (i.val / 8 * 9 + i.val % 8) % 9 = i.val % 8 := by omega
    have value : pixel (halves left right number).data (i.val / 8 * 9 + i.val % 8) =
        .ok (if i.val % 8 < 4 then left else right) := by
      rw [pixel, halves, List.getElem?_append_left (by simpa using first), List.getElem?_map,
        List.getElem?_range first, Option.map_some, column]
    have sum : block_sum (halves left right number).data 9 1 1 (i.val / 8 * 9 + i.val % 8) =
        .ok (if i.val % 8 < 4 then left else right).toUInt32 := by
      simp only [block_sum, List.range_one, List.foldlM_cons, List.foldlM_nil, Nat.zero_mul, Nat.add_zero, value]
      exact congrArg Except.ok (UInt32.zero_add _)
    rw [block_average, CAMERA_SIGNATURE_SIDE, Nat.mul_one, Nat.mul_one]
    change (block_sum (halves left right number).data 9 1 1 (i.val / 8 * 9 + i.val % 8) >>= _) = _
    rw [sum]
    generalize (if i.val % 8 < 4 then left else right) = value
    show Except.ok ((value.toUInt32 / 1).toUInt8) = _
    rw [UInt32.div_one, UInt8.toUInt8_toUInt32]
  have wide : (halves left right number).width / CAMERA_SIGNATURE_SIDE = 1 := by simp [halves, CAMERA_SIGNATURE_SIDE]
  have high : (halves left right number).height / CAMERA_SIGNATURE_SIDE = 1 := by simp [halves, CAMERA_SIGNATURE_SIDE]
  have blocks := frame_signature_of_pixels wide high
  have all (f : Block → UInt8) : Vector.ofFnM (fun i => (.ok (f i) : Except Exit UInt8)) = .ok (Vector.ofFn f) :=
    Vector.ofFnM_pure
  rw [blocks, funext each, all]
  rfl

/-- Frames that change sides, each with its number. -/
def sides (i : Nat) : Frame := if i % 2 = 0 then halves 0 200 (UInt8.ofNat i) else halves 200 0 (UInt8.ofNat i)

/-- In place of a digest, the last 32 bytes. -/
def lastBytes (data : Bytes) : Bytes := data.drop 40

theorem sides_signature (i : Nat) :
    frame_signature (sides i) = .ok (if i % 2 = 0 then halvesSignature 0 200 else halvesSignature 200 0) := by
  rw [sides]
  split
  · exact frame_signature_halves 0 200 _
  · exact frame_signature_halves 200 0 _

theorem sides_moved : signature_change (halvesSignature 0 200) (halvesSignature 200 0) = some 12800 ∧
    signature_change (halvesSignature 200 0) (halvesSignature 0 200) = some 12800 := by
  constructor <;> decide +kernel

theorem sides_last (i : Nat) : (lastBytes (sides i).data).getLast? = some (UInt8.ofNat i) := by
  have last (left right : UInt8) : (lastBytes (halves left right (UInt8.ofNat i)).data).getLast? = some (UInt8.ofNat i) := by
    rw [lastBytes, halves, List.drop_append_of_le_length (by simp), List.getLast?_append]
    rfl
  rw [sides]
  split
  · exact last 0 200
  · exact last 200 0

theorem sides_counts {i : Nat} (few : i < 50) : Counts lastBytes ((List.range i).map sides) (sides i) where
  range := by
    have ranges : ∀ i < 50, CAMERA_FRAME_MIN_RANGE ≤ pixel_range (sides i).data := by decide +kernel
    exact ranges i few
  moved := by
    refine ⟨_, sides_signature i, fun last here => ?_⟩
    obtain ⟨before, rfl⟩ : ∃ before, i = before + 1 := by
      cases i with
      | zero => cases here
      | succ before => exact ⟨before, rfl⟩
    rw [List.range_succ, List.map_append, List.getLast?_append] at here
    obtain rfl : sides before = last := Option.some.inj here
    refine ⟨_, 12800, sides_signature before, ?_, by decide⟩
    by_cases even : before % 2 = 0
    · rw [if_pos even, if_neg (by omega)]
      exact sides_moved.1
    · rw [if_neg even, if_pos (by omega)]
      exact sides_moved.2
  fresh := by
    intro j old _ here same
    obtain ⟨below, rfl⟩ : j < i ∧ sides j = old := by
      rw [List.getElem?_map] at here
      by_cases inside : j < i
      · rw [List.getElem?_range inside] at here
        exact ⟨inside, Option.some.inj here⟩
      · rw [List.getElem?_eq_none (by simpa using inside)] at here
        cases here
    have numbers := congrArg List.getLast? same
    rw [sides_last, sides_last] at numbers
    have equal := congrArg UInt8.toNat (Option.some.inj numbers)
    have small : UInt8.size = 256 := rfl
    rw [UInt8.toNat_ofNat_of_lt' (by omega), UInt8.toNat_ofNat_of_lt' (by omega)] at equal
    omega

/-- Each of the first fifty frames counts. -/
theorem sides_collected {n : Nat} (few : n ≤ 50) :
    ∃ ctx, Collected lastBytes ([1] ++ [2]) true ((List.range n).map sides) ((List.range n).map sides) ctx := by
  induction n with
  | zero => exact ⟨_, .start⟩
  | succ n ih =>
    obtain ⟨ctx, collected⟩ := ih (by omega)
    have frame : 8 ≤ (sides n).width ∧ 8 ≤ (sides n).height ∧ (sides n).width * (sides n).height < 2 ^ 32 ∧
        (sides n).width * (sides n).height ≤ (sides n).data.length := by
      rw [sides]
      split <;> simp [halves]
    obtain ⟨next, fed⟩ := @feed_total lastBytes ctx (sides n) frame.1 frame.2.1 frame.2.2.1 frame.2.2.2
    rcases collected.knows.1.feed fed with ⟨_, counted, _⟩ | ⟨fails, _, _⟩
    · rw [List.range_succ, List.map_append]
      exact ⟨next, collected.accepted fed counted⟩
    · exact absurd (sides_counts few) fails

/-- The first frame counts, and the same frame does not count again. Fifty frames that differ are
    enough for entropy, which is made of all of them. -/
theorem camera_entropy_gate_stripes_and_sides :
    (∃ ctx, Collected Sha256.hash ([1] ++ [2]) true [stripes 3, stripes 3] [stripes 3] ctx ∧
      ctx.nframes = [stripes 3].length ∧
      ∀ before frame rest, [stripes 3] = before ++ frame :: rest → Counts Sha256.hash before frame) ∧
    ∃ entropy taken ctx,
      gather_camera_entropy lastBytes 12 16 [1] [2] true ((List.range 50).map sides) false [9] = .ok (some entropy) ∧
      Collected lastBytes ([1] ++ [2]) true ((List.range 50).map sides) taken ctx ∧ CAMERA_ENTROPY_FRAMES ≤ taken.length ∧
        entropy = (lastBytes ([1] ++ [2] ++ taken.flatMap Frame.data ++ [9])).take 16 := by
  constructor
  · obtain ⟨first, one⟩ := @feed_total Sha256.hash (.start ([1] ++ [2]) true) (stripes 3) (by decide) (by decide)
      (by decide) (by decide)
    obtain ⟨second, two⟩ := @feed_total Sha256.hash first (stripes 3) (by decide) (by decide) (by decide) (by decide)
    rcases knows_start.feed one with ⟨_, counted, knows⟩ | ⟨fails, _, _⟩
    · rcases knows.feed two with ⟨counts, _, _⟩ | ⟨_, untouched, _⟩
      · exact absurd rfl (counts.fresh 0 (stripes 3) (by decide) rfl)
      · have collected := ((@Collected.start Sha256.hash ([1] ++ [2]) true).accepted one
          counted).rejected two untouched.not_accepted
        have known := (camera_entropy_gate Sha256.hash [1] [2] true).1 _ _ _ collected
        exact ⟨second, collected, known.1, known.2.2.1⟩
    · exact absurd stripes_counts fails
  · obtain ⟨ctx, collected⟩ := sides_collected (Nat.le_refl 50)
    have gathered : gather_camera_entropy lastBytes 12 16 [1] [2] true ((List.range 50).map sides) false [9] =
        .ok (some ((lastBytes (ctx.hasher ++ [9])).take 16)) := by
      have enough : decide (ctx.nframes ≥ CAMERA_ENTROPY_FRAMES) = true := by
        rw [collected.knows.1.nframes, List.length_map, List.length_range]
        rfl
      have ran := run_iff.mpr ⟨_, collected⟩
      generalize (List.range 50).map sides = fed at ran
      rw [gather_camera_entropy, ran]
      show (if (!false && decide (ctx.nframes ≥ CAMERA_ENTROPY_FRAMES)) = true then _ else _) = _
      rw [enough]
      rfl
    obtain ⟨taken, ctx', collected', enough, made⟩ := (camera_entropy_gate lastBytes [1] [2] true).2 _ _ _ _ _ _ gathered
    exact ⟨_, taken, ctx', gathered, collected', enough, made⟩

end PiJade.CameraGate
