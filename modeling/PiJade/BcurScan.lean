import PiJade.BbqrContext
import PiJade.BcurIcons
import PiJade.BcurSequence

/-!
One scan session (`collect_any_bcur` and `bcur_scan_qr` of `main/bcur.c`). The UR decoder and the
BBQr collector share it: each frame goes to one of them or ends the scan as it is, and what the
scan returns is told from the two collectors afterwards. The decoder is that of the bc-ur
library, a parameter; the progress bar is left out.
-/
namespace PiJade.Bcur
open Bbqr (Ctx Heap Valid bbqr_is_header bbqr_collect bbqr_finalise)
open Text
set_option linter.unusedSimpArgs false

/-- The decoder with what a scan asks it. -/
structure UrCollector (V : Type) extends UrDecoder V where
  uris_failure : V → Bool
  urreceived_parts_count : V → Nat
  /-- The payload and its type. -/
  urresult_ur : V → Bytes × Bytes

/-- `scan_ctx_t`. -/
structure ScanCtx (V : Type) where
  urdecoder : V
  bbqr : Ctx

/-- What `bcur_scan_qr` returns. -/
inductive Scanned where
  | exited
  | ur (result_type result : Bytes)
  | bbqr (file_type : UInt8) (payload : Bytes)
  | undecodable
  | plain (data : Bytes)
  deriving DecidableEq, Repr

def BCUR_PREFIX : Bytes := ['u'.toUInt8, 'r'.toUInt8, ':'.toUInt8]

/-- Longer than the prefix, and it begins with it in any case. -/
def isUr (data : Bytes) : Bool := decide (BCUR_PREFIX.length < data.length) && decide ((data.take 3).map tolower = BCUR_PREFIX)

/-- A frame and what an allocation made for it holds. -/
structure Frame where
  data : Bytes
  heap : Heap

section
variable {V : Type} (decoders : Bbqr.Decoders) (collector : UrCollector V)

/-- A part for the decoder, which is a fresh one after a failure. -/
def receivePart (ctx : ScanCtx V) (text : Bytes) : Bool × ScanCtx V :=
  let urdecoder := collector.urreceive_part ctx.urdecoder text
  if collector.uris_failure urdecoder then (false, { ctx with urdecoder := collector.urcreate })
  else (collector.uris_success urdecoder, { ctx with urdecoder := urdecoder })

/-- A frame that looks like a UR, behind the gate. -/
def collectUr (ctx : ScanCtx V) (data : Bytes) : Check Bbqr.Fault (Bool × ScanCtx V) :=
  match bcur_sequence_component_ok (cstr data) with
  | .ok passed => .ok (if passed then receivePart collector ctx (cstr data) else (false, ctx))
  | .error _ => .error .abort

def collectBbqr (ctx : ScanCtx V) (frame : Frame) : Check Bbqr.Fault (Bool × ScanCtx V) :=
  if collector.urreceived_parts_count ctx.urdecoder ≠ 0 then .ok (false, ctx)
  else do
    let collected ← bbqr_collect decoders frame.heap ctx.bbqr frame.data
    pure (decide (collected.1 = .COMPLETE), { ctx with bbqr := collected.2 })

def collect_any_bcur (bbqr_enabled : Bool) (ctx : ScanCtx V) (frame : Frame) : Check Bbqr.Fault (Bool × ScanCtx V) := do
  Check.ensure (frame.data.length ≠ 0)
  if bbqr_enabled ∧ bbqr_is_header frame.data then collectBbqr decoders collector ctx frame
  else if ctx.bbqr.num_parts ≠ 0 then pure (false, ctx)
  else if !isUr frame.data then pure (true, ctx)
  else collectUr collector ctx frame.data

/-- `jade_camera_scan_qr`: frames are collected until one ends the scan, or the user leaves. -/
def scanFrames (bbqr_enabled : Bool) : List Frame → ScanCtx V → Check Bbqr.Fault (Option Bytes × ScanCtx V)
  | [], ctx => .ok (none, ctx)
  | frame :: rest, ctx => do
    let collected ← collect_any_bcur decoders collector bbqr_enabled ctx frame
    if collected.1 then pure (some frame.data, collected.2) else scanFrames bbqr_enabled rest collected.2

/-- What is returned after a frame ended the scan. -/
def outputOf (bbqr_enabled : Bool) (data : Bytes) (ctx : ScanCtx V) : Check Bbqr.Fault Scanned :=
  if collector.uris_success ctx.urdecoder then do
    let result := collector.urresult_ur ctx.urdecoder
    Check.ensure (result.1.length ≠ 0)
    pure (.ur result.2 result.1)
  else if ctx.bbqr.num_seen ≠ 0 ∧ ctx.bbqr.num_seen = ctx.bbqr.num_parts then do
    Check.ensure bbqr_enabled
    let finalised ← bbqr_finalise decoders ctx.bbqr
    match finalised.1 with
    | none => pure .undecodable
    | some (payload, file_type) => pure (.bbqr file_type payload)
  else pure (.plain data)

def startScan : ScanCtx V := { urdecoder := collector.urcreate, bbqr := Ctx.zero }

def bcur_scan_qr (bbqr_enabled : Bool) (frames : List Frame) : Check Bbqr.Fault Scanned := do
  let scanned ← scanFrames decoders collector bbqr_enabled frames (startScan collector)
  match scanned.1 with
  | none => pure .exited
  | some data => outputOf decoders collector bbqr_enabled data scanned.2

/-! ### Frames -/

/-- What holds while the scan goes on: the collector is sound, and the decoder has not
    succeeded. -/
structure Open (ctx : ScanCtx V) : Prop where
  bbqr : Valid decoders ctx.bbqr
  unfinished : collector.uris_success ctx.urdecoder = false

/-- What the decoder is relied on for: it has not succeeded before its first part, and when it
    has, there is a payload. -/
structure UrCollector.Lawful (collector : UrCollector V) : Prop where
  fresh : collector.uris_success collector.urcreate = false
  payload : ∀ v, collector.uris_success v = true → (collector.urresult_ur v).1 ≠ []

/-- How a frame ends a scan, and what is returned then. -/
inductive Ending (ctx after : ScanCtx V) (frame : Frame) : Scanned → Prop where
  | ur (not_bbqr : bbqr_is_header frame.data = false) (is_ur : isUr frame.data = true) (no_part : ctx.bbqr.num_seen = 0)
      (received : after.urdecoder = collector.urreceive_part ctx.urdecoder (cstr frame.data))
      (success : collector.uris_success after.urdecoder = true) :
      Ending ctx after frame
        (.ur (collector.urresult_ur after.urdecoder).2 (collector.urresult_ur after.urdecoder).1)
  | bbqr (is_bbqr : bbqr_is_header frame.data = true) (no_part : collector.urreceived_parts_count ctx.urdecoder = 0)
      (collected : bbqr_collect decoders frame.heap ctx.bbqr frame.data = .ok (.COMPLETE, after.bbqr))
      {payload : Bytes} {file_type : UInt8} {left : Ctx}
      (whole : bbqr_finalise decoders after.bbqr = .ok (some (payload, file_type), left)) :
      Ending ctx after frame (.bbqr file_type payload)
  | undecodable (is_bbqr : bbqr_is_header frame.data = true)
      (no_part : collector.urreceived_parts_count ctx.urdecoder = 0)
      (collected : bbqr_collect decoders frame.heap ctx.bbqr frame.data = .ok (.COMPLETE, after.bbqr)) {left : Ctx}
      (unreadable : bbqr_finalise decoders after.bbqr = .ok (none, left)) : Ending ctx after frame .undecodable
  | plain (not_bbqr : bbqr_is_header frame.data = false) (not_ur : isUr frame.data = false)
      (no_part : ctx.bbqr.num_seen = 0) (unchanged : after = ctx) : Ending ctx after frame (.plain frame.data)

variable {decoders collector}

theorem num_seen_zero {ctx : Ctx} (valid : Valid decoders ctx) (empty : ctx.num_parts = 0) : ctx.num_seen = 0 := by
  obtain rfl | ⟨held, collects⟩ := valid
  · rfl
  · exact absurd empty collects.num_parts_ne

/-- What is not rejected reports the progress of a collection under way. -/
theorem collected_progress {heap : Heap} {ctx : Ctx} {data : Bytes} {result : Bbqr.CollectResult × Ctx}
    (collected : Bbqr.Collected decoders heap ctx data result) (taken : result.1 ≠ .REJECTED) :
    result.1 = result.2.progress ∧ result.2.num_parts ≠ 0 := by
  cases collected with
  | passed_over => exact absurd rfl taken
  | again head reads collecting => exact ⟨rfl, collecting⟩
  | misfit => exact absurd rfl taken
  | another head held reads collects unseen fits =>
    have parts := (reads.parts collects.num_parts_ne).2.2
    exact ⟨rfl, (collects.placed parts (parts ▸ reads.bounds.1) fits reads.payload_read unseen).num_parts_ne⟩
  | no_beginning => exact absurd rfl taken
  | beginning head reads restart can =>
    have collects : Bbqr.Collects decoders _ _ := Bbqr.opening_collects heap reads.bounds reads.payload_read can
    exact ⟨rfl, collects.num_parts_ne⟩

/-- A collection that reports to be complete is. -/
theorem collected_complete {heap : Heap} {ctx after : Ctx} {data : Bytes} (valid : Valid decoders ctx)
    (collected : bbqr_collect decoders heap ctx data = .ok (.COMPLETE, after)) :
    Valid decoders after ∧ after.num_seen = after.num_parts ∧ after.num_seen ≠ 0 := by
  obtain ⟨result, run, becomes⟩ := Bbqr.bbqr_collect_cases heap valid data
  rw [collected] at run
  cases run
  obtain ⟨progress, collecting⟩ := collected_progress becomes (by simp)
  have same : after.num_seen = after.num_parts := by
    by_contra different
    simp [Ctx.progress, different] at progress
  exact ⟨becomes.valid valid, same, same ▸ collecting⟩

/-- A BBQr frame leaves the decoder alone, and the collector too while the decoder has parts. -/
theorem collectBbqr_eq {ctx : ScanCtx V} (inv : Open decoders collector ctx) (frame : Frame) :
    ∃ done after, collectBbqr decoders collector ctx frame = .ok (done, after) ∧ Open decoders collector after ∧
      (collector.urreceived_parts_count ctx.urdecoder ≠ 0 → done = false ∧ after = ctx) ∧
      (done = true → collector.urreceived_parts_count ctx.urdecoder = 0 ∧
        bbqr_collect decoders frame.heap ctx.bbqr frame.data = .ok (.COMPLETE, after.bbqr)) := by
  rw [collectBbqr]
  by_cases parts : collector.urreceived_parts_count ctx.urdecoder = 0
  · obtain ⟨⟨result, bbqr⟩, run, becomes⟩ := Bbqr.bbqr_collect_cases frame.heap inv.bbqr frame.data
    refine ⟨decide (result = .COMPLETE), { ctx with bbqr := bbqr }, ?_, ⟨becomes.valid inv.bbqr, inv.unfinished⟩, ?_, ?_⟩
    · rw [if_neg (not_not.mpr parts), run]
      rfl
    · exact fun other => absurd parts other
    · intro complete
      rw [decide_eq_true_eq] at complete
      exact ⟨parts, by rw [run, complete]⟩
  · refine ⟨false, ctx, if_pos parts, inv, fun _ => ⟨rfl, rfl⟩, ?_⟩
    intro impossible
    cases impossible

/-- A UR frame goes to the decoder if the gate passes it. When it does not end the scan, the
    decoder has not succeeded. -/
theorem collectUr_eq (lawful : collector.Lawful) {ctx : ScanCtx V} (inv : Open decoders collector ctx) (data : Bytes) :
    ∃ done after, collectUr collector ctx data = .ok (done, after) ∧ after.bbqr = ctx.bbqr ∧
      (done = true → after.urdecoder = collector.urreceive_part ctx.urdecoder (cstr data) ∧
        collector.uris_success after.urdecoder = true) ∧
      (done = false → Open decoders collector after) := by
  obtain ⟨passed, gate, _⟩ := bcur_sequence_component_ok_eq (cstr data)
  rw [collectUr, gate]
  cases passed with
  | false => exact ⟨false, ctx, rfl, rfl, by simp, fun _ => inv⟩
  | true =>
    by_cases fails : collector.uris_failure (collector.urreceive_part ctx.urdecoder (cstr data)) = true
    · refine ⟨false, { ctx with urdecoder := collector.urcreate }, ?_, rfl, by simp, fun _ => ⟨inv.bbqr, lawful.fresh⟩⟩
      simp [receivePart, fails]
    · refine ⟨collector.uris_success (collector.urreceive_part ctx.urdecoder (cstr data)),
        { ctx with urdecoder := collector.urreceive_part ctx.urdecoder (cstr data) }, ?_, rfl, ?_, ?_⟩
      · simp [receivePart, fails]
      · exact fun success => ⟨rfl, success⟩
      · exact fun unfinished => ⟨inv.bbqr, unfinished⟩

/-- What a collector under way does with one frame. -/
structure Owned (collector : UrCollector V) (ctx after : ScanCtx V) (frame : Frame) (done : Bool) : Prop where
  bbqr : ctx.bbqr.num_seen ≠ 0 → bbqr_is_header frame.data = false → done = false ∧ after = ctx
  ur : collector.urreceived_parts_count ctx.urdecoder ≠ 0 → bbqr_is_header frame.data = true → after.bbqr = ctx.bbqr

/-- One frame: the collectors do not disturb each other, and either the scan goes on or it ends
    in one of the named ways. -/
theorem collect_any_bcur_eq (lawful : collector.Lawful) {ctx : ScanCtx V} (inv : Open decoders collector ctx)
    {frame : Frame} (filled : frame.data ≠ []) :
    ∃ done after, collect_any_bcur decoders collector true ctx frame = .ok (done, after) ∧
      Owned collector ctx after frame done ∧ (done = false → Open decoders collector after) ∧
      (done = true → ∃ scanned, outputOf decoders collector true frame.data after = .ok scanned ∧
        Ending decoders collector ctx after frame scanned) := by
  have asserted : decide (frame.data.length ≠ 0) = true := by simp [filled]
  rw [collect_any_bcur, asserted, Check.ensure_true, Check.ok_bind]
  cases header : bbqr_is_header frame.data with
  | true =>
    rw [if_pos ⟨rfl, rfl⟩]
    obtain ⟨done, after, run, stays, held, completes⟩ := collectBbqr_eq inv frame
    refine ⟨done, after, run, ⟨?_, ?_⟩, fun _ => stays, ?_⟩
    · intro _ other
      rw [header] at other
      cases other
    · exact fun parts _ => by rw [(held parts).2]
    · intro complete
      obtain ⟨parts, collected⟩ := completes complete
      obtain ⟨valid, same, some_part⟩ := collected_complete inv.bbqr collected
      have second : outputOf decoders collector true frame.data after = (do
          let finalised ← bbqr_finalise decoders after.bbqr
          match finalised.1 with
          | none => pure .undecodable
          | some (payload, file_type) => pure (.bbqr file_type payload)) := by
        rw [outputOf, if_neg (by simp [stays.unfinished]), if_pos ⟨some_part, same⟩]
        rfl
      obtain empty | ⟨held, collects⟩ := valid
      · rw [empty] at some_part
        exact absurd rfl some_part
      · have finalised := Bbqr.bbqr_finalise_complete collects same
        rw [second, finalised]
        cases delivered : Bbqr.delivered decoders after.bbqr held with
        | none =>
          rw [delivered] at finalised
          exact ⟨.undecodable, rfl, .undecodable header parts collected finalised⟩
        | some payload =>
          rw [delivered] at finalised
          exact ⟨.bbqr after.bbqr.file_type payload, rfl, .bbqr header parts collected finalised⟩
  | false =>
    rw [if_neg (by simp)]
    by_cases collecting : ctx.bbqr.num_parts = 0
    · have no_part := num_seen_zero inv.bbqr collecting
      rw [if_neg (not_not.mpr collecting)]
      have owned : ∀ after done, after.bbqr = ctx.bbqr → Owned collector ctx after frame done := by
        intro after done same
        exact ⟨fun holds => absurd no_part holds, fun _ _ => same⟩
      cases ur : isUr frame.data with
      | false =>
        refine ⟨true, ctx, rfl, owned ctx true rfl, by simp, ?_⟩
        intro _
        refine ⟨.plain frame.data, ?_, .plain header ur no_part rfl⟩
        simp [outputOf, inv.unfinished, no_part]
      | true =>
        obtain ⟨done, after, run, same, ends, goes_on⟩ := collectUr_eq lawful inv frame.data
        refine ⟨done, after, run, owned after done same, goes_on, ?_⟩
        intro complete
        obtain ⟨received, success⟩ := ends complete
        refine ⟨_, ?_, .ur header ur no_part received success⟩
        simp [outputOf, success, lawful.payload _ success]
    · rw [if_pos collecting]
      refine ⟨false, ctx, rfl, ⟨fun _ _ => ⟨rfl, rfl⟩, fun _ _ => rfl⟩, fun _ => inv, by simp⟩

/-! ### Sessions -/

theorem open_start (lawful : collector.Lawful) : Open decoders collector (startScan collector) :=
  ⟨.inl rfl, lawful.fresh⟩

/-- A scan that goes on stays open. -/
theorem scanFrames_open (lawful : collector.Lawful) {frames : List Frame} (filled : ∀ frame ∈ frames, frame.data ≠ [])
    {ctx after : ScanCtx V} (inv : Open decoders collector ctx)
    (reached : scanFrames decoders collector true frames ctx = .ok (none, after)) : Open decoders collector after := by
  induction frames generalizing ctx with
  | nil =>
    cases reached
    exact inv
  | cons frame rest ih =>
    obtain ⟨first, others⟩ := List.forall_mem_cons.mp filled
    obtain ⟨done, mid, run, _, goes_on, _⟩ := collect_any_bcur_eq lawful inv first
    rw [scanFrames, run, Check.ok_bind] at reached
    cases done with
    | true => cases reached
    | false => exact ih others (goes_on rfl) reached

/-- The frames that did not end the scan, then one that does. -/
theorem scanFrames_append {frames rest : List Frame} {frame : Frame} {ctx mid after : ScanCtx V}
    (reached : scanFrames decoders collector true frames ctx = .ok (none, mid))
    (ends : collect_any_bcur decoders collector true mid frame = .ok (true, after)) :
    scanFrames decoders collector true (frames ++ frame :: rest) ctx = .ok (some frame.data, after) := by
  induction frames generalizing ctx with
  | nil =>
    cases reached
    rw [List.nil_append, scanFrames, ends, Check.ok_bind]
    rfl
  | cons first later ih =>
    rw [scanFrames, Check.bind_eq_ok] at reached
    obtain ⟨⟨done, next⟩, run, reached⟩ := reached
    cases done with
    | true => cases reached
    | false =>
      rw [List.cons_append, scanFrames, run, Check.ok_bind]
      exact ih reached

/-- In every session, after any frames that did not end it, each frame is dealt with: a
    collector with parts is not disturbed by a frame that is not for it, and a frame that ends
    the scan does so as the last part of a transfer, or as a plain frame when no BBQr part is
    held. The scan returns that transfer or that frame. -/
theorem one_transfer_per_scan (lawful : collector.Lawful) (frames : List Frame)
    (filled : ∀ frame ∈ frames, frame.data ≠ []) (ctx : ScanCtx V)
    (reached : scanFrames decoders collector true frames (startScan collector) = .ok (none, ctx))
    (frame : Frame) (nonempty : frame.data ≠ []) :
    ∃ done after, collect_any_bcur decoders collector true ctx frame = .ok (done, after) ∧
      (ctx.bbqr.num_seen ≠ 0 → bbqr_is_header frame.data = false → done = false ∧ after = ctx) ∧
      (collector.urreceived_parts_count ctx.urdecoder ≠ 0 → bbqr_is_header frame.data = true → after.bbqr = ctx.bbqr) ∧
      (done = true → ∀ rest, ∃ scanned,
        bcur_scan_qr decoders collector true (frames ++ frame :: rest) = .ok scanned ∧
          Ending decoders collector ctx after frame scanned) := by
  have inv := scanFrames_open lawful filled (open_start lawful) reached
  obtain ⟨done, after, run, owned, _, ends⟩ := collect_any_bcur_eq lawful inv nonempty
  refine ⟨done, after, run, owned.bbqr, owned.ur, ?_⟩
  rintro rfl rest
  obtain ⟨scanned, returned, ending⟩ := ends rfl
  refine ⟨scanned, ?_, ending⟩
  rw [bcur_scan_qr, scanFrames_append reached run, Check.ok_bind]
  exact returned

end

/-- Counts the parts, and has its payload after the second. -/
def twoPartCollector : UrCollector Nat where
  urcreate := 0
  urreceive_part count _ := count + 1
  uris_success count := decide (2 ≤ count)
  uris_failure _ := false
  urreceived_parts_count count := count
  urresult_ur _ := ([1, 2], bytesType)

/-- Hex text is not read, nothing is inflated. -/
def refusingDecoders : Bbqr.Decoders where
  wally_hex_n_to_bytes _ _ := none
  tinfl_decompress _ _ := { done := false, consumed := 0, produced := [] }

theorem twoPartCollector_lawful : twoPartCollector.Lawful where
  fresh := rfl
  payload _ _ := by simp [twoPartCollector]

def frameOf (text : List Char) : Frame := { data := text.map Char.toUInt8, heap := fun _ => 0 }

/-- The first of two UR parts. -/
def firstPart : Frame := frameOf ['u', 'r', ':', 'b', 'y', 't', 'e', 's', '/', '1', '-', '2', '/', 'a']

def strayFrame : Frame := frameOf ['h', 'i']

/-- The session in which the first part has been received. -/
def halfDone : ScanCtx Nat := { urdecoder := 1, bbqr := Ctx.zero }

theorem one_transfer_per_scan_secondPart :
    ∃ scanned, bcur_scan_qr refusingDecoders twoPartCollector true [firstPart, firstPart] = .ok scanned ∧
      ∃ after, Ending refusingDecoders twoPartCollector halfDone after firstPart scanned := by
  have reached : scanFrames refusingDecoders twoPartCollector true [firstPart] (startScan twoPartCollector) =
      .ok (none, halfDone) := rfl
  obtain ⟨done, after, run, _, _, ends⟩ := one_transfer_per_scan twoPartCollector_lawful [firstPart]
    (by simp [firstPart, frameOf]) halfDone reached firstPart (by simp [firstPart, frameOf])
  have complete : collect_any_bcur refusingDecoders twoPartCollector true halfDone firstPart =
      .ok (true, { urdecoder := 2, bbqr := Ctx.zero }) := rfl
  rw [complete] at run
  cases run
  obtain ⟨scanned, returned, ending⟩ := ends rfl []
  exact ⟨scanned, returned, _, ending⟩

/-- A plain frame ends the scan although the decoder has received a part, and is what the scan
    returns. -/
theorem stray_frame_ends_ur :
    scanFrames refusingDecoders twoPartCollector true [firstPart] (startScan twoPartCollector) = .ok (none, halfDone) ∧
      twoPartCollector.urreceived_parts_count halfDone.urdecoder = 1 ∧
      twoPartCollector.uris_success halfDone.urdecoder = false ∧
      collect_any_bcur refusingDecoders twoPartCollector true halfDone strayFrame = .ok (true, halfDone) ∧
      bcur_scan_qr refusingDecoders twoPartCollector true [firstPart, strayFrame] = .ok (.plain strayFrame.data) :=
  ⟨rfl, rfl, rfl, rfl, rfl⟩

end PiJade.Bcur
