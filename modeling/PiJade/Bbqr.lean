import PiJade.Base32
import PiJade.Process

/-!
The reader of BBQr frames (`main/bbqr.c`). Parts are written in place, each at its index
times the block length, into a buffer allocated when the first part of a transfer is
taken. Accesses outside a buffer and failed assertions are explicit outcomes; what a new
buffer holds is up to the allocator. The hex decoder and the inflater are parameters.
-/
namespace PiJade.Bbqr
set_option linter.unusedSimpArgs false
open Base32 (base32_to_bin)

def BBQR_HEADER_LEN : Nat := 8
def BBQR_MAX_PARTS : Nat := 1295
def QR_MAX_PAYLOAD_LENGTH : Nat := 1024
def MAX_INPUT_MSG_SIZE : Nat := 1024 * 401
def BBQR_MAX_FRAME_PAYLOAD : Nat := QR_MAX_PAYLOAD_LENGTH - BBQR_HEADER_LEN
def BBQR_MAX_FRAME_DECODED : Nat := BBQR_MAX_FRAME_PAYLOAD / 8 * 5

def ascii (c : Char) : UInt8 := UInt8.ofNat c.toNat

inductive Fault where
  | out_of_bounds
  deriving DecidableEq, Repr

/-- `bbqr_collect_result_t`. -/
inductive CollectResult where
  | REJECTED
  | IN_PROGRESS
  | COMPLETE
  deriving DecidableEq, Repr

/-- `bbqr_ctx_t` without the scratch buffer, which only carries a decoded part from one
    line of `bbqr_collect` to the next. -/
structure Ctx where
  data : Option Bytes
  data_len : Nat
  inflated : Option Bytes
  inflated_len : Nat
  block_len : Nat
  final_len : Nat
  num_parts : Nat
  num_seen : Nat
  encoding : UInt8
  file_type : UInt8
  seen : Bytes
  deriving DecidableEq

/-- A zeroed context. -/
def Ctx.zero : Ctx where
  data := none
  data_len := 0
  inflated := none
  inflated_len := 0
  block_len := 0
  final_len := 0
  num_parts := 0
  num_seen := 0
  encoding := 0
  file_type := 0
  seen := List.replicate ((BBQR_MAX_PARTS + 7) / 8) 0

/-- What a `tinfl_decompress` into one buffer reports. -/
structure Inflation where
  done : Bool
  consumed : Nat
  produced : Bytes

/-- The code outside this repository. -/
structure Decoders where
  /-- `wally_hex_n_to_bytes`: the bytes written, if it succeeds. -/
  wally_hex_n_to_bytes : Bytes → Nat → Option Bytes
  /-- `tinfl_decompress` with the compressed bytes and the room for the output. -/
  tinfl_decompress : Bytes → Nat → Inflation

/-- What a new allocation holds. -/
abbrev Heap := Nat → UInt8

def malloc (heap : Heap) (len : Nat) : Bytes := (List.range len).map heap

/-- `memcpy` of `bytes` to `offset` in a buffer. -/
def memcpy (buffer : Option Bytes) (offset : Nat) (bytes : Bytes) : Check Fault Bytes :=
  match buffer with
  | none => .error (.error .out_of_bounds)
  | some held =>
    if offset + bytes.length ≤ held.length then .ok (held.take offset ++ bytes ++ held.drop (offset + bytes.length))
    else .error (.error .out_of_bounds)

/-- Whether `memcmp` finds `bytes` at `offset` in a buffer. -/
def memcmp (buffer : Option Bytes) (offset : Nat) (bytes : Bytes) : Check Fault Bool :=
  match buffer with
  | none => .error (.error .out_of_bounds)
  | some held =>
    if offset + bytes.length ≤ held.length then .ok ((held.drop offset).take bytes.length = bytes)
    else .error (.error .out_of_bounds)

/-- The first bytes of a buffer, as a reader of the pointer and the length finds them. -/
def front (buffer : Option Bytes) (len : Nat) : Check Fault Bytes :=
  match buffer with
  | none => .error (.error .out_of_bounds)
  | some held => if len ≤ held.length then .ok (held.take len) else .error (.error .out_of_bounds)

def part_seen (ctx : Ctx) (index : Nat) : Check Fault Bool :=
  match ctx.seen[index / 8]? with
  | none => .error (.error .out_of_bounds)
  | some byte => .ok (byte &&& 1 <<< UInt8.ofNat (index % 8) ≠ 0)

def mark_part_seen (ctx : Ctx) (index : Nat) : Check Fault Ctx :=
  match ctx.seen[index / 8]? with
  | none => .error (.error .out_of_bounds)
  | some byte => .ok { ctx with seen := ctx.seen.set (index / 8) (byte ||| 1 <<< UInt8.ofNat (index % 8)) }

/-- Everything a collection holds is wiped. -/
def collection_reset (_ctx : Ctx) : Ctx := Ctx.zero

def base36 (c : UInt8) : Option Nat :=
  if ascii '0' ≤ c ∧ c ≤ ascii '9' then some (c.toNat - (ascii '0').toNat)
  else if ascii 'A' ≤ c ∧ c ≤ ascii 'Z' then some (c.toNat - (ascii 'A').toNat + 10)
  else none

def parse_base36_pair (first second : UInt8) : Option Nat :=
  match base36 first, base36 second with
  | some high, some low => some (high * 36 + low)
  | _, _ => none

def is_known_file_type (file_type : UInt8) : Bool :=
  ['P', 'T', 'J', 'C', 'U', 'X', 'B', 'R', 'S', 'E'].any fun known => file_type = ascii known

def is_bbqr_base32 (payload : Bytes) : Bool :=
  (payload.length % 8 = 0 || payload.length % 8 = 2 || payload.length % 8 = 4 || payload.length % 8 = 5 ||
    payload.length % 8 = 7) &&
  payload.all fun c => ascii 'A' ≤ c && c ≤ ascii 'Z' || ascii '2' ≤ c && c ≤ ascii '7'

section
variable (decoders : Decoders)

/-- The decoded bytes, none for anything malformed. -/
def decode_frame_payload (encoding : UInt8) (payload : Bytes) (is_final : Bool) (out_len : Nat) : Bytes :=
  if payload.length = 0 then []
  else if encoding = ascii 'H' then
    if payload.length % 2 ≠ 0 ∨ out_len < payload.length / 2 then []
    else match decoders.wally_hex_n_to_bytes payload out_len with
      | none => []
      | some written => if written.length ≠ payload.length / 2 then [] else written
  else if !is_final && payload.length % 8 ≠ 0 then []
  else if !is_bbqr_base32 payload then []
  else base32_to_bin payload out_len

/-- What `inflate_raw_deflate` accepts as the output of the inflater. -/
def inflation (compressed : Bytes) : Option Bytes :=
  let inflated := decoders.tinfl_decompress compressed MAX_INPUT_MSG_SIZE
  if !inflated.done ∨ inflated.consumed ≠ compressed.length ∨ inflated.produced.length = 0 then none
  else some inflated.produced

def inflate_raw_deflate (ctx : Ctx) (compressed_len : Nat) : Check Fault (Option Ctx) := do
  Check.ensure ctx.data.isSome
  Check.ensure (compressed_len ≠ 0)
  let compressed ← front ctx.data compressed_len
  match inflation decoders compressed with
  | none => pure none
  | some out => pure (some { ctx with inflated := some out, inflated_len := out.length })

def bbqr_is_header (data : Bytes) : Bool :=
  BBQR_HEADER_LEN ≤ data.length && data.getD 0 0 = ascii 'B' && data.getD 1 0 = ascii '$'

structure Header where
  encoding : UInt8
  file_type : UInt8
  num_parts : Nat
  index : Nat
  deriving DecidableEq

/-- The header `bbqr_collect` reads at the front of a frame. -/
def header (data : Bytes) : Option Header :=
  if !bbqr_is_header data then none
  else if (data.getD 2 0 ≠ ascii 'H' ∧ data.getD 2 0 ≠ ascii '2' ∧ data.getD 2 0 ≠ ascii 'Z') ∨
    !is_known_file_type (data.getD 3 0) then none
  else match parse_base36_pair (data.getD 4 0) (data.getD 5 0), parse_base36_pair (data.getD 6 0) (data.getD 7 0) with
    | some num_parts, some index =>
      if num_parts = 0 ∨ num_parts ≤ index then none
      else some { encoding := data.getD 2 0, file_type := data.getD 3 0, num_parts := num_parts, index := index }
    | _, _ => none

def Header.is_final (head : Header) : Bool := head.index = head.num_parts - 1

/-- The part a frame carries. -/
def decoded (head : Header) (data : Bytes) : Bytes :=
  decode_frame_payload decoders head.encoding (data.drop BBQR_HEADER_LEN) head.is_final BBQR_MAX_FRAME_DECODED

def Ctx.progress (ctx : Ctx) : CollectResult := if ctx.num_seen = ctx.num_parts then .COMPLETE else .IN_PROGRESS

/-- A collection starts with this part, unless it cannot give the block length or the
    transfer is too large. -/
def begin_collection (heap : Heap) (ctx : Ctx) (head : Header) (part : Bytes) : Option Ctx :=
  if ctx.num_parts ≠ 0 then some ctx
  else if head.is_final ∧ 1 < head.num_parts then none
  else if MAX_INPUT_MSG_SIZE < part.length * head.num_parts then none
  else some { ctx with
    data := some (malloc heap (part.length * head.num_parts))
    data_len := part.length * head.num_parts
    block_len := part.length
    num_parts := head.num_parts
    encoding := head.encoding
    file_type := head.file_type }

/-- The part goes to its place in the buffer. -/
def place (ctx : Ctx) (head : Header) (part : Bytes) : Check Fault (CollectResult × Ctx) :=
  if (if head.is_final then ctx.block_len < part.length else part.length ≠ ctx.block_len) then .ok (.REJECTED, ctx)
  else do
    let data ← memcpy ctx.data (head.index * ctx.block_len) part
    let ctx := { ctx with data := some data, final_len := if head.is_final then part.length else ctx.final_len }
    let ctx ← mark_part_seen ctx head.index
    let ctx := { ctx with num_seen := ctx.num_seen + 1 }
    pure (ctx.progress, ctx)

def begin_and_place (heap : Heap) (ctx : Ctx) (head : Header) (part : Bytes) : Check Fault (CollectResult × Ctx) :=
  match begin_collection heap ctx head part with
  | none => .ok (.REJECTED, ctx)
  | some ctx => place ctx head part

def foreign (ctx : Ctx) (head : Header) : Bool :=
  ctx.num_parts ≠ 0 &&
    (ctx.encoding ≠ head.encoding || ctx.file_type ≠ head.file_type || ctx.num_parts ≠ head.num_parts)

/-- Whether the part is the one held at its index. -/
def same_part (ctx : Ctx) (head : Header) (part : Bytes) : Check Fault Bool :=
  let held_len := if head.is_final then ctx.final_len else ctx.block_len
  if held_len = part.length then memcmp ctx.data (head.index * ctx.block_len) part
  else .ok false

def bbqr_collect (heap : Heap) (ctx : Ctx) (data : Bytes) : Check Fault (CollectResult × Ctx) :=
  match header data with
  | none => .ok (.REJECTED, ctx)
  | some head =>
    if foreign ctx head then .ok (.REJECTED, ctx)
    else
      let part := decoded decoders head data
      if part.length = 0 then .ok (.REJECTED, ctx)
      else do
        let seen ← if ctx.num_parts ≠ 0 then part_seen ctx head.index else .ok false
        if seen then
          let same ← same_part ctx head part
          if same then pure (ctx.progress, ctx)
          else begin_and_place heap (collection_reset ctx) head part
        else begin_and_place heap ctx head part

/-- What `bbqr_finalise` hands back, with the file type. -/
def bbqr_finalise (ctx : Ctx) : Check Fault (Option (Bytes × UInt8) × Ctx) :=
  if ctx.num_parts = 0 ∨ ctx.num_seen ≠ ctx.num_parts ∨ ctx.data = none then .ok (none, ctx)
  else do
    let total := ctx.block_len * (ctx.num_parts - 1) + ctx.final_len
    Check.ensure (total ≠ 0 && total ≤ ctx.data_len)
    if ctx.encoding = ascii 'Z' then
      let inflated ← if ctx.inflated.isSome then pure (some ctx) else inflate_raw_deflate decoders ctx total
      match inflated with
      | none => pure (none, ctx)
      | some ctx =>
        let out ← front ctx.inflated ctx.inflated_len
        pure (some (out, ctx.file_type), ctx)
    else
      let out ← front ctx.data total
      pure (some (out, ctx.file_type), ctx)

end
end PiJade.Bbqr
