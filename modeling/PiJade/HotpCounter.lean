import PiJade.Otp
import PiJade.Storage

/-!
The counter of an HOTP record (`main/otpauth.c`, `main/storage.c`). It is read, its successor is stored,
and only then it is used. What has been used stays below what is stored, in memory and in the copy that
a restart starts from, as long as no read fails: a counter that cannot be read counts as zero.
-/
namespace PiJade.Otp
open Storage
set_option linter.unusedSimpArgs false

/-- `(uint8_t*)&counter`. -/
def counterBytes (counter : UInt64) : Bytes := (List.range 8).map fun i => UInt8.ofNat (counter.toNat >>> (8 * i))

def counterValue (bytes : Bytes) : UInt64 := UInt64.ofNat (bytes.foldr (fun b n => b.toNat + 256 * n) 0)

def storage_set_otp_hotp_counter (name : String) (counter : UInt64) : Code Bool :=
  store_blob HOTP_COUNTERS_NAMESPACE name (counterBytes counter)

def storage_get_otp_hotp_counter (name : String) : Code UInt64 := do
  match ← read_blob_fixed HOTP_COUNTERS_NAMESPACE name 8 with
  | some bytes => pure (counterValue bytes)
  | none => pure 0

inductive OtpErr where
  | OTP_ERR_TOTP_TIME
  | OTP_ERR_HOTP_COUNTER
  deriving DecidableEq, Repr

/-- The clock: whether it has been set, and the time it shows. -/
structure Clock where
  has_been_set : Bool
  time : UInt64

def MIN_ALLOWED_CURRENT_TIMESTAMP : UInt64 := 1577836800

def assertValid (otp_ctx : Ctx) : Code Unit := Proc.lift (Check.ensure (otp_is_valid otp_ctx == .ok true))

def otp_set_explicit_value (otp_ctx : Ctx) (value : Int64) : Code Ctx := do
  assertValid otp_ctx
  match otp_ctx.otp_type with
  | .TOTP => pure { otp_ctx with counter := (value / otp_ctx.period.toInt64).toUInt64 }
  | _ => pure { otp_ctx with counter := value.toUInt64 }

/-- The context with its value, and the value, or an error. -/
def otp_set_default_value (clock : Clock) (otp_ctx : Ctx) : Code (Except OtpErr (Ctx × UInt64)) := do
  assertValid otp_ctx
  match otp_ctx.otp_type with
  | .TOTP =>
    let value := clock.time
    if !clock.has_been_set || value < MIN_ALLOWED_CURRENT_TIMESTAMP then pure (.error .OTP_ERR_TOTP_TIME)
    else pure (.ok (← otp_set_explicit_value otp_ctx value.toInt64, value))
  | _ =>
    let name := otp_ctx.name.getD ""
    let value ← storage_get_otp_hotp_counter name
    if ← storage_set_otp_hotp_counter name (value + 1) then
      pure (.ok (← otp_set_explicit_value otp_ctx value.toInt64, value))
    else pure (.error .OTP_ERR_HOTP_COUNTER)

/-! ### Runs -/

/-- A read or a write of other storage than the counter of a record. -/
inductive Access where
  | read (ns name : String) (len : Nat)
  | store (ns name : String) (data : Bytes)
  | erase (ns name : String)

def Access.run : Access → Code Unit
  | read ns name len => do let _ ← read_blob ns name len
  | store ns name data => do let _ ← store_blob ns name data
  | erase ns name => do let _ ← erase_key ns name

/-- It is not the counter that is written. -/
def Access.Leaves (record : String) : Access → Prop
  | read _ _ _ => True
  | store ns name _ => ns ≠ HOTP_COUNTERS_NAMESPACE ∨ name ≠ record
  | erase ns name => ns ≠ HOTP_COUNTERS_NAMESPACE ∨ name ≠ record

/-- What happens to a device, with the answers of the storage meanwhile. -/
inductive Event (record : String) where
  | request (otp_ctx : Ctx) (clock : Clock) (answers : List Answer) (hotp : otp_ctx.otp_type = .HOTP)
      (named : otp_ctx.name = some record)
  | other (access : Access) (answers : List Answer) (leaves : access.Leaves record)
  | reboot

/-- What a restart finds. -/
def restart (dev : Device) : Device := { dev with nvs_storage := dev.durable }

/-- A device that has stopped starts again. -/
def settle {α : Type} (ran : Check Interrupt α × Device) : Device :=
  match ran.1 with
  | .ok _ => ran.2
  | .error _ => restart ran.2

/-- The value of the counter for which a code is produced. -/
def codeValue (ran : Check Interrupt (Except OtpErr (Ctx × UInt64)) × Device) : Option UInt64 :=
  match ran.1 with
  | .ok (.ok (otp_ctx, _)) => some otp_ctx.counter
  | _ => none

def Event.step {record : String} (dev : Device) : Event record → Device × Option UInt64
  | request otp_ctx clock answers _ _ =>
    let ran := otp_set_default_value clock otp_ctx { dev with answers }
    (settle ran, codeValue ran)
  | other access answers _ => (settle (access.run { dev with answers }), none)
  | reboot => (restart dev, none)

/-- The values for which codes are produced. -/
def produced {record : String} (dev : Device) : List (Event record) → List UInt64
  | [] => []
  | event :: rest => (event.step dev).2.toList ++ produced (event.step dev).1 rest

/-- The counter that is stored, which is zero if there is none. -/
def counterOf (record : String) (contents : Contents) : UInt64 :=
  match contents (Fin.last 4) record with
  | some bytes => if bytes.length = 8 then counterValue bytes else 0
  | none => 0

/-! ### Storage -/

theorem counterBytes_length (counter : UInt64) : (counterBytes counter).length = 8 := by simp [counterBytes]

/-- A stored counter is read back. -/
theorem counterValue_bytes (counter : UInt64) : counterValue (counterBytes counter) = counter := by
  have small := counter.toNat_lt
  have digits : (counterBytes counter).foldr (fun b n => b.toNat + 256 * n) 0 = counter.toNat := by
    simp only [counterBytes, List.range, List.range.loop, List.map_cons, List.map_nil, List.foldr_cons, List.foldr_nil,
      UInt8.toNat_ofNat', Nat.shiftRight_eq_div_pow]
    omega
  rw [counterValue, digits, UInt64.ofNat_toNat]

theorem get_nvs_ns_hotp {ns : String} (found : get_nvs_ns ns = some 4) : ns = HOTP_COUNTERS_NAMESPACE := by
  unfold get_nvs_ns at found
  split at found
  next => cases found
  split at found
  next => cases found
  split at found
  next => cases found
  split at found
  next => cases found
  split at found
  next same => exact same
  next => cases found

variable {record : String}

theorem counterOf_bind (contents : Contents) (counter : UInt64) :
    counterOf record (contents.bind 4 record (some (counterBytes counter))) = counter := by
  rw [counterOf, show Fin.last 4 = (4 : Fin 5) from rfl, bind_same]
  dsimp only
  rw [if_pos (counterBytes_length counter), counterValue_bytes]

theorem counterOf_other (contents : Contents) {ns key : String} {handle : Fin 5} (found : get_nvs_ns ns = some handle)
    (value : Option Bytes) (other : ns ≠ HOTP_COUNTERS_NAMESPACE ∨ key ≠ record) :
    counterOf record (contents.bind handle key value) = counterOf record contents := by
  have same : (contents.bind handle key value) 4 record = contents 4 record := by
    by_cases map : handle = 4
    · subst map
      have distinct := other.resolve_left (not_not_intro (get_nvs_ns_hotp found))
      exact bind_other contents 4 value (Ne.symm distinct)
    · rw [Contents.bind, Function.update_of_ne (Ne.symm map)]
  rw [counterOf, show Fin.last 4 = (4 : Fin 5) from rfl, same, counterOf]
  rfl

/-- What one edit leaves in memory and in the copy; if it succeeds, both are edited. -/
structure Edited (ns : String) (edit : Edit) (ok : Bool) (dev after : Device) : Prop where
  memory : after.nvs_storage = dev.nvs_storage ∨
    ∃ handle, get_nvs_ns ns = some handle ∧ after.nvs_storage = dev.nvs_storage.bind handle edit.key edit.value
  durable : after.durable = dev.durable ∨
    ∃ handle, get_nvs_ns ns = some handle ∧ after.durable = dev.nvs_storage.bind handle edit.key edit.value
  done : ok = true → ∃ handle, get_nvs_ns ns = some handle ∧
    after.nvs_storage = dev.nvs_storage.bind handle edit.key edit.value ∧ after.durable = after.nvs_storage

theorem edited_none {ns : String} {edit : Edit} {dev after : Device} (memory : after.nvs_storage = dev.nvs_storage)
    (durable : after.durable = dev.durable) : Edited ns edit false dev after :=
  ⟨.inl memory, .inl durable, nofun⟩

theorem wp_edit {dev : Device} (ns : String) (edit : Edit) : Proc.wp (open_edit_commit ns [edit])
    (fun ok => Edited ns edit ok dev) (fun _ => Edited ns edit false dev) dev := by
  rw [open_edit_commit, Proc.wp_bind]
  apply wp_nvs_open
  · intro handle rest known _
    -- One call answered leaves the memory as it was, two leave it edited.
    have edited : ∀ n, n ≤ [edit].length → Contents.edit dev.nvs_storage handle ([edit].take n) = dev.nvs_storage ∨
        Contents.edit dev.nvs_storage handle ([edit].take n) = dev.nvs_storage.bind handle edit.key edit.value := by
      intro n bound
      rcases n with - | n
      · exact .inl rfl
      · rw [List.take_succ_cons, List.take_nil, edit_cons, edit_nil]
        exact .inr rfl
    apply wp_edit_commit
    · intro n persisted rest' bound _ written whole
      refine ⟨(edited n bound).imp_right fun same => ⟨handle, known, same⟩, ?_, nofun⟩
      cases written with
      | false => exact .inl rfl
      | true =>
        obtain rfl := whole rfl
        exact .inr ⟨handle, known, rfl⟩
    · intro rest' _
      exact ⟨.inr ⟨handle, known, rfl⟩, .inr ⟨handle, known, rfl⟩, fun _ => ⟨handle, known, rfl, rfl⟩⟩
    · intro n bound _
      exact ⟨(edited n bound).imp_right fun same => ⟨handle, known, same⟩, .inl rfl, nofun⟩
  · intro first rest _ _
    exact edited_none rfl rfl
  · intro _
    exact edited_none rfl rfl

theorem wp_store {dev : Device} (ns name : String) (data : Bytes) : Proc.wp (store_blob ns name data)
    (fun ok => Edited ns (.SET_BLOB name data) ok dev) (fun _ => Edited ns (.SET_BLOB name data) false dev) dev := by
  rw [store_blob, Proc.wp_bind, Proc.wp_ensure]
  split
  next => exact wp_edit ns _
  next => exact edited_none rfl rfl

/-- Reading changes nothing but the answers that are left. -/
theorem wp_read {dev : Device} (ns name : String) (len : Nat) : Proc.wp (read_blob ns name len)
    (fun _ after => after.nvs_storage = dev.nvs_storage ∧ after.durable = dev.durable)
    (fun _ after => after.nvs_storage = dev.nvs_storage ∧ after.durable = dev.durable) dev := by
  rw [read_blob, Proc.wp_bind]
  apply wp_nvs_open
  · intro handle rest _ _
    simp only [nvs_get_blob, Proc.wp_bind]
    apply wp_answer
    · intro first rest' _
      cases first with
      | ok =>
        simp only [Proc.wp_bind, Proc.wp_read]
        split
        next => exact ⟨rfl, rfl⟩
        next => split <;> exact ⟨rfl, rfl⟩
      | failed persisted => exact ⟨rfl, rfl⟩
    · intro _
      exact ⟨rfl, rfl⟩
  · intro _ _ _ _
    exact ⟨rfl, rfl⟩
  · intro _
    exact ⟨rfl, rfl⟩

/-! ### Requests -/

/-- One of the two calls that read the counter fails. -/
def ReadFails (answers : List Answer) : Prop :=
  (∃ persisted rest, answers = .failed persisted :: rest) ∨ ∃ persisted rest, answers = .ok :: .failed persisted :: rest

theorem wp_get_counter {dev : Device} (sound : ReadFails dev.answers → counterOf record dev.nvs_storage = 0) :
    Proc.wp (storage_get_otp_hotp_counter record)
      (fun value after => value = counterOf record dev.nvs_storage ∧ after.nvs_storage = dev.nvs_storage ∧
        after.durable = dev.durable)
      (fun _ after => after.nvs_storage = dev.nvs_storage ∧ after.durable = dev.durable) dev := by
  simp only [storage_get_otp_hotp_counter, read_blob_fixed, read_blob, Proc.wp_bind]
  apply wp_nvs_open
  · intro handle rest known given
    obtain rfl : 4 = handle := Option.some.inj known
    simp only [nvs_get_blob, Proc.wp_bind]
    apply wp_answer
    · intro second rest' given'
      have answers : dev.answers = .ok :: second :: rest' := by rw [given]; exact congrArg _ given'
      cases second with
      | ok =>
        simp only [Proc.wp_bind, Proc.wp_read]
        rw [counterOf, show Fin.last 4 = (4 : Fin 5) from rfl]
        cases held : dev.nvs_storage 4 record with
        | none => exact ⟨rfl, rfl, rfl⟩
        | some bytes =>
          dsimp only
          by_cases long : 8 < bytes.length
          · rw [if_pos long, if_neg (by omega)]
            exact ⟨rfl, rfl, rfl⟩
          · rw [if_neg long]
            by_cases whole : bytes.length = 8
            · simp [whole]
            · simp [whole]
      | failed persisted =>
        have zero := sound (.inr ⟨persisted, rest', answers⟩)
        exact ⟨zero.symm, rfl, rfl⟩
    · intro _
      exact ⟨rfl, rfl⟩
  · intro first rest given unknown
    have failed : ∃ persisted, first = .failed persisted := by
      cases first with
      | ok => cases unknown rfl
      | failed persisted => exact ⟨persisted, rfl⟩
    obtain ⟨persisted, rfl⟩ := failed
    exact ⟨(sound (.inl ⟨persisted, rest, given⟩)).symm, rfl, rfl⟩
  · intro _
    exact ⟨rfl, rfl⟩

/-- What a request leaves: the counter it found, or its successor. -/
structure Counted (record : String) (dev after : Device) : Prop where
  memory : counterOf record after.nvs_storage = counterOf record dev.nvs_storage ∨
    counterOf record after.nvs_storage = counterOf record dev.nvs_storage + 1
  durable : counterOf record after.durable = counterOf record dev.durable ∨
    counterOf record after.durable = counterOf record dev.nvs_storage + 1

theorem counted_of_edited {counter : UInt64} {ok : Bool} {dev after : Device}
    (edited : Edited HOTP_COUNTERS_NAMESPACE (.SET_BLOB record (counterBytes (counter + 1))) ok dev after)
    (found : counter = counterOf record dev.nvs_storage) : Counted record dev after ∧ (ok = true →
      counterOf record after.nvs_storage = counter + 1 ∧ counterOf record after.durable = counter + 1) := by
  have bound : ∀ handle, get_nvs_ns HOTP_COUNTERS_NAMESPACE = some handle →
      counterOf record (dev.nvs_storage.bind handle record (some (counterBytes (counter + 1)))) = counter + 1 := by
    rintro handle ⟨⟩
    exact counterOf_bind _ _
  refine ⟨⟨?_, ?_⟩, ?_⟩
  · rcases edited.memory with same | ⟨handle, known, stored⟩
    · exact .inl (by rw [same])
    · exact .inr (by rw [stored, ← found]; exact bound handle known)
  · rcases edited.durable with same | ⟨handle, known, stored⟩
    · exact .inl (by rw [same])
    · exact .inr (by rw [stored, ← found]; exact bound handle known)
  · intro ok
    obtain ⟨handle, known, stored, copied⟩ := edited.done ok
    have value := bound handle known
    exact ⟨by rw [stored]; exact value, by rw [copied, stored]; exact value⟩

/-- A request whose read does not fail uses the counter that is stored, when its successor is stored. -/
theorem wp_default_value {dev : Device} {otp_ctx : Ctx} (clock : Clock) (hotp : otp_ctx.otp_type = .HOTP)
    (named : otp_ctx.name = some record) (sound : ReadFails dev.answers → counterOf record dev.nvs_storage = 0) :
    Proc.wp (otp_set_default_value clock otp_ctx)
      (fun result after => Counted record dev after ∧ ∀ used value, result = .ok (used, value) →
        used.counter = counterOf record dev.nvs_storage ∧
        counterOf record after.nvs_storage = counterOf record dev.nvs_storage + 1 ∧
        counterOf record after.durable = counterOf record dev.nvs_storage + 1)
      (fun _ => Counted record dev) dev := by
  rw [otp_set_default_value, Proc.wp_bind, assertValid, Proc.wp_ensure]
  have untouched : ∀ {after : Device}, after.nvs_storage = dev.nvs_storage → after.durable = dev.durable →
      Counted record dev after := fun memory durable => ⟨.inl (by rw [memory]), .inl (by rw [durable])⟩
  split
  next valid =>
    simp only [hotp, named, Option.getD_some, Proc.wp_bind]
    refine Proc.wp_mono (wp_get_counter sound) ?_ fun _ after same => untouched same.1 same.2
    rintro counter read ⟨found, memory, durable⟩
    rw [Proc.wp_bind]
    refine Proc.wp_mono (wp_store HOTP_COUNTERS_NAMESPACE record (counterBytes (counter + 1))) ?_ ?_
    · intro ok after edited
      have edited' : Edited HOTP_COUNTERS_NAMESPACE (.SET_BLOB record (counterBytes (counter + 1))) ok dev after := by
        obtain ⟨in_memory, in_copy, done⟩ := edited
        rw [memory] at in_memory in_copy done
        rw [durable] at in_copy
        exact ⟨in_memory, in_copy, done⟩
      obtain ⟨counted, stored⟩ := counted_of_edited edited' found
      cases ok with
      | false =>
        refine ⟨counted, fun used value made => ?_⟩
        cases made
      | true =>
        obtain ⟨now, kept⟩ := stored rfl
        simp only [if_true, Proc.wp_bind, otp_set_explicit_value, assertValid, Proc.wp_ensure]
        rw [if_pos valid]
        simp only [hotp, Proc.wp_pure]
        refine ⟨counted, ?_⟩
        rintro used value ⟨⟩
        exact ⟨by simpa using found, by rw [now, found], by rw [kept, found]⟩
    · intro halt after edited
      have edited' : Edited HOTP_COUNTERS_NAMESPACE (.SET_BLOB record (counterBytes (counter + 1))) false dev after := by
        obtain ⟨in_memory, in_copy, _⟩ := edited
        rw [memory] at in_memory in_copy
        rw [durable] at in_copy
        exact ⟨in_memory, in_copy, fun ok => absurd ok (by decide)⟩
      exact (counted_of_edited edited' found).1
  next => exact untouched rfl rfl

/-! ### Counters are not used again -/

/-- Every value used is below what is stored, in memory and in the copy. -/
def Behind (record : String) (used : List UInt64) (dev : Device) : Prop :=
  ∀ value ∈ used, value < counterOf record dev.nvs_storage ∧ value < counterOf record dev.durable

namespace Event

/-- The read of the counter does not fail, unless it is zero anyway. -/
def Reads (dev : Device) : Event record → Prop
  | request _ _ answers _ _ => ReadFails answers → counterOf record dev.nvs_storage = 0
  | _ => True

/-- A request that does not find the last counter. -/
def Below (dev : Device) : Event record → Prop
  | request _ _ _ _ _ => counterOf record dev.nvs_storage ≠ 0xffffffffffffffff
  | _ => True

end Event

/-- Every request of a run reads the counter. -/
def Sound (dev : Device) : List (Event record) → Prop
  | [] => True
  | event :: rest => event.Reads dev ∧ Sound (event.step dev).1 rest

/-- Only the end of a run finds the last counter. -/
def UntilLast (dev : Device) : List (Event record) → Prop
  | [] => True
  | event :: rest => (rest ≠ [] → event.Below dev) ∧ UntilLast (event.step dev).1 rest

theorem Behind.restart {used : List UInt64} {dev : Device} (behind : Behind record used dev) :
    Behind record used (restart dev) := fun value mem => ⟨(behind value mem).2, (behind value mem).2⟩

/-- However code ends, the device goes on or starts again. -/
theorem settle_of_wp {α : Type} {code : Code α} {dev : Device} {P : Device → Prop}
    (holds : Proc.wp code (fun _ => P) (fun _ => P) dev) (restarts : ∀ after, P after → P (restart after)) :
    P (settle (code dev)) := by
  simp only [Proc.wp] at holds
  unfold settle
  split at holds
  next ran => rw [ran]; exact holds
  next ran => rw [ran]; exact restarts _ holds

theorem wp_access {used : List UInt64} {dev : Device} (behind : Behind record used dev) {access : Access}
    (leaves : access.Leaves record) :
    Proc.wp access.run (fun _ => Behind record used) (fun _ => Behind record used) dev := by
  have kept : ∀ {ns key : String} {value : Option Bytes} {edit : Edit} {ok : Bool} {after : Device},
      ns ≠ HOTP_COUNTERS_NAMESPACE ∨ key ≠ record → edit.key = key → edit.value = value → Edited ns edit ok dev after →
      Behind record used after := by
    rintro ns key value edit ok after other rfl rfl edited used_value mem
    obtain ⟨in_memory, in_copy⟩ := behind used_value mem
    constructor
    · rcases edited.memory with same | ⟨handle, known, stored⟩
      · rwa [same]
      · rwa [stored, counterOf_other _ known _ other]
    · rcases edited.durable with same | ⟨handle, known, stored⟩
      · rwa [same]
      · rwa [stored, counterOf_other _ known _ other]
  have read : ∀ {after : Device}, after.nvs_storage = dev.nvs_storage ∧ after.durable = dev.durable →
      Behind record used after := by
    rintro after ⟨memory, durable⟩ value mem
    rw [memory, durable]
    exact behind value mem
  cases access with
  | read ns name len =>
    rw [Access.run, Proc.wp_bind]
    exact Proc.wp_mono (wp_read ns name len) (fun _ _ same => read same) fun _ _ same => read same
  | store ns name data =>
    rw [Access.run, Proc.wp_bind]
    exact Proc.wp_mono (wp_store ns name data) (fun _ _ edited => kept leaves rfl rfl edited)
      fun _ _ edited => kept leaves rfl rfl edited
  | erase ns name =>
    rw [Access.run, Proc.wp_bind]
    exact Proc.wp_mono (wp_edit ns (.ERASE name)) (fun _ _ edited => kept leaves rfl rfl edited)
      fun _ _ edited => kept leaves rfl rfl edited

theorem lt_succ_of_below {counter : UInt64} (below : counter ≠ 0xffffffffffffffff) : counter < counter + 1 := by
  have other : counter.toNat ≠ 18446744073709551615 := fun same => below (UInt64.toNat_inj.mp same)
  have small := counter.toNat_lt
  rw [UInt64.lt_iff_toNat_lt, UInt64.toNat_add]
  simp only [UInt64.reduceToNat]
  omega

/-- What a request produces a code for is the counter that is stored. -/
theorem step_value {dev : Device} {event : Event record} (reads : event.Reads dev) {value : UInt64}
    (made : (event.step dev).2 = some value) : value = counterOf record dev.nvs_storage := by
  cases event with
  | request otp_ctx clock answers hotp named =>
    have holds := @wp_default_value record { dev with answers } otp_ctx clock hotp named reads
    simp only [Event.step, codeValue] at made
    simp only [Proc.wp] at holds
    split at made
    next result used at_value ran =>
      obtain ⟨⟩ := made
      rw [show otp_set_default_value clock otp_ctx { dev with answers } = (_, _) from Prod.ext ran rfl] at holds
      exact (holds.2 used at_value rfl).1
    next => cases made
  | other access answers leaves => cases made
  | reboot => cases made

theorem step_behind {dev : Device} {event : Event record} {used : List UInt64} (reads : event.Reads dev)
    (below : event.Below dev) (behind : Behind record used dev) :
    Behind record (used ++ (event.step dev).2.toList) (event.step dev).1 := by
  cases event with
  | request otp_ctx clock answers hotp named =>
    have holds := @wp_default_value record { dev with answers } otp_ctx clock hotp named reads
    have more := lt_succ_of_below below
    have old : ∀ {after : Device}, Counted record { dev with answers } after → Behind record used after := by
      intro after counted value mem
      obtain ⟨in_memory, in_copy⟩ := behind value mem
      constructor
      · rcases counted.memory with same | next
        · rwa [same]
        · rw [next]
          exact UInt64.lt_trans in_memory more
      · rcases counted.durable with same | next
        · rwa [same]
        · rw [next]
          exact UInt64.lt_trans in_memory more
    simp only [Proc.wp] at holds
    simp only [Event.step, codeValue, settle]
    split at holds
    next result after ran =>
      rw [ran]
      obtain ⟨counted, made⟩ := holds
      rcases result with err | ⟨used_ctx, value⟩
      · simpa using old counted
      · obtain ⟨counter, now, kept⟩ := made used_ctx value rfl
        intro later mem
        rcases List.mem_append.mp mem with before | this
        · exact old counted later before
        · obtain rfl : later = used_ctx.counter := by simpa using this
          rw [counter, now, kept]
          exact ⟨more, more⟩
    next halt after ran =>
      rw [ran]
      simpa using (old holds).restart
  | other access answers leaves =>
    have kept : Behind record used (settle (access.run { dev with answers })) :=
      settle_of_wp (wp_access (show Behind record used { dev with answers } from behind) leaves) fun _ => Behind.restart
    simpa [Event.step] using kept
  | reboot => simpa [Event.step] using behind.restart

/-- A run adds to values that are behind only greater ones, each greater than those before. -/
theorem produced_above (events : List (Event record)) : ∀ {dev : Device} {used : List UInt64}, Behind record used dev →
    Sound dev events → UntilLast dev events →
    (∀ before ∈ used, ∀ value ∈ produced dev events, before < value) ∧ (produced dev events).Pairwise (· < ·) := by
  induction events with
  | nil =>
    intro dev used _ _ _
    exact ⟨fun _ _ _ => nofun, List.Pairwise.nil⟩
  | cons event rest ih =>
    intro dev used behind sound until_last
    have now : ∀ value ∈ (event.step dev).2.toList, value = counterOf record dev.nvs_storage := fun value mem =>
      step_value sound.1 (Option.mem_toList.mp mem)
    have single : ((event.step dev).2.toList).Pairwise (· < ·) := by
      cases (event.step dev).2 with
      | none => exact List.Pairwise.nil
      | some value => exact List.pairwise_singleton _ _
    have first : ∀ before ∈ used, ∀ value ∈ (event.step dev).2.toList, before < value := by
      intro before mem value made
      rw [now value made]
      exact (behind before mem).1
    by_cases last : rest = []
    · subst last
      rw [produced, produced, List.append_nil]
      exact ⟨first, single⟩
    · obtain ⟨above, increasing⟩ := ih (step_behind sound.1 (until_last.1 last) behind) sound.2 until_last.2
      rw [produced]
      constructor
      · intro before mem value made
        rcases List.mem_append.mp made with this | later
        · exact first before mem value this
        · exact above before (List.mem_append_left _ mem) value later
      · exact List.pairwise_append.mpr ⟨single, increasing, fun value made later mem =>
          above value (List.mem_append_right _ made) later mem⟩

/-- In every run in which no read of a stored counter fails, the counters for which codes are produced increase, up to a
request that finds the last one. -/
theorem hotp_counters_increase (record : String) (dev : Device) (events : List (Event record)) (sound : Sound dev events)
    (until_last : UntilLast dev events) : (produced dev events).Pairwise (· < ·) :=
  (produced_above events (List.forall_mem_nil _) sound until_last).2

def hotpRecord : Ctx where
  counter := 0
  md_type := .SHA1
  otp_type := .HOTP
  name := some "a"
  type := SettingsCodec.ascii "hotp"
  label := some []
  secret := SettingsCodec.ascii "AA"
  issuer := []
  digits := 6
  period := 0

def blankDevice : Device where
  nvs_storage := fun _ _ => none
  durable := fun _ _ => none
  answers := []
  log := []

def requestWith (answers : List Answer) : Event "a" := .request hotpRecord ⟨false, 0⟩ answers rfl rfl

theorem answered_reads {dev : Device} : (requestWith (List.replicate 5 .ok)).Reads dev := by
  rintro (⟨persisted, rest, answers⟩ | ⟨persisted, rest, answers⟩)
  · cases answers
  · cases answers

theorem hotp_counters_increase_twice :
    (produced blankDevice [requestWith (List.replicate 5 .ok), .reboot, requestWith (List.replicate 5 .ok)]).Pairwise (· < ·) :=
  hotp_counters_increase "a" blankDevice _ ⟨answered_reads, trivial, answered_reads, trivial⟩
    ⟨fun _ => (by decide : (0 : UInt64) ≠ 0xffffffffffffffff), fun _ => trivial, fun none => absurd rfl none, trivial⟩

/-- The second request cannot open the counters. -/
def unreadable : List (Event "a") :=
  [requestWith (List.replicate 5 .ok), requestWith (.failed false :: List.replicate 3 .ok)]

/-- One read that fails, and the counter starts again from zero. -/
theorem hotp_counter_reused : ¬ ∀ (record : String) (dev : Device) (events : List (Event record)), UntilLast dev events →
    (produced dev events).Pairwise (· < ·) := by
  intro all
  have values : produced blankDevice unreadable = [0, 0] := rfl
  have increasing := all "a" blankDevice unreadable
    ⟨fun _ => (by decide : (0 : UInt64) ≠ 0xffffffffffffffff), fun none => absurd rfl none, trivial⟩
  rw [values] at increasing
  revert increasing
  decide

end PiJade.Otp
