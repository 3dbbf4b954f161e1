import PiJade.Slip39Encode

/-!
The record that `slip39_parse_share` fills. It is cleared first, written field by field as the
words are read, and cleared again on every error; its value has room for the longest share.
-/
namespace PiJade.Slip39
set_option linter.unusedSimpArgs false

/-- `slip39_share_t`, in memory. -/
structure Record where
  identifier : UInt16
  iteration_exponent : UInt8
  group_index : UInt8
  group_threshold : UInt8
  group_count : UInt8
  member_index : UInt8
  member_threshold : UInt8
  extendable : Bool
  value_len : UInt8
  value : Vector UInt8 SLIP39_SHARE_VALUE_MAX
  deriving DecidableEq

/-- All zero. -/
def Record.cleared : Record where
  identifier := 0
  iteration_exponent := 0
  group_index := 0
  group_threshold := 0
  group_count := 0
  member_index := 0
  member_threshold := 0
  extendable := false
  value_len := 0
  value := Vector.replicate SLIP39_SHARE_VALUE_MAX 0

/-- The bytes of the value, written one behind the other. -/
def fill (value : Vector UInt8 SLIP39_SHARE_VALUE_MAX) (out : Nat) : Bytes → Check Fault (Vector UInt8 SLIP39_SHARE_VALUE_MAX)
  | [] => .ok value
  | byte :: rest =>
    if inside : out < SLIP39_SHARE_VALUE_MAX then fill (value.set out byte inside) (out + 1) rest
    else .error (.error .out_of_bounds)

/-- From known words on. -/
def read_into (indices : List UInt16) (share : Record) : Check Fault (Err × Record) :=
  let id_exp := (indices.getD 0 0).toUInt32 <<< 10 ||| (indices.getD 1 0).toUInt32
  let share := { share with
    identifier := (id_exp >>> 5).toUInt16
    extendable := id_exp >>> 4 &&& 1 ≠ 0
    iteration_exponent := (id_exp &&& 0x0F).toUInt8 }
  let customization := if share.extendable then CUSTOMIZATION_EXTENDABLE else CUSTOMIZATION_ORIG
  if rs1024_polymod customization indices ≠ 1 then .ok (.ERR_CHECKSUM, share)
  else
    let metadata := (indices.getD ID_EXP_LENGTH_WORDS 0).toUInt32 <<< 10 |||
      (indices.getD (ID_EXP_LENGTH_WORDS + 1) 0).toUInt32
    let group_threshold := (metadata >>> 12 &&& 0x0F).toUInt8
    let group_count := (metadata >>> 8 &&& 0x0F).toUInt8
    if group_count < group_threshold then .ok (.ERR_FORMAT, share)
    else
      let share := { share with
        group_index := (metadata >>> 16 &&& 0x0F).toUInt8
        group_threshold := group_threshold + 1
        group_count := group_count + 1
        member_index := (metadata >>> 4 &&& 0x0F).toUInt8
        member_threshold := (metadata &&& 0x0F).toUInt8 + 1 }
      let value_words := indices.length - METADATA_LENGTH_WORDS
      let padding_len := RADIX_BITS * value_words % 16
      let first := ID_EXP_LENGTH_WORDS + 2
      if 2 ^ (RADIX_BITS - padding_len) ≤ (indices.getD first 0).toNat then .ok (.ERR_FORMAT, share)
      else do
        let bytes := valueBytes 0 0 ((List.range value_words).map fun i =>
          (if i = 0 then RADIX_BITS - padding_len else RADIX_BITS, indices.getD (first + i) 0))
        let value ← fill share.value 0 bytes.1
        Check.ensure (bytes.2 = 0)
        Check.ensure (bytes.1.length ≠ 0 && bytes.1.length ≤ SLIP39_SHARE_VALUE_MAX)
        pure (.OK, { share with value := value, value_len := UInt8.ofNat bytes.1.length })

def cleanup (result : Err × Record) : Err × Record := if result.1 ≠ .OK then (result.1, Record.cleared) else result

/-- `slip39_parse_share` with what it leaves in the record of its caller. -/
def slip39_parse_share_into (wordlist : Nat → Bytes) (mnemonic : Bytes) : Check Fault (Err × Record) := do
  Check.ensure (mnemonic.length ≠ 0)
  let result ← match lookup wordlist [] (words mnemonic) with
    | .error err => pure (err, Record.cleared)
    | .ok indices =>
      if indices.length ≠ SLIP39_SHORT_SHARE_WORDS ∧ indices.length ≠ SLIP39_LONG_SHARE_WORDS then
        pure (.ERR_LENGTH, Record.cleared)
      else read_into indices Record.cleared
  pure (cleanup result)

/-! ### The record of a share -/

def Share.record (share : Share) : Record where
  identifier := share.identifier
  iteration_exponent := UInt8.ofNat share.iteration_exponent
  group_index := UInt8.ofNat share.group_index
  group_threshold := UInt8.ofNat share.group_threshold
  group_count := UInt8.ofNat share.group_count
  member_index := share.member_index
  member_threshold := UInt8.ofNat share.member_threshold
  extendable := share.extendable
  value_len := UInt8.ofNat share.value.length
  value := Vector.ofFn fun i => share.value.getD i 0

/-- What a result leaves in the record. -/
def outcome : Except Err Share → Err × Record
  | .ok share => (.OK, share.record)
  | .error err => (err, Record.cleared)

theorem fill_eq : ∀ (bytes : Bytes) (value : Vector UInt8 SLIP39_SHARE_VALUE_MAX) (out : Nat),
    out + bytes.length ≤ SLIP39_SHARE_VALUE_MAX →
    fill value out bytes = .ok (Vector.ofFn fun i => if i.val < out then value[i] else bytes.getD (i - out) value[i])
  | [], value, out, _ => by
    rw [fill]
    refine congrArg Except.ok (Vector.ext fun i inside => ?_)
    simp
  | byte :: rest, value, out, room => by
    rw [List.length_cons] at room
    have inside : out < SLIP39_SHARE_VALUE_MAX := by omega
    rw [fill, dif_pos inside, fill_eq rest _ _ (by omega)]
    refine congrArg Except.ok (Vector.ext fun i within => ?_)
    rw [Vector.getElem_ofFn, Vector.getElem_ofFn]
    simp only [Fin.getElem_fin, Vector.getElem_set]
    rcases Nat.lt_trichotomy i out with below | same | above
    · rw [if_pos below, if_pos (by omega), if_neg (by omega)]
    · rw [if_pos (by omega), if_pos same.symm, if_neg (by omega), show i - out = 0 by omega]
      rfl
    · rw [if_neg (by omega), if_neg (by omega), if_neg (by omega), show i - out = i - (out + 1) + 1 by omega]
      rfl

theorem nibble_toUInt8 (word : UInt32) : (word &&& 0x0F).toUInt8.toNat = (word &&& 0x0F).toNat := by
  rw [UInt32.toNat_toUInt8, Nat.mod_eq_of_lt (Nat.lt_trans (four_bits word) (by decide))]

theorem nibble_lt (a b : UInt32) :
    (a &&& 0x0F).toUInt8 < (b &&& 0x0F).toUInt8 ↔ (a &&& 0x0F).toNat < (b &&& 0x0F).toNat := by
  rw [UInt8.lt_iff_toNat_lt, nibble_toUInt8, nibble_toUInt8]

theorem nibble_ofNat (word : UInt32) : UInt8.ofNat (word &&& 0x0F).toNat = (word &&& 0x0F).toUInt8 := by
  rw [← nibble_toUInt8, UInt8.ofNat_toNat]

theorem nibble_succ (word : UInt32) : UInt8.ofNat ((word &&& 0x0F).toNat + 1) = (word &&& 0x0F).toUInt8 + 1 := by
  rw [UInt8.ofNat_add, nibble_ofNat]
  rfl

theorem fill_cleared {bytes : Bytes} (room : bytes.length ≤ SLIP39_SHARE_VALUE_MAX) :
    fill Record.cleared.value 0 bytes = .ok (Vector.ofFn fun i => bytes.getD i 0) := by
  rw [fill_eq bytes _ 0 (by omega)]
  refine congrArg Except.ok (Vector.ext fun i inside => ?_)
  simp [Record.cleared]

/-- One check that two computations share. -/
theorem branch {α β γ : Type} {refused : Prop} [Decidable refused] {stop rest : Check Fault α} {stop' rest' : Check Fault β}
    {f : α → Check Fault γ} {g : β → Check Fault γ} (stops : (stop >>= f) = (stop' >>= g))
    (goes_on : (rest >>= f) = (rest' >>= g)) :
    ((if refused then stop else rest) >>= f) = ((if refused then stop' else rest') >>= g) := by
  split
  next => exact stops
  next => exact goes_on

theorem read_into_eq {indices : List UInt16}
    (counted : indices.length = SLIP39_SHORT_SHARE_WORDS ∨ indices.length = SLIP39_LONG_SHARE_WORDS) :
    (read_into indices Record.cleared >>= fun result => pure (cleanup result)) =
      (read_share indices >>= fun result => pure (outcome result)) := by
  have bits : (0 + valueBits indices.length) / 8 ≤ SLIP39_SHARE_VALUE_MAX := by
    rcases counted with short | long
    · rw [short]
      decide
    · rw [long]
      decide
  have length := (valueBytes_length ((List.range (indices.length - METADATA_LENGTH_WORDS)).map fun i =>
    (if i = 0 then RADIX_BITS - RADIX_BITS * (indices.length - METADATA_LENGTH_WORDS) % 16 else RADIX_BITS,
      indices.getD (ID_EXP_LENGTH_WORDS + 2 + i) 0)) 0 0 (by decide)).1
  rw [List.map_map] at length
  replace length := Nat.le_trans (Nat.le_of_eq length) bits
  rw [read_into, read_share]
  simp only [decide_eq_true_eq, nibble_lt]
  generalize (valueBytes 0 0 _) = bytes at *
  refine branch rfl (branch rfl (branch rfl ?_))
  rw [fill_cleared length]
  cases whole : decide (bytes.2 = 0)
  · rfl
  · cases room : (decide (bytes.1.length ≠ 0) && decide (bytes.1.length ≤ SLIP39_SHARE_VALUE_MAX))
    · rfl
    · refine congrArg Except.ok ?_
      simp only [outcome, Share.record, nibble_ofNat, nibble_succ, cleanup]
      rfl

theorem lookup_error {wordlist : Nat → Bytes} {err : Err} : ∀ {found : List Bytes} {before : List UInt16},
    lookup wordlist before found = .error err → err ≠ .OK
  | word :: found, before, failed => by
    rw [lookup] at failed
    split at failed
    next =>
      cases failed
      decide
    next =>
      split at failed
      next =>
        cases failed
        decide
      next => exact lookup_error failed

/-- Reading known words always ends, and an error is one. -/
theorem read_share_total {indices : List UInt16} (listed : ∀ word ∈ indices, word.toNat < 1024)
    (counted : indices.length = SLIP39_SHORT_SHARE_WORDS ∨ indices.length = SLIP39_LONG_SHARE_WORDS) :
    ∃ result : Except Err Share, read_share indices = .ok result ∧ ∀ err, result = .error err → err ≠ .OK := by
  obtain ⟨i0, i1, i2, i3, first, rest, check, rfl, laid⟩ := laid_of listed counted
  rw [laid.read_share_eq]
  split
  next => exact ⟨_, rfl, fun err same => by cases same; decide⟩
  next =>
    split
    next => exact ⟨_, rfl, fun err same => by cases same; decide⟩
    next =>
      split
      next => exact ⟨_, rfl, fun err same => by cases same; decide⟩
      next => exact ⟨_, rfl, fun err => nofun⟩

/-- Every text that is not empty comes to an end, with the record that the result says. -/
theorem parse_into_eq {mnemonic : Bytes} (something : mnemonic ≠ []) : ∃ result : Except Err Share,
    slip39_parse_share SLIP39_WORDLIST mnemonic = .ok result ∧ (∀ err, result = .error err → err ≠ .OK) ∧
      slip39_parse_share_into SLIP39_WORDLIST mnemonic = .ok (outcome result) := by
  have present : decide (mnemonic.length ≠ 0) = true :=
    decide_eq_true fun empty => something (List.length_eq_zero_iff.mp empty)
  rw [slip39_parse_share, slip39_parse_share_into, present]
  cases found : lookup SLIP39_WORDLIST [] (words mnemonic) with
  | error err =>
    have failed := lookup_error found
    refine ⟨.error err, rfl, fun _ same => Except.error.inj same ▸ failed, ?_⟩
    show Except.ok (cleanup (err, Record.cleared)) = _
    rw [cleanup, if_pos failed]
    rfl
  | ok indices =>
    by_cases other : indices.length ≠ SLIP39_SHORT_SHARE_WORDS ∧ indices.length ≠ SLIP39_LONG_SHARE_WORDS
    · refine ⟨.error .ERR_LENGTH, ?_, fun _ same => Except.error.inj same ▸ by decide, ?_⟩
      · simp only [Check.ensure_true, Check.ok_bind, if_pos other, Check.pure_eq]
      · simp only [Check.ensure_true, Check.ok_bind, if_pos other, Check.pure_eq]
        rfl
    · have counted : indices.length = SLIP39_SHORT_SHARE_WORDS ∨ indices.length = SLIP39_LONG_SHARE_WORDS := by
        by_contra neither
        exact other ⟨fun short => neither (.inl short), fun long => neither (.inr long)⟩
      obtain ⟨result, read, failed⟩ := read_share_total (lookup_words.mp found).1.listed counted
      refine ⟨result, ?_, failed, ?_⟩
      · simp only [Check.ensure_true, Check.ok_bind, if_neg other, read]
      · have filled := read_into_eq counted
        rw [read] at filled
        simp only [Check.ensure_true, Check.ok_bind, if_neg other]
        exact filled

/-- A text that is not empty is parsed to the record of a share exactly if it writes the share,
    and on every error the record is all zero. -/
theorem slip39_parse_share_inverse (mnemonic : Bytes) (something : mnemonic ≠ []) :
    ∃ err record, slip39_parse_share_into SLIP39_WORDLIST mnemonic = .ok (err, record) ∧
      (∀ share, Encodable share → Writes mnemonic (encode share) → err = .OK ∧ record = share.record) ∧
      (err = .OK → ∃ share, Encodable share ∧ Writes mnemonic (encode share) ∧ record = share.record) ∧
      (err ≠ .OK → record = Record.cleared) := by
  obtain ⟨result, parsed, failed, filled⟩ := parse_into_eq something
  refine ⟨_, _, filled, ?_, ?_, ?_⟩
  · intro share encodable writes
    have ok := parse_iff.mpr ⟨encodable, writes⟩
    rw [parsed, Except.ok.injEq] at ok
    rw [ok]
    exact ⟨rfl, rfl⟩
  · intro ok
    cases result with
    | error err => exact absurd ok (failed err rfl)
    | ok share =>
      obtain ⟨encodable, writes⟩ := parse_iff.mp parsed
      exact ⟨share, encodable, writes, rfl⟩
  · intro not_ok
    cases result with
    | error err => rfl
    | ok share => exact absurd rfl not_ok

/-- The share of the words above. -/
def sampleShare : Share where
  identifier := 7945
  extendable := false
  iteration_exponent := 0
  group_index := 0
  group_threshold := 1
  group_count := 1
  member_index := 0
  member_threshold := 1
  value := [0x11, 0xbc, 0x60, 0x9d, 0x21, 0x74, 0x7c, 0x49, 0xba, 0x78, 0xc0, 0x70, 0x12, 0x93, 0xe4, 0x17]

/-- A share of twenty words fills the record. -/
theorem slip39_parse_share_inverse_sample :
    Encodable sampleShare ∧ encode sampleShare = shareWords ∧
      slip39_parse_share_into SLIP39_WORDLIST (plain shareWords) = .ok (.OK, sampleShare.record) := by
  have encodable : Encodable sampleShare := by
    refine ⟨⟨?_, ?_, ?_, ?_, ?_, ?_, ?_⟩, ?_⟩ <;> decide
  have encoded : encode sampleShare = shareWords := by decide +kernel
  have writes : Writes (plain shareWords) (encode sampleShare) := by
    rw [encoded]
    exact writes_plain shareWords_listed
  have something : plain shareWords ≠ [] := by decide +kernel
  obtain ⟨err, record, parsed, ok, -, -⟩ := slip39_parse_share_inverse (plain shareWords) something
  obtain ⟨rfl, rfl⟩ := ok sampleShare encodable writes
  exact ⟨encodable, encoded, parsed⟩

end PiJade.Slip39
