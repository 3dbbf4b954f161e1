import PiJade.DescriptorKeys

/-!
URL encoding (`main/utils/urldecode.c`). The text has no terminator of its own: a read at or behind its
length is an error, and so are a write behind the buffer, a failed assertion and a loop that does not
end. The decoder also runs dry, with a buffer size but no buffer.
-/
namespace PiJade.UrlCodec
open Text
open DescriptorText.Memory (Exit At charAt put snprintf value_bind put_spec putAll_spec)
set_option linter.unusedSimpArgs false

/-- The value of a hexadecimal digit. -/
def map_char (c : UInt8) : Except Exit UInt8 :=
  if isxdigit c then
    let c := if 97 ≤ c then c - (97 - 65) else c
    return if 65 ≤ c then c - (65 - 10) else c - 48
  else .error .abort

/-- The check of the padding: where it ends, if it is all zero. -/
def nulTail (src : Bytes) : Nat → Nat → Except Exit (Option Nat)
  | 0, _ => .error .diverged
  | rounds + 1, p =>
    if p < src.length then do
      let c ← charAt src p
      if c ≠ 0 then return none
      else nulTail src rounds (p + 1)
    else return some p

/-- The next character as it is decoded, and where the one behind it starts. -/
def decodeChar (src : Bytes) (p : Nat) : Except Exit (Option (Nat × Nat)) := do
  let c ← charAt src p
  if c = 37 then
    if src.length - p ≤ 2 then return none
    else
      let first ← charAt src (p + 1)
      if !isxdigit first then return none
      else
        let second ← charAt src (p + 2)
        if !isxdigit second then return none
        else
          let high ← map_char first
          let low ← map_char second
          return some (16 * high.toNat + low.toNat, p + 3)
  else if c = 43 then return some (32, p + 1)
  else return some (c.toNat, p + 1)

section
variable (dest_len : Nat)

/-- The variables of the loop; there is no destination in a dry run. -/
structure Run where
  p : Nat
  decoded_len : Nat
  dest : Option (Nat × Vector UInt8 dest_len)

/-- `*dest++ = decoded`, unless it is a dry run. -/
def store (c : UInt8) : Option (Nat × Vector UInt8 dest_len) → Except Exit (Option (Nat × Vector UInt8 dest_len))
  | none => return none
  | some (d, buffer) => do
    let buffer ← put buffer d c
    return some (d + 1, buffer)

def decodeFrom (check_fn : UInt8 → Bool) (src : Bytes) : Nat → Run dest_len → Except Exit (Option (Run dest_len))
  | 0, _ => .error .diverged
  | rounds + 1, run =>
    if run.p < src.length then do
      let c ← charAt src run.p
      if c = 0 then
        match ← nulTail src (src.length + 1) run.p with
        | none => return none
        | some p => return some { run with p }
      else if run.decoded_len + 1 = dest_len then return none
      else
        match ← decodeChar src run.p with
        | none => return none
        | some (decoded, p) =>
          if decoded < 0x20 ∨ 0x7e < decoded then return none
          else if !check_fn (UInt8.ofNat decoded) then return none
          else
            let dest ← store dest_len (UInt8.ofNat decoded) run.dest
            decodeFrom check_fn src rounds { p, decoded_len := run.decoded_len + 1, dest }
    else return some run

/-- Without a filter every character passes. Nothing comes out of a text that is refused. -/
def try_urldecode (src : Bytes) (dest : Option (Vector UInt8 dest_len)) (check_fn : UInt8 → Bool) :
    Except Exit (Option (Option (Vector UInt8 dest_len))) :=
  if src.length = 0 ∨ dest_len = 0 then return none
  else do
    match ← decodeFrom dest_len check_fn src (src.length + 1) { p := 0, decoded_len := 0, dest := dest.map (0, ·) } with
    | none => return none
    | some run =>
      if run.p ≠ src.length ∨ ¬ run.decoded_len < dest_len then .error .abort
      else
        match run.dest with
        | none => return some none
        | some (d, buffer) =>
          if d ≠ run.decoded_len then .error .abort
          else
            let buffer ← put buffer d 0
            return some (some buffer)

end

def urldecode {dest_len : Nat} (src : Bytes) (dest : Vector UInt8 dest_len) : Except Exit (Option (Vector UInt8 dest_len)) :=
  if src.length = 0 ∨ dest_len = 0 then .error .abort
  else do
    let found ← try_urldecode dest_len src (some dest) fun _ => true
    return found.join

def is_valid_urlencoding (src : Bytes) (max_len : Nat) (check_fn : UInt8 → Bool) : Except Exit Bool :=
  if max_len = 0 then .error .abort
  else do
    let found ← try_urldecode max_len src none check_fn
    return found.isSome

/-- The characters that stand for themselves. -/
def unreserved (c : UInt8) : Bool := isalnum c || c == 45 || c == 95 || c == 46 || c == 126

def hexDigit (n : Nat) : UInt8 := UInt8.ofNat (if n < 10 then 48 + n else 55 + n)

/-- `"%%%02X"`. -/
def escape (c : UInt8) : Bytes := [37, hexDigit (c.toNat / 16), hexDigit (c.toNat % 16)]

section
variable {dest_len : Nat}

/-- The loop of `urlencode`: whether all of the text found room, and where the destination stands. -/
def encodeFrom : Bytes → Nat → Vector UInt8 dest_len → Except Exit (Bool × Nat × Vector UInt8 dest_len)
  | [], d, dest => return (true, d, dest)
  | c :: rest, d, dest =>
    if dest_len - d < 2 then do
      let dest ← put dest d 0
      return (false, d, dest)
    else if unreserved c then do
      let dest ← put dest d c
      encodeFrom rest (d + 1) dest
    else if c = 32 then do
      let dest ← put dest d 43
      encodeFrom rest (d + 1) dest
    else if dest_len - d < 4 then do
      let dest ← put dest d 0
      return (false, d, dest)
    else do
      let (dest, _) ← snprintf dest d (dest_len - d) (escape c)
      encodeFrom rest (d + 3) dest

def urlencode (src : Bytes) (dest : Vector UInt8 dest_len) : Except Exit (Bool × Vector UInt8 dest_len) :=
  if src.length = 0 ∨ dest_len = 0 then .error .abort
  else do
    let (all, d, dest) ← encodeFrom src 0 dest
    if !all then return (false, dest)
    else if ¬ d < dest_len then .error .abort
    else
      let dest ← put dest d 0
      return (true, dest)

end

/-! ### Encoded texts -/

/-- The number of two hexadecimal digits. -/
def hexNumber (high low : UInt8) : Nat := 16 * hexValue high + hexValue low
where
  hexValue (c : UInt8) : Nat := if 97 ≤ c then c.toNat - 87 else if 65 ≤ c then c.toNat - 55 else c.toNat - 48

def Printable (n : Nat) : Prop := 0x20 ≤ n ∧ n ≤ 0x7e

/-- A text of characters that stand for themselves, of `+` for a space and of whole escapes. -/
inductive Encodes : Bytes → Bytes → Prop
  | nil : Encodes [] []
  | plain {c : UInt8} {text out : Bytes} (other : c ≠ 37 ∧ c ≠ 43) (printable : Printable c.toNat) (later : Encodes text out) :
      Encodes (c :: text) (c :: out)
  | plus {text out : Bytes} (later : Encodes text out) : Encodes (43 :: text) (32 :: out)
  | escaped {high low : UInt8} {text out : Bytes} (digits : isxdigit high = true ∧ isxdigit low = true)
      (printable : Printable (hexNumber high low)) (later : Encodes text out) :
      Encodes (37 :: high :: low :: text) (UInt8.ofNat (hexNumber high low) :: out)

/-- What the loop finds at the start of a text: a character, and the text behind it. -/
def first : Bytes → Option (Nat × Bytes)
  | [] => none
  | c :: rest =>
    if c = 37 then
      match rest with
      | high :: low :: later => if isxdigit high && isxdigit low then some (hexNumber high low, later) else none
      | _ => none
    else if c = 43 then some (32, rest)
    else some (c.toNat, rest)

theorem isxdigit_cases {c : UInt8} (digit : isxdigit c = true) :
    48 ≤ c.toNat ∧ c.toNat ≤ 57 ∨ 65 ≤ c.toNat ∧ c.toNat ≤ 70 ∨ 97 ≤ c.toNat ∧ c.toNat ≤ 102 := by
  simpa [isxdigit, isdigit, UInt8.le_iff_toNat_le, or_assoc] using digit

theorem map_char_eq {c : UInt8} (digit : isxdigit c = true) :
    ∃ value, map_char c = .ok value ∧ value.toNat = hexNumber.hexValue c := by
  refine ⟨_, if_pos digit, ?_⟩
  have le (n : UInt8) : n ≤ c ↔ n.toNat ≤ c.toNat := UInt8.le_iff_toNat_le
  unfold hexNumber.hexValue
  rcases isxdigit_cases digit with ⟨low, high⟩ | ⟨low, high⟩ | ⟨low, high⟩
  · have small : ¬ 97 ≤ c := by rw [le]; simp only [UInt8.reduceToNat]; omega
    have capital : ¬ 65 ≤ c := by rw [le]; simp only [UInt8.reduceToNat]; omega
    rw [if_neg small, if_neg capital, if_neg small, if_neg capital]
    exact UInt8.toNat_sub_of_le _ _ ((le 48).mpr low)
  · have small : ¬ 97 ≤ c := by rw [le]; simp only [UInt8.reduceToNat]; omega
    have capital : 65 ≤ c := (le 65).mpr low
    rw [if_neg small, if_pos capital, if_neg small, if_pos capital]
    exact UInt8.toNat_sub_of_le _ _ ((le 55).mpr (Nat.le_trans (by decide) low))
  · have small : 97 ≤ c := (le 97).mpr low
    have shifted : (c - (97 - 65)).toNat = c.toNat - 32 := UInt8.toNat_sub_of_le _ _ ((le 32).mpr (Nat.le_trans (by decide) low))
    have capital : 65 ≤ c - (97 - 65) := by
      rw [UInt8.le_iff_toNat_le, shifted]
      simp only [UInt8.reduceToNat]
      omega
    rw [if_pos small, if_pos capital, if_pos small]
    have value : (c - (97 - 65) - (65 - 10)).toNat = (c - (97 - 65)).toNat - 55 :=
      UInt8.toNat_sub_of_le _ _ (Nat.le_trans (by decide) capital)
    rw [value, shifted]
    omega

/-- The next character of a text in memory. -/
theorem decodeChar_at {src rest : Bytes} {p : Nat} (here : At src p rest) (more : rest ≠ []) :
    (first rest = none ∧ decodeChar src p = .ok none) ∨
    ∃ decoded later behind, first rest = some (decoded, later) ∧ decodeChar src p = .ok (some (decoded, behind)) ∧
      At src behind later ∧ later.length < rest.length := by
  cases rest with
  | nil => exact absurd rfl more
  | cons c rest =>
    rw [decodeChar, here.charAt, value_bind]
    by_cases percent : c = 37
    · rw [if_pos percent]
      subst percent
      have size := here.length
      rcases rest with - | ⟨high, - | ⟨low, later⟩⟩
      · rw [List.length_singleton] at size
        exact .inl ⟨rfl, if_pos (by omega)⟩
      · rw [List.length_cons, List.length_singleton] at size
        exact .inl ⟨rfl, if_pos (by omega)⟩
      · rw [List.length_cons, List.length_cons, List.length_cons] at size
        rw [if_neg (by omega), here.next.charAt, value_bind]
        have found : first (37 :: high :: low :: later) =
          if isxdigit high && isxdigit low then some (hexNumber high low, later) else none := rfl
        rw [found]
        have is_digit : ¬ (!true) = true := by decide
        cases high_digit : isxdigit high with
        | false => exact .inl ⟨rfl, rfl⟩
        | true =>
          rw [if_neg is_digit, here.next.next.charAt, value_bind]
          cases low_digit : isxdigit low with
          | false => exact .inl ⟨rfl, rfl⟩
          | true =>
            obtain ⟨upper, upper_read, upper_value⟩ := map_char_eq high_digit
            obtain ⟨lower, lower_read, lower_value⟩ := map_char_eq low_digit
            rw [if_neg is_digit, upper_read, value_bind, lower_read, value_bind, upper_value, lower_value]
            refine .inr ⟨_, later, p + 3, rfl, rfl, here.next.next.next, ?_⟩
            simp only [List.length_cons]
            omega
    · rw [if_neg percent]
      refine .inr ?_
      by_cases plus : c = 43
      · rw [if_pos plus]
        exact ⟨32, rest, p + 1, by rw [plus]; rfl, rfl, here.next, Nat.lt_succ_self _⟩
      · rw [if_neg plus]
        exact ⟨c.toNat, rest, p + 1, by simp [first, percent, plus], rfl, here.next, Nat.lt_succ_self _⟩

theorem encodes_nil {text : Bytes} (encodes : Encodes text []) : text = [] := by
  cases encodes
  rfl

/-- What encodes a character begins with it, whatever follows. -/
theorem encodes_cons {text out : Bytes} {d : UInt8} (encodes : Encodes text (d :: out)) :
    ∃ c rest later decoded, text = c :: rest ∧ c ≠ 0 ∧ Printable decoded ∧ UInt8.ofNat decoded = d ∧ Encodes later out ∧
      ∀ behind, first (c :: rest ++ behind) = some (decoded, later ++ behind) := by
  cases encodes with
  | @plain c later _ other printable encodes =>
    refine ⟨d, later, later, d.toNat, rfl, ?_, printable, UInt8.ofNat_toNat, encodes, fun behind => ?_⟩
    · rintro rfl
      exact absurd printable.1 (by decide)
    · simp [first, other.1, other.2]
  | plus encodes => exact ⟨43, _, _, 32, rfl, by decide, ⟨by decide, by decide⟩, rfl, encodes, fun behind => rfl⟩
  | escaped digits printable encodes =>
    exact ⟨37, _, _, _, rfl, by decide, printable, rfl, encodes, fun behind => by simp [first, digits.1, digits.2]⟩

/-- A character that is found is encoded by what has been read. -/
theorem encodes_of_first {c : UInt8} {rest later : Bytes} {decoded : Nat} (found : first (c :: rest) = some (decoded, later))
    (printable : Printable decoded) : ∃ piece, c :: rest = piece ++ later ∧
      ∀ text out, Encodes text out → Encodes (piece ++ text) (UInt8.ofNat decoded :: out) := by
  by_cases percent : c = 37
  · subst percent
    rcases rest with - | ⟨high, - | ⟨low, others⟩⟩
    · cases found
    · cases found
    · simp only [first, if_true] at found
      by_cases digits : (isxdigit high && isxdigit low) = true
      · rw [if_pos digits] at found
        obtain ⟨rfl, rfl⟩ := Prod.mk.inj (Option.some.inj found)
        exact ⟨[37, high, low], rfl, fun text out encodes => .escaped (by simpa using digits) printable encodes⟩
      · rw [if_neg digits] at found
        cases found
  · by_cases plus : c = 43
    · subst plus
      obtain ⟨rfl, rfl⟩ := Prod.mk.inj (Option.some.inj found)
      exact ⟨[43], rfl, fun text out encodes => .plus encodes⟩
    · simp only [first, percent, plus, if_false] at found
      obtain ⟨rfl, rfl⟩ := Prod.mk.inj (Option.some.inj found)
      refine ⟨[c], rfl, fun text out encodes => ?_⟩
      rw [UInt8.ofNat_toNat]
      exact .plain ⟨percent, plus⟩ printable encodes

/-! ### The decoder -/

/-- A text that is padded with zeros. -/
def Padded (src text : Bytes) : Prop := ∃ zeros, src = text ++ List.replicate zeros 0

theorem nulTail_spec {src rest : Bytes} : ∀ {rounds p : Nat}, At src p rest → rest.length < rounds →
    (nulTail src rounds p = .ok none ∧ ¬ Padded rest []) ∨ (nulTail src rounds p = .ok (some src.length) ∧ Padded rest []) := by
  induction rest with
  | nil =>
    intro rounds p here enough
    cases rounds with
    | zero => cases enough
    | succ rounds =>
      have ended : p = src.length := Nat.le_antisymm here.1 (Nat.le_of_not_lt here.outside)
      rw [nulTail, if_neg here.outside, ended]
      exact .inr ⟨rfl, 0, rfl⟩
  | cons c rest ih =>
    intro rounds p here enough
    cases rounds with
    | zero => cases enough
    | succ rounds =>
      rw [nulTail, if_pos here.inside, here.charAt, value_bind]
      by_cases zero : c = 0
      · rw [if_neg (not_not_intro zero)]
        rcases ih here.next (Nat.lt_of_succ_lt_succ enough) with ⟨refused, other⟩ | ⟨ended, zeros, padding⟩
        · refine .inl ⟨refused, ?_⟩
          rintro ⟨zeros, padding⟩
          cases zeros with
          | zero => cases padding
          | succ zeros => exact other ⟨zeros, (List.cons.inj padding).2⟩
        · exact .inr ⟨ended, zeros + 1, by rw [zero, padding]; rfl⟩
      · rw [if_pos zero]
        refine .inl ⟨rfl, ?_⟩
        rintro ⟨zeros, padding⟩
        cases zeros with
        | zero => cases padding
        | succ zeros => exact zero (List.cons.inj padding).1

section
variable {dest_len : Nat} {check_fn : UInt8 → Bool} {src : Bytes}

/-- The destination, if there is one, stands behind what is decoded. -/
def Holds (dest : Option (Nat × Vector UInt8 dest_len)) (front : Bytes) : Prop :=
  ∀ d buffer, dest = some (d, buffer) → d = front.length ∧ front <+: buffer.toList

theorem store_spec {dest : Option (Nat × Vector UInt8 dest_len)} {front : Bytes} (holds : Holds dest front)
    (fits : front.length < dest_len) (c : UInt8) : ∃ next, store dest_len c dest = .ok next ∧ Holds next (front ++ [c]) ∧
      next.isSome = dest.isSome := by
  cases dest with
  | none => exact ⟨none, rfl, fun _ _ => nofun, rfl⟩
  | some target =>
    obtain ⟨d, buffer⟩ := target
    obtain ⟨rfl, begins⟩ := holds d buffer rfl
    obtain ⟨later, stored, continued⟩ := put_spec begins fits c
    refine ⟨some (front.length + 1, later), ?_, ?_, rfl⟩
    · rw [store, stored, value_bind]
      rfl
    · rintro d buffer ⟨⟩
      exact ⟨by rw [List.length_append]; rfl, continued⟩

/-- One round on a character that is taken. -/
theorem decodeFrom_round {run : Run dest_len} {c : UInt8} {rest later front : Bytes} {decoded : Nat} (rounds : Nat)
    (here : At src run.p (c :: rest)) (visible : c ≠ 0) (found : first (c :: rest) = some (decoded, later))
    (printable : Printable decoded) (passes : check_fn (UInt8.ofNat decoded) = true) (count : run.decoded_len = front.length)
    (holds : Holds run.dest front) (fits : front.length + 1 < dest_len) :
    ∃ next : Run dest_len, decodeFrom dest_len check_fn src (rounds + 1) run = decodeFrom dest_len check_fn src rounds next ∧
      At src next.p later ∧ next.decoded_len = (front ++ [UInt8.ofNat decoded]).length ∧
      Holds next.dest (front ++ [UInt8.ofNat decoded]) ∧ next.dest.isSome = run.dest.isSome ∧
      later.length < (c :: rest).length := by
  rcases decodeChar_at here (List.cons_ne_nil _ _) with ⟨nothing, _⟩ | ⟨value, others, behind, same, read, there, shorter⟩
  · rw [nothing] at found
    cases found
  · rw [found] at same
    obtain ⟨rfl, rfl⟩ := Prod.mk.inj (Option.some.inj same)
    obtain ⟨dest, stored, continued, kind⟩ := store_spec holds (Nat.lt_of_succ_lt fits) (UInt8.ofNat decoded)
    refine ⟨{ p := behind, decoded_len := run.decoded_len + 1, dest }, ?_, there, ?_, continued, kind, shorter⟩
    · have outside : ¬ (decoded < 0x20 ∨ 0x7e < decoded) := by
        rintro (below | above)
        · exact absurd printable.1 (Nat.not_le.mpr below)
        · exact absurd printable.2 (Nat.not_le.mpr above)
      rw [decodeFrom, if_pos here.inside, here.charAt, value_bind, if_neg visible, if_neg (by omega), read, value_bind]
      dsimp only
      rw [if_neg outside, passes, if_neg (by decide), stored, value_bind]
    · rw [List.length_append, List.length_singleton]
      exact congrArg (· + 1) count

/-- What encodes some characters is decoded. -/
theorem decodeFrom_encodes {out : Bytes} : ∀ {text : Bytes} {run : Run dest_len} {front : Bytes} {rounds zeros : Nat},
    Encodes text out → At src run.p (text ++ List.replicate zeros 0) → (∀ c ∈ out, check_fn c = true) →
    run.decoded_len = front.length → Holds run.dest front → front.length + out.length < dest_len →
    src.length - run.p < rounds → ∃ last : Run dest_len, decodeFrom dest_len check_fn src rounds run = .ok (some last) ∧
      last.p = src.length ∧ last.decoded_len = (front ++ out).length ∧ Holds last.dest (front ++ out) ∧
      last.dest.isSome = run.dest.isSome := by
  induction out with
  | nil =>
    intro text run front rounds zeros encodes here _ count holds _ enough
    obtain rfl := encodes_nil encodes
    rw [List.nil_append] at here
    rw [List.append_nil]
    cases rounds with
    | zero => cases enough
    | succ rounds =>
      cases zeros with
      | zero =>
        have ended : run.p = src.length := Nat.le_antisymm here.1 (Nat.le_of_not_lt here.outside)
        exact ⟨run, by rw [decodeFrom, if_neg here.outside]; rfl, ended, count, holds, rfl⟩
      | succ zeros =>
        rcases @nulTail_spec src _ (src.length + 1) _ here (by rw [here.length]; omega) with ⟨_, other⟩ | ⟨tail, _⟩
        · exact absurd ⟨zeros + 1, rfl⟩ other
        · refine ⟨{ run with p := src.length }, ?_, rfl, count, holds, rfl⟩
          rw [decodeFrom, if_pos (At.inside here), At.charAt here, value_bind, if_pos rfl, tail]
          rfl
  | cons d out ih =>
    intro text run front rounds zeros encodes here passes count holds fits enough
    rw [List.forall_mem_cons] at passes
    obtain ⟨c, rest, later, decoded, rfl, visible, printable, rfl, others, found⟩ := encodes_cons encodes
    cases rounds with
    | zero => cases enough
    | succ rounds =>
      rw [List.length_cons] at fits
      obtain ⟨next, round, there, counted, continued, kind, shorter⟩ := decodeFrom_round rounds here visible (found _) printable
        passes.1 count holds (by omega)
      have before : (c :: (rest ++ List.replicate zeros 0)).length = src.length - run.p := At.length here
      have less : src.length - next.p < (c :: (rest ++ List.replicate zeros 0)).length := there.length ▸ shorter
      obtain ⟨last, ran, ended, total, whole, same⟩ := ih others there passes.2 counted continued
        (by rw [List.length_append, List.length_singleton]; omega) (show src.length - next.p < rounds by omega)
      rw [List.append_assoc] at total whole
      exact ⟨last, by rw [round, ran], ended, total, whole, by rw [same, kind]⟩

/-- The loop ends, and what it takes is encoded. -/
theorem decodeFrom_sound : ∀ {rounds : Nat} {run : Run dest_len} {rest front : Bytes}, At src run.p rest →
    run.decoded_len = front.length → Holds run.dest front → front.length < dest_len → rest.length < rounds →
    ∃ result, decodeFrom dest_len check_fn src rounds run = .ok result ∧ (result.isSome = true →
      ∃ text out, Padded rest text ∧ Encodes text out ∧ (∀ c ∈ out, check_fn c = true) ∧ front.length + out.length < dest_len)
  | 0, _, _, _, _, _, _, _, enough => by cases enough
  | rounds + 1, run, [], front, here, _, _, fits, _ =>
    ⟨some run, by rw [decodeFrom, if_neg here.outside]; rfl, fun _ =>
      ⟨[], [], ⟨0, rfl⟩, .nil, List.forall_mem_nil _, fits⟩⟩
  | rounds + 1, run, c :: rest, front, here, count, holds, fits, enough => by
    rw [decodeFrom, if_pos here.inside, here.charAt, value_bind]
    have refused : ∀ {P : Prop}, ∃ result, (pure none : Except Exit (Option (Run dest_len))) = .ok result ∧
        (result.isSome = true → P) := ⟨none, rfl, nofun⟩
    by_cases zero : c = 0
    · rw [if_pos zero]
      rcases @nulTail_spec src _ (src.length + 1) _ here (by rw [here.length]; omega) with ⟨tail, _⟩ | ⟨tail, padding⟩
      · rw [tail]
        exact refused
      · rw [tail]
        exact ⟨_, rfl, fun _ => ⟨[], [], padding, .nil, List.forall_mem_nil _, fits⟩⟩
    rw [if_neg zero]
    by_cases full : run.decoded_len + 1 = dest_len
    · rw [if_pos full]
      exact refused
    rw [if_neg full]
    rcases decodeChar_at here (List.cons_ne_nil _ _) with ⟨_, read⟩ | ⟨decoded, later, behind, found, read, there, shorter⟩
    · rw [read]
      exact refused
    rw [read, value_bind]
    dsimp only
    by_cases outside : decoded < 0x20 ∨ 0x7e < decoded
    · rw [if_pos outside]
      exact refused
    rw [if_neg outside]
    cases passes : check_fn (UInt8.ofNat decoded) with
    | false => exact refused
    | true =>
      rw [not_or, Nat.not_lt, Nat.not_lt] at outside
      obtain ⟨dest, stored, continued, _⟩ := store_spec holds fits (UInt8.ofNat decoded)
      have length : (front ++ [UInt8.ofNat decoded]).length = front.length + 1 := by simp
      obtain ⟨result, ran, taken⟩ := @decodeFrom_sound rounds { p := behind, decoded_len := run.decoded_len + 1, dest } later
        (front ++ [UInt8.ofNat decoded]) there (by rw [length, count]) continued (by omega)
        (Nat.lt_of_lt_of_le shorter (Nat.le_of_lt_succ enough))
      rw [if_neg (by decide), stored, value_bind]
      refine ⟨result, ran, fun some_run => ?_⟩
      obtain ⟨text, out, ⟨zeros, padding⟩, encodes, allowed, room⟩ := taken some_run
      obtain ⟨piece, split, encoded⟩ := encodes_of_first found outside
      refine ⟨piece ++ text, _, ⟨zeros, by rw [split, padding, List.append_assoc]⟩, encoded text out encodes,
        List.forall_mem_cons.mpr ⟨passes, allowed⟩, ?_⟩
      rw [List.length_cons]
      omega

theorem start_holds (dest : Option (Vector UInt8 dest_len)) : Holds (dest.map (0, ·)) [] := by
  intro d buffer same
  cases dest with
  | none => cases same
  | some target =>
    obtain ⟨rfl, rfl⟩ := Prod.mk.inj (Option.some.inj same)
    exact ⟨rfl, List.nil_prefix⟩

theorem present {text : Bytes} (some_char : text ≠ []) (room : dest_len ≠ 0) : ¬ (text.length = 0 ∨ dest_len = 0) := by
  rintro (empty | none)
  · exact some_char (List.length_eq_zero_iff.mp empty)
  · exact room none

/-- What is encoded is accepted and comes out, with a terminator. -/
theorem try_urldecode_encodes (some_char : src ≠ []) {text out : Bytes} (padded : Padded src text) (encodes : Encodes text out)
    (passes : ∀ c ∈ out, check_fn c = true) (fits : out.length < dest_len) (dest : Option (Vector UInt8 dest_len)) :
    ∃ last, try_urldecode dest_len src dest check_fn = .ok (some last) ∧ last.isSome = dest.isSome ∧
      ∀ buffer, last = some buffer → out ++ [0] <+: buffer.toList := by
  have room : dest_len ≠ 0 := Nat.ne_of_gt (Nat.lt_of_le_of_lt (Nat.zero_le _) fits)
  rw [try_urldecode, if_neg (present some_char room)]
  obtain ⟨zeros, rfl⟩ := padded
  obtain ⟨last, ran, ended, count, holds, kind⟩ := @decodeFrom_encodes dest_len check_fn _ _ _
    { p := 0, decoded_len := 0, dest := dest.map (0, ·) } [] (List.length (text ++ List.replicate zeros 0) + 1) zeros encodes
    (DescriptorText.Memory.at_start _) passes rfl (start_holds dest) (by simpa using fits) (by simp)
  rw [List.nil_append] at count holds
  rw [ran, value_bind]
  dsimp only
  rw [if_neg (by rw [not_or, not_not, not_not, count]; exact ⟨ended, fits⟩)]
  cases target : last.dest with
  | none =>
    rw [target, Option.isSome_none, Option.isSome_map] at kind
    exact ⟨none, rfl, kind, fun _ => nofun⟩
  | some target_at =>
    obtain ⟨d, buffer⟩ := target_at
    rw [target, Option.isSome_some, Option.isSome_map] at kind
    obtain ⟨place, begins⟩ := holds d buffer target
    obtain ⟨later, stored, whole⟩ := put_spec begins fits 0
    dsimp only
    rw [if_neg (not_not_intro (place.trans count.symm)), place, stored, value_bind]
    exact ⟨some later, rfl, kind, fun buffer same => by rw [← Option.some.inj same]; exact whole⟩

/-- What a decoder accepts that has room for so many characters and a terminator. -/
def Accepted (check_fn : UInt8 → Bool) (dest_len : Nat) (src : Bytes) : Prop :=
  ∃ text out, Padded src text ∧ Encodes text out ∧ (∀ c ∈ out, check_fn c = true) ∧ out.length < dest_len

theorem try_urldecode_refused (some_char : src ≠ []) (room : dest_len ≠ 0) (refused : ¬ Accepted check_fn dest_len src)
    (dest : Option (Vector UInt8 dest_len)) : try_urldecode dest_len src dest check_fn = .ok none := by
  obtain ⟨result, ran, taken⟩ := @decodeFrom_sound dest_len check_fn src (src.length + 1)
    { p := 0, decoded_len := 0, dest := dest.map (0, ·) } src [] (DescriptorText.Memory.at_start _) rfl (start_holds dest)
    (Nat.pos_of_ne_zero room) (Nat.lt_succ_self _)
  rw [try_urldecode, if_neg (present some_char room), ran, value_bind]
  cases result with
  | none => rfl
  | some run =>
    obtain ⟨text, out, padded, encodes, passes, fits⟩ := taken rfl
    rw [List.length_nil, Nat.zero_add] at fits
    exact absurd ⟨text, out, padded, encodes, passes, fits⟩ refused

theorem urldecode_encodes (some_char : src ≠ []) {text out : Bytes} (padded : Padded src text) (encodes : Encodes text out)
    (fits : out.length < dest_len) (dest : Vector UInt8 dest_len) :
    ∃ last, urldecode src dest = .ok (some last) ∧ out ++ [0] <+: last.toList := by
  have room : dest_len ≠ 0 := Nat.ne_of_gt (Nat.lt_of_le_of_lt (Nat.zero_le _) fits)
  obtain ⟨last, ran, kind, whole⟩ := @try_urldecode_encodes _ (fun _ => true) _ some_char _ _ padded encodes (fun _ _ => rfl)
    fits (some dest)
  obtain ⟨buffer, rfl⟩ := Option.isSome_iff_exists.mp kind
  exact ⟨buffer, by rw [urldecode, if_neg (present some_char room), ran]; rfl, whole buffer rfl⟩

theorem urldecode_refused (some_char : src ≠ []) (room : dest_len ≠ 0) (refused : ¬ Accepted (fun _ => true) dest_len src)
    (dest : Vector UInt8 dest_len) : urldecode src dest = .ok none := by
  rw [urldecode, if_neg (present some_char room), try_urldecode_refused some_char room refused]
  rfl

theorem is_valid_urlencoding_iff (some_char : src ≠ []) (room : dest_len ≠ 0) : ∃ valid,
    is_valid_urlencoding src dest_len check_fn = .ok valid ∧ (valid = true ↔ Accepted check_fn dest_len src) := by
  rw [is_valid_urlencoding, if_neg room]
  by_cases accepted : Accepted check_fn dest_len src
  · have ⟨text, out, padded, encodes, passes, fits⟩ := accepted
    obtain ⟨last, ran, _⟩ := @try_urldecode_encodes dest_len _ _ some_char _ _ padded encodes passes fits none
    exact ⟨true, by rw [ran]; rfl, fun _ => accepted, fun _ => rfl⟩
  · exact ⟨false, by rw [try_urldecode_refused some_char room accepted]; rfl, nofun, fun taken => absurd taken accepted⟩

end

/-! ### The encoder -/

def encodeChar (c : UInt8) : Bytes := if unreserved c then [c] else if c = 32 then [43] else escape c

def encode (s : Bytes) : Bytes := s.flatMap encodeChar

theorem hexDigit_spec : ∀ n : Fin 16, isxdigit (hexDigit n) = true ∧ hexNumber.hexValue (hexDigit n) = n := by decide

theorem escape_number (c : UInt8) : isxdigit (hexDigit (c.toNat / 16)) = true ∧ isxdigit (hexDigit (c.toNat % 16)) = true ∧
    hexNumber (hexDigit (c.toNat / 16)) (hexDigit (c.toNat % 16)) = c.toNat := by
  have small := c.toNat_lt
  obtain ⟨high_digit, high⟩ := hexDigit_spec ⟨c.toNat / 16, by omega⟩
  obtain ⟨low_digit, low⟩ := hexDigit_spec ⟨c.toNat % 16, by omega⟩
  refine ⟨high_digit, low_digit, ?_⟩
  simp only at high low
  rw [hexNumber, high, low]
  omega

theorem unreserved_plain {c : UInt8} (plain : unreserved c = true) : c ≠ 37 ∧ c ≠ 43 := by
  constructor
  · rintro rfl
    revert plain
    decide
  · rintro rfl
    revert plain
    decide

/-- An encoding encodes the text. -/
theorem encodes_encode {s : Bytes} (printable : ∀ c ∈ s, Printable c.toNat) : Encodes (encode s) s := by
  induction s with
  | nil => exact .nil
  | cons c s ih =>
    rw [List.forall_mem_cons] at printable
    have later := ih printable.2
    rw [encode, List.flatMap_cons, ← encode, encodeChar]
    by_cases plain : unreserved c = true
    · rw [if_pos plain]
      exact .plain (unreserved_plain plain) printable.1 later
    rw [if_neg plain]
    by_cases space : c = 32
    · rw [if_pos space, space]
      exact .plus later
    · rw [if_neg space]
      obtain ⟨high, low, number⟩ := escape_number c
      have escaped := Encodes.escaped ⟨high, low⟩ (by rw [number]; exact printable.1) later
      rwa [number, UInt8.ofNat_toNat] at escaped

theorem encodeChar_length (c : UInt8) : (encodeChar c).length = if unreserved c || c == 32 then 1 else 3 := by
  unfold encodeChar
  by_cases plain : unreserved c = true
  · simp [plain]
  · by_cases space : c = 32
    · rw [if_neg plain, if_pos space, space]
      rfl
    · simp [plain, space, escape]

section
variable {dest_len : Nat}

/-- The loop writes the encoding behind what the buffer holds, or finds no room for it and a terminator. -/
theorem encodeFrom_spec : ∀ {s front : Bytes} {dest : Vector UInt8 dest_len}, front <+: dest.toList → front.length < dest_len →
    (front.length + (encode s).length < dest_len ∧ ∃ later,
      encodeFrom s front.length dest = .ok (true, (front ++ encode s).length, later) ∧ front ++ encode s <+: later.toList) ∨
    (¬ front.length + (encode s).length < dest_len ∧ ∃ d later, encodeFrom s front.length dest = .ok (false, d, later))
  | [], front, dest, holds, fits => by
    refine .inl ⟨fits, dest, ?_, ?_⟩
    · rw [encode, List.flatMap_nil, List.append_nil]
      rfl
    · rwa [encode, List.flatMap_nil, List.append_nil]
  | c :: s, front, dest, holds, fits => by
    have split : encode (c :: s) = encodeChar c ++ encode s := rfl
    have size := encodeChar_length c
    rw [split, List.length_append, ← List.append_assoc]
    -- A character that finds room is behind the buffer's text; the rest follows it.
    have goes_on : ∀ {later : Vector UInt8 dest_len}, front ++ encodeChar c <+: later.toList →
        front.length + (encodeChar c).length < dest_len →
        (encodeFrom (c :: s) front.length dest = encodeFrom s (front.length + (encodeChar c).length) later) →
        (front.length + ((encodeChar c).length + (encode s).length) < dest_len ∧ ∃ later,
          encodeFrom (c :: s) front.length dest = .ok (true, (front ++ encodeChar c ++ encode s).length, later) ∧
            front ++ encodeChar c ++ encode s <+: later.toList) ∨
        (¬ front.length + ((encodeChar c).length + (encode s).length) < dest_len ∧ ∃ d later,
          encodeFrom (c :: s) front.length dest = .ok (false, d, later)) := by
      intro later continued room step
      rcases @encodeFrom_spec s (front ++ encodeChar c) later continued (by rw [List.length_append]; omega) with
        ⟨enough, last, ran, whole⟩ | ⟨short, d, last, ran⟩
      · rw [List.length_append] at enough ran
        exact .inl ⟨by omega, last, by rw [step, ran], whole⟩
      · rw [List.length_append] at short ran
        exact .inr ⟨by omega, d, last, by rw [step, ran]⟩
    have refused : ∃ d later, (do let dest ← put dest front.length 0; return (false, front.length, dest)) =
        (.ok (false, d, later) : Except Exit (Bool × Nat × Vector UInt8 dest_len)) := by
      obtain ⟨later, stored, _⟩ := put_spec holds fits 0
      exact ⟨_, later, by rw [stored, value_bind]; rfl⟩
    by_cases tight : dest_len - front.length < 2
    · refine .inr ⟨?_, ?_⟩
      · rw [size]
        split
        all_goals omega
      · rw [encodeFrom, if_pos tight]
        exact refused
    by_cases plain : unreserved c = true
    · have same : encodeChar c = [c] := if_pos plain
      obtain ⟨later, stored, continued⟩ := put_spec holds fits c
      refine goes_on (by rwa [same]) (by rw [same, List.length_singleton]; omega) ?_
      rw [encodeFrom, if_neg tight, if_pos plain, stored, value_bind, same]
      rfl
    by_cases space : c = 32
    · have same : encodeChar c = [43] := by rw [encodeChar, if_neg plain, if_pos space]
      obtain ⟨later, stored, continued⟩ := put_spec holds fits 43
      refine goes_on (by rwa [same]) (by rw [same, List.length_singleton]; omega) ?_
      rw [encodeFrom, if_neg tight, if_neg plain, if_pos space, stored, value_bind, same]
      rfl
    have same : encodeChar c = escape c := by rw [encodeChar, if_neg plain, if_neg space]
    have three : (escape c).length = 3 := rfl
    by_cases narrow : dest_len - front.length < 4
    · refine .inr ⟨by rw [same, three]; omega, ?_⟩
      rw [encodeFrom, if_neg tight, if_neg plain, if_neg space, if_pos narrow]
      exact refused
    · have whole : (escape c).take (dest_len - front.length - 1) = escape c := List.take_of_length_le (by rw [three]; omega)
      obtain ⟨later, stored, continued⟩ := @putAll_spec _ dest front (escape c ++ [0]) holds (by
        rw [List.length_append, three, List.length_singleton]
        omega)
      rw [← List.append_assoc] at continued
      refine goes_on (by rw [same]; exact (List.prefix_append _ _).trans continued) (by rw [same, three]; omega) ?_
      rw [encodeFrom, if_neg tight, if_neg plain, if_neg space, if_neg narrow, snprintf, if_neg (by omega), whole, stored,
        value_bind, same]
      rfl

/-- The encoding and its terminator are written exactly if both fit. -/
theorem urlencode_spec {s : Bytes} (some_char : s ≠ []) (room : dest_len ≠ 0) (dest : Vector UInt8 dest_len) :
    ((encode s).length + 1 ≤ dest_len ∧ ∃ later, urlencode s dest = .ok (true, later) ∧ encode s ++ [0] <+: later.toList) ∨
    (¬ (encode s).length + 1 ≤ dest_len ∧ ∃ later, urlencode s dest = .ok (false, later)) := by
  rw [urlencode, if_neg (present some_char room)]
  rcases @encodeFrom_spec _ s [] dest List.nil_prefix (Nat.pos_of_ne_zero room) with ⟨enough, later, ran, whole⟩ | ⟨short, d, later, ran⟩
  · rw [List.length_nil, Nat.zero_add] at enough
    rw [List.nil_append] at ran whole
    obtain ⟨last, stored, terminated⟩ := put_spec whole enough 0
    refine .inl ⟨enough, last, ?_, terminated⟩
    rw [show encodeFrom s 0 dest = _ from ran, value_bind]
    dsimp only
    rw [if_neg (by decide), if_neg (not_not_intro enough), stored, value_bind]
    rfl
  · rw [List.length_nil, Nat.zero_add] at short
    refine .inr ⟨short, later, ?_⟩
    rw [show encodeFrom s 0 dest = _ from ran, value_bind]
    rfl

end

/-! ### Both directions -/

/-- Every text of printable characters is encoded if there is room, and decoded again; every byte string is either the
encoding of characters that fit, which come out, or refused, with or without a buffer. No assertion fails and no access is
outside. -/
theorem url_encoding_exact :
    (∀ (s : Bytes) (dest_len : Nat) (dest : Vector UInt8 dest_len), s ≠ [] → (∀ c ∈ s, Printable c.toNat) →
      ((∃ later, urlencode s dest = .ok (true, later)) ↔ (encode s).length + 1 ≤ dest_len) ∧
      (dest_len ≠ 0 → ∃ result, urlencode s dest = .ok result) ∧
      ∀ later, urlencode s dest = .ok (true, later) → encode s ++ [0] <+: later.toList ∧
        ∀ (zeros size : Nat) (out : Vector UInt8 size), s.length < size →
          ∃ last, urldecode (encode s ++ List.replicate zeros 0) out = .ok (some last) ∧ s ++ [0] <+: last.toList) ∧
    ∀ (src : Bytes) (dest_len : Nat) (dest : Vector UInt8 dest_len), src ≠ [] → dest_len ≠ 0 → ∃ found,
      urldecode src dest = .ok found ∧ is_valid_urlencoding src dest_len (fun _ => true) = .ok found.isSome ∧
      (found.isSome = true ↔ ∃ text out, Padded src text ∧ Encodes text out ∧ out.length < dest_len) ∧
      ∀ text out last, Padded src text → Encodes text out → found = some last → out.length < dest_len →
        out ++ [0] <+: last.toList := by
  constructor
  · intro s dest_len dest some_char printable
    refine ⟨?_, ?_, ?_⟩
    · constructor
      · rintro ⟨later, ran⟩
        by_cases room : dest_len = 0
        · rw [urlencode, if_pos (.inr room)] at ran
          cases ran
        · rcases urlencode_spec some_char room dest with ⟨enough, _⟩ | ⟨_, other, refused⟩
          · exact enough
          · rw [refused] at ran
            cases ran
      · intro enough
        rcases urlencode_spec some_char (by omega) dest with ⟨_, later, ran, _⟩ | ⟨short, _⟩
        · exact ⟨later, ran⟩
        · exact absurd enough short
    · intro room
      rcases urlencode_spec some_char room dest with ⟨_, later, ran, _⟩ | ⟨_, later, ran⟩
      all_goals exact ⟨_, ran⟩
    · intro later ran
      have room : dest_len ≠ 0 := by
        rintro none
        rw [urlencode, if_pos (.inr none)] at ran
        cases ran
      constructor
      · rcases urlencode_spec some_char room dest with ⟨_, last, same, whole⟩ | ⟨_, last, refused⟩
        · rw [same] at ran
          obtain ⟨⟩ := ran
          exact whole
        · rw [refused] at ran
          cases ran
      · intro zeros size out fits
        have encodes := encodes_encode printable
        refine urldecode_encodes ?_ ⟨zeros, rfl⟩ encodes fits out
        intro nothing
        rw [(List.append_eq_nil_iff.mp nothing).1] at encodes
        cases encodes
        exact some_char rfl
  · intro src dest_len dest some_char room
    have same : Accepted (fun _ => true) dest_len src ↔
        ∃ text out, Padded src text ∧ Encodes text out ∧ out.length < dest_len := by simp [Accepted]
    obtain ⟨valid, checked, accepts⟩ := @is_valid_urlencoding_iff dest_len (fun _ => true) _ some_char room
    by_cases accepted : Accepted (fun _ => true) dest_len src
    · have ⟨text, out, padded, encodes, _, fits⟩ := accepted
      obtain ⟨last, ran, _⟩ := urldecode_encodes some_char padded encodes fits dest
      refine ⟨some last, ran, by rw [checked, accepts.mpr accepted]; rfl, ⟨fun _ => same.mp accepted, fun _ => rfl⟩, ?_⟩
      intro text' out' last' padded' encodes' found fits'
      obtain ⟨other, again, whole⟩ := urldecode_encodes some_char padded' encodes' fits' dest
      rw [ran] at again
      obtain ⟨⟩ := again
      obtain ⟨⟩ := found
      exact whole
    · have refused : valid = false := Bool.eq_false_iff.mpr fun taken => accepted (accepts.mp taken)
      exact ⟨none, urldecode_refused some_char room accepted dest, by rw [checked, refused]; rfl,
        ⟨nofun, fun taken => absurd (same.mpr taken) accepted⟩, fun _ _ _ _ _ => nofun⟩

/-- A slash is no unreserved character and needs no escape. -/
theorem urldecode_slash : ¬ ∀ (src : Bytes) (dest_len : Nat) (dest : Vector UInt8 dest_len),
    (∃ last, urldecode src dest = .ok (some last)) ↔ ∃ text out, Padded src text ∧ Encodes text out ∧
      (∀ c ∈ text, unreserved c = true ∨ c = 43 ∨ c = 37) ∧ out.length < dest_len := by
  intro strict
  have encodes : Encodes [97, 47, 98] [97, 47, 98] :=
    .plain (by decide) ⟨by decide, by decide⟩ (.plain (by decide) ⟨by decide, by decide⟩
      (.plain (by decide) ⟨by decide, by decide⟩ .nil))
  obtain ⟨last, ran, _⟩ := @urldecode_encodes 4 [97, 47, 98] (by decide) _ _ ⟨0, rfl⟩ encodes (by decide) (Vector.replicate 4 0)
  obtain ⟨text, out, ⟨zeros, padded⟩, _, plain, _⟩ := (strict [97, 47, 98] 4 (Vector.replicate 4 0)).mp ⟨last, ran⟩
  have slash : (47 : UInt8) ∈ text ++ List.replicate zeros 0 := padded ▸ by decide
  rcases List.mem_append.mp slash with inside | zero
  · rcases plain 47 inside with letter | plus | percent
    · revert letter
      decide
    · cases plus
    · cases percent
  · cases List.eq_of_mem_replicate zero

end PiJade.UrlCodec
