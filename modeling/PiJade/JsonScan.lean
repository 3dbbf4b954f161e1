import PiJade.JsonMembers

/-!
Reading JSON exports in memory (`main/descriptor_text.c`): the text is read by position, a read
at its end is an error, and so is a write behind the end of the buffer that takes a string.
Neither happens, whatever the bytes are, and every loop ends.
-/
namespace PiJade.DescriptorText.Memory
open Text Json
open SettingsCodec (ascii)
set_option linter.unusedSimpArgs false

/-- How parsing stops. -/
inductive Exit where
  | errmsg (text : String)
  | abort
  | out_of_bounds
  | diverged
  deriving DecidableEq, Repr

/-- `*p`, where the text ends at `end`. -/
def charAt (text : Bytes) (p : Nat) : Except Exit UInt8 :=
  match text[p]? with
  | some c => .ok c
  | none => .error .out_of_bounds

/-- `p < end && *p == c`. -/
def looksAt (text : Bytes) (p : Nat) (c : UInt8) : Except Exit Bool :=
  if p < text.length then do
    let found ← charAt text p
    return decide (found = c)
  else return false

/-- `buffer[i] = entry`. -/
def put {α : Type} {size : Nat} (buffer : Vector α size) (i : Nat) (entry : α) : Except Exit (Vector α size) :=
  if inside : i < size then .ok (buffer.set i entry inside) else .error .out_of_bounds

def skip_ws (text : Bytes) : Nat → Nat → Except Exit Nat
  | 0, _ => .error .diverged
  | rounds + 1, p =>
    if p < text.length then do
      let c ← charAt text p
      if isspace c then skip_ws text rounds (p + 1) else return p
    else return p

/-- Past the closing quote of a string, from behind its opening quote, or NULL. -/
def json_skip_string (text : Bytes) : Nat → Nat → Except Exit (Option Nat)
  | 0, _ => .error .diverged
  | rounds + 1, p =>
    if p < text.length then do
      let c ← charAt text p
      if c = '"'.toUInt8 then return some (p + 1)
      else if c = '\\'.toUInt8 then
        if p + 1 ≥ text.length then return none else json_skip_string text rounds (p + 2)
      else json_skip_string text rounds (p + 1)
    else return none

def json_skip_value (text : Bytes) : Nat → Nat → Nat → Except Exit (Option Nat)
  | 0, _, _ => .error .diverged
  | rounds + 1, depth, p =>
    if p < text.length then do
      let c ← charAt text p
      if c = '"'.toUInt8 then do
        let skipped ← json_skip_string text (text.length + 1) (p + 1)
        match skipped with
        | none => return none
        | some p => if depth = 0 then return some p else json_skip_value text rounds depth p
      else if c = '{'.toUInt8 ∨ c = '['.toUInt8 then json_skip_value text rounds (depth + 1) (p + 1)
      else if c = '}'.toUInt8 ∨ c = ']'.toUInt8 then
        if depth = 0 then return some p
        else if depth = 1 then return some (p + 1)
        else json_skip_value text rounds (depth - 1) (p + 1)
      else if c = ','.toUInt8 ∧ depth = 0 then return some p
      else json_skip_value text rounds depth (p + 1)
    else return none

/-- Whether the characters from a position are those of a string, ignoring case. -/
def strncasecmp (text : Bytes) : Nat → Bytes → Nat → Except Exit Bool
  | _, _, 0 => return true
  | p, key, n + 1 => do
    let c ← charAt text p
    if tolower c ≠ tolower (key.headD 0) then return false
    else if c = 0 then return true
    else strncasecmp text (p + 1) key.tail n

/-- Whether a name, which ends before its closing quote, is the key. -/
def nameMatches (text : Bytes) (name p : Nat) (key : Bytes) : Except Exit Bool :=
  if p - name - 1 = key.length then strncasecmp text name key key.length else return false

/-- The value of a member, from the opening brace or a separator. -/
def findMember (text key : Bytes) : Nat → Nat → Except Exit (Option Nat)
  | 0, _ => .error .diverged
  | rounds + 1, p => do
    let p ← skip_ws text (text.length + 1) (p + 1)
    let opened ← looksAt text p '"'.toUInt8
    if ¬ opened then return none
    else
      let name := p + 1
      let skipped ← json_skip_string text (text.length + 1) name
      match skipped with
      | none => return none
      | some p =>
        let found ← nameMatches text name p key
        let p ← skip_ws text (text.length + 1) p
        let separated ← looksAt text p ':'.toUInt8
        if ¬ separated then return none
        else
          let p ← skip_ws text (text.length + 1) (p + 1)
          if found then return some p
          else
            let skipped ← json_skip_value text (text.length + 1) 0 p
            match skipped with
            | none => return none
            | some p =>
              let p ← skip_ws text (text.length + 1) p
              let more ← looksAt text p ','.toUInt8
              if ¬ more then return none else findMember text key rounds p

/-- The buffer, and where the text ends in it if there is one. -/
abbrev Written (out_len : Nat) := Vector UInt8 out_len × Option Nat

def copyString (text : Bytes) {out_len : Nat} : Nat → Vector UInt8 out_len → Nat → Nat → Except Exit (Written out_len)
  | 0, _, _, _ => .error .diverged
  | rounds + 1, out, n, p =>
    if p < text.length then do
      let c ← charAt text p
      if c = '"'.toUInt8 then do
        let out ← put out n 0
        return (out, some n)
      else if c = '\\'.toUInt8 then
        if p + 1 ≥ text.length then return (out, none)
        else do
          let e ← charAt text (p + 1)
          if e ≠ '"'.toUInt8 ∧ e ≠ '\\'.toUInt8 ∧ e ≠ '/'.toUInt8 then return (out, none)
          else if n + 1 ≥ out_len then return (out, none)
          else do
            let out ← put out n e
            copyString text rounds out (n + 1) (p + 2)
      else if n + 1 ≥ out_len then return (out, none)
      else do
        let out ← put out n c
        copyString text rounds out (n + 1) (p + 1)
    else return (out, none)

def json_get_string (text : Bytes) (json : Nat) (key : Bytes) {out_len : Nat} (out : Vector UInt8 out_len) :
    Except Exit (Written out_len) := do
  let p ← skip_ws text (text.length + 1) json
  let opened ← looksAt text p '{'.toUInt8
  if ¬ opened then return (out, none)
  else
    let member ← findMember text key (text.length + 1) p
    match member with
    | none => return (out, none)
    | some p =>
      let string ← looksAt text p '"'.toUInt8
      if ¬ string then return (out, none) else copyString text (text.length + 1) out 0 (p + 1)

/-! ### Positions -/

/-- What is left of a text at a position. -/
def At (text : Bytes) (p : Nat) (rest : Bytes) : Prop := p ≤ text.length ∧ text.drop p = rest

variable {text : Bytes} {p : Nat}

theorem at_start (text : Bytes) : At text 0 text := ⟨Nat.zero_le _, rfl⟩

theorem At.length {rest : Bytes} (here : At text p rest) : rest.length = text.length - p := by
  rw [← here.2, List.length_drop]

theorem At.inside {c : UInt8} {rest : Bytes} (here : At text p (c :: rest)) : p < text.length := by
  have size := here.length
  rw [List.length_cons] at size
  omega

theorem At.charAt {c : UInt8} {rest : Bytes} (here : At text p (c :: rest)) : charAt text p = .ok c := by
  have first : text[p]? = some c := by rw [← List.head?_drop, here.2, List.head?_cons]
  rw [Memory.charAt, first]

theorem At.next {c : UInt8} {rest : Bytes} (here : At text p (c :: rest)) : At text (p + 1) rest :=
  ⟨here.inside, by rw [← List.drop_drop, here.2, List.drop_succ_cons, List.drop_zero]⟩

theorem At.outside (here : At text p []) : ¬ p < text.length := by
  have size := here.length
  rw [List.length_nil] at size
  omega

/-- A position is where the rest of the text is, or there is neither. -/
inductive Points (text : Bytes) : Option Nat → Option Bytes → Prop
  | none : Points text none none
  | some {p : Nat} {rest : Bytes} (here : At text p rest) : Points text (some p) (some rest)

theorem looksAt_spec {rest : Bytes} (here : At text p rest) (c : UInt8) :
    looksAt text p c = .ok (decide (rest.head? = some c)) := by
  cases rest with
  | nil =>
    rw [looksAt, if_neg here.outside]
    rfl
  | cons d rest =>
    rw [looksAt, if_pos here.inside, here.charAt]
    simp [pure, Except.pure, bind, Except.bind]

theorem skip_ws_spec {rest : Bytes} (here : At text p rest) {rounds : Nat} (enough : rest.length < rounds) :
    ∃ q, skip_ws text rounds p = .ok q ∧ p ≤ q ∧ At text q (DescriptorText.skip_ws rest) := by
  induction rest generalizing p rounds with
  | nil =>
    obtain ⟨rounds, rfl⟩ : ∃ n, rounds = n + 1 := ⟨rounds - 1, by omega⟩
    exact ⟨p, by rw [skip_ws, if_neg here.outside]; rfl, Nat.le_refl p, here⟩
  | cons c rest ih =>
    obtain ⟨rounds, rfl⟩ : ∃ n, rounds = n + 1 := ⟨rounds - 1, by omega⟩
    rw [List.length_cons] at enough
    by_cases space : isspace c = true
    · have fewer : rest.length < rounds := by omega
      obtain ⟨q, skipped, later, there⟩ := ih here.next fewer
      refine ⟨q, ?_, by omega, by rwa [DescriptorText.skip_ws, List.dropWhile_cons_of_pos space]⟩
      rw [skip_ws, if_pos here.inside, here.charAt, ← skipped]
      exact if_pos space
    · refine ⟨p, ?_, Nat.le_refl p, by rwa [DescriptorText.skip_ws, List.dropWhile_cons_of_neg space]⟩
      rw [skip_ws, if_pos here.inside, here.charAt]
      exact if_neg space

theorem json_skip_string_at {c : UInt8} {rest : Bytes} (here : At text p (c :: rest)) (rounds : Nat) :
    json_skip_string text (rounds + 1) p =
      if c = quote then .ok (some (p + 1))
      else if c = backslash then
        if p + 1 ≥ text.length then .ok none else json_skip_string text rounds (p + 2)
      else json_skip_string text rounds (p + 1) := by
  rw [json_skip_string, if_pos here.inside, here.charAt]
  rfl

theorem json_skip_string_spec {rest : Bytes} (here : At text p rest) {rounds : Nat} (enough : rest.length < rounds) :
    ∃ found, json_skip_string text rounds p = .ok found ∧ Points text found (DescriptorText.json_skip_string rest) := by
  induction rounds generalizing p rest with
  | zero => omega
  | succ rounds ih =>
    cases rest with
    | nil => exact ⟨none, by rw [json_skip_string, if_neg here.outside]; rfl, .none⟩
    | cons c rest =>
      rw [List.length_cons] at enough
      rw [json_skip_string_at here]
      by_cases quoted : c = quote
      · subst quoted
        exact ⟨some (p + 1), if_pos rfl, by rw [json_skip_string_quote]; exact .some here.next⟩
      · by_cases escape : c = backslash
        · subst escape
          rw [if_neg quoted, if_pos rfl]
          cases rest with
          | nil => exact ⟨none, if_pos (Nat.not_lt.mp here.next.outside), .none⟩
          | cons e rest =>
            rw [if_neg (Nat.not_le.mpr here.next.inside), json_skip_string_escape]
            rw [List.length_cons] at enough
            exact ih here.next.next (by omega)
        · rw [if_neg quoted, if_neg escape, json_skip_string_char ⟨quoted, escape⟩]
          exact ih here.next (by omega)

theorem At.length_le {rest : Bytes} (here : At text p rest) : rest.length < text.length + 1 := by
  rw [here.length]
  omega

theorem json_skip_value_at {c : UInt8} {rest : Bytes} (here : At text p (c :: rest)) (rounds depth : Nat) {found : Option Nat}
    (skipped : json_skip_string text (text.length + 1) (p + 1) = .ok found) :
    json_skip_value text (rounds + 1) depth p =
      if c = quote then
        found.elim (.ok none) fun p => if depth = 0 then .ok (some p) else json_skip_value text rounds depth p
      else if c = '{'.toUInt8 ∨ c = '['.toUInt8 then json_skip_value text rounds (depth + 1) (p + 1)
      else if c = '}'.toUInt8 ∨ c = ']'.toUInt8 then
        if depth = 0 then .ok (some p)
        else if depth = 1 then .ok (some (p + 1))
        else json_skip_value text rounds (depth - 1) (p + 1)
      else if c = ','.toUInt8 ∧ depth = 0 then .ok (some p)
      else json_skip_value text rounds depth (p + 1) := by
  rw [json_skip_value, if_pos here.inside, here.charAt, skipped]
  cases found <;> rfl

theorem json_skip_value_spec {rest : Bytes} (here : At text p rest) (depth : Nat) {rounds : Nat}
    (enough : rest.length < rounds) :
    ∃ found, json_skip_value text rounds depth p = .ok found ∧ Points text found (skipValue depth rest) := by
  induction rounds generalizing p rest depth with
  | zero => omega
  | succ rounds ih =>
    cases rest with
    | nil => exact ⟨none, by rw [json_skip_value, if_neg here.outside]; rfl, .none⟩
    | cons c rest =>
      rw [List.length_cons] at enough
      obtain ⟨found, skipped, points⟩ := json_skip_string_spec here.next here.next.length_le
      rw [json_skip_value_at here rounds depth skipped, skipValue_cons]
      split
      · generalize later : DescriptorText.json_skip_string rest = behind at points
        cases points with
        | none => exact ⟨none, rfl, .none⟩
        | some there =>
          have shorter := json_skip_string_length later
          rw [Option.elim_some, Option.bind_some]
          split
          · exact ⟨_, rfl, .some there⟩
          · exact ih there depth (by omega)
      · split
        · exact ih here.next _ (by omega)
        · split
          · split
            · exact ⟨_, rfl, .some here⟩
            · split
              · exact ⟨_, rfl, .some here.next⟩
              · exact ih here.next _ (by omega)
          · split
            · exact ⟨_, rfl, .some here⟩
            · exact ih here.next _ (by omega)

theorem tolower_zero {c : UInt8} (zero : tolower c = 0) : c = 0 := tolower_eq zero (by decide)

/-- Comparing as many characters as a key has does not read further, and sees whether they are the key's. -/
theorem strncasecmp_spec {key front rest : Bytes} (no_nul : 0 ∉ key) (here : At text p (front ++ rest))
    (size : front.length = key.length) :
    strncasecmp text p key key.length = .ok (decide (front.map tolower = key.map tolower)) := by
  induction key generalizing p front with
  | nil =>
    rw [List.eq_nil_of_length_eq_zero size]
    rfl
  | cons k key ih =>
    cases front with
    | nil => cases size
    | cons c front =>
      have char : k ≠ 0 := fun zero => no_nul (by simp [zero])
      have behind := ih (fun inside => no_nul (List.mem_cons_of_mem _ inside)) here.next (Nat.succ.inj size)
      rw [List.length_cons, strncasecmp, here.charAt]
      by_cases same : tolower c = tolower k
      · have visible : c ≠ 0 := by
          rintro rfl
          exact char (tolower_zero same.symm)
        refine Eq.trans ?_ (behind.trans ?_)
        · simp only [bind, Except.bind, List.headD_cons, List.tail_cons, same, ne_eq, not_true_eq_false, if_false, visible]
        · simp [same]
      · simp [bind, Except.bind, same, pure, Except.pure]

theorem value_bind {α β : Type} (a : α) (f : α → Except Exit β) : (Except.ok a >>= f) = f a := rfl

/-- A character looked for is there, with a text behind it, or it is not. -/
theorem looksAt_cases {rest : Bytes} (here : At text p rest) (c : UInt8) :
    looksAt text p c = .ok true ∧ (∃ behind, rest = c :: behind) ∨ looksAt text p c = .ok false ∧ rest.head? ≠ some c := by
  rw [looksAt_spec here]
  by_cases found : rest.head? = some c
  · exact .inl ⟨by rw [decide_eq_true found], List.head?_eq_some_iff.mp found⟩
  · exact .inr ⟨by rw [decide_eq_false found], found⟩

/-- A name is compared as far as it goes, if it is as long as the key. -/
theorem nameMatches_spec {key name later : Bytes} {q r : Nat} (no_nul : 0 ∉ key) (start : At text q name) (stop : At text r later)
    (shorter : later.length < name.length) :
    nameMatches text q r key =
      .ok (decide ((name.take (name.length - later.length - 1)).map tolower = key.map tolower)) := by
  have span : r - q - 1 = name.length - later.length - 1 := by
    have start_le := start.1
    have stop_le := stop.1
    rw [start.length, stop.length]
    omega
  have size : (name.take (name.length - later.length - 1)).length = name.length - later.length - 1 := by
    rw [List.length_take]
    omega
  rw [nameMatches, span]
  by_cases fits : name.length - later.length - 1 = key.length
  · rw [if_pos fits]
    refine @strncasecmp_spec text q key _ (name.drop (name.length - later.length - 1)) no_nul ?_ (size.trans fits)
    rwa [List.take_append_drop]
  · rw [if_neg fits, decide_eq_false]
    · rfl
    · intro same
      have lengths := congrArg List.length same
      rw [List.length_map, List.length_map, size] at lengths
      exact fits lengths

/-- The lookup in memory takes the same member as the lookup on what is left of the text. -/
theorem findMember_spec {key : Bytes} (no_nul : 0 ∉ key) {rounds other : Nat} {sep : UInt8} {rest : Bytes}
    (here : At text p (sep :: rest)) (enough : rest.length < rounds) (plenty : rest.length < other) :
    ∃ found, findMember text key rounds p = .ok found ∧
      Points text found (DescriptorText.findMember key other (sep :: rest)) := by
  induction rounds generalizing p sep rest other with
  | zero => omega
  | succ rounds ih =>
    obtain ⟨other, rfl⟩ : ∃ n, other = n + 1 := ⟨other - 1, by omega⟩
    have space : ∀ rest : Bytes, (DescriptorText.skip_ws rest).length ≤ rest.length := fun rest =>
      List.length_dropWhile_le _ _
    obtain ⟨q, spaced, _, there⟩ := skip_ws_spec here.next here.next.length_le
    have shorter := space rest
    rw [findMember, spaced, value_bind, DescriptorText.findMember, List.drop_succ_cons, List.drop_zero]
    dsimp only
    generalize DescriptorText.skip_ws rest = opening at there shorter
    obtain ⟨opened, name, rfl⟩ | ⟨closed, absent⟩ := looksAt_cases there '"'.toUInt8
    · rw [List.length_cons] at shorter
      rw [opened, value_bind, if_neg (by simp), if_neg (by simp), List.drop_succ_cons, List.drop_zero]
      obtain ⟨found, skipped, points⟩ := json_skip_string_spec there.next there.next.length_le
      rw [skipped, value_bind]
      generalize named_end : DescriptorText.json_skip_string name = behind at points
      cases points with
      | none => exact ⟨none, rfl, .none⟩
      | @some r later ended =>
        have name_shorter := json_skip_string_length named_end
        have later_space := space later
        obtain ⟨colon, spaced, _, between⟩ := skip_ws_spec ended ended.length_le
        dsimp only
        rw [nameMatches_spec no_nul there.next ended name_shorter, value_bind, spaced, value_bind]
        generalize DescriptorText.skip_ws later = separator at between later_space
        obtain ⟨separated, value, rfl⟩ | ⟨joined, absent⟩ := looksAt_cases between ':'.toUInt8
        · rw [List.length_cons] at later_space
          have value_space := space value
          obtain ⟨v, spaced, _, value_at⟩ := skip_ws_spec between.next between.next.length_le
          rw [separated, value_bind, if_neg (by simp), if_neg (by simp), spaced, value_bind, List.drop_succ_cons,
            List.drop_zero]
          generalize DescriptorText.skip_ws value = value at value_at value_space
          simp only [decide_eq_true_eq]
          split
          · exact ⟨some v, rfl, .some value_at⟩
          · obtain ⟨found, skipped, points⟩ := json_skip_value_spec value_at 0 value_at.length_le
            rw [skipped, value_bind, ← skipValue]
            generalize value_end : skipValue 0 value = behind at points
            cases points with
            | none => exact ⟨none, rfl, .none⟩
            | @some w rest_after after_value =>
              have value_shorter : rest_after.length ≤ value.length := skipValue_length value_end
              have after_space := space rest_after
              obtain ⟨comma, spaced, _, next⟩ := skip_ws_spec after_value after_value.length_le
              dsimp only
              rw [spaced, value_bind]
              generalize DescriptorText.skip_ws rest_after = following at next after_space
              obtain ⟨more, members, rfl⟩ | ⟨last, absent⟩ := looksAt_cases next ','.toUInt8
              · rw [List.length_cons] at after_space
                rw [more, value_bind, if_neg (by simp), if_neg (by simp)]
                exact ih next (by omega) (by omega)
              · rw [last, value_bind, if_pos (by simp), if_pos absent]
                exact ⟨none, rfl, .none⟩
        · rw [joined, value_bind, if_pos (by simp), if_pos absent]
          exact ⟨none, rfl, .none⟩
    · rw [closed, value_bind, if_pos (by simp), if_pos absent]
      exact ⟨none, rfl, .none⟩

/-! ### Buffers -/

/-- Writing behind what a buffer holds. -/
theorem put_spec {size : Nat} {front : Bytes} {out : Vector UInt8 size} (holds : front <+: out.toList)
    (fits : front.length < size) (c : UInt8) :
    ∃ later, put out front.length c = .ok later ∧ front ++ [c] <+: later.toList := by
  refine ⟨out.set front.length c fits, dif_pos fits, ?_⟩
  have length : out.toList.length = size := Vector.length_toList
  rw [Vector.toList_set]
  obtain ⟨rest, split⟩ := holds
  rw [← split] at length ⊢
  cases rest with
  | nil =>
    rw [List.append_nil] at length
    omega
  | cons d rest =>
    rw [List.set_append_right _ _ (Nat.le_refl _), Nat.sub_self, List.set_cons_zero]
    exact ⟨rest, by simp⟩

/-- The buffer holds the text with its terminator, or there is no text. -/
inductive Wrote {size : Nat} : Written size → Option Bytes → Prop
  | refused {out : Vector UInt8 size} : Wrote (out, none) none
  | stored {out : Vector UInt8 size} {text : Bytes} (terminated : text ++ [0] <+: out.toList) :
      Wrote (out, some text.length) (some text)

variable {out_len : Nat}

theorem copyString_at {c : UInt8} {rest : Bytes} (here : At text p (c :: rest)) (rounds : Nat) (out : Vector UInt8 out_len)
    (n : Nat) :
    copyString text (rounds + 1) out n p =
      if c = quote then put out n 0 >>= fun out => .ok (out, some n)
      else if c = backslash then
        if p + 1 ≥ text.length then .ok (out, none)
        else charAt text (p + 1) >>= fun e =>
          if e ≠ quote ∧ e ≠ backslash ∧ e ≠ '/'.toUInt8 then .ok (out, none)
          else if n + 1 ≥ out_len then .ok (out, none)
          else put out n e >>= fun out => copyString text rounds out (n + 1) (p + 2)
      else if n + 1 ≥ out_len then .ok (out, none)
      else put out n c >>= fun out => copyString text rounds out (n + 1) (p + 1) := by
  rw [copyString, if_pos here.inside, here.charAt]
  rfl

theorem copyString_spec {rest : Bytes} (here : At text p rest) {front : Bytes}
    {out : Vector UInt8 out_len} (holds : front <+: out.toList) (room : front.length < out_len) {rounds : Nat} (enough : rest.length < rounds) :
    ∃ written, copyString text rounds out front.length p = .ok written ∧
      Wrote written (DescriptorText.copyString out_len front rest) := by
  induction rounds generalizing p rest front out with
  | zero => omega
  | succ rounds ih =>
    cases rest with
    | nil => exact ⟨(out, none), by rw [copyString, if_neg here.outside]; rfl, .refused⟩
    | cons c rest =>
      rw [List.length_cons] at enough
      -- what follows once one more character has been found good
      have store : ∀ {q : Nat} {c : UInt8} {rest : Bytes}, At text q rest → rest.length < rounds →
          ∃ written, (if front.length + 1 ≥ out_len then .ok (out, none)
            else put out front.length c >>= fun out => copyString text rounds out (front.length + 1) q) = .ok written ∧
          Wrote written (if front.length + 1 ≥ out_len then none
            else DescriptorText.copyString out_len (front ++ [c]) rest) := by
        intro q c rest there fewer
        by_cases full : front.length + 1 ≥ out_len
        · rw [if_pos full, if_pos full]
          exact ⟨_, rfl, .refused⟩
        · obtain ⟨later, stored, continued⟩ := put_spec holds room c
          have size : (front ++ [c]).length = front.length + 1 := by simp
          obtain ⟨written, copied, wrote⟩ := ih there continued (by omega) fewer
          rw [size] at copied
          rw [if_neg full, if_neg full, stored, value_bind]
          exact ⟨written, copied, wrote⟩
      rw [copyString_at here]
      by_cases quoted : c = quote
      · subst quoted
        obtain ⟨later, stored, terminated⟩ := put_spec holds room 0
        rw [copyString_quote]
        refine ⟨(later, some front.length), ?_, .stored terminated⟩
        rw [if_pos rfl, stored, value_bind]
      · by_cases escape : c = backslash
        · subst escape
          rw [if_neg quoted, if_pos rfl]
          cases rest with
          | nil =>
            rw [if_pos (Nat.not_lt.mp here.next.outside)]
            exact ⟨_, rfl, .refused⟩
          | cons e rest =>
            rw [List.length_cons] at enough
            rw [if_neg (Nat.not_le.mpr here.next.inside), here.next.charAt, value_bind, copyString_escape]
            split
            · exact ⟨_, rfl, .refused⟩
            · exact store here.next.next (by omega)
        · rw [if_neg quoted, if_neg escape, copyString_char ⟨quoted, escape⟩]
          exact store here.next (by omega)

/-- Whatever the bytes are, the lookup in memory ends, stays inside both the text and the buffer, and
stores what the lookup on the text finds. -/
theorem json_get_string_spec {key json : Bytes} (no_nul : 0 ∉ key) (room : 0 < out_len) (out : Vector UInt8 out_len)
    (here : At text p json) :
    ∃ written, json_get_string text p key out = .ok written ∧
      Wrote written (DescriptorText.json_get_string json key out_len) := by
  obtain ⟨q, spaced, _, there⟩ := skip_ws_spec here here.length_le
  rw [json_get_string, spaced, value_bind, DescriptorText.json_get_string]
  generalize DescriptorText.skip_ws json = opening at there
  obtain ⟨opened, members, rfl⟩ | ⟨closed, absent⟩ := looksAt_cases there '{'.toUInt8
  · have fewer := there.length_le
    rw [List.length_cons] at fewer
    rw [opened, value_bind, if_neg (by simp), if_neg (by simp)]
    obtain ⟨found, looked, points⟩ := @findMember_spec text q key no_nul (text.length + 1)
      (('{'.toUInt8 :: members).length + 1) _ _ there (by omega) (by rw [List.length_cons]; omega)
    rw [looked, value_bind]
    generalize DescriptorText.findMember key (('{'.toUInt8 :: members).length + 1) ('{'.toUInt8 :: members) = value at points
    cases points with
    | none => exact ⟨_, rfl, .refused⟩
    | some value_at =>
      dsimp only
      obtain ⟨string, body, rfl⟩ | ⟨other, absent⟩ := looksAt_cases value_at '"'.toUInt8
      · rw [string, value_bind, if_neg (by simp), if_neg (by simp), List.drop_succ_cons, List.drop_zero]
        exact copyString_spec value_at.next (List.nil_prefix : [] <+: out.toList) room value_at.next.length_le
      · rw [other, value_bind, if_pos (by simp), if_pos absent]
        exact ⟨_, rfl, .refused⟩
  · rw [closed, value_bind, if_pos (by simp), if_pos absent]
    exact ⟨_, rfl, .refused⟩

/-- An object whose label holds a member of the name that is looked for. -/
def nestedText : Bytes := ascii "\x7b\"label\": \x7b\"descriptor\":1\x7d, \"Descriptor\":\"a\\/b\"\x7d"

def nestedMembers : List (Bytes × Bytes) :=
  [(ascii "label", ascii "\x7b\"descriptor\":1\x7d"), (ascii "Descriptor", ascii "\"a\\/b\"")]

theorem plain_body {text : Bytes} (chars : text.all fun c => 32 ≤ c && c != quote && c != backslash) : Body text := by
  induction text with
  | nil => exact .nil
  | cons c text ih =>
    simp only [List.all_cons, Bool.and_eq_true, decide_eq_true_eq, bne_iff_ne] at chars
    exact .char chars.1.1.1 ⟨chars.1.1.2, chars.1.2⟩ (ih (by simpa using chars.2))

theorem nestedObject : Object nestedMembers nestedText := by
  have none : Blank [] := fun _ inside => absurd inside List.not_mem_nil
  have space : Blank [32] := fun c inside => .inl (List.mem_singleton.mp inside)
  have one : Derives .value (ascii "1") := .number ⟨[], ascii "1", [], [], by decide +kernel, .inl rfl,
    ⟨⟨by decide +kernel, by decide +kernel⟩, fun _ => by decide +kernel⟩, .inl rfl, .inl rfl⟩
  have inner : Derives .value (ascii "\x7b\"descriptor\":1\x7d") :=
    .object (.member ⟨none, none, none, none⟩ (@plain_body (ascii "descriptor") (by decide +kernel)) one)
  have string : Derives .value (ascii "\"a\\/b\"") :=
    .string (.char (c := 97) (by decide) (by decide) (.escape (c := 47) (by decide +kernel)
      (.char (c := 98) (by decide) (by decide) .nil)))
  exact ⟨[], _, [], none, none, by decide +kernel, .inr (.members ⟨none, none, space, none⟩
    (@plain_body (ascii "label") (by decide +kernel)) inner
    (.member ⟨space, none, none, none⟩ (@plain_body (ascii "Descriptor") (by decide +kernel)) string))⟩

/-- On any bytes the lookup ends without reading or writing outside; on an object it finds the first
of its own members with that name, if that is a usable string, and stores the string. -/
theorem json_get_string_members {key : Bytes} (no_nul : 0 ∉ key) (room : 0 < out_len) (out : Vector UInt8 out_len)
    (text : Bytes) :
    ∃ written, json_get_string text 0 key out = .ok written ∧
      ∀ members, Object members text →
        (written.2.isSome = true ↔ ∃ result, Lookup members key out_len result) ∧
        ∀ result, Lookup members key out_len result → written.2 = some result.length ∧ result ++ [0] <+: written.1.toList := by
  obtain ⟨written, looked, wrote⟩ := json_get_string_spec no_nul room out (at_start text)
  generalize found : DescriptorText.json_get_string text key out_len = stored at wrote
  refine ⟨written, looked, ?_⟩
  intro members object
  have exact_result := json_get_string_object object key room
  rw [found] at exact_result
  cases wrote with
  | refused =>
    have none_taken : ∀ result, ¬ Lookup members key out_len result := fun result taken => by
      cases (exact_result result).mpr taken
    exact ⟨by simpa using none_taken, fun result taken => absurd taken (none_taken result)⟩
  | @stored buffer text terminated =>
    refine ⟨⟨fun _ => ⟨text, (exact_result text).mp rfl⟩, fun _ => rfl⟩, ?_⟩
    intro result taken
    obtain rfl := Option.some.inj ((exact_result result).mpr taken)
    exact ⟨rfl, terminated⟩

theorem json_get_string_members_nested :
    0 ∉ ascii "descriptor" ∧
      ∃ written, json_get_string nestedText 0 (ascii "descriptor") (Vector.replicate 4 0) = .ok written ∧
        written.2 = some 3 ∧ ascii "a/b" ++ [0] <+: written.1.toList := by
  have no_nul : 0 ∉ ascii "descriptor" := by decide +kernel
  obtain ⟨written, looked, members⟩ := json_get_string_members no_nul (by decide) (Vector.replicate 4 0) nestedText
  have taken : Lookup nestedMembers (ascii "descriptor") 4 (ascii "a/b") :=
    ⟨ascii "Descriptor", ascii "a\\/b", by decide +kernel,
      .char (c := 97) (by decide) (.escape (c := 47) (by decide) (.char (c := 98) (by decide) .nil)), by decide +kernel⟩
  exact ⟨no_nul, written, looked, (members nestedMembers nestedObject).2 _ taken⟩

end PiJade.DescriptorText.Memory
