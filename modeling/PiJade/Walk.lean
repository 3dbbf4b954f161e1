import PiJade.Bytes
import PiJade.Process

/-!
Readers that walk a buffer with a pointer. A read behind the end of the buffer is a fault of
its own, so that it can be shown not to happen. A reader is described three ways: it reads a
value back from its code (`Decodes`), what it reads is a code of the value (`Exact`), and it
needs so many bytes of the buffer at most (`Within`).
-/
namespace PiJade

/-- Why a reader returns no value. -/
inductive Fault where
  | overread
  | refused
  deriving DecidableEq, Repr

/-- Reads a buffer from a position on, and returns the position behind what it read. -/
def Walk (α : Type) := Bytes → Nat → Check Fault (α × Nat)

namespace Walk
variable {α β : Type}

instance instMonad : Monad Walk where
  pure a := fun _ pos => .ok (a, pos)
  bind walk next := fun buffer pos => walk buffer pos >>= fun read => next read.1 buffer read.2

/-- So many bytes. -/
def take (len : Nat) : Walk Bytes := fun buffer pos =>
  if pos + len ≤ buffer.length then .ok ((buffer.drop pos).take len, pos + len) else .error (.error .overread)

def byte : Walk UInt8 := fun buffer pos =>
  match buffer[pos]? with
  | some value => .ok (value, pos + 1)
  | none => .error (.error .overread)

/-- Goes on only where a check holds. -/
def accept (holds : Bool) : Walk Unit := fun _ pos => if holds then .ok ((), pos) else .error (.error .refused)

/-- So many bytes, if they stand before the end of the data. -/
def takeBefore (fin len : Nat) : Walk Bytes := fun buffer pos =>
  if fin < pos + len then .error (.error .refused) else take len buffer pos

/-- One byte, if it stands before the end of the data. -/
def byteBefore (fin : Nat) : Walk UInt8 := fun buffer pos =>
  if fin < pos + 1 then .error (.error .refused) else byte buffer pos

/-- Asserts that data is left. -/
def ensureLeft (fin : Nat) : Walk Unit := fun _ pos => if pos < fin then .ok ((), pos) else .error .abort

/-- Goes on only at the end of the data. -/
def ends (fin : Nat) : Walk Unit := fun _ pos => if pos = fin then .ok ((), pos) else .error (.error .refused)

/-- Code that reads nothing. -/
def lift (c : Check Fault α) : Walk α := fun _ pos => c >>= fun a => .ok (a, pos)

/-- A count of 16 bits. -/
def half : Walk Nat := do
  let bytes ← take 2
  pure (Bytes.toHalf bytes)

def halfBefore (fin : Nat) : Walk Nat := do
  let bytes ← takeBefore fin 2
  pure (Bytes.toHalf bytes)

/-- One reader for each index, from `i` on. -/
def times (reader : Nat → Walk α) : Nat → Nat → Walk (List α)
  | _, 0 => pure []
  | i, n + 1 => do
    let a ← reader i
    let later ← times reader (i + 1) n
    pure (a :: later)

theorem pure_apply (a : α) (buffer : Bytes) (pos : Nat) : (pure a : Walk α) buffer pos = .ok (a, pos) := rfl

theorem bind_apply (walk : Walk α) (next : α → Walk β) (buffer : Bytes) (pos : Nat) :
    (walk >>= next) buffer pos = (walk buffer pos >>= fun read => next read.1 buffer read.2) := rfl

theorem bind_eq_ok {walk : Walk α} {next : α → Walk β} {buffer : Bytes} {pos : Nat} {b : β} {fin : Nat} :
    (walk >>= next) buffer pos = .ok (b, fin) ↔
      ∃ a after, walk buffer pos = .ok (a, after) ∧ next a buffer after = .ok (b, fin) := by
  rw [bind_apply, Check.bind_eq_ok]
  constructor
  · rintro ⟨⟨a, after⟩, one, two⟩
    exact ⟨a, after, one, two⟩
  · rintro ⟨a, after, one, two⟩
    exact ⟨(a, after), one, two⟩

/-! ### Reading a code -/

/-- From the code of the value, wherever it stands before the end of the data, the value is read. -/
def Decodes (fin : Nat) (walk : Walk α) (code : Bytes) (a : α) : Prop :=
  ∀ front rest, front.length + code.length ≤ fin →
    walk (front ++ (code ++ rest)) front.length = .ok (a, front.length + code.length)

section
variable {fin : Nat}

theorem decodes_pure (a : α) : Decodes fin (pure a) [] a := fun _ _ _ => rfl

theorem Decodes.bind {walk : Walk α} {next : α → Walk β} {code later : Bytes} {a : α} {b : β}
    (first : Decodes fin walk code a) (second : Decodes fin (next a) later b) :
    Decodes fin (walk >>= next) (code ++ later) b := by
  intro front rest room
  rw [List.length_append] at room
  have one := first front (later ++ rest) (by omega)
  have two := second (front ++ code) rest (by rw [List.length_append]; omega)
  rw [List.append_assoc, List.length_append] at two
  rw [bind_apply, List.append_assoc, one]
  simpa [Nat.add_assoc] using two

theorem decodes_take (code : Bytes) : Decodes fin (take code.length) code code := by
  intro front rest _
  rw [take, if_pos (by simp)]
  simp

theorem decodes_byte (value : UInt8) : Decodes fin byte [value] value := by
  intro front rest _
  simp [byte]

theorem decodes_takeBefore (code : Bytes) : Decodes fin (takeBefore fin code.length) code code := by
  intro front rest room
  rw [takeBefore, if_neg (by omega)]
  exact decodes_take code front rest room

theorem decodes_byteBefore (value : UInt8) : Decodes fin (byteBefore fin) [value] value := by
  intro front rest room
  rw [List.length_singleton] at room
  rw [byteBefore, if_neg (by omega)]
  exact decodes_byte value front rest room

theorem Decodes.map {walk : Walk α} {code : Bytes} {a : α} (known : Decodes fin walk code a) (f : α → β) :
    Decodes fin (walk >>= fun a => pure (f a)) code (f a) := by
  rw [← List.append_nil code]
  exact known.bind (decodes_pure (f a))

theorem decodes_half {count : Nat} (fits : count < 65536) : Decodes fin half (Bytes.ofHalf count) count := by
  have read : Decodes fin half (Bytes.ofHalf count) (Bytes.toHalf (Bytes.ofHalf count)) :=
    (decodes_take (Bytes.ofHalf count)).map Bytes.toHalf
  rwa [show Bytes.toHalf (Bytes.ofHalf count) = count from Bytes.join_split16 fits] at read

theorem decodes_halfBefore {count : Nat} (fits : count < 65536) :
    Decodes fin (halfBefore fin) (Bytes.ofHalf count) count := by
  have read : Decodes fin (halfBefore fin) (Bytes.ofHalf count) (Bytes.toHalf (Bytes.ofHalf count)) :=
    (decodes_takeBefore (Bytes.ofHalf count)).map Bytes.toHalf
  rwa [show Bytes.toHalf (Bytes.ofHalf count) = count from Bytes.join_split16 fits] at read

theorem Decodes.accept_bind {holds : Bool} {walk : Walk α} {code : Bytes} {a : α} (valid : holds = true)
    (later : Decodes fin walk code a) : Decodes fin (accept holds >>= fun _ => walk) code a := by
  subst valid
  exact later

theorem Decodes.lift_bind {c : Check Fault α} {value : α} {next : α → Walk β} {code : Bytes} {b : β}
    (computed : c = .ok value) (later : Decodes fin (next value) code b) :
    Decodes fin (lift c >>= next) code b := by
  subst computed
  exact later

theorem Decodes.ensureLeft_bind {walk : Walk α} {code : Bytes} {a : α} (left : code ≠ [])
    (later : Decodes fin walk code a) : Decodes fin (ensureLeft fin >>= fun _ => walk) code a := by
  intro front rest room
  have positive := List.length_pos_of_ne_nil left
  rw [bind_apply, ensureLeft, if_pos (by omega)]
  exact later front rest room

theorem decodes_times {reader : Nat → Walk α} {encode : α → Bytes} :
    ∀ (values : List α) (i : Nat), (∀ j a, values[j]? = some a → Decodes fin (reader (i + j)) (encode a) a) →
      Decodes fin (times reader i values.length) (values.flatMap encode) values := by
  intro values
  induction values with
  | nil =>
    intro i _
    exact decodes_pure []
  | cons a later ih =>
    intro i each
    have first : Decodes fin (reader i) (encode a) a := each 0 a rfl
    have others := ih (i + 1) fun j b at_j => by
      have shifted := each (j + 1) b at_j
      rwa [show i + (j + 1) = i + 1 + j by omega] at shifted
    rw [List.flatMap_cons]
    exact first.bind (others.map fun later => a :: later)

/-- Read to the end of the data. -/
theorem Decodes.all {walk : Walk α} {code rest : Bytes} {a : α} (decodes : Decodes code.length walk code a) :
    (walk >>= fun b => ends code.length >>= fun _ => pure b) (code ++ rest) 0 = .ok (a, code.length) := by
  have read := decodes [] rest (by simp)
  simp only [List.nil_append, List.length_nil, Nat.zero_add] at read
  rw [bind_apply, read]
  simp [bind_apply, ends, pure_apply]

end

/-! ### What was read -/

/-- A value that was read stands in the buffer as one of its codes. -/
def Exact (walk : Walk α) (Code : α → Bytes → Prop) : Prop :=
  ∀ buffer pos a after, walk buffer pos = .ok (a, after) →
    ∃ code rest, buffer.drop pos = code ++ rest ∧ Code a code ∧ after = pos + code.length

theorem exact_pure (a : α) : Exact (pure a) fun b code => b = a ∧ code = [] := by
  intro buffer pos b after read
  cases read
  exact ⟨[], buffer.drop pos, rfl, ⟨rfl, rfl⟩, rfl⟩

theorem Exact.mono {walk : Walk α} {Code Other : α → Bytes → Prop} (known : Exact walk Code)
    (weaker : ∀ a code, Code a code → Other a code) : Exact walk Other := by
  intro buffer pos a after read
  obtain ⟨code, rest, split, coded, moved⟩ := known buffer pos a after read
  exact ⟨code, rest, split, weaker a code coded, moved⟩

theorem Exact.bind {walk : Walk α} {next : α → Walk β} {Code : α → Bytes → Prop} {Later : α → β → Bytes → Prop}
    (first : Exact walk Code) (second : ∀ a code, Code a code → Exact (next a) (Later a)) :
    Exact (walk >>= next) fun b whole => ∃ a code later, Code a code ∧ Later a b later ∧ whole = code ++ later := by
  intro buffer pos b fin read
  obtain ⟨a, after, one, two⟩ := bind_eq_ok.mp read
  obtain ⟨code, rest, split, coded, rfl⟩ := first buffer pos a after one
  obtain ⟨later, tail, splitLater, codedLater, rfl⟩ := second a code coded buffer _ b fin two
  have rest_eq : buffer.drop (pos + code.length) = rest := by
    rw [← List.drop_drop, split, List.drop_left]
  refine ⟨code ++ later, tail, ?_, ⟨a, code, later, coded, codedLater, rfl⟩, ?_⟩
  · rw [split, ← rest_eq, splitLater, List.append_assoc]
  · rw [List.length_append]
    omega

theorem exact_take (len : Nat) : Exact (take len) fun a code => a = code ∧ code.length = len := by
  intro buffer pos a after read
  rw [take] at read
  split at read
  case isTrue room =>
    cases read
    have size : ((buffer.drop pos).take len).length = len := by simp; omega
    exact ⟨(buffer.drop pos).take len, (buffer.drop pos).drop len, by rw [List.take_append_drop], ⟨rfl, size⟩, by rw [size]⟩
  case isFalse => cases read

theorem exact_byte : Exact byte fun a code => code = [a] := by
  intro buffer pos a after read
  rw [byte] at read
  split at read
  case h_1 value at_pos =>
    cases read
    obtain ⟨inside, value_eq⟩ := List.getElem?_eq_some_iff.mp at_pos
    exact ⟨[a], buffer.drop (pos + 1), by rw [List.drop_eq_getElem_cons inside, value_eq]; rfl, rfl, rfl⟩
  case h_2 => cases read

theorem exact_takeBefore (fin len : Nat) : Exact (takeBefore fin len) fun a code => a = code ∧ code.length = len := by
  intro buffer pos a after read
  rw [takeBefore] at read
  split at read
  case isTrue => cases read
  case isFalse => exact exact_take len buffer pos a after read

theorem exact_byteBefore (fin : Nat) : Exact (byteBefore fin) fun a code => code = [a] := by
  intro buffer pos a after read
  rw [byteBefore] at read
  split at read
  case isTrue => cases read
  case isFalse => exact exact_byte buffer pos a after read

theorem exact_half : Exact half fun count code => code = Bytes.ofHalf count := by
  apply ((exact_take 2).bind fun bytes _ _ => exact_pure (Bytes.toHalf bytes)).mono
  rintro count code ⟨bytes, _, _, ⟨rfl, size⟩, ⟨rfl, rfl⟩, rfl⟩
  rw [List.append_nil, Bytes.ofHalf_toHalf size]

theorem exact_halfBefore (fin : Nat) : Exact (halfBefore fin) fun count code => code = Bytes.ofHalf count := by
  apply ((exact_takeBefore fin 2).bind fun bytes _ _ => exact_pure (Bytes.toHalf bytes)).mono
  rintro count code ⟨bytes, _, _, ⟨rfl, size⟩, ⟨rfl, rfl⟩, rfl⟩
  rw [List.append_nil, Bytes.ofHalf_toHalf size]

theorem exact_accept (holds : Bool) : Exact (accept holds) fun _ code => holds = true ∧ code = [] := by
  intro buffer pos a after read
  rw [accept] at read
  split at read
  case isTrue valid =>
    cases read
    exact ⟨[], buffer.drop pos, rfl, ⟨valid, rfl⟩, rfl⟩
  case isFalse => cases read

theorem exact_lift (c : Check Fault α) : Exact (lift c) fun a code => c = .ok a ∧ code = [] := by
  intro buffer pos a after read
  obtain ⟨value, computed, moved⟩ := Check.bind_eq_ok.mp read
  cases moved
  exact ⟨[], buffer.drop pos, rfl, ⟨computed, rfl⟩, rfl⟩

theorem exact_ensureLeft (fin : Nat) : Exact (ensureLeft fin) fun _ code => code = [] := by
  intro buffer pos a after read
  rw [ensureLeft] at read
  split at read
  case isTrue =>
    cases read
    exact ⟨[], buffer.drop pos, rfl, rfl, rfl⟩
  case isFalse => cases read

/-- One code for each value, in order. -/
def Codes (Code : Nat → α → Bytes → Prop) : Nat → List α → Bytes → Prop
  | _, [], code => code = []
  | i, a :: later, code => ∃ one others, Code i a one ∧ Codes Code (i + 1) later others ∧ code = one ++ others

theorem exact_times {reader : Nat → Walk α} {Code : Nat → α → Bytes → Prop} (each : ∀ i, Exact (reader i) (Code i)) :
    ∀ n i, Exact (times reader i n) fun values code => values.length = n ∧ Codes Code i values code := by
  intro n
  induction n with
  | zero =>
    intro i
    apply (exact_pure []).mono
    rintro values code ⟨rfl, rfl⟩
    exact ⟨rfl, rfl⟩
  | succ n ih =>
    intro i
    apply ((each i).bind fun a _ _ => (ih (i + 1)).bind fun later _ _ => exact_pure (a :: later)).mono
    rintro values code ⟨a, one, _, coded, ⟨later, others, _, ⟨size, codes⟩, ⟨rfl, rfl⟩, rfl⟩, rfl⟩
    rw [List.append_nil]
    exact ⟨by rw [List.length_cons, size], one, others, coded, codes, rfl⟩

/-- The data up to its end is a code of the value. -/
theorem Exact.all {walk : Walk α} {Code : α → Bytes → Prop} (known : Exact walk Code) {buffer : Bytes} {fin after : Nat}
    {a : α} (read : (walk >>= fun b => ends fin >>= fun _ => pure b) buffer 0 = .ok (a, after)) :
    Code a (buffer.take fin) := by
  obtain ⟨b, mid, walked, ended⟩ := bind_eq_ok.mp read
  obtain ⟨_, last, at_end, done⟩ := bind_eq_ok.mp ended
  obtain ⟨code, rest, split, coded, moved⟩ := known buffer 0 b mid walked
  rw [ends] at at_end
  split at at_end
  case isTrue exactly =>
    cases at_end
    cases done
    rw [List.drop_zero] at split
    rw [Nat.zero_add] at moved
    rwa [split, ← exactly, moved, List.take_left]
  case isFalse => cases at_end

/-! ### How far it reads -/

/-- So many bytes behind the position are enough: none behind them is read. -/
def Within (walk : Walk α) (len : Nat) : Prop :=
  ∀ buffer pos, pos + len ≤ buffer.length →
    Check.After (walk buffer pos) (fun read => read.2 ≤ pos + len) fun h => h ≠ .error .overread

theorem within_pure (a : α) : Within (pure a) 0 := by
  intro buffer pos _
  rw [pure_apply]
  exact Nat.le_refl pos

theorem Within.bind {walk : Walk α} {next : α → Walk β} {Code : α → Bytes → Prop} {first later : Nat}
    (one : Within walk first) (known : Exact walk Code) (two : ∀ a code, Code a code → Within (next a) later) :
    Within (walk >>= next) (first + later) := by
  intro buffer pos room
  have here := one buffer pos (by omega)
  rw [bind_apply]
  cases walked : walk buffer pos with
  | error h =>
    rw [walked] at here
    exact here
  | ok read =>
    obtain ⟨a, after⟩ := read
    rw [walked] at here
    replace here : after ≤ pos + first := here
    obtain ⟨code, rest, split, coded, moved⟩ := known buffer pos a after walked
    have there := two a code coded buffer after (by omega)
    simp only [Check.ok_bind]
    cases second : next a buffer after with
    | error h =>
      rw [second] at there
      exact there
    | ok read =>
      rw [second] at there
      replace there : read.2 ≤ after + later := there
      show read.2 ≤ pos + (first + later)
      omega

theorem Within.mono {walk : Walk α} {len more : Nat} (enough : Within walk len) (le : len ≤ more) : Within walk more := by
  intro buffer pos room
  have here := enough buffer pos (by omega)
  cases walked : walk buffer pos with
  | error h =>
    rw [walked] at here
    exact here
  | ok read =>
    rw [walked] at here
    replace here : read.2 ≤ pos + len := here
    show read.2 ≤ pos + more
    omega

theorem within_take (len : Nat) : Within (take len) len := by
  intro buffer pos room
  rw [take, if_pos room]

theorem within_byte : Within byte 1 := by
  intro buffer pos room
  rw [byte, List.getElem?_eq_getElem (by omega)]

theorem within_takeBefore (fin len : Nat) : Within (takeBefore fin len) len := by
  intro buffer pos room
  rw [takeBefore]
  split
  case isTrue => simp
  case isFalse => exact within_take len buffer pos room

theorem within_byteBefore (fin : Nat) : Within (byteBefore fin) 1 := by
  intro buffer pos room
  rw [byteBefore]
  split
  case isTrue => simp
  case isFalse => exact within_byte buffer pos room

theorem within_half : Within half 2 :=
  (within_take 2).bind (exact_take 2) fun bytes _ _ => within_pure (Bytes.toHalf bytes)

theorem within_halfBefore (fin : Nat) : Within (halfBefore fin) 2 :=
  (within_takeBefore fin 2).bind (exact_takeBefore fin 2) fun bytes _ _ => within_pure (Bytes.toHalf bytes)

theorem within_accept (holds : Bool) : Within (accept holds) 0 := by
  intro buffer pos _
  cases holds with
  | true => simp [accept]
  | false => simp [accept]

theorem Within.accept_bind {holds : Bool} {walk : Walk α} {len : Nat} (later : holds = true → Within walk len) :
    Within (accept holds >>= fun _ => walk) len := by
  rw [← Nat.zero_add len]
  exact (within_accept holds).bind (exact_accept holds) fun _ _ valid => later valid.1

theorem within_ensureLeft (fin : Nat) : Within (ensureLeft fin) 0 := by
  intro buffer pos _
  by_cases left : pos < fin
  · simp [ensureLeft, left]
  · simp [ensureLeft, left]

theorem within_lift {c : Check Fault α} (reads_nothing : c ≠ .error (.error .overread)) : Within (lift c) 0 := by
  intro buffer pos _
  cases c with
  | ok a => exact Nat.le_refl _
  | error h =>
    rintro rfl
    exact reads_nothing rfl

theorem within_times {reader : Nat → Walk α} {Code : Nat → α → Bytes → Prop} {len : Nat}
    (each : ∀ i, Within (reader i) len) (known : ∀ i, Exact (reader i) (Code i)) :
    ∀ n i, Within (times reader i n) (n * len) := by
  intro n
  induction n with
  | zero =>
    intro i
    rw [Nat.zero_mul]
    exact within_pure []
  | succ n ih =>
    intro i
    apply ((each i).bind (known i) fun a _ _ =>
      (ih (i + 1)).bind (exact_times known n (i + 1)) fun later _ _ => within_pure (a :: later)).mono
    rw [Nat.succ_mul]
    omega

end Walk
end PiJade
