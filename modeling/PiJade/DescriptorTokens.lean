import PiJade.DescriptorFaithful

/-!
Tokens of a descriptor. Where a key expression ends depends on how its brackets are nested, and
what the walk makes of a descriptor depends on its pieces only. So another text comes to the same
record if it splits into pieces of the same places and every key expression comes to the same
value and child path.
-/
namespace PiJade.DescriptorText
open Text
open SettingsCodec (ascii)
set_option linter.unusedSimpArgs false

/-! ### Where a key expression ends -/

/-- What a character does to the group it is in. -/
def weight (c : UInt8) : Int :=
  if c = '['.toUInt8 ∨ c = '<'.toUInt8 ∨ c = '{'.toUInt8 then 1
  else if c = ']'.toUInt8 ∨ c = '>'.toUInt8 ∨ c = '}'.toUInt8 then -1
  else 0

/-- Brackets that are opened, less those that are closed. -/
def balance : Bytes → Int
  | [] => 0
  | c :: rest => weight c + balance rest

abbrev stops (c : UInt8) : Prop := c = ','.toUInt8 ∨ c = ')'.toUInt8

/-- A key expression goes on through all of a text. -/
def Runs : Int → Bytes → Prop
  | _, [] => True
  | group, c :: rest => ¬ (group = 0 ∧ stops c) ∧ Runs (group + weight c) rest

theorem token_end_cons (group : Int) (c : UInt8) (rest : Bytes) :
    token_end group (c :: rest) =
      if group = 0 ∧ stops c then 0 else token_end (group + weight c) rest + 1 := by
  rw [token_end, weight]
  by_cases opening : c = '['.toUInt8 ∨ c = '<'.toUInt8 ∨ c = '{'.toUInt8
  · have other : ¬ (group = 0 ∧ stops c) := by
      rintro ⟨_, stop⟩
      rcases opening with rfl | rfl | rfl <;> revert stop <;> decide
    rw [if_pos opening, if_pos opening, if_neg other]
  · by_cases closing : c = ']'.toUInt8 ∨ c = '>'.toUInt8 ∨ c = '}'.toUInt8
    · have other : ¬ (group = 0 ∧ stops c) := by
        rintro ⟨_, stop⟩
        rcases closing with rfl | rfl | rfl <;> revert stop <;> decide
      rw [if_neg opening, if_neg opening, if_pos closing, if_pos closing, if_neg other]
      rfl
    · rw [if_neg opening, if_neg opening, if_neg closing, if_neg closing, Int.add_zero]

theorem balance_append (front back : Bytes) : balance (front ++ back) = balance front + balance back := by
  induction front with
  | nil => rw [List.nil_append, balance, Int.zero_add]
  | cons c front ih => rw [List.cons_append, balance, balance, ih, Int.add_assoc]

theorem runs_append {group : Int} {front back : Bytes} :
    Runs group (front ++ back) ↔ Runs group front ∧ Runs (group + balance front) back := by
  induction front generalizing group with
  | nil => simp [Runs, balance]
  | cons c front ih => rw [List.cons_append, Runs, Runs, ih, balance, and_assoc, Int.add_assoc]

theorem token_end_runs {group : Int} {front : Bytes} (runs : Runs group front) (back : Bytes) :
    token_end group (front ++ back) = front.length + token_end (group + balance front) back := by
  induction front generalizing group with
  | nil => simp [balance]
  | cons c front ih =>
    obtain ⟨goes_on, later⟩ := runs
    rw [List.cons_append, token_end_cons, if_neg goes_on, ih later, balance, List.length_cons, Int.add_assoc]
    omega

theorem runs_of_token_end {group : Int} {front back : Bytes} (long : front.length ≤ token_end group (front ++ back)) :
    Runs group front := by
  induction front generalizing group with
  | nil => trivial
  | cons c front ih =>
    rw [List.cons_append, token_end_cons, List.length_cons] at long
    split at long
    · omega
    · exact ⟨by assumption, ih (by omega)⟩

/-- Nothing ends a key expression where there is no comma and no parenthesis. -/
theorem runs_of_none {front : Bytes} (none : ∀ c ∈ front, ¬ stops c) (group : Int) : Runs group front := by
  induction front generalizing group with
  | nil => trivial
  | cons c front ih =>
    exact ⟨fun both => none c List.mem_cons_self both.2, ih (fun d inside => none d (List.mem_cons_of_mem _ inside)) _⟩

theorem token_end_zero {group : Int} {back : Bytes} :
    token_end group back = 0 ↔ ∀ c, back.head? = some c → group = 0 ∧ stops c := by
  cases back with
  | nil => simp [token_end]
  | cons c rest =>
    rw [token_end_cons]
    split
    · rename_i ends
      exact ⟨fun _ d first => by cases first; exact ends, fun _ => rfl⟩
    · rename_i goes_on
      constructor
      · intro zero
        omega
      · intro ends
        exact absurd (ends c rfl) goes_on

/-! ### Pieces -/

def Piece.text : Piece → Bytes
  | .literal c => [c]
  | .key tok => tok

def render (ps : List Piece) : Bytes := ps.flatMap Piece.text

theorem token_end_length (group : Int) (p : Bytes) : token_end group p ≤ p.length := by
  induction p generalizing group with
  | nil => exact Nat.le_refl _
  | cons c rest ih =>
    rw [token_end_cons]
    split
    · exact Nat.zero_le _
    · exact Nat.succ_le_succ (ih _)

/-- A text is read to its end, one piece each round. -/
inductive Splits : UInt8 → Bytes → List Piece → Prop
  | nil {prev : UInt8} : Splits prev [] []
  | literal {prev c : UInt8} {rest : Bytes} {ps : List Piece}
      (other : ¬ ((prev = '('.toUInt8 ∨ prev = ','.toUInt8) ∧ is_key_start (c :: rest) = true)) (later : Splits c rest ps) :
      Splits prev (c :: rest) (.literal c :: ps)
  | key {prev : UInt8} {tok rest : Bytes} {ps : List Piece} (behind : prev = '('.toUInt8 ∨ prev = ','.toUInt8)
      (start : is_key_start (tok ++ rest) = true) (ends : token_end 0 (tok ++ rest) = tok.length) (later : Splits prev rest ps) :
      Splits prev (tok ++ rest) (.key tok :: ps)

theorem splits_pieces {rounds : Nat} {prev : UInt8} {p : Bytes} (enough : p.length ≤ rounds) :
    Splits prev p (pieces rounds prev p) := by
  induction rounds generalizing prev p with
  | zero =>
    rw [List.length_eq_zero_iff.mp (Nat.le_zero.mp enough)]
    exact .nil
  | succ rounds ih =>
    cases p with
    | nil => exact .nil
    | cons c rest =>
      rw [pieces]
      split
      · rename_i start
        have positive := token_end_pos start.2
        have bound := token_end_length 0 (c :: rest)
        have later := @ih prev ((c :: rest).drop (token_end 0 (c :: rest)))
          (by rw [List.length_drop]; omega)
        have whole := List.take_append_drop (token_end 0 (c :: rest)) (c :: rest)
        have step := @Splits.key prev ((c :: rest).take (token_end 0 (c :: rest))) _ _ start.1
          (by rw [whole]; exact start.2) (by rw [whole, List.length_take]; omega) later
        rwa [whole] at step
      · rename_i other
        exact .literal other (ih (Nat.le_of_succ_le_succ enough))

theorem splits_text {prev : UInt8} {p : Bytes} {ps : List Piece} (split : Splits prev p ps) : render ps = p := by
  induction split with
  | nil => rfl
  | literal _ _ ih => rw [render, List.flatMap_cons, ← render, ih, Piece.text, List.singleton_append]
  | key _ _ _ _ ih => rw [render, List.flatMap_cons, ← render, ih, Piece.text]

/-! ### Another text in the same pieces -/

/-- One key expression can stand where another does. -/
structure Fits (tok tok' : Bytes) : Prop where
  opened : tok.head? = some '['.toUInt8
  opened' : tok'.head? = some '['.toUInt8
  ends : ∀ rest rest' : Bytes, rest.head? = rest'.head? → token_end 0 (tok ++ rest) = tok.length →
    token_end 0 (tok' ++ rest') = tok'.length

inductive Replaces : Piece → Piece → Prop
  | literal (c : UInt8) : Replaces (.literal c) (.literal c)
  | key {tok tok' : Bytes} (fits : Fits tok tok') : Replaces (.key tok) (.key tok')

theorem is_key_start_opened {tok : Bytes} (opened : tok.head? = some '['.toUInt8) (rest : Bytes) :
    is_key_start (tok ++ rest) = true := by
  obtain ⟨later, rfl⟩ := List.head?_eq_some_iff.mp opened
  rfl

theorem render_head {ps ps' : List Piece} (replaces : List.Forall₂ Replaces ps ps') :
    (render ps).head? = (render ps').head? := by
  cases replaces with
  | nil => rfl
  | cons first _ =>
    cases first with
    | literal c => rfl
    | key fits =>
      obtain ⟨later, rfl⟩ := List.head?_eq_some_iff.mp fits.opened
      obtain ⟨later', rfl⟩ := List.head?_eq_some_iff.mp fits.opened'
      rfl

/-- A word without a bracket is in front of both texts or of neither. -/
theorem render_word {ps ps' : List Piece} (replaces : List.Forall₂ Replaces ps ps') {word : Bytes}
    (plain : '['.toUInt8 ∉ word) : word <+: render ps' → word <+: render ps := by
  induction replaces generalizing word with
  | nil => exact id
  | cons first _ ih =>
    cases word with
    | nil => exact fun _ => List.nil_prefix
    | cons w word =>
      intro starts
      cases first with
      | literal c =>
        obtain ⟨rfl, later⟩ := List.cons_prefix_cons.mp starts
        exact List.cons_prefix_cons.mpr ⟨rfl, ih (fun inside => plain (List.mem_cons_of_mem _ inside)) later⟩
      | key fits =>
        obtain ⟨later', rfl⟩ := List.head?_eq_some_iff.mp fits.opened'
        obtain ⟨rfl, _⟩ := List.cons_prefix_cons.mp starts
        exact absurd List.mem_cons_self plain

theorem is_key_start_iff {p : Bytes} : is_key_start p = true ↔
    p.head? = some '['.toUInt8 ∨ ascii "xpub" <+: p ∨ ascii "tpub" <+: p := by
  have four : ∀ word : Bytes, word.length = 4 → (p.take 4 = word ↔ word <+: p) := fun word size => by
    rw [List.prefix_iff_eq_take, size, eq_comm]
  simp only [is_key_start, Bool.or_eq_true, decide_eq_true_eq, or_assoc]
  rw [four _ (by decide +kernel), four _ (by decide +kernel)]

theorem Replaces.splits {prev : UInt8} {p : Bytes} {ps ps' : List Piece} (split : Splits prev p ps)
    (replaces : List.Forall₂ Replaces ps ps') : Splits prev (render ps') ps' := by
  induction split generalizing ps' with
  | nil =>
    cases replaces
    exact .nil
  | @literal prev c rest ps other later ih =>
    cases replaces with
    | @cons _ _ _ ps' first others =>
      cases first
      refine .literal ?_ (ih others)
      rintro ⟨behind, start⟩
      refine other ⟨behind, ?_⟩
      rw [is_key_start_iff] at start ⊢
      have same : ∀ word : Bytes, '['.toUInt8 ∉ word → word <+: c :: render ps' → word <+: c :: rest := by
        intro word plain starts
        have whole := render_word (.cons (.literal c) others) plain starts
        rwa [render, List.flatMap_cons, ← render, splits_text later] at whole
      rcases start with opened | xpub | tpub
      · exact .inl opened
      · exact .inr (.inl (same _ (by decide +kernel) xpub))
      · exact .inr (.inr (same _ (by decide +kernel) tpub))
  | @key prev tok rest ps behind start ends later ih =>
    cases replaces with
    | @cons _ _ _ ps' first others =>
      cases first with
      | key fits =>
        have heads : rest.head? = (render ps').head? := by rw [← splits_text later, render_head others]
        exact .key behind (is_key_start_opened fits.opened' _) (fits.ends _ _ heads ends) (ih others)

/-! ### The walk over pieces -/

/-- One round of the walk. -/
def Walk.piece (state : Walk) : Piece → Check Stop Walk
  | .literal c =>
    if state.script.length + 1 ≥ MAX_DESCRIPTOR_SCRIPT_LEN then refuse ERR_TOO_LARGE
    else .ok { state with prev := c, script := state.script ++ [c] }
  | .key tok => canonical_key tok VALUE_LEN 32 >>= fun found => state.key found.1 found.2

theorem Walk.key_prev {state after : Walk} {value child : Bytes} (ran : state.key value child = .ok after) :
    after.prev = state.prev := by
  rw [Walk.key] at ran
  dsimp only at ran
  split at ran
  · cases ran
  · split at ran
    · cases ran
    · cases ran
      rfl

theorem walk_pieces {prev : UInt8} {p : Bytes} {ps : List Piece} (split : Splits prev p ps) {state : Walk}
    (same_prev : state.prev = prev) {rounds : Nat} (enough : p.length ≤ rounds) :
    walk rounds state p = ps.foldlM Walk.piece state := by
  induction split generalizing state rounds with
  | nil => cases rounds <;> rfl
  | literal other _ ih =>
    rw [List.length_cons] at enough
    obtain ⟨rounds, rfl⟩ : ∃ n, rounds = n + 1 := ⟨rounds - 1, by omega⟩
    rw [walk, same_prev, if_neg other, List.foldlM_cons, Walk.piece]
    split
    · rfl
    · exact ih rfl (by omega)
  | @key prev tok rest ps behind start ends later ih =>
    have positive := token_end_pos start
    rw [ends] at positive
    rw [List.length_append] at enough
    obtain ⟨rounds, rfl⟩ : ∃ n, rounds = n + 1 := ⟨rounds - 1, by omega⟩
    obtain ⟨c, chars, rfl⟩ := List.exists_cons_of_length_pos positive
    rw [List.cons_append, walk, same_prev, if_pos ⟨behind, start⟩, ← List.cons_append, ends]
    dsimp only
    rw [List.take_left, List.drop_left, List.foldlM_cons, Walk.piece]
    cases canonical_key (c :: chars) VALUE_LEN 32 with
    | error stop => rfl
    | ok found =>
      cases ran : state.key found.1 found.2 with
      | error stop =>
        rw [Check.ok_bind, Check.ok_bind, ran]
        rfl
      | ok after =>
        rw [Check.ok_bind, Check.ok_bind, ran, Check.ok_bind, Check.ok_bind]
        exact ih ((Walk.key_prev ran).trans same_prev) (by omega)

/-- Key expressions that come to the same value and child path. -/
inductive Agrees : Piece → Piece → Prop
  | literal (c : UInt8) : Agrees (.literal c) (.literal c)
  | key {tok tok' : Bytes}
      (same : ∀ found, canonical_key tok VALUE_LEN 32 = .ok found → canonical_key tok' VALUE_LEN 32 = .ok found) :
      Agrees (.key tok) (.key tok')

theorem agrees_walk {ps ps' : List Piece} (agrees : List.Forall₂ Agrees ps ps') {state after : Walk}
    (ran : ps.foldlM Walk.piece state = .ok after) : ps'.foldlM Walk.piece state = .ok after := by
  induction agrees generalizing state with
  | nil => exact ran
  | @cons piece piece' _ _ first _ ih =>
    rw [List.foldlM_cons] at ran ⊢
    obtain ⟨middle, stepped, later⟩ := Check.bind_eq_ok.mp ran
    have same : state.piece piece' = .ok middle := by
      cases first with
      | literal c => exact stepped
      | key same =>
        obtain ⟨found, accepted, keyed⟩ := Check.bind_eq_ok.mp stepped
        rw [Walk.piece, same found accepted, Check.ok_bind, keyed]
    rw [same, Check.ok_bind, ih later]

end PiJade.DescriptorText
