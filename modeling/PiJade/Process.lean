import Mathlib.Tactic.Common

/-!
Code that can halt. A `Check` computes a value or halts: an assertion failed, the code
waits for an input that never comes, or it replies with an error. A `Proc` does so over
a state, which it leaves behind however it ends. Loops are `fold` and `mapAll`; each
comes with the rule that turns what one round does into what the whole loop does, and
`wp` says what holds after a process for every way it can end.
-/
namespace PiJade

/-- How code ends when it gives no value. -/
inductive Halt (ε : Type) where
  | abort
  | waiting
  | error (e : ε)
  deriving DecidableEq, Repr

/-- Code without effects that can halt. -/
abbrev Check (ε α : Type) := Except (Halt ε) α

namespace Check
variable {ε α β σ : Type}

/-- An assertion: code goes on only where it holds. -/
def ensure (holds : Bool) : Check ε Unit := if holds then .ok () else .error .abort

@[simp] theorem ensure_true : (ensure true : Check ε Unit) = .ok () := rfl
@[simp] theorem ensure_false : (ensure false : Check ε Unit) = .error .abort := rfl

@[simp] theorem ok_bind (a : α) (f : α → Check ε β) : ((.ok a : Check ε α) >>= f) = f a := rfl
@[simp] theorem error_bind (h : Halt ε) (f : α → Check ε β) : ((.error h : Check ε α) >>= f) = .error h := rfl
@[simp] theorem pure_eq (a : α) : (pure a : Check ε α) = .ok a := rfl

theorem bind_eq_ok {c : Check ε α} {f : α → Check ε β} {b : β} :
    (c >>= f) = .ok b ↔ ∃ a, c = .ok a ∧ f a = .ok b := by
  cases c <;> simp

theorem bind_stops_iff {c : Check ε α} {f : α → Check ε β} :
    (∃ halt, (c >>= f) = .error halt) ↔ (∃ halt, c = .error halt) ∨ ∃ a, c = .ok a ∧ ∃ halt, f a = .error halt := by
  cases c <;> simp

/-- What holds after code: `post` of its value, or `halts` of how it halted. -/
abbrev After (c : Check ε α) (post : α → Prop) (halts : Halt ε → Prop) : Prop :=
  match c with
  | .ok a => post a
  | .error h => halts h

/-- A loop that carries a state. -/
def fold (round : σ → α → Check ε σ) : σ → List α → Check ε σ
  | s, [] => .ok s
  | s, a :: rest => round s a >>= fun s' => fold round s' rest

/-- A loop that computes one result for each element. -/
def mapAll (f : α → Check ε β) : List α → Check ε (List β)
  | [] => .ok []
  | a :: rest => do
    let b ← f a
    let bs ← mapAll f rest
    pure (b :: bs)

/-- A loop of at most so many rounds, left where its condition fails. -/
def loop (cond : σ → Bool) (round : σ → Check ε σ) : Nat → σ → Check ε σ
  | 0, s => .ok s
  | left + 1, s => if cond s then round s >>= fun s' => loop cond round left s' else .ok s

/-- If rounds keep the invariant and are counted, the loop ends with the invariant, and either
    its condition fails or it took all its rounds. -/
theorem loop_spec {cond : σ → Bool} {round : σ → Check ε σ} {Inv : σ → Prop} (count : σ → Nat)
    (keeps : ∀ s, Inv s → cond s = true → ∃ s', round s = .ok s' ∧ Inv s' ∧ count s' = count s + 1) :
    ∀ (left : Nat) (s : σ), Inv s →
      ∃ s', loop cond round left s = .ok s' ∧ Inv s' ∧ count s' ≤ count s + left ∧
        (cond s' = false ∨ count s' = count s + left) := by
  intro left
  induction left with
  | zero =>
    intro s inv
    exact ⟨s, rfl, inv, Nat.le_refl _, .inr rfl⟩
  | succ left ih =>
    intro s inv
    rw [loop]
    cases going : cond s with
    | false => exact ⟨s, rfl, inv, Nat.le_add_right _ _, .inl going⟩
    | true =>
      obtain ⟨mid, once, kept, counted⟩ := keeps s inv going
      obtain ⟨s', rest, inv', most, ended⟩ := ih mid kept
      refine ⟨s', by rw [if_pos rfl, once, ok_bind, rest], inv', by omega, ended.imp_right ?_⟩
      omega

/-- If every round takes the invariant of the elements before it to that of the
    elements up to it, or halts as described, the loop ends with the invariant of all
    elements or halts as described at one of them. -/
theorem fold_spec {round : σ → α → Check ε σ} {Inv : List α → σ → Prop} {Halts : List α → α → Halt ε → Prop}
    (keeps : ∀ front a s, Inv front s → After (round s a) (Inv (front ++ [a])) (Halts front a)) :
    ∀ (rest front : List α) (s : σ), Inv front s →
      After (fold round s rest) (Inv (front ++ rest))
        fun h => ∃ mid a later, rest = mid ++ a :: later ∧ Halts (front ++ mid) a h := by
  intro rest
  induction rest with
  | nil =>
    intro front s inv
    simpa [fold] using inv
  | cons a rest ih =>
    intro front s inv
    have one := keeps front a s inv
    simp only [fold]
    cases first : round s a with
    | error h =>
      rw [first] at one
      exact ⟨[], a, rest, rfl, by simpa using one⟩
    | ok s' =>
      rw [first] at one
      have later := ih (front ++ [a]) s' one
      simp only [ok_bind]
      cases whole : fold round s' rest with
      | ok t =>
        rw [whole] at later
        simpa using later
      | error h =>
        rw [whole] at later
        obtain ⟨mid, b, tail, split, halts⟩ := later
        exact ⟨a :: mid, b, tail, by rw [split]; rfl, by simpa using halts⟩

/-- A computed list has one result for each element, in order. -/
theorem mapAll_ok {f : α → Check ε β} {l : List α} {bs : List β} (done : mapAll f l = .ok bs) :
    l.length = bs.length ∧ ∀ (i : Nat) (a : α), l[i]? = some a → ∃ b, bs[i]? = some b ∧ f a = .ok b := by
  induction l generalizing bs with
  | nil =>
    cases done
    exact ⟨rfl, fun i a at_i => by simp at at_i⟩
  | cons x rest ih =>
    simp only [mapAll, bind_eq_ok, pure_eq, Except.ok.injEq] at done
    obtain ⟨b, first, bs', later, rfl⟩ := done
    obtain ⟨len, each⟩ := ih later
    refine ⟨by simp [len], ?_⟩
    intro i a at_i
    cases i with
    | zero =>
      cases at_i
      exact ⟨b, rfl, first⟩
    | succ i => exact each i a at_i

/-- If no round halts, neither does the loop. -/
theorem mapAll_map {f : α → Check ε β} {g : α → β} {l : List α} (each : ∀ a ∈ l, f a = .ok (g a)) :
    mapAll f l = .ok (l.map g) := by
  induction l with
  | nil => rfl
  | cons a rest ih =>
    rw [mapAll, each a List.mem_cons_self, ok_bind, ih fun b inside => each b (List.mem_cons_of_mem _ inside)]
    rfl

/-- The loop halts as one of its rounds does. -/
theorem mapAll_error {f : α → Check ε β} {l : List α} {h : Halt ε} (halts : mapAll f l = .error h) :
    ∃ a ∈ l, f a = .error h := by
  induction l with
  | nil => simp [mapAll] at halts
  | cons x rest ih =>
    simp only [mapAll] at halts
    cases first : f x with
    | error h' =>
      rw [first] at halts
      cases halts
      exact ⟨x, by simp, first⟩
    | ok b =>
      rw [first] at halts
      simp only [ok_bind] at halts
      cases later : mapAll f rest with
      | ok bs => rw [later] at halts; simp at halts
      | error h' =>
        rw [later] at halts
        cases halts
        obtain ⟨a, mem, at_a⟩ := ih later
        exact ⟨a, List.mem_cons_of_mem _ mem, at_a⟩

end Check

/-- Code over a state. -/
def Proc (σ ε α : Type) := σ → Check ε α × σ

namespace Proc
variable {ε α β σ : Type}

instance : Monad (Proc σ ε) where
  pure a := fun s => (.ok a, s)
  bind m f := fun s =>
    match m s with
    | (.ok a, s') => f a s'
    | (.error h, s') => (.error h, s')

/-- Code without effects, run over a state. -/
def lift (c : Check ε α) : Proc σ ε α := fun s => (c, s)

/-- The error reply. -/
def fail (e : ε) : Proc σ ε α := fun s => (.error (.error e), s)

def read (f : σ → α) : Proc σ ε α := fun s => (.ok (f s), s)
def update (f : σ → σ) : Proc σ ε Unit := fun s => (.ok (), f s)

/-- What holds after a process: `post` if it gives a value, `halts` otherwise. -/
def wp (m : Proc σ ε α) (post : α → σ → Prop) (halts : Halt ε → σ → Prop) (s : σ) : Prop :=
  match m s with
  | (.ok a, s') => post a s'
  | (.error h, s') => halts h s'

variable {post : β → σ → Prop} {halts : Halt ε → σ → Prop} {s : σ}

@[simp] theorem wp_pure {a : β} : wp (pure a : Proc σ ε β) post halts s ↔ post a s := Iff.rfl
@[simp] theorem wp_fail {e : ε} : wp (fail e : Proc σ ε β) post halts s ↔ halts (.error e) s := Iff.rfl
@[simp] theorem wp_read {f : σ → β} : wp (read f : Proc σ ε β) post halts s ↔ post (f s) s := Iff.rfl

@[simp] theorem wp_update {post : Unit → σ → Prop} {f : σ → σ} :
    wp (update f : Proc σ ε Unit) post halts s ↔ post () (f s) := Iff.rfl

@[simp] theorem wp_bind {m : Proc σ ε α} {f : α → Proc σ ε β} :
    wp (m >>= f) post halts s ↔ wp m (fun a => wp (f a) post halts) halts s := by
  simp only [wp, bind]
  rcases m s with ⟨_ | _, _⟩ <;> rfl

theorem wp_ok {b : β} : wp (lift (.ok b) : Proc σ ε β) post halts s ↔ post b s := Iff.rfl

theorem wp_ensure {post : Unit → σ → Prop} {holds : Bool} :
    wp (lift (Check.ensure holds)) post halts s ↔ if holds then post () s else halts .abort s := by
  cases holds <;> rfl

theorem wp_mono {m : Proc σ ε β} {post' : β → σ → Prop} {halts' : Halt ε → σ → Prop}
    (holds : wp m post halts s) (value : ∀ b s', post b s' → post' b s') (halt : ∀ h s', halts h s' → halts' h s') :
    wp m post' halts' s := by
  simp only [wp] at holds ⊢
  split at holds
  · exact value _ _ holds
  · exact halt _ _ holds

/-- What holds after a process holds of the value it gave. -/
theorem post_of_wp {m : Proc σ ε β} (holds : wp m post halts s) {b : β} {s' : σ} (runs : m s = (.ok b, s')) :
    post b s' := by
  simpa only [wp, runs] using holds

/-- A process that cannot halt gives a value. -/
theorem exists_of_wp {m : Proc σ ε β} (holds : wp m post (fun _ _ => False) s) :
    ∃ b s', m s = (.ok b, s') ∧ post b s' := by
  simp only [wp] at holds
  split at holds
  · next b s' runs => exact ⟨b, s', runs, holds⟩
  · exact holds.elim

theorem wp_and {m : Proc σ ε β} {post' : β → σ → Prop} {halts' : Halt ε → σ → Prop} (first : wp m post halts s)
    (second : wp m post' halts' s) :
    wp m (fun b s' => post b s' ∧ post' b s') (fun h s' => halts h s' ∧ halts' h s') s := by
  simp only [wp] at first second ⊢
  split at first
  · next runs =>
    rw [runs] at second
    exact ⟨first, second⟩
  · next runs =>
    rw [runs] at second
    exact ⟨first, second⟩

/-- However a process ends, the state it leaves is related to the one it found. -/
def Keeps (R : σ → σ → Prop) (m : Proc σ ε α) : Prop := ∀ s, R s (m s).2

section
variable {R : σ → σ → Prop}

theorem keeps_of_wp {m : Proc σ ε α} (holds : ∀ s, wp m (fun _ => R s) (fun _ => R s) s) : Keeps R m := by
  intro s
  have holds := holds s
  simp only [wp] at holds
  split at holds
  · next runs => rwa [runs]
  · next runs => rwa [runs]

theorem Keeps.wp {m : Proc σ ε α} (keeps : Keeps R m) (s : σ) : wp m (fun _ => R s) (fun _ => R s) s := by
  have kept := keeps s
  simp only [Proc.wp]
  split
  · next runs => rwa [runs] at kept
  · next runs => rwa [runs] at kept

variable (refl : ∀ s, R s s) (trans : ∀ s t u, R s t → R t u → R s u)
include refl

theorem keeps_pure (a : α) : Keeps R (pure a : Proc σ ε α) := fun s => refl s

theorem keeps_lift (c : Check ε α) : Keeps R (lift c : Proc σ ε α) := fun s => refl s

omit refl
include trans

theorem keeps_bind {m : Proc σ ε α} {f : α → Proc σ ε β} (first : Keeps R m) (later : ∀ a, Keeps R (f a)) :
    Keeps R (m >>= f) := by
  intro s
  have kept := first s
  simp only [bind]
  cases runs : m s with
  | mk result s' =>
    rw [runs] at kept
    cases result with
    | ok a => exact trans s s' _ kept (later a s')
    | error h => exact kept

end

end Proc
end PiJade
