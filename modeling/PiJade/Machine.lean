import Mathlib.Data.List.Basic

/-!
Deterministic machines that read events: the state a run ends in, the outputs it
gives, conditions on the events of a run, and the two rules by which a property of
one step becomes a property of every run. An invariant kept by each admitted step
holds in the state reached (`final_invariant`); two states related by a relation
that every step keeps and that no output can tell apart answer every continuation
alike (`outputs_eq_of_sim`).
-/
namespace PiJade
universe u v w

/-- A machine with states `σ` reading events `ε` and answering with outputs `ω`. -/
structure Machine (σ : Type u) (ε : Type v) (ω : Type w) where
  step : σ → ε → σ
  out : σ → ε → Option ω

namespace Machine
variable {σ : Type u} {ε : Type v} {ω : Type w} (m : Machine σ ε ω)

/-- The state after all events. -/
def final (s : σ) (events : List ε) : σ := events.foldl m.step s

/-- The outputs of a run, in order. -/
def outputs : σ → List ε → List ω
  | _, [] => []
  | s, e :: rest => (m.out s e).toList ++ outputs (m.step s e) rest

/-- Every event satisfies the condition in the state that meets it. -/
def Along (admitted : σ → ε → Prop) : σ → List ε → Prop
  | _, [] => True
  | s, e :: rest => admitted s e ∧ Along admitted (m.step s e) rest

@[simp] theorem final_nil (s : σ) : m.final s [] = s := rfl

@[simp] theorem final_cons (s : σ) (e : ε) (rest : List ε) :
    m.final s (e :: rest) = m.final (m.step s e) rest := rfl

@[simp] theorem final_append (s : σ) (front rest : List ε) :
    m.final s (front ++ rest) = m.final (m.final s front) rest := by
  simp [final, List.foldl_append]

@[simp] theorem along_nil (admitted : σ → ε → Prop) (s : σ) : m.Along admitted s [] := trivial

@[simp] theorem along_cons (admitted : σ → ε → Prop) (s : σ) (e : ε) (rest : List ε) :
    m.Along admitted s (e :: rest) ↔ admitted s e ∧ m.Along admitted (m.step s e) rest := Iff.rfl

theorem along_append (admitted : σ → ε → Prop) (s : σ) (front rest : List ε) :
    m.Along admitted s (front ++ rest) ↔ m.Along admitted s front ∧ m.Along admitted (m.final s front) rest := by
  induction front generalizing s with
  | nil => simp
  | cons e front ih => simp [ih, and_assoc]

theorem along_of_forall {allowed : ε → Prop} {events : List ε} (all : ∀ e ∈ events, allowed e) (s : σ) :
    m.Along (fun _ e => allowed e) s events := by
  induction events generalizing s with
  | nil => trivial
  | cons e rest ih =>
    obtain ⟨first, later⟩ := List.forall_mem_cons.mp all
    exact ⟨first, ih later _⟩

/-- What every admitted step keeps holds in the state a run reaches. -/
theorem final_invariant {admitted : σ → ε → Prop} {I : σ → Prop}
    (keeps : ∀ s e, I s → admitted s e → I (m.step s e)) {s : σ} {events : List ε}
    (start : I s) (along : m.Along admitted s events) : I (m.final s events) := by
  induction events generalizing s with
  | nil => exact start
  | cons e rest ih =>
    obtain ⟨first, later⟩ := along
    exact ih (keeps s e start first) later

/-- What every step keeps holds in the state a run reaches. -/
theorem final_always {I : σ → Prop} (keeps : ∀ s e, I s → I (m.step s e)) {s : σ} (start : I s) (events : List ε) :
    I (m.final s events) := by
  induction events generalizing s with
  | nil => exact start
  | cons e rest ih => exact ih (keeps s e start)

/-- Related states answer every admitted continuation alike. -/
theorem outputs_eq_of_sim {admitted : σ → ε → Prop} {Sim : σ → σ → Prop}
    (keeps : ∀ s t e, Sim s t → admitted s e → Sim (m.step s e) (m.step t e))
    (same : ∀ s t e, Sim s t → admitted s e → m.out s e = m.out t e)
    {s t : σ} {events : List ε} (related : Sim s t) (along : m.Along admitted s events) :
    m.outputs s events = m.outputs t events := by
  induction events generalizing s t with
  | nil => rfl
  | cons e rest ih =>
    obtain ⟨first, later⟩ := along
    rw [outputs, outputs, same s t e related first, ih (keeps s t e related first) later]

end Machine
end PiJade
