import Mathlib.Tactic.Common
import Mathlib.Data.Nat.Basic

/-!
The last entries of a history in a buffer that is written round and round. Entry j of the history is
in cell j modulo the size until the buffer has gone round once more.
-/
namespace PiJade.RingBuffer
set_option linter.unusedSimpArgs false

variable {α : Type} {size : Nat}

/-- The buffer holds the last entries of the history, as many as it has cells. -/
def Keeps (buffer : Vector α size) (history : List α) : Prop :=
  ∀ j entry, history[j]? = some entry → history.length ≤ j + size → buffer[j % size]? = some entry

/-- An entry is among the last ones of the history that the buffer has cells for. -/
def Recent (size : Nat) (history : List α) (entry : α) : Prop :=
  ∃ j, history.length ≤ j + size ∧ history[j]? = some entry

theorem keeps_nil (buffer : Vector α size) : Keeps buffer [] := by
  intro j entry found
  simp at found

/-- Two entries of one round are in different cells. -/
theorem mod_ne {j n : Nat} (before : j < n) (round : n < j + size) : j % size ≠ n % size := by
  intro same
  have apart : (n - j) % size = 0 := Nat.sub_mod_eq_zero_of_mod_eq same.symm
  rw [Nat.mod_eq_of_lt (by omega)] at apart
  omega

/-- The next entry takes the place of the oldest one. -/
theorem Keeps.push {buffer : Vector α size} {history : List α} (keeps : Keeps buffer history) (entry : α)
    (room : history.length % size < size) :
    Keeps (buffer.set (history.length % size) entry room) (history ++ [entry]) := by
  intro j other found late
  rw [List.length_append, List.length_singleton] at late
  by_cases last : j = history.length
  · rw [last, List.getElem?_concat_length] at found
    rw [last, Vector.getElem?_set_self, found]
  · have before : j < history.length := by
      have inside := (List.getElem?_eq_some_iff.mp found).1
      rw [List.length_append, List.length_singleton] at inside
      omega
    rw [List.getElem?_append_left before] at found
    rw [Vector.getElem?_set_ne room (mod_ne before (by omega)).symm]
    exact keeps j other found (by omega)

/-- The cells that are in use hold the recent entries and no others. -/
theorem Keeps.used_iff {buffer : Vector α size} {history : List α} (keeps : Keeps buffer history) (entry : α) :
    (∃ i, i < min history.length size ∧ buffer[i]? = some entry) ↔ Recent size history entry := by
  constructor
  · rintro ⟨i, used, here⟩
    -- the youngest entry whose cell is i
    have back : (history.length - 1 - i) % size < size := Nat.mod_lt _ (by omega)
    have few : (history.length - 1 - i) % size ≤ history.length - 1 - i := Nat.mod_le _ _
    have cell : (history.length - 1 - (history.length - 1 - i) % size) % size = i := by
      have split := Nat.div_add_mod (history.length - 1 - i) size
      have sum : history.length - 1 - (history.length - 1 - i) % size = i + size * ((history.length - 1 - i) / size) := by
        omega
      rw [sum, Nat.add_mul_mod_self_left, Nat.mod_eq_of_lt (by omega)]
    obtain ⟨other, found⟩ : ∃ other, history[history.length - 1 - (history.length - 1 - i) % size]? = some other :=
      ⟨_, List.getElem?_eq_getElem (by omega)⟩
    have kept := keeps _ other found (by omega)
    rw [cell, here] at kept
    cases kept
    exact ⟨_, by omega, found⟩
  · rintro ⟨j, late, found⟩
    have inside := (List.getElem?_eq_some_iff.mp found).1
    have cell : j % size < size := Nat.mod_lt _ (by omega)
    have few : j % size ≤ j := Nat.mod_le _ _
    exact ⟨j % size, by omega, keeps j entry found late⟩

end PiJade.RingBuffer
