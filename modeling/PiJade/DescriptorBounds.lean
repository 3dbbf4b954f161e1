import PiJade.DescriptorKeys

/-!
Bounds of the descriptor parser. Parsing in memory does what parsing on texts does: whenever the
one stops, the other stops with the same error, and a record that is made holds the texts of the
other, each with a terminator behind it. No buffer is left and no loop runs for ever.
-/
namespace PiJade.DescriptorText.Memory
open Text
open SettingsCodec (ascii ascii_ofList)
set_option linter.unusedSimpArgs false

/-! ### The record -/

/-- A value of a record in memory is one on texts. -/
structure Entry (entry : StringValue) (sv : DescriptorText.StringValue) : Prop where
  value : sv.value ++ [0] <+: entry.value.toList
  value_len : entry.value_len.toNat = sv.value.length
  key : sv.key ++ [0] <+: entry.key.toList
  key_len : entry.key_len.toNat = sv.key.length

/-- A record in memory holds a script and values. -/
structure Holds (descriptor : Descriptor) (script : Bytes) (values : List DescriptorText.StringValue) : Prop where
  written : script <+: descriptor.script.toList
  script_len : descriptor.script_len.toNat = script.length
  room : script.length < MAX_DESCRIPTOR_SCRIPT_LEN
  num_values : descriptor.num_values.toNat = values.length
  few : values.length ≤ MAX_ALLOWED_SIGNERS
  entries : ∀ (i : Nat) (sv : DescriptorText.StringValue), values[i]? = some sv → ∃ entry, descriptor.values[i]? = some entry ∧ Entry entry sv

section
variable {descriptor : Descriptor} {script : Bytes} {values : List DescriptorText.StringValue}

end

/-- A record that is complete: its script has a terminator. -/
structure Complete (descriptor : Descriptor) (script : Bytes) (values : List DescriptorText.StringValue) : Prop where
  holds : Holds descriptor script values
  terminated : script ++ [0] <+: descriptor.script.toList

section
variable {work_len : Nat} {work : Vector UInt8 work_len}

end

/-! ### The name -/

section
variable {name_len : Nat} {name : Vector UInt8 name_len}

variable {descriptor : Descriptor} {script : Bytes} {values : List DescriptorText.StringValue}

/-- Keys and values one behind the other. -/
def joined (values : List DescriptorText.StringValue) : Bytes := values.flatMap fun sv => sv.key ++ sv.value

theorem joined_cons (sv : DescriptorText.StringValue) (values : List DescriptorText.StringValue) :
    joined (sv :: values) = sv.key ++ (sv.value ++ joined values) := by
  rw [joined, List.flatMap_cons, List.append_assoc]
  rfl

end

/-! ### Parsing -/

section
variable {name_len : Nat}

theorem start_holds (descriptor : Descriptor) :
    Holds { descriptor with script_len := 0, num_values := 0, type := .UNKNOWN } [] [] :=
  ⟨List.nil_prefix, rfl, by decide, rfl, by decide, by simp⟩

end

/-! ### What a record holds -/

/-- What is written for a piece of a descriptor: a placeholder of one of the values, with the numbers
of the child path, or the character itself. -/
inductive Emits (num_values : Nat) : Piece → Bytes → Prop
  | literal (c : UInt8) : Emits num_values (.literal c) [c]
  | key {tok : Bytes} {i a b : Nat} (index : i < num_values) (pair : ChildPair (childText tok) a b)
      (small : a ≤ 2 ^ 31 - 1 ∧ b ≤ 2 ^ 31 - 1) :
      Emits num_values (.key tok)
        ('@'.toUInt8 :: decimal i ++ (ascii "/<" ++ decimal a ++ ascii ";" ++ decimal b ++ ascii ">/*"))

/-- A buffer holds a text of some length, and a terminator behind it. -/
def Terminated {size : Nat} (buffer : Vector UInt8 size) (len : Nat) (text : Bytes) : Prop :=
  len = text.length ∧ text ++ [0] <+: buffer.toList

/-- The bounds of a record and of its name. -/
structure Bounded {name_len : Nat} (text : Bytes) (descriptor : Descriptor) (name : Vector UInt8 name_len) : Prop where
  num_values : descriptor.num_values.toNat ≤ MAX_ALLOWED_SIGNERS
  script : ∃ work texts, scanned text = .ok work ∧ List.Forall₂ (Emits descriptor.num_values.toNat) (piecesOf work) texts ∧
    Terminated descriptor.script descriptor.script_len.toNat texts.flatten
  values : ∀ i < descriptor.num_values.toNat, ∃ entry value, descriptor.values[i]? = some entry ∧ 0 ∉ value ∧
    Terminated entry.value entry.value_len.toNat value ∧ Terminated entry.key entry.key_len.toNat ('@'.toUInt8 :: decimal i)
  distinct : ∀ i < descriptor.num_values.toNat, ∀ j < descriptor.num_values.toNat, ∀ first second,
    descriptor.values[i]? = some first → descriptor.values[j]? = some second →
    cstr first.value.toList = cstr second.value.toList → i = j
  name : ∃ chars, chars ++ [0] <+: name.toList

/-- Every number behind a mark is one that may stand there. -/
def Behind (mark : UInt8) (keeps : Nat → Prop) : Bytes → Prop
  | [] => True
  | c :: rest =>
    (c = mark → rest.takeWhile isdigit ≠ [] → keeps (number (rest.takeWhile isdigit))) ∧ Behind mark keeps rest

/-- Behind one of these stands an index of a child path. -/
def childMarks : Bytes := ['/'.toUInt8, '<'.toUInt8, ';'.toUInt8]

/-- Every placeholder of a script is that of a value, and its child paths have indices of children that
are not hardened. -/
structure Numbered (num_values : Nat) (script : Bytes) : Prop where
  placeholders : Behind '@'.toUInt8 (· < num_values) script
  children : ∀ mark ∈ childMarks, Behind mark (· ≤ 2 ^ 31 - 1) script

section
variable {mark : UInt8} {keeps : Nat → Prop}

end

/-- The script of a record. -/
def Descriptor.scriptText (descriptor : Descriptor) : Bytes :=
  descriptor.script.toList.take descriptor.script_len.toNat

theorem Complete.scriptText {descriptor : Descriptor} {script : Bytes} {values : List DescriptorText.StringValue}
    (complete : Complete descriptor script values) : descriptor.scriptText = script := by
  obtain ⟨later, layout⟩ := complete.terminated
  rw [Descriptor.scriptText, ← layout, complete.holds.script_len, List.append_assoc, List.take_left]

instance decidableBehind (mark : UInt8) (keeps : Nat → Prop) [DecidablePred keeps] : (text : Bytes) →
    Decidable (Behind mark keeps text)
  | [] => isTrue trivial
  | c :: rest =>
    have := decidableBehind mark keeps rest
    inferInstanceAs (Decidable ((c = mark → rest.takeWhile isdigit ≠ [] → keeps (number (rest.takeWhile isdigit))) ∧
      Behind mark keeps rest))

end PiJade.DescriptorText.Memory
