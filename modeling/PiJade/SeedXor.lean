import PiJade.MnemonicPhrases
import PiJade.Pads

/-!
Seed XOR (`main/seedxor.c`, and the screens of `main/process/mnemonic.c` that split and combine). The
parts of a split are phrases of their own; the buffer of the parts is a list of them. What the user
enters and answers is a list, and an entry that is abandoned is its end. Randomness and the decoding of
a phrase are parameters.
-/
namespace PiJade.SeedXor
open Text Mnemonic
set_option linter.unusedSimpArgs false

def SEEDXOR_MAX_PART_LEN : Nat := 32
def SEEDXOR_MIN_SPLIT_PARTS : Nat := 2
def SEEDXOR_MAX_SPLIT_PARTS : Nat := 4

/-- Entropy of one length. -/
structure Entropy (len : Nat) where
  bytes : Vector UInt8 len
  deriving DecidableEq, Repr

section
variable {len : Nat}

def seedxor_accumulate (total part : Entropy len) : Entropy len := ⟨Vector.zipWith (· ^^^ ·) total.bytes part.bytes⟩

def seedxor_is_zero (entropy : Entropy len) : Bool := entropy.bytes.toList.foldl (· ||| ·) 0 == 0

def zeroEntropy : Entropy len := ⟨Vector.replicate len 0⟩

/-- The parts, unless they do not recombine. -/
def seedxor_split (num_parts : Nat) (get_random : Fin (num_parts - 1) → Entropy len) (entropy : Entropy len) :
    Check Fault (Option (List (Entropy len))) := do
  Check.ensure (decide (0 < len ∧ len ≤ SEEDXOR_MAX_PART_LEN))
  Check.ensure (decide (SEEDXOR_MIN_SPLIT_PARTS ≤ num_parts ∧ num_parts ≤ SEEDXOR_MAX_SPLIT_PARTS))
  let drawn := List.ofFn get_random
  let parts := drawn ++ [drawn.foldl seedxor_accumulate entropy]
  let check := parts.foldl seedxor_accumulate zeroEntropy
  if check = entropy then return some parts else return none

end

/-! ### The screens -/

/-- From the last space on. -/
def strrchrSpace (text : Bytes) : Option Bytes :=
  if 32 ∈ cstr text then some (32 :: ((cstr text).reverse.takeWhile (· ≠ 32)).reverse) else none

def finalWord (mnemonic : Bytes) : Check Fault Bytes :=
  match strrchrSpace mnemonic with
  | none => .error .abort
  | some final_word => .ok final_word

def ascii (text : String) : Bytes := text.toList.map fun c => UInt8.ofNat c.toNat

/-- The word that the screen gives to be compared, with its number. -/
def checkWord (nwords : Nat) (mnemonic : Bytes) : Check Fault Bytes := do
  let final_word ← finalWord mnemonic
  let check_word := ascii "Word " ++ decimal nwords ++ ascii ":" ++ final_word
  Check.ensure (decide (check_word.length < 20))
  return check_word

/-- As printed by `%u`. -/
def counted (num_parts : Nat) : Bytes := ascii "Parts entered: " ++ decimal (num_parts % 2 ^ 32)

def entropyLen (nwords : Nat) : Nat := if nwords = 12 then BIP32_ENTROPY_LEN_128 else BIP32_ENTROPY_LEN_256

/-- What the user does at a part: leaves at its heading, or sees its words and confirms them or not. -/
inductive Seen where
  | back
  | shown (confirmed : Bool)
  deriving DecidableEq, Repr

inductive Screen where
  | part (index num_parts : Nat) (mnemonic : Bytes)
  | failed
  | abandoned
  | check_word (text : Bytes)
  deriving DecidableEq, Repr

inductive Answer where
  | add
  | done
  | escape
  deriving DecidableEq, Repr

/-- A phrase that was entered, and what was answered to it. -/
structure Round where
  mnemonic : Bytes
  answer : Answer
  deriving DecidableEq, Repr

/-- The question after an entry. -/
structure Question where
  counted : Bytes
  check_word : Option Bytes
  cancel_out : Bool
  deriving DecidableEq, Repr

section
variable (lib : Library) (bip39_mnemonic_to_bytes : Bytes → Option Bytes)

def entropyOf (len : Nat) (mnemonic : Bytes) : Check Fault (Entropy len) :=
  match bip39_mnemonic_to_bytes mnemonic with
  | none => .error .abort
  | some bytes => if size : bytes.length = len then .ok ⟨⟨bytes.toArray, by simpa using size⟩⟩ else .error .abort

/-- The parts that reach the screen, and whether all of them were confirmed. -/
def showParts {len : Nat} (num_parts : Nat) : List (Entropy len × Nat) → List Seen → Check Fault (List Screen × Bool)
  | [], _ => return ([], true)
  | (part, i) :: rest, .shown confirmed :: later => do
    let mnemonic ← mnemonic_from_entropy lib part.bytes.toList MNEMONIC_BUFLEN
    if !confirmed then return ([.part i num_parts mnemonic], false)
    else
      let (screens, shown_all) ← showParts num_parts rest later
      return (.part i num_parts mnemonic :: screens, shown_all)
  | _, _ => return ([], false)

def split_wallet_seedxor (nwords num_parts : Nat) (get_random : Fin (num_parts - 1) → Entropy (entropyLen nwords))
    (mnemonic : Bytes) (seen : List Seen) : Check Fault (List Screen) := do
  Check.ensure (decide (nwords = 12 ∨ nwords = 24))
  let entropy ← entropyOf bip39_mnemonic_to_bytes (entropyLen nwords) mnemonic
  match ← seedxor_split num_parts get_random entropy with
  | none => return [.failed]
  | some parts =>
    let (screens, shown_all) ← showParts lib num_parts parts.zipIdx seen
    if !shown_all then return screens ++ if screens = [] then [] else [.abandoned]
    else
      let check_word ← checkWord nwords (mnemonic ++ [0])
      return screens ++ [.check_word check_word]

/-- The loop of `mnemonic_seedxor`: the phrase that is combined, and the questions. -/
def combineFrom (nwords : Nat) :
    List Round → Entropy (entropyLen nwords) → Nat → Check Fault (Option Bytes × List Question)
  | [], _, _ => return (none, [])
  | round :: later, total, num_parts => do
    let part ← entropyOf bip39_mnemonic_to_bytes (entropyLen nwords) round.mnemonic
    let total := seedxor_accumulate total part
    let num_parts := num_parts + 1
    Check.ensure (decide ((counted num_parts).length < 24))
    if num_parts < SEEDXOR_MIN_SPLIT_PARTS then
      let question : Question := ⟨counted num_parts, none, false⟩
      match round.answer with
      | .add =>
        let (combined, questions) ← combineFrom nwords later total num_parts
        return (combined, question :: questions)
      | _ => return (none, [question])
    else
      let mnemonic ← mnemonic_from_entropy lib total.bytes.toList MNEMONIC_BUFLEN
      let check_word ← checkWord nwords mnemonic
      let question : Question := ⟨counted num_parts, some check_word, seedxor_is_zero total⟩
      match round.answer with
      | .add =>
        let (combined, questions) ← combineFrom nwords later total num_parts
        return (combined, question :: questions)
      | .done => return (some mnemonic, [question])
      | .escape => return (none, [question])

def mnemonic_seedxor (nwords : Nat) (rounds : List Round) : Check Fault (Option Bytes × List Question) := do
  Check.ensure (decide (nwords = 12 ∨ nwords = 24))
  combineFrom lib bip39_mnemonic_to_bytes nwords rounds zeroEntropy 0

end

/-! ### Entropy as a group -/

section
variable {len : Nat}

theorem Entropy.ext' {first second : Entropy len} (same : ∀ i (inside : i < len), first.bytes[i] = second.bytes[i]) :
    first = second := by
  cases first
  cases second
  exact congrArg Entropy.mk (Vector.ext same)

instance : Add (Entropy len) := ⟨seedxor_accumulate⟩

instance : Zero (Entropy len) := ⟨zeroEntropy⟩

instance : Neg (Entropy len) := ⟨id⟩

theorem add_byte (first second : Entropy len) {i : Nat} (inside : i < len) :
    (first + second).bytes[i] = first.bytes[i] ^^^ second.bytes[i] := Vector.getElem_zipWith inside

theorem zero_byte {i : Nat} (inside : i < len) : (0 : Entropy len).bytes[i] = 0 := Vector.getElem_replicate inside

theorem add_self (entropy : Entropy len) : entropy + entropy = 0 :=
  Entropy.ext' fun i inside => by rw [add_byte, zero_byte, UInt8.xor_self]

theorem zero_add' (entropy : Entropy len) : 0 + entropy = entropy :=
  Entropy.ext' fun i inside => by rw [add_byte, zero_byte, UInt8.zero_xor]

theorem add_comm' (first second : Entropy len) : first + second = second + first :=
  Entropy.ext' fun i inside => by rw [add_byte, add_byte, UInt8.xor_comm]

theorem add_assoc' (first second third : Entropy len) : first + second + third = first + (second + third) :=
  Entropy.ext' fun i inside => by rw [add_byte, add_byte, add_byte, add_byte, UInt8.xor_assoc]

instance : AddCommGroup (Entropy len) where
  add_assoc := add_assoc'
  zero_add := zero_add'
  add_zero entropy := by rw [add_comm', zero_add']
  add_comm := add_comm'
  neg_add_cancel := add_self
  nsmul := nsmulRec
  zsmul := zsmulRec

theorem selfInverse : Pads.SelfInverse (Entropy len) := add_self

end

/-! ### Splitting -/

section
variable {len num_parts : Nat}

theorem foldl_accumulate (entropy : Entropy len) (parts : List (Entropy len)) :
    parts.foldl seedxor_accumulate entropy = entropy + parts.sum := Pads.foldl_add entropy parts

/-- The parts of a split. -/
def partsOf (get_random : Fin (num_parts - 1) → Entropy len) (entropy : Entropy len) : List (Entropy len) :=
  List.ofFn (Pads.pieces entropy get_random)

theorem partsOf_eq (get_random : Fin (num_parts - 1) → Entropy len) (entropy : Entropy len) :
    partsOf get_random entropy =
      List.ofFn get_random ++ [(List.ofFn get_random).foldl seedxor_accumulate entropy] := by
  rw [partsOf, List.ofFn_succ_last, Pads.pieces_last, foldl_accumulate, List.sum_ofFn]
  simp only [Pads.pieces_drawn]

theorem partsOf_sum (get_random : Fin (num_parts - 1) → Entropy len) (entropy : Entropy len) :
    (partsOf get_random entropy).sum = entropy := by
  rw [partsOf, List.sum_ofFn, Pads.pieces_sum selfInverse]

theorem seedxor_split_eq (size : 0 < len ∧ len ≤ SEEDXOR_MAX_PART_LEN)
    (range : SEEDXOR_MIN_SPLIT_PARTS ≤ num_parts ∧ num_parts ≤ SEEDXOR_MAX_SPLIT_PARTS)
    (get_random : Fin (num_parts - 1) → Entropy len) (entropy : Entropy len) :
    seedxor_split num_parts get_random entropy = .ok (some (partsOf get_random entropy)) := by
  have recombines : (partsOf get_random entropy).foldl seedxor_accumulate zeroEntropy = entropy := by
    rw [foldl_accumulate, partsOf_sum]
    exact zero_add entropy
  rw [seedxor_split, decide_eq_true size, Check.ensure_true, Check.ok_bind, decide_eq_true range, Check.ensure_true,
    Check.ok_bind]
  dsimp only
  rw [← partsOf_eq, if_pos recombines]
  rfl

theorem partsOf_length (some_part : 1 ≤ num_parts) (get_random : Fin (num_parts - 1) → Entropy len)
    (entropy : Entropy len) :
    (partsOf get_random entropy).length = num_parts := by
  rw [partsOf, List.length_ofFn]
  omega

end

/-- Whichever part is missing, the other parts of a split come from every seed, and from each by exactly one drawing: they
say nothing about it. -/
theorem split_hides {len num_parts : Nat} (size : 0 < len ∧ len ≤ SEEDXOR_MAX_PART_LEN)
    (range : SEEDXOR_MIN_SPLIT_PARTS ≤ num_parts ∧ num_parts ≤ SEEDXOR_MAX_SPLIT_PARTS) (entropy other : Entropy len)
    (get_random : Fin (num_parts - 1) → Entropy len) (missing : Nat) (inside : missing < num_parts) :
    ∃! get_random' : Fin (num_parts - 1) → Entropy len, ∃ parts parts',
      seedxor_split num_parts get_random entropy = .ok (some parts) ∧
      seedxor_split num_parts get_random' other = .ok (some parts') ∧
      ∀ i < num_parts, i ≠ missing → parts'[i]? = parts[i]? := by
  have agree_iff : ∀ get_random' : Fin (num_parts - 1) → Entropy len,
      (∃ parts parts', seedxor_split num_parts get_random entropy = .ok (some parts) ∧
        seedxor_split num_parts get_random' other = .ok (some parts') ∧
        ∀ i < num_parts, i ≠ missing → parts'[i]? = parts[i]?) ↔
      ∀ i : Fin (num_parts - 1 + 1), i ≠ ⟨missing, by omega⟩ →
        Pads.pieces other get_random' i = Pads.pieces entropy get_random i := by
    intro get_random'
    rw [seedxor_split_eq size range, seedxor_split_eq size range]
    constructor
    · rintro ⟨parts, parts', ⟨⟩, ⟨⟩, agree⟩ i off
      have same := agree i (by omega) fun same => off (Fin.ext same)
      rw [partsOf, partsOf, List.getElem?_ofFn, List.getElem?_ofFn, dif_pos i.isLt, dif_pos i.isLt] at same
      exact Option.some.inj same
    · intro agree
      refine ⟨_, _, rfl, rfl, fun i small off => ?_⟩
      rw [partsOf, partsOf, List.getElem?_ofFn, List.getElem?_ofFn, dif_pos (by omega), dif_pos (by omega)]
      exact congrArg some (agree ⟨i, by omega⟩ fun same => off (Fin.val_eq_of_eq same))
  obtain ⟨draw, agrees, unique⟩ := Pads.pieces_hidden selfInverse entropy other get_random ⟨missing, by omega⟩
  exact ⟨draw, (agree_iff draw).mpr agrees, fun draw' found => unique draw' ((agree_iff draw').mp found)⟩

theorem split_hides_bytes : ∃! get_random' : Fin 1 → Entropy 1, ∃ parts parts',
    seedxor_split 2 (fun _ => ⟨#v[5]⟩) (⟨#v[7]⟩ : Entropy 1) = .ok (some parts) ∧
    seedxor_split 2 get_random' (⟨#v[9]⟩ : Entropy 1) = .ok (some parts') ∧ ∀ i < 2, i ≠ 0 → parts'[i]? = parts[i]? :=
  @split_hides 1 2 (by decide) (by decide) ⟨#v[7]⟩ ⟨#v[9]⟩ (fun _ => ⟨#v[5]⟩) 0 (by decide)

/-! ### Phrases -/

/-- Every phrase decodes to the entropy that it is made of. -/
def Decodes (lib : Library) (bip39_mnemonic_to_bytes : Bytes → Option Bytes) : Prop :=
  ∀ entropy : Bytes, entropy.length = 16 ∨ entropy.length = 32 → bip39_mnemonic_to_bytes (phrase lib entropy) = some entropy

/-- The phrase of entropy of one length. -/
def Entropy.phrase (lib : Library) {len : Nat} (entropy : Entropy len) : Bytes := Mnemonic.phrase lib entropy.bytes.toList

/-- The last word of a phrase, behind its space. -/
def Entropy.finalWord (lib : Library) {len : Nat} (entropy : Entropy len) : Bytes :=
  32 :: (phraseWords lib entropy.bytes.toList).getLastD []

/-- The last word of a phrase, with its number. -/
def Entropy.checkWord (lib : Library) {nwords : Nat} (entropy : Entropy (entropyLen nwords)) : Bytes :=
  ascii "Word " ++ decimal nwords ++ ascii ":" ++ entropy.finalWord lib

section
variable {lib : Library} {bip39_mnemonic_to_bytes : Bytes → Option Bytes} {len : Nat}

theorem length_bytes (entropy : Entropy len) : entropy.bytes.toList.length = len := Vector.length_toList

theorem phrase_chars (lawful : lib.Lawful) (entropy : Bytes) :
    ∀ word ∈ phraseWords lib entropy, 0 ∉ word ∧ 32 ∉ word := by
  intro word inside
  have letters := (lawful.letters word (phraseWords_listed lawful word inside)).2.2
  refine ⟨fun nul => ?_, fun space => ?_⟩
  · exact absurd (letters 0 nul).1 (by decide)
  · exact absurd (letters 32 space).1 (by decide)

theorem phrase_no_nul (lawful : lib.Lawful) (entropy : Bytes) : 0 ∉ phrase lib entropy := by
  intro nul
  have char := joined_forall (p := (· ≠ 0)) (by decide) (fun word inside c within zero =>
    (phrase_chars lawful entropy word inside).1 (zero ▸ within)) 0 nul
  exact char rfl

theorem mnemonic_from_entropy_eq (lawful : lib.Lawful) (size : len = 16 ∨ len = 32) (entropy : Entropy len) :
    mnemonic_from_entropy lib entropy.bytes.toList MNEMONIC_BUFLEN = .ok (entropy.phrase lib ++ [0]) := by
  have whole : entropy.bytes.toList.length = 16 ∨ entropy.bytes.toList.length = 32 := by rwa [length_bytes]
  have bound := length_phrase_le lawful whole
  rw [length_bytes] at bound
  have fits : (phrase lib entropy.bytes.toList).length < MNEMONIC_BUFLEN := by
    rw [MNEMONIC_BUFLEN]
    omega
  have copied : ([] : Bytes).length + (phrase lib entropy.bytes.toList ++ [0]).length ≤ MNEMONIC_BUFLEN := by
    rw [List.length_append, List.length_singleton, List.length_nil]
    omega
  simp only [mnemonic_from_entropy, lawful.standard _ whole, cstr_eq_self (phrase_no_nul lawful _), fits, decide_true,
    Check.ensure_true, Check.ok_bind, put_eq copied, List.nil_append]
  rfl

theorem strrchrSpace_joined {words : List Bytes} {last : Bytes} (filled : words ≠ []) (no_space : 32 ∉ last)
    (no_nul : 0 ∉ joined (words ++ [last])) (behind : Bytes) :
    strrchrSpace (joined (words ++ [last]) ++ 0 :: behind) = some (32 :: last) := by
  have text : joined (words ++ [last]) = joined words ++ (32 :: last) := by
    rw [joined_snoc, if_pos (List.length_pos_iff.mpr filled), List.append_assoc]
    rfl
  have backwards : (joined words ++ 32 :: last).reverse = last.reverse ++ 32 :: (joined words).reverse := by simp
  have passes : ∀ c ∈ last.reverse, decide (c ≠ 32) = true := by
    intro c inside
    refine decide_eq_true ?_
    rintro rfl
    exact no_space (List.mem_reverse.mp inside)
  rw [strrchrSpace, cstr_append no_nul, cstr_nul, List.append_nil, text, if_pos (by simp), backwards,
    List.takeWhile_append_of_pos passes, List.takeWhile_cons_of_neg (by decide), List.append_nil, List.reverse_reverse]

theorem finalWord_phrase (lawful : lib.Lawful) (size : len = 16 ∨ len = 32) (entropy : Entropy len) (behind : Bytes) :
    finalWord (entropy.phrase lib ++ 0 :: behind) = .ok (entropy.finalWord lib) := by
  have count := length_phraseWords lib entropy.bytes.toList
  rw [length_bytes] at count
  have filled : phraseWords lib entropy.bytes.toList ≠ [] := by
    rw [← List.length_pos_iff]
    omega
  have split := List.dropLast_append_getLast filled
  have more : (phraseWords lib entropy.bytes.toList).dropLast ≠ [] := by
    rw [← List.length_pos_iff, List.length_dropLast]
    omega
  have last_chars := phrase_chars lawful entropy.bytes.toList _ (List.getLast_mem filled)
  have found := @strrchrSpace_joined _ _ more last_chars.2 (by rw [split]; exact phrase_no_nul lawful _) behind
  rw [split] at found
  rw [finalWord, Entropy.phrase, phrase, found, Entropy.finalWord, List.getLastD_eq_getLast?,
    List.getLast?_eq_getLast_of_ne_nil filled]
  rfl

theorem entropyOf_phrase (decodes : Decodes lib bip39_mnemonic_to_bytes) (size : len = 16 ∨ len = 32)
    (entropy : Entropy len) :
    entropyOf bip39_mnemonic_to_bytes len (entropy.phrase lib) = .ok entropy := by
  have whole : entropy.bytes.toList.length = 16 ∨ entropy.bytes.toList.length = 32 := by rwa [length_bytes]
  rw [entropyOf, Entropy.phrase, decodes _ whole]
  dsimp only
  rw [dif_pos (length_bytes entropy)]
  refine congrArg Except.ok (Entropy.ext' fun i inside => ?_)
  simp

end

/-! ### Combining -/

section
variable {lib : Library} {bip39_mnemonic_to_bytes : Bytes → Option Bytes} {nwords : Nat}

theorem entropyLen_size {nwords : Nat} (supported : nwords = 12 ∨ nwords = 24) :
    entropyLen nwords = 16 ∨ entropyLen nwords = 32 := by
  rcases supported with rfl | rfl
  · exact .inl rfl
  · exact .inr rfl

theorem length_finalWord (lawful : lib.Lawful) (entropy : Entropy (entropyLen nwords)) :
    (entropy.finalWord lib).length ≤ 9 := by
  rw [Entropy.finalWord, List.length_cons, List.getLastD_eq_getLast?]
  cases last : (phraseWords lib entropy.bytes.toList).getLast? with
  | none => decide
  | some word =>
    have letters := lawful.letters word (phraseWords_listed lawful word (List.mem_of_getLast? last))
    exact Nat.succ_le_succ letters.2.1

theorem checkWord_phrase (lawful : lib.Lawful) (supported : nwords = 12 ∨ nwords = 24)
    (entropy : Entropy (entropyLen nwords))
    (behind : Bytes) : checkWord nwords (entropy.phrase lib ++ 0 :: behind) = .ok (entropy.checkWord lib) := by
  have short := @length_finalWord lib nwords lawful entropy
  have digits : (decimal nwords).length ≤ 2 := decimal_length_le (by decide) (by omega)
  have chars : (ascii "Word ").length = 5 ∧ (ascii ":").length = 1 := by decide
  have fits : (entropy.checkWord lib).length < 20 := by
    rw [Entropy.checkWord, List.length_append, List.length_append, List.length_append, chars.1, chars.2]
    omega
  rw [checkWord, finalWord_phrase lawful (entropyLen_size supported), Check.ok_bind]
  dsimp only
  rw [← Entropy.checkWord, decide_eq_true fits]
  rfl

theorem length_counted {num_parts : Nat} (few : num_parts < 10 ^ 8) : (counted num_parts).length < 24 := by
  have digits : (decimal (num_parts % 2 ^ 32)).length ≤ 8 :=
    decimal_length_le (by decide) (Nat.lt_of_le_of_lt (Nat.mod_le _ _) few)
  have chars : (ascii "Parts entered: ").length = 15 := by decide
  rw [counted, List.length_append, chars]
  omega

/-- The question after an entry. -/
def questionOf (lib : Library) (total : Entropy (entropyLen nwords)) (num_parts : Nat) : Question where
  counted := counted num_parts
  check_word := if num_parts < SEEDXOR_MIN_SPLIT_PARTS then none else some (total.checkWord lib)
  cancel_out := if num_parts < SEEDXOR_MIN_SPLIT_PARTS then false else seedxor_is_zero total

/-- How a combination goes: it goes on as long as parts are added. -/
def outcome (lib : Library) :
    List (Entropy (entropyLen nwords) × Answer) → Entropy (entropyLen nwords) → Nat → Option Bytes × List Question
  | [], _, _ => (none, [])
  | (part, answer) :: later, total, num_parts =>
    let total := total + part
    let num_parts := num_parts + 1
    let rest := outcome lib later total num_parts
    if answer = .add then (rest.1, questionOf lib total num_parts :: rest.2)
    else
      (if answer = .done ∧ SEEDXOR_MIN_SPLIT_PARTS ≤ num_parts then some (total.phrase lib ++ [0]) else none,
        [questionOf lib total num_parts])

def roundOf (lib : Library) (entry : Entropy (entropyLen nwords) × Answer) : Round := ⟨entry.1.phrase lib, entry.2⟩

theorem combineFrom_eq (lawful : lib.Lawful) (decodes : Decodes lib bip39_mnemonic_to_bytes)
    (supported : nwords = 12 ∨ nwords = 24) (entries : List (Entropy (entropyLen nwords) × Answer)) :
    ∀ (total : Entropy (entropyLen nwords)) (num_parts : Nat), num_parts + entries.length < 10 ^ 8 →
    combineFrom lib bip39_mnemonic_to_bytes nwords (entries.map (roundOf lib)) total num_parts =
      .ok (outcome lib entries total num_parts) := by
  induction entries with
  | nil =>
    intro total num_parts few
    rfl
  | cons entry later ih =>
    intro total num_parts few
    rw [List.length_cons] at few
    obtain ⟨part, answer⟩ := entry
    have size := entropyLen_size supported
    have made := mnemonic_from_entropy_eq lawful size (total + part)
    have named := checkWord_phrase lawful supported (total + part) []
    have printed := length_counted (show num_parts + 1 < 10 ^ 8 by omega)
    have next := ih (total + part) (num_parts + 1) (by omega)
    rw [List.map_cons, combineFrom, show (roundOf lib (part, answer)).mnemonic = part.phrase lib from rfl,
      entropyOf_phrase decodes size, Check.ok_bind, outcome]
    dsimp only
    rw [show seedxor_accumulate total part = total + part from rfl, decide_eq_true printed, Check.ensure_true,
      Check.ok_bind]
    by_cases few : num_parts + 1 < SEEDXOR_MIN_SPLIT_PARTS
    · have question : questionOf lib (total + part) (num_parts + 1) = ⟨counted (num_parts + 1), none, false⟩ := by
        rw [questionOf, if_pos few, if_pos few]
      rw [if_pos few, question]
      cases answer with
      | add =>
        dsimp only [roundOf]
        rw [next, Check.ok_bind]
        rfl
      | done =>
        dsimp only [roundOf]
        rw [if_neg (by decide), if_neg (not_and.mpr fun _ => Nat.not_le.mpr few)]
        rfl
      | escape => rfl
    · have question : questionOf lib (total + part) (num_parts + 1) =
          ⟨counted (num_parts + 1), some ((total + part).checkWord lib), seedxor_is_zero (total + part)⟩ := by
        rw [questionOf, if_neg few, if_neg few]
      rw [if_neg few, question, made, Check.ok_bind, named, Check.ok_bind]
      cases answer with
      | add =>
        dsimp only [roundOf]
        rw [next, Check.ok_bind]
        rfl
      | done =>
        dsimp only [roundOf]
        rw [if_neg (by decide), if_pos ⟨rfl, Nat.not_lt.mp few⟩]
        rfl
      | escape => rfl

/-- What a run has to be for a phrase to come out: parts that are added, and one with which it is done. -/
theorem outcome_iff {entries : List (Entropy (entropyLen nwords) × Answer)} {total : Entropy (entropyLen nwords)}
    {num_parts : Nat} {text : Bytes} :
    (outcome lib entries total num_parts).1 = some text ↔ ∃ front last later, entries = front ++ (last, .done) :: later ∧
      (∀ entry ∈ front, entry.2 = .add) ∧ SEEDXOR_MIN_SPLIT_PARTS ≤ num_parts + front.length + 1 ∧
      text = (total + ((front.map Prod.fst).sum + last)).phrase lib ++ [0] := by
  induction entries generalizing total num_parts with
  | nil =>
    refine ⟨fun given => absurd given (by simp [outcome]), ?_⟩
    rintro ⟨front, last, later, split, _⟩
    cases front <;> cases split
  | cons entry rest ih =>
    obtain ⟨part, answer⟩ := entry
    rw [outcome]
    by_cases added : answer = .add
    · subst added
      rw [if_pos rfl]
      dsimp only
      rw [ih]
      constructor
      · rintro ⟨front, last, later, rfl, adds, enough, rfl⟩
        refine ⟨(part, .add) :: front, last, later, rfl, List.forall_mem_cons.mpr ⟨rfl, adds⟩, ?_, ?_⟩
        · rw [List.length_cons]
          omega
        · rw [List.map_cons, List.sum_cons, add_assoc, add_assoc]
      · rintro ⟨front, last, later, split, adds, enough, rfl⟩
        cases front with
        | nil => cases split
        | cons first front =>
          obtain ⟨rfl, rfl⟩ := List.cons.inj split
          refine ⟨front, last, later, rfl, fun entry inside => adds entry (List.mem_cons_of_mem _ inside), ?_, ?_⟩
          · rw [List.length_cons] at enough
            omega
          · rw [List.map_cons, List.sum_cons, add_assoc, add_assoc]
    · rw [if_neg added]
      dsimp only
      constructor
      · intro given
        split at given
        next done =>
          obtain ⟨⟩ := given
          exact ⟨[], part, rest, by rw [done.1]; rfl, fun entry inside => absurd inside List.not_mem_nil,
            by simpa using done.2, by simp⟩
        next => cases given
      · rintro ⟨front, last, later, split, adds, enough, rfl⟩
        cases front with
        | nil =>
          obtain ⟨same, rfl⟩ := List.cons.inj split
          obtain ⟨rfl, rfl⟩ := Prod.mk.inj same
          rw [if_pos ⟨rfl, by simpa using enough⟩]
          simp
        | cons first front =>
          obtain ⟨rfl, _⟩ := List.cons.inj split
          exact absurd (adds _ List.mem_cons_self) added

/-- No run of entries fails, and a phrase comes out exactly if at least two parts are added and the last is answered with
done: the phrase of what they add up to. -/
theorem combines_exactly (lawful : lib.Lawful) (decodes : Decodes lib bip39_mnemonic_to_bytes)
    (supported : nwords = 12 ∨ nwords = 24) (entries : List (Entropy (entropyLen nwords) × Answer))
    (few : entries.length < 10 ^ 8) :
    ∃ combined questions,
      mnemonic_seedxor lib bip39_mnemonic_to_bytes nwords (entries.map (roundOf lib)) = .ok (combined, questions) ∧
      ∀ text, combined = some text ↔ ∃ front last later, entries = front ++ (last, .done) :: later ∧ front ≠ [] ∧
        (∀ entry ∈ front, entry.2 = .add) ∧ text = ((front.map Prod.fst).sum + last).phrase lib ++ [0] := by
  refine ⟨(outcome lib entries 0 0).1, (outcome lib entries 0 0).2, ?_, fun text => ?_⟩
  · rw [mnemonic_seedxor, decide_eq_true supported, Check.ensure_true, Check.ok_bind,
      combineFrom_eq lawful decodes supported entries _ _ (by omega)]
    rfl
  · rw [outcome_iff]
    have two : SEEDXOR_MIN_SPLIT_PARTS = 2 := rfl
    constructor
    · rintro ⟨front, last, later, split, adds, enough, rfl⟩
      refine ⟨front, last, later, split, ?_, adds, ?_⟩
      · rintro rfl
        rw [two, List.length_nil] at enough
        omega
      · rw [zero_add]
    · rintro ⟨front, last, later, split, some_part, adds, rfl⟩
      refine ⟨front, last, later, split, adds, ?_, ?_⟩
      · have := List.length_pos_iff.mpr some_part
        omega
      · rw [zero_add]

theorem sample_decodes : Decodes sample (mnemonicToBytes sample) := fun _ size => mnemonicToBytes_phrase sample_lawful size

theorem combines_exactly_two : ∃ combined questions,
    mnemonic_seedxor sample (mnemonicToBytes sample) 12
      ([((⟨Vector.replicate 16 5⟩, .add) : Entropy (entropyLen 12) × Answer), (⟨Vector.replicate 16 7⟩, .done)].map
        (roundOf sample)) =
      .ok (combined, questions) ∧
    ∀ text, combined = some text ↔ ∃ front last later,
      [((⟨Vector.replicate 16 5⟩, .add) : Entropy (entropyLen 12) × Answer), (⟨Vector.replicate 16 7⟩, .done)] =
        front ++ (last, .done) :: later ∧ front ≠ [] ∧ (∀ entry ∈ front, entry.2 = .add) ∧
      text = ((front.map Prod.fst).sum + last).phrase sample ++ [0] :=
  combines_exactly sample_lawful sample_decodes (.inl rfl) _ (by decide)

/-! ### Splitting and combining -/

theorem showParts_confirmed {len : Nat} (lawful : lib.Lawful) (size : len = 16 ∨ len = 32) (num_parts : Nat)
    (parts : List (Entropy len)) :
    ∀ first : Nat, showParts lib num_parts (parts.zipIdx first) (List.replicate parts.length (.shown true)) =
      .ok ((parts.zipIdx first).map fun part => .part part.2 num_parts (part.1.phrase lib ++ [0]), true) := by
  induction parts with
  | nil =>
    intro first
    rfl
  | cons part rest ih =>
    intro first
    rw [List.zipIdx_cons, List.length_cons, List.replicate_succ, showParts, mnemonic_from_entropy_eq lawful size,
      Check.ok_bind,
      if_neg (by decide), ih, Check.ok_bind]
    rfl

/-- Parts that are entered one after the other, and the last is answered with done. -/
def entered (order : List (Entropy (entropyLen nwords))) : List (Entropy (entropyLen nwords) × Answer) :=
  order.dropLast.map (·, .add) ++ (order.getLast?.map (·, .done)).toList

theorem length_entered_le (order : List (Entropy (entropyLen nwords))) : (entered order).length ≤ order.length := by
  cases order with
  | nil => exact Nat.le_refl _
  | cons part rest =>
    rw [entered, List.getLast?_eq_getLast_of_ne_nil (List.cons_ne_nil _ _), List.length_append, List.length_map,
      List.length_dropLast, List.length_cons]
    exact Nat.le_refl _

theorem outcome_adds (lib : Library) (front : List (Entropy (entropyLen nwords))) (last : Entropy (entropyLen nwords)) :
    ∀ (total : Entropy (entropyLen nwords)) (num_parts : Nat), SEEDXOR_MIN_SPLIT_PARTS ≤ num_parts + front.length + 1 →
    (outcome lib (front.map (·, .add) ++ [(last, .done)]) total num_parts).1 =
      some ((total + (front.sum + last)).phrase lib ++ [0]) ∧
    (outcome lib (front.map (·, .add) ++ [(last, .done)]) total num_parts).2.getLast? =
      some (questionOf lib (total + (front.sum + last)) (num_parts + front.length + 1)) := by
  induction front with
  | nil =>
    intro total num_parts enough
    rw [List.map_nil, List.nil_append, outcome, if_neg (by decide), if_pos ⟨rfl, by simpa using enough⟩, List.sum_nil,
      zero_add]
    exact ⟨rfl, rfl⟩
  | cons part front ih =>
    intro total num_parts enough
    rw [List.length_cons] at enough
    have later := ih (total + part) (num_parts + 1) (by omega)
    rw [List.map_cons, List.cons_append, outcome, if_pos rfl, List.sum_cons, List.length_cons, add_assoc part,
      ← add_assoc total,
      show num_parts + (front.length + 1) + 1 = num_parts + 1 + front.length + 1 by omega]
    refine ⟨later.1, ?_⟩
    dsimp only
    rw [List.getLast?_cons, later.2]
    rfl

/-- A wallet that is split shows as many phrases as were asked for and the word that its own phrase ends with. Entered in
any order, they give the phrase of the wallet, and the last question shows the same word. -/
theorem split_then_combine (lawful : lib.Lawful) (decodes : Decodes lib bip39_mnemonic_to_bytes) {num_parts : Nat}
    (supported : nwords = 12 ∨ nwords = 24)
    (range : SEEDXOR_MIN_SPLIT_PARTS ≤ num_parts ∧ num_parts ≤ SEEDXOR_MAX_SPLIT_PARTS)
    (get_random : Fin (num_parts - 1) → Entropy (entropyLen nwords)) (entropy : Entropy (entropyLen nwords)) :
    ∃ parts, parts.length = num_parts ∧
      split_wallet_seedxor lib bip39_mnemonic_to_bytes nwords num_parts get_random (entropy.phrase lib)
        (List.replicate num_parts (.shown true)) =
        .ok (parts.zipIdx.map (fun part => .part part.2 num_parts (part.1.phrase lib ++ [0])) ++
          [.check_word (entropy.checkWord lib)]) ∧
      ∀ order : List (Entropy (entropyLen nwords)), order.Perm parts → ∃ questions,
        mnemonic_seedxor lib bip39_mnemonic_to_bytes nwords ((entered order).map (roundOf lib)) =
          .ok (some (entropy.phrase lib ++ [0]), questions) ∧
        questions.getLast? = some ⟨counted num_parts, some (entropy.checkWord lib), seedxor_is_zero entropy⟩ := by
  have size := entropyLen_size supported
  have bounds : 0 < entropyLen nwords ∧ entropyLen nwords ≤ SEEDXOR_MAX_PART_LEN := by
    rw [SEEDXOR_MAX_PART_LEN]
    omega
  have two : SEEDXOR_MIN_SPLIT_PARTS = 2 := rfl
  have length := partsOf_length (by omega) get_random entropy
  refine ⟨partsOf get_random entropy, length, ?_, ?_⟩
  · have shown := showParts_confirmed lawful size num_parts (partsOf get_random entropy) 0
    rw [length] at shown
    rw [split_wallet_seedxor, decide_eq_true supported, Check.ensure_true, Check.ok_bind, entropyOf_phrase decodes size,
      Check.ok_bind, seedxor_split_eq bounds range, Check.ok_bind]
    dsimp only
    rw [shown, Check.ok_bind]
    dsimp only
    rw [if_neg (by decide), checkWord_phrase lawful supported entropy [], Check.ok_bind]
    rfl
  · intro order same
    have order_length := same.length_eq.trans length
    have some_part : order ≠ [] := by
      rw [← List.length_pos_iff]
      omega
    have split := List.dropLast_append_getLast some_part
    have sum : order.dropLast.sum + order.getLast some_part = entropy := by
      have whole : (order.dropLast ++ [order.getLast some_part]).sum = entropy := by rw [split, same.sum_eq, partsOf_sum]
      rwa [List.sum_append, List.sum_singleton] at whole
    have few : 0 + (entered order).length < 10 ^ 8 := by
      have length_le := length_entered_le order
      have four : SEEDXOR_MAX_SPLIT_PARTS = 4 := rfl
      omega
    have front_length : order.dropLast.length + 1 = num_parts := by
      rw [List.length_dropLast]
      omega
    have run := outcome_adds lib order.dropLast (order.getLast some_part) 0 0 (by omega)
    rw [sum, zero_add, zero_add, front_length] at run
    refine ⟨(outcome lib (entered order) 0 0).2, ?_, ?_⟩
    · rw [mnemonic_seedxor, decide_eq_true supported, Check.ensure_true, Check.ok_bind,
        combineFrom_eq lawful decodes supported _ _ _ few]
      rw [entered, List.getLast?_eq_getLast_of_ne_nil some_part]
      exact congrArg Except.ok (Prod.ext run.1 rfl)
    · rw [entered, List.getLast?_eq_getLast_of_ne_nil some_part]
      refine run.2.trans ?_
      rw [questionOf, if_neg (by omega), if_neg (by omega)]

theorem split_then_combine_two : ∃ parts : List (Entropy (entropyLen 12)), parts.length = 2 ∧
    split_wallet_seedxor sample (mnemonicToBytes sample) 12 2 (fun _ => ⟨Vector.replicate 16 5⟩)
      ((⟨Vector.replicate 16 7⟩ : Entropy (entropyLen 12)).phrase sample) (List.replicate 2 (.shown true)) =
      .ok (parts.zipIdx.map (fun part => .part part.2 2 (part.1.phrase sample ++ [0])) ++
        [.check_word ((⟨Vector.replicate 16 7⟩ : Entropy (entropyLen 12)).checkWord sample)]) ∧
    ∀ order : List (Entropy (entropyLen 12)), order.Perm parts → ∃ questions,
      mnemonic_seedxor sample (mnemonicToBytes sample) 12 ((entered order).map (roundOf sample)) =
        .ok (some ((⟨Vector.replicate 16 7⟩ : Entropy (entropyLen 12)).phrase sample ++ [0]), questions) ∧
      questions.getLast? = some ⟨counted 2, some ((⟨Vector.replicate 16 7⟩ : Entropy (entropyLen 12)).checkWord sample),
        seedxor_is_zero (⟨Vector.replicate 16 7⟩ : Entropy (entropyLen 12))⟩ :=
  split_then_combine sample_lawful sample_decodes (.inl rfl) (by decide) _ _

end

end PiJade.SeedXor
