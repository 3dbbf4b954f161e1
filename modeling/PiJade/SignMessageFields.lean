import Mathlib.Data.Nat.Bitwise
import PiJade.SignMessage

/-!
The fields of a file. Each reader finds its field exactly if the text begins with one, and reads nothing behind the file;
a path that is read is printed as a text that reads back to it.
-/
namespace PiJade.SignMessage
open Text Wallet
open SettingsCodec (ascii)
set_option linter.unusedSimpArgs false

/-! ### Reading -/

theorem byteAt_front (front : Bytes) (c : UInt8) (rest : Bytes) : byteAt (front ++ c :: rest) front.length = .ok c := by
  simp [byteAt]

theorem slice_end (front word : Bytes) : slice (front ++ word) front.length word.length = .ok word := by
  rw [slice, if_pos (by simp only [List.length_append]; omega), List.drop_left, List.take_length]

theorem slice_front (front word rest : Bytes) : slice (front ++ (word ++ rest)) front.length word.length = .ok word := by
  rw [slice, if_pos (by simp only [List.length_append]; omega), List.drop_left, List.take_left]

/-- One character further. -/
theorem front_snoc (front : Bytes) (c : UInt8) (rest : Bytes) : front ++ c :: rest = (front ++ [c]) ++ rest := by simp

theorem memchr_absent {c : UInt8} {rest : Bytes} (absent : c ∉ rest) (front : Bytes) :
    memchr (front ++ rest) c front.length rest.length = .ok none := by
  induction rest generalizing front with
  | nil => rfl
  | cons d rest ih =>
    rw [List.length_cons, memchr, byteAt_front, Check.ok_bind, if_neg (List.ne_of_not_mem_cons absent).symm,
      front_snoc, ← ih (List.not_mem_of_not_mem_cons absent) (front ++ [d]), List.length_append,
      List.length_singleton]

theorem memchr_found {c : UInt8} {word : Bytes} (absent : c ∉ word) (front rest : Bytes) :
    memchr (front ++ (word ++ c :: rest)) c front.length (word.length + (rest.length + 1)) =
      .ok (some (front.length + word.length)) := by
  induction word generalizing front with
  | nil =>
    rw [List.nil_append, List.length_nil, Nat.zero_add, memchr, byteAt_front, Check.ok_bind, if_pos rfl]
    rfl
  | cons d word ih =>
    have step := ih (List.not_mem_of_not_mem_cons absent) (front ++ [d])
    rw [List.length_append, List.length_singleton, ← front_snoc] at step
    rw [List.length_cons, Nat.add_right_comm, memchr, List.cons_append, byteAt_front, Check.ok_bind,
      if_neg (List.ne_of_not_mem_cons absent).symm, step, Nat.add_assoc, Nat.add_comm 1]

theorem strncasecmp_eq {literal word : Bytes} (no_nul : 0 ∉ literal) (same : word.length = literal.length) (front rest : Bytes) :
    strncasecmp (front ++ (word ++ rest)) front.length literal word.length =
      .ok (decide (word.map tolower = literal.map tolower)) := by
  induction word generalizing front literal with
  | nil =>
    obtain rfl := List.length_eq_zero_iff.mp same.symm
    rfl
  | cons c word ih =>
    cases literal with
    | nil => cases same
    | cons d literal =>
      have step := ih (fun nul => no_nul (List.mem_cons_of_mem d nul)) (Nat.succ.inj same) (front ++ [c])
      rw [List.length_append, List.length_singleton, ← front_snoc] at step
      rw [List.length_cons, strncasecmp, List.cons_append, byteAt_front, Check.ok_bind, List.headD_cons, List.tail_cons]
      by_cases letter : tolower c = tolower d
      · have char : c ≠ 0 := by
          rintro rfl
          exact no_nul (List.mem_cons.mpr (.inl (tolower_eq letter.symm (by decide)).symm))
        rw [if_neg (fun differ => differ letter), if_neg char, step]
        simp [letter]
      · rw [if_pos letter]
        simp [letter, pure, Except.pure]

/-- What the screen can show. -/
def Printable (c : UInt8) : Prop := 0x20 ≤ c ∧ c ≤ 0x7e

instance (c : UInt8) : Decidable (Printable c) := inferInstanceAs (Decidable (_ ∧ _))

theorem displayable_eq (front message : Bytes) :
    message_is_displayable (front ++ message) front.length message.length = .ok (message.all fun c => Printable c) := by
  induction message generalizing front with
  | nil => rfl
  | cons c message ih =>
    have step := ih (front ++ [c])
    rw [List.length_append, List.length_singleton, ← front_snoc] at step
    rw [List.length_cons, message_is_displayable, byteAt_front, Check.ok_bind]
    by_cases printable : Printable c
    · have inside : ¬ (c < 0x20 ∨ 0x7e < c) := by
        rw [not_or, UInt8.not_lt, UInt8.not_lt]
        exact printable
      rw [if_neg inside, step, List.all_cons, decide_eq_true printable, Bool.true_and]
    · have outside : c < 0x20 ∨ 0x7e < c := by
        rw [Printable, not_and_or, UInt8.not_le, UInt8.not_le] at printable
        exact printable
      rw [if_pos outside, List.all_cons, decide_eq_false printable, Bool.false_and]
      rfl

theorem precisionText_eq (front message : Bytes) (no_nul : 0 ∉ message) :
    precisionText (front ++ message) front.length message.length = .ok message := by
  induction message generalizing front with
  | nil => rfl
  | cons c message ih =>
    have step := ih (front ++ [c]) fun nul => no_nul (List.mem_cons_of_mem c nul)
    rw [List.length_append, List.length_singleton, ← front_snoc] at step
    rw [List.length_cons, precisionText, byteAt_front, Check.ok_bind,
      if_neg fun zero => no_nul (List.mem_cons.mpr (.inl zero.symm)), step]
    rfl

/-! ### The form of a file -/

/-- The character behind a keyword does not stand in it. -/
theorem keyword_plain {literal word : Bytes} {c : UInt8} (fixed : tolower c = c) (apart : c ∉ literal)
    (same : word.map tolower = literal) : c ∉ word := by
  intro inside
  have lowered : tolower c ∈ word.map tolower := List.mem_map_of_mem inside
  rw [fixed, same] at lowered
  exact apart lowered

theorem readKeyword_spec {literal : Bytes} {c : UInt8} {errmsg : String} (lower : literal.map tolower = literal)
    (no_nul : 0 ∉ literal) (fixed : tolower c = c) (apart : c ∉ literal) (front rest : Bytes) :
    (∃ word after, rest = word ++ c :: after ∧ word.map tolower = literal ∧
      readKeyword literal c errmsg (front ++ rest) front.length = .ok (front.length + word.length + 1)) ∨
    (∀ word after, rest = word ++ c :: after → word.map tolower ≠ literal) ∧
      readKeyword literal c errmsg (front ++ rest) front.length = reject CBOR_RPC_BAD_PARAMETERS errmsg := by
  have size : (front ++ rest).length - front.length = rest.length := by
    rw [List.length_append, Nat.add_sub_cancel_left]
  by_cases inside : c ∈ rest
  · obtain ⟨word, after, rfl, absent⟩ := List.eq_append_cons_of_mem inside
    have found : readKeyword literal c errmsg (front ++ (word ++ c :: after)) front.length =
        if word.length ≠ literal.length then reject CBOR_RPC_BAD_PARAMETERS errmsg
        else strncasecmp (front ++ (word ++ c :: after)) front.length literal word.length >>= fun said =>
          if said = true then pure (front.length + word.length + 1)
          else reject CBOR_RPC_BAD_PARAMETERS errmsg := by
      rw [readKeyword, size, List.length_append, List.length_cons, memchr_found absent, Check.ok_bind]
      simp only [Nat.add_sub_cancel_left]
    by_cases same : word.map tolower = literal
    · have length : word.length = literal.length := by rw [← same, List.length_map]
      refine .inl ⟨word, after, rfl, same, ?_⟩
      rw [found, if_neg (fun differ => differ length), strncasecmp_eq no_nul length, Check.ok_bind, lower, same,
        if_pos (decide_eq_true rfl)]
      rfl
    · refine .inr ⟨?_, ?_⟩
      · intro word' after' split same'
        obtain ⟨rfl, -⟩ := split_unique (keyword_plain fixed apart same') absent split
        exact same same'
      · rw [found]
        split
        case isTrue => rfl
        case isFalse length =>
          rw [strncasecmp_eq no_nul (Decidable.not_not.mp length), Check.ok_bind, lower, if_neg (by simpa using same)]
  · refine .inr ⟨?_, ?_⟩
    · rintro word after rfl
      exact absurd (List.mem_append_right word List.mem_cons_self) inside
    · rw [readKeyword, size, memchr_absent inside, Check.ok_bind]

section
variable (lib : Library)

/-- The libraries as they are documented, for what is asked of them here: a path written with `/`, decimal numbers and
    `'` is read as its elements, a message that can be displayed has a hash, and texts have their lengths. -/
structure Library.Correct : Prop where
  reads_path : ∀ elements : List (Nat × Bool), elements ≠ [] → elements.length ≤ MAX_PATH_LEN →
    (∀ element ∈ elements, element.1 < 2 ^ 31) →
    lib.bip32_path_from_str_n ('m'.toUInt8 :: elements.flatMap fun element =>
      '/'.toUInt8 :: decimal element.1 ++ if element.2 then ['\''.toUInt8] else []) =
      some (elements.map fun element => if element.2 then harden (UInt32.ofNat element.1) else UInt32.ofNat element.1)
  hashes : ∀ message : Bytes, message ≠ [] → message.length < MAX_DISPLAY_MESSAGE_LEN →
    ∃ hash, lib.format_bitcoin_message message = some hash ∧ hash.length = SHA256_LEN
  hex_length : ∀ bytes : Bytes, (lib.hex_from_bytes bytes).length = 2 * bytes.length
  ec_sig_length : ∀ path hash signature, lib.ec_sig_from_bytes path hash = some signature →
    signature.length = EC_SIGNATURE_RECOVERABLE_LEN
  ae_sig_length : ∀ path hash entropy signature, lib.ae_sig_from_bytes path hash entropy = some signature →
    signature.length = EC_SIGNATURE_LEN
  base64_length : ∀ bytes : Bytes, (lib.base64_encode bytes).length = 4 * ((bytes.length + 2) / 3)

/-- The form of a file: a keyword, the text of a path, a keyword and the message. -/
structure FileForm (str : Bytes) (path : Path) (message keyword text label : Bytes) : Prop where
  command : keyword.map tolower = SIGN_MESSAGE_FILE_PREFIX
  no_space : ' '.toUInt8 ∉ text
  encoding : label.map tolower = SIGN_MESSAGE_FILE_LABEL_ASCII
  bytes : str = keyword ++ ' '.toUInt8 :: (text ++ ' '.toUInt8 :: (label ++ ':'.toUInt8 :: message))
  reads : lib.bip32_path_from_str_n text = some path
  not_root : path ≠ []
  fits : path.length ≤ MAX_PATH_LEN

/-- The file asks for a message to be signed with the key at a path. -/
def InFile (str : Bytes) (path : Path) (message : Bytes) : Prop :=
  ∃ keyword text label, FileForm lib str path message keyword text label

end

/-- The screen can show the message in full. -/
structure Displayable (message : Bytes) : Prop where
  not_empty : message ≠ []
  short : message.length < MAX_DISPLAY_MESSAGE_LEN
  printable : ∀ c ∈ message, Printable c

/-! ### The text of the path -/

theorem hardened_bit (n : UInt32) : n &&& 0x80000000 = 0 ∨ n &&& 0x80000000 = 0x80000000 := by
  have bit := Nat.and_two_pow n.toNat 31
  revert bit
  cases n.toNat.testBit 31 with
  | false =>
    intro bit
    refine .inl (UInt32.toNat_inj.mp ?_)
    rw [UInt32.toNat_and]
    exact bit
  | true =>
    intro bit
    refine .inr (UInt32.toNat_inj.mp ?_)
    rw [UInt32.toNat_and]
    exact bit

/-- A number is put together again from its parts. -/
theorem rejoined (n : UInt32) : (if ishardened n then harden (unharden n) else unharden n) = n := by
  have whole : n &&& 0x7fffffff ||| n &&& 0x80000000 = n := by
    apply UInt32.toNat_inj.mp
    rw [UInt32.toNat_or, UInt32.toNat_and, UInt32.toNat_and, ← Nat.and_or_distrib_left]
    exact (Nat.and_two_pow_sub_one_eq_mod n.toNat 32).trans (Nat.mod_eq_of_lt n.toNat_lt)
  rcases hardened_bit n with soft | hard
  · rw [soft, UInt32.or_zero] at whole
    rw [ishardened, soft, if_neg (by decide), unharden, whole]
  · rw [hard] at whole
    rw [ishardened, hard, if_pos (by decide), unharden, harden, whole]

theorem unharden_small (n : UInt32) : (unharden n).toNat < 2 ^ 31 := by
  rw [unharden, UInt32.toNat_and]
  exact Nat.and_lt_two_pow _ (by decide)

theorem element_text (n : UInt32) : ascii (pathElement false n) =
    '/'.toUInt8 :: decimal (unharden n).toNat ++ if ishardened n then ['\''.toUInt8] else [] := by
  have digits : ascii (Nat.repr (unharden n).toNat) = decimal (unharden n).toNat := by simp [ascii, decimal]
  rw [pathElement, Multisig.ascii_append, Multisig.ascii_append, apply_ite ascii (ishardened n = true), digits]
  rfl

section
variable {lib : Library} (correct : lib.Correct)
include correct

/-- The text of a path fits and is read back. -/
theorem path_shown {path : Path} (not_root : path ≠ []) (fits : path.length ≤ MAX_PATH_LEN) :
    ∃ pathstr, wallet_bip32_path_as_str path (MAX_PATH_STR_LEN MAX_PATH_LEN) false = some pathstr ∧
      lib.bip32_path_from_str_n (ascii pathstr) = some path := by
  have room : "m".length + 12 * path.length < MAX_PATH_STR_LEN MAX_PATH_LEN := by
    simp only [MAX_PATH_LEN] at fits
    rw [show MAX_PATH_STR_LEN MAX_PATH_LEN = 194 from rfl, show "m".length = 1 from rfl]
    omega
  obtain ⟨pathstr, written⟩ : ∃ text, wallet_bip32_path_as_str path (MAX_PATH_STR_LEN MAX_PATH_LEN) false = some text :=
    pathAsStrFrom_isSome room
  refine ⟨pathstr, written, ?_⟩
  let elements := path.map fun n => ((unharden n).toNat, ishardened n)
  have text : ascii pathstr = 'm'.toUInt8 :: elements.flatMap fun element =>
      '/'.toUInt8 :: decimal element.1 ++ if element.2 then ['\''.toUInt8] else [] := by
    rw [Multisig.path_as_str_text written, Multisig.pathText, List.flatMap_map]
    simp only [element_text]
  have back : (elements.map fun element =>
      if element.2 then harden (UInt32.ofNat element.1) else UInt32.ofNat element.1) = path := by
    rw [List.map_map]
    refine List.map_id'' (fun n => ?_) path
    show (if ishardened n then harden (UInt32.ofNat (unharden n).toNat) else UInt32.ofNat (unharden n).toNat) = n
    rw [UInt32.ofNat_toNat, rejoined]
  rw [text, correct.reads_path elements (by simpa [elements] using not_root) (by simpa [elements] using fits) ?_, back]
  intro element listed
  obtain ⟨n, -, rfl⟩ := List.mem_map.mp listed
  exact unharden_small n

theorem readPath_spec (front rest : Bytes) :
    (∃ text after path pathstr, rest = text ++ ' '.toUInt8 :: after ∧ ' '.toUInt8 ∉ text ∧
      lib.bip32_path_from_str_n text = some path ∧ path ≠ [] ∧ path.length ≤ MAX_PATH_LEN ∧
      lib.bip32_path_from_str_n pathstr = some path ∧
      readPath lib (front ++ rest) front.length = .ok ((path, pathstr), front.length + text.length + 1)) ∨
    (∀ text after path, rest = text ++ ' '.toUInt8 :: after → ' '.toUInt8 ∉ text →
      lib.bip32_path_from_str_n text = some path → path ≠ [] → ¬ path.length ≤ MAX_PATH_LEN) ∧
      readPath lib (front ++ rest) front.length = reject CBOR_RPC_BAD_PARAMETERS "Invalid bip32 path" := by
  have size : (front ++ rest).length - front.length = rest.length := by
    rw [List.length_append, Nat.add_sub_cancel_left]
  by_cases inside : ' '.toUInt8 ∈ rest
  · obtain ⟨text, after, rfl, absent⟩ := List.eq_append_cons_of_mem inside
    have only : ∀ text' after', text ++ ' '.toUInt8 :: after = text' ++ ' '.toUInt8 :: after' → ' '.toUInt8 ∉ text' →
        text = text' := fun text' after' same absent' => (split_unique absent' absent same).1
    rw [readPath, size, List.length_append, List.length_cons, memchr_found absent, Check.ok_bind]
    simp only [Nat.add_sub_cancel_left, slice_front, Check.ok_bind, wallet_bip32_path_from_str]
    cases read : lib.bip32_path_from_str_n text with
    | none =>
      refine .inr ⟨?_, rfl⟩
      intro text' after' path same absent' read'
      rw [← only text' after' same absent', read] at read'
      cases read'
    | some path =>
      by_cases fits : path.length ≤ MAX_PATH_LEN
      · simp only [if_neg (Nat.not_lt.mpr fits)]
        by_cases root : path = []
        · refine .inr ⟨?_, if_pos root⟩
          intro text' after' path' same absent' read' not_root'
          rw [← only text' after' same absent', read] at read'
          exact absurd root (Option.some.inj read' ▸ not_root')
        · obtain ⟨pathstr, written, back⟩ := path_shown correct root fits
          refine .inl ⟨text, after, path, ascii pathstr, rfl, absent, read, root, fits, back, ?_⟩
          rw [if_neg root, written]
          rfl
      · simp only [if_pos (Nat.not_le.mp fits)]
        refine .inr ⟨?_, trivial⟩
        intro text' after' path' same absent' read' _
        rw [← only text' after' same absent', read] at read'
        exact Option.some.inj read' ▸ fits
  · refine .inr ⟨?_, ?_⟩
    · rintro text after path rfl
      exact absurd (List.mem_append_right text List.mem_cons_self) inside
    · rw [readPath, size, memchr_absent inside, Check.ok_bind]

end

theorem readMessage_spec (front message : Bytes) :
    (Displayable message ∧ readMessage (front ++ message) front.length = .ok message.length) ∨
    (¬ Displayable message ∧ ∃ errmsg, readMessage (front ++ message) front.length = reject CBOR_RPC_BAD_PARAMETERS errmsg) := by
  have size : (front ++ message).length - front.length = message.length := by
    rw [List.length_append, Nat.add_sub_cancel_left]
  cases message with
  | nil =>
    refine .inr ⟨fun displayable => displayable.not_empty rfl, "Invalid message bytes", ?_⟩
    rw [readMessage, if_pos (by simp)]
  | cons c message =>
    rw [readMessage, if_neg (by simp), byteAt_front, Check.ok_bind, size]
    by_cases nul : c = 0
    · refine .inr ⟨fun displayable => ?_, "Invalid message bytes", if_pos nul⟩
      have printable := displayable.printable c List.mem_cons_self
      rw [nul] at printable
      exact absurd printable.1 (by decide)
    · rw [if_neg nul]
      by_cases short : (c :: message).length < MAX_DISPLAY_MESSAGE_LEN
      · rw [if_neg (Nat.not_le.mpr short), displayable_eq, Check.ok_bind]
        by_cases printable : ∀ d ∈ c :: message, Printable d
        · exact .inl ⟨⟨List.cons_ne_nil c message, short, printable⟩, if_pos (by simpa using printable)⟩
        · exact .inr ⟨fun displayable => printable displayable.printable,
            "Message contains a character the screen cannot show", if_neg (by simpa using printable)⟩
      · exact .inr ⟨fun displayable => short displayable.short, "Message too long to display",
          if_pos (Nat.not_lt.mp short)⟩

end PiJade.SignMessage
