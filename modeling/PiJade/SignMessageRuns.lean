import PiJade.Sha256
import PiJade.SignMessageFields

/-!
What is signed was shown. A file is read to its message exactly if it is of the one form; a message and path that are
read are shown in full before they are signed.
-/
namespace PiJade.SignMessage
open Text Wallet
open SettingsCodec (ascii)
set_option linter.unusedSimpArgs false

/-! ### Shown and signed -/

theorem page_eq {text : Bytes} (fits : text.length ≤ SIGN_MESSAGE_MAX_DISPLAY_LEN) :
    messagePage text = .ok ('\n'.toUInt8 :: text) := by
  rw [messagePage, decide_eq_true (by omega : text.length + 1 < 1 + SIGN_MESSAGE_MAX_DISPLAY_LEN + 1)]
  rfl

/-- The message screens hold the message. -/
theorem pages_spec {message : Bytes} (short : message.length < MAX_DISPLAY_MESSAGE_LEN) :
    ∃ pages, make_sign_message_activities message = .ok pages ∧ (pages.map List.tail).flatten = message := by
  rw [make_sign_message_activities, decide_eq_true (Nat.le_of_lt short), Check.ensure_true, Check.ok_bind]
  by_cases one : message.length ≤ SIGN_MESSAGE_MAX_DISPLAY_LEN
  · rw [if_pos one, page_eq one]
    exact ⟨_, rfl, List.append_nil message⟩
  · have rest : (message.drop SIGN_MESSAGE_MAX_DISPLAY_LEN).length ≤ SIGN_MESSAGE_MAX_DISPLAY_LEN := by
      simp only [List.length_drop, SIGN_MESSAGE_MAX_DISPLAY_LEN, MAX_DISPLAY_MESSAGE_LEN] at short ⊢
      omega
    rw [if_neg one, page_eq (List.length_take_le _ _), Check.ok_bind, page_eq rest]
    refine ⟨_, rfl, ?_⟩
    show message.take SIGN_MESSAGE_MAX_DISPLAY_LEN ++ (message.drop SIGN_MESSAGE_MAX_DISPLAY_LEN ++ []) = message
    rw [List.append_nil, List.take_append_drop]

theorem groupedHash_length {hashhex : Bytes} (size : hashhex.length = 2 * SHA256_LEN) : (groupedHash hashhex).length = 78 := by
  have gap : (ascii "  ").length = 2 := rfl
  rw [SHA256_LEN] at size
  simp only [groupedHash, List.range, List.range.loop, List.map_cons, List.map_nil, List.intercalate, List.intersperse,
    List.flatten_cons, List.flatten_nil, List.length_append, List.length_take, List.length_drop, List.length_nil, size, gap]
  rfl

/-- The screen shows the message in full, and a text that is read as the path. -/
structure Screen.Shows (lib : Library) (screen : Screen) (path : Path) (message : Bytes) : Prop where
  text : screen.message = message
  whole : (screen.pages.map List.tail).flatten = message
  reads : lib.bip32_path_from_str_n screen.path = some path

section
variable {lib : Library} {user : Screen → Bool} {log : List Event} {halts : Halt Stop → List Event → Prop}
  (correct : lib.Correct)
include correct

theorem wp_confirm {front message hash pathstr : Bytes} {path : Path} {post : Bool → List Event → Prop}
    (displayable : Displayable message) (hashed : hash.length = SHA256_LEN)
    (back : lib.bip32_path_from_str_n pathstr = some path)
    (next : ∀ screen : Screen, screen.Shows lib path message → post (user screen) (log ++ [.shown screen])) :
    Proc.wp (confirm_sign_message lib user (front ++ message) front.length message.length hash pathstr) post halts log := by
  have no_nul : 0 ∉ message := fun nul => absurd (displayable.printable 0 nul).1 (by decide)
  have hex : (lib.hex_from_bytes hash).length = 2 * SHA256_LEN := by rw [correct.hex_length, hashed]
  have all : message.take (MAX_DISPLAY_MESSAGE_LEN - 1) = message :=
    List.take_of_length_le (Nat.le_sub_one_of_lt displayable.short)
  obtain ⟨pages, made, whole⟩ := pages_spec displayable.short
  rw [confirm_sign_message, Proc.wp_bind, Proc.wp_ensure, if_pos (by simpa using hashed), Proc.wp_bind, Proc.wp_ensure,
    if_pos (decide_eq_true displayable.short), precisionText_eq front message no_nul, Proc.wp_bind, Proc.wp_ok,
    Proc.wp_bind, Proc.wp_ensure, if_pos (by simp), all, show_sign_message_activity, Proc.wp_bind, Proc.wp_ensure,
    if_pos (by simpa using hex), Proc.wp_bind, Proc.wp_ensure, groupedHash_length hex, if_pos (by decide), made,
    Proc.wp_bind, Proc.wp_ok, Proc.wp_bind, Proc.wp_update, Proc.wp_pure]
  exact next _ ⟨rfl, whole, back⟩

theorem wp_sign {hash : Bytes} {path : Path} {entropy : Option Bytes} {output_len : Nat}
    {post : Option Bytes → List Event → Prop} (not_root : path ≠ []) (hashed : hash.length = SHA256_LEN)
    (room : EC_SIGNATURE_LEN * 2 ≤ output_len) (sized : ∀ bytes, entropy = some bytes → bytes.length = WALLY_S2C_DATA_LEN)
    (failed : signatureOf lib hash path entropy = none → post none log) (made : signatureOf lib hash path entropy ≠ none →
      ∀ encoded : Bytes, encoded.length + 1 < EC_SIGNATURE_LEN * 2 → post (some (encoded ++ [0])) (log ++ [.signed hash path entropy])) :
    Proc.wp (wallet_sign_message_hash lib hash path entropy output_len) post halts log := by
  have encodes : signatureOf lib hash path entropy ≠ none →
      ∀ signature : Bytes, signature.length ≤ EC_SIGNATURE_RECOVERABLE_LEN → Proc.wp (do
        Proc.update fun log => log ++ [.signed hash path entropy]
        Proc.lift (Check.ensure ((lib.base64_encode signature).length < output_len))
        pure (some (lib.base64_encode signature ++ [0])) : Sign (Option Bytes)) post halts log := by
    intro signs signature short
    have size : (lib.base64_encode signature).length + 1 < EC_SIGNATURE_LEN * 2 := by
      rw [correct.base64_length]
      simp only [EC_SIGNATURE_RECOVERABLE_LEN, EC_SIGNATURE_LEN] at short ⊢
      omega
    rw [Proc.wp_bind, Proc.wp_update, Proc.wp_bind, Proc.wp_ensure,
      if_pos (decide_eq_true (Nat.lt_of_lt_of_le (Nat.lt_of_succ_lt size) room)), Proc.wp_pure]
    exact made signs _ size
  have entropies : ¬ (entropy.any fun bytes => bytes.length ≠ WALLY_S2C_DATA_LEN) = true := by
    cases entropy with
    | none => simp
    | some bytes => simp [sized bytes rfl]
  rw [wallet_sign_message_hash, if_neg (by simp [not_root, hashed, room]), if_neg entropies]
  cases signs : signatureOf lib hash path entropy with
  | none => exact failed signs
  | some signature =>
    refine encodes (by simp [signs]) signature ?_
    cases entropy with
    | none => exact Nat.le_of_eq (correct.ec_sig_length path hash signature signs)
    | some bytes =>
      rw [correct.ae_sig_length path hash bytes signature signs]
      decide

end

/-! ### What a run owes -/

section
variable (lib : Library) (user : Screen → Bool) (Asked Auto : Path → Bytes → Prop)

/-- No assertion fails and nothing is read behind the input. A signature is that of a message that was asked for, shown in
    full with its path and confirmed, or one of those signed without asking; what is asked for and can be shown is. -/
structure Faithful (outcome : Check Stop Bytes × List Event) : Prop where
  returns : outcome.1 ≠ .error .abort ∧ outcome.1 ≠ .error (.error .out_of_bounds)
  signs : ∀ hash path entropy, Event.signed hash path entropy ∈ outcome.2 →
    ∃ message, lib.format_bitcoin_message message = some hash ∧ (Auto path message ∨
      Asked path message ∧ Displayable message ∧ ∃ screen, Event.shown screen ∈ outcome.2 ∧
        screen.Shows lib path message ∧ user screen = true)
  signature : ∀ signature, outcome.1 = .ok signature → ∃ hash path entropy, Event.signed hash path entropy ∈ outcome.2
  offers : ∀ path message, Asked path message → Displayable message →
    ∃ screen, Event.shown screen ∈ outcome.2 ∧ screen.Shows lib path message

variable {lib user Asked Auto}

theorem faithful_of_wp {task : Sign Bytes}
    (holds : Proc.wp task (fun signature log => Faithful lib user Asked Auto (.ok signature, log))
      (fun halt log => Faithful lib user Asked Auto (.error halt, log)) []) : Faithful lib user Asked Auto (task []) := by
  revert holds
  rw [Proc.wp]
  rcases task [] with ⟨halt | signature, log⟩
  · exact fun holds => holds
  · exact fun holds => holds

theorem faithful_refused {code : Int} {errmsg : String} (nothing : ∀ path message, Asked path message → ¬ Displayable message) :
    Faithful lib user Asked Auto (.error (.error (.reject code errmsg)), []) where
  returns := ⟨by simp, by simp⟩
  signs _ _ _ listed := by cases listed
  signature _ impossible := by cases impossible
  offers path message asked displayable := absurd displayable (nothing path message asked)

section
variable {path : Path} {message : Bytes} {screen : Screen}
  (only : ∀ path' message', Asked path' message' → path' = path ∧ message' = message)
  (shows : screen.Shows lib path message)
include only shows

theorem faithful_declined {code : Int} {errmsg : String} :
    Faithful lib user Asked Auto (.error (.error (.reject code errmsg)), [.shown screen]) where
  returns := ⟨by simp, by simp⟩
  signs _ _ _ listed := by simp at listed
  signature _ impossible := by cases impossible
  offers path' message' asked _ := by
    obtain ⟨rfl, rfl⟩ := only path' message' asked
    exact ⟨screen, List.mem_cons_self, shows⟩

theorem faithful_signed {result : Check Stop Bytes} {hash : Bytes} {entropy : Option Bytes}
    (returns : result ≠ .error .abort ∧ result ≠ .error (.error .out_of_bounds))
    (hashed : lib.format_bitcoin_message message = some hash) (asked : Asked path message)
    (displayable : Displayable message) (confirmed : user screen = true) :
    Faithful lib user Asked Auto (result, [.shown screen, .signed hash path entropy]) where
  returns := returns
  signs hash' path' entropy' listed := by
    simp only [List.mem_cons, reduceCtorEq, Event.signed.injEq, List.not_mem_nil, or_false, false_or] at listed
    obtain ⟨rfl, rfl, rfl⟩ := listed
    exact ⟨message, hashed, .inr ⟨asked, displayable, screen, List.mem_cons_self, shows, confirmed⟩⟩
  signature _ _ := ⟨hash, path, entropy, List.mem_cons_of_mem _ List.mem_cons_self⟩
  offers path' message' asked' _ := by
    obtain ⟨rfl, rfl⟩ := only path' message' asked'
    exact ⟨screen, List.mem_cons_self, shows⟩

end

theorem faithful_auto {path : Path} {message hash signature : Bytes} {entropy : Option Bytes}
    (nothing : ∀ path message, Asked path message → ¬ Displayable message)
    (hashed : lib.format_bitcoin_message message = some hash) (auto : Auto path message) :
    Faithful lib user Asked Auto (.ok signature, [.signed hash path entropy]) where
  returns := ⟨by simp, by simp⟩
  signs hash' path' entropy' listed := by
    simp only [List.mem_singleton, Event.signed.injEq] at listed
    obtain ⟨rfl, rfl, rfl⟩ := listed
    exact ⟨message, hashed, .inl auto⟩
  signature _ _ := ⟨hash, path, entropy, List.mem_cons_self⟩
  offers path' message' asked displayable := absurd displayable (nothing path' message' asked)

end

/-! ### Files -/

/-- Text that goes into a reply. -/
structure Terminated (signature : Bytes) : Prop where
  not_empty : signature.length ≠ 0
  short : signature.length < EC_SIGNATURE_LEN * 2
  terminator : signature.getLast? = some 0

theorem terminated_encoded {encoded : Bytes} (short : encoded.length + 1 < EC_SIGNATURE_LEN * 2) : Terminated (encoded ++ [0]) where
  not_empty := by simp
  short := by simpa using short
  terminator := by simp

theorem prefix_plain {keyword : Bytes} (said : keyword.map tolower = SIGN_MESSAGE_FILE_PREFIX) : ' '.toUInt8 ∉ keyword :=
  keyword_plain (by decide) (by decide) said

theorem label_plain {label : Bytes} (said : label.map tolower = SIGN_MESSAGE_FILE_LABEL_ASCII) : ':'.toUInt8 ∉ label :=
  keyword_plain (by decide) (by decide) said

theorem readPrefix_spec (str : Bytes) :
    (∃ word after, str = word ++ ' '.toUInt8 :: after ∧ word.map tolower = SIGN_MESSAGE_FILE_PREFIX ∧
      readPrefix str = .ok (word.length + 1)) ∨
    (∀ word after, str = word ++ ' '.toUInt8 :: after → word.map tolower ≠ SIGN_MESSAGE_FILE_PREFIX) ∧
      readPrefix str = reject CBOR_RPC_BAD_PARAMETERS "Invalid prefix" := by
  have spec := @readKeyword_spec SIGN_MESSAGE_FILE_PREFIX ' '.toUInt8 "Invalid prefix" (by decide) (by decide) (by decide)
    (by decide) [] str
  simp only [List.length_nil, Nat.zero_add] at spec
  exact spec

theorem readLabel_spec (front rest : Bytes) :
    (∃ word after, rest = word ++ ':'.toUInt8 :: after ∧ word.map tolower = SIGN_MESSAGE_FILE_LABEL_ASCII ∧
      readLabel (front ++ rest) front.length = .ok (front.length + word.length + 1)) ∨
    (∀ word after, rest = word ++ ':'.toUInt8 :: after → word.map tolower ≠ SIGN_MESSAGE_FILE_LABEL_ASCII) ∧
      readLabel (front ++ rest) front.length = reject CBOR_RPC_BAD_PARAMETERS "Invalid message prefix" :=
  readKeyword_spec (by decide) (by decide) (by decide) (by decide) front rest

section
variable {lib : Library} {user : Screen → Bool} {str : Bytes}

/-- A file has one reading. -/
theorem file_unique {path path' : Path} {message message' : Bytes} (asked : InFile lib str path message)
    (asked' : InFile lib str path' message') : path' = path ∧ message' = message := by
  obtain ⟨keyword, text, label, form⟩ := asked
  obtain ⟨keyword', text', label', form'⟩ := asked'
  have same := form.bytes.symm.trans form'.bytes
  obtain ⟨rfl, -, behind⟩ := split_unique (prefix_plain form'.command) (prefix_plain form.command) same
  obtain ⟨rfl, -, behind⟩ := split_unique form'.no_space form.no_space behind
  obtain ⟨rfl, -, rfl⟩ := split_unique (label_plain form'.encoding) (label_plain form.encoding) behind
  exact ⟨Option.some.inj (form'.reads.symm.trans form.reads), rfl⟩

theorem file_eq (keyword text label message : Bytes) :
    keyword ++ ' '.toUInt8 :: (text ++ ' '.toUInt8 :: (label ++ ':'.toUInt8 :: message)) =
      keyword ++ [' '.toUInt8] ++ text ++ [' '.toUInt8] ++ label ++ [':'.toUInt8] ++ message := by simp

/-- Where the pointer is after each field. -/
theorem behind_field (front word : Bytes) (c : UInt8) : front.length + word.length + 1 = (front ++ word ++ [c]).length := by
  rw [List.length_append, List.length_append, List.length_singleton]

theorem hash_spec (correct : lib.Correct) {message : Bytes} (not_empty : message ≠ [])
    (fits : message.length < MAX_DISPLAY_MESSAGE_LEN) :
    ∃ hash, wallet_get_message_hash lib message = some hash ∧ lib.format_bitcoin_message message = some hash ∧
      hash.length = SHA256_LEN := by
  obtain ⟨hash, made, size⟩ := correct.hashes message not_empty fits
  refine ⟨hash, ?_, made, size⟩
  rw [wallet_get_message_hash, if_neg (by simpa using not_empty), made]
  exact if_neg fun differ => differ size

/-- A file that is refused is refused faithfully. It was not one that asks for a message which can be shown and signed,
    or the user has declined. -/
structure Refused (lib : Library) (user : Screen → Bool) (str : Bytes) (halt : Halt Stop) (log : List Event) : Prop where
  faithful : Faithful lib user (InFile lib str) (fun _ _ => False) (.error halt, log)
  unsigned : ∀ path message hash, InFile lib str path message → Displayable message →
    lib.format_bitcoin_message message = some hash → lib.ec_sig_from_bytes path hash ≠ none →
    ∃ screen, user screen = false

/-- A file that is signed asks for a message which can be shown. The signature is text for a reply, and the run so far is
    faithful however it goes on, if nothing fails. -/
structure Produced (lib : Library) (user : Screen → Bool) (str signature : Bytes) (log : List Event) : Prop where
  terminated : Terminated signature
  faithful (result : Check Stop Bytes) : result ≠ .error .abort ∧ result ≠ .error (.error .out_of_bounds) →
    Faithful lib user (InFile lib str) (fun _ _ => False) (result, log)
  made : ∃ path message hash, InFile lib str path message ∧ Displayable message ∧
    lib.format_bitcoin_message message = some hash ∧ lib.ec_sig_from_bytes path hash ≠ none

theorem refused_unread {code : Int} {errmsg : String} (nothing : ∀ path message, InFile lib str path message → ¬ Displayable message) :
    Refused lib user str (.error (.reject code errmsg)) [] where
  faithful := faithful_refused nothing
  unsigned path message _ asked displayable := absurd displayable (nothing path message asked)

theorem wp_message (correct : lib.Correct) {front message pathstr : Bytes} {path : Path} {sig_len : Nat}
    (room : EC_SIGNATURE_LEN * 2 ≤ sig_len) (displayable : Displayable message)
    (asked : InFile lib (front ++ message) path message) (not_root : path ≠ [])
    (back : lib.bip32_path_from_str_n pathstr = some path) :
    Proc.wp (signMessage lib user (front ++ message) front.length message.length path pathstr sig_len)
      (Produced lib user (front ++ message)) (Refused lib user (front ++ message)) [] := by
  have only : ∀ path' message', InFile lib (front ++ message) path' message' → path' = path ∧ message' = message :=
    fun _ _ asked' => file_unique asked asked'
  obtain ⟨hash, hashes, made, size⟩ := hash_spec correct displayable.not_empty displayable.short
  rw [signMessage, slice_end, Proc.wp_bind, Proc.wp_ok, hashes]
  dsimp only
  rw [Proc.wp_bind]
  apply wp_confirm correct displayable size back
  intro screen shows
  cases confirmed : user screen with
  | false => exact ⟨faithful_declined only shows, fun _ _ _ _ _ _ _ => ⟨screen, confirmed⟩⟩
  | true =>
    rw [if_pos rfl, Proc.wp_bind]
    apply wp_sign correct not_root size room (fun _ impossible => by cases impossible)
    · intro failed
      refine ⟨faithful_declined only shows, fun path' message' hash' asked' _ hashed signs => ?_⟩
      obtain ⟨rfl, rfl⟩ := only path' message' asked'
      obtain rfl := Option.some.inj (made.symm.trans hashed)
      exact absurd failed signs
    · intro signs encoded short
      exact ⟨terminated_encoded short, fun result returns =>
        faithful_signed only shows returns made asked displayable confirmed, path, message, hash, asked, displayable, made, signs⟩

theorem wp_file (correct : lib.Correct) (some_text : str ≠ []) {sig_len : Nat} (room : EC_SIGNATURE_LEN * 2 ≤ sig_len) :
    Proc.wp (sign_message_file lib user str sig_len)
      (Produced lib user str) (Refused lib user str) [] := by
  rw [sign_message_file, Proc.wp_bind, Proc.wp_ensure, if_pos (by simpa using some_text), Proc.wp_bind, Proc.wp_ensure,
    if_pos (decide_eq_true room), Proc.wp_bind]
  rcases readPrefix_spec str with ⟨keyword, after, rfl, said, read⟩ | ⟨never, read⟩
  case inr =>
    rw [read]
    refine refused_unread ?_
    rintro path message ⟨keyword, text, label, form⟩ -
    exact never keyword _ form.bytes form.command
  have path_start : keyword ++ ' '.toUInt8 :: after = keyword ++ [' '.toUInt8] ++ after := front_snoc ..
  rw [read, Proc.wp_ok, Proc.wp_bind, show keyword.length + 1 = (keyword ++ [' '.toUInt8]).length by simp, path_start]
  rcases readPath_spec correct (keyword ++ [' '.toUInt8]) after with
    ⟨text, after, path, pathstr, rfl, no_space, reads, not_root, fits, back, read⟩ | ⟨never, read⟩
  case inr =>
    rw [read]
    refine refused_unread ?_
    rintro path message ⟨keyword', text, label, form⟩ -
    obtain ⟨rfl, -, rfl⟩ := split_unique (prefix_plain form.command) (prefix_plain said) (path_start.trans form.bytes)
    exact never text _ path rfl form.no_space form.reads form.not_root form.fits
  have parts : ∀ {path' message}, InFile lib (keyword ++ [' '.toUInt8] ++ text ++ [' '.toUInt8] ++ after) path' message →
      ∃ label, label.map tolower = SIGN_MESSAGE_FILE_LABEL_ASCII ∧ after = label ++ ':'.toUInt8 :: message := by
    rintro path' message ⟨keyword', text', label, form⟩
    have same : keyword ++ ' '.toUInt8 :: (text ++ ' '.toUInt8 :: after) =
        keyword' ++ ' '.toUInt8 :: (text' ++ ' '.toUInt8 :: (label ++ ':'.toUInt8 :: message)) := by
      rw [← form.bytes]
      simp
    obtain ⟨rfl, -, behind⟩ := split_unique (prefix_plain form.command) (prefix_plain said) same
    obtain ⟨rfl, -, rfl⟩ := split_unique form.no_space no_space behind
    exact ⟨label, form.encoding, rfl⟩
  rw [read, Proc.wp_ok]
  dsimp only
  rw [Proc.wp_bind, behind_field, show keyword ++ [' '.toUInt8] ++ (text ++ ' '.toUInt8 :: after) =
    keyword ++ [' '.toUInt8] ++ text ++ [' '.toUInt8] ++ after by simp]
  rcases readLabel_spec (keyword ++ [' '.toUInt8] ++ text ++ [' '.toUInt8]) after with
    ⟨label, message, rfl, label_said, read⟩ | ⟨never, read⟩
  case inr =>
    rw [read]
    refine refused_unread fun path message asked _ => ?_
    obtain ⟨label, said, rfl⟩ := parts asked
    exact never label message rfl said
  rw [read, Proc.wp_ok, Proc.wp_bind, behind_field, show keyword ++ [' '.toUInt8] ++ text ++ [' '.toUInt8] ++
    (label ++ ':'.toUInt8 :: message) = keyword ++ [' '.toUInt8] ++ text ++ [' '.toUInt8] ++ label ++ [':'.toUInt8] ++ message
    by simp]
  have asked : InFile lib (keyword ++ [' '.toUInt8] ++ text ++ [' '.toUInt8] ++ label ++ [':'.toUInt8] ++ message) path message :=
    ⟨keyword, text, label, said, no_space, label_said, (file_eq keyword text label message).symm, reads, not_root, fits⟩
  rcases readMessage_spec (keyword ++ [' '.toUInt8] ++ text ++ [' '.toUInt8] ++ label ++ [':'.toUInt8]) message with
    ⟨displayable, read⟩ | ⟨bad, errmsg, read⟩
  case inr =>
    rw [read]
    refine refused_unread fun path' message' asked' displayable => ?_
    obtain ⟨-, rfl⟩ := file_unique asked asked'
    exact bad displayable
  rw [read, Proc.wp_ok]
  exact wp_message correct room displayable asked not_root back

end

/-! ### A library -/

/-- The text between the slashes. -/
def segments : Bytes → List Bytes
  | [] => [[]]
  | c :: text =>
    if c = '/'.toUInt8 then [] :: segments text
    else
      match segments text with
      | [] => [[c]]
      | part :: parts => (c :: part) :: parts

/-- The marks of a hardened element. -/
def isMark (c : UInt8) : Bool := ['\''.toUInt8, 'h'.toUInt8, 'H'.toUInt8].contains c

/-- A decimal number below 2³¹, hardened if it is marked. -/
def readElement (text : Bytes) : Option UInt32 :=
  let marked := text.getLast?.any isMark
  let digits := if marked then text.dropLast else text
  if digits ≠ [] ∧ digits.all isdigit ∧ number digits < 2 ^ 31 then
    some (if marked then harden (UInt32.ofNat (number digits)) else UInt32.ofNat (number digits))
  else none

def readPathText (text : Bytes) : Option Path :=
  match segments text with
  | [] => none
  | root :: elements => if root = ['m'.toUInt8] ∨ root = ['M'.toUInt8] then elements.mapM readElement else none

/-- Signatures are zeros, and base64 is that of zeros. -/
def plainLibrary : Library where
  bip32_path_from_str_n := readPathText
  format_bitcoin_message message :=
    if message = [] then none
    else some (Sha256.hash (Sha256.hash
      (0x18 :: ascii "Bitcoin Signed Message:\n" ++ UInt8.ofNat message.length :: message)))
  hex_from_bytes bytes := bytes.flatMap fun b =>
    [ascii "0123456789abcdef" |>.getD (b.toNat / 16) 0, ascii "0123456789abcdef" |>.getD (b.toNat % 16) 0]
  ec_sig_from_bytes _ _ := some (List.replicate EC_SIGNATURE_RECOVERABLE_LEN 0)
  ae_sig_from_bytes _ _ _ := some (List.replicate EC_SIGNATURE_LEN 0)
  ae_signer_commit_from_bytes _ _ _ := some (List.replicate 33 0)
  base64_encode bytes := List.replicate (4 * ((bytes.length + 2) / 3)) 'A'.toUInt8

theorem segments_plain {part : Bytes} (plain : '/'.toUInt8 ∉ part) : segments part = [part] := by
  induction part with
  | nil => rfl
  | cons c part ih =>
    rw [segments, if_neg (List.ne_of_not_mem_cons plain).symm, ih (List.not_mem_of_not_mem_cons plain)]

theorem segments_slash {part : Bytes} (plain : '/'.toUInt8 ∉ part) (text : Bytes) :
    segments (part ++ '/'.toUInt8 :: text) = part :: segments text := by
  induction part with
  | nil => rw [List.nil_append, segments, if_pos rfl]
  | cons c part ih =>
    rw [List.cons_append, segments, if_neg (List.ne_of_not_mem_cons plain).symm, ih (List.not_mem_of_not_mem_cons plain)]

theorem segments_elements {root : Bytes} (plain : '/'.toUInt8 ∉ root) {parts : List Bytes}
    (plains : ∀ part ∈ parts, '/'.toUInt8 ∉ part) :
    segments (root ++ parts.flatMap ('/'.toUInt8 :: ·)) = root :: parts := by
  induction parts generalizing root with
  | nil => rw [List.flatMap_nil, List.append_nil, segments_plain plain]
  | cons part parts ih =>
    rw [List.flatMap_cons, List.cons_append, segments_slash plain, ih (plains part List.mem_cons_self)
      fun later listed => plains later (List.mem_cons_of_mem part listed)]

/-- The text of an element behind its slash. -/
def elementText (element : Nat × Bool) : Bytes := decimal element.1 ++ if element.2 then ['\''.toUInt8] else []

theorem elementText_plain (element : Nat × Bool) : '/'.toUInt8 ∉ elementText element := by
  rw [elementText, List.mem_append]
  rintro (digit | mark)
  · exact absurd (decimal_digits digit) (by decide)
  · split at mark
    · exact absurd mark (by decide)
    · cases mark

theorem readElement_text {element : Nat × Bool} (small : element.1 < 2 ^ 31) : readElement (elementText element) =
    some (if element.2 then harden (UInt32.ofNat element.1) else UInt32.ofNat element.1) := by
  have digits : decimal element.1 ≠ [] ∧ (decimal element.1).all isdigit = true ∧ number (decimal element.1) < 2 ^ 31 :=
    ⟨decimal_ne_nil element.1, List.all_eq_true.mpr fun c inside => decimal_digits inside, by rwa [number_decimal]⟩
  obtain ⟨n, hardened⟩ := element
  cases hardened with
  | true =>
    have marked : (elementText (n, true)).getLast?.any isMark = true := by
      simp only [elementText, if_true, List.getLast?_append, List.getLast?_singleton, Option.some_or, Option.any_some]
      rfl
    have front : (elementText (n, true)).dropLast = decimal n := List.dropLast_concat
    simp only [readElement, marked, if_true, front]
    rw [if_pos digits, number_decimal]
  | false =>
    have whole : elementText (n, false) = decimal n := List.append_nil _
    have unmarked : (decimal n).getLast?.any isMark = false := by
      rw [List.getLast?_eq_some_getLast (decimal_ne_nil n), Option.any_some]
      have digit := isdigit_iff.mp (decimal_digits (List.getLast_mem (decimal_ne_nil n)))
      simp only [isMark, List.contains_eq_mem, decide_eq_false_iff_not]
      intro mark
      simp only [List.mem_cons, List.not_mem_nil, or_false] at mark
      rcases mark with same | same | same
      · rw [same] at digit
        exact absurd digit (by decide)
      · rw [same] at digit
        exact absurd digit (by decide)
      · rw [same] at digit
        exact absurd digit (by decide)
    simp only [readElement, whole, unmarked, Bool.false_eq_true, if_false]
    rw [if_pos digits, number_decimal]

theorem readElements_text {elements : List (Nat × Bool)} (small : ∀ element ∈ elements, element.1 < 2 ^ 31) :
    (elements.map elementText).mapM readElement = some (elements.map fun element =>
      if element.2 then harden (UInt32.ofNat element.1) else UInt32.ofNat element.1) := by
  induction elements with
  | nil => rfl
  | cons element elements ih =>
    rw [List.map_cons, List.mapM_cons, readElement_text (small element List.mem_cons_self),
      ih fun later listed => small later (List.mem_cons_of_mem element listed)]
    rfl

theorem readPathText_elements {elements : List (Nat × Bool)} (small : ∀ element ∈ elements, element.1 < 2 ^ 31) :
    readPathText ('m'.toUInt8 :: elements.flatMap fun element =>
      '/'.toUInt8 :: decimal element.1 ++ if element.2 then ['\''.toUInt8] else []) =
      some (elements.map fun element => if element.2 then harden (UInt32.ofNat element.1) else UInt32.ofNat element.1) := by
  have parts : segments (['m'.toUInt8] ++ (elements.map elementText).flatMap ('/'.toUInt8 :: ·)) =
      ['m'.toUInt8] :: elements.map elementText := by
    refine segments_elements (by decide) fun part listed => ?_
    obtain ⟨element, -, rfl⟩ := List.mem_map.mp listed
    exact elementText_plain element
  rw [List.flatMap_map] at parts
  have text : segments ('m'.toUInt8 :: elements.flatMap fun element =>
      '/'.toUInt8 :: decimal element.1 ++ if element.2 then ['\''.toUInt8] else []) =
      ['m'.toUInt8] :: elements.map elementText := parts
  rw [readPathText, text]
  dsimp only
  rw [if_pos (.inl rfl), readElements_text small]

theorem hash_length (message : Bytes) : (Sha256.hash message).length = SHA256_LEN := by
  rw [Sha256.hash, Sha256.digest, Sha256.length_flatMap_beBytes]
  rfl

theorem plainLibrary_correct : plainLibrary.Correct where
  reads_path _ _ _ small := readPathText_elements small
  hashes message not_empty _ := ⟨_, if_neg not_empty, hash_length _⟩
  hex_length bytes := by
    show (bytes.flatMap _).length = _
    induction bytes with
    | nil => rfl
    | cons b bytes ih =>
      rw [List.flatMap_cons, List.length_append, ih]
      simp only [List.length_cons, List.length_nil]
      omega
  ec_sig_length _ _ _ made := by
    rw [← Option.some.inj made, List.length_replicate]
  ae_sig_length _ _ _ _ made := by
    rw [← Option.some.inj made, List.length_replicate]
  base64_length _ := List.length_replicate

def sampleFile : Bytes := ascii "SignMessage m/44h/0 ascii:hello"

end PiJade.SignMessage
