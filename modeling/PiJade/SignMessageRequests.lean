import PiJade.SignMessageRuns

/-!
Signing the message of a request. It is signed as the message of a file is, or as a login challenge, unless a field that is
asked for, or the id that is replied to, fails an assertion.
-/
namespace PiJade.SignMessage
open Text Wallet
open SettingsCodec (ascii)
set_option linter.unusedSimpArgs false

/-! ### What is asked for -/

/-- A message, a path below the root, and no commitment or one of its length. -/
structure Asks (request : Request) (path : Path) (message : Bytes) : Prop where
  no_file : request.message_file = none
  text : request.message = .ok message
  key : request.path = .ok (some path)
  not_root : path ≠ []
  commitment : ∀ field, request.ae_host_commitment = some field →
    ∃ bytes, field = .ok bytes ∧ bytes.length = WALLY_HOST_COMMITMENT_LEN

/-- What is to be shown. -/
def AskedOf (lib : Library) (request : Request) (path : Path) (message : Bytes) : Prop :=
  (∃ message_file, request.message_file = some (.ok message_file) ∧ InFile lib message_file path message) ∨
    Asks request path message ∧ isGdkLoginChallenge path message = false

/-- What is signed without asking. -/
def AutoOf (request : Request) (path : Path) (message : Bytes) : Prop :=
  Asks request path message ∧ isGdkLoginChallenge path message = true

/-- A field comes, or asking for it fails an assertion. -/
def Answers {α : Type} (field : Check CborRpc.Fault α) : Prop := (∃ a, field = .ok a) ∨ field = .error .abort

/-- So does each field of a request; the path always comes, and is no longer than there is room for. -/
structure Request.Answered (request : Request) : Prop where
  id : Answers request.rpc_get_id
  id_ptr : Answers request.rpc_get_id_ptr
  message_file : ∀ field, request.message_file = some field → Answers field
  message : Answers request.message
  path : ∃ path, request.path = .ok path ∧ ∀ elements, path = some elements → elements.length ≤ MAX_PATH_LEN
  ae_host_commitment : ∀ field, request.ae_host_commitment = some field → Answers field
  next_id : ∀ next, request.get_signature = some next → Answers next.rpc_get_id
  ae_host_entropy : ∀ next field, request.get_signature = some next → next.ae_host_entropy = some field → Answers field

/-! ### Where a request stops the device -/

/-- A message that can be hashed and a path below the root are given. -/
structure Given (lib : Library) (request : Request) (path : Path) (message hash : Bytes) : Prop where
  no_file : request.message_file = none
  text : request.message = .ok message
  key : request.path = .ok (some path)
  not_root : path ≠ []
  not_empty : message ≠ []
  short : message.length < MAX_DISPLAY_MESSAGE_LEN
  hashed : lib.format_bitcoin_message message = some hash

/-- The message is signed without asking, or can be shown. -/
def Offered (path : Path) (message : Bytes) : Prop := isGdkLoginChallenge path message = true ∨ Displayable message

/-- The commitment of the host is given, and that of the signer is made. -/
def Committed (lib : Library) (request : Request) (path : Path) (hash : Bytes) : Prop :=
  ∃ bytes, request.ae_host_commitment = some (.ok bytes) ∧ bytes.length = WALLY_HOST_COMMITMENT_LEN ∧
    lib.ae_signer_commit_from_bytes path hash bytes ≠ none

/-- There is an id, also where it is taken for a string. -/
def Named (id : Check CborRpc.Fault Bytes) : Prop := ∃ bytes, id = .ok bytes ∧ cstr bytes ≠ []

def Pointed (id : Check CborRpc.Fault Bytes) : Prop := ∃ bytes, id = .ok bytes ∧ bytes ≠ []

/-- The entropy that is signed with, and the id that is replied to. -/
inductive Exchanged (lib : Library) (request : Request) (path : Path) (hash : Bytes) :
    Option Bytes → Check CborRpc.Fault Bytes → Prop where
  | plain (no_commitment : request.ae_host_commitment = none) : Exchanged lib request path hash none request.rpc_get_id
  | entropy {next : GetSignature} {bytes : Bytes} (committed : Committed lib request path hash)
      (pointed : Pointed request.rpc_get_id_ptr) (follows : request.get_signature = some next)
      (given : next.ae_host_entropy = some (.ok bytes)) (size : bytes.length = WALLY_S2C_DATA_LEN) :
      Exchanged lib request path hash (some bytes) next.rpc_get_id

/-- The fields and ids that a request stops the device at, if its message is confirmed. -/
inductive Stops (lib : Library) (request : Request) : Prop where
  | message_file (stops : request.message_file = some (.error .abort))
  | file_reply {message_file message hash : Bytes} {path : Path} (there : request.message_file = some (.ok message_file))
      (asked : InFile lib message_file path message) (displayable : Displayable message)
      (hashed : lib.format_bitcoin_message message = some hash) (signs : lib.ec_sig_from_bytes path hash ≠ none)
      (unnamed : ¬ Named request.rpc_get_id)
  | message (no_file : request.message_file = none) (stops : request.message = .error .abort)
  | ae_host_commitment {path : Path} {message hash : Bytes} (given : Given lib request path message hash)
      (stops : request.ae_host_commitment = some (.error .abort))
  | commitment_reply {path : Path} {message hash : Bytes} (given : Given lib request path message hash)
      (offered : Offered path message) (committed : Committed lib request path hash)
      (unnamed : ¬ Pointed request.rpc_get_id_ptr)
  | ae_host_entropy {path : Path} {message hash : Bytes} {next : GetSignature} (given : Given lib request path message hash)
      (offered : Offered path message) (committed : Committed lib request path hash)
      (pointed : Pointed request.rpc_get_id_ptr) (follows : request.get_signature = some next)
      (stops : next.ae_host_entropy = some (.error .abort))
  | reply {path : Path} {message hash : Bytes} {entropy : Option Bytes} {id : Check CborRpc.Fault Bytes}
      (given : Given lib request path message hash) (offered : Offered path message)
      (exchanged : Exchanged lib request path hash entropy id) (signs : signatureOf lib hash path entropy ≠ none)
      (unnamed : ¬ Named id)

section
variable {lib : Library} {user : Screen → Bool} {request : Request}

/-! ### Steps -/

theorem extract_ok {α β : Type} {field : Check CborRpc.Fault α} {a : α} (comes : field = .ok a) (next : α → Sign β) :
    (extract field >>= next) = next a := by
  rw [comes]
  rfl

theorem extract_abort {α β : Type} {field : Check CborRpc.Fault α} (stops : field = .error .abort) (next : α → Sign β)
    (log : List Event) : (extract field >>= next) log = (.error .abort, log) := by
  rw [stops]
  rfl

section
variable {log : List Event} {halts : Halt Stop → List Event → Prop}

theorem wp_reply {id : Check CborRpc.Fault Bytes} {post : Unit → List Event → Prop} (named : Named id) (next : post () log) :
    Proc.wp (jade_process_reply_to_message_result id) post halts log := by
  obtain ⟨bytes, comes, text⟩ := named
  have some_byte : bytes.length ≠ 0 := by
    intro empty
    rw [List.length_eq_zero_iff.mp empty] at text
    exact text rfl
  have some_char : (cstr bytes).length ≠ 0 := fun empty => text (List.length_eq_zero_iff.mp empty)
  rw [jade_process_reply_to_message_result, extract_ok comes, Proc.wp_bind, Proc.wp_ensure, if_pos (by simpa using some_byte),
    Proc.wp_ensure, if_pos (by simpa using some_char)]
  exact next

theorem wp_reply_stops {id : Check CborRpc.Fault Bytes} {post : Unit → List Event → Prop} (answers : Answers id)
    (unnamed : ¬ Named id) (stops : halts .abort log) :
    Proc.wp (jade_process_reply_to_message_result id) post halts log := by
  rw [jade_process_reply_to_message_result]
  obtain ⟨bytes, comes⟩ | aborts := answers
  · have no_text : cstr bytes = [] := Decidable.not_not.mp fun text => unnamed ⟨bytes, comes, text⟩
    rw [extract_ok comes, Proc.wp_bind, Proc.wp_ensure]
    split
    · rw [Proc.wp_ensure, if_neg (by simp [no_text])]
      exact stops
    · exact stops
  · rw [Proc.wp, extract_abort aborts]
    exact stops

theorem wp_replySignature {id : Check CborRpc.Fault Bytes} {signature : Bytes} {post : Bytes → List Event → Prop}
    (terminated : Terminated signature)
    (replied : Proc.wp (jade_process_reply_to_message_result id) (fun _ => post signature) halts log) :
    Proc.wp (replySignature id signature) post halts log := by
  rw [replySignature, Proc.wp_bind, Proc.wp_ensure, if_pos (decide_eq_true terminated.short), Proc.wp_bind, Proc.wp_ensure,
    if_pos (by simpa using terminated.terminator), Proc.wp_bind]
  exact replied

theorem wp_replyBytes {id : Check CborRpc.Fault Bytes} {post : Unit → List Event → Prop} (answers : Answers id)
    (next : Pointed id → post () log) (stops : ¬ Pointed id → halts .abort log) :
    Proc.wp (jade_process_reply_to_message_bytes id) post halts log := by
  rw [jade_process_reply_to_message_bytes]
  obtain ⟨bytes, comes⟩ | aborts := answers
  · rw [extract_ok comes, Proc.wp_ensure]
    by_cases empty : bytes = []
    · rw [if_neg (by simp [empty])]
      refine stops ?_
      rintro ⟨other, again, some_byte⟩
      cases comes.symm.trans again
      exact some_byte empty
    · rw [if_pos (by simpa using empty)]
      exact next ⟨bytes, comes, empty⟩
  · rw [Proc.wp, extract_abort aborts]
    refine stops ?_
    rintro ⟨other, again, _⟩
    cases aborts.symm.trans again

/-- The commitment is the one that is given, of the right length. -/
structure Commits (request : Request) (ae_host_commitment : Option Bytes) : Prop where
  given : ∀ field, request.ae_host_commitment = some field →
    ∃ bytes, field = .ok bytes ∧ bytes.length = WALLY_HOST_COMMITMENT_LEN ∧ ae_host_commitment = some bytes
  absent : request.ae_host_commitment = none → ae_host_commitment = none

/-- What comes of the exchange: a refusal, the entropy and the id to reply to, or an assertion. -/
theorem wp_exchange (answered : request.Answered) {path : Path} {hash : Bytes} {ae_host_commitment : Option Bytes}
    {post : Option Bytes × Check CborRpc.Fault Bytes → List Event → Prop}
    (commits : Commits request ae_host_commitment)
    (refused : ∀ code errmsg, halts (.error (.reject code errmsg)) log)
    (unpointed : Committed lib request path hash → ¬ Pointed request.rpc_get_id_ptr → halts .abort log)
    (unasked : ∀ next, Committed lib request path hash → Pointed request.rpc_get_id_ptr →
      request.get_signature = some next → next.ae_host_entropy = some (.error .abort) → halts .abort log)
    (next : ∀ entropy id, Exchanged lib request path hash entropy id → Answers id →
      (∀ bytes, entropy = some bytes → bytes.length = WALLY_S2C_DATA_LEN) → post (entropy, id) log) :
    Proc.wp (exchangeEntropy lib request hash path ae_host_commitment) post halts log := by
  cases given : request.ae_host_commitment with
  | none =>
    rw [commits.absent given, exchangeEntropy, Proc.wp_pure]
    exact next none _ (.plain given) answered.id fun _ impossible => by cases impossible
  | some field =>
    obtain ⟨bytes, rfl, size, rfl⟩ := commits.given field given
    rw [exchangeEntropy, Proc.wp_bind, Proc.wp_ensure, if_pos (by simpa using size)]
    split
    case isTrue => exact refused _ _
    case isFalse made =>
      have committed : Committed lib request path hash := ⟨bytes, given, size, made⟩
      rw [Proc.wp_bind]
      refine wp_replyBytes answered.id_ptr (fun pointed => ?_) (unpointed committed)
      cases follows : request.get_signature with
      | none => exact refused _ _
      | some message =>
        dsimp only
        cases asked : message.ae_host_entropy with
        | none => exact refused _ _
        | some field =>
          dsimp only
          obtain ⟨entropy, comes⟩ | aborts := answered.ae_host_entropy message field follows asked
          · rw [extract_ok comes]
            split
            case isTrue => exact refused _ _
            case isFalse sized =>
              rw [comes] at asked
              refine next (some entropy) _ (.entropy committed pointed follows asked (Decidable.not_not.mp sized))
                (answered.next_id message follows) ?_
              rintro _ ⟨⟩
              exact Decidable.not_not.mp sized
          · rw [aborts] at asked
            rw [Proc.wp, extract_abort aborts]
            exact unasked message committed pointed follows asked

/-- What comes of a message that is signed without asking or has been confirmed. -/
theorem wp_signConfirmed (correct : lib.Correct) (answered : request.Answered) {path : Path} {message hash : Bytes}
    {ae_host_commitment : Option Bytes} {post : Bytes → List Event → Prop} (given : Given lib request path message hash)
    (offered : Offered path message) (size : hash.length = SHA256_LEN)
    (commits : Commits request ae_host_commitment)
    (refused : ∀ code errmsg, halts (.error (.reject code errmsg)) log)
    (stops : ∀ log, Stops lib request → halts .abort log)
    (next : ∀ signature entropy, post signature (log ++ [.signed hash path entropy])) :
    Proc.wp (signConfirmed lib request hash path ae_host_commitment) post halts log := by
  rw [signConfirmed, Proc.wp_bind]
  refine wp_exchange answered commits refused
    (fun committed unnamed => stops _ (.commitment_reply given offered committed unnamed))
    (fun message committed pointed follows asked => stops _ (.ae_host_entropy given offered committed pointed follows asked))
    fun entropy id exchanged answers sized => ?_
  dsimp only
  rw [Proc.wp_bind]
  apply wp_sign correct given.not_root size (Nat.le_refl _) sized
  · exact fun _ => refused _ _
  · intro signs encoded short
    have terminated := terminated_encoded short
    dsimp only
    rw [if_neg terminated.not_empty]
    by_cases named : Named id
    · exact wp_replySignature terminated (wp_reply named (next _ entropy))
    · exact wp_replySignature terminated (wp_reply_stops answers named (stops _ (.reply given offered exchanged signs named)))

/-- The commitment that is read is the one given. -/
theorem wp_readCommitment (answered : request.Answered) {post : Option Bytes → List Event → Prop}
    (refused : (∀ path message, ¬ Asks request path message) → ∀ code errmsg, halts (.error (.reject code errmsg)) log)
    (aborts : request.ae_host_commitment = some (.error .abort) → halts .abort log)
    (next : ∀ ae_host_commitment, Commits request ae_host_commitment → post ae_host_commitment log) :
    Proc.wp (readCommitment request) post halts log := by
  rw [readCommitment]
  cases given : request.ae_host_commitment with
  | none => exact next none ⟨fun field there => (by rw [given] at there; cases there), fun _ => rfl⟩
  | some field =>
    dsimp only
    obtain ⟨bytes, comes⟩ | stops := answered.ae_host_commitment field given
    · rw [extract_ok comes]
      subst comes
      split
      case isTrue malformed =>
        refine refused (fun path message asks => ?_) _ _
        obtain ⟨other, same, size⟩ := asks.commitment _ given
        cases same
        exact malformed size
      case isFalse sized =>
        refine next (some bytes) ⟨fun field there => ?_, fun nothing => by rw [given] at nothing; cases nothing⟩
        rw [given] at there
        cases there
        exact ⟨bytes, rfl, Decidable.not_not.mp sized, rfl⟩
    · subst stops
      exact aborts given

end

theorem asks_key {path path' : Path} {message message' : Bytes} (asks : Asks request path message)
    (key : request.path = .ok (some path')) (text : request.message = .ok message') : path = path' ∧ message = message' := by
  have same := asks.key.symm.trans key
  have same' := asks.text.symm.trans text
  cases same
  cases same'
  exact ⟨rfl, rfl⟩

theorem asked_file {message_file : Bytes} (file : request.message_file = some (.ok message_file)) :
    AskedOf lib request = InFile lib message_file ∧ AutoOf request = fun _ _ => False := by
  constructor
  · funext path message
    refine propext ⟨?_, fun asked => .inl ⟨message_file, file, asked⟩⟩
    rintro (⟨other, same, asked⟩ | ⟨asks, -⟩)
    · rw [file] at same
      cases same
      exact asked
    · cases file.symm.trans asks.no_file
  · funext path message
    refine eq_false ?_
    rintro ⟨asks, -⟩
    cases file.symm.trans asks.no_file

theorem asked_request (no_file : request.message_file = none) {path : Path} {message : Bytes}
    (asked : AskedOf lib request path message) : Asks request path message ∧ isGdkLoginChallenge path message = false := by
  rcases asked with ⟨other, same, -⟩ | asks
  · cases no_file.symm.trans same
  · exact asks

/-- A request whose message and path have been found good. -/
theorem wp_given (correct : lib.Correct) (answered : request.Answered) (never : ¬ Stops lib request) {path : Path}
    {message hash pathstr : Bytes} (given : Given lib request path message hash) (size : hash.length = SHA256_LEN)
    (back : lib.bip32_path_from_str_n pathstr = some path) :
    Proc.wp (do
      let ae_host_commitment ← readCommitment request
      confirmRequest lib user message hash path pathstr
      signConfirmed lib request hash path ae_host_commitment)
      (fun signature log => Faithful lib user (AskedOf lib request) (AutoOf request) (.ok signature, log))
      (fun halt log => Faithful lib user (AskedOf lib request) (AutoOf request) (.error halt, log)) [] := by
  have only : ∀ path' message', AskedOf lib request path' message' → path' = path ∧ message' = message := fun path' message' asked =>
    asks_key (asked_request given.no_file asked).1 given.key given.text
  rw [Proc.wp_bind]
  refine wp_readCommitment answered (fun nobody code errmsg => ?_) (fun stops => absurd (.ae_host_commitment given stops) never) ?_
  · exact faithful_refused fun path' message' asked => absurd (asked_request given.no_file asked).1 (nobody path' message')
  intro ae_host_commitment commits
  have asks : Asks request path message := by
    refine ⟨given.no_file, given.text, given.key, given.not_root, fun field there => ?_⟩
    obtain ⟨bytes, comes, sized, _⟩ := commits.given field there
    exact ⟨bytes, comes, sized⟩
  rw [Proc.wp_bind, confirmRequest]
  cases auto : isGdkLoginChallenge path message with
  | true =>
    have nothing : ∀ path' message', AskedOf lib request path' message' → ¬ Displayable message' := by
      intro path' message' asked
      obtain ⟨rfl, rfl⟩ := only path' message' asked
      have login := (asked_request given.no_file asked).2
      rw [auto] at login
      cases login
    rw [if_pos rfl, Proc.wp_pure]
    refine wp_signConfirmed correct answered given (.inl auto) size commits ?_ (fun _ stops => absurd stops never) ?_
    · exact fun _ _ => faithful_refused nothing
    · exact fun _ _ => faithful_auto nothing given.hashed ⟨asks, auto⟩
  | false =>
    have shown := displayable_eq [] message
    rw [List.nil_append, List.length_nil] at shown
    rw [if_neg (by decide), shown, Proc.wp_bind, Proc.wp_ok]
    by_cases printable : ∀ c ∈ message, Printable c
    · have displayable : Displayable message := ⟨given.not_empty, given.short, printable⟩
      rw [if_pos (by simpa using printable), Proc.wp_bind]
      show Proc.wp (confirm_sign_message lib user ([] ++ message) ([] : Bytes).length message.length hash pathstr) _ _ []
      apply wp_confirm correct displayable size back
      intro screen shows
      cases confirmed : user screen with
      | false => exact faithful_declined only shows
      | true =>
        rw [if_pos rfl, Proc.wp_pure]
        refine wp_signConfirmed correct answered given (.inr displayable) size commits ?_
          (fun _ stops => absurd stops never) ?_
        · exact fun _ _ => faithful_declined only shows
        · exact fun signature _ =>
            faithful_signed only shows ⟨by simp, by simp⟩ given.hashed (.inr ⟨asks, auto⟩) displayable confirmed
    · rw [if_neg (by simpa using printable)]
      refine faithful_refused fun path' message' asked displayable => ?_
      obtain ⟨-, rfl⟩ := only path' message' asked
      exact printable displayable.printable

/-- What is given is hashed, and its path is printed as text that reads back to it. -/
theorem signRequest_given (correct : lib.Correct) (answered : request.Answered) {path : Path} {message : Bytes}
    (text : request.message = .ok message) (key : request.path = .ok (some path)) (not_root : path ≠ [])
    (not_empty : message ≠ []) (short : message.length < MAX_DISPLAY_MESSAGE_LEN) :
    ∃ hash pathstr, lib.format_bitcoin_message message = some hash ∧ hash.length = SHA256_LEN ∧
      lib.bip32_path_from_str_n pathstr = some path ∧
      signRequest lib user request = (do
        let ae_host_commitment ← readCommitment request
        confirmRequest lib user message hash path pathstr
        signConfirmed lib request hash path ae_host_commitment) := by
  obtain ⟨hash, hashes, made, size⟩ := hash_spec correct not_empty short
  obtain ⟨found, comes, fits⟩ := answered.path
  cases comes.symm.trans key
  obtain ⟨pathstr, written, back⟩ := path_shown correct not_root (fits path rfl)
  refine ⟨hash, ascii pathstr, made, size, back, ?_⟩
  rw [signRequest, extract_ok text, if_neg (by simpa using not_empty), if_neg (Nat.not_le.mpr short), hashes]
  dsimp only
  rw [extract_ok key]
  dsimp only [Option.getD_some]
  rw [if_neg not_root, written]

theorem wp_signRequest (correct : lib.Correct) (answered : request.Answered) (never : ¬ Stops lib request)
    (no_file : request.message_file = none) :
    Proc.wp (signRequest lib user request)
      (fun signature log => Faithful lib user (AskedOf lib request) (AutoOf request) (.ok signature, log))
      (fun halt log => Faithful lib user (AskedOf lib request) (AutoOf request) (.error halt, log)) [] := by
  -- an early refusal is right if the request is not one that asks for a message that can be shown
  have refused : ∀ {code : Int} {errmsg : String},
      (∀ path message, Asks request path message → Displayable message → False) →
      Faithful lib user (AskedOf lib request) (AutoOf request) (.error (.error (.reject code errmsg)), []) := by
    intro code errmsg nothing
    exact faithful_refused fun path message asked displayable => nothing path message (asked_request no_file asked).1 displayable
  obtain ⟨message, text⟩ | aborts := answered.message
  case inr => exact absurd (.message no_file aborts) never
  have same {path : Path} {message' : Bytes} (asks : Asks request path message') : message' = message := by
    cases asks.text.symm.trans text
    rfl
  by_cases empty : message = []
  · rw [signRequest, extract_ok text, if_pos (by simp [empty])]
    exact refused fun _ _ asks displayable => displayable.not_empty ((same asks).trans empty)
  by_cases short : message.length < MAX_DISPLAY_MESSAGE_LEN
  case neg =>
    rw [signRequest, extract_ok text, if_neg (by simpa using empty), if_pos (Nat.le_of_not_lt short)]
    exact refused fun _ _ asks displayable => short (same asks ▸ displayable.short)
  obtain ⟨found, comes, _⟩ := answered.path
  by_cases not_root : found.getD [] = []
  · obtain ⟨hash, hashes, _⟩ := hash_spec correct empty short
    rw [signRequest, extract_ok text, if_neg (by simpa using empty), if_neg (Nat.not_le.mpr short), hashes]
    dsimp only
    rw [extract_ok comes, if_pos not_root]
    refine refused fun path _ asks _ => ?_
    cases comes.symm.trans asks.key
    exact asks.not_root not_root
  · obtain ⟨path, rfl⟩ : ∃ path, found = some path := by
      cases found with
      | none => exact absurd rfl not_root
      | some path => exact ⟨path, rfl⟩
    obtain ⟨hash, pathstr, made, size, back, run⟩ := @signRequest_given lib user request correct answered path message text comes
      not_root empty short
    rw [run]
    exact wp_given correct answered never ⟨no_file, text, comes, not_root, empty, short, made⟩ size back

theorem processRequest_faithful (correct : lib.Correct) (answered : request.Answered) (never : ¬ Stops lib request) :
    Faithful lib user (AskedOf lib request) (AutoOf request) (processRequest lib user request []) := by
  apply faithful_of_wp
  rw [processRequest]
  cases file : request.message_file with
  | none => exact wp_signRequest correct answered never file
  | some field =>
    obtain ⟨message_file, comes⟩ | aborts := answered.message_file field file
    case inr => exact absurd (.message_file (aborts ▸ file)) never
    subst comes
    obtain ⟨asked, auto⟩ : AskedOf lib request = InFile lib message_file ∧ AutoOf request = fun _ _ => False := asked_file file
    rw [asked, auto]
    dsimp only
    rw [extract_ok rfl, signFile]
    by_cases empty : message_file = []
    · rw [if_pos (by simp [empty])]
      refine faithful_refused ?_
      rintro path message ⟨keyword, text, label, form⟩ -
      have bytes := form.bytes
      rw [empty] at bytes
      simp at bytes
    · rw [if_neg (by simpa using empty), Proc.wp_bind]
      refine Proc.wp_mono (wp_file correct empty (Nat.le_refl _)) ?_ fun _ _ refused => refused.faithful
      intro signature log produced
      rw [Proc.wp_bind, Proc.wp_ensure, if_pos (by simpa using produced.terminated.not_empty)]
      by_cases named : Named request.rpc_get_id
      · exact wp_replySignature produced.terminated (wp_reply named (produced.faithful _ ⟨by simp, by simp⟩))
      · obtain ⟨path, message, hash, asked, displayable, hashed, signs⟩ := produced.made
        exact absurd (.file_reply file asked displayable hashed signs named) never

/-! ### Where it stops -/

/-- A message that is to be signed is confirmed by a user who always confirms. -/
theorem wp_confirmRequest (correct : lib.Correct) {path : Path} {message hash pathstr : Bytes} {log : List Event}
    {post : Unit → List Event → Prop} {halts : Halt Stop → List Event → Prop} (offered : Offered path message)
    (size : hash.length = SHA256_LEN) (back : lib.bip32_path_from_str_n pathstr = some path) (next : ∀ log, post () log) :
    Proc.wp (confirmRequest lib (fun _ => true) message hash path pathstr) post halts log := by
  rw [confirmRequest]
  cases auto : isGdkLoginChallenge path message with
  | true =>
    rw [if_pos rfl, Proc.wp_pure]
    exact next _
  | false =>
    have displayable : Displayable message := offered.resolve_left (by simp [auto])
    have shown := displayable_eq [] message
    rw [List.nil_append, List.length_nil] at shown
    rw [if_neg (by decide), shown, Proc.wp_bind, Proc.wp_ok, if_pos (by simpa using displayable.printable), Proc.wp_bind]
    show Proc.wp (confirm_sign_message lib (fun _ => true) ([] ++ message) ([] : Bytes).length message.length hash pathstr) _ _ _
    apply wp_confirm correct displayable size back
    intro screen shows
    rw [if_pos rfl, Proc.wp_pure]
    exact next _

theorem readCommitment_eq {bytes : Bytes} (there : request.ae_host_commitment = some (.ok bytes))
    (size : bytes.length = WALLY_HOST_COMMITMENT_LEN) : readCommitment request = pure (some bytes) := by
  rw [readCommitment, there]
  dsimp only
  rw [extract_ok rfl, if_neg (by simp [size])]

/-- The exchange of a commitment goes on to the message that follows. -/
theorem exchangeEntropy_eq {path : Path} {hash bytes : Bytes} (size : bytes.length = WALLY_HOST_COMMITMENT_LEN)
    (made : lib.ae_signer_commit_from_bytes path hash bytes ≠ none)
    {post : Option Bytes × Check CborRpc.Fault Bytes → List Event → Prop} {halts : Halt Stop → List Event → Prop}
    {log : List Event} (answers : Answers request.rpc_get_id_ptr) (stops : ¬ Pointed request.rpc_get_id_ptr → halts .abort log)
    (next : Pointed request.rpc_get_id_ptr → ∃ message field, request.get_signature = some message ∧
      message.ae_host_entropy = some field ∧ Proc.wp (extract field) (fun entropy log =>
        entropy.length = WALLY_S2C_DATA_LEN ∧ post (some entropy, message.rpc_get_id) log) halts log) :
    Proc.wp (exchangeEntropy lib request hash path (some bytes)) post halts log := by
  rw [exchangeEntropy, Proc.wp_bind, Proc.wp_ensure, if_pos (by simpa using size), if_neg made, Proc.wp_bind]
  refine wp_replyBytes answers (fun pointed => ?_) stops
  obtain ⟨message, field, follows, asked, later⟩ := next pointed
  rw [follows]
  dsimp only
  rw [asked]
  dsimp only
  rw [Proc.wp_bind]
  refine Proc.wp_mono later ?_ fun _ _ halted => halted
  rintro entropy log ⟨sized, later⟩
  rw [if_neg (by simp [sized]), Proc.wp_pure]
  exact later

/-- With the entropy and the id that it comes to. -/
theorem Exchanged.runs {path : Path} {hash : Bytes} {entropy : Option Bytes} {id : Check CborRpc.Fault Bytes}
    (exchanged : Exchanged lib request path hash entropy id) (answered : request.Answered) :
    ∃ ae_host_commitment, readCommitment request = pure ae_host_commitment ∧ Answers id ∧
      (∀ bytes, entropy = some bytes → bytes.length = WALLY_S2C_DATA_LEN) ∧
      ∀ (post : Option Bytes × Check CborRpc.Fault Bytes → List Event → Prop) (halts : Halt Stop → List Event → Prop)
        (log : List Event), post (entropy, id) log →
        Proc.wp (exchangeEntropy lib request hash path ae_host_commitment) post halts log := by
  cases exchanged with
  | plain no_commitment =>
    refine ⟨none, by rw [readCommitment, no_commitment], answered.id, fun _ same => (by cases same), ?_⟩
    intro post halts log next
    rw [exchangeEntropy, Proc.wp_pure]
    exact next
  | entropy committed pointed follows asked sized =>
    obtain ⟨bytes, there, counted, made⟩ := committed
    refine ⟨some bytes, readCommitment_eq there counted, answered.next_id _ follows, ?_, ?_⟩
    · intro _ same
      cases same
      exact sized
    · intro post halts log next
      refine exchangeEntropy_eq counted made answered.id_ptr (fun unnamed => absurd pointed unnamed) fun _ => ?_
      exact ⟨_, _, follows, asked, sized, next⟩

/-- A request that stops the device does so if its message is confirmed. -/
theorem stops_aborts (correct : lib.Correct) (answered : request.Answered) (stops : Stops lib request) :
    Proc.wp (processRequest lib (fun _ => true) request) (fun _ _ => False) (fun halt _ => halt = .abort) [] := by
  -- the steps up to the commitment, for a message that is given
  have begun {path : Path} {message hash : Bytes} (given : Given lib request path message hash)
      (later : ∀ pathstr, hash.length = SHA256_LEN → lib.bip32_path_from_str_n pathstr = some path →
        Proc.wp (do
          let ae_host_commitment ← readCommitment request
          confirmRequest lib (fun _ => true) message hash path pathstr
          signConfirmed lib request hash path ae_host_commitment) (fun _ _ => False) (fun halt _ => halt = .abort) []) :
      Proc.wp (processRequest lib (fun _ => true) request) (fun _ _ => False) (fun halt _ => halt = .abort) [] := by
    obtain ⟨other, pathstr, made, size, back, run⟩ := @signRequest_given lib (fun _ => true) request correct answered path message
      given.text given.key given.not_root given.not_empty given.short
    cases made.symm.trans given.hashed
    rw [processRequest, given.no_file]
    dsimp only
    rw [run]
    exact later pathstr size back
  -- the steps up to the exchange
  have reached {path : Path} {message hash : Bytes} (given : Given lib request path message hash)
      (offered : Offered path message) {ae_host_commitment : Option Bytes}
      (read : readCommitment request = pure ae_host_commitment)
      (later : hash.length = SHA256_LEN → ∀ log, Proc.wp (signConfirmed lib request hash path ae_host_commitment)
        (fun _ _ => False) (fun halt _ => halt = .abort) log) :
      Proc.wp (processRequest lib (fun _ => true) request) (fun _ _ => False) (fun halt _ => halt = .abort) [] := by
    refine begun given fun pathstr size back => ?_
    rw [read, Proc.wp_bind, Proc.wp_pure, Proc.wp_bind]
    exact wp_confirmRequest correct offered size back (later size)
  cases stops with
  | message_file stops =>
    rw [processRequest, stops]
    dsimp only
    rw [Proc.wp, extract_abort rfl]
  | @file_reply message_file _ _ _ there asked displayable hashed signs unnamed =>
    have some_text : message_file ≠ [] := by
      rintro rfl
      obtain ⟨keyword, text, label, form⟩ := asked
      have bytes := form.bytes
      simp at bytes
    rw [processRequest, there]
    dsimp only
    rw [extract_ok rfl, signFile, if_neg (by simpa using some_text), Proc.wp_bind]
    refine Proc.wp_mono (wp_file correct some_text (Nat.le_refl _)) ?_ fun _ _ refused => ?_
    · intro signature log produced
      rw [Proc.wp_bind, Proc.wp_ensure, if_pos (by simpa using produced.terminated.not_empty)]
      exact wp_replySignature produced.terminated (wp_reply_stops answered.id unnamed rfl)
    · obtain ⟨screen, declined⟩ := refused.unsigned _ _ _ asked displayable hashed signs
      cases declined
  | message no_file stops =>
    rw [processRequest, no_file]
    dsimp only
    rw [signRequest, Proc.wp, extract_abort stops]
  | ae_host_commitment given stops =>
    refine begun given fun pathstr size back => ?_
    rw [readCommitment, stops]
    dsimp only
    rw [Proc.wp_bind, Proc.wp, extract_abort rfl]
  | commitment_reply given offered committed unnamed =>
    obtain ⟨bytes, there, size, made⟩ := committed
    refine reached given offered (readCommitment_eq there size) fun _ log => ?_
    rw [signConfirmed, Proc.wp_bind]
    exact exchangeEntropy_eq size made answered.id_ptr (fun _ => rfl) fun pointed => absurd pointed unnamed
  | ae_host_entropy given offered committed pointed follows stops =>
    obtain ⟨bytes, there, size, made⟩ := committed
    refine reached given offered (readCommitment_eq there size) fun _ log => ?_
    rw [signConfirmed, Proc.wp_bind]
    exact exchangeEntropy_eq size made answered.id_ptr (fun _ => rfl) fun _ => ⟨_, _, follows, stops, rfl⟩
  | @reply path _ hash entropy id given offered exchanged signs unnamed =>
    -- a signature is made, and the reply to it stops
    obtain ⟨_, read, answers, sized, runs⟩ := exchanged.runs answered
    refine reached given offered read fun size log => ?_
    rw [signConfirmed, Proc.wp_bind]
    refine runs _ _ _ ?_
    dsimp only
    rw [Proc.wp_bind]
    apply wp_sign correct given.not_root size (Nat.le_refl _) sized
    · exact fun failed => absurd failed signs
    · intro _ encoded short
      have terminated := terminated_encoded short
      dsimp only
      rw [if_neg terminated.not_empty]
      exact wp_replySignature terminated (wp_reply_stops answers unnamed rfl)

/-- A request is processed faithfully, whatever the user answers, exactly if nothing stops the device. -/
theorem processRequest_faithful_iff (correct : lib.Correct) (answered : request.Answered) :
    (∀ user, Faithful lib user (AskedOf lib request) (AutoOf request) (processRequest lib user request [])) ↔
      ¬ Stops lib request := by
  refine ⟨fun faithful stops => ?_, fun never user => processRequest_faithful correct answered never⟩
  have aborts := stops_aborts correct answered stops
  have returns := (faithful fun _ => true).returns.1
  rw [Proc.wp] at aborts
  revert aborts returns
  rcases processRequest lib (fun _ => true) request [] with ⟨halt | signature, log⟩
  · rintro rfl returns
    exact returns rfl
  · exact fun impossible _ => impossible

end

end PiJade.SignMessage
