import PiJade.CborRpc
import PiJade.MultisigExport

/-!
Signing a message (`main/process/sign_message.c`), from a scanned file or from a request, and the screens that the
message is shown on (`main/ui/sign_message.c`). A pointer into the file is the place it points to, and a read behind
the file is a fault. The libraries are a parameter; what is shown and what is signed is logged.
-/
namespace PiJade.SignMessage
open Text Wallet
open SettingsCodec (ascii)
set_option linter.unusedSimpArgs false

def SIGN_MESSAGE_FILE_PREFIX : Bytes := ascii "signmessage"
def SIGN_MESSAGE_FILE_LABEL_ASCII : Bytes := ascii "ascii"

def GDK_CHALLENGE_LENGTH : Nat := 32
def GDK_CHALLENGE_PREFIX : Bytes := ascii "greenaddress.it      login "
def GDK_CHALLENGE_PATH : UInt32 := 0x4741b11e

def MAX_DISPLAY_MESSAGE_LEN : Nat := 192
def SIGN_MESSAGE_MAX_DISPLAY_LEN : Nat := MAX_DISPLAY_MESSAGE_LEN / 2
def SHA256_LEN : Nat := 32
def EC_SIGNATURE_LEN : Nat := 64
def EC_SIGNATURE_RECOVERABLE_LEN : Nat := 65
def WALLY_HOST_COMMITMENT_LEN : Nat := 32
def WALLY_S2C_DATA_LEN : Nat := 32

def CBOR_RPC_BAD_PARAMETERS : Int := -32602
def CBOR_RPC_INTERNAL_ERROR : Int := -32603
def CBOR_RPC_PROTOCOL_ERROR : Int := -32001
def CBOR_RPC_USER_CANCELLED : Int := -32000

inductive Stop where
  | out_of_bounds
  | reject (code : Int) (errmsg : String)
  deriving DecidableEq, Repr

/-- What the user is asked to confirm: the texts handed over, and the text of each message screen. -/
structure Screen where
  message : Bytes
  pages : List Bytes
  hash : Bytes
  path : Bytes
  deriving DecidableEq, Repr

inductive Event where
  | shown (screen : Screen)
  | signed (hash : Bytes) (path : Path) (ae_host_entropy : Option Bytes)
  deriving DecidableEq, Repr

abbrev Sign := Proc (List Event) Stop

/-- The calls of libwally and mbedtls, the keys being those of the wallet. -/
structure Library where
  /-- Any number of elements; hardened ones are marked `'`, `h` or `H`. -/
  bip32_path_from_str_n : Bytes → Option Path
  /-- The hash of a message with the prefix of bitcoin messages. -/
  format_bitcoin_message : Bytes → Option Bytes
  hex_from_bytes : Bytes → Bytes
  /-- A recoverable signature. -/
  ec_sig_from_bytes : Path → Bytes → Option Bytes
  ae_sig_from_bytes : Path → Bytes → Bytes → Option Bytes
  ae_signer_commit_from_bytes : Path → Bytes → Bytes → Option Bytes
  base64_encode : Bytes → Bytes

/-! ### Reading text -/

def byteAt (str : Bytes) (ptr : Nat) : Check Stop UInt8 :=
  match str[ptr]? with
  | none => .error (.error .out_of_bounds)
  | some c => .ok c

/-- The bytes that a library reads. -/
def slice (str : Bytes) (ptr len : Nat) : Check Stop Bytes :=
  if ptr + len ≤ str.length then .ok ((str.drop ptr).take len) else .error (.error .out_of_bounds)

def memchr (str : Bytes) (c : UInt8) : Nat → Nat → Check Stop (Option Nat)
  | _, 0 => pure none
  | ptr, n + 1 => do
    if (← byteAt str ptr) = c then pure (some ptr) else memchr str c (ptr + 1) n

/-- Whether `n` characters are those of a literal, in any letter case. -/
def strncasecmp (str : Bytes) : Nat → Bytes → Nat → Check Stop Bool
  | _, _, 0 => pure true
  | ptr, literal, n + 1 => do
    let c ← byteAt str ptr
    if tolower c ≠ tolower (literal.headD 0) then pure false
    else if c = 0 then pure true
    else strncasecmp str (ptr + 1) literal.tail n

/-- `"%.*s"`. -/
def precisionText (str : Bytes) : Nat → Nat → Check Stop Bytes
  | _, 0 => pure []
  | ptr, n + 1 => do
    let c ← byteAt str ptr
    if c = 0 then pure []
    else
      let rest ← precisionText str (ptr + 1) n
      pure (c :: rest)

def message_is_displayable (str : Bytes) : Nat → Nat → Check Stop Bool
  | _, 0 => pure true
  | ptr, n + 1 => do
    let c ← byteAt str ptr
    if c < 0x20 ∨ 0x7e < c then pure false else message_is_displayable str (ptr + 1) n

def reject {α : Type} (code : Int) (errmsg : String) : Check Stop α := .error (.error (.reject code errmsg))

/-! ### The screens -/

/-- `snprintf` of a newline and a text into the buffer for a screen. -/
def messagePage (text : Bytes) : Check Stop Bytes := do
  Check.ensure (text.length + 1 < 1 + SIGN_MESSAGE_MAX_DISPLAY_LEN + 1)
  pure ('\n'.toUInt8 :: text)

/-- The text on one screen, or on two. -/
def make_sign_message_activities (msgtxt : Bytes) : Check Stop (List Bytes) := do
  Check.ensure (msgtxt.length ≤ MAX_DISPLAY_MESSAGE_LEN)
  if msgtxt.length ≤ SIGN_MESSAGE_MAX_DISPLAY_LEN then
    let page ← messagePage msgtxt
    pure [page]
  else
    let first ← messagePage (msgtxt.take SIGN_MESSAGE_MAX_DISPLAY_LEN)
    let second ← messagePage (msgtxt.drop SIGN_MESSAGE_MAX_DISPLAY_LEN)
    pure [first, second]

/-- Eight groups of eight characters. -/
def groupedHash (hashhex : Bytes) : Bytes :=
  (ascii "  ").intercalate ((List.range 8).map fun i => (hashhex.drop (8 * i)).take 8)

section
variable (lib : Library) (user : Screen → Bool)

def show_sign_message_activity (message hashhex pathstr : Bytes) : Sign Bool := do
  Proc.lift (Check.ensure (hashhex.length == 2 * SHA256_LEN))
  Proc.lift (Check.ensure (0 < (groupedHash hashhex).length && (groupedHash hashhex).length < 96))
  let pages ← Proc.lift (make_sign_message_activities message)
  let screen : Screen := { message, pages, hash := groupedHash hashhex, path := pathstr }
  Proc.update fun log => log ++ [.shown screen]
  pure (user screen)

/-- The message is the text of `msg_len` bytes from `ptr`. -/
def confirm_sign_message (str : Bytes) (ptr msg_len : Nat) (hash pathstr : Bytes) : Sign Bool := do
  Proc.lift (Check.ensure (hash.length == SHA256_LEN))
  Proc.lift (Check.ensure (msg_len < MAX_DISPLAY_MESSAGE_LEN))
  let text ← Proc.lift (precisionText str ptr msg_len)
  Proc.lift (Check.ensure (text.length == msg_len))
  show_sign_message_activity user (text.take (MAX_DISPLAY_MESSAGE_LEN - 1)) (lib.hex_from_bytes hash) pathstr

/-! ### The wallet -/

def wallet_bip32_path_from_str (text : Bytes) : Option Path :=
  match lib.bip32_path_from_str_n text with
  | none => none
  | some path => if MAX_PATH_LEN < path.length then none else some path

def wallet_get_message_hash (bytes : Bytes) : Option Bytes :=
  if bytes.length = 0 then none
  else
    match lib.format_bitcoin_message bytes with
    | none => none
    | some hash => if hash.length ≠ SHA256_LEN then none else some hash

/-- An anti-exfil signature with the entropy of the host, or else a standard one. -/
def signatureOf (hash : Bytes) (path : Path) : Option Bytes → Option Bytes
  | some ae_host_entropy => lib.ae_sig_from_bytes path hash ae_host_entropy
  | none => lib.ec_sig_from_bytes path hash

/-- The signature in base64, with its terminator. -/
def wallet_sign_message_hash (hash : Bytes) (path : Path) (ae_host_entropy : Option Bytes) (output_len : Nat) :
    Sign (Option Bytes) := do
  if path = [] ∨ hash.length ≠ SHA256_LEN ∨ output_len < EC_SIGNATURE_LEN * 2 then pure none
  else if ae_host_entropy.any fun entropy => entropy.length ≠ WALLY_S2C_DATA_LEN then pure none
  else
    match signatureOf lib hash path ae_host_entropy with
    | none => pure none
    | some signature =>
      Proc.update fun log => log ++ [.signed hash path ae_host_entropy]
      Proc.lift (Check.ensure ((lib.base64_encode signature).length < output_len))
      pure (some (lib.base64_encode signature ++ [0]))

/-! ### The file -/

/-- A word in any letter case and the character behind it: the place after that. -/
def readKeyword (literal : Bytes) (c : UInt8) (errmsg : String) (str : Bytes) (ptr : Nat) : Check Stop Nat := do
  match ← memchr str c ptr (str.length - ptr) with
  | none => reject CBOR_RPC_BAD_PARAMETERS errmsg
  | some stop =>
    if stop - ptr ≠ literal.length then reject CBOR_RPC_BAD_PARAMETERS errmsg
    else if ← strncasecmp str ptr literal (stop - ptr) then pure (stop + 1)
    else reject CBOR_RPC_BAD_PARAMETERS errmsg

def readPrefix (str : Bytes) : Check Stop Nat := readKeyword SIGN_MESSAGE_FILE_PREFIX ' '.toUInt8 "Invalid prefix" str 0

/-- The path, and its text as it is printed back. -/
def readPath (str : Bytes) (ptr : Nat) : Check Stop ((Path × Bytes) × Nat) := do
  match ← memchr str ' '.toUInt8 ptr (str.length - ptr) with
  | none => reject CBOR_RPC_BAD_PARAMETERS "Invalid bip32 path"
  | some stop =>
    match wallet_bip32_path_from_str lib (← slice str ptr (stop - ptr)) with
    | none => reject CBOR_RPC_BAD_PARAMETERS "Invalid bip32 path"
    | some path =>
      if path = [] then reject CBOR_RPC_BAD_PARAMETERS "Invalid bip32 path"
      else
        match wallet_bip32_path_as_str path (MAX_PATH_STR_LEN MAX_PATH_LEN) false with
        | none => reject CBOR_RPC_BAD_PARAMETERS "Invalid bip32 path"
        | some pathstr => pure ((path, ascii pathstr), stop + 1)

def readLabel (str : Bytes) (ptr : Nat) : Check Stop Nat :=
  readKeyword SIGN_MESSAGE_FILE_LABEL_ASCII ':'.toUInt8 "Invalid message prefix" str ptr

/-- What is left is the message: its length, if it can be shown in full. -/
def readMessage (str : Bytes) (ptr : Nat) : Check Stop Nat := do
  if str.length ≤ ptr then reject CBOR_RPC_BAD_PARAMETERS "Invalid message bytes"
  else if (← byteAt str ptr) = 0 then reject CBOR_RPC_BAD_PARAMETERS "Invalid message bytes"
  else if MAX_DISPLAY_MESSAGE_LEN ≤ str.length - ptr then reject CBOR_RPC_BAD_PARAMETERS "Message too long to display"
  else if ← message_is_displayable str ptr (str.length - ptr) then pure (str.length - ptr)
  else reject CBOR_RPC_BAD_PARAMETERS "Message contains a character the screen cannot show"

/-- The message is hashed, shown and signed. -/
def signMessage (str : Bytes) (ptr len : Nat) (path : Path) (pathstr : Bytes) (sig_len : Nat) : Sign Bytes := do
  match wallet_get_message_hash lib (← Proc.lift (slice str ptr len)) with
  | none => Proc.fail (.reject CBOR_RPC_INTERNAL_ERROR "Failed to get message hash")
  | some message_hash =>
    if ← confirm_sign_message lib user str ptr len message_hash pathstr then
      match ← wallet_sign_message_hash lib message_hash path none sig_len with
      | none => Proc.fail (.reject CBOR_RPC_INTERNAL_ERROR "Failed to sign message")
      | some sig_output => pure sig_output
    else Proc.fail (.reject CBOR_RPC_USER_CANCELLED "User declined to sign message")

def sign_message_file (str : Bytes) (sig_len : Nat) : Sign Bytes := do
  Proc.lift (Check.ensure (str.length != 0))
  Proc.lift (Check.ensure (EC_SIGNATURE_LEN * 2 ≤ sig_len))
  let ptr ← Proc.lift (readPrefix str)
  let ((path, pathstr), ptr) ← Proc.lift (readPath lib str ptr)
  let ptr ← Proc.lift (readLabel str ptr)
  let len ← Proc.lift (readMessage str ptr)
  signMessage lib user str ptr len path pathstr sig_len

/-! ### The request -/

/-- The message that follows a request, if it is the one expected: its id, and the entropy if it has parameters. -/
structure GetSignature where
  rpc_get_id : Check CborRpc.Fault Bytes
  ae_host_entropy : Option (Check CborRpc.Fault Bytes)

/-- The fields of a request, each as it comes when it is asked for: a pointer to a string may fail an assertion.
    A string or bytes that cannot be had are empty. -/
structure Request where
  rpc_get_id : Check CborRpc.Fault Bytes
  rpc_get_id_ptr : Check CborRpc.Fault Bytes
  message_file : Option (Check CborRpc.Fault Bytes)
  message : Check CborRpc.Fault Bytes
  path : Check CborRpc.Fault (Option Path)
  ae_host_commitment : Option (Check CborRpc.Fault Bytes)
  get_signature : Option GetSignature

/-- A field is asked for. -/
def extract {α : Type} (field : Check CborRpc.Fault α) : Sign α :=
  Proc.lift <| match field with
    | .ok a => .ok a
    | .error .abort => .error .abort
    | .error .waiting => .error .waiting
    | .error (.error .out_of_bounds) => .error (.error .out_of_bounds)

def isGdkLoginChallenge (path : Path) (message : Bytes) : Bool :=
  path == [GDK_CHALLENGE_PATH] && message.length == GDK_CHALLENGE_LENGTH &&
    strncmp message GDK_CHALLENGE_PREFIX GDK_CHALLENGE_PREFIX.length == .eq

/-- A reply has an id, also where it is taken for a string. -/
def jade_process_reply_to_message_result (rpc_get_id : Check CborRpc.Fault Bytes) : Sign Unit := do
  let id ← extract rpc_get_id
  Proc.lift (Check.ensure (id.length != 0))
  Proc.lift (Check.ensure ((cstr id).length != 0))

def jade_process_reply_to_message_bytes (rpc_get_id_ptr : Check CborRpc.Fault Bytes) : Sign Unit := do
  let id ← extract rpc_get_id_ptr
  Proc.lift (Check.ensure (id.length != 0))

/-- The checks of what goes into a reply. -/
def replySignature (rpc_get_id : Check CborRpc.Fault Bytes) (signature : Bytes) : Sign Bytes := do
  Proc.lift (Check.ensure (signature.length < EC_SIGNATURE_LEN * 2))
  Proc.lift (Check.ensure (signature.getLast? == some 0))
  jade_process_reply_to_message_result rpc_get_id
  pure signature

/-- The commitment of the host, if there is one. -/
def readCommitment (request : Request) : Sign (Option Bytes) :=
  match request.ae_host_commitment with
  | none => pure none
  | some field => do
    let ae_host_commitment ← extract field
    if ae_host_commitment.length ≠ WALLY_HOST_COMMITMENT_LEN then
      Proc.fail (.reject CBOR_RPC_BAD_PARAMETERS "Failed to extract valid host commitment from parameters")
    else pure (some ae_host_commitment)

/-- The commitment is exchanged for the entropy of the host, if there is one. The message that asks for the signature
    is the one to reply to. -/
def exchangeEntropy (request : Request) (hash : Bytes) (path : Path) :
    Option Bytes → Sign (Option Bytes × Check CborRpc.Fault Bytes)
  | none => pure (none, request.rpc_get_id)
  | some ae_host_commitment => do
    Proc.lift (Check.ensure (ae_host_commitment.length == WALLY_HOST_COMMITMENT_LEN))
    if lib.ae_signer_commit_from_bytes path hash ae_host_commitment = none then
      Proc.fail (.reject CBOR_RPC_INTERNAL_ERROR "Failed to make ae signer commitment")
    else
      jade_process_reply_to_message_bytes request.rpc_get_id_ptr
      match request.get_signature with
      | none => Proc.fail (.reject CBOR_RPC_PROTOCOL_ERROR "Unexpected message, expecting 'get_signature'")
      | some next =>
        match next.ae_host_entropy with
        | none => Proc.fail (.reject CBOR_RPC_BAD_PARAMETERS "Expecting parameters map")
        | some field =>
          let ae_host_entropy ← extract field
          if ae_host_entropy.length ≠ WALLY_S2C_DATA_LEN then
            Proc.fail (.reject CBOR_RPC_BAD_PARAMETERS "Failed to extract host entropy from parameters")
          else pure (some ae_host_entropy, next.rpc_get_id)

def signConfirmed (request : Request) (hash : Bytes) (path : Path) (ae_host_commitment : Option Bytes) : Sign Bytes := do
  let (ae_host_entropy, rpc_get_id) ← exchangeEntropy lib request hash path ae_host_commitment
  match ← wallet_sign_message_hash lib hash path ae_host_entropy (EC_SIGNATURE_LEN * 2) with
  | none => Proc.fail (.reject CBOR_RPC_INTERNAL_ERROR "Failed to sign message")
  | some sig_output =>
    if sig_output.length = 0 then Proc.fail (.reject CBOR_RPC_INTERNAL_ERROR "Failed to sign message")
    else replySignature rpc_get_id sig_output

/-- A login challenge is signed without asking. -/
def confirmRequest (message hash : Bytes) (path : Path) (pathstr : Bytes) : Sign Unit := do
  if isGdkLoginChallenge path message then pure ()
  else if ← Proc.lift (message_is_displayable message 0 message.length) then
    if ← confirm_sign_message lib user message 0 message.length hash pathstr then pure ()
    else Proc.fail (.reject CBOR_RPC_USER_CANCELLED "User declined to sign message")
  else Proc.fail (.reject CBOR_RPC_BAD_PARAMETERS "Message contains a character the screen cannot show")

/-- The part of `sign_message_process` for a message and a path. -/
def signRequest (request : Request) : Sign Bytes := do
  let message ← extract request.message
  if message.length = 0 then
    Proc.fail (.reject CBOR_RPC_BAD_PARAMETERS "Failed to extract message from parameters")
  else if MAX_DISPLAY_MESSAGE_LEN ≤ message.length then
    Proc.fail (.reject CBOR_RPC_BAD_PARAMETERS "Message too long to display")
  else
    match wallet_get_message_hash lib message with
    | none => Proc.fail (.reject CBOR_RPC_INTERNAL_ERROR "Failed to convert message to btc hex format")
    | some message_hash =>
      let path := (← extract request.path).getD []
      if path = [] then
        Proc.fail (.reject CBOR_RPC_BAD_PARAMETERS "Failed to extract valid path from parameters")
      else
        match wallet_bip32_path_as_str path (MAX_PATH_STR_LEN MAX_PATH_LEN) false with
        | none => Proc.fail (.reject CBOR_RPC_INTERNAL_ERROR "Failed to convert path to string format")
        | some pathstr =>
          let ae_host_commitment ← readCommitment request
          confirmRequest lib user message message_hash path (ascii pathstr)
          signConfirmed lib request message_hash path ae_host_commitment

/-- The part of `sign_message_process` for a file. -/
def signFile (rpc_get_id : Check CborRpc.Fault Bytes) (message_file : Bytes) : Sign Bytes :=
  if message_file.length = 0 then
    Proc.fail (.reject CBOR_RPC_BAD_PARAMETERS "Invalid sign message file data")
  else do
    let signature ← sign_message_file lib user message_file (EC_SIGNATURE_LEN * 2)
    Proc.lift (Check.ensure (signature.length != 0))
    replySignature rpc_get_id signature

/-- What `sign_message_process` does with the fields of a request. -/
def processRequest (request : Request) : Sign Bytes :=
  match request.message_file with
  | some field => do
    let message_file ← extract field
    signFile lib user request.rpc_get_id message_file
  | none => signRequest lib user request

end

end PiJade.SignMessage
