import PiJade.Process
import PiJade.Text

/-!
Recovery phrases and their backups: the digits of a SeedQR (`main/seedqr.c`), and the import of
raw entropy, of digits, and of words or prefixes of words (`import_mnemonic` and what it calls in
`main/process/mnemonic.c`). The word list, SHA-256 and the encoding of entropy are those of
libwally, parameters here, as is the parser of a BC-UR phrase.
-/
namespace PiJade.Mnemonic
open Text
set_option linter.unusedSimpArgs false

inductive Fault where
  | out_of_bounds
  | diverged
  deriving DecidableEq, Repr

/-- What is called and is not here. -/
structure Library where
  /-- The English words, by their index. -/
  wordlist : List Bytes
  wally_sha256 : Bytes → Bytes
  bip39_mnemonic_from_bytes : Bytes → Bytes
  bcur_parse_bip39_wrapper : Bytes → Check Fault (Option Bytes)

def BIP32_ENTROPY_LEN_128 : Nat := 16
def BIP32_ENTROPY_LEN_256 : Nat := 32
def SEEDQR_INDEX_BITS : Nat := 11
def SEEDQR_DIGITS_PER_WORD : Nat := 4
/-- `24 8-character words + 23 spaces + NUL` -/
def MNEMONIC_BUFLEN : Nat := 216

/-! ### Digits -/

/-- The index at a word's bits: three bytes are read, and the eleven bits are moved to the right. -/
def seedqrIndex (work : Bytes) (i : Nat) : Check Fault Nat := do
  let bit_offset := SEEDQR_INDEX_BITS * i
  let byte_offset := bit_offset / 8
  let shift := 24 - SEEDQR_INDEX_BITS - bit_offset % 8
  Check.ensure (byte_offset + 2 < work.length)
  let triple := (work.getD byte_offset 0).toNat <<< 16 ||| (work.getD (byte_offset + 1) 0).toNat <<< 8 |||
    (work.getD (byte_offset + 2) 0).toNat
  pure (triple >>> shift &&& 0x7FF)

/-- As printed by `%04u`. -/
def fourDigits (n : Nat) : Bytes := List.replicate (4 - (decimal n).length) 48 ++ decimal n

def seedqrDigits (work : Bytes) (i : Nat) : Check Fault Bytes := do
  let index ← seedqrIndex work i
  Check.ensure ((fourDigits index).length = SEEDQR_DIGITS_PER_WORD)
  pure (fourDigits index)

/-- The digits, without the terminator. -/
def seedqr_digits_from_entropy (lib : Library) (entropy : Bytes) (digits_len : Nat) : Check Fault (Option Bytes) :=
  let num_words := entropy.length * 3 / 4
  let num_digits := num_words * SEEDQR_DIGITS_PER_WORD
  if entropy.length ≠ BIP32_ENTROPY_LEN_128 ∧ entropy.length ≠ BIP32_ENTROPY_LEN_256 then .ok none
  else if digits_len < num_digits + 1 then .ok none
  else do
    let hash := lib.wally_sha256 entropy
    let work := entropy ++ hash.getD 0 0 :: List.replicate (35 - (entropy.length + 1)) 0
    let digits ← Check.mapAll (seedqrDigits work) (List.range num_words)
    pure (some digits.flatten)

/-! ### Words -/

def wordlist_word (wordlist : List Bytes) (index : Nat) : Check Fault Bytes :=
  match wordlist[index]? with
  | some word => .ok word
  | none => .error .abort

/-- What the search has found. -/
structure Found where
  num_possible_words : Nat
  exact_match : Bool
  output_word_list : List Nat
  deriving DecidableEq, Repr

/-- A word of the list that begins with the stem. -/
def Found.add (found : Found) (wordlist_index : Nat) (exact : Bool) (output_word_list_len : Nat) : Found where
  num_possible_words := found.num_possible_words + 1
  exact_match := found.exact_match || exact
  output_word_list :=
    if found.num_possible_words < output_word_list_len then found.output_word_list ++ [wordlist_index]
    else found.output_word_list

/-- The loop over the list, which is left at the first word behind the stem. -/
def searchWords (wordlist : List Bytes) (word : Bytes) (output_word_list_len : Nat) :
    List Nat → Found → Check Fault Found
  | [], found => .ok found
  | wordlist_index :: later, found => do
    let wordlist_extracted ← wordlist_word wordlist wordlist_index
    match strncmp wordlist_extracted word word.length with
    | .lt => searchWords wordlist word output_word_list_len later found
    | .gt => pure found
    | .eq =>
      -- behind its terminator a word is not to be read
      if wordlist_extracted.length < word.length then .error (.error .out_of_bounds)
      else
        let exact := wordlist_extracted.getD word.length 0 = 0
        Check.ensure (!exact || found.num_possible_words = 0)
        Check.ensure (!exact || !found.exact_match)
        searchWords wordlist word output_word_list_len later (found.add wordlist_index exact output_word_list_len)

/-- `word` is the stem, as long as `word_len` says. -/
def valid_words (wordlist : List Bytes) (word : Bytes) (filter_word_list : Option (List Nat))
    (output_word_list_len : Nat) : Check Fault Found :=
  if word.length = 0 ∧ filter_word_list = none then
    .ok { num_possible_words := wordlist.length, exact_match := false, output_word_list := List.range output_word_list_len }
  else
    searchWords wordlist word output_word_list_len (filter_word_list.getD (List.range wordlist.length))
      { num_possible_words := 0, exact_match := false, output_word_list := [] }

def isprint (c : UInt8) : Bool := 32 ≤ c && c ≤ 126

def string_all (s : Bytes) (fntest : UInt8 → Bool) : Bool := (cstr s).all fntest

/-- `memcpy` to where the output ends. -/
def put (buf_len : Nat) (out bytes : Bytes) : Check Fault Bytes :=
  if out.length + bytes.length ≤ buf_len then .ok (out ++ bytes) else .error (.error .out_of_bounds)

/-- A loop of `expand_words`: the text from `read_ptr` on, and what is written. -/
def expandFrom (lib : Library) (buf_len : Nat) : Nat → Bytes → Bytes → Check Fault (Option Bytes)
  | 0, _, _ => .error (.error .diverged)
  | fuel + 1, text, out =>
    if buf_len ≤ out.length then .ok none
    else do
      -- up to the next space, or everything that is left
      let space := (cstr text).idxOf 32
      let spaced := decide (space < (cstr text).length)
      let stem := if spaced then text.take space else text
      let found ← valid_words lib.wordlist stem none 1
      if found.num_possible_words ≠ 1 ∧ found.exact_match = false then pure none
      else
        let wordlist_extracted ← wordlist_word lib.wordlist (found.output_word_list.headD 0)
        if buf_len ≤ out.length + wordlist_extracted.length then pure none
        else
          let out ← put buf_len out wordlist_extracted
          let out ← put buf_len out [if spaced then 32 else 0]
          if spaced then expandFrom lib buf_len fuel (text.drop (space + 1)) out else pure (some out)

/-- What is written, with its terminator. -/
def expand_words (lib : Library) (bytes : Bytes) (buf_len : Nat) : Check Fault (Option Bytes) :=
  if !string_all bytes isprint then .ok none
  else if (cstr bytes).length = 0 then .ok none
  else expandFrom lib buf_len (bytes.length + 1) bytes []

/-! ### Formats -/

def bcqrtag : Bytes := ['U', 'R', ':', 'C', 'R', 'Y', 'P', 'T', 'O', '-', 'B', 'I', 'P', '3', '9'].map Char.toUInt8

def import_bcur_bip39 (lib : Library) (bytes : Bytes) : Check Fault (Option Bytes) :=
  if bytes.length ≤ bcqrtag.length + 1 ∨ bcqrtag.map tolower ≠ (bytes.take bcqrtag.length).map tolower then .ok none
  else lib.bcur_parse_bip39_wrapper bytes

/-- `strtol` in base ten, of a text that is too short to overflow. It ends at a terminator, as at anything else that is no digit. -/
def strtol (nptr : Bytes) : Int :=
  let signed := nptr.dropWhile isspace
  let unsigned := if signed.head? = some 45 ∨ signed.head? = some 43 then signed.tail else signed
  let value : Int := number (unsigned.takeWhile isdigit)
  if signed.head? = some 45 then -value else value

/-- The words of the indices from word `i` on. -/
def seedqrWords (lib : Library) (bytes : Bytes) (buf_len : Nat) : List Nat → Bytes → Check Fault (Option Bytes)
  | [], out => .ok (some out)
  | i :: later, out =>
    let index := (strtol ((bytes.drop (i * 4)).take 4) % 2 ^ 64).toNat
    if 2047 < index then .ok none
    else do
      let wordlist_extracted ← wordlist_word lib.wordlist index
      if buf_len ≤ out.length + 1 + wordlist_extracted.length + 1 then pure none
      else
        let out ← put buf_len out (if 0 < i then [32] else [])
        let out ← put buf_len out wordlist_extracted
        seedqrWords lib bytes buf_len later out

def import_seedqr (lib : Library) (bytes : Bytes) (buf_len : Nat) : Check Fault (Option Bytes) :=
  if bytes.length ≠ 48 ∧ bytes.length ≠ 96 ∨ !string_all bytes isdigit then .ok none
  else do
    let num_words := if bytes.length = 48 then 12 else 24
    match ← seedqrWords lib bytes buf_len (List.range num_words) [] with
    | none => pure none
    | some out => do
      let out ← put buf_len out [0]
      pure (some out)

def mnemonic_from_entropy (lib : Library) (entropy : Bytes) (buf_len : Nat) : Check Fault Bytes := do
  let mnemonic := cstr (lib.bip39_mnemonic_from_bytes entropy)
  Check.ensure (mnemonic.length < buf_len)
  put buf_len [] (mnemonic ++ [0])

def import_compactseedqr (lib : Library) (bytes : Bytes) (buf_len : Nat) : Check Fault (Option Bytes) :=
  if bytes.length ≠ BIP32_ENTROPY_LEN_128 ∧ bytes.length ≠ BIP32_ENTROPY_LEN_256 then .ok none
  else do
    let out ← mnemonic_from_entropy lib bytes buf_len
    pure (some out)

/-- The first of the two that gives a phrase. -/
def orElse (first : Check Fault (Option Bytes)) (second : Check Fault (Option Bytes)) : Check Fault (Option Bytes) := do
  match ← first with
  | some out => pure (some out)
  | none => second

/-- What is in the buffer, if a phrase was read. -/
def import_mnemonic (lib : Library) (bytes : Bytes) (buf_len : Nat) : Check Fault (Option Bytes) := do
  Check.ensure (MNEMONIC_BUFLEN ≤ buf_len)
  orElse (import_compactseedqr lib bytes buf_len) <|
    orElse (import_seedqr lib bytes buf_len) <|
    orElse (import_bcur_bip39 lib bytes) (expand_words lib bytes buf_len)

end PiJade.Mnemonic
