import PiJade.MultisigFile

/-!
An exported record is read back, if the parser can hold its derivations: a derivation that is
empty, or whose text is longer than the buffer for a value, is written but not read.
-/
namespace PiJade.Multisig
open Text Wallet
open SettingsCodec (ascii)
set_option linter.unusedSimpArgs false

/-! ### What is written -/

def newline : UInt8 := '\n'.toUInt8

/-- A line of the file. -/
def keyValue (key value : Bytes) : Bytes := key ++ ascii ": " ++ value

/-- Lines with their ends. -/
def unlines (ls : List Bytes) : Bytes := ls.flatMap fun line => line ++ [newline]

/-- `m/a'/b'/c/d`. -/
def pathText (derivation : Path) : Bytes := 'm'.toUInt8 :: derivation.flatMap fun part => ascii (pathElement false part)

def signerLines (codecs : Codecs) (signer : Signer) : List Bytes :=
  [keyValue MSIG_FILE_DERIVATION (pathText signer.derivation),
    keyValue (codecs.hex_from_bytes signer.fingerprint) signer.xpub]

/-- The lines in front of the signers. -/
def headLines (record : Record) (format : Bytes) : List Bytes :=
  [keyValue MSIG_FILE_NAME record.multisig_name,
    keyValue MSIG_FILE_POLICY (decimal record.threshold ++ ascii " of " ++ decimal record.signers.length),
    keyValue MSIG_FILE_FORMAT format] ++
  (if record.sorted then [] else [keyValue MSIG_FILE_SORTED (ascii "False")])

theorem ascii_append (s t : String) : ascii (s ++ t) = ascii s ++ ascii t := by
  simp [ascii]

theorem pathAsStrFrom_text {output_len : Nat} {output text : String} {first : Bool} {path : Path}
    (written : pathAsStrFrom output_len false output first path = some text) :
    ascii text = ascii output ++ path.flatMap fun part => ascii (pathElement false part) := by
  induction path generalizing output first with
  | nil =>
    cases written
    simp
  | cons part rest ih =>
    rw [pathAsStrFrom] at written
    split at written
    · cases written
    · rw [ih written, ascii_append, List.flatMap_cons, List.append_assoc, Bool.false_and]

theorem path_as_str_text {path : Path} {output_len : Nat} {text : String}
    (written : wallet_bip32_path_as_str path output_len false = some text) : ascii text = pathText path := by
  rw [pathAsStrFrom_text written]
  rfl

theorem write_text_some {output_len : Nat} {output text out : Bytes} {add_eol : Bool}
    (written : write_text output_len output text add_eol = some out) :
    out = output ++ text ++ if add_eol then ascii "\n" else [] := by
  rw [write_text] at written
  split at written
  · cases written
  · cases written
    rfl

theorem writeKeyValueLine_some {output_len : Nat} {output key value out : Bytes}
    (written : writeKeyValueLine output_len output key value = some out) :
    out = output ++ unlines [keyValue key value] := by
  simp only [writeKeyValueLine, Option.bind_eq_bind, Option.bind_eq_some_iff] at written
  obtain ⟨first, one, second, two, three⟩ := written
  rw [write_text_some three, write_text_some two, write_text_some one]
  simp [unlines, keyValue, newline, ascii, Char.toUInt8]

theorem unlines_append (ls more : List Bytes) : unlines (ls ++ more) = unlines ls ++ unlines more := by
  simp [unlines]

theorem writeSigner_some {codecs : Codecs} {output_len : Nat} {output out : Bytes} {signer : Signer}
    (written : writeSigner codecs output_len output signer = some out) :
    out = output ++ unlines (signerLines codecs signer) := by
  rw [writeSigner] at written
  split at written
  · cases written
  simp only [Option.bind_eq_bind, Option.bind_eq_some_iff] at written
  obtain ⟨path, text, middle, one, two⟩ := written
  rw [writeKeyValueLine_some two, writeKeyValueLine_some one, path_as_str_text text, List.append_assoc, ← unlines_append]
  rfl

theorem writeSigners_some {codecs : Codecs} {output_len : Nat} {output out : Bytes} {signers : List Signer}
    (written : signers.foldlM (writeSigner codecs output_len) output = some out) :
    out = output ++ unlines (signers.flatMap (signerLines codecs)) := by
  induction signers generalizing output with
  | nil =>
    cases written
    simp [unlines]
  | cons signer rest ih =>
    simp only [List.foldlM_cons, Option.bind_eq_bind, Option.bind_eq_some_iff] at written
    obtain ⟨middle, one, later⟩ := written
    rw [ih later, writeSigner_some one, List.flatMap_cons, unlines_append, List.append_assoc]

theorem writeSorted_some {output_len : Nat} {output out : Bytes} {sorted : Bool}
    (written : writeSorted output_len output sorted = some out) :
    out = output ++ unlines (if sorted then [] else [keyValue MSIG_FILE_SORTED (ascii "False")]) := by
  cases sorted with
  | true =>
    cases written
    simp [unlines]
  | false => exact writeKeyValueLine_some written

/-- The text of an export. -/
theorem export_text {codecs : Codecs} {record : Record} {output_len : Nat} {text : Bytes}
    (no_key : record.master_blinding_key = [])
    (exported : multisig_create_export_file codecs record output_len = .ok (some text)) :
    ∃ format, formatText record.variant = some format ∧
      text = unlines (ascii "# Exported by Blockstream Jade" :: headLines record format ++
        record.signers.flatMap (signerLines codecs)) := by
  rw [multisig_create_export_file] at exported
  obtain ⟨_, _, exported⟩ := Check.bind_eq_ok.mp exported
  cases written : writeFile codecs record output_len with
  | none =>
    rw [written] at exported
    cases exported
  | some output =>
    rw [written] at exported
    obtain ⟨_, _, returned⟩ := Check.bind_eq_ok.mp exported
    cases returned
    simp only [writeFile, writeBlindingKey, no_key, List.length_nil, if_true, Option.bind_eq_bind, Option.bind_some,
      Option.bind_eq_some_iff] at written
    obtain ⟨comment, wrote_comment, named, wrote_name, policy, wrote_policy, format, is_format, formatted, wrote_format,
      sorted, wrote_sorted, wrote_signers⟩ := written
    refine ⟨format, is_format, ?_⟩
    rw [writeSigners_some wrote_signers, writeSorted_some wrote_sorted, writeKeyValueLine_some wrote_format,
      writeKeyValueLine_some wrote_policy, writeKeyValueLine_some wrote_name, write_text_some wrote_comment]
    simp [headLines, unlines, newline, ascii, Char.toUInt8]

/-! ### What is read of a line -/

theorem splitOn_unlines {ls : List Bytes} (no_newline : ∀ line ∈ ls, newline ∉ line) :
    (unlines ls).splitOn newline = ls ++ [[]] := by
  induction ls with
  | nil => simp [unlines]
  | cons line rest ih =>
    have first : newline ∉ line := no_newline line List.mem_cons_self
    have later := ih fun other inside => no_newline other (List.mem_cons_of_mem _ inside)
    have split : unlines (line :: rest) = line ++ newline :: unlines rest := by simp [unlines]
    rw [split, List.splitOn_append_cons_self_of_not_mem first, later, List.cons_append]

/-- A line that is not skipped, and is split where it was joined. -/
structure Plain (key value : Bytes) : Prop where
  some_key : key ≠ []
  no_comment : key.head? ≠ some '#'.toUInt8
  no_colon : ':'.toUInt8 ∉ key
  one_line : newline ∉ key ++ value
  some_value : value ≠ []
  no_space : ∀ c later, value = c :: later → isspace c = false

section
variable {key value : Bytes} (plain : Plain key value)
include plain

theorem Plain.colon : (keyValue key value).idxOf? ':'.toUInt8 = some key.length := by
  have split : keyValue key value = key ++ ':'.toUInt8 :: ' '.toUInt8 :: value := by
    simp [keyValue, ascii, Char.toUInt8]
  rw [split, List.idxOf?, List.findIdx?_append]
  have absent : key.findIdx? (· == ':'.toUInt8) = none := by
    rw [List.findIdx?_eq_none_iff]
    intro c inside
    apply beq_eq_false_iff_ne.mpr
    rintro rfl
    exact plain.no_colon inside
  rw [absent, List.findIdx?_cons]
  simp

theorem Plain.name : (keyValue key value).takeWhile (· ≠ ':'.toUInt8) = key := by
  have split : keyValue key value = key ++ ':'.toUInt8 :: ' '.toUInt8 :: value := by
    simp [keyValue, ascii, Char.toUInt8]
  rw [split, List.takeWhile_append_of_pos, List.takeWhile_cons_of_neg (by simp), List.append_nil]
  intro c inside
  simp only [decide_eq_true_eq]
  rintro rfl
  exact plain.no_colon inside

theorem Plain.split : split_line (keyValue key value) = if value.length < LINE_VALUE_LEN then some (key, value) else none := by
  obtain ⟨c, later, rfl⟩ := List.exists_cons_of_ne_nil plain.some_value
  have not_space := plain.no_space c later rfl
  have key_length : key.length ≠ 0 := fun zero => plain.some_key (List.length_eq_zero_iff.mp zero)
  have dropped : ((keyValue key (c :: later)).drop (key.length + 1)).dropWhile isspace = c :: later := by
    have split : keyValue key (c :: later) = (key ++ [':'.toUInt8]) ++ ' '.toUInt8 :: c :: later := by
      simp [keyValue, ascii, Char.toUInt8]
    rw [split, show key.length + 1 = (key ++ [':'.toUInt8]).length by simp, List.drop_left,
      List.dropWhile_cons_of_pos (by decide), List.dropWhile_cons_of_neg (by simp [not_space])]
  have taken : (keyValue key (c :: later)).take key.length = key := by
    rw [keyValue, List.append_assoc, List.take_left]
  rw [split_line, plain.colon]
  dsimp only
  rw [if_neg key_length, dropped, taken]
  by_cases fits : (c :: later).length < LINE_VALUE_LEN
  · rw [if_pos fits, if_neg]
    rintro (zero | long)
    · simp at zero
    · omega
  · rw [if_neg fits, if_pos (.inr (Nat.le_of_not_lt fits))]

theorem Plain.kept : keyValue key value ≠ [] ∧ (keyValue key value).head? ≠ some '#'.toUInt8 := by
  obtain ⟨c, later, rfl⟩ := List.exists_cons_of_ne_nil plain.some_key
  have first := plain.no_comment
  rw [keyValue]
  exact ⟨by simp, by simpa using first⟩

theorem Plain.no_newline : newline ∉ keyValue key value := by
  have separate := plain.one_line
  rw [List.mem_append, not_or] at separate
  simp only [keyValue, List.mem_append, separate, false_or, or_false]
  decide

end

/-- A line that is not too long goes to the handler of its name. -/
theorem readLine_plain {codecs : Codecs} {xpub_version key value : Bytes} (plain : Plain key value) (fields : Fields)
    (not_key : isField key MSIG_FILE_BLINDING_KEY = false) :
    readLine codecs xpub_version fields (keyValue key value) =
      if value.length < LINE_VALUE_LEN then
        if isField key MSIG_FILE_NAME then readName fields value
        else if isField key MSIG_FILE_POLICY then readPolicy fields value
        else if isField key MSIG_FILE_FORMAT then readFormat fields value
        else if isField key MSIG_FILE_SORTED then readSorted fields value
        else if isField key MSIG_FILE_DERIVATION then readDerivation codecs fields value
        else if key.length = BIP32_KEY_FINGERPRINT_LEN * 2 then readSigner codecs xpub_version fields key value
        else refuse "Invalid multisig file"
      else refuse "Invalid multisig file" := by
  rw [readLine, plain.name, if_neg (by simp [not_key]), plain.split]
  by_cases fits : value.length < LINE_VALUE_LEN
  · rw [if_pos fits, if_pos fits]
  · rw [if_neg fits, if_neg fits]

/-! ### Registered records -/

/-- What holds of a signer that can be exported. -/
structure RegisteredSigner (codecs : Codecs) (testnet : Bool) (signer : Signer) : Prop where
  fingerprint : signer.fingerprint.length = BIP32_KEY_FINGERPRINT_LEN
  derivation : signer.derivation.length ≤ MAX_PATH_LEN
  no_string : signer.path_is_string = false
  no_path : signer.path = []
  xpub : ∃ serialised, codecs.base58_to_bytes signer.xpub = some serialised ∧
    serialised.length = BIP32_SERIALIZED_LEN ∧ serialised.take 4 = xpubVersion testnet ∧
    (serialised.getD (BIP32_SERIALIZED_LEN - EC_PUBLIC_KEY_LEN) 0 = 2 ∨
      serialised.getD (BIP32_SERIALIZED_LEN - EC_PUBLIC_KEY_LEN) 0 = 3)
  xpub_text : ∀ c ∈ signer.xpub, isalnum c = true
  xpub_length : 4 ≤ signer.xpub.length ∧ signer.xpub.length < XPUB_LEN

/-- What holds of a record on a bitcoin network. -/
structure Registered (codecs : Codecs) (testnet : Bool) (record : Record) : Prop where
  name : storage_key_name_valid record.multisig_name = true
  name_length : record.multisig_name.length < MAX_MULTISIG_NAME_SIZE
  threshold : 1 ≤ record.threshold ∧ record.threshold ≤ record.signers.length
  signers_length : record.signers.length ≤ MAX_ALLOWED_SIGNERS
  no_blinding_key : record.master_blinding_key = []
  signers : ∀ signer ∈ record.signers, RegisteredSigner codecs testnet signer

/-- Hex is read back as it was written, and so are paths; a path with no elements may also be
    refused. -/
structure Reads (codecs : Codecs) (signer : Signer) : Prop where
  hex : codecs.hex_to_bytes (codecs.hex_from_bytes signer.fingerprint) = some signer.fingerprint
  hex_length : (codecs.hex_from_bytes signer.fingerprint).length = 2 * signer.fingerprint.length
  hex_digits : ∀ c ∈ codecs.hex_from_bytes signer.fingerprint, isxdigit c = true
  path : codecs.bip32_path_from_str (pathText signer.derivation) = some signer.derivation ∨
    signer.derivation = [] ∧ codecs.bip32_path_from_str (pathText signer.derivation) = none

theorem alnum_plain {c : UInt8} (alnum : isalnum c = true) : c ≠ newline ∧ c ≠ ':'.toUInt8 ∧ c ≠ '#'.toUInt8 := by
  refine ⟨?_, ?_, ?_⟩
  · rintro rfl
    cases alnum
  · rintro rfl
    cases alnum
  · rintro rfl
    cases alnum

theorem pathElement_plain {part : UInt32} {c : UInt8} (inside : c ∈ ascii (pathElement false part)) : c ≠ newline := by
  rw [pathElement, ascii_append, ascii_append, List.mem_append, List.mem_append] at inside
  rcases inside with (slash | digits) | quote
  · rintro rfl
    revert slash
    decide
  · have digit : c ∈ decimal (unharden part).toNat := by simpa [ascii, decimal] using digits
    exact (alnum_plain (isdigit_isalnum (decimal_digits digit))).1
  · rintro rfl
    split at quote
    · revert quote
      decide
    · revert quote
      decide

theorem pathText_no_newline (path : Path) : newline ∉ pathText path := by
  rw [pathText, List.mem_cons, List.mem_flatMap]
  rintro (first | ⟨part, _, inside⟩)
  · cases first
  · exact pathElement_plain inside rfl

theorem derivation_plain (path : Path) : Plain MSIG_FILE_DERIVATION (pathText path) := by
  refine ⟨by decide, by decide, by decide, ?_, by simp [pathText], ?_⟩
  · rw [List.mem_append, not_or]
    exact ⟨by decide, pathText_no_newline path⟩
  · rintro c later same
    rw [pathText] at same
    obtain ⟨rfl, _⟩ := List.cons.inj same
    rfl

theorem signer_plain {codecs : Codecs} {testnet : Bool} {signer : Signer}
    (registered : RegisteredSigner codecs testnet signer) (reads : Reads codecs signer) :
    Plain (codecs.hex_from_bytes signer.fingerprint) signer.xpub := by
  have length := reads.hex_length
  rw [registered.fingerprint] at length
  have digits : ∀ c ∈ codecs.hex_from_bytes signer.fingerprint, isalnum c = true :=
    fun c inside => isxdigit_isalnum (reads.hex_digits c inside)
  refine ⟨?_, ?_, ?_, ?_, ?_, ?_⟩
  · intro nothing
    rw [nothing] at length
    cases length
  · intro comment
    exact (alnum_plain (digits _ (List.mem_of_mem_head? comment))).2.2 rfl
  · intro colon
    exact (alnum_plain (digits _ colon)).2.1 rfl
  · rw [List.mem_append, not_or]
    exact ⟨fun inside => (alnum_plain (digits _ inside)).1 rfl,
      fun inside => (alnum_plain (registered.xpub_text _ inside)).1 rfl⟩
  · intro nothing
    have long := registered.xpub_length.1
    rw [nothing] at long
    cases long
  · rintro c later same
    have alnum := registered.xpub_text c (by rw [same]; exact List.mem_cons_self)
    exact (isgraph_isspace (isalnum_isgraph alnum)).1

/-! ### The lines in front of the signers -/

theorem strtoul_decimal {n : Nat} (small : n < 2 ^ 64) : strtoul (decimal n) = (n, []) := by
  have all : ∀ c ∈ decimal n, isdigit c = true := fun c => decimal_digits
  obtain ⟨c, later, split⟩ := List.exists_cons_of_ne_nil (decimal_ne_nil n)
  have first : isdigit c = true := all c (by rw [split]; exact List.mem_cons_self)
  have not_space : isspace c = false := (isgraph_isspace (isalnum_isgraph (isdigit_isalnum first))).1
  have not_sign : c ≠ '-'.toUInt8 ∧ c ≠ '+'.toUInt8 := by
    constructor
    · rintro rfl
      cases first
    · rintro rfl
      cases first
  have whole : (decimal n).takeWhile isdigit = decimal n := List.takeWhile_eq_self_iff.mpr all
  have nothing : (decimal n).dropWhile isdigit = [] := List.dropWhile_eq_nil_iff.mpr all
  have unspaced : (decimal n).dropWhile isspace = decimal n := by
    rw [split, List.dropWhile_cons_of_neg (by simp [not_space])]
  have head : (decimal n).head? = some c := by rw [split, List.head?_cons]
  rw [strtoul]
  simp only [unspaced, head, Option.some.injEq, not_sign.1, not_sign.2, or_self, if_false, whole, nothing, number_decimal]
  rw [if_neg (decimal_ne_nil n), if_neg (Nat.not_le.mpr small)]

theorem decimal_no_nul (n : Nat) : 0 ∉ decimal n := by
  intro inside
  cases decimal_digits inside

theorem idxOf_space {digits later : Bytes} (all : ∀ c ∈ digits, isdigit c = true) :
    (digits ++ ' '.toUInt8 :: later).idxOf? ' '.toUInt8 = some digits.length := by
  rw [List.idxOf?, List.findIdx?_append]
  have absent : digits.findIdx? (· == ' '.toUInt8) = none := by
    rw [List.findIdx?_eq_none_iff]
    intro c inside
    apply beq_eq_false_iff_ne.mpr
    rintro rfl
    cases all _ inside
  rw [absent, List.findIdx?_cons]
  simp

theorem readPolicy_text {fields : Fields} (first : fields.policy = none) {threshold nsigners : Nat} (positive : 1 ≤ threshold)
    (enough : threshold ≤ nsigners) (most : nsigners ≤ MAX_ALLOWED_SIGNERS) :
    readPolicy fields (decimal threshold ++ ascii " of " ++ decimal nsigners) =
      .ok { fields with policy := some (threshold, nsigners) } := by
  have digits : ∀ c ∈ decimal threshold, isdigit c = true := fun c => decimal_digits
  have text : decimal threshold ++ ascii " of " ++ decimal nsigners =
      decimal threshold ++ ' '.toUInt8 :: (ascii "of" ++ ' '.toUInt8 :: decimal nsigners) := by
    simp [ascii, Char.toUInt8]
  have rest : (decimal threshold ++ ' '.toUInt8 :: (ascii "of" ++ ' '.toUInt8 :: decimal nsigners)).drop
      ((decimal threshold).length + 1) = ascii "of" ++ ' '.toUInt8 :: decimal nsigners := by
    rw [List.drop_append, List.drop_eq_nil_of_le (by omega), show (decimal threshold).length + 1 - (decimal threshold).length = 1
      by omega]
    rfl
  have front : (decimal threshold ++ ' '.toUInt8 :: (ascii "of" ++ ' '.toUInt8 :: decimal nsigners)).take
      (decimal threshold).length = decimal threshold := List.take_left' rfl
  have second : (ascii "of" ++ ' '.toUInt8 :: decimal nsigners).idxOf? ' '.toUInt8 = some 2 := by
    simp [ascii, List.idxOf?, Char.toUInt8, List.findIdx?_cons]
  have last : (ascii "of" ++ ' '.toUInt8 :: decimal nsigners).drop (2 + 1) = decimal nsigners := by
    simp [ascii]
  have middle : (ascii "of" ++ ' '.toUInt8 :: decimal nsigners).take 2 = ascii "of" := by simp [ascii]
  have small : nsigners < 2 ^ 64 := Nat.lt_of_le_of_lt most (by decide)
  have most' : nsigners ≤ 15 := most
  rw [readPolicy, first, text, idxOf_space digits]
  dsimp only
  rw [if_neg (by simp), rest, second]
  dsimp only
  rw [last, front, middle, cstr_eq_self (decimal_no_nul threshold), cstr_eq_self (decimal_no_nul nsigners),
    strtoul_decimal (Nat.lt_of_le_of_lt enough small), strtoul_decimal small, if_neg]
  have same : strcasecmp (ascii "of") (ascii "of") = true := by decide
  simp only [same, decimal_no_nul, not_or, not_not, ne_eq, not_true, not_false_iff, Bool.not_true, Bool.false_eq_true,
    and_true, MAX_ALLOWED_SIGNERS]
  omega

theorem readName_valid {fields : Fields} (first : fields.name = none) {name : Bytes}
    (valid : storage_key_name_valid name = true) (short : name.length < MAX_MULTISIG_NAME_SIZE) :
    readName fields name = .ok { fields with name := some name, name_truncated := false } := by
  have graph : ∀ c ∈ name, isgraph c = true := by
    simp only [storage_key_name_valid, Bool.and_eq_true, List.all_eq_true] at valid
    exact valid.1.2
  have short' : name.length ≤ MAX_MULTISIG_NAME_SIZE - 1 := Nat.le_sub_one_of_lt short
  have taken : (name.take (MAX_MULTISIG_NAME_SIZE - 1)).takeWhile (· ≠ 0) = name := by
    rw [List.take_of_length_le short']
    apply cstr_eq_self
    intro nul
    exact (isgraph_isspace (graph 0 nul)).2 rfl
  have mapped : (name.map fun c => if isspace c then '_'.toUInt8 else c) = name := by
    conv_rhs => rw [← List.map_id name]
    apply List.map_congr_left
    intro c inside
    rw [(isgraph_isspace (graph c inside)).1]
    rfl
  have whole : decide (name.length > MAX_MULTISIG_NAME_SIZE - 1) = false := decide_eq_false (Nat.not_lt.mpr short')
  rw [readName, first]
  dsimp only
  rw [if_neg (by simp), taken, mapped, valid, whole]
  rfl

theorem readFormat_text {fields : Fields} (first : fields.format = none) {variant : Variant} {format : Bytes}
    (written : formatText variant = some format) : readFormat fields format = .ok { fields with format := some variant } := by
  rw [readFormat, first]
  cases variant with
  | MULTI_P2WSH =>
    cases written
    rfl
  | MULTI_P2SH =>
    cases written
    rfl
  | MULTI_P2WSH_P2SH =>
    cases written
    rfl
  | _ => cases written

theorem name_plain {name : Bytes} (valid : storage_key_name_valid name = true) : Plain MSIG_FILE_NAME name := by
  simp only [storage_key_name_valid, Bool.and_eq_true, List.all_eq_true, decide_eq_true_eq] at valid
  obtain ⟨⟨_, graph⟩, some_name⟩ := valid
  refine ⟨by decide, by decide, by decide, ?_, some_name, ?_⟩
  · rw [List.mem_append, not_or]
    refine ⟨by decide, fun inside => ?_⟩
    cases (isgraph_isspace (graph _ inside)).1
  · rintro c later rfl
    exact (isgraph_isspace (graph c List.mem_cons_self)).1

theorem policy_plain (threshold nsigners : Nat) :
    Plain MSIG_FILE_POLICY (decimal threshold ++ ascii " of " ++ decimal nsigners) := by
  have digits : ∀ n : Nat, newline ∉ decimal n := by
    intro n inside
    exact (alnum_plain (isdigit_isalnum (decimal_digits inside))).1 rfl
  refine ⟨by decide, by decide, by decide, ?_, ?_, ?_⟩
  · simp only [List.mem_append, digits, false_or, or_false]
    decide
  · simp [decimal_ne_nil]
  · rintro c later same
    obtain ⟨first, rest, split⟩ := List.exists_cons_of_ne_nil (decimal_ne_nil threshold)
    rw [split, List.cons_append, List.cons_append] at same
    obtain ⟨rfl, _⟩ := List.cons.inj same
    have digit : isdigit first = true := decimal_digits (by rw [split]; exact List.mem_cons_self)
    exact (isgraph_isspace (isalnum_isgraph (isdigit_isalnum digit))).1

theorem format_plain {variant : Variant} {format : Bytes} (written : formatText variant = some format) :
    Plain MSIG_FILE_FORMAT format ∧ format.length < LINE_VALUE_LEN := by
  cases variant with
  | MULTI_P2WSH =>
    cases written
    refine ⟨⟨by decide, by decide, by decide, by decide, by decide, ?_⟩, by decide⟩
    rintro c later same
    cases same
    rfl
  | MULTI_P2SH =>
    cases written
    refine ⟨⟨by decide, by decide, by decide, by decide, by decide, ?_⟩, by decide⟩
    rintro c later same
    cases same
    rfl
  | MULTI_P2WSH_P2SH =>
    cases written
    refine ⟨⟨by decide, by decide, by decide, by decide, by decide, ?_⟩, by decide⟩
    rintro c later same
    cases same
    rfl
  | _ => cases written

theorem sorted_plain : Plain MSIG_FILE_SORTED (ascii "False") := by
  refine ⟨by decide, by decide, by decide, by decide, by decide, ?_⟩
  rintro c later same
  cases same
  rfl

section
variable {codecs : Codecs} {testnet : Bool} {record : Record} (registered : Registered codecs testnet record)
include registered

theorem policy_length : (decimal record.threshold ++ ascii " of " ++ decimal record.signers.length).length < LINE_VALUE_LEN := by
  have threshold := registered.threshold
  have most := registered.signers_length
  rw [MAX_ALLOWED_SIGNERS] at most
  have first := @decimal_length_le record.threshold 2 (by decide) (by omega)
  have second := @decimal_length_le record.signers.length 2 (by decide) (by omega)
  simp only [List.length_append, LINE_VALUE_LEN]
  have middle : (ascii " of ").length = 4 := by decide
  omega

/-- The fields before the signers. -/
def headFields (record : Record) : Fields :=
  ⟨some record.multisig_name, false, some (record.threshold, record.signers.length), some record.variant,
    if record.sorted then none else some false, none, []⟩

theorem read_head {format : Bytes} (written : formatText record.variant = some format) :
    Check.fold (readLine codecs (xpubVersion testnet)) ⟨none, false, none, none, none, none, []⟩
      (headLines record format) = .ok (headFields record) := by
  have name_short : record.multisig_name.length < LINE_VALUE_LEN :=
    Nat.lt_trans registered.name_length (by decide)
  have one : ∀ fields : Fields, fields.name = none →
      readLine codecs (xpubVersion testnet) fields (keyValue MSIG_FILE_NAME record.multisig_name) =
        .ok { fields with name := some record.multisig_name, name_truncated := false } := by
    intro fields first
    rw [readLine_plain (name_plain registered.name) fields (by decide), if_pos name_short, if_pos (by decide)]
    exact readName_valid first registered.name registered.name_length
  have two : ∀ fields : Fields, fields.policy = none →
      readLine codecs (xpubVersion testnet) fields
        (keyValue MSIG_FILE_POLICY (decimal record.threshold ++ ascii " of " ++ decimal record.signers.length)) =
        .ok { fields with policy := some (record.threshold, record.signers.length) } := by
    intro fields first
    rw [readLine_plain (policy_plain _ _) fields (by decide), if_pos (policy_length registered), if_neg (by decide),
      if_pos (by decide)]
    exact readPolicy_text first registered.threshold.1 registered.threshold.2 registered.signers_length
  have three : ∀ fields : Fields, fields.format = none →
      readLine codecs (xpubVersion testnet) fields (keyValue MSIG_FILE_FORMAT format) =
        .ok { fields with format := some record.variant } := by
    intro fields first
    obtain ⟨plain, short⟩ := format_plain written
    rw [readLine_plain plain fields (by decide), if_pos short, if_neg (by decide), if_neg (by decide), if_pos (by decide)]
    exact readFormat_text first written
  have four : ∀ fields : Fields, fields.sorted = none →
      readLine codecs (xpubVersion testnet) fields (keyValue MSIG_FILE_SORTED (ascii "False")) =
        .ok { fields with sorted := some false } := by
    intro fields first
    rw [readLine_plain sorted_plain fields (by decide), if_pos (by decide), if_neg (by decide), if_neg (by decide),
      if_neg (by decide), if_pos (by decide), readSorted, first]
    rfl
  rw [headLines, headFields]
  cases record.sorted with
  | true => simp only [if_true, List.append_nil, Check.fold, Check.ok_bind, one, two, three]
  | false =>
    simp only [Bool.false_eq_true, if_false, List.cons_append, List.nil_append, Check.fold, Check.ok_bind, one, two, three,
      four]

end

/-! ### The lines of the signers -/

/-- The parser can hold the derivation of a signer. -/
def Held (signer : Signer) : Prop :=
  signer.derivation ≠ [] ∧ (pathText signer.derivation).length < LINE_VALUE_LEN

theorem isField_length {key field : Bytes} (same : isField key field = true) : key.length = field.length := by
  have mapped := congrArg List.length (of_decide_eq_true same)
  simpa using mapped

section
variable {codecs : Codecs} {testnet : Bool} {signer : Signer} (reads : Reads codecs signer) (fields : Fields)
include reads

theorem held_of_read {after : Fields}
    (read : readLine codecs (xpubVersion testnet) fields (keyValue MSIG_FILE_DERIVATION (pathText signer.derivation)) =
      .ok after) : Held signer := by
  rw [readLine_plain (derivation_plain _) fields (by decide)] at read
  by_cases fits : (pathText signer.derivation).length < LINE_VALUE_LEN
  · refine ⟨fun empty => ?_, fits⟩
    rw [if_pos fits, if_neg (by decide), if_neg (by decide), if_neg (by decide), if_neg (by decide), if_pos (by decide),
      readDerivation, wallet_bip32_path_from_str] at read
    rcases reads.path with path | ⟨_, path⟩
    · rw [path, empty] at read
      cases read
    · rw [path] at read
      cases read
  · rw [if_neg fits] at read
    cases read

variable (registered : RegisteredSigner codecs testnet signer)
include registered

omit reads in
theorem readXpub_registered : readXpub codecs (xpubVersion testnet) signer.xpub = .ok signer.xpub := by
  obtain ⟨serialised, decoded, length, version, public_key⟩ := registered.xpub
  have no_nul : cstr signer.xpub = signer.xpub := by
    apply cstr_eq_self
    intro nul
    exact (isgraph_isspace (isalnum_isgraph (registered.xpub_text 0 nul))).2 rfl
  have version_length : (xpubVersion testnet).length = 4 := by cases testnet <;> rfl
  have bounds := registered.xpub_length
  rw [readXpub, version_length, if_neg (by omega), no_nul, decoded]
  dsimp only
  rw [if_neg (by simp [length]), if_neg (by rintro ⟨not_two, not_three⟩; exact public_key.elim not_two not_three),
    if_pos version]


theorem read_derivation (held : Held signer) :
    readLine codecs (xpubVersion testnet) fields (keyValue MSIG_FILE_DERIVATION (pathText signer.derivation)) =
      .ok { fields with path := some signer.derivation } := by
  rw [readLine_plain (derivation_plain _) fields (by decide), if_pos held.2, if_neg (by decide), if_neg (by decide),
    if_neg (by decide), if_neg (by decide), if_pos (by decide), readDerivation, wallet_bip32_path_from_str]
  rcases reads.path with read | ⟨empty, _⟩
  · have some_element : signer.derivation.length ≠ 0 := fun zero => held.1 (List.length_eq_zero_iff.mp zero)
    rw [read]
    dsimp only
    rw [if_neg (Nat.not_lt.mpr registered.derivation)]
    dsimp only
    rw [if_neg some_element]
  · exact absurd empty held.1

theorem read_signer {name : Bytes} {policy : Nat × Nat} {variant : Variant} (held : Held signer)
    (named : fields.name = some name) (has_policy : fields.policy = some policy) (has_format : fields.format = some variant)
    (has_path : fields.path = some signer.derivation) (room : fields.signers.length < policy.2) :
    readLine codecs (xpubVersion testnet) fields (keyValue (codecs.hex_from_bytes signer.fingerprint) signer.xpub) =
      .ok { fields with signers := fields.signers ++ [signer] } := by
  have length : (codecs.hex_from_bytes signer.fingerprint).length = 8 := by
    rw [reads.hex_length, registered.fingerprint]
    rfl
  have other : ∀ field : Bytes, field.length ≠ 8 → isField (codecs.hex_from_bytes signer.fingerprint) field = false := by
    intro field differs
    by_contra same
    exact differs ((isField_length (Bool.of_not_eq_false same)).symm.trans length)
  have short : signer.xpub.length < LINE_VALUE_LEN := Nat.lt_trans registered.xpub_length.2 (by decide)
  have some_element : signer.derivation.length ≠ 0 := fun zero => held.1 (List.length_eq_zero_iff.mp zero)
  have same : (⟨signer.fingerprint, signer.derivation, signer.xpub, false, []⟩ : Signer) = signer := by
    rw [← registered.no_string, ← registered.no_path]
  rw [readLine_plain (signer_plain registered reads) fields (other _ (by decide)), if_pos short, other _ (by decide),
    other _ (by decide), other _ (by decide), other _ (by decide), other _ (by decide)]
  simp only [Bool.false_eq_true, if_false]
  rw [if_pos (by rw [length]; rfl), readSigner, named, has_policy, has_format, has_path]
  dsimp only
  rw [if_neg (by omega), reads.hex]
  dsimp only
  rw [if_neg (by simp [registered.fingerprint]), if_neg (by have most := registered.derivation; omega),
    readXpub_registered registered, Check.ok_bind, same]
  rfl

end

/-- The last derivation read. -/
def lastPath (path : Option Path) (signers : List Signer) : Option Path := signers.foldl (fun _ s => some s.derivation) path

theorem lastPath_isSome {signers : List Signer} (some_signer : signers ≠ []) (path : Option Path) :
    ∃ last, lastPath path signers = some last := by
  induction signers generalizing path with
  | nil => exact absurd rfl some_signer
  | cons signer rest ih =>
    cases rest with
    | nil => exact ⟨signer.derivation, rfl⟩
    | cons next later => exact ih (List.cons_ne_nil _ _) (some signer.derivation)

/-- The signers of an export are read if the parser can hold them all. -/
theorem read_signers {codecs : Codecs} {testnet : Bool} {signers : List Signer}
    (registered : ∀ signer ∈ signers, RegisteredSigner codecs testnet signer) (reads : ∀ signer ∈ signers, Reads codecs signer)
    (held : ∀ signer ∈ signers, Held signer) {fields : Fields} {name : Bytes} {policy : Nat × Nat} {variant : Variant}
    (named : fields.name = some name) (has_policy : fields.policy = some policy) (has_format : fields.format = some variant)
    (room : fields.signers.length + signers.length ≤ policy.2) :
    Check.fold (readLine codecs (xpubVersion testnet)) fields (signers.flatMap (signerLines codecs)) =
      .ok { fields with path := lastPath fields.path signers, signers := fields.signers ++ signers } := by
  induction signers generalizing fields with
  | nil => simp [Check.fold, lastPath]
  | cons signer rest ih =>
    have one := registered signer List.mem_cons_self
    have reads_one := reads signer List.mem_cons_self
    have held_one := held signer List.mem_cons_self
    rw [List.length_cons] at room
    have later := @ih (fun s inside => registered s (List.mem_cons_of_mem _ inside))
      (fun s inside => reads s (List.mem_cons_of_mem _ inside)) (fun s inside => held s (List.mem_cons_of_mem _ inside))
      { fields with path := some signer.derivation, signers := fields.signers ++ [signer] } named has_policy has_format
      (by rw [List.length_append, List.length_singleton]; omega)
    have line := @read_signer codecs testnet signer reads_one { fields with path := some signer.derivation } one name policy
      variant held_one named has_policy has_format rfl (by dsimp only; omega)
    rw [List.flatMap_cons, signerLines, List.cons_append, List.cons_append, List.nil_append, Check.fold,
      read_derivation reads_one fields one held_one, Check.ok_bind, Check.fold, line, Check.ok_bind, later]
    simp [lastPath]

/-- If they are read, the parser can hold them all. -/
theorem held_of_read_signers {codecs : Codecs} {testnet : Bool} {signers : List Signer}
    (reads : ∀ signer ∈ signers, Reads codecs signer) {fields after : Fields}
    (read : Check.fold (readLine codecs (xpubVersion testnet)) fields (signers.flatMap (signerLines codecs)) = .ok after) :
    ∀ signer ∈ signers, Held signer := by
  induction signers generalizing fields with
  | nil => exact nofun
  | cons signer rest ih =>
    rw [List.flatMap_cons, signerLines, List.cons_append, List.cons_append, List.nil_append, Check.fold] at read
    obtain ⟨first, derivation, read⟩ := Check.bind_eq_ok.mp read
    obtain ⟨second, _, read⟩ := Check.bind_eq_ok.mp read
    rintro s (_ | ⟨_, inside⟩)
    · exact held_of_read (reads _ List.mem_cons_self) _ derivation
    · exact ih (fun s inside => reads s (List.mem_cons_of_mem _ inside)) read s inside

/-! ### Round trip -/

/-- The record as it is passed on to `register_multisig`. -/
def Record.registration (record : Record) : Registration :=
  ⟨record.multisig_name, false, record.variant, record.sorted, record.threshold, record.signers⟩

theorem fold_append {codecs : Codecs} {xpub_version : Bytes} {fields : Fields} {front later : List Bytes} :
    Check.fold (readLine codecs xpub_version) fields (front ++ later) =
      Check.fold (readLine codecs xpub_version) fields front >>= fun middle =>
        Check.fold (readLine codecs xpub_version) middle later := by
  induction front generalizing fields with
  | nil => rfl
  | cons line rest ih =>
    rw [List.cons_append, Check.fold, Check.fold]
    cases readLine codecs xpub_version fields line with
    | ok middle => simpa using ih
    | error halt => rfl

/-- The lines of an export are its lines, without the comment. -/
theorem next_lines_export {codecs : Codecs} {testnet : Bool} {record : Record} (registered : Registered codecs testnet record)
    (reads : ∀ signer ∈ record.signers, Reads codecs signer) {format : Bytes}
    (written : formatText record.variant = some format) :
    next_lines (unlines (ascii "# Exported by Blockstream Jade" :: headLines record format ++
        record.signers.flatMap (signerLines codecs))) =
      headLines record format ++ record.signers.flatMap (signerLines codecs) := by
  have plain : ∀ line ∈ headLines record format ++ record.signers.flatMap (signerLines codecs),
      ∃ key value, line = keyValue key value ∧ Plain key value := by
    intro line inside
    rcases List.mem_append.mp inside with front | signer_line
    · rcases List.mem_append.mp front with first | sorted_line
      · simp only [List.mem_cons, List.not_mem_nil, or_false] at first
        rcases first with rfl | rfl | rfl
        · exact ⟨_, _, rfl, name_plain registered.name⟩
        · exact ⟨_, _, rfl, policy_plain _ _⟩
        · exact ⟨_, _, rfl, (format_plain written).1⟩
      · split at sorted_line
        · cases sorted_line
        · rw [List.mem_singleton.mp sorted_line]
          exact ⟨_, _, rfl, sorted_plain⟩
    · obtain ⟨signer, listed, inside⟩ := List.mem_flatMap.mp signer_line
      simp only [signerLines, List.mem_cons, List.not_mem_nil, or_false] at inside
      rcases inside with rfl | rfl
      · exact ⟨_, _, rfl, derivation_plain _⟩
      · exact ⟨_, _, rfl, signer_plain (registered.signers signer listed) (reads signer listed)⟩
  have one_line : ∀ line ∈ ascii "# Exported by Blockstream Jade" :: headLines record format ++
      record.signers.flatMap (signerLines codecs), newline ∉ line := by
    rintro line (_ | ⟨_, inside⟩)
    · decide
    · obtain ⟨key, value, rfl, is_plain⟩ := plain line inside
      exact is_plain.no_newline
  rw [next_lines, show '\n'.toUInt8 = newline from rfl, splitOn_unlines one_line, List.cons_append, List.cons_append,
    List.filter_cons_of_neg (by decide), List.filter_append, List.filter_eq_self.mpr]
  · simp
  · intro line inside
    obtain ⟨key, value, rfl, is_plain⟩ := plain line inside
    exact decide_eq_true is_plain.kept

/-- A record that was exported is read back just when every derivation has an element and a
    text that fits the buffer for a value. -/
theorem export_read {codecs : Codecs} {testnet : Bool} {record : Record} (registered : Registered codecs testnet record)
    (reads : ∀ signer ∈ record.signers, Reads codecs signer) {output_len : Nat} {text : Bytes}
    (exported : multisig_create_export_file codecs record output_len = .ok (some text)) :
    register_multisig_file codecs testnet text = .ok record.registration ↔ ∀ signer ∈ record.signers, Held signer := by
  obtain ⟨format, written, rfl⟩ := export_text registered.no_blinding_key exported
  have some_text : (unlines (ascii "# Exported by Blockstream Jade" :: headLines record format ++
      record.signers.flatMap (signerLines codecs))).length ≠ 0 := by
    simp [unlines]
  have asserted := decide_eq_true some_text
  rw [register_multisig_file, asserted, Check.ensure_true, Check.ok_bind, next_lines_export registered reads written,
    fold_append, read_head registered written, Check.ok_bind]
  constructor
  · intro read
    obtain ⟨after, fold, _⟩ := Check.bind_eq_ok.mp read
    exact held_of_read_signers reads fold
  · intro held
    have some_signer : record.signers ≠ [] := by
      intro nothing
      have threshold := registered.threshold
      rw [nothing] at threshold
      cases threshold.1.trans threshold.2
    obtain ⟨last, is_last⟩ := lastPath_isSome some_signer none
    have read := @read_signers codecs testnet record.signers registered.signers reads held (headFields record)
      record.multisig_name (record.threshold, record.signers.length) record.variant rfl rfl rfl
      (by simp [headFields])
    rw [read, Check.ok_bind]
    cases sorted : record.sorted with
    | true => simp [headFields, is_last, some_signer, Record.registration, sorted]
    | false => simp [headFields, is_last, some_signer, Record.registration, sorted]

/-- A record on which the export succeeds is read back, with all it says, just when every
    derivation has an element and its text fits the buffer for a value. -/
theorem export_import_iff {codecs : Codecs} {testnet : Bool} {record : Record} (registered : Registered codecs testnet record)
    (reads : ∀ signer ∈ record.signers, Reads codecs signer) {output_len : Nat} {text : Bytes}
    (exported : multisig_create_export_file codecs record output_len = .ok (some text)) :
    register_multisig_file codecs testnet text = .ok record.registration ↔
      ∀ signer ∈ record.signers, signer.derivation ≠ [] ∧ (pathText signer.derivation).length < LINE_VALUE_LEN :=
  export_read registered reads exported

/-! ### Signers of one key -/

def knownXpub : Bytes := List.map Char.toUInt8 [
  'x', 'p', 'u', 'b', '6', 'D', 'k', 'F', 'A', 'X', 'W', 'Q', '2', 'd', 'H', 'x', 'q', '2', 'v', 'a', 't', 'r',
  't', '9', 'q', 'y', 'A', '3', 'b', 'X', 'Y', 'U', '4', 'T', 'o', 'W', 'Q', 'w', 'C', 'H', 'b', 'f', '5', 'X',
  'B', '2', 'm', 'S', 'T', 'e', 'x', 'c', 'H', 'Z', 'C', 'e', 'K', 'S', '1', 'V', 'Z', 'Y', 'c', 'P', 'o', 'B',
  'd', '5', 'X', '8', 'y', 'V', 'c', 'b', 'X', 'F', 'H', 'J', 'R', '9', 'R', '8', 'U', 'C', 'V', 'p', 't', '8',
  '2', 'V', 'X', '1', 'V', 'h', 'R', '2', '8', 'm', 'C', 'y', 'x', 'U', 'F', 'L', '4', 'r', '6', 'K', 'F', 'r',
  'f']

def knownSerialised : Bytes := [
  0x04, 0x88, 0xb2, 0x1e, 0x04, 0x1c, 0xf2, 0x97, 0x16, 0x80, 0x00, 0x00, 0x02, 0xbb, 0xa0, 0xc7, 0xca, 0x16,
  0x0a, 0x87, 0x0e, 0xfe, 0xb9, 0x40, 0xab, 0x90, 0xd0, 0xf4, 0x28, 0x4f, 0xea, 0x1b, 0x5e, 0x0d, 0x21, 0x17,
  0x67, 0x7e, 0x82, 0x3f, 0xc3, 0x7e, 0x2d, 0x57, 0x63, 0x02, 0x1a, 0x3b, 0xf5, 0xfb, 0xf7, 0x37, 0xd0, 0xf3,
  0x69, 0x93, 0xfd, 0x46, 0xdc, 0x49, 0x13, 0x09, 0x3b, 0xeb, 0x53, 0x2d, 0x65, 0x4f, 0xe0, 0xdf, 0xd9, 0x8b,
  0xd2, 0x75, 0x85, 0xdc, 0x9f, 0x29]

/-- What libwally computes for one key, and the derivations of its signers. -/
def knownCodecs (derivations : List Path) : Codecs where
  hex_from_bytes bytes := if bytes = [0x73, 0xc5, 0xda, 0x0a] then ascii "73c5da0a" else []
  hex_to_bytes text := if text = ascii "73c5da0a" then some [0x73, 0xc5, 0xda, 0x0a] else none
  base58_from_bytes bytes := if bytes = knownSerialised then knownXpub else []
  base58_to_bytes text := if text = knownXpub then some knownSerialised else none
  bip32_path_from_str text := derivations.find? fun derivation => derivation ≠ [] ∧ text = pathText derivation

def knownSigner (derivation : Path) : Signer := ⟨[0x73, 0xc5, 0xda, 0x0a], derivation, knownXpub, false, []⟩

/-- Any of the signers can sign. -/
def knownRecord (derivations : List Path) : Record :=
  ⟨ascii "vault", .MULTI_P2WSH, false, 1, [], derivations.map knownSigner⟩

theorem knownXpub_text : (∀ c ∈ knownXpub, isalnum c = true) ∧ 4 ≤ knownXpub.length ∧ knownXpub.length < XPUB_LEN := by
  decide +kernel

theorem knownSigner_registered (derivations : List Path) {derivation : Path} (short : derivation.length ≤ MAX_PATH_LEN) :
    RegisteredSigner (knownCodecs derivations) false (knownSigner derivation) := by
  refine ⟨rfl, short, rfl, rfl, ⟨knownSerialised, ?_, ?_⟩, knownXpub_text.1, knownXpub_text.2⟩
  · simp [knownCodecs, knownSigner]
  · decide +kernel

theorem knownRecord_registered {derivations : List Path} (some_signer : 1 ≤ derivations.length)
    (few : derivations.length ≤ MAX_ALLOWED_SIGNERS) (short : ∀ derivation ∈ derivations, derivation.length ≤ MAX_PATH_LEN) :
    Registered (knownCodecs derivations) false (knownRecord derivations) := by
  have name : storage_key_name_valid (ascii "vault") = true ∧ (ascii "vault").length < MAX_MULTISIG_NAME_SIZE := by decide
  refine ⟨name.1, name.2, ⟨Nat.le_refl 1, by simpa [knownRecord] using some_signer⟩, by simpa [knownRecord] using few,
    rfl, ?_⟩
  intro signer inside
  obtain ⟨derivation, listed, rfl⟩ := List.mem_map.mp inside
  exact knownSigner_registered derivations (short derivation listed)

theorem knownRecord_reads {derivations : List Path}
    (named : ∀ derivation ∈ derivations, (knownCodecs derivations).bip32_path_from_str (pathText derivation) =
      if derivation = [] then none else some derivation) :
    ∀ signer ∈ (knownRecord derivations).signers, Reads (knownCodecs derivations) signer := by
  intro signer inside
  obtain ⟨derivation, listed, rfl⟩ := List.mem_map.mp inside
  have hex : (knownCodecs derivations).hex_from_bytes (knownSigner derivation).fingerprint = ascii "73c5da0a" := by
    simp [knownCodecs, knownSigner]
  refine ⟨?_, ?_, ?_, ?_⟩
  · simp [hex, knownCodecs, knownSigner]
  · rw [hex]
    rfl
  · rw [hex]
    exact List.all_eq_true.mp rfl
  · have found := named derivation listed
    split at found
    next empty => exact .inr ⟨empty, found⟩
    next => exact .inl found

theorem exported_of_isSome {returned : Check Stop (Option Bytes)} (some_text : (returned.toOption.bind id).isSome = true) :
    ∃ text, returned = .ok (some text) := by
  cases returned with
  | error halt => cases some_text
  | ok output =>
    cases output with
    | none => cases some_text
    | some text => exact ⟨text, rfl⟩

/-- The derivations of two accounts. -/
def accounts : List Path := [[0x80000030, 0x80000000], [0x80000030, 0x80000001]]

theorem export_import_iff_accounts : ∃ text,
    multisig_create_export_file (knownCodecs accounts) (knownRecord accounts) 1024 = .ok (some text) ∧
    register_multisig_file (knownCodecs accounts) false text = .ok (knownRecord accounts).registration := by
  have returns : ((multisig_create_export_file (knownCodecs accounts) (knownRecord accounts) 1024).toOption.bind
      id).isSome = true := by decide +kernel
  obtain ⟨text, exported⟩ := exported_of_isSome returns
  have registered := @knownRecord_registered accounts (by decide) (by decide) (by decide)
  have reads := @knownRecord_reads accounts (by decide +kernel)
  refine ⟨text, exported, (export_import_iff registered reads exported).mpr ?_⟩
  intro signer inside
  obtain ⟨derivation, listed, rfl⟩ := List.mem_map.mp inside
  have fits : ∀ derivation ∈ accounts, derivation ≠ [] ∧ (pathText derivation).length < LINE_VALUE_LEN := by
    decide +kernel
  exact fits derivation listed

/-- The master key itself is a signer, of no derivation: it is exported and refused on import. -/
theorem empty_derivation_lost : ∃ text, Registered (knownCodecs [[]]) false (knownRecord [[]]) ∧
    multisig_create_export_file (knownCodecs [[]]) (knownRecord [[]]) 1024 = .ok (some text) ∧
    register_multisig_file (knownCodecs [[]]) false text ≠ .ok (knownRecord [[]]).registration := by
  have returns : ((multisig_create_export_file (knownCodecs [[]]) (knownRecord [[]]) 1024).toOption.bind id).isSome =
      true := by decide +kernel
  obtain ⟨text, exported⟩ := exported_of_isSome returns
  have registered := @knownRecord_registered [[]] (by decide) (by decide) (by decide)
  refine ⟨text, registered, exported, fun read => ?_⟩
  have held := (export_read registered (knownRecord_reads (by decide +kernel)) exported).mp read
  exact (held (knownSigner []) (List.mem_singleton_self _)).1 rfl

end PiJade.Multisig
