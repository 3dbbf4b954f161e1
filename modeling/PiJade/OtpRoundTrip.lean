import PiJade.OtpMigration

/-!
A migrated entry is read again (`main/otpauth.c`). The uri is taken apart by another routine, which has
its own mandatory fields and its own defaults: what the migration leaves out comes back as the default,
except for the counter of an HOTP entry.
-/
namespace PiJade.Otp
open Text
open SettingsCodec (ascii)
open DescriptorText.Memory (Exit value_bind)
open UrlCodec (Encodes encode encodes_encode)
open ParseUint (parse_uint64)
set_option linter.unusedSimpArgs false

/-! ### Arguments -/

/-- Keys that differ in nothing but case. -/
def sameKey (key name : Bytes) : Bool := decide (name.length = key.length ∧ name.map tolower = key.map tolower)

/-- A text is cut where a character stands for the first time, or at its end. -/
theorem cut_at {c : UInt8} {front behind : Bytes} (absent : c ∉ front) (stop : ∀ d ∈ behind.head?, d = c) :
    (front ++ behind).takeWhile (· ≠ c) = front ∧ (front ++ behind).dropWhile (· ≠ c) = behind := by
  have passes : ∀ d ∈ front, decide (d ≠ c) = true := by
    intro d mem
    refine decide_eq_true ?_
    rintro rfl
    exact absent mem
  rw [List.takeWhile_append_of_pos passes, List.dropWhile_append_of_pos passes]
  cases behind with
  | nil => exact ⟨List.append_nil _, rfl⟩
  | cons d behind =>
    obtain rfl := stop d rfl
    exact ⟨by simp, by simp⟩

theorem findArgument_params (key : Bytes) : ∀ {args : List (Bytes × Bytes)} {rounds : Nat},
    (∀ arg ∈ args, 61 ∉ arg.1 ∧ 38 ∉ arg.2) → (params args).tail.length < rounds →
    findArgument key rounds (params args).tail = (args.find? fun arg => sameKey key arg.1).map Prod.snd
  | [], rounds, _, enough => by
    cases rounds with
    | zero => cases enough
    | succ rounds => rfl
  | (name, value) :: rest, rounds, plain, enough => by
    cases rounds with
    | zero => cases enough
    | succ rounds =>
      obtain ⟨⟨no_equals, no_mark⟩, later⟩ := List.forall_mem_cons.mp plain
      rw [params_cons, List.tail_cons, List.append_assoc] at enough ⊢
      have some_char : ¬ (name ++ (61 :: value ++ params rest)).length = 0 := by simp
      obtain ⟨name_taken, value_left⟩ := @cut_at 61 name (61 :: value ++ params rest) no_equals (by rintro _ ⟨⟩; rfl)
      -- Nothing or a mark stands behind a value.
      obtain ⟨value_taken, rest_left⟩ := @cut_at 38 value (params rest) no_mark (by
        cases rest with
        | nil => nofun
        | cons arg rest =>
          rw [params_cons]
          rintro _ ⟨⟩
          rfl)
      rw [findArgument, if_neg some_char, name_taken, value_left, List.cons_append]
      dsimp only
      rw [value_taken, rest_left, List.find?_cons]
      by_cases same : name.length = key.length ∧ name.map tolower = key.map tolower
      · rw [if_pos same, sameKey, decide_eq_true same]
        rfl
      · rw [if_neg same, sameKey, decide_eq_false same]
        refine findArgument_params key later ?_
        simp only [List.length_append, List.length_cons, List.length_tail] at enough ⊢
        omega

theorem get_query_argument_params {args : List (Bytes × Bytes)} (plain : ∀ arg ∈ args, 61 ∉ arg.1 ∧ 38 ∉ arg.2) (key : Bytes) :
    get_query_argument (params args).tail key = (args.find? fun arg => sameKey key arg.1).map Prod.snd :=
  findArgument_params key plain (Nat.lt_succ_self _)

/-- What a parameter gives for a key. -/
def given (key name : Bytes) (value : Option Bytes) : Option Bytes := if sameKey key name then value else none

theorem find_param (key name : Bytes) (value : Option Bytes) (rest : List (Bytes × Bytes)) :
    ((param name value ++ rest).find? fun arg => sameKey key arg.1).map Prod.snd =
      (given key name value).or ((rest.find? fun arg => sameKey key arg.1).map Prod.snd) := by
  cases value with
  | none => simp [param, given]
  | some value => cases same : sameKey key name <;> simp [param, given, same]

/-! ### The arguments of an entry -/

/-- The characters of a uri that is built. -/
def UrlChar (c : UInt8) : Prop := UrlCodec.unreserved c = true ∨ c = 37 ∨ c = 43 ∨ c = 58

theorem encode_chars {text : Bytes} {c : UInt8} (inside : c ∈ encode text) :
    UrlCodec.unreserved c = true ∨ c = 37 ∨ c = 43 := by
  obtain ⟨d, _, inside⟩ := List.mem_flatMap.mp inside
  unfold UrlCodec.encodeChar at inside
  split at inside
  next plain =>
    rw [List.mem_singleton.mp inside]
    exact .inl plain
  next =>
    split at inside
    next =>
      rw [List.mem_singleton.mp inside]
      exact .inr (.inr rfl)
    next =>
      obtain ⟨high, low, _⟩ := UrlCodec.escape_number d
      have digit : ∀ {x : UInt8}, isxdigit x = true → UrlCodec.unreserved x = true := by
        intro x hex
        simp only [isxdigit, UrlCodec.unreserved, isalnum, isdigit, Bool.or_eq_true, Bool.and_eq_true, decide_eq_true_eq,
          UInt8.le_iff_toNat_le, UInt8.reduceToNat] at hex ⊢
        omega
      simp only [UrlCodec.escape, List.mem_cons, List.not_mem_nil, or_false] at inside
      rcases inside with percent | upper | lower
      · exact .inr (.inl percent)
      · exact .inl (upper ▸ digit high)
      · exact .inl (lower ▸ digit low)

theorem words_plain : ∀ word ∈ [ascii "secret", ascii "issuer", ascii "algorithm", ascii "digits", ascii "counter",
    ascii "SHA256", ascii "SHA512", ascii "MD5"], ∀ c ∈ word, UrlCodec.unreserved c = true := by decide +kernel

section
variable (entry : Entry)

/-- Keys have no `=`, values no `&`. -/
theorem args_plain : ∀ arg ∈ entry.args, 61 ∉ arg.1 ∧ 38 ∉ arg.2 ∧ (∀ c ∈ arg.1, UrlChar c) ∧ ∀ c ∈ arg.2, UrlChar c := by
  have of_chars : ∀ {key value : Bytes}, (∀ c ∈ key, UrlCodec.unreserved c = true) → (∀ c ∈ value, UrlChar c) →
      61 ∉ key ∧ 38 ∉ value ∧ (∀ c ∈ key, UrlChar c) ∧ ∀ c ∈ value, UrlChar c := by
    intro key value letters chars
    refine ⟨fun equals => ?_, fun mark => ?_, fun c mem => .inl (letters c mem), chars⟩
    · have letter := letters 61 equals
      revert letter
      decide
    · rcases chars 38 mark with letter | percent | plus | colon
      · revert letter
        decide
      · cases percent
      · cases plus
      · cases colon
  have of_param : ∀ {key : Bytes} {value : Option Bytes}, (∀ c ∈ key, UrlCodec.unreserved c = true) →
      (∀ text ∈ value, ∀ c ∈ text, UrlChar c) → ∀ arg ∈ param key value,
      61 ∉ arg.1 ∧ 38 ∉ arg.2 ∧ (∀ c ∈ arg.1, UrlChar c) ∧ ∀ c ∈ arg.2, UrlChar c := by
    intro key value letters chars arg mem
    cases value with
    | none => cases mem
    | some value =>
      rw [List.mem_singleton.mp mem]
      exact of_chars letters (chars value rfl)
  intro arg mem
  rw [Entry.args, List.mem_cons, List.mem_append, List.mem_append, List.mem_append] at mem
  rcases mem with rfl | ((issuer | algorithm) | digits) | counter
  · refine of_chars (words_plain (ascii "secret") (by simp)) fun c inside => .inl ?_
    have letter := Base32.bin_to_base32_alphabet _ c inside
    simp only [UrlCodec.unreserved, isalnum, isdigit, Bool.or_eq_true, Bool.and_eq_true, decide_eq_true_eq,
      UInt8.le_iff_toNat_le, UInt8.reduceToNat] at letter ⊢
    omega
  · refine of_param (words_plain (ascii "issuer") (by simp)) ?_ arg issuer
    intro text found c inside
    obtain ⟨whole, _, rfl⟩ := Option.map_eq_some_iff.mp found
    rcases encode_chars inside with plain | percent | plus
    · exact .inl plain
    · exact .inr (.inl percent)
    · exact .inr (.inr (.inl plus))
  · refine of_param (words_plain (ascii "algorithm") (by simp)) ?_ arg algorithm
    intro text found
    unfold algorithmName at found
    intro c inside
    split at found
    next =>
      obtain ⟨⟩ := found
      exact .inl (words_plain (ascii "SHA256") (by simp) c inside)
    split at found
    next =>
      obtain ⟨⟩ := found
      exact .inl (words_plain (ascii "SHA512") (by simp) c inside)
    split at found
    next =>
      obtain ⟨⟩ := found
      exact .inl (words_plain (ascii "MD5") (by simp) c inside)
    next => cases found
  · refine of_param (words_plain (ascii "digits") (by simp)) ?_ arg digits
    intro text found c inside
    split at found
    next =>
      obtain ⟨⟩ := found
      rw [List.mem_singleton.mp inside]
      exact .inl (by decide)
    next => cases found
  · refine of_param (words_plain (ascii "counter") (by simp)) ?_ arg counter
    intro text found c inside
    split at found
    next =>
      obtain ⟨⟩ := found
      have digit := decimal_digits inside
      refine .inl ?_
      rw [UrlCodec.unreserved, isalnum, digit]
      rfl
    next => cases found

theorem argument_eq (key : Bytes) : get_query_argument (params entry.args).tail key =
    (given key (ascii "secret") (some (Base32.bin_to_base32 entry.secret))).or
    ((given key (ascii "issuer") ((someText entry.issuer).map encode)).or
    ((given key (ascii "algorithm") (algorithmName entry.algorithm)).or
    ((given key (ascii "digits") (if entry.eight then some (ascii "8") else none)).or
    (given key (ascii "counter")
      (if entry.hotp = true ∧ 0 < entry.counter then some (decimal entry.counter.toInt.toNat) else none))))) := by
  have listed : entry.args = param (ascii "secret") (some (Base32.bin_to_base32 entry.secret)) ++
      (entry.issuerParam ++ (param (ascii "algorithm") (algorithmName entry.algorithm) ++
      (param (ascii "digits") (if entry.eight then some (ascii "8") else none) ++ (entry.counterParam ++ [])))) := by
    rw [Entry.args, List.append_nil, List.append_assoc, List.append_assoc]
    rfl
  rw [get_query_argument_params fun arg mem => ⟨(args_plain entry arg mem).1, (args_plain entry arg mem).2.1⟩, listed, find_param,
    Entry.issuerParam, find_param, find_param, find_param, Entry.counterParam, find_param]
  simp

theorem given_same {key name : Bytes} (same : sameKey key name = true) (value : Option Bytes) : given key name value = value :=
  if_pos same

theorem given_other {key name : Bytes} (other : sameKey key name = false) (value : Option Bytes) : given key name value = none :=
  if_neg (Bool.eq_false_iff.mp other)

theorem secret_argument : get_query_argument (params entry.args).tail (ascii "secret") =
    some (Base32.bin_to_base32 entry.secret) := by
  rw [argument_eq, given_same (by decide)]
  rfl

theorem issuer_argument : get_query_argument (params entry.args).tail (ascii "issuer") = (someText entry.issuer).map encode := by
  rw [argument_eq, given_other (by decide), given_same (by decide), given_other (by decide), given_other (by decide),
    given_other (by decide)]
  simp

theorem algorithm_argument : get_query_argument (params entry.args).tail (ascii "algorithm") = algorithmName entry.algorithm := by
  rw [argument_eq, given_other (by decide), given_other (by decide), given_same (by decide), given_other (by decide),
    given_other (by decide)]
  simp

theorem digits_argument : get_query_argument (params entry.args).tail (ascii "digits") =
    if entry.eight then some (ascii "8") else none := by
  rw [argument_eq, given_other (by decide), given_other (by decide), given_other (by decide), given_same (by decide),
    given_other (by decide)]
  simp

theorem counter_argument : get_query_argument (params entry.args).tail (ascii "counter") =
    if entry.hotp = true ∧ 0 < entry.counter then some (decimal entry.counter.toInt.toNat) else none := by
  rw [argument_eq, given_other (by decide), given_other (by decide), given_other (by decide), given_other (by decide),
    given_same (by decide)]
  rfl

theorem period_argument : get_query_argument (params entry.args).tail (ascii "period") = none := by
  rw [argument_eq, given_other (by decide), given_other (by decide), given_other (by decide), given_other (by decide),
    given_other (by decide)]
  rfl

end

/-! ### The uri is taken apart -/

/-- The parser of uris finds the parts of one that is built. -/
structure ParsesUrls (http_parser_parse_url : Bytes → Option Url) : Prop where
  parts : ∀ {host path query : Bytes}, (host = ascii "hotp" ∨ host = ascii "totp") → (∀ c ∈ path, UrlChar c) → query ≠ [] →
    (∀ c ∈ query, UrlChar c ∨ c = 38 ∨ c = 61) → (OTP_SCHEMA_FULL ++ host ++ 47 :: path ++ 63 :: query).length < OTP_MAX_URI_LEN →
    http_parser_parse_url (OTP_SCHEMA_FULL ++ host ++ 47 :: path ++ 63 :: query) = some {
      schema := some ⟨0, 7⟩
      host := some ⟨10, 4⟩
      port := none
      path := some ⟨14, path.length + 1⟩
      query := some ⟨16 + path.length, query.length⟩
      fragment := none }

theorem place_of {uri front field behind : Bytes} {off len : Nat} (parts : uri = front ++ (field ++ behind))
    (start : off = front.length) (size : len = field.length) : Place.of uri (some ⟨off, len⟩) = field := by
  rw [Place.of, parts, start, size, List.drop_left, List.take_left]

theorem typeName_length (entry : Entry) : entry.typeName.length = 4 := by
  rw [Entry.typeName]
  cases entry.hotp <;> rfl

theorem labelText_chars {entry : Entry} {c : UInt8} (inside : c ∈ entry.labelText) : UrlChar c := by
  have encoded : ∀ {text : Bytes}, c ∈ encode text → UrlChar c := fun inside =>
    (encode_chars inside).imp_right fun other => other.imp_right .inl
  rw [Entry.labelText] at inside
  split at inside
  next => exact encoded inside
  next =>
    rcases List.mem_append.mp inside with issuer | colon_name
    · exact encoded issuer
    · rcases List.mem_cons.mp colon_name with colon | name
      · exact .inr (.inr (.inr colon))
      · exact encoded name

theorem params_chars {args : List (Bytes × Bytes)} (chars : ∀ arg ∈ args, (∀ c ∈ arg.1, UrlChar c) ∧ ∀ c ∈ arg.2, UrlChar c)
    {c : UInt8} (inside : c ∈ params args) : UrlChar c ∨ c = 38 ∨ c = 61 := by
  obtain ⟨arg, mem, inside⟩ := List.mem_flatMap.mp inside
  rcases List.mem_append.mp inside with key | value
  · rcases List.mem_cons.mp key with mark | key
    · exact .inr (.inl mark)
    · exact .inl ((chars arg mem).1 c key)
  · rcases List.mem_cons.mp value with equals | value
    · exact .inr (.inr equals)
    · exact .inl ((chars arg mem).2 c value)

/-! ### The context -/

namespace Entry

/-- What a context holds when an entry has been read into it. -/
def context (entry : Entry) (otp_ctx : Ctx) : Ctx where
  counter := if entry.hotp then entry.counter.toUInt64 else otp_ctx.counter
  md_type := entry.md_type
  otp_type := if entry.hotp then .HOTP else .TOTP
  name := otp_ctx.name
  type := entry.typeName
  label := some entry.labelText
  secret := Base32.bin_to_base32 entry.secret
  issuer := encode entry.issuer
  digits := if entry.eight then 8 else 6
  period := if entry.hotp then otp_ctx.period else 30

end Entry

theorem encodes_append {first second out later : Bytes} (encodes : Encodes first out) (behind : Encodes second later) :
    Encodes (first ++ second) (out ++ later) := by
  induction encodes with
  | nil => exact behind
  | plain other printable _ ih => exact .plain other printable ih
  | plus _ ih => exact .plus ih
  | escaped digits printable _ ih => exact .escaped digits printable ih

theorem labelText_encodes (entry : Entry) : Encodes entry.labelText entry.label := by
  have name := encodes_encode entry.printable.1
  rw [Entry.labelText, Entry.label]
  split
  next => exact name
  next => exact encodes_append (encodes_encode entry.printable.2) (.plain (by decide) ⟨by decide, by decide⟩ name)

theorem label_printable (entry : Entry) : ∀ c ∈ entry.label, UrlCodec.Printable c.toNat := by
  intro c inside
  rw [Entry.label] at inside
  split at inside
  next => exact entry.printable.1 c inside
  next =>
    rcases List.mem_append.mp inside with issuer | colon_name
    · exact entry.printable.2 c issuer
    · rcases List.mem_cons.mp colon_name with rfl | name
      · exact ⟨by decide, by decide⟩
      · exact entry.printable.1 c name

theorem label_length {entry : Entry} (name : entry.name.length < OTP_MIGRATE_PB_FIELD_LEN)
    (issuer : entry.issuer.length < OTP_MIGRATE_PB_FIELD_LEN) : entry.label.length < OTP_MAX_LABEL_LEN := by
  rw [OTP_MIGRATE_PB_FIELD_LEN] at name issuer
  rw [Entry.label, OTP_MAX_LABEL_LEN]
  split
  next => omega
  next =>
    rw [List.length_append, List.length_cons]
    omega

theorem validField_encodes {text out : Bytes} (encodes : Encodes text out) (printable : ∀ c ∈ out, UrlCodec.Printable c.toNat)
    (fits : out.length < OTP_MAX_LABEL_LEN) : validField text = .ok true := by
  rw [validField]
  by_cases empty : text.length = 0
  · rw [if_pos empty]
    rfl
  · rw [if_neg empty]
    have some_char : text ≠ [] := fun nothing => empty (by rw [nothing]; rfl)
    obtain ⟨valid, checked, accepts⟩ := @UrlCodec.is_valid_urlencoding_iff OTP_MAX_LABEL_LEN isprint _ some_char (by decide)
    have passes : ∀ c ∈ out, isprint c = true := by
      intro c inside
      have ⟨low, high⟩ := printable c inside
      simp only [isprint, Bool.and_eq_true, decide_eq_true_eq, UInt8.le_iff_toNat_le, UInt8.reduceToNat]
      exact ⟨low, high⟩
    rw [checked, accepts.mpr ⟨text, out, ⟨0, (List.append_nil _).symm⟩, encodes, passes, fits⟩]

theorem bin_to_base32_some {secret : Bytes} (some_byte : 1 ≤ secret.length) : (Base32.bin_to_base32 secret).length ≠ 0 := by
  rw [Base32.bin_to_base32_length]
  omega

theorem context_valid {entry : Entry} {otp_ctx : Ctx} (named : otp_ctx.name.isSome = true)
    (name : entry.name.length < OTP_MIGRATE_PB_FIELD_LEN) (issuer : entry.issuer.length < OTP_MIGRATE_PB_FIELD_LEN) :
    otp_is_valid (entry.context otp_ctx) = .ok true := by
  have no_name : ¬ (entry.context otp_ctx).name.isNone = true := by
    rw [Entry.context, Option.isNone_iff_eq_none]
    intro none
    rw [none] at named
    cases named
  have no_type : ¬ (entry.context otp_ctx).type.length = 0 := by
    rw [Entry.context, typeName_length]
    decide
  have known : ¬ ((entry.context otp_ctx).otp_type ≠ .HOTP ∧ (entry.context otp_ctx).otp_type ≠ .TOTP) := by
    rw [Entry.context]
    cases entry.hotp <;> simp
  have timed : ¬ ((entry.context otp_ctx).otp_type = .TOTP ∧ (entry.context otp_ctx).period = 0) := by
    rw [Entry.context]
    cases entry.hotp <;> simp
  have counted : ¬ ((entry.context otp_ctx).digits ≠ 6 ∧ (entry.context otp_ctx).digits ≠ 8) := by
    rw [Entry.context]
    cases entry.eight <;> simp
  have label := validField_encodes (labelText_encodes entry) (label_printable entry) (label_length name issuer)
  have issued : validField (encode entry.issuer) = .ok true := by
    refine validField_encodes (encodes_encode entry.printable.2) entry.printable.2 (Nat.lt_trans issuer (by decide))
  have keyed : ¬ (entry.context otp_ctx).secret.length = 0 := bin_to_base32_some entry.secret_fits.1
  have hashed : ¬ (entry.context otp_ctx).md_type = .NONE := entry.algorithm_known
  rw [otp_is_valid, if_neg no_name, if_neg no_type, if_neg keyed, if_neg known, if_neg timed, if_neg counted, if_neg hashed]
  dsimp only [Entry.context]
  rw [label, value_bind, if_pos rfl, issued]

theorem parseAlgorithm_name (entry : Entry) : parseAlgorithm (algorithmName entry.algorithm) = some entry.md_type := by
  have known := entry.algorithm_known
  rw [Entry.algorithm]
  cases kind : entry.md_type with
  | NONE => exact absurd kind known
  | SHA1 => rfl
  | SHA256 => decide
  | SHA512 => decide

theorem toUInt64_toNat {counter : Int64} (not_negative : 0 ≤ counter) : counter.toUInt64.toNat = counter.toInt.toNat := by
  rw [Int64.toNat_toUInt64_of_le not_negative]
  rfl

/-- A counter that is written is read. -/
theorem parse_counter {counter : Int64} (not_negative : 0 ≤ counter) :
    parse_uint64 (decimal counter.toInt.toNat) = some counter.toUInt64 := by
  have value := toUInt64_toNat not_negative
  have small := counter.toUInt64.toNat_lt
  rw [ParseUint.parse_uint64_iff, ← value, number_decimal]
  refine ⟨⟨?_, ?_, fun c inside => decimal_digits inside, ?_⟩, rfl⟩
  · exact List.length_pos_iff.mpr (decimal_ne_nil _)
  · exact decimal_length_le (by decide) (Nat.lt_trans small (by decide))
  · rwa [number_decimal]

/-! ### Reading a migrated entry -/

section
variable {http_parser_parse_url : Bytes → Option Url} {entry : Entry} {otp_ctx : Ctx}

theorem parseMoving_entry (otp_ctx : Ctx) (type : otp_ctx.type = entry.typeName) :
    parseMoving otp_ctx (params entry.args).tail =
      if entry.hotp = true ∧ ¬ 0 < entry.counter then none
      else some { otp_ctx with
        counter := if entry.hotp then entry.counter.toUInt64 else otp_ctx.counter
        period := if entry.hotp then otp_ctx.period else 30
        otp_type := if entry.hotp then .HOTP else .TOTP } := by
  by_cases kind : entry.hotp = true
  · rw [parseMoving, type, Entry.typeName, if_pos kind, if_pos rfl, counter_argument]
    by_cases counted : 0 < entry.counter
    · have some_char := List.length_pos_iff.mpr (decimal_ne_nil entry.counter.toInt.toNat)
      rw [if_pos ⟨kind, counted⟩, if_neg fun wrong => wrong.2 counted]
      dsimp only
      rw [if_neg (Nat.ne_of_gt some_char), parse_counter entry.not_negative]
      simp [kind]
    · rw [if_neg fun wrong => counted wrong.2, if_pos ⟨kind, counted⟩]
  · rw [parseMoving, type, Entry.typeName, if_neg kind, if_neg (by decide), if_pos rfl, period_argument,
      if_neg fun wrong => kind wrong.1]
    simp [kind, parsePeriod]

/-- A migrated entry is read into the context, unless it is an HOTP entry whose counter is zero. -/
theorem otp_uri_to_ctx_entry (parses : ParsesUrls http_parser_parse_url) (named : otp_ctx.name.isSome = true)
    (fits : entry.uri.length < OTP_MAX_URI_LEN) (name : entry.name.length < OTP_MIGRATE_PB_FIELD_LEN)
    (issuer : entry.issuer.length < OTP_MIGRATE_PB_FIELD_LEN) :
    otp_uri_to_ctx http_parser_parse_url entry.uri otp_ctx =
      if entry.hotp = true ∧ ¬ 0 < entry.counter then .ok none else .ok (some (entry.context otp_ctx)) := by
  have host : entry.typeName = ascii "hotp" ∨ entry.typeName = ascii "totp" := by
    rw [Entry.typeName]
    cases entry.hotp
    · exact .inr rfl
    · exact .inl rfl
  have some_char : (params entry.args).tail ≠ [] := by
    rw [Entry.args, params_cons, List.tail_cons]
    simp
  have chars : ∀ c ∈ (params entry.args).tail, UrlChar c ∨ c = 38 ∨ c = 61 := fun c inside =>
    params_chars (fun arg mem => (args_plain entry arg mem).2.2) (List.mem_of_mem_tail inside)
  have found := parses.parts host (fun c => labelText_chars) some_char chars fits
  rw [← Entry.uri] at found
  have four := typeName_length entry
  have ten : OTP_SCHEMA_FULL.length = 10 := rfl
  have schema : Place.of entry.uri (some ⟨0, 7⟩) = OTP_SCHEMA := @place_of _ [] _ _ _ _ (by
    rw [Entry.uri, show OTP_SCHEMA_FULL = OTP_SCHEMA ++ [58, 47, 47] from rfl, List.append_assoc, List.append_assoc,
      List.append_assoc]
    rfl) rfl rfl
  have typed : Place.of entry.uri (some ⟨10, 4⟩) = entry.typeName := place_of (by
    rw [Entry.uri, List.append_assoc, List.append_assoc]) rfl four.symm
  have labelled : Place.of entry.uri (some ⟨14, entry.labelText.length + 1⟩) = 47 :: entry.labelText := place_of (by
    rw [Entry.uri, List.append_assoc]) (by rw [List.length_append, four, ten]) rfl
  have queried : Place.of entry.uri (some ⟨16 + entry.labelText.length, (params entry.args).tail.length⟩) =
      (params entry.args).tail := @place_of _ _ _ [] _ _ (by
    rw [Entry.uri, List.append_nil, List.append_cons]) (by
    simp only [List.length_append, List.length_cons, List.length_nil, four, ten]
    omega) rfl
  have present : ¬ ((some (Place.mk 10 4)).isNone = true ∨
      (some (Place.mk (16 + entry.labelText.length) (params entry.args).tail.length)).isNone = true ∨
      (none : Option Place).isSome = true ∨ (none : Option Place).isSome = true) := by simp
  have path : ¬ (some (Place.mk 14 (entry.labelText.length + 1))).isNone = true := by simp
  rw [otp_uri_to_ctx, found]
  dsimp only
  rw [if_neg path, schema, if_neg (not_not_intro rfl), if_neg present, queried, labelled, typed, secret_argument, issuer_argument, digits_argument,
    algorithm_argument]
  dsimp only
  have digits : parseDigits (if entry.eight = true then some (ascii "8") else none) =
      some (if entry.eight = true then 8 else 6) := by
    cases entry.eight <;> decide
  have issued : ((someText entry.issuer).map encode).getD [] = encode entry.issuer := by
    by_cases empty : entry.issuer = []
    · rw [someText, if_pos empty, empty]
      rfl
    · rw [someText, if_neg empty]
      rfl
  rw [if_neg (bin_to_base32_some entry.secret_fits.1), digits, parseAlgorithm_name]
  dsimp only
  rw [issued, parseMoving_entry _ rfl]
  by_cases lost : entry.hotp = true ∧ ¬ 0 < entry.counter
  · rw [if_pos lost, if_pos lost]
    rfl
  · have valid := @context_valid entry otp_ctx named name issuer
    rw [if_neg lost, if_neg lost]
    rw [Entry.context] at valid ⊢
    dsimp only [List.tail_cons]
    rw [valid]
    rfl

end

/-- A field that decodes to a text; an empty field stands for an empty text. -/
def Decodes (field text : Bytes) : Prop :=
  if text = [] then field = []
  else ∀ dest : Vector UInt8 OTP_MAX_LABEL_LEN, ∃ last, UrlCodec.urldecode field dest = .ok (some last) ∧ text ++ [0] <+: last.toList

/-- A context that has everything that the entry has. -/
structure Lossless (entry : Entry) (otp_ctx : Ctx) : Prop where
  type : otp_ctx.otp_type = if entry.hotp then .HOTP else .TOTP
  algorithm : otp_ctx.md_type = entry.md_type
  digits : otp_ctx.digits = if entry.eight then 8 else 6
  counter : otp_ctx.counter = entry.counter.toUInt64
  secret : ∀ {bin_len : Nat} (bin : Vector UInt8 bin_len), entry.secret.length ≤ bin_len → ∃ later,
    Base32.Memory.base32_to_bin otp_ctx.secret bin = .ok (entry.secret.length, later) ∧ entry.secret <+: later.toList
  label : ∃ label, otp_ctx.label = some label ∧ Decodes label entry.label
  issuer : Decodes otp_ctx.issuer entry.issuer

/-- An HOTP entry has a counter that is not zero; a TOTP entry has the one that stands in the context anyway. -/
def Entry.Counted (entry : Entry) (otp_ctx : Ctx) : Prop :=
  if entry.hotp then entry.counter ≠ 0 else entry.counter.toUInt64 = otp_ctx.counter

theorem decodes_of_encodes {field text : Bytes} (encodes : Encodes field text) (fits : text.length < OTP_MAX_LABEL_LEN) :
    Decodes field text := by
  rw [Decodes]
  by_cases empty : text = []
  · rw [if_pos empty]
    rw [empty] at encodes
    exact UrlCodec.encodes_nil encodes
  · rw [if_neg empty]
    have some_char : field ≠ [] := by
      rintro rfl
      cases encodes
      exact empty rfl
    exact UrlCodec.urldecode_encodes some_char ⟨0, (List.append_nil _).symm⟩ encodes fits

theorem secret_decodes {secret : Bytes} (some_byte : 1 ≤ secret.length) {bin_len : Nat} (bin : Vector UInt8 bin_len)
    (room : secret.length ≤ bin_len) : ∃ later,
    Base32.Memory.base32_to_bin (Base32.bin_to_base32 secret) bin = .ok (secret.length, later) ∧ secret <+: later.toList := by
  have same : Base32.Memory.padded secret false = Base32.bin_to_base32 secret := by
    simp [Base32.Memory.padded, Base32.Memory.requiredPadding]
  have read := @Base32.Memory.base32_to_bin_padded secret [] false bin_len room _ (Nat.le_refl _)
  rw [List.take_left, same] at read
  have some_char : Base32.bin_to_base32 secret ≠ [] := fun nothing =>
    bin_to_base32_some some_byte (by rw [nothing]; rfl)
  obtain ⟨later, decoded, holds⟩ := Base32.Memory.base32_to_bin_eq some_char bin (by omega)
  rw [read] at decoded holds
  exact ⟨later, decoded, holds⟩

theorem context_lossless {entry : Entry} {otp_ctx : Ctx} (name : entry.name.length < OTP_MIGRATE_PB_FIELD_LEN)
    (issuer : entry.issuer.length < OTP_MIGRATE_PB_FIELD_LEN) :
    Lossless entry (entry.context otp_ctx) ↔ (entry.hotp = false → entry.counter.toUInt64 = otp_ctx.counter) := by
  constructor
  · intro lossless totp
    have counter := lossless.counter
    rw [Entry.context, totp] at counter
    exact counter.symm
  · intro same
    refine ⟨rfl, rfl, rfl, ?_, secret_decodes entry.secret_fits.1, ⟨entry.labelText, rfl, ?_⟩, ?_⟩
    · cases kind : entry.hotp with
      | true => simp [Entry.context, kind]
      | false => simp [Entry.context, kind, same kind]
    · exact decodes_of_encodes (labelText_encodes entry) (label_length name issuer)
    · exact decodes_of_encodes (encodes_encode entry.printable.2) (Nat.lt_trans issuer (by decide))

/-- A counter that is not negative is positive, or zero. -/
theorem counter_positive (entry : Entry) : 0 < entry.counter ↔ entry.counter ≠ 0 := by
  have not_negative := entry.not_negative
  constructor
  · rintro positive zero
    rw [zero] at positive
    exact absurd positive (by decide)
  · intro some_count
    exact Int64.lt_iff_le_and_ne.mpr ⟨not_negative, Ne.symm some_count⟩

/-- A uri that is built of the fields of an entry is accepted with everything that the entry has exactly if a counter of
an HOTP entry is not zero. -/
theorem migration_lossless {http_parser_parse_url : Bytes → Option Url} (parses : ParsesUrls http_parser_parse_url)
    (entry : Entry) (base32 : Vector UInt8 64) (fields : List Field) (delivers : Delivers entry fields) (uri : Bytes)
    (built : decode_otp_parameters_fn base32 fields = .ok (some uri)) (otp_ctx : Ctx) (named : otp_ctx.name.isSome = true) :
    (∃ after, otp_uri_to_ctx http_parser_parse_url uri otp_ctx = .ok (some after) ∧ Lossless entry after) ↔
      entry.Counted otp_ctx := by
  obtain ⟨rfl, fits, name, issuer⟩ := uri_of_fields delivers built
  rw [otp_uri_to_ctx_entry parses named fits name issuer, Entry.Counted]
  by_cases kind : entry.hotp = true
  · rw [if_pos kind, ← counter_positive]
    by_cases positive : 0 < entry.counter
    · rw [if_neg fun lost => lost.2 positive]
      have lossless := (@context_lossless entry otp_ctx name issuer).mpr fun totp => absurd (kind.symm.trans totp) (by decide)
      exact ⟨fun _ => positive, fun _ => ⟨_, rfl, lossless⟩⟩
    · rw [if_pos ⟨kind, positive⟩]
      constructor
      · rintro ⟨after, ⟨⟩, lossless⟩
      · exact fun counted => absurd counted positive
  · have totp : entry.hotp = false := Bool.eq_false_iff.mpr kind
    rw [if_neg kind, if_neg fun lost => kind lost.1]
    constructor
    · rintro ⟨after, accepted, lossless⟩
      obtain ⟨⟩ := accepted
      exact (context_lossless name issuer).mp lossless totp
    · intro same
      exact ⟨_, rfl, (context_lossless name issuer).mpr fun _ => same⟩

/-! ### Two entries -/

/-- A parser of uris of one form. -/
def splitUrl (uri : Bytes) : Option Url :=
  if uri.take 10 ≠ OTP_SCHEMA_FULL then none
  else
    let host := (uri.drop 10).takeWhile (· ≠ 47)
    let behind := (uri.drop 10).dropWhile (· ≠ 47)
    let path := behind.takeWhile (· ≠ 63)
    let query := (behind.dropWhile (· ≠ 63)).tail
    some {
      schema := some ⟨0, 7⟩
      host := some ⟨10, host.length⟩
      port := none
      path := some ⟨10 + host.length, path.length⟩
      query := some ⟨11 + host.length + path.length, query.length⟩
      fragment := none }

theorem splitUrl_parses : ParsesUrls splitUrl := by
  constructor
  intro host path query known chars _ _ _
  have no_slash : 47 ∉ host := by
    rcases known with rfl | rfl
    · decide
    · decide
  have four : host.length = 4 := by
    rcases known with rfl | rfl
    · rfl
    · rfl
  have no_mark : 63 ∉ 47 :: path := by
    intro mark
    rcases List.mem_cons.mp mark with wrong | inside
    · cases wrong
    · rcases chars 63 inside with letter | percent | plus | colon
      · revert letter
        decide
      · cases percent
      · cases plus
      · cases colon
  obtain ⟨host_taken, path_left⟩ := @cut_at 47 host (47 :: path ++ 63 :: query) no_slash (by rintro _ ⟨⟩; rfl)
  obtain ⟨path_taken, query_left⟩ := @cut_at 63 (47 :: path) (63 :: query) no_mark (by rintro _ ⟨⟩; rfl)
  have start : (OTP_SCHEMA_FULL ++ (host ++ (47 :: path ++ 63 :: query))).take 10 = OTP_SCHEMA_FULL :=
    List.take_left' rfl
  have behind : (OTP_SCHEMA_FULL ++ (host ++ (47 :: path ++ 63 :: query))).drop 10 = host ++ (47 :: path ++ 63 :: query) :=
    List.drop_left' rfl
  rw [List.append_assoc, List.append_assoc, splitUrl, start, behind, if_neg (not_not_intro rfl), host_taken, path_left]
  dsimp only
  rw [path_taken, query_left, four, List.length_cons, List.tail_cons]
  simp only [Option.some.injEq, Url.mk.injEq, Place.mk.injEq, true_and, and_true]
  omega

/-- An HOTP entry of eight digits, whose name and issuer have characters to escape. -/
def issuedEntry : Entry where
  secret := [1, 2, 3]
  name := ascii "bob smith"
  issuer := ascii "A&B: 50%"
  hotp := true
  md_type := .SHA256
  eight := true
  counter := 5
  secret_fits := by decide
  printable := by
    unfold UrlCodec.Printable
    decide +kernel
  algorithm_known := by decide
  not_negative := by decide

def issuedFields : List Field :=
  [.secret [1, 2, 3], .name (ascii "bob smith"), .issuer (ascii "A&B: 50%"), .algorithm 2, .digits 2, .type 1, .counter 5]

theorem migration_lossless_issued : ∃ after,
    otp_uri_to_ctx splitUrl (ascii
        "otpauth://hotp/A%26B%3A+50%25:bob+smith?secret=AEBAG&issuer=A%26B%3A+50%25&algorithm=SHA256&digits=8&counter=5")
      (Ctx.named "bob") = .ok (some after) ∧
      Lossless issuedEntry after :=
  (migration_lossless splitUrl_parses issuedEntry (Vector.replicate 64 0) issuedFields
    ⟨rfl, .inl rfl, .inl rfl, rfl, rfl, rfl, rfl⟩ _ (by decide +kernel) (Ctx.named "bob") rfl).mpr
    (by unfold Entry.Counted; decide)

/-- An HOTP entry of a name whose counter is zero. -/
def exampleEntry : Entry where
  secret := [1, 2, 3]
  name := ascii "bob"
  issuer := []
  hotp := true
  md_type := .SHA1
  eight := false
  counter := 0
  secret_fits := by decide
  printable := by
    unfold UrlCodec.Printable
    decide +kernel
  algorithm_known := by decide
  not_negative := by decide

/-- Its fields, of which an encoder leaves out a counter that is zero. -/
def exampleFields : List Field := [.secret [1, 2, 3], .name (ascii "bob"), .algorithm 1, .digits 1, .type 1]

/-- Not every migrated entry is read again: no counter is written if it is zero. -/
theorem migration_not_lossless : ¬ ∀ (http_parser_parse_url : Bytes → Option Url), ParsesUrls http_parser_parse_url →
    ∀ (entry : Entry) (base32 : Vector UInt8 64) (fields : List Field), Delivers entry fields → ∀ (uri : Bytes),
      decode_otp_parameters_fn base32 fields = .ok (some uri) → ∀ (otp_ctx : Ctx), otp_ctx.name.isSome = true →
        ∃ after, otp_uri_to_ctx http_parser_parse_url uri otp_ctx = .ok (some after) ∧ Lossless entry after := by
  intro lossless
  have built : decode_otp_parameters_fn (Vector.replicate 64 0) exampleFields =
      .ok (some (ascii "otpauth://hotp/bob?secret=AEBAG")) := by decide +kernel
  obtain ⟨after, accepted, _⟩ := lossless splitUrl splitUrl_parses exampleEntry _ exampleFields
    ⟨rfl, .inl rfl, .inr ⟨rfl, rfl⟩, rfl, rfl, rfl, rfl⟩ _ built (Ctx.named "bob") rfl
  have refused : otp_uri_to_ctx splitUrl (ascii "otpauth://hotp/bob?secret=AEBAG") (Ctx.named "bob") = .ok none := by
    decide +kernel
  rw [refused] at accepted
  cases accepted

end PiJade.Otp
