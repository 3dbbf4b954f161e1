import PiJade.ParseUint
import PiJade.UrlCodec

/-!
One-time passwords (`main/otpauth.c`): the context of a record, and how a uri becomes one. Strings with a
length are their bytes. The parser of uris is a parameter.
-/
namespace PiJade.Otp
open Text
open SettingsCodec (ascii)
open DescriptorText.Memory (Exit)
open UrlCodec (is_valid_urlencoding)
open ParseUint (parse_uint64)
set_option linter.unusedSimpArgs false

def OTP_MAX_URI_LEN : Nat := 256
def OTP_MAX_LABEL_LEN : Nat := 128
def OTP_SCHEMA : Bytes := ascii "otpauth"
def OTP_SCHEMA_FULL : Bytes := ascii "otpauth://"

inductive MdType where
  | NONE
  | SHA1
  | SHA256
  | SHA512
  deriving DecidableEq, Repr

inductive OtpType where
  | NONE
  | HOTP
  | TOTP
  deriving DecidableEq, Repr

/-- `otpauth_ctx_t`. A string that is not there is empty; a label without a length is none. -/
structure Ctx where
  counter : UInt64
  md_type : MdType
  otp_type : OtpType
  name : Option String
  type : Bytes
  label : Option Bytes
  secret : Bytes
  issuer : Bytes
  digits : Int
  period : Int8
  deriving DecidableEq, Repr

/-- A context with a name and nothing else. -/
def Ctx.named (name : String) : Ctx where
  counter := 0
  md_type := .NONE
  otp_type := .NONE
  name := some name
  type := []
  label := some []
  secret := []
  issuer := []
  digits := 0
  period := 0

def isprint (c : UInt8) : Bool := 32 ≤ c && c ≤ 126

/-- An optional field: what is there is encoded characters. -/
def validField (field : Bytes) : Except Exit Bool :=
  if field.length = 0 then return true else is_valid_urlencoding field OTP_MAX_LABEL_LEN isprint

def otp_is_valid (otp_ctx : Ctx) : Except Exit Bool :=
  if otp_ctx.name.isNone then return false
  else if otp_ctx.type.length = 0 then return false
  else if otp_ctx.secret.length = 0 then return false
  else if otp_ctx.otp_type ≠ .HOTP ∧ otp_ctx.otp_type ≠ .TOTP then return false
  else if otp_ctx.otp_type = .TOTP ∧ otp_ctx.period = 0 then return false
  else if otp_ctx.digits ≠ 6 ∧ otp_ctx.digits ≠ 8 then return false
  else if otp_ctx.md_type = .NONE then return false
  else
    match otp_ctx.label with
    -- The length of a label that has no path wraps, and its end is before its start.
    | none => .error .abort
    | some label => do
      if ← validField label then validField otp_ctx.issuer
      else return false

/-- The loop of `get_query_argument`; the key is compared without regard to case. -/
def findArgument (key : Bytes) : Nat → Bytes → Option Bytes
  | 0, _ => none
  | rounds + 1, query =>
    if query.length = 0 then none
    else
      let name := query.takeWhile (· ≠ 61)
      match query.dropWhile (· ≠ 61) with
      | [] => none
      | _ :: value =>
        if name.length = key.length ∧ name.map tolower = key.map tolower then some (value.takeWhile (· ≠ 38))
        else findArgument key rounds (value.dropWhile (· ≠ 38)).tail

def get_query_argument (query key : Bytes) : Option Bytes := findArgument key (query.length + 1) query

/-- Where a field of a uri is. -/
structure Place where
  off : Nat
  len : Nat
  deriving DecidableEq, Repr

/-- `struct http_parser_url`, with the fields that are set. -/
structure Url where
  schema : Option Place
  host : Option Place
  port : Option Place
  path : Option Place
  query : Option Place
  fragment : Option Place
  deriving DecidableEq, Repr

/-- The bytes of a field. -/
def Place.of (uri : Bytes) : Option Place → Bytes
  | none => []
  | some place => (uri.drop place.off).take place.len

def parseDigits : Option Bytes → Option Int
  | none => some 6
  | some tmp =>
    if tmp.length ≠ 1 then none
    else
      let digits : Int := (tmp.headD 0).toNat - 48
      if digits = 6 ∨ digits = 8 then some digits else none

def parseAlgorithm : Option Bytes → Option MdType
  | none => some .SHA1
  | some tmp =>
    if tmp = ascii "SHA1" then some .SHA1
    else if tmp = ascii "SHA256" then some .SHA256
    else if tmp = ascii "SHA512" then some .SHA512
    else none

/-- A period is kept in eight bits, with a sign. -/
def parsePeriod : Option Bytes → Option Int8
  | none => some 30
  | some tmp =>
    match parse_uint64 tmp with
    | none => none
    | some value => if value ≤ 0xff then some value.toUInt8.toInt8 else none

/-- The counter of an HOTP record or the period of a TOTP record. -/
def parseMoving (otp_ctx : Ctx) (query : Bytes) : Option Ctx :=
  if otp_ctx.type = ascii "hotp" then
    match get_query_argument query (ascii "counter") with
    | none => none
    | some tmp =>
      if tmp.length = 0 then none
      else match parse_uint64 tmp with
      | none => none
      | some counter => some { otp_ctx with counter, otp_type := .HOTP }
  else if otp_ctx.type = ascii "totp" then
    match parsePeriod (get_query_argument query (ascii "period")) with
    | none => none
    | some period => some { otp_ctx with period, otp_type := .TOTP }
  else none

section
variable (http_parser_parse_url : Bytes → Option Url)

/-- The context of a uri that is accepted; the counter of a TOTP record stays as it was. -/
def otp_uri_to_ctx (uri : Bytes) (otp_ctx : Ctx) : Except Exit (Option Ctx) :=
  match http_parser_parse_url uri with
  | none => return none
  | some u =>
    if Place.of uri u.schema ≠ OTP_SCHEMA then return none
    else if u.host.isNone ∨ u.query.isNone ∨ u.port.isSome ∨ u.fragment.isSome then return none
    else
      let query := Place.of uri u.query
      let label := if u.path.isNone then none else some (Place.of uri u.path).tail
      match get_query_argument query (ascii "secret") with
      | none => return none
      | some secret =>
        if secret.length = 0 then return none
        else
          let issuer := (get_query_argument query (ascii "issuer")).getD []
          match parseDigits (get_query_argument query (ascii "digits")) with
          | none => return none
          | some digits =>
            match parseAlgorithm (get_query_argument query (ascii "algorithm")) with
            | none => return none
            | some md_type =>
              match parseMoving { otp_ctx with type := Place.of uri u.host, label, secret, issuer, digits, md_type } query with
              | none => return none
              | some otp_ctx => do
                if ← otp_is_valid otp_ctx then return some otp_ctx else return none

end

end PiJade.Otp
