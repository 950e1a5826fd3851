import S3s.SigV4.Chain

/-! # The headers of a signed request

Parsers of `Authorization`, `x-amz-date` and `x-amz-content-sha256`. The calendar
and base64 are those of other crates and are passed in.
-/
namespace S3s.SigV4

/-- What the parsers take from other crates: whether a civil date exists, the instant of a date in
nanoseconds, and a digest in standard base64. -/
structure Formats where
  validDate : Nat → Nat → Nat → Bool
  toTime : AmzDate → Option Int
  base64Digest : Bytes → Option Sha256Sum

/-- `digit` -/
def digit (c : UInt8) : Option Nat := if Bytes.isDigit c then some (c.toNat - 48) else none

/-- `digit2` -/
def digit2 (a b : UInt8) : Option Nat :=
  match digit a, digit b with
  | some x, some y => some (x * 10 + y)
  | _, _ => none

/-- `digit4` -/
def digit4 (a b c d : UInt8) : Option Nat :=
  match digit2 a b, digit2 c d with
  | some x, some y => some (x * 100 + y)
  | _, _ => none

/-- `AmzDate::parse` -/
def AmzDate.parse (header : Bytes) : Option AmzDate :=
  match header with
  | [y0, y1, y2, y3, m0, m1, d0, d1, t, h0, h1, n0, n1, s0, s1, z] =>
    if t = 84 ∧ z = 90 then
      match digit4 y0 y1 y2 y3, digit2 m0 m1, digit2 d0 d1, digit2 h0 h1, digit2 n0 n1,
        digit2 s0 s1 with
      | some year, some month, some day, some hour, some minute, some second =>
        some ⟨year, month, day, hour, minute, second⟩
      | _, _, _, _, _, _ => none
    else none
  | _ => none

/-- `AmzContentSha256` -/
inductive AmzContentSha256 where
  | singleChunk (checksum : Sha256Sum)
  | unsignedPayload
  | streamingUnsignedPayloadTrailer
  | streamingAws4HmacSha256Payload
  | streamingAws4HmacSha256PayloadTrailer
  | streamingAws4EcdsaP256Sha256Payload
  | streamingAws4EcdsaP256Sha256PayloadTrailer
deriving DecidableEq

namespace AmzContentSha256

/-- `parse_checksum` -/
def parseChecksum (F : Formats) (header : Bytes) : Option Sha256Sum :=
  if isSha256Checksum header then Sha256Sum.fromHex header else F.base64Digest header

/-- `AmzContentSha256::parse` -/
def parse (F : Formats) (header : Bytes) : Option AmzContentSha256 :=
  match parseChecksum F header with
  | some checksum => some (.singleChunk checksum)
  | none =>
    if header = ascii "UNSIGNED-PAYLOAD" then some .unsignedPayload
    else if header = ascii "STREAMING-UNSIGNED-PAYLOAD-TRAILER" then
      some .streamingUnsignedPayloadTrailer
    else if header = ascii "STREAMING-AWS4-HMAC-SHA256-PAYLOAD" then
      some .streamingAws4HmacSha256Payload
    else if header = ascii "STREAMING-AWS4-HMAC-SHA256-PAYLOAD-TRAILER" then
      some .streamingAws4HmacSha256PayloadTrailer
    else if header = ascii "STREAMING-AWS4-ECDSA-P256-SHA256-PAYLOAD" then
      some .streamingAws4EcdsaP256Sha256Payload
    else if header = ascii "STREAMING-AWS4-ECDSA-P256-SHA256-PAYLOAD-TRAILER" then
      some .streamingAws4EcdsaP256Sha256PayloadTrailer
    else none

/-- `AmzContentSha256::is_streaming` -/
def isStreaming : AmzContentSha256 → Bool
  | .singleChunk _ => false
  | .unsignedPayload => false
  | _ => true

/-- `AmzContentSha256::has_trailer` -/
def hasTrailer : AmzContentSha256 → Bool
  | .streamingUnsignedPayloadTrailer => true
  | .streamingAws4HmacSha256PayloadTrailer => true
  | .streamingAws4EcdsaP256Sha256PayloadTrailer => true
  | _ => false

end AmzContentSha256

/-- `CredentialV4` -/
structure CredentialV4 where
  accessKeyId : Bytes
  date : Bytes
  awsRegion : Bytes
  awsService : Bytes
deriving DecidableEq

/-- `AuthorizationV4` -/
structure AuthorizationV4 where
  algorithm : Bytes
  credential : CredentialV4
  signedHeaders : List Bytes
  signature : Bytes
deriving DecidableEq

/-- `ParseAuthorizationError` -/
inductive ParseAuthorizationError where
  | malformed
  | invalidSignature

/-- `u8::is_ascii_whitespace` -/
def isAsciiWhitespace (c : UInt8) : Bool := c == 32 || c == 9 || c == 10 || c == 12 || c == 13

/-- The characters of `multispace0`. -/
def isMultispace (c : UInt8) : Bool := c == 32 || c == 9 || c == 10 || c == 13

/-- `tag` -/
def tag (t s : Bytes) : Option Bytes := if t.isPrefixOf s then some (s.drop t.length) else none

/-- `until_slash0` -/
def untilSlash0 (s : Bytes) : Option (Bytes × Bytes) :=
  match s.dropWhile (· != 47) with
  | [] => none
  | _ :: rest => some (s.takeWhile (· != 47), rest)

/-- `until_slash1` -/
def untilSlash1 (s : Bytes) : Option (Bytes × Bytes) :=
  match untilSlash0 s with
  | some ([], _) => none
  | other => other

/-- `verify_date` -/
def verifyDate (F : Formats) (s : Bytes) : Bool :=
  match s with
  | [y0, y1, y2, y3, m0, m1, d0, d1] =>
    match digit4 y0 y1 y2 y3, digit2 m0 m1, digit2 d0 d1 with
    | some year, some month, some day => F.validDate year month day
    | _, _, _ => false
  | _ => false

/-- `parse_credential` -/
def parseCredential (F : Formats) (s : Bytes) : Option (CredentialV4 × Bytes) := do
  let (accessKeyId, s) ← untilSlash0 s
  let (date, s) ← untilSlash1 s
  if verifyDate F date then
    let (awsRegion, s) ← untilSlash0 s
    let (awsService, s) ← untilSlash1 s
    let s ← tag (ascii "aws4_request") s
    some (⟨accessKeyId, date, awsRegion, awsService⟩, s)
  else none

/-- `parse_authorization` -/
def parseAuthorization (F : Formats) (s : Bytes) : Option (AuthorizationV4 × Bytes) := do
  let algorithm := s.takeWhile (!isAsciiWhitespace ·)
  let s := s.dropWhile (!isAsciiWhitespace ·)
  if algorithm.isEmpty || (s.takeWhile isMultispace).isEmpty then none
  else
    let s ← tag (ascii "Credential=") (s.dropWhile isMultispace)
    let (credential, s) ← parseCredential F s
    let s ← tag (ascii ",") s
    let s ← tag (ascii "SignedHeaders=") (s.dropWhile isMultispace)
    let signedHeaders := (s.takeWhile (· != 44)).splitOn 59
    let s ← tag (ascii ",") (s.dropWhile (· != 44))
    let s ← tag (ascii "Signature=") (s.dropWhile isMultispace)
    let signature := s.takeWhile (!isAsciiWhitespace ·)
    some (⟨algorithm, credential, signedHeaders, signature⟩,
      (s.dropWhile (!isAsciiWhitespace ·)).dropWhile isMultispace)

/-- `AuthorizationV4::parse` -/
def AuthorizationV4.parse (F : Formats) (header : Bytes) :
    Except ParseAuthorizationError AuthorizationV4 :=
  match parseAuthorization F header with
  | some (ans, []) => if isSha256Checksum ans.signature then .ok ans else .error .invalidSignature
  | _ => .error .malformed

end S3s.SigV4
