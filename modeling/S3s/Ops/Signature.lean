import S3s.Http.Request
import S3s.SigV4.Authorization
import S3s.SigV4.CanonicalRequest

/-! # Checking the signature of a request

Authentication by the `Authorization` header, step by step in the order of the
source: the parsed headers, the scope of the credential, the payload that stands
in the canonical request, the signed headers, the signature itself, and the body
that takes the place of the one that arrived.
-/
namespace S3s.Ops
open Http SigV4 Upload

/-- The fields of `S3Config` that are read here. -/
structure S3Config where
  xmlMaxBodySize : Nat
  awsChunkedStreamMaxChunkSize : Nat
  presignedUrlMaxSkewTimeSecs : Nat
  expectedRegion : Option Bytes
  sigV4AllowedServices : List Bytes
  allowPresignedUrl : Bool
  unsignedAmzHeaderAllowlist : List Bytes

/-- A boxed error: what it says, and whether it is a `BodySizeLimitExceeded`. -/
structure StdError where
  text : Bytes
  isBodySizeLimitExceeded : Bool

/-- What is taken from other crates: the primitives and recognisers of the decoder, the formats of
the headers, `atoi`, percent-decoding, media types, what `{:?}` writes for header values and for
texts, and `collect` of a `Limited` body. -/
structure Environment (ε : Type) where
  externals : AwsChunked.Externals
  formats : Formats
  atoi : Bytes → Option Nat
  urlDecode : Bytes → Option Bytes
  parseMime : Bytes → Option Mime
  debugHeaderValue : Bytes → Bytes
  debugStr : Bytes → Bytes
  collectLimited : Nat → CheckedBody ε → Except StdError Bytes

/-- `store_all_limited`: the bytes, and the body that holds them from then on. -/
def storeAllLimited {ε : Type} (E : Environment ε) (limit : Nat) (body : CheckedBody ε) :
    Except StdError (Bytes × CheckedBody ε) :=
  match body.bytes with
  | some bytes =>
    if bytes.length > limit then
      .error ⟨ascii "body size " ++ Bytes.decimal bytes.length ++ ascii " exceeds limit " ++
        Bytes.decimal limit, true⟩
    else .ok (bytes, body)
  | none =>
    match E.collectLimited limit body with
    | .ok bytes => .ok (bytes, .ofBytes bytes)
    | .error e => .error e

/-- `usize::try_from` of a `u64` -/
def usizeTryFrom (n : Nat) : Option Nat := if n < 2 ^ 64 then some n else none

/-- `MAX_STS_BODY_SIZE` -/
def maxStsBodySize : Nat := 8192

section Headers

variable (F : Formats)

/-- `extract_amz_content_sha256` -/
def extractAmzContentSha256 (hs : HeaderMap) : S3Result (Option AmzContentSha256) :=
  match getUniqueHeaderStr hs (ascii "x-amz-content-sha256") with
  | none => .ok none
  | some val =>
    match AmzContentSha256.parse F val with
    | some x => .ok (some x)
    | none => .error (.saying .signatureDoesNotMatch (ascii "invalid header: x-amz-content-sha256"))

/-- `extract_authorization_v4` -/
def extractAuthorizationV4 (hs : HeaderMap) : S3Result (Option AuthorizationV4) :=
  match getUniqueHeaderStr hs (ascii "authorization") with
  | none => .ok none
  | some val =>
    match AuthorizationV4.parse F val with
    | .ok x => .ok (some x)
    | .error .invalidSignature =>
      .error (.saying .signatureDoesNotMatch
        (ascii "invalid header: authorization: invalid signature"))
    | .error .malformed => .error (invalidRequest (ascii "invalid header: authorization"))

/-- `extract_amz_date` -/
def extractAmzDate (hs : HeaderMap) : S3Result (Option AmzDate) :=
  match getUniqueHeaderStr hs (ascii "x-amz-date") with
  | none => .ok none
  | some val =>
    match AmzDate.parse val with
    | some x => .ok (some x)
    | none => .error (invalidRequest (ascii "invalid header: x-amz-date"))

/-- Whether a header may be left unsigned. -/
def mayBeUnsigned (config : S3Config) (name : Bytes) : Bool :=
  !(ascii "x-amz-").isPrefixOf name || name == ascii "x-amz-content-sha256" ||
    config.unsignedAmzHeaderAllowlist.any (· == name)

/-- `str::eq_ignore_ascii_case` -/
def eqIgnoreAsciiCase (a b : Bytes) : Bool := Bytes.lowercase a == Bytes.lowercase b

/-- `reject_unsigned_amz_headers` -/
def rejectUnsignedAmzHeaders (config : S3Config) (hs : HeaderMap) (signedNames : List Bytes) :
    S3Result Unit :=
  if hs.entries.all fun e =>
      mayBeUnsigned config e.1 || signedNames.any fun signed => eqIgnoreAsciiCase signed e.1 then
    .ok ()
  else
    .error (.saying .accessDenied
      (ascii "There were headers present in the request which were not signed"))

/-- One round of `collect_signed_headers`: the values under one declared name. -/
def signedHeaderValues (hs : HeaderMap) (onMissing : Bytes → Option Bytes) (name : Bytes) :
    S3Result (List (Bytes × Bytes)) :=
  let values := hs.getAll name
  if values.any fun value => (headerValueToStr value).isNone then
    .error (.saying .signatureDoesNotMatch (ascii "invalid signed header: " ++ name))
  else if values.isEmpty then
    match onMissing name with
    | some value => .ok [(name, value)]
    | none => .error (.saying .signatureDoesNotMatch (ascii "missing signed header: " ++ name))
  else .ok (values.map fun value => (name, value))

/-- `collect_signed_headers` -/
def collectSignedHeaders (hs : HeaderMap) (onMissing : Bytes → Option Bytes) :
    List Bytes → S3Result (List (Bytes × Bytes))
  | [] => .ok []
  | name :: names => do
    let headers ← signedHeaderValues hs onMissing name
    let rest ← collectSignedHeaders hs onMissing names
    .ok (headers ++ rest)

end Headers

/-- `SignatureContext`. The configuration is one snapshot, the clock is read once, in nanoseconds. -/
structure SignatureContext (ε : Type) where
  auth : Option (Bytes → S3Result Bytes)
  config : S3Config
  now : Int
  reqVersion : Version
  reqMethod : Bytes
  authority : Option Bytes
  reqBody : ArrivingBody ε
  qs : Option (List (Bytes × Bytes))
  hs : HeaderMap
  decodedUriPath : Bytes
  rawUriPath : Bytes
  contentLength : Option Nat
  mime : Option Mime
  decodedContentLength : Option Nat

/-- `CredentialsExt` -/
structure CredentialsExt where
  accessKey : Bytes
  secretKey : Bytes
  region : Option Bytes
  service : Option Bytes

/-- What a check leaves in the context beside its result: the body in place of the one that
arrived, and the transformed body. -/
structure CheckedRequest (ε : Type) where
  reqBody : CheckedBody ε
  transformedBody : Option (CheckedBody ε)

/-- `require_auth` -/
def requireAuth (auth : Option (Bytes → S3Result Bytes)) : S3Result (Bytes → S3Result Bytes) :=
  match auth with
  | some auth => .ok auth
  | none => .error (.saying .notImplemented (ascii "This service has no authentication provider"))

/-- `has_unencoded_reserved_path_char` -/
def hasUnencodedReservedPathChar (path : Bytes) : Bool :=
  path.any fun b => !(isUnreserved b || b == 47 || b == 37)

/-- `validate_clock_skew` -/
def validateClockSkew (requestTime now : Int) (config : S3Config) : S3Result Unit :=
  if (now - requestTime).natAbs > config.presignedUrlMaxSkewTimeSecs * 10 ^ 9 then
    .error (.saying .requestTimeTooSkewed (ascii "request time is too far from server time"))
  else .ok ()

/-- `validate_sig_v4_clock_skew` -/
def validateSigV4ClockSkew (F : Formats) (amzDate : AmzDate) (now : Int) (config : S3Config) :
    S3Result Unit :=
  match F.toTime amzDate with
  | some requestTime => validateClockSkew requestTime now config
  | none => .error (invalidRequest (ascii "invalid amz date"))

/-- `validate_sig_v4_region` -/
def validateSigV4Region (region : Bytes) (config : S3Config) : S3Result Unit :=
  match config.expectedRegion with
  | some expected =>
    if region ≠ expected then
      .error (.saying .authorizationHeaderMalformed
        (ascii "The authorization header is malformed; the region is wrong; expecting '" ++
          expected ++ ascii "'."))
    else .ok ()
  | none => .ok ()

/-- `validate_sig_v4_service` -/
def validateSigV4Service (service : Bytes) (config : S3Config) : S3Result Unit :=
  if config.sigV4AllowedServices.any (· == service) then .ok ()
  else
    .error (.saying .notImplemented
      (ascii "unknown service '" ++ service ++ ascii "' in credential scope; expected one of: " ++
        (ascii ", ").intercalate config.sigV4AllowedServices))

/-- `SignatureVerificationContext` -/
structure SignatureVerificationContext where
  expectedSignature : Bytes
  rawUriPath : Bytes
  secretKey : Bytes
  amzDate : AmzDate
  region : Bytes
  service : Bytes

namespace SignatureVerificationContext

variable (C : Crypto)

/-- The signature of a canonical request. -/
def signatureOf (v : SignatureVerificationContext) (canonicalRequest : Bytes) : Sha256Sum :=
  calculateSignature C (createStringToSign C canonicalRequest v.amzDate v.region v.service)
    v.secretKey v.amzDate v.region v.service

/-- `verify_with_raw_path_fallback` -/
def verifyWithRawPathFallback (v : SignatureVerificationContext)
    (canonicalRequest rawCanonicalRequest : Bytes) : S3Result Sha256Sum :=
  if (v.signatureOf C canonicalRequest).hex = v.expectedSignature then
    .ok (v.signatureOf C canonicalRequest)
  else if !hasUnencodedReservedPathChar v.rawUriPath then .error (.bare .signatureDoesNotMatch)
  else if (v.signatureOf C rawCanonicalRequest).hex = v.expectedSignature then
    .ok (v.signatureOf C rawCanonicalRequest)
  else .error (.bare .signatureDoesNotMatch)

end SignatureVerificationContext

namespace SignatureContext

variable {ε : Type} (E : Environment ε) (ctx : SignatureContext ε)

/-- `signed_host_fallback` -/
def signedHostFallback (name : Bytes) : Option Bytes :=
  if name = ascii "host" ∧ (ctx.reqVersion = .http2 ∨ ctx.reqVersion = .http3) then ctx.authority
  else none

/-- The scope of a request that is authenticated by header. -/
structure HeaderScope where
  authorization : AuthorizationV4
  amzDate : AmzDate
  amzContentSha256 : Option AmzContentSha256
  secretKey : Bytes
deriving DecidableEq

/-- `v4_check_header_auth` up to the lookup of the secret key. -/
def headerScope : S3Result HeaderScope := do
  let some authorization ← extractAuthorizationV4 E.formats ctx.hs
    | .error (.bare .missingSecurityHeader)
  if authorization.algorithm ≠ ascii "AWS4-HMAC-SHA256" then
    .error (.saying .notImplemented
      (ascii "Authorization algorithm other than AWS4-HMAC-SHA256 is not implemented"))
  else
    validateSigV4Service authorization.credential.awsService ctx.config
    let auth ← requireAuth ctx.auth
    let some amzDate ← extractAmzDate ctx.hs
      | .error (invalidRequest (ascii "missing header: x-amz-date"))
    if authorization.credential.date ≠ amzDate.fmtDate then
      .error (.saying .signatureDoesNotMatch
        (ascii "credential scope date does not match x-amz-date"))
    else
      validateSigV4Region authorization.credential.awsRegion ctx.config
      validateSigV4ClockSkew E.formats amzDate ctx.now ctx.config
      let amzContentSha256 ← extractAmzContentSha256 E.formats ctx.hs
      if authorization.credential.awsService = ascii "s3" ∧ amzContentSha256 = none then
        .error (invalidRequest (ascii "missing header: x-amz-content-sha256"))
      else
        let secretKey ← auth authorization.credential.accessKeyId
        .ok ⟨authorization, amzDate, amzContentSha256, secretKey⟩

/-- The payload of the canonical request. Without a declared hash the body of an STS request is
read and buffered; otherwise it stays as it arrived. -/
def headerPayload (scope : HeaderScope) : S3Result (Payload × CheckedBody ε) :=
  match scope.amzContentSha256 with
  | some .streamingAws4HmacSha256Payload => .ok (.multipleChunks, ctx.reqBody.keep)
  | some .streamingAws4HmacSha256PayloadTrailer => .ok (.multipleChunksWithTrailer, ctx.reqBody.keep)
  | some .unsignedPayload => .ok (.unsigned, ctx.reqBody.keep)
  | some .streamingUnsignedPayloadTrailer =>
    .ok (.unsignedMultipleChunksWithTrailer, ctx.reqBody.keep)
  | some (.singleChunk checksum) => .ok (.singleChunk checksum.hex, ctx.reqBody.keep)
  | some .streamingAws4EcdsaP256Sha256Payload =>
    .error (.saying .notImplemented
      (ascii "AWS4-ECDSA-P256-SHA256 signing method is not implemented yet"))
  | some .streamingAws4EcdsaP256Sha256PayloadTrailer =>
    .error (.saying .notImplemented
      (ascii "AWS4-ECDSA-P256-SHA256 signing method is not implemented yet"))
  | none =>
    if scope.authorization.credential.awsService = ascii "sts" then
      match storeAllLimited E maxStsBodySize ctx.reqBody.keep with
      | .ok (bytes, body) =>
        .ok (.singleChunk (hexSha256 E.externals.toCrypto bytes), body)
      | .error e => .error (invalidRequest (ascii "failed to read STS request body: " ++ e.text))
    else .error (invalidRequest (ascii "missing header: x-amz-content-sha256"))

/-- The signed headers, and the signature over them, checked. -/
def headerSignature (scope : HeaderScope) (payload : Payload) : S3Result Sha256Sum := do
  let names := scope.authorization.signedHeaders
  let headers ← collectSignedHeaders ctx.hs ctx.signedHostFallback names
  rejectUnsignedAmzHeaders ctx.config ctx.hs names
  let verifier : SignatureVerificationContext :=
    { expectedSignature := scope.authorization.signature
      rawUriPath := ctx.rawUriPath
      secretKey := scope.secretKey
      amzDate := scope.amzDate
      region := scope.authorization.credential.awsRegion
      service := scope.authorization.credential.awsService }
  verifier.verifyWithRawPathFallback E.externals.toCrypto
    (createCanonicalRequest ctx.reqMethod ctx.decodedUriPath (ctx.qs.getD []) headers payload)
    (createCanonicalRequestWithRawUriPath ctx.reqMethod ctx.rawUriPath (ctx.qs.getD []) headers
      payload)

/-- The arguments of the aws-chunked stream of a request. -/
def streamArgs (scope : HeaderScope) (seedSignature : Sha256Sum) (decodedContentLength : Nat) :
    AwsChunked.StreamArgs where
  seedSignature := seedSignature
  amzDate := scope.amzDate
  region := scope.authorization.credential.awsRegion
  service := scope.authorization.credential.awsService
  secretKey := scope.secretKey
  decodedContentLength := decodedContentLength
  unsigned := scope.amzContentSha256 = some .streamingUnsignedPayloadTrailer
  maxChunkSize := ctx.config.awsChunkedStreamMaxChunkSize

/-- The streaming arm: the aws-chunked stream over the body that arrived. -/
def installAwsChunked (scope : HeaderScope) (signature : Sha256Sum) : S3Result (CheckedRequest ε) :=
  if scope.amzContentSha256.any AmzContentSha256.hasTrailer ∧
      getUniqueHeaderStr ctx.hs (ascii "x-amz-trailer") = none then
    .error (invalidRequest (ascii "missing header: x-amz-trailer"))
  else
    match ctx.decodedContentLength with
    | none =>
      .error (.saying .missingContentLength (ascii "missing header: x-amz-decoded-content-length"))
    | some decodedContentLength =>
      match Sha256Sum.fromHex signature.hex with
      | none =>
        .error (.saying .internalError (ascii "verified request signature is not canonical hex"))
      | some seedSignature =>
        .ok ⟨⟨.empty, none⟩, some (.ofStream (.awsChunked (.new E.externals
          (ctx.streamArgs scope seedSignature decodedContentLength)
          (fragments ctx.reqBody.script))))⟩

/-- The length of a body that is sent in one piece. -/
def singleChunkLength : S3Result Nat :=
  match ctx.contentLength with
  | some contentLength =>
    match usizeTryFrom contentLength with
    | some length => .ok length
    | none => .error (invalidRequest (ascii "content-length exceeds platform limits"))
  | none =>
    match ctx.reqBody.remainingLength.exact with
    | some length => .ok length
    | none => .error (.saying .missingContentLength (ascii "missing header: content-length"))

/-- The last part of `v4_check_header_auth`: what takes the place of the body. -/
def installBody (scope : HeaderScope) (signature : Sha256Sum) (body : CheckedBody ε) :
    S3Result (CheckedRequest ε) :=
  if scope.amzContentSha256.any AmzContentSha256.isStreaming then
    ctx.installAwsChunked E scope signature
  else
    match scope.amzContentSha256 with
    | some (.singleChunk expected) =>
      match ctx.singleChunkLength with
      | .ok length => .ok ⟨.ofStream (.upload (.new ctx.reqBody.script length expected)), none⟩
      | .error e => .error e
    | some .unsignedPayload =>
      if ctx.contentLength = none ∧ ctx.reqBody.remainingLength.exact = none then
        .error (.saying .missingContentLength (ascii "missing header: content-length"))
      else .ok ⟨body, none⟩
    | _ => .ok ⟨body, none⟩

/-- `v4_check_header_auth` -/
def v4CheckHeaderAuth : S3Result (CredentialsExt × CheckedRequest ε) := do
  let scope ← ctx.headerScope E
  let (payload, body) ← ctx.headerPayload E scope
  let signature ← ctx.headerSignature E scope payload
  let checked ← ctx.installBody E scope signature body
  .ok (
    { accessKey := scope.authorization.credential.accessKeyId
      secretKey := scope.secretKey
      region := some scope.authorization.credential.awsRegion
      service := some scope.authorization.credential.awsService }, checked)

end SignatureContext

end S3s.Ops
