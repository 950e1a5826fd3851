import S3s.Ops.Signature

/-! # Preparing a request

The part of `prepare` that handles the body of an operation that needs all of it:
the declared length, the signature check with its three results, the credentials,
and the collected body. The arms of the signature check other than the
`Authorization` header are parameters.
-/
namespace S3s.Ops
open Http SigV4

/-- The parts of `Request` that are read or written here. -/
structure Request (β : Type) where
  version : Version
  method : Bytes
  path : Bytes
  authority : Option Bytes
  headers : HeaderMap
  body : β
  qs : Option (List (Bytes × Bytes))

/-- What `verify_signature` writes to the extensions of the request. -/
structure S3Extensions (μ : Type) where
  multipart : Option μ
  credentials : Option (Bytes × Bytes)
  region : Option Bytes
  service : Option Bytes

/-- The parts of `CallContext` that are read here, and the time. -/
structure CallContext where
  auth : Option (Bytes → S3Result Bytes)
  config : S3Config
  now : Int

/-- What a check of a signature leaves behind. -/
structure CheckOutcome (ε μ : Type) extends CheckedRequest ε where
  credentials : Option CredentialsExt
  multipart : Option μ

/-- The other arms of `check`: forms, presigned URLs, and signatures of version 2. None of them
transforms the body. -/
structure OtherArms (ε μ : Type) where
  checkPostSignature : SignatureContext ε → S3Result (Option CredentialsExt × CheckedBody ε × Option μ)
  v4CheckPresignedUrl : SignatureContext ε → S3Result (CredentialsExt × CheckedBody ε)
  v2CheckPresignedUrl : SignatureContext ε → S3Result (CredentialsExt × CheckedBody ε)
  v2CheckHeaderAuth : SignatureContext ε → Bytes × Bytes → S3Result (CredentialsExt × CheckedBody ε)

/-- `extract_mime` -/
def extractMime {ε : Type} (E : Environment ε) (hs : HeaderMap) : Option Mime :=
  match getUniqueHeaderStr hs (ascii "content-type") with
  | some contentType => if contentType.isEmpty then none else E.parseMime contentType
  | none => none

/-- `invalid_content_length` -/
def invalidContentLength {ε : Type} (E : Environment ε) (val : Bytes) : S3Error :=
  .saying .invalidArgument (ascii "invalid header: content-length: " ++ E.debugHeaderValue val)

/-- The value of a text of decimal digits. -/
def decimalValue (s : Bytes) : Nat := s.foldl (fun n c => n * 10 + (c.toNat - 48)) 0

/-- `extract_content_length` -/
def extractContentLength {ε : Type} (E : Environment ε) (hs : HeaderMap) : S3Result (Option Nat) :=
  match hs.getAll (ascii "content-length") with
  | [] => .ok none
  | [val] =>
    if val.isEmpty || val.any fun b => !Bytes.isDigit b then .error (invalidContentLength E val)
    else if decimalValue val < 2 ^ 64 then .ok (some (decimalValue val))
    else .error (invalidContentLength E val)
  | _ :: _ :: _ => .error (invalidRequest (ascii "duplicate header: content-length"))

/-- `signature_content_length` -/
def signatureContentLength (hs : HeaderMap) (contentLength : Option Nat) (requestHasPayload : Bool) :
    Option Nat :=
  if contentLength = none ∧ requestHasPayload = false ∧
      (getUniqueHeaderStr hs (ascii "x-amz-content-sha256")).any fun value =>
        value == emptyStringSha256Hash || value == ascii "UNSIGNED-PAYLOAD" then some 0
  else contentLength

/-- `extract_decoded_content_length` -/
def extractDecodedContentLength {ε : Type} (E : Environment ε) (hs : HeaderMap) :
    S3Result (Option Nat) :=
  match getUniqueHeaderStr hs (ascii "x-amz-decoded-content-length") with
  | none => .ok none
  | some val =>
    match (E.atoi val).bind usizeTryFrom with
    | some x => .ok (some x)
    | none => .error (invalidRequest (ascii "invalid header: x-amz-decoded-content-length"))

/-- `AuthorizationV2::parse`: the access key and the signature. -/
def parseAuthorizationV2 (input : Bytes) : Option (Bytes × Bytes) :=
  match tag (ascii "AWS ") input with
  | none => none
  | some input =>
    match input.dropWhile (· != 58) with
    | [] => none
    | _ :: signature => some (input.takeWhile (· != 58), signature)

/-- `OrderedQs::has` -/
def hasQuery (qs : Option (List (Bytes × Bytes))) (name : Bytes) : Bool :=
  qs.any fun qs => qs.any fun q => q.1 == name

namespace SignatureContext

variable {ε μ : Type} (E : Environment ε) (arms : OtherArms ε μ) (ctx : SignatureContext ε)

/-- `ensure_presigned_url_enabled` -/
def ensurePresignedUrlEnabled : S3Result Unit :=
  if ctx.config.allowPresignedUrl then .ok ()
  else
    .error (.saying .accessDenied
      (ascii "Presigned URL authentication is disabled by server configuration"))

/-- `v2_check` -/
def v2Check : Option (S3Result (CredentialsExt × CheckedRequest ε)) :=
  if hasQuery ctx.qs (ascii "Signature") then
    some do
      ctx.ensurePresignedUrlEnabled
      let (credentials, body) ← arms.v2CheckPresignedUrl ctx
      .ok (credentials, ⟨body, none⟩)
  else
    match (getUniqueHeaderStr ctx.hs (ascii "authorization")).bind parseAuthorizationV2 with
    | some authorization =>
      some do
        let (credentials, body) ← arms.v2CheckHeaderAuth ctx authorization
        .ok (credentials, ⟨body, none⟩)
    | none => none

/-- `v4_check` -/
def v4Check : Option (S3Result (CredentialsExt × CheckedRequest ε)) :=
  if hasQuery ctx.qs (ascii "X-Amz-Signature") then
    some do
      ctx.ensurePresignedUrlEnabled
      let (credentials, body) ← arms.v4CheckPresignedUrl ctx
      .ok (credentials, ⟨body, none⟩)
  else if (getUniqueHeaderStr ctx.hs (ascii "authorization")).isSome then
    some (ctx.v4CheckHeaderAuth E)
  else none

/-- Whether the request is a form. -/
def isForm : Bool :=
  ctx.reqMethod == ascii "POST" &&
    ctx.mime.any fun mime => mime.type == ascii "multipart" && mime.subtype == ascii "form-data"

/-- `check` -/
def check : S3Result (CheckOutcome ε μ) :=
  if ctx.isForm then do
    let (credentials, body, multipart) ← arms.checkPostSignature ctx
    .ok ⟨⟨body, none⟩, credentials, multipart⟩
  else
    match ctx.v2Check arms with
    | some result => do
      let (credentials, checked) ← result
      .ok ⟨checked, some credentials, none⟩
    | none =>
      match ctx.v4Check E arms with
      | some result => do
        let (credentials, checked) ← result
        .ok ⟨checked, some credentials, none⟩
      | none => .ok ⟨⟨ctx.reqBody.keep, none⟩, none, none⟩

end SignatureContext

section Prepare

variable {ε μ : Type} (E : Environment ε) (arms : OtherArms ε μ) (ccx : CallContext)

/-- `Region::is_valid` -/
def isValidRegion (s : Bytes) : Bool :=
  !s.isEmpty && s.all fun b => (97 ≤ b && b ≤ 122) || Bytes.isDigit b || b == 45

/-- A region that is present and not empty, validated. -/
def regionOf (what : Bytes) (region : Option Bytes) : S3Result (Option Bytes) :=
  match region.filter fun s => !s.isEmpty with
  | none => .ok none
  | some s =>
    if isValidRegion s then .ok (some s)
    else .error (invalidRequest (what ++ ascii ": invalid region: " ++ E.debugStr s))

/-- `apply_credentials`: the credentials, the region and the service. -/
def applyCredentials (credentials : Option CredentialsExt) (vhRegion : Option Bytes) :
    S3Result (Option (Bytes × Bytes) × Option Bytes × Option Bytes) := do
  let credRegion ← regionOf E (ascii "invalid credential region") (credentials.bind (·.region))
  let region ← match credRegion with
    | some region => .ok (some region)
    | none => regionOf E (ascii "invalid host region") vhRegion
  .ok (credentials.map fun c => (c.accessKey, c.secretKey), region,
    credentials.bind (·.service))

/-- The context of the signature check of a request. -/
def signatureContext (req : Request (ArrivingBody ε)) (decodedUriPath : Bytes)
    (contentLength decodedContentLength : Option Nat) : SignatureContext ε where
  auth := ccx.auth
  config := ccx.config
  now := ccx.now
  reqVersion := req.version
  reqMethod := req.method
  authority := req.authority
  reqBody := req.body
  qs := req.qs
  hs := req.headers
  decodedUriPath := decodedUriPath
  rawUriPath := req.path
  contentLength := contentLength
  mime := extractMime E req.headers
  decodedContentLength := decodedContentLength

/-- The last part of `verify_signature`: a body that has changed has another length. -/
def replaceBody (req : Request (ArrivingBody ε)) (contentLength decodedContentLength : Option Nat)
    (outcome : CheckOutcome ε μ) : Option Nat × Request (CheckedBody ε) :=
  let bodyChanged := outcome.transformedBody.isSome || outcome.multipart.isSome
  let headers := if bodyChanged then
      req.headers.setFirst (ascii "content-length") (Bytes.decimal (decodedContentLength.getD 0))
    else req.headers
  let contentLength := if bodyChanged then contentLength.map fun _ => 0 else contentLength
  (contentLength,
    { req with headers := headers, body := outcome.transformedBody.getD outcome.reqBody })

/-- `verify_signature`: the length of the body from then on, the request and its extensions. -/
def verifySignature (req : Request (ArrivingBody ε)) (vhRegion : Option Bytes)
    (contentLength : Option Nat) :
    S3Result (Option Nat × Request (CheckedBody ε) × S3Extensions μ) := do
  let some decodedUriPath := E.urlDecode req.path
    | .error (.bare .invalidURI)
  let decodedContentLength ← extractDecodedContentLength E req.headers
  let ctx := signatureContext E ccx req decodedUriPath contentLength decodedContentLength
  let outcome ← ctx.check E arms
  let (credentials, region, service) ← applyCredentials E outcome.credentials vhRegion
  let (contentLength, req) := replaceBody req contentLength decodedContentLength outcome
  .ok (contentLength, req, ⟨outcome.multipart, credentials, region, service⟩)

/-- `extract_full_body` -/
def extractFullBody (contentLength : Option Nat) (body : CheckedBody ε) (maxBodySize : Nat) :
    S3Result Bytes :=
  match body.bytes with
  | some bytes => .ok bytes
  | none =>
    match storeAllLimited E maxBodySize body with
    | .error e =>
      if e.isBodySizeLimitExceeded then .error (.bare .maxMessageLengthExceeded)
      else .error (.bare .internalError)
    | .ok (bytes, _) =>
      if bytes.isEmpty then .ok bytes
      else
        match contentLength with
        | none => .error (.bare .missingContentLength)
        | some contentLength =>
          if bytes.length ≠ contentLength then .error (.bare .incompleteBody) else .ok bytes

/-- `prepare` of an operation that needs its whole body, as far as the body is concerned: routing
and authorization stand between the two calls and touch neither the body nor its length. -/
def prepareFullBody (req : Request (ArrivingBody ε)) (vhRegion : Option Bytes)
    (requestHasPayload : Bool) : S3Result Bytes := do
  let contentLength ← extractContentLength E req.headers
  let (contentLength, req, _) ← verifySignature E arms ccx req vhRegion
    (signatureContentLength req.headers contentLength requestHasPayload)
  extractFullBody E contentLength req.body ccx.config.xmlMaxBodySize

end Prepare

end S3s.Ops
