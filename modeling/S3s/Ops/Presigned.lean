import S3s.Ops.HeaderAuth
import S3s.Ops.Prepare
import S3s.Ops.RawPath

/-! # Presigned URLs

Authentication by the parameters of the query, in the order of the source, and what
the two checks of version 4 have in common: the names a request declares as signed,
and the input its canonical request is rendered from.
-/
namespace S3s.SigV4

/-- `is_skipped_query_string` -/
def isSkippedQueryString (name : Bytes) : Bool := name == ascii "X-Amz-Signature"

/-- `create_presigned_canonical_request_with_uri_mode` -/
def createPresignedCanonicalRequestWithUriMode (method uriPath : Bytes)
    (query signedHeaders : List (Bytes × Bytes)) (rawUriPath : Bool) : Bytes :=
  method ++ ascii "\n" ++
    (if rawUriPath then uriPath else uriEncode uriPath false) ++ ascii "\n" ++
    canonicalQueryString (query.filter fun q => !isSkippedQueryString q.1) ++ ascii "\n" ++
    pushCanonicalHeaders signedHeaders ++ ascii "\n" ++
    pushSignedHeaders signedHeaders ++ ascii "\n" ++
    ascii "UNSIGNED-PAYLOAD"

/-- `create_presigned_canonical_request` -/
def createPresignedCanonicalRequest (method uriPath : Bytes)
    (query signedHeaders : List (Bytes × Bytes)) : Bytes :=
  createPresignedCanonicalRequestWithUriMode method uriPath query signedHeaders false

/-- `create_presigned_canonical_request_with_raw_uri_path` -/
def createPresignedCanonicalRequestWithRawUriPath (method rawUriPath : Bytes)
    (query signedHeaders : List (Bytes × Bytes)) : Bytes :=
  createPresignedCanonicalRequestWithUriMode method rawUriPath query signedHeaders true

/-- A presigned request is a request with an unsigned payload and without the signature in its
query. -/
theorem createPresignedCanonicalRequestWithUriMode_eq (method uriPath : Bytes)
    (query signedHeaders : List (Bytes × Bytes)) (rawUriPath : Bool) :
    createPresignedCanonicalRequestWithUriMode method uriPath query signedHeaders rawUriPath =
      createCanonicalRequestWithUriMode method uriPath
        (query.filter fun q => !isSkippedQueryString q.1) signedHeaders .unsigned rawUriPath := rfl

/-- `PresignedUrlV4`. The expiry is in seconds. -/
structure PresignedUrlV4 where
  algorithm : Bytes
  credential : CredentialV4
  amzDate : AmzDate
  expires : Nat
  signedHeaders : List Bytes
  signature : Bytes
deriving DecidableEq

/-- `get_unique` -/
def getUniquePair (pairs : List (Bytes × Bytes)) (name : Bytes) : Option Bytes :=
  match pairs.filter fun q => q.1 == name with
  | [q] => some q.2
  | _ => none

/-- `CredentialV4::parse` -/
def CredentialV4.parse (F : Formats) (input : Bytes) : Option CredentialV4 :=
  match parseCredential F input with
  | some (ans, []) => some ans
  | _ => none

/-- `str::parse` of a `u32`: decimal digits, with a plus sign or without. -/
def parseU32 (s : Bytes) : Option Nat :=
  let digits := if s.head? = some 43 then s.tail else s
  if digits.isEmpty || digits.any fun b => !Bytes.isDigit b then none
  else if Ops.decimalValue digits < 2 ^ 32 then some (Ops.decimalValue digits)
  else none

/-- `parse_expires` -/
def parseExpires (s : Bytes) (maxExpiresSecs : Nat) : Option Nat :=
  match parseU32 s with
  | some x => if x > maxExpiresSecs then none else some x
  | none => none

/-- `PresignedUrlV4::parse` -/
def PresignedUrlV4.parse (F : Formats) (qs : List (Bytes × Bytes)) (maxExpiresSecs : Nat) :
    Option PresignedUrlV4 := do
  let algorithm ← getUniquePair qs (ascii "X-Amz-Algorithm")
  let credential ← getUniquePair qs (ascii "X-Amz-Credential")
  let date ← getUniquePair qs (ascii "X-Amz-Date")
  let expires ← getUniquePair qs (ascii "X-Amz-Expires")
  let signedHeaders ← getUniquePair qs (ascii "X-Amz-SignedHeaders")
  let signature ← getUniquePair qs (ascii "X-Amz-Signature")
  let credential ← CredentialV4.parse F credential
  let amzDate ← AmzDate.parse date
  let expires ← parseExpires expires maxExpiresSecs
  if signedHeaders.any fun b => 0x80 ≤ b then none
  else if !isSha256Checksum signature then none
  else some ⟨algorithm, credential, amzDate, expires, signedHeaders.splitOn 59, signature⟩

end S3s.SigV4

namespace S3s.Ops
open Http SigV4 Upload

/-- The settings the checks other than the `Authorization` header of version 4 read: three fields of
`S3Config`, and the bucket that was found in the host. -/
structure CheckSettings where
  presignedUrlMaxExpiresSecs : Nat
  enableSigV2 : Bool
  allowPostSignature : Bool
  vhBucket : Option Bytes

namespace SignatureContext

variable {ε : Type} (E : Environment ε) (S : CheckSettings) (ctx : SignatureContext ε)

/-- `query_pairs` -/
def queryPairs : List (Bytes × Bytes) := ctx.qs.getD []

/-- The time window of a presigned URL. -/
def validateExpiration (presignedUrl : PresignedUrlV4) : S3Result Unit :=
  match E.formats.toTime presignedUrl.amzDate with
  | none => .error (invalidRequest (ascii "invalid amz date"))
  | some date =>
    let duration := ctx.now - date
    if duration < 0 ∧ duration.natAbs > ctx.config.presignedUrlMaxSkewTimeSecs * 10 ^ 9 then
      .error (.saying .requestTimeTooSkewed
        (ascii "request date is later than server time too much"))
    else if duration > presignedUrl.expires * 10 ^ 9 then
      .error (.saying .accessDenied (ascii "Request has expired"))
    else .ok ()

/-- The scope of a presigned request. -/
structure PresignedScope where
  presignedUrl : PresignedUrlV4
  amzContentSha256 : Option AmzContentSha256
  secretKey : Bytes
deriving DecidableEq

/-- `v4_check_presigned_url` up to the signature, which the parser has found to be a digest. -/
def presignedScope : S3Result PresignedScope := do
  let some presignedUrl :=
      PresignedUrlV4.parse E.formats ctx.queryPairs S.presignedUrlMaxExpiresSecs
    | .error (.saying (.other (ascii "AuthorizationQueryParametersError"))
        (ascii "The authorization query parameters that you provided are not valid."))
  if presignedUrl.algorithm ≠ ascii "AWS4-HMAC-SHA256" then
    .error (.saying .notImplemented
      (ascii "X-Amz-Algorithm other than AWS4-HMAC-SHA256 is not implemented"))
  else if presignedUrl.credential.date ≠ presignedUrl.amzDate.fmtDate then
    .error (.saying .signatureDoesNotMatch
      (ascii "credential scope date does not match x-amz-date"))
  else
    let amzContentSha256 ← extractAmzContentSha256 E.formats ctx.hs
    if amzContentSha256.any AmzContentSha256.isStreaming then
      .error (.saying .notImplemented
        (ascii "streaming payload for presigned URLs is not implemented"))
    else
      validateSigV4Region presignedUrl.credential.awsRegion ctx.config
      ctx.validateExpiration E presignedUrl
      let auth ← requireAuth ctx.auth
      let secretKey ← auth presignedUrl.credential.accessKeyId
      validateSigV4Service presignedUrl.credential.awsService ctx.config
      .ok ⟨presignedUrl, amzContentSha256, secretKey⟩

/-- The context of the comparison of a presigned signature. -/
def PresignedScope.verifier (scope : PresignedScope) : SignatureVerificationContext where
  expectedSignature := scope.presignedUrl.signature
  rawUriPath := ctx.rawUriPath
  secretKey := scope.secretKey
  amzDate := scope.presignedUrl.amzDate
  region := scope.presignedUrl.credential.awsRegion
  service := scope.presignedUrl.credential.awsService

/-- The signed headers of a presigned request, and the signature over them, checked. -/
def presignedSignature (scope : PresignedScope) : S3Result Sha256Sum := do
  let names := scope.presignedUrl.signedHeaders
  let headers ← collectSignedHeaders ctx.hs ctx.signedHostFallback names
  rejectUnsignedAmzHeaders ctx.config ctx.hs names
  (scope.verifier ctx).verifyWithRawPathFallback E.externals.toCrypto
    (createPresignedCanonicalRequest ctx.reqMethod ctx.decodedUriPath ctx.queryPairs headers)
    (createPresignedCanonicalRequestWithRawUriPath ctx.reqMethod ctx.rawUriPath ctx.queryPairs
      headers)

/-- The last part of `v4_check_presigned_url`: a body with a declared hash is checked against it. -/
def presignedBody (scope : PresignedScope) : S3Result (CheckedBody ε) :=
  match scope.amzContentSha256 with
  | some (.singleChunk expected) =>
    match ctx.singleChunkLength with
    | .ok length => .ok (.ofStream (.upload (.new ctx.reqBody.script length expected)))
    | .error e => .error e
  | _ => .ok ctx.reqBody.keep

/-- `v4_check_presigned_url` -/
def v4CheckPresignedUrl : S3Result (CredentialsExt × CheckedBody ε) := do
  let scope ← ctx.presignedScope E S
  let _ ← ctx.presignedSignature E scope
  let body ← ctx.presignedBody scope
  .ok (
    { accessKey := scope.presignedUrl.credential.accessKeyId
      secretKey := scope.secretKey
      region := some scope.presignedUrl.credential.awsRegion
      service := some scope.presignedUrl.credential.awsService }, body)

theorem v4CheckPresignedUrl_ok {credentials : CredentialsExt} {body : CheckedBody ε}
    (h : ctx.v4CheckPresignedUrl E S = .ok (credentials, body)) :
    ∃ scope signature, ctx.presignedScope E S = .ok scope ∧
      ctx.presignedSignature E scope = .ok signature ∧ ctx.presignedBody scope = .ok body := by
  unfold v4CheckPresignedUrl at h
  obtain ⟨scope, hscope, h⟩ := bind_eq_ok.mp h
  obtain ⟨signature, hsignature, h⟩ := bind_eq_ok.mp h
  obtain ⟨body', hbody, h⟩ := bind_eq_ok.mp h
  cases h
  exact ⟨scope, signature, hscope, hsignature, hbody⟩

/-- What a signature of version 4 is verified against: the names that are declared as signed, the
input of the canonical request, and the context of the comparison. -/
structure Verification where
  names : List Bytes
  input : CanonicalInput
  verifier : SignatureVerificationContext
deriving DecidableEq

/-- The two checks of version 4. -/
inductive V4Arm where
  | headerAuth
  | presignedUrl
deriving DecidableEq

/-- The verification of `v4_check_header_auth`. -/
def headerVerification : S3Result Verification := do
  let scope ← ctx.headerScope E
  let (payload, _) ← ctx.headerPayload E scope
  let names := scope.authorization.signedHeaders
  let headers ← collectSignedHeaders ctx.hs ctx.signedHostFallback names
  .ok {
    names := names
    input := ⟨ctx.reqMethod, ctx.rawUriPath, ctx.decodedUriPath, ctx.queryPairs, headers, payload⟩
    verifier :=
      { expectedSignature := scope.authorization.signature
        rawUriPath := ctx.rawUriPath
        secretKey := scope.secretKey
        amzDate := scope.amzDate
        region := scope.authorization.credential.awsRegion
        service := scope.authorization.credential.awsService } }

/-- The verification of `v4_check_presigned_url`. -/
def presignedVerification : S3Result Verification := do
  let scope ← ctx.presignedScope E S
  let names := scope.presignedUrl.signedHeaders
  let headers ← collectSignedHeaders ctx.hs ctx.signedHostFallback names
  .ok {
    names := names
    input := ⟨ctx.reqMethod, ctx.rawUriPath, ctx.decodedUriPath,
      ctx.queryPairs.filter fun q => !isSkippedQueryString q.1, headers, .unsigned⟩
    verifier := scope.verifier ctx }

/-- The verification of either check. -/
def verification : V4Arm → S3Result Verification
  | .headerAuth => ctx.headerVerification E
  | .presignedUrl => ctx.presignedVerification E S

/-- The request is accepted by the check. -/
def Accepts : V4Arm → Prop
  | .headerAuth => ∃ credentials checked, ctx.v4CheckHeaderAuth E = .ok (credentials, checked)
  | .presignedUrl => ∃ credentials body, ctx.v4CheckPresignedUrl E S = .ok (credentials, body)

/-- What holds of the verification of an accepted request. -/
structure Verified (w : Verification) (signature : Sha256Sum) : Prop where
  collected : collectSignedHeaders ctx.hs ctx.signedHostFallback w.names = .ok w.input.headers
  signedAmz : rejectUnsignedAmzHeaders ctx.config ctx.hs w.names = .ok ()
  method : w.input.method = ctx.reqMethod
  rawPath : w.input.rawPath = ctx.rawUriPath
  decodedPath : w.input.decodedPath = ctx.decodedUriPath
  query : w.input.query.filter (fun q => !isSkippedQueryString q.1) =
    ctx.queryPairs.filter fun q => !isSkippedQueryString q.1
  payload : w.input.payload.Canonical
  rawUriPath : w.verifier.rawUriPath = ctx.rawUriPath
  accepted : w.verifier.verifyWithRawPathFallback E.externals.toCrypto (w.input.render false)
    (w.input.render true) = .ok signature

theorem canonical_hex (d : Sha256Sum) : (Payload.singleChunk d.hex).Canonical := by
  refine ⟨d.hex_length, fun c hc => ?_⟩
  have hlower := List.all_eq_true.mp (Bytes.encodeHex_lowercase d.bytes) c hc
  refine forall_byte (p := fun c => Bytes.isLowercaseHex c = true →
    (Bytes.hexVal c).isSome = true) ?_ c hlower
  decide +kernel

variable {E S ctx}

theorem headerPayload_canonical {scope : HeaderScope} {payload : Payload} {body : CheckedBody ε}
    (h : ctx.headerPayload E scope = .ok (payload, body)) : payload.Canonical := by
  unfold headerPayload at h
  split at h
  · cases h; trivial
  · cases h; trivial
  · cases h; trivial
  · cases h; trivial
  · cases h; exact canonical_hex _
  · cases h
  · cases h
  · split at h
    · split at h
      · cases h; exact canonical_hex _
      · cases h
    · cases h

theorem headerAuth_verified {credentials : CredentialsExt} {checked : CheckedRequest ε}
    (h : ctx.v4CheckHeaderAuth E = .ok (credentials, checked)) :
    ∃ w signature, ctx.headerVerification E = .ok w ∧ ctx.Verified E w signature := by
  obtain ⟨scope, payload, body, signature, hscope, hpayload, hsignature, -, -⟩ :=
    v4CheckHeaderAuth_ok.mp h
  unfold headerSignature at hsignature
  obtain ⟨headers, hheaders, hsignature⟩ := bind_eq_ok.mp hsignature
  obtain ⟨⟨⟩, hreject, hverify⟩ := bind_eq_ok.mp hsignature
  refine ⟨_, signature, bind_eq_ok.mpr ⟨scope, hscope, bind_eq_ok.mpr ⟨(payload, body), hpayload,
    bind_eq_ok.mpr ⟨headers, hheaders, rfl⟩⟩⟩, ?_⟩
  exact ⟨hheaders, hreject, rfl, rfl, rfl, rfl, headerPayload_canonical hpayload, rfl, hverify⟩

theorem presignedUrl_verified {credentials : CredentialsExt} {body : CheckedBody ε}
    (h : ctx.v4CheckPresignedUrl E S = .ok (credentials, body)) :
    ∃ w signature, ctx.presignedVerification E S = .ok w ∧ ctx.Verified E w signature := by
  obtain ⟨scope, signature, hscope, hsignature, -⟩ := v4CheckPresignedUrl_ok E S ctx h
  unfold presignedSignature at hsignature
  obtain ⟨headers, hheaders, hsignature⟩ := bind_eq_ok.mp hsignature
  obtain ⟨⟨⟩, hreject, hverify⟩ := bind_eq_ok.mp hsignature
  refine ⟨_, signature, bind_eq_ok.mpr ⟨scope, hscope, bind_eq_ok.mpr ⟨headers, hheaders, rfl⟩⟩, ?_⟩
  exact ⟨hheaders, hreject, rfl, rfl, rfl, by simp [List.filter_filter], trivial, rfl, hverify⟩

/-- An accepted request has been verified, whichever check accepted it. -/
theorem accepts_verified {arm : V4Arm} (h : ctx.Accepts E S arm) :
    ∃ w signature, ctx.verification E S arm = .ok w ∧ ctx.Verified E w signature := by
  cases arm with
  | headerAuth =>
    obtain ⟨credentials, checked, h⟩ := h
    exact headerAuth_verified h
  | presignedUrl =>
    obtain ⟨credentials, body, h⟩ := h
    exact presignedUrl_verified h

end SignatureContext

end S3s.Ops
