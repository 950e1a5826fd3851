import S3s.AwsChunked.Truncation
import S3s.Ops.Signature

/-! # Requests that are accepted by header

What `v4_check_header_auth` has established when it succeeds, and what becomes of
the body. The stream that is installed for a body with signed trailers runs in
signed mode, but it is not told that trailers were announced.
-/
namespace S3s.Ops.SignatureContext
open Http SigV4 AwsChunked AwsChunkedStream

variable {ε : Type} {E : Environment ε} {ctx : SignatureContext ε}

/-- What the scope of an accepted request has passed. -/
structure HeaderScope.Valid (E : Environment ε) (ctx : SignatureContext ε) (scope : HeaderScope) :
    Prop where
  authorization : extractAuthorizationV4 E.formats ctx.hs = .ok (some scope.authorization)
  algorithm : scope.authorization.algorithm = ascii "AWS4-HMAC-SHA256"
  service : validateSigV4Service scope.authorization.credential.awsService ctx.config = .ok ()
  amzDate : extractAmzDate ctx.hs = .ok (some scope.amzDate)
  date : scope.authorization.credential.date = scope.amzDate.fmtDate
  region : validateSigV4Region scope.authorization.credential.awsRegion ctx.config = .ok ()
  clockSkew : validateSigV4ClockSkew E.formats scope.amzDate ctx.now ctx.config = .ok ()
  amzContentSha256 : extractAmzContentSha256 E.formats ctx.hs = .ok scope.amzContentSha256
  secretKey : ∃ auth, ctx.auth = some auth ∧
    auth scope.authorization.credential.accessKeyId = .ok scope.secretKey

theorem headerScope_valid {scope : HeaderScope} (h : ctx.headerScope E = .ok scope) :
    scope.Valid E ctx := by
  unfold headerScope at h
  obtain ⟨_ | authorization, hauthorization, h⟩ := bind_eq_ok.mp h
  · cases h
  simp only at h
  split at h
  · cases h
  next halgorithm =>
  obtain ⟨⟨⟩, hservice, h⟩ := bind_eq_ok.mp h
  obtain ⟨auth, hauth, h⟩ := bind_eq_ok.mp h
  obtain ⟨_ | amzDate, hamzDate, h⟩ := bind_eq_ok.mp h
  · cases h
  simp only at h
  split at h
  · cases h
  next hdate =>
  obtain ⟨⟨⟩, hregion, h⟩ := bind_eq_ok.mp h
  obtain ⟨⟨⟩, hskew, h⟩ := bind_eq_ok.mp h
  obtain ⟨amzContentSha256, hsha, h⟩ := bind_eq_ok.mp h
  split at h
  · cases h
  obtain ⟨secretKey, hkey, h⟩ := bind_eq_ok.mp h
  cases h
  have hsome : ctx.auth = some auth := by
    unfold requireAuth at hauth
    split at hauth
    · next heq => cases hauth; exact heq
    · cases hauth
  exact ⟨hauthorization, not_not.mp halgorithm, hservice, hamzDate, not_not.mp hdate, hregion,
    hskew, hsha, auth, hsome, hkey⟩

/-- A request is accepted when each of the four steps succeeds. -/
theorem v4CheckHeaderAuth_ok {credentials : CredentialsExt} {checked : CheckedRequest ε} :
    ctx.v4CheckHeaderAuth E = .ok (credentials, checked) ↔
      ∃ scope payload body signature, ctx.headerScope E = .ok scope ∧
        ctx.headerPayload E scope = .ok (payload, body) ∧
        ctx.headerSignature E scope payload = .ok signature ∧
        ctx.installBody E scope signature body = .ok checked ∧
        credentials = ⟨scope.authorization.credential.accessKeyId, scope.secretKey,
          some scope.authorization.credential.awsRegion,
          some scope.authorization.credential.awsService⟩ := by
  unfold v4CheckHeaderAuth
  constructor
  · intro h
    obtain ⟨scope, hscope, h⟩ := bind_eq_ok.mp h
    obtain ⟨⟨payload, body⟩, hpayload, h⟩ := bind_eq_ok.mp h
    obtain ⟨signature, hsignature, h⟩ := bind_eq_ok.mp h
    obtain ⟨checked', hchecked, h⟩ := bind_eq_ok.mp h
    cases h
    exact ⟨scope, payload, body, signature, hscope, hpayload, hsignature, hchecked, rfl⟩
  · rintro ⟨scope, payload, body, signature, hscope, hpayload, hsignature, hchecked, rfl⟩
    rw [bind_eq_ok]
    refine ⟨scope, hscope, bind_eq_ok.mpr ⟨(payload, body), hpayload, ?_⟩⟩
    exact bind_eq_ok.mpr ⟨signature, hsignature, bind_eq_ok.mpr ⟨checked, hchecked, rfl⟩⟩

/-- The stream over the body that arrived. -/
def awsChunkedBody (E : Environment ε) (ctx : SignatureContext ε) (args : StreamArgs) :
    CheckedBody ε :=
  .ofStream (.awsChunked (.new E.externals args (fragments ctx.reqBody.script)))

/-- The streaming arm: the body is replaced with a stream over it, seeded with the signature. -/
theorem installBody_streaming {scope : HeaderScope} {signature : Sha256Sum} {body : CheckedBody ε}
    {checked : CheckedRequest ε} (hstream : scope.amzContentSha256.any AmzContentSha256.isStreaming)
    (h : ctx.installBody E scope signature body = .ok checked) :
    ∃ n, ctx.decodedContentLength = some n ∧
      checked = ⟨⟨.empty, none⟩, some (ctx.awsChunkedBody E (ctx.streamArgs scope signature n))⟩ := by
  rw [installBody, if_pos hstream, installAwsChunked] at h
  split at h
  · cases h
  · split at h
    · cases h
    · next n hn =>
      rw [Sha256Sum.fromHex_hex] at h
      cases h
      exact ⟨n, hn, rfl⟩

/-- What is installed for a request whose payload is announced as an aws-chunked stream. -/
theorem v4CheckHeaderAuth_streaming {credentials : CredentialsExt} {checked : CheckedRequest ε}
    {sha : AmzContentSha256} (h : ctx.v4CheckHeaderAuth E = .ok (credentials, checked))
    (hsha : extractAmzContentSha256 E.formats ctx.hs = .ok (some sha))
    (hstream : sha.isStreaming = true) :
    ∃ scope signature n, scope.Valid E ctx ∧ scope.amzContentSha256 = some sha ∧
      ctx.decodedContentLength = some n ∧ credentials.region =
        some scope.authorization.credential.awsRegion ∧
      checked = ⟨⟨.empty, none⟩, some (ctx.awsChunkedBody E (ctx.streamArgs scope signature n))⟩ := by
  obtain ⟨scope, payload, body, signature, hscope, -, -, hinstall, rfl⟩ := v4CheckHeaderAuth_ok.mp h
  have hvalid := headerScope_valid hscope
  have hscopesha : scope.amzContentSha256 = some sha := by
    have hboth := hvalid.amzContentSha256.symm.trans hsha
    exact Except.ok.inj hboth
  have hany : scope.amzContentSha256.any AmzContentSha256.isStreaming = true := by
    rw [hscopesha]
    exact hstream
  obtain ⟨n, hn, hchecked⟩ := installBody_streaming hany hinstall
  exact ⟨scope, signature, n, hvalid, hscopesha, hn, rfl, hchecked⟩

/-- For every accepted request with signed trailers announced: the stream that is installed runs in
signed mode over the body that arrived, and its clean end proves a trailer block with a checked
signature unless the body is cut before the terminal chunk or nothing but a line end follows it. -/
theorem announced_trailers_checked_iff (E : Environment ε) (ctx : SignatureContext ε)
    (credentials : CredentialsExt) (checked : CheckedRequest ε)
    (haccept : ctx.v4CheckHeaderAuth E = .ok (credentials, checked))
    (hsha : extractAmzContentSha256 E.formats ctx.hs =
      .ok (some .streamingAws4HmacSha256PayloadTrailer)) :
    ∃ args : StreamArgs, args.unsigned = false ∧
      ctx.decodedContentLength = some args.decodedContentLength ∧
      checked.transformedBody = some (ctx.awsChunkedBody E args) ∧
      ((EndsClean E.externals args (fragments ctx.reqBody.script) →
          HasSignedTrailers E.externals args (fragments ctx.reqBody.script)) ↔
        ¬ Truncated E.externals args (fragments ctx.reqBody.script) ∧
          ¬ Stripped E.externals args (fragments ctx.reqBody.script)) := by
  obtain ⟨scope, signature, n, -, hscope, hn, -, rfl⟩ := v4CheckHeaderAuth_streaming haccept hsha rfl
  have hsigned : (ctx.streamArgs scope signature n).unsigned = false := by
    rw [streamArgs, hscope]
    rfl
  exact ⟨ctx.streamArgs scope signature n, hsigned, hn, rfl,
    endsClean_trailers_iff E.externals _ hsigned _⟩

section Sample

/-- The crates on plain input: dates of every month up to the 28th, no base64, no percent-encoding,
no media type, and a body of three bytes. -/
def sampleEnvironment : Environment Unit where
  externals := reference constantCrypto
  formats :=
    { validDate := fun _ month day => 1 ≤ month && month ≤ 12 && 1 ≤ day && day ≤ 28
      toTime := fun d => if d = ⟨2013, 5, 24, 0, 0, 0⟩ then some (1369353600 * 10 ^ 9) else none
      base64Digest := fun _ => none }
  atoi s := if s.isEmpty || !s.all Bytes.isDigit then none
    else some (s.foldl (fun n c => n * 10 + (c.toNat - 48)) 0)
  urlDecode := some
  parseMime _ := none
  debugHeaderValue := id
  debugStr := id
  collectLimited _ _ := .ok (ascii "abc")

def sampleConfig : S3Config where
  xmlMaxBodySize := 20 * 1024 * 1024
  awsChunkedStreamMaxChunkSize := 65536
  presignedUrlMaxSkewTimeSecs := 900
  expectedRegion := none
  sigV4AllowedServices := [ascii "s3", ascii "sts"]
  allowPresignedUrl := true
  unsignedAmzHeaderAllowlist := []

/-- The headers of an upload of three bytes with signed trailers, encoded in 295 bytes. -/
def sampleHeaders : Http.HeaderMap where
  entries :=
    [(ascii "host", ascii "localhost"),
      (ascii "x-amz-date", ascii "20130524T000000Z"),
      (ascii "x-amz-content-sha256", ascii "STREAMING-AWS4-HMAC-SHA256-PAYLOAD-TRAILER"),
      (ascii "x-amz-trailer", ascii "x-amz-checksum-crc32c"),
      (ascii "x-amz-decoded-content-length", ascii "3"),
      (ascii "content-length", ascii "295"),
      (ascii "authorization",
        ascii "AWS4-HMAC-SHA256 Credential=AKID/20130524/us-east-1/s3/aws4_request, " ++
          ascii "SignedHeaders=host;x-amz-date;x-amz-decoded-content-length;x-amz-trailer, " ++
          ascii "Signature=" ++ List.replicate 64 48)]
  lowercase := by decide +kernel

/-- The request with these headers over some fragments. -/
def sampleContext (body : List Bytes) : SignatureContext Unit where
  auth := some fun _ => .ok (ascii "secret")
  config := sampleConfig
  now := 1369353600 * 10 ^ 9
  reqVersion := .http11
  reqMethod := ascii "PUT"
  authority := none
  reqBody := ⟨.dynStream ⟨body.map fun b => .ready (some (.ok b)), ⟨0, none⟩⟩, none⟩
  qs := none
  hs := sampleHeaders
  decodedUriPath := ascii "/bucket"
  rawUriPath := ascii "/bucket"
  contentLength := some 295
  mime := none
  decodedContentLength := some 3

def sampleScope : HeaderScope where
  authorization :=
    { algorithm := ascii "AWS4-HMAC-SHA256"
      credential := ⟨ascii "AKID", ascii "20130524", ascii "us-east-1", ascii "s3"⟩
      signedHeaders := [ascii "host", ascii "x-amz-date", ascii "x-amz-decoded-content-length",
        ascii "x-amz-trailer"]
      signature := List.replicate 64 48 }
  amzDate := ⟨2013, 5, 24, 0, 0, 0⟩
  amzContentSha256 := some .streamingAws4HmacSha256PayloadTrailer
  secretKey := ascii "secret"

theorem sampleScope_accepted (body : List Bytes) :
    (sampleContext body).headerScope sampleEnvironment = .ok sampleScope := by
  have hbody : (sampleContext body).headerScope sampleEnvironment =
      (sampleContext []).headerScope sampleEnvironment := rfl
  rw [hbody]
  decide +kernel

theorem sampleSignature_accepted (body : List Bytes) :
    (sampleContext body).headerSignature sampleEnvironment sampleScope .multipleChunksWithTrailer =
      .ok (StreamArgs.sample 3 false).seedSignature := by
  have hbody : (sampleContext body).headerSignature sampleEnvironment sampleScope
      .multipleChunksWithTrailer =
      (sampleContext []).headerSignature sampleEnvironment sampleScope .multipleChunksWithTrailer := rfl
  rw [hbody]
  decide +kernel

theorem fragments_sampleContext (body : List Bytes) :
    fragments (sampleContext body).reqBody.script = Fragments.Body.ofFragments body := by
  have hscript : (sampleContext body).reqBody.script =
      limited none (body.map fun b => .ready (some (.ok b)) : Upload.Script Unit) := rfl
  rw [hscript]
  induction body with
  | nil => rfl
  | cons b body ih =>
    rw [List.map_cons, limited, fragments, ih rfl]
    rfl

/-- Whatever its body, the sample request is accepted. -/
theorem sampleContext_accepted (body : List Bytes) :
    ∃ credentials checked,
      (sampleContext body).v4CheckHeaderAuth sampleEnvironment = .ok (credentials, checked) ∧
      checked.transformedBody =
        some ((sampleContext body).awsChunkedBody sampleEnvironment (StreamArgs.sample 3 false)) := by
  have htrailer : getUniqueHeaderStr sampleHeaders (ascii "x-amz-trailer") ≠ none := by decide +kernel
  have hstream : sampleScope.amzContentSha256.any AmzContentSha256.isStreaming = true := rfl
  have hinstall : (sampleContext body).installBody sampleEnvironment sampleScope
      (StreamArgs.sample 3 false).seedSignature (sampleContext body).reqBody.keep =
      .ok ⟨⟨.empty, none⟩, some ((sampleContext body).awsChunkedBody sampleEnvironment
        (StreamArgs.sample 3 false))⟩ := by
    rw [installBody, if_pos hstream, installAwsChunked, if_neg fun h => htrailer h.2]
    simp only [sampleContext, Sha256Sum.fromHex_hex]
    rfl
  exact ⟨_, _, v4CheckHeaderAuth_ok.mpr ⟨sampleScope, _, _, _, sampleScope_accepted body, rfl,
    sampleSignature_accepted body, hinstall, rfl⟩, rfl⟩

theorem sampleSha_extracted (body : List Bytes) :
    extractAmzContentSha256 sampleEnvironment.formats (sampleContext body).hs =
      .ok (some .streamingAws4HmacSha256PayloadTrailer) :=
  (headerScope_valid (sampleScope_accepted body)).amzContentSha256

/-- A chunk of three bytes and the terminal chunk, without the trailers that are announced. -/
def strippedFragments : List Bytes :=
  [signedMeta (ascii "3") (List.replicate 64 48) ++ ascii "abc" ++ crlf,
    signedMeta (ascii "0") (List.replicate 64 48)]

theorem strippedFragments_stripped :
    Stripped (reference constantCrypto) (StreamArgs.sample 3 false)
      (Fragments.Body.ofFragments strippedFragments : Fragments.Body UInt8 ε) := by
  have hdata : Accepted (reference constantCrypto) (StreamArgs.sample 3 false).maxChunkSize
      ((StreamArgs.sample 3 false).ctx (reference constantCrypto)) strippedFragments.flatten
      ⟨some (List.replicate 64 48), ascii "abc"⟩ (signedMeta (ascii "0") (List.replicate 64 48)) := by
    refine ⟨by decide, ⟨83, by decide, by decide⟩, by decide, ?_⟩
    rfl
  have hlast : Accepted (reference constantCrypto) (StreamArgs.sample 3 false).maxChunkSize
      (((StreamArgs.sample 3 false).ctx (reference constantCrypto)).advance constantCrypto
        (ascii "abc")) (signedMeta (ascii "0") (List.replicate 64 48))
      ⟨some (List.replicate 64 48), []⟩ [] := by
    refine ⟨by decide, ⟨83, by decide, by decide⟩, by decide, ?_⟩
    rfl
  have hverified := Verified.cons hdata (by decide) (.nil _ _)
  rw [← Fragments.Body.content_ofFragments (ε := ε) strippedFragments] at hverified
  exact ⟨_, _, _, _, _, hverified, hlast, rfl, .inl rfl, Fragments.Body.fault_ofFragments _, by decide⟩

/-- The request is accepted, its stream ends cleanly, and no trailers were there. -/
theorem strippedRequest_ends_clean :
    ∃ credentials checked args,
      (sampleContext strippedFragments).v4CheckHeaderAuth sampleEnvironment =
        .ok (credentials, checked) ∧
      extractAmzContentSha256 sampleEnvironment.formats (sampleContext strippedFragments).hs =
        .ok (some .streamingAws4HmacSha256PayloadTrailer) ∧
      checked.transformedBody =
        some ((sampleContext strippedFragments).awsChunkedBody sampleEnvironment args) ∧
      ¬ (EndsClean sampleEnvironment.externals args
          (fragments (sampleContext strippedFragments).reqBody.script) →
        HasSignedTrailers sampleEnvironment.externals args
          (fragments (sampleContext strippedFragments).reqBody.script)) := by
  obtain ⟨credentials, checked, haccept, hbody⟩ := sampleContext_accepted strippedFragments
  refine ⟨credentials, checked, _, haccept, sampleSha_extracted _, hbody, ?_⟩
  rw [fragments_sampleContext]
  intro h
  exact strippedFragments_stripped.not_hasSignedTrailers (h strippedFragments_stripped.endsClean)

theorem announced_trailers_checked_iff_sample :
    ∃ credentials checked,
      (sampleContext strippedFragments).v4CheckHeaderAuth sampleEnvironment =
        .ok (credentials, checked) ∧
      ∃ args : StreamArgs, args.unsigned = false ∧
        (sampleContext strippedFragments).decodedContentLength = some args.decodedContentLength ∧
        checked.transformedBody =
          some ((sampleContext strippedFragments).awsChunkedBody sampleEnvironment args) ∧
        ((EndsClean sampleEnvironment.externals args
            (fragments (sampleContext strippedFragments).reqBody.script) →
          HasSignedTrailers sampleEnvironment.externals args
            (fragments (sampleContext strippedFragments).reqBody.script)) ↔
          ¬ Truncated sampleEnvironment.externals args
              (fragments (sampleContext strippedFragments).reqBody.script) ∧
            ¬ Stripped sampleEnvironment.externals args
              (fragments (sampleContext strippedFragments).reqBody.script)) := by
  obtain ⟨credentials, checked, haccept, -⟩ := sampleContext_accepted strippedFragments
  exact ⟨credentials, checked, haccept, announced_trailers_checked_iff sampleEnvironment
    (sampleContext strippedFragments) credentials checked haccept (sampleSha_extracted _)⟩

end Sample

end S3s.Ops.SignatureContext
