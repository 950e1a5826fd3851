import S3s.AwsChunked.RoundTrip
import S3s.Ops.HeaderAuth
import S3s.Ops.Prepare

/-! # Operations that need their whole body

The signature check decodes an aws-chunked body, writes the decoded length into
the header and sets its own copy of the length to zero. The collected body is
compared with the copy.
-/
namespace S3s.Ops
open Http SigV4 AwsChunked AwsChunkedStream Polling SignatureContext

variable {ε μ : Type}

/-- The data of a frame. -/
def frameData : Frame → Bytes
  | .data bytes => bytes
  | .trailers _ => []

/-- Read to its end, the body hands out these bytes and no error. -/
def Reads (C : Crypto) (b : CheckedBody ε) (data : Bytes) : Prop :=
  ∃ frames, ReadsAll (Body.pollFrame (dynByteStream C) noHttpBody) b frames ∧
    frames.flatMap frameData = data

/-- What is documented of `collect` and `Limited`, for one body: when the body can be read to its
end and has at most as many bytes as allowed, these are returned. -/
def CollectsWithin (E : Environment ε) (limit : Nat) (b : CheckedBody ε) : Prop :=
  ∀ data, Reads E.externals.toCrypto b data → data.length ≤ limit → E.collectLimited limit b = .ok data

theorem pollFrame_awsChunked (C : Crypto) (ready : Bool) (s : AwsChunkedStream (BodyError ε)) :
    Body.pollFrame (dynByteStream C) noHttpBody ready (CheckedBody.ofStream (.awsChunked s)) =
      ((s.poll ready).1.bimap Frame.data fun e => .inner (.awsChunked e),
        CheckedBody.ofStream (.awsChunked (s.poll ready).2)) := by
  rcases hp : s.poll ready with ⟨_ | (_ | (e | bytes)), s'⟩
  · simp only [Body.pollFrame, CheckedBody.ofStream, Body.pollKind, dynByteStream, hp]
    rfl
  · simp only [Body.pollFrame, CheckedBody.ofStream, Body.pollKind, dynByteStream, hp]
    rfl
  · simp only [Body.pollFrame, CheckedBody.ofStream, Body.pollKind, dynByteStream, hp]
    rfl
  · simp only [Body.pollFrame, CheckedBody.ofStream, Body.pollKind, dynByteStream, hp]
    rfl

/-- A consumer that sees a clean end has read everything. -/
theorem readsAll_of_consume {s : AwsChunkedStream ε} {schedule : List Bool} {data : Bytes}
    {trailers : Option AwsChunked.HeaderMap} (h : consume s schedule = some (.clean data trailers)) :
    ∃ items, ReadsAll poll s items ∧ items.flatten = data := by
  induction schedule generalizing s data with
  | nil => cases h
  | cons ready schedule ih =>
    rw [consume] at h
    rcases hp : poll ready s with ⟨_ | (_ | (e | bytes)), s'⟩
    · rw [hp] at h
      obtain ⟨items, hreads, hdata⟩ := ih h
      exact ⟨items, .pending ready (by rw [hp]) (by rw [hp]; exact hreads), hdata⟩
    · rw [hp] at h
      cases h
      exact ⟨[], .done ready (by rw [hp]), rfl⟩
    · rw [hp] at h
      cases h
    · rw [hp] at h
      simp only [Option.map_eq_some_iff] at h
      obtain ⟨v, hv, hclean⟩ := h
      cases v with
      | failed kind => cases hclean
      | clean rest t =>
        cases hclean
        obtain ⟨items, hreads, hdata⟩ := ih hv
        exact ⟨bytes :: items, .item ready (by rw [hp]) (by rw [hp]; exact hreads),
          by rw [List.flatten_cons, hdata]⟩

theorem consume_of_readsAll {s : AwsChunkedStream ε} {items : List Bytes}
    (h : ReadsAll poll s items) :
    ∃ schedule trailers, consume s schedule = some (.clean items.flatten trailers) := by
  induction h with
  | @done s i result =>
    refine ⟨[i], (poll i s).2.trailers, ?_⟩
    rw [consume]
    rcases hp : poll i s with ⟨r, s'⟩
    rw [hp] at result
    simp only at result
    subst result
    rfl
  | @pending s items i result rest ih =>
    obtain ⟨schedule, trailers, hrest⟩ := ih
    refine ⟨i :: schedule, trailers, ?_⟩
    rw [consume]
    rcases hp : poll i s with ⟨r, s'⟩
    rw [hp] at result hrest
    simp only at result
    subst result
    exact hrest
  | @item s a items i result rest ih =>
    obtain ⟨schedule, trailers, hrest⟩ := ih
    refine ⟨i :: schedule, trailers, ?_⟩
    rw [consume]
    rcases hp : poll i s with ⟨r, s'⟩
    rw [hp] at result hrest
    simp only at result
    subst result
    simp only at hrest ⊢
    rw [hrest]
    rfl

/-- Reading the body that holds an aws-chunked stream is consuming the stream. -/
theorem reads_awsChunked_iff (C : Crypto) (s : AwsChunkedStream (BodyError ε)) (data : Bytes) :
    Reads C (.ofStream (.awsChunked s)) data ↔
      ∃ schedule trailers, consume s schedule = some (.clean data trailers) := by
  have hframes : ∀ items : List Bytes, (items.map Frame.data).flatMap frameData = items.flatten := by
    intro items
    rw [List.flatMap_map]
    exact List.flatMap_id
  constructor
  · rintro ⟨frames, hreads, rfl⟩
    obtain ⟨items, rfl, hitems⟩ :=
      ReadsAll.unwrap (S := fun s => CheckedBody.ofStream (.awsChunked s)) (pollFrame_awsChunked C) hreads
    rw [hframes]
    exact consume_of_readsAll hitems
  · rintro ⟨schedule, trailers, h⟩
    obtain ⟨items, hreads, rfl⟩ := readsAll_of_consume h
    exact ⟨items.map .data,
      hreads.wrap (S := fun s => CheckedBody.ofStream (.awsChunked s)) (pollFrame_awsChunked C),
      hframes items⟩

/-- A request with an aws-chunked body, beside what the checks make of its headers and what its
body was written from. -/
structure AwsChunkedRequest (E : Environment ε) (ccx : CallContext) where
  req : Request (ArrivingBody ε)
  decodedUriPath : Bytes
  scope : HeaderScope
  announced : Payload
  signature : Sha256Sum
  layout : Layout
  chunks : List Bytes
  trailers : Option (List Trailer)
  contentLength : Nat

namespace AwsChunkedRequest

variable {E : Environment ε} {ccx : CallContext}

/-- The payload. -/
def payload (r : AwsChunkedRequest E ccx) : Bytes := r.chunks.flatten

/-- The context in which the signature is checked. -/
def context (r : AwsChunkedRequest E ccx) : SignatureContext ε :=
  signatureContext E ccx r.req r.decodedUriPath (some r.contentLength) (some r.payload.length)

/-- The arguments of the stream. -/
def args (r : AwsChunkedRequest E ccx) : StreamArgs :=
  r.context.streamArgs r.scope r.signature r.payload.length

end AwsChunkedRequest

/-- The request is signed by header, and its body carries the payload, framed and signed for the
stream that the signature check installs. -/
structure AwsChunkedRequest.Correct {E : Environment ε} {ccx : CallContext}
    (r : AwsChunkedRequest E ccx) : Prop where
  path_decoded : E.urlDecode r.req.path = some r.decodedUriPath
  length_declared : extractContentLength E r.req.headers = .ok (some r.contentLength)
  decoded_declared : extractDecodedContentLength E r.req.headers = .ok (some r.payload.length)
  not_form : r.context.isForm = false
  not_presigned : hasQuery r.req.qs (ascii "Signature") = false ∧
    hasQuery r.req.qs (ascii "X-Amz-Signature") = false
  scope_accepted : r.context.headerScope E = .ok r.scope
  announced_accepted : r.context.headerPayload E r.scope = .ok (r.announced, r.req.body.keep)
  signature_accepted : r.context.headerSignature E r.scope r.announced = .ok r.signature
  streaming : r.scope.amzContentSha256.any AmzContentSha256.isStreaming = true
  trailer_announced : r.scope.amzContentSha256.any AmzContentSha256.hasTrailer = true →
    getUniqueHeaderStr r.req.headers (ascii "x-amz-trailer") ≠ none
  region_valid : isValidRegion r.scope.authorization.credential.awsRegion = true
  framed : (fragments r.req.body.script).content =
    encode E.externals r.args.unsigned (r.args.ctx E.externals) r.layout r.chunks r.trailers
  read_without_fault : (fragments r.req.body.script).fault = none
  length_of_encoding : r.contentLength = (fragments r.req.body.script).content.length
  chunks_fit : ∀ d ∈ r.chunks, d ≠ [] ∧ d.length ≤ r.args.maxChunkSize ∧ d.length < 2 ^ 32
  trailers_fit : ∀ ts ∈ r.trailers, BlockFits E.externals r.args.unsigned
    (nextCtx E.externals r.args.unsigned
      (r.chunks.foldl (nextCtx E.externals r.args.unsigned) (r.args.ctx E.externals)) []) r.layout ts

namespace AwsChunkedRequest

variable {E : Environment ε} {ccx : CallContext} {r : AwsChunkedRequest E ccx}

/-- The body that the signature check installs. -/
def body (r : AwsChunkedRequest E ccx) : CheckedBody ε := r.context.awsChunkedBody E r.args

/-- The header check accepts the request and installs the stream. -/
theorem Correct.accepted (h : r.Correct) :
    ∃ credentials : CredentialsExt,
      credentials.region = some r.scope.authorization.credential.awsRegion ∧
      r.context.v4CheckHeaderAuth E = .ok (credentials, ⟨⟨.empty, none⟩, some r.body⟩) := by
  have hlength : r.context.decodedContentLength = some r.payload.length := rfl
  have hinstall : r.context.installBody E r.scope r.signature r.req.body.keep =
      .ok ⟨⟨.empty, none⟩, some r.body⟩ := by
    rw [installBody, if_pos h.streaming, installAwsChunked, if_neg, hlength, Sha256Sum.fromHex_hex]
    · rfl
    · rintro ⟨htrailer, hmissing⟩
      exact h.trailer_announced htrailer hmissing
  exact ⟨_, rfl, v4CheckHeaderAuth_ok.mpr ⟨r.scope, r.announced, _, r.signature, h.scope_accepted,
    h.announced_accepted, h.signature_accepted, hinstall, rfl⟩⟩

theorem Correct.decoded (h : r.Correct) (hX : Documented E.externals) :
    decode E.externals r.args.mode (r.args.ctx E.externals)
      (Fragments.view [] (fragments r.req.body.script)) =
      ⟨r.payload, .ok (r.trailers.map recorded)⟩ := by
  rw [Fragments.view, List.nil_append, h.read_without_fault, h.framed]
  exact decode_encode hX r.args.mode (r.args.ctx E.externals) r.layout r.chunks r.trailers
    h.chunks_fit h.trailers_fit

/-- Read to its end, the installed stream hands out the payload and nothing else. -/
theorem Correct.reads_iff (h : r.Correct) (hX : Documented E.externals) (data : Bytes) :
    Reads E.externals.toCrypto r.body data ↔ data = r.payload := by
  have hjudge : ∀ schedule data trailers,
      consume (new E.externals r.args (fragments r.req.body.script)) schedule =
        some (.clean data trailers) → data = r.payload := by
    intro schedule data trailers hconsume
    have hclean := judge_eq_clean.mp (consume_new E.externals r.args _ schedule _ hconsume).symm
    rw [h.decoded hX] at hclean
    exact hclean.2.1
  refine (reads_awsChunked_iff _ _ _).trans ⟨?_, ?_⟩
  · rintro ⟨schedule, trailers, hconsume⟩
    exact hjudge schedule data trailers hconsume
  · rintro rfl
    have hclean : EndsClean E.externals r.args (fragments r.req.body.script) := by
      rw [endsClean_iff, h.decoded hX]
      exact ⟨⟨_, rfl⟩, rfl⟩
    obtain ⟨schedule, data, trailers, hconsume⟩ := hclean
    have hdata : data = r.payload := hjudge schedule data trailers hconsume
    rw [hdata] at hconsume
    exact ⟨schedule, trailers, hconsume⟩

end AwsChunkedRequest

/-- The algorithm of a parsed header is what stands before the first white space. -/
theorem algorithm_of_parse {F : Formats} {header : Bytes} {authorization : AuthorizationV4}
    (h : AuthorizationV4.parse F header = .ok authorization) :
    authorization.algorithm = header.takeWhile (!isAsciiWhitespace ·) := by
  unfold AuthorizationV4.parse at h
  split at h
  · next ans hparse =>
    split at h
    · cases h
      simp only [parseAuthorization, Option.bind_eq_bind] at hparse
      split at hparse
      · cases hparse
      · simp only [Option.bind_eq_some_iff, Option.some.injEq, Prod.mk.injEq] at hparse
        obtain ⟨_, -, _, -, _, -, _, -, _, -, _, -, rfl, -⟩ := hparse
        rfl
    · cases h
  · cases h

/-- A header with the algorithm of version 4 is not one of version 2. -/
theorem parseAuthorizationV2_of_v4 {F : Formats} {header : Bytes} {authorization : AuthorizationV4}
    (h : AuthorizationV4.parse F header = .ok authorization)
    (halgorithm : authorization.algorithm = ascii "AWS4-HMAC-SHA256") :
    parseAuthorizationV2 header = none := by
  have htag : tag (ascii "AWS ") header = none := by
    rw [tag, if_neg]
    intro hprefix
    obtain ⟨rest, rfl⟩ := List.isPrefixOf_iff_prefix.mp hprefix
    have htoken : (ascii "AWS " ++ rest).takeWhile (!isAsciiWhitespace ·) = ascii "AWS" := rfl
    rw [algorithm_of_parse h, htoken] at halgorithm
    exact absurd halgorithm (by decide)
  rw [parseAuthorizationV2, htag]

namespace AwsChunkedRequest

variable {E : Environment ε} {ccx : CallContext} {r : AwsChunkedRequest E ccx}

/-- `check` takes the arm of the header. -/
theorem Correct.checked (h : r.Correct) (arms : OtherArms ε μ) :
    ∃ credentials : CredentialsExt,
      credentials.region = some r.scope.authorization.credential.awsRegion ∧
      r.context.check E arms = .ok ⟨⟨⟨.empty, none⟩, some r.body⟩, some credentials, none⟩ := by
  obtain ⟨credentials, hregion, haccepted⟩ := h.accepted
  obtain ⟨header, hheader, hparse⟩ : ∃ header,
      getUniqueHeaderStr r.context.hs (ascii "authorization") = some header ∧
        AuthorizationV4.parse E.formats header = .ok r.scope.authorization := by
    have hvalid := (headerScope_valid h.scope_accepted).authorization
    unfold extractAuthorizationV4 at hvalid
    split at hvalid
    · cases hvalid
    · next header heq =>
      split at hvalid
      · next authorization hauth =>
        cases hvalid
        exact ⟨header, heq, hauth⟩
      · cases hvalid
      · cases hvalid
  have halgorithm := (headerScope_valid h.scope_accepted).algorithm
  have hv2 : r.context.v2Check arms = none := by
    have hquery : hasQuery r.context.qs (ascii "Signature") = false := h.not_presigned.1
    rw [v2Check, hquery, hheader]
    simp only [Bool.false_eq_true, if_false, Option.bind_some,
      parseAuthorizationV2_of_v4 hparse halgorithm]
  have hv4 : r.context.v4Check E arms = some (r.context.v4CheckHeaderAuth E) := by
    have hquery : hasQuery r.context.qs (ascii "X-Amz-Signature") = false := h.not_presigned.2
    rw [v4Check, hquery, hheader]
    rfl
  refine ⟨credentials, hregion, ?_⟩
  rw [check, h.not_form, hv2, hv4, haccepted]
  rfl

/-- `verify_signature` passes, with the stream as the body and zero as its length. -/
theorem Correct.verified (h : r.Correct) (arms : OtherArms ε μ) (vhRegion : Option Bytes) :
    ∃ (headers : Http.HeaderMap) (extensions : S3Extensions μ),
      verifySignature E arms ccx r.req vhRegion (some r.contentLength) =
        .ok (some 0, { r.req with headers := headers, body := r.body }, extensions) := by
  obtain ⟨credentials, hregion, hchecked⟩ := h.checked arms
  have hcredentials : ∃ applied, applyCredentials E (some credentials) vhRegion = .ok applied := by
    have hnonempty : r.scope.authorization.credential.awsRegion.isEmpty = false := by
      have hvalid := h.region_valid
      rw [isValidRegion, Bool.and_eq_true, Bool.not_eq_true'] at hvalid
      exact hvalid.1
    have hregionOf : regionOf E (ascii "invalid credential region")
        (some r.scope.authorization.credential.awsRegion) =
        .ok (some r.scope.authorization.credential.awsRegion) := by
      simp only [regionOf, Option.filter, hnonempty, Bool.not_false, if_true, h.region_valid]
    rw [applyCredentials, Option.bind_some, hregion, hregionOf]
    exact ⟨_, rfl⟩
  obtain ⟨applied, happlied⟩ := hcredentials
  refine ⟨r.req.headers.setFirst (ascii "content-length") (Bytes.decimal r.payload.length),
    ⟨none, applied.1, applied.2.1, applied.2.2⟩, ?_⟩
  have hcontext : signatureContext E ccx r.req r.decodedUriPath (some r.contentLength)
      (some r.payload.length) = r.context := rfl
  rw [verifySignature, h.path_decoded]
  refine bind_eq_ok.mpr ⟨_, h.decoded_declared, bind_eq_ok.mpr ⟨_, hchecked, ?_⟩⟩
  exact bind_eq_ok.mpr ⟨applied, happlied, rfl⟩

end AwsChunkedRequest

/-- A collected body that is not empty does not have the length zero. -/
theorem extractFullBody_zero (E : Environment ε) {body : CheckedBody ε} {limit : Nat}
    {payload : Bytes} (hstream : body.bytes = none) (hcollect : E.collectLimited limit body = .ok payload)
    (hne : payload ≠ []) : extractFullBody E (some 0) body limit = .error (.bare .incompleteBody) := by
  have hempty : payload.isEmpty = false := by simpa using hne
  have hlen : payload.length ≠ 0 := fun h => hne (List.eq_nil_of_length_eq_zero h)
  simp only [extractFullBody, hstream, storeAllLimited, hcollect, hempty, Bool.false_eq_true, if_false,
    if_pos hlen]

/-- The operation that needs the whole body is told that the body is incomplete. -/
theorem AwsChunkedRequest.Correct.prepared {E : Environment ε} {ccx : CallContext}
    {r : AwsChunkedRequest E ccx} (h : r.Correct) (hX : Documented E.externals)
    (arms : OtherArms ε μ) (hne : r.payload ≠ [])
    (hlimit : r.payload.length ≤ ccx.config.xmlMaxBodySize)
    (hcollect : CollectsWithin E ccx.config.xmlMaxBodySize r.body) (vhRegion : Option Bytes)
    (requestHasPayload : Bool) :
    prepareFullBody E arms ccx r.req vhRegion requestHasPayload = .error (.bare .incompleteBody) := by
  obtain ⟨headers, extensions, hverified⟩ := h.verified arms vhRegion
  have hlength : signatureContentLength r.req.headers (some r.contentLength) requestHasPayload =
      some r.contentLength := if_neg (by simp)
  have hcollected := hcollect _ ((h.reads_iff hX _).mpr rfl) hlimit
  have hfull := extractFullBody_zero E rfl hcollected hne
  rw [prepareFullBody, h.length_declared]
  simp only [bind, Except.bind, hlength, hverified]
  exact hfull

/-- For every correctly framed and signed aws-chunked request with a payload within the limit: the
signature is accepted, the installed body reads as exactly the payload, and still the operation that
needs all of it gets an error and never the payload. -/
theorem aws_chunked_full_body_incomplete (E : Environment ε) (hX : Documented E.externals)
    (arms : OtherArms ε μ) (ccx : CallContext) (r : AwsChunkedRequest E ccx) (h : r.Correct)
    (hne : r.payload ≠ []) (hlimit : r.payload.length ≤ ccx.config.xmlMaxBodySize)
    (hcollect : CollectsWithin E ccx.config.xmlMaxBodySize r.body) (vhRegion : Option Bytes)
    (requestHasPayload : Bool) :
    (∃ (headers : Http.HeaderMap) (extensions : S3Extensions μ),
      verifySignature E arms ccx r.req vhRegion (some r.contentLength) =
        .ok (some 0, { r.req with headers := headers, body := r.body }, extensions)) ∧
    Reads E.externals.toCrypto r.body r.payload ∧
    prepareFullBody E arms ccx r.req vhRegion requestHasPayload = .error (.bare .incompleteBody) ∧
    prepareFullBody E arms ccx r.req vhRegion requestHasPayload ≠ .ok r.payload := by
  have hprepared := h.prepared hX arms hne hlimit hcollect vhRegion requestHasPayload
  refine ⟨h.verified arms vhRegion, (h.reads_iff hX _).mpr rfl, hprepared, ?_⟩
  rw [hprepared]
  exact nofun

section Sample

/-- Arms that reject everything. -/
def closedArms : OtherArms Unit Unit where
  checkPostSignature _ := .error (.bare .notImplemented)
  v4CheckPresignedUrl _ := .error (.bare .notImplemented)
  v2CheckPresignedUrl _ := .error (.bare .notImplemented)
  v2CheckHeaderAuth _ _ := .error (.bare .notImplemented)

def sampleCallContext : CallContext where
  auth := some fun _ => .ok (ascii "secret")
  config := sampleConfig
  now := 1369353600 * 10 ^ 9

/-- The sample request over a body of three bytes with a signed trailer. -/
def sampleRequest : AwsChunkedRequest sampleEnvironment sampleCallContext where
  req :=
    { version := .http11
      method := ascii "PUT"
      path := ascii "/bucket"
      authority := none
      headers := sampleHeaders
      body := (sampleContext [sampleEncoding]).reqBody
      qs := none }
  decodedUriPath := ascii "/bucket"
  scope := sampleScope
  announced := .multipleChunksWithTrailer
  signature := (StreamArgs.sample 3 false).seedSignature
  layout := ⟨false, .line⟩
  chunks := [ascii "abc"]
  trailers := some [sampleTrailer]
  contentLength := 295

theorem sampleRequest_context : sampleRequest.context = sampleContext [sampleEncoding] := by
  have hmime : extractMime sampleEnvironment sampleHeaders = none := by
    unfold extractMime
    split
    · split <;> rfl
    · rfl
  have hcontext : sampleRequest.context = { sampleContext [sampleEncoding] with
      mime := extractMime sampleEnvironment sampleHeaders } := rfl
  rw [hcontext, hmime]
  rfl

theorem sampleRequest_correct : sampleRequest.Correct where
  path_decoded := rfl
  length_declared := by decide +kernel
  decoded_declared := by decide +kernel
  not_form := rfl
  not_presigned := ⟨rfl, rfl⟩
  scope_accepted := by
    rw [sampleRequest_context]
    exact sampleScope_accepted _
  announced_accepted := rfl
  signature_accepted := by
    rw [sampleRequest_context]
    exact sampleSignature_accepted _
  streaming := rfl
  trailer_announced := fun _ => by decide +kernel
  region_valid := by decide
  framed := by
    have hfragments := fragments_sampleContext [sampleEncoding]
    have hcontent := congrArg Fragments.Body.content hfragments
    rw [Fragments.Body.content_ofFragments, List.flatten_cons, List.flatten_nil,
      List.append_nil] at hcontent
    exact hcontent
  read_without_fault := by
    have hfragments := fragments_sampleContext [sampleEncoding]
    have hfault := congrArg Fragments.Body.fault hfragments
    rw [Fragments.Body.fault_ofFragments] at hfault
    exact hfault
  length_of_encoding := by decide +kernel
  chunks_fit := by decide
  trailers_fit := by
    intro ts hts
    have heq : [sampleTrailer] = ts := Option.some.inj hts
    subst heq
    exact ⟨List.cons_ne_nil _ _, by decide, by decide +kernel, by decide +kernel⟩

theorem sampleRequest_collects :
    CollectsWithin sampleEnvironment sampleCallContext.config.xmlMaxBodySize sampleRequest.body := by
  intro data hreads hlimit
  have hdata := (sampleRequest_correct.reads_iff (reference_documented constantCrypto) data).mp hreads
  rw [hdata]
  rfl

/-- The sample request carries `abc`, and the operation does not get it. -/
theorem sampleRequest_incomplete :
    sampleRequest.payload = ascii "abc" ∧ sampleRequest.Correct ∧
      ¬ prepareFullBody sampleEnvironment closedArms sampleCallContext sampleRequest.req none true =
        .ok sampleRequest.payload := by
  refine ⟨by decide, sampleRequest_correct, ?_⟩
  rw [sampleRequest_correct.prepared (reference_documented constantCrypto) closedArms (by decide)
    (by decide) sampleRequest_collects]
  exact nofun

theorem aws_chunked_full_body_incomplete_sample :
    sampleRequest.Correct ∧ sampleRequest.payload ≠ [] ∧
    prepareFullBody sampleEnvironment closedArms sampleCallContext sampleRequest.req none true =
      .error (.bare .incompleteBody) :=
  ⟨sampleRequest_correct, by decide,
    (aws_chunked_full_body_incomplete sampleEnvironment (reference_documented constantCrypto)
      closedArms sampleCallContext sampleRequest sampleRequest_correct (by decide) (by decide)
      sampleRequest_collects none true).2.2.1⟩

end Sample

end S3s.Ops
