import S3s.Ops.FullBody
import S3s.Ops.Mediation
import S3s.Upload.Verification

/-! # What a signed body hands out

A request that is accepted by its `Authorization` header says what its body is: of which digest, or that it
comes in chunks whose signatures follow that of the request. Whoever reads to the end the body that takes the
place of the one that arrived, has read what was signed.
-/
namespace S3s.Upload
open Polling

variable {ε : Type} {C : Crypto} {n : Nat} {d : Sha256Sum} {script : Script ε}

/-- Read to its end, an upload stream has handed out bytes of the expected digest. -/
theorem readsAll_sha256 {rs : List (Item Bytes (UploadStreamError ε))} {s : UploadStream ε} {items : List Bytes}
    (h : Invariant C n d script rs s) (hclean : ∀ r ∈ rs, r.isError = false)
    (hreads : ReadsAll (fun _ : Bool => UploadStream.pollNext C) s items) :
    C.sha256 ((oks rs).flatten ++ items.flatten) = d := by
  have hnext : ∀ s (r : Item Bytes (UploadStreamError ε)) rs, r.isError = false →
      (∀ r ∈ rs, r.isError = false) → Invariant C n d script rs s → (UploadStream.pollNext C s).1 = r →
      Invariant C n d script (rs ++ [r]) (UploadStream.pollNext C s).2 ∧ ∀ r' ∈ rs ++ [r], r'.isError = false := by
    rintro s r rs hr hclean h rfl
    refine ⟨invariant_pollNext h, fun r' hr' => ?_⟩
    rcases List.mem_append.mp hr' with hr' | hr'
    · exact hclean r' hr'
    · rw [List.mem_singleton.mp hr', hr]
  induction hreads generalizing rs with
  | @done s i result =>
    obtain ⟨hinv, hquiet⟩ := hnext s (.ready none) rs rfl hclean h result
    have hend : (.ready none : Item Bytes (UploadStreamError ε)) ∈ rs ++ [.ready none] := by simp
    rw [List.flatten_nil, List.append_nil]
    have hoks : oks (rs ++ [(.ready none : Item Bytes (UploadStreamError ε))]) = oks rs := oks_snoc_of_none rfl
    cases hstate : (UploadStream.pollNext C s).2.state with
    | reading => exact absurd hend (hinv.reading hstate).1.2
    | awaitingEof => exact absurd hend (hinv.awaiting hstate).1.2
    | finished =>
      rw [← hoks]
      exact (hinv.finished hstate).2.2.1
    | failed =>
      obtain ⟨r, hr, herror⟩ := hinv.failed hstate
      rw [hquiet r hr] at herror
      cases herror
  | @pending s items i result rest ih =>
    obtain ⟨hinv, hquiet⟩ := hnext s .pending rs rfl hclean h result
    have hsha := ih hinv hquiet
    rwa [oks_snoc_of_none rfl] at hsha
  | @item s bytes items i result rest ih =>
    obtain ⟨hinv, hquiet⟩ := hnext s (.ready (some (.ok bytes))) rs rfl hclean h result
    have hsha := ih hinv hquiet
    rwa [flatten_oks_snoc, List.append_assoc] at hsha

end S3s.Upload

namespace S3s.Http
open Polling

variable {σ τ ι E : Type} {S : ByteStream σ ι E} {H : HttpBody τ ι E}

/-- What is read to the end under an allowance is read without it. -/
theorem readsAll_unlimited {b : Body σ τ} {frames : List Frame} (h : ReadsAll (Body.pollFrame S H) b frames) :
    ReadsAll (Body.pollFrame S H) { b with remainingLimit := none } frames := by
  have hpoll : ∀ i (b : Body σ τ), (∀ e, (Body.pollFrame S H i b).1 ≠ .ready (some (.error e))) →
      (Body.pollFrame S H i { b with remainingLimit := none }).1 = (Body.pollFrame S H i b).1 ∧
        (Body.pollFrame S H i { b with remainingLimit := none }).2 =
          { (Body.pollFrame S H i b).2 with remainingLimit := none } := by
    intro i b hgood
    unfold Body.pollFrame at hgood ⊢
    dsimp only at hgood ⊢
    split at hgood
    · split_ifs at hgood with hlarge
      · exact absurd rfl (hgood _)
      · next heq =>
        rw [heq, if_neg hlarge]
        exact ⟨rfl, rfl⟩
    · exact ⟨rfl, rfl⟩
  induction h with
  | @done b i result =>
    obtain ⟨hr, -⟩ := hpoll i b (by rw [result]; intro e h; cases h)
    exact .done i (hr.trans result)
  | @pending b frames i result rest ih =>
    obtain ⟨hr, hb⟩ := hpoll i b (by rw [result]; intro e h; cases h)
    exact .pending i (hr.trans result) (by rw [hb]; exact ih)
  | @item b frame frames i result rest ih =>
    obtain ⟨hr, hb⟩ := hpoll i b (by rw [result]; intro e h; cases h)
    exact .item i (hr.trans result) (by rw [hb]; exact ih)

end S3s.Http

namespace S3s.Ops
open Http SigV4 AwsChunked AwsChunkedStream Polling SignatureContext Routing

variable {ε : Type}

section Reading

variable {C : Crypto} {content : Bytes}

theorem pollFrame_upload (C : Crypto) (ready : Bool) (s : Upload.UploadStream (BodyError ε)) :
    Body.pollFrame (dynByteStream C) noHttpBody ready (CheckedBody.ofStream (.upload s)) =
      ((s.pollNext C).1.bimap Frame.data fun e => .inner (.upload e),
        CheckedBody.ofStream (.upload (s.pollNext C).2)) := by
  rcases hp : s.pollNext C with ⟨_ | (_ | (e | bytes)), s'⟩
  · simp only [Body.pollFrame, CheckedBody.ofStream, Body.pollKind, dynByteStream, hp]
    rfl
  · simp only [Body.pollFrame, CheckedBody.ofStream, Body.pollKind, dynByteStream, hp]
    rfl
  · simp only [Body.pollFrame, CheckedBody.ofStream, Body.pollKind, dynByteStream, hp]
    rfl
  · simp only [Body.pollFrame, CheckedBody.ofStream, Body.pollKind, dynByteStream, hp]
    rfl

/-- The body of a request that is sent in one piece has the digest that is declared. -/
theorem reads_upload_sha256 {script : Upload.Script (BodyError ε)} {n : Nat} {d : Sha256Sum}
    (h : Reads C (.ofStream (.upload (.new script n d))) content) : C.sha256 content = d := by
  obtain ⟨frames, hreads, rfl⟩ := h
  obtain ⟨items, rfl, hitems⟩ :=
    ReadsAll.unwrap (S := fun s => CheckedBody.ofStream (.upload s)) (pollFrame_upload C) hreads
  have hframes : (items.map Frame.data).flatMap frameData = items.flatten := by
    rw [List.flatMap_map]
    exact List.flatMap_id
  have hsha := Upload.readsAll_sha256 (Upload.invariant_new C n d script)
    (fun r hr => (List.not_mem_nil hr).elim) hitems
  rw [hframes]
  exact hsha

/-- A body that is in memory hands out what it holds. -/
theorem reads_bytes {b : CheckedBody ε} {bytes : Bytes} (hbytes : b.bytes = some bytes)
    (h : Reads C { b with remainingLimit := none } content) : content = bytes := by
  obtain ⟨frames, hreads, rfl⟩ := h
  obtain ⟨kind, limit⟩ := b
  have hempty : ∀ frames, ReadsAll (Body.pollFrame (dynByteStream C) noHttpBody)
      (⟨.empty, none⟩ : CheckedBody ε) frames → frames = [] := by
    intro frames hreads
    generalize hb : (⟨.empty, none⟩ : CheckedBody ε) = b at hreads
    induction hreads with
    | done => rfl
    | pending i result rest ih =>
      subst hb
      cases result
    | item i result rest ih =>
      subst hb
      cases result
  unfold CheckedBody.bytes at hbytes
  cases kind with
  | empty =>
    cases hbytes
    rw [hempty frames hreads]
    rfl
  | once inner =>
    cases hbytes
    cases hreads with
    | done i result =>
      simp only [Body.pollFrame, Body.pollKind] at result
      split_ifs at result with hnil
      · simpa using hnil.symm
      · cases result
    | pending i result rest =>
      simp only [Body.pollFrame, Body.pollKind] at result
      split_ifs at result
      · cases result
      · cases result
    | @item _ frame frames i result rest =>
      simp only [Body.pollFrame, Body.pollKind] at result rest
      split_ifs at result rest
      · cases result
      · cases result
        rw [hempty frames rest]
        simp [frameData]
  | httpBody inner => exact inner.elim
  | dynStream inner => cases hbytes

end Reading

namespace SignatureContext

variable {E : Environment ε} {ctx : SignatureContext ε} {scope : HeaderScope} {signature : Sha256Sum}
  {payload : Payload} {body : CheckedBody ε} {checked : CheckedRequest ε} {content : Bytes}

/-- The context of the chunks behind a request with this signature. -/
def chunkArgs (ctx : SignatureContext ε) (v : SignatureVerificationContext) (signature : Sha256Sum)
    (length : Nat) : StreamArgs where
  seedSignature := signature
  amzDate := v.amzDate
  region := v.region
  service := v.service
  secretKey := v.secretKey
  decodedContentLength := length
  unsigned := false
  maxChunkSize := ctx.config.awsChunkedStreamMaxChunkSize

/-- The signature of a request answers for a content: the digest of the content is signed, or the content is
that of chunks which are signed one after the other, the first one behind the request, and has the length that
is declared. It also may say that the content is not signed. -/
inductive Vouches (E : Environment ε) (ctx : SignatureContext ε) (v : Verification) (signature : Sha256Sum)
    (content : Bytes) : Prop
  | whole (declared : v.input.payload = .singleChunk (hexSha256 E.externals.toCrypto content))
  | chunks (declared : v.input.payload = .multipleChunks ∨ v.input.payload = .multipleChunksWithTrailer)
    (length : ctx.decodedContentLength = some content.length) (cs : List Chunk) (last : SignatureCtx)
    (tail : Bytes) (data : content = AwsChunked.dataOf cs)
    (verified : AwsChunked.Verified E.externals ctx.config.awsChunkedStreamMaxChunkSize
      ((ctx.chunkArgs v.verifier signature content.length).ctx E.externals)
      (fragments ctx.reqBody.script).content cs last tail)
  | unsigned (declared : v.input.payload = .unsigned ∨ v.input.payload = .unsignedMultipleChunksWithTrailer)

/-- A signed stream that is read to its end has handed out the data of verified chunks. -/
theorem reads_chunks {args : StreamArgs} (hsigned : args.unsigned = false)
    {arrived : Fragments.Body UInt8 (BodyError ε)}
    (h : Reads E.externals.toCrypto (.ofStream (.awsChunked (.new E.externals args arrived))) content) :
    content.length = args.decodedContentLength ∧ ∃ cs last tail, content = AwsChunked.dataOf cs ∧
      AwsChunked.Verified E.externals args.maxChunkSize (args.ctx E.externals) arrived.content cs last tail := by
  obtain ⟨schedule, trailers, hconsume⟩ := (reads_awsChunked_iff _ _ _).mp h
  obtain ⟨-, hcontent, hlength⟩ := judge_eq_clean.mp (consume_new E.externals args arrived schedule _ hconsume).symm
  obtain ⟨cs, last, tail, hverified, hdata, -⟩ :=
    decode_signed E.externals args.mode hsigned (args.ctx E.externals) (Fragments.view [] arrived)
  exact ⟨by rw [hcontent]; exact hlength, cs, last, tail, hcontent.trans hdata, hverified⟩

/-- The body of an STS request is in memory when its digest is signed. -/
theorem storeAllLimited_bytes {limit : Nat} {b : CheckedBody ε} {bytes : Bytes}
    (h : storeAllLimited E limit b = .ok (bytes, body)) : body.bytes = some bytes := by
  unfold storeAllLimited at h
  split at h
  · next bytes' hbytes =>
    split_ifs at h
    cases h
    exact hbytes
  · split at h
    · cases h
      rfl
    · cases h

/-- What stands for the payload in the signed text is what is declared. -/
theorem headerPayload_streaming (hpayload : ctx.headerPayload E scope = .ok (payload, body))
    (hstream : scope.amzContentSha256.any AmzContentSha256.isStreaming = true) :
    ((∀ signature n, (ctx.streamArgs scope signature n).unsigned = false) ∧
        (payload = .multipleChunks ∨ payload = .multipleChunksWithTrailer)) ∨
      payload = .unsignedMultipleChunksWithTrailer := by
  unfold headerPayload at hpayload
  simp only [streamArgs]
  split at hpayload
  · next hsha =>
    cases hpayload
    exact Or.inl ⟨fun _ _ => by rw [hsha]; rfl, Or.inl rfl⟩
  · next hsha =>
    cases hpayload
    exact Or.inl ⟨fun _ _ => by rw [hsha]; rfl, Or.inr rfl⟩
  · next hsha =>
    rw [hsha] at hstream
    cases hstream
  · cases hpayload
    exact Or.inr rfl
  · next hsha =>
    rw [hsha] at hstream
    cases hstream
  · cases hpayload
  · cases hpayload
  · next hsha =>
    rw [hsha] at hstream
    cases hstream

/-- The verification of an accepted request, with the signature that has been found. -/
def verificationOf (ctx : SignatureContext ε) (scope : HeaderScope) (payload : Payload)
    (headers : List (Bytes × Bytes)) : Verification where
  names := scope.authorization.signedHeaders
  input := ⟨ctx.reqMethod, ctx.rawUriPath, ctx.decodedUriPath, ctx.queryPairs, headers, payload⟩
  verifier :=
    { expectedSignature := scope.authorization.signature
      rawUriPath := ctx.rawUriPath
      secretKey := scope.secretKey
      amzDate := scope.amzDate
      region := scope.authorization.credential.awsRegion
      service := scope.authorization.credential.awsService }

theorem installed_vouched {headers : List (Bytes × Bytes)} {limit : Option Nat}
    (hpayload : ctx.headerPayload E scope = .ok (payload, body))
    (hinstall : ctx.installBody E scope signature body = .ok checked)
    (hreads : Reads E.externals.toCrypto
      { checked.transformedBody.getD checked.reqBody with remainingLimit := limit } content) :
    ctx.Vouches E (ctx.verificationOf scope payload headers) signature content := by
  obtain ⟨frames, hframes, hdata⟩ := hreads
  have hfree : Reads E.externals.toCrypto
      { checked.transformedBody.getD checked.reqBody with remainingLimit := none } content :=
    ⟨frames, readsAll_unlimited (b := { checked.transformedBody.getD checked.reqBody with
      remainingLimit := limit }) hframes, hdata⟩
  by_cases hstream : scope.amzContentSha256.any AmzContentSha256.isStreaming = true
  · obtain ⟨n, hn, rfl⟩ := installBody_streaming hstream hinstall
    rcases headerPayload_streaming hpayload hstream with ⟨hsigned, hdeclared⟩ | hdeclared
    · obtain ⟨hlength, cs, last, tail, hcs, hverified⟩ := reads_chunks (hsigned signature n) hfree
      have hlength' : content.length = n := hlength
      subst hlength'
      have hargs : ctx.streamArgs scope signature content.length =
          ctx.chunkArgs (ctx.verificationOf scope payload headers).verifier signature content.length := by
        have hunsigned := hsigned signature content.length
        simp only [streamArgs] at hunsigned
        simp only [streamArgs, chunkArgs, verificationOf, hunsigned]
      rw [hargs] at hverified
      exact .chunks hdeclared hn cs last tail hcs hverified
    · exact .unsigned (Or.inr hdeclared)
  · rw [installBody, if_neg hstream] at hinstall
    unfold headerPayload at hpayload
    split at hpayload
    · next hsha => exact absurd (by rw [hsha]; rfl) hstream
    · next hsha => exact absurd (by rw [hsha]; rfl) hstream
    · cases hpayload
      exact .unsigned (Or.inl rfl)
    · next hsha => exact absurd (by rw [hsha]; rfl) hstream
    · next checksum hsha =>
      cases hpayload
      rw [hsha] at hinstall
      dsimp only at hinstall
      split at hinstall
      · cases hinstall
        have hdigest := reads_upload_sha256 hfree
        apply Vouches.whole
        simp only [verificationOf, hexSha256]
        rw [hdigest]
      · cases hinstall
    · cases hpayload
    · cases hpayload
    · next hsha =>
      split_ifs at hpayload
      split at hpayload
      · next bytes stored hstored =>
        cases hpayload
        rw [hsha] at hinstall
        cases hinstall
        have hcontent := reads_bytes (storeAllLimited_bytes hstored) hfree
        apply Vouches.whole
        simp only [verificationOf]
        rw [hcontent]
      · cases hpayload

/-- Whoever reads the body of an accepted request to its end, has read what its signature answers for. -/
theorem header_body_vouched {credentials : CredentialsExt}
    (h : ctx.v4CheckHeaderAuth E = .ok (credentials, checked)) :
    ∃ v signature, ctx.headerVerification E = .ok v ∧ ctx.Verified E v signature ∧
      v.verifier.secretKey = credentials.secretKey ∧ ∀ content limit, Reads E.externals.toCrypto
        { checked.transformedBody.getD checked.reqBody with remainingLimit := limit } content →
          ctx.Vouches E v signature content := by
  obtain ⟨scope, payload, body, signature, hscope, hpayload, hsignature, hinstall, rfl⟩ :=
    v4CheckHeaderAuth_ok.mp h
  unfold headerSignature at hsignature
  obtain ⟨headers, hheaders, hsignature⟩ := bind_eq_ok.mp hsignature
  obtain ⟨⟨⟩, hreject, hverify⟩ := bind_eq_ok.mp hsignature
  refine ⟨ctx.verificationOf scope payload headers, signature, ?_, ?_, rfl, fun content limit hreads => ?_⟩
  · exact bind_eq_ok.mpr ⟨scope, hscope, bind_eq_ok.mpr ⟨(payload, body), hpayload,
      bind_eq_ok.mpr ⟨headers, hheaders, rfl⟩⟩⟩
  · exact ⟨hheaders, hreject, rfl, rfl, rfl, rfl, headerPayload_canonical hpayload, rfl, hverify⟩
  · exact installed_vouched hpayload hinstall hreads

/-- With no other signature in sight, the header is what is checked. -/
theorem check_header {μ : Type} {arms : OtherArms ε μ} {outcome : CheckOutcome ε μ}
    (h : ctx.check E arms = .ok outcome) (hform : ctx.isForm = false)
    (hquery : hasQuery ctx.qs (ascii "Signature") = false ∧ hasQuery ctx.qs (ascii "X-Amz-Signature") = false)
    (hv2 : (getUniqueHeaderStr ctx.hs (ascii "authorization")).bind parseAuthorizationV2 = none)
    (hsigned : (getUniqueHeaderStr ctx.hs (ascii "authorization")).isSome = true) :
    ∃ credentials checked, ctx.v4CheckHeaderAuth E = .ok (credentials, checked) ∧
      outcome = ⟨checked, some credentials, none⟩ := by
  have hnone : ctx.v2Check arms = none := by
    rw [v2Check, if_neg (ne_true_of_eq_false hquery.1), hv2]
  have hsome : ctx.v4Check E arms = some (ctx.v4CheckHeaderAuth E) := by
    rw [v4Check, if_neg (ne_true_of_eq_false hquery.2), if_pos hsigned]
  rw [check, if_neg (ne_true_of_eq_false hform), hnone, hsome] at h
  obtain ⟨⟨credentials, checked⟩, hchecked, h⟩ := bind_eq_ok.mp h
  cases h
  exact ⟨credentials, checked, hchecked, rfl⟩

end SignatureContext

namespace Service

variable {ι ο : Type} {svc : Service ε ι} {c : Classified (ArrivingBody ε)} {a : Authenticated ε}

/-- The request asks to be authenticated by version 4, and by its header. -/
structure HeaderSigned (svc : Service ε ι) (c : Classified (ArrivingBody ε)) : Prop where
  notForm : isMultipartPost svc.environment c.request = false
  notPresigned : hasQuery c.request.qs (ascii "Signature") = false ∧
    hasQuery c.request.qs (ascii "X-Amz-Signature") = false
  notV2 : (getUniqueHeaderStr c.request.headers (ascii "authorization")).bind parseAuthorizationV2 = none
  signed : (getUniqueHeaderStr c.request.headers (ascii "authorization")).isSome = true

/-- Such a request is accepted by the check of the header, and goes on with the body that this has put in
place of its own. -/
theorem authenticate_headerSigned (h : svc.authenticate c = .ok a) (hheader : svc.HeaderSigned c) :
    ∃ decodedUriPath contentLength decodedContentLength credentials checked,
      svc.environment.urlDecode c.request.path = some decodedUriPath ∧
      (signatureContext svc.environment svc.context c.request decodedUriPath contentLength
        decodedContentLength).v4CheckHeaderAuth svc.environment = .ok (credentials, checked) ∧
      a.extensions.credentials = some (credentials.accessKey, credentials.secretKey) ∧
      a.request.body = checked.transformedBody.getD checked.reqBody := by
  unfold authenticate at h
  obtain ⟨declared, -, h⟩ := bind_eq_ok.mp h
  obtain ⟨⟨length, request, extensions⟩, hverify, h⟩ := bind_eq_ok.mp h
  cases h
  unfold verifySignature at hverify
  split at hverify
  · next decodedUriPath hpath =>
    obtain ⟨decodedContentLength, -, hverify⟩ := bind_eq_ok.mp hverify
    obtain ⟨outcome, hcheck, hverify⟩ := bind_eq_ok.mp hverify
    obtain ⟨⟨credentials, region, service⟩, happly, hverify⟩ := bind_eq_ok.mp hverify
    cases hverify
    obtain ⟨found, checked, hchecked, rfl⟩ := check_header hcheck hheader.notForm hheader.notPresigned
      hheader.notV2 hheader.signed
    refine ⟨decodedUriPath, _, _, found, checked, hpath, hchecked, ?_, rfl⟩
    rw [applyCredentials_credentials happly]
    rfl
  · cases hverify

theorem selectOperation_body {early : S3Result (Option Operation)} {s3Path : S3Path} {op : Operation}
    {p : PreparedRequest ε} (h : svc.selectOperation early a s3Path = .ok (op, p)) :
    p.request.body = a.request.body := by
  unfold selectOperation at h
  obtain ⟨resolved, -, h⟩ := bind_eq_ok.mp h
  split at h
  · cases h
    rfl
  · split at h
    · split at h
      · cases h
      · obtain ⟨_, -, h⟩ := bind_eq_ok.mp h
        cases h
        rfl
      · cases h
    · obtain ⟨_, -, h⟩ := bind_eq_ok.mp h
      cases h
      rfl

/-- An operation that streams its body is given it as it is, under the limit of the configuration. -/
theorem prepareBody_streaming {op : Operation} {p ready : PreparedRequest ε} (hop : op.hasStreamingBody = true)
    (h : svc.prepareBody op p = .ok ready) :
    ready.request.body = { p.request.body with remainingLimit := svc.putObjectMaxSize } := by
  have hfull : ¬op.needsFullBody = true := by
    unfold Operation.hasStreamingBody at hop
    split at hop
    · exact Bool.false_ne_true
    · exact Bool.false_ne_true
    · exact Bool.false_ne_true
    · exact Bool.false_ne_true
    · cases hop
  rw [prepareBody, if_neg hfull, if_pos hop] at h
  unfold prepareStreamingBody at h
  obtain ⟨_, -, h⟩ := bind_eq_ok.mp h
  dsimp only at h
  split_ifs at h
  · cases h
    rfl
  · cases h
    rfl

/-- The body that an operation is given, of a request that is signed by its header: read to its end, it is
what the signature answers for. -/
theorem streamed_body_vouched {req : Request (ArrivingBody ε)} {query : Option Bytes}
    {before : List (ServiceEvent ε ι ο)} {op : Operation} (w : svc.Admission req query before op)
    (hop : op.hasStreamingBody = true) (hheader : svc.HeaderSigned w.classified) :
    ∃ decodedUriPath contentLength decodedContentLength accessKey v signature,
      svc.environment.urlDecode w.classified.request.path = some decodedUriPath ∧
      w.ready.extensions.credentials = some (accessKey, v.verifier.secretKey) ∧
      (signatureContext svc.environment svc.context w.classified.request decodedUriPath contentLength
        decodedContentLength).Verified svc.environment v signature ∧
      ∀ content, Reads svc.environment.externals.toCrypto w.ready.request.body content →
        (signatureContext svc.environment svc.context w.classified.request decodedUriPath contentLength
          decodedContentLength).Vouches svc.environment v signature content := by
  obtain ⟨decodedUriPath, contentLength, decodedContentLength, credentials, checked, hpath, hchecked,
    hcredentials, hbody⟩ := authenticate_headerSigned w.identified.authenticated hheader
  obtain ⟨v, signature, -, hverified, hkey, hvouched⟩ := header_body_vouched hchecked
  refine ⟨decodedUriPath, contentLength, decodedContentLength, credentials.accessKey, v, signature, hpath, ?_,
    hverified, fun content hreads => ?_⟩
  · rw [w.credentials, hcredentials, hkey]
  · apply hvouched content svc.putObjectMaxSize
    rw [prepareBody_streaming hop w.prepares, selectOperation_body w.selects, hbody] at hreads
    exact hreads

end Service

end S3s.Ops
