import S3s.Ops.SignedHeaders
import S3s.Ops.Target

/-! # What a signature says about the target

Two requests with one string to sign have the same method, path and query. Their
targets are the same exactly when their hosts name the same bucket and the router
finds the same answers where it asks for headers. Nothing makes a client sign its
host.
-/
namespace S3s.Ops
open Http SigV4 Routing Sorted

section Target

variable {ε β : Type} {E : Environment ε} {R : RoutingSettings} {req : Request β}
  {query : Option Bytes} {t t' : Target β}

/-- What is known of a request whose target has been found. -/
structure Prepared (E : Environment ε) (R : RoutingSettings) (req : Request β) (t : Target β) :
    Prop where
  method : t.request.method = req.method
  path : t.request.path = req.path
  authority : t.request.authority = req.authority
  headers : t.request.headers = (injectHostHeader req).headers
  qs : t.request.qs = t.qs.map (·.qs)
  host : extractHost t.request E = .ok t.hostHeader
  decoded : E.urlDecode t.request.path = some t.decodedUriPath
  vh : parseRequestHost R.host t.hostHeader = .ok t.vh
  s3Path : classifyRequestPath R t.decodedUriPath t.vhBucket = .ok t.s3Path

theorem injectHostHeader_fields (req : Request β) :
    (injectHostHeader req).method = req.method ∧ (injectHostHeader req).path = req.path ∧
      (injectHostHeader req).authority = req.authority := by
  unfold injectHostHeader
  split
  · exact ⟨rfl, rfl, rfl⟩
  · split
    · split <;> exact ⟨rfl, rfl, rfl⟩
    · exact ⟨rfl, rfl, rfl⟩

theorem prepareTarget_ok (h : prepareTarget E R req query = .ok t) : Prepared E R req t := by
  obtain ⟨hmethod, hpath, hauthority⟩ := injectHostHeader_fields req
  unfold prepareTarget at h
  obtain ⟨hostHeader, hhost, h⟩ := bind_eq_ok.mp h
  split at h
  · next decodedUriPath hdecoded =>
    obtain ⟨vh, hvh, h⟩ := bind_eq_ok.mp h
    obtain ⟨s3Path, hs3Path, h⟩ := bind_eq_ok.mp h
    obtain ⟨qs, -, h⟩ := bind_eq_ok.mp h
    cases h
    exact ⟨hmethod, hpath, hauthority, rfl, rfl, hhost, hdecoded, hvh, hs3Path⟩
  · cases h

theorem classifyRequestPath_ok {decodedUriPath : Bytes} {vhBucket : Option Bytes} {s3Path : S3Path}
    (h : classifyRequestPath R decodedUriPath vhBucket = .ok s3Path) :
    parseVirtualHostedStyle (R.validation.getD checkBucketName) R.normalizeForwardSlashPath vhBucket
      decodedUriPath = .ok s3Path := by
  unfold classifyRequestPath at h
  split at h
  · next path hpath =>
    cases h
    exact hpath
  · cases h

theorem resolveOperation_toOption : (t.resolveOperation R).toOption = (t.route R).toOption := by
  unfold Target.resolveOperation
  split
  · next op hop => rw [hop]
  · next err herr =>
    rw [herr]
    split <;> rfl

/-- A declaration counts before the router is asked. -/
theorem operation_of_declares (h : t.Declares R) :
    t.operation R = resolveOir R.minio t.request.method t.s3Path R.operationIdRouting t.qs >>=
      fun op => match op with
        | some op => .ok op
        | none => .error unknownOperation := by
  obtain ⟨hrouting, hpresent⟩ := h
  unfold Target.operation resolveOir
  rw [hrouting]
  cases hlookup : (t.qs.getD .empty).lookup (ascii "x-id") with
  | absent => exact (hpresent hlookup).elim
  | duplicate => rfl
  | single signal =>
    dsimp only [Bool.not_true]
    cases resolveOperationById R.minio t.request.method t.s3Path signal <;> rfl

theorem operation_of_not_declares (h : ¬ t.Declares R) :
    (t.operation R).toOption = (t.route R).toOption := by
  have hnone : resolveOir R.minio t.request.method t.s3Path R.operationIdRouting t.qs = .ok none := by
    unfold resolveOir
    cases hrouting : R.operationIdRouting with
    | false => rfl
    | true =>
      cases hlookup : (t.qs.getD .empty).lookup (ascii "x-id") with
      | absent => rfl
      | duplicate => exact (h ⟨hrouting, by simp [hlookup]⟩).elim
      | single signal => exact (h ⟨hrouting, by simp [hlookup]⟩).elim
  rw [Target.operation, hnone]
  exact resolveOperation_toOption

/-- Targets on one path with queries the router cannot tell apart have the same operation exactly
when it is declared, or when the router cannot tell their headers apart either. -/
theorem operation_eq_iff (hmethod : t.request.method = t'.request.method)
    (hpath : t.s3Path = t'.s3Path) (hqs : SameRoute (t.qs.getD .empty) (t'.qs.getD .empty)) :
    (t.operation R).toOption = (t'.operation R).toOption ↔
      t.Declares R ∨ SameHeaders t.request.method (t.qs.getD .empty) t.request.headers
        t'.request.headers t.s3Path := by
  have hlookup := hqs.lookup (ascii "x-id") (by decide)
  by_cases hdeclares : t.Declares R
  · have hdeclares' : t'.Declares R := ⟨hdeclares.1, hlookup ▸ hdeclares.2⟩
    refine iff_of_true ?_ (Or.inl hdeclares)
    rw [operation_of_declares hdeclares, operation_of_declares hdeclares', hmethod, hpath,
      resolveOir_sameRoute hqs]
  · have hdeclares' : ¬ t'.Declares R := fun h => hdeclares ⟨h.1, hlookup ▸ h.2⟩
    rw [operation_of_not_declares hdeclares, operation_of_not_declares hdeclares',
      ← @resolveRoute_headers_iff R.minio]
    have hroute : t'.route R = resolveRoute R.minio t.request.method t'.request.headers t.s3Path
        t.qs := by
      rw [Target.route, hmethod, hpath, resolveRoute_sameRoute hqs]
    rw [hroute, Target.route]
    constructor
    · intro h
      exact Or.inr (resolveRoute_failsUnknown.eq_of_toOption resolveRoute_failsUnknown h)
    · rintro (h | h)
      · exact (hdeclares h).elim
      · rw [h]

end Target

namespace SignatureContext

variable {ε : Type} {E : Environment ε} {S : CheckSettings} {ctx ctx' : SignatureContext ε}
  {w w' : Verification} {signature signature' : Sha256Sum}

/-- The string to sign of a request in one of the two modes. -/
def Verification.stringToSign (C : Crypto) (w : Verification) (rawUriPath : Bool) : Bytes :=
  createStringToSign C (w.input.render rawUriPath) w.verifier.amzDate w.verifier.region
    w.verifier.service

/-- Under every name but that of the signature, two requests with one canonical query have the same
values. -/
theorem Verified.valuesOf_perm (hw : ctx.Verified E w signature) (hw' : ctx'.Verified E w' signature')
    (hquery : sortByEncodedName w.input.query = sortByEncodedName w'.input.query) {name : Bytes}
    (hname : name ≠ ascii "X-Amz-Signature") :
    (valuesOf ctx.queryPairs name).Perm (valuesOf ctx'.queryPairs name) := by
  have hsorted : ∀ query, (sortByEncodedName query).Perm query :=
    fun query => List.perm_insertionSort _ query
  have hperm : w.input.query.Perm w'.input.query := by
    refine (hsorted _).symm.trans ?_
    rw [hquery]
    exact hsorted _
  have hfilter := hperm.filter fun q => !isSkippedQueryString q.1
  rw [hw.query, hw'.query] at hfilter
  have hkept : ∀ q : Bytes × Bytes, q.1 = name → (!isSkippedQueryString q.1) = true := by
    rintro q rfl
    simpa [isSkippedQueryString] using hname
  have hvalues := Sorted.valuesOf_perm hfilter name
  rwa [valuesOf_filter hkept, valuesOf_filter hkept] at hvalues

/-- The name of a line is that of one of its headers. -/
theorem exists_header_of_line {headers : List (Bytes × Bytes)} {line : Bytes × Bytes}
    (h : line ∈ headerLines headers) : ∃ value, (line.1, value) ∈ headers := by
  fun_induction headerLines headers with
  | case1 => cases h
  | case2 name value rest hskip ih =>
    obtain ⟨v, hv⟩ := ih h
    exact ⟨v, List.mem_cons_of_mem _ hv⟩
  | case3 name value rest hskip ih =>
    rcases List.mem_cons.mp h with rfl | h
    · exact ⟨value, List.mem_cons_self⟩
    · obtain ⟨v, hv⟩ := ih h
      exact ⟨v, List.mem_cons_of_mem _ ((List.dropWhile_suffix _).sublist.mem hv)⟩

/-- A header that may not be unsigned and is present in one request is present in every other with
the same lines. -/
theorem Verified.containsKey_of_lines (hw : ctx.Verified E w signature)
    (hw' : ctx'.Verified E w' signature')
    (hlines : headerLines w.input.headers = headerLines w'.input.headers) {amz : Bytes}
    (hlower : Bytes.lowercase amz = amz) (hamz : mayBeUnsigned ctx.config amz = false)
    (h : containsKey ctx.hs amz = true) : containsKey ctx'.hs amz = true := by
  obtain ⟨value, hvalue⟩ : ∃ value, value ∈ ctx.hs.getAll amz := by
    apply List.exists_mem_of_ne_nil
    simpa [containsKey] using h
  have hentry := mem_getAll.mp hvalue
  rw [hlower] at hentry
  obtain ⟨line, hline, hname, -⟩ := hw.occurs hentry hamz
  rw [hlines] at hline
  obtain ⟨value', hheader⟩ := exists_header_of_line hline
  rw [(collectSignedHeaders_ok hw'.collected).1] at hheader
  obtain ⟨name, hnames, hheader⟩ := List.mem_flatMap.mp hheader
  obtain ⟨v, hv, heq⟩ := List.mem_map.mp hheader
  obtain ⟨rfl, rfl⟩ := Prod.mk.inj heq
  rw [eqIgnoreAsciiCase, beq_iff_eq, hlower] at hname
  have hvalues := (hw'.values hnames hname (name_of_mayBeUnsigned_false hname hamz).2).2
  simpa [containsKey] using hvalues

theorem Verified.containsKey_eq (hw : ctx.Verified E w signature)
    (hw' : ctx'.Verified E w' signature')
    (hlines : headerLines w.input.headers = headerLines w'.input.headers) {amz : Bytes}
    (hlower : Bytes.lowercase amz = amz) (hamz : mayBeUnsigned ctx.config amz = false)
    (hamz' : mayBeUnsigned ctx'.config amz = false) :
    containsKey ctx.hs amz = containsKey ctx'.hs amz := by
  rw [Bool.eq_iff_iff]
  constructor
  · exact hw.containsKey_of_lines hw' hlines hlower hamz
  · exact hw'.containsKey_of_lines hw hlines.symm hlower hamz'

end SignatureContext

section Bound

open SignatureContext

variable {ε : Type} {E : Environment ε} {R : RoutingSettings} {ccx : CallContext}
  {req : Request (ArrivingBody ε)} {t : Target (ArrivingBody ε)}

/-- What the types of a request guarantee: no line feed in the method, the path, the authority and
the values of headers, and tokens as the names of headers. -/
structure Request.Arrived {β : Type} (req : Request β) : Prop where
  method : lf ∉ req.method
  path : lf ∉ req.path
  headers : ValidHeaders req.headers.entries
  authority : ∀ authority ∈ req.authority, lf ∉ authority

/-- The context of the check of a target, with the lengths it is called with. -/
def Target.context (E : Environment ε) (ccx : CallContext) (t : Target (ArrivingBody ε))
    (contentLength decodedContentLength : Option Nat) : SignatureContext ε :=
  signatureContext E ccx t.request t.decodedUriPath contentLength decodedContentLength

theorem Request.Arrived.injectHostHeader {β : Type} {req : Request β} (h : req.Arrived) :
    ValidHeaders (injectHostHeader req).headers.entries := by
  unfold Ops.injectHostHeader
  split
  · exact h.headers
  · split
    · next authority hauthority =>
      split
      · intro e he
        rcases List.mem_append.mp he with he | he
        · exact h.headers e he
        · rw [List.mem_singleton.mp he]
          have hmem : authority ∈ req.authority := by
            unfold extractHttp2Authority at hauthority
            split at hauthority
            · exact hauthority
            · cases hauthority
          exact ⟨(by decide : ascii "host" ≠ []),
            (by decide : (ascii "host").all AwsChunked.isTokenChar = true), h.authority authority hmem⟩
      · exact h.headers
    · exact h.headers

theorem Prepared.fromHttp (h : Prepared E R req t) (hreq : req.Arrived)
    (contentLength decodedContentLength : Option Nat) :
    (t.context E ccx contentLength decodedContentLength).FromHttp E := by
  have hmethod : lf ∉ t.request.method := h.method ▸ hreq.method
  have hpath : lf ∉ t.request.path := h.path ▸ hreq.path
  have hheaders : ValidHeaders t.request.headers.entries := h.headers ▸ hreq.injectHostHeader
  have hauthority : ∀ authority ∈ t.request.authority, lf ∉ authority := h.authority ▸ hreq.authority
  exact ⟨hmethod, hpath, h.decoded, hheaders, hauthority⟩

theorem Prepared.queryPairs (h : Prepared E R req t) (contentLength decodedContentLength : Option Nat) :
    (t.context E ccx contentLength decodedContentLength).queryPairs = (t.qs.getD .empty).qs := by
  have hqs : (t.context E ccx contentLength decodedContentLength).qs = t.qs.map (·.qs) := h.qs
  rw [SignatureContext.queryPairs, hqs]
  cases t.qs <;> rfl

/-- The headers the router asks for. -/
def routedHeaders : List Bytes :=
  [ascii "x-amz-copy-source", ascii "x-amz-request-route", ascii "x-amz-request-token"]

/-- Two requests that are accepted with one string to sign have the same target exactly when their
hosts name the same bucket and, where their operation is not declared, the router finds the same
answers in their headers; which it does unless one of the headers it asks for may be unsigned. -/
theorem target_bound_iff (E : Environment ε) (S : CheckSettings) (R : RoutingSettings)
    (ccx : CallContext) (req req' : Request (ArrivingBody ε)) (query query' : Option Bytes)
    (t t' : Target (ArrivingBody ε)) (contentLength decodedContentLength : Option Nat)
    (contentLength' decodedContentLength' : Option Nat) (arm arm' : V4Arm)
    (w w' : SignatureContext.Verification) (raw raw' : Bool) (hreq : req.Arrived)
    (hreq' : req'.Arrived) (ht : prepareTarget E R req query = .ok t)
    (ht' : prepareTarget E R req' query' = .ok t')
    (haccepts : (t.context E ccx contentLength decodedContentLength).Accepts E S arm)
    (haccepts' : (t'.context E ccx contentLength' decodedContentLength').Accepts E S arm')
    (hver : (t.context E ccx contentLength decodedContentLength).verification E S arm = .ok w)
    (hver' : (t'.context E ccx contentLength' decodedContentLength').verification E S arm' = .ok w')
    (hadmits : w.input.Admits raw) (hadmits' : w'.input.Admits raw')
    (hsigned : w.stringToSign E.externals.toCrypto raw = w'.stringToSign E.externals.toCrypto raw')
    (hfree : Set.InjOn E.externals.toCrypto.sha256 {w.input.render raw, w'.input.render raw'}) :
    ((t.s3Path = t'.s3Path ∧ (t.operation R).toOption = (t'.operation R).toOption) ↔
      SameBucket R.normalizeForwardSlashPath t.decodedUriPath t.vhBucket t'.vhBucket ∧
        (t.Declares R ∨ SameHeaders t.request.method (t.qs.getD .empty) t.request.headers
          t'.request.headers t.s3Path)) ∧
    ((∀ name ∈ routedHeaders, name ∉ ccx.config.unsignedAmzHeaderAllowlist) →
      SameHeaders t.request.method (t.qs.getD .empty) t.request.headers t'.request.headers
        t.s3Path) := by
  have hp := prepareTarget_ok ht
  have hp' := prepareTarget_ok ht'
  obtain ⟨w₀, signature, hver₀, hw⟩ := accepts_verified haccepts
  obtain rfl : w₀ = w := Except.ok.inj (hver₀.symm.trans hver)
  obtain ⟨w₀', signature', hver₀', hw'⟩ := accepts_verified haccepts'
  obtain rfl : w₀' = w' := Except.ok.inj (hver₀'.symm.trans hver')
  have hrender := hfree (Or.inl rfl) (Or.inr rfl) (sha256_eq_of_createStringToSign_eq hsigned)
  have hsame := CanonicalInput.SameRequest.of_render_eq (hw.wellFormed (hp.fromHttp hreq _ _))
    (hw'.wellFormed (hp'.fromHttp hreq' _ _)) hadmits hadmits' hrender
  have hmethod : t.request.method = t'.request.method :=
    hw.method.symm.trans (hsame.method.trans hw'.method)
  have hdecoded : t.decodedUriPath = t'.decodedUriPath :=
    hw.decodedPath.symm.trans (hsame.decodedPath.trans hw'.decodedPath)
  have hvalues : ∀ name, name ≠ ascii "X-Amz-Signature" →
      SameValues (t.qs.getD .empty) (t'.qs.getD .empty) name := by
    intro name hname
    have hperm := hw.valuesOf_perm hw' hsame.query hname
    rwa [hp.queryPairs, hp'.queryPairs] at hperm
  have hqs : SameRoute (t.qs.getD .empty) (t'.qs.getD .empty) := by
    have hnames : ∀ name ∈ routedNames ++ routedValues, name ≠ ascii "X-Amz-Signature" := by
      decide +kernel
    constructor
    · intro name hname
      exact (hvalues name (hnames name (List.mem_append_left _ hname))).has_eq
    · intro name hname
      exact (hvalues name (hnames name (List.mem_append_right _ hname))).lookup_eq
  have hbucket := parseVirtualHostedStyle_eq_iff (classifyRequestPath_ok hp.s3Path)
    (hdecoded ▸ classifyRequestPath_ok hp'.s3Path)
  constructor
  · rw [← hbucket]
    constructor
    · rintro ⟨hpath, hoperation⟩
      exact ⟨hpath, (operation_eq_iff hmethod hpath hqs).mp hoperation⟩
    · rintro ⟨hpath, hheaders⟩
      exact ⟨hpath, (operation_eq_iff hmethod hpath hqs).mpr hheaders⟩
  · intro hallowed
    have hcontains : ∀ name ∈ routedHeaders,
        containsKey t.request.headers name = containsKey t'.request.headers name := by
      intro name hname
      have hrouted : ∀ name ∈ routedHeaders, Bytes.lowercase name = name ∧
          (ascii "x-amz-").isPrefixOf name = true ∧ name ≠ ascii "x-amz-content-sha256" := by
        decide
      obtain ⟨hlower, hprefix, hne⟩ := hrouted name hname
      have hunsigned : mayBeUnsigned ccx.config name = false := by
        simp only [mayBeUnsigned, hprefix, beq_eq_false_iff_ne.mpr hne, Bool.not_true, Bool.or_self,
          Bool.false_or, List.any_eq_false, beq_iff_eq]
        rintro allowed hmem rfl
        exact hallowed allowed hname hmem
      exact hw.containsKey_eq hw' hsame.headers hlower hunsigned hunsigned
    simp only [routedHeaders, List.forall_mem_cons] at hcontains
    obtain ⟨hcopy, hroute, htoken, -⟩ := hcontains
    cases hpath : t.s3Path with
    | root => trivial
    | bucket bucket => exact fun _ => Or.inr (by rw [hroute, htoken])
    | object bucket key => exact fun _ => Or.inr hcopy

section Sample

/-- A download of `c` whose signature covers the date and nothing else of the headers. -/
def sampleHostHeaders (host : Bytes) : HeaderMap :=
  headerMapOf [(ascii "host", host),
    (ascii "x-amz-date", ascii "20130524T000000Z"),
    (ascii "x-amz-content-sha256", ascii "UNSIGNED-PAYLOAD"),
    (ascii "authorization",
      ascii "AWS4-HMAC-SHA256 Credential=AKID/20130524/us-east-1/s3/aws4_request, " ++
        ascii "SignedHeaders=x-amz-date, Signature=" ++
        ascii "2c1054c08d0fab29d5c0e98372fa977318a8672842b5c2a6441a73a06fe1d56b")]

/-- SHA-256 and HMAC-SHA-256 where this request uses them. -/
def sampleHostCrypto : Crypto :=
  .tabulated
    [(ascii "GET\n/c\n\nx-amz-date:20130524T000000Z\n\nx-amz-date\nUNSIGNED-PAYLOAD",
      .ofHexText "f6ed849fe05eae4255e9ca332ad20897c43549b27a0a49b23e93a5e07f354809")]
    [(ascii "20130524",
        .ofHexText "a5a91d94fa9a905c91e89aa51df0d86aef33adf77e97d146ae28e8d85d0df909"),
      (ascii "us-east-1",
        .ofHexText "3b12cdd05572d1f20f218215a2283037775c946bf8a4223c1211d2b4e40442ee"),
      (ascii "s3",
        .ofHexText "a8eeee41dfc396fa246b20ce1345d53f4173e9787f535a924ffa6718925a9ad0"),
      (ascii "aws4_request",
        .ofHexText "f117494eff5d09da21cbf7f0339559ea04fc9582d31299cb992be70a6b27c97a"),
      (ascii "AWS4-HMAC-SHA256\n20130524T000000Z\n20130524/us-east-1/s3/aws4_request\n" ++
          ascii "f6ed849fe05eae4255e9ca332ad20897c43549b27a0a49b23e93a5e07f354809",
        .ofHexText "2c1054c08d0fab29d5c0e98372fa977318a8672842b5c2a6441a73a06fe1d56b")]

def sampleHostEnvironment : Environment Unit :=
  { sampleEnvironment with externals := AwsChunked.reference sampleHostCrypto }

/-- A service at `example.com`. -/
def sampleRouting : RoutingSettings where
  host := some (SingleDomain.parseHostHeader ⟨ascii "example.com", true, by decide⟩)
  validation := none
  normalizeForwardSlashPath := false
  operationIdRouting := true
  minio := false
  decodeQuery _ := none

def sampleHostCallContext : CallContext where
  auth := some fun _ => .ok (ascii "wJalrXUtnFEMI/K7MDENG+bPxRfiCYEXAMPLEKEY")
  config := sampleConfig
  now := 1369353600 * 10 ^ 9

def sampleHostRequest (host : Bytes) : Request (ArrivingBody Unit) where
  version := .http11
  method := ascii "GET"
  path := ascii "/c"
  authority := none
  headers := sampleHostHeaders host
  body := ⟨.empty, none⟩
  qs := none

/-- The target of the request, when the host names a bucket. -/
def sampleTarget (host bucket : Bytes) : Target (ArrivingBody Unit) where
  request := sampleHostRequest host
  hostHeader := some host
  vh := some ⟨ascii "example.com", some bucket, none⟩
  decodedUriPath := ascii "/c"
  s3Path := .object bucket (ascii "c")
  qs := none

theorem prepareTarget_sample {host bucket : Bytes}
    (hhost : extractHost (sampleHostRequest host) sampleHostEnvironment = .ok (some host))
    (hvh : parseRequestHost sampleRouting.host (some host) =
      .ok (some ⟨ascii "example.com", some bucket, none⟩))
    (hpath : classifyRequestPath sampleRouting (ascii "/c") (some bucket) =
      .ok (.object bucket (ascii "c"))) :
    prepareTarget sampleHostEnvironment sampleRouting (sampleHostRequest host) none =
      .ok (sampleTarget host bucket) := by
  have hinject : injectHostHeader (sampleHostRequest host) = sampleHostRequest host := if_pos rfl
  have hdecode : sampleHostEnvironment.urlDecode (sampleHostRequest host).path =
    some (ascii "/c") := rfl
  unfold prepareTarget
  rw [hinject]
  refine bind_eq_ok.mpr ⟨_, hhost, ?_⟩
  rw [hdecode]
  exact bind_eq_ok.mpr ⟨_, hvh, bind_eq_ok.mpr ⟨_, hpath, rfl⟩⟩

/-- Three hosts: two buckets, and the first bucket again under a port. -/
theorem sampleTargets_prepared :
    prepareTarget sampleHostEnvironment sampleRouting
        (sampleHostRequest (ascii "aaa.example.com")) none =
      .ok (sampleTarget (ascii "aaa.example.com") (ascii "aaa")) ∧
    prepareTarget sampleHostEnvironment sampleRouting
        (sampleHostRequest (ascii "bbb.example.com")) none =
      .ok (sampleTarget (ascii "bbb.example.com") (ascii "bbb")) ∧
    prepareTarget sampleHostEnvironment sampleRouting
        (sampleHostRequest (ascii "aaa.example.com:9000")) none =
      .ok (sampleTarget (ascii "aaa.example.com:9000") (ascii "aaa")) := by
  refine ⟨prepareTarget_sample ?_ ?_ ?_, prepareTarget_sample ?_ ?_ ?_,
    prepareTarget_sample ?_ ?_ ?_⟩
  all_goals decide +kernel

/-- The verification of these requests, which their hosts take no part in. -/
def sampleHostVerification : SignatureContext.Verification where
  names := [ascii "x-amz-date"]
  input :=
    { method := ascii "GET"
      rawPath := ascii "/c"
      decodedPath := ascii "/c"
      query := []
      headers := [(ascii "x-amz-date", ascii "20130524T000000Z")]
      payload := .unsigned }
  verifier :=
    { expectedSignature := ascii "2c1054c08d0fab29d5c0e98372fa977318a8672842b5c2a6441a73a06fe1d56b"
      rawUriPath := ascii "/c"
      secretKey := ascii "wJalrXUtnFEMI/K7MDENG+bPxRfiCYEXAMPLEKEY"
      amzDate := ⟨2013, 5, 24, 0, 0, 0⟩
      region := ascii "us-east-1"
      service := ascii "s3" }

def sampleHostContext (host bucket : Bytes) : SignatureContext Unit :=
  (sampleTarget host bucket).context sampleHostEnvironment sampleHostCallContext (some 0) none

theorem sampleHostContext_accepted {host bucket : Bytes}
    (h : ((sampleHostContext host bucket).v4CheckHeaderAuth sampleHostEnvironment).isOk = true) :
    (sampleHostContext host bucket).Accepts sampleHostEnvironment sampleCheckSettings
      .headerAuth := by
  cases hcheck : (sampleHostContext host bucket).v4CheckHeaderAuth sampleHostEnvironment with
  | ok r => exact ⟨r.1, r.2, hcheck⟩
  | error e =>
    rw [hcheck] at h
    cases h

theorem sampleHostContexts_checks :
    (((sampleHostContext (ascii "aaa.example.com") (ascii "aaa")).v4CheckHeaderAuth
          sampleHostEnvironment).isOk = true ∧
        ((sampleHostContext (ascii "bbb.example.com") (ascii "bbb")).v4CheckHeaderAuth
          sampleHostEnvironment).isOk = true ∧
        ((sampleHostContext (ascii "aaa.example.com:9000") (ascii "aaa")).v4CheckHeaderAuth
          sampleHostEnvironment).isOk = true) ∧
      (sampleHostContext (ascii "aaa.example.com") (ascii "aaa")).verification sampleHostEnvironment
          sampleCheckSettings .headerAuth = .ok sampleHostVerification ∧
      (sampleHostContext (ascii "bbb.example.com") (ascii "bbb")).verification sampleHostEnvironment
          sampleCheckSettings .headerAuth = .ok sampleHostVerification ∧
      (sampleHostContext (ascii "aaa.example.com:9000") (ascii "aaa")).verification
          sampleHostEnvironment sampleCheckSettings .headerAuth = .ok sampleHostVerification := by
  decide +kernel

theorem sampleHostContexts_accepted :
    (sampleHostContext (ascii "aaa.example.com") (ascii "aaa")).Accepts sampleHostEnvironment
        sampleCheckSettings .headerAuth ∧
      (sampleHostContext (ascii "bbb.example.com") (ascii "bbb")).Accepts sampleHostEnvironment
        sampleCheckSettings .headerAuth ∧
      (sampleHostContext (ascii "aaa.example.com:9000") (ascii "aaa")).Accepts sampleHostEnvironment
        sampleCheckSettings .headerAuth :=
  ⟨sampleHostContext_accepted sampleHostContexts_checks.1.1,
    sampleHostContext_accepted sampleHostContexts_checks.1.2.1,
    sampleHostContext_accepted sampleHostContexts_checks.1.2.2⟩

theorem sampleHostContexts_verification :
    (sampleHostContext (ascii "aaa.example.com") (ascii "aaa")).verification sampleHostEnvironment
        sampleCheckSettings .headerAuth = .ok sampleHostVerification ∧
      (sampleHostContext (ascii "bbb.example.com") (ascii "bbb")).verification sampleHostEnvironment
        sampleCheckSettings .headerAuth = .ok sampleHostVerification ∧
      (sampleHostContext (ascii "aaa.example.com:9000") (ascii "aaa")).verification
        sampleHostEnvironment sampleCheckSettings .headerAuth = .ok sampleHostVerification :=
  sampleHostContexts_checks.2

theorem sampleHostRequest_arrived {host : Bytes}
    (h : ValidHeaders (sampleHostHeaders host).entries) : (sampleHostRequest host).Arrived where
  method := (by decide : lf ∉ ascii "GET")
  path := (by decide : lf ∉ ascii "/c")
  headers := h
  authority := nofun

/-- The port of the host is not signed, and the target is the same. -/
theorem target_bound_iff_sample :
    (sampleTarget (ascii "aaa.example.com") (ascii "aaa")).s3Path =
        (sampleTarget (ascii "aaa.example.com:9000") (ascii "aaa")).s3Path ∧
      ((sampleTarget (ascii "aaa.example.com") (ascii "aaa")).operation sampleRouting).toOption =
        ((sampleTarget (ascii "aaa.example.com:9000") (ascii "aaa")).operation
          sampleRouting).toOption := by
  obtain ⟨hprepared, -, hprepared'⟩ := sampleTargets_prepared
  obtain ⟨haccepts, -, haccepts'⟩ := sampleHostContexts_accepted
  obtain ⟨hver, -, hver'⟩ := sampleHostContexts_verification
  have hbound := target_bound_iff sampleHostEnvironment sampleCheckSettings sampleRouting
    sampleHostCallContext _ _ none none _ _ (some 0) none (some 0) none .headerAuth .headerAuth _ _
    false false (sampleHostRequest_arrived (by decide +kernel))
    (sampleHostRequest_arrived (by decide +kernel)) hprepared hprepared' haccepts haccepts' hver
    hver' nofun nofun rfl (by simp)
  exact hbound.1.mpr ⟨rfl, Or.inr (hbound.2 nofun)⟩

/-- One signature, accepted for two buckets. -/
theorem host_selects_bucket :
    prepareTarget sampleHostEnvironment sampleRouting
        (sampleHostRequest (ascii "aaa.example.com")) none =
      .ok (sampleTarget (ascii "aaa.example.com") (ascii "aaa")) ∧
    prepareTarget sampleHostEnvironment sampleRouting
        (sampleHostRequest (ascii "bbb.example.com")) none =
      .ok (sampleTarget (ascii "bbb.example.com") (ascii "bbb")) ∧
    (sampleHostContext (ascii "aaa.example.com") (ascii "aaa")).Accepts sampleHostEnvironment
      sampleCheckSettings .headerAuth ∧
    (sampleHostContext (ascii "bbb.example.com") (ascii "bbb")).Accepts sampleHostEnvironment
      sampleCheckSettings .headerAuth ∧
    (∃ w w', (sampleHostContext (ascii "aaa.example.com") (ascii "aaa")).verification
          sampleHostEnvironment sampleCheckSettings .headerAuth = .ok w ∧
        (sampleHostContext (ascii "bbb.example.com") (ascii "bbb")).verification
          sampleHostEnvironment sampleCheckSettings .headerAuth = .ok w' ∧
        w.stringToSign sampleHostCrypto false = w'.stringToSign sampleHostCrypto false) ∧
    (sampleTarget (ascii "aaa.example.com") (ascii "aaa")).s3Path =
      .object (ascii "aaa") (ascii "c") ∧
    (sampleTarget (ascii "bbb.example.com") (ascii "bbb")).s3Path =
      .object (ascii "bbb") (ascii "c") := by
  obtain ⟨hprepared, hprepared', -⟩ := sampleTargets_prepared
  obtain ⟨haccepts, haccepts', -⟩ := sampleHostContexts_accepted
  obtain ⟨hver, hver', -⟩ := sampleHostContexts_verification
  exact ⟨hprepared, hprepared', haccepts, haccepts', ⟨_, _, hver, hver', rfl⟩, rfl, rfl⟩

end Sample

end Bound

end S3s.Ops
