import S3s.Ops.ReplayWindows

/-! # What a signature of version 2 says about the operation

The resource of the string to sign names the bucket and the path, and the parameters
of a fixed list that occur once. The router asks for other parameters too, and does
not mind when one is repeated; only where these agree is the operation bound.
-/
namespace S3s.Ops
open Http SigV4 Routing Sorted SignatureContext

/-- A text that stands for itself in a path: characters of ASCII other than a slash, a percent sign
and a question mark. -/
def PlainName (s : Bytes) : Prop := ∀ b ∈ s, b < 0x80 ∧ b ≠ 47 ∧ b ≠ 37 ∧ b ≠ 63

instance (s : Bytes) : Decidable (PlainName s) := inferInstanceAs (Decidable (∀ b ∈ s, _))

/-- Percent-decoding leaves a text without a percent sign as it is. -/
structure DecodesPlain (urlDecode : Bytes → Option Bytes) : Prop where
  nil : urlDecode [] = some []
  append : ∀ s t, (∀ b ∈ s, b < 0x80 ∧ b ≠ 37) → urlDecode (s ++ t) = (urlDecode t).map (s ++ ·)

/-- What the types of a request guarantee to the checks of version 2, beside what they guarantee to
those of version 4: the path has one of the forms of `Uri`, and does not hold the query. -/
structure Request.ArrivedV2 {β : Type} (req : Request β) : Prop extends Request.Arrived req where
  form : SigV2.UriPath req.path
  noQuery : 63 ∉ req.path

namespace SignatureContext

variable {ε : Type} {E : Environment ε} {S S' : CheckSettings} {V : V2Externals}
  {ctx ctx' : SignatureContext ε}

/-- The request is accepted by the check of the mode. -/
def AcceptsV2 (E : Environment ε) (S : CheckSettings) (V : V2Externals) (ctx : SignatureContext ε) :
    SigV2.Mode → Prop
  | .headerAuth => ∃ authV2 credentials body, ctx.v2CheckHeaderAuth E S V authV2 = .ok (credentials, body)
  | .presignedUrl => ∃ credentials body, ctx.v2CheckPresignedUrl S V = .ok (credentials, body)

theorem lf_not_mem_of_parseUnixTimestamp {s : Bytes} {time : Int}
    (h : SigV2.parseUnixTimestamp s = some time) : lf ∉ s := by
  have hdigits : ∀ digits : Bytes,
      ¬ (digits.isEmpty || digits.any fun b => !Bytes.isDigit b) = true → lf ∉ digits := by
    intro digits hany hmem
    apply hany
    rw [Bool.or_eq_true]
    exact Or.inr (List.any_eq_true.mpr ⟨lf, hmem, by decide⟩)
  unfold SigV2.parseUnixTimestamp at h
  dsimp only at h
  split at h
  · next hsign =>
    split at h
    · cases h
    · next hrest =>
      cases s with
      | nil => exact List.not_mem_nil
      | cons b s =>
        intro hmem
        rcases List.mem_cons.mp hmem with rfl | hmem
        · simp [lf] at hsign
        · exact hdigits s hrest hmem
  · split at h
    · cases h
    · next hrest => exact hdigits s hrest

/-- The date of an accepted request is one line. -/
theorem AcceptsV2.lf_not_mem_dateLine {mode : SigV2.Mode} (h : ctx.AcceptsV2 E S V mode)
    (hctx : ctx.Arrived) {headers : List (Bytes × Bytes)}
    (hheaders : sigV2Headers ctx.hs.entries = .ok headers) :
    lf ∉ SigV2.dateLine mode ctx.qs headers := by
  cases mode with
  | headerAuth => exact lf_not_mem_headerDateLine (hctx.sigV2Headers hheaders).1 _
  | presignedUrl =>
    obtain ⟨credentials, body, h⟩ := h
    obtain ⟨presignedUrl, -, hparse, -⟩ := v2CheckPresignedUrl_ok h
    exact lf_not_mem_of_parseUnixTimestamp (v2Expires_signed hctx hparse headers)

/-- An `x-amz-*` header is present exactly when it has a line. -/
theorem containsKey_iff_amzLine {headers : List (Bytes × Bytes)} {name : Bytes}
    (hheaders : sigV2Headers ctx.hs.entries = .ok headers) (hlower : Bytes.lowercase name = name)
    (hamz : (ascii "x-amz-").isPrefixOf name = true) :
    containsKey ctx.hs name = true ↔
      ∃ line ∈ SigV2.amzLines (SigV2.amzHeaders headers), line.1 = name := by
  obtain ⟨rfl, hread⟩ := sigV2Headers_ok hheaders
  rw [SigV2.exists_amzLine_iff]
  have hcontains : containsKey ctx.hs name = true ↔ ∃ e ∈ ctx.hs.entries, e.1 = name := by
    unfold containsKey HeaderMap.getAll
    rw [hlower]
    simp [List.filter_eq_nil_iff]
  rw [hcontains]
  constructor
  · rintro ⟨e, he, rfl⟩
    refine ⟨e, (SigV2.amzHeaders_perm _).mem_iff.mpr ?_, rfl⟩
    exact List.mem_filter.mpr ⟨List.mem_filter.mpr ⟨he, hread e he hamz⟩, hamz⟩
  · rintro ⟨e, he, rfl⟩
    have hmem := (SigV2.amzHeaders_perm _).mem_iff.mp he
    exact ⟨e, (List.mem_filter.mp (List.mem_filter.mp hmem).1).1, rfl⟩

end SignatureContext

section Paths

variable {validate : Bytes → Bool} {normalizePath : Bool} {urlDecode : Bytes → Option Bytes}

theorem DecodesPlain.cons_slash (h : DecodesPlain urlDecode) (path : Bytes) :
    urlDecode (47 :: path) = (urlDecode path).map (47 :: ·) := by
  have hslash : ∀ b ∈ [47], (b : UInt8) < 0x80 ∧ b ≠ 37 := by simp
  exact h.append [47] path hslash

/-- A path that leads anywhere begins with a slash. -/
theorem head_of_parseVirtualHostedStyle {vhBucket : Option Bytes} {uriPath : Bytes} {path : S3Path}
    (h : parseVirtualHostedStyle validate normalizePath vhBucket uriPath = .ok path) :
    ∃ rest, uriPath = 47 :: rest := by
  cases vhBucket with
  | none =>
    obtain ⟨h, -⟩ | ⟨bucket, -, -, ⟨⟨h, -⟩ | h, -⟩ | ⟨key, -, h, -⟩⟩ := parsePathStyle_ok h
    · exact ⟨_, h⟩
    · exact ⟨_, h⟩
    · exact ⟨_, h⟩
    · exact ⟨_, h⟩
  | some bucket =>
    obtain ⟨-, ⟨h, -⟩ | ⟨key, -, h, -⟩⟩ := parseVirtualHostedStyle_ok h
    · exact ⟨_, h⟩
    · exact ⟨_, h⟩

/-- Such a path is received with the slash in front. -/
theorem DecodesPlain.slash_of_form (h : DecodesPlain urlDecode) {path rest : Bytes}
    (hform : SigV2.UriPath path) (hdecoded : urlDecode path = some (47 :: rest)) :
    ∃ raw, path = 47 :: raw ∧ urlDecode raw = some rest := by
  rcases hform with rfl | rfl | hhead
  · rw [h.nil] at hdecoded
    cases hdecoded
  · have hstar : urlDecode (ascii "*" ++ []) = _ := h.append (ascii "*") [] (by decide +kernel)
    rw [List.append_nil, hdecoded, h.nil] at hstar
    cases hstar
  · obtain ⟨raw, rfl⟩ : ∃ raw, path = 47 :: raw := by
      cases path with
      | nil => cases hhead
      | cons b raw => exact ⟨raw, by simpa using hhead⟩
    refine ⟨raw, rfl, ?_⟩
    rw [h.cons_slash, Option.map_eq_some_iff] at hdecoded
    obtain ⟨s, hs, heq⟩ := hdecoded
    rw [hs, List.tail_eq_of_cons_eq heq]

/-- A path in front of which the bucket of the host is written names the same object in path
style. -/
theorem s3Path_eq_of_resourcePath (hdecode : DecodesPlain urlDecode) {path path' decoded decoded' : Bytes}
    {vhBucket vhBucket' : Option Bytes} {s3Path s3Path' : S3Path}
    (hbuckets : ∀ bucket, validate bucket = true → PlainName bucket)
    (hform : SigV2.UriPath path) (hform' : SigV2.UriPath path')
    (hdecoded : urlDecode path = some decoded) (hdecoded' : urlDecode path' = some decoded')
    (h : parseVirtualHostedStyle validate normalizePath vhBucket decoded = .ok s3Path)
    (h' : parseVirtualHostedStyle validate normalizePath vhBucket' decoded' = .ok s3Path')
    (hsame : SigV2.resourcePath path vhBucket = SigV2.resourcePath path' vhBucket') :
    s3Path = s3Path' := by
  have hstyle : ∀ {path decoded : Bytes} {vhBucket : Option Bytes} {s3Path : S3Path},
      SigV2.UriPath path → urlDecode path = some decoded →
      parseVirtualHostedStyle validate normalizePath vhBucket decoded = .ok s3Path →
      ∃ uriPath, urlDecode (SigV2.resourcePath path vhBucket) = some uriPath ∧
        parsePathStyle validate normalizePath uriPath = .ok s3Path := by
    intro path decoded vhBucket s3Path hform hdecoded h
    obtain ⟨rest, rfl⟩ := head_of_parseVirtualHostedStyle h
    obtain ⟨raw, rfl, hraw⟩ := hdecode.slash_of_form hform hdecoded
    cases vhBucket with
    | none => exact ⟨_, hdecoded, h⟩
    | some bucket =>
      have hvalid := (parseVirtualHostedStyle_ok h).1
      have hplain := hbuckets bucket hvalid
      have hslash : 47 ∉ bucket := fun hmem => (hplain 47 hmem).2.1 rfl
      refine ⟨47 :: (bucket ++ 47 :: rest), ?_, ?_⟩
      · rw [SigV2.resourcePath, hdecode.cons_slash,
          hdecode.append bucket _ fun b hb => ⟨(hplain b hb).1, (hplain b hb).2.2.1⟩, hdecoded]
        rfl
      · rw [← parseVirtualHostedStyle_eq_pathStyle hslash]
        exact h
  obtain ⟨uriPath, huri, hpath⟩ := hstyle hform hdecoded h
  obtain ⟨uriPath', huri', hpath'⟩ := hstyle hform' hdecoded' h'
  rw [hsame, huri'] at huri
  cases huri
  exact Except.ok.inj (hpath.symm.trans hpath')

end Paths

section Bound

variable {ε : Type} {E : Environment ε} {R : RoutingSettings} {S : CheckSettings} {V : V2Externals}
  {ccx : CallContext}

/-- The parameters of the list that the router asks for occur no more than once. -/
def Unrepeated (q : OrderedQs) : Prop :=
  ∀ name ∈ routedNames ++ routedValues, name ∈ SigV2.includedQuery → q.lookup name ≠ .duplicate

/-- The parameters the router asks for and no signature covers: present in both queries or in none,
and with the same value where the value counts. -/
structure SameUnsigned (q q' : OrderedQs) : Prop where
  has : ∀ name ∈ routedNames, name ∉ SigV2.includedQuery → q.has name = q'.has name
  lookup : ∀ name ∈ routedValues, name ∉ SigV2.includedQuery → q.lookup name = q'.lookup name

theorem lookup_eq_of_getUnique {q q' : OrderedQs} {name : Bytes}
    (h : q.getUnique name = q'.getUnique name) (hq : q.lookup name ≠ .duplicate)
    (hq' : q'.lookup name ≠ .duplicate) : q.lookup name = q'.lookup name := by
  rw [q.getUnique_eq, q'.getUnique_eq] at h
  rw [q.lookup_eq] at hq ⊢
  rw [q'.lookup_eq] at hq' ⊢
  generalize valuesOf q.qs name = vs at h hq ⊢
  generalize valuesOf q'.qs name = vs' at h hq' ⊢
  match vs, vs' with
  | [], [] => rfl
  | [v], [v'] => rw [Option.some.inj h]
  | [], [v'] => cases h
  | [v], [] => cases h
  | _ :: _ :: _, _ => exact (hq rfl).elim
  | _, _ :: _ :: _ => exact (hq' rfl).elim

theorem has_eq_of_lookup {q q' : OrderedQs} {name : Bytes} (h : q.lookup name = q'.lookup name) :
    q.has name = q'.has name := by
  have hhas : ∀ q : OrderedQs, q.has name = decide (q.lookup name ≠ .absent) := by
    intro q
    rw [q.has_eq, q.lookup_eq]
    cases valuesOf q.qs name with
    | nil => rfl
    | cons v vs => cases vs <;> rfl
  rw [hhas, hhas, h]

/-- Queries with the same signed parameters are the same to the router when those agree that are not
signed. -/
theorem sameRoute_of_getUnique {q q' : OrderedQs}
    (h : ∀ name ∈ SigV2.includedQuery, q.getUnique name = q'.getUnique name) (hq : Unrepeated q)
    (hq' : Unrepeated q') (hunsigned : SameUnsigned q q') : SameRoute q q' := by
  have hlookup : ∀ name ∈ routedNames ++ routedValues, name ∈ SigV2.includedQuery →
      q.lookup name = q'.lookup name := by
    intro name hname hincluded
    exact lookup_eq_of_getUnique (h name hincluded) (hq name hname hincluded)
      (hq' name hname hincluded)
  constructor
  · intro name hname
    by_cases hincluded : name ∈ SigV2.includedQuery
    · exact has_eq_of_lookup (hlookup name (List.mem_append_left _ hname) hincluded)
    · exact hunsigned.has name hname hincluded
  · intro name hname
    by_cases hincluded : name ∈ SigV2.includedQuery
    · exact hlookup name (List.mem_append_right _ hname) hincluded
    · exact hunsigned.lookup name hname hincluded

/-- The settings of the checks for a target. -/
def Target.settings {β : Type} (S : CheckSettings) (t : Target β) : CheckSettings :=
  { S with vhBucket := t.vhBucket }

theorem Prepared.arrivedV2 {req : Request (ArrivingBody ε)} {t : Target (ArrivingBody ε)}
    (h : Prepared E R req t) (hreq : req.ArrivedV2) (contentLength decodedContentLength : Option Nat) :
    (t.context E ccx contentLength decodedContentLength).Arrived := by
  have hhttp : (t.context E ccx contentLength decodedContentLength).FromHttp E :=
    h.fromHttp hreq.toArrived contentLength decodedContentLength
  have hpath : (t.context E ccx contentLength decodedContentLength).rawUriPath = req.path := h.path
  have hqs : (t.context E ccx contentLength decodedContentLength).qs = t.qs.map (·.qs) := h.qs
  refine ⟨hhttp.method, hhttp.headers, hpath ▸ hreq.form, ?_⟩
  rw [hqs]
  intro qs hmem
  obtain ⟨q, -, rfl⟩ := Option.map_eq_some_iff.mp hmem
  exact q.ascending

/-- Two requests that are accepted with one string to sign of version 2 are about the same path, with
the same method and the same values of the listed parameters that occur once, when none of these holds
an ampersand. They have the same operation when in addition the listed parameters the router asks for
are not repeated, and the others it asks for agree. -/
theorem v2_operation_bound (E : Environment ε) (S : CheckSettings) (R : RoutingSettings)
    (V : V2Externals) (ccx : CallContext) (req req' : Request (ArrivingBody ε))
    (query query' : Option Bytes) (t t' : Target (ArrivingBody ε))
    (contentLength decodedContentLength contentLength' decodedContentLength' : Option Nat)
    (mode mode' : SigV2.Mode) (stringToSign : Bytes) (hdecode : DecodesPlain E.urlDecode)
    (hbuckets : ∀ bucket, (R.validation.getD checkBucketName) bucket = true → PlainName bucket)
    (hreq : req.ArrivedV2) (hreq' : req'.ArrivedV2) (ht : prepareTarget E R req query = .ok t)
    (ht' : prepareTarget E R req' query' = .ok t')
    (haccepts : (t.context E ccx contentLength decodedContentLength).AcceptsV2 E (t.settings S) V mode)
    (haccepts' : (t'.context E ccx contentLength' decodedContentLength').AcceptsV2 E (t'.settings S) V
      mode')
    (hsigned : (t.context E ccx contentLength decodedContentLength).v2StringToSign (t.settings S) mode =
      .ok stringToSign)
    (hsigned' : (t'.context E ccx contentLength' decodedContentLength').v2StringToSign (t'.settings S)
      mode' = .ok stringToSign) :
    t.s3Path = t'.s3Path ∧ t.request.method = t'.request.method ∧
      (SigV2.PlainValues (t.qs.getD .empty).qs → SigV2.PlainValues (t'.qs.getD .empty).qs →
        (∀ name ∈ SigV2.includedQuery,
          (t.qs.getD .empty).getUnique name = (t'.qs.getD .empty).getUnique name) ∧
        (Unrepeated (t.qs.getD .empty) → Unrepeated (t'.qs.getD .empty) →
          SameUnsigned (t.qs.getD .empty) (t'.qs.getD .empty) →
          (t.operation R).toOption = (t'.operation R).toOption)) := by
  have hp := prepareTarget_ok ht
  have hp' := prepareTarget_ok ht'
  have hctx : (t.context E ccx contentLength decodedContentLength).Arrived :=
    hp.arrivedV2 hreq contentLength decodedContentLength
  have hctx' : (t'.context E ccx contentLength' decodedContentLength').Arrived :=
    hp'.arrivedV2 hreq' contentLength' decodedContentLength'
  obtain ⟨headers, hheaders, rfl⟩ := v2StringToSign_ok.mp hsigned
  obtain ⟨headers', hheaders', heq⟩ := v2StringToSign_ok.mp hsigned'
  obtain ⟨hmethod, -, hlines, hresource⟩ := SigV2.createStringToSign_inj hctx.method hctx'.method
    (hctx.sigV2Headers hheaders).1 (hctx'.sigV2Headers hheaders').1
    (haccepts.lf_not_mem_dateLine hctx hheaders) (haccepts'.lf_not_mem_dateLine hctx' hheaders')
    hctx.path hctx'.path heq
  have hmethod : t.request.method = t'.request.method := hmethod
  have hnoQuery : ∀ {req : Request (ArrivingBody ε)} {t : Target (ArrivingBody ε)}, req.ArrivedV2 →
      Prepared E R req t → 63 ∉ SigV2.resourcePath t.request.path t.vhBucket := by
    intro req t hreq hp
    have hpath : 63 ∉ t.request.path := hp.path ▸ hreq.noQuery
    cases hbucket : t.vhBucket with
    | none => exact hpath
    | some bucket =>
      have hs3Path := classifyRequestPath_ok hp.s3Path
      rw [hbucket] at hs3Path
      have hplain := hbuckets bucket (parseVirtualHostedStyle_ok hs3Path).1
      rw [SigV2.resourcePath, List.mem_cons, List.mem_append, not_or, not_or]
      exact ⟨by decide, fun h => (hplain 63 h).2.2.2 rfl, hpath⟩
  obtain ⟨hpath, hqs⟩ := SigV2.canonicalizedResource_inj (hnoQuery hreq hp) (hnoQuery hreq' hp')
    hresource
  have hs3Path : t.s3Path = t'.s3Path :=
    s3Path_eq_of_resourcePath hdecode hbuckets (hp.path ▸ hreq.form) (hp'.path ▸ hreq'.form) hp.decoded
      hp'.decoded (classifyRequestPath_ok hp.s3Path) (classifyRequestPath_ok hp'.s3Path) hpath
  have hpairs : ∀ {req : Request (ArrivingBody ε)} {t : Target (ArrivingBody ε)}, Prepared E R req t →
      t.request.qs.getD [] = (t.qs.getD .empty).qs := by
    intro req t hp
    rw [hp.qs]
    cases t.qs <;> rfl
  refine ⟨hs3Path, hmethod, fun hplain hplain' => ?_⟩
  have hunique : ∀ name ∈ SigV2.includedQuery,
      (t.qs.getD .empty).getUnique name = (t'.qs.getD .empty).getUnique name := by
    apply SigV2.resourceQuery_inj hplain hplain'
    rw [← hpairs hp, ← hpairs hp']
    exact hqs
  refine ⟨hunique, fun hrepeat hrepeat' hunsigned => ?_⟩
  have hroute := sameRoute_of_getUnique hunique hrepeat hrepeat' hunsigned
  rw [operation_eq_iff hmethod hs3Path hroute]
  right
  have hcontains : ∀ name ∈ routedHeaders,
      containsKey t.request.headers name = containsKey t'.request.headers name := by
    intro name hname
    have hamz : ∀ name ∈ routedHeaders, Bytes.lowercase name = name ∧
        (ascii "x-amz-").isPrefixOf name = true := by decide
    rw [Bool.eq_iff_iff]
    calc containsKey t.request.headers name = true
        ↔ _ := containsKey_iff_amzLine hheaders (hamz name hname).1 (hamz name hname).2
      _ ↔ _ := by rw [hlines]
      _ ↔ containsKey t'.request.headers name = true :=
        (containsKey_iff_amzLine hheaders' (hamz name hname).1 (hamz name hname).2).symm
  simp only [routedHeaders, List.forall_mem_cons] at hcontains
  obtain ⟨hcopy, hroute, htoken, -⟩ := hcontains
  cases hpath : t.s3Path with
  | root => trivial
  | bucket bucket => exact fun _ => Or.inr (by rw [hroute, htoken])
  | object bucket key => exact fun _ => Or.inr hcopy

theorem plainName_of_checkBucketName {name : Bytes} (h : checkBucketName name = true) :
    PlainName name := by
  intro b hb
  simp only [checkBucketName, Bool.and_eq_true] at h
  have hbyte := List.all_eq_true.mp h.1.1.1.1.1.2 b hb
  refine forall_byte (p := fun b => (isLowercaseOrDigit b || b == 46 || b == 45) = true →
    b < 0x80 ∧ b ≠ 47 ∧ b ≠ 37 ∧ b ≠ 63) ?_ b hbyte
  decide +kernel

section Sample

/-- The service at `example.com`, with the decoder of queries where the samples use it. -/
def sampleV2Routing : RoutingSettings :=
  { sampleRouting with
    decodeQuery := fun query => List.lookup query
      [(ascii "legal-hold", [(ascii "legal-hold", [])]),
        (ascii "acl&acl", [(ascii "acl", []), (ascii "acl", [])]),
        (ascii "response-cache-control=x%26tagging",
          [(ascii "response-cache-control", ascii "x&tagging")]),
        (ascii "response-cache-control=x&tagging",
          [(ascii "response-cache-control", ascii "x"), (ascii "tagging", [])])] }

/-- HMAC-SHA-1 and the date of the samples. -/
def sampleResourceExternals : V2Externals where
  hmacSha1 _ data :=
    if data = ascii "GET\n\n\nFri, 24 May 2013 00:00:00 GMT\n/aaa/c" then
      (Bytes.decodeHex (ascii "69b53e79d4fe92bb7cb33d7d885beeb83f59fa67")).getD []
    else (Bytes.decodeHex (ascii "bc8f2399ae06a52f0e0f5e85b65277ddb2a8db53")).getD []
  httpDate := sampleV2Externals.httpDate

/-- A download that is authenticated by header. -/
def sampleV2Request (host path signature : Bytes) : Request (ArrivingBody Unit) where
  version := .http11
  method := ascii "GET"
  path := path
  authority := none
  headers := headerMapOf [(ascii "host", host),
    (ascii "date", ascii "Fri, 24 May 2013 00:00:00 GMT"),
    (ascii "authorization", ascii "AWS AKID:" ++ signature)]
  body := ⟨.empty, none⟩
  qs := none

/-- Its target, under the pairs of its query. -/
def sampleV2Target (host path signature : Bytes) (vhBucket : Option Bytes) (s3Path : S3Path)
    (pairs : Option (List (Bytes × Bytes))) : Target (ArrivingBody Unit) where
  request := { sampleV2Request host path signature with
    qs := (pairs.map OrderedQs.ofPairs).map (·.qs) }
  hostHeader := some host
  vh := some ⟨ascii "example.com", vhBucket, none⟩
  decodedUriPath := path
  s3Path := s3Path
  qs := pairs.map OrderedQs.ofPairs

theorem prepareTarget_v2Sample {host path signature : Bytes} {vhBucket : Option Bytes} {s3Path : S3Path}
    {query : Option Bytes} {pairs : Option (List (Bytes × Bytes))}
    (hhost : extractHost (sampleV2Request host path signature) sampleEnvironment = .ok (some host))
    (hvh : parseRequestHost sampleV2Routing.host (some host) =
      .ok (some ⟨ascii "example.com", vhBucket, none⟩))
    (hpath : classifyRequestPath sampleV2Routing path vhBucket = .ok s3Path)
    (hquery : query.map sampleV2Routing.decodeQuery = pairs.map some) :
    prepareTarget sampleEnvironment sampleV2Routing (sampleV2Request host path signature) query =
      .ok (sampleV2Target host path signature vhBucket s3Path pairs) := by
  have hinject : injectHostHeader (sampleV2Request host path signature) =
    sampleV2Request host path signature := if_pos rfl
  have hdecode : sampleEnvironment.urlDecode (sampleV2Request host path signature).path =
    some path := rfl
  have hqs : extractQs sampleV2Routing query = .ok (pairs.map OrderedQs.ofPairs) := by
    cases query with
    | none =>
      cases pairs with
      | none => rfl
      | some pairs => cases hquery
    | some query =>
      cases pairs with
      | none => cases hquery
      | some pairs =>
        rw [Option.map_some, Option.map_some, Option.some.injEq] at hquery
        simp [extractQs, OrderedQs.parse, hquery]
  unfold prepareTarget
  rw [hinject]
  refine bind_eq_ok.mpr ⟨_, hhost, ?_⟩
  rw [hdecode]
  exact bind_eq_ok.mpr ⟨_, hvh, bind_eq_ok.mpr ⟨_, hpath, bind_eq_ok.mpr ⟨_, hqs, rfl⟩⟩⟩

/-- The context of the check of such a target. -/
def sampleV2Context (t : Target (ArrivingBody Unit)) : SignatureContext Unit :=
  t.context sampleEnvironment sampleHostCallContext (some 0) none

theorem acceptsV2_of_isOk {t : Target (ArrivingBody Unit)} {signature : Bytes}
    (h : ((sampleV2Context t).v2CheckHeaderAuth sampleEnvironment (t.settings sampleV2Settings)
      sampleResourceExternals (ascii "AKID", signature)).isOk = true) :
    (sampleV2Context t).AcceptsV2 sampleEnvironment (t.settings sampleV2Settings)
      sampleResourceExternals .headerAuth := by
  obtain ⟨⟨credentials, body⟩, h⟩ := exists_of_isOk h
  exact ⟨_, credentials, body, h⟩

theorem sampleV2Request_arrived {host path signature : Bytes}
    (h : ValidHeaders (sampleV2Request host path signature).headers.entries) (hlf : lf ∉ path)
    (hform : path.head? = some 47) (hquery : 63 ∉ path) :
    (sampleV2Request host path signature).ArrivedV2 where
  method := (by decide : lf ∉ ascii "GET")
  path := hlf
  headers := h
  authority := nofun
  form := Or.inr (Or.inr hform)
  noQuery := hquery

/-- The signature of `/aaa/c`. -/
def sampleV2Signature : Bytes := ascii "abU+edT+krt8sz19iFvuuD9Z+mc="

/-- The signature of `/aaa/c?response-cache-control=x&tagging`. -/
def sampleTaggingSignature : Bytes := ascii "vI8jma4GpS8OD16FtlJ33bKo21M="

/-- The object `c` of the bucket `aaa`, with the bucket in the host. -/
def sampleHosted : Target (ArrivingBody Unit) :=
  sampleV2Target (ascii "aaa.example.com") (ascii "/c") sampleV2Signature (some (ascii "aaa"))
    (.object (ascii "aaa") (ascii "c")) none

/-- The same object with the bucket in the path. -/
def sampleInPath (signature : Bytes) (pairs : Option (List (Bytes × Bytes))) :
    Target (ArrivingBody Unit) :=
  sampleV2Target (ascii "example.com") (ascii "/aaa/c") signature none
    (.object (ascii "aaa") (ascii "c")) pairs

theorem sampleHosted_prepared :
    prepareTarget sampleEnvironment sampleV2Routing
      (sampleV2Request (ascii "aaa.example.com") (ascii "/c") sampleV2Signature) none =
      .ok sampleHosted := by
  apply prepareTarget_v2Sample
  · decide +kernel
  · decide +kernel
  · decide +kernel
  · rfl

theorem sampleInPath_prepared {signature : Bytes} {query : Option Bytes}
    {pairs : Option (List (Bytes × Bytes))}
    (hquery : query.map sampleV2Routing.decodeQuery = pairs.map some) :
    prepareTarget sampleEnvironment sampleV2Routing
      (sampleV2Request (ascii "example.com") (ascii "/aaa/c") signature) query =
      .ok (sampleInPath signature pairs) := by
  have hhost : extractHost (sampleV2Request (ascii "example.com") (ascii "/aaa/c") [])
      sampleEnvironment = .ok (some (ascii "example.com")) := by decide +kernel
  refine prepareTarget_v2Sample hhost ?_ ?_ hquery
  · decide +kernel
  · decide +kernel

theorem sampleHosted_accepted :
    (sampleV2Context sampleHosted).AcceptsV2 sampleEnvironment (sampleHosted.settings sampleV2Settings)
      sampleResourceExternals .headerAuth :=
  acceptsV2_of_isOk (by decide +kernel : ((sampleV2Context sampleHosted).v2CheckHeaderAuth
    sampleEnvironment (sampleHosted.settings sampleV2Settings) sampleResourceExternals
    (ascii "AKID", sampleV2Signature)).isOk = true)

/-- A request in path style is accepted, with this string to sign. -/
def SampleAccepted (signature : Bytes) (pairs : Option (List (Bytes × Bytes))) (resource : Bytes) :
    Prop :=
  ((sampleV2Context (sampleInPath signature pairs)).v2CheckHeaderAuth sampleEnvironment
      ((sampleInPath signature pairs).settings sampleV2Settings) sampleResourceExternals
      (ascii "AKID", signature)).isOk = true ∧
    (sampleV2Context (sampleInPath signature pairs)).v2StringToSign
      ((sampleInPath signature pairs).settings sampleV2Settings) .headerAuth =
      .ok (ascii "GET\n\n\nFri, 24 May 2013 00:00:00 GMT\n" ++ resource)

instance (signature : Bytes) (pairs : Option (List (Bytes × Bytes))) (resource : Bytes) :
    Decidable (SampleAccepted signature pairs resource) :=
  inferInstanceAs (Decidable (_ ∧ _))

/-- One object in both styles, with one signature. -/
theorem v2_operation_bound_styles :
    (sampleHosted.operation sampleV2Routing).toOption =
      ((sampleInPath sampleV2Signature none).operation sampleV2Routing).toOption := by
  have hdecode : DecodesPlain sampleEnvironment.urlDecode := ⟨rfl, fun _ _ _ => rfl⟩
  have hplain : SigV2.PlainValues [] := by
    intro name _ value h
    cases h
  have hrepeat : Unrepeated .empty := by
    intro name _ _ h
    cases h
  have hreq : (sampleV2Request (ascii "aaa.example.com") (ascii "/c") sampleV2Signature).ArrivedV2 :=
    sampleV2Request_arrived (by decide +kernel) (by decide) (by decide) (by decide)
  have hreq' : (sampleV2Request (ascii "example.com") (ascii "/aaa/c") sampleV2Signature).ArrivedV2 :=
    sampleV2Request_arrived (by decide +kernel) (by decide) (by decide) (by decide)
  have haccepted : SampleAccepted sampleV2Signature none (ascii "/aaa/c") := by decide +kernel
  have hsigned : (sampleV2Context sampleHosted).v2StringToSign (sampleHosted.settings sampleV2Settings)
      .headerAuth = .ok (ascii "GET\n\n\nFri, 24 May 2013 00:00:00 GMT\n" ++ ascii "/aaa/c") := by
    decide +kernel
  obtain ⟨-, -, hbound⟩ := v2_operation_bound sampleEnvironment sampleV2Settings sampleV2Routing
    sampleResourceExternals sampleHostCallContext _ _ none none sampleHosted
    (sampleInPath sampleV2Signature none) (some 0) none (some 0) none .headerAuth .headerAuth _ hdecode
    (fun bucket h => plainName_of_checkBucketName h) hreq hreq' sampleHosted_prepared
    (sampleInPath_prepared rfl) sampleHosted_accepted (acceptsV2_of_isOk haccepted.1) hsigned
    haccepted.2
  exact (hbound hplain hplain).2 hrepeat hrepeat ⟨fun _ _ _ => rfl, fun _ _ _ => rfl⟩

/-- Three pairs of accepted requests, each with one string to sign and two operations: a parameter that
is not in the list, one that is repeated, and one whose value holds an ampersand. -/
theorem subresources_unbound :
    (∀ query pairs, (query, pairs) ∈
        [(none, none), (some (ascii "legal-hold"), some [(ascii "legal-hold", [])]),
          (some (ascii "acl&acl"), some [(ascii "acl", []), (ascii "acl", [])])] →
      prepareTarget sampleEnvironment sampleV2Routing
          (sampleV2Request (ascii "example.com") (ascii "/aaa/c") sampleV2Signature) query =
        .ok (sampleInPath sampleV2Signature pairs) ∧
      SampleAccepted sampleV2Signature pairs (ascii "/aaa/c")) ∧
    (sampleInPath sampleV2Signature none).operation sampleV2Routing = .ok .getObject ∧
    (sampleInPath sampleV2Signature (some [(ascii "legal-hold", [])])).operation sampleV2Routing =
      .ok .getObjectLegalHold ∧
    (sampleInPath sampleV2Signature (some [(ascii "acl", []), (ascii "acl", [])])).operation
      sampleV2Routing = .ok .getObjectAcl ∧
    (∀ query pairs, (query, pairs) ∈
        [(ascii "response-cache-control=x%26tagging",
            [(ascii "response-cache-control", ascii "x&tagging")]),
          (ascii "response-cache-control=x&tagging",
            [(ascii "response-cache-control", ascii "x"), (ascii "tagging", [])])] →
      prepareTarget sampleEnvironment sampleV2Routing
          (sampleV2Request (ascii "example.com") (ascii "/aaa/c") sampleTaggingSignature)
          (some query) = .ok (sampleInPath sampleTaggingSignature (some pairs)) ∧
      SampleAccepted sampleTaggingSignature (some pairs)
        (ascii "/aaa/c?response-cache-control=x&tagging")) ∧
    (sampleInPath sampleTaggingSignature
      (some [(ascii "response-cache-control", ascii "x&tagging")])).operation sampleV2Routing =
      .ok .getObject ∧
    (sampleInPath sampleTaggingSignature (some [(ascii "response-cache-control", ascii "x"),
      (ascii "tagging", [])])).operation sampleV2Routing = .ok .getObjectTagging := by
  refine ⟨?_, ?_, ?_, ?_, ?_, ?_, ?_⟩
  · intro query pairs h
    simp only [List.mem_cons, Prod.mk.injEq, List.not_mem_nil, or_false] at h
    rcases h with ⟨rfl, rfl⟩ | ⟨rfl, rfl⟩ | ⟨rfl, rfl⟩
    · exact ⟨sampleInPath_prepared rfl, by decide +kernel⟩
    · exact ⟨sampleInPath_prepared (by decide +kernel), by decide +kernel⟩
    · exact ⟨sampleInPath_prepared (by decide +kernel), by decide +kernel⟩
  · decide +kernel
  · decide +kernel
  · decide +kernel
  · intro query pairs h
    simp only [List.mem_cons, Prod.mk.injEq, List.not_mem_nil, or_false] at h
    rcases h with ⟨rfl, rfl⟩ | ⟨rfl, rfl⟩
    · exact ⟨sampleInPath_prepared (by decide +kernel), by decide +kernel⟩
    · exact ⟨sampleInPath_prepared (by decide +kernel), by decide +kernel⟩
  · decide +kernel
  · decide +kernel

end Sample

end Bound

end S3s.Ops
