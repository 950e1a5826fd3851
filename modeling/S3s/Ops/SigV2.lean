import S3s.Ops.Anonymous
import S3s.SigV2.StringToSign

/-! # Requests with signatures of version 2

The check of the `Authorization` header and that of a presigned URL, in the order of
the source. The first takes its time from a header and compares it with the clock,
the second only compares the expiry.
-/
namespace S3s.Ops
open Http SigV4

/-- What the checks of version 2 take from other crates: the MAC, and the instant of a `Date` header
in nanoseconds, where it has one. -/
structure V2Externals where
  hmacSha1 : Bytes → Bytes → Bytes
  httpDate : Bytes → Option Int

/-- `sig_v2_headers` -/
def sigV2Headers : List (Bytes × Bytes) → S3Result (List (Bytes × Bytes))
  | [] => .ok []
  | (name, value) :: hs =>
    match headerValueToStr value with
    | some value => do
      let headers ← sigV2Headers hs
      .ok ((name, value) :: headers)
    | none =>
      if (ascii "x-amz-").isPrefixOf name then
        .error (.saying .signatureDoesNotMatch (ascii "invalid header: " ++ name))
      else sigV2Headers hs

namespace SignatureContext

variable {ε : Type} (E : Environment ε) (S : CheckSettings) (V : V2Externals)
  (ctx : SignatureContext ε)

/-- `ensure_v2_enabled` -/
def ensureV2Enabled : S3Result Unit :=
  if S.enableSigV2 then .ok ()
  else
    .error (.saying .accessDenied (ascii "Signature Version 2 is disabled by server configuration"))

/-- The time of a request that is authenticated by header: that of a unique `x-amz-date`, else that of
the `Date` header. -/
def v2RequestTime : S3Result Int :=
  match (getUniqueHeaderStr ctx.hs (ascii "date")).or (getUniqueHeaderStr ctx.hs (ascii "x-amz-date")) with
  | none => .error (invalidRequest (ascii "missing date"))
  | some date =>
    match getUniqueHeaderStr ctx.hs (ascii "x-amz-date") with
    | some x =>
      match (AmzDate.parse x).bind E.formats.toTime with
      | some time => .ok time
      | none => .error (invalidRequest (ascii "invalid x-amz-date"))
    | none =>
      match V.httpDate date with
      | some time => .ok time
      | none => .error (invalidRequest (ascii "invalid date"))

/-- The string to sign of a request in one of the two modes. -/
def v2StringToSign (mode : SigV2.Mode) : S3Result Bytes := do
  let headers ← sigV2Headers ctx.hs.entries
  .ok (SigV2.createStringToSign mode ctx.reqMethod ctx.rawUriPath ctx.qs headers S.vhBucket)

/-- The comparison of a signature of version 2. -/
def v2Compare (secretKey stringToSign signature : Bytes) : S3Result Unit :=
  match SigV2.signatureFromBase64 signature with
  | none => .error (.bare .signatureDoesNotMatch)
  | some expected =>
    if SigV2.calculateSignature V.hmacSha1 secretKey stringToSign = expected then .ok ()
    else .error (.bare .signatureDoesNotMatch)

/-- What a check of version 2 returns. -/
def v2Credentials (accessKey secretKey : Bytes) : CredentialsExt :=
  ⟨accessKey, secretKey, none, some (ascii "s3")⟩

/-- `v2_check_header_auth` -/
def v2CheckHeaderAuth (authV2 : Bytes × Bytes) : S3Result (CredentialsExt × CheckedBody ε) := do
  ensureV2Enabled S
  let requestTime ← ctx.v2RequestTime E V
  validateClockSkew requestTime ctx.now ctx.config
  let auth ← requireAuth ctx.auth
  let secretKey ← auth authV2.1
  let stringToSign ← ctx.v2StringToSign S .headerAuth
  v2Compare V secretKey stringToSign authV2.2
  .ok (v2Credentials authV2.1 secretKey, ctx.reqBody.keep)

/-- `v2_check_presigned_url` -/
def v2CheckPresignedUrl : S3Result (CredentialsExt × CheckedBody ε) := do
  ensureV2Enabled S
  let some presignedUrl := SigV2.PresignedUrlV2.parse ctx.queryPairs
    | .error (invalidRequest (ascii "missing presigned url v2 fields"))
  if ctx.now > presignedUrl.expiresTime then
    .error (.saying .accessDenied (ascii "Request has expired"))
  else
    let auth ← requireAuth ctx.auth
    let secretKey ← auth presignedUrl.accessKey
    let stringToSign ← ctx.v2StringToSign S .presignedUrl
    v2Compare V secretKey stringToSign presignedUrl.signature
    .ok (v2Credentials presignedUrl.accessKey secretKey, ctx.reqBody.keep)

variable {E S V ctx}

/-- What an accepted request has passed, when it is authenticated by header. -/
theorem v2CheckHeaderAuth_ok {authV2 : Bytes × Bytes} {credentials : CredentialsExt}
    {body : CheckedBody ε} (h : ctx.v2CheckHeaderAuth E S V authV2 = .ok (credentials, body)) :
    ∃ time stringToSign, ctx.v2RequestTime E V = .ok time ∧
      validateClockSkew time ctx.now ctx.config = .ok () ∧
      ctx.v2StringToSign S .headerAuth = .ok stringToSign := by
  unfold v2CheckHeaderAuth at h
  obtain ⟨⟨⟩, -, h⟩ := bind_eq_ok.mp h
  obtain ⟨time, htime, h⟩ := bind_eq_ok.mp h
  obtain ⟨⟨⟩, hskew, h⟩ := bind_eq_ok.mp h
  obtain ⟨auth, -, h⟩ := bind_eq_ok.mp h
  obtain ⟨secretKey, -, h⟩ := bind_eq_ok.mp h
  obtain ⟨stringToSign, hsigned, h⟩ := bind_eq_ok.mp h
  exact ⟨time, stringToSign, htime, hskew, hsigned⟩

/-- What an accepted request has passed, when it is a presigned URL. -/
theorem v2CheckPresignedUrl_ok {credentials : CredentialsExt} {body : CheckedBody ε}
    (h : ctx.v2CheckPresignedUrl S V = .ok (credentials, body)) :
    ∃ presignedUrl stringToSign, SigV2.PresignedUrlV2.parse ctx.queryPairs = some presignedUrl ∧
      ctx.now ≤ presignedUrl.expiresTime ∧
      ctx.v2StringToSign S .presignedUrl = .ok stringToSign := by
  unfold v2CheckPresignedUrl at h
  obtain ⟨⟨⟩, -, h⟩ := bind_eq_ok.mp h
  split at h
  · next presignedUrl hparse =>
    split at h
    · cases h
    · next hexpired =>
      obtain ⟨auth, -, h⟩ := bind_eq_ok.mp h
      obtain ⟨secretKey, -, h⟩ := bind_eq_ok.mp h
      obtain ⟨stringToSign, hsigned, h⟩ := bind_eq_ok.mp h
      exact ⟨presignedUrl, stringToSign, hparse, not_lt.mp hexpired, hsigned⟩
  · cases h

theorem v2StringToSign_ok {mode : SigV2.Mode} {stringToSign : Bytes} :
    ctx.v2StringToSign S mode = .ok stringToSign ↔
      ∃ headers, sigV2Headers ctx.hs.entries = .ok headers ∧ stringToSign =
        SigV2.createStringToSign mode ctx.reqMethod ctx.rawUriPath ctx.qs headers S.vhBucket := by
  unfold v2StringToSign
  constructor
  · intro h
    obtain ⟨headers, hheaders, h⟩ := bind_eq_ok.mp h
    cases h
    exact ⟨headers, hheaders, rfl⟩
  · rintro ⟨headers, hheaders, rfl⟩
    exact bind_eq_ok.mpr ⟨headers, hheaders, rfl⟩

end SignatureContext

section Headers

variable {hs headers : List (Bytes × Bytes)}

/-- The headers that are signed are those that can be read, and all of the `x-amz-*` ones can. -/
theorem sigV2Headers_ok (h : sigV2Headers hs = .ok headers) :
    headers = hs.filter (fun e => (headerValueToStr e.2).isSome) ∧
      ∀ e ∈ hs, (ascii "x-amz-").isPrefixOf e.1 = true → (headerValueToStr e.2).isSome = true := by
  have hsame : ∀ value text : Bytes, headerValueToStr value = some text → text = value := by
    intro value text htext
    unfold headerValueToStr Bytes.fromUtf8 at htext
    split at htext
    · cases htext
      rfl
    · cases htext
  induction hs generalizing headers with
  | nil =>
    cases h
    exact ⟨rfl, by simp⟩
  | cons e hs ih =>
    obtain ⟨name, value⟩ := e
    rw [sigV2Headers] at h
    split at h
    · next text htext =>
      obtain ⟨rest, hrest, h⟩ := bind_eq_ok.mp h
      cases h
      obtain ⟨heq, hamz⟩ := ih hrest
      obtain rfl := hsame value text htext
      rw [List.filter_cons_of_pos (by simp [htext]), ← heq]
      refine ⟨rfl, ?_⟩
      rw [List.forall_mem_cons]
      exact ⟨fun _ => by simp [htext], hamz⟩
    · next htext =>
      split at h
      · cases h
      · next hplain =>
        obtain ⟨heq, hamz⟩ := ih h
        rw [List.filter_cons_of_neg (by simp [htext])]
        refine ⟨heq, ?_⟩
        rw [List.forall_mem_cons]
        exact ⟨fun hp => (hplain hp).elim, hamz⟩

/-- A header that the check finds alone is found alone among those that are signed. -/
theorem getUniqueHeaderStr_sigV2Headers {hs : HeaderMap} {name value : Bytes}
    (h : sigV2Headers hs.entries = .ok headers) (hvalue : getUniqueHeaderStr hs name = some value) :
    SigV2.getUniqueHeaderStr headers name = some value := by
  obtain ⟨rfl, -⟩ := sigV2Headers_ok h
  unfold getUniqueHeaderStr at hvalue
  split at hvalue
  · next v hall =>
    have hv : v = value := by
      unfold headerValueToStr Bytes.fromUtf8 at hvalue
      split at hvalue
      · exact Option.some.inj hvalue
      · cases hvalue
    subst hv
    unfold HeaderMap.getAll at hall
    have hnames : (hs.entries.filter fun e => (headerValueToStr e.2).isSome).filter
        (fun h => Bytes.lowercase h.1 == Bytes.lowercase name) =
        (hs.entries.filter fun e => e.1 == Bytes.lowercase name).filter
          fun e => (headerValueToStr e.2).isSome := by
      rw [List.filter_filter, List.filter_filter]
      apply List.filter_congr
      intro e he
      rw [hs.lowercase e he, Bool.and_comm]
    obtain ⟨e, he, rfl⟩ : ∃ e : Bytes × Bytes,
        (hs.entries.filter fun e => e.1 == Bytes.lowercase name) = [e] ∧ e.2 = v := by
      cases hfilter : hs.entries.filter fun e => e.1 == Bytes.lowercase name with
      | nil => simp [hfilter] at hall
      | cons e rest =>
        rw [hfilter, List.map_cons] at hall
        obtain ⟨hhead, htail⟩ := List.cons_eq_cons.mp hall
        rw [List.map_eq_nil_iff.mp htail]
        exact ⟨e, rfl, hhead⟩
    rw [SigV2.getUniqueHeaderStr, hnames, he, List.filter_cons_of_pos (by simp [hvalue])]
    rfl
  · cases hvalue

/-- An `x-amz-*` header that is signed alone is the only one of its name. -/
theorem getUniqueHeaderStr_of_sigV2Headers {hs : HeaderMap} {name value : Bytes}
    (h : sigV2Headers hs.entries = .ok headers) (hlower : Bytes.lowercase name = name)
    (hamz : (ascii "x-amz-").isPrefixOf name = true)
    (hvalue : SigV2.getUniqueHeaderStr headers name = some value) :
    getUniqueHeaderStr hs name = some value := by
  obtain ⟨rfl, hread⟩ := sigV2Headers_ok h
  have hlowers : ∀ e ∈ hs.entries.filter fun e => (headerValueToStr e.2).isSome,
      Bytes.lowercase e.1 = e.1 := fun e he => hs.lowercase e (List.mem_filter.mp he).1
  have hunique := (SigV2.filter_of_getUniqueHeaderStr hlowers hlower).mp hvalue
  have hall : hs.entries.filter (fun e => e.1 == name) = [(name, value)] := by
    rw [← hunique, List.filter_filter]
    apply List.filter_congr
    intro e he
    by_cases hname : e.1 = name
    · have hsome := hread e he (hname ▸ hamz)
      simp [hname, hsome]
    · simp [hname]
  have hmem : (name, value) ∈ hs.entries.filter fun e => e.1 == name := by
    rw [hall]
    exact List.mem_singleton_self _
  have hsome := hread (name, value) (List.mem_filter.mp hmem).1 hamz
  rw [getUniqueHeaderStr, HeaderMap.getAll, hlower, hall]
  show headerValueToStr value = some value
  unfold headerValueToStr Bytes.fromUtf8 at hsome ⊢
  split
  · rfl
  · next hvalid => simp [hvalid] at hsome

end Headers

end S3s.Ops
