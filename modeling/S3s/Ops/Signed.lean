import S3s.Ops.ReplayWindows

/-! # What credentials prove

All the checks of a signature together. When a request comes out of them with credentials, the secret
key is the one that the provider has for the access key, and a text that is made of the request is
signed with it.
-/
namespace S3s.Ops
open Http SigV4

/-- How the form in a request is read: the boundary that its media type names, and what
`transform_multipart` makes of its body. -/
structure FormReader (ε : Type) where
  limits : MultipartLimits
  httparse : FormData.Httparse
  boundary : HeaderMap → Option Bytes
  transformMultipart : SignatureContext ε → Bytes →
    Except (MultipartError (BodyError ε)) (Multipart (BodyError ε))

/-- The settings for the form in a request. -/
def FormReader.settings {ε : Type} (F : FormReader ε) (hs : HeaderMap) : FormSettings :=
  ⟨F.boundary hs, F.limits, F.httparse⟩

section Arms

variable {ε : Type} (E : Environment ε) (S : CheckSettings) (V : V2Externals) (P : PostPolicy.Parsers)
  (F : FormReader ε)

/-- The checks of the signatures of a form, as they are. -/
def postArms : PostArms ε where
  v4CheckPostSignature ctx multipart := ctx.v4CheckPostSignature E P multipart
  v2CheckPostSignature ctx multipart := ctx.v2CheckPostSignature S V multipart

/-- The checks of the other signatures, as they are. -/
def otherArms : OtherArms ε (Multipart (BodyError ε)) where
  checkPostSignature ctx :=
    ctx.checkPostSignature S (F.settings ctx.hs) (postArms E S V P) (F.transformMultipart ctx)
  v4CheckPresignedUrl ctx := ctx.v4CheckPresignedUrl E S
  v2CheckPresignedUrl ctx := ctx.v2CheckPresignedUrl S V
  v2CheckHeaderAuth ctx authV2 := ctx.v2CheckHeaderAuth E S V authV2

end Arms

namespace SignatureContext

variable {ε : Type} (E : Environment ε) (S : CheckSettings) (V : V2Externals) (P : PostPolicy.Parsers)
  (ctx : SignatureContext ε)

/-- A text of the request is signed with the secret key, and the signature is one that stands in the request:
in its `Authorization` header, in its query, or in the fields of its form. -/
inductive Signed (accessKey secretKey : Bytes) : Option (Multipart (BodyError ε)) → Prop
  | v4 (arm : V4Arm) (w : Verification) (raw : Bool) (verification : ctx.verification E S arm = .ok w)
    (key : w.verifier.secretKey = secretKey) (admits : w.input.Admits raw)
    (signature : (w.verifier.signatureOf E.externals.toCrypto (w.input.render raw)).hex =
      w.verifier.expectedSignature) : Signed accessKey secretKey none
  | v2Header (text signature : Bytes)
    (presented : (getUniqueHeaderStr ctx.hs (ascii "authorization")).bind parseAuthorizationV2 =
      some (accessKey, signature))
    (signed : ctx.v2StringToSign S .headerAuth = .ok text)
    (signature : SigV2.signatureFromBase64 signature =
      some (SigV2.calculateSignature V.hmacSha1 secretKey text)) : Signed accessKey secretKey none
  | v2Presigned (text : Bytes) (url : SigV2.PresignedUrlV2)
    (presented : SigV2.PresignedUrlV2.parse ctx.queryPairs = some url) (key : url.accessKey = accessKey)
    (signed : ctx.v2StringToSign S .presignedUrl = .ok text)
    (signature : SigV2.signatureFromBase64 url.signature =
      some (SigV2.calculateSignature V.hmacSha1 secretKey text)) : Signed accessKey secretKey none
  | formV4 (form : Multipart (BodyError ε)) (scope : PostScope)
    (presented : ctx.postScope E P form = .ok scope) (key : scope.credential.accessKeyId = accessKey)
    (signature : (calculateSignature E.externals.toCrypto scope.info.policy secretKey scope.amzDate
      scope.credential.awsRegion scope.credential.awsService).hex = scope.info.xAmzSignature) :
    Signed accessKey secretKey (some form)
  | formV2 (form : Multipart (BodyError ε)) (info : PostSignatureV2)
    (presented : PostSignatureV2.extract form.fields = .ok info) (key : info.accessKeyId = accessKey)
    (signature : SigV2.signatureFromBase64 info.signature =
      some (SigV2.calculateSignature V.hmacSha1 secretKey info.policy)) :
    Signed accessKey secretKey (some form)

/-- The secret key is the one that the provider has for the access key. -/
def Provides (accessKey secretKey : Bytes) : Prop :=
  ∃ auth, ctx.auth = some auth ∧ auth accessKey = .ok secretKey

variable {E S V P ctx} {credentials : CredentialsExt}

theorem requireAuth_ok {auth : Option (Bytes → S3Result Bytes)} {f : Bytes → S3Result Bytes}
    (h : requireAuth auth = .ok f) : auth = some f := by
  cases auth with
  | none => cases h
  | some g =>
    cases h
    rfl

theorem v2Compare_ok {secretKey text signature : Bytes} {u : Unit}
    (h : v2Compare V secretKey text signature = .ok u) :
    SigV2.signatureFromBase64 signature = some (SigV2.calculateSignature V.hmacSha1 secretKey text) := by
  unfold v2Compare at h
  split at h
  · cases h
  · next expected hexpected =>
    split at h
    · next heq => rw [hexpected, heq]
    · cases h

/-- What a verified request is signed with. -/
theorem Verified.admits {w : Verification} {signature : Sha256Sum} (h : ctx.Verified E w signature) :
    ∃ raw, w.input.Admits raw ∧
      (w.verifier.signatureOf E.externals.toCrypto (w.input.render raw)).hex =
        w.verifier.expectedSignature := by
  obtain ⟨hexpected, hsignature⟩ := SignatureVerificationContext.verifyWithRawPathFallback_ok _ h.accepted
  rcases hsignature with rfl | ⟨rfl, hchar⟩
  · exact ⟨false, fun hraw => absurd hraw Bool.false_ne_true, hexpected⟩
  · refine ⟨true, fun _ => ?_, hexpected⟩
    rwa [h.rawPath, ← h.rawUriPath]

theorem v4CheckHeaderAuth_signed {checked : CheckedRequest ε}
    (h : ctx.v4CheckHeaderAuth E = .ok (credentials, checked)) :
    ctx.Provides credentials.accessKey credentials.secretKey ∧
      ctx.Signed E S V P credentials.accessKey credentials.secretKey none := by
  obtain ⟨w, signature, hw, hverified⟩ := headerAuth_verified h
  obtain ⟨scope, payload, body, -, hscope, hpayload, -, -, rfl⟩ := v4CheckHeaderAuth_ok.mp h
  have hkey : w.verifier.secretKey = scope.secretKey := by
    obtain ⟨scope', hscope', hw⟩ := bind_eq_ok.mp hw
    obtain ⟨payload', -, hw⟩ := bind_eq_ok.mp hw
    obtain ⟨headers, -, hw⟩ := bind_eq_ok.mp hw
    cases hw
    rw [hscope] at hscope'
    cases hscope'
    rfl
  obtain ⟨raw, hadmits, hsignature⟩ := hverified.admits
  exact ⟨(headerScope_valid hscope).secretKey, .v4 .headerAuth w raw hw hkey hadmits hsignature⟩

/-- The secret key of a presigned request. -/
theorem presignedScope_key {scope : PresignedScope} (h : ctx.presignedScope E S = .ok scope) :
    ctx.Provides scope.presignedUrl.credential.accessKeyId scope.secretKey := by
  unfold presignedScope at h
  split at h
  · split at h
    · cases h
    split at h
    · cases h
    · obtain ⟨sha, -, h⟩ := bind_eq_ok.mp h
      split at h
      · cases h
      · obtain ⟨⟨⟩, -, h⟩ := bind_eq_ok.mp h
        obtain ⟨⟨⟩, -, h⟩ := bind_eq_ok.mp h
        obtain ⟨auth, hauth, h⟩ := bind_eq_ok.mp h
        obtain ⟨secretKey, hsecretKey, h⟩ := bind_eq_ok.mp h
        obtain ⟨⟨⟩, -, h⟩ := bind_eq_ok.mp h
        cases h
        exact ⟨auth, requireAuth_ok hauth, hsecretKey⟩
  · cases h

theorem v4CheckPresignedUrl_signed {body : CheckedBody ε}
    (h : ctx.v4CheckPresignedUrl E S = .ok (credentials, body)) :
    ctx.Provides credentials.accessKey credentials.secretKey ∧
      ctx.Signed E S V P credentials.accessKey credentials.secretKey none := by
  obtain ⟨w, signature, hw, hverified⟩ := presignedUrl_verified h
  unfold v4CheckPresignedUrl at h
  obtain ⟨scope, hscope, h⟩ := bind_eq_ok.mp h
  obtain ⟨_, -, h⟩ := bind_eq_ok.mp h
  obtain ⟨_, -, h⟩ := bind_eq_ok.mp h
  cases h
  have hkey : w.verifier.secretKey = scope.secretKey := by
    obtain ⟨scope', hscope', hw⟩ := bind_eq_ok.mp hw
    obtain ⟨headers, -, hw⟩ := bind_eq_ok.mp hw
    cases hw
    rw [hscope] at hscope'
    cases hscope'
    rfl
  obtain ⟨raw, hadmits, hsignature⟩ := hverified.admits
  exact ⟨presignedScope_key hscope, .v4 .presignedUrl w raw hw hkey hadmits hsignature⟩

theorem v2CheckHeaderAuth_signed {authV2 : Bytes × Bytes} {body : CheckedBody ε}
    (hauth : (getUniqueHeaderStr ctx.hs (ascii "authorization")).bind parseAuthorizationV2 = some authV2)
    (h : ctx.v2CheckHeaderAuth E S V authV2 = .ok (credentials, body)) :
    ctx.Provides credentials.accessKey credentials.secretKey ∧
      ctx.Signed E S V P credentials.accessKey credentials.secretKey none := by
  unfold v2CheckHeaderAuth at h
  obtain ⟨⟨⟩, -, h⟩ := bind_eq_ok.mp h
  obtain ⟨time, -, h⟩ := bind_eq_ok.mp h
  obtain ⟨⟨⟩, -, h⟩ := bind_eq_ok.mp h
  obtain ⟨auth, hprovider, h⟩ := bind_eq_ok.mp h
  obtain ⟨secretKey, hsecretKey, h⟩ := bind_eq_ok.mp h
  obtain ⟨text, htext, h⟩ := bind_eq_ok.mp h
  obtain ⟨⟨⟩, hcompare, h⟩ := bind_eq_ok.mp h
  cases h
  exact ⟨⟨auth, requireAuth_ok hprovider, hsecretKey⟩, .v2Header text authV2.2 hauth htext (v2Compare_ok hcompare)⟩

theorem v2CheckPresignedUrl_signed {body : CheckedBody ε}
    (h : ctx.v2CheckPresignedUrl S V = .ok (credentials, body)) :
    ctx.Provides credentials.accessKey credentials.secretKey ∧
      ctx.Signed E S V P credentials.accessKey credentials.secretKey none := by
  unfold v2CheckPresignedUrl at h
  obtain ⟨⟨⟩, -, h⟩ := bind_eq_ok.mp h
  split at h
  · next url hparse =>
    split at h
    · cases h
    · obtain ⟨auth, hprovider, h⟩ := bind_eq_ok.mp h
      obtain ⟨secretKey, hsecretKey, h⟩ := bind_eq_ok.mp h
      obtain ⟨text, htext, h⟩ := bind_eq_ok.mp h
      obtain ⟨⟨⟩, hcompare, h⟩ := bind_eq_ok.mp h
      cases h
      exact ⟨⟨auth, requireAuth_ok hprovider, hsecretKey⟩,
        .v2Presigned text url hparse rfl htext (v2Compare_ok hcompare)⟩
  · cases h

/-- The secret key of a signed form. -/
theorem postScope_key {form : Multipart (BodyError ε)} {scope : PostScope}
    (h : ctx.postScope E P form = .ok scope) : ctx.Provides scope.credential.accessKeyId scope.secretKey := by
  unfold postScope at h
  obtain ⟨auth, hprovider, h⟩ := bind_eq_ok.mp h
  obtain ⟨info, -, h⟩ := bind_eq_ok.mp h
  split at h
  · cases h
  split at h
  · cases h
  split at h
  · split at h
    · split at h
      · obtain ⟨u, -, h⟩ := bind_eq_ok.mp h
        obtain ⟨⟨⟩, -, h⟩ := bind_eq_ok.mp h
        obtain ⟨⟨⟩, -, h⟩ := bind_eq_ok.mp h
        split at h
        · cases h
        · obtain ⟨⟨⟩, -, h⟩ := bind_eq_ok.mp h
          obtain ⟨⟨⟩, -, h⟩ := bind_eq_ok.mp h
          obtain ⟨secretKey, hsecretKey, h⟩ := bind_eq_ok.mp h
          obtain ⟨⟨⟩, -, h⟩ := bind_eq_ok.mp h
          cases h
          exact ⟨auth, requireAuth_ok hprovider, hsecretKey⟩
      · cases h
    · cases h
  · cases h

theorem v4CheckPostSignature_signed {form : Multipart (BodyError ε)}
    (h : ctx.v4CheckPostSignature E P form = .ok credentials) :
    ctx.Provides credentials.accessKey credentials.secretKey ∧
      ctx.Signed E S V P credentials.accessKey credentials.secretKey (some form) := by
  obtain ⟨scope, hscope, hsignature⟩ := v4CheckPostSignature_ok h
  unfold v4CheckPostSignature at h
  obtain ⟨scope', hscope', h⟩ := bind_eq_ok.mp h
  rw [hscope] at hscope'
  cases hscope'
  dsimp only at h
  split_ifs at h
  cases h
  exact ⟨postScope_key hscope, .formV4 form scope hscope rfl hsignature⟩

theorem v2CheckPostSignature_signed {form : Multipart (BodyError ε)}
    (h : ctx.v2CheckPostSignature S V form = .ok credentials) :
    ctx.Provides credentials.accessKey credentials.secretKey ∧
      ctx.Signed E S V P credentials.accessKey credentials.secretKey (some form) := by
  unfold v2CheckPostSignature at h
  obtain ⟨⟨⟩, -, h⟩ := bind_eq_ok.mp h
  obtain ⟨auth, hprovider, h⟩ := bind_eq_ok.mp h
  obtain ⟨info, hinfo, h⟩ := bind_eq_ok.mp h
  have hextract : PostSignatureV2.extract form.fields = .ok info := by
    unfold extracted at hinfo
    split at hinfo
    · next heq =>
      cases hinfo
      exact heq
    · cases hinfo
  split at h
  · cases h
  · obtain ⟨secretKey, hsecretKey, h⟩ := bind_eq_ok.mp h
    obtain ⟨⟨⟩, hcompare, h⟩ := bind_eq_ok.mp h
    cases h
    exact ⟨⟨auth, requireAuth_ok hprovider, hsecretKey⟩, .formV2 form info hextract rfl (v2Compare_ok hcompare)⟩

variable {F : FormReader ε}

theorem checkPostSignature_signed {body : CheckedBody ε} {form : Option (Multipart (BodyError ε))}
    (h : (otherArms E S V P F).checkPostSignature ctx = .ok (some credentials, body, form)) :
    ctx.Provides credentials.accessKey credentials.secretKey ∧
      ctx.Signed E S V P credentials.accessKey credentials.secretKey form := by
  simp only [otherArms, checkPostSignature] at h
  split at h
  · cases h
  split at h
  · cases h
  split at h
  · cases h
  · next multipart hmultipart =>
    obtain ⟨found, hform, h⟩ := bind_eq_ok.mp h
    cases h
    unfold checkForm at hform
    split at hform
    · obtain ⟨⟨⟩, -, hform⟩ := bind_eq_ok.mp hform
      obtain ⟨_, hcheck, hform⟩ := bind_eq_ok.mp hform
      cases hform
      exact v4CheckPostSignature_signed hcheck
    · split at hform
      · obtain ⟨⟨⟩, -, hform⟩ := bind_eq_ok.mp hform
        obtain ⟨_, hcheck, hform⟩ := bind_eq_ok.mp hform
        cases hform
        exact v2CheckPostSignature_signed hcheck
      · cases hform

theorem v2Check_signed {r : S3Result (CredentialsExt × CheckedRequest ε)} {checked : CheckedRequest ε}
    (hcheck : ctx.v2Check (otherArms E S V P F) = some r) (h : r = .ok (credentials, checked)) :
    ctx.Provides credentials.accessKey credentials.secretKey ∧
      ctx.Signed E S V P credentials.accessKey credentials.secretKey none := by
  unfold v2Check at hcheck
  split at hcheck
  · cases hcheck
    obtain ⟨⟨⟩, -, h⟩ := bind_eq_ok.mp h
    obtain ⟨⟨_, body⟩, hurl, h⟩ := bind_eq_ok.mp h
    cases h
    exact v2CheckPresignedUrl_signed hurl
  · split at hcheck
    · next authorization hauth =>
      cases hcheck
      obtain ⟨⟨_, body⟩, hheader, h⟩ := bind_eq_ok.mp h
      cases h
      exact v2CheckHeaderAuth_signed hauth hheader
    · cases hcheck

theorem v4Check_signed {r : S3Result (CredentialsExt × CheckedRequest ε)} {checked : CheckedRequest ε}
    (hcheck : ctx.v4Check E (otherArms E S V P F) = some r) (h : r = .ok (credentials, checked)) :
    ctx.Provides credentials.accessKey credentials.secretKey ∧
      ctx.Signed E S V P credentials.accessKey credentials.secretKey none := by
  unfold v4Check at hcheck
  split at hcheck
  · cases hcheck
    obtain ⟨⟨⟩, -, h⟩ := bind_eq_ok.mp h
    obtain ⟨⟨_, body⟩, hurl, h⟩ := bind_eq_ok.mp h
    cases h
    exact v4CheckPresignedUrl_signed hurl
  · split at hcheck
    · cases hcheck
      exact v4CheckHeaderAuth_signed h
    · cases hcheck

/-- Credentials come out of the check of a signature that their own secret key made. -/
theorem check_signed {outcome : CheckOutcome ε (Multipart (BodyError ε))}
    (h : ctx.check E (otherArms E S V P F) = .ok outcome) (hcredentials : outcome.credentials = some credentials) :
    ctx.Provides credentials.accessKey credentials.secretKey ∧
      ctx.Signed E S V P credentials.accessKey credentials.secretKey outcome.multipart := by
  unfold check at h
  split at h
  · obtain ⟨⟨found, body, form⟩, hform, h⟩ := bind_eq_ok.mp h
    cases h
    obtain rfl : found = some credentials := hcredentials
    exact checkPostSignature_signed hform
  · split at h
    · next r hr =>
      obtain ⟨⟨found, checked⟩, hcheck, h⟩ := bind_eq_ok.mp h
      cases h
      cases hcredentials
      exact v2Check_signed hr hcheck
    · split at h
      · next r hr =>
        obtain ⟨⟨found, checked⟩, hcheck, h⟩ := bind_eq_ok.mp h
        cases h
        cases hcredentials
        exact v4Check_signed hr hcheck
      · cases h
        cases hcredentials

end SignatureContext

end S3s.Ops
