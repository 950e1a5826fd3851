import S3s.Ops.SigV2
import S3s.PostPolicy.Policy

/-! # Forms with a signature

What is signed in a form is its policy. The check of version 4 reads the date, the
credential and the algorithm from fields of their own and wants each of them in the
policy too.
-/
namespace S3s.Ops
open Http SigV4 PostPolicy

/-- `PostSignatureError`, as its text. -/
def postSignatureField (fields : List (Bytes × Bytes)) (name : Bytes) : Except Bytes Bytes :=
  match fields.filter fun f => f.1 == name with
  | [] => .error (ascii "missing field: " ++ name)
  | [f] => .ok f.2
  | _ :: _ :: _ => .error (ascii "duplicate field: " ++ name)

/-- `PostSignatureV4` -/
structure PostSignatureV4 where
  policy : Bytes
  xAmzAlgorithm : Bytes
  xAmzCredential : Bytes
  xAmzDate : Bytes
  xAmzSignature : Bytes

/-- `PostSignatureV4::extract` -/
def PostSignatureV4.extract (fields : List (Bytes × Bytes)) : Except Bytes PostSignatureV4 := do
  let policy ← postSignatureField fields (ascii "policy")
  let xAmzAlgorithm ← postSignatureField fields (ascii "x-amz-algorithm")
  let xAmzCredential ← postSignatureField fields (ascii "x-amz-credential")
  let xAmzDate ← postSignatureField fields (ascii "x-amz-date")
  let xAmzSignature ← postSignatureField fields (ascii "x-amz-signature")
  .ok ⟨policy, xAmzAlgorithm, xAmzCredential, xAmzDate, xAmzSignature⟩

/-- `PostSignatureV2` -/
structure PostSignatureV2 where
  policy : Bytes
  accessKeyId : Bytes
  signature : Bytes

/-- `PostSignatureV2::extract` -/
def PostSignatureV2.extract (fields : List (Bytes × Bytes)) : Except Bytes PostSignatureV2 := do
  let policy ← postSignatureField fields (ascii "policy")
  let accessKeyId ← postSignatureField fields (ascii "awsaccesskeyid")
  let signature ← postSignatureField fields (ascii "signature")
  .ok ⟨policy, accessKeyId, signature⟩

/-- The fields of a form that were extracted for the check. -/
def extracted {α : Type} (info : Except Bytes α) : S3Result α :=
  match info with
  | .ok info => .ok info
  | .error e => .error (invalidRequest (ascii "invalid multipart fields: " ++ e))

/-- `InvalidPolicyDocument` -/
def invalidPolicyDocument : S3ErrorCode := .other (ascii "InvalidPolicyDocument")

/-- A condition of the policy that must repeat a field exactly. -/
def requireEqCondition (policy : PostPolicy.PostPolicy) (field value : Bytes) : S3Result Unit :=
  if policy.eqConditionValue field = some value then .ok ()
  else .error (.saying invalidPolicyDocument (field ++ ascii " does not match policy"))

namespace SignatureContext

variable {ε : Type} (E : Environment ε) (S : CheckSettings) (V : V2Externals) (P : Parsers)
  (ctx : SignatureContext ε)

/-- The scope of a signed form: its fields, its credential and its date, and the secret key. -/
structure PostScope where
  info : PostSignatureV4
  credential : CredentialV4
  amzDate : AmzDate
  policy : PostPolicy.PostPolicy
  secretKey : Bytes

/-- `v4_check_post_signature` up to the signature. -/
def postScope (multipart : Multipart (BodyError ε)) : S3Result PostScope := do
  let auth ← requireAuth ctx.auth
  let info ← extracted (PostSignatureV4.extract multipart.fields)
  if !Base64.check info.policy then .error (invalidRequest (ascii "invalid field: policy"))
  else if info.xAmzAlgorithm ≠ ascii "AWS4-HMAC-SHA256" then
    .error (.saying .notImplemented
      (ascii "x-amz-algorithm other than AWS4-HMAC-SHA256 is not implemented"))
  else
    let some credential := CredentialV4.parse E.formats info.xAmzCredential
      | .error (invalidRequest (ascii "invalid field: x-amz-credential"))
    let some amzDate := AmzDate.parse info.xAmzDate
      | .error (invalidRequest (ascii "invalid field: x-amz-date"))
    let .ok policy := PostPolicy.fromBase64 P info.policy
      | .error (.bare invalidPolicyDocument)
    requireEqCondition policy (ascii "x-amz-date") info.xAmzDate
    requireEqCondition policy (ascii "x-amz-credential") info.xAmzCredential
    requireEqCondition policy (ascii "x-amz-algorithm") info.xAmzAlgorithm
    if credential.date ≠ amzDate.fmtDate then
      .error (.saying .signatureDoesNotMatch
        (ascii "credential scope date does not match x-amz-date"))
    else
      validateSigV4Region credential.awsRegion ctx.config
      validateSigV4ClockSkew E.formats amzDate ctx.now ctx.config
      let secretKey ← auth credential.accessKeyId
      validateSigV4Service credential.awsService ctx.config
      .ok ⟨info, credential, amzDate, policy, secretKey⟩

/-- `v4_check_post_signature` -/
def v4CheckPostSignature (multipart : Multipart (BodyError ε)) : S3Result CredentialsExt := do
  let scope ← ctx.postScope E P multipart
  let signature := calculateSignature E.externals.toCrypto scope.info.policy scope.secretKey
    scope.amzDate scope.credential.awsRegion scope.credential.awsService
  if !isSha256Checksum scope.info.xAmzSignature then .error (.bare .signatureDoesNotMatch)
  else if signature.hex ≠ scope.info.xAmzSignature then .error (.bare .signatureDoesNotMatch)
  else
    .ok {
      accessKey := scope.credential.accessKeyId
      secretKey := scope.secretKey
      region := some scope.credential.awsRegion
      service := some scope.credential.awsService }

/-- `v2_check_post_signature` -/
def v2CheckPostSignature (multipart : Multipart (BodyError ε)) : S3Result CredentialsExt := do
  ensureV2Enabled S
  let auth ← requireAuth ctx.auth
  let info ← extracted (PostSignatureV2.extract multipart.fields)
  if !Base64.check info.policy then .error (invalidRequest (ascii "invalid field: policy"))
  else
    let secretKey ← auth info.accessKeyId
    v2Compare V secretKey info.policy info.signature
    .ok (v2Credentials info.accessKeyId secretKey)

variable {E S V P ctx}

/-- What the scope of a signed form has passed. -/
structure PostScope.Valid (E : Environment ε) (P : Parsers) (ctx : SignatureContext ε)
    (multipart : Multipart (BodyError ε)) (scope : PostScope) : Prop where
  info : PostSignatureV4.extract multipart.fields = .ok scope.info
  amzDate : AmzDate.parse scope.info.xAmzDate = some scope.amzDate
  policy : PostPolicy.fromBase64 P scope.info.policy = .ok scope.policy
  policyDate : scope.policy.eqConditionValue (ascii "x-amz-date") = some scope.info.xAmzDate
  date : scope.credential.date = scope.amzDate.fmtDate
  clockSkew : validateSigV4ClockSkew E.formats scope.amzDate ctx.now ctx.config = .ok ()

theorem requireEqCondition_ok {policy : PostPolicy.PostPolicy} {field value : Bytes} {u : Unit}
    (h : requireEqCondition policy field value = .ok u) :
    policy.eqConditionValue field = some value := by
  unfold requireEqCondition at h
  split at h
  · next heq => exact heq
  · cases h

theorem postScope_valid {multipart : Multipart (BodyError ε)} {scope : PostScope}
    (h : ctx.postScope E P multipart = .ok scope) : scope.Valid E P ctx multipart := by
  unfold postScope at h
  obtain ⟨auth, -, h⟩ := bind_eq_ok.mp h
  obtain ⟨info, hinfo, h⟩ := bind_eq_ok.mp h
  have hextract : PostSignatureV4.extract multipart.fields = .ok info := by
    unfold extracted at hinfo
    split at hinfo
    · next heq =>
      cases hinfo
      exact heq
    · cases hinfo
  split at h
  · cases h
  split at h
  · cases h
  split at h
  · next credential hcredential =>
    split at h
    · next amzDate hamzDate =>
      split at h
      · next policy hpolicy =>
        obtain ⟨u, hdate, h⟩ := bind_eq_ok.mp h
        obtain ⟨⟨⟩, -, h⟩ := bind_eq_ok.mp h
        obtain ⟨⟨⟩, -, h⟩ := bind_eq_ok.mp h
        split at h
        · cases h
        · next hscope =>
          obtain ⟨⟨⟩, -, h⟩ := bind_eq_ok.mp h
          obtain ⟨⟨⟩, hskew, h⟩ := bind_eq_ok.mp h
          obtain ⟨secretKey, -, h⟩ := bind_eq_ok.mp h
          obtain ⟨⟨⟩, -, h⟩ := bind_eq_ok.mp h
          cases h
          exact ⟨hextract, hamzDate, hpolicy, requireEqCondition_ok hdate, not_not.mp hscope, hskew⟩
      · cases h
    · cases h
  · cases h

theorem v4CheckPostSignature_ok {multipart : Multipart (BodyError ε)} {credentials : CredentialsExt}
    (h : ctx.v4CheckPostSignature E P multipart = .ok credentials) :
    ∃ scope, ctx.postScope E P multipart = .ok scope ∧
      (calculateSignature E.externals.toCrypto scope.info.policy scope.secretKey scope.amzDate
        scope.credential.awsRegion scope.credential.awsService).hex = scope.info.xAmzSignature := by
  unfold v4CheckPostSignature at h
  obtain ⟨scope, hscope, h⟩ := bind_eq_ok.mp h
  dsimp only at h
  split at h
  · cases h
  · split at h
    · cases h
    · next hsignature => exact ⟨scope, hscope, not_not.mp hsignature⟩

end SignatureContext

end S3s.Ops
