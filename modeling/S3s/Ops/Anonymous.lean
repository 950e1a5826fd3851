import S3s.Http.FormLength
import S3s.Http.OrderedQs
import S3s.Ops.SignedHeaders

/-! # Anonymous requests

The whole of `check`: a form is judged by its fields alone, any other request first
by the parameters of its query and then by its `Authorization` header. A request is
anonymous when none of these holds a signature.
-/
namespace S3s.Http
open Sorted

variable {ε : Type}

/-- `Multipart::find_field_value` -/
def Multipart.findFieldValue (m : Multipart ε) (name : Bytes) : Option Bytes :=
  lookupLast Bytes.le m.fields name

theorem formOf_ascending (boundary : Bytes) (totalLen : Option Nat) (progress : Progress)
    (info : PartInfo) (name : Bytes) (owned : FormData.FinalPartDataStream ε) :
    Ascending Bytes.le (formOf boundary totalLen progress info name owned).fields :=
  ascending_insertionSort bytes_isOrder _

theorem ReadsForm.ascending {H : FormData.Httparse} {boundary : Bytes} {limits : MultipartLimits}
    {totalLen : Option Nat} {parser parser' : Parser ε} {progress : Progress}
    {r : Except (MultipartError ε) (Multipart ε)} {m : Multipart ε}
    (h : ReadsForm H boundary limits totalLen parser progress r parser') (hr : r = .ok m) :
    Ascending Bytes.le m.fields := by
  induction h with
  | failed => cases hr
  | closed => cases hr
  | tooMany => cases hr
  | badHeader => cases hr
  | badPart => cases hr
  | file part few headers rest =>
    cases hr
    cases rest
    exact formOf_ascending ..
  | field part few headers rest more ih => exact ih hr

/-- The fields of a form are sorted by name. -/
theorem TransformMultipart.ascending {H : FormData.Httparse} {stream : FormData.Script ε}
    {boundary : Bytes} {limits : MultipartLimits} {totalLen : Option Nat} {m : Multipart ε}
    (h : TransformMultipart H stream boundary limits totalLen (.ok m)) :
    Ascending Bytes.le m.fields := by
  cases h with
  | read made form => exact form.ascending rfl

theorem Multipart.findFieldValue_eq_none {m : Multipart ε} (h : Ascending Bytes.le m.fields)
    (name : Bytes) : m.findFieldValue name = none ↔ ∀ field ∈ m.fields, field.1 ≠ name :=
  lookupLast_eq_none_iff bytes_isOrder h

end S3s.Http

namespace S3s.Ops
open Http SigV4

/-- What the check of a form reads beside the request: the parameter of its media type, the limits of
`S3Config`, and the header parser. -/
structure FormSettings where
  boundary : Option Bytes
  limits : MultipartLimits
  httparse : FormData.Httparse

/-- `ParserStream`: the body as the form parser reads it. -/
def parserStream {ε : Type} (script : Upload.Script ε) : FormData.Script ε :=
  script.map fun item => item.bimap id .streamReadFailed

/-- The checks of the two signatures of a form. -/
structure PostArms (ε : Type) where
  v4CheckPostSignature : SignatureContext ε → Multipart (BodyError ε) → S3Result CredentialsExt
  v2CheckPostSignature : SignatureContext ε → Multipart (BodyError ε) → S3Result CredentialsExt

namespace SignatureContext

variable {ε : Type} (S : CheckSettings) (F : FormSettings) (post : PostArms ε)
  (ctx : SignatureContext ε)

/-- `ensure_post_signature_enabled` -/
def ensurePostSignatureEnabled : S3Result Unit :=
  if S.allowPostSignature then .ok ()
  else
    .error (.saying .accessDenied
      (ascii "POST signature authentication is disabled by server configuration"))

/-- `check_post_signature` behind the form: the credentials, when the form holds a signature. -/
def checkForm (multipart : Multipart (BodyError ε)) : S3Result (Option CredentialsExt) :=
  if (multipart.findFieldValue (ascii "x-amz-signature")).isSome then do
    ensurePostSignatureEnabled S
    let credentials ← post.v4CheckPostSignature ctx multipart
    .ok (some credentials)
  else if (multipart.findFieldValue (ascii "signature")).isSome then do
    ensurePostSignatureEnabled S
    let credentials ← post.v2CheckPostSignature ctx multipart
    .ok (some credentials)
  else .ok none

/-- `check_post_signature`, with what `transform_multipart` returns for each boundary. The body is
taken. -/
def checkPostSignature
    (transformMultipart : Bytes → Except (MultipartError (BodyError ε)) (Multipart (BodyError ε))) :
    S3Result (Option CredentialsExt × CheckedBody ε × Option (Multipart (BodyError ε))) :=
  if ctx.mime.isNone then
    .error (invalidRequest (ascii "internal error: mime was unexpectedly None"))
  else
    match F.boundary with
    | none => .error (invalidRequest (ascii "missing boundary"))
    | some boundary =>
      match transformMultipart boundary with
      | .error _ => .error (.bare (.other (ascii "MalformedPOSTRequest")))
      | .ok multipart => do
        let credentials ← ctx.checkForm S post multipart
        .ok (credentials, ⟨.empty, none⟩, some multipart)

variable {S F post ctx}

theorem checkForm_none {multipart : Multipart (BodyError ε)}
    (hsorted : Sorted.Ascending Bytes.le multipart.fields) :
    ctx.checkForm S post multipart = .ok none ↔
      ∀ field ∈ multipart.fields, field.1 ≠ ascii "x-amz-signature" ∧ field.1 ≠ ascii "signature" := by
  have hsigned : ∀ check : S3Result CredentialsExt,
      (do ensurePostSignatureEnabled S; let credentials ← check; .ok (some credentials) :
        S3Result (Option CredentialsExt)) ≠ .ok none := by
    intro check h
    obtain ⟨⟨⟩, -, h⟩ := bind_eq_ok.mp h
    obtain ⟨credentials, -, h⟩ := bind_eq_ok.mp h
    cases h
  have hnone := fun name => Multipart.findFieldValue_eq_none hsorted name
  unfold checkForm
  rw [forall₂_and, ← hnone, ← hnone]
  cases hv4 : multipart.findFieldValue (ascii "x-amz-signature") with
  | some value =>
    rw [Option.isSome_some, if_pos rfl]
    exact iff_of_false (hsigned _) nofun
  | none =>
    rw [Option.isSome_none, if_neg Bool.false_ne_true]
    cases hv2 : multipart.findFieldValue (ascii "signature") with
    | some value =>
      rw [Option.isSome_some, if_pos rfl]
      exact iff_of_false (hsigned _) nofun
    | none =>
      rw [Option.isSome_none, if_neg Bool.false_ne_true]
      exact iff_of_true rfl ⟨rfl, rfl⟩

/-- One `Authorization` header that can be read, and no more than this one. -/
theorem getUniqueHeaderStr_eq_none {hs : HeaderMap} {name : Bytes} :
    getUniqueHeaderStr hs name = none ↔
      ∀ value, hs.getAll name = [value] → headerValueToStr value = none := by
  unfold getUniqueHeaderStr
  split
  · next value hvalue =>
    constructor
    · rintro h value' hvalue'
      rw [hvalue] at hvalue'
      cases hvalue'
      exact h
    · intro h
      exact h value hvalue
  · next hmany =>
    exact iff_of_true rfl fun value hvalue => (hmany value hvalue).elim

variable {E : Environment ε} {arms : OtherArms ε (Multipart (BodyError ε))}

/-- A result with credentials is none without. -/
theorem not_anonymous {β : Type} (x : S3Result (CredentialsExt × β))
    (outcome : CredentialsExt × β → CheckOutcome ε (Multipart (BodyError ε)))
    (h : ∀ r, (outcome r).credentials = some r.1) :
    ¬ ∃ o, (x >>= fun r => .ok (outcome r)) = .ok o ∧ o.credentials = none := by
  rintro ⟨o, hx, hnone⟩
  obtain ⟨r, -, hr⟩ := bind_eq_ok.mp hx
  cases hr
  rw [h] at hnone
  cases hnone

/-- `check` outside of forms: anonymous are the requests with no signature in the query and no unique
`Authorization` header. -/
theorem check_request_anonymous (hform : ctx.isForm = false) :
    (∃ outcome, ctx.check E arms = .ok outcome ∧ outcome.credentials = none) ↔
      hasQuery ctx.qs (ascii "Signature") = false ∧
        hasQuery ctx.qs (ascii "X-Amz-Signature") = false ∧
        getUniqueHeaderStr ctx.hs (ascii "authorization") = none := by
  rw [check, if_neg (by simp [hform])]
  cases hv2 : ctx.v2Check arms with
  | some result =>
    refine iff_of_false (not_anonymous result (fun r => ⟨r.2, some r.1, none⟩) fun _ => rfl) ?_
    rintro ⟨hquery, -, hheader⟩
    rw [v2Check, if_neg (by simp [hquery]), hheader] at hv2
    cases hv2
  | none =>
    have hquery : hasQuery ctx.qs (ascii "Signature") = false := by
      rw [Bool.eq_false_iff]
      intro hquery
      rw [v2Check, if_pos hquery] at hv2
      cases hv2
    cases hv4 : ctx.v4Check E arms with
    | some result =>
      refine iff_of_false (not_anonymous result (fun r => ⟨r.2, some r.1, none⟩) fun _ => rfl) ?_
      rintro ⟨-, hquery', hheader⟩
      rw [v4Check, if_neg (by simp [hquery']), hheader] at hv4
      cases hv4
    | none =>
      refine iff_of_true ⟨_, rfl, rfl⟩ ⟨hquery, ?_⟩
      unfold v4Check at hv4
      split at hv4
      · cases hv4
      · next hquery' =>
        split at hv4
        · cases hv4
        · next hheader => exact ⟨by simpa using hquery', by simpa using hheader⟩

/-- `check` of a form: anonymous are the forms that are read and hold no field with a signature. -/
theorem check_form_anonymous (hform : ctx.isForm = true)
    {transformMultipart : Bytes →
      Except (MultipartError (BodyError ε)) (Multipart (BodyError ε))}
    (hread : ∀ boundary, F.boundary = some boundary → TransformMultipart F.httparse
      (parserStream ctx.reqBody.script) boundary F.limits ctx.contentLength
      (transformMultipart boundary))
    (harm : arms.checkPostSignature ctx = ctx.checkPostSignature S F post transformMultipart) :
    (∃ outcome, ctx.check E arms = .ok outcome ∧ outcome.credentials = none) ↔
      ∃ boundary multipart, F.boundary = some boundary ∧
        transformMultipart boundary = .ok multipart ∧ ∀ field ∈ multipart.fields,
          field.1 ≠ ascii "x-amz-signature" ∧ field.1 ≠ ascii "signature" := by
  have hmime : ¬ ctx.mime.isNone = true := by
    intro hnone
    rw [isForm, Option.isNone_iff_eq_none.mp hnone] at hform
    simp at hform
  rw [check, if_pos hform, harm, checkPostSignature, if_neg hmime]
  cases hboundary : F.boundary with
  | none => exact iff_of_false (by rintro ⟨o, h, -⟩; cases h) (by rintro ⟨b, m, h, -⟩; cases h)
  | some boundary =>
    dsimp only
    cases hmultipart : transformMultipart boundary with
    | error e =>
      refine iff_of_false (by rintro ⟨o, h, -⟩; cases h) ?_
      rintro ⟨b, m, hb, hm, -⟩
      cases hb
      rw [hmultipart] at hm
      cases hm
    | ok multipart =>
      have hsorted := TransformMultipart.ascending (hmultipart ▸ hread boundary hboundary)
      constructor
      · rintro ⟨outcome, h, hnone⟩
        obtain ⟨r, hr, h⟩ := bind_eq_ok.mp h
        obtain ⟨credentials, hcheck, hr⟩ := bind_eq_ok.mp hr
        cases hr
        cases h
        obtain rfl : credentials = none := hnone
        exact ⟨boundary, multipart, rfl, hmultipart, (checkForm_none hsorted).mp hcheck⟩
      · rintro ⟨b, m, hb, hm, hfields⟩
        cases hb
        rw [hmultipart] at hm
        cases hm
        refine ⟨⟨⟨⟨.empty, none⟩, none⟩, none, some multipart⟩, ?_, rfl⟩
        dsimp only
        rw [(checkForm_none hsorted).mpr hfields]
        rfl

/-- A request is taken for anonymous exactly when `check` finds no signature where it looks for one:
in the fields of a form that it can read, and for any other request in the query and in the one
`Authorization` header that can be read. -/
theorem anonymous_iff_no_signature (E : Environment ε) (S : CheckSettings) (F : FormSettings)
    (post : PostArms ε) (arms : OtherArms ε (Multipart (BodyError ε))) (ctx : SignatureContext ε)
    (transformMultipart : Bytes →
      Except (MultipartError (BodyError ε)) (Multipart (BodyError ε)))
    (hread : ∀ boundary, F.boundary = some boundary → TransformMultipart F.httparse
      (parserStream ctx.reqBody.script) boundary F.limits ctx.contentLength
      (transformMultipart boundary))
    (harm : arms.checkPostSignature ctx = ctx.checkPostSignature S F post transformMultipart) :
    (∃ outcome, ctx.check E arms = .ok outcome ∧ outcome.credentials = none) ↔
      (ctx.isForm = true ∧ ∃ boundary multipart, F.boundary = some boundary ∧
        transformMultipart boundary = .ok multipart ∧ ∀ field ∈ multipart.fields,
          field.1 ≠ ascii "x-amz-signature" ∧ field.1 ≠ ascii "signature") ∨
      (ctx.isForm = false ∧ hasQuery ctx.qs (ascii "Signature") = false ∧
        hasQuery ctx.qs (ascii "X-Amz-Signature") = false ∧
        ∀ value, ctx.hs.getAll (ascii "authorization") = [value] →
          headerValueToStr value = none) := by
  cases hform : ctx.isForm with
  | true =>
    rw [check_form_anonymous hform hread harm]
    simp
  | false =>
    rw [check_request_anonymous hform, getUniqueHeaderStr_eq_none]
    simp

section Sample

deriving instance DecidableEq for BodyError

/-- A form with a file and nothing else. -/
def sampleFormBytes : Bytes :=
  ascii "--b\r\nContent-Disposition: form-data; name=file\r\n\r\nhi\r\n--b--\r\n"

/-- The form in a request that carries an `Authorization` header. -/
def sampleFormContext : SignatureContext Unit :=
  { sampleContext [] with
    reqMethod := ascii "POST"
    reqBody := ⟨.once sampleFormBytes, none⟩
    hs := headerMapOf [(ascii "content-type", ascii "multipart/form-data; boundary=b"),
      (ascii "authorization", ascii "AWS4-HMAC-SHA256 Credential=AKID")]
    contentLength := some 63
    mime := some ⟨ascii "multipart", ascii "form-data"⟩
    decodedContentLength := none }

def sampleFormSettings : FormSettings where
  boundary := some (ascii "b")
  limits := sampleLimits
  httparse := fileHttparse

/-- A request with two `Authorization` headers. -/
def sampleTwiceContext : SignatureContext Unit :=
  { sampleContext [] with
    hs := headerMapOf [(ascii "authorization", ascii "AWS AKID:c2lnbmF0dXJl"),
      (ascii "authorization", ascii "AWS AKID:c2lnbmF0dXJl")]
    decodedContentLength := none }

theorem sampleForm_read :
    ∃ form, TransformMultipart fileHttparse (parserStream sampleFormContext.reqBody.script)
      (ascii "b") sampleLimits (some 63) (.ok form) ∧ form.fields = [] := by
  have hrun : (firstPart fileHttparse 8
      (.new (parserStream sampleFormContext.reqBody.script) FormData.Multipart.sampleBoundary 64)).any
      (fun run => decide (run.1.1 = .ok (some ())) && decide (run.2.1.1 = .ok (some sampleHeader)) &&
        decide (run.2.2.1 = .ok none) && run.2.2.2.takeDataStream.1.isOk) = true := by
    decide +kernel
  obtain ⟨⟨⟨part, parser₁⟩, ⟨header, parser₂⟩, ⟨last, parser₃⟩⟩, hcalls, heq⟩ :=
    (Option.any_eq_true _ _).mp hrun
  simp only [Bool.and_eq_true, decide_eq_true_eq] at heq
  obtain ⟨⟨⟨rfl, rfl⟩, rfl⟩, htaken⟩ := heq
  obtain ⟨_, hpart, hcalls⟩ := Option.bind_eq_some_iff.mp hcalls
  obtain ⟨_, hheader, hcalls⟩ := Option.bind_eq_some_iff.mp hcalls
  obtain ⟨_, hlast, hcalls⟩ := Option.bind_eq_some_iff.mp hcalls
  cases hcalls
  rcases htake : parser₃.takeDataStream with ⟨e | s, parser₄⟩ <;> rw [htake] at htaken
  · cases htaken
  · have hinfo : PartInfo.header (ε := BodyError Unit) ⟨none, none, none⟩ sampleHeader =
        .ok ⟨some (ascii "file"), none, none⟩ := by
      decide +kernel
    have hmade : FormData.Boundary.new (ε := BodyError Unit) (ascii "b") =
        .ok FormData.Multipart.sampleBoundary := rfl
    exact ⟨_, .read hmade (.file (FormData.Multipart.nextPart_sound hpart) (by decide)
      (.kept (Polling.settles_of_settle hheader) hinfo
        (.done (Polling.settles_of_settle hlast))) (.file rfl (by decide) htake)), rfl⟩

/-- Checks of forms that find no signature valid. -/
def samplePostArms : PostArms Unit where
  v4CheckPostSignature _ _ := .error (.bare .accessDenied)
  v2CheckPostSignature _ _ := .error (.bare .accessDenied)

/-- Arms that find no signature valid, with the form of a request as it has been read. -/
def sampleArms (form : Multipart (BodyError Unit)) : OtherArms Unit (Multipart (BodyError Unit)) where
  checkPostSignature ctx := ctx.checkPostSignature sampleCheckSettings sampleFormSettings
    samplePostArms fun _ => .ok form
  v4CheckPresignedUrl ctx := ctx.v4CheckPresignedUrl sampleEnvironment sampleCheckSettings
  v2CheckPresignedUrl _ := .error (.bare .accessDenied)
  v2CheckHeaderAuth _ _ := .error (.bare .accessDenied)

theorem anonymous_iff_no_signature_sample :
    ∃ form, ∃ outcome, sampleFormContext.check sampleEnvironment (sampleArms form) = .ok outcome ∧
      outcome.credentials = none := by
  obtain ⟨form, hread, hfields⟩ := sampleForm_read
  refine ⟨form, (anonymous_iff_no_signature sampleEnvironment sampleCheckSettings sampleFormSettings
    samplePostArms (sampleArms form) sampleFormContext (fun _ => .ok form) ?_ rfl).mpr (Or.inl ?_)⟩
  · rintro boundary hboundary
    cases hboundary
    exact hread
  · refine ⟨by decide +kernel, _, form, rfl, rfl, ?_⟩
    rw [hfields]
    exact nofun

/-- Anonymous requests with signature material: one with two `Authorization` headers, and a form
with one. -/
theorem anonymous_with_authorization :
    (sampleTwiceContext.hs.getAll (ascii "authorization") =
        [ascii "AWS AKID:c2lnbmF0dXJl", ascii "AWS AKID:c2lnbmF0dXJl"] ∧
      ∃ form outcome, sampleTwiceContext.check sampleEnvironment (sampleArms form) = .ok outcome ∧
        outcome.credentials = none) ∧
      sampleFormContext.hs.getAll (ascii "authorization") =
        [ascii "AWS4-HMAC-SHA256 Credential=AKID"] ∧
      ∃ form, TransformMultipart fileHttparse (parserStream sampleFormContext.reqBody.script)
          (ascii "b") sampleLimits sampleFormContext.contentLength (.ok form) ∧
        ∃ outcome, sampleFormContext.check sampleEnvironment (sampleArms form) = .ok outcome ∧
          outcome.credentials = none := by
  obtain ⟨form, hread, hfields⟩ := sampleForm_read
  refine ⟨⟨by decide +kernel, form, ?_⟩, by decide +kernel, form, hread, ?_⟩
  · apply (check_request_anonymous (by decide +kernel)).mpr
    decide +kernel
  · have harm : (sampleArms form).checkPostSignature sampleFormContext =
        sampleFormContext.checkPostSignature sampleCheckSettings sampleFormSettings samplePostArms
          fun _ => .ok form := rfl
    apply (check_form_anonymous (by decide +kernel) ?_ harm).mpr
    · refine ⟨_, form, rfl, rfl, ?_⟩
      rw [hfields]
      exact nofun
    · rintro boundary hboundary
      cases hboundary
      exact hread

end Sample

end SignatureContext

end S3s.Ops
