import S3s.Ops.PostSignature

/-! # What a policy asks of a form

The key is completed with the name of the file before the conditions of the policy are
looked at. Every condition must hold, and every field that is not exempt must have one.
-/
namespace S3s.Http

variable {ε : Type}

/-- `FILENAME_VARIABLE` -/
def filenameVariable : Bytes := ascii "$\x7bfilename\x7d"

/-- What becomes of the key of a form. -/
def completedKey (fileName key : Bytes) : Bytes :=
  if filenameVariable <:+: key then Text.replace filenameVariable fileName key else key

/-- `Multipart::substitute_key_filename` -/
def Multipart.substituteKeyFilename (m : Multipart ε) : Multipart ε :=
  { m with fields := Sorted.modifyLast Bytes.le (completedKey m.file.name) m.fields (ascii "key") }

end S3s.Http

namespace S3s.PostPolicy
open Http Ops

variable {ε : Type}

def entityTooLarge : S3ErrorCode := .other (ascii "EntityTooLarge")
def entityTooSmall : S3ErrorCode := .other (ascii "EntityTooSmall")

/-- The error of an upload above a limit. -/
def uploadTooLarge : S3Error :=
  .saying entityTooLarge (ascii "Your proposed upload exceeds the maximum allowed object size.")

/-- `get_field_value` -/
def getFieldValue (field : Bytes) (m : Multipart ε) (urlBucket : Option Bytes) :
    S3Result (Option Bytes) :=
  if field = ascii "bucket" then
    match urlBucket, m.findFieldValue field with
    | some ub, some fb =>
      if fb ≠ ub then
        .error (.saying invalidPolicyDocument (ascii "Bucket in form field '" ++ fb ++
          ascii "' does not match bucket in URL '" ++ ub ++ ascii "'"))
      else .ok (some ub)
    | some ub, none => .ok (some ub)
    | none, formBucket => .ok formBucket
  else .ok (m.findFieldValue field)

/-- `validate_condition` -/
def validateCondition (m : Multipart ε) (fileSize : Nat) (urlBucket : Option Bytes) :
    PostPolicyCondition → S3Result Unit
  | .eq field value => do
    let actual ← getFieldValue field m urlBucket
    if actual ≠ some value then
      .error (.saying invalidPolicyDocument (ascii "Policy condition 'eq' for field '" ++ field ++
        ascii "' failed: expected '" ++ value ++ ascii "', got '" ++ actual.getD [] ++ ascii "'"))
    else .ok ()
  | .startsWith field start => do
    let actual ← getFieldValue field m urlBucket
    if !start.isPrefixOf (actual.getD []) then
      .error (.saying invalidPolicyDocument
        (ascii "Policy condition 'starts-with' for field '" ++ field ++
          ascii "' failed: expected prefix '" ++ start ++ ascii "', got '" ++ actual.getD [] ++
          ascii "'"))
    else .ok ()
  | .contentLengthRange min max =>
    if fileSize > max then .error uploadTooLarge
    else if fileSize < min then
      .error (.saying entityTooSmall
        (ascii "Your proposed upload is smaller than the minimum allowed object size."))
    else .ok ()

/-- `is_field_exempt_from_policy` -/
def isFieldExemptFromPolicy (name : Bytes) : Bool :=
  [ascii "x-amz-signature", ascii "signature", ascii "awsaccesskeyid", ascii "file",
    ascii "submit", ascii "policy"].contains name ||
    (ascii "x-amz-server-side-encryption").isPrefixOf name || (ascii "x-ignore-").isPrefixOf name

/-- Whether a condition is on a field of this name. -/
def PostPolicyCondition.isOn (name : Bytes) : PostPolicyCondition → Bool
  | eq field _ | startsWith field _ => field == name
  | contentLengthRange .. => false

/-- `has_condition_for_field` -/
def PostPolicy.hasConditionForField (policy : PostPolicy) (name : Bytes) : Bool :=
  policy.conditions.any (PostPolicyCondition.isOn name)

/-- The check of one field in `validate_conditions_only`. -/
def PostPolicy.validateField (policy : PostPolicy) (field : Bytes × Bytes) : S3Result Unit :=
  if isFieldExemptFromPolicy field.1 then .ok ()
  else if !policy.hasConditionForField field.1 then
    .error (.saying .accessDenied
      (ascii "Each form field that you specify in a form must appear in the list " ++
        ascii "of policy conditions. \"" ++ field.1 ++ ascii "\" not specified in the policy."))
  else .ok ()

/-- `validate_conditions_only` -/
def PostPolicy.validateConditionsOnly (policy : PostPolicy) (m : Multipart ε) (fileSize : Nat)
    (urlBucket : Option Bytes) : S3Result Unit := do
  policy.conditions.forM (validateCondition m fileSize urlBucket)
  m.fields.forM policy.validateField

section Checks

theorem forM_eq_ok {α : Type} {f : α → S3Result Unit} {l : List α} :
    l.forM f = .ok () ↔ ∀ a ∈ l, f a = .ok () := by
  induction l with
  | nil => simp [pure, Except.pure]
  | cons a l ih =>
    have hcons : (a :: l).forM f = (f a >>= fun _ => l.forM f) := rfl
    rw [hcons, Http.bind_eq_ok, List.forall_mem_cons, ← ih]
    constructor
    · rintro ⟨⟨⟩, ha, hl⟩
      exact ⟨ha, hl⟩
    · rintro ⟨ha, hl⟩
      exact ⟨(), ha, hl⟩

theorem validateConditionsOnly_eq_ok {policy : PostPolicy} {m : Multipart ε} {fileSize : Nat}
    {urlBucket : Option Bytes} :
    policy.validateConditionsOnly m fileSize urlBucket = .ok () ↔
      (∀ c ∈ policy.conditions, validateCondition m fileSize urlBucket c = .ok ()) ∧
      ∀ field ∈ m.fields, policy.validateField field = .ok () := by
  rw [PostPolicy.validateConditionsOnly, Http.bind_eq_ok, ← forM_eq_ok, ← forM_eq_ok]
  constructor
  · rintro ⟨⟨⟩, hconditions, hfields⟩
    exact ⟨hconditions, hfields⟩
  · rintro ⟨hconditions, hfields⟩
    exact ⟨(), hconditions, hfields⟩

theorem validateField_ok {policy : PostPolicy} {field : Bytes × Bytes}
    (h : policy.validateField field = .ok ()) (hexempt : isFieldExemptFromPolicy field.1 = false) :
    ∃ c ∈ policy.conditions, c.isOn field.1 = true := by
  rw [PostPolicy.validateField, hexempt, if_neg (by simp)] at h
  by_cases hcondition : policy.hasConditionForField field.1 = true
  · simpa [PostPolicy.hasConditionForField] using hcondition
  · simp [hcondition] at h

/-- The value a field has for the conditions of a form that is posted to a bucket. -/
def conditionValue (m : Multipart ε) (bucket field : Bytes) : Option Bytes :=
  if field = ascii "bucket" then some bucket else m.findFieldValue field

theorem getFieldValue_ok {m : Multipart ε} {bucket field : Bytes} {value : Option Bytes}
    (h : getFieldValue field m (some bucket) = .ok value) : value = conditionValue m bucket field := by
  unfold getFieldValue conditionValue at *
  by_cases hfield : field = ascii "bucket"
  · rw [if_pos hfield] at h ⊢
    cases hform : m.findFieldValue field with
    | none => simpa [hform] using h.symm
    | some fb =>
      by_cases hsame : fb = bucket
      · simpa [hform, hsame] using h.symm
      · simp [hform, hsame] at h
  · rw [if_neg hfield] at h ⊢
    exact (Except.ok.inj h).symm

theorem validateCondition_eq {m : Multipart ε} {fileSize : Nat} {bucket field value : Bytes}
    (h : validateCondition m fileSize (some bucket) (.eq field value) = .ok ()) :
    conditionValue m bucket field = some value := by
  obtain ⟨actual, hactual, h⟩ := Http.bind_eq_ok.mp h
  by_cases hvalue : actual = some value
  · rw [← getFieldValue_ok hactual, hvalue]
  · simp [hvalue] at h

theorem validateCondition_startsWith {m : Multipart ε} {fileSize : Nat} {bucket field start : Bytes}
    (h : validateCondition m fileSize (some bucket) (.startsWith field start) = .ok ()) :
    start <+: (conditionValue m bucket field).getD [] := by
  obtain ⟨actual, hactual, h⟩ := Http.bind_eq_ok.mp h
  rw [← getFieldValue_ok hactual]
  by_cases hstart : start <+: actual.getD []
  · exact hstart
  · simp [hstart] at h

theorem validateCondition_range {m : Multipart ε} {fileSize min max : Nat} {urlBucket : Option Bytes}
    (h : validateCondition m fileSize urlBucket (.contentLengthRange min max) = .ok ()) :
    min ≤ fileSize ∧ fileSize ≤ max := by
  unfold validateCondition at h
  by_cases hmax : fileSize > max
  · simp [hmax] at h
  · by_cases hmin : fileSize < min
    · simp [hmax, hmin] at h
    · omega

end Checks

end S3s.PostPolicy
