import S3s.Library.Base64
import S3s.Library.Json
import S3s.Library.Text
import S3s.Ops.Anonymous

/-! # Policies of forms

A policy is a JSON document in base64 that says what the fields of a form may hold.
Its conditions are checked against the fields after the key has been completed with
the name of the file; every field that is not exempt must be named by one of them.
-/
namespace S3s.PostPolicy
open Http

/-- `PostPolicyCondition` -/
inductive PostPolicyCondition where
  | eq (field value : Bytes)
  | startsWith (field start : Bytes)
  | contentLengthRange (min max : Nat)
deriving DecidableEq

/-- `PostPolicy`. The expiration is an instant in nanoseconds. -/
structure PostPolicy where
  expiration : Int
  conditions : List PostPolicyCondition
deriving DecidableEq

/-- `PostPolicyError` -/
inductive PostPolicyError where
  | base64
  | utf8
  | json
  | missingField (name : Bytes)
  | invalidCondition
  | invalidExpiration (text : Bytes)
deriving DecidableEq

/-- What is taken from other crates: the JSON parser, and `Timestamp::parse` of a date and time. -/
structure Parsers where
  json : Bytes → Option Json
  dateTime : Bytes → Option Int

section Parsing

/-- `RawCondition` -/
inductive RawCondition where
  | array (items : List Json)
  | object (map : List (Bytes × Bytes))

/-- `RawPostPolicy` -/
structure RawPostPolicy where
  expiration : Bytes
  conditions : List RawCondition

/-- `HashMap::insert` -/
def insertMember (key value : Bytes) : List (Bytes × Bytes) → List (Bytes × Bytes)
  | [] => [(key, value)]
  | m :: map => if m.1 = key then (key, value) :: map else m :: insertMember key value map

/-- `visit_map`: every member must be a text, and a repeated one counts with its last value. -/
def collectMembers (members : List (Bytes × Json)) : Option (List (Bytes × Bytes)) :=
  members.foldlM (fun map m => (m.2.asStr).map fun value => insertMember m.1 value map) []

/-- `RawCondition::deserialize` -/
def RawCondition.deserialize : Json → Option RawCondition
  | .array items => some (.array items)
  | .object members => (collectMembers members).map .object
  | _ => none

/-- The conditions of a raw policy. -/
def deserializeConditions : Json → Option (List RawCondition)
  | .array items => items.mapM RawCondition.deserialize
  | _ => none

/-- `RawPostPolicy::deserialize`: an object with both fields, or an array of them. -/
def RawPostPolicy.deserialize : Json → Option RawPostPolicy
  | .object members => do
    let expiration ← Json.uniqueMember members (ascii "expiration")
    let conditions ← Json.uniqueMember members (ascii "conditions")
    some ⟨← expiration.asStr, ← deserializeConditions conditions⟩
  | .array [expiration, conditions] => do
    some ⟨← expiration.asStr, ← deserializeConditions conditions⟩
  | _ => none

/-- `normalize_field_name` -/
def normalizeFieldName (field : Bytes) : Bytes :=
  Bytes.lowercase ((Text.stripPrefix 36 field).getD field)

/-- `parse_array_condition` -/
def parseArrayCondition : List Json → Option PostPolicyCondition
  | [] => none
  | operator :: arguments => do
    let operator ← operator.asStr
    if Bytes.lowercase operator = ascii "eq" then
      match arguments with
      | [field, value] => do some (.eq (normalizeFieldName (← field.asStr)) (← value.asStr))
      | _ => none
    else if Bytes.lowercase operator = ascii "starts-with" then
      match arguments with
      | [field, start] => do some (.startsWith (normalizeFieldName (← field.asStr)) (← start.asStr))
      | _ => none
    else if Bytes.lowercase operator = ascii "content-length-range" then
      match arguments with
      | [min, max] => do
        let min ← min.asU64
        let max ← max.asU64
        if min > max then none else some (.contentLengthRange min max)
      | _ => none
    else none

/-- `parse_object_condition` -/
def parseObjectCondition : List (Bytes × Bytes) → Option PostPolicyCondition
  | [(field, value)] => some (.eq (normalizeFieldName field) value)
  | _ => none

/-- `into_condition` -/
def RawCondition.intoCondition : RawCondition → Option PostPolicyCondition
  | .array items => parseArrayCondition items
  | .object map => parseObjectCondition map

/-- `PostPolicy::from_json` -/
def PostPolicy.fromJson (P : Parsers) (json : Bytes) : Except PostPolicyError PostPolicy :=
  match (P.json json).bind RawPostPolicy.deserialize with
  | none => .error .json
  | some raw =>
    match P.dateTime raw.expiration with
    | none => .error (.invalidExpiration raw.expiration)
    | some expiration =>
      match raw.conditions.mapM RawCondition.intoCondition with
      | none => .error .invalidCondition
      | some conditions => .ok ⟨expiration, conditions⟩

/-- `PostPolicy::from_base64` -/
def PostPolicy.fromBase64 (P : Parsers) (encoded : Bytes) : Except PostPolicyError PostPolicy :=
  match Base64.decode encoded with
  | none => .error .base64
  | some decoded =>
    match Bytes.fromUtf8 decoded with
    | none => .error .utf8
    | some json => PostPolicy.fromJson P json

end Parsing

namespace PostPolicy

/-- `eq_condition_value` -/
def eqConditionValue (policy : PostPolicy) (field : Bytes) : Option Bytes :=
  policy.conditions.findSome? fun condition =>
    match condition with
    | .eq f value => if f = field then some value else none
    | _ => none

/-- `content_length_range` -/
def contentLengthRange (policy : PostPolicy) : Option (Nat × Nat) :=
  policy.conditions.findSome? fun condition =>
    match condition with
    | .contentLengthRange min max => some (min, max)
    | _ => none

theorem eqConditionValue_mem {policy : PostPolicy} {field value : Bytes}
    (h : policy.eqConditionValue field = some value) : .eq field value ∈ policy.conditions := by
  obtain ⟨condition, hmem, hvalue⟩ := List.exists_of_findSome?_eq_some h
  split at hvalue
  · split at hvalue
    · next hfield =>
      cases hvalue
      exact hfield ▸ hmem
    · cases hvalue
  · cases hvalue

end PostPolicy

end S3s.PostPolicy
