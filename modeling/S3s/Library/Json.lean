import S3s.Library.Bytes

/-! # JSON documents

A document as a tree. The members of an object stand in the order of the text and
may repeat; what a reader makes of a repeated member is the reader's own business.
-/
namespace S3s

/-- A number: an unsigned integer of 64 bits, or any other one as its text. -/
inductive Json.Number where
  | unsigned (n : Nat)
  | other (text : Bytes)
deriving DecidableEq

/-- A JSON value. -/
inductive Json where
  | null
  | bool (b : Bool)
  | number (n : Json.Number)
  | string (s : Bytes)
  | array (items : List Json)
  | object (members : List (Bytes × Json))

namespace Json

/-- `Value::as_str` -/
def asStr : Json → Option Bytes
  | .string s => some s
  | _ => none

/-- `Value::as_u64` -/
def asU64 : Json → Option Nat
  | .number (.unsigned n) => some n
  | _ => none

/-- The value of a field of a derived struct: it must be there, and only once. -/
def uniqueMember (members : List (Bytes × Json)) (name : Bytes) : Option Json :=
  match members.filter fun m => m.1 == name with
  | [m] => some m.2
  | _ => none

end Json

end S3s
