import S3s.Http.OrderedQs
import S3s.Library.Base64
import S3s.SigV4.Decodability

/-! # Signatures of version 2

The text a request is reduced to: four lines with the method, two headers and a
date or an expiry, the lines of the `x-amz-*` headers, and the resource. The resource
names the bucket of the host, the path as it was received, and those parameters of
the query that stand in a fixed list.
-/
namespace S3s.SigV2
open Delimited SigV4

/-- `Mode` -/
inductive Mode where
  | headerAuth
  | presignedUrl
deriving DecidableEq

/-- `INCLUDED_QUERY` -/
def includedQuery : List Bytes :=
  [ascii "accelerate", ascii "acl", ascii "analytics", ascii "cors", ascii "defaultObjectAcl",
    ascii "delete", ascii "inventory", ascii "lifecycle", ascii "location", ascii "logging",
    ascii "metrics", ascii "notification", ascii "object-lock", ascii "partNumber", ascii "policy",
    ascii "replication", ascii "requestPayment", ascii "response-cache-control",
    ascii "response-content-disposition", ascii "response-content-encoding",
    ascii "response-content-language", ascii "response-content-type", ascii "response-expires",
    ascii "restore", ascii "select", ascii "select-type", ascii "storageClass", ascii "tagging",
    ascii "torrent", ascii "uploadId", ascii "uploads", ascii "versionId", ascii "versioning",
    ascii "versions", ascii "website"]

/-- `get_unique_header_str` -/
def getUniqueHeaderStr (headers : List (Bytes × Bytes)) (name : Bytes) : Option Bytes :=
  match headers.filter fun h => Bytes.lowercase h.1 == Bytes.lowercase name with
  | [h] => some h.2
  | _ => none

/-- `get_unique_qs` -/
def getUniqueQs (qs : List (Bytes × Bytes)) (name : Bytes) : Option Bytes :=
  Sorted.lookupUnique Bytes.le qs name

/-- The lookups in a sorted query say what a scan of the pairs as they came would say. -/
theorem lookups_agree (pairs : List (Bytes × Bytes)) (name : Bytes) :
    let q := Http.OrderedQs.ofPairs pairs
    let found := pairs.filter fun pair => pair.1 = name
    (q.has name = true ↔ ∃ pair ∈ pairs, pair.1 = name) ∧
      q.getAll name = found.map Prod.snd ∧
      (∀ value, q.getUnique name = some value ↔ found = [(name, value)]) ∧
      (∀ value, getUniqueQs q.qs name = some value ↔ found = [(name, value)]) ∧
      q.lookup name = match found with
        | [] => .absent
        | [pair] => .single pair.2
        | _ :: _ :: _ => .duplicate := by
  intro q found
  have hvalues : Sorted.valuesOf q.qs name = found.map Prod.snd :=
    Sorted.valuesOf_insertionSort Http.bytes_isOrder pairs name
  have hname (pair : Bytes × Bytes) (h : pair ∈ found) : pair.1 = name :=
    of_decide_eq_true (List.mem_filter.mp h).2
  have hunique (value : Bytes) : q.getUnique name = some value ↔ found = [(name, value)] := by
    rw [q.getUnique_eq, hvalues]
    match found with
    | [] => simp
    | [pair] =>
      have hpair := hname pair (List.mem_singleton_self pair)
      simp [Prod.ext_iff, hpair]
    | _ :: _ :: _ => simp
  refine ⟨?_, ?_, hunique, hunique, ?_⟩
  · rw [q.has_eq, hvalues]
    constructor
    · intro h
      obtain ⟨pair, hpair⟩ := List.exists_mem_of_ne_nil found (by rintro hnil; simp [hnil] at h)
      exact ⟨pair, (List.mem_filter.mp hpair).1, hname pair hpair⟩
    · rintro ⟨pair, hpair, hkey⟩
      have hmem : pair ∈ found := List.mem_filter.mpr ⟨hpair, decide_eq_true hkey⟩
      simp [List.ne_nil_of_mem hmem]
  · rw [q.getAll_eq, hvalues]
  · rw [q.lookup_eq, hvalues]
    match found with
    | [] => rfl
    | [_] => rfl
    | _ :: _ :: _ => rfl

/-- `str::trim` -/
def trim (value : Bytes) : Bytes := (trimChars (utf8Chars value)).flatten

/-- `push_canonicalized_amz_headers`: adjacent headers of one name share a line. -/
def pushCanonicalizedAmzHeaders : List (Bytes × Bytes) → Bytes
  | [] => []
  | (name, value) :: rest =>
    name ++ ascii ":" ++ trim value ++
      ((rest.takeWhile fun h => h.1 == name).flatMap fun h => ascii "," ++ trim h.2) ++
      ascii "\n" ++ pushCanonicalizedAmzHeaders (rest.dropWhile fun h => h.1 == name)
termination_by headers => headers.length
decreasing_by exact Nat.lt_succ_of_le (List.dropWhile_suffix _).length_le

/-- The `x-amz-*` headers, sorted by name. -/
def amzHeaders (headers : List (Bytes × Bytes)) : List (Bytes × Bytes) :=
  stableSortByFirst (headers.filter fun h => (ascii "x-amz-").isPrefixOf h.1)

/-- The fourth line: the `Date` header of a request that is authenticated by header, unless there is
an `x-amz-date`; the expiry of a presigned one. -/
def dateLine (mode : Mode) (qs : Option (List (Bytes × Bytes))) (headers : List (Bytes × Bytes)) :
    Bytes :=
  match mode with
  | .headerAuth =>
    if (getUniqueHeaderStr headers (ascii "x-amz-date")).isSome then []
    else (getUniqueHeaderStr headers (ascii "date")).getD []
  | .presignedUrl => (qs.bind fun qs => getUniqueQs qs (ascii "Expires")).getD []

/-- One parameter of the resource. -/
def resourceItem (q : Bytes × Bytes) : Bytes :=
  q.1 ++ if q.2.isEmpty then [] else ascii "=" ++ q.2

/-- The parameters of the resource, in the order of the list. -/
def resourceParams (qs : List (Bytes × Bytes)) : List (Bytes × Bytes) :=
  includedQuery.filterMap fun name => (getUniqueQs qs name).map fun value => (name, value)

/-- The parameters of the resource as they are written. -/
def resourceQuery (qs : List (Bytes × Bytes)) : Bytes :=
  match resourceParams qs with
  | [] => []
  | params => ascii "?" ++ (ascii "&").intercalate (params.map resourceItem)

/-- The resource. -/
def canonicalizedResource (uriPath : Bytes) (qs : Option (List (Bytes × Bytes)))
    (virtualHostBucket : Option Bytes) : Bytes :=
  (match virtualHostBucket with
    | some bucket => ascii "/" ++ bucket
    | none => []) ++ uriPath ++
    match qs with
    | some qs => resourceQuery qs
    | none => []

/-- `create_string_to_sign` -/
def createStringToSign (mode : Mode) (method uriPath : Bytes) (qs : Option (List (Bytes × Bytes)))
    (headers : List (Bytes × Bytes)) (virtualHostBucket : Option Bytes) : Bytes :=
  method ++ ascii "\n" ++
    (getUniqueHeaderStr headers (ascii "content-md5")).getD [] ++ ascii "\n" ++
    (getUniqueHeaderStr headers (ascii "content-type")).getD [] ++ ascii "\n" ++
    dateLine mode qs headers ++ ascii "\n" ++
    pushCanonicalizedAmzHeaders (amzHeaders headers) ++
    canonicalizedResource uriPath qs virtualHostBucket

/-- `calculate_signature`, with the primitive it uses. -/
def calculateSignature (hmacSha1 : Bytes → Bytes → Bytes) (secretKey stringToSign : Bytes) : Bytes :=
  Base64.encode (hmacSha1 secretKey stringToSign)

/-- `Signature::from_base64` -/
def signatureFromBase64 (value : Bytes) : Option Bytes :=
  if value.length ≠ 28 then none
  else if (Base64.decode value).any fun bytes => bytes.length == 20 then some value
  else none

/-- `PresignedUrlV2`. The expiry is an instant in nanoseconds. -/
structure PresignedUrlV2 where
  accessKey : Bytes
  expiresTime : Int
  signature : Bytes
deriving DecidableEq

/-- `get_unique` -/
def getUnique (pairs : List (Bytes × Bytes)) (name : Bytes) : Option Bytes :=
  match pairs.filter fun q => q.1 == name with
  | [q] => some q.2
  | _ => none

/-- The seconds from the epoch up to which `Timestamp` reaches, `9999-12-30T22:00:00.999999999Z`. -/
def maxTimestampSeconds : Nat := 253402207200

/-- `parse_unix_timestamp`: an `i64` with a sign or without, negative ones refused. -/
def parseUnixTimestamp (s : Bytes) : Option Int :=
  let negative := s.head? = some 45
  let digits := if s.head? = some 43 ∨ negative then s.tail else s
  if digits.isEmpty || digits.any fun b => !Bytes.isDigit b then none
  else
    let n := digits.foldl (fun n c => n * 10 + (c.toNat - 48)) 0
    if negative ∧ n ≠ 0 then none
    else if n ≤ maxTimestampSeconds then some (n * 10 ^ 9)
    else none

/-- `PresignedUrlV2::parse` -/
def PresignedUrlV2.parse (qs : List (Bytes × Bytes)) : Option PresignedUrlV2 := do
  let accessKey ← getUnique qs (ascii "AWSAccessKeyId")
  let expires ← getUnique qs (ascii "Expires")
  let signature ← getUnique qs (ascii "Signature")
  let expiresTime ← parseUnixTimestamp expires
  some ⟨accessKey, expiresTime, signature⟩

end S3s.SigV2
