import S3s.Fs.Layout
import S3s.Http.Metadata
import S3s.Library.FileCalls
import S3s.Library.Programs

/-! # What the store works on

The attributes and checksums of an object, the errors, and the calls that the operations are
made of: those on the files below the root, and the counter of temporary files.
-/
namespace S3s.Fs
open LexicalPath Programs FileTree

/-- `ChecksumAlgorithm`, in the order in which the algorithms are gone through. -/
inductive ChecksumAlgorithm where
  | crc32 | crc32c | sha1 | sha256 | crc64nvme | sha512 | md5 | xxhash64 | xxhash3 | xxhash128
deriving DecidableEq

namespace ChecksumAlgorithm

def all : List ChecksumAlgorithm :=
  [crc32, crc32c, sha1, sha256, crc64nvme, sha512, md5, xxhash64, xxhash3, xxhash128]

/-- The name in a request. -/
def name : ChecksumAlgorithm → Bytes
  | crc32 => ascii "CRC32"
  | crc32c => ascii "CRC32C"
  | sha1 => ascii "SHA1"
  | sha256 => ascii "SHA256"
  | crc64nvme => ascii "CRC64NVME"
  | sha512 => ascii "SHA512"
  | md5 => ascii "MD5"
  | xxhash64 => ascii "XXHASH64"
  | xxhash3 => ascii "XXHASH3"
  | xxhash128 => ascii "XXHASH128"

/-- The name of the field of a `Checksum`. -/
def field : ChecksumAlgorithm → Bytes
  | crc32 => ascii "checksum_crc32"
  | crc32c => ascii "checksum_crc32c"
  | sha1 => ascii "checksum_sha1"
  | sha256 => ascii "checksum_sha256"
  | crc64nvme => ascii "checksum_crc64nvme"
  | sha512 => ascii "checksum_sha512"
  | md5 => ascii "checksum_md5"
  | xxhash64 => ascii "checksum_xxhash64"
  | xxhash3 => ascii "checksum_xxhash3"
  | xxhash128 => ascii "checksum_xxhash128"

/-- The name of the trailing header. -/
def trailer : ChecksumAlgorithm → Bytes
  | crc32 => ascii "x-amz-checksum-crc32"
  | crc32c => ascii "x-amz-checksum-crc32c"
  | sha1 => ascii "x-amz-checksum-sha1"
  | sha256 => ascii "x-amz-checksum-sha256"
  | crc64nvme => ascii "x-amz-checksum-crc64nvme"
  | sha512 => ascii "x-amz-checksum-sha512"
  | md5 => ascii "x-amz-checksum-md5"
  | xxhash64 => ascii "x-amz-checksum-xxhash64"
  | xxhash3 => ascii "x-amz-checksum-xxhash3"
  | xxhash128 => ascii "x-amz-checksum-xxhash128"

theorem mem_all (a : ChecksumAlgorithm) : a ∈ all := by cases a <;> decide

theorem find?_name (a : ChecksumAlgorithm) : all.find? (fun b => b.name == a.name) = some a := by
  cases a <;> decide

theorem find?_field (a : ChecksumAlgorithm) : all.find? (fun b => b.field == a.field) = some a := by
  cases a <;> decide

theorem name_injective {a b : ChecksumAlgorithm} (h : a.name = b.name) : a = b := by
  have hfind := find?_name a
  rw [h, find?_name b] at hfind
  exact (Option.some.inj hfind).symm

theorem field_injective {a b : ChecksumAlgorithm} (h : a.field = b.field) : a = b := by
  have hfind := find?_field a
  rw [h, find?_field b] at hfind
  exact (Option.some.inj hfind).symm

end ChecksumAlgorithm

/-- `Checksum`: the text of each checksum that there is. -/
abbrev Checksum := ChecksumAlgorithm → Option Bytes

/-- The user metadata and the standard attributes of an object. -/
structure StandardAttributes where
  userMetadata : Option Http.Metadata
  contentEncoding : Option Bytes
  contentType : Option Bytes
  contentDisposition : Option Bytes
  contentLanguage : Option Bytes
  cacheControl : Option Bytes
  expires : Option Bytes
  websiteRedirectLocation : Option Bytes

/-- `ObjectAttributes` -/
structure ObjectAttributes extends StandardAttributes where
  checksumAlgorithm : Option Bytes
  checksumType : Option Bytes

def StandardAttributes.default : StandardAttributes := ⟨none, none, none, none, none, none, none, none⟩

/-- `ObjectAttributes::default` -/
def ObjectAttributes.default : ObjectAttributes := ⟨.default, none, none⟩

/-- `InternalInfo`: a map by its entries, whose values are strings or none. -/
abbrev InternalInfo := List (Bytes × Option Bytes)

/-- `ETag` -/
inductive ETag where
  | strong (value : Bytes)
  | weak (value : Bytes)
deriving DecidableEq

/-- `ETag::value` -/
def ETag.value : ETag → Bytes
  | strong v => v
  | weak v => v

/-- `ETag::strong_cmp` -/
def ETag.strongCmp : ETag → ETag → Bool
  | strong a, strong b => a == b
  | _, _ => false

/-- `ETag::weak_cmp` -/
def ETag.weakCmp (a b : ETag) : Bool := a.value == b.value

/-- `ETagCondition` -/
inductive ETagCondition where
  | etag (e : ETag)
  | any
deriving DecidableEq

/-- `S3ErrorCode` -/
inductive S3ErrorCode where
  | accessDenied | badDigest | bucketAlreadyExists | entityTooLarge | entityTooSmall | incompleteBody
  | internalError | invalidArgument | invalidPart | invalidRange | invalidRequest
  | invalidStorageClass | noSuchBucket | noSuchKey | notImplemented | preconditionFailed
  | signatureDoesNotMatch | unexpectedContent
deriving DecidableEq

/-- An error in the stream of a body, told by its type. -/
inductive StreamError where
  | bodySizeLimitExceeded
  | uploadStream (code : S3ErrorCode)
  | awsChunkedStream (code : S3ErrorCode)
  | other
deriving DecidableEq

/-- What an error comes from. -/
inductive Source where
  | io (kind : ErrorKind)
  | int
  | json
  | stream (e : StreamError)
deriving DecidableEq

/-- `S3Error` -/
structure S3Error where
  code : S3ErrorCode
  message : Option Bytes
  source : Option Source
deriving DecidableEq

/-- An error that is answered, or a panic. -/
inductive Failure where
  | error (e : S3Error)
  | panic
deriving DecidableEq

/-- `s3_error!` without a message. -/
def bare (code : S3ErrorCode) : Failure := .error ⟨code, none, none⟩

/-- `s3_error!` with a message. -/
def saying (code : S3ErrorCode) (message : Bytes) : Failure := .error ⟨code, some message, none⟩

/-- `S3Error::internal_error`, also by way of the `Error` of the store. -/
def internal (source : Source) : Failure := .error ⟨.internalError, none, some source⟩

/-- The error of a body as the `Error` of the store, made an `S3Error`. -/
def streamFailure (e : StreamError) : Failure :=
  match e with
  | .bodySizeLimitExceeded => .error ⟨.entityTooLarge, none, some (.stream e)⟩
  | .uploadStream code => .error ⟨code, none, some (.stream e)⟩
  | .awsChunkedStream code => .error ⟨code, none, some (.stream e)⟩
  | .other => internal (.stream e)

/-- A value and its text, of which the value is read again. -/
structure Codec (α : Type) where
  toVec : α → Bytes
  fromSlice : Bytes → Option α
  fromSlice_toVec : ∀ a, fromSlice (toVec a) = some a

/-- `FileSystem`, by its root, with what it relies on: the resolution of paths, the digests, the
JSON texts of what is kept in files, and the reading of upload ids. -/
structure FileSystem where
  root : List Bytes
  absolutizeVirtually : List Bytes → Bytes → Option (List Bytes)
  lexical : Lexical absolutizeVirtually
  digest : ChecksumAlgorithm → Bytes → Bytes
  attributes : Codec ObjectAttributes
  oldMetadata : Bytes → Option Http.Metadata
  info : Codec InternalInfo
  accessKey : Codec (Option Bytes)
  parseUuid : Bytes → Option Uuid
  parseUuid_text : ∀ u, parseUuid u.text = some u

/-- The calls that the operations are made of. -/
inductive Call where
  | file (c : FileTree.Call Bytes UInt8)
  | fetchAdd
  | now

/-- What a call is answered with. -/
abbrev Answer : Call → Type
  | .file c => Except ErrorKind c.Payload
  | .fetchAdd => Nat
  | .now => Nat

/-- An operation, or a part of one. -/
abbrev Op (α : Type) := Prog Answer Failure α

/-- The files below the root, the counter of temporary files, and what time it is at each call. -/
structure World where
  disk : Tree Bytes UInt8
  counter : Nat
  time : Nat → Nat
  ticks : Nat
  dirStat : Stat

namespace World

def around (w : World) : Surroundings := ⟨w.time w.ticks, w.dirStat⟩

/-- The world as the next call finds it. -/
def tick (w : World) (disk : Tree Bytes UInt8) : World := { w with disk := disk, ticks := w.ticks + 1 }

/-- What a call does. A failure from outside leaves the files alone. -/
def perform (fails : Option ErrorKind) : System Answer World
  | .file c, w =>
    match fails with
    | none => ((w.disk.answer w.around c).1, w.tick (w.disk.answer w.around c).2)
    | some kind => (.error kind, w.tick w.disk)
  | .fetchAdd, w => (w.counter, { w with counter := w.counter + 1 })
  | .now, w => (w.time w.ticks, w.tick w.disk)

/-- Calls that do not fail from outside. -/
abbrev step : System Answer World := perform none

end World

section Calls

/-- `io?`, and `try_!(io)`. -/
def io (c : FileTree.Call Bytes UInt8) : Op c.Payload :=
  .call (.file c) fun
    | .ok x => .ret x
    | .error kind => .fail (internal (.io kind))

/-- A call whose failure is looked at. -/
def tryIo (c : FileTree.Call Bytes UInt8) : Op (Except ErrorKind c.Payload) :=
  .call (.file c) fun x => .ret x

/-- `Path::exists` -/
def pathExists (p : List Bytes) : Op Bool := .call (.file (.metadata p)) fun x => .ret x.isOk

/-- `tmp_file_counter.fetch_add` -/
def fetchAdd : Op Nat := .call .fetchAdd .ret

/-- `SystemTime::now` -/
def systemNow : Op Nat := .call .now .ret

/-- An early return, unless something holds. -/
def require (b : Bool) (f : Failure) : Op Unit := if b then .ret () else .fail f

/-- A value, or an early return. -/
def demand {α : Type} (o : Option α) (f : Failure) : Op α :=
  match o with
  | some a => .ret a
  | none => .fail f

end Calls

end S3s.Fs
