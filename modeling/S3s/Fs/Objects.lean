import S3s.Fs.Files
import S3s.Http.Range

/-! # The operations on objects

What the store does for the requests that write, copy, read and delete objects.
-/
namespace S3s.Fs
open LexicalPath Programs FileTree

section Conditions

variable (fs : FileSystem)

/-- `If-None-Match` of `put_object` and `complete_multipart_upload`. -/
def checkIfNoneMatch (objectPath : List Bytes) (condition : Option ETagCondition) : Op Unit :=
  match condition with
  | some .any => do
    let present ← pathExists objectPath
    require (!present) (saying .preconditionFailed (ascii "Object already exists"))
  | _ => pure ()

/-- The stored ETag of an object against the expected one. -/
def FileSystem.checkETag (bucket key : Bytes) (condition : ETagCondition) : Op Unit :=
  match condition with
  | .any => pure ()
  | .etag expected => do
    let info ← fs.loadInternalInfo bucket key
    let etag ← fs.objectETag bucket key info
    require ((ETag.strong etag).strongCmp expected)
      (saying .preconditionFailed (ascii "ETag does not match"))

/-- `If-Match` of `put_object` and `complete_multipart_upload`. -/
def FileSystem.checkIfMatch (bucket key : Bytes) (objectPath : List Bytes)
    (condition : Option ETagCondition) : Op Unit :=
  match condition with
  | some condition => do
    let present ← pathExists objectPath
    require present (saying .preconditionFailed (ascii "Object does not exist"))
    fs.checkETag bucket key condition
  | none => pure ()

/-- The conditional headers, checked before any state is modified. -/
def FileSystem.checkConditions (bucket key : Bytes) (objectPath : List Bytes)
    (ifNoneMatch ifMatch : Option ETagCondition) : Op Unit := do
  checkIfNoneMatch objectPath ifNoneMatch
  fs.checkIfMatch bucket key objectPath ifMatch

end Conditions

section Put

/-- `PutObjectInput` -/
structure PutObjectInput where
  bucket : Bytes
  key : Bytes
  body : Option (List (Except StreamError Bytes))
  storageClass : Option Bytes
  contentLength : Option Int
  contentMd5 : Option Bytes
  attributes : StandardAttributes
  ifMatch : Option ETagCondition
  ifNoneMatch : Option ETagCondition
  checksum : Checksum
  checksumAlgorithm : Option Bytes

/-- `PutObjectOutput` -/
structure PutObjectOutput where
  etag : Option ETag
  checksum : Checksum

/-- Whether a key ends in a slash, and so names a directory. -/
def endsWithSlash (key : Bytes) : Bool := key.getLast? == some 47

/-- The message for a checksum that is not the one of the body. -/
def mismatchMessage (a : ChecksumAlgorithm) (actual expected : Checksum) : Bytes :=
  match a with
  | .crc32 => ascii "checksum_crc32 mismatch: expected `" ++ (expected a).getD [] ++ ascii "`, got `" ++
      (actual a).getD [] ++ ascii "`"
  | a => a.field ++ ascii " mismatch"

/-- The `Content-MD5` of the request against the one of the body. -/
def checkContentMd5 (contentMd5 : Option Bytes) (md5Sum : Bytes) : Op Unit :=
  match contentMd5 with
  | some text => do
    let digest ← demand (Base64.decode text) (bare .invalidArgument)
    require (Bytes.encodeHex digest == md5Sum) (saying .badDigest (ascii "content_md5 mismatch"))
  | none => pure ()

/-- The checksums of the body against those of the request, both ways. -/
def checkPutChecksums (actual expected : Checksum) : Op Unit :=
  match ChecksumAlgorithm.all.find? fun a => actual a != expected a with
  | some a => .fail (saying .badDigest (mismatchMessage a actual expected))
  | none => pure ()

variable (fs : FileSystem)

/-- The body of `put_object` to the temporary file, and the checks that follow. -/
def FileSystem.receivePut (input : PutObjectInput) (trailers : Option Http.HeaderMap)
    (stream : List (Except StreamError Bytes)) (hasher : ChecksumAlgorithm → Bool)
    (tmpPath : List Bytes) : Op (Bytes × Checksum) := do
  let content ← copyBytes tmpPath stream
  let md5Sum := fs.md5Sum content
  checkContentMd5 input.contentMd5 md5Sum
  let checksum := fs.finalize hasher content
  let expected ← trailingChecksums trailers input.checksum
  checkPutChecksums checksum expected
  pure (md5Sum, checksum)

/-- `put_object` -/
def FileSystem.putObject (input : PutObjectInput) (trailers : Option Http.HeaderMap) :
    Op PutObjectOutput := do
  require (input.storageClass.all fun c => c == ascii "STANDARD" || c == ascii "REDUCED_REDUNDANCY")
    (bare .invalidStorageClass)
  let stream ← demand input.body (bare .incompleteBody)
  let objectPath ← fs.getObjectPath input.bucket input.key
  fs.checkConditions input.bucket input.key objectPath input.ifNoneMatch input.ifMatch
  let hasher ← enableGiven (enableExpectedChecksums input.checksum) input.checksumAlgorithm
  if endsWithSlash input.key then
    require (input.contentLength.all fun len => len ≤ 0)
      (saying .unexpectedContent
        (ascii "Unexpected request body when creating a directory object."))
    io (.createDirAll objectPath)
    pure ⟨none, fun _ => none⟩
  else
    let (md5Sum, checksum) ← fs.writing objectPath (fs.receivePut input trailers stream hasher)
    fs.saveObjectAttributes input.bucket input.key ⟨input.attributes, none, none⟩ none
    fs.saveInternalInfo input.bucket input.key
      (modifyInternalInfo (saveETag [] md5Sum) checksum)
    pure ⟨some (.strong md5Sum), checksum⟩

end Put

section Copy

/-- `CopySource`: an object of a bucket, or an access point or outpost. -/
inductive CopySource where
  | object (bucket key : Bytes)
  | other

/-- `CopyObjectInput` -/
structure CopyObjectInput where
  bucket : Bytes
  key : Bytes
  copySource : CopySource
  copySourceIfMatch : Option ETagCondition
  copySourceIfNoneMatch : Option ETagCondition
  copySourceIfModifiedSince : Option Int
  copySourceIfUnmodifiedSince : Option Int
  metadataDirective : Option Bytes
  attributes : StandardAttributes

/-- `CopyObjectResult` -/
structure CopyObjectResult where
  etag : ETag
  lastModified : Nat

variable (fs : FileSystem)

/-- The bucket and the key of the source. -/
def CopySource.location : CopySource → Op (Bytes × Bytes)
  | object bucket key => pure (bucket, key)
  | other => .fail (bare .notImplemented)

/-- Whether a condition holds, by a comparison with the given ETag. -/
def ETagCondition.holds (condition : ETagCondition) (compare : ETag → Bool) : Bool :=
  match condition with
  | any => true
  | etag e => compare e

/-- The ETag of an object, if it is known by now, or the MD5 of its content. -/
def FileSystem.sourceETag (bucket key : Bytes) (etag : Option Bytes) : Op Bytes :=
  match etag with
  | some etag => pure etag
  | none => fs.getMd5Sum bucket key

/-- `copy_source_if_match`, or `copy_source_if_unmodified_since`. The ETag is taken along once it
is known. -/
def FileSystem.checkSourceMatch (input : CopyObjectInput) (bucket key : Bytes) (lastModified : Nat)
    (etag : Option Bytes) : Op (Option Bytes) :=
  match input.copySourceIfMatch with
  | some condition => do
    let etag ← fs.sourceETag bucket key etag
    require (condition.holds fun e => (ETag.strong etag).strongCmp e) (bare .preconditionFailed)
    pure (some etag)
  | none => do
    require (input.copySourceIfUnmodifiedSince.all fun since => (lastModified : Int) ≤ since)
      (bare .preconditionFailed)
    pure etag

/-- `copy_source_if_none_match`, or `copy_source_if_modified_since`. -/
def FileSystem.checkSourceNoneMatch (input : CopyObjectInput) (bucket key : Bytes)
    (lastModified : Nat) (etag : Option Bytes) : Op (Option Bytes) :=
  match input.copySourceIfNoneMatch with
  | some condition => do
    let etag ← fs.sourceETag bucket key etag
    require (!condition.holds fun e => (ETag.strong etag).weakCmp e) (bare .preconditionFailed)
    pure (some etag)
  | none => do
    require (input.copySourceIfModifiedSince.all fun since => since < (lastModified : Int))
      (bare .preconditionFailed)
    pure etag

/-- The attributes of the copy: new ones, or a copy of the source's file. -/
def FileSystem.copyAttributes (input : CopyObjectInput) (bucket key : Bytes) : Op Unit := do
  if input.metadataDirective == some (ascii "REPLACE") then
    fs.saveObjectAttributes input.bucket input.key ⟨input.attributes, none, none⟩ none
  else
    let srcMetadataPath ← fs.getStorePath (.metadata bucket key none)
    if ← pathExists srcMetadataPath then
      let dstMetadataPath ← fs.getStorePath (.metadata input.bucket input.key none)
      if srcMetadataPath ≠ dstMetadataPath then io (.copy srcMetadataPath dstMetadataPath)
      else pure ()
    else pure ()

/-- The content of the copy, or a new time for an object that is copied onto itself. -/
def copyData (srcPath dstPath : List Bytes) : Op Nat := do
  io (.createDirAll dstPath.dropLast)
  if srcPath = dstPath then
    let now ← systemNow
    io (.setModified dstPath now)
    pure now
  else
    io (.copy srcPath dstPath)
    let dst ← io (.metadata dstPath)
    pure (Stat.modified dst)

/-- `copy_object` -/
def FileSystem.copyObject (input : CopyObjectInput) : Op CopyObjectResult := do
  let (bucket, key) ← input.copySource.location
  let srcPath ← fs.getObjectPath bucket key
  let dstPath ← fs.getObjectPath input.bucket input.key
  require (← pathExists srcPath) (bare .noSuchKey)
  let bucketPath ← fs.getBucketPath input.bucket
  require (← pathExists bucketPath) (bare .noSuchBucket)
  let src ← io (.metadata srcPath)
  let srcInfo ← fs.loadInternalInfo bucket key
  let srcETag ← fs.checkSourceMatch input bucket key (Stat.modified src) (srcInfo.bind loadETag)
  let srcETag ← fs.checkSourceNoneMatch input bucket key (Stat.modified src) srcETag
  let lastModified ← copyData srcPath dstPath
  let dstETag ← fs.sourceETag input.bucket input.key srcETag
  fs.copyAttributes input bucket key
  fs.saveInternalInfo input.bucket input.key (saveETag (srcInfo.getD []) dstETag)
  pure ⟨.strong dstETag, lastModified⟩

end Copy

section Delete

variable (fs : FileSystem)

/-- `delete_object` -/
def FileSystem.deleteObject (bucket key : Bytes) : Op Unit := do
  let path ← fs.getObjectPath bucket key
  if ← pathExists path then
    if endsWithSlash key then
      let entries ← io (.readDir path)
      if List.isEmpty entries then io (.removeDir path) else pure ()
    else io (.removeFile path)
  else
    let bucketPath ← fs.getBucketPath bucket
    require (← pathExists bucketPath) (bare .noSuchBucket)

/-- One object of `delete_objects`. -/
def FileSystem.deleteOne (bucket key : Bytes) : Op Unit := do
  let path ← fs.getObjectPath bucket key
  if endsWithSlash key then
    match ← tryIo (.readDir path) with
    | .ok entries => if List.isEmpty entries then io (.removeDir path) else pure ()
    | .error .notFound => pure ()
    | .error kind => .fail (internal (.io kind))
  else removeFileIfExists path

/-- `DeletedObject` -/
structure DeletedObject where
  key : Bytes
  versionId : Option Bytes
deriving DecidableEq

/-- `delete_objects` -/
def FileSystem.deleteObjects (bucket : Bytes) : List DeletedObject → Op (List DeletedObject)
  | [] => pure []
  | object :: objects => do
    fs.deleteOne bucket object.key
    let deleted ← deleteObjects bucket objects
    pure (object :: deleted)

end Delete

section Read

variable (fs : FileSystem)

/-- What is told of an object along with its content or without it. -/
structure ObjectHead where
  contentLength : Nat
  lastModified : Nat
  attributes : StandardAttributes
  etag : ETag
  checksum : Checksum

/-- `GetObjectOutput`. The body of a directory cannot be read. -/
structure GetObjectOutput extends ObjectHead where
  body : Except ErrorKind Bytes
  contentRange : Option Bytes

/-- `fmt_content_range` -/
def fmtContentRange (start endInclusive size : Nat) : Bytes :=
  ascii "bytes " ++ Bytes.decimal start ++ ascii "-" ++ Bytes.decimal endInclusive ++ ascii "/" ++
    Bytes.decimal size

/-- The largest `i64`. -/
def i64Max : Nat := 9223372036854775807

/-- How far to seek for a range: a position is an `i64`. A suffix longer than the file is before its
start. -/
def seekPosition (range : Option Http.Range) (fileLen : Nat) : Op Nat :=
  match range with
  | some (.int first _) => do
    require (first ≤ i64Max) (internal (.io .other))
    pure first
  | some (.suffix length) => do
    require (length ≤ i64Max) .panic
    require (length ≤ fileLen) (internal (.io .other))
    pure (fileLen - length)
  | none => pure 0

/-- The stored checksums, for an object that is read as a whole. -/
def storedChecksum (info : Option InternalInfo) (whole : Bool) : Op Checksum :=
  match info with
  | some info => if whole then fromInternalInfo info else pure fun _ => none
  | none => pure fun _ => none

/-- The attributes, the ETag and the checksums of an object. -/
def FileSystem.describe (bucket key : Bytes) (whole : Bool) :
    Op (Option ObjectAttributes × Bytes × Checksum) := do
  let attrs ← fs.loadObjectAttributes bucket key none
  let info ← fs.loadInternalInfo bucket key
  let md5Sum ← fs.objectETag bucket key info
  let checksum ← storedChecksum info whole
  pure (attrs, md5Sum, checksum)

/-- The attributes that are answered. -/
def standardOf (attrs : Option ObjectAttributes) : StandardAttributes :=
  (attrs.map ObjectAttributes.toStandardAttributes).getD .default

/-- `File::open` of an object. -/
def openObject (objectPath : List Bytes) : Op (Entry UInt8) := do
  match ← tryIo (.open objectPath) with
  | .ok file => pure file
  | .error kind => .fail (.error ⟨.noSuchKey, none, some (.io kind)⟩)

/-- The length and the `Content-Range` of what is read. A difference that underflows panics; without
overflow checks it wraps, and the seek fails. -/
def selectRange (range : Option Http.Range) (fileLen : Nat) : Op (Nat × Option Bytes) :=
  match range with
  | none => pure (fileLen, none)
  | some range => do
    let (first, behind) ← demand (range.check fileLen) (bare .invalidRange)
    let contentLength ← demand (Http.Range.subU64 behind first) .panic
    let endInclusive ← demand (Http.Range.subU64 behind 1) .panic
    pure (contentLength, some (fmtContentRange first endInclusive fileLen))

/-- `bytes_stream`: the chunks of a file, cut at a number of bytes. -/
def bytesStream : List Bytes → Nat → List Bytes
  | [], _ => []
  | bytes :: stream, remaining =>
    let bytes := if bytes.length > remaining then bytes.take remaining else bytes
    bytes :: bytesStream stream (remaining - bytes.length)

theorem flatten_bytesStream (stream : List Bytes) (remaining : Nat) :
    (bytesStream stream remaining).flatten = stream.flatten.take remaining := by
  induction stream generalizing remaining with
  | nil => simp [bytesStream]
  | cons bytes stream ih =>
    rw [bytesStream, List.flatten_cons, List.flatten_cons, List.take_append, ih]
    by_cases hlong : bytes.length > remaining
    · have hrest : remaining - (bytes.take remaining).length = remaining - bytes.length := by
        rw [List.length_take]
        omega
      rw [if_pos hlong, hrest]
    · rw [if_neg hlong, List.take_of_length_le (Nat.le_of_not_lt hlong)]

/-- What the stream of an opened file gives, whichever chunks it is read in. -/
def readFrom (file : Entry UInt8) (start length : Nat) : Except ErrorKind Bytes :=
  match file with
  | .file content _ => .ok ((content.drop start).take length)
  | .dir => .error .isADirectory

theorem readFrom_file {content : Bytes} {m start : Nat} {chunks : List Bytes}
    (hchunks : chunks.flatten = content.drop start) (length : Nat) :
    readFrom (.file content m) start length = .ok (bytesStream chunks length).flatten := by
  rw [flatten_bytesStream, hchunks]
  rfl

/-- `get_object` -/
def FileSystem.getObject (bucket key : Bytes) (range : Option Http.Range) : Op GetObjectOutput := do
  let objectPath ← fs.getObjectPath bucket key
  let file ← openObject objectPath
  let stat ← io (.metadata objectPath)
  let (contentLength, contentRange) ← selectRange range (Stat.len stat)
  require (contentLength ≤ i64Max) (internal .int)
  let start ← seekPosition range (Stat.len stat)
  let (attrs, md5Sum, checksum) ← fs.describe bucket key (contentLength == Stat.len stat)
  pure ⟨⟨contentLength, Stat.modified stat, standardOf attrs, .strong md5Sum, checksum⟩,
    readFrom file start contentLength, contentRange⟩

/-- `head_object` -/
def FileSystem.headObject (bucket key : Bytes) : Op ObjectHead := do
  let path ← fs.getObjectPath bucket key
  if ← pathExists path then
    let stat ← io (.metadata path)
    require (!Stat.isDir stat) (bare .noSuchKey)
    let (attrs, md5Sum, checksum) ← fs.describe bucket key true
    pure ⟨Stat.len stat, Stat.modified stat, standardOf attrs, .strong md5Sum, checksum⟩
  else
    let bucketPath ← fs.getBucketPath bucket
    require (← pathExists bucketPath) (bare .noSuchBucket)
    .fail (bare .noSuchKey)

end Read

end S3s.Fs
