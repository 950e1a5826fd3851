import S3s.Fs.Objects

/-! # The operations on multipart uploads

An upload is a record of who created it, a file with the attributes of the object to be, and a
file with an info file for each part.
-/
namespace S3s.Fs
open LexicalPath Programs FileTree

/-- `ChecksumType::FULL_OBJECT` -/
def fullObject : Bytes := ascii "FULL_OBJECT"

/-- A checksum type that may be given must be the supported one. -/
def checkChecksumType (checksumType : Option Bytes) : Op Unit :=
  require (checksumType.all fun t => t == fullObject)
    (saying .notImplemented (ascii "Unsupported multipart checksum type"))

/-- `CreateMultipartUploadInput` -/
structure CreateMultipartUploadInput where
  bucket : Bytes
  key : Bytes
  attributes : StandardAttributes
  checksumAlgorithm : Option Bytes
  checksumType : Option Bytes

/-- `UploadPartInput`. The `Content-MD5` is not looked at. -/
structure UploadPartInput where
  bucket : Bytes
  key : Bytes
  uploadId : Bytes
  partNumber : Int
  body : Option (List (Except StreamError Bytes))
  contentMd5 : Option Bytes
  checksum : Checksum
  checksumAlgorithm : Option Bytes

/-- `UploadPartOutput` -/
structure UploadPartOutput where
  etag : ETag
  checksum : Checksum

/-- `UploadPartCopyInput` -/
structure UploadPartCopyInput where
  bucket : Bytes
  key : Bytes
  uploadId : Bytes
  partNumber : Int
  copySource : CopySource
  copySourceRange : Option Bytes

/-- `Part` -/
structure Part where
  partNumber : Int
  size : Nat
  lastModified : Nat
  etag : Option ETag
  checksum : Checksum

/-- `CompletedPart`. The ETag is not looked at. -/
structure CompletedPart where
  partNumber : Option Int
  etag : Option ETag
  checksum : Checksum

/-- `CompleteMultipartUploadInput` -/
structure CompleteMultipartUploadInput where
  bucket : Bytes
  key : Bytes
  uploadId : Bytes
  multipartUpload : Option (Option (List CompletedPart))
  ifMatch : Option ETagCondition
  ifNoneMatch : Option ETagCondition
  checksum : Checksum
  checksumType : Option Bytes

/-- `CompleteMultipartUploadOutput` -/
structure CompleteMultipartUploadOutput where
  bucket : Bytes
  key : Bytes
  etag : ETag
  checksum : Checksum
  checksumType : Option Bytes

section Parts

variable (fs : FileSystem)

/-- `Uuid::parse_str`, and the record of the upload. -/
def FileSystem.openUpload (cred : Option Bytes) (uploadId : Bytes) : Op Uuid := do
  let uploadId ← demand (fs.parseUuid uploadId) (bare .invalidRequest)
  require (← fs.verifyUploadId cred uploadId) (bare .accessDenied)
  pure uploadId

/-- `create_multipart_upload`, for the id that is drawn. -/
def FileSystem.createMultipartUpload (input : CreateMultipartUploadInput) (cred : Option Bytes)
    (uploadId : Uuid) : Op Uuid := do
  checkChecksumType input.checksumType
  fs.createUploadId uploadId cred
  fs.saveObjectAttributes input.bucket input.key
    ⟨input.attributes, input.checksumAlgorithm, input.checksumType⟩ (some uploadId)
  pure uploadId

/-- A mismatch of `checksum_mismatch` as an error. -/
def checkExpected (actual expected : Checksum) (failure : ChecksumAlgorithm → Failure) : Op Unit :=
  match checksumMismatch actual expected with
  | some a => .fail (failure a)
  | none => pure ()

/-- The error of `upload_part`, `upload_part_copy` and `complete_multipart_upload` for a checksum. -/
def digestMismatch (a : ChecksumAlgorithm) : Failure :=
  saying .badDigest (a.field ++ ascii " mismatch")

/-- The body of a part to the temporary file, and the checks that follow. -/
def FileSystem.receivePart (expected : Checksum) (trailers : Option Http.HeaderMap)
    (stream : List (Except StreamError Bytes)) (hasher : ChecksumAlgorithm → Bool)
    (tmpPath : List Bytes) : Op (Bytes × Checksum) := do
  let content ← copyBytes tmpPath stream
  let expected ← trailingChecksums trailers expected
  let checksum := fs.finalize hasher content
  checkExpected checksum expected digestMismatch
  pure (fs.md5Sum content, checksum)

/-- `upload_part` -/
def FileSystem.uploadPart (input : UploadPartInput) (cred : Option Bytes)
    (trailers : Option Http.HeaderMap) : Op UploadPartOutput := do
  require (input.partNumber ≤ 10000)
    (saying .invalidArgument
      (ascii "Part number must be an integer between 1 and 10000, inclusive"))
  let stream ← demand input.body (bare .incompleteBody)
  let uploadId ← fs.openUpload cred input.uploadId
  let uploadAttrs ← fs.loadObjectAttributes input.bucket input.key (some uploadId)
  let filePath ← fs.getStorePath (.uploadPart uploadId input.partNumber)
  let hasher ← enableGiven (enableExpectedChecksums input.checksum)
    (uploadAttrs.bind ObjectAttributes.checksumAlgorithm)
  let hasher ← enableGiven hasher input.checksumAlgorithm
  let (md5Sum, checksum) ← fs.writing filePath (fs.receivePart input.checksum trailers stream hasher)
  fs.saveUploadPartInfo uploadId input.partNumber (modifyInternalInfo (saveETag [] md5Sum) checksum)
  pure ⟨.strong md5Sum, checksum⟩

end Parts

section PartCopy

/-- `str::parse::<u64>` -/
def parseU64 (s : Bytes) : Option Nat :=
  let digits := if s.head? = some 43 then s.drop 1 else s
  if digits ≠ [] ∧ digits.all Bytes.isDigit then
    let n := digits.foldl (fun n c => n * 10 + (c.toNat - 48)) 0
    if n < 2 ^ 64 then some n else none
  else none

/-- `str::parse::<i32>` -/
def parseI32 (s : Bytes) : Option Int :=
  let digits := if s.head? = some 43 ∨ s.head? = some 45 then s.drop 1 else s
  if digits ≠ [] ∧ digits.all Bytes.isDigit then
    let n : Int := digits.foldl (fun n c => n * 10 + (c.toNat - 48)) 0
    let n := if s.head? = some 45 then -n else n
    if -2147483648 ≤ n ∧ n ≤ 2147483647 then some n else none
  else none

/-- What an optional prefix is in front of. -/
def stripPrefix (s start : Bytes) : Option Bytes :=
  if start.isPrefixOf s then some (s.drop start.length) else none

/-- The start and the length of the bytes that `copy_source_range` selects. -/
def copySourceInterval (copyRange : Option Bytes) (fileLen : Nat) : Op (Nat × Nat) :=
  match copyRange with
  | some copyRange => do
    let range ← demand (stripPrefix copyRange (ascii "bytes=")) (bare .invalidArgument)
    match range.splitOn 45 with
    | [from', upto] => do
      let start ← demand (parseU64 from') (bare .invalidArgument)
      let endInclusive ← demand (if upto = [] then some (fileLen - 1) else parseU64 upto)
        (bare .invalidArgument)
      require (!(endInclusive < start || fileLen ≤ start || fileLen ≤ endInclusive))
        (bare .invalidRange)
      pure (start, endInclusive - start + 1)
    | _ => .fail (bare .invalidArgument)
  | none => pure (0, fileLen)

variable (fs : FileSystem)

/-- The stream of the source, which the file system may fail on. -/
def sourceStream (file : Entry UInt8) (start length : Nat) : List (Except StreamError Bytes) :=
  match readFrom file start length with
  | .ok content => [.ok content]
  | .error _ => [.error .other]

/-- `upload_part_copy` -/
def FileSystem.uploadPartCopy (input : UploadPartCopyInput) (cred : Option Bytes) :
    Op UploadPartOutput := do
  let uploadId ← fs.openUpload cred input.uploadId
  let uploadAttrs ← fs.loadObjectAttributes input.bucket input.key (some uploadId)
  let (srcBucket, srcKey) ← input.copySource.location
  let srcPath ← fs.getObjectPath srcBucket srcKey
  let dstPath ← fs.getStorePath (.uploadPart uploadId input.partNumber)
  let srcFile ← openObject srcPath
  let stat ← io (.metadata srcPath)
  let (start, contentLength) ← copySourceInterval input.copySourceRange (Stat.len stat)
  let hasher ← enableGiven (enableExpectedChecksums fun _ => none)
    (uploadAttrs.bind ObjectAttributes.checksumAlgorithm)
  let content ← fs.writing dstPath fun tmpPath =>
    copyBytes tmpPath (sourceStream srcFile start contentLength)
  let md5Sum := fs.md5Sum content
  let checksum := fs.finalize hasher content
  checkExpected checksum (fun _ => none) digestMismatch
  fs.saveUploadPartInfo uploadId input.partNumber (modifyInternalInfo (saveETag [] md5Sum) checksum)
  pure ⟨.strong md5Sum, checksum⟩

end PartCopy

section ListParts

variable (fs : FileSystem)

/-- The number of the part that a file of the root is, by the text of the upload id. The text behind
`.part-` must be a number. -/
def partOfName (uploadId name : Bytes) : Op (Option Int) :=
  match (stripPrefix name (ascii ".upload_id-" ++ uploadId)).bind fun s =>
      stripPrefix s (ascii ".part-") with
  | some text => do
    let partNumber ← demand (parseI32 text) .panic
    pure (some partNumber)
  | none => pure none

/-- What is told of a stored part. -/
def FileSystem.describePart (uploadId : Uuid) (name : Bytes) (partNumber : Int) : Op Part := do
  let stat ← io (.metadata [name])
  let info ← fs.loadUploadPartInfo uploadId partNumber
  let checksum ← storedChecksum info true
  pure ⟨partNumber, Stat.len stat, Stat.modified stat, (info.bind loadETag).map .strong, checksum⟩

/-- The stored parts among the entries of the root. -/
def FileSystem.listEntries (uploadText : Bytes) (uploadId : Uuid) : List (Bytes × Bool) → Op (List Part)
  | [] => pure []
  | (_, true) :: entries => listEntries uploadText uploadId entries
  | (name, false) :: entries => do
    match ← partOfName uploadText name with
    | some partNumber =>
      let part ← fs.describePart uploadId name partNumber
      let parts ← listEntries uploadText uploadId entries
      pure (part :: parts)
    | none => listEntries uploadText uploadId entries

/-- `list_parts` -/
def FileSystem.listParts (uploadId : Bytes) : Op (List Part) := do
  let uploadUuid ← demand (fs.parseUuid uploadId) (bare .invalidRequest)
  let entries ← io (.readDir [])
  fs.listEntries uploadId uploadUuid entries

end ListParts

section Complete

/-- The least size of a part that is not the last one. -/
def minPartSize : Nat := 5 * 1024 * 1024

variable (fs : FileSystem)

/-- One listed part to the temporary file: its number must be the next one. What is returned is the
content of the part. -/
def FileSystem.appendPart (uploadId : Uuid) (total : Int) (tmpPath : List Bytes) (cnt : Int)
    (part : CompletedPart) : Op Bytes := do
  let partNumber ← demand part.partNumber (saying .invalidRequest (ascii "missing part number"))
  require (partNumber == cnt) (saying .invalidRequest (ascii "invalid part order"))
  let partPath ← fs.getStorePath (.uploadPart uploadId partNumber)
  let partInfo ← fs.loadUploadPartInfo uploadId partNumber
  let savedChecksum ← storedChecksum partInfo true
  checkExpected savedChecksum part.checksum fun a =>
    saying .invalidPart (a.field ++ ascii " mismatch for part " ++ partText partNumber)
  let content ← io (.read partPath)
  io (.append tmpPath content)
  require (partNumber == total || minPartSize ≤ List.length content) (bare .entityTooSmall)
  pure content

/-- The listed parts in turn, from the number behind `cnt` on. -/
def FileSystem.appendParts (uploadId : Uuid) (total : Int) (tmpPath : List Bytes) :
    Int → List CompletedPart → Op (List Bytes)
  | _, [] => pure []
  | cnt, part :: parts => do
    let content ← fs.appendPart uploadId total tmpPath (cnt + 1) part
    let contents ← appendParts uploadId total tmpPath (cnt + 1) parts
    pure (content :: contents)

/-- The ETag of an object that was put together: the MD5 of those of the parts, and their number. -/
def FileSystem.multipartETag (contents : List Bytes) : Bytes :=
  Bytes.encodeHex (fs.digest .md5 (contents.flatMap (fs.digest .md5))) ++ ascii "-" ++
    Bytes.decimal contents.length

/-- The parts to the temporary file, and the checks of the checksums. -/
def FileSystem.assemble (input : CompleteMultipartUploadInput) (uploadId : Uuid)
    (parts : List CompletedPart) (hasher : ChecksumAlgorithm → Bool) (tmpPath : List Bytes) :
    Op (Bytes × Checksum) := do
  require (parts.length ≤ 2147483647) .panic
  let contents ← fs.appendParts uploadId parts.length tmpPath 0 parts
  let checksum := fs.finalize hasher contents.flatten
  checkExpected checksum input.checksum digestMismatch
  pure (fs.multipartETag contents, checksum)

/-- Whether a step of the cleanup failed. -/
def failed (step : Op Unit) : Op Bool := do
  let outcome ← (Prog.attempt step : Op (Except Failure Unit))
  pure !outcome.isOk

/-- The listed parts removed, with their infos. -/
def FileSystem.cleanupParts (uploadId : Uuid) : List Int → Op Bool
  | [] => pure false
  | partNumber :: partNumbers => do
    let first ← failed do
      let partPath ← fs.getStorePath (.uploadPart uploadId partNumber)
      removeFileIfExists partPath
    let second ← failed (fs.deleteUploadPartInfo uploadId partNumber)
    let rest ← cleanupParts uploadId partNumbers
    pure (first || second || rest)

/-- What is removed behind the completion. The record of the upload stays while residue is left. -/
def FileSystem.cleanup (bucket key : Bytes) (uploadId : Uuid) (partNumbers : List Int) : Op Unit := do
  let first ← failed (fs.deleteMetadata bucket key (some uploadId))
  let rest ← fs.cleanupParts uploadId partNumbers
  if first || rest then pure ()
  else
    let _ ← failed (fs.deleteUploadId uploadId)
    pure ()

/-- The attributes of the upload, when there are any, made those of the object. -/
def FileSystem.saveUploadAttributes (bucket key : Bytes) (attrs : Option ObjectAttributes) : Op Unit :=
  match attrs with
  | some attrs => fs.saveObjectAttributes bucket key attrs none
  | none => pure ()

/-- `complete_multipart_upload` -/
def FileSystem.completeMultipartUpload (input : CompleteMultipartUploadInput) (cred : Option Bytes) :
    Op CompleteMultipartUploadOutput := do
  let multipartUpload ← demand input.multipartUpload (bare .invalidPart)
  let parts := multipartUpload.getD []
  require (parts ≠ []) (saying .invalidPart (ascii "You must specify at least one part"))
  let uploadId ← fs.openUpload cred input.uploadId
  checkChecksumType input.checksumType
  let uploadAttrs ← fs.loadObjectAttributes input.bucket input.key (some uploadId)
  checkChecksumType (uploadAttrs.bind ObjectAttributes.checksumType)
  let objectPath ← fs.getObjectPath input.bucket input.key
  fs.checkConditions input.bucket input.key objectPath input.ifNoneMatch input.ifMatch
  let hasher ← enableGiven (enableExpectedChecksums input.checksum)
    (uploadAttrs.bind ObjectAttributes.checksumAlgorithm)
  let (etag, checksum) ← fs.writing objectPath (fs.assemble input uploadId parts hasher)
  fs.saveUploadAttributes input.bucket input.key uploadAttrs
  fs.saveInternalInfo input.bucket input.key (modifyInternalInfo (saveETag [] etag) checksum)
  fs.cleanup input.bucket input.key uploadId (parts.filterMap CompletedPart.partNumber)
  pure ⟨input.bucket, input.key, .strong etag, checksum,
    if hasAnyChecksum checksum then some fullObject else none⟩

end Complete

section Abort

variable (fs : FileSystem)

/-- Whether a file of the root is a part of an upload, or the info of one. -/
def isResidue (uploadId : Uuid) (name : Bytes) : Bool :=
  (ascii ".upload_id-" ++ uploadId.text).isPrefixOf name ||
    (ascii ".upload_part_info-" ++ uploadId.text).isPrefixOf name

/-- The entries of the root that belong to an upload, removed. -/
def removeResidue (uploadId : Uuid) : List (Bytes × Bool) → Op Unit
  | [] => pure ()
  | (name, _) :: entries =>
    if isResidue uploadId name then do
      removeFileIfExists [name]
      removeResidue uploadId entries
    else removeResidue uploadId entries

/-- `abort_multipart_upload` -/
def FileSystem.abortMultipartUpload (bucket key uploadId : Bytes) (cred : Option Bytes) : Op Unit := do
  let uploadId ← fs.openUpload cred uploadId
  fs.deleteMetadata bucket key (some uploadId)
  let entries ← io (.readDir [])
  removeResidue uploadId entries
  fs.deleteUploadId uploadId

end Abort

end S3s.Fs
