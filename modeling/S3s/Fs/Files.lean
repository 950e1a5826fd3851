import S3s.Fs.Store

/-! # The files of the store

How the store finds, reads and writes its files, and what it keeps in the internal info of an
object or a part.
-/
namespace S3s.Fs
open LexicalPath Programs FileTree

namespace FileSystem

variable (fs : FileSystem)

/-- A path below the root. -/
def below (p : Option (List Bytes)) : Op (List Bytes) :=
  match p with
  | some p => .ret (p.drop fs.root.length)
  | none => .fail (internal (.io .other))

/-- `get_object_path` -/
def getObjectPath (bucket key : Bytes) : Op (List Bytes) :=
  fs.below (Fs.getObjectPath fs.absolutizeVirtually fs.root bucket key)

/-- `get_bucket_path` -/
def getBucketPath (bucket : Bytes) : Op (List Bytes) :=
  fs.below (Fs.getBucketPath fs.absolutizeVirtually fs.root bucket)

/-- `get_metadata_path`, `get_internal_info_path`, `resolve_upload_part_path`,
`get_upload_part_info_path`, `get_upload_info_path`, and the path of `prepare_file_write`. -/
def getStorePath (file : StoreFile) : Op (List Bytes) :=
  fs.below (storePath fs.absolutizeVirtually fs.root file)

end FileSystem

section Writing

/-- `Drop` of a `FileWriter` that is not done. -/
def discard (tmpPath : List Bytes) : Op Unit := do
  let _ ← tryIo (.removeFile tmpPath)
  pure ()

/-- `FileWriter::done` -/
def done (tmpPath destPath : List Bytes) : Op Unit := do
  io (.createDirAll destPath.dropLast)
  io (.rename tmpPath destPath)

variable (fs : FileSystem)

/-- `prepare_file_write`: the path of the temporary file. -/
def FileSystem.prepareFileWrite : Op (List Bytes) := do
  let counter ← fetchAdd
  let tmpPath ← fs.getStorePath (.temporary counter)
  io (.createFile tmpPath)
  pure tmpPath

/-- The life of a `FileWriter`: what is written goes to the temporary file, which takes the place
of the destination at the end. -/
def FileSystem.writing {α : Type} (destPath : List Bytes) (write : List Bytes → Op α) : Op α := do
  let tmpPath ← fs.prepareFileWrite
  Prog.onFailure (do
    let a ← write tmpPath
    done tmpPath destPath
    pure a) (discard tmpPath)

/-- A file of the store written as a whole. -/
def FileSystem.saveFile (file : StoreFile) (content : Bytes) : Op Unit := do
  let path ← fs.getStorePath file
  fs.writing path fun tmpPath => io (.append tmpPath content)

/-- `remove_file_if_exists` -/
def removeFileIfExists (path : List Bytes) : Op Unit := do
  match ← tryIo (.removeFile path) with
  | .ok () => pure ()
  | .error .notFound => pure ()
  | .error kind => .fail (internal (.io kind))

/-- `copy_bytes`: the body to the temporary file, up to an error. What was read is returned. -/
def copyBytes (tmpPath : List Bytes) : List (Except StreamError Bytes) → Op Bytes
  | [] => pure []
  | .error e :: _ => .fail (streamFailure e)
  | .ok bytes :: stream => do
    io (.append tmpPath bytes)
    let rest ← copyBytes tmpPath stream
    pure (bytes ++ rest)

end Writing

namespace FileSystem

variable (fs : FileSystem)

/-- `load_object_attributes` -/
def loadObjectAttributes (bucket key : Bytes) (uploadId : Option Uuid) :
    Op (Option ObjectAttributes) := do
  let path ← fs.getStorePath (.metadata bucket key uploadId)
  if ← pathExists path then
    let content ← io (.read path)
    match fs.attributes.fromSlice content with
    | some attrs => pure (some attrs)
    | none =>
      -- the old format, which is the user metadata alone
      match fs.oldMetadata content with
      | some userMetadata => pure (some { ObjectAttributes.default with userMetadata := userMetadata })
      | none => pure none
  else pure none

/-- `save_object_attributes` -/
def saveObjectAttributes (bucket key : Bytes) (attrs : ObjectAttributes) (uploadId : Option Uuid) :
    Op Unit :=
  fs.saveFile (.metadata bucket key uploadId) (fs.attributes.toVec attrs)

/-- `delete_metadata` -/
def deleteMetadata (bucket key : Bytes) (uploadId : Option Uuid) : Op Unit := do
  let path ← fs.getStorePath (.metadata bucket key uploadId)
  removeFileIfExists path

/-- `load_internal_info`, `load_upload_part_info` -/
def loadInfo (file : StoreFile) : Op (Option InternalInfo) := do
  let path ← fs.getStorePath file
  if ← pathExists path then
    let content ← io (.read path)
    let info ← demand (fs.info.fromSlice content) (internal .json)
    pure (some info)
  else pure none

def loadInternalInfo (bucket key : Bytes) : Op (Option InternalInfo) :=
  fs.loadInfo (.internalInfo bucket key)

def loadUploadPartInfo (uploadId : Uuid) (partNumber : Int) : Op (Option InternalInfo) :=
  fs.loadInfo (.uploadPartInfo uploadId partNumber)

/-- `save_internal_info` -/
def saveInternalInfo (bucket key : Bytes) (info : InternalInfo) : Op Unit :=
  fs.saveFile (.internalInfo bucket key) (fs.info.toVec info)

/-- `save_upload_part_info` -/
def saveUploadPartInfo (uploadId : Uuid) (partNumber : Int) (info : InternalInfo) : Op Unit :=
  fs.saveFile (.uploadPartInfo uploadId partNumber) (fs.info.toVec info)

/-- `delete_upload_part_info` -/
def deleteUploadPartInfo (uploadId : Uuid) (partNumber : Int) : Op Unit := do
  let path ← fs.getStorePath (.uploadPartInfo uploadId partNumber)
  removeFileIfExists path

/-- `hex` of the MD5 of a content. -/
def md5Sum (content : Bytes) : Bytes := Bytes.encodeHex (fs.digest .md5 content)

/-- `get_md5_sum` -/
def getMd5Sum (bucket key : Bytes) : Op Bytes := do
  let objectPath ← fs.getObjectPath bucket key
  let content ← io (.read objectPath)
  pure (fs.md5Sum content)

/-- `create_upload_id`, which draws the id. -/
def createUploadId (uploadId : Uuid) (cred : Option Bytes) : Op Unit :=
  fs.saveFile (.uploadInfo uploadId) (fs.accessKey.toVec cred)

/-- `verify_upload_id` -/
def verifyUploadId (cred : Option Bytes) (uploadId : Uuid) : Op Bool := do
  let path ← fs.getStorePath (.uploadInfo uploadId)
  if ← pathExists path then
    let content ← io (.read path)
    let ak ← demand (fs.accessKey.fromSlice content) (internal .json)
    pure (ak == cred)
  else pure false

/-- `delete_upload_id` -/
def deleteUploadId (uploadId : Uuid) : Op Unit := do
  let path ← fs.getStorePath (.uploadInfo uploadId)
  removeFileIfExists path

end FileSystem

section Info

/-- `Map::insert` -/
def InternalInfo.insert (info : InternalInfo) (name : Bytes) (value : Option Bytes) : InternalInfo :=
  Grouping.upsert name (fun _ => value) info

/-- `Map::get` -/
def InternalInfo.find (info : InternalInfo) (name : Bytes) : Option (Option Bytes) :=
  @List.lookup _ _ instBEqOfDecidableEq name info

theorem InternalInfo.find_insert (info : InternalInfo) (name name' : Bytes) (value : Option Bytes) :
    (info.insert name value).find name' = if name' = name then some value else info.find name' :=
  Grouping.lookup_upsert name name' (fun _ => value) info

/-- `save_e_tag` -/
def saveETag (info : InternalInfo) (etag : Bytes) : InternalInfo :=
  InternalInfo.insert info (ascii "e_tag") (some etag)

/-- `load_e_tag` -/
def loadETag (info : InternalInfo) : Option Bytes := (info.find (ascii "e_tag")).join

/-- One field of `modify_internal_info`. -/
def insertChecksum (checksum : Checksum) (info : InternalInfo) (a : ChecksumAlgorithm) : InternalInfo :=
  match checksum a with
  | some text => info.insert a.field (some text)
  | none => info

/-- `modify_internal_info` -/
def modifyInternalInfo (info : InternalInfo) (checksum : Checksum) : InternalInfo :=
  ChecksumAlgorithm.all.foldl (insertChecksum checksum) info

/-- One field of `from_internal_info`, which must be a string when it is there. -/
def readChecksum (info : InternalInfo) (a : ChecksumAlgorithm) : Option Bytes :=
  (info.find a.field).join

theorem find_insertChecksum (checksum : Checksum) (info : InternalInfo) (a : ChecksumAlgorithm) (name : Bytes) :
    (insertChecksum checksum info a).find name =
      if name = a.field then ((checksum a).map some).or (info.find name) else info.find name := by
  unfold insertChecksum
  cases checksum a with
  | none => simp
  | some text => rw [InternalInfo.find_insert, Option.map_some, Option.some_or]

theorem find_insertChecksums_of_ne {checksum : Checksum} {algorithms : List ChecksumAlgorithm} {name : Bytes}
    (hname : ∀ a ∈ algorithms, name ≠ a.field) (info : InternalInfo) :
    (algorithms.foldl (insertChecksum checksum) info).find name = info.find name := by
  induction algorithms generalizing info with
  | nil => rfl
  | cons a algorithms ih =>
    rw [List.foldl_cons, ih fun b hb => hname b (List.mem_cons_of_mem a hb), find_insertChecksum,
      if_neg (hname a List.mem_cons_self)]

theorem find_insertChecksums {algorithms : List ChecksumAlgorithm} {a : ChecksumAlgorithm}
    (ha : a ∈ algorithms) (checksum : Checksum) (info : InternalInfo) :
    (algorithms.foldl (insertChecksum checksum) info).find a.field =
      ((checksum a).map some).or (info.find a.field) := by
  induction algorithms generalizing info with
  | nil => cases ha
  | cons b algorithms ih =>
    rw [List.foldl_cons]
    by_cases hmem : a ∈ algorithms
    · rw [ih hmem, find_insertChecksum]
      by_cases hb : a.field = b.field
      · rw [if_pos hb, ← ChecksumAlgorithm.field_injective hb]
        cases checksum a <;> rfl
      · rw [if_neg hb]
    · obtain rfl : a = b := (List.mem_cons.mp ha).resolve_right hmem
      have hrest : ∀ b ∈ algorithms, a.field ≠ b.field := by
        intro b hb heq
        exact hmem (ChecksumAlgorithm.field_injective heq ▸ hb)
      rw [find_insertChecksums_of_ne hrest, find_insertChecksum, if_pos rfl]

theorem eTag_ne_field (a : ChecksumAlgorithm) : ascii "e_tag" ≠ a.field := by cases a <;> decide

/-- What is saved of an object or a part is read again. -/
@[simp] theorem loadETag_modifyInternalInfo (etag : Bytes) (checksum : Checksum) :
    loadETag (modifyInternalInfo (saveETag [] etag) checksum) = some etag := by
  have hfind : (modifyInternalInfo (saveETag [] etag) checksum).find (ascii "e_tag") = some (some etag) := by
    rw [modifyInternalInfo, find_insertChecksums_of_ne fun a _ => eTag_ne_field a, saveETag,
      InternalInfo.find_insert, if_pos rfl]
  rw [loadETag, hfind]
  rfl

@[simp] theorem readChecksum_modifyInternalInfo (etag : Bytes) (checksum : Checksum) (a : ChecksumAlgorithm) :
    readChecksum (modifyInternalInfo (saveETag [] etag) checksum) a = checksum a := by
  have hnone : (saveETag [] etag).find a.field = none := by
    rw [saveETag, InternalInfo.find_insert, if_neg (eTag_ne_field a).symm]
    rfl
  rw [readChecksum, modifyInternalInfo, find_insertChecksums (ChecksumAlgorithm.mem_all a), hnone]
  cases checksum a <;> rfl

/-- `from_internal_info`, with its `unwrap`. -/
def fromInternalInfo (info : InternalInfo) : Op Checksum := do
  require (ChecksumAlgorithm.all.all fun a => (info.find a.field).all Option.isSome) .panic
  pure (readChecksum info)

/-- The ETag of an object: the stored one, or the MD5 of the content. -/
def FileSystem.objectETag (fs : FileSystem) (bucket key : Bytes) (info : Option InternalInfo) :
    Op Bytes :=
  match info.bind loadETag with
  | some etag => pure etag
  | none => fs.getMd5Sum bucket key

end Info

section Checksums

/-- `enable_checksum_algorithm`, also as `put_object` does it itself. -/
def enableChecksumAlgorithm (hasher : ChecksumAlgorithm → Bool) (algorithm : Bytes) :
    Op (ChecksumAlgorithm → Bool) :=
  match ChecksumAlgorithm.all.find? fun a => a.name == algorithm with
  | some a => pure fun b => hasher b || b == a
  | none => .fail (saying .notImplemented (ascii "Unsupported checksum algorithm"))

/-- `enable_checksum_algorithm` for an algorithm that may be given. -/
def enableGiven (hasher : ChecksumAlgorithm → Bool) (algorithm : Option Bytes) :
    Op (ChecksumAlgorithm → Bool) :=
  match algorithm with
  | some algorithm => enableChecksumAlgorithm hasher algorithm
  | none => pure hasher

/-- `enable_expected_checksums`, also as `put_object` does it itself. -/
def enableExpectedChecksums (checksum : Checksum) : ChecksumAlgorithm → Bool :=
  fun a => (checksum a).isSome

/-- `ChecksumHasher::finalize`, of all that was read. -/
def FileSystem.finalize (fs : FileSystem) (hasher : ChecksumAlgorithm → Bool) (content : Bytes) :
    Checksum :=
  fun a => if hasher a then some (Base64.encode (fs.digest a content)) else none

/-- `checksum_mismatch`: the first expected checksum that is not the actual one. -/
def checksumMismatch (actual expected : Checksum) : Option ChecksumAlgorithm :=
  ChecksumAlgorithm.all.find? fun a => (expected a).isSome && actual a != expected a

/-- `has_any_checksum` -/
def hasAnyChecksum (checksum : Checksum) : Bool :=
  ChecksumAlgorithm.all.any fun a => (checksum a).isSome

/-- `HeaderValue::to_str` -/
def toStr (value : Bytes) : Option Bytes :=
  if value.all AwsChunked.isVisible then some value else none

/-- The checksum of one algorithm, taken from the trailing headers when it is there. -/
def trailingChecksum (trailers : Http.HeaderMap) (expected : Checksum) (a : ChecksumAlgorithm) :
    Op Checksum :=
  match (trailers.getAll a.trailer).head? with
  | some value => do
    let text ← demand (toStr value) (bare .invalidArgument)
    pure (Function.update expected a (some text))
  | none => pure expected

/-- The expected checksums with those of the trailing headers, if there are any. -/
def trailingChecksums (trailers : Option Http.HeaderMap) (expected : Checksum) : Op Checksum :=
  match trailers with
  | some trailers => ChecksumAlgorithm.all.foldlM (trailingChecksum trailers) expected
  | none => pure expected

end Checksums

end S3s.Fs
