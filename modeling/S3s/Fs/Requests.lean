import S3s.Fs.Codecs
import S3s.Fs.Listing
import S3s.Fs.Objects
import S3s.Fs.Uploads

/-! # The requests

What the store does for the requests on buckets, and for a request of any kind. Requests are
served one after another.
-/
namespace S3s.Fs
open LexicalPath Programs FileTree Routing

section Buckets

variable (fs : FileSystem)

/-- `create_bucket` -/
def FileSystem.createBucket (bucket : Bytes) : Op Unit := do
  let path ← fs.getBucketPath bucket
  let present ← pathExists path
  require (!present) (bare .bucketAlreadyExists)
  io (.createDir path)

/-- `delete_bucket` -/
def FileSystem.deleteBucket (bucket : Bytes) : Op Unit := do
  let path ← fs.getBucketPath bucket
  let present ← pathExists path
  require present (bare .noSuchBucket)
  io (.removeDirAll path)

/-- `head_bucket`, `get_bucket_location` -/
def FileSystem.headBucket (bucket : Bytes) : Op Unit := do
  let path ← fs.getBucketPath bucket
  let present ← pathExists path
  require present (bare .noSuchBucket)

/-- The buckets among the entries of the root. -/
def bucketNames : List (Bytes × Bool) → Op (List Bytes)
  | [] => pure []
  | (name, isDir) :: entries =>
    if isDir && checkBucketName name then do
      let _ ← io (.metadata [name])
      let names ← bucketNames entries
      pure (name :: names)
    else bucketNames entries

/-- `list_buckets` -/
def listBuckets : Op (List Bytes) := do
  let entries ← io (.readDir [])
  bucketNames entries

end Buckets

/-- A request, with the id that is drawn for an upload. -/
inductive Request where
  | createBucket (bucket : Bytes)
  | deleteBucket (bucket : Bytes)
  | headBucket (bucket : Bytes)
  | getBucketLocation (bucket : Bytes)
  | listBuckets
  | listObjects (input : ListObjectsInput)
  | listObjectsV2 (input : ListObjectsV2Input)
  | getObject (bucket key : Bytes) (range : Option Http.Range)
  | headObject (bucket key : Bytes)
  | putObject (input : PutObjectInput) (trailers : Option Http.HeaderMap)
  | copyObject (input : CopyObjectInput)
  | deleteObject (bucket key : Bytes)
  | deleteObjects (bucket : Bytes) (objects : List DeletedObject)
  | createMultipartUpload (input : CreateMultipartUploadInput) (drawn : Uuid)
  | uploadPart (input : UploadPartInput) (trailers : Option Http.HeaderMap)
  | uploadPartCopy (input : UploadPartCopyInput)
  | listParts (bucket key uploadId : Bytes)
  | completeMultipartUpload (input : CompleteMultipartUploadInput)
  | abortMultipartUpload (bucket key uploadId : Bytes)

/-- What a request is answered with. -/
inductive Response where
  | done
  | buckets (names : List Bytes)
  | objects (output : ListObjectsOutput)
  | objectsV2 (output : ListObjectsV2Output)
  | object (output : GetObjectOutput)
  | head (output : ObjectHead)
  | put (output : PutObjectOutput)
  | copied (output : CopyObjectResult)
  | deleted (objects : List DeletedObject)
  | created (uploadId : Uuid)
  | part (output : UploadPartOutput)
  | parts (parts : List Part)
  | completed (output : CompleteMultipartUploadOutput)

/-- An operation alone on the store, without failures from outside. -/
def alone {α : Type} (p : Op α) (f : α → Response) : World → Except Failure Response × World :=
  Prog.run World.step (p >>= fun a => pure (f a))

/-- What is read of the files as they are. -/
def reading {α : Type} (g : Tree Bytes UInt8 → Except Failure α) (f : α → Response) :
    World → Except Failure Response × World :=
  fun w => ((g w.disk).map f, w)

/-- A request alone on the store. -/
def FileSystem.serve (fs : FileSystem) (cred : Option Bytes) :
    Request → World → Except Failure Response × World
  | .createBucket bucket => alone (fs.createBucket bucket) fun _ => .done
  | .deleteBucket bucket => alone (fs.deleteBucket bucket) fun _ => .done
  | .headBucket bucket => alone (fs.headBucket bucket) fun _ => .done
  | .getBucketLocation bucket => alone (fs.headBucket bucket) fun _ => .done
  | .listBuckets => alone Fs.listBuckets .buckets
  | .listObjects input => reading (fs.listObjects · input) .objects
  | .listObjectsV2 input => reading (fs.listObjectsV2 · input) .objectsV2
  | .getObject bucket key range => alone (fs.getObject bucket key range) .object
  | .headObject bucket key => alone (fs.headObject bucket key) .head
  | .putObject input trailers => alone (fs.putObject input trailers) .put
  | .copyObject input => alone (fs.copyObject input) .copied
  | .deleteObject bucket key => alone (fs.deleteObject bucket key) fun _ => .done
  | .deleteObjects bucket objects => alone (fs.deleteObjects bucket objects) .deleted
  | .createMultipartUpload input drawn => alone (fs.createMultipartUpload input cred drawn) .created
  | .uploadPart input trailers => alone (fs.uploadPart input cred trailers) .part
  | .uploadPartCopy input => alone (fs.uploadPartCopy input cred) .part
  | .listParts _ _ uploadId => alone (fs.listParts uploadId) .parts
  | .completeMultipartUpload input => alone (fs.completeMultipartUpload input cred) .completed
  | .abortMultipartUpload bucket key uploadId =>
    alone (fs.abortMultipartUpload bucket key uploadId cred) fun _ => .done

/-- A request and who asks it. -/
abbrev Asked := Option Bytes × Request

/-- The store behind a request. -/
def FileSystem.next (fs : FileSystem) (w : World) (r : Asked) : World := (fs.serve r.1 r.2 w).2

/-- A store that nothing was done to. -/
def World.empty : World := ⟨.empty, 0, fun _ => 0, 0, ⟨true, 0, 0⟩⟩

end S3s.Fs
