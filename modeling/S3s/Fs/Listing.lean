import S3s.Fs.Files
import S3s.Library.FileScan
import S3s.Library.Pages
import S3s.Library.Search
import S3s.Library.Utf8

/-! # Listing the objects of a bucket

All files below the bucket are gone through, put together under a delimiter, sorted, cut off at
the point where the listing resumes, and taken up to the limit.
-/
namespace S3s.Fs
open LexicalPath FileTree

/-- `Object` -/
structure Object where
  key : Bytes
  lastModified : Nat
  size : Nat
deriving DecidableEq

/-- `ListObjectsV2Input` -/
structure ListObjectsV2Input where
  bucket : Bytes
  keyPrefix : Option Bytes
  delimiter : Option Bytes
  continuationToken : Option Bytes
  startAfter : Option Bytes
  maxKeys : Option Int
  encodingType : Option Bytes

/-- `ListObjectsV2Output` -/
structure ListObjectsV2Output where
  keyCount : Nat
  maxKeys : Int
  isTruncated : Bool
  contents : Option (List Object)
  commonPrefixes : Option (List Bytes)
  continuationToken : Option Bytes
  nextContinuationToken : Option Bytes
  delimiter : Option Bytes
  encodingType : Option Bytes
  name : Bytes
  keyPrefix : Option Bytes
  startAfter : Option Bytes
deriving DecidableEq

section Scan

/-- `normalize_path` of a path below the bucket, whose components are names. -/
def normalizePath (path : List Bytes) (delimiter : Bytes) : Bytes := delimiter.intercalate path

/-- The key of a file or directory below the bucket. -/
def keyOfPath (bucketRoot path : List Bytes) : Bytes :=
  normalizePath (path.drop bucketRoot.length) (ascii "/")

/-- An object, by its file. -/
def objectOf (bucketRoot : List Bytes) (file : List Bytes × Entry UInt8) : Object :=
  match file with
  | (path, .file content modified) => ⟨keyOfPath bucketRoot path, modified, content.length⟩
  | (path, .dir) => ⟨keyOfPath bucketRoot path, 0, 0⟩

/-- The files below the bucket, gone through with the queue of directories. -/
def scanBucket (disk : Tree Bytes UInt8) (bucketRoot : List Bytes) (enter : Bytes → Bool) :
    List Object :=
  (disk.scan (fun dir => enter (keyOfPath bucketRoot dir)) (disk.entries.length + 1)
    [bucketRoot]).map (objectOf bucketRoot)

/-- Whether a key has the prefix. -/
def matchesPrefix (keyPrefix key : Bytes) : Bool := keyPrefix.isEmpty || keyPrefix.isPrefixOf key

/-- `list_objects_recursive` -/
def listObjectsRecursive (disk : Tree Bytes UInt8) (bucketRoot : List Bytes) (keyPrefix : Bytes) :
    List Object :=
  (scanBucket disk bucketRoot fun _ => true).filter fun o => matchesPrefix keyPrefix o.key

/-- `&s[index..]` -/
def sliceFrom (s : Bytes) (index : Nat) : Except Failure Bytes :=
  if Utf8.isCharBoundary s index then .ok (s.drop index) else .error .panic

/-- `&s[..index]` -/
def sliceTo (s : Bytes) (index : Nat) : Except Failure Bytes :=
  if Utf8.isCharBoundary s index then .ok (s.take index) else .error .panic

/-- What is made of a file: an object, or the common prefix that it goes under. -/
def groupObject (keyPrefix delimiter : Bytes) (o : Object) : Except Failure (Object ⊕ Bytes) := do
  let remaining ← sliceFrom o.key keyPrefix.length
  match Search.find delimiter remaining with
  | some delimiterPos =>
    let head ← sliceTo remaining (delimiterPos + 1)
    pure (.inr (keyPrefix ++ head))
  | none => pure (.inl o)

/-- What is made of the files, in turn. -/
def groupObjects (keyPrefix delimiter : Bytes) : List Object → Except Failure (List (Object ⊕ Bytes))
  | [] => pure []
  | o :: objects => do
    let entry ← groupObject keyPrefix delimiter o
    let entries ← groupObjects keyPrefix delimiter objects
    pure (entry :: entries)

/-- Whether a directory is gone into: it matches the prefix, or it may lead to what does. -/
def mayMatch (keyPrefix key : Bytes) : Bool := matchesPrefix keyPrefix key || key.isPrefixOf keyPrefix

/-- `list_objects_with_delimiter` -/
def listObjectsWithDelimiter (disk : Tree Bytes UInt8) (bucketRoot : List Bytes)
    (keyPrefix delimiter : Bytes) : Except Failure (List (Object ⊕ Bytes)) :=
  groupObjects keyPrefix delimiter
    ((scanBucket disk bucketRoot (mayMatch keyPrefix)).filter fun o => matchesPrefix keyPrefix o.key)

end Scan

section Page

/-- The order of texts. -/
abbrev textLe : Bytes → Bytes → Bool := Bytes.le

/-- `objects.sort_by` -/
def sortObjects (objects : List Object) : List Object :=
  objects.insertionSort fun a b => textLe a.key b.key = true

/-- The set of common prefixes, in its order. -/
def sortPrefixes (prefixes : List Bytes) : List Bytes :=
  prefixes.dedup.insertionSort fun a b => textLe a b = true

/-- Where the listing resumes: at the larger of the two, when both are given. -/
def resumePoint (continuationToken startAfter : Option Bytes) : Option Bytes :=
  match continuationToken, startAfter with
  | some ct, some sa => some (if textLe sa ct then ct else sa)
  | some ct, none => some ct
  | none, some sa => some sa
  | none, none => none

/-- Whether a key is behind the point where the listing resumes. -/
def isBehind (marker : Option Bytes) (key : Bytes) : Bool :=
  marker.all fun marker => Pages.lt textLe marker key

/-- `max_keys` as a count. -/
def limitOf (maxKeys : Int) : Nat := if maxKeys < 0 then 1000 else maxKeys.toNat

/-- `bool::then_some` of a list that is not empty. -/
def nonEmpty {α : Type} (l : List α) : Option (List α) := if l.isEmpty then none else some l

/-- The token of the next page, when there is one. -/
def nextToken (page : Pages.Page Object Bytes Bytes) : Option Bytes :=
  page.last.or
    (match page.restLefts.head?, page.restRights.head? with
    | some o, some p => some (if Pages.lt textLe o.key p then o.key else p)
    | some o, none => some o.key
    | none, some p => some p
    | none, none => none)

/-- The page of the sorted objects and common prefixes that a request is answered with. -/
def answerPage (input : ListObjectsV2Input) (objects : List Object) (prefixes : List Bytes) :
    ListObjectsV2Output :=
  let marker := resumePoint input.continuationToken input.startAfter
  let maxKeys := input.maxKeys.getD 1000
  let page := Pages.merge textLe Object.key id (limitOf maxKeys) none
    (objects.filter fun o => isBehind marker o.key) (prefixes.filter (isBehind marker))
  let isTruncated := decide (0 < limitOf maxKeys) &&
    (!page.restLefts.isEmpty || !page.restRights.isEmpty)
  { keyCount := page.lefts.length + page.rights.length
    maxKeys := maxKeys
    isTruncated := isTruncated
    contents := nonEmpty page.lefts
    commonPrefixes := nonEmpty page.rights
    continuationToken := input.continuationToken
    nextContinuationToken := if isTruncated then nextToken page else none
    delimiter := input.delimiter
    encodingType := input.encodingType
    name := input.bucket
    keyPrefix := input.keyPrefix
    startAfter := input.startAfter }

/-- `trim_start_matches` of slashes. -/
def trimSlashes (s : Bytes) : Bytes := s.dropWhile fun c => c == 47

/-- All entries of the listing, still unsorted. -/
def collectEntries (disk : Tree Bytes UInt8) (bucketRoot : List Bytes) (keyPrefix : Bytes)
    (delimiter : Option Bytes) : Except Failure (List (Object ⊕ Bytes)) :=
  match delimiter with
  | some delimiter => listObjectsWithDelimiter disk bucketRoot keyPrefix delimiter
  | none => pure ((listObjectsRecursive disk bucketRoot keyPrefix).map .inl)

/-- `list_objects_v2`, of the files as they are. -/
def FileSystem.listObjectsV2 (fs : FileSystem) (disk : Tree Bytes UInt8) (input : ListObjectsV2Input) :
    Except Failure ListObjectsV2Output :=
  match Fs.getBucketPath fs.absolutizeVirtually fs.root input.bucket with
  | none => .error (internal (.io .other))
  | some path =>
    let bucketRoot := path.drop fs.root.length
    match disk.get bucketRoot with
    | none => .error (bare .noSuchBucket)
    | some (.file _ _) => .error (internal (.io .notADirectory))
    | some .dir => do
      let entries ← collectEntries disk bucketRoot (trimSlashes (input.keyPrefix.getD []))
        input.delimiter
      pure (answerPage input (sortObjects (Pages.leftsOf entries))
        (sortPrefixes (Pages.rightsOf entries)))

/-- `ListObjectsInput` -/
structure ListObjectsInput where
  bucket : Bytes
  delimiter : Option Bytes
  encodingType : Option Bytes
  marker : Option Bytes
  maxKeys : Option Int
  keyPrefix : Option Bytes

/-- `ListObjectsInput` as a `ListObjectsV2Input`. -/
def ListObjectsInput.asV2 (v1 : ListObjectsInput) : ListObjectsV2Input where
  bucket := v1.bucket
  keyPrefix := v1.keyPrefix
  delimiter := v1.delimiter
  continuationToken := none
  startAfter := v1.marker
  maxKeys := v1.maxKeys
  encodingType := v1.encodingType

/-- `ListObjectsOutput` -/
structure ListObjectsOutput where
  contents : Option (List Object)
  commonPrefixes : Option (List Bytes)
  delimiter : Option Bytes
  encodingType : Option Bytes
  name : Bytes
  keyPrefix : Option Bytes
  maxKeys : Int
  isTruncated : Bool
  nextMarker : Option Bytes

/-- `list_objects` -/
def FileSystem.listObjects (fs : FileSystem) (disk : Tree Bytes UInt8) (input : ListObjectsInput) :
    Except Failure ListObjectsOutput := do
  let v2 ← fs.listObjectsV2 disk input.asV2
  pure ⟨v2.contents, v2.commonPrefixes, v2.delimiter, v2.encodingType, v2.name, v2.keyPrefix,
    v2.maxKeys, v2.isTruncated, v2.nextContinuationToken⟩

end Page

end S3s.Fs
