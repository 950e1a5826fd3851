import S3s.Fs.BucketRuns
import S3s.Fs.RangedReads

/-! # The store as a map of objects

What the clients know of the store: objects by their buckets and keys, and the uploads under way. The map
goes by the requests and their outcomes alone. Over every run on keys none of which is on the way to another,
the files of the store are what the map says.
-/
namespace S3s.Fs
open LexicalPath Programs FileTree Routing

/-- An object as it was written last. -/
structure WrittenObject where
  data : Bytes
  attributes : StandardAttributes
  etag : Bytes
  checksum : Checksum

/-- An upload under way: what it was created for, and its parts. -/
structure Upload where
  bucket : Bytes
  key : Bytes
  attributes : StandardAttributes
  parts : Int → Option Bytes

/-- What became of the id of an upload. -/
inductive UploadState where
  | unknown
  | opened (upload : Upload)
  | ended

/-- The objects, and the uploads by their ids. -/
structure ObjectMap where
  objects : Bytes → Bytes → Option WrittenObject
  uploads : Uuid → UploadState

namespace ObjectMap

/-- Nothing was written yet. -/
def empty : ObjectMap := ⟨fun _ _ => none, fun _ => .unknown⟩

/-- Another object, or none, under a key. -/
def put (m : ObjectMap) (bucket key : Bytes) (o : Option WrittenObject) : ObjectMap :=
  { m with objects := fun b k => if b = bucket ∧ k = key then o else m.objects b k }

def setUpload (m : ObjectMap) (u : Uuid) (s : UploadState) : ObjectMap :=
  { m with uploads := Function.update m.uploads u s }

/-- The object that a copy makes of its source. -/
def copy (m : ObjectMap) (input : CopyObjectInput) (output : CopyObjectResult) : ObjectMap :=
  match input.copySource with
  | .object bucket key => m.put input.bucket input.key ((m.objects bucket key).map fun o =>
    ⟨o.data, if input.metadataDirective = some (ascii "REPLACE") then input.attributes else o.attributes,
      output.etag.value, o.checksum⟩)
  | .other => m

/-- A part of an upload under way. -/
def putPart (m : ObjectMap) (u : Uuid) (n : Int) (content : Option Bytes) : ObjectMap :=
  match m.uploads u with
  | .opened up => m.setUpload u (.opened { up with parts := Function.update up.parts n content })
  | _ => m

/-- The object that the listed parts make. -/
def complete (m : ObjectMap) (u : Uuid) (input : CompleteMultipartUploadInput)
    (output : CompleteMultipartUploadOutput) : ObjectMap :=
  match m.uploads u with
  | .opened up => (m.put input.bucket input.key (some ⟨(listedNumbers input).flatMap fun n => (up.parts n).getD [],
      up.attributes, output.etag.value, output.checksum⟩)).setUpload u .ended
  | _ => m

end ObjectMap

variable (fs : FileSystem)

/-- What a request and its outcome make of the map. -/
def FileSystem.after (m : ObjectMap) : Request → Except Failure Response → ObjectMap
  | .putObject input _, .ok (.put output) => m.put input.bucket input.key
      (some ⟨(input.body.bind contentOf).getD [], input.attributes, (output.etag.map ETag.value).getD [],
        output.checksum⟩)
  | .copyObject input, .ok (.copied output) => m.copy input output
  | .deleteObject bucket key, .ok _ => m.put bucket key none
  | .deleteObjects bucket objects, .ok _ => objects.foldl (fun m o => m.put bucket o.key none) m
  | .createMultipartUpload input drawn, .ok _ =>
    m.setUpload drawn (.opened ⟨input.bucket, input.key, input.attributes, fun _ => none⟩)
  | .uploadPart input _, .ok (.part _) =>
    match fs.parseUuid input.uploadId with
    | some u => m.putPart u input.partNumber (input.body.bind contentOf)
    | none => m
  | .completeMultipartUpload input, .ok (.completed output) =>
    match fs.parseUuid input.uploadId with
    | some u => m.complete u input output
    | none => m
  | .abortMultipartUpload _ _ uploadId, .ok _ =>
    match fs.parseUuid uploadId with
    | some u => m.setUpload u .ended
    | none => m
  | _, _ => m

/-- The store and the map behind a request. -/
def FileSystem.nextObjects (s : World × ObjectMap) (r : Asked) : World × ObjectMap :=
  ((fs.serve r.1 r.2 s.1).2, fs.after s.2 r.2 (fs.serve r.1 r.2 s.1).1)

section Requests

/-- The keys in use: in buckets with valid names, of segments that are names, and none on the way to another. -/
structure ObjectKeys (K : Bytes → Bytes → Prop) : Prop where
  bucket : ∀ b k, K b k → checkBucketName b = true
  segments : ∀ b k, K b k → ∀ s ∈ LexicalPath.segments k, s ≠ [] ∧ s ≠ ascii "." ∧ s ≠ ascii ".."
  apart : ∀ b k k', K b k → K b k' → LexicalPath.segments k <+: LexicalPath.segments k' → k = k'

/-- An upload is used with the key it was created for. -/
def FileSystem.UsedAsCreated (m : ObjectMap) (uploadId bucket key : Bytes) : Prop :=
  ∀ u up, fs.parseUuid uploadId = some u → m.uploads u = .opened up → up.bucket = bucket ∧ up.key = key

/-- A request on the keys in use, or one that only reads. The id of a new upload was not drawn before. -/
def FileSystem.InUse (K : Bytes → Bytes → Prop) (m : ObjectMap) : Request → Prop
  | .putObject input _ => K input.bucket input.key
  | .copyObject input => K input.bucket input.key ∧
    ∀ bucket key, input.copySource = .object bucket key → K bucket key
  | .deleteObject bucket key => K bucket key
  | .deleteObjects bucket objects => ∀ o ∈ objects, K bucket o.key
  | .createMultipartUpload input drawn => K input.bucket input.key ∧ m.uploads drawn = .unknown
  | .uploadPart input _ => K input.bucket input.key ∧ fs.UsedAsCreated m input.uploadId input.bucket input.key
  | .completeMultipartUpload input =>
    K input.bucket input.key ∧ fs.UsedAsCreated m input.uploadId input.bucket input.key
  | .abortMultipartUpload bucket key uploadId => K bucket key ∧ fs.UsedAsCreated m uploadId bucket key
  | .createBucket _ => False
  | .deleteBucket _ => False
  | .uploadPartCopy _ => False
  | _ => True

/-- A request on the keys in use on which the files do not fail. -/
def FileSystem.ObjectStep (K : Bytes → Bytes → Prop) (s : World × ObjectMap) (r : Asked) : Prop :=
  fs.InUse K s.2 r.2 ∧ ∀ e, (fs.serve r.1 r.2 s.1).1 = .error e → ¬IsIo e

end Requests

section Files

/-- The attributes that a file of the store tells. -/
def FileSystem.attributesIn (disk : Tree Bytes UInt8) (f : StoreFile) : Option ObjectAttributes :=
  match disk.get [f.name] with
  | some (.file content _) => fs.readAttributes content
  | _ => none

/-- The content of a part. -/
def partAt (disk : Tree Bytes UInt8) (u : Uuid) (n : Int) : Option Bytes :=
  match disk.get [(StoreFile.uploadPart u n).name] with
  | some (.file content _) => some content
  | _ => none

/-- An info that tells an ETag and checksums. -/
structure Tells (info : InternalInfo) (etag : Bytes) (checksum : Checksum) : Prop where
  etag : loadETag info = some etag
  checksum : ∀ a, readChecksum info a = checksum a
  texts : ∀ a : ChecksumAlgorithm, (info.find a.field).all Option.isSome = true

/-- The files of an object. -/
structure FileSystem.HoldsObject (disk : Tree Bytes UInt8) (bucket key : Bytes) (o : WrittenObject) : Prop where
  data : ∃ m, disk.get (bucket :: LexicalPath.segments key) = some (.file o.data m)
  attributes : ∃ attrs, fs.attributesIn disk (.metadata bucket key none) = some attrs ∧
    attrs.toStandardAttributes = o.attributes
  info : ∃ info, fs.infoIn disk (.internalInfo bucket key) = some info ∧ Tells info o.etag o.checksum

/-- The files of an object, or none where there is no object. -/
def FileSystem.ShowsObject (disk : Tree Bytes UInt8) (bucket key : Bytes) : Option WrittenObject → Prop
  | some o => fs.HoldsObject disk bucket key o
  | none => disk.get (bucket :: LexicalPath.segments key) = none

/-- The files of an upload. -/
def FileSystem.ShowsUpload (disk : Tree Bytes UInt8) (u : Uuid) : UploadState → Prop
  | .unknown => disk.get [(StoreFile.uploadInfo u).name] = none ∧ ∀ n, partAt disk u n = none
  | .opened up => (∃ attrs, fs.attributesIn disk (.metadata up.bucket up.key (some u)) = some attrs ∧
    attrs.toStandardAttributes = up.attributes) ∧ ∀ n, partAt disk u n = up.parts n
  | .ended => disk.get [(StoreFile.uploadInfo u).name] = none

/-- The files are what the map says. -/
structure FileSystem.Represents (K : Bytes → Bytes → Prop) (m : ObjectMap) (disk : Tree Bytes UInt8) :
    Prop where
  orderly : Orderly disk
  buckets : ∀ b k, K b k → disk.get [b] = some .dir
  objects : ∀ b k, K b k → fs.ShowsObject disk b k (m.objects b k)
  uploads : ∀ u, fs.ShowsUpload disk u (m.uploads u)

/-- A store with buckets, and nothing of the keys in use or of uploads. -/
structure Vacant (K : Bytes → Bytes → Prop) (disk : Tree Bytes UInt8) : Prop where
  orderly : Orderly disk
  buckets : ∀ b k, K b k → disk.get [b] = some .dir
  objects : ∀ b k, K b k → disk.get (b :: LexicalPath.segments k) = none
  records : ∀ u, disk.get [(StoreFile.uploadInfo u).name] = none
  parts : ∀ u n, disk.get [(StoreFile.uploadPart u n).name] = none

variable {fs} {K : Bytes → Bytes → Prop} {disk disk' : Tree Bytes UInt8} {m : ObjectMap}

theorem Vacant.represents (h : Vacant K disk) : fs.Represents K .empty disk := by
  constructor
  · exact h.orderly
  · exact h.buckets
  · exact h.objects
  · intro u
    refine ⟨h.records u, fun n => ?_⟩
    rw [partAt, h.parts]

theorem attributesIn_congr {f : StoreFile} (h : disk'.get [f.name] = disk.get [f.name]) :
    fs.attributesIn disk' f = fs.attributesIn disk f := by
  unfold FileSystem.attributesIn
  rw [h]

theorem partAt_congr {u : Uuid} {n : Int}
    (h : disk'.get [(StoreFile.uploadPart u n).name] = disk.get [(StoreFile.uploadPart u n).name]) :
    partAt disk' u n = partAt disk u n := by
  unfold partAt
  rw [h]

theorem Writes.attributesIn {f : StoreFile} {attrs : ObjectAttributes}
    (h : Writes disk disk' [f.name] (fs.attributes.toVec attrs)) : fs.attributesIn disk' f = some attrs := by
  obtain ⟨m, hget⟩ := h.get_self
  rw [FileSystem.attributesIn, hget]
  exact readAttributes_toVec fs attrs

theorem Writes.infoIn {f : StoreFile} {info : InternalInfo}
    (h : Writes disk disk' [f.name] (fs.info.toVec info)) : fs.infoIn disk' f = some info := by
  obtain ⟨m, hget⟩ := h.get_self
  rw [FileSystem.infoIn, hget]
  exact fs.info.fromSlice_toVec info

theorem Reads.eq_attributesIn {f : StoreFile} {attrs : Option ObjectAttributes}
    (h : Reads disk f fs.readAttributes attrs) : attrs = fs.attributesIn disk f := by
  unfold FileSystem.attributesIn
  rcases h with ⟨hget, rfl⟩ | ⟨content, m, hget, rfl⟩
  · rw [hget]
  · rw [hget]

/-- An object is shown by its own files alone. -/
theorem FileSystem.ShowsObject.congr {bucket key : Bytes} {o : Option WrittenObject}
    (h : fs.ShowsObject disk bucket key o)
    (hobject : disk'.get (bucket :: LexicalPath.segments key) = disk.get (bucket :: LexicalPath.segments key))
    (hfiles : ∀ f, Sidecar bucket key f → disk'.get [f.name] = disk.get [f.name]) :
    fs.ShowsObject disk' bucket key o := by
  cases o with
  | none => exact hobject.trans h
  | some o =>
    constructor
    · rw [hobject]
      exact h.data
    · rw [attributesIn_congr (hfiles _ (Or.inl rfl))]
      exact h.attributes
    · rw [infoIn_congr fs (hfiles _ (Or.inr rfl))]
      exact h.info

/-- An upload is shown by its own files alone. -/
theorem FileSystem.ShowsUpload.congr {u : Uuid} {s : UploadState} (h : fs.ShowsUpload disk u s)
    (hfiles : ∀ f, (∃ bucket key, RecordOf bucket key u f) ∨ PartOf u f → disk'.get [f.name] = disk.get [f.name]) :
    fs.ShowsUpload disk' u s := by
  have hparts (n : Int) : partAt disk' u n = partAt disk u n :=
    partAt_congr (hfiles _ (Or.inr ⟨n, Or.inl rfl⟩))
  have hrecord := hfiles (.uploadInfo u) (Or.inl ⟨[], [], Or.inl rfl⟩)
  cases s with
  | unknown => exact ⟨hrecord.trans h.1, fun n => (hparts n).trans (h.2 n)⟩
  | ended => exact hrecord.trans h
  | opened up =>
    refine ⟨?_, fun n => (hparts n).trans (h.2 n)⟩
    rw [attributesIn_congr (hfiles _ (Or.inl ⟨_, _, Or.inr rfl⟩))]
    exact h.1

end Files

section Keys

variable {K : Bytes → Bytes → Prop} {b k bucket key : Bytes}

theorem not_mem_of_mem_segments {path s : Bytes} (h : s ∈ segments path) : 47 ∉ s := by
  induction path generalizing s with
  | nil =>
    rw [segments, List.splitOn_nil, List.mem_singleton] at h
    rw [h]
    exact List.not_mem_nil
  | cons c path ih =>
    rw [segments, List.splitOn_cons_eq_if_modifyHead] at h
    split at h
    · rcases List.mem_cons.mp h with rfl | h
      · exact List.not_mem_nil
      · exact ih h
    · next hc =>
      cases hsegments : path.splitOn 47 with
      | nil => exact absurd hsegments (List.splitOn_ne_nil 47 path)
      | cons s' rest =>
        rw [hsegments, List.modifyHead_cons] at h
        have hmem {t : Bytes} (ht : t ∈ s' :: rest) : t ∈ segments path := by
          rw [segments, hsegments]
          exact ht
        rcases List.mem_cons.mp h with rfl | h
        · have hs' := ih (hmem List.mem_cons_self)
          simp only [List.mem_cons, not_or]
          exact ⟨fun heq => hc (by simp [heq]), hs'⟩
        · exact ih (hmem (List.mem_cons_of_mem _ h))

theorem ObjectKeys.isName (hK : ObjectKeys K) (h : K b k) : ∀ s ∈ LexicalPath.segments k, IsName s := by
  intro s hs
  obtain ⟨hne, hdot, hdots⟩ := hK.segments b k h s hs
  exact ⟨hne, not_mem_of_mem_segments hs, hdot, hdots⟩

theorem ObjectKeys.path (fs : FileSystem) (hK : ObjectKeys K) (h : K b k) :
    fs.pathOf b k = some (b :: LexicalPath.segments k) :=
  pathOf_of_names fs (isName_of_checkBucketName (hK.bucket b k h)) (hK.isName h)

theorem ObjectKeys.ordinary (fs : FileSystem) (hK : ObjectKeys K) (h : K b k) : fs.Ordinary b k :=
  ⟨hK.bucket b k h, stays_of_names fs (isName_of_checkBucketName (hK.bucket b k h)) (hK.isName h)⟩

theorem ObjectKeys.not_slash (hK : ObjectKeys K) (h : K b k) : endsWithSlash k = false := by
  rw [endsWithSlash, beq_eq_false_iff_ne]
  intro hlast
  obtain ⟨start, rfl⟩ := List.getLast?_eq_some_iff.mp hlast
  have hempty : [] ∈ LexicalPath.segments (start ++ [47]) := by
    rw [LexicalPath.segments, List.splitOn_append_cons_self]
    simp
  exact (hK.segments b _ h [] hempty).1 rfl

/-- Where one object is is not on the way to another. -/
theorem ObjectKeys.not_prefix (hK : ObjectKeys K) (h : K b k) (h' : K bucket key)
    (hne : ¬(b = bucket ∧ k = key)) :
    ¬(b :: LexicalPath.segments k) <+: bucket :: LexicalPath.segments key := by
  intro hpre
  obtain ⟨rfl, hsegments⟩ := List.cons_prefix_cons.mp hpre
  exact hne ⟨rfl, hK.apart b k key h h' hsegments⟩

theorem length_path_ne_one (b k : Bytes) : (b :: LexicalPath.segments k).length ≠ 1 := by
  have hne : segments k ≠ [] := List.splitOn_ne_nil 47 k
  simpa using hne

end Keys

section Frames

variable {fs} {disk disk' : Tree Bytes UInt8} {q : List Bytes}

theorem Writes.get_path {f : StoreFile} {content : Bytes} (h : Writes disk disk' [f.name] content)
    (hq : q.length ≠ 1) : disk'.get q = disk.get q := by
  refine h.get_of_ne ?_
  rintro rfl
  exact hq rfl

theorem Wipes.get_path {files : StoreFile → Prop} (h : Wipes (At files) disk disk') (hq : q.length ≠ 1) :
    disk'.get q = disk.get q := by
  refine h.rest q ?_
  rintro ⟨f, -, rfl⟩
  exact hq rfl

theorem Digs.get_path {p : List Bytes} (h : Digs disk disk' p.dropLast) (hq : ¬q <+: p.dropLast) :
    disk'.get q = disk.get q := by
  rw [h.get, if_neg hq]

theorem Places.get_path {p : List Bytes} {content : Bytes} (h : Places disk disk' p content) (hq : ¬q <+: p) :
    disk'.get q = disk.get q := by
  obtain ⟨-, t, hdigs, hwrites⟩ := h
  have hne : q ≠ p := by
    rintro rfl
    exact hq List.prefix_rfl
  rw [hwrites.get_of_ne hne, hdigs.get_path fun h => hq (h.trans (List.dropLast_prefix p))]

theorem Places.get_self {p : List Bytes} {content : Bytes} (h : Places disk disk' p content) :
    ∃ m, disk'.get p = some (.file content m) := by
  obtain ⟨-, t, -, hwrites⟩ := h
  exact hwrites.get_self

theorem FileSystem.AttributesCopied.get_path {input : CopyObjectInput} {bucket key : Bytes}
    (h : fs.AttributesCopied input bucket key disk disk') (hq : q.length ≠ 1) : disk'.get q = disk.get q := by
  unfold FileSystem.AttributesCopied at h
  split_ifs at h
  · exact h.get_path hq
  · exact h q
  · obtain ⟨content, m, -, hwrites⟩ := h
    exact hwrites.get_path hq

theorem FileSystem.AttributesKept.get_path {bucket key : Bytes} {attrs : Option ObjectAttributes}
    (h : fs.AttributesKept bucket key attrs disk disk') (hq : q.length ≠ 1) : disk'.get q = disk.get q := by
  cases attrs with
  | none => exact h q
  | some attrs => exact Writes.get_path h hq

theorem Deleted.get_path {key : Bytes} {p : List Bytes} (h : Deleted key p disk disk') (hq : q ≠ p) :
    disk'.get q = disk.get q := by
  rcases h.1 with hclears | halike
  · exact hclears.get_of_ne hq
  · exact halike q

end Frames

section Tellings

variable {fs} {K : Bytes → Bytes → Prop} {disk disk' : Tree Bytes UInt8} {m : ObjectMap}

theorem tells_saved (etag : Bytes) (checksum : Checksum) :
    Tells (modifyInternalInfo (saveETag [] etag) checksum) etag checksum := by
  constructor
  · exact loadETag_modifyInternalInfo etag checksum
  · exact readChecksum_modifyInternalInfo etag checksum
  · intro a
    have hnone : (saveETag [] etag).find a.field = none := by
      rw [saveETag, InternalInfo.find_insert, if_neg (eTag_ne_field a).symm]
      rfl
    rw [modifyInternalInfo, find_insertChecksums (ChecksumAlgorithm.mem_all a), hnone]
    cases checksum a <;> rfl

/-- A copy keeps the checksums of its source. -/
theorem Tells.saveETag {info : InternalInfo} {etag : Bytes} {checksum : Checksum} (h : Tells info etag checksum) :
    Tells (saveETag info etag) etag checksum := by
  have hfind (a : ChecksumAlgorithm) : (Fs.saveETag info etag).find a.field = info.find a.field := by
    rw [Fs.saveETag, InternalInfo.find_insert, if_neg (eTag_ne_field a).symm]
  constructor
  · rw [loadETag, Fs.saveETag, InternalInfo.find_insert, if_pos rfl]
    rfl
  · intro a
    rw [readChecksum, hfind]
    exact h.checksum a
  · intro a
    rw [hfind]
    exact h.texts a

theorem sidecar_inj {b k bucket key : Bytes} {f : StoreFile} (h : Sidecar b k f) (h' : Sidecar bucket key f) :
    b = bucket ∧ k = key := by
  rcases h with rfl | rfl
  · rcases h' with h' | h'
    · injection h' with hb hk
      exact ⟨hb, hk⟩
    · cases h'
  · rcases h' with h' | h'
    · cases h'
    · injection h' with hb hk
      exact ⟨hb, hk⟩

theorem ofUpload_of_file {u : Uuid} {f : StoreFile} (h : (∃ bucket key, RecordOf bucket key u f) ∨ PartOf u f) :
    OfUpload f := by
  rcases h with ⟨bucket, key, rfl | rfl⟩ | ⟨n, rfl | rfl⟩ <;> trivial

/-- The files of one upload are not those of another one. -/
theorem file_inj {u v : Uuid} {f : StoreFile} (h : (∃ bucket key, RecordOf bucket key u f) ∨ PartOf u f)
    (h' : (∃ bucket key, RecordOf bucket key v f) ∨ PartOf v f) : u = v := by
  rcases h with ⟨bucket, key, rfl | rfl⟩ | ⟨n, rfl | rfl⟩ <;>
    rcases h' with ⟨bucket', key', h' | h'⟩ | ⟨n', h' | h'⟩ <;> cases h' <;> rfl

/-- The other objects are shown as before. -/
theorem FileSystem.Represents.others (h : fs.Represents K m disk) (hK : ObjectKeys K) {bucket key : Bytes}
    (hkey : K bucket key)
    (hpath : ∀ q, q.length ≠ 1 → ¬q <+: bucket :: LexicalPath.segments key → disk'.get q = disk.get q)
    (hfile : ∀ f, ¬Sidecar bucket key f → ¬OfUpload f → disk'.get [f.name] = disk.get [f.name])
    {b k : Bytes} (hbk : K b k) (hne : ¬(b = bucket ∧ k = key)) :
    fs.ShowsObject disk' b k (m.objects b k) := by
  apply (h.objects b k hbk).congr
  · exact hpath _ (length_path_ne_one b k) (hK.not_prefix hbk hkey hne)
  · intro f hf
    apply hfile
    · exact fun hf' => hne (sidecar_inj hf hf')
    · exact fun hof => not_ofUpload_sidecar f hof hf

/-- An object is put in its place. -/
theorem FileSystem.Represents.objects_put (h : fs.Represents K m disk) (hK : ObjectKeys K)
    {bucket key : Bytes} (hkey : K bucket key) {o : Option WrittenObject}
    (hpath : ∀ q, q.length ≠ 1 → ¬q <+: bucket :: LexicalPath.segments key → disk'.get q = disk.get q)
    (hfile : ∀ f, ¬Sidecar bucket key f → ¬OfUpload f → disk'.get [f.name] = disk.get [f.name])
    (hshows : fs.ShowsObject disk' bucket key o) (b k : Bytes) (hbk : K b k) :
    fs.ShowsObject disk' b k ((m.put bucket key o).objects b k) := by
  show fs.ShowsObject disk' b k (if b = bucket ∧ k = key then o else m.objects b k)
  by_cases hsame : b = bucket ∧ k = key
  · rw [if_pos hsame, hsame.1, hsame.2]
    exact hshows
  · rw [if_neg hsame]
    exact h.others hK hkey hpath hfile hbk hsame

/-- The objects are shown as before where nothing of them is touched. -/
theorem FileSystem.Represents.objects_same (h : fs.Represents K m disk)
    (hpath : ∀ q, q.length ≠ 1 → disk'.get q = disk.get q)
    (hfile : ∀ f, ¬OfUpload f → disk'.get [f.name] = disk.get [f.name]) (b k : Bytes) (hbk : K b k) :
    fs.ShowsObject disk' b k (m.objects b k) := by
  apply (h.objects b k hbk).congr
  · exact hpath _ (length_path_ne_one b k)
  · exact fun f hf => hfile f fun hof => not_ofUpload_sidecar f hof hf

theorem FileSystem.Represents.uploads_same (h : fs.Represents K m disk) (hsame : SameUploads disk disk')
    (u : Uuid) : fs.ShowsUpload disk' u (m.uploads u) :=
  (h.uploads u).congr fun f hf => hsame f (ofUpload_of_file hf)

/-- One upload comes to another state. -/
theorem FileSystem.Represents.uploads_set (h : fs.Represents K m disk) {u : Uuid} {s : UploadState}
    (hrest : ∀ v, v ≠ u → ∀ f, (∃ bucket key, RecordOf bucket key v f) ∨ PartOf v f →
      disk'.get [f.name] = disk.get [f.name])
    (hshows : fs.ShowsUpload disk' u s) (v : Uuid) :
    fs.ShowsUpload disk' v ((m.setUpload u s).uploads v) := by
  show fs.ShowsUpload disk' v (Function.update m.uploads u s v)
  by_cases hv : v = u
  · rw [hv, Function.update_self]
    exact hshows
  · rw [Function.update_of_ne hv]
    exact (h.uploads v).congr (hrest v hv)

/-- Nothing is different. -/
theorem FileSystem.Represents.alike (h : fs.Represents K m disk) (halike : Alike disk disk') :
    fs.Represents K m disk' := by
  constructor
  · exact halike.orderly h.orderly
  · exact fun b k hbk => (halike _).trans (h.buckets b k hbk)
  · exact h.objects_same (fun q _ => halike q) fun f _ => halike _
  · exact h.uploads_same fun f _ => halike _

end Tellings

end S3s.Fs
