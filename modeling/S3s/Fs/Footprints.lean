import S3s.Fs.Effects
import S3s.Fs.Requests

/-! # Where the operations write

Most of what an operation does is reading. What it writes stands at the path of its object, at the
directories above it, and in a few files of the store.
-/
namespace S3s.Fs
open LexicalPath Programs FileTree

section Reading

variable (fs : FileSystem)

theorem reads_below (p : Option (List Bytes)) : (fs.below p).Only Call.Reads := by
  cases p <;> trivial

theorem reads_getObjectPath (bucket key : Bytes) : (fs.getObjectPath bucket key).Only Call.Reads :=
  reads_below fs _

theorem reads_getBucketPath (bucket : Bytes) : (fs.getBucketPath bucket).Only Call.Reads :=
  reads_below fs _

theorem reads_loadInfo (file : StoreFile) : (fs.loadInfo file).Only Call.Reads := by
  simp only [FileSystem.loadInfo, getStorePath_eq, ret_bind]
  apply Prog.Only.bind
  · simp [Call.Reads]
  · intro present
    cases present with
    | false => trivial
    | true =>
      apply Prog.Only.bind
      · simp [Call.Reads]
      · exact fun content => Prog.Only.bind (only_demand _ _) fun _ => trivial

theorem only_loadObjectAttributes {φ : Call → Prop} {bucket key : Bytes} {uploadId : Option Uuid}
    (hmetadata : φ (.file (.metadata [(StoreFile.metadata bucket key uploadId).name])))
    (hread : φ (.file (.read [(StoreFile.metadata bucket key uploadId).name]))) :
    (fs.loadObjectAttributes bucket key uploadId).Only φ := by
  simp only [FileSystem.loadObjectAttributes, getStorePath_eq, ret_bind]
  apply Prog.Only.bind
  · exact (only_pathExists _).mpr hmetadata
  · intro present
    cases present with
    | false => trivial
    | true =>
      apply Prog.Only.bind
      · exact (only_io _).mpr hread
      · intro content
        cases fs.attributes.fromSlice content with
        | some attrs => trivial
        | none => cases fs.oldMetadata content <;> trivial

theorem reads_loadObjectAttributes (bucket key : Bytes) (uploadId : Option Uuid) :
    (fs.loadObjectAttributes bucket key uploadId).Only Call.Reads :=
  only_loadObjectAttributes fs trivial trivial

theorem reads_getMd5Sum (bucket key : Bytes) : (fs.getMd5Sum bucket key).Only Call.Reads := by
  apply (reads_getObjectPath fs bucket key).bind
  intro path
  apply Prog.Only.bind
  · simp [Call.Reads]
  · exact fun _ => trivial

theorem reads_objectETag (bucket key : Bytes) (info : Option InternalInfo) :
    (fs.objectETag bucket key info).Only Call.Reads := by
  unfold FileSystem.objectETag
  cases info.bind loadETag with
  | some etag => trivial
  | none => exact reads_getMd5Sum fs bucket key

theorem only_verifyUploadId {φ : Call → Prop} {u : Uuid}
    (hmetadata : φ (.file (.metadata [(StoreFile.uploadInfo u).name])))
    (hread : φ (.file (.read [(StoreFile.uploadInfo u).name]))) (cred : Option Bytes) :
    (fs.verifyUploadId cred u).Only φ := by
  simp only [FileSystem.verifyUploadId, getStorePath_eq, ret_bind]
  apply Prog.Only.bind
  · exact (only_pathExists _).mpr hmetadata
  · intro present
    cases present with
    | false => trivial
    | true =>
      apply Prog.Only.bind
      · exact (only_io _).mpr hread
      · exact fun content => Prog.Only.bind (only_demand _ _) fun _ => trivial

theorem only_openUpload {φ : Call → Prop}
    (hmetadata : ∀ u : Uuid, φ (.file (.metadata [(StoreFile.uploadInfo u).name])))
    (hread : ∀ u : Uuid, φ (.file (.read [(StoreFile.uploadInfo u).name]))) (cred : Option Bytes)
    (uploadId : Bytes) : (fs.openUpload cred uploadId).Only φ := by
  apply (only_demand _ _).bind
  intro u
  apply (only_verifyUploadId fs (hmetadata u) (hread u) cred).bind
  exact fun ok => (only_require _ _).bind fun _ => trivial

theorem reads_openUpload (cred : Option Bytes) (uploadId : Bytes) :
    (fs.openUpload cred uploadId).Only Call.Reads :=
  only_openUpload fs (fun _ => trivial) (fun _ => trivial) cred uploadId

theorem reads_checkConditions (bucket key : Bytes) (objectPath : List Bytes)
    (ifNoneMatch ifMatch : Option ETagCondition) :
    (fs.checkConditions bucket key objectPath ifNoneMatch ifMatch).Only Call.Reads := by
  apply Prog.Only.bind
  · unfold checkIfNoneMatch
    split
    · apply Prog.Only.bind
      · simp [Call.Reads]
      · exact fun _ => only_require _ _
    · trivial
  · intro _
    cases ifMatch with
    | none => trivial
    | some condition =>
      apply Prog.Only.bind
      · simp [Call.Reads]
      · intro present
        apply (only_require _ _).bind
        intro _
        cases condition with
        | any => trivial
        | etag expected =>
          apply (reads_loadInfo fs _).bind
          intro info
          exact (reads_objectETag fs bucket key info).bind fun _ => only_require _ _

theorem reads_enableGiven {φ : Call → Prop} (hasher : ChecksumAlgorithm → Bool)
    (algorithm : Option Bytes) : (enableGiven hasher algorithm).Only φ := by
  cases algorithm with
  | none => trivial
  | some algorithm =>
    simp only [enableGiven, enableChecksumAlgorithm]
    split <;> trivial

theorem reads_storedChecksum {φ : Call → Prop} (info : Option InternalInfo) (whole : Bool) :
    (storedChecksum info whole).Only φ := by
  unfold storedChecksum
  cases info with
  | none => trivial
  | some info =>
    cases whole with
    | false => trivial
    | true => exact (only_require _ _).bind fun _ => trivial

theorem reads_trailingChecksums {φ : Call → Prop} (trailers : Option Http.HeaderMap)
    (expected : Checksum) : (trailingChecksums trailers expected).Only φ := by
  cases trailers with
  | none => trivial
  | some trailers =>
    have hfold (algorithms : List ChecksumAlgorithm) (expected : Checksum) :
        (algorithms.foldlM (trailingChecksum trailers) expected : Op Checksum).Only φ := by
      induction algorithms generalizing expected with
      | nil => trivial
      | cons a algorithms ih =>
        rw [List.foldlM_cons]
        apply Prog.Only.bind
        · unfold trailingChecksum
          split
          · exact (only_demand _ _).bind fun _ => trivial
          · trivial
        · exact ih
    exact hfold _ _

theorem reads_sourceETag (bucket key : Bytes) (etag : Option Bytes) :
    (fs.sourceETag bucket key etag).Only Call.Reads := by
  cases etag with
  | some etag => trivial
  | none => exact reads_getMd5Sum fs bucket key

theorem reads_location {φ : Call → Prop} (source : CopySource) : source.location.Only φ := by
  cases source <;> trivial

theorem reads_checkSourceMatch (input : CopyObjectInput) (bucket key : Bytes) (lastModified : Nat)
    (etag : Option Bytes) : (fs.checkSourceMatch input bucket key lastModified etag).Only Call.Reads := by
  unfold FileSystem.checkSourceMatch
  split
  · apply (reads_sourceETag fs bucket key etag).bind
    exact fun _ => (only_require _ _).bind fun _ => trivial
  · exact (only_require _ _).bind fun _ => trivial

theorem reads_checkSourceNoneMatch (input : CopyObjectInput) (bucket key : Bytes) (lastModified : Nat)
    (etag : Option Bytes) :
    (fs.checkSourceNoneMatch input bucket key lastModified etag).Only Call.Reads := by
  unfold FileSystem.checkSourceNoneMatch
  split
  · apply (reads_sourceETag fs bucket key etag).bind
    exact fun _ => (only_require _ _).bind fun _ => trivial
  · exact (only_require _ _).bind fun _ => trivial

theorem reads_copySourceInterval {φ : Call → Prop} (copyRange : Option Bytes) (fileLen : Nat) :
    (copySourceInterval copyRange fileLen).Only φ := by
  unfold copySourceInterval
  split
  · apply (only_demand _ _).bind
    intro range
    split
    · apply (only_demand _ _).bind
      intro start
      apply (only_demand _ _).bind
      exact fun _ => (only_require _ _).bind fun _ => trivial
    · trivial
  · trivial

theorem reads_describe (bucket key : Bytes) (whole : Bool) :
    (fs.describe bucket key whole).Only Call.Reads := by
  apply (reads_loadObjectAttributes fs bucket key none).bind
  intro attrs
  apply (reads_loadInfo fs _).bind
  intro info
  apply (reads_objectETag fs bucket key info).bind
  exact fun _ => (reads_storedChecksum _ _).bind fun _ => trivial

theorem reads_openObject (path : List Bytes) : (openObject path).Only Call.Reads := by
  apply Prog.Only.bind
  · simp [Call.Reads]
  · intro file
    cases file <;> trivial

theorem reads_getObject (bucket key : Bytes) (range : Option Http.Range) :
    (fs.getObject bucket key range).Only Call.Reads := by
  apply (reads_getObjectPath fs bucket key).bind
  intro path
  apply (reads_openObject path).bind
  intro file
  apply Prog.Only.bind
  · simp [Call.Reads]
  · intro stat
    apply Prog.Only.bind
    · cases range with
      | none => trivial
      | some range =>
        apply (only_demand _ _).bind
        intro interval
        apply (only_demand _ _).bind
        intro contentLength
        exact (only_demand _ _).bind fun _ => trivial
    · rintro ⟨contentLength, contentRange⟩
      apply (only_require _ _).bind
      intro _
      apply Prog.Only.bind
      · unfold seekPosition
        split
        · exact (only_require _ _).bind fun _ => trivial
        · exact (only_require _ _).bind fun _ => (only_require _ _).bind fun _ => trivial
        · trivial
      · exact fun _ => (reads_describe fs bucket key _).bind fun _ => trivial

theorem reads_headObject (bucket key : Bytes) : (fs.headObject bucket key).Only Call.Reads := by
  apply (reads_getObjectPath fs bucket key).bind
  intro path
  apply Prog.Only.bind
  · simp [Call.Reads]
  · intro present
    cases present with
    | true =>
      apply Prog.Only.bind
      · simp [Call.Reads]
      · intro stat
        apply (only_require _ _).bind
        exact fun _ => (reads_describe fs bucket key true).bind fun _ => trivial
    | false =>
      apply (reads_getBucketPath fs bucket).bind
      intro bucketPath
      apply Prog.Only.bind
      · simp [Call.Reads]
      · exact fun _ => (only_require _ _).bind fun _ => trivial

theorem reads_headBucket (bucket : Bytes) : (fs.headBucket bucket).Only Call.Reads := by
  apply (reads_getBucketPath fs bucket).bind
  intro path
  apply Prog.Only.bind
  · simp [Call.Reads]
  · exact fun _ => only_require _ _

theorem reads_listBuckets : listBuckets.Only Call.Reads := by
  apply Prog.Only.bind
  · simp [Call.Reads]
  · intro entries
    have hnames (entries : List (Bytes × Bool)) : (bucketNames entries).Only Call.Reads := by
      induction entries with
      | nil => trivial
      | cons entry entries ih =>
        obtain ⟨name, isDir⟩ := entry
        unfold bucketNames
        split
        · apply Prog.Only.bind
          · simp [Call.Reads]
          · exact fun _ => ih.bind fun _ => trivial
        · exact ih
    exact hnames entries

theorem reads_listParts (uploadId : Bytes) : (fs.listParts uploadId).Only Call.Reads := by
  apply (only_demand _ _).bind
  intro u
  apply Prog.Only.bind
  · simp [Call.Reads]
  · intro entries
    have hentries (entries : List (Bytes × Bool)) :
        (fs.listEntries uploadId u entries).Only Call.Reads := by
      induction entries with
      | nil => trivial
      | cons entry entries ih =>
        obtain ⟨name, isDir⟩ := entry
        cases isDir with
        | true => exact ih
        | false =>
          unfold FileSystem.listEntries
          apply Prog.Only.bind
          · unfold partOfName
            split
            · exact (only_demand _ _).bind fun _ => trivial
            · trivial
          · intro partNumber
            cases partNumber with
            | none => exact ih
            | some partNumber =>
              apply Prog.Only.bind
              · apply Prog.Only.bind
                · simp [Call.Reads]
                · intro stat
                  apply (reads_loadInfo fs _).bind
                  exact fun _ => (reads_storedChecksum _ _).bind fun _ => trivial
              · exact fun _ => ih.bind fun _ => trivial
    exact hentries entries

end Reading

section Within

/-- The files may be changed at these paths only. -/
def Call.Within (P : Tree Bytes UInt8 → List Bytes → Prop) : Call → Prop
  | .file c => ∀ t q, c.Touches t q → P t q
  | .fetchAdd => True
  | .now => True

/-- Paths of objects, with the directories that come to stand at them and above them, and files of
the store. A temporary file may always be written. -/
def Area (paths : List Bytes → Prop) (files : StoreFile → Prop) (t : Tree Bytes UInt8)
    (q : List Bytes) : Prop :=
  (∃ p, paths p ∧ (q = p ∨ q <+: p ∧ t.get q = none)) ∨
    ∃ file, (files file ∨ ∃ n, file = .temporary n) ∧ q = [file.name]

variable {P : Tree Bytes UInt8 → List Bytes → Prop} {paths : List Bytes → Prop}
  {files : StoreFile → Prop}

theorem Call.Reads.within {c : Call} (h : c.Reads) : c.Within P := by
  cases c with
  | file c => cases c <;> first | exact fun _ _ hq => hq.elim | exact h.elim
  | fetchAdd => exact h.elim
  | now => trivial

theorem within_of_reads {α : Type} {p : Op α} (h : p.Only Call.Reads) : p.Only (Call.Within P) :=
  h.mono fun _ => Call.Reads.within

theorem within_mono {α : Type} {P' : Tree Bytes UInt8 → List Bytes → Prop} {p : Op α}
    (h : p.Only (Call.Within P)) (hP : ∀ t q, P t q → P' t q) : p.Only (Call.Within P') := by
  refine h.mono fun c hc => ?_
  cases c with
  | file c => exact fun t q hq => hP t q (hc t q hq)
  | fetchAdd => trivial
  | now => trivial

theorem Area.mono {paths' : List Bytes → Prop} {files' : StoreFile → Prop}
    (hpaths : ∀ p, paths p → paths' p) (hfiles : ∀ f, files f → files' f) (t : Tree Bytes UInt8)
    (q : List Bytes) (h : Area paths files t q) : Area paths' files' t q := by
  rcases h with ⟨p, hp, hq⟩ | ⟨f, hf, hq⟩
  · exact Or.inl ⟨p, hpaths p hp, hq⟩
  · exact Or.inr ⟨f, hf.imp (hfiles f) id, hq⟩

/-- What is protected from all that a program may do stays as it is. -/
theorem meets_frame {α : Type} {p : Op α} {S : List Bytes → Prop} (hp : p.Only (Call.Within P))
    (w : World) (fails : Option ErrorKind)
    (hS : ∀ t : Tree Bytes UInt8, (∀ q, S q → t.get q = w.disk.get q) → ∀ q, S q → ¬P t q) :
    p.Meets (World.perform fails) w (fun _ w' => ∀ q, S q → w'.disk.get q = w.disk.get q)
      fun _ w' => ∀ q, S q → w'.disk.get q = w.disk.get q := by
  let kept (w' : World) : Prop := ∀ q, S q → w'.disk.get q = w.disk.get q
  have hkeeps (c : Call) (w' : World) (hc : c.Within P) (hw' : kept w') :
      kept (World.perform fails c w').2 := by
    intro q hq
    cases c with
    | file c =>
      cases fails with
      | none =>
        have hspared : ¬c.Touches w'.disk q := fun htouch => hS w'.disk hw' q hq (hc _ _ htouch)
        rw [← hw' q hq]
        exact Tree.answer_frame w'.around w'.disk c hspared
      | some kind => exact hw' q hq
    | fetchAdd => exact hw' q hq
    | now => exact hw' q hq
  exact hp.meets hkeeps fun _ _ => rfl
variable (fs : FileSystem)

theorem area_temporary (n : Nat) (t : Tree Bytes UInt8) :
    Area paths files t [(StoreFile.temporary n).name] :=
  Or.inr ⟨_, Or.inr ⟨n, rfl⟩, rfl⟩

theorem area_of_path {p : List Bytes} (hp : paths p) (t : Tree Bytes UInt8) : Area paths files t p :=
  Or.inl ⟨p, hp, Or.inl rfl⟩

theorem area_of_file {f : StoreFile} (hf : files f) (t : Tree Bytes UInt8) :
    Area paths files t [f.name] :=
  Or.inr ⟨f, Or.inl hf, rfl⟩

theorem area_above {p : List Bytes} (hp : paths p) {t : Tree Bytes UInt8} {q : List Bytes}
    (hq : q <+: p) (hget : t.get q = none) : Area paths files t q :=
  Or.inl ⟨p, hp, Or.inr ⟨hq, hget⟩⟩

theorem within_io {c : FileTree.Call Bytes UInt8} (h : ∀ t q, c.Touches t q → P t q) :
    (io c).Only (Call.Within P) :=
  (only_io c).mpr h

theorem within_tryIo {c : FileTree.Call Bytes UInt8} (h : ∀ t q, c.Touches t q → P t q) :
    (tryIo c).Only (Call.Within P) :=
  (only_tryIo c).mpr h

/-- A call on a temporary file, or on another path that may be written. -/
theorem touches_self {p : List Bytes} (hp : ∀ t, P t p) (t : Tree Bytes UInt8) (q : List Bytes)
    (hq : q = p) : P t q := by
  rw [hq]
  exact hp t

theorem only_writing {α : Type} {φ : Call → Prop} {write : List Bytes → Op α} {dest : List Bytes}
    (hcounter : φ .fetchAdd) (hcreate : ∀ n, φ (.file (.createFile [(StoreFile.temporary n).name])))
    (hwrite : ∀ n, (write [(StoreFile.temporary n).name]).Only φ)
    (habove : φ (.file (.createDirAll dest.dropLast)))
    (hrename : ∀ n, φ (.file (.rename [(StoreFile.temporary n).name] dest)))
    (hdiscard : ∀ n, φ (.file (.removeFile [(StoreFile.temporary n).name]))) :
    (fs.writing dest write).Only φ := by
  have hprepare (f : List Bytes → Op α) (hf : ∀ n, (f [(StoreFile.temporary n).name]).Only φ) :
      (fs.prepareFileWrite >>= f).Only φ := by
    refine ⟨hcounter, fun n => ?_⟩
    show ((fs.getStorePath (.temporary n) >>= fun tmpPath =>
      io (.createFile tmpPath) >>= fun _ => pure tmpPath) >>= f).Only _
    rw [getStorePath_eq]
    refine ⟨hcreate n, fun x => ?_⟩
    cases x with
    | ok _ => exact hf n
    | error kind => trivial
  apply hprepare
  intro n
  apply Prog.Only.onFailure
  · apply (hwrite n).bind
    intro a
    apply Prog.Only.bind
    · apply Prog.Only.bind
      · exact (only_io _).mpr habove
      · exact fun _ => (only_io _).mpr (hrename n)
    · exact fun _ => trivial
  · apply Prog.Only.bind
    · exact (only_tryIo _).mpr (hdiscard n)
    · exact fun _ => trivial

theorem within_writing {α : Type} {write : List Bytes → Op α} {dest : List Bytes}
    (htmp : ∀ n t, P t [(StoreFile.temporary n).name]) (hdest : ∀ t, P t dest)
    (habove : ∀ t q, q <+: dest.dropLast → t.get q = none → P t q)
    (hwrite : ∀ n, (write [(StoreFile.temporary n).name]).Only (Call.Within P)) :
    (fs.writing dest write).Only (Call.Within P) := by
  apply only_writing fs _ _ hwrite
  · exact fun t q hq => habove t q hq.1 hq.2
  · rintro n t q (rfl | rfl)
    · exact htmp n t
    · exact hdest t
  · exact fun n => touches_self (htmp n)
  · trivial
  · exact fun n => touches_self (htmp n)

theorem within_copyBytes {tmpPath : List Bytes} (htmp : ∀ t, P t tmpPath)
    (stream : List (Except StreamError Bytes)) : (copyBytes tmpPath stream).Only (Call.Within P) := by
  induction stream with
  | nil => trivial
  | cons x stream ih =>
    cases x with
    | error e => trivial
    | ok bytes =>
      apply Prog.Only.bind
      · exact within_io (touches_self htmp)
      · exact fun _ => ih.bind fun _ => trivial

theorem within_saveFile {f : StoreFile} (hf : files f) (content : Bytes) :
    (fs.saveFile f content).Only (Call.Within (Area paths files)) := by
  rw [FileSystem.saveFile, getStorePath_eq]
  refine within_writing fs (fun n t => area_temporary n t) (area_of_file hf) ?_ ?_
  · intro t q hq hget
    rw [List.prefix_nil.mp hq, Tree.get_nil] at hget
    cases hget
  · exact fun n => within_io (touches_self (area_temporary n))

theorem within_removeFileIfExists {p : List Bytes} (hp : ∀ t, P t p) :
    (removeFileIfExists p).Only (Call.Within P) := by
  apply Prog.Only.bind
  · exact within_tryIo (touches_self hp)
  · intro x
    cases x with
    | ok _ => trivial
    | error kind => cases kind <;> trivial

theorem only_ite {α : Type} {φ : Call → Prop} {c : Prop} [Decidable c] {p q : Op α}
    (hp : c → p.Only φ) (hq : ¬c → q.Only φ) : (if c then p else q).Only φ := by
  split
  · next h => exact hp h
  · next h => exact hq h

theorem only_bucketPath {α : Type} {φ : Call → Prop} {bucket : Bytes} (h : IsName bucket)
    {f : List Bytes → Op α} (hf : (f [bucket]).Only φ) : (fs.getBucketPath bucket >>= f).Only φ := by
  rw [getBucketPath_eq fs h]
  exact hf

theorem only_storePath {α : Type} {φ : Call → Prop} {file : StoreFile} {f : List Bytes → Op α}
    (hf : (f [file.name]).Only φ) : (fs.getStorePath file >>= f).Only φ := by
  rw [getStorePath_eq]
  exact hf

theorem within_object {α : Type} {bucket key : Bytes} {f : List Bytes → Op α}
    (hf : ∀ p, fs.pathOf bucket key = some p → (f p).Only (Call.Within P)) :
    (fs.getObjectPath bucket key >>= f).Only (Call.Within P) := by
  rw [getObjectPath_eq]
  cases hpath : fs.pathOf bucket key with
  | some p => exact hf p hpath
  | none => trivial

end Within

section Operations

variable (fs : FileSystem) {paths : List Bytes → Prop} {files : StoreFile → Prop}

/-- The path of an object. -/
def FileSystem.ObjectPath (bucket key : Bytes) (p : List Bytes) : Prop := fs.pathOf bucket key = some p

/-- What the store knows of an object. -/
def Sidecar (bucket key : Bytes) (f : StoreFile) : Prop :=
  f = .metadata bucket key none ∨ f = .internalInfo bucket key

/-- What the store knows of the parts of an upload. -/
def PartOf (uploadId : Uuid) (f : StoreFile) : Prop :=
  ∃ n, f = .uploadPart uploadId n ∨ f = .uploadPartInfo uploadId n

/-- The record of an upload and its attributes. -/
def RecordOf (bucket key : Bytes) (uploadId : Uuid) (f : StoreFile) : Prop :=
  f = .uploadInfo uploadId ∨ f = .metadata bucket key (some uploadId)

theorem gives_require (b : Bool) (f : Failure) : (require b f).Gives fun _ => b = true := by
  cases b with
  | false => trivial
  | true => rfl

theorem gives_demand {α : Type} (o : Option α) (f : Failure) : (demand o f).Gives fun a => o = some a := by
  cases o with
  | none => trivial
  | some a => rfl

theorem gives_openUpload (cred : Option Bytes) (uploadId : Bytes) :
    (fs.openUpload cred uploadId).Gives fun u => fs.parseUuid uploadId = some u := by
  apply (gives_demand _ _).bind
  intro u hu
  apply (Prog.gives_true _).bind
  intro ok _
  exact (Prog.gives_true _).bind fun _ _ => hu

theorem within_createBucket {bucket : Bytes} (hname : IsName bucket) :
    (fs.createBucket bucket).Only (Call.Within (Area (· = [bucket]) fun _ => False)) := by
  apply only_bucketPath fs hname
  apply Prog.Only.bind
  · exact within_of_reads (reads_pathExists _)
  · intro present
    apply (only_require _ _).bind
    exact fun _ => within_io fun t q hq => Or.inl ⟨_, rfl, Or.inl hq.1⟩

theorem within_deleteBucket {bucket : Bytes} (hname : IsName bucket) :
    (fs.deleteBucket bucket).Only (Call.Within fun _ q => [bucket] <+: q) := by
  apply only_bucketPath fs hname
  apply Prog.Only.bind
  · exact within_of_reads (reads_pathExists _)
  · intro present
    apply (only_require _ _).bind
    exact fun _ => within_io fun t q hq => hq

theorem within_receivePut (input : PutObjectInput) (trailers : Option Http.HeaderMap)
    (stream : List (Except StreamError Bytes)) (hasher : ChecksumAlgorithm → Bool) (n : Nat) :
    (fs.receivePut input trailers stream hasher [(StoreFile.temporary n).name]).Only
      (Call.Within (Area paths files)) := by
  apply (within_copyBytes (area_temporary n) stream).bind
  intro content
  apply Prog.Only.bind
  · unfold checkContentMd5
    split
    · exact (only_demand _ _).bind fun _ => only_require _ _
    · trivial
  · intro _
    apply (reads_trailingChecksums _ _).bind
    intro expected
    apply Prog.Only.bind
    · unfold checkPutChecksums
      split <;> trivial
    · exact fun _ => trivial

theorem within_putObject (input : PutObjectInput) (trailers : Option Http.HeaderMap) :
    (fs.putObject input trailers).Only (Call.Within
      (Area (fs.ObjectPath input.bucket input.key) (Sidecar input.bucket input.key))) := by
  apply (only_require _ _).bind
  intro _
  apply (only_demand _ _).bind
  intro stream
  apply within_object
  intro p hp
  apply (within_of_reads (reads_checkConditions fs _ _ _ _ _)).bind
  intro _
  apply (reads_enableGiven _ _).bind
  intro hasher
  split
  · apply (only_require _ _).bind
    intro _
    apply Prog.Only.bind
    · exact within_io fun t q hq => area_above hp hq.1 hq.2
    · exact fun _ => trivial
  · apply Prog.Only.bind
    · apply within_writing
      · exact fun n t => area_temporary n t
      · exact area_of_path hp
      · exact fun t q hq hget => area_above hp (hq.trans (List.dropLast_prefix p)) hget
      · exact within_receivePut fs input trailers stream hasher
    · rintro ⟨md5Sum, checksum⟩
      apply (within_saveFile fs (Or.inl rfl) _).bind
      intro _
      exact (within_saveFile fs (Or.inr rfl) _).bind fun _ => trivial

theorem within_copyObject (input : CopyObjectInput) :
    (fs.copyObject input).Only (Call.Within
      (Area (fs.ObjectPath input.bucket input.key) (Sidecar input.bucket input.key))) := by
  have hmetadata {t : Tree Bytes UInt8} : Area (fs.ObjectPath input.bucket input.key)
      (Sidecar input.bucket input.key) t [(StoreFile.metadata input.bucket input.key none).name] :=
    area_of_file (Or.inl rfl) t
  apply (reads_location _).bind
  rintro ⟨bucket, key⟩
  apply (within_of_reads (reads_getObjectPath fs bucket key)).bind
  intro srcPath
  apply within_object
  intro p hp
  apply (within_of_reads (reads_pathExists _)).bind
  intro _
  apply (only_require _ _).bind
  intro _
  apply (within_of_reads (reads_getBucketPath fs input.bucket)).bind
  intro bucketPath
  apply (within_of_reads (reads_pathExists _)).bind
  intro _
  apply (only_require _ _).bind
  intro _
  apply Prog.Only.bind
  · exact within_of_reads ((only_io _).mpr trivial)
  intro src
  apply (within_of_reads (reads_loadInfo fs _)).bind
  intro srcInfo
  apply (within_of_reads (reads_checkSourceMatch fs input bucket key _ _)).bind
  intro srcETag
  apply (within_of_reads (reads_checkSourceNoneMatch fs input bucket key _ _)).bind
  intro srcETag
  apply Prog.Only.bind
  · apply Prog.Only.bind
    · exact within_io fun t q hq => area_above hp (hq.1.trans (List.dropLast_prefix p)) hq.2
    · intro _
      apply only_ite
      · intro _
        apply (only_systemNow.mpr trivial).bind
        intro now
        apply Prog.Only.bind
        · exact within_io (touches_self (area_of_path hp))
        · exact fun _ => trivial
      · intro _
        apply Prog.Only.bind
        · exact within_io (touches_self (area_of_path hp))
        · intro _
          apply Prog.Only.bind
          · exact within_of_reads ((only_io _).mpr trivial)
          · exact fun _ => trivial
  intro lastModified
  apply (within_of_reads (reads_sourceETag fs _ _ _)).bind
  intro dstETag
  apply Prog.Only.bind
  · apply only_ite
    · exact fun _ => within_saveFile fs (Or.inl rfl) _
    · intro _
      apply only_storePath
      apply (within_of_reads (reads_pathExists _)).bind
      intro _
      apply only_ite
      · intro _
        apply only_storePath
        apply only_ite
        · exact fun _ => within_io (touches_self fun _ => hmetadata)
        · exact fun _ => trivial
      · exact fun _ => trivial
  intro _
  exact (within_saveFile fs (Or.inr rfl) _).bind fun _ => trivial

theorem within_deleteObject (bucket key : Bytes) :
    (fs.deleteObject bucket key).Only (Call.Within (Area (fs.ObjectPath bucket key) fun _ => False)) := by
  apply within_object
  intro p hp
  apply (within_of_reads (reads_pathExists _)).bind
  intro present
  apply only_ite
  · intro _
    apply only_ite
    · intro _
      apply Prog.Only.bind
      · exact within_of_reads ((only_io _).mpr trivial)
      · intro entries
        apply only_ite
        · exact fun _ => within_io (touches_self (area_of_path hp))
        · exact fun _ => trivial
    · exact fun _ => within_io (touches_self (area_of_path hp))
  · intro _
    apply (within_of_reads (reads_getBucketPath fs bucket)).bind
    intro bucketPath
    apply (within_of_reads (reads_pathExists _)).bind
    exact fun _ => only_require _ _

theorem within_deleteOne (bucket key : Bytes) :
    (fs.deleteOne bucket key).Only (Call.Within (Area (fs.ObjectPath bucket key) fun _ => False)) := by
  apply within_object
  intro p hp
  apply only_ite
  · intro _
    apply Prog.Only.bind
    · exact within_of_reads ((only_tryIo _).mpr trivial)
    · intro x
      cases x with
      | ok entries =>
        apply only_ite
        · exact fun _ => within_io (touches_self (area_of_path hp))
        · exact fun _ => trivial
      | error kind => cases kind <;> trivial
  · exact fun _ => within_removeFileIfExists (area_of_path hp)

theorem within_deleteObjects (bucket : Bytes) (objects : List DeletedObject) :
    (fs.deleteObjects bucket objects).Only (Call.Within
      (Area (fun p => ∃ o ∈ objects, fs.ObjectPath bucket o.key p) fun _ => False)) := by
  induction objects with
  | nil => trivial
  | cons o objects ih =>
    apply (within_mono (within_deleteOne fs bucket o.key) _).bind
    · intro _
      refine (within_mono ih (Area.mono ?_ fun _ h => h)).bind fun _ => trivial
      rintro p ⟨o', ho', hp⟩
      exact ⟨o', List.mem_cons_of_mem _ ho', hp⟩
    · exact Area.mono (fun p hp => ⟨o, List.mem_cons_self, hp⟩) fun _ h => h

/-- What the upload of a part writes. -/
def PartArea (uploadId : Bytes) (f : StoreFile) : Prop :=
  ∃ u, fs.parseUuid uploadId = some u ∧ PartOf u f

theorem within_createMultipartUpload (input : CreateMultipartUploadInput) (cred : Option Bytes)
    (uploadId : Uuid) : (fs.createMultipartUpload input cred uploadId).Only (Call.Within
      (Area (fun _ => False) (RecordOf input.bucket input.key uploadId))) := by
  apply (only_require _ _).bind
  intro _
  apply (within_saveFile fs (Or.inl rfl) _).bind
  intro _
  exact (within_saveFile fs (Or.inr rfl) _).bind fun _ => trivial

theorem within_uploadPart (input : UploadPartInput) (cred : Option Bytes)
    (trailers : Option Http.HeaderMap) : (fs.uploadPart input cred trailers).Only (Call.Within
      (Area (fun _ => False) (PartArea fs input.uploadId))) := by
  apply (only_require _ _).bind
  intro _
  apply (only_demand _ _).bind
  intro stream
  apply (within_of_reads (reads_openUpload fs cred _)).bind_gives (gives_openUpload fs cred _)
  intro u hu
  apply (within_of_reads (reads_loadObjectAttributes fs _ _ _)).bind
  intro uploadAttrs
  apply only_storePath
  apply (reads_enableGiven _ _).bind
  intro hasher
  apply (reads_enableGiven _ _).bind
  intro hasher
  apply Prog.Only.bind
  · apply within_writing
    · exact fun n t => area_temporary n t
    · exact area_of_file ⟨u, hu, _, Or.inl rfl⟩
    · intro t q hq hget
      rw [List.prefix_nil.mp hq, Tree.get_nil] at hget
      cases hget
    · intro n
      apply (within_copyBytes (area_temporary n) stream).bind
      intro content
      apply (reads_trailingChecksums _ _).bind
      intro expected
      apply Prog.Only.bind
      · unfold checkExpected
        split <;> trivial
      · exact fun _ => trivial
  rintro ⟨md5Sum, checksum⟩
  exact (within_saveFile fs ⟨u, hu, _, Or.inr rfl⟩ _).bind fun _ => trivial

theorem within_uploadPartCopy (input : UploadPartCopyInput) (cred : Option Bytes) :
    (fs.uploadPartCopy input cred).Only (Call.Within
      (Area (fun _ => False) (PartArea fs input.uploadId))) := by
  apply (within_of_reads (reads_openUpload fs cred _)).bind_gives (gives_openUpload fs cred _)
  intro u hu
  apply (within_of_reads (reads_loadObjectAttributes fs _ _ _)).bind
  intro uploadAttrs
  apply (reads_location _).bind
  rintro ⟨bucket, key⟩
  apply (within_of_reads (reads_getObjectPath fs bucket key)).bind
  intro srcPath
  apply only_storePath
  apply (within_of_reads (reads_openObject srcPath)).bind
  intro file
  apply Prog.Only.bind
  · exact within_of_reads ((only_io _).mpr trivial)
  intro stat
  apply (reads_copySourceInterval _ _).bind
  rintro ⟨start, contentLength⟩
  apply (reads_enableGiven _ _).bind
  intro hasher
  apply Prog.Only.bind
  · apply within_writing
    · exact fun n t => area_temporary n t
    · exact area_of_file ⟨u, hu, _, Or.inl rfl⟩
    · intro t q hq hget
      rw [List.prefix_nil.mp hq, Tree.get_nil] at hget
      cases hget
    · exact fun n => within_copyBytes (area_temporary n) _
  intro content
  apply Prog.Only.bind
  · unfold checkExpected
    split <;> trivial
  intro _
  exact (within_saveFile fs ⟨u, hu, _, Or.inr rfl⟩ _).bind fun _ => trivial

/-- What the completion of an upload writes. -/
def CompletionArea (bucket key uploadId : Bytes) (f : StoreFile) : Prop :=
  Sidecar bucket key f ∨ ∃ u, fs.parseUuid uploadId = some u ∧ (RecordOf bucket key u f ∨ PartOf u f)

theorem within_appendParts {P : Tree Bytes UInt8 → List Bytes → Prop} (uploadId : Uuid) (total : Int)
    {tmpPath : List Bytes} (htmp : ∀ t, P t tmpPath) (cnt : Int) (parts : List CompletedPart) :
    (fs.appendParts uploadId total tmpPath cnt parts).Only (Call.Within P) := by
  induction parts generalizing cnt with
  | nil => trivial
  | cons part parts ih =>
    apply Prog.Only.bind
    · apply (only_demand _ _).bind
      intro partNumber
      apply (only_require _ _).bind
      intro _
      apply only_storePath
      apply (within_of_reads (reads_loadInfo fs _)).bind
      intro partInfo
      apply (reads_storedChecksum _ _).bind
      intro savedChecksum
      apply Prog.Only.bind
      · unfold checkExpected
        split <;> trivial
      intro _
      apply Prog.Only.bind
      · exact within_of_reads ((only_io _).mpr trivial)
      intro content
      apply Prog.Only.bind
      · exact within_io (touches_self htmp)
      · exact fun _ => (only_require _ _).bind fun _ => trivial
    · exact fun _ => (ih _).bind fun _ => trivial

theorem within_assemble (input : CompleteMultipartUploadInput) (uploadId : Uuid)
    (parts : List CompletedPart) (hasher : ChecksumAlgorithm → Bool) (n : Nat) :
    (fs.assemble input uploadId parts hasher [(StoreFile.temporary n).name]).Only
      (Call.Within (Area paths files)) := by
  apply (only_require _ _).bind
  intro _
  apply (within_appendParts fs uploadId _ (area_temporary n) 0 _).bind
  intro contents
  apply Prog.Only.bind
  · unfold checkExpected
    split <;> trivial
  · exact fun _ => trivial

theorem within_assembled (input : CompleteMultipartUploadInput) (uploadId : Uuid)
    (parts : List CompletedPart) (hasher : ChecksumAlgorithm → Bool) {p : List Bytes} (hp : paths p) :
    (fs.writing p (fs.assemble input uploadId parts hasher)).Only (Call.Within (Area paths files)) := by
  apply within_writing
  · exact fun n t => area_temporary n t
  · exact area_of_path hp
  · exact fun t q hq hget => area_above hp (hq.trans (List.dropLast_prefix p)) hget
  · exact within_assemble fs input uploadId parts hasher

theorem within_failed {φ : Call → Prop} {step : Op Unit} (h : step.Only φ) : (failed step).Only φ :=
  (h.attempt).bind fun _ => trivial

theorem within_removeStoreFile {f : StoreFile} (hf : files f) :
    (fs.getStorePath f >>= fun path => removeFileIfExists path).Only
      (Call.Within (Area paths files)) :=
  only_storePath fs (within_removeFileIfExists (area_of_file hf))

theorem within_cleanupParts {uploadId : Uuid} {partNumbers : List Int}
    (hfiles : ∀ n ∈ partNumbers, files (.uploadPart uploadId n) ∧ files (.uploadPartInfo uploadId n)) :
    (fs.cleanupParts uploadId partNumbers).Only (Call.Within (Area paths files)) := by
  induction partNumbers with
  | nil => trivial
  | cons n partNumbers ih =>
    obtain ⟨hpart, hinfo⟩ := hfiles n List.mem_cons_self
    apply (within_failed (within_removeStoreFile fs hpart)).bind
    intro _
    apply (within_failed (within_removeStoreFile fs hinfo)).bind
    exact fun _ => (ih fun n hn => hfiles n (List.mem_cons_of_mem _ hn)).bind fun _ => trivial

theorem within_cleanup {bucket key : Bytes} {uploadId : Uuid} {partNumbers : List Int}
    (hrecord : ∀ f, RecordOf bucket key uploadId f → files f)
    (hparts : ∀ n ∈ partNumbers, files (.uploadPart uploadId n) ∧ files (.uploadPartInfo uploadId n)) :
    (fs.cleanup bucket key uploadId partNumbers).Only (Call.Within (Area paths files)) := by
  apply (within_failed (within_removeStoreFile fs (hrecord _ (Or.inr rfl)))).bind
  intro _
  apply (within_cleanupParts fs hparts).bind
  intro _
  apply only_ite
  · exact fun _ => trivial
  · intro _
    apply Prog.Only.bind
    · exact within_failed (within_removeStoreFile fs (hrecord _ (Or.inl rfl)))
    · exact fun _ => trivial

theorem within_saveUploadAttributes {bucket key : Bytes} (hfile : files (.metadata bucket key none))
    (attrs : Option ObjectAttributes) :
    (fs.saveUploadAttributes bucket key attrs).Only (Call.Within (Area paths files)) := by
  cases attrs with
  | none => trivial
  | some attrs => exact within_saveFile fs hfile _

theorem within_completeMultipartUpload (input : CompleteMultipartUploadInput) (cred : Option Bytes) :
    (fs.completeMultipartUpload input cred).Only (Call.Within
      (Area (fs.ObjectPath input.bucket input.key)
        (CompletionArea fs input.bucket input.key input.uploadId))) := by
  apply (only_demand _ _).bind
  intro multipartUpload
  apply (only_require _ _).bind
  intro _
  apply (within_of_reads (reads_openUpload fs cred _)).bind_gives (gives_openUpload fs cred _)
  intro u hu
  apply (only_require _ _).bind
  intro _
  apply (within_of_reads (reads_loadObjectAttributes fs _ _ _)).bind
  intro uploadAttrs
  apply (only_require _ _).bind
  intro _
  apply within_object
  intro p hp
  apply (within_of_reads (reads_checkConditions fs _ _ _ _ _)).bind
  intro _
  apply (reads_enableGiven _ _).bind
  intro hasher
  apply (within_assembled fs input u _ hasher hp).bind
  rintro ⟨etag, checksum⟩
  apply (within_saveUploadAttributes fs (Or.inl (Or.inl rfl)) _).bind
  intro _
  apply (within_saveFile fs (Or.inl (Or.inr rfl)) _).bind
  intro _
  have hcleanup (ns : List Int) : (fs.cleanup input.bucket input.key u ns).Only (Call.Within
      (Area (fs.ObjectPath input.bucket input.key)
        (CompletionArea fs input.bucket input.key input.uploadId))) := by
    apply within_cleanup
    · exact fun f hf => Or.inr ⟨u, hu, Or.inl hf⟩
    · exact fun n _ => ⟨Or.inr ⟨u, hu, Or.inr ⟨n, Or.inl rfl⟩⟩, Or.inr ⟨u, hu, Or.inr ⟨n, Or.inr rfl⟩⟩⟩
  exact (hcleanup _).bind fun _ => trivial

/-- The files of the root that go with an upload. -/
def ResiduePath (uploadId : Bytes) (p : List Bytes) : Prop :=
  ∃ u name, fs.parseUuid uploadId = some u ∧ isResidue u name = true ∧ p = [name]

theorem within_abortMultipartUpload (bucket key uploadId : Bytes) (cred : Option Bytes) :
    (fs.abortMultipartUpload bucket key uploadId cred).Only (Call.Within
      (Area (ResiduePath fs uploadId)
        fun f => ∃ u, fs.parseUuid uploadId = some u ∧ RecordOf bucket key u f)) := by
  apply (within_of_reads (reads_openUpload fs cred _)).bind_gives (gives_openUpload fs cred _)
  intro u hu
  apply (within_removeStoreFile fs ⟨u, hu, Or.inr rfl⟩).bind
  intro _
  apply Prog.Only.bind
  · exact within_of_reads ((only_io _).mpr trivial)
  intro entries
  apply Prog.Only.bind
  · have hresidue (entries : List (Bytes × Bool)) : (removeResidue u entries).Only (Call.Within
        (Area (ResiduePath fs uploadId)
          fun f => ∃ u, fs.parseUuid uploadId = some u ∧ RecordOf bucket key u f)) := by
      induction entries with
      | nil => trivial
      | cons entry entries ih =>
        obtain ⟨name, isDir⟩ := entry
        unfold removeResidue
        apply only_ite
        · intro hname
          apply (within_removeFileIfExists (area_of_path ⟨u, name, hu, hname, rfl⟩)).bind
          exact fun _ => ih
        · exact fun _ => ih
    exact hresidue entries
  · exact fun _ => within_removeStoreFile fs ⟨u, hu, Or.inl rfl⟩

end Operations

end S3s.Fs
