import S3s.Fs.Conditional
import S3s.Fs.Tidy

/-! # What the requests write as a whole

What a request puts in a place is complete: a body, the parts of an upload, or the text of what is told of an
object. A copy alone is written in its place.
-/
namespace S3s.Fs
open LexicalPath Programs FileTree Routing

section Contents

variable (fs : FileSystem) {ι : Type} (asked : ι → Asked) (disk : Tree Bytes UInt8)

/-- What may be found in a file: what was there, or what one of the requests writes to it as a whole. What
comes of a copy is not told. -/
inductive FileSystem.Whole : List Bytes → Bytes → Prop
  | kept {p : List Bytes} {content : Bytes} {m : Nat} (hfile : disk.get p = some (.file content m)) :
    Whole p content
  | put {i : ι} {cred : Option Bytes} {input : PutObjectInput} {trailers : Option Http.HeaderMap}
    {p : List Bytes} {content : Bytes} (hasked : asked i = (cred, .putObject input trailers))
    (hpath : fs.pathOf input.bucket input.key = some p) (hbody : input.body.bind contentOf = some content) :
    Whole p content
  | putAttributes {i : ι} {cred : Option Bytes} {input : PutObjectInput} {trailers : Option Http.HeaderMap}
    (hasked : asked i = (cred, .putObject input trailers)) :
    Whole [(StoreFile.metadata input.bucket input.key none).name] (fs.attributes.toVec ⟨input.attributes, none, none⟩)
  | copied {i : ι} {cred : Option Bytes} {input : CopyObjectInput} {p : List Bytes} {content : Bytes}
    (hasked : asked i = (cred, .copyObject input)) (hplace : fs.pathOf input.bucket input.key = some p ∨
      p = [(StoreFile.metadata input.bucket input.key none).name]) : Whole p content
  | created {i : ι} {cred : Option Bytes} {input : CreateMultipartUploadInput} {u : Uuid}
    (hasked : asked i = (cred, .createMultipartUpload input u)) :
    Whole [(StoreFile.uploadInfo u).name] (fs.accessKey.toVec cred)
  | createdAttributes {i : ι} {cred : Option Bytes} {input : CreateMultipartUploadInput} {u : Uuid}
    (hasked : asked i = (cred, .createMultipartUpload input u)) :
    Whole [(StoreFile.metadata input.bucket input.key (some u)).name]
      (fs.attributes.toVec ⟨input.attributes, input.checksumAlgorithm, input.checksumType⟩)
  | part {i : ι} {cred : Option Bytes} {input : UploadPartInput} {trailers : Option Http.HeaderMap} {u : Uuid}
    {content : Bytes} (hasked : asked i = (cred, .uploadPart input trailers))
    (hupload : fs.parseUuid input.uploadId = some u) (hbody : input.body.bind contentOf = some content) :
    Whole [(StoreFile.uploadPart u input.partNumber).name] content
  | partCopied {i : ι} {cred : Option Bytes} {input : UploadPartCopyInput} {u : Uuid} {bucket key : Bytes}
    {p : List Bytes} {content : Bytes} {start length : Nat} (hasked : asked i = (cred, .uploadPartCopy input))
    (hupload : fs.parseUuid input.uploadId = some u) (hsource : input.copySource = .object bucket key)
    (hpath : fs.pathOf bucket key = some p) (hwhole : Lasting p → Whole p content) :
    Whole [(StoreFile.uploadPart u input.partNumber).name] ((content.drop start).take length)
  | completed {i : ι} {cred : Option Bytes} {input : CompleteMultipartUploadInput} {u : Uuid} {p : List Bytes}
    {contents : List Bytes} (hasked : asked i = (cred, .completeMultipartUpload input))
    (hupload : fs.parseUuid input.uploadId = some u) (hpath : fs.pathOf input.bucket input.key = some p)
    (hlength : contents.length = (listedParts input).length)
    (hparts : ∀ (k : Nat) content, contents[k]? = some content →
      Whole [(StoreFile.uploadPart u (k + 1)).name] content) : Whole p contents.flatten
  | completedAttributes {i : ι} {cred : Option Bytes} {input : CompleteMultipartUploadInput} {u : Uuid}
    {content : Bytes} {attrs : ObjectAttributes} (hasked : asked i = (cred, .completeMultipartUpload input))
    (hupload : fs.parseUuid input.uploadId = some u)
    (hwhole : Whole [(StoreFile.metadata input.bucket input.key (some u)).name] content)
    (hread : fs.readAttributes content = some attrs) :
    Whole [(StoreFile.metadata input.bucket input.key none).name] (fs.attributes.toVec attrs)
  | info {f : StoreFile} {info : InternalInfo}
    (hf : (∃ bucket key, f = .internalInfo bucket key) ∨ ∃ u n, f = .uploadPartInfo u n) :
    Whole [f.name] (fs.info.toVec info)

end Contents

section Requests

variable (fs : FileSystem) {ι : Type} {asked : ι → Asked} {disk : Tree Bytes UInt8} {calm : Prop} {i : ι}
  {cred : Option Bytes}

theorem FileSystem.Ordinary.lasting {fs : FileSystem} {bucket key : Bytes} (h : fs.Ordinary bucket key)
    {p : List Bytes} (hp : fs.pathOf bucket key = some p) : Lasting p := by
  intro n hn
  exact (h.path hp).1 (congrArg List.length hn)

theorem clear_of_head {p : List Bytes} (h : ∀ name, p.head? = some name → checkBucketName name = true) :
    Clear p := by
  rintro n ⟨rest, rfl⟩
  exact (StoreFile.temporary n).name_ne_bucket (h _ rfl) rfl

theorem FileSystem.Ordinary.clear {fs : FileSystem} {bucket key : Bytes} (h : fs.Ordinary bucket key)
    {p : List Bytes} (hp : fs.pathOf bucket key = some p) : Clear p := by
  apply clear_of_head
  intro name hname
  rw [(h.path hp).2 name hname]
  exact h.isBucket

theorem Clear.dropLast {p : List Bytes} (h : Clear p) : Clear p.dropLast :=
  fun n hn => h n (hn.trans (List.dropLast_prefix p))

theorem tidy_saveInternalInfo (bucket key : Bytes) (info : InternalInfo) :
    Tidy (fs.Whole asked disk) calm (fs.saveInternalInfo bucket key info) fun _ => True :=
  tidy_saveFile fs (fun _ h => StoreFile.noConfusion h) (.info (Or.inl ⟨bucket, key, rfl⟩))

theorem tidy_saveUploadPartInfo (u : Uuid) (n : Int) (info : InternalInfo) :
    Tidy (fs.Whole asked disk) calm (fs.saveUploadPartInfo u n info) fun _ => True :=
  tidy_saveFile fs (fun _ h => StoreFile.noConfusion h) (.info (Or.inr ⟨u, n, rfl⟩))

/-- A body that is received to a temporary file, and the checks behind it. -/
theorem follows_received {α : Type} {Whole : List Bytes → Bytes → Prop} {n : Nat}
    {stream : List (Except StreamError Bytes)} {next : Bytes → Op α} (hnext : ∀ bytes, (next bytes).Only Call.Reads) :
    (copyBytes (draftPath n) stream >>= next).Follows (draftProtocol Whole calm) (.opened n [])
      (fun _ s => ∃ content, s = .opened n content ∧ contentOf stream = some content)
      fun _ s => ∃ content, s = .opened n content := by
  refine (follows_copyBytes n [] stream).bind ?_ fun _ _ h => h
  rintro bytes _ ⟨rfl, hbytes⟩
  exact (follows_checks (hnext bytes)).mono (fun _ _ h => ⟨bytes, h, hbytes⟩) fun _ _ h => h

theorem gives_putChecks_stream (input : PutObjectInput) : (fs.putChecks input).Gives fun x =>
    input.body = some x.1 ∧ fs.pathOf input.bucket input.key = some x.2.1 := by
  apply (Prog.gives_true _).bind
  intro _ _
  apply (gives_demand _ _).bind
  intro stream hstream
  apply (gives_getObjectPath _ _).bind
  intro objectPath hpath
  apply (Prog.gives_true _).bind
  intro _ _
  exact (Prog.gives_true _).bind fun _ _ => ⟨hstream, hpath⟩

theorem tidy_putObject {input : PutObjectInput} {trailers : Option Http.HeaderMap}
    (hasked : asked i = (cred, .putObject input trailers)) (hordinary : fs.Ordinary input.bucket input.key) :
    Tidy (fs.Whole asked disk) calm (fs.putObject input trailers) fun _ => True := by
  rw [putObject_eq]
  apply (tidy_of_gives (reads_putChecks fs input) (gives_putChecks_stream fs input)).bind
  rintro ⟨stream, path, hasher⟩ ⟨hstream, hpath⟩
  split
  · apply (tidy_of_spares (only_require _ _)).bind
    intro _ _
    apply (tidy_of_spares ((only_io (.createDirAll path)).mpr (hordinary.clear hpath))).bind
    exact fun _ _ => tidy_pure trivial
  · refine (tidy_writing fs (R := fun _ content => contentOf stream = some content) (hordinary.lasting hpath)
      (hordinary.clear hpath).dropLast ?_ ?_).bind ?_
    · intro n
      apply follows_received
      intro bytes
      apply (reads_checkContentMd5 _ _).bind
      intro _
      apply (reads_trailingChecksums _ _).bind
      intro expected
      exact (reads_checkPutChecksums _ _).bind fun _ => trivial
    · intro _ content hcontent
      refine .put hasked hpath ?_
      rw [hstream]
      exact hcontent
    · rintro ⟨md5Sum, checksum⟩ -
      apply (tidy_saveFile fs (fun _ h => StoreFile.noConfusion h) (.putAttributes hasked)).bind
      intro _ _
      exact (tidy_saveInternalInfo fs _ _ _).bind fun _ _ => tidy_pure trivial

theorem tidy_copyObject {input : CopyObjectInput} (hasked : asked i = (cred, .copyObject input))
    (hordinary : fs.Ordinary input.bucket input.key) :
    Tidy (fs.Whole asked disk) calm (fs.copyObject input) fun _ => True := by
  have hmetadata : Lasting [(StoreFile.metadata input.bucket input.key none).name] :=
    StoreFile.lasting fun _ h => StoreFile.noConfusion h
  apply (tidy_of_reads (reads_location _)).bind
  rintro ⟨bucket, key⟩ -
  apply (tidy_of_reads (reads_getObjectPath fs bucket key)).bind
  intro srcPath _
  apply (tidy_of_gives (reads_getObjectPath fs input.bucket input.key) (gives_getObjectPath _ _)).bind
  intro p hp
  apply (tidy_of_reads (reads_pathExists _)).bind
  intro _ _
  apply (tidy_of_reads (only_require _ _)).bind
  intro _ _
  apply (tidy_of_reads (reads_getBucketPath fs input.bucket)).bind
  intro bucketPath _
  apply (tidy_of_reads (reads_pathExists _)).bind
  intro _ _
  apply (tidy_of_reads (only_require _ _)).bind
  intro _ _
  apply (tidy_of_reads (reads_metadata _)).bind
  intro src _
  apply (tidy_of_reads (reads_loadInfo fs _)).bind
  intro srcInfo _
  apply (tidy_of_reads (reads_checkSourceMatch fs input bucket key _ _)).bind
  intro srcETag _
  apply (tidy_of_reads (reads_checkSourceNoneMatch fs input bucket key _ _)).bind
  intro srcETag _
  apply Tidy.bind (Q := fun _ => True)
  · apply tidy_of_spares
    apply Prog.Only.bind
    · exact (only_io _).mpr (hordinary.clear hp).dropLast
    · intro _
      apply only_ite
      · intro _
        apply (only_systemNow.mpr trivial).bind
        intro now
        exact ((only_io _).mpr (hordinary.lasting hp)).bind fun _ => trivial
      · intro _
        apply ((only_io _).mpr ⟨hordinary.lasting hp, fun _ => .copied hasked (Or.inl hp)⟩).bind
        exact fun _ => ((only_io _).mpr trivial).bind fun _ => trivial
  intro lastModified _
  apply (tidy_of_reads (reads_sourceETag fs _ _ _)).bind
  intro dstETag _
  apply Tidy.bind (Q := fun _ => True)
  · unfold FileSystem.copyAttributes
    split
    · exact tidy_saveFile fs (fun _ h => StoreFile.noConfusion h) (.copied hasked (Or.inr rfl))
    · apply tidy_of_spares
      apply only_storePath
      apply ((only_pathExists _).mpr trivial).bind
      intro _
      apply only_ite
      · intro _
        apply only_storePath
        apply only_ite
        · exact fun _ => (only_io _).mpr ⟨hmetadata, fun _ => .copied hasked (Or.inr rfl)⟩
        · exact fun _ => trivial
      · exact fun _ => trivial
  intro _ _
  exact (tidy_saveInternalInfo fs _ _ _).bind fun _ _ => tidy_pure trivial

section Removals

variable {Whole : List Bytes → Bytes → Prop}

theorem spares_removeFileIfExists {p : List Bytes} (hp : Lasting p) :
    (removeFileIfExists p).Only (Call.Spares Whole) := by
  apply ((only_tryIo (.removeFile p)).mpr hp).bind
  intro x
  cases x with
  | ok _ => trivial
  | error kind => cases kind <;> trivial

theorem spares_removeStoreFile {f : StoreFile} (hf : ∀ n, f ≠ .temporary n) :
    (fs.getStorePath f >>= fun path => removeFileIfExists path).Only (Call.Spares Whole) :=
  only_storePath fs (spares_removeFileIfExists (StoreFile.lasting hf))

theorem spares_deleteObject {bucket key : Bytes} (hordinary : fs.Ordinary bucket key) :
    (fs.deleteObject bucket key).Only (Call.Spares Whole) := by
  apply ((reads_getObjectPath fs bucket key).mono fun _ => Call.Reads.spares).bind_gives
    (gives_getObjectPath bucket key)
  intro p hp
  have hlasting := hordinary.lasting hp
  apply ((reads_pathExists _).mono fun _ => Call.Reads.spares).bind
  intro present
  apply only_ite
  · intro _
    apply only_ite
    · intro _
      apply ((only_io (.readDir p)).mpr trivial).bind
      intro entries
      apply only_ite
      · exact fun _ => (only_io (.removeDir p)).mpr hlasting
      · exact fun _ => trivial
    · exact fun _ => (only_io (.removeFile p)).mpr hlasting
  · intro _
    apply ((reads_getBucketPath fs bucket).mono fun _ => Call.Reads.spares).bind
    intro bucketPath
    apply ((reads_pathExists _).mono fun _ => Call.Reads.spares).bind
    exact fun _ => only_require _ _

theorem spares_deleteOne {bucket key : Bytes} (hordinary : fs.Ordinary bucket key) :
    (fs.deleteOne bucket key).Only (Call.Spares Whole) := by
  apply ((reads_getObjectPath fs bucket key).mono fun _ => Call.Reads.spares).bind_gives
    (gives_getObjectPath bucket key)
  intro p hp
  have hlasting := hordinary.lasting hp
  apply only_ite
  · intro _
    apply ((only_tryIo (.readDir p)).mpr trivial).bind
    intro x
    cases x with
    | ok entries =>
      apply only_ite
      · exact fun _ => (only_io (.removeDir p)).mpr hlasting
      · exact fun _ => trivial
    | error kind => cases kind <;> trivial
  · exact fun _ => spares_removeFileIfExists hlasting

theorem spares_deleteObjects {bucket : Bytes} {objects : List DeletedObject}
    (hordinary : ∀ o ∈ objects, fs.Ordinary bucket o.key) :
    (fs.deleteObjects bucket objects).Only (Call.Spares Whole) := by
  induction objects with
  | nil => trivial
  | cons o objects ih =>
    apply (spares_deleteOne fs (hordinary o List.mem_cons_self)).bind
    exact fun _ => (ih fun o ho => hordinary o (List.mem_cons_of_mem _ ho)).bind fun _ => trivial

theorem spares_cleanupParts (u : Uuid) (ns : List Int) :
    (fs.cleanupParts u ns).Only (Call.Spares Whole) := by
  induction ns with
  | nil => trivial
  | cons n ns ih =>
    apply (within_failed (spares_removeStoreFile fs fun _ h => StoreFile.noConfusion h)).bind
    intro _
    apply (within_failed (spares_removeStoreFile fs fun _ h => StoreFile.noConfusion h)).bind
    exact fun _ => ih.bind fun _ => trivial

theorem spares_cleanup (bucket key : Bytes) (u : Uuid) (ns : List Int) :
    (fs.cleanup bucket key u ns).Only (Call.Spares Whole) := by
  apply (within_failed (spares_removeStoreFile fs fun _ h => StoreFile.noConfusion h)).bind
  intro _
  apply (spares_cleanupParts fs u ns).bind
  intro _
  apply only_ite
  · exact fun _ => trivial
  · intro _
    apply Prog.Only.bind
    · exact within_failed (spares_removeStoreFile fs fun _ h => StoreFile.noConfusion h)
    · exact fun _ => trivial

theorem lasting_of_isResidue {u : Uuid} {name : Bytes} (h : isResidue u name = true) : Lasting [name] := by
  intro n hn
  rw [draftPath, List.singleton_inj] at hn
  rw [hn] at h
  simp [isResidue, StoreFile.name, ascii, List.isPrefixOf] at h

theorem spares_abortMultipartUpload (bucket key uploadId : Bytes) (cred : Option Bytes) :
    (fs.abortMultipartUpload bucket key uploadId cred).Only (Call.Spares Whole) := by
  have hresidue (u : Uuid) (entries : List (Bytes × Bool)) :
      (removeResidue u entries).Only (Call.Spares Whole) := by
    induction entries with
    | nil => trivial
    | cons entry entries ih =>
      obtain ⟨name, isDir⟩ := entry
      unfold removeResidue
      apply only_ite
      · intro hname
        exact (spares_removeFileIfExists (lasting_of_isResidue hname)).bind fun _ => ih
      · exact fun _ => ih
  apply ((reads_openUpload fs cred _).mono fun _ => Call.Reads.spares).bind
  intro u
  apply (spares_removeStoreFile fs fun _ h => StoreFile.noConfusion h).bind
  intro _
  apply ((only_io (.readDir [])).mpr trivial).bind
  intro entries
  apply (hresidue u entries).bind
  exact fun _ => spares_removeStoreFile fs fun _ h => StoreFile.noConfusion h

theorem spares_createBucket {bucket : Bytes} (hbucket : checkBucketName bucket = true) :
    (fs.createBucket bucket).Only (Call.Spares Whole) := by
  apply only_bucketPath fs (isName_of_checkBucketName hbucket)
  apply ((reads_pathExists _).mono fun _ => Call.Reads.spares).bind
  intro present
  apply (only_require _ _).bind
  intro _
  refine (only_io (.createDir [bucket])).mpr (clear_of_head ?_)
  rintro _ ⟨⟩
  exact hbucket

theorem spares_deleteBucket {bucket : Bytes} (hbucket : checkBucketName bucket = true) :
    (fs.deleteBucket bucket).Only (Call.Spares Whole) := by
  apply only_bucketPath fs (isName_of_checkBucketName hbucket)
  apply ((reads_pathExists _).mono fun _ => Call.Reads.spares).bind
  intro present
  apply (only_require _ _).bind
  intro _
  refine (only_io (.removeDirAll [bucket])).mpr fun n hn => ?_
  exact (StoreFile.temporary n).name_ne_bucket hbucket (List.cons_prefix_cons.mp hn).1.symm

end Removals

theorem tidy_createMultipartUpload {input : CreateMultipartUploadInput} {u : Uuid}
    (hasked : asked i = (cred, .createMultipartUpload input u)) :
    Tidy (fs.Whole asked disk) calm (fs.createMultipartUpload input cred u) fun _ => True := by
  apply (tidy_of_reads (only_require _ _)).bind
  intro _ _
  apply (tidy_saveFile fs (fun _ h => StoreFile.noConfusion h) (.created hasked)).bind
  intro _ _
  apply (tidy_saveFile fs (fun _ h => StoreFile.noConfusion h) (.createdAttributes hasked)).bind
  exact fun _ _ => tidy_pure trivial

theorem gives_partChecks_stream (input : UploadPartInput) : (fs.partChecks input cred).Gives fun x =>
    input.body = some x.1 ∧ fs.parseUuid input.uploadId = some x.2.1 := by
  apply (Prog.gives_true _).bind
  intro _ _
  apply (gives_demand _ _).bind
  intro stream hstream
  apply (gives_openUpload fs cred _).bind
  intro u hu
  apply (Prog.gives_true _).bind
  intro _ _
  apply (Prog.gives_true _).bind
  intro _ _
  exact (Prog.gives_true _).bind fun _ _ => ⟨hstream, hu⟩

theorem tidy_uploadPart {input : UploadPartInput} {trailers : Option Http.HeaderMap}
    (hasked : asked i = (cred, .uploadPart input trailers)) :
    Tidy (fs.Whole asked disk) calm (fs.uploadPart input cred trailers) fun _ => True := by
  rw [uploadPart_eq]
  apply (tidy_of_gives (reads_partChecks fs input cred) (gives_partChecks_stream fs input)).bind
  rintro ⟨stream, u, hasher⟩ ⟨hstream, hu⟩
  refine (tidy_writing fs (R := fun _ content => contentOf stream = some content)
    (StoreFile.lasting fun _ h => StoreFile.noConfusion h) clear_nil ?_ ?_).bind ?_
  · intro n
    apply follows_received
    intro bytes
    apply (reads_trailingChecksums _ _).bind
    intro expected
    exact (reads_checkExpected _ _ _).bind fun _ => trivial
  · intro _ content hcontent
    refine .part hasked hu ?_
    rw [hstream]
    exact hcontent
  · rintro ⟨md5Sum, checksum⟩ -
    exact (tidy_saveUploadPartInfo fs _ _ _).bind fun _ _ => tidy_pure trivial

/-- What is opened at a lasting path is whole. -/
theorem tidy_openObject {Whole : List Bytes → Bytes → Prop} (p : List Bytes) :
    Tidy Whole calm (openObject p) fun file => ∀ content m, file = .file content m → Lasting p → Whole p content := by
  refine ⟨trivial, fun x hx => ?_⟩
  cases x with
  | ok file =>
    refine ⟨rfl, ?_⟩
    rintro content m rfl
    exact hx content m rfl
  | error kind => exact fun _ => rfl

theorem gives_location (source : CopySource) :
    source.location.Gives fun x => source = .object x.1 x.2 := by
  cases source with
  | object bucket key => rfl
  | other => trivial

theorem tidy_uploadPartCopy {input : UploadPartCopyInput} (hasked : asked i = (cred, .uploadPartCopy input)) :
    Tidy (fs.Whole asked disk) calm (fs.uploadPartCopy input cred) fun _ => True := by
  apply (tidy_of_gives (reads_openUpload fs cred _) (gives_openUpload fs cred _)).bind
  intro u hu
  apply (tidy_of_reads (reads_loadObjectAttributes fs _ _ _)).bind
  intro uploadAttrs _
  apply (tidy_of_gives (reads_location _) (gives_location _)).bind
  rintro ⟨bucket, key⟩ hsource
  apply (tidy_of_gives (reads_getObjectPath fs bucket key) (gives_getObjectPath _ _)).bind
  intro srcPath hpath
  rw [getStorePath_eq, ret_bind]
  apply (tidy_openObject srcPath).bind
  intro file hfile
  apply (tidy_of_reads (reads_metadata _)).bind
  intro stat _
  apply (tidy_of_reads (reads_copySourceInterval _ _)).bind
  rintro ⟨start, contentLength⟩ -
  apply (tidy_of_reads (reads_enableGiven _ _)).bind
  intro hasher _
  refine (tidy_writing fs
    (R := fun _ content => contentOf (sourceStream file start contentLength) = some content)
    (StoreFile.lasting fun _ h => StoreFile.noConfusion h) clear_nil ?_ ?_).bind ?_
  · intro n
    exact (follows_copyBytes n [] _).mono (fun bytes _ h => ⟨bytes, h.1, h.2⟩) fun _ _ h => h
  · intro _ content hcontent
    cases file with
    | dir => cases hcontent
    | file source m =>
      have hpart : (source.drop start).take contentLength = content := by
        simpa [sourceStream, readFrom, contentOf] using hcontent
      rw [← hpart]
      exact .partCopied hasked hu hsource hpath (hfile source m rfl)
  · intro content _
    apply (tidy_of_reads (reads_checkExpected _ _ _)).bind
    intro _ _
    exact (tidy_saveUploadPartInfo fs _ _ _).bind fun _ _ => tidy_pure trivial

/-- The attributes that are read are those of a file that is whole. -/
theorem tidy_loadObjectAttributes {Whole : List Bytes → Bytes → Prop} (bucket key : Bytes) (uploadId : Option Uuid) :
    Tidy Whole calm (fs.loadObjectAttributes bucket key uploadId) fun read =>
      ∀ attrs, read = some attrs → ∃ content,
        Whole [(StoreFile.metadata bucket key uploadId).name] content ∧ fs.readAttributes content = some attrs := by
  simp only [FileSystem.loadObjectAttributes, getStorePath_eq, ret_bind]
  apply (tidy_of_reads (reads_pathExists _)).bind
  intro present _
  cases present with
  | false =>
    refine tidy_pure ?_
    rintro _ ⟨⟩
  | true =>
    refine Tidy.bind (Q := fun content => Whole [(StoreFile.metadata bucket key uploadId).name] content)
      ((follows_read fun _ _ => rfl).mono ?_ fun _ _ h => h) ?_
    · exact fun _ _ h => ⟨h.1, h.2 (StoreFile.lasting fun _ h => StoreFile.noConfusion h)⟩
    · intro content hcontent
      cases hattrs : fs.attributes.fromSlice content with
      | some attrs =>
        refine tidy_pure ?_
        rintro _ ⟨⟩
        exact ⟨content, hcontent, by rw [FileSystem.readAttributes, hattrs]⟩
      | none =>
        cases hold : fs.oldMetadata content with
        | some userMetadata =>
          refine tidy_pure ?_
          rintro _ ⟨⟩
          exact ⟨content, hcontent, by rw [FileSystem.readAttributes, hattrs, hold]; rfl⟩
        | none =>
          refine tidy_pure ?_
          rintro _ ⟨⟩

theorem tidy_completionChecks {Whole : List Bytes → Bytes → Prop} (input : CompleteMultipartUploadInput) :
    Tidy Whole calm (fs.completionChecks input cred) fun x =>
      (∀ attrs, x.2.2.1 = some attrs → ∃ content,
        Whole [(StoreFile.metadata input.bucket input.key (some x.2.1)).name] content ∧
          fs.readAttributes content = some attrs) ∧
      x.1 = listedParts input ∧ fs.parseUuid input.uploadId = some x.2.1 ∧
        fs.pathOf input.bucket input.key = some x.2.2.2.1 := by
  have hattrs : Tidy Whole calm (fs.completionChecks input cred) fun x =>
      ∀ attrs, x.2.2.1 = some attrs → ∃ content,
        Whole [(StoreFile.metadata input.bucket input.key (some x.2.1)).name] content ∧
          fs.readAttributes content = some attrs := by
    apply (tidy_of_reads (only_demand _ _)).bind
    intro multipartUpload _
    apply (tidy_of_reads (only_require _ _)).bind
    intro _ _
    apply (tidy_of_reads (reads_openUpload fs cred _)).bind
    intro u _
    apply (tidy_of_reads (only_require _ _)).bind
    intro _ _
    apply (tidy_loadObjectAttributes fs input.bucket input.key (some u)).bind
    intro uploadAttrs hread
    apply (tidy_of_reads (only_require _ _)).bind
    intro _ _
    apply (tidy_of_reads (reads_getObjectPath fs _ _)).bind
    intro objectPath _
    apply (tidy_of_reads (reads_checkConditions fs _ _ _ _ _)).bind
    intro _ _
    apply (tidy_of_reads (reads_enableGiven _ _)).bind
    exact fun _ _ => tidy_pure hread
  refine (Prog.Follows.and_gives hattrs (gives_completionChecks input cred)).mono ?_ fun _ _ h => h
  rintro x s ⟨⟨hs, hread⟩, ⟨hlisted, -⟩, hu, hpath⟩
  exact ⟨hs, hread, hlisted, hu, hpath⟩

/-- The parts go to the temporary file, each from a file that is whole. -/
theorem follows_appendParts {Whole : List Bytes → Bytes → Prop} (u : Uuid) (total : Int) (n : Nat)
    (parts : List CompletedPart) (cnt : Nat) (content : Bytes) :
    (fs.appendParts u total (draftPath n) cnt parts).Follows (draftProtocol Whole calm) (.opened n content)
      (fun contents s => s = .opened n (content ++ contents.flatten) ∧ contents.length = parts.length ∧
        ∀ (k : Nat) c, contents[k]? = some c →
          Whole [(StoreFile.uploadPart u ((cnt + k : Nat) + 1)).name] c)
      fun _ s => ∃ content, s = .opened n content := by
  induction parts generalizing cnt content with
  | nil => exact ⟨by rw [List.flatten_nil, List.append_nil], rfl, fun k c hc => by simp at hc⟩
  | cons part parts ih =>
    refine Prog.Follows.bind (Q := fun added s => s = .opened n (content ++ added) ∧
      Whole [(StoreFile.uploadPart u ((cnt : Int) + 1)).name] added)
      (E := fun _ s => ∃ content, s = .opened n content) ?_ ?_ fun _ _ h => h
    · apply ((follows_checks (only_demand _ _)).and_gives (gives_demand _ _)).bind ?_ fun _ _ h => h
      rintro partNumber _ ⟨rfl, -⟩
      apply ((follows_checks (only_require _ _)).and_gives (gives_require _ _)).bind ?_ fun _ _ h => h
      rintro _ _ ⟨rfl, hnumber⟩
      obtain rfl : partNumber = (cnt : Int) + 1 := eq_of_beq hnumber
      rw [getStorePath_eq, ret_bind]
      apply (follows_checks (reads_loadInfo fs _)).bind ?_ fun _ _ h => h
      rintro partInfo _ rfl
      apply (follows_checks (reads_storedChecksum _ _)).bind ?_ fun _ _ h => h
      rintro savedChecksum _ rfl
      apply (follows_checks (reads_checkExpected _ _ _)).bind ?_ fun _ _ h => h
      rintro _ _ rfl
      apply (follows_read (E := fun _ s => ∃ content, s = .opened n content) fun _ => ⟨content, rfl⟩).bind ?_
        fun _ _ h => h
      intro (added : Bytes) _ ⟨hs, hadded⟩
      subst hs
      refine Prog.Follows.bind (Q := fun _ s => s = .opened n (content ++ added))
        (E := fun _ s => ∃ content, s = .opened n content) ?_ ?_ fun _ _ h => h
      · exact follows_io ⟨n, content, rfl, rfl⟩ (fun _ _ => rfl) fun _ => ⟨content, rfl⟩
      · rintro _ _ rfl
        apply (follows_checks (only_require _ _)).bind ?_ fun _ _ h => h
        rintro _ _ rfl
        exact ⟨rfl, hadded (StoreFile.lasting fun _ h => StoreFile.noConfusion h)⟩
    · rintro added _ ⟨rfl, hadded⟩
      refine (ih (cnt + 1) (content ++ added)).bind ?_ fun _ _ h => h
      rintro contents _ ⟨rfl, hlength, hcontents⟩
      refine ⟨by rw [List.flatten_cons, List.append_assoc], by rw [List.length_cons, List.length_cons, hlength], ?_⟩
      intro k c hc
      cases k with
      | zero =>
        rw [List.getElem?_cons_zero] at hc
        rwa [← Option.some.inj hc]
      | succ k =>
        rw [List.getElem?_cons_succ] at hc
        have hpart := hcontents k c hc
        rwa [show cnt + 1 + k = cnt + (k + 1) by omega] at hpart

theorem tidy_completeMultipartUpload {input : CompleteMultipartUploadInput}
    (hasked : asked i = (cred, .completeMultipartUpload input)) (hordinary : fs.Ordinary input.bucket input.key) :
    Tidy (fs.Whole asked disk) calm (fs.completeMultipartUpload input cred) fun _ => True := by
  rw [completeMultipartUpload_eq]
  apply (tidy_completionChecks fs input).bind
  rintro ⟨parts, u, attrs, path, hasher⟩ ⟨hattrs, hlisted, hu, hpath⟩
  refine (tidy_writing fs (R := fun _ content => ∃ contents : List Bytes, content = contents.flatten ∧
    contents.length = parts.length ∧ ∀ (k : Nat) c, contents[k]? = some c →
      fs.Whole asked disk [(StoreFile.uploadPart u (k + 1)).name] c)
    (hordinary.lasting hpath) (hordinary.clear hpath).dropLast ?_ ?_).bind ?_
  · intro n
    apply (follows_checks (only_require _ _)).bind ?_ fun _ _ h => h
    rintro _ _ rfl
    apply (follows_appendParts fs u _ n parts 0 []).bind ?_ fun _ _ h => h
    rintro contents _ ⟨rfl, hlength, hcontents⟩
    apply (follows_checks (reads_checkExpected _ _ _)).bind ?_ fun _ _ h => h
    rintro _ _ rfl
    refine ⟨_, rfl, contents, rfl, hlength, fun k c hc => ?_⟩
    have hpart := hcontents k c hc
    rwa [Nat.zero_add] at hpart
  · rintro _ _ ⟨contents, rfl, hlength, hcontents⟩
    refine .completed hasked hu hpath ?_ hcontents
    rw [hlength]
    exact congrArg List.length hlisted
  · rintro ⟨etag, checksum⟩ -
    apply Tidy.bind (Q := fun _ => True)
    · cases attrs with
      | none => exact tidy_pure trivial
      | some attrs =>
        obtain ⟨content, hcontent, hread⟩ := hattrs attrs rfl
        exact tidy_saveFile fs (fun _ h => StoreFile.noConfusion h)
          (.completedAttributes hasked hu hcontent hread)
    intro _ _
    apply (tidy_saveInternalInfo fs _ _ _).bind
    intro _ _
    apply (tidy_of_spares (spares_cleanup fs _ _ _ _)).bind
    exact fun _ _ => tidy_pure trivial

theorem reads_selectRange {φ : Call → Prop} (range : Option Http.Range) (fileLen : Nat) :
    (selectRange range fileLen).Only φ := by
  cases range with
  | none => trivial
  | some range =>
    apply (only_demand _ _).bind
    intro interval
    apply (only_demand _ _).bind
    intro contentLength
    exact (only_demand _ _).bind fun _ => trivial

theorem reads_seekPosition {φ : Call → Prop} (range : Option Http.Range) (fileLen : Nat) :
    (seekPosition range fileLen).Only φ := by
  unfold seekPosition
  split
  · exact (only_require _ _).bind fun _ => trivial
  · exact (only_require _ _).bind fun _ => (only_require _ _).bind fun _ => trivial
  · trivial

theorem gives_seekPosition (range : Option Http.Range) (fileLen : Nat) :
    (seekPosition range fileLen).Gives fun start => range = none → start = 0 := by
  unfold seekPosition
  split
  · apply (Prog.gives_true _).bind
    rintro _ - ⟨⟩
  · apply (Prog.gives_true _).bind
    intro _ _
    apply (Prog.gives_true _).bind
    rintro _ - ⟨⟩
  · exact fun _ => rfl

/-- The body of an object is an interval of something whole. -/
def FileSystem.Sends (fs : FileSystem) (Whole : List Bytes → Bytes → Prop) (bucket key : Bytes)
    (range : Option Http.Range) (output : GetObjectOutput) : Prop :=
  ∃ p, fs.pathOf bucket key = some p ∧ (output.body = .error .isADirectory ∨
    ∃ content start, (Lasting p → Whole p content) ∧ (range = none → start = 0) ∧
      output.body = .ok ((content.drop start).take output.contentLength))

theorem tidy_getObject {Whole : List Bytes → Bytes → Prop} (bucket key : Bytes) (range : Option Http.Range) :
    Tidy Whole calm (fs.getObject bucket key range) (fs.Sends Whole bucket key range) := by
  apply (tidy_of_gives (reads_getObjectPath fs bucket key) (gives_getObjectPath bucket key)).bind
  intro p hp
  apply (tidy_openObject p).bind
  intro file hfile
  apply (tidy_of_reads (reads_metadata _)).bind
  intro stat _
  apply (tidy_of_reads (reads_selectRange range _)).bind
  rintro ⟨contentLength, contentRange⟩ -
  apply (tidy_of_reads (only_require _ _)).bind
  intro _ _
  apply (tidy_of_gives (reads_seekPosition range _) (gives_seekPosition range _)).bind
  intro start hstart
  apply (tidy_of_reads (reads_describe fs bucket key _)).bind
  rintro ⟨attrs, md5Sum, checksum⟩ -
  refine tidy_pure ⟨p, hp, ?_⟩
  cases file with
  | dir => exact Or.inl rfl
  | file content m => exact Or.inr ⟨content, start, hfile content m rfl, hstart, rfl⟩

end Requests

end S3s.Fs
