import S3s.Fs.Steps
import S3s.Fs.PartRuns

/-! # Writes that are rejected

A write is checked before anything is written, and then received in a temporary file, which goes when
the write is rejected. All that is told of by the store stays as it was. Only an object whose key leads to
the temporary file itself goes with it.
-/
namespace S3s.Fs
open LexicalPath Programs FileTree

section Checks

variable (fs : FileSystem)

/-- What `put_object` checks before it receives the body. -/
def FileSystem.putChecks (input : PutObjectInput) :
    Op (List (Except StreamError Bytes) × List Bytes × (ChecksumAlgorithm → Bool)) := do
  require (input.storageClass.all fun c => c == ascii "STANDARD" || c == ascii "REDUCED_REDUNDANCY")
    (bare .invalidStorageClass)
  let stream ← demand input.body (bare .incompleteBody)
  let objectPath ← fs.getObjectPath input.bucket input.key
  fs.checkConditions input.bucket input.key objectPath input.ifNoneMatch input.ifMatch
  let hasher ← enableGiven (enableExpectedChecksums input.checksum) input.checksumAlgorithm
  pure (stream, objectPath, hasher)

/-- What `upload_part` checks before it receives the body. -/
def FileSystem.partChecks (input : UploadPartInput) (cred : Option Bytes) :
    Op (List (Except StreamError Bytes) × Uuid × (ChecksumAlgorithm → Bool)) := do
  require (input.partNumber ≤ 10000)
    (saying .invalidArgument
      (ascii "Part number must be an integer between 1 and 10000, inclusive"))
  let stream ← demand input.body (bare .incompleteBody)
  let uploadId ← fs.openUpload cred input.uploadId
  let uploadAttrs ← fs.loadObjectAttributes input.bucket input.key (some uploadId)
  let hasher ← enableGiven (enableExpectedChecksums input.checksum)
    (uploadAttrs.bind ObjectAttributes.checksumAlgorithm)
  let hasher ← enableGiven hasher input.checksumAlgorithm
  pure (stream, uploadId, hasher)

/-- What `complete_multipart_upload` checks before it puts the parts together. -/
def FileSystem.completionChecks (input : CompleteMultipartUploadInput) (cred : Option Bytes) :
    Op (List CompletedPart × Uuid × Option ObjectAttributes × List Bytes × (ChecksumAlgorithm → Bool)) := do
  let multipartUpload ← demand input.multipartUpload (bare .invalidPart)
  let parts := multipartUpload.getD []
  require (parts ≠ []) (saying .invalidPart (ascii "You must specify at least one part"))
  let uploadId ← fs.openUpload cred input.uploadId
  checkChecksumType input.checksumType
  let uploadAttrs ← fs.loadObjectAttributes input.bucket input.key (some uploadId)
  checkChecksumType (uploadAttrs.bind ObjectAttributes.checksumType)
  let objectPath ← fs.getObjectPath input.bucket input.key
  fs.checkConditions input.bucket input.key objectPath input.ifNoneMatch input.ifMatch
  let hasher ← enableGiven (enableExpectedChecksums input.checksum)
    (uploadAttrs.bind ObjectAttributes.checksumAlgorithm)
  pure (parts, uploadId, uploadAttrs, objectPath, hasher)

theorem putObject_eq (input : PutObjectInput) (trailers : Option Http.HeaderMap) :
    fs.putObject input trailers = (fs.putChecks input >>= fun x =>
      if endsWithSlash input.key then do
        require (input.contentLength.all fun len => len ≤ 0)
          (saying .unexpectedContent (ascii "Unexpected request body when creating a directory object."))
        io (.createDirAll x.2.1)
        pure ⟨none, fun _ => none⟩
      else do
        let (md5Sum, checksum) ← fs.writing x.2.1 (fs.receivePut input trailers x.1 x.2.2)
        fs.saveObjectAttributes input.bucket input.key ⟨input.attributes, none, none⟩ none
        fs.saveInternalInfo input.bucket input.key (modifyInternalInfo (saveETag [] md5Sum) checksum)
        pure ⟨some (.strong md5Sum), checksum⟩) := by
  simp only [FileSystem.putObject, FileSystem.putChecks, bind_bind]
  rfl

theorem uploadPart_eq (input : UploadPartInput) (cred : Option Bytes) (trailers : Option Http.HeaderMap) :
    fs.uploadPart input cred trailers = (fs.partChecks input cred >>= fun x => do
      let (md5Sum, checksum) ← fs.writing [(StoreFile.uploadPart x.2.1 input.partNumber).name]
        (fs.receivePart input.checksum trailers x.1 x.2.2)
      fs.saveUploadPartInfo x.2.1 input.partNumber (modifyInternalInfo (saveETag [] md5Sum) checksum)
      pure ⟨.strong md5Sum, checksum⟩) := by
  simp only [FileSystem.uploadPart, FileSystem.partChecks, bind_bind, getStorePath_eq, ret_bind]
  rfl

theorem completeMultipartUpload_eq (input : CompleteMultipartUploadInput) (cred : Option Bytes) :
    fs.completeMultipartUpload input cred = (fs.completionChecks input cred >>= fun x => do
      let (etag, checksum) ← fs.writing x.2.2.2.1 (fs.assemble input x.2.1 x.1 x.2.2.2.2)
      fs.saveUploadAttributes input.bucket input.key x.2.2.1
      fs.saveInternalInfo input.bucket input.key (modifyInternalInfo (saveETag [] etag) checksum)
      fs.cleanup input.bucket input.key x.2.1 (x.1.filterMap CompletedPart.partNumber)
      pure ⟨input.bucket, input.key, .strong etag, checksum,
        if hasAnyChecksum checksum then some fullObject else none⟩) := by
  simp only [FileSystem.completeMultipartUpload, FileSystem.completionChecks, bind_bind]
  rfl

theorem reads_putChecks (input : PutObjectInput) : (fs.putChecks input).Only Call.Reads := by
  apply (only_require _ _).bind
  intro _
  apply (only_demand _ _).bind
  intro stream
  apply (reads_getObjectPath fs _ _).bind
  intro objectPath
  apply (reads_checkConditions fs _ _ _ _ _).bind
  intro _
  exact (reads_enableGiven _ _).bind fun _ => trivial

theorem reads_partChecks (input : UploadPartInput) (cred : Option Bytes) :
    (fs.partChecks input cred).Only Call.Reads := by
  apply (only_require _ _).bind
  intro _
  apply (only_demand _ _).bind
  intro stream
  apply (reads_openUpload fs _ _).bind
  intro u
  apply (reads_loadObjectAttributes fs _ _ _).bind
  intro attrs
  apply (reads_enableGiven _ _).bind
  intro hasher
  exact (reads_enableGiven _ _).bind fun _ => trivial

theorem reads_completionChecks (input : CompleteMultipartUploadInput) (cred : Option Bytes) :
    (fs.completionChecks input cred).Only Call.Reads := by
  apply (only_demand _ _).bind
  intro multipartUpload
  apply (only_require _ _).bind
  intro _
  apply (reads_openUpload fs _ _).bind
  intro u
  apply (only_require _ _).bind
  intro _
  apply (reads_loadObjectAttributes fs _ _ _).bind
  intro attrs
  apply (only_require _ _).bind
  intro _
  apply (reads_getObjectPath fs _ _).bind
  intro objectPath
  apply (reads_checkConditions fs _ _ _ _ _).bind
  intro _
  exact (reads_enableGiven _ _).bind fun _ => trivial

end Checks

section Rejecting

variable {fs : FileSystem} {w w' : World}

theorem World.Same.discarded {w₁ : World} (h : w.Same w₁) (h' : w₁.Discarded w') : w.Discarded w' := by
  have htmp : w₁.tmpPath = w.tmpPath := by rw [World.tmpPath, h.counter, World.tmpPath]
  refine ⟨by rw [h'.counter, h.counter], by rw [h'.dirStat, h.dirStat], ?_, fun q hq => ?_⟩
  · rw [← htmp, h'.tmp, h.disk]
  · rw [h'.rest q (htmp ▸ hq), h.disk]

/-- A temporary file that is gone again, or a failure of the files themselves. -/
def Undone (w : World) (e : Failure) (w' : World) : Prop := w.Discarded w' ∨ IsIo e

/-- What is written by way of a temporary file, and then described by files of the store. -/
theorem meets_written {α β : Type} {write : List Bytes → Op α} {next : α → Op β} {dest : List Bytes}
    {R : α → Bytes → Prop} {w₁ : World} (h₁ : w.Same w₁) {E : Failure → Prop}
    (hwrite : ∀ w₂, w₁.Open w₂ [] → (write w₁.tmpPath).Meets World.step w₂
      (fun a w₃ => ∃ content, R a content ∧ w₁.Open w₃ content)
      fun _ w₃ => True ∧ ∃ content, w₁.Open w₃ content)
    (hnext : ∀ a content w₂, R a content → (next a).Meets World.step w₂ (fun _ _ => True) fun e _ => E e) :
    (fs.writing dest write >>= next).Meets World.step w₁ (fun _ _ => True)
      fun e w' => w.Discarded w' ∨ E e := by
  refine (@meets_writing w₁ fs _ _ R (fun _ => True) dest hwrite).bind ?_
    fun _ _ h => Or.inl (h₁.discarded h.2)
  rintro a w₂ ⟨content, hR, -⟩
  exact (hnext a content w₂ hR).mono (fun _ _ h => h) fun _ _ h => Or.inr h

/-- Files of the store that are saved fail by the files themselves. -/
theorem meets_save_io {α : Type} {f : StoreFile} {content : Bytes} {next : Unit → Op α} {w₁ : World}
    (hnext : ∀ w₂, (next ()).Meets World.step w₂ (fun _ _ => True) fun e _ => IsIo e) :
    (fs.saveFile f content >>= next).Meets World.step w₁ (fun _ _ => True) fun e _ => IsIo e :=
  (meets_saveFile fs f content).bind (fun _ w₂ _ => hnext w₂) fun _ _ h => h.1.1

/-- Whether the checks before the body are passed, so that the temporary file is made. -/
def FileSystem.Admits (fs : FileSystem) (cred : Option Bytes) (w : World) : Request → Prop
  | .putObject input _ =>
    endsWithSlash input.key = false ∧ ((fs.putChecks input).run World.step w).1.isOk = true
  | .uploadPart input _ => ((fs.partChecks input cred).run World.step w).1.isOk = true
  | .completeMultipartUpload input => ((fs.completionChecks input cred).run World.step w).1.isOk = true
  | _ => False

/-- The object that a write is for. -/
def Request.target : Request → Option (Bytes × Bytes)
  | .putObject input _ => some (input.bucket, input.key)
  | .uploadPart input _ => some (input.bucket, input.key)
  | .completeMultipartUpload input => some (input.bucket, input.key)
  | _ => none

/-- A completion that lists a part which is not stored. -/
def FileSystem.MissesPart (fs : FileSystem) (w : World) : Request → Prop
  | .completeMultipartUpload input => ∃ u n, fs.parseUuid input.uploadId = some u ∧
      n ∈ listedNumbers input ∧ ¬Entry.IsFile (w.disk.get [(StoreFile.uploadPart u n).name])
  | _ => False

/-- A failure that the request brings about: it is none of the files themselves, or a part is missing. -/
def FileSystem.CausedByRequest (fs : FileSystem) (w : World) (r : Request) (e : Failure) : Prop :=
  ¬IsIo e ∨ fs.MissesPart w r

/-- What a rejected write does: nothing where it is not admitted, and else the temporary file goes. -/
def FileSystem.Rejects (fs : FileSystem) (cred : Option Bytes) (w : World) (r : Request) (e : Failure)
    (w' : World) : Prop :=
  ¬fs.Admits cred w r ∧ w.Same w' ∨ fs.Admits cred w r ∧ w.Discarded w' ∨ ¬fs.CausedByRequest w r e

theorem rejects_putObject (cred : Option Bytes) (input : PutObjectInput)
    (trailers : Option Http.HeaderMap) : (fs.putObject input trailers).Meets World.step w
      (fun _ _ => True) fun e w' => fs.Rejects cred w (.putObject input trailers) e w' := by
  have hio {e : Failure} (h : IsIo e) : ¬fs.CausedByRequest w (.putObject input trailers) e := by
    rintro (hnot | hmisses)
    · exact hnot h
    · exact hmisses
  rw [putObject_eq]
  cases hslash : endsWithSlash input.key with
  | true =>
    have hnot : ¬fs.Admits cred w (.putObject input trailers) := by
      rintro ⟨h, -⟩
      rw [hslash] at h
      cases h
    refine (meets_of_reads (reads_putChecks fs input) w).bind ?_ fun _ _ h => Or.inl ⟨hnot, h⟩
    intro x w₁ h₁
    rw [if_pos rfl]
    refine (meets_of_reads (only_require _ _) w₁).bind ?_ fun _ _ h => Or.inl ⟨hnot, h₁.trans h⟩
    intro _ w₂ h₂
    refine (meets_createDirAll _).bind (fun _ _ _ => trivial) ?_
    rintro _ w₃ ⟨-, kind, -, rfl⟩
    exact Or.inr (Or.inr (hio ⟨kind, rfl⟩))
  | false =>
    refine (meets_checked (E := fun e w' => w.Discarded w' ∨ IsIo e)
      (meets_of_reads (reads_putChecks fs input) w) ?_).mono (fun _ _ h => h) ?_
    · rintro ⟨stream, objectPath, hasher⟩ w₁ h₁
      rw [if_neg Bool.false_ne_true]
      refine meets_written h₁ (fun _ h => meets_receivePut fs input trailers stream hasher h) ?_
      rintro ⟨md5Sum, checksum⟩ content w₂ -
      exact meets_save_io fun w₃ => meets_save_io fun w₄ => trivial
    · rintro e w' (⟨hfails, hsame⟩ | ⟨hpasses, hdiscarded | h⟩)
      · refine Or.inl ⟨fun hadmits => ?_, hsame⟩
        rw [hadmits.2] at hfails
        cases hfails
      · exact Or.inr (Or.inl ⟨⟨hslash, hpasses⟩, hdiscarded⟩)
      · exact Or.inr (Or.inr (hio h))

theorem rejects_uploadPart (cred : Option Bytes) (input : UploadPartInput)
    (trailers : Option Http.HeaderMap) : (fs.uploadPart input cred trailers).Meets World.step w
      (fun _ _ => True) fun e w' => fs.Rejects cred w (.uploadPart input trailers) e w' := by
  rw [uploadPart_eq]
  refine (meets_checked (E := fun e w' => w.Discarded w' ∨ IsIo e)
    (meets_of_reads (reads_partChecks fs input cred) w) ?_).mono (fun _ _ h => h) ?_
  · rintro ⟨stream, u, hasher⟩ w₁ h₁
    refine meets_written h₁ (fun _ h => meets_receivePart fs _ trailers stream hasher h) ?_
    rintro ⟨md5Sum, checksum⟩ content w₂ -
    exact meets_save_io fun w₃ => trivial
  · rintro e w' (⟨hfails, hsame⟩ | ⟨hpasses, hdiscarded | h⟩)
    · refine Or.inl ⟨fun hadmits => ?_, hsame⟩
      rw [show ((fs.partChecks input cred).run World.step w).1.isOk = true from hadmits] at hfails
      cases hfails
    · exact Or.inr (Or.inl ⟨hpasses, hdiscarded⟩)
    · refine Or.inr (Or.inr ?_)
      rintro (hnot | hmisses)
      · exact hnot h
      · exact hmisses

/-- The parts that a completion lists. -/
def listedParts (input : CompleteMultipartUploadInput) : List CompletedPart :=
  (input.multipartUpload.getD none).getD []

theorem gives_getObjectPath (bucket key : Bytes) :
    (fs.getObjectPath bucket key).Gives fun p => fs.pathOf bucket key = some p := by
  rw [getObjectPath_eq]
  cases fs.pathOf bucket key with
  | none => trivial
  | some p => rfl

theorem gives_putChecks_path (input : PutObjectInput) :
    (fs.putChecks input).Gives fun x => fs.pathOf input.bucket input.key = some x.2.1 := by
  apply (Prog.gives_true _).bind
  intro _ _
  apply (Prog.gives_true _).bind
  intro stream _
  apply (gives_getObjectPath _ _).bind
  intro objectPath hpath
  apply (Prog.gives_true _).bind
  intro _ _
  exact (Prog.gives_true _).bind fun _ _ => hpath

/-- The parts that a completion goes through are the listed ones, of the upload that it names. -/
theorem gives_completionChecks (input : CompleteMultipartUploadInput) (cred : Option Bytes) :
    (fs.completionChecks input cred).Gives fun x =>
      (x.1 = listedParts input ∧ x.1 ≠ []) ∧ fs.parseUuid input.uploadId = some x.2.1 ∧
        fs.pathOf input.bucket input.key = some x.2.2.2.1 := by
  apply (gives_demand _ _).bind
  intro multipartUpload hupload
  apply (gives_require _ _).bind
  intro _ hsome
  apply (gives_openUpload fs cred _).bind
  intro u hu
  apply (Prog.gives_true _).bind
  intro _ _
  apply (Prog.gives_true _).bind
  intro attrs _
  apply (Prog.gives_true _).bind
  intro _ _
  apply (gives_getObjectPath _ _).bind
  intro objectPath hpath
  apply (Prog.gives_true _).bind
  intro _ _
  apply (Prog.gives_true _).bind
  intro hasher _
  refine ⟨⟨?_, of_decide_eq_true hsome⟩, hu, hpath⟩
  rw [listedParts, hupload, Option.getD_some]

theorem meets_completionChecks (input : CompleteMultipartUploadInput) (cred : Option Bytes) :
    (fs.completionChecks input cred).Meets World.step w
      (fun x w' => w.Same w' ∧ (x.1 = listedParts input ∧ x.1 ≠ []) ∧
        fs.parseUuid input.uploadId = some x.2.1 ∧ fs.pathOf input.bucket input.key = some x.2.2.2.1)
      fun _ w' => w.Same w' :=
  ((meets_of_reads (reads_completionChecks fs input cred) w).and
    ((gives_completionChecks input cred).meets w)).mono (fun _ _ h => h) fun _ _ h => h.1

theorem StoredParts.isFile {disk : Tree Bytes UInt8} {u : Uuid} {cnt : Int} {parts : List CompletedPart}
    {contents : List Bytes} (h : StoredParts disk u cnt parts contents) :
    ∀ n ∈ parts.filterMap CompletedPart.partNumber, Entry.IsFile (disk.get [(StoreFile.uploadPart u n).name]) := by
  induction h with
  | nil cnt => exact fun n hn => absurd hn List.not_mem_nil
  | @cons cnt part parts content contents head _ ih =>
    intro n hn
    rw [List.filterMap_cons_some head.number] at hn
    rcases List.mem_cons.mp hn with rfl | hn
    · obtain ⟨m, hfile⟩ := head.file
      rw [hfile]
      trivial
    · exact ih n hn

theorem failsOnly_failed (step : Op Unit) : (failed step).FailsOnly fun _ => False :=
  Prog.FailsOnly.bind (Prog.failsOnly_attempt step) fun _ => trivial

theorem failsOnly_cleanup (bucket key : Bytes) (u : Uuid) (ns : List Int) :
    (fs.cleanup bucket key u ns).FailsOnly fun _ => False := by
  have hparts : (fs.cleanupParts u ns).FailsOnly fun _ => False := by
    induction ns with
    | nil => trivial
    | cons n ns ih =>
      apply (failsOnly_failed _).bind
      intro first
      apply (failsOnly_failed _).bind
      intro second
      exact ih.bind fun _ => trivial
  apply (failsOnly_failed _).bind
  intro first
  apply hparts.bind
  intro rest
  split
  · trivial
  · exact (failsOnly_failed _).bind fun _ => trivial

theorem rejects_completeMultipartUpload (cred : Option Bytes) (input : CompleteMultipartUploadInput) :
    (fs.completeMultipartUpload input cred).Meets World.step w
      (fun _ _ => True) fun e w' => fs.Rejects cred w (.completeMultipartUpload input) e w' := by
  rw [completeMultipartUpload_eq]
  refine (meets_checked (E := fun e w' => w.Discarded w' ∨
    IsIo e ∧ ¬fs.MissesPart w (.completeMultipartUpload input))
    (meets_completionChecks input cred) ?_).mono (fun _ _ h => h) ?_
  · rintro ⟨parts, u, attrs, objectPath, hasher⟩ w₁ ⟨h₁, ⟨rfl, -⟩, hu, -⟩
    refine meets_written h₁ (fun _ h => meets_assemble fs input u _ hasher h) ?_
    rintro ⟨etag, checksum⟩ content w₂ ⟨contents, hlisted, -⟩
    have hthere : ¬fs.MissesPart w (.completeMultipartUpload input) := by
      rintro ⟨u', n, hu', hn, hmissing⟩
      obtain rfl : u = u' := Option.some.inj (hu.symm.trans hu')
      rw [← h₁.disk] at hmissing
      exact hmissing ((hlisted.stored fs).isFile n hn)
    have hsaved : (fs.saveUploadAttributes input.bucket input.key attrs).Meets World.step w₂
        (fun _ _ => True) fun e _ => IsIo e := by
      cases attrs with
      | none => trivial
      | some attrs => exact (meets_saveFile fs _ _).mono (fun _ _ _ => trivial) fun _ _ h => h.1.1
    refine hsaved.bind ?_ fun _ _ h => ⟨h, hthere⟩
    intro _ w₃ _
    refine (meets_saveFile fs _ _).bind ?_ fun _ _ h => ⟨h.1.1, hthere⟩
    intro _ w₄ _
    exact ((failsOnly_cleanup _ _ u _).meets w₄).bind (fun _ _ _ => trivial) fun _ _ h => h.elim
  · rintro e w' (⟨hfails, hsame⟩ | ⟨hpasses, hdiscarded | ⟨hio, hthere⟩⟩)
    · refine Or.inl ⟨fun hadmits => ?_, hsame⟩
      rw [show ((fs.completionChecks input cred).run World.step w).1.isOk = true from hadmits] at hfails
      cases hfails
    · exact Or.inr (Or.inl ⟨hpasses, hdiscarded⟩)
    · refine Or.inr (Or.inr ?_)
      rintro (hnot | hmisses)
      · exact hnot hio
      · exact hthere hmisses

/-- Everything that the store tells of an object, of uploads and their parts is as it was, and there is no
temporary file that was not there. -/
structure FileSystem.Untouched (fs : FileSystem) (bucket key : Bytes) (disk disk' : Tree Bytes UInt8) :
    Prop where
  object : ∀ p, fs.pathOf bucket key = some p → disk'.get p = disk.get p
  files : ∀ f : StoreFile, (∀ n, f ≠ .temporary n) → disk'.get [f.name] = disk.get [f.name]
  temporary : ∀ n, disk'.get [(StoreFile.temporary n).name] ≠ none →
    disk'.get [(StoreFile.temporary n).name] = disk.get [(StoreFile.temporary n).name]

theorem untouched_of_same {bucket key : Bytes} (h : w.Same w') :
    fs.Untouched bucket key w.disk w'.disk := by
  rw [h.disk]
  exact ⟨fun _ _ => rfl, fun _ _ => rfl, fun _ _ => rfl⟩

theorem untouched_of_discarded {bucket key : Bytes} (h : w.Discarded w') :
    fs.Untouched bucket key w.disk w'.disk ↔
      ¬(fs.pathOf bucket key = some w.tmpPath ∧ Entry.IsFile (w.disk.get w.tmpPath)) := by
  constructor
  · rintro huntouched ⟨hpath, hfile⟩
    have hsame := huntouched.object _ hpath
    cases hget : w.disk.get w.tmpPath with
    | none =>
      rw [hget] at hfile
      exact hfile
    | some e =>
      rw [h.tmp, hget] at hsame
      cases e with
      | dir =>
        rw [hget] at hfile
        exact hfile
      | file content m => simp at hsame
  · intro hnot
    constructor
    · intro p hp
      by_cases htmp : p = w.tmpPath
      · subst htmp
        have hnotFile : ¬Entry.IsFile (w.disk.get w.tmpPath) := fun hfile => hnot ⟨hp, hfile⟩
        rw [h.tmp]
        cases hget : w.disk.get w.tmpPath with
        | none => simp
        | some e =>
          rw [hget] at hnotFile
          cases e with
          | dir => simp
          | file content m => exact absurd trivial hnotFile
      · exact h.rest p htmp
    · intro f hf
      exact h.rest _ fun htmp => hf w.counter (tmpPath_eq_iff.mp htmp)
    · intro n hn
      by_cases htmp : [(StoreFile.temporary n).name] = w.tmpPath
      · rw [htmp, h.tmp] at hn ⊢
        by_cases hdir : w.disk.get w.tmpPath = some .dir
        · rw [if_pos hdir, hdir]
        · rw [if_neg hdir] at hn
          exact absurd rfl hn
      · exact h.rest _ htmp

theorem rejects_of_error {cred : Option Bytes} {r : Request} {bucket key : Bytes}
    (hr : r.target = some (bucket, key)) {e : Failure} (he : (fs.serve cred r w).1 = .error e) :
    fs.Rejects cred w r e (fs.serve cred r w).2 := by
  have halone {α : Type} {p : Op α} {f : α → Response} (h : p.Meets World.step w (fun _ _ => True)
      fun e w' => fs.Rejects cred w r e w') : ∀ e, (alone p f w).1 = .error e →
        fs.Rejects cred w r e (alone p f w).2 :=
    alone_of_meets (D := fun x w' => ∀ e, x = .error e → fs.Rejects cred w r e w')
      (h.mono (fun _ _ _ _ h => by cases h) fun e w' h e' he => by
        obtain rfl := Except.error.inj he
        exact h)
  cases r with
  | putObject input trailers => exact halone (rejects_putObject cred input trailers) e he
  | uploadPart input trailers => exact halone (rejects_uploadPart cred input trailers) e he
  | completeMultipartUpload input => exact halone (rejects_completeMultipartUpload cred input) e he
  | _ => cases hr

/-- A write that is rejected because of the request leaves everything as it was, unless the object is the
temporary file that it is received in. -/
theorem rejected_untouched_iff {cred : Option Bytes} {r : Request} {bucket key : Bytes}
    (hr : r.target = some (bucket, key)) {e : Failure} (he : (fs.serve cred r w).1 = .error e)
    (hcause : fs.CausedByRequest w r e) :
    fs.Untouched bucket key w.disk (fs.serve cred r w).2.disk ↔
      ¬(fs.pathOf bucket key = some w.tmpPath ∧ Entry.IsFile (w.disk.get w.tmpPath) ∧
        fs.Admits cred w r) := by
  rcases rejects_of_error hr he with ⟨hnot, hsame⟩ | ⟨hadmits, hdiscarded⟩ | hnot
  · exact iff_of_true (untouched_of_same hsame) fun h => hnot h.2.2
  · rw [untouched_of_discarded hdiscarded]
    constructor
    · exact fun h h' => h ⟨h'.1, h'.2.1⟩
    · exact fun h h' => h ⟨h'.1, h'.2, hadmits⟩
  · exact absurd hcause hnot

end Rejecting

section Samples

/-- An object that breaks off after its first byte. -/
def asksBroken (key : Bytes) : Asked :=
  (none, .putObject ⟨ascii "pics", key, some [.ok [1], .error .other], none, none, none, .default, none, none,
    fun _ => none, none⟩ none)

/-- An object of one byte. -/
def asksWhole (key : Bytes) : Asked :=
  (none, .putObject ⟨ascii "pics", key, some [.ok [1]], none, none, none, .default, none, none,
    fun _ => none, none⟩ none)

/-- The failure that a request ends with. -/
def failureOf {α : Type} : Except Failure α → Option Failure
  | .error e => some e
  | .ok _ => none

theorem eq_error_of_failureOf {α : Type} {x : Except Failure α} {e : Failure}
    (h : failureOf x = some e) : x = .error e := by
  cases x with
  | error e' =>
    rw [Option.some.inj h]
  | ok a => cases h

theorem not_isIo_stream (e : StreamError) : ¬IsIo (internal (.stream e)) := by
  rintro ⟨kind, h⟩
  simp [internal] at h

set_option maxRecDepth 100000 in
theorem rejected_untouched_iff_broken :
    uploadStore.Untouched (ascii "pics") (ascii "a") (behind [asksWhole (ascii "a")]).disk
        (uploadStore.serve none (asksBroken (ascii "a")).2 (behind [asksWhole (ascii "a")])).2.disk ↔
      ¬(uploadStore.pathOf (ascii "pics") (ascii "a") = some (behind [asksWhole (ascii "a")]).tmpPath ∧
        Entry.IsFile ((behind [asksWhole (ascii "a")]).disk.get (behind [asksWhole (ascii "a")]).tmpPath) ∧
        uploadStore.Admits none (behind [asksWhole (ascii "a")]) (asksBroken (ascii "a")).2) :=
  rejected_untouched_iff rfl
    (eq_error_of_failureOf (show _ = some (internal (.stream .other)) by decide +kernel))
    (Or.inl (not_isIo_stream _))

/-- The place of the temporary file of the fourth write. -/
def keyAside : Bytes := ascii "../.tmp.3.internal.part"

set_option maxRecDepth 100000 in
/-- An object whose key leads to the temporary file of a later write goes when that write is rejected. -/
theorem rejected_write_removes : Routing.checkKey keyAside = true ∧
    (uploadStore.serve none (asksBroken keyAside).2 (behind [asksWhole keyAside])).1 =
      .error (internal (.stream .other)) ∧
    ¬IsIo (internal (.stream .other)) ∧
    uploadStore.pathOf (ascii "pics") keyAside = some [ascii ".tmp.3.internal.part"] ∧
    (behind [asksWhole keyAside]).disk.get [ascii ".tmp.3.internal.part"] = some (.file [1] 0) ∧
    (uploadStore.serve none (asksBroken keyAside).2 (behind [asksWhole keyAside])).2.disk.get
      [ascii ".tmp.3.internal.part"] = none := by
  refine ⟨?_, eq_error_of_failureOf ?_, not_isIo_stream _, ?_, ?_, ?_⟩
  all_goals decide +kernel

end Samples

end S3s.Fs
