import S3s.Fs.PartOwnership
import S3s.Fs.Codecs

/-! # The parts of uploads over whole runs

In a run whose requests spare what tells of uploads, every stored part belongs to a recorded upload.
A completion takes away the listed parts only, and no check keeps part numbers above zero, so other
runs leave parts that nothing can be done with.
-/
namespace S3s.Fs
open LexicalPath Programs FileTree Routing

section Runs

variable (fs : FileSystem) {w : World}

/-- What a program keeps, be it at its end or at its failure, the store behind it has. -/
theorem kept_alone {α : Type} {p : Op α} {I : World → Prop}
    (h : p.Meets World.step w (fun _ => I) fun _ => I) (f : α → Response) : I (alone p f w).2 := by
  have hrun : (p >>= fun a => pure (f a)).Meets World.step w (fun _ => I) fun _ => I :=
    h.bind (fun _ _ h => h) fun _ _ h => h
  unfold Prog.Meets at hrun
  show I ((p >>= fun a => pure (f a)).run World.step w).2
  cases hresult : (p >>= fun a => pure (f a)).run World.step w with
  | mk outcome w' =>
    rw [hresult] at hrun
    cases outcome with
    | ok _ => exact hrun
    | error _ => exact hrun

/-- The object of a key is not where something tells of uploads. -/
def FileSystem.Spares (bucket key : Bytes) : Prop := ∀ p, fs.ObjectPath bucket key p → Aside p

theorem FileSystem.Stays.spares {bucket key : Bytes} (hbucket : checkBucketName bucket = true)
    (hstays : fs.Stays bucket key) : fs.Spares bucket key :=
  fun p hp => (objectPath_below fs hbucket hstays p hp).aside

/-- A request that keeps the parts owned: it writes no object over what tells of uploads, numbers its
part between 1 and 10000, lists all that is stored of the upload that it completes, and names the object
of the upload that it completes or aborts. -/
def FileSystem.OwnedStep (w : World) : Asked → Prop
  | (_, .createBucket bucket) => checkBucketName bucket = true
  | (_, .deleteBucket bucket) => checkBucketName bucket = true
  | (_, .putObject input _) => fs.Spares input.bucket input.key
  | (_, .copyObject input) => fs.Spares input.bucket input.key
  | (_, .deleteObject bucket key) => fs.Spares bucket key
  | (_, .deleteObjects bucket objects) => ∀ o ∈ objects, fs.Spares bucket o.key
  | (cred, .uploadPart input _) =>
    ∀ u, fs.parseUuid input.uploadId = some u → fs.Recorded w.disk u cred → 1 ≤ input.partNumber
  | (cred, .uploadPartCopy input) => ∀ u, fs.parseUuid input.uploadId = some u →
      fs.Recorded w.disk u cred → 1 ≤ input.partNumber ∧ input.partNumber ≤ 10000
  | (cred, .completeMultipartUpload input) => fs.Spares input.bucket input.key ∧
      ∀ u, fs.parseUuid input.uploadId = some u → fs.Recorded w.disk u cred →
        Covered w.disk input.bucket input.key u (· ∈ listedNumbers input)
  | (cred, .abortMultipartUpload bucket key uploadId) =>
    ∀ u, fs.parseUuid uploadId = some u → fs.Recorded w.disk u cred → ∀ bucket' key',
      Stored w.disk (.metadata bucket' key' (some u)) → bucket' = bucket ∧ key' = key
  | _ => True

theorem keepsOwned_createBucket {bucket : Bytes} (hbucket : checkBucketName bucket = true)
    (hw : PartsOwned w.disk) : KeepsOwned (fs.createBucket bucket) w := by
  apply keepsOwned_of_within (within_createBucket fs (isName_of_checkBucketName hbucket)) ?_ _ hw
  · rintro p rfl
    exact BelowBucket.aside ⟨bucket, [], hbucket, rfl⟩
  · exact fun _ _ h => h

theorem keepsOwned_deleteBucket {bucket : Bytes} (hbucket : checkBucketName bucket = true)
    (hw : PartsOwned w.disk) : KeepsOwned (fs.deleteBucket bucket) w := by
  have hframe := @meets_frame _ _ _ (fun q => ∃ f, OfUpload f ∧ q = [f.name])
    (within_deleteBucket fs (isName_of_checkBucketName hbucket)) w none (by
      rintro t - q ⟨f, hf, rfl⟩ hq
      exact f.name_ne_bucket hbucket (List.cons_prefix_cons.mp hq).1.symm)
  exact hframe.mono (fun _ _ h => hw.same fun f hf => h _ ⟨f, hf, rfl⟩)
    fun _ _ h => hw.same fun f hf => h _ ⟨f, hf, rfl⟩

/-- One request. -/
theorem partsOwned_next (r : Asked) (hw : PartsOwned w.disk) (hr : fs.OwnedStep w r) :
    PartsOwned (fs.next w r).disk := by
  obtain ⟨cred, r⟩ := r
  have halone {α : Type} {p : Op α} (h : KeepsOwned p w) (f : α → Response) :
      PartsOwned (alone p f w).2.disk := kept_alone (I := fun w' => PartsOwned w'.disk) h f
  cases r with
  | createBucket bucket => exact halone (keepsOwned_createBucket fs hr hw) _
  | deleteBucket bucket => exact halone (keepsOwned_deleteBucket fs hr hw) _
  | headBucket bucket => exact halone (keepsOwned_of_reads (reads_headBucket fs bucket) hw) _
  | getBucketLocation bucket => exact halone (keepsOwned_of_reads (reads_headBucket fs bucket) hw) _
  | listBuckets => exact halone (keepsOwned_of_reads reads_listBuckets hw) _
  | listObjects input => exact hw
  | listObjectsV2 input => exact hw
  | getObject bucket key range =>
    exact halone (keepsOwned_of_reads (reads_getObject fs bucket key range) hw) _
  | headObject bucket key => exact halone (keepsOwned_of_reads (reads_headObject fs bucket key) hw) _
  | putObject input trailers =>
    exact halone (keepsOwned_of_within (within_putObject fs input trailers) hr not_ofUpload_sidecar hw) _
  | copyObject input =>
    exact halone (keepsOwned_of_within (within_copyObject fs input) hr not_ofUpload_sidecar hw) _
  | deleteObject bucket key =>
    exact halone (keepsOwned_of_within (within_deleteObject fs bucket key) hr (fun _ _ h => h) hw) _
  | deleteObjects bucket objects =>
    refine halone (keepsOwned_of_within (within_deleteObjects fs bucket objects) ?_ (fun _ _ h => h) hw) _
    rintro p ⟨o, ho, hp⟩
    exact hr o ho p hp
  | createMultipartUpload input drawn =>
    exact halone (keepsOwned_createMultipartUpload fs input cred drawn hw) _
  | uploadPart input trailers => exact halone (keepsOwned_uploadPart fs input cred trailers hw hr) _
  | uploadPartCopy input => exact halone (keepsOwned_uploadPartCopy fs input cred hw hr) _
  | listParts bucket key uploadId => exact halone (keepsOwned_of_reads (reads_listParts fs uploadId) hw) _
  | completeMultipartUpload input =>
    exact halone (keepsOwned_completeMultipartUpload fs input cred hr.1 hw hr.2) _
  | abortMultipartUpload bucket key uploadId =>
    exact halone (keepsOwned_abortMultipartUpload fs bucket key uploadId cred hw hr) _

/-- Over a run whose requests all spare the uploads, every stored part and what is told of it belongs
to a recorded upload, and its number is between 1 and 10000. -/
theorem partsOwned_of_reaches {start : World} (hstart : PartsOwned start.disk)
    (hw : Reaches fs.next fs.OwnedStep start w) : PartsOwned w.disk :=
  hw.invariant (I := fun w => PartsOwned w.disk) hstart fun _ r h hr => partsOwned_next fs r h hr

theorem partsOwned_empty : PartsOwned World.empty.disk := by
  constructor
  · rintro u n (h | h)
    · exact absurd rfl h
    · exact absurd rfl h
  · exact fun _ _ _ h => absurd rfl h

end Runs

section Samples

instance (disk : Tree Bytes UInt8) (f : StoreFile) : Decidable (Stored disk f) :=
  inferInstanceAs (Decidable ¬_)

/-- What is stored is among the entries. -/
theorem mem_of_stored {disk : Tree Bytes UInt8} {f : StoreFile} (h : Stored disk f) :
    [f.name] ∈ disk.entries.map Prod.fst := by
  obtain ⟨e, he⟩ := Option.ne_none_iff_exists'.mp h
  exact List.mem_map_of_mem ((Tree.get_eq_some (by simp)).mp he)

/-- A store of one user, who keeps objects without attributes. -/
noncomputable def uploadStore : FileSystem :=
  Tables.store ⟨[], [(.default, [2])], [([(ascii "e_tag", some [])], [1])], [(some [97], [3])],
    ⟨by decide, by decide⟩, ⟨by decide, by decide⟩, ⟨by decide, by decide⟩⟩

def sampleId : Uuid := Vector.replicate 16 7

/-- An upload is created. -/
def asksUpload : Asked :=
  (some [97], .createMultipartUpload ⟨ascii "pics", ascii "a", .default, none, none⟩ sampleId)

/-- A part of one byte. -/
def asksPart (n : Int) : Asked :=
  (some [97], .uploadPart
    ⟨ascii "pics", ascii "a", sampleId.text, n, some [.ok [1]], none, fun _ => none, none⟩ none)

/-- The first part alone makes the object. -/
def asksCompletion : Asked :=
  (some [97], .completeMultipartUpload ⟨ascii "pics", ascii "a", sampleId.text,
    some (some [⟨some 1, none, fun _ => none⟩]), none, none, fun _ => none, none⟩)

noncomputable def behind (run : List Asked) : World := run.foldl uploadStore.next World.empty

/-- The files that a part leaves in a store where there was nothing. -/
def sampleFiles : List StoreFile :=
  [.uploadInfo sampleId, .metadata (ascii "pics") (ascii "a") (some sampleId), .uploadPart sampleId 1,
    .uploadPartInfo sampleId 1]

set_option maxRecDepth 100000 in
theorem entries_behind : ∀ q ∈ (behind [asksUpload, asksPart 1]).disk.entries.map Prod.fst,
    q ∈ sampleFiles.map fun f => [f.name] := by
  decide +kernel

theorem mem_sampleFiles {f : StoreFile} (h : Stored (behind [asksUpload, asksPart 1]).disk f) :
    f ∈ sampleFiles := by
  obtain ⟨g, hg, hname⟩ := List.mem_map.mp (entries_behind _ (mem_of_stored h))
  rwa [← StoreFile.name_injective (List.head_eq_of_cons_eq hname)]

theorem covered_behind : Covered (behind [asksUpload, asksPart 1]).disk (ascii "pics") (ascii "a") sampleId
    (· ∈ [1]) := by
  constructor
  · rintro n (h | h)
    · simpa [sampleFiles] using mem_sampleFiles h
    · simpa [sampleFiles] using mem_sampleFiles h
  · intro bucket key h
    simpa [sampleFiles] using mem_sampleFiles h

theorem stays_pics : uploadStore.Stays (ascii "pics") (ascii "a") := by
  apply stays_of_names uploadStore (isName_of_checkBucketName (by decide))
  have hsegments : segments (ascii "a") = [ascii "a"] := by decide
  rw [hsegments]
  intro s hs
  rw [List.mem_singleton.mp hs]
  exact ⟨by decide, by decide, by decide, by decide⟩

theorem spares_pics : uploadStore.Spares (ascii "pics") (ascii "a") :=
  FileSystem.Stays.spares uploadStore (by decide) stays_pics

/-- An upload of one part, which is completed. -/
theorem reaches_completed : Reaches uploadStore.next uploadStore.OwnedStep World.empty
    (behind [asksUpload, asksPart 1, asksCompletion]) := by
  have hcreated : Reaches uploadStore.next uploadStore.OwnedStep World.empty (behind [asksUpload]) :=
    Reaches.start.next trivial
  have hpart : Reaches uploadStore.next uploadStore.OwnedStep World.empty
      (behind [asksUpload, asksPart 1]) :=
    hcreated.next (a := asksPart 1) fun u hu hrecord => le_refl 1
  refine hpart.next (a := asksCompletion) ⟨spares_pics, fun u hu hrecord => ?_⟩
  have hsample : u = sampleId := by
    rw [show _ = sampleId.text from rfl, uploadStore.parseUuid_text] at hu
    exact (Option.some.inj hu).symm
  rw [hsample]
  exact covered_behind

set_option maxRecDepth 100000 in
theorem partsOwned_of_reaches_completed :
    (¬Stored (behind [asksUpload, asksPart 1, asksCompletion]).disk (.uploadInfo sampleId) ∧
      (behind [asksUpload, asksPart 1, asksCompletion]).disk.get [ascii "pics", ascii "a"] ≠ none) ∧
      PartsOwned (behind [asksUpload, asksPart 1, asksCompletion]).disk :=
  ⟨by decide +kernel, partsOwned_of_reaches uploadStore partsOwned_empty reaches_completed⟩

set_option maxRecDepth 100000 in
/-- A part that is not listed stays behind the completion, and there is a part with the number zero. -/
theorem parts_not_owned :
    (Reaches uploadStore.next (fun _ _ => True) World.empty
        (behind [asksUpload, asksPart 1, asksPart 2, asksCompletion]) ∧
      ¬PartsOwned (behind [asksUpload, asksPart 1, asksPart 2, asksCompletion]).disk) ∧
    Reaches uploadStore.next (fun _ _ => True) World.empty (behind [asksUpload, asksPart 0]) ∧
      ¬PartsOwned (behind [asksUpload, asksPart 0]).disk := by
  refine ⟨⟨reaches_foldl _ _ _, fun h => ?_⟩, reaches_foldl _ _ _, fun h => ?_⟩
  · have hleft : Stored (behind [asksUpload, asksPart 1, asksPart 2, asksCompletion]).disk
        (.uploadPart sampleId 2) := by decide +kernel
    have hgone : ¬Stored (behind [asksUpload, asksPart 1, asksPart 2, asksCompletion]).disk
        (.uploadInfo sampleId) := by decide +kernel
    exact hgone (h.part sampleId 2 (Or.inl hleft)).1
  · have hzero : Stored (behind [asksUpload, asksPart 0]).disk (.uploadPart sampleId 0) := by
      decide +kernel
    have hpositive : (1 : Int) ≤ 0 := (h.part sampleId 0 (Or.inl hzero)).2.1
    exact absurd hpositive (by decide)

end Samples

end S3s.Fs
