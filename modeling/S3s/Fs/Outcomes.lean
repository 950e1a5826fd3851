import S3s.Fs.Updates

/-! # What the operations do to an orderly store

An operation that fails changes nothing, apart from one that removes several objects. What it does
when it succeeds is said by the updates of the files that it makes in turn.
-/
namespace S3s.Fs
open LexicalPath Programs FileTree Routing

section Atomic

variable {α β : Type} {w : World} {Q : α → Tree Bytes UInt8 → Prop}

/-- The operation does what is said, or nothing. -/
abbrev Atomic (p : Op α) (w : World) (Q : α → Tree Bytes UInt8 → Prop) : Prop :=
  p.Meets World.step w (fun a w' => Q a w'.disk) fun _ w' => Alike w.disk w'.disk

theorem Atomic.mono {p : Op α} {Q' : α → Tree Bytes UInt8 → Prop} (h : Atomic p w Q)
    (hQ : ∀ a t, Q a t → Q' a t) : Atomic p w Q' :=
  Prog.Meets.mono h (fun a w' => hQ a w'.disk) fun _ _ he => he

/-- Behind a part that only reads, of which something is known. -/
theorem atomic_behind {p : Op β} {next : β → Op α} {R : β → Prop}
    (hp : p.Meets World.step w (fun b w' => w.Same w' ∧ R b) fun _ w' => w.Same w')
    (hnext : ∀ b w', w'.disk = w.disk → R b → Atomic (next b) w' Q) : Atomic (p >>= next) w Q := by
  refine hp.bind ?_ fun _ _ h => alike_of_same h
  rintro b w' ⟨hsame, hb⟩
  refine Prog.Meets.mono (hnext b w' hsame.disk hb) (fun _ _ h => h) fun _ w'' h => ?_
  rwa [hsame.disk] at h

theorem atomic_read {p : Op β} {next : β → Op α} (hp : p.Only Call.Reads)
    (hnext : ∀ b w', w'.disk = w.disk → Atomic (next b) w' Q) : Atomic (p >>= next) w Q :=
  atomic_behind (R := fun _ => True) ((meets_of_reads hp w).mono (fun _ _ h => ⟨h, trivial⟩) fun _ _ h => h)
    fun b w' hw' _ => hnext b w' hw'

theorem atomic_require {b : Bool} {f : Failure} {next : Unit → Op α} (hnext : b = true → Atomic (next ()) w Q) :
    Atomic (require b f >>= next) w Q := by
  rw [Atomic, meets_bind, meets_require]
  cases b with
  | false => exact fun _ => rfl
  | true => exact hnext rfl

theorem atomic_demand {o : Option β} {f : Failure} {next : β → Op α}
    (hnext : ∀ b, o = some b → Atomic (next b) w Q) : Atomic (demand o f >>= next) w Q := by
  cases o with
  | none => exact fun _ => rfl
  | some b => exact hnext b rfl

theorem atomic_pathExists {p : List Bytes} {next : Bool → Op α}
    (hnext : ∀ w', w'.disk = w.disk → Atomic (next (w.disk.get p).isSome) w' Q) :
    Atomic (pathExists p >>= next) w Q :=
  atomic_behind (R := fun b => b = (w.disk.get p).isSome)
    ((meets_pathExists p).mono (fun _ _ h => h) fun _ _ h => h.elim)
    fun _ w' hw' hb => hb ▸ hnext w' hw'

theorem atomic_object (fs : FileSystem) {bucket key : Bytes} {next : List Bytes → Op α}
    (hnext : ∀ p, fs.pathOf bucket key = some p → Atomic (next p) w Q) :
    Atomic (fs.getObjectPath bucket key >>= next) w Q := by
  rw [getObjectPath_eq]
  cases hpath : fs.pathOf bucket key with
  | none => exact fun _ => rfl
  | some p => exact hnext p hpath

theorem atomic_bucket (fs : FileSystem) {bucket : Bytes} (hname : IsName bucket) {next : List Bytes → Op α}
    (hnext : Atomic (next [bucket]) w Q) : Atomic (fs.getBucketPath bucket >>= next) w Q := by
  rw [getBucketPath_eq fs hname]
  exact hnext

theorem atomic_ite {c : Prop} [Decidable c] {p q : Op α} (hp : c → Atomic p w Q) (hq : ¬c → Atomic q w Q) :
    Atomic (if c then p else q) w Q := by
  split
  · next h => exact hp h
  · next h => exact hq h

end Atomic

section Reading

variable (fs : FileSystem) {w : World}

/-- The attributes that a text stands for, be it of the old format. -/
def FileSystem.readAttributes (content : Bytes) : Option ObjectAttributes :=
  match fs.attributes.fromSlice content with
  | some attrs => some attrs
  | none => (fs.oldMetadata content).map fun userMetadata =>
      { ObjectAttributes.default with userMetadata := some userMetadata }

theorem readAttributes_toVec (attrs : ObjectAttributes) :
    fs.readAttributes (fs.attributes.toVec attrs) = some attrs := by
  rw [FileSystem.readAttributes, fs.attributes.fromSlice_toVec]

theorem meets_loadObjectAttributes (bucket key : Bytes) (uploadId : Option Uuid) :
    (fs.loadObjectAttributes bucket key uploadId).Meets World.step w
      (fun a w' => w.Same w' ∧ Reads w.disk (.metadata bucket key uploadId) fs.readAttributes a)
      fun _ w' => w.Same w' := by
  simp only [FileSystem.loadObjectAttributes, getStorePath_eq, ret_bind]
  refine (meets_pathExists _).bind ?_ fun _ _ h => h.elim
  rintro present w₁ ⟨h₁, hpresent⟩
  cases present with
  | false => exact ⟨h₁, Or.inl ⟨by simpa using hpresent.symm, rfl⟩⟩
  | true =>
    refine (meets_read _).bind ?_ fun _ _ h => h₁.trans h.1
    rintro content w₂ ⟨h₂, m, hfile⟩
    rw [h₁.disk] at hfile
    cases hattrs : fs.attributes.fromSlice content with
    | some attrs =>
      exact ⟨h₁.trans h₂, Or.inr ⟨content, m, hfile, by simp only [FileSystem.readAttributes, hattrs]⟩⟩
    | none =>
      cases hold : fs.oldMetadata content with
      | some userMetadata =>
        exact ⟨h₁.trans h₂, Or.inr ⟨content, m, hfile, by
          simp only [FileSystem.readAttributes, hattrs, hold, Option.map_some]⟩⟩
      | none =>
        exact ⟨h₁.trans h₂, Or.inr ⟨content, m, hfile, by
          simp only [FileSystem.readAttributes, hattrs, hold, Option.map_none]⟩⟩

end Reading

section Uploads

variable (fs : FileSystem) {w : World}

theorem atomic_openUpload {α : Type} {Q : α → Tree Bytes UInt8 → Prop} (cred : Option Bytes)
    (uploadId : Bytes) {next : Uuid → Op α} (hnext : ∀ u w', w'.disk = w.disk →
      fs.parseUuid uploadId = some u → fs.Recorded w.disk u cred → Atomic (next u) w' Q) :
    Atomic (fs.openUpload cred uploadId >>= next) w Q :=
  atomic_behind (meets_openUpload fs cred uploadId) fun u w' hw' hu => hnext u w' hw' hu.1 hu.2

/-- A file of the store that is written as a whole, and what comes behind it. -/
theorem meets_save_bind {α : Type} {Q : α → World → Prop} {E : Failure → World → Prop} {f : StoreFile}
    {content : Bytes} {next : Unit → Op α} (hw : Orderly w.disk)
    (hnext : ∀ w', Writes w.disk w'.disk [f.name] content → (next ()).Meets World.step w' Q E) :
    (fs.saveFile f content >>= next).Meets World.step w Q E :=
  (meets_save fs hw f content).bind (fun _ w' h => hnext w' h) fun _ _ h => h.elim

theorem name_ne_temporary {f : StoreFile} (hf : ∀ n, f ≠ .temporary n) (n : Nat) :
    [f.name] ≠ [(StoreFile.temporary n).name] := fun h =>
  hf n (StoreFile.name_injective (List.head_eq_of_cons_eq h))

/-- What `create_multipart_upload` does. -/
def FileSystem.Created (input : CreateMultipartUploadInput) (cred : Option Bytes) (u : Uuid)
    (disk disk' : Tree Bytes UInt8) : Prop :=
  ∃ t, Writes disk t [(StoreFile.uploadInfo u).name] (fs.accessKey.toVec cred) ∧
    Writes t disk' [(StoreFile.metadata input.bucket input.key (some u)).name]
      (fs.attributes.toVec ⟨input.attributes, input.checksumAlgorithm, input.checksumType⟩)

theorem atomic_createMultipartUpload (input : CreateMultipartUploadInput) (cred : Option Bytes) (u : Uuid)
    (hw : Orderly w.disk) : Atomic (fs.createMultipartUpload input cred u) w
      fun a disk => a = u ∧ fs.Created input cred u w.disk disk := by
  refine atomic_read (only_require _ _) fun _ w₁ h₁ => ?_
  rw [← h₁] at hw ⊢
  refine meets_save_bind fs hw fun w₂ h₂ => ?_
  have hw₂ := h₂.orderly hw (name_ne_temporary fun n => StoreFile.noConfusion)
  exact meets_save_bind fs hw₂ fun w₃ h₃ => ⟨rfl, w₂.disk, h₂, h₃⟩

/-- What `upload_part` and `upload_part_copy` do with the content of a part. -/
def FileSystem.PartKept (u : Uuid) (n : Int) (content : Bytes) (output : UploadPartOutput)
    (disk disk' : Tree Bytes UInt8) : Prop :=
  output.etag = .strong (fs.md5Sum content) ∧
    ∃ t, Writes disk t [(StoreFile.uploadPart u n).name] content ∧
      Writes t disk' [(StoreFile.uploadPartInfo u n).name]
        (fs.info.toVec (modifyInternalInfo (saveETag [] (fs.md5Sum content)) output.checksum))

theorem atomic_uploadPart (input : UploadPartInput) (cred : Option Bytes)
    (trailers : Option Http.HeaderMap) (hw : Orderly w.disk) :
    Atomic (fs.uploadPart input cred trailers) w fun output disk => ∃ u content,
      fs.parseUuid input.uploadId = some u ∧ fs.Recorded w.disk u cred ∧ input.partNumber ≤ 10000 ∧
        input.body.bind contentOf = some content ∧ fs.PartKept u input.partNumber content output w.disk disk := by
  refine atomic_require fun hn => ?_
  refine atomic_demand fun stream hbody => ?_
  refine atomic_openUpload fs cred _ fun u w₁ h₁ hparse hrecord => ?_
  refine atomic_read (reads_loadObjectAttributes fs _ _ _) fun attrs w₂ h₂ => ?_
  rw [getStorePath_eq, ret_bind]
  refine atomic_read (reads_enableGiven _ _) fun hasher w₃ h₃ => ?_
  refine atomic_read (reads_enableGiven _ _) fun hasher w₄ h₄ => ?_
  rw [← (h₄.trans (h₃.trans (h₂.trans h₁)))] at hw hrecord ⊢
  refine (meets_write fs hw _ fun _ h => meets_receivePart fs _ _ _ _ h).bind ?_ fun _ _ h => h.2
  rintro ⟨md5Sum, checksum⟩ w₅ ⟨content, ⟨hcontent, hvalue⟩, hplaces⟩
  have hmd5 : md5Sum = fs.md5Sum content := congrArg Prod.fst hvalue
  have hwrites := places_root hplaces
  have hw₅ := hwrites.orderly hw (name_ne_temporary fun n => StoreFile.noConfusion)
  refine meets_save_bind fs hw₅ fun w₆ h₆ => ?_
  have hbody' : input.body.bind contentOf = some content := by rw [hbody, Option.bind_some, hcontent]
  refine ⟨u, content, hparse, hrecord, of_decide_eq_true hn, hbody', by rw [hmd5], w₅.disk, hwrites, ?_⟩
  rwa [← hmd5]

/-- A stream that is copied to a file. -/
theorem meets_copyStream (hw : Orderly w.disk) (dest : List Bytes) (stream : List (Except StreamError Bytes)) :
    Atomic (fs.writing dest fun tmpPath => copyBytes tmpPath stream) w
      fun content disk => contentOf stream = some content ∧ Places w.disk disk dest content := by
  refine Prog.Meets.mono (@meets_write fs w _ _
    (fun content written => contentOf stream = some content ∧ written = content) (fun _ => True) hw dest ?_)
    ?_ fun _ _ h => h.2
  · intro w₁ h
    refine (meets_copyBytes stream h).mono ?_ fun _ _ he => ⟨trivial, he.2⟩
    exact fun content _ h => ⟨content, ⟨h.1, rfl⟩, h.2⟩
  · rintro content w' ⟨_, ⟨hcontent, rfl⟩, hplaces⟩
    exact ⟨hcontent, hplaces⟩

theorem atomic_uploadPartCopy (input : UploadPartCopyInput) (cred : Option Bytes) (hw : Orderly w.disk) :
    Atomic (fs.uploadPartCopy input cred) w fun output disk => ∃ u content,
      fs.parseUuid input.uploadId = some u ∧ fs.Recorded w.disk u cred ∧
        fs.PartKept u input.partNumber content output w.disk disk := by
  refine atomic_openUpload fs cred _ fun u w₁ h₁ hparse hrecord => ?_
  refine atomic_read (reads_loadObjectAttributes fs _ _ _) fun attrs w₂ h₂ => ?_
  refine atomic_read (reads_location _) fun source w₃ h₃ => ?_
  refine atomic_read (reads_getObjectPath fs _ _) fun srcPath w₄ h₄ => ?_
  rw [getStorePath_eq, ret_bind]
  refine atomic_read (reads_openObject srcPath) fun file w₅ h₅ => ?_
  refine atomic_read (reads_metadata _) fun stat w₆ h₆ => ?_
  refine atomic_read (reads_copySourceInterval _ _) fun interval w₇ h₇ => ?_
  refine atomic_read (reads_enableGiven _ _) fun hasher w₈ h₈ => ?_
  have hdisk := h₈.trans (h₇.trans (h₆.trans (h₅.trans (h₄.trans (h₃.trans (h₂.trans h₁))))))
  rw [← hdisk] at hw hrecord ⊢
  refine (meets_copyStream fs hw _ _).bind ?_ fun _ _ h => h
  rintro content w₉ ⟨-, hplaces⟩
  have hwrites := places_root hplaces
  have hw₉ := hwrites.orderly hw (name_ne_temporary fun n => StoreFile.noConfusion)
  have hchecked : checkExpected (fs.finalize hasher content) (fun _ => none) digestMismatch = .ret () := by
    have hnone : checksumMismatch (fs.finalize hasher content) (fun _ => none) = none :=
      List.find?_eq_none.mpr fun a _ h => by simp at h
    rw [checkExpected, hnone]
    rfl
  show Prog.Meets World.step (checkExpected _ _ _ >>= fun _ => fs.saveUploadPartInfo _ _ _ >>= fun _ => pure _)
    w₉ _ _
  rw [hchecked, ret_bind]
  exact meets_save_bind fs hw₉ fun w₁₀ h₁₀ => ⟨u, content, hparse, hrecord, rfl, w₉.disk, hwrites, h₁₀⟩

end Uploads

section Removals

variable (fs : FileSystem) {w : World}

theorem meets_failed_clear (hw : Orderly w.disk) (f : StoreFile) :
    (failed (fs.getStorePath f >>= fun path => removeFileIfExists path)).Meets World.step w
      (fun b w' => b = false ∧ Clears w.disk w'.disk [f.name]) fun _ _ => False := by
  rw [getStorePath_eq, ret_bind]
  refine (meets_failed (meets_remove hw f.isHidden)).mono ?_ fun _ _ h => h
  intro b w' h
  cases b with
  | true =>
    obtain ⟨_, hfalse⟩ := h
    exact hfalse.elim
  | false => exact ⟨rfl, h⟩

/-- The paths of files of the store. -/
def At (files : StoreFile → Prop) (q : List Bytes) : Prop := ∃ f, files f ∧ q = [f.name]

theorem at_name {files : StoreFile → Prop} {f : StoreFile} : At files [f.name] ↔ files f := by
  constructor
  · rintro ⟨g, hg, hname⟩
    rwa [StoreFile.name_injective (List.head_eq_of_cons_eq hname)]
  · exact fun hf => ⟨f, hf, rfl⟩

/-- The parts with these numbers, and their infos. -/
def Numbered (u : Uuid) (ns : List Int) (f : StoreFile) : Prop :=
  ∃ n ∈ ns, f = .uploadPart u n ∨ f = .uploadPartInfo u n

theorem meets_clearParts (u : Uuid) (ns : List Int) (hw : Orderly w.disk) :
    (fs.cleanupParts u ns).Meets World.step w
      (fun b w' => b = false ∧ Wipes (At (Numbered u ns)) w.disk w'.disk) fun _ _ => False := by
  induction ns generalizing w with
  | nil =>
    refine ⟨rfl, (Alike.wipes fun _ => rfl).congr fun q => ?_⟩
    simp [At, Numbered]
  | cons n ns ih =>
    refine (meets_failed_clear fs hw (.uploadPart u n)).bind ?_ fun _ _ h => h
    rintro _ w₁ ⟨rfl, h₁⟩
    have hw₁ := h₁.wipes.orderly hw
    refine (meets_failed_clear fs hw₁ (.uploadPartInfo u n)).bind ?_ fun _ _ h => h
    rintro _ w₂ ⟨rfl, h₂⟩
    refine (ih (h₂.wipes.orderly hw₁)).bind ?_ fun _ _ h => h
    rintro _ w₃ ⟨rfl, h₃⟩
    refine ⟨rfl, ((h₁.wipes.trans h₂.wipes).trans h₃).congr fun q => ?_⟩
    constructor
    · rintro ((rfl | rfl) | ⟨f, ⟨m, hm, hf⟩, rfl⟩)
      · exact at_name.mpr ⟨n, List.mem_cons_self, Or.inl rfl⟩
      · exact at_name.mpr ⟨n, List.mem_cons_self, Or.inr rfl⟩
      · exact at_name.mpr ⟨m, List.mem_cons_of_mem n hm, hf⟩
    · rintro ⟨f, ⟨m, hm, hf⟩, rfl⟩
      rcases List.mem_cons.mp hm with rfl | hm
      · rcases hf with rfl | rfl
        · exact Or.inl (Or.inl rfl)
        · exact Or.inl (Or.inr rfl)
      · exact Or.inr (at_name.mpr ⟨m, hm, hf⟩)

/-- What a completion leaves nothing of: the attributes of the upload, the listed parts, the record. -/
def Leftover (bucket key : Bytes) (u : Uuid) (ns : List Int) (f : StoreFile) : Prop :=
  f = .metadata bucket key (some u) ∨ Numbered u ns f ∨ f = .uploadInfo u

theorem meets_cleanup (bucket key : Bytes) (u : Uuid) (ns : List Int) (hw : Orderly w.disk) :
    (fs.cleanup bucket key u ns).Meets World.step w
      (fun _ w' => Wipes (At (Leftover bucket key u ns)) w.disk w'.disk) fun _ _ => False := by
  refine (meets_failed_clear fs hw (.metadata bucket key (some u))).bind ?_ fun _ _ h => h
  rintro _ w₁ ⟨rfl, h₁⟩
  have hw₁ := h₁.wipes.orderly hw
  refine (meets_clearParts fs u ns hw₁).bind ?_ fun _ _ h => h
  rintro _ w₂ ⟨rfl, h₂⟩
  refine (meets_failed_clear fs (h₂.orderly hw₁) (.uploadInfo u)).bind ?_ fun _ _ h => h
  rintro _ w₃ ⟨-, h₃⟩
  refine ((h₁.wipes.trans h₂).trans h₃.wipes).congr fun q => ?_
  constructor
  · rintro ((rfl | ⟨f, hf, rfl⟩) | rfl)
    · exact at_name.mpr (Or.inl rfl)
    · exact at_name.mpr (Or.inr (Or.inl hf))
    · exact at_name.mpr (Or.inr (Or.inr rfl))
  · rintro ⟨f, rfl | hf | rfl, rfl⟩
    · exact Or.inl (Or.inl rfl)
    · exact Or.inl (Or.inr (at_name.mpr hf))
    · exact Or.inr rfl

theorem meets_clearResidue (u : Uuid) (entries : List (Bytes × Bool)) (hw : Orderly w.disk) :
    (removeResidue u entries).Meets World.step w
      (fun _ w' => Wipes (fun q => ∃ x ∈ entries, isResidue u x.1 = true ∧ q = [x.1]) w.disk w'.disk)
      fun _ _ => False := by
  induction entries generalizing w with
  | nil => exact (Alike.wipes fun _ => rfl).congr fun q => by simp
  | cons entry entries ih =>
    obtain ⟨name, isDir⟩ := entry
    rw [removeResidue]
    by_cases hname : isResidue u name = true
    · rw [if_pos hname]
      refine (meets_remove hw (isHidden_of_isResidue hname)).bind ?_ fun _ _ h => h
      intro _ w₁ h₁
      refine (ih (h₁.wipes.orderly hw)).mono ?_ fun _ _ h => h
      intro _ w₂ h₂
      refine (h₁.wipes.trans h₂).congr fun q => ?_
      simp [hname]
    · rw [if_neg hname]
      refine (ih hw).mono ?_ fun _ _ h => h
      intro _ w₁ h₁
      refine h₁.congr fun q => ?_
      simp [hname]

/-- What is residue and in no listed entry is not there. -/
theorem wipes_residue {t t' : Tree Bytes UInt8} {u : Uuid} {entries : List (Bytes × Bool)}
    (hlists : Lists t [] entries)
    (h : Wipes (fun q => ∃ x ∈ entries, isResidue u x.1 = true ∧ q = [x.1]) t t') :
    Wipes (fun q => ∃ name, isResidue u name = true ∧ q = [name]) t t' := by
  constructor
  · rintro _ ⟨name, hname, rfl⟩
    by_contra hget
    obtain ⟨hnot, hold⟩ := h.get_of_ne_none hget
    rw [← hold] at hget
    obtain ⟨e, he⟩ := Option.ne_none_iff_exists'.mp hget
    exact hnot ⟨_, (hlists name _).mpr ⟨e, he, rfl⟩, hname, rfl⟩
  · intro q hq
    refine h.rest q ?_
    rintro ⟨x, -, hx, rfl⟩
    exact hq ⟨_, hx, rfl⟩

/-- What an abort leaves nothing of. -/
def Remains (bucket key : Bytes) (u : Uuid) (q : List Bytes) : Prop :=
  At (RecordOf bucket key u) q ∨ ∃ name, isResidue u name = true ∧ q = [name]

theorem atomic_abortMultipartUpload (bucket key uploadId : Bytes) (cred : Option Bytes)
    (hw : Orderly w.disk) : Atomic (fs.abortMultipartUpload bucket key uploadId cred) w fun _ disk =>
      ∃ u, fs.parseUuid uploadId = some u ∧ fs.Recorded w.disk u cred ∧
        Wipes (Remains bucket key u) w.disk disk := by
  refine atomic_openUpload fs cred _ fun u w₁ h₁ hparse hrecord => ?_
  rw [← h₁] at hw hrecord ⊢
  have hremove (w : World) (hw : Orderly w.disk) (f : StoreFile) :
      (fs.getStorePath f >>= fun path => removeFileIfExists path).Meets World.step w
        (fun _ w' => Clears w.disk w'.disk [f.name]) fun _ _ => False := by
    rw [getStorePath_eq, ret_bind]
    exact meets_remove hw f.isHidden
  refine (hremove w₁ hw (.metadata bucket key (some u))).bind ?_ fun _ _ h => h.elim
  intro _ w₂ h₂
  have hw₂ := h₂.wipes.orderly hw
  refine (meets_readDir []).bind ?_ fun _ _ h => absurd (Tree.get_nil _) h.2.2
  rintro entries w₃ ⟨h₃, hlists⟩
  have hdisk₃ : w₃.disk = w₂.disk := h₃.disk
  have hw₃ : Orderly w₃.disk := by rwa [hdisk₃]
  refine (meets_clearResidue u entries hw₃).bind ?_ fun _ _ h => h.elim
  intro _ w₄ h₄
  refine (hremove w₄ (h₄.orderly hw₃) (.uploadInfo u)).mono ?_ fun _ _ h => h.elim
  intro _ w₅ h₅
  rw [hdisk₃] at h₄
  refine ⟨u, hparse, hrecord, ?_⟩
  refine ((h₂.wipes.trans (wipes_residue hlists h₄)).trans h₅.wipes).congr fun q => ?_
  constructor
  · rintro ((rfl | hresidue) | rfl)
    · exact Or.inl (at_name.mpr (Or.inr rfl))
    · exact Or.inr hresidue
    · exact Or.inl (at_name.mpr (Or.inl rfl))
  · rintro (⟨f, rfl | rfl, rfl⟩ | hresidue)
    · exact Or.inr rfl
    · exact Or.inl (Or.inl rfl)
    · exact Or.inl (Or.inr hresidue)

end Removals

section Completion

variable (fs : FileSystem) {w : World}

/-- The attributes of an object that is put together are those of the upload, if there are any. -/
def FileSystem.AttributesKept (bucket key : Bytes) (attrs : Option ObjectAttributes)
    (disk disk' : Tree Bytes UInt8) : Prop :=
  match attrs with
  | some attrs => Writes disk disk' [(StoreFile.metadata bucket key none).name] (fs.attributes.toVec attrs)
  | none => Alike disk disk'

/-- What `complete_multipart_upload` does with the listed parts of an upload. -/
structure FileSystem.Completed (input : CompleteMultipartUploadInput) (u : Uuid)
    (output : CompleteMultipartUploadOutput) (disk disk' : Tree Bytes UInt8) : Prop where
  steps : ∃ p contents attrs t₁ t₂ t₃,
    fs.pathOf input.bucket input.key = some p ∧
    StoredParts disk u 0 ((input.multipartUpload.getD none).getD []) contents ∧
    Reads disk (.metadata input.bucket input.key (some u)) fs.readAttributes attrs ∧
    output.etag = .strong (fs.multipartETag contents) ∧
    Places disk t₁ p contents.flatten ∧
    fs.AttributesKept input.bucket input.key attrs t₁ t₂ ∧
    Writes t₂ t₃ [(StoreFile.internalInfo input.bucket input.key).name]
      (fs.info.toVec (modifyInternalInfo (saveETag [] (fs.multipartETag contents)) output.checksum)) ∧
    Wipes (At (Leftover input.bucket input.key u (listedNumbers input))) t₃ disk'

theorem meets_saveUploadAttributes (bucket key : Bytes) (attrs : Option ObjectAttributes)
    (hw : Orderly w.disk) : (fs.saveUploadAttributes bucket key attrs).Meets World.step w
      (fun _ w' => fs.AttributesKept bucket key attrs w.disk w'.disk) fun _ _ => False := by
  cases attrs with
  | none => exact fun _ => rfl
  | some attrs => exact meets_save fs hw _ _

theorem FileSystem.AttributesKept.orderly {bucket key : Bytes} {attrs : Option ObjectAttributes}
    {t t' : Tree Bytes UInt8} (h : fs.AttributesKept bucket key attrs t t') (ht : Orderly t) : Orderly t' := by
  cases attrs with
  | none => exact Alike.orderly h ht
  | some attrs => exact Writes.orderly h ht (name_ne_temporary fun n => StoreFile.noConfusion)

/-- An object of a bucket is below it. -/
theorem objectPath_orderly {bucket key : Bytes} (hbucket : checkBucketName bucket = true)
    (hstays : fs.Stays bucket key) {p : List Bytes} (hp : fs.pathOf bucket key = some p) :
    BelowBucket p ∧ p.length ≠ 1 := by
  obtain ⟨rest, hrest, rfl⟩ := hstays p hp
  exact ⟨⟨bucket, rest, hbucket, rfl⟩, by simpa using hrest⟩

theorem atomic_completeMultipartUpload (input : CompleteMultipartUploadInput) (cred : Option Bytes)
    (hw : Orderly w.disk) (hbucket : checkBucketName input.bucket = true)
    (hstays : fs.Stays input.bucket input.key) :
    Atomic (fs.completeMultipartUpload input cred) w fun output disk =>
      ∃ u, fs.parseUuid input.uploadId = some u ∧ fs.Recorded w.disk u cred ∧
        fs.Completed input u output w.disk disk := by
  refine atomic_demand fun multipartUpload hupload => ?_
  refine atomic_require fun _ => ?_
  refine atomic_openUpload fs cred _ fun u w₁ h₁ hparse hrecord => ?_
  refine atomic_read (only_require _ _) fun _ w₂ h₂ => ?_
  refine atomic_behind (meets_loadObjectAttributes fs _ _ _) fun attrs w₃ h₃ hattrs => ?_
  refine atomic_read (only_require _ _) fun _ w₄ h₄ => ?_
  refine atomic_object fs fun p hp => ?_
  refine atomic_read (reads_checkConditions fs _ _ _ _ _) fun _ w₅ h₅ => ?_
  refine atomic_read (reads_enableGiven _ _) fun hasher w₆ h₆ => ?_
  have hdisk₂ : w₂.disk = w.disk := h₂.trans h₁
  have hdisk : w₆.disk = w.disk := h₆.trans (h₅.trans (h₄.trans (h₃.trans hdisk₂)))
  rw [hdisk₂] at hattrs
  rw [← hdisk] at hw hrecord hattrs ⊢
  refine (meets_write fs hw p fun _ h => meets_assemble fs input u _ hasher h).bind ?_ fun _ _ h => h.2
  rintro ⟨etag, checksum⟩ w₇ ⟨_, ⟨contents, hlisted, rfl, hvalue⟩, hplaces⟩
  obtain ⟨rfl, rfl⟩ := Prod.mk.inj hvalue
  obtain ⟨hbelow, hlength⟩ := objectPath_orderly fs hbucket hstays hp
  have hw₇ := hplaces.orderly hw hbelow hlength
  refine (meets_saveUploadAttributes fs _ _ _ hw₇).bind ?_ fun _ _ h => h.elim
  intro _ w₈ h₈
  have hw₈ := h₈.orderly fs hw₇
  refine meets_save_bind fs hw₈ fun w₉ h₉ => ?_
  have hw₉ := h₉.orderly hw₈ (name_ne_temporary fun n => StoreFile.noConfusion)
  refine (meets_cleanup fs _ _ u _ hw₉).bind ?_ fun _ _ h => h.elim
  intro _ w₁₀ h₁₀
  have hparts : (input.multipartUpload.getD none).getD [] = multipartUpload.getD [] := by
    rw [hupload, Option.getD_some]
  refine ⟨u, hparse, hrecord, ⟨p, contents, attrs, w₇.disk, w₈.disk, w₉.disk, hp, ?_, hattrs, rfl, hplaces,
    h₈, h₉, ?_⟩⟩
  · rw [hparts]
    exact hlisted.stored fs
  · rwa [listedNumbers, hparts]

end Completion

end S3s.Fs
