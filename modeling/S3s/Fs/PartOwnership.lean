import S3s.Fs.Receiving

/-! # Whose parts are stored

A stored part belongs to an upload that is recorded, and so do its info and the attributes of an
upload. They come to be behind the record, and go before it.
-/
namespace S3s.Fs
open LexicalPath Programs FileTree Routing

/-- Something is stored in a file of the store. -/
def Stored (disk : Tree Bytes UInt8) (f : StoreFile) : Prop := disk.get [f.name] ≠ none

/-- Every stored part, part info and set of attributes belongs to a recorded upload, and the numbers
of the parts are those that there are. -/
structure PartsOwned (disk : Tree Bytes UInt8) : Prop where
  part : ∀ u n, Stored disk (.uploadPart u n) ∨ Stored disk (.uploadPartInfo u n) →
    Stored disk (.uploadInfo u) ∧ 1 ≤ n ∧ n ≤ 10000
  attributes : ∀ bucket key u, Stored disk (.metadata bucket key (some u)) → Stored disk (.uploadInfo u)

/-- The files that tell of uploads. -/
def OfUpload : StoreFile → Prop
  | .metadata _ _ (some _) => True
  | .uploadPart _ _ => True
  | .uploadPartInfo _ _ => True
  | .uploadInfo _ => True
  | _ => False

section Keeps

variable {w w' : World}

/-- Nothing changes in the files of uploads. -/
def SameUploads (disk disk' : Tree Bytes UInt8) : Prop :=
  ∀ f, OfUpload f → disk'.get [f.name] = disk.get [f.name]

theorem SameUploads.stored {disk disk' : Tree Bytes UInt8} (h : SameUploads disk disk') {f : StoreFile}
    (hf : OfUpload f) : Stored disk' f ↔ Stored disk f := by
  rw [Stored, Stored, h f hf]

theorem PartsOwned.same {disk disk' : Tree Bytes UInt8} (h : PartsOwned disk)
    (hsame : SameUploads disk disk') : PartsOwned disk' := by
  constructor
  · intro u n hstored
    rw [hsame.stored (f := .uploadPart u n) trivial, hsame.stored (f := .uploadPartInfo u n) trivial]
      at hstored
    rw [hsame.stored (f := .uploadInfo u) trivial]
    exact h.part u n hstored
  · intro bucket key u hstored
    rw [hsame.stored (f := .metadata bucket key (some u)) trivial] at hstored
    rw [hsame.stored (f := .uploadInfo u) trivial]
    exact h.attributes bucket key u hstored

theorem sameUploads_of_same (h : w.Same w') : SameUploads w.disk w'.disk := by
  intro f _
  rw [h.disk]

theorem sameUploads_trans {disk disk' disk'' : Tree Bytes UInt8} (h : SameUploads disk disk')
    (h' : SameUploads disk' disk'') : SameUploads disk disk'' :=
  fun f hf => (h' f hf).trans (h f hf)

theorem tmpPath_eq_iff {f : StoreFile} : [f.name] = w.tmpPath ↔ f = .temporary w.counter := by
  constructor
  · intro h
    exact StoreFile.name_injective (List.head_eq_of_cons_eq h)
  · rintro rfl
    rfl

theorem ne_tmpPath {f : StoreFile} (hf : OfUpload f) : [f.name] ≠ w.tmpPath := by
  rw [Ne, tmpPath_eq_iff]
  rintro rfl
  exact hf

theorem sameUploads_of_discarded (h : w.Discarded w') : SameUploads w.disk w'.disk :=
  fun _ hf => h.rest _ (ne_tmpPath hf)

theorem saved_get_self {f : StoreFile} {content : Bytes} (h : w.Saved w' f content) :
    ∃ m, w'.disk.get [f.name] = some (.file content m) := by
  obtain ⟨m, hget⟩ := h.get
  exact ⟨m, by rw [hget, if_pos rfl]⟩

theorem saved_get_of_ne {f g : StoreFile} {content : Bytes} (h : w.Saved w' f content)
    (hg : OfUpload g) (hne : g ≠ f) : w'.disk.get [g.name] = w.disk.get [g.name] := by
  obtain ⟨m, hget⟩ := h.get
  have hname : [g.name] ≠ [f.name] := fun heq =>
    hne (StoreFile.name_injective (List.head_eq_of_cons_eq heq))
  rw [hget, if_neg hname, if_neg (ne_tmpPath hg)]

theorem saved_stored {f : StoreFile} {content : Bytes} (h : w.Saved w' f content) (g : StoreFile)
    (hg : OfUpload g) : Stored w'.disk g ↔ g = f ∨ Stored w.disk g := by
  by_cases hname : g = f
  · subst hname
    obtain ⟨m, hget⟩ := saved_get_self h
    simp [Stored, hget]
  · rw [Stored, saved_get_of_ne h hg hname]
    simp [hname, Stored]

/-- What a saved file needs. -/
def Backed (disk : Tree Bytes UInt8) : StoreFile → Prop
  | .metadata _ _ (some u) => Stored disk (.uploadInfo u)
  | .uploadPart u n => Stored disk (.uploadInfo u) ∧ 1 ≤ n ∧ n ≤ 10000
  | .uploadPartInfo u n => Stored disk (.uploadInfo u) ∧ 1 ≤ n ∧ n ≤ 10000
  | _ => True

theorem PartsOwned.saved (hw : PartsOwned w.disk) {f : StoreFile} {content : Bytes}
    (h : w.Saved w' f content) (hf : Backed w.disk f) : PartsOwned w'.disk := by
  have hrecord (u : Uuid) (hu : Stored w.disk (.uploadInfo u)) : Stored w'.disk (.uploadInfo u) :=
    (saved_stored h (.uploadInfo u) trivial).mpr (Or.inr hu)
  constructor
  · intro u n hstored
    rw [saved_stored h (.uploadPart u n) trivial, saved_stored h (.uploadPartInfo u n) trivial] at hstored
    rcases hstored with (rfl | hold) | (rfl | hold)
    · exact ⟨hrecord u hf.1, hf.2⟩
    · obtain ⟨hu, hn⟩ := hw.part u n (Or.inl hold)
      exact ⟨hrecord u hu, hn⟩
    · exact ⟨hrecord u hf.1, hf.2⟩
    · obtain ⟨hu, hn⟩ := hw.part u n (Or.inr hold)
      exact ⟨hrecord u hu, hn⟩
  · intro bucket key u hstored
    rcases (saved_stored h (.metadata bucket key (some u)) trivial).mp hstored with rfl | hold
    · exact hrecord u hf
    · exact hrecord u (hw.attributes bucket key u hold)

theorem placed_saved {f : StoreFile} {content : Bytes} (h : w.Placed w' [f.name] content) :
    w.Saved w' f content := by
  obtain ⟨m, hget⟩ := h.get
  refine ⟨h.counter, h.dirStat, m, fun q => ?_⟩
  rw [hget]
  by_cases hroot : q = []
  · subst hroot
    simp
  · simp [hroot]

end Keeps

section Frames

variable (fs : FileSystem) {w : World}

/-- Paths strictly below a bucket. -/
def BelowBucket (p : List Bytes) : Prop :=
  ∃ bucket rest, checkBucketName bucket = true ∧ p = bucket :: rest

/-- Paths that do not begin with the name of a file that tells of uploads. -/
def Aside (p : List Bytes) : Prop := ∀ f, OfUpload f → p.head? ≠ some f.name

theorem BelowBucket.aside {p : List Bytes} (h : BelowBucket p) : Aside p := by
  obtain ⟨bucket, rest, hbucket, rfl⟩ := h
  intro f _ hhead
  exact f.name_ne_bucket hbucket (Option.some.inj hhead).symm

theorem not_area_of_upload {paths : List Bytes → Prop} {files : StoreFile → Prop}
    (hpaths : ∀ p, paths p → Aside p) {f : StoreFile} (hf : OfUpload f) (hfiles : ¬files f)
    (t : Tree Bytes UInt8) : ¬Area paths files t [f.name] := by
  rintro (⟨p, hp, hq⟩ | ⟨g, hg, hq⟩)
  · apply hpaths p hp f hf
    rcases hq with rfl | ⟨⟨rest, rfl⟩, -⟩
    · rfl
    · rfl
  · obtain rfl : f = g := StoreFile.name_injective (List.head_eq_of_cons_eq hq)
    rcases hg with hg | ⟨n, rfl⟩
    · exact hfiles hg
    · exact hf

/-- A program that writes nothing of uploads. -/
theorem meets_sameUploads {α : Type} {p : Op α} {paths : List Bytes → Prop} {files : StoreFile → Prop}
    (hp : p.Only (Call.Within (Area paths files))) (hpaths : ∀ p, paths p → Aside p)
    (hfiles : ∀ f, OfUpload f → ¬files f) :
    p.Meets World.step w (fun _ w' => SameUploads w.disk w'.disk)
      fun _ w' => SameUploads w.disk w'.disk := by
  have hframe := @meets_frame _ _ p (fun q => ∃ f, OfUpload f ∧ q = [f.name]) hp w none (by
    rintro t - q ⟨f, hf, rfl⟩
    exact not_area_of_upload hpaths hf (hfiles f hf) t)
  exact hframe.mono (fun _ w' h f hf => h _ ⟨f, hf, rfl⟩) fun _ w' h f hf => h _ ⟨f, hf, rfl⟩

theorem not_ofUpload_sidecar {bucket key : Bytes} (f : StoreFile) (hf : OfUpload f) :
    ¬Sidecar bucket key f := by
  rintro (rfl | rfl) <;> exact hf

end Frames

section Recorded

variable (fs : FileSystem) {w : World}

theorem meets_verifyUploadId (cred : Option Bytes) (u : Uuid) :
    (fs.verifyUploadId cred u).Meets World.step w
      (fun ok w' => w.Same w' ∧ (ok = true → ∃ c m,
        w.disk.get [(StoreFile.uploadInfo u).name] = some (.file c m) ∧
          fs.accessKey.fromSlice c = some cred))
      fun _ w' => w.Same w' := by
  rw [FileSystem.verifyUploadId, getStorePath_eq]
  refine (meets_pathExists _).bind ?_ fun _ _ he => he.elim
  rintro present w₁ ⟨h₁, -⟩
  cases present with
  | false => exact ⟨h₁, fun h => by cases h⟩
  | true =>
    refine (meets_read _).bind ?_ fun _ _ he => h₁.trans he.1
    rintro c w₂ ⟨h₂, m, hfile⟩
    refine meets_demand.bind ?_ ?_
    · rintro ak _ ⟨rfl, hak⟩
      refine ⟨h₁.trans h₂, fun hok => ⟨c, m, ?_, ?_⟩⟩
      · rwa [h₁.disk] at hfile
      · rw [hak, beq_iff_eq.mp hok]
    · rintro _ _ ⟨rfl, -⟩
      exact h₁.trans h₂

/-- The record of an upload names an identity. -/
def FileSystem.Recorded (disk : Tree Bytes UInt8) (u : Uuid) (cred : Option Bytes) : Prop :=
  ∃ content m, disk.get [(StoreFile.uploadInfo u).name] = some (.file content m) ∧
    fs.accessKey.fromSlice content = some cred

theorem FileSystem.Recorded.stored {fs : FileSystem} {disk : Tree Bytes UInt8} {u : Uuid}
    {cred : Option Bytes} (h : fs.Recorded disk u cred) : Stored disk (.uploadInfo u) := by
  obtain ⟨content, m, hfile, -⟩ := h
  simp [Stored, hfile]

/-- An upload is opened by the identity that its record names. -/
theorem meets_openUpload (cred : Option Bytes) (uploadId : Bytes) :
    (fs.openUpload cred uploadId).Meets World.step w
      (fun u w' => w.Same w' ∧ fs.parseUuid uploadId = some u ∧ ∃ c m,
        w.disk.get [(StoreFile.uploadInfo u).name] = some (.file c m) ∧
          fs.accessKey.fromSlice c = some cred)
      fun _ w' => w.Same w' := by
  refine meets_demand.bind ?_ ?_
  · rintro u _ ⟨rfl, hparse⟩
    refine (meets_verifyUploadId fs cred u).bind ?_ fun _ _ he => he
    rintro ok w₁ ⟨h₁, hok⟩
    rw [meets_bind, meets_require]
    cases ok with
    | false => exact h₁
    | true => exact ⟨h₁, hparse, hok rfl⟩
  · rintro _ _ ⟨rfl, -⟩
    exact World.Same.refl _

end Recorded

section Steps

variable (fs : FileSystem) {w : World}

/-- The program keeps the ownership of parts. -/
abbrev KeepsOwned {α : Type} (p : Op α) (w : World) : Prop :=
  p.Meets World.step w (fun _ w' => PartsOwned w'.disk) fun _ w' => PartsOwned w'.disk

theorem keepsOwned_of_reads {α : Type} {p : Op α} (hp : p.Only Call.Reads) (hw : PartsOwned w.disk) :
    KeepsOwned p w :=
  (meets_of_reads hp w).mono (fun _ _ h => hw.same (sameUploads_of_same h))
    fun _ _ h => hw.same (sameUploads_of_same h)

theorem keepsOwned_of_within {α : Type} {p : Op α} {paths : List Bytes → Prop}
    {files : StoreFile → Prop} (hp : p.Only (Call.Within (Area paths files)))
    (hpaths : ∀ p, paths p → Aside p) (hfiles : ∀ f, OfUpload f → ¬files f)
    (hw : PartsOwned w.disk) : KeepsOwned p w :=
  (meets_sameUploads hp hpaths hfiles).mono (fun _ _ h => hw.same h) fun _ _ h => hw.same h

theorem meets_saveOwned (f : StoreFile) (content : Bytes) (hw : PartsOwned w.disk)
    (hf : Backed w.disk f) : KeepsOwned (fs.saveFile f content) w :=
  (meets_saveFile fs f content).mono (fun _ _ h => hw.saved h hf)
    fun _ _ h => hw.same (sameUploads_of_discarded h.2)

theorem keepsOwned_createMultipartUpload (input : CreateMultipartUploadInput) (cred : Option Bytes)
    (u : Uuid) (hw : PartsOwned w.disk) : KeepsOwned (fs.createMultipartUpload input cred u) w := by
  refine (meets_of_reads (only_require _ _) w).bind ?_
    fun _ _ h => hw.same (sameUploads_of_same h)
  intro _ w₁ h₁
  have hw₁ := hw.same (sameUploads_of_same h₁)
  refine (meets_saveFile fs _ _).bind ?_ fun _ _ h => hw₁.same (sameUploads_of_discarded h.2)
  intro _ w₂ h₂
  have hw₂ := hw₁.saved h₂ trivial
  have hrecord : Stored w₂.disk (.uploadInfo u) :=
    (saved_stored h₂ (.uploadInfo u) trivial).mpr (Or.inl rfl)
  exact (meets_saveOwned fs (.metadata input.bucket input.key (some u)) _ hw₂ hrecord).bind
    (fun _ _ h => h) fun _ _ h => h

/-- Behind a part that only reads. -/
theorem keepsOwned_read {α β : Type} {p : Op α} (hp : p.Only Call.Reads) {next : α → Op β}
    (hw : PartsOwned w.disk) {w₁ : World} (h₁ : w.Same w₁)
    (hnext : ∀ a w₂, w.Same w₂ → KeepsOwned (next a) w₂) : KeepsOwned (p >>= next) w₁ :=
  (meets_of_reads hp w₁).bind (fun a w₂ h₂ => hnext a w₂ (h₁.trans h₂))
    fun _ _ h₂ => hw.same (sameUploads_of_same (h₁.trans h₂))

/-- Behind the check of the record. -/
theorem keepsOwned_open {β : Type} (cred : Option Bytes) (uploadId : Bytes) {next : Uuid → Op β}
    (hw : PartsOwned w.disk) {w₁ : World} (h₁ : w.Same w₁)
    (hnext : ∀ u w₂, w.Same w₂ → fs.parseUuid uploadId = some u → fs.Recorded w.disk u cred →
      KeepsOwned (next u) w₂) : KeepsOwned (fs.openUpload cred uploadId >>= next) w₁ := by
  refine (meets_openUpload fs cred uploadId).bind ?_
    fun _ _ h₂ => hw.same (sameUploads_of_same (h₁.trans h₂))
  rintro u w₂ ⟨h₂, hparse, c, m, hfile, hkey⟩
  rw [h₁.disk] at hfile
  exact hnext u w₂ (h₁.trans h₂) hparse ⟨c, m, hfile, hkey⟩

/-- The file of a part and then its info. -/
theorem keepsOwned_storePart {α β : Type} {write : List Bytes → Op α} {next : α → Op β}
    {R : α → Bytes → Prop} (f : StoreFile) (hw : PartsOwned w.disk) (hf : Backed w.disk f)
    (hwrite : ∀ w₁, w.Open w₁ [] → (write w.tmpPath).Meets World.step w₁
      (fun a w₂ => ∃ content, R a content ∧ w.Open w₂ content)
      fun _ w₂ => True ∧ ∃ content, w.Open w₂ content)
    (hnext : ∀ a w' content, w.Saved w' f content → PartsOwned w'.disk → KeepsOwned (next a) w') :
    KeepsOwned (fs.writing [f.name] write >>= next) w := by
  refine (@meets_writing w fs _ _ R (fun _ => True) _ hwrite).bind ?_
    fun _ _ h => hw.same (sameUploads_of_discarded h.2)
  rintro a w' ⟨content, -, hplaced⟩
  have hsaved := placed_saved hplaced
  exact hnext a w' content hsaved (hw.saved hsaved hf)

/-- The info behind the file of a part. -/
theorem keepsOwned_savePartInfo {β : Type} {u : Uuid} {n : Int} {w' : World} {content : Bytes}
    (hsaved : w.Saved w' (.uploadPart u n) content) (hw' : PartsOwned w'.disk)
    (hbacked : Backed w.disk (.uploadPart u n)) (info : InternalInfo) (b : β) :
    KeepsOwned (fs.saveUploadPartInfo u n info >>= fun _ => pure b) w' := by
  have hbacked' : Backed w'.disk (.uploadPartInfo u n) :=
    ⟨(saved_stored hsaved (.uploadInfo u) trivial).mpr (Or.inr hbacked.1), hbacked.2⟩
  exact (meets_saveOwned fs _ _ hw' hbacked').bind (fun _ _ h => h) fun _ _ h => h

theorem keepsOwned_uploadPart (input : UploadPartInput) (cred : Option Bytes)
    (trailers : Option Http.HeaderMap) (hw : PartsOwned w.disk)
    (hn : ∀ u, fs.parseUuid input.uploadId = some u → fs.Recorded w.disk u cred → 1 ≤ input.partNumber) :
    KeepsOwned (fs.uploadPart input cred trailers) w := by
  rw [FileSystem.uploadPart, KeepsOwned, meets_bind, meets_require]
  by_cases hmax : input.partNumber ≤ 10000
  · rw [if_pos (decide_eq_true hmax)]
    refine keepsOwned_read (only_demand _ _) hw (.refl w) fun stream w₁ h₁ => ?_
    refine keepsOwned_open fs cred _ hw h₁ fun u w₂ h₂ hparse hrecord => ?_
    refine keepsOwned_read (reads_loadObjectAttributes fs _ _ _) hw h₂ fun attrs w₃ h₃ => ?_
    rw [getStorePath_eq]
    refine keepsOwned_read (reads_enableGiven _ _) hw h₃ fun hasher w₄ h₄ => ?_
    refine keepsOwned_read (reads_enableGiven _ _) hw h₄ fun hasher w₅ h₅ => ?_
    have hbacked : Backed w₅.disk (.uploadPart u input.partNumber) := by
      refine ⟨?_, hn u hparse hrecord, hmax⟩
      rw [h₅.disk]
      exact hrecord.stored
    refine keepsOwned_storePart fs _ (hw.same (sameUploads_of_same h₅)) hbacked
      (fun _ h => meets_receivePart fs _ _ _ _ h) ?_
    rintro ⟨md5Sum, checksum⟩ w₆ content hsaved hw₆
    exact keepsOwned_savePartInfo fs hsaved hw₆ hbacked _ _
  · rw [if_neg (by simpa using hmax)]
    exact hw

theorem keepsOwned_uploadPartCopy (input : UploadPartCopyInput) (cred : Option Bytes)
    (hw : PartsOwned w.disk) (hn : ∀ u, fs.parseUuid input.uploadId = some u →
      fs.Recorded w.disk u cred → 1 ≤ input.partNumber ∧ input.partNumber ≤ 10000) :
    KeepsOwned (fs.uploadPartCopy input cred) w := by
  refine keepsOwned_open fs cred _ hw (.refl w) fun u w₁ h₁ hparse hrecord => ?_
  refine keepsOwned_read (reads_loadObjectAttributes fs _ _ _) hw h₁ fun attrs w₂ h₂ => ?_
  refine keepsOwned_read (reads_location _) hw h₂ fun source w₃ h₃ => ?_
  refine keepsOwned_read (reads_getObjectPath fs _ _) hw h₃ fun srcPath w₄ h₄ => ?_
  rw [getStorePath_eq]
  refine keepsOwned_read (reads_openObject srcPath) hw h₄ fun file w₅ h₅ => ?_
  refine keepsOwned_read (reads_metadata _) hw h₅ fun stat w₆ h₆ => ?_
  refine keepsOwned_read (reads_copySourceInterval _ _) hw h₆ fun interval w₇ h₇ => ?_
  refine keepsOwned_read (reads_enableGiven _ _) hw h₇ fun hasher w₈ h₈ => ?_
  have hbacked : Backed w₈.disk (.uploadPart u input.partNumber) := by
    refine ⟨?_, hn u hparse hrecord⟩
    rw [h₈.disk]
    exact hrecord.stored
  have hw₈ := hw.same (sameUploads_of_same h₈)
  refine @keepsOwned_storePart fs _ _ _ _ _ (fun _ _ => True) _ hw₈ hbacked ?_ ?_
  · intro w₉ h₉
    refine (meets_copyBytes _ h₉).mono ?_ fun _ _ he => ⟨trivial, he.2⟩
    exact fun _ _ h => ⟨_, trivial, h.2⟩
  · intro content w₉ written hsaved hw₉
    refine keepsOwned_read (reads_checkExpected _ _ _) hw₉ (.refl w₉) fun _ w' h' => ?_
    have hsaved' : w₈.Saved w' (.uploadPart u input.partNumber) written := by
      refine ⟨h'.counter.trans hsaved.counter, h'.dirStat.trans hsaved.dirStat, ?_⟩
      rw [h'.disk]
      exact hsaved.get
    exact keepsOwned_savePartInfo fs hsaved' (hw₉.same (sameUploads_of_same h')) hbacked _ _

end Steps

section Removals

variable (fs : FileSystem) {w w' w'' : World} {f : StoreFile} {u : Uuid}

/-- Nothing comes to be stored of uploads. -/
def Shrinks (w w' : World) : Prop := ∀ f, OfUpload f → Stored w'.disk f → Stored w.disk f

theorem Shrinks.trans (h : Shrinks w w') (h' : Shrinks w' w'') : Shrinks w w'' :=
  fun f hf hstored => h f hf (h' f hf hstored)

theorem shrinks_of_same (h : w.Same w') : Shrinks w w' := fun _ hf hstored =>
  ((sameUploads_of_same h).stored hf).mp hstored

theorem not_stored_of_removed (h : w.Removed w' [f.name]) : ¬Stored w'.disk f := by
  rw [Stored, h.get, if_pos rfl]
  exact fun hne => hne rfl

theorem stored_of_removed (h : w.Removed w' [f.name]) {g : StoreFile} (hne : g ≠ f) :
    Stored w'.disk g ↔ Stored w.disk g := by
  have hname : [g.name] ≠ [f.name] := fun heq =>
    hne (StoreFile.name_injective (List.head_eq_of_cons_eq heq))
  rw [Stored, h.get, if_neg hname, Stored]

theorem shrinks_of_removed {p : List Bytes} (h : w.Removed w' p) : Shrinks w w' := by
  intro g _ hstored
  rw [Stored, h.get] at hstored
  by_cases hp : [g.name] = p
  · rw [if_pos hp] at hstored
    exact absurd rfl hstored
  · rwa [if_neg hp] at hstored

/-- What goes of one upload goes before its record. -/
theorem PartsOwned.shrinks (hw : PartsOwned w.disk) (h : Shrinks w w')
    (hothers : ∀ u', u' ≠ u → Stored w.disk (.uploadInfo u') → Stored w'.disk (.uploadInfo u'))
    (hgone : ¬Stored w'.disk (.uploadInfo u) →
      (∀ n, ¬Stored w'.disk (.uploadPart u n) ∧ ¬Stored w'.disk (.uploadPartInfo u n)) ∧
        ∀ bucket key, ¬Stored w'.disk (.metadata bucket key (some u))) : PartsOwned w'.disk := by
  constructor
  · intro u' n hstored
    obtain ⟨hrecord, hn⟩ := hw.part u' n (hstored.imp (h _ trivial) (h _ trivial))
    refine ⟨?_, hn⟩
    by_cases hu : u' = u
    · subst hu
      by_contra hnot
      obtain ⟨hpart, hinfo⟩ := (hgone hnot).1 n
      exact hstored.elim hpart hinfo
    · exact hothers u' hu hrecord
  · intro bucket key u' hstored
    have hrecord := hw.attributes bucket key u' (h _ trivial hstored)
    by_cases hu : u' = u
    · subst hu
      by_contra hnot
      exact (hgone hnot).2 bucket key hstored
    · exact hothers u' hu hrecord

theorem meets_removeStoreFile (f : StoreFile) :
    (fs.getStorePath f >>= fun path => removeFileIfExists path).Meets World.step w
      (fun _ w' => w.Removed w' [f.name]) fun _ w' => w.Same w' := by
  rw [getStorePath_eq]
  exact (meets_removeFileIfExists [f.name]).mono (fun _ _ h => h) fun _ _ h => h.2

theorem meets_failed {step : Op Unit} {Q : World → Prop} {E : Failure → World → Prop}
    (h : step.Meets World.step w (fun _ => Q) E) : (failed step).Meets World.step w
      (fun b w' => if b then ∃ e, E e w' else Q w') fun _ _ => False := by
  rw [failed, meets_bind, meets_attempt]
  exact h.mono (fun _ _ hq => hq) fun e _ he => ⟨e, he⟩

theorem meets_failed_remove (f : StoreFile) :
    (failed (fs.getStorePath f >>= fun path => removeFileIfExists path)).Meets World.step w
      (fun b w' => Shrinks w w' ∧ (b = false → ¬Stored w'.disk f) ∧
        ∀ g, g ≠ f → (Stored w'.disk g ↔ Stored w.disk g)) fun _ _ => False := by
  refine (meets_failed (meets_removeStoreFile fs f)).mono ?_ fun _ _ h => h
  intro b w' h
  cases b with
  | true =>
    obtain ⟨-, hsame⟩ : ∃ e : Failure, w.Same w' := h
    refine ⟨shrinks_of_same hsame, fun hb => Bool.noConfusion hb, fun g _ => ?_⟩
    rw [Stored, hsame.disk, Stored]
  | false =>
    have hremoved : w.Removed w' [f.name] := h
    exact ⟨shrinks_of_removed hremoved, fun _ => not_stored_of_removed hremoved,
      fun g hne => stored_of_removed hremoved hne⟩

theorem meets_cleanupParts (ns : List Int) :
    (fs.cleanupParts u ns).Meets World.step w
      (fun b w' => Shrinks w w' ∧ (∀ g, ¬PartOf u g → (Stored w'.disk g ↔ Stored w.disk g)) ∧
        (b = false → ∀ n ∈ ns, ¬Stored w'.disk (.uploadPart u n) ∧ ¬Stored w'.disk (.uploadPartInfo u n)))
      fun _ _ => False := by
  induction ns generalizing w with
  | nil => exact ⟨fun _ _ h => h, fun _ _ => Iff.rfl, fun _ n hn => by cases hn⟩
  | cons n ns ih =>
    refine (meets_failed_remove fs (.uploadPart u n)).bind ?_ fun _ _ h => h
    rintro first w₁ ⟨hshrinks₁, hgone₁, hother₁⟩
    refine (meets_failed_remove fs (.uploadPartInfo u n)).bind ?_ fun _ _ h => h
    rintro second w₂ ⟨hshrinks₂, hgone₂, hother₂⟩
    refine ih.bind ?_ fun _ _ h => h
    rintro rest w₃ ⟨hshrinks₃, hother₃, hgone₃⟩
    refine ⟨(hshrinks₁.trans hshrinks₂).trans hshrinks₃, fun g hg => ?_, fun hb => ?_⟩
    · have hpart : g ≠ .uploadPart u n := fun h => hg ⟨n, Or.inl h⟩
      have hinfo : g ≠ .uploadPartInfo u n := fun h => hg ⟨n, Or.inr h⟩
      exact (hother₃ g hg).trans ((hother₂ g hinfo).trans (hother₁ g hpart))
    · simp only [Bool.or_eq_false_iff] at hb
      obtain ⟨⟨rfl, rfl⟩, rfl⟩ := hb
      intro n' hn'
      rcases List.mem_cons.mp hn' with rfl | hn'
      · exact ⟨fun h => hgone₁ rfl (hshrinks₂ _ trivial (hshrinks₃ _ trivial h)),
          fun h => hgone₂ rfl (hshrinks₃ _ trivial h)⟩
      · exact hgone₃ rfl n' hn'

/-- What is left of an upload is listed, and its attributes are those of the object. -/
structure Covered (disk : Tree Bytes UInt8) (bucket key : Bytes) (u : Uuid) (listed : Int → Prop) :
    Prop where
  part : ∀ n, Stored disk (.uploadPart u n) ∨ Stored disk (.uploadPartInfo u n) → listed n
  attributes : ∀ bucket' key', Stored disk (.metadata bucket' key' (some u)) → bucket' = bucket ∧ key' = key

theorem keepsOwned_cleanup (bucket key : Bytes) (ns : List Int) (hw : PartsOwned w.disk)
    (hcovered : Covered w.disk bucket key u (· ∈ ns)) :
    (fs.cleanup bucket key u ns).Meets World.step w (fun _ w' => PartsOwned w'.disk)
      fun _ _ => False := by
  refine (meets_failed_remove fs (.metadata bucket key (some u))).bind ?_ fun _ _ h => h
  rintro first w₁ ⟨hshrinks₁, hgone₁, hother₁⟩
  refine (meets_cleanupParts fs ns).bind ?_ fun _ _ h => h
  rintro rest w₂ ⟨hshrinks₂, hother₂, hgone₂⟩
  have hrecords (u' : Uuid) : Stored w₂.disk (.uploadInfo u') ↔ Stored w.disk (.uploadInfo u') := by
    refine (hother₂ _ ?_).trans (hother₁ _ (by simp))
    rintro ⟨n, h | h⟩ <;> cases h
  have hshrinks : Shrinks w w₂ := hshrinks₁.trans hshrinks₂
  have hw₂ : PartsOwned w₂.disk := by
    refine hw.shrinks (u := u) hshrinks (fun u' _ h => (hrecords u').mpr h) fun hnot => ?_
    have hnoRecord : ¬Stored w.disk (.uploadInfo u) := fun h => hnot ((hrecords u).mpr h)
    refine ⟨fun n => ⟨fun h => ?_, fun h => ?_⟩, fun b k h => ?_⟩
    · exact hnoRecord (hw.part u n (Or.inl (hshrinks _ trivial h))).1
    · exact hnoRecord (hw.part u n (Or.inr (hshrinks _ trivial h))).1
    · exact hnoRecord (hw.attributes b k u (hshrinks _ trivial h))
  cases hfailed : first || rest with
  | true =>
    rw [if_pos rfl]
    exact hw₂
  | false =>
    rw [if_neg Bool.false_ne_true]
    obtain ⟨rfl, rfl⟩ := Bool.or_eq_false_iff.mp hfailed
    refine (meets_failed_remove fs (.uploadInfo u)).bind ?_ fun _ _ h => h
    rintro third w₃ ⟨hshrinks₃, -, hother₃⟩
    refine hw₂.shrinks (u := u) hshrinks₃ (fun u' hu h => (hother₃ _ (by simpa using hu)).mpr h)
      fun _ => ⟨fun n => ⟨fun h => ?_, fun h => ?_⟩, fun b k h => ?_⟩
    · have h₂ : Stored w₂.disk (.uploadPart u n) := hshrinks₃ _ trivial h
      exact (hgone₂ rfl n (hcovered.part n (Or.inl (hshrinks _ trivial h₂)))).1 h₂
    · have h₂ : Stored w₂.disk (.uploadPartInfo u n) := hshrinks₃ _ trivial h
      exact (hgone₂ rfl n (hcovered.part n (Or.inr (hshrinks _ trivial h₂)))).2 h₂
    · have h₂ : Stored w₂.disk (.metadata b k (some u)) := hshrinks₃ _ trivial h
      obtain ⟨rfl, rfl⟩ := hcovered.attributes b k (hshrinks _ trivial h₂)
      exact hgone₁ rfl (hshrinks₂ _ trivial h₂)

theorem Covered.same {disk disk' : Tree Bytes UInt8} {bucket key : Bytes} {listed : Int → Prop}
    (h : Covered disk bucket key u listed) (hsame : SameUploads disk disk') :
    Covered disk' bucket key u listed := by
  constructor
  · intro n hstored
    apply h.part n
    exact hstored.imp (hsame.stored (f := .uploadPart u n) trivial).mp
      (hsame.stored (f := .uploadPartInfo u n) trivial).mp
  · intro b k hstored
    exact h.attributes b k ((hsame.stored (f := .metadata b k (some u)) trivial).mp hstored)

/-- The numbers of the parts that a completion lists. -/
def listedNumbers (input : CompleteMultipartUploadInput) : List Int :=
  ((input.multipartUpload.getD none).getD []).filterMap CompletedPart.partNumber

/-- The object of a key is below its bucket. -/
theorem objectPath_below {bucket key : Bytes} (hbucket : checkBucketName bucket = true)
    (hstays : fs.Stays bucket key) (p : List Bytes) (hp : fs.ObjectPath bucket key p) : BelowBucket p := by
  obtain ⟨rest, -, rfl⟩ := hstays p hp
  exact ⟨bucket, rest, hbucket, rfl⟩

theorem keepsOwned_completeMultipartUpload (input : CompleteMultipartUploadInput) (cred : Option Bytes)
    (hpaths : ∀ p, fs.ObjectPath input.bucket input.key p → Aside p)
    (hw : PartsOwned w.disk) (hcovered : ∀ u, fs.parseUuid input.uploadId = some u →
      fs.Recorded w.disk u cred → Covered w.disk input.bucket input.key u (· ∈ listedNumbers input)) :
    KeepsOwned (fs.completeMultipartUpload input cred) w := by
  rw [FileSystem.completeMultipartUpload, KeepsOwned]
  refine meets_demand.bind ?_ ?_
  swap
  · rintro _ _ ⟨rfl, -⟩
    exact hw
  rintro multipartUpload _ ⟨rfl, hupload⟩
  refine keepsOwned_read (only_require _ _) hw (.refl _) fun _ w₁ h₁ => ?_
  refine keepsOwned_open fs cred _ hw h₁ fun u w₂ h₂ hparse hrecord => ?_
  refine keepsOwned_read (only_require _ _) hw h₂ fun _ w₃ h₃ => ?_
  refine keepsOwned_read (reads_loadObjectAttributes fs _ _ _) hw h₃ fun attrs w₄ h₄ => ?_
  refine keepsOwned_read (only_require _ _) hw h₄ fun _ w₅ h₅ => ?_
  rw [getObjectPath_eq]
  cases hpath : fs.pathOf input.bucket input.key with
  | none => exact hw.same (sameUploads_of_same h₅)
  | some p =>
    show KeepsOwned (fs.checkConditions _ _ p _ _ >>= _) w₅
    refine keepsOwned_read (reads_checkConditions fs _ _ _ _ _) hw h₅ fun _ w₆ h₆ => ?_
    refine keepsOwned_read (reads_enableGiven _ _) hw h₆ fun hasher w₇ h₇ => ?_
    have hw₇ := hw.same (sameUploads_of_same h₇)
    have hcovered₇ := (hcovered u hparse hrecord).same (sameUploads_of_same h₇)
    have hwithin : (fs.writing p (fs.assemble input u (multipartUpload.getD []) hasher)).Only
        (Call.Within (Area (fs.ObjectPath input.bucket input.key) fun _ => False)) :=
      within_assembled fs input u _ hasher hpath
    have hwrite := meets_sameUploads (w := w₇) hwithin hpaths fun _ _ h => h
    refine hwrite.bind ?_ fun _ _ h => hw₇.same h
    rintro ⟨etag, checksum⟩ w₈ h₈
    have hattrs : (fs.saveUploadAttributes input.bucket input.key attrs).Only
        (Call.Within (Area (fun _ => False) (Sidecar input.bucket input.key))) :=
      within_saveUploadAttributes fs (Or.inl rfl) attrs
    refine (meets_sameUploads hattrs (fun _ h => h.elim) not_ofUpload_sidecar).bind ?_
      fun _ _ h => hw₇.same (sameUploads_trans h₈ h)
    intro _ w₉ h₉
    have hinfo : (fs.saveInternalInfo input.bucket input.key
        (modifyInternalInfo (saveETag [] etag) checksum)).Only
        (Call.Within (Area (fun _ => False) (Sidecar input.bucket input.key))) :=
      within_saveFile fs (Or.inr rfl) _
    refine (meets_sameUploads hinfo (fun _ h => h.elim) not_ofUpload_sidecar).bind ?_
      fun _ _ h => hw₇.same (sameUploads_trans (sameUploads_trans h₈ h₉) h)
    intro _ w₁₀ h₁₀
    have hsame := sameUploads_trans (sameUploads_trans h₈ h₉) h₁₀
    have hlisted : (multipartUpload.getD []).filterMap CompletedPart.partNumber = listedNumbers input := by
      rw [listedNumbers, hupload, Option.getD_some]
    rw [hlisted]
    exact (keepsOwned_cleanup fs _ _ _ (hw₇.same hsame) (hcovered₇.same hsame)).bind
      (fun _ _ h => h) fun _ _ h => h.elim

theorem isResidue_uploadPart (u : Uuid) (n : Int) : isResidue u (StoreFile.uploadPart u n).name = true := by
  simp [isResidue, StoreFile.name]

theorem isResidue_uploadPartInfo (u : Uuid) (n : Int) :
    isResidue u (StoreFile.uploadPartInfo u n).name = true := by
  simp [isResidue, StoreFile.name]

theorem isResidue_uploadInfo (u u' : Uuid) : isResidue u (StoreFile.uploadInfo u').name = false := by
  simp [isResidue, StoreFile.name, ascii, List.isPrefixOf]

theorem meets_removeResidue (entries : List (Bytes × Bool)) :
    (removeResidue u entries).Meets World.step w
      (fun _ w' => (Shrinks w w' ∧ ∀ u', Stored w'.disk (.uploadInfo u') ↔ Stored w.disk (.uploadInfo u')) ∧
        ∀ f : StoreFile, OfUpload f → isResidue u f.name = true → (∃ isDir, (f.name, isDir) ∈ entries) →
          ¬Stored w'.disk f)
      fun _ w' => Shrinks w w' ∧ ∀ u', Stored w'.disk (.uploadInfo u') ↔ Stored w.disk (.uploadInfo u') := by
  induction entries generalizing w with
  | nil =>
    refine ⟨⟨fun _ _ h => h, fun _ => Iff.rfl⟩, ?_⟩
    rintro f - - ⟨isDir, h⟩
    cases h
  | cons entry entries ih =>
    obtain ⟨name, isDir⟩ := entry
    rw [removeResidue]
    by_cases hname : isResidue u name = true
    · rw [if_pos hname]
      have hrecord {w₁ : World} (h : w.Removed w₁ [name]) (u' : Uuid) :
          Stored w₁.disk (.uploadInfo u') ↔ Stored w.disk (.uploadInfo u') := by
        have hne : [(StoreFile.uploadInfo u').name] ≠ [name] := by
          rintro heq
          rw [← List.head_eq_of_cons_eq heq, isResidue_uploadInfo] at hname
          cases hname
        rw [Stored, h.get, if_neg hne, Stored]
      refine (meets_removeFileIfExists [name]).bind ?_ ?_
      · intro _ w₁ h₁
        refine ih.mono ?_ ?_
        · rintro _ w₂ ⟨⟨hshrinks, hrecords⟩, hgone⟩
          refine ⟨⟨(shrinks_of_removed h₁).trans hshrinks,
            fun u' => (hrecords u').trans (hrecord h₁ u')⟩, ?_⟩
          rintro f hf hresidue ⟨d, hmem⟩
          rcases List.mem_cons.mp hmem with heq | hmem
          · intro hstored
            obtain rfl : f.name = name := congrArg Prod.fst heq
            exact not_stored_of_removed h₁ (hshrinks f hf hstored)
          · exact hgone f hf hresidue ⟨d, hmem⟩
        · rintro _ w₂ ⟨hshrinks, hrecords⟩
          exact ⟨(shrinks_of_removed h₁).trans hshrinks,
            fun u' => (hrecords u').trans (hrecord h₁ u')⟩
      · rintro _ w₁ ⟨-, h₁⟩
        exact ⟨shrinks_of_same h₁, fun u' => (sameUploads_of_same h₁).stored trivial⟩
    · rw [if_neg hname]
      refine ih.mono ?_ fun _ _ h => h
      rintro _ w' ⟨hkept, hgone⟩
      refine ⟨hkept, ?_⟩
      rintro f hf hresidue ⟨d, hmem⟩
      rcases List.mem_cons.mp hmem with heq | hmem
      · obtain rfl : f.name = name := congrArg Prod.fst heq
        exact absurd hresidue hname
      · exact hgone f hf hresidue ⟨d, hmem⟩

theorem keepsOwned_abortMultipartUpload (bucket key uploadId : Bytes) (cred : Option Bytes)
    (hw : PartsOwned w.disk) (hcovered : ∀ u, fs.parseUuid uploadId = some u → fs.Recorded w.disk u cred →
      ∀ bucket' key', Stored w.disk (.metadata bucket' key' (some u)) → bucket' = bucket ∧ key' = key) :
    KeepsOwned (fs.abortMultipartUpload bucket key uploadId cred) w := by
  refine keepsOwned_open fs cred _ hw (.refl w) fun u w₁ h₁ hparse hrecord => ?_
  have hw₁ := hw.same (sameUploads_of_same h₁)
  refine (meets_removeStoreFile fs (.metadata bucket key (some u))).bind ?_
    fun _ _ h => hw₁.same (sameUploads_of_same h)
  intro _ w₂ h₂
  have hnoAttributes (b k : Bytes) : ¬Stored w₂.disk (.metadata b k (some u)) := by
    intro h
    have h' : Stored w₁.disk (.metadata b k (some u)) := shrinks_of_removed h₂ _ trivial h
    rw [Stored, h₁.disk] at h'
    obtain ⟨rfl, rfl⟩ := hcovered u hparse hrecord b k h'
    exact not_stored_of_removed h₂ h
  have hkeeps {w₃ : World} (hshrinks : Shrinks w₂ w₃)
      (hrecords : ∀ u', Stored w₃.disk (.uploadInfo u') ↔ Stored w₂.disk (.uploadInfo u')) :
      PartsOwned w₃.disk := by
    have hstays (u' : Uuid) : Stored w₃.disk (.uploadInfo u') ↔ Stored w₁.disk (.uploadInfo u') :=
      (hrecords u').trans (stored_of_removed h₂ (by simp))
    have hall := (shrinks_of_removed h₂).trans hshrinks
    refine hw₁.shrinks (u := u) hall (fun u' _ h => (hstays u').mpr h) fun hnot => ?_
    have hnoRecord : ¬Stored w₁.disk (.uploadInfo u) := fun h => hnot ((hstays u).mpr h)
    refine ⟨fun n => ⟨fun h => ?_, fun h => ?_⟩, fun b k h => ?_⟩
    · exact hnoRecord (hw₁.part u n (Or.inl (hall _ trivial h))).1
    · exact hnoRecord (hw₁.part u n (Or.inr (hall _ trivial h))).1
    · exact hnoRecord (hw₁.attributes b k u (hall _ trivial h))
  refine (meets_readDir []).bind ?_ fun _ _ h => hkeeps (shrinks_of_same h.1)
    fun u' => (sameUploads_of_same h.1).stored trivial
  rintro entries w₃ ⟨h₃, hlists⟩
  refine (meets_removeResidue entries).bind ?_ fun _ _ h =>
    hkeeps ((shrinks_of_same h₃).trans h.1)
      fun u' => (h.2 u').trans ((sameUploads_of_same h₃).stored trivial)
  rintro _ w₄ ⟨⟨hshrinks, hrecords⟩, hgone⟩
  have hall := (shrinks_of_same h₃).trans hshrinks
  have hw₄ : PartsOwned w₄.disk :=
    hkeeps hall fun u' => (hrecords u').trans ((sameUploads_of_same h₃).stored trivial)
  have hnone (f : StoreFile) (hf : OfUpload f) (hresidue : isResidue u f.name = true) :
      ¬Stored w₄.disk f := by
    intro h
    have hold : Stored w₂.disk f := hall f hf h
    obtain ⟨e, he⟩ := Option.ne_none_iff_exists'.mp hold
    exact hgone f hf hresidue ⟨_, (hlists f.name _).mpr ⟨e, he, rfl⟩⟩ h
  refine (meets_removeStoreFile fs (.uploadInfo u)).mono ?_
    fun _ _ h => hw₄.same (sameUploads_of_same h)
  intro _ w₅ h₅
  have hlast := shrinks_of_removed h₅
  refine hw₄.shrinks (u := u) hlast (fun u' hu h => (stored_of_removed h₅ (by simpa using hu)).mpr h)
    fun _ => ⟨fun n => ⟨fun h => ?_, fun h => ?_⟩, fun b k h => ?_⟩
  · exact hnone (.uploadPart u n) trivial (isResidue_uploadPart u n) (hlast _ trivial h)
  · exact hnone (.uploadPartInfo u n) trivial (isResidue_uploadPartInfo u n) (hlast _ trivial h)
  · exact hnoAttributes b k (hall _ trivial (hlast _ trivial h))

end Removals

end S3s.Fs
