import S3s.Fs.Footprints

/-! # What is received

What comes to stand in the temporary file of an object or a part: the body of the request, the
selected bytes of a source, or the listed parts one after another.
-/
namespace S3s.Fs
open LexicalPath Programs FileTree

variable {w w₁ : World} {content : Bytes} (fs : FileSystem)

section Infos

/-- What is read of a file, if there is one. -/
def Reads {α : Type} (disk : Tree Bytes UInt8) (f : StoreFile) (decode : Bytes → Option α) (a : Option α) :
    Prop :=
  disk.get [f.name] = none ∧ a = none ∨
    ∃ content m, disk.get [f.name] = some (.file content m) ∧ a = decode content

theorem meets_loadInfo (f : StoreFile) :
    (fs.loadInfo f).Meets World.step w
      (fun a w' => w.Same w' ∧ Reads w.disk f fs.info.fromSlice a) fun _ w' => w.Same w' := by
  simp only [FileSystem.loadInfo, getStorePath_eq, ret_bind]
  refine (meets_pathExists _).bind ?_ fun _ _ h => h.elim
  rintro present w₁ ⟨h₁, hpresent⟩
  cases present with
  | false => exact ⟨h₁, Or.inl ⟨by simpa using hpresent.symm, rfl⟩⟩
  | true =>
    refine (meets_read _).bind ?_ fun _ _ h => h₁.trans h.1
    rintro content w₂ ⟨h₂, m, hfile⟩
    rw [h₁.disk] at hfile
    refine meets_demand.bind ?_ ?_
    · rintro info _ ⟨rfl, hinfo⟩
      exact ⟨h₁.trans h₂, Or.inr ⟨content, m, hfile, hinfo.symm⟩⟩
    · rintro _ _ ⟨rfl, -⟩
      exact h₁.trans h₂

/-- The info that a file of the store holds. -/
def FileSystem.infoIn (disk : Tree Bytes UInt8) (f : StoreFile) : Option InternalInfo :=
  match disk.get [f.name] with
  | some (.file content _) => fs.info.fromSlice content
  | _ => none

theorem Reads.eq_infoIn {disk : Tree Bytes UInt8} {f : StoreFile} {info : Option InternalInfo}
    (h : Reads disk f fs.info.fromSlice info) : info = fs.infoIn disk f := by
  unfold FileSystem.infoIn
  rcases h with ⟨hget, rfl⟩ | ⟨content, m, hget, rfl⟩
  · rw [hget]
  · rw [hget]

theorem infoIn_congr {disk disk' : Tree Bytes UInt8} {f : StoreFile}
    (h : disk'.get [f.name] = disk.get [f.name]) : fs.infoIn disk' f = fs.infoIn disk f := by
  unfold FileSystem.infoIn
  rw [h]

theorem World.Saved.infoIn {w' : World} {f : StoreFile} {info : InternalInfo}
    (h : w.Saved w' f (fs.info.toVec info)) : fs.infoIn w'.disk f = some info := by
  obtain ⟨m, hget⟩ := h.get
  rw [FileSystem.infoIn, hget, if_pos rfl]
  exact fs.info.fromSlice_toVec info

/-- The stored checksums, for an object that is read as a whole or a part. -/
theorem gives_storedChecksum (info : Option InternalInfo) :
    (storedChecksum info true).Gives fun checksum => ∀ a, checksum a = info.bind (readChecksum · a) := by
  cases info with
  | none => exact fun _ => rfl
  | some info =>
    apply (Prog.gives_true _).bind
    exact fun _ _ _ => rfl

end Infos

/-- A program that only reads keeps the temporary file. -/
theorem meets_open_of_reads {α : Type} {p : Op α} (hp : p.Only Call.Reads) (h : w.Open w₁ content) :
    p.Meets World.step w₁ (fun _ w₂ => w.Open w₂ content) fun _ w₂ => w.Open w₂ content :=
  (meets_of_reads hp w₁).mono (fun _ _ hs => h.same hs) fun _ _ hs => h.same hs

theorem reads_checkExpected {φ : Call → Prop} (actual expected : Checksum)
    (failure : ChecksumAlgorithm → Failure) : (checkExpected actual expected failure).Only φ := by
  unfold checkExpected
  split <;> trivial

theorem reads_checkContentMd5 {φ : Call → Prop} (contentMd5 : Option Bytes) (md5Sum : Bytes) :
    (checkContentMd5 contentMd5 md5Sum).Only φ := by
  unfold checkContentMd5
  split
  · exact (only_demand _ _).bind fun _ => only_require _ _
  · trivial

theorem reads_checkPutChecksums {φ : Call → Prop} (actual expected : Checksum) :
    (checkPutChecksums actual expected).Only φ := by
  unfold checkPutChecksums
  split <;> trivial

/-- What `put_object` writes, and what it goes on with. -/
theorem meets_receivePut (input : PutObjectInput) (trailers : Option Http.HeaderMap)
    (stream : List (Except StreamError Bytes)) (hasher : ChecksumAlgorithm → Bool)
    (h : w.Open w₁ []) : (fs.receivePut input trailers stream hasher w.tmpPath).Meets World.step w₁
      (fun a w₂ => ∃ content, (contentOf stream = some content ∧
        a = (fs.md5Sum content, fs.finalize hasher content)) ∧ w.Open w₂ content)
      fun _ w₂ => True ∧ ∃ content, w.Open w₂ content := by
  refine (meets_copyBytes stream h).bind ?_ fun _ _ he => ⟨trivial, he.2⟩
  rintro content w₂ ⟨hcontent, h₂⟩
  rw [List.nil_append] at h₂
  refine (meets_open_of_reads (reads_checkContentMd5 _ _) h₂).bind ?_ fun _ _ he => ⟨trivial, _, he⟩
  intro _ w₃ h₃
  refine (meets_open_of_reads (reads_trailingChecksums _ _) h₃).bind ?_ fun _ _ he => ⟨trivial, _, he⟩
  intro expected w₄ h₄
  refine (meets_open_of_reads (reads_checkPutChecksums _ _) h₄).bind ?_ fun _ _ he => ⟨trivial, _, he⟩
  exact fun _ w₅ h₅ => ⟨content, ⟨hcontent, rfl⟩, h₅⟩

/-- What `upload_part` writes, and what it goes on with. -/
theorem meets_receivePart (expected : Checksum) (trailers : Option Http.HeaderMap)
    (stream : List (Except StreamError Bytes)) (hasher : ChecksumAlgorithm → Bool)
    (h : w.Open w₁ []) : (fs.receivePart expected trailers stream hasher w.tmpPath).Meets World.step w₁
      (fun a w₂ => ∃ content, (contentOf stream = some content ∧
        a = (fs.md5Sum content, fs.finalize hasher content)) ∧ w.Open w₂ content)
      fun _ w₂ => True ∧ ∃ content, w.Open w₂ content := by
  refine (meets_copyBytes stream h).bind ?_ fun _ _ he => ⟨trivial, he.2⟩
  rintro content w₂ ⟨hcontent, h₂⟩
  rw [List.nil_append] at h₂
  refine (meets_open_of_reads (reads_trailingChecksums _ _) h₂).bind ?_ fun _ _ he => ⟨trivial, _, he⟩
  intro expected w₃ h₃
  refine (meets_open_of_reads (reads_checkExpected _ _ _) h₃).bind ?_ fun _ _ he => ⟨trivial, _, he⟩
  exact fun _ w₄ h₄ => ⟨content, ⟨hcontent, rfl⟩, h₄⟩

section Checksums

/-- Every expected checksum is the actual one. -/
def Agrees (actual expected : Checksum) : Prop := ∀ a text, expected a = some text → actual a = some text

theorem checksumMismatch_eq_none_iff {actual expected : Checksum} :
    checksumMismatch actual expected = none ↔ Agrees actual expected := by
  rw [checksumMismatch, List.find?_eq_none]
  constructor
  · intro h a text hexpected
    have ha := h a (ChecksumAlgorithm.mem_all a)
    rw [hexpected] at ha
    simpa using ha
  · intro h a _
    cases hexpected : expected a with
    | none => simp
    | some text => simp [h a text hexpected]

theorem gives_checkExpected (actual expected : Checksum) (failure : ChecksumAlgorithm → Failure) :
    (checkExpected actual expected failure).Gives fun _ => Agrees actual expected := by
  unfold checkExpected
  cases hmismatch : checksumMismatch actual expected with
  | none => exact checksumMismatch_eq_none_iff.mp hmismatch
  | some a => trivial

end Checksums

section Parts

/-- A listed part, its number and what is stored of it. -/
structure StoredPart (disk : Tree Bytes UInt8) (u : Uuid) (n : Int) (part : CompletedPart)
    (content : Bytes) : Prop where
  number : part.partNumber = some n
  file : ∃ m, disk.get [(StoreFile.uploadPart u n).name] = some (.file content m)

/-- The stored checksum of a part. -/
def FileSystem.partChecksum (disk : Tree Bytes UInt8) (u : Uuid) (n : Int) : Checksum :=
  fun a => (fs.infoIn disk (.uploadPartInfo u n)).bind (readChecksum · a)

/-- A part that stands as the `n`th in a list of `total` parts. -/
structure FileSystem.ListedPart (disk : Tree Bytes UInt8) (u : Uuid) (total n : Int) (part : CompletedPart)
    (content : Bytes) : Prop where
  stored : StoredPart disk u n part content
  checksums : Agrees (fs.partChecksum disk u n) part.checksum
  size : n = total ∨ minPartSize ≤ content.length

theorem uploadPart_ne_tmp (u : Uuid) (n : Int) : [(StoreFile.uploadPart u n).name] ≠ w.tmpPath := by
  intro h
  cases StoreFile.name_injective (List.head_eq_of_cons_eq h)

theorem uploadPartInfo_ne_tmp (u : Uuid) (n : Int) : [(StoreFile.uploadPartInfo u n).name] ≠ w.tmpPath := by
  intro h
  cases StoreFile.name_injective (List.head_eq_of_cons_eq h)

theorem meets_appendPart (u : Uuid) (total cnt : Int) (part : CompletedPart) (h : w.Open w₁ content) :
    (fs.appendPart u total w.tmpPath cnt part).Meets World.step w₁
      (fun added w₂ => fs.ListedPart w.disk u total cnt part added ∧ w.Open w₂ (content ++ added))
      fun _ w₂ => ∃ content, w.Open w₂ content := by
  rw [FileSystem.appendPart, meets_bind]
  refine (meets_demand).mono ?_ ?_
  · rintro n _ ⟨rfl, hn⟩
    rw [meets_bind, meets_require]
    by_cases hcnt : n = cnt
    · subst hcnt
      rw [if_pos (beq_self_eq_true n), getStorePath_eq]
      refine (meets_loadInfo fs _).bind ?_ fun _ _ he => ⟨_, h.same he⟩
      rintro partInfo w₂ ⟨h₂, hinfo⟩
      have hstored : partInfo = fs.infoIn w.disk (.uploadPartInfo u n) :=
        (hinfo.eq_infoIn fs).trans (infoIn_congr fs (h.rest _ (uploadPartInfo_ne_tmp u n)))
      refine ((meets_open_of_reads (reads_storedChecksum _ _) (h.same h₂)).and
        ((gives_storedChecksum partInfo).meets _)).bind ?_ fun _ _ he => ⟨_, he.1⟩
      rintro savedChecksum w₃ ⟨h₃, hsaved⟩
      refine ((meets_open_of_reads (reads_checkExpected _ _ _) h₃).and
        ((gives_checkExpected savedChecksum part.checksum _).meets _)).bind ?_ fun _ _ he => ⟨_, he.1⟩
      rintro _ w₄ ⟨h₄, hagrees⟩
      have hchecksums : Agrees (fs.partChecksum w.disk u n) part.checksum := by
        intro a text htext
        rw [FileSystem.partChecksum, ← hstored, ← hsaved a]
        exact hagrees a text htext
      refine (meets_read _).bind ?_ fun _ _ he => ⟨_, h₄.same he.1⟩
      rintro added w₅ ⟨hsame, m, hfile⟩
      rw [h₄.rest _ (uploadPart_ne_tmp u n)] at hfile
      refine (meets_append (h₄.same hsame) added).bind ?_ fun _ _ he => he.elim
      intro _ w₆ h₆
      refine ((meets_open_of_reads (only_require _ _) h₆).and ((gives_require _ _).meets _)).bind ?_
        fun _ _ he => ⟨_, he.1⟩
      rintro _ w₇ ⟨h₇, hsize⟩
      exact ⟨⟨⟨hn, m, hfile⟩, hchecksums, by simpa using hsize⟩, h₇⟩
    · rw [if_neg (by simpa using hcnt)]
      exact ⟨_, h⟩
  · rintro _ _ ⟨rfl, -⟩
    exact ⟨_, h⟩

/-- The listed parts are stored under the numbers from one on. -/
inductive StoredParts (disk : Tree Bytes UInt8) (u : Uuid) : Int → List CompletedPart → List Bytes → Prop
  | nil (cnt : Int) : StoredParts disk u cnt [] []
  | cons {cnt : Int} {part : CompletedPart} {parts : List CompletedPart} {content : Bytes}
      {contents : List Bytes} (head : StoredPart disk u (cnt + 1) part content)
      (tail : StoredParts disk u (cnt + 1) parts contents) :
      StoredParts disk u cnt (part :: parts) (content :: contents)

/-- The listed parts, of which there are `total`, are stored as they should be. -/
inductive FileSystem.ListedParts (disk : Tree Bytes UInt8) (u : Uuid) (total : Int) :
    Int → List CompletedPart → List Bytes → Prop
  | nil (cnt : Int) : FileSystem.ListedParts disk u total cnt [] []
  | cons {cnt : Int} {part : CompletedPart} {parts : List CompletedPart} {content : Bytes}
      {contents : List Bytes} (head : fs.ListedPart disk u total (cnt + 1) part content)
      (tail : FileSystem.ListedParts disk u total (cnt + 1) parts contents) :
      FileSystem.ListedParts disk u total cnt (part :: parts) (content :: contents)

theorem FileSystem.ListedParts.stored {disk : Tree Bytes UInt8} {u : Uuid} {total cnt : Int}
    {parts : List CompletedPart} {contents : List Bytes} (h : fs.ListedParts disk u total cnt parts contents) :
    StoredParts disk u cnt parts contents := by
  induction h with
  | nil cnt => exact .nil cnt
  | cons head _ ih => exact .cons head.stored ih

theorem meets_appendParts (u : Uuid) (total cnt : Int) (parts : List CompletedPart)
    (h : w.Open w₁ content) : (fs.appendParts u total w.tmpPath cnt parts).Meets World.step w₁
      (fun contents w₂ => fs.ListedParts w.disk u total cnt parts contents ∧
        w.Open w₂ (content ++ contents.flatten))
      fun _ w₂ => ∃ content, w.Open w₂ content := by
  induction parts generalizing cnt w₁ content with
  | nil => exact ⟨.nil cnt, by simpa using h⟩
  | cons part parts ih =>
    refine (meets_appendPart fs u total (cnt + 1) part h).bind ?_ fun _ _ he => he
    rintro added w₂ ⟨hlisted, h₂⟩
    refine (ih (cnt + 1) h₂).bind ?_ fun _ _ he => he
    rintro contents w₃ ⟨hrest, h₃⟩
    exact ⟨.cons hlisted hrest, by simpa using h₃⟩

/-- What the completion writes, and what it goes on with. -/
theorem meets_assemble (input : CompleteMultipartUploadInput) (u : Uuid) (parts : List CompletedPart)
    (hasher : ChecksumAlgorithm → Bool) (h : w.Open w₁ []) :
    (fs.assemble input u parts hasher w.tmpPath).Meets World.step w₁
      (fun a w₂ => ∃ content, (∃ contents, fs.ListedParts w.disk u parts.length 0 parts contents ∧
        content = contents.flatten ∧ a = (fs.multipartETag contents, fs.finalize hasher contents.flatten)) ∧
          w.Open w₂ content)
      fun _ w₂ => True ∧ ∃ content, w.Open w₂ content := by
  refine (meets_open_of_reads (only_require _ _) h).bind ?_ fun _ _ he => ⟨trivial, _, he⟩
  intro _ w₂ h₂
  refine (meets_appendParts fs u _ 0 parts h₂).bind ?_ fun _ _ he => ⟨trivial, he⟩
  rintro contents w₃ ⟨hlisted, h₃⟩
  rw [List.nil_append] at h₃
  refine (meets_open_of_reads (reads_checkExpected _ _ _) h₃).bind ?_ fun _ _ he => ⟨trivial, _, he⟩
  exact fun _ w₄ h₄ => ⟨_, ⟨contents, hlisted, rfl, rfl⟩, h₄⟩

end Parts

end S3s.Fs
