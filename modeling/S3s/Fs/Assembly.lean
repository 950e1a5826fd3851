import S3s.Fs.Rejections

/-! # What a completion puts together

The object of a completed upload is made of the listed parts, each of which stands under its number with the
checksums that are given for it. The ETag that is given for a part is not compared.
-/
namespace S3s.Fs
open LexicalPath Programs FileTree

section Listed

variable {fs : FileSystem} {disk : Tree Bytes UInt8} {u : Uuid} {total cnt : Int}
  {parts : List CompletedPart} {contents : List Bytes}

theorem FileSystem.ListedParts.length_eq (h : fs.ListedParts disk u total cnt parts contents) :
    contents.length = parts.length := by
  induction h with
  | nil cnt => rfl
  | cons _ _ ih => rw [List.length_cons, List.length_cons, ih]

/-- What stands at a place of the list. -/
theorem FileSystem.ListedParts.at (h : fs.ListedParts disk u total cnt parts contents) {i : Nat}
    {part : CompletedPart} {content : Bytes} (hpart : parts[i]? = some part)
    (hcontent : contents[i]? = some content) : fs.ListedPart disk u total (cnt + 1 + i) part content := by
  induction h generalizing i with
  | nil cnt => cases hpart
  | @cons cnt _ _ _ _ head tail ih =>
    cases i with
    | zero =>
      rw [List.getElem?_cons_zero] at hpart hcontent
      rw [← Option.some.inj hpart, ← Option.some.inj hcontent]
      simpa using head
    | succ i =>
      rw [List.getElem?_cons_succ] at hpart hcontent
      have hrest := ih hpart hcontent
      rwa [show cnt + 1 + ((i + 1 : Nat) : Int) = cnt + 1 + 1 + i by omega]

end Listed

section Assembling

variable (fs : FileSystem) {w w' : World}

/-- The stored ETag of a part. -/
def FileSystem.partETag (disk : Tree Bytes UInt8) (u : Uuid) (n : Int) : Option ETag :=
  ((fs.infoIn disk (.uploadPartInfo u n)).bind loadETag).map .strong

/-- Every ETag that is given for a part is the one that is stored of it. -/
def FileSystem.GivesStoredETags (disk : Tree Bytes UInt8) (input : CompleteMultipartUploadInput) : Prop :=
  ∀ u, fs.parseUuid input.uploadId = some u → ∀ part ∈ listedParts input, ∀ n etag,
    part.partNumber = some n → part.etag = some etag → fs.partETag disk u n = some etag

/-- The object that a completion makes is that of the listed parts. -/
structure FileSystem.Assembles (input : CompleteMultipartUploadInput) (output : CompleteMultipartUploadOutput)
    (disk disk' : Tree Bytes UInt8) (u : Uuid) (contents : List Bytes) : Prop where
  upload : fs.parseUuid input.uploadId = some u
  nonempty : listedParts input ≠ []
  length : contents.length = (listedParts input).length
  part : ∀ (i : Nat) part content, (listedParts input)[i]? = some part → contents[i]? = some content →
    fs.ListedPart disk u (listedParts input).length (i + 1) part content ∧
      ∀ etag, part.etag = some etag → fs.partETag disk u (i + 1) = some etag
  object : ∃ p m, fs.pathOf input.bucket input.key = some p ∧
    disk'.get p = some (.file contents.flatten m)
  etag : output.etag = .strong (fs.multipartETag contents)
  stored : (fs.infoIn disk' (.internalInfo input.bucket input.key)).bind loadETag =
    some (fs.multipartETag contents)

/-- The files of the store that a completion writes or takes away. -/
def FileSystem.CompletionFile (input : CompleteMultipartUploadInput) (f : StoreFile) : Prop :=
  fs.Concerns (.completeMultipartUpload input) f ∨ ∃ n, f = .temporary n

/-- What stands at a path that is none of some files of the store stays there. -/
theorem meets_keeping {α : Type} {p : Op α} {files : StoreFile → Prop} {q : List Bytes}
    (hp : p.Only (Call.Within (Area (fun _ => False) files)))
    (hq : ∀ f, files f ∨ (∃ n, f = .temporary n) → q ≠ [f.name]) (w : World) :
    p.Meets World.step w (fun _ w' => w'.disk.get q = w.disk.get q)
      fun _ w' => w'.disk.get q = w.disk.get q := by
  refine (@meets_frame _ _ _ (fun q' => q' = q) hp w none ?_).mono (fun _ _ h => h q rfl) fun _ _ h => h q rfl
  rintro t - _ rfl (⟨_, hnot, -⟩ | ⟨f, hf, hname⟩)
  · exact hnot
  · exact hq f hf hname

/-- What comes behind the object: its attributes and info are saved, and the upload is taken away. -/
theorem meets_committing {α : Type} (input : CompleteMultipartUploadInput) {u : Uuid}
    (hu : fs.parseUuid input.uploadId = some u) (attrs : Option ObjectAttributes) (info : InternalInfo)
    (a : α) {q : List Bytes} (hq : ∀ f, fs.CompletionFile input f → q ≠ [f.name]) :
    (do
      fs.saveUploadAttributes input.bucket input.key attrs
      fs.saveInternalInfo input.bucket input.key info
      fs.cleanup input.bucket input.key u (listedNumbers input)
      pure a : Op α).Meets World.step w
      (fun a' w' => a' = a ∧ w'.disk.get q = w.disk.get q ∧
        fs.infoIn w'.disk (.internalInfo input.bucket input.key) = some info) fun _ _ => True := by
  have hcleanup : (fs.cleanup input.bucket input.key u (listedNumbers input)).Only (Call.Within
      (Area (fun _ => False) (Leftover input.bucket input.key u (listedNumbers input)))) := by
    apply within_cleanup
    · rintro f (rfl | rfl)
      · exact Or.inr (Or.inr rfl)
      · exact Or.inl rfl
    · intro n hn
      exact ⟨Or.inr (Or.inl ⟨n, hn, Or.inl rfl⟩), Or.inr (Or.inl ⟨n, hn, Or.inr rfl⟩)⟩
  have hsidecar : ∀ f, Sidecar input.bucket input.key f ∨ (∃ n, f = .temporary n) → q ≠ [f.name] :=
    fun f hf => hq f (hf.imp_left Or.inl)
  have hleftover : ∀ f, Leftover input.bucket input.key u (listedNumbers input) f ∨
      (∃ n, f = .temporary n) → q ≠ [f.name] := fun f hf => hq f (hf.imp_left fun h => Or.inr ⟨u, hu, h⟩)
  refine (meets_keeping (within_saveUploadAttributes fs (Or.inl rfl) attrs) hsidecar w).bind ?_
    fun _ _ _ => trivial
  intro _ w₁ h₁
  refine ((meets_keeping (within_saveFile fs (Or.inr rfl) _) hsidecar w₁).and
    (meets_saveFile fs (.internalInfo input.bucket input.key) _)).bind ?_ fun _ _ _ => trivial
  rintro _ w₂ ⟨h₂, hsaved⟩
  refine ((meets_keeping hcleanup hleftover w₂).and
    (meets_keeping (q := [(StoreFile.internalInfo input.bucket input.key).name]) hcleanup ?_ w₂)).bind ?_
    fun _ _ _ => trivial
  · rintro f hf hname
    rw [← StoreFile.name_injective (List.head_eq_of_cons_eq hname)] at hf
    rcases hf with (h | ⟨n, -, h | h⟩ | h) | ⟨n, h⟩ <;> cases h
  · rintro _ w₃ ⟨h₃, hinfo⟩
    refine ⟨rfl, h₃.trans (h₂.trans h₁), ?_⟩
    rw [infoIn_congr fs hinfo]
    exact hsaved.infoIn fs

/-- The key of the object leads to none of these. -/
def FileSystem.Elsewhere (input : CompleteMultipartUploadInput) : Prop :=
  ∀ p f, fs.pathOf input.bucket input.key = some p → fs.CompletionFile input f → p ≠ [f.name]

/-- What a completion has done when it succeeds, whichever ETags are given for the parts. -/
theorem meets_completeMultipartUpload (input : CompleteMultipartUploadInput) (cred : Option Bytes)
    (hplace : fs.Elsewhere input) : (fs.completeMultipartUpload input cred).Meets World.step w
      (fun output w' => ∃ u contents, (fs.parseUuid input.uploadId = some u ∧ listedParts input ≠ [] ∧
        fs.ListedParts w.disk u (listedParts input).length 0 (listedParts input) contents) ∧
        (∃ p m, fs.pathOf input.bucket input.key = some p ∧
          w'.disk.get p = some (.file contents.flatten m)) ∧
        output.etag = .strong (fs.multipartETag contents) ∧
        (fs.infoIn w'.disk (.internalInfo input.bucket input.key)).bind loadETag =
          some (fs.multipartETag contents)) fun _ _ => True := by
  rw [completeMultipartUpload_eq]
  refine (meets_completionChecks input cred).bind ?_ fun _ _ _ => trivial
  rintro ⟨parts, u, attrs, p, hasher⟩ w₁ ⟨h₁, ⟨rfl, hnonempty⟩, hu, hp⟩
  refine (meets_writing fs p fun _ h => meets_assemble fs input u _ hasher h).bind ?_ fun _ _ _ => trivial
  rintro ⟨etag, checksum⟩ w₂ ⟨_, ⟨contents, hlisted, rfl, hvalue⟩, hplaced⟩
  obtain ⟨rfl, rfl⟩ := Prod.mk.inj hvalue
  obtain ⟨m, hget⟩ := hplaced.get
  rw [h₁.disk] at hlisted
  refine (meets_committing fs input hu attrs _ _ (hplace p · hp)).mono ?_ fun _ _ _ => trivial
  rintro _ w₃ ⟨rfl, hkept, hinfo⟩
  refine ⟨u, contents, ⟨hu, hnonempty, hlisted⟩, ⟨p, m, hp, ?_⟩, rfl, ?_⟩
  · rw [hkept, hget, if_pos rfl]
  · rw [hinfo, Option.bind_some, loadETag_modifyInternalInfo]

/-- A completion that succeeds makes the object that it should, if and only if each ETag that is given for a
part is the stored one. -/
theorem completed_assembles_iff {input : CompleteMultipartUploadInput} {cred : Option Bytes}
    {output : CompleteMultipartUploadOutput}
    (hrun : (fs.completeMultipartUpload input cred).run World.step w = (.ok output, w'))
    (hplace : fs.Elsewhere input) :
    (∃ u contents, fs.Assembles input output w.disk w'.disk u contents) ↔
      fs.GivesStoredETags w.disk input := by
  obtain ⟨u, contents, ⟨hu, hnonempty, hlisted⟩, hobject, hetag, hstored⟩ :=
    (meets_completeMultipartUpload fs input cred hplace).returned hrun
  constructor
  · rintro ⟨u, contents, h⟩ u' hu' part hpart n etag hn hgiven
    obtain rfl : u = u' := Option.some.inj (h.upload.symm.trans hu')
    obtain ⟨i, hi, rfl⟩ := List.mem_iff_getElem.mp hpart
    obtain ⟨hlisted, hetags⟩ := h.part i _ _ (List.getElem?_eq_getElem hi)
      (List.getElem?_eq_getElem (h.length ▸ hi))
    rw [Option.some.inj (hn.symm.trans hlisted.stored.number)]
    exact hetags etag hgiven
  · intro hgiven
    refine ⟨u, contents, hu, hnonempty, hlisted.length_eq, ?_, hobject, hetag, hstored⟩
    intro i part content hpart hcontent
    have hat := hlisted.at hpart hcontent
    rw [show (0 : Int) + 1 + i = i + 1 by omega] at hat
    exact ⟨hat, fun etag => hgiven u hu part (List.mem_of_getElem? hpart) (i + 1) etag hat.stored.number⟩

end Assembling

section Samples

/-- The completion of an upload of one part, for which an ETag is given. -/
def completionGiving (etag : ETag) : CompleteMultipartUploadInput :=
  ⟨ascii "pics", ascii "a", sampleId.text, some (some [⟨some 1, some etag, fun _ => none⟩]), none, none,
    fun _ => none, none⟩

theorem sampleId_of_parse {u : Uuid} (h : uploadStore.parseUuid sampleId.text = some u) : u = sampleId := by
  rw [uploadStore.parseUuid_text] at h
  exact (Option.some.inj h).symm

set_option maxRecDepth 100000 in
theorem partETag_behind :
    uploadStore.partETag (behind [asksUpload, asksPart 1]).disk sampleId 1 = some (.strong []) := by
  decide +kernel

set_option maxRecDepth 100000 in
/-- The completion for which the stored ETag is given makes the object. -/
theorem completed_assembles_iff_stored : ∃ (output : CompleteMultipartUploadOutput) (w' : World) (u : Uuid)
    (contents : List Bytes),
    uploadStore.Assembles (completionGiving (.strong [])) output (behind [asksUpload, asksPart 1]).disk
      w'.disk u contents := by
  have hsuccess : ((uploadStore.completeMultipartUpload (completionGiving (.strong [])) (some [97])).run
      World.step (behind [asksUpload, asksPart 1])).1.isOk = true := by decide +kernel
  obtain ⟨output, w', hrun⟩ := eq_ok_of_isOk hsuccess
  have hplace : uploadStore.Elsewhere (completionGiving (.strong [])) := by
    rintro p f hp - rfl
    obtain ⟨rest, hrest, hcons⟩ := stays_pics _ hp
    exact hrest (List.cons.inj hcons).2.symm
  have hgives : uploadStore.GivesStoredETags (behind [asksUpload, asksPart 1]).disk
      (completionGiving (.strong [])) := by
    intro u hu part hpart n etag hn hetag
    rw [sampleId_of_parse hu]
    obtain rfl : part = ⟨some 1, some (.strong []), fun _ => none⟩ := List.mem_singleton.mp hpart
    rw [← Option.some.inj hn, ← Option.some.inj hetag]
    exact partETag_behind
  exact ⟨output, w', (completed_assembles_iff uploadStore hrun hplace).mpr hgives⟩

set_option maxRecDepth 100000 in
/-- A completion succeeds with an ETag that is not that of the part. -/
theorem completed_with_wrong_etag : ∃ output w',
    (uploadStore.completeMultipartUpload (completionGiving (.strong (ascii "wrong"))) (some [97])).run
      World.step (behind [asksUpload, asksPart 1]) = (.ok output, w') ∧
    ∀ u contents, ¬uploadStore.Assembles (completionGiving (.strong (ascii "wrong"))) output
      (behind [asksUpload, asksPart 1]).disk w'.disk u contents := by
  have hsuccess : ((uploadStore.completeMultipartUpload (completionGiving (.strong (ascii "wrong")))
      (some [97])).run World.step (behind [asksUpload, asksPart 1])).1.isOk = true := by decide +kernel
  obtain ⟨output, w', hrun⟩ := eq_ok_of_isOk hsuccess
  refine ⟨output, w', hrun, fun u contents h => ?_⟩
  obtain ⟨content, hcontent⟩ : ∃ content, contents[0]? = some content :=
    ⟨_, List.getElem?_eq_getElem (h.length ▸ Nat.one_pos)⟩
  have hetag := (h.part 0 _ content rfl hcontent).2 _ rfl
  rw [sampleId_of_parse h.upload] at hetag
  exact absurd (partETag_behind.symm.trans hetag) (by decide)

end Samples

end S3s.Fs
