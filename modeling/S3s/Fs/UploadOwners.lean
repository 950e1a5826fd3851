import S3s.Fs.Steps
import S3s.Fs.PartRuns

/-! # Who an upload belongs to

The history of a run says which uploads are open, and who created them. In every run of ordinary
requests the records in the store say nothing else, so that what is done with an upload is done by the
one who created it. Neither the listing of parts nor the bucket and the key of an upload are checked.
-/
namespace S3s.Fs
open LexicalPath Programs FileTree Routing

variable (fs : FileSystem)

/-- The open uploads, with the identity that created each. -/
abbrev Opens := Uuid → Option (Option Bytes)

/-- The upload with this id is open no more. -/
def Opens.close (opens : Opens) (uploadId : Option Uuid) : Opens :=
  fun u => if uploadId = some u then none else opens u

/-- What a request makes of the open uploads: one is open from its creation on, and up to its completion
or its abortion. -/
def FileSystem.opensBehind (opens : Opens) (r : Asked) (x : Except Failure Response) : Opens :=
  match r, x with
  | (cred, .createMultipartUpload _ drawn), .ok _ => fun u => if drawn = u then some cred else opens u
  | (_, .completeMultipartUpload input), .ok (.completed _) => opens.close (fs.parseUuid input.uploadId)
  | (_, .abortMultipartUpload _ _ uploadId), .ok _ => opens.close (fs.parseUuid uploadId)
  | _, _ => opens

/-- The store and the history behind a request. -/
def FileSystem.nextOpens (s : World × Opens) (r : Asked) : World × Opens :=
  ((fs.serve r.1 r.2 s.1).2, fs.opensBehind s.2 r (fs.serve r.1 r.2 s.1).1)

/-- The upload that a request works on, when it looks at its record. -/
def FileSystem.uploadOf : Request → Option Uuid
  | .uploadPart input _ => fs.parseUuid input.uploadId
  | .uploadPartCopy input => fs.parseUuid input.uploadId
  | .completeMultipartUpload input => fs.parseUuid input.uploadId
  | .abortMultipartUpload _ _ uploadId => fs.parseUuid uploadId
  | _ => none

/-- Whether a request works on an upload: on its parts, or to end it. -/
def Request.WorksOnUpload : Request → Prop
  | .uploadPart _ _ => True
  | .uploadPartCopy _ => True
  | .completeMultipartUpload _ => True
  | .abortMultipartUpload _ _ _ => True
  | _ => False

section Succeeding

variable {fs} {w : World} {cred : Option Bytes}

theorem meets_true {α : Type} (p : Op α) (w : World) :
    p.Meets World.step w (fun _ _ => True) fun _ _ => True := by
  unfold Prog.Meets
  rcases p.run World.step w with ⟨_ | _, w'⟩ <;> trivial

/-- Behind the check of the record. -/
theorem meets_openUpload_bind {α : Type} {uploadId : Bytes} {next : Uuid → Op α} {w₁ : World}
    (h₁ : w.Same w₁) : (fs.openUpload cred uploadId >>= next).Meets World.step w₁
      (fun _ _ => ∃ u, fs.parseUuid uploadId = some u ∧ fs.Recorded w.disk u cred) fun _ _ => True := by
  refine (meets_openUpload fs cred uploadId).bind ?_ fun _ _ _ => trivial
  rintro u w₂ ⟨-, hparse, hrecord⟩
  rw [h₁.disk] at hrecord
  exact (meets_true (next u) w₂).mono (fun _ _ _ => ⟨u, hparse, hrecord⟩) fun _ _ _ => trivial

theorem recorded_of_alone {α : Type} {p : Op α} {f : α → Response} {P : Prop}
    (h : p.Meets World.step w (fun _ _ => P) fun _ _ => True)
    (hok : (alone p f w).1.isOk = true) : P := by
  have hcases := alone_of_meets (f := f) (D := fun x _ => x.isOk = true → P)
    (h.mono (fun _ _ hP _ => hP) fun _ _ _ hfalse => Bool.noConfusion hfalse)
  exact hcases hok

/-- What succeeds with an upload finds a record that names the caller. -/
theorem recorded_of_ok {r : Request} (hr : r.WorksOnUpload) (hok : (fs.serve cred r w).1.isOk = true) :
    ∃ u, fs.uploadOf r = some u ∧ fs.Recorded w.disk u cred := by
  cases r with
  | uploadPart input trailers =>
    refine recorded_of_alone (p := fs.uploadPart input cred trailers) ?_ hok
    refine (meets_of_reads (only_require _ _) w).bind ?_ fun _ _ _ => trivial
    intro _ w₁ h₁
    refine (meets_of_reads (only_demand _ _) w₁).bind ?_ fun _ _ _ => trivial
    intro _ w₂ h₂
    exact meets_openUpload_bind (h₁.trans h₂)
  | uploadPartCopy input =>
    exact recorded_of_alone (p := fs.uploadPartCopy input cred) (meets_openUpload_bind (.refl w)) hok
  | completeMultipartUpload input =>
    refine recorded_of_alone (p := fs.completeMultipartUpload input cred) ?_ hok
    refine (meets_of_reads (only_demand _ _) w).bind ?_ fun _ _ _ => trivial
    intro _ w₁ h₁
    refine (meets_of_reads (only_require _ _) w₁).bind ?_ fun _ _ _ => trivial
    intro _ w₂ h₂
    exact meets_openUpload_bind (h₁.trans h₂)
  | abortMultipartUpload bucket key uploadId =>
    exact recorded_of_alone (p := fs.abortMultipartUpload bucket key uploadId cred)
      (meets_openUpload_bind (.refl w)) hok
  | _ => exact hr.elim

end Succeeding

section Histories

variable {fs} {disk disk' : Tree Bytes UInt8}

/-- Every record in the store is that of an open upload, and names the one who created it. -/
def FileSystem.RecordsOpen (fs : FileSystem) (disk : Tree Bytes UInt8) (opens : Opens) : Prop :=
  ∀ u cred, fs.Recorded disk u cred → opens u = some cred

theorem recorded_congr {u : Uuid} {cred : Option Bytes}
    (h : disk'.get [(StoreFile.uploadInfo u).name] = disk.get [(StoreFile.uploadInfo u).name]) :
    fs.Recorded disk' u cred ↔ fs.Recorded disk u cred := by
  rw [FileSystem.Recorded, FileSystem.Recorded, h]

/-- The record of a new upload names the one who created it. -/
theorem FileSystem.Created.recorded {input : CreateMultipartUploadInput} {cred cred' : Option Bytes}
    {u : Uuid} (h : fs.Created input cred u disk disk') (hrecord : fs.Recorded disk' u cred') :
    cred' = cred := by
  obtain ⟨t, hwrites, hattributes⟩ := h
  obtain ⟨content, m, hfile, hread⟩ := hrecord
  rw [hattributes.get_file fun h => StoreFile.noConfusion h] at hfile
  obtain ⟨m', hget⟩ := hwrites.get_self
  obtain ⟨rfl, -⟩ : fs.accessKey.toVec cred = content ∧ m' = m := by simpa [hget] using hfile
  rw [fs.accessKey.fromSlice_toVec] at hread
  exact (Option.some.inj hread).symm

theorem FileSystem.RecordsOpen.close {opens : Opens} {u : Uuid} (h : fs.RecordsOpen disk opens)
    (hgone : disk'.get [(StoreFile.uploadInfo u).name] = none)
    (hrest : ∀ u', u' ≠ u → disk'.get [(StoreFile.uploadInfo u').name] =
      disk.get [(StoreFile.uploadInfo u').name]) : fs.RecordsOpen disk' (opens.close (some u)) := by
  intro u' cred hrecord
  have hne : u' ≠ u := by
    rintro rfl
    obtain ⟨content, m, hfile, -⟩ := hrecord
    rw [hgone] at hfile
    cases hfile
  rw [Opens.close, if_neg fun h => hne (Option.some.inj h).symm]
  exact h u' cred ((recorded_congr (hrest u' hne)).mp hrecord)

theorem not_remains_record {bucket key : Bytes} {u u' : Uuid} (hne : u' ≠ u) :
    ¬Remains bucket key u [(StoreFile.uploadInfo u').name] := by
  rintro (h | ⟨name, hname, hq⟩)
  · rcases at_name.mp h with h | h
    · injection h with h
      exact hne h
    · cases h
  · rw [← List.head_eq_of_cons_eq hq, isResidue_uploadInfo] at hname
    cases hname

theorem not_leftover_record {bucket key : Bytes} {u u' : Uuid} {ns : List Int} (hne : u' ≠ u) :
    ¬Leftover bucket key u ns (.uploadInfo u') := by
  rintro (h | ⟨n, -, h | h⟩ | h)
  · cases h
  · cases h
  · cases h
  · injection h with h
    exact hne h

/-- One request keeps the records true to the history. -/
theorem FileSystem.Does.recordsOpen {cred : Option Bytes} {r : Request} {x : Except Failure Response}
    {opens : Opens} (h : fs.Does cred disk disk' r x) (hr : fs.OrdinaryRequest r)
    (hopens : fs.RecordsOpen disk opens) : fs.RecordsOpen disk' (fs.opensBehind opens (cred, r) x) := by
  have hframe (hrest : ∀ u, ¬fs.Concerns r (.uploadInfo u)) : fs.RecordsOpen disk' opens :=
    fun u cred' hrecord => hopens u cred' ((recorded_congr (h.get_file hr (hrest u))).mp hrecord)
  have hnumbered (id : Option Uuid) (n : Int) (u : Uuid) :
      ¬∃ u', id = some u' ∧ Numbered u' [n] (.uploadInfo u) := by
    rintro ⟨u', -, m, -, h | h⟩ <;> cases h
  have hsidecar (bucket key : Bytes) (u : Uuid) : ¬Sidecar bucket key (.uploadInfo u) := by
    rintro (h | h) <;> cases h
  cases r with
  | createMultipartUpload input drawn =>
    cases x with
    | error e => exact fun u cred' hrecord => hopens u cred' ((recorded_congr (h _)).mp hrecord)
    | ok response =>
      intro u cred' hrecord
      show (if drawn = u then some cred else opens u) = some cred'
      by_cases hu : drawn = u
      · subst hu
        have hcreated : fs.Created input cred drawn disk disk' := h
        rw [if_pos rfl, hcreated.recorded hrecord]
      · rw [if_neg hu]
        refine hopens u cred' ((recorded_congr (h.get_file hr ?_)).mp hrecord)
        rintro (hf | hf)
        · injection hf with hf
          exact hu hf.symm
        · cases hf
  | completeMultipartUpload input =>
    cases x with
    | error e => exact fun u cred' hrecord => hopens u cred' ((recorded_congr (h _)).mp hrecord)
    | ok response =>
      cases response with
      | completed output =>
        obtain ⟨u, hu, -, hcompleted⟩ := h
        show fs.RecordsOpen disk' (opens.close (fs.parseUuid input.uploadId))
        rw [hu]
        refine hopens.close ?_ fun u' hne =>
          hcompleted.get_file hr (hsidecar _ _ u') (not_leftover_record hne)
        obtain ⟨_, _, _, _, _, _, -, -, -, -, -, -, -, hwipes⟩ := hcompleted
        exact hwipes.gone _ (at_name.mpr (Or.inr (Or.inr rfl)))
      | _ => exact fun u cred' hrecord => hopens u cred' ((recorded_congr (h _)).mp hrecord)
  | abortMultipartUpload bucket key uploadId =>
    cases x with
    | error e => exact fun u cred' hrecord => hopens u cred' ((recorded_congr (h _)).mp hrecord)
    | ok response =>
      obtain ⟨u, hu, -, hwipes⟩ := h
      show fs.RecordsOpen disk' (opens.close (fs.parseUuid uploadId))
      rw [hu]
      refine hopens.close ?_ fun u' hne => hwipes.rest _ (not_remains_record hne)
      exact hwipes.gone _ (Or.inl (at_name.mpr (Or.inl rfl)))
  | uploadPart input trailers => exact hframe fun u => hnumbered _ _ u
  | uploadPartCopy input => exact hframe fun u => hnumbered _ _ u
  | putObject input trailers => exact hframe fun u => hsidecar _ _ u
  | copyObject input => exact hframe fun u => hsidecar _ _ u
  | _ => exact hframe fun u hf => hf

/-- In every run of ordinary requests, from a store without uploads, what succeeds with an upload is asked
by the one who created it, and the upload is open. -/
theorem opened_by_creator {start : World} (hstart : Orderly start.disk)
    (hnone : ∀ u, start.disk.get [(StoreFile.uploadInfo u).name] = none) {s : World × Opens}
    (hreach : Reaches fs.nextOpens (fun _ r => fs.OrdinaryRequest r.2) (start, fun _ => none) s)
    (cred : Option Bytes) {r : Request} (hr : r.WorksOnUpload)
    (hok : (fs.serve cred r s.1).1.isOk = true) : ∃ u, fs.uploadOf r = some u ∧ s.2 u = some cred := by
  have hinv : Orderly s.1.disk ∧ fs.RecordsOpen s.1.disk s.2 := by
    refine hreach.invariant (I := fun s => Orderly s.1.disk ∧ fs.RecordsOpen s.1.disk s.2)
      ⟨hstart, fun u cred' hrecord => ?_⟩ ?_
    · obtain ⟨content, m, hfile, -⟩ := hrecord
      rw [hnone] at hfile
      cases hfile
    · rintro s ⟨cred', r'⟩ ⟨hw, hopens⟩ hordinary
      have hdoes := serve_does fs cred' hw r' hordinary
      exact ⟨hdoes.orderly hordinary hw, hdoes.recordsOpen hordinary hopens⟩
  obtain ⟨u, hu, hrecord⟩ := recorded_of_ok hr hok
  exact ⟨u, hu, hinv.2 u cred hrecord⟩

end Histories

section Samples

/-- The history of a run from an empty store. -/
noncomputable def historyOf (run : List Asked) : World × Opens :=
  run.foldl uploadStore.nextOpens (World.empty, fun _ => none)

theorem reaches_historyOf_part : Reaches uploadStore.nextOpens (fun _ r => uploadStore.OrdinaryRequest r.2)
    (World.empty, fun _ => none) (historyOf [asksUpload, asksPart 1]) := by
  have hcreated : Reaches uploadStore.nextOpens (fun _ r => uploadStore.OrdinaryRequest r.2)
      (World.empty, fun _ => none) (historyOf [asksUpload]) := Reaches.start.next trivial
  exact hcreated.next (a := asksPart 1) trivial

set_option maxRecDepth 100000 in
theorem opened_by_creator_sample : ∃ u, uploadStore.uploadOf asksCompletion.2 = some u ∧
    (historyOf [asksUpload, asksPart 1]).2 u = some (some [97]) :=
  opened_by_creator orderly_empty (fun _ => rfl) reaches_historyOf_part (some [97])
    (r := asksCompletion.2) trivial (by decide +kernel)

/-- The completion for another key than the one that the upload was created for. -/
def asksCompletionElsewhere : Asked :=
  (some [97], .completeMultipartUpload ⟨ascii "pics", ascii "b", sampleId.text,
    some (some [⟨some 1, none, fun _ => none⟩]), none, none, fun _ => none, none⟩)

/-- An object that is written over the record of an upload, which is not open. -/
def asksForgery : Asked :=
  (some [97], .putObject ⟨ascii "pics", ascii "../" ++ (StoreFile.uploadInfo sampleId).name,
    some [.ok [3]], none, none, none, .default, none, none, fun _ => none, none⟩ none)

set_option maxRecDepth 100000 in
/-- The parts are listed for another identity, they make an object under another key, and there can be a
record without an upload. -/
theorem uploads_not_guarded :
    ((historyOf [asksUpload, asksPart 1]).2 sampleId = some (some [97]) ∧
      (uploadStore.serve (some [98]) (.listParts (ascii "pics") (ascii "a") sampleId.text)
        (historyOf [asksUpload, asksPart 1]).1).1.isOk = true) ∧
    (uploadStore.serve (some [97]) asksCompletionElsewhere.2
      (historyOf [asksUpload, asksPart 1]).1).1.isOk = true ∧
    (historyOf [asksForgery]).2 sampleId = none ∧
      (uploadStore.serve (some [97]) (asksPart 1).2 (historyOf [asksForgery]).1).1.isOk = true := by
  decide +kernel

end Samples

end S3s.Fs
