import S3s.Fs.ObjectOutcomes

/-! # What copying an object does

A copy is placed like an object that is written, and described by what is known of the source. A copy
that fails may have made the directories of its destination.
-/
namespace S3s.Fs
open LexicalPath Programs FileTree Routing

section Files

variable {w : World}

theorem meets_ite {α : Type} {c : Prop} [Decidable c] {p q : Op α} {Q : α → World → Prop}
    {E : Failure → World → Prop} (hp : c → p.Meets World.step w Q E) (hq : ¬c → q.Meets World.step w Q E) :
    (if c then p else q).Meets World.step w Q E := by
  split
  · next h => exact hp h
  · next h => exact hq h

theorem meets_setModified (p : List Bytes) (m : Nat) :
    (io (.setModified p m)).Meets World.step w
      (fun _ w' => ∃ content m', w.disk.get p = some (.file content m') ∧ Writes w.disk w'.disk p content)
      fun _ w' => w.Same w' ∧ ¬Entry.IsFile (w.disk.get p) := by
  rw [meets_io]
  simp only [Tree.answer]
  cases hget : w.disk.get p with
  | none =>
    have hcontent : w.disk.content p = .error (w.disk.missing p) := by simp [Tree.content, hget]
    simp only [hcontent, bind, Except.bind, Tree.commit]
    exact ⟨w.same_tick, fun h => h⟩
  | some e =>
    cases e with
    | dir =>
      have hcontent : w.disk.content p = .error .isADirectory := by simp [Tree.content, hget]
      simp only [hcontent, bind, Except.bind, Tree.commit]
      exact ⟨w.same_tick, fun h => h⟩
    | file content m' =>
      have hcontent : w.disk.content p = .ok (content, m') := by simp [Tree.content, hget]
      obtain ⟨t, hwrite, hget'⟩ := Tree.writeFile_of_holds (Tree.holds_of_file hget) content m
      simp only [hcontent, bind, Except.bind, hwrite, Tree.commit]
      exact ⟨content, m', rfl, m, hget'⟩

/-- A file copied to another path, in a directory. -/
theorem meets_copy {src dst : List Bytes} (hne : src ≠ dst) (hnil : dst ≠ [])
    (hparent : w.disk.get dst.dropLast = some .dir) :
    (io (.copy src dst)).Meets World.step w
      (fun _ w' => ∃ content m, w.disk.get src = some (.file content m) ∧ w.disk.get dst ≠ some .dir ∧
        Writes w.disk w'.disk dst content)
      fun _ w' => w.Same w' ∧ (¬Entry.IsFile (w.disk.get src) ∨ w.disk.get dst = some .dir) := by
  rw [meets_io]
  simp only [Tree.answer]
  cases hget : w.disk.get src with
  | none =>
    have hcontent : w.disk.content src = .error (w.disk.missing src) := by simp [Tree.content, hget]
    simp only [hcontent, bind, Except.bind, Tree.commit]
    exact ⟨w.same_tick, Or.inl fun h => h⟩
  | some e =>
    cases e with
    | dir =>
      have hcontent : w.disk.content src = .error .isADirectory := by simp [Tree.content, hget]
      simp only [hcontent, bind, Except.bind, Tree.commit]
      exact ⟨w.same_tick, Or.inl fun h => h⟩
    | file content m =>
      have hcontent : w.disk.content src = .ok (content, m) := by simp [Tree.content, hget]
      simp only [hcontent, bind, Except.bind, if_neg hne]
      by_cases hdir : w.disk.get dst = some .dir
      · have hfails : w.disk.writeFile dst content w.around.now = .error .isADirectory := by
          have hnot : ¬w.disk.Holds dst := fun h => h.not_dir hdir
          rw [Tree.writeFile, dif_neg hnot, if_pos hdir]
        simp only [hfails, Tree.commit]
        exact ⟨w.same_tick, Or.inr hdir⟩
      · obtain ⟨t, hwrite, hget'⟩ := Tree.writeFile_of_holds (t := w.disk) ⟨hnil, hparent, hdir⟩ content
          w.around.now
        simp only [hwrite, Tree.commit]
        exact ⟨content, m, rfl, hdir, _, hget'⟩

theorem meets_openObject (p : List Bytes) :
    (openObject p).Meets World.step w (fun file w' => w.Same w' ∧ w.disk.get p = some file)
      fun _ w' => w.Same w' ∧ w.disk.get p = none := by
  refine (meets_tryIo (c := .open p) (Q := fun x w' => w.Same w' ∧ x = w.disk.find p) |>.mpr
    ⟨w.same_tick, rfl⟩).bind ?_ fun _ _ h => h
  rintro x w₁ ⟨h₁, rfl⟩
  unfold Tree.find
  cases w.disk.get p with
  | none => exact ⟨h₁, rfl⟩
  | some file => exact ⟨h₁, rfl⟩

end Files

section ETags

variable (fs : FileSystem) {w : World}

theorem meets_getMd5Sum (bucket key : Bytes) :
    (fs.getMd5Sum bucket key).Meets World.step w
      (fun etag w' => w.Same w' ∧ ∃ p content m, fs.pathOf bucket key = some p ∧
        w.disk.get p = some (.file content m) ∧ etag = fs.md5Sum content)
      fun _ w' => w.Same w' ∧ ∀ p, fs.pathOf bucket key = some p → ¬Entry.IsFile (w.disk.get p) := by
  rw [FileSystem.getMd5Sum, getObjectPath_eq]
  cases hpath : fs.pathOf bucket key with
  | none => exact ⟨.refl w, fun p hp => by cases hp⟩
  | some p =>
    refine (meets_read p).bind ?_ ?_
    · rintro content w₁ ⟨h₁, m, hfile⟩
      exact ⟨h₁, p, content, m, rfl, hfile, rfl⟩
    · rintro _ w₁ ⟨h₁, -, hfile⟩
      refine ⟨h₁, fun q hq => ?_⟩
      rwa [← Option.some.inj hq]

/-- An ETag that is known, or that of the content. -/
def FileSystem.Learns (disk : Tree Bytes UInt8) (bucket key : Bytes) (known learnt : Option Bytes) : Prop :=
  learnt = known ∨ known = none ∧ ∃ p content m, fs.pathOf bucket key = some p ∧
    disk.get p = some (.file content m) ∧ learnt = some (fs.md5Sum content)

/-- What is learnt is the ETag of the file that is there. -/
theorem FileSystem.Learns.getD {fs : FileSystem} {disk : Tree Bytes UInt8} {bucket key : Bytes}
    {known learnt : Option Bytes} (h : fs.Learns disk bucket key known learnt) {p : List Bytes}
    {content : Bytes} {m : Nat} (hp : fs.pathOf bucket key = some p)
    (hfile : disk.get p = some (.file content m)) :
    learnt.getD (fs.md5Sum content) = known.getD (fs.md5Sum content) := by
  rcases h with rfl | ⟨rfl, p', content', m', hp', hfile', rfl⟩
  · rfl
  · obtain rfl : p = p' := Option.some.inj (hp.symm.trans hp')
    obtain ⟨rfl, -⟩ : content = content' ∧ m = m' := by simpa [hfile] using hfile'
    rfl

theorem FileSystem.Learns.trans {fs : FileSystem} {disk : Tree Bytes UInt8} {bucket key : Bytes}
    {known learnt learnt' : Option Bytes} (h : fs.Learns disk bucket key known learnt)
    (h' : fs.Learns disk bucket key learnt learnt') : fs.Learns disk bucket key known learnt' := by
  rcases h with rfl | ⟨rfl, hlearnt⟩
  · exact h'
  · rcases h' with rfl | ⟨-, hlearnt'⟩
    · exact Or.inr ⟨rfl, hlearnt⟩
    · exact Or.inr ⟨rfl, hlearnt'⟩

theorem meets_sourceETag (bucket key : Bytes) (known : Option Bytes) :
    (fs.sourceETag bucket key known).Meets World.step w
      (fun etag w' => w.Same w' ∧ fs.Learns w.disk bucket key known (some etag))
      fun _ w' => w.Same w' ∧ ∀ p, fs.pathOf bucket key = some p → ¬Entry.IsFile (w.disk.get p) := by
  cases known with
  | some etag => exact ⟨.refl w, Or.inl rfl⟩
  | none =>
    refine (meets_getMd5Sum fs bucket key).mono ?_ fun _ _ h => h
    rintro etag w' ⟨hsame, p, content, m, hp, hfile, rfl⟩
    exact ⟨hsame, Or.inr ⟨rfl, p, content, m, hp, hfile, rfl⟩⟩

/-- Behind an ETag that is required to be as asked. -/
theorem meets_learns {bucket key : Bytes} {known : Option Bytes} (asked : Bytes → Bool) :
    (fs.sourceETag bucket key known >>= fun etag => require (asked etag) (bare .preconditionFailed) >>=
      fun _ => (pure (some etag) : Op (Option Bytes))).Meets World.step w
      (fun learnt w' => w.Same w' ∧ fs.Learns w.disk bucket key known learnt) fun _ w' => w.Same w' := by
  refine (meets_sourceETag fs bucket key known).bind ?_ fun _ _ h => h.1
  rintro etag w₁ ⟨h₁, hlearns⟩
  rw [meets_bind, meets_require]
  cases asked etag with
  | true => exact ⟨h₁, hlearns⟩
  | false => exact h₁

theorem meets_keeps {bucket key : Bytes} {known : Option Bytes} (asked : Bool) :
    (require asked (bare .preconditionFailed) >>= fun _ => (pure known : Op (Option Bytes))).Meets
      World.step w (fun learnt w' => w.Same w' ∧ fs.Learns w.disk bucket key known learnt)
      fun _ w' => w.Same w' := by
  rw [meets_bind, meets_require]
  cases asked with
  | true => exact ⟨.refl w, Or.inl rfl⟩
  | false => exact .refl w

theorem meets_checkSourceMatch (input : CopyObjectInput) (bucket key : Bytes) (lastModified : Nat)
    (known : Option Bytes) : (fs.checkSourceMatch input bucket key lastModified known).Meets World.step w
      (fun learnt w' => w.Same w' ∧ fs.Learns w.disk bucket key known learnt) fun _ w' => w.Same w' := by
  rw [FileSystem.checkSourceMatch]
  cases input.copySourceIfMatch with
  | none => exact meets_keeps fs _
  | some condition => exact meets_learns fs _

theorem meets_checkSourceNoneMatch (input : CopyObjectInput) (bucket key : Bytes) (lastModified : Nat)
    (known : Option Bytes) :
    (fs.checkSourceNoneMatch input bucket key lastModified known).Meets World.step w
      (fun learnt w' => w.Same w' ∧ fs.Learns w.disk bucket key known learnt) fun _ w' => w.Same w' := by
  rw [FileSystem.checkSourceNoneMatch]
  cases input.copySourceIfNoneMatch with
  | none => exact meets_keeps fs _
  | some condition => exact meets_learns fs _

end ETags

section Copy

variable (fs : FileSystem) {w : World}

/-- Directories alone come to be. -/
def DugAbove (disk disk' : Tree Bytes UInt8) (p : List Bytes) : Prop :=
  Alike disk disk' ∨ Digs disk disk' p.dropLast

/-- The content of the source at the destination. -/
theorem meets_copyData {srcPath dstPath : List Bytes} (hnil : dstPath ≠ []) :
    (copyData srcPath dstPath).Meets World.step w
      (fun _ w' => ∃ content m, w.disk.get srcPath = some (.file content m) ∧
        Places w.disk w'.disk dstPath content)
      fun _ w' => DugAbove w.disk w'.disk dstPath := by
  refine (meets_createDirAll dstPath.dropLast).bind ?_ fun _ _ h => Or.inl (alike_of_same h.1)
  rintro _ _ ⟨t, hdirs, rfl⟩
  have hdigs : Digs w.disk t dstPath.dropLast := digs_of_createDirAll hdirs
  have hfile {content : Bytes} {m : Nat} (h : t.get srcPath = some (.file content m)) :
      w.disk.get srcPath = some (.file content m) := by
    rw [hdigs.get] at h
    by_cases hprefix : srcPath <+: dstPath.dropLast
    · rw [if_pos hprefix] at h
      cases h
    · rwa [if_neg hprefix] at h
  have hdst : w.disk.get dstPath = t.get dstPath := by
    rw [hdigs.get, if_neg (not_prefix_dropLast hnil)]
  by_cases hself : srcPath = dstPath
  · rw [if_pos hself]
    refine (show (systemNow).Meets World.step (w.tick t) (fun _ w' => w'.disk = t) fun _ _ => False from rfl).bind
      ?_ fun _ _ h => h.elim
    intro now w₁ h₁
    refine (meets_setModified dstPath now).bind ?_ ?_
    · rintro _ w₂ ⟨content, m, hget, hwrites⟩
      rw [h₁] at hget hwrites
      refine ⟨content, m, hfile (hself ▸ hget), ?_, t, hdigs, hwrites⟩
      rw [hdst, hget]
      simp
    · rintro _ w₂ ⟨h₂, -⟩
      rw [DugAbove, h₂.disk, h₁]
      exact Or.inr hdigs
  · rw [if_neg hself]
    have hparent : (w.tick t).disk.get dstPath.dropLast = some .dir := by
      rw [World.tick_disk, hdigs.get, if_pos List.prefix_rfl]
    refine (meets_copy hself hnil hparent).bind ?_ ?_
    · rintro _ w₁ ⟨content, m, hget, hnotDir, hwrites⟩
      have hplaces : Places w.disk w₁.disk dstPath content := ⟨by rwa [hdst], t, hdigs, hwrites⟩
      refine (meets_metadata dstPath).bind ?_ ?_
      · rintro stat w₂ ⟨h₂, -⟩
        refine ⟨content, m, hfile hget, ?_⟩
        rwa [h₂.disk]
      · rintro _ w₂ ⟨-, -, hnone⟩
        obtain ⟨m', hself'⟩ := hwrites.get_self
        rw [hself'] at hnone
        cases hnone
    · rintro _ w₁ ⟨h₁, -⟩
      rw [DugAbove, h₁.disk]
      exact Or.inr hdigs

/-- The attributes of the copy: those of the request, those of the source, or what there was. -/
def FileSystem.AttributesCopied (input : CopyObjectInput) (bucket key : Bytes)
    (disk disk' : Tree Bytes UInt8) : Prop :=
  if input.metadataDirective = some (ascii "REPLACE") then
    Writes disk disk' [(StoreFile.metadata input.bucket input.key none).name]
      (fs.attributes.toVec ⟨input.attributes, none, none⟩)
  else if disk.get [(StoreFile.metadata bucket key none).name] = none ∨
      bucket = input.bucket ∧ key = input.key then Alike disk disk'
  else ∃ content m, disk.get [(StoreFile.metadata bucket key none).name] = some (.file content m) ∧
    Writes disk disk' [(StoreFile.metadata input.bucket input.key none).name] content

theorem metadata_path_eq_iff {bucket key bucket' key' : Bytes} :
    [(StoreFile.metadata bucket key none).name] = [(StoreFile.metadata bucket' key' none).name] ↔
      bucket = bucket' ∧ key = key' := by
  constructor
  · intro h
    have hfile := StoreFile.name_injective (List.head_eq_of_cons_eq h)
    injection hfile with hbucket hkey
    exact ⟨hbucket, hkey⟩
  · rintro ⟨rfl, rfl⟩
    rfl

theorem meets_copyAttributes (input : CopyObjectInput) (bucket key : Bytes) (hw : Orderly w.disk) :
    (fs.copyAttributes input bucket key).Meets World.step w
      (fun _ w' => fs.AttributesCopied input bucket key w.disk w'.disk) fun _ _ => False := by
  rw [FileSystem.copyAttributes]
  by_cases hreplace : input.metadataDirective = some (ascii "REPLACE")
  · rw [if_pos (beq_iff_eq.mpr hreplace)]
    refine (meets_save fs hw _ _).mono ?_ fun _ _ h => h
    intro _ w' h
    rwa [FileSystem.AttributesCopied, if_pos hreplace]
  · rw [if_neg (fun h => hreplace (beq_iff_eq.mp h)), getStorePath_eq, ret_bind]
    refine (meets_pathExists _).bind ?_ fun _ _ h => h.elim
    rintro present w₁ ⟨h₁, hpresent⟩
    rw [← h₁.disk] at hw hpresent ⊢
    cases present with
    | false =>
      have hnone : w₁.disk.get [(StoreFile.metadata bucket key none).name] = none := by
        simpa using hpresent.symm
      show fs.AttributesCopied input bucket key w₁.disk w₁.disk
      rw [FileSystem.AttributesCopied, if_neg hreplace, if_pos (Or.inl hnone)]
      exact fun _ => rfl
    | true =>
      obtain ⟨e, he⟩ := Option.isSome_iff_exists.mp hpresent.symm
      rw [if_pos rfl, getStorePath_eq, ret_bind]
      refine meets_ite ?_ ?_
      · intro hne
        have hself : ¬(bucket = input.bucket ∧ key = input.key) := fun h => hne (metadata_path_eq_iff.mpr h)
        have hroot : w₁.disk.get (List.dropLast [(StoreFile.metadata input.bucket input.key none).name]) =
            some .dir := Tree.get_nil _
        refine (meets_copy hne (List.cons_ne_nil _ _) hroot).mono ?_ ?_
        · rintro _ w₂ ⟨content, m, hfile, -, hwrites⟩
          rw [FileSystem.AttributesCopied, if_neg hreplace, if_neg]
          · exact ⟨content, m, hfile, hwrites⟩
          · rintro (hnone | hsame)
            · rw [he] at hnone
              cases hnone
            · exact hself hsame
        · rintro _ w₂ ⟨-, hsrc | hdst⟩
          · rw [he] at hsrc
            cases e with
            | file content m => exact hsrc trivial
            | dir => exact hw.not_dir _ (StoreFile.isHidden _) he
          · exact hw.not_dir _ (StoreFile.isHidden _) hdst
      · intro hsame
        have hself : bucket = input.bucket ∧ key = input.key := metadata_path_eq_iff.mp (not_not.mp hsame)
        show fs.AttributesCopied input bucket key w₁.disk w₁.disk
        rw [FileSystem.AttributesCopied, if_neg hreplace, if_pos (Or.inr hself)]
        exact fun _ => rfl

theorem FileSystem.AttributesCopied.orderly {fs : FileSystem} {input : CopyObjectInput}
    {bucket key : Bytes} {t t' : Tree Bytes UInt8} (h : fs.AttributesCopied input bucket key t t')
    (ht : Orderly t) : Orderly t' := by
  have hdst := name_ne_temporary (f := .metadata input.bucket input.key none) fun n => StoreFile.noConfusion
  unfold FileSystem.AttributesCopied at h
  split_ifs at h
  · exact h.orderly ht hdst
  · exact Alike.orderly h ht
  · obtain ⟨content, m, -, hwrites⟩ := h
    exact hwrites.orderly ht hdst

/-- What `copy_object` does with the content of its source. -/
structure FileSystem.Copied (input : CopyObjectInput) (output : CopyObjectResult)
    (disk disk' : Tree Bytes UInt8) : Prop where
  steps : ∃ bucket key srcPath dstPath content m srcInfo t₁ t₂,
    input.copySource = .object bucket key ∧
    fs.pathOf bucket key = some srcPath ∧ fs.pathOf input.bucket input.key = some dstPath ∧
    disk.get srcPath = some (.file content m) ∧
    Reads disk (.internalInfo bucket key) fs.info.fromSlice srcInfo ∧
    output.etag = .strong ((srcInfo.bind loadETag).getD (fs.md5Sum content)) ∧
    Places disk t₁ dstPath content ∧ fs.AttributesCopied input bucket key t₁ t₂ ∧
    Writes t₂ disk' [(StoreFile.internalInfo input.bucket input.key).name]
      (fs.info.toVec (saveETag (srcInfo.getD []) ((srcInfo.bind loadETag).getD (fs.md5Sum content))))

/-- What a copy that fails leaves in a bucket: directories at most. -/
def FileSystem.DirectoriesMade (bucket key : Bytes) (disk disk' : Tree Bytes UInt8) : Prop :=
  Alike disk disk' ∨ disk.get [bucket] ≠ none ∧
    ∃ p, fs.pathOf bucket key = some p ∧ Digs disk disk' p.dropLast

/-- The copy of a source that is known by now. -/
theorem meets_placeCopy (input : CopyObjectInput) {bucket key : Bytes} {srcPath dstPath : List Bytes}
    {srcInfo : Option InternalInfo} {learnt : Option Bytes} (hw : Orderly w.disk)
    (hbucket : checkBucketName input.bucket = true) (hstays : fs.Stays input.bucket input.key)
    (hsource : input.copySource = .object bucket key) (hsrcPath : fs.pathOf bucket key = some srcPath)
    (hdstPath : fs.pathOf input.bucket input.key = some dstPath) (hthere : w.disk.get [input.bucket] ≠ none)
    (hinfo : Reads w.disk (.internalInfo bucket key) fs.info.fromSlice srcInfo)
    (hlearnt : fs.Learns w.disk bucket key (srcInfo.bind loadETag) learnt) :
    (copyData srcPath dstPath >>= fun lastModified => fs.sourceETag input.bucket input.key learnt >>=
      fun etag => fs.copyAttributes input bucket key >>= fun _ =>
      fs.saveInternalInfo input.bucket input.key (saveETag (srcInfo.getD []) etag) >>= fun _ =>
      (pure ⟨.strong etag, lastModified⟩ : Op CopyObjectResult)).Meets World.step w
      (fun output w' => fs.Copied input output w.disk w'.disk)
      fun _ w' => fs.DirectoriesMade input.bucket input.key w.disk w'.disk := by
  obtain ⟨hbelow, hlength⟩ := objectPath_orderly fs hbucket hstays hdstPath
  have hnil : dstPath ≠ [] := by
    obtain ⟨b, rest, -, rfl⟩ := hbelow
    exact List.cons_ne_nil _ _
  refine (meets_copyData hnil).bind ?_
    fun _ _ h => h.imp (fun h => h) fun h => ⟨hthere, dstPath, hdstPath, h⟩
  rintro lastModified w₁ ⟨content, m, hfile, hplaces⟩
  have hw₁ := hplaces.orderly hw hbelow hlength
  obtain ⟨m', hget⟩ : ∃ m', w₁.disk.get dstPath = some (.file content m') := by
    obtain ⟨-, t, -, hwrites⟩ := hplaces
    exact hwrites.get_self
  refine (meets_sourceETag fs input.bucket input.key learnt).bind ?_ ?_
  swap
  · rintro _ w' ⟨-, hnot⟩
    have hnotFile := hnot dstPath hdstPath
    rw [hget] at hnotFile
    exact absurd trivial hnotFile
  rintro etag w₂ ⟨h₂, hetag⟩
  have hvalue : etag = (srcInfo.bind loadETag).getD (fs.md5Sum content) := by
    have hdst := hetag.getD hdstPath hget
    rw [Option.getD_some] at hdst
    rw [hdst, hlearnt.getD hsrcPath hfile]
  rw [← h₂.disk] at hw₁ hplaces
  refine (meets_copyAttributes fs input bucket key hw₁).bind ?_ fun _ _ h => h.elim
  intro _ w₃ hattributes
  refine meets_save_bind fs (hattributes.orderly hw₁) fun w₄ h₄ => ?_
  rw [hvalue] at h₄ ⊢
  exact ⟨bucket, key, srcPath, dstPath, content, m, srcInfo, w₂.disk, w₃.disk, hsource, hsrcPath, hdstPath,
    hfile, hinfo, rfl, hplaces, hattributes, h₄⟩

/-- A copy is made into a bucket that is there, or there are new directories at most. -/
theorem meets_copyObject (input : CopyObjectInput) (hw : Orderly w.disk)
    (hbucket : checkBucketName input.bucket = true) (hstays : fs.Stays input.bucket input.key) :
    (fs.copyObject input).Meets World.step w
      (fun output w' => w.disk.get [input.bucket] ≠ none ∧ fs.Copied input output w.disk w'.disk)
      fun _ w' => fs.DirectoriesMade input.bucket input.key w.disk w'.disk := by
  have hfailed {w' : World} (h : w.Same w') : fs.DirectoriesMade input.bucket input.key w.disk w'.disk :=
    Or.inl (alike_of_same h)
  rw [FileSystem.copyObject]
  cases hsource : input.copySource with
  | other => exact hfailed (.refl w)
  | object bucket key =>
    show Prog.Meets World.step (fs.getObjectPath bucket key >>= _) w _ _
    rw [getObjectPath_eq]
    cases hsrcPath : fs.pathOf bucket key with
    | none => exact hfailed (.refl w)
    | some srcPath =>
      rw [ret_bind, getObjectPath_eq]
      cases hdstPath : fs.pathOf input.bucket input.key with
      | none => exact hfailed (.refl w)
      | some dstPath =>
        rw [ret_bind]
        refine (meets_pathExists srcPath).bind ?_ fun _ _ h => h.elim
        rintro present w₁ ⟨h₁, -⟩
        refine (meets_of_reads (only_require _ _) w₁).bind ?_ fun _ _ h => hfailed (h₁.trans h)
        intro _ w₂ h₂
        have hsame₂ := h₁.trans h₂
        rw [getBucketPath_eq fs (isName_of_checkBucketName hbucket), ret_bind]
        refine (meets_pathExists [input.bucket]).bind ?_ fun _ _ h => h.elim
        rintro hasBucket w₃ ⟨h₃, hhasBucket⟩
        have hsame₃ := hsame₂.trans h₃
        rw [hsame₂.disk] at hhasBucket
        rw [meets_bind, meets_require]
        split
        swap
        · exact hfailed hsame₃
        next hbucketThere =>
        have hthere : w.disk.get [input.bucket] ≠ none := by
          rw [← Option.isSome_iff_ne_none, ← hhasBucket]
          exact hbucketThere
        refine (meets_metadata srcPath).bind ?_ fun _ _ h => hfailed (hsame₃.trans h.1)
        rintro stat w₄ ⟨h₄, -⟩
        have hsame₄ := hsame₃.trans h₄
        refine (meets_loadInfo fs (.internalInfo bucket key)).bind ?_ fun _ _ h => hfailed (hsame₄.trans h)
        rintro srcInfo w₅ ⟨h₅, hinfo⟩
        have hsame₅ := hsame₄.trans h₅
        refine (meets_checkSourceMatch fs input bucket key _ _).bind ?_
          fun _ _ h => hfailed (hsame₅.trans h)
        rintro learnt w₆ ⟨h₆, hlearnt⟩
        have hsame₆ := hsame₅.trans h₆
        refine (meets_checkSourceNoneMatch fs input bucket key _ _).bind ?_
          fun _ _ h => hfailed (hsame₆.trans h)
        rintro learnt' w₇ ⟨h₇, hlearnt'⟩
        have hdisk : w₇.disk = w.disk := (hsame₆.trans h₇).disk
        rw [hsame₄.disk, ← hdisk] at hinfo
        rw [hsame₅.disk, ← hdisk] at hlearnt
        rw [hsame₆.disk, ← hdisk] at hlearnt'
        rw [← hdisk] at hw hthere ⊢
        exact (meets_placeCopy fs input hw hbucket hstays hsource hsrcPath hdstPath hthere hinfo
          (hlearnt.trans hlearnt')).mono (fun _ _ h => ⟨hthere, h⟩) fun _ _ h => h

end Copy

end S3s.Fs
