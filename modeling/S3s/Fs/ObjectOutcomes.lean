import S3s.Fs.Outcomes

/-! # What the operations on objects and buckets do

The updates that writing, copying and deleting an object comes to in an orderly store, and those of
the buckets.
-/
namespace S3s.Fs
open LexicalPath Programs FileTree Routing

section Buckets

variable (fs : FileSystem) {w : World}

theorem digs_of_createDir {t t' : Tree Bytes UInt8} {name : Bytes} (h : t.createDir [name] = .ok t') :
    t.get [name] = none ∧ Digs t t' [name] := by
  obtain ⟨hnone, hget⟩ := Tree.createDir_eq_ok h
  refine ⟨hnone, fun q hq => ?_, fun q => ?_⟩
  · rcases List.prefix_cons_iff.mp hq with rfl | ⟨rest, rfl, hrest⟩
    · rw [Tree.get_nil]
      exact fun h => h
    · rw [List.prefix_nil.mp hrest, hnone]
      exact fun h => h
  · rw [hget]
    by_cases hself : q = [name]
    · rw [if_pos hself, if_pos (hself ▸ List.prefix_rfl)]
    · rw [if_neg hself]
      by_cases hq : q <+: [name]
      · rcases List.prefix_cons_iff.mp hq with rfl | ⟨rest, rfl, hrest⟩
        · rw [Tree.get_nil, if_pos hq]
        · exact absurd (by rw [List.prefix_nil.mp hrest]) hself
      · rw [if_neg hq]

theorem atomic_createBucket {bucket : Bytes} (hname : IsName bucket) :
    Atomic (fs.createBucket bucket) w fun _ disk =>
      w.disk.get [bucket] = none ∧ Digs w.disk disk [bucket] := by
  apply atomic_bucket fs hname
  refine atomic_read (reads_pathExists _) fun present w₁ h₁ => ?_
  refine atomic_require fun _ => ?_
  rw [← h₁]
  refine meets_io.mpr ?_
  simp only [Tree.answer]
  cases hcreate : w₁.disk.createDir [bucket] with
  | ok t => exact digs_of_createDir hcreate
  | error kind => exact fun _ => rfl

theorem atomic_deleteBucket {bucket : Bytes} (hname : IsName bucket) :
    Atomic (fs.deleteBucket bucket) w fun _ disk =>
      w.disk.get [bucket] = some .dir ∧ Wipes ([bucket] <+: ·) w.disk disk := by
  apply atomic_bucket fs hname
  refine atomic_read (reads_pathExists _) fun present w₁ h₁ => ?_
  refine atomic_require fun _ => ?_
  rw [← h₁]
  refine meets_io.mpr ?_
  simp only [Tree.answer]
  cases hremove : w₁.disk.removeDirAll [bucket] with
  | ok t =>
    obtain ⟨hdir, hget⟩ := Tree.removeDirAll_eq_ok hremove
    refine ⟨hdir, fun q hq => ?_, fun q hq => ?_⟩
    · exact (hget q).trans (if_pos hq)
    · exact (hget q).trans (if_neg hq)
  | error kind => exact fun _ => rfl

end Buckets

section Put

variable (fs : FileSystem) {w : World}

/-- What is kept of an object: the attributes, and then the internal info. -/
def FileSystem.Described (bucket key : Bytes) (attrs : ObjectAttributes) (info : InternalInfo)
    (disk disk' : Tree Bytes UInt8) : Prop :=
  ∃ t, Writes disk t [(StoreFile.metadata bucket key none).name] (fs.attributes.toVec attrs) ∧
    Writes t disk' [(StoreFile.internalInfo bucket key).name] (fs.info.toVec info)

/-- What `put_object` does: a directory is made, or a file is written and described. -/
def FileSystem.Put (input : PutObjectInput) (output : PutObjectOutput) (p : List Bytes)
    (disk disk' : Tree Bytes UInt8) : Prop :=
  if endsWithSlash input.key then Digs disk disk' p
  else ∃ content t, input.body.bind contentOf = some content ∧
    output.etag = some (.strong (fs.md5Sum content)) ∧ Places disk t p content ∧
      fs.Described input.bucket input.key ⟨input.attributes, none, none⟩
        (modifyInternalInfo (saveETag [] (fs.md5Sum content)) output.checksum) t disk'

theorem digs_of_createDirAll {t t' : Tree Bytes UInt8} {p : List Bytes} (h : t.createDirAll p = .ok t') :
    Digs t t' p := by
  obtain ⟨hfree, hget⟩ := Tree.createDirAll_eq_ok h
  exact ⟨fun q hq hfile => hfree ⟨q, (List.mem_inits _ _).mpr hq, hfile⟩, hget⟩

theorem atomic_putObject (input : PutObjectInput) (trailers : Option Http.HeaderMap)
    (hw : Orderly w.disk) (hbucket : checkBucketName input.bucket = true)
    (hstays : fs.Stays input.bucket input.key) :
    Atomic (fs.putObject input trailers) w fun output disk =>
      ∃ p, fs.pathOf input.bucket input.key = some p ∧ fs.Put input output p w.disk disk := by
  refine atomic_require fun _ => ?_
  refine atomic_demand fun stream hbody => ?_
  refine atomic_object fs fun p hp => ?_
  refine atomic_read (reads_checkConditions fs _ _ _ _ _) fun _ w₁ h₁ => ?_
  refine atomic_read (reads_enableGiven _ _) fun hasher w₂ h₂ => ?_
  rw [← (h₂.trans h₁)] at hw ⊢
  refine atomic_ite ?_ ?_
  · intro hslash
    refine atomic_require fun _ => ?_
    refine (meets_createDirAll p).bind ?_ fun _ _ h => alike_of_same h.1
    rintro _ _ ⟨t, hdirs, rfl⟩
    refine ⟨p, hp, ?_⟩
    rw [FileSystem.Put, if_pos hslash]
    exact digs_of_createDirAll hdirs
  · intro hslash
    refine (meets_write fs hw p fun _ h => meets_receivePut fs input trailers stream hasher h).bind ?_
      fun _ _ h => h.2
    rintro ⟨md5Sum, checksum⟩ w₃ ⟨content, ⟨hcontent, hvalue⟩, hplaces⟩
    obtain ⟨rfl, rfl⟩ := Prod.mk.inj hvalue
    obtain ⟨hbelow, hlength⟩ := objectPath_orderly fs hbucket hstays hp
    have hw₃ := hplaces.orderly hw hbelow hlength
    refine meets_save_bind fs hw₃ fun w₄ h₄ => ?_
    have hw₄ := h₄.orderly hw₃ (name_ne_temporary fun n => StoreFile.noConfusion)
    refine meets_save_bind fs hw₄ fun w₅ h₅ => ⟨p, hp, ?_⟩
    rw [FileSystem.Put, if_neg hslash]
    have hbody' : input.body.bind contentOf = some content := by rw [hbody, Option.bind_some, hcontent]
    exact ⟨content, w₃.disk, hbody', rfl, hplaces, w₄.disk, h₄, h₅⟩

end Put

section Delete

variable (fs : FileSystem) {w : World}

/-- What the deletion of an object does: nothing is left of a file; a directory goes when it is empty. -/
def Deleted (key : Bytes) (p : List Bytes) (disk disk' : Tree Bytes UInt8) : Prop :=
  (Clears disk disk' p ∨ Alike disk disk') ∧ (endsWithSlash key = false → disk'.get p = none)

/-- An empty directory removed. -/
theorem atomic_removeEmpty (p : List Bytes) (entries : List (Bytes × Bool)) :
    Atomic (if List.isEmpty entries then io (.removeDir p) else pure ()) w
      fun _ disk => Clears w.disk disk p ∨ Alike w.disk disk := by
  refine atomic_ite ?_ ?_
  · intro _
    refine meets_io.mpr ?_
    simp only [Tree.answer]
    cases hremove : w.disk.removeDir p with
    | ok t => exact Or.inl (Tree.removeDir_eq_ok hremove).2
    | error kind => exact fun _ => rfl
  · exact fun _ => Or.inr fun _ => rfl

theorem atomic_deleteObject (bucket key : Bytes) :
    Atomic (fs.deleteObject bucket key) w fun _ disk =>
      ∃ p, fs.pathOf bucket key = some p ∧ Deleted key p w.disk disk := by
  refine atomic_object fs fun p hp => ?_
  refine atomic_pathExists fun w₁ h₁ => ?_
  rw [← h₁]
  refine atomic_ite ?_ ?_
  · intro _
    refine atomic_ite ?_ ?_
    · intro hslash
      refine atomic_read (reads_readDir _) fun entries w₂ h₂ => ?_
      rw [← h₂]
      refine (atomic_removeEmpty p entries).mono fun _ t h => ⟨p, hp, h, fun hnot => ?_⟩
      rw [hslash] at hnot
      cases hnot
    · intro _
      refine meets_io.mpr ?_
      simp only [Tree.answer]
      cases hremove : w₁.disk.removeFile p with
      | ok t =>
        have hclears : Clears w₁.disk t p := (Tree.removeFile_eq_ok hremove).2
        exact ⟨p, hp, Or.inl hclears, fun _ => hclears.get_self⟩
      | error kind => exact fun _ => rfl
  · intro habsent
    have hnone : w₁.disk.get p = none := by simpa using habsent
    refine atomic_read (reads_getBucketPath fs bucket) fun bucketPath w₂ h₂ => ?_
    refine atomic_pathExists fun w₃ h₃ => ?_
    rw [← (h₃.trans h₂)] at hnone ⊢
    exact (meets_of_reads (only_require _ _) w₃).mono
      (fun _ w₄ h => ⟨p, hp, Or.inr (alike_of_same h), fun _ => by rw [h.disk, hnone]⟩)
      fun _ _ h => alike_of_same h

/-- The entries of a directory, which may not be one. -/
theorem atomic_deleteOne (bucket key : Bytes) :
    Atomic (fs.deleteOne bucket key) w fun _ disk =>
      ∃ p, fs.pathOf bucket key = some p ∧ Deleted key p w.disk disk := by
  refine atomic_object fs fun p hp => ?_
  refine atomic_ite ?_ ?_
  · intro hslash
    have hkept {t : Tree Bytes UInt8} (h : Clears w.disk t p ∨ Alike w.disk t) :
        ∃ p, fs.pathOf bucket key = some p ∧ Deleted key p w.disk t := by
      refine ⟨p, hp, h, fun hnot => ?_⟩
      rw [hslash] at hnot
      cases hnot
    have hlist : (tryIo (.readDir p)).Meets World.step w (fun _ w' => w'.disk = w.disk) fun _ _ => False :=
      meets_tryIo.mpr rfl
    refine hlist.bind ?_ fun _ _ h => h.elim
    intro x w₁ h₁
    rw [← h₁] at hkept ⊢
    cases x with
    | ok entries => exact (atomic_removeEmpty p entries).mono fun _ t h => hkept h
    | error kind => cases kind <;> first | exact hkept (Or.inr fun _ => rfl) | exact fun _ => rfl
  · intro hslash
    refine (meets_removeFileIfExists p).mono ?_ fun _ _ h => alike_of_same h.2
    intro _ w₁ h₁
    have hclears : Clears w.disk w₁.disk p := h₁.get
    exact ⟨p, hp, Or.inl hclears, fun _ => hclears.get_self⟩

/-- The objects of `delete_objects` in turn. -/
inductive FileSystem.DeletedAll (fs : FileSystem) (bucket : Bytes) :
    List DeletedObject → Tree Bytes UInt8 → Tree Bytes UInt8 → Prop
  | nil {disk disk' : Tree Bytes UInt8} (h : Alike disk disk') : DeletedAll fs bucket [] disk disk'
  | cons {object : DeletedObject} {objects : List DeletedObject} {p : List Bytes}
      {disk t disk' : Tree Bytes UInt8} (hp : fs.pathOf bucket object.key = some p)
      (head : Deleted object.key p disk t) (tail : DeletedAll fs bucket objects t disk') :
      DeletedAll fs bucket (object :: objects) disk disk'

/-- Some of the objects are gone when the deletion of one fails. -/
theorem meets_deleteObjects (bucket : Bytes) (objects : List DeletedObject) :
    (fs.deleteObjects bucket objects).Meets World.step w
      (fun output w' => output = objects ∧ fs.DeletedAll bucket objects w.disk w'.disk)
      fun _ w' => ∃ done, done <+: objects ∧ fs.DeletedAll bucket done w.disk w'.disk := by
  induction objects generalizing w with
  | nil => exact ⟨rfl, .nil fun _ => rfl⟩
  | cons object objects ih =>
    refine (atomic_deleteOne fs bucket object.key).bind ?_ fun _ _ h => ⟨[], List.nil_prefix, .nil h⟩
    rintro _ w₁ ⟨p, hp, hdeleted⟩
    refine ih.bind ?_ ?_
    · rintro output w₂ ⟨rfl, hrest⟩
      exact ⟨rfl, .cons hp hdeleted hrest⟩
    · rintro _ w₂ ⟨done, hdone, hrest⟩
      exact ⟨object :: done, List.cons_prefix_cons.mpr ⟨rfl, hdone⟩, .cons hp hdeleted hrest⟩

end Delete

end S3s.Fs
