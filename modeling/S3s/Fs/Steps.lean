import S3s.Fs.CopyOutcomes

/-! # What a request does

Each request does one thing to an orderly store, by its outcome. What holds over whole runs is
concluded from this alone.
-/
namespace S3s.Fs
open LexicalPath Programs FileTree Routing

variable (fs : FileSystem)

/-- A bucket with a valid name, and a key that leads to something below it. -/
structure FileSystem.Ordinary (bucket key : Bytes) : Prop where
  isBucket : checkBucketName bucket = true
  stays : fs.Stays bucket key

/-- A request that changes files at paths of ordinary objects and buckets only. -/
def FileSystem.OrdinaryRequest : Request → Prop
  | .createBucket bucket => checkBucketName bucket = true
  | .deleteBucket bucket => checkBucketName bucket = true
  | .putObject input _ => fs.Ordinary input.bucket input.key
  | .copyObject input => fs.Ordinary input.bucket input.key
  | .deleteObject bucket key => fs.Ordinary bucket key
  | .deleteObjects bucket objects => ∀ o ∈ objects, fs.Ordinary bucket o.key
  | .completeMultipartUpload input => fs.Ordinary input.bucket input.key
  | _ => True

/-- What `upload_part` does with a body. -/
def FileSystem.PartUploaded (input : UploadPartInput) (cred : Option Bytes) (output : UploadPartOutput)
    (disk disk' : Tree Bytes UInt8) : Prop :=
  ∃ u content, fs.parseUuid input.uploadId = some u ∧ fs.Recorded disk u cred ∧
    input.partNumber ≤ 10000 ∧ input.body.bind contentOf = some content ∧
    fs.PartKept u input.partNumber content output disk disk'

/-- What `upload_part_copy` does with its source. -/
def FileSystem.PartCopied (input : UploadPartCopyInput) (cred : Option Bytes) (output : UploadPartOutput)
    (disk disk' : Tree Bytes UInt8) : Prop :=
  ∃ u content, fs.parseUuid input.uploadId = some u ∧ fs.Recorded disk u cred ∧
    fs.PartKept u input.partNumber content output disk disk'

/-- What a request does to the files, by its outcome. A request that fails does nothing, apart from the
deletion of several objects and a copy. -/
def FileSystem.Does (cred : Option Bytes) (disk disk' : Tree Bytes UInt8) :
    Request → Except Failure Response → Prop
  | .createBucket bucket, .ok _ => disk.get [bucket] = none ∧ Digs disk disk' [bucket]
  | .deleteBucket bucket, .ok _ => disk.get [bucket] = some .dir ∧ Wipes ([bucket] <+: ·) disk disk'
  | .putObject input _, .ok (.put output) =>
    ∃ p, fs.pathOf input.bucket input.key = some p ∧ fs.Put input output p disk disk'
  | .copyObject input, .ok (.copied output) =>
    disk.get [input.bucket] ≠ none ∧ fs.Copied input output disk disk'
  | .copyObject input, .error _ => fs.DirectoriesMade input.bucket input.key disk disk'
  | .deleteObject bucket key, .ok _ => ∃ p, fs.pathOf bucket key = some p ∧ Deleted key p disk disk'
  | .deleteObjects bucket objects, .ok _ => fs.DeletedAll bucket objects disk disk'
  | .deleteObjects bucket objects, .error _ =>
    ∃ done, done <+: objects ∧ fs.DeletedAll bucket done disk disk'
  | .createMultipartUpload input drawn, .ok _ => fs.Created input cred drawn disk disk'
  | .uploadPart input _, .ok (.part output) => fs.PartUploaded input cred output disk disk'
  | .uploadPartCopy input, .ok (.part output) => fs.PartCopied input cred output disk disk'
  | .completeMultipartUpload input, .ok (.completed output) =>
    ∃ u, fs.parseUuid input.uploadId = some u ∧ fs.Recorded disk u cred ∧
      fs.Completed input u output disk disk'
  | .abortMultipartUpload bucket key uploadId, .ok _ =>
    ∃ u, fs.parseUuid uploadId = some u ∧ fs.Recorded disk u cred ∧ Wipes (Remains bucket key u) disk disk'
  | _, _ => Alike disk disk'

section Serving

variable {w : World}

/-- The outcome of an operation alone, by what its program meets. -/
theorem alone_of_meets {α : Type} {p : Op α} {f : α → Response} {D : Except Failure Response → World → Prop}
    (h : p.Meets World.step w (fun a => D (.ok (f a))) fun e => D (.error e)) :
    D (alone p f w).1 (alone p f w).2 := by
  have hrun : (p >>= fun a => pure (f a)).Meets World.step w (fun x => D (.ok x)) fun e => D (.error e) :=
    h.bind (fun _ _ h => h) fun _ _ h => h
  unfold Prog.Meets at hrun
  show D ((p >>= fun a => pure (f a)).run World.step w).1 ((p >>= fun a => pure (f a)).run World.step w).2
  cases hresult : (p >>= fun a => pure (f a)).run World.step w with
  | mk outcome w' =>
    rw [hresult] at hrun
    cases outcome with
    | ok _ => exact hrun
    | error _ => exact hrun

theorem does_alone {cred : Option Bytes} {r : Request} {α : Type} {p : Op α} {f : α → Response}
    (h : p.Meets World.step w (fun a w' => fs.Does cred w.disk w'.disk r (.ok (f a)))
      fun e w' => fs.Does cred w.disk w'.disk r (.error e)) :
    fs.Does cred w.disk (alone p f w).2.disk r (alone p f w).1 :=
  alone_of_meets (D := fun x w' => fs.Does cred w.disk w'.disk r x) h

theorem reading_does {cred : Option Bytes} {r : Request} {α : Type}
    {g : Tree Bytes UInt8 → Except Failure α} {f : α → Response}
    (hok : ∀ a, Alike w.disk w.disk → fs.Does cred w.disk w.disk r (.ok (f a)))
    (herror : ∀ e, Alike w.disk w.disk → fs.Does cred w.disk w.disk r (.error e)) :
    fs.Does cred w.disk (reading g f w).2.disk r (reading g f w).1 := by
  unfold reading
  cases g w.disk with
  | ok a => exact hok a fun _ => rfl
  | error e => exact herror e fun _ => rfl

theorem alike_of_reads {α : Type} {p : Op α} (hp : p.Only Call.Reads) :
    p.Meets World.step w (fun _ w' => Alike w.disk w'.disk) fun _ w' => Alike w.disk w'.disk :=
  (meets_of_reads hp w).mono (fun _ _ h => alike_of_same h) fun _ _ h => alike_of_same h

end Serving

/-- What a request does to an orderly store. -/
theorem serve_does (cred : Option Bytes) {w : World} (hw : Orderly w.disk) (r : Request)
    (hr : fs.OrdinaryRequest r) :
    fs.Does cred w.disk (fs.serve cred r w).2.disk r (fs.serve cred r w).1 := by
  cases r with
  | createBucket bucket => exact does_alone fs (atomic_createBucket fs (isName_of_checkBucketName hr))
  | deleteBucket bucket => exact does_alone fs (atomic_deleteBucket fs (isName_of_checkBucketName hr))
  | headBucket bucket => exact does_alone fs (alike_of_reads (reads_headBucket fs bucket))
  | getBucketLocation bucket => exact does_alone fs (alike_of_reads (reads_headBucket fs bucket))
  | listBuckets => exact does_alone fs (alike_of_reads reads_listBuckets)
  | listObjects input => exact reading_does fs (fun _ h => h) fun _ h => h
  | listObjectsV2 input => exact reading_does fs (fun _ h => h) fun _ h => h
  | getObject bucket key range => exact does_alone fs (alike_of_reads (reads_getObject fs bucket key range))
  | headObject bucket key => exact does_alone fs (alike_of_reads (reads_headObject fs bucket key))
  | putObject input trailers =>
    exact does_alone fs (atomic_putObject fs input trailers hw hr.isBucket hr.stays)
  | copyObject input => exact does_alone fs (meets_copyObject fs input hw hr.isBucket hr.stays)
  | deleteObject bucket key => exact does_alone fs (atomic_deleteObject fs bucket key)
  | deleteObjects bucket objects =>
    exact does_alone fs ((meets_deleteObjects fs bucket objects).mono (fun _ _ h => h.2) fun _ _ h => h)
  | createMultipartUpload input drawn =>
    exact does_alone fs ((atomic_createMultipartUpload fs input cred drawn hw).mono fun _ _ h => h.2)
  | uploadPart input trailers => exact does_alone fs (atomic_uploadPart fs input cred trailers hw)
  | uploadPartCopy input => exact does_alone fs (atomic_uploadPartCopy fs input cred hw)
  | listParts bucket key uploadId => exact does_alone fs (alike_of_reads (reads_listParts fs uploadId))
  | completeMultipartUpload input =>
    exact does_alone fs (atomic_completeMultipartUpload fs input cred hw hr.isBucket hr.stays)
  | abortMultipartUpload bucket key uploadId =>
    exact does_alone fs (atomic_abortMultipartUpload fs bucket key uploadId cred hw)

section Orderly

variable {fs} {disk disk' : Tree Bytes UInt8}

theorem below_orderly {bucket key : Bytes} (h : fs.Ordinary bucket key) {p : List Bytes}
    (hp : fs.pathOf bucket key = some p) {name : Bytes} (hname : IsHidden name) : p.head? ≠ some name := by
  obtain ⟨rest, -, rfl⟩ := h.stays p hp
  intro hhead
  exact not_isHidden_bucket h.isBucket (Option.some.inj hhead ▸ hname)

theorem head?_of_dropLast {p : List Bytes} {name : Bytes} (h : p.dropLast.head? = some name) :
    p.head? = some name := by
  cases p with
  | nil => cases h
  | cons n rest =>
    cases rest with
    | nil => cases h
    | cons n' rest => exact h

theorem Digs.orderly_dropLast {bucket key : Bytes} (hordinary : fs.Ordinary bucket key) {p : List Bytes}
    (hp : fs.pathOf bucket key = some p) (h : Digs disk disk' p.dropLast) (hd : Orderly disk) :
    Orderly disk' := by
  exact h.orderly hd fun name hname hhead => below_orderly hordinary hp hname (head?_of_dropLast hhead)

theorem Places.orderly_of_ordinary {bucket key : Bytes} (hordinary : fs.Ordinary bucket key) {p : List Bytes}
    (hp : fs.pathOf bucket key = some p) {content : Bytes} (h : Places disk disk' p content)
    (hd : Orderly disk) : Orderly disk' := by
  obtain ⟨hbelow, hlength⟩ := objectPath_orderly fs hordinary.isBucket hordinary.stays hp
  exact h.orderly hd hbelow hlength

theorem Writes.orderly_of_file {f : StoreFile} (hf : ∀ n, f ≠ .temporary n) {content : Bytes}
    (h : Writes disk disk' [f.name] content) (hd : Orderly disk) : Orderly disk' :=
  h.orderly hd (name_ne_temporary hf)

theorem FileSystem.Put.orderly {input : PutObjectInput} {output : PutObjectOutput} {p : List Bytes}
    (h : fs.Put input output p disk disk') (hordinary : fs.Ordinary input.bucket input.key)
    (hp : fs.pathOf input.bucket input.key = some p) (hd : Orderly disk) : Orderly disk' := by
  unfold FileSystem.Put at h
  split_ifs at h
  · exact h.orderly hd fun name hname => below_orderly hordinary hp hname
  · obtain ⟨content, t, -, -, hplaces, t', hattributes, hinfo⟩ := h
    have ht := hplaces.orderly_of_ordinary hordinary hp hd
    have ht' := hattributes.orderly_of_file (fun n => StoreFile.noConfusion) ht
    exact hinfo.orderly_of_file (fun n => StoreFile.noConfusion) ht'

theorem FileSystem.Copied.orderly {input : CopyObjectInput} {output : CopyObjectResult}
    (h : fs.Copied input output disk disk') (hordinary : fs.Ordinary input.bucket input.key)
    (hd : Orderly disk) : Orderly disk' := by
  obtain ⟨_, _, _, p, content, m, _, t, t', -, -, hp, -, -, -, hplaces, hattributes, hinfo⟩ := h
  have ht := hplaces.orderly_of_ordinary hordinary hp hd
  exact hinfo.orderly_of_file (fun n => StoreFile.noConfusion) (hattributes.orderly ht)

theorem FileSystem.DirectoriesMade.orderly {bucket key : Bytes} (h : fs.DirectoriesMade bucket key disk disk')
    (hordinary : fs.Ordinary bucket key) (hd : Orderly disk) : Orderly disk' := by
  rcases h with h | ⟨-, p, hp, hdigs⟩
  · exact h.orderly hd
  · exact hdigs.orderly_dropLast hordinary hp hd

theorem Deleted.orderly {key : Bytes} {p : List Bytes} (h : Deleted key p disk disk') (hd : Orderly disk) :
    Orderly disk' := by
  rcases h.1 with hclears | halike
  · exact hclears.wipes.orderly hd
  · exact halike.orderly hd

theorem FileSystem.DeletedAll.orderly {bucket : Bytes} {objects : List DeletedObject}
    (h : fs.DeletedAll bucket objects disk disk') (hd : Orderly disk) : Orderly disk' := by
  induction h with
  | nil halike => exact halike.orderly hd
  | cons _ hhead _ ih => exact ih (hhead.orderly hd)

theorem FileSystem.PartKept.orderly {u : Uuid} {n : Int} {content : Bytes} {output : UploadPartOutput}
    (h : fs.PartKept u n content output disk disk') (hd : Orderly disk) : Orderly disk' := by
  obtain ⟨-, t, hpart, hinfo⟩ := h
  exact hinfo.orderly_of_file (fun n => StoreFile.noConfusion)
    (hpart.orderly_of_file (fun n => StoreFile.noConfusion) hd)

theorem FileSystem.Completed.orderly {input : CompleteMultipartUploadInput} {u : Uuid}
    {output : CompleteMultipartUploadOutput} (h : fs.Completed input u output disk disk')
    (hordinary : fs.Ordinary input.bucket input.key) (hd : Orderly disk) : Orderly disk' := by
  obtain ⟨p, _, _, t, t', t'', hp, -, -, -, hplaces, hattributes, hinfo, hwipes⟩ := h
  have ht := hplaces.orderly_of_ordinary hordinary hp hd
  have ht' := hattributes.orderly fs ht
  exact hwipes.orderly (hinfo.orderly_of_file (fun n => StoreFile.noConfusion) ht')

/-- An orderly store stays orderly. -/
theorem FileSystem.Does.orderly {cred : Option Bytes} {r : Request} {x : Except Failure Response}
    (h : fs.Does cred disk disk' r x) (hr : fs.OrdinaryRequest r) (hd : Orderly disk) : Orderly disk' := by
  unfold FileSystem.Does at h
  split at h
  case h_1 bucket _ =>
    refine h.2.orderly hd fun name hname hhead => ?_
    exact not_isHidden_bucket hr (Option.some.inj hhead ▸ hname)
  case h_2 => exact h.2.orderly hd
  case h_3 =>
    obtain ⟨p, hp, hput⟩ := h
    exact hput.orderly hr hp hd
  case h_4 => exact h.2.orderly hr hd
  case h_5 => exact h.orderly hr hd
  case h_6 =>
    obtain ⟨p, -, hdeleted⟩ := h
    exact hdeleted.orderly hd
  case h_7 => exact h.orderly hd
  case h_8 =>
    obtain ⟨done, -, hdeleted⟩ := h
    exact hdeleted.orderly hd
  case h_9 =>
    obtain ⟨t, hrecord, hattributes⟩ := h
    exact hattributes.orderly_of_file (fun n => StoreFile.noConfusion)
      (hrecord.orderly_of_file (fun n => StoreFile.noConfusion) hd)
  case h_10 =>
    obtain ⟨u, content, -, -, -, -, hkept⟩ := h
    exact hkept.orderly hd
  case h_11 =>
    obtain ⟨u, content, -, -, hkept⟩ := h
    exact hkept.orderly hd
  case h_12 =>
    obtain ⟨u, -, -, hcompleted⟩ := h
    exact hcompleted.orderly hr hd
  case h_13 =>
    obtain ⟨u, -, -, hwipes⟩ := h
    exact hwipes.orderly hd
  case h_14 => exact h.orderly hd

/-- A file of the store that a request may change. -/
def FileSystem.Concerns (fs : FileSystem) : Request → StoreFile → Prop
  | .putObject input _, f => Sidecar input.bucket input.key f
  | .copyObject input, f => Sidecar input.bucket input.key f
  | .createMultipartUpload input drawn, f => RecordOf input.bucket input.key drawn f
  | .uploadPart input _, f => ∃ u, fs.parseUuid input.uploadId = some u ∧ Numbered u [input.partNumber] f
  | .uploadPartCopy input, f => ∃ u, fs.parseUuid input.uploadId = some u ∧ Numbered u [input.partNumber] f
  | .completeMultipartUpload input, f => Sidecar input.bucket input.key f ∨
    ∃ u, fs.parseUuid input.uploadId = some u ∧ Leftover input.bucket input.key u (listedNumbers input) f
  | .abortMultipartUpload bucket key uploadId, f =>
    ∃ u, fs.parseUuid uploadId = some u ∧ Remains bucket key u [f.name]
  | _, _ => False

theorem Writes.get_file {f g : StoreFile} {content : Bytes} (h : Writes disk disk' [g.name] content)
    (hne : f ≠ g) : disk'.get [f.name] = disk.get [f.name] :=
  h.get_of_ne fun hname => hne (StoreFile.name_injective (List.head_eq_of_cons_eq hname))

theorem Digs.get_file {p : List Bytes} (h : Digs disk disk' p)
    (hp : ∀ name, IsHidden name → p.head? ≠ some name) (f : StoreFile) :
    disk'.get [f.name] = disk.get [f.name] := by
  rw [h.get, if_neg]
  rintro ⟨rest, rfl⟩
  exact hp _ f.isHidden rfl

theorem Places.get_file {p : List Bytes} {content : Bytes} (h : Places disk disk' p content)
    (hp : ∀ name, IsHidden name → p.head? ≠ some name) (f : StoreFile) :
    disk'.get [f.name] = disk.get [f.name] := by
  obtain ⟨-, t, hdigs, hwrites⟩ := h
  have hne : [f.name] ≠ p := by
    rintro rfl
    exact hp _ f.isHidden rfl
  rw [hwrites.get_of_ne hne]
  exact hdigs.get_file (fun name hname hhead => hp name hname (head?_of_dropLast hhead)) f

theorem Deleted.get_file {key : Bytes} {p : List Bytes} (h : Deleted key p disk disk')
    (hp : ∀ name, IsHidden name → p.head? ≠ some name) (f : StoreFile) :
    disk'.get [f.name] = disk.get [f.name] := by
  rcases h.1 with hclears | halike
  · refine hclears.get_of_ne ?_
    rintro rfl
    exact hp _ f.isHidden rfl
  · exact halike _

theorem FileSystem.DeletedAll.get_file {bucket : Bytes} {objects : List DeletedObject}
    (h : fs.DeletedAll bucket objects disk disk') (hordinary : ∀ o ∈ objects, fs.Ordinary bucket o.key)
    (f : StoreFile) : disk'.get [f.name] = disk.get [f.name] := by
  induction h with
  | nil halike => exact halike _
  | @cons object objects p _ _ _ hp hhead _ ih =>
    rw [ih fun o ho => hordinary o (List.mem_cons_of_mem _ ho)]
    exact hhead.get_file (fun name => below_orderly (hordinary object List.mem_cons_self) hp) f

theorem FileSystem.Put.get_file {input : PutObjectInput} {output : PutObjectOutput} {p : List Bytes}
    (h : fs.Put input output p disk disk') (hp : ∀ name, IsHidden name → p.head? ≠ some name)
    {f : StoreFile} (hf : ¬Sidecar input.bucket input.key f) :
    disk'.get [f.name] = disk.get [f.name] := by
  unfold FileSystem.Put at h
  split_ifs at h
  · exact h.get_file hp f
  · obtain ⟨content, t, -, -, hplaces, t', hattributes, hinfo⟩ := h
    rw [hinfo.get_file fun h => hf (Or.inr h), hattributes.get_file fun h => hf (Or.inl h),
      hplaces.get_file hp f]

theorem FileSystem.AttributesCopied.get_file {input : CopyObjectInput} {bucket key : Bytes}
    (h : fs.AttributesCopied input bucket key disk disk') {f : StoreFile}
    (hf : f ≠ .metadata input.bucket input.key none) : disk'.get [f.name] = disk.get [f.name] := by
  unfold FileSystem.AttributesCopied at h
  split_ifs at h
  · exact h.get_file hf
  · exact h _
  · obtain ⟨content, m, -, hwrites⟩ := h
    exact hwrites.get_file hf

theorem FileSystem.Copied.get_file {input : CopyObjectInput} {output : CopyObjectResult}
    (h : fs.Copied input output disk disk') (hordinary : fs.Ordinary input.bucket input.key)
    {f : StoreFile} (hf : ¬Sidecar input.bucket input.key f) :
    disk'.get [f.name] = disk.get [f.name] := by
  obtain ⟨_, _, _, p, content, m, _, t, t', -, -, hp, -, -, -, hplaces, hattributes, hinfo⟩ := h
  rw [hinfo.get_file fun h => hf (Or.inr h), hattributes.get_file fun h => hf (Or.inl h),
    hplaces.get_file (fun name => below_orderly hordinary hp) f]

theorem FileSystem.PartKept.get_file {u : Uuid} {n : Int} {content : Bytes} {output : UploadPartOutput}
    (h : fs.PartKept u n content output disk disk') {f : StoreFile} (hf : ¬Numbered u [n] f) :
    disk'.get [f.name] = disk.get [f.name] := by
  obtain ⟨-, t, hpart, hinfo⟩ := h
  rw [hinfo.get_file fun h => hf ⟨n, List.mem_singleton_self n, Or.inr h⟩,
    hpart.get_file fun h => hf ⟨n, List.mem_singleton_self n, Or.inl h⟩]

theorem FileSystem.AttributesKept.get_file {bucket key : Bytes} {attrs : Option ObjectAttributes}
    (h : fs.AttributesKept bucket key attrs disk disk') {f : StoreFile} (hf : f ≠ .metadata bucket key none) :
    disk'.get [f.name] = disk.get [f.name] := by
  cases attrs with
  | none => exact h _
  | some attrs => exact Writes.get_file h hf

theorem FileSystem.Completed.get_file {input : CompleteMultipartUploadInput} {u : Uuid}
    {output : CompleteMultipartUploadOutput} (h : fs.Completed input u output disk disk')
    (hordinary : fs.Ordinary input.bucket input.key) {f : StoreFile}
    (hsidecar : ¬Sidecar input.bucket input.key f)
    (hleftover : ¬Leftover input.bucket input.key u (listedNumbers input) f) :
    disk'.get [f.name] = disk.get [f.name] := by
  obtain ⟨p, _, _, t, t', t'', hp, -, -, -, hplaces, hattributes, hinfo, hwipes⟩ := h
  rw [hwipes.rest _ fun h => hleftover (at_name.mp h), hinfo.get_file fun h => hsidecar (Or.inr h),
    hattributes.get_file fun h => hsidecar (Or.inl h),
    hplaces.get_file (fun name => below_orderly hordinary hp) f]

/-- The other files of the store stay as they are. -/
theorem FileSystem.Does.get_file {cred : Option Bytes} {r : Request} {x : Except Failure Response}
    (h : fs.Does cred disk disk' r x) (hr : fs.OrdinaryRequest r) {f : StoreFile}
    (hf : ¬fs.Concerns r f) : disk'.get [f.name] = disk.get [f.name] := by
  unfold FileSystem.Does at h
  split at h
  case h_1 bucket _ =>
    refine h.2.get_file (fun name hname hhead => ?_) f
    exact not_isHidden_bucket hr (Option.some.inj hhead ▸ hname)
  case h_2 bucket _ =>
    refine h.2.rest _ fun hbelow => ?_
    exact f.name_ne_bucket hr (List.cons_prefix_cons.mp hbelow).1.symm
  case h_3 =>
    obtain ⟨p, hp, hput⟩ := h
    exact hput.get_file (fun name => below_orderly hr hp) hf
  case h_4 => exact h.2.get_file hr hf
  case h_5 =>
    rcases h with halike | ⟨-, p, hp, hdigs⟩
    · exact halike _
    · exact hdigs.get_file (fun name hname hhead => below_orderly hr hp hname (head?_of_dropLast hhead)) f
  case h_6 =>
    obtain ⟨p, hp, hdeleted⟩ := h
    exact hdeleted.get_file (fun name => below_orderly hr hp) f
  case h_7 => exact h.get_file hr f
  case h_8 =>
    obtain ⟨done, hdone, hdeleted⟩ := h
    exact hdeleted.get_file (fun o ho => hr o (hdone.subset ho)) f
  case h_9 =>
    obtain ⟨t, hrecord, hattributes⟩ := h
    rw [hattributes.get_file fun h => hf (Or.inr h), hrecord.get_file fun h => hf (Or.inl h)]
  case h_10 =>
    obtain ⟨u, content, hu, -, -, -, hkept⟩ := h
    exact hkept.get_file fun hn => hf ⟨u, hu, hn⟩
  case h_11 =>
    obtain ⟨u, content, hu, -, hkept⟩ := h
    exact hkept.get_file fun hn => hf ⟨u, hu, hn⟩
  case h_12 =>
    obtain ⟨u, hu, -, hcompleted⟩ := h
    exact hcompleted.get_file hr (fun h => hf (Or.inl h)) fun h => hf (Or.inr ⟨u, hu, h⟩)
  case h_13 =>
    obtain ⟨u, hu, -, hwipes⟩ := h
    exact hwipes.rest _ fun h => hf ⟨u, hu, h⟩
  case h_14 => exact h _

theorem orderly_empty : Orderly World.empty.disk := by
  constructor
  · intro name _ h
    cases h
  · exact fun n => rfl

end Orderly

end S3s.Fs
