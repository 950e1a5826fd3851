import S3s.Fs.UploadOwners

/-! # The buckets over whole runs

A bucket is a directory. In every run whose requests to write objects go to buckets that are there, the
directories are the buckets that were created and not deleted since. A write to another bucket makes it.
-/
namespace S3s.Fs
open LexicalPath Programs FileTree Routing

variable (fs : FileSystem)

/-- The buckets that were created and not deleted since. -/
abbrev Buckets := Bytes → Bool

/-- What a request makes of the buckets. -/
def bucketsBehind (buckets : Buckets) : Request → Except Failure Response → Buckets
  | .createBucket bucket, .ok _ => fun b => decide (b = bucket) || buckets b
  | .deleteBucket bucket, .ok _ => fun b => !decide (b = bucket) && buckets b
  | _, _ => buckets

/-- The store and the history of its buckets behind a request. -/
def FileSystem.nextBuckets (s : World × Buckets) (r : Asked) : World × Buckets :=
  ((fs.serve r.1 r.2 s.1).2, bucketsBehind s.2 r.2 (fs.serve r.1 r.2 s.1).1)

/-- The bucket whose objects or uploads a request is about. -/
def Request.addressed : Request → Option Bytes
  | .listObjects input => some input.bucket
  | .listObjectsV2 input => some input.bucket
  | .getObject bucket _ _ => some bucket
  | .headObject bucket _ => some bucket
  | .putObject input _ => some input.bucket
  | .copyObject input => some input.bucket
  | .deleteObject bucket _ => some bucket
  | .deleteObjects bucket _ => some bucket
  | .createMultipartUpload input _ => some input.bucket
  | .uploadPart input _ => some input.bucket
  | .uploadPartCopy input => some input.bucket
  | .listParts bucket _ _ => some bucket
  | .completeMultipartUpload input => some input.bucket
  | .abortMultipartUpload bucket _ _ => some bucket
  | _ => none

/-- A request with a valid bucket name and an ordinary key. -/
def FileSystem.NamesOrdinary : Request → Prop
  | .listObjects input => checkBucketName input.bucket = true
  | .listObjectsV2 input => checkBucketName input.bucket = true
  | .getObject bucket key _ => fs.Ordinary bucket key
  | .headObject bucket key => fs.Ordinary bucket key
  | r => fs.OrdinaryRequest r

/-- A request that asks for nothing of a bucket that is not there, where the store does not see to that
itself. -/
def FileSystem.MindsBucket (w : World) : Asked → Prop
  | (_, .putObject input _) => w.disk.get [input.bucket] ≠ none
  | (_, .deleteObjects bucket _) => w.disk.get [bucket] ≠ none
  | (_, .createMultipartUpload input _) => w.disk.get [input.bucket] ≠ none
  | (_, .listParts bucket _ uploadId) => fs.parseUuid uploadId ≠ none → w.disk.get [bucket] ≠ none
  | (cred, .uploadPart input _) =>
    ∀ u, fs.parseUuid input.uploadId = some u → fs.Recorded w.disk u cred → w.disk.get [input.bucket] ≠ none
  | (cred, .uploadPartCopy input) =>
    ∀ u, fs.parseUuid input.uploadId = some u → fs.Recorded w.disk u cred → w.disk.get [input.bucket] ≠ none
  | (cred, .completeMultipartUpload input) =>
    ∀ u, fs.parseUuid input.uploadId = some u → fs.Recorded w.disk u cred → w.disk.get [input.bucket] ≠ none
  | (cred, .abortMultipartUpload bucket _ uploadId) =>
    ∀ u, fs.parseUuid uploadId = some u → fs.Recorded w.disk u cred → w.disk.get [bucket] ≠ none
  | _ => True

/-- What is asked of the requests of a run. -/
def FileSystem.BucketStep (s : World × Buckets) (r : Asked) : Prop :=
  fs.NamesOrdinary r.2 ∧ fs.MindsBucket s.1 r

section Frames

variable {fs} {disk disk' : Tree Bytes UInt8}

theorem Digs.get_name {p : List Bytes} (h : Digs disk disk' p)
    (hp : ∀ name, p.head? = some name → disk.get [name] ≠ none) (name : Bytes) :
    disk'.get [name] = disk.get [name] := by
  by_cases hprefix : [name] <+: p
  · obtain ⟨rest, rfl⟩ := hprefix
    exact h.get_of_ne (hp name rfl)
  · rw [h.get, if_neg hprefix]

theorem Places.get_name {p : List Bytes} {content : Bytes} (h : Places disk disk' p content)
    (hp : ∀ name, p.head? = some name → disk.get [name] ≠ none) (hlength : p.length ≠ 1) (name : Bytes) :
    disk'.get [name] = disk.get [name] := by
  obtain ⟨-, t, hdigs, hwrites⟩ := h
  have hne : [name] ≠ p := by
    rintro rfl
    exact hlength rfl
  rw [hwrites.get_of_ne hne]
  exact hdigs.get_name (fun n hn => hp n (head?_of_dropLast hn)) name

theorem Writes.get_bucket {f : StoreFile} {content : Bytes} (h : Writes disk disk' [f.name] content)
    {b : Bytes} (hb : checkBucketName b = true) : disk'.get [b] = disk.get [b] :=
  h.get_of_ne fun hname => f.name_ne_bucket hb (List.head_eq_of_cons_eq hname).symm

theorem Wipes.get_bucket {files : StoreFile → Prop} (h : Wipes (At files) disk disk') {b : Bytes}
    (hb : checkBucketName b = true) : disk'.get [b] = disk.get [b] := by
  refine h.rest _ ?_
  rintro ⟨f, -, hname⟩
  exact f.name_ne_bucket hb (List.head_eq_of_cons_eq hname).symm

/-- The path of an ordinary object begins with its bucket, and goes on. -/
theorem FileSystem.Ordinary.path {bucket key : Bytes} (h : fs.Ordinary bucket key) {p : List Bytes}
    (hp : fs.pathOf bucket key = some p) : p.length ≠ 1 ∧ ∀ name, p.head? = some name → name = bucket := by
  obtain ⟨rest, hrest, rfl⟩ := h.stays p hp
  refine ⟨by simpa using hrest, fun name hname => (Option.some.inj hname).symm⟩

theorem FileSystem.Put.get_bucket {input : PutObjectInput} {output : PutObjectOutput} {p : List Bytes}
    (h : fs.Put input output p disk disk') (hordinary : fs.Ordinary input.bucket input.key)
    (hp : fs.pathOf input.bucket input.key = some p) (hthere : disk.get [input.bucket] ≠ none)
    {b : Bytes} (hb : checkBucketName b = true) : disk'.get [b] = disk.get [b] := by
  obtain ⟨hlength, hhead⟩ := hordinary.path hp
  have habove (name : Bytes) (hname : p.head? = some name) : disk.get [name] ≠ none := by
    rwa [hhead name hname]
  unfold FileSystem.Put at h
  split_ifs at h
  · exact h.get_name habove b
  · obtain ⟨content, t, -, -, hplaces, t', hattributes, hinfo⟩ := h
    rw [hinfo.get_bucket hb, hattributes.get_bucket hb, hplaces.get_name habove hlength]

theorem FileSystem.AttributesCopied.get_bucket {input : CopyObjectInput} {bucket key : Bytes}
    (h : fs.AttributesCopied input bucket key disk disk') {b : Bytes} (hb : checkBucketName b = true) :
    disk'.get [b] = disk.get [b] := by
  unfold FileSystem.AttributesCopied at h
  split_ifs at h
  · exact h.get_bucket hb
  · exact h _
  · obtain ⟨content, m, -, hwrites⟩ := h
    exact hwrites.get_bucket hb

theorem FileSystem.Copied.get_bucket {input : CopyObjectInput} {output : CopyObjectResult}
    (h : fs.Copied input output disk disk') (hordinary : fs.Ordinary input.bucket input.key)
    (hthere : disk.get [input.bucket] ≠ none) {b : Bytes} (hb : checkBucketName b = true) :
    disk'.get [b] = disk.get [b] := by
  obtain ⟨_, _, _, p, content, m, _, t, t', -, -, hp, -, -, -, hplaces, hattributes, hinfo⟩ := h
  obtain ⟨hlength, hhead⟩ := hordinary.path hp
  have habove (name : Bytes) (hname : p.head? = some name) : disk.get [name] ≠ none := by
    rwa [hhead name hname]
  rw [hinfo.get_bucket hb, hattributes.get_bucket hb, hplaces.get_name habove hlength]

theorem FileSystem.DirectoriesMade.get_name {bucket key : Bytes}
    (h : fs.DirectoriesMade bucket key disk disk') (hordinary : fs.Ordinary bucket key) (b : Bytes) :
    disk'.get [b] = disk.get [b] := by
  rcases h with halike | ⟨hthere, p, hp, hdigs⟩
  · exact halike _
  · obtain ⟨-, hhead⟩ := hordinary.path hp
    refine hdigs.get_name (fun name hname => ?_) b
    rwa [hhead name (head?_of_dropLast hname)]

theorem Deleted.get_name {key : Bytes} {p : List Bytes} (h : Deleted key p disk disk')
    (hlength : p.length ≠ 1) (b : Bytes) : disk'.get [b] = disk.get [b] := by
  rcases h.1 with hclears | halike
  · refine hclears.get_of_ne ?_
    rintro rfl
    exact hlength rfl
  · exact halike _

theorem FileSystem.DeletedAll.get_name {bucket : Bytes} {objects : List DeletedObject}
    (h : fs.DeletedAll bucket objects disk disk') (hordinary : ∀ o ∈ objects, fs.Ordinary bucket o.key)
    (b : Bytes) : disk'.get [b] = disk.get [b] := by
  induction h with
  | nil halike => exact halike _
  | @cons object objects p _ _ _ hp hhead _ ih =>
    rw [ih fun o ho => hordinary o (List.mem_cons_of_mem _ ho)]
    exact hhead.get_name ((hordinary object List.mem_cons_self).path hp).1 b

theorem FileSystem.PartKept.get_bucket {u : Uuid} {n : Int} {content : Bytes} {output : UploadPartOutput}
    (h : fs.PartKept u n content output disk disk') {b : Bytes} (hb : checkBucketName b = true) :
    disk'.get [b] = disk.get [b] := by
  obtain ⟨-, t, hpart, hinfo⟩ := h
  rw [hinfo.get_bucket hb, hpart.get_bucket hb]

theorem FileSystem.AttributesKept.get_bucket {bucket key : Bytes} {attrs : Option ObjectAttributes}
    (h : fs.AttributesKept bucket key attrs disk disk') {b : Bytes} (hb : checkBucketName b = true) :
    disk'.get [b] = disk.get [b] := by
  cases attrs with
  | none => exact h _
  | some attrs => exact Writes.get_bucket h hb

theorem FileSystem.Completed.get_bucket {input : CompleteMultipartUploadInput} {u : Uuid}
    {output : CompleteMultipartUploadOutput} (h : fs.Completed input u output disk disk')
    (hordinary : fs.Ordinary input.bucket input.key) (hthere : disk.get [input.bucket] ≠ none)
    {b : Bytes} (hb : checkBucketName b = true) : disk'.get [b] = disk.get [b] := by
  obtain ⟨p, _, _, t, t', t'', hp, -, -, -, hplaces, hattributes, hinfo, hwipes⟩ := h
  obtain ⟨hlength, hhead⟩ := hordinary.path hp
  have habove (name : Bytes) (hname : p.head? = some name) : disk.get [name] ≠ none := by
    rwa [hhead name hname]
  rw [hwipes.get_bucket hb, hinfo.get_bucket hb, hattributes.get_bucket hb,
    hplaces.get_name habove hlength]

theorem not_remains_bucket {bucket key b : Bytes} {u : Uuid} (hb : checkBucketName b = true) :
    ¬Remains bucket key u [b] := by
  rintro (⟨f, -, hname⟩ | ⟨name, hname, hq⟩)
  · exact f.name_ne_bucket hb (List.head_eq_of_cons_eq hname).symm
  · rw [← List.head_eq_of_cons_eq hq] at hname
    exact not_isHidden_bucket hb (isHidden_of_isResidue hname)

/-- A request to write objects leaves the buckets as they are, where there is the one it goes to. -/
theorem FileSystem.Does.get_bucket {cred : Option Bytes} {r : Request} {x : Except Failure Response}
    {w : World} (h : fs.Does cred w.disk disk' r x) (hr : fs.OrdinaryRequest r)
    (hminds : fs.MindsBucket w (cred, r)) (hcreate : ∀ bucket, r ≠ .createBucket bucket)
    (hdelete : ∀ bucket, r ≠ .deleteBucket bucket) {b : Bytes} (hb : checkBucketName b = true) :
    disk'.get [b] = w.disk.get [b] := by
  unfold FileSystem.Does at h
  split at h
  case h_1 => exact absurd rfl (hcreate _)
  case h_2 => exact absurd rfl (hdelete _)
  case h_3 =>
    obtain ⟨p, hp, hput⟩ := h
    exact hput.get_bucket hr hp hminds hb
  case h_4 => exact h.2.get_bucket hr h.1 hb
  case h_5 => exact h.get_name hr b
  case h_6 =>
    obtain ⟨p, hp, hdeleted⟩ := h
    exact hdeleted.get_name (hr.path hp).1 b
  case h_7 => exact h.get_name hr b
  case h_8 =>
    obtain ⟨done, hdone, hdeleted⟩ := h
    exact hdeleted.get_name (fun o ho => hr o (hdone.subset ho)) b
  case h_9 =>
    obtain ⟨t, hrecord, hattributes⟩ := h
    rw [hattributes.get_bucket hb, hrecord.get_bucket hb]
  case h_10 =>
    obtain ⟨u, content, -, -, -, -, hkept⟩ := h
    exact hkept.get_bucket hb
  case h_11 =>
    obtain ⟨u, content, -, -, hkept⟩ := h
    exact hkept.get_bucket hb
  case h_12 =>
    obtain ⟨u, hu, hrecord, hcompleted⟩ := h
    exact hcompleted.get_bucket hr (hminds u hu hrecord) hb
  case h_13 =>
    obtain ⟨u, -, -, hwipes⟩ := h
    exact hwipes.rest _ (not_remains_bucket hb)
  case h_14 => exact h _

end Frames

section Histories

variable {fs} {disk disk' : Tree Bytes UInt8} {buckets : Buckets}

/-- The directories with valid bucket names are the buckets. -/
def BucketsAre (disk : Tree Bytes UInt8) (buckets : Buckets) : Prop :=
  ∀ b, checkBucketName b = true → disk.get [b] = if buckets b then some .dir else none

theorem BucketsAre.congr (hbuckets : BucketsAre disk buckets)
    (h : ∀ b, checkBucketName b = true → disk'.get [b] = disk.get [b]) : BucketsAre disk' buckets := by
  intro b hb
  rw [h b hb]
  exact hbuckets b hb

theorem BucketsAre.get_ne_none (hbuckets : BucketsAre disk buckets) {b : Bytes}
    (hb : checkBucketName b = true) : disk.get [b] ≠ none ↔ buckets b = true := by
  rw [hbuckets b hb]
  cases buckets b <;> simp

/-- One request keeps the buckets true to the history. -/
theorem FileSystem.Does.bucketsAre {cred : Option Bytes} {r : Request} {x : Except Failure Response}
    {w : World} (h : fs.Does cred w.disk disk' r x) (hr : fs.OrdinaryRequest r)
    (hminds : fs.MindsBucket w (cred, r)) (hbuckets : BucketsAre w.disk buckets) :
    BucketsAre disk' (bucketsBehind buckets r x) := by
  have hframe (hcreate : ∀ bucket, r ≠ .createBucket bucket) (hdelete : ∀ bucket, r ≠ .deleteBucket bucket) :
      BucketsAre disk' buckets :=
    hbuckets.congr fun b hb => h.get_bucket hr hminds hcreate hdelete hb
  cases r with
  | createBucket bucket =>
    cases x with
    | error e => exact hbuckets.congr fun b _ => h _
    | ok response =>
      obtain ⟨-, hdigs⟩ := h
      intro b hb
      show _ = if decide (b = bucket) || buckets b then _ else _
      by_cases hself : b = bucket
      · rw [hself, hdigs.get, if_pos List.prefix_rfl]
        simp
      · rw [hdigs.get, if_neg fun hprefix => hself (List.cons_prefix_cons.mp hprefix).1, hbuckets b hb]
        simp [hself]
  | deleteBucket bucket =>
    cases x with
    | error e => exact hbuckets.congr fun b _ => h _
    | ok response =>
      obtain ⟨-, hwipes⟩ := h
      intro b hb
      show _ = if !decide (b = bucket) && buckets b then _ else _
      by_cases hself : b = bucket
      · rw [hself, hwipes.gone _ List.prefix_rfl]
        simp
      · rw [hwipes.rest _ fun hprefix => hself (List.cons_prefix_cons.mp hprefix).1.symm, hbuckets b hb]
        simp [hself]
  | _ => exact hframe (fun _ h => Request.noConfusion h) fun _ h => Request.noConfusion h

end Histories

section Answers

variable {fs} {w : World} {cred : Option Bytes}

theorem headBucket_isOk {bucket : Bytes} (hbucket : checkBucketName bucket = true) :
    (fs.serve cred (.headBucket bucket) w).1.isOk = true ↔ w.disk.get [bucket] ≠ none := by
  refine alone_of_meets (f := fun _ => Response.done)
    (D := fun x _ => x.isOk = true ↔ w.disk.get [bucket] ≠ none) (p := fs.headBucket bucket) ?_
  rw [FileSystem.headBucket, getBucketPath_eq fs (isName_of_checkBucketName hbucket), ret_bind]
  refine (meets_pathExists [bucket]).bind ?_ fun _ _ h => h.elim
  rintro present w₁ ⟨-, hpresent⟩
  rw [meets_require]
  cases present with
  | true =>
    have hthere : w.disk.get [bucket] ≠ none := Option.isSome_iff_ne_none.mp hpresent.symm
    exact iff_of_true rfl hthere
  | false =>
    have hnone : w.disk.get [bucket] = none := by simpa using hpresent.symm
    exact iff_of_false Bool.false_ne_true fun h => h hnone

theorem meets_bucketNames (entries : List (Bytes × Bool))
    (hentries : ∀ x ∈ entries, w.disk.get [x.1] ≠ none) :
    (bucketNames entries).Meets World.step w
      (fun names _ => ∀ b, b ∈ names ↔ (b, true) ∈ entries ∧ checkBucketName b = true)
      fun _ _ => False := by
  induction entries generalizing w with
  | nil => exact fun b => by simp
  | cons entry entries ih =>
    obtain ⟨name, isDir⟩ := entry
    have hrest (w' : World) (h : w'.disk = w.disk) : ∀ x ∈ entries, w'.disk.get [x.1] ≠ none := by
      intro x hx
      rw [h]
      exact hentries x (List.mem_cons_of_mem _ hx)
    rw [bucketNames]
    refine meets_ite ?_ ?_
    · intro hkept
      obtain ⟨hdir, hname⟩ := (Bool.and_eq_true _ _).mp hkept
      refine (meets_metadata [name]).bind ?_ ?_
      · rintro stat w₁ ⟨h₁, -⟩
        refine (ih (hrest w₁ h₁.disk)).bind ?_ fun _ _ h => h
        intro names w₂ hnames b
        rw [List.mem_cons, List.mem_cons, hnames b, Prod.mk.injEq]
        constructor
        · rintro (rfl | ⟨hmem, hb⟩)
          · exact ⟨Or.inl ⟨rfl, hdir.symm⟩, hname⟩
          · exact ⟨Or.inr hmem, hb⟩
        · rintro ⟨⟨rfl, -⟩ | hmem, hb⟩
          · exact Or.inl rfl
          · exact Or.inr ⟨hmem, hb⟩
      · rintro _ w₁ ⟨-, -, hnone⟩
        exact hentries _ List.mem_cons_self hnone
    · intro hskipped
      refine (ih (hrest w rfl)).mono ?_ fun _ _ h => h
      intro names w₁ hnames b
      rw [hnames b, List.mem_cons, Prod.mk.injEq]
      constructor
      · exact fun ⟨hmem, hb⟩ => ⟨Or.inr hmem, hb⟩
      · rintro ⟨⟨rfl, rfl⟩ | hmem, hb⟩
        · exact absurd hb (by simpa using hskipped)
        · exact ⟨hmem, hb⟩

theorem get_of_lists {disk : Tree Bytes UInt8} {entries : List (Bytes × Bool)} (h : Lists disk [] entries) :
    ∀ x ∈ entries, disk.get [x.1] ≠ none := by
  rintro ⟨name, isDir⟩ hmem
  obtain ⟨e, he, -⟩ := (h name isDir).mp hmem
  exact Option.ne_none_iff_exists'.mpr ⟨e, he⟩

theorem listBuckets_names : ∃ names, (fs.serve cred .listBuckets w).1 = .ok (.buckets names) ∧
    ∀ b, b ∈ names ↔ checkBucketName b = true ∧ w.disk.get [b] = some .dir := by
  refine alone_of_meets (f := Response.buckets) (p := listBuckets) (D := fun x _ => ∃ names,
    x = .ok (.buckets names) ∧ ∀ b, b ∈ names ↔ checkBucketName b = true ∧ w.disk.get [b] = some .dir) ?_
  refine (meets_readDir []).bind ?_ fun _ _ h => absurd (Tree.get_nil _) h.2.2
  rintro entries w₁ ⟨h₁, hlists⟩
  rw [← h₁.disk] at hlists ⊢
  refine (meets_bucketNames entries (get_of_lists hlists)).mono ?_ fun _ _ h => h.elim
  intro names w₂ hnames
  refine ⟨names, rfl, fun b => ?_⟩
  rw [hnames b, hlists b true, and_comm]
  refine and_congr_right fun _ => ?_
  constructor
  · rintro ⟨e, he, hdir⟩
    rwa [← of_decide_eq_true hdir.symm]
  · exact fun h => ⟨.dir, h, by simp⟩

/-- What is there below a bucket shows that the bucket is there. -/
theorem bucket_of_object {disk : Tree Bytes UInt8} {bucket key : Bytes} (hordinary : fs.Ordinary bucket key)
    {p : List Bytes} (hp : fs.pathOf bucket key = some p) (h : disk.get p ≠ none) :
    disk.get [bucket] ≠ none := by
  obtain ⟨rest, hrest, rfl⟩ := hordinary.stays p hp
  obtain ⟨e, he⟩ := Option.ne_none_iff_exists'.mp h
  have hprefix : [bucket] <+: bucket :: rest := ⟨rest, rfl⟩
  have hne : [bucket] ≠ bucket :: rest := fun h => hrest (List.cons.inj h).2.symm
  rw [Tree.get_above he hprefix hne]
  exact Option.some_ne_none _

/-- Only where there is the bucket, the object can be had. -/
theorem meets_getObject_bucket {bucket key : Bytes} {range : Option Http.Range}
    (hordinary : fs.Ordinary bucket key) : (fs.getObject bucket key range).Meets World.step w
      (fun _ _ => w.disk.get [bucket] ≠ none) fun _ _ => True := by
  rw [FileSystem.getObject, getObjectPath_eq]
  cases hp : fs.pathOf bucket key with
  | none => trivial
  | some p =>
    refine (meets_openObject p).bind ?_ fun _ _ _ => trivial
    rintro file w₁ ⟨-, hfile⟩
    have hthere : w.disk.get p ≠ none := by simp [hfile]
    exact (meets_true _ w₁).mono (fun _ _ _ => bucket_of_object hordinary hp hthere) fun _ _ _ => trivial

theorem meets_bucket_exists {bucket : Bytes} (hbucket : checkBucketName bucket = true) {α : Type}
    {next : Bool → Op α} (hnext : ∃ e, next false = .fail e) {w₁ : World} (h₁ : w.Same w₁) :
    (fs.getBucketPath bucket >>= fun bucketPath => pathExists bucketPath >>= next).Meets World.step w₁
      (fun _ _ => w.disk.get [bucket] ≠ none) fun _ _ => True := by
  rw [getBucketPath_eq fs (isName_of_checkBucketName hbucket), ret_bind]
  refine (meets_pathExists [bucket]).bind ?_ fun _ _ _ => trivial
  rintro present w₂ ⟨-, hpresent⟩
  rw [h₁.disk] at hpresent
  cases present with
  | true =>
    have hthere : w.disk.get [bucket] ≠ none := Option.isSome_iff_ne_none.mp hpresent.symm
    exact (meets_true (next true) w₂).mono (fun _ _ _ => hthere) fun _ _ _ => trivial
  | false =>
    obtain ⟨e, he⟩ := hnext
    rw [he]
    trivial

theorem meets_headObject_bucket {bucket key : Bytes} (hordinary : fs.Ordinary bucket key) :
    (fs.headObject bucket key).Meets World.step w (fun _ _ => w.disk.get [bucket] ≠ none)
      fun _ _ => True := by
  rw [FileSystem.headObject, getObjectPath_eq]
  cases hp : fs.pathOf bucket key with
  | none => trivial
  | some p =>
    refine (meets_pathExists p).bind ?_ fun _ _ _ => trivial
    rintro present w₁ ⟨h₁, hpresent⟩
    cases present with
    | true =>
      have hthere : w.disk.get p ≠ none := Option.isSome_iff_ne_none.mp hpresent.symm
      exact (meets_true _ w₁).mono (fun _ _ _ => bucket_of_object hordinary hp hthere) fun _ _ _ => trivial
    | false => exact meets_bucket_exists hordinary.isBucket ⟨_, rfl⟩ h₁

theorem meets_deleteObject_bucket {bucket key : Bytes} (hordinary : fs.Ordinary bucket key) :
    (fs.deleteObject bucket key).Meets World.step w (fun _ _ => w.disk.get [bucket] ≠ none)
      fun _ _ => True := by
  rw [FileSystem.deleteObject, getObjectPath_eq]
  cases hp : fs.pathOf bucket key with
  | none => trivial
  | some p =>
    refine (meets_pathExists p).bind ?_ fun _ _ _ => trivial
    rintro present w₁ ⟨h₁, hpresent⟩
    cases present with
    | true =>
      have hthere : w.disk.get p ≠ none := Option.isSome_iff_ne_none.mp hpresent.symm
      exact (meets_true _ w₁).mono (fun _ _ _ => bucket_of_object hordinary hp hthere) fun _ _ _ => trivial
    | false => exact meets_bucket_exists hordinary.isBucket ⟨_, rfl⟩ h₁

theorem listObjectsV2_bucket {disk : Tree Bytes UInt8} {input : ListObjectsV2Input}
    (hbucket : checkBucketName input.bucket = true) (hnone : disk.get [input.bucket] = none) :
    fs.listObjectsV2 disk input = .error (bare .noSuchBucket) := by
  have hpath : Fs.getBucketPath fs.absolutizeVirtually fs.root input.bucket =
      some (fs.root ++ [input.bucket]) :=
    resolveAbsPath_name fs.lexical fs.root (isName_of_checkBucketName hbucket)
  simp only [FileSystem.listObjectsV2, hpath, List.drop_left', hnone]

theorem isOk_map {α : Type} {x : Except Failure α} {f : α → Response} (h : (x.map f).isOk = true) :
    ∃ a, x = .ok a := by
  cases x with
  | ok a => exact ⟨a, rfl⟩
  | error e => cases h

theorem NamesOrdinary.ordinaryRequest {r : Request} (h : fs.NamesOrdinary r) : fs.OrdinaryRequest r := by
  cases r <;> first | exact h | trivial

/-- What succeeds with the objects or the uploads of a bucket finds the bucket. -/
theorem bucket_of_ok {r : Request} (hw : Orderly w.disk) (hr : fs.NamesOrdinary r)
    (hminds : fs.MindsBucket w (cred, r)) {b : Bytes} (hb : r.addressed = some b)
    (hok : (fs.serve cred r w).1.isOk = true) : w.disk.get [b] ≠ none := by
  cases r with
  | listObjects input =>
    obtain rfl := Option.some.inj hb
    intro hnone
    obtain ⟨output, houtput⟩ : ∃ output, fs.listObjects w.disk input = .ok output := isOk_map hok
    rw [FileSystem.listObjects, @listObjectsV2_bucket _ _ input.asV2 hr hnone] at houtput
    cases houtput
  | listObjectsV2 input =>
    obtain rfl := Option.some.inj hb
    intro hnone
    obtain ⟨output, houtput⟩ : ∃ output, fs.listObjectsV2 w.disk input = .ok output := isOk_map hok
    rw [listObjectsV2_bucket hr hnone] at houtput
    cases houtput
  | getObject bucket key range =>
    obtain rfl := Option.some.inj hb
    exact recorded_of_alone (meets_getObject_bucket hr) hok
  | headObject bucket key =>
    obtain rfl := Option.some.inj hb
    exact recorded_of_alone (meets_headObject_bucket hr) hok
  | copyObject input =>
    obtain rfl := Option.some.inj hb
    exact recorded_of_alone ((meets_copyObject fs input hw hr.isBucket hr.stays).mono (fun _ _ h => h.1)
      fun _ _ _ => trivial) hok
  | deleteObject bucket key =>
    obtain rfl := Option.some.inj hb
    exact recorded_of_alone (meets_deleteObject_bucket hr) hok
  | listParts bucket key uploadId =>
    obtain rfl := Option.some.inj hb
    refine hminds (recorded_of_alone (p := fs.listParts uploadId) ?_ hok)
    refine meets_demand.bind ?_ fun _ _ _ => trivial
    rintro u _ ⟨rfl, hu⟩
    exact (meets_true _ _).mono (fun _ _ _ => by simp [hu]) fun _ _ _ => trivial
  | uploadPart input trailers =>
    obtain rfl := Option.some.inj hb
    obtain ⟨u, hu, hrecord⟩ := recorded_of_ok (r := .uploadPart input trailers) trivial hok
    exact hminds u hu hrecord
  | uploadPartCopy input =>
    obtain rfl := Option.some.inj hb
    obtain ⟨u, hu, hrecord⟩ := recorded_of_ok (r := .uploadPartCopy input) trivial hok
    exact hminds u hu hrecord
  | completeMultipartUpload input =>
    obtain rfl := Option.some.inj hb
    obtain ⟨u, hu, hrecord⟩ := recorded_of_ok (r := .completeMultipartUpload input) trivial hok
    exact hminds u hu hrecord
  | abortMultipartUpload bucket key uploadId =>
    obtain rfl := Option.some.inj hb
    obtain ⟨u, hu, hrecord⟩ := recorded_of_ok (r := .abortMultipartUpload bucket key uploadId) trivial hok
    exact hminds u hu hrecord
  | putObject input trailers =>
    obtain rfl := Option.some.inj hb
    exact hminds
  | deleteObjects bucket objects =>
    obtain rfl := Option.some.inj hb
    exact hminds
  | createMultipartUpload input drawn =>
    obtain rfl := Option.some.inj hb
    exact hminds
  | _ => cases hb

/-- Over a run from an empty store, whose requests mind the bucket where the store does not: what is
reported is the buckets that were created and not deleted since, and what is asked of the objects and
uploads of another bucket fails and leaves it away. -/
theorem buckets_exact {start : World} (hstart : Orderly start.disk)
    (hnone : ∀ b, checkBucketName b = true → start.disk.get [b] = none) {s : World × Buckets}
    (hreach : Reaches fs.nextBuckets fs.BucketStep (start, fun _ => false) s) :
    (∀ cred b, checkBucketName b = true →
      ((fs.serve cred (.headBucket b) s.1).1.isOk = true ↔ s.2 b = true)) ∧
    (∀ cred, ∃ names, (fs.serve cred .listBuckets s.1).1 = .ok (.buckets names) ∧
      ∀ b, b ∈ names ↔ checkBucketName b = true ∧ s.2 b = true) ∧
    ∀ cred r b, fs.BucketStep s (cred, r) → r.addressed = some b → checkBucketName b = true →
      s.2 b = false → (fs.serve cred r s.1).1.isOk = false ∧ (fs.serve cred r s.1).2.disk.get [b] = none := by
  have hinv : Orderly s.1.disk ∧ BucketsAre s.1.disk s.2 := by
    refine hreach.invariant (I := fun s => Orderly s.1.disk ∧ BucketsAre s.1.disk s.2)
      ⟨hstart, fun b hb => hnone b hb⟩ ?_
    rintro s ⟨cred, r⟩ ⟨hw, hbuckets⟩ ⟨hnames, hminds⟩
    have hordinary := NamesOrdinary.ordinaryRequest hnames
    have hdoes := serve_does fs cred hw r hordinary
    exact ⟨hdoes.orderly hordinary hw, hdoes.bucketsAre hordinary hminds hbuckets⟩
  obtain ⟨hw, hbuckets⟩ := hinv
  refine ⟨fun cred b hb => ?_, fun cred => ?_, ?_⟩
  · rw [headBucket_isOk hb, hbuckets.get_ne_none hb]
  · obtain ⟨names, houtcome, hnames⟩ := @listBuckets_names fs s.1 cred
    refine ⟨names, houtcome, fun b => ?_⟩
    rw [hnames b]
    refine and_congr_right fun hb => ?_
    rw [hbuckets b hb]
    cases s.2 b <;> simp
  · rintro cred r b ⟨hnames, hminds⟩ haddressed hb hmissing
    have hordinary := NamesOrdinary.ordinaryRequest hnames
    have hnothing : s.1.disk.get [b] = none := by
      rw [hbuckets b hb, hmissing]
      rfl
    constructor
    · rw [Bool.eq_false_iff]
      exact fun hok => bucket_of_ok hw hnames hminds haddressed hok hnothing
    · rw [(serve_does fs cred hw r hordinary).get_bucket hordinary hminds ?_ ?_ hb, hnothing]
      · rintro bucket rfl
        cases haddressed
      · rintro bucket rfl
        cases haddressed

end Answers

section Samples

theorem ordinary_pics : uploadStore.Ordinary (ascii "pics") (ascii "a") :=
  ⟨by decide, stays_pics⟩

def asksBucket : Asked := (none, .createBucket (ascii "pics"))

/-- An object of one byte. -/
def asksObject : Asked :=
  (none, .putObject ⟨ascii "pics", ascii "a", some [.ok [1]], none, none, none, .default, none, none,
    fun _ => none, none⟩ none)

noncomputable def bucketsOf (run : List Asked) : World × Buckets :=
  run.foldl uploadStore.nextBuckets (World.empty, fun _ => false)

set_option maxRecDepth 100000 in
theorem reaches_bucketsOf : Reaches uploadStore.nextBuckets uploadStore.BucketStep
    (World.empty, fun _ => false) (bucketsOf [asksBucket, asksObject]) := by
  have hcreated : Reaches uploadStore.nextBuckets uploadStore.BucketStep (World.empty, fun _ => false)
      (bucketsOf [asksBucket]) :=
    Reaches.start.next ⟨show checkBucketName (ascii "pics") = true by decide, trivial⟩
  refine hcreated.next (a := asksObject) ⟨ordinary_pics, ?_⟩
  show (bucketsOf [asksBucket]).1.disk.get [ascii "pics"] ≠ none
  decide +kernel

theorem buckets_exact_sample :
    (∀ cred b, checkBucketName b = true →
      ((uploadStore.serve cred (.headBucket b) (bucketsOf [asksBucket, asksObject]).1).1.isOk = true ↔
        (bucketsOf [asksBucket, asksObject]).2 b = true)) ∧
    (∀ cred, ∃ names,
      (uploadStore.serve cred .listBuckets (bucketsOf [asksBucket, asksObject]).1).1 = .ok (.buckets names) ∧
        ∀ b, b ∈ names ↔ checkBucketName b = true ∧ (bucketsOf [asksBucket, asksObject]).2 b = true) ∧
    ∀ cred r b, uploadStore.BucketStep (bucketsOf [asksBucket, asksObject]) (cred, r) →
      r.addressed = some b → checkBucketName b = true → (bucketsOf [asksBucket, asksObject]).2 b = false →
      (uploadStore.serve cred r (bucketsOf [asksBucket, asksObject]).1).1.isOk = false ∧
        (uploadStore.serve cred r (bucketsOf [asksBucket, asksObject]).1).2.disk.get [b] = none :=
  buckets_exact orderly_empty (fun _ _ => rfl) reaches_bucketsOf

set_option maxRecDepth 100000 in
/-- An object that is written to a bucket that was never created makes the bucket, and an upload can be
created without one. -/
theorem bucket_made_by_object :
    ((bucketsOf [asksObject]).2 (ascii "pics") = false ∧
      (uploadStore.serve none asksObject.2 (bucketsOf []).1).1.isOk = true ∧
      (uploadStore.serve none (.headBucket (ascii "pics")) (bucketsOf [asksObject]).1).1.isOk = true) ∧
    (bucketsOf []).2 (ascii "pics") = false ∧
      (uploadStore.serve (some [97]) asksUpload.2 (bucketsOf []).1).1.isOk = true := by
  decide +kernel

end Samples

end S3s.Fs
