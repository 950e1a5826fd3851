import S3s.Fs.ObjectMap

/-! # Runs of requests on objects

One request keeps the files to what the map of objects says. So it is over every run, and what is read of an
object is what was written last.
-/
namespace S3s.Fs
open LexicalPath Programs FileTree Routing

section Steps

variable {fs : FileSystem} {K : Bytes → Bytes → Prop} {disk disk' : Tree Bytes UInt8} {m : ObjectMap}
  {cred : Option Bytes}

/-- Where the buckets are, they stay. -/
theorem FileSystem.Represents.buckets_same (h : fs.Represents K m disk) (hK : ObjectKeys K)
    (hbucket : ∀ b, checkBucketName b = true → disk'.get [b] = disk.get [b]) (b k : Bytes) (hbk : K b k) :
    disk'.get [b] = some .dir :=
  (hbucket b (hK.bucket b k hbk)).trans (h.buckets b k hbk)

theorem FileSystem.Represents.there (h : fs.Represents K m disk) {b k : Bytes} (hbk : K b k) :
    disk.get [b] ≠ none := by
  rw [h.buckets b k hbk]
  exact Option.some_ne_none _

/-- An object that is written shows itself. -/
theorem FileSystem.Described.shows {bucket key content : Bytes} {attrs : ObjectAttributes} {etag : Bytes}
    {checksum : Checksum} {t : Tree Bytes UInt8}
    (hobject : ∃ m, t.get (bucket :: LexicalPath.segments key) = some (.file content m))
    (h : fs.Described bucket key attrs (modifyInternalInfo (saveETag [] etag) checksum) t disk') :
    fs.HoldsObject disk' bucket key ⟨content, attrs.toStandardAttributes, etag, checksum⟩ := by
  obtain ⟨t', hattributes, hinfo⟩ := h
  have hlength := length_path_ne_one bucket key
  constructor
  · rw [hinfo.get_path hlength, hattributes.get_path hlength]
    exact hobject
  · refine ⟨attrs, ?_, rfl⟩
    rw [attributesIn_congr (hinfo.get_file fun h => StoreFile.noConfusion h)]
    exact hattributes.attributesIn
  · exact ⟨_, hinfo.infoIn, tells_saved etag checksum⟩

theorem FileSystem.Represents.put (h : fs.Represents K m disk) (hK : ObjectKeys K) {input : PutObjectInput}
    {trailers : Option Http.HeaderMap} {output : PutObjectOutput} (hkey : K input.bucket input.key)
    (hput : fs.Does cred disk disk' (.putObject input trailers) (.ok (.put output))) :
    fs.Represents K (fs.after m (.putObject input trailers) (.ok (.put output))) disk' := by
  have hordinary := hK.ordinary fs hkey
  have horderly := hput.orderly hordinary h.orderly
  have hfile (f : StoreFile) (hf : ¬Sidecar input.bucket input.key f) : disk'.get [f.name] = disk.get [f.name] :=
    hput.get_file hordinary hf
  obtain ⟨p, hp, hwritten⟩ := hput
  obtain rfl := Option.some.inj ((hK.path fs hkey).symm.trans hp)
  have hbucket (b : Bytes) (hb : checkBucketName b = true) : disk'.get [b] = disk.get [b] :=
    hwritten.get_bucket hordinary hp (h.there hkey) hb
  rw [FileSystem.Put, if_neg (by rw [hK.not_slash hkey]; exact Bool.false_ne_true)] at hwritten
  obtain ⟨content, t, hbody, hetag, hplaces, hdescribed⟩ := hwritten
  have hshows := FileSystem.Described.shows hplaces.get_self hdescribed
  obtain ⟨t', hattributes, hinfo⟩ := hdescribed
  constructor
  · exact horderly
  · exact h.buckets_same hK hbucket
  · apply h.objects_put hK hkey
    · intro q hlength hq
      rw [hinfo.get_path hlength, hattributes.get_path hlength, hplaces.get_path hq]
    · exact fun f hf _ => hfile f hf
    · rw [hbody, hetag]
      exact hshows
  · exact h.uploads_same fun f hf => hfile f (not_ofUpload_sidecar f hf)

/-- The attributes of the copy. -/
theorem FileSystem.AttributesCopied.shows {input : CopyObjectInput} {bucket key : Bytes} {attrs : ObjectAttributes}
    (h : fs.AttributesCopied input bucket key disk disk')
    (hsource : fs.attributesIn disk (.metadata bucket key none) = some attrs) :
    ∃ attrs', fs.attributesIn disk' (.metadata input.bucket input.key none) = some attrs' ∧
      attrs'.toStandardAttributes =
        if input.metadataDirective = some (ascii "REPLACE") then input.attributes
        else attrs.toStandardAttributes := by
  unfold FileSystem.AttributesCopied at h
  split_ifs at h with hreplace hstays
  · exact ⟨_, h.attributesIn, by rw [if_pos hreplace]⟩
  · refine ⟨attrs, ?_, by rw [if_neg hreplace]⟩
    rcases hstays with hnone | ⟨rfl, rfl⟩
    · rw [FileSystem.attributesIn, hnone] at hsource
      cases hsource
    · rw [attributesIn_congr (h _)]
      exact hsource
  · obtain ⟨content, m, hfile, hwrites⟩ := h
    refine ⟨attrs, ?_, by rw [if_neg hreplace]⟩
    obtain ⟨m', hget⟩ := hwrites.get_self
    rw [FileSystem.attributesIn, hfile] at hsource
    rw [FileSystem.attributesIn, hget]
    exact hsource

theorem FileSystem.Represents.copied (h : fs.Represents K m disk) (hK : ObjectKeys K) {input : CopyObjectInput}
    {output : CopyObjectResult} (hkey : K input.bucket input.key)
    (hsource : ∀ bucket key, input.copySource = .object bucket key → K bucket key)
    (hcopy : fs.Does cred disk disk' (.copyObject input) (.ok (.copied output))) :
    fs.Represents K (fs.after m (.copyObject input) (.ok (.copied output))) disk' := by
  have hordinary := hK.ordinary fs hkey
  have horderly := hcopy.orderly hordinary h.orderly
  have hfile (f : StoreFile) (hf : ¬Sidecar input.bucket input.key f) : disk'.get [f.name] = disk.get [f.name] :=
    hcopy.get_file hordinary hf
  obtain ⟨hthere, hcopied⟩ := hcopy
  have hbucket (b : Bytes) (hb : checkBucketName b = true) : disk'.get [b] = disk.get [b] :=
    hcopied.get_bucket hordinary hthere hb
  obtain ⟨bucket, key, srcPath, dstPath, content, n, srcInfo, t, t', hfrom, hsrcPath, hdstPath, hcontent, hreads,
    hetag, hplaces, hattributes, hinfo⟩ := hcopied
  have hsrc := hsource bucket key hfrom
  obtain rfl := Option.some.inj ((hK.path fs hsrc).symm.trans hsrcPath)
  obtain rfl := Option.some.inj ((hK.path fs hkey).symm.trans hdstPath)
  have hafter : fs.after m (.copyObject input) (.ok (.copied output)) = m.put input.bucket input.key
      ((m.objects bucket key).map fun o => ⟨o.data,
        if input.metadataDirective = some (ascii "REPLACE") then input.attributes else o.attributes,
        output.etag.value, o.checksum⟩) := by
    simp only [FileSystem.after, ObjectMap.copy, hfrom]
  have hlength := length_path_ne_one input.bucket input.key
  have hplaced (f : StoreFile) : t.get [f.name] = disk.get [f.name] :=
    hplaces.get_file (fun name => below_orderly hordinary hdstPath) f
  rw [hafter]
  constructor
  · exact horderly
  · exact h.buckets_same hK hbucket
  · apply h.objects_put hK hkey
    · intro q hq hpre
      rw [hinfo.get_path hq, hattributes.get_path hq, hplaces.get_path hpre]
    · exact fun f hf _ => hfile f hf
    · have hheld := h.objects bucket key hsrc
      cases ho : m.objects bucket key with
      | none =>
        rw [ho] at hheld
        rw [show disk.get (bucket :: LexicalPath.segments key) = none from hheld] at hcontent
        cases hcontent
      | some o =>
        rw [ho] at hheld
        obtain ⟨⟨n', hdata⟩, ⟨attrs, hattrs, hstandard⟩, info, hinfoIn, htells⟩ := hheld
        obtain ⟨rfl, -⟩ : content = o.data ∧ n = n' := by simpa [hcontent] using hdata
        obtain rfl : srcInfo = some info := hreads.eq_infoIn.trans hinfoIn
        have hvalue : ((some info).bind loadETag).getD (fs.md5Sum o.data) = o.etag := by
          rw [Option.bind_some, htells.etag, Option.getD_some]
        rw [hvalue] at hetag hinfo
        rw [Option.map_some, hetag]
        constructor
        · rw [hinfo.get_path hlength, hattributes.get_path hlength]
          exact hplaces.get_self
        · obtain ⟨attrs', hshown, hequal⟩ :=
            hattributes.shows ((attributesIn_congr (hplaced _)).trans hattrs)
          refine ⟨attrs', ?_, by rw [hequal, hstandard]⟩
          rw [attributesIn_congr (hinfo.get_file fun h => StoreFile.noConfusion h)]
          exact hshown
        · exact ⟨_, hinfo.infoIn, htells.saveETag⟩
  · exact h.uploads_same fun f hf => hfile f (not_ofUpload_sidecar f hf)

/-- A copy that fails leaves the objects as they are. -/
theorem FileSystem.Represents.directoriesMade (h : fs.Represents K m disk) (hK : ObjectKeys K)
    {bucket key : Bytes} (hkey : K bucket key) (hmade : fs.DirectoriesMade bucket key disk disk') :
    fs.Represents K m disk' := by
  have hordinary := hK.ordinary fs hkey
  rcases hmade with halike | ⟨hthere, p, hp, hdigs⟩
  · exact h.alike halike
  obtain rfl := Option.some.inj ((hK.path fs hkey).symm.trans hp)
  have hfile (f : StoreFile) : disk'.get [f.name] = disk.get [f.name] :=
    hdigs.get_file (fun name hname hhead => below_orderly hordinary hp hname (head?_of_dropLast hhead)) f
  constructor
  · exact hdigs.orderly_dropLast hordinary hp h.orderly
  · apply h.buckets_same hK
    exact fun b _ => FileSystem.DirectoriesMade.get_name (Or.inr ⟨hthere, _, hp, hdigs⟩) hordinary b
  · intro b k hbk
    refine (h.objects b k hbk).congr (hdigs.get_path ?_) fun f _ => hfile f
    intro hpre
    by_cases hsame : b = bucket ∧ k = key
    · obtain ⟨rfl, rfl⟩ := hsame
      exact not_prefix_dropLast (List.cons_ne_nil _ _) hpre
    · exact hK.not_prefix hbk hkey hsame (hpre.trans (List.dropLast_prefix _))
  · exact h.uploads_same fun f _ => hfile f

/-- One object goes. -/
theorem FileSystem.Represents.deleted (h : fs.Represents K m disk) (hK : ObjectKeys K) {bucket key : Bytes}
    (hkey : K bucket key) {p : List Bytes} (hp : fs.pathOf bucket key = some p)
    (hdeleted : Deleted key p disk disk') : fs.Represents K (m.put bucket key none) disk' := by
  have hordinary := hK.ordinary fs hkey
  have hfile (f : StoreFile) : disk'.get [f.name] = disk.get [f.name] :=
    hdeleted.get_file (fun name => below_orderly hordinary hp) f
  obtain rfl := Option.some.inj ((hK.path fs hkey).symm.trans hp)
  constructor
  · exact hdeleted.orderly h.orderly
  · exact h.buckets_same hK fun b _ => hdeleted.get_name (length_path_ne_one bucket key) b
  · apply h.objects_put hK hkey
    · intro q _ hq
      refine hdeleted.get_path ?_
      rintro rfl
      exact hq List.prefix_rfl
    · exact fun f _ _ => hfile f
    · exact hdeleted.2 (hK.not_slash hkey)
  · exact h.uploads_same fun f _ => hfile f

theorem FileSystem.Represents.deletedAll (h : fs.Represents K m disk) (hK : ObjectKeys K) {bucket : Bytes}
    {objects : List DeletedObject} (hkeys : ∀ o ∈ objects, K bucket o.key)
    (hdeleted : fs.DeletedAll bucket objects disk disk') :
    fs.Represents K (objects.foldl (fun m o => m.put bucket o.key none) m) disk' := by
  induction hdeleted generalizing m with
  | nil halike => exact h.alike halike
  | @cons object objects p _ _ _ hp hhead _ ih =>
    rw [List.foldl_cons]
    apply ih
    · exact h.deleted hK (hkeys object List.mem_cons_self) hp hhead
    · exact fun o ho => hkeys o (List.mem_cons_of_mem _ ho)

/-- An upload comes to another state where nothing else is touched. -/
theorem FileSystem.Represents.upload (h : fs.Represents K m disk) {u : Uuid} {s : UploadState}
    (horderly : Orderly disk') (hpath : ∀ q, q.length ≠ 1 → disk'.get q = disk.get q)
    (hbuckets : ∀ b k, K b k → disk'.get [b] = some .dir)
    (hfile : ∀ f, ¬((∃ bucket key, RecordOf bucket key u f) ∨ PartOf u f) → disk'.get [f.name] = disk.get [f.name])
    (hshows : fs.ShowsUpload disk' u s) : fs.Represents K (m.setUpload u s) disk' := by
  constructor
  · exact horderly
  · exact hbuckets
  · exact h.objects_same hpath fun f hf => hfile f fun hof => hf (ofUpload_of_file hof)
  · apply h.uploads_set
    · exact fun v hv f hf => hfile f fun hf' => hv (file_inj hf hf')
    · exact hshows

theorem FileSystem.Represents.created (h : fs.Represents K m disk) (hK : ObjectKeys K)
    {input : CreateMultipartUploadInput} {drawn : Uuid} {response : Response}
    (hfresh : m.uploads drawn = .unknown)
    (hcreate : fs.Does cred disk disk' (.createMultipartUpload input drawn) (.ok response)) :
    fs.Represents K (fs.after m (.createMultipartUpload input drawn) (.ok response)) disk' := by
  have horderly := hcreate.orderly trivial h.orderly
  have hcreated : fs.Created input cred drawn disk disk' := hcreate
  obtain ⟨t, hrecord, hattributes⟩ := hcreated
  apply h.upload horderly
  · intro q hq
    rw [hattributes.get_path hq, hrecord.get_path hq]
  · apply h.buckets_same hK
    intro b hb
    rw [hattributes.get_bucket hb, hrecord.get_bucket hb]
  · intro f hf
    rw [hattributes.get_file fun h => hf (Or.inl ⟨_, _, Or.inr h⟩),
      hrecord.get_file fun h => hf (Or.inl ⟨input.bucket, input.key, Or.inl h⟩)]
  · have hunknown := h.uploads drawn
    rw [hfresh] at hunknown
    constructor
    · exact ⟨_, hattributes.attributesIn, rfl⟩
    · intro n
      rw [← hunknown.2 n]
      apply partAt_congr
      rw [hattributes.get_file fun h => StoreFile.noConfusion h, hrecord.get_file fun h => StoreFile.noConfusion h]

/-- An upload that is recorded is under way. -/
theorem FileSystem.Represents.opened (h : fs.Represents K m disk) {u : Uuid} (hrecord : fs.Recorded disk u cred) :
    ∃ up, m.uploads u = .opened up := by
  have hstored := hrecord.stored
  have hshown := h.uploads u
  cases hu : m.uploads u with
  | unknown =>
    rw [hu] at hshown
    exact absurd hshown.1 hstored
  | opened up => exact ⟨up, rfl⟩
  | ended =>
    rw [hu] at hshown
    exact absurd hshown hstored

theorem FileSystem.Represents.part (h : fs.Represents K m disk) (hK : ObjectKeys K) {input : UploadPartInput}
    {trailers : Option Http.HeaderMap} {output : UploadPartOutput}
    (hpart : fs.Does cred disk disk' (.uploadPart input trailers) (.ok (.part output))) :
    fs.Represents K (fs.after m (.uploadPart input trailers) (.ok (.part output))) disk' := by
  have horderly := hpart.orderly trivial h.orderly
  obtain ⟨u, content, hu, hrecord, -, hbody, -, t, hwrites, hinfo⟩ := hpart
  obtain ⟨up, hup⟩ := h.opened hrecord
  have hafter : fs.after m (.uploadPart input trailers) (.ok (.part output)) =
      m.setUpload u (.opened { up with parts := Function.update up.parts input.partNumber (some content) }) := by
    simp only [FileSystem.after, hu, ObjectMap.putPart, hup, hbody]
  rw [hafter]
  apply h.upload horderly
  · intro q hq
    rw [hinfo.get_path hq, hwrites.get_path hq]
  · apply h.buckets_same hK
    intro b hb
    rw [hinfo.get_bucket hb, hwrites.get_bucket hb]
  · intro f hf
    rw [hinfo.get_file fun h => hf (Or.inr ⟨_, Or.inr h⟩), hwrites.get_file fun h => hf (Or.inr ⟨_, Or.inl h⟩)]
  · have hshown := h.uploads u
    rw [hup] at hshown
    obtain ⟨⟨attrs, hattrs, hstandard⟩, hparts⟩ := hshown
    constructor
    · refine ⟨attrs, ?_, hstandard⟩
      rw [attributesIn_congr (hinfo.get_file fun h => StoreFile.noConfusion h),
        attributesIn_congr (hwrites.get_file fun h => StoreFile.noConfusion h)]
      exact hattrs
    · intro n
      rw [partAt_congr (hinfo.get_file fun h => StoreFile.noConfusion h)]
      show partAt t u n = Function.update up.parts input.partNumber (some content) n
      by_cases hn : n = input.partNumber
      · obtain ⟨n', hget⟩ := hwrites.get_self
        rw [hn, Function.update_self, partAt, hget]
      · rw [Function.update_of_ne hn, ← hparts n]
        apply partAt_congr
        apply hwrites.get_file
        intro heq
        injection heq with _ heq
        exact hn heq

/-- The content of the listed parts is the one of the upload. -/
theorem StoredParts.flatten_eq {u : Uuid} {parts : Int → Option Bytes} (hparts : ∀ n, partAt disk u n = parts n)
    {cnt : Int} {listed : List CompletedPart} {contents : List Bytes} (h : StoredParts disk u cnt listed contents) :
    contents.flatten = (listed.filterMap CompletedPart.partNumber).flatMap fun n => (parts n).getD [] := by
  induction h with
  | nil cnt => rfl
  | @cons cnt part listed content contents head _ ih =>
    obtain ⟨n, hfile⟩ := head.file
    rw [List.flatten_cons, List.filterMap_cons_some head.number, List.flatMap_cons, ih, ← hparts, partAt, hfile]
    rfl

theorem FileSystem.Represents.completed (h : fs.Represents K m disk) (hK : ObjectKeys K)
    {input : CompleteMultipartUploadInput} {output : CompleteMultipartUploadOutput}
    (hkey : K input.bucket input.key) (hused : fs.UsedAsCreated m input.uploadId input.bucket input.key)
    (hcomplete : fs.Does cred disk disk' (.completeMultipartUpload input) (.ok (.completed output))) :
    fs.Represents K (fs.after m (.completeMultipartUpload input) (.ok (.completed output))) disk' := by
  have hordinary := hK.ordinary fs hkey
  have horderly := hcomplete.orderly hordinary h.orderly
  obtain ⟨u, hu, hrecord, hcompleted⟩ := hcomplete
  obtain ⟨up, hup⟩ := h.opened hrecord
  obtain ⟨hbucketIs, hkeyIs⟩ := hused u up hu hup
  have hbucket (b : Bytes) (hb : checkBucketName b = true) : disk'.get [b] = disk.get [b] :=
    hcompleted.get_bucket hordinary (h.there hkey) hb
  have hfile (f : StoreFile) (hsidecar : ¬Sidecar input.bucket input.key f)
      (hleftover : ¬Leftover input.bucket input.key u (listedNumbers input) f) :
      disk'.get [f.name] = disk.get [f.name] := hcompleted.get_file hordinary hsidecar hleftover
  obtain ⟨p, contents, attrs, t, t', t'', hp, hlisted, hreads, hetag, hplaces, hattributes, hinfo, hwipes⟩ :=
    hcompleted
  obtain rfl := Option.some.inj ((hK.path fs hkey).symm.trans hp)
  have hshown := h.uploads u
  rw [hup] at hshown
  obtain ⟨⟨attrs', hattrs, hstandard⟩, hparts⟩ := hshown
  rw [hbucketIs, hkeyIs] at hattrs
  obtain rfl : attrs = some attrs' := hreads.eq_attributesIn.trans hattrs
  have hofUpload {f : StoreFile} (hf : Leftover input.bucket input.key u (listedNumbers input) f) :
      (∃ bucket key, RecordOf bucket key u f) ∨ PartOf u f := by
    rcases hf with hf | ⟨n, -, hf⟩ | hf
    · exact Or.inl ⟨_, _, Or.inr hf⟩
    · exact Or.inr ⟨n, hf⟩
    · exact Or.inl ⟨input.bucket, input.key, Or.inl hf⟩
  have hkept (f : StoreFile) (hf : ¬OfUpload f) : disk'.get [f.name] = t''.get [f.name] :=
    hwipes.rest _ fun hat => hf (ofUpload_of_file (hofUpload (at_name.mp hat)))
  have hafter : fs.after m (.completeMultipartUpload input) (.ok (.completed output)) =
      (m.put input.bucket input.key (some ⟨contents.flatten, up.attributes, fs.multipartETag contents,
        output.checksum⟩)).setUpload u .ended := by
    simp only [FileSystem.after, hu, ObjectMap.complete, hup, hetag, ETag.value, hlisted.flatten_eq hparts,
      listedNumbers]
  have hlength := length_path_ne_one input.bucket input.key
  rw [hafter]
  constructor
  · exact horderly
  · exact h.buckets_same hK hbucket
  · apply h.objects_put hK hkey
    · intro q hq hpre
      rw [hwipes.get_path hq, hinfo.get_path hq, hattributes.get_path hq, hplaces.get_path hpre]
    · exact fun f hf hof => hfile f hf fun hleft => hof (ofUpload_of_file (hofUpload hleft))
    · constructor
      · rw [hwipes.get_path hlength, hinfo.get_path hlength, hattributes.get_path hlength]
        exact hplaces.get_self
      · refine ⟨attrs', ?_, hstandard⟩
        rw [attributesIn_congr (hkept (.metadata input.bucket input.key none) fun h => h),
          attributesIn_congr (hinfo.get_file fun h => StoreFile.noConfusion h)]
        exact Writes.attributesIn hattributes
      · refine ⟨_, ?_, tells_saved _ _⟩
        rw [infoIn_congr fs (hkept (.internalInfo input.bucket input.key) fun h => h)]
        exact hinfo.infoIn
  · have hrest (v : Uuid) (hv : v ≠ u) (f : StoreFile)
        (hf : (∃ bucket key, RecordOf bucket key v f) ∨ PartOf v f) : disk'.get [f.name] = disk.get [f.name] := by
      apply hfile
      · exact not_ofUpload_sidecar f (ofUpload_of_file hf)
      · exact fun hleft => hv (file_inj hf (hofUpload hleft))
    have hgone : fs.ShowsUpload disk' u .ended := hwipes.gone _ (at_name.mpr (Or.inr (Or.inr rfl)))
    exact h.uploads_set hrest hgone

/-- What an abort finds of an upload by the names are its parts. -/
theorem partOf_of_isResidue {u : Uuid} {f : StoreFile} (h : isResidue u f.name = true) : PartOf u f := by
  have htext {v : Uuid} {rest : Bytes} (hpre : u.text <+: v.text ++ rest) : v = u := by
    apply Uuid.text_injective
    refine (List.IsPrefix.eq_of_length ?_ ?_).symm
    · exact List.prefix_of_prefix_length_le hpre (List.prefix_append _ _) (by simp [Uuid.text_length])
    · simp [Uuid.text_length]
  cases f with
  | uploadPart v n =>
    have hpre : u.text <+: v.text ++ (ascii ".part-" ++ partText n) := by
      simpa [isResidue, StoreFile.name, ascii, List.isPrefixOf] using h
    exact ⟨n, Or.inl (by rw [htext hpre])⟩
  | uploadPartInfo v n =>
    have hpre : u.text <+: v.text ++ (ascii ".part-" ++ (partText n ++ ascii ".json")) := by
      simpa [isResidue, StoreFile.name, ascii, List.isPrefixOf] using h
    exact ⟨n, Or.inr (by rw [htext hpre])⟩
  | _ => simp [isResidue, StoreFile.name, ascii, List.isPrefixOf] at h

theorem FileSystem.Represents.aborted (h : fs.Represents K m disk) (hK : ObjectKeys K)
    {bucket key uploadId : Bytes} {response : Response}
    (habort : fs.Does cred disk disk' (.abortMultipartUpload bucket key uploadId) (.ok response)) :
    fs.Represents K (fs.after m (.abortMultipartUpload bucket key uploadId) (.ok response)) disk' := by
  have horderly := habort.orderly trivial h.orderly
  obtain ⟨u, hu, -, hwipes⟩ := habort
  have hafter : fs.after m (.abortMultipartUpload bucket key uploadId) (.ok response) = m.setUpload u .ended := by
    simp only [FileSystem.after, hu]
  rw [hafter]
  apply h.upload horderly
  · intro q hq
    refine hwipes.rest q ?_
    rintro (⟨f, -, rfl⟩ | ⟨name, -, rfl⟩) <;> exact hq rfl
  · apply h.buckets_same hK
    exact fun b hb => hwipes.rest _ (not_remains_bucket hb)
  · intro f hf
    refine hwipes.rest _ ?_
    rintro (hat | ⟨name, hname, hq⟩)
    · exact hf (Or.inl ⟨bucket, key, at_name.mp hat⟩)
    · rw [← List.head_eq_of_cons_eq hq] at hname
      exact hf (Or.inr (partOf_of_isResidue hname))
  · exact hwipes.gone _ (Or.inl (at_name.mpr (Or.inl rfl)))

theorem failsOnly_removeFileIfExists (p : List Bytes) : (removeFileIfExists p).FailsOnly IsIo := by
  intro x
  cases x with
  | ok _ => trivial
  | error kind => cases kind <;> first | trivial | exact ⟨_, rfl⟩

/-- The keys in use are deleted unless the files fail. -/
theorem failsOnly_deleteObjects (hK : ObjectKeys K) {bucket : Bytes} {objects : List DeletedObject}
    (hkeys : ∀ o ∈ objects, K bucket o.key) : (fs.deleteObjects bucket objects).FailsOnly IsIo := by
  induction objects with
  | nil => trivial
  | cons object objects ih =>
    have hkey := hkeys object List.mem_cons_self
    apply Prog.FailsOnly.bind
    · rw [FileSystem.deleteOne, getObjectPath_eq, hK.path fs hkey, hK.not_slash hkey]
      exact failsOnly_removeFileIfExists _
    · intro _
      exact (ih fun o ho => hkeys o (List.mem_cons_of_mem _ ho)).bind fun _ => trivial

theorem FileSystem.InUse.ordinary (hK : ObjectKeys K) {r : Request} (hr : fs.InUse K m r) :
    fs.OrdinaryRequest r := by
  cases r with
  | createBucket bucket => exact hr.elim
  | deleteBucket bucket => exact hr.elim
  | putObject input trailers => exact hK.ordinary fs hr
  | copyObject input => exact hK.ordinary fs hr.1
  | deleteObject bucket key => exact hK.ordinary fs hr
  | deleteObjects bucket objects => exact fun o ho => hK.ordinary fs (hr o ho)
  | completeMultipartUpload input => exact hK.ordinary fs hr.1
  | _ => trivial

/-- One request keeps the files to what the map says. -/
theorem FileSystem.Represents.serve {w : World} (h : fs.Represents K m w.disk) (hK : ObjectKeys K) (r : Request)
    (hr : fs.InUse K m r) (hio : ∀ e, (fs.serve cred r w).1 = .error e → ¬IsIo e) :
    fs.Represents K (fs.after m r (fs.serve cred r w).1) (fs.serve cred r w).2.disk := by
  have hdoes := serve_does fs cred h.orderly r (hr.ordinary hK)
  generalize hx : (fs.serve cred r w).1 = x at hdoes hio ⊢
  generalize hw : (fs.serve cred r w).2 = w' at hdoes ⊢
  cases r with
  | createBucket bucket => exact hr.elim
  | deleteBucket bucket => exact hr.elim
  | uploadPartCopy input => exact hr.elim
  | putObject input trailers =>
    cases x with
    | error e => exact h.alike hdoes
    | ok response =>
      cases response with
      | put output => exact h.put hK hr hdoes
      | _ => exact h.alike hdoes
  | copyObject input =>
    cases x with
    | error e => exact h.directoriesMade hK hr.1 hdoes
    | ok response =>
      cases response with
      | copied output => exact h.copied hK hr.1 hr.2 hdoes
      | _ => exact h.alike hdoes
  | deleteObject bucket key =>
    cases x with
    | error e => exact h.alike hdoes
    | ok response =>
      obtain ⟨p, hp, hdeleted⟩ := hdoes
      exact h.deleted hK hr hp hdeleted
  | deleteObjects bucket objects =>
    cases x with
    | error e =>
      have hfails : (fs.deleteObjects bucket objects).Meets World.step w (fun _ _ => True) fun e _ => IsIo e :=
        (failsOnly_deleteObjects hK hr).meets w
      have hfails' := alone_of_meets (f := Response.deleted) (D := fun x _ => ∀ e, x = .error e → IsIo e)
        (hfails.mono (fun _ _ _ e h => by cases h) fun e _ he e' h => by cases h; exact he)
      exact absurd (hfails' e hx) (hio e rfl)
    | ok response => exact h.deletedAll hK hr hdoes
  | createMultipartUpload input drawn =>
    cases x with
    | error e => exact h.alike hdoes
    | ok response => exact h.created hK hr.2 hdoes
  | uploadPart input trailers =>
    cases x with
    | error e => exact h.alike hdoes
    | ok response =>
      cases response with
      | part output => exact h.part hK hdoes
      | _ => exact h.alike hdoes
  | completeMultipartUpload input =>
    cases x with
    | error e => exact h.alike hdoes
    | ok response =>
      cases response with
      | completed output => exact h.completed hK hr.1 hr.2 hdoes
      | _ => exact h.alike hdoes
  | abortMultipartUpload bucket key uploadId =>
    cases x with
    | error e => exact h.alike hdoes
    | ok response => exact h.aborted hK hdoes
  | _ => exact h.alike hdoes

end Steps

section Answers

variable (fs : FileSystem) (w : World) (bucket key : Bytes)

/-- How the requests to read an object are answered where it is this one. A length is an `i64`. -/
structure FileSystem.AnswersObject (o : WrittenObject) : Prop where
  head : ∃ modified, ((fs.headObject bucket key).run World.step w).1 =
    .ok ⟨o.data.length, modified, o.attributes, .strong o.etag, o.checksum⟩
  whole : o.data.length ≤ i64Max → ∃ modified, ((fs.getObject bucket key none).run World.step w).1 =
    .ok ⟨⟨o.data.length, modified, o.attributes, .strong o.etag, o.checksum⟩, .ok o.data, none⟩
  interval : ∀ range a b, range.check o.data.length = some (a, b) → InReach range o.data.length →
    b - a ≤ i64Max → ∃ output, ((fs.getObject bucket key (some range)).run World.step w).1 = .ok output ∧
      ReadsInterval o.data a b output

/-- How the requests to read an object are answered where there is none. -/
structure FileSystem.AnswersMissing : Prop where
  head : ((fs.headObject bucket key).run World.step w).1 = .error (bare .noSuchKey)
  get : ∀ range, ∃ kind, ((fs.getObject bucket key range).run World.step w).1 =
    .error (.error ⟨.noSuchKey, none, some (.io kind)⟩)

/-- How the requests to read an object are answered. -/
def FileSystem.Answers : Option WrittenObject → Prop
  | some o => fs.AnswersObject w bucket key o
  | none => fs.AnswersMissing w bucket key

variable {fs w bucket key} {K : Bytes → Bytes → Prop} {o : WrittenObject}

/-- A program that does not fail is answered with a value. -/
theorem ok_of_meets {α : Type} {p : Op α} {Q : α → Prop}
    (h : p.Meets World.step w (fun a _ => Q a) fun _ _ => False) : ∃ a, (p.run World.step w).1 = .ok a ∧ Q a := by
  unfold Prog.Meets at h
  rcases hrun : p.run World.step w with ⟨_ | a, w'⟩
  · rw [hrun] at h
    exact h.elim
  · rw [hrun] at h
    exact ⟨a, rfl, h⟩

/-- A program that does not return is answered with an error. -/
theorem error_of_meets {α : Type} {p : Op α} {E : Failure → Prop}
    (h : p.Meets World.step w (fun _ _ => False) fun e _ => E e) :
    ∃ e, (p.run World.step w).1 = .error e ∧ E e := by
  unfold Prog.Meets at h
  rcases hrun : p.run World.step w with ⟨e | _, w'⟩
  · rw [hrun] at h
    exact ⟨e, rfl, h⟩
  · rw [hrun] at h
    exact h.elim

theorem FileSystem.HoldsObject.stored (h : fs.HoldsObject w.disk bucket key o)
    (hpath : fs.pathOf bucket key = some (bucket :: LexicalPath.segments key)) :
    fs.StoredObject w.disk bucket key o.data := by
  obtain ⟨⟨m, hdata⟩, ⟨attrs, hattrs, -⟩, info, hinfo, htells⟩ := h
  constructor
  · exact ⟨_, m, hpath, hdata⟩
  · intro hdir
    rw [FileSystem.attributesIn, hdir] at hattrs
    cases hattrs
  · intro e he
    rw [FileSystem.infoIn, he] at hinfo
    cases e with
    | dir => cases hinfo
    | file text n => exact ⟨text, n, info, rfl, hinfo, List.all_eq_true.mpr fun a _ => htells.texts a⟩

/-- What is told of an object is what was written. -/
theorem FileSystem.HoldsObject.describe (h : fs.HoldsObject w.disk bucket key o)
    (hpath : fs.pathOf bucket key = some (bucket :: LexicalPath.segments key)) :
    (fs.describe bucket key true).Meets World.step w
      (fun x _ => standardOf x.1 = o.attributes ∧ x.2.1 = o.etag ∧ x.2.2 = o.checksum) fun _ _ => False := by
  have hstored := h.stored hpath
  obtain ⟨-, ⟨attrs, hattrs, hstandard⟩, info, hinfo, htells⟩ := h
  refine ((meets_loadObjectAttributes fs bucket key none).and
    (meets_loadAttributes_stored hstored.attributes)).bind ?_ fun _ _ h => h.2
  rintro attrs' w₁ ⟨⟨h₁, hreads⟩, -⟩
  obtain rfl : attrs' = some attrs := hreads.eq_attributesIn.trans hattrs
  have hstored₁ : fs.StoredObject w₁.disk bucket key o.data := by rwa [h₁.disk]
  refine ((meets_loadInfo fs (.internalInfo bucket key)).and
    (meets_loadInternalInfo_stored hstored₁)).bind ?_ fun _ _ h => h.2
  rintro info' w₂ ⟨⟨-, hreads⟩, -⟩
  rw [h₁.disk] at hreads
  obtain rfl : info' = some info := (hreads.eq_infoIn fs).trans hinfo
  have hall : (ChecksumAlgorithm.all.all fun a => (info.find a.field).all Option.isSome) = true :=
    List.all_eq_true.mpr fun a _ => htells.texts a
  have hetag : fs.objectETag bucket key (some info) = pure o.etag := by
    rw [FileSystem.objectETag, Option.bind_some, htells.etag]
  have hchecksum : storedChecksum (some info) true = (pure o.checksum : Op Checksum) := by
    simp only [storedChecksum, fromInternalInfo, hall, require, if_true]
    exact congrArg Prog.ret (funext htells.checksum)
  rw [hetag, hchecksum]
  exact ⟨hstandard, rfl, rfl⟩

theorem FileSystem.HoldsObject.head (h : fs.HoldsObject w.disk bucket key o)
    (hpath : fs.pathOf bucket key = some (bucket :: LexicalPath.segments key)) :
    (fs.headObject bucket key).Meets World.step w
      (fun output _ => ∃ modified, output = ⟨o.data.length, modified, o.attributes, .strong o.etag, o.checksum⟩)
      fun _ _ => False := by
  have hobject := h.data
  obtain ⟨m, hdata⟩ := hobject
  rw [FileSystem.headObject, getObjectPath_eq, hpath]
  refine (meets_pathExists _).bind ?_ fun _ _ h => h.elim
  rintro present w₁ ⟨h₁, hpresent⟩
  obtain rfl : present = true := by rw [hpresent, hdata]; rfl
  refine (meets_metadata _).bind ?_ ?_
  · rintro stat w₂ ⟨h₂, entry, hentry, rfl⟩
    rw [h₁.disk, hdata] at hentry
    obtain rfl := Option.some.inj hentry
    have h' : fs.HoldsObject w₂.disk bucket key o := by rwa [(h₁.trans h₂).disk]
    refine (h'.describe hpath).bind ?_ fun _ _ h => h.elim
    rintro ⟨attrs, md5Sum, checksum⟩ w₃ ⟨hattrs, rfl, rfl⟩
    exact ⟨m, by rw [← hattrs]; rfl⟩
  · rintro e w₂ ⟨-, -, hnone⟩
    rw [h₁.disk, hdata] at hnone
    cases hnone

theorem FileSystem.HoldsObject.get (h : fs.HoldsObject w.disk bucket key o)
    (hpath : fs.pathOf bucket key = some (bucket :: LexicalPath.segments key)) (hlength : o.data.length ≤ i64Max) :
    (fs.getObject bucket key none).Meets World.step w
      (fun output _ => ∃ modified, output =
        ⟨⟨o.data.length, modified, o.attributes, .strong o.etag, o.checksum⟩, .ok o.data, none⟩)
      fun _ _ => False := by
  have hobject := h.data
  obtain ⟨m, hdata⟩ := hobject
  rw [FileSystem.getObject, getObjectPath_eq, hpath]
  refine (meets_openObject _).bind ?_ ?_
  · rintro file w₁ ⟨h₁, hopened⟩
    obtain rfl : .file o.data m = file := Option.some.inj (hdata.symm.trans hopened)
    refine (meets_metadata _).bind ?_ ?_
    · rintro stat w₂ ⟨h₂, entry, hentry, rfl⟩
      rw [h₁.disk, hdata] at hentry
      obtain rfl := Option.some.inj hentry
      have h' : fs.HoldsObject w₂.disk bucket key o := by rwa [(h₁.trans h₂).disk]
      have hlen : ((Entry.file o.data m).stat w₁.around).len = o.data.length := rfl
      have hselect (n : Nat) : selectRange none n = .ret (n, none) := rfl
      have hseek (n : Nat) : seekPosition none n = .ret 0 := rfl
      simp only [hselect, hseek, hlen, ret_bind, decide_eq_true hlength, require, if_true, beq_self_eq_true]
      refine (h'.describe hpath).bind ?_ fun _ _ h => h.elim
      rintro ⟨attrs, md5Sum, checksum⟩ w₃ ⟨hattrs, rfl, rfl⟩
      refine ⟨m, ?_⟩
      rw [← hattrs, readFrom, List.drop_zero, List.take_length]
      rfl
    · rintro e w₂ ⟨-, -, hnone⟩
      rw [h₁.disk, hdata] at hnone
      cases hnone
  · rintro e w₁ ⟨-, hnone⟩
    rw [hdata] at hnone
    cases hnone

theorem FileSystem.HoldsObject.answers (h : fs.HoldsObject w.disk bucket key o)
    (hpath : fs.pathOf bucket key = some (bucket :: LexicalPath.segments key)) :
    fs.AnswersObject w bucket key o := by
  constructor
  · obtain ⟨_, hrun, modified, rfl⟩ := ok_of_meets (h.head hpath)
    exact ⟨modified, hrun⟩
  · intro hlength
    obtain ⟨_, hrun, modified, rfl⟩ := ok_of_meets (h.get hpath hlength)
    exact ⟨modified, hrun⟩
  · intro range a b hcheck hreach hlength
    have hmeets := (meets_getObject_range (h.stored hpath) hcheck).mono
      (fun _ _ h => h.1) fun _ _ h => h ⟨hreach, hlength⟩
    exact ok_of_meets hmeets

theorem failsOnly_openObject (p : List Bytes) :
    (openObject p).FailsOnly fun e => ∃ kind, e = .error ⟨.noSuchKey, none, some (.io kind)⟩ := by
  intro x
  cases x with
  | ok _ => trivial
  | error kind => exact ⟨kind, rfl⟩

/-- An object that is not there is told so. -/
theorem answersMissing (hpath : fs.pathOf bucket key = some (bucket :: LexicalPath.segments key))
    (hname : IsName bucket) (hbucket : w.disk.get [bucket] = some .dir)
    (hnone : w.disk.get (bucket :: LexicalPath.segments key) = none) : fs.AnswersMissing w bucket key := by
  constructor
  · have hmeets : (fs.headObject bucket key).Meets World.step w (fun _ _ => False)
        fun e _ => e = bare .noSuchKey := by
      rw [FileSystem.headObject, getObjectPath_eq, hpath]
      refine (meets_pathExists _).bind ?_ fun _ _ h => h.elim
      rintro present w₁ ⟨h₁, hpresent⟩
      obtain rfl : present = false := by rw [hpresent, hnone]; rfl
      simp only [getBucketPath_eq fs hname, ret_bind]
      refine (meets_pathExists _).bind ?_ fun _ _ h => h.elim
      rintro present w₂ ⟨-, hpresent⟩
      obtain rfl : present = true := by rw [hpresent, h₁.disk, hbucket]; rfl
      rfl
    obtain ⟨_, hrun, rfl⟩ := error_of_meets hmeets
    exact hrun
  · intro range
    have hmeets : (fs.getObject bucket key range).Meets World.step w (fun _ _ => False)
        fun e _ => ∃ kind, e = .error ⟨.noSuchKey, none, some (.io kind)⟩ := by
      rw [FileSystem.getObject, getObjectPath_eq, hpath]
      refine ((meets_openObject _).and ((failsOnly_openObject _).meets w)).bind ?_ fun _ _ h => h.2
      rintro file w₁ ⟨⟨-, hfile⟩, -⟩
      rw [hnone] at hfile
      cases hfile
    obtain ⟨_, hrun, kind, rfl⟩ := error_of_meets hmeets
    exact ⟨kind, hrun⟩

end Answers

section Runs

variable {fs : FileSystem} {K : Bytes → Bytes → Prop} {w : World} {s : World × ObjectMap}

/-- In every run the files are what the map says. -/
theorem represents_of_reaches (hK : ObjectKeys K) (hvacant : Vacant K w.disk)
    (h : Reaches fs.nextObjects (fs.ObjectStep K) (w, .empty) s) : fs.Represents K s.2 s.1.disk := by
  refine h.invariant (I := fun s => fs.Represents K s.2 s.1.disk) hvacant.represents ?_
  intro s r hs hstep
  exact hs.serve hK r.2 hstep.1 hstep.2

/-- In every run, an object is read as the map of objects says: what was put, copied or completed last, or
nothing where it was deleted since. -/
theorem objects_read_as_written (hK : ObjectKeys K) (hvacant : Vacant K w.disk)
    (h : Reaches fs.nextObjects (fs.ObjectStep K) (w, .empty) s) {bucket key : Bytes} (hkey : K bucket key) :
    fs.Answers s.1 bucket key (s.2.objects bucket key) := by
  have hrepresents := represents_of_reaches hK hvacant h
  have hshows := hrepresents.objects bucket key hkey
  have hpath := hK.path fs hkey
  cases ho : s.2.objects bucket key with
  | some o =>
    rw [ho] at hshows
    exact FileSystem.HoldsObject.answers hshows hpath
  | none =>
    rw [ho] at hshows
    exact answersMissing hpath (isName_of_checkBucketName (hK.bucket bucket key hkey))
      (hrepresents.buckets bucket key hkey) hshows

end Runs

section Samples

/-- One key in use. -/
def OnlyPicsA (bucket key : Bytes) : Prop := bucket = ascii "pics" ∧ key = ascii "a"

theorem objectKeys_onlyPicsA : ObjectKeys OnlyPicsA := by
  constructor
  · rintro _ _ ⟨rfl, rfl⟩
    decide
  · rintro _ _ ⟨rfl, rfl⟩
    decide
  · rintro _ _ _ ⟨rfl, rfl⟩ ⟨-, rfl⟩ -
    rfl

set_option maxRecDepth 100000 in
theorem entries_asksBucket : (behind [asksBucket]).disk.entries.map Prod.fst = [[ascii "pics"]] := by
  decide +kernel

theorem vacant_asksBucket : Vacant OnlyPicsA (behind [asksBucket]).disk := by
  have hfile (f : StoreFile) : (behind [asksBucket]).disk.get [f.name] = none := by
    by_contra hstored
    have hmem := mem_of_stored hstored
    rw [entries_asksBucket, List.mem_singleton] at hmem
    exact f.name_ne_bucket (by decide) (List.head_eq_of_cons_eq hmem)
  constructor
  · have hbucket : checkBucketName (ascii "pics") = true := by decide
    exact (serve_does uploadStore none orderly_empty (.createBucket (ascii "pics")) hbucket).orderly hbucket
      orderly_empty
  · rintro _ _ ⟨rfl, rfl⟩
    decide +kernel
  · rintro _ _ ⟨rfl, rfl⟩
    decide +kernel
  · exact fun u => hfile _
  · exact fun u n => hfile _

/-- An object, written and read. -/
noncomputable def objectsBehind (run : List Asked) : World × ObjectMap :=
  run.foldl uploadStore.nextObjects (behind [asksBucket], .empty)

set_option maxRecDepth 100000 in
theorem reaches_objectsBehind : Reaches uploadStore.nextObjects (uploadStore.ObjectStep OnlyPicsA)
    (behind [asksBucket], .empty) (objectsBehind [asksObject]) := by
  refine Reaches.start.next (a := asksObject) ⟨⟨rfl, rfl⟩, ?_⟩
  have hok : (uploadStore.serve asksObject.1 asksObject.2 (behind [asksBucket])).1.isOk = true := by
    decide +kernel
  intro e he
  rw [he] at hok
  cases hok

theorem objects_read_as_written_sample : uploadStore.Answers (objectsBehind [asksObject]).1 (ascii "pics") (ascii "a")
    ((objectsBehind [asksObject]).2.objects (ascii "pics") (ascii "a")) :=
  objects_read_as_written objectKeys_onlyPicsA vacant_asksBucket reaches_objectsBehind ⟨rfl, rfl⟩

end Samples

end S3s.Fs
