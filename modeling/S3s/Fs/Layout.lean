import S3s.Library.Base64
import S3s.Library.LexicalPath
import S3s.Routing.Path

/-! # Where the objects are

The store keeps an object as a file under the directory of its bucket, and what it knows of
objects and uploads as hidden files in its root.
-/
namespace S3s.Fs
open LexicalPath Routing

/-- `URL_SAFE_NO_PAD.encode_to_string` -/
def encodeUrlSafe (s : Bytes) : Bytes :=
  ((Base64.encode s).filter fun c => c != 61).map fun c =>
    if c = 43 then 45 else if c = 47 then 95 else c

/-- `Uuid` -/
abbrev Uuid := Vector UInt8 16

/-- The text of a `Uuid`: five groups of hexadecimal digits. -/
def Uuid.text (u : Uuid) : Bytes :=
  let hex := Bytes.encodeHex u.toList
  hex.take 8 ++ ascii "-" ++ (hex.drop 8).take 4 ++ ascii "-" ++ (hex.drop 12).take 4 ++ ascii "-" ++
    (hex.drop 16).take 4 ++ ascii "-" ++ hex.drop 20

/-- The text of a `PartNumber`. -/
def partText (n : Int) : Bytes :=
  if n < 0 then ascii "-" ++ Bytes.decimal n.natAbs else Bytes.decimal n.natAbs

/-- The files of the store itself. -/
inductive StoreFile where
  | metadata (bucket key : Bytes) (uploadId : Option Uuid)
  | internalInfo (bucket key : Bytes)
  | uploadPart (uploadId : Uuid) (partNumber : Int)
  | uploadPartInfo (uploadId : Uuid) (partNumber : Int)
  | uploadInfo (uploadId : Uuid)
  | temporary (counter : Nat)

/-- The path that a file of the store is asked for by. -/
def StoreFile.name : StoreFile → Bytes
  | metadata bucket key uploadId =>
    ascii ".bucket-" ++ encodeUrlSafe bucket ++ ascii ".object-" ++ encodeUrlSafe key ++
      uploadId.elim [] (fun u => ascii ".upload-" ++ Uuid.text u) ++ ascii ".metadata.json"
  | internalInfo bucket key =>
    ascii ".bucket-" ++ encodeUrlSafe bucket ++ ascii ".object-" ++ encodeUrlSafe key ++
      ascii ".internal.json"
  | uploadPart uploadId partNumber =>
    ascii ".upload_id-" ++ uploadId.text ++ ascii ".part-" ++ partText partNumber
  | uploadPartInfo uploadId partNumber =>
    ascii ".upload_part_info-" ++ uploadId.text ++ ascii ".part-" ++ partText partNumber ++
      ascii ".json"
  | uploadInfo uploadId => ascii ".upload-" ++ uploadId.text ++ ascii ".json"
  | temporary counter => ascii ".tmp." ++ Bytes.decimal counter ++ ascii ".internal.part"

/-- `Path::join` -/
def join (dir path : Bytes) : Bytes :=
  if isAbsolute path then path
  else if dir.getLast?.all fun c => c == 47 then dir ++ path
  else dir ++ 47 :: path

/-- What is relied on of `absolutize_virtually`: it goes by the text of a path, and takes just
those that stay under the root. A path that is taken is given by its names. -/
structure Lexical (absolutizeVirtually : List Bytes → Bytes → Option (List Bytes)) : Prop where
  resolves : ∀ root path p, absolutizeVirtually root path = some p → p = resolve root path
  inside : ∀ root path p, absolutizeVirtually root path = some p → root <+: p
  takes : ∀ root path, root <+: resolve root path → (absolutizeVirtually root path).isSome = true

section Paths

variable (absolutizeVirtually : List Bytes → Bytes → Option (List Bytes)) (root : List Bytes)

/-- `resolve_abs_path` -/
def resolveAbsPath (path : Bytes) : Option (List Bytes) := absolutizeVirtually root path

/-- `get_object_path` -/
def getObjectPath (bucket key : Bytes) : Option (List Bytes) :=
  resolveAbsPath absolutizeVirtually root (join bucket key)

/-- `get_bucket_path` -/
def getBucketPath (bucket : Bytes) : Option (List Bytes) :=
  resolveAbsPath absolutizeVirtually root bucket

/-- `get_metadata_path`, `get_internal_info_path`, `resolve_upload_part_path`,
`get_upload_part_info_path`, `get_upload_info_path`, and the path of `prepare_file_write`. -/
def storePath (file : StoreFile) : Option (List Bytes) :=
  resolveAbsPath absolutizeVirtually root file.name

/-- A path strictly inside the directory of a bucket. -/
def InBucket (bucket : Bytes) (p : List Bytes) : Prop :=
  ∃ dir, getBucketPath absolutizeVirtually root bucket = some dir ∧ dir <+: p ∧ p ≠ dir

/-- Two objects have files of their own, each in its bucket, and none that is the store's. -/
def Isolated (bucket key bucket' key' : Bytes) : Prop :=
  ∀ p p', getObjectPath absolutizeVirtually root bucket key = some p →
    getObjectPath absolutizeVirtually root bucket' key' = some p' →
    p ≠ p' ∧ InBucket absolutizeVirtually root bucket p ∧
      InBucket absolutizeVirtually root bucket' p' ∧
      ∀ file, storePath absolutizeVirtually root file ≠ some p ∧
        storePath absolutizeVirtually root file ≠ some p'

/-- How many of the directories on the way to the bucket a key leaves. -/
def climbs (key : Bytes) : Nat :=
  if isAbsolute key then root.length + 1 else (normal key).ups

/-- What a key leaves of the root it names again. -/
def Returns (key : Bytes) : Prop :=
  root.drop (root.length + 1 - climbs root key) <+: (normal key).names

/-- What a key leaves on the way to the bucket it names again, and then something below. -/
def Below (bucket key : Bytes) (rest : List Bytes) : Prop :=
  (normal key).names = (root ++ [bucket]).drop (root.length + 1 - climbs root key) ++ rest ∧ rest ≠ []

end Paths

section Names

theorem slash_not_mem_encodeUrlSafe (s : Bytes) : 47 ∉ encodeUrlSafe s := by
  intro h
  obtain ⟨c, -, hc⟩ := List.mem_map.mp h
  by_cases h43 : c = 43
  · simp [h43] at hc
  · by_cases h47 : c = 47
    · simp [h47] at hc
    · simp only [if_neg h43, if_neg h47] at hc
      exact h47 hc

theorem slash_not_mem_decimal (n : Nat) : 47 ∉ Bytes.decimal n := by
  intro h
  obtain ⟨c, hc, hslash⟩ := List.mem_map.mp h
  have hdigit := Nat.isDigit_of_mem_toDigits (by decide) (by decide) hc
  simp only [Char.isDigit, Bool.and_eq_true, decide_eq_true_eq] at hdigit
  have hlow : 48 ≤ c.toNat := hdigit.1
  have hhigh : c.toNat ≤ 57 := hdigit.2
  have hval := congrArg UInt8.toNat hslash
  simp at hval
  omega

theorem slash_not_mem_partText (n : Int) : 47 ∉ partText n := by
  unfold partText
  split
  · simp [slash_not_mem_decimal, ascii]
  · exact slash_not_mem_decimal _

theorem slash_not_mem_encodeHex (s : Bytes) : 47 ∉ Bytes.encodeHex s := by
  intro h
  exact absurd (List.all_eq_true.mp (Bytes.encodeHex_lowercase s) _ h) (by decide)

theorem Uuid.slash_not_mem_text (u : Uuid) : 47 ∉ u.text := by
  have hhex := slash_not_mem_encodeHex u.toList
  have htake (n : Nat) (s : Bytes) (h : 47 ∉ s) : 47 ∉ s.take n :=
    fun hmem => h (List.mem_of_mem_take hmem)
  have hdrop (n : Nat) : 47 ∉ (Bytes.encodeHex u.toList).drop n :=
    fun hmem => hhex (List.mem_of_mem_drop hmem)
  have hdash : (47 : UInt8) ∉ ascii "-" := by decide
  simp only [text, List.mem_append, not_or]
  exact ⟨⟨⟨⟨⟨⟨⟨⟨htake _ _ hhex, hdash⟩, htake _ _ (hdrop _)⟩, hdash⟩, htake _ _ (hdrop _)⟩, hdash⟩,
    htake _ _ (hdrop _)⟩, hdash⟩, hdrop _⟩

theorem StoreFile.slash_not_mem_name (file : StoreFile) : 47 ∉ file.name := by
  cases file with
  | metadata bucket key uploadId =>
    cases uploadId with
    | none => simp [name, slash_not_mem_encodeUrlSafe, ascii]
    | some u => simp [name, slash_not_mem_encodeUrlSafe, u.slash_not_mem_text, ascii]
  | internalInfo bucket key => simp [name, slash_not_mem_encodeUrlSafe, ascii]
  | uploadPart uploadId partNumber =>
    simp [name, uploadId.slash_not_mem_text, slash_not_mem_partText, ascii]
  | uploadPartInfo uploadId partNumber =>
    simp [name, uploadId.slash_not_mem_text, slash_not_mem_partText, ascii]
  | uploadInfo uploadId => simp [name, uploadId.slash_not_mem_text, ascii]
  | temporary counter => simp [name, slash_not_mem_decimal, ascii]

theorem StoreFile.isName (file : StoreFile) : IsName file.name := by
  have hlength : 3 ≤ file.name.length := by
    cases file <;> simp [name, ascii]
  refine ⟨?_, file.slash_not_mem_name, ?_, ?_⟩
  all_goals
    intro h
    simp [h, ascii] at hlength

theorem isName_of_checkBucketName {bucket : Bytes} (h : checkBucketName bucket = true) :
    IsName bucket := by
  simp only [checkBucketName, Bool.and_eq_true, decide_eq_true_eq, List.all_eq_true] at h
  obtain ⟨⟨⟨⟨⟨⟨⟨hlength, -⟩, hall⟩, -⟩, -⟩, -⟩, -⟩, -⟩ := h
  refine ⟨?_, fun hslash => absurd (hall 47 hslash) (by decide), ?_, ?_⟩
  all_goals
    intro h
    simp [h, ascii] at hlength

end Names

section Isolation

variable {absolutizeVirtually : List Bytes → Bytes → Option (List Bytes)}
  (habs : Lexical absolutizeVirtually) (root : List Bytes)

include habs

theorem resolveAbsPath_eq_some {path : Bytes} {p : List Bytes} :
    resolveAbsPath absolutizeVirtually root path = some p ↔ p = resolve root path ∧ root <+: p := by
  constructor
  · intro h
    exact ⟨habs.resolves root path p h, habs.inside root path p h⟩
  · rintro ⟨rfl, hroot⟩
    obtain ⟨p, hp⟩ := Option.isSome_iff_exists.mp (habs.takes root path hroot)
    rw [resolveAbsPath, hp, habs.resolves root path p hp]

/-- A name is a file or directory of the root. -/
theorem resolveAbsPath_name {name : Bytes} (h : IsName name) :
    resolveAbsPath absolutizeVirtually root name = some (root ++ [name]) := by
  rw [resolveAbsPath_eq_some habs, h.resolve]
  exact ⟨rfl, List.prefix_append _ _⟩

/-- Where the key of a bucket leads. -/
def landing (bucket key : Bytes) : List Bytes :=
  (root ++ [bucket]).take (root.length + 1 - climbs root key) ++ (normal key).names

omit habs in
theorem resolve_join {bucket : Bytes} (h : IsName bucket) (key : Bytes) :
    resolve root (join bucket key) = landing root bucket key := by
  by_cases hkey : isAbsolute key = true
  · simp [join, hkey, resolve_eq, Normal.place, landing, climbs]
  · have hlast : (bucket.getLast?.all fun c => c == 47) = false := by
      rw [List.getLast?_eq_getLast_of_ne_nil h.ne_nil]
      have hne : bucket.getLast h.ne_nil ≠ 47 := fun hslash =>
        h.slash (hslash ▸ List.getLast_mem h.ne_nil)
      simp [hne]
    rw [join, if_neg hkey, hlast, if_neg (by simp), h.resolve_append]
    simp [Normal.place, landing, climbs, hkey]

omit habs in
theorem root_landing_iff (bucket key : Bytes) :
    root <+: landing root bucket key ↔ Returns root key := by
  unfold landing Returns
  generalize climbs root key = ups
  by_cases hups : ups = 0
  · subst hups
    rw [Nat.sub_zero, List.take_of_length_le (by simp), List.drop_of_length_le (by simp),
      List.append_assoc]
    simp
  · have htake : (root ++ [bucket]).take (root.length + 1 - ups) =
        root.take (root.length + 1 - ups) := List.take_append_of_le_length (by omega)
    rw [htake]
    nth_rewrite 1 [← List.take_append_drop (root.length + 1 - ups) root]
    exact List.prefix_append_right_inj _

omit habs in
theorem landing_eq_iff (bucket key : Bytes) (rest : List Bytes) :
    landing root bucket key = root ++ [bucket] ++ rest ∧ rest ≠ [] ↔ Below root bucket key rest := by
  unfold landing Below
  generalize root.length + 1 - climbs root key = kept
  nth_rewrite 2 [← List.take_append_drop kept (root ++ [bucket])]
  rw [List.append_assoc, List.append_cancel_left_eq]

theorem getObjectPath_eq_some {bucket key : Bytes} (h : IsName bucket) {p : List Bytes} :
    getObjectPath absolutizeVirtually root bucket key = some p ↔
      p = landing root bucket key ∧ Returns root key := by
  rw [getObjectPath, resolveAbsPath_eq_some habs, resolve_join root h]
  constructor
  · rintro ⟨rfl, hroot⟩
    exact ⟨rfl, (root_landing_iff root bucket key).mp hroot⟩
  · rintro ⟨rfl, hreturns⟩
    exact ⟨rfl, (root_landing_iff root bucket key).mpr hreturns⟩

theorem inBucket_iff {bucket : Bytes} (h : IsName bucket) (p : List Bytes) :
    InBucket absolutizeVirtually root bucket p ↔
      ∃ rest, p = root ++ [bucket] ++ rest ∧ rest ≠ [] := by
  unfold InBucket getBucketPath
  rw [resolveAbsPath_name habs root h]
  constructor
  · rintro ⟨dir, hdir, ⟨rest, rfl⟩, hne⟩
    obtain rfl := Option.some.inj hdir
    exact ⟨rest, rfl, by simpa using hne⟩
  · rintro ⟨rest, rfl, hne⟩
    exact ⟨_, rfl, List.prefix_append _ _, by simpa using hne⟩

/-- The files of the store are not below a bucket. -/
theorem storePath_ne {bucket : Bytes} {rest : List Bytes} (hrest : rest ≠ []) (file : StoreFile) :
    storePath absolutizeVirtually root file ≠ some (root ++ [bucket] ++ rest) := by
  rw [storePath, resolveAbsPath_name habs root file.isName]
  intro h
  have hlength := congrArg List.length (Option.some.inj h)
  have hpos := List.length_pos_of_ne_nil hrest
  simp only [List.length_append, List.length_singleton] at hlength
  omega

theorem isolated_iff_of_isName {bucket bucket' : Bytes} (hname : IsName bucket)
    (hname' : IsName bucket') (key key' : Bytes) :
    Isolated absolutizeVirtually root bucket key bucket' key' ↔
      (Returns root key → Returns root key' →
        ∃ rest rest', Below root bucket key rest ∧ Below root bucket' key' rest' ∧
          (bucket = bucket' → rest ≠ rest')) := by
  simp only [← landing_eq_iff]
  constructor
  · intro h hreturns hreturns'
    obtain ⟨hne, hin, hin', -⟩ := h _ _ ((getObjectPath_eq_some habs root hname).mpr ⟨rfl, hreturns⟩)
      ((getObjectPath_eq_some habs root hname').mpr ⟨rfl, hreturns'⟩)
    obtain ⟨rest, hp, hrest⟩ := (inBucket_iff habs root hname _).mp hin
    obtain ⟨rest', hp', hrest'⟩ := (inBucket_iff habs root hname' _).mp hin'
    refine ⟨rest, rest', ⟨hp, hrest⟩, ⟨hp', hrest'⟩, ?_⟩
    rintro rfl rfl
    exact hne (hp.trans hp'.symm)
  · intro h p p' hpath hpath'
    obtain ⟨rfl, hreturns⟩ := (getObjectPath_eq_some habs root hname).mp hpath
    obtain ⟨rfl, hreturns'⟩ := (getObjectPath_eq_some habs root hname').mp hpath'
    obtain ⟨rest, rest', ⟨hp, hrest⟩, ⟨hp', hrest'⟩, hne⟩ := h hreturns hreturns'
    refine ⟨?_, (inBucket_iff habs root hname _).mpr ⟨rest, hp, hrest⟩,
      (inBucket_iff habs root hname' _).mpr ⟨rest', hp', hrest'⟩, fun file => ?_⟩
    · rw [hp, hp']
      intro heq
      simp only [List.append_assoc, List.append_cancel_left_eq, List.singleton_append,
        List.cons.injEq] at heq
      exact hne heq.1 heq.2
    · rw [hp, hp']
      exact ⟨storePath_ne habs root hrest file, storePath_ne habs root hrest' file⟩

/-- Two objects are isolated just when one of the keys leads out of the root, or both lead to
something below their buckets that is not the same. -/
theorem isolated_iff {bucket bucket' : Bytes} (hbucket : checkBucketName bucket = true)
    (hbucket' : checkBucketName bucket' = true) (key key' : Bytes) :
    Isolated absolutizeVirtually root bucket key bucket' key' ↔
      (Returns root key → Returns root key' →
        ∃ rest rest', Below root bucket key rest ∧ Below root bucket' key' rest' ∧
          (bucket = bucket' → rest ≠ rest')) :=
  isolated_iff_of_isName habs root (isName_of_checkBucketName hbucket)
    (isName_of_checkBucketName hbucket') key key'

omit habs in
theorem below_of_names (bucket : Bytes) {key : Bytes} (h : ∀ s ∈ segments key, IsName s) :
    Below root bucket key (segments key) := by
  have hfold (names : List Bytes) (segs : List Bytes) (hsegs : ∀ s ∈ segs, IsName s) :
      segs.foldl Normal.step ⟨0, names⟩ = ⟨0, names ++ segs⟩ := by
    induction segs generalizing names with
    | nil => simp
    | cons s segs ih =>
      have hs := hsegs s List.mem_cons_self
      have hstep : Normal.step ⟨0, names⟩ s = ⟨0, names ++ [s]⟩ := by
        simp [Normal.step, hs.ne_nil, hs.ne_dot, hs.ne_dots]
      rw [List.foldl_cons, hstep, ih _ fun s' hs' => hsegs s' (List.mem_cons_of_mem _ hs')]
      simp
  have hnormal : normal key = ⟨0, segments key⟩ := hfold [] (segments key) h
  have habsolute : isAbsolute key = false := by
    by_contra habs
    cases key with
    | nil => simp [isAbsolute] at habs
    | cons b key =>
      obtain rfl : b = 47 := by simpa [isAbsolute] using habs
      have hempty : [] ∈ segments (47 :: key) := by
        have hsplit : segments (47 :: key) = [] :: segments key :=
          List.splitOn_append_cons_self_of_not_mem List.not_mem_nil key
        simp [hsplit]
      exact (h _ hempty).ne_nil rfl
  refine ⟨?_, List.splitOn_ne_nil 47 key⟩
  simp [hnormal, climbs, habsolute]

/-- Objects whose keys are made of plain names are isolated. -/
theorem isolated_of_names {bucket bucket' : Bytes} (hname : IsName bucket) (hname' : IsName bucket')
    {key key' : Bytes} (hkey : ∀ s ∈ segments key, IsName s) (hkey' : ∀ s ∈ segments key', IsName s)
    (hne : (bucket, key) ≠ (bucket', key')) :
    Isolated absolutizeVirtually root bucket key bucket' key' := by
  rw [isolated_iff_of_isName habs root hname hname']
  intro _ _
  refine ⟨_, _, below_of_names root bucket hkey, below_of_names root bucket' hkey', ?_⟩
  rintro rfl hsegments
  have hjoin := congrArg (List.intercalate [47]) hsegments
  rw [segments, segments, List.intercalate_splitOn, List.intercalate_splitOn] at hjoin
  exact hne (by rw [hjoin])

end Isolation

/-- The lexical resolution itself. -/
def virtually (root : List Bytes) (path : Bytes) : Option (List Bytes) :=
  if root <+: resolve root path then some (resolve root path) else none

theorem virtually_lexical : Lexical virtually where
  resolves root path p h := by
    unfold virtually at h
    split at h
    · exact (Option.some.inj h).symm
    · cases h
  inside root path p h := by
    unfold virtually at h
    split at h
    · next hroot => exact Option.some.inj h ▸ hroot
    · cases h
  takes root path h := by rw [virtually, if_pos h, Option.isSome_some]

/-- Two photos beside each other. -/
theorem isolated_iff_photos :
    Isolated virtually [ascii "srv"] (ascii "photos") (ascii "a/./b") (ascii "photos") (ascii "a/c") :=
  (isolated_iff virtually_lexical _ (by decide) (by decide) _ _).mpr fun _ _ =>
    ⟨[ascii "a", ascii "b"], [ascii "a", ascii "c"], ⟨by decide, by decide⟩, ⟨by decide, by decide⟩,
      by decide⟩

/-- A doubled slash, a way into another bucket, and a way to a file of the store. -/
theorem objects_not_isolated :
    (checkBucketName (ascii "photos") = true ∧ checkBucketName (ascii "secret") = true ∧
      ∀ key ∈ [ascii "a/b", ascii "a//b", ascii "../secret/x", ascii "../.tmp.0.internal.part"],
        checkKey key = true) ∧
    ¬Isolated virtually [ascii "srv"] (ascii "photos") (ascii "a/b") (ascii "photos") (ascii "a//b") ∧
    ¬Isolated virtually [ascii "srv"] (ascii "photos") (ascii "../secret/x") (ascii "secret") (ascii "x") ∧
    ¬Isolated virtually [ascii "srv"] (ascii "photos") (ascii "../.tmp.0.internal.part")
      (ascii "photos") (ascii "a/b") := by
  refine ⟨by decide, ?_, ?_, ?_⟩
  · intro h
    exact (h [ascii "srv", ascii "photos", ascii "a", ascii "b"] _ (by decide) (by decide)).1 rfl
  · intro h
    exact (h [ascii "srv", ascii "secret", ascii "x"] _ (by decide) (by decide)).1 rfl
  · intro h
    have hfiles := (h [ascii "srv", ascii ".tmp.0.internal.part"]
      [ascii "srv", ascii "photos", ascii "a", ascii "b"] (by decide) (by decide)).2.2.2
    exact (hfiles (.temporary 0)).1 (by decide)

end S3s.Fs
