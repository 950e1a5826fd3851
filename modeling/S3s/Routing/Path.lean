import Mathlib.Data.List.Infix
import S3s.Library.Text

/-! # Paths in the storage

A decoded path names a bucket and a key, in path style by itself and in virtual
hosted style together with the bucket of the host. Where the two styles name the same
bucket they give the same path, and nowhere else but for the empty bucket.
-/
namespace S3s.Routing
open Text

/-- `S3Path` -/
inductive S3Path where
  | root
  | bucket (bucket : Bytes)
  | object (bucket key : Bytes)
deriving DecidableEq

/-- `ParseS3PathError` -/
inductive ParseS3PathError where
  | invalidPath
  | invalidBucketName
  | keyTooLong
deriving DecidableEq

def isLowercaseOrDigit (b : UInt8) : Bool := (97 ≤ b && b ≤ 122) || Bytes.isDigit b

/-- `check_bucket_name` -/
def checkBucketName (name : Bytes) : Bool :=
  (3 ≤ name.length && name.length < 64) &&
    (name.all fun b => isLowercaseOrDigit b || b == 46 || b == 45) &&
    name.head?.any isLowercaseOrDigit && name.getLast?.any isLowercaseOrDigit &&
    !decide (ascii ".." <:+: name) && !isIpAddr name && !(ascii "xn--").isPrefixOf name

/-- `check_key` -/
def checkKey (key : Bytes) : Bool := key.length ≤ 1024

/-- `normalize_forward_slash` -/
def normalizeForwardSlash (path : Bytes) : Bytes :=
  if path.head? ≠ some 47 then path
  else
    let parts := (path.splitOn 47).filter fun s => !s.isEmpty
    if parts.isEmpty then [47]
    else
      let joined := [47].intercalate parts
      if path.getLast? = some 47 then joined ++ [47] else joined

/-- The key as it is kept. -/
def keptKey (normalizePath : Bool) (key : Bytes) : Bytes :=
  if normalizePath then normalizeForwardSlash key else key

section Parse

variable (validateBucketName : Bytes → Bool) (normalizePath : Bool)

/-- The key of an object, normalised when the configuration asks for it, and checked. -/
def objectPath (bucket key : Bytes) : Except ParseS3PathError S3Path :=
  let key := keptKey normalizePath key
  if checkKey key then .ok (.object bucket key) else .error .keyTooLong

/-- `parse_path_style_with_validation_and_normalization` -/
def parsePathStyle (uriPath : Bytes) : Except ParseS3PathError S3Path :=
  match stripPrefix 47 uriPath with
  | none => .error .invalidPath
  | some path =>
    if path.isEmpty then .ok .root
    else
      let (bucket, key) := match splitOnce 47 path with
        | none => (path, none)
        | some (x, []) => (x, none)
        | some (bucket, key) => (bucket, some key)
      if !validateBucketName bucket then .error .invalidBucketName
      else
        match key with
        | none => .ok (.bucket bucket)
        | some key => objectPath normalizePath bucket key

/-- `parse_virtual_hosted_style_with_validation_and_normalization` -/
def parseVirtualHostedStyle (vhBucket : Option Bytes) (uriPath : Bytes) :
    Except ParseS3PathError S3Path :=
  match vhBucket with
  | none => parsePathStyle validateBucketName normalizePath uriPath
  | some bucket =>
    match stripPrefix 47 uriPath with
    | none => .error .invalidPath
    | some key =>
      if !validateBucketName bucket then .error .invalidBucketName
      else if key.isEmpty then .ok (.bucket bucket)
      else objectPath normalizePath bucket key

end Parse

section Styles

variable {validateBucketName : Bytes → Bool} {normalizePath : Bool}

theorem length_intercalate_le {l l' : List Bytes} (h : l.Sublist l') :
    ([47].intercalate l).length ≤ ([47].intercalate l').length := by
  induction h with
  | slnil => exact le_rfl
  | @cons l l' s h ih =>
    cases l' with
    | nil => simp [List.sublist_nil.mp h]
    | cons t l' =>
      rw [List.intercalate_cons_cons, List.length_append, List.length_append]
      omega
  | @cons_cons l l' s h ih =>
    cases l' with
    | nil => rw [List.sublist_nil.mp h]
    | cons t l' =>
      cases l with
      | nil =>
        rw [List.intercalate_cons_cons]
        simp
      | cons u l =>
        rw [List.intercalate_cons_cons, List.intercalate_cons_cons]
        simpa using ih

theorem normalizeForwardSlash_length_le (path : Bytes) :
    (normalizeForwardSlash path).length ≤ path.length := by
  unfold normalizeForwardSlash
  split
  · exact le_rfl
  · next hslash =>
    obtain ⟨rest, rfl⟩ : ∃ rest, path = 47 :: rest := by
      cases path with
      | nil => simp at hslash
      | cons b rest => exact ⟨rest, by simpa using hslash⟩
    have hsplit : ((47 :: rest : Bytes).splitOn 47).filter (fun s => !s.isEmpty) =
        (rest.splitOn 47).filter fun s => !s.isEmpty := by
      simp [List.splitOn_cons_eq_if_modifyHead]
    have hjoined := length_intercalate_le (List.filter_sublist (l := rest.splitOn 47)
      (p := fun s => !s.isEmpty))
    rw [List.intercalate_splitOn] at hjoined
    dsimp only
    rw [hsplit]
    split
    · simp
    · split
      · simpa using hjoined
      · exact hjoined.trans (by simp)

theorem keptKey_length_le (normalizePath : Bool) (key : Bytes) :
    (keptKey normalizePath key).length ≤ key.length := by
  cases normalizePath with
  | true => exact normalizeForwardSlash_length_le key
  | false => exact le_rfl

theorem keptKey_of_head {key : Bytes} (h : key.head? ≠ some 47) : keptKey normalizePath key = key := by
  cases normalizePath with
  | true => exact if_pos h
  | false => rfl

theorem objectPath_ok {bucket key : Bytes} {path : S3Path}
    (h : objectPath normalizePath bucket key = .ok path) :
    path = .object bucket (keptKey normalizePath key) := by
  unfold objectPath at h
  dsimp only at h
  split at h
  · cases h
    rfl
  · cases h

/-- What a path in path style can be. -/
theorem parsePathStyle_ok {uriPath : Bytes} {path : S3Path}
    (h : parsePathStyle validateBucketName normalizePath uriPath = .ok path) :
    uriPath = [47] ∧ path = .root ∨
      ∃ bucket, 47 ∉ bucket ∧ validateBucketName bucket = true ∧
        ((uriPath = 47 :: bucket ∧ bucket ≠ [] ∨ uriPath = 47 :: (bucket ++ [47])) ∧
            path = .bucket bucket ∨
          ∃ key, key ≠ [] ∧ uriPath = 47 :: (bucket ++ 47 :: key) ∧
            path = .object bucket (keptKey normalizePath key)) := by
  unfold parsePathStyle at h
  cases hstrip : stripPrefix 47 uriPath with
  | none =>
    rw [hstrip] at h
    cases h
  | some rest =>
    rw [hstrip] at h
    rw [stripPrefix_eq_some] at hstrip
    subst hstrip
    dsimp only at h
    split at h
    · next hempty =>
      cases h
      exact Or.inl ⟨by rw [List.isEmpty_iff.mp hempty], rfl⟩
    · next hne =>
      rw [List.isEmpty_iff] at hne
      right
      cases hsplit : splitOnce 47 rest with
      | none =>
        rw [hsplit] at h
        dsimp only at h
        split at h
        · cases h
        · next hvalid =>
          cases h
          exact ⟨rest, splitOnce_eq_none hsplit, by simpa using hvalid, Or.inl ⟨Or.inl ⟨rfl, hne⟩, rfl⟩⟩
      | some parts =>
        obtain ⟨bucket, key⟩ := parts
        obtain ⟨rfl, hslash⟩ := splitOnce_eq_some hsplit
        rw [hsplit] at h
        cases key with
        | nil =>
          dsimp only at h
          split at h
          · cases h
          · next hvalid =>
            cases h
            exact ⟨bucket, hslash, by simpa using hvalid, Or.inl ⟨Or.inr rfl, rfl⟩⟩
        | cons b key =>
          dsimp only at h
          split at h
          · cases h
          · next hvalid =>
            exact ⟨bucket, hslash, by simpa using hvalid,
              Or.inr ⟨b :: key, by simp, rfl, objectPath_ok h⟩⟩

/-- What a path under a bucket of the host can be. -/
theorem parseVirtualHostedStyle_ok {bucket uriPath : Bytes} {path : S3Path}
    (h : parseVirtualHostedStyle validateBucketName normalizePath (some bucket) uriPath = .ok path) :
    validateBucketName bucket = true ∧
      (uriPath = [47] ∧ path = .bucket bucket ∨
        ∃ key, key ≠ [] ∧ uriPath = 47 :: key ∧
          path = .object bucket (keptKey normalizePath key)) := by
  unfold parseVirtualHostedStyle at h
  cases hstrip : stripPrefix 47 uriPath with
  | none =>
    rw [hstrip] at h
    cases h
  | some key =>
    rw [hstrip] at h
    rw [stripPrefix_eq_some] at hstrip
    subst hstrip
    dsimp only at h
    split at h
    · cases h
    · next hvalid =>
      refine ⟨by simpa using hvalid, ?_⟩
      split at h
      · next hempty =>
        cases h
        exact Or.inl ⟨by rw [List.isEmpty_iff.mp hempty], rfl⟩
      · next hne =>
        rw [List.isEmpty_iff] at hne
        exact Or.inr ⟨key, hne, rfl, objectPath_ok h⟩

/-- A bucket in the host and the same bucket in front of the path. -/
theorem parseVirtualHostedStyle_eq_pathStyle {bucket : Bytes} (hslash : 47 ∉ bucket) (key : Bytes) :
    parseVirtualHostedStyle validateBucketName normalizePath (some bucket) (47 :: key) =
      parsePathStyle validateBucketName normalizePath (47 :: (bucket ++ 47 :: key)) := by
  cases hvalid : validateBucketName bucket with
  | false =>
    cases key with
    | nil =>
      simp [parseVirtualHostedStyle, parsePathStyle, stripPrefix, hvalid, splitOnce_append, hslash]
    | cons b key =>
      simp [parseVirtualHostedStyle, parsePathStyle, stripPrefix, hvalid, splitOnce_append, hslash]
  | true =>
    cases key with
    | nil =>
      simp [parseVirtualHostedStyle, parsePathStyle, stripPrefix, hvalid, splitOnce_append, hslash]
    | cons b key =>
      simp [parseVirtualHostedStyle, parsePathStyle, stripPrefix, hvalid, splitOnce_append, hslash]

/-- A path that reads the same with the empty bucket in front of it and with none: two slashes, of
which the normalisation of the key takes one away. -/
def Collapses (normalizePath : Bool) (uriPath : Bytes) : Prop :=
  normalizePath = true ∧ ∃ key, key ≠ [] ∧ uriPath = 47 :: 47 :: key ∧
    normalizeForwardSlash key = normalizeForwardSlash (47 :: key)

/-- Two buckets of a host that stand for the same path. -/
def SameBucket (normalizePath : Bool) (uriPath : Bytes) : Option Bytes → Option Bytes → Prop
  | none, none => True
  | some bucket, some bucket' => bucket = bucket'
  | none, some bucket => bucket = [] ∧ Collapses normalizePath uriPath
  | some bucket, none => bucket = [] ∧ Collapses normalizePath uriPath

theorem collapses_cons_cons {key : Bytes} (hkey : key ≠ []) :
    Collapses normalizePath (47 :: 47 :: key) ↔
      keptKey normalizePath key = keptKey normalizePath (47 :: key) := by
  cases normalizePath with
  | true =>
    constructor
    · rintro ⟨-, key', -, h, hsame⟩
      cases h
      exact hsame
    · intro h
      exact ⟨rfl, key, hkey, rfl, h⟩
  | false =>
    refine iff_of_false (fun h => nomatch h.1) ?_
    intro h
    simpa using congrArg List.length (show key = 47 :: key from h)

/-- A path that collapses has the empty bucket in front. -/
theorem not_collapses {bucket rest : Bytes} (hslash : 47 ∉ bucket) (hne : bucket ≠ []) :
    ¬ Collapses normalizePath (47 :: (bucket ++ rest)) := by
  rintro ⟨-, key, -, h, -⟩
  cases bucket with
  | nil => exact hne rfl
  | cons b bucket =>
    cases h
    exact hslash List.mem_cons_self

theorem eq_iff_collapses {bucket uriPath : Bytes} {path path' : S3Path}
    (h : parsePathStyle validateBucketName normalizePath uriPath = .ok path)
    (h' : parseVirtualHostedStyle validateBucketName normalizePath (some bucket) uriPath =
      .ok path') :
    path = path' ↔ bucket = [] ∧ Collapses normalizePath uriPath := by
  obtain ⟨-, ⟨rfl, rfl⟩ | ⟨key', hkey', rfl, rfl⟩⟩ := parseVirtualHostedStyle_ok h'
  · obtain ⟨-, rfl⟩ | ⟨b, -, -, ⟨⟨hb, hne⟩ | hb, -⟩ | ⟨key, -, hb, -⟩⟩ := parsePathStyle_ok h
    · refine iff_of_false nofun ?_
      rintro ⟨-, -, key, -, huri, -⟩
      simp at huri
    · exact (hne (by simpa using hb.symm)).elim
    · simp at hb
    · simp at hb
  · obtain ⟨hroot, -⟩ | ⟨b, hslash, -, ⟨hb, rfl⟩ | ⟨key, hkey, hb, rfl⟩⟩ := parsePathStyle_ok h
    · exact (hkey' (by simpa using hroot)).elim
    · refine iff_of_false nofun ?_
      rintro ⟨-, hcollapses⟩
      rcases hb with ⟨hb, hne⟩ | hb
      · rw [hb, ← List.append_nil b] at hcollapses
        exact not_collapses hslash hne hcollapses
      · obtain ⟨-, key, hkey, huri, -⟩ := hcollapses
        rw [hb] at huri
        cases b with
        | nil => exact hkey (by simpa using huri.symm)
        | cons c b =>
          cases huri
          exact hslash List.mem_cons_self
    · obtain rfl : key' = b ++ 47 :: key := by simpa using hb
      cases b with
      | nil =>
        rw [List.nil_append, collapses_cons_cons hkey]
        constructor
        · intro h
          injection h with hbucket hkept
          exact ⟨hbucket.symm, hkept⟩
        · rintro ⟨rfl, hkept⟩
          rw [hkept]
      | cons c b =>
        refine iff_of_false ?_ fun h => not_collapses hslash (by simp) h.2
        intro h
        injection h with hbucket hkept
        have hhead : ((c :: b) ++ 47 :: key).head? ≠ some 47 := by
          rintro hhead
          cases hhead
          exact hslash List.mem_cons_self
        have hlength := keptKey_length_le normalizePath key
        rw [hkept, keptKey_of_head hhead] at hlength
        simp at hlength
        omega

/-- The path depends on the bucket of the host and on nothing else of it. -/
theorem parseVirtualHostedStyle_eq_iff {vhBucket vhBucket' : Option Bytes} {uriPath : Bytes}
    {path path' : S3Path}
    (h : parseVirtualHostedStyle validateBucketName normalizePath vhBucket uriPath = .ok path)
    (h' : parseVirtualHostedStyle validateBucketName normalizePath vhBucket' uriPath = .ok path') :
    path = path' ↔ SameBucket normalizePath uriPath vhBucket vhBucket' := by
  cases vhBucket with
  | none =>
    cases vhBucket' with
    | none =>
      rw [h] at h'
      cases h'
      exact iff_of_true rfl trivial
    | some bucket' => exact eq_iff_collapses h h'
  | some bucket =>
    cases vhBucket' with
    | none => rw [eq_comm]; exact eq_iff_collapses h' h
    | some bucket' =>
      obtain ⟨-, ⟨rfl, rfl⟩ | ⟨key, hkey, rfl, rfl⟩⟩ := parseVirtualHostedStyle_ok h
      · obtain ⟨-, ⟨-, rfl⟩ | ⟨key', hkey', huri, -⟩⟩ := parseVirtualHostedStyle_ok h'
        · simp [SameBucket]
        · exact (hkey' (by simpa using huri.symm)).elim
      · obtain ⟨-, ⟨huri, -⟩ | ⟨key', -, huri, rfl⟩⟩ := parseVirtualHostedStyle_ok h'
        · exact (hkey (by simpa using huri)).elim
        · cases huri
          simp [SameBucket]

end Styles

end S3s.Routing
