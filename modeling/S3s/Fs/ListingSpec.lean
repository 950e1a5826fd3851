import S3s.Fs.Codecs
import S3s.Fs.Listing
import S3s.Http.OrderedQs
import S3s.Library.Delimited

/-! # What a listing is

The keys with the prefix are replaced by their common prefixes under the delimiter. What remains
behind the point where the listing resumes is answered in ascending order, up to the limit.
-/
namespace S3s.Fs
open LexicalPath FileTree

/-- A key of plain names with slashes between them. -/
structure OrdinaryKey (key : Bytes) : Prop where
  names : ∀ s ∈ segments key, IsName s
  text : Bytes.validUtf8 key = true

/-- The objects of a bucket have ordinary keys. -/
def OrdinaryBucket (disk : Tree Bytes UInt8) (bucket : Bytes) : Prop :=
  ∀ path content modified, disk.get (bucket :: path) = some (.file content modified) →
    ∃ key, OrdinaryKey key ∧ path = segments key

/-- The object under a key. -/
def objectAt (disk : Tree Bytes UInt8) (bucket key : Bytes) : Option Object :=
  match disk.get (bucket :: segments key) with
  | some (.file content modified) => some ⟨key, modified, content.length⟩
  | _ => none

/-- The entry of an object: its common prefix, up to the first delimiter behind the prefix, or the
object itself. -/
def entryOf (keyPrefix : Bytes) (delimiter : Option Bytes) (o : Object) : Object ⊕ Bytes :=
  match delimiter.bind fun d => (Search.find d (o.key.drop keyPrefix.length)).map fun i =>
      o.key.take (keyPrefix.length + i + d.length) with
  | some commonPrefix => .inr commonPrefix
  | none => .inl o

/-- The text that an entry is sorted by. -/
abbrev textOf : Object ⊕ Bytes → Bytes := Pages.keyOf Object.key id

/-- The entries of the objects with the prefix. -/
def IsEntry (disk : Tree Bytes UInt8) (bucket keyPrefix : Bytes) (delimiter : Option Bytes)
    (x : Object ⊕ Bytes) : Prop :=
  ∃ o, objectAt disk bucket o.key = some o ∧ keyPrefix <+: o.key ∧ x = entryOf keyPrefix delimiter o

/-- No delimiter, or one ASCII character. -/
def SimpleDelimiter (delimiter : Option Bytes) : Prop := ∀ d ∈ delimiter, ∃ c, d = [c] ∧ c < 0x80

section Scan

variable {disk : Tree Bytes UInt8} {bucket : Bytes}

theorem normalizePath_segments (key : Bytes) : normalizePath (segments key) (ascii "/") = key :=
  List.intercalate_splitOn 47

theorem keyOfPath_segments (bucket key : Bytes) :
    keyOfPath [bucket] (bucket :: segments key) = key := normalizePath_segments key

theorem objectAt_eq_some {o : Object} {key : Bytes} :
    objectAt disk bucket key = some o ↔
      ∃ c m, disk.get (bucket :: segments key) = some (.file c m) ∧ o = ⟨key, m, c.length⟩ := by
  unfold objectAt
  split
  · next c m hget =>
    rw [hget]
    constructor
    · intro h
      exact ⟨c, m, rfl, (Option.some.inj h).symm⟩
    · rintro ⟨c', m', hfile, rfl⟩
      obtain ⟨rfl, rfl⟩ := Entry.file.inj (Option.some.inj hfile)
      rfl
  · next hnot =>
    constructor
    · intro h
      cases h
    · rintro ⟨c, m, hget, -⟩
      exact absurd hget (hnot c m)

/-- The names above a file make a beginning of its key. -/
theorem keyOfPath_prefix (bucket : Bytes) {q path : List Bytes} (hq : q <+: path) :
    keyOfPath [bucket] (bucket :: q) <+: keyOfPath [bucket] (bucket :: path) := by
  show List.intercalate [47] q <+: List.intercalate [47] path
  obtain ⟨rest, rfl⟩ := hq
  cases q with
  | nil => exact List.nil_prefix
  | cons s q =>
    rw [List.cons_append, Delimited.intercalate_cons_eq_flatMap, Delimited.intercalate_cons_eq_flatMap,
      List.flatMap_append, ← List.append_assoc]
    exact List.prefix_append _ _

/-- Directories that lead to something with the prefix are entered. -/
def Enters (keyPrefix : Bytes) (enter : Bytes → Bool) : Prop :=
  ∀ key key', matchesPrefix keyPrefix key = true → key' <+: key → enter key' = true

theorem matchesPrefix_iff {keyPrefix key : Bytes} :
    matchesPrefix keyPrefix key = true ↔ keyPrefix <+: key := by
  rw [matchesPrefix, Bool.or_eq_true, List.isPrefixOf_iff_prefix]
  constructor
  · rintro (h | h)
    · rw [List.isEmpty_iff.mp h]
      exact List.nil_prefix
    · exact h
  · exact Or.inr

theorem enters_mayMatch (keyPrefix : Bytes) : Enters keyPrefix (mayMatch keyPrefix) := by
  intro key key' hkey hpre
  rw [mayMatch, Bool.or_eq_true, matchesPrefix_iff, List.isPrefixOf_iff_prefix]
  exact List.prefix_or_prefix_of_prefix (matchesPrefix_iff.mp hkey) hpre

variable (hdir : disk.get [bucket] = some .dir) (hordinary : OrdinaryBucket disk bucket)
  {keyPrefix : Bytes} {enter : Bytes → Bool} (henter : Enters keyPrefix enter)

/-- The objects that the scan gives. -/
def scanned (disk : Tree Bytes UInt8) (bucket keyPrefix : Bytes) (enter : Bytes → Bool) : List Object :=
  (scanBucket disk [bucket] enter).filter fun o => matchesPrefix keyPrefix o.key

theorem weight_bucket_le (disk : Tree Bytes UInt8) (bucket : Bytes) :
    (([[bucket]] : List (List Bytes)).map disk.weight).sum ≤ disk.entries.length + 1 := by
  simpa using disk.weight_le [bucket]

include hordinary in
/-- A file below the bucket, by its key. -/
theorem path_of_file {p : List Bytes} {c : Bytes} {m : Nat} (hget : disk.get p = some (.file c m))
    (hbelow : [bucket] <+: p) :
    ∃ key, OrdinaryKey key ∧ p = bucket :: segments key ∧ keyOfPath [bucket] p = key := by
  obtain ⟨path, rfl⟩ := hbelow
  obtain ⟨key, hkey, rfl⟩ := hordinary path c m hget
  exact ⟨key, hkey, rfl, keyOfPath_segments bucket key⟩

include hdir hordinary henter in
theorem mem_scanned {o : Object} :
    o ∈ scanned disk bucket keyPrefix enter ↔
      objectAt disk bucket o.key = some o ∧ keyPrefix <+: o.key := by
  rw [scanned, List.mem_filter, matchesPrefix_iff, scanBucket, List.mem_map]
  constructor
  · rintro ⟨⟨⟨p, e⟩, hmem, rfl⟩, hstarts⟩
    refine ⟨?_, hstarts⟩
    obtain ⟨hget, hfile, dir, hdir', hreached⟩ :=
      (Tree.mem_scan (weight_bucket_le disk bucket)).mp hmem
    obtain rfl := List.mem_singleton.mp hdir'
    cases e with
    | dir => exact absurd rfl hfile
    | file c m =>
      obtain ⟨key, -, rfl, hkey⟩ := path_of_file hordinary hget hreached.below
      exact objectAt_eq_some.mpr ⟨c, m, by rw [objectOf, hkey]; exact hget, by rw [objectOf, hkey]⟩
  · rintro ⟨hobject, hstarts⟩
    obtain ⟨c, m, hget, ho⟩ := objectAt_eq_some.mp hobject
    refine ⟨⟨(bucket :: segments o.key, .file c m), ?_, ?_⟩, hstarts⟩
    · refine (Tree.mem_scan (weight_bucket_le disk bucket)).mpr
        ⟨hget, by simp, [bucket], List.mem_singleton_self _, ?_, ?_, ?_⟩
      · exact List.prefix_append [bucket] _
      · intro heq
        rw [← heq, hdir] at hget
        cases hget
      · intro q hq _ hqp _
        obtain ⟨q, rfl⟩ := hq
        refine henter o.key _ (matchesPrefix_iff.mpr hstarts) ?_
        have hpre : q <+: segments o.key := by simpa using hqp
        have hkeys := keyOfPath_prefix bucket hpre
        rwa [keyOfPath_segments] at hkeys
    · rw [objectOf, keyOfPath_segments]
      exact ho.symm

include hordinary in
theorem scanned_distinct :
    (scanned disk bucket keyPrefix enter).Pairwise fun a b => a.key ≠ b.key := by
  have hpaths : ((disk.scan (fun dir => enter (keyOfPath [bucket] dir)) (disk.entries.length + 1)
      [[bucket]]).map Prod.fst).Nodup :=
    Tree.nodup_scan (weight_bucket_le disk bucket) (List.pairwise_singleton _ _)
  refine List.Pairwise.sublist List.filter_sublist (List.pairwise_map.mpr ?_)
  have hpairs := List.pairwise_map.mp hpaths
  refine hpairs.imp_of_mem fun {x y} hx hy hne hkeys => ?_
  obtain ⟨p, e⟩ := x
  obtain ⟨p', e'⟩ := y
  obtain ⟨hget, hfile, dir, hdir', hreached⟩ := (Tree.mem_scan (weight_bucket_le disk bucket)).mp hx
  obtain ⟨hget', hfile', dir', hdir'', hreached'⟩ :=
    (Tree.mem_scan (weight_bucket_le disk bucket)).mp hy
  obtain rfl := List.mem_singleton.mp hdir'
  obtain rfl := List.mem_singleton.mp hdir''
  cases e with
  | dir => exact hfile rfl
  | file c m =>
    cases e' with
    | dir => exact hfile' rfl
    | file c' m' =>
      obtain ⟨key, -, rfl, hkey⟩ := path_of_file hordinary hget hreached.below
      obtain ⟨key', -, rfl, hkey'⟩ := path_of_file hordinary hget' hreached'.below
      rw [objectOf, objectOf, hkey, hkey'] at hkeys
      exact hne (by rw [show key = key' from hkeys])

include hordinary in
theorem ordinaryKey_of_objectAt {o : Object} (h : objectAt disk bucket o.key = some o) :
    OrdinaryKey o.key := by
  obtain ⟨c, m, hget, -⟩ := objectAt_eq_some.mp h
  obtain ⟨key, hkey, hsegments⟩ := hordinary _ c m hget
  have heq : o.key = key := by
    rw [← normalizePath_segments o.key, hsegments, normalizePath_segments]
  rwa [heq]

end Scan

section Group

variable {keyPrefix : Bytes} {o : Object}

/-- One ASCII character as the delimiter is never cut off in the middle. -/
theorem groupObject_eq {c : UInt8} (hc : c < 0x80) (hp : Bytes.validUtf8 keyPrefix = true)
    (hkey : Bytes.validUtf8 o.key = true) (hstarts : keyPrefix <+: o.key) :
    groupObject keyPrefix [c] o = .ok (entryOf keyPrefix (some [c]) o) := by
  obtain ⟨rest, hrest⟩ := hstarts
  have hvalid : Bytes.validUtf8 rest = true := by
    rw [← hrest, Utf8.validUtf8_append hp] at hkey
    exact hkey
  have hslice : sliceFrom o.key keyPrefix.length = .ok rest := by
    rw [sliceFrom, ← hrest, if_pos (Utf8.isCharBoundary_length hvalid), List.drop_left' rfl]
  have hdrop : o.key.drop keyPrefix.length = rest := by rw [← hrest, List.drop_left' rfl]
  cases hfind : Search.find [c] rest with
  | none => simp [groupObject, hslice, hfind, entryOf, hdrop, bind, Except.bind, pure, Except.pure]
  | some i =>
    obtain ⟨hi, hp', -⟩ := Search.find_eq_some.mp hfind
    obtain ⟨behind, hbehind⟩ := hp'
    have hsplit : rest = (rest.take i ++ [c]) ++ behind := by
      rw [List.append_assoc, hbehind, List.take_append_drop]
    have hbehindValid : Bytes.validUtf8 behind = true := by
      refine (Utf8.validUtf8_of_append_ascii hc (s := rest.take i) ?_).2
      rw [← List.singleton_append, ← List.append_assoc, ← hsplit]
      exact hvalid
    have hlength : (rest.take i ++ [c]).length = i + 1 := by
      rw [List.length_append, List.length_take, List.length_singleton]
      omega
    have hboundary : Utf8.isCharBoundary rest (i + 1) = true := by
      rw [hsplit, ← hlength]
      exact Utf8.isCharBoundary_length hbehindValid
    have htake : o.key.take (keyPrefix.length + i + 1) = keyPrefix ++ rest.take (i + 1) := by
      rw [← hrest, Nat.add_assoc, List.take_length_add_append]
    simp [groupObject, hslice, hfind, entryOf, hdrop, sliceTo, hboundary, htake, bind, Except.bind, pure,
      Except.pure]

theorem groupObjects_eq {delimiter : Bytes} {objects : List Object}
    (h : ∀ o ∈ objects, groupObject keyPrefix delimiter o = .ok (entryOf keyPrefix (some delimiter) o)) :
    groupObjects keyPrefix delimiter objects =
      .ok (objects.map (entryOf keyPrefix (some delimiter))) := by
  induction objects with
  | nil => rfl
  | cons o objects ih =>
    rw [groupObjects, h o List.mem_cons_self, ih fun o' ho' => h o' (List.mem_cons_of_mem o ho')]
    rfl

variable {disk : Tree Bytes UInt8} {bucket : Bytes} {delimiter : Option Bytes}

/-- The scan ends without a panic, and its entries are those of the objects. -/
theorem collectEntries_eq (hdir : disk.get [bucket] = some .dir) (hordinary : OrdinaryBucket disk bucket)
    (hp : Bytes.validUtf8 keyPrefix = true) (hdelimiter : SimpleDelimiter delimiter) :
    ∃ enter, Enters keyPrefix enter ∧ collectEntries disk [bucket] keyPrefix delimiter =
      .ok ((scanned disk bucket keyPrefix enter).map (entryOf keyPrefix delimiter)) := by
  cases delimiter with
  | none => exact ⟨fun _ => true, fun _ _ _ _ => rfl, rfl⟩
  | some d =>
    obtain ⟨c, rfl, hc⟩ := hdelimiter d rfl
    refine ⟨mayMatch keyPrefix, enters_mayMatch keyPrefix, groupObjects_eq fun o ho => ?_⟩
    obtain ⟨hobject, hstarts⟩ := (mem_scanned hdir hordinary (enters_mayMatch keyPrefix)).mp ho
    exact groupObject_eq hc hp (ordinaryKey_of_objectAt hordinary hobject).text hstarts

/-- A common prefix has the delimiter behind the prefix, an object has not. -/
theorem entryOf_apart {o' : Object} {commonPrefix : Bytes} (hdelimiter : SimpleDelimiter delimiter)
    (hstarts : keyPrefix <+: o'.key) (hobject : entryOf keyPrefix delimiter o = .inl o)
    (hcommon : entryOf keyPrefix delimiter o' = .inr commonPrefix) : o.key ≠ commonPrefix := by
  cases delimiter with
  | none => cases hcommon
  | some d =>
    obtain ⟨c, rfl, -⟩ := hdelimiter d rfl
    cases hfind : Search.find [c] (o'.key.drop keyPrefix.length) with
    | none => simp [entryOf, hfind] at hcommon
    | some i =>
      obtain ⟨rest, hrest⟩ := hstarts
      have hdrop : o'.key.drop keyPrefix.length = rest := by rw [← hrest, List.drop_left' rfl]
      have htake : commonPrefix = keyPrefix ++ rest.take (i + 1) := by
        have heq : o'.key.take (keyPrefix.length + i + 1) = commonPrefix := by
          simpa [entryOf, hfind] using hcommon
        rw [← heq, ← hrest, Nat.add_assoc, List.take_length_add_append]
      rintro rfl
      have hnone : Search.find [c] (rest.take (i + 1)) = none := by
        cases hfind' : Search.find [c] (rest.take (i + 1)) with
        | none => rfl
        | some j => simp [entryOf, htake, hfind'] at hobject
      rw [hdrop] at hfind
      obtain ⟨hi, ⟨behind, hbehind⟩, -⟩ := Search.find_eq_some.mp hfind
      refine Search.find_eq_none.mp hnone i ?_ ?_
      · have hlt := Search.find_length_le hfind
        rw [List.length_singleton] at hlt
        rw [List.length_take]
        omega
      · rw [List.drop_take, ← hbehind]
        simp

end Group

section Whole

variable {disk : Tree Bytes UInt8} {bucket keyPrefix : Bytes} {delimiter : Option Bytes}

/-- The page that a request takes from the whole listing. -/
def pageOf (input : ListObjectsV2Input) (whole : List (Object ⊕ Bytes)) : ListObjectsV2Output :=
  let rest := whole.filter fun x => isBehind (resumePoint input.continuationToken input.startAfter) (textOf x)
  let maxKeys := input.maxKeys.getD 1000
  let page := rest.take (limitOf maxKeys)
  let isTruncated := decide (0 < limitOf maxKeys ∧ limitOf maxKeys < rest.length)
  { keyCount := page.length
    maxKeys := maxKeys
    isTruncated := isTruncated
    contents := nonEmpty (Pages.leftsOf page)
    commonPrefixes := nonEmpty (Pages.rightsOf page)
    continuationToken := input.continuationToken
    nextContinuationToken := if isTruncated then page.getLast?.map textOf else none
    delimiter := input.delimiter
    encodingType := input.encodingType
    name := input.bucket
    keyPrefix := input.keyPrefix
    startAfter := input.startAfter }

theorem answerPage_eq (input : ListObjectsV2Input) {whole : List (Object ⊕ Bytes)}
    (h : Pages.Strict textLe textOf whole) :
    answerPage input (Pages.leftsOf whole) (Pages.rightsOf whole) = pageOf input whole := by
  let p : Object ⊕ Bytes → Bool := fun x =>
    isBehind (resumePoint input.continuationToken input.startAfter) (textOf x)
  have hlefts : (Pages.leftsOf whole).filter (fun o => isBehind
      (resumePoint input.continuationToken input.startAfter) o.key) = Pages.leftsOf (whole.filter p) :=
    (Pages.leftsOf_filter whole p).symm
  have hrights : (Pages.rightsOf whole).filter (isBehind
      (resumePoint input.continuationToken input.startAfter)) = Pages.rightsOf (whole.filter p) :=
    (Pages.rightsOf_filter whole p).symm
  have hmerge := @Pages.merge_eq _ _ _ textLe Object.key id Http.bytes_isOrder _ (h.filter p)
    (limitOf (input.maxKeys.getD 1000)) none
  have hempty (l : List (Object ⊕ Bytes)) :
      (!(Pages.leftsOf l).isEmpty || !(Pages.rightsOf l).isEmpty) = !l.isEmpty := by
    cases l with
    | nil => rfl
    | cons x l => cases x <;> simp
  have htruncated (n : Nat) : (decide (0 < n) && !((whole.filter p).drop n).isEmpty) =
      decide (0 < n ∧ n < (whole.filter p).length) := by
    rw [Bool.decide_and]
    congr 1
    by_cases hn : n < (whole.filter p).length
    · have hne : (whole.filter p).drop n ≠ [] := by simpa using hn
      simp [hn]
    · have hnil : (whole.filter p).drop n = [] := List.drop_eq_nil_of_le (by omega)
      simp [hn, hnil]
  simp only [answerPage, hlefts, hrights, hmerge, hempty, htruncated, Pages.length_sides, Option.or_none]
  show _ = pageOf input whole
  unfold pageOf
  congr 1
  by_cases htrunc : 0 < limitOf (input.maxKeys.getD 1000) ∧
      limitOf (input.maxKeys.getD 1000) < (whole.filter p).length
  · have hsome : ∃ x, ((whole.filter p).take (limitOf (input.maxKeys.getD 1000))).getLast? = some x := by
      refine ⟨_, List.getLast?_eq_some_getLast ?_⟩
      intro hnil
      have hlen := congrArg List.length hnil
      rw [List.length_take, List.length_nil] at hlen
      omega
    obtain ⟨x, hx⟩ := hsome
    have hlast : ((whole.filter p).take (limitOf (input.maxKeys.getD 1000))).getLast?.map textOf =
        some (textOf x) := by rw [hx, Option.map_some]
    simp only [nextToken, hx, Option.map_some, Option.some_or]
    exact if_congr Iff.rfl hlast.symm rfl
  · rw [if_neg (by simpa using htrunc), if_neg (by simpa using htrunc)]

theorem entryOf_cases (keyPrefix : Bytes) (delimiter : Option Bytes) (o : Object) :
    entryOf keyPrefix delimiter o = .inl o ∨ ∃ p, entryOf keyPrefix delimiter o = .inr p := by
  unfold entryOf
  split
  · exact Or.inr ⟨_, rfl⟩
  · exact Or.inl rfl

theorem leftsOf_entries (objects : List Object) :
    Pages.leftsOf (objects.map (entryOf keyPrefix delimiter)) =
      objects.filter fun o => (entryOf keyPrefix delimiter o).isLeft := by
  induction objects with
  | nil => rfl
  | cons o objects ih =>
    rcases entryOf_cases keyPrefix delimiter o with h | ⟨p, h⟩
    · rw [List.map_cons, h, Pages.leftsOf_inl, ih, List.filter_cons_of_pos (by simp [h])]
    · rw [List.map_cons, h, Pages.leftsOf_inr, ih, List.filter_cons_of_neg (by simp [h])]

/-- The sorted objects and common prefixes are those of one ascending listing. -/
theorem whole_of_entries {objects : List Object} (hdelimiter : SimpleDelimiter delimiter)
    (hstarts : ∀ o ∈ objects, keyPrefix <+: o.key)
    (hdistinct : objects.Pairwise fun a b => a.key ≠ b.key) :
    ∃ whole, Pages.Strict textLe textOf whole ∧
      (∀ x, x ∈ whole ↔ x ∈ objects.map (entryOf keyPrefix delimiter)) ∧
      sortObjects (Pages.leftsOf (objects.map (entryOf keyPrefix delimiter))) = Pages.leftsOf whole ∧
      sortPrefixes (Pages.rightsOf (objects.map (entryOf keyPrefix delimiter))) =
        Pages.rightsOf whole := by
  let entries := objects.map (entryOf keyPrefix delimiter)
  have hmemObjects (o : Object) :
      o ∈ sortObjects (Pages.leftsOf entries) ↔ Sum.inl o ∈ entries := by
    rw [sortObjects, (List.perm_insertionSort _ _).mem_iff, Pages.mem_leftsOf]
  have hmemPrefixes (p : Bytes) :
      p ∈ sortPrefixes (Pages.rightsOf entries) ↔ Sum.inr p ∈ entries := by
    rw [sortPrefixes, (List.perm_insertionSort _ _).mem_iff, List.mem_dedup, Pages.mem_rightsOf]
  have hobjects : Pages.Strict textLe Object.key (sortObjects (Pages.leftsOf entries)) := by
    refine Pages.strict_insertionSort Http.bytes_isOrder ?_
    rw [leftsOf_entries]
    exact hdistinct.sublist List.filter_sublist
  have hprefixes : Pages.Strict textLe id (sortPrefixes (Pages.rightsOf entries)) :=
    Pages.strict_insertionSort Http.bytes_isOrder (List.nodup_dedup _)
  have hapart : ∀ o ∈ sortObjects (Pages.leftsOf entries),
      ∀ p ∈ sortPrefixes (Pages.rightsOf entries), o.key ≠ id p := by
    intro o ho p hp
    obtain ⟨o₁, ho₁, hentry₁⟩ := List.mem_map.mp ((hmemObjects o).mp ho)
    obtain ⟨o₂, ho₂, hentry₂⟩ := List.mem_map.mp ((hmemPrefixes p).mp hp)
    have hsame : o₁ = o := by
      rcases entryOf_cases keyPrefix delimiter o₁ with h | ⟨q, h⟩
      · exact Sum.inl.inj (h.symm.trans hentry₁)
      · rw [h] at hentry₁
        cases hentry₁
    rw [hsame] at hentry₁
    exact entryOf_apart hdelimiter (hstarts o₂ ho₂) hentry₁ hentry₂
  refine ⟨Pages.wholeOf textLe Object.key id (sortObjects (Pages.leftsOf entries))
    (sortPrefixes (Pages.rightsOf entries)),
    Pages.strict_wholeOf Http.bytes_isOrder hobjects hprefixes hapart, fun x => ?_,
    (Pages.leftsOf_wholeOf Http.bytes_isOrder hobjects hprefixes hapart).symm,
    (Pages.rightsOf_wholeOf Http.bytes_isOrder hobjects hprefixes hapart).symm⟩
  rw [Pages.mem_wholeOf, List.mem_append, List.mem_map, List.mem_map]
  constructor
  · rintro (⟨o, ho, rfl⟩ | ⟨p, hp, rfl⟩)
    · exact (hmemObjects o).mp ho
    · exact (hmemPrefixes p).mp hp
  · intro hx
    cases x with
    | inl o => exact Or.inl ⟨o, (hmemObjects o).mpr hx, rfl⟩
    | inr p => exact Or.inr ⟨p, (hmemPrefixes p).mpr hx, rfl⟩

theorem validUtf8_trimSlashes {s : Bytes} (h : Bytes.validUtf8 s = true) :
    Bytes.validUtf8 (trimSlashes s) = true := by
  induction s with
  | nil => exact h
  | cons c s ih =>
    by_cases hc : c = 47
    · subst hc
      rw [Bytes.validUtf8_cons_ascii 47 s (by decide)] at h
      simpa [trimSlashes] using ih h
    · simpa [trimSlashes, hc] using h

theorem trimSlashes_of_head {s : Bytes} (h : s.head? ≠ some 47) : trimSlashes s = s := by
  cases s with
  | nil => rfl
  | cons c s =>
    have hc : c ≠ 47 := by simpa using h
    simp [trimSlashes, hc]

/-- The requests for one bucket, prefix and delimiter are answered by pages of one listing. -/
theorem exists_whole (fs : FileSystem) (hbucket : Routing.checkBucketName bucket = true)
    (hdir : disk.get [bucket] = some .dir) (hordinary : OrdinaryBucket disk bucket)
    (hp : Bytes.validUtf8 keyPrefix = true) (hdelimiter : SimpleDelimiter delimiter) :
    ∃ whole, Pages.Strict textLe textOf whole ∧
      (∀ x, x ∈ whole ↔ IsEntry disk bucket keyPrefix delimiter x) ∧
      ∀ input : ListObjectsV2Input, input.bucket = bucket →
        trimSlashes (input.keyPrefix.getD []) = keyPrefix → input.delimiter = delimiter →
        fs.listObjectsV2 disk input = .ok (pageOf input whole) := by
  obtain ⟨enter, henter, hcollect⟩ := collectEntries_eq hdir hordinary hp hdelimiter
  have hmem (o : Object) : o ∈ scanned disk bucket keyPrefix enter ↔
      objectAt disk bucket o.key = some o ∧ keyPrefix <+: o.key := mem_scanned hdir hordinary henter
  obtain ⟨whole, hstrict, hentries, hobjects, hprefixes⟩ := whole_of_entries hdelimiter
    (fun o ho => ((hmem o).mp ho).2) (scanned_distinct hordinary)
  refine ⟨whole, hstrict, fun x => ?_, ?_⟩
  · rw [hentries, List.mem_map]
    constructor
    · rintro ⟨o, ho, rfl⟩
      obtain ⟨hobject, hstarts⟩ := (hmem o).mp ho
      exact ⟨o, hobject, hstarts, rfl⟩
    · rintro ⟨o, hobject, hstarts, rfl⟩
      exact ⟨o, (hmem o).mpr ⟨hobject, hstarts⟩, rfl⟩
  · rintro input rfl hkeyPrefix rfl
    have hpath : Fs.getBucketPath fs.absolutizeVirtually fs.root input.bucket =
        some (fs.root ++ [input.bucket]) :=
      resolveAbsPath_name fs.lexical fs.root (isName_of_checkBucketName hbucket)
    simp only [FileSystem.listObjectsV2, hpath, List.drop_left', hdir, hkeyPrefix, hcollect]
    rw [← answerPage_eq input hstrict, ← hobjects, ← hprefixes]
    rfl

/-- A listing without a continuation token gives the first entries behind `start_after` of the
ascending list of all entries, and tells whether there are more. -/
theorem listing_eq_definition (fs : FileSystem) (disk : Tree Bytes UInt8) (input : ListObjectsV2Input)
    (hbucket : Routing.checkBucketName input.bucket = true)
    (hdir : disk.get [input.bucket] = some .dir) (hordinary : OrdinaryBucket disk input.bucket)
    (hp : Bytes.validUtf8 (input.keyPrefix.getD []) = true)
    (hslash : (input.keyPrefix.getD []).head? ≠ some 47)
    (hdelimiter : SimpleDelimiter input.delimiter) (htoken : input.continuationToken = none)
    (hmax : 0 ≤ input.maxKeys.getD 1000) :
    ∃ output entries, fs.listObjectsV2 disk input = .ok output ∧
      Pages.Strict textLe textOf entries ∧
      (∀ x, x ∈ entries ↔
        IsEntry disk input.bucket (input.keyPrefix.getD []) input.delimiter x ∧
          ∀ marker ∈ input.startAfter, Pages.lt textLe marker (textOf x) = true) ∧
      output.contents = nonEmpty (Pages.leftsOf (entries.take (input.maxKeys.getD 1000).toNat)) ∧
      output.commonPrefixes =
        nonEmpty (Pages.rightsOf (entries.take (input.maxKeys.getD 1000).toNat)) ∧
      (0 < input.maxKeys.getD 1000 →
        (output.isTruncated = true ↔ input.maxKeys.getD 1000 < entries.length)) := by
  obtain ⟨whole, hstrict, hmem, hlist⟩ := exists_whole fs hbucket hdir hordinary hp hdelimiter
  have hresume : resumePoint input.continuationToken input.startAfter = input.startAfter := by
    rw [htoken]
    cases input.startAfter <;> rfl
  have hlimit : limitOf (input.maxKeys.getD 1000) = (input.maxKeys.getD 1000).toNat := by
    rw [limitOf, if_neg (by omega)]
  refine ⟨_, whole.filter fun x => isBehind input.startAfter (textOf x),
    hlist input rfl (trimSlashes_of_head hslash) rfl,
    hstrict.filter _, fun x => ?_, ?_, ?_, ?_⟩
  · rw [List.mem_filter, hmem, isBehind]
    cases input.startAfter <;> simp
  · simp only [pageOf, hresume, hlimit]
  · simp only [pageOf, hresume, hlimit]
  · intro hpos
    simp only [pageOf, hresume, hlimit, decide_eq_true_eq]
    omega

end Whole

section Photos

/-- The store of the samples that keep nothing. -/
noncomputable def plainStore : FileSystem :=
  Tables.store ⟨[], [], [], [], ⟨by decide, by decide⟩, ⟨by decide, by decide⟩, ⟨by decide, by decide⟩⟩

/-- A bucket with one object in a directory. -/
def photosDisk : Tree Bytes UInt8 :=
  Tree.ofList [([ascii "pics"], .dir), ([ascii "pics", ascii "a"], .dir),
    ([ascii "pics", ascii "a", ascii "b"], .file (ascii "x") 7)] (by decide)

theorem photos_ordinary : OrdinaryBucket photosDisk (ascii "pics") := by
  intro path content modified hget
  have hmem := (Tree.get_eq_some (by simp)).mp hget
  simp only [photosDisk, Tree.ofList, List.mem_cons, Prod.mk.injEq, reduceCtorEq, and_false,
    List.not_mem_nil, or_false, false_or, List.cons.injEq] at hmem
  obtain ⟨⟨-, rfl⟩, -⟩ := hmem
  have hnames : ∀ s ∈ segments (ascii "a/b"), IsName s := by
    have hsegments : segments (ascii "a/b") = [ascii "a", ascii "b"] := by decide
    rw [hsegments]
    intro s hs
    rcases List.mem_pair.mp hs with rfl | rfl
    · exact ⟨by decide, by decide, by decide, by decide⟩
    · exact ⟨by decide, by decide, by decide, by decide⟩
  exact ⟨ascii "a/b", ⟨hnames, by decide⟩, by decide⟩

/-- A request for the photos behind a key, with the slash as the delimiter. -/
def photosBehind (startAfter : Option Bytes) : ListObjectsV2Input :=
  ⟨ascii "pics", none, some (ascii "/"), none, startAfter, none, none⟩

theorem listing_eq_definition_photos :
    ∃ output entries, plainStore.listObjectsV2 photosDisk (photosBehind none) = .ok output ∧
      Pages.Strict textLe textOf entries ∧
      (∀ x, x ∈ entries ↔ IsEntry photosDisk (ascii "pics") [] (some (ascii "/")) x ∧
        ∀ marker ∈ (none : Option Bytes), Pages.lt textLe marker (textOf x) = true) ∧
      output.contents = nonEmpty (Pages.leftsOf (entries.take 1000)) ∧
      output.commonPrefixes = nonEmpty (Pages.rightsOf (entries.take 1000)) ∧
      ((0 : Int) < 1000 → (output.isTruncated = true ↔ (1000 : Int) < entries.length)) :=
  listing_eq_definition plainStore photosDisk (photosBehind none) (by decide) (by decide)
    photos_ordinary (by decide) (by decide)
    (fun d hd => ⟨47, by simpa [photosBehind, ascii] using hd.symm, by decide⟩) rfl (by decide)

/-- A common prefix is left out behind a key of its own, although keys below it are behind that key. -/
theorem listing_without_prefix :
    ¬∃ output entries,
      plainStore.listObjectsV2 photosDisk (photosBehind (some (ascii "a/a"))) = .ok output ∧
      Pages.Strict textLe textOf entries ∧
      (∀ x, x ∈ entries ↔ ∃ o, objectAt photosDisk (ascii "pics") o.key = some o ∧ [] <+: o.key ∧
        Pages.lt textLe (ascii "a/a") o.key = true ∧ x = entryOf [] (some (ascii "/")) o) ∧
      output.contents = nonEmpty (Pages.leftsOf (entries.take 1000)) ∧
      output.commonPrefixes = nonEmpty (Pages.rightsOf (entries.take 1000)) := by
  rintro ⟨output, entries, hlist, -, hmem, hcontents, hprefixes⟩
  have hanswer : (plainStore.listObjectsV2 photosDisk (photosBehind (some (ascii "a/a")))).map
      (fun o => (o.contents, o.commonPrefixes)) = .ok (none, none) := by rfl
  rw [hlist] at hanswer
  obtain ⟨hnoContents, hnoPrefixes⟩ : output.contents = none ∧ output.commonPrefixes = none :=
    Prod.mk.inj (Except.ok.inj hanswer)
  have hempty {α : Type} {l : List α} (h : nonEmpty l = none) : l = [] := by
    by_contra hne
    simp [nonEmpty, hne] at h
  have hlefts := hempty (hcontents.symm.trans hnoContents)
  have hrights := hempty (hprefixes.symm.trans hnoPrefixes)
  have hentry : Sum.inr (ascii "a/") ∈ entries :=
    (hmem _).mpr ⟨⟨ascii "a/b", 7, 1⟩, by decide, by decide, by decide, by decide⟩
  cases entries with
  | nil => cases hentry
  | cons x entries =>
    cases x with
    | inl o => simp [Pages.leftsOf] at hlefts
    | inr p => simp [Pages.rightsOf] at hrights

end Photos

end S3s.Fs
