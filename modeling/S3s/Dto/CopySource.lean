import S3s.Library.PercentEncoding
import S3s.Library.Search
import S3s.Library.Utf8
import S3s.Routing.Path
import S3s.SigV4.Decodability

/-! # Copy sources

The header that names the source of a copy is decoded as a whole, but for the version, and
then taken apart. When it is written again only the key and the version are encoded:
what comes before the key is written as it is.
-/
namespace S3s.Dto

open Routing (checkBucketName checkKey isLowercaseOrDigit)
open Text (splitOnce stripPrefix)

/-- `CopySource` -/
inductive CopySource where
  | bucket (bucket key : Bytes) (versionId : Option Bytes)
  | accessPoint (partition region accountId accessPointName key : Bytes) (versionId : Option Bytes)
  | outpost (partition region accountId outpostId key : Bytes) (versionId : Option Bytes)
deriving DecidableEq

/-- `ParseCopySourceError` -/
inductive ParseCopySourceError where
  | patternMismatch
  | invalidBucketName
  | invalidKey
  | invalidEncoding
  | invalidArn
  | invalidAccessPointName
  | invalidAccountId
deriving DecidableEq

/-- `urlencoding::encode`: every byte outside the unreserved set is escaped. -/
def urlEncode (s : Bytes) : Bytes := SigV4.uriEncode s true

/-- `urlencoding::decode` -/
def urlDecode (s : Bytes) : Option Bytes := Bytes.fromUtf8 (PercentEncoding.decode s)

/-- `strip_prefix` with a text. -/
def stripText (word s : Bytes) : Option Bytes :=
  if word.isPrefixOf s then some (s.drop word.length) else none

/-- `split_once` with a text. -/
def splitText (word s : Bytes) : Option (Bytes × Bytes) :=
  (Search.find word s).map fun index => (s.take index, s.drop (index + word.length))

/-- `splitn` with a character. -/
def splitN (c : UInt8) : Nat → Bytes → List Bytes
  | 0, _ => []
  | 1, s => [s]
  | n + 2, s =>
    match splitOnce c s with
    | none => [s]
    | some (part, rest) => part :: splitN c (n + 1) rest

/-- What stands before a version. -/
def versionMarker : Bytes := ascii "?versionId="

/-- `extract_version_id` -/
def extractVersionId (header : Bytes) : Except ParseCopySourceError (Bytes × Option Bytes) :=
  match Search.find versionMarker header with
  | some index =>
    match urlDecode (header.drop (index + versionMarker.length)) with
    | some versionId => .ok (header.take index, some versionId)
    | none => .error .invalidEncoding
  | none => .ok (header, none)

/-- `check_access_point_name` -/
def checkAccessPointName (name : Bytes) : Bool :=
  (3 ≤ name.length && name.length ≤ 63) && (name.all fun b => isLowercaseOrDigit b || b == 45) &&
    name.head?.any isLowercaseOrDigit && name.getLast?.any isLowercaseOrDigit &&
    !decide (ascii "--" <:+: name)

/-- `check_account_id` -/
def checkAccountId (id : Bytes) : Bool := id.length == 12 && id.all Bytes.isDigit

/-- `encode_path` -/
def encodePath (s : Bytes) : Bytes := [47].intercalate ((s.splitOn 47).map urlEncode)

/-- `parse_access_point_resource` -/
def parseAccessPointResource (resource partition region accountId : Bytes) (versionId : Option Bytes) :
    Except ParseCopySourceError CopySource :=
  match stripText (ascii "accesspoint/") resource with
  | none => .error .invalidArn
  | some rest =>
    match splitText (ascii "/object/") rest with
    | none => .error .invalidArn
    | some (name, key) =>
      if !checkAccessPointName name then .error .invalidAccessPointName
      else if key.isEmpty || !checkKey key then .error .invalidKey
      else .ok (.accessPoint partition region accountId name key versionId)

/-- `parse_outpost_resource` -/
def parseOutpostResource (resource partition region accountId : Bytes) (versionId : Option Bytes) :
    Except ParseCopySourceError CopySource :=
  match stripText (ascii "outpost/") resource with
  | none => .error .invalidArn
  | some rest =>
    match splitText (ascii "/object/") rest with
    | none => .error .invalidArn
    | some (outpostId, key) =>
      if outpostId.isEmpty then .error .invalidArn
      else if key.isEmpty || !checkKey key then .error .invalidKey
      else .ok (.outpost partition region accountId outpostId key versionId)

/-- The partitions there are. -/
def partitions : List Bytes := [ascii "aws", ascii "aws-cn", ascii "aws-us-gov"]

/-- `parse_arn` -/
def parseArn (arn : Bytes) (versionId : Option Bytes) : Except ParseCopySourceError CopySource :=
  match splitN 58 6 arn with
  | [scheme, partition, service, region, accountId, resource] =>
    if scheme ≠ ascii "arn" then .error .invalidArn
    else if partition ∉ partitions then .error .invalidArn
    else if region.isEmpty then .error .invalidArn
    else if !checkAccountId accountId then .error .invalidAccountId
    else if service = ascii "s3" then
      parseAccessPointResource resource partition region accountId versionId
    else if service = ascii "s3-outposts" then
      parseOutpostResource resource partition region accountId versionId
    else .error .invalidArn
  | _ => .error .invalidArn

namespace CopySource

/-- The part of `parse` behind the decoding. -/
def parseDecoded (decoded : Bytes) (versionId : Option Bytes) : Except ParseCopySourceError CopySource :=
  if (ascii "arn:").isPrefixOf decoded then parseArn decoded versionId
  else
    match splitOnce 47 decoded with
    | none => .error .patternMismatch
    | some (bucketName, key) =>
      if !checkBucketName bucketName then .error .invalidBucketName
      else if !checkKey key then .error .invalidKey
      else .ok (.bucket bucketName key versionId)

/-- `parse` -/
def parse (header : Bytes) : Except ParseCopySourceError CopySource :=
  match extractVersionId header with
  | .error e => .error e
  | .ok (pathPart, versionId) =>
    match urlDecode pathPart with
    | none => .error .invalidEncoding
    | some decoded => parseDecoded ((stripPrefix 47 decoded).getD decoded) versionId

/-- How a version is written. -/
def versionSuffix : Option Bytes → Bytes
  | none => []
  | some versionId => versionMarker ++ urlEncode versionId

/-- `format_to_string` -/
def formatToString : CopySource → Bytes
  | .bucket bucketName key versionId => bucketName ++ ascii "/" ++ encodePath key ++ versionSuffix versionId
  | .accessPoint partition region accountId accessPointName key versionId =>
    ascii "arn:" ++ partition ++ ascii ":s3:" ++ region ++ ascii ":" ++ accountId ++ ascii ":accesspoint/" ++
      accessPointName ++ ascii "/object/" ++ encodePath key ++ versionSuffix versionId
  | .outpost partition region accountId outpostId key versionId =>
    ascii "arn:" ++ partition ++ ascii ":s3-outposts:" ++ region ++ ascii ":" ++ accountId ++
      ascii ":outpost/" ++ outpostId ++ ascii "/object/" ++ encodePath key ++ versionSuffix versionId

/-- What stands before the slash before the key. -/
def front : CopySource → Bytes
  | .bucket bucketName _ _ => bucketName
  | .accessPoint partition region accountId accessPointName _ _ =>
    ascii "arn:" ++ partition ++ ascii ":s3:" ++ region ++ ascii ":" ++ accountId ++ ascii ":accesspoint/" ++
      accessPointName ++ ascii "/object"
  | .outpost partition region accountId outpostId _ _ =>
    ascii "arn:" ++ partition ++ ascii ":s3-outposts:" ++ region ++ ascii ":" ++ accountId ++
      ascii ":outpost/" ++ outpostId ++ ascii "/object"

def key : CopySource → Bytes
  | .bucket _ key _ => key
  | .accessPoint _ _ _ _ key _ => key
  | .outpost _ _ _ _ key _ => key

def versionId : CopySource → Option Bytes
  | .bucket _ _ versionId => versionId
  | .accessPoint _ _ _ _ _ versionId => versionId
  | .outpost _ _ _ _ _ versionId => versionId

theorem formatToString_eq (c : CopySource) :
    c.formatToString = c.front ++ 47 :: (encodePath c.key ++ versionSuffix c.versionId) := by
  cases c <;> simp [formatToString, front, key, versionId, ascii]

/-- What `parse` has checked of the parts before the key. -/
def Checked : CopySource → Prop
  | .bucket bucketName _ _ => checkBucketName bucketName = true
  | .accessPoint partition _ accountId accessPointName _ _ =>
    partition ∈ partitions ∧ checkAccountId accountId = true ∧ checkAccessPointName accessPointName = true
  | .outpost partition _ accountId _ _ _ => partition ∈ partitions ∧ checkAccountId accountId = true

end CopySource

section Parsing

open CopySource

theorem stripText_eq_some {word s rest : Bytes} (h : stripText word s = some rest) : s = word ++ rest := by
  unfold stripText at h
  split_ifs at h with hprefix
  obtain ⟨t, rfl⟩ := List.isPrefixOf_iff_prefix.mp hprefix
  rw [List.drop_left' rfl] at h
  rw [Option.some.inj h]

theorem splitText_eq_some {word s front rest : Bytes} (h : splitText word s = some (front, rest)) :
    s = front ++ (word ++ rest) := by
  obtain ⟨index, hfind, heq⟩ := Option.map_eq_some_iff.mp h
  obtain ⟨rfl, rfl⟩ := Prod.mk.inj heq
  obtain ⟨-, ⟨t, ht⟩, -⟩ := Search.find_eq_some.mp hfind
  have hdrop : s.drop (index + word.length) = t := by
    rw [← List.drop_drop, ← ht, List.drop_left' rfl]
  rw [hdrop, ht, List.take_append_drop]

/-- The parts of a text, put together again. -/
theorem intercalate_splitN (c : UInt8) {n : Nat} (hn : n ≠ 0) (s : Bytes) : [c].intercalate (splitN c n s) = s := by
  induction n generalizing s with
  | zero => exact absurd rfl hn
  | succ n ih =>
    cases n with
    | zero => simp [splitN, List.intercalate]
    | succ n =>
      rw [splitN]
      split
      · simp [List.intercalate]
      · next part rest hsplit =>
        have hne : splitN c (n + 1) rest ≠ [] := by
          cases n with
          | zero => simp [splitN]
          | succ n =>
            rw [splitN]
            split <;> simp
        obtain ⟨hs, -⟩ := Text.splitOnce_eq_some hsplit
        rw [List.intercalate_cons_of_ne_nil hne, ih (Nat.succ_ne_zero n), hs, List.append_assoc]
        rfl

variable {resource partition region accountId decoded : Bytes} {versionId : Option Bytes} {c : CopySource}

theorem parseAccessPointResource_eq_ok
    (h : parseAccessPointResource resource partition region accountId versionId = .ok c) :
    ∃ name key, resource = ascii "accesspoint/" ++ (name ++ (ascii "/object/" ++ key)) ∧
      checkAccessPointName name = true ∧ c = .accessPoint partition region accountId name key versionId := by
  unfold parseAccessPointResource at h
  split at h
  · cases h
  · next rest hrest =>
    split at h
    · cases h
    · next name key hsplit =>
      split_ifs at h with hname hkey
      rw [stripText_eq_some hrest, splitText_eq_some hsplit]
      exact ⟨name, key, rfl, by simpa using hname, (Except.ok.inj h).symm⟩

theorem parseOutpostResource_eq_ok
    (h : parseOutpostResource resource partition region accountId versionId = .ok c) :
    ∃ outpostId key, resource = ascii "outpost/" ++ (outpostId ++ (ascii "/object/" ++ key)) ∧
      c = .outpost partition region accountId outpostId key versionId := by
  unfold parseOutpostResource at h
  split at h
  · cases h
  · next rest hrest =>
    split at h
    · cases h
    · next outpostId key hsplit =>
      split_ifs at h with hid hkey
      rw [stripText_eq_some hrest, splitText_eq_some hsplit]
      exact ⟨outpostId, key, rfl, (Except.ok.inj h).symm⟩

theorem parseArn_eq_ok (h : parseArn decoded versionId = .ok c) :
    decoded = c.front ++ 47 :: c.key ∧ c.versionId = versionId ∧ c.Checked := by
  unfold parseArn at h
  split at h
  · next scheme partition service region accountId resource hparts =>
    have harn := intercalate_splitN 58 (n := 6) (by decide) decoded
    rw [hparts] at harn
    split_ifs at h with hscheme hpartition hregion haccount hs3 houtposts
    · obtain ⟨name, key, rfl, hname, rfl⟩ := parseAccessPointResource_eq_ok h
      refine ⟨?_, rfl, hpartition, by simpa using haccount, hname⟩
      rw [← harn, not_not.mp hscheme, hs3]
      simp [List.intercalate, CopySource.front, CopySource.key, ascii]
    · obtain ⟨outpostId, key, rfl, rfl⟩ := parseOutpostResource_eq_ok h
      refine ⟨?_, rfl, hpartition, by simpa using haccount⟩
      rw [← harn, not_not.mp hscheme, houtposts]
      simp [List.intercalate, CopySource.front, CopySource.key, ascii]
  · cases h

/-- What is parsed is what is written, but for the encoding. -/
theorem parseDecoded_eq_ok (h : parseDecoded decoded versionId = .ok c) :
    decoded = c.front ++ 47 :: c.key ∧ c.versionId = versionId ∧ c.Checked := by
  unfold parseDecoded at h
  split_ifs at h with harn
  · exact parseArn_eq_ok h
  · split at h
    · cases h
    · next bucketName key hsplit =>
      split_ifs at h with hbucket hkey
      obtain ⟨hdecoded, -⟩ := Text.splitOnce_eq_some hsplit
      rw [← Except.ok.inj h]
      exact ⟨hdecoded, rfl, by simpa [Checked] using hbucket⟩

/-- The source does not begin with a slash. -/
theorem CopySource.Checked.head_ne (h : c.Checked) : (c.front ++ 47 :: c.key).head? ≠ some 47 := by
  cases c with
  | bucket bucketName key versionId =>
    cases bucketName with
    | nil => cases h
    | cons b s =>
      intro hhead
      obtain rfl : b = 47 := Option.some.inj hhead
      simp [Checked, checkBucketName, isLowercaseOrDigit, Bytes.isDigit] at h
  | accessPoint => simp [front, ascii]
  | outpost => simp [front, ascii]

end Parsing

section Writing

open PercentEncoding (decode HasEscape)

theorem decode_urlEncode (s t : Bytes) : decode (urlEncode s ++ t) = s ++ decode t := by
  induction s with
  | nil => rfl
  | cons b s ih =>
    have hcons : urlEncode (b :: s) = SigV4.uriEncodeByte true b ++ urlEncode s := by
      simp [urlEncode, SigV4.uriEncode_eq_flatMap]
    rw [hcons, List.append_assoc]
    rcases SigV4.uriEncodeByte_cases true b with ⟨hbyte, hne⟩ | hbyte
    · rw [hbyte, List.singleton_append, PercentEncoding.decode_cons_of_ne hne, ih, List.cons_append]
    · obtain ⟨hhi, hlo⟩ := SigV4.hexVal_upperHexDigit b
      rw [hbyte, List.cons_append, List.cons_append, List.cons_append, List.nil_append,
        PercentEncoding.decode_escape hhi hlo, ih, Bytes.byte_of_nibbles, List.cons_append]

theorem urlDecode_urlEncode {s : Bytes} (h : Bytes.validUtf8 s = true) : urlDecode (urlEncode s) = some s := by
  have hdecode := decode_urlEncode s []
  rw [List.append_nil, PercentEncoding.decode_nil, List.append_nil] at hdecode
  rw [urlDecode, hdecode, Bytes.fromUtf8, if_pos h]

theorem hexVal_separator {sep : UInt8} (h : sep = 47 ∨ sep = 58) (s : Bytes) :
    ∀ d ∈ (sep :: s).head?, Bytes.hexVal d = none := by
  rintro d ⟨⟩
  rcases h with rfl | rfl <;> decide

theorem decode_encodePath (s : Bytes) : decode (encodePath s) = s := by
  have hjoin (segs : List Bytes) : decode ([47].intercalate (segs.map urlEncode)) = [47].intercalate segs := by
    induction segs with
    | nil => rfl
    | cons seg segs ih =>
      cases segs with
      | nil =>
        have hdecode := decode_urlEncode seg []
        simpa [List.intercalate] using hdecode
      | cons seg' segs =>
        have hcons (x y : Bytes) (zs : List Bytes) :
            [47].intercalate (x :: y :: zs) = x ++ 47 :: [47].intercalate (y :: zs) := by
          rw [List.intercalate_cons_cons, List.append_assoc, List.singleton_append]
        rw [List.map_cons, List.map_cons, hcons, hcons, ← List.map_cons, decode_urlEncode,
          PercentEncoding.decode_cons_of_ne (by decide), ih]
  rw [encodePath, hjoin, List.intercalate_splitOn]

/-- No version begins in an encoded path. -/
theorem mark_not_mem_encodePath (s : Bytes) : 63 ∉ encodePath s := by
  intro hmem
  have hjoin (segs : List Bytes) : 63 ∉ [47].intercalate (segs.map urlEncode) := by
    induction segs with
    | nil => simp [List.intercalate]
    | cons seg segs ih =>
      have hseg : 63 ∉ urlEncode seg := SigV4.not_mem_uriEncode (by decide) seg
      cases segs with
      | nil => simpa [List.intercalate] using hseg
      | cons seg' segs =>
        rw [List.map_cons, List.intercalate_cons_of_ne_nil (by simp)]
        simp only [List.mem_append, List.mem_singleton, not_or]
        exact ⟨⟨hseg, by decide⟩, ih⟩
  exact hjoin _ hmem

/-- A part that can be written as it is: it has no escape, and no version begins in it. -/
def IsRaw (s : Bytes) : Prop := ¬HasEscape s ∧ ¬versionMarker <:+: s

/-- What is found of a source that is written. -/
theorem extractVersionId_written {front key : Bytes} {versionId : Option Bytes}
    (hfront : ¬versionMarker <:+: front) (hversion : ∀ v ∈ versionId, Bytes.validUtf8 v = true) :
    extractVersionId (front ++ 47 :: (encodePath key ++ CopySource.versionSuffix versionId)) =
      .ok (front ++ 47 :: encodePath key, versionId) := by
  have hfirst : Search.NoneBefore versionMarker
      (front ++ 47 :: (encodePath key ++ CopySource.versionSuffix versionId)) (front.length + 1) :=
    Search.noneBefore_append_cons (by decide) (by decide) hfront
  have hsecond : Search.NoneBefore versionMarker (encodePath key ++ CopySource.versionSuffix versionId)
      (encodePath key).length :=
    Search.noneBefore_of_not_mem (mark_not_mem_encodePath key)
  have hfind : Search.find versionMarker
      (front ++ 47 :: (encodePath key ++ CopySource.versionSuffix versionId)) =
        (Search.find versionMarker (CopySource.versionSuffix versionId)).map
          (· + (front ++ 47 :: encodePath key).length) := by
    rw [Search.find_of_noneBefore hfirst (by simp), List.drop_length_add_append, List.drop_one, List.tail_cons,
      Search.find_of_noneBefore hsecond (by simp), List.drop_left' rfl, Option.map_map]
    congr 1
    funext index
    simp only [Function.comp_apply, List.length_append, List.length_cons]
    omega
  have hsplit : front ++ 47 :: (encodePath key ++ CopySource.versionSuffix versionId) =
      (front ++ 47 :: encodePath key) ++ CopySource.versionSuffix versionId := by simp
  cases versionId with
  | none =>
    have hnone : Search.find versionMarker (CopySource.versionSuffix none) = none := by decide
    rw [hnone] at hfind
    rw [extractVersionId, hfind, Option.map_none, hsplit]
    simp [CopySource.versionSuffix]
  | some v =>
    have hsome : Search.find versionMarker (CopySource.versionSuffix (some v)) = some 0 := by
      rw [Search.find_eq_some]
      exact ⟨Nat.zero_le _, List.prefix_append _ _, Search.noneBefore_zero _ _⟩
    rw [hsome, Option.map_some, Nat.zero_add] at hfind
    have hv : urlDecode (urlEncode v) = some v := urlDecode_urlEncode (hversion v rfl)
    rw [extractVersionId, hfind]
    dsimp only
    rw [hsplit, List.drop_length_add_append, List.take_left' rfl, CopySource.versionSuffix, List.drop_left' rfl, hv]

theorem fromUtf8_eq_some {s t : Bytes} : Bytes.fromUtf8 s = some t ↔ s = t ∧ Bytes.validUtf8 t = true := by
  unfold Bytes.fromUtf8
  split_ifs with h
  · constructor
    · rintro ⟨⟩
      exact ⟨rfl, h⟩
    · rintro ⟨rfl, -⟩
      rfl
  · simp only [false_iff]
    rintro ⟨rfl, hvalid⟩
    exact h hvalid

variable {header : Bytes} {c : CopySource}

/-- What has been parsed of a header: a path that decodes to the source, with a slash before it or without. -/
theorem parse_eq_ok (h : CopySource.parse header = .ok c) :
    ∃ pathPart, extractVersionId header = .ok (pathPart, c.versionId) ∧ c.Checked ∧
      (decode pathPart = c.front ++ 47 :: c.key ∨ decode pathPart = 47 :: (c.front ++ 47 :: c.key)) ∧
      Bytes.validUtf8 (decode pathPart) = true ∧
      CopySource.parseDecoded (c.front ++ 47 :: c.key) c.versionId = .ok c := by
  unfold CopySource.parse at h
  split at h
  · cases h
  · next pathPart versionId hextract =>
    split at h
    · cases h
    · next decoded hdecoded =>
      obtain ⟨rfl, hvalid⟩ := fromUtf8_eq_some.mp hdecoded
      obtain ⟨hdecode, rfl, hchecked⟩ := parseDecoded_eq_ok h
      refine ⟨pathPart, hextract, hchecked, ?_, hvalid, hdecode ▸ h⟩
      cases hstrip : stripPrefix 47 (decode pathPart) with
      | none =>
        rw [hstrip] at hdecode
        exact Or.inl hdecode
      | some rest =>
        rw [hstrip] at hdecode
        rw [Text.stripPrefix_eq_some.mp hstrip]
        exact Or.inr (congrArg (List.cons 47) hdecode)

theorem validUtf8_of_extractVersionId {pathPart v : Bytes}
    (h : extractVersionId header = .ok (pathPart, some v)) : Bytes.validUtf8 v = true := by
  unfold extractVersionId at h
  split at h
  · split at h
    · next hdecoded =>
      cases h
      exact (fromUtf8_eq_some.mp hdecoded).2
    · cases h
  · cases h

/-- A version that begins before the key is found there. -/
theorem length_of_extractVersionId {front rest pathPart : Bytes} {versionId : Option Bytes}
    (hfront : versionMarker <:+: front)
    (h : extractVersionId (front ++ rest) = .ok (pathPart, versionId)) : pathPart.length < front.length := by
  obtain ⟨before, behind, rfl⟩ := hfront
  have hthere : versionMarker <+: (before ++ versionMarker ++ behind ++ rest).drop before.length := by
    rw [List.append_assoc, List.append_assoc, List.drop_left' rfl]
    exact List.prefix_append _ _
  unfold extractVersionId at h
  split at h
  · next index hfind =>
    obtain ⟨-, -, hnone⟩ := Search.find_eq_some.mp hfind
    have hle : index ≤ before.length := by
      by_contra hgt
      exact hnone before.length (by omega) hthere
    split at h
    · cases h
      have hmarker : versionMarker.length = 11 := rfl
      simp only [List.length_take, List.length_append, hmarker]
      omega
    · cases h
  · next hfind =>
    refine absurd hthere (Search.find_eq_none.mp hfind before.length ?_)
    simp only [List.length_append]
    omega

/-- The parts before the key and the key are decoded apart. -/
theorem decode_written (front key : Bytes) : decode (front ++ 47 :: encodePath key) = decode front ++ 47 :: key := by
  rw [PercentEncoding.decode_append (hexVal_separator (Or.inl rfl) _),
    PercentEncoding.decode_cons_of_ne (by decide), decode_encodePath]

/-- A source is read back from what is written exactly when what stands before its key can be written as it is. -/
theorem parse_format_of_parse (h : CopySource.parse header = .ok c) :
    CopySource.parse c.formatToString = .ok c ↔ IsRaw c.front := by
  obtain ⟨pathPart, hextract, hchecked, hpath, hvalid, hparse⟩ := parse_eq_ok h
  have hversion : ∀ v ∈ c.versionId, Bytes.validUtf8 v = true := by
    intro v hv
    rw [Option.mem_def.mp hv] at hextract
    exact validUtf8_of_extractVersionId hextract
  constructor
  · intro hback
    obtain ⟨pathPart', hextract', -, hpath', -, -⟩ := parse_eq_ok hback
    rw [CopySource.formatToString_eq] at hextract'
    have hlength : c.front.length + 1 + c.key.length ≤ (decode pathPart').length := by
      rcases hpath' with hpath' | hpath' <;>
        simp only [hpath', List.length_append, List.length_cons] <;> omega
    have hmarker : ¬versionMarker <:+: c.front := by
      intro hmarker
      have hless := length_of_extractVersionId hmarker hextract'
      have hle := PercentEncoding.length_decode_le pathPart'
      omega
    refine ⟨fun hescape => ?_, hmarker⟩
    rw [extractVersionId_written hmarker hversion] at hextract'
    obtain ⟨rfl, -⟩ := Prod.mk.inj (Except.ok.inj hextract')
    have hless := PercentEncoding.length_decode_lt hescape
    rw [decode_written, List.length_append, List.length_cons] at hlength
    omega
  · rintro ⟨hescape, hmarker⟩
    have hvalid' : Bytes.validUtf8 (c.front ++ 47 :: c.key) = true := by
      rcases hpath with hpath | hpath
      · rwa [hpath] at hvalid
      · rwa [hpath, Bytes.validUtf8_cons_ascii 47 _ (by decide)] at hvalid
    have hdecode : urlDecode (c.front ++ 47 :: encodePath c.key) = some (c.front ++ 47 :: c.key) := by
      rw [urlDecode, decode_written, PercentEncoding.decode_eq_self hescape, fromUtf8_eq_some]
      exact ⟨rfl, hvalid'⟩
    have hstrip : stripPrefix 47 (c.front ++ 47 :: c.key) = none := by
      rw [Option.eq_none_iff_forall_ne_some]
      intro rest hrest
      apply hchecked.head_ne
      rw [Text.stripPrefix_eq_some.mp hrest]
      rfl
    rw [CopySource.parse, CopySource.formatToString_eq, extractVersionId_written hmarker hversion]
    dsimp only
    rw [hdecode]
    dsimp only
    rw [hstrip]
    exact hparse

end Writing

section Parts

variable {s t : Bytes}

/-- Parts with a separator between them can be written as they are when each can. -/
theorem isRaw_append_cons {sep : UInt8} (h : sep = 47 ∨ sep = 58) :
    IsRaw (s ++ sep :: t) ↔ IsRaw s ∧ IsRaw t := by
  have hmem : sep ∉ versionMarker := by
    rcases h with rfl | rfl <;> decide
  have hne : sep ≠ 37 := by
    rcases h with rfl | rfl <;> decide
  have hbegins := PercentEncoding.not_beginsEscape_of_ne (s := t) hne
  rw [IsRaw, IsRaw, IsRaw, PercentEncoding.hasEscape_append (hexVal_separator h t), PercentEncoding.hasEscape_cons,
    Search.infix_append_cons hmem (by decide)]
  tauto

theorem isRaw_of_not_mem (hpercent : 37 ∉ s) (hmark : 63 ∉ s) : IsRaw s := by
  refine ⟨PercentEncoding.not_hasEscape_of_not_mem hpercent, fun hmarker => hmark ?_⟩
  exact hmarker.subset (by decide)

/-- A text of digits, lowercase letters, hyphens and dots can be written as it is. -/
theorem isRaw_of_all {p : UInt8 → Bool} (hp : p 37 = false ∧ p 63 = false) (h : s.all p = true) : IsRaw s := by
  rw [List.all_eq_true] at h
  apply isRaw_of_not_mem
  · intro hmem
    rw [h 37 hmem] at hp
    cases hp.1
  · intro hmem
    rw [h 63 hmem] at hp
    cases hp.2

/-- A source whose parts before the key can be written as they are. Only the region and the id of an outpost are
not checked for the characters in them. -/
def CopySource.IsWritable : CopySource → Prop
  | .bucket .. => True
  | .accessPoint _ region .. => IsRaw region
  | .outpost _ region _ outpostId .. => IsRaw region ∧ IsRaw outpostId

theorem isRaw_partition {partition : Bytes} (h : partition ∈ partitions) : IsRaw partition := by
  revert partition
  simp only [partitions, List.forall_mem_cons]
  exact ⟨isRaw_of_not_mem (by decide) (by decide), isRaw_of_not_mem (by decide) (by decide),
    isRaw_of_not_mem (by decide) (by decide), by simp⟩

theorem isRaw_accountId {accountId : Bytes} (h : checkAccountId accountId = true) : IsRaw accountId := by
  rw [checkAccountId, Bool.and_eq_true] at h
  exact isRaw_of_all (by decide) h.2

theorem isRaw_accessPointName {name : Bytes} (h : checkAccessPointName name = true) : IsRaw name := by
  simp only [checkAccessPointName, Bool.and_eq_true] at h
  exact isRaw_of_all (by decide) h.1.1.1.2

theorem isRaw_bucketName {name : Bytes} (h : checkBucketName name = true) : IsRaw name := by
  simp only [checkBucketName, Bool.and_eq_true] at h
  exact isRaw_of_all (by decide) h.1.1.1.1.1.2

theorem isRaw_word : ∀ word ∈ [ascii "arn", ascii "s3", ascii "s3-outposts", ascii "accesspoint",
    ascii "outpost", ascii "object"], IsRaw word := by
  have hplain : ∀ word ∈ [ascii "arn", ascii "s3", ascii "s3-outposts", ascii "accesspoint",
      ascii "outpost", ascii "object"], 37 ∉ word ∧ 63 ∉ word := by decide
  exact fun word hword => isRaw_of_not_mem (hplain word hword).1 (hplain word hword).2

theorem CopySource.Checked.isRaw_front_iff {c : CopySource} (h : c.Checked) : IsRaw c.front ↔ c.IsWritable := by
  have hcolon {s t : Bytes} : IsRaw (s ++ 58 :: t) ↔ IsRaw s ∧ IsRaw t := isRaw_append_cons (Or.inr rfl)
  have hslash {s t : Bytes} : IsRaw (s ++ 47 :: t) ↔ IsRaw s ∧ IsRaw t := isRaw_append_cons (Or.inl rfl)
  have hwords := isRaw_word
  simp only [List.forall_mem_cons] at hwords
  obtain ⟨harn, hs3, houtposts, haccesspoint, houtpost, hobject, -⟩ := hwords
  cases c with
  | bucket bucketName key versionId => exact iff_of_true (isRaw_bucketName h) trivial
  | accessPoint partition region accountId name key versionId =>
    obtain ⟨hpartition, haccount, hname⟩ := h
    have hfront : (accessPoint partition region accountId name key versionId).front =
        ascii "arn" ++ 58 :: (partition ++ 58 :: (ascii "s3" ++ 58 :: (region ++ 58 :: (accountId ++ 58 ::
          (ascii "accesspoint" ++ 47 :: (name ++ 47 :: ascii "object")))))) := by
      simp [CopySource.front, ascii]
    rw [hfront, hcolon, hcolon, hcolon, hcolon, hcolon, hslash, hslash]
    constructor
    · rintro ⟨-, -, -, hregion, -⟩
      exact hregion
    · intro hregion
      exact ⟨harn, isRaw_partition hpartition, hs3, hregion, isRaw_accountId haccount, haccesspoint,
        isRaw_accessPointName hname, hobject⟩
  | outpost partition region accountId outpostId key versionId =>
    obtain ⟨hpartition, haccount⟩ := h
    have hfront : (outpost partition region accountId outpostId key versionId).front =
        ascii "arn" ++ 58 :: (partition ++ 58 :: (ascii "s3-outposts" ++ 58 :: (region ++ 58 :: (accountId ++
          58 :: (ascii "outpost" ++ 47 :: (outpostId ++ 47 :: ascii "object")))))) := by
      simp [CopySource.front, ascii]
    rw [hfront, hcolon, hcolon, hcolon, hcolon, hcolon, hslash, hslash]
    constructor
    · rintro ⟨-, -, -, hregion, -, -, hid, -⟩
      exact ⟨hregion, hid⟩
    · rintro ⟨hregion, hid⟩
      exact ⟨harn, isRaw_partition hpartition, houtposts, hregion, isRaw_accountId haccount, houtpost, hid,
        hobject⟩

end Parts

/-- A source that has been parsed is read back from what is written exactly when its region, and the id of its
outpost, have no escape and no beginning of a version in them. -/
theorem copySource_round_trip_iff (header : Bytes) (c : CopySource) (h : CopySource.parse header = .ok c) :
    CopySource.parse c.formatToString = .ok c ↔ c.IsWritable := by
  obtain ⟨_, _, hchecked, _⟩ := parse_eq_ok h
  rw [parse_format_of_parse h, hchecked.isRaw_front_iff]

/-- A source in a bucket is read back. -/
theorem copySource_round_trip_bucket :
    CopySource.parse (CopySource.bucket (ascii "bucket") (ascii "a?b") none).formatToString =
      .ok (.bucket (ascii "bucket") (ascii "a?b") none) :=
  (copySource_round_trip_iff (ascii "bucket/a%3Fb") _ (by decide +kernel)).mpr trivial

/-- The region `a%41` is written as it is, and read back as `aA`. -/
theorem region_decoded_again :
    ∃ header c, CopySource.parse header = .ok c ∧ CopySource.parse c.formatToString ≠ .ok c :=
  ⟨ascii "arn:aws:s3:a%2541:123456789012:accesspoint/abc/object/k",
    .accessPoint (ascii "aws") (ascii "a%41") (ascii "123456789012") (ascii "abc") (ascii "k") none,
    by decide +kernel, by decide +kernel⟩

end S3s.Dto
