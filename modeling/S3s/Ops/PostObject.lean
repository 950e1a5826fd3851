import S3s.Http.Metadata
import S3s.PostPolicy.Validation

/-! # The form of a POST object against its policy

`resolve_post_object` completes the key, reads the policy, settles the size of the file and
checks the policy; `deserialize_http_multipart` then builds the input of the upload from the
same form. What the policy was checked against is what the input is built from.
-/
namespace S3s.Ops
open Http PostPolicy Polling Sorted

variable {ε : Type}

/-- `u64::saturating_add`, and `usize::saturating_add` -/
def saturatingAdd (a b : Nat) : Nat := min (a + b) (2 ^ 64 - 1)

section Streams

/-- `VecByteStream` -/
structure VecByteStream where
  queue : List Bytes
  remainingBytes : Nat

namespace VecByteStream

/-- `VecByteStream::new` -/
def new (v : List Bytes) : VecByteStream := ⟨v, (v.map List.length).foldl saturatingAdd 0⟩

/-- `poll_next` of `VecByteStream` -/
def pollNext (s : VecByteStream) : Item Bytes Empty × VecByteStream :=
  match s.queue with
  | [] => (.ready none, s)
  | b :: queue => (.ready (some (.ok b)), ⟨queue, s.remainingBytes - b.length⟩)

end VecByteStream

/-- The stream that the operation is given. -/
inductive PostStream (ε : Type) where
  | file (s : FileStream ε)
  | vec (s : VecByteStream)

/-- The stream ends without an error, and these are the chunks it has handed out. -/
def PostStream.Ends : PostStream ε → List Bytes → Prop
  | file s, items => ∃ s', Drains (asking FileStream.pollNext) s items (.ok ()) s'
  | vec s, items => ∃ s', Drains (asking VecByteStream.pollNext) s items (.ok ()) s'

/-- The exact length in `remaining_length` -/
def PostStream.exactLength : PostStream ε → Option Nat
  | file s => if s.contentLen.isSome && decide (s.remaining < 2 ^ 64) then some s.remaining else none
  | vec s => some s.remainingBytes

/-- `MultipartError`, of those that the aggregation of a file raises. -/
inductive AggregateError (ε : Type) where
  | underlying (source : FileStreamError ε)
  | fileTooLarge (size limit : Nat)

/-- The loop of `aggregate_file_stream_limited`. What it holds is in memory, so that its bytes can be
counted. -/
inductive Aggregates (maxSize : Nat) : FileStream ε → List Bytes → Nat →
    Except (AggregateError ε) (List Bytes) → Prop where
  | done {s s' : FileStream ε} {vec : List Bytes} {totalSize : Nat}
    (next : Settles (asking FileStream.pollNext) s (.ok none) s') :
    Aggregates maxSize s vec totalSize (.ok vec)
  | failed {s s' : FileStream ε} {vec : List Bytes} {totalSize : Nat} {e : FileStreamError ε}
    (next : Settles (asking FileStream.pollNext) s (.error e) s') :
    Aggregates maxSize s vec totalSize (.error (.underlying e))
  | tooLarge {s s' : FileStream ε} {vec : List Bytes} {totalSize : Nat} {bytes : Bytes}
    (next : Settles (asking FileStream.pollNext) s (.ok (some bytes)) s')
    (large : saturatingAdd totalSize bytes.length > maxSize) :
    Aggregates maxSize s vec totalSize
      (.error (.fileTooLarge (saturatingAdd totalSize bytes.length) maxSize))
  | pushed {s s' : FileStream ε} {vec : List Bytes} {totalSize : Nat} {bytes : Bytes}
    {r : Except (AggregateError ε) (List Bytes)}
    (next : Settles (asking FileStream.pollNext) s (.ok (some bytes)) s')
    (small : ¬saturatingAdd totalSize bytes.length > maxSize)
    (inMemory : (vec ++ [bytes]).flatten.length < 2 ^ 64)
    (rest : Aggregates maxSize s' (vec ++ [bytes]) (saturatingAdd totalSize bytes.length) r) :
    Aggregates maxSize s vec totalSize r

/-- `map_err` in `prepare_post_object_stream` -/
def mapAggregateError : AggregateError ε → S3Error
  | .fileTooLarge .. => uploadTooLarge
  | .underlying _ => invalidRequest (ascii "failed to read file stream")

/-- `prepare_post_object_stream`: the stream, and the size of the file. -/
inductive PreparesStream (maxFileSize : Nat) :
    FileStream ε → S3Result (PostStream ε × Nat) → Prop where
  | tooLarge {file : FileStream ε} {n : Nat} (len : file.contentLen = some n)
    (large : n > maxFileSize) : PreparesStream maxFileSize file (.error uploadTooLarge)
  | known {file : FileStream ε} {n : Nat} (len : file.contentLen = some n)
    (small : ¬n > maxFileSize) : PreparesStream maxFileSize file (.ok (.file file, n))
  | refused {file : FileStream ε} {e : AggregateError ε} (len : file.contentLen = none)
    (aggregated : Aggregates maxFileSize file [] 0 (.error e)) :
    PreparesStream maxFileSize file (.error (mapAggregateError e))
  | aggregated {file : FileStream ε} {vec : List Bytes} (len : file.contentLen = none)
    (aggregated : Aggregates maxFileSize file [] 0 (.ok vec)) :
    PreparesStream maxFileSize file
      (.ok (.vec (.new vec), (vec.map List.length).foldl saturatingAdd 0))

end Streams

section Resolving

variable (P : Parsers) (now : Int) (configMax : Nat) (bucket : Bytes)

/-- `parse_post_policy` -/
def parsePostPolicy (m : Multipart ε) : S3Result (Option PostPolicy.PostPolicy) :=
  match m.findFieldValue (ascii "policy") with
  | none => .ok none
  | some encoded =>
    match PostPolicy.PostPolicy.fromBase64 P encoded with
    | .error _ => .error (.saying invalidPolicyDocument (ascii "failed to parse POST policy"))
    | .ok policy =>
      if now ≥ policy.expiration then .error (.saying .accessDenied (ascii "Request has expired"))
      else .ok (some policy)

/-- `post_object_max_file_size` -/
def postObjectMaxFileSize (policy : Option PostPolicy.PostPolicy) : Nat :=
  match policy.bind PostPolicy.PostPolicy.contentLengthRange with
  | some (_, max) => min max configMax
  | none => configMax

/-- The check of the policy at the end of `resolve_post_object`. -/
def validatePolicy (policy : Option PostPolicy.PostPolicy) (m : Multipart ε) (fileSize : Nat) :
    S3Result Unit :=
  match policy with
  | some policy => policy.validateConditionsOnly m fileSize (some bucket)
  | none => .ok ()

/-- `take_file_stream`, as it leaves the form. -/
def takenFrom (m : Multipart ε) : Multipart ε := { m with file := { m.file with stream := none } }

/-- `resolve_post_object`: the stream and the policy, and the form as it is left. -/
inductive ResolvesPostObject (m : Multipart ε) :
    S3Result (PostStream ε × Option PostPolicy.PostPolicy) → Multipart ε → Prop where
  | unreadable {e : S3Error} (policy : parsePostPolicy P now m.substituteKeyFilename = .error e) :
    ResolvesPostObject m (.error e) m.substituteKeyFilename
  | unprepared {policy : Option PostPolicy.PostPolicy} {file : FileStream ε} {e : S3Error}
    (parsed : parsePostPolicy P now m.substituteKeyFilename = .ok policy)
    (stream : m.substituteKeyFilename.file.stream = some file)
    (prepared : PreparesStream (postObjectMaxFileSize configMax policy) file (.error e)) :
    ResolvesPostObject m (.error e) (takenFrom m.substituteKeyFilename)
  | checked {policy : Option PostPolicy.PostPolicy} {file : FileStream ε} {post : PostStream ε}
    {fileSize : Nat} (parsed : parsePostPolicy P now m.substituteKeyFilename = .ok policy)
    (stream : m.substituteKeyFilename.file.stream = some file)
    (prepared : PreparesStream (postObjectMaxFileSize configMax policy) file
      (.ok (post, fileSize))) :
    ResolvesPostObject m
      ((validatePolicy bucket policy (takenFrom m.substituteKeyFilename) fileSize).map
        fun _ => (post, policy)) (takenFrom m.substituteKeyFilename)

end Resolving

section Deserializing

/-- What the types of the fields of `PutObjectInput` make of a text, by the name of the field, and
what `{:?}` writes for a text. -/
structure FieldTypes (V : Type) where
  fromStr : Bytes → Bytes → Option V
  debugStr : Bytes → Bytes

variable {V : Type} (T : FieldTypes V)

/-- `parse_field_value`, `parse_field_value_timestamp` -/
def parseFieldValue (m : Multipart ε) (name : Bytes) : S3Result (Option V) :=
  match m.findFieldValue name with
  | none => .ok none
  | some val =>
    match T.fromStr name val with
    | some ans => .ok (some ans)
    | none =>
      .error (.saying .invalidArgument
        (ascii "invalid field value: " ++ name ++ ascii ": " ++ T.debugStr val))

/-- The fields of the form that the input is read from, beside the key and the metadata. -/
def headerFields : List Bytes :=
  ["x-amz-acl", "x-amz-server-side-encryption-bucket-key-enabled", "cache-control",
    "x-amz-sdk-checksum-algorithm", "x-amz-checksum-crc32", "x-amz-checksum-crc32c",
    "x-amz-checksum-crc64nvme", "x-amz-checksum-md5", "x-amz-checksum-sha1",
    "x-amz-checksum-sha256", "x-amz-checksum-sha512", "x-amz-checksum-xxhash128",
    "x-amz-checksum-xxhash3", "x-amz-checksum-xxhash64", "content-disposition",
    "content-encoding", "content-language", "content-md5", "content-type",
    "x-amz-expected-bucket-owner", "expires", "x-amz-grant-full-control", "x-amz-grant-read",
    "x-amz-grant-read-acp", "x-amz-grant-write-acp", "if-match", "if-none-match",
    "x-amz-object-lock-legal-hold", "x-amz-object-lock-mode",
    "x-amz-object-lock-retain-until-date", "x-amz-request-payer",
    "x-amz-server-side-encryption-customer-algorithm",
    "x-amz-server-side-encryption-customer-key",
    "x-amz-server-side-encryption-customer-key-md5", "x-amz-server-side-encryption-context",
    "x-amz-server-side-encryption-aws-kms-key-id", "x-amz-server-side-encryption",
    "x-amz-storage-class", "x-amz-tagging", "x-amz-website-redirect-location",
    "x-amz-write-offset-bytes"].map ascii

/-- One turn of the loop over the fields for the metadata. -/
def insertMetadata (metadata : Metadata) (field : Bytes × Bytes) : Metadata :=
  match Metadata.keyOf field.1 with
  | none => metadata
  | some key => if key.isEmpty then metadata else metadata.insert key field.2

/-- `PutObjectInput`, as far as it is read from a form. -/
structure PutObjectInput (ε V : Type) where
  bucket : Bytes
  key : Bytes
  body : PostStream ε
  contentLength : Option Nat
  fields : List (Bytes × Option V)
  metadata : Option Metadata

/-- The length of the content in `deserialize_http_multipart`. -/
def formContentLength (body : PostStream ε) : S3Result (Option Nat) :=
  match body.exactLength with
  | none => .ok none
  | some n =>
    if n < 2 ^ 63 then .ok (if n = 0 then none else some n)
    else .error (.saying .invalidArgument (ascii "content-length overflow"))

/-- `deserialize_http_multipart` -/
def deserializeHttpMultipart (bucket : Bytes) (m : Multipart ε) (body : PostStream ε) :
    S3Result (PutObjectInput ε V) := do
  let key ← (m.findFieldValue (ascii "key")).elim (.error (invalidRequest (ascii "missing key"))) .ok
  let contentLength ← formContentLength body
  let fields ← headerFields.mapM fun name => do .ok (name, ← parseFieldValue T m name)
  let metadata := m.fields.foldl insertMetadata Metadata.empty
  .ok { bucket, key, body, contentLength, fields,
        metadata := if metadata.entries.isEmpty then none else some metadata }

end Deserializing

/-- `HashMap::get` -/
def metadataValue (m : Metadata) (key : Bytes) : Option Bytes :=
  (m.entries.find? fun e => e.1 == key).map Prod.snd

/-- The last value submitted under a name, in whatever case its letters were. -/
def lastSubmitted (submitted : List (Bytes × Bytes)) (name : Bytes) : Option Bytes :=
  (valuesOf (submitted.map fun field => (Bytes.lowercase field.1, field.2)) name).getLast?

/-- The value under a name that the upload goes by: the bucket of the URL, the completed key, and
else what was submitted last. -/
def usedValue (bucket fileName : Bytes) (submitted : List (Bytes × Bytes)) (name : Bytes) :
    Option Bytes :=
  if name = ascii "bucket" then some bucket
  else if name = ascii "key" then (lastSubmitted submitted name).map (completedKey fileName)
  else lastSubmitted submitted name

/-- A condition holds of the values and of what the stream of the body comes to. -/
def ConditionHolds (value : Bytes → Option Bytes) (body : PostStream ε) : PostPolicyCondition → Prop
  | .eq field text => value field = some text
  | .startsWith field start => start <+: (value field).getD []
  | .contentLengthRange min max =>
    ∀ items, body.Ends items → min ≤ items.flatten.length ∧ items.flatten.length ≤ max

/-- An input is built from the values and from the stream. -/
structure BuiltFrom {V : Type} (T : FieldTypes V) (value : Bytes → Option Bytes)
    (body : PostStream ε) (input : PutObjectInput ε V) : Prop where
  bucket : value (ascii "bucket") = some input.bucket
  key : value (ascii "key") = some input.key
  body : input.body = body
  names : input.fields.map Prod.fst = headerFields
  fields : ∀ field ∈ input.fields, (value field.1).map (T.fromStr field.1) = field.2.map some
  metadata : ∀ key, key ≠ [] →
    (input.metadata.bind fun m => metadataValue m key) = value (Metadata.namespaceText ++ key)

section Values

variable {boundary : Bytes} {totalLen : Option Nat} {progress : Progress} {info : PartInfo}
  {name : Bytes} {owned : FormData.FinalPartDataStream ε}

/-- The fields of a form hold the values that were submitted, in their order. -/
theorem formOf_valuesOf (field : Bytes) :
    valuesOf (formOf boundary totalLen progress info name owned).fields field =
      valuesOf (progress.fields.map fun f => (Bytes.lowercase f.1, f.2)) field :=
  valuesOf_insertionSort bytes_isOrder _ field

/-- What is found in a form once its key is completed. -/
theorem findFieldValue_substituted (field : Bytes) :
    (takenFrom (formOf boundary totalLen progress info name owned).substituteKeyFilename).findFieldValue
        field =
      if field = ascii "key" then
        (lastSubmitted progress.fields field).map (completedKey (info.cdFileName.getD name))
      else lastSubmitted progress.fields field := by
  have hsorted := formOf_ascending boundary totalLen progress info name owned
  have hlast : lookupLast Bytes.le (formOf boundary totalLen progress info name owned).fields field =
      lastSubmitted progress.fields field := by
    rw [lookupLast_eq bytes_isOrder hsorted, formOf_valuesOf, lastSubmitted]
  by_cases hkey : field = ascii "key"
  · subst hkey
    rw [if_pos rfl, ← hlast]
    exact lookupLast_modifyLast bytes_isOrder hsorted _
  · rw [if_neg hkey, ← hlast, lookupLast_eq bytes_isOrder hsorted,
      ← valuesOf_modifyLast_ne bytes_isOrder hsorted (completedKey (info.cdFileName.getD name)) hkey]
    exact lookupLast_eq bytes_isOrder (ascending_modifyLast bytes_isOrder hsorted _)

theorem conditionValue_substituted (bucket field : Bytes) :
    conditionValue (takenFrom
        (formOf boundary totalLen progress info name owned).substituteKeyFilename) bucket field =
      usedValue bucket (info.cdFileName.getD name) progress.fields field := by
  rw [conditionValue, usedValue, findFieldValue_substituted]

/-- The names of the fields of a form are those submitted, in lowercase. -/
theorem mem_substituted {field : Bytes × Bytes} (h : field ∈ progress.fields) :
    ∃ v, (Bytes.lowercase field.1, v) ∈
      (takenFrom (formOf boundary totalLen progress info name owned).substituteKeyFilename).fields := by
  have hsorted := formOf_ascending boundary totalLen progress info name owned
  have hname : Bytes.lowercase field.1 ∈
      ((formOf boundary totalLen progress info name owned).fields.map Prod.fst) := by
    refine List.mem_map.mpr ⟨(Bytes.lowercase field.1, field.2), ?_, rfl⟩
    exact (List.mem_insertionSort _).mpr (List.mem_map.mpr ⟨field, h, rfl⟩)
  rw [← map_fst_modifyLast bytes_isOrder hsorted] at hname
  obtain ⟨⟨n, v⟩, hmem, rfl⟩ := List.mem_map.mp hname
  exact ⟨v, hmem⟩

end Values

section Length

theorem foldl_saturatingAdd (lens : List Nat) (start : Nat) (h : start < 2 ^ 64) :
    lens.foldl saturatingAdd start = min (start + lens.sum) (2 ^ 64 - 1) := by
  induction lens generalizing start with
  | nil =>
    simp only [List.foldl_nil, List.sum_nil]
    omega
  | cons n lens ih =>
    rw [List.foldl_cons, ih _ (by unfold saturatingAdd; omega), List.sum_cons, saturatingAdd]
    omega

theorem Aggregates.inMemory {maxSize totalSize : Nat} {s : FileStream ε} {vec vec' : List Bytes}
    {r : Except (AggregateError ε) (List Bytes)} (h : Aggregates maxSize s vec totalSize r)
    (hr : r = .ok vec') (hvec : vec.flatten.length < 2 ^ 64) : vec'.flatten.length < 2 ^ 64 := by
  induction h with
  | done next =>
    cases hr
    exact hvec
  | failed next => cases hr
  | tooLarge next large => cases hr
  | pushed next small inMemory rest ih => exact ih hr inMemory

/-- A queue hands out its chunks. -/
theorem VecByteStream.drains {s s' : VecByteStream} {items : List Bytes}
    (h : Drains (asking VecByteStream.pollNext) s items (.ok ()) s') : items = s.queue := by
  have hsettles {s s' : VecByteStream} {r : Except Empty (Option Bytes)}
      (h : Settles (asking VecByteStream.pollNext) s r s') :
      r = .ok s.queue.head? ∧ s'.queue = s.queue.tail := by
    obtain ⟨queue, remaining⟩ := s
    cases h with
    | ready result =>
      cases queue <;> cases result <;> exact ⟨rfl, rfl⟩
    | pending result rest => cases queue <;> cases result
  generalize hr : (Except.ok () : Except Empty Unit) = r at h
  induction h with
  | done last =>
    have hhead := Except.ok.inj (hsettles last).1
    exact (List.head?_eq_none_iff.mp hhead.symm).symm
  | failed last => cases (hsettles last).1
  | item first rest ih =>
    obtain ⟨hhead, htail⟩ := hsettles first
    rw [ih hr, htail]
    exact List.cons_head?_tail (Except.ok.inj hhead).symm

/-- The size that the policy is checked with is what the stream comes to. -/
theorem PreparesStream.length {maxFileSize fileSize : Nat} {inner : FormData.FinalPartDataStream ε}
    {len : Option Nat} {post : PostStream ε} {items : List Bytes}
    (h : PreparesStream maxFileSize (.fromOwned inner len) (.ok (post, fileSize)))
    (hends : post.Ends items) : items.flatten.length = fileSize := by
  cases h with
  | known hlen small =>
    obtain ⟨s', hdrains⟩ := hends
    have hcounts : FileStream.Counts fileSize (FileStream.fromOwned inner len) := by
      have hlen : len = some fileSize := hlen
      subst hlen
      exact ⟨rfl, rfl, rfl⟩
    exact (FileStream.drains_inner hdrains hcounts).2
  | @aggregated vec hlen aggregated =>
    obtain ⟨s', hdrains⟩ := hends
    have hitems : items = vec := VecByteStream.drains hdrains
    have hmemory := aggregated.inMemory rfl (by simp)
    rw [foldl_saturatingAdd _ _ (by omega), hitems, List.length_flatten, Nat.zero_add]
    rw [List.length_flatten] at hmemory
    omega

end Length

section Metadata

theorem keyOf_eq_some {name key : Bytes} :
    Metadata.keyOf name = some key ↔ name = Metadata.namespaceText ++ key := by
  unfold Metadata.keyOf
  constructor
  · intro h
    split at h
    · next hstart =>
      obtain ⟨rest, rfl⟩ := List.isPrefixOf_iff_prefix.mp hstart
      rw [← Option.some.inj h, List.drop_left]
    · cases h
  · rintro rfl
    rw [if_pos (List.isPrefixOf_iff_prefix.mpr (List.prefix_append _ _)), List.drop_left]

theorem metadataValue_insert (m : Metadata) (key value k : Bytes) :
    metadataValue (m.insert key value) k = if k = key then some value else metadataValue m k := by
  unfold metadataValue Metadata.insert
  rw [List.find?_append]
  by_cases hk : k = key
  · subst hk
    have hnone : ((m.entries.filter fun e => e.1 != k).find? fun e => e.1 == k) = none := by
      rw [List.find?_eq_none]
      intro e he
      simpa using (List.mem_filter.mp he).2
    rw [hnone]
    simp
  · have hsame : ((m.entries.filter fun e => e.1 != key).find? fun e => e.1 == k) =
        m.entries.find? fun e => e.1 == k := by
      rw [List.find?_filter]
      congr 1
      funext e
      by_cases he : e.1 = k
      · simp [he, hk]
      · simp [he]
    have hother : ¬key = k := fun h => hk h.symm
    rw [hsame]
    simp [hk, hother]

theorem metadataValue_foldl (fields : List (Bytes × Bytes)) (m : Metadata) {key : Bytes}
    (hkey : key ≠ []) :
    metadataValue (fields.foldl insertMetadata m) key =
      (valuesOf fields (Metadata.namespaceText ++ key)).getLast?.or (metadataValue m key) := by
  induction fields generalizing m with
  | nil => simp [valuesOf]
  | cons field fields ih =>
    rw [List.foldl_cons, ih, valuesOf_cons]
    by_cases hfield : field.1 = Metadata.namespaceText ++ key
    · have hinsert : insertMetadata m field = m.insert key field.2 := by
        rw [insertMetadata, keyOf_eq_some.mpr hfield]
        simp [hkey]
      rw [if_pos hfield, hinsert, metadataValue_insert, if_pos rfl, List.getLast?_cons]
      cases (valuesOf fields (Metadata.namespaceText ++ key)).getLast? <;> simp
    · have hsame : metadataValue (insertMetadata m field) key = metadataValue m key := by
        unfold insertMetadata
        cases hother : Metadata.keyOf field.1 with
        | none => rfl
        | some other =>
          have hne : key ≠ other := by
            rintro rfl
            exact hfield (keyOf_eq_some.mp hother)
          by_cases hempty : other.isEmpty = true
          · simp [hempty]
          · simp [hempty, metadataValue_insert, hne]
      rw [if_neg hfield, hsame]

end Metadata

section Enforcement

variable {V : Type} {T : FieldTypes V} {boundary : Bytes} {totalLen : Option Nat}
  {progress : Progress} {info : PartInfo} {name : Bytes} {owned : FormData.FinalPartDataStream ε}

theorem parseFieldValue_ok {m : Multipart ε} {name : Bytes} {x : Option V}
    (h : parseFieldValue T m name = .ok x) :
    (m.findFieldValue name).map (T.fromStr name) = x.map some := by
  unfold parseFieldValue at h
  cases hfind : m.findFieldValue name with
  | none =>
    rw [hfind] at h
    cases h
    rfl
  | some val =>
    cases hval : T.fromStr name val with
    | none => simp [hfind, hval] at h
    | some ans =>
      simp only [hfind, hval, Except.ok.injEq] at h
      simp [← h, hval]

theorem parsedFields_ok {m : Multipart ε} {names : List Bytes} {fields : List (Bytes × Option V)}
    (h : (names.mapM fun name => do .ok (name, ← parseFieldValue T m name)) = .ok fields) :
    fields.map Prod.fst = names ∧ ∀ field ∈ fields, parseFieldValue T m field.1 = .ok field.2 := by
  induction names generalizing fields with
  | nil =>
    cases h
    simp
  | cons name names ih =>
    rw [List.mapM_cons] at h
    obtain ⟨field, hfield, h⟩ := Http.bind_eq_ok.mp h
    obtain ⟨rest, hrest, h⟩ := Http.bind_eq_ok.mp h
    obtain ⟨x, hx, hpair⟩ := Http.bind_eq_ok.mp hfield
    cases h
    cases hpair
    obtain ⟨hnames, hall⟩ := ih hrest
    refine ⟨by simp [hnames], ?_⟩
    intro f hf
    rcases List.mem_cons.mp hf with rfl | hf
    · exact hx
    · exact hall f hf

/-- A form whose key is completed has the values that the upload goes by. -/
theorem findFieldValue_used (bucket : Bytes) {field : Bytes} (hfield : field ≠ ascii "bucket") :
    (takenFrom (formOf boundary totalLen progress info name owned).substituteKeyFilename).findFieldValue
        field = usedValue bucket (info.cdFileName.getD name) progress.fields field := by
  rw [← conditionValue_substituted, conditionValue, if_neg hfield]

theorem metadata_used {bucket key : Bytes} (hkey : key ≠ []) :
    metadataValue ((takenFrom
        (formOf boundary totalLen progress info name owned).substituteKeyFilename).fields.foldl
          insertMetadata Metadata.empty) key =
      usedValue bucket (info.cdFileName.getD name) progress.fields (Metadata.namespaceText ++ key) := by
  have hsorted := ascending_modifyLast (k := ascii "key") bytes_isOrder
    (formOf_ascending boundary totalLen progress info name owned)
    (completedKey (info.cdFileName.getD name))
  have hbucket : Metadata.namespaceText ++ key ≠ ascii "bucket" := by
    intro h
    have hhead := congrArg List.head? h
    cases hhead
  rw [← findFieldValue_used bucket hbucket, metadataValue_foldl _ _ hkey]
  have hempty : metadataValue Metadata.empty key = none := rfl
  rw [hempty, Option.or_none]
  exact (lookupLast_eq bytes_isOrder hsorted).symm

theorem keptMetadata_value (metadata : Metadata) (key : Bytes) :
    ((if metadata.entries.isEmpty then none else some metadata).bind fun m => metadataValue m key) =
      metadataValue metadata key := by
  by_cases hempty : metadata.entries = []
  · simp [metadataValue, hempty]
  · simp [hempty]

theorem headerFields_ne_bucket {field : Bytes} (h : field ∈ headerFields) : field ≠ ascii "bucket" := by
  rintro rfl
  revert h
  decide

/-- The input is built from the values that the upload goes by. -/
theorem deserializeHttpMultipart_ok {bucket : Bytes} {post : PostStream ε} {input : PutObjectInput ε V}
    (h : deserializeHttpMultipart T bucket (takenFrom
      (formOf boundary totalLen progress info name owned).substituteKeyFilename) post = .ok input) :
    BuiltFrom T (usedValue bucket (info.cdFileName.getD name) progress.fields) post input := by
  obtain ⟨key, hkey, h⟩ := Http.bind_eq_ok.mp h
  obtain ⟨contentLength, -, h⟩ := Http.bind_eq_ok.mp h
  obtain ⟨fields, hfields, h⟩ := Http.bind_eq_ok.mp h
  obtain ⟨hnames, hall⟩ := parsedFields_ok hfields
  have hbucket : ascii "key" ≠ ascii "bucket" := by decide
  rw [findFieldValue_used bucket hbucket] at hkey
  cases h
  refine ⟨rfl, ?_, rfl, hnames, ?_, ?_⟩
  · cases hused : usedValue bucket (info.cdFileName.getD name) progress.fields (ascii "key") with
    | none => simp [hused] at hkey
    | some used => simpa [hused] using hkey
  · intro field hfield
    have hmem : field.1 ∈ headerFields := hnames ▸ List.mem_map_of_mem hfield
    rw [← findFieldValue_used bucket (headerFields_ne_bucket hmem)]
    exact parseFieldValue_ok (hall field hfield)
  · intro key hkey
    rw [← metadata_used hkey]
    exact keptMetadata_value _ key

/-- When a posted form is let through with a policy, every condition of the policy holds of what the
upload is built from, and every field that is not exempt has a condition. -/
theorem policy_enforced (P : Parsers) (now : Int) (configMax : Nat) (bucket : Bytes)
    (boundary : Bytes) (totalLen : Option Nat) (progress : Progress) (info : PartInfo) (name : Bytes)
    (owned : FormData.FinalPartDataStream ε) {post : PostStream ε} {policy : PostPolicy.PostPolicy}
    {m' : Multipart ε}
    (hresolve : ResolvesPostObject P now configMax bucket
      (formOf boundary totalLen progress info name owned) (.ok (post, some policy)) m') :
    (∀ c ∈ policy.conditions,
      ConditionHolds (usedValue bucket (info.cdFileName.getD name) progress.fields) post c) ∧
    (∀ field ∈ progress.fields, isFieldExemptFromPolicy (Bytes.lowercase field.1) = false →
      ∃ c ∈ policy.conditions, c.isOn (Bytes.lowercase field.1) = true) ∧
    ∀ (V : Type) (T : FieldTypes V) (input : PutObjectInput ε V),
      deserializeHttpMultipart T bucket m' post = .ok input →
      BuiltFrom T (usedValue bucket (info.cdFileName.getD name) progress.fields) post input := by
  generalize hr : (Except.ok (post, some policy) :
    S3Result (PostStream ε × Option PostPolicy.PostPolicy)) = r at hresolve
  cases hresolve with
  | unreadable => cases hr
  | unprepared => cases hr
  | @checked policy' file post' fileSize parsed stream prepared =>
    cases hvalid : validatePolicy bucket policy' (takenFrom
        (formOf boundary totalLen progress info name owned).substituteKeyFilename) fileSize with
    | error e =>
      rw [hvalid] at hr
      cases hr
    | ok u =>
      rw [hvalid] at hr
      cases hr
      cases stream
      obtain ⟨hconditions, hfields⟩ := validateConditionsOnly_eq_ok.mp hvalid
      refine ⟨?_, ?_, fun V T input hinput => deserializeHttpMultipart_ok hinput⟩
      · intro c hc
        have hcondition := hconditions c hc
        cases c with
        | eq field value =>
          rw [ConditionHolds, ← conditionValue_substituted]
          exact validateCondition_eq hcondition
        | startsWith field start =>
          rw [ConditionHolds, ← conditionValue_substituted]
          exact validateCondition_startsWith hcondition
        | contentLengthRange min max =>
          intro items hends
          rw [prepared.length hends]
          exact validateCondition_range hcondition
      · intro field hfield hexempt
        obtain ⟨v, hmem⟩ := mem_substituted hfield
        exact validateField_ok (hfields _ hmem) hexempt

end Enforcement

/-- A policy on the bucket, the key and the size of the file. -/
def sampleUploadPolicy : PostPolicy.PostPolicy where
  expiration := 1893456000 * 10 ^ 9
  conditions := [.eq (ascii "bucket") (ascii "photos"), .startsWith (ascii "key") (ascii "user/"),
    .contentLengthRange 1 10]

/-- The same policy as a text. -/
def sampleUploadText : Bytes :=
  ascii "\x7b\"expiration\":\"2030-01-01T00:00:00Z\",\"conditions\":[" ++
    ascii "\x7b\"bucket\":\"photos\"\x7d,[\"starts-with\",\"$Key\",\"user/\"]," ++
    ascii "[\"content-length-range\",1,10]]\x7d"

def sampleUploadJson : Json :=
  .object [(ascii "expiration", .string (ascii "2030-01-01T00:00:00Z")),
    (ascii "conditions", .array
      [.object [(ascii "bucket", .string (ascii "photos"))],
        .array [.string (ascii "starts-with"), .string (ascii "$Key"), .string (ascii "user/")],
        .array [.string (ascii "content-length-range"), .number (.unsigned 1),
          .number (.unsigned 10)]])]

def sampleUploadParsers : Parsers where
  json text := if text = sampleUploadText then some sampleUploadJson else none
  dateTime text := if text = ascii "2030-01-01T00:00:00Z" then some (1893456000 * 10 ^ 9) else none

/-- The fields of the form: a key that a later one overrides, and the policy. -/
def sampleSubmitted : Progress where
  fields := [(ascii "key", ascii "other/cat.jpg"), (ascii "Policy", Base64.encode sampleUploadText),
    (ascii "KEY", ascii "user/$\x7bfilename\x7d")]
  totalFieldsSize := 200
  partsCount := 3

def samplePart : PartInfo := ⟨some (ascii "file"), some (ascii "cat.jpg"), none⟩

/-- The data of the file, a photo of five bytes. -/
def samplePhoto : FormData.FinalPartDataStream Empty where
  buffer := .new [.ready (some (.ok (ascii "hello\r\n--b--\r\n")))]
  delimiterFinder := FormData.makeDelimiter (ascii "b")
  state := .data
  multipartConsumed := 600
  aborted := false
  terminated := false

theorem sampleUpload_parsed :
    parsePostPolicy sampleUploadParsers 0
      (formOf (ascii "b") (some 614) sampleSubmitted samplePart (ascii "file")
        samplePhoto).substituteKeyFilename = .ok (some sampleUploadPolicy) := by
  decide +kernel

theorem sampleUpload_resolves :
    ResolvesPostObject sampleUploadParsers 0 (5 * 2 ^ 30) (ascii "photos")
      (formOf (ascii "b") (some 614) sampleSubmitted samplePart (ascii "file") samplePhoto)
      (.ok (.file (.fromOwned samplePhoto (some 5)), some sampleUploadPolicy))
      (takenFrom (formOf (ascii "b") (some 614) sampleSubmitted samplePart (ascii "file")
        samplePhoto).substituteKeyFilename) := by
  have hvalid : validatePolicy (ascii "photos") (some sampleUploadPolicy)
      (takenFrom (formOf (ascii "b") (some 614) sampleSubmitted samplePart (ascii "file")
        samplePhoto).substituteKeyFilename) 5 = .ok () := by
    decide +kernel
  have hprepared : PreparesStream (postObjectMaxFileSize (5 * 2 ^ 30) (some sampleUploadPolicy))
      (FileStream.fromOwned samplePhoto (some 5))
      (.ok (.file (.fromOwned samplePhoto (some 5)), 5)) :=
    .known rfl (by decide)
  have h : ResolvesPostObject sampleUploadParsers 0 (5 * 2 ^ 30) (ascii "photos") _ _ _ :=
    .checked sampleUpload_parsed rfl hprepared
  rw [hvalid] at h
  exact h

/-- The photo is put under the completed key, in the bounds of its policy. -/
theorem policy_enforced_photo :
    usedValue (ascii "photos") (ascii "cat.jpg") sampleSubmitted.fields (ascii "key") =
      some (ascii "user/cat.jpg") ∧
    ∀ c ∈ sampleUploadPolicy.conditions,
      ConditionHolds (usedValue (ascii "photos") (ascii "cat.jpg") sampleSubmitted.fields)
        (.file (.fromOwned samplePhoto (some 5))) c :=
  ⟨by decide +kernel, (policy_enforced sampleUploadParsers 0 (5 * 2 ^ 30) (ascii "photos") (ascii "b")
    (some 614) sampleSubmitted samplePart (ascii "file") samplePhoto sampleUpload_resolves).1⟩

end S3s.Ops
