import S3s.Http.OrderedQs
import S3s.Http.Request
import S3s.Routing.Operation
import S3s.Routing.Path

/-! # Routing

The router turns the features of a request into the bits of a number: the names in
its query, values that occur once, and headers. Bits of rules whose conditions are
not all met are masked out, and the lowest bit that is left selects the operation. An
operation that the client declares by name is looked up instead.
-/
namespace S3s.Routing
open Http

/-- `contains_key` -/
def containsKey (hs : HeaderMap) (name : Bytes) : Bool := !(hs.getAll name).isEmpty

/-- `unknown_operation` -/
def unknownOperation : S3Error := .saying .notImplemented (ascii "Unknown operation")

/-- `trailing_zeros` of a word of up to 64 bits. -/
def trailingZeros (v : Nat) : Nat := (List.range 64).findIdx fun i => v.testBit i

theorem trailingZeros_lt {v n : Nat} (hne : v ≠ 0) (hlt : v < 2 ^ n) : trailingZeros v < n := by
  obtain ⟨i, hi⟩ := Nat.exists_testBit_of_ne_zero hne
  have hin : i < n := by
    by_contra h
    rw [Nat.testBit_lt_two_pow (hlt.trans_le (Nat.pow_le_pow_right (by decide) (not_lt.mp h)))] at hi
    cases hi
  refine lt_of_le_of_lt ?_ hin
  by_contra h
  have hnot := List.not_of_lt_findIdx (not_le.mp h)
  simp [hi] at hnot

/-- A mask with a condition: the bits in `xor` change when all bits of `all` are set. A single bit is
set when the word has it. -/
structure Layer where
  all : Nat
  xor : Nat
  base : Nat
deriving DecidableEq

/-- The tables of a route group: which bits a name in the query, a header or a value of the query
sets, the masks, and an operation for each bit that can be left. -/
structure Group where
  keys : List (Bytes × Nat)
  headers : List (Bytes × Nat)
  patterns : List (Bytes × Bytes × Nat)
  layers : List Layer
  ops : List Operation
  fallback : Option Operation
  distinct : (keys.map Prod.fst).Nodup
  bounded : ∃ layer ∈ layers, layer.xor < 2 ^ ops.length ∧ layer.base < 2 ^ ops.length

namespace Group

variable (g : Group) (hs : HeaderMap) (q : OrderedQs)

/-- `v_key` -/
def vKey : Nat := q.qs.foldl (fun v pair => v ||| (g.keys.lookup pair.1).getD 0) 0

/-- `v_hdr` -/
def vHdr : Nat := g.headers.foldl (fun v h => if containsKey hs h.1 then v ||| h.2 else v) 0

/-- `v_pat` -/
def vPat : Nat :=
  g.patterns.foldl (fun v p => if q.getUnique p.1 = some p.2.1 then v ||| p.2.2 else v) 0

/-- `act`: the bits that are left. -/
def active (v0 : Nat) : Nat :=
  g.layers.foldl
    (fun act layer =>
      act &&& ((if v0 &&& layer.all = layer.all then layer.xor else 0) ^^^ layer.base)) v0

theorem foldl_layers_lt {layers : List Layer} {v0 act n : Nat} (h : act < 2 ^ n) :
    layers.foldl (fun act layer =>
      act &&& ((if v0 &&& layer.all = layer.all then layer.xor else 0) ^^^ layer.base)) act <
        2 ^ n := by
  induction layers generalizing act with
  | nil => exact h
  | cons layer layers ih => exact ih (Nat.and_le_left.trans_lt h)

/-- No bit is left that has no operation. -/
theorem active_lt (v0 : Nat) : g.active v0 < 2 ^ g.ops.length := by
  obtain ⟨layer, hlayer, hxor, hbase⟩ := g.bounded
  obtain ⟨before, after, hlayers⟩ := List.append_of_mem hlayer
  rw [active, hlayers, List.foldl_append, List.foldl_cons]
  apply foldl_layers_lt
  apply Nat.and_lt_two_pow
  apply Nat.xor_lt_two_pow _ hbase
  split
  · exact hxor
  · exact Nat.two_pow_pos _

/-- The operation of the lowest bit that is left. -/
def select (v0 : Nat) : S3Result Operation :=
  if h : g.active v0 ≠ 0 then
    .ok (g.ops.get ⟨trailingZeros (g.active v0), trailingZeros_lt h (g.active_lt v0)⟩)
  else
    match g.fallback with
    | some op => .ok op
    | none => .error unknownOperation

/-- Where no operation stands for two bits, the operation determines the lowest bit. -/
theorem select_eq_iff {g : Group} {v w : Nat} (hops : (g.fallback.toList ++ g.ops).Nodup)
    (hlength : g.ops.length ≤ 64) :
    g.select v = g.select w ↔ trailingZeros (g.active v) = trailingZeros (g.active w) := by
  have hzero : trailingZeros 0 = 64 := by decide
  have hfallback : ∀ v w, g.active v = 0 → g.active w ≠ 0 →
      g.select v ≠ g.select w ∧ trailingZeros (g.active v) ≠ trailingZeros (g.active w) := by
    intro v w hv hw
    have hlt := trailingZeros_lt hw (g.active_lt w)
    refine ⟨?_, by rw [hv, hzero]; omega⟩
    rw [select, dif_neg (by simpa using hv), select, dif_pos hw]
    cases hf : g.fallback with
    | none => exact nofun
    | some op =>
      intro h
      have hmem := List.get_mem g.ops ⟨_, hlt⟩
      rw [← Except.ok.inj h] at hmem
      rw [hf] at hops
      exact (List.nodup_cons.mp hops).1 hmem
  by_cases hv : g.active v = 0
  · by_cases hw : g.active w = 0
    · rw [select, select, dif_neg (by simpa using hv), dif_neg (by simpa using hw), hv, hw]
      exact iff_of_true rfl rfl
    · exact iff_of_false (hfallback v w hv hw).1 (hfallback v w hv hw).2
  · by_cases hw : g.active w = 0
    · exact iff_of_false (hfallback w v hw hv).1.symm (hfallback w v hw hv).2.symm
    · rw [select, select, dif_pos hv, dif_pos hw]
      constructor
      · intro h
        exact Fin.mk.inj ((List.nodup_append.mp hops).2.1.get_inj_iff.mp (Except.ok.inj h))
      · intro h
        simp only [h]

/-- A route group: its features, then the operation they select. -/
def resolve : S3Result Operation := g.select (g.vKey q ||| g.vHdr hs ||| g.vPat q)

theorem testBit_foldl_or {α : Type} (f : α → Nat) (l : List α) (v i : Nat) :
    (l.foldl (fun v a => v ||| f a) v).testBit i = (v.testBit i || l.any fun a => (f a).testBit i) := by
  induction l generalizing v with
  | nil => simp
  | cons a l ih => rw [List.foldl_cons, ih, Nat.testBit_or, List.any_cons, Bool.or_assoc]

/-- The bits of the names in the query, name by name in place of pair by pair. -/
theorem vKey_eq : g.vKey q = g.keys.foldl (fun v k => v ||| if q.has k.1 then k.2 else 0) 0 := by
  apply Nat.eq_of_testBit_eq
  intro i
  rw [vKey, testBit_foldl_or, testBit_foldl_or, Nat.zero_testBit, Bool.false_or, Bool.false_or,
    Bool.eq_iff_iff, List.any_eq_true, List.any_eq_true]
  constructor
  · rintro ⟨pair, hpair, hbit⟩
    cases hlookup : g.keys.lookup pair.1 with
    | none => simp [hlookup] at hbit
    | some mask =>
      obtain ⟨before, after, hkeys, -⟩ := List.lookup_eq_some_iff.mp hlookup
      refine ⟨(pair.1, mask), by simp [hkeys], ?_⟩
      have hhas : q.has pair.1 = true := (q.has_iff _).mpr ⟨pair, hpair, rfl⟩
      simpa [hhas, hlookup] using hbit
  · rintro ⟨⟨name, mask⟩, hmem, hbit⟩
    cases hhas : q.has name with
    | false => simp [hhas] at hbit
    | true =>
      obtain ⟨pair, hpair, hname⟩ := (q.has_iff _).mp hhas
      refine ⟨pair, hpair, ?_⟩
      have hlookup : g.keys.lookup pair.1 = some mask := by
        rw [hname, List.lookup_eq_some_iff]
        obtain ⟨before, after, hkeys⟩ := List.append_of_mem hmem
        refine ⟨before, after, hkeys, fun e he => ?_⟩
        have hdistinct := g.distinct
        rw [hkeys, List.map_append, List.map_cons, List.nodup_append] at hdistinct
        have hne := hdistinct.2.2 e.1 (List.mem_map_of_mem he) name List.mem_cons_self
        simpa using hne.symm
      simpa [hhas, hlookup] using hbit

/-- A group looks at the names of its table, at the values of its patterns and at its headers. -/
theorem resolve_congr {hs hs' : HeaderMap} {q q' : OrderedQs}
    (hkeys : ∀ k ∈ g.keys, q.has k.1 = q'.has k.1)
    (hheaders : ∀ h ∈ g.headers, containsKey hs h.1 = containsKey hs' h.1)
    (hpatterns : ∀ p ∈ g.patterns, q.getUnique p.1 = q'.getUnique p.1) :
    g.resolve hs q = g.resolve hs' q' := by
  have hkey : g.vKey q = g.vKey q' := by
    rw [vKey_eq, vKey_eq]
    apply List.foldl_ext
    intro v k hk
    rw [hkeys k hk]
  have hhdr : g.vHdr hs = g.vHdr hs' := by
    apply List.foldl_ext
    intro v h hh
    rw [hheaders h hh]
  have hpat : g.vPat q = g.vPat q' := by
    apply List.foldl_ext
    intro v p hp
    rw [hpatterns p hp]
  rw [resolve, resolve, hkey, hhdr, hpat]

end Group

section Groups

/-- The tables of `resolve_get_bucket`. -/
def getBucketGroup : Group where
  keys := [(ascii "abac", 1 <<< 5), (ascii "accelerate", 1 <<< 6), (ascii "acl", 1 <<< 7),
    (ascii "analytics", 1 ||| 1 <<< 26), (ascii "cors", 1 <<< 8), (ascii "encryption", 1 <<< 9),
    (ascii "id", 1 <<< 33), (ascii "intelligent-tiering", 1 <<< 1 ||| 1 <<< 27),
    (ascii "inventory", 1 <<< 2 ||| 1 <<< 28), (ascii "lifecycle", 1 <<< 10),
    (ascii "location", 1 <<< 11), (ascii "logging", 1 <<< 12),
    (ascii "metadataConfiguration", 1 <<< 13), (ascii "metadataTable", 1 <<< 14),
    (ascii "metrics", 1 <<< 3 ||| 1 <<< 29), (ascii "notification", 1 <<< 15),
    (ascii "object-lock", 1 <<< 24), (ascii "ownershipControls", 1 <<< 16),
    (ascii "policy", 1 <<< 17), (ascii "policyStatus", 1 <<< 18),
    (ascii "publicAccessBlock", 1 <<< 25), (ascii "replication", 1 <<< 19),
    (ascii "requestPayment", 1 <<< 20), (ascii "session", 1 <<< 4), (ascii "tagging", 1 <<< 21),
    (ascii "uploads", 1 <<< 30), (ascii "versioning", 1 <<< 22), (ascii "versions", 1 <<< 31),
    (ascii "website", 1 <<< 23)]
  headers := []
  patterns := [(ascii "list-type", ascii "2", 1 <<< 32)]
  layers := [⟨1 <<< 33, 0x3C00000F, 0x1FFFFFFF0⟩]
  ops := [.getBucketAnalyticsConfiguration, .getBucketIntelligentTieringConfiguration,
    .getBucketInventoryConfiguration, .getBucketMetricsConfiguration, .createSession,
    .getBucketAbac, .getBucketAccelerateConfiguration, .getBucketAcl, .getBucketCors,
    .getBucketEncryption, .getBucketLifecycleConfiguration, .getBucketLocation, .getBucketLogging,
    .getBucketMetadataConfiguration, .getBucketMetadataTableConfiguration,
    .getBucketNotificationConfiguration, .getBucketOwnershipControls, .getBucketPolicy,
    .getBucketPolicyStatus, .getBucketReplication, .getBucketRequestPayment, .getBucketTagging,
    .getBucketVersioning, .getBucketWebsite, .getObjectLockConfiguration, .getPublicAccessBlock,
    .listBucketAnalyticsConfigurations, .listBucketIntelligentTieringConfigurations,
    .listBucketInventoryConfigurations, .listBucketMetricsConfigurations, .listMultipartUploads,
    .listObjectVersions, .listObjectsV2]
  fallback := some .listObjects
  distinct := by decide
  bounded := by decide

/-- The tables of `resolve_get_object`. -/
def getObjectGroup : Group where
  keys := [(ascii "acl", 1 <<< 2), (ascii "annotation", 1 ||| 1 <<< 7), (ascii "annotationName", 1 <<< 9),
    (ascii "attributes", 1 <<< 1), (ascii "legal-hold", 1 <<< 3), (ascii "retention", 1 <<< 4),
    (ascii "tagging", 1 <<< 5), (ascii "torrent", 1 <<< 6), (ascii "uploadId", 1 <<< 8)]
  headers := []
  patterns := []
  layers := [⟨1 <<< 9, 0x81, 0x1FE⟩]
  ops := [.getObjectAnnotationOp, .getObjectAttributes, .getObjectAcl, .getObjectLegalHold,
    .getObjectRetention, .getObjectTagging, .getObjectTorrent, .listObjectAnnotations, .listParts]
  fallback := some .getObject
  distinct := by decide
  bounded := by decide

/-- The tables of `resolve_post_bucket`. -/
def postBucketGroup : Group where
  keys := [(ascii "delete", 1 <<< 2), (ascii "metadataConfiguration", 1), (ascii "metadataTable", 1 <<< 1)]
  headers := [(ascii "x-amz-request-route", 1 <<< 3 ||| 1 <<< 4),
    (ascii "x-amz-request-token", 1 <<< 3 ||| 1 <<< 5)]
  patterns := []
  layers := [⟨1 <<< 4 ||| 1 <<< 5, 0x8, 0x7⟩]
  ops := [.createBucketMetadataConfiguration, .createBucketMetadataTableConfiguration, .deleteObjects,
    .writeGetObjectResponse]
  fallback := none
  distinct := by decide
  bounded := by decide

/-- The tables of `resolve_post_object`. -/
def postObjectGroup : Group where
  keys := [(ascii "restore", 1 <<< 2), (ascii "select", 1 ||| 1 <<< 4), (ascii "uploadId", 1 <<< 3),
    (ascii "uploads", 1 <<< 1)]
  headers := []
  patterns := [(ascii "select-type", ascii "2", 1 ||| 1 <<< 5)]
  layers := [⟨1 <<< 4 ||| 1 <<< 5, 0x1, 0xE⟩]
  ops := [.selectObjectContent, .createMultipartUpload, .restoreObject, .completeMultipartUpload]
  fallback := none
  distinct := by decide
  bounded := by decide

/-- The tables of `resolve_put_bucket`. -/
def putBucketGroup : Group where
  keys := [(ascii "abac", 1 <<< 4), (ascii "accelerate", 1 <<< 5), (ascii "acl", 1 <<< 6),
    (ascii "analytics", 1), (ascii "cors", 1 <<< 7), (ascii "encryption", 1 <<< 8),
    (ascii "intelligent-tiering", 1 <<< 1), (ascii "inventory", 1 <<< 2),
    (ascii "lifecycle", 1 <<< 9), (ascii "logging", 1 <<< 10),
    (ascii "metadataAnnotationTable", 1 <<< 21), (ascii "metadataInventoryTable", 1 <<< 22),
    (ascii "metadataJournalTable", 1 <<< 23), (ascii "metrics", 1 <<< 3),
    (ascii "notification", 1 <<< 11), (ascii "object-lock", 1 <<< 19),
    (ascii "ownershipControls", 1 <<< 12), (ascii "policy", 1 <<< 13),
    (ascii "publicAccessBlock", 1 <<< 20), (ascii "replication", 1 <<< 14),
    (ascii "requestPayment", 1 <<< 15), (ascii "tagging", 1 <<< 16), (ascii "versioning", 1 <<< 17),
    (ascii "website", 1 <<< 18)]
  headers := []
  patterns := []
  layers := [⟨0, 0, 2 ^ 24 - 1⟩]
  ops := [.putBucketAnalyticsConfiguration, .putBucketIntelligentTieringConfiguration,
    .putBucketInventoryConfiguration, .putBucketMetricsConfiguration, .putBucketAbac,
    .putBucketAccelerateConfiguration, .putBucketAcl, .putBucketCors, .putBucketEncryption,
    .putBucketLifecycleConfiguration, .putBucketLogging, .putBucketNotificationConfiguration,
    .putBucketOwnershipControls, .putBucketPolicy, .putBucketReplication, .putBucketRequestPayment,
    .putBucketTagging, .putBucketVersioning, .putBucketWebsite, .putObjectLockConfiguration,
    .putPublicAccessBlock, .updateBucketMetadataAnnotationTableConfiguration,
    .updateBucketMetadataInventoryTableConfiguration, .updateBucketMetadataJournalTableConfiguration]
  fallback := some .createBucket
  distinct := by decide
  bounded := by decide

/-- The tables of `resolve_put_object`. -/
def putObjectGroup : Group where
  keys := [(ascii "acl", 1 <<< 2), (ascii "annotation", 1), (ascii "encryption", 1 <<< 6),
    (ascii "legal-hold", 1 <<< 3), (ascii "partNumber", 1 <<< 7 ||| 1 <<< 8 ||| 1 <<< 10),
    (ascii "renameObject", 1 <<< 1), (ascii "retention", 1 <<< 4), (ascii "tagging", 1 <<< 5),
    (ascii "uploadId", 1 <<< 7 ||| 1 <<< 8 ||| 1 <<< 11)]
  headers := [(ascii "x-amz-copy-source", 1 <<< 7 ||| 1 <<< 9 ||| 1 <<< 12)]
  patterns := []
  layers := [⟨1 <<< 10 ||| 1 <<< 11, 0x180, 0x27F⟩, ⟨1 <<< 12, 0x80, 0x37F⟩]
  ops := [.putObjectAnnotationOp, .renameObject, .putObjectAcl, .putObjectLegalHold, .putObjectRetention,
    .putObjectTagging, .updateObjectEncryption, .uploadPartCopy, .uploadPart, .copyObject]
  fallback := some .putObject
  distinct := by decide
  bounded := by decide

/-- The tables of `resolve_delete_bucket`. -/
def deleteBucketGroup : Group where
  keys := [(ascii "analytics", 1), (ascii "cors", 1 <<< 4), (ascii "encryption", 1 <<< 5),
    (ascii "intelligent-tiering", 1 <<< 1), (ascii "inventory", 1 <<< 2),
    (ascii "lifecycle", 1 <<< 6), (ascii "metadataConfiguration", 1 <<< 7),
    (ascii "metadataTable", 1 <<< 8), (ascii "metrics", 1 <<< 3),
    (ascii "ownershipControls", 1 <<< 9), (ascii "policy", 1 <<< 10),
    (ascii "publicAccessBlock", 1 <<< 14), (ascii "replication", 1 <<< 11),
    (ascii "tagging", 1 <<< 12), (ascii "website", 1 <<< 13)]
  headers := []
  patterns := []
  layers := [⟨0, 0, 2 ^ 15 - 1⟩]
  ops := [.deleteBucketAnalyticsConfiguration, .deleteBucketIntelligentTieringConfiguration,
    .deleteBucketInventoryConfiguration, .deleteBucketMetricsConfiguration, .deleteBucketCors,
    .deleteBucketEncryption, .deleteBucketLifecycle, .deleteBucketMetadataConfiguration,
    .deleteBucketMetadataTableConfiguration, .deleteBucketOwnershipControls, .deleteBucketPolicy,
    .deleteBucketReplication, .deleteBucketTagging, .deleteBucketWebsite, .deletePublicAccessBlock]
  fallback := some .deleteBucket
  distinct := by decide
  bounded := by decide

/-- The tables of `resolve_delete_object`. -/
def deleteObjectGroup : Group where
  keys := [(ascii "annotation", 1), (ascii "tagging", 1 <<< 1), (ascii "uploadId", 1 <<< 2)]
  headers := []
  patterns := []
  layers := [⟨0, 0, 2 ^ 3 - 1⟩]
  ops := [.deleteObjectAnnotationOp, .deleteObjectTagging, .abortMultipartUpload]
  fallback := some .deleteObject
  distinct := by decide
  bounded := by decide

/-- The route groups. -/
def groups : List Group :=
  [getBucketGroup, getObjectGroup, postBucketGroup, postObjectGroup, putBucketGroup, putObjectGroup,
    deleteBucketGroup, deleteObjectGroup]

end Groups

section Resolve

variable (minio : Bool) (method : Bytes) (hs : HeaderMap) (path : S3Path) (q : OrderedQs)

/-- `resolve_get_root` -/
def resolveGetRoot : S3Result Operation :=
  if q.getUnique (ascii "x-id") = some (ascii "ListDirectoryBuckets") then .ok .listDirectoryBuckets
  else .ok .listBuckets

/-- `resolve_get_bucket`, built with the feature for MinIO or without. -/
def resolveGetBucket : S3Result Operation :=
  if minio && q.has (ascii "events") then .ok .listenBucketNotification
  else getBucketGroup.resolve hs q

/-- `resolve_route`. A request without a query has none of its features. -/
def resolveRoute (qs : Option OrderedQs) : S3Result Operation :=
  let q := qs.getD .empty
  if method = ascii "HEAD" then
    match path with
    | .root => .error unknownOperation
    | .bucket _ => .ok .headBucket
    | .object _ _ => .ok .headObject
  else if method = ascii "GET" then
    match path with
    | .root => resolveGetRoot q
    | .bucket _ => resolveGetBucket minio hs q
    | .object _ _ => getObjectGroup.resolve hs q
  else if method = ascii "POST" then
    match path with
    | .root => .error unknownOperation
    | .bucket _ => postBucketGroup.resolve hs q
    | .object _ _ => postObjectGroup.resolve hs q
  else if method = ascii "PUT" then
    match path with
    | .root => .error unknownOperation
    | .bucket _ => putBucketGroup.resolve hs q
    | .object _ _ => putObjectGroup.resolve hs q
  else if method = ascii "DELETE" then
    match path with
    | .root => .error unknownOperation
    | .bucket _ => deleteBucketGroup.resolve hs q
    | .object _ _ => deleteObjectGroup.resolve hs q
  else .error unknownOperation

def deleteOperations : S3Path → List Operation
  | .root => []
  | .bucket _ =>
    [.deleteBucket, .deleteBucketAnalyticsConfiguration, .deleteBucketCors, .deleteBucketEncryption,
     .deleteBucketIntelligentTieringConfiguration, .deleteBucketInventoryConfiguration,
     .deleteBucketLifecycle, .deleteBucketMetadataConfiguration,
     .deleteBucketMetadataTableConfiguration, .deleteBucketMetricsConfiguration,
     .deleteBucketOwnershipControls, .deleteBucketPolicy, .deleteBucketReplication,
     .deleteBucketTagging, .deleteBucketWebsite, .deletePublicAccessBlock]
  | .object _ _ =>
    [.abortMultipartUpload, .deleteObject, .deleteObjectAnnotationOp, .deleteObjectTagging]

def getOperations (minio : Bool) : S3Path → List Operation
  | .root => [.listBuckets, .listDirectoryBuckets]
  | .bucket _ =>
    [.createSession, .getBucketAbac, .getBucketAccelerateConfiguration, .getBucketAcl,
     .getBucketAnalyticsConfiguration, .getBucketCors, .getBucketEncryption,
     .getBucketIntelligentTieringConfiguration, .getBucketInventoryConfiguration,
     .getBucketLifecycleConfiguration, .getBucketLocation, .getBucketLogging,
     .getBucketMetadataConfiguration, .getBucketMetadataTableConfiguration,
     .getBucketMetricsConfiguration, .getBucketNotificationConfiguration,
     .getBucketOwnershipControls, .getBucketPolicy, .getBucketPolicyStatus, .getBucketReplication,
     .getBucketRequestPayment, .getBucketTagging, .getBucketVersioning, .getBucketWebsite,
     .getObjectLockConfiguration, .getPublicAccessBlock, .listBucketAnalyticsConfigurations,
     .listBucketIntelligentTieringConfigurations, .listBucketInventoryConfigurations,
     .listBucketMetricsConfigurations, .listMultipartUploads, .listObjectVersions, .listObjects,
     .listObjectsV2] ++ if minio then [.listenBucketNotification] else []
  | .object _ _ =>
    [.getObject, .getObjectAcl, .getObjectAnnotationOp, .getObjectAttributes, .getObjectLegalHold,
     .getObjectRetention, .getObjectTagging, .getObjectTorrent, .listObjectAnnotations, .listParts]

def headOperations : S3Path → List Operation
  | .root => []
  | .bucket _ => [.headBucket]
  | .object _ _ => [.headObject]

def postOperations : S3Path → List Operation
  | .root => []
  | .bucket _ =>
    [.createBucketMetadataConfiguration, .createBucketMetadataTableConfiguration, .deleteObjects,
     .writeGetObjectResponse]
  | .object _ _ =>
    [.completeMultipartUpload, .createMultipartUpload, .restoreObject, .selectObjectContent]

def putOperations : S3Path → List Operation
  | .root => []
  | .bucket _ =>
    [.createBucket, .putBucketAbac, .putBucketAccelerateConfiguration, .putBucketAcl,
     .putBucketAnalyticsConfiguration, .putBucketCors, .putBucketEncryption,
     .putBucketIntelligentTieringConfiguration, .putBucketInventoryConfiguration,
     .putBucketLifecycleConfiguration, .putBucketLogging, .putBucketMetricsConfiguration,
     .putBucketNotificationConfiguration, .putBucketOwnershipControls, .putBucketPolicy,
     .putBucketReplication, .putBucketRequestPayment, .putBucketTagging, .putBucketVersioning,
     .putBucketWebsite, .putObjectLockConfiguration, .putPublicAccessBlock,
     .updateBucketMetadataAnnotationTableConfiguration,
     .updateBucketMetadataInventoryTableConfiguration,
     .updateBucketMetadataJournalTableConfiguration]
  | .object _ _ =>
    [.copyObject, .putObject, .putObjectAcl, .putObjectAnnotationOp, .putObjectLegalHold,
     .putObjectRetention, .putObjectTagging, .renameObject, .updateObjectEncryption, .uploadPart,
     .uploadPartCopy]

/-- `resolve_operation_by_id` -/
def resolveOperationById (name : Bytes) : Option Operation :=
  let operations :=
    if method = ascii "DELETE" then deleteOperations path
    else if method = ascii "GET" then getOperations minio path
    else if method = ascii "HEAD" then headOperations path
    else if method = ascii "POST" then postOperations path
    else if method = ascii "PUT" then putOperations path
    else []
  operations.find? fun op => op.name == name

/-- `resolve_oir` -/
def resolveOir (operationIdRouting : Bool) (qs : Option OrderedQs) : S3Result (Option Operation) :=
  if !operationIdRouting then .ok none
  else
    match (qs.getD .empty).lookup (ascii "x-id") with
    | .duplicate => .error (invalidRequest (ascii "duplicate x-id"))
    | .single signal =>
      match resolveOperationById minio method path signal with
      | some op => .ok (some op)
      | none =>
        .error (.saying .invalidRequest (ascii "operation id " ++ signal ++
          ascii " is unknown or does not match this request"))
    | .absent => .ok none

end Resolve

section Reads

/-- The names whose presence in a query the router asks for. -/
def routedNames : List Bytes := ascii "events" :: groups.flatMap fun g => g.keys.map Prod.fst

/-- The names whose values in a query the router asks for. -/
def routedValues : List Bytes := [ascii "x-id", ascii "list-type", ascii "select-type"]

/-- Two queries the router cannot tell apart. -/
structure SameRoute (q q' : OrderedQs) : Prop where
  has : ∀ name ∈ routedNames, q.has name = q'.has name
  lookup : ∀ name ∈ routedValues, q.lookup name = q'.lookup name

variable {minio : Bool} {method : Bytes} {hs hs' : HeaderMap} {path : S3Path} {q q' : OrderedQs}

theorem Group.resolve_sameRoute {g : Group} (hg : g ∈ groups) (h : SameRoute q q') :
    g.resolve hs q = g.resolve hs q' := by
  apply g.resolve_congr
  · intro k hk
    exact h.has k.1 (List.mem_cons_of_mem _ (List.mem_flatMap.mpr ⟨g, hg, List.mem_map_of_mem hk⟩))
  · intro k _
    rfl
  · intro p hp
    apply SameValues.getUnique_eq_of_lookup
    apply h.lookup
    have hvalues : ∀ g ∈ groups, ∀ p ∈ g.patterns, p.1 ∈ routedValues := by decide
    exact hvalues g hg p hp

theorem resolveRoute_sameRoute {qs qs' : Option OrderedQs}
    (h : SameRoute (qs.getD .empty) (qs'.getD .empty)) :
    resolveRoute minio method hs path qs = resolveRoute minio method hs path qs' := by
  have hgroup : ∀ g ∈ groups, g.resolve hs (qs.getD .empty) = g.resolve hs (qs'.getD .empty) :=
    fun g hg => g.resolve_sameRoute hg h
  simp only [groups, List.forall_mem_cons] at hgroup
  obtain ⟨h₁, h₂, h₃, h₄, h₅, h₆, h₇, h₈, -⟩ := hgroup
  have hevents := h.has (ascii "events") List.mem_cons_self
  have hid := SameValues.getUnique_eq_of_lookup (h.lookup (ascii "x-id") (by decide))
  simp only [resolveRoute, resolveGetRoot, resolveGetBucket, h₁, h₂, h₃, h₄, h₅, h₆, h₇, h₈, hevents,
    hid]

theorem resolveOir_sameRoute {operationIdRouting : Bool} {qs qs' : Option OrderedQs}
    (h : SameRoute (qs.getD .empty) (qs'.getD .empty)) :
    resolveOir minio method path operationIdRouting qs =
      resolveOir minio method path operationIdRouting qs' := by
  rw [resolveOir, resolveOir, h.lookup (ascii "x-id") (by decide)]

/-- The router knows of one failure. -/
def FailsUnknown (x : S3Result Operation) : Prop := ∀ e, x = .error e → e = unknownOperation

theorem Group.resolve_failsUnknown (g : Group) : FailsUnknown (g.resolve hs q) := by
  intro e h
  unfold Group.resolve Group.select at h
  split at h
  · cases h
  · split at h
    · cases h
    · cases h
      rfl

theorem FailsUnknown.ite {c : Prop} [Decidable c] {x y : S3Result Operation} (hx : FailsUnknown x)
    (hy : FailsUnknown y) : FailsUnknown (if c then x else y) := by
  split
  · exact hx
  · exact hy

theorem resolveRoute_failsUnknown {qs : Option OrderedQs} :
    FailsUnknown (resolveRoute minio method hs path qs) := by
  have hok : ∀ op, FailsUnknown (.ok op) := fun op e h => nomatch h
  have herror : FailsUnknown (.error unknownOperation) := fun e h => (Except.error.inj h).symm
  have hgroup := fun g : Group => @Group.resolve_failsUnknown hs (qs.getD .empty) g
  cases path with
  | root =>
    exact .ite herror (.ite (.ite (hok _) (hok _)) (.ite herror (.ite herror (.ite herror herror))))
  | bucket bucket =>
    exact .ite (hok _) (.ite (.ite (hok _) (hgroup _))
      (.ite (hgroup _) (.ite (hgroup _) (.ite (hgroup _) herror))))
  | object bucket key =>
    exact .ite (hok _) (.ite (hgroup _) (.ite (hgroup _) (.ite (hgroup _) (.ite (hgroup _) herror))))

/-- Two results that resolve the same operation are the same. -/
theorem FailsUnknown.eq_of_toOption {x y : S3Result Operation} (hx : FailsUnknown x)
    (hy : FailsUnknown y) (h : x.toOption = y.toOption) : x = y := by
  cases x with
  | ok op =>
    cases y with
    | ok op' =>
      cases h
      rfl
    | error e => cases h
  | error e =>
    cases y with
    | ok op => cases h
    | error e' => rw [hx e rfl, hy e' rfl]

/-- The names that select an operation on an object before a copy source is asked for. -/
def beforeCopySource : List Bytes :=
  [ascii "annotation", ascii "renameObject", ascii "acl", ascii "legal-hold", ascii "retention",
    ascii "tagging", ascii "encryption"]

/-- The names that select an operation on a bucket before a route is asked for. -/
def beforeRequestRoute : List Bytes :=
  [ascii "metadataConfiguration", ascii "metadataTable", ascii "delete"]

/-- The bits of the header change the lowest bit, unless a name comes before. -/
theorem putObjectGroup_copySource :
    trailingZeros (putObjectGroup.active (putObjectGroup.vKey q ||| (1 <<< 7 ||| 1 <<< 9 ||| 1 <<< 12))) =
      trailingZeros (putObjectGroup.active (putObjectGroup.vKey q)) ↔
        beforeCopySource.any q.has = true := by
  simp only [Group.vKey_eq, putObjectGroup, beforeCopySource, List.foldl_cons, List.foldl_nil,
    List.any_cons, List.any_nil]
  generalize q.has (ascii "acl") = acl, q.has (ascii "annotation") = annotated,
    q.has (ascii "encryption") = encryption, q.has (ascii "legal-hold") = legalHold,
    q.has (ascii "partNumber") = partNumber, q.has (ascii "renameObject") = renameObject,
    q.has (ascii "retention") = retention, q.has (ascii "tagging") = tagging,
    q.has (ascii "uploadId") = uploadId
  revert acl annotated encryption legalHold partNumber renameObject retention tagging uploadId
  decide +kernel

theorem putObjectGroup_resolve_iff :
    putObjectGroup.resolve hs q = putObjectGroup.resolve hs' q ↔
      beforeCopySource.any q.has = true ∨
        containsKey hs (ascii "x-amz-copy-source") = containsKey hs' (ascii "x-amz-copy-source") := by
  have hresolve : ∀ hs, putObjectGroup.vKey q ||| putObjectGroup.vHdr hs ||| putObjectGroup.vPat q =
      if containsKey hs (ascii "x-amz-copy-source") then
        putObjectGroup.vKey q ||| (1 <<< 7 ||| 1 <<< 9 ||| 1 <<< 12)
      else putObjectGroup.vKey q := by
    intro hs
    have hpat : putObjectGroup.vPat q = 0 := rfl
    have hhdr : putObjectGroup.vHdr hs = if containsKey hs (ascii "x-amz-copy-source") then
      0 ||| (1 <<< 7 ||| 1 <<< 9 ||| 1 <<< 12) else 0 := rfl
    rw [hpat, hhdr, Nat.or_zero, Nat.zero_or]
    split
    · rfl
    · exact Nat.or_zero _
  rw [Group.resolve, Group.resolve, hresolve, hresolve,
    Group.select_eq_iff (by decide) (by decide), ← putObjectGroup_copySource]
  cases containsKey hs (ascii "x-amz-copy-source") with
  | true =>
    cases containsKey hs' (ascii "x-amz-copy-source") with
    | true => simp
    | false => simp
  | false =>
    cases containsKey hs' (ascii "x-amz-copy-source") with
    | true => simpa using eq_comm
    | false => simp

theorem postBucketGroup_vKey : postBucketGroup.vKey q =
    (if q.has (ascii "delete") then 1 <<< 2 else 0) |||
      (if q.has (ascii "metadataConfiguration") then 1 else 0) |||
      if q.has (ascii "metadataTable") then 1 <<< 1 else 0 := by
  rw [Group.vKey_eq]
  simp only [postBucketGroup, List.foldl_cons, List.foldl_nil, Nat.zero_or]

/-- `v_hdr` of the group, by what is asked of the headers. -/
def requestRouteBits (route token : Bool) : Nat :=
  let v := if route then 0 ||| (1 <<< 3 ||| 1 <<< 4) else 0
  if token then v ||| (1 <<< 3 ||| 1 <<< 5) else v

theorem postBucketGroup_resolve_iff :
    postBucketGroup.resolve hs q = postBucketGroup.resolve hs' q ↔
      beforeRequestRoute.any q.has = true ∨
        (containsKey hs (ascii "x-amz-request-route") &&
            containsKey hs (ascii "x-amz-request-token")) =
          (containsKey hs' (ascii "x-amz-request-route") &&
            containsKey hs' (ascii "x-amz-request-token")) := by
  have hhdr : ∀ hs, postBucketGroup.vHdr hs = requestRouteBits
      (containsKey hs (ascii "x-amz-request-route"))
      (containsKey hs (ascii "x-amz-request-token")) := fun _ => rfl
  have hpat : postBucketGroup.vPat q = 0 := rfl
  rw [Group.resolve, Group.resolve, Group.select_eq_iff (by decide) (by decide),
    postBucketGroup_vKey, hhdr, hhdr, hpat]
  simp only [beforeRequestRoute, List.any_cons, List.any_nil]
  generalize q.has (ascii "delete") = delete, q.has (ascii "metadataConfiguration") = configuration,
    q.has (ascii "metadataTable") = table, containsKey hs (ascii "x-amz-request-route") = route,
    containsKey hs (ascii "x-amz-request-token") = token,
    containsKey hs' (ascii "x-amz-request-route") = route',
    containsKey hs' (ascii "x-amz-request-token") = token'
  revert delete configuration table route token route' token'
  decide +kernel

/-- Two header maps the router cannot tell apart: where it asks for a header, the answer is the same,
or a name in the query has selected the operation before. -/
def SameHeaders (method : Bytes) (q : OrderedQs) (hs hs' : HeaderMap) : S3Path → Prop
  | .root => True
  | .bucket _ => method = ascii "POST" → beforeRequestRoute.any q.has = true ∨
      (containsKey hs (ascii "x-amz-request-route") &&
          containsKey hs (ascii "x-amz-request-token")) =
        (containsKey hs' (ascii "x-amz-request-route") &&
          containsKey hs' (ascii "x-amz-request-token"))
  | .object _ _ => method = ascii "PUT" → beforeCopySource.any q.has = true ∨
      containsKey hs (ascii "x-amz-copy-source") = containsKey hs' (ascii "x-amz-copy-source")

theorem resolveRoute_headers_iff {qs : Option OrderedQs} :
    resolveRoute minio method hs path qs = resolveRoute minio method hs' path qs ↔
      SameHeaders method (qs.getD .empty) hs hs' path := by
  have hrest : ∀ g : Group, g.headers = [] →
      g.resolve hs (qs.getD .empty) = g.resolve hs' (qs.getD .empty) := by
    intro g hheaders
    apply g.resolve_congr
    · exact fun _ _ => rfl
    · simp [hheaders]
    · exact fun _ _ => rfl
  have hne : ascii "PUT" ≠ ascii "HEAD" ∧ ascii "PUT" ≠ ascii "GET" ∧ ascii "PUT" ≠ ascii "POST" ∧
      ascii "POST" ≠ ascii "HEAD" ∧ ascii "POST" ≠ ascii "GET" := by
    decide
  cases path with
  | root => simp [resolveRoute, SameHeaders]
  | bucket bucket =>
    by_cases hpost : method = ascii "POST"
    · simp [resolveRoute, SameHeaders, hpost, hne, postBucketGroup_resolve_iff]
    · simp [resolveRoute, resolveGetBucket, SameHeaders, hpost, hrest getBucketGroup rfl,
        hrest putBucketGroup rfl, hrest deleteBucketGroup rfl]
  | object bucket key =>
    by_cases hput : method = ascii "PUT"
    · simp [resolveRoute, SameHeaders, hput, hne, putObjectGroup_resolve_iff]
    · simp [resolveRoute, SameHeaders, hput, hrest getObjectGroup rfl, hrest postObjectGroup rfl,
        hrest deleteObjectGroup rfl]

end Reads

end S3s.Routing
