import S3s.Http.OrderedQs
import S3s.Ops.Presigned
import S3s.SigV4.Decodability

/-! # The order of the query in a canonical request

The parameters are sorted by their encoded names, and the sort is stable. So the
text depends on the values under each name, and not on how the names are mixed;
in a presigned request it does not depend on the signature either.
-/
namespace S3s.SigV4
open Sorted

/-- One of the names and values a loop of the builders collects. -/
def encodedQueryString (q : Bytes × Bytes) : Bytes × Bytes := (uriEncode q.1 true, uriEncode q.2 true)

/-- What the builders write of the sorted parameters: the first, and each other one behind an `&`. -/
def pushQueryStrings : List (Bytes × Bytes) → Bytes
  | [] => []
  | (name, value) :: remain =>
    name ++ ascii "=" ++ value ++ remain.flatMap fun q => ascii "&" ++ q.1 ++ ascii "=" ++ q.2

/-- The loop of `create_presigned_canonical_request_with_uri_mode` over the parameters. -/
def presignedQueryStrings : List (Bytes × Bytes) → List (Bytes × Bytes)
  | [] => []
  | q :: rest =>
    if isSkippedQueryString q.1 then presignedQueryStrings rest
    else encodedQueryString q :: presignedQueryStrings rest

/-- The query of a presigned canonical request. -/
def presignedCanonicalQueryString (query : List (Bytes × Bytes)) : Bytes :=
  pushQueryStrings (stableSortByFirst (presignedQueryStrings query))

theorem presignedQueryStrings_eq (query : List (Bytes × Bytes)) :
    presignedQueryStrings query =
      (query.filter fun q => !isSkippedQueryString q.1).map encodedQueryString := by
  induction query with
  | nil => rfl
  | cons q query ih =>
    rw [presignedQueryStrings, ih]
    by_cases hskip : isSkippedQueryString q.1 = true <;> simp [hskip]

theorem pushQueryStrings_eq (sorted : List (Bytes × Bytes)) :
    pushQueryStrings sorted = (ascii "&").intercalate (sorted.map fun q => q.1 ++ ascii "=" ++ q.2) := by
  cases sorted with
  | nil => rfl
  | cons q remain =>
    have hand : ascii "&" = [38] := by decide
    rw [pushQueryStrings, hand, List.map_cons, Delimited.intercalate_cons_eq_flatMap, List.flatMap_map]
    simp

/-- What `create_canonical_request_with_uri_mode` writes of its parameters. -/
theorem canonicalQueryString_eq_push (query : List (Bytes × Bytes)) :
    canonicalQueryString query = pushQueryStrings (stableSortByFirst (query.map encodedQueryString)) :=
  (pushQueryStrings_eq _).symm

/-- The two copies of the builder write the same query, but for the signature. -/
theorem presignedCanonicalQueryString_eq (query : List (Bytes × Bytes)) :
    presignedCanonicalQueryString query =
      canonicalQueryString (query.filter fun q => !isSkippedQueryString q.1) := by
  rw [presignedCanonicalQueryString, presignedQueryStrings_eq, canonicalQueryString_eq_push]

/-- The lines of a presigned canonical request. -/
theorem createPresignedCanonicalRequestWithUriMode_lines (method uriPath : Bytes)
    (query signedHeaders : List (Bytes × Bytes)) (rawUriPath : Bool) :
    createPresignedCanonicalRequestWithUriMode method uriPath query signedHeaders rawUriPath =
      method ++ ascii "\n" ++
        (if rawUriPath then uriPath else uriEncode uriPath false) ++ ascii "\n" ++
        presignedCanonicalQueryString query ++ ascii "\n" ++
        pushCanonicalHeaders signedHeaders ++ ascii "\n" ++
        pushSignedHeaders signedHeaders ++ ascii "\n" ++
        ascii "UNSIGNED-PAYLOAD" := by
  rw [presignedCanonicalQueryString_eq, createPresignedCanonicalRequestWithUriMode]

/-- The order of the parameters shows within the parameters of one name only. -/
theorem canonicalQueryString_reordered {query query' : List (Bytes × Bytes)}
    (h : Reordered query query') : canonicalQueryString query = canonicalQueryString query' := by
  have hencoded : Reordered (query.map encodedQueryString) (query'.map encodedQueryString) :=
    h.map (uriEncode_injective true)
  have hsort : stableSortByFirst (query.map encodedQueryString) =
      stableSortByFirst (query'.map encodedQueryString) :=
    insertionSort_eq_of_valuesOf Http.bytes_isOrder hencoded.values
  rw [canonicalQueryString_eq_push, canonicalQueryString_eq_push, hsort]

/-- The caller sorts the decoded names, which the builders do not see. -/
theorem canonicalQueryString_ofPairs (query : List (Bytes × Bytes)) :
    canonicalQueryString (Http.OrderedQs.ofPairs query).qs = canonicalQueryString query :=
  (canonicalQueryString_reordered (reordered_insertionSort Http.bytes_isOrder query)).symm

/-- The second list is the first with entries for `X-Amz-Signature` put in anywhere. -/
inductive InsertSignatures : List (Bytes × Bytes) → List (Bytes × Bytes) → Prop
  | nil : InsertSignatures [] []
  | keep {query inserted : List (Bytes × Bytes)} (q : Bytes × Bytes) :
    InsertSignatures query inserted → InsertSignatures (q :: query) (q :: inserted)
  | insert {query inserted : List (Bytes × Bytes)} (value : Bytes) :
    InsertSignatures query inserted →
      InsertSignatures query ((ascii "X-Amz-Signature", value) :: inserted)

theorem InsertSignatures.filter_eq {query inserted : List (Bytes × Bytes)}
    (h : InsertSignatures query inserted) :
    inserted.filter (fun q => !isSkippedQueryString q.1) =
      query.filter fun q => !isSkippedQueryString q.1 := by
  induction h with
  | nil => rfl
  | keep q _ ih => simp [List.filter_cons, ih]
  | insert value _ ih =>
    rw [List.filter_cons_of_neg (by simp [isSkippedQueryString]), ih]

/-- Neither builder sees how the names of the query are mixed, and the one for presigned requests
does not see a signature. -/
theorem createCanonicalRequest_queryOrder (query : List (Bytes × Bytes)) :
    (∀ query', Reordered query query' → ∀ method uriPath signedHeaders payload rawUriPath,
      createCanonicalRequestWithUriMode method uriPath query signedHeaders payload rawUriPath =
          createCanonicalRequestWithUriMode method uriPath query' signedHeaders payload rawUriPath ∧
        createPresignedCanonicalRequestWithUriMode method uriPath query signedHeaders rawUriPath =
          createPresignedCanonicalRequestWithUriMode method uriPath query' signedHeaders rawUriPath) ∧
    ∀ inserted, InsertSignatures query inserted →
      (presignedCanonicalQueryString inserted = presignedCanonicalQueryString query ∧
        presignedCanonicalQueryString inserted =
          canonicalQueryString (query.filter fun q => !isSkippedQueryString q.1)) ∧
      ∀ method uriPath signedHeaders rawUriPath,
        createPresignedCanonicalRequestWithUriMode method uriPath inserted signedHeaders rawUriPath =
            createPresignedCanonicalRequestWithUriMode method uriPath query signedHeaders rawUriPath ∧
          createPresignedCanonicalRequestWithUriMode method uriPath inserted signedHeaders rawUriPath =
            createCanonicalRequestWithUriMode method uriPath
              (query.filter fun q => !isSkippedQueryString q.1) signedHeaders .unsigned rawUriPath := by
  constructor
  · intro query' h method uriPath signedHeaders payload rawUriPath
    have hall := canonicalQueryString_reordered h
    have hunsigned := canonicalQueryString_reordered (h.filter fun name => !isSkippedQueryString name)
    constructor
    · rw [createCanonicalRequestWithUriMode, createCanonicalRequestWithUriMode, hall]
    · rw [createPresignedCanonicalRequestWithUriMode_lines,
        createPresignedCanonicalRequestWithUriMode_lines, presignedCanonicalQueryString_eq,
        presignedCanonicalQueryString_eq, hunsigned]
  · intro inserted h
    have hfilter := h.filter_eq
    refine ⟨⟨?_, ?_⟩, ?_⟩
    · rw [presignedCanonicalQueryString_eq, presignedCanonicalQueryString_eq, hfilter]
    · rw [presignedCanonicalQueryString_eq, hfilter]
    · intro method uriPath signedHeaders rawUriPath
      rw [createPresignedCanonicalRequestWithUriMode_eq, createPresignedCanonicalRequestWithUriMode_eq,
        hfilter]
      exact ⟨rfl, rfl⟩

/-- Two values under one name keep their order while the other name moves, and a signature between
them does not show. -/
theorem createCanonicalRequest_queryOrder_events :
    (createCanonicalRequest (ascii "GET") (ascii "/b")
          [(ascii "s", ascii "1"), (ascii "e", ascii "2"), (ascii "e", ascii "3")] [] .unsigned =
        createCanonicalRequest (ascii "GET") (ascii "/b")
          [(ascii "e", ascii "2"), (ascii "s", ascii "1"), (ascii "e", ascii "3")] [] .unsigned) ∧
      presignedCanonicalQueryString
          [(ascii "s", ascii "1"), (ascii "X-Amz-Signature", ascii "0"), (ascii "e", ascii "2")] =
        presignedCanonicalQueryString [(ascii "s", ascii "1"), (ascii "e", ascii "2")] := by
  have hreordered : Reordered
      [(ascii "s", ascii "1"), (ascii "e", ascii "2"), (ascii "e", ascii "3")]
      [(ascii "e", ascii "2"), (ascii "s", ascii "1"), (ascii "e", ascii "3")] := by
    refine ⟨List.Perm.swap _ _ _, ?_⟩
    intro k
    have hne : ascii "s" ≠ ascii "e" := by decide
    by_cases hk : ascii "s" = k
    · subst hk
      simp [valuesOf_cons, hne.symm]
    · simp [valuesOf_cons, hk]
  have hinserted : InsertSignatures [(ascii "s", ascii "1"), (ascii "e", ascii "2")]
      [(ascii "s", ascii "1"), (ascii "X-Amz-Signature", ascii "0"), (ascii "e", ascii "2")] :=
    .keep _ (.insert _ (.keep _ .nil))
  exact ⟨((createCanonicalRequest_queryOrder _).1 _ hreordered (ascii "GET") (ascii "/b") []
      .unsigned false).1,
    ((createCanonicalRequest_queryOrder _).2 _ hinserted).1.1⟩

end S3s.SigV4
