import S3s.AwsChunked.TrailerBlock
import S3s.Library.Delimited
import S3s.SigV4.CanonicalRequest

/-! # Canonical requests can be taken apart

Every piece of a canonical request is read back from the text: percent-encoding is
injective, the sorted query and the lines of the headers are delimited by bytes
that do not occur in them, and a payload hash of sixty-four digits is none of the
fixed texts that stand for a payload.
-/
namespace S3s.SigV4
open AwsChunked Delimited

section UriEncode

/-- What `uri_encode` writes for one byte. -/
def uriEncodeByte (encodeSlash : Bool) (b : UInt8) : Bytes :=
  if isUnreserved b then [b]
  else if b == 47 then (if encodeSlash then ascii "%2F" else [b])
  else [37, upperHexDigit (b / 16), upperHexDigit (b % 16)]

theorem uriEncode_eq_flatMap (input : Bytes) (encodeSlash : Bool) :
    uriEncode input encodeSlash = input.flatMap (uriEncodeByte encodeSlash) := rfl

theorem uriEncodeByte_cases (encodeSlash : Bool) (b : UInt8) :
    (uriEncodeByte encodeSlash b = [b] ∧ b ≠ 37) ∨
      uriEncodeByte encodeSlash b = [37, upperHexDigit (b / 16), upperHexDigit (b % 16)] := by
  refine forall_byte (p := fun b => (uriEncodeByte encodeSlash b = [b] ∧ b ≠ 37) ∨
    uriEncodeByte encodeSlash b = [37, upperHexDigit (b / 16), upperHexDigit (b % 16)]) ?_ b
  cases encodeSlash <;> decide +kernel

theorem hexVal_upperHexDigit (b : UInt8) :
    Bytes.hexVal (upperHexDigit (b / 16)) = some (b / 16) ∧
      Bytes.hexVal (upperHexDigit (b % 16)) = some (b % 16) := by
  refine forall_byte (p := fun b => Bytes.hexVal (upperHexDigit (b / 16)) = some (b / 16) ∧
    Bytes.hexVal (upperHexDigit (b % 16)) = some (b % 16)) ?_ b
  decide +kernel

theorem upperHexDigits_inj {a b : UInt8} (hhi : upperHexDigit (a / 16) = upperHexDigit (b / 16))
    (hlo : upperHexDigit (a % 16) = upperHexDigit (b % 16)) : a = b := by
  have hdiv : a / 16 = b / 16 := by
    have h := (hexVal_upperHexDigit a).1
    rw [hhi, (hexVal_upperHexDigit b).1] at h
    exact (Option.some.inj h).symm
  have hmod : a % 16 = b % 16 := by
    have h := (hexVal_upperHexDigit a).2
    rw [hlo, (hexVal_upperHexDigit b).2] at h
    exact (Option.some.inj h).symm
  rw [← Bytes.byte_of_nibbles a, ← Bytes.byte_of_nibbles b, hdiv, hmod]

theorem uriEncodeByte_prefixFree (encodeSlash : Bool) : PrefixFree (uriEncodeByte encodeSlash) where
  ne_nil b := by
    rcases uriEncodeByte_cases encodeSlash b with ⟨h, -⟩ | h <;> simp [h]
  unique a b t t' h := by
    rcases uriEncodeByte_cases encodeSlash a with ⟨ha, hane⟩ | ha <;>
      rcases uriEncodeByte_cases encodeSlash b with ⟨hb, hbne⟩ | hb <;> rw [ha, hb] at h
    · exact List.head_eq_of_cons_eq h
    · exact (hane (List.head_eq_of_cons_eq h)).elim
    · exact (hbne (List.head_eq_of_cons_eq h).symm).elim
    · simp only [List.cons_append, List.cons.injEq, true_and] at h
      exact upperHexDigits_inj h.1 h.2.1

theorem uriEncode_injective (encodeSlash : Bool) :
    Function.Injective fun input => uriEncode input encodeSlash :=
  (uriEncodeByte_prefixFree encodeSlash).flatMap_injective

/-- The bytes an encoded text is made of. -/
def isUriByte (encodeSlash : Bool) (b : UInt8) : Bool :=
  isUnreserved b || b == 37 || (b == 47 && !encodeSlash)

theorem uriEncodeByte_isUriByte (encodeSlash : Bool) (b : UInt8) :
    ∀ c ∈ uriEncodeByte encodeSlash b, isUriByte encodeSlash c = true := by
  rw [← List.all_eq_true]
  refine forall_byte (p := fun b => (uriEncodeByte encodeSlash b).all (isUriByte encodeSlash) = true) ?_ b
  cases encodeSlash <;> decide +kernel

theorem uriEncode_isUriByte (input : Bytes) (encodeSlash : Bool) :
    ∀ c ∈ uriEncode input encodeSlash, isUriByte encodeSlash c = true := by
  intro c hc
  rw [uriEncode_eq_flatMap] at hc
  obtain ⟨b, -, hb⟩ := List.mem_flatMap.mp hc
  exact uriEncodeByte_isUriByte encodeSlash b c hb

theorem not_mem_uriEncode {c : UInt8} {encodeSlash : Bool} (hc : isUriByte encodeSlash c = false)
    (input : Bytes) : c ∉ uriEncode input encodeSlash := by
  intro hmem
  have h := uriEncode_isUriByte input encodeSlash c hmem
  rw [hc] at h
  cases h

end UriEncode

section Query

/-- The query in the order in which it is written. -/
def sortByEncodedName (query : List (Bytes × Bytes)) : List (Bytes × Bytes) :=
  query.insertionSort fun a b => Bytes.le (uriEncode a.1 true) (uriEncode b.1 true) = true

/-- One parameter as it is written. -/
def queryItem (q : Bytes × Bytes) : Bytes := uriEncode q.1 true ++ 61 :: uriEncode q.2 true

theorem canonicalQueryString_eq (query : List (Bytes × Bytes)) :
    canonicalQueryString query = [38].intercalate ((sortByEncodedName query).map queryItem) := by
  let encode := fun q : Bytes × Bytes => (uriEncode q.1 true, uriEncode q.2 true)
  have hsort : stableSortByFirst (query.map encode) = (sortByEncodedName query).map encode :=
    (List.map_insertionSort _ _ encode query fun _ _ _ _ => Iff.rfl).symm
  have hitem : ∀ q, queryItem q = (encode q).1 ++ ascii "=" ++ (encode q).2 := by
    intro q
    simp [queryItem, encode, ascii]
  have htext : canonicalQueryString query = (ascii "&").intercalate
      ((stableSortByFirst (query.map encode)).map fun q => q.1 ++ ascii "=" ++ q.2) := rfl
  rw [htext, hsort, List.map_map]
  simp only [Function.comp_def, ← hitem]
  rfl

theorem queryItem_injective : Function.Injective queryItem := by
  intro p q h
  have hp : (61 : UInt8) ∉ uriEncode p.1 true := not_mem_uriEncode (by decide) p.1
  have hq : (61 : UInt8) ∉ uriEncode q.1 true := not_mem_uriEncode (by decide) q.1
  obtain ⟨hname, hvalue⟩ := append_cons_inj hp hq h
  exact Prod.ext (uriEncode_injective true hname) (uriEncode_injective true hvalue)

theorem not_mem_queryItem {c : UInt8} (hc : isUriByte true c = false) (hne : c ≠ 61)
    (q : Bytes × Bytes) : c ∉ queryItem q := by
  simp only [queryItem, List.mem_append, List.mem_cons, not_or]
  exact ⟨not_mem_uriEncode hc q.1, hne, not_mem_uriEncode hc q.2⟩

theorem canonicalQueryString_inj {q₁ q₂ : List (Bytes × Bytes)}
    (h : canonicalQueryString q₁ = canonicalQueryString q₂) :
    sortByEncodedName q₁ = sortByEncodedName q₂ := by
  have hplain : ∀ query : List (Bytes × Bytes), Plain (38 : UInt8) (query.map queryItem) := by
    intro query s hs
    obtain ⟨q, -, rfl⟩ := List.mem_map.mp hs
    exact ⟨by simp [queryItem], not_mem_queryItem (by decide) (by decide) q⟩
  rw [canonicalQueryString_eq, canonicalQueryString_eq] at h
  exact List.map_injective_iff.mpr queryItem_injective (intercalate_inj (hplain _) (hplain _) h)

theorem lf_not_mem_canonicalQueryString (query : List (Bytes × Bytes)) :
    lf ∉ canonicalQueryString query := by
  rw [canonicalQueryString_eq]
  generalize sortByEncodedName query = sorted
  induction sorted with
  | nil => exact List.not_mem_nil
  | cons q sorted ih =>
    have hq : lf ∉ queryItem q := not_mem_queryItem (by decide) (by decide) q
    cases sorted with
    | nil => simpa [List.intercalate_singleton] using hq
    | cons p sorted =>
      rw [List.map_cons, List.map_cons, List.intercalate_cons_cons, List.append_assoc]
      simp only [List.mem_append, not_or]
      exact ⟨hq, by decide, ih⟩

end Query

section Headers

theorem flatten_utf8Chars (s : Bytes) : (utf8Chars s).flatten = s := by
  induction s with
  | nil => rfl
  | cons b s ih =>
    rw [utf8Chars]
    split
    · next c char chars hchars =>
      rw [hchars] at ih
      split <;> simpa using ih
    · simpa using ih

theorem mem_of_mem_trimChars {chars : List Bytes} {char : Bytes} (h : char ∈ trimChars chars) :
    char ∈ chars :=
  (List.dropWhile_sublist _).mem ((List.rdropWhile_prefix _ _).sublist.mem h)

/-- Normalising writes no byte but those of the value, and spaces. -/
theorem mem_normalizeHeaderValue {value : Bytes} {b : UInt8} (h : b ∈ normalizeHeaderValue value) :
    b = 32 ∨ b ∈ value := by
  have hchars : ∀ char ∈ trimChars (utf8Chars value), b ∈ char → b ∈ value := by
    intro char hchar hb
    rw [← flatten_utf8Chars value]
    exact List.mem_flatten.mpr ⟨char, mem_of_mem_trimChars hchar, hb⟩
  unfold normalizeHeaderValue at h
  dsimp only at h
  split at h
  · obtain ⟨char, hchar, hb⟩ := List.mem_flatten.mp h
    exact Or.inr (hchars char hchar hb)
  · rcases mem_intercalate h with h | ⟨text, htext, hb⟩
    · exact Or.inl h
    · obtain ⟨word, hword, rfl⟩ := List.mem_map.mp htext
      obtain ⟨char, hchar, hb⟩ := List.mem_flatten.mp hb
      exact Or.inr (hchars char (mem_of_mem_splitOnP (List.mem_filter.mp hword).1 hchar) hb)

/-- The lines of the signed headers, in the order in which they are written: a name, and the
normalised values of the headers that share it, joined by commas. -/
def headerLines : List (Bytes × Bytes) → List (Bytes × Bytes)
  | [] => []
  | (name, value) :: rest =>
    if isSkippedHeader name then headerLines rest
    else
      (name, [44].intercalate
        ((value :: (rest.takeWhile fun h => h.1 == name).map Prod.snd).map normalizeHeaderValue)) ::
        headerLines (rest.dropWhile fun h => h.1 == name)
termination_by headers => headers.length
decreasing_by
  · simp
  · exact Nat.lt_succ_of_le (List.dropWhile_suffix _).length_le

/-- One line without its end. -/
def headerLine (line : Bytes × Bytes) : Bytes := line.1 ++ 58 :: line.2

theorem pushCanonicalHeaders_eq (headers : List (Bytes × Bytes)) :
    pushCanonicalHeaders headers = block lf ((headerLines headers).map headerLine) := by
  fun_induction headerLines headers with
  | case1 => simp [pushCanonicalHeaders]
  | case2 name value rest hskip ih => simp [pushCanonicalHeaders, hskip, ih]
  | case3 name value rest hskip ih =>
    rw [pushCanonicalHeaders, if_neg hskip, ih, List.map_cons, block_cons, List.map_cons,
      intercalate_cons_eq_flatMap]
    simp [headerLine, ascii, lf, List.flatMap_map]

theorem signedHeaderNames_eq (headers : List (Bytes × Bytes)) :
    signedHeaderNames headers = (headerLines headers).map Prod.fst := by
  fun_induction headerLines headers with
  | case1 => simp [signedHeaderNames]
  | case2 name value rest hskip ih => simp [signedHeaderNames, hskip, ih]
  | case3 name value rest hskip ih => simp [signedHeaderNames, hskip, ih]

/-- Headers whose names are tokens and whose values are single lines. -/
def ValidHeaders (headers : List (Bytes × Bytes)) : Prop :=
  ∀ h ∈ headers, h.1 ≠ [] ∧ h.1.all isTokenChar = true ∧ lf ∉ h.2

theorem ValidHeaders.of_sublist {headers rest : List (Bytes × Bytes)} (h : ValidHeaders headers)
    (hsub : rest.Sublist headers) : ValidHeaders rest :=
  fun e he => h e (hsub.mem he)

theorem ValidHeaders.lf_not_mem_join {headers : List (Bytes × Bytes)} (h : ValidHeaders headers) :
    lf ∉ [44].intercalate ((headers.map Prod.snd).map normalizeHeaderValue) := by
  intro hlf
  rcases mem_intercalate hlf with hlf | ⟨text, htext, hlf⟩
  · cases hlf
  · obtain ⟨value, hvalue, rfl⟩ := List.mem_map.mp htext
    obtain ⟨e, he, rfl⟩ := List.mem_map.mp hvalue
    rcases mem_normalizeHeaderValue hlf with hlf | hlf
    · cases hlf
    · exact (h e he).2.2 hlf

theorem headerLines_valid {headers : List (Bytes × Bytes)} (h : ValidHeaders headers) :
    ∀ line ∈ headerLines headers, (58 : UInt8) ∉ line.1 ∧ lf ∉ line.1 ∧ lf ∉ line.2 := by
  fun_induction headerLines headers with
  | case1 => intro line hline; cases hline
  | case2 name value rest hskip ih => exact ih (h.of_sublist (List.sublist_cons_self _ _))
  | case3 name value rest hskip ih =>
    intro line hline
    rcases List.mem_cons.mp hline with rfl | hline
    · have htoken : ∀ c ∈ name, c ≠ 58 ∧ c ≠ lf := by
        intro c hc
        have hspec := isTokenChar_spec c (List.all_eq_true.mp (h _ List.mem_cons_self).2.1 c hc)
        exact ⟨hspec.1, hspec.2.1⟩
      have hgroup : ValidHeaders ((name, value) :: rest.takeWhile fun h => h.1 == name) :=
        h.of_sublist ((List.takeWhile_prefix _).sublist.cons_cons _)
      exact ⟨fun hc => (htoken _ hc).1 rfl, fun hc => (htoken _ hc).2 rfl, hgroup.lf_not_mem_join⟩
    · have hrest : ValidHeaders (rest.dropWhile fun h => h.1 == name) :=
        h.of_sublist ((List.dropWhile_suffix _).sublist.cons _)
      exact ih hrest line hline

theorem headerLine_inj {p q : Bytes × Bytes} (hp : (58 : UInt8) ∉ p.1) (hq : (58 : UInt8) ∉ q.1)
    (h : headerLine p = headerLine q) : p = q := by
  obtain ⟨hname, hvalue⟩ := append_cons_inj hp hq h
  exact Prod.ext hname hvalue

theorem headerLines_plain {headers : List (Bytes × Bytes)} (h : ValidHeaders headers) :
    Plain lf ((headerLines headers).map headerLine) := by
  intro s hs
  obtain ⟨line, hline, rfl⟩ := List.mem_map.mp hs
  obtain ⟨-, hname, hvalue⟩ := headerLines_valid h line hline
  refine ⟨by simp [headerLine], ?_⟩
  simp only [headerLine, List.mem_append, List.mem_cons, not_or]
  exact ⟨hname, by decide, hvalue⟩

/-- The lines of the headers end at the empty line behind them. -/
theorem pushCanonicalHeaders_inj {h₁ h₂ : List (Bytes × Bytes)} {t₁ t₂ : Bytes}
    (hv₁ : ValidHeaders h₁) (hv₂ : ValidHeaders h₂)
    (h : pushCanonicalHeaders h₁ ++ lf :: t₁ = pushCanonicalHeaders h₂ ++ lf :: t₂) :
    headerLines h₁ = headerLines h₂ ∧ t₁ = t₂ := by
  rw [pushCanonicalHeaders_eq, pushCanonicalHeaders_eq] at h
  obtain ⟨hlines, ht⟩ := block_inj (headerLines_plain hv₁) (headerLines_plain hv₂) h
  refine ⟨map_inj_of_inj ?_ hlines, ht⟩
  intro p hp q hq hpq
  exact headerLine_inj (headerLines_valid hv₁ p hp).1 (headerLines_valid hv₂ q hq).1 hpq

end Headers

section Payload

deriving instance DecidableEq for Payload

/-- A hash of the payload is sixty-four hexadecimal digits. -/
def Payload.Canonical : Payload → Prop
  | .singleChunk checksum =>
    checksum.length = 64 ∧ ∀ c ∈ checksum, (Bytes.hexVal c).isSome = true
  | _ => True

/-- The payload a text stands for. -/
def Payload.ofHashed (text : Bytes) : Payload :=
  if text = ascii "UNSIGNED-PAYLOAD" then .unsigned
  else if text = ascii "STREAMING-AWS4-HMAC-SHA256-PAYLOAD" then .multipleChunks
  else if text = ascii "STREAMING-AWS4-HMAC-SHA256-PAYLOAD-TRAILER" then .multipleChunksWithTrailer
  else if text = ascii "STREAMING-UNSIGNED-PAYLOAD-TRAILER" then
    .unsignedMultipleChunksWithTrailer
  else .singleChunk text

theorem Payload.ofHashed_hashed {payload : Payload} (h : payload.Canonical) :
    ofHashed payload.hashed = payload := by
  cases payload with
  | unsigned => rfl
  | singleChunk checksum =>
    have hne : ∀ text : Bytes, text.length ≠ 64 → checksum ≠ text := by
      rintro text hlength rfl
      exact hlength h.1
    rw [hashed, ofHashed, if_neg (hne _ (by decide)), if_neg (hne _ (by decide)),
      if_neg (hne _ (by decide)), if_neg (hne _ (by decide))]
  | multipleChunks => rfl
  | multipleChunksWithTrailer => rfl
  | unsignedMultipleChunksWithTrailer => rfl

theorem Payload.hashed_inj {p q : Payload} (hp : p.Canonical) (hq : q.Canonical)
    (h : p.hashed = q.hashed) : p = q := by
  rw [← ofHashed_hashed hp, ← ofHashed_hashed hq, h]

end Payload

/-- A canonical request as the sequence of its lines. -/
theorem createCanonicalRequestWithUriMode_eq (method uriPath : Bytes)
    (query headers : List (Bytes × Bytes)) (payload : Payload) (rawUriPath : Bool) :
    createCanonicalRequestWithUriMode method uriPath query headers payload rawUriPath =
      method ++ lf :: ((if rawUriPath then uriPath else uriEncode uriPath false) ++
        lf :: (canonicalQueryString query ++ lf :: (pushCanonicalHeaders headers ++
          lf :: (pushSignedHeaders headers ++ lf :: payload.hashed)))) := by
  simp [createCanonicalRequestWithUriMode, ascii, lf]

/-- What an equality of canonical requests says, with the paths as they were written. -/
theorem createCanonicalRequestWithUriMode_inj {method₁ method₂ path₁ path₂ : Bytes}
    {query₁ query₂ headers₁ headers₂ : List (Bytes × Bytes)} {payload₁ payload₂ : Payload}
    {raw₁ raw₂ : Bool} (hmethod₁ : lf ∉ method₁) (hmethod₂ : lf ∉ method₂)
    (hpath₁ : lf ∉ if raw₁ then path₁ else uriEncode path₁ false)
    (hpath₂ : lf ∉ if raw₂ then path₂ else uriEncode path₂ false)
    (hheaders₁ : ValidHeaders headers₁) (hheaders₂ : ValidHeaders headers₂)
    (hpayload₁ : payload₁.Canonical) (hpayload₂ : payload₂.Canonical)
    (h : createCanonicalRequestWithUriMode method₁ path₁ query₁ headers₁ payload₁ raw₁ =
      createCanonicalRequestWithUriMode method₂ path₂ query₂ headers₂ payload₂ raw₂) :
    method₁ = method₂ ∧
      (if raw₁ then path₁ else uriEncode path₁ false) =
        (if raw₂ then path₂ else uriEncode path₂ false) ∧
      sortByEncodedName query₁ = sortByEncodedName query₂ ∧
      headerLines headers₁ = headerLines headers₂ ∧ payload₁ = payload₂ := by
  rw [createCanonicalRequestWithUriMode_eq, createCanonicalRequestWithUriMode_eq] at h
  obtain ⟨hmethod, h⟩ := append_cons_inj hmethod₁ hmethod₂ h
  obtain ⟨hpath, h⟩ := append_cons_inj hpath₁ hpath₂ h
  obtain ⟨hquery, h⟩ := append_cons_inj (lf_not_mem_canonicalQueryString query₁)
    (lf_not_mem_canonicalQueryString query₂) h
  obtain ⟨hlines, h⟩ := pushCanonicalHeaders_inj hheaders₁ hheaders₂ h
  have hsigned : pushSignedHeaders headers₁ = pushSignedHeaders headers₂ := by
    rw [pushSignedHeaders, pushSignedHeaders, signedHeaderNames_eq, signedHeaderNames_eq, hlines]
  rw [hsigned] at h
  have hhashed := List.tail_eq_of_cons_eq (List.append_cancel_left h)
  exact ⟨hmethod, hpath, canonicalQueryString_inj hquery, hlines,
    Payload.hashed_inj hpayload₁ hpayload₂ hhashed⟩

end S3s.SigV4
