import S3s.Ops.Presigned

/-! # What the signed headers cover

The lines of the canonical request are built from the names a client declares, the
refusal of unsigned headers goes over the headers that arrived. Together they leave
no `x-amz-` header out but those that may be unsigned.
-/
namespace S3s.Ops
open Http SigV4 Delimited

section Collected

variable {hs : HeaderMap} {onMissing : Bytes → Option Bytes}

/-- The values that are signed under a declared name. -/
def signedValues (hs : HeaderMap) (onMissing : Bytes → Option Bytes) (name : Bytes) : List Bytes :=
  if (hs.getAll name).isEmpty then (onMissing name).toList else hs.getAll name

/-- The headers that are signed under a declared name. -/
def signedUnder (hs : HeaderMap) (onMissing : Bytes → Option Bytes) (name : Bytes) :
    List (Bytes × Bytes) :=
  (signedValues hs onMissing name).map fun value => (name, value)

theorem signedHeaderValues_ok {name : Bytes} {headers : List (Bytes × Bytes)}
    (h : signedHeaderValues hs onMissing name = .ok headers) :
    headers = signedUnder hs onMissing name ∧ signedValues hs onMissing name ≠ [] := by
  unfold signedHeaderValues at h
  dsimp only at h
  split at h
  · cases h
  split at h
  · next hempty =>
    split at h
    · next value hvalue =>
      cases h
      simp [signedUnder, signedValues, hempty, hvalue]
    · cases h
  · next hne =>
    cases h
    rw [Bool.not_eq_true] at hne
    refine ⟨by simp [signedUnder, signedValues, hne], ?_⟩
    simpa [signedValues, hne] using List.isEmpty_eq_false_iff.mp hne

/-- The collected headers are the blocks of the declared names, none of them empty. -/
theorem collectSignedHeaders_ok {names : List Bytes} {headers : List (Bytes × Bytes)}
    (h : collectSignedHeaders hs onMissing names = .ok headers) :
    headers = names.flatMap (signedUnder hs onMissing) ∧
      ∀ name ∈ names, signedValues hs onMissing name ≠ [] := by
  induction names generalizing headers with
  | nil =>
    cases h
    exact ⟨rfl, fun name hname => nomatch hname⟩
  | cons name names ih =>
    rw [collectSignedHeaders] at h
    obtain ⟨block, hblock, h⟩ := bind_eq_ok.mp h
    obtain ⟨rest, hrest, h⟩ := bind_eq_ok.mp h
    cases h
    obtain ⟨rfl, hne⟩ := signedHeaderValues_ok hblock
    obtain ⟨rfl, hall⟩ := ih hrest
    refine ⟨rfl, fun n hn => ?_⟩
    rcases List.mem_cons.mp hn with rfl | hn
    · exact hne
    · exact hall n hn

end Collected

section Lines

/-- Every header but the skipped one stands in a line of its name. -/
theorem exists_headerLine {headers : List (Bytes × Bytes)} {e : Bytes × Bytes} (he : e ∈ headers)
    (hskip : isSkippedHeader e.1 = false) :
    ∃ line ∈ headerLines headers, line.1 = e.1 ∧ ∃ before after,
      line.2 = [44].intercalate (before ++ normalizeHeaderValue e.2 :: after) := by
  fun_induction headerLines headers with
  | case1 => cases he
  | case2 name value rest hskipped ih =>
    rcases List.mem_cons.mp he with rfl | he
    · rw [hskipped] at hskip
      cases hskip
    · exact ih he
  | case3 name value rest hkept ih =>
    have hgroup : e ∈ (name, value) :: rest.takeWhile (fun h => h.1 == name) ∨
        e ∈ rest.dropWhile fun h => h.1 == name := by
      rw [← List.mem_append, List.cons_append, List.takeWhile_append_dropWhile]
      exact he
    rcases hgroup with hgroup | hrest
    · have hname : name = e.1 := by
        rcases List.mem_cons.mp hgroup with rfl | htake
        · rfl
        · have hbeq : (e.1 == name) = true :=
            List.mem_takeWhile_imp (p := fun h : Bytes × Bytes => h.1 == name) htake
          exact (beq_iff_eq.mp hbeq).symm
      obtain ⟨before, after, hsplit⟩ := List.append_of_mem hgroup
      refine ⟨_, List.mem_cons_self, hname, before.map fun h => normalizeHeaderValue h.2,
        after.map fun h => normalizeHeaderValue h.2, ?_⟩
      have hmap := congrArg (List.map fun h : Bytes × Bytes => normalizeHeaderValue h.2) hsplit
      simp only [List.map_cons, List.map_append] at hmap
      simp only [List.map_cons, List.map_map, Function.comp_def, hmap]
    · obtain ⟨line, hline, hrest⟩ := ih hrest
      exact ⟨line, List.mem_cons_of_mem _ hline, hrest⟩

/-- A line as a declared name and its values give it. -/
def lineOf (values : Bytes → List Bytes) (name : Bytes) : Bytes × Bytes :=
  (name, [44].intercalate ((values name).map normalizeHeaderValue))

theorem headerLines_block (values : Bytes → List Bytes) {name : Bytes}
    {rest : List (Bytes × Bytes)} (hne : values name ≠ [])
    (hrest : ∀ e ∈ rest.head?, e.1 ≠ name) :
    headerLines ((values name).map (fun value => (name, value)) ++ rest) =
      if isSkippedHeader name then headerLines rest
      else lineOf values name :: headerLines rest := by
  split
  · next hskip =>
    generalize values name = vs
    induction vs with
    | nil => rfl
    | cons v vs ih => rw [List.map_cons, List.cons_append, headerLines, if_pos hskip, ih]
  · next hskip =>
    obtain ⟨v, vs, hvs⟩ := List.exists_cons_of_ne_nil hne
    have hall : ∀ e ∈ vs.map (fun value => (name, value)), (e.1 == name) = true := by
      intro e he
      obtain ⟨value, -, rfl⟩ := List.mem_map.mp he
      exact beq_self_eq_true name
    have htake : rest.takeWhile (fun h => h.1 == name) = [] := by
      cases rest with
      | nil => rfl
      | cons e rest => simpa using hrest e rfl
    have hdrop : rest.dropWhile (fun h => h.1 == name) = rest := by
      cases rest with
      | nil => rfl
      | cons e rest => simpa using hrest e rfl
    rw [hvs, List.map_cons, List.cons_append, headerLines, if_neg hskip,
      List.takeWhile_append_of_pos hall, List.dropWhile_append_of_pos hall, htake, hdrop]
    simp [lineOf, hvs, Function.comp_def]

/-- When no name is declared twice in a row, the lines are those of the declared names. -/
theorem headerLines_collected {hs : HeaderMap} {onMissing : Bytes → Option Bytes}
    {names : List Bytes} (hne : ∀ name ∈ names, signedValues hs onMissing name ≠ [])
    (hchain : names.IsChain (· ≠ ·)) :
    headerLines (names.flatMap (signedUnder hs onMissing)) =
      (names.filter fun name => !isSkippedHeader name).map (lineOf (signedValues hs onMissing)) := by
  induction names with
  | nil => simp [headerLines]
  | cons name names ih =>
    have hrest : ∀ e ∈ (names.flatMap (signedUnder hs onMissing)).head?, e.1 ≠ name := by
      cases names with
      | nil => intro e he; cases he
      | cons next names =>
        obtain ⟨v, vs, hvs⟩ := List.exists_cons_of_ne_nil
          (hne next (List.mem_cons_of_mem _ List.mem_cons_self))
        rw [List.flatMap_cons, signedUnder, hvs]
        intro e he
        cases he
        exact (List.isChain_cons_cons.mp hchain).1.symm
    have hblock := headerLines_block (signedValues hs onMissing) (hne name List.mem_cons_self) hrest
    have htail := ih (fun n hn => hne n (List.mem_cons_of_mem _ hn)) hchain.tail
    rw [List.flatMap_cons, signedUnder, hblock, htail, List.filter_cons]
    cases hskip : isSkippedHeader name <;> simp

end Lines

namespace SignatureContext

variable {ε : Type} {E : Environment ε} {S : CheckSettings} {ctx : SignatureContext ε}

/-- What the types of a request guarantee: no line feed in the method, the path, the authority and
the values of headers, and tokens as names; and the path is decoded as it was received. -/
structure FromHttp (E : Environment ε) (ctx : SignatureContext ε) : Prop where
  method : lf ∉ ctx.reqMethod
  path : lf ∉ ctx.rawUriPath
  decoded : E.urlDecode ctx.rawUriPath = some ctx.decodedUriPath
  headers : ValidHeaders ctx.hs.entries
  authority : ∀ authority ∈ ctx.authority, lf ∉ authority

theorem isTokenChar_of_toLower (c : UInt8) (h : AwsChunked.isTokenChar (Bytes.toLower c) = true) :
    AwsChunked.isTokenChar c = true := by
  refine forall_byte (p := fun c => AwsChunked.isTokenChar (Bytes.toLower c) = true →
    AwsChunked.isTokenChar c = true) ?_ c h
  decide +kernel

theorem mem_getAll {hs : HeaderMap} {name value : Bytes} :
    value ∈ hs.getAll name ↔ (Bytes.lowercase name, value) ∈ hs.entries := by
  rw [HeaderMap.getAll, List.mem_map]
  constructor
  · rintro ⟨e, he, rfl⟩
    obtain ⟨he, hname⟩ := List.mem_filter.mp he
    rwa [← beq_iff_eq.mp hname]
  · intro h
    exact ⟨_, List.mem_filter.mpr ⟨h, beq_self_eq_true _⟩, rfl⟩

/-- Signed headers are headers of the request, or the host that stands for one. -/
theorem mem_signedValues {name value : Bytes}
    (h : value ∈ signedValues ctx.hs ctx.signedHostFallback name) :
    (Bytes.lowercase name, value) ∈ ctx.hs.entries ∨
      name = ascii "host" ∧ ctx.authority = some value := by
  unfold signedValues at h
  split at h
  · rw [Option.mem_toList, signedHostFallback] at h
    split at h
    · next hhost => exact Or.inr ⟨hhost.1, h⟩
    · cases h
  · exact Or.inl (mem_getAll.mp h)

theorem FromHttp.signed (h : ctx.FromHttp E) (names : List Bytes) :
    ValidHeaders (names.flatMap (signedUnder ctx.hs ctx.signedHostFallback)) := by
  intro e he
  obtain ⟨name, -, he⟩ := List.mem_flatMap.mp he
  obtain ⟨value, hvalue, rfl⟩ := List.mem_map.mp he
  rcases mem_signedValues hvalue with hentry | ⟨rfl, hauthority⟩
  · obtain ⟨hne, htoken, hlf⟩ := h.headers _ hentry
    refine ⟨?_, ?_, hlf⟩
    · rintro rfl
      exact hne rfl
    · rw [List.all_eq_true] at htoken ⊢
      intro c hc
      exact isTokenChar_of_toLower c (htoken _ (List.mem_map_of_mem hc))
  · exact ⟨(by decide : ascii "host" ≠ []),
      (by decide : (ascii "host").all AwsChunked.isTokenChar = true), h.authority value hauthority⟩

theorem Verified.wellFormed {w : Verification} {signature : Sha256Sum}
    (hw : ctx.Verified E w signature) (h : ctx.FromHttp E) : w.input.WellFormed E.urlDecode where
  method := hw.method ▸ h.method
  rawPath := hw.rawPath ▸ h.path
  decoded := by rw [hw.rawPath, hw.decodedPath, h.decoded]
  headers := (collectSignedHeaders_ok hw.collected).1 ▸ h.signed w.names
  payload := hw.payload

/-- A header that may not be unsigned is declared, in whichever letter case. -/
theorem Verified.declared {w : Verification} {signature : Sha256Sum}
    (hw : ctx.Verified E w signature) {e : Bytes × Bytes} (he : e ∈ ctx.hs.entries)
    (hamz : mayBeUnsigned ctx.config e.1 = false) : ∃ name ∈ w.names, Bytes.lowercase name = e.1 := by
  have hreject := hw.signedAmz
  unfold rejectUnsignedAmzHeaders at hreject
  split at hreject
  · next hall =>
    have hentry := List.all_eq_true.mp hall e he
    rw [hamz, Bool.false_or, List.any_eq_true] at hentry
    obtain ⟨name, hname, hcase⟩ := hentry
    rw [eqIgnoreAsciiCase, beq_iff_eq, ctx.hs.lowercase e he] at hcase
    exact ⟨name, hname, hcase⟩
  · cases hreject

/-- A name that lowercases to one that may not be unsigned is neither skipped nor the host. -/
theorem name_of_mayBeUnsigned_false {config : S3Config} {name amz : Bytes}
    (hname : Bytes.lowercase name = amz) (hamz : mayBeUnsigned config amz = false) :
    isSkippedHeader name = false ∧ name ≠ ascii "host" := by
  have hprefix : (ascii "x-amz-").isPrefixOf amz = true := by
    simp only [mayBeUnsigned, Bool.or_eq_false_iff, Bool.not_eq_false'] at hamz
    exact hamz.1.1
  constructor
  · rw [isSkippedHeader, beq_eq_false_iff_ne]
    rintro rfl
    rw [← hname] at hprefix
    exact absurd hprefix (by decide)
  · rintro rfl
    rw [← hname] at hprefix
    exact absurd hprefix (by decide)

/-- Under a declared name of this kind the values of the request are signed. -/
theorem Verified.values {w : Verification} {signature : Sha256Sum}
    (hw : ctx.Verified E w signature) {name amz : Bytes} (hmem : name ∈ w.names)
    (hname : Bytes.lowercase name = amz) (hhost : name ≠ ascii "host") :
    signedValues ctx.hs ctx.signedHostFallback name = ctx.hs.getAll amz ∧ ctx.hs.getAll amz ≠ [] := by
  have hgetAll : ctx.hs.getAll name = ctx.hs.getAll amz := by
    rw [HeaderMap.getAll, HeaderMap.getAll, ← hname, Bytes.lowercase_lowercase]
  have hne := (collectSignedHeaders_ok hw.collected).2 name hmem
  unfold signedValues at hne ⊢
  split at hne
  · next hempty =>
    rw [signedHostFallback, if_neg fun h => hhost h.1] at hne
    exact (hne rfl).elim
  · next hempty =>
    rw [if_neg hempty, ← hgetAll]
    exact ⟨rfl, hne⟩

/-- The line of a header that may not be unsigned, when no name is declared twice in a row. -/
theorem Verified.line {w : Verification} {signature : Sha256Sum}
    (hw : ctx.Verified E w signature) (hchain : w.names.IsChain (· ≠ ·)) {name amz : Bytes}
    (hname : Bytes.lowercase name = amz) (hamz : mayBeUnsigned ctx.config amz = false)
    {text : Bytes} :
    (name, text) ∈ headerLines w.input.headers ↔
      name ∈ w.names ∧ text = [44].intercalate ((ctx.hs.getAll amz).map normalizeHeaderValue) := by
  obtain ⟨hskip, hhost⟩ := name_of_mayBeUnsigned_false hname hamz
  obtain ⟨hheaders, hne⟩ := collectSignedHeaders_ok hw.collected
  rw [hheaders, headerLines_collected hne hchain, List.mem_map]
  constructor
  · rintro ⟨n, hn, hline⟩
    obtain ⟨rfl, htext⟩ := Prod.mk.inj hline
    have hmem := (List.mem_filter.mp hn).1
    exact ⟨hmem, by rw [← htext, (hw.values hmem hname hhost).1]⟩
  · rintro ⟨hmem, rfl⟩
    refine ⟨name, List.mem_filter.mpr ⟨hmem, by simp [hskip]⟩, ?_⟩
    rw [lineOf, (hw.values hmem hname hhost).1]

/-- The values of one request are those of any other with the same header lines. -/
theorem Verified.values_eq {ctx' : SignatureContext ε} {w w' : Verification}
    {signature signature' : Sha256Sum} (hw : ctx.Verified E w signature)
    (hw' : ctx'.Verified E w' signature') (hchain : w.names.IsChain (· ≠ ·))
    (hchain' : w'.names.IsChain (· ≠ ·))
    (hlines : headerLines w.input.headers = headerLines w'.input.headers) {amz : Bytes}
    (hlower : Bytes.lowercase amz = amz) (hamz : mayBeUnsigned ctx.config amz = false)
    (hamz' : mayBeUnsigned ctx'.config amz = false) (hpresent : ctx.hs.getAll amz ≠ []) :
    ctx'.hs.getAll amz ≠ [] ∧
      [44].intercalate ((ctx.hs.getAll amz).map normalizeHeaderValue) =
        [44].intercalate ((ctx'.hs.getAll amz).map normalizeHeaderValue) := by
  obtain ⟨value, hvalue⟩ := List.exists_mem_of_ne_nil _ hpresent
  have hentry := mem_getAll.mp hvalue
  rw [hlower] at hentry
  obtain ⟨name, hmem, hname⟩ := hw.declared hentry hamz
  have hline := (hw.line hchain hname hamz).mpr ⟨hmem, rfl⟩
  rw [hlines, hw'.line hchain' hname hamz'] at hline
  have hhost := (name_of_mayBeUnsigned_false hname hamz').2
  exact ⟨(hw'.values hline.1 hname hhost).2, hline.2⟩

/-- The value of a header stands in a line of its name. -/
def Occurs (e : Bytes × Bytes) (lines : List (Bytes × Bytes)) : Prop :=
  ∃ line ∈ lines, eqIgnoreAsciiCase line.1 e.1 = true ∧ ∃ before after,
    line.2 = [44].intercalate (before ++ normalizeHeaderValue e.2 :: after)

theorem Verified.occurs {w : Verification} {signature : Sha256Sum}
    (hw : ctx.Verified E w signature) {e : Bytes × Bytes} (he : e ∈ ctx.hs.entries)
    (hamz : mayBeUnsigned ctx.config e.1 = false) : Occurs e (headerLines w.input.headers) := by
  obtain ⟨name, hmem, hname⟩ := hw.declared he hamz
  obtain ⟨hskip, hhost⟩ := name_of_mayBeUnsigned_false hname hamz
  have hvalue : e.2 ∈ signedValues ctx.hs ctx.signedHostFallback name := by
    rw [(hw.values hmem hname hhost).1, mem_getAll, ctx.hs.lowercase e he]
    exact he
  have hsigned : (name, e.2) ∈ w.input.headers := by
    rw [(collectSignedHeaders_ok hw.collected).1]
    exact List.mem_flatMap.mpr ⟨name, hmem, List.mem_map_of_mem hvalue⟩
  obtain ⟨line, hline, hlinename, hlinevalue⟩ := exists_headerLine hsigned hskip
  refine ⟨line, hline, ?_, hlinevalue⟩
  rw [eqIgnoreAsciiCase, hlinename, hname, ctx.hs.lowercase e he, beq_self_eq_true]

/-- Every value of every header that may not be unsigned stands in the canonical headers of an
accepted request; and two accepted requests with one canonical request, neither of which declares a
name twice in a row, carry the same headers of this kind with the same normalised values joined by
commas. -/
theorem amz_headers_bound (E : Environment ε) (S : CheckSettings) :
    (∀ (ctx : SignatureContext ε) (arm : V4Arm), ctx.Accepts E S arm →
      ∃ w, ctx.verification E S arm = .ok w ∧
        ∀ e ∈ ctx.hs.entries, mayBeUnsigned ctx.config e.1 = false →
          Occurs e (headerLines w.input.headers)) ∧
    ∀ (ctx ctx' : SignatureContext ε) (arm arm' : V4Arm) (w w' : Verification) (raw raw' : Bool),
      ctx.FromHttp E → ctx'.FromHttp E → ctx.Accepts E S arm → ctx'.Accepts E S arm' →
      ctx.verification E S arm = .ok w → ctx'.verification E S arm' = .ok w' →
      w.input.Admits raw → w'.input.Admits raw' → w.input.render raw = w'.input.render raw' →
      w.names.IsChain (· ≠ ·) → w'.names.IsChain (· ≠ ·) →
      ∀ name, Bytes.lowercase name = name → mayBeUnsigned ctx.config name = false →
        mayBeUnsigned ctx'.config name = false →
        (ctx.hs.getAll name = [] ↔ ctx'.hs.getAll name = []) ∧
          [44].intercalate ((ctx.hs.getAll name).map normalizeHeaderValue) =
            [44].intercalate ((ctx'.hs.getAll name).map normalizeHeaderValue) := by
  constructor
  · intro ctx arm haccepts
    obtain ⟨w, signature, hverification, hw⟩ := accepts_verified haccepts
    exact ⟨w, hverification, fun e he hamz => hw.occurs he hamz⟩
  · intro ctx ctx' arm arm' w w' raw raw' hhttp hhttp' haccepts haccepts' hver hver' hadmits hadmits'
      hrender hchain hchain' name hlower hamz hamz'
    obtain ⟨w₀, signature, hver₀, hw⟩ := accepts_verified haccepts
    obtain rfl : w₀ = w := Except.ok.inj (hver₀.symm.trans hver)
    obtain ⟨w₀', signature', hver₀', hw'⟩ := accepts_verified haccepts'
    obtain rfl : w₀' = w' := Except.ok.inj (hver₀'.symm.trans hver')
    have hlines := (CanonicalInput.SameRequest.of_render_eq (hw.wellFormed hhttp)
      (hw'.wellFormed hhttp') hadmits hadmits' hrender).headers
    by_cases hpresent : ctx.hs.getAll name = []
    · by_cases hpresent' : ctx'.hs.getAll name = []
      · rw [hpresent, hpresent']
        exact ⟨Iff.rfl, rfl⟩
      · have h := hw'.values_eq hw hchain' hchain hlines.symm hlower hamz' hamz hpresent'
        exact (h.1 hpresent).elim
    · have h := hw.values_eq hw' hchain hchain' hlines hlower hamz hamz' hpresent
      exact ⟨iff_of_false hpresent h.1, h.2⟩

section Sample

/-- Headers by their names and values, as they are appended to a `HeaderMap`. -/
def headerMapOf (pairs : List (Bytes × Bytes)) : HeaderMap where
  entries := pairs.map fun e => (Bytes.lowercase e.1, e.2)
  lowercase e he := by
    obtain ⟨p, -, rfl⟩ := List.mem_map.mp he
    exact Bytes.lowercase_lowercase p.1

/-- A download of `/bucket/c` with some values of `x-amz-meta-a`. -/
def sampleAmzHeaders (names : String) (values : List String) : HeaderMap :=
  headerMapOf ([(ascii "host", ascii "localhost"),
    (ascii "x-amz-date", ascii "20130524T000000Z"),
    (ascii "x-amz-content-sha256", ascii "UNSIGNED-PAYLOAD"),
    (ascii "authorization",
      ascii "AWS4-HMAC-SHA256 Credential=AKID/20130524/us-east-1/s3/aws4_request, " ++
        ascii "SignedHeaders=" ++ ascii names ++ ascii ", Signature=" ++
        ascii "e0e764d0e99fd3383234c80addb27a1d8e4ddba39fa7e253484482235df05e99")] ++
    values.map fun value => (ascii "x-amz-meta-a", ascii value))

/-- SHA-256 and HMAC-SHA-256 where this request uses them. -/
def sampleAmzCrypto : Crypto :=
  .tabulated
    [(ascii "GET\n/bucket/c\n\nhost:localhost\nx-amz-date:20130524T000000Z\nx-amz-meta-a:v,v\n\n" ++
        ascii "host;x-amz-date;x-amz-meta-a\nUNSIGNED-PAYLOAD",
      .ofHexText "4b57e8967cf4ae92f3f70099fec99032daa53f99d5f3ce48d0fa50423eac5c12")]
    [(ascii "20130524",
        .ofHexText "a5a91d94fa9a905c91e89aa51df0d86aef33adf77e97d146ae28e8d85d0df909"),
      (ascii "us-east-1",
        .ofHexText "3b12cdd05572d1f20f218215a2283037775c946bf8a4223c1211d2b4e40442ee"),
      (ascii "s3",
        .ofHexText "a8eeee41dfc396fa246b20ce1345d53f4173e9787f535a924ffa6718925a9ad0"),
      (ascii "aws4_request",
        .ofHexText "f117494eff5d09da21cbf7f0339559ea04fc9582d31299cb992be70a6b27c97a"),
      (ascii "AWS4-HMAC-SHA256\n20130524T000000Z\n20130524/us-east-1/s3/aws4_request\n" ++
          ascii "4b57e8967cf4ae92f3f70099fec99032daa53f99d5f3ce48d0fa50423eac5c12",
        .ofHexText "e0e764d0e99fd3383234c80addb27a1d8e4ddba39fa7e253484482235df05e99")]

def sampleAmzEnvironment : Environment Unit :=
  { sampleEnvironment with externals := AwsChunked.reference sampleAmzCrypto }

def sampleAmzContext (names : String) (values : List String) : SignatureContext Unit :=
  { sampleContext [] with
    auth := some fun _ => .ok (ascii "wJalrXUtnFEMI/K7MDENG+bPxRfiCYEXAMPLEKEY")
    reqMethod := ascii "GET"
    reqBody := ⟨.empty, none⟩
    hs := sampleAmzHeaders names values
    decodedUriPath := ascii "/bucket/c"
    rawUriPath := ascii "/bucket/c"
    contentLength := some 0
    decodedContentLength := none }

def sampleCheckSettings : CheckSettings where
  presignedUrlMaxExpiresSecs := 604800
  enableSigV2 := false
  allowPostSignature := true
  vhBucket := none

theorem accepts_of_isOk {names : String} {values : List String}
    (h : ((sampleAmzContext names values).v4CheckHeaderAuth sampleAmzEnvironment).isOk = true) :
    (sampleAmzContext names values).Accepts sampleAmzEnvironment sampleCheckSettings
      .headerAuth := by
  cases hcheck : (sampleAmzContext names values).v4CheckHeaderAuth sampleAmzEnvironment with
  | ok r => exact ⟨r.1, r.2, hcheck⟩
  | error e =>
    rw [hcheck] at h
    cases h

/-- The verification of these requests. -/
def sampleAmzVerification (names : List String) (values : List String) : Verification where
  names := names.map ascii
  input :=
    { method := ascii "GET"
      rawPath := ascii "/bucket/c"
      decodedPath := ascii "/bucket/c"
      query := []
      headers := [(ascii "host", ascii "localhost"),
          (ascii "x-amz-date", ascii "20130524T000000Z")] ++
        values.map fun value => (ascii "x-amz-meta-a", ascii value)
      payload := .unsigned }
  verifier :=
    { expectedSignature := ascii "e0e764d0e99fd3383234c80addb27a1d8e4ddba39fa7e253484482235df05e99"
      rawUriPath := ascii "/bucket/c"
      secretKey := ascii "wJalrXUtnFEMI/K7MDENG+bPxRfiCYEXAMPLEKEY"
      amzDate := ⟨2013, 5, 24, 0, 0, 0⟩
      region := ascii "us-east-1"
      service := ascii "s3" }

/-- What the checks of these requests give: one value with a comma in it, two values, and one value
whose name is declared twice. -/
theorem sampleAmzContext_checks :
    (((sampleAmzContext "host;x-amz-date;x-amz-meta-a" ["v,v"]).v4CheckHeaderAuth
          sampleAmzEnvironment).isOk = true ∧
        ((sampleAmzContext "host;x-amz-date;x-amz-meta-a" ["v", "v"]).v4CheckHeaderAuth
          sampleAmzEnvironment).isOk = true ∧
        ((sampleAmzContext "host;x-amz-date;x-amz-meta-a;x-amz-meta-a" ["v"]).v4CheckHeaderAuth
          sampleAmzEnvironment).isOk = true) ∧
      (sampleAmzContext "host;x-amz-date;x-amz-meta-a" ["v,v"]).verification sampleAmzEnvironment
          sampleCheckSettings .headerAuth =
        .ok (sampleAmzVerification ["host", "x-amz-date", "x-amz-meta-a"] ["v,v"]) ∧
      (sampleAmzContext "host;x-amz-date;x-amz-meta-a" ["v", "v"]).verification sampleAmzEnvironment
          sampleCheckSettings .headerAuth =
        .ok (sampleAmzVerification ["host", "x-amz-date", "x-amz-meta-a"] ["v", "v"]) ∧
      (sampleAmzContext "host;x-amz-date;x-amz-meta-a;x-amz-meta-a" ["v"]).verification
          sampleAmzEnvironment sampleCheckSettings .headerAuth =
        .ok (sampleAmzVerification ["host", "x-amz-date", "x-amz-meta-a", "x-amz-meta-a"]
          ["v", "v"]) := by
  decide +kernel

theorem sampleAmzContext_accepted :
    (sampleAmzContext "host;x-amz-date;x-amz-meta-a" ["v,v"]).Accepts sampleAmzEnvironment
        sampleCheckSettings .headerAuth ∧
      (sampleAmzContext "host;x-amz-date;x-amz-meta-a" ["v", "v"]).Accepts sampleAmzEnvironment
        sampleCheckSettings .headerAuth ∧
      (sampleAmzContext "host;x-amz-date;x-amz-meta-a;x-amz-meta-a" ["v"]).Accepts
        sampleAmzEnvironment sampleCheckSettings .headerAuth :=
  ⟨accepts_of_isOk sampleAmzContext_checks.1.1, accepts_of_isOk sampleAmzContext_checks.1.2.1,
    accepts_of_isOk sampleAmzContext_checks.1.2.2⟩

theorem sampleAmzVerification_eq :
    (sampleAmzContext "host;x-amz-date;x-amz-meta-a" ["v,v"]).verification sampleAmzEnvironment
        sampleCheckSettings .headerAuth =
      .ok (sampleAmzVerification ["host", "x-amz-date", "x-amz-meta-a"] ["v,v"]) ∧
    (sampleAmzContext "host;x-amz-date;x-amz-meta-a" ["v", "v"]).verification sampleAmzEnvironment
        sampleCheckSettings .headerAuth =
      .ok (sampleAmzVerification ["host", "x-amz-date", "x-amz-meta-a"] ["v", "v"]) ∧
    (sampleAmzContext "host;x-amz-date;x-amz-meta-a;x-amz-meta-a" ["v"]).verification
        sampleAmzEnvironment sampleCheckSettings .headerAuth =
      .ok (sampleAmzVerification ["host", "x-amz-date", "x-amz-meta-a", "x-amz-meta-a"]
        ["v", "v"]) :=
  sampleAmzContext_checks.2

theorem sampleAmzContext_fromHttp (names : String) (values : List String)
    (h : ValidHeaders (sampleAmzHeaders names values).entries) :
    (sampleAmzContext names values).FromHttp sampleAmzEnvironment where
  method := (by decide : lf ∉ ascii "GET")
  path := (by decide : lf ∉ ascii "/bucket/c")
  decoded := rfl
  headers := h
  authority := nofun

instance (headers : List (Bytes × Bytes)) : Decidable (ValidHeaders headers) :=
  inferInstanceAs (Decidable (∀ h ∈ headers, _))

theorem amz_headers_bound_sample :
    Occurs (ascii "x-amz-meta-a", ascii "v")
        (headerLines (sampleAmzVerification ["host", "x-amz-date", "x-amz-meta-a"]
          ["v", "v"]).input.headers) ∧
      [44].intercalate (((sampleAmzHeaders "host;x-amz-date;x-amz-meta-a" ["v,v"]).getAll
          (ascii "x-amz-meta-a")).map normalizeHeaderValue) =
        [44].intercalate (((sampleAmzHeaders "host;x-amz-date;x-amz-meta-a" ["v", "v"]).getAll
          (ascii "x-amz-meta-a")).map normalizeHeaderValue) := by
  obtain ⟨haccepts, haccepts', -⟩ := sampleAmzContext_accepted
  obtain ⟨hver, hver', -⟩ := sampleAmzVerification_eq
  obtain ⟨hoccurs, hsame⟩ := amz_headers_bound sampleAmzEnvironment sampleCheckSettings
  constructor
  · obtain ⟨w, hw, hentries⟩ := hoccurs _ _ haccepts'
    obtain rfl := Except.ok.inj (hw.symm.trans hver')
    exact hentries _ (by decide +kernel) (by decide +kernel)
  · exact (hsame _ _ _ _ _ _ false false (sampleAmzContext_fromHttp _ _ (by decide +kernel))
      (sampleAmzContext_fromHttp _ _ (by decide +kernel)) haccepts haccepts' hver hver' nofun nofun
      (by decide +kernel) (by decide +kernel) (by decide +kernel) (ascii "x-amz-meta-a")
      (by decide +kernel) (by decide +kernel) (by decide +kernel)).2

/-- Three accepted requests with one canonical request, and no two with the same values. -/
theorem amz_values_join :
    (sampleAmzContext "host;x-amz-date;x-amz-meta-a" ["v,v"]).Accepts sampleAmzEnvironment
        sampleCheckSettings .headerAuth ∧
      (sampleAmzContext "host;x-amz-date;x-amz-meta-a" ["v", "v"]).Accepts sampleAmzEnvironment
        sampleCheckSettings .headerAuth ∧
      (sampleAmzContext "host;x-amz-date;x-amz-meta-a;x-amz-meta-a" ["v"]).Accepts
        sampleAmzEnvironment sampleCheckSettings .headerAuth ∧
      (∃ w₁ w₂ w₃,
        (sampleAmzContext "host;x-amz-date;x-amz-meta-a" ["v,v"]).verification
            sampleAmzEnvironment sampleCheckSettings .headerAuth = .ok w₁ ∧
          (sampleAmzContext "host;x-amz-date;x-amz-meta-a" ["v", "v"]).verification
            sampleAmzEnvironment sampleCheckSettings .headerAuth = .ok w₂ ∧
          (sampleAmzContext "host;x-amz-date;x-amz-meta-a;x-amz-meta-a" ["v"]).verification
            sampleAmzEnvironment sampleCheckSettings .headerAuth = .ok w₃ ∧
          w₁.input.render false = w₂.input.render false ∧
          w₂.input.render false = w₃.input.render false) ∧
      ((sampleAmzHeaders "host;x-amz-date;x-amz-meta-a" ["v,v"]).getAll
          (ascii "x-amz-meta-a")).map normalizeHeaderValue = [ascii "v,v"] ∧
      ((sampleAmzHeaders "host;x-amz-date;x-amz-meta-a" ["v", "v"]).getAll
          (ascii "x-amz-meta-a")).map normalizeHeaderValue = [ascii "v", ascii "v"] ∧
      ((sampleAmzHeaders "host;x-amz-date;x-amz-meta-a;x-amz-meta-a" ["v"]).getAll
          (ascii "x-amz-meta-a")).map normalizeHeaderValue = [ascii "v"] := by
  obtain ⟨haccepts₁, haccepts₂, haccepts₃⟩ := sampleAmzContext_accepted
  obtain ⟨hver₁, hver₂, hver₃⟩ := sampleAmzVerification_eq
  refine ⟨haccepts₁, haccepts₂, haccepts₃, ⟨_, _, _, hver₁, hver₂, hver₃, ?_, ?_⟩, ?_, ?_, ?_⟩
  · decide +kernel
  · decide +kernel
  · decide +kernel
  · decide +kernel
  · decide +kernel

end Sample

end SignatureContext

end S3s.Ops
