import Mathlib.Data.Set.Function
import S3s.Ops.Signature
import S3s.SigV4.Decodability

/-! # The two renderings of a path

A signature is checked against the canonical request with the decoded path encoded
again, and, when the path that arrived holds a byte an encoded path never has,
against the one with that path as it arrived. Neither rendering is ever the text of
a request with another decoded path.
-/
namespace S3s.Ops
open Http SigV4 Delimited

/-- What a canonical request is rendered from. -/
structure CanonicalInput where
  method : Bytes
  rawPath : Bytes
  decodedPath : Bytes
  query : List (Bytes × Bytes)
  headers : List (Bytes × Bytes)
  payload : Payload
deriving DecidableEq

namespace CanonicalInput

/-- The request in one of the two modes. -/
def render (i : CanonicalInput) (rawUriPath : Bool) : Bytes :=
  createCanonicalRequestWithUriMode i.method (if rawUriPath then i.rawPath else i.decodedPath)
    i.query i.headers i.payload rawUriPath

/-- The raw mode is only for paths with an unencoded reserved character. -/
def Admits (i : CanonicalInput) (rawUriPath : Bool) : Prop :=
  rawUriPath = true → hasUnencodedReservedPathChar i.rawPath = true

instance (i : CanonicalInput) (rawUriPath : Bool) : Decidable (i.Admits rawUriPath) :=
  inferInstanceAs (Decidable (_ → _))

/-- Inputs as they reach the renderer, under the decoder of paths. -/
structure WellFormed (urlDecode : Bytes → Option Bytes) (i : CanonicalInput) : Prop where
  method : lf ∉ i.method
  rawPath : lf ∉ i.rawPath
  decoded : urlDecode i.rawPath = some i.decodedPath
  headers : ValidHeaders i.headers
  payload : i.payload.Canonical

/-- What two inputs have in common when a canonical request stands for both: the query in the order
of the encoded names, and the lines of the headers in place of the headers themselves. -/
structure SameRequest (i j : CanonicalInput) : Prop where
  method : i.method = j.method
  decodedPath : i.decodedPath = j.decodedPath
  query : sortByEncodedName i.query = sortByEncodedName j.query
  headers : headerLines i.headers = headerLines j.headers
  payload : i.payload = j.payload

/-- The path as it is written. -/
def writtenPath (i : CanonicalInput) (rawUriPath : Bool) : Bytes :=
  if rawUriPath then i.rawPath else uriEncode i.decodedPath false

theorem lf_not_mem_writtenPath {urlDecode : Bytes → Option Bytes} {i : CanonicalInput}
    (h : i.WellFormed urlDecode) (rawUriPath : Bool) : lf ∉ i.writtenPath rawUriPath := by
  cases rawUriPath with
  | true => exact h.rawPath
  | false => exact not_mem_uriEncode (by decide) i.decodedPath

/-- An encoded path holds no unencoded reserved character. -/
theorem hasUnencodedReservedPathChar_uriEncode (path : Bytes) :
    hasUnencodedReservedPathChar (uriEncode path false) = false := by
  rw [hasUnencodedReservedPathChar, List.any_eq_false]
  intro b hb
  have h := uriEncode_isUriByte path false b hb
  rw [isUriByte, Bool.not_false, Bool.and_true, Bool.or_right_comm] at h
  simp [h]

/-- In whichever modes two paths are written, the same text stands for the same decoded path. -/
theorem decodedPath_eq_of_writtenPath_eq {urlDecode : Bytes → Option Bytes} {i j : CanonicalInput}
    (hi : i.WellFormed urlDecode) (hj : j.WellFormed urlDecode) {rawᵢ rawⱼ : Bool}
    (hadmitsᵢ : i.Admits rawᵢ) (hadmitsⱼ : j.Admits rawⱼ)
    (h : i.writtenPath rawᵢ = j.writtenPath rawⱼ) : i.decodedPath = j.decodedPath := by
  have hmixed : ∀ {raw path : Bytes}, hasUnencodedReservedPathChar raw = true →
      raw ≠ uriEncode path false := by
    rintro raw path hraw rfl
    rw [hasUnencodedReservedPathChar_uriEncode] at hraw
    cases hraw
  cases rawᵢ with
  | true =>
    cases rawⱼ with
    | true =>
      have hdecoded := hi.decoded
      rw [show i.rawPath = j.rawPath from h, hj.decoded] at hdecoded
      exact (Option.some.inj hdecoded).symm
    | false => exact (hmixed (hadmitsᵢ rfl) h).elim
  | false =>
    cases rawⱼ with
    | true => exact (hmixed (hadmitsⱼ rfl) h.symm).elim
    | false => exact uriEncode_injective false h

theorem SameRequest.of_render_eq {urlDecode : Bytes → Option Bytes} {i j : CanonicalInput}
    (hi : i.WellFormed urlDecode) (hj : j.WellFormed urlDecode) {rawᵢ rawⱼ : Bool}
    (hadmitsᵢ : i.Admits rawᵢ) (hadmitsⱼ : j.Admits rawⱼ) (h : i.render rawᵢ = j.render rawⱼ) :
    i.SameRequest j := by
  have hwritten : ∀ (k : CanonicalInput) (raw : Bool),
      (if raw then (if raw then k.rawPath else k.decodedPath)
        else uriEncode (if raw then k.rawPath else k.decodedPath) false) = k.writtenPath raw := by
    intro k raw
    cases raw <;> rfl
  have hpathᵢ := lf_not_mem_writtenPath hi rawᵢ
  have hpathⱼ := lf_not_mem_writtenPath hj rawⱼ
  rw [← hwritten] at hpathᵢ hpathⱼ
  obtain ⟨hmethod, hpath, hquery, hheaders, hpayload⟩ := createCanonicalRequestWithUriMode_inj
    hi.method hj.method hpathᵢ hpathⱼ hi.headers hj.headers hi.payload hj.payload h
  rw [hwritten, hwritten] at hpath
  exact ⟨hmethod, decodedPath_eq_of_writtenPath_eq hi hj hadmitsᵢ hadmitsⱼ hpath, hquery, hheaders,
    hpayload⟩

end CanonicalInput

namespace SignatureVerificationContext

deriving instance DecidableEq for SignatureVerificationContext

variable (C : Crypto)

/-- The key and the text that are hashed last. -/
def message (v : SignatureVerificationContext) (canonicalRequest : Bytes) : Bytes × Bytes :=
  ((deriveSigningKey C v.secretKey v.amzDate v.region v.service).bytes,
    createStringToSign C canonicalRequest v.amzDate v.region v.service)

theorem signatureOf_eq (v : SignatureVerificationContext) (canonicalRequest : Bytes) :
    v.signatureOf C canonicalRequest =
      C.hmacSha256 (v.message C canonicalRequest).1 (v.message C canonicalRequest).2 := rfl

/-- The signature that is expected is that of one of the two requests, of the raw one only when the
path asks for it. -/
theorem verifyWithRawPathFallback_ok {v : SignatureVerificationContext} {canonical raw : Bytes}
    {signature : Sha256Sum}
    (h : v.verifyWithRawPathFallback C canonical raw = .ok signature) :
    signature.hex = v.expectedSignature ∧
      (signature = v.signatureOf C canonical ∨
        signature = v.signatureOf C raw ∧ hasUnencodedReservedPathChar v.rawUriPath = true) := by
  unfold verifyWithRawPathFallback at h
  split at h
  · next hencoded =>
    cases h
    exact ⟨hencoded, Or.inl rfl⟩
  · split at h
    · cases h
    · next hchar =>
      split at h
      · next hraw =>
        cases h
        exact ⟨hraw, Or.inr ⟨rfl, by simpa using hchar⟩⟩
      · cases h

/-- Whatever is not accepted is a mismatch. -/
theorem verifyWithRawPathFallback_error {v : SignatureVerificationContext} {canonical raw : Bytes}
    (h : ∀ signature, v.verifyWithRawPathFallback C canonical raw ≠ .ok signature) :
    v.verifyWithRawPathFallback C canonical raw = .error (.bare .signatureDoesNotMatch) := by
  unfold verifyWithRawPathFallback at h ⊢
  split
  · next hencoded => exact (h (v.signatureOf C canonical) (if_pos hencoded)).elim
  · split
    · rfl
    · split
      · next hencoded hchar hraw =>
        refine (h (v.signatureOf C raw) ?_).elim
        rw [if_neg hencoded, if_neg hchar, if_pos hraw]
      · rfl

end SignatureVerificationContext

/-- The hash of a canonical request is the end of the string to sign. -/
theorem sha256_eq_of_createStringToSign_eq {C : Crypto} {c₁ c₂ : Bytes} {d₁ d₂ : AmzDate}
    {region₁ region₂ service₁ service₂ : Bytes}
    (h : createStringToSign C c₁ d₁ region₁ service₁ = createStringToSign C c₂ d₂ region₂ service₂) :
    C.sha256 c₁ = C.sha256 c₂ := by
  have hlength : (hexSha256 C c₁).length = (hexSha256 C c₂).length := by simp [hexSha256]
  exact Sha256Sum.hex_injective (List.append_inj_right' h hlength)

/-- No two of the texts share their hash, and no two of the messages their keyed hash. -/
structure CollisionFree (C : Crypto) (texts : Set Bytes) (messages : Set (Bytes × Bytes)) : Prop where
  sha256 : Set.InjOn C.sha256 texts
  hmacSha256 : Set.InjOn (fun m => C.hmacSha256 m.1 m.2) messages

/-- The canonical requests at hand when a signature made for one input is presented with another. -/
def CanonicalInput.texts (i : CanonicalInput) (rawᵢ : Bool) (j : CanonicalInput) : Set Bytes :=
  {text | text = i.render rawᵢ ∨ ∃ rawⱼ, j.Admits rawⱼ ∧ text = j.render rawⱼ}

/-- The messages at hand. -/
def CanonicalInput.messages (C : Crypto) (v : SignatureVerificationContext) (i : CanonicalInput)
    (rawᵢ : Bool) (w : SignatureVerificationContext) (j : CanonicalInput) : Set (Bytes × Bytes) :=
  {m | m = v.message C (i.render rawᵢ) ∨ ∃ rawⱼ, j.Admits rawⱼ ∧ m = w.message C (j.render rawⱼ)}

/-- A signature is accepted for another input only when the canonical requests are equal. -/
theorem render_eq_of_verified {C : Crypto} {v w : SignatureVerificationContext}
    {i j : CanonicalInput} {rawᵢ : Bool} (hpath : w.rawUriPath = j.rawPath)
    (hsigned : w.expectedSignature = (v.signatureOf C (i.render rawᵢ)).hex)
    (hfree : CollisionFree C (i.texts rawᵢ j) (CanonicalInput.messages C v i rawᵢ w j))
    {signature : Sha256Sum}
    (h : w.verifyWithRawPathFallback C (j.render false) (j.render true) = .ok signature) :
    ∃ rawⱼ, j.Admits rawⱼ ∧ i.render rawᵢ = j.render rawⱼ := by
  obtain ⟨hexpected, hcases⟩ := SignatureVerificationContext.verifyWithRawPathFallback_ok C h
  have hsame : signature = v.signatureOf C (i.render rawᵢ) :=
    Sha256Sum.hex_injective (hexpected.trans hsigned)
  have hmode : ∃ rawⱼ, j.Admits rawⱼ ∧ signature = w.signatureOf C (j.render rawⱼ) := by
    rcases hcases with hencoded | ⟨hraw, hchar⟩
    · exact ⟨false, nofun, hencoded⟩
    · exact ⟨true, fun _ => hpath ▸ hchar, hraw⟩
  obtain ⟨rawⱼ, hadmits, hsignature⟩ := hmode
  have hmessage : v.message C (i.render rawᵢ) = w.message C (j.render rawⱼ) :=
    hfree.hmacSha256 (Or.inl rfl) (Or.inr ⟨rawⱼ, hadmits, rfl⟩) (hsame.symm.trans hsignature)
  have hhash := sha256_eq_of_createStringToSign_eq (congrArg Prod.snd hmessage)
  exact ⟨rawⱼ, hadmits, hfree.sha256 (Or.inl rfl) (Or.inr ⟨rawⱼ, hadmits, rfl⟩) hhash⟩

/-- A canonical request stands for one method, one decoded path, one query up to the order of its
names, one sequence of header lines and one payload; and a signature made for a request does not
verify, in either mode, for one with another decoded path. -/
theorem canonical_request_unambiguous (C : Crypto) (urlDecode : Bytes → Option Bytes)
    (i j : CanonicalInput) (hi : i.WellFormed urlDecode) (hj : j.WellFormed urlDecode) :
    (∀ rawᵢ rawⱼ, i.Admits rawᵢ → j.Admits rawⱼ → i.render rawᵢ = j.render rawⱼ →
      i.SameRequest j) ∧
    ∀ (v w : SignatureVerificationContext) (rawᵢ : Bool), i.Admits rawᵢ →
      w.rawUriPath = j.rawPath → w.expectedSignature = (v.signatureOf C (i.render rawᵢ)).hex →
      CollisionFree C (i.texts rawᵢ j) (CanonicalInput.messages C v i rawᵢ w j) →
      i.decodedPath ≠ j.decodedPath →
      w.verifyWithRawPathFallback C (j.render false) (j.render true) =
        .error (.bare .signatureDoesNotMatch) := by
  refine ⟨fun rawᵢ rawⱼ hadmitsᵢ hadmitsⱼ h => .of_render_eq hi hj hadmitsᵢ hadmitsⱼ h, ?_⟩
  intro v w rawᵢ hadmitsᵢ hpath hsigned hfree hne
  apply SignatureVerificationContext.verifyWithRawPathFallback_error
  intro signature h
  obtain ⟨rawⱼ, hadmitsⱼ, hrender⟩ := render_eq_of_verified hpath hsigned hfree h
  exact hne (CanonicalInput.SameRequest.of_render_eq hi hj hadmitsᵢ hadmitsⱼ hrender).decodedPath

section Sample

/-- A download of a key, signed with the host. -/
def sampleInput (path : String) (headers : List (Bytes × Bytes)) : CanonicalInput where
  method := ascii "GET"
  rawPath := ascii path
  decodedPath := ascii path
  query := []
  headers := headers
  payload := .unsigned

def sampleHostHeader : List (Bytes × Bytes) := [(ascii "host", ascii "localhost")]

theorem validHeaders_sampleHostHeader : ValidHeaders sampleHostHeader := by
  intro h hh
  rw [sampleHostHeader, List.mem_singleton] at hh
  subst hh
  decide +kernel

/-- SHA-256 and HMAC-SHA-256 where the two requests below use them. -/
def sampleCrypto : Crypto :=
  let request (path : String) : Bytes :=
    ascii "GET\n" ++ ascii path ++ ascii "\n\nhost:localhost\n\nhost\nUNSIGNED-PAYLOAD"
  let hash₁ := "3bf844fef08af452a1a5751fb9540b52dc95908942c326ca5be83bed6efc66f1"
  let hash₂ := "f36f81462408f65c15420459e21133a9c5ae916df87a4be71bbf9d119aa0a98c"
  let stringToSign (hash : String) : Bytes :=
    ascii "AWS4-HMAC-SHA256\n20130524T000000Z\n20130524/us-east-1/s3/aws4_request\n" ++ ascii hash
  .tabulated
    [(request "/bucket/a+b", .ofHexText hash₁), (request "/bucket/c", .ofHexText hash₂)]
    [(ascii "20130524",
        .ofHexText "a5a91d94fa9a905c91e89aa51df0d86aef33adf77e97d146ae28e8d85d0df909"),
      (ascii "us-east-1",
        .ofHexText "3b12cdd05572d1f20f218215a2283037775c946bf8a4223c1211d2b4e40442ee"),
      (ascii "s3",
        .ofHexText "a8eeee41dfc396fa246b20ce1345d53f4173e9787f535a924ffa6718925a9ad0"),
      (ascii "aws4_request",
        .ofHexText "f117494eff5d09da21cbf7f0339559ea04fc9582d31299cb992be70a6b27c97a"),
      (stringToSign hash₁,
        .ofHexText "ddce89b033dabe179ad816715d742ec661ab777de050b9ada835dccb29e48bc8"),
      (stringToSign hash₂,
        .ofHexText "7d559cc3c4faa7ae2987f8b13c41de5e7c64877db06974c23fe9f5d3756e25b5")]

/-- The scope of the two requests, with the signature of the first. -/
def sampleVerifier (rawUriPath : String) : SignatureVerificationContext where
  expectedSignature := ascii "ddce89b033dabe179ad816715d742ec661ab777de050b9ada835dccb29e48bc8"
  rawUriPath := ascii rawUriPath
  secretKey := ascii "wJalrXUtnFEMI/K7MDENG+bPxRfiCYEXAMPLEKEY"
  amzDate := ⟨2013, 5, 24, 0, 0, 0⟩
  region := ascii "us-east-1"
  service := ascii "s3"

theorem sampleInput_wellFormed (path : String) (headers : List (Bytes × Bytes))
    (hpath : lf ∉ ascii path) (hheaders : ValidHeaders headers) :
    (sampleInput path headers).WellFormed some where
  method := (by decide : lf ∉ ascii "GET")
  rawPath := hpath
  decoded := rfl
  headers := hheaders
  payload := trivial

theorem sampleCrypto_collisionFree :
    CollisionFree sampleCrypto
      ((sampleInput "/bucket/a+b" sampleHostHeader).texts true
        (sampleInput "/bucket/c" sampleHostHeader))
      (CanonicalInput.messages sampleCrypto (sampleVerifier "/bucket/a+b")
        (sampleInput "/bucket/a+b" sampleHostHeader) true (sampleVerifier "/bucket/c")
        (sampleInput "/bucket/c" sampleHostHeader)) := by
  have hmode : ∀ raw, (sampleInput "/bucket/c" sampleHostHeader).Admits raw → raw = false := by
    decide +kernel
  have hhash : sampleCrypto.sha256 ((sampleInput "/bucket/a+b" sampleHostHeader).render true) ≠
      sampleCrypto.sha256 ((sampleInput "/bucket/c" sampleHostHeader).render false) := by
    decide +kernel
  have hmac : (sampleVerifier "/bucket/a+b").signatureOf sampleCrypto
        ((sampleInput "/bucket/a+b" sampleHostHeader).render true) ≠
      (sampleVerifier "/bucket/c").signatureOf sampleCrypto
        ((sampleInput "/bucket/c" sampleHostHeader).render false) := by
    decide +kernel
  constructor
  · rintro s (rfl | ⟨m, hm, rfl⟩) t (rfl | ⟨n, hn, rfl⟩) h
    · rfl
    · exact (hhash (hmode n hn ▸ h)).elim
    · exact (hhash (hmode m hm ▸ h.symm)).elim
    · rw [hmode m hm, hmode n hn]
  · rintro s (rfl | ⟨m, hm, rfl⟩) t (rfl | ⟨n, hn, rfl⟩) h
    · rfl
    · exact (hmac (hmode n hn ▸ h)).elim
    · exact (hmac (hmode m hm ▸ h.symm)).elim
    · rw [hmode m hm, hmode n hn]

theorem canonical_request_unambiguous_sample :
    (sampleVerifier "/bucket/c").verifyWithRawPathFallback sampleCrypto
        ((sampleInput "/bucket/c" sampleHostHeader).render false)
        ((sampleInput "/bucket/c" sampleHostHeader).render true) =
      .error (.bare .signatureDoesNotMatch) :=
  (canonical_request_unambiguous sampleCrypto some (sampleInput "/bucket/a+b" sampleHostHeader)
    (sampleInput "/bucket/c" sampleHostHeader)
    (sampleInput_wellFormed _ _ (by decide) validHeaders_sampleHostHeader)
    (sampleInput_wellFormed _ _ (by decide) validHeaders_sampleHostHeader)).2
    (sampleVerifier "/bucket/a+b") (sampleVerifier "/bucket/c") true (by decide +kernel) rfl
    (by decide +kernel) sampleCrypto_collisionFree (by decide)

/-- A signed header by the name of `authorization` leaves no trace in the canonical request. -/
theorem authorization_header_unbound :
    (sampleInput "/bucket/c" ((ascii "authorization", ascii "x") :: sampleHostHeader)).WellFormed
        some ∧
      (sampleInput "/bucket/c" sampleHostHeader).WellFormed some ∧
      (sampleInput "/bucket/c" ((ascii "authorization", ascii "x") :: sampleHostHeader)).render
          false = (sampleInput "/bucket/c" sampleHostHeader).render false ∧
      ((ascii "authorization", ascii "x") :: sampleHostHeader).map Prod.fst ≠
        sampleHostHeader.map Prod.fst := by
  have hvalid : ValidHeaders ((ascii "authorization", ascii "x") :: sampleHostHeader) := by
    intro h hh
    rcases List.mem_cons.mp hh with rfl | hh
    · decide +kernel
    · exact validHeaders_sampleHostHeader h hh
  exact ⟨sampleInput_wellFormed _ _ (by decide) hvalid,
    sampleInput_wellFormed _ _ (by decide) validHeaders_sampleHostHeader, by decide +kernel,
    by decide⟩

end Sample

end S3s.Ops
