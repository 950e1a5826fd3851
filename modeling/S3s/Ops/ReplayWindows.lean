import S3s.Ops.Binding
import S3s.Ops.PostSignature

/-! # How long a request can be replayed

Every check takes its time from another place: a header, a parameter of the query, a
field of the form. On each path the time that is compared with the clock is one that
is signed, so that a copy of a request stays valid for as long as the original.
-/
namespace S3s.Ops
open Http SigV4 PostPolicy Sorted

namespace SignatureContext

variable {ε : Type} {E : Environment ε} {S S' : CheckSettings} {V : V2Externals} {P : Parsers}
  {ctx ctx' : SignatureContext ε}

/-- An instant no farther from the server time than the configuration allows. -/
def WithinSkew (ctx : SignatureContext ε) (time : Int) : Prop :=
  |ctx.now - time| ≤ ctx.config.presignedUrlMaxSkewTimeSecs * 10 ^ 9

theorem withinSkew_of_validateClockSkew {time : Int}
    (h : validateClockSkew time ctx.now ctx.config = .ok ()) : ctx.WithinSkew time := by
  unfold validateClockSkew at h
  split at h
  · cases h
  · next hskew =>
    rw [WithinSkew, Int.abs_eq_natAbs]
    exact_mod_cast not_lt.mp hskew

theorem withinSkew_of_validateSigV4ClockSkew {amzDate : AmzDate}
    (h : validateSigV4ClockSkew E.formats amzDate ctx.now ctx.config = .ok ()) :
    ∃ time, E.formats.toTime amzDate = some time ∧ ctx.WithinSkew time := by
  unfold validateSigV4ClockSkew at h
  split at h
  · next time htime => exact ⟨time, htime, withinSkew_of_validateClockSkew h⟩
  · cases h

/-- The window of a presigned URL. -/
theorem validateExpiration_ok {presignedUrl : PresignedUrlV4}
    (h : ctx.validateExpiration E presignedUrl = .ok ()) :
    ∃ time, E.formats.toTime presignedUrl.amzDate = some time ∧
      -(ctx.config.presignedUrlMaxSkewTimeSecs * 10 ^ 9 : Int) ≤ ctx.now - time ∧
      ctx.now - time ≤ presignedUrl.expires * 10 ^ 9 := by
  unfold validateExpiration at h
  split at h
  · cases h
  · next time htime =>
    dsimp only at h
    split at h
    · cases h
    · next hskew =>
      split at h
      · cases h
      · next hexpired =>
        refine ⟨time, htime, ?_, not_lt.mp hexpired⟩
        by_cases hneg : ctx.now - time < 0
        · have hle : (ctx.now - time).natAbs ≤ ctx.config.presignedUrlMaxSkewTimeSecs * 10 ^ 9 :=
            not_lt.mp fun hgt => hskew ⟨hneg, hgt⟩
          omega
        · omega

/-- What a presigned URL was read from. -/
theorem presignedUrlV4_parse_ok {qs : List (Bytes × Bytes)} {maxExpiresSecs : Nat}
    {presignedUrl : PresignedUrlV4}
    (h : PresignedUrlV4.parse E.formats qs maxExpiresSecs = some presignedUrl) :
    ((getUniquePair qs (ascii "X-Amz-Date")).bind AmzDate.parse = some presignedUrl.amzDate) ∧
      ((getUniquePair qs (ascii "X-Amz-Expires")).bind parseU32 = some presignedUrl.expires) ∧
      presignedUrl.expires ≤ maxExpiresSecs := by
  unfold PresignedUrlV4.parse at h
  simp only [Option.bind_eq_bind, Option.bind_eq_some_iff] at h
  obtain ⟨algorithm, -, credential, -, date, hdate, expires, hexpires, signedHeaders, -, signature, -,
    credential', -, amzDate, hamzDate, seconds, hseconds, h⟩ := h
  have hfields : presignedUrl.amzDate = amzDate ∧ presignedUrl.expires = seconds := by
    split at h
    · cases h
    · split at h
      · cases h
      · cases h
        exact ⟨rfl, rfl⟩
  obtain ⟨hu32, hle⟩ : parseU32 expires = some seconds ∧ seconds ≤ maxExpiresSecs := by
    unfold parseExpires at hseconds
    split at hseconds
    · next x hx =>
      split at hseconds
      · cases hseconds
      · next hmax =>
        cases hseconds
        exact ⟨hx, not_lt.mp hmax⟩
    · cases hseconds
  rw [hfields.1, hfields.2, hdate, hexpires]
  exact ⟨hamzDate, hu32, hle⟩

/-- What the scope of an accepted presigned URL has passed. -/
theorem presignedScope_ok {scope : PresignedScope} (h : ctx.presignedScope E S = .ok scope) :
    PresignedUrlV4.parse E.formats ctx.queryPairs S.presignedUrlMaxExpiresSecs =
        some scope.presignedUrl ∧
      scope.presignedUrl.credential.date = scope.presignedUrl.amzDate.fmtDate ∧
      ctx.validateExpiration E scope.presignedUrl = .ok () := by
  unfold presignedScope at h
  split at h
  · next presignedUrl hparse =>
    split at h
    · cases h
    split at h
    · cases h
    · next hdate =>
      obtain ⟨sha, -, h⟩ := bind_eq_ok.mp h
      split at h
      · cases h
      · obtain ⟨⟨⟩, -, h⟩ := bind_eq_ok.mp h
        obtain ⟨⟨⟩, hexpiration, h⟩ := bind_eq_ok.mp h
        obtain ⟨auth, -, h⟩ := bind_eq_ok.mp h
        obtain ⟨secretKey, -, h⟩ := bind_eq_ok.mp h
        obtain ⟨⟨⟩, -, h⟩ := bind_eq_ok.mp h
        cases h
        exact ⟨hparse, not_not.mp hdate, hexpiration⟩
  · cases h

/-- The string to sign that was accepted, in the mode in which it was. -/
theorem Verified.signed {w : Verification} {signature : Sha256Sum} (h : ctx.Verified E w signature) :
    ∃ raw, (calculateSignature E.externals.toCrypto (w.stringToSign E.externals.toCrypto raw)
      w.verifier.secretKey w.verifier.amzDate w.verifier.region w.verifier.service).hex =
        w.verifier.expectedSignature := by
  have haccepted := h.accepted
  unfold SignatureVerificationContext.verifyWithRawPathFallback at haccepted
  split at haccepted
  · next heq => exact ⟨false, heq⟩
  · split at haccepted
    · cases haccepted
    · split at haccepted
      · next heq => exact ⟨true, heq⟩
      · cases haccepted

/-- What the types of a request guarantee to a check of version 2: no line feed in the method and in
the values of headers, tokens as names, a path in one of the forms of `Uri`, and a query that is
sorted. -/
structure Arrived (ctx : SignatureContext ε) : Prop where
  method : lf ∉ ctx.reqMethod
  headers : ValidHeaders ctx.hs.entries
  path : SigV2.UriPath ctx.rawUriPath
  query : ∀ qs ∈ ctx.qs, Ascending Bytes.le qs

section V2

variable {headers headers' : List (Bytes × Bytes)}

/-- The source of the time of a request, and its line in the string to sign. -/
theorem v2RequestTime_ok {time : Int} (h : ctx.v2RequestTime E V = .ok time)
    (hheaders : sigV2Headers ctx.hs.entries = .ok headers) :
    (∃ x date, SigV2.getUniqueHeaderStr headers (ascii "x-amz-date") = some x ∧
      AmzDate.parse x = some date ∧ E.formats.toTime date = some time ∧
      SigV2.dateLine .headerAuth ctx.qs headers = []) ∨
    (V.httpDate (SigV2.dateLine .headerAuth ctx.qs headers) = some time ∧
      SigV2.getUniqueHeaderStr headers (ascii "x-amz-date") = none) := by
  unfold v2RequestTime at h
  split at h
  · cases h
  · next date hdate =>
    split at h
    · next x hx =>
      have hx' := getUniqueHeaderStr_sigV2Headers hheaders hx
      split at h
      · next time' htime =>
        cases h
        obtain ⟨d, hparse, hd⟩ := Option.bind_eq_some_iff.mp htime
        exact Or.inl ⟨x, d, hx', hparse, hd, by simp [SigV2.dateLine, hx']⟩
      · cases h
    · next hx =>
      rw [hx, Option.or_none] at hdate
      have hdate' := getUniqueHeaderStr_sigV2Headers hheaders hdate
      have hx' : SigV2.getUniqueHeaderStr headers (ascii "x-amz-date") = none := by
        by_contra hsome
        obtain ⟨value, hvalue⟩ := Option.ne_none_iff_exists'.mp hsome
        rw [getUniqueHeaderStr_of_sigV2Headers hheaders (by decide) (by decide) hvalue] at hx
        cases hx
      split at h
      · next time' htime =>
        cases h
        refine Or.inr ⟨?_, hx'⟩
        rw [SigV2.dateLine, hx', hdate']
        exact htime
      · cases h

/-- A `Date` header without a date is none. -/
def RefusesEmpty (V : V2Externals) : Prop := V.httpDate [] = none

theorem Arrived.sigV2Headers (h : ctx.Arrived) (hheaders : sigV2Headers ctx.hs.entries = .ok headers) :
    ValidHeaders headers ∧ ∀ e ∈ headers, Bytes.lowercase e.1 = e.1 := by
  obtain ⟨rfl, -⟩ := sigV2Headers_ok hheaders
  refine ⟨h.headers.of_sublist List.filter_sublist, ?_⟩
  intro e he
  exact ctx.hs.lowercase e (List.mem_filter.mp he).1

theorem lf_not_mem_headerDateLine (h : ValidHeaders headers) (qs : Option (List (Bytes × Bytes))) :
    lf ∉ SigV2.dateLine .headerAuth qs headers := by
  dsimp only [SigV2.dateLine]
  split
  · exact List.not_mem_nil
  · exact SigV2.lf_not_mem_unique h _

/-- The string to sign determines the time that is checked. -/
theorem v2RequestTime_determined (hV : RefusesEmpty V) (hctx : ctx.Arrived) (hctx' : ctx'.Arrived)
    {time time' : Int} {stringToSign : Bytes} (htime : ctx.v2RequestTime E V = .ok time)
    (htime' : ctx'.v2RequestTime E V = .ok time')
    (hsigned : ctx.v2StringToSign S .headerAuth = .ok stringToSign)
    (hsigned' : ctx'.v2StringToSign S' .headerAuth = .ok stringToSign) : time = time' := by
  obtain ⟨headers, hheaders, rfl⟩ := v2StringToSign_ok.mp hsigned
  obtain ⟨headers', hheaders', heq⟩ := v2StringToSign_ok.mp hsigned'
  obtain ⟨hvalid, hlower⟩ := hctx.sigV2Headers hheaders
  obtain ⟨hvalid', hlower'⟩ := hctx'.sigV2Headers hheaders'
  obtain ⟨-, hdate, hlines, -⟩ := SigV2.createStringToSign_inj hctx.method hctx'.method hvalid hvalid'
    (lf_not_mem_headerDateLine hvalid _) (lf_not_mem_headerDateLine hvalid' _) hctx.path hctx'.path heq
  rcases v2RequestTime_ok htime hheaders with ⟨x, d, hx, hparse, hd, hempty⟩ | ⟨hd, -⟩ <;>
    rcases v2RequestTime_ok htime' hheaders' with ⟨x', d', hx', hparse', hd', hempty'⟩ | ⟨hd', -⟩
  · have hline := SigV2.amzLines_getUniqueHeaderStr hlower (by decide) (by decide) hx
    have hline' := SigV2.amzLines_getUniqueHeaderStr hlower' (by decide) (by decide) hx'
    rw [hlines, hline', SigV2.trim_of_parse hparse, SigV2.trim_of_parse hparse'] at hline
    have hsame : x' = x := by simpa using hline
    rw [hsame, hparse] at hparse'
    cases hparse'
    exact Option.some.inj (hd.symm.trans hd')
  · rw [← hdate, hempty] at hd'
    exact absurd (hd'.symm.trans hV) (by simp)
  · rw [hdate, hempty'] at hd
    exact absurd (hd.symm.trans hV) (by simp)
  · rw [hdate] at hd
    exact Option.some.inj (hd.symm.trans hd')

/-- What a presigned URL of version 2 expires by is the line that is signed. -/
theorem v2Expires_signed (hctx : ctx.Arrived) {presignedUrl : SigV2.PresignedUrlV2}
    (h : SigV2.PresignedUrlV2.parse ctx.queryPairs = some presignedUrl)
    (headers : List (Bytes × Bytes)) :
    SigV2.parseUnixTimestamp (SigV2.dateLine .presignedUrl ctx.qs headers) =
      some presignedUrl.expiresTime := by
  unfold SigV2.PresignedUrlV2.parse at h
  simp only [Option.bind_eq_bind, Option.bind_eq_some_iff] at h
  obtain ⟨accessKey, -, expires, hexpires, signature, -, time, htime, h⟩ := h
  cases h
  cases hqs : ctx.qs with
  | none =>
    rw [queryPairs, hqs] at hexpires
    cases hexpires
  | some qs =>
    rw [queryPairs, hqs] at hexpires
    have hvalues : SigV2.getUniqueQs qs (ascii "Expires") = some expires := by
      rw [SigV2.getUniqueQs, lookupUnique_eq bytes_isOrder (hctx.query qs hqs), valuesOf]
      unfold SigV2.getUnique at hexpires
      rw [OrderedQs.beq_name_eq] at hexpires
      split at hexpires
      · next q hq =>
        cases hexpires
        have hq' : (qs.filter fun x => decide (x.1 = ascii "Expires")) = [q] := hq
        rw [hq']
        rfl
      · cases hexpires
    simp only [SigV2.dateLine, Option.bind_some, hvalues, Option.getD_some]
    exact htime

end V2

/-- Replay windows, check by check. A request that is accepted by header and a signed form hold a date
within the allowed skew of the server time; that date is in the string to sign, or in the policy that
is signed. A presigned URL lives no longer than the configuration allows, from its date on, and its
credential is one of that day. A header of version 2 is checked with a time its string to sign
determines, and a presigned URL of version 2 is accepted no later than the expiry in its own. -/
theorem replay_windows (E : Environment ε) (V : V2Externals) (P : Parsers) (hV : RefusesEmpty V) :
    (∀ (ctx : SignatureContext ε) credentials checked,
      ctx.v4CheckHeaderAuth E = .ok (credentials, checked) →
      ∃ w raw time, ctx.headerVerification E = .ok w ∧
        extractAmzDate ctx.hs = .ok (some w.verifier.amzDate) ∧
        (calculateSignature E.externals.toCrypto (w.stringToSign E.externals.toCrypto raw)
          w.verifier.secretKey w.verifier.amzDate w.verifier.region w.verifier.service).hex =
            w.verifier.expectedSignature ∧
        E.formats.toTime w.verifier.amzDate = some time ∧ ctx.WithinSkew time) ∧
    (∀ (ctx : SignatureContext ε) multipart credentials,
      ctx.v4CheckPostSignature E P multipart = .ok credentials →
      ∃ info policy amzDate time, PostSignatureV4.extract multipart.fields = .ok info ∧
        PostPolicy.fromBase64 P info.policy = .ok policy ∧
        policy.eqConditionValue (ascii "x-amz-date") = some info.xAmzDate ∧
        AmzDate.parse info.xAmzDate = some amzDate ∧
        E.formats.toTime amzDate = some time ∧ ctx.WithinSkew time) ∧
    (∀ (ctx : SignatureContext ε) S credentials body,
      ctx.v4CheckPresignedUrl E S = .ok (credentials, body) →
      ∃ w raw presignedUrl time, ctx.presignedVerification E S = .ok w ∧
        w.verifier.amzDate = presignedUrl.amzDate ∧
        (calculateSignature E.externals.toCrypto (w.stringToSign E.externals.toCrypto raw)
          w.verifier.secretKey w.verifier.amzDate w.verifier.region w.verifier.service).hex =
            w.verifier.expectedSignature ∧
        PresignedUrlV4.parse E.formats ctx.queryPairs S.presignedUrlMaxExpiresSecs =
          some presignedUrl ∧
        (getUniquePair ctx.queryPairs (ascii "X-Amz-Date")).bind AmzDate.parse =
          some presignedUrl.amzDate ∧
        (getUniquePair ctx.queryPairs (ascii "X-Amz-Expires")).bind parseU32 =
          some presignedUrl.expires ∧
        presignedUrl.expires ≤ S.presignedUrlMaxExpiresSecs ∧
        E.formats.toTime presignedUrl.amzDate = some time ∧
        -(ctx.config.presignedUrlMaxSkewTimeSecs * 10 ^ 9 : Int) ≤ ctx.now - time ∧
        ctx.now - time ≤ presignedUrl.expires * 10 ^ 9 ∧
        presignedUrl.credential.date = presignedUrl.amzDate.fmtDate) ∧
    (∀ (ctx ctx' : SignatureContext ε) S S' authV2 authV2' credentials credentials' body body'
        stringToSign, ctx.Arrived → ctx'.Arrived →
      ctx.v2CheckHeaderAuth E S V authV2 = .ok (credentials, body) →
      ctx'.v2CheckHeaderAuth E S' V authV2' = .ok (credentials', body') →
      ctx.v2StringToSign S .headerAuth = .ok stringToSign →
      ctx'.v2StringToSign S' .headerAuth = .ok stringToSign →
      ∃ time, ctx.v2RequestTime E V = .ok time ∧ ctx'.v2RequestTime E V = .ok time ∧
        ctx.WithinSkew time ∧ ctx'.WithinSkew time) ∧
    (∀ (ctx : SignatureContext ε) S credentials body, ctx.Arrived →
      ctx.v2CheckPresignedUrl S V = .ok (credentials, body) →
      ∃ headers time, sigV2Headers ctx.hs.entries = .ok headers ∧
        ctx.v2StringToSign S .presignedUrl = .ok (SigV2.createStringToSign .presignedUrl
          ctx.reqMethod ctx.rawUriPath ctx.qs headers S.vhBucket) ∧
        SigV2.parseUnixTimestamp (SigV2.dateLine .presignedUrl ctx.qs headers) = some time ∧
        ctx.now ≤ time) := by
  refine ⟨?_, ?_, ?_, ?_, ?_⟩
  · intro ctx credentials checked h
    obtain ⟨scope, payload, body, signature, hscope, -, -, -, -⟩ := v4CheckHeaderAuth_ok.mp h
    obtain ⟨w, signature', hw, hverified⟩ := headerAuth_verified h
    obtain ⟨raw, hsigned⟩ := hverified.signed
    have hvalid := headerScope_valid hscope
    have hdate : w.verifier.amzDate = scope.amzDate := by
      unfold headerVerification at hw
      obtain ⟨scope', hscope', hw⟩ := bind_eq_ok.mp hw
      obtain rfl := Except.ok.inj (hscope'.symm.trans hscope)
      obtain ⟨⟨payload', body'⟩, -, hw⟩ := bind_eq_ok.mp hw
      obtain ⟨headers, -, hw⟩ := bind_eq_ok.mp hw
      cases hw
      rfl
    obtain ⟨time, htime, hskew⟩ := withinSkew_of_validateSigV4ClockSkew hvalid.clockSkew
    exact ⟨w, raw, time, hw, hdate ▸ hvalid.amzDate, hsigned, hdate ▸ htime, hskew⟩
  · intro ctx multipart credentials h
    obtain ⟨scope, hscope, -⟩ := v4CheckPostSignature_ok h
    have hvalid := postScope_valid hscope
    obtain ⟨time, htime, hskew⟩ := withinSkew_of_validateSigV4ClockSkew hvalid.clockSkew
    exact ⟨scope.info, scope.policy, scope.amzDate, time, hvalid.info, hvalid.policy,
      hvalid.policyDate, hvalid.amzDate, htime, hskew⟩
  · intro ctx S credentials body h
    obtain ⟨scope, signature, hscope, -, -⟩ := v4CheckPresignedUrl_ok E S ctx h
    obtain ⟨w, signature', hw, hverified⟩ := presignedUrl_verified h
    obtain ⟨raw, hsigned⟩ := hverified.signed
    have hdate : w.verifier.amzDate = scope.presignedUrl.amzDate := by
      unfold presignedVerification at hw
      obtain ⟨scope', hscope', hw⟩ := bind_eq_ok.mp hw
      obtain rfl := Except.ok.inj (hscope'.symm.trans hscope)
      obtain ⟨headers, -, hw⟩ := bind_eq_ok.mp hw
      cases hw
      rfl
    obtain ⟨hparse, hday, hexpiration⟩ := presignedScope_ok hscope
    obtain ⟨hamzDate, hexpires, hmax⟩ := presignedUrlV4_parse_ok hparse
    obtain ⟨time, htime, hearly, hlate⟩ := validateExpiration_ok hexpiration
    exact ⟨w, raw, scope.presignedUrl, time, hw, hdate, hsigned, hparse, hamzDate, hexpires, hmax,
      htime, hearly, hlate, hday⟩
  · intro ctx ctx' S S' authV2 authV2' credentials credentials' body body' stringToSign hctx hctx' h h'
      hsigned hsigned'
    obtain ⟨time, -, htime, hskew, -⟩ := v2CheckHeaderAuth_ok h
    obtain ⟨time', -, htime', hskew', -⟩ := v2CheckHeaderAuth_ok h'
    obtain rfl := v2RequestTime_determined hV hctx hctx' htime htime' hsigned hsigned'
    exact ⟨time, htime, htime', withinSkew_of_validateClockSkew hskew,
      withinSkew_of_validateClockSkew hskew'⟩
  · intro ctx S credentials body hctx h
    obtain ⟨presignedUrl, stringToSign, hparse, hnow, hsigned⟩ := v2CheckPresignedUrl_ok h
    obtain ⟨headers, hheaders, rfl⟩ := v2StringToSign_ok.mp hsigned
    exact ⟨headers, presignedUrl.expiresTime, hheaders, hsigned, v2Expires_signed hctx hparse headers,
      hnow⟩

section Sample

/-- SHA-256 and HMAC-SHA-256 where the presigned URL and the form use them. -/
def sampleReplayCrypto : Crypto :=
  .tabulated
    [(ascii "GET\n/bucket/c\nX-Amz-Algorithm=AWS4-HMAC-SHA256&X-Amz-Credential=AKID%2F20130524" ++
        ascii "%2Fus-east-1%2Fs3%2Faws4_request&X-Amz-Date=20130524T000000Z&X-Amz-Expires=86400" ++
        ascii "&X-Amz-SignedHeaders=host\nhost:localhost\n\nhost\nUNSIGNED-PAYLOAD",
      .ofHexText "c26773f97576648130aa73d43d1241311a567f32c087810d5d1378eddf35fcc0")]
    [(ascii "20130524",
        .ofHexText "a5a91d94fa9a905c91e89aa51df0d86aef33adf77e97d146ae28e8d85d0df909"),
      (ascii "us-east-1",
        .ofHexText "3b12cdd05572d1f20f218215a2283037775c946bf8a4223c1211d2b4e40442ee"),
      (ascii "s3",
        .ofHexText "a8eeee41dfc396fa246b20ce1345d53f4173e9787f535a924ffa6718925a9ad0"),
      (ascii "aws4_request",
        .ofHexText "f117494eff5d09da21cbf7f0339559ea04fc9582d31299cb992be70a6b27c97a"),
      (ascii "AWS4-HMAC-SHA256\n20130524T000000Z\n20130524/us-east-1/s3/aws4_request\n" ++
          ascii "c26773f97576648130aa73d43d1241311a567f32c087810d5d1378eddf35fcc0",
        .ofHexText "a41c7f75d4aa04419fed92de9bd714b3860953f1fd211762988a14529235b066"),
      (ascii "eyJleHBpcmF0aW9uIjoiMjAxMy0wNS0yNVQwMDowMDowMFoiLCJjb25kaXRpb25zIjpbeyJ4LWFt" ++
          ascii "ei1kYXRlIjoiMjAxMzA1MjRUMDAwMDAwWiJ9LHsieC1hbXotY3JlZGVudGlhbCI6IkFLSUQvMjAx" ++
          ascii "MzA1MjQvdXMtZWFzdC0xL3MzL2F3czRfcmVxdWVzdCJ9LFsiZXEiLCIkeC1hbXotYWxnb3JpdGht" ++
          ascii "IiwiQVdTNC1ITUFDLVNIQTI1NiJdXX0=",
        .ofHexText "3810e38a95ebef7e54a47708044f4563da0ddec37e512dac768dc0a9c3875954")]

def sampleReplayEnvironment : Environment Unit :=
  { sampleEnvironment with externals := AwsChunked.reference sampleReplayCrypto }

/-- HMAC-SHA-1 and the dates of the two requests of version 2. -/
def sampleV2Externals : V2Externals where
  hmacSha1 _ data :=
    if data = ascii "GET\n\n\nFri, 24 May 2013 00:00:00 GMT\n/bucket/c" then
      (Bytes.decodeHex (ascii "40df2b3151a775b66fb49e61800dedb744dcad5a")).getD []
    else (Bytes.decodeHex (ascii "95b7689e8b1543d96bb3538cf37f37f8998014c8")).getD []
  httpDate date :=
    if date = ascii "Fri, 24 May 2013 00:00:00 GMT" then some (1369353600 * 10 ^ 9) else none

/-- The policy of the form: a date, a credential and an algorithm. -/
def samplePolicyJson : Json :=
  .object [(ascii "expiration", .string (ascii "2013-05-25T00:00:00Z")),
    (ascii "conditions", .array
      [.object [(ascii "x-amz-date", .string (ascii "20130524T000000Z"))],
        .object [(ascii "x-amz-credential",
          .string (ascii "AKID/20130524/us-east-1/s3/aws4_request"))],
        .array [.string (ascii "eq"), .string (ascii "$x-amz-algorithm"),
          .string (ascii "AWS4-HMAC-SHA256")]])]

/-- The same policy as a text. -/
def samplePolicyText : Bytes :=
  ascii "\x7b\"expiration\":\"2013-05-25T00:00:00Z\",\"conditions\":[" ++
    ascii "\x7b\"x-amz-date\":\"20130524T000000Z\"\x7d," ++
    ascii "\x7b\"x-amz-credential\":\"AKID/20130524/us-east-1/s3/aws4_request\"\x7d," ++
    ascii "[\"eq\",\"$x-amz-algorithm\",\"AWS4-HMAC-SHA256\"]]\x7d"

def sampleParsers : Parsers where
  json text := if text = samplePolicyText then some samplePolicyJson else none
  dateTime text := if text = ascii "2013-05-25T00:00:00Z" then some (1369440000 * 10 ^ 9) else none

/-- A download of `/bucket/c` with some headers and a query. -/
def sampleReplayContext (headers : List (Bytes × Bytes)) (qs : Option (List (Bytes × Bytes))) :
    SignatureContext Unit :=
  { sampleAmzContext "" [] with hs := headerMapOf headers, qs := qs }

def samplePresignedQuery : List (Bytes × Bytes) :=
  [(ascii "X-Amz-Algorithm", ascii "AWS4-HMAC-SHA256"),
    (ascii "X-Amz-Credential", ascii "AKID/20130524/us-east-1/s3/aws4_request"),
    (ascii "X-Amz-Date", ascii "20130524T000000Z"), (ascii "X-Amz-Expires", ascii "86400"),
    (ascii "X-Amz-Signature",
      ascii "a41c7f75d4aa04419fed92de9bd714b3860953f1fd211762988a14529235b066"),
    (ascii "X-Amz-SignedHeaders", ascii "host")]

def samplePresignedV2Query : List (Bytes × Bytes) :=
  [(ascii "AWSAccessKeyId", ascii "AKID"), (ascii "Expires", ascii "1369353601"),
    (ascii "Signature", ascii "lbdonosVQ9lrs1OM8383+JmAFMg=")]

/-- A request of version 2 that is authenticated by header, with a header it does not sign. -/
def sampleV2Headers (range : Bytes) : List (Bytes × Bytes) :=
  [(ascii "host", ascii "localhost"), (ascii "range", range),
    (ascii "date", ascii "Fri, 24 May 2013 00:00:00 GMT")]

/-- The form with this policy. -/
def sampleSignedForm : Multipart (BodyError Unit) where
  fields :=
    [(ascii "policy", Base64.encode samplePolicyText),
      (ascii "x-amz-algorithm", ascii "AWS4-HMAC-SHA256"),
      (ascii "x-amz-credential", ascii "AKID/20130524/us-east-1/s3/aws4_request"),
      (ascii "x-amz-date", ascii "20130524T000000Z"),
      (ascii "x-amz-signature",
        ascii "3810e38a95ebef7e54a47708044f4563da0ddec37e512dac768dc0a9c3875954")]
  file := ⟨ascii "a.txt", none, none⟩

def sampleV2Settings : CheckSettings := { sampleCheckSettings with enableSigV2 := true }

theorem exists_of_isOk {α : Type} {x : S3Result α} (h : x.isOk = true) : ∃ a, x = .ok a := by
  cases x with
  | ok a => exact ⟨a, rfl⟩
  | error e => cases h

theorem sampleReplayContext_arrived {headers : List (Bytes × Bytes)}
    {qs : Option (List (Bytes × Bytes))} (hheaders : ValidHeaders (headerMapOf headers).entries)
    (hqs : ∀ q ∈ qs, Ascending Bytes.le q) : (sampleReplayContext headers qs).Arrived where
  method := (by decide : lf ∉ ascii "GET")
  headers := hheaders
  path := Or.inr (Or.inr (by decide : (ascii "/bucket/c").head? = some 47))
  query := hqs

/-- One request for each of the checks, all of them accepted and in time. -/
theorem replay_windows_samples :
    (∃ time, (sampleAmzContext "host;x-amz-date;x-amz-meta-a" ["v,v"]).WithinSkew time) ∧
    (∃ time, (sampleReplayContext [] none).WithinSkew time) ∧
    (∃ w, (sampleReplayContext [(ascii "host", ascii "localhost")]
      (some samplePresignedQuery)).presignedVerification sampleReplayEnvironment
        sampleCheckSettings = .ok w) ∧
    (∃ time,
      (sampleReplayContext (sampleV2Headers (ascii "bytes=0-1")) none).v2RequestTime
        sampleReplayEnvironment sampleV2Externals = .ok time ∧
      (sampleReplayContext (sampleV2Headers (ascii "bytes=2-3")) none).v2RequestTime
        sampleReplayEnvironment sampleV2Externals = .ok time) ∧
    (∃ time, (sampleReplayContext [] (some samplePresignedV2Query)).now ≤ time) := by
  have hV : RefusesEmpty sampleV2Externals := rfl
  obtain ⟨hheader, -⟩ := replay_windows sampleAmzEnvironment sampleV2Externals sampleParsers hV
  obtain ⟨-, hpost, hpresigned, hv2, hv2Presigned⟩ :=
    replay_windows sampleReplayEnvironment sampleV2Externals sampleParsers hV
  refine ⟨?_, ?_, ?_, ?_, ?_⟩
  · obtain ⟨credentials, checked, h⟩ := sampleAmzContext_accepted.1
    obtain ⟨w, raw, time, -, -, -, -, hskew⟩ := hheader _ _ _ h
    exact ⟨time, hskew⟩
  · have hok : ((sampleReplayContext [] none).v4CheckPostSignature sampleReplayEnvironment
        sampleParsers sampleSignedForm).isOk = true := by decide +kernel
    obtain ⟨credentials, h⟩ := exists_of_isOk hok
    obtain ⟨info, policy, amzDate, time, -, -, -, -, -, hskew⟩ := hpost _ _ _ h
    exact ⟨time, hskew⟩
  · have hok : ((sampleReplayContext [(ascii "host", ascii "localhost")]
        (some samplePresignedQuery)).v4CheckPresignedUrl sampleReplayEnvironment
        sampleCheckSettings).isOk = true := by decide +kernel
    obtain ⟨⟨credentials, body⟩, h⟩ := exists_of_isOk hok
    obtain ⟨w, raw, presignedUrl, time, hw, -⟩ := hpresigned _ _ _ _ h
    exact ⟨w, hw⟩
  · have hok : ∀ range ∈ [ascii "bytes=0-1", ascii "bytes=2-3"],
        ((sampleReplayContext (sampleV2Headers range) none).v2CheckHeaderAuth
          sampleReplayEnvironment sampleV2Settings sampleV2Externals
          (ascii "AKID", ascii "QN8rMVGndbZvtJ5hgA3tt0TcrVo=")).isOk = true := by decide +kernel
    have hsigned : ∀ range ∈ [ascii "bytes=0-1", ascii "bytes=2-3"],
        (sampleReplayContext (sampleV2Headers range) none).v2StringToSign sampleV2Settings
          .headerAuth = .ok (ascii "GET\n\n\nFri, 24 May 2013 00:00:00 GMT\n/bucket/c") := by
      decide +kernel
    simp only [List.forall_mem_cons, List.not_mem_nil, false_implies, forall_const, and_true]
      at hok hsigned
    obtain ⟨⟨credentials, body⟩, h⟩ := exists_of_isOk hok.1
    obtain ⟨⟨credentials', body'⟩, h'⟩ := exists_of_isOk hok.2
    obtain ⟨time, htime, htime', -⟩ := hv2 _ _ _ _ _ _ _ _ _ _ _
      (sampleReplayContext_arrived (by decide +kernel) fun q hq => by cases hq)
      (sampleReplayContext_arrived (by decide +kernel) fun q hq => by cases hq) h h' hsigned.1 hsigned.2
    exact ⟨time, htime, htime'⟩
  · have hok : ((sampleReplayContext [] (some samplePresignedV2Query)).v2CheckPresignedUrl
        sampleV2Settings sampleV2Externals).isOk = true := by decide +kernel
    obtain ⟨⟨credentials, body⟩, h⟩ := exists_of_isOk hok
    have hsorted : Ascending Bytes.le samplePresignedV2Query := by
      unfold Ascending
      decide +kernel
    obtain ⟨headers, time, -, -, -, hnow⟩ := hv2Presigned _ _ _ _
      (sampleReplayContext_arrived (by decide +kernel) fun q hq => by cases hq; exact hsorted) h
    exact ⟨time, hnow⟩

end Sample

end SignatureContext

end S3s.Ops
