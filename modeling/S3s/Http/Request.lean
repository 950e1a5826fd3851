import S3s.AwsChunked.Authenticity
import S3s.Http.Body
import S3s.Upload.Stream

/-! # Requests

Errors, headers and the bodies of requests: a body as it arrives, what reading it
as a stream gives, and the body it is replaced with once the signature has been
checked.
-/
namespace S3s.Http
open Polling Upload AwsChunked

/-- `S3ErrorCode`. The codes of the modelled functions by name, any other by its text. -/
inductive S3ErrorCode where
  | accessDenied
  | authorizationHeaderMalformed
  | incompleteBody
  | internalError
  | invalidArgument
  | invalidRequest
  | invalidURI
  | maxMessageLengthExceeded
  | missingContentLength
  | missingSecurityHeader
  | notImplemented
  | requestTimeTooSkewed
  | signatureDoesNotMatch
  | other (code : Bytes)
deriving DecidableEq

/-- `S3Error` -/
structure S3Error where
  code : S3ErrorCode
  message : Option Bytes
deriving DecidableEq

abbrev S3Result (α : Type) := Except S3Error α

theorem bind_eq_ok {α β : Type} {x : S3Result α} {f : α → S3Result β} {b : β} :
    (x >>= f) = .ok b ↔ ∃ a, x = .ok a ∧ f a = .ok b := by
  cases x with
  | error e =>
    constructor
    · intro h; cases h
    · rintro ⟨a, h, -⟩; cases h
  | ok a =>
    constructor
    · intro h; exact ⟨a, rfl, h⟩
    · rintro ⟨a', h, hf⟩; cases h; exact hf

/-- `s3_error!` without a message. -/
def S3Error.bare (code : S3ErrorCode) : S3Error := ⟨code, none⟩

/-- `s3_error!` with a message. -/
def S3Error.saying (code : S3ErrorCode) (message : Bytes) : S3Error := ⟨code, some message⟩

/-- `invalid_request!` -/
def invalidRequest (message : Bytes) : S3Error := .saying .invalidRequest message

/-- `HeaderMap`. The names are lowercase. -/
structure HeaderMap where
  entries : List (Bytes × Bytes)
  lowercase : ∀ e ∈ entries, Bytes.lowercase e.1 = e.1

namespace HeaderMap

/-- `HeaderMap::get_all` -/
def getAll (hs : HeaderMap) (name : Bytes) : List Bytes :=
  (hs.entries.filter fun e => e.1 == Bytes.lowercase name).map Prod.snd

/-- `*hs.get_mut(name) = value`: the first value under the name, when there is one. -/
def replaceFirst (name value : Bytes) : List (Bytes × Bytes) → List (Bytes × Bytes)
  | [] => []
  | e :: entries => if e.1 == name then (e.1, value) :: entries else e :: replaceFirst name value entries

theorem replaceFirst_name {name value : Bytes} {entries : List (Bytes × Bytes)} {e : Bytes × Bytes}
    (h : e ∈ replaceFirst name value entries) : ∃ e' ∈ entries, e'.1 = e.1 := by
  induction entries with
  | nil => exact (List.not_mem_nil h).elim
  | cons d entries ih =>
    rw [replaceFirst] at h
    split at h
    · rcases List.mem_cons.mp h with rfl | h
      · exact ⟨d, List.mem_cons_self, rfl⟩
      · exact ⟨e, List.mem_cons_of_mem _ h, rfl⟩
    · rcases List.mem_cons.mp h with rfl | h
      · exact ⟨e, List.mem_cons_self, rfl⟩
      · obtain ⟨e', he', hname⟩ := ih h
        exact ⟨e', List.mem_cons_of_mem _ he', hname⟩

/-- The headers with the first value under a name replaced. -/
def setFirst (hs : HeaderMap) (name value : Bytes) : HeaderMap where
  entries := replaceFirst name value hs.entries
  lowercase e he := by
    obtain ⟨e', he', hname⟩ := replaceFirst_name he
    rw [← hname]
    exact hs.lowercase e' he'

end HeaderMap

/-- `header_value_to_str` -/
def headerValueToStr (value : Bytes) : Option Bytes := Bytes.fromUtf8 value

/-- `get_unique_header_str` -/
def getUniqueHeaderStr (hs : HeaderMap) (name : Bytes) : Option Bytes :=
  match hs.getAll name with
  | [value] => headerValueToStr value
  | _ => none

/-- `http::Version` -/
inductive Version where
  | http09
  | http10
  | http11
  | http2
  | http3
deriving DecidableEq

/-- The type and the subtype of a `Mime`, lowercase. -/
structure Mime where
  type : Bytes
  subtype : Bytes

section Bodies

variable {ε : Type}

/-- What is still to be read from outside: the answers to the polls to come, and the length that
is announced. -/
structure Incoming (ε : Type) where
  script : Script ε
  remaining : RemainingLength

/-- A body as it arrives. The kinds that read from outside are all read as streams. -/
abbrev ArrivingBody (ε : Type) := Body (Incoming ε) Empty

/-- The answers of a stream under an allowance of bytes. -/
def limited : Option Nat → Script ε → Script (BodyError ε)
  | _, [] => []
  | limit, .pending :: script => .pending :: limited limit script
  | limit, .ready none :: script => .ready none :: limited limit script
  | limit, .ready (some (.error e)) :: script =>
    .ready (some (.error (.inner e))) :: limited limit script
  | none, .ready (some (.ok bytes)) :: script => .ready (some (.ok bytes)) :: limited none script
  | some remaining, .ready (some (.ok bytes)) :: script =>
    if bytes.length > remaining then
      .ready (some (.error (.sizeLimitExceeded bytes.length remaining))) ::
        limited (some remaining) script
    else .ready (some (.ok bytes)) :: limited (some (remaining - bytes.length)) script

/-- The answers of the kind of a body. -/
def Kind.script : Kind (Incoming ε) Empty → Script ε
  | .empty => []
  | .once bytes => if bytes.isEmpty then [] else [.ready (some (.ok bytes))]
  | .dynStream inner => inner.script

/-- The answers of a body that is read as a stream. -/
def ArrivingBody.script (b : ArrivingBody ε) : Script (BodyError ε) :=
  limited b.remainingLimit b.kind.script

/-- The fragments and failures a reader meets who waits while nothing is ready. -/
def fragments {ε : Type} : Script ε → Fragments.Body UInt8 ε
  | [] => []
  | .pending :: script => fragments script
  | .ready none :: _ => []
  | .ready (some r) :: script => r :: fragments script

/-- `Body::remaining_length` -/
def ArrivingBody.remainingLength (b : ArrivingBody ε) : RemainingLength :=
  match b.kind with
  | .empty => .newExact 0
  | .once bytes => .newExact bytes.length
  | .dynStream inner => inner.remaining

/-- The byte streams a body can hold once the signature has been checked. -/
inductive DynByteStream (ε : Type) where
  | incoming (inner : Incoming ε)
  | upload (inner : UploadStream (BodyError ε))
  | awsChunked (inner : AwsChunkedStream (BodyError ε))

/-- The errors of these streams. -/
inductive StreamError (ε : Type) where
  | incoming (e : ε)
  | upload (e : UploadStreamError (BodyError ε))
  | awsChunked (e : AwsChunkedStreamError (BodyError ε))

/-- The body of a request whose signature has been checked. -/
abbrev CheckedBody (ε : Type) := Body (DynByteStream ε) Empty

/-- A body that is passed on as it arrived. -/
def ArrivingBody.keep (b : ArrivingBody ε) : CheckedBody ε where
  kind := match b.kind with
    | .empty => .empty
    | .once bytes => .once bytes
    | .dynStream inner => .dynStream (.incoming inner)
  remainingLimit := b.remainingLimit

/-- `Body::from` of a byte stream. -/
def CheckedBody.ofStream (s : DynByteStream ε) : CheckedBody ε := ⟨.dynStream s, none⟩

/-- `Body::from` of bytes. -/
def CheckedBody.ofBytes (bytes : Bytes) : CheckedBody ε := ⟨.once bytes, none⟩

/-- `Body::bytes` -/
def CheckedBody.bytes (b : CheckedBody ε) : Option Bytes :=
  match b.kind with
  | .empty => some []
  | .once inner => some inner
  | .dynStream _ => none

/-- `DynByteStream` as a `ByteStream`. -/
def dynByteStream (C : Crypto) : ByteStream (DynByteStream ε) Bool (StreamError ε) where
  pollNext ready
    | .incoming ⟨[], remaining⟩ => (.ready none, .incoming ⟨[], remaining⟩)
    | .incoming ⟨r :: script, remaining⟩ => (r.bimap id .incoming, .incoming ⟨script, remaining⟩)
    | .upload s => ((s.pollNext C).1.bimap id .upload, .upload (s.pollNext C).2)
    | .awsChunked s => ((s.poll ready).1.bimap id .awsChunked, .awsChunked (s.poll ready).2)
  remainingLength
    | .incoming inner => inner.remaining
    | .upload s => .newExact s.remainingLength
    | .awsChunked s => .newExact s.remainingLength

/-- No foreign HTTP body is held. -/
def noHttpBody {ι E : Type} : HttpBody Empty ι E := ⟨fun _ b => b.elim, fun b => b.elim⟩

end Bodies

end S3s.Http
