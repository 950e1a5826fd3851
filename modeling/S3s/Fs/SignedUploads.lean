import S3s.Fs.ObjectMap
import S3s.Fs.PartRuns
import S3s.Ops.SignedBodies

/-! # Uploads are stored as they are signed

From the signature of a request to the file: what `put_object` and `upload_part` store of a body that the
service hands them is what the signature of the request answers for, or nothing has changed.
-/
namespace S3s.Http
open Polling

variable {ε ε' : Type}

/-- What a frame is in a stream of data, its error as a reader tells it. -/
def streamItem (told : BodyError (StreamError ε) → ε') :
    Except (BodyError (StreamError ε)) Frame → Option (Except ε' Bytes)
  | .ok (.data bytes) => some (.ok bytes)
  | .ok (.trailers _) => none
  | .error e => some (.error (told e))

/-- The items that a body hands out as a stream, up to its end or its first error. -/
inductive Streams (C : Crypto) (told : BodyError (StreamError ε) → ε') :
    CheckedBody ε → List (Except ε' Bytes) → Prop where
  | done {b : CheckedBody ε} (ready : Bool)
    (result : (Body.pollFrame (dynByteStream C) noHttpBody ready b).1 = .ready none) : Streams C told b []
  | pending {b : CheckedBody ε} {stream : List (Except ε' Bytes)} (ready : Bool)
    (result : (Body.pollFrame (dynByteStream C) noHttpBody ready b).1 = .pending)
    (rest : Streams C told (Body.pollFrame (dynByteStream C) noHttpBody ready b).2 stream) :
    Streams C told b stream
  | failed {b : CheckedBody ε} (ready : Bool) (e : BodyError (StreamError ε))
    (result : (Body.pollFrame (dynByteStream C) noHttpBody ready b).1 = .ready (some (.error e))) :
    Streams C told b [.error (told e)]
  | frame {b : CheckedBody ε} {stream : List (Except ε' Bytes)} (ready : Bool) (frame : Frame)
    (result : (Body.pollFrame (dynByteStream C) noHttpBody ready b).1 = .ready (some (.ok frame)))
    (rest : Streams C told (Body.pollFrame (dynByteStream C) noHttpBody ready b).2 stream) :
    Streams C told b ((streamItem told (.ok frame)).toList ++ stream)

end S3s.Http

namespace S3s.Fs
open Programs FileTree Polling Http Ops

variable {ε : Type} {C : Crypto} {told : BodyError (Http.StreamError ε) → StreamError}

/-- A stream without an error has been read to its end. -/
theorem reads_of_streams {b : CheckedBody ε} {stream : List (Except StreamError Bytes)} {content : Bytes}
    (h : Streams C told b stream) (hcontent : contentOf stream = some content) : Ops.Reads C b content := by
  induction h generalizing content with
  | done ready result =>
    cases hcontent
    exact ⟨[], .done ready result, rfl⟩
  | pending ready result rest ih =>
    obtain ⟨frames, hreads, hdata⟩ := ih hcontent
    exact ⟨frames, .pending ready result hreads, hdata⟩
  | failed ready e result => cases hcontent
  | frame ready frame result rest ih =>
    cases frame with
    | data bytes =>
      obtain ⟨later, hlater, rfl⟩ := Option.map_eq_some_iff.mp hcontent
      obtain ⟨frames, hreads, hdata⟩ := ih hlater
      exact ⟨.data bytes :: frames, .item ready result hreads, by rw [← hdata]; rfl⟩
    | trailers headers =>
      obtain ⟨frames, hreads, hdata⟩ := ih hcontent
      exact ⟨.trailers headers :: frames, .item ready result hreads, by rw [← hdata]; rfl⟩

variable (fs : FileSystem)

/-- Of a body, `put_object` and `upload_part` store contents with `P`, under an ETag that is theirs, or they
change nothing. -/
structure FileSystem.StoresOnly (stream : List (Except StreamError Bytes)) (P : Bytes → Prop) : Prop where
  put : ∀ (w : World) (input : PutObjectInput) (trailers : Option Http.HeaderMap), Orderly w.disk →
    fs.Ordinary input.bucket input.key → endsWithSlash input.key = false → input.body = some stream →
    Atomic (fs.putObject input trailers) w fun output disk => ∃ p content m,
      fs.pathOf input.bucket input.key = some p ∧ disk.get p = some (.file content m) ∧
        output.etag = some (.strong (fs.md5Sum content)) ∧ P content
  part : ∀ (w : World) (input : UploadPartInput) (cred : Option Bytes) (trailers : Option Http.HeaderMap),
    Orderly w.disk → input.body = some stream →
    Atomic (fs.uploadPart input cred trailers) w fun output disk => ∃ u content,
      fs.parseUuid input.uploadId = some u ∧ partAt disk u input.partNumber = some content ∧
        output.etag = .strong (fs.md5Sum content) ∧ P content

variable {fs}

theorem storesOnly_of_content {stream : List (Except StreamError Bytes)} {P : Bytes → Prop}
    (h : ∀ content, contentOf stream = some content → P content) : fs.StoresOnly stream P := by
  constructor
  · intro w input trailers hw hordinary hslash hbody
    refine (atomic_putObject fs input trailers hw hordinary.isBucket hordinary.stays).mono ?_
    rintro output disk ⟨p, hp, hput⟩
    have hlength := (objectPath_orderly fs hordinary.isBucket hordinary.stays hp).2
    rw [FileSystem.Put, if_neg (by rw [hslash]; exact Bool.false_ne_true)] at hput
    obtain ⟨content, t, hcontent, hetag, hplaces, t', hattributes, hinfo⟩ := hput
    obtain ⟨m, hfile⟩ := hplaces.get_self
    rw [hbody, Option.bind_some] at hcontent
    refine ⟨p, content, m, hp, ?_, hetag, h content hcontent⟩
    rw [hinfo.get_path hlength, hattributes.get_path hlength, hfile]
  · intro w input cred trailers hw hbody
    refine (atomic_uploadPart fs input cred trailers hw).mono ?_
    rintro output disk ⟨u, content, hu, -, -, hcontent, hetag, t, hwrites, hinfo⟩
    rw [hbody, Option.bind_some] at hcontent
    refine ⟨u, content, hu, ?_, hetag, h content hcontent⟩
    obtain ⟨m, hfile⟩ := hwrites.get_self
    rw [partAt_congr (hinfo.get_file fun h => StoreFile.noConfusion h), partAt, hfile]

/-- A signed upload, from the request to the file: an operation that streams its body and has been admitted
with a request that is signed by its header stores a content that the signature of this request answers for,
made with the secret key of the credentials, or changes nothing. -/
theorem uploads_stored_as_signed {ι ο : Type} (svc : Service ε ι) (fs : FileSystem)
    (told : BodyError (Http.StreamError ε) → StreamError) (req : Ops.Request (ArrivingBody ε)) (query : Option Bytes)
    (before : List (ServiceEvent ε ι ο)) (op : Routing.Operation) (w : svc.Admission req query before op)
    (hop : op.hasStreamingBody = true) (hheader : svc.HeaderSigned w.classified) :
    ∃ decodedUriPath contentLength decodedContentLength accessKey v signature,
      svc.environment.urlDecode w.classified.request.path = some decodedUriPath ∧
      w.ready.extensions.credentials = some (accessKey, v.verifier.secretKey) ∧
      (signatureContext svc.environment svc.context w.classified.request decodedUriPath contentLength
        decodedContentLength).Verified svc.environment v signature ∧
      ∀ stream, Streams svc.environment.externals.toCrypto told w.ready.request.body stream →
        fs.StoresOnly stream ((signatureContext svc.environment svc.context w.classified.request decodedUriPath
          contentLength decodedContentLength).Vouches svc.environment v signature) := by
  obtain ⟨decodedUriPath, contentLength, decodedContentLength, accessKey, v, signature, hpath, hcredentials,
    hverified, hvouched⟩ := Service.streamed_body_vouched w hop hheader
  refine ⟨decodedUriPath, contentLength, decodedContentLength, accessKey, v, signature, hpath, hcredentials,
    hverified, fun stream hstream => ?_⟩
  exact storesOnly_of_content fun content hcontent => hvouched content (reads_of_streams hstream hcontent)

section Sample

/-- A service for uploads to buckets in the path. -/
def signedUploadService : Service Unit Unit :=
  { Service.sampleService with
    environment := SignatureContext.sampleEnvironment
    context := sampleCallContext
    routing := { sampleRouting with host := none }
    route := false }

/-- The upload of three bytes in one signed chunk, with a signed trailer. -/
def signedUploadRequest : Ops.Request (ArrivingBody Unit) :=
  { sampleRequest.req with path := ascii "/bucket/c" }

/-- The operation that has been prepared. -/
def preparedOp {E : Type} : Except E (Service.Preparation Unit) → Option Routing.Operation
  | .ok (.s3 op _) => some op
  | _ => none

set_option maxRecDepth 100000 in
theorem signedUpload_prepared : ∃ p, ((signedUploadService.prepare signedUploadRequest none :
    Serving Unit Unit Unit _).run Service.agreeing ()).1 = .ok (.s3 .putObject p) := by
  have hop : preparedOp ((signedUploadService.prepare signedUploadRequest none :
      Serving Unit Unit Unit _).run Service.agreeing ()).1 = some .putObject := by decide +kernel
  rcases hrun : ((signedUploadService.prepare signedUploadRequest none :
    Serving Unit Unit Unit _).run Service.agreeing ()).1 with e | (⟨op, p⟩ | a)
  · rw [hrun] at hop
    cases hop
  · rw [hrun] at hop
    cases hop
    exact ⟨p, rfl⟩
  · rw [hrun] at hop
    cases hop

theorem signedUpload_headerSigned {before : List (ServiceEvent Unit Unit Unit)}
    (w : signedUploadService.Admission signedUploadRequest none before .putObject) :
    signedUploadService.HeaderSigned w.classified := by
  obtain ⟨qs, hqs, hrequest⟩ := w.identified.request
  cases hqs
  constructor
  · rw [hrequest]
    decide +kernel
  · rw [hrequest]
    decide +kernel
  · rw [hrequest]
    decide +kernel
  · rw [hrequest]
    decide +kernel

theorem uploads_stored_as_signed_sample :
    ∃ (before : List (ServiceEvent Unit Unit Unit))
      (w : signedUploadService.Admission signedUploadRequest none before .putObject),
      ∃ decodedUriPath contentLength decodedContentLength accessKey v signature,
        signedUploadService.environment.urlDecode w.classified.request.path = some decodedUriPath ∧
        w.ready.extensions.credentials = some (accessKey, v.verifier.secretKey) ∧
        (signatureContext signedUploadService.environment signedUploadService.context w.classified.request
          decodedUriPath contentLength decodedContentLength).Verified signedUploadService.environment v signature ∧
        ∀ stream, Streams signedUploadService.environment.externals.toCrypto (fun _ => StreamError.other)
            w.ready.request.body stream →
          uploadStore.StoresOnly stream ((signatureContext signedUploadService.environment
            signedUploadService.context w.classified.request decodedUriPath contentLength
            decodedContentLength).Vouches signedUploadService.environment v signature) := by
  obtain ⟨p, hrun⟩ := signedUpload_prepared
  have htrace := traces_log Service.agreeing
    (signedUploadService.prepare signedUploadRequest none : Serving Unit Unit Unit _) ()
  rw [hrun] at htrace
  obtain ⟨-, w, -⟩ := Service.prepare_ensures.returned htrace
  exact ⟨_, w, uploads_stored_as_signed signedUploadService uploadStore (fun _ => .other) signedUploadRequest none
    _ .putObject w rfl (signedUpload_headerSigned w)⟩

end Sample

end S3s.Fs
