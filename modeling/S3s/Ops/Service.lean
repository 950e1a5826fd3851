import S3s.Library.Traces
import S3s.Ops.PostObject
import S3s.Ops.Signed

/-! # Serving a request

`prepare` and `call` as a whole: a request is routed, its signature is checked, its access is granted and
its body is made ready, before the operation is called. What the service is built from is asked on the
way: a custom route, the access checks and the operations themselves.
-/
namespace S3s.Routing

/-- `Operation::needs_full_body` -/
def Operation.needsFullBody : Operation → Bool
  | .postObject | .putObject | .putObjectAnnotationOp | .uploadPart | .writeGetObjectResponse => false
  | op => op.hasRequestPayload

/-- `Operation::has_streaming_body` -/
def Operation.hasStreamingBody : Operation → Bool
  | .putObject | .putObjectAnnotationOp | .uploadPart | .writeGetObjectResponse => true
  | _ => false

end S3s.Routing

namespace S3s.Http

/-- `Body::remaining_length` -/
def CheckedBody.remainingLength {ε : Type} (C : Crypto) (b : CheckedBody ε) : RemainingLength :=
  match b.kind with
  | .empty => .newExact 0
  | .once bytes => .newExact bytes.length
  | .dynStream inner => (dynByteStream C).remainingLength inner

end S3s.Http

namespace S3s.Ops
open Http SigV4 Routing Programs

/-- What `prepare` has found out of a request before it checks the signature. A request that a custom route
has claimed has no path in the storage. -/
structure Classified (β : Type) where
  request : Request β
  query : Option Bytes
  hostHeader : Option Bytes
  vh : Option VirtualHost
  decodedUriPath : Bytes
  s3Path : Option S3Path
  qs : Option OrderedQs

/-- A request whose signature has been checked. -/
structure Authenticated (ε : Type) extends Classified (CheckedBody ε) where
  contentLength : Option Nat
  extensions : S3Extensions (Multipart (BodyError ε))

/-- A request that is ready for its operation. The file of a form stands beside it. -/
structure PreparedRequest (ε : Type) extends Authenticated ε where
  postObject : Option (PostStream (BodyError ε) × Option PostPolicy.PostPolicy)

/-- `S3AccessContext` -/
structure AccessContext where
  credentials : Option (Bytes × Bytes)
  s3Path : Option S3Path
  s3Op : Bytes
  method : Bytes
  path : Bytes
  query : Option Bytes
  headers : HeaderMap

/-- `S3Request` -/
structure S3Request (α : Type) where
  input : α
  method : Bytes
  path : Bytes
  query : Option Bytes
  headers : HeaderMap
  credentials : Option (Bytes × Bytes)
  region : Option Bytes
  service : Option Bytes

/-- `S3Request::map_input` -/
def S3Request.mapInput {α β : Type} (req : S3Request α) (f : α → β) : S3Request β :=
  { req with input := f req.input }

/-- The calls to what the service is built from: the predicate of its custom route, the two checks of its
access, its operations, and the two methods of the route. -/
inductive ServiceCall (ε ι : Type) where
  | isMatch (method path : Bytes) (query : Option Bytes) (headers : HeaderMap)
  | check (cx : AccessContext)
  | access (op : Operation) (req : S3Request ι)
  | handle (op : Operation) (req : S3Request ι)
  | routeCheckAccess (req : S3Request (CheckedBody ε))
  | routeCall (req : S3Request (CheckedBody ε))

/-- What is answered. The checks of the access may change the request. -/
def ServiceCall.Answer (ο : Type) {ε ι : Type} : ServiceCall ε ι → Type
  | isMatch .. => Bool
  | check _ => S3Result Unit
  | access _ _ => S3Result (S3Request ι)
  | handle _ _ => S3Result ο
  | routeCheckAccess _ => S3Result (S3Request (CheckedBody ε))
  | routeCall _ => S3Result ο

/-- A program that makes these calls. -/
abbrev Serving (ε ι ο α : Type) := Prog (ServiceCall.Answer ο (ε := ε) (ι := ι)) S3Error α

/-- `CallContext` and the snapshot of its `S3Config`, with what is taken from other crates and from the
code of the single operations. `access` and `route` tell whether there is an `S3Access`, an `S3Route`. -/
structure Service (ε ι : Type) where
  environment : Environment ε
  v2 : V2Externals
  parsers : PostPolicy.Parsers
  forms : FormReader ε
  context : CallContext
  routing : RoutingSettings
  presignedUrlMaxExpiresSecs : Nat
  enableSigV2 : Bool
  allowPostSignature : Bool
  putObjectMaxSize : Option Nat
  normalizeContentLength : Bool
  customRouteMaxBodySize : Option Nat
  access : Bool
  route : Bool
  resolvePostObject : Bytes → Multipart (BodyError ε) →
    S3Result (PostStream (BodyError ε) × Option PostPolicy.PostPolicy × Multipart (BodyError ε))
  deserializeHttp : Operation → PreparedRequest ε → S3Result ι
  intoPutObjectInput : ι → ι
  intoPostObjectInput : ι → ι → ι
  extractOverriddenResponseHeaders : S3Request ι → S3Result HeaderMap

/-- What a request comes to: the answer of its operation, or that of the custom route. -/
inductive Reply (ο : Type) where
  | operation (op : Operation) (result : S3Result ο)
  | route (output : ο)

/-- `default_check` -/
def defaultCheck (cx : AccessContext) : S3Result Unit :=
  match cx.credentials with
  | some _ => .ok ()
  | none => .error (.saying .accessDenied (ascii "Signature is required"))

/-- `build_s3_request` -/
def buildS3Request {ε ι : Type} (input : ι) (a : Authenticated ε) : S3Request ι where
  input := input
  method := a.request.method
  path := a.request.path
  query := a.query
  headers := a.request.headers
  credentials := a.extensions.credentials
  region := a.extensions.region
  service := a.extensions.service

namespace Classified

variable {ε β : Type} (c : Classified β)

/-- The target of a request that no custom route has claimed. -/
def target (s3Path : S3Path) : Target β := ⟨c.request, c.hostHeader, c.vh, c.decodedUriPath, s3Path, c.qs⟩

/-- The bucket the host names. -/
def vhBucket : Option Bytes := c.vh.bind (·.bucket)

end Classified

/-- `is_multipart_post` -/
def isMultipartPost {ε β : Type} (E : Environment ε) (req : Request β) : Bool :=
  req.method == ascii "POST" && (extractMime E req.headers).any fun mime =>
    mime.type == ascii "multipart" && mime.subtype == ascii "form-data"

namespace Service

variable {ε ι ο : Type} (svc : Service ε ι)

section Preparing

/-- The settings of the checks of a request. -/
def checkSettings (vhBucket : Option Bytes) : CheckSettings :=
  ⟨svc.presignedUrlMaxExpiresSecs, svc.enableSigV2, svc.allowPostSignature, vhBucket⟩

/-- The checks of signatures of a request, but for the `Authorization` header of version 4. -/
def arms (vhBucket : Option Bytes) : OtherArms ε (Multipart (BodyError ε)) :=
  otherArms svc.environment (svc.checkSettings vhBucket) svc.v2 svc.parsers svc.forms

/-- The beginning of `prepare`, up to the question to the custom route. -/
def arrive (req : Request (ArrivingBody ε)) :
    S3Result (Request (ArrivingBody ε) × Option Bytes × Bytes × Option VirtualHost) := do
  let req := injectHostHeader req
  let hostHeader ← extractHost req svc.environment
  let some decodedUriPath := svc.environment.urlDecode req.path
    | .error (.bare .invalidURI)
  let vh ← parseRequestHost svc.routing.host hostHeader
  .ok (req, hostHeader, decodedUriPath, vh)

/-- `classify_request_path`: the path of a request that a custom route claims is not classified. -/
def classifyPath (decodedUriPath : Bytes) (vhBucket : Option Bytes) (customRouteHit : Bool) :
    S3Result (Option S3Path) :=
  if customRouteHit then .ok none
  else (classifyRequestPath svc.routing decodedUriPath vhBucket).map some

/-- The path and the query of a request. -/
def classify (req : Request (ArrivingBody ε)) (query hostHeader : Option Bytes) (decodedUriPath : Bytes)
    (vh : Option VirtualHost) (customRouteHit : Bool) : S3Result (Classified (ArrivingBody ε)) := do
  let s3Path ← svc.classifyPath decodedUriPath (vh.bind (·.bucket)) customRouteHit
  let qs ← extractQs svc.routing query
  .ok ⟨{ req with qs := qs.map (·.qs) }, query, hostHeader, vh, decodedUriPath, s3Path, qs⟩

/-- The operation as far as it can be told before the signature is checked. An error is one of the
declaration of the client, which is kept for later. -/
def resolveEarly (c : Classified (ArrivingBody ε)) : S3Result (Option Operation) :=
  match c.s3Path with
  | none => .ok none
  | some s3Path =>
    if isMultipartPost svc.environment c.request then .ok none
    else do
      match ← resolveOir svc.routing.minio c.request.method s3Path svc.routing.operationIdRouting c.qs with
      | some op => .ok (some op)
      | none =>
        match (c.target s3Path).route svc.routing with
        | .ok op => .ok (some op)
        | .error _ => .ok none

/-- Whether the request has a payload, as far as the check of its signature is concerned. -/
def requestHasPayload (c : Classified (ArrivingBody ε)) : Bool :=
  match c.s3Path with
  | none =>
    getUniqueHeaderStr c.request.headers (ascii "x-amz-content-sha256") != some emptyStringSha256Hash
  | some _ =>
    match svc.resolveEarly c with
    | .ok (some op) => op.hasRequestPayload
    | _ => true

/-- The signature of a classified request, checked. -/
def authenticate (c : Classified (ArrivingBody ε)) : S3Result (Authenticated ε) := do
  let contentLength ← extractContentLength svc.environment c.request.headers
  let (contentLength, req, extensions) ← verifySignature svc.environment (svc.arms c.vhBucket) svc.context
    c.request (c.vh.bind (·.region))
    (signatureContentLength c.request.headers contentLength (svc.requestHasPayload c))
  .ok { c with request := req, contentLength := contentLength, extensions := extensions }

/-- The resolution of the operation behind the check of the signature: what was kept for later comes first,
then what was found before, then forms, and then the router again. -/
def selectOperation (early : S3Result (Option Operation)) (a : Authenticated ε) (s3Path : S3Path) :
    S3Result (Operation × PreparedRequest ε) := do
  match ← early with
  | some op => .ok (op, { a with postObject := none })
  | none =>
    match a.extensions.multipart.filter fun _ => a.request.method == ascii "POST" with
    | some form =>
      match s3Path with
      | .root => .error unknownOperation
      | .bucket bucket => do
        let (stream, policy, form) ← svc.resolvePostObject bucket form
        .ok (.postObject, { a with
          extensions := { a.extensions with multipart := some form }
          postObject := some (stream, policy) })
      | .object _ _ => .error (.bare (.other (ascii "MethodNotAllowed")))
    | none => do
      let op ← (a.target s3Path).resolveOperation svc.routing
      .ok (op, { a with postObject := none })

/-- The context in which the access to an operation is checked. -/
def accessContext (a : Authenticated ε) (op : Operation) : AccessContext where
  credentials := a.extensions.credentials
  s3Path := a.s3Path
  s3Op := op.name
  method := a.request.method
  path := a.request.path
  query := a.query
  headers := a.request.headers

/-- `authorize` -/
def authorize (op : Operation) (a : Authenticated ε) : Serving ε ι ο Unit :=
  if svc.context.auth.isNone then pure ()
  else if svc.access then .call (.check (accessContext a op)) .ofExcept
  else .ofExcept (defaultCheck (accessContext a op))

/-- `prepare_streaming_body` -/
def prepareStreamingBody (p : PreparedRequest ε) : S3Result (PreparedRequest ε) := do
  let contentLength ← extractContentLength svc.environment p.request.headers
  let knownLength := contentLength.or (p.request.body.remainingLength svc.environment.externals.toCrypto).exact
  if knownLength.any fun size => svc.putObjectMaxSize.any fun limit => size > limit then
    .error (.saying (.other (ascii "EntityTooLarge"))
      (ascii "Request body exceeds the configured maximum object size."))
  else
    let body := { p.request.body with remainingLimit := svc.putObjectMaxSize }
    let headers := if svc.normalizeContentLength && contentLength.isNone then
        match knownLength with
        | some known => p.request.headers.insertNew (ascii "content-length") (Bytes.decimal known)
        | none => p.request.headers
      else p.request.headers
    .ok { p with request := { p.request with headers := headers, body := body } }

/-- The body of a request, made ready for its operation. -/
def prepareBody (op : Operation) (p : PreparedRequest ε) : S3Result (PreparedRequest ε) :=
  if op.needsFullBody then do
    let bytes ← extractFullBody svc.environment p.contentLength p.request.body
      svc.context.config.xmlMaxBodySize
    .ok { p with request := { p.request with body :=
      if p.request.body.bytes.isSome then p.request.body else .ofBytes bytes } }
  else if op.hasStreamingBody then svc.prepareStreamingBody p
  else .ok p

/-- `Prepare` -/
inductive Preparation (ε : Type) where
  | s3 (op : Operation) (p : PreparedRequest ε)
  | customRoute (a : Authenticated ε)

/-- What comes behind the check of the signature. -/
def prepareOperation (early : S3Result (Option Operation)) (a : Authenticated ε) :
    Serving ε ι ο (Preparation ε) :=
  match a.s3Path with
  | none => pure (.customRoute a)
  | some s3Path =>
    .ofExcept (svc.selectOperation early a s3Path) >>= fun (op, p) =>
      svc.authorize op p.toAuthenticated >>= fun _ =>
        .ofExcept (svc.prepareBody op p) >>= fun p => pure (.s3 op p)

/-- Whether the custom route claims a request. -/
def askRoute (req : Request (ArrivingBody ε)) (query : Option Bytes) : Serving ε ι ο Bool :=
  if svc.route then .call (.isMatch req.method req.path query req.headers) .ret
  else pure false

/-- `prepare` -/
def prepare (req : Request (ArrivingBody ε)) (query : Option Bytes) : Serving ε ι ο (Preparation ε) :=
  .ofExcept (svc.arrive req) >>= fun (req, hostHeader, decodedUriPath, vh) =>
    svc.askRoute req query >>= fun customRouteHit =>
      .ofExcept (svc.classify req query hostHeader decodedUriPath vh customRouteHit) >>= fun c =>
        .ofExcept (svc.authenticate c) >>= svc.prepareOperation (svc.resolveEarly c)

end Preparing

section Calling

/-- The check of the access to one operation, when there is an `S3Access`. -/
def checkOperation (op : Operation) (req : S3Request ι) : Serving ε ι ο (S3Request ι) :=
  if svc.access then .call (.access op req) .ofExcept else pure req

/-- An operation of the service itself. -/
def handle (op : Operation) (req : S3Request ι) : Serving ε ι ο (Reply ο) :=
  .call (.handle op req) fun result => .ret (.operation op result)

/-- `Operation::call` -/
def callOperation (op : Operation) (p : PreparedRequest ε) : Serving ε ι ο (Reply ο) :=
  .ofExcept (svc.deserializeHttp op p) >>= fun input =>
    match op with
    | .postObject =>
      svc.checkOperation .putObject (buildS3Request (svc.intoPutObjectInput input) p.toAuthenticated) >>=
        fun putReq =>
          svc.checkOperation .postObject (putReq.mapInput (svc.intoPostObjectInput input)) >>=
            handle .postObject
    | .getObject =>
      svc.checkOperation .getObject (buildS3Request input p.toAuthenticated) >>= fun req =>
        .ofExcept (svc.extractOverriddenResponseHeaders req) >>= fun _ => handle .getObject req
    | op => svc.checkOperation op (buildS3Request input p.toAuthenticated) >>= handle op

/-- `reject_custom_route_body_too_large` -/
def rejectCustomRouteBodyTooLarge (contentLength : Option Nat) : S3Result Unit :=
  if contentLength.any fun n => svc.customRouteMaxBodySize.any fun limit => n > limit then
    .error (.saying (.other (ascii "EntityTooLarge"))
      (ascii "Custom route request body exceeds the configured maximum size."))
  else .ok ()

/-- The arm of `call` for a custom route. -/
def callRoute (a : Authenticated ε) : Serving ε ι ο (Reply ο) :=
  .ofExcept (extractContentLength svc.environment a.request.headers) >>= fun contentLength =>
    .ofExcept (svc.rejectCustomRouteBodyTooLarge contentLength) >>= fun _ =>
      let body := { a.request.body with remainingLimit := svc.customRouteMaxBodySize }
      .call (.routeCheckAccess (buildS3Request body a)) fun checked =>
        .ofExcept checked >>= fun req =>
          .call (.routeCall req) fun result => .ofExcept (result.map .route)

/-- `call`, up to the serialization of errors. -/
def call (req : Request (ArrivingBody ε)) (query : Option Bytes) : Serving ε ι ο (Reply ο) :=
  svc.prepare req query >>= fun
    | .s3 op p => svc.callOperation op p
    | .customRoute a => svc.callRoute a

end Calling

end Service

end S3s.Ops
