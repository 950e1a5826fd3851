import S3s.Ops.Prepare
import S3s.Routing.Host
import S3s.Routing.Router

/-! # The target of a request

The part of `prepare` that finds out what a request is about: its host, the bucket
the host names, the path in the storage, the query, and the operation. No custom route
claims the request, and it is not a form.
-/
namespace S3s.Http

/-- A header that is inserted where there is none of its name. -/
def HeaderMap.insertNew (hs : HeaderMap) (name value : Bytes) : HeaderMap where
  entries := hs.entries ++ [(Bytes.lowercase name, value)]
  lowercase e he := by
    rcases List.mem_append.mp he with he | he
    · exact hs.lowercase e he
    · rw [List.mem_singleton.mp he]
      exact Bytes.lowercase_lowercase name

end S3s.Http

namespace S3s.Ops
open Http SigV4 Routing

/-- What the routing of a request reads beside it: two fields of `CallContext`, two of `S3Config`,
whether the build has the feature for MinIO, and the decoder of query strings. -/
structure RoutingSettings where
  host : Option S3Host
  validation : Option (Bytes → Bool)
  normalizeForwardSlashPath : Bool
  operationIdRouting : Bool
  minio : Bool
  decodeQuery : Bytes → Option (List (Bytes × Bytes))

section Host

variable {β : Type} (req : Request β)

/-- `extract_http2_authority` -/
def extractHttp2Authority : Option Bytes :=
  if req.version = .http2 ∨ req.version = .http3 then req.authority else none

/-- Whether a byte may stand in a header value. -/
def isHeaderValueByte (b : UInt8) : Bool := (32 ≤ b && b != 127) || b == 9

/-- Whether `to_str` takes a byte of a header value. -/
def isVisibleAscii (b : UInt8) : Bool := (32 ≤ b && b < 127) || b == 9

/-- `inject_host_header` -/
def injectHostHeader : Request β :=
  if containsKey req.headers (ascii "host") then req
  else
    match extractHttp2Authority req with
    | some authority =>
      if authority.all isHeaderValueByte then
        { req with headers := req.headers.insertNew (ascii "host") authority }
      else req
    | none => req

/-- `extract_host` -/
def extractHost {ε : Type} (E : Environment ε) : S3Result (Option Bytes) :=
  match req.headers.getAll (ascii "host") with
  | [] => .ok (extractHttp2Authority req)
  | [val] =>
    if val.all isVisibleAscii then .ok (some val)
    else
      .error (.saying .invalidRequest (ascii "invalid header: Host: " ++ E.debugHeaderValue val))
  | _ :: _ :: _ => .error (invalidRequest (ascii "duplicate header: Host"))

end Host

/-- `is_socket_addr_or_ip_addr` -/
def isSocketAddrOrIpAddr (host : Bytes) : Bool := Text.isSocketAddr host || Text.isIpAddr host

/-- `parse_request_host` -/
def parseRequestHost (host : Option S3Host) (hostHeader : Option Bytes) :
    S3Result (Option VirtualHost) :=
  match hostHeader, host with
  | some hostHeader, some s3Host =>
    if isSocketAddrOrIpAddr hostHeader then .ok none
    else do
      let vh ← s3Host hostHeader
      .ok (some vh)
  | _, _ => .ok none

/-- `convert_parse_s3_path_error` -/
def convertParseS3PathError : ParseS3PathError → S3Error
  | .invalidPath => .bare .invalidURI
  | .invalidBucketName => .bare (.other (ascii "InvalidBucketName"))
  | .keyTooLong => .bare (.other (ascii "KeyTooLongError"))

/-- `classify_request_path` of a request that no custom route has claimed. -/
def classifyRequestPath (R : RoutingSettings) (decodedUriPath : Bytes) (vhBucket : Option Bytes) :
    S3Result S3Path :=
  match parseVirtualHostedStyle (R.validation.getD checkBucketName) R.normalizeForwardSlashPath
      vhBucket decodedUriPath with
  | .ok path => .ok path
  | .error err => .error (convertParseS3PathError err)

/-- `extract_qs` -/
def extractQs (R : RoutingSettings) : Option Bytes → S3Result (Option OrderedQs)
  | none => .ok none
  | some query =>
    match OrderedQs.parse R.decodeQuery query with
    | some qs => .ok (some qs)
    | none => .error (.bare .invalidURI)

/-- `looks_like_virtual_hosted_style` -/
def looksLikeVirtualHostedStyle (host : Bytes) : Bool :=
  let hostPart := match Text.rsplitOnce 58 host with
    | some (h, port) => if port.all Bytes.isDigit then h else host
    | none => host
  let hostNoBracket :=
    ((Text.stripPrefix 91 hostPart).bind (Text.stripSuffix [93])).getD hostPart
  if Text.isIpAddr hostNoBracket then false
  else 3 ≤ ((hostNoBracket.splitOn 46).filter fun s => !s.isEmpty).length

/-- `VIRTUAL_HOSTED_STYLE_HINT` -/
def virtualHostedStyleHint : Bytes :=
  ascii "The request appears to use virtual-hosted-style addressing " ++
    ascii "(e.g., Host: bucket.domain) which may not be supported by this endpoint. " ++
    ascii "If so, try path-style requests instead " ++
    ascii "(e.g., /<bucket> rather than / with host bucket.domain)."

/-- What `prepare` knows of a request when it checks its signature. -/
structure Target (β : Type) where
  request : Request β
  hostHeader : Option Bytes
  vh : Option VirtualHost
  decodedUriPath : Bytes
  s3Path : S3Path
  qs : Option OrderedQs

variable {ε β : Type}

/-- The first part of `prepare`, with the query of the request. -/
def prepareTarget (E : Environment ε) (R : RoutingSettings) (req : Request β)
    (query : Option Bytes) : S3Result (Target β) := do
  let req := injectHostHeader req
  let hostHeader ← extractHost req E
  let some decodedUriPath := E.urlDecode req.path
    | .error (.bare .invalidURI)
  let vh ← parseRequestHost R.host hostHeader
  let s3Path ← classifyRequestPath R decodedUriPath (vh.bind (·.bucket))
  let qs ← extractQs R query
  .ok ⟨{ req with qs := qs.map (·.qs) }, hostHeader, vh, decodedUriPath, s3Path, qs⟩

namespace Target

variable (R : RoutingSettings) (t : Target β)

/-- The bucket the host names. -/
def vhBucket : Option Bytes := t.vh.bind (·.bucket)

/-- `resolve_route` of the request. -/
def route : S3Result Operation :=
  resolveRoute R.minio t.request.method t.request.headers t.s3Path t.qs

/-- `resolve_operation` -/
def resolveOperation : S3Result Operation :=
  match t.route R with
  | .ok op => .ok op
  | .error err =>
    if err.code = .notImplemented ∧ R.host = none ∧ t.hostHeader.any looksLikeVirtualHostedStyle then
      .error (.saying .notImplemented virtualHostedStyleHint)
    else .error err

/-- The operation of a request that is no form: the one its client declares, or else the one it is
routed to. -/
def operation : S3Result Operation := do
  match ← resolveOir R.minio t.request.method t.s3Path R.operationIdRouting t.qs with
  | some op => .ok op
  | none => t.resolveOperation R

/-- The client declares the operation, and declarations count. -/
def Declares : Prop :=
  R.operationIdRouting = true ∧ (t.qs.getD .empty).lookup (ascii "x-id") ≠ .absent

end Target

end S3s.Ops
