import S3s.Http.Request
import S3s.Routing.Path

/-! # Virtual hosts

The `Host` header of a request, read against the base domains of the service: the
bucket in front of a base domain, or a host of its own that is taken for a bucket.
Ports take no part in the comparison with a base domain.
-/
namespace S3s.Routing
open Text Http

/-- `VirtualHost` -/
structure VirtualHost where
  domain : Bytes
  bucket : Option Bytes
  region : Option Bytes
deriving DecidableEq

/-- `VirtualHost::new` -/
def VirtualHost.new (domain : Bytes) : VirtualHost := ⟨domain, none, none⟩

/-- `VirtualHost::with_bucket` -/
def VirtualHost.withBucket (vh : VirtualHost) (bucket : Bytes) : VirtualHost :=
  { vh with bucket := some bucket }

/-- `S3Host`: whatever parses the `Host` header. -/
abbrev S3Host := Bytes → S3Result VirtualHost

/-- `DomainError` -/
inductive DomainError where
  | invalidDomain
  | overlappingSubdomains
  | zeroDomains
deriving DecidableEq

/-- `strip_port_suffix` -/
def stripPortSuffix (host : Bytes) : Bytes :=
  if host.getLast? = some 93 then host
  else
    match rsplitOnce 58 host with
    | some (h, port) =>
      if !port.isEmpty && port.all Bytes.isDigit && (parseU16 port).isSome then h else host
    | none => host

def isAlphanumeric (b : UInt8) : Bool := (97 ≤ b && b ≤ 122) || (65 ≤ b && b ≤ 90) || Bytes.isDigit b

/-- The labels of a domain, none of them empty. -/
def isDotted (s : Bytes) : Bool :=
  (s.splitOn 46).all fun part => !part.isEmpty && part.all fun b => isAlphanumeric b || b == 45

/-- `is_valid_domain` -/
def isValidDomain (s : Bytes) : Bool :=
  if s.isEmpty then false
  else
    match splitOnce 58 s with
    | some (host, port) => !port.isEmpty && (parseU16 port).isSome && isDotted host
    | none => isDotted s

/-- `is_subdomain_of` -/
def isSubdomainOf (host baseDomain : Bytes) : Bool :=
  (stripSuffix baseDomain host).any fun rest => rest.getLast? == some 46

/-- `is_overlapping` -/
def isOverlapping (a b : Bytes) : Bool :=
  let a := stripPortSuffix a
  let b := stripPortSuffix b
  a == b || isSubdomainOf a b || isSubdomainOf b a

/-- `parse_host_header` -/
def parseHostHeader (baseDomain host : Bytes) : Option VirtualHost :=
  let hostPart := stripPortSuffix host
  let basePart := stripPortSuffix baseDomain
  if hostPart = basePart then some (.new baseDomain)
  else
    match (stripSuffix basePart hostPart).bind (stripSuffix [46]) with
    | some bucket => some ((VirtualHost.new baseDomain).withBucket bucket)
    | none => none

/-- `parse_cname_fallback`, with what the set of patterns matches. -/
def parseCnameFallback (host : Bytes) (pathStyleHosts : Bytes → Bool) : Option VirtualHost :=
  if !isValidDomain host then none
  else if pathStyleHosts host then some (.new host)
  else
    let bucket := Bytes.lowercase host
    if checkBucketName bucket then some ((VirtualHost.new host).withBucket bucket)
    else some (.new host)

def invalidHostHeader : S3Error := invalidRequest (ascii "Invalid host header")

/-- `SingleDomain` -/
structure SingleDomain where
  baseDomain : Bytes
  cnameFallback : Bool
  valid : isValidDomain baseDomain = true

namespace SingleDomain

/-- `SingleDomain::new` -/
def new (baseDomain : Bytes) : Except DomainError SingleDomain :=
  if h : isValidDomain baseDomain = true then .ok ⟨baseDomain, true, h⟩ else .error .invalidDomain

/-- `SingleDomain::with_cname_fallback` -/
def withCnameFallback (s : SingleDomain) (enabled : Bool) : SingleDomain :=
  { s with cnameFallback := enabled }

/-- `parse_host_header` of a `SingleDomain` -/
def parseHostHeader (s : SingleDomain) : S3Host := fun host =>
  match Routing.parseHostHeader s.baseDomain host with
  | some vh => .ok vh
  | none =>
    if isValidDomain host then
      if s.cnameFallback then .ok ((VirtualHost.new host).withBucket (Bytes.lowercase host))
      else .ok (.new host)
    else .error invalidHostHeader

end SingleDomain

/-- `MultiDomain`. No base domain is one of another, or equal to it. -/
structure MultiDomain where
  baseDomains : List Bytes
  pathStyleHosts : Bytes → Bool
  valid : ∀ domain ∈ baseDomains, isValidDomain domain = true
  apart : baseDomains.Pairwise fun other domain => isOverlapping domain other = false
  nonempty : baseDomains ≠ []

namespace MultiDomain

/-- The loop of `MultiDomain::new`: each domain against those before it. -/
def collect (v : List Bytes) : List Bytes → Except DomainError (List Bytes)
  | [] => .ok v
  | domain :: rest =>
    if !isValidDomain domain then .error .invalidDomain
    else if v.any (isOverlapping domain) then .error .overlappingSubdomains
    else collect (v ++ [domain]) rest

theorem collect_ok {v domains collected : List Bytes} (h : collect v domains = .ok collected)
    (hvalid : ∀ domain ∈ v, isValidDomain domain = true)
    (hapart : v.Pairwise fun other domain => isOverlapping domain other = false) :
    (∀ domain ∈ collected, isValidDomain domain = true) ∧
      collected.Pairwise fun other domain => isOverlapping domain other = false := by
  induction domains generalizing v with
  | nil =>
    cases h
    exact ⟨hvalid, hapart⟩
  | cons domain rest ih =>
    rw [collect] at h
    split at h
    · cases h
    · next hdomain =>
      split at h
      · cases h
      · next hoverlap =>
        apply ih h
        · intro d hd
          rcases List.mem_append.mp hd with hd | hd
          · exact hvalid d hd
          · rw [List.mem_singleton.mp hd]
            simpa using hdomain
        · rw [List.pairwise_append]
          refine ⟨hapart, List.pairwise_singleton _ _, ?_⟩
          intro other hother d hd
          rw [List.mem_singleton.mp hd]
          rw [List.any_eq_true, not_exists] at hoverlap
          simpa [hother] using hoverlap other

/-- `MultiDomain::new` -/
def new (baseDomains : List Bytes) : Except DomainError MultiDomain :=
  match h : collect [] baseDomains with
  | .error e => .error e
  | .ok v =>
    if hne : v = [] then .error .zeroDomains
    else
      have hv := collect_ok h (by simp) .nil
      .ok ⟨v, fun _ => false, hv.1, hv.2, hne⟩

/-- `MultiDomain::with_path_style_hosts` -/
def withPathStyleHosts (m : MultiDomain) (pathStyleHosts : Bytes → Bool) : MultiDomain :=
  { m with pathStyleHosts := pathStyleHosts }

/-- `parse_host_header` of a `MultiDomain` -/
def parseHostHeader (m : MultiDomain) : S3Host := fun host =>
  match m.baseDomains.findSome? fun baseDomain => Routing.parseHostHeader baseDomain host with
  | some vh => .ok vh
  | none =>
    match parseCnameFallback host m.pathStyleHosts with
    | some vh => .ok vh
    | none => .error invalidHostHeader

end MultiDomain

end S3s.Routing
