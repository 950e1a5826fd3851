import S3s.Ops.ReplayWindows
import S3s.Ops.Service

/-! # Complete mediation

Whatever the custom route, the access checks and the operations answer, nothing of the service is reached
around its checks. The calls of `call` are looked at in their order: each one is allowed by those before it.
-/
namespace S3s.Ops
open Http SigV4 Routing Programs

/-- A call of a service, with its answer. -/
abbrev ServiceEvent (ε ι ο : Type) := Answered (ServiceCall.Answer ο (ε := ε) (ι := ι))

/-- The calls that do what the client asks for. -/
def ServiceCall.Performs {ε ι : Type} : ServiceCall ε ι → Prop
  | handle .. => True
  | routeCall _ => True
  | _ => False

namespace Service

variable {ε ι ο : Type} (svc : Service ε ι)

/-- The credentials of a request are good: the provider has this secret key for the access key, and the
request is signed with it, as it was before its signature was checked. -/
def Vouched (c : Classified (ArrivingBody ε)) (a : Authenticated ε) : Prop :=
  ∀ accessKey secretKey, a.extensions.credentials = some (accessKey, secretKey) →
    ∃ decodedUriPath contentLength decodedContentLength,
      svc.environment.urlDecode c.request.path = some decodedUriPath ∧
      (signatureContext svc.environment svc.context c.request decodedUriPath contentLength
        decodedContentLength).Provides accessKey secretKey ∧
      (signatureContext svc.environment svc.context c.request decodedUriPath contentLength
        decodedContentLength).Signed svc.environment (svc.checkSettings c.vhBucket) svc.v2 svc.parsers
          accessKey secretKey a.extensions.multipart

/-- Whether the custom route has claimed the request. -/
def Routed (before : List (ServiceEvent ε ι ο)) (hit : Bool) : Prop :=
  if svc.route then ∃ method path query headers, ⟨.isMatch method path query headers, hit⟩ ∈ before
  else hit = false

/-- A request that has come out of the check of its signature, and the custom route has been asked. -/
structure Identified (req : Request (ArrivingBody ε)) (query : Option Bytes)
    (before : List (ServiceEvent ε ι ο)) (c : Classified (ArrivingBody ε)) (a : Authenticated ε) : Prop where
  arrived : ∃ arrived hostHeader decodedUriPath vh,
    svc.arrive req = .ok (arrived, hostHeader, decodedUriPath, vh) ∧
      svc.classify arrived query hostHeader decodedUriPath vh a.s3Path.isNone = .ok c
  routed : svc.Routed before a.s3Path.isNone
  authenticated : svc.authenticate c = .ok a
  vouched : svc.Vouched c a

/-- The operation may be performed for this request: where there are accounts, the access check has agreed,
or, when the service has none, the request is signed. -/
def Granted (before : List (ServiceEvent ε ι ο)) (a : Authenticated ε) (op : Operation) : Prop :=
  svc.context.auth.isSome →
    if svc.access then ⟨.check (accessContext a op), .ok ()⟩ ∈ before
    else a.extensions.credentials.isSome

/-- A request that is ready for its operation, with all that it has been through. -/
structure Admission (req : Request (ArrivingBody ε)) (query : Option Bytes)
    (before : List (ServiceEvent ε ι ο)) (op : Operation) where
  classified : Classified (ArrivingBody ε)
  authenticated : Authenticated ε
  s3Path : S3Path
  selected : PreparedRequest ε
  ready : PreparedRequest ε
  identified : svc.Identified req query before classified authenticated
  path : authenticated.s3Path = some s3Path
  selects : svc.selectOperation (svc.resolveEarly classified) authenticated s3Path = .ok (op, selected)
  granted : svc.Granted before selected.toAuthenticated op
  prepares : svc.prepareBody op selected = .ok ready
  credentials : ready.extensions.credentials = authenticated.extensions.credentials

/-- The check of the access to one operation has made `given` of what it was asked. -/
def Passed (before : List (ServiceEvent ε ι ο)) (op : Operation) (asked given : S3Request ι) : Prop :=
  if svc.access then ⟨.access op asked, .ok given⟩ ∈ before else given = asked

/-- What the access to an operation is checked with. The access to the upload of a form is first checked as
that of a plain upload. -/
def Asked (before : List (ServiceEvent ε ι ο)) (op checked : Operation) (p : PreparedRequest ε) (input : ι)
    (asked : S3Request ι) : Prop :=
  if op = .postObject then
    checked = .putObject ∧ asked = buildS3Request (svc.intoPutObjectInput input) p.toAuthenticated ∨
      checked = .postObject ∧ ∃ putReq, asked = putReq.mapInput (svc.intoPostObjectInput input) ∧
        svc.Passed before .putObject (buildS3Request (svc.intoPutObjectInput input) p.toAuthenticated) putReq
  else checked = op ∧ asked = buildS3Request input p.toAuthenticated

/-- When a call is allowed behind others. -/
def Allowed (req : Request (ArrivingBody ε)) (query : Option Bytes) (before : List (ServiceEvent ε ι ο)) :
    ServiceCall ε ι → Prop
  | .isMatch .. => before = []
  | .check cx => svc.context.auth.isSome ∧ ∃ c a s3Path op p, svc.Identified req query before c a ∧
      a.s3Path = some s3Path ∧ svc.selectOperation (svc.resolveEarly c) a s3Path = .ok (op, p) ∧
      p.extensions.credentials = a.extensions.credentials ∧ cx = accessContext p.toAuthenticated op
  | .access checked asked => ∃ op, ∃ w : svc.Admission req query before op, ∃ input,
      svc.deserializeHttp op w.ready = .ok input ∧ svc.Asked before op checked w.ready input asked
  | .handle op given => ∃ w : svc.Admission req query before op, ∃ input asked,
      svc.deserializeHttp op w.ready = .ok input ∧ svc.Asked before op op w.ready input asked ∧
      svc.Passed before op asked given
  | .routeCheckAccess asked => ∃ c a body, svc.Identified req query before c a ∧ a.s3Path = none ∧
      asked = buildS3Request body a
  | .routeCall given => ∃ c a body, svc.Identified req query before c a ∧ a.s3Path = none ∧
      ⟨.routeCheckAccess (buildS3Request body a), .ok given⟩ ∈ before

variable {svc} {req : Request (ArrivingBody ε)} {query : Option Bytes}
  {before more : List (ServiceEvent ε ι ο)}

section Later

/-- What the custom route has said, it has said. -/
theorem Routed.later {hit : Bool} (h : svc.Routed before hit) : svc.Routed (before ++ more) hit := by
  unfold Routed at h ⊢
  split_ifs at h ⊢
  · obtain ⟨method, path, query, headers, hmem⟩ := h
    exact ⟨method, path, query, headers, List.mem_append_left _ hmem⟩
  · exact h

theorem Identified.later {c : Classified (ArrivingBody ε)} {a : Authenticated ε}
    (h : svc.Identified req query before c a) : svc.Identified req query (before ++ more) c a :=
  ⟨h.arrived, h.routed.later, h.authenticated, h.vouched⟩

theorem Granted.later {a : Authenticated ε} {op : Operation} (h : svc.Granted before a op) :
    svc.Granted (before ++ more) a op := by
  intro hauth
  have hgranted := h hauth
  split_ifs at hgranted ⊢
  · exact List.mem_append_left _ hgranted
  · exact hgranted

/-- An admission holds on. -/
def Admission.later {op : Operation} (w : svc.Admission req query before op) :
    svc.Admission req query (before ++ more) op :=
  { w with identified := w.identified.later, granted := w.granted.later }

theorem Passed.later {op : Operation} {asked given : S3Request ι} (h : svc.Passed before op asked given) :
    svc.Passed (before ++ more) op asked given := by
  unfold Passed at h ⊢
  split_ifs at h ⊢
  · exact List.mem_append_left _ h
  · exact h

end Later

section Preparing

/-- The credentials of the request are those that the check has found. -/
theorem applyCredentials_credentials {E : Environment ε} {found : Option CredentialsExt}
    {vhRegion region service : Option Bytes} {credentials : Option (Bytes × Bytes)}
    (h : applyCredentials E found vhRegion = .ok (credentials, region, service)) :
    credentials = found.map fun c => (c.accessKey, c.secretKey) := by
  unfold applyCredentials at h
  obtain ⟨credRegion, -, h⟩ := bind_eq_ok.mp h
  split at h
  · cases h
    rfl
  · obtain ⟨_, -, h⟩ := bind_eq_ok.mp h
    cases h
    rfl

/-- Credentials come out of the check with a signature that is made with them. -/
theorem authenticate_vouched {c : Classified (ArrivingBody ε)} {a : Authenticated ε}
    (h : svc.authenticate c = .ok a) : svc.Vouched c a := by
  unfold authenticate at h
  obtain ⟨declared, -, h⟩ := bind_eq_ok.mp h
  obtain ⟨⟨length, request, extensions⟩, hverify, h⟩ := bind_eq_ok.mp h
  cases h
  intro accessKey secretKey hcredentials
  unfold verifySignature at hverify
  split at hverify
  · next decodedUriPath hpath =>
    obtain ⟨decodedContentLength, -, hverify⟩ := bind_eq_ok.mp hverify
    obtain ⟨outcome, hcheck, hverify⟩ := bind_eq_ok.mp hverify
    obtain ⟨⟨credentials, region, service⟩, happly, hverify⟩ := bind_eq_ok.mp hverify
    cases hverify
    rw [applyCredentials_credentials happly] at hcredentials
    obtain ⟨found, hfound, hpair⟩ := Option.map_eq_some_iff.mp hcredentials
    cases hpair
    exact ⟨decodedUriPath, _, _, hpath, SignatureContext.check_signed hcheck hfound⟩
  · cases hverify

/-- The check of the signature leaves the path alone. -/
theorem authenticate_s3Path {c : Classified (ArrivingBody ε)} {a : Authenticated ε}
    (h : svc.authenticate c = .ok a) : a.s3Path = c.s3Path := by
  unfold authenticate at h
  obtain ⟨_, -, h⟩ := bind_eq_ok.mp h
  obtain ⟨_, -, h⟩ := bind_eq_ok.mp h
  cases h
  rfl

/-- Only the custom route leaves a request without a path. -/
theorem classify_isNone {arrived : Request (ArrivingBody ε)} {hostHeader : Option Bytes}
    {decodedUriPath : Bytes} {vh : Option VirtualHost} {hit : Bool} {c : Classified (ArrivingBody ε)}
    (h : svc.classify arrived query hostHeader decodedUriPath vh hit = .ok c) : c.s3Path.isNone = hit := by
  unfold classify at h
  obtain ⟨s3Path, hs3Path, h⟩ := bind_eq_ok.mp h
  obtain ⟨qs, -, h⟩ := bind_eq_ok.mp h
  cases h
  unfold classifyPath at hs3Path
  split_ifs at hs3Path with hhit
  · cases hs3Path
    exact hhit.symm
  · cases hclassified : classifyRequestPath svc.routing decodedUriPath (vh.bind (·.bucket)) with
    | error e =>
      rw [hclassified] at hs3Path
      cases hs3Path
    | ok path =>
      rw [hclassified] at hs3Path
      cases hs3Path
      exact (Bool.eq_false_iff.mpr hhit).symm

/-- What is classified is the request that has arrived, with the host it names. -/
theorem Identified.request {c : Classified (ArrivingBody ε)} {a : Authenticated ε}
    (h : svc.Identified req query before c a) : ∃ qs, extractQs svc.routing query = .ok qs ∧
      c.request = { injectHostHeader req with qs := qs.map (·.qs) } := by
  obtain ⟨arrived, hostHeader, decodedUriPath, vh, harrive, hclassify⟩ := h.arrived
  unfold arrive at harrive
  obtain ⟨_, -, harrive⟩ := bind_eq_ok.mp harrive
  split at harrive
  · obtain ⟨_, -, harrive⟩ := bind_eq_ok.mp harrive
    cases harrive
    unfold classify at hclassify
    obtain ⟨_, -, hclassify⟩ := bind_eq_ok.mp hclassify
    obtain ⟨qs, hqs, hclassify⟩ := bind_eq_ok.mp hclassify
    cases hclassify
    exact ⟨qs, hqs, rfl⟩
  · cases harrive

/-- The choice of the operation leaves the credentials alone. -/
theorem selectOperation_credentials {early : S3Result (Option Operation)} {a : Authenticated ε}
    {s3Path : S3Path} {op : Operation} {p : PreparedRequest ε}
    (h : svc.selectOperation early a s3Path = .ok (op, p)) :
    p.extensions.credentials = a.extensions.credentials := by
  unfold selectOperation at h
  obtain ⟨resolved, -, h⟩ := bind_eq_ok.mp h
  split at h
  · cases h
    rfl
  · split at h
    · split at h
      · cases h
      · obtain ⟨_, -, h⟩ := bind_eq_ok.mp h
        cases h
        rfl
      · cases h
    · obtain ⟨_, -, h⟩ := bind_eq_ok.mp h
      cases h
      rfl

theorem prepareStreamingBody_credentials {p ready : PreparedRequest ε}
    (h : svc.prepareStreamingBody p = .ok ready) :
    ready.extensions.credentials = p.extensions.credentials := by
  unfold prepareStreamingBody at h
  obtain ⟨_, -, h⟩ := bind_eq_ok.mp h
  dsimp only at h
  split_ifs at h
  · cases h
    rfl
  · cases h
    rfl

/-- So does the preparation of the body. -/
theorem prepareBody_credentials {op : Operation} {p ready : PreparedRequest ε}
    (h : svc.prepareBody op p = .ok ready) :
    ready.extensions.credentials = p.extensions.credentials := by
  unfold prepareBody at h
  split at h
  · obtain ⟨_, -, h⟩ := bind_eq_ok.mp h
    cases h
    rfl
  · split at h
    · exact prepareStreamingBody_credentials h
    · cases h
      rfl

end Preparing

section Calls

/-- Nothing has been performed yet. -/
def Quiet (before : List (ServiceEvent ε ι ο)) : Prop := ∀ e ∈ before, ¬e.1.Performs

/-- A call that nothing has been performed before, and that is allowed. -/
def Mediated (svc : Service ε ι) (req : Request (ArrivingBody ε)) (query : Option Bytes)
    (before : List (ServiceEvent ε ι ο)) (c : ServiceCall ε ι) : Prop :=
  Quiet before ∧ svc.Allowed req query before c

theorem Quiet.snoc {c : ServiceCall ε ι} {x : c.Answer ο} (h : Quiet before) (hc : ¬c.Performs) :
    Quiet (before ++ [(⟨c, x⟩ : ServiceEvent ε ι ο)]) := by
  intro e he
  rcases List.mem_append.mp he with he | he
  · exact h e he
  · rw [List.mem_singleton.mp he]
    exact hc

/-- What `prepare` comes to. -/
def Ready (svc : Service ε ι) (req : Request (ArrivingBody ε)) (query : Option Bytes)
    (before : List (ServiceEvent ε ι ο)) : Preparation ε → Prop
  | .s3 op p => ∃ w : svc.Admission req query before op, w.ready = p
  | .customRoute a => ∃ c, svc.Identified req query before c a ∧ a.s3Path = none

theorem askRoute_ensures {arrived : Request (ArrivingBody ε)} :
    (svc.askRoute arrived query : Serving ε ι ο Bool).Ensures (svc.Mediated req query)
      (fun before hit => Quiet before ∧ svc.Routed before hit) [] := by
  unfold askRoute
  split_ifs with hroute
  · have hquiet : Quiet ([] : List (ServiceEvent ε ι ο)) := fun e he => (List.not_mem_nil he).elim
    refine ⟨⟨hquiet, rfl⟩, fun hit => ⟨hquiet.snoc id, ?_⟩⟩
    unfold Routed
    rw [if_pos hroute]
    exact ⟨_, _, _, _, List.mem_append_right _ List.mem_cons_self⟩
  · refine ⟨fun e he => (List.not_mem_nil he).elim, ?_⟩
    unfold Routed
    rw [if_neg hroute]

/-- The access to an operation is granted by the check of it, or by the signature where there is none. -/
theorem authorize_ensures {op : Operation} {a : Authenticated ε} (hquiet : Quiet before)
    (hcheck : svc.context.auth.isSome → svc.Allowed req query before (.check (accessContext a op))) :
    (svc.authorize op a : Serving ε ι ο Unit).Ensures (svc.Mediated req query)
      (fun later _ => Quiet later ∧ (∃ more, later = before ++ more) ∧ svc.Granted later a op) before := by
  have hhere : before = before ++ [] := (List.append_nil before).symm
  unfold authorize
  split_ifs with hauth haccess
  · refine ⟨hquiet, ⟨[], hhere⟩, fun hsome => ?_⟩
    rw [Option.isNone_iff_eq_none.mp hauth] at hsome
    cases hsome
  · have hsome : svc.context.auth.isSome := Option.isSome_iff_ne_none.mpr (by simpa using hauth)
    refine ⟨⟨hquiet, hcheck hsome⟩, fun x => ensures_ofExcept ?_⟩
    rintro ⟨⟩ rfl
    refine ⟨hquiet.snoc id, ⟨_, rfl⟩, fun _ => ?_⟩
    rw [if_pos haccess]
    exact List.mem_append_right _ List.mem_cons_self
  · refine ensures_ofExcept fun u hu => ⟨hquiet, ⟨[], hhere⟩, fun _ => ?_⟩
    rw [if_neg haccess]
    unfold defaultCheck at hu
    split at hu
    · next credentials hcredentials =>
      have hsome : a.extensions.credentials = some credentials := hcredentials
      rw [hsome]
      rfl
    · cases hu

theorem prepareOperation_ensures {c : Classified (ArrivingBody ε)} {a : Authenticated ε}
    (hquiet : Quiet before) (hidentified : svc.Identified req query before c a) :
    (svc.prepareOperation (svc.resolveEarly c) a : Serving ε ι ο (Preparation ε)).Ensures
      (svc.Mediated req query) (fun before prep => Quiet before ∧ svc.Ready req query before prep) before := by
  unfold prepareOperation
  split
  · next hnone => exact ⟨hquiet, c, hidentified, hnone⟩
  · next s3Path hpath =>
    refine ensures_ofExcept_bind ?_
    rintro ⟨op, p⟩ hselects
    have hcredentials := selectOperation_credentials hselects
    refine ensures_bind (authorize_ensures hquiet fun hsome =>
      ⟨hsome, c, a, s3Path, op, p, hidentified, hpath, hselects, hcredentials, rfl⟩) ?_
    rintro ⟨⟩ later ⟨hquiet', ⟨more, rfl⟩, hgranted⟩
    refine ensures_ofExcept_bind fun ready hready => ⟨hquiet', ?_⟩
    exact ⟨{
      classified := c
      authenticated := a
      s3Path := s3Path
      selected := p
      ready := ready
      identified := hidentified.later
      path := hpath
      selects := hselects
      granted := hgranted
      prepares := hready
      credentials := (prepareBody_credentials hready).trans hcredentials }, rfl⟩

/-- `prepare` asks in order, and what it returns has been through all of it. -/
theorem prepare_ensures :
    (svc.prepare req query : Serving ε ι ο (Preparation ε)).Ensures (svc.Mediated req query)
      (fun before prep => Quiet before ∧ svc.Ready req query before prep) [] := by
  unfold prepare
  refine ensures_ofExcept_bind ?_
  rintro ⟨arrived, hostHeader, decodedUriPath, vh⟩ harrive
  refine ensures_bind askRoute_ensures fun hit before hasked => ?_
  refine ensures_ofExcept_bind fun c hclassify => ensures_ofExcept_bind fun a hauth => ?_
  have hhit : a.s3Path.isNone = hit := by rw [authenticate_s3Path hauth, classify_isNone hclassify]
  subst hhit
  exact prepareOperation_ensures hasked.1
    ⟨⟨arrived, hostHeader, decodedUriPath, vh, harrive, hclassify⟩, hasked.2, hauth,
      authenticate_vouched hauth⟩

theorem checkOperation_ensures {op : Operation} {asked : S3Request ι} (hquiet : Quiet before)
    (hasked : svc.access → svc.Allowed req query before (.access op asked)) :
    (svc.checkOperation op asked : Serving ε ι ο (S3Request ι)).Ensures (svc.Mediated req query)
      (fun later given => Quiet later ∧ (∃ more, later = before ++ more) ∧ svc.Passed later op asked given)
      before := by
  unfold checkOperation
  split_ifs with haccess
  · refine ⟨⟨hquiet, hasked haccess⟩, fun x => ensures_ofExcept ?_⟩
    rintro given rfl
    refine ⟨hquiet.snoc id, ⟨_, rfl⟩, ?_⟩
    unfold Passed
    rw [if_pos haccess]
    exact List.mem_append_right _ List.mem_cons_self
  · refine ⟨hquiet, ⟨[], (List.append_nil before).symm⟩, ?_⟩
    unfold Passed
    rw [if_neg haccess]

theorem handle_ensures {op : Operation} {given : S3Request ι} (hquiet : Quiet before)
    (hallowed : svc.Allowed req query before (.handle op given)) :
    (handle op given : Serving ε ι ο (Reply ο)).Ensures (svc.Mediated req query) (fun _ _ => True) before :=
  ⟨⟨hquiet, hallowed⟩, fun _ => trivial⟩

/-- Any operation but the upload of a form: its access is checked, then it is performed. -/
theorem checkHandle_ensures {op : Operation} (w : svc.Admission req query before op) {input : ι}
    (hop : op ≠ .postObject) (hquiet : Quiet before)
    (hinput : svc.deserializeHttp op w.ready = .ok input)
    {f : S3Request ι → Serving ε ι ο (Reply ο)}
    (hf : ∀ given before, svc.Mediated req query before (.handle op given) →
      (f given).Ensures (svc.Mediated req query) (fun _ _ => True) before) :
    (svc.checkOperation op (buildS3Request input w.ready.toAuthenticated) >>= f).Ensures
      (svc.Mediated req query) (fun _ _ => True) before := by
  have hasked : ∀ more : List (ServiceEvent ε ι ο), svc.Asked (before ++ more) op op w.ready input
      (buildS3Request input w.ready.toAuthenticated) := by
    intro more
    unfold Asked
    rw [if_neg hop]
    exact ⟨rfl, rfl⟩
  refine ensures_bind (checkOperation_ensures hquiet fun _ => ⟨op, w, input, hinput, ?_⟩) ?_
  · simpa using hasked []
  · rintro given later ⟨hquiet', ⟨more, rfl⟩, hpassed⟩
    exact hf given _ ⟨hquiet', w.later, input, _, hinput, hasked more, hpassed⟩

/-- The upload of a form: its access is checked twice, then it is performed. -/
theorem callPostObject_ensures (w : svc.Admission req query before .postObject) {input : ι}
    (hquiet : Quiet before) (hinput : svc.deserializeHttp .postObject w.ready = .ok input) :
    (svc.checkOperation .putObject (buildS3Request (svc.intoPutObjectInput input) w.ready.toAuthenticated) >>=
      fun putReq => svc.checkOperation .postObject (putReq.mapInput (svc.intoPostObjectInput input)) >>=
        handle .postObject : Serving ε ι ο (Reply ο)).Ensures (svc.Mediated req query) (fun _ _ => True)
      before := by
  refine ensures_bind (checkOperation_ensures hquiet fun _ => ⟨.postObject, w, input, hinput, ?_⟩) ?_
  · unfold Asked
    rw [if_pos rfl]
    exact Or.inl ⟨rfl, rfl⟩
  · rintro putReq later ⟨hquiet', ⟨more, rfl⟩, hput⟩
    have hasked : ∀ later : List (ServiceEvent ε ι ο), svc.Asked (before ++ more ++ later) .postObject .postObject
        w.ready input (putReq.mapInput (svc.intoPostObjectInput input)) := by
      intro later
      unfold Asked
      rw [if_pos rfl]
      exact Or.inr ⟨rfl, putReq, rfl, hput.later⟩
    refine ensures_bind
      (checkOperation_ensures hquiet' fun _ => ⟨.postObject, w.later, input, hinput, ?_⟩) ?_
    · have hhere := hasked []
      rwa [List.append_nil] at hhere
    · rintro given later ⟨hquiet'', ⟨more', rfl⟩, hpassed⟩
      exact handle_ensures hquiet'' ⟨w.later.later, input, _, hinput, hasked more', hpassed⟩

theorem callOperation_ensures {op : Operation} {p : PreparedRequest ε}
    (h : svc.Ready req query before (.s3 op p)) (hquiet : Quiet before) :
    (svc.callOperation op p : Serving ε ι ο (Reply ο)).Ensures (svc.Mediated req query) (fun _ _ => True)
      before := by
  obtain ⟨w, rfl⟩ := h
  unfold callOperation
  refine ensures_ofExcept_bind fun input hinput => ?_
  split
  · exact callPostObject_ensures w hquiet hinput
  · refine checkHandle_ensures w (by decide) hquiet hinput fun given before hmediated => ?_
    exact ensures_ofExcept_bind fun _ _ => handle_ensures hmediated.1 hmediated.2
  · next hpost _ =>
    refine checkHandle_ensures w hpost hquiet hinput fun given before hmediated => ?_
    exact handle_ensures hmediated.1 hmediated.2

theorem callRoute_ensures {a : Authenticated ε} (h : svc.Ready req query before (.customRoute a))
    (hquiet : Quiet before) :
    (svc.callRoute a : Serving ε ι ο (Reply ο)).Ensures (svc.Mediated req query) (fun _ _ => True) before := by
  obtain ⟨c, hidentified, hnone⟩ := h
  unfold callRoute
  refine ensures_ofExcept_bind fun contentLength _ => ensures_ofExcept_bind fun _ _ => ?_
  refine ⟨⟨hquiet, c, a, _, hidentified, hnone, rfl⟩, fun checked => ?_⟩
  refine ensures_ofExcept_bind ?_
  rintro given rfl
  refine ⟨⟨hquiet.snoc id, c, a, _, hidentified.later, hnone, List.mem_append_right _ List.mem_cons_self⟩,
    fun result => ensures_ofExcept fun _ _ => trivial⟩

theorem call_ensures :
    (svc.call req query : Serving ε ι ο (Reply ο)).Ensures (svc.Mediated req query) (fun _ _ => True) [] := by
  unfold call
  refine ensures_bind prepare_ensures ?_
  rintro (⟨op, p⟩ | a) before ⟨hquiet, hready⟩
  · exact callOperation_ensures hready hquiet
  · exact callRoute_ensures hready hquiet

/-- In every trace of a request, each call is allowed by those before it, and what the client asks for is
performed at most once, at the end. An operation or a custom route is only reached with the credentials that
came out of the check of the signature, and behind the checks of the access that there are. -/
theorem calls_mediated (svc : Service ε ι) (req : Request (ArrivingBody ε)) (query : Option Bytes)
    (events before after : List (ServiceEvent ε ι ο)) (e : ServiceEvent ε ι ο) (r : Except S3Error (Reply ο))
    (htrace : (svc.call req query).Traces events r) (hevents : events = before ++ e :: after) :
    svc.Mediated req query before e.1 := by
  have h := call_ensures.call_allowed htrace hevents
  rwa [List.nil_append] at h

end Calls

section Sample

/-- A service with accounts, a custom route and access checks. -/
def sampleService : Service Unit Unit where
  environment := sampleHostEnvironment
  v2 := SignatureContext.sampleV2Externals
  parsers := SignatureContext.sampleParsers
  forms :=
    { limits := sampleLimits
      httparse := fileHttparse
      boundary := fun _ => none
      transformMultipart := fun _ _ => .error .invalidFormat }
  context := sampleHostCallContext
  routing := sampleRouting
  presignedUrlMaxExpiresSecs := 604800
  enableSigV2 := false
  allowPostSignature := true
  putObjectMaxSize := none
  normalizeContentLength := true
  customRouteMaxBodySize := none
  access := true
  route := true
  resolvePostObject _ _ := .error (.bare .notImplemented)
  deserializeHttp _ _ := .ok ()
  intoPutObjectInput := id
  intoPostObjectInput _ := id
  extractOverriddenResponseHeaders _ := .ok (SignatureContext.headerMapOf [])

/-- The route claims nothing, the access is granted, and each operation succeeds. -/
def agreeing : System (ServiceCall.Answer Unit (ε := Unit) (ι := Unit)) Unit
  | .isMatch .., s => (false, s)
  | .check _, s => (.ok (), s)
  | .access _ asked, s => (.ok asked, s)
  | .handle .., s => (.ok (), s)
  | .routeCheckAccess asked, s => (.ok asked, s)
  | .routeCall _, s => (.ok (), s)

set_option maxRecDepth 100000 in
/-- A signed download: the route is asked, the access is checked twice, and the object is fetched. -/
theorem calls_mediated_download :
    ((sampleService.call (sampleHostRequest (ascii "aaa.example.com")) none).log agreeing ()).length = 4 ∧
      ∀ before e after,
        (sampleService.call (sampleHostRequest (ascii "aaa.example.com")) none).log agreeing () =
          before ++ e :: after →
        sampleService.Mediated (sampleHostRequest (ascii "aaa.example.com")) none before e.1 := by
  refine ⟨by decide +kernel, fun before e after h => ?_⟩
  exact calls_mediated sampleService _ none _ before after e _ (traces_log agreeing _ ()) h

end Sample

end Service

end S3s.Ops
