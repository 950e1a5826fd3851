import S3s.Http.Body

/-! # Bodies that keep the connection alive

While the response is not there yet the body sends white space, so that the connection
is not closed. The XML declaration comes first, and the headers of the response are
sent behind its body. The future, the interval and the body of the response are
machines of their own, polled with whatever their surroundings bring.
-/
namespace S3s.Http
open Polling

/-- `Response` -/
structure Response (τ : Type) where
  headers : List (Bytes × Bytes)
  body : τ

/-- The future and the interval that a body polls. -/
structure KeepAliveSources (φ κ τ ι E : Type) where
  future : ι → φ → Poll (Except E (Response τ)) × φ
  pollTick : ι → κ → Poll Unit × κ

/-- `KeepAliveBody` -/
structure KeepAliveBody (φ κ τ : Type) where
  inner : φ
  initialBody : Option Bytes
  response : Option (Response τ)
  interval : κ
  done : Bool
  allowTrailers : Bool

variable {φ κ τ ι E : Type}

/-- `KeepAliveBody::new` -/
def KeepAliveBody.new (inner : φ) (interval : κ) (initialBody : Option Bytes) (allowTrailers : Bool) :
    KeepAliveBody φ κ τ :=
  ⟨inner, initialBody, none, interval, false, allowTrailers⟩

section Polls

variable (B : HttpBody τ ι E) (S : KeepAliveSources φ κ τ ι E)

/-- The turn of the loop in which the response is there. -/
def KeepAliveBody.pollResponse (i : ι) (response : Response τ) (s : KeepAliveBody φ κ τ) :
    Item Frame E × KeepAliveBody φ κ τ :=
  match B.pollFrame i response.body with
  | (.pending, body) => (.pending, { s with response := some { response with body } })
  | (.ready (some frame), body) => (.ready (some frame), { s with response := some { response with body } })
  | (.ready none, body) =>
    if s.allowTrailers then
      (.ready (some (.ok (.trailers response.headers))), { s with response := some ⟨[], body⟩, done := true })
    else (.ready none, { s with response := some { response with body }, done := true })

/-- `poll_frame`. The loop goes around a second time only behind the response. -/
def KeepAliveBody.pollFrame (i : ι) (s : KeepAliveBody φ κ τ) : Item Frame E × KeepAliveBody φ κ τ :=
  if s.done then (.ready none, s)
  else
    match s.initialBody with
    | some initialBody => (.ready (some (.ok (.data initialBody))), { s with initialBody := none })
    | none =>
      match s.response with
      | some response => s.pollResponse B i response
      | none =>
        match S.future i s.inner with
        | (.ready (.ok response), inner) =>
          KeepAliveBody.pollResponse B i response { s with inner, response := some response }
        | (.ready (.error e), inner) => (.ready (some (.error e)), { s with inner, done := true })
        | (.pending, inner) =>
          match S.pollTick i s.interval with
          | (.ready _, interval) => (.ready (some (.ok (.data (ascii " ")))), { s with inner, interval })
          | (.pending, interval) => (.pending, { s with inner, interval })

/-- `is_end_stream` -/
def KeepAliveBody.isEndStream (s : KeepAliveBody φ κ τ) : Bool := s.done

/-- A body that keeps the connection alive, as a body. -/
def keepAlive : HttpBody (KeepAliveBody φ κ τ) ι E where
  pollFrame := KeepAliveBody.pollFrame B S
  isEndStream := KeepAliveBody.isEndStream

end Polls

/-- `ser.decl()` -/
def xmlDecl : Bytes := ascii "<?xml version=\"1.0\" encoding=\"UTF-8\"?>"

/-- The body of `set_keep_alive_xml_body`. -/
def keepAliveXmlBody (fut : φ) (interval : κ) : KeepAliveBody φ κ τ :=
  KeepAliveBody.new fut interval (some xmlDecl) true

/-- What the polls that were ready gave. -/
def emitted (rs : List (Item Frame E)) : List (Option (Except E Frame)) :=
  rs.filterMap fun r =>
    match r with
    | .pending => none
    | .ready item => some item

/-- The data of the frames. -/
def sentData (items : List (Option (Except E Frame))) : Bytes :=
  items.flatMap fun item =>
    match item with
    | some (.ok (.data bytes)) => bytes
    | _ => []

/-- The frames of trailers. -/
def sentTrailers (items : List (Option (Except E Frame))) : List (List (Bytes × Bytes)) :=
  items.filterMap fun item =>
    match item with
    | some (.ok (.trailers headers)) => some headers
    | _ => none

section Emitted

variable {rs rs' : List (Item Frame E)}

@[simp] theorem emitted_nil : emitted ([] : List (Item Frame E)) = [] := rfl

@[simp] theorem emitted_pending : emitted (.pending :: rs) = emitted rs := rfl

@[simp] theorem emitted_ready {item : Option (Except E Frame)} :
    emitted (.ready item :: rs) = item :: emitted rs := rfl

theorem sentData_append (xs ys : List (Option (Except E Frame))) : sentData (xs ++ ys) = sentData xs ++ sentData ys :=
  List.flatMap_append

theorem sentTrailers_append (xs ys : List (Option (Except E Frame))) :
    sentTrailers (xs ++ ys) = sentTrailers xs ++ sentTrailers ys :=
  List.filterMap_append

theorem contents_spaces (n : Nat) :
    sentData (List.replicate n (some (.ok (.data (ascii " ")) : Except E Frame))) = List.replicate n 32 ∧
      sentTrailers (List.replicate n (some (.ok (.data (ascii " ")) : Except E Frame))) = [] := by
  induction n with
  | zero => exact ⟨rfl, rfl⟩
  | succ n ih => exact ⟨congrArg (List.cons 32) ih.1, ih.2⟩

theorem contents_data (bodies : List Bytes) :
    sentData (bodies.map fun bytes => some (.ok (.data bytes) : Except E Frame)) = bodies.flatten ∧
      sentTrailers (bodies.map fun bytes => some (.ok (.data bytes) : Except E Frame)) = [] := by
  induction bodies with
  | nil => exact ⟨rfl, rfl⟩
  | cons bytes bodies ih => exact ⟨congrArg (bytes ++ ·) ih.1, ih.2⟩

end Emitted

section Framing

variable (B : HttpBody τ ι E) (S : KeepAliveSources φ κ τ ι E)

/-- What comes while the response is handed out: the frames of its body, and behind its end one frame of
trailers with its headers, where trailers are allowed, and then nothing any more. -/
def BodyFramed (allowTrailers : Bool) (response : Response τ) (polls : List ι)
    (tail : List (Option (Except E Frame))) (ended : Bool) : Prop :=
  ∃ bs es, polls = bs ++ es ∧ (∀ r ∈ run B.pollFrame bs response.body, r ≠ .ready none) ∧
    ((es = [] ∧ tail = emitted (run B.pollFrame bs response.body) ∧ ended = false) ∨
      ∃ i es', es = i :: es' ∧ (B.pollFrame i (after B.pollFrame bs response.body)).1 = .ready none ∧
        tail = emitted (run B.pollFrame bs response.body) ++
          (if allowTrailers then some (.ok (.trailers response.headers)) else none) ::
            List.replicate es'.length none ∧ ended = true)

/-- What comes behind the initial body: spaces while the future is pending, at most one a poll, and then its error
and nothing any more, or its response. -/
def FutureFramed (allowTrailers : Bool) (inner : φ) (polls : List ι) (tail : List (Option (Except E Frame)))
    (ended : Bool) : Prop :=
  ∃ ws rest n tail', polls = ws ++ rest ∧ (∀ r ∈ run S.future ws inner, r = .pending) ∧ n ≤ ws.length ∧
    tail = List.replicate n (some (.ok (.data (ascii " ")))) ++ tail' ∧
    ((rest = [] ∧ tail' = [] ∧ ended = false) ∨
      (∃ i rest' e, rest = i :: rest' ∧ (S.future i (after S.future ws inner)).1 = .ready (.error e) ∧
        tail' = some (.error e) :: List.replicate rest'.length none ∧ ended = true) ∨
      ∃ i rest' response, rest = i :: rest' ∧
        (S.future i (after S.future ws inner)).1 = .ready (.ok response) ∧
        BodyFramed B allowTrailers response rest tail' ended)

variable {B S}

/-- Behind the end nothing comes. -/
theorem run_done {s : KeepAliveBody φ κ τ} (hdone : s.done = true) (polls : List ι) :
    emitted (run (KeepAliveBody.pollFrame B S) polls s) = List.replicate polls.length none ∧
      after (KeepAliveBody.pollFrame B S) polls s = s := by
  have hpoll (i : ι) : s.pollFrame B S i = (.ready none, s) := if_pos hdone
  induction polls with
  | nil => exact ⟨rfl, rfl⟩
  | cons i polls ih =>
    rw [run, after, hpoll, emitted_ready, ih.1, ih.2]
    exact ⟨rfl, rfl⟩

theorem pollResponse_of_more {i : ι} {response : Response τ} {r : Item Frame E} {body : τ}
    (hbody : B.pollFrame i response.body = (r, body)) (hr : r ≠ .ready none) (s : KeepAliveBody φ κ τ) :
    s.pollResponse B i response = (r, { s with response := some { response with body } }) := by
  rcases r with _ | _ | item
  · rw [KeepAliveBody.pollResponse, hbody]
  · exact absurd rfl hr
  · rw [KeepAliveBody.pollResponse, hbody]

theorem pollResponse_of_end {i : ι} {response : Response τ} {body : τ}
    (hbody : B.pollFrame i response.body = (.ready none, body)) (s : KeepAliveBody φ κ τ) :
    (s.pollResponse B i response).1 =
        .ready (if s.allowTrailers then some (.ok (.trailers response.headers)) else none) ∧
      (s.pollResponse B i response).2.done = true := by
  rw [KeepAliveBody.pollResponse, hbody]
  cases hallow : s.allowTrailers <;> simp

theorem BodyFramed.nil (allowTrailers : Bool) (response : Response τ) :
    BodyFramed B allowTrailers response [] [] false :=
  ⟨[], [], rfl, by simp [run], Or.inl ⟨rfl, rfl, rfl⟩⟩

/-- What a poll of the body gives before its end comes first. -/
theorem BodyFramed.cons {allowTrailers : Bool} {response : Response τ} {i : ι} {r : Item Frame E} {body : τ}
    (hbody : B.pollFrame i response.body = (r, body)) (hr : r ≠ .ready none) {polls : List ι}
    {rs : List (Item Frame E)} {ended : Bool}
    (h : BodyFramed B allowTrailers { response with body } polls (emitted rs) ended) :
    BodyFramed B allowTrailers response (i :: polls) (emitted (r :: rs)) ended := by
  have hemitted (rs : List (Item Frame E)) : emitted (r :: rs) = emitted [r] ++ emitted rs := by
    cases r <;> rfl
  obtain ⟨bs, es, rfl, hmore, hend⟩ := h
  have hrun : run B.pollFrame (i :: bs) response.body = r :: run B.pollFrame bs body := by rw [run, hbody]
  have hafter : after B.pollFrame (i :: bs) response.body = after B.pollFrame bs body := by rw [after, hbody]
  refine ⟨i :: bs, es, rfl, ?_, ?_⟩
  · rw [hrun]
    exact List.forall_mem_cons.mpr ⟨hr, hmore⟩
  · rw [hrun, hafter, hemitted rs, hemitted (run _ _ _)]
    rcases hend with ⟨hes, hrs, hended⟩ | ⟨i', es', hes, hlast, hrs, hended⟩
    · exact Or.inl ⟨hes, by rw [hrs], hended⟩
    · exact Or.inr ⟨i', es', hes, hlast, by rw [hrs, List.append_assoc], hended⟩

/-- The body has ended in the turn in which the response is there. -/
theorem run_pollResponse_end {i : ι} {response : Response τ} {body : τ}
    (hbody : B.pollFrame i response.body = (.ready none, body)) (s : KeepAliveBody φ κ τ) (polls : List ι) :
    BodyFramed B s.allowTrailers response (i :: polls)
      (emitted ((s.pollResponse B i response).1 ::
        run (KeepAliveBody.pollFrame B S) polls (s.pollResponse B i response).2))
      (after (KeepAliveBody.pollFrame B S) polls (s.pollResponse B i response).2).isEndStream := by
  obtain ⟨hresult, hended⟩ := pollResponse_of_end hbody s
  obtain ⟨hrun, hafter⟩ := run_done (B := B) (S := S) hended polls
  rw [hresult, emitted_ready, hrun, hafter]
  exact ⟨[], i :: polls, rfl, by simp [run], Or.inr ⟨i, polls, rfl, by simp [after, hbody], rfl, hended⟩⟩

/-- From the turn in which the response is there it is handed out. -/
theorem run_pollResponse {s : KeepAliveBody φ κ τ} (hdone : s.done = false) (hinitial : s.initialBody = none)
    (response : Response τ) (i : ι) (polls : List ι) :
    BodyFramed B s.allowTrailers response (i :: polls)
      (emitted ((s.pollResponse B i response).1 ::
        run (KeepAliveBody.pollFrame B S) polls (s.pollResponse B i response).2))
      (after (KeepAliveBody.pollFrame B S) polls (s.pollResponse B i response).2).isEndStream := by
  induction polls generalizing s response i with
  | nil =>
    rcases hbody : B.pollFrame i response.body with ⟨r, body⟩
    by_cases hr : r = .ready none
    · subst hr
      exact run_pollResponse_end hbody s []
    · rw [pollResponse_of_more hbody hr]
      simp only [run, after, KeepAliveBody.isEndStream, hdone]
      exact (BodyFramed.nil _ _).cons hbody hr
  | cons i' polls ih =>
    rcases hbody : B.pollFrame i response.body with ⟨r, body⟩
    by_cases hr : r = .ready none
    · subst hr
      exact run_pollResponse_end hbody s (i' :: polls)
    · rw [pollResponse_of_more hbody hr]
      have hpoll : KeepAliveBody.pollFrame B S i' { s with response := some { response with body } } =
          KeepAliveBody.pollResponse B i' { response with body }
            { s with response := some { response with body } } := by
        simp [KeepAliveBody.pollFrame, hdone, hinitial]
      rw [run, after, hpoll]
      exact (ih (s := { s with response := some { response with body } }) hdone hinitial { response with body }
        i').cons hbody hr

/-- While the future is pending there are spaces, and then what it is ready with. -/
theorem run_waiting {s : KeepAliveBody φ κ τ} (hdone : s.done = false) (hinitial : s.initialBody = none)
    (hresponse : s.response = none) (polls : List ι) :
    FutureFramed B S s.allowTrailers s.inner polls (emitted (run (KeepAliveBody.pollFrame B S) polls s))
      (after (KeepAliveBody.pollFrame B S) polls s).isEndStream := by
  induction polls generalizing s with
  | nil => exact ⟨[], [], 0, [], rfl, by simp [run], le_rfl, rfl, Or.inl ⟨rfl, rfl, hdone⟩⟩
  | cons i polls ih =>
    rw [run, after]
    rcases hfuture : S.future i s.inner with ⟨_ | (e | response), inner⟩
    · rcases htick : S.pollTick i s.interval with ⟨tick, interval⟩
      obtain ⟨n, hn, hpoll⟩ : ∃ n, n ≤ 1 ∧ (s.pollFrame B S i).2 = { s with inner, interval } ∧
          ∀ rs, emitted ((s.pollFrame B S i).1 :: rs) =
            List.replicate n (some (.ok (.data (ascii " ")))) ++ emitted rs := by
        cases tick with
        | pending => exact ⟨0, Nat.zero_le _, by simp [KeepAliveBody.pollFrame, hdone, hinitial, hresponse, hfuture, htick]⟩
        | ready _ => exact ⟨1, Nat.le_refl _, by simp [KeepAliveBody.pollFrame, hdone, hinitial, hresponse, hfuture, htick]⟩
      rw [hpoll.2, hpoll.1]
      obtain ⟨ws, rest, m, tail, rfl, hwait, hm, htail, hend⟩ :=
        ih (s := { s with inner, interval }) hdone hinitial hresponse
      have hafter : after S.future (i :: ws) s.inner = after S.future ws inner := by rw [after, hfuture]
      refine ⟨i :: ws, rest, n + m, tail, rfl, ?_, ?_, ?_, ?_⟩
      · rw [run, hfuture]
        exact List.forall_mem_cons.mpr ⟨rfl, hwait⟩
      · rw [List.length_cons]
        omega
      · rw [htail, List.replicate_add, List.append_assoc]
      · rw [hafter]
        exact hend
    · have hpoll : s.pollFrame B S i = (.ready (some (.error e)), { s with inner, done := true }) := by
        simp [KeepAliveBody.pollFrame, hdone, hinitial, hresponse, hfuture]
      obtain ⟨hrun, hafter⟩ := run_done (B := B) (S := S) (s := { s with inner, done := true }) rfl polls
      rw [hpoll, emitted_ready, hrun, hafter]
      exact ⟨[], i :: polls, 0, _, rfl, by simp [run], le_rfl, rfl,
        Or.inr (Or.inl ⟨i, polls, e, rfl, by simp [after, hfuture], rfl, rfl⟩)⟩
    · have hpoll : s.pollFrame B S i =
          KeepAliveBody.pollResponse B i response { s with inner, response := some response } := by
        simp [KeepAliveBody.pollFrame, hdone, hinitial, hresponse, hfuture]
      rw [hpoll]
      exact ⟨[], i :: polls, 0, _, rfl, by simp [run], le_rfl, rfl,
        Or.inr (Or.inr ⟨i, polls, response, rfl, by simp [after, hfuture],
          run_pollResponse (s := { s with inner, response := some response }) hdone hinitial response i polls⟩)⟩

variable {allowTrailers ended : Bool} {polls : List ι} {tail : List (Option (Except E Frame))}

/-- Behind the frames of a body there is one frame of trailers, when it has ended and they are allowed. -/
theorem BodyFramed.contents {response : Response τ} (h : BodyFramed B allowTrailers response polls tail ended) :
    ∃ bs, bs <+: polls ∧ sentData tail = sentData (emitted (run B.pollFrame bs response.body)) ∧
      sentTrailers tail = sentTrailers (emitted (run B.pollFrame bs response.body)) ++
        if ended && allowTrailers then [response.headers] else [] := by
  obtain ⟨bs, es, rfl, -, ⟨-, rfl, rfl⟩ | ⟨i, es', -, -, rfl, rfl⟩⟩ := h
  · exact ⟨bs, List.prefix_append _ _, rfl, by simp⟩
  · refine ⟨bs, List.prefix_append _ _, ?_, ?_⟩
    · rw [sentData_append]
      cases allowTrailers <;> simp [sentData]
    · rw [sentTrailers_append]
      cases allowTrailers <;> simp [sentTrailers]

/-- The data are spaces and then those of the response's body, and the trailers are those of the body and then the
headers. -/
theorem FutureFramed.contents {inner : φ} (h : FutureFramed B S allowTrailers inner polls tail ended) :
    ∃ n, (sentData tail = List.replicate n 32 ∧ sentTrailers tail = []) ∨
      ∃ ws i rest response bs, polls = ws ++ i :: rest ∧
        (S.future i (after S.future ws inner)).1 = .ready (.ok response) ∧ bs <+: i :: rest ∧
        sentData tail = List.replicate n 32 ++ sentData (emitted (run B.pollFrame bs response.body)) ∧
        sentTrailers tail = sentTrailers (emitted (run B.pollFrame bs response.body)) ++
          if ended && allowTrailers then [response.headers] else [] := by
  obtain ⟨ws, rest, n, tail', rfl, -, -, rfl, hend⟩ := h
  obtain ⟨hspaces, hnone⟩ := contents_spaces (E := E) n
  rw [sentData_append, sentTrailers_append, hspaces, hnone, List.nil_append]
  rcases hend with ⟨-, rfl, -⟩ | ⟨i, rest', e, -, -, rfl, -⟩ | ⟨i, rest', response, rfl, hready, hbody⟩
  · exact ⟨n, Or.inl ⟨List.append_nil _, rfl⟩⟩
  · exact ⟨n, Or.inl ⟨by simp [sentData], by simp [sentTrailers]⟩⟩
  · obtain ⟨bs, hbs, hdata, htrailers⟩ := hbody.contents
    exact ⟨n, Or.inr ⟨ws, i, rest', response, bs, rfl, hready, hbs, by rw [hdata], htrailers⟩⟩

/-- The initial body comes first. -/
theorem run_new (inner : φ) (interval : κ) (initialBody : Option Bytes) (polls : List ι) :
    ∃ tail, emitted (run (KeepAliveBody.pollFrame B S) polls
        (KeepAliveBody.new inner interval initialBody allowTrailers)) =
          (initialBody.toList.map fun bytes => some (.ok (.data bytes))).take polls.length ++ tail ∧
      FutureFramed B S allowTrailers inner (polls.drop initialBody.toList.length) tail
        (after (KeepAliveBody.pollFrame B S) polls
          (KeepAliveBody.new inner interval initialBody allowTrailers)).isEndStream := by
  cases initialBody with
  | none => exact ⟨_, by simp, run_waiting (s := KeepAliveBody.new inner interval none allowTrailers) rfl rfl rfl polls⟩
  | some initialBody =>
    cases polls with
    | nil => exact ⟨[], rfl, [], [], 0, [], rfl, by simp [run], le_rfl, rfl, Or.inl ⟨rfl, rfl, rfl⟩⟩
    | cons i polls =>
      exact ⟨_, by simp [run, KeepAliveBody.pollFrame, KeepAliveBody.new], run_waiting (s := KeepAliveBody.new inner interval none allowTrailers) rfl rfl rfl polls⟩

/-- Whatever the future, the interval and the body of the response do, a body that keeps the connection alive hands
out its initial body, then spaces while the future is pending, then either the future's error and nothing
any more, or the frames of the response's body in order and, behind their end, its headers as one frame
of trailers where they are allowed, and nothing any more. The data are the initial body, spaces and the
data of the response, and the XML declaration comes first. -/
theorem keepAlive_framed (B : HttpBody τ ι E) (S : KeepAliveSources φ κ τ ι E) (inner : φ) (interval : κ)
    (initialBody : Option Bytes) (allowTrailers : Bool) (polls : List ι) :
    let start := KeepAliveBody.new inner interval initialBody allowTrailers
    let items := emitted (run (keepAlive B S).pollFrame polls start)
    let ended := (keepAlive B S).isEndStream (after (keepAlive B S).pollFrame polls start)
    (∃ tail, items = (initialBody.toList.map fun bytes => some (.ok (.data bytes))).take polls.length ++ tail ∧
      FutureFramed B S allowTrailers inner (polls.drop initialBody.toList.length) tail ended) ∧
    (∃ n, (sentData items = (initialBody.toList.take polls.length).flatten ++ List.replicate n 32 ∧
        sentTrailers items = []) ∨
      ∃ ws i rest response bs, polls.drop initialBody.toList.length = ws ++ i :: rest ∧
        (S.future i (after S.future ws inner)).1 = .ready (.ok response) ∧ bs <+: i :: rest ∧
        sentData items = (initialBody.toList.take polls.length).flatten ++
          (List.replicate n 32 ++ sentData (emitted (run B.pollFrame bs response.body))) ∧
        sentTrailers items = sentTrailers (emitted (run B.pollFrame bs response.body)) ++
          if ended && allowTrailers then [response.headers] else []) ∧
    (polls ≠ [] → (emitted (run (keepAlive B S).pollFrame polls (keepAliveXmlBody inner interval))).head? =
      some (some (.ok (.data xmlDecl)))) := by
  intro start items ended
  obtain ⟨tail, hitems, hframed⟩ : ∃ tail, items =
      (initialBody.toList.map fun bytes => some (.ok (.data bytes))).take polls.length ++ tail ∧
        FutureFramed B S allowTrailers inner (polls.drop initialBody.toList.length) tail ended :=
    run_new inner interval initialBody polls
  refine ⟨⟨tail, hitems, hframed⟩, ?_, ?_⟩
  · obtain ⟨hopening, hnone⟩ := contents_data (E := E) (initialBody.toList.take polls.length)
    rw [hitems, ← List.map_take, sentData_append, sentTrailers_append, hopening, hnone, List.nil_append]
    obtain ⟨n, ⟨hdata, htrailers⟩ | ⟨ws, i, rest, response, bs, hpolls, hready, hbs, hdata, htrailers⟩⟩ :=
      hframed.contents
    · exact ⟨n, Or.inl ⟨by rw [hdata], htrailers⟩⟩
    · exact ⟨n, Or.inr ⟨ws, i, rest, response, bs, hpolls, hready, hbs, by rw [hdata], htrailers⟩⟩
  · intro hpolls
    obtain ⟨i, polls, rfl⟩ := List.exists_cons_of_ne_nil hpolls
    rfl

end Framing

end S3s.Http
