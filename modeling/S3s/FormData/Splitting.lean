import S3s.FormData.Runs

/-! # The transport does not matter

A caller asks for the next part, reads its headers and its data, and goes on until
the body ends or a step fails. What it sees is the meaning of the bytes of the
body, however these are split into chunks; of a part that is never terminated it
sees a beginning.
-/
namespace S3s.FormData
open Polling Search

variable {ε : Type}

namespace Multipart

/-- A caller that reads every part's headers and data through `next_part`, and what it sees. -/
inductive ReadParts (H : Httparse) : Multipart ε → Transcript ε → Prop where
  | finished {mp mp' : Multipart ε} (next : NextPart H mp (.ok none) mp') :
    ReadParts H mp (.ends (.ok ()))
  | failed {mp mp' : Multipart ε} {e : Error ε} (next : NextPart H mp (.error e) mp') :
    ReadParts H mp (.ends (.error e))
  | badHeaders {mp mp₁ mp' : Multipart ε} {headers : List Header} {e : Error ε}
    (next : NextPart H mp (.ok (some ())) mp₁)
    (read : Drains (pollNextHeader H) mp₁ headers (.error e) mp') :
    ReadParts H mp (.fails ⟨headers, []⟩ e)
  | badData {mp mp₁ mp₂ mp' : Multipart ε} {headers : List Header} {chunks : List Bytes} {e : Error ε}
    (next : NextPart H mp (.ok (some ())) mp₁)
    (read : Drains (pollNextHeader H) mp₁ headers (.ok ()) mp₂)
    (data : Drains (pollNextData H) mp₂ chunks (.error e) mp') :
    ReadParts H mp (.fails ⟨headers, chunks.flatten⟩ e)
  | part {mp mp₁ mp₂ mp' : Multipart ε} {headers : List Header} {chunks : List Bytes}
    {t : Transcript ε} (next : NextPart H mp (.ok (some ())) mp₁)
    (read : Drains (pollNextHeader H) mp₁ headers (.ok ()) mp₂)
    (data : Drains (pollNextData H) mp₂ chunks (.ok ()) mp') (rest : ReadParts H mp' t) :
    ReadParts H mp (t.cons ⟨headers, chunks.flatten⟩)

variable {H : Httparse}

/-- What `next_part` returns is unique. -/
theorem NextPart.unique {mp mp₁ mp₂ : Multipart ε} {r₁ r₂ : Except (Error ε) (Option Unit)}
    (h₁ : NextPart H mp r₁ mp₁) (h₂ : NextPart H mp r₂ mp₂) : r₁ = r₂ ∧ mp₁ = mp₂ := by
  induction h₁ with
  | returns arm =>
    cases h₂ with
    | returns arm' =>
      cases arm.symm.trans arm'
      exact ⟨rfl, rfl⟩
    | failed arm' await' => cases arm.symm.trans arm'
    | again arm' await' rest' => cases arm.symm.trans arm'
  | failed arm await =>
    cases h₂ with
    | returns arm' => cases arm.symm.trans arm'
    | failed arm' await' =>
      obtain ⟨he, hmp⟩ := await.unique await'
      cases he
      exact ⟨rfl, hmp⟩
    | again arm' await' rest' => cases (await.unique await').1
  | again arm await rest ih =>
    cases h₂ with
    | returns arm' => cases arm.symm.trans arm'
    | failed arm' await' => cases (await.unique await').1
    | again arm' await' rest' =>
      obtain ⟨-, rfl⟩ := await.unique await'
      exact ih rest'

/-- What a caller sees is unique. -/
theorem ReadParts.unique {mp : Multipart ε} {t₁ t₂ : Transcript ε} (h₁ : ReadParts H mp t₁)
    (h₂ : ReadParts H mp t₂) : t₁ = t₂ := by
  induction h₁ generalizing t₂ with
  | finished next =>
    cases h₂ with
    | finished next' => rfl
    | failed next' => cases (next.unique next').1
    | badHeaders next' read' => cases (next.unique next').1
    | badData next' read' data' => cases (next.unique next').1
    | part next' read' data' rest' => cases (next.unique next').1
  | failed next =>
    cases h₂ with
    | finished next' => cases (next.unique next').1
    | failed next' =>
      cases (next.unique next').1
      rfl
    | badHeaders next' read' => cases (next.unique next').1
    | badData next' read' data' => cases (next.unique next').1
    | part next' read' data' rest' => cases (next.unique next').1
  | badHeaders next read =>
    cases h₂ with
    | finished next' => cases (next.unique next').1
    | failed next' => cases (next.unique next').1
    | badHeaders next' read' =>
      obtain ⟨-, rfl⟩ := next.unique next'
      obtain ⟨rfl, he, -⟩ := read.unique read'
      cases he
      rfl
    | badData next' read' data' =>
      obtain ⟨-, rfl⟩ := next.unique next'
      cases (read.unique read').2.1
    | part next' read' data' rest' =>
      obtain ⟨-, rfl⟩ := next.unique next'
      cases (read.unique read').2.1
  | badData next read data =>
    cases h₂ with
    | finished next' => cases (next.unique next').1
    | failed next' => cases (next.unique next').1
    | badHeaders next' read' =>
      obtain ⟨-, rfl⟩ := next.unique next'
      cases (read.unique read').2.1
    | badData next' read' data' =>
      obtain ⟨-, rfl⟩ := next.unique next'
      obtain ⟨rfl, -, rfl⟩ := read.unique read'
      obtain ⟨rfl, he, -⟩ := data.unique data'
      cases he
      rfl
    | part next' read' data' rest' =>
      obtain ⟨-, rfl⟩ := next.unique next'
      obtain ⟨-, -, rfl⟩ := read.unique read'
      cases (data.unique data').2.1
  | part next read data rest ih =>
    cases h₂ with
    | finished next' => cases (next.unique next').1
    | failed next' => cases (next.unique next').1
    | badHeaders next' read' =>
      obtain ⟨-, rfl⟩ := next.unique next'
      cases (read.unique read').2.1
    | badData next' read' data' =>
      obtain ⟨-, rfl⟩ := next.unique next'
      obtain ⟨-, -, rfl⟩ := read.unique read'
      cases (data.unique data').2.1
    | part next' read' data' rest' =>
      obtain ⟨-, rfl⟩ := next.unique next'
      obtain ⟨rfl, -, rfl⟩ := read.unique read'
      obtain ⟨rfl, -, rfl⟩ := data.unique data'
      rw [ih rest']

/-- A step that is awaited before the first part does not change what is seen. -/
theorem ReadParts.again {mp mp₁ : Multipart ε} {t : Transcript ε} (arm : mp.nextPartReturns = none)
    (await : Settles (nextPartAwaits H) mp (.ok ()) mp₁) (h : ReadParts H mp₁ t) :
    ReadParts H mp t := by
  cases h with
  | finished next => exact .finished (.again arm await next)
  | failed next => exact .failed (.again arm await next)
  | badHeaders next read => exact .badHeaders (.again arm await next) read
  | badData next read data => exact .badData (.again arm await next) read data
  | part next read data rest => exact .part (.again arm await next) read data rest

end Multipart

/-- A part of which all has been seen but less than so many bytes of its data. -/
structure Part.UpTo (lack : Nat) (seen whole : Part) : Prop where
  headers : seen.headers = whole.headers
  data : seen.data <+: whole.data
  lacks : whole.data.length < seen.data.length + lack

/-- A transcript that is another one, but for the end of the data of the part that was begun. -/
structure Transcript.UpTo (lack : Nat) (seen whole : Transcript ε) : Prop where
  parts : seen.parts = whole.parts
  openPart : Option.Rel (Part.UpTo lack) seen.openPart whole.openPart
  outcome : seen.outcome = whole.outcome

theorem Transcript.UpTo.ends {lack : Nat} (outcome : Except (Error ε) Unit) :
    Transcript.UpTo lack (.ends outcome) (.ends outcome) := ⟨rfl, .none, rfl⟩

theorem Transcript.UpTo.fails {lack : Nat} {seen whole : Part} (e : Error ε)
    (h : seen.UpTo lack whole) : Transcript.UpTo lack (.fails seen e) (.fails whole e) :=
  ⟨rfl, .some h, rfl⟩

theorem Transcript.UpTo.cons {lack : Nat} {seen whole : Transcript ε} (part : Part)
    (h : seen.UpTo lack whole) : Transcript.UpTo lack (seen.cons part) (whole.cons part) :=
  ⟨congrArg (part :: ·) h.parts, h.openPart, h.outcome⟩

namespace Multipart

variable {H : Httparse} {boundary : Boundary} {max : Nat}

theorem blocks_stop {delimiter text : Bytes} {t : Transcript ε}
    (h : blockNext H delimiter max text = .error t) : blocks H delimiter max text = t := by
  rw [blocks]
  split
  · next h' => cases h.symm.trans h'; rfl
  · next h' => cases h.symm.trans h'

theorem blocks_part {delimiter text rest : Bytes} {part : Part}
    (h : blockNext (ε := ε) H delimiter max text = .ok (part, rest)) :
    blocks (ε := ε) H delimiter max text = (blocks H delimiter max rest).cons part := by
  rw [blocks]
  split
  · next h' => cases h.symm.trans h'
  · next h' => cases h.symm.trans h'; rfl

theorem makeDelimiter_length_pos (boundary : Bytes) : 0 < (makeDelimiter boundary).length :=
  List.length_pos_of_ne_nil (makeDelimiter_ne_nil boundary)

/-- Nothing of the data of a part that fails in its headers is seen, and there is nothing to see. -/
theorem upTo_headers (boundary : Bytes) (headers : List Header) :
    Part.UpTo (makeDelimiter boundary).length ⟨headers, []⟩ ⟨headers, []⟩ :=
  ⟨rfl, List.prefix_refl _, by simpa using makeDelimiter_length_pos boundary⟩

/-- A part that has been handed out is seen as the text says, given what is seen behind it. -/
theorem reads_part {mp : Multipart ε} {b : StreamBuffer ε} (hb : b.Steady)
    (next : NextPart H mp (.ok (some ())) (machine boundary max .readingPartHeaders none true b))
    (later : ∀ b₁ : StreamBuffer ε, b₁.Steady → ∀ part,
      partNext (ε := ε) H (makeDelimiter boundary.bytes) max b.view = .ok (part, b₁.view) →
        ∃ t, ReadParts H (machine boundary max .readingBoundary none false b₁) t ∧
          t.UpTo (makeDelimiter boundary.bytes).length
            (blocks H (makeDelimiter boundary.bytes) max b₁.view)) :
    ∃ t, ReadParts H mp t ∧ t.UpTo (makeDelimiter boundary.bytes).length
      (match partNext H (makeDelimiter boundary.bytes) max b.view with
        | .error t => t
        | .ok (part, text) => (blocks H (makeDelimiter boundary.bytes) max text).cons part) := by
  unfold partNext at later ⊢
  cases hend : headerEnd (ε := ε) max b.view with
  | error e =>
    obtain ⟨mp', hdrains⟩ := headers_error H boundary hb hend
    exact ⟨_, .badHeaders next hdrains, .fails e (upTo_headers boundary.bytes [])⟩
  | ok stop =>
    simp only [hend] at later ⊢
    cases hparse : parseHeaderBlock (ε := ε) H (b.view.take stop) with
    | error e =>
      obtain ⟨mp', hdrains⟩ := headers_unparsed boundary hb hend hparse
      exact ⟨_, .badHeaders next hdrains, .fails e (upTo_headers boundary.bytes [])⟩
    | ok block =>
      simp only [hparse] at later ⊢
      obtain ⟨mp₂, hdrains, hdata⟩ := headers_parsed boundary hb hend hparse
      rcases hheaders : readHeaders (ε := ε) (b.view.take stop) block.spans with ⟨headers, e | u⟩
      · rw [hheaders] at hdrains
        exact ⟨_, .badHeaders next hdrains, .fails e (upTo_headers boundary.bytes headers)⟩
      · rw [hheaders] at hdrains hdata
        simp only [hheaders] at later ⊢
        obtain ⟨b₂, rfl, hsteady, hview⟩ := hdata rfl
        obtain ⟨chunks, r, mp₃, hchunks, hread⟩ := data_drain H boundary max b₂ hsteady
        unfold DataRead at hread
        rw [hview] at hread
        cases hfind : find (makeDelimiter boundary.bytes) (b.view.drop block.dataStart) with
        | none =>
          rw [hfind] at hread
          obtain ⟨rfl, hpre, hshort⟩ := hread
          exact ⟨_, .badData next hdrains hchunks, .fails _ ⟨rfl, hpre, hshort⟩⟩
        | some i =>
          rw [hfind] at hread
          obtain ⟨rfl, hflat, b₃, rfl, hsteady₃, hview₃⟩ := hread
          simp only [hfind] at later ⊢
          obtain ⟨t, hparts, hupTo⟩ := later b₃ hsteady₃ _ (by rw [hview₃])
          refine ⟨_, .part next hdrains hchunks hparts, ?_⟩
          rw [hflat, ← hview₃]
          exact hupTo.cons _

/-- Behind a boundary a caller sees what the text says. -/
theorem reads_blocks (b : StreamBuffer ε) (hb : b.Steady) :
    ∃ t, ReadParts H (machine boundary max .readingBoundary none false b) t ∧
      t.UpTo (makeDelimiter boundary.bytes).length
        (blocks H (makeDelimiter boundary.bytes) max b.view) := by
  induction hn : b.view.length using Nat.strongRecOn generalizing b with
  | ind n ih =>
    rcases hnext : boundaryNext (ε := ε) b.view with e | ⟨state, text⟩
    · have hstop : blockNext H (makeDelimiter boundary.bytes) max b.view =
          .error (.ends (.error e)) := by
        rw [blockNext, hnext]
      obtain ⟨mp', hfailed⟩ := nextPart_boundary_error H boundary max hb.plain hb.pendings hnext
      rw [blocks_stop hstop]
      exact ⟨_, .failed hfailed, .ends _⟩
    · rcases boundaryNext_state hnext with rfl | rfl
      · have hstop : blockNext (ε := ε) H (makeDelimiter boundary.bytes) max b.view =
            .error (.ends (closingNext text)) := by
          rw [blockNext, hnext]
        obtain ⟨mp', hclosing⟩ := nextPart_boundary_closing H boundary max hb.plain hb.pendings hnext
        rw [blocks_stop hstop]
        cases hclose : closingNext (ε := ε) text with
        | error e =>
          rw [hclose] at hclosing
          exact ⟨_, .failed hclosing, .ends _⟩
        | ok u =>
          rw [hclose] at hclosing
          exact ⟨_, .finished hclosing, .ends _⟩
      · have hpart : blockNext (ε := ε) H (makeDelimiter boundary.bytes) max b.view =
            partNext H (makeDelimiter boundary.bytes) max text := by
          rw [blockNext, hnext]
        obtain ⟨b₁, hleft, next⟩ := nextPart_boundary_part H boundary max hb.plain hb.pendings hnext
        obtain rfl := hleft.view
        obtain ⟨t, hreads, hupTo⟩ := reads_part (hb.left hleft) next fun b₂ hsteady part hblock =>
          ih _ (hn ▸ blockNext_length (hpart.trans hblock)) b₂ hsteady rfl
        refine ⟨t, hreads, ?_⟩
        rw [← hpart] at hupTo
        cases hblock : blockNext (ε := ε) H (makeDelimiter boundary.bytes) max b.view with
        | error t' =>
          rw [hblock] at hupTo
          rw [blocks_stop hblock]
          exact hupTo
        | ok next =>
          rw [hblock] at hupTo
          rw [blocks_part hblock]
          exact hupTo

/-- The answers of a transport that splits a body into chunks and is always ready. -/
def ofChunks (chunks : List Bytes) : Script ε := chunks.map fun c => .ready (some (.ok c))

theorem content_ofChunks (chunks : List Bytes) :
    (ofChunks (ε := ε) chunks).flatMap StreamBuffer.answerBytes = chunks.flatten := by
  induction chunks with
  | nil => rfl
  | cons c chunks ih => exact congrArg (c ++ ·) ih

theorem steady_ofChunks {chunks : List Bytes} (h : ∀ c ∈ chunks, c ≠ []) :
    (StreamBuffer.new (ofChunks (ε := ε) chunks)).Steady := by
  refine ⟨⟨⟨_, rfl⟩, ?_, nofun⟩, rfl, ?_⟩
  · intro a ha
    obtain ⟨c, hc, rfl⟩ := List.mem_map.mp ha
    exact h c hc
  · refine List.countP_eq_zero.mpr fun a ha => ?_
    obtain ⟨c, hc, rfl⟩ := List.mem_map.mp ha
    exact Bool.false_ne_true

theorem view_ofChunks (chunks : List Bytes) :
    (StreamBuffer.new (ofChunks (ε := ε) chunks)).view = chunks.flatten := content_ofChunks chunks

/-- Of a body that arrives in chunks a caller sees the meaning. -/
theorem reads_meaning (H : Httparse) (boundary : Boundary) (max : Nat) {chunks : List Bytes}
    (h : ∀ c ∈ chunks, c ≠ []) :
    ∃ t : Transcript ε, ReadParts H (new (ofChunks chunks) boundary max) t ∧
      t.UpTo (makeDelimiter boundary.bytes).length (meaning H boundary max chunks.flatten) := by
  have hb := steady_ofChunks (ε := ε) h
  obtain ⟨r, b₁, hsettles, hread⟩ := StreamBuffer.readTo_settles
    (show makeFirstBoundary boundary.bytes ≠ [] from List.cons_ne_nil _ _) hb.plain
  rw [meaning]
  cases r with
  | error e =>
    obtain ⟨rfl, hnone⟩ := hread
    rw [view_ofChunks] at hnone
    rw [hnone]
    exact ⟨_, .failed (.failed rfl (settles_lift hsettles (fun _ => rfl) rfl)), .ends _⟩
  | ok u =>
    obtain ⟨text, hsome, hleft⟩ := hread
    rw [view_ofChunks] at hsome
    rw [hsome]
    obtain rfl := hleft.view
    obtain ⟨t, hreads, hupTo⟩ := reads_blocks b₁ (hb.left hleft)
    exact ⟨t, .again rfl (settles_lift hsettles (fun _ => rfl) rfl) hreads, hupTo⟩

/-- Two splits of one body into chunks that are not empty: both callers come to an end, see the same
complete parts and the same outcome, and of a part that is never terminated both see the headers
and a beginning of the bytes that follow them, each all of these but less than a delimiter. -/
theorem parts_independent_of_split (H : Httparse) (boundary : Boundary) (max : Nat)
    (chunks₁ chunks₂ : List Bytes) (hne₁ : ∀ c ∈ chunks₁, c ≠ []) (hne₂ : ∀ c ∈ chunks₂, c ≠ [])
    (hbody : chunks₁.flatten = chunks₂.flatten) :
    (∃ t₁ : Transcript ε, ReadParts H (new (ofChunks chunks₁) boundary max) t₁) ∧
      (∃ t₂ : Transcript ε, ReadParts H (new (ofChunks chunks₂) boundary max) t₂) ∧
      ∀ t₁ t₂ : Transcript ε, ReadParts H (new (ofChunks chunks₁) boundary max) t₁ →
        ReadParts H (new (ofChunks chunks₂) boundary max) t₂ →
          t₁.parts = t₂.parts ∧ t₁.outcome = t₂.outcome ∧
            t₁.UpTo (makeDelimiter boundary.bytes).length (meaning H boundary max chunks₁.flatten) ∧
            t₂.UpTo (makeDelimiter boundary.bytes).length (meaning H boundary max chunks₁.flatten) := by
  obtain ⟨u₁, hreads₁, hupTo₁⟩ := reads_meaning (ε := ε) H boundary max hne₁
  obtain ⟨u₂, hreads₂, hupTo₂⟩ := reads_meaning (ε := ε) H boundary max hne₂
  rw [← hbody] at hupTo₂
  refine ⟨⟨u₁, hreads₁⟩, ⟨u₂, hreads₂⟩, fun t₁ t₂ h₁ h₂ => ?_⟩
  obtain rfl := h₁.unique hreads₁
  obtain rfl := h₂.unique hreads₂
  exact ⟨hupTo₁.parts.trans hupTo₂.parts.symm, hupTo₁.outcome.trans hupTo₂.outcome.symm, hupTo₁,
    hupTo₂⟩

/-- A number of rounds of `next_part` that may be enough. -/
def nextPart (H : Httparse) : Nat → Multipart ε → Option (Except (Error ε) (Option Unit) × Multipart ε)
  | 0, _ => none
  | fuel + 1, mp =>
    match mp.nextPartReturns with
    | some result => some result
    | none =>
      match settle (nextPartAwaits H) fuel mp with
      | none => none
      | some (.error e, mp) => some (.error e, mp)
      | some (.ok (), mp) => nextPart H fuel mp

/-- A number of rounds of the caller that may be enough. -/
def readParts (H : Httparse) : Nat → Multipart ε → Option (Transcript ε)
  | 0, _ => none
  | fuel + 1, mp =>
    match nextPart H fuel mp with
    | none => none
    | some (.ok none, _) => some (.ends (.ok ()))
    | some (.error e, _) => some (.ends (.error e))
    | some (.ok (some ()), mp) =>
      match drain (pollNextHeader H) fuel mp with
      | none => none
      | some (headers, .error e, _) => some (.fails ⟨headers, []⟩ e)
      | some (headers, .ok (), mp) =>
        match drain (pollNextData H) fuel mp with
        | none => none
        | some (chunks, .error e, _) => some (.fails ⟨headers, chunks.flatten⟩ e)
        | some (chunks, .ok (), mp) => (readParts H fuel mp).map (.cons ⟨headers, chunks.flatten⟩)

theorem nextPart_sound {fuel : Nat} {mp mp' : Multipart ε} {r : Except (Error ε) (Option Unit)}
    (h : nextPart H fuel mp = some (r, mp')) : NextPart H mp r mp' := by
  induction fuel generalizing mp with
  | zero => cases h
  | succ fuel ih =>
    rw [nextPart] at h
    split at h
    · next arm =>
      cases h
      exact .returns arm
    · next arm =>
      split at h
      · cases h
      · next hsettle =>
        cases h
        exact .failed arm (settles_of_settle hsettle)
      · next hsettle => exact .again arm (settles_of_settle hsettle) (ih h)

/-- What the rounds show is what a caller sees. -/
theorem readParts_sound {fuel : Nat} {mp : Multipart ε} {t : Transcript ε}
    (h : readParts H fuel mp = some t) : ReadParts H mp t := by
  induction fuel generalizing mp t with
  | zero => cases h
  | succ fuel ih =>
    rw [readParts] at h
    split at h
    · cases h
    · next hnext =>
      cases h
      exact .finished (nextPart_sound hnext)
    · next hnext =>
      cases h
      exact .failed (nextPart_sound hnext)
    · next hnext =>
      split at h
      · cases h
      · next hheaders =>
        cases h
        exact .badHeaders (nextPart_sound hnext) (drains_of_drain hheaders)
      · next hheaders =>
        split at h
        · cases h
        · next hdata =>
          cases h
          exact .badData (nextPart_sound hnext) (drains_of_drain hheaders) (drains_of_drain hdata)
        · next hdata =>
          obtain ⟨t', hrest, rfl⟩ := Option.map_eq_some_iff.mp h
          exact .part (nextPart_sound hnext) (drains_of_drain hheaders) (drains_of_drain hdata)
            (ih hrest)

/-- The boundary `b`. -/
def sampleBoundary : Boundary := ⟨ascii "b", by decide⟩

def sampleBlock : Bytes := ascii "A: b\r\n\r\n"

/-- `httparse` on the empty block and on a block with one header. -/
def sampleHttparse : Httparse where
  parseHeaders block _ :=
    if block = sampleBlock then .complete 8 [⟨.ofLength 0 1, .ofLength 3 1⟩]
    else if block = crlf then .complete 2 []
    else .failed
  within := by
    intro block slots dataStart headers h
    split at h
    · next hblock =>
      cases h
      rw [hblock]
      decide
    · split at h
      · next hblock =>
        cases h
        rw [hblock]
        decide
      · cases h

def sampleChunks : List Bytes := [ascii "--b\r\nA: b\r\n\r\nhi\r\n--b--\r\n"]

/-- The same body, split within the boundary line, the header block and the delimiter. -/
def sampleSplit : List Bytes :=
  [ascii "--b\r", ascii "\nA: b\r\n\r", ascii "\nhi\r\n--", ascii "b--\r\n"]

theorem parts_independent_of_split_sample :
    sampleChunks.flatten = sampleSplit.flatten ∧ ∀ t₁ t₂ : Transcript Empty,
      ReadParts sampleHttparse (new (ofChunks sampleChunks) sampleBoundary 16) t₁ →
        ReadParts sampleHttparse (new (ofChunks sampleSplit) sampleBoundary 16) t₂ →
          t₁.parts = t₂.parts ∧ t₁.outcome = t₂.outcome := by
  have hbody : sampleChunks.flatten = sampleSplit.flatten := by decide
  obtain ⟨-, -, h⟩ := parts_independent_of_split (ε := Empty) sampleHttparse sampleBoundary 16
    sampleChunks sampleSplit (by decide) (by decide) hbody
  exact ⟨hbody, fun t₁ t₂ h₁ h₂ => ⟨(h t₁ t₂ h₁ h₂).1, (h t₁ t₂ h₁ h₂).2.1⟩⟩

/-- A part without headers that is never terminated, its data in one long chunk. -/
def unterminated : List Bytes := [ascii "--b\r\n\r\n", List.replicate 2049 120]

/-- The same body, with the last byte in a chunk of its own. -/
def unterminatedSplit : List Bytes :=
  [ascii "--b\r\n\r\n", List.replicate 2048 120, List.replicate 1 120]

/-- How much data is seen of the part that was begun. -/
def openLength (t : Transcript ε) : Option Nat := t.openPart.map fun part => part.data.length

set_option maxRecDepth 10000 in
/-- What is seen of a part that is never terminated depends on the split: a long chunk is passed on
as a whole, of short ones the last bytes are kept back. -/
theorem unterminated_part_depends_on_split :
    (∀ c ∈ unterminated, c ≠ []) ∧ (∀ c ∈ unterminatedSplit, c ≠ []) ∧
      unterminated.flatten = unterminatedSplit.flatten ∧ ∃ t₁ t₂ : Transcript Empty,
        ReadParts sampleHttparse (new (ofChunks unterminated) sampleBoundary 16) t₁ ∧
          ReadParts sampleHttparse (new (ofChunks unterminatedSplit) sampleBoundary 16) t₂ ∧
            t₁.openPart ≠ t₂.openPart := by
  have h₁ : (readParts (ε := Empty) sampleHttparse 8
      (new (ofChunks unterminated) sampleBoundary 16)).map openLength = some (some 2049) := by
    decide +kernel
  have h₂ : (readParts (ε := Empty) sampleHttparse 8
      (new (ofChunks unterminatedSplit) sampleBoundary 16)).map openLength =
        some (some 2045) := by
    decide +kernel
  obtain ⟨t₁, hread₁, hlen₁⟩ := Option.map_eq_some_iff.mp h₁
  obtain ⟨t₂, hread₂, hlen₂⟩ := Option.map_eq_some_iff.mp h₂
  refine ⟨by decide +kernel, by decide +kernel, ?_, t₁, t₂, readParts_sound hread₁,
    readParts_sound hread₂, fun hsame => ?_⟩
  · decide +kernel
  · rw [openLength, hsame] at hlen₁
    cases hlen₁.symm.trans hlen₂

end Multipart
end S3s.FormData
