import S3s.FormData.Drivers
import S3s.FormData.Splitting

/-! # Callers that leave parts behind

A caller may ask a part for any number of its headers and chunks of data, and ask
for the next part at any point. What it is answered is what a part answers that is
a list of headers and a list of chunks; and the next part is the one that a caller
comes to who reads everything.
-/
namespace S3s.FormData
open Polling

variable {ε : Type}

/-- What a caller asks a part for: `next_header` or `next_data`. -/
inductive Ask where
  | header
  | data
deriving DecidableEq

inductive Answer where
  | header (header : Option Header)
  | data (data : Option Bytes)
deriving DecidableEq

/-- A part as its caller sees it: the headers and the chunks of data that have not been read, and
whether the data has been begun. -/
structure Cursor where
  headers : List Header
  chunks : List Bytes
  inData : Bool

namespace Cursor

/-- The next header, while the data has not been begun; the next chunk, which begins the data. -/
def answer : Ask → Cursor → Answer × Cursor
  | .header, ⟨headers, chunks, true⟩ => (.header none, ⟨headers, chunks, true⟩)
  | .header, ⟨[], chunks, false⟩ => (.header none, ⟨[], chunks, true⟩)
  | .header, ⟨h :: headers, chunks, false⟩ => (.header (some h), ⟨headers, chunks, false⟩)
  | .data, ⟨_, [], _⟩ => (.data none, ⟨[], [], true⟩)
  | .data, ⟨_, c :: chunks, _⟩ => (.data (some c), ⟨[], chunks, true⟩)

/-- The answers to a list of questions. -/
def answers : List Ask → Cursor → List Answer
  | [], _ => []
  | ask :: asks, c => (c.answer ask).1 :: answers asks (c.answer ask).2

end Cursor

namespace Multipart

/-- A caller asks a part. -/
inductive Asked (H : Httparse) : Multipart ε → List Ask → List Answer → Multipart ε → Prop where
  | nil {mp : Multipart ε} : Asked H mp [] [] mp
  | header {mp mp₁ mp' : Multipart ε} {h : Option Header} {asks : List Ask} {answers : List Answer}
    (first : Settles (pollNextHeader H) mp (.ok h) mp₁) (rest : Asked H mp₁ asks answers mp') :
    Asked H mp (.header :: asks) (.header h :: answers) mp'
  | data {mp mp₁ mp' : Multipart ε} {d : Option Bytes} {asks : List Ask} {answers : List Answer}
    (first : Settles (pollNextData H) mp (.ok d) mp₁) (rest : Asked H mp₁ asks answers mp') :
    Asked H mp (.data :: asks) (.data d :: answers) mp'

/-- A caller goes through the parts to the end: what it asks each of them, and its answers. -/
inductive Visits (H : Httparse) : Multipart ε → (Nat → List Ask) → List (List Answer) → Prop where
  | finished {mp mp' : Multipart ε} {strategy : Nat → List Ask} (next : NextPart H mp (.ok none) mp') :
    Visits H mp strategy []
  | part {mp mp₁ mp₂ : Multipart ε} {strategy : Nat → List Ask} {answers : List Answer}
    {seen : List (List Answer)} (next : NextPart H mp (.ok (some ())) mp₁)
    (asked : Asked H mp₁ (strategy 0) answers mp₂)
    (rest : Visits H mp₂ (fun n => strategy (n + 1)) seen) : Visits H mp strategy (answers :: seen)

variable {H : Httparse} {mp mp' mp₁ mp₂ mp₃ : Multipart ε}

theorem Asked.unique {asks : List Ask} {answers₁ answers₂ : List Answer}
    (h₁ : Asked H mp asks answers₁ mp₁) (h₂ : Asked H mp asks answers₂ mp₂) :
    answers₁ = answers₂ ∧ mp₁ = mp₂ := by
  induction h₁ generalizing answers₂ with
  | nil =>
    cases h₂
    exact ⟨rfl, rfl⟩
  | header first rest ih =>
    cases h₂ with
    | header first' rest' =>
      obtain ⟨heq, rfl⟩ := first.unique first'
      cases heq
      obtain ⟨rfl, hmp⟩ := ih rest'
      exact ⟨rfl, hmp⟩
  | data first rest ih =>
    cases h₂ with
    | data first' rest' =>
      obtain ⟨heq, rfl⟩ := first.unique first'
      cases heq
      obtain ⟨rfl, hmp⟩ := ih rest'
      exact ⟨rfl, hmp⟩

theorem Visits.unique {strategy : Nat → List Ask} {seen₁ seen₂ : List (List Answer)}
    (h₁ : Visits H mp strategy seen₁) (h₂ : Visits H mp strategy seen₂) : seen₁ = seen₂ := by
  induction h₁ generalizing seen₂ with
  | finished next =>
    cases h₂ with
    | finished next' => rfl
    | part next' asked' rest' => cases (next.unique next').1
  | part next asked rest ih =>
    cases h₂ with
    | finished next' => cases (next.unique next').1
    | part next' asked' rest' =>
      obtain ⟨-, rfl⟩ := next.unique next'
      obtain ⟨rfl, rfl⟩ := asked.unique asked'
      rw [ih rest']

/-- Between two parts: no header block is at hand, and no part is handed out. -/
structure Fresh (mp : Multipart ε) : Prop where
  headers : mp.headers = none
  handed : mp.partHandedOut = false

/-- Behind the headers of a part: the data has been begun, or has been read. -/
structure InData (mp : Multipart ε) : Prop extends Fresh mp where
  state : mp.state = .readingPartData ∨ mp.state = .readingBoundary

/-- The next chunk of data is read from the buffer. -/
theorem InData.pollNextData (h : InData mp) : pollNextData H mp = mp.pollNextPartDataChunk := by
  have hensure : mp.pollEnsureHeaders H = (.ready (.ok ()), mp) := by
    unfold pollEnsureHeaders
    rcases h.state with hstate | hstate
    · rw [if_pos (by simp [hstate])]
    · rw [if_neg (by simp [hstate, h.headers]), if_pos (by simp [hstate])]
  have hfinish : mp.finishHeaders = mp := by
    rw [finishHeaders, h.headers]
  rw [Multipart.pollNextData, hensure, onReady_ok, hfinish]

/-- There are no more headers. -/
theorem InData.pollNextHeader (h : InData mp) : pollNextHeader H mp = (.ready (.ok none), mp) := by
  have hensure : mp.pollEnsureHeaders H = (.ready (.ok ()), mp) := by
    unfold pollEnsureHeaders
    rcases h.state with hstate | hstate
    · rw [if_pos (by simp [hstate])]
    · rw [if_neg (by simp [hstate, h.headers]), if_pos (by simp [hstate])]
  rw [Multipart.pollNextHeader, hensure, onReady_ok, nextHeaderInner, h.headers]

theorem pollNextPartDataChunk_headers (mp : Multipart ε) :
    mp.pollNextPartDataChunk.2.headers = mp.headers := by
  unfold pollNextPartDataChunk
  split
  · rfl
  · split
    · rfl
    · next delimiter hdelimiter =>
      obtain ⟨-, -, hheaders⟩ := onBuffer_stays mp (StreamBuffer.dataChunkLoop delimiter)
      rcases hbuffer : mp.onBuffer (StreamBuffer.dataChunkLoop delimiter) with
        ⟨_ | (e | (data | data)), mp₁⟩ <;> rw [hbuffer] at hheaders <;> exact hheaders

theorem InData.next {r : Poll (Except (Error ε) (Option Bytes))} (h : InData mp)
    (hpoll : mp.pollNextPartDataChunk = (r, mp')) : InData mp' := by
  have hstays := mp.pollNextPartDataChunk_stays
  have hheaders := mp.pollNextPartDataChunk_headers
  rw [hpoll] at hstays hheaders
  refine ⟨⟨hheaders.trans h.headers, hstays.2.trans h.handed⟩, ?_⟩
  rcases hstays.1 with hsame | hboundary
  · rw [hsame]
    exact h.state
  · exact .inr hboundary

theorem InData.settles {r : Except (Error ε) (Option Bytes)} (h : InData mp)
    (hsettles : Settles (Multipart.pollNextData H) mp r mp') : InData mp' := by
  refine hsettles.invariant (Q := fun _ mp => InData mp) (fun mp₁ mp₂ hmp hpoll => ?_)
    (fun mp₁ r mp₂ hmp hpoll => ?_) h
  · rw [hmp.pollNextData] at hpoll
    exact hmp.next hpoll
  · rw [hmp.pollNextData] at hpoll
    exact hmp.next hpoll

/-- Behind the last chunk there is none. -/
theorem pollNextPartDataChunk_again (h : mp.pollNextPartDataChunk = (.ready (.ok none), mp')) :
    mp'.pollNextPartDataChunk = (.ready (.ok none), mp') := by
  unfold pollNextPartDataChunk at h
  split at h
  · next hstate =>
    cases h
    exact if_pos hstate
  · next hstate =>
    split at h
    · next hnone =>
      cases h
      rw [pollNextPartDataChunk, if_neg hstate, hnone]
    · obtain ⟨chunk, mp₁, -, hlast⟩ := onReady_eq_ok h
      cases chunk with
      | last data =>
        obtain rfl := congrArg Prod.snd hlast
        rfl
      | more data => cases hlast

theorem InData.done (h : InData mp) (hsettles : Settles (Multipart.pollNextData H) mp (.ok none) mp') :
    Drains (Multipart.pollNextData H) mp' [] (.ok ()) mp' := by
  have hin := h.settles hsettles
  generalize hr : (.ok none : Except (Error ε) (Option Bytes)) = r at hsettles
  refine .done (.ready ?_)
  rw [hin.pollNextData]
  induction hsettles with
  | ready result =>
    subst hr
    rw [h.pollNextData] at result
    exact pollNextPartDataChunk_again result
  | pending result rest ih =>
    rw [h.pollNextData] at result
    exact ih (h.next result) hin hr

/-- A chunk that is handed out has bytes in it. -/
theorem pollNextPartDataChunk_ne {data : Bytes}
    (h : mp.pollNextPartDataChunk = (.ready (.ok (some data)), mp')) : data ≠ [] := by
  unfold pollNextPartDataChunk at h
  split at h
  · cases h
  · split at h
    · cases h
    · next delimiter hdelimiter =>
      obtain ⟨chunk, mp₁, hbuffer, hlast⟩ := onReady_eq_ok h
      unfold onBuffer at hbuffer
      split at hbuffer
      · cases hbuffer
      · next b hb =>
        rcases hloop : b.dataChunkLoop delimiter with ⟨r, b'⟩
        rw [hloop] at hbuffer
        cases hbuffer
        obtain ⟨-, hmore⟩ := StreamBuffer.dataChunkLoop_weight delimiter b chunk b' hloop
        cases chunk with
        | last last =>
          simp only at hlast
          split at hlast
          · cases hlast
          · next hne =>
            cases hlast
            simpa using hne
        | more more =>
          cases hlast
          exact List.ne_nil_of_length_pos (hmore rfl)

/-- The header block is read, or has been: the machine is as before but for its headers. -/
theorem ensured {mp mpE : Multipart ε} (hstate : mp.state = .readingPartHeaders)
    (h : Settles (pollEnsureHeaders H) mp (.ok ()) mpE) :
    mpE.state = .readingPartHeaders ∧ mpE.partHandedOut = mp.partHandedOut ∧
      ∃ block, mpE.headers = some block := by
  have hlast := h.invariant
    (P := fun mp₁ => mp₁.state = .readingPartHeaders ∧ mp₁.partHandedOut = mp.partHandedOut)
    (Q := fun r mp₁ => mp₁.state = .readingPartHeaders ∧ mp₁.partHandedOut = mp.partHandedOut ∧
      (r = .ok () → mp₁.headers.isSome = true))
    (fun mp₁ mp₂ hmp hpoll => ?_) (fun mp₁ r mp₂ hmp hpoll => ?_) ⟨hstate, rfl⟩
  · exact ⟨hlast.1, hlast.2.1, Option.isSome_iff_exists.mp (hlast.2.2 rfl)⟩
  · obtain ⟨hsame, hhanded, -⟩ := pollEnsureHeaders_stays hmp.1 hpoll
    exact ⟨hsame.trans hmp.1, hhanded.trans hmp.2⟩
  · obtain ⟨hsame, hhanded, hsome⟩ := pollEnsureHeaders_stays hmp.1 hpoll
    refine ⟨hsame.trans hmp.1, hhanded.trans hmp.2, ?_⟩
    rintro rfl
    exact hsome rfl

/-- Among the headers of a part: the block at hand, or the next one in the buffer, leads to the data
that the given machine begins with. -/
structure InHeaders (H : Httparse) (mp₂ mp : Multipart ε) : Prop where
  state : mp.state = .readingPartHeaders
  handed : mp.partHandedOut = true
  finish : ∃ mpE, Settles (pollEnsureHeaders H) mp (.ok ()) mpE ∧ mpE.finishHeaders = mp₂

/-- A header is asked for: the block is at hand, and a header in it or its end is answered. -/
theorem nextHeader_cases {h : Option Header} (hstate : mp.state = .readingPartHeaders)
    (hsettles : Settles (pollNextHeader H) mp (.ok h) mp') :
    ∃ mpE, Settles (pollEnsureHeaders H) mp (.ok ()) mpE ∧
      ((h = none ∧ mp' = mpE.finishHeaders) ∨ ∃ block header, h = some header ∧
        mpE.headers = some block ∧
        mp' = { mpE with headers := some { block with next := block.next + 1 } }) := by
  obtain ⟨u, mpE, hensure, hlast⟩ := hsettles.of_onReady (fun mp => rfl) fun _ mp => ⟨_, _, rfl⟩
  obtain ⟨-, -, block, hblock⟩ := ensured hstate hensure
  refine ⟨mpE, hensure, ?_⟩
  have hinner : mpE.nextHeaderInner = (.ok h, mp') := by
    obtain ⟨hresult, hmp⟩ := Prod.mk.inj hlast
    exact Prod.ext (Poll.ready.inj hresult) hmp
  rw [nextHeaderInner, hblock] at hinner
  dsimp only at hinner
  split at hinner
  · cases hinner
    exact .inl ⟨rfl, rfl⟩
  · next span hspan =>
    split at hinner
    · cases hinner
    · next b hb =>
      cases hread : readHeader (ε := ε) span b.buf with
      | error e =>
        rw [hread] at hinner
        cases hinner
      | ok header =>
        rw [hread] at hinner
        cases hinner
        exact .inr ⟨block, header, rfl, hblock, rfl⟩

/-- With a block at hand nothing is waited for. -/
theorem ensured_of_block {mp mpE : Multipart ε} {block : HeaderBlock} (hblock : mp.headers = some block)
    (h : Settles (pollEnsureHeaders H) mp (.ok ()) mpE) : mpE = mp := by
  have hready : mp.pollEnsureHeaders H = (.ready (.ok ()), mp) := by
    rw [pollEnsureHeaders, if_pos (by simp [hblock])]
  exact ((Settles.ready hready).unique h).2.symm

/-- How far the headers have been read does not matter behind them. -/
theorem finishHeaders_next {block : HeaderBlock} (hblock : mp.headers = some block) (n : Nat) :
    finishHeaders { mp with headers := some { block with next := n } } = mp.finishHeaders := by
  unfold finishHeaders
  rw [hblock]

theorem inData_finishHeaders {block : HeaderBlock} (hstate : mp.state = .readingPartHeaders)
    (hblock : mp.headers = some block) : InData mp.finishHeaders := by
  rw [finishHeaders, hblock]
  dsimp only
  rw [if_pos hstate]
  exact ⟨⟨rfl, rfl⟩, .inl rfl⟩

/-- A header that is read leaves the caller among the headers. -/
theorem InHeaders.next {h : Header} (hin : InHeaders H mp₂ mp)
    (hsettles : Settles (pollNextHeader H) mp (.ok (some h)) mp') : InHeaders H mp₂ mp' := by
  obtain ⟨mpE, hensure, hfinish⟩ := hin.finish
  obtain ⟨mpE', hensure', hcases⟩ := nextHeader_cases hin.state hsettles
  obtain ⟨-, rfl⟩ := hensure.unique hensure'
  obtain ⟨hstate, hhanded, -⟩ := ensured hin.state hensure
  rcases hcases with ⟨hnone, -⟩ | ⟨block, header, -, hblock, rfl⟩
  · cases hnone
  · refine ⟨hstate, hhanded.trans hin.handed, _, .ready (if_pos rfl), ?_⟩
    rw [finishHeaders_next hblock]
    exact hfinish

/-- All headers of a part can be read: what stands behind them. -/
theorem inHeaders_of_drains {headers : List Header} (hstate : mp.state = .readingPartHeaders)
    (hhanded : mp.partHandedOut = true)
    (h : Drains (pollNextHeader H) mp headers (.ok ()) mp₂) : InHeaders H mp₂ mp ∧ InData mp₂ := by
  generalize hr : (.ok () : Except (Error ε) Unit) = r at h
  induction h with
  | failed last => cases hr
  | done last =>
    obtain ⟨mpE, hensure, hcases⟩ := nextHeader_cases hstate last
    obtain ⟨hstateE, -, block, hblock⟩ := ensured hstate hensure
    rcases hcases with ⟨-, rfl⟩ | ⟨block, header, hsome, -⟩
    · exact ⟨⟨hstate, hhanded, mpE, hensure, rfl⟩, inData_finishHeaders hstateE hblock⟩
    · cases hsome
  | item first rest ih =>
    obtain ⟨mpE, hensure, hcases⟩ := nextHeader_cases hstate first
    obtain ⟨hstateE, hhandedE, -⟩ := ensured hstate hensure
    rcases hcases with ⟨hnone, -⟩ | ⟨block, header, -, hblock, rfl⟩
    · cases hnone
    · obtain ⟨hin, hdata⟩ := ih hstateE (hhandedE.trans hhanded) hr
      obtain ⟨mpE', hensure', hfinish⟩ := hin.finish
      rw [ensured_of_block rfl hensure', finishHeaders_next hblock] at hfinish
      exact ⟨⟨hstate, hhanded, mpE, hensure, hfinish⟩, hdata⟩

/-- Data that is asked for among the headers is the data behind them. -/
theorem InHeaders.pollNextData {r : Except (Error ε) (Option Bytes)} (hin : InHeaders H mp₂ mp)
    (hdata : InData mp₂) (hsettles : Settles (Multipart.pollNextData H) mp₂ r mp') :
    Settles (Multipart.pollNextData H) mp r mp' := by
  obtain ⟨mpE, hensure, hfinish⟩ := hin.finish
  refine Settles.enter (fun mp => rfl) hensure ?_ hsettles
  rw [hfinish, hdata.pollNextData]

/-- Where a caller is in a part, with what it has not read; behind all of it stands a machine. -/
inductive Reads (H : Httparse) (mp₃ : Multipart ε) : Cursor → Multipart ε → Prop where
  | headers {mp mp₂ : Multipart ε} {headers : List Header} {chunks : List Bytes}
    (among : InHeaders H mp₂ mp) (read : Drains (pollNextHeader H) mp headers (.ok ()) mp₂)
    (behind : InData mp₂) (data : Drains (pollNextData H) mp₂ chunks (.ok ()) mp₃) :
    Reads H mp₃ ⟨headers, chunks, false⟩ mp
  | data {mp : Multipart ε} {headers : List Header} {chunks : List Bytes} (among : InData mp)
    (data : Drains (pollNextData H) mp chunks (.ok ()) mp₃) : Reads H mp₃ ⟨headers, chunks, true⟩ mp

/-- One question: the machine answers as the part does, and the caller is one further. -/
theorem Reads.answer {c : Cursor} (h : Reads H mp₃ c mp) (ask : Ask) :
    ∃ mp₁, Reads H mp₃ (c.answer ask).2 mp₁ ∧ ∀ asks answers mp', Asked H mp₁ asks answers mp' →
      Asked H mp (ask :: asks) ((c.answer ask).1 :: answers) mp' := by
  cases h with
  | headers among read behind data =>
    cases ask with
    | header =>
      cases read with
      | done last => exact ⟨_, .data behind data, fun asks answers mp' => .header last⟩
      | item first rest =>
        exact ⟨_, .headers (among.next first) rest behind data, fun asks answers mp' => .header first⟩
    | data =>
      cases data with
      | done last =>
        exact ⟨_, .data (behind.settles last) (behind.done last),
          fun asks answers mp' => .data (among.pollNextData behind last)⟩
      | item first rest =>
        exact ⟨_, .data (behind.settles first) rest,
          fun asks answers mp' => .data (among.pollNextData behind first)⟩
  | data among data =>
    cases ask with
    | header =>
      exact ⟨mp, .data among data, fun asks answers mp' => .header (.ready among.pollNextHeader)⟩
    | data =>
      cases data with
      | done last =>
        exact ⟨_, .data (among.settles last) (among.done last), fun asks answers mp' => .data last⟩
      | item first rest =>
        exact ⟨_, .data (among.settles first) rest, fun asks answers mp' => .data first⟩

/-- Any number of questions. -/
theorem Reads.asked {c : Cursor} (h : Reads H mp₃ c mp) (asks : List Ask) :
    ∃ mp' c', Asked H mp asks (c.answers asks) mp' ∧ Reads H mp₃ c' mp' := by
  induction asks generalizing c mp with
  | nil => exact ⟨mp, c, .nil, h⟩
  | cons ask asks ih =>
    obtain ⟨mp₁, hreads, hasked⟩ := h.answer ask
    obtain ⟨mp', c', hrest, hlast⟩ := ih hreads
    exact ⟨mp', c', hasked _ _ _ hrest, hlast⟩

theorem pollSkipPartData_eq (mp : Multipart ε) :
    mp.pollSkipPartData =
      match mp.pollNextPartDataChunk with
      | (.pending, mp) => (.pending, mp)
      | (.ready (.ok (some _)), mp) => mp.pollSkipPartData
      | (.ready (.ok none), mp) => (.ready (.ok ()), mp)
      | (.ready (.error e), mp) => (.ready (.error e), mp) := by
  rw [pollSkipPartData]
  split <;> next h => rw [h]

theorem InData.nextPartReturns (h : InData mp) : mp.nextPartReturns = none := by
  unfold Multipart.nextPartReturns
  rcases h.state with hstate | hstate <;> rw [hstate]

/-- Data that has not been read is skipped. -/
theorem InData.nextPartAwaits (h : InData mp) :
    nextPartAwaits H mp = onReady mp.pollSkipPartData fun _ mp => mp.pollAdvanceAfterBoundary := by
  rcases h.state with hstate | hstate
  · rw [Multipart.nextPartAwaits, hstate]
  · have hchunk : mp.pollNextPartDataChunk = (.ready (.ok none), mp) := by
      rw [pollNextPartDataChunk, if_pos (by simp [hstate])]
    rw [Multipart.nextPartAwaits, hstate, pollSkipPartData_eq, hchunk, onReady_ok]

/-- A chunk that is read, or the end of the data, does not matter to the step that skips them. -/
theorem InData.skip {d : Option Bytes} {r : Except (Error ε) Unit} (h : InData mp)
    (hfirst : Settles (Multipart.pollNextData H) mp (.ok d) mp₁)
    (hrest : Settles (Multipart.nextPartAwaits H) mp₁ r mp') :
    Settles (Multipart.nextPartAwaits H) mp r mp' := by
  generalize hv : (.ok d : Except (Error ε) (Option Bytes)) = v at hfirst
  induction hfirst with
  | ready result =>
    subst hv
    rw [h.pollNextData] at result
    refine hrest.of_first ?_
    rw [h.nextPartAwaits, (h.next result).nextPartAwaits, pollSkipPartData_eq, result]
    cases d with
    | some c => rfl
    | none => rw [pollSkipPartData_eq, pollNextPartDataChunk_again result]
  | pending result rest ih =>
    rw [h.pollNextData] at result
    refine .pending ?_ (ih (h.next result) hrest hv)
    rw [h.nextPartAwaits, pollSkipPartData_eq, result, onReady_pending]

/-- Wherever a caller is in the data of a part, the same part comes next. -/
theorem InData.nextPart {chunks : List Bytes} {r : Except (Error ε) (Option Unit)} (h : InData mp)
    (data : Drains (Multipart.pollNextData H) mp chunks (.ok ()) mp₃) (next : NextPart H mp₃ r mp') :
    NextPart H mp r mp' := by
  have hskip : ∀ a mp₂, Settles (Multipart.nextPartAwaits H) mp₃ a mp₂ →
      Settles (Multipart.nextPartAwaits H) mp a mp₂ := by
    intro a mp₂ hawait
    clear next
    generalize hv : (.ok () : Except (Error ε) Unit) = v at data
    induction data with
    | failed last => cases hv
    | done last => exact h.skip last hawait
    | item first rest ih => exact h.skip first (ih (h.settles first) hawait hv)
  have hlast : InData mp₃ := by
    clear next hskip
    generalize hv : (.ok () : Except (Error ε) Unit) = v at data
    induction data with
    | failed last => cases hv
    | done last => exact h.settles last
    | item first rest ih => exact ih (h.settles first) hv
  cases next with
  | returns arm => cases hlast.nextPartReturns.symm.trans arm
  | failed arm await => exact .failed h.nextPartReturns (hskip _ _ await)
  | again arm await rest => exact .again h.nextPartReturns (hskip _ _ await) rest

/-- Headers that have not been read are discarded. -/
theorem finished_of_ensured {mpE : Multipart ε} (hstate : mp.state = .readingPartHeaders)
    (h : Settles (pollEnsureHeaders H) mp (.ok ()) mpE) :
    Settles (nextPartAwaits H) mp (.ok ()) mpE.finishHeaders := by
  have hawait : ∀ mp₁ : Multipart ε, mp₁.state = .readingPartHeaders → nextPartAwaits H mp₁ =
      onReady (mp₁.pollEnsureHeaders H) fun _ mp => (.ready (.ok ()), mp.finishHeaders) := by
    intro mp₁ hmp₁
    rw [nextPartAwaits, hmp₁]
  generalize hv : (.ok () : Except (Error ε) Unit) = v at h
  induction h with
  | ready result =>
    subst hv
    refine .ready ?_
    rw [hawait _ hstate, result, onReady_ok]
  | pending result rest ih =>
    obtain ⟨hsame, -⟩ := pollEnsureHeaders_stays hstate result
    refine .pending ?_ (ih (hsame.trans hstate) hv)
    rw [hawait _ hstate, result, onReady_pending]

/-- Wherever a caller is in a part, the same part comes next. -/
theorem Reads.nextPart {c : Cursor} {r : Except (Error ε) (Option Unit)} (h : Reads H mp₃ c mp)
    (next : NextPart H mp₃ r mp') : NextPart H mp r mp' := by
  cases h with
  | data among data => exact among.nextPart data next
  | headers among read behind data =>
    obtain ⟨mpE, hensure, rfl⟩ := among.finish
    have harm : mp.nextPartReturns = none := by
      rw [Multipart.nextPartReturns, among.state]
      exact if_pos among.handed
    exact .again harm (finished_of_ensured among.state hensure) (behind.nextPart data next)

/-- A part that is handed out begins with its headers. -/
theorem handed_of_nextPart (h : NextPart H mp (.ok (some ())) mp') :
    mp'.state = .readingPartHeaders ∧ mp'.partHandedOut = true := by
  generalize hr : (.ok (some ()) : Except (Error ε) (Option Unit)) = r at h
  induction h with
  | @returns mp mp' r arm =>
    subst hr
    unfold nextPartReturns at arm
    cases hstate : mp.state with
    | readingPartHeaders =>
      rw [hstate] at arm
      dsimp only at arm
      split at arm
      · cases arm
      · cases arm
        exact ⟨rfl, rfl⟩
    | streamTaken => rw [hstate] at arm; cases arm
    | done => rw [hstate] at arm; cases arm
    | findingFirstBoundary => rw [hstate] at arm; cases arm
    | readingPartData => rw [hstate] at arm; cases arm
    | readingBoundary => rw [hstate] at arm; cases arm
    | readingClosingDelimiter => rw [hstate] at arm; cases arm
    | readingEpilogue => rw [hstate] at arm; cases arm
  | failed arm await => cases hr
  | again arm await rest ih => exact ih hr

/-- All of a part can be read: the caller is at its beginning. -/
theorem reads_of_drains {headers : List Header} {chunks : List Bytes}
    (next : NextPart H mp (.ok (some ())) mp₁)
    (read : Drains (pollNextHeader H) mp₁ headers (.ok ()) mp₂)
    (data : Drains (pollNextData H) mp₂ chunks (.ok ()) mp₃) :
    Reads H mp₃ ⟨headers, chunks, false⟩ mp₁ ∧ ∀ c ∈ chunks, c ≠ [] := by
  obtain ⟨hstate, hhanded⟩ := handed_of_nextPart next
  obtain ⟨hamong, hbehind⟩ := inHeaders_of_drains hstate hhanded read
  refine ⟨.headers hamong read hbehind data, ?_⟩
  clear read next hamong
  generalize hv : (.ok () : Except (Error ε) Unit) = v at data
  induction data with
  | failed last => cases hv
  | done last => nofun
  | item first rest ih =>
    intro c hc
    rcases List.mem_cons.mp hc with rfl | hc
    · refine first.invariant (P := InData) (Q := fun r _ => ∀ c, r = .ok (some c) → c ≠ [])
        (fun mp₁ mp₂ hmp hpoll => ?_) (fun mp₁ r mp₂ hmp hpoll => ?_) hbehind _ rfl
      · rw [hmp.pollNextData] at hpoll
        exact hmp.next hpoll
      · rintro c rfl
        rw [hmp.pollNextData] at hpoll
        exact pollNextPartDataChunk_ne hpoll
    · exact ih (hbehind.settles first) hv c hc

end Multipart

/-- The parts of a body, each of them answering what it was asked: with its headers, and with its
data in chunks. -/
def Served (strategy : Nat → List Ask) : List Part → List (List Answer) → Prop
  | [], [] => True
  | part :: parts, answers :: seen =>
    (∃ chunks : List Bytes, chunks.flatten = part.data ∧ (∀ c ∈ chunks, c ≠ []) ∧
      answers = Cursor.answers (strategy 0) ⟨part.headers, chunks, false⟩) ∧
      Served (fun n => strategy (n + 1)) parts seen
  | _, _ => False

namespace Multipart

variable {H : Httparse}

/-- A caller goes through the parts that a caller sees who reads everything. -/
theorem visits_of_reads {mp mp₀ : Multipart ε} {t : Transcript ε} (h : ReadParts H mp t)
    (hok : t.outcome = .ok ()) (hnext : ∀ r mp', NextPart H mp r mp' → NextPart H mp₀ r mp')
    (strategy : Nat → List Ask) :
    ∃ seen, Visits H mp₀ strategy seen ∧ Served strategy t.parts seen := by
  induction h generalizing mp₀ strategy with
  | finished next => exact ⟨[], .finished (hnext _ _ next), trivial⟩
  | failed next => cases hok
  | badHeaders next read => cases hok
  | badData next read data => cases hok
  | part next read data rest ih =>
    obtain ⟨hreads, hne⟩ := reads_of_drains next read data
    obtain ⟨mp', c', hasked, hlast⟩ := hreads.asked (strategy 0)
    obtain ⟨seen, hvisits, hserved⟩ :=
      ih hok (fun r mp'' => hlast.nextPart) fun n => strategy (n + 1)
    exact ⟨_, .part (hnext _ _ next) hasked hvisits, ⟨_, rfl, hne, rfl⟩, hserved⟩

/-- A body that a caller accepts who reads everything, and a caller with any strategy: it comes to
the end without an error, and the parts it is handed out on the way are the parts of the body, in
order, each answering what it is asked with the headers and the data that have not been read. -/
theorem parts_delivered_once_in_order (H : Httparse) (boundary : Boundary) (max : Nat)
    (script : Script ε) (parts : List Part)
    (accepted : ReadParts H (new script boundary max) ⟨parts, none, .ok ()⟩)
    (strategy : Nat → List Ask) :
    (∃ seen, Visits H (new script boundary max) strategy seen) ∧
      ∀ seen, Visits H (new script boundary max) strategy seen → Served strategy parts seen := by
  obtain ⟨seen, hvisits, hserved⟩ := visits_of_reads accepted rfl (fun _ _ h => h) strategy
  refine ⟨⟨seen, hvisits⟩, fun seen' hseen' => ?_⟩
  rw [hseen'.unique hvisits]
  exact hserved

/-- Two parts, the second one without headers. -/
def twoParts : List Bytes :=
  [ascii "--b\r\nA: b\r\n\r\nhi\r\n--b\r\n\r", ascii "\nho\r\n--b--\r\n"]

/-- One header of the first part is read, and of the second part the data. -/
def sampleStrategy : Nat → List Ask
  | 0 => [.header]
  | _ => [.data, .data]

theorem parts_delivered_once_in_order_sample :
    ∃ seen, Visits (ε := Empty) sampleHttparse (new (ofChunks twoParts) sampleBoundary 16)
        sampleStrategy seen ∧
      Served sampleStrategy [⟨[⟨ascii "A", ascii "b"⟩], ascii "hi"⟩, ⟨[], ascii "ho"⟩] seen := by
  have h : (readParts (ε := Empty) sampleHttparse 8
      (new (ofChunks twoParts) sampleBoundary 16)).map
        (fun t => (t.parts, t.openPart, t.outcome)) =
          some ([⟨[⟨ascii "A", ascii "b"⟩], ascii "hi"⟩, ⟨[], ascii "ho"⟩], none, .ok ()) := by
    decide +kernel
  obtain ⟨⟨parts, openPart, outcome⟩, hread, heq⟩ := Option.map_eq_some_iff.mp h
  cases heq
  obtain ⟨⟨seen, hvisits⟩, hserved⟩ := parts_delivered_once_in_order sampleHttparse sampleBoundary 16
    (ofChunks twoParts) _ (readParts_sound hread) sampleStrategy
  exact ⟨seen, hvisits, hserved seen hvisits⟩

end Multipart
end S3s.FormData
