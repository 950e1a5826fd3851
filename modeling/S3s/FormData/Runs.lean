import S3s.FormData.HeaderSearch

/-! # Runs of the parser

The readers, polled until they are ready, and the states of the machine between
them: what a caller is handed out is what the text to come says.
-/
namespace S3s.FormData
open Polling Search

variable {ε : Type}

namespace StreamBuffer

variable {b : StreamBuffer ε}

/-- The preamble is read to its end. -/
theorem readTo_settles {needle : Bytes} (hneedle : needle ≠ []) (hb : b.Plain) :
    ∃ r b', Settles (pollReadTo needle) b r b' ∧ ReadsTo needle b r b' := by
  refine Settles.of_yields (P := fun b₁ => Left b b₁.view b₁ ∧
    afterFirst needle b.view = afterFirst needle b₁.view) pendings ?_ b ⟨hb.refl, rfl⟩
  rintro b₁ ⟨hleft, hsame⟩
  refine (pollReadTo_yields hneedle b₁ hleft.plain).mono ?_ ?_
  · rintro b' ⟨text, ⟨hleft', hless⟩, htext⟩
    obtain rfl := hleft'.view
    exact ⟨hless, hleft.trans hleft', hsame.trans htext.symm⟩
  · exact fun r b' hr => hr.trans hleft hsame

/-- Padding and a line end are read. -/
theorem padding_settles (hb : b.Plain) :
    ∃ r b', Settles consumePaddingAndCrlf b r b' ∧
      Computes b ((paddingNext b.view).map (Prod.mk ())) r b' := by
  refine Settles.of_yields (P := fun b₁ => Left b b₁.view b₁ ∧
    paddingNext (ε := ε) b₁.view = paddingNext b.view) pendings ?_ b ⟨hb.refl, rfl⟩
  rintro b₁ ⟨hleft, hsame⟩
  have h := consumePaddingAndCrlf_yields b₁ hleft.plain
  rw [hsame] at h
  refine h.mono ?_ fun r b' hr => hr.trans hleft
  rintro b' ⟨text, ⟨hleft', hless⟩, htext⟩
  obtain rfl := hleft'.view
  exact ⟨hless, hleft.trans hleft', htext⟩

/-- What follows a boundary is read, when the stream is always ready or no padding follows. -/
theorem boundary_settles (hb : b.Plain)
    (hsafe : b.pendings = 0 ∨ ¬ Bytes.isBlank (b.view.headD 0) = true) :
    ∃ r b', Settles advanceAfterBoundary b r b' ∧ Computes b (boundaryNext b.view) r b' := by
  refine Settles.of_yields (P := fun b₁ => Left b b.view b₁) pendings ?_ b hb.refl
  intro b₁ hleft
  have h := advanceAfterBoundary_yields b₁ hleft.plain
  rw [hleft.view] at h
  refine h.mono ?_ fun r b' hr => hr.trans hleft
  rintro b' ⟨text, ⟨hleft', hless⟩, rfl | ⟨hblank, -⟩⟩
  · exact ⟨hless, hleft.trans hleft'⟩
  · rcases hsafe with hsteady | hplain
    · have hle := hleft.pendings
      omega
    · exact (hplain hblank).elim

/-- A header block is read. -/
theorem header_settles (max : Nat) (hb : b.Plain) (hresumable : b.Resumable) :
    ∃ r b', Settles (pollReadHeaderBlock max) b r b' ∧ ReadsHeader max b r b' := by
  refine Settles.of_yields (P := fun b₁ => b₁.Plain ∧ b₁.Resumable ∧ b₁.view = b.view ∧
    b₁.pendings ≤ b.pendings) pendings ?_ b ⟨hb, hresumable, rfl, le_refl _⟩
  rintro b₁ ⟨hplain, hresumable₁, hview, hle⟩
  refine (pollReadHeaderBlock_yields max b₁ hplain hresumable₁).mono ?_
    fun r b' hr => hr.trans hview hle
  intro b' hw
  exact ⟨hw.pendings, hw.plain, hw.resumable, hw.view.trans hview, hw.pendings.le.trans hle⟩

/-- A chunk of data is read. -/
theorem data_settles {delimiter : Bytes} (hne : delimiter ≠ []) (hb : b.Plain) :
    ∃ r b', Settles (dataChunkLoop delimiter) b r b' ∧ ReadsData delimiter b r b' := by
  refine Settles.of_yields (P := fun b₁ => Left b b.view b₁) pendings ?_ b hb.refl
  intro b₁ hleft
  have h := dataChunkLoop_yields hne b₁ hleft.plain
  rw [hleft.view] at h
  exact h.mono (fun b' hw => ⟨hw.2, hleft.trans hw.1⟩) fun r b' hr => hr.trans hleft

/-- The end of the stream is read. -/
theorem epilogue_settles (hb : b.Plain) :
    ∃ r b', Settles epilogue b r b' ∧
      r = if b.view.isEmpty then .ok () else .error .streamPartNotLast := by
  refine Settles.of_yields (P := fun b₁ => Left b b.view b₁) pendings ?_ b hb.refl
  intro b₁ hleft
  have h := epilogue_yields b₁ hleft.plain
  rw [hleft.view] at h
  refine h.mono (fun b' hw => ⟨hw.2, hleft.trans hw.1⟩) ?_
  rintro (e | u) b' hr
  · obtain ⟨rfl, hne⟩ := hr
    rw [if_neg (by simpa using hne)]
  · have hnil : b.view = [] := hr
    rw [hnil]
    rfl

/-- A stream that is always ready, between two steps of the machine. -/
structure Steady (b : StreamBuffer ε) : Prop where
  plain : b.Plain
  inactive : b.readUntilActive = false
  pendings : b.pendings = 0

theorem Steady.resumable (hb : b.Steady) : b.Resumable := by
  intro hactive
  rw [hb.inactive] at hactive
  cases hactive

theorem Steady.left {b' : StreamBuffer ε} {text : Bytes} (hb : b.Steady) (h : Left b text b') :
    b'.Steady :=
  ⟨h.plain, h.active.trans hb.inactive, Nat.le_zero.mp (h.pendings.trans_eq hb.pendings)⟩

end StreamBuffer

/-- The machine between two steps: its buffer, its state, and the headers of the part it is in. -/
def machine (boundary : Boundary) (max : Nat) (state : State) (headers : Option HeaderBlock)
    (partHandedOut : Bool) (b : StreamBuffer ε) : Multipart ε where
  buffer := some b
  firstBoundary := makeFirstBoundary boundary.bytes
  delimiterFinder := some (makeDelimiter boundary.bytes)
  maxBufferSize := max
  state := state
  headers := headers
  partHandedOut := partHandedOut

namespace Multipart

variable {boundary : Boundary} {max : Nat} {state : State} {headers : Option HeaderBlock}
  {handed : Bool} {b b' : StreamBuffer ε} {α β : Type}
  {f : StreamBuffer ε → Poll (Except (Error ε) α) × StreamBuffer ε}
  {step : Multipart ε → Poll (Except (Error ε) β) × Multipart ε}
  {k : α → Multipart ε → Poll (Except (Error ε) β) × Multipart ε}

/-- A step of the machine that is a reading of the buffer and what is done with its result: the
machine waits where the buffer waits. -/
theorem settles_lift {r : Except (Error ε) α} {r' : Except (Error ε) β} {mp' : Multipart ε}
    (h : Settles f b r b')
    (hstep : ∀ b, step (machine boundary max state headers handed b) =
      onReady ((machine boundary max state headers handed b).onBuffer f) k)
    (hlast : onReady (.ready r, machine boundary max state headers handed b') k = (.ready r', mp')) :
    Settles step (machine boundary max state headers handed b) r' mp' := by
  induction h with
  | @ready b b' r result =>
    refine .ready ?_
    rw [hstep, ← hlast, onBuffer]
    simp only [machine, result]
  | @pending b b₁ b' r result rest ih =>
    refine .pending ?_ (ih hlast)
    rw [hstep, onBuffer]
    simp only [machine, result]
    rfl

variable {H : Httparse}

/-- Behind the closing mark: `next_part` ends as the text says. -/
theorem nextPart_closing (H : Httparse) (boundary : Boundary) (max : Nat) (hb : b.Plain) :
    ∃ mp', NextPart H (machine boundary max .readingClosingDelimiter none false b)
      ((closingNext b.view).map fun _ => none) mp' := by
  obtain ⟨r, b₁, hpadding, hcomputes⟩ := StreamBuffer.padding_settles hb
  cases r with
  | error e =>
    rw [closingNext, hcomputes.error_of_map]
    exact ⟨_, .failed rfl (settles_lift hpadding (fun _ => rfl) rfl)⟩
  | ok u =>
    obtain ⟨text, htext, hleft⟩ := hcomputes.ok_of_map
    obtain ⟨r, b₂, hepilogue, hr⟩ := StreamBuffer.epilogue_settles hleft.plain
    rw [hleft.view] at hr
    have hcrlf : Settles (nextPartAwaits H) (machine boundary max .readingClosingDelimiter none false b)
        (.ok ()) (machine boundary max .readingEpilogue none false b₁) :=
      settles_lift hpadding (fun _ => rfl) rfl
    rw [closingNext, htext]
    dsimp only
    split at hr
    · next hempty =>
      subst hr
      rw [if_pos hempty]
      have hend : Settles (nextPartAwaits H) (machine boundary max .readingEpilogue none false b₁)
          (.ok ()) (machine boundary max .done none false b₂) :=
        settles_lift hepilogue (fun _ => rfl) rfl
      exact ⟨_, .again rfl hcrlf (.again rfl hend (.returns rfl))⟩
    · next hmore =>
      subst hr
      rw [if_neg hmore]
      exact ⟨_, .again rfl hcrlf (.failed rfl (settles_lift hepilogue (fun _ => rfl) rfl))⟩

/-- Behind a boundary that nothing can follow: `next_part` fails as the text says. -/
theorem nextPart_boundary_error (H : Httparse) (boundary : Boundary) (max : Nat) {e : Error ε}
    (hb : b.Plain) (hsteady : b.pendings = 0) (h : boundaryNext b.view = .error e) :
    ∃ mp', NextPart H (machine boundary max .readingBoundary none false b) (.error e) mp' := by
  obtain ⟨r, b₁, hsettles, hcomputes⟩ := StreamBuffer.boundary_settles hb (.inl hsteady)
  rw [h] at hcomputes
  cases r with
  | error e' =>
    cases hcomputes
    exact ⟨_, .failed rfl (settles_lift hsettles (fun _ => rfl) rfl)⟩
  | ok state =>
    obtain ⟨text, htext, -⟩ := hcomputes
    cases htext

/-- Behind a boundary: the machine moves on as the text says. -/
theorem boundary_awaited {text : Bytes} (hb : b.Plain) (hsteady : b.pendings = 0)
    (h : boundaryNext (ε := ε) b.view = .ok (state, text)) :
    ∃ b₁, b.Left text b₁ ∧
      Settles (nextPartAwaits H) (machine boundary max .readingBoundary none false b) (.ok ())
        (machine boundary max state none false b₁) := by
  obtain ⟨r, b₁, hsettles, hcomputes⟩ := StreamBuffer.boundary_settles hb (.inl hsteady)
  rw [h] at hcomputes
  cases r with
  | error e => cases hcomputes
  | ok state =>
    obtain ⟨text, htext, hleft⟩ := hcomputes
    cases htext
    exact ⟨b₁, hleft, settles_lift hsettles (fun _ => rfl) rfl⟩

theorem nextPart_boundary_closing (H : Httparse) (boundary : Boundary) (max : Nat) {text : Bytes}
    (hb : b.Plain) (hsteady : b.pendings = 0)
    (h : boundaryNext (ε := ε) b.view = .ok (.readingClosingDelimiter, text)) :
    ∃ mp', NextPart H (machine boundary max .readingBoundary none false b)
      ((closingNext text).map fun _ => none) mp' := by
  obtain ⟨b₁, hleft, hnext⟩ := boundary_awaited hb hsteady h
  obtain ⟨mp', hclosing⟩ := nextPart_closing H boundary max hleft.plain
  rw [hleft.view] at hclosing
  exact ⟨mp', .again rfl hnext hclosing⟩

theorem nextPart_boundary_part (H : Httparse) (boundary : Boundary) (max : Nat) {text : Bytes}
    (hb : b.Plain) (hsteady : b.pendings = 0)
    (h : boundaryNext (ε := ε) b.view = .ok (.readingPartHeaders, text)) :
    ∃ b₁, b.Left text b₁ ∧
      NextPart H (machine boundary max .readingBoundary none false b) (.ok (some ()))
        (machine boundary max .readingPartHeaders none true b₁) := by
  obtain ⟨b₁, hleft, hnext⟩ := boundary_awaited hb hsteady h
  exact ⟨b₁, hleft, .again rfl hnext (.returns rfl)⟩

/-- With a block at hand, the next header is read from the buffer. -/
theorem pollNextHeader_block (H : Httparse) (boundary : Boundary) (max : Nat) (block : HeaderBlock)
    (b : StreamBuffer ε) :
    pollNextHeader H (machine boundary max .readingPartHeaders (some block) true b) =
      match block.spans[block.next]? with
      | none => (.ready (.ok none), machine boundary max .readingPartData none false
          { b with buf := b.buf.drop block.dataStart })
      | some span => (.ready ((readHeader span b.buf).map some),
          machine boundary max .readingPartHeaders (some { block with next := block.next + 1 })
            true b) := by
  unfold pollNextHeader pollEnsureHeaders nextHeaderInner
  simp only [machine, Option.isSome_some, Bool.true_or, if_true, onReady_ok]
  cases block.spans[block.next]? with
  | none => rfl
  | some span => rfl

/-- The headers of a block are handed out one by one, from a place on. -/
theorem headers_drain {block : HeaderBlock} {b : StreamBuffer ε} {spans : List HeaderSpan} {n : Nat}
    (hspans : block.spans.drop n = spans) :
    ∃ mp', Drains (pollNextHeader H)
        (machine boundary max .readingPartHeaders (some { block with next := n }) true b)
        (readHeaders (ε := ε) b.buf spans).1 (readHeaders b.buf spans).2 mp' ∧
      ((readHeaders (ε := ε) b.buf spans).2 = .ok () →
        mp' = machine boundary max .readingPartData none false
          { b with buf := b.buf.drop block.dataStart }) := by
  have hget : block.spans[n]? = spans.head? := by
    rw [← hspans, List.head?_drop]
  induction spans generalizing n with
  | nil =>
    refine ⟨_, .done (.ready ?_), fun _ => rfl⟩
    rw [pollNextHeader_block, hget]
    rfl
  | cons span spans ih =>
    have hpoll := pollNextHeader_block H boundary max { block with next := n } b
    simp only [hget, List.head?_cons] at hpoll
    rw [readHeaders]
    cases hread : readHeader (ε := ε) span b.buf with
    | error e =>
      rw [hread] at hpoll
      exact ⟨_, .failed (.ready hpoll), fun h => absurd h error_ne_ok⟩
    | ok header =>
      rw [hread] at hpoll
      have htail : block.spans.drop (n + 1) = spans := by
        rw [← List.tail_drop, hspans, List.tail_cons]
      have hget' : block.spans[n + 1]? = spans.head? := by
        rw [← htail, List.head?_drop]
      obtain ⟨mp', hdrains, hlast⟩ := ih htail hget'
      exact ⟨mp', .item (.ready hpoll) hdrains, hlast⟩

/-- The first header is asked for: the block is read, and what is done with it. -/
theorem pollNextHeader_unread (b : StreamBuffer ε) :
    pollNextHeader H (machine boundary max .readingPartHeaders none true b) =
      onReady ((machine boundary max .readingPartHeaders none true b).onBuffer
        (StreamBuffer.pollReadHeaderBlock max)) fun stop mp =>
          onReady (mp.parseBuffered H stop) fun _ mp =>
            (.ready mp.nextHeaderInner.1, mp.nextHeaderInner.2) :=
  onReady_assoc _ _ _

theorem headers_error (H : Httparse) (boundary : Boundary) {e : Error ε} (hb : b.Steady)
    (h : headerEnd max b.view = .error e) :
    ∃ mp', Drains (pollNextHeader H) (machine boundary max .readingPartHeaders none true b) []
      (.error e) mp' := by
  obtain ⟨r, b₁, hsettles, hread⟩ := StreamBuffer.header_settles max hb.plain hb.resumable
  cases r with
  | error e' =>
    cases h.symm.trans hread
    exact ⟨_, .failed (settles_lift hsettles pollNextHeader_unread rfl)⟩
  | ok stop => cases h.symm.trans hread.1

/-- A block that ends within the limit is found. -/
theorem header_found {stop : Nat} (hb : b.Steady) (h : headerEnd (ε := ε) max b.view = .ok stop) :
    ∃ b₁, Settles (StreamBuffer.pollReadHeaderBlock max) b (.ok stop) b₁ ∧ b.HeaderFound stop b₁ := by
  obtain ⟨r, b₁, hsettles, hread⟩ := StreamBuffer.header_settles max hb.plain hb.resumable
  cases r with
  | error e => cases h.symm.trans hread
  | ok stop' =>
    obtain ⟨hend, hfound⟩ := hread
    cases h.symm.trans hend
    exact ⟨b₁, hsettles, hfound⟩

theorem headers_unparsed (boundary : Boundary) {e : Error ε} {stop : Nat} (hb : b.Steady)
    (h : headerEnd (ε := ε) max b.view = .ok stop)
    (hparse : parseHeaderBlock H (b.view.take stop) = .error e) :
    ∃ mp', Drains (pollNextHeader H) (machine boundary max .readingPartHeaders none true b) []
      (.error e) mp' := by
  obtain ⟨b₁, hsettles, hfound⟩ := header_found hb h
  rw [← hfound.take] at hparse
  refine ⟨machine boundary max .readingPartHeaders none true b₁,
    .failed (settles_lift hsettles pollNextHeader_unread ?_)⟩
  simp only [onReady_ok, parseBuffered, machine, hparse, onReady_error]

/-- A block that has been read and parsed: its headers are handed out from the buffer. -/
theorem headers_block (boundary : Boundary) {block : HeaderBlock} {stop : Nat} {b b₁ : StreamBuffer ε}
    (hsettles : Settles (StreamBuffer.pollReadHeaderBlock max) b (.ok stop) b₁)
    (hparse : parseHeaderBlock (ε := ε) H (b₁.buf.take stop) = .ok block) :
    ∃ mp', Drains (pollNextHeader H) (machine boundary max .readingPartHeaders none true b)
        (readHeaders (ε := ε) b₁.buf block.spans).1 (readHeaders b₁.buf block.spans).2 mp' ∧
      ((readHeaders (ε := ε) b₁.buf block.spans).2 = .ok () →
        mp' = machine boundary max .readingPartData none false
          { b₁ with buf := b₁.buf.drop block.dataStart }) := by
  obtain ⟨hnext, -⟩ := parseHeaderBlock_within hparse
  have hfirst : { block with next := 0 } = block := by rw [← hnext]
  have hheaders : ∃ mp', Drains (pollNextHeader H)
        (machine boundary max .readingPartHeaders (some { block with next := 0 }) true b₁)
        (readHeaders (ε := ε) b₁.buf block.spans).1 (readHeaders b₁.buf block.spans).2 mp' ∧
      ((readHeaders (ε := ε) b₁.buf block.spans).2 = .ok () →
        mp' = machine boundary max .readingPartData none false
          { b₁ with buf := b₁.buf.drop block.dataStart }) := headers_drain List.drop_zero
  obtain ⟨mp', hdrains, hlast⟩ := hheaders
  rw [hfirst] at hdrains
  refine ⟨mp', .of_first ?_ hdrains, hlast⟩
  intro a t hsecond
  cases hsecond with
  | ready result =>
    refine settles_lift hsettles pollNextHeader_unread ?_
    rw [← result]
    simp only [onReady_ok, parseBuffered, machine, hparse]
    rfl
  | pending result =>
    rw [pollNextHeader_block] at result
    split at result <;> cases result

/-- The headers of the block are handed out; behind the last one the data begins. -/
theorem headers_parsed (boundary : Boundary) {block : HeaderBlock} {stop : Nat} (hb : b.Steady)
    (h : headerEnd (ε := ε) max b.view = .ok stop)
    (hparse : parseHeaderBlock (ε := ε) H (b.view.take stop) = .ok block) :
    ∃ mp', Drains (pollNextHeader H) (machine boundary max .readingPartHeaders none true b)
        (readHeaders (ε := ε) (b.view.take stop) block.spans).1
        (readHeaders (b.view.take stop) block.spans).2 mp' ∧
      ((readHeaders (ε := ε) (b.view.take stop) block.spans).2 = .ok () → ∃ b₁,
        mp' = machine boundary max .readingPartData none false b₁ ∧ b₁.Steady ∧
          b₁.view = b.view.drop block.dataStart) := by
  obtain ⟨b₁, hsettles, hfound⟩ := header_found hb h
  obtain ⟨hnext, hstart, hwithin⟩ := parseHeaderBlock_within hparse
  rw [← hfound.take] at hparse hstart hwithin ⊢
  have hbuf : readHeaders (ε := ε) b₁.buf block.spans =
      readHeaders (b₁.buf.take stop) block.spans := by
    have happend := readHeaders_append (ε := ε) (b₁.buf.drop stop) hwithin
    rwa [List.take_append_drop] at happend
  have hlen : block.dataStart ≤ b₁.buf.length := by
    rw [List.length_take] at hstart
    omega
  obtain ⟨mp', hdrains, hlast⟩ := headers_block boundary hsettles hparse
  rw [hbuf] at hdrains hlast
  refine ⟨mp', hdrains, fun hok => ⟨_, hlast hok, ?_, ?_⟩⟩
  · have hzero : b₁.pendings ≤ 0 := hfound.pendings.trans_eq hb.pendings
    exact ⟨hfound.plain.congr rfl rfl, hfound.inactive,
      Nat.le_zero.mp hzero⟩
  · rw [← hfound.view]
    exact (List.drop_append_of_le_length hlen).symm

/-- With the data begun, the next chunk is read from the buffer. -/
theorem pollNextData_data (b : StreamBuffer ε) :
    pollNextData H (machine boundary max .readingPartData none false b) =
      onReady ((machine boundary max .readingPartData none false b).onBuffer
        (StreamBuffer.dataChunkLoop (makeDelimiter boundary.bytes))) fun chunk mp =>
          match chunk with
          | .last data =>
            (.ready (.ok (if data.isEmpty then none else some data)),
              { mp with state := .readingBoundary })
          | .more data => (.ready (.ok (some data)), mp) := by
  rfl

/-- Behind the delimiter the part has no more data. -/
theorem pollNextData_boundary (b : StreamBuffer ε) :
    pollNextData H (machine boundary max .readingBoundary none false b) =
      (.ready (.ok none), machine boundary max .readingBoundary none false b) := by
  rfl

/-- What a caller is handed out as the data of a part: all of it, with the machine behind the
delimiter, or, where there is no delimiter, all but less than a delimiter. -/
def DataRead (boundary : Boundary) (max : Nat) (b : StreamBuffer ε) (chunks : List Bytes)
    (r : Except (Error ε) Unit) (mp' : Multipart ε) : Prop :=
  match find (makeDelimiter boundary.bytes) b.view with
  | some i => r = .ok () ∧ chunks.flatten = b.view.take i ∧ ∃ b₁,
      mp' = machine boundary max .readingBoundary none false b₁ ∧ b₁.Steady ∧
        b₁.view = b.view.drop (i + (makeDelimiter boundary.bytes).length)
  | none => r = .error .incompleteStream ∧ chunks.flatten <+: b.view ∧
      b.view.length < chunks.flatten.length + (makeDelimiter boundary.bytes).length

/-- The last chunk, and the state behind the delimiter. -/
theorem data_last {data : Bytes} {i : Nat}
    (hsettles : Settles (StreamBuffer.dataChunkLoop (makeDelimiter boundary.bytes)) b
      (.ok (.last data)) b')
    (hfind : find (makeDelimiter boundary.bytes) b.view = some i) (hdata : data = b.view.take i)
    (hsteady : b'.Steady)
    (hview : b'.view = b.view.drop (i + (makeDelimiter boundary.bytes).length)) :
    ∃ chunks r mp', Drains (pollNextData H) (machine boundary max .readingPartData none false b)
      chunks r mp' ∧ DataRead boundary max b chunks r mp' := by
  have hdone : Drains (pollNextData H) (machine boundary max .readingBoundary none false b') [] (.ok ())
      (machine boundary max .readingBoundary none false b') :=
    .done (.ready (pollNextData_boundary b'))
  have hstate : Settles (pollNextData H) (machine boundary max .readingPartData none false b)
      (.ok (if data.isEmpty then none else some data))
      (machine boundary max .readingBoundary none false b') :=
    settles_lift hsettles pollNextData_data rfl
  unfold DataRead
  rw [hfind]
  by_cases hempty : data.isEmpty = true
  · rw [if_pos hempty] at hstate
    have hnil : data = [] := by simpa using hempty
    refine ⟨[], .ok (), _, .done hstate, rfl, ?_, b', rfl, hsteady, hview⟩
    rw [← hdata, hnil]
    rfl
  · rw [if_neg hempty] at hstate
    refine ⟨[data], .ok (), _, .item hstate hdone, rfl, ?_, b', rfl, hsteady, hview⟩
    rw [← hdata]
    exact List.append_nil data

/-- A chunk in which no delimiter starts, and what is read behind it. -/
theorem DataRead.cons {data : Bytes} {chunks : List Bytes} {r : Except (Error ε) Unit}
    {mp' : Multipart ε} (hview : b.view = data ++ b'.view)
    (hnone : NoneBefore (makeDelimiter boundary.bytes) b.view data.length)
    (h : DataRead boundary max b' chunks r mp') :
    DataRead boundary max b (data :: chunks) r mp' := by
  have hlen : data.length ≤ b.view.length := by
    rw [hview, List.length_append]
    exact Nat.le_add_right _ _
  have hfind : find (makeDelimiter boundary.bytes) b.view =
      (find (makeDelimiter boundary.bytes) b'.view).map (· + data.length) := by
    rw [find_of_noneBefore hnone hlen, hview, List.drop_left]
  unfold DataRead at h ⊢
  rw [hfind]
  cases hrest : find (makeDelimiter boundary.bytes) b'.view with
  | some i =>
    rw [hrest] at h
    obtain ⟨hr, hdata, b₂, hmp, hsteady, htext⟩ := h
    rw [Option.map_some]
    refine ⟨hr, ?_, b₂, hmp, hsteady, ?_⟩
    · rw [List.flatten_cons, hdata, hview, Nat.add_comm i, List.take_length_add_append]
    · rw [htext, hview, Nat.add_comm i data.length, Nat.add_assoc, List.drop_length_add_append]
  | none =>
    rw [hrest] at h
    obtain ⟨hr, hdata, hshort⟩ := h
    refine ⟨hr, ?_, ?_⟩
    · rw [List.flatten_cons, hview]
      exact (List.prefix_append_right_inj data).mpr hdata
    · rw [List.flatten_cons, hview, List.length_append, List.length_append]
      omega

/-- The data of a part is handed out. -/
theorem data_drain (H : Httparse) (boundary : Boundary) (max : Nat) (b : StreamBuffer ε)
    (hb : b.Steady) :
    ∃ chunks r mp', Drains (pollNextData H) (machine boundary max .readingPartData none false b)
      chunks r mp' ∧ DataRead boundary max b chunks r mp' := by
  induction hn : b.view.length using Nat.strongRecOn generalizing b with
  | ind n ih =>
    obtain ⟨r, b₁, hsettles, hread⟩ :=
      StreamBuffer.data_settles (makeDelimiter_ne_nil boundary.bytes) hb.plain
    rcases r with e | (data | data)
    · obtain ⟨rfl, hfind, hshort⟩ := hread
      refine ⟨[], _, _, .failed (settles_lift hsettles pollNextData_data rfl), ?_⟩
      rw [DataRead, hfind]
      exact ⟨rfl, List.nil_prefix, by simpa using hshort⟩
    · obtain ⟨i, hfind, hdata, hleft⟩ := hread
      exact data_last hsettles hfind hdata (hb.left hleft) hleft.view
    · obtain ⟨hne, hnone, text, hview, hleft⟩ := hread
      obtain rfl := hleft.view
      have hpos : 0 < data.length := List.length_pos_of_ne_nil hne
      have hless : b₁.view.length < n := by
        rw [← hn, hview, List.length_append]
        omega
      obtain ⟨chunks, r, mp', hdrains, hrest⟩ := ih _ hless b₁ (hb.left hleft) rfl
      exact ⟨data :: chunks, r, mp', .item (settles_lift hsettles pollNextData_data rfl) hdrains,
        hrest.cons hview hnone⟩

end Multipart
end S3s.FormData
