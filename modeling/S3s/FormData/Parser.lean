import S3s.FormData.Delimiter
import S3s.FormData.Header

/-! # The multipart parser

The steps of the parser on its buffer, and the state machine over them. A step
that is not ready has kept in the buffer and in the state what it needs to go on.
-/
namespace S3s.FormData
open Polling Search

variable {ε : Type}

/-- `is_bchar` -/
def isBchar (byte : UInt8) : Bool :=
  (48 ≤ byte && byte ≤ 57) || (65 ≤ byte && byte ≤ 90) || (97 ≤ byte && byte ≤ 122) ||
    (ascii "'()+_,-./:=? ").contains byte

/-- `u8::is_ascii_whitespace` -/
def isAsciiWhitespace (byte : UInt8) : Bool :=
  byte == 32 || byte == 9 || byte == 10 || byte == 12 || byte == 13

/-- What `Boundary::new` checks. -/
def validBoundary (boundary : Bytes) : Bool :=
  !boundary.isEmpty && decide (boundary.length ≤ 70) && boundary.all isBchar &&
    !(boundary.getLast?.any isAsciiWhitespace)

/-- `Boundary` -/
structure Boundary where
  bytes : Bytes
  valid : validBoundary bytes = true

/-- `Boundary::new` -/
def Boundary.new (boundary : Bytes) : Except (Error ε) Boundary :=
  if h : validBoundary boundary = true then .ok ⟨boundary, h⟩ else .error .invalidBoundary

/-- `State` -/
inductive State where
  | findingFirstBoundary
  | readingPartHeaders
  | readingPartData
  | readingBoundary
  | readingClosingDelimiter
  | readingEpilogue
  | done
  | streamTaken
deriving DecidableEq

namespace StreamBuffer

/-- `poll_ensure_buf_len` -/
def ensureBufLen (len : Nat) (b : StreamBuffer ε) :
    Poll (Except (Error ε) Unit) × StreamBuffer ε :=
  if b.buf.length < len then
    match hpoll : b.pollStream with
    | (.pending, b) => (.pending, b)
    | (.ready (some (.ok chunk)), b) => ensureBufLen len { b with buf := b.buf ++ chunk }
    | (.ready (some (.error e)), b) => (.ready (.error e), b)
    | (.ready none, b) => (.ready (.error .incompleteStream), b)
  else (.ready (.ok ()), b)
termination_by b.weight
decreasing_by exact weight_lt_of_poll _ b.readUntilCursor hpoll (by rw [List.length_append])

theorem ensureBufLen_weight (len : Nat) (b : StreamBuffer ε) :
    (ensureBufLen len b).2.weight ≤ b.weight := by
  fun_induction ensureBufLen len b with
  | case1 b hlt b₁ hpoll => exact (congrArg (·.2.weight) hpoll).symm.le.trans b.pollStream_weight_le
  | case2 b hlt chunk b₁ hpoll ih =>
    have hless := weight_lt_of_poll (b₁.buf ++ chunk) b₁.readUntilCursor hpoll
      (by rw [List.length_append])
    exact ih.trans hless.le
  | case3 b hlt e b₁ hpoll => exact (congrArg (·.2.weight) hpoll).symm.le.trans b.pollStream_weight_le
  | case4 b hlt b₁ hpoll => exact (congrArg (·.2.weight) hpoll).symm.le.trans b.pollStream_weight_le
  | case5 b hlt => exact le_refl _

/-- `poll_consume_crlf` -/
def consumeCrlf (b : StreamBuffer ε) : Poll (Except (Error ε) Unit) × StreamBuffer ε :=
  onReady (ensureBufLen 2 b) fun _ b =>
    if b.buf.take 2 = crlf then (.ready (.ok ()), { b with buf := b.buf.drop 2 })
    else (.ready (.error .invalidFormat), b)

/-- Padding at the front of the buffer is not empty. -/
theorem dropWhile_blank_length {buf : Bytes} (h : Bytes.isBlank (buf.headD 0) = true) :
    (buf.dropWhile Bytes.isBlank).length < buf.length := by
  cases buf with
  | nil => cases h
  | cons c buf =>
    have hc : Bytes.isBlank c = true := h
    rw [List.dropWhile_cons_of_pos hc, List.length_cons]
    exact Nat.lt_succ_of_le (List.dropWhile_suffix _).length_le

/-- `poll_consume_padding_and_crlf` -/
def consumePaddingAndCrlf (b : StreamBuffer ε) : Poll (Except (Error ε) Unit) × StreamBuffer ε :=
  match hlen : ensureBufLen 1 b with
  | (.pending, b) => (.pending, b)
  | (.ready (.error e), b) => (.ready (.error e), b)
  | (.ready (.ok ()), b) =>
    if b.buf.headD 0 = cr then consumeCrlf b
    else if hpad : Bytes.isBlank (b.buf.headD 0) = true then
      consumePaddingAndCrlf { b with buf := b.buf.dropWhile Bytes.isBlank }
    else (.ready (.error .invalidFormat), b)
termination_by b.weight
decreasing_by
  rename_i b₀ _
  have hle := ensureBufLen_weight 1 b₀
  rw [hlen] at hle
  have hless := dropWhile_blank_length hpad
  unfold weight at hle ⊢
  dsimp only at hle ⊢
  omega

/-- The last chunk of the data of a part, with the delimiter behind it consumed, or one before it. -/
inductive DataChunk where
  | last (data : Bytes)
  | more (data : Bytes)
deriving DecidableEq

def DataChunk.data : DataChunk → Bytes
  | .last data => data
  | .more data => data

/-- The search in the buffer, when there is something in it. -/
def searchBuffered (buf delimiter : Bytes) : DataSearch :=
  if buf.isEmpty then .keepAll else searchData buf delimiter

theorem searchBuffered_found {buf delimiter : Bytes} {index : Nat}
    (h : searchBuffered buf delimiter = .found index) : searchData buf delimiter = .found index := by
  unfold searchBuffered at h
  split at h
  · cases h
  · exact h

theorem searchBuffered_emit {buf delimiter : Bytes} {stop : Nat}
    (h : searchBuffered buf delimiter = .emit stop) : searchData buf delimiter = .emit stop := by
  unfold searchBuffered at h
  split at h
  · cases h
  · exact h

theorem searchBuffered_keepAll {buf delimiter : Bytes} (hne : delimiter ≠ [])
    (h : searchBuffered buf delimiter = .keepAll) :
    find delimiter buf = none ∧ buf.length < delimiter.length := by
  unfold searchBuffered at h
  split at h
  · next hempty =>
    have hnil : buf = [] := by simpa using hempty
    have hp : ¬ delimiter <+: [] := fun hp => hne (List.prefix_nil.mp hp)
    rw [hnil]
    exact ⟨if_neg fun h => hp (List.isPrefixOf_iff_prefix.mp h), List.length_pos_of_ne_nil hne⟩
  · exact searchData_keepAll hne h

/-- The loop of `poll_next_part_data_chunk` -/
def dataChunkLoop (delimiter : Bytes) (b : StreamBuffer ε) :
    Poll (Except (Error ε) DataChunk) × StreamBuffer ε :=
  match searchBuffered b.buf delimiter with
  | .found index =>
    (.ready (.ok (.last (b.buf.take index))),
      { b with buf := b.buf.drop (index + delimiter.length) })
  | .emit stop => (.ready (.ok (.more (b.buf.take stop))), { b with buf := b.buf.drop stop })
  | .keepAll =>
    match hpoll : b.pollStream with
    | (.pending, b) => (.pending, b)
    | (.ready (some (.ok chunk)), b) =>
      if !b.buf.isEmpty then dataChunkLoop delimiter { b with buf := b.buf ++ chunk }
      else
        match searchData chunk delimiter with
        | .found index =>
          (.ready (.ok (.last (chunk.take index))),
            { b with buf := chunk.drop (index + delimiter.length) })
        | .emit stop =>
          (.ready (.ok (.more (chunk.take stop))), { b with buf := b.buf ++ chunk.drop stop })
        | .keepAll => dataChunkLoop delimiter { b with buf := b.buf ++ chunk }
    | (.ready (some (.error e)), b) => (.ready (.error e), b)
    | (.ready none, b) => (.ready (.error .incompleteStream), b)
termination_by b.weight
decreasing_by
  · exact weight_lt_of_poll _ b.readUntilCursor hpoll (by rw [List.length_append])
  · exact weight_lt_of_poll _ b.readUntilCursor hpoll (by rw [List.length_append])

/-- What is handed out has left the buffer, and a chunk before the last one is not empty. -/
theorem dataChunkLoop_weight (delimiter : Bytes) (b : StreamBuffer ε) :
    ∀ r b', dataChunkLoop delimiter b = (.ready (.ok r), b') →
      b'.weight + r.data.length ≤ b.weight ∧ (r = .more r.data → 0 < r.data.length) := by
  fun_induction dataChunkLoop delimiter b with
  | case1 b index hfound =>
    rintro r b' ⟨⟩
    refine ⟨?_, fun hmore => by cases hmore⟩
    simp only [weight, DataChunk.data, List.length_take, List.length_drop]
    omega
  | case2 b stop hemit =>
    rintro r b' ⟨⟩
    obtain ⟨hpos, hle⟩ := searchData_emit_bounds (searchBuffered_emit hemit)
    simp only [weight, DataChunk.data, List.length_take, List.length_drop]
    omega
  | case3 b hkeep b₁ hpoll => rintro _ _ ⟨⟩
  | case4 b hkeep chunk b₁ hpoll hne ih =>
    intro r b' h
    obtain ⟨hle, hmore⟩ := ih r b' h
    have hless := weight_lt_of_poll (b₁.buf ++ chunk) b₁.readUntilCursor hpoll
      (by rw [List.length_append])
    exact ⟨hle.trans hless.le, hmore⟩
  | case5 b hkeep chunk b₁ hpoll hempty index hfound =>
    rintro r b' ⟨⟩
    refine ⟨?_, fun hmore => by cases hmore⟩
    obtain ⟨-, hless⟩ := pollStream_weight hpoll
    simp only [weight, DataChunk.data, List.length_take, List.length_drop] at hless ⊢
    omega
  | case6 b hkeep chunk b₁ hpoll hempty stop hemit =>
    rintro r b' ⟨⟩
    obtain ⟨hpos, hle⟩ := searchData_emit_bounds hemit
    obtain ⟨-, hless⟩ := pollStream_weight hpoll
    simp only [weight, DataChunk.data, List.length_append, List.length_take,
      List.length_drop] at hless ⊢
    omega
  | case7 b hkeep chunk b₁ hpoll hempty hall ih =>
    intro r b' h
    obtain ⟨hle, hmore⟩ := ih r b' h
    have hless := weight_lt_of_poll (b₁.buf ++ chunk) b₁.readUntilCursor hpoll
      (by rw [List.length_append])
    exact ⟨hle.trans hless.le, hmore⟩
  | case8 b hkeep e b₁ hpoll => rintro _ _ ⟨⟩
  | case9 b hkeep b₁ hpoll => rintro _ _ ⟨⟩

/-- `poll_advance_after_boundary`: the state it moves to. -/
def advanceAfterBoundary (b : StreamBuffer ε) : Poll (Except (Error ε) State) × StreamBuffer ε :=
  onReady (ensureBufLen 1 b) fun _ b =>
    let first := b.buf.headD 0
    if first = 45 then
      onReady (ensureBufLen 2 b) fun _ b =>
        if b.buf.take 2 = ascii "--" then
          (.ready (.ok .readingClosingDelimiter), { b with buf := b.buf.drop 2 })
        else (.ready (.error .invalidFormat), b)
    else if Bytes.isBlank first then
      onReady b.consumePaddingAndCrlf fun _ b => (.ready (.ok .readingPartHeaders), b)
    else if first = cr then onReady b.consumeCrlf fun _ b => (.ready (.ok .readingPartHeaders), b)
    else (.ready (.error .invalidFormat), b)

/-- `poll_epilogue` -/
def epilogue (b : StreamBuffer ε) : Poll (Except (Error ε) Unit) × StreamBuffer ε :=
  if !b.buf.isEmpty then (.ready (.error .streamPartNotLast), b)
  else
    match b.pollStream with
    | (.pending, b) => (.pending, b)
    | (.ready none, b) => (.ready (.ok ()), b)
    | (.ready (some (.ok _)), b) => (.ready (.error .streamPartNotLast), b)
    | (.ready (some (.error e)), b) => (.ready (.error e), b)

end StreamBuffer

/-- `Multipart` -/
structure Multipart (ε : Type) where
  buffer : Option (StreamBuffer ε)
  firstBoundary : Bytes
  delimiterFinder : Option Bytes
  maxBufferSize : Nat
  state : State
  headers : Option HeaderBlock
  partHandedOut : Bool

namespace Multipart

/-- `Multipart::new` -/
def new (stream : Script ε) (boundary : Boundary) (maxBufferSize : Nat) : Multipart ε where
  buffer := some (.new stream)
  firstBoundary := makeFirstBoundary boundary.bytes
  delimiterFinder := some (makeDelimiter boundary.bytes)
  maxBufferSize := maxBufferSize
  state := .findingFirstBoundary
  headers := none
  partHandedOut := false

/-- A step on the buffer, which `buffer_mut` lends. -/
def onBuffer {α : Type} (mp : Multipart ε)
    (f : StreamBuffer ε → Poll (Except (Error ε) α) × StreamBuffer ε) :
    Poll (Except (Error ε) α) × Multipart ε :=
  match mp.buffer with
  | none => (.ready (.error .streamAlreadyTaken), mp)
  | some b => ((f b).1, { mp with buffer := some (f b).2 })

/-- `poll_advance_first_boundary` -/
def pollAdvanceFirstBoundary (mp : Multipart ε) : Poll (Except (Error ε) Unit) × Multipart ε :=
  onReady (mp.onBuffer (StreamBuffer.pollReadTo mp.firstBoundary)) fun _ mp =>
    (.ready (.ok ()), { mp with state := .readingBoundary })

/-- `poll_advance_after_boundary` -/
def pollAdvanceAfterBoundary (mp : Multipart ε) : Poll (Except (Error ε) Unit) × Multipart ε :=
  onReady (mp.onBuffer StreamBuffer.advanceAfterBoundary) fun state mp =>
    (.ready (.ok ()), { mp with state := state })

/-- `poll_advance_closing` -/
def pollAdvanceClosing (mp : Multipart ε) : Poll (Except (Error ε) Unit) × Multipart ε :=
  onReady (mp.onBuffer StreamBuffer.consumePaddingAndCrlf) fun _ mp =>
    (.ready (.ok ()), { mp with state := .readingEpilogue })

/-- `poll_epilogue` -/
def pollEpilogue (mp : Multipart ε) : Poll (Except (Error ε) Unit) × Multipart ε :=
  onReady (mp.onBuffer StreamBuffer.epilogue) fun _ mp => (.ready (.ok ()), { mp with state := .done })

/-- `finish_headers` -/
def finishHeaders (mp : Multipart ε) : Multipart ε :=
  match mp.headers with
  | none => mp
  | some block =>
    if mp.state = .readingPartHeaders then
      { mp with
        headers := none
        buffer := mp.buffer.map fun b => { b with buf := b.buf.drop block.dataStart }
        state := .readingPartData
        partHandedOut := false }
    else { mp with headers := none, partHandedOut := false }

/-- The end of `poll_ensure_headers`: the block in front of the buffer is parsed. -/
def parseBuffered (H : Httparse) (stop : Nat) (mp : Multipart ε) :
    Poll (Except (Error ε) Unit) × Multipart ε :=
  match mp.buffer with
  | none => (.ready (.error .streamAlreadyTaken), mp)
  | some b =>
    match parseHeaderBlock H (b.buf.take stop) with
    | .ok block => (.ready (.ok ()), { mp with headers := some block })
    | .error e => (.ready (.error e), mp)

/-- `poll_ensure_headers` -/
def pollEnsureHeaders (H : Httparse) (mp : Multipart ε) :
    Poll (Except (Error ε) Unit) × Multipart ε :=
  if mp.headers.isSome || mp.state = .readingPartData then (.ready (.ok ()), mp)
  else if mp.state ≠ .readingPartHeaders then (.ready (.ok ()), mp)
  else onReady (mp.onBuffer (StreamBuffer.pollReadHeaderBlock mp.maxBufferSize)) (parseBuffered H)

/-- `next_header_inner` -/
def nextHeaderInner (mp : Multipart ε) : Except (Error ε) (Option Header) × Multipart ε :=
  match mp.headers with
  | none => (.ok none, mp)
  | some block =>
    match block.spans[block.next]? with
    | none => (.ok none, mp.finishHeaders)
    | some span =>
      let mp := { mp with headers := some { block with next := block.next + 1 } }
      match mp.buffer with
      | none => (.error .streamAlreadyTaken, mp)
      | some b => ((readHeader span b.buf).map some, mp)

/-- `poll_next_part_data_chunk` -/
def pollNextPartDataChunk (mp : Multipart ε) :
    Poll (Except (Error ε) (Option Bytes)) × Multipart ε :=
  if mp.state ≠ .readingPartData then (.ready (.ok none), mp)
  else
    match mp.delimiterFinder with
    | none => (.ready (.ok none), mp)
    | some delimiter =>
      onReady (mp.onBuffer (StreamBuffer.dataChunkLoop delimiter)) fun chunk mp =>
        match chunk with
        | .last data =>
          (.ready (.ok (if data.isEmpty then none else some data)),
            { mp with state := .readingBoundary })
        | .more data => (.ready (.ok (some data)), mp)

/-- `Part::poll_next_header` -/
def pollNextHeader (H : Httparse) (mp : Multipart ε) :
    Poll (Except (Error ε) (Option Header)) × Multipart ε :=
  onReady (mp.pollEnsureHeaders H) fun _ mp => (.ready mp.nextHeaderInner.1, mp.nextHeaderInner.2)

/-- `Part::poll_next_data` -/
def pollNextData (H : Httparse) (mp : Multipart ε) :
    Poll (Except (Error ε) (Option Bytes)) × Multipart ε :=
  onReady (mp.pollEnsureHeaders H) fun _ mp => mp.finishHeaders.pollNextPartDataChunk

/-- What the buffer has left. -/
def weight (mp : Multipart ε) : Nat := (mp.buffer.map StreamBuffer.weight).getD 0

/-- Data that is handed out has left the buffer. -/
theorem pollNextPartDataChunk_weight {mp mp' : Multipart ε} {data : Bytes}
    (h : mp.pollNextPartDataChunk = (.ready (.ok (some data)), mp')) : mp'.weight < mp.weight := by
  unfold pollNextPartDataChunk at h
  split at h
  · cases h
  · split at h
    · cases h
    · next delimiter hdelimiter =>
      unfold onBuffer at h
      split at h
      · cases h
      · next b hb =>
        rcases hloop : b.dataChunkLoop delimiter with ⟨_ | (e | chunk), b'⟩
        · rw [hloop] at h
          cases h
        · rw [hloop] at h
          cases h
        · have hweight := StreamBuffer.dataChunkLoop_weight delimiter b chunk b' hloop
          rw [hloop] at h
          cases chunk with
          | last last =>
            simp only [onReady_ok] at h
            split at h
            · cases h
            · next hne =>
              cases h
              simp only [weight, hb, Option.map_some, Option.getD_some]
              have hpos : 0 < data.length := List.length_pos_of_ne_nil (by simpa using hne)
              simp only [StreamBuffer.DataChunk.data] at hweight
              omega
          | more data' =>
            cases h
            obtain ⟨hle, hmore⟩ := hweight
            have hpos : 0 < data.length := hmore rfl
            simp only [weight, hb, Option.map_some, Option.getD_some]
            simp only [StreamBuffer.DataChunk.data] at hle
            omega

/-- `poll_skip_part_data` -/
def pollSkipPartData (mp : Multipart ε) : Poll (Except (Error ε) Unit) × Multipart ε :=
  match hchunk : mp.pollNextPartDataChunk with
  | (.pending, mp) => (.pending, mp)
  | (.ready (.ok (some _)), mp) => pollSkipPartData mp
  | (.ready (.ok none), mp) => (.ready (.ok ()), mp)
  | (.ready (.error e), mp) => (.ready (.error e), mp)
termination_by mp.weight
decreasing_by exact pollNextPartDataChunk_weight hchunk

/-- The arms of the loop of `next_part` that return. -/
def nextPartReturns (mp : Multipart ε) : Option (Except (Error ε) (Option Unit) × Multipart ε) :=
  match mp.state with
  | .streamTaken => some (.error .streamAlreadyTaken, mp)
  | .done => some (.ok none, mp)
  | .readingPartHeaders =>
    if mp.partHandedOut then none else some (.ok (some ()), { mp with partHandedOut := true })
  | _ => none

/-- The arms of the loop of `next_part` that await steps of the machine and go on. -/
def nextPartAwaits (H : Httparse) (mp : Multipart ε) : Poll (Except (Error ε) Unit) × Multipart ε :=
  match mp.state with
  | .streamTaken => (.ready (.ok ()), mp)
  | .done => (.ready (.ok ()), mp)
  | .findingFirstBoundary => mp.pollAdvanceFirstBoundary
  | .readingPartHeaders =>
    onReady (mp.pollEnsureHeaders H) fun _ mp => (.ready (.ok ()), mp.finishHeaders)
  | .readingPartData => onReady mp.pollSkipPartData fun _ mp => mp.pollAdvanceAfterBoundary
  | .readingBoundary => mp.pollAdvanceAfterBoundary
  | .readingClosingDelimiter => mp.pollAdvanceClosing
  | .readingEpilogue => mp.pollEpilogue

/-- `next_part`: a part, or the end behind the closing delimiter. A step that is awaited is polled
until it is ready. -/
inductive NextPart (H : Httparse) :
    Multipart ε → Except (Error ε) (Option Unit) → Multipart ε → Prop where
  | returns {mp mp' : Multipart ε} {r : Except (Error ε) (Option Unit)}
    (arm : mp.nextPartReturns = some (r, mp')) : NextPart H mp r mp'
  | failed {mp mp' : Multipart ε} {e : Error ε} (arm : mp.nextPartReturns = none)
    (await : Settles (nextPartAwaits H) mp (.error e) mp') : NextPart H mp (.error e) mp'
  | again {mp mp₁ mp' : Multipart ε} {r : Except (Error ε) (Option Unit)}
    (arm : mp.nextPartReturns = none) (await : Settles (nextPartAwaits H) mp (.ok ()) mp₁)
    (rest : NextPart H mp₁ r mp') : NextPart H mp r mp'

end Multipart
end S3s.FormData
