import S3s.FormData.Runs

/-! # The streams of a taken part

`take_data_stream` hands the buffer to a stream of its own. `PartDataStream` ends
at the delimiter; `FinalPartDataStream` goes on from any point of it and checks
that the body is closed behind the delimiter.
-/
namespace S3s.FormData
open Polling Search

variable {ε : Type}

namespace StreamBuffer

/-- The loop of `poll_data`, of `PartDataStream` and of `FinalPartDataStream` -/
def partDataLoop (delimiter : Bytes) (b : StreamBuffer ε) :
    Poll (Except (Error ε) DataChunk) × StreamBuffer ε :=
  match searchBuffered b.buf delimiter with
  | .found index =>
    (.ready (.ok (.last (b.buf.take index))),
      { b with buf := b.buf.drop (index + delimiter.length) })
  | .emit stop => (.ready (.ok (.more (b.buf.take stop))), { b with buf := b.buf.drop stop })
  | .keepAll =>
    match hpoll : b.pollStream with
    | (.pending, b) => (.pending, b)
    | (.ready (some (.ok chunk)), b) =>
      if !b.buf.isEmpty then partDataLoop delimiter { b with buf := b.buf ++ chunk }
      else
        match searchData chunk delimiter with
        | .found index =>
          (.ready (.ok (.last (chunk.take index))),
            { b with buf := chunk.drop (index + delimiter.length) })
        | .emit stop =>
          (.ready (.ok (.more (chunk.take stop))), { b with buf := b.buf ++ chunk.drop stop })
        | .keepAll => partDataLoop delimiter { b with buf := b.buf ++ chunk }
    | (.ready (some (.error e)), b) => (.ready (.error e), b)
    | (.ready none, b) => (.ready (.error .incompleteStreamPart), b)
termination_by b.weight
decreasing_by
  · exact weight_lt_of_poll _ b.readUntilCursor hpoll (by rw [List.length_append])
  · exact weight_lt_of_poll _ b.readUntilCursor hpoll (by rw [List.length_append])

/-- `fill_buf` -/
def fillBuf (len : Nat) (b : StreamBuffer ε) : Poll (Except (Error ε) Unit) × StreamBuffer ε :=
  if b.buf.length < len then
    match hpoll : b.pollStream with
    | (.pending, b) => (.pending, b)
    | (.ready (some (.ok chunk)), b) => fillBuf len { b with buf := b.buf ++ chunk }
    | (.ready (some (.error e)), b) => (.ready (.error e), b)
    | (.ready none, b) => (.ready (.error .incompleteStreamPart), b)
  else (.ready (.ok ()), b)
termination_by b.weight
decreasing_by exact weight_lt_of_poll _ b.readUntilCursor hpoll (by rw [List.length_append])

/-- What is polled for has left the stream: less is left after a poll that is not ready. -/
def Spends {ρ : Type} (b : StreamBuffer ε) : Poll ρ × StreamBuffer ε → Prop :=
  Yields (fun b' => b'.weight < b.weight) fun _ b' => b'.weight ≤ b.weight

theorem pollStream_pending_weight {b b' : StreamBuffer ε} (h : b.pollStream = (.pending, b')) :
    b'.weight < b.weight := by
  unfold pollStream at h
  split at h
  · cases h
  · next script hs =>
    rw [weight, weight, hs, Option.getD_some]
    rcases script with _ | ⟨_ | (_ | (e | bytes)), script⟩
    · cases h
    · cases h
      simp [answerWeight]
    · cases h
    · cases h
    · rw [emptyChunksPerPoll, pollStreamLoop] at h
      rw [List.map_cons, List.sum_cons, answerWeight]
      split at h
      · dsimp only at h
        split at h
        · cases h
        · have hle := pollStreamLoop_weight_le { b with emptyChunks := b.emptyChunks + 1 } 31 script
          rw [h, weight] at hle
          dsimp only at hle
          omega
      · cases h

theorem Spends.mono {ρ : Type} {b b₁ : StreamBuffer ε} {r : Poll ρ × StreamBuffer ε}
    (h : Spends b₁ r) (hle : b₁.weight ≤ b.weight) : Spends b r :=
  Yields.mono h (fun _ hlt => hlt.trans_le hle) fun _ _ hle' => hle'.trans hle

theorem Spends.onReady {α β : Type} {b : StreamBuffer ε}
    {r : Poll (Except (Error ε) α) × StreamBuffer ε}
    {k : α → StreamBuffer ε → Poll (Except (Error ε) β) × StreamBuffer ε} (h : Spends b r)
    (hk : ∀ a b', Spends b' (k a b')) : Spends b (Polling.onReady r k) :=
  Yields.onReady h (fun _ hlt => hlt) (fun _ _ hle => hle) fun a b' hle => (hk a b').mono hle

theorem fillBuf_spends (len : Nat) (b : StreamBuffer ε) : Spends b (fillBuf len b) := by
  fun_induction fillBuf len b with
  | case1 b hlt b₁ hpoll => exact pollStream_pending_weight hpoll
  | case2 b hlt chunk b₁ hpoll ih =>
    have hless := weight_lt_of_poll (b₁.buf ++ chunk) b₁.readUntilCursor hpoll
      (by rw [List.length_append])
    exact ih.mono hless.le
  | case3 b hlt e b₁ hpoll => exact (congrArg (·.2.weight) hpoll).symm.le.trans b.pollStream_weight_le
  | case4 b hlt b₁ hpoll => exact (congrArg (·.2.weight) hpoll).symm.le.trans b.pollStream_weight_le
  | case5 b hlt => exact le_refl _

theorem weight_drop_le (b : StreamBuffer ε) (n : Nat) :
    weight { b with buf := b.buf.drop n } ≤ b.weight := by
  simp only [weight, List.length_drop]
  omega

/-- The inner loop of `poll_trailer`, to the line end behind the padding. -/
def skipPadding (b : StreamBuffer ε) : Poll (Except (Error ε) Unit) × StreamBuffer ε :=
  match hfill : fillBuf 1 b with
  | (.pending, b) => (.pending, b)
  | (.ready (.error e), b) => (.ready (.error e), b)
  | (.ready (.ok ()), b) =>
    if hpad : Bytes.isBlank (b.buf.headD 0) = true then skipPadding { b with buf := b.buf.drop 1 }
    else if b.buf.headD 0 = cr then (.ready (.ok ()), b)
    else (.ready (.error .invalidFormat), b)
termination_by b.weight
decreasing_by
  rename_i b₀
  have hle := fillBuf_spends 1 b₀
  rw [hfill] at hle
  have hne : b.buf ≠ [] := fun hnil => by
    rw [hnil] at hpad
    cases hpad
  have hpos := List.length_pos_of_ne_nil hne
  simp only [Spends, Yields, weight] at hle
  simp only [weight, List.length_drop]
  omega

/-- The arm of `poll_trailer` behind the boundary. -/
def closeMark (b : StreamBuffer ε) : Poll (Except (Error ε) Unit) × StreamBuffer ε :=
  onReady (fillBuf 2 b) fun _ b =>
    if b.buf.take 2 = ascii "--" then (.ready (.ok ()), { b with buf := b.buf.drop 2 })
    else if b.buf.take 1 = [cr] || b.buf.head?.any Bytes.isBlank then
      (.ready (.error .streamPartNotLast), b)
    else (.ready (.error .invalidFormat), b)

/-- The arm of `poll_trailer` behind the closing mark. -/
def finalCrlf (b : StreamBuffer ε) : Poll (Except (Error ε) Unit) × StreamBuffer ε :=
  onReady (skipPadding b) fun _ b =>
    onReady (fillBuf 2 b) fun _ b =>
      if b.buf.take 2 = crlf then (.ready (.ok ()), { b with buf := b.buf.drop 2 })
      else (.ready (.error .invalidFormat), b)

end StreamBuffer

/-- `PartDataStream` -/
structure PartDataStream (ε : Type) where
  buffer : StreamBuffer ε
  delimiterFinder : Bytes
  multipartConsumed : Nat
  done : Bool
  terminated : Bool

/-- `DataState` -/
inductive DataState where
  | data
  | afterBoundary
  | finalCrlf
  | eof
  | done
deriving DecidableEq

/-- `FinalPartDataStream` -/
structure FinalPartDataStream (ε : Type) where
  buffer : StreamBuffer ε
  delimiterFinder : Bytes
  state : DataState
  multipartConsumed : Nat
  aborted : Bool
  terminated : Bool

/-- The headers that have not been read are left behind. -/
def Multipart.beginData (mp : Multipart ε) : Multipart ε :=
  if mp.state = .readingPartHeaders then mp.finishHeaders else mp

/-- `take_data_stream` -/
def Multipart.takeDataStream (mp : Multipart ε) :
    Except (Error ε) (PartDataStream ε) × Multipart ε :=
  let mp := mp.beginData
  if mp.state ≠ .readingPartData then (.error .invalidFormat, mp)
  else
    match mp.buffer with
    | none => (.error .streamAlreadyTaken, mp)
    | some buffer =>
      match mp.delimiterFinder with
      | none => (.error .streamAlreadyTaken, { mp with buffer := none })
      | some delimiterFinder =>
        (.ok {
          buffer := buffer
          delimiterFinder := delimiterFinder
          multipartConsumed := buffer.consumed
          done := false
          terminated := false },
        { mp with buffer := none, delimiterFinder := none, state := .streamTaken })

namespace PartDataStream

/-- `into_final` -/
def intoFinal (s : PartDataStream ε) : FinalPartDataStream ε where
  buffer := s.buffer
  delimiterFinder := s.delimiterFinder
  state := if s.done then .afterBoundary else .data
  multipartConsumed := s.multipartConsumed
  aborted := s.terminated
  terminated := false

/-- `poll_next` of `PartDataStream`, which is `poll_data` -/
def pollNext (s : PartDataStream ε) : Item Bytes (Error ε) × PartDataStream ε :=
  if s.done || s.terminated then (.ready none, s)
  else
    match s.buffer.partDataLoop s.delimiterFinder with
    | (.pending, b) => (.pending, { s with buffer := b })
    | (.ready (.ok (.last data)), b) =>
      (if data.isEmpty then .ready none else .ready (some (.ok data)),
        { s with buffer := b, done := true })
    | (.ready (.ok (.more data)), b) => (.ready (some (.ok data)), { s with buffer := b })
    | (.ready (.error e), b) => (.ready (some (.error e)), { s with buffer := b, terminated := true })

end PartDataStream

namespace FinalPartDataStream

/-- `poll_data` -/
def pollData (f : FinalPartDataStream ε) :
    Poll (Except (Error ε) (Option Bytes)) × FinalPartDataStream ε :=
  if f.aborted then (.ready (.error .incompleteStreamPart), { f with terminated := true })
  else
    match f.buffer.partDataLoop f.delimiterFinder with
    | (.pending, b) => (.pending, { f with buffer := b })
    | (.ready (.ok (.last data)), b) =>
      (.ready (.ok (if data.isEmpty then none else some data)),
        { f with buffer := b, state := .afterBoundary })
    | (.ready (.ok (.more data)), b) => (.ready (.ok (some data)), { f with buffer := b })
    | (.ready (.error e), b) => (.ready (.error e), { f with buffer := b })

/-- An arm of `poll_trailer`: a step on the buffer, and the state it moves to. -/
def trailerStep (f : FinalPartDataStream ε)
    (step : StreamBuffer ε → Poll (Except (Error ε) Unit) × StreamBuffer ε) (state : DataState) :
    Poll (Except (Error ε) Unit) × FinalPartDataStream ε :=
  match step f.buffer with
  | (.pending, b) => (.pending, { f with buffer := b })
  | (.ready (.error e), b) => (.ready (.error e), { f with buffer := b })
  | (.ready (.ok ()), b) => (.ready (.ok ()), { f with buffer := b, state := state })

/-- The last arm of `poll_trailer`, which does what `poll_epilogue` does. -/
def pollEof (f : FinalPartDataStream ε) : Poll (Except (Error ε) Unit) × FinalPartDataStream ε :=
  f.trailerStep StreamBuffer.epilogue .done

/-- The arm of `poll_trailer` behind the closing mark, and on. -/
def pollFinalCrlf (f : FinalPartDataStream ε) :
    Poll (Except (Error ε) Unit) × FinalPartDataStream ε :=
  onReady (f.trailerStep StreamBuffer.finalCrlf .eof) fun _ f => f.pollEof

/-- `poll_trailer` -/
def pollTrailer (f : FinalPartDataStream ε) :
    Poll (Except (Error ε) Unit) × FinalPartDataStream ε :=
  match f.state with
  | .afterBoundary =>
    onReady (f.trailerStep StreamBuffer.closeMark .finalCrlf) fun _ f => f.pollFinalCrlf
  | .finalCrlf => f.pollFinalCrlf
  | .eof => f.pollEof
  | .data => (.ready (.ok ()), f)
  | .done => (.ready (.ok ()), f)

/-- The loop of `poll_next` behind the data: an error ends the stream, and so does `Done`. -/
def pollEnd (f : FinalPartDataStream ε) : Item Bytes (Error ε) × FinalPartDataStream ε :=
  match f.pollTrailer with
  | (.pending, f) => (.pending, f)
  | (.ready (.error e), f) => (.ready (some (.error e)), { f with terminated := true })
  | (.ready (.ok ()), f) => (.ready none, f)

/-- `poll_next` of `FinalPartDataStream` -/
def pollNext (f : FinalPartDataStream ε) : Item Bytes (Error ε) × FinalPartDataStream ε :=
  if f.terminated then (.ready none, f)
  else
    match f.state with
    | .data =>
      match f.pollData with
      | (.pending, f) => (.pending, f)
      | (.ready (.ok (some item)), f) => (.ready (some (.ok item)), f)
      | (.ready (.ok none), f) => f.pollEnd
      | (.ready (.error e), f) => (.ready (some (.error e)), { f with terminated := true })
    | .done => (.ready none, f)
    | _ => f.pollEnd

end FinalPartDataStream
end S3s.FormData
