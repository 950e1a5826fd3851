import S3s.Library.Bytes
import S3s.Library.Polling
import S3s.Library.Search

/-! # The buffer of the multipart parser

`StreamBuffer` holds structural bytes in front of the inner stream. Its readers
append chunks until they can decide, and can be resumed after a poll that was not
ready.
-/
namespace S3s.FormData
open Polling Search

/-- `Error`. A stream that keeps yielding empty chunks is a `StreamReadFailed` of its own. -/
inductive Error (ε : Type) where
  | streamReadFailed (source : ε)
  | streamStalled
  | invalidBoundary
  | invalidFormat
  | incompleteStream
  | headerSizeExceeded (limit : Nat)
  | streamPartNotLast
  | streamAlreadyTaken
  | incompleteStreamPart
deriving DecidableEq

variable {ε : Type}

/-- `EMPTY_CHUNKS_PER_POLL` -/
def emptyChunksPerPoll : Nat := 32

/-- `MAX_CONSECUTIVE_EMPTY_CHUNKS` -/
def maxConsecutiveEmptyChunks : Nat := 1024

/-- The answers of the inner stream to the polls to come; behind them it has ended. -/
abbrev Script (ε : Type) := List (Item Bytes (Error ε))

/-- `StreamBuffer` -/
structure StreamBuffer (ε : Type) where
  buf : Bytes
  stream : Option (Script ε)
  eof : Bool
  polledTotal : Nat
  readUntilCursor : Nat
  readUntilActive : Bool
  emptyChunks : Nat

namespace StreamBuffer

/-- `StreamBuffer::new` -/
def new (stream : Script ε) : StreamBuffer ε where
  buf := []
  stream := some stream
  eof := false
  polledTotal := 0
  readUntilCursor := 0
  readUntilActive := false
  emptyChunks := 0

/-- The loop of `poll_stream`, with the number of polls that are left to it. -/
def pollStreamLoop (b : StreamBuffer ε) : Nat → Script ε → Item Bytes (Error ε) × StreamBuffer ε
  | 0, script => (.pending, { b with stream := some script })
  | _ + 1, [] => (.ready none, { b with stream := some [], eof := true })
  | _ + 1, .pending :: script => (.pending, { b with stream := some script })
  | _ + 1, .ready none :: script => (.ready none, { b with stream := some script, eof := true })
  | _ + 1, .ready (some (.error e)) :: script =>
    (.ready (some (.error e)), { b with stream := some script })
  | n + 1, .ready (some (.ok bytes)) :: script =>
    if bytes.isEmpty then
      let b := { b with emptyChunks := b.emptyChunks + 1 }
      if b.emptyChunks > maxConsecutiveEmptyChunks then
        (.ready (some (.error .streamStalled)), { b with stream := some script })
      else pollStreamLoop b n script
    else
      (.ready (some (.ok bytes)), { b with
        stream := some script, emptyChunks := 0, polledTotal := b.polledTotal + bytes.length })

/-- `poll_stream` -/
def pollStream (b : StreamBuffer ε) : Item Bytes (Error ε) × StreamBuffer ε :=
  match b.stream with
  | none => (.ready none, { b with eof := true })
  | some script => pollStreamLoop b emptyChunksPerPoll script

/-- The bytes of an answer, and one for the answer itself. -/
def answerWeight : Item Bytes (Error ε) → Nat
  | .ready (some (.ok bytes)) => bytes.length + 1
  | _ => 1

/-- The bytes that are left, and one for each answer: what a reader uses up. -/
def weight (b : StreamBuffer ε) : Nat := b.buf.length + ((b.stream.getD []).map answerWeight).sum

theorem pollStreamLoop_weight (b : StreamBuffer ε) (n : Nat) (script : Script ε) {c : Bytes}
    {b' : StreamBuffer ε} (h : pollStreamLoop b n script = (.ready (some (.ok c)), b')) :
    b'.buf = b.buf ∧ b'.weight + c.length < b.buf.length + (script.map answerWeight).sum := by
  induction n generalizing b script with
  | zero => cases h
  | succ n ih =>
    rcases script with _ | ⟨_ | (_ | (e | bytes)), script⟩
    · cases h
    · cases h
    · cases h
    · cases h
    · rw [pollStreamLoop] at h
      rw [List.map_cons, List.sum_cons, answerWeight]
      split at h
      · simp only at h
        split at h
        · cases h
        · obtain ⟨hbuf, hlt⟩ := ih _ _ h
          exact ⟨hbuf, by simp only at hlt; omega⟩
      · cases h
        refine ⟨rfl, ?_⟩
        simp only [weight, Option.getD_some]
        omega

/-- A chunk that is handed out has been taken from the stream. -/
theorem pollStream_weight {b b' : StreamBuffer ε} {c : Bytes}
    (h : b.pollStream = (.ready (some (.ok c)), b')) :
    b'.buf = b.buf ∧ b'.weight + c.length < b.weight := by
  unfold pollStream at h
  split at h
  · cases h
  · next script hs =>
    rw [weight, weight, hs]
    exact pollStreamLoop_weight b emptyChunksPerPoll script h

theorem pollStreamLoop_weight_le (b : StreamBuffer ε) (n : Nat) (script : Script ε) :
    (pollStreamLoop b n script).2.weight ≤ b.buf.length + (script.map answerWeight).sum := by
  induction n generalizing b script with
  | zero => simp [pollStreamLoop, weight]
  | succ n ih =>
    rcases script with _ | ⟨_ | (_ | (e | bytes)), script⟩
    · simp [pollStreamLoop, weight]
    · simp [pollStreamLoop, weight]
    · simp [pollStreamLoop, weight]
    · simp [pollStreamLoop, weight]
    · rw [pollStreamLoop, List.map_cons, List.sum_cons]
      split
      · dsimp only
        split
        · simp [weight]
        · have hle := ih { b with emptyChunks := b.emptyChunks + 1 } script
          dsimp only at hle ⊢
          omega
      · simp [weight]

theorem pollStream_weight_le (b : StreamBuffer ε) : b.pollStream.2.weight ≤ b.weight := by
  unfold pollStream
  split
  · next hs => simp [weight, hs]
  · next script hs =>
    have hle := pollStreamLoop_weight_le b emptyChunksPerPoll script
    rwa [weight, weight, hs] at *

/-- Less is left when at most the chunk and the old buffer are kept. -/
theorem weight_lt_of_poll {b b' : StreamBuffer ε} {c : Bytes} (buf : Bytes) (cursor : Nat)
    (h : b.pollStream = (.ready (some (.ok c)), b')) (hlen : buf.length ≤ b'.buf.length + c.length) :
    weight { b' with buf := buf, readUntilCursor := cursor } < b.weight := by
  obtain ⟨-, hlt⟩ := pollStream_weight h
  unfold weight at hlt ⊢
  simp only
  omega

/-- The loop of `poll_read_until` -/
def readUntilLoop (needle : Bytes) (max : Nat) (b : StreamBuffer ε) :
    Poll (Except (Error ε) Nat) × StreamBuffer ε :=
  match find needle (b.buf.drop b.readUntilCursor) with
  | some rel =>
    let stop := b.readUntilCursor + rel + needle.length
    if stop > max then (.ready (.error (.headerSizeExceeded max)), { b with readUntilActive := false })
    else (.ready (.ok stop), { b with readUntilActive := false })
  | none =>
    if b.buf.length > max then
      (.ready (.error (.headerSizeExceeded max)), { b with readUntilActive := false })
    else if b.eof then (.ready (.error .incompleteStream), { b with readUntilActive := false })
    else
      match hpoll : b.pollStream with
      | (.pending, b) => (.pending, b)
      | (.ready (some (.ok chunk)), b) =>
        readUntilLoop needle max { b with
          buf := b.buf ++ chunk, readUntilCursor := b.buf.length - (needle.length - 1) }
      | (.ready (some (.error e)), b) => (.ready (.error e), { b with readUntilActive := false })
      | (.ready none, b) =>
        (.ready (.error .incompleteStream), { b with eof := true, readUntilActive := false })
termination_by b.weight
decreasing_by exact weight_lt_of_poll _ _ hpoll (by rw [List.length_append])

/-- `poll_read_until` -/
def pollReadUntil (needle : Bytes) (max : Nat) (b : StreamBuffer ε) :
    Poll (Except (Error ε) Nat) × StreamBuffer ε :=
  if b.readUntilActive then readUntilLoop needle max b
  else readUntilLoop needle max { b with readUntilCursor := 0, readUntilActive := true }

/-- `poll_read_to` -/
def pollReadTo (needle : Bytes) (b : StreamBuffer ε) : Poll (Except (Error ε) Unit) × StreamBuffer ε :=
  match find needle b.buf with
  | some idx => (.ready (.ok ()), { b with buf := b.buf.drop (idx + needle.length) })
  | none =>
    if b.eof then (.ready (.error .invalidFormat), b)
    else
      match hpoll : b.pollStream with
      | (.pending, b) => (.pending, b)
      | (.ready (some (.ok chunk)), b) =>
        if b.buf.isEmpty then
          match find needle chunk with
          | some idx => (.ready (.ok ()), { b with buf := chunk.drop (idx + needle.length) })
          | none =>
            let keep := min (needle.length - 1) chunk.length
            pollReadTo needle { b with buf := chunk.drop (chunk.length - keep) }
        else
          let buf := b.buf ++ chunk
          match find needle buf with
          | some idx => (.ready (.ok ()), { b with buf := buf.drop (idx + needle.length) })
          | none =>
            let keep := min (needle.length - 1) buf.length
            pollReadTo needle { b with buf := buf.drop (buf.length - keep) }
      | (.ready (some (.error e)), b) => (.ready (.error e), b)
      | (.ready none, b) => (.ready (.error .invalidFormat), { b with eof := true })
termination_by b.weight
decreasing_by
  · refine weight_lt_of_poll _ b.readUntilCursor hpoll ?_
    rw [List.length_drop]
    omega
  · refine weight_lt_of_poll _ b.readUntilCursor hpoll ?_
    rw [List.length_drop, List.length_append]
    omega

/-- The loop of `poll_read_header_block` that waits for two bytes. -/
def waitForTwo (b : StreamBuffer ε) : Poll (Except (Error ε) Unit) × StreamBuffer ε :=
  if b.buf.length < 2 && !b.eof then
    match hpoll : pollStream { b with readUntilActive := false } with
    | (.pending, b) => (.pending, b)
    | (.ready (some (.ok chunk)), b) => waitForTwo { b with buf := b.buf ++ chunk }
    | (.ready (some (.error e)), b) => (.ready (.error e), b)
    | (.ready none, b) => (.ready (.ok ()), { b with eof := true })
  else (.ready (.ok ()), b)
termination_by b.weight
decreasing_by
  have hlt := weight_lt_of_poll (b.buf ++ chunk) b.readUntilCursor hpoll (by rw [List.length_append])
  exact hlt

/-- `poll_read_header_block` -/
def pollReadHeaderBlock (max : Nat) (b : StreamBuffer ε) :
    Poll (Except (Error ε) Nat) × StreamBuffer ε :=
  match waitForTwo b with
  | (.pending, b) => (.pending, b)
  | (.ready (.error e), b) => (.ready (.error e), b)
  | (.ready (.ok ()), b) =>
    if crlf.isPrefixOf b.buf then (.ready (.ok 2), { b with readUntilActive := false })
    else pollReadUntil (crlf ++ crlf) max b

/-- `consumed` -/
def consumed (b : StreamBuffer ε) : Nat := b.polledTotal - b.buf.length

end StreamBuffer

end S3s.FormData
