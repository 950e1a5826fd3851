import S3s.Crypto.Digest
import S3s.Library.Polling

/-! # The upload stream

`UploadStream` forwards a body of declared length while it feeds a hasher, and
compares the digest before it hands out the last bytes. Its inner stream is the
script of what it answers to the polls to come; behind the end of the script it
answers that it has ended.
-/
namespace S3s.Upload
open Polling

variable {ε : Type}

/-- `State` -/
inductive State where
  | reading
  | awaitingEof
  | finished
  | failed
deriving DecidableEq

/-- `UploadStreamError` -/
inductive UploadStreamError (ε : Type) where
  | underlying (source : ε)
  | sha256Mismatch
  | lengthMismatch
  | incomplete
deriving DecidableEq

/-- The answers of an inner stream to successive polls. -/
abbrev Script (ε : Type) := List (Item Bytes ε)

/-- `UploadStream`. The hasher is the data it has been fed. -/
structure UploadStream (ε : Type) where
  inner : Script ε
  hasher : Option Bytes
  expectedSha256 : Sha256Sum
  remainingLength : Nat
  state : State

namespace UploadStream

/-- `UploadStream::new` -/
def new (inner : Script ε) (length : Nat) (expectedSha256 : Sha256Sum) : UploadStream ε where
  inner := inner
  hasher := some []
  expectedSha256 := expectedSha256
  remainingLength := length
  state := .reading

/-- The result of a poll and the stream it leaves. -/
abbrev Polled (ε : Type) := Item Bytes (UploadStreamError ε) × UploadStream ε

variable (C : Crypto)

/-- `finalize_hash` -/
def finalizeHash (s : UploadStream ε) : Except (UploadStreamError ε) Unit × UploadStream ε :=
  match s.hasher with
  | none => (.ok (), s)
  | some data =>
    let s := { s with hasher := none }
    if C.sha256 data = s.expectedSha256 then (.ok (), s) else (.error .sha256Mismatch, s)

/-- `finalize_if_complete` -/
def finalizeIfComplete (s : UploadStream ε) : Except (UploadStreamError ε) Bool × UploadStream ε :=
  if s.remainingLength ≠ 0 then (.ok false, s) else
  match finalizeHash C s with
  | (.ok (), s) => (.ok true, { s with state := .awaitingEof })
  | (.error err, s) => (.error err, { s with state := .failed })

/-- The loop in the state `AwaitingEof`. -/
def pollAwaitingEof (s : UploadStream ε) : Script ε → Polled ε
  | [] => (.ready none, { s with inner := [], state := .finished })
  | .pending :: inner => (.pending, { s with inner })
  | .ready none :: inner => (.ready none, { s with inner, state := .finished })
  | .ready (some (.error err)) :: inner =>
    (.ready (some (.error (.underlying err))), { s with inner, state := .failed })
  | .ready (some (.ok bytes)) :: inner =>
    if bytes.isEmpty then pollAwaitingEof s inner
    else (.ready (some (.error .lengthMismatch)), { s with inner, state := .failed })

/-- A non-empty fragment in the state `Reading`. -/
def receive (s : UploadStream ε) (bytes : Bytes) : Polled ε :=
  if bytes.length > s.remainingLength then
    (.ready (some (.error .lengthMismatch)), { s with state := .failed })
  else
    let s := { s with
      hasher := s.hasher.map (· ++ bytes), remainingLength := s.remainingLength - bytes.length }
    match finalizeIfComplete C s with
    | (.ok _, s) => (.ready (some (.ok bytes)), s)
    | (.error err, s) => (.ready (some (.error err)), s)

/-- The loop in the state `Reading`. -/
def pollReading (s : UploadStream ε) (inner : Script ε) : Polled ε :=
  match finalizeIfComplete C s with
  | (.ok true, s) => pollAwaitingEof s inner
  | (.error err, s) => (.ready (some (.error err)), { s with inner })
  | (.ok false, s) =>
    match inner with
    | [] => (.ready (some (.error .incomplete)), { s with inner := [], state := .failed })
    | .pending :: inner => (.pending, { s with inner })
    | .ready none :: inner =>
      (.ready (some (.error .incomplete)), { s with inner, state := .failed })
    | .ready (some (.error err)) :: inner =>
      (.ready (some (.error (.underlying err))), { s with inner, state := .failed })
    | .ready (some (.ok bytes)) :: inner =>
      if bytes.isEmpty then pollReading s inner else receive C { s with inner } bytes

/-- `UploadStream::poll_next` -/
def pollNext (s : UploadStream ε) : Polled ε :=
  match s.state with
  | .reading => pollReading C s s.inner
  | .awaitingEof => pollAwaitingEof s s.inner
  | .finished => (.ready none, s)
  | .failed => (.ready none, s)

/-- The results of a number of polls. -/
def polls (k : Nat) (s : UploadStream ε) : List (Item Bytes (UploadStreamError ε)) :=
  run (fun _ : Unit => pollNext C) (List.replicate k ()) s

/-- The stream after a number of polls. -/
def afterPolls (k : Nat) (s : UploadStream ε) : UploadStream ε :=
  after (fun _ : Unit => pollNext C) (List.replicate k ()) s

end UploadStream

/-- A fragment without bytes. -/
def isEmptyFragment : Item Bytes ε → Bool
  | .ready (some (.ok [])) => true
  | _ => false

/-- The script behind the empty fragments at its front. -/
def skipEmpty (script : Script ε) : Script ε := script.dropWhile isEmptyFragment

theorem skipEmpty_eq (script : Script ε) :
    ∃ skipped, script = skipped ++ skipEmpty script ∧ ∀ r ∈ skipped, r = .ready (some (.ok [])) := by
  refine ⟨script.takeWhile isEmptyFragment, List.takeWhile_append_dropWhile.symm, ?_⟩
  intro r hr
  have hempty := List.mem_takeWhile_imp hr
  unfold isEmptyFragment at hempty
  split at hempty
  · rfl
  · cases hempty

theorem skipEmpty_ok_ne_nil {script rest : Script ε} {bytes : Bytes}
    (h : skipEmpty script = .ready (some (.ok bytes)) :: rest) : bytes ≠ [] := by
  rintro rfl
  have hhead := List.head?_dropWhile_not isEmptyFragment script
  unfold skipEmpty at h
  rw [h] at hhead
  simp [isEmptyFragment] at hhead

namespace UploadStream

/-- The state `AwaitingEof` at the first answer that is not an empty fragment. -/
def awaitStep (s : UploadStream ε) : Script ε → Polled ε
  | [] => (.ready none, { s with inner := [], state := .finished })
  | .pending :: inner => (.pending, { s with inner })
  | .ready none :: inner => (.ready none, { s with inner, state := .finished })
  | .ready (some (.error err)) :: inner =>
    (.ready (some (.error (.underlying err))), { s with inner, state := .failed })
  | .ready (some (.ok _)) :: inner =>
    (.ready (some (.error .lengthMismatch)), { s with inner, state := .failed })

theorem pollAwaitingEof_eq (s : UploadStream ε) (inner : Script ε) :
    pollAwaitingEof s inner = awaitStep s (skipEmpty inner) := by
  induction inner with
  | nil => rfl
  | cons r inner ih =>
    rcases r with _ | (_ | (err | bytes))
    · rfl
    · rfl
    · rfl
    · cases bytes with
      | nil => exact ih
      | cons b bytes => rfl

/-- The state `Reading` at the first answer that is not an empty fragment. -/
def readStep (C : Crypto) (s : UploadStream ε) : Script ε → Polled ε
  | [] => (.ready (some (.error .incomplete)), { s with inner := [], state := .failed })
  | .pending :: inner => (.pending, { s with inner })
  | .ready none :: inner =>
    (.ready (some (.error .incomplete)), { s with inner, state := .failed })
  | .ready (some (.error err)) :: inner =>
    (.ready (some (.error (.underlying err))), { s with inner, state := .failed })
  | .ready (some (.ok bytes)) :: inner => receive C { s with inner } bytes

theorem pollReading_eq (C : Crypto) (s : UploadStream ε) (inner : Script ε)
    (h : s.remainingLength ≠ 0) : pollReading C s inner = readStep C s (skipEmpty inner) := by
  have hfin : finalizeIfComplete C s = (.ok false, s) := by rw [finalizeIfComplete, if_pos h]
  induction inner with
  | nil => rw [pollReading, hfin]; rfl
  | cons r inner ih =>
    rw [pollReading, hfin]
    rcases r with _ | (_ | (err | bytes))
    · rfl
    · rfl
    · rfl
    · cases bytes with
      | nil => exact ih
      | cons b bytes => rfl

theorem pollReading_zero (C : Crypto) (s : UploadStream ε) (inner : Script ε) {data : Bytes}
    (h : s.remainingLength = 0) (hhasher : s.hasher = some data) :
    pollReading C s inner =
      if C.sha256 data = s.expectedSha256 then
        pollAwaitingEof { s with hasher := none, state := .awaitingEof } inner
      else (.ready (some (.error .sha256Mismatch)),
        { s with inner, hasher := none, state := .failed }) := by
  rw [pollReading, finalizeIfComplete, if_neg (not_not.mpr h), finalizeHash, hhasher]
  by_cases hsha : C.sha256 data = s.expectedSha256
  · simp only [if_pos hsha]
  · simp only [if_neg hsha]

/-- A fragment that fits: it completes the payload or not, and the digest decides in the first case. -/
theorem receive_fits (C : Crypto) (s : UploadStream ε) {data : Bytes} (bytes : Bytes)
    (hhasher : s.hasher = some data) (hle : bytes.length ≤ s.remainingLength) :
    receive C s bytes =
      if s.remainingLength ≠ bytes.length then
        (.ready (some (.ok bytes)), { s with
          hasher := some (data ++ bytes), remainingLength := s.remainingLength - bytes.length })
      else if C.sha256 (data ++ bytes) = s.expectedSha256 then
        (.ready (some (.ok bytes)), { s with
          hasher := none, remainingLength := 0, state := .awaitingEof })
      else (.ready (some (.error .sha256Mismatch)), { s with
        hasher := none, remainingLength := 0, state := .failed }) := by
  rw [receive, if_neg (Nat.not_lt.mpr hle), hhasher]
  simp only [Option.map_some, finalizeIfComplete]
  by_cases hne : s.remainingLength = bytes.length
  · have hzero : s.remainingLength - bytes.length = 0 := by omega
    rw [if_neg (not_not.mpr hzero), if_neg (not_not.mpr hne)]
    by_cases hsha : C.sha256 (data ++ bytes) = s.expectedSha256
    · simp only [finalizeHash, if_pos hsha, hzero]
    · simp only [finalizeHash, if_neg hsha, hzero]
  · rw [if_pos (by omega), if_pos hne]

end UploadStream
end S3s.Upload
