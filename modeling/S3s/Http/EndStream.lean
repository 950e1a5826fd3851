import S3s.AwsChunked.Authenticity
import S3s.Http.Body
import S3s.Upload.Stream

/-! # When a body says that it has ended

A body over a byte stream takes the counter of the stream for its end. The
counter reaches zero with the last byte of data, and the verdict on the data may
still be to come: the digest, the end of the inner stream, the terminal chunk,
the trailers.
-/
namespace S3s.Http
open Polling Upload AwsChunked

variable {ε : Type}

/-- `UploadStream` as a `ByteStream`. -/
def uploadByteStream (C : Crypto) : ByteStream (UploadStream ε) Unit (UploadStreamError ε) where
  pollNext _ s := s.pollNext C
  remainingLength s := .newExact s.remainingLength

/-- `AwsChunkedStream` as a `ByteStream`. -/
def awsChunkedByteStream : ByteStream (AwsChunkedStream ε) Bool (AwsChunkedStreamError ε) where
  pollNext := AwsChunkedStream.poll
  remainingLength s := .newExact s.remainingLength

theorem streamQuiet_iff_step {σ ι E : Type} (S : ByteStream σ ι E) (s : σ) :
    StreamQuiet S s ↔ ∀ i, IsQuiet (S.pollNext i s).1 ∧ StreamQuiet S (S.pollNext i s).2 := by
  constructor
  · intro h i
    refine ⟨h [i] _ List.mem_cons_self, fun schedule r hr => ?_⟩
    exact h (i :: schedule) r (List.mem_cons_of_mem _ hr)
  · intro h schedule r hr
    cases schedule with
    | nil => exact (List.not_mem_nil hr).elim
    | cons i schedule =>
      rcases List.mem_cons.mp hr with rfl | hr
      · exact (h i).1
      · exact (h i).2 schedule r hr

section Upload

/-- The inner stream brings nothing but empty fragments before its end. -/
def EndsQuietly : Script ε → Prop
  | [] => True
  | .pending :: script => EndsQuietly script
  | .ready none :: _ => True
  | .ready (some (.error _)) :: _ => False
  | .ready (some (.ok bytes)) :: script => bytes = [] ∧ EndsQuietly script

/-- No verdict is pending in an upload stream that has accepted all its bytes. -/
def UploadSettled (C : Crypto) (s : UploadStream ε) : Prop :=
  match s.state with
  | .reading => (∀ data ∈ s.hasher, C.sha256 data = s.expectedSha256) ∧ EndsQuietly s.inner
  | .awaitingEof => EndsQuietly s.inner
  | .finished => True
  | .failed => True

variable {C : Crypto} {s : UploadStream ε}

theorem endsQuietly_skipEmpty (script : Script ε) :
    EndsQuietly (skipEmpty script) ↔ EndsQuietly script := by
  induction script with
  | nil => exact Iff.rfl
  | cons r script ih =>
    rcases r with _ | (_ | (err | bytes))
    · exact Iff.rfl
    · exact Iff.rfl
    · exact Iff.rfl
    · cases bytes with
      | nil =>
        have hskip : skipEmpty (.ready (some (.ok [])) :: script) = skipEmpty script := rfl
        rw [EndsQuietly, hskip, ih]
        exact ⟨fun h => ⟨rfl, h⟩, fun h => h.2⟩
      | cons b bytes => exact Iff.rfl

theorem quiet_terminal (h : s.state = .finished ∨ s.state = .failed) :
    StreamQuiet (uploadByteStream C) s := by
  have hpoll : ∀ s : UploadStream ε, s.state = .finished ∨ s.state = .failed →
      UploadStream.pollNext C s = (.ready none, s) := by
    intro s hs
    rcases hs with hs | hs
    · rw [UploadStream.pollNext, hs]
    · rw [UploadStream.pollNext, hs]
  have hstep : ∀ (i : Unit) (s : UploadStream ε), s.state = .finished ∨ s.state = .failed →
      IsQuiet ((uploadByteStream C).pollNext i s).1 ∧
        (((uploadByteStream C).pollNext i s).2.state = .finished ∨
          ((uploadByteStream C).pollNext i s).2.state = .failed) := by
    intro i s hs
    simp only [uploadByteStream, hpoll s hs]
    exact ⟨.inr rfl, hs⟩
  intro schedule
  exact run_forall hstep schedule s h

theorem pollNext_awaiting (h : s.state = .awaitingEof) :
    UploadStream.pollNext C s = UploadStream.awaitStep s (skipEmpty s.inner) := by
  rw [UploadStream.pollNext, h]
  exact UploadStream.pollAwaitingEof_eq s s.inner

theorem skipEmpty_length_le (script : Script ε) : (skipEmpty script).length ≤ script.length := by
  obtain ⟨skipped, heq, -⟩ := skipEmpty_eq script
  conv_rhs => rw [heq]
  rw [List.length_append]
  omega

/-- Waiting for the end, what matters is what the inner stream brings before it. -/
theorem quiet_awaiting_iff (h : s.state = .awaitingEof) :
    StreamQuiet (uploadByteStream C) s ↔ EndsQuietly s.inner := by
  induction hn : s.inner.length using Nat.strongRecOn generalizing s with
  | ind n ih =>
    have hpoll := pollNext_awaiting (C := C) h
    have hlen := skipEmpty_length_le s.inner
    rw [streamQuiet_iff_step, ← endsQuietly_skipEmpty]
    simp only [uploadByteStream, hpoll, forall_const]
    rcases hskip : skipEmpty s.inner with _ | ⟨_ | (_ | (err | bytes)), rest⟩
    · refine iff_of_true ⟨.inr rfl, ?_⟩ trivial
      exact quiet_terminal (.inl rfl)
    · rw [hskip, List.length_cons] at hlen
      have hrest := ih rest.length (by omega) (s := { s with inner := rest }) h rfl
      constructor
      · intro hq
        exact hrest.mp hq.2
      · intro hq
        exact ⟨.inl rfl, hrest.mpr hq⟩
    · refine iff_of_true ⟨.inr rfl, ?_⟩ trivial
      exact quiet_terminal (.inl rfl)
    · refine iff_of_false ?_ id
      rintro ⟨hq | hq, -⟩ <;> cases hq
    · have hne := skipEmpty_ok_ne_nil hskip
      refine iff_of_false ?_ fun hq => hne hq.1
      rintro ⟨hq | hq, -⟩ <;> cases hq

/-- With all bytes accepted and the digest not yet compared, the next poll compares it. -/
theorem pollNext_reading_zero (h : s.state = .reading) (hr : s.remainingLength = 0) :
    UploadStream.pollNext C s =
      if ∀ data ∈ s.hasher, C.sha256 data = s.expectedSha256 then
        UploadStream.pollNext C { s with hasher := none, state := .awaitingEof }
      else (.ready (some (.error .sha256Mismatch)), { s with hasher := none, state := .failed }) := by
  have hleft : UploadStream.pollNext C s = UploadStream.pollReading C s s.inner := by
    rw [UploadStream.pollNext, h]
  rw [hleft]
  cases hh : s.hasher with
  | none =>
    rw [if_pos (by simp), UploadStream.pollReading, UploadStream.finalizeIfComplete,
      if_neg (not_not.mpr hr), UploadStream.finalizeHash, hh]
    simp only [UploadStream.pollNext, ← hh]
  | some data =>
    rw [UploadStream.pollReading_zero C s s.inner hr hh]
    simp only [Option.mem_some_iff, forall_eq']
    rfl

/-- The verdicts that an upload stream can still give when its counter is at zero. -/
theorem upload_quiet_iff (hr : s.remainingLength = 0) :
    StreamQuiet (uploadByteStream C) s ↔ UploadSettled C s := by
  unfold UploadSettled
  cases hstate : s.state with
  | reading =>
    have hpoll := pollNext_reading_zero (C := C) hstate hr
    by_cases hdigest : ∀ data ∈ s.hasher, C.sha256 data = s.expectedSha256
    · rw [if_pos hdigest] at hpoll
      have hnext := quiet_awaiting_iff (C := C)
        (s := { s with hasher := none, state := .awaitingEof }) rfl
      rw [streamQuiet_iff_step] at hnext ⊢
      simp only [uploadByteStream, hpoll] at hnext ⊢
      rw [hnext]
      exact ⟨fun hq => ⟨hdigest, hq⟩, fun hq => hq.2⟩
    · rw [if_neg hdigest] at hpoll
      rw [streamQuiet_iff_step]
      simp only [uploadByteStream, hpoll]
      refine iff_of_false ?_ fun hq => hdigest hq.1
      intro hq
      rcases (hq ()).1 with hq | hq <;> cases hq
  | awaitingEof => exact quiet_awaiting_iff hstate
  | finished => exact iff_of_true (quiet_terminal (.inl hstate)) trivial
  | failed => exact iff_of_true (quiet_terminal (.inr hstate)) trivial

end Upload

section AwsChunked

/-- No item and no error is pending in the generator. -/
def AwsChunkedSettled (s : AwsChunkedStream ε) : Prop :=
  s.outcome = none ∨ s.items = [] ∧ ∃ trailers, s.outcome = some (.ok trailers)

variable {s : AwsChunkedStream ε}

theorem isQuiet_endResult (hr : s.remainingLength = 0) :
    IsQuiet (AwsChunkedStream.endResult s) := by
  unfold AwsChunkedStream.endResult
  rw [if_neg (not_not.mpr hr)]
  exact .inr rfl

/-- The verdicts that an aws-chunked stream can still give when its counter is at zero. -/
theorem awsChunked_quiet_iff (hr : s.remainingLength = 0) :
    StreamQuiet awsChunkedByteStream s ↔ AwsChunkedSettled s := by
  constructor
  · intro h
    have hq := ((streamQuiet_iff_step _ s).mp h true).1
    change IsQuiet (AwsChunkedStream.poll true s).1 at hq
    rcases AwsChunkedStream.poll_cases true s with ⟨-, htrue, -⟩ | ⟨item, items, -, -, -, -, hp⟩ |
      ⟨item, items, -, -, -, -, hp⟩ | ⟨e, -, -, -, hp⟩ | ⟨t, hi, ho, -, -⟩ | ⟨ho, -⟩
    · cases htrue
    · rw [hp] at hq
      rcases hq with hq | hq <;> cases hq
    · rw [hp] at hq
      rcases hq with hq | hq <;> cases hq
    · rw [hp] at hq
      rcases hq with hq | hq <;> cases hq
    · exact .inr ⟨hi, t, ho⟩
    · exact .inl ho
  · intro h schedule
    refine run_forall (P := fun s : AwsChunkedStream ε => s.remainingLength = 0 ∧ AwsChunkedSettled s)
      (fun ready s hs => ?_) schedule s ⟨hr, h⟩
    change IsQuiet (AwsChunkedStream.poll ready s).1 ∧
      (AwsChunkedStream.poll ready s).2.remainingLength = 0 ∧
        AwsChunkedSettled (AwsChunkedStream.poll ready s).2
    obtain ⟨hr, hs⟩ := hs
    rcases AwsChunkedStream.poll_cases ready s with ⟨hp, -, -⟩ | ⟨item, items, hi, ho, -⟩ |
      ⟨item, items, hi, ho, -⟩ | ⟨e, -, ho, -⟩ | ⟨t, hi, -, -, hp⟩ | ⟨ho, hp⟩
    · rw [hp]
      exact ⟨.inl rfl, hr, hs⟩
    · rcases hs with hs | ⟨hnil, -⟩
      · exact (ho hs).elim
      · rw [hnil] at hi; cases hi
    · rcases hs with hs | ⟨hnil, -⟩
      · exact (ho hs).elim
      · rw [hnil] at hi; cases hi
    · rcases hs with hs | ⟨-, t, ht⟩
      · rw [ho] at hs; cases hs
      · rw [ho] at ht; cases ht
    · rw [hp]
      exact ⟨isQuiet_endResult hr, hr, .inl rfl⟩
    · rw [hp]
      exact ⟨isQuiet_endResult hr, hr, .inl ho⟩

end AwsChunked

/-- A foreign body that does not matter here. -/
def endedBody {ι E : Type} : HttpBody Unit ι E := ⟨fun _ _ => (.ready none, ()), fun _ => true⟩

/-- An upload of three bytes with one byte more behind them. -/
def overlongUpload : UploadStream Unit :=
  UploadStream.new [.ready (some (.ok (ascii "abc"))), .ready (some (.ok (ascii "d")))] 3
    (constantCrypto.sha256 [])

end S3s.Http
