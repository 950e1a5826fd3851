import S3s.AwsChunked.Recognisers
import S3s.AwsChunked.Run
import S3s.Library.Polling

/-! # The polled aws-chunked stream

The worker suspends while the body is not ready and goes on where it was, so
what it yields is a function of the fragments; which poll finds it ready is up
to the surroundings. The generator hands out the worker's items one at a time,
then its error if it failed, and nothing after that. `poll` keeps the account of
the declared length on top.
-/
namespace S3s.AwsChunked
open Fragments SigV4 Polling

variable {ε : Type}

/-- The arguments of `AwsChunkedStream::new` other than the body. -/
structure StreamArgs where
  seedSignature : Sha256Sum
  amzDate : AmzDate
  region : Bytes
  service : Bytes
  secretKey : Bytes
  decodedContentLength : Nat
  unsigned : Bool
  maxChunkSize : Nat

def StreamArgs.mode (args : StreamArgs) : Mode := ⟨args.unsigned, args.maxChunkSize⟩

/-- The signature context the worker starts with. -/
def StreamArgs.ctx (X : Externals) (args : StreamArgs) : SignatureCtx where
  amzDate := args.amzDate
  region := args.region
  service := args.service
  signingKey := deriveSigningKey X.toCrypto args.secretKey args.amzDate args.region args.service
  prevSignature := args.seedSignature

/-- The arguments for a body of `length` bytes, with a key and a seed that do not matter. -/
def StreamArgs.sample (length : Nat) (unsigned : Bool) : StreamArgs where
  seedSignature := ⟨List.replicate 32 0, Sha256Sum.length_zeros⟩
  amzDate := ⟨2013, 5, 24, 0, 0, 0⟩
  region := ascii "us-east-1"
  service := ascii "s3"
  secretKey := ascii "secret"
  decodedContentLength := length
  unsigned := unsigned
  maxChunkSize := 65536

/-- `AwsChunkedStream`. The generator is what the worker has still to hand out: its items and
then its outcome, which is gone once it has been delivered. -/
structure AwsChunkedStream (ε : Type) where
  items : List Bytes
  outcome : Option (Except (AwsChunkedStreamError ε) (Option HeaderMap))
  remainingLength : Nat
  trailers : Option HeaderMap

namespace AwsChunkedStream

/-- `AwsChunkedStream::new` -/
def new (X : Externals) (args : StreamArgs) (body : Body UInt8 ε) : AwsChunkedStream ε :=
  let run := worker X args.mode (args.ctx X) [] body
  { items := run.items
    outcome := some run.outcome
    remainingLength := args.decodedContentLength
    trailers := none }

/-- `poll_next` of the generator. A generator that has ended stays ended. -/
def pollInner (ready : Bool) (s : AwsChunkedStream ε) :
    Item Bytes (AwsChunkedStreamError ε) × AwsChunkedStream ε :=
  match s.outcome with
  | none => (.ready none, s)
  | some outcome =>
    if !ready then (.pending, s) else
    match s.items with
    | item :: items => (.ready (some (.ok item)), { s with items })
    | [] =>
      match outcome with
      | .ok trailers => (.ready none, { s with outcome := none, trailers })
      | .error e => (.ready (some (.error e)), { s with outcome := none })

/-- `AwsChunkedStream::poll` -/
def poll (ready : Bool) (s : AwsChunkedStream ε) :
    Item Bytes (AwsChunkedStreamError ε) × AwsChunkedStream ε :=
  match pollInner ready s with
  | (.ready (some (.ok bytes)), s) =>
    if !bytes.isEmpty && bytes.length > s.remainingLength then
      (.ready (some (.error .lengthMismatch)), s)
    else
      (.ready (some (.ok bytes)), { s with remainingLength := s.remainingLength - bytes.length })
  | (.ready none, s) =>
    if s.remainingLength ≠ 0 then (.ready (some (.error .incomplete)), s) else (.ready none, s)
  | other => other

/-- The result of a poll at the end of the generator. -/
def endResult (s : AwsChunkedStream ε) : Item Bytes (AwsChunkedStreamError ε) :=
  if s.remainingLength ≠ 0 then .ready (some (.error .incomplete)) else .ready none

/-- Everything one poll can do. -/
theorem poll_cases (ready : Bool) (s : AwsChunkedStream ε) :
    poll ready s = (.pending, s) ∧ ready = false ∧ s.outcome ≠ none ∨
    (∃ item items, s.items = item :: items ∧ s.outcome ≠ none ∧ item.length ≤ s.remainingLength ∧
      ready = true ∧ poll ready s = (.ready (some (.ok item)),
        { s with items, remainingLength := s.remainingLength - item.length })) ∨
    (∃ item items, s.items = item :: items ∧ s.outcome ≠ none ∧ s.remainingLength < item.length ∧
      ready = true ∧ poll ready s = (.ready (some (.error .lengthMismatch)), { s with items })) ∨
    (∃ e, s.items = [] ∧ s.outcome = some (.error e) ∧ ready = true ∧
      poll ready s = (.ready (some (.error e)), { s with outcome := none })) ∨
    (∃ trailers, s.items = [] ∧ s.outcome = some (.ok trailers) ∧ ready = true ∧
      poll ready s = (s.endResult, { s with outcome := none, trailers })) ∨
    (s.outcome = none ∧ poll ready s = (s.endResult, s)) := by
  obtain ⟨items, outcome, remainingLength, trailers⟩ := s
  rcases outcome with _ | outcome
  · refine .inr (.inr (.inr (.inr (.inr ⟨rfl, ?_⟩))))
    simp only [poll, pollInner, endResult]
    split <;> rfl
  · cases ready with
    | false => exact .inl ⟨rfl, rfl, by simp⟩
    | true =>
      rcases items with _ | ⟨item, items⟩
      · rcases outcome with e | t
        · exact .inr (.inr (.inr (.inl ⟨e, rfl, rfl, rfl, rfl⟩)))
        · refine .inr (.inr (.inr (.inr (.inl ⟨t, rfl, rfl, rfl, ?_⟩))))
          simp only [poll, pollInner, endResult, Bool.not_true, Bool.false_eq_true, if_false]
          split <;> rfl
      · by_cases hlen : item.length ≤ remainingLength
        · refine .inr (.inl ⟨item, items, rfl, by simp, hlen, rfl, ?_⟩)
          simp [poll, pollInner, Nat.not_lt.mpr hlen]
        · have hlt : remainingLength < item.length := by omega
          have hne : item ≠ [] := by rintro rfl; simp at hlt
          refine .inr (.inr (.inl ⟨item, items, rfl, by simp, hlt, rfl, ?_⟩))
          simp [poll, pollInner, hlt, hne]

/-- What a consumer that stops at the first error or at the end makes of the stream. -/
inductive Verdict (ε : Type) where
  | clean (data : Bytes) (trailers : Option HeaderMap)
  | failed (kind : ErrorKind ε)

def Verdict.prepend (bytes : Bytes) : Verdict ε → Verdict ε
  | .clean data trailers => .clean (bytes ++ data) trailers
  | .failed kind => .failed kind

/-- Polling until the first error or the end; `none` while the stream has not got there. -/
def consume (s : AwsChunkedStream ε) : List Bool → Option (Verdict ε)
  | [] => none
  | ready :: schedule =>
    match poll ready s with
    | (.pending, s) => consume s schedule
    | (.ready (some (.ok bytes)), s) => (consume s schedule).map (.prepend bytes)
    | (.ready (some (.error e)), _) => some (.failed e.kind)
    | (.ready none, s) => some (.clean [] s.trailers)

/-- The verdict on a run that yields `data` and ends with `outcome`, against a declared length. -/
def judge (data : Bytes) (outcome : Except (ErrorKind ε) (Option HeaderMap)) (declared : Nat) :
    Verdict ε :=
  if declared < data.length then .failed .lengthMismatch else
  match outcome with
  | .error kind => .failed kind
  | .ok trailers => if data.length < declared then .failed .incomplete else .clean data trailers

theorem judge_append (bytes data : Bytes) (outcome : Except (ErrorKind ε) (Option HeaderMap))
    (declared : Nat) (h : bytes.length ≤ declared) :
    judge (bytes ++ data) outcome declared =
      (judge data outcome (declared - bytes.length)).prepend bytes := by
  unfold judge
  rw [List.length_append]
  by_cases hlt : declared < bytes.length + data.length
  · rw [if_pos hlt, if_pos (by omega)]
    rfl
  · rw [if_neg hlt, if_neg (by omega)]
    rcases outcome with kind | trailers
    · rfl
    · simp only
      by_cases hshort : bytes.length + data.length < declared
      · rw [if_pos hshort, if_pos (by omega)]
        rfl
      · rw [if_neg hshort, if_neg (by omega)]
        rfl

/-- The consumer's verdict is decided by the bytes and the outcome of the worker, whatever the
items are and whenever the polls find them ready. -/
theorem consume_eq_judge (s : AwsChunkedStream ε) (schedule : List Bool)
    (outcome : Except (AwsChunkedStreamError ε) (Option HeaderMap)) (ho : s.outcome = some outcome)
    (v : Verdict ε) (h : consume s schedule = some v) :
    v = judge s.items.flatten (outcome.mapError AwsChunkedStreamError.kind) s.remainingLength := by
  induction schedule generalizing s v with
  | nil => cases h
  | cons ready schedule ih =>
    rw [consume] at h
    rcases poll_cases ready s with ⟨hp, -, -⟩ | ⟨item, items, hi, -, hle, -, hp⟩ |
      ⟨item, items, hi, -, hlt, -, hp⟩ | ⟨e, hi, he, -, hp⟩ | ⟨t, hi, he, -, hp⟩ | ⟨hno, -⟩
    · rw [hp] at h
      exact ih s ho v h
    · rw [hp] at h
      simp only [Option.map_eq_some_iff] at h
      obtain ⟨w, hw, rfl⟩ := h
      rw [ih { s with items, remainingLength := s.remainingLength - item.length } ho w hw, hi,
        List.flatten_cons, judge_append _ _ _ _ hle]
    · rw [hp] at h
      simp only [Option.some.injEq] at h
      subst h
      unfold judge
      rw [if_pos (by rw [hi, List.flatten_cons, List.length_append]; omega)]
      rfl
    · rw [hp] at h
      simp only [Option.some.injEq] at h
      subst h
      rw [he] at ho
      cases ho
      rw [hi]
      simp [judge, Except.mapError]
    · rw [hp] at h
      rw [he] at ho
      cases ho
      rw [hi]
      unfold endResult at h
      by_cases hr : s.remainingLength = 0
      · rw [if_neg (by simp [hr])] at h
        simp only [Option.some.injEq] at h
        simp [← h, judge, hr, Except.mapError]
      · rw [if_pos hr] at h
        simp only [Option.some.injEq] at h
        simp [← h, judge, Except.mapError, Nat.pos_of_ne_zero hr, AwsChunkedStreamError.kind]
    · rw [hno] at ho
      cases ho

/-- A consumer that keeps polling gets its verdict: one ready poll for each item and one more. -/
theorem consume_isSome (s : AwsChunkedStream ε) (schedule : List Bool)
    (hs : s.outcome ≠ none) (hlen : s.items.length < schedule.count true) :
    (consume s schedule).isSome = true := by
  induction schedule generalizing s with
  | nil => simp at hlen
  | cons ready schedule ih =>
    rw [consume]
    rcases poll_cases ready s with ⟨hp, rfl, -⟩ | ⟨item, items, hi, -, -, rfl, hp⟩ |
      ⟨item, items, hi, -, -, rfl, hp⟩ | ⟨e, hi, he, rfl, hp⟩ | ⟨t, hi, he, rfl, hp⟩ | ⟨hno, -⟩
    · rw [hp]
      exact ih s hs (by simpa using hlen)
    · rw [hp]
      simp only [Option.isSome_map]
      refine ih _ hs ?_
      rw [hi] at hlen
      simpa using hlen
    · rw [hp]
      rfl
    · rw [hp]
      rfl
    · rw [hp]
      unfold endResult
      by_cases hr : s.remainingLength ≠ 0
      · simp only [if_pos hr, Option.isSome_some]
      · simp only [if_neg hr, Option.isSome_some]
    · exact (hs hno).elim

/-- A consumer's verdict on a fresh stream is that of the decoder on the view of the body. -/
theorem consume_new (X : Externals) (args : StreamArgs) (body : Body UInt8 ε) (schedule : List Bool)
    (v : Verdict ε) (h : consume (new X args body) schedule = some v) :
    v = judge (decode X args.mode (args.ctx X) (view [] body)).data
      (decode X args.mode (args.ctx X) (view [] body)).outcome args.decodedContentLength := by
  obtain ⟨hitems, houtcome⟩ := worker_decode X args.mode (args.ctx X) [] body
  rw [← hitems, ← houtcome]
  exact consume_eq_judge _ schedule _ rfl v h

/-- A consumer of a fresh stream that polls often enough gets the decoder's verdict. -/
theorem consume_new_of_count (X : Externals) (args : StreamArgs) (body : Body UInt8 ε)
    (schedule : List Bool) (h : (new X args body).items.length < schedule.count true) :
    consume (new X args body) schedule =
      some (judge (decode X args.mode (args.ctx X) (view [] body)).data
        (decode X args.mode (args.ctx X) (view [] body)).outcome args.decodedContentLength) := by
  have hsome := consume_isSome (new X args body) schedule (Option.some_ne_none _) h
  obtain ⟨v, hv⟩ := Option.isSome_iff_exists.mp hsome
  rw [hv, consume_new X args body schedule v hv]

/-- Two splits of the same bytes lead every consumer to one verdict: the same data and trailers
at a clean end, or an error of the same kind. -/
theorem verdict_independent_of_fragments (X : Externals) (args : StreamArgs)
    (fs₁ fs₂ : List Bytes) (hsplit : fs₁.flatten = fs₂.flatten) :
    ∃ v : Verdict ε, ∀ fs ∈ [fs₁, fs₂],
      (∀ schedule w, consume (new X args (Body.ofFragments fs)) schedule = some w → w = v) ∧
      ∃ polls, ∀ schedule : List Bool, polls ≤ schedule.count true →
        consume (new X args (Body.ofFragments fs)) schedule = some v := by
  have hview : ∀ fs ∈ [fs₁, fs₂], view [] (Body.ofFragments fs : Body UInt8 ε) =
      ⟨fs₁.flatten, none⟩ := by
    intro fs hfs
    simp only [List.mem_cons, List.not_mem_nil, or_false] at hfs
    rcases hfs with rfl | rfl
    · exact view_ofFragments [] fs
    · rw [hsplit]
      exact view_ofFragments [] fs
  let flat : FlatRun ε := decode X args.mode (args.ctx X) ⟨fs₁.flatten, none⟩
  refine ⟨judge flat.data flat.outcome args.decodedContentLength, ?_⟩
  intro fs hfs
  simp only [flat, ← hview fs hfs]
  constructor
  · intro schedule w h
    exact consume_new X args _ schedule w h
  · refine ⟨(new X args (Body.ofFragments fs : Body UInt8 ε)).items.length + 1, ?_⟩
    intro schedule h
    exact consume_new_of_count X args _ schedule (by omega)

theorem verdict_independent_of_fragments_sample :
    ∃ v : Verdict Unit, ∀ fs ∈ [[ascii "3\r\nabc\r\n0\r\n"], [ascii "3\r", [], ascii "\nabc\r\n0", crlf]],
      (∀ schedule w, consume (new (reference constantCrypto) (StreamArgs.sample 3 true)
        (Body.ofFragments fs)) schedule = some w → w = v) ∧
      ∃ polls, ∀ schedule : List Bool, polls ≤ schedule.count true →
        consume (new (reference constantCrypto) (StreamArgs.sample 3 true) (Body.ofFragments fs))
          schedule = some v :=
  verdict_independent_of_fragments (reference constantCrypto) (StreamArgs.sample 3 true)
    [ascii "3\r\nabc\r\n0\r\n"] [ascii "3\r", [], ascii "\nabc\r\n0", crlf] (by decide)

end AwsChunkedStream
end S3s.AwsChunked
