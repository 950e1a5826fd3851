import S3s.Library.Bytes
import S3s.Library.Polling

/-! # HTTP bodies

A `Body` is empty, a buffer, a foreign HTTP body or a byte stream, under an
optional allowance of bytes. The foreign body and the byte stream are machines
of their own; the body only forwards to them.
-/
namespace S3s.Http
open Polling

/-- `RemainingLength` -/
structure RemainingLength where
  lower : Nat
  upper : Option Nat

namespace RemainingLength

/-- `RemainingLength::new_exact` -/
def newExact (n : Nat) : RemainingLength := ⟨n, some n⟩

/-- `RemainingLength::exact` -/
def exact (r : RemainingLength) : Option Nat := r.upper.filter (· == r.lower)

@[simp] theorem exact_newExact (n : Nat) : (newExact n).exact = some n := by
  simp [newExact, exact, Option.filter]

end RemainingLength

/-- `ByteStream`: a polled stream that knows how much is left. -/
structure ByteStream (σ ι E : Type) where
  pollNext : ι → σ → Item Bytes E × σ
  remainingLength : σ → RemainingLength

/-- `Frame` -/
inductive Frame where
  | data (bytes : Bytes)
  | trailers (headers : List (Bytes × Bytes))
deriving DecidableEq

/-- The part of the trait `http_body::Body` that is forwarded to. -/
structure HttpBody (τ ι E : Type) where
  pollFrame : ι → τ → Item Frame E × τ
  isEndStream : τ → Bool

/-- `Kind`. The three variants that hold a foreign HTTP body forward alike. -/
inductive Kind (σ τ : Type) where
  | empty
  | once (inner : Bytes)
  | httpBody (inner : τ)
  | dynStream (inner : σ)

/-- `Body` -/
structure Body (σ τ : Type) where
  kind : Kind σ τ
  remainingLimit : Option Nat

/-- The errors of a body: those of the inner machine, and `BodySizeLimitExceeded`. -/
inductive BodyError (E : Type) where
  | inner (e : E)
  | sizeLimitExceeded (size limit : Nat)

variable {σ τ ι E : Type}

/-- An inner error becomes an error of the body. -/
def liftFrame : Item Frame E → Item Frame (BodyError E)
  | .pending => .pending
  | .ready none => .ready none
  | .ready (some (.error e)) => .ready (some (.error (.inner e)))
  | .ready (some (.ok frame)) => .ready (some (.ok frame))

/-- `map_ok(Frame::data)` -/
def dataFrame : Item Bytes E → Item Frame E
  | .pending => .pending
  | .ready none => .ready none
  | .ready (some (.error e)) => .ready (some (.error e))
  | .ready (some (.ok bytes)) => .ready (some (.ok (.data bytes)))

namespace Body

/-- The first half of `poll_frame`: the poll of the kind. -/
def pollKind (S : ByteStream σ ι E) (H : HttpBody τ ι E) (i : ι) :
    Kind σ τ → Item Frame E × Kind σ τ
  | .empty => (.ready none, .empty)
  | .once bytes =>
    if bytes.isEmpty then (.ready none, .empty) else (.ready (some (.ok (.data bytes))), .empty)
  | .httpBody inner =>
    let (r, inner) := H.pollFrame i inner
    (r, .httpBody inner)
  | .dynStream inner =>
    let (r, inner) := S.pollNext i inner
    (dataFrame r, .dynStream inner)

/-- `Body::poll_frame` -/
def pollFrame (S : ByteStream σ ι E) (H : HttpBody τ ι E) (i : ι) (b : Body σ τ) :
    Item Frame (BodyError E) × Body σ τ :=
  let (r, kind) := pollKind S H i b.kind
  match b.remainingLimit, r with
  | some remaining, .ready (some (.ok (.data bytes))) =>
    if bytes.length > remaining then
      (.ready (some (.error (.sizeLimitExceeded bytes.length remaining))), { b with kind })
    else (liftFrame r, ⟨kind, some (remaining - bytes.length)⟩)
  | _, _ => (liftFrame r, { b with kind })

/-- `Body::is_end_stream` -/
def isEndStream (S : ByteStream σ ι E) (H : HttpBody τ ι E) (b : Body σ τ) : Bool :=
  match b.kind with
  | .empty => true
  | .once inner => inner.isEmpty
  | .httpBody inner => H.isEndStream inner
  | .dynStream inner => (S.remainingLength inner).exact == some 0

end Body

/-- A result that hides nothing: the end, or nothing yet. -/
def IsQuiet {α E : Type} (r : Item α E) : Prop := r = .pending ∨ r = .ready none

/-- Every later poll of the stream returns the end or nothing yet. -/
def StreamQuiet (S : ByteStream σ ι E) (s : σ) : Prop :=
  ∀ schedule : List ι, ∀ r ∈ run S.pollNext schedule s, IsQuiet r

/-- When the body says that it has ended, every later poll of it returns the end or nothing yet. -/
def HidesNothing (S : ByteStream σ ι E) (H : HttpBody τ ι E) (b : Body σ τ) : Prop :=
  b.isEndStream S H = true →
    ∀ schedule : List ι, ∀ r ∈ run (Body.pollFrame S H) schedule b, IsQuiet r

/-- A poll of a body over a stream is one of the stream, and quiet together with it. -/
theorem pollFrame_dynStream (S : ByteStream σ ι E) (H : HttpBody τ ι E) (i : ι) (s : σ)
    (limit : Option Nat) :
    (∃ limit', (Body.pollFrame S H i ⟨.dynStream s, limit⟩).2 =
        ⟨.dynStream (S.pollNext i s).2, limit'⟩) ∧
      (IsQuiet (Body.pollFrame S H i ⟨.dynStream s, limit⟩).1 ↔ IsQuiet (S.pollNext i s).1) := by
  rcases h : S.pollNext i s with ⟨_ | (_ | (e | bytes)), s'⟩
  · simp only [Body.pollFrame, Body.pollKind, h, dataFrame]
    exact ⟨⟨limit, rfl⟩, by simp [IsQuiet, liftFrame]⟩
  · simp only [Body.pollFrame, Body.pollKind, h, dataFrame]
    exact ⟨⟨limit, rfl⟩, by simp [IsQuiet, liftFrame]⟩
  · simp only [Body.pollFrame, Body.pollKind, h, dataFrame]
    exact ⟨⟨limit, rfl⟩, by simp [IsQuiet, liftFrame]⟩
  · simp only [Body.pollFrame, Body.pollKind, h, dataFrame]
    cases limit with
    | none => exact ⟨⟨none, rfl⟩, by simp [IsQuiet, liftFrame]⟩
    | some remaining =>
      simp only
      by_cases hbig : bytes.length > remaining
      · rw [if_pos hbig]
        exact ⟨⟨some remaining, rfl⟩, by simp [IsQuiet]⟩
      · rw [if_neg hbig]
        exact ⟨⟨_, rfl⟩, by simp [IsQuiet, liftFrame]⟩

/-- The polls of a body over a stream are all quiet exactly when those of the stream are. -/
theorem body_quiet_iff (S : ByteStream σ ι E) (H : HttpBody τ ι E) (schedule : List ι) (s : σ)
    (limit : Option Nat) :
    (∀ r ∈ run (Body.pollFrame S H) schedule ⟨.dynStream s, limit⟩, IsQuiet r) ↔
      ∀ r ∈ run S.pollNext schedule s, IsQuiet r := by
  induction schedule generalizing s limit with
  | nil => simp [run]
  | cons i schedule ih =>
    obtain ⟨⟨limit', hnext⟩, hquiet⟩ := pollFrame_dynStream S H i s limit
    rw [run, run, hnext, List.forall_mem_cons, List.forall_mem_cons, hquiet, ih]

/-- A body over a stream after some polls is a body over the stream after as many. -/
theorem after_dynStream (S : ByteStream σ ι E) (H : HttpBody τ ι E) (schedule : List ι) (s : σ)
    (limit : Option Nat) :
    ∃ limit', after (Body.pollFrame S H) schedule ⟨.dynStream s, limit⟩ =
      ⟨.dynStream (after S.pollNext schedule s), limit'⟩ := by
  induction schedule generalizing s limit with
  | nil => exact ⟨limit, rfl⟩
  | cons i schedule ih =>
    obtain ⟨⟨limit', hnext⟩, -⟩ := pollFrame_dynStream S H i s limit
    obtain ⟨limit'', hrest⟩ := ih (S.pollNext i s).2 limit'
    exact ⟨limit'', by rw [after, after, hnext, hrest]⟩

theorem hidesNothing_dynStream (S : ByteStream σ ι E) (H : HttpBody τ ι E) (s : σ)
    (limit : Option Nat) :
    HidesNothing S H ⟨.dynStream s, limit⟩ ↔
      ((S.remainingLength s).exact = some 0 → StreamQuiet S s) := by
  unfold HidesNothing StreamQuiet Body.isEndStream
  simp only [beq_iff_eq, body_quiet_iff]

/-- Over whole runs: a body over a stream never hides anything exactly when the stream is quiet in
every state reached in which it reports that nothing is left. -/
theorem never_hides_iff (S : ByteStream σ ι E) (H : HttpBody τ ι E) (s : σ) (limit : Option Nat) :
    (∀ schedule, HidesNothing S H (after (Body.pollFrame S H) schedule ⟨.dynStream s, limit⟩)) ↔
      ∀ schedule, (S.remainingLength (after S.pollNext schedule s)).exact = some 0 →
        StreamQuiet S (after S.pollNext schedule s) := by
  refine forall_congr' fun schedule => ?_
  obtain ⟨limit', hafter⟩ := after_dynStream S H schedule s limit
  rw [hafter, hidesNothing_dynStream]

end S3s.Http
