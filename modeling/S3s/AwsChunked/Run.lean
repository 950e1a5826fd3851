import S3s.AwsChunked.Worker

/-! # Whole runs of the worker

Every turn that goes round consumes its metadata line, so the loop ends. A run
on fragments yields the bytes and the outcome of the run on the view.
-/
namespace S3s.AwsChunked
open Fragments SigV4

variable {ε : Type}

/-- The line is the content up to and including its first line feed. -/
theorem flatMeta_eq_ok {v v' : View UInt8 ε} {buf : Bytes} :
    flatMeta v = some (.ok (buf, v')) ↔
      ∃ line, lf ∉ line ∧ buf = line ++ [lf] ∧ buf.length ≤ maxChunkMetaSize ∧
        v.content = buf ++ v'.content ∧ v'.fault = v.fault := by
  constructor
  · intro h
    unfold flatMeta at h
    split at h
    · next i hi =>
      split at h
      · cases h
      · next hsize =>
        simp only [Option.some.injEq, Except.ok.injEq, Prod.mk.injEq] at h
        obtain ⟨rfl, rfl⟩ := h
        obtain ⟨hlt, hlf, hbefore⟩ := List.idxOf?_eq_some_iff.mp hi
        have htake : v.content.take (i + 1) = v.content.take i ++ [lf] := by
          rw [List.take_succ_eq_append_getElem hlt, hlf]
        refine ⟨v.content.take i, ?_, htake, ?_, (List.take_append_drop _ _).symm, rfl⟩
        · intro hmem
          obtain ⟨j, hj, hget⟩ := List.mem_take_iff_getElem.mp hmem
          exact hbefore j (by omega) hget
        · rw [List.length_take]; omega
    · split at h
      · cases h
      · unfold View.exhausted at h
        split at h <;> simp at h
  · rintro ⟨line, hline, rfl, hsize, hcontent, hfault⟩
    have hidx : v.content.idxOf? lf = some line.length := by
      rw [hcontent, List.append_assoc, idxOf?_append, List.idxOf?_eq_none_iff.mpr hline]
      simp [List.idxOf?_cons]
    have hlen : (line ++ [lf]).length = line.length + 1 := by simp
    rw [hlen] at hsize
    rw [flatMeta_found hidx hsize]
    congr 3
    · rw [hcontent, ← hlen, List.take_left']
      rfl
    · apply View.ext
      · rw [View.drop_content, hcontent, ← hlen, List.drop_left']
        rfl
      · exact hfault.symm

theorem flatByte_eq_ok {expected : UInt8} {v v' : View UInt8 ε} :
    flatByte expected v = some (.ok v') ↔ v.content = expected :: v'.content ∧ v'.fault = v.fault := by
  obtain ⟨content, fault⟩ := v
  obtain ⟨content', fault'⟩ := v'
  cases content with
  | nil => cases fault <;> simp [flatByte, View.exhausted]
  | cons x rest =>
    by_cases hx : x = expected
    · simp [flatByte, hx, eq_comm]
    · simp [flatByte, hx]

theorem flatCrlf_eq_ok {v v' : View UInt8 ε} :
    flatCrlf v = some (.ok v') ↔ v.content = crlf ++ v'.content ∧ v'.fault = v.fault := by
  unfold flatCrlf
  constructor
  · intro h
    split at h
    · next w hw =>
      obtain ⟨hcr, hf⟩ := flatByte_eq_ok.mp hw
      obtain ⟨hlf, hf'⟩ := flatByte_eq_ok.mp h
      exact ⟨by rw [hcr, hlf]; rfl, hf'.trans hf⟩
    · next hno => exact (hno v' h).elim
  · rintro ⟨hc, hf⟩
    have hcr : flatByte cr v = some (.ok ⟨lf :: v'.content, v.fault⟩) :=
      flatByte_eq_ok.mpr ⟨hc, rfl⟩
    rw [hcr]
    exact flatByte_eq_ok.mpr ⟨rfl, hf⟩

/-- Behind the data of a non-empty chunk stands a line end. -/
theorem flatSkip_eq_ok {n : Nat} {v v' : View UInt8 ε} :
    flatSkip n v = some (.ok v') ↔
      (n = 0 ∧ v' = v) ∨ (0 < n ∧ n ≤ v.content.length ∧
        v.content = v.content.take n ++ (crlf ++ v'.content) ∧ v'.fault = v.fault) := by
  unfold flatSkip
  by_cases h0 : n = 0
  · subst h0
    simp [eq_comm]
  · rw [if_neg h0]
    by_cases hlen : v.content.length < n
    · rw [if_pos hlen]
      unfold View.exhausted
      cases v.fault <;> simp [h0] <;> omega
    · rw [if_neg hlen, flatCrlf_eq_ok]
      simp only [h0, false_and, false_or, View.drop_content, View.drop_fault]
      have hsplit : v.content = v.content.take n ++ (crlf ++ v'.content) ↔
          v.content.drop n = crlf ++ v'.content := by
        conv_lhs => lhs; rw [← List.take_append_drop n v.content]
        exact List.append_right_inj _
      rw [hsplit]
      constructor
      · rintro ⟨h, hf⟩; exact ⟨Nat.pos_of_ne_zero h0, by omega, h, hf⟩
      · rintro ⟨-, -, h, hf⟩; exact ⟨h, hf⟩

theorem flatSkip_length {n : Nat} {v v' : View UInt8 ε} (h : flatSkip n v = some (.ok v')) :
    v'.content.length ≤ v.content.length := by
  rcases flatSkip_eq_ok.mp h with ⟨-, rfl⟩ | ⟨-, -, hc, -⟩
  · exact le_rfl
  · have := congrArg List.length hc
    simp only [List.length_append] at this
    omega

theorem flatAfter_next {X : Externals} {mode : Mode} {size : Nat} {ctx ctx' : SignatureCtx}
    {v v' : View UInt8 ε} (h : flatAfter X mode size ctx v = .next ctx' v') :
    size ≠ 0 ∧ ctx' = ctx ∧ v' = v := by
  unfold flatAfter at h
  split at h
  · cases h
  · next h0 => cases h; exact ⟨h0, rfl, rfl⟩

/-- A turn that goes round has consumed at least the line feed of its metadata. -/
theorem flatStep_next_length {X : Externals} {mode : Mode} {ctx ctx' : SignatureCtx}
    {v v' : View UInt8 ε} {d : Bytes} (h : flatStep X mode ctx v = (d, .next ctx' v')) :
    v'.content.length < v.content.length := by
  unfold flatStep at h
  split at h
  · cases h
  · cases h
  · next buf w hmeta =>
    obtain ⟨line, -, rfl, -, hcontent, -⟩ := flatMeta_eq_ok.mp hmeta
    have hlt : w.content.length < v.content.length := by
      rw [hcontent]; simp only [List.length_append, List.length_cons, List.length_nil]; omega
    split at h
    · cases h
    · split at h
      · cases h
      · simp only [Prod.mk.injEq] at h
        obtain ⟨-, h⟩ := h
        split at h
        · cases h
        · cases h
        · next w' hskip =>
          obtain ⟨-, -, rfl⟩ := flatAfter_next h
          exact lt_of_le_of_lt (flatSkip_length hskip) hlt
    · split at h
      · cases h
      · split at h
        · cases h
        · cases h
        · next w' hskip =>
          split at h
          · simp only [Prod.mk.injEq] at h
            obtain ⟨-, -, rfl⟩ := flatAfter_next h.2
            exact lt_of_le_of_lt (flatSkip_length hskip) hlt
          · cases h

theorem chunkStep_next_length {X : Externals} {mode : Mode} {ctx ctx' : SignatureCtx}
    {prev prev' : Bytes} {body body' : Body UInt8 ε} {items : List Bytes}
    (h : chunkStep X mode ctx prev body = (items, .next ctx' prev' body')) :
    (view prev' body').content.length < (view prev body).content.length := by
  have hflat := chunkStep_flat X mode ctx prev body
  rw [h] at hflat
  exact flatStep_next_length hflat.symm

/-- The items a worker yields and the result of its future: the trailers it stored, if any. -/
structure WorkerRun (ε : Type) where
  items : List Bytes
  outcome : Except (AwsChunkedStreamError ε) (Option HeaderMap)

/-- The worker's loop -/
def worker (X : Externals) (mode : Mode) (ctx : SignatureCtx) (prev : Bytes) (body : Body UInt8 ε) :
    WorkerRun ε :=
  match _ : chunkStep X mode ctx prev body with
  | (items, .stop outcome) => ⟨items, outcome⟩
  | (items, .next ctx' prev' body') =>
    let run := worker X mode ctx' prev' body'
    ⟨items ++ run.items, run.outcome⟩
termination_by (view prev body).content.length
decreasing_by exact chunkStep_next_length ‹_›

theorem worker_stop {X : Externals} {mode : Mode} {ctx : SignatureCtx} {prev : Bytes}
    {body : Body UInt8 ε} {items : List Bytes}
    {outcome : Except (AwsChunkedStreamError ε) (Option HeaderMap)}
    (h : chunkStep X mode ctx prev body = (items, .stop outcome)) :
    worker X mode ctx prev body = ⟨items, outcome⟩ := by
  rw [worker]
  split
  · next heq => rw [h] at heq; cases heq; rfl
  · next heq => rw [h] at heq; cases heq

theorem worker_next {X : Externals} {mode : Mode} {ctx ctx' : SignatureCtx} {prev prev' : Bytes}
    {body body' : Body UInt8 ε} {items : List Bytes}
    (h : chunkStep X mode ctx prev body = (items, .next ctx' prev' body')) :
    worker X mode ctx prev body = ⟨items ++ (worker X mode ctx' prev' body').items,
      (worker X mode ctx' prev' body').outcome⟩ := by
  rw [worker]
  split
  · next heq => rw [h] at heq; cases heq
  · next heq => rw [h] at heq; cases heq; rfl

/-- The bytes and the outcome of a run on the view. -/
structure FlatRun (ε : Type) where
  data : Bytes
  outcome : Except (ErrorKind ε) (Option HeaderMap)

/-- The decoder of a whole body, fragment boundaries forgotten. -/
def decode (X : Externals) (mode : Mode) (ctx : SignatureCtx) (v : View UInt8 ε) : FlatRun ε :=
  match _ : flatStep X mode ctx v with
  | (d, .stop outcome) => ⟨d, outcome⟩
  | (d, .next ctx' v') =>
    let run := decode X mode ctx' v'
    ⟨d ++ run.data, run.outcome⟩
termination_by v.content.length
decreasing_by exact flatStep_next_length ‹_›

theorem decode_stop {X : Externals} {mode : Mode} {ctx : SignatureCtx} {v : View UInt8 ε} {d : Bytes}
    {outcome : Except (ErrorKind ε) (Option HeaderMap)}
    (h : flatStep X mode ctx v = (d, .stop outcome)) : decode X mode ctx v = ⟨d, outcome⟩ := by
  rw [decode]
  split
  · next heq => rw [h] at heq; cases heq; rfl
  · next heq => rw [h] at heq; cases heq

theorem decode_next {X : Externals} {mode : Mode} {ctx ctx' : SignatureCtx} {v v' : View UInt8 ε}
    {d : Bytes} (h : flatStep X mode ctx v = (d, .next ctx' v')) :
    decode X mode ctx v =
      ⟨d ++ (decode X mode ctx' v').data, (decode X mode ctx' v').outcome⟩ := by
  rw [decode]
  split
  · next heq => rw [h] at heq; cases heq
  · next heq => rw [h] at heq; cases heq; rfl

/-- The worker refines the decoder: same bytes, same outcome, for every split of the body. -/
theorem worker_decode (X : Externals) (mode : Mode) (ctx : SignatureCtx) (prev : Bytes)
    (body : Body UInt8 ε) :
    (worker X mode ctx prev body).items.flatten = (decode X mode ctx (view prev body)).data ∧
      (worker X mode ctx prev body).outcome.mapError AwsChunkedStreamError.kind =
        (decode X mode ctx (view prev body)).outcome := by
  induction ctx, prev, body using worker.induct X mode with
  | case1 ctx prev body items outcome h =>
    have hflat := chunkStep_flat X mode ctx prev body
    rw [h] at hflat
    rw [worker_stop h, decode_stop hflat.symm]
    exact ⟨rfl, rfl⟩
  | case2 ctx prev body items ctx' prev' body' h ih =>
    have hflat := chunkStep_flat X mode ctx prev body
    rw [h] at hflat
    rw [worker_next h, decode_next hflat.symm, List.flatten_append, ih.1, ih.2]
    exact ⟨rfl, rfl⟩

end S3s.AwsChunked
