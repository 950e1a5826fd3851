import S3s.AwsChunked.Stream

/-! # The chunks of a body and the chain of their signatures

`bodyChunks` reads the chunks off a body by the format alone, without limits and
without signatures. A signed run delivers a prefix of them along which every
signature is the next link of the chain, and `decode_signed` says how it ends.
-/
namespace S3s.AwsChunked
open Fragments SigV4

variable {ε : Type}

/-- A chunk as it stands in the body: the text of its signature, if any, and its data. -/
structure Chunk where
  signature : Option Bytes
  data : Bytes
deriving DecidableEq

/-- The chunk at the front of a body and what follows it. A zero-size chunk ends with its metadata
line; behind the data of any other chunk stands a line end. -/
def nextChunk (X : Externals) (content : Bytes) : Option (Chunk × Bytes) :=
  match content.idxOf? lf with
  | none => none
  | some i =>
    match parseChunkMeta X (content.take (i + 1)) with
    | none => none
    | some m =>
      let rest := content.drop (i + 1)
      if m.size = 0 then some (⟨m.signature, []⟩, rest)
      else if m.size ≤ rest.length ∧ crlf <+: rest.drop m.size then
        some (⟨m.signature, rest.take m.size⟩, rest.drop (m.size + 2))
      else none

theorem nextChunk_length {X : Externals} {content rest : Bytes} {c : Chunk}
    (h : nextChunk X content = some (c, rest)) : rest.length < content.length := by
  unfold nextChunk at h
  split at h
  · cases h
  · next i hi =>
    have hlt := idxOf?_lt hi
    split at h
    · cases h
    · simp only at h
      split at h
      · cases h
        rw [List.length_drop]; omega
      · split at h
        · cases h
          rw [List.length_drop, List.length_drop]; omega
        · cases h

/-- The chunks of a body, up to and including the first zero-size chunk. -/
def bodyChunks (X : Externals) (content : Bytes) : List Chunk :=
  match _ : nextChunk X content with
  | none => []
  | some (c, rest) => if c.data = [] then [c] else c :: bodyChunks X rest
termination_by content.length
decreasing_by exact nextChunk_length ‹_›

theorem bodyChunks_cons {X : Externals} {content rest : Bytes} {c : Chunk}
    (h : nextChunk X content = some (c, rest)) (hc : c.data ≠ []) :
    bodyChunks X content = c :: bodyChunks X rest := by
  rw [bodyChunks]
  split
  · next heq => rw [h] at heq; cases heq
  · next heq => rw [h] at heq; cases heq; rw [if_neg hc]

/-- The metadata line at the front of a body is within the limit. -/
def LineFits (content : Bytes) : Prop :=
  ∃ i, content.idxOf? lf = some i ∧ i + 1 ≤ maxChunkMetaSize

/-- A chunk a signed run accepts in the context `ctx`: it fits the limits and its signature is the
next link of the chain. -/
structure Accepted (X : Externals) (maxChunkSize : Nat) (ctx : SignatureCtx) (content : Bytes)
    (c : Chunk) (rest : Bytes) : Prop where
  next : nextChunk X content = some (c, rest)
  line : LineFits content
  size : c.data.length ≤ maxChunkSize
  signed : c.signature = some (ctx.chunkSignature X.toCrypto c.data).hex

/-- A body starts with non-empty chunks a signed run accepts, one after the other. -/
inductive Verified (X : Externals) (maxChunkSize : Nat) :
    SignatureCtx → Bytes → List Chunk → SignatureCtx → Bytes → Prop where
  | nil (ctx : SignatureCtx) (content : Bytes) : Verified X maxChunkSize ctx content [] ctx content
  | cons {ctx ctx' : SignatureCtx} {content rest tail : Bytes} {c : Chunk} {cs : List Chunk}
    (accepted : Accepted X maxChunkSize ctx content c rest) (nonempty : c.data ≠ [])
    (more : Verified X maxChunkSize (ctx.advance X.toCrypto c.data) rest cs ctx' tail) :
    Verified X maxChunkSize ctx content (c :: cs) ctx' tail

/-- Every signature is the chain value computed from the one before it and the chunk's data. -/
def Chained (X : Externals) : SignatureCtx → List Chunk → Prop
  | _, [] => True
  | ctx, c :: cs =>
    c.signature = some (ctx.chunkSignature X.toCrypto c.data).hex ∧
      Chained X (ctx.advance X.toCrypto c.data) cs

def dataOf (cs : List Chunk) : Bytes := (cs.map Chunk.data).flatten

@[simp] theorem dataOf_nil : dataOf [] = [] := rfl

@[simp] theorem dataOf_cons (c : Chunk) (cs : List Chunk) : dataOf (c :: cs) = c.data ++ dataOf cs :=
  rfl

namespace Verified

variable {X : Externals} {maxChunkSize : Nat} {ctx ctx' ctx₁ ctx₂ : SignatureCtx}
  {content tail tail₁ tail₂ : Bytes} {cs cs₁ cs₂ : List Chunk}

theorem isPrefix_bodyChunks (h : Verified X maxChunkSize ctx content cs ctx' tail) :
    cs <+: bodyChunks X content := by
  induction h with
  | nil => exact List.nil_prefix
  | cons accepted nonempty _ ih =>
    rw [bodyChunks_cons accepted.next nonempty]
    exact List.prefix_cons_inj _ |>.mpr ih

theorem chained (h : Verified X maxChunkSize ctx content cs ctx' tail) : Chained X ctx cs := by
  induction h with
  | nil => trivial
  | cons accepted _ _ ih => exact ⟨accepted.signed, ih⟩

/-- Of two readings of one body, one goes on where the other stopped. -/
theorem comparable (h₁ : Verified X maxChunkSize ctx content cs₁ ctx₁ tail₁)
    (h₂ : Verified X maxChunkSize ctx content cs₂ ctx₂ tail₂) :
    (∃ cs, Verified X maxChunkSize ctx₁ tail₁ cs ctx₂ tail₂) ∨
      (∃ cs, Verified X maxChunkSize ctx₂ tail₂ cs ctx₁ tail₁) := by
  induction h₁ generalizing cs₂ with
  | nil ctx content => exact .inl ⟨cs₂, h₂⟩
  | cons accepted nonempty more ih =>
    cases h₂ with
    | nil => exact .inr ⟨_, .cons accepted nonempty more⟩
    | cons accepted₂ nonempty₂ more₂ =>
      have heq := accepted.next.symm.trans accepted₂.next
      simp only [Option.some.injEq, Prod.mk.injEq] at heq
      obtain ⟨rfl, rfl⟩ := heq
      exact ih more₂

end Verified

theorem flatMeta_ok_idx {v w : View UInt8 ε} {buf : Bytes} (h : flatMeta v = some (.ok (buf, w))) :
    ∃ i, v.content.idxOf? lf = some i ∧ i + 1 ≤ maxChunkMetaSize ∧
      buf = v.content.take (i + 1) ∧ w = v.drop (i + 1) := by
  unfold flatMeta at h
  split at h
  · next i hi =>
    split at h
    · cases h
    · cases h
      exact ⟨i, hi, by omega, rfl, rfl⟩
  · split at h
    · cases h
    · unfold View.exhausted at h
      split at h <;> simp at h

theorem flatMeta_eq_none {v : View UInt8 ε} :
    flatMeta v = none ↔
      lf ∉ v.content ∧ v.content.length ≤ maxChunkMetaSize ∧ v.fault = none := by
  unfold flatMeta
  cases hi : v.content.idxOf? lf with
  | some i =>
    have hmem : lf ∈ v.content := by
      by_contra hno
      rw [List.idxOf?_eq_none_iff.mpr hno] at hi
      cases hi
    simp only [hmem, not_true_eq_false, false_and, iff_false]
    split <;> simp
  | none =>
    have hno : lf ∉ v.content := List.idxOf?_eq_none_iff.mp hi
    simp only [hno, not_false_eq_true, true_and]
    split
    · next hbig => simp; omega
    · next hbig =>
      unfold View.exhausted
      cases v.fault <;> simp; omega

/-- What a turn reads on the view is the chunk at the front of the content. -/
theorem nextChunk_of_flat {X : Externals} {v w v' : View UInt8 ε} {buf : Bytes} {m : ChunkMeta}
    (hmeta : flatMeta v = some (.ok (buf, w))) (hparse : parseChunkMeta X buf = some m)
    (hskip : flatSkip m.size w = some (.ok v')) :
    nextChunk X v.content = some (⟨m.signature, w.content.take m.size⟩, v'.content) ∧
      LineFits v.content ∧ v'.fault = v.fault ∧ (w.content.take m.size).length = m.size := by
  obtain ⟨i, hi, hsize, rfl, rfl⟩ := flatMeta_ok_idx hmeta
  have hline : LineFits v.content := ⟨i, hi, hsize⟩
  simp only [nextChunk, hi, hparse]
  rcases flatSkip_eq_ok.mp hskip with ⟨h0, rfl⟩ | ⟨hpos, hlen, hcontent, hfault⟩
  · rw [if_pos h0]
    simp [h0, hline]
  · have hne : m.size ≠ 0 := by omega
    rw [View.drop_content] at hlen hcontent
    have hdrop : (v.content.drop (i + 1)).drop m.size = crlf ++ v'.content := by
      have := congrArg (List.drop m.size) hcontent
      rwa [List.drop_left' (by rw [List.length_take]; omega)] at this
    have hrest : (v.content.drop (i + 1)).drop (m.size + 2) = v'.content := by
      rw [← List.drop_drop, hdrop]
      rfl
    rw [if_neg hne, if_pos ⟨hlen, hdrop ▸ List.prefix_append _ _⟩, hrest]
    refine ⟨rfl, hline, hfault, ?_⟩
    rw [View.drop_content, List.length_take]; omega

/-- The chunk at the front of the content is what a turn reads on the view. -/
theorem flat_of_nextChunk {X : Externals} {v : View UInt8 ε} {c : Chunk} {rest : Bytes}
    (hnext : nextChunk X v.content = some (c, rest)) (hline : LineFits v.content) :
    ∃ buf w, flatMeta v = some (.ok (buf, w)) ∧
      parseChunkMeta X buf = some ⟨c.data.length, c.signature⟩ ∧
      flatSkip c.data.length w = some (.ok ⟨rest, v.fault⟩) ∧
      w.content.take c.data.length = c.data := by
  obtain ⟨i, hi, hsize⟩ := hline
  refine ⟨_, _, flatMeta_found hi hsize, ?_⟩
  simp only [nextChunk, hi] at hnext
  split at hnext
  · cases hnext
  · next m hm =>
    split at hnext
    · next h0 =>
      cases hnext
      refine ⟨?_, flatSkip_eq_ok.mpr (.inl ⟨rfl, rfl⟩), rfl⟩
      rw [hm, List.length_nil, ← h0]
    · next h0 =>
      split at hnext
      · next hfit =>
        cases hnext
        have hlen : ((v.content.drop (i + 1)).take m.size).length = m.size := by
          rw [List.length_take]; omega
        refine ⟨by rw [hm, hlen], flatSkip_eq_ok.mpr (.inr ⟨?_, ?_, ?_, rfl⟩), by rw [hlen]; rfl⟩
        · rw [hlen]; omega
        · rw [hlen]; exact hfit.1
        · obtain ⟨t, ht⟩ := hfit.2
          have hrest : (v.content.drop (i + 1)).drop (m.size + 2) = t := by
            rw [← List.drop_drop, ← ht]
            rfl
          rw [hlen, View.drop_content, hrest, ht, List.take_append_drop]
      · cases hnext

/-- An accepted chunk is delivered, and the chain moves on. -/
theorem flatStep_accepted {X : Externals} (mode : Mode) {ctx : SignatureCtx} {v : View UInt8 ε}
    {c : Chunk} {rest : Bytes} (h : Accepted X mode.maxChunkSize ctx v.content c rest) :
    flatStep X mode ctx v = (c.data,
      flatAfter X mode c.data.length (ctx.advance X.toCrypto c.data) ⟨rest, v.fault⟩) := by
  obtain ⟨buf, w, hmeta, hparse, hskip, htake⟩ := flat_of_nextChunk h.next h.line
  simp only [flatStep, hmeta, hparse, h.signed, hskip, htake]
  rw [if_neg (Nat.not_lt.mpr h.size), if_pos trivial]

theorem flatStep_eof {X : Externals} {mode : Mode} {ctx : SignatureCtx} {v : View UInt8 ε}
    (hlf : lf ∉ v.content) (hlen : v.content.length ≤ maxChunkMetaSize) (hf : v.fault = none) :
    flatStep X mode ctx v = ([], .stop (.ok none)) := by
  simp [flatStep, flatMeta_eq_none.mpr ⟨hlf, hlen, hf⟩]

/-- Everything one turn can do in signed mode. -/
theorem flatStep_signed_cases (X : Externals) (mode : Mode) (hmode : mode.unsigned = false)
    (ctx : SignatureCtx) (v : View UInt8 ε) :
    (∃ c rest, Accepted X mode.maxChunkSize ctx v.content c rest) ∨
      (lf ∉ v.content ∧ v.content.length ≤ maxChunkMetaSize ∧ v.fault = none) ∨
      ∃ k, flatStep X mode ctx v = ([], .stop (.error k)) := by
  rcases hmeta : flatMeta v with _ | (k | ⟨buf, w⟩)
  · exact .inr (.inl (flatMeta_eq_none.mp hmeta))
  · exact .inr (.inr ⟨k, by simp [flatStep, hmeta]⟩)
  · rcases hparse : parseChunkMeta X buf with _ | ⟨size, _ | sig⟩
    · exact .inr (.inr ⟨.formatError, by simp [flatStep, hmeta, hparse]⟩)
    · exact .inr (.inr ⟨.formatError, by simp [flatStep, hmeta, hparse, hmode]⟩)
    · by_cases hbig : size > mode.maxChunkSize
      · exact .inr (.inr ⟨.chunkDataTooLarge, by simp [flatStep, hmeta, hparse, hbig]⟩)
      · rcases hskip : flatSkip size w with _ | (k | v')
        · exact .inr (.inr ⟨.incomplete, by simp [flatStep, hmeta, hparse, hbig, hskip]⟩)
        · exact .inr (.inr ⟨k, by simp [flatStep, hmeta, hparse, hbig, hskip]⟩)
        · by_cases hsig : sig = (ctx.chunkSignature X.toCrypto (w.content.take size)).hex
          · obtain ⟨hnext, hline, -, hlen⟩ := nextChunk_of_flat hmeta hparse hskip
            exact .inl ⟨_, _, hnext, hline, by rw [hlen]; exact Nat.not_lt.mp hbig, by rw [hsig]⟩
          · exact .inr (.inr ⟨.signatureMismatch,
              by simp [flatStep, hmeta, hparse, hbig, hskip, hsig]⟩)

/-- How a signed run ends after the chunks it delivered. -/
inductive SignedEnd (X : Externals) (maxChunkSize : Nat) (ctx : SignatureCtx) (v : View UInt8 ε) :
    Except (ErrorKind ε) (Option HeaderMap) → Prop where
  /-- The body stops where a metadata line would start, or within one. -/
  | eof (nolf : lf ∉ v.content) (short : v.content.length ≤ maxChunkMetaSize)
    (complete : v.fault = none) : SignedEnd X maxChunkSize ctx v (.ok none)
  /-- A zero-size chunk, and the trailers behind it. -/
  | terminal {c : Chunk} {rest : Bytes} (accepted : Accepted X maxChunkSize ctx v.content c rest)
    (empty : c.data = []) :
    SignedEnd X maxChunkSize ctx v
      (flatTrailers X ⟨rest, v.fault⟩ (ctx.advance X.toCrypto []) false)
  | failed (k : ErrorKind ε) : SignedEnd X maxChunkSize ctx v (.error k)

/-- The run lemma of signed mode: the data of the chunks accepted, and then an end. -/
theorem decode_signed (X : Externals) (mode : Mode) (hmode : mode.unsigned = false)
    (ctx : SignatureCtx) (v : View UInt8 ε) :
    ∃ cs ctx' tail, Verified X mode.maxChunkSize ctx v.content cs ctx' tail ∧
      (decode X mode ctx v).data = dataOf cs ∧
      SignedEnd X mode.maxChunkSize ctx' ⟨tail, v.fault⟩ (decode X mode ctx v).outcome := by
  induction hn : v.content.length using Nat.strongRecOn generalizing ctx v with
  | ind n ih =>
    rcases flatStep_signed_cases X mode hmode ctx v with ⟨c, rest, hacc⟩ | ⟨hlf, hlen, hf⟩ | ⟨k, hk⟩
    · have hstep := flatStep_accepted mode hacc
      by_cases hempty : c.data = []
      · have hstop : flatStep X mode ctx v = (c.data,
            .stop (flatTrailers X ⟨rest, v.fault⟩ (ctx.advance X.toCrypto []) mode.unsigned)) := by
          rw [hstep, hempty]
          rfl
        rw [decode_stop hstop, hmode]
        exact ⟨[], ctx, v.content, .nil _ _, hempty, .terminal hacc hempty⟩
      · have hnext : flatStep X mode ctx v = (c.data,
            .next (ctx.advance X.toCrypto c.data) ⟨rest, v.fault⟩) := by
          rw [hstep, flatAfter, if_neg (by simpa using hempty)]
        have hlt : rest.length < n := hn ▸ nextChunk_length hacc.next
        obtain ⟨cs, ctx', tail, hver, hdata, hend⟩ :=
          ih rest.length hlt (ctx.advance X.toCrypto c.data) ⟨rest, v.fault⟩ rfl
        rw [decode_next hnext]
        exact ⟨c :: cs, ctx', tail, .cons hacc hempty hver, by rw [hdata]; rfl, hend⟩
    · rw [decode_stop (flatStep_eof hlf hlen hf)]
      exact ⟨[], ctx, v.content, .nil _ _, rfl, .eof hlf hlen hf⟩
    · rw [decode_stop hk]
      exact ⟨[], ctx, v.content, .nil _ _, rfl, .failed k⟩

/-- Chunks that are accepted are delivered, and the run goes on behind them. -/
theorem decode_verified {X : Externals} (mode : Mode) {ctx ctx' : SignatureCtx}
    {content tail : Bytes} {cs : List Chunk} (fault : Option ε)
    (h : Verified X mode.maxChunkSize ctx content cs ctx' tail) :
    decode X mode ctx ⟨content, fault⟩ =
      ⟨dataOf cs ++ (decode X mode ctx' ⟨tail, fault⟩).data,
        (decode X mode ctx' ⟨tail, fault⟩).outcome⟩ := by
  induction h with
  | nil ctx content => rfl
  | @cons ctx ctx' content rest tail c cs accepted nonempty more ih =>
    have hnext : flatStep X mode ctx ⟨content, fault⟩ = (c.data,
        .next (ctx.advance X.toCrypto c.data) ⟨rest, fault⟩) := by
      rw [flatStep_accepted mode (v := ⟨content, fault⟩) accepted, flatAfter,
        if_neg (by simpa using nonempty)]
    rw [decode_next hnext, ih, dataOf_cons, List.append_assoc]

end S3s.AwsChunked
