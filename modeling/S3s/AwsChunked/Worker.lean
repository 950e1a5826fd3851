import S3s.AwsChunked.Trailers

/-! # The worker of the aws-chunked stream

One turn of the worker's loop reads a metadata line and the data behind it. The
turn is defined on fragments, as the source has it, and on the view; the second
describes the first, so a whole run depends on the body only through its view.
-/
namespace S3s.AwsChunked
open Fragments SigV4

variable {ε : Type}

/-- `check_signature` -/
def checkSignature (X : Externals) (ctx : SignatureCtx) (expectedSignature : Bytes)
    (chunkData : List Bytes) : Option Sha256Sum :=
  match (Bytes.fromUtf8 expectedSignature).bind Sha256Sum.fromHex with
  | none => none
  | some expected =>
    let signature := calculateSignatureWithKey X.toCrypto
      (createChunkStringToSign X.toCrypto ctx.amzDate ctx.region ctx.service ctx.prevSignature.hex
        chunkData) ctx.signingKey
    if expected = signature then some signature else none

/-- The two settings the worker reads on every turn. -/
structure Mode where
  unsigned : Bool
  maxChunkSize : Nat

/-- How a turn of the loop ends: the worker is done, or it goes round again. -/
inductive ChunkStep (ε : Type) where
  | stop (outcome : Except (AwsChunkedStreamError ε) (Option HeaderMap))
  | next (ctx : SignatureCtx) (prev : Bytes) (body : Body UInt8 ε)

/-- After the data of a chunk: trailers behind a zero-size chunk, the next turn otherwise. -/
def afterData (X : Externals) (mode : Mode) (size : Nat) (ctx : SignatureCtx) (prev : Bytes)
    (body : Body UInt8 ε) : ChunkStep ε :=
  if size = 0 then .stop (finishWithTrailers X body prev ctx mode.unsigned) else .next ctx prev body

/-- One turn of the worker's loop: the items it yields and how it ends. -/
def chunkStep (X : Externals) (mode : Mode) (ctx : SignatureCtx) (prev : Bytes)
    (body : Body UInt8 ε) : List Bytes × ChunkStep ε :=
  match readMetaBytes body prev with
  | none => ([], .stop (.ok none))
  | some (.error e) => ([], .stop (.error (.underlying e)))
  | some (.ok (buf, prev, body)) =>
    match parseChunkMeta X buf with
    | none => ([], .stop (.error .formatError))
    | some ⟨size, none⟩ =>
      if !mode.unsigned then ([], .stop (.error .formatError)) else
      match readDataStreaming body prev size with
      | (items, none) => (items, .stop (.error .incomplete))
      | (items, some (.error e)) => (items, .stop (.error e))
      | (items, some (.ok (prev, body))) => (items, afterData X mode size ctx prev body)
    | some ⟨size, some expectedSig⟩ =>
      if size > mode.maxChunkSize then
        ([], .stop (.error (.chunkDataTooLarge size mode.maxChunkSize)))
      else
        match readData body prev size with
        | none => ([], .stop (.error .incomplete))
        | some (.error e) => ([], .stop (.error e))
        | some (.ok (data, prev, body)) =>
          match checkSignature X ctx expectedSig data with
          | none => ([], .stop (.error .signatureMismatch))
          | some signature =>
            (data, afterData X mode size { ctx with prevSignature := signature } prev body)

/-- How a turn ends on the view. -/
inductive FlatStep (ε : Type) where
  | stop (outcome : Except (ErrorKind ε) (Option HeaderMap))
  | next (ctx : SignatureCtx) (v : View UInt8 ε)

def ChunkStep.forget : ChunkStep ε → FlatStep ε
  | .stop outcome => .stop (outcome.mapError AwsChunkedStreamError.kind)
  | .next ctx prev body => .next ctx (view prev body)

def flatAfter (X : Externals) (mode : Mode) (size : Nat) (ctx : SignatureCtx) (v : View UInt8 ε) :
    FlatStep ε :=
  if size = 0 then .stop (flatTrailers X v ctx mode.unsigned) else .next ctx v

/-- One turn on the view: the bytes yielded and how it ends. -/
def flatStep (X : Externals) (mode : Mode) (ctx : SignatureCtx) (v : View UInt8 ε) :
    Bytes × FlatStep ε :=
  match flatMeta v with
  | none => ([], .stop (.ok none))
  | some (.error k) => ([], .stop (.error k))
  | some (.ok (buf, v)) =>
    match parseChunkMeta X buf with
    | none => ([], .stop (.error .formatError))
    | some ⟨size, none⟩ =>
      if !mode.unsigned then ([], .stop (.error .formatError)) else
      (v.content.take size,
        match flatSkip size v with
        | none => .stop (.error .incomplete)
        | some (.error k) => .stop (.error k)
        | some (.ok v) => flatAfter X mode size ctx v)
    | some ⟨size, some sig⟩ =>
      if size > mode.maxChunkSize then ([], .stop (.error .chunkDataTooLarge)) else
      match flatSkip size v with
      | none => ([], .stop (.error .incomplete))
      | some (.error k) => ([], .stop (.error k))
      | some (.ok v') =>
        if sig = (ctx.chunkSignature X.toCrypto (v.content.take size)).hex then
          (v.content.take size,
            flatAfter X mode size (ctx.advance X.toCrypto (v.content.take size)) v')
        else ([], .stop (.error .signatureMismatch))

/-- The check compares the metadata's text with the next link of the chain. -/
theorem checkSignature_eq (X : Externals) (ctx : SignatureCtx) (sig : Bytes) (data : List Bytes)
    (hdata : data.isEmpty = data.flatten.isEmpty) :
    checkSignature X ctx sig data =
      if sig = (ctx.chunkSignature X.toCrypto data.flatten).hex then
        some (ctx.chunkSignature X.toCrypto data.flatten) else none := by
  unfold checkSignature
  rw [Sha256Sum.fromUtf8_bind_fromHex, createChunkStringToSign_flatten _ _ _ _ _ _ hdata]
  change (match Sha256Sum.fromHex sig with
    | none => none
    | some expected => if expected = ctx.chunkSignature X.toCrypto data.flatten then
        some (ctx.chunkSignature X.toCrypto data.flatten) else none) = _
  cases h : Sha256Sum.fromHex sig with
  | none =>
    have hne : sig ≠ (ctx.chunkSignature X.toCrypto data.flatten).hex := by
      rintro rfl
      simp at h
    simp [hne]
  | some expected =>
    rw [Sha256Sum.fromHex_eq_some] at h
    subst h
    simp [Sha256Sum.hex_injective.eq_iff]

/-- The data of a chunk has no fragments exactly when it has no bytes. -/
theorem readData_isEmpty {body body' : Body UInt8 ε} {prev prev' : Bytes} {size : Nat}
    {data : List Bytes} (h : readData body prev size = some (.ok (data, prev', body'))) :
    data.isEmpty = data.flatten.isEmpty := by
  by_cases h0 : size = 0
  · subst h0
    simp only [readData, if_true, Option.some.injEq, Except.ok.injEq, Prod.mk.injEq] at h
    rw [← h.1]
    rfl
  · have hflat := readData_flat body prev size
    rw [h, forget] at hflat
    have hdata : data.flatten = (view prev body).content.take size ∧
        size ≤ (view prev body).content.length := by
      unfold flatSkip at hflat
      rw [if_neg h0] at hflat
      by_cases hlen : (view prev body).content.length < size
      · rw [if_pos hlen] at hflat
        unfold View.exhausted at hflat
        cases hf : (view prev body).fault <;> rw [hf] at hflat <;> simp at hflat
      · rw [if_neg hlen] at hflat
        refine ⟨?_, by omega⟩
        split at hflat <;> simp at hflat
        exact hflat.1
    have hlen : data.flatten.length = size := by rw [hdata.1, List.length_take]; omega
    have hne : data.flatten ≠ [] := by rintro he; rw [he] at hlen; exact h0 hlen.symm
    cases data with
    | nil => simp at hne
    | cons d ds => simpa using hne

theorem afterData_flat (X : Externals) (mode : Mode) (size : Nat) (ctx : SignatureCtx)
    (prev : Bytes) (body : Body UInt8 ε) :
    (afterData X mode size ctx prev body).forget = flatAfter X mode size ctx (view prev body) := by
  unfold afterData flatAfter
  split
  · rw [ChunkStep.forget, finishWithTrailers_flat]
  · rfl

/-- A turn of the loop depends on the body only through its view. -/
theorem chunkStep_flat (X : Externals) (mode : Mode) (ctx : SignatureCtx) (prev : Bytes)
    (body : Body UInt8 ε) :
    ((chunkStep X mode ctx prev body).1.flatten, (chunkStep X mode ctx prev body).2.forget) =
      flatStep X mode ctx (view prev body) := by
  have hmeta := readMetaBytes_flat body prev
  unfold chunkStep flatStep
  rcases hm : readMetaBytes body prev with _ | (e | ⟨buf, prev', body'⟩)
  · rw [hm] at hmeta
    simp only [← hmeta, forget]
    rfl
  · rw [hm] at hmeta
    simp only [← hmeta, forget]
    rfl
  · rw [hm] at hmeta
    simp only [← hmeta, forget, id]
    rcases parseChunkMeta X buf with _ | ⟨size, _ | sig⟩
    · rfl
    · simp only
      split
      · rfl
      · obtain ⟨hitems, hrest⟩ := readDataStreaming_flat body' prev' size
        rcases hs : readDataStreaming body' prev' size with ⟨items, _ | (e | ⟨prev'', body''⟩)⟩
        · rw [hs] at hitems hrest
          simp only [← hrest, forgetRest, ← hitems]
          rfl
        · rw [hs] at hitems hrest
          simp only [← hrest, forgetRest, ← hitems]
          rfl
        · rw [hs] at hitems hrest
          simp only [← hrest, forgetRest, ← hitems, afterData_flat]
    · simp only
      split
      · rfl
      · have hread := readData_flat body' prev' size
        rcases hd : readData body' prev' size with _ | (e | ⟨data, prev'', body''⟩)
        · rw [hd] at hread
          rcases hk : flatSkip size (view prev' body') with _ | (k | v)
          · rfl
          · rw [hk] at hread; simp [forget] at hread
          · rw [hk] at hread; simp [forget] at hread
        · rw [hd] at hread
          rcases hk : flatSkip size (view prev' body') with _ | (k | v)
          · rw [hk] at hread; simp [forget] at hread
          · rw [hk] at hread
            simp only [forget, Option.some.injEq, Except.error.injEq] at hread
            simp only [← hread]
            rfl
          · rw [hk] at hread; simp [forget] at hread
        · rw [hd] at hread
          rcases hk : flatSkip size (view prev' body') with _ | (k | v)
          · rw [hk] at hread; simp [forget] at hread
          · rw [hk] at hread; simp [forget] at hread
          · rw [hk] at hread
            simp only [forget, Option.some.injEq, Except.ok.injEq, Prod.mk.injEq] at hread
            obtain ⟨hdata, hview⟩ := hread
            simp only
            rw [checkSignature_eq X ctx sig data (readData_isEmpty hd), hdata]
            by_cases hsig : sig = (ctx.chunkSignature X.toCrypto
                ((view prev' body').content.take size)).hex
            · rw [if_pos hsig, if_pos hsig]
              simp only [afterData_flat, hdata, hview]
              rfl
            · rw [if_neg hsig, if_neg hsig]
              rfl

end S3s.AwsChunked
