import S3s.AwsChunked.Meta
import S3s.Library.Fragments

/-! # The reading helpers of the aws-chunked worker

Each helper takes the bytes pushed back by the previous one and the fragments
still to come, and returns what it read with the new push-back. `None` is the
end of the stream, as in the source. Every helper is then described on the view
of its input, in which the fragment boundaries are gone.
-/
namespace S3s.AwsChunked
open Fragments

variable {ε : Type}

/-- The metadata line `buf` collected so far is extended by one fragment; the rest of the
fragment is returned once the line is complete. -/
def pushMetaBytes (buf bytes : Bytes) : Except (StdError ε) (Bytes × Option Bytes) :=
  match bytes.idxOf? lf with
  | some idx =>
    let leading := bytes.take (idx + 1)
    if buf.length + leading.length > maxChunkMetaSize then
      .error (.chunkMetaTooLarge (buf.length + leading.length) maxChunkMetaSize)
    else .ok (buf ++ leading, some (bytes.drop (idx + 1)))
  | none =>
    if buf.length + bytes.length > maxChunkMetaSize then
      .error (.chunkMetaTooLarge (buf.length + bytes.length) maxChunkMetaSize)
    else .ok (buf ++ bytes, none)

def readMetaLoop (buf : Bytes) :
    Body UInt8 ε → Option (Except (StdError ε) (Bytes × Bytes × Body UInt8 ε))
  | [] => none
  | .error e :: _ => some (.error (.stream e))
  | .ok bytes :: body =>
    match pushMetaBytes buf bytes with
    | .error e => some (.error e)
    | .ok (buf, some remaining) => some (.ok (buf, remaining, body))
    | .ok (buf, none) => readMetaLoop buf body

/-- `read_meta_bytes`: the line, the bytes after it and the body after them. -/
def readMetaBytes (body : Body UInt8 ε) (prev : Bytes) :
    Option (Except (StdError ε) (Bytes × Bytes × Body UInt8 ε)) :=
  match pushMetaBytes [] prev with
  | .error e => some (.error e)
  | .ok (buf, some remaining) => some (.ok (buf, remaining, body))
  | .ok (buf, none) => readMetaLoop buf body

/-- One byte of the line end after a chunk, fetching fragments while none is at hand. -/
def expectByte (expected : UInt8) :
    Bytes → Body UInt8 ε → Option (Except (AwsChunkedStreamError ε) (Bytes × Body UInt8 ε))
  | x :: remaining, body =>
    if x = expected then some (.ok (remaining, body)) else some (.error .formatError)
  | [], [] => none
  | [], .error e :: _ => some (.error (.underlying (.stream e)))
  | [], .ok bytes :: body => expectByte expected bytes body

/-- `consume_trailing_crlf` -/
def consumeTrailingCrlf (body : Body UInt8 ε) (remaining : Bytes) :
    Option (Except (AwsChunkedStreamError ε) (Bytes × Body UInt8 ε)) :=
  if crlf.isPrefixOf remaining then some (.ok (remaining.drop 2, body)) else
  match expectByte cr remaining body with
  | some (.ok (remaining, body)) => expectByte lf remaining body
  | r => r

/-- One fragment of chunk data: what is still missing, the fragments collected and, once nothing
is missing, the bytes left over. -/
def pushDataBytes (dataSize : Nat) (buffer : List Bytes) (bytes : Bytes) :
    Nat × List Bytes × Option Bytes :=
  if dataSize = 0 then (0, buffer, some bytes)
  else if dataSize ≤ bytes.length then
    (0, buffer ++ [bytes.take dataSize], some (bytes.drop dataSize))
  else (dataSize - bytes.length, buffer ++ [bytes], none)

def readDataLoop (dataSize : Nat) (buffer : List Bytes) :
    Body UInt8 ε → Option (Except (AwsChunkedStreamError ε) (List Bytes × Bytes × Body UInt8 ε))
  | [] => none
  | .error e :: _ => some (.error (.underlying (.stream e)))
  | .ok bytes :: body =>
    match pushDataBytes dataSize buffer bytes with
    | (_, buffer, some remaining) => some (.ok (buffer, remaining, body))
    | (dataSize, buffer, none) => readDataLoop dataSize buffer body

/-- `read_data`: the chunk's data in the fragments it arrived in. -/
def readData (body : Body UInt8 ε) (prev : Bytes) (dataSize : Nat) :
    Option (Except (AwsChunkedStreamError ε) (List Bytes × Bytes × Body UInt8 ε)) :=
  if dataSize = 0 then some (.ok ([], prev, body)) else
  let collected : Option (Except (AwsChunkedStreamError ε) (List Bytes × Bytes × Body UInt8 ε)) :=
    match pushDataBytes dataSize [] prev with
    | (_, buffer, some remaining) => some (.ok (buffer, remaining, body))
    | (dataSize, buffer, none) => readDataLoop dataSize buffer body
  match collected with
  | some (.ok (buffer, remaining, body)) =>
    match consumeTrailingCrlf body remaining with
    | some (.ok (remaining, body)) => some (.ok (buffer, remaining, body))
    | some (.error e) => some (.error e)
    | none => none
  | r => r

/-- The loop of `read_data_streaming`: the fragments yielded and the result. -/
def readDataStreamingLoop (body : Body UInt8 ε) (remaining : Bytes) (dataSize : Nat) :
    List Bytes × Option (Except (AwsChunkedStreamError ε) (Bytes × Body UInt8 ε)) :=
  if dataSize = 0 then ([], consumeTrailingCrlf body remaining)
  else if remaining = [] then
    match body with
    | [] => ([], none)
    | .error e :: _ => ([], some (.error (.underlying (.stream e))))
    | .ok bytes :: body => readDataStreamingLoop body bytes dataSize
  else if dataSize ≤ remaining.length then
    let r := readDataStreamingLoop body (remaining.drop dataSize) 0
    (remaining.take dataSize :: r.1, r.2)
  else
    let r := readDataStreamingLoop body [] (dataSize - remaining.length)
    (remaining :: r.1, r.2)
termination_by (body.length, dataSize)
decreasing_by
  · exact Prod.Lex.left _ _ (by simp)
  · exact Prod.Lex.right _ (by omega)
  · have := List.length_pos_of_ne_nil ‹¬remaining = []›
    exact Prod.Lex.right _ (by omega)

/-- `read_data_streaming` -/
def readDataStreaming (body : Body UInt8 ε) (prev : Bytes) (dataSize : Nat) :
    List Bytes × Option (Except (AwsChunkedStreamError ε) (Bytes × Body UInt8 ε)) :=
  if dataSize = 0 then ([], some (.ok (prev, body)))
  else readDataStreamingLoop body prev dataSize

/-- A result with its error reduced to the kind and its remaining input to the view. -/
def forget {E K β γ : Type} (kind : E → K) (f : β → γ) :
    Option (Except E (β × Bytes × Body UInt8 ε)) → Option (Except K (γ × View UInt8 ε))
  | none => none
  | some (.error e) => some (.error (kind e))
  | some (.ok (b, remaining, body)) => some (.ok (f b, view remaining body))

/-- The same for a reader that returns nothing but the remaining input. -/
def forgetRest : Option (Except (AwsChunkedStreamError ε) (Bytes × Body UInt8 ε)) →
    Option (Except (ErrorKind ε) (View UInt8 ε))
  | none => none
  | some (.error e) => some (.error e.kind)
  | some (.ok (remaining, body)) => some (.ok (view remaining body))

theorem forget_eq_none {E K β γ : Type} {kind : E → K} {f : β → γ}
    {r : Option (Except E (β × Bytes × Body UInt8 ε))} : forget kind f r = none ↔ r = none := by
  rcases r with _ | (e | ⟨b, remaining, body⟩) <;> simp [forget]

theorem forget_eq_error {E K β γ : Type} {kind : E → K} {f : β → γ}
    {r : Option (Except E (β × Bytes × Body UInt8 ε))} {k : K} :
    forget kind f r = some (.error k) ↔ ∃ e, r = some (.error e) ∧ kind e = k := by
  rcases r with _ | (e | ⟨b, remaining, body⟩) <;> simp [forget]

theorem forget_eq_ok {E K β γ : Type} {kind : E → K} {f : β → γ}
    {r : Option (Except E (β × Bytes × Body UInt8 ε))} {c : γ} {v : View UInt8 ε} :
    forget kind f r = some (.ok (c, v)) ↔
      ∃ b remaining body, r = some (.ok (b, remaining, body)) ∧ f b = c ∧ view remaining body = v := by
  rcases r with _ | (e | ⟨b, remaining, body⟩)
  · simp [forget]
  · simp [forget]
  · constructor
    · intro h
      simp only [forget, Option.some.injEq, Except.ok.injEq, Prod.mk.injEq] at h
      exact ⟨b, remaining, body, rfl, h.1, h.2⟩
    · rintro ⟨b', remaining', body', h, rfl, rfl⟩
      cases h
      rfl

/-- `read_meta_bytes` on the view: the line up to the first line feed, within the limit. -/
def flatMeta (v : View UInt8 ε) : Option (Except (ErrorKind ε) (Bytes × View UInt8 ε)) :=
  match v.content.idxOf? lf with
  | some i =>
    if i + 1 > maxChunkMetaSize then some (.error .chunkMetaTooLarge)
    else some (.ok (v.content.take (i + 1), v.drop (i + 1)))
  | none =>
    if v.content.length > maxChunkMetaSize then some (.error .chunkMetaTooLarge)
    else v.exhausted none fun e => some (.error (.stream e))

def flatByte (expected : UInt8) (v : View UInt8 ε) : Option (Except (ErrorKind ε) (View UInt8 ε)) :=
  match v.content with
  | x :: rest =>
    if x = expected then some (.ok ⟨rest, v.fault⟩) else some (.error .formatError)
  | [] => v.exhausted none fun e => some (.error (.stream e))

/-- `consume_trailing_crlf` on the view -/
def flatCrlf (v : View UInt8 ε) : Option (Except (ErrorKind ε) (View UInt8 ε)) :=
  match flatByte cr v with
  | some (.ok v) => flatByte lf v
  | r => r

/-- What `read_data` and `read_data_streaming` leave behind, on the view. -/
def flatSkip (n : Nat) (v : View UInt8 ε) : Option (Except (ErrorKind ε) (View UInt8 ε)) :=
  if n = 0 then some (.ok v)
  else if v.content.length < n then v.exhausted none fun e => some (.error (.stream e))
  else flatCrlf (v.drop n)

theorem idxOf?_append (a : UInt8) (xs ys : Bytes) :
    (xs ++ ys).idxOf? a = (xs.idxOf? a).or ((ys.idxOf? a).map (· + xs.length)) :=
  List.findIdx?_append

theorem idxOf?_lt {a : UInt8} {xs : Bytes} {i : Nat} (h : xs.idxOf? a = some i) : i < xs.length := by
  rw [List.idxOf?_eq_some_iff] at h
  exact h.1

theorem flatMeta_found {v : View UInt8 ε} {i : Nat} (h : v.content.idxOf? lf = some i)
    (hi : i + 1 ≤ maxChunkMetaSize) :
    flatMeta v = some (.ok (v.content.take (i + 1), v.drop (i + 1))) := by
  rw [flatMeta, h]
  exact if_neg (Nat.not_lt.mpr hi)

/-- A long prefix without a line feed decides the metadata limit. -/
theorem flatMeta_tooLarge {v : View UInt8 ε} {pre rest : Bytes} (hv : v.content = pre ++ rest)
    (hpre : pre.idxOf? lf = none) (hlen : maxChunkMetaSize < pre.length) :
    flatMeta v = some (.error .chunkMetaTooLarge) := by
  rw [flatMeta, hv, idxOf?_append, hpre, Option.none_or]
  cases hrest : rest.idxOf? lf with
  | none => exact if_pos (by rw [List.length_append]; omega)
  | some i => exact if_pos (by show maxChunkMetaSize < i + pre.length + 1; omega)

theorem readMetaLoop_flat (buf : Bytes) (body : Body UInt8 ε) (hbuf : buf.idxOf? lf = none)
    (hlen : buf.length ≤ maxChunkMetaSize) :
    forget (fun e => (AwsChunkedStreamError.underlying e).kind) id (readMetaLoop buf body) =
      flatMeta (view buf body) := by
  induction body generalizing buf with
  | nil =>
    rw [view_nil, flatMeta]
    simp [hbuf, readMetaLoop, forget, View.exhausted, Nat.not_lt.mpr hlen]
  | cons r body ih =>
    cases r with
    | error e =>
      rw [view_error, flatMeta]
      simp [hbuf, readMetaLoop, forget, View.exhausted, Nat.not_lt.mpr hlen,
        AwsChunkedStreamError.kind]
    | ok bytes =>
      rw [view_ok, readMetaLoop, pushMetaBytes]
      cases hidx : bytes.idxOf? lf with
      | some i =>
        have hi := idxOf?_lt hidx
        have hcontent : (view (buf ++ bytes) body).content.idxOf? lf = some (i + buf.length) := by
          rw [view_content, idxOf?_append, idxOf?_append, hbuf, hidx]
          rfl
        have htake : (bytes.take (i + 1)).length = i + 1 := by rw [List.length_take]; omega
        simp only [htake]
        by_cases hbig : buf.length + (i + 1) > maxChunkMetaSize
        · rw [if_pos hbig, flatMeta, hcontent]
          simp only
          rw [if_pos (by omega)]
          rfl
        · have hsum : i + buf.length + 1 = buf.length + (i + 1) := by omega
          rw [if_neg hbig, flatMeta_found hcontent (by omega), hsum]
          simp only [forget, id]
          congr 3
          · rw [view_content, List.append_assoc, List.take_length_add_append,
              List.take_append_of_le_length (by omega)]
          · apply View.ext
            · rw [view_content, View.drop_content, view_content, List.append_assoc,
                List.drop_length_add_append, List.drop_append_of_le_length (by omega)]
            · rfl
      | none =>
        have hnone : (buf ++ bytes).idxOf? lf = none := by rw [idxOf?_append, hbuf, hidx]; rfl
        by_cases hbig : buf.length + bytes.length > maxChunkMetaSize
        · simp only [if_pos hbig]
          rw [flatMeta_tooLarge (view_content _ _) hnone (by rw [List.length_append]; omega)]
          rfl
        · simp only [if_neg hbig]
          exact ih (buf ++ bytes) hnone (by rw [List.length_append]; omega)

/-- The metadata line does not depend on where the fragments end. -/
theorem readMetaBytes_flat (body : Body UInt8 ε) (prev : Bytes) :
    forget (fun e => (AwsChunkedStreamError.underlying e).kind) id (readMetaBytes body prev) =
      flatMeta (view prev body) := by
  have hloop : readMetaBytes body prev = readMetaLoop [] (.ok prev :: body) := rfl
  rw [hloop, readMetaLoop_flat [] _ rfl (Nat.zero_le _), view_ok, List.nil_append]

theorem expectByte_flat (expected : UInt8) (remaining : Bytes) (body : Body UInt8 ε) :
    forgetRest (expectByte expected remaining body) = flatByte expected (view remaining body) := by
  induction body generalizing remaining with
  | nil =>
    cases remaining with
    | nil => rfl
    | cons x rest =>
      rw [expectByte, flatByte, view_nil]
      simp only
      split <;> simp [forgetRest, view_nil, AwsChunkedStreamError.kind]
  | cons r body ih =>
    cases remaining with
    | nil =>
      cases r with
      | error e => rfl
      | ok bytes => rw [expectByte, ih, view_ok, List.nil_append]
    | cons x rest =>
      rw [expectByte, flatByte]
      simp only [view_content, List.cons_append]
      split <;> simp [forgetRest, view, AwsChunkedStreamError.kind]

/-- The fast path and the byte-by-byte path agree. -/
theorem consumeTrailingCrlf_flat (body : Body UInt8 ε) (remaining : Bytes) :
    forgetRest (consumeTrailingCrlf body remaining) = flatCrlf (view remaining body) := by
  unfold consumeTrailingCrlf
  split
  · next h =>
    obtain ⟨rest, rfl⟩ := List.isPrefixOf_iff_prefix.mp h
    rfl
  · have hcr := expectByte_flat cr remaining body
    rw [flatCrlf, ← hcr]
    cases h : expectByte cr remaining body with
    | none => rfl
    | some r =>
      cases r with
      | error e => rfl
      | ok p => exact expectByte_flat lf p.1 p.2

theorem readDataLoop_flat (dataSize : Nat) (buffer : List Bytes) (body : Body UInt8 ε)
    (hsize : 0 < dataSize) :
    forget AwsChunkedStreamError.kind List.flatten (readDataLoop dataSize buffer body) =
      if (view [] body).content.length < dataSize then
        (view [] body).exhausted none fun e => some (.error (.stream e))
      else some (.ok (buffer.flatten ++ (view [] body).content.take dataSize,
        (view [] body).drop dataSize)) := by
  induction body generalizing dataSize buffer with
  | nil => simp [readDataLoop, forget, hsize, view_nil, View.exhausted]
  | cons r body ih =>
    cases r with
    | error e =>
      simp [readDataLoop, forget, hsize, view_error, View.exhausted, AwsChunkedStreamError.kind]
    | ok bytes =>
      rw [readDataLoop, pushDataBytes, if_neg (Nat.pos_iff_ne_zero.mp hsize), view_ok,
        List.nil_append]
      by_cases hfit : dataSize ≤ bytes.length
      · rw [if_pos hfit, if_neg (by rw [view_content, List.length_append]; omega)]
        simp only [forget, List.flatten_append, List.flatten_cons, List.flatten_nil, List.append_nil]
        rw [view_content, List.take_append_of_le_length hfit, view_drop_left _ _ _ hfit]
      · have hpast : bytes.length ≤ dataSize := by omega
        rw [if_neg hfit, ih _ _ (by omega)]
        simp only [view_length_past bytes body dataSize hpast, view_drop_past bytes body dataSize hpast,
          view_take_past bytes body dataSize hpast, List.flatten_append, List.flatten_cons,
          List.flatten_nil, List.append_nil, List.append_assoc]
        rfl

/-- `read_data` is `flatSkip` together with the bytes skipped over. -/
theorem readData_flat (body : Body UInt8 ε) (prev : Bytes) (dataSize : Nat) :
    forget AwsChunkedStreamError.kind List.flatten (readData body prev dataSize) =
      match flatSkip dataSize (view prev body) with
      | some (.ok v) => some (.ok ((view prev body).content.take dataSize, v))
      | some (.error e) => some (.error e)
      | none => none := by
  by_cases h0 : dataSize = 0
  · subst h0
    simp [readData, flatSkip, forget]
  · have hcollect := readDataLoop_flat dataSize [] (.ok prev :: body) (Nat.pos_of_ne_zero h0)
    have hv : view [] (.ok prev :: body) = view prev body := view_ok [] prev body
    rw [hv, List.flatten_nil, List.nil_append] at hcollect
    have hread : readData body prev dataSize =
        match readDataLoop dataSize [] (.ok prev :: body) with
        | some (.ok (buffer, remaining, body)) =>
          match consumeTrailingCrlf body remaining with
          | some (.ok (remaining, body)) => some (.ok (buffer, remaining, body))
          | some (.error e) => some (.error e)
          | none => none
        | r => r := by
      rw [readData, if_neg h0]
      rfl
    rw [hread, flatSkip, if_neg h0]
    by_cases hlen : (view prev body).content.length < dataSize
    · rw [if_pos hlen] at hcollect ⊢
      unfold View.exhausted at hcollect ⊢
      cases hf : (view prev body).fault with
      | none =>
        rw [hf] at hcollect
        rw [forget_eq_none.mp hcollect]
        rfl
      | some e =>
        rw [hf] at hcollect
        obtain ⟨e', hl, he⟩ := forget_eq_error.mp hcollect
        rw [hl]
        simp [forget, he]
    · rw [if_neg hlen] at hcollect ⊢
      obtain ⟨buffer, remaining, body', hl, hbuf, hview⟩ := forget_eq_ok.mp hcollect
      rw [hl, ← hview, ← consumeTrailingCrlf_flat]
      cases hcr : consumeTrailingCrlf body' remaining with
      | none => simp [forget, forgetRest, hcr]
      | some r =>
        cases r with
        | error e => simp [forget, forgetRest, hcr]
        | ok q => simp [forget, forgetRest, hcr, hbuf]

/-- The streaming reader yields the same bytes and leaves the same input behind. -/
theorem readDataStreamingLoop_flat (body : Body UInt8 ε) (remaining : Bytes) (dataSize : Nat) :
    (readDataStreamingLoop body remaining dataSize).1.flatten =
        (view remaining body).content.take dataSize ∧
      forgetRest (readDataStreamingLoop body remaining dataSize).2 =
        if (view remaining body).content.length < dataSize then
          (view remaining body).exhausted none fun e => some (.error (.stream e))
        else flatCrlf ((view remaining body).drop dataSize) := by
  induction body, remaining, dataSize using readDataStreamingLoop.induct with
  | case1 body remaining =>
    rw [readDataStreamingLoop.eq_def]
    simpa using consumeTrailingCrlf_flat body remaining
  | case2 dataSize h0 =>
    rw [readDataStreamingLoop.eq_def]
    simp [h0, view_nil, forgetRest, View.exhausted, Nat.pos_of_ne_zero h0]
  | case3 dataSize h0 e body =>
    rw [readDataStreamingLoop.eq_def]
    simp [h0, view_error, forgetRest, View.exhausted, Nat.pos_of_ne_zero h0,
      AwsChunkedStreamError.kind]
  | case4 dataSize h0 bytes body ih =>
    rw [readDataStreamingLoop.eq_def, if_neg h0, if_pos rfl, view_ok, List.nil_append]
    exact ih
  | case5 body remaining dataSize h0 hr hfit ih =>
    rw [readDataStreamingLoop.eq_def, if_neg h0, if_neg hr, if_pos hfit]
    obtain ⟨hitems, hrest⟩ := ih
    constructor
    · simp only [List.flatten_cons, hitems, List.take_zero, List.append_nil]
      rw [view_content, List.take_append_of_le_length hfit]
    · simp only [hrest, Nat.not_lt_zero, if_false, View.drop_zero]
      rw [if_neg (by rw [view_content, List.length_append]; omega), view_drop_left _ _ _ hfit]
  | case6 body remaining dataSize h0 hr hfit ih =>
    rw [readDataStreamingLoop.eq_def, if_neg h0, if_neg hr, if_neg hfit]
    obtain ⟨hitems, hrest⟩ := ih
    have hpast : remaining.length ≤ dataSize := by omega
    constructor
    · rw [view_take_past remaining body dataSize hpast, ← hitems]
      rfl
    · simp only [view_length_past remaining body dataSize hpast,
        view_drop_past remaining body dataSize hpast] at hrest
      exact hrest

theorem readDataStreaming_flat (body : Body UInt8 ε) (prev : Bytes) (dataSize : Nat) :
    (readDataStreaming body prev dataSize).1.flatten = (view prev body).content.take dataSize ∧
      forgetRest (readDataStreaming body prev dataSize).2 = flatSkip dataSize (view prev body) := by
  unfold readDataStreaming flatSkip
  split
  · next h => subst h; simp [forgetRest]
  · exact readDataStreamingLoop_flat body prev dataSize

end S3s.AwsChunked
