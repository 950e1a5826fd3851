import S3s.AwsChunked.Readers

/-! # Trailing headers

After the zero-size chunk the rest of the body is a block of header lines. The
block is collected up to a limit, parsed, sorted into its canonical form and its
signature is compared with the next link of the chain.
-/
namespace S3s.AwsChunked
open Fragments SigV4

variable {ε : Type}

/-- A header map as the pairs appended to it. -/
abbrev HeaderMap := List (Bytes × Bytes)

/-- The locals of `parse_trailing_headers` that change from line to line. -/
structure TrailerScan where
  entries : List (Bytes × Bytes)
  providedSignature : Option Bytes
  headerCount : Nat

/-- A line without its carriage return. -/
def stripCr (line : Bytes) : Bytes := if line.getLast? = some cr then line.dropLast else line

def trailerSignatureName : Bytes := ascii "x-amz-trailer-signature"

/-- A non-empty line split at its first colon: the lowercased name and the trimmed value. -/
def splitTrailer (line : Bytes) : Option (Bytes × Bytes) :=
  match line.idxOf? 58 with
  | none => none
  | some colon =>
    match Bytes.fromUtf8 (Bytes.lowercase (line.take colon)),
      Bytes.fromUtf8 (Bytes.trimBlank (line.drop (colon + 1))) with
    | some name, some value => some (name, value)
    | _, _ => none

def TrailerScan.add (scan : TrailerScan) (name value : Bytes) : TrailerScan :=
  if name = trailerSignatureName then { scan with providedSignature := some value }
  else { scan with entries := scan.entries ++ [(name, value)] }

/-- One turn of the loop over the lines. -/
def scanTrailerLine (scan : TrailerScan) (line : Bytes) :
    Except (AwsChunkedStreamError ε) TrailerScan :=
  let line := stripCr line
  if line.isEmpty then .ok scan else
  let headerCount := scan.headerCount + 1
  if headerCount > maxTrailerHeaders then
    .error (.tooManyTrailerHeaders headerCount maxTrailerHeaders)
  else
    match splitTrailer line with
    | none => .error .formatError
    | some (name, value) => .ok ({ scan with headerCount }.add name value)

def scanTrailerLines (scan : TrailerScan) :
    List Bytes → Except (AwsChunkedStreamError ε) TrailerScan
  | [] => .ok scan
  | line :: lines =>
    match scanTrailerLine scan line with
    | .error e => .error e
    | .ok scan => scanTrailerLines scan lines

/-- The stable sort by header name. -/
def sortEntries (entries : List (Bytes × Bytes)) : List (Bytes × Bytes) :=
  entries.insertionSort fun a b => Bytes.le a.1 b.1 = true

def trailerLine (entry : Bytes × Bytes) : Bytes := entry.1 ++ ascii ":" ++ entry.2 ++ ascii "\n"

/-- The canonical bytes, entry by entry, within the size limit. -/
def canonicalTrailers (canonical : Bytes) :
    List (Bytes × Bytes) → Except (AwsChunkedStreamError ε) Bytes
  | [] => .ok canonical
  | (n, v) :: entries =>
    let entrySize := n.length + v.length + 2
    if canonical.length + entrySize > maxTrailersSize then
      .error (.trailersTooLarge (canonical.length + entrySize) maxTrailersSize)
    else canonicalTrailers (canonical ++ trailerLine (n, v)) entries

/-- `parse_trailing_headers` -/
def parseTrailingHeaders (buf : Bytes) :
    Except (AwsChunkedStreamError ε) (Bytes × Option Bytes × List (Bytes × Bytes)) :=
  match scanTrailerLines ⟨[], none, 0⟩ (Bytes.splitLf buf) with
  | .error e => .error e
  | .ok scan =>
    let entries := sortEntries scan.entries
    match canonicalTrailers [] entries with
    | .error e => .error e
    | .ok canonical => .ok (canonical, scan.providedSignature, entries)

/-- The loop that reads to the end of the body. -/
def collectTrailers (buf : Bytes) (totalSize : Nat) :
    Body UInt8 ε → Except (AwsChunkedStreamError ε) Bytes
  | [] => .ok buf
  | .error e :: _ => .error (.underlying (.stream e))
  | .ok bytes :: body =>
    let totalSize := totalSize + bytes.length
    if totalSize > maxTrailersSize then .error (.trailersTooLarge totalSize maxTrailersSize)
    else collectTrailers (buf ++ bytes) totalSize body

/-- The trailer block is parsed and its signature compared with the chain. -/
def verifyTrailers (X : Externals) (ctx : SignatureCtx) (unsigned : Bool) (buf : Bytes) :
    Except (AwsChunkedStreamError ε) (List (Bytes × Bytes)) :=
  match parseTrailingHeaders buf with
  | .error e => .error e
  | .ok (canonical, some provided, entries) =>
    match (Bytes.fromUtf8 provided).bind Sha256Sum.fromHex with
    | none => .error .signatureMismatch
    | some provided =>
      if provided ≠ ctx.trailerSignature X.toCrypto canonical then .error .signatureMismatch
      else .ok entries
  | .ok (_, none, entries) => if !unsigned then .error .formatError else .ok entries

/-- `read_and_verify_trailers` -/
def readAndVerifyTrailers (X : Externals) (body : Body UInt8 ε) (prev : Bytes) (ctx : SignatureCtx)
    (unsigned : Bool) : Option (Except (AwsChunkedStreamError ε) (List (Bytes × Bytes))) :=
  let collected : Except (AwsChunkedStreamError ε) Bytes :=
    if prev.isEmpty then collectTrailers [] 0 body
    else if prev.length > maxTrailersSize then .error (.trailersTooLarge prev.length maxTrailersSize)
    else collectTrailers prev prev.length body
  match collected with
  | .error e => some (.error e)
  | .ok buf => if buf.isEmpty || buf == crlf then none else some (verifyTrailers X ctx unsigned buf)

/-- The loop that builds the header map of the worker from the entries. -/
def buildTrailers (X : Externals) : List (Bytes × Bytes) → Option HeaderMap
  | [] => some []
  | (name, value) :: entries =>
    match X.headerName name, X.headerValue value with
    | some hn, some hv => (buildTrailers X entries).map ((hn, hv) :: ·)
    | _, _ => none

/-- What the worker does after the zero-size chunk: it stores the trailers and ends, or fails. -/
def finishWithTrailers (X : Externals) (body : Body UInt8 ε) (prev : Bytes) (ctx : SignatureCtx)
    (unsigned : Bool) : Except (AwsChunkedStreamError ε) (Option HeaderMap) :=
  match readAndVerifyTrailers X body prev ctx unsigned with
  | none => .ok none
  | some (.error e) => .error e
  | some (.ok entries) =>
    match buildTrailers X entries with
    | none => .error .formatError
    | some map => .ok (some map)

/-- The end of the body on the view: the block as a whole, within the limit. -/
def flatTrailers (X : Externals) (v : View UInt8 ε) (ctx : SignatureCtx) (unsigned : Bool) :
    Except (ErrorKind ε) (Option HeaderMap) :=
  if v.content.length > maxTrailersSize then .error .trailersTooLarge else
  v.exhausted
    (if v.content.isEmpty || v.content == crlf then .ok none else
      match (verifyTrailers X ctx unsigned v.content : Except (AwsChunkedStreamError ε) _) with
      | .error e => .error e.kind
      | .ok entries =>
        match buildTrailers X entries with
        | none => .error .formatError
        | some map => .ok (some map))
    fun e => .error (.stream e)

theorem collectTrailers_flat (buf : Bytes) (body : Body UInt8 ε) (hbuf : buf.length ≤ maxTrailersSize) :
    (collectTrailers buf buf.length body).mapError AwsChunkedStreamError.kind =
      if (view buf body).content.length > maxTrailersSize then .error .trailersTooLarge
      else (view buf body).exhausted (.ok (view buf body).content) fun e => .error (.stream e) := by
  induction body generalizing buf with
  | nil =>
    simp [collectTrailers, Except.mapError, view_nil, View.exhausted, Nat.not_lt.mpr hbuf]
  | cons r body ih =>
    cases r with
    | error e =>
      simp [collectTrailers, Except.mapError, view_error, View.exhausted, Nat.not_lt.mpr hbuf,
        AwsChunkedStreamError.kind]
    | ok bytes =>
      rw [collectTrailers, view_ok]
      by_cases hbig : buf.length + bytes.length > maxTrailersSize
      · have hall : (view (buf ++ bytes) body).content.length > maxTrailersSize := by
          simp only [view_content, List.length_append]; omega
        simp only [if_pos hbig, if_pos hall]
        rfl
      · have h := ih (buf ++ bytes) (by rw [List.length_append]; omega)
        rw [List.length_append] at h
        simp only [if_neg hbig]
        exact h

/-- The trailer block does not depend on where the fragments end. -/
theorem finishWithTrailers_flat (X : Externals) (body : Body UInt8 ε) (prev : Bytes)
    (ctx : SignatureCtx) (unsigned : Bool) :
    (finishWithTrailers X body prev ctx unsigned).mapError AwsChunkedStreamError.kind =
      flatTrailers X (view prev body) ctx unsigned := by
  have hcollect : (if prev.isEmpty then collectTrailers [] 0 body
      else if prev.length > maxTrailersSize then
        .error (.trailersTooLarge prev.length maxTrailersSize)
      else collectTrailers prev prev.length body :
        Except (AwsChunkedStreamError ε) Bytes).mapError AwsChunkedStreamError.kind =
      if (view prev body).content.length > maxTrailersSize then .error .trailersTooLarge
      else (view prev body).exhausted (.ok (view prev body).content) fun e => .error (.stream e) := by
    by_cases hbig : prev.length > maxTrailersSize
    · have hne : prev.isEmpty = false := by cases prev <;> simp_all
      have hall : (view prev body).content.length > maxTrailersSize := by
        simp only [view_content, List.length_append]; omega
      simp only [hne, Bool.false_eq_true, if_false, if_pos hbig, if_pos hall]
      rfl
    · have h := collectTrailers_flat prev body (by omega)
      rw [← h, if_neg hbig]
      split
      · next he => rw [List.isEmpty_iff.mp he]; rfl
      · rfl
  unfold finishWithTrailers readAndVerifyTrailers flatTrailers
  simp only
  generalize (if prev.isEmpty then collectTrailers [] 0 body
      else if prev.length > maxTrailersSize then
        .error (.trailersTooLarge prev.length maxTrailersSize)
      else collectTrailers prev prev.length body :
        Except (AwsChunkedStreamError ε) Bytes) = collected at hcollect ⊢
  by_cases hbig : (view prev body).content.length > maxTrailersSize
  · rw [if_pos hbig] at hcollect ⊢
    cases collected with
    | error e => simpa [Except.mapError] using hcollect
    | ok buf => simp [Except.mapError] at hcollect
  · rw [if_neg hbig] at hcollect ⊢
    unfold View.exhausted at hcollect ⊢
    cases hf : (view prev body).fault with
    | some e =>
      rw [hf] at hcollect
      cases collected with
      | error e => simpa [Except.mapError] using hcollect
      | ok buf => simp [Except.mapError] at hcollect
    | none =>
      rw [hf] at hcollect
      cases collected with
      | error e => simp [Except.mapError] at hcollect
      | ok buf =>
        simp only [Except.mapError, Except.ok.injEq] at hcollect
        subst hcollect
        by_cases hnone : ((view prev body).content.isEmpty || (view prev body).content == crlf) = true
        · simp only [if_pos hnone, Except.mapError]
        · simp only [if_neg hnone]
          cases (verifyTrailers X ctx unsigned (view prev body).content :
              Except (AwsChunkedStreamError ε) _) with
          | error e => rfl
          | ok entries =>
            simp only
            cases buildTrailers X entries <;> rfl

end S3s.AwsChunked
