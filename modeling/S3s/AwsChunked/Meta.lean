import S3s.SigV4.Chain

/-! # Chunk metadata of the aws-chunked format

The metadata line of a chunk is its size in hexadecimal, an optional
`chunk-signature` extension and a line end. The third-party recognisers the
decoder calls are fields of `Externals`; the results about the decoder hold for
every choice of them unless a hypothesis says what is assumed.
-/
namespace S3s.AwsChunked

/-- The functions of other crates the decoder calls: `hex_u32` of nom (its remaining input is
dropped by the caller), `HeaderName::from_str` and `HeaderValue::from_str` of http. -/
structure Externals extends Crypto where
  hexU32 : Bytes → Option UInt32
  headerName : Bytes → Option Bytes
  headerValue : Bytes → Option Bytes

/-- An error behind `StdError`: one of the body stream, or the metadata limit, which
`read_meta_bytes` boxes. -/
inductive StdError (ε : Type) where
  | stream (e : ε)
  | chunkMetaTooLarge (size limit : Nat)
deriving DecidableEq

/-- `AwsChunkedStreamError` -/
inductive AwsChunkedStreamError (ε : Type) where
  | underlying (source : StdError ε)
  | signatureMismatch
  | formatError
  | incomplete
  | lengthMismatch
  | chunkDataTooLarge (size limit : Nat)
  | trailersTooLarge (size limit : Nat)
  | tooManyTrailerHeaders (count limit : Nat)
deriving DecidableEq

/-- The kind of an error: its variant, with the source of `Underlying`, without the sizes. -/
inductive ErrorKind (ε : Type) where
  | stream (e : ε)
  | chunkMetaTooLarge
  | signatureMismatch
  | formatError
  | incomplete
  | lengthMismatch
  | chunkDataTooLarge
  | trailersTooLarge
  | tooManyTrailerHeaders
deriving DecidableEq

namespace AwsChunkedStreamError

def kind {ε : Type} : AwsChunkedStreamError ε → ErrorKind ε
  | .underlying (.stream e) => .stream e
  | .underlying (.chunkMetaTooLarge _ _) => .chunkMetaTooLarge
  | .signatureMismatch => .signatureMismatch
  | .formatError => .formatError
  | .incomplete => .incomplete
  | .lengthMismatch => .lengthMismatch
  | .chunkDataTooLarge _ _ => .chunkDataTooLarge
  | .trailersTooLarge _ _ => .trailersTooLarge
  | .tooManyTrailerHeaders _ _ => .tooManyTrailerHeaders

end AwsChunkedStreamError

/-- `MAX_CHUNK_META_SIZE` -/
def maxChunkMetaSize : Nat := 1024

/-- `MAX_TRAILERS_SIZE` -/
def maxTrailersSize : Nat := 16 * 1024

/-- `MAX_TRAILER_HEADERS` -/
def maxTrailerHeaders : Nat := 100

/-- `ChunkMeta` -/
structure ChunkMeta where
  size : Nat
  signature : Option Bytes
deriving DecidableEq

/-- The end of the size token: a semicolon or a carriage return. -/
def endsSize (c : UInt8) : Bool := c == 59 || c == cr

/-- The signature extension, when it is all that is left of the line. -/
def parseSignatureExtension (s : Bytes) : Option Bytes :=
  let key := ascii ";chunk-signature="
  if key.isPrefixOf s then
    let sig := (s.drop key.length).take 64
    if sig.length = 64 ∧ s.drop (key.length + 64) = crlf then some sig else none
  else none

/-- `parse_chunk_meta` -/
def parseChunkMeta (X : Externals) (input : Bytes) : Option ChunkMeta :=
  let token := input.takeWhile fun c => !endsSize c
  let s := input.dropWhile fun c => !endsSize c
  if token.isEmpty then none else
  match X.hexU32 token with
  | none => none
  | some size =>
    match parseSignatureExtension s with
    | some sig => some ⟨size.toNat, some sig⟩
    | none => if s = crlf then some ⟨size.toNat, none⟩ else none

/-- A metadata line with a signature extension. -/
def signedMeta (size signature : Bytes) : Bytes :=
  size ++ ascii ";chunk-signature=" ++ signature ++ crlf

/-- A metadata line without one. -/
def unsignedMeta (size : Bytes) : Bytes := size ++ crlf

theorem parseSignatureExtension_signed (sig : Bytes) (h : sig.length = 64) :
    parseSignatureExtension (ascii ";chunk-signature=" ++ sig ++ crlf) = some sig := by
  have hkey : (ascii ";chunk-signature=").length = 17 := by decide
  simp only [parseSignatureExtension, hkey]
  rw [if_pos (by simp [List.isPrefixOf_iff_prefix, List.append_assoc])]
  have hdrop : (ascii ";chunk-signature=" ++ sig ++ crlf).drop 17 = sig ++ crlf := by
    rw [List.append_assoc]
    exact List.drop_left' hkey
  have hrest : (ascii ";chunk-signature=" ++ sig ++ crlf).drop (17 + 64) = crlf := by
    rw [← List.drop_drop, hdrop]
    exact List.drop_left' h
  rw [hdrop, hrest, List.take_left' h]
  simp [h]

theorem parseSignatureExtension_crlf : parseSignatureExtension crlf = none := by decide

private theorem span_size (size rest : Bytes) (c : UInt8) (hsize : ∀ b ∈ size, endsSize b = false)
    (hc : endsSize c = true) :
    (size ++ c :: rest).takeWhile (fun c => !endsSize c) = size ∧
      (size ++ c :: rest).dropWhile (fun c => !endsSize c) = c :: rest := by
  have hs : ∀ b ∈ size, (!endsSize b) = true := fun b hb => by simp [hsize b hb]
  rw [List.takeWhile_append_of_pos hs, List.dropWhile_append_of_pos hs]
  simp [hc]

/-- A well-formed signed line is read back as its size and its signature. -/
theorem parseChunkMeta_signed (X : Externals) (size sig : Bytes) (n : UInt32) (hne : size ≠ [])
    (hsize : ∀ b ∈ size, endsSize b = false) (hhex : X.hexU32 size = some n)
    (hsig : sig.length = 64) :
    parseChunkMeta X (signedMeta size sig) = some ⟨n.toNat, some sig⟩ := by
  have hcons : ascii ";chunk-signature=" ++ sig ++ crlf =
      59 :: (ascii "chunk-signature=" ++ sig ++ crlf) := rfl
  have hline : signedMeta size sig = size ++ 59 :: (ascii "chunk-signature=" ++ sig ++ crlf) := by
    rw [← hcons, signedMeta, List.append_assoc, List.append_assoc, List.append_assoc]
  obtain ⟨htake, hdrop⟩ := span_size size (ascii "chunk-signature=" ++ sig ++ crlf) 59 hsize rfl
  simp only [parseChunkMeta, hline, htake, hdrop, hhex]
  rw [← hcons, parseSignatureExtension_signed sig hsig]
  simp [hne]

theorem parseChunkMeta_unsigned (X : Externals) (size : Bytes) (n : UInt32) (hne : size ≠ [])
    (hsize : ∀ b ∈ size, endsSize b = false) (hhex : X.hexU32 size = some n) :
    parseChunkMeta X (unsignedMeta size) = some ⟨n.toNat, none⟩ := by
  obtain ⟨htake, hdrop⟩ := span_size size [lf] cr hsize rfl
  have hline : unsignedMeta size = size ++ cr :: [lf] := rfl
  simp only [parseChunkMeta, hline, htake, hdrop, hhex]
  rw [show cr :: [lf] = crlf from rfl, parseSignatureExtension_crlf]
  simp [hne]

end S3s.AwsChunked
