import S3s.Crypto.Digest

/-! # Signature chains

The strings to sign of a chunk and of a trailer block, the signing key, and the
value each link of the chain must carry. The texts follow `methods.rs` piece by
piece.
-/
namespace S3s.SigV4

/-- `AmzDate` -/
structure AmzDate where
  year : Nat
  month : Nat
  day : Nat
  hour : Nat
  minute : Nat
  second : Nat
deriving DecidableEq

namespace AmzDate

/-- `AmzDate::fmt_date` -/
def fmtDate (d : AmzDate) : Bytes :=
  Bytes.decimalPadded 4 d.year ++ Bytes.decimalPadded 2 d.month ++ Bytes.decimalPadded 2 d.day

/-- `AmzDate::fmt_iso8601` -/
def fmtIso8601 (d : AmzDate) : Bytes :=
  d.fmtDate ++ ascii "T" ++ Bytes.decimalPadded 2 d.hour ++ Bytes.decimalPadded 2 d.minute ++
    Bytes.decimalPadded 2 d.second ++ ascii "Z"

end AmzDate

/-- `EMPTY_STRING_SHA256_HASH` -/
def emptyStringSha256Hash : Bytes :=
  ascii "e3b0c44298fc1c149afbf4c8996fb92427ae41e4649b934ca495991b7852b855"

variable (C : Crypto)

/-- `hex_sha256` -/
def hexSha256 (data : Bytes) : Bytes := (C.sha256 data).hex

/-- `hex_sha256_chunk`: the hasher is fed fragment by fragment. -/
def hexSha256Chunk (chunk : List Bytes) : Bytes := (C.sha256 chunk.flatten).hex

/-- The date, scope and previous-signature lines shared by the chained strings to sign. -/
def chainHeader (algorithm : Bytes) (amzDate : AmzDate) (region service prevSignature : Bytes) :
    Bytes :=
  algorithm ++ amzDate.fmtIso8601 ++ ascii "\n" ++
    amzDate.fmtDate ++ ascii "/" ++ region ++ ascii "/" ++ service ++ ascii "/aws4_request\n" ++
    prevSignature ++ ascii "\n"

/-- `create_chunk_string_to_sign` -/
def createChunkStringToSign (amzDate : AmzDate) (region service prevSignature : Bytes)
    (chunkData : List Bytes) : Bytes :=
  chainHeader (ascii "AWS4-HMAC-SHA256-PAYLOAD\n") amzDate region service prevSignature ++
    emptyStringSha256Hash ++ ascii "\n" ++
    (if chunkData.isEmpty then emptyStringSha256Hash else hexSha256Chunk C chunkData)

/-- `create_trailer_string_to_sign` -/
def createTrailerStringToSign (amzDate : AmzDate) (region service prevSignature : Bytes)
    (canonicalTrailers : Bytes) : Bytes :=
  chainHeader (ascii "AWS4-HMAC-SHA256-TRAILER\n") amzDate region service prevSignature ++
    hexSha256 C canonicalTrailers

/-- `derive_signing_key` -/
def deriveSigningKey (secretKey : Bytes) (amzDate : AmzDate) (region service : Bytes) : Sha256Sum :=
  let dateKey := C.hmacSha256 (ascii "AWS4" ++ secretKey) amzDate.fmtDate
  let dateRegionKey := C.hmacSha256 dateKey.bytes region
  let dateRegionServiceKey := C.hmacSha256 dateRegionKey.bytes service
  C.hmacSha256 dateRegionServiceKey.bytes (ascii "aws4_request")

/-- `calculate_signature_with_key` -/
def calculateSignatureWithKey (stringToSign : Bytes) (signingKey : Sha256Sum) : Sha256Sum :=
  C.hmacSha256 signingKey.bytes stringToSign

/-- `SignatureCtx` -/
structure SignatureCtx where
  amzDate : AmzDate
  region : Bytes
  service : Bytes
  signingKey : Sha256Sum
  prevSignature : Sha256Sum

namespace SignatureCtx

/-- The signature a chunk with this data must carry: the next link after `prevSignature`. -/
def chunkSignature (ctx : SignatureCtx) (data : Bytes) : Sha256Sum :=
  calculateSignatureWithKey C
    (createChunkStringToSign C ctx.amzDate ctx.region ctx.service ctx.prevSignature.hex
      (if data.isEmpty then [] else [data])) ctx.signingKey

/-- The signature a trailer block with these canonical lines must carry. -/
def trailerSignature (ctx : SignatureCtx) (canonicalTrailers : Bytes) : Sha256Sum :=
  calculateSignatureWithKey C
    (createTrailerStringToSign C ctx.amzDate ctx.region ctx.service ctx.prevSignature.hex
      canonicalTrailers) ctx.signingKey

/-- The context of the next link. -/
def advance (ctx : SignatureCtx) (data : Bytes) : SignatureCtx :=
  { ctx with prevSignature := ctx.chunkSignature C data }

end SignatureCtx

/-- A chunk's string to sign depends on its fragments only through their concatenation, as long
as a chunk without data has no fragments and one with data has some. -/
theorem createChunkStringToSign_flatten (amzDate : AmzDate) (region service prev : Bytes)
    (chunkData : List Bytes) (h : chunkData.isEmpty = chunkData.flatten.isEmpty) :
    createChunkStringToSign C amzDate region service prev chunkData =
      createChunkStringToSign C amzDate region service prev
        (if chunkData.flatten.isEmpty then [] else [chunkData.flatten]) := by
  cases hd : chunkData.flatten.isEmpty with
  | true => rw [hd, List.isEmpty_iff] at h; simp [h]
  | false => rw [hd] at h; simp [createChunkStringToSign, h, hexSha256Chunk]

end S3s.SigV4
