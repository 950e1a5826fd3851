import S3s.SigV4.Chain

/-! # Canonical requests

The text a request is reduced to before it is signed: method, path, query,
headers, names of the signed headers, and the hash of the payload or what stands
for it. Header values are trimmed and their white space is collapsed.
-/
namespace S3s.SigV4

/-- The characters of a UTF-8 text, each as its bytes. -/
def utf8Chars : Bytes → List Bytes
  | [] => []
  | b :: s =>
    match utf8Chars s with
    | (c :: char) :: chars =>
      if Bytes.isContinuation c then (b :: c :: char) :: chars else [b] :: (c :: char) :: chars
    | chars => [b] :: chars

/-- `char::is_whitespace`: the property White_Space of Unicode. -/
def isWhitespaceChar (char : Bytes) : Bool :=
  match char with
  | [a] => (9 ≤ a && a ≤ 13) || a == 32
  | [0xC2, b] => b == 0x85 || b == 0xA0
  | [0xE1, 0x9A, 0x80] => true
  | [0xE2, 0x80, c] => (0x80 ≤ c && c ≤ 0x8A) || c == 0xA8 || c == 0xA9 || c == 0xAF
  | [0xE2, 0x81, 0x9F] => true
  | [0xE3, 0x80, 0x80] => true
  | _ => false

/-- `str::trim` on characters. -/
def trimChars (chars : List Bytes) : List Bytes :=
  (chars.dropWhile isWhitespaceChar).rdropWhile isWhitespaceChar

/-- `normalize_header_value` -/
def normalizeHeaderValue (value : Bytes) : Bytes :=
  let trimmed := trimChars (utf8Chars value)
  if !trimmed.any isWhitespaceChar then trimmed.flatten
  else
    let words := (trimmed.splitOnP isWhitespaceChar).filter fun word => !word.isEmpty
    [32].intercalate (words.map List.flatten)

/-- Uppercase hexadecimal digit of a value below sixteen. -/
def upperHexDigit (n : UInt8) : UInt8 := if n < 10 then 48 + n else 55 + n

def isUnreserved (b : UInt8) : Bool :=
  (65 ≤ b && b ≤ 90) || (97 ≤ b && b ≤ 122) || Bytes.isDigit b || b == 95 || b == 45 || b == 126 ||
    b == 46

/-- `uri_encode` -/
def uriEncode (input : Bytes) (encodeSlash : Bool) : Bytes :=
  input.flatMap fun b =>
    if isUnreserved b then [b]
    else if b == 47 then (if encodeSlash then ascii "%2F" else [b])
    else [37, upperHexDigit (b / 16), upperHexDigit (b % 16)]

/-- `is_skipped_header` -/
def isSkippedHeader (header : Bytes) : Bool := header == ascii "authorization"

/-- `Payload` -/
inductive Payload where
  | unsigned
  | singleChunk (checksum : Bytes)
  | multipleChunks
  | multipleChunksWithTrailer
  | unsignedMultipleChunksWithTrailer

/-- The text that stands for the payload. -/
def Payload.hashed : Payload → Bytes
  | .unsigned => ascii "UNSIGNED-PAYLOAD"
  | .singleChunk checksum => checksum
  | .multipleChunks => ascii "STREAMING-AWS4-HMAC-SHA256-PAYLOAD"
  | .multipleChunksWithTrailer => ascii "STREAMING-AWS4-HMAC-SHA256-PAYLOAD-TRAILER"
  | .unsignedMultipleChunksWithTrailer => ascii "STREAMING-UNSIGNED-PAYLOAD-TRAILER"

private theorem length_dropWhile_name (name : Bytes) (rest : List (Bytes × Bytes)) :
    (rest.dropWhile fun h => h.1 == name).length < rest.length + 1 :=
  Nat.lt_succ_of_le (List.dropWhile_suffix _).length_le

/-- `push_canonical_headers`: adjacent headers of one name share a line. -/
def pushCanonicalHeaders : List (Bytes × Bytes) → Bytes
  | [] => []
  | (name, value) :: rest =>
    if isSkippedHeader name then pushCanonicalHeaders rest
    else
      name ++ ascii ":" ++ normalizeHeaderValue value ++
        ((rest.takeWhile fun h => h.1 == name).flatMap fun h =>
          ascii "," ++ normalizeHeaderValue h.2) ++
        ascii "\n" ++ pushCanonicalHeaders (rest.dropWhile fun h => h.1 == name)
termination_by headers => headers.length
decreasing_by
  · simp
  · exact length_dropWhile_name name rest

/-- The names written by `push_signed_headers`, each once for adjacent headers. -/
def signedHeaderNames : List (Bytes × Bytes) → List Bytes
  | [] => []
  | (name, _) :: rest =>
    if isSkippedHeader name then signedHeaderNames rest
    else name :: signedHeaderNames (rest.dropWhile fun h => h.1 == name)
termination_by headers => headers.length
decreasing_by
  · simp
  · exact length_dropWhile_name name rest

/-- `push_signed_headers` -/
def pushSignedHeaders (headers : List (Bytes × Bytes)) : Bytes :=
  (ascii ";").intercalate (signedHeaderNames headers)

/-- `stable_sort_by_first` -/
def stableSortByFirst (v : List (Bytes × Bytes)) : List (Bytes × Bytes) :=
  v.insertionSort fun a b => Bytes.le a.1 b.1 = true

/-- The canonical query string. -/
def canonicalQueryString (query : List (Bytes × Bytes)) : Bytes :=
  let encoded := stableSortByFirst (query.map fun q => (uriEncode q.1 true, uriEncode q.2 true))
  (ascii "&").intercalate (encoded.map fun q => q.1 ++ ascii "=" ++ q.2)

/-- `create_canonical_request_with_uri_mode` -/
def createCanonicalRequestWithUriMode (method uriPath : Bytes) (query signedHeaders :
    List (Bytes × Bytes)) (payload : Payload) (rawUriPath : Bool) : Bytes :=
  method ++ ascii "\n" ++
    (if rawUriPath then uriPath else uriEncode uriPath false) ++ ascii "\n" ++
    canonicalQueryString query ++ ascii "\n" ++
    pushCanonicalHeaders signedHeaders ++ ascii "\n" ++
    pushSignedHeaders signedHeaders ++ ascii "\n" ++
    payload.hashed

/-- `create_canonical_request` -/
def createCanonicalRequest (method uriPath : Bytes) (query signedHeaders : List (Bytes × Bytes))
    (payload : Payload) : Bytes :=
  createCanonicalRequestWithUriMode method uriPath query signedHeaders payload false

/-- `create_canonical_request_with_raw_uri_path` -/
def createCanonicalRequestWithRawUriPath (method rawUriPath : Bytes)
    (query signedHeaders : List (Bytes × Bytes)) (payload : Payload) : Bytes :=
  createCanonicalRequestWithUriMode method rawUriPath query signedHeaders payload true

variable (C : Crypto)

/-- `create_string_to_sign` -/
def createStringToSign (canonicalRequest : Bytes) (amzDate : AmzDate) (region service : Bytes) :
    Bytes :=
  ascii "AWS4-HMAC-SHA256\n" ++ amzDate.fmtIso8601 ++ ascii "\n" ++
    amzDate.fmtDate ++ ascii "/" ++ region ++ ascii "/" ++ service ++ ascii "/aws4_request\n" ++
    hexSha256 C canonicalRequest

/-- `calculate_signature`, as the digest whose canonical text it returns. -/
def calculateSignature (stringToSign secretKey : Bytes) (amzDate : AmzDate)
    (region service : Bytes) : Sha256Sum :=
  calculateSignatureWithKey C stringToSign (deriveSigningKey C secretKey amzDate region service)

end S3s.SigV4
