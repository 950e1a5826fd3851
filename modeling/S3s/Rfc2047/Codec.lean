import S3s.Library.Base64
import S3s.Library.Utf8
import S3s.Library.Text
import S3s.SigV4.CanonicalRequest

/-! # Encoded words

`encode` writes a text as encoded words when it has characters that a header cannot
carry; `decode` reads encoded words wherever a text has their shape.
-/
namespace S3s.Rfc2047

open SigV4 (utf8Chars isWhitespaceChar trimChars)

def maxEncodedWordLen : Nat := 75
def wordStart : Bytes := ascii "=?UTF-8?B?"
def wordEnd : Bytes := ascii "?="
def maxInputLen : Nat := 1024 * 1024

/-- `EncodeError` -/
inductive EncodeError where
  | inputTooLarge
  | invalidUtf8Boundary
deriving DecidableEq

/-- `DecodeError` -/
inductive DecodeError where
  | inputTooLarge
  | invalidFormat
  | base64Error
  | invalidHex
  | invalidUtf8
  | unsupportedEncoding
deriving DecidableEq

/-- `is_ascii_header_safe` -/
def isAsciiHeaderSafe (s : Bytes) : Bool := s.all fun b => b < 0x80 && 0x20 ≤ b && b != 0x7F

/-- An encoded word. -/
def encodedWord (chunk : Bytes) : Bytes := wordStart ++ Base64.encode chunk ++ wordEnd

/-- The search for the end of a chunk: back from an index to the nearest boundary. -/
def chunkEnd (s : Bytes) : Nat → Nat
  | 0 => 0
  | index + 1 => if Utf8.isCharBoundary s (index + 1) then index + 1 else chunkEnd s index

theorem chunkEnd_le (s : Bytes) (index : Nat) : chunkEnd s index ≤ index := by
  induction index with
  | zero => exact le_rfl
  | succ index ih =>
    rw [chunkEnd]
    split
    · exact le_rfl
    · exact ih.trans (Nat.le_succ _)

/-- The most bytes of a chunk. -/
def maxInputBytes : Nat := (maxEncodedWordLen - (wordStart.length + wordEnd.length)) / 4 * 3

/-- The loop of `encode`: a chunk of what is left becomes a word, behind a space but for the
first one. -/
def encodeLoop (result s : Bytes) : Except EncodeError Bytes :=
  if s = [] then .ok result
  else
    let «end» := chunkEnd s (min maxInputBytes s.length)
    if hend : «end» = 0 then .error .invalidUtf8Boundary
    else
      encodeLoop ((if result.isEmpty then result else result ++ [32]) ++ encodedWord (s.take «end»))
        (s.drop «end»)
termination_by s.length
decreasing_by
  have hle : chunkEnd s (min maxInputBytes s.length) ≤ s.length :=
    (chunkEnd_le s _).trans (Nat.min_le_right _ _)
  rw [List.length_drop]
  omega

/-- `encode` -/
def encode (s : Bytes) : Except EncodeError Bytes :=
  if s.length > maxInputLen then .error .inputTooLarge
  else if isAsciiHeaderSafe s then .ok s
  else
    let overhead := wordStart.length + wordEnd.length
    let estimatedEncodedLen := (s.length * 4 + 2) / 3
    if estimatedEncodedLen + overhead ≤ maxEncodedWordLen then .ok (encodedWord s)
    else encodeLoop [] s

/-- `str::trim` -/
def trim (s : Bytes) : Bytes := (trimChars (utf8Chars s)).flatten

/-- `str::split_whitespace` -/
def splitWhitespace (s : Bytes) : List Bytes :=
  (((utf8Chars s).splitOnP isWhitespaceChar).filter fun word => !word.isEmpty).map List.flatten

/-- Whether a text has the marks of an encoded word at its ends. -/
def hasMarks (s : Bytes) : Bool := (ascii "=?").isPrefixOf s && (ascii "?=").isSuffixOf s

/-- `char::to_digit` in hex. -/
def toHexDigit : Bytes → Option UInt8
  | [c] => Bytes.hexVal c
  | _ => none

/-- `decode_quoted_printable`, on the characters of the text. -/
def decodeQuotedPrintable : List Bytes → Except DecodeError Bytes
  | [] => .ok []
  | [61] :: h₁ :: h₂ :: chars => do
    let high ← (toHexDigit h₁).elim (.error .invalidHex) .ok
    let low ← (toHexDigit h₂).elim (.error .invalidHex) .ok
    let result ← decodeQuotedPrintable chars
    .ok ((high * 16 + low) :: result)
  | [61] :: _ => .error .invalidFormat
  | [95] :: chars => (decodeQuotedPrintable chars).map (32 :: ·)
  | [c] :: chars => if c < 0x80 then (decodeQuotedPrintable chars).map (c :: ·) else .error .invalidFormat
  | _ :: _ => .error .invalidFormat

/-- The two marks are stripped. -/
def stripMarks (s : Bytes) : Option Bytes :=
  if (ascii "=?").isPrefixOf s then Text.stripSuffix (ascii "?=") (s.drop 2) else none

/-- `splitn(3, '?')`, with its third part there. -/
def splitInner (inner : Bytes) : Option (Bytes × Bytes × Bytes) := do
  let (charset, rest) ← Text.splitOnce 63 inner
  let (encoding, encodedText) ← Text.splitOnce 63 rest
  some (charset, encoding, encodedText)

/-- The bytes of an encoded text. -/
def decodeText (encoding encodedText : Bytes) : Except DecodeError Bytes :=
  if encoding = ascii "B" ∨ encoding = ascii "b" then
    (Base64.decode encodedText).elim (.error .base64Error) .ok
  else if encoding = ascii "Q" ∨ encoding = ascii "q" then
    decodeQuotedPrintable (utf8Chars encodedText)
  else .error .unsupportedEncoding

/-- `String::from_utf8` -/
def fromUtf8 (s : Bytes) : Except DecodeError Bytes :=
  (Bytes.fromUtf8 s).elim (.error .invalidUtf8) .ok

/-- `decode_single_word` -/
def decodeSingleWord (s : Bytes) : Except DecodeError Bytes := do
  let s := trim s
  if !hasMarks s then .error .invalidFormat
  else
    let inner ← (stripMarks s).elim (.error .invalidFormat) .ok
    let (_, encoding, encodedText) ← (splitInner inner).elim (.error .invalidFormat) .ok
    let decodedBytes ← decodeText encoding encodedText
    fromUtf8 decodedBytes

/-- The loop of `decode` over the parts: those that are no encoded words are left out. -/
def decodeParts : List Bytes → Except DecodeError Bytes
  | [] => .ok []
  | part :: parts =>
    if part.isEmpty || !hasMarks part then decodeParts parts
    else do
      let decoded ← decodeSingleWord part
      let result ← decodeParts parts
      .ok (decoded ++ result)

/-- `decode` -/
def decode (s : Bytes) : Except DecodeError Bytes :=
  if s.length > maxInputLen then .error .inputTooLarge
  else
    let s := trim s
    if !hasMarks s then .ok s
    else if 1 < ((splitWhitespace s).filter hasMarks).length then do
      let result ← decodeParts (splitWhitespace s)
      if result.isEmpty then .error .invalidFormat else fromUtf8 result
    else decodeSingleWord s

end S3s.Rfc2047
