import S3s.FormData.Accounting
import S3s.FormData.ContentDisposition

/-! # The form of a POST object

The fields of a form are read up to the part named `file`, which is handed over as
a stream. The length of the file is what the whole body leaves behind the bytes
consumed and in front of the closing trailer.
-/
namespace S3s.Http
open Polling FormData

variable {ε : Type}

/-- `Multipart` of the parser, which goes by `Parser` here. -/
abbrev Parser := FormData.Multipart

/-- `MultipartLimits` -/
structure MultipartLimits where
  maxFieldSize : Nat
  maxFieldsSize : Nat
  maxParts : Nat

/-- `MultipartError` -/
inductive MultipartError (ε : Type) where
  | underlying (source : FormData.Error ε)
  | invalidFormat
  | fieldTooLarge (size limit : Nat)
  | totalSizeTooLarge (size limit : Nat)
  | tooManyParts (count limit : Nat)
deriving DecidableEq

/-- `map_parser_error` -/
def mapParserError : FormData.Error ε → MultipartError ε
  | .streamReadFailed source => .underlying (.streamReadFailed source)
  | .streamStalled => .underlying .streamStalled
  | .headerSizeExceeded limit => .fieldTooLarge (limit + 1) limit
  | _ => .invalidFormat

/-- `FileStreamError` -/
inductive FileStreamError (ε : Type) where
  | incomplete
  | underlying (source : FormData.Error ε)
  | invalidTrailer
  | lengthMismatch (remaining : Nat)
deriving DecidableEq

/-- `map_file_stream_error` -/
def mapFileStreamError : FormData.Error ε → FileStreamError ε
  | .streamReadFailed source => .underlying (.streamReadFailed source)
  | .streamStalled => .underlying .streamStalled
  | .incompleteStreamPart => .incomplete
  | _ => .invalidTrailer

/-- `FileStream` -/
structure FileStream (ε : Type) where
  inner : FinalPartDataStream ε
  contentLen : Option Nat
  remaining : Nat
  ended : Bool

namespace FileStream

/-- `FileStream::from_owned` -/
def fromOwned (inner : FinalPartDataStream ε) (contentLen : Option Nat) : FileStream ε where
  inner := inner
  contentLen := contentLen
  remaining := contentLen.getD 0
  ended := false

/-- `poll_next` of `FileStream` -/
def pollNext (s : FileStream ε) : Item Bytes (FileStreamError ε) × FileStream ε :=
  if s.ended then (.ready none, s)
  else
    match s.inner.pollNext with
    | (.ready (some (.ok bytes)), inner) =>
      if s.contentLen.isSome then
        if bytes.length > s.remaining then
          (.ready (some (.error (.lengthMismatch s.remaining))),
            { s with inner := inner, ended := true })
        else
          (.ready (some (.ok bytes)),
            { s with inner := inner, remaining := s.remaining - bytes.length })
      else (.ready (some (.ok bytes)), { s with inner := inner })
    | (.ready none, inner) =>
      if s.contentLen.isSome && decide (s.remaining > 0) then
        (.ready (some (.error (.lengthMismatch s.remaining))),
          { s with inner := inner, ended := true })
      else (.ready none, { s with inner := inner })
    | (.ready (some (.error err)), inner) =>
      (.ready (some (.error (mapFileStreamError err))), { s with inner := inner, ended := true })
    | (.pending, inner) => (.pending, { s with inner := inner })

end FileStream

/-- `File` -/
structure File (ε : Type) where
  name : Bytes
  contentType : Option Bytes
  stream : Option (FileStream ε)

/-- `Multipart` -/
structure Multipart (ε : Type) where
  fields : List (Bytes × Bytes)
  file : File ε

/-- `bytes_to_string` -/
def bytesToString (bytes : Bytes) : Except (MultipartError ε) Bytes :=
  match Bytes.fromUtf8 bytes with
  | some text => .ok text
  | none => .error .invalidFormat

/-- `map(bytes_to_string).transpose()` -/
def optionToString : Option Bytes → Except (MultipartError ε) (Option Bytes)
  | none => .ok none
  | some bytes => (bytesToString bytes).map some

/-- What is kept of the headers of a part. -/
structure PartInfo where
  cdName : Option Bytes
  cdFileName : Option Bytes
  contentType : Option Bytes
deriving DecidableEq

/-- The body of the loop over the headers of a part. -/
def PartInfo.header (info : PartInfo) (header : Header) : Except (MultipartError ε) PartInfo :=
  if eqIgnoreAsciiCase header.name (ascii "content-disposition") then do
    let cd := parseContentDisposition header.value
    let cdName ← optionToString (cd.bind ContentDisposition.name)
    let cdFileName ← optionToString (cd.bind ContentDisposition.fileName)
    .ok { info with cdName := cdName, cdFileName := cdFileName }
  else if eqIgnoreAsciiCase header.name (ascii "content-type") then do
    let contentType ← bytesToString header.value
    .ok { info with contentType := some contentType }
  else .ok info

/-- The loop over the headers of a part. -/
inductive ReadsInfo (H : Httparse) :
    Parser ε → PartInfo → Except (MultipartError ε) PartInfo → Parser ε → Prop where
  | done {parser parser' : Parser ε} {info : PartInfo}
    (header : Settles (FormData.Multipart.pollNextHeader H) parser (.ok none) parser') :
    ReadsInfo H parser info (.ok info) parser'
  | failed {parser parser' : Parser ε} {info : PartInfo} {e : FormData.Error ε}
    (header : Settles (FormData.Multipart.pollNextHeader H) parser (.error e) parser') :
    ReadsInfo H parser info (.error (mapParserError e)) parser'
  | refused {parser parser' : Parser ε} {info : PartInfo} {h : Header} {e : MultipartError ε}
    (header : Settles (FormData.Multipart.pollNextHeader H) parser (.ok (some h)) parser')
    (kept : info.header h = .error e) : ReadsInfo H parser info (.error e) parser'
  | kept {parser parser₁ parser' : Parser ε} {info info₁ : PartInfo} {h : Header}
    {r : Except (MultipartError ε) PartInfo}
    (header : Settles (FormData.Multipart.pollNextHeader H) parser (.ok (some h)) parser₁)
    (kept : info.header (ε := ε) h = .ok info₁) (rest : ReadsInfo H parser₁ info₁ r parser') :
    ReadsInfo H parser info r parser'

/-- What has been read of a form. -/
structure Progress where
  fields : List (Bytes × Bytes)
  totalFieldsSize : Nat
  partsCount : Nat

/-- The body of the loop over the data of a field: the value, and the size of all fields. -/
def addChunk (limits : MultipartLimits) (value : Bytes) (totalFieldsSize : Nat) (chunk : Bytes) :
    Except (MultipartError ε) (Bytes × Nat) :=
  let value := value ++ chunk
  if value.length > limits.maxFieldSize then
    .error (.fieldTooLarge value.length limits.maxFieldSize)
  else
    let totalFieldsSize := totalFieldsSize + chunk.length
    if totalFieldsSize > limits.maxFieldsSize then
      .error (.totalSizeTooLarge totalFieldsSize limits.maxFieldsSize)
    else .ok (value, totalFieldsSize)

/-- The loop over the data of a field. -/
inductive ReadsValue (H : Httparse) (limits : MultipartLimits) :
    Parser ε → Bytes × Nat → Except (MultipartError ε) (Bytes × Nat) → Parser ε → Prop where
  | done {parser parser' : Parser ε} {value : Bytes × Nat}
    (data : Settles (FormData.Multipart.pollNextData H) parser (.ok none) parser') :
    ReadsValue H limits parser value (.ok value) parser'
  | failed {parser parser' : Parser ε} {value : Bytes × Nat} {e : FormData.Error ε}
    (data : Settles (FormData.Multipart.pollNextData H) parser (.error e) parser') :
    ReadsValue H limits parser value (.error (mapParserError e)) parser'
  | refused {parser parser' : Parser ε} {value : Bytes × Nat} {chunk : Bytes} {e : MultipartError ε}
    (data : Settles (FormData.Multipart.pollNextData H) parser (.ok (some chunk)) parser')
    (added : addChunk limits value.1 value.2 chunk = .error e) :
    ReadsValue H limits parser value (.error e) parser'
  | added {parser parser₁ parser' : Parser ε} {value value₁ : Bytes × Nat} {chunk : Bytes}
    {r : Except (MultipartError ε) (Bytes × Nat)}
    (data : Settles (FormData.Multipart.pollNextData H) parser (.ok (some chunk)) parser₁)
    (added : addChunk (ε := ε) limits value.1 value.2 chunk = .ok value₁)
    (rest : ReadsValue H limits parser₁ value₁ r parser') :
    ReadsValue H limits parser value r parser'

/-- The length of the file: what is left of the whole behind the bytes consumed and in front of the
closing trailer. -/
def contentLength (boundary : Bytes) (totalLen : Option Nat) (multipartConsumed : Nat) : Option Nat :=
  totalLen.bind fun total =>
    if multipartConsumed ≤ total then
      if boundary.length + 8 ≤ total - multipartConsumed then
        some (total - multipartConsumed - (boundary.length + 8))
      else none
    else none

/-- The form that is returned when the part named `file` is taken. -/
def formOf (boundary : Bytes) (totalLen : Option Nat) (progress : Progress) (info : PartInfo)
    (name : Bytes) (owned : FinalPartDataStream ε) : Multipart ε where
  fields := (progress.fields.map fun field => (Bytes.lowercase field.1, field.2)).insertionSort
    fun a b => Bytes.le a.1 b.1 = true
  file := {
    name := info.cdFileName.getD name
    contentType := info.contentType
    stream := some (.fromOwned owned (contentLength boundary totalLen owned.multipartConsumed)) }

/-- What a part comes to: the form that is returned, or the fields so far. -/
inductive PartOutcome (ε : Type) where
  | form (form : Multipart ε)
  | field (progress : Progress)

/-- The rest of the body of the loop over the parts, behind the headers of a part. -/
inductive ReadsPart (H : Httparse) (boundary : Bytes) (limits : MultipartLimits)
    (totalLen : Option Nat) : Parser ε → Progress → PartInfo →
    Except (MultipartError ε) (PartOutcome ε) → Parser ε → Prop where
  | unnamed {parser : Parser ε} {progress : Progress} {info : PartInfo} (name : info.cdName = none) :
    ReadsPart H boundary limits totalLen parser progress info (.error .invalidFormat) parser
  | untaken {parser parser' : Parser ε} {progress : Progress} {info : PartInfo} {n : Bytes}
    {e : FormData.Error ε} (name : info.cdName = some n)
    (file : eqIgnoreAsciiCase n (ascii "file") = true)
    (taken : parser.takeDataStream = (.error e, parser')) :
    ReadsPart H boundary limits totalLen parser progress info (.error (mapParserError e)) parser'
  | file {parser parser' : Parser ε} {progress : Progress} {info : PartInfo} {n : Bytes}
    {s : PartDataStream ε} (name : info.cdName = some n)
    (file : eqIgnoreAsciiCase n (ascii "file") = true)
    (taken : parser.takeDataStream = (.ok s, parser')) :
    ReadsPart H boundary limits totalLen parser progress info
      (.ok (.form (formOf boundary totalLen progress info n s.intoFinal))) parser'
  | refused {parser parser' : Parser ε} {progress : Progress} {info : PartInfo} {n : Bytes}
    {e : MultipartError ε} (name : info.cdName = some n)
    (field : eqIgnoreAsciiCase n (ascii "file") = false)
    (value : ReadsValue H limits parser ([], progress.totalFieldsSize) (.error e) parser') :
    ReadsPart H boundary limits totalLen parser progress info (.error e) parser'
  | unreadable {parser parser' : Parser ε} {progress : Progress} {info : PartInfo} {n v : Bytes}
    {size : Nat} {e : MultipartError ε} (name : info.cdName = some n)
    (field : eqIgnoreAsciiCase n (ascii "file") = false)
    (value : ReadsValue H limits parser ([], progress.totalFieldsSize) (.ok (v, size)) parser')
    (text : bytesToString v = .error e) :
    ReadsPart H boundary limits totalLen parser progress info (.error e) parser'
  | field {parser parser' : Parser ε} {progress : Progress} {info : PartInfo} {n v text : Bytes}
    {size : Nat} (name : info.cdName = some n)
    (field : eqIgnoreAsciiCase n (ascii "file") = false)
    (value : ReadsValue H limits parser ([], progress.totalFieldsSize) (.ok (v, size)) parser')
    (readable : bytesToString (ε := ε) v = .ok text) :
    ReadsPart H boundary limits totalLen parser progress info
      (.ok (.field { progress with
        fields := progress.fields ++ [(n, text)], totalFieldsSize := size })) parser'

/-- The loop of `transform_multipart` -/
inductive ReadsForm (H : Httparse) (boundary : Bytes) (limits : MultipartLimits)
    (totalLen : Option Nat) :
    Parser ε → Progress → Except (MultipartError ε) (Multipart ε) → Parser ε → Prop where
  | failed {parser parser' : Parser ε} {progress : Progress} {e : FormData.Error ε}
    (part : FormData.Multipart.NextPart H parser (.error e) parser') :
    ReadsForm H boundary limits totalLen parser progress (.error (mapParserError e)) parser'
  | closed {parser parser' : Parser ε} {progress : Progress}
    (part : FormData.Multipart.NextPart H parser (.ok none) parser') :
    ReadsForm H boundary limits totalLen parser progress (.error .invalidFormat) parser'
  | tooMany {parser parser' : Parser ε} {progress : Progress}
    (part : FormData.Multipart.NextPart H parser (.ok (some ())) parser')
    (many : progress.partsCount + 1 > limits.maxParts) :
    ReadsForm H boundary limits totalLen parser progress
      (.error (.tooManyParts (progress.partsCount + 1) limits.maxParts)) parser'
  | badHeader {parser parser₁ parser' : Parser ε} {progress : Progress} {e : MultipartError ε}
    (part : FormData.Multipart.NextPart H parser (.ok (some ())) parser₁)
    (few : progress.partsCount + 1 ≤ limits.maxParts)
    (headers : ReadsInfo H parser₁ ⟨none, none, none⟩ (.error e) parser') :
    ReadsForm H boundary limits totalLen parser progress (.error e) parser'
  | badPart {parser parser₁ parser₂ parser' : Parser ε} {progress : Progress} {info : PartInfo}
    {e : MultipartError ε} (part : FormData.Multipart.NextPart H parser (.ok (some ())) parser₁)
    (few : progress.partsCount + 1 ≤ limits.maxParts)
    (headers : ReadsInfo H parser₁ ⟨none, none, none⟩ (.ok info) parser₂)
    (rest : ReadsPart H boundary limits totalLen parser₂
      { progress with partsCount := progress.partsCount + 1 } info (.error e) parser') :
    ReadsForm H boundary limits totalLen parser progress (.error e) parser'
  | file {parser parser₁ parser₂ parser' : Parser ε} {progress : Progress} {info : PartInfo}
    {form : Multipart ε} (part : FormData.Multipart.NextPart H parser (.ok (some ())) parser₁)
    (few : progress.partsCount + 1 ≤ limits.maxParts)
    (headers : ReadsInfo H parser₁ ⟨none, none, none⟩ (.ok info) parser₂)
    (rest : ReadsPart H boundary limits totalLen parser₂
      { progress with partsCount := progress.partsCount + 1 } info (.ok (.form form)) parser') :
    ReadsForm H boundary limits totalLen parser progress (.ok form) parser'
  | field {parser parser₁ parser₂ parser₃ parser' : Parser ε} {progress progress₁ : Progress}
    {info : PartInfo} {r : Except (MultipartError ε) (Multipart ε)}
    (part : FormData.Multipart.NextPart H parser (.ok (some ())) parser₁)
    (few : progress.partsCount + 1 ≤ limits.maxParts)
    (headers : ReadsInfo H parser₁ ⟨none, none, none⟩ (.ok info) parser₂)
    (rest : ReadsPart H boundary limits totalLen parser₂
      { progress with partsCount := progress.partsCount + 1 } info (.ok (.field progress₁)) parser₃)
    (more : ReadsForm H boundary limits totalLen parser₃ progress₁ r parser') :
    ReadsForm H boundary limits totalLen parser progress r parser'

/-- `transform_multipart`: what it returns for a body that arrives as the script says. What is
awaited in it is polled until it is ready. -/
inductive TransformMultipart (H : Httparse) (stream : Script ε) (boundary : Bytes)
    (limits : MultipartLimits) (totalLen : Option Nat) :
    Except (MultipartError ε) (Multipart ε) → Prop where
  | badBoundary {e : FormData.Error ε} (made : Boundary.new boundary = .error e) :
    TransformMultipart H stream boundary limits totalLen (.error .invalidFormat)
  | read {parserBoundary : Boundary} {r : Except (MultipartError ε) (Multipart ε)}
    {parser' : Parser ε} (made : Boundary.new (ε := ε) boundary = .ok parserBoundary)
    (form : ReadsForm H boundary limits totalLen
      (.new stream parserBoundary limits.maxFieldSize) ⟨[], 0, 0⟩ r parser') :
    TransformMultipart H stream boundary limits totalLen r

end S3s.Http
