import S3s.Dto.Timestamp
import S3s.Fs.Layout
import S3s.Xml.Schema

/-! # Request bodies

The bodies of three requests as schemas, and the types of their texts: strings, which are always read as they were
written, booleans, and ETags, which are if they are strong and have no character that an ETag may not have.
-/
namespace S3s.Xml
open Fs (ETag)

namespace TextCodec

/-- A string. -/
def string : TextCodec Bytes where
  escapes := true
  asStr s := s
  fromStr s := .ok s

/-- `bool` -/
def bool : TextCodec Bool where
  escapes := true
  asStr val := if val then ascii "true" else ascii "false"
  fromStr s :=
    if s = ascii "true" ∨ s = ascii "TRUE" then .ok true
    else if s = ascii "false" ∨ s = ascii "FALSE" then .ok false
    else .error .invalidContent

/-- A number or a time, with what writes its text and what parses it. -/
def parsed {α : Type} (format : α → Bytes) (parse : Bytes → Option α) : TextCodec α where
  escapes := true
  asStr := format
  fromStr s := (parse s).elim (.error .invalidContent) .ok

/-- `ETag` -/
def etag : TextCodec ETag where
  escapes := false
  asStr := serializeETag
  fromStr := etagOfText

@[simp] theorem string_restores (s : Bytes) : string.Restores s := rfl

@[simp] theorem bool_restores (val : Bool) : bool.Restores val := by
  cases val <;> rfl

@[simp] theorem parsed_restores {α : Type} {format : α → Bytes} {parse : Bytes → Option α} {a : α} :
    (parsed format parse).Restores a ↔ parse (format a) = some a := by
  simp only [Restores, parsed]
  cases parse (format a) <;> simp

/-- An ETag is restored if and only if it is strong and its characters may stand in an ETag. -/
@[simp] theorem etag_restores {e : ETag} : etag.Restores e ↔ e = .strong e.value ∧ e.value.all isETagChar = true := by
  constructor
  · intro h
    obtain ⟨hvalue, ⟨hstrong, -⟩ | ⟨-, hquoted⟩ | ⟨hraw, hunquoted, -⟩⟩ := etagOfText_eq_ok h
    · exact ⟨hstrong, hvalue⟩
    · cases hquoted
    · rw [show unquote (etag.asStr e) = some e.value from unquote_eq_some.mpr rfl] at hunquoted
      cases hunquoted
  · rintro ⟨hstrong, hvalue⟩
    exact (etagOfText_quoted hvalue).trans (congrArg _ hstrong.symm)

@[simp] theorem string_isMarkupFree (s : Bytes) : string.IsMarkupFree s := fun h => by cases h

@[simp] theorem bool_isMarkupFree (val : Bool) : bool.IsMarkupFree val := fun h => by cases h

@[simp] theorem parsed_isMarkupFree {α : Type} {format : α → Bytes} {parse : Bytes → Option α} (a : α) :
    (parsed format parse).IsMarkupFree a := fun h => by cases h

end TextCodec

section Types

/-- `Tag` -/
structure Tag where
  key : Option Bytes
  value : Option Bytes

/-- `Tagging` -/
structure Tagging where
  tagSet : List Tag

/-- `CompletedPart` -/
structure CompletedPart where
  checksumCrc32 : Option Bytes
  checksumCrc32c : Option Bytes
  checksumCrc64nvme : Option Bytes
  checksumMd5 : Option Bytes
  checksumSha1 : Option Bytes
  checksumSha256 : Option Bytes
  checksumSha512 : Option Bytes
  checksumXxhash128 : Option Bytes
  checksumXxhash3 : Option Bytes
  checksumXxhash64 : Option Bytes
  eTag : Option ETag
  partNumber : Option Int

/-- `CompletedMultipartUpload` -/
structure CompletedMultipartUpload where
  parts : Option (List CompletedPart)

/-- `ObjectIdentifier`, with a type of times. -/
structure ObjectIdentifier (τ : Type) where
  eTag : Option ETag
  key : Bytes
  lastModifiedTime : Option τ
  size : Option Int
  versionId : Option Bytes

/-- `Delete` -/
structure Delete (τ : Type) where
  objects : List (ObjectIdentifier τ)
  quiet : Option Bool

end Types

section Schemas

variable {τ : Type} (integer : TextCodec Int) (timestamp : TextCodec τ)

def Tag.schema : Schema Tag :=
  .struct false (.optional (ascii "Key") (.text .string) (.optional (ascii "Value") (.text .string) .nil)) {
    toFun := fun a => (a.key, a.value, ())
    invFun := fun p => ⟨p.1, p.2.1⟩
    left_inv := fun _ => rfl
    right_inv := fun _ => rfl }

def Tagging.schema : Schema Tagging :=
  .struct true (.required (ascii "TagSet") (.list (ascii "Tag") Tag.schema) .nil) {
    toFun := fun a => (a.tagSet, ())
    invFun := fun p => ⟨p.1⟩
    left_inv := fun _ => rfl
    right_inv := fun _ => rfl }

def CompletedPart.schema : Schema CompletedPart :=
  .struct false
    (.optional (ascii "ChecksumCRC32") (.text .string) <|
      .optional (ascii "ChecksumCRC32C") (.text .string) <|
      .optional (ascii "ChecksumCRC64NVME") (.text .string) <|
      .optional (ascii "ChecksumMD5") (.text .string) <|
      .optional (ascii "ChecksumSHA1") (.text .string) <|
      .optional (ascii "ChecksumSHA256") (.text .string) <|
      .optional (ascii "ChecksumSHA512") (.text .string) <|
      .optional (ascii "ChecksumXXHASH128") (.text .string) <|
      .optional (ascii "ChecksumXXHASH3") (.text .string) <|
      .optional (ascii "ChecksumXXHASH64") (.text .string) <|
      .optional (ascii "ETag") (.text .etag) <|
      .optional (ascii "PartNumber") (.text integer) .nil) {
    toFun := fun a => (a.checksumCrc32, a.checksumCrc32c, a.checksumCrc64nvme, a.checksumMd5, a.checksumSha1,
      a.checksumSha256, a.checksumSha512, a.checksumXxhash128, a.checksumXxhash3, a.checksumXxhash64, a.eTag,
      a.partNumber, ())
    invFun := fun (crc32, crc32c, crc64nvme, md5, sha1, sha256, sha512, xxhash128, xxhash3, xxhash64, eTag,
      partNumber, _) => ⟨crc32, crc32c, crc64nvme, md5, sha1, sha256, sha512, xxhash128, xxhash3, xxhash64, eTag,
      partNumber⟩
    left_inv := fun _ => rfl
    right_inv := fun _ => rfl }

def CompletedMultipartUpload.schema : Schema CompletedMultipartUpload :=
  .struct true (.optionalFlattened (ascii "Part") (CompletedPart.schema integer) .nil) {
    toFun := fun a => (a.parts, ())
    invFun := fun p => ⟨p.1⟩
    left_inv := fun _ => rfl
    right_inv := fun _ => rfl }

def ObjectIdentifier.schema : Schema (ObjectIdentifier τ) :=
  .struct false
    (.optional (ascii "ETag") (.text .etag) <|
      .required (ascii "Key") (.text .string) <|
      .optional (ascii "LastModifiedTime") (.text timestamp) <|
      .optional (ascii "Size") (.text integer) <|
      .optional (ascii "VersionId") (.text .string) .nil) {
    toFun := fun a => (a.eTag, a.key, a.lastModifiedTime, a.size, a.versionId, ())
    invFun := fun p => ⟨p.1, p.2.1, p.2.2.1, p.2.2.2.1, p.2.2.2.2.1⟩
    left_inv := fun _ => rfl
    right_inv := fun _ => rfl }

def Delete.schema : Schema (Delete τ) :=
  .struct true
    (.requiredFlattened (ascii "Object") (ObjectIdentifier.schema integer timestamp) <|
      .optional (ascii "Quiet") (.text .bool) .nil) {
    toFun := fun a => (a.objects, a.quiet, ())
    invFun := fun p => ⟨p.1, p.2.1⟩
    left_inv := fun _ => rfl
    right_inv := fun _ => rfl }

end Schemas

end S3s.Xml
