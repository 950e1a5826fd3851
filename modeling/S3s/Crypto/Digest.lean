import S3s.Library.Bytes

/-! # SHA-256 digests and their canonical hexadecimal text

A digest is thirty-two bytes by construction. The hash and the keyed hash are
parameters: nothing below depends on which functions they are.
-/
namespace S3s

/-- `Sha256Sum`. Its equality is equality of the raw bytes. -/
structure Sha256Sum where
  bytes : Bytes
  length_eq : bytes.length = 32
deriving DecidableEq

/-- The two primitives of the signing code. -/
structure Crypto where
  sha256 : Bytes → Sha256Sum
  hmacSha256 : Bytes → Bytes → Sha256Sum

/-- `is_sha256_checksum` -/
def isSha256Checksum (s : Bytes) : Bool := s.length == 64 && s.all Bytes.isLowercaseHex

namespace Sha256Sum

/-- `Sha256Sum::from_hex` -/
def fromHex (value : Bytes) : Option Sha256Sum :=
  if isSha256Checksum value then
    match Bytes.decodeHex value with
    | some digest => if h : digest.length = 32 then some ⟨digest, h⟩ else none
    | none => none
  else none

/-- `hex_bytes32` -/
def hex (d : Sha256Sum) : Bytes := Bytes.encodeHex d.bytes

theorem length_zeros : (List.replicate 32 (0 : UInt8)).length = 32 := List.length_replicate

@[simp] theorem hex_length (d : Sha256Sum) : d.hex.length = 64 := by
  rw [hex, Bytes.encodeHex_length, d.length_eq]

theorem isSha256Checksum_hex (d : Sha256Sum) : isSha256Checksum d.hex = true := by
  have hl : (d.hex.length == 64) = true := by simp
  rw [isSha256Checksum, hl, Bool.true_and]
  exact Bytes.encodeHex_lowercase d.bytes

@[simp] theorem fromHex_hex (d : Sha256Sum) : fromHex d.hex = some d := by
  have hd : Bytes.decodeHex d.hex = some d.bytes := Bytes.decodeHex_encodeHex d.bytes
  rw [fromHex, if_pos (isSha256Checksum_hex d), hd]
  simp [d.length_eq]

/-- The canonical text is the only one that is read as the digest. -/
theorem fromHex_eq_some {s : Bytes} {d : Sha256Sum} : fromHex s = some d ↔ s = d.hex := by
  constructor
  · intro h
    unfold fromHex at h
    split at h
    · next hs =>
      rw [isSha256Checksum, Bool.and_eq_true] at hs
      split at h
      · next digest hdec =>
        split at h
        · cases h
          exact (Bytes.encodeHex_of_decodeHex s digest hs.2 hdec).symm
        · cases h
      · cases h
    · cases h
  · rintro rfl
    exact fromHex_hex d

theorem hex_injective : Function.Injective hex := by
  intro a b h
  have hb := fromHex_hex b
  rw [← h, fromHex_hex] at hb
  exact Option.some.inj hb

theorem hex_ascii (d : Sha256Sum) : ∀ b ∈ d.hex, b < 0x80 := by
  intro b hb
  have hall := Bytes.encodeHex_lowercase d.bytes
  exact Bytes.isLowercaseHex_ascii b (List.all_eq_true.mp hall b hb)

/-- `str::from_utf8` in front of the parser changes nothing: digests are ASCII. -/
theorem fromUtf8_bind_fromHex (s : Bytes) : (Bytes.fromUtf8 s).bind fromHex = fromHex s := by
  unfold Bytes.fromUtf8
  split
  · rfl
  · next h =>
    cases hd : fromHex s with
    | none => rfl
    | some d =>
      rw [fromHex_eq_some] at hd
      subst hd
      exact (h (Bytes.validUtf8_of_ascii d.hex d.hex_ascii)).elim

/-- The digest with a canonical text. -/
def ofHexText (text : String) : Sha256Sum :=
  (fromHex (ascii text)).getD ⟨List.replicate 32 0, by decide⟩

end Sha256Sum

/-- The primitives as tables of their values at some texts, the keyed hash under one key a text. -/
def Crypto.tabulated (hashes macs : List (Bytes × Sha256Sum)) : Crypto where
  sha256 data := (hashes.lookup data).getD (.ofHexText "")
  hmacSha256 _ data := (macs.lookup data).getD (.ofHexText "")

end S3s
