import Mathlib.Data.Nat.Digits.Defs
import Mathlib.Data.Nat.Digits.Lemmas
import S3s.AwsChunked.Meta

/-! # The recognisers of other crates, as documented

`Documented` states what the decoder relies on: `hex_u32` reads a size of at most
eight digits, header names are lowercased tokens, header values are visible
ASCII. `reference` is an implementation that follows the crates' sources.
-/
namespace S3s.AwsChunked

/-- The number a list of hexadecimal digits stands for. -/
def hexNumber (s : Bytes) : Nat := s.foldl (fun n c => n * 16 + ((Bytes.hexVal c).getD 0).toNat) 0

/-- The hexadecimal text of a number. -/
def hexText (n : Nat) : Bytes :=
  if n = 0 then [48] else (Nat.digits 16 n).reverse.map fun d => Bytes.hexDigit (UInt8.ofNat d)

/-- The characters of a header name. -/
def isTokenChar (c : UInt8) : Bool :=
  Bytes.isDigit c || (65 ≤ c && c ≤ 90) || (97 ≤ c && c ≤ 122) || (ascii "!#$%&'*+-.^_|~\x60").contains c

/-- The visible characters of a header value. -/
def isVisible (c : UInt8) : Bool := (32 ≤ c && c < 127) || c == 9

/-- What the decoder relies on. -/
structure Documented (X : Externals) : Prop where
  hexU32 : ∀ s : Bytes, s ≠ [] → s.length ≤ 8 → (∀ c ∈ s, (Bytes.hexVal c).isSome = true) →
    X.hexU32 s = some (UInt32.ofNat (hexNumber s))
  headerName : ∀ s : Bytes, s ≠ [] → s.length ≤ 65535 → s.all isTokenChar = true →
    X.headerName s = some (Bytes.lowercase s)
  headerValue : ∀ s : Bytes, s.all isVisible = true → X.headerValue s = some s

/-- The recognisers of nom and http over given primitives. -/
def reference (C : Crypto) : Externals where
  toCrypto := C
  hexU32 s :=
    let digits := s.takeWhile fun c => (Bytes.hexVal c).isSome
    if digits.isEmpty then none else some (UInt32.ofNat (hexNumber (digits.take 8)))
  headerName s :=
    if s.isEmpty || s.length > 65535 || !s.all isTokenChar then none else some (Bytes.lowercase s)
  headerValue s := if s.all fun c => (32 ≤ c && c != 127) || c == 9 then some s else none

/-- Primitives that return one digest for everything. -/
def constantCrypto : Crypto :=
  let zero : Sha256Sum := ⟨List.replicate 32 0, Sha256Sum.length_zeros⟩
  ⟨fun _ => zero, fun _ _ => zero⟩

theorem isVisible_valid (c : UInt8) (h : isVisible c = true) :
    ((32 ≤ c && c != 127) || c == 9) = true := by
  revert h
  refine forall_byte (p := fun c => isVisible c = true → ((32 ≤ c && c != 127) || c == 9) = true) ?_ c
  decide +kernel

theorem reference_documented (C : Crypto) : Documented (reference C) where
  hexU32 s hne hlen hall := by
    have htake : s.takeWhile (fun c => (Bytes.hexVal c).isSome) = s :=
      List.takeWhile_eq_self_iff.mpr hall
    simp only [reference, htake]
    rw [if_neg (by simpa using hne), List.take_of_length_le hlen]
  headerName s hne hlen hall := by
    simp only [reference]
    rw [if_neg (by simp [hne, hall, hlen])]
  headerValue s hall := by
    simp only [reference]
    rw [if_pos]
    rw [List.all_eq_true] at hall ⊢
    exact fun c hc => isVisible_valid c (hall c hc)

theorem hexVal_hexDigit (d : Nat) (h : d < 16) :
    Bytes.hexVal (Bytes.hexDigit (UInt8.ofNat d)) = some (UInt8.ofNat d) := by
  have key : ∀ n : Fin 16, Bytes.hexVal (Bytes.hexDigit (UInt8.ofNat n.val)) =
      some (UInt8.ofNat n.val) := by decide
  exact key ⟨d, h⟩

theorem endsSize_hexDigit (d : Nat) (h : d < 16) :
    endsSize (Bytes.hexDigit (UInt8.ofNat d)) = false := by
  have key : ∀ n : Fin 16, endsSize (Bytes.hexDigit (UInt8.ofNat n.val)) = false := by decide
  exact key ⟨d, h⟩

/-- Every byte of a hexadecimal text is the digit of a value below sixteen. -/
theorem hexText_digit {n : Nat} {c : UInt8} (hc : c ∈ hexText n) :
    ∃ d < 16, c = Bytes.hexDigit (UInt8.ofNat d) := by
  unfold hexText at hc
  split at hc
  · rw [List.mem_singleton] at hc
    exact ⟨0, by omega, hc.trans (by decide)⟩
  · rw [List.mem_map] at hc
    obtain ⟨d, hd, rfl⟩ := hc
    exact ⟨d, Nat.digits_lt_base (by omega) (List.mem_reverse.mp hd), rfl⟩

theorem hexText_ne_nil (n : Nat) : hexText n ≠ [] := by
  unfold hexText
  split
  · simp
  · next h => simpa using Nat.digits_ne_nil_iff_ne_zero.mpr h

theorem hexText_length_le {n : Nat} (h : n < 2 ^ 32) : (hexText n).length ≤ 8 := by
  unfold hexText
  split
  · simp
  · rw [List.length_map, List.length_reverse]
    have h16 : n < 16 ^ 8 := by simpa using h
    exact (Nat.digits_length_le_iff (by omega) n).mpr h16

private theorem hexNumber_digits (ds : List Nat) (h : ∀ d ∈ ds, d < 16) :
    hexNumber (ds.reverse.map fun d => Bytes.hexDigit (UInt8.ofNat d)) = Nat.ofDigits 16 ds := by
  induction ds with
  | nil => rfl
  | cons d ds ih =>
    have hd : d < 16 := h d (by simp)
    have hmod : d % 256 = d := by omega
    have hrest := ih fun d hd => h d (by simp [hd])
    unfold hexNumber at hrest ⊢
    simp only [List.reverse_cons, List.map_append, List.foldl_append, hrest, List.map_cons,
      List.map_nil, List.foldl_cons, List.foldl_nil, hexVal_hexDigit d hd, Option.getD_some,
      Nat.ofDigits_cons, UInt8.toNat_ofNat', hmod]
    omega

theorem hexNumber_hexText (n : Nat) : hexNumber (hexText n) = n := by
  unfold hexText
  split
  · next h => rw [h]; decide
  · rw [hexNumber_digits _ fun d hd => Nat.digits_lt_base (by omega) hd, Nat.ofDigits_digits]

/-- The size token of a chunk is read back. -/
theorem Documented.hexU32_hexText {X : Externals} (hX : Documented X) {n : Nat} (h : n < 2 ^ 32) :
    X.hexU32 (hexText n) = some (UInt32.ofNat n) := by
  rw [hX.hexU32 _ (hexText_ne_nil n) (hexText_length_le h), hexNumber_hexText]
  intro c hc
  obtain ⟨d, hd, rfl⟩ := hexText_digit hc
  rw [hexVal_hexDigit d hd]
  rfl

theorem hexText_endsSize {n : Nat} : ∀ c ∈ hexText n, endsSize c = false := by
  intro c hc
  obtain ⟨d, hd, rfl⟩ := hexText_digit hc
  exact endsSize_hexDigit d hd

theorem hexText_lf (n : Nat) : lf ∉ hexText n := by
  intro hmem
  obtain ⟨d, hd, hc⟩ := hexText_digit hmem
  have key : ∀ n : Fin 16, lf ≠ Bytes.hexDigit (UInt8.ofNat n.val) := by decide
  exact key ⟨d, hd⟩ hc

end S3s.AwsChunked
