import S3s.Xml.CharacterData

/-! # Character references

Which names of references are resolved, and to which characters. A plus sign in front of the digits is let
through, and the characters of the planes 1 to 15 are not.
-/
namespace S3s.Xml

section Encoding

theorem ofNat_injective {m n : Nat} (hm : m < 256) (hn : n < 256) (h : UInt8.ofNat m = UInt8.ofNat n) :
    m = n := by
  have hvalue := congrArg UInt8.toNat h
  rwa [UInt8.toNat_ofNat_of_lt' hm, UInt8.toNat_ofNat_of_lt' hn] at hvalue

/-- A character is known by its bytes. -/
theorem encodeUtf8_injective {m n : Nat} (hm : m < 0x110000) (hn : n < 0x110000)
    (h : encodeUtf8 m = encodeUtf8 n) : m = n := by
  unfold encodeUtf8 at h
  split_ifs at h with h₁ h₂ h₃ h₄ h₅ h₆ h₇ h₈ h₉ h₁₀ h₁₁ h₁₂
  all_goals simp only [List.cons.injEq, and_true, reduceCtorEq, and_false] at h
  · exact ofNat_injective (by omega) (by omega) h
  · have hlead := ofNat_injective (by omega) (by omega) h.1
    have hlast := ofNat_injective (by omega) (by omega) h.2
    omega
  · have hlead := ofNat_injective (by omega) (by omega) h.1
    have hsecond := ofNat_injective (by omega) (by omega) h.2.1
    have hlast := ofNat_injective (by omega) (by omega) h.2.2
    omega
  · have hlead := ofNat_injective (by omega) (by omega) h.1
    have hsecond := ofNat_injective (by omega) (by omega) h.2.1
    have hthird := ofNat_injective (by omega) (by omega) h.2.2.1
    have hlast := ofNat_injective (by omega) (by omega) h.2.2.2
    omega

end Encoding

section Parsing

theorem parseU32Radix_eq_some {radix n : Nat} {s : Bytes} (h : parseU32Radix radix s = some n) :
    ∃ digits, (s = digits ∨ s = 43 :: digits) ∧ digits ≠ [] ∧
      (∀ c ∈ digits, Text.isRadixDigit radix c = true) ∧ n = Text.valueOf radix digits := by
  have hsign : s = (if s.head? = some 43 then s.tail else s) ∨
      s = 43 :: if s.head? = some 43 then s.tail else s := by
    cases s with
    | nil => exact Or.inl rfl
    | cons c s => by_cases hc : c = 43 <;> simp [hc]
  unfold parseU32Radix at h
  generalize (if s.head? = some 43 then s.tail else s) = digits at h hsign
  simp only [Bool.or_eq_true, List.any_eq_true, Bool.not_eq_true'] at h
  split_ifs at h with hbad hbound
  refine ⟨digits, hsign, ?_, ?_, (Option.some.inj h).symm⟩
  · rintro rfl
    exact hbad (Or.inl rfl)
  · intro c hc
    by_contra hdigit
    exact hbad (Or.inr ⟨c, hc, by simpa using hdigit⟩)

end Parsing

namespace CharRef

/-- The name with a plus sign in front of the digits. -/
def signedName (r : CharRef) : Bytes := 35 :: if r.hex then 120 :: 43 :: r.digits else 43 :: r.digits

theorem resolveCharRef_name (r : CharRef) : resolveCharRef r.name =
    if isResolvedCodepoint r.codepoint then some (encodeUtf8 r.codepoint) else none := by
  have hstrip : Text.stripPrefix 35 r.name = some r.number := Text.stripPrefix_eq_some.mpr rfl
  rw [resolveCharRef, hstrip]
  simp only [Option.bind_eq_bind, Option.bind_some, r.number_isEmpty, Bool.false_eq_true, if_false,
    r.parseCodepoint_number]

/-- The digits behind a plus sign are read as they are without it. -/
theorem parse_signed (r : CharRef) : parseU32Radix r.radix (43 :: r.digits) = some r.codepoint := by
  have hplain := r.parse_digits
  have hsign : r.digits.head? ≠ some 43 := by
    intro hhead
    have hdigit := r.valid 43 (List.mem_of_mem_head? hhead)
    rw [not_isRadixDigit (.inl rfl)] at hdigit
    cases hdigit
  simp only [parseU32Radix, if_neg hsign] at hplain
  simpa [parseU32Radix] using hplain

theorem resolveCharRef_signedName (r : CharRef) : resolveCharRef r.signedName =
    if isResolvedCodepoint r.codepoint then some (encodeUtf8 r.codepoint) else none := by
  have hparse := r.parse_signed
  cases hhex : r.hex with
  | true =>
    rw [radix, hhex] at hparse
    simp only [if_true] at hparse
    simp [resolveCharRef, signedName, hhex, Text.stripPrefix, parseCodepoint, hparse]
  | false =>
    rw [radix, hhex] at hparse
    simp only [Bool.false_eq_true, if_false] at hparse
    simp [resolveCharRef, signedName, hhex, Text.stripPrefix, parseCodepoint, hparse]

theorem isResolvedCodepoint_codepoint (r : CharRef) :
    isResolvedCodepoint r.codepoint = !r.isSupplementary := by
  cases h : r.isSupplementary with
  | false => exact r.isResolvedCodepoint_of h
  | true =>
    simp only [isSupplementary, Bool.and_eq_true, decide_eq_true_eq] at h
    simp only [isResolvedCodepoint, Bool.not_true, Bool.or_eq_false_iff, Bool.and_eq_false_iff,
      beq_eq_false_iff_ne, decide_eq_false_iff_not]
    omega

theorem codepoint_lt (r : CharRef) : r.codepoint < 0x110000 := by
  have hchar : isXmlChar r.codepoint = true := r.isChar
  simp only [isXmlChar, Bool.or_eq_true, Bool.and_eq_true, decide_eq_true_eq, beq_iff_eq] at hchar
  omega

theorem codepoint_eq_of_name {r r' : CharRef} (h : r.name = r'.name) : r.codepoint = r'.codepoint := by
  have hnumber : r.number = r'.number := List.tail_eq_of_cons_eq h
  have hparse := r.parseCodepoint_number
  rw [hnumber, r'.parseCodepoint_number] at hparse
  exact (Option.some.inj hparse).symm

theorem not_mem_digits (r : CharRef) {c : UInt8} (hc : c = 43 ∨ c = 120) : c ∉ r.digits := by
  intro hmem
  have hdigit := r.valid c hmem
  rw [not_isRadixDigit hc] at hdigit
  cases hdigit

theorem signedName_ne_name (r r' : CharRef) : r.signedName ≠ r'.name := by
  intro h
  have hnumber : (if r.hex then 120 :: 43 :: r.digits else 43 :: r.digits) = r'.number :=
    List.tail_eq_of_cons_eq h
  have hplus := r'.not_mem_digits (.inl rfl)
  have hmark := r'.not_mem_digits (.inr rfl)
  rw [number] at hnumber
  cases hhex : r.hex <;> cases hhex' : r'.hex <;> simp only [hhex, hhex', if_true, if_false,
    Bool.false_eq_true] at hnumber
  · exact hplus (hnumber ▸ List.mem_cons_self)
  · cases hnumber
  · exact hmark (hnumber ▸ List.mem_cons_self)
  · exact hplus (List.tail_eq_of_cons_eq hnumber ▸ List.mem_cons_self)

/-- A reference that is resolved is a well-formed one, or one with a plus sign. -/
theorem of_resolveCharRef {name v : Bytes} (h : resolveCharRef name = some v) :
    ∃ r : CharRef, (name = r.name ∨ name = r.signedName) ∧ r.isSupplementary = false ∧
      v = encodeUtf8 r.codepoint := by
  simp only [resolveCharRef, Option.bind_eq_bind, Option.bind_eq_some_iff] at h
  obtain ⟨entity, hstrip, h⟩ := h
  obtain rfl := Text.stripPrefix_eq_some.mp hstrip
  split at h
  · cases h
  · obtain ⟨n, hparse, h⟩ := Option.bind_eq_some_iff.mp h
    split at h
    · next hresolved =>
      have hchar : isXmlChar n = true := by
        simp only [isXmlChar, isResolvedCodepoint, Bool.or_eq_true, Bool.and_eq_true, decide_eq_true_eq,
          beq_iff_eq] at hresolved ⊢
        omega
      have hnot (r : CharRef) (hr : r.codepoint = n) : r.isSupplementary = false := by
        have hcodepoint := r.isResolvedCodepoint_codepoint
        rw [hr, hresolved] at hcodepoint
        simpa using hcodepoint
      unfold parseCodepoint at hparse
      split at hparse
      · next hex hhex =>
        obtain rfl := Text.stripPrefix_eq_some.mp hhex
        obtain ⟨digits, hsign, hne, hvalid, rfl⟩ := parseU32Radix_eq_some hparse
        refine ⟨⟨true, digits, hne, hvalid, hchar⟩, ?_, hnot _ rfl, (Option.some.inj h).symm⟩
        rcases hsign with rfl | rfl
        · exact Or.inl rfl
        · exact Or.inr rfl
      · obtain ⟨digits, hsign, hne, hvalid, rfl⟩ := parseU32Radix_eq_some hparse
        refine ⟨⟨false, digits, hne, hvalid, hchar⟩, ?_, hnot _ rfl, (Option.some.inj h).symm⟩
        rcases hsign with rfl | rfl
        · exact Or.inl rfl
        · exact Or.inr rfl
    · cases h

end CharRef

/-- A name is that of a well-formed reference to a character. -/
def Denotes (name : Bytes) (n : Nat) : Prop := ∃ r : CharRef, r.name = name ∧ r.codepoint = n

/-- A well-formed reference to a character of the planes 1 to 15, or a reference to another character with a
plus sign in front of its digits. -/
def Misread (name : Bytes) : Prop :=
  ∃ r : CharRef, name = r.name ∧ r.isSupplementary = true ∨ name = r.signedName ∧ r.isSupplementary = false

/-- A name is resolved exactly as it denotes a character unless it is misread. -/
theorem charRef_resolved_iff (name : Bytes) :
    (∀ n < 0x110000, resolveCharRef name = some (encodeUtf8 n) ↔ Denotes name n) ↔ ¬Misread name := by
  constructor
  · rintro h ⟨r, ⟨rfl, hsupplementary⟩ | ⟨rfl, hplain⟩⟩
    · have hresolved := (h r.codepoint r.codepoint_lt).mpr ⟨r, rfl, rfl⟩
      rw [r.resolveCharRef_name, r.isResolvedCodepoint_codepoint, hsupplementary] at hresolved
      cases hresolved
    · have hresolved : resolveCharRef r.signedName = some (encodeUtf8 r.codepoint) := by
        rw [r.resolveCharRef_signedName, r.isResolvedCodepoint_codepoint, hplain]
        rfl
      obtain ⟨r', hname, -⟩ := (h r.codepoint r.codepoint_lt).mp hresolved
      exact r.signedName_ne_name r' hname.symm
  · intro h n hn
    constructor
    · intro hresolved
      obtain ⟨r, rfl | rfl, hplain, hvalue⟩ := CharRef.of_resolveCharRef hresolved
      · exact ⟨r, rfl, encodeUtf8_injective r.codepoint_lt hn hvalue.symm⟩
      · exact absurd ⟨r, Or.inr ⟨rfl, hplain⟩⟩ h
    · rintro ⟨r, rfl, rfl⟩
      have hplain : r.isSupplementary = false := by
        rw [Bool.eq_false_iff]
        exact fun hsupplementary => h ⟨r, Or.inl ⟨rfl, hsupplementary⟩⟩
      rw [r.resolveCharRef_name, r.isResolvedCodepoint_codepoint, hplain]
      rfl

/-- A smiling face is not resolved, and a letter is with a plus sign. -/
theorem charRefs_misread :
    ¬(∀ n < 0x110000, resolveCharRef (ascii "#x1F600") = some (encodeUtf8 n) ↔
        Denotes (ascii "#x1F600") n) ∧
      resolveCharRef (ascii "#x1F600") = none ∧ Denotes (ascii "#x1F600") 0x1F600 ∧
      ¬(∀ n < 0x110000, resolveCharRef (ascii "#+65") = some (encodeUtf8 n) ↔ Denotes (ascii "#+65") n) ∧
      resolveCharRef (ascii "#+65") = some (ascii "A") := by
  have hface : Denotes (ascii "#x1F600") 0x1F600 :=
    ⟨⟨true, ascii "1F600", by decide, by decide +kernel, by decide⟩, by decide, by decide⟩
  have hnone : resolveCharRef (ascii "#x1F600") = none := by decide
  have hletter : resolveCharRef (ascii "#+65") = some (ascii "A") := by decide
  refine ⟨fun h => ?_, hnone, hface, fun h => ?_, hletter⟩
  · have hresolved := (h 0x1F600 (by decide)).mpr hface
    rw [hnone] at hresolved
    cases hresolved
  · obtain ⟨r, hname, -⟩ := (h 65 (by decide)).mp hletter
    have hsigned : ascii "#+65" = CharRef.signedName
        ⟨false, ascii "65", by decide, by decide +kernel, by decide⟩ := by decide
    rw [hsigned] at hname
    exact CharRef.signedName_ne_name _ r hname.symm

end S3s.Xml
