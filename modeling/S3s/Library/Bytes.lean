import Mathlib.Algebra.GroupWithZero.Nat
import Mathlib.Data.List.Basic
import Mathlib.Data.List.DropRight
import Mathlib.Data.List.TakeWhile
import Mathlib.Data.List.Sort
import Mathlib.Tactic.Common

/-! # Byte strings: ASCII literals, hexadecimal, UTF-8 validity

Everything here is about lists of bytes alone. A text is the list of its UTF-8
bytes, so text equality, length and order are those of the byte list.
-/
namespace S3s

abbrev Bytes := List UInt8

/-- The bytes of an ASCII literal. -/
def ascii (s : String) : Bytes := s.toList.map fun c => UInt8.ofNat c.toNat

def cr : UInt8 := 13
def lf : UInt8 := 10
def crlf : Bytes := [cr, lf]

/-- A property of bytes is checked at its 256 values. -/
theorem forall_byte {p : UInt8 → Prop} (h : ∀ n : Fin 256, p (UInt8.ofNat n.val)) (b : UInt8) :
    p b := by
  have hb := h ⟨b.toNat, b.toNat_lt⟩
  simpa using hb

namespace Bytes

def isDigit (c : UInt8) : Bool := 48 ≤ c && c ≤ 57

def toLower (c : UInt8) : UInt8 := if 65 ≤ c && c ≤ 90 then c + 32 else c

def lowercase (s : Bytes) : Bytes := s.map toLower

@[simp] theorem lowercase_length (s : Bytes) : (lowercase s).length = s.length := by
  simp [lowercase]

theorem toLower_toLower (c : UInt8) : toLower (toLower c) = toLower c := by
  unfold toLower
  grind

@[simp] theorem lowercase_lowercase (s : Bytes) : lowercase (lowercase s) = lowercase s := by
  simp [lowercase, Function.comp_def, toLower_toLower]

/-- Lowercase hexadecimal digit of a value below sixteen. -/
def hexDigit (n : UInt8) : UInt8 := if n < 10 then 48 + n else 87 + n

/-- Value of a hexadecimal digit of either case. -/
def hexVal (c : UInt8) : Option UInt8 :=
  if 48 ≤ c && c ≤ 57 then some (c - 48)
  else if 97 ≤ c && c ≤ 102 then some (c - 87)
  else if 65 ≤ c && c ≤ 70 then some (c - 55)
  else none

def isLowercaseHex (c : UInt8) : Bool := (48 ≤ c && c ≤ 57) || (97 ≤ c && c ≤ 102)

def encodeHex (s : Bytes) : Bytes := s.flatMap fun b => [hexDigit (b / 16), hexDigit (b % 16)]

def decodeHex : Bytes → Option Bytes
  | [] => some []
  | [_] => none
  | hi :: lo :: rest =>
    match hexVal hi, hexVal lo, decodeHex rest with
    | some h, some l, some ds => some ((h * 16 + l) :: ds)
    | _, _, _ => none

theorem encodeHex_length (s : Bytes) : (encodeHex s).length = 2 * s.length := by
  induction s with
  | nil => rfl
  | cons b s ih => simp only [encodeHex, List.flatMap_cons, List.length_append] at ih ⊢; simp [ih]; omega

theorem div_sixteen_lt (b : UInt8) : b / 16 < 16 := by grind

theorem mod_sixteen_lt (b : UInt8) : b % 16 < 16 := by grind

theorem hexVal_hexDigit {n : UInt8} (h : n < 16) : hexVal (hexDigit n) = some n := by
  unfold hexDigit hexVal
  grind

theorem byte_of_nibbles (b : UInt8) : b / 16 * 16 + b % 16 = b := by grind

@[simp] theorem decodeHex_encodeHex (s : Bytes) : decodeHex (encodeHex s) = some s := by
  induction s with
  | nil => rfl
  | cons b s ih =>
    have hstep : encodeHex (b :: s) = hexDigit (b / 16) :: hexDigit (b % 16) :: encodeHex s := rfl
    rw [hstep, decodeHex, hexVal_hexDigit (div_sixteen_lt b), hexVal_hexDigit (mod_sixteen_lt b), ih]
    simp [byte_of_nibbles]

theorem encodeHex_injective {s t : Bytes} (h : encodeHex s = encodeHex t) : s = t := by
  have hdecode := congrArg decodeHex h
  rw [decodeHex_encodeHex, decodeHex_encodeHex] at hdecode
  exact Option.some.inj hdecode

theorem isLowercaseHex_hexDigit {n : UInt8} (h : n < 16) : isLowercaseHex (hexDigit n) = true := by
  unfold hexDigit isLowercaseHex
  split_ifs <;> simp_all [UInt8.lt_iff_toNat_lt, UInt8.le_iff_toNat_le] <;> omega

theorem encodeHex_lowercase (s : Bytes) : (encodeHex s).all isLowercaseHex = true := by
  induction s with
  | nil => rfl
  | cons b s ih =>
    have hstep : encodeHex (b :: s) = hexDigit (b / 16) :: hexDigit (b % 16) :: encodeHex s := rfl
    rw [hstep, List.all_cons, List.all_cons, isLowercaseHex_hexDigit (div_sixteen_lt b),
      isLowercaseHex_hexDigit (mod_sixteen_lt b), ih]
    rfl

theorem hexDigit_of_hexVal (c v : UInt8) (hc : isLowercaseHex c = true) (hv : hexVal c = some v) :
    hexDigit v = c ∧ v < 16 := by
  unfold isLowercaseHex at hc
  unfold hexVal at hv
  unfold hexDigit
  grind

theorem nibbles_of_byte (h l : UInt8) (hh : h < 16) (hl : l < 16) :
    (h * 16 + l) / 16 = h ∧ (h * 16 + l) % 16 = l := by
  constructor
  · grind
  · grind

/-- On lowercase digits the decoder is injective: the digits are those of the decoded bytes. -/
theorem encodeHex_of_decodeHex (s d : Bytes) (hs : s.all isLowercaseHex = true)
    (hd : decodeHex s = some d) : encodeHex d = s := by
  induction s using decodeHex.induct generalizing d with
  | case1 => simp only [decodeHex, Option.some.injEq] at hd; subst hd; rfl
  | case2 => simp [decodeHex] at hd
  | case3 hi lo rest h l ds hds hl hh ih =>
    simp only [List.all_cons, Bool.and_eq_true] at hs
    obtain ⟨hhi, hlo, hrest⟩ := hs
    simp only [decodeHex, hh, hl, hds, Option.some.injEq] at hd
    subst hd
    obtain ⟨dh, bh⟩ := hexDigit_of_hexVal hi h hhi hh
    obtain ⟨dl, bl⟩ := hexDigit_of_hexVal lo l hlo hl
    obtain ⟨nh, nl⟩ := nibbles_of_byte h l bh bl
    have hstep : encodeHex ((h * 16 + l) :: ds) =
        hexDigit ((h * 16 + l) / 16) :: hexDigit ((h * 16 + l) % 16) :: encodeHex ds := rfl
    rw [hstep, nh, nl, dh, dl, ih ds hrest hds]
  | case4 hi lo rest hno ih =>
    rw [decodeHex] at hd
    split at hd
    · next h l ds hh hl hds => exact (hno h l ds hh hl hds).elim
    · cases hd

/-- Continuation bytes of a multi-byte UTF-8 sequence. -/
def isContinuation (b : UInt8) : Bool := 0x80 ≤ b && b ≤ 0xBF

def isLead2 (a : UInt8) : Bool := 0xC2 ≤ a && a ≤ 0xDF

/-- The first two bytes of a three-byte sequence: no overlong form and no surrogate. -/
def isLead3 (a b : UInt8) : Bool :=
  (a == 0xE0 && 0xA0 ≤ b && b ≤ 0xBF) || (0xE1 ≤ a && a ≤ 0xEC && isContinuation b) ||
    (a == 0xED && 0x80 ≤ b && b ≤ 0x9F) || (0xEE ≤ a && a ≤ 0xEF && isContinuation b)

/-- The first two bytes of a four-byte sequence: no overlong form, at most U+10FFFF. -/
def isLead4 (a b : UInt8) : Bool :=
  (a == 0xF0 && 0x90 ≤ b && b ≤ 0xBF) || (0xF1 ≤ a && a ≤ 0xF3 && isContinuation b) ||
    (a == 0xF4 && 0x80 ≤ b && b ≤ 0x8F)

def validUtf8 : Bytes → Bool
  | [] => true
  | a :: t =>
    if a < 0x80 then validUtf8 t else
    match t with
    | [] => false
    | b :: t =>
      if isLead2 a && isContinuation b then validUtf8 t else
      match t with
      | [] => false
      | c :: t =>
        if isLead3 a b && isContinuation c then validUtf8 t else
        match t with
        | [] => false
        | d :: t => isLead4 a b && isContinuation c && isContinuation d && validUtf8 t

/-- `std::str::from_utf8`: a text is its own bytes, when these are valid UTF-8. -/
def fromUtf8 (s : Bytes) : Option Bytes := if validUtf8 s then some s else none

theorem validUtf8_cons_ascii (a : UInt8) (t : Bytes) (h : a < 0x80) :
    validUtf8 (a :: t) = validUtf8 t := by
  rw [validUtf8.eq_def]
  exact if_pos h

theorem validUtf8_of_ascii (s : Bytes) (h : ∀ b ∈ s, b < 0x80) : validUtf8 s = true := by
  induction s with
  | nil => rfl
  | cons a t ih =>
    rw [validUtf8_cons_ascii a t (h a (List.mem_cons_self ..))]
    exact ih fun b hb => h b (List.mem_cons_of_mem a hb)

theorem fromUtf8_of_ascii (s : Bytes) (h : ∀ b ∈ s, b < 0x80) : fromUtf8 s = some s := by
  rw [fromUtf8, if_pos (validUtf8_of_ascii s h)]

theorem isLowercaseHex_ascii (c : UInt8) (h : isLowercaseHex c = true) : c < 0x80 := by
  unfold isLowercaseHex at h
  grind

/-- Decimal digits of a number, most significant first. -/
def decimal (n : Nat) : Bytes := (Nat.toDigits 10 n).map fun c => UInt8.ofNat c.toNat

/-- Decimal digits padded with zeros on the left to at least `width` of them. -/
def decimalPadded (width n : Nat) : Bytes :=
  List.replicate (width - (decimal n).length) 48 ++ decimal n

/-- Lexicographic order of byte strings, as text order is. -/
def le : Bytes → Bytes → Bool
  | [], _ => true
  | _ :: _, [] => false
  | a :: s, b :: t => if a < b then true else if b < a then false else le s t

theorem byte_trichotomy (a b : UInt8) : a < b ∨ a = b ∨ b < a := by
  simp only [UInt8.lt_iff_toNat_lt, ← UInt8.toNat_inj]
  omega

theorem le_total (s t : Bytes) : le s t = true ∨ le t s = true := by
  induction s generalizing t with
  | nil => exact Or.inl (by simp [le])
  | cons a s ih =>
    cases t with
    | nil => exact Or.inr rfl
    | cons b t =>
      rcases byte_trichotomy a b with h | rfl | h
      · exact Or.inl (by simp [le, h])
      · simpa [le] using ih t
      · exact Or.inr (by simp [le, h])

theorem le_cons_cons (a b : UInt8) (s t : Bytes) :
    le (a :: s) (b :: t) = true ↔ a < b ∨ a = b ∧ le s t = true := by
  rcases byte_trichotomy a b with h | rfl | h
  · simp [le, h]
  · simp [le]
  · have hab : ¬ a < b := by
      rw [UInt8.lt_iff_toNat_lt] at h ⊢
      omega
    have hne : a ≠ b := by
      rintro rfl
      exact hab h
    simp [le, h, hab, hne]

theorem le_trans {s t u : Bytes} (hst : le s t = true) (htu : le t u = true) : le s u = true := by
  induction s generalizing t u with
  | nil => simp [le]
  | cons a s ih =>
    cases t with
    | nil => cases hst
    | cons b t =>
      cases u with
      | nil => cases htu
      | cons c u =>
        rw [le_cons_cons] at hst htu ⊢
        rcases hst with hab | ⟨rfl, hst⟩
        · rcases htu with hbc | ⟨rfl, -⟩
          · left
            rw [UInt8.lt_iff_toNat_lt] at hab hbc ⊢
            omega
          · exact Or.inl hab
        · rcases htu with hbc | ⟨rfl, htu⟩
          · exact Or.inl hbc
          · exact Or.inr ⟨rfl, ih hst htu⟩

theorem le_antisymm {s t : Bytes} (hst : le s t = true) (hts : le t s = true) : s = t := by
  induction s generalizing t with
  | nil =>
    cases t with
    | nil => rfl
    | cons b t => cases hts
  | cons a s ih =>
    cases t with
    | nil => cases hst
    | cons b t =>
      rw [le_cons_cons] at hst hts
      rcases hst with hab | ⟨rfl, hst⟩
      · rcases hts with hba | ⟨rfl, -⟩
        · rw [UInt8.lt_iff_toNat_lt] at hab hba
          omega
        · exact (UInt8.lt_irrefl _ hab).elim
      · rcases hts with haa | ⟨-, hts⟩
        · exact (UInt8.lt_irrefl _ haa).elim
        · rw [ih hst hts]

/-- The segments between line feeds; there is always at least one. -/
def splitLf : Bytes → List Bytes
  | [] => [[]]
  | b :: s =>
    if b = lf then [] :: splitLf s else
    match splitLf s with
    | [] => [[b]]
    | line :: lines => (b :: line) :: lines

theorem splitLf_line (line s : Bytes) (h : lf ∉ line) :
    splitLf (line ++ lf :: s) = line :: splitLf s := by
  induction line with
  | nil => simp [splitLf]
  | cons b line ih =>
    simp only [List.mem_cons, not_or] at h
    rw [List.cons_append, splitLf, if_neg (Ne.symm h.1), ih h.2]

/-- Space and horizontal tab. -/
def isBlank (c : UInt8) : Bool := c == 32 || c == 9

/-- Removes blanks at both ends. -/
def trimBlank (s : Bytes) : Bytes := (s.dropWhile isBlank).rdropWhile isBlank

theorem trimBlank_of_ends {s : Bytes} (hhead : ∀ c ∈ s.head?, isBlank c = false)
    (hlast : ∀ c ∈ s.getLast?, isBlank c = false) : trimBlank s = s := by
  have hdrop : s.dropWhile isBlank = s := by
    cases s with
    | nil => rfl
    | cons a s => simp [hhead a rfl]
  rw [trimBlank, hdrop, List.rdropWhile_eq_self_iff]
  intro hne
  have h := hlast _ (List.getLast?_eq_getLast_of_ne_nil hne)
  simp [h]

end Bytes
end S3s
