import Mathlib.Tactic.IntervalCases
import S3s.Xml.References

/-! # Timestamps

How a time is read from a text. A time in seconds since the epoch is read by the code itself, with its
fraction; the other formats are read by the calendar.
-/
namespace S3s.Dto
open Xml (parseU32Radix parseU32Radix_eq_some)

/-- `TimestampFormat` -/
inductive TimestampFormat where
  | dateTime
  | httpDate
  | epochSeconds

/-- `ParseTimestampError` -/
inductive ParseTimestampError where
  | time
  | int
  | overflow
  | componentRange
deriving DecidableEq

/-- The calendar: how it reads the formats of its own, as nanoseconds since the epoch, and which seconds it
has. -/
structure Calendar where
  dateTime : Bytes → Option Int
  httpDate : Bytes → Option Int
  hasSecond : Int → Bool

namespace Calendar

variable (calendar : Calendar)

/-- `OffsetDateTime::from_unix_timestamp` -/
def fromUnixTimestamp (secs : Int) : Except ParseTimestampError Int :=
  if calendar.hasSecond secs then .ok (secs * 1000000000) else .error .componentRange

/-- `OffsetDateTime::from_unix_timestamp_nanos` -/
def fromUnixTimestampNanos (nanos : Int) : Except ParseTimestampError Int :=
  if calendar.hasSecond (nanos / 1000000000) then .ok nanos else .error .componentRange

end Calendar

/-- `str::parse` of an `i64`: decimal digits, with a sign or without. -/
def parseI64 (s : Bytes) : Option Int :=
  let digits := if s.head? = some 43 ∨ s.head? = some 45 then s.tail else s
  if digits.isEmpty || digits.any fun c => !Text.isRadixDigit 10 c then none
  else
    let n : Int := if s.head? = some 45 then -Text.valueOf 10 digits else Text.valueOf 10 digits
    if -2 ^ 63 ≤ n ∧ n < 2 ^ 63 then some n else none

/-- The nanoseconds of the last digit of a fraction, by its length. -/
def fractionScale : Nat → Option Nat
  | 1 => some 100000000
  | 2 => some 10000000
  | 3 => some 1000000
  | 4 => some 100000
  | 5 => some 10000
  | 6 => some 1000
  | 7 => some 100
  | 8 => some 10
  | 9 => some 1
  | _ => none

/-- `Timestamp::parse`, to the nanoseconds since the epoch. -/
def Timestamp.parse (calendar : Calendar) (format : TimestampFormat) (s : Bytes) :
    Except ParseTimestampError Int :=
  match format with
  | .dateTime => (calendar.dateTime s).elim (.error .time) .ok
  | .httpDate => (calendar.httpDate s).elim (.error .time) .ok
  | .epochSeconds =>
    match Text.splitOnce 46 s with
    | some (whole, frac) => do
      let secs ← (parseI64 whole).elim (.error .int) .ok
      let val ← (parseU32Radix 10 frac).elim (.error .int) .ok
      let mul ← (fractionScale frac.length).elim (.error .overflow) .ok
      -- the product of two `u32`
      let nanosPart : Nat := val * mul % 2 ^ 32
      calendar.fromUnixTimestampNanos (secs * 1000000000 + nanosPart)
    | none => do
      let secs ← (parseI64 s).elim (.error .int) .ok
      calendar.fromUnixTimestamp secs

section Numbers

/-- A text is an `i64` in decimal, with a sign or without. -/
def IsInteger (s : Bytes) (n : Int) : Prop :=
  ∃ digits, digits ≠ [] ∧ (∀ c ∈ digits, Text.isRadixDigit 10 c = true) ∧
    (s = digits ∧ n = Text.valueOf 10 digits ∨ s = 43 :: digits ∧ n = Text.valueOf 10 digits ∨
      s = 45 :: digits ∧ n = -Text.valueOf 10 digits) ∧ -2 ^ 63 ≤ n ∧ n < 2 ^ 63

theorem not_isRadixDigit {c : UInt8} (h : c = 43 ∨ c = 45 ∨ c = 46) : Text.isRadixDigit 10 c = false := by
  rcases h with rfl | rfl | rfl <;> rfl

theorem valueOf_lt {digits : Bytes} (h : ∀ c ∈ digits, Text.isRadixDigit 10 c = true) :
    Text.valueOf 10 digits < 10 ^ digits.length := by
  have hdigit (c : UInt8) (hc : Text.isRadixDigit 10 c = true) : ((Bytes.hexVal c).getD 0).toNat < 10 := by
    cases hval : Bytes.hexVal c with
    | none => simp
    | some d => simpa [Text.isRadixDigit, hval] using hc
  induction digits using List.reverseRecOn with
  | nil => simp [Text.valueOf]
  | append_singleton digits c ih =>
    have hrest := ih fun d hd => h d (List.mem_append_left _ hd)
    have hlast := hdigit c (h c (by simp))
    rw [Text.valueOf] at hrest ⊢
    rw [List.foldl_append, List.length_append, List.length_singleton, Nat.pow_succ]
    simp only [List.foldl_cons, List.foldl_nil]
    omega

theorem IsInteger.no_dot {s : Bytes} {n : Int} (h : IsInteger s n) : 46 ∉ s := by
  obtain ⟨digits, -, hdigits, hs, -⟩ := h
  have hdot : 46 ∉ digits := by
    intro hmem
    have hdigit := hdigits 46 hmem
    rw [not_isRadixDigit (by simp)] at hdigit
    cases hdigit
  rcases hs with ⟨rfl, -⟩ | ⟨rfl, -⟩ | ⟨rfl, -⟩ <;> simp [hdot]

/-- Digits are read when there are any, and their number is in bounds. -/
theorem bounded_eq_some {digits : Bytes} {m n : Int} :
    (if digits.isEmpty || digits.any fun c => !Text.isRadixDigit 10 c then (none : Option Int)
      else if -2 ^ 63 ≤ m ∧ m < 2 ^ 63 then some m else none) = some n ↔
    m = n ∧ digits ≠ [] ∧ (∀ c ∈ digits, Text.isRadixDigit 10 c = true) ∧ -2 ^ 63 ≤ m ∧ m < 2 ^ 63 := by
  have hbad : ¬(digits.isEmpty || digits.any fun c => !Text.isRadixDigit 10 c) = true ↔
      digits ≠ [] ∧ ∀ c ∈ digits, Text.isRadixDigit 10 c = true := by
    simp only [Bool.or_eq_true, not_or, List.isEmpty_iff, List.any_eq_true, not_exists, not_and,
      Bool.not_eq_true', Bool.not_eq_false, ne_eq]
  by_cases h : (digits.isEmpty || digits.any fun c => !Text.isRadixDigit 10 c) = true
  · rw [if_pos h]
    constructor
    · exact nofun
    · rintro ⟨-, hne, hdigits, -⟩
      exact absurd h (hbad.mpr ⟨hne, hdigits⟩)
  · rw [if_neg h]
    obtain ⟨hne, hdigits⟩ := hbad.mp h
    by_cases hrange : -2 ^ 63 ≤ m ∧ m < 2 ^ 63
    · rw [if_pos hrange]
      exact ⟨fun h => ⟨Option.some.inj h, hne, hdigits, hrange⟩, fun h => congrArg some h.1⟩
    · rw [if_neg hrange]
      exact ⟨nofun, fun h => absurd h.2.2.2 hrange⟩

/-- The numbers that are read are those that are written in decimal. -/
theorem parseI64_eq_some {s : Bytes} {n : Int} : parseI64 s = some n ↔ IsInteger s n := by
  constructor
  · intro h
    unfold parseI64 at h
    obtain ⟨hn, hne, hdigits, hrange⟩ := bounded_eq_some.mp h
    rw [hn] at hrange
    refine ⟨_, hne, hdigits, ?_, hrange⟩
    cases s with
    | nil => simp at hne
    | cons c s =>
      by_cases hminus : c = 45
      · simpa [hminus, eq_comm] using hn
      · by_cases hplus : c = 43
        · simpa [hplus, eq_comm] using hn
        · simpa [hminus, hplus, eq_comm] using hn
  · rintro ⟨digits, hne, hdigits, hs, hrange⟩
    have hvalue := bounded_eq_some.mpr ⟨rfl, hne, hdigits, hrange⟩
    rcases hs with ⟨rfl, rfl⟩ | ⟨rfl, rfl⟩ | ⟨rfl, rfl⟩
    · cases hs : s with
      | nil => exact absurd hs hne
      | cons c rest =>
        have hdigit := hdigits c (by simp [hs])
        have hminus : c ≠ 45 := by
          rintro rfl
          cases hdigit
        have hplus : c ≠ 43 := by
          rintro rfl
          cases hdigit
        rw [hs] at hvalue
        simpa [parseI64, hminus, hplus] using hvalue
    · simpa [parseI64] using hvalue
    · simpa [parseI64] using hvalue

/-- The product of the digits of a fraction and their scale is less than a second. -/
theorem scaled_lt {digits : Bytes} {k mul : Nat} (hdigits : ∀ c ∈ digits, Text.isRadixDigit 10 c = true)
    (hlength : digits.length ≤ k) (hscale : fractionScale k = some mul) :
    mul = 10 ^ (9 - k) ∧ 1 ≤ k ∧ k ≤ 9 ∧ Text.valueOf 10 digits * mul < 1000000000 := by
  have hk : mul = 10 ^ (9 - k) ∧ 1 ≤ k ∧ k ≤ 9 := by
    unfold fractionScale at hscale
    split at hscale
    all_goals simp only [Option.some.injEq, reduceCtorEq] at hscale
    all_goals simp [← hscale]
  refine ⟨hk.1, hk.2.1, hk.2.2, ?_⟩
  have hvalue : Text.valueOf 10 digits < 10 ^ k :=
    (valueOf_lt hdigits).trans_le (Nat.pow_le_pow_right (by decide) hlength)
  calc Text.valueOf 10 digits * mul < 10 ^ k * 10 ^ (9 - k) := by
        rw [hk.1]
        exact Nat.mul_lt_mul_of_pos_right hvalue (Nat.pow_pos (by decide))
    _ = 10 ^ 9 := by rw [← Nat.pow_add, Nat.add_sub_cancel' hk.2.2]

end Numbers

section EpochSeconds

variable (calendar : Calendar)

/-- A text is a number of seconds in decimal, with a fraction of one to nine digits or without, and the
instant is exactly what it says. -/
def IsInstant (s : Bytes) (nanos : Int) : Prop :=
  (∃ secs, IsInteger s secs ∧ nanos = secs * 1000000000) ∨
    ∃ whole frac secs, s = whole ++ 46 :: frac ∧ IsInteger whole secs ∧ 1 ≤ frac.length ∧ frac.length ≤ 9 ∧
      (∀ c ∈ frac, Text.isRadixDigit 10 c = true) ∧
      nanos = secs * 1000000000 + Text.valueOf 10 frac * 10 ^ (9 - frac.length)

/-- A number of seconds that the calendar has, with a plus sign and up to eight digits as its fraction. -/
def HasSignedFraction (s : Bytes) : Prop :=
  ∃ whole digits secs, s = whole ++ 46 :: 43 :: digits ∧ IsInteger whole secs ∧ digits ≠ [] ∧
    digits.length ≤ 8 ∧ (∀ c ∈ digits, Text.isRadixDigit 10 c = true) ∧ calendar.hasSecond secs = true

variable {calendar}

theorem not_isInstant_of_signed {whole digits : Bytes} (hwhole : 46 ∉ whole) {nanos : Int} :
    ¬IsInstant (whole ++ 46 :: 43 :: digits) nanos := by
  rintro (⟨secs, hinteger, -⟩ | ⟨whole', frac, secs, hs, hinteger, -, -, hfrac, -⟩)
  · exact hinteger.no_dot (by simp)
  · have hsplit := Text.splitOnce_append (43 :: digits) hwhole
    rw [hs, Text.splitOnce_append frac hinteger.no_dot] at hsplit
    obtain ⟨-, rfl⟩ := Prod.mk.inj (Option.some.inj hsplit)
    have hdigit := hfrac 43 List.mem_cons_self
    cases hdigit

/-- What is read of a number of seconds with a fraction. -/
theorem parse_fraction {whole frac : Bytes} (hwhole : 46 ∉ whole) {nanos : Int} :
    Timestamp.parse calendar .epochSeconds (whole ++ 46 :: frac) = .ok nanos ↔
      ∃ secs val mul, IsInteger whole secs ∧ parseU32Radix 10 frac = some val ∧
        fractionScale frac.length = some mul ∧ calendar.hasSecond secs = true ∧
        nanos = secs * 1000000000 + val * mul := by
  have hproduct {val mul : Nat} (hval : parseU32Radix 10 frac = some val)
      (hmul : fractionScale frac.length = some mul) : val * mul < 1000000000 := by
    obtain ⟨digits, hsign, -, hdigits, rfl⟩ := parseU32Radix_eq_some hval
    have hlength : digits.length ≤ frac.length := by
      rcases hsign with rfl | rfl <;> simp
    exact (scaled_lt hdigits hlength hmul).2.2.2
  simp only [Timestamp.parse, Text.splitOnce_append frac hwhole]
  constructor
  · intro h
    cases hsecs : parseI64 whole with
    | none => simp [hsecs, bind, Except.bind] at h
    | some secs =>
      cases hval : parseU32Radix 10 frac with
      | none => simp [hsecs, hval, bind, Except.bind] at h
      | some val =>
        cases hmul : fractionScale frac.length with
        | none => simp [hsecs, hval, hmul, bind, Except.bind] at h
        | some mul =>
          have hless := hproduct hval hmul
          have hmod : val * mul % 2 ^ 32 = val * mul := Nat.mod_eq_of_lt (by omega)
          simp only [hsecs, hval, hmul, Option.elim_some, bind, Except.bind, hmod,
            Calendar.fromUnixTimestampNanos] at h
          have hdiv : (secs * 1000000000 + ((val * mul : Nat) : Int)) / 1000000000 = secs := by omega
          rw [hdiv] at h
          split_ifs at h with hsecond
          refine ⟨secs, val, mul, parseI64_eq_some.mp hsecs, rfl, rfl, hsecond, ?_⟩
          rw [← Except.ok.inj h]
          push_cast
          rfl
  · rintro ⟨secs, val, mul, hinteger, hval, hmul, hsecond, rfl⟩
    have hless := hproduct hval hmul
    have hmod : val * mul % 2 ^ 32 = val * mul := Nat.mod_eq_of_lt (by omega)
    have hdiv : (secs * 1000000000 + ((val * mul : Nat) : Int)) / 1000000000 = secs := by omega
    simp only [parseI64_eq_some.mpr hinteger, hval, hmul, Option.elim_some, bind, Except.bind, hmod,
      Calendar.fromUnixTimestampNanos, hdiv, hsecond, if_true]
    push_cast
    rfl

theorem parse_whole {s : Bytes} (h : 46 ∉ s) {nanos : Int}
    (hparse : Timestamp.parse calendar .epochSeconds s = .ok nanos) :
    ∃ secs, IsInteger s secs ∧ nanos = secs * 1000000000 := by
  have hsplit : Text.splitOnce 46 s = none := by
    cases hsplit : Text.splitOnce 46 s with
    | none => rfl
    | some r =>
      have hs := (Text.splitOnce_eq_some hsplit).1
      exact absurd (by simp [hs]) h
  simp only [Timestamp.parse, hsplit] at hparse
  cases hsecs : parseI64 s with
  | none => simp [hsecs, bind, Except.bind] at hparse
  | some secs =>
    simp only [hsecs, Option.elim_some, bind, Except.bind, Calendar.fromUnixTimestamp] at hparse
    split_ifs at hparse
    exact ⟨secs, parseI64_eq_some.mp hsecs, (Except.ok.inj hparse).symm⟩

/-- A signed fraction is read, as if its sign were a digit. -/
theorem parse_signedFraction {s : Bytes} (h : HasSignedFraction calendar s) :
    ∃ nanos, Timestamp.parse calendar .epochSeconds s = .ok nanos := by
  obtain ⟨whole, digits, secs, rfl, hinteger, hne, hlength, hdigits, hsecond⟩ := h
  have hsmall : Text.valueOf 10 digits < 2 ^ 32 := by
    calc Text.valueOf 10 digits < 10 ^ digits.length := valueOf_lt hdigits
      _ ≤ 10 ^ 8 := Nat.pow_le_pow_right (by decide) hlength
      _ < 2 ^ 32 := by decide
  have hval : parseU32Radix 10 (43 :: digits) = some (Text.valueOf 10 digits) := by
    have hall : (digits.any fun c => !Text.isRadixDigit 10 c) = false := by
      rw [List.any_eq_false]
      intro c hc
      simp [hdigits c hc]
    simp only [parseU32Radix, List.head?_cons, if_true, List.tail_cons,
      List.isEmpty_eq_false_iff.mpr hne, hall, Bool.or_self, Bool.false_eq_true, if_false, if_pos hsmall]
  have hscale : ∃ mul, fractionScale (43 :: digits).length = some mul := by
    have hpos : 0 < digits.length := List.length_pos_iff.mpr hne
    rw [List.length_cons]
    generalize digits.length = n at hlength hpos
    interval_cases n <;> exact ⟨_, rfl⟩
  obtain ⟨mul, hmul⟩ := hscale
  exact ⟨_, (parse_fraction hinteger.no_dot).mpr ⟨secs, _, mul, hinteger, hval, hmul, hsecond, rfl⟩⟩

/-- A text is read as an instant only if it is one, and exactly, unless its fraction has a sign. The product
of a fraction and its scale is always one of 32 bits. -/
theorem epochSeconds_exact_iff (calendar : Calendar) (s : Bytes) :
    ((∀ nanos, Timestamp.parse calendar .epochSeconds s = .ok nanos → IsInstant s nanos) ↔
      ¬HasSignedFraction calendar s) ∧
    ∀ frac val mul, parseU32Radix 10 frac = some val → fractionScale frac.length = some mul →
      val * mul < 2 ^ 32 := by
  refine ⟨⟨?_, ?_⟩, ?_⟩
  · intro h hsigned
    obtain ⟨nanos, hparse⟩ := parse_signedFraction hsigned
    have hinstant := h nanos hparse
    obtain ⟨whole, digits, secs, rfl, hinteger, -⟩ := hsigned
    exact not_isInstant_of_signed hinteger.no_dot hinstant
  · intro hsigned nanos hparse
    cases hsplit : Text.splitOnce 46 s with
    | none => exact Or.inl (parse_whole (Text.splitOnce_eq_none hsplit) hparse)
    | some r =>
      obtain ⟨whole, frac⟩ := r
      obtain ⟨rfl, hwhole⟩ := Text.splitOnce_eq_some hsplit
      obtain ⟨secs, val, mul, hinteger, hval, hmul, hsecond, rfl⟩ := (parse_fraction hwhole).mp hparse
      obtain ⟨digits, rfl | rfl, hne, hdigits, rfl⟩ := parseU32Radix_eq_some hval
      · obtain ⟨rfl, hpos, hnine, -⟩ := scaled_lt hdigits le_rfl hmul
        exact Or.inr ⟨whole, _, secs, rfl, hinteger, hpos, hnine, hdigits, by push_cast; rfl⟩
      · obtain ⟨-, -, hnine, -⟩ := scaled_lt hdigits (Nat.le_succ _) hmul
        refine absurd ⟨whole, digits, secs, rfl, hinteger, hne, ?_, hdigits, hsecond⟩ hsigned
        exact Nat.le_of_succ_le_succ hnine
  · intro frac val mul hval hmul
    obtain ⟨digits, hsign, -, hdigits, rfl⟩ := parseU32Radix_eq_some hval
    have hlength : digits.length ≤ frac.length := by
      rcases hsign with rfl | rfl <;> simp
    have hproduct := (scaled_lt hdigits hlength hmul).2.2.2
    omega

/-- The years 0 to 9999, in seconds since the epoch. -/
def gregorian : Calendar :=
  ⟨fun _ => none, fun _ => none, fun secs => -62167219200 ≤ secs && secs ≤ 253402300799⟩

/-- `1.+5` is read as fifty milliseconds behind the first second. -/
theorem signed_fraction_read :
    Timestamp.parse gregorian .epochSeconds (ascii "1.+5") = .ok 1050000000 ∧
      ¬(∀ nanos, Timestamp.parse gregorian .epochSeconds (ascii "1.+5") = .ok nanos →
        IsInstant (ascii "1.+5") nanos) := by
  have hparse : Timestamp.parse gregorian .epochSeconds (ascii "1.+5") = .ok 1050000000 := by decide
  have hno : 46 ∉ ascii "1" := by decide
  exact ⟨hparse, fun h => not_isInstant_of_signed hno (h _ hparse)⟩

end EpochSeconds

end S3s.Dto
