import S3s.Library.Decimal

/-! # The range of a request

`Range`: how it is read from a header, and which bytes of an object it selects. The
reader of numbers of the crate `atoi` is a parameter, what it is relied on for is
`ReadsDigits`.
-/
namespace S3s.Http
open Decimal

/-- `Range` -/
inductive Range where
  | int (first : Nat) (last : Option Nat)
  | suffix (length : Nat)
deriving DecidableEq

namespace Range

/-- `Range::check`: the first position, and the one behind the last. -/
def check (range : Range) (fullLength : Nat) : Option (Nat × Nat) :=
  match range with
  | int first last =>
    if fullLength ≤ first then none
    else
      match last with
      | some last =>
        let last := min last (fullLength - 1)
        if last < first then none else some (first, last + 1)
      | none => some (first, fullLength)
  | suffix length =>
    if length = 0 then none
    else
      let length := min length fullLength
      some (fullLength - length, fullLength)

/-- What is selected lies in the object. -/
theorem check_le {range : Range} {fullLength a b : Nat} (h : range.check fullLength = some (a, b)) :
    a ≤ b ∧ b ≤ fullLength := by
  cases range with
  | int first last =>
    simp only [check] at h
    split_ifs at h with hfirst
    cases last with
    | none =>
      obtain ⟨rfl, rfl⟩ := Prod.mk.inj (Option.some.inj h)
      omega
    | some last =>
      dsimp only at h
      split_ifs at h with hlast
      obtain ⟨rfl, rfl⟩ := Prod.mk.inj (Option.some.inj h)
      omega
  | suffix length =>
    simp only [check] at h
    split_ifs at h with hlength
    obtain ⟨rfl, rfl⟩ := Prod.mk.inj (Option.some.inj h)
    omega

section Arithmetic

/-- A sum of type `u64`, unless it overflows. -/
def addU64 (a b : Nat) : Option Nat := if a + b < 2 ^ 64 then some (a + b) else none

/-- A difference of type `u64`, unless it underflows. -/
def subU64 (a b : Nat) : Option Nat := if b ≤ a then some (a - b) else none

/-- `Range::check` with the arithmetic of `u64`: nothing where an operation fails. -/
def checkU64 (range : Range) (fullLength : Nat) : Option (Option (Nat × Nat)) :=
  match range with
  | int first last =>
    if fullLength ≤ first then some none
    else
      match last with
      | some last => do
        let greatest ← subU64 fullLength 1
        let last := min last greatest
        if last < first then some none
        else
          let behind ← addU64 last 1
          some (some (first, behind))
      | none => some (some (first, fullLength))
  | suffix length =>
    if length = 0 then some none
    else do
      let length := min length fullLength
      let start ← subU64 fullLength length
      some (some (start, fullLength))

/-- The positions that a range selects of a representation: an int range those from the
first to the last, a suffix range the last so many. -/
def Selects (range : Range) (fullLength i : Nat) : Prop :=
  i < fullLength ∧
    match range with
    | int first last => first ≤ i ∧ ∀ n ∈ last, i ≤ n
    | suffix length => fullLength ≤ i + length

/-- A range that no position of a representation can meet. -/
def Unsatisfiable (range : Range) (fullLength : Nat) : Prop :=
  match range with
  | int first last => fullLength ≤ first ∨ ∃ n ∈ last, n < first
  | suffix length => length = 0

/-- No operation of the check overflows or underflows. -/
theorem checkU64_eq {range : Range} {fullLength : Nat} (hfull : fullLength < 2 ^ 64) :
    range.checkU64 fullLength = some (range.check fullLength) := by
  cases range with
  | int first last =>
    by_cases hfirst : fullLength ≤ first
    · simp [checkU64, check, hfirst]
    · cases last with
      | none => simp [checkU64, check, hfirst]
      | some last =>
        have hsub : subU64 fullLength 1 = some (fullLength - 1) := if_pos (by omega)
        have hadd : addU64 (min last (fullLength - 1)) 1 = some (min last (fullLength - 1) + 1) :=
          if_pos (by omega)
        simp only [checkU64, check, if_neg hfirst, hsub, hadd, Option.bind_eq_bind, Option.bind_some]
        split_ifs <;> rfl
  | suffix length =>
    have hsub : subU64 fullLength (min length fullLength) = some (fullLength - min length fullLength) :=
      if_pos (Nat.min_le_right _ _)
    by_cases hlength : length = 0 <;> simp [checkU64, check, hlength, hsub]

/-- What the check gives is what the range selects. -/
theorem mem_check_iff {range : Range} {fullLength a b : Nat} (h : range.check fullLength = some (a, b))
    (i : Nat) : (a ≤ i ∧ i < b) ↔ range.Selects fullLength i := by
  cases range with
  | int first last =>
    simp only [check] at h
    split_ifs at h with hfirst
    cases last with
    | none =>
      obtain ⟨rfl, rfl⟩ := Prod.mk.inj (Option.some.inj h)
      simp only [Selects, Option.not_mem_none, false_implies, implies_true, and_true]
      exact and_comm
    | some last =>
      dsimp only at h
      split_ifs at h with hlast
      obtain ⟨rfl, rfl⟩ := Prod.mk.inj (Option.some.inj h)
      simp only [Selects, Option.mem_some_iff, forall_eq']
      omega
  | suffix length =>
    simp only [check] at h
    split_ifs at h with hlength
    obtain ⟨rfl, rfl⟩ := Prod.mk.inj (Option.some.inj h)
    simp only [Selects]
    omega

theorem check_eq_none_iff {range : Range} {fullLength : Nat} :
    range.check fullLength = none ↔ range.Unsatisfiable fullLength := by
  cases range with
  | int first last =>
    by_cases hfirst : fullLength ≤ first
    · simp [check, Unsatisfiable, hfirst]
    · cases last with
      | none => simp [check, Unsatisfiable, hfirst]
      | some last =>
        have hmin : min last (fullLength - 1) < first ↔ last < first := by omega
        by_cases hlast : last < first <;> simp [check, Unsatisfiable, hfirst, hmin, hlast]
  | suffix length => by_cases hlength : length = 0 <;> simp [check, Unsatisfiable, hlength]

/-- The check of a range is exact for every full length of type `u64`, and its arithmetic
never leaves that type: it fails on a range that cannot be met, and otherwise gives the
bounds of the selected positions. -/
theorem checkU64_exact {range : Range} {fullLength : Nat} (hfull : fullLength < 2 ^ 64) :
    range.checkU64 fullLength = some (range.check fullLength) ∧
      (range.check fullLength = none ↔ range.Unsatisfiable fullLength) ∧
      ∀ a b, range.check fullLength = some (a, b) →
        a ≤ b ∧ b ≤ fullLength ∧ ∀ i, (a ≤ i ∧ i < b) ↔ range.Selects fullLength i := by
  refine ⟨checkU64_eq hfull, check_eq_none_iff, ?_⟩
  intro a b h
  obtain ⟨hab, hb⟩ := check_le h
  exact ⟨hab, hb, mem_check_iff h⟩

theorem checkU64_exact_max :
    (int (2 ^ 64 - 2) (some (2 ^ 64 - 1))).checkU64 (2 ^ 64 - 1) =
        some (some (2 ^ 64 - 2, 2 ^ 64 - 1)) ∧
      ∀ i, (2 ^ 64 - 2 ≤ i ∧ i < 2 ^ 64 - 1) ↔
        (int (2 ^ 64 - 2) (some (2 ^ 64 - 1))).Selects (2 ^ 64 - 1) i := by
  have hmax : 2 ^ 64 - 1 < 2 ^ 64 := by decide
  obtain ⟨heq, -, hselects⟩ := @checkU64_exact (int (2 ^ 64 - 2) (some (2 ^ 64 - 1))) _ hmax
  exact ⟨heq.trans (by decide), (hselects _ _ (by decide)).2.2⟩

end Arithmetic

section Parsing

/-- What `from_radix_10_checked` of `atoi` is relied on for: it reads the digits at the
front, and gives their value unless it does not fit `u64`, and how many they are. -/
def ReadsDigits (fromRadix10Checked : Bytes → Option Nat × Nat) : Prop :=
  ∀ s, fromRadix10Checked s =
    (if value (leading s) < 2 ^ 64 then some (value (leading s)) else none, (leading s).length)

variable (fromRadix10Checked : Bytes → Option Nat × Nat)

/-- `parse_u64_full` -/
def parseU64Full (s : Bytes) : Option Nat :=
  match fromRadix10Checked s with
  | (some x, pos) => if pos = s.length then some x else none
  | (none, _) => none

/-- `parse_u64_once` -/
def parseU64Once (s : Bytes) : Option (Nat × Bytes) :=
  match fromRadix10Checked s with
  | (some x, pos) => if 0 < pos ∧ pos ≤ s.length then some (x, s.drop pos) else none
  | (none, _) => none

/-- `i64::MAX` -/
def maxI64 : Nat := 2 ^ 63 - 1

/-- What `Range::parse` makes of an int range. -/
def parseInt (s : Bytes) : Option Range :=
  match parseU64Once fromRadix10Checked s with
  | none => none
  | some (first, s) =>
    if maxI64 < first then none
    else
      match s with
      | 45 :: s =>
        if s = [] then some (int first none)
        else
          match parseU64Full fromRadix10Checked s with
          | none => none
          | some last =>
            if maxI64 < last then none else if last < first then none else some (int first (some last))
      | _ => none

/-- `Range::parse` -/
def parse (header : Bytes) : Option Range :=
  match header.dropPrefix? (ascii "bytes=") with
  | none => none
  | some (45 :: s) => (parseU64Full fromRadix10Checked s).map suffix
  | some s => parseInt fromRadix10Checked s

/-- `Range::to_header_string` -/
def toHeaderString : Range → Bytes
  | int first (some last) => ascii "bytes=" ++ Bytes.decimal first ++ ascii "-" ++ Bytes.decimal last
  | int first none => ascii "bytes=" ++ Bytes.decimal first ++ ascii "-"
  | suffix length => ascii "bytes=-" ++ Bytes.decimal length

end Parsing

section Grammar

/-- The grammar of an int range behind `bytes=`. -/
inductive IntSpec : Bytes → Range → Prop
  | toEnd (first : Bytes) (hfirst : IsNumber first) (hfits : value first ≤ maxI64) :
      IntSpec (first ++ [45]) (int (value first) none)
  | closed (first last : Bytes) (hfirst : IsNumber first) (hlast : IsNumber last)
      (hfits : value last ≤ maxI64) (hle : value first ≤ value last) :
      IntSpec (first ++ 45 :: last) (int (value first) (some (value last)))

/-- The grammar of a single range, with the range that each text of it denotes. -/
inductive RangeSpec : Bytes → Range → Prop
  | int {spec : Bytes} {range : Range} (h : IntSpec spec range) : RangeSpec (ascii "bytes=" ++ spec) range
  | suffix (length : Bytes) (hlength : IsNumber length) (hfits : value length < 2 ^ 64) :
      RangeSpec (ascii "bytes=" ++ 45 :: length) (suffix (value length))

variable {fromRadix10Checked : Bytes → Option Nat × Nat}

/-- A number at the end of a header is digits alone, possibly none at all. -/
theorem parseU64Full_eq_some (hreads : ReadsDigits fromRadix10Checked) {s : Bytes} {n : Nat} :
    parseU64Full fromRadix10Checked s = some n ↔
      s.all Bytes.isDigit = true ∧ value s < 2 ^ 64 ∧ value s = n := by
  by_cases hall : s.all Bytes.isDigit = true
  · by_cases hfits : value s < 2 ^ 64
    · simp only [parseU64Full, hreads s, leading_of_digits hall, if_pos hfits, if_true, Option.some.injEq]
      exact ⟨fun h => ⟨hall, hfits, h⟩, fun h => h.2.2⟩
    · simp only [parseU64Full, hreads s, leading_of_digits hall, if_neg hfits]
      exact ⟨(nomatch ·), fun h => absurd h.2.1 hfits⟩
  · have hlen : (leading s).length ≠ s.length := fun h => hall (all_of_length_leading h)
    have hnone : parseU64Full fromRadix10Checked s = none := by
      by_cases hfits : value (leading s) < 2 ^ 64
      · simp only [parseU64Full, hreads s, if_pos hfits, if_neg hlen]
      · simp only [parseU64Full, hreads s, if_neg hfits]
    simp [hnone, hall]

/-- A number in front is one digit or more, and the rest is what stands behind its digits. -/
theorem parseU64Once_eq_some (hreads : ReadsDigits fromRadix10Checked) {s rest : Bytes} {n : Nat} :
    parseU64Once fromRadix10Checked s = some (n, rest) ↔
      leading s ≠ [] ∧ value (leading s) < 2 ^ 64 ∧ value (leading s) = n ∧
        s.drop (leading s).length = rest := by
  have hpos : (0 < (leading s).length ∧ (leading s).length ≤ s.length) ↔ leading s ≠ [] := by
    rw [List.length_pos_iff]
    exact and_iff_left (List.takeWhile_prefix _).length_le
  by_cases hfits : value (leading s) < 2 ^ 64
  · simp only [parseU64Once, hreads s, if_pos hfits, hpos]
    by_cases hne : leading s = []
    · simp [hne]
    · rw [if_pos hne, Option.some.injEq, Prod.mk.injEq]
      exact ⟨fun h => ⟨hne, hfits, h⟩, fun h => h.2.2⟩
  · simp only [parseU64Once, hreads s, if_neg hfits]
    exact ⟨(nomatch ·), fun h => absurd h.2.1 hfits⟩

/-- The text of an int range, cut at the first byte that is no digit. -/
theorem leading_append_minus {digits : Bytes} (rest : Bytes) (h : digits.all Bytes.isDigit = true) :
    leading (digits ++ 45 :: rest) = digits := by
  apply leading_append h
  intro c hc
  obtain rfl : 45 = c := Option.some.inj hc
  rfl

theorem parseInt_of_spec (hreads : ReadsDigits fromRadix10Checked) {spec : Bytes} {range : Range}
    (h : IntSpec spec range) : parseInt fromRadix10Checked spec = some range := by
  have hfront (first rest : Bytes) (hfirst : IsNumber first) (hfits : value first ≤ maxI64) :
      parseU64Once fromRadix10Checked (first ++ 45 :: rest) = some (value first, 45 :: rest) := by
    rw [parseU64Once_eq_some hreads, leading_append_minus rest hfirst.2]
    refine ⟨hfirst.1, ?_, rfl, List.drop_left⟩
    have : maxI64 < 2 ^ 64 := by decide
    omega
  cases h with
  | toEnd first hfirst hfits =>
    have hnot : ¬maxI64 < value first := by omega
    simp [parseInt, hfront first [] hfirst hfits, hnot]
  | closed first last hfirst hlast hfits hle =>
    have hfull : parseU64Full fromRadix10Checked last = some (value last) := by
      rw [parseU64Full_eq_some hreads]
      refine ⟨hlast.2, ?_, rfl⟩
      have : maxI64 < 2 ^ 64 := by decide
      omega
    have hfirstFits : ¬maxI64 < value first := by omega
    have hlastFits : ¬maxI64 < value last := by omega
    have hordered : ¬value last < value first := by omega
    simp [parseInt, hfront first last hfirst (by omega), hfull, hfirstFits, hlastFits, hordered,
      hlast.1]

theorem spec_of_parseInt (hreads : ReadsDigits fromRadix10Checked) {s : Bytes} {range : Range}
    (h : parseInt fromRadix10Checked s = some range) : IntSpec s range := by
  unfold parseInt at h
  split at h
  · cases h
  · next first rest honce =>
    obtain ⟨hne, -, rfl, hrest⟩ := (parseU64Once_eq_some hreads).mp honce
    have hnumber : IsNumber (leading s) := ⟨hne, all_leading s⟩
    have hs : leading s ++ rest = s := by rw [← hrest, leading_append_drop]
    generalize leading s = digits at hnumber hs h
    subst hs
    split_ifs at h with hfirst
    split at h
    · next last =>
      split_ifs at h with hlast
      · cases h
        rw [hlast]
        exact IntSpec.toEnd _ hnumber (by omega)
      · split at h
        · cases h
        · next n hfull =>
          obtain ⟨hdigits, -, rfl⟩ := (parseU64Full_eq_some hreads).mp hfull
          split_ifs at h with hfits hle
          cases h
          exact IntSpec.closed _ _ hnumber ⟨hlast, hdigits⟩ (by omega) (by omega)
    · cases h

theorem parseInt_eq_some (hreads : ReadsDigits fromRadix10Checked) {s : Bytes} {range : Range} :
    parseInt fromRadix10Checked s = some range ↔ IntSpec s range :=
  ⟨spec_of_parseInt hreads, parseInt_of_spec hreads⟩

/-- An int range does not start with a minus. -/
theorem IntSpec.not_minus {s : Bytes} {range : Range} : ¬IntSpec (45 :: s) range := by
  intro h
  have hminus (first rest : Bytes) (hfirst : IsNumber first) : first ++ 45 :: rest ≠ 45 :: s := by
    cases first with
    | nil => exact absurd rfl hfirst.1
    | cons c first =>
      rintro heq
      obtain ⟨rfl, -⟩ := List.cons.inj heq
      exact absurd (List.all_eq_true.mp hfirst.2 45 List.mem_cons_self) (by decide)
  generalize hs : 45 :: s = text at h
  cases h with
  | toEnd first hfirst hfits => exact hminus first [] hfirst hs.symm
  | closed first last hfirst hlast hfits hle => exact hminus first last hfirst hs.symm

theorem dropBytes_eq_some {header s : Bytes} :
    header.dropPrefix? (ascii "bytes=") = some s ↔ header = ascii "bytes=" ++ s := by
  simp only [List.dropPrefix?_eq_some_iff, beq_iff_eq]
  constructor
  · rintro ⟨front, hheader, rfl⟩
    exact hheader
  · exact fun hheader => ⟨_, hheader, rfl⟩

theorem parse_suffix (length : Bytes) :
    parse fromRadix10Checked (ascii "bytes=" ++ 45 :: length) =
      (parseU64Full fromRadix10Checked length).map suffix := by
  simp [parse, dropBytes_eq_some.mpr rfl]

theorem parse_int {s : Bytes} (h : ∀ length, s ≠ 45 :: length) :
    parse fromRadix10Checked (ascii "bytes=" ++ s) = parseInt fromRadix10Checked s := by
  rw [parse, dropBytes_eq_some.mpr rfl]
  split
  · next heq => cases heq
  · next length heq => exact absurd (Option.some.inj heq) (h length)
  · next rest _ heq => rw [Option.some.inj heq]

theorem parse_of_spec (hreads : ReadsDigits fromRadix10Checked) {header : Bytes} {range : Range}
    (h : RangeSpec header range) : parse fromRadix10Checked header = some range := by
  cases h with
  | int h =>
    rw [parse_int]
    · exact parseInt_of_spec hreads h
    · rintro length rfl
      exact IntSpec.not_minus h
  | suffix length hlength hfits =>
    rw [parse_suffix, (parseU64Full_eq_some hreads).mpr ⟨hlength.2, hfits, rfl⟩, Option.map_some]

/-- The one text outside the grammar that is accepted has no digits in its suffix. -/
theorem spec_of_parse (hreads : ReadsDigits fromRadix10Checked) {header : Bytes} {range : Range}
    (hheader : header ≠ ascii "bytes=-") (h : parse fromRadix10Checked header = some range) :
    RangeSpec header range := by
  obtain ⟨s, rfl⟩ : ∃ s, header = ascii "bytes=" ++ s := by
    cases hdrop : header.dropPrefix? (ascii "bytes=") with
    | none => simp [parse, hdrop] at h
    | some s => exact ⟨s, dropBytes_eq_some.mp hdrop⟩
  by_cases hminus : ∃ length, s = 45 :: length
  · obtain ⟨length, rfl⟩ := hminus
    rw [parse_suffix, Option.map_eq_some_iff] at h
    obtain ⟨n, hfull, rfl⟩ := h
    obtain ⟨hdigits, hfits, rfl⟩ := (parseU64Full_eq_some hreads).mp hfull
    have hne : length ≠ [] := by
      rintro rfl
      exact hheader rfl
    exact RangeSpec.suffix length ⟨hne, hdigits⟩ hfits
  · rw [parse_int fun length heq => hminus ⟨length, heq⟩] at h
    exact RangeSpec.int (spec_of_parseInt hreads h)

theorem parse_empty_suffix (hreads : ReadsDigits fromRadix10Checked) :
    parse fromRadix10Checked (ascii "bytes=-") = some (suffix 0) := by
  rw [show ascii "bytes=-" = ascii "bytes=" ++ [45] from rfl, parse_suffix,
    (parseU64Full_eq_some hreads).mpr ⟨rfl, by decide, rfl⟩, Option.map_some]
  rfl

theorem not_rangeSpec_empty_suffix {range : Range} : ¬RangeSpec (ascii "bytes=-") range := by
  rw [show ascii "bytes=-" = ascii "bytes=" ++ [45] from rfl]
  generalize hheader : ascii "bytes=" ++ [45] = header
  intro h
  cases h with
  | int h =>
    obtain rfl := List.append_cancel_left hheader
    exact IntSpec.not_minus h
  | suffix length hlength hfits =>
    have heq := List.append_cancel_left hheader
    exact hlength.1 (List.cons.inj heq).2.symm

/-- A range that the grammar denotes is denoted by its own header. -/
theorem RangeSpec.toHeaderString {header : Bytes} {range : Range} (h : RangeSpec header range) :
    RangeSpec range.toHeaderString range := by
  have hnumber := isNumber_decimal
  cases h with
  | int h =>
    cases h with
    | toEnd first hfirst hfits =>
      have hspec := IntSpec.toEnd (Bytes.decimal (value first)) (hnumber _) (by simpa using hfits)
      rw [value_decimal] at hspec
      simpa [Range.toHeaderString, ascii] using RangeSpec.int hspec
    | closed first last hfirst hlast hfits hle =>
      have hspec := IntSpec.closed (Bytes.decimal (value first)) (Bytes.decimal (value last))
        (hnumber _) (hnumber _) (by simpa using hfits) (by simpa using hle)
      rw [value_decimal, value_decimal] at hspec
      simpa [Range.toHeaderString, ascii] using RangeSpec.int hspec
  | suffix length hlength hfits =>
    have hspec := RangeSpec.suffix (Bytes.decimal (value length)) (hnumber _) (by simpa using hfits)
    rw [value_decimal] at hspec
    simpa [Range.toHeaderString, ascii] using hspec

/-- What is accepted is read back from the header it is printed to. -/
theorem parse_toHeaderString (hreads : ReadsDigits fromRadix10Checked) {header : Bytes} {range : Range}
    (h : parse fromRadix10Checked header = some range) :
    parse fromRadix10Checked range.toHeaderString = some range := by
  by_cases hheader : header = ascii "bytes=-"
  · subst hheader
    obtain rfl := Option.some.inj ((parse_empty_suffix hreads).symm.trans h)
    exact parse_of_spec hreads (RangeSpec.suffix (ascii "0") (by decide) (by decide))
  · exact parse_of_spec hreads (spec_of_parse hreads hheader h).toHeaderString

/-- A header is read as the grammar of a single range says, and what is accepted printed
and read again, exactly for the headers that are not an empty suffix. -/
theorem parse_exact_iff (hreads : ReadsDigits fromRadix10Checked) (header : Bytes) :
    ((∀ range, parse fromRadix10Checked header = some range ↔ RangeSpec header range) ∧
        ∀ range, parse fromRadix10Checked header = some range →
          parse fromRadix10Checked range.toHeaderString = some range) ↔
      header ≠ ascii "bytes=-" := by
  constructor
  · rintro ⟨hexact, -⟩ rfl
    exact not_rangeSpec_empty_suffix ((hexact _).mp (parse_empty_suffix hreads))
  · intro hheader
    refine ⟨fun range => ⟨spec_of_parse hreads hheader, parse_of_spec hreads⟩, ?_⟩
    exact fun range => parse_toHeaderString hreads

/-- The reader of numbers itself. -/
def readDigits (s : Bytes) : Option Nat × Nat :=
  (if value (leading s) < 2 ^ 64 then some (value (leading s)) else none, (leading s).length)

theorem parse_exact_closed :
    parse readDigits (ascii "bytes=0-499") = some (int 0 (some 499)) ∧
      (∀ range, parse readDigits (ascii "bytes=0-499") = some range ↔
        RangeSpec (ascii "bytes=0-499") range) := by
  have hreads : ReadsDigits readDigits := fun _ => rfl
  have hexact := (parse_exact_iff hreads (ascii "bytes=0-499")).mpr (by decide)
  exact ⟨by decide, hexact.1⟩

theorem parse_accepts_empty_suffix :
    ReadsDigits readDigits ∧ parse readDigits (ascii "bytes=-") = some (suffix 0) ∧
      ¬∃ range, RangeSpec (ascii "bytes=-") range :=
  ⟨fun _ => rfl, by decide, fun ⟨_, h⟩ => not_rangeSpec_empty_suffix h⟩

end Grammar

end Range

end S3s.Http
