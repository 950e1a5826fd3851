import S3s.Library.Bytes

/-! # Characters of a UTF-8 text

A valid text is a sequence of characters, so that it can be cut where no continuation
byte stands.
-/
namespace S3s.Utf8

open Bytes

/-- A character: a byte that continues nothing, with the bytes that continue it. -/
structure IsChar (c : Bytes) : Prop where
  validUtf8_append : ∀ t, validUtf8 (c ++ t) = validUtf8 t
  shape : ∃ a tail, c = a :: tail ∧ isContinuation a = false ∧
    (∀ b ∈ tail, isContinuation b = true) ∧ tail.length ≤ 3

section Leads

variable {a b : UInt8}

theorem isContinuation_of_ascii (h : a < 0x80) : isContinuation a = false := by
  simp only [isContinuation, Bool.and_eq_false_iff, decide_eq_false_iff_not, UInt8.le_iff_toNat_le,
    UInt8.lt_iff_toNat_lt, UInt8.reduceToNat] at *
  omega

theorem lead2_spec (h : isLead2 a = true) : ¬a < 0x80 ∧ isContinuation a = false := by
  simp only [isLead2, isContinuation, Bool.and_eq_true, decide_eq_true_eq, Bool.and_eq_false_iff,
    decide_eq_false_iff_not, UInt8.le_iff_toNat_le, UInt8.lt_iff_toNat_lt, UInt8.reduceToNat] at *
  omega

theorem lead3_spec (h : isLead3 a b = true) :
    ¬a < 0x80 ∧ isLead2 a = false ∧ isContinuation a = false ∧ isContinuation b = true := by
  simp only [isLead2, isLead3, isContinuation, Bool.or_eq_true, Bool.and_eq_true, beq_iff_eq,
    decide_eq_true_eq, Bool.and_eq_false_iff, decide_eq_false_iff_not, UInt8.le_iff_toNat_le,
    UInt8.lt_iff_toNat_lt, ← UInt8.toNat_inj, UInt8.reduceToNat] at *
  omega

theorem lead4_spec (h : isLead4 a b = true) :
    ¬a < 0x80 ∧ isLead2 a = false ∧ isLead3 a b = false ∧ isContinuation a = false ∧
      isContinuation b = true := by
  simp only [isLead2, isLead3, isLead4, isContinuation, Bool.or_eq_true, Bool.and_eq_true,
    Bool.or_eq_false_iff, beq_iff_eq, beq_eq_false_iff_ne, ne_eq, decide_eq_true_eq,
    Bool.and_eq_false_iff, decide_eq_false_iff_not, UInt8.le_iff_toNat_le, UInt8.lt_iff_toNat_lt,
    ← UInt8.toNat_inj, UInt8.reduceToNat] at *
  omega

end Leads

theorem isChar_one {a : UInt8} (h : a < 0x80) : IsChar [a] where
  validUtf8_append t := validUtf8_cons_ascii a t h
  shape := ⟨a, [], rfl, isContinuation_of_ascii h, by simp, by simp⟩

theorem isChar_two {a b : UInt8} (ha : isLead2 a = true) (hb : isContinuation b = true) :
    IsChar [a, b] where
  validUtf8_append t := by
    obtain ⟨hascii, -⟩ := lead2_spec ha
    rw [List.cons_append, validUtf8.eq_def]
    simp [hascii, ha, hb]
  shape := ⟨a, [b], rfl, (lead2_spec ha).2, by simp [hb], by simp⟩

theorem isChar_three {a b c : UInt8} (ha : isLead3 a b = true) (hc : isContinuation c = true) :
    IsChar [a, b, c] where
  validUtf8_append t := by
    obtain ⟨hascii, h2, -, -⟩ := lead3_spec ha
    rw [List.cons_append, validUtf8.eq_def]
    simp [hascii, h2, ha, hc]
  shape := ⟨a, [b, c], rfl, (lead3_spec ha).2.2.1, by simp [(lead3_spec ha).2.2.2, hc], by simp⟩

theorem isChar_four {a b c d : UInt8} (ha : isLead4 a b = true) (hc : isContinuation c = true)
    (hd : isContinuation d = true) : IsChar [a, b, c, d] where
  validUtf8_append t := by
    obtain ⟨hascii, h2, h3, -, -⟩ := lead4_spec ha
    rw [List.cons_append, validUtf8.eq_def]
    simp [hascii, h2, h3, ha, hc, hd]
  shape := ⟨a, [b, c, d], rfl, (lead4_spec ha).2.2.2.1, by simp [(lead4_spec ha).2.2.2.2, hc, hd],
    by simp⟩

/-- A valid text is empty or begins with a character. -/
theorem exists_isChar {s : Bytes} (h : validUtf8 s = true) (hs : s ≠ []) :
    ∃ c t, s = c ++ t ∧ IsChar c ∧ validUtf8 t = true := by
  rw [validUtf8.eq_def] at h
  cases s with
  | nil => exact (hs rfl).elim
  | cons a t =>
    dsimp only at h
    split_ifs at h with ha
    · exact ⟨[a], t, rfl, isChar_one ha, h⟩
    · cases t with
      | nil => cases h
      | cons b t =>
        dsimp only at h
        split_ifs at h with hb
        · rw [Bool.and_eq_true] at hb
          exact ⟨[a, b], t, rfl, isChar_two hb.1 hb.2, h⟩
        · cases t with
          | nil => cases h
          | cons c t =>
            dsimp only at h
            split_ifs at h with hc
            · rw [Bool.and_eq_true] at hc
              exact ⟨[a, b, c], t, rfl, isChar_three hc.1 hc.2, h⟩
            · cases t with
              | nil => cases h
              | cons d t =>
                simp only [Bool.and_eq_true] at h
                exact ⟨[a, b, c, d], t, rfl, isChar_four h.1.1.1 h.1.1.2 h.1.2, h.2⟩

/-- Induction on the characters of a valid text. -/
theorem validUtf8_induction {P : Bytes → Prop} (nil : P [])
    (char : ∀ c t, IsChar c → validUtf8 t = true → P t → P (c ++ t)) {s : Bytes}
    (h : validUtf8 s = true) : P s := by
  induction hn : s.length using Nat.strongRecOn generalizing s with
  | ind n ih =>
    by_cases hs : s = []
    · rw [hs]
      exact nil
    · obtain ⟨c, t, rfl, hc, ht⟩ := exists_isChar h hs
      obtain ⟨a, tail, rfl, -⟩ := hc.shape
      refine char _ t hc ht (ih t.length ?_ ht rfl)
      rw [← hn, List.length_append, List.length_cons]
      omega

/-- `str::is_char_boundary` -/
def isCharBoundary (s : Bytes) (index : Nat) : Bool :=
  index == 0 || index == s.length || (s[index]?).any fun b => !isContinuation b

/-- Inside a character there is no boundary. -/
theorem isCharBoundary_inside {c t : Bytes} (hc : IsChar c) {index : Nat} (hpos : 0 < index)
    (hlt : index < c.length) : isCharBoundary (c ++ t) index = false := by
  obtain ⟨a, tail, rfl, -, htail, -⟩ := hc.shape
  obtain ⟨k, rfl⟩ : ∃ k, index = k + 1 := ⟨index - 1, by omega⟩
  have hk : k < tail.length := by simpa using hlt
  have hget : ((a :: tail) ++ t)[k + 1]? = some tail[k] := by simp [List.getElem?_append_left, hk]
  have hlength : k + 1 ≠ ((a :: tail) ++ t).length := by
    rw [List.length_append]
    omega
  rw [isCharBoundary, hget, beq_false_of_ne hlength]
  simp [htail tail[k] (List.getElem_mem hk)]

/-- Behind a character the boundaries are those of what follows. -/
theorem isCharBoundary_behind {c t : Bytes} {k : Nat} (hk : 0 < k) :
    isCharBoundary (c ++ t) (c.length + k) = isCharBoundary t k := by
  have hget : (c ++ t)[c.length + k]? = t[k]? := by simp [List.getElem?_append_right]
  have hzero : c.length + k ≠ 0 := by omega
  have hlength : (c.length + k == (c ++ t).length) = (k == t.length) := by
    simp
  rw [isCharBoundary, isCharBoundary, hget, hlength, beq_false_of_ne hzero,
    beq_false_of_ne (Nat.ne_of_gt hk)]

/-- A valid text cut at a boundary is two valid texts. -/
theorem validUtf8_take_drop {s : Bytes} (h : validUtf8 s = true) {index : Nat}
    (hindex : isCharBoundary s index = true) :
    validUtf8 (s.take index) = true ∧ validUtf8 (s.drop index) = true := by
  revert index
  refine validUtf8_induction (P := fun s => ∀ {index}, isCharBoundary s index = true →
    validUtf8 (s.take index) = true ∧ validUtf8 (s.drop index) = true) ?_ ?_ h
  · simp [validUtf8]
  · intro c t hc ht ih index hindex
    by_cases hzero : index = 0
    · subst hzero
      exact ⟨rfl, (hc.validUtf8_append t).trans ht⟩
    · by_cases hlt : index < c.length
      · rw [isCharBoundary_inside hc (Nat.pos_of_ne_zero hzero) hlt] at hindex
        cases hindex
      · obtain ⟨k, rfl⟩ : ∃ k, index = c.length + k := ⟨index - c.length, by omega⟩
        rw [List.take_length_add_append, List.drop_length_add_append, hc.validUtf8_append]
        by_cases hk : k = 0
        · subst hk
          exact ⟨rfl, ht⟩
        · rw [isCharBoundary_behind (Nat.pos_of_ne_zero hk)] at hindex
          exact ih hindex

/-- A valid text that is not empty does not begin with a continuation byte. -/
theorem isCharBoundary_length {c t : Bytes} (ht : validUtf8 t = true) :
    isCharBoundary (c ++ t) c.length = true := by
  by_cases hs : t = []
  · subst hs
    simp [isCharBoundary]
  · obtain ⟨d, u, rfl, hd, -⟩ := exists_isChar ht hs
    obtain ⟨a, tail, rfl, ha, -⟩ := hd.shape
    simp [isCharBoundary, ha]

/-- Behind a valid text a text is as valid as alone. -/
theorem validUtf8_append {s : Bytes} (h : validUtf8 s = true) (t : Bytes) :
    validUtf8 (s ++ t) = validUtf8 t := by
  refine validUtf8_induction (P := fun s => validUtf8 (s ++ t) = validUtf8 t) rfl ?_ h
  intro c u hc _ ih
  rw [List.append_assoc, hc.validUtf8_append, ih]

/-- An ASCII character cuts a valid text into two valid ones. -/
theorem validUtf8_of_append_ascii {s t : Bytes} {a : UInt8} (ha : a < 0x80)
    (h : validUtf8 (s ++ a :: t) = true) : validUtf8 s = true ∧ validUtf8 t = true := by
  have hboundary : isCharBoundary (s ++ a :: t) s.length = true := by
    simp [isCharBoundary, isContinuation_of_ascii ha]
  obtain ⟨hs, ht⟩ := validUtf8_take_drop h hboundary
  rw [List.take_left' rfl] at hs
  rw [List.drop_left' rfl, validUtf8_cons_ascii a t ha] at ht
  exact ⟨hs, ht⟩

/-- A text that is not empty has a boundary behind its first character. -/
theorem exists_boundary {s : Bytes} (h : validUtf8 s = true) (hs : s ≠ []) :
    ∃ index, 0 < index ∧ index ≤ 4 ∧ index ≤ s.length ∧ isCharBoundary s index = true := by
  obtain ⟨c, t, rfl, hc, ht⟩ := exists_isChar h hs
  obtain ⟨a, tail, rfl, -, -, htail⟩ := hc.shape
  refine ⟨(a :: tail).length, by simp, ?_, by simp, isCharBoundary_length ht⟩
  rw [List.length_cons]
  omega

end S3s.Utf8
