import S3s.Library.Bytes

/-! # Decimal numbers

The value of a run of digits, and the digits of a value.
-/
namespace S3s.Decimal

/-- The value of decimal digits. -/
def value (digits : Bytes) : Nat := digits.foldl (fun n c => n * 10 + (c.toNat - 48)) 0

/-- One digit or more, and nothing else. -/
def IsNumber (s : Bytes) : Prop := s ≠ [] ∧ s.all Bytes.isDigit = true

instance (s : Bytes) : Decidable (IsNumber s) := inferInstanceAs (Decidable (_ ∧ _))

section Digits

theorem toNat_ofNat_digit {c : Char} (h : c.isDigit = true) :
    (UInt8.ofNat c.toNat).toNat = c.toNat ∧ 48 ≤ c.toNat ∧ c.toNat ≤ 57 := by
  simp only [Char.isDigit, Bool.and_eq_true, decide_eq_true_eq] at h
  have hlow : 48 ≤ c.toNat := h.1
  have hhigh : c.toNat ≤ 57 := h.2
  refine ⟨?_, hlow, hhigh⟩
  rw [UInt8.toNat_ofNat']
  omega

theorem isDigit_of_mem_decimal {n : Nat} {c : UInt8} (h : c ∈ Bytes.decimal n) : Bytes.isDigit c = true := by
  obtain ⟨d, hd, rfl⟩ := List.mem_map.mp h
  obtain ⟨hval, hlow, hhigh⟩ := toNat_ofNat_digit (Nat.isDigit_of_mem_toDigits (by decide) (by decide) hd)
  simp only [Bytes.isDigit, Bool.and_eq_true, decide_eq_true_eq, UInt8.le_iff_toNat_le, hval]
  exact ⟨hlow, hhigh⟩

theorem isNumber_decimal (n : Nat) : IsNumber (Bytes.decimal n) := by
  constructor
  · simp [Bytes.decimal, Nat.toDigits_ne_nil]
  · exact List.all_eq_true.mpr fun c hc => isDigit_of_mem_decimal hc

/-- The digits of a number have its value. -/
@[simp] theorem value_decimal (n : Nat) : value (Bytes.decimal n) = n := by
  have hdigits (cs : List Char) (init : Nat) (hcs : ∀ c ∈ cs, c.isDigit = true) :
      (cs.map fun c => UInt8.ofNat c.toNat).foldl (fun n c => n * 10 + (c.toNat - 48)) init =
        Nat.ofDigitChars 10 cs init := by
    induction cs generalizing init with
    | nil => simp
    | cons c cs ih =>
      have hval := (toNat_ofNat_digit (hcs c List.mem_cons_self)).1
      rw [List.map_cons, List.foldl_cons, ih _ fun d hd => hcs d (List.mem_cons_of_mem _ hd), hval,
        Nat.ofDigitChars_cons, Nat.mul_comm]
      rfl
  rw [value, Bytes.decimal, hdigits _ _ fun c hc => Nat.isDigit_of_mem_toDigits (by decide) (by decide) hc,
    Nat.ofDigitChars_ten_toDigits]

end Digits

section Padded

theorem value_concat (s : Bytes) (c : UInt8) : value (s ++ [c]) = value s * 10 + (c.toNat - 48) := by
  rw [value, List.foldl_append, value]
  rfl

theorem value_lt {s : Bytes} (h : s.all Bytes.isDigit = true) : value s < 10 ^ s.length := by
  induction s using List.reverseRecOn with
  | nil => decide
  | append_singleton s c ih =>
    rw [List.all_append, Bool.and_eq_true] at h
    have hc : c.toNat ≤ 57 := by
      have hdigit := h.2
      simp only [List.all_cons, List.all_nil, Bool.and_true, Bytes.isDigit, Bool.and_eq_true,
        decide_eq_true_eq] at hdigit
      exact UInt8.le_iff_toNat_le.mp hdigit.2
    have hs := ih h.1
    rw [value_concat, List.length_append, List.length_singleton, Nat.pow_succ]
    omega

/-- Digits of one length are determined by their value. -/
theorem eq_of_value_eq {s t : Bytes} (hs : s.all Bytes.isDigit = true) (ht : t.all Bytes.isDigit = true)
    (hlength : s.length = t.length) (h : value s = value t) : s = t := by
  induction s using List.reverseRecOn generalizing t with
  | nil => exact (List.length_eq_zero_iff.mp hlength.symm).symm
  | append_singleton s c ih =>
    rcases List.eq_nil_or_concat t with rfl | ⟨t, d, rfl⟩
    · simp at hlength
    · rw [List.concat_eq_append] at ht hlength h ⊢
      have hlast : ∀ b : UInt8, [b].all Bytes.isDigit = true → 48 ≤ b.toNat ∧ b.toNat ≤ 57 := by
        intro b hb
        simp only [List.all_cons, List.all_nil, Bool.and_true, Bytes.isDigit, Bool.and_eq_true,
          decide_eq_true_eq, UInt8.le_iff_toNat_le] at hb
        exact hb
      rw [List.all_append, Bool.and_eq_true] at hs ht
      have hc := hlast c hs.2
      have hd := hlast d ht.2
      rw [value_concat, value_concat] at h
      have hvalue : value s = value t := by omega
      have hcd : c = d := UInt8.toNat_inj.mp (by omega)
      rw [ih hs.1 ht.1 (by simpa using hlength) hvalue, hcd]

theorem value_replicate_append (n : Nat) (s : Bytes) : value (List.replicate n 48 ++ s) = value s := by
  induction n with
  | zero => rw [List.replicate_zero, List.nil_append]
  | succ n ih =>
    rw [List.replicate_succ, List.cons_append, ← ih]
    rfl

@[simp] theorem value_decimalPadded (width n : Nat) : value (Bytes.decimalPadded width n) = n := by
  rw [Bytes.decimalPadded, value_replicate_append, value_decimal]

theorem all_decimalPadded (width n : Nat) : (Bytes.decimalPadded width n).all Bytes.isDigit = true := by
  rw [Bytes.decimalPadded, List.all_append, (isNumber_decimal n).2, Bool.and_true, List.all_eq_true]
  intro c hc
  rw [List.eq_of_mem_replicate hc]
  decide

theorem length_decimalPadded {width n : Nat} (hwidth : 0 < width) (h : n < 10 ^ width) :
    (Bytes.decimalPadded width n).length = width := by
  have hdigits : (Bytes.decimal n).length ≤ width := by
    rw [Bytes.decimal, List.length_map]
    exact (Nat.length_toDigits_le_iff (by decide) hwidth).mpr h
  rw [Bytes.decimalPadded, List.length_append, List.length_replicate]
  omega

/-- Digits are what their value is padded to at their length. -/
theorem decimalPadded_value {s : Bytes} (h : IsNumber s) : Bytes.decimalPadded s.length (value s) = s := by
  have hlength := length_decimalPadded (List.length_pos_iff.mpr h.1) (value_lt h.2)
  exact eq_of_value_eq (all_decimalPadded _ _) h.2 hlength (value_decimalPadded _ _)

end Padded

section Leading

/-- The digits that a text starts with. -/
def leading (s : Bytes) : Bytes := s.takeWhile Bytes.isDigit

theorem leading_append {digits rest : Bytes} (hdigits : digits.all Bytes.isDigit = true)
    (hrest : ∀ c, rest.head? = some c → Bytes.isDigit c = false) : leading (digits ++ rest) = digits := by
  rw [leading, List.takeWhile_append_of_pos (List.all_eq_true.mp hdigits)]
  cases rest with
  | nil => simp
  | cons c rest =>
    rw [List.takeWhile_cons_of_neg (by simp [hrest c rfl]), List.append_nil]

theorem leading_of_digits {digits : Bytes} (hdigits : digits.all Bytes.isDigit = true) :
    leading digits = digits := by
  have hnone : ∀ c, ([] : Bytes).head? = some c → Bytes.isDigit c = false := fun c hc => by cases hc
  simpa using leading_append hdigits hnone

theorem all_leading (s : Bytes) : (leading s).all Bytes.isDigit = true :=
  List.all_eq_true.mpr fun _ hc => List.mem_takeWhile_imp hc

/-- A text is its leading digits and what is left of it. -/
theorem leading_append_drop (s : Bytes) : leading s ++ s.drop (leading s).length = s := by
  have hsplit : leading s ++ s.dropWhile Bytes.isDigit = s := List.takeWhile_append_dropWhile
  have hrest : s.drop (leading s).length = s.dropWhile Bytes.isDigit := by
    conv_lhs => rw [← hsplit]
    exact List.drop_left' (by rw [hsplit])
  rw [hrest, hsplit]

/-- A text with as many leading digits as bytes is all digits. -/
theorem all_of_length_leading {s : Bytes} (h : (leading s).length = s.length) :
    s.all Bytes.isDigit = true := by
  have heq : leading s = s := (List.takeWhile_prefix _).eq_of_length h
  rw [← heq]
  exact all_leading s

end Leading

end S3s.Decimal
