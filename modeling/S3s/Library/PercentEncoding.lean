import S3s.Library.Bytes

/-! # Percent-decoding

Escapes of two hexadecimal digits are read as the bytes they stand for. A percent sign
that begins no escape stands for itself, so decoding never fails, and leaves exactly
the texts as they are that have no escape.
-/
namespace S3s.PercentEncoding

open Bytes (hexVal)

/-- The text with its escapes read. -/
def decode : Bytes → Bytes
  | a :: b :: c :: s =>
    if a = 37 then
      match hexVal b, hexVal c with
      | some hi, some lo => (hi * 16 + lo) :: decode s
      | _, _ => a :: decode (b :: c :: s)
    else a :: decode (b :: c :: s)
  | s => s

/-- The text begins with an escape. -/
def BeginsEscape (s : Bytes) : Prop :=
  ∃ b c rest hi lo, s = 37 :: b :: c :: rest ∧ hexVal b = some hi ∧ hexVal c = some lo

/-- The text has an escape somewhere. -/
def HasEscape (s : Bytes) : Prop := ∃ before rest, s = before ++ rest ∧ BeginsEscape rest

variable {a b c : UInt8} {s t : Bytes}

@[simp] theorem decode_nil : decode [] = [] := rfl

theorem decode_escape {hi lo : UInt8} (hb : hexVal b = some hi) (hc : hexVal c = some lo) (s : Bytes) :
    decode (37 :: b :: c :: s) = (hi * 16 + lo) :: decode s := by
  rw [decode, if_pos rfl, hb, hc]

theorem decode_cons (h : ¬BeginsEscape (a :: s)) : decode (a :: s) = a :: decode s := by
  cases s with
  | nil => rfl
  | cons b s =>
    cases s with
    | nil => rfl
    | cons c s =>
      rw [decode]
      split_ifs with ha
      · subst ha
        split
        · next hi lo hb hc => exact absurd ⟨b, c, s, hi, lo, rfl, hb, hc⟩ h
        · rfl
      · rfl

theorem not_beginsEscape_of_ne (h : a ≠ 37) : ¬BeginsEscape (a :: s) := by
  rintro ⟨b, c, rest, hi, lo, heq, -⟩
  exact h (List.cons.inj heq).1

theorem decode_cons_of_ne (h : a ≠ 37) (s : Bytes) : decode (a :: s) = a :: decode s :=
  decode_cons (not_beginsEscape_of_ne h)

/-- A text without a percent sign is left as it is. -/
theorem decode_append_of_not_mem (h : 37 ∉ s) (t : Bytes) : decode (s ++ t) = s ++ decode t := by
  induction s with
  | nil => rfl
  | cons a s ih =>
    obtain ⟨ha, hs⟩ : 37 ≠ a ∧ 37 ∉ s := by simpa using h
    rw [List.cons_append, decode_cons_of_ne (Ne.symm ha), ih hs, List.cons_append]

/-- No escape runs over the beginning of a text that does not begin with a hexadecimal digit. -/
theorem beginsEscape_append (ht : ∀ d ∈ t.head?, hexVal d = none) :
    BeginsEscape (a :: s ++ t) ↔ BeginsEscape (a :: s) := by
  constructor
  · rintro ⟨b, c, rest, hi, lo, heq, hb, hc⟩
    rcases s with _ | ⟨y, _ | ⟨z, s⟩⟩
    · obtain ⟨-, rfl⟩ := List.cons.inj heq
      rw [ht b rfl] at hb
      cases hb
    · obtain ⟨-, heq⟩ := List.cons.inj heq
      obtain ⟨-, rfl⟩ := List.cons.inj heq
      rw [ht c rfl] at hc
      cases hc
    · simp only [List.cons_append, List.cons.injEq] at heq
      obtain ⟨rfl, rfl, rfl, -⟩ := heq
      exact ⟨y, z, s, hi, lo, rfl, hb, hc⟩
  · rintro ⟨b, c, rest, hi, lo, heq, hb, hc⟩
    exact ⟨b, c, rest ++ t, hi, lo, by rw [heq]; rfl, hb, hc⟩

theorem decode_append (ht : ∀ d ∈ t.head?, hexVal d = none) (s : Bytes) :
    decode (s ++ t) = decode s ++ decode t := by
  induction hn : s.length using Nat.strongRecOn generalizing s with
  | ind n ih =>
    subst hn
    cases s with
    | nil => rfl
    | cons a s =>
      by_cases h : BeginsEscape (a :: s)
      · obtain ⟨b, c, rest, hi, lo, heq, hb, hc⟩ := h
        have hless : rest.length < (a :: s).length := by
          rw [heq]
          simp only [List.length_cons]
          omega
        rw [heq, List.cons_append, List.cons_append, List.cons_append, decode_escape hb hc, decode_escape hb hc,
          ih rest.length hless rest rfl, List.cons_append]
      · rw [decode_cons h, List.cons_append, decode_cons (by rwa [← List.cons_append, beginsEscape_append ht]),
          ih s.length (by simp) s rfl, List.cons_append]

theorem length_decode_le (s : Bytes) : (decode s).length ≤ s.length := by
  induction hn : s.length using Nat.strongRecOn generalizing s with
  | ind n ih =>
    subst hn
    cases s with
    | nil => exact Nat.zero_le _
    | cons a s =>
      by_cases h : BeginsEscape (a :: s)
      · obtain ⟨b, c, rest, hi, lo, heq, hb, hc⟩ := h
        have hless : rest.length < (a :: s).length := by
          rw [heq]
          simp only [List.length_cons]
          omega
        have hrest := ih rest.length hless rest rfl
        rw [heq, decode_escape hb hc]
        simp only [List.length_cons]
        omega
      · have hrest := ih s.length (by simp) s rfl
        rw [decode_cons h, List.length_cons, List.length_cons]
        omega

theorem not_hasEscape_nil : ¬HasEscape [] := by
  rintro ⟨before, rest, heq, b, c, s, hi, lo, rfl, -⟩
  simp at heq

theorem hasEscape_cons : HasEscape (a :: s) ↔ BeginsEscape (a :: s) ∨ HasEscape s := by
  constructor
  · rintro ⟨before, rest, heq, hrest⟩
    cases before with
    | nil => exact Or.inl (heq ▸ hrest)
    | cons d before => exact Or.inr ⟨before, rest, (List.cons.inj heq).2, hrest⟩
  · rintro (hbegins | ⟨before, rest, rfl, hrest⟩)
    · exact ⟨[], _, rfl, hbegins⟩
    · exact ⟨a :: before, rest, rfl, hrest⟩

theorem hasEscape_append (ht : ∀ d ∈ t.head?, hexVal d = none) :
    HasEscape (s ++ t) ↔ HasEscape s ∨ HasEscape t := by
  induction s with
  | nil => simp [not_hasEscape_nil]
  | cons a s ih =>
    have hbegins := beginsEscape_append (a := a) (s := s) ht
    rw [List.cons_append] at hbegins ⊢
    rw [hasEscape_cons, hasEscape_cons, hbegins, ih, or_assoc]

theorem not_hasEscape_of_not_mem (h : 37 ∉ s) : ¬HasEscape s := by
  rintro ⟨before, rest, rfl, b, c, s, hi, lo, rfl, -⟩
  simp at h

/-- A text with an escape gets shorter. -/
theorem length_decode_lt (h : HasEscape s) : (decode s).length < s.length := by
  induction s with
  | nil => exact absurd h not_hasEscape_nil
  | cons a s ih =>
    by_cases hbegins : BeginsEscape (a :: s)
    · obtain ⟨b, c, rest, hi, lo, heq, hb, hc⟩ := hbegins
      have hrest := length_decode_le rest
      rw [heq, decode_escape hb hc]
      simp only [List.length_cons]
      omega
    · rw [decode_cons hbegins]
      exact Nat.succ_lt_succ (ih ((hasEscape_cons.mp h).resolve_left hbegins))

theorem decode_eq_self (h : ¬HasEscape s) : decode s = s := by
  induction s with
  | nil => rfl
  | cons a s ih =>
    rw [hasEscape_cons, not_or] at h
    rw [decode_cons h.1, ih h.2]

end S3s.PercentEncoding
