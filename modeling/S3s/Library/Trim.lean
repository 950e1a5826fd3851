import Mathlib.Data.List.DropRight
import Mathlib.Data.List.TakeWhile
import Mathlib.Tactic.Common

/-! # Trimming

What is left of a list when the elements of a kind are taken off at both ends.
-/
namespace S3s.Trim

variable {α : Type} (p : α → Bool)

/-- The list without the elements of the kind at its ends. -/
def trim (s : List α) : List α := (s.dropWhile p).rdropWhile p

variable {p}

@[simp] theorem trim_nil : trim p [] = [] := by simp [trim]

/-- Elements of the kind in front do not matter. -/
theorem trim_append_left {front : List α} (h : ∀ c ∈ front, p c = true) (s : List α) :
    trim p (front ++ s) = trim p s := by
  rw [trim, List.dropWhile_append_of_pos h, trim]

theorem rdropWhile_append_right {back : List α} (h : ∀ c ∈ back, p c = true) (s : List α) :
    (s ++ back).rdropWhile p = s.rdropWhile p := by
  induction back using List.reverseRecOn with
  | nil => rw [List.append_nil]
  | append_singleton back c ih =>
    rw [← List.append_assoc, List.rdropWhile_concat_pos _ _ _ (h c (by simp))]
    exact ih fun b hb => h b (List.mem_append_left _ hb)

/-- Elements of the kind at the end do not matter. -/
theorem trim_append_right {back : List α} (h : ∀ c ∈ back, p c = true) (s : List α) :
    trim p (s ++ back) = trim p s := by
  by_cases hall : ∀ c ∈ s, p c = true
  · have hnil : s.dropWhile p = [] := List.dropWhile_eq_nil_iff.mpr hall
    have hback : back.dropWhile p = [] := List.dropWhile_eq_nil_iff.mpr h
    rw [trim, trim, List.dropWhile_append_of_pos hall, hback, hnil]
  · have hcut : (s ++ back).dropWhile p = s.dropWhile p ++ back := by
      rw [List.dropWhile_append, if_neg]
      rw [List.isEmpty_iff, List.dropWhile_eq_nil_iff]
      exact hall
    rw [trim, trim, hcut, rdropWhile_append_right h]

theorem trim_sublist (s : List α) : (trim p s).Sublist s :=
  (List.rdropWhile_prefix p _).sublist.trans (List.dropWhile_sublist p)

theorem mem_of_mem_trim {s : List α} {c : α} (h : c ∈ trim p s) : c ∈ s := (trim_sublist s).subset h

/-- What is not of the kind stays. -/
theorem mem_trim_of_mem {s : List α} {c : α} (hc : p c = false) (h : c ∈ s) : c ∈ trim p s := by
  have hdrop : c ∈ s.dropWhile p := by
    rw [← List.takeWhile_append_dropWhile (p := p) (l := s), List.mem_append] at h
    rcases h with htake | hdrop
    · rw [List.mem_takeWhile_imp htake] at hc
      cases hc
    · exact hdrop
  rw [← List.rdropWhile_append_rtakeWhile (p := p) (l := s.dropWhile p), List.mem_append] at hdrop
  rcases hdrop with hkept | htaken
  · exact hkept
  · rw [List.mem_rtakeWhile_imp htaken] at hc
    cases hc

theorem dropWhile_append_cons {c : α} (hc : p c = false) (s t : List α) :
    (s ++ c :: t).dropWhile p = s.dropWhile p ++ c :: t := by
  induction s with
  | nil => simp [hc]
  | cons b s ih => by_cases hb : p b = true <;> simp [hb, ih]

theorem rdropWhile_append_cons {c : α} (hc : p c = false) (s t : List α) :
    (s ++ c :: t).rdropWhile p = s ++ c :: t.rdropWhile p := by
  simp [List.rdropWhile, dropWhile_append_cons hc]

/-- What stands around an element of another kind is trimmed on its own. -/
theorem trim_append_cons {c : α} (hc : p c = false) (s t : List α) :
    trim p (s ++ c :: t) = s.dropWhile p ++ c :: t.rdropWhile p := by
  rw [trim, dropWhile_append_cons hc, rdropWhile_append_cons hc]

@[simp] theorem trim_rdropWhile (s : List α) : trim p (s.rdropWhile p) = trim p s := by
  conv_rhs => rw [← List.rdropWhile_append_rtakeWhile (p := p) (l := s)]
  exact (trim_append_right (fun c hc => List.mem_rtakeWhile_imp hc) _).symm

@[simp] theorem trim_dropWhile (s : List α) : trim p (s.dropWhile p) = trim p s := by
  conv_rhs => rw [← List.takeWhile_append_dropWhile (p := p) (l := s)]
  exact (trim_append_left (fun c hc => List.mem_takeWhile_imp hc) _).symm

@[simp] theorem trim_trim (s : List α) : trim p (trim p s) = trim p s := by
  conv_lhs => arg 2; rw [trim]
  rw [trim_rdropWhile, trim_dropWhile]

/-- A trimmed list does not start with an element of the kind. -/
theorem head_of_trim_eq {c : α} {s : List α} (h : trim p (c :: s) = c :: s) : p c = false := by
  by_contra hc
  have hshort : trim p (c :: s) = trim p s := by
    have hfront : ∀ b ∈ [c], p b = true := by simpa using hc
    exact trim_append_left hfront s
  have hle := (trim_sublist (p := p) s).length_le
  rw [← hshort, h, List.length_cons] at hle
  omega

end S3s.Trim
