import Mathlib.Data.List.Flatten
import Mathlib.Tactic.Common
import S3s.Library.Trim

/-! # Words

A list cut at its separators, without the empty parts. Separators at the ends do not
matter, nor how many stand in a row.
-/
namespace S3s.Words

variable {α : Type} (p : α → Bool)

/-- The parts between the separators that are not empty. -/
def words (l : List α) : List (List α) := (l.splitOnP p).filter fun word => !word.isEmpty

/-- A word is not empty and has no separator in it. -/
def IsWord (word : List α) : Prop := word ≠ [] ∧ ∀ c ∈ word, p c = false

variable {p}

@[simp] theorem words_nil : words p [] = [] := rfl

/-- A separator stands between the words on its two sides. -/
theorem words_append_cons {sep : α} (hsep : p sep = true) (l m : List α) :
    words p (l ++ sep :: m) = words p l ++ words p m := by
  rw [words, List.splitOnP_append_cons _ _ hsep, List.filter_append, words, words]

theorem words_cons_separator {sep : α} (hsep : p sep = true) (l : List α) :
    words p (sep :: l) = words p l := by
  simpa using words_append_cons hsep [] l

theorem words_concat_separator {sep : α} (hsep : p sep = true) (l : List α) :
    words p (l ++ [sep]) = words p l := by
  simpa using words_append_cons hsep l []

/-- A list without separators is one word. -/
theorem words_of_isWord {word : List α} (h : IsWord p word) : words p word = [word] := by
  rw [words, List.splitOnP_eq_singleton h.2, List.filter_cons_of_pos, List.filter_nil]
  simp [h.1]

theorem words_dropWhile (l : List α) : words p (l.dropWhile p) = words p l := by
  induction l with
  | nil => rfl
  | cons c l ih =>
    by_cases hc : p c = true
    · rw [List.dropWhile_cons_of_pos hc, ih, words_cons_separator hc]
    · rw [List.dropWhile_cons_of_neg hc]

theorem words_rdropWhile (l : List α) : words p (l.rdropWhile p) = words p l := by
  induction l using List.reverseRecOn with
  | nil => rw [List.rdropWhile_nil]
  | append_singleton l c ih =>
    by_cases hc : p c = true
    · rw [List.rdropWhile_concat_pos _ _ _ hc, ih, words_concat_separator hc]
    · rw [List.rdropWhile_concat_neg _ _ _ hc]

/-- Trimming takes no word away. -/
theorem words_trim (l : List α) : words p (Trim.trim p l) = words p l := by
  rw [Trim.trim, words_rdropWhile, words_dropWhile]

/-- The words between a separator are found again. -/
theorem words_intercalate {sep : α} (hsep : p sep = true) {parts : List (List α)}
    (h : ∀ word ∈ parts, IsWord p word) : words p ([sep].intercalate parts) = parts := by
  induction parts with
  | nil => rfl
  | cons word parts ih =>
    have hword := words_of_isWord (h word List.mem_cons_self)
    cases parts with
    | nil => rw [List.intercalate_singleton, hword]
    | cons next parts =>
      rw [List.intercalate_cons_cons, List.append_assoc, List.singleton_append,
        words_append_cons hsep, hword, ih fun w hw => h w (List.mem_cons_of_mem _ hw),
        List.singleton_append]

/-- What is left between the separators. -/
theorem flatten_splitOnP (l : List α) : (l.splitOnP p).flatten = l.filter fun c => !p c := by
  induction l with
  | nil => simp
  | cons c l ih =>
    rw [List.splitOnP_cons_eq_if_modifyHead]
    cases hc : p c with
    | true => simp [hc, ih]
    | false =>
      obtain ⟨part, parts, hparts⟩ := List.exists_cons_of_ne_nil (List.splitOnP_ne_nil p l)
      rw [hparts] at ih ⊢
      simp only [Bool.false_eq_true, if_false, List.modifyHead_cons, List.flatten_cons,
        List.cons_append, List.filter_cons, hc, Bool.not_false, if_true] at ih ⊢
      rw [ih]

theorem flatten_words (l : List α) : (words p l).flatten = l.filter fun c => !p c := by
  rw [words, List.flatten_filter_not_isEmpty, flatten_splitOnP]

/-- No separator is in a part. -/
theorem not_separator_of_mem {l part : List α} (hpart : part ∈ l.splitOnP p) {c : α} (hc : c ∈ part) :
    p c = false := by
  have hmem : c ∈ l.filter fun c => !p c := by
    rw [← flatten_splitOnP]
    exact List.mem_flatten_of_mem hpart hc
  simpa using (List.mem_filter.mp hmem).2

theorem isWord_of_mem_words {l word : List α} (h : word ∈ words p l) : IsWord p word := by
  obtain ⟨hpart, hne⟩ := List.mem_filter.mp h
  exact ⟨by simpa using hne, fun c hc => not_separator_of_mem hpart hc⟩

end S3s.Words
