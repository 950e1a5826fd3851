import Mathlib.Data.List.TakeWhile
import Mathlib.Data.List.Basic
import Mathlib.Tactic.Common

/-! # Texts with delimiters

A text that is put together from parts and a delimiter none of them contains can
be taken apart again: two such texts are equal only when their parts are. The
same holds for a text written unit by unit in a code without prefixes.
-/
namespace S3s.Delimited

variable {α β : Type} {c : α}

theorem append_cons_inj {s₁ s₂ t₁ t₂ : List α} (h₁ : c ∉ s₁) (h₂ : c ∉ s₂)
    (h : s₁ ++ c :: t₁ = s₂ ++ c :: t₂) : s₁ = s₂ ∧ t₁ = t₂ := by
  induction s₁ generalizing s₂ with
  | nil =>
    cases s₂ with
    | nil => exact ⟨rfl, List.tail_eq_of_cons_eq h⟩
    | cons b s₂ =>
      have hb : c = b := List.head_eq_of_cons_eq h
      exact (h₂ (hb ▸ List.mem_cons_self)).elim
  | cons a s₁ ih =>
    cases s₂ with
    | nil =>
      have ha : a = c := List.head_eq_of_cons_eq h
      exact (h₁ (ha ▸ List.mem_cons_self)).elim
    | cons b s₂ =>
      obtain ⟨hab, htail⟩ := List.cons_eq_cons.mp h
      obtain ⟨hs, ht⟩ := ih (List.not_mem_of_not_mem_cons h₁) (List.not_mem_of_not_mem_cons h₂) htail
      exact ⟨by rw [hab, hs], ht⟩

/-- Two texts in front of a delimiter, or of nothing. -/
theorem append_inj_of_head {s₁ s₂ t₁ t₂ : List α} (h₁ : c ∉ s₁) (h₂ : c ∉ s₂)
    (ht₁ : t₁ = [] ∨ t₁.head? = some c) (ht₂ : t₂ = [] ∨ t₂.head? = some c)
    (h : s₁ ++ t₁ = s₂ ++ t₂) : s₁ = s₂ ∧ t₁ = t₂ := by
  have hcons : ∀ t : List α, t.head? = some c → ∃ rest, t = c :: rest := by
    intro t ht
    cases t with
    | nil => cases ht
    | cons b rest => exact ⟨rest, by simpa using ht⟩
  rcases ht₁ with rfl | ht₁ <;> rcases ht₂ with rfl | ht₂
  · simpa using h
  · obtain ⟨rest, rfl⟩ := hcons t₂ ht₂
    rw [List.append_nil] at h
    exact (h₁ (by simp [h])).elim
  · obtain ⟨rest, rfl⟩ := hcons t₁ ht₁
    rw [List.append_nil] at h
    exact (h₂ (by simp [← h])).elim
  · obtain ⟨rest₁, rfl⟩ := hcons t₁ ht₁
    obtain ⟨rest₂, rfl⟩ := hcons t₂ ht₂
    obtain ⟨hs, ht⟩ := append_cons_inj h₁ h₂ h
    exact ⟨hs, by rw [ht]⟩

/-- Parts that are neither empty nor contain the delimiter. -/
def Plain (c : α) (parts : List (List α)) : Prop := ∀ s ∈ parts, s ≠ [] ∧ c ∉ s

theorem intercalate_eq_nil {parts : List (List α)} (h : Plain c parts)
    (hnil : [c].intercalate parts = []) : parts = [] := by
  cases parts with
  | nil => rfl
  | cons s parts =>
    have hs : s ≠ [] := (h s List.mem_cons_self).1
    cases parts with
    | nil =>
      rw [List.intercalate_singleton] at hnil
      exact (hs hnil).elim
    | cons t parts =>
      rw [List.intercalate_cons_cons, List.append_assoc] at hnil
      exact (hs (List.append_eq_nil_iff.mp hnil).1).elim

theorem intercalate_inj [DecidableEq α] {l₁ l₂ : List (List α)} (h₁ : Plain c l₁)
    (h₂ : Plain c l₂) (h : [c].intercalate l₁ = [c].intercalate l₂) : l₁ = l₂ := by
  by_cases hnil₁ : l₁ = []
  · subst hnil₁
    exact (intercalate_eq_nil h₂ h.symm).symm
  by_cases hnil₂ : l₂ = []
  · subst hnil₂
    exact intercalate_eq_nil h₁ h
  calc l₁ = ([c].intercalate l₁).splitOn c :=
        (List.splitOn_intercalate c (fun s hs => (h₁ s hs).2) hnil₁).symm
    _ = ([c].intercalate l₂).splitOn c := by rw [h]
    _ = l₂ := List.splitOn_intercalate c (fun s hs => (h₂ s hs).2) hnil₂

theorem mem_intercalate {b : α} {parts : List (List α)}
    (h : b ∈ [c].intercalate parts) : b = c ∨ ∃ s ∈ parts, b ∈ s := by
  induction parts with
  | nil => cases h
  | cons s parts ih =>
    cases parts with
    | nil => exact Or.inr ⟨s, List.mem_cons_self, by simpa [List.intercalate_singleton] using h⟩
    | cons t parts =>
      rw [List.intercalate_cons_cons, List.append_assoc, List.mem_append, List.mem_append,
        List.mem_singleton] at h
      rcases h with h | h | h
      · exact Or.inr ⟨s, List.mem_cons_self, h⟩
      · exact Or.inl h
      · rcases ih h with h | ⟨u, hu, hb⟩
        · exact Or.inl h
        · exact Or.inr ⟨u, List.mem_cons_of_mem s hu, hb⟩

theorem intercalate_cons_eq_flatMap (c : α) (s : List α) (parts : List (List α)) :
    [c].intercalate (s :: parts) = s ++ parts.flatMap fun t => c :: t := by
  induction parts generalizing s with
  | nil => simp [List.intercalate_singleton]
  | cons t parts ih => rw [List.intercalate_cons_cons, ih t]; simp

/-- Lines, each with the delimiter behind it. -/
def block (c : α) (lines : List (List α)) : List α := lines.flatMap fun line => line ++ [c]

@[simp] theorem block_nil : block c [] = [] := rfl

@[simp] theorem block_cons (line : List α) (lines : List (List α)) :
    block c (line :: lines) = line ++ c :: block c lines := by
  simp [block]

/-- A block that is closed by an empty line ends there. -/
theorem block_inj {l₁ l₂ : List (List α)} {t₁ t₂ : List α} (h₁ : Plain c l₁) (h₂ : Plain c l₂)
    (h : block c l₁ ++ c :: t₁ = block c l₂ ++ c :: t₂) : l₁ = l₂ ∧ t₁ = t₂ := by
  induction l₁ generalizing l₂ with
  | nil =>
    cases l₂ with
    | nil => exact ⟨rfl, List.tail_eq_of_cons_eq h⟩
    | cons line l₂ =>
      have hline := h₂ line List.mem_cons_self
      rw [block_cons, List.append_assoc, List.cons_append] at h
      have hsplit := append_cons_inj List.not_mem_nil hline.2 h
      exact (hline.1 hsplit.1.symm).elim
  | cons line l₁ ih =>
    have hline := h₁ line List.mem_cons_self
    rw [block_cons, List.append_assoc, List.cons_append] at h
    cases l₂ with
    | nil =>
      have hsplit := append_cons_inj hline.2 List.not_mem_nil h
      exact (hline.1 hsplit.1).elim
    | cons line' l₂ =>
      rw [block_cons, List.append_assoc, List.cons_append] at h
      obtain ⟨hhead, htail⟩ := append_cons_inj hline.2 (h₂ line' List.mem_cons_self).2 h
      obtain ⟨hlines, ht⟩ := ih (fun s hs => h₁ s (List.mem_cons_of_mem _ hs))
        (fun s hs => h₂ s (List.mem_cons_of_mem _ hs)) htail
      exact ⟨by rw [hhead, hlines], ht⟩

/-- A block of lines that all begin with one character ends in front of a text that does not. -/
theorem block_append_inj {a : α} {l₁ l₂ : List (List α)} {t₁ t₂ : List α}
    (h₁ : ∀ s ∈ l₁, s.head? = some a ∧ c ∉ s) (h₂ : ∀ s ∈ l₂, s.head? = some a ∧ c ∉ s)
    (ht₁ : t₁.head? ≠ some a) (ht₂ : t₂.head? ≠ some a)
    (h : block c l₁ ++ t₁ = block c l₂ ++ t₂) : l₁ = l₂ ∧ t₁ = t₂ := by
  have hhead : ∀ (line : List α) (lines : List (List α)) (t : List α), line.head? = some a →
      (block c (line :: lines) ++ t).head? = some a := by
    intro line lines t hline
    cases line with
    | nil => cases hline
    | cons b line => simpa using hline
  induction l₁ generalizing l₂ with
  | nil =>
    cases l₂ with
    | nil => exact ⟨rfl, h⟩
    | cons line l₂ =>
      have hline := hhead line l₂ t₂ (h₂ line List.mem_cons_self).1
      rw [← h] at hline
      exact (ht₁ hline).elim
  | cons line l₁ ih =>
    have hline := h₁ line List.mem_cons_self
    cases l₂ with
    | nil =>
      have hline := hhead line l₁ t₁ hline.1
      rw [h] at hline
      exact (ht₂ hline).elim
    | cons line' l₂ =>
      rw [block_cons, block_cons, List.append_assoc, List.append_assoc, List.cons_append,
        List.cons_append] at h
      obtain ⟨hfirst, hrest⟩ := append_cons_inj hline.2 (h₂ line' List.mem_cons_self).2 h
      obtain ⟨hlines, ht⟩ := ih (fun s hs => h₁ s (List.mem_cons_of_mem _ hs))
        (fun s hs => h₂ s (List.mem_cons_of_mem _ hs)) hrest
      exact ⟨by rw [hfirst, hlines], ht⟩

/-- Where a list is cut at the first element that is not of a kind. -/
theorem span_iff {p : α → Bool} {s part rest : List α} :
    (s.takeWhile p = part ∧ s.dropWhile p = rest) ↔
      s = part ++ rest ∧ (∀ c ∈ part, p c = true) ∧ ∀ c ∈ rest.head?, p c = false := by
  constructor
  · rintro ⟨rfl, rfl⟩
    refine ⟨List.takeWhile_append_dropWhile.symm, fun c hc => List.mem_takeWhile_imp hc, ?_⟩
    intro c hc
    have hnot := List.head?_dropWhile_not p s
    rw [Option.mem_def.mp hc] at hnot
    simpa using hnot
  · rintro ⟨rfl, hpart, hrest⟩
    rw [List.takeWhile_append_of_pos hpart, List.dropWhile_append_of_pos hpart]
    cases rest with
    | nil => simp
    | cons c rest =>
      have hc : ¬p c = true := by simp [hrest c rfl]
      rw [List.takeWhile_cons_of_neg hc, List.dropWhile_cons_of_neg hc, List.append_nil]
      exact ⟨rfl, rfl⟩

theorem mem_of_mem_splitOnP {p : α → Bool} {l part : List α} {a : α}
    (hpart : part ∈ l.splitOnP p) (ha : a ∈ part) : a ∈ l := by
  induction l generalizing part with
  | nil =>
    rw [List.splitOnP_nil, List.mem_singleton] at hpart
    rwa [hpart] at ha
  | cons x l ih =>
    rw [List.splitOnP_cons_eq_if_modifyHead] at hpart
    split at hpart
    · rcases List.mem_cons.mp hpart with rfl | hpart
      · cases ha
      · exact List.mem_cons_of_mem x (ih hpart ha)
    · cases hparts : l.splitOnP p with
      | nil => simp [hparts] at hpart
      | cons first parts =>
        rw [hparts, List.modifyHead_cons, List.mem_cons] at hpart
        rcases hpart with rfl | hpart
        · rcases List.mem_cons.mp ha with rfl | ha
          · exact List.mem_cons_self
          · exact List.mem_cons_of_mem x (ih (hparts ▸ List.mem_cons_self) ha)
        · exact List.mem_cons_of_mem x (ih (hparts ▸ List.mem_cons_of_mem _ hpart) ha)

/-- Parts that were rendered one by one are those of the rendered list. -/
theorem map_inj_of_inj {f : β → α} {l₁ l₂ : List β}
    (hf : ∀ a ∈ l₁, ∀ b ∈ l₂, f a = f b → a = b) (h : l₁.map f = l₂.map f) : l₁ = l₂ := by
  induction l₁ generalizing l₂ with
  | nil => exact (List.map_eq_nil_iff.mp h.symm).symm
  | cons a l₁ ih =>
    cases l₂ with
    | nil => cases h
    | cons b l₂ =>
      obtain ⟨hab, htail⟩ := List.cons_eq_cons.mp h
      have hhead : a = b := hf a List.mem_cons_self b List.mem_cons_self hab
      have hrest : l₁ = l₂ := ih (fun x hx y hy =>
        hf x (List.mem_cons_of_mem _ hx) y (List.mem_cons_of_mem _ hy)) htail
      rw [hhead, hrest]

/-- Code words of which none is empty and none is a prefix of another. -/
structure PrefixFree (code : β → List α) : Prop where
  ne_nil : ∀ b, code b ≠ []
  unique : ∀ b b' t t', code b ++ t = code b' ++ t' → b = b'

theorem PrefixFree.flatMap_injective {code : β → List α} (hcode : PrefixFree code) :
    Function.Injective fun s : List β => s.flatMap code := by
  intro s₁ s₂ h
  induction s₁ generalizing s₂ with
  | nil =>
    cases s₂ with
    | nil => rfl
    | cons b s₂ =>
      have hnil : code b ++ s₂.flatMap code = [] := h.symm
      exact (hcode.ne_nil b (List.append_eq_nil_iff.mp hnil).1).elim
  | cons a s₁ ih =>
    cases s₂ with
    | nil =>
      have hnil : code a ++ s₁.flatMap code = [] := h
      exact (hcode.ne_nil a (List.append_eq_nil_iff.mp hnil).1).elim
    | cons b s₂ =>
      have hcons : code a ++ s₁.flatMap code = code b ++ s₂.flatMap code := h
      have hab : a = b := hcode.unique a b _ _ hcons
      subst hab
      rw [ih (List.append_cancel_left hcons)]

end S3s.Delimited
