import Mathlib.Data.List.Basic
import Mathlib.Tactic.Common

/-! # Searching for a word

The first occurrence of a word in a text, and what is known about it when only a
beginning of the text has been seen: an occurrence that is found stays the first
one, and an occurrence that is yet to come starts in the last places, fewer than
the word is long.
-/
namespace S3s.Search

variable {α : Type}

/-- No occurrence of the word starts before the place `k`. -/
def NoneBefore (word text : List α) (k : Nat) : Prop := ∀ j < k, ¬ word <+: text.drop j

variable {word text more : List α} {i k : Nat}

theorem prefix_of_append {s t : List α} (hp : word <+: s ++ t) (hlen : word.length ≤ s.length) :
    word <+: s := by
  obtain ⟨rest, hrest⟩ := hp
  have htake := congrArg (List.take word.length) hrest
  rw [List.take_left' rfl, List.take_append_of_le_length hlen] at htake
  rw [htake]
  exact List.take_prefix _ _

theorem NoneBefore.mono (h : NoneBefore word text k) (hi : i ≤ k) : NoneBefore word text i :=
  fun j hj => h j (by omega)

theorem noneBefore_zero (word text : List α) : NoneBefore word text 0 := fun _ h => absurd h (by omega)

theorem noneBefore_cons {a : α} :
    NoneBefore word (a :: text) (k + 1) ↔ ¬ word <+: a :: text ∧ NoneBefore word text k := by
  constructor
  · intro h
    exact ⟨h 0 (by omega), fun j hj => h (j + 1) (by omega)⟩
  · rintro ⟨hhead, htail⟩ j hj
    cases j with
    | zero => exact hhead
    | succ j => exact htail j (by omega)

/-- Nothing starts before a place in a text that goes on, where nothing starts before it in the
part that has been seen and the occurrence would end within that part. -/
theorem NoneBefore.append (h : NoneBefore word text k) (hk : k + word.length ≤ text.length + 1) :
    NoneBefore word (text ++ more) k := by
  intro j hj hp
  rw [List.drop_append_of_le_length (by omega)] at hp
  refine h j hj (prefix_of_append hp ?_)
  rw [List.length_drop]
  omega

theorem NoneBefore.of_append (h : NoneBefore word (text ++ more) k) (hk : k ≤ text.length) :
    NoneBefore word text k := by
  intro j hj hp
  refine h j hj ?_
  rw [List.drop_append_of_le_length (by omega)]
  exact hp.trans (List.prefix_append _ _)

/-- An occurrence, letter by letter. -/
theorem getElem?_of_prefix_drop (hp : word <+: text.drop k) (hk : k ≤ i) (hi : i < k + word.length) :
    text[i]? = word[i - k]? := by
  obtain ⟨rest, hrest⟩ := hp
  have hget := congrArg (fun s => s[i - k]?) hrest
  simp only [List.getElem?_drop] at hget
  rw [List.getElem?_append_left (by omega), show k + (i - k) = i by omega] at hget
  exact hget.symm

/-- A word does not start where its first letter does not stand. -/
theorem noneBefore_of_not_mem {a : α} (ha : a ∉ text) :
    NoneBefore (a :: word) (text ++ more) text.length := by
  intro j hj hp
  have hget := getElem?_of_prefix_drop (i := j) hp (Nat.le_refl _) (by rw [List.length_cons]; omega)
  rw [Nat.sub_self, List.getElem?_cons_zero, List.getElem?_append_left hj] at hget
  exact ha (List.mem_of_getElem? hget)

/-- A word does not run over a separator that is none of its letters. -/
theorem noneBefore_append_cons {sep : α} (hsep : sep ∉ word) (hword : word ≠ []) (h : ¬word <:+: text) :
    NoneBefore word (text ++ sep :: more) (text.length + 1) := by
  intro j hj hp
  have hlength := List.length_pos_iff.mpr hword
  by_cases hend : j + word.length ≤ text.length
  · rw [List.drop_append_of_le_length (by omega)] at hp
    have hinside : word <+: text.drop j := by
      apply prefix_of_append hp
      rw [List.length_drop]
      omega
    exact h (hinside.isInfix.trans (List.drop_suffix _ _).isInfix)
  · have hget := getElem?_of_prefix_drop (i := text.length) hp (by omega) (by omega)
    rw [List.getElem?_append_right (Nat.le_refl _), Nat.sub_self, List.getElem?_cons_zero] at hget
    exact hsep (List.mem_of_getElem? hget.symm)

theorem infix_iff_exists_drop : word <:+: text ↔ ∃ j ≤ text.length, word <+: text.drop j := by
  constructor
  · rintro ⟨s, t, rfl⟩
    refine ⟨s.length, by simp, ?_⟩
    rw [List.append_assoc, List.drop_left' rfl]
    exact List.prefix_append _ _
  · rintro ⟨j, -, hp⟩
    exact hp.isInfix.trans (List.drop_suffix _ _).isInfix

/-- A word stands on one side of a separator that is none of its letters. -/
theorem infix_append_cons {sep : α} (hsep : sep ∉ word) (hword : word ≠ []) :
    word <:+: text ++ sep :: more ↔ word <:+: text ∨ word <:+: more := by
  constructor
  · intro h
    by_cases htext : word <:+: text
    · exact Or.inl htext
    · obtain ⟨j, -, hp⟩ := infix_iff_exists_drop.mp h
      by_cases hj : j < text.length + 1
      · exact absurd hp (noneBefore_append_cons hsep hword htext j hj)
      · obtain ⟨k, rfl⟩ : ∃ k, j = text.length + 1 + k := ⟨j - (text.length + 1), by omega⟩
        rw [Nat.add_assoc, List.drop_length_add_append, Nat.add_comm 1 k, List.drop_succ_cons] at hp
        exact Or.inr (hp.isInfix.trans (List.drop_suffix _ _).isInfix)
  · rintro (h | h)
    · exact h.trans (List.prefix_append _ _).isInfix
    · exact h.trans ((List.suffix_cons _ _).trans (List.suffix_append _ _)).isInfix

variable [DecidableEq α]

/-- The position of the first occurrence of a word. -/
def find (word : List α) : List α → Option Nat
  | [] => if word.isPrefixOf [] then some 0 else none
  | a :: text => if word.isPrefixOf (a :: text) then some 0 else (find word text).map (· + 1)

theorem find_eq_some : find word text = some i ↔
    i ≤ text.length ∧ word <+: text.drop i ∧ NoneBefore word text i := by
  induction text generalizing i with
  | nil =>
    rw [find]
    by_cases h : word <+: []
    · rw [if_pos (List.isPrefixOf_iff_prefix.mpr h)]
      constructor
      · rintro ⟨⟩
        exact ⟨Nat.le_refl 0, h, noneBefore_zero _ _⟩
      · rintro ⟨hi, -, -⟩
        rw [List.length_nil, Nat.le_zero] at hi
        rw [hi]
    · rw [if_neg (fun hp => h (List.isPrefixOf_iff_prefix.mp hp))]
      constructor
      · intro hn
        cases hn
      · rintro ⟨-, hp, -⟩
        rw [List.drop_nil] at hp
        exact (h hp).elim
  | cons a text ih =>
    rw [find]
    by_cases h : word <+: a :: text
    · rw [if_pos (List.isPrefixOf_iff_prefix.mpr h)]
      constructor
      · rintro ⟨⟩
        exact ⟨Nat.zero_le _, h, noneBefore_zero _ _⟩
      · rintro ⟨-, -, hnone⟩
        cases i with
        | zero => rfl
        | succ i => exact (hnone 0 (by omega) h).elim
    · rw [if_neg (fun hp => h (List.isPrefixOf_iff_prefix.mp hp)), Option.map_eq_some_iff]
      constructor
      · rintro ⟨j, hj, rfl⟩
        obtain ⟨hlen, hp, hnone⟩ := ih.mp hj
        exact ⟨by rw [List.length_cons]; omega, hp, noneBefore_cons.mpr ⟨h, hnone⟩⟩
      · rintro ⟨hlen, hp, hnone⟩
        cases i with
        | zero => exact (h hp).elim
        | succ i =>
          rw [List.length_cons] at hlen
          exact ⟨i, ih.mpr ⟨by omega, hp, (noneBefore_cons.mp hnone).2⟩, rfl⟩

theorem find_eq_none : find word text = none ↔ NoneBefore word text (text.length + 1) := by
  induction text with
  | nil =>
    rw [find]
    by_cases h : word <+: []
    · rw [if_pos (List.isPrefixOf_iff_prefix.mpr h)]
      constructor
      · intro hn
        cases hn
      · intro hnone
        exact (hnone 0 (by omega) h).elim
    · rw [if_neg (fun hp => h (List.isPrefixOf_iff_prefix.mp hp))]
      constructor
      · intro _ j _ hp
        rw [List.drop_nil] at hp
        exact h hp
      · intro _
        rfl
  | cons a text ih =>
    rw [find, List.length_cons, noneBefore_cons, ← ih]
    by_cases h : word <+: a :: text
    · rw [if_pos (List.isPrefixOf_iff_prefix.mpr h)]
      constructor
      · intro hn
        cases hn
      · rintro ⟨hn, -⟩
        exact (hn h).elim
    · rw [if_neg (fun hp => h (List.isPrefixOf_iff_prefix.mp hp)), Option.map_eq_none_iff]
      constructor
      · intro hn
        exact ⟨h, hn⟩
      · rintro ⟨-, hn⟩
        exact hn

/-- An occurrence ends within the text. -/
theorem find_length_le (h : find word text = some i) : i + word.length ≤ text.length := by
  obtain ⟨hi, hp, -⟩ := find_eq_some.mp h
  have hlen := hp.length_le
  rw [List.length_drop] at hlen
  omega

/-- What has been found stays the first occurrence. -/
theorem find_append (h : find word text = some i) : find word (text ++ more) = some i := by
  have hlen := find_length_le h
  obtain ⟨hi, hp, hnone⟩ := find_eq_some.mp h
  refine find_eq_some.mpr ⟨by rw [List.length_append]; omega, ?_, hnone.append (by omega)⟩
  rw [List.drop_append_of_le_length hi]
  exact hp.trans (List.prefix_append _ _)

/-- An occurrence that is not seen yet ends behind what has been seen. -/
theorem length_lt_of_find_append (h : find word text = none)
    (hmore : find word (text ++ more) = some i) : text.length < i + word.length := by
  by_contra hle
  obtain ⟨-, hp, -⟩ := find_eq_some.mp hmore
  rw [List.drop_append_of_le_length (by omega)] at hp
  refine find_eq_none.mp h i (by omega) (prefix_of_append hp ?_)
  rw [List.length_drop]
  omega

/-- When nothing has been found, an occurrence to come starts in the last places. -/
theorem noneBefore_of_find_eq_none (h : find word text = none) (hword : word ≠ []) :
    NoneBefore word (text ++ more) (text.length - (word.length - 1)) := by
  have hpos : 0 < word.length := List.length_pos_of_ne_nil hword
  have hnone := find_eq_none.mp h
  by_cases hshort : text.length < word.length - 1
  · rw [Nat.sub_eq_zero_of_le (by omega)]
    exact noneBefore_zero _ _
  · exact (hnone.mono (by omega)).append (by omega)

/-- A search may start at a place before which nothing starts. -/
theorem find_of_noneBefore (h : NoneBefore word text k) (hk : k ≤ text.length) :
    find word text = (find word (text.drop k)).map (· + k) := by
  cases hf : find word (text.drop k) with
  | none =>
    rw [Option.map_none, find_eq_none]
    have hrest := find_eq_none.mp hf
    intro j hj hp
    by_cases hjk : j < k
    · exact h j hjk hp
    · refine hrest (j - k) ?_ ?_
      · rw [List.length_drop]
        omega
      · rw [List.drop_drop, show k + (j - k) = j by omega]
        exact hp
  | some i =>
    obtain ⟨hi, hp, hnone⟩ := find_eq_some.mp hf
    rw [List.length_drop] at hi
    rw [List.drop_drop, Nat.add_comm] at hp
    rw [Option.map_some, find_eq_some]
    refine ⟨by omega, hp, ?_⟩
    intro j hj hpj
    by_cases hjk : j < k
    · exact h j hjk hpj
    · refine hnone (j - k) (by omega) ?_
      rw [List.drop_drop, show k + (j - k) = j by omega]
      exact hpj

/-- The text behind the first occurrence. -/
def afterFirst (word text : List α) : Option (List α) :=
  (find word text).map fun i => text.drop (i + word.length)

/-- The text behind the first occurrence does not depend on what stands before a place before which
nothing starts. -/
theorem afterFirst_of_noneBefore (h : NoneBefore word text k) (hk : k ≤ text.length) :
    afterFirst word text = afterFirst word (text.drop k) := by
  unfold afterFirst
  rw [find_of_noneBefore h hk, Option.map_map]
  refine congrArg (Option.map · _) (funext fun i => ?_)
  rw [Function.comp_apply, List.drop_drop]
  congr 1
  omega

/-- The text behind an occurrence that has been seen. -/
theorem afterFirst_append (h : find word text = some i) :
    afterFirst word (text ++ more) = some (text.drop (i + word.length) ++ more) := by
  have hlen := find_length_le h
  rw [afterFirst, find_append h, Option.map_some, List.drop_append_of_le_length hlen]

/-- Text in which nothing has been found may be forgotten, but for its last places. -/
theorem afterFirst_of_find_eq_none (h : find word text = none) (hword : word ≠ []) :
    afterFirst word (text ++ more) =
      afterFirst word (text.drop (text.length - (word.length - 1)) ++ more) := by
  rw [afterFirst_of_noneBefore (noneBefore_of_find_eq_none h hword)
    (by rw [List.length_append]; omega), List.drop_append_of_le_length (by omega)]

/-- Nothing starts before the end of a text without the word, however it goes on, when no occurrence
runs over that end. -/
theorem noneBefore_of_no_overlap (h : find word text = none)
    (hover : ∀ j < text.length, text.length < j + word.length → ¬ word <+: (text ++ more).drop j) :
    NoneBefore word (text ++ more) text.length := by
  intro j hj hp
  by_cases hend : j + word.length ≤ text.length
  · rw [List.drop_append_of_le_length (by omega)] at hp
    refine find_eq_none.mp h j (by omega) (prefix_of_append hp ?_)
    rw [List.length_drop]
    omega
  · exact hover j hj (by omega) hp

/-- A word whose first letter is none of the others is found where it has been put. -/
theorem find_put {a : α} (ha : a ∉ word) (h : find (a :: word) text = none) :
    find (a :: word) (text ++ (a :: word ++ more)) = some text.length := by
  refine find_eq_some.mpr ⟨by simp, ?_, noneBefore_of_no_overlap h fun j hj hover hp => ?_⟩
  · rw [List.drop_left]
    exact List.prefix_append _ _
  · have hget := getElem?_of_prefix_drop (i := text.length) hp (by omega) hover
    rw [List.getElem?_append_right (Nat.le_refl _), Nat.sub_self,
      show text.length - j = (text.length - j - 1) + 1 by omega, List.getElem?_cons_succ] at hget
    exact ha (List.mem_of_getElem? hget.symm)

/-- A letter that is none of its own does not complete a word. -/
theorem find_letter {a : α} (ha : a ∉ word) (hword : word ≠ []) (h : find word text = none) :
    find word (text ++ [a]) = none := by
  have hpos : 0 < word.length := List.length_pos_of_ne_nil hword
  refine find_eq_none.mpr fun j hj hp => ?_
  have hlen := hp.length_le
  rw [List.length_drop, List.length_append, List.length_singleton] at hlen
  by_cases hend : j + word.length ≤ text.length
  · rw [List.drop_append_of_le_length (by omega)] at hp
    refine find_eq_none.mp h j (by omega) (prefix_of_append hp ?_)
    rw [List.length_drop]
    omega
  · have hget := getElem?_of_prefix_drop (i := text.length) hp (by omega) (by omega)
    rw [List.getElem?_append_right (Nat.le_refl _), Nat.sub_self] at hget
    exact ha (List.mem_of_getElem? hget.symm)

/-- A word is found where it has been put behind a letter that is none of its own. -/
theorem find_put_behind {a : α} (ha : a ∉ word) (h : find word (text ++ [a]) = none) :
    find word (text ++ [a] ++ word) = some (text.length + 1) := by
  have hlen : (text ++ [a]).length = text.length + 1 := by simp
  rw [← hlen]
  refine find_eq_some.mpr ⟨by simp, ?_, noneBefore_of_no_overlap h fun j hj hover hp => ?_⟩
  · simp
  · have hget := getElem?_of_prefix_drop (i := text.length) hp (by omega) (by omega)
    rw [List.getElem?_append_left (by omega), List.getElem?_append_right (Nat.le_refl _),
      Nat.sub_self] at hget
    exact ha (List.mem_of_getElem? hget.symm)

end S3s.Search
