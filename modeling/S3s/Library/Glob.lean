import Mathlib.Data.List.Forall2
import Mathlib.Tactic.Common

/-! # Globs

What a sequence of stars, single wildcards and literals matches. The matcher that goes
back to its last star only is right because everything before that star can be taken
at its first place. Between the literals a run of wildcards asks for nothing but a
length.
-/
namespace S3s.Glob

variable {α : Type}

/-- One item of a glob. -/
inductive Item (α : Type) where
  | star
  | any
  | lit (a : α)
deriving DecidableEq

/-- A star stands for any sequence, a wildcard for any one element, a literal for itself. -/
inductive Matches : List (Item α) → List α → Prop
  | nil : Matches [] []
  | star {g s} (t : List α) : Matches g s → Matches (.star :: g) (t ++ s)
  | any {g s} (a : α) : Matches g s → Matches (.any :: g) (a :: s)
  | lit {g s} (a : α) : Matches g s → Matches (.lit a :: g) (a :: s)

/-- The item is no star and stands for the element. -/
def Item.Takes (i : Item α) (a : α) : Prop := i = .any ∨ i = .lit a

section Items

variable {g : List (Item α)} {s : List α} {a b : α}

@[simp] theorem matches_nil : Matches [] s ↔ s = [] := by
  constructor
  · rintro ⟨⟩
    rfl
  · rintro rfl
    exact .nil

@[simp] theorem matches_lit : Matches (.lit a :: g) s ↔ ∃ t, s = a :: t ∧ Matches g t := by
  constructor
  · rintro ⟨⟩
    exact ⟨_, rfl, ‹_›⟩
  · rintro ⟨t, rfl, h⟩
    exact .lit a h

@[simp] theorem matches_any : Matches (.any :: g) s ↔ ∃ b t, s = b :: t ∧ Matches g t := by
  constructor
  · rintro ⟨⟩
    exact ⟨_, _, rfl, ‹_›⟩
  · rintro ⟨b, t, rfl, h⟩
    exact .any b h

theorem matches_star : Matches (.star :: g) s ↔ ∃ t u, s = t ++ u ∧ Matches g u := by
  constructor
  · rintro ⟨⟩
    exact ⟨_, _, rfl, ‹_›⟩
  · rintro ⟨t, u, rfl, h⟩
    exact .star t h

theorem matches_cons_of_takes {i : Item α} (h : i.Takes a) :
    Matches (i :: g) (a :: s) ↔ Matches g s := by
  rcases h with rfl | rfl <;> simp

/-- What an item other than a star matches begins with an element that it takes. -/
theorem takes_of_matches {i : Item α} (hi : i ≠ .star) (h : Matches (i :: g) s) :
    ∃ a t, s = a :: t ∧ i.Takes a ∧ Matches g t := by
  cases h with
  | star t h => exact absurd rfl hi
  | any a h => exact ⟨a, _, rfl, Or.inl rfl, h⟩
  | lit a h => exact ⟨a, _, rfl, Or.inr rfl, h⟩

end Items

section Greedy

variable {block g : List (Item α)} {m s : List α}

/-- Items without a star match what they take and nothing else of that length. -/
theorem matches_append (h : List.Forall₂ Item.Takes block m) :
    Matches (block ++ g) (m ++ s) ↔ Matches g s := by
  induction h with
  | nil => rfl
  | cons hitem _ ih =>
    rw [List.cons_append, List.cons_append, matches_cons_of_takes hitem]
    exact ih

theorem matches_drop (h : List.Forall₂ Item.Takes block m) (hmatches : Matches (block ++ g) s) :
    block.length ≤ s.length ∧ Matches g (s.drop block.length) := by
  induction h generalizing s with
  | nil => exact ⟨Nat.zero_le _, hmatches⟩
  | cons hitem _ ih =>
    have hstar : ∀ {i : Item α} {a : α}, i.Takes a → i ≠ .star := by
      rintro i a (rfl | rfl) <;> simp
    obtain ⟨b, t, rfl, -, ht⟩ := takes_of_matches (hstar hitem) hmatches
    obtain ⟨hlength, hrest⟩ := ih ht
    exact ⟨Nat.succ_le_succ hlength, hrest⟩

/-- A star also stands for what was dropped. -/
theorem matches_star_of_drop {n : Nat} (h : Matches (.star :: g) (s.drop n)) :
    Matches (.star :: g) s := by
  obtain ⟨t, u, htu, hu⟩ := matches_star.mp h
  refine matches_star.mpr ⟨s.take n ++ t, u, ?_, hu⟩
  rw [List.append_assoc, ← htu, List.take_append_drop]

/-- Between two stars a block can be taken where it first fits. -/
theorem matches_star_block (h : List.Forall₂ Item.Takes block m) :
    Matches (.star :: (block ++ .star :: g)) (m ++ s) ↔ Matches (.star :: g) s := by
  constructor
  · intro hmatches
    obtain ⟨t, u, htu, hu⟩ := matches_star.mp hmatches
    obtain ⟨-, hrest⟩ := matches_drop h hu
    have hdrop : u.drop block.length = s.drop t.length := by
      calc u.drop block.length = (t ++ u).drop (t.length + block.length) := by
            rw [List.drop_length_add_append]
        _ = (m ++ s).drop (m.length + t.length) := by
            rw [← htu, h.length_eq, Nat.add_comm]
        _ = s.drop t.length := List.drop_length_add_append _
    rw [hdrop] at hrest
    exact matches_star_of_drop hrest
  · intro hmatches
    exact .star [] ((matches_append h).mpr hmatches)

/-- A star behind which nothing fits here stands for one element more. -/
theorem matches_star_retry {a : α} (h : ¬Matches g (a :: s)) :
    Matches (.star :: g) (a :: s) ↔ Matches (.star :: g) s := by
  constructor
  · intro hmatches
    obtain ⟨t, u, htu, hu⟩ := matches_star.mp hmatches
    cases t with
    | nil =>
      rw [List.nil_append] at htu
      exact absurd (htu ▸ hu) h
    | cons b t => exact matches_star.mpr ⟨t, u, (List.cons.inj htu).2, hu⟩
  · exact fun hmatches => matches_star_of_drop (n := 1) hmatches

theorem matches_star_nil : Matches (.star :: g) [] ↔ Matches g [] := by
  constructor
  · intro hmatches
    obtain ⟨t, u, htu, hu⟩ := matches_star.mp hmatches
    rwa [(List.append_eq_nil_iff.mp htu.symm).2] at hu
  · exact fun h => .star [] h

theorem matches_star_only : Matches [.star] s := matches_star.mpr ⟨s, [], by simp, .nil⟩

end Greedy

section Runs

variable {ω : Type}

/-- A run of wildcards: how many single ones it has, and whether it has a star. -/
structure Run where
  anys : Nat
  star : Bool
deriving DecidableEq

/-- A run asks for a length. -/
def Run.Fits (r : Run) (n : Nat) : Prop := r.anys ≤ n ∧ (r.star = true ∨ r.anys = n)

/-- A glob as its first run of wildcards and its literals, each with the run behind it. -/
def runs : List (Item ω) → Run × List (ω × Run)
  | [] => (⟨0, false⟩, [])
  | .star :: g => ({ (runs g).1 with star := true }, (runs g).2)
  | .any :: g => ({ (runs g).1 with anys := (runs g).1.anys + 1 }, (runs g).2)
  | .lit w :: g => (⟨0, false⟩, (w, (runs g).1) :: (runs g).2)

/-- All runs of a glob. -/
def allRuns (g : List (Item ω)) : List Run := (runs g).1 :: (runs g).2.map Prod.snd

theorem lit_mem_of_mem_runs {g : List (Item ω)} {l : ω × Run} (h : l ∈ (runs g).2) : .lit l.1 ∈ g := by
  induction g with
  | nil => cases h
  | cons i g ih =>
    cases i with
    | lit w =>
      rcases List.mem_cons.mp h with rfl | h
      · exact List.mem_cons_self
      · exact List.mem_cons_of_mem _ (ih h)
    | star => exact List.mem_cons_of_mem _ (ih h)
    | any => exact List.mem_cons_of_mem _ (ih h)

/-- The literals stand in the sequence one behind another, and the runs fit what is between them. -/
def Placed (size : List α → Nat) (spell : ω → List α) : Run → List (ω × Run) → List α → Prop
  | r, [], s => r.Fits (size s)
  | r, (w, r') :: ls, s => ∃ t u, s = t ++ (spell w ++ u) ∧ r.Fits (size t) ∧ Placed size spell r' ls u

/-- The items of a glob whose literals are words. -/
def Item.spelled (spell : ω → List α) : Item ω → List (Item α)
  | .star => [.star]
  | .any => [.any]
  | .lit w => (spell w).map .lit

variable {spell : ω → List α} {s : List α}

theorem matches_word {word : List α} {g : List (Item α)} :
    Matches (word.map .lit ++ g) s ↔ ∃ u, s = word ++ u ∧ Matches g u := by
  induction word generalizing s with
  | nil => simp
  | cons a word ih =>
    rw [List.map_cons, List.cons_append, matches_lit]
    constructor
    · rintro ⟨t, rfl, h⟩
      obtain ⟨u, rfl, hu⟩ := ih.mp h
      exact ⟨u, rfl, hu⟩
    · rintro ⟨u, rfl, hu⟩
      exact ⟨_, rfl, ih.mpr ⟨u, rfl, hu⟩⟩

/-- The last elements of a sequence, as many as a run has single wildcards. -/
theorem Run.exists_last {r : Run} (h : r.anys ≤ s.length) : ∃ t u, s = t ++ u ∧ r.Fits u.length := by
  have hlength : (s.drop (s.length - r.anys)).length = r.anys := by
    rw [List.length_drop]
    exact Nat.sub_sub_self h
  exact ⟨_, _, (List.take_append_drop _ s).symm, Nat.le_of_eq hlength.symm, Or.inr hlength.symm⟩

/-- A run with a star fits what is longer. -/
theorem Run.fits_star {r : Run} {t u : List α} (h : r.Fits u.length) :
    Run.Fits { r with star := true } (t ++ u).length := by
  refine ⟨Nat.le_trans h.1 ?_, Or.inl rfl⟩
  simp

theorem placed_star {r : Run} {ls : List (ω × Run)} :
    Placed List.length spell { r with star := true } ls s ↔
      ∃ t u, s = t ++ u ∧ Placed List.length spell r ls u := by
  cases ls with
  | nil =>
    constructor
    · rintro ⟨hanys, -⟩
      exact Run.exists_last (r := r) hanys
    · rintro ⟨t, u, rfl, hu⟩
      exact Run.fits_star hu
  | cons l ls =>
    obtain ⟨w, r'⟩ := l
    constructor
    · rintro ⟨t, u, rfl, ⟨hanys, -⟩, hu⟩
      obtain ⟨t, t', rfl, ht'⟩ := Run.exists_last (r := r) hanys
      exact ⟨t, t' ++ (spell w ++ u), by simp, t', u, rfl, ht', hu⟩
    · rintro ⟨t, _, rfl, t', u, rfl, ht', hu⟩
      exact ⟨t ++ t', u, by simp, Run.fits_star ht', hu⟩

theorem placed_any {r : Run} {ls : List (ω × Run)} :
    Placed List.length spell { r with anys := r.anys + 1 } ls s ↔
      ∃ b u, s = b :: u ∧ Placed List.length spell r ls u := by
  have hfits {n : Nat} : Run.Fits { r with anys := r.anys + 1 } (n + 1) ↔ r.Fits n := by
    simp [Run.Fits]
  have hzero : ¬Run.Fits { r with anys := r.anys + 1 } 0 := by
    simp [Run.Fits]
  cases ls with
  | nil =>
    cases s with
    | nil => simpa [Placed] using hzero
    | cons b s => simpa [Placed] using hfits
  | cons l ls =>
    obtain ⟨w, r'⟩ := l
    constructor
    · rintro ⟨t, u, rfl, ht, hu⟩
      cases t with
      | nil => exact absurd ht hzero
      | cons b t => exact ⟨b, _, rfl, t, u, rfl, hfits.mp ht, hu⟩
    · rintro ⟨b, _, rfl, t, u, rfl, ht, hu⟩
      exact ⟨b :: t, u, rfl, hfits.mpr ht, hu⟩

/-- A sequence matches a glob when its literals can be placed. -/
theorem matches_iff_placed (g : List (Item ω)) (s : List α) :
    Matches (g.flatMap (Item.spelled spell)) s ↔ Placed List.length spell (runs g).1 (runs g).2 s := by
  induction g generalizing s with
  | nil =>
    rw [List.flatMap_nil, matches_nil]
    cases s <;> simp [runs, Placed, Run.Fits]
  | cons i g ih =>
    rw [List.flatMap_cons]
    cases i with
    | star => simp only [Item.spelled, List.singleton_append, matches_star, ih, runs, placed_star]
    | any => simp only [Item.spelled, List.singleton_append, matches_any, ih, runs, placed_any]
    | lit w =>
      simp only [Item.spelled, matches_word, ih, runs, Placed]
      constructor
      · rintro ⟨u, rfl, hu⟩
        exact ⟨[], u, rfl, ⟨Nat.le_refl 0, Or.inr rfl⟩, hu⟩
      · rintro ⟨t, u, rfl, ⟨-, hstar | hzero⟩, hu⟩
        · cases hstar
        · rw [List.length_eq_zero_iff.mp hzero.symm]
          exact ⟨u, rfl, hu⟩

theorem flatMap_spelled_single (g : List (Item α)) : g.flatMap (Item.spelled fun a => [a]) = g := by
  induction g with
  | nil => rfl
  | cons i g ih =>
    rw [List.flatMap_cons, ih]
    cases i <;> rfl

/-- Sizes that the runs do not tell apart place the same. -/
theorem Placed.congr {size size' : List α → Nat} {r : Run} {ls : List (ω × Run)}
    (hsize : ∀ r' ∈ r :: ls.map Prod.snd, ∀ t, t.Sublist s → (r'.Fits (size t) ↔ r'.Fits (size' t))) :
    Placed size spell r ls s ↔ Placed size' spell r ls s := by
  induction ls generalizing r s with
  | nil => exact hsize r List.mem_cons_self s (List.Sublist.refl s)
  | cons l ls ih =>
    obtain ⟨w, r'⟩ := l
    have hrest {t u : List α} (hs : s = t ++ (spell w ++ u)) :
        Placed size spell r' ls u ↔ Placed size' spell r' ls u := by
      apply ih
      intro r'' hr'' v hv
      refine hsize r'' (List.mem_cons_of_mem _ hr'') v (hv.trans ?_)
      rw [hs]
      exact (List.sublist_append_right _ _).trans (List.sublist_append_right _ _)
    have hfirst {t u : List α} (hs : s = t ++ (spell w ++ u)) : r.Fits (size t) ↔ r.Fits (size' t) := by
      apply hsize r List.mem_cons_self
      rw [hs]
      exact List.sublist_append_left _ _
    constructor
    · rintro ⟨t, u, hs, ht, hu⟩
      exact ⟨t, u, hs, (hfirst hs).mp ht, (hrest hs).mp hu⟩
    · rintro ⟨t, u, hs, ht, hu⟩
      exact ⟨t, u, hs, (hfirst hs).mpr ht, (hrest hs).mpr hu⟩

/-- A sequence with something for every run between the literals. -/
def filled (spell : ω → List α) (fill : Run → List α) : Run → List (ω × Run) → List α
  | r, [] => fill r
  | r, (w, r') :: ls => fill r ++ (spell w ++ filled spell fill r' ls)

theorem placed_filled {size : List α → Nat} {fill : Run → List α} {r : Run} {ls : List (ω × Run)}
    (hfill : ∀ r : Run, r.Fits (size (fill r))) : Placed size spell r ls (filled spell fill r ls) := by
  induction ls generalizing r with
  | nil => exact hfill r
  | cons l ls ih => exact ⟨_, _, rfl, hfill r, ih⟩

/-- The words and the runs of a glob, weighed. -/
def total (word : ω → Nat) (run : Run → Nat) : Run → List (ω × Run) → Nat
  | r, [] => run r
  | r, (w, r') :: ls => run r + (word w + total word run r' ls)

/-- A sequence weighs at least what has to be placed in it. -/
theorem Placed.total_le {size : List α → Nat} (weight : List α → Nat)
    (happend : ∀ t u, weight (t ++ u) = weight t + weight u) (run : Run → Nat)
    (hrun : ∀ (r : Run) t, r.Fits (size t) → run r ≤ weight t) {r : Run}
    {ls : List (ω × Run)} (h : Placed size spell r ls s) :
    total (fun w => weight (spell w)) run r ls ≤ weight s := by
  induction ls generalizing r s with
  | nil => exact hrun r s h
  | cons l ls ih =>
    obtain ⟨t, u, rfl, ht, hu⟩ := h
    rw [happend, happend]
    exact Nat.add_le_add (hrun r t ht) (Nat.add_le_add_left (ih hu) _)

theorem weight_filled (weight : List α → Nat) (happend : ∀ t u, weight (t ++ u) = weight t + weight u)
    (fill : Run → List α) (r : Run) (ls : List (ω × Run)) :
    weight (filled spell fill r ls) = total (fun w => weight (spell w)) (fun r => weight (fill r)) r ls := by
  induction ls generalizing r with
  | nil => rfl
  | cons l ls ih =>
    rw [filled, total, happend, happend, ih]

theorem total_le_mul {word word' : ω → Nat} {run run' : Run → Nat} (k : Nat) (hword : ∀ w, word w ≤ k * word' w)
    (hrun : ∀ r, run r ≤ k * run' r) (r : Run) (ls : List (ω × Run)) :
    total word run r ls ≤ k * total word' run' r ls := by
  induction ls generalizing r with
  | nil => exact hrun r
  | cons l ls ih =>
    rw [total, total, Nat.mul_add, Nat.mul_add]
    exact Nat.add_le_add (hrun r) (Nat.add_le_add (hword _) (ih _))

/-- A glob weighs less when one of its runs does and none weighs more. -/
theorem total_lt_total {word : ω → Nat} {run run' : Run → Nat} (hrun : ∀ r, run r ≤ run' r) {r r₀ : Run}
    {ls : List (ω × Run)} (hmem : r₀ ∈ r :: ls.map Prod.snd) (hlt : run r₀ < run' r₀) :
    total word run r ls < total word run' r ls := by
  induction ls generalizing r with
  | nil =>
    rw [List.mem_singleton.mp hmem] at hlt
    exact hlt
  | cons l ls ih =>
    rcases List.mem_cons.mp hmem with rfl | hmem
    · have hrest : total word run l.2 ls ≤ total word run' l.2 ls := by
        simpa using total_le_mul 1 (fun w => Nat.le_of_eq (Nat.one_mul (word w)).symm)
          (fun r => by simpa using hrun r) l.2 ls
      exact Nat.add_lt_add_of_lt_of_le hlt (Nat.add_le_add_left hrest _)
    · exact Nat.add_lt_add_of_le_of_lt (hrun r) (Nat.add_lt_add_left (ih hmem) _)

end Runs

section Wildcards

variable {s : List α}

theorem matches_replicate_any {n : Nat} : Matches (List.replicate n .any) s ↔ s.length = n := by
  induction n generalizing s with
  | zero => simp
  | succ n ih =>
    rw [List.replicate_succ, matches_any]
    cases s <;> simp [ih]

/-- Items that stand for single elements do so in a row. -/
theorem matches_map {i : α → Item α} (h : ∀ a, i a = .star ∨ (i a).Takes a) : Matches (s.map i) s := by
  induction s with
  | nil => exact .nil
  | cons a s ih =>
    rw [List.map_cons]
    rcases h a with hstar | htakes
    · rw [hstar]
      exact .star [a] ih
    · exact (matches_cons_of_takes htakes).mpr ih

end Wildcards

end S3s.Glob
