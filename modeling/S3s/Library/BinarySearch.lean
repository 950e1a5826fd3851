import Mathlib.Data.List.TakeWhile
import Mathlib.Tactic.Common

/-! # Binary search

A list is searched by halves for an entry, or for the point where a property of its entries ends.
The search is right where the entries are in the order that the comparison goes by.
-/
namespace S3s.BinarySearch

variable {α : Type}

/-- Where the search is after it has gone on by halves, as often as `fuel` says at most. -/
def narrow (cmp : α → Ordering) (l : List α) : Nat → Nat → Nat → Nat
  | 0, base, _ => base
  | fuel + 1, base, size =>
    if 1 < size then
      let half := size / 2
      let mid := base + half
      let base := match l[mid]? with
        | some x => if cmp x = .gt then base else mid
        | none => base
      narrow cmp l fuel base (size - half)
    else base

/-- `slice::binary_search_by` -/
def binarySearchBy (cmp : α → Ordering) (l : List α) : Except Nat Nat :=
  let base := narrow cmp l l.length 0 l.length
  match l[base]? with
  | some x =>
    match cmp x with
    | .eq => .ok base
    | .lt => .error (base + 1)
    | .gt => .error base
  | none => .error 0

/-- `slice::partition_point` -/
def partitionPoint (p : α → Bool) (l : List α) : Nat :=
  match binarySearchBy (fun x => if p x then .lt else .gt) l with
  | .ok i => i
  | .error i => i

/-- The entries are in order: behind one that is not below there is none that is, and behind one that
is above there are only such. -/
def InOrder (cmp : α → Ordering) (l : List α) : Prop :=
  l.Pairwise fun x y => (cmp y = .lt → cmp x = .lt) ∧ (cmp x = .gt → cmp y = .gt)

section Search

variable {cmp : α → Ordering} {l : List α}

theorem inOrder_lt (h : InOrder cmp l) {i j : Nat} {x y : α} (hi : l[i]? = some x) (hj : l[j]? = some y)
    (hij : i < j) : (cmp y = .lt → cmp x = .lt) ∧ (cmp x = .gt → cmp y = .gt) := by
  obtain ⟨hi', rfl⟩ := List.getElem?_eq_some_iff.mp hi
  obtain ⟨hj', rfl⟩ := List.getElem?_eq_some_iff.mp hj
  exact List.pairwise_iff_getElem.mp h i j hi' hj' hij

/-- Where a search may stand: the entries behind it are above, and it stands at the start or at an
entry that is not above. -/
structure Stands (cmp : α → Ordering) (l : List α) (base size : Nat) : Prop where
  bound : base + size ≤ l.length
  behind : ∀ i x, l[i]? = some x → base + size ≤ i → cmp x = .gt
  here : base = 0 ∨ ∃ x, l[base]? = some x ∧ cmp x ≠ .gt

/-- The search ends at a single entry. -/
theorem stands_narrow (h : InOrder cmp l) (fuel base size : Nat) (hfuel : size ≤ fuel + 1) (hsize : 0 < size)
    (hstands : Stands cmp l base size) : Stands cmp l (narrow cmp l fuel base size) 1 := by
  induction fuel generalizing base size with
  | zero =>
    obtain rfl : size = 1 := by omega
    exact hstands
  | succ fuel ih =>
    rw [narrow]
    by_cases hone : 1 < size
    · rw [if_pos hone]
      have hmid : base + size / 2 < l.length := by
        have hbound := hstands.bound
        omega
      have hget : l[base + size / 2]? = some l[base + size / 2] := List.getElem?_eq_getElem hmid
      simp only [hget]
      apply ih
      · omega
      · omega
      · by_cases hgt : cmp l[base + size / 2] = .gt
        · rw [if_pos hgt]
          refine ⟨?_, fun i x hx hi => ?_, hstands.here⟩
          · have hbound := hstands.bound
            omega
          · rcases Nat.lt_or_ge (base + size / 2) i with hlt | hge
            · exact (inOrder_lt h hget hx hlt).2 hgt
            · -- the rounding leaves one entry on this side of the middle
              rcases Nat.lt_or_ge i (base + size / 2) with hbefore | hsame
              · omega
              · obtain rfl : i = base + size / 2 := by omega
                rw [hget] at hx
                exact Option.some.inj hx ▸ hgt
        · rw [if_neg hgt]
          refine ⟨?_, fun i x hx hi => hstands.behind i x hx ?_, Or.inr ⟨_, hget, hgt⟩⟩
          · have hbound := hstands.bound
            omega
          · omega
    · rw [if_neg hone]
      obtain rfl : size = 1 := by omega
      exact hstands

/-- What a search says of the entries on both sides of where it ends. -/
theorem binarySearchBy_spec (h : InOrder cmp l) :
    match binarySearchBy cmp l with
    | .ok i => ∃ x, l[i]? = some x ∧ cmp x = .eq
    | .error i => i ≤ l.length ∧ (∀ j x, l[j]? = some x → j < i → cmp x = .lt) ∧
        ∀ j x, l[j]? = some x → i ≤ j → cmp x = .gt := by
  rw [binarySearchBy]
  cases l with
  | nil => simp [narrow]
  | cons head tail =>
    generalize hl : head :: tail = l at h ⊢
    have hpos : 0 < l.length := by simp [← hl]
    have hstart : Stands cmp l 0 l.length := by
      refine ⟨by omega, fun i x hx hi => ?_, Or.inl rfl⟩
      rw [List.getElem?_eq_none (by omega)] at hx
      cases hx
    have hend := stands_narrow h l.length 0 l.length (by omega) hpos hstart
    generalize narrow cmp l l.length 0 l.length = base at hend ⊢
    have hbound : base < l.length := by
      have := hend.bound
      omega
    have hget : l[base]? = some l[base] := List.getElem?_eq_getElem hbound
    simp only [hget]
    cases hcmp : cmp l[base] with
    | eq => exact ⟨_, hget, hcmp⟩
    | lt =>
      refine ⟨hbound, fun j x hx hj => ?_, fun j x hx hj => hend.behind j x hx hj⟩
      rcases Nat.lt_or_ge j base with hlt | hge
      · exact (inOrder_lt h hx hget hlt).1 hcmp
      · obtain rfl : j = base := by omega
        rw [hget] at hx
        exact Option.some.inj hx ▸ hcmp
    | gt =>
      obtain rfl : base = 0 := by
        rcases hend.here with hzero | ⟨x, hx, hnot⟩
        · exact hzero
        · rw [hget] at hx
          exact absurd (Option.some.inj hx ▸ hcmp) hnot
      refine ⟨Nat.zero_le _, fun j x _ hj => absurd hj (Nat.not_lt_zero j), fun j x hx _ => ?_⟩
      rcases Nat.eq_zero_or_pos j with rfl | hlt
      · rw [hget] at hx
        exact Option.some.inj hx ▸ hcmp
      · exact (inOrder_lt h hget hx hlt).2 hcmp

/-- An entry is found just when there is one. -/
theorem binarySearchBy_isOk (h : InOrder cmp l) : (binarySearchBy cmp l).isOk = true ↔ ∃ x ∈ l, cmp x = .eq := by
  have hspec := binarySearchBy_spec h
  cases hres : binarySearchBy cmp l with
  | ok i =>
    rw [hres] at hspec
    obtain ⟨x, hx, heq⟩ := hspec
    exact ⟨fun _ => ⟨x, List.mem_of_getElem? hx, heq⟩, fun _ => rfl⟩
  | error i =>
    rw [hres] at hspec
    obtain ⟨-, hbefore, hbehind⟩ := hspec
    constructor
    · intro hok
      cases hok
    · rintro ⟨x, hx, heq⟩
      obtain ⟨j, hj⟩ := List.getElem?_of_mem hx
      rcases Nat.lt_or_ge j i with hlt | hge
      · rw [hbefore j x hj hlt] at heq
        cases heq
      · rw [hbehind j x hj hge] at heq
        cases heq

end Search

section Partition

variable {p : α → Bool} {l : List α}

/-- The point where a property of the entries ends. -/
theorem partitionPoint_eq (h : l.Pairwise fun x y => p y = true → p x = true) :
    partitionPoint p l = (l.takeWhile p).length := by
  have horder : InOrder (fun x => if p x then Ordering.lt else .gt) l := by
    refine h.imp fun {x y} hxy => ?_
    cases hx : p x with
    | true => simp [hx]
    | false =>
      have hy : p y = false := by
        by_contra hy
        rw [hxy (by simpa using hy)] at hx
        cases hx
      simp [hy]
  have hspec := binarySearchBy_spec horder
  rw [partitionPoint]
  cases hres : binarySearchBy (fun x => if p x then Ordering.lt else .gt) l with
  | ok i =>
    rw [hres] at hspec
    obtain ⟨x, -, heq⟩ := hspec
    split at heq <;> cases heq
  | error i =>
    rw [hres] at hspec
    obtain ⟨hbound, hbefore, hbehind⟩ := hspec
    have hfirst : ∀ x ∈ l.take i, p x = true := by
      intro x hx
      obtain ⟨j, hj⟩ := List.getElem?_of_mem hx
      rw [List.getElem?_take] at hj
      split at hj
      · next hlt => simpa using hbefore j x hj hlt
      · cases hj
    have hrest : (l.drop i).takeWhile p = [] := by
      cases hdrop : l.drop i with
      | nil => rfl
      | cons x rest =>
        have hx : l[i]? = some x := by
          rw [← List.head?_drop, hdrop, List.head?_cons]
        have hnot : ¬p x = true := by simpa using hbehind i x hx le_rfl
        rw [List.takeWhile_cons_of_neg hnot]
    conv_rhs => rw [← List.take_append_drop i l, List.takeWhile_append_of_pos hfirst, hrest]
    simp [hbound]

/-- What is behind the point where a property ends. -/
theorem drop_partitionPoint (h : l.Pairwise fun x y => p y = true → p x = true) :
    l.drop (partitionPoint p l) = l.dropWhile p := by
  rw [partitionPoint_eq h]
  calc l.drop (l.takeWhile p).length
      = (l.takeWhile p ++ l.dropWhile p).drop (l.takeWhile p).length := by
        rw [List.takeWhile_append_dropWhile]
    _ = l.dropWhile p := List.drop_left' rfl

theorem take_partitionPoint (h : l.Pairwise fun x y => p y = true → p x = true) :
    l.take (partitionPoint p l) = l.takeWhile p := by
  rw [partitionPoint_eq h]
  exact (List.prefix_iff_eq_take.mp (List.takeWhile_prefix p)).symm

end Partition

end S3s.BinarySearch
