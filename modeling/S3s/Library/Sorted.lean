import Mathlib.Data.List.Basic
import Mathlib.Data.List.Sort
import Mathlib.Data.List.TakeWhile
import Mathlib.Tactic.Common
import S3s.Library.BinarySearch

/-! # Lookups in lists that are sorted by key

A list of pairs in ascending order of their keys, where a key may occur any number
of times. The value of a key is looked for at the point where the keys reach it, or
at the point where they pass it; on a sorted list that is as good as a linear scan.
-/
namespace S3s.Sorted

variable {κ ν : Type} [DecidableEq κ]

/-- A decidable order in which any two keys are comparable. -/
structure IsOrder (le : κ → κ → Bool) : Prop where
  total : ∀ a b, le a b = true ∨ le b a = true
  trans : ∀ a b c, le a b = true → le b c = true → le a c = true
  antisymm : ∀ a b, le a b = true → le b a = true → a = b

/-- The keys are in ascending order. -/
def Ascending (le : κ → κ → Bool) (l : List (κ × ν)) : Prop :=
  l.Pairwise fun a b => le a.1 b.1 = true

/-- The values under a key, in their order. -/
def valuesOf (l : List (κ × ν)) (k : κ) : List ν := (l.filter fun e => e.1 = k).map Prod.snd

/-- The value of a key that occurs once: the entry at the lower bound, when the next one has another
key. -/
def lookupUnique (le : κ → κ → Bool) (l : List (κ × ν)) (k : κ) : Option ν :=
  match l.drop (BinarySearch.partitionPoint (fun e => !le k e.1) l) with
  | [] => none
  | [e] => if e.1 = k then some e.2 else none
  | e :: e' :: _ => if e'.1 = k then none else if e.1 = k then some e.2 else none

/-- The last value of a key: the entry in front of the upper bound. -/
def lookupLast (le : κ → κ → Bool) (l : List (κ × ν)) (k : κ) : Option ν :=
  match (l.takeWhile fun e => le e.1 k).getLast? with
  | some e => if e.1 = k then some e.2 else none
  | none => none

variable {le : κ → κ → Bool} {l : List (κ × ν)} {k : κ}

/-- A stable sort by key sorts. -/
theorem ascending_insertionSort (hle : IsOrder le) (l : List (κ × ν)) :
    Ascending le (l.insertionSort fun a b => le a.1 b.1 = true) := by
  let r : κ × ν → κ × ν → Prop := fun a b => le a.1 b.1 = true
  have : Std.Total r := ⟨fun a b => hle.total a.1 b.1⟩
  have : IsTrans (κ × ν) r := ⟨fun a b c => hle.trans a.1 b.1 c.1⟩
  exact List.pairwise_insertionSort r l

theorem mem_valuesOf {v : ν} : v ∈ valuesOf l k ↔ (k, v) ∈ l := by
  rw [valuesOf, List.mem_map]
  constructor
  · rintro ⟨e, he, rfl⟩
    obtain ⟨hmem, hkey⟩ := List.mem_filter.mp he
    rwa [← of_decide_eq_true hkey]
  · intro h
    exact ⟨(k, v), List.mem_filter.mpr ⟨h, by simp⟩, rfl⟩

/-- Behind an entry above the key there is none with the key. -/
theorem valuesOf_eq_nil (hle : IsOrder le) {e : κ × ν} (hsorted : Ascending le (e :: l))
    (hk : le k e.1 = true) (hne : e.1 ≠ k) : valuesOf (e :: l) k = [] := by
  rw [List.eq_nil_iff_forall_not_mem]
  intro v hv
  rcases List.mem_cons.mp (mem_valuesOf.mp hv) with rfl | hmem
  · exact hne rfl
  · exact hne (hle.antisymm _ _ (List.rel_of_pairwise_cons hsorted hmem) hk)

theorem valuesOf_cons (e : κ × ν) (l : List (κ × ν)) (k : κ) :
    valuesOf (e :: l) k = if e.1 = k then e.2 :: valuesOf l k else valuesOf l k := by
  unfold valuesOf
  by_cases h : e.1 = k <;> simp [h]

theorem valuesOf_perm {l' : List (κ × ν)} (h : l.Perm l') (k : κ) :
    (valuesOf l k).Perm (valuesOf l' k) :=
  (h.filter _).map _

/-- The values under a key are those that are left when another key is taken out. -/
theorem valuesOf_filter {p : κ × ν → Bool} (h : ∀ e, e.1 = k → p e = true) :
    valuesOf (l.filter p) k = valuesOf l k := by
  rw [valuesOf, valuesOf, List.filter_filter]
  congr 1
  apply List.filter_congr
  intro e _
  by_cases hkey : e.1 = k
  · simp [hkey, h e hkey]
  · simp [hkey]

theorem any_key_eq : (l.any fun e => decide (e.1 = k)) = !(valuesOf l k).isEmpty := by
  induction l with
  | nil => rfl
  | cons e l ih =>
    rw [List.any_cons, valuesOf_cons, ih]
    by_cases hkey : e.1 = k <;> simp [hkey]

/-- The entries below a key are in front. -/
theorem pairwise_below (hle : IsOrder le) (hsorted : Ascending le l) (k : κ) :
    l.Pairwise fun a b => (!le k b.1) = true → (!le k a.1) = true := by
  refine hsorted.imp fun {a b} hab hb => ?_
  by_contra ha
  simp only [Bool.not_eq_true', Bool.not_eq_false] at ha hb
  rw [hle.trans _ _ _ ha hab] at hb
  cases hb

/-- The entries not above a key are in front. -/
theorem pairwise_upTo (hle : IsOrder le) (hsorted : Ascending le l) (k : κ) :
    l.Pairwise fun a b => le b.1 k = true → le a.1 k = true :=
  hsorted.imp fun {_ _} hab hb => hle.trans _ _ _ hab hb

/-- The lower bound is where the keys reach the key. -/
theorem drop_lowerBound (hle : IsOrder le) (hsorted : Ascending le l) (k : κ) :
    l.drop (BinarySearch.partitionPoint (fun e => !le k e.1) l) = l.dropWhile fun e => !le k e.1 :=
  BinarySearch.drop_partitionPoint (pairwise_below hle hsorted k)

theorem lookupUnique_eq (hle : IsOrder le) (hsorted : Ascending le l) :
    lookupUnique le l k = match valuesOf l k with
      | [v] => some v
      | _ => none := by
  rw [lookupUnique, drop_lowerBound hle hsorted]
  induction l with
  | nil => rfl
  | cons e l ih =>
    have htail : Ascending le l := hsorted.of_cons
    cases hk : le k e.1 with
    | false =>
      have hne : e.1 ≠ k := by
        rintro rfl
        rcases hle.total e.1 e.1 with h | h <;> rw [hk] at h <;> cases h
      rw [List.dropWhile_cons_of_pos (by simp [hk]), ih htail, valuesOf_cons, if_neg hne]
    | true =>
      rw [List.dropWhile_cons_of_neg (by simp [hk])]
      by_cases hkey : e.1 = k
      · rw [valuesOf_cons, if_pos hkey]
        cases l with
        | nil => simp [hkey, valuesOf]
        | cons e' l =>
          by_cases hkey' : e'.1 = k
          · simp [hkey', valuesOf_cons]
          · have hge : le k e'.1 = true := by
              rw [← hkey]
              exact List.rel_of_pairwise_cons hsorted List.mem_cons_self
            rw [valuesOf_eq_nil hle htail hge hkey']
            simp [hkey, hkey']
      · rw [valuesOf_eq_nil hle hsorted hk hkey]
        cases l with
        | nil => simp [hkey]
        | cons e' l => simp [hkey]

theorem valuesOf_append (l l' : List (κ × ν)) (k : κ) :
    valuesOf (l ++ l') k = valuesOf l k ++ valuesOf l' k := by
  rw [valuesOf, List.filter_append, List.map_append, valuesOf, valuesOf]

theorem valuesOf_eq_nil_iff : valuesOf l k = [] ↔ ∀ e ∈ l, e.1 ≠ k := by
  simp [valuesOf]

/-- A stable sort by key leaves the values under a key in their order. -/
theorem valuesOf_insertionSort (hle : IsOrder le) (l : List (κ × ν)) (k : κ) :
    valuesOf (l.insertionSort fun a b => le a.1 b.1 = true) k = valuesOf l k := by
  let r : κ × ν → κ × ν → Prop := fun a b => le a.1 b.1 = true
  have : Std.Total r := ⟨fun a b => hle.total a.1 b.1⟩
  have : IsTrans (κ × ν) r := ⟨fun a b c => hle.trans a.1 b.1 c.1⟩
  have hrefl : le k k = true := (hle.total k k).elim id id
  have hsame : (l.filter fun e => e.1 = k).Pairwise r := by
    apply List.pairwise_of_forall_mem_list
    intro a ha b hb
    have hkeys : a.1 = k ∧ b.1 = k :=
      ⟨of_decide_eq_true (List.mem_filter.mp ha).2, of_decide_eq_true (List.mem_filter.mp hb).2⟩
    show le a.1 b.1 = true
    rw [hkeys.1, hkeys.2, hrefl]
  have hsub := (List.sublist_insertionSort hsame List.filter_sublist).filter fun e => e.1 = k
  have hperm := (List.perm_insertionSort r l).filter fun e => decide (e.1 = k)
  rw [List.filter_filter] at hsub
  simp only [Bool.and_self] at hsub
  rw [valuesOf, valuesOf, hsub.eq_of_length hperm.length_eq.symm]

/-- The key at the front is not above a key that occurs. -/
theorem head_le_of_valuesOf_ne_nil (hle : IsOrder le) {e : κ × ν} (hsorted : Ascending le (e :: l))
    (hk : valuesOf (e :: l) k ≠ []) : le e.1 k = true := by
  obtain ⟨v, hv⟩ := List.exists_mem_of_ne_nil _ hk
  rcases List.mem_cons.mp (mem_valuesOf.mp hv) with rfl | hmem
  · exact (hle.total k k).elim id id
  · exact List.rel_of_pairwise_cons hsorted hmem

/-- A sorted list is determined by the values under each key. -/
theorem Ascending.eq_of_valuesOf (hle : IsOrder le) {l l' : List (κ × ν)} (hl : Ascending le l)
    (hl' : Ascending le l') (h : ∀ k, valuesOf l k = valuesOf l' k) : l = l' := by
  induction l generalizing l' with
  | nil =>
    cases l' with
    | nil => rfl
    | cons e' l' =>
      have hvalues := h e'.1
      rw [valuesOf_cons, if_pos rfl] at hvalues
      cases hvalues
  | cons e l ih =>
    cases l' with
    | nil =>
      have hvalues := h e.1
      rw [valuesOf_cons, if_pos rfl] at hvalues
      cases hvalues
    | cons e' l' =>
      have hkey : e.1 = e'.1 := by
        apply hle.antisymm
        · apply head_le_of_valuesOf_ne_nil hle hl
          rw [h, valuesOf_cons, if_pos rfl]
          exact List.cons_ne_nil _ _
        · apply head_le_of_valuesOf_ne_nil hle hl'
          rw [← h, valuesOf_cons, if_pos rfl]
          exact List.cons_ne_nil _ _
      have hhead := h e.1
      rw [valuesOf_cons, valuesOf_cons, if_pos rfl, if_pos hkey.symm] at hhead
      obtain ⟨hvalue, hrest⟩ := List.cons.inj hhead
      have htail : l = l' := by
        apply ih hl.of_cons hl'.of_cons
        intro k
        by_cases hk : e.1 = k
        · rw [← hk, hrest]
        · have hne : e'.1 ≠ k := hkey ▸ hk
          simpa [valuesOf_cons, hk, hne] using h k
      rw [htail, Prod.ext hkey hvalue]

/-- A stable sort by key depends on the values under each key, and not on how the keys
are mixed. -/
theorem insertionSort_eq_of_valuesOf (hle : IsOrder le) {l l' : List (κ × ν)}
    (h : ∀ k, valuesOf l k = valuesOf l' k) :
    (l.insertionSort fun a b => le a.1 b.1 = true) = l'.insertionSort fun a b => le a.1 b.1 = true := by
  apply Ascending.eq_of_valuesOf hle (ascending_insertionSort hle l) (ascending_insertionSort hle l')
  intro k
  rw [valuesOf_insertionSort hle, valuesOf_insertionSort hle, h]

/-- The same pairs in another order, in which the values under each key keep theirs. -/
structure Reordered (l l' : List (κ × ν)) : Prop where
  perm : l.Perm l'
  values : ∀ k, valuesOf l k = valuesOf l' k

theorem Reordered.filter {l l' : List (κ × ν)} (h : Reordered l l') (p : κ → Bool) :
    Reordered (l.filter fun e => p e.1) (l'.filter fun e => p e.1) where
  perm := h.perm.filter _
  values k := by
    cases hk : p k with
    | true =>
      have hkeep : ∀ e : κ × ν, e.1 = k → p e.1 = true := by
        rintro e rfl
        exact hk
      rw [valuesOf_filter hkeep, valuesOf_filter hkeep, h.values]
    | false =>
      have hgone : ∀ m : List (κ × ν), valuesOf (m.filter fun e => p e.1) k = [] := by
        intro m
        apply valuesOf_eq_nil_iff.mpr
        rintro e he rfl
        rw [(List.mem_filter.mp he).2] at hk
        cases hk
      rw [hgone, hgone]

/-- A stable sort by key keeps the values under each key in their order. -/
theorem reordered_insertionSort (hle : IsOrder le) (l : List (κ × ν)) :
    Reordered l (l.insertionSort fun a b => le a.1 b.1 = true) where
  perm := (List.perm_insertionSort _ l).symm
  values k := (valuesOf_insertionSort hle l k).symm

section Map

variable {κ' ν' : Type} [DecidableEq κ'] {f : κ → κ'} {g : ν → ν'}

theorem valuesOf_map (hf : Function.Injective f) (l : List (κ × ν)) (k : κ) :
    valuesOf (l.map fun e => (f e.1, g e.2)) (f k) = (valuesOf l k).map g := by
  induction l with
  | nil => rfl
  | cons e l ih =>
    rw [List.map_cons, valuesOf_cons, valuesOf_cons, ih]
    by_cases hkey : e.1 = k
    · simp [hkey]
    · simp [hkey, hf.ne hkey]

/-- Keys that are renamed one to one take their values with them. -/
theorem Reordered.map (hf : Function.Injective f) {l l' : List (κ × ν)} (h : Reordered l l') :
    Reordered (l.map fun e => (f e.1, g e.2)) (l'.map fun e => (f e.1, g e.2)) where
  perm := h.perm.map _
  values k' := by
    by_cases hk : ∃ k, f k = k'
    · obtain ⟨k, rfl⟩ := hk
      rw [valuesOf_map hf, valuesOf_map hf, h.values]
    · have hnone : ∀ m : List (κ × ν), valuesOf (m.map fun e => (f e.1, g e.2)) k' = [] := by
        intro m
        apply valuesOf_eq_nil_iff.mpr
        intro e he hkey
        obtain ⟨e', -, rfl⟩ := List.mem_map.mp he
        exact hk ⟨e'.1, hkey⟩
      rw [hnone, hnone]

end Map

/-- Behind the point where the keys pass a key there is none with it. -/
theorem forall_dropWhile_ne (hle : IsOrder le) (hsorted : Ascending le l) :
    ∀ e ∈ l.dropWhile fun e => le e.1 k, e.1 ≠ k := by
  have hrefl : le k k = true := (hle.total k k).elim id id
  rintro e he rfl
  have hdrop : Ascending le (l.dropWhile fun e' => le e'.1 e.1) :=
    List.Pairwise.sublist (List.dropWhile_suffix _).sublist hsorted
  cases hrest : l.dropWhile fun e' => le e'.1 e.1 with
  | nil => simp [hrest] at he
  | cons first rest =>
    have hfirst : le first.1 e.1 = false := by
      have hne : (l.dropWhile fun e' => le e'.1 e.1) ≠ [] := by simp [hrest]
      have hnot := List.head_dropWhile_not (fun e' : κ × ν => le e'.1 e.1) hne
      simpa [hrest] using hnot
    rw [hrest] at he hdrop
    rcases List.mem_cons.mp he with rfl | he
    · rw [hrefl] at hfirst
      cases hfirst
    · rw [List.rel_of_pairwise_cons hdrop he] at hfirst
      cases hfirst

/-- The entry in front of the upper bound is the last of those with the key. -/
theorem lookupLast_eq (hle : IsOrder le) (hsorted : Ascending le l) :
    lookupLast le l k = (valuesOf l k).getLast? := by
  have hbehind := valuesOf_eq_nil_iff.mpr (forall_dropWhile_ne (k := k) hle hsorted)
  have hvalues : valuesOf l k = valuesOf (l.takeWhile fun e => le e.1 k) k := by
    conv_lhs => rw [← List.takeWhile_append_dropWhile (p := fun e => le e.1 k) (l := l)]
    rw [valuesOf_append, hbehind, List.append_nil]
  rw [hvalues, lookupLast]
  rcases List.eq_nil_or_concat (l.takeWhile fun e => le e.1 k) with hnil | ⟨front, e, hfront⟩
  · rw [hnil]
    rfl
  · rw [List.concat_eq_append] at hfront
    have hlast : le e.1 k = true := by
      have hmem : e ∈ l.takeWhile fun e => le e.1 k := by simp [hfront]
      exact List.mem_takeWhile_imp (p := fun e : κ × ν => le e.1 k) hmem
    have htake : Ascending le (front ++ [e]) := by
      rw [← hfront]
      exact List.Pairwise.sublist (List.takeWhile_prefix _).sublist hsorted
    rw [hfront, List.getLast?_append, valuesOf_append]
    by_cases hkey : e.1 = k
    · simp [valuesOf, hkey]
    · have hempty : valuesOf front k = [] := by
        rw [valuesOf_eq_nil_iff]
        rintro e' he' rfl
        have hbefore := (List.pairwise_append.mp htake).2.2 e' he' e (List.mem_singleton_self e)
        exact hkey (hle.antisymm _ _ hlast hbefore)
      rw [hempty]
      simp [valuesOf, hkey]

/-- Behind an entry that is not below a key there is none that is. -/
theorem takeWhile_lower_prefix (hle : IsOrder le) (l : List (κ × ν)) (k : κ) :
    (l.takeWhile fun e => !le k e.1) <+: l.takeWhile fun e => le e.1 k := by
  induction l with
  | nil => exact List.prefix_rfl
  | cons e l ih =>
    cases hk : le k e.1 with
    | false =>
      have hbelow : le e.1 k = true := (hle.total e.1 k).resolve_right (by simp [hk])
      rw [List.takeWhile_cons_of_pos (by simp [hk]), List.takeWhile_cons_of_pos (by simp [hbelow])]
      exact List.cons_prefix_cons.mpr ⟨rfl, ih⟩
    | true =>
      rw [List.takeWhile_cons_of_neg (by simp [hk])]
      exact List.nil_prefix

/-- What is left of the entries not above a key, without those below it. -/
theorem drop_takeWhile_upper (hle : IsOrder le) (l : List (κ × ν)) (k : κ) :
    (l.takeWhile fun e => le e.1 k).drop (l.takeWhile fun e => !le k e.1).length =
      (l.dropWhile fun e => !le k e.1).takeWhile fun e => le e.1 k := by
  induction l with
  | nil => rfl
  | cons e l ih =>
    cases hk : le k e.1 with
    | false =>
      have hbelow : le e.1 k = true := (hle.total e.1 k).resolve_right (by simp [hk])
      rw [List.takeWhile_cons_of_pos (by simp [hk]), List.takeWhile_cons_of_pos (by simp [hbelow]),
        List.dropWhile_cons_of_pos (by simp [hk]), List.length_cons, List.drop_succ_cons, ih]
    | true =>
      rw [List.takeWhile_cons_of_neg (p := fun e : κ × ν => !le k e.1) (by simp [hk]),
        List.dropWhile_cons_of_neg (by simp [hk]), List.length_nil, List.drop_zero]

/-- The entries between the two bounds of a key are those with it. -/
theorem valuesBetween_eq (hle : IsOrder le) (hsorted : Ascending le l) (k : κ) :
    ((l.dropWhile fun e => !le k e.1).takeWhile fun e => le e.1 k).map Prod.snd = valuesOf l k := by
  have hrefl : le k k = true := (hle.total k k).elim id id
  induction l with
  | nil => rfl
  | cons e l ih =>
    have htail : Ascending le l := hsorted.of_cons
    cases hk : le k e.1 with
    | false =>
      have hne : e.1 ≠ k := by
        rintro rfl
        rw [hrefl] at hk
        cases hk
      rw [List.dropWhile_cons_of_pos (by simp [hk]), ih htail, valuesOf_cons, if_neg hne]
    | true =>
      rw [List.dropWhile_cons_of_neg (by simp [hk])]
      by_cases hkey : e.1 = k
      · have hfrom : l.dropWhile (fun e => !le k e.1) = l := by
          refine List.dropWhile_eq_self_iff.mpr fun hpos => ?_
          have hrel := List.rel_of_pairwise_cons hsorted (List.getElem_mem hpos)
          rw [hkey] at hrel
          simp [hrel]
        rw [List.takeWhile_cons_of_pos (by rw [hkey, hrefl]), List.map_cons, valuesOf_cons, if_pos hkey,
          ← ih htail, hfrom]
      · have hpast : ¬le e.1 k = true := fun h => hkey (hle.antisymm _ _ h hk)
        rw [List.takeWhile_cons_of_neg (by simpa using hpast), valuesOf_eq_nil hle hsorted hk hkey, List.map_nil]

theorem lookupLast_eq_none_iff (hle : IsOrder le) (hsorted : Ascending le l) :
    lookupLast le l k = none ↔ ∀ e ∈ l, e.1 ≠ k := by
  rw [lookupLast_eq hle hsorted, List.getLast?_eq_none_iff, valuesOf_eq_nil_iff]

/-- The last value of a key changed in its place. -/
def modifyLast (le : κ → κ → Bool) (f : ν → ν) (l : List (κ × ν)) (k : κ) : List (κ × ν) :=
  match (l.takeWhile fun e => le e.1 k).getLast? with
  | some e =>
    if e.1 = k then
      (l.takeWhile fun e => le e.1 k).dropLast ++ (e.1, f e.2) :: l.dropWhile fun e => le e.1 k
    else l
  | none => l

/-- Where the last value of a key is. -/
theorem lookupLast_split (hle : IsOrder le) (hsorted : Ascending le l) {v : ν}
    (h : lookupLast le l k = some v) :
    ∃ front rest, l = front ++ (k, v) :: rest ∧ (∀ e ∈ rest, e.1 ≠ k) ∧
      ∀ f, modifyLast le f l k = front ++ (k, f v) :: rest := by
  have hbehind := forall_dropWhile_ne (k := k) hle hsorted
  rcases List.eq_nil_or_concat (l.takeWhile fun e => le e.1 k) with hnil | ⟨front, e, hfront⟩
  · simp [lookupLast, hnil] at h
  · rw [List.concat_eq_append] at hfront
    by_cases hkey : e.1 = k
    · have hv : e.2 = v := by simpa [lookupLast, hfront, hkey] using h
      refine ⟨front, l.dropWhile fun e => le e.1 k, ?_, hbehind, ?_⟩
      · conv_lhs => rw [← List.takeWhile_append_dropWhile (p := fun e => le e.1 k) (l := l), hfront]
        rw [← hkey, ← hv]
        simp
      · intro f
        simp [modifyLast, hfront, hkey, hv]
    · simp [lookupLast, hfront, hkey] at h

theorem modifyLast_of_none {f : ν → ν} (h : lookupLast le l k = none) : modifyLast le f l k = l := by
  unfold lookupLast at h
  unfold modifyLast
  split at h
  · next e he =>
    split at h
    · cases h
    · next hkey => simp [hkey]
  · simp

theorem map_fst_modifyLast (hle : IsOrder le) (hsorted : Ascending le l) (f : ν → ν) :
    (modifyLast le f l k).map Prod.fst = l.map Prod.fst := by
  cases h : lookupLast le l k with
  | none => rw [modifyLast_of_none h]
  | some v =>
    obtain ⟨front, rest, hl, -, hmodified⟩ := lookupLast_split hle hsorted h
    rw [hmodified, hl]
    simp

theorem ascending_modifyLast (hle : IsOrder le) (hsorted : Ascending le l) (f : ν → ν) :
    Ascending le (modifyLast le f l k) := by
  have hkeys := map_fst_modifyLast (k := k) hle hsorted f
  have hpairs := List.pairwise_map.mp (hkeys ▸ List.pairwise_map.mpr hsorted :
    ((modifyLast le f l k).map Prod.fst).Pairwise fun a b => le a b = true)
  exact hpairs

/-- The values under the other keys stay. -/
theorem valuesOf_modifyLast_ne (hle : IsOrder le) (hsorted : Ascending le l) (f : ν → ν) {k' : κ}
    (hne : k' ≠ k) : valuesOf (modifyLast le f l k) k' = valuesOf l k' := by
  cases h : lookupLast le l k with
  | none => rw [modifyLast_of_none h]
  | some v =>
    obtain ⟨front, rest, hl, -, hmodified⟩ := lookupLast_split hle hsorted h
    rw [hmodified, hl, valuesOf_append, valuesOf_append, valuesOf_cons, valuesOf_cons, if_neg hne.symm,
      if_neg hne.symm]

/-- The last value under the key is the changed one. -/
theorem lookupLast_modifyLast (hle : IsOrder le) (hsorted : Ascending le l) (f : ν → ν) :
    lookupLast le (modifyLast le f l k) k = (lookupLast le l k).map f := by
  cases h : lookupLast le l k with
  | none => rw [modifyLast_of_none h, h, Option.map_none]
  | some v =>
    obtain ⟨front, rest, -, hrest, hmodified⟩ := lookupLast_split hle hsorted h
    rw [lookupLast_eq hle (ascending_modifyLast hle hsorted f), hmodified, valuesOf_append, valuesOf_cons,
      if_pos rfl, valuesOf_eq_nil_iff.mpr hrest]
    simp

end S3s.Sorted
