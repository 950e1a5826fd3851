import Mathlib.Data.List.Nodup
import Mathlib.Tactic.Common

/-! # Grouping by key

A map as a list of entries, in the order in which the keys came up. The entries of a list of
items are grouped under their keys, each group gathering its items in turn.
-/
namespace S3s.Grouping

variable {α κ ν : Type} [DecidableEq κ]

/-- The entry of a key changed, or a new one behind the others. -/
def upsert (k : κ) (f : Option ν → ν) : List (κ × ν) → List (κ × ν)
  | [] => [(k, f none)]
  | e :: l => if e.1 = k then (k, f (some e.2)) :: l else e :: upsert k f l

/-- The items gathered under their keys. -/
def groupFold (key : α → κ) (push : ν → α → ν) (start : ν) (items : List α) : List (κ × ν) :=
  items.foldl (fun map x => upsert (key x) (fun o => push (o.getD start) x) map) []

theorem lookup_upsert (k k' : κ) (f : Option ν → ν) (l : List (κ × ν)) :
    (upsert k f l).lookup k' = if k' = k then some (f (l.lookup k)) else l.lookup k' := by
  induction l with
  | nil =>
    by_cases h : k' = k
    · simp [upsert, List.lookup_cons, h]
    · have hbeq : (k' == k) = false := by simpa using h
      simp [upsert, List.lookup_cons, h, hbeq]
  | cons e l ih =>
    obtain ⟨a, v⟩ := e
    by_cases ha : a = k
    · subst ha
      by_cases hk : k' = a
      · simp [upsert, List.lookup_cons, hk]
      · have hbeq : (k' == a) = false := by simpa using hk
        simp [upsert, List.lookup_cons, hk, hbeq]
    · have hbeq : (k == a) = false := by simpa using fun h : k = a => ha h.symm
      by_cases hk : k' = a
      · have hne : ¬k' = k := fun h => ha (hk.symm.trans h)
        subst hk
        simp [upsert, ha, List.lookup_cons]
      · have hbeq' : (k' == a) = false := by simpa using hk
        simp [upsert, ha, List.lookup_cons, hbeq, hbeq', ih]

theorem upsert_keys (k : κ) (f : Option ν → ν) (l : List (κ × ν)) :
    (upsert k f l).map Prod.fst =
      if k ∈ l.map Prod.fst then l.map Prod.fst else l.map Prod.fst ++ [k] := by
  induction l with
  | nil => simp [upsert]
  | cons e l ih =>
    by_cases he : e.1 = k
    · simp [upsert, he]
    · have hk : k ≠ e.1 := fun h => he h.symm
      simp only [upsert, if_neg he, List.map_cons, ih, List.mem_cons, hk, false_or]
      split <;> simp

theorem upsert_nodup {k : κ} {f : Option ν → ν} {l : List (κ × ν)} (h : (l.map Prod.fst).Nodup) :
    ((upsert k f l).map Prod.fst).Nodup := by
  rw [upsert_keys]
  split
  · exact h
  · next hk => exact h.append (List.nodup_singleton _) (by simpa using hk)

theorem groupFold_nodup (key : α → κ) (push : ν → α → ν) (start : ν) (items : List α) :
    ((groupFold key push start items).map Prod.fst).Nodup := by
  have hfold (map : List (κ × ν)) (hmap : (map.map Prod.fst).Nodup) :
      ((items.foldl (fun map x => upsert (key x) (fun o => push (o.getD start) x) map) map).map
        Prod.fst).Nodup := by
    induction items generalizing map with
    | nil => exact hmap
    | cons x items ih => exact ih _ (upsert_nodup hmap)
  exact hfold [] List.nodup_nil

/-- The group of a key. -/
theorem lookup_groupFold (key : α → κ) (push : ν → α → ν) (start : ν) (items : List α) (k : κ) :
    (groupFold key push start items).lookup k =
      if (items.filter fun x => key x = k) = [] then none
      else some ((items.filter fun x => key x = k).foldl push start) := by
  have hfold (map : List (κ × ν)) :
      (items.foldl (fun map x => upsert (key x) (fun o => push (o.getD start) x) map) map).lookup k =
        if (items.filter fun x => key x = k) = [] then map.lookup k
        else some ((items.filter fun x => key x = k).foldl push ((map.lookup k).getD start)) := by
    induction items generalizing map with
    | nil => simp
    | cons x items ih =>
      rw [List.foldl_cons, ih, lookup_upsert]
      by_cases hx : key x = k
      · subst hx
        by_cases hrest : (items.filter fun y => key y = key x) = []
        · simp [hrest]
        · simp [hrest]
      · have hx' : ¬k = key x := fun h => hx h.symm
        simp [hx, hx']
  exact hfold []

theorem mem_iff_lookup {l : List (κ × ν)} (h : (l.map Prod.fst).Nodup) {k : κ} {v : ν} :
    (k, v) ∈ l ↔ l.lookup k = some v := by
  induction l with
  | nil => simp
  | cons e l ih =>
    obtain ⟨a, u⟩ := e
    rw [List.map_cons, List.nodup_cons] at h
    by_cases hk : k = a
    · subst hk
      have hnot : (k, v) ∉ l := fun hmem => h.1 (List.mem_map.mpr ⟨_, hmem, rfl⟩)
      simp [List.lookup_cons, hnot, eq_comm]
    · have hbeq : (k == a) = false := by simpa using hk
      simp [List.lookup_cons, hbeq, hk, ih h.2]

/-- The entries are the groups that have an item. -/
theorem mem_groupFold {key : α → κ} {push : ν → α → ν} {start : ν} {items : List α} {k : κ} {v : ν} :
    (k, v) ∈ groupFold key push start items ↔
      (∃ x ∈ items, key x = k) ∧ v = (items.filter fun x => key x = k).foldl push start := by
  rw [mem_iff_lookup (groupFold_nodup key push start items), lookup_groupFold]
  by_cases hnil : (items.filter fun x => key x = k) = []
  · rw [if_pos hnil]
    have hnone : ¬∃ x ∈ items, key x = k := by simpa using hnil
    simp [hnone]
  · rw [if_neg hnil]
    have hsome : ∃ x ∈ items, key x = k := by simpa using hnil
    rw [Option.some.injEq, and_iff_right hsome]
    exact eq_comm

end S3s.Grouping
