import Mathlib.Data.List.Sort
import S3s.Library.Sorted

/-! # Pages of an ordered listing

Two ascending lists are merged up to a limit, so that each page of the listing tells apart what
comes from the one list and from the other. A page continues behind the key that the page before
it ends with.
-/
namespace S3s.Pages
open Sorted

variable {α β κ : Type} {le : κ → κ → Bool}

/-- The strict order. -/
def lt (le : κ → κ → Bool) (a b : κ) : Bool := !le b a

/-- The keys are strictly ascending. -/
def Strict {γ : Type} (le : κ → κ → Bool) (key : γ → κ) (l : List γ) : Prop :=
  l.Pairwise fun a b => lt le (key a) (key b) = true

/-- What is taken from the two lists, the key taken last, and what is left. -/
structure Page (α β κ : Type) where
  lefts : List α
  rights : List β
  last : Option κ
  restLefts : List α
  restRights : List β

def Page.addLeft (a : α) (page : Page α β κ) : Page α β κ := { page with lefts := a :: page.lefts }

def Page.addRight (b : β) (page : Page α β κ) : Page α β κ := { page with rights := b :: page.rights }

section Merge

variable (le) (keyL : α → κ) (keyR : β → κ)

/-- The smaller key is taken first, up to the limit. -/
def merge : Nat → Option κ → List α → List β → Page α β κ
  | 0, last, l, r => ⟨[], [], last, l, r⟩
  | n + 1, _, a :: l, b :: r =>
    if lt le (keyL a) (keyR b) then (merge n (some (keyL a)) l (b :: r)).addLeft a
    else (merge n (some (keyR b)) (a :: l) r).addRight b
  | n + 1, _, a :: l, [] => (merge n (some (keyL a)) l []).addLeft a
  | n + 1, _, [], b :: r => (merge n (some (keyR b)) [] r).addRight b
  | _ + 1, last, [], [] => ⟨[], [], last, [], []⟩

/-- The key of an entry of the whole listing. -/
def keyOf : α ⊕ β → κ := Sum.elim keyL keyR

end Merge

/-- What comes from the one list. -/
def leftsOf (l : List (α ⊕ β)) : List α := l.filterMap Sum.getLeft?

/-- What comes from the other list. -/
def rightsOf (l : List (α ⊕ β)) : List β := l.filterMap Sum.getRight?

section Sides

variable (l l' : List (α ⊕ β))

@[simp] theorem leftsOf_inl (a : α) : leftsOf (Sum.inl a :: l) = a :: leftsOf l := rfl

@[simp] theorem leftsOf_inr (b : β) : leftsOf (Sum.inr b :: l) = leftsOf l := rfl

@[simp] theorem rightsOf_inl (a : α) : rightsOf (Sum.inl a :: l) = rightsOf l := rfl

@[simp] theorem rightsOf_inr (b : β) : rightsOf (Sum.inr b :: l) = b :: rightsOf l := rfl

theorem leftsOf_append : leftsOf (l ++ l') = leftsOf l ++ leftsOf l' := List.filterMap_append

theorem rightsOf_append : rightsOf (l ++ l') = rightsOf l ++ rightsOf l' := List.filterMap_append

theorem leftsOf_filter (p : α ⊕ β → Bool) :
    leftsOf (l.filter p) = (leftsOf l).filter fun a => p (.inl a) := by
  induction l with
  | nil => rfl
  | cons x l ih =>
    cases x with
    | inl a => by_cases h : p (.inl a) = true <;> simp [h, ih]
    | inr b => by_cases h : p (.inr b) = true <;> simp [h, ih]

theorem rightsOf_filter (p : α ⊕ β → Bool) :
    rightsOf (l.filter p) = (rightsOf l).filter fun b => p (.inr b) := by
  induction l with
  | nil => rfl
  | cons x l ih =>
    cases x with
    | inl a => by_cases h : p (.inl a) = true <;> simp [h, ih]
    | inr b => by_cases h : p (.inr b) = true <;> simp [h, ih]

theorem length_sides : (leftsOf l).length + (rightsOf l).length = l.length := by
  induction l with
  | nil => rfl
  | cons x l ih =>
    cases x with
    | inl a =>
      rw [leftsOf_inl, rightsOf_inl, List.length_cons, List.length_cons]
      omega
    | inr b =>
      rw [leftsOf_inr, rightsOf_inr, List.length_cons, List.length_cons]
      omega

theorem mem_leftsOf {a : α} : a ∈ leftsOf l ↔ Sum.inl a ∈ l := by simp [leftsOf]

theorem mem_rightsOf {b : β} : b ∈ rightsOf l ↔ Sum.inr b ∈ l := by simp [rightsOf]

end Sides

section Strict

variable {γ : Type} {key : γ → κ}

theorem lt_trans (hle : IsOrder le) {a b c : κ} (hab : lt le a b = true) (hbc : lt le b c = true) :
    lt le a c = true := by
  simp only [lt, Bool.not_eq_true'] at *
  by_contra hca
  have hca' : le c a = true := by simpa using hca
  have hab' : le a b = true := (hle.total a b).resolve_right (by simp [hab])
  simp [hle.trans c a b hca' hab'] at hbc

theorem lt_irrefl (hle : IsOrder le) (a : κ) : lt le a a = false := by
  have hrefl : le a a = true := (hle.total a a).elim id id
  simp [lt, hrefl]

theorem lt_of_le_of_ne (hle : IsOrder le) {a b : κ} (h : le a b = true) (hne : a ≠ b) :
    lt le a b = true := by
  by_contra hnot
  have hba : le b a = true := by simpa [lt] using hnot
  exact hne (hle.antisymm a b h hba)

theorem le_of_lt (hle : IsOrder le) {a b : κ} (h : lt le a b = true) : le a b = true := by
  have hba : le b a = false := by simpa [lt] using h
  exact (hle.total a b).resolve_right (by simp [hba])

/-- Behind the first places of a strictly ascending list are just the greater keys. -/
theorem filter_gt_last (hle : IsOrder le) {l : List γ} (h : Strict le key l) {n : Nat} {x : γ}
    (hx : (l.take n).getLast? = some x) : (l.filter fun y => lt le (key x) (key y)) = l.drop n := by
  obtain ⟨front, hfront⟩ := List.getLast?_eq_some_iff.mp hx
  have hsplit : l = front ++ x :: l.drop n := by
    conv_lhs => rw [← List.take_append_drop n l, hfront]
    simp
  have hrest : ∀ y ∈ l.drop n, lt le (key x) (key y) = true := by
    intro y hy
    rw [Strict, hsplit] at h
    exact (List.pairwise_cons.mp (List.pairwise_append.mp h).2.1).1 y hy
  have hbefore : ∀ y ∈ front, lt le (key x) (key y) = false := by
    intro y hy
    rw [Strict, hsplit] at h
    have hlt := (List.pairwise_append.mp h).2.2 y hy x List.mem_cons_self
    by_contra hnot
    have htrans := lt_trans hle hlt (by simpa using hnot)
    simp [lt_irrefl hle] at htrans
  calc (l.filter fun y => lt le (key x) (key y))
      = (front ++ x :: l.drop n).filter fun y => lt le (key x) (key y) := by rw [← hsplit]
    _ = l.drop n := by
      rw [List.filter_append, List.filter_eq_nil_iff.mpr (by simpa using hbefore),
        List.filter_cons_of_neg (by simp [lt_irrefl hle]), List.filter_eq_self.mpr hrest,
        List.nil_append]

/-- Two strictly ascending lists with the same elements are the same list. -/
theorem strict_unique (hle : IsOrder le) {l l' : List γ} (h : Strict le key l) (h' : Strict le key l')
    (hmem : ∀ x, x ∈ l ↔ x ∈ l') : l = l' := by
  have hirrefl (x y : γ) (hxy : lt le (key x) (key y) = true) : x ≠ y := by
    rintro rfl
    simp [lt_irrefl hle] at hxy
  have hnodup : l.Nodup := h.imp fun {a b} => hirrefl a b
  have hnodup' : l'.Nodup := h'.imp fun {a b} => hirrefl a b
  refine ((List.perm_ext_iff_of_nodup hnodup hnodup').mpr hmem).eq_of_pairwise ?_ h h'
  intro a b _ _ hab hba
  have habsurd := lt_trans hle hab hba
  simp [lt_irrefl hle] at habsurd

/-- Sorting keys that are all different makes them strictly ascending. -/
theorem strict_insertionSort (hle : IsOrder le) {l : List γ}
    (hdistinct : l.Pairwise fun a b => key a ≠ key b) :
    Strict le key (l.insertionSort fun a b => le (key a) (key b) = true) := by
  let r : γ → γ → Prop := fun a b => le (key a) (key b) = true
  have : Std.Total r := ⟨fun a b => hle.total (key a) (key b)⟩
  have : IsTrans γ r := ⟨fun a b c => hle.trans (key a) (key b) (key c)⟩
  have hsorted := List.pairwise_insertionSort r l
  have hne : (l.insertionSort r).Pairwise fun a b => key a ≠ key b :=
    hdistinct.perm (List.perm_insertionSort r l).symm fun h => h.symm
  exact hsorted.imp₂ (fun a b => lt_of_le_of_ne hle) hne

theorem Strict.filter {l : List γ} (h : Strict le key l) (p : γ → Bool) :
    Strict le key (l.filter p) :=
  h.sublist List.filter_sublist

end Strict

section Merge

variable {keyL : α → κ} {keyR : β → κ}

/-- A page is the beginning of the whole listing. -/
theorem merge_eq (hle : IsOrder le) {whole : List (α ⊕ β)} (h : Strict le (keyOf keyL keyR) whole)
    (n : Nat) (last : Option κ) :
    merge le keyL keyR n last (leftsOf whole) (rightsOf whole) =
      { lefts := leftsOf (whole.take n)
        rights := rightsOf (whole.take n)
        last := ((whole.take n).getLast?.map (keyOf keyL keyR)).or last
        restLefts := leftsOf (whole.drop n)
        restRights := rightsOf (whole.drop n) } := by
  induction n generalizing whole last with
  | zero => simp [merge, leftsOf, rightsOf]
  | succ n ih =>
    cases whole with
    | nil => simp [merge, leftsOf, rightsOf]
    | cons x whole =>
      obtain ⟨hhead, htail⟩ := List.pairwise_cons.mp h
      have hlast (o : Option κ) : ((whole.take n).getLast?.map (keyOf keyL keyR)).or
          (some (keyOf keyL keyR x)) =
          (((x :: whole).take (n + 1)).getLast?.map (keyOf keyL keyR)).or o := by
        rw [List.take_succ_cons, List.getLast?_cons]
        cases (whole.take n).getLast? <;> simp
      cases x with
      | inl a =>
        have hstep : merge le keyL keyR (n + 1) last (leftsOf (Sum.inl a :: whole))
            (rightsOf (Sum.inl a :: whole)) =
            (merge le keyL keyR n (some (keyL a)) (leftsOf whole) (rightsOf whole)).addLeft a := by
          rw [leftsOf_inl, rightsOf_inl]
          cases hr : rightsOf whole with
          | nil => rw [merge]
          | cons b r =>
            have hb : Sum.inr b ∈ whole := (mem_rightsOf whole).mp (by simp [hr])
            have hlt : lt le (keyL a) (keyR b) = true := hhead _ hb
            rw [merge, if_pos hlt]
        rw [hstep, ih htail, ← hlast last]
        rfl
      | inr b =>
        have hstep : merge le keyL keyR (n + 1) last (leftsOf (Sum.inr b :: whole))
            (rightsOf (Sum.inr b :: whole)) =
            (merge le keyL keyR n (some (keyR b)) (leftsOf whole) (rightsOf whole)).addRight b := by
          rw [leftsOf_inr, rightsOf_inr]
          cases hl : leftsOf whole with
          | nil => rw [merge]
          | cons a l =>
            have ha : Sum.inl a ∈ whole := (mem_leftsOf whole).mp (by simp [hl])
            have hlt : lt le (keyR b) (keyL a) = true := hhead _ ha
            have hnot : ¬lt le (keyL a) (keyR b) = true := by
              intro hlt'
              have habsurd := lt_trans hle hlt hlt'
              simp [lt_irrefl hle] at habsurd
            rw [merge, if_neg hnot]
        rw [hstep, ih htail, ← hlast last]
        rfl

/-- Each side of an ascending listing is ascending. -/
theorem Strict.lefts {whole : List (α ⊕ β)} (h : Strict le (keyOf keyL keyR) whole) :
    Strict le keyL (leftsOf whole) := by
  refine List.pairwise_filterMap.mpr (h.imp ?_)
  intro x y hxy a ha b hb
  obtain rfl := Sum.getLeft?_eq_some_iff.mp ha
  obtain rfl := Sum.getLeft?_eq_some_iff.mp hb
  exact hxy

theorem Strict.rights {whole : List (α ⊕ β)} (h : Strict le (keyOf keyL keyR) whole) :
    Strict le keyR (rightsOf whole) := by
  refine List.pairwise_filterMap.mpr (h.imp ?_)
  intro x y hxy a ha b hb
  obtain rfl := Sum.getRight?_eq_some_iff.mp ha
  obtain rfl := Sum.getRight?_eq_some_iff.mp hb
  exact hxy

/-- The whole listing, for two lists whose keys are all different. -/
def wholeOf (le : κ → κ → Bool) (keyL : α → κ) (keyR : β → κ) (l : List α) (r : List β) :
    List (α ⊕ β) :=
  (l.map Sum.inl ++ r.map Sum.inr).insertionSort fun a b =>
    le (keyOf keyL keyR a) (keyOf keyL keyR b) = true

theorem mem_wholeOf {l : List α} {r : List β} {x : α ⊕ β} :
    x ∈ wholeOf le keyL keyR l r ↔ x ∈ l.map Sum.inl ++ r.map Sum.inr :=
  (List.perm_insertionSort _ _).mem_iff

theorem strict_wholeOf (hle : IsOrder le) {l : List α} {r : List β} (hl : Strict le keyL l)
    (hr : Strict le keyR r) (hapart : ∀ a ∈ l, ∀ b ∈ r, keyL a ≠ keyR b) :
    Strict le (keyOf keyL keyR) (wholeOf le keyL keyR l r) := by
  have hne {x y : κ} (h : lt le x y = true) : x ≠ y := by
    rintro rfl
    simp [lt_irrefl hle] at h
  refine strict_insertionSort hle (List.pairwise_append.mpr ⟨?_, ?_, ?_⟩)
  · exact List.pairwise_map.mpr (hl.imp fun {a b} h => hne h)
  · exact List.pairwise_map.mpr (hr.imp fun {a b} h => hne h)
  · rintro _ hx _ hy
    obtain ⟨a, ha, rfl⟩ := List.mem_map.mp hx
    obtain ⟨b, hb, rfl⟩ := List.mem_map.mp hy
    exact hapart a ha b hb

theorem leftsOf_wholeOf (hle : IsOrder le) {l : List α} {r : List β} (hl : Strict le keyL l)
    (hr : Strict le keyR r) (hapart : ∀ a ∈ l, ∀ b ∈ r, keyL a ≠ keyR b) :
    leftsOf (wholeOf le keyL keyR l r) = l := by
  refine strict_unique hle ?_ hl fun a => ?_
  · exact (strict_wholeOf hle hl hr hapart).lefts
  · rw [mem_leftsOf, mem_wholeOf]
    simp

theorem rightsOf_wholeOf (hle : IsOrder le) {l : List α} {r : List β} (hl : Strict le keyL l)
    (hr : Strict le keyR r) (hapart : ∀ a ∈ l, ∀ b ∈ r, keyL a ≠ keyR b) :
    rightsOf (wholeOf le keyL keyR l r) = r := by
  refine strict_unique hle ?_ hr fun b => ?_
  · exact (strict_wholeOf hle hl hr hapart).rights
  · rw [mem_rightsOf, mem_wholeOf]
    simp

end Merge

end S3s.Pages
