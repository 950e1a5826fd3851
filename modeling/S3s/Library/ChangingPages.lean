import S3s.Library.Pages

/-! # Pages of a listing that changes

Every page is taken from the listing of its own time, behind the last key of the page before. The
pages are ascending without duplicates, whatever the changes, and a key that is there all the time
is on one of them.
-/
namespace S3s.Pages
open Sorted

variable {γ κ : Type} (le : κ → κ → Bool) (key : γ → κ)

/-- What is behind a marker. -/
def behind (marker : Option κ) (l : List γ) : List γ :=
  l.filter fun x => marker.all fun m => lt le m (key x)

/-- The pages from a time and a marker on, up to one that holds all that is left. -/
inductive Turns (lists : Nat → List γ) : Nat → Option κ → List (List γ) → Prop
  | last (i : Nat) (marker : Option κ) : Turns lists i marker [behind le key marker (lists i)]
  | more (i n : Nat) (marker : Option κ) (x : γ) (pages : List (List γ))
      (hlast : ((behind le key marker (lists i)).take n).getLast? = some x)
      (hrest : Turns lists (i + 1) (some (key x)) pages) :
      Turns lists i marker ((behind le key marker (lists i)).take n :: pages)

variable {le : κ → κ → Bool} {key : γ → κ} {lists : Nat → List γ}

theorem mem_behind {marker : Option κ} {l : List γ} {x : γ} :
    x ∈ behind le key marker l ↔ x ∈ l ∧ ∀ m ∈ marker, lt le m (key x) = true := by
  rw [behind, List.mem_filter]
  apply and_congr_right
  intro _
  cases marker <;> simp

theorem Strict.behind {l : List γ} (h : Strict le key l) (marker : Option κ) :
    Strict le key (behind le key marker l) := h.filter _

namespace Turns

variable {i : Nat} {marker : Option κ} {pages : List (List γ)}

/-- A page holds what is there at its time. -/
theorem mem_lists (h : Turns le key lists i marker pages) {j : Nat} {page : List γ}
    (hpage : pages[j]? = some page) {x : γ} (hx : x ∈ page) : x ∈ lists (i + j) := by
  induction h generalizing j with
  | last i marker =>
    cases j with
    | zero =>
      obtain rfl := Option.some.inj hpage
      exact (mem_behind.mp hx).1
    | succ j => cases hpage
  | more i n marker last pages hlast hrest ih =>
    cases j with
    | zero =>
      obtain rfl := Option.some.inj hpage
      exact (mem_behind.mp (List.mem_of_mem_take hx)).1
    | succ j =>
      have hlater := ih hpage
      rwa [Nat.add_right_comm] at hlater

/-- All the pages are behind the marker. -/
theorem behind_marker (hle : IsOrder le) (h : Turns le key lists i marker pages) :
    ∀ x ∈ pages.flatten, ∀ m ∈ marker, lt le m (key x) = true := by
  induction h with
  | last i marker =>
    intro x hx
    rw [List.flatten_singleton] at hx
    exact (mem_behind.mp hx).2
  | more i n marker last pages hlast hrest ih =>
    have hbehind := (mem_behind.mp (List.mem_of_mem_take (List.mem_of_getLast? hlast))).2
    intro x hx m hm
    rw [List.flatten_cons, List.mem_append] at hx
    cases hx with
    | inl hx => exact (mem_behind.mp (List.mem_of_mem_take hx)).2 m hm
    | inr hx => exact lt_trans hle (hbehind m hm) (ih x hx _ rfl)

/-- The last key of an ascending page is its greatest. -/
theorem le_last (hle : IsOrder le) {l : List γ} (h : Strict le key l) {x y : γ}
    (hlast : l.getLast? = some x) (hy : y ∈ l) : le (key y) (key x) = true := by
  obtain ⟨front, rfl⟩ := List.getLast?_eq_some_iff.mp hlast
  rw [List.mem_append, List.mem_singleton] at hy
  cases hy with
  | inl hy => exact le_of_lt hle ((List.pairwise_append.mp h).2.2 y hy x List.mem_cons_self)
  | inr hy => exact hy ▸ (hle.total _ _).elim id id

/-- The pages are ascending, one behind the other. -/
theorem strict (hle : IsOrder le) (hstrict : ∀ i, Strict le key (lists i))
    (h : Turns le key lists i marker pages) : Strict le key pages.flatten := by
  induction h with
  | last i marker =>
    rw [List.flatten_singleton]
    exact (hstrict i).behind marker
  | more i n marker last pages hlast hrest ih =>
    have hpage : Strict le key ((behind le key marker (lists i)).take n) :=
      ((hstrict i).behind marker).sublist (List.take_sublist _ _)
    rw [List.flatten_cons]
    refine List.pairwise_append.mpr ⟨hpage, ih, ?_⟩
    intro x hx y hy
    have hlater := hrest.behind_marker hle y hy _ rfl
    by_cases hsame : key x = key last
    · rw [hsame]
      exact hlater
    · exact lt_trans hle (lt_of_le_of_ne hle (le_last hle hpage hlast hx) hsame) hlater

/-- A key that is behind the marker and there all the time is on one of the pages. -/
theorem complete (hle : IsOrder le) (hstrict : ∀ i, Strict le key (lists i))
    (h : Turns le key lists i marker pages) {k : κ} (hk : ∀ m ∈ marker, lt le m k = true)
    (hthere : ∀ j < pages.length, ∃ x ∈ lists (i + j), key x = k) :
    ∃ x ∈ pages.flatten, key x = k := by
  induction h with
  | last i marker =>
    obtain ⟨x, hx, rfl⟩ := hthere 0 Nat.one_pos
    refine ⟨x, ?_, rfl⟩
    rw [List.flatten_singleton]
    exact mem_behind.mpr ⟨hx, hk⟩
  | more i n marker last pages hlast hrest ih =>
    by_cases hbehind : lt le (key last) k = true
    · have hlater : ∀ j < pages.length, ∃ x ∈ lists (i + 1 + j), key x = k := by
        intro j hj
        have hnext := hthere (j + 1) (Nat.succ_lt_succ hj)
        rwa [← Nat.add_assoc, Nat.add_right_comm] at hnext
      obtain ⟨x, hx, rfl⟩ := ih (fun m hm => Option.some.inj hm ▸ hbehind) hlater
      refine ⟨x, ?_, rfl⟩
      rw [List.flatten_cons]
      exact List.mem_append_right _ hx
    · obtain ⟨x, hx, rfl⟩ := hthere 0 (Nat.succ_pos _)
      refine ⟨x, ?_, rfl⟩
      rw [List.flatten_cons]
      apply List.mem_append_left
      have hmem : x ∈ behind le key marker (lists i) := mem_behind.mpr ⟨hx, hk⟩
      rw [← List.take_append_drop n (behind le key marker (lists i)), List.mem_append] at hmem
      apply hmem.resolve_right
      rw [← filter_gt_last hle ((hstrict i).behind marker) hlast, List.mem_filter]
      exact fun hdropped => hbehind hdropped.2

end Turns

end S3s.Pages
