import Mathlib.Data.List.Basic
import Mathlib.Tactic.Common

/-! # Fragmented input

A stream hands out its content in fragments and then ends, or fails. A reader
holds a pushed-back prefix and the fragments still to come. What the reader can
depend on, if it does not depend on the fragment boundaries, is the view: the
concatenation of everything up to the end, and the failure that ends it.
-/
namespace S3s.Fragments

variable {α ε : Type}

/-- The results of polling a stream until its end: fragments and failures. -/
abbrev Body (α ε : Type) := List (Except ε (List α))

/-- The content before the end of the stream or its first failure. -/
def Body.content : Body α ε → List α
  | [] => []
  | .ok f :: body => f ++ Body.content body
  | .error _ :: _ => []

/-- The first failure, when there is one. -/
def Body.fault : Body α ε → Option ε
  | [] => none
  | .ok _ :: body => Body.fault body
  | .error e :: _ => some e

/-- A stream without failures. -/
def Body.ofFragments (fs : List (List α)) : Body α ε := fs.map .ok

@[simp] theorem Body.content_ofFragments (fs : List (List α)) :
    (Body.ofFragments fs : Body α ε).content = fs.flatten := by
  induction fs with
  | nil => rfl
  | cons f fs ih => simpa [Body.ofFragments, Body.content] using ih

@[simp] theorem Body.fault_ofFragments (fs : List (List α)) :
    (Body.ofFragments fs : Body α ε).fault = none := by
  induction fs with
  | nil => rfl
  | cons f fs ih => simpa [Body.ofFragments, Body.fault] using ih

/-- What is left to read, fragment boundaries forgotten. -/
@[ext] structure View (α ε : Type) where
  content : List α
  fault : Option ε
deriving DecidableEq

/-- The view of a reader that holds `prev` in front of `body`. -/
def view (prev : List α) (body : Body α ε) : View α ε := ⟨prev ++ body.content, body.fault⟩

@[simp] theorem view_content (prev : List α) (body : Body α ε) :
    (view prev body).content = prev ++ body.content := rfl

@[simp] theorem view_fault (prev : List α) (body : Body α ε) :
    (view prev body).fault = body.fault := rfl

theorem view_ok (prev f : List α) (body : Body α ε) :
    view prev (.ok f :: body) = view (prev ++ f) body := by
  simp [view, Body.content, Body.fault]

theorem view_nil (prev : List α) : view prev ([] : Body α ε) = ⟨prev, none⟩ := by
  simp [view, Body.content, Body.fault]

theorem view_error (prev : List α) (e : ε) (body : Body α ε) :
    view prev (.error e :: body) = ⟨prev, some e⟩ := by
  simp [view, Body.content, Body.fault]

/-- Two splits of one content have the same view. -/
theorem view_ofFragments (prev : List α) (fs : List (List α)) :
    view prev (Body.ofFragments fs : Body α ε) = ⟨prev ++ fs.flatten, none⟩ := by
  simp [view]

namespace View

/-- The view after `n` elements have been consumed. -/
def drop (n : Nat) (v : View α ε) : View α ε := ⟨v.content.drop n, v.fault⟩

@[simp] theorem drop_content (n : Nat) (v : View α ε) : (v.drop n).content = v.content.drop n := rfl

@[simp] theorem drop_fault (n : Nat) (v : View α ε) : (v.drop n).fault = v.fault := rfl

@[simp] theorem drop_zero (v : View α ε) : v.drop 0 = v := rfl

/-- A reader asks for one more fragment although the content is exhausted: it meets the end of
the stream, or the failure. -/
def exhausted (v : View α ε) {β : Type} (eof : β) (failed : ε → β) : β :=
  match v.fault with
  | none => eof
  | some e => failed e

end View

theorem view_drop_left (prev : List α) (body : Body α ε) (n : Nat) (h : n ≤ prev.length) :
    view (prev.drop n) body = (view prev body).drop n := by
  simp [view, View.drop, List.drop_append_of_le_length h]

theorem view_drop_past (prev : List α) (body : Body α ε) (n : Nat) (h : prev.length ≤ n) :
    (view [] body).drop (n - prev.length) = (view prev body).drop n := by
  apply View.ext
  · simp only [View.drop_content, view_content, List.nil_append]
    rw [List.drop_append, List.drop_of_length_le h, List.nil_append]
  · rfl

theorem view_take_past (prev : List α) (body : Body α ε) (n : Nat) (h : prev.length ≤ n) :
    (view prev body).content.take n = prev ++ (view [] body).content.take (n - prev.length) := by
  simp only [view_content, List.nil_append]
  rw [List.take_append, List.take_of_length_le h]

theorem view_length_past (prev : List α) (body : Body α ε) (n : Nat) (h : prev.length ≤ n) :
    (view [] body).content.length < n - prev.length ↔ (view prev body).content.length < n := by
  simp only [view_content, List.length_append, List.nil_append]
  omega

end S3s.Fragments
