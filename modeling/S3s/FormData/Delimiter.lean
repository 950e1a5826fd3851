import Mathlib.Order.Bounds.Defs
import S3s.Library.Bytes
import S3s.Library.Search

/-! # Delimiters and the search for them in data

Data is passed on as soon as it cannot be the beginning of a delimiter. In a long
haystack exactly the tail that could become one is kept back, in a short one
always as much as could.
-/
namespace S3s.FormData
open Search

/-- `ADAPTIVE_TAIL_THRESHOLD` -/
def adaptiveTailThreshold : Nat := 2048

/-- `DataSearch` -/
inductive DataSearch where
  | found (index : Nat)
  | emit (stop : Nat)
  | keepAll
deriving DecidableEq

/-- The loop of `delimiter_prefix_suffix_len` over what is left of the window. -/
def scanTail (delimiter : Bytes) (first : UInt8) (max : Nat) : Bytes → Nat
  | [] => 0
  | c :: tail =>
    if c == first && decide ((c :: tail).length ≤ max) &&
        (c :: tail) == delimiter.take (c :: tail).length then (c :: tail).length
    else scanTail delimiter first max tail

/-- `delimiter_prefix_suffix_len` -/
def delimiterPrefixSuffixLen (haystack delimiter : Bytes) : Nat :=
  match delimiter.head? with
  | none => 0
  | some first =>
    let max := delimiter.length - 1
    let window := haystack.drop (haystack.length - max)
    if !window.contains first then 0 else scanTail delimiter first max window

/-- How much of a haystack without a delimiter is kept back. -/
def retain (haystack delimiter : Bytes) : Nat :=
  if haystack.length > adaptiveTailThreshold then delimiterPrefixSuffixLen haystack delimiter
  else delimiter.length - 1

/-- `search_data` -/
def searchData (haystack delimiter : Bytes) : DataSearch :=
  match find delimiter haystack with
  | some index => .found index
  | none =>
    if haystack.length > retain haystack delimiter then
      .emit (haystack.length - retain haystack delimiter)
    else .keepAll

/-- `make_first_boundary` -/
def makeFirstBoundary (boundary : Bytes) : Bytes := ascii "--" ++ boundary

/-- `make_delimiter` -/
def makeDelimiter (boundary : Bytes) : Bytes := ascii "\r\n--" ++ boundary

variable {haystack delimiter : Bytes}

theorem scanTail_le (delimiter : Bytes) (first : UInt8) (max : Nat) (window : Bytes) :
    scanTail delimiter first max window ≤ max := by
  induction window with
  | nil => exact Nat.zero_le _
  | cons c tail ih =>
    rw [scanTail]
    split
    · next h =>
      rw [Bool.and_eq_true, Bool.and_eq_true, decide_eq_true_eq] at h
      exact h.1.2
    · exact ih

/-- The tail that is found is at least as long as every tail that starts a delimiter. -/
theorem le_scanTail {first : UInt8} {max : Nat} {window tail : Bytes} (hsuffix : tail <:+ window)
    (hfirst : tail.head? = some first) (hmax : tail.length ≤ max)
    (hpre : tail = delimiter.take tail.length) :
    tail.length ≤ scanTail delimiter first max window := by
  induction window with
  | nil =>
    rw [List.suffix_nil] at hsuffix
    rw [hsuffix]
    exact Nat.zero_le _
  | cons c rest ih =>
    rw [scanTail]
    split
    · exact hsuffix.length_le
    · next h =>
      rcases List.suffix_cons_iff.mp hsuffix with rfl | hrest
      · refine absurd ?_ h
        rw [List.head?_cons, Option.some.injEq] at hfirst
        rw [Bool.and_eq_true, Bool.and_eq_true, beq_iff_eq, decide_eq_true_eq, beq_iff_eq]
        exact ⟨⟨hfirst, hmax⟩, hpre⟩
      · exact ih hrest

/-- What is found starts a delimiter. -/
theorem take_scanTail (delimiter : Bytes) (first : UInt8) (max : Nat) (window : Bytes) :
    delimiter.take (scanTail delimiter first max window) <:+ window := by
  induction window with
  | nil => simp [scanTail]
  | cons c tail ih =>
    rw [scanTail]
    split
    · next h =>
      rw [Bool.and_eq_true, Bool.and_eq_true, beq_iff_eq (a := c :: tail)] at h
      exact h.2 ▸ List.suffix_rfl
    · exact ih.trans (List.suffix_cons c tail)

theorem delimiterPrefixSuffixLen_le (haystack delimiter : Bytes) :
    delimiterPrefixSuffixLen haystack delimiter ≤ delimiter.length - 1 := by
  unfold delimiterPrefixSuffixLen
  split
  · exact Nat.zero_le _
  · simp only
    split
    · exact Nat.zero_le _
    · exact scanTail_le _ _ _ _

/-- Every tail of the haystack that is a proper beginning of the delimiter is kept back. -/
theorem le_delimiterPrefixSuffixLen {tail : Bytes} (hsuffix : tail <:+ haystack)
    (hproper : tail.length < delimiter.length) (hpre : tail = delimiter.take tail.length) :
    tail.length ≤ delimiterPrefixSuffixLen haystack delimiter := by
  unfold delimiterPrefixSuffixLen
  cases tail with
  | nil => exact Nat.zero_le _
  | cons c rest =>
    cases delimiter with
    | nil => exact absurd hproper (by simp)
    | cons first others =>
      have hc : c = first := by
        have hhead := congrArg List.head? hpre
        rw [List.length_cons, List.take_succ_cons, List.head?_cons, List.head?_cons] at hhead
        exact Option.some.inj hhead
      have hwindow : c :: rest <:+ haystack.drop (haystack.length - ((first :: others).length - 1)) := by
        refine List.suffix_of_suffix_length_le hsuffix (List.drop_suffix _ _) ?_
        have hlen := hsuffix.length_le
        rw [List.length_drop]
        omega
      simp only [List.head?_cons]
      rw [if_neg]
      · refine le_scanTail hwindow (by rw [List.head?_cons, hc]) ?_ hpre
        omega
      · rw [Bool.not_eq_true', Bool.not_eq_false, List.contains_iff_mem]
        rw [← hc]
        exact hwindow.subset List.mem_cons_self

/-- What is kept back of a long haystack starts a delimiter. -/
theorem take_delimiterPrefixSuffixLen (haystack delimiter : Bytes) :
    delimiter.take (delimiterPrefixSuffixLen haystack delimiter) <:+ haystack := by
  unfold delimiterPrefixSuffixLen
  split
  · simp
  · simp only
    split
    · simp
    · exact (take_scanTail _ _ _ _).trans (List.drop_suffix _ _)

theorem isGreatest_delimiterPrefixSuffixLen (haystack : Bytes) (hne : delimiter ≠ []) :
    IsGreatest {n | n < delimiter.length ∧ delimiter.take n <:+ haystack}
      (delimiterPrefixSuffixLen haystack delimiter) := by
  have hpos : 0 < delimiter.length := List.length_pos_of_ne_nil hne
  have hle := delimiterPrefixSuffixLen_le haystack delimiter
  constructor
  · exact ⟨by omega, take_delimiterPrefixSuffixLen haystack delimiter⟩
  · rintro n ⟨hn, hsuffix⟩
    have hlen : (delimiter.take n).length = n := List.length_take_of_le hn.le
    have hproper : (delimiter.take n).length < delimiter.length := by rwa [hlen]
    have hpre : delimiter.take n = delimiter.take (delimiter.take n).length := by rw [hlen]
    have hkept := le_delimiterPrefixSuffixLen hsuffix hproper hpre
    rwa [hlen] at hkept

theorem retain_le (haystack delimiter : Bytes) : retain haystack delimiter ≤ delimiter.length - 1 := by
  unfold retain
  split
  · exact delimiterPrefixSuffixLen_le haystack delimiter
  · exact Nat.le_refl _

/-- A beginning of the delimiter at the end of the haystack that goes on to a whole one. -/
theorem tail_of_occurrence {more : Bytes} {j : Nat} (hj : j ≤ haystack.length)
    (hlen : (haystack.drop j).length < delimiter.length)
    (hp : delimiter <+: (haystack ++ more).drop j) :
    haystack.drop j = delimiter.take (haystack.drop j).length := by
  rw [List.drop_append_of_le_length hj] at hp
  obtain ⟨rest, hrest⟩ := hp
  have htake := congrArg (List.take (haystack.drop j).length) hrest
  rw [List.take_left' rfl, List.take_append_of_le_length (by omega)] at htake
  exact htake.symm

/-- However the data goes on, a delimiter to come starts in the part that is kept back. -/
theorem noneBefore_retain (hne : delimiter ≠ []) (hfind : find delimiter haystack = none)
    (more : Bytes) :
    NoneBefore delimiter (haystack ++ more) (haystack.length - retain haystack delimiter) := by
  have hlast : NoneBefore delimiter (haystack ++ more) (haystack.length - (delimiter.length - 1)) :=
    noneBefore_of_find_eq_none hfind hne
  unfold retain
  split
  · intro j hj hp
    have hjlast : haystack.length - (delimiter.length - 1) ≤ j := by
      by_contra hlt
      exact hlast j (by omega) hp
    have hpos : 0 < delimiter.length := List.length_pos_of_ne_nil hne
    have hjlen : (haystack.drop j).length < delimiter.length := by
      rw [List.length_drop]
      omega
    have htail := tail_of_occurrence (by omega) hjlen hp
    have hkept := le_delimiterPrefixSuffixLen (List.drop_suffix j haystack) hjlen htail
    rw [List.length_drop] at hkept
    omega
  · exact hlast

theorem searchData_found {index : Nat} :
    searchData haystack delimiter = .found index ↔ find delimiter haystack = some index := by
  unfold searchData
  cases find delimiter haystack with
  | some i => simp
  | none =>
    simp only
    split <;> simp

theorem searchData_emit_bounds {stop : Nat} (h : searchData haystack delimiter = .emit stop) :
    0 < stop ∧ stop ≤ haystack.length := by
  unfold searchData at h
  split at h
  · cases h
  · split at h
    · cases h
      omega
    · cases h

/-- What is passed on before the haystack is complete: no delimiter starts in it, however the data
goes on, and less than a delimiter is kept back. -/
theorem searchData_emit {stop : Nat} (hne : delimiter ≠ [])
    (h : searchData haystack delimiter = .emit stop) :
    find delimiter haystack = none ∧ 0 < stop ∧ stop ≤ haystack.length ∧
      haystack.length < stop + delimiter.length ∧
      ∀ more, NoneBefore delimiter (haystack ++ more) stop := by
  have hpos : 0 < delimiter.length := List.length_pos_of_ne_nil hne
  have hle := retain_le haystack delimiter
  unfold searchData at h
  cases hfind : find delimiter haystack with
  | some i => rw [hfind] at h; cases h
  | none =>
    rw [hfind] at h
    simp only at h
    split at h
    · cases h
      exact ⟨rfl, by omega, Nat.sub_le _ _, by omega, noneBefore_retain hne hfind⟩
    · cases h

/-- The whole haystack is kept back only when it is shorter than a delimiter. -/
theorem searchData_keepAll (hne : delimiter ≠ []) (h : searchData haystack delimiter = .keepAll) :
    find delimiter haystack = none ∧ haystack.length < delimiter.length := by
  have hpos : 0 < delimiter.length := List.length_pos_of_ne_nil hne
  have hle := retain_le haystack delimiter
  unfold searchData at h
  cases hfind : find delimiter haystack with
  | some i => rw [hfind] at h; cases h
  | none =>
    rw [hfind] at h
    simp only at h
    split at h
    · cases h
    · exact ⟨rfl, by omega⟩

theorem makeDelimiter_ne_nil (boundary : Bytes) : makeDelimiter boundary ≠ [] :=
  List.cons_ne_nil _ _

/-- The search in data: nothing is passed on that a delimiter starts in, however the data goes on; a
delimiter that is found is the first one; everything is kept back only of less than a delimiter; and
the tail that is measured is the longest that a delimiter may start with. -/
theorem searchData_exact (boundary haystack : Bytes) :
    (∀ stop, searchData haystack (makeDelimiter boundary) = .emit stop →
      ∀ more, NoneBefore (makeDelimiter boundary) (haystack ++ more) stop) ∧
    (∀ index, searchData haystack (makeDelimiter boundary) = .found index →
      makeDelimiter boundary <+: haystack.drop index ∧
        NoneBefore (makeDelimiter boundary) haystack index) ∧
    (searchData haystack (makeDelimiter boundary) = .keepAll →
      haystack.length < (makeDelimiter boundary).length) ∧
    IsGreatest {n | n < (makeDelimiter boundary).length ∧ (makeDelimiter boundary).take n <:+ haystack}
      (delimiterPrefixSuffixLen haystack (makeDelimiter boundary)) := by
  have hne := makeDelimiter_ne_nil boundary
  refine ⟨?_, ?_, ?_, isGreatest_delimiterPrefixSuffixLen haystack hne⟩
  · intro stop hemit
    exact (searchData_emit hne hemit).2.2.2.2
  · intro index hfound
    exact (find_eq_some.mp (searchData_found.mp hfound)).2
  · intro hkeep
    exact (searchData_keepAll hne hkeep).2

/-- A repeated CR does not hide the tail that starts behind it. -/
example : delimiterPrefixSuffixLen (ascii "data\r\r\n-") (makeDelimiter (ascii "b")) = 3 := by decide

end S3s.FormData
