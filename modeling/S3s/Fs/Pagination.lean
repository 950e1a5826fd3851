import S3s.Fs.ListingSpec

/-! # Page after page

A client asks for page after page, each time with the token of the page before. It comes to an
end, and has then received the listing that a request without a limit is answered with.
-/
namespace S3s.Fs
open LexicalPath FileTree

section Loop

variable (fs : FileSystem) (disk : Tree Bytes UInt8)

/-- The answers to a request that is asked again with the token of each answer, until one is not
truncated. The limit may be another one each time. -/
def FileSystem.listPages (input : ListObjectsV2Input) (maxKeys : Nat → Int) :
    Nat → Nat → Option Bytes → Option (List ListObjectsV2Output)
  | 0, _, _ => none
  | turns + 1, i, token =>
    match fs.listObjectsV2 disk { input with continuationToken := token, maxKeys := some (maxKeys i) } with
    | .ok output =>
      if output.isTruncated then
        (listPages input maxKeys turns (i + 1) output.nextContinuationToken).map (output :: ·)
      else some [output]
    | .error _ => none

end Loop

/-- The objects of some pages. -/
def contentsOf (pages : List ListObjectsV2Output) : List Object :=
  pages.flatMap fun page => page.contents.getD []

/-- The common prefixes of some pages. -/
def prefixesOf (pages : List ListObjectsV2Output) : List Bytes :=
  pages.flatMap fun page => page.commonPrefixes.getD []

@[simp] theorem getD_nonEmpty {α : Type} (l : List α) : (nonEmpty l).getD [] = l := by
  cases l <;> simp [nonEmpty]

section Resume

variable {whole : List (Object ⊕ Bytes)} {startAfter token : Option Bytes}

/-- What of the whole listing is behind a token. -/
def restOf (whole : List (Object ⊕ Bytes)) (startAfter token : Option Bytes) : List (Object ⊕ Bytes) :=
  whole.filter fun x => isBehind (resumePoint token startAfter) (textOf x)

theorem isBehind_trans {marker : Option Bytes} {a b : Bytes} (ha : isBehind marker a = true)
    (hab : Pages.lt textLe a b = true) : isBehind marker b = true := by
  cases marker with
  | none => rfl
  | some m => exact Pages.lt_trans Http.bytes_isOrder ha hab

/-- A token that is behind `start_after` is where the listing resumes. -/
theorem resumePoint_of_behind {text : Bytes} (h : isBehind (resumePoint token startAfter) text = true) :
    resumePoint (some text) startAfter = some text := by
  cases startAfter with
  | none => rfl
  | some sa =>
    have hle : textLe sa text = true := by
      apply Pages.le_of_lt Http.bytes_isOrder
      cases token with
      | none => exact h
      | some ct =>
        by_cases hct : textLe sa ct = true
        · have hlt : Pages.lt textLe ct text = true := by simpa [resumePoint, isBehind, hct] using h
          by_cases heq : sa = ct
          · exact heq ▸ hlt
          · exact Pages.lt_trans Http.bytes_isOrder
              (Pages.lt_of_le_of_ne Http.bytes_isOrder hct heq) hlt
        · simpa [resumePoint, isBehind, hct] using h
    simp [resumePoint, hle]

/-- The next page goes on where this one ends. -/
theorem restOf_next (hstrict : Pages.Strict textLe textOf whole) {n : Nat} {x : Object ⊕ Bytes}
    (hx : ((restOf whole startAfter token).take n).getLast? = some x) :
    restOf whole startAfter (some (textOf x)) = (restOf whole startAfter token).drop n := by
  have hmem : x ∈ restOf whole startAfter token :=
    List.mem_of_mem_take (List.mem_of_getLast? hx)
  have hbehind : isBehind (resumePoint token startAfter) (textOf x) = true :=
    (List.mem_filter.mp hmem).2
  have hdrop : (restOf whole startAfter token).drop n =
      (restOf whole startAfter token).filter fun y => Pages.lt textLe (textOf x) (textOf y) :=
    (Pages.filter_gt_last Http.bytes_isOrder (hstrict.filter _) hx).symm
  rw [hdrop, restOf, resumePoint_of_behind hbehind, restOf, List.filter_filter]
  apply List.filter_congr
  intro y _
  by_cases hlt : Pages.lt textLe (textOf x) (textOf y) = true
  · have hy := isBehind_trans hbehind hlt
    simp [isBehind, hlt] at hy ⊢
    exact hy
  · simp [isBehind, hlt]

end Resume

section Pages

variable {fs : FileSystem} {disk : Tree Bytes UInt8} {input : ListObjectsV2Input}
  {whole : List (Object ⊕ Bytes)}
  (hstrict : Pages.Strict textLe textOf whole)
  (hlist : ∀ token maxKeys, fs.listObjectsV2 disk
    { input with continuationToken := token, maxKeys := maxKeys } =
      .ok (pageOf { input with continuationToken := token, maxKeys := maxKeys } whole))

include hstrict hlist

/-- The pages from a token on make up what is behind it. -/
theorem listPages_eq {maxKeys : Nat → Int} (hmax : ∀ i, 1 ≤ maxKeys i) (turns i : Nat)
    (token : Option Bytes) (hturns : (restOf whole input.startAfter token).length < turns) :
    ∃ pages, fs.listPages disk input maxKeys turns i token = some pages ∧
      contentsOf pages = Pages.leftsOf (restOf whole input.startAfter token) ∧
      prefixesOf pages = Pages.rightsOf (restOf whole input.startAfter token) := by
  induction turns generalizing i token with
  | zero => omega
  | succ turns ih =>
    let rest := restOf whole input.startAfter token
    have hlimit : limitOf (maxKeys i) = (maxKeys i).toNat := by
      have := hmax i
      rw [limitOf, if_neg (by omega)]
    have hpos : 0 < limitOf (maxKeys i) := by
      have := hmax i
      omega
    let page := pageOf { input with continuationToken := token, maxKeys := some (maxKeys i) } whole
    have hcontents : page.contents.getD [] = Pages.leftsOf (rest.take (limitOf (maxKeys i))) :=
      getD_nonEmpty _
    have hprefixes : page.commonPrefixes.getD [] = Pages.rightsOf (rest.take (limitOf (maxKeys i))) :=
      getD_nonEmpty _
    have htruncated : page.isTruncated = decide (limitOf (maxKeys i) < rest.length) := by
      show decide (0 < limitOf (maxKeys i) ∧ limitOf (maxKeys i) < rest.length) = _
      simp [hpos]
    have hturn : fs.listPages disk input maxKeys (turns + 1) i token =
        if page.isTruncated then
          (fs.listPages disk input maxKeys turns (i + 1) page.nextContinuationToken).map (page :: ·)
        else some [page] := by
      rw [FileSystem.listPages, hlist]
    by_cases hmore : limitOf (maxKeys i) < rest.length
    · have hlast : (rest.take (limitOf (maxKeys i))).getLast? ≠ none := by
        rw [Ne, List.getLast?_eq_none_iff, ← List.length_eq_zero_iff, List.length_take]
        omega
      obtain ⟨x, hx⟩ := Option.ne_none_iff_exists'.mp hlast
      have hrest := restOf_next hstrict hx
      have hnext : page.nextContinuationToken = some (textOf x) := by
        have hmap : (rest.take (limitOf (maxKeys i))).getLast?.map textOf = some (textOf x) := by
          rw [hx, Option.map_some]
        rw [← hmap]
        exact if_pos (htruncated.trans (decide_eq_true hmore))
      have hshorter : (restOf whole input.startAfter (some (textOf x))).length < turns := by
        have hlength : rest.length < turns + 1 := hturns
        rw [hrest, List.length_drop]
        omega
      obtain ⟨pages, hpages, hlefts, hrights⟩ := ih (i + 1) (some (textOf x)) hshorter
      refine ⟨page :: pages, ?_, ?_, ?_⟩
      · rw [hturn, htruncated, hnext, hpages]
        simp [hmore]
      · rw [contentsOf, List.flatMap_cons, hcontents, ← contentsOf, hlefts, hrest, ← Pages.leftsOf_append,
          List.take_append_drop]
      · rw [prefixesOf, List.flatMap_cons, hprefixes, ← prefixesOf, hrights, hrest,
          ← Pages.rightsOf_append, List.take_append_drop]
    · have hall : rest.take (limitOf (maxKeys i)) = rest := List.take_of_length_le (by omega)
      refine ⟨[page], ?_, ?_, ?_⟩
      · rw [hturn, htruncated]
        simp [hmore]
      · simpa [contentsOf, hall] using hcontents
      · simpa [prefixesOf, hall] using hprefixes

end Pages

end S3s.Fs
