import S3s.Library.Bytes
import S3s.Library.Glob

/-! # Patterns of a policy

A pattern is matched by one loop over two indices, which goes back to its last star
when it cannot go on. That every earlier star can be forgotten is a fact about globs.
-/
namespace S3s.Policy

open Glob

/-- `&[u8]`: a slice is at most `isize::MAX` bytes long. -/
structure Slice where
  bytes : Bytes
  length_lt : bytes.length < 2 ^ 63

/-- `&str` -/
structure Str extends Slice where
  valid : Bytes.validUtf8 bytes = true

/-- `usize::MAX` -/
def usizeMax : Nat := 2 ^ 64 - 1

/-- `PatternError` -/
inductive PatternError where
  | invalidPattern
deriving DecidableEq

/-- `Pattern` -/
structure Pattern extends Str where
  ne_nil : bytes ≠ []

/-- `PatternSet` -/
structure PatternSet where
  patterns : List Pattern

/-- `parse_pattern` -/
def parsePattern (pattern : Str) : Except PatternError Pattern :=
  if h : pattern.bytes = [] then .error .invalidPattern else .ok ⟨pattern, h⟩

/-- `PatternSet::new` -/
def PatternSet.new (patterns : List Str) : Except PatternError PatternSet :=
  (patterns.mapM parsePattern).map PatternSet.mk

/-- The indices of `match_pattern`. -/
structure Cursor where
  pIdx : Nat
  sIdx : Nat
  pBack : Nat
  sBack : Nat
deriving DecidableEq

section Matching

variable (pattern input : Bytes)

/-- The end of a turn that could not go on. -/
def goBack (c : Cursor) : Cursor ⊕ Bool :=
  if c.pBack = pattern.length then .inr true
  else if c.sBack + 1 < input.length then .inl ⟨c.pBack, c.sBack + 1, c.pBack, c.sBack + 1⟩
  else .inr false

/-- One turn of the loop: where it goes on, or what it returns. -/
def turn (c : Cursor) : Cursor ⊕ Bool :=
  match pattern[c.pIdx]? with
  | some p =>
    if p = 42 then .inl { c with pIdx := c.pIdx + 1, pBack := c.pIdx + 1, sBack := c.sIdx }
    else
      match input[c.sIdx]? with
      | some b =>
        if p = b ∨ p = 63 then .inl { c with pIdx := c.pIdx + 1, sIdx := c.sIdx + 1 }
        else goBack pattern input c
      | none => goBack pattern input c
  | none => if c.sIdx = input.length then .inr true else goBack pattern input c

/-- The loop, for a number of turns. -/
def matchLoop : Nat → Cursor → Option Bool
  | 0, _ => none
  | fuel + 1, c =>
    match turn pattern input c with
    | .inl c' => matchLoop fuel c'
    | .inr matched => some matched

/-- Where the loop begins. -/
def Cursor.start : Cursor := ⟨0, 0, usizeMax - 1, usizeMax - 1⟩

/-- What is still to be done at a cursor: first the pattern behind the last star, then the input behind its
place, then the pattern. -/
def Cursor.rank (c : Cursor) : Nat :=
  (if c.pBack = usizeMax - 1 then (pattern.length + 1) * (input.length + 1)
    else (pattern.length - c.pBack) * (input.length + 1) + (input.length - c.sBack)) *
      (pattern.length + 1) + (pattern.length - c.pIdx)

/-- The turns in which every call returns. -/
def turns : Nat := Cursor.start.rank pattern input + 1

end Matching

/-- `match_pattern` -/
def matchPattern (pattern input : Slice) : Option Bool :=
  matchLoop pattern.bytes input.bytes (turns pattern.bytes input.bytes) .start

/-- `is_match`: the first pattern that matches decides. -/
def PatternSet.isMatch (set : PatternSet) (input : Str) : Option Bool :=
  go set.patterns
where
  go : List Pattern → Option Bool
    | [] => some false
    | pattern :: patterns =>
      (matchPattern pattern.toSlice input.toSlice).bind fun matched =>
        if matched then some true else go patterns

/-- What a byte of a pattern stands for. -/
def item (b : UInt8) : Item UInt8 :=
  if b = 42 then .star else if b = 63 then .any else .lit b

theorem item_takes {p b : UInt8} (h : p ≠ 42) : (item p).Takes b ↔ p = b ∨ p = 63 := by
  unfold item Item.Takes
  rw [if_neg h]
  split
  · next hany => simp [hany]
  · next hany => simp [hany]

theorem item_ne_star {p : UInt8} (h : p ≠ 42) : item p ≠ .star := by
  unfold item
  rw [if_neg h]
  split <;> simp

section Loop

variable {pattern input : Bytes}

/-- The pattern and the input as a cursor cuts them: up to the last star and its place, what was taken since then,
and what is still to come. Before the first star nothing else could have been taken; behind a star the
pattern matches if the star can stand for what comes from its place on. -/
structure Cursor.Cuts (pattern input : Bytes) (c : Cursor) (before block g t m s : Bytes) : Prop where
  pattern_eq : pattern = before ++ (block ++ g)
  input_eq : input = t ++ (m ++ s)
  pIdx : c.pIdx = before.length + block.length
  sIdx : c.sIdx = t.length + m.length
  takes : List.Forall₂ Item.Takes (block.map item) m
  back : (before = [] ∧ t = [] ∧ c.pBack = usizeMax - 1 ∧ c.sBack = usizeMax - 1) ∨
    (before ≠ [] ∧ c.pBack = before.length ∧ c.sBack = t.length ∧
      (Matches (pattern.map item) input ↔ Matches (.star :: (block ++ g).map item) (m ++ s)))

/-- A cursor of the loop. -/
def Cursor.Stands (pattern input : Bytes) (c : Cursor) : Prop :=
  ∃ before block g t m s, c.Cuts pattern input before block g t m s

/-- What a turn may give: a cursor of the loop with less to be done, or the right answer. -/
def Cursor.Follows (pattern input : Bytes) (c : Cursor) : Cursor ⊕ Bool → Prop
  | .inl c' => c'.Stands pattern input ∧ c'.rank pattern input < c.rank pattern input
  | .inr matched => matched = true ↔ Matches (pattern.map item) input

theorem lex_lt {a b w r r' : Nat} (h : a < b) (hr : r ≤ w) : a * (w + 1) + r < b * (w + 1) + r' := by
  calc a * (w + 1) + r < (a + 1) * (w + 1) := by
        rw [Nat.add_mul, Nat.one_mul]
        exact Nat.add_lt_add_left (Nat.lt_succ_of_le hr) _
    _ ≤ b * (w + 1) := Nat.mul_le_mul_right _ h
    _ ≤ b * (w + 1) + r' := Nat.le_add_right _ _

namespace Cursor.Cuts

variable {c : Cursor} {before block g t m s : Bytes}

/-- No star has a place that a slice cannot have. -/
theorem ne_usizeMax (h : c.Cuts pattern input before block g t m s) (hpattern : pattern.length < 2 ^ 63) :
    before.length ≠ usizeMax - 1 := by
  have hle : before.length ≤ pattern.length := by simp [h.pattern_eq]
  unfold usizeMax
  omega

/-- A cursor whose block cannot be taken to its end goes back, or its answer is right. -/
theorem follows_goBack (h : c.Cuts pattern input before block g t m s) (hpattern : pattern.length < 2 ^ 63)
    (hinput : input.length < 2 ^ 63) (hhere : ¬Matches ((block ++ g).map item) (m ++ s))
    (hnil : block ++ g = [] ∨ ¬Matches ((block ++ g).map item) []) :
    c.Follows pattern input (goBack pattern input c) := by
  have hne := h.ne_usizeMax hpattern
  obtain ⟨hpattern_eq, hinput_eq, -, -, -, ⟨rfl, rfl, hpBack, hsBack⟩ | ⟨hbefore, hpBack, hsBack, hstar⟩⟩ := h
  · have hback : c.pBack ≠ pattern.length := by
      rw [hpBack]
      unfold usizeMax
      omega
    have hmore : ¬c.sBack + 1 < input.length := by
      rw [hsBack]
      unfold usizeMax
      omega
    simp only [goBack, if_neg hback, if_neg hmore, Follows, Bool.false_eq_true, false_iff]
    rwa [hpattern_eq, hinput_eq]
  · generalize block ++ g = rest at *
    generalize m ++ s = u at *
    by_cases hrest : rest = []
    · subst hrest
      have hback : c.pBack = pattern.length := by simp [hpBack, hpattern_eq]
      simp only [goBack, if_pos hback, Follows, true_iff]
      exact hstar.mpr matches_star_only
    · have hback : c.pBack ≠ pattern.length := by simpa [hpBack, hpattern_eq] using hrest
      replace hnil := hnil.resolve_left hrest
      cases u with
      | nil =>
        have hmore : ¬c.sBack + 1 < input.length := by simp [hsBack, hinput_eq]
        simp only [goBack, if_neg hback, if_neg hmore, Follows, Bool.false_eq_true, false_iff, hstar]
        rw [matches_star_nil]
        exact hnil
      | cons a u =>
        rw [matches_star_retry hhere] at hstar
        by_cases hmore : c.sBack + 1 < input.length
        · simp only [goBack, if_neg hback, if_pos hmore]
          refine ⟨⟨before, [], rest, t ++ [a], [], u, ?_⟩, ?_⟩
          · exact ⟨by simpa using hpattern_eq, by simpa using hinput_eq, by simpa using hpBack,
              by simpa using hsBack, .nil, Or.inr ⟨hbefore, hpBack, by simpa using hsBack, hstar⟩⟩
          · rw [← hpBack] at hne
            simp only [rank, if_neg hne]
            apply lex_lt _ (Nat.sub_le _ _)
            omega
        · have hu : u = [] := by
            rw [← List.length_eq_zero_iff]
            simp only [hinput_eq, List.length_append, List.length_cons, hsBack] at hmore
            omega
          simp only [goBack, if_neg hback, if_neg hmore, Follows, Bool.false_eq_true, false_iff, hstar, hu]
          rw [matches_star_nil]
          exact hnil

/-- At a star everything before it is forgotten. -/
theorem follows_star {g' : Bytes} (h : c.Cuts pattern input before block (42 :: g') t m s)
    (hpattern : pattern.length < 2 ^ 63) :
    c.Follows pattern input (.inl { c with pIdx := c.pIdx + 1, pBack := c.pIdx + 1, sBack := c.sIdx }) := by
  have hmap : (block ++ 42 :: g').map item = block.map item ++ .star :: g'.map item := by simp [item]
  have hstar : Matches (pattern.map item) input ↔ Matches (.star :: g'.map item) s := by
    rcases h.back with ⟨rfl, rfl, -, -⟩ | ⟨-, -, -, hstar⟩
    · rw [h.pattern_eq, h.input_eq, List.nil_append, List.nil_append, hmap, matches_append h.takes]
    · rw [hstar, hmap, matches_star_block h.takes]
  have hcuts : Cuts pattern input { c with pIdx := c.pIdx + 1, pBack := c.pIdx + 1, sBack := c.sIdx }
      (before ++ block ++ [42]) [] g' (t ++ m) [] s :=
    ⟨by simpa using h.pattern_eq, by simpa using h.input_eq, by simp [h.pIdx, Nat.add_assoc],
      by simp [h.sIdx], .nil, Or.inr ⟨by simp, by simp [h.pIdx, Nat.add_assoc], by simp [h.sIdx], hstar⟩⟩
  have hlength : pattern.length = before.length + block.length + (g'.length + 1) := by
    simp [h.pattern_eq, Nat.add_assoc]
  have hne : c.pIdx + 1 ≠ usizeMax - 1 := by
    rw [h.pIdx]
    unfold usizeMax
    omega
  refine ⟨⟨_, _, _, _, _, _, hcuts⟩, ?_⟩
  simp only [rank, if_neg hne]
  apply lex_lt _ (Nat.sub_le _ _)
  have hpIdx := h.pIdx
  have hless : (pattern.length - (c.pIdx + 1)) * (input.length + 1) + (input.length - c.sIdx) <
      (pattern.length - c.pIdx) * (input.length + 1) + 0 := lex_lt (by omega) (Nat.sub_le _ _)
  apply hless.trans_le
  split
  · exact Nat.mul_le_mul_right _ (by omega)
  · rcases h.back with ⟨-, -, hpBack, -⟩ | ⟨-, hpBack, -, -⟩
    · contradiction
    · exact Nat.le_trans (Nat.mul_le_mul_right _ (by omega)) (Nat.le_add_right _ _)

/-- An item that is no star takes one byte. -/
theorem follows_take {p b : UInt8} {g' s' : Bytes} (h : c.Cuts pattern input before block (p :: g') t m (b :: s'))
    (htakes : (item p).Takes b) :
    c.Follows pattern input (.inl { c with pIdx := c.pIdx + 1, sIdx := c.sIdx + 1 }) := by
  have hcuts : Cuts pattern input { c with pIdx := c.pIdx + 1, sIdx := c.sIdx + 1 }
      before (block ++ [p]) g' t (m ++ [b]) s' :=
    ⟨by simpa using h.pattern_eq, by simpa using h.input_eq, by simp [h.pIdx, Nat.add_assoc],
      by simp [h.sIdx, Nat.add_assoc], by simpa using List.rel_append h.takes (.cons htakes .nil), by simpa using h.back⟩
  have hless : c.pIdx < pattern.length := by
    simp [h.pIdx, h.pattern_eq]
  refine ⟨⟨_, _, _, _, _, _, hcuts⟩, ?_⟩
  apply Nat.add_lt_add_left
  exact Nat.sub_succ_lt_self _ _ hless

/-- What one turn does. -/
theorem follows_turn (h : c.Cuts pattern input before block g t m s) (hpattern : pattern.length < 2 ^ 63)
    (hinput : input.length < 2 ^ 63) : c.Follows pattern input (turn pattern input c) := by
  have hp : pattern[c.pIdx]? = g.head? := by
    rw [h.pIdx, h.pattern_eq, ← List.append_assoc, ← List.length_append, List.getElem?_append_right le_rfl,
      List.head?_eq_getElem?]
    simp
  have hs : input[c.sIdx]? = s.head? := by
    rw [h.sIdx, h.input_eq, ← List.append_assoc, ← List.length_append, List.getElem?_append_right le_rfl,
      List.head?_eq_getElem?]
    simp
  cases g with
  | nil =>
    have hsIdx : c.sIdx = input.length ↔ s = [] := by
      rw [← List.length_eq_zero_iff, h.sIdx, h.input_eq, List.length_append, List.length_append]
      omega
    simp only [turn, hp, List.head?_nil, hsIdx]
    split
    · next hs =>
      subst hs
      have hmatches : Matches ((block ++ []).map item) (m ++ []) := by
        rw [List.map_append, matches_append h.takes]
        exact .nil
      simp only [Follows, true_iff]
      rcases h.back with ⟨rfl, rfl, -, -⟩ | ⟨-, -, -, hstar⟩
      · rwa [h.pattern_eq, h.input_eq]
      · exact hstar.mpr (.star [] hmatches)
    · next hs =>
      apply h.follows_goBack hpattern hinput
      · rw [List.map_append, matches_append h.takes]
        simpa using hs
      · have hnil : block ++ [] = [] ∨ block ≠ [] := by simpa using em (block = [])
        refine hnil.imp_right fun hblock hmatches => ?_
        rw [List.map_append] at hmatches
        have hlength := (matches_drop h.takes hmatches).1
        simp [hblock] at hlength
  | cons p g =>
    simp only [turn, hp, List.head?_cons]
    split
    · next hstar =>
      subst hstar
      exact h.follows_star hpattern
    · next hstar =>
      have hback (hfail : ∀ b u, s = b :: u → ¬(item p).Takes b) :
          c.Follows pattern input (goBack pattern input c) := by
        have hitem {u : Bytes} (hu : ∀ b v, u = b :: v → ¬(item p).Takes b) :
            ¬Matches ((p :: g).map item) u := by
          intro hmatches
          obtain ⟨b, v, hbv, htakes, -⟩ := takes_of_matches (item_ne_star hstar) hmatches
          exact hu b v hbv htakes
        apply h.follows_goBack hpattern hinput
        · rw [List.map_append, matches_append h.takes]
          exact hitem hfail
        · refine Or.inr fun hmatches => ?_
          rw [List.map_append] at hmatches
          have hrest := (matches_drop h.takes hmatches).2
          rw [List.drop_nil] at hrest
          exact hitem (by simp) hrest
      cases s with
      | nil =>
        simp only [hs, List.head?_nil]
        exact hback (by simp)
      | cons b s =>
        simp only [hs, List.head?_cons]
        split
        · next htakes => exact h.follows_take ((item_takes hstar).mpr htakes)
        · next htakes =>
          apply hback
          rintro b' u ⟨rfl, rfl⟩
          rwa [item_takes hstar]

end Cursor.Cuts

/-- Every loop returns, with the right answer. -/
theorem matchLoop_spec (hpattern : pattern.length < 2 ^ 63) (hinput : input.length < 2 ^ 63) {fuel : Nat}
    {c : Cursor} (h : c.Stands pattern input) (hfuel : c.rank pattern input < fuel) :
    ∃ matched, matchLoop pattern input fuel c = some matched ∧
      (matched = true ↔ Matches (pattern.map item) input) := by
  induction fuel generalizing c with
  | zero => exact absurd hfuel (Nat.not_lt_zero _)
  | succ fuel ih =>
    obtain ⟨_, _, _, _, _, _, hcuts⟩ := h
    have hturn := hcuts.follows_turn hpattern hinput
    rw [matchLoop]
    cases hnext : turn pattern input c with
    | inl c' =>
      rw [hnext] at hturn
      exact ih hturn.1 (hturn.2.trans_le (Nat.le_of_lt_succ hfuel))
    | inr matched =>
      rw [hnext] at hturn
      exact ⟨matched, rfl, hturn⟩

theorem Cursor.stands_start : Cursor.start.Stands pattern input :=
  ⟨[], [], pattern, [], [], input, rfl, rfl, rfl, rfl, .nil, Or.inl ⟨rfl, rfl, rfl, rfl⟩⟩

end Loop

theorem matchPattern_eq (pattern input : Slice) :
    ∃ matched, matchPattern pattern input = some matched ∧
      (matched = true ↔ Matches (pattern.bytes.map item) input.bytes) :=
  matchLoop_spec pattern.length_lt input.length_lt Cursor.stands_start (Nat.lt_succ_self _)

theorem PatternSet.isMatch_go {patterns : List Pattern} {input : Str} :
    ∃ matched, PatternSet.isMatch.go input patterns = some matched ∧
      (matched = true ↔ ∃ pattern ∈ patterns, Matches (pattern.bytes.map item) input.bytes) := by
  induction patterns with
  | nil => exact ⟨false, rfl, by simp⟩
  | cons pattern patterns ih =>
    obtain ⟨matched, hmatched, hiff⟩ := matchPattern_eq pattern.toSlice input.toSlice
    rw [isMatch.go, hmatched, Option.bind_some]
    cases matched with
    | true => exact ⟨true, rfl, by simp [← hiff]⟩
    | false =>
      have hno : ¬Matches (pattern.bytes.map item) input.bytes := by simp [← hiff]
      simpa [hno] using ih

/-- A set matches what one of its patterns matches. -/
theorem PatternSet.isMatch_iff (set : PatternSet) (input : Str) :
    ∃ matched, set.isMatch input = some matched ∧
      (matched = true ↔ ∃ pattern ∈ set.patterns, Matches (pattern.bytes.map item) input.bytes) :=
  PatternSet.isMatch_go

/-- Every set is built of the texts of its patterns. -/
theorem PatternSet.new_texts (set : PatternSet) :
    PatternSet.new (set.patterns.map Pattern.toStr) = .ok set := by
  have hparse (p : Pattern) : parsePattern p.toStr = .ok p := dif_neg p.ne_nil
  have hall (ps : List Pattern) : (ps.map Pattern.toStr).mapM parsePattern = .ok ps := by
    induction ps with
    | nil => rfl
    | cons p ps ih =>
      rw [List.map_cons, List.mapM_cons, hparse, ih]
      rfl
  rw [PatternSet.new, hall]
  rfl

/-- Texts that are not empty are the patterns of a set. -/
theorem PatternSet.exists_new {patterns : List Str} (h : ∀ p ∈ patterns, p.bytes ≠ []) :
    ∃ set, PatternSet.new patterns = .ok set ∧ set.patterns.map Pattern.toStr = patterns := by
  let ps := patterns.pmap Pattern.mk h
  have htexts : ps.map Pattern.toStr = patterns := by simp [ps, List.map_pmap]
  exact ⟨⟨ps⟩, htexts ▸ PatternSet.new_texts ⟨ps⟩, htexts⟩

/-- Every match ends, and says whether the bytes of the input are what the glob stands for. -/
theorem matchPattern_refines (pattern input : Slice) :
    ∃ matched, (∀ fuel, turns pattern.bytes input.bytes ≤ fuel →
        matchLoop pattern.bytes input.bytes fuel .start = some matched) ∧
      matchPattern pattern input = some matched ∧
      (matched = true ↔ Matches (pattern.bytes.map item) input.bytes) := by
  obtain ⟨matched, hmatched, hiff⟩ := matchPattern_eq pattern input
  refine ⟨matched, fun fuel hfuel => ?_, hmatched, hiff⟩
  obtain ⟨matched', hmatched', hiff'⟩ :=
    matchLoop_spec pattern.length_lt input.length_lt Cursor.stands_start (Nat.lt_of_succ_le hfuel)
  rw [hmatched', Option.some.injEq, Bool.eq_iff_iff]
  exact hiff'.trans hiff.symm

end S3s.Policy
