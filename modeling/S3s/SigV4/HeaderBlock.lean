import S3s.Library.Words
import S3s.Rfc2047.Codec
import S3s.SigV4.Decodability
import Mathlib.Data.List.SplitBy

/-! # The block of the signed headers

The two loops over the headers, by index as in the source, write the same runs of
adjacent headers with one name: one the lines, the other the names. A value is
written as its words with one space between them.
-/
namespace S3s.SigV4
open Delimited Words
open Rfc2047 (splitWhitespace)

section Loops

variable (headers : List (Bytes × Bytes))

/-- The inner loop of `push_canonical_headers`: the values behind the first, and the index of the next
header of another name. -/
def canonicalValuesLoop (name ans : Bytes) (j : Nat) : Bytes × Nat :=
  if h : j < headers.length then
    if headers[j].1 == name then
      canonicalValuesLoop name (ans ++ ascii "," ++ normalizeHeaderValue headers[j].2) (j + 1)
    else (ans, j)
  else (ans, j)
termination_by headers.length - j

/-- The inner loop of `push_signed_headers`. -/
def skipNameLoop (name : Bytes) (i : Nat) : Nat :=
  if h : i < headers.length then
    if headers[i].1 == name then skipNameLoop name (i + 1) else i
  else i
termination_by headers.length - i

variable {headers}

theorem drop_cons {i : Nat} (h : i < headers.length) :
    headers.drop i = (headers[i].1, headers[i].2) :: headers.drop (i + 1) :=
  List.drop_eq_getElem_cons h

/-- The headers of one name from an index on. -/
def sameName (name : Bytes) (rest : List (Bytes × Bytes)) : List (Bytes × Bytes) :=
  rest.takeWhile fun h => h.1 == name

theorem sameName_cons (name : Bytes) (e : Bytes × Bytes) (rest : List (Bytes × Bytes)) :
    sameName name (e :: rest) = if e.1 == name then e :: sameName name rest else [] :=
  List.takeWhile_cons

theorem skipNameLoop_eq (name : Bytes) (i : Nat) :
    skipNameLoop headers name i = i + (sameName name (headers.drop i)).length := by
  fun_induction skipNameLoop headers name i with
  | case1 i h hname ih =>
    rw [ih, drop_cons h, sameName_cons, if_pos hname, List.length_cons]
    omega
  | case2 i h hname =>
    rw [drop_cons h, sameName_cons, if_neg hname, List.length_nil, Nat.add_zero]
  | case3 i h => simp [sameName, List.drop_eq_nil_of_le (Nat.le_of_not_lt h)]

theorem canonicalValuesLoop_eq (name ans : Bytes) (j : Nat) :
    canonicalValuesLoop headers name ans j =
      (ans ++ (sameName name (headers.drop j)).flatMap fun h => ascii "," ++ normalizeHeaderValue h.2,
        j + (sameName name (headers.drop j)).length) := by
  fun_induction canonicalValuesLoop headers name ans j with
  | case1 ans j h hname ih =>
    rw [ih, drop_cons h, sameName_cons, if_pos hname, List.flatMap_cons, List.length_cons]
    simp only [List.append_assoc, Nat.add_assoc, Nat.add_comm 1]
  | case2 ans j h hname =>
    rw [drop_cons h, sameName_cons, if_neg hname]
    simp
  | case3 ans j h => simp [sameName, List.drop_eq_nil_of_le (Nat.le_of_not_lt h)]

/-- Behind the headers of one name. -/
theorem drop_sameName (name : Bytes) (i : Nat) :
    headers.drop (i + (sameName name (headers.drop i)).length) =
      (headers.drop i).dropWhile fun h => h.1 == name := by
  have hsplit := List.takeWhile_append_dropWhile (p := fun h => h.1 == name) (l := headers.drop i)
  rw [← List.drop_drop, sameName]
  conv_lhs => arg 2; rw [← hsplit]
  exact List.drop_left

variable (headers)

/-- The outer loop of `push_canonical_headers`. -/
def canonicalHeadersLoop (ans : Bytes) (i : Nat) : Bytes :=
  if h : i < headers.length then
    if isSkippedHeader headers[i].1 then canonicalHeadersLoop ans (i + 1)
    else
      let next := canonicalValuesLoop headers headers[i].1
        (ans ++ headers[i].1 ++ ascii ":" ++ normalizeHeaderValue headers[i].2) (i + 1)
      canonicalHeadersLoop (next.1 ++ ascii "\n") next.2
  else ans
termination_by headers.length - i
decreasing_by
  · omega
  · rw [canonicalValuesLoop_eq]
    dsimp only
    omega

/-- The outer loop of `push_signed_headers`. -/
def signedHeadersLoop (ans : Bytes) (firstFlag : Bool) (i : Nat) : Bytes :=
  if h : i < headers.length then
    if isSkippedHeader headers[i].1 then signedHeadersLoop ans firstFlag (i + 1)
    else
      let ans := if firstFlag then ans else ans ++ ascii ";"
      signedHeadersLoop (ans ++ headers[i].1) false (skipNameLoop headers headers[i].1 i)
  else ans
termination_by headers.length - i
decreasing_by
  · omega
  · rw [skipNameLoop_eq, drop_cons h, sameName_cons, if_pos (by simp), List.length_cons]
    omega

variable {headers}

theorem canonicalHeadersLoop_eq (ans : Bytes) (i : Nat) :
    canonicalHeadersLoop headers ans i = ans ++ pushCanonicalHeaders (headers.drop i) := by
  fun_induction canonicalHeadersLoop headers ans i with
  | case1 ans i h hskip ih => rw [ih, drop_cons h, pushCanonicalHeaders, if_pos hskip]
  | case2 ans i h hskip next ih =>
    have hnext : next = _ := canonicalValuesLoop_eq _ _ _
    rw [ih, hnext]
    dsimp only
    rw [drop_sameName, drop_cons h, pushCanonicalHeaders, if_neg hskip, sameName]
    simp only [List.append_assoc]
  | case3 ans i h => simp [pushCanonicalHeaders, List.drop_eq_nil_of_le (Nat.le_of_not_lt h)]

theorem signedHeadersLoop_eq (ans : Bytes) (firstFlag : Bool) (i : Nat) :
    signedHeadersLoop headers ans firstFlag i = ans ++
      if firstFlag then pushSignedHeaders (headers.drop i)
      else (signedHeaderNames (headers.drop i)).flatMap fun name => ascii ";" ++ name := by
  fun_induction signedHeadersLoop headers ans firstFlag i with
  | case1 ans firstFlag i h hskip ih =>
    rw [ih, drop_cons h, pushSignedHeaders, pushSignedHeaders, signedHeaderNames, if_pos hskip]
  | case2 ans firstFlag i h hskip ans' ih =>
    have hrest : headers.drop (skipNameLoop headers headers[i].1 i) =
        (headers.drop (i + 1)).dropWhile fun e => e.1 == headers[i].1 := by
      rw [skipNameLoop_eq, drop_sameName, drop_cons h, List.dropWhile_cons_of_pos (by simp)]
    have hsemi : ascii ";" = [59] := by decide
    rw [ih, hrest, drop_cons h, if_neg Bool.false_ne_true]
    cases firstFlag with
    | true =>
      rw [if_pos rfl, pushSignedHeaders, signedHeaderNames, if_neg hskip, hsemi,
        intercalate_cons_eq_flatMap]
      simp [ans']
    | false =>
      rw [if_neg Bool.false_ne_true, signedHeaderNames, if_neg hskip]
      simp [ans']
  | case3 ans firstFlag i h =>
    simp [pushSignedHeaders, signedHeaderNames, List.drop_eq_nil_of_le (Nat.le_of_not_lt h)]

end Loops

section Groups

/-- What a run of headers with one name stands for: the name, and the values in their order. -/
def groupOf : List (Bytes × Bytes) → Option (Bytes × List Bytes)
  | [] => none
  | (name, value) :: rest =>
    if isSkippedHeader name then none else some (name, value :: rest.map Prod.snd)

/-- The longest runs of adjacent headers with one name, without those of `authorization`. -/
def headerGroups (headers : List (Bytes × Bytes)) : List (Bytes × List Bytes) :=
  (headers.splitBy fun a b => a.1 == b.1).filterMap groupOf

/-- The first run of a list. -/
theorem splitBy_sameName (name value : Bytes) (rest : List (Bytes × Bytes)) :
    (((name, value) :: rest).splitBy fun a b => a.1 == b.1) =
      ((name, value) :: sameName name rest) ::
        (rest.dropWhile fun h => h.1 == name).splitBy fun a b => a.1 == b.1 := by
  let run := (name, value) :: sameName name rest
  have hnames : ∀ e ∈ run, e.1 = name := by
    intro e he
    rcases List.mem_cons.mp he with rfl | he
    · rfl
    · exact eq_of_beq (List.mem_takeWhile_imp (p := fun h : Bytes × Bytes => h.1 == name) he)
  have hrun : run.splitBy (fun a b => a.1 == b.1) = [run] := by
    apply List.splitBy_of_isChain (List.cons_ne_nil _ _)
    apply List.Pairwise.isChain
    apply List.pairwise_of_forall_mem_list
    intro a ha b hb
    simp [hnames a ha, hnames b hb]
  have hsplit : (name, value) :: rest = run ++ rest.dropWhile fun h => h.1 == name := by
    rw [List.cons_append, sameName, List.takeWhile_append_dropWhile]
  rw [hsplit, List.splitBy_append, hrun, List.singleton_append]
  intro x hx y hy
  have hfirst : (y.1 == name) = false := by
    have hnot := List.head?_dropWhile_not (fun h : Bytes × Bytes => h.1 == name) rest
    rw [Option.mem_def.mp hy] at hnot
    simpa using hnot
  rw [hnames x (List.mem_of_mem_getLast? hx), Bool.eq_false_iff]
  intro heq
  rw [eq_of_beq heq, beq_self_eq_true] at hfirst
  cases hfirst

/-- The loops skip one header, the runs all of one name; for `authorization` this is the same. -/
theorem headerGroups_skip {name : Bytes} (hskip : isSkippedHeader name = true) (value : Bytes)
    (rest : List (Bytes × Bytes)) : headerGroups ((name, value) :: rest) = headerGroups rest := by
  have hrun : ∀ (value : Bytes) (rest : List (Bytes × Bytes)),
      headerGroups ((name, value) :: rest) = headerGroups (rest.dropWhile fun h => h.1 == name) := by
    intro value rest
    rw [headerGroups, splitBy_sameName, List.filterMap_cons_none (by simp [groupOf, hskip]), headerGroups]
  rw [hrun]
  cases rest with
  | nil => rfl
  | cons e rest =>
    obtain ⟨name', value'⟩ := e
    by_cases hname : name' = name
    · rw [hname, hrun, List.dropWhile_cons_of_pos (by simp)]
    · rw [List.dropWhile_cons_of_neg (by simpa using hname)]

/-- Each line is a run. -/
theorem headerLines_eq_groups (headers : List (Bytes × Bytes)) :
    headerLines headers =
      (headerGroups headers).map fun g => (g.1, [44].intercalate (g.2.map normalizeHeaderValue)) := by
  fun_induction headerLines headers with
  | case1 => rfl
  | case2 name value rest hskip ih => rw [ih, headerGroups_skip hskip]
  | case3 name value rest hskip ih =>
    have hgroup : groupOf ((name, value) :: sameName name rest) =
        some (name, value :: (sameName name rest).map Prod.snd) := if_neg hskip
    rw [ih, headerGroups, headerGroups, splitBy_sameName, List.filterMap_cons_some hgroup, List.map_cons]
    rfl

end Groups

section Values

/-- What `normalize_header_value` writes of a trimmed text on its second path. -/
def splitPath (trimmed : List Bytes) : Bytes :=
  [32].intercalate (((trimmed.splitOnP isWhitespaceChar).filter fun word => !word.isEmpty).map
    List.flatten)

theorem splitPath_eq (chars : List Bytes) :
    splitPath chars = [32].intercalate ((words isWhitespaceChar chars).map List.flatten) := rfl

/-- Where there is no white space the text is written as its only word. -/
theorem fastPath_eq_splitPath {trimmed : List Bytes} (h : trimmed.any isWhitespaceChar = false) :
    trimmed.flatten = splitPath trimmed := by
  rw [splitPath_eq]
  cases trimmed with
  | nil => rfl
  | cons c chars =>
    have hword : IsWord isWhitespaceChar (c :: chars) :=
      ⟨List.cons_ne_nil _ _, by simpa using h⟩
    rw [words_of_isWord hword, List.map_singleton, List.intercalate_singleton]

/-- A value is written as its words, with a space between them. -/
theorem normalizeHeaderValue_eq (value : Bytes) :
    normalizeHeaderValue value = [32].intercalate (splitWhitespace value) := by
  have hwords : splitPath (trimChars (utf8Chars value)) = [32].intercalate (splitWhitespace value) :=
    congrArg (fun parts : List (List Bytes) => [32].intercalate (parts.map List.flatten))
      (words_trim (p := isWhitespaceChar) (utf8Chars value))
  rw [← hwords, normalizeHeaderValue]
  dsimp only
  split
  · next hfast => exact fastPath_eq_splitPath (by simpa using hfast)
  · rfl

/-- Whole characters: each has one byte that begins it, and only the first can begin with a byte
that continues one. -/
structure WholeChars (chars : List Bytes) : Prop where
  ne_nil : ∀ char ∈ chars, char ≠ []
  tail : ∀ char ∈ chars, ∀ c ∈ char.tail, Bytes.isContinuation c = true
  start : ∀ char ∈ chars.tail, ∀ c ∈ char.head?, Bytes.isContinuation c = false

theorem WholeChars.of_cons {char : Bytes} {chars : List Bytes} (h : WholeChars (char :: chars)) :
    WholeChars chars where
  ne_nil c hc := h.ne_nil c (List.mem_cons_of_mem _ hc)
  tail c hc := h.tail c (List.mem_cons_of_mem _ hc)
  start c hc := h.start c (List.mem_of_mem_tail hc)

/-- A character in front of whole ones. -/
theorem utf8Chars_append {rest : Bytes} (h : ∀ char ∈ (utf8Chars rest).head?,
      ∃ c t, char = c :: t ∧ Bytes.isContinuation c = false) (b : UInt8) {t : Bytes}
    (ht : ∀ c ∈ t, Bytes.isContinuation c = true) :
    utf8Chars (b :: t ++ rest) = (b :: t) :: utf8Chars rest := by
  induction t generalizing b with
  | nil =>
    rw [List.singleton_append, utf8Chars]
    cases hrest : utf8Chars rest with
    | nil => rfl
    | cons char chars =>
      obtain ⟨c, t, rfl, hc⟩ := h char (by rw [hrest]; rfl)
      simp [hc]
  | cons c t ih =>
    have hc : Bytes.isContinuation c = true := ht c List.mem_cons_self
    rw [List.cons_append, utf8Chars, ih c fun b hb => ht b (List.mem_cons_of_mem _ hb)]
    simp [hc]

/-- Whole characters are found again. -/
theorem utf8Chars_flatten {chars : List Bytes} (h : WholeChars chars) :
    utf8Chars chars.flatten = chars := by
  induction chars with
  | nil => rfl
  | cons char chars ih =>
    have hchars := ih h.of_cons
    obtain ⟨b, t, rfl⟩ := List.exists_cons_of_ne_nil (h.ne_nil char List.mem_cons_self)
    rw [List.flatten_cons, utf8Chars_append, hchars]
    · intro next hnext
      rw [hchars] at hnext
      have hmem : next ∈ chars := List.mem_of_mem_head? hnext
      obtain ⟨c, t', rfl⟩ := List.exists_cons_of_ne_nil (h.ne_nil next (List.mem_cons_of_mem _ hmem))
      exact ⟨c, t', rfl, h.start _ hmem c rfl⟩
    · exact h.tail _ List.mem_cons_self

theorem wholeChars_utf8Chars (s : Bytes) : WholeChars (utf8Chars s) := by
  induction s with
  | nil => exact ⟨by simp [utf8Chars], by simp [utf8Chars], by simp [utf8Chars]⟩
  | cons b s ih =>
    rw [utf8Chars]
    cases hchars : utf8Chars s with
    | nil => exact ⟨by simp, by simp, by simp⟩
    | cons char chars =>
      rw [hchars] at ih
      obtain ⟨c, t, rfl⟩ := List.exists_cons_of_ne_nil (ih.ne_nil char List.mem_cons_self)
      dsimp only
      split
      · next hc =>
        refine ⟨?_, ?_, ih.start⟩
        · simpa using ih.of_cons.ne_nil
        · have htail := ih.tail _ List.mem_cons_self
          simp only [List.forall_mem_cons, List.tail_cons] at htail ⊢
          exact ⟨⟨hc, htail⟩, ih.of_cons.tail⟩
      · next hc =>
        refine ⟨?_, ?_, ?_⟩
        · simpa using ih.of_cons.ne_nil
        · simpa using ih.tail
        · have hstart : Bytes.isContinuation c = false := by simpa using hc
          simpa [hstart] using ih.start

/-- The first characters apart, the characters of words with spaces between them are spaces and
characters of the words. -/
theorem mem_tail_intercalate {parts : List (List Bytes)} (hne : ∀ word ∈ parts, word ≠ [])
    {char : Bytes} (h : char ∈ ([[32]].intercalate parts).tail) :
    char = [32] ∨ char ∈ parts.flatten.tail := by
  cases parts with
  | nil => cases h
  | cons word parts =>
    obtain ⟨first, word, rfl⟩ := List.exists_cons_of_ne_nil (hne word List.mem_cons_self)
    rw [intercalate_cons_eq_flatMap] at h
    simp only [List.cons_append, List.tail_cons, List.mem_append, List.mem_flatMap, List.mem_cons,
      List.flatten_cons, List.mem_flatten] at h ⊢
    tauto

theorem flatten_intercalate (parts : List (List Bytes)) :
    ([[32]].intercalate parts).flatten = [32].intercalate (parts.map List.flatten) := by
  cases parts with
  | nil => rfl
  | cons word parts =>
    rw [intercalate_cons_eq_flatMap, List.map_cons, intercalate_cons_eq_flatMap, List.flatten_append]
    congr 1
    induction parts with
    | nil => rfl
    | cons next parts ih => simp [ih]

/-- The characters of a normalised value. -/
theorem utf8Chars_normalizeHeaderValue (value : Bytes) :
    utf8Chars (normalizeHeaderValue value) =
      [[32]].intercalate (words isWhitespaceChar (utf8Chars value)) := by
  let parts := words isWhitespaceChar (utf8Chars value)
  have hwhole := wholeChars_utf8Chars value
  have hne : ∀ word ∈ parts, word ≠ [] := fun word hword => (isWord_of_mem_words hword).1
  have hsub : parts.flatten.Sublist (utf8Chars value) := by
    rw [flatten_words]
    exact List.filter_sublist
  have hchars : ∀ char ∈ [[32]].intercalate parts, char = [32] ∨ char ∈ utf8Chars value := by
    intro char hchar
    rcases mem_intercalate hchar with h | ⟨word, hword, h⟩
    · exact Or.inl h
    · exact Or.inr (hsub.subset (List.mem_flatten_of_mem hword h))
  have hjoined : WholeChars ([[32]].intercalate parts) := by
    refine ⟨?_, ?_, ?_⟩
    · intro char hchar
      rcases hchars char hchar with rfl | h
      · exact List.cons_ne_nil _ _
      · exact hwhole.ne_nil char h
    · intro char hchar c hc
      rcases hchars char hchar with rfl | h
      · cases hc
      · exact hwhole.tail char h c hc
    · intro char hchar c hc
      rcases mem_tail_intercalate hne hchar with rfl | h
      · cases hc
        decide
      · exact hwhole.start char (hsub.tail.subset h) c hc
  rw [normalizeHeaderValue_eq, ← utf8Chars_flatten hjoined, flatten_intercalate]
  rfl

/-- Normalising keeps the words. -/
theorem splitWhitespace_normalizeHeaderValue (value : Bytes) :
    splitWhitespace (normalizeHeaderValue value) = splitWhitespace value := by
  have hwords : words isWhitespaceChar (utf8Chars (normalizeHeaderValue value)) =
      words isWhitespaceChar (utf8Chars value) := by
    rw [utf8Chars_normalizeHeaderValue]
    exact words_intercalate (by decide) fun word hword => isWord_of_mem_words hword
  exact congrArg (List.map List.flatten) hwords

end Values

/-- The lines of the signed headers and the list of their names are those of the same runs, and what
is written of a value are its words. -/
theorem pushHeaders_groups :
    (∀ (headers : List (Bytes × Bytes)) (ans : Bytes),
      canonicalHeadersLoop headers ans 0 = ans ++ (headerGroups headers).flatMap (fun g =>
          g.1 ++ ascii ":" ++ (ascii ",").intercalate (g.2.map normalizeHeaderValue) ++ ascii "\n") ∧
        signedHeadersLoop headers ans true 0 =
          ans ++ (ascii ";").intercalate ((headerGroups headers).map Prod.fst) ∧
        canonicalHeadersLoop headers ans 0 = ans ++ pushCanonicalHeaders headers ∧
        signedHeadersLoop headers ans true 0 = ans ++ pushSignedHeaders headers) ∧
    ∀ value : Bytes,
      ((trimChars (utf8Chars value)).any isWhitespaceChar = false →
        (trimChars (utf8Chars value)).flatten = splitPath (trimChars (utf8Chars value))) ∧
      normalizeHeaderValue value = (ascii " ").intercalate (splitWhitespace value) ∧
      normalizeHeaderValue (normalizeHeaderValue value) = normalizeHeaderValue value ∧
      ∀ value' : Bytes, normalizeHeaderValue value = normalizeHeaderValue value' ↔
        splitWhitespace value = splitWhitespace value' := by
  constructor
  · intro headers ans
    have hcanonical : canonicalHeadersLoop headers ans 0 = _ := canonicalHeadersLoop_eq ans 0
    have hsigned : signedHeadersLoop headers ans true 0 = _ := signedHeadersLoop_eq ans true 0
    rw [List.drop_zero] at hcanonical hsigned
    rw [if_pos rfl] at hsigned
    refine ⟨?_, ?_, hcanonical, hsigned⟩
    · rw [hcanonical, pushCanonicalHeaders_eq, headerLines_eq_groups, List.map_map, block, List.flatMap_map]
      simp [headerLine, ascii, lf]
    · rw [hsigned, pushSignedHeaders, signedHeaderNames_eq, headerLines_eq_groups, List.map_map]
      rfl
  · intro value
    refine ⟨fastPath_eq_splitPath, normalizeHeaderValue_eq value, ?_, ?_⟩
    · rw [normalizeHeaderValue_eq (normalizeHeaderValue value), splitWhitespace_normalizeHeaderValue,
        normalizeHeaderValue_eq]
    · intro value'
      constructor
      · intro h
        rw [← splitWhitespace_normalizeHeaderValue value, h, splitWhitespace_normalizeHeaderValue]
      · intro h
        rw [normalizeHeaderValue_eq, normalizeHeaderValue_eq, h]

/-- A value without inner white space is written the same way on both paths. -/
theorem pushHeaders_groups_trimmed :
    (trimChars (utf8Chars (ascii " v "))).flatten = splitPath (trimChars (utf8Chars (ascii " v "))) ∧
      signedHeadersLoop [(ascii "a", ascii "1"), (ascii "a", ascii "2")] [] true 0 =
        [] ++ (ascii ";").intercalate
          ((headerGroups [(ascii "a", ascii "1"), (ascii "a", ascii "2")]).map Prod.fst) :=
  ⟨(pushHeaders_groups.2 (ascii " v ")).1 (by decide +kernel), (pushHeaders_groups.1 _ _).2.1⟩

end S3s.SigV4
