import S3s.AwsChunked.TrailerBlock
import S3s.AwsChunked.TrailerText
import S3s.FormData.Encoding

/-! # Surplus headers of a part

The tokenizer ends a line at its line feed, with or without a carriage return, and the
headers at the first blank line. The second reader, which takes over when there are more
headers than are kept, ends a line at its CRLF and the headers at the end of the block.
Both read the same headers where these ends agree.
-/
namespace S3s.FormData
open Search AwsChunked

variable {ε : Type}

section Readers

/-- A line as a header: a token, a colon, and the rest of the line without the blanks around it. -/
def readField (line : Bytes) : Option Header :=
  match line.findIdx? (· == 58) with
  | none => none
  | some colon =>
    if colon ≠ 0 ∧ (line.take colon).all isTokenChar = true ∧
        (line.drop (colon + 1)).all isFieldByte = true then
      some ⟨line.take colon, Bytes.trimBlank (line.drop (colon + 1))⟩
    else none

/-- The headers in front of the first blank line, and where the data behind it starts. -/
def readFields : List Bytes → Option (Nat × List Header)
  | [] => none
  | [_] => none
  | line :: next :: lines =>
    if stripCr line = [] then some (line.length + 1, [])
    else
      match readField (stripCr line), readFields (next :: lines) with
      | some header, some (dataStart, headers) => some (line.length + 1 + dataStart, header :: headers)
      | _, _ => none

/-- A block of header lines. -/
def readHead (block : Bytes) : Option (Nat × List Header) := readFields (Bytes.splitLf block)

/-- The bytes of a header. -/
def HeaderSpan.text (block : Bytes) (s : HeaderSpan) : Header :=
  ⟨(block.take s.name.stop).drop s.name.start, (block.take s.value.stop).drop s.value.start⟩

/-- What `parse_headers` of httparse is relied on for with a block: it reads the header lines of
the block if it has a slot for each, and says so if it has not. -/
structure Httparse.Documented (H : Httparse) (block : Bytes) : Prop where
  complete : ∀ {slots dataStart : Nat} {spans : List HeaderSpan},
    H.parseHeaders block slots = .complete dataStart spans →
      readHead block = some (dataStart, spans.map (HeaderSpan.text block)) ∧ spans.length ≤ slots
  enough : ∀ {slots dataStart : Nat} {headers : List Header},
    readHead block = some (dataStart, headers) → headers.length ≤ slots →
      ∃ spans, H.parseHeaders block slots = .complete dataStart spans
  full : ∀ {slots dataStart : Nat} {headers : List Header},
    readHead block = some (dataStart, headers) → slots < headers.length →
      H.parseHeaders block slots = .tooManyHeaders

/-- The texts that the loop of `parse_header_block_fallback` finds. -/
def fallbackTexts : Nat → Bytes → Option (List Header)
  | 0, _ => some []
  | slots + 1, rest =>
    if rest.isEmpty then some []
    else
      let lineEnd := (find crlf rest).getD rest.length
      let line := rest.take lineEnd
      match line.findIdx? (· == 58) with
      | none => none
      | some colon =>
        if colon = 0 then none
        else (fallbackTexts slots (rest.drop (lineEnd + 2))).map
          (⟨line.take colon, Bytes.trimBlank (line.drop (colon + 1))⟩ :: ·)

end Readers

section Texts

/-- A slice behind a front and before a rest. -/
theorem slice_append (front middle back : Bytes) :
    ((front ++ middle ++ back).take (front.length + middle.length)).drop front.length = middle := by
  rw [← List.length_append, List.take_left, List.drop_left]

/-- The ranges of a line that is split at a colon hold its name and its trimmed value. -/
theorem text_line (front line back : Bytes) {colon : Nat} (hcolon : colon < line.length) :
    HeaderSpan.text (front ++ line ++ back)
        ⟨.ofLength front.length colon,
          .ofLength (front.length + (colon + 1) +
              ((line.drop (colon + 1)).length - ((line.drop (colon + 1)).dropWhile Bytes.isBlank).length))
            (Bytes.trimBlank (line.drop (colon + 1))).length⟩ =
      ⟨line.take colon, Bytes.trimBlank (line.drop (colon + 1))⟩ := by
  have hline : line.take (colon + 1) ++ line.drop (colon + 1) = line := List.take_append_drop _ _
  have hhead : (line.take (colon + 1)).length = colon + 1 := by
    rw [List.length_take]
    omega
  generalize line.drop (colon + 1) = s at hline
  obtain ⟨after, hafter⟩ := List.rdropWhile_prefix Bytes.isBlank (s.dropWhile Bytes.isBlank)
  have hsplit : s.takeWhile Bytes.isBlank ++ (Bytes.trimBlank s ++ after) = s := by
    rw [Bytes.trimBlank, hafter, List.takeWhile_append_dropWhile]
  have hlead : s.length - (s.dropWhile Bytes.isBlank).length = (s.takeWhile Bytes.isBlank).length := by
    have hlength := congrArg List.length (List.takeWhile_append_dropWhile (p := Bytes.isBlank) (l := s))
    rw [List.length_append] at hlength
    omega
  have hname : front ++ line ++ back = front ++ line.take colon ++ (line.drop colon ++ back) := by
    rw [List.append_assoc front (line.take colon), ← List.append_assoc (line.take colon),
      List.take_append_drop, List.append_assoc]
  have hvalue : front ++ line ++ back = front ++ line.take (colon + 1) ++ s.takeWhile Bytes.isBlank ++
      Bytes.trimBlank s ++ (after ++ back) := by
    conv_lhs => rw [← hline, ← hsplit]
    simp only [List.append_assoc]
  have hcolonLength : (line.take colon).length = colon := by
    rw [List.length_take]
    omega
  simp only [HeaderSpan.text, Span.ofLength, Header.mk.injEq]
  constructor
  · have hslice := slice_append front (line.take colon) (line.drop colon ++ back)
    rwa [← hname, hcolonLength] at hslice
  · have hslice := slice_append (front ++ line.take (colon + 1) ++ s.takeWhile Bytes.isBlank)
      (Bytes.trimBlank s) (after ++ back)
    rwa [← hvalue, List.length_append, List.length_append, hhead, ← hlead] at hslice

theorem HeaderSpan.Within.text_append {s : HeaderSpan} {block : Bytes} (h : s.Within block.length)
    (more : Bytes) : s.text (block ++ more) = s.text block := by
  rw [text, text, List.take_append_of_le_length h.1, List.take_append_of_le_length h.2]

theorem fallbackLoop_empty (slots offset : Nat) : fallbackLoop (ε := ε) slots offset [] = .ok [] := by
  cases slots <;> rfl

theorem fallbackTexts_empty (slots : Nat) : fallbackTexts slots [] = some [] := by
  cases slots <;> rfl

/-- The loop finds the ranges of the texts that are there. -/
theorem fallbackLoop_texts (slots : Nat) (front rest : Bytes) :
    (fallbackLoop (ε := ε) slots front.length rest).toOption.map
        (List.map (HeaderSpan.text (front ++ rest))) =
      fallbackTexts slots rest := by
  induction slots generalizing front rest with
  | zero => rfl
  | succ slots ih =>
    rw [fallbackLoop, fallbackTexts]
    by_cases hempty : rest.isEmpty = true
    · rw [if_pos hempty, if_pos hempty]
      rfl
    · rw [if_neg hempty, if_neg hempty]
      have hlater (lineEnd : Nat) (h : (find crlf rest).getD rest.length = lineEnd) :
          (fallbackLoop (ε := ε) slots (front.length + (lineEnd + 2)) (rest.drop (lineEnd + 2))).toOption.map
              (List.map (HeaderSpan.text (front ++ rest))) =
            fallbackTexts slots (rest.drop (lineEnd + 2)) := by
        cases hfind : find crlf rest with
        | none =>
          rw [hfind, Option.getD_none] at h
          rw [List.drop_of_length_le (by omega), fallbackLoop_empty, fallbackTexts_empty]
          rfl
        | some i =>
          rw [hfind, Option.getD_some] at h
          have hle : i + 2 ≤ rest.length := find_length_le hfind
          have hread := ih (front ++ rest.take (lineEnd + 2)) (rest.drop (lineEnd + 2))
          rw [List.append_assoc, List.take_append_drop, List.length_append, List.length_take,
            Nat.min_eq_left (by omega)] at hread
          exact hread
      dsimp only
      generalize hend : (find crlf rest).getD rest.length = lineEnd
      have hread := hlater lineEnd hend
      cases hcolon : (rest.take lineEnd).findIdx? (· == 58) with
      | none => rfl
      | some colon =>
        dsimp only
        by_cases hzero : colon = 0
        · rw [if_pos hzero, if_pos hzero]
          rfl
        · rw [if_neg hzero, if_neg hzero, ← hread]
          have hlt := (List.findIdx?_eq_some_iff_getElem.mp hcolon).1
          have htext := text_line front (rest.take lineEnd) (rest.drop lineEnd) hlt
          rw [List.append_assoc, List.take_append_drop] at htext
          cases fallbackLoop (ε := ε) slots (front.length + (lineEnd + 2)) (rest.drop (lineEnd + 2)) with
          | error e => rfl
          | ok spans => simp only [Except.toOption, Option.map_some, List.map_cons, htext]

end Texts

section Lines

/-- A line that is a header. -/
theorem readField_eq_some {line : Bytes} {header : Header} (h : readField line = some header) :
    ∃ name rest, line = name ++ 58 :: rest ∧ name ≠ [] ∧ 58 ∉ name ∧ cr ∉ line ∧
      header = ⟨name, Bytes.trimBlank rest⟩ := by
  unfold readField at h
  split at h
  · cases h
  · next colon hcolon =>
    split_ifs at h with hvalid
    obtain ⟨hlt, heq, hbefore⟩ := List.findIdx?_eq_some_iff_getElem.mp hcolon
    obtain ⟨hzero, hname, hvalue⟩ := hvalid
    have hline : line = line.take colon ++ 58 :: line.drop (colon + 1) := by
      rw [← beq_iff_eq.mp heq, List.cons_getElem_drop_succ, List.take_append_drop]
    have hnameByte (c : UInt8) (hc : c ∈ line.take colon) : c ≠ 58 ∧ c ≠ cr := by
      obtain ⟨hcolon, -, hcr, -⟩ := isTokenChar_spec c (List.all_eq_true.mp hname c hc)
      exact ⟨hcolon, hcr⟩
    refine ⟨line.take colon, line.drop (colon + 1), hline, ?_, fun hmem => (hnameByte 58 hmem).1 rfl, ?_,
      (Option.some.inj h).symm⟩
    · intro hnil
      rcases List.take_eq_nil_iff.mp hnil with hc | hl
      · exact hzero hc
      · rw [hl] at hlt
        exact absurd hlt (Nat.not_lt_zero _)
    · rw [hline, List.mem_append, List.mem_cons]
      rintro (hmem | hmem | hmem)
      · exact (hnameByte cr hmem).2 rfl
      · cases hmem
      · exact absurd (List.all_eq_true.mp hvalue cr hmem) (by decide)

theorem findIdx?_colon {name : Bytes} (rest : Bytes) (h : 58 ∉ name) :
    (name ++ 58 :: rest).findIdx? (· == 58) = some name.length := by
  rw [List.findIdx?_append]
  have hnone : name.findIdx? (· == 58) = none := by
    rw [List.findIdx?_eq_none_iff]
    intro c hc
    rw [beq_eq_false_iff_ne]
    rintro rfl
    exact h hc
  simp [hnone, List.findIdx?_cons]

/-- One turn of the loop, at a line whose end is known. -/
theorem fallbackTexts_step {slots lineEnd : Nat} {text name rest : Bytes} (hne : text ≠ [])
    (hend : (find crlf text).getD text.length = lineEnd) (hline : text.take lineEnd = name ++ 58 :: rest)
    (hname : name ≠ []) (hcolon : 58 ∉ name) :
    fallbackTexts (slots + 1) text =
      (fallbackTexts slots (text.drop (lineEnd + 2))).map (⟨name, Bytes.trimBlank rest⟩ :: ·) := by
  have htake : (name ++ 58 :: rest).take name.length = name := List.take_left' rfl
  have hdrop : (name ++ 58 :: rest).drop (name.length + 1) = rest := by
    rw [← List.drop_drop, List.drop_left' rfl]
    rfl
  rw [fallbackTexts, if_neg (by simpa using hne)]
  simp only [hend, hline, findIdx?_colon rest hcolon, htake, hdrop]
  rw [if_neg (by simpa using hname)]

/-- A line that ends in CRLF is read as it is. -/
theorem fallbackTexts_crlf {slots : Nat} {line more : Bytes} {header : Header}
    (h : readField line = some header) :
    fallbackTexts (slots + 1) (line ++ cr :: lf :: more) =
      (fallbackTexts slots more).map (header :: ·) := by
  obtain ⟨name, rest, hline, hname, hcolon, hcr, rfl⟩ := readField_eq_some h
  have hfind : find crlf (line ++ cr :: lf :: more) = some line.length := by
    rw [find_eq_some]
    refine ⟨by simp, ?_, noneBefore_of_not_mem hcr⟩
    rw [List.drop_left]
    exact ⟨more, rfl⟩
  have hend : (find crlf (line ++ cr :: lf :: more)).getD (line ++ cr :: lf :: more).length =
      line.length := by
    rw [hfind]
    rfl
  have htake : (line ++ cr :: lf :: more).take line.length = name ++ 58 :: rest := by
    rw [List.take_left, hline]
  rw [fallbackTexts_step (by simp) hend htake hname hcolon, ← List.drop_drop, List.drop_left]
  rfl

/-- A line that ends in a line feed alone is read together with what follows it. -/
theorem fallbackTexts_lf {slots : Nat} {line more : Bytes} {header : Header} {headers : List Header}
    (h : readField line = some header) (hlf : lf ∉ line) :
    fallbackTexts (slots + 1) (line ++ lf :: more) ≠ some (header :: headers) := by
  obtain ⟨name, rest, hline, hname, hcolon, hcr, rfl⟩ := readField_eq_some h
  have hbehind : line.length < (find crlf (line ++ lf :: more)).getD (line ++ lf :: more).length := by
    cases hfind : find crlf (line ++ lf :: more) with
    | none =>
      rw [Option.getD_none, List.length_append, List.length_cons]
      omega
    | some i =>
      rw [Option.getD_some]
      obtain ⟨-, hstarts, -⟩ := find_eq_some.mp hfind
      have hget := getElem?_of_prefix_drop (i := i) hstarts (Nat.le_refl _) (by simp [crlf])
      rw [Nat.sub_self] at hget
      by_contra hle
      rcases Nat.lt_or_eq_of_le (Nat.not_lt.mp hle) with hlt | heq
      · rw [List.getElem?_append_left hlt] at hget
        exact hcr (List.mem_of_getElem? hget)
      · rw [heq, List.getElem?_append_right (Nat.le_refl _), Nat.sub_self] at hget
        cases hget
  obtain ⟨k, hk⟩ := Nat.exists_eq_add_of_lt hbehind
  have htake : (line ++ lf :: more).take (line.length + k + 1) = name ++ 58 :: (rest ++ lf :: more.take k) := by
    rw [Nat.add_assoc, List.take_length_add_append, List.take_succ_cons, hline, List.append_assoc,
      List.cons_append]
  rw [fallbackTexts_step (by simp) hk htake hname hcolon]
  intro heq
  obtain ⟨later, -, hcons⟩ := Option.map_eq_some_iff.mp heq
  have hvalue := congrArg Header.value (List.cons.inj hcons).1
  dsimp only at hvalue
  have hin : lf ∈ Bytes.trimBlank rest := by
    rw [← hvalue]
    exact Trim.mem_trim_of_mem (p := Bytes.isBlank) rfl (by simp)
  have hrest : lf ∈ rest := Trim.mem_of_mem_trim hin
  rw [hline] at hlf
  exact hlf (List.mem_append_right _ (List.mem_cons_of_mem _ hrest))

/-- The second reader reads lines as the tokenizer does exactly where they all end in CRLF. -/
theorem fallbackTexts_block_iff {lines : List Bytes} {headers : List Header} (more : Bytes)
    (hlf : ∀ line ∈ lines, lf ∉ line)
    (hread : lines.map (fun line => readField (stripCr line)) = headers.map some) :
    fallbackTexts lines.length (Delimited.block lf lines ++ more) = some headers ↔
      ∀ line ∈ lines, line.getLast? = some cr := by
  induction lines generalizing headers with
  | nil =>
    obtain rfl := List.map_eq_nil_iff.mp hread.symm
    simp [fallbackTexts]
  | cons line lines ih =>
    cases headers with
    | nil => cases hread
    | cons header headers =>
      obtain ⟨hheader, hheaders⟩ := List.cons.inj hread
      dsimp only at hheader
      have hrest := ih (fun l hl => hlf l (List.mem_cons_of_mem _ hl)) hheaders
      rw [Delimited.block_cons, List.append_assoc, List.cons_append, List.length_cons, List.forall_mem_cons,
        ← hrest]
      by_cases hcr : line.getLast? = some cr
      · obtain ⟨front, rfl⟩ := List.getLast?_eq_some_iff.mp hcr
        rw [stripCr_append_cr] at hheader
        rw [List.append_assoc]
        simp [fallbackTexts_crlf hheader, hcr]
      · rw [stripCr_of_getLast hcr] at hheader
        have hne : fallbackTexts (lines.length + 1) (line ++ lf :: (Delimited.block lf lines ++ more)) ≠
            some (header :: headers) := fallbackTexts_lf hheader (hlf line List.mem_cons_self)
        exact ⟨fun h => absurd h hne, fun h => absurd h.1 hcr⟩

/-- What a block of header lines is made of. -/
theorem readFields_eq_some {lines : List Bytes} {dataStart : Nat} {headers : List Header}
    (h : readFields lines = some (dataStart, headers)) :
    ∃ front blank back, lines = front ++ blank :: back ∧ back ≠ [] ∧ stripCr blank = [] ∧
      (∀ line ∈ front, stripCr line ≠ []) ∧
      front.map (fun line => readField (stripCr line)) = headers.map some ∧
      dataStart = (Delimited.block lf (front ++ [blank])).length := by
  induction lines generalizing dataStart headers with
  | nil => cases h
  | cons line lines ih =>
    cases lines with
    | nil => cases h
    | cons next lines =>
      rw [readFields] at h
      by_cases hblank : stripCr line = []
      · rw [if_pos hblank] at h
        cases h
        exact ⟨[], line, next :: lines, rfl, List.cons_ne_nil _ _, hblank, by simp, rfl, by simp⟩
      · rw [if_neg hblank] at h
        cases hfield : readField (stripCr line) with
        | none => simp [hfield] at h
        | some header =>
          cases hrest : readFields (next :: lines) with
          | none => simp [hfield, hrest] at h
          | some rest =>
            obtain ⟨start, found⟩ := rest
            simp only [hfield, hrest, Option.some.injEq, Prod.mk.injEq] at h
            obtain ⟨rfl, rfl⟩ := h
            obtain ⟨front, blank, back, hlines, hback, hempty, hfull, hheaders, rfl⟩ := ih hrest
            refine ⟨line :: front, blank, back, by rw [hlines]; rfl, hback, hempty, ?_, ?_, ?_⟩
            · exact List.forall_mem_cons.mpr ⟨hblank, hfull⟩
            · rw [List.map_cons, List.map_cons, hfield, hheaders]
            · simp only [List.cons_append, Delimited.block_cons, List.length_append, List.length_cons]
              omega

theorem stripCr_length_le (line : Bytes) : (stripCr line).length ≤ line.length := by
  unfold stripCr
  split
  · exact (List.dropLast_sublist line).length_le
  · exact Nat.le_refl _

theorem splitLf_ne_nil (s : Bytes) : Bytes.splitLf s ≠ [] := by
  cases s with
  | nil => exact List.cons_ne_nil _ _
  | cons b s =>
    rw [Bytes.splitLf]
    split
    · exact List.cons_ne_nil _ _
    · split <;> exact List.cons_ne_nil _ _

/-- A text whose lines start with some that others follow. -/
theorem split_block {front back : List Bytes} {s : Bytes} (h : Bytes.splitLf s = front ++ back)
    (hback : back ≠ []) : ∃ tail, s = Delimited.block lf front ++ tail ∧ Bytes.splitLf tail = back := by
  induction front generalizing s with
  | nil => exact ⟨s, rfl, h⟩
  | cons line front ih =>
    have hmem : lf ∈ s := by
      by_contra hno
      have hone : Bytes.splitLf s = [s] := splitLf_last s hno
      rw [hone] at h
      obtain ⟨-, hnil⟩ := List.cons.inj h
      exact hback (List.append_eq_nil_iff.mp hnil.symm).2
    obtain ⟨first, rest, rfl, hfirst⟩ := List.eq_append_cons_of_mem hmem
    rw [Bytes.splitLf_line first rest hfirst] at h
    obtain ⟨rfl, hrest⟩ := List.cons.inj h
    obtain ⟨tail, rfl, htail⟩ := ih hrest
    exact ⟨tail, by rw [Delimited.block_cons, List.append_assoc, List.cons_append], htail⟩

end Lines

section Blocks

/-- No line of a block is blank but its last one. -/
def OneBlank (block : Bytes) : Prop :=
  ∀ line ∈ (Bytes.splitLf block).dropLast.dropLast, stripCr line ≠ []

/-- The first lines of a block, as many as headers are kept, end in CRLF. -/
def CrlfLines (block : Bytes) : Prop :=
  ∀ line ∈ (Bytes.splitLf block).take maxHeaders, line.getLast? = some cr

instance (block : Bytes) : Decidable (OneBlank block) :=
  inferInstanceAs (Decidable (∀ line ∈ (Bytes.splitLf block).dropLast.dropLast, stripCr line ≠ []))

instance (block : Bytes) : Decidable (CrlfLines block) :=
  inferInstanceAs (Decidable (∀ line ∈ (Bytes.splitLf block).take maxHeaders, line.getLast? = some cr))

/-- What the second reader makes of a block. -/
theorem parseHeaderBlockFallback_texts {block : Bytes} (hends : crlf ++ crlf <:+ block) :
    (parseHeaderBlockFallback (ε := ε) block).toOption.map
        (fun b => (b.spans.map (HeaderSpan.text block), b.dataStart)) =
      (fallbackTexts maxHeaders (block.take (block.length - 4))).map fun texts =>
        (texts, block.length) := by
  have hlength : 4 ≤ block.length := hends.length_le
  have htexts := fallbackLoop_texts (ε := ε) maxHeaders [] (block.take (block.length - 4))
  rw [parseHeaderBlockFallback, if_pos (List.isSuffixOf_iff_suffix.mpr hends)]
  dsimp only
  split
  · next e he =>
    rw [List.length_nil, he] at htexts
    rw [← htexts]
    rfl
  · next spans hspans =>
    have hsame : spans.map (HeaderSpan.text block) =
        spans.map (HeaderSpan.text (block.take (block.length - 4))) := by
      apply List.map_congr_left
      intro s hs
      have hwithin := fallbackLoop_within hspans s hs
      rw [Nat.zero_add] at hwithin
      have happend := hwithin.text_append (block.drop (block.length - 4))
      rwa [List.take_append_drop] at happend
    rw [List.length_nil, hspans] at htexts
    rw [← htexts]
    simp only [Except.toOption, Option.map_some, hsame, List.nil_append]
    rw [Nat.sub_add_cancel hlength]

/-- The data starts behind the block exactly when no line is blank before its last one. -/
theorem dataStart_eq_length_iff {block blank : Bytes} {front back : List Bytes}
    (hends : crlf ++ crlf <:+ block) (hlines : Bytes.splitLf block = front ++ blank :: back)
    (hback : back ≠ []) (hblank : stripCr blank = []) (hfull : ∀ line ∈ front, stripCr line ≠ []) :
    (Delimited.block lf (front ++ [blank])).length = block.length ↔ OneBlank block := by
  have hcut : Bytes.splitLf block = (front ++ [blank]) ++ back := by simp [hlines]
  obtain ⟨tail, hblock, htail⟩ := split_block hcut hback
  have hempty : (Delimited.block lf (front ++ [blank])).length = block.length ↔ tail = [] := by
    rw [hblock, List.length_append, ← List.length_eq_zero_iff]
    omega
  rw [hempty, OneBlank, hlines]
  constructor
  · rintro rfl
    obtain rfl : back = [[]] := htail.symm
    simpa using hfull
  · intro hone
    obtain ⟨last, rfl⟩ : ∃ last, back = [last] := by
      match back, hback with
      | [last], _ => exact ⟨last, rfl⟩
      | first :: second :: back, _ =>
        have hin : blank ∈ (front ++ blank :: first :: second :: back).dropLast.dropLast := by
          simp [List.dropLast_append_of_ne_nil]
        exact absurd hblank (hone blank hin)
    have hno : lf ∉ tail := by
      intro hmem
      obtain ⟨first, rest, rfl, hfirst⟩ := List.eq_append_cons_of_mem hmem
      rw [Bytes.splitLf_line first rest hfirst] at htail
      exact splitLf_ne_nil rest (List.cons.inj htail).2
    obtain ⟨start, hstart⟩ := hends
    have hlast : block.getLast? = some lf := by
      rw [← hstart]
      simp [crlf, List.getLast?_append]
    by_contra hne
    rw [hblock, List.getLast?_append_of_ne_nil _ hne] at hlast
    exact hno (List.mem_of_getLast? hlast)

/-- The first lines of a block with more headers than are kept are read by the second reader as
by the tokenizer exactly where they end in CRLF. -/
theorem fallbackTexts_eq_iff {block blank : Bytes} {front back : List Bytes} {headers : List Header}
    (hlines : Bytes.splitLf block = front ++ blank :: back) (hback : back ≠ [])
    (hread : front.map (fun line => readField (stripCr line)) = headers.map some)
    (hmore : maxHeaders < headers.length) :
    fallbackTexts maxHeaders (block.take (block.length - 4)) = some (headers.take maxHeaders) ↔
      CrlfLines block := by
  have hlength : front.length = headers.length := by
    simpa using congrArg List.length hread
  obtain ⟨kept, next, others, rfl, hkept⟩ :
      ∃ kept next others, front = kept ++ next :: others ∧ kept.length = maxHeaders := by
    have hlt : maxHeaders < front.length := by omega
    refine ⟨front.take maxHeaders, front[maxHeaders], front.drop (maxHeaders + 1), ?_, ?_⟩
    · rw [List.cons_getElem_drop_succ, List.take_append_drop]
    · rw [List.length_take]
      omega
  have hcut : Bytes.splitLf block = (kept ++ next :: (others ++ [blank])) ++ back := by simp [hlines]
  obtain ⟨tail, hblock, -⟩ := split_block hcut hback
  -- What follows the kept lines is longer than the two line ends that are cut off.
  have hlong : 4 ≤ (Delimited.block lf (next :: (others ++ [blank])) ++ tail).length := by
    have hnext : readField (stripCr next) ∈ headers.map some := by
      rw [← hread]
      exact List.mem_map_of_mem (by simp)
    obtain ⟨header, -, hheader⟩ := List.mem_map.mp hnext
    obtain ⟨name, rest, hname, hne, -⟩ := readField_eq_some hheader.symm
    have hpos := List.length_pos_iff.mpr hne
    have hle := stripCr_length_le next
    have hstripped := congrArg List.length hname
    rw [List.length_append, List.length_cons] at hstripped
    have hblank : (Delimited.block lf (others ++ [blank])).length =
        (Delimited.block lf others).length + blank.length + 1 := by
      simp [Delimited.block, Nat.add_assoc]
    rw [Delimited.block_cons, List.length_append, List.length_append, List.length_cons, hblank]
    omega
  have hsplit : block = Delimited.block lf kept ++
      (Delimited.block lf (next :: (others ++ [blank])) ++ tail) := by
    rw [hblock]
    simp [Delimited.block]
  generalize Delimited.block lf (next :: (others ++ [blank])) ++ tail = rest at hlong hsplit
  have htext : block.take (block.length - 4) = Delimited.block lf kept ++ rest.take (rest.length - 4) := by
    rw [hsplit, List.length_append, Nat.add_sub_assoc hlong, List.take_length_add_append]
  have hlf : ∀ line ∈ kept, lf ∉ line := by
    intro line hline
    have hmem : line ∈ Bytes.splitLf block := by
      rw [hlines]
      simp [hline]
    exact lf_not_mem_of_mem_splitLf hmem
  have hkeptRead : kept.map (fun line => readField (stripCr line)) =
      (headers.take maxHeaders).map some := by
    rw [List.map_take, ← hread, List.map_append, List.take_left' (by rw [List.length_map, hkept])]
  have htake : (Bytes.splitLf block).take maxHeaders = kept := by
    rw [hlines, List.append_assoc]
    exact List.take_left' hkept
  rw [CrlfLines, htake, htext, ← hkept, ← fallbackTexts_block_iff _ hlf (hkept ▸ hkeptRead)]

/-- A block that the tokenizer accepts, given enough slots, is read as the headers that are kept
of those and with the data where the tokenizer has it, exactly when it has no more headers than
are kept, or they end in CRLF and no line is blank before the end of the block. -/
theorem parseHeaderBlock_exact_iff {H : Httparse} {block : Bytes} {slots dataStart : Nat}
    {spans : List HeaderSpan} (hH : H.Documented block) (hends : crlf ++ crlf <:+ block)
    (haccepts : H.parseHeaders block slots = .complete dataStart spans) :
    (∃ b, parseHeaderBlock (ε := ε) H block = .ok b ∧ b.dataStart = dataStart ∧
        b.spans.map (HeaderSpan.text block) = (spans.map (HeaderSpan.text block)).take maxHeaders) ↔
      spans.length ≤ maxHeaders ∨ CrlfLines block ∧ OneBlank block := by
  obtain ⟨hread, -⟩ := hH.complete haccepts
  have hlength : (spans.map (HeaderSpan.text block)).length = spans.length := List.length_map _
  generalize spans.map (HeaderSpan.text block) = headers at hread hlength ⊢
  rw [← hlength]
  by_cases hfew : headers.length ≤ maxHeaders
  · refine iff_of_true ?_ (Or.inl hfew)
    obtain ⟨kept, hkept⟩ := hH.enough hread hfew
    obtain ⟨hsame, hroom⟩ := hH.complete hkept
    obtain ⟨-, htexts⟩ := Prod.mk.inj (Option.some.inj (hsame.symm.trans hread))
    refine ⟨⟨kept.take maxHeaders, 0, dataStart, List.length_take_le _ _⟩, ?_, rfl, ?_⟩
    · rw [parseHeaderBlock, hkept]
    · rw [List.map_take, htexts]
  · have hmore : maxHeaders < headers.length := Nat.lt_of_not_le hfew
    obtain ⟨front, blank, back, hlines, hback, hblank, hfull, hfields, rfl⟩ := readFields_eq_some hread
    have hfallback : parseHeaderBlock (ε := ε) H block = parseHeaderBlockFallback block := by
      rw [parseHeaderBlock, hH.full hread hmore]
    have htexts := parseHeaderBlockFallback_texts (ε := ε) hends
    rw [← fallbackTexts_eq_iff hlines hback hfields hmore,
      ← dataStart_eq_length_iff hends hlines hback hblank hfull, hfallback, or_iff_right hfew]
    cases hresult : parseHeaderBlockFallback (ε := ε) block with
    | error e =>
      rw [hresult] at htexts
      have hnone := Option.map_eq_none_iff.mp htexts.symm
      simp [hnone]
    | ok b =>
      rw [hresult] at htexts
      obtain ⟨texts, hsome, heq⟩ := Option.map_eq_some_iff.mp htexts.symm
      obtain ⟨rfl, hstart⟩ := Prod.mk.inj heq
      rw [hsome, Option.some.injEq]
      constructor
      · rintro ⟨_, ⟨⟩, hdata, hspans⟩
        exact ⟨hspans, hdata.symm.trans hstart.symm⟩
      · rintro ⟨hspans, hdata⟩
        exact ⟨b, rfl, hstart.symm.trans hdata.symm, hspans⟩

/-- The tokenizer on one block, with what it reads there. -/
def blockHttparse (block : Bytes) (dataStart : Nat) (spans : List HeaderSpan)
    (hwithin : dataStart ≤ block.length ∧ ∀ s ∈ spans, s.Within block.length) : Httparse where
  parseHeaders text slots :=
    if text = block then if spans.length ≤ slots then .complete dataStart spans else .tooManyHeaders
    else .failed
  within := by
    intro text slots start found h
    split_ifs at h with htext hroom
    cases h
    rw [htext]
    exact hwithin

theorem blockHttparse_documented {block : Bytes} {dataStart : Nat} {spans : List HeaderSpan}
    {hwithin : dataStart ≤ block.length ∧ ∀ s ∈ spans, s.Within block.length}
    (hread : readHead block = some (dataStart, spans.map (HeaderSpan.text block))) :
    (blockHttparse block dataStart spans hwithin).Documented block where
  complete := by
    intro slots start found h
    simp only [blockHttparse, if_true] at h
    split_ifs at h with hroom
    cases h
    exact ⟨hread, hroom⟩
  enough := by
    intro slots start headers h hroom
    obtain ⟨rfl, rfl⟩ := Prod.mk.inj (Option.some.inj (hread.symm.trans h))
    rw [List.length_map] at hroom
    exact ⟨spans, by simp only [blockHttparse, if_true, if_pos hroom]⟩
  full := by
    intro slots start headers h hfull
    obtain ⟨rfl, rfl⟩ := Prod.mk.inj (Option.some.inj (hread.symm.trans h))
    rw [List.length_map] at hfull
    simp only [blockHttparse, if_true, if_neg (Nat.not_le_of_lt hfull)]

def surplusBlock : Bytes := ascii "A: 1\r\nB: 2\r\nC: 3\r\nD: 4\r\n\r\n"

def surplusSpans : List HeaderSpan :=
  [⟨.ofLength 0 1, .ofLength 3 1⟩, ⟨.ofLength 6 1, .ofLength 9 1⟩, ⟨.ofLength 12 1, .ofLength 15 1⟩,
    ⟨.ofLength 18 1, .ofLength 21 1⟩]

theorem parseHeaderBlock_exact_surplus :
    ∃ b, parseHeaderBlock (ε := Empty)
        (blockHttparse surplusBlock 26 surplusSpans (by decide +kernel)) surplusBlock = .ok b ∧
      b.dataStart = 26 ∧ b.spans.map (HeaderSpan.text surplusBlock) =
        (surplusSpans.map (HeaderSpan.text surplusBlock)).take maxHeaders := by
  let H := blockHttparse surplusBlock 26 surplusSpans (by decide +kernel)
  have hH : H.Documented surplusBlock := blockHttparse_documented (by decide +kernel)
  have haccepts : H.parseHeaders surplusBlock 4 = .complete 26 surplusSpans := by rfl
  exact (parseHeaderBlock_exact_iff hH ⟨surplusBlock.take 22, by decide +kernel⟩ haccepts).mpr
    (Or.inr ⟨by decide +kernel, by decide +kernel⟩)

/-- The same headers, the first of them ended by a line feed alone. -/
def mixedBlock : Bytes := ascii "A: 1\nB: 2\r\nC: 3\r\nD: 4\r\n\r\n"

def mixedSpans : List HeaderSpan :=
  [⟨.ofLength 0 1, .ofLength 3 1⟩, ⟨.ofLength 5 1, .ofLength 8 1⟩, ⟨.ofLength 11 1, .ofLength 14 1⟩,
    ⟨.ofLength 17 1, .ofLength 20 1⟩]

theorem parseHeaderBlock_mixed_lines :
    ∃ H : Httparse, H.Documented mixedBlock ∧ crlf ++ crlf <:+ mixedBlock ∧
      H.parseHeaders mixedBlock 4 = .complete 25 mixedSpans ∧
      (mixedSpans.map (HeaderSpan.text mixedBlock)).take maxHeaders =
        [⟨ascii "A", ascii "1"⟩, ⟨ascii "B", ascii "2"⟩, ⟨ascii "C", ascii "3"⟩] ∧
      (parseHeaderBlock (ε := Empty) H mixedBlock).toOption.map
          (fun b => b.spans.map (HeaderSpan.text mixedBlock)) =
        some [⟨ascii "A", ascii "1\nB: 2"⟩, ⟨ascii "C", ascii "3"⟩, ⟨ascii "D", ascii "4"⟩] :=
  ⟨blockHttparse mixedBlock 25 mixedSpans (by decide +kernel),
    blockHttparse_documented (by decide +kernel), ⟨mixedBlock.take 21, by decide +kernel⟩, by rfl,
    by decide +kernel, by decide +kernel⟩

end Blocks

end S3s.FormData
