import S3s.Policy.Pattern
import S3s.SigV4.Decodability
import S3s.SigV4.HeaderBlock

/-! # Patterns and characters

The documentation of a pattern speaks of characters, and the matcher of bytes. A literal
of a valid text can only be found where a character begins, so both place the literals
alike, and differ in the wildcards between them: one `?` is one byte.
-/
namespace S3s.Policy

open Glob
open Bytes (validUtf8 isContinuation)
open SigV4 (utf8Chars)
open Utf8 (IsChar)

/-- What a character of a pattern stands for. -/
def charItem (char : Bytes) : Item Bytes :=
  if char = [42] then .star else if char = [63] then .any else .lit char

/-- The pattern matches the input by its characters. -/
def CharMatches (pattern input : Bytes) : Prop :=
  Matches ((utf8Chars pattern).map charItem) (utf8Chars input)

section Characters

theorem utf8Chars_cons_of_chars {char t : Bytes} (hchar : IsChar char) (ht : ∀ c ∈ utf8Chars t, IsChar c) :
    utf8Chars (char ++ t) = char :: utf8Chars t := by
  obtain ⟨a, tail, rfl, -, htail, -⟩ := hchar.shape
  apply SigV4.utf8Chars_append _ a htail
  intro c hc
  obtain ⟨b, u, rfl, hb, -⟩ := (ht c (List.mem_of_mem_head? hc)).shape
  exact ⟨b, u, rfl, hb⟩

/-- A valid text is cut into characters. -/
theorem isChar_of_mem_utf8Chars {s : Bytes} (h : validUtf8 s = true) : ∀ c ∈ utf8Chars s, IsChar c := by
  refine Utf8.validUtf8_induction (P := fun s => ∀ c ∈ utf8Chars s, IsChar c) ?_ ?_ h
  · simp [utf8Chars]
  · intro char t hchar _ ih
    rw [utf8Chars_cons_of_chars hchar ih]
    exact List.forall_mem_cons.mpr ⟨hchar, ih⟩

theorem utf8Chars_cons {char t : Bytes} (hchar : IsChar char) (ht : validUtf8 t = true) :
    utf8Chars (char ++ t) = char :: utf8Chars t :=
  utf8Chars_cons_of_chars hchar (isChar_of_mem_utf8Chars ht)

theorem utf8Chars_append {s t : Bytes} (hs : validUtf8 s = true) (ht : validUtf8 t = true) :
    utf8Chars (s ++ t) = utf8Chars s ++ utf8Chars t := by
  refine Utf8.validUtf8_induction (P := fun s => utf8Chars (s ++ t) = utf8Chars s ++ utf8Chars t) rfl ?_ hs
  intro char u hchar hu ih
  have hut : validUtf8 (u ++ t) = true := (Utf8.validUtf8_append hu t).trans ht
  rw [List.append_assoc, utf8Chars_cons hchar hut, ih, utf8Chars_cons hchar hu, List.cons_append]

/-- Characters in a row are a valid text, and its characters. -/
theorem utf8Chars_of_chars {chars : List Bytes} (h : ∀ c ∈ chars, IsChar c) :
    validUtf8 chars.flatten = true ∧ utf8Chars chars.flatten = chars := by
  induction chars with
  | nil => exact ⟨rfl, rfl⟩
  | cons c chars ih =>
    obtain ⟨hc, hchars⟩ := List.forall_mem_cons.mp h
    obtain ⟨hvalid, heq⟩ := ih hchars
    rw [List.flatten_cons, hc.validUtf8_append, utf8Chars_cons hc hvalid, heq]
    exact ⟨hvalid, rfl⟩

/-- The characters of one byte are ASCII. -/
theorem ascii_of_isChar {b : UInt8} (h : IsChar [b]) : b < 0x80 := by
  have hvalid := h.validUtf8_append []
  rw [List.append_nil] at hvalid
  by_contra hb
  simp [validUtf8, hb] at hvalid

/-- In a character of several bytes none is ASCII. -/
theorem not_ascii_of_isChar {c : Bytes} (h : IsChar c) (hlength : c.length ≠ 1) {b : UInt8} (hb : b ∈ c) :
    ¬b < 0x80 := by
  obtain ⟨a, tail, rfl, -, htail, -⟩ := h.shape
  intro hascii
  rcases List.mem_cons.mp hb with rfl | hb
  · cases tail with
    | nil => exact hlength rfl
    | cons d tail =>
      have hvalid := h.validUtf8_append []
      rw [List.append_nil, Bytes.validUtf8_cons_ascii b _ hascii] at hvalid
      obtain ⟨d', t, hd, hchar, -⟩ := Utf8.exists_isChar (hvalid.trans rfl) (List.cons_ne_nil d tail)
      obtain ⟨e, u, rfl, he, -⟩ := hchar.shape
      obtain ⟨rfl, -⟩ := List.cons.inj hd
      rw [htail d List.mem_cons_self] at he
      cases he
  · have hcontinuation := htail b hb
    rw [Utf8.isContinuation_of_ascii hascii] at hcontinuation
    cases hcontinuation

theorem length_pos_of_isChar {c : Bytes} (h : IsChar c) : 0 < c.length := by
  obtain ⟨a, tail, rfl, -⟩ := h.shape
  exact Nat.succ_pos _

/-- How many bytes characters have. -/
def byteSize (chars : List Bytes) : Nat := chars.flatten.length

theorem byteSize_append (t u : List Bytes) : byteSize (t ++ u) = byteSize t + byteSize u := by
  simp [byteSize]

theorem length_le_byteSize {chars : List Bytes} (h : ∀ c ∈ chars, IsChar c) :
    chars.length ≤ byteSize chars := by
  induction chars with
  | nil => exact Nat.zero_le _
  | cons c chars ih =>
    obtain ⟨hc, hchars⟩ := List.forall_mem_cons.mp h
    have hpos := length_pos_of_isChar hc
    have hrest := ih hchars
    simp only [byteSize, List.flatten_cons, List.length_append, List.length_cons] at hrest ⊢
    omega

/-- Characters are as many as their bytes when each is one byte. -/
theorem byteSize_eq_length_iff {chars : List Bytes} (h : ∀ c ∈ chars, IsChar c) :
    byteSize chars = chars.length ↔ ∀ b ∈ chars.flatten, b < 0x80 := by
  induction chars with
  | nil => simp [byteSize]
  | cons c chars ih =>
    obtain ⟨hc, hchars⟩ := List.forall_mem_cons.mp h
    have hpos := length_pos_of_isChar hc
    have hrest := length_le_byteSize hchars
    have hsize : byteSize (c :: chars) = c.length + byteSize chars := by simp [byteSize]
    have hsplit : byteSize (c :: chars) = (c :: chars).length ↔
        c.length = 1 ∧ byteSize chars = chars.length := by
      rw [hsize, List.length_cons]
      omega
    have hone : c.length = 1 ↔ ∀ b ∈ c, b < 0x80 := by
      constructor
      · intro hlength
        obtain ⟨b, rfl⟩ := List.length_eq_one_iff.mp hlength
        simpa using ascii_of_isChar hc
      · intro hascii
        by_contra hlength
        obtain ⟨a, tail, rfl, -⟩ := hc.shape
        exact not_ascii_of_isChar hc hlength List.mem_cons_self (hascii a List.mem_cons_self)
    rw [hsplit, hone, ih hchars, List.flatten_cons]
    simp only [List.mem_append]
    constructor
    · rintro ⟨hfirst, hothers⟩ b (hb | hb)
      · exact hfirst b hb
      · exact hothers b hb
    · exact fun hall => ⟨fun b hb => hall b (Or.inl hb), fun b hb => hall b (Or.inr hb)⟩

end Characters

section Placing

/-- The items of a pattern are those of its characters, spelled in bytes. -/
theorem items_of_chars {chars : List Bytes} (h : ∀ c ∈ chars, IsChar c) :
    chars.flatten.map item = (chars.map charItem).flatMap (Item.spelled id) := by
  induction chars with
  | nil => rfl
  | cons c chars ih =>
    obtain ⟨hc, hchars⟩ := List.forall_mem_cons.mp h
    have hchar : c.map item = (charItem c).spelled id := by
      unfold charItem
      split_ifs with hstar hany
      · rw [hstar]
        rfl
      · rw [hany]
        rfl
      · apply List.map_congr_left
        intro b hb
        have hother (d : UInt8) (hd : d < 0x80) (hne : c ≠ [d]) : b ≠ d := by
          rintro rfl
          have hlength : c.length = 1 := by
            by_contra hlength
            exact not_ascii_of_isChar hc hlength hb hd
          obtain ⟨e, rfl⟩ := List.length_eq_one_iff.mp hlength
          exact hne (by rw [List.mem_singleton.mp hb])
        rw [item, if_neg (hother 42 (by decide) hstar), if_neg (hother 63 (by decide) hany)]
    rw [List.flatten_cons, List.map_append, hchar, ih hchars, List.map_cons, List.flatMap_cons]

/-- The literals of a pattern are characters of it. -/
theorem isChar_of_mem_runs {chars : List Bytes} (h : ∀ c ∈ chars, IsChar c) :
    ∀ l ∈ (runs (chars.map charItem)).2, IsChar l.1 := by
  intro l hl
  obtain ⟨c, hc, hlit⟩ := List.mem_map.mp (lit_mem_of_mem_runs hl)
  unfold charItem at hlit
  split_ifs at hlit
  rw [← Item.lit.inj hlit]
  exact h c hc

/-- In a valid text the characters of a pattern can only be found where characters begin. -/
theorem placed_bytes_iff {r : Run} {ls : List (Bytes × Run)} (hls : ∀ l ∈ ls, IsChar l.1) {s : Bytes}
    (hs : validUtf8 s = true) :
    Placed List.length id r ls s ↔ Placed byteSize (fun c => [c]) r ls (utf8Chars s) := by
  induction ls generalizing r s with
  | nil => simp only [Placed, byteSize, SigV4.flatten_utf8Chars]
  | cons l ls ih =>
    obtain ⟨w, r'⟩ := l
    have hw : IsChar w := hls _ List.mem_cons_self
    replace hls : ∀ l ∈ ls, IsChar l.1 := fun l hl => hls l (List.mem_cons_of_mem _ hl)
    constructor
    · rintro ⟨t, u, heq, ht, hu⟩
      rw [id_eq] at heq
      subst heq
      obtain ⟨a, tail, hshape, ha, -⟩ := hw.shape
      have hboundary : Utf8.isCharBoundary (t ++ (w ++ u)) t.length = true := by
        simp [Utf8.isCharBoundary, hshape, ha]
      obtain ⟨htvalid, hrest⟩ := Utf8.validUtf8_take_drop hs hboundary
      rw [List.take_left' rfl] at htvalid
      rw [List.drop_left' rfl] at hrest
      have huvalid : validUtf8 u = true := (hw.validUtf8_append u).symm.trans hrest
      refine ⟨utf8Chars t, utf8Chars u, ?_, ?_, (ih hls huvalid).mp hu⟩
      · rw [utf8Chars_append htvalid hrest, utf8Chars_cons hw huvalid]
        rfl
      · rwa [byteSize, SigV4.flatten_utf8Chars]
    · rintro ⟨t, u, htu, ht, hu⟩
      have hchars := isChar_of_mem_utf8Chars hs
      have huchars : ∀ c ∈ u, IsChar c := by
        intro c hc
        apply hchars
        rw [htu]
        simp [hc]
      obtain ⟨huvalid, hueq⟩ := utf8Chars_of_chars huchars
      rw [← hueq] at hu
      refine ⟨t.flatten, u.flatten, ?_, ht, (ih hls huvalid).mpr hu⟩
      have hflatten := SigV4.flatten_utf8Chars s
      rw [htu] at hflatten
      rw [← hflatten]
      simp

variable {pattern input : Bytes}

/-- The matcher places the characters of a pattern by the bytes between them. -/
theorem matches_iff_byteSize (hpattern : validUtf8 pattern = true) (hinput : validUtf8 input = true) :
    Matches (pattern.map item) input ↔
      Placed byteSize (fun c => [c]) (runs ((utf8Chars pattern).map charItem)).1
        (runs ((utf8Chars pattern).map charItem)).2 (utf8Chars input) := by
  have hchars := isChar_of_mem_utf8Chars hpattern
  have hitems := items_of_chars hchars
  rw [SigV4.flatten_utf8Chars] at hitems
  rw [hitems, matches_iff_placed, placed_bytes_iff (isChar_of_mem_runs hchars) hinput]

theorem charMatches_iff_length :
    CharMatches pattern input ↔
      Placed List.length (fun c => [c]) (runs ((utf8Chars pattern).map charItem)).1
        (runs ((utf8Chars pattern).map charItem)).2 (utf8Chars input) := by
  rw [CharMatches, ← matches_iff_placed, flatMap_spelled_single]

end Placing

/-- A run that says the same of bytes and of characters: it has no `?`, or a single one and a star. -/
def Plain (r : Run) : Prop := r.anys = 0 ∨ (r.anys = 1 ∧ r.star = true)

instance (r : Run) : Decidable (Plain r) := inferInstanceAs (Decidable (_ ∨ _))

/-- All runs of the pattern are plain. -/
def Pattern.IsPlain (pattern : Pattern) : Prop :=
  ∀ r ∈ allRuns ((utf8Chars pattern.bytes).map charItem), Plain r

/-- A set matches an input when one of its patterns does so by its characters. -/
def PatternSet.Agrees (set : PatternSet) (input : Str) : Prop :=
  set.isMatch input = some true ↔ ∃ pattern ∈ set.patterns, CharMatches pattern.bytes input.bytes

section Agreement

theorem Plain.fits_iff {r : Run} (h : Plain r) {chars : List Bytes} (hchars : ∀ c ∈ chars, IsChar c) :
    r.Fits (byteSize chars) ↔ r.Fits chars.length := by
  have hle := length_le_byteSize hchars
  have hzero : chars.length = 0 → byteSize chars = 0 := by
    intro hlength
    rw [List.length_eq_zero_iff.mp hlength]
    rfl
  rcases h with hanys | ⟨hanys, hstar⟩
  · have hiff : 0 = byteSize chars ↔ 0 = chars.length := by omega
    simp only [Run.Fits, hanys, Nat.zero_le, true_and, hiff]
  · simp only [Run.Fits, hanys, hstar, true_or, and_true]
    omega

/-- A plain pattern, and any pattern on an ASCII input, matches bytes as it does characters. -/
theorem matches_iff_charMatches {pattern : Pattern} {input : Str}
    (h : (∀ b ∈ input.bytes, b < 0x80) ∨ pattern.IsPlain) :
    Matches (pattern.bytes.map item) input.bytes ↔ CharMatches pattern.bytes input.bytes := by
  rw [matches_iff_byteSize pattern.valid input.valid, charMatches_iff_length]
  apply Placed.congr
  intro r hr t ht
  have hchars : ∀ c ∈ t, IsChar c := fun c hc => isChar_of_mem_utf8Chars input.valid c (ht.subset hc)
  rcases h with hascii | hplain
  · have hsize : byteSize t = t.length := by
      rw [byteSize_eq_length_iff hchars]
      intro b hb
      apply hascii
      rw [← SigV4.flatten_utf8Chars input.bytes]
      exact ht.flatten.subset hb
    rw [hsize]
  · exact (hplain r hr).fits_iff hchars

theorem PatternSet.agrees_iff {set : PatternSet} {input : Str} :
    set.Agrees input ↔ ((∃ pattern ∈ set.patterns, Matches (pattern.bytes.map item) input.bytes) ↔
      ∃ pattern ∈ set.patterns, CharMatches pattern.bytes input.bytes) := by
  obtain ⟨matched, hmatched, hiff⟩ := set.isMatch_iff input
  rw [Agrees, hmatched, Option.some.injEq, hiff]

theorem PatternSet.single_agrees_iff {pattern : Pattern} {input : Str} :
    (PatternSet.mk [pattern]).Agrees input ↔
      (Matches (pattern.bytes.map item) input.bytes ↔ CharMatches pattern.bytes input.bytes) := by
  simp [agrees_iff]

end Agreement

section Differences

/-- A character of two bytes. -/
def accent : Bytes := [0xC3, 0xA9]

theorem isChar_accent : IsChar accent := Utf8.isChar_two (by decide) (by decide)

/-- As many bytes as the run has `?`, in as few characters of at most two bytes as possible. -/
def narrow (r : Run) : List Bytes :=
  List.replicate (r.anys / 2) accent ++ List.replicate (r.anys % 2) [97]

/-- As many characters as the run has `?`, each of two bytes. -/
def wide (r : Run) : List Bytes := List.replicate r.anys accent

theorem byteSize_replicate (n : Nat) (c : Bytes) : byteSize (List.replicate n c) = n * c.length := by
  induction n with
  | zero => simp [byteSize]
  | succ n ih =>
    rw [List.replicate_succ, ← List.singleton_append, byteSize_append, ih, Nat.succ_mul, Nat.add_comm]
    simp [byteSize]

theorem byteSize_narrow (r : Run) : byteSize (narrow r) = r.anys := by
  rw [narrow, byteSize_append, byteSize_replicate, byteSize_replicate]
  simp only [accent, List.length_cons, List.length_nil]
  omega

theorem length_narrow (r : Run) : (narrow r).length = r.anys / 2 + r.anys % 2 := by simp [narrow]

theorem isChar_of_mem_narrow {r : Run} {c : Bytes} (hc : c ∈ narrow r) : IsChar c := by
  rcases List.mem_append.mp hc with hc | hc
  · rw [List.eq_of_mem_replicate hc]
    exact isChar_accent
  · rw [List.eq_of_mem_replicate hc]
    exact Utf8.isChar_one (by decide)

theorem isChar_of_mem_wide {r : Run} {c : Bytes} (hc : c ∈ wide r) : IsChar c := by
  rw [List.eq_of_mem_replicate hc]
  exact isChar_accent

/-- How many of the characters are one byte. -/
def singles (chars : List Bytes) : Nat := chars.countP fun c => c.length = 1

theorem singles_append (t u : List Bytes) : singles (t ++ u) = singles t + singles u := List.countP_append

theorem singles_pos {chars : List Bytes} (h : byteSize chars = 1) : 1 ≤ singles chars := by
  induction chars with
  | nil => cases h
  | cons c chars ih =>
    simp only [byteSize, List.flatten_cons, List.length_append] at h ih
    rw [singles, List.countP_cons]
    by_cases hc : c.length = 1
    · simp [hc]
    · exact Nat.le_add_right_of_le (ih (by omega))

theorem isChar_of_mem_filled {fill : Run → List Bytes} (hfill : ∀ r, ∀ c ∈ fill r, IsChar c) {r : Run}
    {ls : List (Bytes × Run)} (hls : ∀ l ∈ ls, IsChar l.1) :
    ∀ c ∈ filled (fun c => [c]) fill r ls, IsChar c := by
  induction ls generalizing r with
  | nil => exact hfill r
  | cons l ls ih =>
    obtain ⟨hl, hls⟩ := List.forall_mem_cons.mp hls
    intro c hc
    rcases List.mem_append.mp hc with hc | hc
    · exact hfill r c hc
    · rcases List.mem_cons.mp hc with rfl | hc
      · exact hl
      · exact ih hls c hc

variable {pattern : Pattern}

/-- A pattern is at least as long as its literals and its `?` together, since it matches itself. -/
theorem total_le_length (pattern : Pattern) :
    total (fun c => byteSize [c]) Run.anys (runs ((utf8Chars pattern.bytes).map charItem)).1
      (runs ((utf8Chars pattern.bytes).map charItem)).2 ≤ pattern.bytes.length := by
  have hself : Matches (pattern.bytes.map item) pattern.bytes := by
    apply matches_map
    intro b
    by_cases hb : b = 42
    · exact Or.inl (if_pos hb)
    · exact Or.inr ((item_takes hb).mpr (Or.inl rfl))
  rw [matches_iff_byteSize pattern.valid pattern.valid] at hself
  have htotal := hself.total_le byteSize byteSize_append Run.anys (fun r t h => h.1)
  rwa [byteSize, SigV4.flatten_utf8Chars] at htotal

/-- A pattern that agrees on every input agrees on itself with its runs filled. -/
theorem placed_iff_of_agrees (hlength : 2 * pattern.bytes.length < 2 ^ 63)
    (h : ∀ input, (PatternSet.mk [pattern]).Agrees input) {fill : Run → List Bytes}
    (hchars : ∀ r, ∀ c ∈ fill r, IsChar c) (hfill : ∀ r, byteSize (fill r) ≤ 2 * r.anys) {r : Run}
    {ls : List (Bytes × Run)} (hruns : runs ((utf8Chars pattern.bytes).map charItem) = (r, ls)) :
    Placed byteSize (fun c => [c]) r ls (filled (fun c => [c]) fill r ls) ↔
      Placed List.length (fun c => [c]) r ls (filled (fun c => [c]) fill r ls) := by
  have hls : ∀ l ∈ ls, IsChar l.1 := by
    have hall := isChar_of_mem_runs (isChar_of_mem_utf8Chars pattern.valid)
    rwa [hruns] at hall
  obtain ⟨hvalid, heq⟩ := utf8Chars_of_chars (isChar_of_mem_filled hchars (r := r) hls)
  have htotal := total_le_length pattern
  rw [hruns] at htotal
  have hsize : byteSize (filled (fun c => [c]) fill r ls) ≤ 2 * pattern.bytes.length := by
    rw [weight_filled byteSize byteSize_append]
    apply (total_le_mul 2 (fun c => _) hfill r ls).trans (Nat.mul_le_mul_left 2 htotal)
    omega
  have hagrees := h ⟨⟨_, hsize.trans_lt hlength⟩, hvalid⟩
  rwa [PatternSet.single_agrees_iff, matches_iff_byteSize pattern.valid hvalid, charMatches_iff_length, hruns,
    heq] at hagrees

/-- A pattern that agrees on every input is plain. -/
theorem isPlain_of_agrees (hlength : 2 * pattern.bytes.length < 2 ^ 63)
    (h : ∀ input, (PatternSet.mk [pattern]).Agrees input) : pattern.IsPlain := by
  obtain ⟨⟨r, ls⟩, hruns⟩ : ∃ p, runs ((utf8Chars pattern.bytes).map charItem) = p := ⟨_, rfl⟩
  rw [Pattern.IsPlain, allRuns, hruns]
  intro bad hbad
  by_contra hplain
  by_cases htwo : 2 ≤ bad.anys
  · -- With fewer characters than `?`, all bytes are matched and the characters are too few.
    have hsize : ∀ r, byteSize (narrow r) ≤ 2 * r.anys := fun r => by
      rw [byteSize_narrow]
      omega
    have hbytes : Placed byteSize (fun c => [c]) r ls (filled (fun c => [c]) narrow r ls) :=
      placed_filled fun r => ⟨(byteSize_narrow r).ge, Or.inr (byteSize_narrow r).symm⟩
    have hlengths :=
      ((placed_iff_of_agrees hlength h (fun r c => isChar_of_mem_narrow) hsize hruns).mp hbytes).total_le
        List.length (fun _ _ => List.length_append) Run.anys (fun r t h => h.1)
    rw [weight_filled List.length fun _ _ => List.length_append] at hlengths
    refine absurd hlengths (Nat.not_le_of_lt (total_lt_total (fun r => ?_) hbad ?_))
    · rw [length_narrow]
      omega
    · rw [length_narrow]
      omega
  · -- With a character of two bytes for the single `?`, no byte is left alone between two characters.
    have hsingle : bad = ⟨1, false⟩ := by
      obtain ⟨anys, star⟩ := bad
      simp only [Plain, not_or, not_and, Bool.not_eq_true] at hplain htwo
      have hanys : anys = 1 := by omega
      rw [hanys, hplain.2 hanys]
    have hsize : ∀ r, byteSize (wide r) ≤ 2 * r.anys := fun r => by
      rw [wide, byteSize_replicate, Nat.mul_comm]
      rfl
    have hchars : Placed List.length (fun c => [c]) r ls (filled (fun c => [c]) wide r ls) :=
      placed_filled fun r => ⟨by simp [wide], Or.inr (by simp [wide])⟩
    have hsingles :=
      ((placed_iff_of_agrees hlength h (fun r c => isChar_of_mem_wide) hsize hruns).mpr hchars).total_le
        singles singles_append (fun r => if r = ⟨1, false⟩ then 1 else 0) (fun r t hr => by
          split
          · next hr' =>
            subst hr'
            exact singles_pos (hr.2.resolve_left Bool.false_ne_true).symm
          · exact Nat.zero_le _)
    rw [weight_filled singles singles_append] at hsingles
    have hwide (r : Run) : singles (wide r) = 0 := by simp [singles, wide, accent]
    refine absurd hsingles (Nat.not_le_of_lt (total_lt_total (fun r => ?_) hbad ?_))
    · rw [hwide]
      exact Nat.zero_le _
    · rw [hwide, if_pos hsingle]
      exact Nat.one_pos

/-- Where there is a character of several bytes, as many `?` as characters tell bytes from characters. -/
theorem ascii_of_agrees {input : Str} (h : ∀ set : PatternSet, set.Agrees input) :
    ∀ b ∈ input.bytes, b < 0x80 := by
  have hchars := isChar_of_mem_utf8Chars input.valid
  have hsize : byteSize (utf8Chars input.bytes) = input.bytes.length := by
    rw [byteSize, SigV4.flatten_utf8Chars]
  have hle := length_le_byteSize hchars
  by_cases hne : (utf8Chars input.bytes).length = 0
  · rw [List.length_eq_zero_iff] at hne
    have hnil := SigV4.flatten_utf8Chars input.bytes
    rw [hne] at hnil
    simp [← hnil]
  · let marks : Bytes := List.replicate (utf8Chars input.bytes).length 63
    have hmarks : ∀ b ∈ marks, b < 0x80 := fun b hb => by
      rw [List.eq_of_mem_replicate hb]
      decide
    have hlength : marks.length < 2 ^ 63 := by
      have hinput := input.length_lt
      simp only [marks, List.length_replicate]
      omega
    let pattern : Pattern := ⟨⟨⟨marks, hlength⟩, Bytes.validUtf8_of_ascii _ hmarks⟩, by simpa [marks] using hne⟩
    have hbytes : Matches (marks.map item) input.bytes ↔
        input.bytes.length = (utf8Chars input.bytes).length := by
      rw [List.map_replicate]
      exact matches_replicate_any
    have hcharacters : CharMatches marks input.bytes := by
      have hsplit : utf8Chars marks = List.replicate (utf8Chars input.bytes).length [63] := by
        have hall : ∀ c ∈ List.replicate (utf8Chars input.bytes).length [63], IsChar c := by
          intro c hc
          rw [List.eq_of_mem_replicate hc]
          exact Utf8.isChar_one (by decide)
        simpa [marks] using (utf8Chars_of_chars hall).2
      rw [CharMatches, hsplit, List.map_replicate]
      exact matches_replicate_any.mpr rfl
    have hagrees := PatternSet.single_agrees_iff.mp (h ⟨[pattern]⟩)
    rw [← SigV4.flatten_utf8Chars input.bytes, ← byteSize_eq_length_iff hchars, hsize]
    exact hbytes.mp (hagrees.mpr hcharacters)

/-- The text of one byte. -/
def Str.single (b : UInt8) (h : b < 0x80) : Str where
  bytes := [b]
  length_lt := by simp
  valid := (Bytes.validUtf8_cons_ascii b [] h).trans rfl

/-- `é`, a text of one character. -/
def accentText : Str where
  bytes := accent
  length_lt := by decide
  valid := by decide

/-- `?` -/
def anyPattern : Pattern := ⟨Str.single 63 (by decide), by decide⟩

/-- `*` -/
def starPattern : Pattern := ⟨Str.single 42 (by decide), by decide⟩

end Differences

end S3s.Policy
