import S3s.Library.Words
import S3s.Rfc2047.Codec
import S3s.SigV4.Decodability
import Mathlib.Data.List.Flatten

/-! # Encoded words, read back

What `encode` writes as encoded words is decoded to the text again. What it leaves
alone is decoded to itself unless it has the marks of an encoded word at its ends:
then what is decoded is shorter.
-/
namespace S3s.Rfc2047

open SigV4 (utf8Chars isWhitespaceChar trimChars)

section Plain

/-- A visible character of ASCII: neither white space nor part of a longer character. -/
def isVisible (b : UInt8) : Bool := 0x20 < b && b < 0x7F

theorem isVisible_spec {b : UInt8} (h : isVisible b = true) :
    Bytes.isContinuation b = false ∧ isWhitespaceChar [b] = false := by
  refine forall_byte (p := fun b => isVisible b = true →
    Bytes.isContinuation b = false ∧ isWhitespaceChar [b] = false) ?_ b h
  decide +kernel

/-- The characters of a text without continuation bytes. -/
theorem utf8Chars_of_single {s : Bytes} (h : ∀ b ∈ s, Bytes.isContinuation b = false) :
    utf8Chars s = s.map fun b => [b] := by
  induction s with
  | nil => rfl
  | cons b s ih =>
    have hrest := ih fun c hc => h c (List.mem_cons_of_mem _ hc)
    rw [utf8Chars, hrest]
    cases s with
    | nil => rfl
    | cons c s => simp [h c (by simp)]

theorem flatten_map_single (s : Bytes) : (s.map fun b => [b]).flatten = s := by
  induction s with
  | nil => rfl
  | cons b s ih => simpa using ih

/-- A text that begins and ends with something else than white space is trimmed already. -/
theorem trimChars_of_ends {chars : List Bytes}
    (hhead : ∀ c ∈ chars.head?, isWhitespaceChar c = false)
    (hlast : ∀ c ∈ chars.getLast?, isWhitespaceChar c = false) : trimChars chars = chars := by
  cases chars with
  | nil => rfl
  | cons c chars =>
    have hc : isWhitespaceChar c = false := hhead c rfl
    have hne : c :: chars ≠ [] := by simp
    rw [trimChars, List.dropWhile_cons_of_neg (by simp [hc])]
    exact List.rdropWhile_eq_self_iff.mpr fun hne => by simp [hlast _ (List.getLast_mem_getLast? hne)]

end Plain

section Words

theorem isVisible_symbol {n : Nat} (h : n < 64) :
    isVisible (Base64.symbol n) = true ∧ Base64.symbol n ≠ 63 := by
  have hall : ∀ n : Fin 64, isVisible (Base64.symbol n) = true ∧ Base64.symbol n ≠ 63 := by decide
  exact hall ⟨n, h⟩

theorem mem_encode_spec {s : Bytes} {b : UInt8} (h : b ∈ Base64.encode s) :
    isVisible b = true ∧ b ≠ 63 := by
  rcases Base64.mem_encode h with rfl | ⟨n, hn, rfl⟩
  · decide
  · exact isVisible_symbol hn

theorem isVisible_encodedWord {chunk : Bytes} {b : UInt8} (h : b ∈ encodedWord chunk) :
    isVisible b = true := by
  have hstart : wordStart.all isVisible = true := by decide
  have hend : wordEnd.all isVisible = true := by decide
  simp only [encodedWord, List.mem_append] at h
  rcases h with (h | h) | h
  · exact List.all_eq_true.mp hstart b h
  · exact (mem_encode_spec h).1
  · exact List.all_eq_true.mp hend b h

theorem splitInner_encodedWord (chunk : Bytes) :
    splitInner (ascii "UTF-8?B?" ++ Base64.encode chunk) =
      some (ascii "UTF-8", ascii "B", Base64.encode chunk) := by
  have hfirst : Text.splitOnce 63 (ascii "UTF-8?B?" ++ Base64.encode chunk) =
      some (ascii "UTF-8", ascii "B?" ++ Base64.encode chunk) :=
    Text.splitOnce_append (s := ascii "UTF-8") _ (by decide)
  have hsecond : Text.splitOnce 63 (ascii "B?" ++ Base64.encode chunk) =
      some (ascii "B", Base64.encode chunk) := Text.splitOnce_append (s := ascii "B") _ (by decide)
  simp only [splitInner, hfirst, hsecond, Option.bind_eq_bind, Option.bind_some]

theorem stripMarks_of_marks (inner : Bytes) :
    stripMarks (ascii "=?" ++ inner ++ ascii "?=") = some inner := by
  have hstart : (ascii "=?").isPrefixOf (ascii "=?" ++ inner ++ ascii "?=") = true := by
    rw [List.isPrefixOf_iff_prefix, List.append_assoc]
    exact List.prefix_append _ _
  have hdrop : (ascii "=?" ++ inner ++ ascii "?=").drop 2 = inner ++ ascii "?=" := by
    rw [List.append_assoc]
    rfl
  have hend : (ascii "?=").isSuffixOf (inner ++ ascii "?=") = true := by
    rw [List.isSuffixOf_iff_suffix]
    exact List.suffix_append _ _
  have hlength : (inner ++ ascii "?=").length - (ascii "?=").length = inner.length := by
    rw [List.length_append, Nat.add_sub_cancel]
  rw [stripMarks, if_pos hstart, hdrop, Text.stripSuffix, if_pos hend, hlength, List.take_left]

theorem encodedWord_eq (chunk : Bytes) : encodedWord chunk =
    ascii "=?" ++ (ascii "UTF-8?B?" ++ Base64.encode chunk) ++ ascii "?=" := by
  rw [← List.append_assoc]
  rfl

theorem hasMarks_of_marks (middle : Bytes) :
    hasMarks (ascii "=?" ++ middle ++ ascii "?=") = true := by
  have hstart : (ascii "=?").isPrefixOf (ascii "=?" ++ middle ++ ascii "?=") = true := by
    rw [List.isPrefixOf_iff_prefix, List.append_assoc]
    exact List.prefix_append _ _
  have hend : (ascii "?=").isSuffixOf (ascii "=?" ++ middle ++ ascii "?=") = true := by
    rw [List.isSuffixOf_iff_suffix]
    exact List.suffix_append _ _
  rw [hasMarks, hstart, hend]
  rfl

theorem hasMarks_encodedWord (chunk : Bytes) : hasMarks (encodedWord chunk) = true := by
  rw [encodedWord_eq]
  exact hasMarks_of_marks _

theorem encodedWord_ne_nil (chunk : Bytes) : encodedWord chunk ≠ [] := by
  rw [encodedWord_eq]
  exact nofun

theorem utf8Chars_encodedWord (chunk : Bytes) :
    utf8Chars (encodedWord chunk) = (encodedWord chunk).map fun b => [b] :=
  utf8Chars_of_single fun _ hb => (isVisible_spec (isVisible_encodedWord hb)).1

theorem trim_encodedWord (chunk : Bytes) : trim (encodedWord chunk) = encodedWord chunk := by
  have hchars : ∀ c ∈ (encodedWord chunk).map fun b => [b], isWhitespaceChar c = false := by
    intro c hc
    obtain ⟨b, hb, rfl⟩ := List.mem_map.mp hc
    exact (isVisible_spec (isVisible_encodedWord hb)).2
  rw [trim, utf8Chars_encodedWord, trimChars_of_ends (fun c hc => hchars c (List.mem_of_mem_head? hc))
    fun c hc => hchars c (List.mem_of_mem_getLast? hc), flatten_map_single]

/-- An encoded word is decoded to its text. -/
theorem decodeSingleWord_encodedWord {chunk : Bytes} (h : Bytes.validUtf8 chunk = true) :
    decodeSingleWord (encodedWord chunk) = .ok chunk := by
  have hstrip := stripMarks_of_marks (ascii "UTF-8?B?" ++ Base64.encode chunk)
  rw [← encodedWord_eq] at hstrip
  have htext : decodeText (ascii "B") (Base64.encode chunk) = .ok chunk := by
    rw [decodeText, if_pos (.inl rfl), Base64.decode_encode]
    rfl
  have hutf8 : fromUtf8 chunk = .ok chunk := by
    rw [fromUtf8, Bytes.fromUtf8, if_pos h]
    rfl
  simp only [decodeSingleWord, trim_encodedWord, hasMarks_encodedWord, hstrip,
    splitInner_encodedWord, Option.elim_some, bind, Except.bind, htext, hutf8, Bool.not_true,
    Bool.false_eq_true, if_false]

end Words

section Joined

/-- The words of some chunks, as they are written. -/
def joinedWords (chunks : List Bytes) : Bytes := [32].intercalate (chunks.map encodedWord)

theorem joinedWords_singleton (c : Bytes) : joinedWords [c] = encodedWord c := by
  simp [joinedWords]

theorem joinedWords_cons_cons (c d : Bytes) (chunks : List Bytes) :
    joinedWords (c :: d :: chunks) = encodedWord c ++ 32 :: joinedWords (d :: chunks) := by
  simp [joinedWords, List.intercalate_cons_cons]

theorem mem_joinedWords {chunks : List Bytes} {b : UInt8} (h : b ∈ joinedWords chunks) :
    b = 32 ∨ isVisible b = true := by
  induction chunks with
  | nil => cases h
  | cons c chunks ih =>
    cases chunks with
    | nil =>
      rw [joinedWords_singleton] at h
      exact .inr (isVisible_encodedWord h)
    | cons d chunks =>
      rw [joinedWords_cons_cons, List.mem_append, List.mem_cons] at h
      rcases h with h | rfl | h
      · exact .inr (isVisible_encodedWord h)
      · exact .inl rfl
      · exact ih h

theorem utf8Chars_joinedWords (chunks : List Bytes) :
    utf8Chars (joinedWords chunks) = (joinedWords chunks).map fun b => [b] := by
  apply utf8Chars_of_single
  intro b hb
  rcases mem_joinedWords hb with rfl | hb
  · rfl
  · exact (isVisible_spec hb).1

/-- The words are found again between the spaces. -/
theorem splitWhitespace_joinedWords {chunks : List Bytes} (h : chunks ≠ []) :
    splitWhitespace (joinedWords chunks) = chunks.map encodedWord := by
  have hsplit : ((joinedWords chunks).map fun b => [b]).splitOnP isWhitespaceChar =
      chunks.map fun c => (encodedWord c).map fun b => [b] := by
    have hword : ∀ c, ∀ x ∈ (encodedWord c).map fun b => [b], isWhitespaceChar x = false := by
      intro c x hx
      obtain ⟨b, hb, rfl⟩ := List.mem_map.mp hx
      exact (isVisible_spec (isVisible_encodedWord hb)).2
    induction chunks with
    | nil => exact (h rfl).elim
    | cons c chunks ih =>
      cases chunks with
      | nil =>
        rw [joinedWords_singleton, List.splitOnP_eq_singleton (hword c)]
        rfl
      | cons d chunks =>
        rw [joinedWords_cons_cons, List.map_append, List.map_cons,
          List.splitOnP_append_cons_of_forall_mem (hword c) _ rfl, ih (by simp)]
        rfl
  have hfilter : (chunks.map fun c => (encodedWord c).map fun b => [b]).filter
      (fun word => !word.isEmpty) = chunks.map fun c => (encodedWord c).map fun b => [b] := by
    apply List.filter_eq_self.mpr
    intro word hword
    obtain ⟨c, -, rfl⟩ := List.mem_map.mp hword
    simp [encodedWord_ne_nil]
  rw [splitWhitespace, utf8Chars_joinedWords, hsplit, hfilter, List.map_map]
  exact List.map_congr_left fun c _ => flatten_map_single _

theorem joinedWords_ends {chunks : List Bytes} (h : chunks ≠ []) :
    ∃ middle, joinedWords chunks = ascii "=?" ++ middle ++ ascii "?=" := by
  induction chunks with
  | nil => exact (h rfl).elim
  | cons c chunks ih =>
    cases chunks with
    | nil =>
      refine ⟨ascii "UTF-8?B?" ++ Base64.encode c, ?_⟩
      rw [joinedWords_singleton, encodedWord_eq]
    | cons d chunks =>
      obtain ⟨middle, hmiddle⟩ := ih (by simp)
      refine ⟨ascii "UTF-8?B?" ++ Base64.encode c ++ ascii "?=" ++ 32 :: (ascii "=?" ++ middle), ?_⟩
      rw [joinedWords_cons_cons, hmiddle, encodedWord_eq]
      simp

theorem trim_joinedWords {chunks : List Bytes} (h : chunks ≠ []) :
    trim (joinedWords chunks) = joinedWords chunks := by
  obtain ⟨middle, hmiddle⟩ := joinedWords_ends h
  rw [trim, utf8Chars_joinedWords, trimChars_of_ends, flatten_map_single]
  · rw [hmiddle]
    rintro c ⟨⟩
    decide
  · rw [hmiddle]
    intro c hc
    rw [List.map_append, List.getLast?_append] at hc
    obtain rfl : [61] = c := Option.some.inj hc
    decide

theorem decodeParts_encodedWords {chunks : List Bytes}
    (h : ∀ c ∈ chunks, Bytes.validUtf8 c = true) :
    decodeParts (chunks.map encodedWord) = .ok chunks.flatten := by
  induction chunks with
  | nil => rfl
  | cons c chunks ih =>
    have hword := decodeSingleWord_encodedWord (h c List.mem_cons_self)
    have hrest := ih fun d hd => h d (List.mem_cons_of_mem _ hd)
    have hempty : (encodedWord c).isEmpty = false :=
      List.isEmpty_eq_false_iff.mpr (encodedWord_ne_nil c)
    simp [decodeParts, hempty, hasMarks_encodedWord, hword, hrest, bind, Except.bind]

/-- The words of some chunks are decoded to the chunks, put together. -/
theorem decode_joinedWords {chunks : List Bytes} (hne : chunks ≠ [])
    (h : ∀ c ∈ chunks, c ≠ [] ∧ Bytes.validUtf8 c = true)
    (hall : Bytes.validUtf8 chunks.flatten = true)
    (hlength : (joinedWords chunks).length ≤ maxInputLen) :
    decode (joinedWords chunks) = .ok chunks.flatten := by
  obtain ⟨middle, hmiddle⟩ := joinedWords_ends hne
  have hmarks : hasMarks (joinedWords chunks) = true := by
    rw [hmiddle]
    exact hasMarks_of_marks middle
  have hfilter : (chunks.map encodedWord).filter hasMarks = chunks.map encodedWord := by
    apply List.filter_eq_self.mpr
    intro word hword
    obtain ⟨c, -, rfl⟩ := List.mem_map.mp hword
    exact hasMarks_encodedWord c
  have hutf8 : fromUtf8 chunks.flatten = .ok chunks.flatten := by
    rw [fromUtf8, Bytes.fromUtf8, if_pos hall]
    rfl
  simp only [decode, if_neg (Nat.not_lt.mpr hlength), trim_joinedWords hne, hmarks, Bool.not_true,
    Bool.false_eq_true, if_false, splitWhitespace_joinedWords hne, hfilter, List.length_map]
  cases chunks with
  | nil => exact (hne rfl).elim
  | cons c chunks =>
    cases chunks with
    | nil =>
      rw [if_neg (by simp), joinedWords_singleton, List.flatten_singleton]
      exact decodeSingleWord_encodedWord (h c List.mem_cons_self).2
    | cons d chunks =>
      have hempty : (c :: d :: chunks).flatten.isEmpty = false := by
        simp [(h c List.mem_cons_self).1]
      rw [if_pos (by simp), decodeParts_encodedWords fun c hc => (h c hc).2]
      simp only [bind, Except.bind, hempty, Bool.false_eq_true, if_false, hutf8]

end Joined

section Encoding

theorem isCharBoundary_chunkEnd {s : Bytes} {index : Nat} (h : chunkEnd s index ≠ 0) :
    Utf8.isCharBoundary s (chunkEnd s index) = true := by
  induction index with
  | zero => exact (h rfl).elim
  | succ index ih =>
    rw [chunkEnd] at h ⊢
    split at h
    · next hboundary => rwa [if_pos hboundary]
    · next hboundary =>
      rw [if_neg hboundary]
      exact ih h

theorem chunkEnd_ne_zero {s : Bytes} {index boundary : Nat} (hpos : 0 < boundary)
    (hle : boundary ≤ index) (hboundary : Utf8.isCharBoundary s boundary = true) :
    chunkEnd s index ≠ 0 := by
  induction index with
  | zero => omega
  | succ index ih =>
    rw [chunkEnd]
    split
    · exact Nat.succ_ne_zero _
    · next hno =>
      apply ih
      by_contra hlt
      obtain rfl : boundary = index + 1 := by omega
      exact hno hboundary

theorem joinedWords_concat (done : List Bytes) (c : Bytes) :
    joinedWords (done ++ [c]) =
      (if (joinedWords done).isEmpty then joinedWords done else joinedWords done ++ [32]) ++
        encodedWord c := by
  induction done with
  | nil => simp [joinedWords]
  | cons d done ih =>
    have hne : (joinedWords (d :: done)).isEmpty = false := by
      obtain ⟨middle, hmiddle⟩ := joinedWords_ends (List.cons_ne_nil d done)
      rw [hmiddle]
      rfl
    rw [hne]
    cases done with
    | nil => simp [joinedWords_singleton, joinedWords_cons_cons]
    | cons e done =>
      have hne' : (joinedWords (e :: done)).isEmpty = false := by
        obtain ⟨middle, hmiddle⟩ := joinedWords_ends (List.cons_ne_nil e done)
        rw [hmiddle]
        rfl
      rw [hne'] at ih
      simp only [List.cons_append, joinedWords_cons_cons, Bool.false_eq_true, if_false] at ih ⊢
      rw [ih]
      simp

/-- A text is cut into chunks at its boundaries, and each becomes a word. -/
theorem encodeLoop_spec (done : List Bytes) {s : Bytes} (h : Bytes.validUtf8 s = true) :
    ∃ chunks : List Bytes, chunks.flatten = s ∧
      (∀ c ∈ chunks, c ≠ [] ∧ Bytes.validUtf8 c = true) ∧ (∀ c ∈ chunks, c.length ≤ maxInputBytes) ∧
        encodeLoop (joinedWords done) s = .ok (joinedWords (done ++ chunks)) := by
  induction hn : s.length using Nat.strongRecOn generalizing s done with
  | ind n ih =>
    by_cases hs : s = []
    · subst hs
      refine ⟨[], rfl, by simp, by simp, ?_⟩
      rw [encodeLoop, if_pos rfl, List.append_nil]
    · obtain ⟨boundary, hpos, hfour, hle, hboundary⟩ := Utf8.exists_boundary h hs
      have hmax : maxInputBytes = 45 := rfl
      have hend : chunkEnd s (min maxInputBytes s.length) ≠ 0 :=
        chunkEnd_ne_zero hpos (by rw [hmax]; omega) hboundary
      have hcut := Utf8.validUtf8_take_drop h (isCharBoundary_chunkEnd hend)
      have hshort : chunkEnd s (min maxInputBytes s.length) ≤ s.length :=
        (chunkEnd_le s _).trans (Nat.min_le_right _ _)
      have hbytes : chunkEnd s (min maxInputBytes s.length) ≤ maxInputBytes :=
        (chunkEnd_le s _).trans (Nat.min_le_left _ _)
      rw [encodeLoop, if_neg hs]
      generalize chunkEnd s (min maxInputBytes s.length) = «end» at hend hcut hshort hbytes ⊢
      have hless : (s.drop «end»).length < n := by
        rw [List.length_drop]
        omega
      obtain ⟨chunks, hflatten, hchunks, hlengths, hloop⟩ :=
        ih _ hless (done ++ [s.take «end»]) hcut.2 rfl
      refine ⟨s.take «end» :: chunks, ?_, ?_, ?_, ?_⟩
      · rw [List.flatten_cons, hflatten, List.take_append_drop]
      · have hfirst : s.take «end» ≠ [] := by
          intro hnil
          have hlength := congrArg List.length hnil
          rw [List.length_take, List.length_nil] at hlength
          omega
        exact List.forall_mem_cons.mpr ⟨⟨hfirst, hcut.1⟩, hchunks⟩
      · exact List.forall_mem_cons.mpr ⟨(List.length_take_le _ _).trans hbytes, hlengths⟩
      · dsimp only
        rw [dif_neg hend, ← joinedWords_concat, hloop, List.append_assoc]
        rfl

/-- The words of a text that is not safe as it is: one for a short text, several for a long one. -/
theorem encode_words {s : Bytes} (h : Bytes.validUtf8 s = true) (hlength : s.length ≤ maxInputLen)
    (hsafe : isAsciiHeaderSafe s = false) :
    ∃ chunks : List Bytes, chunks ≠ [] ∧ chunks.flatten = s ∧
      (∀ c ∈ chunks, c ≠ [] ∧ Bytes.validUtf8 c = true) ∧ encode s = .ok (joinedWords chunks) ∧
      (s.length ≤ 47 ∧ chunks = [s] ∨ 47 < s.length ∧ ∀ c ∈ chunks, c.length ≤ maxInputBytes) := by
  have hs : s ≠ [] := by
    rintro rfl
    cases hsafe
  have hoverhead : wordStart.length + wordEnd.length = 12 := rfl
  have hmax : maxEncodedWordLen = 75 := rfl
  rw [encode, if_neg (Nat.not_lt.mpr hlength), hsafe]
  dsimp only
  split
  · cases ‹false = true›
  · split
    · next hshort =>
      refine ⟨[s], by simp, by simp, by simp [hs, h], ?_, Or.inl ⟨by omega, rfl⟩⟩
      rw [joinedWords_singleton]
    · next hlong =>
      obtain ⟨chunks, hflatten, hchunks, hlengths, hloop⟩ := encodeLoop_spec [] h
      refine ⟨chunks, ?_, hflatten, hchunks, hloop, Or.inr ⟨by omega, hlengths⟩⟩
      rintro rfl
      exact hs hflatten.symm

/-- What `encode` writes: a text that is safe as it is, any other one as words. -/
theorem encode_spec {s : Bytes} (h : Bytes.validUtf8 s = true) (hlength : s.length ≤ maxInputLen)
    (hsafe : isAsciiHeaderSafe s = false) :
    ∃ chunks : List Bytes, chunks ≠ [] ∧ chunks.flatten = s ∧
      (∀ c ∈ chunks, c ≠ [] ∧ Bytes.validUtf8 c = true) ∧ encode s = .ok (joinedWords chunks) := by
  obtain ⟨chunks, hne, hflatten, hchunks, hencode, -⟩ := encode_words h hlength hsafe
  exact ⟨chunks, hne, hflatten, hchunks, hencode⟩

theorem length_of_encode {s w : Bytes} (h : encode s = .ok w) : s.length ≤ maxInputLen := by
  by_contra hlong
  rw [encode, if_pos (Nat.not_le.mp hlong)] at h
  cases h

theorem isAsciiHeaderSafe_spec {s : Bytes} (h : isAsciiHeaderSafe s = true) {b : UInt8} (hb : b ∈ s) :
    0x20 ≤ b ∧ b < 0x7F := by
  have hbyte := List.all_eq_true.mp h b hb
  revert hbyte
  refine forall_byte (p := fun b => (b < 0x80 && 0x20 ≤ b && b != 0x7F) = true →
    0x20 ≤ b ∧ b < 0x7F) ?_ b
  decide +kernel

/-- What is written can stand in a header. -/
theorem mem_of_encode {s w : Bytes} (hvalid : Bytes.validUtf8 s = true) (h : encode s = .ok w)
    {b : UInt8} (hb : b ∈ w) : 0x20 ≤ b ∧ b < 0x7F := by
  have hlength := length_of_encode h
  cases hsafe : isAsciiHeaderSafe s with
  | true =>
    rw [encode, if_neg (Nat.not_lt.mpr hlength), if_pos hsafe] at h
    cases h
    exact isAsciiHeaderSafe_spec hsafe hb
  | false =>
    obtain ⟨chunks, -, -, -, hspec⟩ := encode_spec hvalid hlength hsafe
    obtain rfl : joinedWords chunks = w := Except.ok.inj (hspec.symm.trans h)
    rcases mem_joinedWords hb with rfl | hb
    · decide
    · simp only [isVisible, Bool.and_eq_true, decide_eq_true_eq] at hb
      exact ⟨UInt8.le_of_lt hb.1, hb.2⟩

end Encoding

section Shrinking

theorem trim_length_le (s : Bytes) : (trim s).length ≤ s.length := by
  have hsub : (trimChars (utf8Chars s)).Sublist (utf8Chars s) :=
    (List.rdropWhile_prefix _ _).sublist.trans (List.dropWhile_sublist _)
  have hlength := hsub.flatten.length_le
  rwa [SigV4.flatten_utf8Chars] at hlength

theorem splitWhitespace_length_le (s : Bytes) : (splitWhitespace s).flatten.length ≤ s.length := by
  have hparts : (splitWhitespace s).flatten =
      ((utf8Chars s).filter fun c => !isWhitespaceChar c).flatten := by
    rw [← Words.flatten_words, List.flatten_flatten]
    rfl
  rw [hparts]
  have hsub : ((utf8Chars s).filter fun c => !isWhitespaceChar c).Sublist (utf8Chars s) :=
    List.filter_sublist
  have hlength := hsub.flatten.length_le
  rwa [SigV4.flatten_utf8Chars] at hlength

theorem utf8Chars_length_le (s : Bytes) : (utf8Chars s).length ≤ s.length := by
  induction s with
  | nil => exact le_rfl
  | cons b s ih =>
    rw [utf8Chars]
    split
    · next c char chars hchars =>
      rw [hchars] at ih
      split <;> simp only [List.length_cons] at ih ⊢ <;> omega
    · simp only [List.length_cons]
      omega

theorem except_bind_eq_ok {ε α β : Type} {x : Except ε α} {f : α → Except ε β} {b : β}
    (h : (x >>= f) = .ok b) : ∃ a, x = .ok a ∧ f a = .ok b := by
  cases x with
  | error e => cases h
  | ok a => exact ⟨a, rfl, h⟩

theorem elim_error_eq_ok {ε α : Type} {x : Option α} {e : ε} {a : α}
    (h : x.elim (.error e) Except.ok = .ok a) : x = some a := by
  cases x with
  | none => cases h
  | some b =>
    cases h
    rfl

theorem decodeQuotedPrintable_length_le {chars : List Bytes} {t : Bytes}
    (h : decodeQuotedPrintable chars = .ok t) : t.length ≤ chars.length := by
  have hstep : ∀ {chars : List Bytes} {c : UInt8} {t : Bytes},
      (∀ t, decodeQuotedPrintable chars = .ok t → t.length ≤ chars.length) →
        (decodeQuotedPrintable chars).map (c :: ·) = .ok t → t.length ≤ chars.length + 1 := by
    intro chars c t hrest h
    cases hdecode : decodeQuotedPrintable chars with
    | error e =>
      rw [hdecode] at h
      cases h
    | ok u =>
      rw [hdecode] at h
      cases h
      exact Nat.succ_le_succ (hrest u hdecode)
  fun_induction decodeQuotedPrintable chars generalizing t with
  | case1 => cases h; exact le_rfl
  | case2 h₁ h₂ chars ih =>
    obtain ⟨high, -, h⟩ := except_bind_eq_ok h
    obtain ⟨low, -, h⟩ := except_bind_eq_ok h
    obtain ⟨result, hresult, h⟩ := except_bind_eq_ok h
    cases h
    have hrest := ih hresult
    simp only [List.length_cons]
    omega
  | case3 => cases h
  | case4 chars ih => exact hstep (fun t => ih) h
  | case5 c chars hc hne hascii hlt ih => exact hstep (fun t => ih) h
  | case6 => cases h
  | case7 => cases h

theorem decodeText_length_le {encoding encodedText t : Bytes}
    (h : decodeText encoding encodedText = .ok t) : t.length ≤ encodedText.length := by
  unfold decodeText at h
  split_ifs at h
  · cases hdecode : Base64.decode encodedText with
    | none =>
      rw [hdecode] at h
      cases h
    | some u =>
      rw [hdecode] at h
      cases h
      exact Base64.decode_length_le hdecode
  · exact (decodeQuotedPrintable_length_le h).trans (utf8Chars_length_le encodedText)

theorem fromUtf8_eq_ok {s t : Bytes} (h : fromUtf8 s = .ok t) : t = s := by
  rw [fromUtf8, Bytes.fromUtf8] at h
  split at h
  · cases h
    rfl
  · cases h

theorem stripMarks_length {s inner : Bytes} (h : stripMarks s = some inner) :
    inner.length + 4 ≤ s.length := by
  unfold stripMarks Text.stripSuffix at h
  split_ifs at h with hstart hend
  have hlength := (List.isSuffixOf_iff_suffix.mp hend).length_le
  have htwo : (ascii "?=").length = 2 := rfl
  cases h
  rw [List.length_drop] at hlength
  rw [List.length_take, List.length_drop]
  omega

theorem splitInner_length {inner charset encoding encodedText : Bytes}
    (h : splitInner inner = some (charset, encoding, encodedText)) :
    encodedText.length ≤ inner.length := by
  simp only [splitInner, Option.bind_eq_bind, Option.bind_eq_some_iff] at h
  obtain ⟨⟨charset', rest⟩, hfirst, ⟨encoding', text⟩, hsecond, h⟩ := h
  cases h
  dsimp only at hsecond ⊢
  rw [(Text.splitOnce_eq_some hfirst).1, (Text.splitOnce_eq_some hsecond).1]
  simp only [List.length_append, List.length_cons]
  omega

/-- A word is longer than its text, by its marks at least. -/
theorem decodeSingleWord_length {s t : Bytes} (h : decodeSingleWord s = .ok t) :
    t.length + 4 ≤ s.length := by
  rw [decodeSingleWord] at h
  dsimp only at h
  split at h
  · cases h
  · obtain ⟨inner, hinner, h⟩ := except_bind_eq_ok h
    obtain ⟨⟨charset, encoding, encodedText⟩, hsplit, h⟩ := except_bind_eq_ok h
    obtain ⟨decoded, hdecoded, h⟩ := except_bind_eq_ok h
    have hutf8 : t = decoded := fromUtf8_eq_ok h
    subst hutf8
    have h₁ : t.length ≤ encodedText.length := decodeText_length_le hdecoded
    have h₂ := splitInner_length (elim_error_eq_ok hsplit)
    have h₃ := stripMarks_length (elim_error_eq_ok hinner)
    have h₄ := trim_length_le s
    omega

theorem decodeParts_length {parts : List Bytes} {t : Bytes} (h : decodeParts parts = .ok t) :
    t.length + 4 * (parts.filter hasMarks).length ≤ parts.flatten.length := by
  induction parts generalizing t with
  | nil =>
    cases h
    exact le_rfl
  | cons part parts ih =>
    rw [decodeParts] at h
    split at h
    · next hskip =>
      have hmarks : hasMarks part = false := by
        rcases Bool.or_eq_true_iff.mp hskip with hempty | hmarks
        · rw [List.isEmpty_iff.mp hempty]
          rfl
        · simpa using hmarks
      have hrest := ih h
      rw [List.filter_cons, hmarks, List.flatten_cons, List.length_append]
      simp only [Bool.false_eq_true, if_false]
      omega
    · next hskip =>
      have hmarks : hasMarks part = true := by
        simpa using (not_or.mp (mt Bool.or_eq_true_iff.mpr hskip)).2
      obtain ⟨decoded, hdecoded, h⟩ := except_bind_eq_ok h
      obtain ⟨result, hresult, h⟩ := except_bind_eq_ok h
      cases h
      have hrest := ih hresult
      have hfirst := decodeSingleWord_length hdecoded
      rw [List.filter_cons, hmarks, List.flatten_cons]
      simp only [if_true, List.length_append, List.length_cons]
      omega

/-- A text with the marks of an encoded word at its ends is not decoded to itself. -/
theorem decode_ne_self {s : Bytes} (htrim : trim s = s) (hmarks : hasMarks s = true) :
    decode s ≠ .ok s := by
  intro h
  simp only [decode, htrim, hmarks, Bool.not_true, Bool.false_eq_true, if_false] at h
  split at h
  · cases h
  · split at h
    · next hmany =>
      obtain ⟨result, hresult, h⟩ := except_bind_eq_ok h
      have hlength := decodeParts_length hresult
      have hparts := splitWhitespace_length_le s
      have hresult' : result = s := by
        split at h
        · cases h
        · exact (fromUtf8_eq_ok h).symm
      rw [hresult'] at hlength
      omega
    · have hlength := decodeSingleWord_length h
      omega

end Shrinking

/-- What is encoded is decoded to the text, unless the text is safe as it is and has the marks. -/
theorem decode_encode_iff {s w : Bytes} (hvalid : Bytes.validUtf8 s = true) (htrim : trim s = s)
    (hencode : encode s = .ok w) (hlength : w.length ≤ maxInputLen) :
    decode w = .ok s ↔ ¬(isAsciiHeaderSafe s = true ∧ hasMarks s = true) := by
  have hshort := length_of_encode hencode
  cases hsafe : isAsciiHeaderSafe s with
  | true =>
    rw [encode, if_neg (Nat.not_lt.mpr hshort), hsafe] at hencode
    obtain rfl : s = w := Except.ok.inj hencode
    cases hmarks : hasMarks s with
    | true => simpa using decode_ne_self htrim hmarks
    | false => simp [decode, htrim, hmarks, hshort]
  | false =>
    obtain ⟨chunks, hne, rfl, hchunks, hspec⟩ := encode_spec hvalid hshort hsafe
    obtain rfl : joinedWords chunks = w := Except.ok.inj (hspec.symm.trans hencode)
    simpa using decode_joinedWords hne hchunks hvalid hlength

/-- A text is encoded whenever it is not too large. -/
theorem encode_isOk {s : Bytes} (hvalid : Bytes.validUtf8 s = true) (hlength : s.length ≤ maxInputLen) :
    ∃ w, encode s = .ok w := by
  cases hsafe : isAsciiHeaderSafe s with
  | true =>
    refine ⟨s, ?_⟩
    rw [encode, if_neg (Nat.not_lt.mpr hlength), if_pos hsafe]
  | false =>
    obtain ⟨chunks, -, -, -, hspec⟩ := encode_spec hvalid hlength hsafe
    exact ⟨_, hspec⟩

end S3s.Rfc2047
