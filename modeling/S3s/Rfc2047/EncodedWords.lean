import S3s.Rfc2047.RoundTrip

/-! # The words of an encoded text

An encoded text is words with spaces between them. Each word is decoded on its own, since no character is
cut in two, and all of them together are decoded to the text. A word is longer than the standard allows when
the text is one word of 46 or 47 bytes.
-/
namespace S3s.Rfc2047

/-- The words of a text, between its spaces. -/
def wordsOf (w : Bytes) : List Bytes := w.splitOn 32

theorem wordsOf_joinedWords {chunks : List Bytes} (h : chunks ≠ []) :
    wordsOf (joinedWords chunks) = chunks.map encodedWord := by
  apply List.splitOn_intercalate
  · intro word hword hspace
    obtain ⟨c, -, rfl⟩ := List.mem_map.mp hword
    have hvisible := isVisible_encodedWord hspace
    cases hvisible
  · simpa using h

section RoundTrip

/-- A word on its own is decoded to its chunk. -/
theorem decode_encodedWord {chunk : Bytes} (h : Bytes.validUtf8 chunk = true)
    (hlength : (encodedWord chunk).length ≤ maxInputLen) (hne : chunk ≠ []) :
    decode (encodedWord chunk) = .ok chunk := by
  have hjoined : decode (joinedWords [chunk]) = .ok [chunk].flatten := by
    apply decode_joinedWords
    · simp
    · simp [h, hne]
    · simpa using h
    · rwa [joinedWords_singleton]
  rwa [joinedWords_singleton, List.flatten_singleton] at hjoined

theorem length_encodedWord_le {chunks : List Bytes} {c : Bytes} (hc : c ∈ chunks) :
    (encodedWord c).length ≤ (joinedWords chunks).length := by
  induction chunks with
  | nil => cases hc
  | cons d chunks ih =>
    cases chunks with
    | nil =>
      rw [joinedWords_singleton, List.mem_singleton.mp hc]
    | cons e chunks =>
      rw [joinedWords_cons_cons, List.length_append, List.length_cons]
      rcases List.mem_cons.mp hc with rfl | hc
      · omega
      · have hrest := ih hc
        omega

/-- A text is never found without a boundary to cut it at. -/
theorem encode_ne_invalidUtf8Boundary {s : Bytes} (h : Bytes.validUtf8 s = true) :
    encode s ≠ .error .invalidUtf8Boundary := by
  by_cases hlength : s.length ≤ maxInputLen
  · obtain ⟨w, hw⟩ := encode_isOk h hlength
    rw [hw]
    simp
  · rw [encode, if_pos (Nat.not_le.mp hlength)]
    simp

end RoundTrip

section Lengths

/-- Three bytes become four characters, and so does what is left of them. -/
theorem length_encode (s : Bytes) : (Base64.encode s).length = (s.length + 2) / 3 * 4 := by
  fun_induction Base64.encode s with
  | case1 => rfl
  | case2 a => simp
  | case3 a b => simp
  | case4 a b c s ih =>
    simp only [List.length_cons, ih]
    omega

theorem length_encodedWord (chunk : Bytes) :
    (encodedWord chunk).length = (chunk.length + 2) / 3 * 4 + 12 := by
  have hstart : wordStart.length = 10 := rfl
  have hend : wordEnd.length = 2 := rfl
  simp only [encodedWord, List.length_append, length_encode, hstart, hend]
  omega

/-- The words of a text are as short as the standard asks but for a single word of 46 or 47 bytes. -/
theorem words_short_iff {s : Bytes} (hvalid : Bytes.validUtf8 s = true) (hlength : s.length ≤ maxInputLen)
    (hsafe : isAsciiHeaderSafe s = false) :
    ∃ w, encode s = .ok w ∧ ((∀ word ∈ wordsOf w, word.length ≤ maxEncodedWordLen) ↔
      s.length ≠ 46 ∧ s.length ≠ 47) := by
  obtain ⟨chunks, hne, -, -, hencode, hchunks⟩ := encode_words hvalid hlength hsafe
  refine ⟨joinedWords chunks, hencode, ?_⟩
  have hmax : maxEncodedWordLen = 75 := rfl
  have hbytes : maxInputBytes = 45 := rfl
  simp only [wordsOf_joinedWords hne, List.forall_mem_map, length_encodedWord, hmax]
  rcases hchunks with ⟨hshort, rfl⟩ | ⟨hlong, hchunks⟩
  · simp only [List.mem_singleton, forall_eq]
    omega
  · refine iff_of_true ?_ (by omega)
    intro c hc
    have hc := hchunks c hc
    omega

/-- Twenty-three characters of two bytes. -/
def accents : Bytes := (List.replicate 23 [0xC3, 0xA9]).flatten

/-- One word, which is one character too long. -/
theorem word_too_long : Bytes.validUtf8 accents = true ∧ isAsciiHeaderSafe accents = false ∧
    accents.length = 46 ∧ encode accents = .ok (encodedWord accents) ∧
    wordsOf (encodedWord accents) = [encodedWord accents] ∧
    maxEncodedWordLen < (encodedWord accents).length := by
  decide +kernel

theorem words_short_iff_accents : ∃ w, encode accents = .ok w ∧
    ((∀ word ∈ wordsOf w, word.length ≤ maxEncodedWordLen) ↔ accents.length ≠ 46 ∧ accents.length ≠ 47) :=
  words_short_iff (by decide +kernel) (by decide +kernel) (by decide +kernel)

end Lengths

end S3s.Rfc2047
