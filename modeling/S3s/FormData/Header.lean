import S3s.FormData.Buffer

/-! # The header block of a part

The fields of a block are kept as ranges into the buffer. The tokenizer of header
lines is a parameter: what is used of it is that its slices lie in the block it
was given. A block with more fields than are kept is read again by hand.
-/
namespace S3s.FormData
open Search

/-- `Range<usize>` between two pointers into one slice. -/
structure Span where
  start : Nat
  stop : Nat
  ordered : start ≤ stop
deriving DecidableEq

namespace Span

/-- The range of a slice of the given length. -/
def ofLength (start len : Nat) : Span := ⟨start, start + len, Nat.le_add_right start len⟩

/-- `get`: the bytes of a range that lies in the buffer. -/
def get? (s : Span) (buf : Bytes) : Option Bytes :=
  if s.stop ≤ buf.length then some ((buf.take s.stop).drop s.start) else none

/-- A range that lies in the first bytes reads the same, whatever follows them. -/
theorem get?_append {s : Span} {block : Bytes} (more : Bytes) (h : s.stop ≤ block.length) :
    s.get? (block ++ more) = some ((block.take s.stop).drop s.start) := by
  have hlen : s.stop ≤ (block ++ more).length := by
    rw [List.length_append]
    omega
  rw [get?, if_pos hlen, List.take_append_of_le_length h]

end Span

/-- `HeaderSpan` -/
structure HeaderSpan where
  name : Span
  value : Span
deriving DecidableEq

/-- Both ranges end within a block of the given length. -/
def HeaderSpan.Within (s : HeaderSpan) (len : Nat) : Prop := s.name.stop ≤ len ∧ s.value.stop ≤ len

instance (s : HeaderSpan) (len : Nat) : Decidable (s.Within len) :=
  inferInstanceAs (Decidable (s.name.stop ≤ len ∧ s.value.stop ≤ len))

/-- The answers of `httparse::parse_headers`. -/
inductive Parsed where
  | complete (dataStart : Nat) (headers : List HeaderSpan)
  | incomplete
  | tooManyHeaders
  | failed

/-- `httparse::parse_headers`, with a number of slots for the headers: the headers are slices of the
block, and the data starts in it or behind it. -/
structure Httparse where
  parseHeaders : Bytes → Nat → Parsed
  within : ∀ {block : Bytes} {slots dataStart : Nat} {headers : List HeaderSpan},
    parseHeaders block slots = .complete dataStart headers →
      dataStart ≤ block.length ∧ ∀ s ∈ headers, s.Within block.length

/-- `MAX_HEADERS` -/
def maxHeaders : Nat := 3

/-- `HeaderBlock` -/
structure HeaderBlock where
  spans : List HeaderSpan
  next : Nat
  dataStart : Nat
  capacity : spans.length ≤ maxHeaders
deriving DecidableEq

variable {ε : Type}

/-- The loop of `parse_header_block_fallback`: the slots that are left, the offset of the text in the
block and the text. -/
def fallbackLoop : Nat → Nat → Bytes → Except (Error ε) (List HeaderSpan)
  | 0, _, _ => .ok []
  | slots + 1, offset, rest =>
    if rest.isEmpty then .ok []
    else
      let lineEnd := (find crlf rest).getD rest.length
      let line := rest.take lineEnd
      match line.findIdx? (· == 58) with
      | none => .error .invalidFormat
      | some colon =>
        if colon = 0 then .error .invalidFormat
        else
          let untrimmed := line.drop (colon + 1)
          let leading := untrimmed.length - (untrimmed.dropWhile Bytes.isBlank).length
          let span : HeaderSpan := {
            name := .ofLength offset colon
            value := .ofLength (offset + (colon + 1) + leading) (Bytes.trimBlank untrimmed).length }
          match fallbackLoop slots (offset + (lineEnd + 2)) (rest.drop (lineEnd + 2)) with
          | .error e => .error e
          | .ok spans => .ok (span :: spans)

theorem fallbackLoop_length {slots offset : Nat} {rest : Bytes} {spans : List HeaderSpan}
    (h : fallbackLoop (ε := ε) slots offset rest = .ok spans) : spans.length ≤ slots := by
  induction slots generalizing offset rest spans with
  | zero =>
    cases h
    exact Nat.le_refl 0
  | succ slots ih =>
    rw [fallbackLoop] at h
    split at h
    · cases h
      exact Nat.zero_le _
    · dsimp only at h
      split at h
      · cases h
      · split at h
        · cases h
        · split at h
          · cases h
          · next hrec =>
            cases h
            have hlen := ih hrec
            rw [List.length_cons]
            omega

/-- `parse_header_block_fallback` -/
def parseHeaderBlockFallback (block : Bytes) : Except (Error ε) HeaderBlock :=
  if (crlf ++ crlf).isSuffixOf block then
    let blank := block.length - 4
    match h : fallbackLoop maxHeaders 0 (block.take blank) with
    | .error e => .error e
    | .ok spans => .ok {
        spans := spans
        next := 0
        dataStart := blank + 4
        capacity := fallbackLoop_length h }
  else .error .invalidFormat

/-- `parse_header_block` -/
def parseHeaderBlock (H : Httparse) (block : Bytes) : Except (Error ε) HeaderBlock :=
  match H.parseHeaders block maxHeaders with
  | .complete dataStart parsed => .ok {
      spans := parsed.take maxHeaders
      next := 0
      dataStart := dataStart
      capacity := List.length_take_le maxHeaders parsed }
  | .incomplete => .error .incompleteStream
  | .tooManyHeaders => parseHeaderBlockFallback block
  | .failed => .error .invalidFormat

theorem trimBlank_length_le (s : Bytes) :
    (Bytes.trimBlank s).length ≤ (s.dropWhile Bytes.isBlank).length :=
  (List.rdropWhile_prefix _ _).length_le

theorem fallbackLoop_nil {slots offset : Nat} {spans : List HeaderSpan}
    (h : fallbackLoop (ε := ε) slots offset [] = .ok spans) : spans = [] := by
  cases slots with
  | zero =>
    cases h
    rfl
  | succ slots =>
    cases h
    rfl

/-- The ranges of the second reader end within the text. -/
theorem fallbackLoop_within {slots offset : Nat} {rest : Bytes} {spans : List HeaderSpan}
    (h : fallbackLoop (ε := ε) slots offset rest = .ok spans) :
    ∀ s ∈ spans, s.Within (offset + rest.length) := by
  induction slots generalizing offset rest spans with
  | zero =>
    cases h
    exact fun s hs => absurd hs List.not_mem_nil
  | succ slots ih =>
    rw [fallbackLoop] at h
    split at h
    · cases h
      exact fun s hs => absurd hs List.not_mem_nil
    · dsimp only at h
      generalize (find crlf rest).getD rest.length = lineEnd at h
      split at h
      · cases h
      · next colon hcolon =>
        split at h
        · cases h
        · split at h
          · cases h
          · next spans' hrec =>
            cases h
            intro s hs
            rcases List.mem_cons.mp hs with rfl | hs
            · obtain ⟨hlt, -⟩ := List.findIdx?_eq_some_iff_getElem.mp hcolon
              rw [List.length_take] at hlt
              have htrim := trimBlank_length_le ((rest.take lineEnd).drop (colon + 1))
              have hdrop := (List.dropWhile_suffix Bytes.isBlank
                (l := (rest.take lineEnd).drop (colon + 1))).length_le
              have hlen : ((rest.take lineEnd).drop (colon + 1)).length =
                  min lineEnd rest.length - (colon + 1) := by
                rw [List.length_drop, List.length_take]
              simp only [HeaderSpan.Within, Span.ofLength]
              omega
            · by_cases hend : lineEnd + 2 ≤ rest.length
              · have hlater := ih hrec s hs
                rw [List.length_drop] at hlater
                simp only [HeaderSpan.Within] at hlater ⊢
                omega
              · rw [List.drop_of_length_le (by omega)] at hrec
                rw [fallbackLoop_nil hrec] at hs
                exact absurd hs List.not_mem_nil

/-- A parsed block: its ranges lie in it, and the data starts in it or behind it. -/
theorem parseHeaderBlock_within {H : Httparse} {block : Bytes} {b : HeaderBlock}
    (h : parseHeaderBlock (ε := ε) H block = .ok b) :
    b.next = 0 ∧ b.dataStart ≤ block.length ∧ ∀ s ∈ b.spans, s.Within block.length := by
  unfold parseHeaderBlock at h
  split at h
  · next dataStart parsed hparsed =>
    cases h
    obtain ⟨hstart, hspans⟩ := H.within hparsed
    exact ⟨rfl, hstart, fun s hs => hspans s (List.mem_of_mem_take hs)⟩
  · cases h
  · unfold parseHeaderBlockFallback at h
    split at h
    · next hsuffix =>
      have hlen : 4 ≤ block.length := (List.isSuffixOf_iff_suffix.mp hsuffix).length_le
      dsimp only at h
      split at h
      · cases h
      · next spans hspans =>
        cases h
        refine ⟨rfl, ?_, fun s hs => ?_⟩
        · simp only
          omega
        · have hwithin := fallbackLoop_within hspans s hs
          rw [List.length_take] at hwithin
          simp only [HeaderSpan.Within] at hwithin ⊢
          omega
    · cases h
  · cases h

/-- `httparse::Header` -/
structure Header where
  name : Bytes
  value : Bytes
deriving DecidableEq

/-- One header of a block, read from the buffer. -/
def readHeader (s : HeaderSpan) (buf : Bytes) : Except (Error ε) Header :=
  match s.name.get? buf, s.value.get? buf with
  | some name, some value =>
    match Bytes.fromUtf8 name with
    | some name => .ok ⟨name, value⟩
    | none => .error .invalidFormat
  | _, _ => .error .invalidFormat

/-- A header that lies in the block is read from the block alone. -/
theorem readHeader_append {s : HeaderSpan} {block : Bytes} (more : Bytes)
    (h : s.Within block.length) :
    readHeader (ε := ε) s (block ++ more) = readHeader s block := by
  have hname := Span.get?_append [] h.1
  have hvalue := Span.get?_append [] h.2
  rw [List.append_nil] at hname hvalue
  unfold readHeader
  rw [Span.get?_append more h.1, Span.get?_append more h.2, hname, hvalue]

end S3s.FormData
