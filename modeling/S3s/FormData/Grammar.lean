import S3s.FormData.Parser

/-! # What the bytes of a body say

The meaning of a whole body, as a function of its bytes alone: the parts that are
complete, what can be seen of a part that is not, and how the reading ends.
-/
namespace S3s.FormData
open Search

variable {ε : Type}

/-- A part: its headers and its data. -/
structure Part where
  headers : List Header
  data : Bytes
deriving DecidableEq

/-- What is seen of a body: the complete parts, the part that was begun when the reading failed, and
the outcome. -/
structure Transcript (ε : Type) where
  parts : List Part
  openPart : Option Part
  outcome : Except (Error ε) Unit

namespace Transcript

/-- Nothing more is seen. -/
def ends (outcome : Except (Error ε) Unit) : Transcript ε := ⟨[], none, outcome⟩

/-- The reading fails in a part. -/
def fails (part : Part) (e : Error ε) : Transcript ε := ⟨[], some part, .error e⟩

/-- A complete part is seen first. -/
def cons (part : Part) (t : Transcript ε) : Transcript ε := { t with parts := part :: t.parts }

end Transcript

/-- The text behind a line end. -/
def crlfNext (text : Bytes) : Except (Error ε) Bytes :=
  if text.length < 2 then .error .incompleteStream
  else if text.take 2 = crlf then .ok (text.drop 2)
  else .error .invalidFormat

/-- The text behind padding and a line end. -/
def paddingNext : Bytes → Except (Error ε) Bytes
  | [] => .error .incompleteStream
  | c :: text =>
    if c = cr then crlfNext (c :: text)
    else if Bytes.isBlank c then paddingNext text
    else .error .invalidFormat

/-- What follows a boundary: the closing mark, or a line end and a part. -/
def boundaryNext (text : Bytes) : Except (Error ε) (State × Bytes) :=
  if text.length < 1 then .error .incompleteStream
  else if text.headD 0 = 45 then
    if text.length < 2 then .error .incompleteStream
    else if text.take 2 = ascii "--" then .ok (.readingClosingDelimiter, text.drop 2)
    else .error .invalidFormat
  else if Bytes.isBlank (text.headD 0) then
    (paddingNext text).map fun rest => (.readingPartHeaders, rest)
  else if text.headD 0 = cr then (crlfNext text).map fun rest => (.readingPartHeaders, rest)
  else .error .invalidFormat

/-- What follows the closing mark. -/
def closingNext (text : Bytes) : Except (Error ε) Unit :=
  match paddingNext text with
  | .error e => .error e
  | .ok rest => if rest.isEmpty then .ok () else .error .streamPartNotLast

/-- The length of the header block in front of the data. -/
def headerEnd (max : Nat) (text : Bytes) : Except (Error ε) Nat :=
  if crlf.isPrefixOf text then .ok 2
  else
    match find (crlf ++ crlf) text with
    | some i => if i + 4 > max then .error (.headerSizeExceeded max) else .ok (i + 4)
    | none => if text.length > max then .error (.headerSizeExceeded max) else .error .incompleteStream

/-- The headers of a block, up to the first that cannot be read. -/
def readHeaders (block : Bytes) : List HeaderSpan → List Header × Except (Error ε) Unit
  | [] => ([], .ok ())
  | s :: spans =>
    match readHeader s block with
    | .error e => ([], .error e)
    | .ok header => (header :: (readHeaders block spans).1, (readHeaders block spans).2)

/-- Headers that lie in a block are read from the block alone. -/
theorem readHeaders_append {block : Bytes} (more : Bytes) {spans : List HeaderSpan}
    (h : ∀ s ∈ spans, s.Within block.length) :
    readHeaders (ε := ε) (block ++ more) spans = readHeaders block spans := by
  induction spans with
  | nil => rfl
  | cons s spans ih =>
    have hs := h s (List.mem_cons_self ..)
    have hspans := ih fun s' hs' => h s' (List.mem_cons_of_mem _ hs')
    rw [readHeaders, readHeaders, readHeader_append more hs, hspans]

/-- The part at the front of the text, and the text behind its delimiter. -/
def partNext (H : Httparse) (delimiter : Bytes) (max : Nat) (text : Bytes) :
    Except (Transcript ε) (Part × Bytes) :=
  match headerEnd max text with
  | .error e => .error (.fails ⟨[], []⟩ e)
  | .ok stop =>
    match parseHeaderBlock H (text.take stop) with
    | .error e => .error (.fails ⟨[], []⟩ e)
    | .ok block =>
      match readHeaders (text.take stop) block.spans with
      | (headers, .error e) => .error (.fails ⟨headers, []⟩ e)
      | (headers, .ok ()) =>
        let data := text.drop block.dataStart
        match find delimiter data with
        | none => .error (.fails ⟨headers, data⟩ .incompleteStream)
        | some i => .ok (⟨headers, data.take i⟩, data.drop (i + delimiter.length))

/-- What follows a boundary: a part and the text behind its delimiter, or what is seen at the end. -/
def blockNext (H : Httparse) (delimiter : Bytes) (max : Nat) (text : Bytes) :
    Except (Transcript ε) (Part × Bytes) :=
  match boundaryNext text with
  | .error e => .error (.ends (.error e))
  | .ok (.readingClosingDelimiter, rest) => .error (.ends (closingNext rest))
  | .ok (_, rest) => partNext H delimiter max rest

theorem crlfNext_length {text rest : Bytes} (h : crlfNext (ε := ε) text = .ok rest) :
    rest.length < text.length := by
  unfold crlfNext at h
  split at h
  · cases h
  · split at h
    · cases h
      rw [List.length_drop]
      omega
    · cases h

theorem paddingNext_length {text rest : Bytes} (h : paddingNext (ε := ε) text = .ok rest) :
    rest.length < text.length := by
  induction text with
  | nil => cases h
  | cons c text ih =>
    rw [paddingNext] at h
    split at h
    · exact crlfNext_length h
    · split at h
      · have hlt := ih h
        rw [List.length_cons]
        omega
      · cases h

/-- What can follow a boundary. -/
theorem boundaryNext_ok {text rest : Bytes} {state : State}
    (h : boundaryNext (ε := ε) text = .ok (state, rest)) :
    (state = .readingClosingDelimiter ∧ 2 ≤ text.length ∧ rest = text.drop 2) ∨
      (state = .readingPartHeaders ∧
        (paddingNext (ε := ε) text = .ok rest ∨ crlfNext (ε := ε) text = .ok rest)) := by
  unfold boundaryNext at h
  split at h
  · cases h
  · split at h
    · split at h
      · cases h
      · next hlong =>
        split at h
        · cases h
          exact .inl ⟨rfl, Nat.le_of_not_lt hlong, rfl⟩
        · cases h
    · split at h
      · cases hnext : paddingNext (ε := ε) text with
        | error e => rw [hnext] at h; cases h
        | ok rest' =>
          rw [hnext] at h
          cases h
          exact .inr ⟨rfl, .inl rfl⟩
      · split at h
        · cases hnext : crlfNext (ε := ε) text with
          | error e => rw [hnext] at h; cases h
          | ok rest' =>
            rw [hnext] at h
            cases h
            exact .inr ⟨rfl, .inr rfl⟩
        · cases h

theorem boundaryNext_state {text rest : Bytes} {state : State}
    (h : boundaryNext (ε := ε) text = .ok (state, rest)) :
    state = .readingClosingDelimiter ∨ state = .readingPartHeaders :=
  (boundaryNext_ok h).imp And.left And.left

theorem boundaryNext_length {text rest : Bytes} {state : State}
    (h : boundaryNext (ε := ε) text = .ok (state, rest)) : rest.length < text.length := by
  rcases boundaryNext_ok h with ⟨-, hlong, rfl⟩ | ⟨-, hpadding | hcrlf⟩
  · rw [List.length_drop]
    omega
  · exact paddingNext_length hpadding
  · exact crlfNext_length hcrlf

theorem partNext_length {H : Httparse} {delimiter text rest : Bytes} {max : Nat} {part : Part}
    (h : partNext (ε := ε) H delimiter max text = .ok (part, rest)) :
    rest.length ≤ text.length := by
  unfold partNext at h
  split at h
  · cases h
  · split at h
    · cases h
    · split at h
      · cases h
      · dsimp only at h
        split at h
        · cases h
        · cases h
          rw [List.length_drop, List.length_drop]
          omega

theorem blockNext_length {H : Httparse} {delimiter text rest : Bytes} {max : Nat} {part : Part}
    (h : blockNext (ε := ε) H delimiter max text = .ok (part, rest)) :
    rest.length < text.length := by
  unfold blockNext at h
  split at h
  · cases h
  · cases h
  · next hnext => exact (partNext_length h).trans_lt (boundaryNext_length hnext)

/-- What is seen behind a boundary. -/
def blocks (H : Httparse) (delimiter : Bytes) (max : Nat) (text : Bytes) : Transcript ε :=
  match h : blockNext (ε := ε) H delimiter max text with
  | .error t => t
  | .ok (part, rest) => (blocks H delimiter max rest).cons part
termination_by text.length
decreasing_by exact blockNext_length h

/-- What is seen of a whole body. -/
def meaning (H : Httparse) (boundary : Boundary) (max : Nat) (body : Bytes) : Transcript ε :=
  match afterFirst (makeFirstBoundary boundary.bytes) body with
  | none => .ends (.error .invalidFormat)
  | some rest => blocks H (makeDelimiter boundary.bytes) max rest

end S3s.FormData
