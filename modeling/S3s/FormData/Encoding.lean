import S3s.AwsChunked.Recognisers
import S3s.FormData.Splitting

/-! # Encoded bodies

The encoding of a list of parts: a preamble, the parts between boundaries, and the
closing mark. However it is split into chunks, a caller sees exactly the parts.
-/
namespace S3s.FormData
open Polling Search

variable {ε : Type}

/-- The bytes that `httparse` takes in the value of a header. -/
def isFieldByte (c : UInt8) : Bool := (32 ≤ c && c != 127) || c == 9

/-- A header as `httparse` accepts it: a token, and a value without control characters. -/
structure Header.WellFormed (h : Header) : Prop where
  name_ne : h.name ≠ []
  name_token : h.name.all AwsChunked.isTokenChar = true
  value_bytes : h.value.all isFieldByte = true

/-- A header line without its end. -/
def Header.line (h : Header) : Bytes := h.name ++ ascii ": " ++ h.value

/-- The header lines and the empty line behind them. -/
def encodeHeaders : List Header → Bytes
  | [] => crlf
  | h :: headers => h.line ++ (crlf ++ encodeHeaders headers)

/-- What follows a boundary: the parts to come, or the closing mark. -/
def encodeParts (boundary : Bytes) : List Part → Bytes
  | [] => ascii "--" ++ crlf
  | part :: parts => crlf ++ (encodeHeaders part.headers ++
      (part.data ++ (makeDelimiter boundary ++ encodeParts boundary parts)))

/-- A whole body. -/
def encodeBody (preamble boundary : Bytes) (parts : List Part) : Bytes :=
  preamble ++ (makeFirstBoundary boundary ++ encodeParts boundary parts)

/-- `httparse` takes the whole block and returns its headers, as slices of the block. -/
def Httparse.Parses (H : Httparse) (headers : List Header) : Prop :=
  ∃ spans, H.parseHeaders (encodeHeaders headers) maxHeaders =
      .complete (encodeHeaders headers).length spans ∧
    spans.map (fun s => (s.name.get? (encodeHeaders headers), s.value.get? (encodeHeaders headers))) =
      headers.map fun h => (some h.name, some h.value)

/-- A part that can be encoded: one to three headers that `httparse` accepts in a block within the
limit, and data without a delimiter. -/
structure Part.Encodable (H : Httparse) (boundary : Bytes) (max : Nat) (part : Part) : Prop where
  headers_ne : part.headers ≠ []
  headers_le : part.headers.length ≤ maxHeaders
  wellFormed : ∀ h ∈ part.headers, h.WellFormed
  parses : H.Parses part.headers
  within : (encodeHeaders part.headers).length ≤ max
  data : find (makeDelimiter boundary) part.data = none

theorem isTokenChar_ascii (c : UInt8) (h : AwsChunked.isTokenChar c = true) :
    c ≠ cr ∧ c < 0x80 := by
  revert h
  refine forall_byte (p := fun c => AwsChunked.isTokenChar c = true → c ≠ cr ∧ c < 0x80) ?_ c
  decide +kernel

theorem isFieldByte_ne_cr (c : UInt8) (h : isFieldByte c = true) : c ≠ cr := by
  rintro rfl
  cases h

theorem isBchar_ne (c : UInt8) (h : isBchar c = true) : c ≠ cr ∧ c ≠ lf := by
  revert h
  refine forall_byte (p := fun c => isBchar c = true → c ≠ cr ∧ c ≠ lf) ?_ c
  decide +kernel

theorem Boundary.bchar (boundary : Boundary) {c : UInt8} (hc : c ∈ boundary.bytes) :
    c ≠ cr ∧ c ≠ lf := by
  have hvalid := boundary.valid
  simp only [validBoundary, Bool.and_eq_true] at hvalid
  exact isBchar_ne c (List.all_eq_true.mp hvalid.1.2 c hc)

/-- A delimiter has no line end but its first bytes. -/
theorem find_delimiter (boundary : Boundary) {data : Bytes}
    (h : find (makeDelimiter boundary.bytes) data = none) (more : Bytes) :
    find (makeDelimiter boundary.bytes) (data ++ (makeDelimiter boundary.bytes ++ more)) =
      some data.length := by
  refine find_put ?_ h
  intro hmem
  rcases List.mem_append.mp hmem with hdash | hboundary
  · revert hdash
    decide
  · exact (boundary.bchar hboundary).1 rfl

/-- A preamble that does not contain the boundary may stand before it on a line of its own. -/
theorem find_behind_line (boundary : Boundary) {preamble : Bytes}
    (h : find (makeFirstBoundary boundary.bytes) preamble = none) :
    find (makeFirstBoundary boundary.bytes) (preamble ++ crlf ++ makeFirstBoundary boundary.bytes) =
      some (preamble ++ crlf).length := by
  have hne : makeFirstBoundary boundary.bytes ≠ [] := List.cons_ne_nil _ _
  have hout : ∀ c, c = cr ∨ c = lf → c ∉ makeFirstBoundary boundary.bytes := by
    intro c hc hmem
    rcases List.mem_append.mp hmem with hdash | hboundary
    · rcases hc with rfl | rfl <;> revert hdash <;> decide
    · exact hc.elim (boundary.bchar hboundary).1 (boundary.bchar hboundary).2
  have hline : preamble ++ crlf = preamble ++ [cr] ++ [lf] := by simp [crlf]
  have hcr := find_letter (hout cr (.inl rfl)) hne h
  have hlf := find_letter (hout lf (.inr rfl)) hne hcr
  rw [hline, find_put_behind (hout lf (.inr rfl)) hlf]
  simp

/-- Where a header line ends, the next one begins or the block ends. -/
theorem encodeHeaders_front {headers : List Header} (hwell : ∀ h ∈ headers, h.WellFormed)
    (hne : headers ≠ []) : (encodeHeaders headers).headD 0 ≠ cr := by
  cases headers with
  | nil => exact absurd rfl hne
  | cons h headers =>
    have hh := hwell h (List.mem_cons_self ..)
    obtain ⟨c, name, hname⟩ := List.exists_cons_of_ne_nil hh.name_ne
    have hc : c ∈ h.name := by
      rw [hname]
      exact List.mem_cons_self ..
    have hfront : (encodeHeaders (h :: headers)).headD 0 = c := by
      simp [encodeHeaders, Header.line, hname]
    rw [hfront]
    exact (isTokenChar_ascii c (List.all_eq_true.mp hh.name_token c hc)).1

theorem Header.WellFormed.line_ne_cr {h : Header} (hh : h.WellFormed) : cr ∉ h.line := by
  intro hmem
  simp only [Header.line, List.mem_append] at hmem
  rcases hmem with (hname | hcolon) | hvalue
  · exact (isTokenChar_ascii cr (List.all_eq_true.mp hh.name_token cr hname)).1 rfl
  · revert hcolon
    decide
  · exact isFieldByte_ne_cr cr (List.all_eq_true.mp hh.value_bytes cr hvalue) rfl

/-- No empty line starts in a header line or at its end. -/
theorem noneBefore_line {line text : Bytes} (hline : cr ∉ line) (htext : text.headD 0 ≠ cr) :
    NoneBefore (crlf ++ crlf) (line ++ (crlf ++ text)) (line.length + 2) := by
  intro j hj hp
  by_cases hin : j < line.length
  · exact noneBefore_of_not_mem hline j hin hp
  · have hlf : line.length + 1 = j ∨ line.length = j := by omega
    rcases hlf with rfl | rfl
    · rw [List.drop_append, List.drop_of_length_le (by omega)] at hp
      obtain ⟨rest, hrest⟩ := hp
      simp [crlf] at hrest
      cases hrest.1
    · rw [List.drop_left] at hp
      obtain ⟨rest, hrest⟩ := hp
      cases text with
      | nil => simp [crlf] at hrest
      | cons c text =>
        simp [crlf] at hrest
        exact htext hrest.1.symm

/-- The empty line behind the headers is the first one. -/
theorem find_emptyLine {headers : List Header} (hwell : ∀ h ∈ headers, h.WellFormed)
    (hne : headers ≠ []) (more : Bytes) :
    4 ≤ (encodeHeaders headers).length ∧ find (crlf ++ crlf) (encodeHeaders headers ++ more) =
      some ((encodeHeaders headers).length - 4) := by
  induction headers with
  | nil => exact absurd rfl hne
  | cons h headers ih =>
    have hh := (hwell h (List.mem_cons_self ..)).line_ne_cr
    have hrest : ∀ h' ∈ headers, h'.WellFormed := fun h' hh' => hwell h' (List.mem_cons_of_mem _ hh')
    rw [encodeHeaders, List.append_assoc, List.append_assoc]
    by_cases hlast : headers = []
    · subst hlast
      have hlen : (h.line ++ (crlf ++ encodeHeaders [])).length = h.line.length + 4 := by
        simp [encodeHeaders, crlf]
      refine ⟨by omega, ?_⟩
      rw [hlen, Nat.add_sub_cancel]
      refine find_eq_some.mpr ⟨by simp, ?_, noneBefore_of_not_mem hh⟩
      rw [List.drop_left, encodeHeaders, ← List.append_assoc]
      exact List.prefix_append _ _
    · obtain ⟨hlong, hfind⟩ := ih hrest hlast
      have hfront : (encodeHeaders headers ++ more).headD 0 ≠ cr := by
        have hhead := encodeHeaders_front hrest hlast
        cases hblock : encodeHeaders headers with
        | nil =>
          rw [hblock] at hlong
          cases hlong
        | cons c block =>
          rw [hblock] at hhead
          exact hhead
      have hlen : (h.line ++ (crlf ++ encodeHeaders headers)).length =
          (encodeHeaders headers).length + (h.line.length + 2) := by
        simp [crlf]
        omega
      have hskip : (h.line ++ (crlf ++ (encodeHeaders headers ++ more))).drop (h.line.length + 2) =
          encodeHeaders headers ++ more := by
        rw [List.drop_length_add_append]
        rfl
      refine ⟨by omega, ?_⟩
      rw [find_of_noneBefore (noneBefore_line hh hfront) (by simp [crlf]), hskip, hfind, hlen,
        Option.map_some]
      congr 1
      omega

/-- The length of the block is found. -/
theorem headerEnd_encodeHeaders {headers : List Header} {max : Nat}
    (hwell : ∀ h ∈ headers, h.WellFormed) (hne : headers ≠ [])
    (hmax : (encodeHeaders headers).length ≤ max) (more : Bytes) :
    headerEnd (ε := ε) max (encodeHeaders headers ++ more) = .ok (encodeHeaders headers).length := by
  obtain ⟨hlong, hfind⟩ := find_emptyLine hwell hne more
  have hfront : ¬ crlf.isPrefixOf (encodeHeaders headers ++ more) = true := by
    intro hp
    obtain ⟨rest, hrest⟩ := List.isPrefixOf_iff_prefix.mp hp
    have hhead := encodeHeaders_front hwell hne
    cases hblock : encodeHeaders headers with
    | nil =>
      rw [hblock] at hlong
      cases hlong
    | cons c block =>
      rw [hblock] at hhead hrest
      exact hhead (List.cons.inj hrest).1.symm
  have hend : (encodeHeaders headers).length - 4 + 4 = (encodeHeaders headers).length := by omega
  rw [headerEnd, if_neg hfront, hfind]
  dsimp only
  rw [hend, if_neg (by omega)]

/-- The headers are read from their slices. -/
theorem readHeaders_of_slices {block : Bytes} {headers : List Header} {spans : List HeaderSpan}
    (hwell : ∀ h ∈ headers, h.WellFormed)
    (h : spans.map (fun s => (s.name.get? block, s.value.get? block)) =
      headers.map fun h => (some h.name, some h.value)) :
    readHeaders (ε := ε) block spans = (headers, .ok ()) := by
  induction headers generalizing spans with
  | nil =>
    rw [List.map_nil, List.map_eq_nil_iff] at h
    rw [h]
    rfl
  | cons header headers ih =>
    cases spans with
    | nil => cases h
    | cons s spans =>
      rw [List.map_cons, List.map_cons, List.cons.injEq, Prod.mk.injEq] at h
      obtain ⟨⟨hname, hvalue⟩, hrest⟩ := h
      have hutf8 : Bytes.fromUtf8 header.name = some header.name := by
        refine Bytes.fromUtf8_of_ascii _ fun c hc => ?_
        have htoken := (hwell header (List.mem_cons_self ..)).name_token
        exact (isTokenChar_ascii c (List.all_eq_true.mp htoken c hc)).2
      have hread : readHeader (ε := ε) s block = .ok header := by
        rw [readHeader, hname, hvalue]
        simp only [hutf8]
      rw [readHeaders, hread, ih (fun h' hh' => hwell h' (List.mem_cons_of_mem _ hh')) hrest]

/-- An encoded part is read back. -/
theorem partNext_encoded {H : Httparse} {boundary : Boundary} {max : Nat} {part : Part}
    (h : part.Encodable H boundary.bytes max) (more : Bytes) :
    partNext (ε := ε) H (makeDelimiter boundary.bytes) max (encodeHeaders part.headers ++
      (part.data ++ (makeDelimiter boundary.bytes ++ more))) = .ok (part, more) := by
  obtain ⟨spans, hparse, hslices⟩ := h.parses
  have hcount : spans.length ≤ maxHeaders := by
    have hlen := congrArg List.length hslices
    rw [List.length_map, List.length_map] at hlen
    rw [hlen]
    exact h.headers_le
  have hblock : ∃ block : HeaderBlock, parseHeaderBlock (ε := ε) H (encodeHeaders part.headers) =
      .ok block ∧ block.spans = spans ∧ block.dataStart = (encodeHeaders part.headers).length := by
    rw [parseHeaderBlock, hparse]
    exact ⟨_, rfl, List.take_of_length_le hcount, rfl⟩
  obtain ⟨block, hblock, rfl, hstart⟩ := hblock
  have hread := readHeaders_of_slices (ε := ε) h.wellFormed hslices
  have hfind := find_delimiter boundary h.data more
  unfold partNext
  rw [headerEnd_encodeHeaders h.wellFormed h.headers_ne h.within]
  simp only [List.take_left, hblock, hread, hstart, List.drop_left, hfind]
  rw [← List.append_assoc, ← List.length_append, List.drop_left]

/-- What follows a boundary is read back. -/
theorem blocks_encodeParts {H : Httparse} {boundary : Boundary} {max : Nat} {parts : List Part}
    (h : ∀ part ∈ parts, part.Encodable H boundary.bytes max) :
    blocks H (makeDelimiter boundary.bytes) max (encodeParts boundary.bytes parts) =
      (⟨parts, none, .ok ()⟩ : Transcript ε) := by
  induction parts with
  | nil =>
    refine Multipart.blocks_stop ?_
    rfl
  | cons part parts ih =>
    have hpart := partNext_encoded (ε := ε) (h part (List.mem_cons_self ..))
      (encodeParts boundary.bytes parts)
    have hblock : blockNext (ε := ε) H (makeDelimiter boundary.bytes) max
        (encodeParts boundary.bytes (part :: parts)) =
          .ok (part, encodeParts boundary.bytes parts) := by
      rw [← hpart]
      rfl
    rw [Multipart.blocks_part hblock, ih fun p hp => h p (List.mem_cons_of_mem _ hp)]
    rfl

namespace Multipart

/-- The encoding of a list of parts, split in any way into chunks that are not empty: a caller sees
exactly these parts, and then the end. The first boundary is to be found where it has been put; so
it is behind every preamble that does not contain it and ends its line. -/
theorem encoded_body_is_read_back (H : Httparse) (boundary : Boundary) (max : Nat)
    (preamble : Bytes) (parts : List Part) (chunks : List Bytes) (hne : ∀ c ∈ chunks, c ≠ [])
    (hparts : ∀ part ∈ parts, part.Encodable H boundary.bytes max)
    (hpreamble : find (makeFirstBoundary boundary.bytes)
      (preamble ++ makeFirstBoundary boundary.bytes) = some preamble.length)
    (hbody : chunks.flatten = encodeBody preamble boundary.bytes parts) :
    ReadParts H (new (ofChunks chunks) boundary max) (⟨parts, none, .ok ()⟩ : Transcript ε) ∧
      (∀ t : Transcript ε, ReadParts H (new (ofChunks chunks) boundary max) t →
        t = ⟨parts, none, .ok ()⟩) ∧
      ∀ text, find (makeFirstBoundary boundary.bytes) text = none →
        find (makeFirstBoundary boundary.bytes) (text ++ crlf ++ makeFirstBoundary boundary.bytes) =
          some (text ++ crlf).length := by
  have hmeaning : meaning H boundary max chunks.flatten = (⟨parts, none, .ok ()⟩ : Transcript ε) := by
    have hfirst : afterFirst (makeFirstBoundary boundary.bytes) (preamble ++
        makeFirstBoundary boundary.bytes ++ encodeParts boundary.bytes parts) = _ :=
      afterFirst_append hpreamble
    rw [List.append_assoc, ← List.length_append, List.drop_length, List.nil_append] at hfirst
    rw [meaning, hbody, encodeBody, hfirst]
    exact blocks_encodeParts hparts
  obtain ⟨t, hreads, hupTo⟩ := reads_meaning (ε := ε) H boundary max hne
  rw [hmeaning] at hupTo
  obtain ⟨seen, openPart, outcome⟩ := t
  obtain ⟨hseen, hopen, houtcome⟩ := hupTo
  cases hseen
  cases hopen
  cases houtcome
  exact ⟨hreads, fun t ht => ht.unique hreads, fun text => find_behind_line boundary⟩

/-- One part with one header. -/
def samplePart : Part := ⟨[⟨ascii "A", ascii "b"⟩], ascii "hi\r\n--"⟩

theorem samplePart_encodable (boundary : Boundary)
    (hdata : find (makeDelimiter boundary.bytes) samplePart.data = none) :
    samplePart.Encodable sampleHttparse boundary.bytes 16 := by
  refine ⟨by decide, by decide, ?_, ?_, by decide, hdata⟩
  · intro h hh
    cases List.mem_singleton.mp hh
    exact ⟨by decide, by decide, by decide⟩
  · have hblock : encodeHeaders samplePart.headers = sampleBlock := by decide
    refine ⟨[⟨.ofLength 0 1, .ofLength 3 1⟩], ?_, by decide⟩
    rw [hblock]
    rfl

/-- A preamble, and the encoding of the part in two chunks that divide the first boundary. -/
def encodedChunks : List Bytes :=
  [ascii "p\r\n-", ascii "-b\r\nA: b\r\n\r\nhi\r\n--\r\n--b--\r\n"]

theorem encoded_body_is_read_back_sample :
    ReadParts (ε := Empty) sampleHttparse (new (ofChunks encodedChunks) sampleBoundary 16)
      ⟨[samplePart], none, .ok ()⟩ := by
  refine (encoded_body_is_read_back sampleHttparse sampleBoundary 16 (ascii "p\r\n") [samplePart]
    encodedChunks (by decide) (fun part hpart => ?_) (by decide) (by decide)).1
  cases List.mem_singleton.mp hpart
  exact samplePart_encodable sampleBoundary (by decide)

/-- The boundary `-`. -/
def dashBoundary : Boundary := ⟨ascii "-", by decide⟩

/-- A preamble that does not contain the boundary, but with it forms an earlier one: the part behind
it is not seen. -/
theorem preamble_runs_into_boundary :
    (∀ part ∈ [samplePart], part.Encodable sampleHttparse dashBoundary.bytes 16) ∧
      find (makeFirstBoundary dashBoundary.bytes) (ascii "-") = none ∧
      ∃ t : Transcript Empty, ReadParts sampleHttparse
        (new (ofChunks [encodeBody (ascii "-") dashBoundary.bytes [samplePart]]) dashBoundary 16) t ∧
          t.parts = [] ∧ t.outcome = .error .invalidFormat := by
  have h : (readParts (ε := Empty) sampleHttparse 8 (new (ofChunks
      [encodeBody (ascii "-") dashBoundary.bytes [samplePart]]) dashBoundary 16)).map
        (fun t => (t.parts, t.outcome)) = some ([], .error .invalidFormat) := by
    decide +kernel
  obtain ⟨t, hread, hseen⟩ := Option.map_eq_some_iff.mp h
  refine ⟨fun part hpart => ?_, by decide, t, readParts_sound hread, congrArg Prod.fst hseen,
    congrArg Prod.snd hseen⟩
  cases List.mem_singleton.mp hpart
  exact samplePart_encodable dashBoundary (by decide)

end Multipart
end S3s.FormData
