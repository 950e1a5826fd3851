import S3s.AwsChunked.Recognisers
import S3s.AwsChunked.Trailers

/-! # Well-formed trailer blocks

A block is written line by line, with the variations a client may choose: an
empty line before it, and its last line bare, ended, or followed by an empty
line. Reading it back gives the fields with lowercased names, sorted by name,
the values of one name in the order in which they were written.
-/
namespace S3s.AwsChunked
open Fragments SigV4

variable {ε : Type}

/-- A header field as HTTP has it: a token and a visible value without blanks at its ends. -/
structure HeaderField where
  name : Bytes
  value : Bytes
  name_ne_nil : name ≠ []
  name_token : name.all isTokenChar = true
  value_visible : value.all isVisible = true
  value_head : ∀ c ∈ value.head?, Bytes.isBlank c = false
  value_last : ∀ c ∈ value.getLast?, Bytes.isBlank c = false

/-- A trailer: any field but the signature of the block. -/
structure Trailer extends HeaderField where
  name_ne_signature : Bytes.lowercase name ≠ trailerSignatureName

theorem isTokenChar_spec (c : UInt8) (h : isTokenChar c = true) :
    c ≠ 58 ∧ c ≠ lf ∧ c ≠ cr ∧ c < 0x80 ∧ Bytes.toLower c < 0x80 ∧
      isTokenChar (Bytes.toLower c) = true := by
  revert h
  refine forall_byte (p := fun c => isTokenChar c = true → c ≠ 58 ∧ c ≠ lf ∧ c ≠ cr ∧ c < 0x80 ∧
    Bytes.toLower c < 0x80 ∧ isTokenChar (Bytes.toLower c) = true) ?_ c
  decide +kernel

theorem isVisible_spec (c : UInt8) (h : isVisible c = true) : c ≠ lf ∧ c ≠ cr ∧ c < 0x80 := by
  revert h
  refine forall_byte (p := fun c => isVisible c = true → c ≠ lf ∧ c ≠ cr ∧ c < 0x80) ?_ c
  decide +kernel

theorem isLowercaseHex_spec (c : UInt8) (h : Bytes.isLowercaseHex c = true) :
    isVisible c = true ∧ Bytes.isBlank c = false := by
  revert h
  refine forall_byte (p := fun c => Bytes.isLowercaseHex c = true →
    isVisible c = true ∧ Bytes.isBlank c = false) ?_ c
  decide +kernel

/-- The field that carries a signature. -/
def signatureField (d : Sha256Sum) : HeaderField where
  name := trailerSignatureName
  value := d.hex
  name_ne_nil := by decide
  name_token := by decide
  value_visible := List.all_eq_true.mpr fun c hc =>
    (isLowercaseHex_spec c (List.all_eq_true.mp (Bytes.encodeHex_lowercase d.bytes) c hc)).1
  value_head c hc :=
    (isLowercaseHex_spec c (List.all_eq_true.mp (Bytes.encodeHex_lowercase d.bytes) c
      (List.mem_of_mem_head? hc))).2
  value_last c hc :=
    (isLowercaseHex_spec c (List.all_eq_true.mp (Bytes.encodeHex_lowercase d.bytes) c
      (List.mem_of_mem_getLast? hc))).2

namespace HeaderField

variable (f : HeaderField)

def line : Bytes := f.name ++ 58 :: f.value

def entry : Bytes × Bytes := (Bytes.lowercase f.name, f.value)

theorem name_spec {c : UInt8} (hc : c ∈ f.name) :
    c ≠ 58 ∧ c ≠ lf ∧ c ≠ cr ∧ c < 0x80 ∧ Bytes.toLower c < 0x80 ∧
      isTokenChar (Bytes.toLower c) = true :=
  isTokenChar_spec c (List.all_eq_true.mp f.name_token c hc)

theorem value_spec {c : UInt8} (hc : c ∈ f.value) : c ≠ lf ∧ c ≠ cr ∧ c < 0x80 :=
  isVisible_spec c (List.all_eq_true.mp f.value_visible c hc)

theorem line_spec {c : UInt8} (hc : c ∈ f.line) : c ≠ lf ∧ c ≠ cr := by
  rw [line, List.mem_append, List.mem_cons] at hc
  rcases hc with hc | rfl | hc
  · exact ⟨(f.name_spec hc).2.1, (f.name_spec hc).2.2.1⟩
  · decide
  · exact ⟨(f.value_spec hc).1, (f.value_spec hc).2.1⟩

theorem lf_not_mem_line : lf ∉ f.line := fun h => (f.line_spec h).1 rfl

theorem line_ne_nil : f.line ≠ [] := by simp [line]

theorem stripCr_line : stripCr f.line = f.line := by
  unfold stripCr
  split
  · next h => exact ((f.line_spec (List.mem_of_mem_getLast? h)).2 rfl).elim
  · rfl

theorem stripCr_line_cr : stripCr (f.line ++ [cr]) = f.line := by simp [stripCr]

theorem splitTrailer_line : splitTrailer f.line = some f.entry := by
  have hno : (58 : UInt8) ∉ f.name := fun h => (f.name_spec h).1 rfl
  have hidx : f.line.idxOf? 58 = some f.name.length := by
    rw [line, idxOf?_append, List.idxOf?_eq_none_iff.mpr hno]
    simp [List.idxOf?_cons]
  have hname : f.line.take f.name.length = f.name := List.take_left' rfl
  have hvalue : f.line.drop (f.name.length + 1) = f.value := by
    rw [line, ← List.drop_drop, List.drop_left' rfl]
    rfl
  have hlower : ∀ c ∈ Bytes.lowercase f.name, c < 0x80 := by
    intro c hc
    obtain ⟨d, hd, rfl⟩ := List.mem_map.mp hc
    exact (f.name_spec hd).2.2.2.2.1
  unfold splitTrailer
  simp only [hidx, hname, hvalue]
  rw [Bytes.trimBlank_of_ends f.value_head f.value_last, Bytes.fromUtf8_of_ascii _ hlower,
    Bytes.fromUtf8_of_ascii _ fun c hc => (f.value_spec hc).2.2]
  rfl

end HeaderField

/-- What a line adds to the scan. -/
def TrailerScan.addField (scan : TrailerScan) (f : HeaderField) : TrailerScan :=
  { scan with headerCount := scan.headerCount + 1 }.add f.entry.1 f.entry.2

theorem TrailerScan.headerCount_addField (scan : TrailerScan) (f : HeaderField) :
    (scan.addField f).headerCount = scan.headerCount + 1 := by
  unfold addField add
  split <;> rfl

theorem scanTrailerLine_field {scan : TrailerScan} {f : HeaderField} {line : Bytes}
    (hline : stripCr line = f.line) (hcount : scan.headerCount + 1 ≤ maxTrailerHeaders) :
    (scanTrailerLine scan line : Except (AwsChunkedStreamError ε) _) = .ok (scan.addField f) := by
  unfold scanTrailerLine
  simp only [hline]
  rw [if_neg (by simpa using f.line_ne_nil), if_neg (Nat.not_lt.mpr hcount), f.splitTrailer_line]
  rfl

/-- How the last line of a block ends. -/
inductive BlockEnd where
  | bare
  | line
  | blank

def BlockEnd.bytes : BlockEnd → Bytes
  | .bare => []
  | .line => crlf
  | .blank => crlf ++ crlf

/-- The free choices in writing a block. -/
structure Layout where
  blankBefore : Bool
  ending : BlockEnd

def encodeFields (ending : BlockEnd) : List HeaderField → Bytes
  | [] => []
  | [f] => f.line ++ ending.bytes
  | f :: fs => f.line ++ crlf ++ encodeFields ending fs

def Layout.before (layout : Layout) : Bytes := if layout.blankBefore then crlf else []

/-- The block behind the terminal chunk. -/
def encodeBlock (layout : Layout) (fields : List HeaderField) : Bytes :=
  layout.before ++ encodeFields layout.ending fields

private theorem splitLf_line_crlf (f : HeaderField) (rest : Bytes) :
    Bytes.splitLf (f.line ++ crlf ++ rest) = (f.line ++ [cr]) :: Bytes.splitLf rest := by
  have hlf : lf ∉ f.line ++ [cr] := by
    rw [List.mem_append, not_or]
    exact ⟨f.lf_not_mem_line, by decide⟩
  rw [← Bytes.splitLf_line _ rest hlf]
  simp [crlf]

theorem splitLf_last (line : Bytes) (h : lf ∉ line) : Bytes.splitLf line = [line] := by
  induction line with
  | nil => rfl
  | cons b line ih =>
    rw [List.mem_cons, not_or] at h
    rw [Bytes.splitLf, if_neg (Ne.symm h.1), ih h.2]

/-- A line that holds nothing but its end is passed over. -/
private theorem scanTrailerLines_empty (scan : TrailerScan) (lines : List Bytes)
    (h : ∀ line ∈ lines, stripCr line = []) :
    (scanTrailerLines scan lines : Except (AwsChunkedStreamError ε) _) = .ok scan := by
  induction lines with
  | nil => rfl
  | cons line lines ih =>
    have hline : (scanTrailerLine scan line : Except (AwsChunkedStreamError ε) _) = .ok scan := by
      simp [scanTrailerLine, h line List.mem_cons_self]
    rw [scanTrailerLines, hline]
    exact ih fun line hl => h line (List.mem_cons_of_mem _ hl)

private theorem scan_last (scan : TrailerScan) (f : HeaderField) (ending : BlockEnd)
    (hcount : scan.headerCount + 1 ≤ maxTrailerHeaders) :
    (scanTrailerLines scan (Bytes.splitLf (f.line ++ ending.bytes)) :
      Except (AwsChunkedStreamError ε) _) = .ok (scan.addField f) := by
  cases ending with
  | bare =>
    rw [BlockEnd.bytes, List.append_nil, splitLf_last _ f.lf_not_mem_line, scanTrailerLines,
      scanTrailerLine_field f.stripCr_line hcount]
    rfl
  | line =>
    have hsplit := splitLf_line_crlf f []
    rw [List.append_nil] at hsplit
    rw [BlockEnd.bytes, hsplit, scanTrailerLines, scanTrailerLine_field f.stripCr_line_cr hcount]
    exact scanTrailerLines_empty _ _ (by decide)
  | blank =>
    rw [BlockEnd.bytes, ← List.append_assoc, splitLf_line_crlf f crlf, scanTrailerLines,
      scanTrailerLine_field f.stripCr_line_cr hcount]
    exact scanTrailerLines_empty _ _ (by decide)

/-- The scan of a block adds its fields one after the other. -/
theorem scan_encodeFields (fields : List HeaderField) (ending : BlockEnd) (scan : TrailerScan)
    (hcount : scan.headerCount + fields.length ≤ maxTrailerHeaders) :
    (scanTrailerLines scan (Bytes.splitLf (encodeFields ending fields)) :
      Except (AwsChunkedStreamError ε) _) = .ok (fields.foldl TrailerScan.addField scan) := by
  induction fields generalizing scan with
  | nil =>
    rw [encodeFields]
    exact scanTrailerLines_empty scan _ (by decide)
  | cons f fields ih =>
    rw [List.length_cons] at hcount
    cases fields with
    | nil => exact scan_last scan f ending (by omega)
    | cons g fields =>
      rw [encodeFields, splitLf_line_crlf, scanTrailerLines,
        scanTrailerLine_field f.stripCr_line_cr (by omega)]
      · exact ih (scan.addField f) (by rw [TrailerScan.headerCount_addField]; omega)
      · simp

theorem scan_encodeBlock (layout : Layout) (fields : List HeaderField)
    (hcount : fields.length ≤ maxTrailerHeaders) :
    (scanTrailerLines ⟨[], none, 0⟩ (Bytes.splitLf (encodeBlock layout fields)) :
      Except (AwsChunkedStreamError ε) _) =
      .ok (fields.foldl TrailerScan.addField ⟨[], none, 0⟩) := by
  have hscan := scan_encodeFields (ε := ε) fields layout.ending ⟨[], none, 0⟩
    (by rw [Nat.zero_add]; exact hcount)
  unfold encodeBlock Layout.before
  cases layout.blankBefore with
  | false => exact hscan
  | true =>
    have hsplit : Bytes.splitLf (crlf ++ encodeFields layout.ending fields) =
        [cr] :: Bytes.splitLf (encodeFields layout.ending fields) :=
      Bytes.splitLf_line [cr] _ (by decide)
    rw [if_pos rfl, hsplit, scanTrailerLines]
    exact hscan

/-- The entries of a list of trailers, as they are read. -/
def entriesOf (trailers : List Trailer) : List (Bytes × Bytes) := trailers.map fun t => t.entry

theorem foldl_addField_trailers (trailers : List Trailer) (scan : TrailerScan) :
    (trailers.map Trailer.toHeaderField).foldl TrailerScan.addField scan =
      { scan with
        entries := scan.entries ++ entriesOf trailers
        headerCount := scan.headerCount + trailers.length } := by
  induction trailers generalizing scan with
  | nil => simp [entriesOf]
  | cons t trailers ih =>
    have hadd : scan.addField t.toHeaderField = { scan with
        entries := scan.entries ++ [t.entry], headerCount := scan.headerCount + 1 } := by
      have hname : t.entry.1 ≠ trailerSignatureName := t.name_ne_signature
      unfold TrailerScan.addField TrailerScan.add
      rw [if_neg hname]
    rw [List.map_cons, List.foldl_cons, hadd, ih]
    simp [entriesOf, Nat.add_comm, Nat.add_left_comm]

theorem addField_signature (scan : TrailerScan) (d : Sha256Sum) :
    scan.addField (signatureField d) =
      { scan with providedSignature := some d.hex, headerCount := scan.headerCount + 1 } := by
  have hname : (signatureField d).entry.1 = trailerSignatureName := by
    change Bytes.lowercase trailerSignatureName = trailerSignatureName
    decide
  unfold TrailerScan.addField TrailerScan.add
  rw [if_pos hname]
  rfl

/-- The canonical form of the trailers. -/
def canonicalOf (trailers : List Trailer) : Bytes :=
  ((sortEntries (entriesOf trailers)).map trailerLine).flatten

theorem canonicalTrailers_ok (entries : List (Bytes × Bytes)) (canonical : Bytes)
    (h : canonical.length + (entries.map trailerLine).flatten.length ≤ maxTrailersSize) :
    (canonicalTrailers canonical entries : Except (AwsChunkedStreamError ε) _) =
      .ok (canonical ++ (entries.map trailerLine).flatten) := by
  induction entries generalizing canonical with
  | nil => simp [canonicalTrailers]
  | cons e entries ih =>
    obtain ⟨n, v⟩ := e
    have hline : (trailerLine (n, v)).length = n.length + v.length + 2 := by
      simp [trailerLine, ascii]; omega
    rw [List.map_cons, List.flatten_cons, List.length_append, hline] at h
    rw [canonicalTrailers, if_neg (by omega), ih _ (by rw [List.length_append, hline]; omega), List.map_cons,
      List.flatten_cons, List.append_assoc]

/-- The fields of a block: the trailers and, with a signature, the field that carries it. -/
def blockFields (trailers : List Trailer) (signature : Option Sha256Sum) : List HeaderField :=
  trailers.map Trailer.toHeaderField ++ (signature.map signatureField).toList

/-- A block is read back as its trailers, its signature and its canonical form. -/
theorem parseTrailingHeaders_encodeBlock (layout : Layout) (trailers : List Trailer)
    (signature : Option Sha256Sum)
    (hcount : (blockFields trailers signature).length ≤ maxTrailerHeaders)
    (hsize : (canonicalOf trailers).length ≤ maxTrailersSize) :
    (parseTrailingHeaders (encodeBlock layout (blockFields trailers signature)) :
      Except (AwsChunkedStreamError ε) _) =
      .ok (canonicalOf trailers, signature.map Sha256Sum.hex, sortEntries (entriesOf trailers)) := by
  have hscan : ∃ n, (blockFields trailers signature).foldl TrailerScan.addField ⟨[], none, 0⟩ =
      ⟨entriesOf trailers, signature.map Sha256Sum.hex, n⟩ := by
    unfold blockFields
    rw [List.foldl_append, foldl_addField_trailers]
    cases signature with
    | none => exact ⟨_, rfl⟩
    | some d =>
      refine ⟨trailers.length + 1, ?_⟩
      simp only [Option.map_some, Option.toList_some, List.foldl_cons, List.foldl_nil,
        addField_signature, List.nil_append, Nat.zero_add]
  obtain ⟨n, hn⟩ := hscan
  unfold parseTrailingHeaders
  rw [scan_encodeBlock layout _ hcount, hn]
  simp only
  rw [canonicalTrailers_ok _ _ (by rw [List.length_nil, Nat.zero_add]; exact hsize)]
  rfl

theorem lowercase_token (f : HeaderField) : (Bytes.lowercase f.name).all isTokenChar = true := by
  rw [List.all_eq_true]
  intro c hc
  obtain ⟨d, hd, rfl⟩ := List.mem_map.mp hc
  exact (f.name_spec hd).2.2.2.2.2

theorem line_length_le_encodeFields (ending : BlockEnd) {fields : List HeaderField} {f : HeaderField}
    (hf : f ∈ fields) : f.line.length ≤ (encodeFields ending fields).length := by
  induction fields with
  | nil => exact (List.not_mem_nil hf).elim
  | cons g fields ih =>
    cases fields with
    | nil =>
      rw [List.mem_singleton] at hf
      rw [encodeFields, hf, List.length_append]
      omega
    | cons g' fields =>
      rw [encodeFields, List.length_append, List.length_append]
      · rcases List.mem_cons.mp hf with rfl | hf
        · omega
        · have := ih hf
          omega
      · simp

/-- The trailers of a block within the size limit are legal headers. -/
theorem buildTrailers_entries {X : Externals} (hX : Documented X) (entries : List (Bytes × Bytes))
    (h : ∀ e ∈ entries, ∃ f : HeaderField, e = f.entry ∧ f.name.length ≤ 65535) :
    buildTrailers X entries = some entries := by
  induction entries with
  | nil => rfl
  | cons e entries ih =>
    obtain ⟨f, rfl, hlen⟩ := h e List.mem_cons_self
    have hne : Bytes.lowercase f.name ≠ [] := by
      intro hnil
      exact f.name_ne_nil (List.map_eq_nil_iff.mp hnil)
    have hname := hX.headerName (Bytes.lowercase f.name) hne
      (by rw [Bytes.lowercase_length]; exact hlen) (lowercase_token f)
    rw [Bytes.lowercase_lowercase] at hname
    rw [HeaderField.entry, buildTrailers, hname, hX.headerValue f.value f.value_visible,
      ih fun e he => h e (List.mem_cons_of_mem _ he)]
    rfl

/-- The values recorded under a name. -/
def HeaderMap.getAll (map : HeaderMap) (name : Bytes) : List Bytes :=
  (map.filter fun e => e.1 == name).map Prod.snd

theorem le_refl_bytes (s : Bytes) : Bytes.le s s = true := by
  rcases Bytes.le_total s s with h | h
  · exact h
  · exact h

/-- Sorting by name keeps the values of every name, in their order. -/
theorem getAll_sortEntries (entries : List (Bytes × Bytes)) (name : Bytes) :
    HeaderMap.getAll (sortEntries entries) name = HeaderMap.getAll entries name := by
  have hstable : (entries.filter fun e => e.1 == name).Sublist
      ((sortEntries entries).filter fun e => e.1 == name) := by
    have hpair : (entries.filter fun e => e.1 == name).Pairwise
        fun a b => Bytes.le a.1 b.1 = true := by
      rw [List.pairwise_iff_forall_sublist]
      intro a b hab
      have ha := List.mem_filter.mp (hab.subset List.mem_cons_self)
      have hb := List.mem_filter.mp (hab.subset (List.mem_cons_of_mem _ List.mem_cons_self))
      rw [beq_iff_eq.mp ha.2, beq_iff_eq.mp hb.2]
      exact le_refl_bytes name
    have hsub := (List.sublist_insertionSort hpair List.filter_sublist).filter
      fun e => e.1 == name
    simp only [List.filter_filter, Bool.and_self] at hsub
    exact hsub
  have hlen : ((sortEntries entries).filter fun e => e.1 == name).length =
      (entries.filter fun e => e.1 == name).length :=
    ((List.perm_insertionSort _ entries).filter _).length_eq
  unfold HeaderMap.getAll
  rw [hstable.eq_of_length hlen.symm]

end S3s.AwsChunked
