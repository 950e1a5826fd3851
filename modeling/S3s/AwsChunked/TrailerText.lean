import Mathlib.Data.List.ReduceOption
import Mathlib.Logic.Relation
import S3s.AwsChunked.Trailers
import S3s.Http.OrderedQs
import S3s.Library.Delimited
import S3s.Library.Trim

/-! # The signed text of the trailers

What is signed of a trailer block is its canonical text. It can be taken apart again,
so it determines the trailers that are delivered; and it is the same however the block
is spelled: with either end of line, with blanks around the values and empty lines
between the fields, with names in any case and lines in any order that keeps the
values of a name in theirs.
-/
namespace S3s.AwsChunked
open Sorted Http

variable {ε : Type}

section Readings

/-- What the lines that are not empty are read as. -/
def readings (lines : List Bytes) : List (Option (Bytes × Bytes)) :=
  ((lines.map stripCr).filter fun line => !line.isEmpty).map splitTrailer

/-- The fields that are no signature. -/
def withoutSignature (fields : List (Bytes × Bytes)) : List (Bytes × Bytes) :=
  fields.filter fun field => field.1 ≠ trailerSignatureName

/-- The entries of a block, unless a line is malformed or there are too many. -/
def entriesRead (fields : List (Option (Bytes × Bytes))) : Option (List (Bytes × Bytes)) :=
  if fields.length ≤ maxTrailerHeaders ∧ none ∉ fields then some (withoutSignature fields.reduceOption)
  else none

theorem readings_append (lines lines' : List Bytes) :
    readings (lines ++ lines') = readings lines ++ readings lines' := by
  simp [readings]

theorem readings_cons (line : Bytes) (lines : List Bytes) :
    readings (line :: lines) = readings [line] ++ readings lines :=
  readings_append [line] lines

theorem readings_of_empty {line : Bytes} (h : stripCr line = []) : readings [line] = [] := by
  simp [readings, h]

theorem readings_of_ne {line : Bytes} (h : stripCr line ≠ []) :
    readings [line] = [splitTrailer (stripCr line)] := by
  simp [readings, h]

theorem withoutSignature_append (fields fields' : List (Bytes × Bytes)) :
    withoutSignature (fields ++ fields') = withoutSignature fields ++ withoutSignature fields' :=
  List.filter_append _ _

theorem TrailerScan.entries_add (scan : TrailerScan) (field : Bytes × Bytes) :
    (scan.add field.1 field.2).entries = scan.entries ++ withoutSignature [field] := by
  by_cases h : field.1 = trailerSignatureName <;> simp [add, withoutSignature, h]

theorem TrailerScan.headerCount_add (scan : TrailerScan) (name value : Bytes) :
    (scan.add name value).headerCount = scan.headerCount := by
  unfold add
  split <;> rfl

/-- The scan of the lines sees what they are read as. -/
theorem scanTrailerLines_entries (lines : List Bytes) (scan : TrailerScan)
    (hcount : scan.headerCount ≤ maxTrailerHeaders) :
    (scanTrailerLines scan lines : Except (AwsChunkedStreamError ε) _).toOption.map
        TrailerScan.entries =
      if scan.headerCount + (readings lines).length ≤ maxTrailerHeaders ∧ none ∉ readings lines then
        some (scan.entries ++ withoutSignature (readings lines).reduceOption)
      else none := by
  induction lines generalizing scan with
  | nil => simp [scanTrailerLines, readings, Except.toOption, withoutSignature, hcount]
  | cons line lines ih =>
    rw [readings_cons]
    by_cases hempty : stripCr line = []
    · have hline : (scanTrailerLine scan line : Except (AwsChunkedStreamError ε) _) = .ok scan := by
        simp [scanTrailerLine, hempty]
      rw [scanTrailerLines, hline, readings_of_empty hempty]
      exact ih scan hcount
    · rw [readings_of_ne hempty]
      by_cases hroom : scan.headerCount + 1 ≤ maxTrailerHeaders
      · cases hsplit : splitTrailer (stripCr line) with
        | none =>
          have hline : (scanTrailerLine scan line : Except (AwsChunkedStreamError ε) _) =
              .error .formatError := by
            simp [scanTrailerLine, hempty, Nat.not_lt.mpr hroom, hsplit]
          simp [scanTrailerLines, hline, Except.toOption]
        | some field =>
          have hline : (scanTrailerLine scan line : Except (AwsChunkedStreamError ε) _) =
              .ok ({ scan with headerCount := scan.headerCount + 1 }.add field.1 field.2) := by
            simp [scanTrailerLine, hempty, Nat.not_lt.mpr hroom, hsplit]
          have hread := ih ({ scan with headerCount := scan.headerCount + 1 }.add field.1 field.2)
            (by rw [TrailerScan.headerCount_add]; exact hroom)
          rw [TrailerScan.headerCount_add, TrailerScan.entries_add] at hread
          simp only [scanTrailerLines, hline, hread]
          have hnone : none ∉ [some field] ++ readings lines ↔ none ∉ readings lines := by simp
          have hlength : scan.headerCount + 1 + (readings lines).length =
              scan.headerCount + ([some field] ++ readings lines).length := by
            simp only [List.length_append, List.length_singleton]
            omega
          simp only [hnone, ← hlength, List.reduceOption_append, withoutSignature_append,
            List.append_assoc]
          rfl
      · have hline : (scanTrailerLine scan line : Except (AwsChunkedStreamError ε) _) =
            .error (.tooManyTrailerHeaders (scan.headerCount + 1) maxTrailerHeaders) := by
          simp [scanTrailerLine, hempty, Nat.not_le.mp hroom]
        rw [scanTrailerLines, hline, if_neg]
        · rfl
        · rw [List.length_append, List.length_singleton]
          omega

/-- A block is accepted with its canonical text and its entries. -/
theorem parseTrailingHeaders_accepts {buf canonical : Bytes} {entries : List (Bytes × Bytes)} :
    (∃ signature, (parseTrailingHeaders buf : Except (AwsChunkedStreamError ε) _) =
        .ok (canonical, signature, entries)) ↔
      ∃ fields, entriesRead (readings (Bytes.splitLf buf)) = some fields ∧
        entries = sortEntries fields ∧
        (canonicalTrailers [] entries : Except (AwsChunkedStreamError ε) _) = .ok canonical := by
  have hread := scanTrailerLines_entries (ε := ε) (Bytes.splitLf buf) ⟨[], none, 0⟩ (Nat.zero_le _)
  simp only [Nat.zero_add, List.nil_append] at hread
  rw [entriesRead, ← hread, parseTrailingHeaders]
  cases (scanTrailerLines ⟨[], none, 0⟩ (Bytes.splitLf buf) : Except (AwsChunkedStreamError ε) _) with
  | error e => simp [Except.toOption]
  | ok scan =>
    simp only [Except.toOption, Option.map_some, Option.some.injEq]
    constructor
    · rintro ⟨signature, h⟩
      split at h
      · cases h
      · next text htext =>
        cases h
        exact ⟨_, rfl, rfl, htext⟩
    · rintro ⟨fields, rfl, rfl, htext⟩
      exact ⟨scan.providedSignature, by rw [htext]⟩

end Readings

section Lines

/-- A line that is split at its first colon. -/
theorem splitTrailer_append {name : Bytes} (rest : Bytes) (hname : 58 ∉ name) :
    splitTrailer (name ++ 58 :: rest) =
      match Bytes.fromUtf8 (Bytes.lowercase name), Bytes.fromUtf8 (Bytes.trimBlank rest) with
      | some name, some value => some (name, value)
      | _, _ => none := by
  have hidx : (name ++ 58 :: rest).idxOf? 58 = some name.length := by
    rw [idxOf?_append, List.idxOf?_eq_none_iff.mpr hname]
    simp [List.idxOf?_cons]
  have htake : (name ++ 58 :: rest).take name.length = name := List.take_left' rfl
  have hdrop : (name ++ 58 :: rest).drop (name.length + 1) = rest := by
    rw [← List.drop_drop, List.drop_left' rfl]
    rfl
  rw [splitTrailer, hidx]
  simp only [htake, hdrop] <;> rfl

theorem stripCr_append_colon (name rest : Bytes) :
    stripCr (name ++ 58 :: rest) = name ++ 58 :: stripCr rest := by
  cases hrest : rest.getLast? with
  | none =>
    obtain rfl := List.getLast?_eq_none_iff.mp hrest
    simp [stripCr, cr]
  | some c =>
    have hne : rest ≠ [] := by
      rintro rfl
      cases hrest
    have hlast : (name ++ 58 :: rest).getLast? = some c := by
      simp [List.getLast?_append, List.getLast?_cons, hrest]
    rw [stripCr, stripCr, hlast, hrest]
    by_cases hc : some c = some cr
    · rw [if_pos hc, if_pos hc, List.dropLast_append_of_ne_nil (by simp),
        List.dropLast_cons_of_ne_nil hne]
    · rw [if_neg hc, if_neg hc]

theorem stripCr_append_cr (line : Bytes) : stripCr (line ++ [cr]) = line := by simp [stripCr]

theorem stripCr_of_getLast {line : Bytes} (h : line.getLast? ≠ some cr) : stripCr line = line :=
  if_neg h

/-- Blanks around a value are trimmed off. -/
theorem trimBlank_pad {before after : Bytes} (value : Bytes)
    (hbefore : ∀ c ∈ before, Bytes.isBlank c = true) (hafter : ∀ c ∈ after, Bytes.isBlank c = true) :
    Bytes.trimBlank (before ++ value ++ after) = Bytes.trimBlank value := by
  change Trim.trim Bytes.isBlank (before ++ value ++ after) = Trim.trim Bytes.isBlank value
  rw [Trim.trim_append_right hafter, Trim.trim_append_left hbefore]

/-- The name that a line gives a value to. -/
def lineName (line : Bytes) : Option Bytes := (splitTrailer (stripCr line)).map Prod.fst

/-- The ways to write the lines of a block differently. -/
inductive Respelled : List Bytes → List Bytes → Prop
  | lineEnd (front back : List Bytes) (line : Bytes) (hline : line.getLast? ≠ some cr) :
      Respelled (front ++ (line ++ [cr]) :: back) (front ++ line :: back)
  | blanks (front back : List Bytes) (name before value after ending : Bytes) (hname : 58 ∉ name)
      (hbefore : ∀ c ∈ before, Bytes.isBlank c = true) (hafter : ∀ c ∈ after, Bytes.isBlank c = true)
      (hending : ending = [cr] ∨ ending = [] ∧ value.getLast? ≠ some cr) :
      Respelled (front ++ (name ++ 58 :: (before ++ value ++ after ++ ending)) :: back)
        (front ++ (name ++ 58 :: (value ++ ending)) :: back)
  | emptyLine (front back : List Bytes) (line : Bytes) (hline : line = [] ∨ line = [cr]) :
      Respelled (front ++ line :: back) (front ++ back)
  | letterCase (front back : List Bytes) (name name' rest : Bytes) (hname : 58 ∉ name)
      (hname' : 58 ∉ name') (hcase : Bytes.lowercase name = Bytes.lowercase name') :
      Respelled (front ++ (name ++ 58 :: rest) :: back) (front ++ (name' ++ 58 :: rest) :: back)
  | reorder (lines lines' : List Bytes) (hperm : lines.Perm lines')
      (hkeep : ∀ name ≠ trailerSignatureName,
        lines.filter (fun line => lineName line = some name) =
          lines'.filter fun line => lineName line = some name) :
      Respelled lines lines'

/-- A line may be replaced by one that is read the same way. -/
theorem readings_replace {line line' : Bytes} (front back : List Bytes)
    (h : readings [line] = readings [line']) :
    readings (front ++ line :: back) = readings (front ++ line' :: back) := by
  rw [readings_append, readings_append, readings_cons, readings_cons line', h]

theorem readings_congr {line line' : Bytes} (h : stripCr line = stripCr line') :
    readings [line] = readings [line'] := by
  simp [readings, h]

/-- Lines that are split at a colon are read by their names and what is left of their values. -/
theorem readings_field {name name' rest rest' : Bytes} (hname : 58 ∉ name) (hname' : 58 ∉ name')
    (hcase : Bytes.lowercase name = Bytes.lowercase name')
    (hrest : Bytes.trimBlank (stripCr rest) = Bytes.trimBlank (stripCr rest')) :
    readings [name ++ 58 :: rest] = readings [name' ++ 58 :: rest'] := by
  rw [readings_of_ne, readings_of_ne]
  · rw [stripCr_append_colon, stripCr_append_colon, splitTrailer_append _ hname,
      splitTrailer_append _ hname', hcase, hrest]
  · simp [stripCr_append_colon]
  · simp [stripCr_append_colon]

theorem trimBlank_stripCr_pad {before value after ending : Bytes}
    (hbefore : ∀ c ∈ before, Bytes.isBlank c = true) (hafter : ∀ c ∈ after, Bytes.isBlank c = true)
    (hending : ending = [cr] ∨ ending = [] ∧ value.getLast? ≠ some cr) :
    Bytes.trimBlank (stripCr (before ++ value ++ after ++ ending)) =
      Bytes.trimBlank (stripCr (value ++ ending)) := by
  rcases hending with rfl | ⟨rfl, hvalue⟩
  · rw [stripCr_append_cr, stripCr_append_cr, trimBlank_pad value hbefore hafter]
  · have hblank : Bytes.isBlank cr = false := rfl
    have hlast : (before ++ value ++ after).getLast? ≠ some cr := by
      intro hcr
      rw [List.getLast?_append, Option.or_eq_some_iff] at hcr
      rcases hcr with hcr | ⟨-, hcr⟩
      · have hmem := hafter cr (List.mem_of_getLast? hcr)
        rw [hblank] at hmem
        cases hmem
      · rw [List.getLast?_append, Option.or_eq_some_iff] at hcr
        rcases hcr with hcr | ⟨-, hcr⟩
        · exact hvalue hcr
        · have hmem := hbefore cr (List.mem_of_getLast? hcr)
          rw [hblank] at hmem
          cases hmem
    rw [List.append_nil, List.append_nil, stripCr_of_getLast hlast, stripCr_of_getLast hvalue,
      trimBlank_pad value hbefore hafter]

theorem mem_readings {lines : List Bytes} {field : Option (Bytes × Bytes)} (h : field ∈ readings lines) :
    ∃ line ∈ lines, field = splitTrailer (stripCr line) := by
  obtain ⟨stripped, hstripped, rfl⟩ := List.mem_map.mp h
  obtain ⟨line, hline, rfl⟩ := List.mem_map.mp (List.mem_filter.mp hstripped).1
  exact ⟨line, hline, rfl⟩

/-- The values read under a name are those of its lines. -/
theorem valuesOf_read (lines : List Bytes) {name : Bytes} (hname : name ≠ trailerSignatureName) :
    valuesOf (withoutSignature (readings lines).reduceOption) name =
      (lines.filter fun line => lineName line = some name).filterMap fun line =>
        (splitTrailer (stripCr line)).map Prod.snd := by
  have hkept (field : Bytes × Bytes) (h : field.1 = name) :
      decide (field.1 ≠ trailerSignatureName) = true := by
    rw [h]
    exact decide_eq_true hname
  rw [withoutSignature, valuesOf_filter hkept]
  induction lines with
  | nil => rfl
  | cons line lines ih =>
    rw [readings_cons, List.reduceOption_append, valuesOf_append, ih]
    by_cases hempty : stripCr line = []
    · have hline : lineName line = none := by simp [lineName, hempty, splitTrailer]
      rw [readings_of_empty hempty, List.filter_cons_of_neg (by simp [hline])]
      rfl
    · rw [readings_of_ne hempty]
      cases hsplit : splitTrailer (stripCr line) with
      | none =>
        have hline : lineName line = none := by simp [lineName, hsplit]
        rw [List.filter_cons_of_neg (by simp [hline])]
        rfl
      | some field =>
        have hline : lineName line = some field.1 := by simp [lineName, hsplit]
        by_cases hkey : field.1 = name
        · simp [hline, hkey, hsplit, List.reduceOption, valuesOf]
        · simp [hline, hkey, List.reduceOption, valuesOf]

/-- Lines in another order, with the values of a name in theirs, give the same sorted entries. -/
theorem entriesRead_reorder {lines lines' : List Bytes} (hperm : lines.Perm lines')
    (hkeep : ∀ name ≠ trailerSignatureName,
      lines.filter (fun line => lineName line = some name) =
        lines'.filter fun line => lineName line = some name) :
    (entriesRead (readings lines)).map sortEntries = (entriesRead (readings lines')).map sortEntries := by
  have hreadings : (readings lines).Perm (readings lines') := ((hperm.map _).filter _).map _
  have hsorted : sortEntries (withoutSignature (readings lines).reduceOption) =
      sortEntries (withoutSignature (readings lines').reduceOption) := by
    apply insertionSort_eq_of_valuesOf bytes_isOrder
    intro name
    by_cases hname : name = trailerSignatureName
    · have hnil (fields : List (Bytes × Bytes)) : valuesOf (withoutSignature fields) name = [] := by
        rw [valuesOf_eq_nil_iff]
        intro field hfield
        rw [hname]
        exact of_decide_eq_true (List.mem_filter.mp hfield).2
      rw [hnil, hnil]
    · rw [valuesOf_read lines hname, valuesOf_read lines' hname, hkeep name hname]
  have haccepts : ((readings lines).length ≤ maxTrailerHeaders ∧ none ∉ readings lines) ↔
      ((readings lines').length ≤ maxTrailerHeaders ∧ none ∉ readings lines') := by
    rw [hreadings.length_eq, hreadings.mem_iff]
  by_cases h : (readings lines).length ≤ maxTrailerHeaders ∧ none ∉ readings lines
  · rw [entriesRead, entriesRead, if_pos h, if_pos (haccepts.mp h), Option.map_some, Option.map_some,
      hsorted]
  · rw [entriesRead, entriesRead, if_neg h, if_neg fun h' => h (haccepts.mpr h')]

/-- However the lines are written, they give the same sorted entries. -/
theorem Respelled.entriesRead {lines lines' : List Bytes} (h : Respelled lines lines') :
    (entriesRead (readings lines)).map sortEntries =
      (AwsChunked.entriesRead (readings lines')).map sortEntries := by
  cases h with
  | lineEnd front back line hline =>
    rw [readings_replace front back]
    exact readings_congr ((stripCr_append_cr line).trans (stripCr_of_getLast hline).symm)
  | blanks front back name before value after ending hname hbefore hafter hending =>
    rw [readings_replace front back]
    exact readings_field hname hname rfl (trimBlank_stripCr_pad hbefore hafter hending)
  | emptyLine front back line hline =>
    have hempty : stripCr line = [] := by
      rcases hline with rfl | rfl <;> rfl
    rw [readings_append, readings_cons, readings_of_empty hempty, List.nil_append, readings_append]
  | letterCase front back name name' rest hname hname' hcase =>
    rw [readings_replace front back]
    exact readings_field hname hname' hcase rfl
  | reorder _ _ hperm hkeep => exact entriesRead_reorder hperm hkeep

/-- The same block in any spelling has the same sorted entries. -/
theorem entriesRead_of_eqvGen {lines lines' : List Bytes}
    (h : Relation.EqvGen Respelled lines lines') :
    (entriesRead (readings lines)).map sortEntries = (entriesRead (readings lines')).map sortEntries := by
  induction h with
  | rel _ _ h => exact h.entriesRead
  | refl _ => rfl
  | symm _ _ _ ih => exact ih.symm
  | trans _ _ _ _ _ ih ih' => exact ih.trans ih'

end Lines

section Text

/-- A field as it stands in the canonical text. -/
def fieldText (field : Bytes × Bytes) : Bytes := field.1 ++ 58 :: field.2

/-- Fields that can be told apart in the canonical text. -/
def Separable (fields : List (Bytes × Bytes)) : Prop :=
  ∀ field ∈ fields, 58 ∉ field.1 ∧ lf ∉ field.1 ∧ lf ∉ field.2

theorem canonicalTrailers_text {entries : List (Bytes × Bytes)} {start canonical : Bytes}
    (h : (canonicalTrailers start entries : Except (AwsChunkedStreamError ε) _) = .ok canonical) :
    canonical = start ++ Delimited.block lf (entries.map fieldText) := by
  induction entries generalizing start with
  | nil =>
    cases h
    simp
  | cons entry entries ih =>
    rw [canonicalTrailers] at h
    split at h
    · cases h
    · rw [ih h, List.map_cons, Delimited.block_cons]
      simp [trailerLine, fieldText, ascii, lf]

/-- The canonical text can be taken apart. -/
theorem block_fieldText_inj {fields fields' : List (Bytes × Bytes)} (h : Separable fields)
    (h' : Separable fields')
    (htext : Delimited.block lf (fields.map fieldText) = Delimited.block lf (fields'.map fieldText)) :
    fields = fields' := by
  have hplain (fields : List (Bytes × Bytes)) (h : Separable fields) :
      Delimited.Plain lf (fields.map fieldText) := by
    intro text htext
    obtain ⟨field, hfield, rfl⟩ := List.mem_map.mp htext
    obtain ⟨-, hname, hvalue⟩ := h field hfield
    refine ⟨by simp [fieldText], ?_⟩
    rw [fieldText, List.mem_append, List.mem_cons]
    rintro (hmem | hmem | hmem)
    · exact hname hmem
    · cases hmem
    · exact hvalue hmem
  have hclosed := congrArg (· ++ [lf]) htext
  obtain ⟨hmap, -⟩ := Delimited.block_inj (hplain fields h) (hplain fields' h') hclosed
  refine Delimited.map_inj_of_inj ?_ hmap
  intro field hfield field' hfield' heq
  obtain ⟨hname, hvalue⟩ := Delimited.append_cons_inj (h field hfield).1 (h' field' hfield').1 heq
  exact Prod.ext hname hvalue

theorem not_mem_lowercase {c : UInt8} {s : Bytes} (hc : c < 65) (h : c ∉ s) : c ∉ Bytes.lowercase s := by
  intro hmem
  obtain ⟨b, hb, hlower⟩ := List.mem_map.mp hmem
  have hsame : b = c := by
    unfold Bytes.toLower at hlower
    grind
  exact h (hsame ▸ hb)

theorem lf_not_mem_of_mem_splitLf {buf line : Bytes} (h : line ∈ Bytes.splitLf buf) : lf ∉ line := by
  induction buf generalizing line with
  | nil =>
    obtain rfl := List.mem_singleton.mp h
    exact List.not_mem_nil
  | cons b buf ih =>
    rw [Bytes.splitLf] at h
    split at h
    · rcases List.mem_cons.mp h with rfl | hline
      · exact List.not_mem_nil
      · exact ih hline
    · next hb =>
      cases hlines : Bytes.splitLf buf with
      | nil =>
        rw [hlines] at h
        obtain rfl := List.mem_singleton.mp h
        simpa using Ne.symm hb
      | cons first lines =>
        rw [hlines] at h ih
        rcases List.mem_cons.mp h with rfl | hline
        · rw [List.mem_cons, not_or]
          exact ⟨Ne.symm hb, ih List.mem_cons_self⟩
        · exact ih (List.mem_cons_of_mem _ hline)

theorem splitTrailer_separable {line : Bytes} {field : Bytes × Bytes} (hlf : lf ∉ line)
    (h : splitTrailer line = some field) : 58 ∉ field.1 ∧ lf ∉ field.1 ∧ lf ∉ field.2 := by
  have hcolon : 58 ∈ line := by
    by_contra hno
    rw [splitTrailer, List.idxOf?_eq_none_iff.mpr hno] at h
    cases h
  obtain ⟨name, rest, rfl, hname⟩ := List.eq_append_cons_of_mem hcolon
  rw [List.mem_append, List.mem_cons, not_or, not_or] at hlf
  rw [splitTrailer_append rest hname] at h
  split at h
  · next name' value hname' hvalue =>
    cases h
    obtain rfl := Option.some.inj (Option.ite_none_right_eq_some.mp hname').2
    obtain rfl := Option.some.inj (Option.ite_none_right_eq_some.mp hvalue).2
    refine ⟨not_mem_lowercase (by decide) hname, not_mem_lowercase (by decide) hlf.1, ?_⟩
    exact fun hmem => hlf.2.2 (Trim.mem_of_mem_trim hmem)
  · cases h

theorem not_mem_stripCr {c : UInt8} {line : Bytes} (h : c ∉ line) : c ∉ stripCr line := by
  unfold stripCr
  split
  · exact fun hmem => h ((List.dropLast_sublist line).subset hmem)
  · exact h

/-- The entries of an accepted block are told apart in its text, and none is the signature. -/
theorem entriesRead_spec {buf : Bytes} {fields : List (Bytes × Bytes)}
    (h : entriesRead (readings (Bytes.splitLf buf)) = some fields) {field : Bytes × Bytes}
    (hfield : field ∈ fields) :
    (58 ∉ field.1 ∧ lf ∉ field.1 ∧ lf ∉ field.2) ∧ field.1 ≠ trailerSignatureName := by
  rw [entriesRead, Option.ite_none_right_eq_some] at h
  obtain rfl := Option.some.inj h.2
  obtain ⟨hread, hname⟩ := List.mem_filter.mp hfield
  obtain ⟨line, hline, heq⟩ := mem_readings (List.reduceOption_mem_iff.mp hread)
  exact ⟨splitTrailer_separable (not_mem_stripCr (lf_not_mem_of_mem_splitLf hline)) heq.symm,
    of_decide_eq_true hname⟩

/-- The canonical text of a block determines its entries and is the same in every spelling
of the block, and the signature is not among the entries. -/
theorem parseTrailingHeaders_canonical :
    (∀ (buf buf' canonical : Bytes) (signature signature' : Option Bytes)
        (entries entries' : List (Bytes × Bytes)),
      (parseTrailingHeaders buf : Except (AwsChunkedStreamError ε) _) =
          .ok (canonical, signature, entries) →
        (parseTrailingHeaders buf' : Except (AwsChunkedStreamError ε) _) =
          .ok (canonical, signature', entries') →
        entries = entries') ∧
      (∀ buf buf' : Bytes, Relation.EqvGen Respelled (Bytes.splitLf buf) (Bytes.splitLf buf') →
        ∀ (canonical : Bytes) (entries : List (Bytes × Bytes)),
          (∃ signature, (parseTrailingHeaders buf : Except (AwsChunkedStreamError ε) _) =
              .ok (canonical, signature, entries)) ↔
            ∃ signature, (parseTrailingHeaders buf' : Except (AwsChunkedStreamError ε) _) =
              .ok (canonical, signature, entries)) ∧
      ∀ (buf canonical : Bytes) (signature : Option Bytes) (entries : List (Bytes × Bytes)),
        (parseTrailingHeaders buf : Except (AwsChunkedStreamError ε) _) =
            .ok (canonical, signature, entries) →
          ∀ entry ∈ entries, entry.1 ≠ trailerSignatureName := by
  have hsorted (fields : List (Bytes × Bytes)) : (sortEntries fields).Perm fields :=
    List.perm_insertionSort _ _
  refine ⟨?_, ?_, ?_⟩
  · intro buf buf' canonical signature signature' entries entries' h h'
    obtain ⟨fields, hread, rfl, htext⟩ := parseTrailingHeaders_accepts.mp ⟨signature, h⟩
    obtain ⟨fields', hread', rfl, htext'⟩ := parseTrailingHeaders_accepts.mp ⟨signature', h'⟩
    apply block_fieldText_inj
    · exact fun field hfield => (entriesRead_spec hread ((hsorted fields).mem_iff.mp hfield)).1
    · exact fun field hfield => (entriesRead_spec hread' ((hsorted fields').mem_iff.mp hfield)).1
    · exact (canonicalTrailers_text htext).symm.trans (canonicalTrailers_text htext')
  · intro buf buf' hspelled canonical entries
    have hread := entriesRead_of_eqvGen hspelled
    have hsome (buf : Bytes) : (∃ fields, entriesRead (readings (Bytes.splitLf buf)) = some fields ∧
        entries = sortEntries fields ∧
        (canonicalTrailers [] entries : Except (AwsChunkedStreamError ε) _) = .ok canonical) ↔
        (entriesRead (readings (Bytes.splitLf buf))).map sortEntries = some entries ∧
          (canonicalTrailers [] entries : Except (AwsChunkedStreamError ε) _) = .ok canonical := by
      rw [Option.map_eq_some_iff]
      constructor
      · rintro ⟨fields, hfields, rfl, htext⟩
        exact ⟨⟨fields, hfields, rfl⟩, htext⟩
      · rintro ⟨⟨fields, hfields, rfl⟩, htext⟩
        exact ⟨fields, hfields, rfl, htext⟩
    rw [parseTrailingHeaders_accepts, parseTrailingHeaders_accepts, hsome, hsome, hread]
  · intro buf canonical signature entries h entry hentry
    obtain ⟨fields, hread, rfl, -⟩ := parseTrailingHeaders_accepts.mp ⟨signature, h⟩
    exact (entriesRead_spec hread ((hsorted fields).mem_iff.mp hentry)).2

/-- A carriage return in front of an end of line belongs to the value, so it counts which end
of line follows it. -/
theorem parseTrailingHeaders_crlf_matters :
    (parseTrailingHeaders (ascii "a:b\r" ++ crlf) : Except (AwsChunkedStreamError Empty) _) =
        .ok (ascii "a:b\r" ++ [lf], none, [(ascii "a", ascii "b\r")]) ∧
      (parseTrailingHeaders (ascii "a:b\r" ++ [lf]) : Except (AwsChunkedStreamError Empty) _) =
        .ok (ascii "a:b" ++ [lf], none, [(ascii "a", ascii "b")]) :=
  ⟨by rfl, by rfl⟩

end Text

end S3s.AwsChunked
