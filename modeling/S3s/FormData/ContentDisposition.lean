import S3s.FormData.Header

/-! # Content-Disposition

The parameters of a part: a name and a file name, quoted or bare. Parsing stops at
the first parameter that is malformed.
-/
namespace S3s.FormData

/-- `eq_ignore_ascii_case` -/
def eqIgnoreAsciiCase (s t : Bytes) : Bool := Bytes.lowercase s == Bytes.lowercase t

/-- `ContentDisposition` -/
structure ContentDisposition where
  name : Option Bytes
  fileName : Option Bytes
deriving DecidableEq

/-- The scan of `parse_quoted` behind the first escape: how far the closing quote is. -/
def scanQuoted : Bool → Bytes → Option Nat
  | _, [] => none
  | true, _ :: input => (scanQuoted false input).map (· + 1)
  | false, byte :: input =>
    if byte = 92 then (scanQuoted true input).map (· + 1)
    else if byte = 34 then some 0
    else (scanQuoted false input).map (· + 1)

/-- `parse_quoted`: the text, and what follows the closing quote. -/
def parseQuoted (input : Bytes) : Option (Bytes × Bytes) :=
  if input.head? ≠ some 34 then none
  else do
    let idx ← (input.drop 1).findIdx? fun byte => byte == 34 || byte == 92
    let pos := idx + 1
    if input[pos]? = some 34 then some ((input.take pos).drop 1, input.drop (pos + 1))
    else
      let offset ← scanQuoted false (input.drop pos)
      some ((input.take (pos + offset)).drop 1, input.drop (pos + offset + 1))

/-- `skip_until_semicolon` -/
def skipUntilSemicolon (input : Bytes) : Bytes :=
  match input.findIdx? (· == 59) with
  | some idx => input.drop (idx + 1)
  | none => []

/-- The value of a parameter, and what follows it. -/
def parseValue (valueInput : Bytes) : Option (Bytes × Bytes) :=
  if valueInput.head? = some 34 then
    (parseQuoted valueInput).map fun value => (value.1, skipUntilSemicolon value.2)
  else
    match valueInput.findIdx? (· == 59) with
    | some idx => some (Bytes.trimBlank (valueInput.take idx), valueInput.drop (idx + 1))
    | none => some (Bytes.trimBlank valueInput, [])

/-- `parse_parameter`: the key, the value, and what follows them. -/
def parseParameter (input : Bytes) : Option (Bytes × Bytes × Bytes) :=
  let input := Bytes.trimBlank input
  match input.findIdx? (· == 61) with
  | none => none
  | some equals =>
    let key := Bytes.trimBlank (input.take equals)
    if key.isEmpty then none
    else (parseValue (Bytes.trimBlank (input.drop (equals + 1)))).map fun value => (key, value)

theorem trimmed_length_le (s : Bytes) : (Bytes.trimBlank s).length ≤ s.length :=
  (trimBlank_length_le s).trans (List.dropWhile_suffix _).length_le

theorem skipUntilSemicolon_length_le (input : Bytes) :
    (skipUntilSemicolon input).length ≤ input.length := by
  unfold skipUntilSemicolon
  split
  · rw [List.length_drop]
    omega
  · simp

theorem parseQuoted_length {input text next : Bytes} (h : parseQuoted input = some (text, next)) :
    next.length ≤ input.length := by
  unfold parseQuoted at h
  split at h
  · cases h
  · obtain ⟨idx, -, h⟩ := Option.bind_eq_some_iff.mp h
    dsimp only at h
    split at h
    · cases h
      rw [List.length_drop]
      omega
    · obtain ⟨offset, -, h⟩ := Option.bind_eq_some_iff.mp h
      cases h
      rw [List.length_drop]
      omega

theorem parseValue_length {input value next : Bytes} (h : parseValue input = some (value, next)) :
    next.length ≤ input.length := by
  unfold parseValue at h
  split at h
  · obtain ⟨⟨text, rest⟩, hquoted, heq⟩ := Option.map_eq_some_iff.mp h
    cases heq
    exact (skipUntilSemicolon_length_le rest).trans (parseQuoted_length hquoted)
  · split at h
    · cases h
      rw [List.length_drop]
      omega
    · cases h
      simp

/-- What follows a parameter is shorter. -/
theorem parseParameter_length {input key value next : Bytes}
    (h : parseParameter input = some (key, value, next)) : next.length < input.length := by
  unfold parseParameter at h
  dsimp only at h
  split at h
  · cases h
  · next equals hequals =>
    split at h
    · cases h
    · obtain ⟨⟨value', next'⟩, hvalue, heq⟩ := Option.map_eq_some_iff.mp h
      cases heq
      have hlt : equals < (Bytes.trimBlank input).length := by
        obtain ⟨hlt, -⟩ := List.findIdx?_eq_some_iff_getElem.mp hequals
        exact hlt
      have hvalue' := parseValue_length hvalue
      have htrim := trimmed_length_le ((Bytes.trimBlank input).drop (equals + 1))
      have hinput := trimmed_length_le input
      rw [List.length_drop] at htrim
      omega

/-- The loop of `parse_content_disposition` -/
def parseParameters (cd : ContentDisposition) (rest : Bytes) : ContentDisposition :=
  if (Bytes.trimBlank rest).isEmpty then cd
  else
    match h : parseParameter rest with
    | none => cd
    | some (key, value, next) =>
      if cd.name.isNone && eqIgnoreAsciiCase key (ascii "name") then
        parseParameters { cd with name := some value } next
      else if cd.fileName.isNone && eqIgnoreAsciiCase key (ascii "filename") then
        parseParameters { cd with fileName := some value } next
      else parseParameters cd next
termination_by rest.length
decreasing_by
  · exact parseParameter_length h
  · exact parseParameter_length h
  · exact parseParameter_length h

/-- `parse_content_disposition` -/
def parseContentDisposition (value : Bytes) : Option ContentDisposition :=
  let input := Bytes.trimBlank value
  match input.findIdx? (· == 59) with
  | none => if eqIgnoreAsciiCase input (ascii "form-data") then some ⟨none, none⟩ else none
  | some idx =>
    if eqIgnoreAsciiCase (Bytes.trimBlank (input.take idx)) (ascii "form-data") then
      some (parseParameters ⟨none, none⟩ (input.drop (idx + 1)))
    else none

example : parseContentDisposition (ascii "form-data; name=\"fi\\\"le\"; FILENAME = a.txt; x") =
    some ⟨some (ascii "fi\\\"le"), some (ascii "a.txt")⟩ := by
  decide +kernel

end S3s.FormData
