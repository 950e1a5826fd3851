import S3s.AwsChunked.Recognisers
import S3s.FormData.ContentDisposition
import S3s.Library.Trim

/-! # Well-formed dispositions

A disposition is written parameter by parameter, with blanks at the sender's choice
around the separators. Whatever the values hold, also separators and escapes between
quotes, it is read as the first name and the first file name among its parameters.
-/
namespace S3s.FormData
open Trim AwsChunked

section Grammar

/-- Spaces and tabs. -/
abbrev Blanks := { s : Bytes // ∀ c ∈ s, Bytes.isBlank c = true }

/-- The text of a quoted string: letters other than a quote and a backslash, and backslashes with
what they escape. -/
inductive Quoted : Bytes → Prop
  | nil : Quoted []
  | letter {c : UInt8} {text : Bytes} (hquote : c ≠ 34) (hescape : c ≠ 92) (h : Quoted text) :
      Quoted (c :: text)
  | escape (c : UInt8) {text : Bytes} (h : Quoted text) : Quoted (92 :: c :: text)

/-- The value of a parameter: a bare word, which holds no semicolon and starts with no quote, or a
quoted string. -/
inductive ParameterValue where
  | bare (text : Bytes) (hsemicolon : 59 ∉ text) (hquote : text.head? ≠ some 34)
      (hends : Bytes.trimBlank text = text)
  | quoted (text : Bytes) (h : Quoted text)

namespace ParameterValue

/-- The text of a value as it is handed out. -/
def text : ParameterValue → Bytes
  | bare text _ _ _ => text
  | quoted text _ => text

def bytes : ParameterValue → Bytes
  | bare text _ _ _ => text
  | quoted text _ => 34 :: text ++ [34]

end ParameterValue

/-- A parameter, with the blanks around its name and its value. -/
structure Parameter where
  name : Bytes
  value : ParameterValue
  beforeName : Blanks
  afterName : Blanks
  beforeValue : Blanks
  afterValue : Blanks
  name_ne_nil : name ≠ []
  name_token : name.all isTokenChar = true

def Parameter.bytes (p : Parameter) : Bytes :=
  p.beforeName.val ++ p.name ++ p.afterName.val ++
    61 :: (p.beforeValue.val ++ p.value.bytes ++ p.afterValue.val)

/-- The name of a parameter, in any case. -/
def Parameter.Named (p : Parameter) (name : Bytes) : Bool := eqIgnoreAsciiCase p.name name

/-- A disposition of form data, with the blanks around its type. -/
structure Disposition where
  kind : Bytes
  before : Blanks
  after : Blanks
  parameters : List Parameter
  kind_form_data : eqIgnoreAsciiCase kind (ascii "form-data") = true

/-- The parameters, each behind a semicolon. -/
def parametersText (parameters : List Parameter) : Bytes := parameters.flatMap fun p => 59 :: p.bytes

def Disposition.bytes (d : Disposition) : Bytes :=
  d.before.val ++ d.kind ++ d.after.val ++ parametersText d.parameters

/-- The text of the first parameter of a name. -/
def valueOf (parameters : List Parameter) (name : Bytes) : Option Bytes :=
  (parameters.find? fun p => p.Named name).map fun p => p.value.text

end Grammar

section Quotes

/-- The scan behind an escape stops at the closing quote. -/
theorem scanQuoted_quoted {text : Bytes} (h : Quoted text) (next : Bytes) :
    scanQuoted false (text ++ 34 :: next) = some text.length := by
  induction h with
  | nil => rfl
  | letter hquote hescape _ ih => simp [scanQuoted, hquote, hescape, ih]
  | escape c _ ih => simp [scanQuoted, ih]

/-- A quoted string is its letters up to the first backslash, and the rest. -/
theorem Quoted.split {text : Bytes} (h : Quoted text) :
    ∃ front back, text = front ++ back ∧ (∀ c ∈ front, c ≠ 34 ∧ c ≠ 92) ∧ Quoted back ∧
      (back = [] ∨ back.head? = some 92) := by
  induction h with
  | nil => exact ⟨[], [], rfl, by simp, Quoted.nil, Or.inl rfl⟩
  | letter hquote hescape _ ih =>
    obtain ⟨front, back, rfl, hfront, hback, hhead⟩ := ih
    exact ⟨_ :: front, back, rfl, List.forall_mem_cons.mpr ⟨⟨hquote, hescape⟩, hfront⟩, hback, hhead⟩
  | escape c h _ => exact ⟨[], _, rfl, by simp, Quoted.escape c h, Or.inr rfl⟩

theorem parseQuoted_cons (s : Bytes) :
    parseQuoted (34 :: s) =
      (s.findIdx? fun byte => byte == 34 || byte == 92).bind fun idx =>
        if s[idx]? = some 34 then some (s.take idx, s.drop (idx + 1))
        else (scanQuoted false (s.drop idx)).bind fun offset =>
          some (s.take (idx + offset), s.drop (idx + offset + 1)) := by
  rw [parseQuoted, if_neg (by simp)]
  simp only [List.drop_succ_cons, List.drop_zero, Option.bind_eq_bind, List.getElem?_cons_succ,
    List.take_succ_cons, Nat.add_right_comm _ 1 _]

/-- A quoted string is read up to its closing quote, with its escapes as they are. -/
theorem parseQuoted_quoted {text : Bytes} (h : Quoted text) (next : Bytes) :
    parseQuoted (34 :: (text ++ 34 :: next)) = some (text, next) := by
  obtain ⟨front, back, rfl, hfront, hback, hhead⟩ := h.split
  have hnone : front.findIdx? (fun byte => byte == 34 || byte == 92) = none := by
    rw [List.findIdx?_eq_none_iff]
    intro c hc
    simp [hfront c hc]
  have hdrop : (front ++ (back ++ 34 :: next)).drop front.length = back ++ 34 :: next := List.drop_left
  rw [parseQuoted_cons, List.append_assoc]
  rcases hhead with rfl | hhead
  · -- Without an escape the first quote closes the string.
    have hidx : (front ++ ([] ++ 34 :: next)).findIdx? (fun byte => byte == 34 || byte == 92) =
        some front.length := by
      simp [List.findIdx?_append, hnone, List.findIdx?_cons]
    rw [hidx, Option.bind_some, if_pos (by simp), List.take_left, ← List.drop_drop, hdrop]
    simp
  · have hidx : (front ++ (back ++ 34 :: next)).findIdx? (fun byte => byte == 34 || byte == 92) =
        some front.length := by
      obtain ⟨back, rfl⟩ := List.head?_eq_some_iff.mp hhead
      simp [List.findIdx?_append, hnone, List.findIdx?_cons]
    have hescape : (front ++ (back ++ 34 :: next))[front.length]? ≠ some 34 := by
      obtain ⟨back, rfl⟩ := List.head?_eq_some_iff.mp hhead
      simp
    rw [hidx, Option.bind_some, if_neg hescape, hdrop, scanQuoted_quoted hback next, Option.bind_some,
      ← List.append_assoc, ← List.length_append, List.take_left, ← List.drop_drop, List.drop_left]
    rfl

end Quotes

section Parameters

theorem findIdx?_separator {c : UInt8} {front : Bytes} (back : Bytes) (h : c ∉ front) :
    (front ++ c :: back).findIdx? (· == c) = some front.length := by
  have hnone : front.findIdx? (· == c) = none := by
    rw [List.findIdx?_eq_none_iff]
    intro b hb
    rw [beq_eq_false_iff_ne]
    rintro rfl
    exact h hb
  simp [List.findIdx?_append, hnone, List.findIdx?_cons]

theorem findIdx?_no_separator {c : UInt8} {s : Bytes} (h : c ∉ s) : s.findIdx? (· == c) = none := by
  rw [List.findIdx?_eq_none_iff]
  intro b hb
  rw [beq_eq_false_iff_ne]
  rintro rfl
  exact h hb

theorem not_mem_of_blank {c : UInt8} {s : Bytes} (hc : Bytes.isBlank c = false)
    (h : ∀ b ∈ s, Bytes.isBlank b = true) : c ∉ s := by
  intro hmem
  rw [h c hmem] at hc
  cases hc

/-- What may follow a value: nothing, or a semicolon and the rest. -/
inductive Follows : Bytes → Bytes → Prop
  | nothing : Follows [] []
  | semicolon (rest : Bytes) : Follows (59 :: rest) rest

theorem skipUntilSemicolon_append {blanks : Bytes} (rest : Bytes)
    (h : ∀ b ∈ blanks, Bytes.isBlank b = true) :
    skipUntilSemicolon (blanks ++ 59 :: rest) = rest := by
  have hno : 59 ∉ blanks := not_mem_of_blank rfl h
  rw [skipUntilSemicolon, findIdx?_separator rest hno]
  simp only
  rw [← List.drop_drop, List.drop_left]
  rfl

theorem trimBlank_eq (s : Bytes) : Bytes.trimBlank s = trim Bytes.isBlank s := rfl

/-- A value is read up to what follows it, which stays as it is but for blanks at its end. -/
theorem parseValue_bytes (value : ParameterValue) {blanks tail rest : Bytes}
    (hblanks : ∀ b ∈ blanks, Bytes.isBlank b = true) (htail : Follows tail rest) :
    ∃ next, parseValue (Bytes.trimBlank (value.bytes ++ blanks ++ tail)) = some (value.text, next) ∧
      Bytes.trimBlank next = Bytes.trimBlank rest := by
  cases value with
  | quoted text h =>
    have hstart : Bytes.trimBlank (34 :: text ++ [34] ++ blanks ++ tail) =
        34 :: (text ++ 34 :: (blanks ++ tail).rdropWhile Bytes.isBlank) := by
      have hshape : 34 :: text ++ [34] ++ blanks ++ tail = 34 :: text ++ 34 :: (blanks ++ tail) := by simp
      rw [hshape, trimBlank_eq, trim_append_cons rfl]
      simp [Bytes.isBlank]
    rw [ParameterValue.bytes, hstart, parseValue, if_pos (by rfl), parseQuoted_quoted h]
    refine ⟨_, rfl, ?_⟩
    cases htail with
    | nothing =>
      rw [List.append_nil, List.rdropWhile_eq_nil_iff.mpr hblanks]
      rfl
    | semicolon rest =>
      rw [rdropWhile_append_cons rfl, skipUntilSemicolon_append _ hblanks, trimBlank_eq, trim_rdropWhile]
      rfl
  | bare text hsemicolon hquote hends =>
    cases htail with
    | nothing =>
      have hword : Bytes.trimBlank (text ++ blanks ++ []) = text := by
        rw [List.append_nil, trimBlank_eq, trim_append_right hblanks]
        exact hends
      rw [ParameterValue.bytes, hword, parseValue, if_neg hquote, findIdx?_no_separator hsemicolon]
      exact ⟨[], by rw [hends]; rfl, rfl⟩
    | semicolon rest =>
      have hword : Bytes.trimBlank (text ++ blanks ++ 59 :: rest) =
          (text ++ blanks).dropWhile Bytes.isBlank ++ 59 :: rest.rdropWhile Bytes.isBlank :=
        trim_append_cons rfl _ _
      have hno : 59 ∉ (text ++ blanks).dropWhile Bytes.isBlank := by
        intro hmem
        rcases List.mem_append.mp ((List.dropWhile_sublist _).subset hmem) with hmem | hmem
        · exact hsemicolon hmem
        · exact not_mem_of_blank rfl hblanks hmem
      have htext : Bytes.trimBlank ((text ++ blanks).dropWhile Bytes.isBlank) = text := by
        rw [trimBlank_eq, trim_dropWhile, trim_append_right hblanks]
        exact hends
      have hhead : ((text ++ blanks).dropWhile Bytes.isBlank ++
          59 :: rest.rdropWhile Bytes.isBlank).head? ≠ some 34 := by
        cases text with
        | nil =>
          rw [List.nil_append, List.dropWhile_eq_nil_iff.mpr hblanks]
          simp
        | cons c text =>
          have hc : Bytes.isBlank c = false := head_of_trim_eq hends
          simpa [hc] using hquote
      rw [ParameterValue.bytes, hword, parseValue, if_neg hhead, findIdx?_separator _ hno]
      simp only
      rw [List.take_left, htext, ← List.drop_drop, List.drop_left]
      exact ⟨_, rfl, trim_rdropWhile rest⟩

/-- A name holds no blank, no equals sign and no semicolon. -/
theorem Parameter.name_spec (p : Parameter) {c : UInt8} (hc : c ∈ p.name) :
    Bytes.isBlank c = false ∧ c ≠ 61 := by
  have key : isTokenChar c = true → Bytes.isBlank c = false ∧ c ≠ 61 := by
    apply forall_byte (p := fun c => isTokenChar c = true → Bytes.isBlank c = false ∧ c ≠ 61)
    decide +kernel
  exact key (List.all_eq_true.mp p.name_token c hc)

theorem Parameter.trim_name (p : Parameter) : Bytes.trimBlank p.name = p.name := by
  apply Bytes.trimBlank_of_ends
  · exact fun c hc => (p.name_spec (List.mem_of_mem_head? hc)).1
  · exact fun c hc => (p.name_spec (List.mem_of_mem_getLast? hc)).1

/-- A parameter is read up to what follows it. -/
theorem parseParameter_bytes (p : Parameter) {tail rest : Bytes} (htail : Follows tail rest) :
    ∃ next, parseParameter (p.bytes ++ tail) = some (p.name, p.value.text, next) ∧
      Bytes.trimBlank next = Bytes.trimBlank rest := by
  obtain ⟨next, hvalue, hnext⟩ := parseValue_bytes p.value p.afterValue.2 htail
  refine ⟨next, ?_, hnext⟩
  have hcut : Bytes.trimBlank (p.bytes ++ tail) =
      (p.beforeName.val ++ p.name ++ p.afterName.val).dropWhile Bytes.isBlank ++
        61 :: (p.beforeValue.val ++ (p.value.bytes ++ p.afterValue.val ++ tail)).rdropWhile
          Bytes.isBlank := by
    rw [Parameter.bytes, List.append_assoc _ (61 :: _), List.cons_append, trimBlank_eq,
      trim_append_cons rfl]
    simp only [List.append_assoc]
  have hno : 61 ∉ (p.beforeName.val ++ p.name ++ p.afterName.val).dropWhile Bytes.isBlank := by
    intro hmem
    have hmem := (List.dropWhile_sublist _).subset hmem
    rw [List.mem_append, List.mem_append] at hmem
    rcases hmem with (hmem | hmem) | hmem
    · exact not_mem_of_blank rfl p.beforeName.2 hmem
    · exact (p.name_spec hmem).2 rfl
    · exact not_mem_of_blank rfl p.afterName.2 hmem
  have hkey : Bytes.trimBlank
      ((p.beforeName.val ++ p.name ++ p.afterName.val).dropWhile Bytes.isBlank) = p.name := by
    rw [trimBlank_eq, trim_dropWhile, trim_append_right p.afterName.2, trim_append_left p.beforeName.2]
    exact p.trim_name
  have hinput : Bytes.trimBlank
      ((p.beforeValue.val ++ (p.value.bytes ++ p.afterValue.val ++ tail)).rdropWhile Bytes.isBlank) =
        Bytes.trimBlank (p.value.bytes ++ p.afterValue.val ++ tail) := by
    rw [trimBlank_eq, trim_rdropWhile, trim_append_left p.beforeValue.2]
    rfl
  simp only [parseParameter, hcut, findIdx?_separator _ hno, List.take_left, hkey]
  rw [if_neg (by simpa using p.name_ne_nil), ← List.drop_drop, List.drop_left, List.drop_succ_cons,
    List.drop_zero, hinput, hvalue, Option.map_some]

end Parameters

section Run

/-- The parameters that a disposition has after another one is read. -/
def ContentDisposition.add (cd : ContentDisposition) (key value : Bytes) : ContentDisposition :=
  if cd.name.isNone && eqIgnoreAsciiCase key (ascii "name") then { cd with name := some value }
  else if cd.fileName.isNone && eqIgnoreAsciiCase key (ascii "filename") then
    { cd with fileName := some value }
  else cd

theorem parseParameters_blank (cd : ContentDisposition) {rest : Bytes} (h : Bytes.trimBlank rest = []) :
    parseParameters cd rest = cd := by
  rw [parseParameters, if_pos (by simp [h])]

theorem parseParameters_step (cd : ContentDisposition) {rest key value next : Bytes}
    (hne : Bytes.trimBlank rest ≠ []) (h : parseParameter rest = some (key, value, next)) :
    parseParameters cd rest = parseParameters (cd.add key value) next := by
  rw [parseParameters, if_neg (by simpa using hne)]
  split
  · next hnone =>
    rw [h] at hnone
    cases hnone
  · next key' value' next' hsome =>
    rw [h] at hsome
    cases hsome
    unfold ContentDisposition.add
    split_ifs <;> rfl

theorem parseParameters_malformed (cd : ContentDisposition) {rest : Bytes}
    (h : parseParameter rest = none) : parseParameters cd rest = cd := by
  rw [parseParameters]
  split_ifs
  · rfl
  · split
    · rfl
    · next hsome =>
      rw [h] at hsome
      cases hsome

/-- Blanks around the parameters do not matter. -/
theorem parseParameters_trim (cd : ContentDisposition) {rest rest' : Bytes}
    (h : Bytes.trimBlank rest = Bytes.trimBlank rest') :
    parseParameters cd rest = parseParameters cd rest' := by
  have hsame : parseParameter rest = parseParameter rest' := by
    rw [parseParameter, parseParameter, h]
  by_cases hempty : Bytes.trimBlank rest = []
  · rw [parseParameters_blank cd hempty, parseParameters_blank cd (h ▸ hempty)]
  · cases hparameter : parseParameter rest with
    | none => rw [parseParameters_malformed cd hparameter, parseParameters_malformed cd (hsame ▸ hparameter)]
    | some found =>
      obtain ⟨key, value, next⟩ := found
      rw [parseParameters_step cd hempty hparameter,
        parseParameters_step cd (h ▸ hempty) (hsame ▸ hparameter)]

/-- The parameters without the semicolon in front of them. -/
def restText : List Parameter → Bytes
  | [] => []
  | p :: parameters => p.bytes ++ parametersText parameters

theorem follows_parametersText (parameters : List Parameter) :
    Follows (parametersText parameters) (restText parameters) := by
  cases parameters with
  | nil => exact Follows.nothing
  | cons p parameters => exact Follows.semicolon _

theorem parseParameters_restText (parameters : List Parameter) (cd : ContentDisposition) :
    parseParameters cd (restText parameters) =
      parameters.foldl (fun cd p => cd.add p.name p.value.text) cd := by
  induction parameters generalizing cd with
  | nil => exact parseParameters_blank cd (by decide)
  | cons p parameters ih =>
    obtain ⟨next, hstep, hnext⟩ := parseParameter_bytes p (follows_parametersText parameters)
    have hne : Bytes.trimBlank (p.bytes ++ parametersText parameters) ≠ [] := by
      have hmem : 61 ∈ Bytes.trimBlank (p.bytes ++ parametersText parameters) :=
        mem_trim_of_mem rfl (by simp [Parameter.bytes])
      exact List.ne_nil_of_mem hmem
    rw [restText, parseParameters_step cd hne hstep, parseParameters_trim _ hnext, ih, List.foldl_cons]

/-- The values that are kept are those of the first parameters of the two names. -/
theorem foldl_add (parameters : List Parameter) (cd : ContentDisposition) :
    parameters.foldl (fun cd p => cd.add p.name p.value.text) cd =
      ⟨cd.name.or (valueOf parameters (ascii "name")),
        cd.fileName.or (valueOf parameters (ascii "filename"))⟩ := by
  induction parameters generalizing cd with
  | nil => simp [valueOf]
  | cons p parameters ih =>
    obtain ⟨name, fileName⟩ := cd
    rw [List.foldl_cons, ih]
    cases hname : eqIgnoreAsciiCase p.name (ascii "name") with
    | true =>
      have hfile : eqIgnoreAsciiCase p.name (ascii "filename") = false := by
        have hlower : Bytes.lowercase p.name = Bytes.lowercase (ascii "name") := beq_iff_eq.mp hname
        rw [eqIgnoreAsciiCase, hlower]
        decide
      cases name <;> simp [ContentDisposition.add, valueOf, Parameter.Named, hname, hfile]
    | false =>
      cases hfile : eqIgnoreAsciiCase p.name (ascii "filename") with
      | true =>
        cases fileName <;>
          simp [ContentDisposition.add, valueOf, Parameter.Named, hname, hfile]
      | false => simp [ContentDisposition.add, valueOf, Parameter.Named, hname, hfile]

theorem kind_spec {kind : Bytes} (h : eqIgnoreAsciiCase kind (ascii "form-data") = true) :
    (∀ c ∈ kind, Bytes.isBlank c = false) ∧ 59 ∉ kind := by
  have hlower : Bytes.lowercase kind = ascii "form-data" := (beq_iff_eq.mp h).trans (by decide)
  have key (c : UInt8) (hc : c ∈ kind) : Bytes.isBlank c = false ∧ c ≠ 59 := by
    have hmem : Bytes.toLower c ∈ ascii "form-data" := by
      rw [← hlower]
      exact List.mem_map_of_mem hc
    have hbyte : Bytes.toLower c ∈ ascii "form-data" → Bytes.isBlank c = false ∧ c ≠ 59 := by
      apply forall_byte (p := fun c =>
        Bytes.toLower c ∈ ascii "form-data" → Bytes.isBlank c = false ∧ c ≠ 59)
      decide +kernel
    exact hbyte hmem
  exact ⟨fun c hc => (key c hc).1, fun hmem => (key 59 hmem).2 rfl⟩

theorem trimBlank_kind {kind : Bytes} (h : eqIgnoreAsciiCase kind (ascii "form-data") = true)
    (before after : Blanks) : Bytes.trimBlank (before.val ++ kind ++ after.val) = kind := by
  rw [trimBlank_eq, trim_append_right after.2, trim_append_left before.2]
  apply Bytes.trimBlank_of_ends
  · exact fun c hc => (kind_spec h).1 c (List.mem_of_mem_head? hc)
  · exact fun c hc => (kind_spec h).1 c (List.mem_of_mem_getLast? hc)

/-- A disposition is read as the first name and the first file name of its parameters. -/
theorem parseContentDisposition_bytes (d : Disposition) :
    parseContentDisposition d.bytes =
      some ⟨valueOf d.parameters (ascii "name"), valueOf d.parameters (ascii "filename")⟩ := by
  have htrim := trimBlank_kind d.kind_form_data d.before d.after
  cases hparameters : d.parameters with
  | nil =>
    have hbytes : Bytes.trimBlank d.bytes = d.kind := by
      rw [Disposition.bytes, hparameters, parametersText, List.flatMap_nil, List.append_nil]
      exact htrim
    simp only [parseContentDisposition, hbytes, findIdx?_no_separator (kind_spec d.kind_form_data).2,
      d.kind_form_data, if_true]
    rfl
  | cons p parameters =>
    have hbytes : Bytes.trimBlank d.bytes =
        (d.before.val ++ d.kind ++ d.after.val).dropWhile Bytes.isBlank ++
          59 :: (restText (p :: parameters)).rdropWhile Bytes.isBlank := by
      rw [Disposition.bytes, hparameters]
      exact trim_append_cons rfl _ _
    have hno : 59 ∉ (d.before.val ++ d.kind ++ d.after.val).dropWhile Bytes.isBlank := by
      intro hmem
      have hmem := (List.dropWhile_sublist _).subset hmem
      rw [List.mem_append, List.mem_append] at hmem
      rcases hmem with (hmem | hmem) | hmem
      · exact not_mem_of_blank rfl d.before.2 hmem
      · exact (kind_spec d.kind_form_data).2 hmem
      · exact not_mem_of_blank rfl d.after.2 hmem
    have hkind : Bytes.trimBlank
        ((d.before.val ++ d.kind ++ d.after.val).dropWhile Bytes.isBlank) = d.kind := by
      rw [trimBlank_eq, trim_dropWhile]
      exact htrim
    simp only [parseContentDisposition, hbytes, findIdx?_separator _ hno, List.take_left, hkind,
      d.kind_form_data, if_true]
    rw [← List.drop_drop, List.drop_left, List.drop_succ_cons, List.drop_zero,
      parseParameters_trim _ (trim_rdropWhile (restText (p :: parameters))), parseParameters_restText,
      foldl_add]
    rfl

theorem valueOf_other {front back : List Parameter} {p : Parameter} {name : Bytes}
    (h : p.Named name = false) : valueOf (front ++ p :: back) name = valueOf (front ++ back) name := by
  simp [valueOf, List.find?_append, h]

/-- Every disposition that is written by the grammar is read as the raw texts of its first name
and its first file name, and a parameter of another name may be left out. -/
theorem parseContentDisposition_wellFormed (d : Disposition) :
    parseContentDisposition d.bytes =
        some ⟨valueOf d.parameters (ascii "name"), valueOf d.parameters (ascii "filename")⟩ ∧
      ∀ (front back : List Parameter) (p : Parameter), d.parameters = front ++ p :: back →
        p.Named (ascii "name") = false → p.Named (ascii "filename") = false →
          parseContentDisposition { d with parameters := front ++ back }.bytes =
            parseContentDisposition d.bytes := by
  refine ⟨parseContentDisposition_bytes d, ?_⟩
  intro front back p hparameters hname hfile
  rw [parseContentDisposition_bytes, parseContentDisposition_bytes, hparameters, valueOf_other hname,
    valueOf_other hfile]

end Run

end S3s.FormData
