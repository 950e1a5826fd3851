import S3s.Fs.Store
import S3s.Xml.CharacterData

/-! # ETags in XML

An ETag is written between literal quotes, without escaping and without its strength, and
read with its references resolved. What is made of the bytes between the tags is the
tokenizer's, of which only this is known: its events spell the bytes one behind another,
and bytes without markup are one text.
-/
namespace S3s.Xml

open Fs (ETag)

/-- `ParseETagError` -/
inductive ParseETagError where
  | invalidFormat
  | invalidChar
deriving DecidableEq

/-- `check_header_value` -/
def checkHeaderValue (s : Bytes) : Bool := s.all fun b => (32 ≤ b && b != 127) || b == 9

/-- `is_valid_unquoted_etag` -/
def isValidUnquotedEtag (s : Bytes) : Bool :=
  !s.isEmpty && s.all fun b =>
    (97 ≤ b && b ≤ 122) || (65 ≤ b && b ≤ 90) || Bytes.isDigit b || b == 45

/-- What stands between two quotes. -/
def unquote : Bytes → Option Bytes
  | 34 :: s => if s.getLast? = some 34 then some s.dropLast else none
  | _ => none

/-- A value that has been taken out of its quotes. -/
def checkedETag (make : Bytes → ETag) (val : Bytes) : Except ParseETagError ETag :=
  if !checkHeaderValue val then .error .invalidChar
  else if val.all fun b => b < 0x80 then .ok (make val)
  else .error .invalidChar

/-- `parse_http_header` -/
def parseHttpHeader (src : Bytes) : Except ParseETagError ETag :=
  match unquote src with
  | some val => checkedETag .strong val
  | none =>
    match src with
    | 87 :: 47 :: rest =>
      match unquote rest with
      | some val => checkedETag .weak val
      | none => .error .invalidFormat
    | _ => if isValidUnquotedEtag src then .ok (.strong src) else .error .invalidFormat

/-- `is_roundtrippable_etag_value` -/
def isRoundtrippableEtagValue (val : Bytes) : Bool :=
  val.all fun b => b < 0x80 && ((32 ≤ b && b != 127) || b == 9)

/-- What `deserialize_content` makes of the text of the element. -/
def etagOfText (val : Bytes) : Except DeError ETag :=
  match parseHttpHeader val with
  | .ok v => .ok v
  | .error .invalidFormat =>
    if isRoundtrippableEtagValue val then .ok (.strong val) else .error .invalidContent
  | .error .invalidChar => .error .invalidContent

/-- `deserialize_content` -/
def deserializeETag (d : Deserializer) : Except DeError (ETag × Deserializer) := do
  let (val, d) ← ContentReader.string.read d
  let v ← etagOfText val
  .ok (v, d)

/-- `serialize_content`: the bytes it writes, in a buffer or not. -/
def serializeETag (e : ETag) : Bytes := 34 :: (e.value ++ [34])

section Values

/-- A character that may stand in an ETag. -/
def isETagChar (b : UInt8) : Bool := b < 0x80 && ((32 ≤ b && b != 127) || b == 9)

variable {val s : Bytes} {e : ETag}

theorem checkedETag_eq_ok {make : Bytes → ETag} :
    checkedETag make val = .ok e ↔ val.all isETagChar = true ∧ e = make val := by
  have hall : val.all isETagChar = true ↔ checkHeaderValue val = true ∧ (val.all fun b => b < 0x80) = true := by
    simp only [checkHeaderValue, isETagChar, List.all_eq_true, Bool.and_eq_true]
    constructor
    · exact fun h => ⟨fun b hb => (h b hb).2, fun b hb => (h b hb).1⟩
    · exact fun h b hb => ⟨h.2 b hb, h.1 b hb⟩
  rw [hall, checkedETag]
  cases checkHeaderValue val <;> cases (val.all fun b => b < 0x80) <;> simp [eq_comm]

theorem unquote_eq_some : unquote s = some val ↔ s = 34 :: (val ++ [34]) := by
  constructor
  · intro h
    unfold unquote at h
    split at h
    · next rest =>
      split_ifs at h with hlast
      rw [← Option.some.inj h, List.dropLast_append_getLast? 34 hlast]
    · cases h
  · rintro rfl
    simp [unquote]

theorem all_isETagChar_of_unquoted (h : isValidUnquotedEtag s = true) : s.all isETagChar = true := by
  rw [isValidUnquotedEtag, Bool.and_eq_true, List.all_eq_true] at h
  rw [List.all_eq_true]
  intro b hb
  have hbyte := h.2 b hb
  revert hbyte
  refine forall_byte (p := fun b => ((97 ≤ b && b ≤ 122) || (65 ≤ b && b ≤ 90) || Bytes.isDigit b ||
    b == 45) = true → isETagChar b = true) ?_ b
  decide +kernel

theorem checkedETag_ne_invalidFormat {make : Bytes → ETag} : checkedETag make val ≠ .error .invalidFormat := by
  unfold checkedETag
  split_ifs <;> simp

theorem parseHttpHeader_of_unquote (h : unquote s = some val) : parseHttpHeader s = checkedETag .strong val := by
  simp only [parseHttpHeader, h]

theorem parseHttpHeader_of_weak (val : Bytes) :
    parseHttpHeader (87 :: 47 :: 34 :: (val ++ [34])) = checkedETag .weak val := by
  have hweak : unquote (34 :: (val ++ [34])) = some val := unquote_eq_some.mpr rfl
  simp only [parseHttpHeader, hweak]
  rfl

theorem parseHttpHeader_eq_ok (h : parseHttpHeader s = .ok e) :
    e.value.all isETagChar = true ∧
      ((e = .strong e.value ∧ s = 34 :: (e.value ++ [34])) ∨
        (e = .weak e.value ∧ s = 87 :: 47 :: 34 :: (e.value ++ [34])) ∨
        (e = .strong s ∧ unquote s = none ∧ ∀ x, s ≠ 87 :: 47 :: 34 :: (x ++ [34]))) := by
  unfold parseHttpHeader at h
  split at h
  · next val hquote =>
    obtain ⟨hall, rfl⟩ := checkedETag_eq_ok.mp h
    exact ⟨hall, Or.inl ⟨rfl, unquote_eq_some.mp hquote⟩⟩
  · next hquote =>
    split at h
    · next rest =>
      split at h
      · next val hweak =>
        obtain ⟨hall, rfl⟩ := checkedETag_eq_ok.mp h
        rw [unquote_eq_some.mp hweak]
        exact ⟨hall, Or.inr (Or.inl ⟨rfl, rfl⟩)⟩
      · cases h
    · next hnot =>
      split_ifs at h with hvalid
      rw [← Except.ok.inj h]
      exact ⟨all_isETagChar_of_unquoted hvalid, Or.inr (Or.inr ⟨rfl, hquote, fun x => hnot _⟩)⟩

/-- What is read of a text: it is between quotes, or weak, or without quotes. -/
theorem etagOfText_eq_ok (h : etagOfText s = .ok e) :
    e.value.all isETagChar = true ∧
      ((e = .strong e.value ∧ s = 34 :: (e.value ++ [34])) ∨
        (e = .weak e.value ∧ s = 87 :: 47 :: 34 :: (e.value ++ [34])) ∨
        (e = .strong s ∧ unquote s = none ∧ ∀ x, s ≠ 87 :: 47 :: 34 :: (x ++ [34]))) := by
  unfold etagOfText at h
  split at h
  · next v hparse =>
    rw [← Except.ok.inj h]
    exact parseHttpHeader_eq_ok hparse
  · next hparse =>
    split_ifs at h with hround
    rw [← Except.ok.inj h]
    refine ⟨hround, Or.inr (Or.inr ⟨rfl, ?_, ?_⟩)⟩
    · cases hquote : unquote s with
      | none => rfl
      | some val =>
        rw [parseHttpHeader_of_unquote hquote] at hparse
        exact absurd hparse checkedETag_ne_invalidFormat
    · rintro x rfl
      rw [parseHttpHeader_of_weak x] at hparse
      exact absurd hparse checkedETag_ne_invalidFormat
  · cases h

/-- A strong value between quotes is read. -/
theorem etagOfText_quoted (h : val.all isETagChar = true) : etagOfText (34 :: (val ++ [34])) = .ok (.strong val) := by
  have hparse : parseHttpHeader (34 :: (val ++ [34])) = .ok (.strong val) := by
    rw [parseHttpHeader_of_unquote (unquote_eq_some.mpr rfl)]
    exact checkedETag_eq_ok.mpr ⟨h, rfl⟩
  rw [etagOfText, hparse]

end Values

section Events

open Deserializer

/-- What an event adds to the text of an element. -/
def Event.textData : Event → Bytes
  | .text content => content
  | .generalRef name => (resolveRef name).getD []
  | _ => []

/-- The events that end a text. -/
def Event.isTag : Event → Bool
  | .start _ | .end _ | .empty _ => true
  | _ => false

/-- The events before a tag, or all of them, give the text; the end of the element is left to be read. -/
def TextUpTo (events : List (Option Event)) (buf : Option Bytes) (s : Bytes) (d : Deserializer) : Prop :=
  ∃ (evs : List Event) (rest : List (Option Event)), events = evs.map some ++ rest ∧
    s = buf.getD [] ++ evs.flatMap Event.textData ∧ (∀ ev ∈ evs, ev.isTag = false) ∧
    ((rest = [] ∧ d = { new [] with peeked := some .eof }) ∨
      ∃ name rest', rest = some (.end name) :: rest' ∧ d = { new rest' with peeked := some (.end name) })

theorem TextUpTo.cons {ev : Event} {events : List (Option Event)} {buf buf' : Option Bytes} {s : Bytes}
    {d : Deserializer} (htag : ev.isTag = false) (hbuf : buf'.getD [] = buf.getD [] ++ ev.textData)
    (h : TextUpTo events buf' s d) : TextUpTo (some ev :: events) buf s d := by
  obtain ⟨evs, rest, rfl, rfl, hevs, hend⟩ := h
  exact ⟨ev :: evs, rest, rfl, by rw [hbuf, List.flatMap_cons, List.append_assoc],
    List.forall_mem_cons.mpr ⟨htag, hevs⟩, hend⟩

variable {buf : Option Bytes} {s : Bytes} {d d' : Deserializer}

theorem textLoop_of_error {e : DeError} (h : d.peekEvent = .error e) : d.textLoop buf = .error e := by
  rw [textLoop]
  split <;> simp_all

theorem textLoop_of_start {name : Bytes} (h : d.peekEvent = .ok (.start name, d')) :
    d.textLoop buf = .error .unexpectedStart := by
  rw [textLoop]
  split <;> simp_all

theorem textLoop_of_eof (h : d.peekEvent = .ok (.eof, d')) :
    d.textLoop buf = if buf = none then .error .unexpectedEof else .ok (buf.getD [], d') := by
  rw [textLoop]
  split <;> simp_all

/-- The text of an element is that of the events up to a tag. -/
theorem textLoop_eq_ok {events : List (Option Event)} (h : (new events).textLoop buf = .ok (s, d)) :
    TextUpTo events buf s d := by
  induction events generalizing buf with
  | nil =>
    have hpeek : (new []).peekEvent = .ok (.eof, { new [] with peeked := some .eof }) := rfl
    rw [textLoop_of_eof hpeek] at h
    split_ifs at h
    obtain ⟨rfl, rfl⟩ := Prod.mk.inj (Except.ok.inj h)
    exact ⟨[], [], rfl, by simp, by simp, Or.inl ⟨rfl, rfl⟩⟩
  | cons item events ih =>
    cases item with
    | none =>
      have hpeek : (new (none :: events)).peekEvent = .error .invalidXml := rfl
      rw [textLoop_of_error hpeek] at h
      cases h
    | some ev =>
      cases ev with
      | start name =>
        rw [textLoop_of_start (peekEvent_start name events)] at h
        cases h
      | «end» name =>
        rw [textLoop_end] at h
        obtain ⟨rfl, rfl⟩ := Prod.mk.inj (Except.ok.inj h)
        exact ⟨[], _, rfl, by simp, by simp, Or.inr ⟨name, events, rfl, rfl⟩⟩
      | empty name =>
        have hpeek : (new (some (.empty name) :: events)).peekEvent =
            .ok (.start name, ⟨events, some (.start name), some (.end name)⟩) := rfl
        rw [textLoop_of_start hpeek] at h
        cases h
      | text content =>
        rw [textLoop_text] at h
        exact (ih h).cons rfl rfl
      | generalRef name =>
        cases hvalue : resolveRef name with
        | none =>
          have hpeek : (new (some (.generalRef name) :: events)).peekEvent = .error .invalidContent := by
            simp [peekEvent, readEvent, readInner, new, hvalue]
          rw [textLoop_of_error hpeek] at h
          cases h
        | some value =>
          rw [textLoop_generalRef buf events hvalue] at h
          exact (ih h).cons rfl (by simp [Event.textData, hvalue])
      | cData content | comment content | decl content | pi content | docType content =>
        exact (ih (Eq.trans (textLoop_of_peekEvent_eq (by rfl)) h)).cons rfl (List.append_nil _).symm

end Events

section Spelling

/-- A name as the elements have it. -/
def IsName (name : Bytes) : Prop :=
  name ≠ [] ∧ ∀ b ∈ name, Bytes.isDigit b = true ∨ (65 ≤ b ∧ b ≤ 90) ∨ (97 ≤ b ∧ b ≤ 122)

/-- A text without markup. -/
def IsPlain (s : Bytes) : Prop := ∀ b ∈ s, b ≠ 60 ∧ b ≠ 38

/-- The end tag of an element. -/
def endTag (name : Bytes) : Bytes := 60 :: 47 :: (name ++ [62])

/-- The bytes that an event stands for: a text stands for itself, a reference for what is between `&` and `;`, and
every other event for what is between `<` and `>`. -/
def Spells : Event → Bytes → Prop
  | .text content, span => span = content ∧ content ≠ [] ∧ IsPlain content
  | .generalRef name, span => span = 38 :: (name ++ [59])
  | _, span => span.head? = some 60 ∧ span.getLast? = some 62

/-- What the tokenizer does with the bytes behind a start tag: its events, as long as it does not fail, spell the
bytes one behind another, and a text without markup before the end tag is one event. -/
structure Tokenizes (tokens : Bytes → Bytes → List (Option Event)) : Prop where
  spells : ∀ name s (evs : List Event) rest, tokens name s = evs.map some ++ rest →
    ∃ spans, List.Forall₂ Spells evs spans ∧ spans.flatten <+: s
  text : ∀ name s, IsName name → s ≠ [] → IsPlain s →
    tokens name (s ++ endTag name) = [some (.text s), some (.end name)]

theorem length_resolveRef {name value : Bytes} (h : resolveRef name = some value) :
    value.length < name.length + 2 := by
  rw [resolveRef, Option.or_eq_some_iff] at h
  rcases h with h | ⟨-, h⟩
  · have hone : value.length = 1 := by
      unfold resolveXmlEntity at h
      split_ifs at h <;> rw [← Option.some.inj h] <;> rfl
    omega
  · unfold resolveCharRef at h
    cases hstrip : Text.stripPrefix 35 name with
    | none => simp [hstrip] at h
    | some entity =>
      rw [hstrip, Option.bind_eq_bind, Option.bind_some] at h
      split_ifs at h with hempty
      obtain ⟨n, hn, hvalue⟩ := Option.bind_eq_some_iff.mp h
      split_ifs at hvalue
      rw [Text.stripPrefix_eq_some.mp hstrip, ← Option.some.inj hvalue, List.length_cons]
      cases entity with
      | nil => cases hn
      | cons c entity =>
        cases entity with
        | nil =>
          have hsmall : n < 0x80 := by
            have hall : (parseCodepoint [c]).all (fun n => decide (n < 0x80)) = true := by
              refine forall_byte (p := fun c => (parseCodepoint [c]).all (fun n => decide (n < 0x80)) = true) ?_ c
              decide +kernel
            rw [hn] at hall
            simpa using hall
          rw [encodeUtf8, if_pos hsmall]
          simp
        | cons d entity =>
          have hfour : (encodeUtf8 n).length ≤ 4 := by
            unfold encodeUtf8
            split_ifs <;> simp
          simp only [List.length_cons]
          omega

variable {ev : Event} {span : Bytes}

theorem Spells.ne_nil (h : Spells ev span) : span ≠ [] := by
  cases ev with
  | text content => exact h.1 ▸ h.2.1
  | generalRef name => simp [show span = 38 :: (name ++ [59]) from h]
  | start | «end» | empty | cData | comment | decl | pi | docType =>
    rintro rfl
    cases h.1

/-- Only a text adds as much as it is long. -/
theorem Spells.length_textData (h : Spells ev span) :
    (ev.textData = span ∧ IsPlain span) ∨ (ev.textData.length < span.length) := by
  have hpos := List.length_pos_iff.mpr h.ne_nil
  cases ev with
  | text content =>
    obtain ⟨rfl, -, hplain⟩ := h
    exact Or.inl ⟨rfl, hplain⟩
  | generalRef name =>
    obtain rfl : span = 38 :: (name ++ [59]) := h
    right
    cases hvalue : resolveRef name with
    | none => simp [Event.textData, hvalue]
    | some value =>
      have hdata : (Event.generalRef name).textData = value := by simp [Event.textData, hvalue]
      rw [hdata, List.length_cons, List.length_append]
      exact length_resolveRef hvalue
  | start | «end» | empty | cData | comment | decl | pi | docType => exact Or.inr hpos

/-- An event that is spelled with a quote at its beginning or end is a text. -/
theorem Spells.eq_of_quote (h : Spells ev span) (hquote : span.head? = some 34 ∨ span.getLast? = some 34) :
    ev.textData = span := by
  cases ev with
  | text content => exact h.1.symm
  | generalRef name =>
    obtain rfl : span = 38 :: (name ++ [59]) := h
    rw [← List.cons_append, List.getLast?_concat] at hquote
    simp at hquote
  | start | «end» | empty | cData | comment | decl | pi | docType =>
    obtain ⟨hhead, hlast⟩ := h
    rw [hhead, hlast] at hquote
    simp at hquote

variable {evs : List Event} {spans : List Bytes}

theorem length_textData_le (h : List.Forall₂ Spells evs spans) :
    (evs.flatMap Event.textData).length ≤ spans.flatten.length := by
  induction h with
  | nil => exact le_rfl
  | cons hfirst _ ih =>
    rw [List.flatMap_cons, List.flatten_cons, List.length_append, List.length_append]
    have hle := hfirst.length_textData.elim (fun h => (congrArg List.length h.1).le) le_of_lt
    omega

/-- A text as long as its bytes has no markup among them. -/
theorem textData_eq_of_length (h : List.Forall₂ Spells evs spans)
    (hlength : spans.flatten.length ≤ (evs.flatMap Event.textData).length) :
    evs.flatMap Event.textData = spans.flatten ∧ IsPlain spans.flatten := by
  induction h with
  | nil => exact ⟨rfl, by simp [IsPlain]⟩
  | cons hfirst hrest ih =>
    rw [List.flatMap_cons, List.flatten_cons, List.length_append, List.length_append] at hlength
    have hle := length_textData_le hrest
    rcases hfirst.length_textData with ⟨heq, hplain⟩ | hlt
    · rw [heq] at hlength
      obtain ⟨hdata, hrestPlain⟩ := ih (by omega)
      rw [List.flatMap_cons, List.flatten_cons, heq, hdata]
      refine ⟨rfl, fun b hb => ?_⟩
      exact (List.mem_append.mp hb).elim (hplain b) (hrestPlain b)
    · omega

/-- Bytes that end with a quote give a text that does. -/
theorem exists_of_getLast_quote (h : List.Forall₂ Spells evs spans) (hlast : spans.flatten.getLast? = some 34) :
    ∃ s, evs.flatMap Event.textData = s ++ [34] := by
  induction h with
  | nil => cases hlast
  | @cons ev span evs spans hfirst hrest ih =>
    rw [List.flatMap_cons]
    by_cases hspans : spans.flatten = []
    · rw [List.flatten_cons, hspans, List.append_nil] at hlast
      have hnil : evs.flatMap Event.textData = [] := by
        have hle := length_textData_le hrest
        rw [hspans] at hle
        exact List.length_eq_zero_iff.mp (Nat.le_zero.mp hle)
      refine ⟨span.dropLast, ?_⟩
      rw [hfirst.eq_of_quote (Or.inr hlast), hnil, List.append_nil, List.dropLast_append_getLast? 34 hlast]
    · rw [List.flatten_cons, List.getLast?_append_of_ne_nil _ hspans] at hlast
      obtain ⟨s, hs⟩ := ih hlast
      exact ⟨ev.textData ++ s, by rw [hs, List.append_assoc]⟩

/-- Bytes between two quotes give a text between two quotes. -/
theorem exists_of_quotes (h : List.Forall₂ Spells evs spans) {v : Bytes}
    (hspans : spans.flatten = 34 :: (v ++ [34])) : ∃ s, evs.flatMap Event.textData = 34 :: (s ++ [34]) := by
  cases h with
  | nil => cases hspans
  | @cons ev span evs spans hfirst hrest =>
    have hne := hfirst.ne_nil
    obtain ⟨b, span, rfl⟩ := List.exists_cons_of_ne_nil hne
    rw [List.flatten_cons, List.cons_append] at hspans
    obtain ⟨rfl, htail⟩ := List.cons.inj hspans
    rw [List.flatMap_cons, hfirst.eq_of_quote (Or.inl rfl), List.cons_append]
    by_cases hflatten : spans.flatten = []
    · rw [hflatten, List.append_nil] at htail
      have hnil : evs.flatMap Event.textData = [] := by
        have hle := length_textData_le hrest
        rw [hflatten] at hle
        exact List.length_eq_zero_iff.mp (Nat.le_zero.mp hle)
      exact ⟨v, by rw [htail, hnil, List.append_nil]⟩
    · have hlast : spans.flatten.getLast? = some 34 := by
        rw [← List.getLast?_append_of_ne_nil span hflatten, htail]
        simp
      obtain ⟨s, hs⟩ := exists_of_getLast_quote hrest hlast
      exact ⟨span ++ s, by rw [hs, List.append_assoc]⟩

end Spelling

section RoundTrip

open Deserializer

variable {tokens : Bytes → Bytes → List (Option Event)} {name : Bytes} {e e' : ETag}

/-- What is read of an element in which an ETag has been written. -/
def readBackETag (tokens : Bytes → Bytes → List (Option Event)) (name : Bytes) (e : ETag) : Except DeError ETag :=
  ((new (some (.start name) :: tokens name (serializeETag e ++ endTag name))).namedElement name
    deserializeETag).map Prod.fst

theorem readBackETag_eq (tokens : Bytes → Bytes → List (Option Event)) (name : Bytes) (e : ETag) :
    readBackETag tokens name e = ((new (tokens name (serializeETag e ++ endTag name))).textLoop none).bind
      fun r => (etagOfText r.1).bind fun v => (r.2.expectEnd name).map fun _ => v := by
  rw [readBackETag, namedElement, expectStart_start]
  simp only [deserializeETag, ContentReader.string, Deserializer.text, bind, Except.bind]
  cases (new (tokens name (serializeETag e ++ endTag name))).textLoop none with
  | error err => rfl
  | ok r =>
    dsimp only
    cases etagOfText r.1 with
    | error err => rfl
    | ok v =>
      dsimp only
      cases r.2.expectEnd name <;> rfl

/-- A value without markup is read back as a strong one. -/
theorem readBackETag_plain (h : Tokenizes tokens) (hname : IsName name) (hplain : IsPlain e.value)
    (hvalue : e.value.all isETagChar = true) : readBackETag tokens name e = .ok (.strong e.value) := by
  have hquoted : IsPlain (serializeETag e) := by
    intro b hb
    simp only [serializeETag, List.mem_cons, List.mem_append, List.not_mem_nil, or_false] at hb
    rcases hb with rfl | hb | rfl
    · decide
    · exact hplain b hb
    · decide
  rw [readBackETag_eq, h.text name _ hname (by simp [serializeETag]) hquoted, textLoop_text, textLoop_end]
  simp only [Except.bind, Option.getD_none, Option.getD_some, List.nil_append]
  rw [serializeETag, etagOfText_quoted hvalue, expectEnd_peeked]
  rfl

theorem expectEnd_eof (name : Bytes) :
    ({ new [] with peeked := some .eof } : Deserializer).expectEnd name = .error .unexpectedEof := by
  rw [expectEnd]
  simp [nextEvent, new]

/-- Where the text ends: behind the closing quote, or earlier at a `<` of the value. -/
theorem length_of_prefix {v span before : Bytes} (hname : IsName name) (hspan : span.head? = some 60)
    (h : before ++ span <+: 34 :: (v ++ [34]) ++ endTag name) :
    before.length ≤ v.length ∨ before = 34 :: (v ++ [34]) := by
  obtain ⟨t, ht⟩ := h
  obtain ⟨span, rfl⟩ : ∃ span', span = 60 :: span' := List.head?_eq_some_iff.mp hspan
  have hget : (34 :: (v ++ [34]) ++ endTag name)[before.length]? = some 60 := by
    rw [← ht, List.append_assoc, List.getElem?_append_right le_rfl, Nat.sub_self]
    rfl
  have htake : (34 :: (v ++ [34]) ++ endTag name).take before.length = before := by
    rw [← ht, List.append_assoc, List.take_left' rfl]
  have hlength : (34 :: (v ++ [34])).length = v.length + 2 := by simp
  by_cases hinside : before.length < v.length + 2
  · left
    by_contra hlong
    have hquote : before.length = v.length + 1 := by omega
    rw [List.getElem?_append_left (by omega), hquote, List.getElem?_cons_succ,
      List.getElem?_append_right le_rfl, Nat.sub_self] at hget
    cases hget
  · right
    rw [List.getElem?_append_right (by omega), hlength] at hget
    obtain ⟨k, hk⟩ : ∃ k, before.length - (v.length + 2) = k := ⟨_, rfl⟩
    rw [hk] at hget
    cases k with
    | zero =>
      have hexact : before.length = (34 :: (v ++ [34])).length := by omega
      rw [← htake, hexact, List.take_left' rfl]
    | succ k =>
      rw [endTag, List.getElem?_cons_succ] at hget
      have hmem := List.mem_of_getElem? hget
      simp only [List.mem_cons, List.mem_append, List.not_mem_nil, or_false] at hmem
      rcases hmem with hmem | hmem | hmem
      · cases hmem
      · exact absurd (hname.2 60 hmem) (by decide)
      · cases hmem

theorem forall₂_concat {α β : Type} {R : α → β → Prop} {xs : List α} {x : α} {ys : List β}
    (h : List.Forall₂ R (xs ++ [x]) ys) : ∃ ys' y, ys = ys' ++ [y] ∧ List.Forall₂ R xs ys' ∧ R x y := by
  induction xs generalizing ys with
  | nil =>
    cases h with
    | @cons _ y _ _ hy hnil =>
      cases hnil
      exact ⟨[], y, rfl, .nil, hy⟩
  | cons a xs ih =>
    cases h with
    | @cons _ b _ ys hb hrest =>
      obtain ⟨ys', y, rfl, hxs, hy⟩ := ih hrest
      exact ⟨b :: ys', y, rfl, .cons hb hxs, hy⟩

/-- The text between the tags, and the bytes it was made of. -/
theorem exists_spans (h : Tokenizes tokens) (hname : IsName name) {v : Bytes} {evs : List Event} {n : Bytes}
    {rest : List (Option Event)}
    (hevents : tokens name (34 :: (v ++ [34]) ++ endTag name) = evs.map some ++ some (.end n) :: rest) :
    ∃ spans, List.Forall₂ Spells evs spans ∧
      (spans.flatten.length ≤ v.length ∨ spans.flatten = 34 :: (v ++ [34])) := by
  have hall : tokens name (34 :: (v ++ [34]) ++ endTag name) = (evs ++ [Event.end n]).map some ++ rest := by
    rw [hevents, List.map_append, List.append_assoc]
    rfl
  obtain ⟨spans, hspells, hprefix⟩ := h.spells name _ _ rest hall
  obtain ⟨spans, span, rfl, hspans, hend⟩ := forall₂_concat hspells
  rw [List.flatten_append, List.flatten_singleton] at hprefix
  exact ⟨spans, hspans, length_of_prefix hname hend.1 hprefix⟩

/-- What is read back is the ETag only if it is strong and has no markup. -/
theorem of_readBackETag (h : Tokenizes tokens) (hname : IsName name)
    (hback : readBackETag tokens name e = .ok e) : e = .strong e.value ∧ IsPlain e.value := by
  rw [readBackETag_eq] at hback
  cases hloop : (new (tokens name (serializeETag e ++ endTag name))).textLoop none with
  | error err =>
    rw [hloop] at hback
    cases hback
  | ok r =>
    obtain ⟨s, d⟩ := r
    rw [hloop] at hback
    simp only [Except.bind] at hback
    cases hetag : etagOfText s with
    | error err =>
      rw [hetag] at hback
      cases hback
    | ok v =>
      rw [hetag] at hback
      simp only at hback
      cases hclose : d.expectEnd name with
      | error err =>
        rw [hclose] at hback
        cases hback
      | ok d' =>
        rw [hclose] at hback
        obtain rfl : v = e := Except.ok.inj hback
        obtain ⟨evs, rest, hevents, hs, -, ⟨-, rfl⟩ | ⟨n, rest', rfl, -⟩⟩ := textLoop_eq_ok hloop
        · rw [expectEnd_eof] at hclose
          cases hclose
        · rw [Option.getD_none, List.nil_append] at hs
          obtain ⟨spans, hspans, hwhere⟩ := exists_spans h hname hevents
          have hle := length_textData_le hspans
          rw [← hs] at hle
          obtain ⟨-, ⟨hstrong, hquoted⟩ | ⟨-, hquoted⟩ | ⟨hraw, hunquoted, -⟩⟩ := etagOfText_eq_ok hetag
          · have hlength : s.length = v.value.length + 2 := by simp [hquoted]
            rcases hwhere with hshort | hexact
            · omega
            · have hplain := (textData_eq_of_length hspans (by rw [← hs, hexact, hquoted])).2
              rw [hexact] at hplain
              refine ⟨hstrong, fun b hb => hplain b ?_⟩
              exact List.mem_cons_of_mem _ (List.mem_append_left _ hb)
          · have hlength : s.length = v.value.length + 4 := by simp [hquoted]
            have hwritten : spans.flatten.length ≤ v.value.length + 2 := by
              rcases hwhere with hshort | hexact
              · omega
              · simp [hexact]
            omega
          · have hvalue : v.value = s := by rw [hraw]; rfl
            rcases hwhere with hshort | hexact
            · rw [hvalue] at hshort
              obtain ⟨hdata, hplain⟩ := textData_eq_of_length hspans (hs ▸ hshort)
              rw [hvalue]
              rw [← hdata, ← hs] at hplain
              exact ⟨hraw, hplain⟩
            · obtain ⟨x, hx⟩ := exists_of_quotes hspans hexact
              rw [← hs] at hx
              rw [unquote_eq_some.mpr hx] at hunquoted
              cases hunquoted

variable {val : Bytes}

/-- The text of a strong ETag has markup if and only if its value has. -/
theorem etagOfText_plain_iff (h : etagOfText val = .ok e) :
    (e = .strong e.value ∧ IsPlain e.value) ↔ IsPlain val ∧ ∀ x, val ≠ 87 :: 47 :: 34 :: (x ++ [34]) := by
  obtain ⟨-, ⟨hstrong, rfl⟩ | ⟨hweak, rfl⟩ | ⟨hraw, -, hnot⟩⟩ := etagOfText_eq_ok h
  · constructor
    · rintro ⟨-, hplain⟩
      refine ⟨?_, fun x hx => by cases hx⟩
      simpa [IsPlain, or_imp, forall_and] using hplain
    · rintro ⟨hplain, -⟩
      exact ⟨hstrong, fun b hb => hplain b (List.mem_cons_of_mem _ (List.mem_append_left _ hb))⟩
  · constructor
    · rintro ⟨hstrong, -⟩
      rw [hweak] at hstrong
      cases hstrong
    · exact fun hval => absurd rfl (hval.2 e.value)
  · have hvalue : e.value = val := by rw [hraw]; rfl
    rw [hvalue]
    exact ⟨fun h => ⟨h.2, hnot⟩, fun h => ⟨hraw, h.1⟩⟩

/-- An accepted content is read back from what is written of it exactly when it is not a weak ETag and has no `<` and
no `&`. -/
theorem etag_round_trip_iff (h : Tokenizes tokens) (hname : IsName name) {d d' d'' : Deserializer}
    (hcontent : ContentReader.string.read d = .ok (val, d')) (haccept : deserializeETag d = .ok (e, d'')) :
    readBackETag tokens name e = .ok e ↔ IsPlain val ∧ ∀ x, val ≠ 87 :: 47 :: 34 :: (x ++ [34]) := by
  have hetag : etagOfText val = .ok e := by
    simp only [deserializeETag, hcontent, bind, Except.bind] at haccept
    cases htext : etagOfText val with
    | error err =>
      rw [htext] at haccept
      cases haccept
    | ok v =>
      rw [htext] at haccept
      exact congrArg Except.ok (Prod.mk.inj (Except.ok.inj haccept)).1
  rw [← etagOfText_plain_iff hetag]
  constructor
  · exact of_readBackETag h hname
  · rintro ⟨hstrong, hplain⟩
    exact (readBackETag_plain h hname hplain (etagOfText_eq_ok hetag).1).trans (congrArg _ hstrong.symm)

end RoundTrip

section Instance

instance : DecidablePred IsPlain := fun s => inferInstanceAs (Decidable (∀ b ∈ s, b ≠ 60 ∧ b ≠ 38))

/-- A tokenizer of elements whose text has no markup. -/
def plainTokens (name s : Bytes) : List (Option Event) :=
  let content := s.take (s.length - (endTag name).length)
  if s = content ++ endTag name ∧ content ≠ [] ∧ IsPlain content then [some (.text content), some (.end name)]
  else [none]

theorem plainTokens_tokenizes : Tokenizes plainTokens where
  spells := by
    intro name s evs rest h
    unfold plainTokens at h
    dsimp only at h
    split_ifs at h with hcontent
    · generalize s.take (s.length - (endTag name).length) = content at h hcontent
      obtain ⟨rfl, hne, hplain⟩ := hcontent
      have hall : List.Forall₂ Spells [.text content, .end name] [content, endTag name] := by
        refine .cons ⟨rfl, hne, hplain⟩ (.cons ⟨rfl, ?_⟩ .nil)
        rw [endTag, ← List.cons_append, ← List.cons_append, List.getLast?_concat]
      have hevs : evs = [Event.text content, .end name].take evs.length := by
        have hmap := congrArg (fun l => l.take evs.length) h
        simp only [List.take_left' (List.length_map some)] at hmap
        have hsome : evs.map some = ([Event.text content, .end name].take evs.length).map some := by
          rw [List.map_take]
          exact hmap.symm
        exact List.map_injective_iff.mpr (Option.some_injective _) hsome
      refine ⟨[content, endTag name].take evs.length, ?_, ?_⟩
      · have htaken := List.forall₂_take evs.length hall
        rwa [← hevs] at htaken
      · obtain ⟨t, ht⟩ := List.take_prefix evs.length [content, endTag name]
        exact ⟨t.flatten, by rw [← List.flatten_append, ht, List.flatten_cons, List.flatten_singleton]⟩
    · cases evs with
      | nil => exact ⟨[], .nil, List.nil_prefix⟩
      | cons ev evs => cases h
  text := by
    intro name s _ hne hplain
    have htake : (s ++ endTag name).take ((s ++ endTag name).length - (endTag name).length) = s := by
      rw [List.length_append, Nat.add_sub_cancel, List.take_left' rfl]
    simp only [plainTokens, htake]
    rw [if_pos ⟨trivial, hne, hplain⟩]

/-- An element with the content `"a"`, or `W/"a"`, behind its start tag. -/
def quotedContent : Deserializer := .new [some (.text [34, 97, 34]), some (.end [69, 84, 97, 103])]

def weakContent : Deserializer := .new [some (.text [87, 47, 34, 97, 34]), some (.end [69, 84, 97, 103])]

theorem etag_round_trip_quoted : readBackETag plainTokens [69, 84, 97, 103] (.strong [97]) = .ok (.strong [97]) := by
  have hcontent : ContentReader.string.read quotedContent =
      .ok ([34, 97, 34], ⟨[], some (.end [69, 84, 97, 103]), none⟩) := by
    simp only [ContentReader.string, Deserializer.text]
    rw [quotedContent, Deserializer.textLoop_text, Deserializer.textLoop_end]
    rfl
  have haccept : deserializeETag quotedContent =
      .ok (.strong [97], ⟨[], some (.end [69, 84, 97, 103]), none⟩) := by
    simp only [deserializeETag, hcontent, bind, Except.bind]
    rfl
  exact (etag_round_trip_iff plainTokens_tokenizes (by unfold IsName; decide +kernel) hcontent haccept).mpr
    ⟨by decide +kernel, by simp⟩

/-- A weak ETag is accepted, and read back as a strong one. -/
theorem weak_read_back_strong :
    Tokenizes plainTokens ∧ (deserializeETag weakContent).map Prod.fst = .ok (.weak [97]) ∧
      readBackETag plainTokens [69, 84, 97, 103] (.weak [97]) = .ok (.strong [97]) ∧
      ETag.strong [97] ≠ ETag.weak [97] :=
  ⟨plainTokens_tokenizes, by decide +kernel, by decide +kernel, by decide⟩

end Instance

end S3s.Xml
