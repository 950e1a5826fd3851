import S3s.Xml.Deserializer

/-! # Character data

The content of an element without children, item by item as the tokenizer sees it,
and what `text` makes of it.
-/
namespace S3s.Xml

/-- The predefined entities. -/
inductive Entity where
  | lt
  | gt
  | amp
  | apos
  | quot
deriving DecidableEq

namespace Entity

def name : Entity → Bytes
  | lt => ascii "lt"
  | gt => ascii "gt"
  | amp => ascii "amp"
  | apos => ascii "apos"
  | quot => ascii "quot"

/-- The character an entity stands for. -/
def value : Entity → UInt8
  | lt => 60
  | gt => 62
  | amp => 38
  | apos => 39
  | quot => 34

theorem resolveRef_name (e : Entity) : resolveRef e.name = some [e.value] := by
  cases e <;> decide

end Entity

/-- The characters of XML 1.0. -/
def isXmlChar (n : Nat) : Bool :=
  n == 0x9 || n == 0xA || n == 0xD || (0x20 ≤ n && n ≤ 0xD7FF) || (0xE000 ≤ n && n ≤ 0xFFFD) ||
    (0x10000 ≤ n && n ≤ 0x10FFFF)

/-- A well-formed character reference, in decimal or in hex. -/
structure CharRef where
  hex : Bool
  digits : Bytes
  nonempty : digits ≠ []
  valid : ∀ c ∈ digits, Text.isRadixDigit (if hex then 16 else 10) c = true
  isChar : isXmlChar (Text.valueOf (if hex then 16 else 10) digits) = true

namespace CharRef

def radix (r : CharRef) : Nat := if r.hex then 16 else 10

def codepoint (r : CharRef) : Nat := Text.valueOf r.radix r.digits

/-- What stands behind the number sign. -/
def number (r : CharRef) : Bytes := if r.hex then 120 :: r.digits else r.digits

/-- What stands between the ampersand and the semicolon. -/
def name (r : CharRef) : Bytes := 35 :: r.number

/-- A character of the planes 1 to 15. -/
def isSupplementary (r : CharRef) : Bool := 0x10000 ≤ r.codepoint && r.codepoint < 0x100000

theorem not_isRadixDigit {radix : Nat} {c : UInt8} (h : c = 43 ∨ c = 120) :
    Text.isRadixDigit radix c = false := by
  rcases h with rfl | rfl <;> rfl

theorem parse_digits (r : CharRef) : parseU32Radix r.radix r.digits = some r.codepoint := by
  have hsign : r.digits.head? ≠ some 43 := by
    intro hhead
    have hdigit := r.valid 43 (List.mem_of_mem_head? hhead)
    rw [not_isRadixDigit (.inl rfl)] at hdigit
    cases hdigit
  have hempty : r.digits.isEmpty = false := List.isEmpty_eq_false_iff.mpr r.nonempty
  have hall : (r.digits.any fun c => !Text.isRadixDigit r.radix c) = false := by
    rw [List.any_eq_false]
    intro c hc
    rw [show Text.isRadixDigit r.radix c = true from r.valid c hc]
    simp
  have hbound : r.codepoint < 2 ^ 32 := by
    have hchar : isXmlChar r.codepoint = true := r.isChar
    simp only [isXmlChar, Bool.or_eq_true, Bool.and_eq_true, decide_eq_true_eq, beq_iff_eq] at hchar
    omega
  simp only [parseU32Radix, if_neg hsign, hempty, hall, Bool.or_self, Bool.false_eq_true, if_false]
  exact if_pos hbound

theorem resolveXmlEntity_name (r : CharRef) : resolveXmlEntity r.name = none := by
  have hne : ∀ s : Bytes, s.head? ≠ some 35 → r.name ≠ s := by
    rintro s hs rfl
    exact hs rfl
  simp only [resolveXmlEntity, if_neg (hne (ascii "lt") (by decide)),
    if_neg (hne (ascii "gt") (by decide)), if_neg (hne (ascii "amp") (by decide)),
    if_neg (hne (ascii "apos") (by decide)), if_neg (hne (ascii "quot") (by decide))]

theorem isResolvedCodepoint_of (r : CharRef) (h : r.isSupplementary = false) :
    isResolvedCodepoint r.codepoint = true := by
  have hchar : isXmlChar r.codepoint = true := r.isChar
  simp only [isXmlChar, isResolvedCodepoint, isSupplementary, Bool.or_eq_true, Bool.and_eq_true,
    decide_eq_true_eq, beq_iff_eq, Bool.and_eq_false_iff, decide_eq_false_iff_not] at *
  omega

theorem number_isEmpty (r : CharRef) : r.number.isEmpty = false := by
  rw [number]
  cases r.hex with
  | true => rfl
  | false => exact List.isEmpty_eq_false_iff.mpr r.nonempty

/-- A decimal reference has no `x` that could be taken for the mark of hex. -/
theorem parseCodepoint_number (r : CharRef) : parseCodepoint r.number = some r.codepoint := by
  have hparse := r.parse_digits
  rw [number]
  cases hhex : r.hex with
  | true =>
    rw [radix, hhex] at hparse
    exact hparse
  | false =>
    rw [radix, hhex] at hparse
    cases hdigits : r.digits with
    | nil => exact (r.nonempty hdigits).elim
    | cons c digits =>
      have hx : c ≠ 120 := by
        rintro rfl
        have hdigit := r.valid 120 (by rw [hdigits]; exact List.mem_cons_self)
        rw [not_isRadixDigit (.inr rfl)] at hdigit
        cases hdigit
      rw [hdigits] at hparse
      simpa [parseCodepoint, Text.stripPrefix, hx] using hparse

theorem resolveRef_name (r : CharRef) (h : r.isSupplementary = false) :
    resolveRef r.name = some (encodeUtf8 r.codepoint) := by
  have hstrip : Text.stripPrefix 35 r.name = some r.number := Text.stripPrefix_eq_some.mpr rfl
  rw [resolveRef, resolveXmlEntity_name, Option.none_or, resolveCharRef, hstrip]
  simp only [Option.bind_eq_bind, Option.bind_some, r.number_isEmpty, Bool.false_eq_true, if_false,
    r.parseCodepoint_number, r.isResolvedCodepoint_of h, if_true]

end CharRef

/-- What the content of an element without children is made of. -/
inductive Item where
  | text (content : Bytes)
  | entity (e : Entity)
  | charRef (r : CharRef)
  | cData (content : Bytes)
  | comment (content : Bytes)
  | pi (content : Bytes)

namespace Item

/-- The event the tokenizer makes of an item. -/
def event : Item → Event
  | text content => .text content
  | entity e => .generalRef e.name
  | charRef r => .generalRef r.name
  | cData content => .cData content
  | comment content => .comment content
  | pi content => .pi content

/-- The character data of an item. -/
def charData : Item → Bytes
  | text content => content
  | entity e => [e.value]
  | charRef r => encodeUtf8 r.codepoint
  | cData content => content
  | comment _ => []
  | pi _ => []

/-- The data of texts and references; sections of CDATA are left out. -/
def textData : Item → Bytes
  | cData _ => []
  | item => item.charData

/-- A reference to a character of the planes 1 to 15. -/
def isSupplementaryRef : Item → Bool
  | charRef r => r.isSupplementary
  | _ => false

end Item

/-- The events of a content. -/
def contentEvents (content : List Item) : List (Option Event) :=
  content.map fun item => some item.event

/-- The character data of a content. -/
def contentCharData (content : List Item) : Bytes := content.flatMap Item.charData

/-- The data of the texts and references of a content. -/
def contentTextData (content : List Item) : Bytes := content.flatMap Item.textData

/-- The events of an element, written with two tags. -/
def elementEvents (name : Bytes) (content : List Item) : List (Option Event) :=
  some (.start name) :: (contentEvents content ++ [some (.end name)])

namespace Deserializer

@[simp] theorem peekEvent_start (name : Bytes) (rest : List (Option Event)) :
    (new (some (.start name) :: rest)).peekEvent =
      .ok (.start name, { new rest with peeked := some (.start name) }) := rfl

@[simp] theorem peekEvent_end (name : Bytes) (rest : List (Option Event)) :
    (new (some (.end name) :: rest)).peekEvent =
      .ok (.end name, { new rest with peeked := some (.end name) }) := rfl

theorem textLoop_of_peekEvent {buf : Option Bytes} {s : Bytes} {d d' : Deserializer}
    (h : d.peekEvent = .ok (.text s, d')) :
    d.textLoop buf = d'.consumePeeked.textLoop (some (buf.getD [] ++ s)) := by
  rw [textLoop]
  split <;> simp_all

theorem textLoop_of_peekEvent_eq {buf : Option Bytes} {d d' : Deserializer}
    (h : d.peekEvent = d'.peekEvent) : d.textLoop buf = d'.textLoop buf := by
  rw [textLoop, textLoop, h]

theorem textLoop_end (buf : Option Bytes) (name : Bytes) (rest : List (Option Event)) :
    (new (some (.end name) :: rest)).textLoop buf =
      .ok (buf.getD [], { new rest with peeked := some (.end name) }) := by
  rw [textLoop]
  rfl

theorem textLoop_text (buf : Option Bytes) (s : Bytes) (rest : List (Option Event)) :
    (new (some (.text s) :: rest)).textLoop buf =
      (new rest).textLoop (some (buf.getD [] ++ s)) := by
  have hpeek : (new (some (.text s) :: rest)).peekEvent =
      .ok (.text s, { new rest with peeked := some (.text s) }) := rfl
  exact textLoop_of_peekEvent hpeek

theorem textLoop_generalRef (buf : Option Bytes) {name s : Bytes} (rest : List (Option Event))
    (h : resolveRef name = some s) :
    (new (some (.generalRef name) :: rest)).textLoop buf =
      (new rest).textLoop (some (buf.getD [] ++ s)) := by
  have hpeek : (new (some (.generalRef name) :: rest)).peekEvent =
      .ok (.text s, { new rest with peeked := some (.text s) }) := by
    simp [peekEvent, readEvent, readInner, new, h]
  exact textLoop_of_peekEvent hpeek

/-- One item: its data joins the buffer, or the item is passed over. -/
theorem textLoop_item (buf : Option Bytes) (item : Item) (rest : List (Option Event))
    (h : item.isSupplementaryRef = false) :
    ∃ buf' : Option Bytes, buf'.getD [] = buf.getD [] ++ item.textData ∧
      (new (some item.event :: rest)).textLoop buf = (new rest).textLoop buf' := by
  cases item with
  | text content => exact ⟨some _, rfl, textLoop_text buf content rest⟩
  | entity e => exact ⟨some _, rfl, textLoop_generalRef buf rest e.resolveRef_name⟩
  | charRef r => exact ⟨some _, rfl, textLoop_generalRef buf rest (r.resolveRef_name h)⟩
  | cData content => exact ⟨buf, (List.append_nil _).symm, textLoop_of_peekEvent_eq rfl⟩
  | comment content => exact ⟨buf, (List.append_nil _).symm, textLoop_of_peekEvent_eq rfl⟩
  | pi content => exact ⟨buf, (List.append_nil _).symm, textLoop_of_peekEvent_eq rfl⟩

/-- A content: the loop gathers its data and stops before the end of the element. -/
theorem textLoop_content (buf : Option Bytes) (content : List Item) (name : Bytes)
    (rest : List (Option Event)) (h : ∀ item ∈ content, item.isSupplementaryRef = false) :
    (new (contentEvents content ++ some (.end name) :: rest)).textLoop buf =
      .ok (buf.getD [] ++ contentTextData content,
        { new rest with peeked := some (.end name) }) := by
  induction content generalizing buf with
  | nil =>
    rw [show contentTextData [] = [] from rfl, List.append_nil]
    exact textLoop_end buf name rest
  | cons item content ih =>
    obtain ⟨buf', hbuf, hstep⟩ := textLoop_item buf item
      (contentEvents content ++ some (.end name) :: rest) (h item List.mem_cons_self)
    have hrest := ih buf' fun i hi => h i (List.mem_cons_of_mem _ hi)
    rw [hbuf, List.append_assoc] at hrest
    exact hstep.trans hrest

/-- `text` on the content of an element: the callback gets the data of the texts and references,
in their order, and the end of the element is left to be read. -/
theorem text_content {α : Type} (f : Bytes → Except DeError α) (content : List Item) (name : Bytes)
    (rest : List (Option Event)) (h : ∀ item ∈ content, item.isSupplementaryRef = false) :
    (new (contentEvents content ++ some (.end name) :: rest)).text f =
      (f (contentTextData content)).map
        fun a => (a, { new rest with peeked := some (.end name) }) := by
  rw [text, textLoop_content none content name rest h]
  cases hf : f (contentTextData content) <;>
    simp [hf, Except.map, bind, Except.bind]

@[simp] theorem expectStart_start (name : Bytes) (rest : List (Option Event)) :
    (new (some (.start name) :: rest)).expectStart name = .ok (new rest) := by
  rw [expectStart]
  simp [nextEvent, readEvent, readInner, new]

@[simp] theorem expectEnd_peeked (name : Bytes) (rest : List (Option Event)) :
    ({ new rest with peeked := some (.end name) } : Deserializer).expectEnd name =
      .ok (new rest) := by
  rw [expectEnd]
  simp [nextEvent, new]

/-- An element read with its tags. -/
theorem namedElement_text {α : Type} (f : Bytes → Except DeError α) (name : Bytes)
    (content : List Item) (rest : List (Option Event))
    (h : ∀ item ∈ content, item.isSupplementaryRef = false) :
    (new (elementEvents name content ++ rest)).namedElement name (text f) =
      (f (contentTextData content)).map fun a => (a, new rest) := by
  have htext := text_content f content name rest h
  have hevents : elementEvents name content ++ rest =
      some (.start name) :: (contentEvents content ++ some (.end name) :: rest) := by
    simp [elementEvents]
  rw [namedElement, hevents, expectStart_start]
  simp only [bind, Except.bind, htext]
  cases hf : f (contentTextData content) <;> simp [Except.map]

theorem namedElement_empty {α : Type} (f : Bytes → Except DeError α) (name : Bytes)
    (rest : List (Option Event)) :
    (new (some (.empty name) :: rest)).namedElement name (text f) =
      (f []).map fun a => (a, new rest) := by
  have hstart : (new (some (.empty name) :: rest)).expectStart name =
      .ok { new rest with nextSlot := some (.end name) } := by
    rw [expectStart]
    simp [nextEvent, readEvent, readInner, new]
  have htext : ({ new rest with nextSlot := some (.end name) } : Deserializer).textLoop none =
      .ok ([], { new rest with peeked := some (.end name) }) := by
    rw [textLoop]
    rfl
  rw [namedElement, hstart]
  simp only [bind, Except.bind, text, htext]
  cases f [] <;> simp [Except.map]

end Deserializer

theorem contentTextData_eq_charData {content : List Item}
    (h : ∀ item ∈ content, ∀ s, item ≠ .cData s) :
    contentTextData content = contentCharData content := by
  apply List.flatMap_congr
  intro item hitem
  cases item with
  | cData s => exact (h _ hitem s rfl).elim
  | text | entity | charRef | comment | pi => rfl

open Deserializer

/-- The text of an element is the data of its texts and references, in order: whatever comments,
instructions and sections of CDATA stand between them, with two tags or with one. -/
theorem text_of_element {α : Type} (f : Bytes → Except DeError α) (name : Bytes)
    (content : List Item) (rest : List (Option Event))
    (h : ∀ item ∈ content, item.isSupplementaryRef = false) :
    (new (elementEvents name content ++ rest)).namedElement name (text f) =
        (f (contentTextData content)).map (fun a => (a, new rest)) ∧
      (new (some (.empty name) :: rest)).namedElement name (text f) =
        (f []).map (fun a => (a, new rest)) ∧
      (new (elementEvents name content ++ rest)).namedElement name ContentReader.string.read =
        .ok (contentTextData content, new rest) ∧
      ((∀ item ∈ content, ∀ s, item ≠ .cData s) →
        contentTextData content = contentCharData content) :=
  ⟨namedElement_text f name content rest h, namedElement_empty f name rest,
    namedElement_text .ok name content rest h, contentTextData_eq_charData⟩

/-- `<Key>a&#x26;<!-- b -->&lt;c</Key>` -/
theorem text_of_element_sample :
    (new (elementEvents (ascii "Key") [.text (ascii "a"),
      .charRef ⟨true, ascii "26", by decide, by decide +kernel, by decide⟩, .comment (ascii " b "),
      .entity .lt, .text (ascii "c")])).namedElement (ascii "Key") ContentReader.string.read =
      .ok (ascii "a&<c", new []) := by
  have h := (text_of_element .ok (ascii "Key") [.text (ascii "a"),
      .charRef ⟨true, ascii "26", by decide, by decide +kernel, by decide⟩, .comment (ascii " b "),
      .entity .lt, .text (ascii "c")] [] (by simp [Item.isSupplementaryRef]; decide)).2.2.1
  rw [List.append_nil] at h
  exact h.trans (congrArg (fun s => Except.ok (s, new [])) (by decide))

/-- `<Key>a<![CDATA[b]]>c</Key>` is read as `ac`. -/
theorem cData_section_passed_over :
    (new (elementEvents (ascii "Key")
      [.text (ascii "a"), .cData (ascii "b"), .text (ascii "c")])).namedElement (ascii "Key")
        ContentReader.string.read = .ok (ascii "ac", new []) ∧
      contentCharData [.text (ascii "a"), .cData (ascii "b"), .text (ascii "c")] = ascii "abc" := by
  have h := namedElement_text .ok (ascii "Key")
    [.text (ascii "a"), .cData (ascii "b"), .text (ascii "c")] [] (by simp [Item.isSupplementaryRef])
  rw [List.append_nil] at h
  exact ⟨h, by decide⟩

end S3s.Xml
