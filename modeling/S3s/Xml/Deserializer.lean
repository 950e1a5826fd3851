import S3s.Library.Text

/-! # The XML deserializer

A pull parser over the events of a reader, with one event of lookahead and one slot
for the end of an empty element. Comments and the like are dropped where the events
are read, references become text, and every loop consumes at least one event.
-/
namespace S3s.Xml

/-- `quick_xml::events::Event`, without the end of the input. Attributes are not read here. -/
inductive Event where
  | start (name : Bytes)
  | «end» (name : Bytes)
  | empty (name : Bytes)
  | text (content : Bytes)
  | cData (content : Bytes)
  | comment (content : Bytes)
  | decl (content : Bytes)
  | pi (content : Bytes)
  | docType (content : Bytes)
  | generalRef (name : Bytes)
deriving DecidableEq

/-- `DeEvent` -/
inductive DeEvent where
  | start (name : Bytes)
  | «end» (name : Bytes)
  | text (content : Bytes)
  | eof
deriving DecidableEq

/-- `DeError` -/
inductive DeError where
  | invalidXml
  | unexpectedEof
  | unexpectedStart
  | unexpectedEnd
  | unexpectedTagName
  | invalidAttribute
  | unexpectedAttributeName
  | invalidContent
  | missingField
  | duplicateField
deriving DecidableEq

/-- An event that takes the reader on. -/
def DeEvent.weight : DeEvent → Nat
  | eof => 0
  | _ => 1

section References

/-- `resolve_xml_entity` -/
def resolveXmlEntity (entity : Bytes) : Option Bytes :=
  if entity = ascii "lt" then some (ascii "<")
  else if entity = ascii "gt" then some (ascii ">")
  else if entity = ascii "amp" then some (ascii "&")
  else if entity = ascii "apos" then some [39]
  else if entity = ascii "quot" then some [34]
  else none

/-- A character of a text, by its code point. -/
def encodeUtf8 (n : Nat) : Bytes :=
  if n < 0x80 then [UInt8.ofNat n]
  else if n < 0x800 then [UInt8.ofNat (0xC0 + n / 64), UInt8.ofNat (0x80 + n % 64)]
  else if n < 0x10000 then
    [UInt8.ofNat (0xE0 + n / 4096), UInt8.ofNat (0x80 + n / 64 % 64), UInt8.ofNat (0x80 + n % 64)]
  else
    [UInt8.ofNat (0xF0 + n / 262144), UInt8.ofNat (0x80 + n / 4096 % 64),
      UInt8.ofNat (0x80 + n / 64 % 64), UInt8.ofNat (0x80 + n % 64)]

/-- `u32::from_str_radix`: digits in the radix, with a plus sign or without. -/
def parseU32Radix (radix : Nat) (s : Bytes) : Option Nat :=
  let digits := if s.head? = some 43 then s.tail else s
  if digits.isEmpty || digits.any fun c => !Text.isRadixDigit radix c then none
  else if Text.valueOf radix digits < 2 ^ 32 then some (Text.valueOf radix digits)
  else none

/-- The code points that are let through. -/
def isResolvedCodepoint (n : Nat) : Bool :=
  n == 0x9 || n == 0xA || n == 0xD || (0x20 ≤ n && n ≤ 0xD7FF) || (0xE000 ≤ n && n ≤ 0xFFFD) ||
    (0x100000 ≤ n && n ≤ 0x10FFFF)

/-- The number of a character reference, in hex behind an `x`. -/
def parseCodepoint (entity : Bytes) : Option Nat :=
  match Text.stripPrefix 120 entity with
  | some hex => parseU32Radix 16 hex
  | none => parseU32Radix 10 entity

/-- `resolve_char_ref` -/
def resolveCharRef (name : Bytes) : Option Bytes := do
  let entity ← Text.stripPrefix 35 name
  if entity.isEmpty then none
  else
    let codepoint ← parseCodepoint entity
    if isResolvedCodepoint codepoint then some (encodeUtf8 codepoint) else none

/-- The text a reference stands for. -/
def resolveRef (name : Bytes) : Option Bytes := (resolveXmlEntity name).or (resolveCharRef name)

end References

section Results

variable {ε α β : Type} {r : Except ε α} {b : β}

theorem bind_eq_ok {f : α → Except ε β} : r.bind f = .ok b ↔ ∃ a, r = .ok a ∧ f a = .ok b := by
  cases r <;> simp [Except.bind]

theorem map_eq_ok {f : α → β} : r.map f = .ok b ↔ ∃ a, r = .ok a ∧ f a = b := by
  cases r <;> simp [Except.map]

end Results

/-- `Deserializer`. The reader is the list of the events to come, with `none` where it fails. -/
structure Deserializer where
  inner : List (Option Event)
  peeked : Option DeEvent
  nextSlot : Option DeEvent

namespace Deserializer

/-- `Deserializer::new` -/
def new (events : List (Option Event)) : Deserializer := ⟨events, none, none⟩

/-- The loop of `read_event`: the event, the events behind it, and what goes to the slot. -/
def readInner : List (Option Event) → Except DeError (DeEvent × List (Option Event) × Option DeEvent)
  | [] => .ok (.eof, [], none)
  | none :: _ => .error .invalidXml
  | some (.start name) :: rest => .ok (.start name, rest, none)
  | some (.end name) :: rest => .ok (.end name, rest, none)
  | some (.text content) :: rest => .ok (.text content, rest, none)
  | some (.empty name) :: rest => .ok (.start name, rest, some (.end name))
  | some (.generalRef name) :: rest =>
    match resolveRef name with
    | some value => .ok (.text value, rest, none)
    | none => .error .invalidContent
  | some (.comment _) :: rest => readInner rest
  | some (.cData _) :: rest => readInner rest
  | some (.decl _) :: rest => readInner rest
  | some (.pi _) :: rest => readInner rest
  | some (.docType _) :: rest => readInner rest

/-- `read_event` -/
def readEvent (d : Deserializer) : Except DeError (DeEvent × Deserializer) :=
  match d.nextSlot with
  | some ev => .ok (ev, { d with nextSlot := none })
  | none =>
    match readInner d.inner with
    | .ok (ev, inner, slot) => .ok (ev, { d with inner := inner, nextSlot := slot })
    | .error e => .error e

/-- `next_event` -/
def nextEvent (d : Deserializer) : Except DeError (DeEvent × Deserializer) :=
  match d.peeked with
  | some ev => .ok (ev, { d with peeked := none })
  | none => d.readEvent

/-- `peek_event` -/
def peekEvent (d : Deserializer) : Except DeError (DeEvent × Deserializer) :=
  match d.peeked with
  | some ev => .ok (ev, d)
  | none =>
    match d.readEvent with
    | .ok (ev, d) => .ok (ev, { d with peeked := some ev })
    | .error e => .error e

/-- `consume_peeked` -/
def consumePeeked (d : Deserializer) : Deserializer := { d with peeked := none }

/-- How many events may still come, an empty element counting twice. -/
def size (d : Deserializer) : Nat :=
  2 * d.inner.length + d.nextSlot.elim 0 DeEvent.weight + d.peeked.elim 0 DeEvent.weight

theorem readInner_length {events inner : List (Option Event)} {ev : DeEvent} {slot : Option DeEvent}
    (h : readInner events = .ok (ev, inner, slot)) :
    2 * inner.length + slot.elim 0 DeEvent.weight + ev.weight ≤ 2 * events.length := by
  fun_induction readInner events with
  | case1 => cases h; simp [DeEvent.weight]
  | case2 => cases h
  | case3 =>
    cases h
    simp only [DeEvent.weight, List.length_cons, Option.elim]
    omega
  | case4 =>
    cases h
    simp only [DeEvent.weight, List.length_cons, Option.elim]
    omega
  | case5 =>
    cases h
    simp only [DeEvent.weight, List.length_cons, Option.elim]
    omega
  | case6 =>
    cases h
    simp only [DeEvent.weight, List.length_cons, Option.elim]
    omega
  | case7 rest name value hvalue =>
    cases h
    simp only [DeEvent.weight, List.length_cons, Option.elim]
    omega
  | case8 => cases h
  | case9 rest _ ih | case10 rest _ ih | case11 rest _ ih | case12 rest _ ih | case13 rest _ ih =>
    have hrest := ih h
    simp only [List.length_cons]
    omega

theorem readEvent_size {d d' : Deserializer} {ev : DeEvent} (h : d.readEvent = .ok (ev, d')) :
    d'.peeked = d.peeked ∧ d'.size + ev.weight ≤ d.size := by
  unfold readEvent at h
  split at h
  · next slot hslot =>
    cases h
    refine ⟨rfl, ?_⟩
    simp only [size, hslot, Option.elim_some, Option.elim_none]
    omega
  · next hslot =>
    split at h
    · next ev' inner slot hread =>
      cases h
      have hlength := readInner_length hread
      refine ⟨rfl, ?_⟩
      simp only [size, hslot, Option.elim_none]
      omega
    · cases h

theorem nextEvent_size {d d' : Deserializer} {ev : DeEvent} (h : d.nextEvent = .ok (ev, d')) :
    d'.size + ev.weight ≤ d.size := by
  unfold nextEvent at h
  split at h
  · next ev' hpeeked =>
    cases h
    simp only [size, hpeeked, Option.elim_some, Option.elim_none]
    omega
  · exact (readEvent_size h).2

theorem peekEvent_size {d d' : Deserializer} {ev : DeEvent} (h : d.peekEvent = .ok (ev, d')) :
    d'.size ≤ d.size ∧ d'.consumePeeked.size + ev.weight ≤ d.size := by
  unfold peekEvent at h
  split at h
  · next hpeeked =>
    cases h
    simp only [size, consumePeeked, hpeeked, Option.elim_some, Option.elim_none]
    exact ⟨le_rfl, by omega⟩
  · next hpeeked =>
    split at h
    · next ev' d'' hread =>
      cases h
      have hsize := (readEvent_size hread).2
      have hkept := (readEvent_size hread).1
      simp only [size, consumePeeked, hkept, hpeeked, Option.elim_some, Option.elim_none]
        at hsize ⊢
      exact ⟨by omega, by omega⟩
    · cases h

/-- `expect_start` -/
def expectStart (name : Bytes) (d : Deserializer) : Except DeError Deserializer :=
  match h : d.nextEvent with
  | .error e => .error e
  | .ok (.start x, d') => if x ≠ name then .error .unexpectedTagName else .ok d'
  | .ok (.end _, _) => .error .unexpectedEnd
  | .ok (.text _, d') => expectStart name d'
  | .ok (.eof, _) => .error .unexpectedEof
termination_by d.size
decreasing_by exact nextEvent_size h

/-- `expect_end` -/
def expectEnd (name : Bytes) (d : Deserializer) : Except DeError Deserializer :=
  match h : d.nextEvent with
  | .error e => .error e
  | .ok (.start _, _) => .error .unexpectedStart
  | .ok (.end x, d') => if x ≠ name then .error .unexpectedTagName else .ok d'
  | .ok (.text _, d') => expectEnd name d'
  | .ok (.eof, _) => .error .unexpectedEof
termination_by d.size
decreasing_by exact nextEvent_size h

/-- `expect_eof` -/
def expectEof (d : Deserializer) : Except DeError Deserializer :=
  match h : d.nextEvent with
  | .error e => .error e
  | .ok (.start _, _) => .error .unexpectedStart
  | .ok (.end _, _) => .error .unexpectedEnd
  | .ok (.text _, d') => expectEof d'
  | .ok (.eof, d') => .ok d'
termination_by d.size
decreasing_by exact nextEvent_size h

/-- The loop of `text`: the events of text, put together up to the end of the element. -/
def textLoop (buf : Option Bytes) (d : Deserializer) : Except DeError (Bytes × Deserializer) :=
  match h : d.peekEvent with
  | .error e => .error e
  | .ok (.start _, _) => .error .unexpectedStart
  | .ok (.end _, d') => .ok (buf.getD [], d')
  | .ok (.eof, d') => if buf = none then .error .unexpectedEof else .ok (buf.getD [], d')
  | .ok (.text s, d') => textLoop (some (buf.getD [] ++ s)) d'.consumePeeked
termination_by d.size
decreasing_by exact (peekEvent_size h).2

/-- `text` -/
def text {α : Type} (f : Bytes → Except DeError α) (d : Deserializer) :
    Except DeError (α × Deserializer) := do
  let (s, d) ← textLoop none d
  let a ← f s
  .ok (a, d)

/-- `named_element` -/
def namedElement {α : Type} (name : Bytes) (f : Deserializer → Except DeError (α × Deserializer))
    (d : Deserializer) : Except DeError (α × Deserializer) := do
  let d ← expectStart name d
  let (ans, d) ← f d
  let d ← expectEnd name d
  .ok (ans, d)

theorem expectEnd_size {name : Bytes} {d d' : Deserializer} (h : d.expectEnd name = .ok d') :
    d'.size < d.size := by
  fun_induction expectEnd name d with
  | case1 | case2 | case3 | case6 => cases h
  | case4 d x d₁ hev hname =>
    cases h
    exact nextEvent_size hev
  | case5 d s d₁ hev ih => exact (ih h).trans (nextEvent_size hev)

theorem textLoop_size {buf : Option Bytes} {s : Bytes} {d d' : Deserializer}
    (h : d.textLoop buf = .ok (s, d')) : d'.size ≤ d.size := by
  fun_induction textLoop buf d with
  | case1 | case2 | case4 => cases h
  | case3 buf d name d₁ hev =>
    cases h
    exact (peekEvent_size hev).1
  | case5 buf d d₁ hev hbuf =>
    cases h
    exact (peekEvent_size hev).1
  | case6 buf d s' d₁ hev ih => exact (ih h).trans (Nat.le_of_succ_le (peekEvent_size hev).2)

end Deserializer

/-- `DeserializeContent`: what reads the content of an element. It takes no event back. -/
structure ContentReader (α : Type) where
  read : Deserializer → Except DeError (α × Deserializer)
  shrinks : ∀ {d a d'}, read d = .ok (a, d') → d'.size ≤ d.size

/-- The callback of `for_each_element`, with what it has collected so far. -/
structure ElementReader (σ : Type) where
  read : Bytes → σ → Deserializer → Except DeError (σ × Deserializer)
  shrinks : ∀ {name s d s' d'}, read name s d = .ok (s', d') → d'.size ≤ d.size

namespace Deserializer

/-- `for_each_element` -/
def forEachElement {σ : Type} (f : ElementReader σ) (s : σ) (d : Deserializer) :
    Except DeError (σ × Deserializer) :=
  match h : d.peekEvent with
  | .error e => .error e
  | .ok (.start name, d₁) =>
    match hf : f.read name s d₁.consumePeeked with
    | .error e => .error e
    | .ok (s', d₂) =>
      match hend : d₂.expectEnd name with
      | .error e => .error e
      | .ok d₃ => forEachElement f s' d₃
  | .ok (.text _, d₁) => forEachElement f s d₁.consumePeeked
  | .ok (.end _, d₁) => .ok (s, d₁)
  | .ok (.eof, d₁) => .ok (s, d₁)
termination_by d.size
decreasing_by
  · have hstart : d₁.consumePeeked.size < d.size := (peekEvent_size h).2
    have hread := f.shrinks hf
    have hclose := expectEnd_size hend
    omega
  · exact (peekEvent_size h).2

theorem forEachElement_size {σ : Type} {f : ElementReader σ} {s s' : σ} {d d' : Deserializer}
    (h : d.forEachElement f s = .ok (s', d')) : d'.size ≤ d.size := by
  fun_induction forEachElement f s d with
  | case1 | case2 | case3 => cases h
  | case4 s d name d₁ hev s₁ d₂ hread d₃ hend ih =>
    have hstart := (peekEvent_size hev).2
    have hcontent := f.shrinks hread
    have hclose := expectEnd_size hend
    exact (ih h).trans (by omega)
  | case5 s d content d₁ hev ih => exact (ih h).trans (Nat.le_of_succ_le (peekEvent_size hev).2)
  | case6 s d name d₁ hev =>
    cases h
    exact (peekEvent_size hev).1
  | case7 s d d₁ hev =>
    cases h
    exact (peekEvent_size hev).1

/-- `element` -/
def element {α : Type} (f : Bytes → ContentReader α) (d : Deserializer) : Except DeError (α × Deserializer) :=
  match h : d.peekEvent with
  | .error e => .error e
  | .ok (.start name, d₁) =>
    match (f name).read d₁.consumePeeked with
    | .error e => .error e
    | .ok (ans, d₂) => (d₂.expectEnd name).map fun d₃ => (ans, d₃)
  | .ok (.text _, d₁) => element f d₁.consumePeeked
  | .ok (.end _, _) => .error .unexpectedEnd
  | .ok (.eof, _) => .error .unexpectedEnd
termination_by d.size
decreasing_by exact (peekEvent_size h).2

theorem element_size {α : Type} {f : Bytes → ContentReader α} {a : α} {d d' : Deserializer}
    (h : d.element f = .ok (a, d')) : d'.size ≤ d.size := by
  fun_induction element f d with
  | case1 | case2 | case5 | case6 => cases h
  | case3 d name d₁ hev a₁ d₂ hread =>
    obtain ⟨d₃, hend, hd₃⟩ := map_eq_ok.mp h
    cases hd₃
    have hstart := (peekEvent_size hev).2
    have hcontent := (f name).shrinks hread
    have hclose := expectEnd_size hend
    omega
  | case4 d content d₁ hev ih => exact (ih h).trans (Nat.le_of_succ_le (peekEvent_size hev).2)

/-- `skip_element_content`, with the depth of the elements that are open. The depth is a `u32`, and its overflow is
not checked in a release build. -/
def skipElementContent (depth : Nat) (d : Deserializer) : Except DeError Deserializer :=
  match h : d.peekEvent with
  | .error e => .error e
  | .ok (.start _, d') => skipElementContent ((depth + 1) % 2 ^ 32) d'.consumePeeked
  | .ok (.end _, d') => if depth = 0 then .ok d' else skipElementContent (depth - 1) d'.consumePeeked
  | .ok (.text _, d') => skipElementContent depth d'.consumePeeked
  | .ok (.eof, _) => .error .unexpectedEof
termination_by d.size
decreasing_by
  · exact (peekEvent_size h).2
  · exact (peekEvent_size h).2
  · exact (peekEvent_size h).2

theorem skipElementContent_size {depth : Nat} {d d' : Deserializer}
    (h : d.skipElementContent depth = .ok d') : d'.size ≤ d.size := by
  fun_induction skipElementContent depth d with
  | case1 | case6 => cases h
  | case2 depth d name d₁ hev ih => exact (ih h).trans (Nat.le_of_succ_le (peekEvent_size hev).2)
  | case3 d name d₁ hev =>
    cases h
    exact (peekEvent_size hev).1
  | case4 depth d name d₁ hev hdepth ih => exact (ih h).trans (Nat.le_of_succ_le (peekEvent_size hev).2)
  | case5 depth d s d₁ hev ih => exact (ih h).trans (Nat.le_of_succ_le (peekEvent_size hev).2)

end Deserializer

namespace ContentReader

/-- `DeserializeContent` of a `String`. -/
def string : ContentReader Bytes where
  read := Deserializer.text .ok
  shrinks := by
    intro d a d' h
    unfold Deserializer.text at h
    cases hloop : d.textLoop none with
    | error e =>
      rw [hloop] at h
      cases h
    | ok r =>
      rw [hloop] at h
      cases h
      exact Deserializer.textLoop_size hloop

variable {α : Type} (content : ContentReader α)

/-- The callback of `list_content`: members are collected, other elements are skipped. -/
def member (name : Bytes) : ElementReader (List α) where
  read x list d :=
    if x ≠ name then (d.skipElementContent 0).map fun d => (list, d)
    else (content.read d).map fun r => (list ++ [r.1], r.2)
  shrinks := by
    intro x list d list' d' h
    split at h
    · cases hskip : d.skipElementContent 0 with
      | error e =>
        rw [hskip] at h
        cases h
      | ok d₁ =>
        rw [hskip] at h
        cases h
        exact Deserializer.skipElementContent_size hskip
    · cases hread : content.read d with
      | error e =>
        rw [hread] at h
        cases h
      | ok r =>
        rw [hread] at h
        cases h
        exact content.shrinks hread

/-- `list_content` -/
def listContent (name : Bytes) (d : Deserializer) : Except DeError (List α × Deserializer) :=
  d.forEachElement (content.member name) []

end ContentReader

end S3s.Xml
