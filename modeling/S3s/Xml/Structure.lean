import S3s.Xml.CharacterData
import S3s.Xml.Incoming

/-! # Structures

What the readers of elements are made of, and the value of a content under such a reader, by the tree that the
content is.
-/
namespace S3s.Xml

/-- A content that is read: with the callbacks of `for_each_element`, which skip every element they do not know, of
`element` and of `text`, and with what is made of the result. -/
inductive Structure : Type → Type 1 where
  | fail {α : Type} (e : DeError) : Structure α
  | pure {α : Type} (a : α) : Structure α
  | text : Structure Bytes
  | map {α β : Type} (x : Structure β) (f : β → Except DeError α) : Structure α
  | element {α : Type} (f : Bytes → Structure α) : Structure α
  | forEachElement {σ : Type} (known : Bytes → Bool) (f : Bytes → σ → Structure σ) (init : σ) : Structure σ

namespace ContentReader

variable {α β σ : Type}

def fail (e : DeError) : ContentReader α where
  read _ := .error e
  shrinks := by
    intro d a d' h
    cases h

def pure (a : α) : ContentReader α where
  read d := .ok (a, d)
  shrinks := by
    intro d a' d' h
    cases h
    exact le_rfl

def map (x : ContentReader β) (f : β → Except DeError α) : ContentReader α where
  read d := (x.read d).bind fun r => (f r.1).map fun a => (a, r.2)
  shrinks := by
    intro d a d' h
    cases hread : x.read d with
    | error e =>
      rw [hread] at h
      cases h
    | ok r =>
      rw [hread] at h
      cases hf : f r.1 with
      | error e => simp [Except.bind, hf, Except.map] at h
      | ok a' =>
        simp only [Except.bind, hf, Except.map] at h
        cases h
        exact x.shrinks hread

def element (f : Bytes → ContentReader α) : ContentReader α where
  read d := d.element f
  shrinks := Deserializer.element_size

/-- The callback that skips the elements it does not know. -/
def knownElement (known : Bytes → Bool) (f : Bytes → σ → ContentReader σ) : ElementReader σ where
  read name s d := if known name then (f name s).read d else (d.skipElementContent 0).map fun d => (s, d)
  shrinks := by
    intro name s d s' d' h
    split at h
    · exact (f name s).shrinks h
    · cases hskip : d.skipElementContent 0 with
      | error e =>
        rw [hskip] at h
        cases h
      | ok d₁ =>
        rw [hskip] at h
        cases h
        exact Deserializer.skipElementContent_size hskip

def forEachElement (known : Bytes → Bool) (f : Bytes → σ → ContentReader σ) (init : σ) : ContentReader σ where
  read d := d.forEachElement (knownElement known f) init
  shrinks := Deserializer.forEachElement_size

end ContentReader

/-- What reads a structure. -/
def Structure.reader {α : Type} : Structure α → ContentReader α
  | .fail e => .fail e
  | .pure a => .pure a
  | .text => .string
  | .map x f => .map x.reader f
  | .element f => .element fun name => (f name).reader
  | .forEachElement known f init => .forEachElement known (fun name s => (f name s).reader) init

/-- `list_content` -/
def Structure.listContent {α : Type} (name : Bytes) (x : Structure α) : Structure (List α) :=
  .forEachElement (fun n => n == name) (fun _ list => .map x fun a => .ok (list ++ [a])) []

theorem Structure.listContent_read {α : Type} (name : Bytes) (x : Structure α) (d : Deserializer) :
    (listContent name x).reader.read d = x.reader.listContent name d := by
  have hmember : ContentReader.knownElement (fun n => n == name)
      (fun _ (list : List α) => (Structure.map x fun a => .ok (list ++ [a])).reader) = x.reader.member name := by
    simp only [ContentReader.knownElement, ContentReader.member, ElementReader.mk.injEq]
    funext n list d
    by_cases hname : n = name
    · simp only [hname, beq_self_eq_true, if_true, ne_eq, not_true, if_false]
      simp only [reader, ContentReader.map]
      cases x.reader.read d <;> rfl
    · simp [hname]
  simp only [listContent, reader, ContentReader.forEachElement, ContentReader.listContent]
  rw [← hmember]
  rfl

/-- `deserialize_xml`, for what is read with `named_element`. -/
def deserializeXml {α : Type} (name : Bytes) (x : Structure α) (events : List (Option Event)) : Except DeError α := do
  let (ans, d) ← (Deserializer.new events).namedElement name x.reader.read
  let _ ← d.expectEof
  .ok ans

/-- A well-formed content: characters and the like, elements, and elements written with one tag. -/
inductive Content where
  | nil
  | item (i : Item) (rest : Content)
  | empty (name : Bytes) (rest : Content)
  | element (name : Bytes) (content rest : Content)

namespace Content

def events : Content → List Event
  | nil => []
  | item i rest => i.event :: rest.events
  | empty name rest => .empty name :: rest.events
  | element name content rest => .start name :: (content.events ++ .end name :: rest.events)

def append : Content → Content → Content
  | nil, c => c
  | item i rest, c => item i (rest.append c)
  | empty name rest, c => empty name (rest.append c)
  | element name content rest, c => element name content (rest.append c)

/-- The names of the elements that are not inside of others. -/
def names : Content → List Bytes
  | nil => []
  | item _ rest => rest.names
  | empty name rest => name :: rest.names
  | element name _ rest => name :: rest.names

/-- No reference is to a character of the planes 1 to 15. -/
def isResolved : Content → Bool
  | nil => true
  | item i rest => !i.isSupplementaryRef && rest.isResolved
  | empty _ rest => rest.isResolved
  | element _ content rest => content.isResolved && rest.isResolved

/-- How deep the elements are nested. -/
def depth : Content → Nat
  | nil => 0
  | item _ rest => rest.depth
  | empty _ rest => max 1 rest.depth
  | element _ content rest => max (content.depth + 1) rest.depth

section Values

variable {α σ : Type}

/-- The characters of a content without elements. -/
def chars : Content → Option Bytes
  | nil => some []
  | item i rest => if i.isSupplementaryRef then none else rest.chars.map fun s => i.textData ++ s
  | empty _ _ | element _ _ _ => none

/-- The value of the only element. -/
def only (f : Bytes → Content → Option α) : Content → Option α
  | nil => none
  | item i rest => if i.isSupplementaryRef then none else rest.only f
  | empty name rest => (f name nil).bind fun a => rest.chars.map fun _ => a
  | element name content rest => (f name content).bind fun a => rest.chars.map fun _ => a

/-- The values of the elements, one after another. -/
def fold (f : Bytes → σ → Content → Option σ) : σ → Content → Option σ
  | s, nil => some s
  | s, item i rest => if i.isSupplementaryRef then none else rest.fold f s
  | s, empty name rest => (f name s nil).bind fun s => rest.fold f s
  | s, element name content rest => (f name s content).bind fun s => rest.fold f s

end Values

end Content

/-- The value of a content, if it has one. -/
def Structure.value {α : Type} : Structure α → Content → Option α
  | .fail _, _ => none
  | .pure a, c => c.chars.map fun _ => a
  | .text, c => c.chars
  | .map x f, c => (x.value c).bind fun b => (f b).toOption
  | .element f, c => c.only fun name c => (f name).value c
  | .forEachElement known f init, c => c.fold (fun name s c =>
      if known name then (f name s).value c else if c.isResolved && c.depth < 2 ^ 32 then some s else none) init

end S3s.Xml
