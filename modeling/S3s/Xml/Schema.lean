import Mathlib.Logic.Equiv.Defs
import S3s.Xml.ETags
import S3s.Xml.Structure

/-! # The generated types

For every type of the service model that is sent as XML, its serializer and its deserializer are generated side by
side. A schema is what both are generated from; what they do with a value and with a document is said once for all
schemas.
-/
namespace S3s.Xml

/-- What a serializer hands to its writer: an event, or a text that is not escaped. -/
inductive Piece where
  | event (ev : Event)
  | raw (s : Bytes)

namespace Piece

/-- `element` -/
def element (name : Bytes) (f : List Piece) : List Piece := event (.start name) :: (f ++ [event (.end name)])

/-- `flattened_list`, by what `serialize_content` writes of its members. -/
def flattenedList (name : Bytes) (members : List (List Piece)) : List Piece := members.flatMap (element name)

end Piece

/-- A type whose content is a text, which is escaped or not. -/
structure TextCodec (α : Type) where
  escapes : Bool
  asStr : α → Bytes
  fromStr : Bytes → Except DeError α

namespace TextCodec

variable {α : Type}

/-- `serialize_content` -/
def serializeContent (c : TextCodec α) (a : α) : List Piece :=
  if c.escapes then [.event (.text (c.asStr a))] else [.raw (c.asStr a)]

/-- `deserialize_content` -/
def deserializeContent (c : TextCodec α) : Structure α := .map .text c.fromStr

/-- The value is what its text is read as. -/
def Restores (c : TextCodec α) (a : α) : Prop := c.fromStr (c.asStr a) = .ok a

/-- A text that is not escaped has no markup in it. -/
def IsMarkupFree (c : TextCodec α) (a : α) : Prop := c.escapes = false → IsPlain (c.asStr a)

end TextCodec

namespace Structure

variable {α σ : Type}

/-- A field that is read once. -/
def once (x : Structure α) : Option α → Structure (Option α)
  | some _ => .fail .duplicateField
  | none => .map x fun a => .ok (some a)

/-- A flattened list that is read member by member. -/
def push (x : Structure α) (list : Option (List α)) : Structure (Option (List α)) :=
  .map x fun a => .ok (some (list.getD [] ++ [a]))

/-- An element of the first field, or of one of the others. -/
def orRest (isFirst : Bool) (first : Structure α) (rest : Structure σ) (s : α × σ) : Structure (α × σ) :=
  if isFirst then .map first fun a => .ok (a, s.2) else .map rest fun t => .ok (s.1, t)

end Structure

mutual

/-- A type: a text, a list in an element of its own, an enumeration of structures, or a structure. The reader of a
structure passes over the elements that it does not know, or refuses them. -/
inductive Schema : Type → Type 1 where
  | text {α : Type} (c : TextCodec α) : Schema α
  | list {α : Type} (memberName : Bytes) (member : Schema α) : Schema (List α)
  | structEnum {α β : Type} (variants : Variants β) (self : α ≃ β) : Schema α
  | struct {α σ ρ : Type} (skipsUnknown : Bool) (fields : Fields σ ρ) (self : α ≃ ρ) : Schema α

/-- The variants of an enumeration. -/
inductive Variants : Type → Type 1 where
  | nil : Variants Empty
  | cons {α β : Type} (name : Bytes) (x : Schema α) (rest : Variants β) : Variants (α ⊕ β)

/-- The fields of a structure, with what is known of them while they are read. -/
inductive Fields : Type → Type → Type 1 where
  | nil : Fields Unit Unit
  | required {α σ ρ : Type} (name : Bytes) (x : Schema α) (rest : Fields σ ρ) : Fields (Option α × σ) (α × ρ)
  | optional {α σ ρ : Type} (name : Bytes) (x : Schema α) (rest : Fields σ ρ) : Fields (Option α × σ) (Option α × ρ)
  | requiredFlattened {α σ ρ : Type} (name : Bytes) (x : Schema α) (rest : Fields σ ρ) :
      Fields (Option (List α) × σ) (List α × ρ)
  | optionalFlattened {α σ ρ : Type} (name : Bytes) (x : Schema α) (rest : Fields σ ρ) :
      Fields (Option (List α) × σ) (Option (List α) × ρ)

end

section Writing

open Piece

mutual

/-- `serialize_content` -/
def Schema.serializeContent {α : Type} : Schema α → α → List Piece
  | .text c, a => c.serializeContent a
  | .list memberName member, iter => flattenedList memberName (iter.map member.serializeContent)
  | .structEnum variants self, a => variants.serializeContent (self a)
  | .struct _ fields self, a => fields.serializeContent (self a)

/-- The variant that the value is. -/
def Variants.serializeContent {α : Type} : Variants α → α → List Piece
  | .nil, a => a.elim
  | .cons name x _, .inl a => element name (x.serializeContent a)
  | .cons _ _ rest, .inr b => rest.serializeContent b

/-- The fields that there are, one behind another. -/
def Fields.serializeContent {σ ρ : Type} : Fields σ ρ → ρ → List Piece
  | .nil, _ => []
  | .required name x rest, p => element name (x.serializeContent p.1) ++ rest.serializeContent p.2
  | .optional name x rest, p =>
    (p.1.elim [] fun val => element name (x.serializeContent val)) ++ rest.serializeContent p.2
  | .requiredFlattened name x rest, p =>
    flattenedList name (p.1.map x.serializeContent) ++ rest.serializeContent p.2
  | .optionalFlattened name x rest, p =>
    (p.1.elim [] fun iter => flattenedList name (iter.map x.serializeContent)) ++ rest.serializeContent p.2

end

/-- `serialize`, behind a declaration or not. -/
def Schema.serialize {α : Type} (x : Schema α) (decl : Option Bytes) (name : Bytes) (val : α) : List Piece :=
  (decl.toList.map fun content => event (.decl content)) ++ element name (x.serializeContent val)

end Writing

section Reading

/-- The names of the elements that the reader of the fields knows. -/
def Fields.names {σ ρ : Type} : Fields σ ρ → List Bytes
  | .nil => []
  | .required name _ rest | .optional name _ rest | .requiredFlattened name _ rest | .optionalFlattened name _ rest =>
    name :: rest.names

def Variants.names {α : Type} : Variants α → List Bytes
  | .nil => []
  | .cons name _ rest => name :: rest.names

/-- No field has been read. -/
def Fields.init {σ ρ : Type} : Fields σ ρ → σ
  | .nil => ()
  | .required _ _ rest | .optional _ _ rest | .requiredFlattened _ _ rest | .optionalFlattened _ _ rest =>
    (none, rest.init)

/-- What the fields make up, if none is missing. -/
def Fields.build {σ ρ : Type} : Fields σ ρ → σ → Except DeError ρ
  | .nil, _ => .ok ()
  | .required _ _ rest, s | .requiredFlattened _ _ rest, s =>
    s.1.elim (.error .missingField) fun a => (rest.build s.2).map fun p => (a, p)
  | .optional _ _ rest, s | .optionalFlattened _ _ rest, s => (rest.build s.2).map fun p => (s.1, p)

mutual

/-- `deserialize_content` -/
def Schema.deserializeContent {α : Type} : Schema α → Structure α
  | .text c => c.deserializeContent
  | .list memberName member => .listContent memberName member.deserializeContent
  | .structEnum variants self => .map (.element variants.deserializeContent) fun b => .ok (self.symm b)
  | .struct skipsUnknown fields self =>
    .map (if fields.names.isEmpty then .pure fields.init else
      .forEachElement (fun name => !skipsUnknown || fields.names.contains name) fields.deserializeContent fields.init)
      fun s => (fields.build s).map self.symm

/-- The content of the variant with this name. -/
def Variants.deserializeContent {α : Type} : Variants α → Bytes → Structure α
  | .nil, _ => .fail .unexpectedTagName
  | .cons name x rest, n =>
    if n = name then .map x.deserializeContent fun a => .ok (.inl a)
    else .map (rest.deserializeContent n) fun b => .ok (.inr b)

/-- The content of an element with this name, which is a field or belongs to one. -/
def Fields.deserializeContent {σ ρ : Type} : Fields σ ρ → Bytes → σ → Structure σ
  | .nil, _, _ => .fail .unexpectedTagName
  | .required name x rest, n, s | .optional name x rest, n, s =>
    .orRest (n == name) (.once x.deserializeContent s.1) (rest.deserializeContent n s.2) s
  | .requiredFlattened name x rest, n, s | .optionalFlattened name x rest, n, s =>
    .orRest (n == name) (.push x.deserializeContent s.1) (rest.deserializeContent n s.2) s

end

/-- `deserialize` of a whole body. -/
def Schema.deserialize {α : Type} (x : Schema α) (name : Bytes) (events : List (Option Event)) : Except DeError α :=
  deserializeXml name x.deserializeContent events

end Reading

end S3s.Xml
