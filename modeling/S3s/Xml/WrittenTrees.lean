import S3s.Xml.Schema
import S3s.Xml.Serializer
import S3s.Xml.UnknownElements

/-! # What is written, as a tree

What a serializer writes of a value is a well-formed content: its elements are those of the fields that there are,
and the texts in them are read as they were before they were escaped.
-/
namespace S3s.Xml

/-- What the tokenizer makes of a text that was escaped, and of one that was not. -/
structure Tokens where
  escaped : Bytes → List Item
  raw : Bytes → List Item

namespace Tokens

/-- An escaped text is read back, and so is one without markup that was not escaped. -/
structure Faithful (t : Tokens) : Prop where
  escaped : TextInverse t.escaped
  raw : ∀ s, IsPlain s → (∀ item ∈ t.raw s, ∃ content, item = .text content) ∧ contentCharData (t.raw s) = s

/-- The events of one piece. -/
def ofPiece (t : Tokens) : Piece → List (Option Event)
  | .event (.text content) => contentEvents (t.escaped content)
  | .event ev => [some ev]
  | .raw s => contentEvents (t.raw s)

/-- The events of what was written, when it is read. -/
def events (t : Tokens) (written : List Piece) : List (Option Event) := written.flatMap t.ofPiece

variable (t : Tokens) (name : Bytes)

@[simp] theorem events_nil : t.events [] = [] := rfl

@[simp] theorem events_append (v w : List Piece) : t.events (v ++ w) = t.events v ++ t.events w :=
  List.flatMap_append

@[simp] theorem events_element (w : List Piece) :
    t.events (Piece.element name w) = some (.start name) :: (t.events w ++ [some (.end name)]) := by
  simp [Piece.element, events, ofPiece]

variable {t}

/-- What is read of a text, escaped or not. -/
theorem Faithful.items (ht : t.Faithful) {α : Type} {c : TextCodec α} {a : α} (ha : c.IsMarkupFree a) :
    (∀ item ∈ if c.escapes then t.escaped (c.asStr a) else t.raw (c.asStr a), item.isSupplementaryRef = false) ∧
      contentTextData (if c.escapes then t.escaped (c.asStr a) else t.raw (c.asStr a)) = c.asStr a := by
  cases hescapes : c.escapes with
  | true =>
    simp only [if_true]
    constructor
    · intro item hitem
      obtain ⟨content, rfl⟩ | ⟨e, rfl⟩ := ht.escaped.escaped _ item hitem <;> rfl
    · refine (contentTextData_eq_charData ?_).trans (ht.escaped.inverse _)
      rintro item hitem content rfl
      obtain ⟨_, h⟩ | ⟨_, h⟩ := ht.escaped.escaped _ _ hitem <;> cases h
  | false =>
    obtain ⟨htext, hdata⟩ := ht.raw _ (ha hescapes)
    simp only [Bool.false_eq_true, if_false]
    constructor
    · intro item hitem
      obtain ⟨content, rfl⟩ := htext item hitem
      rfl
    · refine (contentTextData_eq_charData ?_).trans hdata
      rintro item hitem content rfl
      obtain ⟨_, h⟩ := htext _ hitem
      cases h

end Tokens

namespace Content

/-- A content without elements. -/
def ofItems (items : List Item) : Content := items.foldr item nil

/-- A content of elements with nothing between them. -/
def ofElements (es : List (Bytes × Content)) : Content := es.foldr (fun e c => element e.1 e.2 c) nil

@[simp] theorem ofElements_nil : ofElements [] = nil := rfl

@[simp] theorem ofElements_cons (e : Bytes × Content) (es : List (Bytes × Content)) :
    ofElements (e :: es) = element e.1 e.2 (ofElements es) := rfl

theorem events_ofItems (items : List Item) : (ofItems items).events.map some = contentEvents items := by
  induction items with
  | nil => rfl
  | cons i items ih => exact congrArg (some i.event :: ·) ih

theorem chars_ofItems {items : List Item} (h : ∀ item ∈ items, item.isSupplementaryRef = false) :
    (ofItems items).chars = some (contentTextData items) := by
  induction items with
  | nil => rfl
  | cons i items ih =>
    have hrest := ih fun item hitem => h item (List.mem_cons_of_mem _ hitem)
    change (if i.isSupplementaryRef then none else (ofItems items).chars.map fun s => i.textData ++ s) = _
    rw [h i List.mem_cons_self, hrest]
    rfl

theorem events_ofElements_append (es es' : List (Bytes × Content)) :
    (ofElements (es ++ es')).events = (ofElements es).events ++ (ofElements es').events := by
  induction es with
  | nil => rfl
  | cons e es ih => simp [events, ih]

theorem fold_ofElements {σ : Type} (f : Bytes → σ → Content → Option σ) (es : List (Bytes × Content)) (s : σ) :
    (ofElements es).fold f s = es.foldlM (fun s e => f e.1 s e.2) s := by
  induction es generalizing s with
  | nil => rfl
  | cons e es ih =>
    rw [ofElements_cons, fold, List.foldlM_cons]
    exact congrArg _ (funext ih)

end Content

section Trees

variable (t : Tokens)

mutual

/-- What is written of a value, as it is read. -/
def Schema.tree {α : Type} : Schema α → α → Content
  | .text c, a => .ofItems (if c.escapes then t.escaped (c.asStr a) else t.raw (c.asStr a))
  | .list memberName member, iter => .ofElements (iter.map fun a => (memberName, member.tree a))
  | .structEnum variants self, a => .ofElements [variants.element (self a)]
  | .struct _ fields self, a => .ofElements (fields.elements (self a))

def Variants.element {α : Type} : Variants α → α → Bytes × Content
  | .nil, a => a.elim
  | .cons name x _, .inl a => (name, x.tree a)
  | .cons _ _ rest, .inr b => rest.element b

def Fields.elements {σ ρ : Type} : Fields σ ρ → ρ → List (Bytes × Content)
  | .nil, _ => []
  | .required name x rest, p => (name, x.tree p.1) :: rest.elements p.2
  | .optional name x rest, p => p.1.toList.map (fun a => (name, x.tree a)) ++ rest.elements p.2
  | .requiredFlattened name x rest, p => p.1.map (fun a => (name, x.tree a)) ++ rest.elements p.2
  | .optionalFlattened name x rest, p => (p.1.getD []).map (fun a => (name, x.tree a)) ++ rest.elements p.2

end

variable {t} {α : Type}

theorem events_flattenedList (name : Bytes) {w : α → List Piece} {tree : α → Content} (iter : List α)
    (h : ∀ a ∈ iter, t.events (w a) = (tree a).events.map some) :
    t.events (Piece.flattenedList name (iter.map w)) =
      (Content.ofElements (iter.map fun a => (name, tree a))).events.map some := by
  induction iter with
  | nil => rfl
  | cons a iter ih =>
    have hrest := ih fun b hb => h b (List.mem_cons_of_mem _ hb)
    simp only [Piece.flattenedList] at hrest
    simp [Piece.flattenedList, Content.events, h a List.mem_cons_self, hrest]

theorem events_singleton (name : Bytes) {w : List Piece} {c : Content} (h : t.events w = c.events.map some) :
    t.events (Piece.element name w) = (Content.ofElements [(name, c)]).events.map some := by
  simp [Content.events, h]

mutual

/-- What is written is read as the tree. -/
theorem Schema.events_tree {α : Type} : ∀ (x : Schema α) (a : α),
    t.events (x.serializeContent a) = (x.tree t a).events.map some
  | .text c, a => by
    rw [Schema.serializeContent, Schema.tree, Content.events_ofItems, TextCodec.serializeContent]
    split_ifs <;> simp [Tokens.events, Tokens.ofPiece]
  | .list memberName member, iter => by
    rw [Schema.serializeContent, Schema.tree]
    exact events_flattenedList memberName iter fun a _ => member.events_tree a
  | .structEnum variants self, a => by
    rw [Schema.serializeContent, Schema.tree]
    exact variants.events_element (self a)
  | .struct _ fields self, a => by
    rw [Schema.serializeContent, Schema.tree]
    exact fields.events_elements (self a)

theorem Variants.events_element {α : Type} : ∀ (variants : Variants α) (a : α),
    t.events (variants.serializeContent a) = (Content.ofElements [variants.element t a]).events.map some
  | .nil, a => a.elim
  | .cons name x _, .inl a => by
    rw [Variants.serializeContent, Variants.element]
    exact events_singleton name (x.events_tree a)
  | .cons _ _ rest, .inr b => by
    rw [Variants.serializeContent, Variants.element]
    exact rest.events_element b

theorem Fields.events_elements {σ ρ : Type} : ∀ (fields : Fields σ ρ) (p : ρ),
    t.events (fields.serializeContent p) = (Content.ofElements (fields.elements t p)).events.map some
  | .nil, _ => by rw [Fields.serializeContent, Fields.elements]; rfl
  | .required name x rest, p => by
    have hfirst := events_singleton name (x.events_tree p.1)
    rw [Fields.serializeContent, Fields.elements, Tokens.events_append, hfirst, rest.events_elements p.2,
      ← List.map_append, ← Content.events_ofElements_append, List.singleton_append]
  | .optional name x rest, p => by
    rw [Fields.serializeContent, Fields.elements, Tokens.events_append, rest.events_elements p.2,
      Content.events_ofElements_append, List.map_append]
    cases p.1 with
    | none => rfl
    | some a => exact congrArg (· ++ _) (events_singleton name (x.events_tree a))
  | .requiredFlattened name x rest, p => by
    have hfirst := events_flattenedList name p.1 fun a _ => x.events_tree a
    rw [Fields.serializeContent, Fields.elements, Tokens.events_append, rest.events_elements p.2,
      Content.events_ofElements_append, List.map_append]
    exact congrArg (· ++ _) hfirst
  | .optionalFlattened name x rest, p => by
    rw [Fields.serializeContent, Fields.elements, Tokens.events_append, rest.events_elements p.2,
      Content.events_ofElements_append, List.map_append]
    cases p.1 with
    | none => rfl
    | some iter => exact congrArg (· ++ _) (events_flattenedList name iter fun a _ => x.events_tree a)

end

theorem isMisc_nil : ∀ ev ∈ ([] : List Event), ev.isMisc = true := by
  simp

/-- The document that a body is. -/
def Schema.document (x : Schema α) (decl : Option Bytes) (name : Bytes) (val : α) : Document where
  before := decl.toList.map .decl
  root := name
  content := x.tree t val
  behind := []
  before_isMisc := by
    intro ev hev
    obtain ⟨content, -, rfl⟩ := List.mem_map.mp hev
    rfl
  behind_isMisc := isMisc_nil

theorem Schema.events_serialize (x : Schema α) (decl : Option Bytes) (name : Bytes) (val : α) :
    t.events (x.serialize decl name val) = (x.document (t := t) decl name val).events := by
  rw [Schema.serialize, Tokens.events_append, Tokens.events_element, x.events_tree]
  cases decl <;> simp [Schema.document, Document.events, Document.eventsWith, Tokens.events, Tokens.ofPiece]

end Trees

end S3s.Xml
