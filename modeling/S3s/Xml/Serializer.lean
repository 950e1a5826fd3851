import S3s.Xml.CharacterData

/-! # The XML serializer

What the serializer writes, as events, and how the deserializer reads it back: texts,
elements, lists and flattened lists.
-/
namespace S3s.Xml

/-- `Serializer`, over a buffer in memory: the events that were written. -/
structure Serializer where
  inner : List Event

namespace Serializer

/-- `Serializer::new` -/
def new : Serializer := ⟨[]⟩

/-- `event` -/
def event (ev : Event) (s : Serializer) : Serializer := ⟨s.inner ++ [ev]⟩

/-- `element` -/
def element (name : Bytes) (f : Serializer → Serializer) (s : Serializer) : Serializer :=
  (f (s.event (.start name))).event (.end name)

end Serializer

/-- `SerializeContent`: what writes the content of an element, behind what is written. -/
structure ContentWriter (α : Type) where
  write : α → Serializer → Serializer
  appends : ∀ a s, (write a s).inner = s.inner ++ (write a Serializer.new).inner

/-- `SerializeContent` of a string. -/
def ContentWriter.string : ContentWriter Bytes where
  write content := Serializer.event (.text content)
  appends := fun _ _ => rfl

namespace Serializer

variable {α : Type} (w : ContentWriter α)

/-- `content` -/
def content (name : Bytes) (val : α) (s : Serializer) : Serializer := s.element name (w.write val)

/-- `flattened_list` -/
def flattenedList (name : Bytes) (iter : List α) (s : Serializer) : Serializer :=
  iter.foldl (fun s member => s.content w name member) s

/-- `list` -/
def list (name memberName : Bytes) (iter : List α) (s : Serializer) : Serializer :=
  s.element name fun s => iter.foldl (fun s member => s.content w memberName member) s

theorem content_inner (name : Bytes) (val : α) (s : Serializer) :
    (s.content w name val).inner =
      s.inner ++ .start name :: ((w.write val new).inner ++ [.end name]) := by
  simp [content, element, event, w.appends val ⟨s.inner ++ [.start name]⟩]

theorem flattenedList_inner (name : Bytes) (iter : List α) (s : Serializer) :
    (s.flattenedList w name iter).inner =
      s.inner ++ iter.flatMap fun val => (new.content w name val).inner := by
  induction iter generalizing s with
  | nil => simp [flattenedList]
  | cons val iter ih =>
    have hrest := ih (s.content w name val)
    simp only [flattenedList, List.foldl_cons, List.flatMap_cons] at hrest ⊢
    rw [hrest, content_inner w name val s, content_inner w name val new]
    simp [new]

end Serializer

/-- What is written and then read: `tokens` is what the tokenizer makes of an escaped text. -/
def readBack (tokens : Bytes → List Item) (written : List Event) : List (Option Event) :=
  written.flatMap fun ev =>
    match ev with
    | .text content => contentEvents (tokens content)
    | ev => [some ev]

/-- Escaping and tokenising are inverse on a text: what comes back are texts and references to the
predefined entities, and together they are the text. -/
structure TextInverse (tokens : Bytes → List Item) : Prop where
  escaped : ∀ s, ∀ item ∈ tokens s, (∃ content, item = .text content) ∨ ∃ e, item = .entity e
  inverse : ∀ s, contentCharData (tokens s) = s

/-- A writer and a reader of contents that belong together. -/
def RoundTrips {α : Type} (tokens : Bytes → List Item) (w : ContentWriter α) (r : ContentReader α) :
    Prop :=
  ∀ (a : α) (name : Bytes) (rest : List (Option Event)),
    r.read (.new (readBack tokens (w.write a .new).inner ++ some (.end name) :: rest)) =
      .ok (a, { Deserializer.new rest with peeked := some (.end name) })

section RoundTrips

open Deserializer

variable {tokens : Bytes → List Item}

theorem readBack_append (l₁ l₂ : List Event) :
    readBack tokens (l₁ ++ l₂) = readBack tokens l₁ ++ readBack tokens l₂ :=
  List.flatMap_append

theorem string_roundTrips (h : TextInverse tokens) :
    RoundTrips tokens .string .string := by
  intro s name rest
  have hkind : ∀ item ∈ tokens s, item.isSupplementaryRef = false := by
    intro item hitem
    obtain ⟨content, rfl⟩ | ⟨e, rfl⟩ := h.escaped s item hitem <;> rfl
  have hdata : contentTextData (tokens s) = s := by
    refine (contentTextData_eq_charData ?_).trans (h.inverse s)
    rintro item hitem content rfl
    obtain ⟨_, hitem⟩ | ⟨_, hitem⟩ := h.escaped s _ hitem <;> cases hitem
  have hwritten : readBack tokens (ContentWriter.string.write s .new).inner =
      contentEvents (tokens s) := by
    simp [readBack, ContentWriter.string, Serializer.event, Serializer.new]
  have htext := text_content .ok (tokens s) name rest hkind
  rw [hdata] at htext
  rw [hwritten]
  exact htext

variable {α σ : Type} {w : ContentWriter α} {r : ContentReader α}

theorem readBack_content (a : α) (name : Bytes) (rest : List (Option Event)) :
    readBack tokens (Serializer.new.content w name a).inner ++ rest =
      some (.start name) ::
        (readBack tokens (w.write a .new).inner ++ some (.end name) :: rest) := by
  rw [Serializer.content_inner]
  simp [readBack, Serializer.new]

/-- An element that `content` has written. -/
theorem RoundTrips.namedElement (h : RoundTrips tokens w r) (a : α) (name : Bytes)
    (rest : List (Option Event)) :
    (Deserializer.new (readBack tokens (Serializer.new.content w name a).inner ++ rest)).namedElement
      name r.read = .ok (a, .new rest) := by
  rw [Deserializer.namedElement, readBack_content, expectStart_start]
  simp [bind, Except.bind, h a name rest]

theorem forEachElement_of_start {f : ElementReader σ} {s s' : σ} {name : Bytes}
    {d d₁ d₂ d₃ : Deserializer} (hpeek : d.peekEvent = .ok (.start name, d₁))
    (hread : f.read name s d₁.consumePeeked = .ok (s', d₂)) (hend : d₂.expectEnd name = .ok d₃) :
    d.forEachElement f s = d₃.forEachElement f s' := by
  rw [forEachElement]
  split
  · simp_all
  · next name' d₁' hpeek' =>
    rw [hpeek] at hpeek'
    cases hpeek'
    split
    · simp_all
    · next s'' d₂' hread' =>
      rw [hread] at hread'
      cases hread'
      split
      · simp_all
      · simp_all
  · simp_all
  · simp_all
  · simp_all

theorem forEachElement_end (f : ElementReader σ) (s : σ) (name : Bytes)
    (rest : List (Option Event)) :
    (Deserializer.new (some (.end name) :: rest)).forEachElement f s =
      .ok (s, { Deserializer.new rest with peeked := some (.end name) }) := by
  rw [forEachElement]
  rfl

/-- One member: its element is taken off and joins what was collected. -/
theorem RoundTrips.forEachElement_content (h : RoundTrips tokens w r) (f : ElementReader σ)
    (push : σ → α → σ) (name : Bytes)
    (hf : ∀ s d, f.read name s d = (r.read d).map fun v => (push s v.1, v.2)) (s : σ) (a : α)
    (rest : List (Option Event)) :
    (Deserializer.new (readBack tokens (Serializer.new.content w name a).inner ++ rest)).forEachElement
      f s = (Deserializer.new rest).forEachElement f (push s a) := by
  rw [readBack_content]
  apply forEachElement_of_start (peekEvent_start _ _)
  · rw [hf]
    exact congrArg _ (h a name rest)
  · exact expectEnd_peeked name rest

/-- A flattened list in an element: every member is collected, in order. -/
theorem RoundTrips.forEachElement_flattenedList (h : RoundTrips tokens w r) (f : ElementReader σ)
    (push : σ → α → σ) (name parent : Bytes)
    (hf : ∀ s d, f.read name s d = (r.read d).map fun v => (push s v.1, v.2)) (s : σ)
    (iter : List α) (rest : List (Option Event)) :
    (Deserializer.new (readBack tokens (Serializer.new.flattenedList w name iter).inner ++
      some (.end parent) :: rest)).forEachElement f s =
      .ok (iter.foldl push s, { Deserializer.new rest with peeked := some (.end parent) }) := by
  rw [Serializer.flattenedList_inner]
  induction iter generalizing s with
  | nil => exact forEachElement_end f s parent rest
  | cons a iter ih =>
    rw [List.flatMap_cons, ← List.append_assoc, readBack_append, List.append_assoc]
    exact (h.forEachElement_content f push name hf s a _).trans (ih (push s a))

theorem readBack_list (name memberName : Bytes) (iter : List α) (rest : List (Option Event)) :
    readBack tokens (Serializer.new.list w name memberName iter).inner ++ rest =
      some (.start name) :: (readBack tokens
        (Serializer.new.flattenedList w memberName iter).inner ++ some (.end name) :: rest) := by
  have hmembers := Serializer.flattenedList_inner w memberName iter
  have hlist : (Serializer.new.list w name memberName iter).inner =
      .start name :: ((Serializer.new.flattenedList w memberName iter).inner ++ [.end name]) := by
    rw [hmembers Serializer.new]
    exact congrArg (· ++ [Event.end name]) (hmembers ⟨[.start name]⟩)
  rw [hlist]
  simp [readBack]

/-- A list between the tags of its element, flattened or not, read member by member. -/
theorem RoundTrips.namedElement_list (h : RoundTrips tokens w r) (f : ElementReader σ)
    (push : σ → α → σ) (name memberName : Bytes)
    (hf : ∀ s d, f.read memberName s d = (r.read d).map fun v => (push s v.1, v.2)) (s : σ)
    (iter : List α) (rest : List (Option Event)) :
    (Deserializer.new (readBack tokens (Serializer.new.list w name memberName iter).inner ++
      rest)).namedElement name (forEachElement f s) = .ok (iter.foldl push s, .new rest) := by
  rw [Deserializer.namedElement, readBack_list, expectStart_start]
  simp only [bind, Except.bind, h.forEachElement_flattenedList f push memberName name hf s iter rest,
    expectEnd_peeked]

theorem RoundTrips.listContent (h : RoundTrips tokens w r) (name memberName : Bytes)
    (iter : List α) (rest : List (Option Event)) :
    (Deserializer.new (readBack tokens (Serializer.new.list w name memberName iter).inner ++
      rest)).namedElement name (r.listContent memberName) = .ok (iter, .new rest) := by
  have hfold : ∀ list : List α, iter.foldl (fun list a => list ++ [a]) list = list ++ iter := by
    induction iter with
    | nil => simp
    | cons a iter ih => simp [ih]
  have hlist := h.namedElement_list (r.member memberName) (fun list a => list ++ [a]) name
    memberName (fun list d => by simp [ContentReader.member]) [] iter rest
  rw [hfold] at hlist
  exact hlist

end RoundTrips

open Deserializer

/-- What the serializer writes is read back: a string in an element, a list in an element of its
own, and a flattened list, by `list_content` or by a callback that collects the members among
other things. -/
theorem xml_round_trip (tokens : Bytes → List Item) (h : TextInverse tokens)
    (name memberName s : Bytes) (l : List Bytes) (rest : List (Option Event)) :
    (new (readBack tokens (Serializer.new.content .string name s).inner ++ rest)).namedElement name
        ContentReader.string.read = .ok (s, new rest) ∧
      (new (readBack tokens (Serializer.new.list .string name memberName l).inner ++
        rest)).namedElement name (ContentReader.string.listContent memberName) =
          .ok (l, new rest) ∧
      (new (readBack tokens (Serializer.new.element name
        (Serializer.flattenedList .string memberName l)).inner ++ rest)).namedElement name
          (ContentReader.string.listContent memberName) = .ok (l, new rest) ∧
      ∀ (σ : Type) (f : ElementReader σ) (push : σ → Bytes → σ) (state : σ),
        (∀ s d, f.read memberName s d =
          (ContentReader.string.read d).map fun v => (push s v.1, v.2)) →
        (new (readBack tokens (Serializer.new.element name
          (Serializer.flattenedList .string memberName l)).inner ++ rest)).namedElement name
            (forEachElement f state) = .ok (l.foldl push state, new rest) := by
  have hstring := string_roundTrips h
  have hlist := hstring.listContent name memberName l rest
  refine ⟨hstring.namedElement s name rest, hlist, hlist, ?_⟩
  intro σ f push state hf
  exact hstring.namedElement_list f push name memberName hf state l rest

section Escaping

/-- The entity a character is escaped with. -/
def escapeEntity (c : UInt8) : Option Entity :=
  if c = 60 then some .lt
  else if c = 62 then some .gt
  else if c = 38 then some .amp
  else if c = 39 then some .apos
  else if c = 34 then some .quot
  else none

/-- An escaped text as it is read: runs of plain characters, and references between them. -/
def escapedItems : Bytes → List Item
  | [] => []
  | c :: s =>
    match escapeEntity c with
    | some e => .entity e :: escapedItems s
    | none =>
      match escapedItems s with
      | .text content :: items => .text (c :: content) :: items
      | items => .text [c] :: items

theorem escapeEntity_value {c : UInt8} {e : Entity} (h : escapeEntity c = some e) :
    e.value = c := by
  revert h
  unfold escapeEntity
  split_ifs <;> rintro ⟨⟩ <;> simp_all [Entity.value]

theorem escapedItems_textInverse : TextInverse escapedItems where
  escaped := by
    intro s
    fun_induction escapedItems s with
    | case1 => simp
    | case2 c s e hc ih => simpa using ih
    | case3 c s hc content items hitems ih =>
      rw [hitems] at ih
      simpa using ih
    | case4 c s hc hitems ih => simpa using ih
  inverse := by
    intro s
    fun_induction escapedItems s with
    | case1 => rfl
    | case2 c s e hc ih => simp_all [contentCharData, Item.charData, escapeEntity_value hc]
    | case3 c s hc content items hitems ih =>
      rw [hitems] at ih
      simp_all [contentCharData, Item.charData]
    | case4 c s hc hitems ih => simp_all [contentCharData, Item.charData]

/-- A list of an empty string, one with markup in it and one that looks escaped. -/
theorem xml_round_trip_sample :
    (new (readBack escapedItems (Serializer.new.list .string (ascii "Keys") (ascii "Key")
      [[], ascii " a<b ", ascii "&lt;"]).inner ++ [])).namedElement (ascii "Keys")
        (ContentReader.string.listContent (ascii "Key")) =
      .ok ([[], ascii " a<b ", ascii "&lt;"], new []) :=
  (xml_round_trip escapedItems escapedItems_textInverse (ascii "Keys") (ascii "Key") []
    [[], ascii " a<b ", ascii "&lt;"] []).2.1

end Escaping

end S3s.Xml
