import S3s.Xml.Deserializer

/-! # The events to come

What a deserializer still delivers, wherever its events are kept: ahead of it, in the slot or behind the
lookahead. What is read depends on nothing else, and reading takes no more end tags than start tags.
-/
namespace S3s.Xml

/-- The events to come. Behind a failure there is nothing to read, but there are tags. -/
inductive Stream where
  | start (name : Bytes) (rest : Stream)
  | «end» (name : Bytes) (rest : Stream)
  | text (content : Bytes) (rest : Stream)
  | failure (e : DeError) (rest : Stream)
  | eof

namespace Stream

def head : Stream → Except DeError DeEvent
  | start name _ => .ok (.start name)
  | «end» name _ => .ok (.end name)
  | text content _ => .ok (.text content)
  | failure e _ => .error e
  | eof => .ok .eof

def tail : Stream → Stream
  | start _ rest | «end» _ rest | text _ rest | failure _ rest => rest
  | eof => eof

def length : Stream → Nat
  | start _ rest | «end» _ rest | text _ rest | failure _ rest => rest.length + 1
  | eof => 0

/-- What `expect_eof` makes of the events to come. -/
def trailing : Stream → Except DeError Unit
  | start _ _ => .error .unexpectedStart
  | «end» _ _ => .error .unexpectedEnd
  | text _ rest => rest.trailing
  | failure e _ => .error e
  | eof => .ok ()

/-- How many elements are open. -/
def level : Stream → Int
  | start _ rest => rest.level - 1
  | «end» _ rest => rest.level + 1
  | text _ rest | failure _ rest => rest.level
  | eof => 0

theorem level_of_trailing {s : Stream} (h : s.trailing = .ok ()) : s.level = 0 := by
  induction s with
  | start | «end» | failure => cases h
  | text content s ih => exact ih h
  | eof => rfl

end Stream

/-- What the events ahead deliver. -/
def incoming : List (Option Event) → Stream
  | [] => .eof
  | none :: rest => .failure .invalidXml (incoming rest)
  | some (.start name) :: rest => .start name (incoming rest)
  | some (.end name) :: rest => .end name (incoming rest)
  | some (.empty name) :: rest => .start name (.end name (incoming rest))
  | some (.text content) :: rest => .text content (incoming rest)
  | some (.generalRef name) :: rest =>
    match resolveRef name with
    | some value => .text value (incoming rest)
    | none => .failure .invalidContent (incoming rest)
  | some (.cData _) :: rest => incoming rest
  | some (.comment _) :: rest => incoming rest
  | some (.decl _) :: rest => incoming rest
  | some (.pi _) :: rest => incoming rest
  | some (.docType _) :: rest => incoming rest

/-- What a deserializer delivers. -/
inductive Delivers : Deserializer → Stream → Prop
  | new (inner : List (Option Event)) : Delivers ⟨inner, none, none⟩ (incoming inner)
  | slot (inner : List (Option Event)) (name : Bytes) :
      Delivers ⟨inner, none, some (.end name)⟩ (.end name (incoming inner))
  | peeked {inner : List (Option Event)} {slot : Option DeEvent} {s : Stream} {ev : DeEvent}
      (h : Delivers ⟨inner, none, slot⟩ s.tail) (hev : s.head = .ok ev) : Delivers ⟨inner, some ev, slot⟩ s

namespace Deserializer

section Events

theorem readInner_failing {inner : List (Option Event)} {e : DeError} (h : (incoming inner).head = .error e) :
    readInner inner = .error e := by
  fun_induction incoming inner with
  | case1 | case3 | case4 | case5 | case6 => cases h
  | case2 =>
    cases h
    rfl
  | case7 rest name value hvalue => cases h
  | case8 rest name hvalue =>
    cases h
    simp [readInner, hvalue]
  | case9 rest _ ih | case10 rest _ ih | case11 rest _ ih | case12 rest _ ih | case13 rest _ ih => exact ih h

theorem readInner_delivers {inner : List (Option Event)} {ev : DeEvent} (h : (incoming inner).head = .ok ev) :
    ∃ inner' slot, readInner inner = .ok (ev, inner', slot) ∧
      Delivers ⟨inner', none, slot⟩ (incoming inner).tail := by
  fun_induction incoming inner with
  | case1 =>
    cases h
    exact ⟨[], none, rfl, .new []⟩
  | case2 => cases h
  | case3 name rest | case4 name rest | case6 name rest =>
    cases h
    exact ⟨rest, none, rfl, .new rest⟩
  | case5 name rest =>
    cases h
    exact ⟨rest, some (.end name), rfl, .slot rest name⟩
  | case7 name rest value hvalue =>
    cases h
    exact ⟨rest, none, by simp [readInner, hvalue], .new rest⟩
  | case8 rest name hvalue => cases h
  | case9 rest _ ih | case10 rest _ ih | case11 rest _ ih | case12 rest _ ih | case13 rest _ ih => exact ih h

variable {d : Deserializer} {s : Stream} {ev : DeEvent} {e : DeError}

theorem readEvent_failing (h : Delivers d s) (hpeeked : d.peeked = none) (hs : s.head = .error e) :
    d.readEvent = .error e := by
  cases h with
  | new inner => simp [readEvent, readInner_failing hs]
  | slot inner name => cases hs
  | peeked h hev => cases hpeeked

theorem readEvent_delivers (h : Delivers d s) (hpeeked : d.peeked = none) (hs : s.head = .ok ev) :
    ∃ d', d.readEvent = .ok (ev, d') ∧ d'.peeked = none ∧ Delivers d' s.tail := by
  cases h with
  | new inner =>
    obtain ⟨inner', slot, hread, hrest⟩ := readInner_delivers hs
    exact ⟨⟨inner', none, slot⟩, by simp [readEvent, hread], rfl, hrest⟩
  | slot inner name =>
    cases hs
    exact ⟨⟨inner, none, none⟩, rfl, rfl, .new inner⟩
  | peeked h hev => cases hpeeked

theorem nextEvent_failing (h : Delivers d s) (hs : s.head = .error e) : d.nextEvent = .error e := by
  cases h with
  | new inner => exact readEvent_failing (.new inner) rfl hs
  | slot inner name => cases hs
  | peeked h hev =>
    rw [hev] at hs
    cases hs

theorem nextEvent_delivers (h : Delivers d s) (hs : s.head = .ok ev) :
    ∃ d', d.nextEvent = .ok (ev, d') ∧ Delivers d' s.tail := by
  cases h with
  | new inner =>
    obtain ⟨d', hread, -, hrest⟩ := readEvent_delivers (.new inner) rfl hs
    exact ⟨d', hread, hrest⟩
  | slot inner name =>
    obtain ⟨d', hread, -, hrest⟩ := readEvent_delivers (.slot inner name) rfl hs
    exact ⟨d', hread, hrest⟩
  | @peeked inner slot _ ev' h hev =>
    rw [hev] at hs
    cases hs
    exact ⟨⟨inner, none, slot⟩, rfl, h⟩

theorem peekEvent_failing (h : Delivers d s) (hs : s.head = .error e) : d.peekEvent = .error e := by
  cases h with
  | new inner => simp [peekEvent, readEvent_failing (.new inner) rfl hs]
  | slot inner name => cases hs
  | peeked h hev =>
    rw [hev] at hs
    cases hs

/-- The event that is looked at is still to come; when it is consumed, what is behind it comes next. -/
theorem peekEvent_delivers (h : Delivers d s) (hs : s.head = .ok ev) :
    ∃ d', d.peekEvent = .ok (ev, d') ∧ Delivers d' s ∧ Delivers d'.consumePeeked s.tail := by
  have hnew : d.peeked = none →
      ∃ d', d.peekEvent = .ok (ev, d') ∧ Delivers d' s ∧ Delivers d'.consumePeeked s.tail := by
    intro hpeeked
    obtain ⟨⟨inner, peeked, slot⟩, hread, hnone, hrest⟩ := readEvent_delivers h hpeeked hs
    dsimp only at hnone
    subst hnone
    exact ⟨⟨inner, some ev, slot⟩, by simp [peekEvent, hpeeked, hread], .peeked hrest hs, hrest⟩
  cases h with
  | new inner => exact hnew rfl
  | slot inner name => exact hnew rfl
  | @peeked inner slot _ ev' h hev =>
    rw [hev] at hs
    cases hs
    exact ⟨⟨inner, some ev, slot⟩, rfl, .peeked h hev, h⟩

end Events

end Deserializer

/-- The end of an element is read behind its content. -/
def closed {α : Type} (name : Bytes) (r : Except DeError (α × Deserializer)) : Except DeError (α × Deserializer) :=
  r.bind fun r => (r.2.expectEnd name).map fun d => (r.1, d)

namespace Delivers

open Deserializer

variable {d : Deserializer} {s : Stream} {n name content : Bytes} {e : DeError}

section ExpectEnd

variable (name)

theorem expectEnd_start (h : Delivers d (.start n s)) : d.expectEnd name = .error .unexpectedStart := by
  obtain ⟨d', hnext, -⟩ := nextEvent_delivers h rfl
  rw [expectEnd]
  split <;> simp_all

theorem expectEnd_end (h : Delivers d (.end n s)) :
    ∃ d', Delivers d' s ∧ d.expectEnd name = if n ≠ name then .error .unexpectedTagName else .ok d' := by
  obtain ⟨d', hnext, hrest⟩ := nextEvent_delivers h rfl
  refine ⟨d', hrest, ?_⟩
  rw [expectEnd]
  split <;> simp_all

theorem expectEnd_text (h : Delivers d (.text content s)) :
    ∃ d', Delivers d' s ∧ d.expectEnd name = d'.expectEnd name := by
  obtain ⟨d', hnext, hrest⟩ := nextEvent_delivers h rfl
  refine ⟨d', hrest, ?_⟩
  rw [expectEnd]
  split <;> simp_all

theorem expectEnd_failure (h : Delivers d (.failure e s)) : d.expectEnd name = .error e := by
  have hnext := nextEvent_failing h rfl
  rw [expectEnd]
  split <;> simp_all

theorem expectEnd_eof (h : Delivers d .eof) : d.expectEnd name = .error .unexpectedEof := by
  obtain ⟨d', hnext, -⟩ := nextEvent_delivers h rfl
  rw [expectEnd]
  split <;> simp_all

end ExpectEnd

section ExpectStart

variable (name)

theorem expectStart_start (h : Delivers d (.start n s)) :
    ∃ d', Delivers d' s ∧ d.expectStart name = if n ≠ name then .error .unexpectedTagName else .ok d' := by
  obtain ⟨d', hnext, hrest⟩ := nextEvent_delivers h rfl
  refine ⟨d', hrest, ?_⟩
  rw [expectStart]
  split <;> simp_all

theorem expectStart_end (h : Delivers d (.end n s)) : d.expectStart name = .error .unexpectedEnd := by
  obtain ⟨d', hnext, -⟩ := nextEvent_delivers h rfl
  rw [expectStart]
  split <;> simp_all

theorem expectStart_text (h : Delivers d (.text content s)) :
    ∃ d', Delivers d' s ∧ d.expectStart name = d'.expectStart name := by
  obtain ⟨d', hnext, hrest⟩ := nextEvent_delivers h rfl
  refine ⟨d', hrest, ?_⟩
  rw [expectStart]
  split <;> simp_all

theorem expectStart_failure (h : Delivers d (.failure e s)) : d.expectStart name = .error e := by
  have hnext := nextEvent_failing h rfl
  rw [expectStart]
  split <;> simp_all

theorem expectStart_eof (h : Delivers d .eof) : d.expectStart name = .error .unexpectedEof := by
  obtain ⟨d', hnext, -⟩ := nextEvent_delivers h rfl
  rw [expectStart]
  split <;> simp_all

end ExpectStart

section SkipElementContent

variable (depth : Nat)

theorem skipElementContent_start (h : Delivers d (.start n s)) :
    ∃ d', Delivers d' s ∧ d.skipElementContent depth = d'.skipElementContent ((depth + 1) % 2 ^ 32) := by
  obtain ⟨d', hpeek, -, hrest⟩ := peekEvent_delivers h rfl
  refine ⟨d'.consumePeeked, hrest, ?_⟩
  rw [skipElementContent]
  split <;> simp_all

theorem skipElementContent_end (h : Delivers d (.end n s)) : ∃ d₁ d', Delivers d₁ (.end n s) ∧ Delivers d' s ∧
    d.skipElementContent depth = if depth = 0 then .ok d₁ else d'.skipElementContent (depth - 1) := by
  obtain ⟨d', hpeek, hkept, hrest⟩ := peekEvent_delivers h rfl
  refine ⟨d', d'.consumePeeked, hkept, hrest, ?_⟩
  rw [skipElementContent]
  split <;> simp_all

theorem skipElementContent_text (h : Delivers d (.text content s)) :
    ∃ d', Delivers d' s ∧ d.skipElementContent depth = d'.skipElementContent depth := by
  obtain ⟨d', hpeek, -, hrest⟩ := peekEvent_delivers h rfl
  refine ⟨d'.consumePeeked, hrest, ?_⟩
  rw [skipElementContent]
  split <;> simp_all

theorem skipElementContent_failure (h : Delivers d (.failure e s)) : d.skipElementContent depth = .error e := by
  have hpeek := peekEvent_failing h rfl
  rw [skipElementContent]
  split <;> simp_all

theorem skipElementContent_eof (h : Delivers d .eof) : d.skipElementContent depth = .error .unexpectedEof := by
  obtain ⟨d', hpeek, -⟩ := peekEvent_delivers h rfl
  rw [skipElementContent]
  split <;> simp_all

end SkipElementContent

section TextLoop

variable (buf : Option Bytes)

theorem textLoop_start (h : Delivers d (.start n s)) : d.textLoop buf = .error .unexpectedStart := by
  obtain ⟨d', hpeek, -⟩ := peekEvent_delivers h rfl
  rw [textLoop]
  split <;> simp_all

theorem textLoop_end (h : Delivers d (.end n s)) :
    ∃ d', Delivers d' (.end n s) ∧ d.textLoop buf = .ok (buf.getD [], d') := by
  obtain ⟨d', hpeek, hkept, -⟩ := peekEvent_delivers h rfl
  refine ⟨d', hkept, ?_⟩
  rw [textLoop]
  split <;> simp_all

theorem textLoop_text (h : Delivers d (.text content s)) :
    ∃ d', Delivers d' s ∧ d.textLoop buf = d'.textLoop (some (buf.getD [] ++ content)) := by
  obtain ⟨d', hpeek, -, hrest⟩ := peekEvent_delivers h rfl
  refine ⟨d'.consumePeeked, hrest, ?_⟩
  rw [textLoop]
  split <;> simp_all

theorem textLoop_failure (h : Delivers d (.failure e s)) : d.textLoop buf = .error e := by
  have hpeek := peekEvent_failing h rfl
  rw [textLoop]
  split <;> simp_all

theorem textLoop_eof (h : Delivers d .eof) : ∃ d', Delivers d' .eof ∧
    d.textLoop buf = if buf = none then .error .unexpectedEof else .ok (buf.getD [], d') := by
  obtain ⟨d', hpeek, hkept, -⟩ := peekEvent_delivers h rfl
  refine ⟨d', hkept, ?_⟩
  rw [textLoop]
  split <;> simp_all

end TextLoop

section ForEachElement

variable {σ : Type} (f : ElementReader σ) (init : σ)

theorem forEachElement_start (h : Delivers d (.start n s)) : ∃ d', Delivers d' s ∧
    d.forEachElement f init = (closed n (f.read n init d')).bind fun r => r.2.forEachElement f r.1 := by
  obtain ⟨d', hpeek, -, hrest⟩ := peekEvent_delivers h rfl
  refine ⟨d'.consumePeeked, hrest, ?_⟩
  rw [forEachElement]
  split
  · simp_all
  · next n' d₁ hpeek' =>
    rw [hpeek] at hpeek'
    cases hpeek'
    split
    · next e hread =>
      rw [hread]
      rfl
    · next s' d₂ hread =>
      rw [hread]
      dsimp only [closed, Except.bind]
      split
      · next e hend =>
        rw [hend]
        rfl
      · next d₃ hend =>
        rw [hend]
        rfl
  · simp_all
  · simp_all
  · simp_all

theorem forEachElement_end (h : Delivers d (.end n s)) :
    ∃ d', Delivers d' (.end n s) ∧ d.forEachElement f init = .ok (init, d') := by
  obtain ⟨d', hpeek, hkept, -⟩ := peekEvent_delivers h rfl
  refine ⟨d', hkept, ?_⟩
  rw [forEachElement]
  split <;> simp_all

theorem forEachElement_text (h : Delivers d (.text content s)) :
    ∃ d', Delivers d' s ∧ d.forEachElement f init = d'.forEachElement f init := by
  obtain ⟨d', hpeek, -, hrest⟩ := peekEvent_delivers h rfl
  refine ⟨d'.consumePeeked, hrest, ?_⟩
  rw [forEachElement]
  split <;> simp_all

theorem forEachElement_failure (h : Delivers d (.failure e s)) : d.forEachElement f init = .error e := by
  have hpeek := peekEvent_failing h rfl
  rw [forEachElement]
  split <;> simp_all

theorem forEachElement_eof (h : Delivers d .eof) :
    ∃ d', Delivers d' .eof ∧ d.forEachElement f init = .ok (init, d') := by
  obtain ⟨d', hpeek, hkept, -⟩ := peekEvent_delivers h rfl
  refine ⟨d', hkept, ?_⟩
  rw [forEachElement]
  split <;> simp_all

end ForEachElement

section Element

variable {α : Type} (f : Bytes → ContentReader α)

theorem element_start (h : Delivers d (.start n s)) :
    ∃ d', Delivers d' s ∧ d.element f = closed n ((f n).read d') := by
  obtain ⟨d', hpeek, -, hrest⟩ := peekEvent_delivers h rfl
  refine ⟨d'.consumePeeked, hrest, ?_⟩
  rw [element]
  split
  · simp_all
  · next n' d₁ hpeek' =>
    rw [hpeek] at hpeek'
    cases hpeek'
    cases (f n).read d'.consumePeeked <;> rfl
  · simp_all
  · simp_all
  · simp_all

theorem element_text (h : Delivers d (.text content s)) : ∃ d', Delivers d' s ∧ d.element f = d'.element f := by
  obtain ⟨d', hpeek, -, hrest⟩ := peekEvent_delivers h rfl
  refine ⟨d'.consumePeeked, hrest, ?_⟩
  rw [element]
  split <;> simp_all

theorem element_end (h : Delivers d (.end n s)) : d.element f = .error .unexpectedEnd := by
  obtain ⟨d', hpeek, -⟩ := peekEvent_delivers h rfl
  rw [element]
  split <;> simp_all

theorem element_failure (h : Delivers d (.failure e s)) : d.element f = .error e := by
  have hpeek := peekEvent_failing h rfl
  rw [element]
  split <;> simp_all

theorem element_eof (h : Delivers d .eof) : d.element f = .error .unexpectedEnd := by
  obtain ⟨d', hpeek, -⟩ := peekEvent_delivers h rfl
  rw [element]
  split <;> simp_all

end Element

end Delivers

/-- Two readings of the same events come to the same, and have taken at most `m` end tags more than start tags. -/
inductive Agree {α : Type} (m : Int) (s : Stream) :
    Except DeError (α × Deserializer) → Except DeError (α × Deserializer) → Prop
  | error (e : DeError) : Agree m s (.error e) (.error e)
  | ok (a : α) {d₁ d₂ : Deserializer} {s' : Stream} (h₁ : Delivers d₁ s') (h₂ : Delivers d₂ s')
      (hlength : s'.length ≤ s.length) (hlevel : s.level ≤ s'.level + m) : Agree m s (.ok (a, d₁)) (.ok (a, d₂))

namespace Agree

variable {α β : Type} {m k : Int} {s t : Stream} {r₁ r₂ : Except DeError (α × Deserializer)}

/-- A reading that has taken one event before. -/
theorem after (h : Agree m s r₁ r₂) (hlength : s.length ≤ t.length) (hlevel : t.level ≤ s.level + k) :
    Agree (m + k) t r₁ r₂ := by
  cases h with
  | error e => exact .error e
  | ok a h₁ h₂ hrest hbalance => exact .ok a h₁ h₂ (hrest.trans hlength) (by omega)

theorem bind {f g : α × Deserializer → Except DeError (β × Deserializer)} (h : Agree m s r₁ r₂)
    (hnext : ∀ a d₁ d₂ s', Delivers d₁ s' → Delivers d₂ s' → s'.length ≤ s.length →
      Agree k s' (f (a, d₁)) (g (a, d₂))) : Agree (k + m) s (r₁.bind f) (r₂.bind g) := by
  cases h with
  | error e => exact .error e
  | ok a h₁ h₂ hrest hbalance => exact (hnext a _ _ _ h₁ h₂ hrest).after hrest hbalance

end Agree

/-- What depends on nothing but the events to come, and takes no more end tags than start tags. -/
def ContentReader.Steady {α : Type} (r : ContentReader α) : Prop :=
  ∀ s d₁ d₂, Delivers d₁ s → Delivers d₂ s → Agree 0 s (r.read d₁) (r.read d₂)

section Steady

variable {α σ : Type} {s : Stream} {d₁ d₂ : Deserializer}

theorem expectEnd_agree (name : Bytes) (a : α) (h₁ : Delivers d₁ s) (h₂ : Delivers d₂ s) :
    Agree 1 s ((d₁.expectEnd name).map fun d => (a, d)) ((d₂.expectEnd name).map fun d => (a, d)) := by
  induction s generalizing d₁ d₂ with
  | start n s _ =>
    rw [h₁.expectEnd_start, h₂.expectEnd_start]
    exact .error _
  | «end» n s _ =>
    obtain ⟨d₁', hrest₁, heq₁⟩ := h₁.expectEnd_end name
    obtain ⟨d₂', hrest₂, heq₂⟩ := h₂.expectEnd_end name
    rw [heq₁, heq₂]
    split_ifs
    · exact .error _
    · exact .ok a hrest₁ hrest₂ (Nat.le_succ _) le_rfl
  | text content s ih =>
    obtain ⟨d₁', hrest₁, heq₁⟩ := h₁.expectEnd_text name
    obtain ⟨d₂', hrest₂, heq₂⟩ := h₂.expectEnd_text name
    rw [heq₁, heq₂]
    exact (ih hrest₁ hrest₂).after (k := 0) (Nat.le_succ _) (by simp [Stream.level])
  | failure e s _ =>
    rw [h₁.expectEnd_failure, h₂.expectEnd_failure]
    exact .error _
  | eof =>
    rw [h₁.expectEnd_eof, h₂.expectEnd_eof]
    exact .error _

theorem expectStart_agree (name : Bytes) (a : α) (h₁ : Delivers d₁ s) (h₂ : Delivers d₂ s) :
    Agree (-1) s ((d₁.expectStart name).map fun d => (a, d)) ((d₂.expectStart name).map fun d => (a, d)) := by
  induction s generalizing d₁ d₂ with
  | start n s _ =>
    obtain ⟨d₁', hrest₁, heq₁⟩ := h₁.expectStart_start name
    obtain ⟨d₂', hrest₂, heq₂⟩ := h₂.expectStart_start name
    rw [heq₁, heq₂]
    split_ifs
    · exact .error _
    · exact .ok a hrest₁ hrest₂ (Nat.le_succ _) le_rfl
  | «end» n s _ =>
    rw [h₁.expectStart_end, h₂.expectStart_end]
    exact .error _
  | text content s ih =>
    obtain ⟨d₁', hrest₁, heq₁⟩ := h₁.expectStart_text name
    obtain ⟨d₂', hrest₂, heq₂⟩ := h₂.expectStart_text name
    rw [heq₁, heq₂]
    exact (ih hrest₁ hrest₂).after (k := 0) (Nat.le_succ _) (by simp [Stream.level])
  | failure e s _ =>
    rw [h₁.expectStart_failure, h₂.expectStart_failure]
    exact .error _
  | eof =>
    rw [h₁.expectStart_eof, h₂.expectStart_eof]
    exact .error _

theorem expectEof_delivers {d : Deserializer} (h : Delivers d s) : d.expectEof.map (fun _ => ()) = s.trailing := by
  induction s generalizing d with
  | start n s _ | «end» n s _ | eof =>
    obtain ⟨d', hnext, -⟩ := Deserializer.nextEvent_delivers h rfl
    rw [Deserializer.expectEof]
    split <;> simp_all [Stream.trailing, Except.map]
  | text content s ih =>
    obtain ⟨d', hnext, hrest⟩ := Deserializer.nextEvent_delivers h rfl
    rw [Stream.trailing, ← ih hrest, Deserializer.expectEof]
    split <;> simp_all
  | failure e s _ =>
    have hnext := Deserializer.nextEvent_failing h rfl
    rw [Deserializer.expectEof]
    split <;> simp_all [Stream.trailing, Except.map]

theorem Agree.closed {m : Int} {r₁ r₂ : Except DeError (α × Deserializer)} (h : Agree m s r₁ r₂) (name : Bytes) :
    Agree (1 + m) s (closed name r₁) (closed name r₂) :=
  h.bind fun a _ _ _ h₁ h₂ _ => expectEnd_agree name a h₁ h₂

theorem skipElementContent_agree (depth : Nat) (a : α) (h₁ : Delivers d₁ s) (h₂ : Delivers d₂ s) :
    Agree depth s ((d₁.skipElementContent depth).map fun d => (a, d))
      ((d₂.skipElementContent depth).map fun d => (a, d)) := by
  induction s generalizing d₁ d₂ depth with
  | start n s ih =>
    obtain ⟨d₁', hrest₁, heq₁⟩ := h₁.skipElementContent_start depth
    obtain ⟨d₂', hrest₂, heq₂⟩ := h₂.skipElementContent_start depth
    rw [heq₁, heq₂]
    have hrest := ih ((depth + 1) % 2 ^ 32) hrest₁ hrest₂
    have hwrap : (depth + 1) % 2 ^ 32 ≤ depth + 1 := Nat.mod_le _ _
    have hopen := hrest.after (k := depth - ((depth + 1) % 2 ^ 32 : Nat)) (t := .start n s) (Nat.le_succ _)
      (by simp only [Stream.level]; omega)
    have hcancel : (((depth + 1) % 2 ^ 32 : Nat) : Int) + (depth - ((depth + 1) % 2 ^ 32 : Nat)) = depth := by
      omega
    rwa [hcancel] at hopen
  | «end» n s ih =>
    obtain ⟨d₁', e₁, hkept₁, hrest₁, heq₁⟩ := h₁.skipElementContent_end depth
    obtain ⟨d₂', e₂, hkept₂, hrest₂, heq₂⟩ := h₂.skipElementContent_end depth
    rw [heq₁, heq₂]
    split_ifs with hdepth
    · exact .ok a hkept₁ hkept₂ le_rfl (by omega)
    · have hrest := (ih (depth - 1) hrest₁ hrest₂).after (k := 1) (t := .end n s) (Nat.le_succ _) le_rfl
      have hclosed : ((depth - 1 : Nat) : Int) + 1 = depth := by omega
      rwa [hclosed] at hrest
  | text content s ih =>
    obtain ⟨d₁', hrest₁, heq₁⟩ := h₁.skipElementContent_text depth
    obtain ⟨d₂', hrest₂, heq₂⟩ := h₂.skipElementContent_text depth
    rw [heq₁, heq₂]
    have hrest := (ih depth hrest₁ hrest₂).after (k := 0) (t := .text content s) (Nat.le_succ _)
      (by simp [Stream.level])
    rwa [Int.add_zero] at hrest
  | failure e s _ =>
    rw [h₁.skipElementContent_failure, h₂.skipElementContent_failure]
    exact .error _
  | eof =>
    rw [h₁.skipElementContent_eof, h₂.skipElementContent_eof]
    exact .error _

theorem textLoop_agree (buf : Option Bytes) (h₁ : Delivers d₁ s) (h₂ : Delivers d₂ s) :
    Agree 0 s (d₁.textLoop buf) (d₂.textLoop buf) := by
  induction s generalizing d₁ d₂ buf with
  | start n s _ =>
    rw [h₁.textLoop_start, h₂.textLoop_start]
    exact .error _
  | «end» n s _ =>
    obtain ⟨d₁', hkept₁, heq₁⟩ := h₁.textLoop_end buf
    obtain ⟨d₂', hkept₂, heq₂⟩ := h₂.textLoop_end buf
    rw [heq₁, heq₂]
    exact .ok _ hkept₁ hkept₂ le_rfl (by simp)
  | text content s ih =>
    obtain ⟨d₁', hrest₁, heq₁⟩ := h₁.textLoop_text buf
    obtain ⟨d₂', hrest₂, heq₂⟩ := h₂.textLoop_text buf
    rw [heq₁, heq₂]
    exact (ih _ hrest₁ hrest₂).after (k := 0) (Nat.le_succ _) (by simp [Stream.level])
  | failure e s _ =>
    rw [h₁.textLoop_failure, h₂.textLoop_failure]
    exact .error _
  | eof =>
    obtain ⟨d₁', hkept₁, heq₁⟩ := h₁.textLoop_eof buf
    obtain ⟨d₂', hkept₂, heq₂⟩ := h₂.textLoop_eof buf
    rw [heq₁, heq₂]
    split_ifs
    · exact .error _
    · exact .ok _ hkept₁ hkept₂ le_rfl (by simp)

/-- The loop over the elements is steady if what it does with each of them is. -/
theorem forEachElement_agree {f : ElementReader σ} (init : σ)
    (hf : ∀ n a s d₁ d₂, Delivers d₁ s → Delivers d₂ s → Agree 0 s (f.read n a d₁) (f.read n a d₂))
    (h₁ : Delivers d₁ s) (h₂ : Delivers d₂ s) :
    Agree 0 s (d₁.forEachElement f init) (d₂.forEachElement f init) := by
  induction hlength : s.length using Nat.strong_induction_on generalizing s d₁ d₂ init with
  | _ length ih =>
    subst hlength
    cases s with
    | start n s =>
      obtain ⟨d₁', hrest₁, heq₁⟩ := h₁.forEachElement_start f init
      obtain ⟨d₂', hrest₂, heq₂⟩ := h₂.forEachElement_start f init
      rw [heq₁, heq₂]
      have hread := (hf n init s d₁' d₂' hrest₁ hrest₂).closed n
      have hloop := hread.bind (k := 0) (f := fun r => r.2.forEachElement f r.1)
        (g := fun r => r.2.forEachElement f r.1) fun a d₁ d₂ s' h₁ h₂ hs' =>
          ih s'.length (Nat.lt_succ_of_le hs') a h₁ h₂ rfl
      exact hloop.after (k := -1) (t := .start n s) (Nat.le_succ _) (by simp only [Stream.level]; omega)
    | «end» n s =>
      obtain ⟨d₁', hkept₁, heq₁⟩ := h₁.forEachElement_end f init
      obtain ⟨d₂', hkept₂, heq₂⟩ := h₂.forEachElement_end f init
      rw [heq₁, heq₂]
      exact .ok _ hkept₁ hkept₂ le_rfl (by simp)
    | text content s =>
      obtain ⟨d₁', hrest₁, heq₁⟩ := h₁.forEachElement_text f init
      obtain ⟨d₂', hrest₂, heq₂⟩ := h₂.forEachElement_text f init
      rw [heq₁, heq₂]
      exact (ih _ (Nat.lt_succ_self _) init hrest₁ hrest₂ rfl).after (k := 0) (Nat.le_succ _)
        (by simp [Stream.level])
    | failure e s =>
      rw [h₁.forEachElement_failure, h₂.forEachElement_failure]
      exact .error _
    | eof =>
      obtain ⟨d₁', hkept₁, heq₁⟩ := h₁.forEachElement_eof f init
      obtain ⟨d₂', hkept₂, heq₂⟩ := h₂.forEachElement_eof f init
      rw [heq₁, heq₂]
      exact .ok _ hkept₁ hkept₂ le_rfl (by simp)

theorem element_agree {f : Bytes → ContentReader α} (hf : ∀ n, (f n).Steady) (h₁ : Delivers d₁ s)
    (h₂ : Delivers d₂ s) : Agree 0 s (d₁.element f) (d₂.element f) := by
  induction s generalizing d₁ d₂ with
  | start n s _ =>
    obtain ⟨d₁', hrest₁, heq₁⟩ := h₁.element_start f
    obtain ⟨d₂', hrest₂, heq₂⟩ := h₂.element_start f
    rw [heq₁, heq₂]
    exact ((hf n s d₁' d₂' hrest₁ hrest₂).closed n).after (k := -1) (t := .start n s) (Nat.le_succ _)
      (by simp only [Stream.level]; omega)
  | «end» n s _ =>
    rw [h₁.element_end, h₂.element_end]
    exact .error _
  | text content s ih =>
    obtain ⟨d₁', hrest₁, heq₁⟩ := h₁.element_text f
    obtain ⟨d₂', hrest₂, heq₂⟩ := h₂.element_text f
    rw [heq₁, heq₂]
    exact (ih hrest₁ hrest₂).after (k := 0) (Nat.le_succ _) (by simp [Stream.level])
  | failure e s _ =>
    rw [h₁.element_failure, h₂.element_failure]
    exact .error _
  | eof =>
    rw [h₁.element_eof, h₂.element_eof]
    exact .error _

end Steady

end S3s.Xml
