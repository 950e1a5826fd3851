import S3s.Xml.Contents

/-! # Unknown elements

What is unknown can be put between the elements of a document and is passed over, if its references are resolved
and its elements are not nested too deep. An element without content is read alike with one tag and with two.
-/
namespace S3s.Xml

section Skipping

/-- What a deserializer delivers is one thing. -/
theorem Delivers.unique {d : Deserializer} {s t : Stream} (hs : Delivers d s) (ht : Delivers d t) : s = t := by
  have hpeeked {s t : Stream} {ev : DeEvent} (hs : s.head = .ok ev) (ht : t.head = .ok ev)
      (htail : s.tail = t.tail) : s = t := by
    cases s <;> cases t <;> cases hs <;> cases ht <;> simp_all [Stream.tail]
  cases hs with
  | new inner =>
    cases ht
    rfl
  | slot inner name =>
    cases ht
    rfl
  | @peeked inner slot s ev hs hev =>
    cases ht with
    | peeked ht hev' =>
      have htail : s.tail = t.tail := by
        generalize s.tail = s' at hs
        generalize t.tail = t' at ht
        cases hs <;> cases ht <;> rfl
      exact hpeeked hev hev' htail

/-- The skipping of an element stops at its own end tag if and only if its references are resolved and its depth
does not overflow. -/
theorem skipElementContent_iff (c : Content) {name : Bytes} {rest : List (Option Event)} {d : Deserializer}
    (h : Delivers d (incoming (c.events.map some ++ some (.end name) :: rest))) :
    (∃ d', d.skipElementContent 0 = .ok d' ∧ Delivers d' (incoming (some (.end name) :: rest))) ↔ c.Skippable 0 := by
  rw [incoming_events] at h
  obtain ⟨hskipped, hlost⟩ := skippedAs c 0 _ d (by decide) h
  constructor
  · rintro ⟨d', hskip, hd'⟩
    by_contra hnot
    obtain ⟨s', hs', hlevel⟩ := hlost hnot d' hskip
    rw [hd'.unique hs'] at hlevel
    omega
  · intro hskippable
    obtain ⟨d₁, hd₁, heq₁⟩ := hskipped hskippable
    obtain ⟨d₂, _, hd₂, _, heq₂⟩ := hd₁.skipElementContent_end 0
    exact ⟨d₂, by rw [heq₁, heq₂, if_pos rfl], hd₂⟩

end Skipping

section Documents

variable {α : Type}

theorem namedElement_eq (name : Bytes) (f : Deserializer → Except DeError (α × Deserializer)) (d : Deserializer) :
    d.namedElement name f = (d.expectStart name).bind fun d => closed name (f d) := by
  rw [Deserializer.namedElement]
  cases d.expectStart name with
  | error e => rfl
  | ok d =>
    simp only [bind, Except.bind, closed]
    cases f d with
    | error e => rfl
    | ok r => cases r.2.expectEnd name <;> rfl

theorem deserializeXml_eq (name : Bytes) (x : Structure α) (events : List (Option Event)) :
    deserializeXml name x events =
      ((Deserializer.new events).namedElement name x.reader.read).bind fun r => r.2.expectEof.map fun _ => r.1 := by
  rw [deserializeXml]
  cases (Deserializer.new events).namedElement name x.reader.read with
  | error e => rfl
  | ok r =>
    simp only [bind, Except.bind]
    cases r.2.expectEof <;> rfl

theorem namedElement_agree {x : ContentReader α} (hx : x.Steady) (name : Bytes) {s : Stream} {d₁ d₂ : Deserializer}
    (h₁ : Delivers d₁ s) (h₂ : Delivers d₂ s) :
    Agree 0 s (d₁.namedElement name x.read) (d₂.namedElement name x.read) := by
  have hunit (d : Deserializer) : d.namedElement name x.read =
      ((d.expectStart name).map fun d => ((), d)).bind fun r => closed name (x.read r.2) := by
    rw [namedElement_eq]
    cases d.expectStart name <;> rfl
  rw [hunit, hunit]
  exact (expectStart_agree name () h₁ h₂).bind (k := 1) fun _ d₁ d₂ s' h₁ h₂ _ => (hx s' d₁ d₂ h₁ h₂).closed name

theorem expectEof_map {d : Deserializer} {s : Stream} (h : Delivers d s) (a : α) :
    (d.expectEof.map fun _ => a) = s.trailing.map fun _ => a := by
  rw [← expectEof_delivers h]
  cases d.expectEof <;> rfl

/-- What is read of a document depends on nothing but what its events deliver. -/
theorem deserializeXml_congr (name : Bytes) (x : Structure α) {events events' : List (Option Event)}
    (h : incoming events = incoming events') : deserializeXml name x events = deserializeXml name x events' := by
  have hnew : Delivers (Deserializer.new events) (incoming events') := h ▸ Delivers.new events
  have hagree := namedElement_agree x.reader_steady name hnew (Delivers.new events')
  rw [deserializeXml_eq, deserializeXml_eq]
  generalize (Deserializer.new events).namedElement name x.reader.read = r₁ at hagree
  change Agree 0 _ r₁ ((Deserializer.new events').namedElement name x.reader.read) at hagree
  generalize (Deserializer.new events').namedElement name x.reader.read = r₂ at hagree
  cases hagree with
  | error e => rfl
  | ok a h₁ h₂ hlength hlevel => exact (expectEof_map h₁ a).trans (expectEof_map h₂ a).symm

/-- An element without content delivers the same with one tag and with two. -/
theorem incoming_empty (events : List (Option Event)) (name : Bytes) (rest : List (Option Event)) :
    incoming (events ++ some (.start name) :: some (.end name) :: rest) =
      incoming (events ++ some (.empty name) :: rest) := by
  induction events with
  | nil => rfl
  | cons ev events ih =>
    cases ev with
    | none => simp only [List.cons_append, incoming, ih]
    | some ev =>
      cases ev with
      | generalRef n => simp only [List.cons_append, incoming, ih]
      | start | «end» | empty | text | cData | comment | decl | pi | docType =>
        simp only [List.cons_append, incoming, ih]

/-- What may stand before and behind the root element. -/
def Event.isMisc : Event → Bool
  | .text _ | .comment _ | .pi _ | .decl _ | .docType _ => true
  | _ => false

/-- A well-formed document. -/
structure Document where
  before : List Event
  root : Bytes
  content : Content
  behind : List Event
  before_isMisc : ∀ ev ∈ before, ev.isMisc = true
  behind_isMisc : ∀ ev ∈ behind, ev.isMisc = true

namespace Document

/-- The events of a document with another content. -/
def eventsWith (doc : Document) (c : Content) : List (Option Event) :=
  doc.before.map some ++ some (.start doc.root) ::
    (c.events.map some ++ some (.end doc.root) :: doc.behind.map some)

def events (doc : Document) : List (Option Event) := doc.eventsWith doc.content

theorem trailing_behind (doc : Document) : (incoming (doc.behind.map some)).trailing = .ok () := by
  have hbehind := doc.behind_isMisc
  generalize doc.behind = evs at hbehind
  induction evs with
  | nil => rfl
  | cons ev evs ih =>
    have hrest := ih fun ev h => hbehind ev (List.mem_cons_of_mem _ h)
    have hev := hbehind ev List.mem_cons_self
    cases ev with
    | text | comment | pi | decl | docType => exact hrest
    | start | «end» | empty | cData | generalRef => cases hev

theorem expectStart_before (doc : Document) {rest : List (Option Event)} {d : Deserializer}
    (h : Delivers d (incoming (doc.before.map some ++ some (.start doc.root) :: rest))) :
    ∃ d', Delivers d' (incoming rest) ∧ d.expectStart doc.root = .ok d' := by
  have hbefore := doc.before_isMisc
  generalize doc.before = evs at h hbefore
  induction evs generalizing d with
  | nil =>
    obtain ⟨d', hrest, heq⟩ := h.expectStart_start doc.root
    exact ⟨d', hrest, by rw [heq, if_neg (not_not_intro rfl)]⟩
  | cons ev evs ih =>
    have hbefore' := fun ev h => hbefore ev (List.mem_cons_of_mem _ h)
    have hev := hbefore ev List.mem_cons_self
    cases ev with
    | text content =>
      obtain ⟨d₁, hrest, heq⟩ := h.expectStart_text doc.root
      obtain ⟨d', hd', hstart⟩ := ih hrest hbefore'
      exact ⟨d', hd', heq.trans hstart⟩
    | comment | pi | decl | docType => exact ih h hbefore'
    | start | «end» | empty | cData | generalRef => cases hev

/-- What is read of a document is the value of its content. -/
theorem deserializeXml_eq_ok (doc : Document) (x : Structure α) (c : Content) (v : α) :
    deserializeXml doc.root x (doc.eventsWith c) = .ok v ↔ x.value c = some v := by
  obtain ⟨d₁, hd₁, hstart⟩ := doc.expectStart_before (Delivers.new (doc.eventsWith c))
  rw [incoming_events] at hd₁
  have hreturns := x.reader_returns c hd₁
  have hread : deserializeXml doc.root x (doc.eventsWith c) =
      (closed doc.root (x.reader.read d₁)).bind fun r => r.2.expectEof.map fun _ => r.1 := by
    rw [deserializeXml_eq, namedElement_eq, Deserializer.new, hstart]
    rfl
  have hbehind := doc.trailing_behind
  rw [hread]
  cases hvalue : x.value c with
  | some a =>
    rw [hvalue] at hreturns
    obtain ⟨d', hclosed, hd'⟩ := hreturns
    rw [hclosed]
    change (d'.expectEof.map fun _ => a) = .ok v ↔ some a = some v
    rw [expectEof_map hd', hbehind]
    simp [Except.map]
  | none =>
    rw [hvalue] at hreturns
    refine ⟨fun h => ?_, fun h => by cases h⟩
    cases hclosed : closed doc.root (x.reader.read d₁) with
    | error e =>
      rw [hclosed] at h
      cases h
    | ok r =>
      -- an end too many is left, and the end of the document is not reached
      obtain ⟨s', hs', hlevel⟩ := hreturns r.1 r.2 hclosed
      rw [hclosed] at h
      simp only [Except.bind, expectEof_map hs'] at h
      cases htrailing : s'.trailing with
      | error e =>
        rw [htrailing] at h
        cases h
      | ok _ =>
        rw [Stream.level_of_trailing htrailing, Stream.level_of_trailing hbehind] at hlevel
        omega

end Document

end Documents

section Inserting

variable {α σ : Type}

theorem Content.fold_append (f : Bytes → σ → Content → Option σ) (c c' : Content) (s : σ) :
    (c.append c').fold f s = (c.fold f s).bind fun s => c'.fold f s := by
  induction c generalizing s with
  | nil => rfl
  | item i c ih =>
    rw [append, fold, fold]
    split_ifs
    · rfl
    · exact ih s
  | empty name c ih =>
    rw [append, fold, fold, Option.bind_assoc]
    simp only [ih]
  | element name content c _ ih =>
    rw [append, fold, fold, Option.bind_assoc]
    simp only [ih]

theorem Content.only_append (f : Bytes → Content → Option α) {c : Content} (h : c.names = []) (c' : Content) :
    (c.append c').only f = if c.isResolved then c'.only f else none := by
  induction c with
  | nil => rfl
  | item i c ih =>
    rw [append, only, isResolved, ih h]
    cases i.isSupplementaryRef <;> simp
  | empty name c _ => cases h
  | element name content c _ _ => cases h

theorem depth_le_iff {m n k : Nat} : decide (max (m + 1) n ≤ k) = (decide (m < k) && decide (n ≤ k)) := by
  rw [← Bool.decide_and]
  exact decide_eq_decide.mpr (by omega)

/-- The reader of elements passes over those it does not know. -/
theorem Content.fold_unknown {known : Bytes → Bool} (f : Bytes → σ → Content → Option σ) {c : Content}
    (hunknown : ∀ n ∈ c.names, known n = false) (s : σ) :
    c.fold (fun name s c => if known name then f name s c else
        if c.isResolved && c.depth < 2 ^ 32 then some s else none) s =
      if c.isResolved && c.depth ≤ 2 ^ 32 then some s else none := by
  induction c generalizing s with
  | nil => simp [fold, isResolved, depth]
  | item i c ih =>
    rw [fold, ih hunknown, isResolved, depth]
    cases i.isSupplementaryRef <;> simp
  | empty name c ih =>
    have hname := hunknown name List.mem_cons_self
    have hrest := ih fun n hn => hunknown n (List.mem_cons_of_mem _ hn)
    have hdepth : decide (max 1 c.depth ≤ 2 ^ 32) = decide (c.depth ≤ 2 ^ 32) :=
      decide_eq_decide.mpr (by omega)
    rw [fold, hname]
    change _ = if c.isResolved && decide (max 1 c.depth ≤ 2 ^ 32) then some s else none
    rw [hdepth]
    simp only [Bool.false_eq_true, if_false, hrest]
    cases c.isResolved <;> cases decide (c.depth ≤ 2 ^ 32) <;> rfl
  | element name content c _ ih =>
    have hname := hunknown name List.mem_cons_self
    have hrest := ih fun n hn => hunknown n (List.mem_cons_of_mem _ hn)
    rw [fold, hname, isResolved, depth, depth_le_iff]
    simp only [Bool.false_eq_true, if_false, hrest]
    cases content.isResolved <;> cases c.isResolved <;> cases decide (content.depth < 2 ^ 32) <;>
      cases decide (c.depth ≤ 2 ^ 32) <;> rfl

/-- A content in which more stands than in another: between the elements of a loop over them, other characters, and
elements that the loop does not know, may stand in the place of the characters there. -/
inductive Inserted (u : Content) : {α : Type} → Structure α → Content → Content → Prop
  | between {σ : Type} {known : Bytes → Bool} {f : Bytes → σ → Structure σ} {init : σ} (c gap c' : Content)
      (hgap : gap.names = []) (hu : ∀ n ∈ u.names, known n = false) :
      Inserted u (.forEachElement known f init) (c.append (gap.append c')) (c.append (u.append c'))
  | within {σ : Type} {known : Bytes → Bool} {f : Bytes → σ → Structure σ} {init s : σ} (c c' : Content)
      {name : Bytes} {content content' : Content} (hknown : known name = true)
      (hs : (Structure.forEachElement known f init).value c = some s) (h : Inserted u (f name s) content content') :
      Inserted u (.forEachElement known f init) (c.append (.element name content c'))
        (c.append (.element name content' c'))
  | element {α : Type} {f : Bytes → Structure α} (c c' : Content) {name : Bytes} {content content' : Content}
      (hc : c.names = []) (h : Inserted u (f name) content content') :
      Inserted u (.element f) (c.append (.element name content c')) (c.append (.element name content' c'))
  | map {α β : Type} {x : Structure β} {f : β → Except DeError α} {c c' : Content} (h : Inserted u x c c') :
      Inserted u (.map x f) c c'

/-- A value stays what it was, if what is unknown can be passed over. -/
theorem Inserted.value_eq {u c c' : Content} {x : Structure α} (h : Inserted u x c c') {v : α}
    (hv : x.value c = some v) : x.value c' = if u.isResolved && u.depth ≤ 2 ^ 32 then some v else none := by
  induction h with
  | @between σ known f init c gap c' hgap hu =>
    simp only [Structure.value, Content.fold_append, Option.bind_eq_some_iff] at hv ⊢
    obtain ⟨s, hs, s', hs', hv⟩ := hv
    rw [Content.fold_unknown _ (by simp [hgap])] at hs'
    split_ifs at hs'
    cases hs'
    rw [hs, Option.bind_some, Content.fold_unknown _ hu]
    split_ifs
    · exact hv
    · rfl
  | @within σ known f init s c c' name content content' hknown hs h ih =>
    simp only [Structure.value] at hs hv ⊢
    rw [Content.fold_append, hs, Option.bind_some, Content.fold, hknown, if_pos rfl, Option.bind_eq_some_iff] at hv
    obtain ⟨s', hs', hv⟩ := hv
    rw [Content.fold_append, hs, Option.bind_some, Content.fold, hknown, if_pos rfl, ih hs']
    split_ifs
    · exact hv
    · rfl
  | @element α f c c' name content content' hc h ih =>
    simp only [Structure.value] at hv ⊢
    rw [Content.only_append _ hc] at hv ⊢
    split_ifs at hv with hresolved
    rw [if_pos hresolved]
    rw [Content.only] at hv ⊢
    obtain ⟨a, ha, hv⟩ := Option.bind_eq_some_iff.mp hv
    rw [ih ha]
    split_ifs
    · exact hv
    · rfl
  | @map α β x f c c' h ih =>
    simp only [Structure.value, Option.bind_eq_some_iff] at hv ⊢
    obtain ⟨b, hb, hv⟩ := hv
    rw [ih hb]
    split_ifs
    · exact hv
    · rfl

/-- Unknown elements are ignored if and only if their references are resolved and their depth does not overflow:
the skipping stops at the end tag of the element, and what is read is what was read without them. An element without
content is read alike with one tag and with two. -/
theorem unknown_elements_ignored_iff (name : Bytes) :
    (∀ (c : Content) (rest : List (Option Event)) (d : Deserializer),
      Delivers d (incoming (c.events.map some ++ some (.end name) :: rest)) →
        ((∃ d', d.skipElementContent 0 = .ok d' ∧ Delivers d' (incoming (some (.end name) :: rest))) ↔
          c.isResolved = true ∧ c.depth < 2 ^ 32)) ∧
    (∀ (α : Type) (x : Structure α) (doc : Document) (u c : Content), Inserted u x doc.content c →
      ∀ v, deserializeXml doc.root x doc.events = .ok v →
        (deserializeXml doc.root x (doc.eventsWith c) = .ok v ↔ u.isResolved = true ∧ u.depth ≤ 2 ^ 32)) ∧
    (∀ (α : Type) (x : Structure α) (root : Bytes) (events rest : List (Option Event)),
      deserializeXml root x (events ++ some (.start name) :: some (.end name) :: rest) =
        deserializeXml root x (events ++ some (.empty name) :: rest)) := by
  refine ⟨fun c rest d h => ?_, fun α x doc u c hinserted v hread => ?_, fun α x root events rest => ?_⟩
  · have hskippable := skipElementContent_iff c h
    rwa [Content.Skippable, Nat.zero_add] at hskippable
  · have hvalue := hinserted.value_eq ((doc.deserializeXml_eq_ok x doc.content v).mp hread)
    rw [doc.deserializeXml_eq_ok, hvalue]
    split_ifs with hcond
    · simpa using hcond
    · simpa using hcond
  · exact deserializeXml_congr root x (incoming_empty events name rest)

end Inserting

section Sample

/-- `<R><K>a</K></R>`, whose members are read. -/
def sample : Document where
  before := []
  root := ascii "R"
  content := .element (ascii "K") (.item (.text (ascii "a")) .nil) .nil
  behind := []
  before_isMisc := by simp
  behind_isMisc := by simp

/-- `<X><K/><X>b</X></X>` -/
def nested : Content :=
  .element (ascii "X") (.empty (ascii "K") (.element (ascii "X") (.item (.text (ascii "b")) .nil) .nil)) .nil

theorem nested_ignored : deserializeXml (ascii "R") (.listContent (ascii "K") .text)
    (sample.eventsWith (nested.append sample.content)) = .ok [ascii "a"] :=
  ((unknown_elements_ignored_iff (ascii "X")).2.1 _ (.listContent (ascii "K") .text) sample nested (nested.append sample.content)
    (.between .nil .nil sample.content rfl (by decide)) [ascii "a"] (by decide +kernel)).mpr
    ⟨by decide, by decide⟩

/-- `<X>&#x10000;</X>` -/
def supplementary : Content :=
  .element (ascii "X")
    (.item (.charRef ⟨true, ascii "10000", by decide, by decide +kernel, by decide +kernel⟩) .nil) .nil

/-- A character of the planes 1 to 15 in an unknown element is not ignored. -/
theorem supplementary_not_ignored :
    Inserted supplementary (.listContent (ascii "K") .text) sample.content (supplementary.append sample.content) ∧
      deserializeXml (ascii "R") (.listContent (ascii "K") .text) sample.events = .ok [ascii "a"] ∧
      deserializeXml (ascii "R") (.listContent (ascii "K") .text)
        (sample.eventsWith (supplementary.append sample.content)) = .error .invalidContent :=
  ⟨.between .nil .nil sample.content rfl (by decide), by decide +kernel, by decide +kernel⟩

end Sample

end S3s.Xml
