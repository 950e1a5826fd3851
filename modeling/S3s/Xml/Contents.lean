import S3s.Xml.References
import S3s.Xml.Structure

/-! # Contents

A content is read as its tree says. Where a reference in it is not resolved, or the depth of a skipped element
overflows, it has no value: the reading fails, or it takes too few end tags and never comes to the end.
-/
namespace S3s.Xml

section Events

/-- What an item delivers before the events behind it. -/
def Item.onto (s : Stream) : Item → Stream
  | text content => .text content s
  | entity e => .text [e.value] s
  | charRef r => if r.isSupplementary then .failure .invalidContent s else .text (encodeUtf8 r.codepoint) s
  | cData _ | comment _ | pi _ => s

/-- What a content delivers before the events behind it. -/
def Content.onto (s : Stream) : Content → Stream
  | nil => s
  | item i rest => i.onto (rest.onto s)
  | empty name rest => .start name (.end name (rest.onto s))
  | element name content rest => .start name (content.onto (.end name (rest.onto s)))

theorem resolveRef_supplementary {r : CharRef} (h : r.isSupplementary = true) : resolveRef r.name = none := by
  rw [resolveRef, r.resolveXmlEntity_name, Option.none_or, r.resolveCharRef_name, r.isResolvedCodepoint_codepoint, h]
  rfl

theorem incoming_item (i : Item) (rest : List (Option Event)) :
    incoming (some i.event :: rest) = i.onto (incoming rest) := by
  cases i with
  | text | cData | comment | pi => rfl
  | entity e => simp only [Item.event, Item.onto, incoming, e.resolveRef_name]
  | charRef r =>
    cases h : r.isSupplementary with
    | false => simp [Item.event, Item.onto, incoming, r.resolveRef_name h, h]
    | true => simp [Item.event, Item.onto, incoming, resolveRef_supplementary h, h]

/-- The events of a content deliver what its tree says. -/
theorem incoming_events (c : Content) (rest : List (Option Event)) :
    incoming (c.events.map some ++ rest) = c.onto (incoming rest) := by
  induction c generalizing rest with
  | nil => rfl
  | item i c ih =>
    rw [Content.events, List.map_cons, List.cons_append, incoming_item, ih]
    rfl
  | empty name c ih =>
    rw [Content.events, List.map_cons, List.cons_append, incoming, ih]
    rfl
  | element name content c ihcontent ih =>
    rw [Content.events, List.map_cons, List.cons_append, incoming, List.map_append, List.append_assoc, ihcontent,
      List.map_cons, List.cons_append, incoming, ih]
    rfl

theorem Item.onto_of_supplementary {i : Item} (h : i.isSupplementaryRef = true) (s : Stream) :
    i.onto s = .failure .invalidContent s := by
  cases i with
  | charRef r => exact if_pos h
  | text | entity | cData | comment | pi => cases h

/-- Any other item is a text, or nothing. -/
theorem Item.onto_of_resolved {i : Item} (h : i.isSupplementaryRef = false) (s : Stream) :
    i.onto s = .text i.textData s ∨ i.onto s = s ∧ i.textData = [] := by
  cases i with
  | text | entity => exact Or.inl rfl
  | charRef r => exact Or.inl (if_neg (by simpa [isSupplementaryRef] using h))
  | cData | comment | pi => exact Or.inr ⟨rfl, rfl⟩

theorem Item.level_onto (i : Item) (s : Stream) : (i.onto s).level = s.level := by
  cases h : i.isSupplementaryRef with
  | true => rw [i.onto_of_supplementary h, Stream.level]
  | false =>
    rcases Item.onto_of_resolved h s with heq | ⟨heq, -⟩
    · rw [heq, Stream.level]
    · rw [heq]

/-- As many elements are closed as are opened. -/
theorem Content.level_onto (c : Content) (s : Stream) : (c.onto s).level = s.level := by
  induction c generalizing s with
  | nil => rfl
  | item i c ih => rw [onto, i.level_onto, ih]
  | empty name c ih =>
    rw [onto, Stream.level, Stream.level, ih]
    omega
  | element name content c ihcontent ih =>
    rw [onto, Stream.level, ihcontent, Stream.level, ih]
    omega

end Events

/-- What comes of reading an element: its value, and the events behind it are left; or nothing comes of it but an
end too many left to be read. -/
def Returns {α : Type} : Option α → Stream → Except DeError (α × Deserializer) → Prop
  | some a, s, r => ∃ d', r = .ok (a, d') ∧ Delivers d' s
  | none, s, r => ∀ a d', r = .ok (a, d') → ∃ s', Delivers d' s' ∧ s.level < s'.level

namespace Returns

variable {α σ : Type} {s : Stream} {d : Deserializer}

theorem of_error {r : Except DeError (α × Deserializer)} {e : DeError} (h : r = .error e) : Returns none s r := by
  intro a d' hr
  rw [h] at hr
  cases hr

end Returns

section Characters

variable {c : Content} {s : Stream} {d : Deserializer} {name : Bytes}

/-- Between the characters and the end of the element there is nothing else. -/
theorem expectEnd_chars (c : Content) (h : Delivers d (c.onto (.end name s))) :
    (∃ w d', c.chars = some w ∧ Delivers d' s ∧ d.expectEnd name = .ok d') ∨
      (∃ e, c.chars = none ∧ d.expectEnd name = .error e) := by
  induction c generalizing d with
  | nil =>
    obtain ⟨d', hrest, heq⟩ := h.expectEnd_end name
    exact Or.inl ⟨[], d', rfl, hrest, by rw [heq, if_neg (not_not_intro rfl)]⟩
  | item i c ih =>
    cases hi : i.isSupplementaryRef with
    | true =>
      rw [Content.onto, i.onto_of_supplementary hi] at h
      exact Or.inr ⟨_, by simp [Content.chars, hi], h.expectEnd_failure name⟩
    | false =>
      have hread : ∃ d₁, Delivers d₁ (c.onto (.end name s)) ∧ d.expectEnd name = d₁.expectEnd name := by
        rw [Content.onto] at h
        rcases Item.onto_of_resolved hi (c.onto (.end name s)) with heq | ⟨heq, -⟩
        · rw [heq] at h
          exact h.expectEnd_text name
        · rw [heq] at h
          exact ⟨d, h, rfl⟩
      obtain ⟨d₁, hrest, heq⟩ := hread
      rw [heq]
      rcases ih hrest with ⟨w, d', hw, hd', hend⟩ | ⟨e, hnone, herror⟩
      · exact Or.inl ⟨i.textData ++ w, d', by simp [Content.chars, hi, hw], hd', hend⟩
      · exact Or.inr ⟨e, by simp [Content.chars, hi, hnone], herror⟩
  | empty n c _ => exact Or.inr ⟨_, rfl, h.expectEnd_start name⟩
  | element n content c _ _ => exact Or.inr ⟨_, rfl, h.expectEnd_start name⟩

theorem textLoop_chars (c : Content) (buf : Option Bytes) (h : Delivers d (c.onto (.end name s))) :
    (∃ w d', c.chars = some w ∧ Delivers d' (.end name s) ∧ d.textLoop buf = .ok (buf.getD [] ++ w, d')) ∨
      (∃ e, c.chars = none ∧ d.textLoop buf = .error e) := by
  induction c generalizing d buf with
  | nil =>
    obtain ⟨d', hrest, heq⟩ := h.textLoop_end buf
    exact Or.inl ⟨[], d', rfl, hrest, by rw [heq, List.append_nil]⟩
  | item i c ih =>
    cases hi : i.isSupplementaryRef with
    | true =>
      rw [Content.onto, i.onto_of_supplementary hi] at h
      exact Or.inr ⟨_, by simp [Content.chars, hi], h.textLoop_failure buf⟩
    | false =>
      have hread : ∃ d₁ buf', Delivers d₁ (c.onto (.end name s)) ∧ buf'.getD [] = buf.getD [] ++ i.textData ∧
          d.textLoop buf = d₁.textLoop buf' := by
        rw [Content.onto] at h
        rcases Item.onto_of_resolved hi (c.onto (.end name s)) with heq | ⟨heq, hdata⟩
        · rw [heq] at h
          obtain ⟨d₁, hrest, hloop⟩ := h.textLoop_text buf
          exact ⟨d₁, _, hrest, rfl, hloop⟩
        · rw [heq] at h
          exact ⟨d, buf, h, by rw [hdata, List.append_nil], rfl⟩
      obtain ⟨d₁, buf', hrest, hbuf, heq⟩ := hread
      rw [heq]
      rcases ih buf' hrest with ⟨w, d', hw, hd', hloop⟩ | ⟨e, hnone, herror⟩
      · refine Or.inl ⟨i.textData ++ w, d', by simp [Content.chars, hi, hw], hd', ?_⟩
        rw [hloop, hbuf, List.append_assoc]
      · exact Or.inr ⟨e, by simp [Content.chars, hi, hnone], herror⟩
  | empty n c _ => exact Or.inr ⟨_, rfl, h.textLoop_start buf⟩
  | element n content c _ _ => exact Or.inr ⟨_, rfl, h.textLoop_start buf⟩

end Characters

section Skipped

/-- What can be skipped at a depth: no reference fails and no depth overflows. -/
def Content.Skippable (c : Content) (depth : Nat) : Prop := c.isResolved = true ∧ depth + c.depth < 2 ^ 32

/-- How a content is skipped at a depth. -/
def SkippedAs (c : Content) : Prop :=
  ∀ depth s d, depth < 2 ^ 32 → Delivers d (c.onto s) →
    (c.Skippable depth → ∃ d', Delivers d' s ∧ d.skipElementContent depth = d'.skipElementContent depth) ∧
    (¬ c.Skippable depth →
      ∀ d', d.skipElementContent depth = .ok d' → ∃ s', Delivers d' s' ∧ s.level - depth < s'.level)

theorem skipElementContent_level {depth : Nat} {s : Stream} {d d' : Deserializer} (h : Delivers d s)
    (hskip : d.skipElementContent depth = .ok d') : ∃ s', Delivers d' s' ∧ s.level - depth ≤ s'.level := by
  have hagree := skipElementContent_agree depth () h h
  rw [hskip] at hagree
  cases hagree with
  | ok a h₁ h₂ hlength hlevel => exact ⟨_, h₁, by omega⟩

theorem skippedAs_nil : SkippedAs .nil :=
  fun depth s d hdepth h => ⟨fun _ => ⟨d, h, rfl⟩, fun hnot => absurd ⟨rfl, hdepth⟩ hnot⟩

theorem skippedAs_item (i : Item) {c : Content} (h : SkippedAs c) : SkippedAs (.item i c) := by
  intro depth s d hdepth hd
  rw [Content.onto] at hd
  cases hi : i.isSupplementaryRef with
  | true =>
    rw [i.onto_of_supplementary hi] at hd
    constructor
    · rintro ⟨hresolved, -⟩
      simp [Content.isResolved, hi] at hresolved
    · intro _ d' hd'
      rw [hd.skipElementContent_failure] at hd'
      cases hd'
  | false =>
    have hread : ∃ d₁, Delivers d₁ (c.onto s) ∧ d.skipElementContent depth = d₁.skipElementContent depth := by
      rcases Item.onto_of_resolved hi (c.onto s) with heq | ⟨heq, -⟩
      · rw [heq] at hd
        exact hd.skipElementContent_text depth
      · rw [heq] at hd
        exact ⟨d, hd, rfl⟩
    have hskippable : (Content.item i c).Skippable depth ↔ c.Skippable depth := by
      simp [Content.Skippable, Content.isResolved, Content.depth, hi]
    obtain ⟨d₁, hd₁, heq⟩ := hread
    rw [heq, hskippable]
    exact h depth s d₁ hdepth hd₁

/-- An element is skipped with its content one deeper. -/
theorem skippedAs_element (name : Bytes) {content c : Content} (hcontent : SkippedAs content) (h : SkippedAs c) :
    SkippedAs (.element name content c) := by
  intro depth s d hdepth hd
  have hskippable : (Content.element name content c).Skippable depth ↔
      content.Skippable (depth + 1) ∧ c.Skippable depth := by
    have hmax : depth + max (content.depth + 1) c.depth < 2 ^ 32 ↔
        depth + 1 + content.depth < 2 ^ 32 ∧ depth + c.depth < 2 ^ 32 := by omega
    simp only [Content.Skippable, Content.isResolved, Content.depth, Bool.and_eq_true, hmax]
    exact and_and_and_comm
  have hopen : (content.onto (.end name (c.onto s))).level = s.level + 1 := by
    rw [content.level_onto, Stream.level, c.level_onto]
  obtain ⟨d₁, hd₁, heq₁⟩ := hd.skipElementContent_start depth
  rw [heq₁]
  by_cases hwrap : depth + 1 < 2 ^ 32
  · rw [Nat.mod_eq_of_lt hwrap]
    obtain ⟨hinner, hlost⟩ := hcontent (depth + 1) _ d₁ hwrap hd₁
    by_cases hskipped : content.Skippable (depth + 1)
    · obtain ⟨d₂, hd₂, heq₂⟩ := hinner hskipped
      obtain ⟨_, d₃, _, hd₃, heq₃⟩ := hd₂.skipElementContent_end (depth + 1)
      rw [heq₂, heq₃, if_neg (Nat.succ_ne_zero depth), Nat.add_sub_cancel, hskippable, and_iff_right hskipped]
      exact h depth s d₃ hdepth hd₃
    · refine ⟨fun hall => absurd (hskippable.mp hall).1 hskipped, fun _ d' hd' => ?_⟩
      obtain ⟨s', hs', hlevel⟩ := hlost hskipped d' hd'
      rw [Stream.level, c.level_onto] at hlevel
      exact ⟨s', hs', by omega⟩
  · -- the depth is zero again, and no end tag that follows is taken for this element
    have hzero : (depth + 1) % 2 ^ 32 = 0 := by omega
    rw [hzero]
    refine ⟨fun hall => ?_, fun _ d' hd' => ?_⟩
    · have hdeep := (hskippable.mp hall).1.2
      omega
    · obtain ⟨s', hs', hlevel⟩ := skipElementContent_level hd₁ hd'
      rw [hopen] at hlevel
      exact ⟨s', hs', by omega⟩

theorem skippedAs (c : Content) : SkippedAs c := by
  induction c with
  | nil => exact skippedAs_nil
  | item i c ih => exact skippedAs_item i ih
  | empty name c ih => exact skippedAs_element name skippedAs_nil ih
  | element name content c ihcontent ih => exact skippedAs_element name ihcontent ih

end Skipped

section Values

variable {α σ : Type} {s : Stream} {d : Deserializer}

/-- What the loop over the elements returns, if what it does with each of them does. -/
def FoldedAs (f : ElementReader σ) (g : Bytes → σ → Content → Option σ) (c : Content) : Prop :=
  ∀ init name s d, Delivers d (c.onto (.end name s)) →
    Returns (c.fold g init) s (closed name (d.forEachElement f init))

variable {f : ElementReader σ} {g : Bytes → σ → Content → Option σ}

theorem foldedAs_nil : FoldedAs f g .nil := by
  intro init name s d h
  obtain ⟨d', hd', heq⟩ := h.forEachElement_end f init
  obtain ⟨d'', hd'', hend⟩ := hd'.expectEnd_end name
  refine ⟨d'', ?_, hd''⟩
  rw [heq, closed]
  simp only [Except.bind, hend]
  simp [Except.map]

theorem foldedAs_item (i : Item) {c : Content} (h : FoldedAs f g c) : FoldedAs f g (.item i c) := by
  intro init name s d hd
  rw [Content.onto] at hd
  cases hi : i.isSupplementaryRef with
  | true =>
    rw [i.onto_of_supplementary hi] at hd
    rw [Content.fold, if_pos hi, hd.forEachElement_failure]
    exact Returns.of_error rfl
  | false =>
    have hread : ∃ d₁, Delivers d₁ (c.onto (.end name s)) ∧ d.forEachElement f init = d₁.forEachElement f init := by
      rcases Item.onto_of_resolved hi (c.onto (.end name s)) with heq | ⟨heq, -⟩
      · rw [heq] at hd
        exact hd.forEachElement_text f init
      · rw [heq] at hd
        exact ⟨d, hd, rfl⟩
    obtain ⟨d₁, hd₁, heq⟩ := hread
    rw [heq, Content.fold, hi]
    exact h init name s d₁ hd₁

/-- An element that is lost leaves an end too many, and the loop and the end of its element do not make up for it. -/
theorem foldedAs_element (name : Bytes) {content c : Content}
    (hsteady : ∀ n a s d₁ d₂, Delivers d₁ s → Delivers d₂ s → Agree 0 s (f.read n a d₁) (f.read n a d₂))
    (hcontent : ∀ a s d, Delivers d (content.onto (.end name s)) →
      Returns (g name a content) s (closed name (f.read name a d)))
    (h : FoldedAs f g c) : FoldedAs f g (.element name content c) := by
  intro init n s d hd
  obtain ⟨d₁, hd₁, heq⟩ := hd.forEachElement_start f init
  have hreturns := hcontent init _ d₁ hd₁
  rw [heq, Content.fold]
  cases hvalue : g name init content with
  | some a =>
    rw [hvalue] at hreturns
    obtain ⟨d₂, hclosed, hd₂⟩ := hreturns
    rw [hclosed]
    exact h a n s d₂ hd₂
  | none =>
    rw [hvalue] at hreturns
    intro a d' hd'
    cases hclosed : closed name (f.read name init d₁) with
    | error e =>
      rw [hclosed] at hd'
      cases hd'
    | ok r =>
      obtain ⟨s₂, hs₂, hlevel⟩ := hreturns r.1 r.2 hclosed
      rw [c.level_onto, Stream.level] at hlevel
      rw [hclosed] at hd'
      have hagree := (forEachElement_agree r.1 hsteady hs₂ hs₂).closed n
      rw [show closed n (r.2.forEachElement f r.1) = .ok (a, d') from hd'] at hagree
      cases hagree with
      | ok a h₁ h₂ hlength hrest => exact ⟨_, h₁, by omega⟩

/-- The loop over the elements folds the values of the elements. -/
theorem foldedAs (c : Content)
    (hsteady : ∀ n a s d₁ d₂, Delivers d₁ s → Delivers d₂ s → Agree 0 s (f.read n a d₁) (f.read n a d₂))
    (hf : ∀ n a c s d, Delivers d (c.onto (.end n s)) → Returns (g n a c) s (closed n (f.read n a d))) :
    FoldedAs f g c := by
  induction c with
  | nil => exact foldedAs_nil
  | item i c ih => exact foldedAs_item i ih
  | empty name c ih => exact foldedAs_element name hsteady (fun a => hf name a .nil) ih
  | element name content c _ ih => exact foldedAs_element name hsteady (fun a => hf name a content) ih

end Values

section Readers

variable {α σ : Type}

theorem map_steady {β : Type} {x : ContentReader β} (h : x.Steady) (f : β → Except DeError α) :
    (x.map f).Steady := by
  intro s d₁ d₂ h₁ h₂
  refine (h s d₁ d₂ h₁ h₂).bind (k := 0) fun a d₁ d₂ s' h₁ h₂ _ => ?_
  cases f a with
  | error e => exact .error e
  | ok b => exact .ok b h₁ h₂ le_rfl (by simp)

theorem knownElement_steady {known : Bytes → Bool} {f : Bytes → σ → ContentReader σ}
    (h : ∀ n a, (f n a).Steady) (n : Bytes) (a : σ) (s : Stream) (d₁ d₂ : Deserializer) (h₁ : Delivers d₁ s)
    (h₂ : Delivers d₂ s) : Agree 0 s ((ContentReader.knownElement known f).read n a d₁)
      ((ContentReader.knownElement known f).read n a d₂) := by
  simp only [ContentReader.knownElement]
  split_ifs
  · exact h n a s d₁ d₂ h₁ h₂
  · exact skipElementContent_agree 0 a h₁ h₂

theorem string_read (d : Deserializer) : ContentReader.string.read d = d.textLoop none := by
  simp only [ContentReader.string, Deserializer.text]
  cases d.textLoop none <;> rfl

theorem string_steady : ContentReader.string.Steady := by
  intro s d₁ d₂ h₁ h₂
  rw [string_read, string_read]
  exact textLoop_agree none h₁ h₂

/-- Every structure is read from the events to come alone. -/
theorem Structure.reader_steady (x : Structure α) : x.reader.Steady := by
  induction x with
  | fail e => exact fun s d₁ d₂ h₁ h₂ => .error e
  | pure a => exact fun s d₁ d₂ h₁ h₂ => .ok a h₁ h₂ le_rfl (by simp)
  | text => exact string_steady
  | map x f ih => exact map_steady ih f
  | element f ih => exact fun s d₁ d₂ h₁ h₂ => element_agree ih h₁ h₂
  | forEachElement known f init ih =>
    exact fun s d₁ d₂ h₁ h₂ => forEachElement_agree init (knownElement_steady ih) h₁ h₂

variable {s : Stream} {d : Deserializer} {name : Bytes}

theorem closed_ok (a : α) (d : Deserializer) :
    closed name (.ok (a, d)) = (d.expectEnd name).map fun d => (a, d) := rfl

theorem pure_returns (a : α) {c : Content} (h : Delivers d (c.onto (.end name s))) :
    Returns (c.chars.map fun _ => a) s (closed name (.ok (a, d))) := by
  rw [closed_ok]
  rcases expectEnd_chars c h with ⟨w, d', hw, hd', hend⟩ | ⟨e, hnone, herror⟩
  · rw [hw, hend]
    exact ⟨d', rfl, hd'⟩
  · rw [hnone, herror]
    exact Returns.of_error rfl

theorem text_returns {c : Content} (h : Delivers d (c.onto (.end name s))) :
    Returns c.chars s (closed name (ContentReader.string.read d)) := by
  rw [string_read]
  rcases textLoop_chars c none h with ⟨w, d', hw, hd', hloop⟩ | ⟨e, hnone, herror⟩
  · rw [hw, hloop]
    exact pure_returns w (c := .nil) hd'
  · rw [hnone, herror]
    exact Returns.of_error rfl

theorem closed_eq_ok {r : Except DeError (α × Deserializer)} {a : α} {d' : Deserializer} :
    closed name r = .ok (a, d') ↔ ∃ d₁, r = .ok (a, d₁) ∧ d₁.expectEnd name = .ok d' := by
  rw [closed, bind_eq_ok]
  constructor
  · rintro ⟨⟨a₁, d₁⟩, hr, h⟩
    obtain ⟨d₂, hend, heq⟩ := map_eq_ok.mp h
    cases heq
    exact ⟨d₁, hr, hend⟩
  · rintro ⟨d₁, hr, hend⟩
    exact ⟨(a, d₁), hr, map_eq_ok.mpr ⟨d', hend, rfl⟩⟩

theorem map_read_eq_ok {β : Type} {x : ContentReader β} {f : β → Except DeError α} {a : α} {d' : Deserializer} :
    (x.map f).read d = .ok (a, d') ↔ ∃ b, x.read d = .ok (b, d') ∧ f b = .ok a := by
  rw [ContentReader.map, bind_eq_ok]
  constructor
  · rintro ⟨⟨b, d₁⟩, hread, h⟩
    obtain ⟨a₁, hf, heq⟩ := map_eq_ok.mp h
    cases heq
    exact ⟨b, hread, hf⟩
  · rintro ⟨b, hread, hf⟩
    exact ⟨(b, d'), hread, map_eq_ok.mpr ⟨a, hf, rfl⟩⟩

theorem map_returns {β : Type} {x : ContentReader β} {f : β → Except DeError α} {o : Option β}
    (h : Returns o s (closed name (x.read d))) :
    Returns (o.bind fun b => (f b).toOption) s (closed name ((x.map f).read d)) := by
  have hmap {a : α} {d' : Deserializer} : closed name ((x.map f).read d) = .ok (a, d') ↔
      ∃ b, closed name (x.read d) = .ok (b, d') ∧ f b = .ok a := by
    simp only [closed_eq_ok, map_read_eq_ok]
    constructor
    · rintro ⟨d₁, ⟨b, hread, hf⟩, hend⟩
      exact ⟨b, ⟨d₁, hread, hend⟩, hf⟩
    · rintro ⟨b, ⟨d₁, hread, hend⟩, hf⟩
      exact ⟨d₁, ⟨b, hread, hf⟩, hend⟩
  cases o with
  | none =>
    intro a d' hr
    obtain ⟨b, hb, -⟩ := hmap.mp hr
    exact h b d' hb
  | some b =>
    obtain ⟨d', hb, hd'⟩ := h
    cases hf : f b with
    | ok a =>
      simp only [Option.bind_some, hf, Except.toOption]
      exact ⟨d', hmap.mpr ⟨b, hb, hf⟩, hd'⟩
    | error e =>
      simp only [Option.bind_some, hf, Except.toOption]
      intro a d'' hr
      obtain ⟨b', hb', hf'⟩ := hmap.mp hr
      rw [hb] at hb'
      cases hb'
      rw [hf] at hf'
      cases hf'

/-- The end of an element does not make up for an end too many. -/
theorem lost_closed {t : Stream} {r : Except DeError (α × Deserializer)}
    (h : ∀ a d', r = .ok (a, d') → ∃ s', Delivers d' s' ∧ t.level < s'.level) (ht : t.level = s.level + 1) :
    Returns none s (closed name r) := by
  intro a d' hclosed
  obtain ⟨d₁, hr, hend⟩ := closed_eq_ok.mp hclosed
  obtain ⟨s₁, hs₁, hlevel⟩ := h a d₁ hr
  have hagree := expectEnd_agree name () hs₁ hs₁
  rw [hend] at hagree
  cases hagree with
  | ok _ h₁ h₂ hlength hrest => exact ⟨_, h₁, by omega⟩

section Element

variable {f : Bytes → ContentReader α} {g : Bytes → Content → Option α}

theorem element_returns_start (n : Bytes) (content c : Content)
    (hf : ∀ n c s d, Delivers d (c.onto (.end n s)) → Returns (g n c) s (closed n ((f n).read d)))
    (h : Delivers d ((Content.element n content c).onto (.end name s))) :
    Returns ((Content.element n content c).only g) s (closed name (d.element f)) := by
  obtain ⟨d₁, hd₁, heq⟩ := h.element_start f
  have hreturns := hf n content _ d₁ hd₁
  rw [heq, Content.only]
  cases hvalue : g n content with
  | some a =>
    rw [hvalue] at hreturns
    obtain ⟨d₂, hclosed, hd₂⟩ := hreturns
    rw [hclosed]
    exact pure_returns a hd₂
  | none =>
    rw [hvalue] at hreturns
    exact lost_closed hreturns (by rw [c.level_onto, Stream.level])

theorem element_returns (c : Content)
    (hf : ∀ n c s d, Delivers d (c.onto (.end n s)) → Returns (g n c) s (closed n ((f n).read d)))
    (h : Delivers d (c.onto (.end name s))) : Returns (c.only g) s (closed name (d.element f)) := by
  induction c generalizing d with
  | nil =>
    rw [h.element_end]
    exact Returns.of_error rfl
  | item i c ih =>
    rw [Content.onto] at h
    cases hi : i.isSupplementaryRef with
    | true =>
      rw [i.onto_of_supplementary hi] at h
      rw [Content.only, if_pos hi, h.element_failure]
      exact Returns.of_error rfl
    | false =>
      have hread : ∃ d₁, Delivers d₁ (c.onto (.end name s)) ∧ d.element f = d₁.element f := by
        rcases Item.onto_of_resolved hi (c.onto (.end name s)) with heq | ⟨heq, -⟩
        · rw [heq] at h
          exact h.element_text f
        · rw [heq] at h
          exact ⟨d, h, rfl⟩
      obtain ⟨d₁, hd₁, heq⟩ := hread
      rw [heq, Content.only, hi]
      exact ih hd₁
  | empty n c _ => exact element_returns_start n .nil c hf h
  | element n content c _ _ => exact element_returns_start n content c hf h

end Element

/-- An unknown element is skipped, or lost. -/
theorem skip_returns (a : α) (c : Content) (h : Delivers d (c.onto (.end name s))) :
    Returns (if c.isResolved && c.depth < 2 ^ 32 then some a else none) s
      (closed name ((d.skipElementContent 0).map fun d => (a, d))) := by
  obtain ⟨hskipped, hlost⟩ := skippedAs c 0 _ d (by decide) h
  have hskippable : c.Skippable 0 ↔ (c.isResolved && decide (c.depth < 2 ^ 32)) = true := by
    simp [Content.Skippable]
  split_ifs with hc
  · obtain ⟨d₁, hd₁, heq₁⟩ := hskipped (hskippable.mpr hc)
    obtain ⟨d₂, _, hd₂, _, heq₂⟩ := hd₁.skipElementContent_end 0
    rw [heq₁, heq₂, if_pos rfl]
    exact pure_returns a (c := .nil) hd₂
  · refine lost_closed (t := .end name s) (fun b d' hr => ?_) rfl
    obtain ⟨d₁, hskip, hd₁⟩ := map_eq_ok.mp hr
    cases hd₁
    obtain ⟨s', hs', hlevel⟩ := hlost (fun hall => hc (hskippable.mp hall)) d' hskip
    exact ⟨s', hs', by simpa using hlevel⟩

/-- A structure is read as the tree of the content says. -/
theorem Structure.reader_returns (x : Structure α) (c : Content) (h : Delivers d (c.onto (.end name s))) :
    Returns (x.value c) s (closed name (x.reader.read d)) := by
  induction x generalizing c name s d with
  | fail e => exact Returns.of_error rfl
  | pure a => exact pure_returns a h
  | text => exact text_returns h
  | map x f ih => exact map_returns (ih c h)
  | element f ih =>
    exact element_returns c (fun n c s d h => ih n c h) h
  | forEachElement known f init ih =>
    refine foldedAs c (knownElement_steady fun n a => (f n a).reader_steady) (fun n a c s d h => ?_) init name s d h
    simp only [ContentReader.knownElement]
    by_cases hknown : known n
    · simp only [hknown, if_true]
      exact ih n a c h
    · simp only [hknown, Bool.false_eq_true, if_false]
      exact skip_returns a c h

end Readers

end S3s.Xml
