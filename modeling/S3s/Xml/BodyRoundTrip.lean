import S3s.Library.Decimal
import S3s.Xml.RequestBodies
import S3s.Xml.WrittenTrees

/-! # Bodies are read back

A value is read back from the body that is written of it if and only if each of its texts is read as the value it
is written of, and none of its flattened lists is there without a member. Every value that was read has the second
property, so it is read again as it is whenever its texts are.
-/
namespace S3s.Xml

section Conditions

mutual

/-- A property of all texts of a value. -/
def Schema.All (P : ∀ α : Type, TextCodec α → α → Prop) {α : Type} : Schema α → α → Prop
  | .text c, a => P _ c a
  | .list _ member, iter => ∀ a ∈ iter, member.All P a
  | .structEnum variants self, a => variants.All P (self a)
  | .struct _ fields self, a => fields.All P (self a)

def Variants.All (P : ∀ α : Type, TextCodec α → α → Prop) {α : Type} : Variants α → α → Prop
  | .nil, _ => True
  | .cons _ x _, .inl a => x.All P a
  | .cons _ _ rest, .inr b => rest.All P b

def Fields.All (P : ∀ α : Type, TextCodec α → α → Prop) {σ ρ : Type} : Fields σ ρ → ρ → Prop
  | .nil, _ => True
  | .required _ x rest, p => x.All P p.1 ∧ rest.All P p.2
  | .optional _ x rest, p => (∀ a ∈ p.1, x.All P a) ∧ rest.All P p.2
  | .requiredFlattened _ x rest, p => (∀ a ∈ p.1, x.All P a) ∧ rest.All P p.2
  | .optionalFlattened _ x rest, p => (∀ iter ∈ p.1, ∀ a ∈ iter, x.All P a) ∧ rest.All P p.2

end

mutual

/-- No flattened list in the value is there without a member. -/
def Schema.Regular {α : Type} : Schema α → α → Prop
  | .text _, _ => True
  | .list _ member, iter => ∀ a ∈ iter, member.Regular a
  | .structEnum variants self, a => variants.Regular (self a)
  | .struct _ fields self, a => fields.Regular (self a)

def Variants.Regular {α : Type} : Variants α → α → Prop
  | .nil, _ => True
  | .cons _ x _, .inl a => x.Regular a
  | .cons _ _ rest, .inr b => rest.Regular b

def Fields.Regular {σ ρ : Type} : Fields σ ρ → ρ → Prop
  | .nil, _ => True
  | .required _ x rest, p => x.Regular p.1 ∧ rest.Regular p.2
  | .optional _ x rest, p => (∀ a ∈ p.1, x.Regular a) ∧ rest.Regular p.2
  | .requiredFlattened _ x rest, p => (p.1 ≠ [] ∧ ∀ a ∈ p.1, x.Regular a) ∧ rest.Regular p.2
  | .optionalFlattened _ x rest, p => (∀ iter ∈ p.1, iter ≠ [] ∧ ∀ a ∈ iter, x.Regular a) ∧ rest.Regular p.2

end

mutual

/-- No structure has two fields of one name, and no enumeration two variants. -/
def Schema.isDistinct {α : Type} : Schema α → Bool
  | .text _ => true
  | .list _ member => member.isDistinct
  | .structEnum variants _ => variants.isDistinct
  | .struct _ fields _ => fields.isDistinct

def Variants.isDistinct {α : Type} : Variants α → Bool
  | .nil => true
  | .cons name x rest => !rest.names.contains name && x.isDistinct && rest.isDistinct

def Fields.isDistinct {σ ρ : Type} : Fields σ ρ → Bool
  | .nil => true
  | .required name x rest | .optional name x rest | .requiredFlattened name x rest | .optionalFlattened name x rest =>
    !rest.names.contains name && x.isDistinct && rest.isDistinct

end

/-- Every text of the value is read as what it is written of. -/
def Schema.Restores {α : Type} (x : Schema α) (a : α) : Prop := x.All (fun _ c a => c.Restores a) a

/-- No text that is not escaped has markup in it. -/
def Schema.IsMarkupFree {α : Type} (x : Schema α) (a : α) : Prop := x.All (fun _ c a => c.IsMarkupFree a) a

end Conditions

section Reading

theorem toOption_eq_some {ε α : Type} {r : Except ε α} {a : α} : r.toOption = some a ↔ r = .ok a := by
  cases r <;> simp [Except.toOption]

theorem mapM_eq_self {α : Type} {f : α → Option α} {l : List α} : l.mapM f = some l ↔ ∀ a ∈ l, f a = some a := by
  induction l with
  | nil => simp
  | cons a l ih =>
    rw [List.mapM_cons, List.forall_mem_cons, ← ih]
    cases f a <;> cases l.mapM f <;> simp

variable {α β δ ε σ ρ : Type}

/-- What steps over the other fields leaves the first one as it was. -/
theorem foldlM_snd {f : α × σ → ε → Option (α × σ)} {g : σ → ε → Option σ} (a : α) {es : List ε}
    (h : ∀ e ∈ es, ∀ s, f (a, s) e = (g s e).map fun t => (a, t)) (s : σ) :
    es.foldlM f (a, s) = (es.foldlM g s).map fun t => (a, t) := by
  induction es generalizing s with
  | nil => rfl
  | cons e es ih =>
    rw [List.foldlM_cons, List.foldlM_cons, h e List.mem_cons_self]
    cases g s e with
    | none => rfl
    | some t => exact ih (fun e he => h e (List.mem_cons_of_mem _ he)) t

/-- The members that are read join the list. -/
theorem foldlM_push {f : Option (List α) × σ → ε → Option (Option (List α) × σ)} {e : δ → ε}
    (val : δ → Option α) {members : List δ}
    (h : ∀ m ∈ members, ∀ o s, f (o, s) (e m) = (val m).map fun a => (some (o.getD [] ++ [a]), s))
    (o : Option (List α)) (s : σ) :
    (members.map e).foldlM f (o, s) =
      (members.mapM val).map fun l => (if l = [] then o else some (o.getD [] ++ l), s) := by
  induction members generalizing o with
  | nil => rfl
  | cons m members ih =>
    rw [List.map_cons, List.foldlM_cons, h m List.mem_cons_self, List.mapM_cons]
    cases val m with
    | none => rfl
    | some a =>
      refine (ih (fun m hm => h m (List.mem_cons_of_mem _ hm)) _).trans ?_
      cases members.mapM val with
      | none => rfl
      | some l => cases l <;> simp

/-- `list_content`, of elements with the name of its members. -/
theorem Structure.listContent_value (name : Bytes) (x : Structure α) (cs : List Content) :
    (listContent name x).value (.ofElements (cs.map fun c => (name, c))) = cs.mapM x.value := by
  have hlist (acc : List α) : (cs.map fun c => (name, c)).foldlM (fun list e => if (e.1 == name) = true then
      (x.value e.2).bind fun a => some (list ++ [a])
      else if e.2.isResolved && e.2.depth < 2 ^ 32 then some list else none)
      acc = (cs.mapM x.value).map fun l => acc ++ l := by
    induction cs generalizing acc with
    | nil => simp
    | cons c cs ih =>
      rw [List.map_cons, List.foldlM_cons, List.mapM_cons]
      simp only [beq_self_eq_true, if_true]
      cases x.value c with
      | none => rfl
      | some a =>
        refine (ih (acc ++ [a])).trans ?_
        cases cs.mapM x.value <;> simp
  rw [listContent, value, Content.fold_ofElements]
  refine (hlist []).trans ?_
  cases cs.mapM x.value <;> simp

theorem Structure.orRest_value (isFirst : Bool) (first : Structure α) (rest : Structure σ) (s : α × σ) (c : Content) :
    (orRest isFirst first rest s).value c =
      if isFirst then (first.value c).map fun a => (a, s.2) else (rest.value c).map fun t => (s.1, t) := by
  cases isFirst with
  | true =>
    simp only [orRest, if_true, value, Except.toOption]
    cases first.value c <;> rfl
  | false =>
    simp only [orRest, Bool.false_eq_true, if_false, value, Except.toOption]
    cases rest.value c <;> rfl

theorem Structure.once_value (x : Structure α) (c : Content) : (x.once none).value c = (x.value c).map some := by
  simp only [once, value, Except.toOption]
  cases x.value c <;> rfl

theorem Structure.push_value (x : Structure α) (o : Option (List α)) (c : Content) :
    (x.push o).value c = (x.value c).map fun a => some (o.getD [] ++ [a]) := by
  simp only [push, value, Except.toOption]
  cases x.value c <;> rfl

/-- What an element makes of the fields read so far. -/
def Fields.step (fields : Fields σ ρ) (s : σ) (e : Bytes × Content) : Option σ :=
  (fields.deserializeContent e.1 s).value e.2

/-- What is read of the elements of a structure. -/
def Fields.read (fields : Fields σ ρ) (es : List (Bytes × Content)) : Option ρ :=
  (es.foldlM fields.step fields.init).bind fun s => (fields.build s).toOption

namespace Fields

variable {name : Bytes} {x : Schema α} {rest : Fields σ ρ} {es : List (Bytes × Content)}

/-- The elements of the first field are read, and then those of the others. -/
theorem read_append {γ : Type} {fields : Fields (β × σ) (γ × ρ)} {first : β → Structure β} (made : β → Option γ)
    (hfields : ∀ n s, fields.deserializeContent n s =
      .orRest (n == name) (first s.1) (rest.deserializeContent n s.2) s)
    (hbuild : ∀ b s, (fields.build (b, s)).toOption =
      (made b).bind fun a => (rest.build s).toOption.map fun p => (a, p))
    (hes : ∀ e ∈ es, e.1 ≠ name) {firsts : List (Bytes × Content)} {r : Option β}
    (hfirsts : firsts.foldlM fields.step fields.init = r.map fun b => (b, rest.init)) :
    fields.read (firsts ++ es) = (r.bind made).bind fun a => (rest.read es).map fun p => (a, p) := by
  have hrest (b : β) : es.foldlM fields.step (b, rest.init) =
      (es.foldlM rest.step rest.init).map fun t => (b, t) := by
    apply foldlM_snd
    intro e he s
    rw [step, hfields, Structure.orRest_value, beq_false_of_ne (hes e he)]
    rfl
  rw [read, List.foldlM_append, hfirsts]
  cases r with
  | none => rfl
  | some b =>
    change ((es.foldlM fields.step (b, rest.init)).bind _) = _
    rw [hrest, read, Option.bind_map, Option.bind_some]
    simp only [Function.comp_def, hbuild]
    cases es.foldlM rest.step rest.init <;> cases made b <;> rfl

theorem toOption_map {ρ' : Type} (r : Except DeError ρ) (f : ρ → ρ') : (r.map f).toOption = r.toOption.map f := by
  cases r <;> rfl

/-- One element of a field that is read once. -/
theorem step_once {τ : Type} {fields : Fields (Option α × σ) τ}
    (hfields : ∀ n s, fields.deserializeContent n s =
      .orRest (n == name) (x.deserializeContent.once s.1) (rest.deserializeContent n s.2) s)
    (s : σ) (c : Content) :
    fields.step (none, s) (name, c) = (x.deserializeContent.value c).map fun a => (some a, s) := by
  rw [step, hfields, Structure.orRest_value, beq_self_eq_true, if_pos rfl, Structure.once_value, Option.map_map]
  rfl

/-- The elements of a flattened list. -/
theorem foldlM_members {τ : Type} (fields : Fields (Option (List α) × σ) τ)
    (hfields : ∀ n s, fields.deserializeContent n s =
      .orRest (n == name) (x.deserializeContent.push s.1) (rest.deserializeContent n s.2) s)
    (s : σ) (cs : List Content) :
    (cs.map fun c => (name, c)).foldlM fields.step (none, s) =
      ((cs.mapM x.deserializeContent.value).map fun l => if l = [] then none else some l).map fun o => (o, s) := by
  rw [Option.map_map]
  refine (foldlM_push x.deserializeContent.value ?_ none s).trans ?_
  · intro c _ o s
    rw [step, hfields, Structure.orRest_value, beq_self_eq_true, if_pos rfl, Structure.push_value, Option.map_map]
    rfl
  · rfl

theorem read_required (hes : ∀ e ∈ es, e.1 ≠ name) (c : Content) :
    (required name x rest).read ((name, c) :: es) =
      (x.deserializeContent.value c).bind fun a => (rest.read es).map fun p => (a, p) := by
  have hfirst : [(name, c)].foldlM (required name x rest).step (none, rest.init) =
      ((x.deserializeContent.value c).map some).map fun o => (o, rest.init) := by
    rw [List.foldlM_cons, step_once fun _ _ => by rw [deserializeContent]]
    cases x.deserializeContent.value c <;> rfl
  refine (read_append id (fun _ _ => by rw [deserializeContent]) ?_ hes hfirst).trans ?_
  · intro o s
    cases o with
    | none => rfl
    | some a => exact toOption_map _ _
  · cases x.deserializeContent.value c <;> rfl

theorem read_optional (hes : ∀ e ∈ es, e.1 ≠ name) (c : Option Content) :
    (optional name x rest).read (c.toList.map (fun c => (name, c)) ++ es) =
      (c.elim (some none) fun c => (x.deserializeContent.value c).map some).bind fun a =>
        (rest.read es).map fun p => (a, p) := by
  have hfirst : (c.toList.map fun c => (name, c)).foldlM (optional name x rest).step (none, rest.init) =
      (c.elim (some none) fun c => (x.deserializeContent.value c).map some).map fun o => (o, rest.init) := by
    cases c with
    | none => rfl
    | some c =>
      rw [Option.toList_some, List.map_singleton, List.foldlM_cons, step_once fun _ _ => by rw [deserializeContent],
        Option.elim_some]
      cases x.deserializeContent.value c <;> rfl
  refine (read_append some (fun _ _ => by rw [deserializeContent]) ?_ hes hfirst).trans ?_
  · exact fun o s => by rw [build, toOption_map]; rfl
  · rw [Option.bind_fun_some]

theorem read_requiredFlattened (hes : ∀ e ∈ es, e.1 ≠ name) (cs : List Content) :
    (requiredFlattened name x rest).read (cs.map (fun c => (name, c)) ++ es) =
      ((cs.mapM x.deserializeContent.value).bind fun l => if l = [] then none else some l).bind fun a =>
        (rest.read es).map fun p => (a, p) := by
  have hfirst := foldlM_members (requiredFlattened name x rest) (fun _ _ => by rw [deserializeContent])
    rest.init cs
  refine (read_append id (fun _ _ => by rw [deserializeContent]) ?_ hes hfirst).trans ?_
  · intro o s
    cases o with
    | none => rfl
    | some a => exact toOption_map _ _
  · rw [Option.bind_map]
    rfl

theorem read_optionalFlattened (hes : ∀ e ∈ es, e.1 ≠ name) (cs : List Content) :
    (optionalFlattened name x rest).read (cs.map (fun c => (name, c)) ++ es) =
      ((cs.mapM x.deserializeContent.value).map fun l => if l = [] then none else some l).bind fun a =>
        (rest.read es).map fun p => (a, p) := by
  have hfirst := foldlM_members (optionalFlattened name x rest) (fun _ _ => by rw [deserializeContent])
    rest.init cs
  refine (read_append some (fun _ _ => by rw [deserializeContent]) ?_ hes hfirst).trans ?_
  · exact fun o s => by rw [build, toOption_map]; rfl
  · rw [Option.bind_fun_some]

end Fields

end Reading

section Values

variable {t : Tokens} {α σ ρ : Type}

theorem bind_map_eq_some {o : Option α} {q : Option ρ} {a : α} {p : ρ} :
    (o.bind fun a => q.map fun p => (a, p)) = some (a, p) ↔ o = some a ∧ q = some p := by
  cases o <;> cases q <;> simp

theorem bind_nonempty_eq_some {o : Option (List α)} {l : List α} :
    (o.bind fun l => if l = [] then none else some l) = some l ↔ l ≠ [] ∧ o = some l := by
  cases o with
  | none => simp
  | some l' =>
    rw [Option.bind_some]
    split_ifs with hempty
    · simp [hempty, eq_comm]
    · constructor
      · rintro ⟨⟩
        exact ⟨hempty, rfl⟩
      · exact fun h => h.2

theorem map_nonempty_eq_some {o : Option (List α)} {l : List α} :
    (o.map fun l => if l = [] then none else some l) = some (some l) ↔ l ≠ [] ∧ o = some l := by
  rw [← bind_nonempty_eq_some]
  cases o with
  | none => simp
  | some l' => rw [Option.map_some, Option.some.injEq, Option.bind_some]

theorem TextCodec.value_tree (ht : t.Faithful) (c : TextCodec α) {a : α} (ha : c.IsMarkupFree a) :
    c.deserializeContent.value ((Schema.text c).tree t a) = some a ↔ c.Restores a := by
  obtain ⟨hitems, hdata⟩ := ht.items ha
  rw [deserializeContent, Structure.value, Structure.value, Schema.tree, Content.chars_ofItems hitems, hdata,
    Option.bind_some, toOption_eq_some, Restores]

/-- The elements of a structure have the names of its fields. -/
theorem Fields.name_mem {σ ρ : Type} : ∀ (fields : Fields σ ρ) (p : ρ), ∀ e ∈ fields.elements t p, e.1 ∈ fields.names
  | .nil, _, e, he => by simp [Fields.elements] at he
  | .required name x rest, p, e, he => by
    rw [Fields.elements, List.mem_cons] at he
    obtain rfl | he := he
    · exact List.mem_cons_self
    · exact List.mem_cons_of_mem _ (rest.name_mem p.2 e he)
  | .optional name x rest, p, e, he | .requiredFlattened name x rest, p, e, he
  | .optionalFlattened name x rest, p, e, he => by
    rw [Fields.elements, List.mem_append, List.mem_map] at he
    obtain ⟨a, -, rfl⟩ | he := he
    · exact List.mem_cons_self
    · exact List.mem_cons_of_mem _ (rest.name_mem p.2 e he)

theorem Variants.name_mem {α : Type} (variants : Variants α) (a : α) :
    (variants.element t a).1 ∈ variants.names := by
  cases variants with
  | nil => exact a.elim
  | cons name x rest =>
    cases a with
    | inl _ => exact List.mem_cons_self
    | inr b => exact List.mem_cons_of_mem _ (rest.name_mem b)

/-- A structure is read field by field, whatever it does with what it does not know. -/
theorem Schema.struct_value (skipsUnknown : Bool) (fields : Fields σ ρ) (self : α ≃ ρ)
    {es : List (Bytes × Content)} (hes : ∀ e ∈ es, e.1 ∈ fields.names) :
    (struct skipsUnknown fields self).deserializeContent.value (.ofElements es) = (fields.read es).map self.symm := by
  have hloop : (if fields.names.isEmpty then Structure.pure fields.init else
      .forEachElement (fun name => !skipsUnknown || fields.names.contains name) fields.deserializeContent
        fields.init).value (.ofElements es) = es.foldlM fields.step fields.init := by
    split_ifs with hempty
    · rw [List.isEmpty_iff] at hempty
      cases es with
      | nil => rfl
      | cons e es =>
        have hmem := hes e List.mem_cons_self
        rw [hempty] at hmem
        cases hmem
    · rw [Structure.value, Content.fold_ofElements]
      generalize fields.init = s
      induction es generalizing s with
      | nil => rfl
      | cons e es ih =>
        have hknown : (!skipsUnknown || fields.names.contains e.1) = true := by
          simp [hes e List.mem_cons_self]
        rw [List.foldlM_cons, List.foldlM_cons, hknown, if_pos rfl]
        exact congrArg _ (funext fun s => ih (fun e he => hes e (List.mem_cons_of_mem _ he)) s)
  rw [deserializeContent, Structure.value, hloop, Fields.read]
  cases es.foldlM fields.step fields.init with
  | none => rfl
  | some s => exact Fields.toOption_map _ _

/-- The name of a field is none of those behind it. -/
theorem name_ne_of_distinct {names : List Bytes} {name : Bytes} {b c : Bool}
    (h : (!names.contains name && b && c) = true) :
    (∀ n ∈ names, n ≠ name) ∧ b = true ∧ c = true := by
  simp only [Bool.and_eq_true, Bool.not_eq_true', List.contains_eq_mem, decide_eq_false_iff_not] at h
  exact ⟨fun n hn heq => h.1.1 (heq ▸ hn), h.1.2, h.2⟩

/-- The members of a list are read back one by one. -/
theorem mapM_members {value : Content → Option α} {tree : α → Content} {P Q : α → Prop} {iter : List α}
    (h : ∀ a ∈ iter, (value (tree a) = some a ↔ P a ∧ Q a)) :
    (iter.map tree).mapM value = some iter ↔ (∀ a ∈ iter, P a) ∧ ∀ a ∈ iter, Q a := by
  rw [List.mapM_map, mapM_eq_self, ← forall₂_and]
  exact forall₂_congr h

mutual

/-- A value is read back from its tree if and only if its texts are restored and its flattened lists have members. -/
theorem Schema.value_tree (ht : t.Faithful) {α : Type} : ∀ (x : Schema α) (a : α), x.isDistinct = true →
    x.All (fun _ c a => c.IsMarkupFree a) a →
    (x.deserializeContent.value (x.tree t a) = some a ↔ x.All (fun _ c a => c.Restores a) a ∧ x.Regular a)
  | .text c, a, _, ha => by
    rw [Schema.deserializeContent, Schema.Regular, and_true]
    exact c.value_tree ht ha
  | .list memberName member, iter, hx, ha => by
    rw [Schema.isDistinct] at hx
    have hmembers := mapM_members fun a hmem => member.value_tree ht a hx (ha a hmem)
    rw [Schema.deserializeContent, Schema.tree, ← Function.comp_def (fun c => (memberName, c)), ← List.map_map,
      Structure.listContent_value]
    exact hmembers
  | .structEnum variants self, a, hx, ha => by
    rw [Schema.isDistinct] at hx
    refine Iff.trans ?_ (variants.value_element ht (self a) hx ha)
    rw [Schema.deserializeContent, Schema.tree, Structure.value, Structure.value, Content.ofElements_cons, Content.only,
      Content.ofElements_nil]
    simp only [Content.chars, Option.map_some, Option.bind_fun_some, Except.toOption, Option.bind_eq_some_iff,
      Option.some.injEq, self.symm_apply_eq, exists_eq_right]
  | .struct skipsUnknown fields self, a, hx, ha => by
    rw [Schema.isDistinct] at hx
    have hfields := fields.read_elements ht (self a) hx ha
    rw [Schema.tree, Schema.struct_value skipsUnknown fields self (fields.name_mem (self a)),
      Option.map_eq_some_iff]
    simp only [Equiv.symm_apply_eq, exists_eq_right]
    exact hfields

theorem Variants.value_element (ht : t.Faithful) {α : Type} : ∀ (variants : Variants α) (a : α),
    variants.isDistinct = true → variants.All (fun _ c a => c.IsMarkupFree a) a →
    ((variants.deserializeContent (variants.element t a).1).value (variants.element t a).2 = some a ↔
      variants.All (fun _ c a => c.Restores a) a ∧ variants.Regular a)
  | .nil, a, _, _ => a.elim
  | .cons name x rest, .inl a, hx, ha => by
    obtain ⟨-, hx, -⟩ := name_ne_of_distinct hx
    refine Iff.trans ?_ (x.value_tree ht a hx ha)
    rw [Variants.element, Variants.deserializeContent, if_pos rfl, Structure.value]
    cases x.deserializeContent.value (x.tree t a) <;> simp [Except.toOption]
  | .cons name x rest, .inr b, hx, ha => by
    obtain ⟨hname, -, hx⟩ := name_ne_of_distinct hx
    refine Iff.trans ?_ (rest.value_element ht b hx ha)
    rw [Variants.element, Variants.deserializeContent, if_neg (hname _ (rest.name_mem b)), Structure.value]
    cases (rest.deserializeContent (rest.element t b).1).value (rest.element t b).2 <;> simp [Except.toOption]

theorem Fields.read_elements (ht : t.Faithful) {σ ρ : Type} : ∀ (fields : Fields σ ρ) (p : ρ),
    fields.isDistinct = true → fields.All (fun _ c a => c.IsMarkupFree a) p →
    (fields.read (fields.elements t p) = some p ↔
      fields.All (fun _ c a => c.Restores a) p ∧ fields.Regular p)
  | .nil, p, _, _ => by
    simp [Fields.elements, Fields.read, Fields.init, Fields.build, Fields.All, Fields.Regular, Except.toOption]
  | .required name x rest, p, hx, ha => by
    obtain ⟨hname, hx, hrest⟩ := name_ne_of_distinct hx
    have hes := fun e he => hname _ (rest.name_mem (t := t) p.2 e he)
    rw [Fields.elements, Fields.read_required hes, Fields.All, Fields.Regular, and_and_and_comm,
      ← rest.read_elements ht p.2 hrest ha.2, ← x.value_tree ht p.1 hx ha.1]
    exact bind_map_eq_some
  | .optional name x rest, p, hx, ha => by
    obtain ⟨hname, hx, hrest⟩ := name_ne_of_distinct hx
    have hes := fun e he => hname _ (rest.name_mem (t := t) p.2 e he)
    have helements : p.1.toList.map (fun a => (name, x.tree t a)) =
        (p.1.map (x.tree t)).toList.map fun c => (name, c) := by
      cases p.1 <;> rfl
    have hfirst : (((p.1.map (x.tree t)).elim (some none) fun c => (x.deserializeContent.value c).map some) =
        some p.1) ↔ (∀ a ∈ p.1, x.All (fun _ c a => c.Restores a) a) ∧ ∀ a ∈ p.1, x.Regular a := by
      have ha' := ha.1
      cases hp : p.1 with
      | none => simp
      | some a =>
        have hvalue := x.value_tree ht a hx (ha' a hp)
        simpa using hvalue
    rw [Fields.elements, helements, Fields.read_optional hes, Fields.All, Fields.Regular, and_and_and_comm,
      ← rest.read_elements ht p.2 hrest ha.2, ← hfirst]
    exact bind_map_eq_some
  | .requiredFlattened name x rest, p, hx, ha => by
    obtain ⟨hname, hx, hrest⟩ := name_ne_of_distinct hx
    have hes := fun e he => hname _ (rest.name_mem (t := t) p.2 e he)
    have hmembers := mapM_members fun a hmem => x.value_tree ht a hx (ha.1 a hmem)
    have helements : p.1.map (fun a => (name, x.tree t a)) = (p.1.map (x.tree t)).map fun c => (name, c) := by simp
    have hfirst : (((p.1.map (x.tree t)).mapM x.deserializeContent.value).bind fun l =>
        if l = [] then none else some l) = some p.1 ↔
          (∀ a ∈ p.1, x.All (fun _ c a => c.Restores a) a) ∧ p.1 ≠ [] ∧ ∀ a ∈ p.1, x.Regular a := by
      rw [and_left_comm, ← hmembers]
      exact bind_nonempty_eq_some
    rw [Fields.elements, helements, Fields.read_requiredFlattened hes, Fields.All, Fields.Regular, and_and_and_comm,
      ← rest.read_elements ht p.2 hrest ha.2, ← hfirst]
    exact bind_map_eq_some
  | .optionalFlattened name x rest, p, hx, ha => by
    obtain ⟨hname, hx, hrest⟩ := name_ne_of_distinct hx
    have hes := fun e he => hname _ (rest.name_mem (t := t) p.2 e he)
    have helements : (p.1.getD []).map (fun a => (name, x.tree t a)) =
      ((p.1.getD []).map (x.tree t)).map fun c => (name, c) := by simp
    have hfirst : (((p.1.getD []).map (x.tree t)).mapM x.deserializeContent.value).map (fun l =>
        if l = [] then none else some l) = some p.1 ↔
          (∀ iter ∈ p.1, ∀ a ∈ iter, x.All (fun _ c a => c.Restores a) a) ∧
            ∀ iter ∈ p.1, iter ≠ [] ∧ ∀ a ∈ iter, x.Regular a := by
      have ha' := ha.1
      cases hp : p.1 with
      | none => simp
      | some iter =>
        have hmembers := mapM_members fun a hmem => x.value_tree ht a hx (ha' iter hp a hmem)
        simp only [Option.getD_some, Option.mem_some_iff, forall_eq']
        rw [and_left_comm, ← hmembers]
        exact map_nonempty_eq_some
    rw [Fields.elements, helements, Fields.read_optionalFlattened hes, Fields.All, Fields.Regular, and_and_and_comm,
      ← rest.read_elements ht p.2 hrest ha.2, ← hfirst]
    exact bind_map_eq_some

end

end Values

section Reads

variable {α β σ : Type}

/-- Whatever is read has the property. -/
def Structure.Yields (x : Structure α) (P : α → Prop) : Prop := ∀ d a d', x.reader.read d = .ok (a, d') → P a

namespace Structure.Yields

theorem fail (e : DeError) (P : α → Prop) : (Structure.fail e).Yields P := by
  intro d a d' h
  cases h

theorem map {x : Structure β} {f : β → Except DeError α} {P : α → Prop} {Q : β → Prop} (hx : x.Yields Q)
    (hf : ∀ b a, Q b → f b = .ok a → P a) : (Structure.map x f).Yields P := by
  intro d a d' h
  obtain ⟨b, hread, hb⟩ := map_read_eq_ok.mp h
  exact hf b a (hx d b d' hread) hb

theorem element {f : Bytes → Structure α} {P : α → Prop} (hf : ∀ name, (f name).Yields P) :
    (Structure.element f).Yields P := by
  intro d a d' h
  change d.element (fun name => (f name).reader) = .ok (a, d') at h
  generalize hreader : (fun name => (f name).reader) = reader at h
  fun_induction Deserializer.element reader d with
  | case1 | case2 | case5 | case6 => cases h
  | case3 d name d₁ hev a₁ d₂ hread =>
    obtain ⟨d₃, -, hd₃⟩ := map_eq_ok.mp h
    cases hd₃
    subst hreader
    exact hf name _ _ _ hread
  | case4 d content d₁ hev ih => exact ih h

/-- What every element keeps, the loop over the elements keeps. -/
theorem forEachElement {known : Bytes → Bool} {f : Bytes → σ → Structure σ} {init : σ} {P : σ → Prop} (hinit : P init)
    (hf : ∀ name s, P s → (f name s).Yields P) : (Structure.forEachElement known f init).Yields P := by
  intro d a d' h
  change d.forEachElement (ContentReader.knownElement known fun name s => (f name s).reader) init = .ok (a, d') at h
  generalize hreader : (ContentReader.knownElement known fun name s => (f name s).reader) = reader at h
  fun_induction Deserializer.forEachElement reader init d with
  | case1 | case2 | case3 => cases h
  | case4 s d name d₁ hev s₁ d₂ hread d₃ hend ih =>
    refine ih ?_ h
    subst hreader
    simp only [ContentReader.knownElement] at hread
    split_ifs at hread
    · exact hf name s hinit _ _ _ hread
    · obtain ⟨d₄, -, hd₄⟩ := map_eq_ok.mp hread
      cases hd₄
      exact hinit
  | case5 s d content d₁ hev ih => exact ih hinit h
  | case6 | case7 =>
    cases h
    exact hinit

theorem pure {a : α} {P : α → Prop} (h : P a) : (Structure.pure a).Yields P := by
  intro d b d' hread
  cases hread
  exact h

theorem text : Structure.text.Yields fun _ => True := fun _ _ _ _ => trivial

theorem listContent {name : Bytes} {x : Structure α} {P : α → Prop} (hx : x.Yields P) :
    (Structure.listContent name x).Yields fun list => ∀ a ∈ list, P a := by
  refine forEachElement (fun a ha => by cases ha) fun _ list hlist => map hx ?_
  intro a list' ha h
  cases h
  exact List.forall_mem_append.mpr ⟨hlist, by simpa using ha⟩

theorem orRest {isFirst : Bool} {first : Structure α} {rest : Structure σ} {s : α × σ} {P : α → Prop} {Q : σ → Prop}
    (hs : P s.1 ∧ Q s.2) (hfirst : first.Yields P) (hrest : rest.Yields Q) :
    (Structure.orRest isFirst first rest s).Yields fun s => P s.1 ∧ Q s.2 := by
  cases isFirst with
  | true =>
    refine map hfirst fun a s' ha h => ?_
    cases h
    exact ⟨ha, hs.2⟩
  | false =>
    refine map hrest fun t s' ht h => ?_
    cases h
    exact ⟨hs.1, ht⟩

theorem once {x : Structure α} {P : α → Prop} (hx : x.Yields P) (o : Option α) :
    (x.once o).Yields fun o => ∀ a ∈ o, P a := by
  cases o with
  | some a => exact fail _ _
  | none =>
    refine map hx fun a o ha h => ?_
    cases h
    simpa using ha

theorem push {x : Structure α} {P : α → Prop} (hx : x.Yields P) {o : Option (List α)}
    (ho : ∀ list ∈ o, list ≠ [] ∧ ∀ a ∈ list, P a) :
    (x.push o).Yields fun o => ∀ list ∈ o, list ≠ [] ∧ ∀ a ∈ list, P a := by
  refine map hx fun a o' ha h => ?_
  cases h
  have hmembers : ∀ b ∈ o.getD [], P b := by
    cases ho' : o with
    | none => simp
    | some list => exact (ho list ho').2
  simp only [Option.mem_some_iff, forall_eq']
  exact ⟨by simp, List.forall_mem_append.mpr ⟨hmembers, by simpa using ha⟩⟩

end Structure.Yields

/-- What has been read of the fields so far has no list without a member. -/
def Fields.Known {σ ρ : Type} : Fields σ ρ → σ → Prop
  | .nil, _ => True
  | .required _ x rest, s | .optional _ x rest, s => (∀ a ∈ s.1, x.Regular a) ∧ rest.Known s.2
  | .requiredFlattened _ x rest, s | .optionalFlattened _ x rest, s =>
    (∀ iter ∈ s.1, iter ≠ [] ∧ ∀ a ∈ iter, x.Regular a) ∧ rest.Known s.2

theorem Fields.known_init {σ ρ : Type} : ∀ fields : Fields σ ρ, fields.Known fields.init
  | .nil => trivial
  | .required _ _ rest | .optional _ _ rest | .requiredFlattened _ _ rest | .optionalFlattened _ _ rest =>
    ⟨by simp [Fields.init], rest.known_init⟩

theorem Fields.regular_of_build {σ ρ : Type} : ∀ (fields : Fields σ ρ) (s : σ) (p : ρ), fields.Known s →
    fields.build s = .ok p → fields.Regular p
  | .nil, _, _, _, _ => trivial
  | .required _ x rest, s, p, hs, h | .requiredFlattened _ x rest, s, p, hs, h => by
    rw [Fields.build] at h
    cases hs₁ : s.1 with
    | none =>
      rw [hs₁] at h
      cases h
    | some a =>
      rw [hs₁, Option.elim_some] at h
      obtain ⟨q, hrest, hp⟩ := map_eq_ok.mp h
      subst hp
      exact ⟨hs.1 a hs₁, rest.regular_of_build s.2 q hs.2 hrest⟩
  | .optional _ x rest, s, p, hs, h | .optionalFlattened _ x rest, s, p, hs, h => by
    rw [Fields.build] at h
    obtain ⟨q, hrest, hp⟩ := map_eq_ok.mp h
    subst hp
    exact ⟨hs.1, rest.regular_of_build s.2 q hs.2 hrest⟩

mutual

/-- A value that is read has no flattened list without a member. -/
theorem Schema.yields_regular {α : Type} : ∀ x : Schema α, x.deserializeContent.Yields x.Regular
  | .text c => by
    rw [Schema.deserializeContent]
    exact .map .text fun _ _ _ _ => trivial
  | .list memberName member => by
    rw [Schema.deserializeContent]
    exact .listContent member.yields_regular
  | .structEnum variants self => by
    rw [Schema.deserializeContent]
    refine .map (.element fun name => variants.yields_regular name) fun b a hb h => ?_
    cases h
    rw [Schema.Regular, self.apply_symm_apply]
    exact hb
  | .struct skipsUnknown fields self => by
    rw [Schema.deserializeContent]
    have hloop : (if fields.names.isEmpty then Structure.pure fields.init else
        .forEachElement (fun name => !skipsUnknown || fields.names.contains name) fields.deserializeContent
          fields.init).Yields fields.Known := by
      split_ifs
      · exact .pure fields.known_init
      · exact .forEachElement fields.known_init fields.yields_known
    refine .map hloop fun s a hs h => ?_
    obtain ⟨p, hbuild, hp⟩ := map_eq_ok.mp h
    subst hp
    rw [Schema.Regular, self.apply_symm_apply]
    exact fields.regular_of_build s p hs hbuild

theorem Variants.yields_regular {α : Type} : ∀ (variants : Variants α) (name : Bytes),
    (variants.deserializeContent name).Yields variants.Regular
  | .nil, _ => by
    rw [Variants.deserializeContent]
    exact .fail _ _
  | .cons n x rest, name => by
    rw [Variants.deserializeContent]
    split_ifs
    · refine .map x.yields_regular fun a b ha h => ?_
      cases h
      exact ha
    · refine .map (rest.yields_regular name) fun a b ha h => ?_
      cases h
      exact ha

theorem Fields.yields_known {σ ρ : Type} : ∀ (fields : Fields σ ρ) (name : Bytes) (s : σ), fields.Known s →
    (fields.deserializeContent name s).Yields fields.Known
  | .nil, _, _, _ => by
    rw [Fields.deserializeContent]
    exact .fail _ _
  | .required n x rest, name, s, hs | .optional n x rest, name, s, hs => by
    rw [Fields.deserializeContent]
    exact .orRest (P := fun o => ∀ a ∈ o, x.Regular a) (Q := rest.Known) hs (.once x.yields_regular _)
      (rest.yields_known name s.2 hs.2)
  | .requiredFlattened n x rest, name, s, hs | .optionalFlattened n x rest, name, s, hs => by
    rw [Fields.deserializeContent]
    exact .orRest (P := fun o => ∀ iter ∈ o, iter ≠ [] ∧ ∀ a ∈ iter, x.Regular a) (Q := rest.Known) hs
      (.push x.yields_regular hs.1) (rest.yields_known name s.2 hs.2)

end

/-- What is read of a body is read by the reader of its content. -/
theorem Structure.Yields.deserializeXml {x : Structure α} {P : α → Prop} (hx : x.Yields P) {name : Bytes}
    {events : List (Option Event)} {a : α} (h : deserializeXml name x events = .ok a) : P a := by
  rw [deserializeXml_eq, namedElement_eq] at h
  obtain ⟨⟨b, d₂⟩, hnamed, h⟩ := bind_eq_ok.mp h
  obtain ⟨d, -, hd⟩ := bind_eq_ok.mp hnamed
  obtain ⟨d₁, hread, -⟩ := closed_eq_ok.mp hd
  obtain ⟨_, -, hb⟩ := map_eq_ok.mp h
  subst hb
  exact hx d b d₁ hread

end Reads

section RequestBodies

variable {τ : Type} {integer : TextCodec Int} {timestamp : TextCodec τ}

/-- A tagging can always be read back. -/
theorem Tagging.restores (a : Tagging) : schema.Restores a ∧ schema.Regular a := by
  simp [schema, Tag.schema, Schema.Restores, Schema.All, Fields.All, Schema.Regular, Fields.Regular]

/-- What can fail for the texts of an upload, fails for the ETag or for the number of a part. -/
theorem CompletedMultipartUpload.all_iff {P : ∀ α : Type, TextCodec α → α → Prop} (hstring : ∀ s, P _ .string s)
    {a : CompletedMultipartUpload} :
    (schema integer).All P a ↔ ∀ parts ∈ a.parts, ∀ part ∈ parts,
      (∀ e ∈ part.eTag, P _ .etag e) ∧ ∀ n ∈ part.partNumber, P _ integer n := by
  simp [schema, CompletedPart.schema, Schema.All, Fields.All, hstring]

theorem CompletedMultipartUpload.regular_iff {a : CompletedMultipartUpload} :
    (schema integer).Regular a ↔ a.parts ≠ some [] := by
  cases a with
  | mk parts => cases parts <;> simp [schema, CompletedPart.schema, Schema.Regular, Fields.Regular]

/-- A request that deletes nothing is not read back. -/
theorem Delete.regular_iff {a : Delete τ} : (schema integer timestamp).Regular a ↔ a.objects ≠ [] := by
  simp [schema, ObjectIdentifier.schema, Schema.Regular, Fields.Regular]

end RequestBodies

section Bodies

variable {t : Tokens} {α : Type} {x : Schema α}

/-- The body of a value is read as its tree. -/
theorem Schema.deserialize_eq_ok (x : Schema α) (decl : Option Bytes) (name : Bytes) (a v : α) :
    x.deserialize name (t.events (x.serialize decl name a)) = .ok v ↔
      x.deserializeContent.value (x.tree t a) = some v := by
  rw [x.events_serialize, Schema.deserialize]
  exact (x.document (t := t) decl name a).deserializeXml_eq_ok x.deserializeContent (x.tree t a) v

/-- What is read of an escaped text, and of one that is not escaped and has no markup. -/
def plainTexts : Tokens where
  escaped := escapedItems
  raw s := if s = [] then [] else [.text s]

theorem plainTexts_faithful : plainTexts.Faithful where
  escaped := escapedItems_textInverse
  raw := by
    intro s _
    by_cases h : s = []
    · simp [plainTexts, h, contentCharData]
    · simp [plainTexts, h, contentCharData, Item.charData]

/-- A value is read back from the body that is written of it if and only if each of its texts is read as what it is
written of, and none of its flattened lists is there without a member. -/
theorem body_round_trip (ht : t.Faithful) (hx : x.isDistinct = true) (a : α) (ha : x.IsMarkupFree a)
    (decl : Option Bytes) (name : Bytes) :
    x.deserialize name (t.events (x.serialize decl name a)) = .ok a ↔ x.Restores a ∧ x.Regular a := by
  rw [x.deserialize_eq_ok]
  exact x.value_tree ht a hx ha

/-- The numbers that are not negative. -/
def natural : TextCodec Int :=
  .parsed (fun n => Bytes.decimal n.toNat) fun s => if Decimal.IsNumber s then some (Decimal.value s : Int) else none

/-- One part of an upload, with the ETag `"abc"`. -/
def samplePart : CompletedPart where
  checksumCrc32 := none
  checksumCrc32c := none
  checksumCrc64nvme := none
  checksumMd5 := none
  checksumSha1 := none
  checksumSha256 := none
  checksumSha512 := none
  checksumXxhash128 := none
  checksumXxhash3 := none
  checksumXxhash64 := none
  eTag := some (.strong (ascii "abc"))
  partNumber := some 1

theorem isPlain_sampleETag : IsPlain (serializeETag (.strong (ascii "abc"))) := by
  have hwritten : serializeETag (.strong (ascii "abc")) = [34, 97, 98, 99, 34] := rfl
  rw [hwritten]
  simp [IsPlain]

/-- Its texts are restored, and there is no markup in them. -/
theorem samplePart_restores :
    (CompletedMultipartUpload.schema natural).Restores ⟨some [samplePart]⟩ ∧
      (CompletedMultipartUpload.schema natural).IsMarkupFree ⟨some [samplePart]⟩ := by
  constructor
  · refine (CompletedMultipartUpload.all_iff TextCodec.string_restores).mpr ?_
    simp only [Option.mem_some_iff, forall_eq', List.mem_singleton, forall_eq, samplePart, TextCodec.etag_restores]
    exact ⟨by decide, TextCodec.parsed_restores.mpr (by decide)⟩
  · refine (CompletedMultipartUpload.all_iff TextCodec.string_isMarkupFree).mpr ?_
    simp only [Option.mem_some_iff, forall_eq', List.mem_singleton, forall_eq, samplePart]
    exact ⟨fun _ => isPlain_sampleETag, TextCodec.parsed_isMarkupFree 1⟩

/-- The upload of a part is read back, and one of no part is not. -/
theorem body_round_trip_upload :
    let x := CompletedMultipartUpload.schema natural
    let written := fun a => plainTexts.events (x.serialize none (ascii "CompleteMultipartUpload") a)
    x.deserialize (ascii "CompleteMultipartUpload") (written ⟨some [samplePart]⟩) = .ok ⟨some [samplePart]⟩ ∧
      x.deserialize (ascii "CompleteMultipartUpload") (written ⟨some []⟩) ≠ .ok ⟨some []⟩ := by
  intro x written
  have hdistinct : x.isDistinct = true := by decide
  constructor
  · exact (body_round_trip plainTexts_faithful hdistinct ⟨some [samplePart]⟩ samplePart_restores.2 none _).mpr
      ⟨samplePart_restores.1, CompletedMultipartUpload.regular_iff.mpr (by simp)⟩
  · intro h
    have hplain : x.IsMarkupFree ⟨some []⟩ :=
      (CompletedMultipartUpload.all_iff TextCodec.string_isMarkupFree).mpr (by simp)
    have hregular := ((body_round_trip plainTexts_faithful hdistinct ⟨some []⟩ hplain none _).mp h).2
    exact CompletedMultipartUpload.regular_iff.mp hregular rfl

/-- Whatever the events of a body are, the value that is read of it is read again from what is written of it if and
only if each of its texts is. -/
theorem body_read_again (ht : t.Faithful) (hx : x.isDistinct = true) (name : Bytes) (events : List (Option Event))
    (a : α) (hread : x.deserialize name events = .ok a) (ha : x.IsMarkupFree a) (decl : Option Bytes) :
    x.deserialize name (t.events (x.serialize decl name a)) = .ok a ↔ x.Restores a := by
  have hregular : x.Regular a := x.yields_regular.deserializeXml hread
  rw [x.deserialize_eq_ok, x.value_tree ht a hx ha]
  exact and_iff_left hregular

/-- A body with an element that is not known, an ETag without quotes and a number with a zero in front. -/
def sampleBody : Document where
  before := []
  root := ascii "CompleteMultipartUpload"
  content := .element (ascii "Unknown") .nil <| .element (ascii "Part")
    (.element (ascii "PartNumber") (.item (.text (ascii "01")) .nil) <|
      .element (ascii "ETag") (.item (.text (ascii "abc")) .nil) .nil) .nil
  behind := []
  before_isMisc := isMisc_nil
  behind_isMisc := isMisc_nil

/-- The parts that are read of it are read again. -/
theorem body_read_again_upload :
    let x := CompletedMultipartUpload.schema natural
    x.deserialize sampleBody.root sampleBody.events = .ok ⟨some [samplePart]⟩ ∧
      x.deserialize sampleBody.root
        (plainTexts.events (x.serialize none sampleBody.root ⟨some [samplePart]⟩)) = .ok ⟨some [samplePart]⟩ := by
  intro x
  have hread : x.deserialize sampleBody.root sampleBody.events = .ok ⟨some [samplePart]⟩ :=
    (sampleBody.deserializeXml_eq_ok x.deserializeContent sampleBody.content _).mpr (by rfl)
  exact ⟨hread, (body_read_again plainTexts_faithful (by decide) _ _ _ hread samplePart_restores.2 none).mpr
    samplePart_restores.1⟩

end Bodies

end S3s.Xml
