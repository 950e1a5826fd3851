import S3s.Policy.Statement

/-! # Policy documents

A policy as a JSON document, written and read. What is written of a policy is always read, and a policy that was
read is read again as it is: only a single action or resource `*` comes back as the wildcard that it means.
-/
namespace S3s.Policy

inductive Version where
  | v2012_10_17
  | v2008_10_17
deriving DecidableEq

/-- The variant of a `Version` of a name. -/
def Version.ofVariant (name : Bytes) : Except Error Version :=
  if name = ascii "2012-10-17" then .ok .v2012_10_17
  else if name = ascii "2008-10-17" then .ok .v2008_10_17
  else .error (.unknownVariant name)

/-- `Version::deserialize`: the name of the variant, or an object of it and nothing. -/
def Version.deserialize : Json → Except Error Version
  | .string s => Version.ofVariant s
  | .object [(name, .null)] => Version.ofVariant name
  | _ => .error (.expected (ascii "enum Version"))

/-- `Policy` -/
structure Policy where
  version : Option Version
  id : Option Bytes
  statement : OneOrMore Statement

/-- `Statement::deserialize` -/
def Statement.ofJson : Json → Except Error Statement
  | .object members => Statement.deserialize members
  | _ => .error (.expected (ascii "struct Statement"))

section Reading

/-- What `visit_map` of a policy holds while it goes over the members. -/
structure PolicyFields where
  version : Option (Option Version)
  id : Option (Option Bytes)
  statement : Option (OneOrMore Statement)

namespace PolicyFields

/-- One turn of `visit_map`. An unknown member is passed over. -/
def visitMember (f : PolicyFields) (m : Bytes × Json) : Except Error PolicyFields :=
  if m.1 = ascii "Version" then do
    .ok { f with version := ← Fields.fill m.1 (optional Version.deserialize) f.version m.2 }
  else if m.1 = ascii "Id" then do
    .ok { f with id := ← Fields.fill m.1 (optional string) f.id m.2 }
  else if m.1 = ascii "Statement" then do
    .ok { f with statement := ← Fields.fill m.1 (OneOrMore.deserialize Statement.ofJson) f.statement m.2 }
  else .ok f

/-- What `visit_map` makes of the fields behind its loop. -/
def finish (f : PolicyFields) : Except Error Policy := do
  let statement ← f.statement.elim (.error (.missingField (ascii "Statement"))) .ok
  .ok ⟨f.version.getD none, f.id.getD none, statement⟩

end PolicyFields

/-- `next_element` of an array that is read as a policy. -/
def nextElement : List Json → Except Error (Json × List Json)
  | [] => .error (.expected (ascii "struct Policy with 3 elements"))
  | v :: items => .ok (v, items)

/-- `visit_seq` of a policy. -/
def Policy.visitSeq (items : List Json) : Except Error Policy := do
  let first ← nextElement items
  let version ← optional Version.deserialize first.1
  let second ← nextElement first.2
  let id ← optional string second.1
  let third ← nextElement second.2
  let statement ← OneOrMore.deserialize Statement.ofJson third.1
  if third.2.isEmpty then .ok ⟨version, id, statement⟩
  else .error (.expected (ascii "fewer elements in array"))

/-- `Policy::deserialize` -/
def Policy.deserialize : Json → Except Error Policy
  | .object members => do (← members.foldlM PolicyFields.visitMember ⟨none, none, none⟩).finish
  | .array items => Policy.visitSeq items
  | _ => .error (.expected (ascii "struct Policy"))

end Reading

section Writing

/-- `Option::serialize` -/
def serializeOption {α : Type} (value : α → Json) (o : Option α) : Json := o.elim .null value

/-- `IndexMap::serialize` -/
def IndexMap.serialize {α : Type} (value : α → Json) (map : IndexMap α) : Json :=
  .object (map.entries.map fun e => (e.1, value e.2))

/-- `OneOrMore::serialize` -/
def OneOrMore.serialize {α : Type} (value : α → Json) : OneOrMore α → Json
  | .one t => value t
  | .more ts => .array (ts.map value)

/-- `WildcardOneOrMore::serialize` -/
def WildcardOneOrMore.serialize {α : Type} (value : α → Json) : WildcardOneOrMore α → Json
  | .wildcard => .string (ascii "*")
  | .one t => value t
  | .more ts => .array (ts.map value)

/-- `Principal::serialize` -/
def Principal.serialize : Principal → Json
  | .wildcard => .string (ascii "*")
  | .map entries => entries.serialize (OneOrMore.serialize .string)

def Version.serialize : Version → Json
  | .v2012_10_17 => .string (ascii "2012-10-17")
  | .v2008_10_17 => .string (ascii "2008-10-17")

def Effect.serialize : Effect → Json
  | .allow => .string (ascii "Allow")
  | .deny => .string (ascii "Deny")

/-- The member that a flattened rule is written as. -/
def PrincipalRule.member : PrincipalRule → Bytes × Json
  | .principal p => (ascii "Principal", p.serialize)
  | .notPrincipal p => (ascii "NotPrincipal", p.serialize)

def ActionRule.member : ActionRule → Bytes × Json
  | .action a => (ascii "Action", a.serialize .string)
  | .notAction a => (ascii "NotAction", a.serialize .string)

def ResourceRule.member : ResourceRule → Bytes × Json
  | .resource r => (ascii "Resource", r.serialize .string)
  | .notResource r => (ascii "NotResource", r.serialize .string)

/-- `ConditionRule::serialize` -/
def ConditionRule.serialize (rule : ConditionRule) : Json :=
  IndexMap.serialize (IndexMap.serialize (OneOrMore.serialize .string)) rule

/-- `Statement::serialize` -/
def Statement.serialize (st : Statement) : Json :=
  .object ((ascii "Sid", serializeOption .string st.sid) :: ((st.principal.map PrincipalRule.member).toList ++
    [(ascii "Effect", st.effect.serialize), st.action.member, st.resource.member,
      (ascii "Condition", serializeOption ConditionRule.serialize st.condition)]))

/-- `Policy::serialize` -/
def Policy.serialize (p : Policy) : Json :=
  .object [(ascii "Version", serializeOption Version.serialize p.version),
    (ascii "Id", serializeOption .string p.id),
    (ascii "Statement", p.statement.serialize Statement.serialize)]

end Writing

section Normal

/-- A single `*` is the wildcard. -/
def WildcardOneOrMore.normal : WildcardOneOrMore Bytes → WildcardOneOrMore Bytes
  | .one t => if t = ascii "*" then .wildcard else .one t
  | w => w

def ActionRule.normal : ActionRule → ActionRule
  | .action a => .action a.normal
  | .notAction a => .notAction a.normal

def ResourceRule.normal : ResourceRule → ResourceRule
  | .resource r => .resource r.normal
  | .notResource r => .notResource r.normal

def Statement.normal (st : Statement) : Statement :=
  { st with action := st.action.normal, resource := st.resource.normal }

def OneOrMore.map {α β : Type} (f : α → β) : OneOrMore α → OneOrMore β
  | .one t => .one (f t)
  | .more ts => .more (ts.map f)

/-- The policy with its single actions and resources `*` as wildcards. -/
def Policy.normal (p : Policy) : Policy := { p with statement := p.statement.map Statement.normal }

end Normal

section ReadBack

variable {α : Type} {value : Json → Except Error α} {ser : α → Json} {norm : α → α}

theorem mapM_serialize (h : ∀ a, value (ser a) = .ok (norm a)) (ts : List α) :
    (ts.map ser).mapM value = .ok (ts.map norm) := by
  induction ts with
  | nil => rfl
  | cons t ts ih =>
    rw [List.map_cons, List.mapM_cons, h, ih]
    rfl

/-- What is written as a text or as an object is read as one value, and an array as several. -/
theorem OneOrMore.deserialize_serialize (h : ∀ a, value (ser a) = .ok (norm a))
    (hshape : ∀ a, (∃ s, ser a = .string s) ∨ ∃ members, ser a = .object members) (x : OneOrMore α) :
    OneOrMore.deserialize value (x.serialize ser) = .ok (x.map norm) := by
  cases x with
  | one t =>
    have ht := h t
    rw [serialize]
    rcases hshape t with ⟨s, hs⟩ | ⟨members, hmembers⟩
    · rw [hs] at ht ⊢
      rw [deserialize, ht]
      rfl
    · rw [hmembers] at ht ⊢
      rw [deserialize, ht]
      rfl
  | more ts =>
    rw [serialize, deserialize, mapM_serialize h]
    rfl

theorem string_serialize (s : Bytes) : string (.string s) = .ok (id s) := rfl

theorem OneOrMore.map_id (x : OneOrMore α) : x.map id = x := by
  cases x <;> simp [OneOrMore.map]

theorem OneOrMore.deserialize_strings (x : OneOrMore Bytes) :
    OneOrMore.deserialize string (x.serialize .string) = .ok x := by
  rw [deserialize_serialize string_serialize (fun s => Or.inl ⟨s, rfl⟩), x.map_id]

/-- A single `*` is read as the wildcard. -/
theorem WildcardOneOrMore.deserialize_serialize (x : WildcardOneOrMore Bytes) :
    WildcardOneOrMore.deserialize string (x.serialize .string) = .ok x.normal := by
  cases x with
  | wildcard => rfl
  | one t =>
    rw [serialize, deserialize, normal]
    split_ifs <;> rfl
  | more ts =>
    rw [serialize, deserialize, mapM_serialize string_serialize, List.map_id]
    rfl

/-- A new key joins the entries at their end. -/
theorem IndexMap.put_of_notMem {key : Bytes} {a : α} {es : List (Bytes × α)} (h : key ∉ es.map Prod.fst) :
    put key a es = es ++ [(key, a)] := by
  induction es with
  | nil => rfl
  | cons e es ih =>
    rw [List.map_cons, List.mem_cons, not_or] at h
    rw [put, if_neg fun heq => h.1 heq.symm, ih h.2, List.cons_append]

theorem IndexMap.ofMembers_serialize (h : ∀ a, value (ser a) = .ok a) (map : IndexMap α) :
    ofMembers value (map.entries.map fun e => (e.1, ser e.2)) = .ok map := by
  have hfold (es : List (Bytes × α)) (acc : IndexMap α) (hnodup : ((acc.entries ++ es).map Prod.fst).Nodup) :
      (es.map fun e => (e.1, ser e.2)).foldlM (fun map m => do .ok (map.insert m.1 (← value m.2))) acc =
        .ok ⟨acc.entries ++ es, hnodup⟩ := by
    induction es generalizing acc with
    | nil => simp [pure, Except.pure]
    | cons e es ih =>
      have hnew : e.1 ∉ acc.entries.map Prod.fst := by
        rw [List.map_append, List.nodup_append'] at hnodup
        exact fun hmem => hnodup.2.2 hmem (by simp)
      have hinsert : (acc.insert e.1 e.2).entries = acc.entries ++ [e] := put_of_notMem hnew
      have hrest := ih (acc.insert e.1 e.2) (by rw [hinsert, List.append_assoc]; exact hnodup)
      rw [List.map_cons, List.foldlM_cons, h]
      refine hrest.trans ?_
      simp only [hinsert, List.append_assoc, List.singleton_append]
  exact hfold map.entries empty (by simpa [empty] using map.nodup)

theorem Principal.deserialize_serialize (p : Principal) : Principal.deserialize p.serialize = .ok p := by
  cases p with
  | wildcard => rfl
  | map entries =>
    rw [serialize, IndexMap.serialize, deserialize, IndexMap.ofMembers_serialize OneOrMore.deserialize_strings]
    rfl

theorem ConditionRule.deserialize_serialize (rule : ConditionRule) :
    ConditionRule.deserialize rule.serialize = .ok rule := by
  have hvalues (values : ConditionKeyValues) : IndexMap.deserialize (OneOrMore.deserialize string)
      (IndexMap.serialize (OneOrMore.serialize .string) values) = .ok values :=
    IndexMap.ofMembers_serialize OneOrMore.deserialize_strings values
  exact IndexMap.ofMembers_serialize hvalues rule

theorem Effect.deserialize_serialize (e : Effect) : Effect.deserialize e.serialize = .ok e := by
  cases e <;> rfl

theorem Version.deserialize_serialize (v : Version) : Version.deserialize v.serialize = .ok v := by
  cases v <;> rfl

/-- What there is, is not written as nothing. -/
theorem optional_serialize (h : ∀ a, value (ser a) = .ok a) (hnull : ∀ a, ser a ≠ .null) (o : Option α) :
    optional value (serializeOption ser o) = .ok o := by
  cases o with
  | none => rfl
  | some a =>
    have ha := h a
    have hne := hnull a
    rw [serializeOption, Option.elim_some]
    generalize ser a = j at ha hne
    cases j with
    | null => exact absurd rfl hne
    | bool | number | string | array | object =>
      rw [optional, ha]
      · rfl
      · exact hne

section Statement

variable (sid effect condition : Json) (principal : Option PrincipalRule) (action : ActionRule)
  (resource : ResourceRule)

/-- The members that a statement is written as. -/
def membersOf : List (Bytes × Json) :=
  (ascii "Sid", sid) :: ((principal.map PrincipalRule.member).toList ++
    [(ascii "Effect", effect), action.member, resource.member, (ascii "Condition", condition)])

theorem valuesOf_membersOf :
    valuesOf (ascii "Sid") (membersOf sid effect condition principal action resource) = [sid] ∧
      valuesOf (ascii "Effect") (membersOf sid effect condition principal action resource) = [effect] ∧
      valuesOf (ascii "Condition") (membersOf sid effect condition principal action resource) = [condition] := by
  rcases principal with _ | _ | _ <;> cases action <;> cases resource <;> exact ⟨rfl, rfl, rfl⟩

theorem find_membersOf :
    (membersOf sid effect condition principal action resource).find? principalPair.named =
        principal.map PrincipalRule.member ∧
      (membersOf sid effect condition principal action resource).find? actionPair.named = some action.member ∧
      (membersOf sid effect condition principal action resource).find? resourcePair.named = some resource.member := by
  rcases principal with _ | _ | _ <;> cases action <;> cases resource <;> exact ⟨rfl, rfl, rfl⟩

theorem visitEnum_principal (rule : PrincipalRule) : principalPair.visitEnum rule.member = .ok rule := by
  cases rule with
  | principal p => exact congrArg (PrincipalRule.principal <$> ·) p.deserialize_serialize
  | notPrincipal p => exact congrArg (PrincipalRule.notPrincipal <$> ·) p.deserialize_serialize

theorem visitEnum_action (rule : ActionRule) : actionPair.visitEnum rule.member = .ok rule.normal := by
  cases rule with
  | action a => exact congrArg (ActionRule.action <$> ·) a.deserialize_serialize
  | notAction a => exact congrArg (ActionRule.notAction <$> ·) a.deserialize_serialize

theorem visitEnum_resource (rule : ResourceRule) : resourcePair.visitEnum rule.member = .ok rule.normal := by
  cases rule with
  | resource r => exact congrArg (ResourceRule.resource <$> ·) r.deserialize_serialize
  | notResource r => exact congrArg (ResourceRule.notResource <$> ·) r.deserialize_serialize

/-- The rules of a statement are read from their members. -/
theorem read_membersOf :
    (principalPair.read (membersOf sid effect condition principal action resource)).toOption = principal ∧
      actionPair.read (membersOf sid effect condition principal action resource) = .ok action.normal ∧
      resourcePair.read (membersOf sid effect condition principal action resource) = .ok resource.normal := by
  obtain ⟨hprincipal, haction, hresource⟩ := find_membersOf sid effect condition principal action resource
  rw [Pair.read, Pair.read, Pair.read, hprincipal, haction, hresource]
  refine ⟨?_, visitEnum_action action, visitEnum_resource resource⟩
  cases principal with
  | none => rfl
  | some rule => exact congrArg Except.toOption (visitEnum_principal rule)

end Statement

/-- What is written of a statement is read, a single `*` as the wildcard. -/
theorem Statement.ofJson_serialize (st : Statement) : Statement.ofJson st.serialize = .ok st.normal := by
  obtain ⟨sid, principal, effect, action, resource, condition⟩ := st
  have hsid := optional_serialize string_serialize (fun _ h => by cases h) sid
  have hcondition := optional_serialize ConditionRule.deserialize_serialize (fun _ h => by cases h) condition
  obtain ⟨hsids, heffects, hconditions⟩ := valuesOf_membersOf (serializeOption .string sid) effect.serialize
    (serializeOption ConditionRule.serialize condition) principal action resource
  obtain ⟨hprincipal, haction, hresource⟩ := read_membersOf (serializeOption .string sid) effect.serialize
    (serializeOption ConditionRule.serialize condition) principal action resource
  change Statement.deserialize (membersOf _ _ _ principal action resource) = _
  rw [deserialize_eq_ok, hsids, heffects, hconditions, hprincipal, haction, hresource]
  exact ⟨⟨some sid, ⟨rfl, sid, hsid, rfl⟩, rfl⟩, ⟨rfl, effect, effect.deserialize_serialize, rfl⟩,
    ⟨some condition, ⟨rfl, condition, hcondition, rfl⟩, rfl⟩, rfl, rfl, rfl⟩

namespace PolicyFields

variable {f : PolicyFields} {j : Json}

theorem visitMember_version {version : Option Version} (hf : f.version = none)
    (h : optional Version.deserialize j = .ok version) :
    f.visitMember (ascii "Version", j) = .ok { f with version := some version } := by
  rw [visitMember, if_pos rfl, Fields.fill, hf, h]
  rfl

theorem visitMember_id {id : Option Bytes} (hf : f.id = none) (h : optional string j = .ok id) :
    f.visitMember (ascii "Id", j) = .ok { f with id := some id } := by
  have hname : ascii "Id" ≠ ascii "Version" := by decide
  rw [visitMember, if_neg hname, if_pos rfl, Fields.fill, hf, h]
  rfl

theorem visitMember_statement {statement : OneOrMore Statement} (hf : f.statement = none)
    (h : OneOrMore.deserialize Statement.ofJson j = .ok statement) :
    f.visitMember (ascii "Statement", j) = .ok { f with statement := some statement } := by
  have hversion : ascii "Statement" ≠ ascii "Version" := by decide
  have hid : ascii "Statement" ≠ ascii "Id" := by decide
  rw [visitMember, if_neg hversion, if_neg hid, if_pos rfl, Fields.fill, hf, h]
  rfl

end PolicyFields

/-- What is written of a policy is read. -/
theorem Policy.deserialize_serialize (p : Policy) : Policy.deserialize p.serialize = .ok p.normal := by
  have hversion := optional_serialize Version.deserialize_serialize (fun v h => by cases v <;> cases h) p.version
  have hid := optional_serialize string_serialize (fun _ h => by cases h) p.id
  have hstatement := OneOrMore.deserialize_serialize Statement.ofJson_serialize (fun _ => Or.inr ⟨_, rfl⟩) p.statement
  rw [serialize, deserialize, List.foldlM_cons, PolicyFields.visitMember_version rfl hversion]
  change (List.foldlM PolicyFields.visitMember _ _ >>= fun f => f.finish) = _
  rw [List.foldlM_cons, PolicyFields.visitMember_id rfl hid]
  change (List.foldlM PolicyFields.visitMember _ _ >>= fun f => f.finish) = _
  rw [List.foldlM_cons, PolicyFields.visitMember_statement rfl hstatement]
  rfl

end ReadBack

section ReadAgain

/-- What is read of a text is not a single `*`. -/
theorem WildcardOneOrMore.normal_of_deserialize {j : Json} {x : WildcardOneOrMore Bytes}
    (h : WildcardOneOrMore.deserialize string j = .ok x) : x.normal = x := by
  cases j with
  | string s =>
    rw [deserialize] at h
    split_ifs at h with hs
    · cases h
      rfl
    · cases h
      exact if_neg hs
  | array items =>
    obtain ⟨ts, -, rfl⟩ := map_eq_ok.mp h
    rfl
  | null | bool | number | object => cases h

/-- A flattened rule is one of its two variants, of a value that was read. -/
theorem Pair.of_read {α ρ : Type} {p : Pair α ρ} {members : List (Bytes × Json)} {rule : ρ}
    (h : p.read members = .ok rule) :
    ∃ j a, p.value j = .ok a ∧ (rule = p.ofPositive a ∨ rule = p.ofNegative a) := by
  rw [Pair.read] at h
  split at h
  · cases h
  · next m _ =>
    rw [Pair.visitEnum] at h
    split_ifs at h
    · obtain ⟨a, ha, rfl⟩ := map_eq_ok.mp h
      exact ⟨m.2, a, ha, Or.inl rfl⟩
    · obtain ⟨a, ha, rfl⟩ := map_eq_ok.mp h
      exact ⟨m.2, a, ha, Or.inr rfl⟩

theorem ActionRule.normal_of_read {members : List (Bytes × Json)} {rule : ActionRule}
    (h : actionPair.read members = .ok rule) : rule.normal = rule := by
  obtain ⟨j, a, ha, rfl | rfl⟩ := Pair.of_read h
  · exact congrArg ActionRule.action (WildcardOneOrMore.normal_of_deserialize ha)
  · exact congrArg ActionRule.notAction (WildcardOneOrMore.normal_of_deserialize ha)

theorem ResourceRule.normal_of_read {members : List (Bytes × Json)} {rule : ResourceRule}
    (h : resourcePair.read members = .ok rule) : rule.normal = rule := by
  obtain ⟨j, r, hr, rfl | rfl⟩ := Pair.of_read h
  · exact congrArg ResourceRule.resource (WildcardOneOrMore.normal_of_deserialize hr)
  · exact congrArg ResourceRule.notResource (WildcardOneOrMore.normal_of_deserialize hr)

theorem Statement.normal_of_ofJson {j : Json} {st : Statement} (h : Statement.ofJson j = .ok st) :
    st.normal = st := by
  cases j with
  | object members =>
    obtain ⟨-, -, -, -, haction, hresource⟩ := (deserialize_eq_ok members st).mp h
    rw [normal, ActionRule.normal_of_read haction, ResourceRule.normal_of_read hresource]
  | null | bool | number | string | array => cases h

theorem map_normal_of_mapM {items : List Json} {ts : List Statement} (h : items.mapM Statement.ofJson = .ok ts) :
    ts.map Statement.normal = ts := by
  induction items generalizing ts with
  | nil =>
    cases h
    rfl
  | cons j items ih =>
    rw [List.mapM_cons] at h
    obtain ⟨t, ht, h⟩ := bind_eq_ok.mp h
    obtain ⟨ts', hts, h⟩ := bind_eq_ok.mp h
    cases h
    rw [List.map_cons, Statement.normal_of_ofJson ht, ih hts]

theorem OneOrMore.map_of_deserialize {j : Json} {x : OneOrMore Statement}
    (h : OneOrMore.deserialize Statement.ofJson j = .ok x) : x.map Statement.normal = x := by
  cases j with
  | string s =>
    obtain ⟨t, ht, rfl⟩ := map_eq_ok.mp h
    exact congrArg OneOrMore.one (Statement.normal_of_ofJson ht)
  | object members =>
    obtain ⟨t, ht, rfl⟩ := map_eq_ok.mp h
    exact congrArg OneOrMore.one (Statement.normal_of_ofJson ht)
  | array items =>
    obtain ⟨ts, hts, rfl⟩ := map_eq_ok.mp h
    exact congrArg OneOrMore.more (map_normal_of_mapM hts)
  | null | bool | number => cases h

/-- The statements that are held were read. -/
def PolicyFields.IsNormal (f : PolicyFields) : Prop := ∀ x ∈ f.statement, x.map Statement.normal = x

theorem PolicyFields.isNormal_visitMember {f f' : PolicyFields} {m : Bytes × Json} (hf : f.IsNormal)
    (h : f.visitMember m = .ok f') : f'.IsNormal := by
  rw [visitMember] at h
  split_ifs at h
  · obtain ⟨_, -, h⟩ := bind_eq_ok.mp h
    cases h
    exact hf
  · obtain ⟨_, -, h⟩ := bind_eq_ok.mp h
    cases h
    exact hf
  · obtain ⟨slot, hslot, h⟩ := bind_eq_ok.mp h
    cases h
    rw [Fields.fill] at hslot
    split_ifs at hslot
    obtain ⟨x, hx, rfl⟩ := map_eq_ok.mp hslot
    intro y hy
    cases hy
    exact OneOrMore.map_of_deserialize hx
  · cases h
    exact hf

theorem PolicyFields.isNormal_visitMembers {members : List (Bytes × Json)} {f f' : PolicyFields} (hf : f.IsNormal)
    (h : members.foldlM visitMember f = .ok f') : f'.IsNormal := by
  induction members generalizing f with
  | nil =>
    cases h
    exact hf
  | cons m members ih =>
    rw [List.foldlM_cons] at h
    obtain ⟨g, hg, h⟩ := bind_eq_ok.mp h
    exact ih (isNormal_visitMember hf hg) h

/-- Nothing that is read has a single `*`. -/
theorem Policy.normal_of_deserialize {j : Json} {p : Policy} (h : Policy.deserialize j = .ok p) : p.normal = p := by
  have hstatement : p.statement.map Statement.normal = p.statement := by
    cases j with
    | object members =>
      obtain ⟨f, hf, h⟩ := bind_eq_ok.mp h
      have hnormal := PolicyFields.isNormal_visitMembers (fun x hx => by cases hx) hf
      obtain ⟨x, hx, h⟩ := bind_eq_ok.mp h
      cases h
      refine hnormal x ?_
      cases hs : f.statement with
      | none =>
        rw [hs] at hx
        cases hx
      | some y =>
        rw [hs] at hx
        cases hx
        rfl
    | array items =>
      obtain ⟨first, -, h⟩ := bind_eq_ok.mp h
      obtain ⟨version, -, h⟩ := bind_eq_ok.mp h
      obtain ⟨second, -, h⟩ := bind_eq_ok.mp h
      obtain ⟨id, -, h⟩ := bind_eq_ok.mp h
      obtain ⟨third, -, h⟩ := bind_eq_ok.mp h
      obtain ⟨statement, hstatement, h⟩ := bind_eq_ok.mp h
      split_ifs at h
      cases h
      exact OneOrMore.map_of_deserialize hstatement
    | null | bool | number | string => cases h
  rw [normal, hstatement]

/-- A policy is read from what is written of it, with every single action or resource `*` as the wildcard; one that
was read from a document is read again as it is. -/
theorem policy_round_trip (p : Policy) :
    Policy.deserialize p.serialize = .ok p.normal ∧
      ∀ j, Policy.deserialize j = .ok p → Policy.deserialize p.serialize = .ok p := by
  refine ⟨p.deserialize_serialize, fun j h => ?_⟩
  rw [p.deserialize_serialize, Policy.normal_of_deserialize h]

/-- A document as an array, with a statement that names its only action in an array. -/
def sampleDocument : Json :=
  .array [.null, .string (ascii "1"), .object [(ascii "Effect", .string (ascii "Deny")),
    (ascii "NotPrincipal", .string (ascii "*")), (ascii "Action", .array [.string (ascii "*")]),
    (ascii "Resource", .string (ascii "*"))]]

def samplePolicy : Policy where
  version := none
  id := some (ascii "1")
  statement := .one
    { sid := none
      principal := some (.notPrincipal .wildcard)
      effect := .deny
      action := .action (.more [ascii "*"])
      resource := .resource .wildcard
      condition := none }

theorem policy_round_trip_sample :
    Policy.deserialize sampleDocument = .ok samplePolicy ∧
      Policy.deserialize samplePolicy.serialize = .ok samplePolicy :=
  have hread : Policy.deserialize sampleDocument = .ok samplePolicy := by rfl
  ⟨hread, (policy_round_trip samplePolicy).2 sampleDocument hread⟩

end ReadAgain

end S3s.Policy
