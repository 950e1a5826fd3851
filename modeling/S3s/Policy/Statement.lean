import S3s.Library.Json

/-! # Statements of a policy

A statement is a JSON object. `Sid`, `Effect` and `Condition` are fields of their own; the
principal, the action and the resource are flattened enums, each of which takes a member of
the same object under one of two names.
-/
namespace S3s.Policy

/-- Why a value is not taken. -/
inductive Error where
  | duplicateField (name : Bytes)
  | missingField (name : Bytes)
  | unknownVariant (name : Bytes)
  | noVariant (enum : Bytes)
  | expected (what : Bytes)
deriving DecidableEq

/-- `IndexMap`: the entries in the order of their first insertion. -/
structure IndexMap (α : Type) where
  entries : List (Bytes × α)
  nodup : (entries.map Prod.fst).Nodup
deriving DecidableEq

namespace IndexMap

variable {α : Type}

def empty : IndexMap α := ⟨[], List.nodup_nil⟩

/-- The entries with the value of the key replaced, or with a new entry behind them. -/
def put (key : Bytes) (value : α) : List (Bytes × α) → List (Bytes × α)
  | [] => [(key, value)]
  | e :: es => if e.1 = key then (key, value) :: es else e :: put key value es

theorem put_keys (key : Bytes) (value : α) (es : List (Bytes × α)) :
    (put key value es).map Prod.fst =
      if key ∈ es.map Prod.fst then es.map Prod.fst else es.map Prod.fst ++ [key] := by
  induction es with
  | nil => simp [put]
  | cons e es ih =>
    by_cases he : e.1 = key
    · simp [put, he]
    · have hkey : key ≠ e.1 := fun h => he h.symm
      simp only [put, if_neg he, List.map_cons, ih, List.mem_cons, hkey, false_or]
      split <;> simp

/-- `IndexMap::insert` -/
def insert (map : IndexMap α) (key : Bytes) (value : α) : IndexMap α where
  entries := put key value map.entries
  nodup := by
    rw [put_keys]
    split
    · exact map.nodup
    · next h => exact map.nodup.append (List.nodup_singleton _) (by simpa using h)

/-- `IndexMap::deserialize`, of the members of an object. -/
def ofMembers (value : Json → Except Error α) (members : List (Bytes × Json)) :
    Except Error (IndexMap α) :=
  members.foldlM (fun map m => do .ok (map.insert m.1 (← value m.2))) empty

/-- `IndexMap::deserialize` -/
def deserialize (value : Json → Except Error α) : Json → Except Error (IndexMap α)
  | .object members => ofMembers value members
  | _ => .error (.expected (ascii "a map"))

end IndexMap

/-- `String::deserialize` -/
def string : Json → Except Error Bytes
  | .string s => .ok s
  | _ => .error (.expected (ascii "a string"))

/-- `Option::deserialize` -/
def optional {α : Type} (value : Json → Except Error α) : Json → Except Error (Option α)
  | .null => .ok none
  | v => some <$> value v

inductive OneOrMore (α : Type) where
  | one (t : α)
  | more (ts : List α)
deriving DecidableEq

/-- `OneOrMore::deserialize` -/
def OneOrMore.deserialize {α : Type} (value : Json → Except Error α) :
    Json → Except Error (OneOrMore α)
  | .string s => .one <$> value (.string s)
  | .object members => .one <$> value (.object members)
  | .array items => .more <$> items.mapM value
  | _ => .error (.expected (ascii "a single value or an array of values"))

inductive WildcardOneOrMore (α : Type) where
  | wildcard
  | one (t : α)
  | more (ts : List α)
deriving DecidableEq

/-- `WildcardOneOrMore::deserialize` -/
def WildcardOneOrMore.deserialize {α : Type} (value : Json → Except Error α) :
    Json → Except Error (WildcardOneOrMore α)
  | .string s => if s = ascii "*" then .ok .wildcard else .one <$> value (.string s)
  | .array items => .more <$> items.mapM value
  | _ => .error (.expected (ascii "a wildcard, a single value, or an array of values"))

inductive Principal where
  | wildcard
  | map (map : IndexMap (OneOrMore Bytes))
deriving DecidableEq

/-- `Principal::deserialize` -/
def Principal.deserialize : Json → Except Error Principal
  | .string s =>
    if s = ascii "*" then .ok .wildcard else .error (.expected (ascii "a wildcard or a map"))
  | .object members => .map <$> IndexMap.ofMembers (OneOrMore.deserialize string) members
  | _ => .error (.expected (ascii "a wildcard or a map"))

inductive Effect where
  | allow
  | deny
deriving DecidableEq

/-- The variant of an `Effect` of a name. -/
def Effect.ofVariant (name : Bytes) : Except Error Effect :=
  if name = ascii "Allow" then .ok .allow
  else if name = ascii "Deny" then .ok .deny
  else .error (.unknownVariant name)

/-- `Effect::deserialize`: the name of the variant, or an object of it and nothing. -/
def Effect.deserialize : Json → Except Error Effect
  | .string s => Effect.ofVariant s
  | .object [(name, .null)] => Effect.ofVariant name
  | _ => .error (.expected (ascii "enum Effect"))

inductive PrincipalRule where
  | principal (p : Principal)
  | notPrincipal (p : Principal)
deriving DecidableEq

inductive ActionRule where
  | action (a : WildcardOneOrMore Bytes)
  | notAction (a : WildcardOneOrMore Bytes)
deriving DecidableEq

inductive ResourceRule where
  | resource (r : WildcardOneOrMore Bytes)
  | notResource (r : WildcardOneOrMore Bytes)
deriving DecidableEq

abbrev ConditionKeyValues := IndexMap (OneOrMore Bytes)

abbrev ConditionRule := IndexMap ConditionKeyValues

/-- `ConditionRule::deserialize` -/
def ConditionRule.deserialize : Json → Except Error ConditionRule :=
  IndexMap.deserialize (IndexMap.deserialize (OneOrMore.deserialize string))

/-- `Statement` -/
structure Statement where
  sid : Option Bytes
  principal : Option PrincipalRule
  effect : Effect
  action : ActionRule
  resource : ResourceRule
  condition : Option ConditionRule
deriving DecidableEq

/-- An enum of two variants, one the negation of the other, as `Deserialize` derives it. -/
structure Pair (α ρ : Type) where
  enum : Bytes
  positive : Bytes
  negative : Bytes
  value : Json → Except Error α
  ofPositive : α → ρ
  ofNegative : α → ρ
  names_ne : positive ≠ negative
  ofPositive_inj : Function.Injective ofPositive
  ofNegative_inj : Function.Injective ofNegative
  variants_ne : ∀ x y, ofPositive x ≠ ofNegative y

namespace Pair

variable {α ρ : Type}

/-- Whether a member is under one of the two names. -/
def named (p : Pair α ρ) (m : Bytes × Json) : Bool := m.1 == p.positive || m.1 == p.negative

/-- `visit_enum` -/
def visitEnum (p : Pair α ρ) (m : Bytes × Json) : Except Error ρ :=
  if m.1 = p.positive then p.ofPositive <$> p.value m.2
  else if m.1 = p.negative then p.ofNegative <$> p.value m.2
  else .error (.unknownVariant m.1)

/-- `FlatMapDeserializer::deserialize_enum`: the first collected member of one of the names is
taken out and read. -/
def deserializeEnum (p : Pair α ρ) (collect : List (Bytes × Json)) :
    Except Error ρ × List (Bytes × Json) :=
  match collect.find? p.named with
  | none => (.error (.noVariant p.enum), collect)
  | some m => (p.visitEnum m, collect.eraseP p.named)

end Pair

/-- `PrincipalRule` -/
def principalPair : Pair Principal PrincipalRule where
  enum := ascii "PrincipalRule"
  positive := ascii "Principal"
  negative := ascii "NotPrincipal"
  value := Principal.deserialize
  ofPositive := .principal
  ofNegative := .notPrincipal
  names_ne := by decide
  ofPositive_inj _ _ h := by injection h
  ofNegative_inj _ _ h := by injection h
  variants_ne _ _ h := by injection h

/-- `ActionRule` -/
def actionPair : Pair (WildcardOneOrMore Bytes) ActionRule where
  enum := ascii "ActionRule"
  positive := ascii "Action"
  negative := ascii "NotAction"
  value := WildcardOneOrMore.deserialize string
  ofPositive := .action
  ofNegative := .notAction
  names_ne := by decide
  ofPositive_inj _ _ h := by injection h
  ofNegative_inj _ _ h := by injection h
  variants_ne _ _ h := by injection h

/-- `ResourceRule` -/
def resourcePair : Pair (WildcardOneOrMore Bytes) ResourceRule where
  enum := ascii "ResourceRule"
  positive := ascii "Resource"
  negative := ascii "NotResource"
  value := WildcardOneOrMore.deserialize string
  ofPositive := .resource
  ofNegative := .notResource
  names_ne := by decide
  ofPositive_inj _ _ h := by injection h
  ofNegative_inj _ _ h := by injection h
  variants_ne _ _ h := by injection h

/-- What `visit_map` of a statement holds while it goes over the members. -/
structure Fields where
  sid : Option (Option Bytes)
  effect : Option Effect
  condition : Option (Option ConditionRule)
  collect : List (Bytes × Json)

namespace Fields

def start : Fields := ⟨none, none, none, []⟩

/-- A field is read once. -/
def fill {α : Type} (name : Bytes) (value : Json → Except Error α) (slot : Option α) (v : Json) :
    Except Error (Option α) :=
  if slot.isSome then .error (.duplicateField name) else some <$> value v

/-- One turn of `visit_map`. -/
def visitMember (f : Fields) (m : Bytes × Json) : Except Error Fields :=
  if m.1 = ascii "Sid" then do
    .ok { f with sid := ← fill m.1 (optional string) f.sid m.2 }
  else if m.1 = ascii "Effect" then do
    .ok { f with effect := ← fill m.1 Effect.deserialize f.effect m.2 }
  else if m.1 = ascii "Condition" then do
    .ok { f with condition := ← fill m.1 (optional ConditionRule.deserialize) f.condition m.2 }
  else .ok { f with collect := f.collect ++ [m] }

/-- What `visit_map` makes of the fields behind its loop. -/
def finish (f : Fields) : Except Error Statement := do
  let effect ← f.effect.elim (.error (.missingField (ascii "Effect"))) .ok
  let (principal, collect) := principalPair.deserializeEnum f.collect
  let (action, collect) := actionPair.deserializeEnum collect
  let action ← action
  let (resource, _) := resourcePair.deserializeEnum collect
  let resource ← resource
  .ok { sid := f.sid.getD none, principal := principal.toOption, effect, action, resource,
        condition := f.condition.getD none }

end Fields

/-- `Statement::deserialize`, of the members of an object. -/
def Statement.deserialize (members : List (Bytes × Json)) : Except Error Statement := do
  (← members.foldlM Fields.visitMember Fields.start).finish

/-- The values of the members of a name. -/
def valuesOf (name : Bytes) (members : List (Bytes × Json)) : List Json :=
  (members.filter fun m => m.1 == name).map Prod.snd

/-- Whether a member is none of the three fields. -/
def collected (m : Bytes × Json) : Bool :=
  m.1 != ascii "Sid" && m.1 != ascii "Effect" && m.1 != ascii "Condition"

/-- A rule stands for every member of the two names. -/
def Pair.Represents {α ρ : Type} (p : Pair α ρ) (members : List (Bytes × Json))
    (rule : Option ρ) : Prop :=
  (∀ v, (p.positive, v) ∈ members → ∃ x, p.value v = .ok x ∧ rule = some (p.ofPositive x)) ∧
  ∀ v, (p.negative, v) ∈ members → ∃ x, p.value v = .ok x ∧ rule = some (p.ofNegative x)

/-- A statement stands for every member of an object that says whom, what and when it is about. -/
structure Represents (st : Statement) (members : List (Bytes × Json)) : Prop where
  principal : principalPair.Represents members st.principal
  action : actionPair.Represents members (some st.action)
  resource : resourcePair.Represents members (some st.resource)
  condition : ∀ v ∈ valuesOf (ascii "Condition") members,
    optional ConditionRule.deserialize v = .ok st.condition

/-- The members of the two names are well formed, of one name and of one value. -/
def Pair.Agrees {α ρ : Type} (p : Pair α ρ) (members : List (Bytes × Json)) : Prop :=
  ∀ m ∈ members, p.named m = true → (p.value m.2).isOk = true ∧
    ∀ m' ∈ members, p.named m' = true → m'.1 = m.1 ∧ p.value m'.2 = p.value m.2

/-- A field is there at most once, with a value of its type. -/
def AtMostOnce {α : Type} (value : Json → Except Error α) (vs : List Json) : Prop :=
  vs.length ≤ 1 ∧ ∀ v ∈ vs, (value v).isOk = true

/-- The first member of the two names is there and well formed. -/
def Pair.Leads {α ρ : Type} (p : Pair α ρ) (members : List (Bytes × Json)) : Prop :=
  ∃ m, members.find? p.named = some m ∧ (p.value m.2).isOk = true

/-- The objects that are taken. -/
structure Acceptable (members : List (Bytes × Json)) : Prop where
  sid : AtMostOnce (optional string) (valuesOf (ascii "Sid") members)
  effect : AtMostOnce Effect.deserialize (valuesOf (ascii "Effect") members)
  effect_present : valuesOf (ascii "Effect") members ≠ []
  condition : AtMostOnce (optional ConditionRule.deserialize) (valuesOf (ascii "Condition") members)
  action : actionPair.Leads members
  resource : resourcePair.Leads members

/-- The members of each of the three pairs agree. -/
structure Agreement (members : List (Bytes × Json)) : Prop where
  principal : principalPair.Agrees members
  action : actionPair.Agrees members
  resource : resourcePair.Agrees members

section Reading

theorem map_eq_ok {α β : Type} {f : α → β} {x : Except Error α} {b : β} :
    f <$> x = .ok b ↔ ∃ a, x = .ok a ∧ f a = b := by
  cases x with
  | error e => simp [Functor.map, Except.map]
  | ok a => simp [Functor.map, Except.map]

theorem bind_eq_ok {α β : Type} {f : α → Except Error β} {x : Except Error α} {b : β} :
    (x >>= f) = .ok b ↔ ∃ a, x = .ok a ∧ f a = .ok b := by
  cases x with
  | error e => simp [bind, Except.bind]
  | ok a => simp [bind, Except.bind]

/-- What the loop leaves in a field, of the values of its members. -/
def slotOf {α : Type} (value : Json → Except Error α) (slot : Option α) (vs : List Json)
    (result : Option α) : Prop :=
  match vs with
  | [] => result = slot
  | [v] => slot = none ∧ ∃ x, value v = .ok x ∧ result = some x
  | _ => False

theorem slotOf_cons {α : Type} (name : Bytes) (value : Json → Except Error α) (slot result : Option α)
    (v : Json) (vs : List Json) :
    slotOf value slot (v :: vs) result ↔
      ∃ next, Fields.fill name value slot v = .ok next ∧ slotOf value next vs result := by
  cases slot with
  | some x =>
    cases vs <;> simp [slotOf, Fields.fill]
  | none =>
    simp only [Fields.fill, Option.isSome_none, Bool.false_eq_true, if_false, map_eq_ok]
    cases vs with
    | nil => simp [slotOf]
    | cons w vs => cases vs <;> simp [slotOf]

/-- A run of the loop of `visit_map`, by the members of each kind. -/
theorem visitMembers_eq_ok (members : List (Bytes × Json)) (f f' : Fields) :
    members.foldlM Fields.visitMember f = .ok f' ↔
      slotOf (optional string) f.sid (valuesOf (ascii "Sid") members) f'.sid ∧
      slotOf Effect.deserialize f.effect (valuesOf (ascii "Effect") members) f'.effect ∧
      slotOf (optional ConditionRule.deserialize) f.condition
        (valuesOf (ascii "Condition") members) f'.condition ∧
      f'.collect = f.collect ++ members.filter collected := by
  induction members generalizing f with
  | nil =>
    cases f
    cases f'
    simp [slotOf, valuesOf, pure, Except.pure, eq_comm]
  | cons m members ih =>
    rw [List.foldlM_cons, bind_eq_ok]
    have hse : ascii "Sid" ≠ ascii "Effect" := by decide
    have hsc : ascii "Sid" ≠ ascii "Condition" := by decide
    have hec : ascii "Effect" ≠ ascii "Condition" := by decide
    by_cases hs : m.1 = ascii "Sid"
    · simp [Fields.visitMember, hs, bind_eq_ok, ih, valuesOf, collected, hse, hsc,
        slotOf_cons (ascii "Sid")]
      constructor
      · rintro ⟨a, ha, h, hrest⟩
        exact ⟨⟨a, ha, h⟩, hrest⟩
      · rintro ⟨⟨a, ha, h⟩, hrest⟩
        exact ⟨a, ha, h, hrest⟩
    · by_cases he : m.1 = ascii "Effect"
      · simp [Fields.visitMember, hse.symm, he, bind_eq_ok, ih, valuesOf, collected, hec,
          slotOf_cons (ascii "Effect")]
        constructor
        · rintro ⟨a, ha, h, hslot, hrest⟩
          exact ⟨h, ⟨a, ha, hslot⟩, hrest⟩
        · rintro ⟨h, ⟨a, ha, hslot⟩, hrest⟩
          exact ⟨a, ha, h, hslot, hrest⟩
      · by_cases hc : m.1 = ascii "Condition"
        · simp [Fields.visitMember, hsc.symm, hec.symm, hc, bind_eq_ok, ih, valuesOf, collected,
            slotOf_cons (ascii "Condition")]
          constructor
          · rintro ⟨a, ha, h, h', hslot, hrest⟩
            exact ⟨h, h', ⟨a, ha, hslot⟩, hrest⟩
          · rintro ⟨h, h', ⟨a, ha, hslot⟩, hrest⟩
            exact ⟨a, ha, h, h', hslot, hrest⟩
        · have hm : collected m = true := by simp [collected, hs, he, hc]
          simp [Fields.visitMember, hs, he, hc, ih, valuesOf, List.filter_cons_of_pos hm]

theorem atMostOnce_iff {α : Type} (value : Json → Except Error α) (vs : List Json) :
    AtMostOnce value vs ↔ ∃ result, slotOf value none vs result := by
  match vs with
  | [] => simp [AtMostOnce, slotOf]
  | [v] => cases hv : value v <;> simp [AtMostOnce, slotOf, hv, Except.isOk, Except.toBool]
  | v :: w :: vs => simp [AtMostOnce, slotOf]

theorem slotOf_isSome {α : Type} {value : Json → Except Error α} {vs : List Json}
    {result : Option α} (h : slotOf value none vs result) : result.isSome = true ↔ vs ≠ [] := by
  match vs, h with
  | [], h =>
    have hnone : result = none := h
    simp [hnone]
  | [v], h =>
    obtain ⟨-, x, -, hx⟩ := h
    simp [hx]

theorem slotOf_value {α : Type} {value : Json → Except Error α} {vs : List Json}
    {result : Option α} (h : slotOf value none vs result) (v : Json) (hv : v ∈ vs) :
    ∃ x, value v = .ok x ∧ result = some x := by
  match vs, h with
  | [], h => exact absurd hv List.not_mem_nil
  | [w], h =>
    rw [List.mem_singleton.mp hv]
    exact h.2

end Reading

section Pairs

variable {α ρ : Type} (p : Pair α ρ)

/-- What the enum reads from an object. -/
def Pair.read (members : List (Bytes × Json)) : Except Error ρ :=
  match members.find? p.named with
  | none => .error (.noVariant p.enum)
  | some m => p.visitEnum m

theorem Pair.deserializeEnum_eq (collect : List (Bytes × Json)) :
    p.deserializeEnum collect = (p.read collect, collect.eraseP p.named) := by
  unfold deserializeEnum read
  cases h : collect.find? p.named with
  | none =>
    have hnone : ∀ m ∈ collect, ¬p.named m = true := by simpa using h
    simp [List.eraseP_of_forall_not hnone]
  | some m => rfl

theorem Pair.read_eraseP (q : Bytes × Json → Bool) (collect : List (Bytes × Json))
    (hq : ∀ m, p.named m = true → q m = false) : p.read (collect.eraseP q) = p.read collect := by
  have hfind : (collect.eraseP q).find? p.named = collect.find? p.named := by
    induction collect with
    | nil => rfl
    | cons m collect ih =>
      by_cases hm : q m = true
      · have hnot : p.named m = false := by
          by_contra hnamed
          simp [hq m (by simpa using hnamed)] at hm
        simp [List.eraseP_cons_of_pos hm, hnot]
      · simp [List.eraseP_cons_of_neg hm, List.find?_cons, ih]
  rw [read, read, hfind]

theorem Pair.read_filter (q : Bytes × Json → Bool) (members : List (Bytes × Json))
    (hq : ∀ m, p.named m = true → q m = true) : p.read (members.filter q) = p.read members := by
  have hfind : (members.filter q).find? p.named = members.find? p.named := by
    rw [List.find?_filter]
    congr 1
    funext m
    cases hm : p.named m with
    | false => simp
    | true => simp [hq m hm]
  rw [read, read, hfind]

theorem Pair.named_iff (m : Bytes × Json) :
    p.named m = true ↔ m.1 = p.positive ∨ m.1 = p.negative := by
  simp [named]

theorem Pair.of_named {q : Bytes → Prop} (hpos : q p.positive) (hneg : q p.negative)
    {m : Bytes × Json} (hm : p.named m = true) : q m.1 := by
  rcases (p.named_iff m).mp hm with h | h
  · rwa [h]
  · rwa [h]

theorem Pair.visitEnum_isOk (m : Bytes × Json) (hm : p.named m = true) :
    (∃ r, p.visitEnum m = .ok r) ↔ (p.value m.2).isOk = true := by
  rcases (p.named_iff m).mp hm with h | h
  · cases hv : p.value m.2 <;> simp [visitEnum, h, hv, Functor.map, Except.map, Except.isOk, Except.toBool]
  · cases hv : p.value m.2 <;>
      simp [visitEnum, h, p.names_ne.symm, hv, Functor.map, Except.map, Except.isOk, Except.toBool]

/-- What is read of a member tells its name and its value. -/
theorem Pair.visitEnum_inj (m m' : Bytes × Json) (hm : p.named m = true) (hm' : p.named m' = true)
    (r : ρ) (h : p.visitEnum m = .ok r) (h' : p.visitEnum m' = .ok r) :
    m'.1 = m.1 ∧ p.value m'.2 = p.value m.2 := by
  rcases (p.named_iff m).mp hm with hn | hn <;> rcases (p.named_iff m').mp hm' with hn' | hn'
  all_goals
    simp only [visitEnum, hn, hn', p.names_ne.symm, if_true, if_false, map_eq_ok] at h h'
    obtain ⟨x, hx, hxr⟩ := h
    obtain ⟨y, hy, hyr⟩ := h'
  · have hxy : y = x := p.ofPositive_inj (hyr.trans hxr.symm)
    exact ⟨hn'.trans hn.symm, by rw [hx, hy, hxy]⟩
  · exact absurd (hxr.trans hyr.symm) (p.variants_ne x y)
  · exact absurd (hyr.trans hxr.symm) (p.variants_ne y x)
  · have hxy : y = x := p.ofNegative_inj (hyr.trans hxr.symm)
    exact ⟨hn'.trans hn.symm, by rw [hx, hy, hxy]⟩

theorem Pair.represents_iff (members : List (Bytes × Json)) (rule : Option ρ) :
    p.Represents members rule ↔
      ∀ m ∈ members, p.named m = true → ∃ r, p.visitEnum m = .ok r ∧ rule = some r := by
  constructor
  · rintro ⟨hpos, hneg⟩ ⟨name, v⟩ hmem hm
    rcases (p.named_iff _).mp hm with hn | hn
    · obtain rfl : name = p.positive := hn
      obtain ⟨x, hx, hr⟩ := hpos v hmem
      exact ⟨_, by simp [visitEnum, hx, Functor.map, Except.map], hr⟩
    · obtain rfl : name = p.negative := hn
      obtain ⟨x, hx, hr⟩ := hneg v hmem
      exact ⟨_, by simp [visitEnum, p.names_ne.symm, hx, Functor.map, Except.map], hr⟩
  · intro h
    constructor
    · intro v hmem
      obtain ⟨r, hr, hrule⟩ := h _ hmem (by simp [named])
      simp only [visitEnum, if_true, map_eq_ok] at hr
      obtain ⟨x, hx, rfl⟩ := hr
      exact ⟨x, hx, hrule⟩
    · intro v hmem
      obtain ⟨r, hr, hrule⟩ := h _ hmem (by simp [named])
      simp only [visitEnum, p.names_ne.symm, if_true, if_false, map_eq_ok] at hr
      obtain ⟨x, hx, rfl⟩ := hr
      exact ⟨x, hx, hrule⟩

/-- The rule that is read stands for all members of the two names just when they agree. -/
theorem Pair.represents_read_iff (members : List (Bytes × Json)) :
    p.Represents members (p.read members).toOption ↔ p.Agrees members := by
  rw [represents_iff]
  constructor
  · intro h m hmem hm
    obtain ⟨r, hr, hrule⟩ := h m hmem hm
    refine ⟨(p.visitEnum_isOk m hm).mp ⟨r, hr⟩, fun m' hmem' hm' => ?_⟩
    obtain ⟨r', hr', hrule'⟩ := h m' hmem' hm'
    obtain rfl : r' = r := by simpa [hrule] using hrule'.symm
    exact p.visitEnum_inj m m' hm hm' r' hr hr'
  · intro h m hmem hm
    obtain ⟨r, hr⟩ := (p.visitEnum_isOk m hm).mpr (h m hmem hm).1
    refine ⟨r, hr, ?_⟩
    cases hfind : members.find? p.named with
    | none => exact absurd hm (by simpa using List.find?_eq_none.mp hfind m hmem)
    | some first =>
      obtain ⟨hname, hvalue⟩ := (h m hmem hm).2 first (List.mem_of_find?_eq_some hfind)
        (List.find?_some hfind)
      have hfirst : p.visitEnum first = .ok r := by
        rw [← hr, visitEnum, visitEnum, hname, hvalue]
      simp [read, hfind, hfirst, Except.toOption]

theorem Pair.leads_iff (members : List (Bytes × Json)) :
    p.Leads members ↔ ∃ r, p.read members = .ok r := by
  unfold Leads read
  cases hfind : members.find? p.named with
  | none => simp
  | some m => simp [← p.visitEnum_isOk m (List.find?_some hfind)]

end Pairs

section Weakening

theorem principal_collected (m : Bytes × Json) (hm : principalPair.named m = true) :
    collected m = true :=
  principalPair.of_named (q := fun name => collected (name, m.2) = true) rfl rfl hm

theorem action_collected (m : Bytes × Json) (hm : actionPair.named m = true) :
    collected m = true ∧ principalPair.named m = false :=
  actionPair.of_named (q := fun name => collected (name, m.2) = true ∧
    principalPair.named (name, m.2) = false) ⟨rfl, rfl⟩ ⟨rfl, rfl⟩ hm

theorem resource_collected (m : Bytes × Json) (hm : resourcePair.named m = true) :
    collected m = true ∧ principalPair.named m = false ∧ actionPair.named m = false :=
  resourcePair.of_named (q := fun name => collected (name, m.2) = true ∧
    principalPair.named (name, m.2) = false ∧ actionPair.named (name, m.2) = false)
    ⟨rfl, rfl, rfl⟩ ⟨rfl, rfl, rfl⟩ hm

theorem finish_eq_ok (f : Fields) (st : Statement) :
    f.finish = .ok st ↔ f.effect = some st.effect ∧ st.sid = f.sid.getD none ∧
      st.condition = f.condition.getD none ∧
      st.principal = (principalPair.read f.collect).toOption ∧
      actionPair.read f.collect = .ok st.action ∧ resourcePair.read f.collect = .ok st.resource := by
  have haction : actionPair.read (f.collect.eraseP principalPair.named) = actionPair.read f.collect :=
    actionPair.read_eraseP _ _ fun m hm => (action_collected m hm).2
  have hresource : resourcePair.read ((f.collect.eraseP principalPair.named).eraseP actionPair.named) =
      resourcePair.read f.collect := by
    rw [resourcePair.read_eraseP _ _ fun m hm => (resource_collected m hm).2.2,
      resourcePair.read_eraseP _ _ fun m hm => (resource_collected m hm).2.1]
  obtain ⟨sid, principal, effect, action, resource, condition⟩ := st
  cases he : f.effect with
  | none => simp [Fields.finish, he, bind, Except.bind]
  | some e =>
    cases ha : actionPair.read f.collect with
    | error err =>
      simp [Fields.finish, he, bind, Except.bind, Pair.deserializeEnum_eq, haction, ha]
    | ok a =>
      cases hr : resourcePair.read f.collect with
      | error err =>
        simp [Fields.finish, he, bind, Except.bind, Pair.deserializeEnum_eq, haction, ha, hresource, hr]
      | ok r =>
        simp [Fields.finish, he, bind, Except.bind, Pair.deserializeEnum_eq, haction, ha, hresource, hr]
        constructor
        · rintro ⟨hs, hp, he, ha, hr, hc⟩
          exact ⟨he, hs.symm, hc.symm, hp.symm, ha, hr⟩
        · rintro ⟨he, hs, hc, hp, ha, hr⟩
          exact ⟨hs.symm, hp.symm, he, ha, hr, hc.symm⟩

/-- The statement that is read from the members of an object. -/
theorem deserialize_eq_ok (members : List (Bytes × Json)) (st : Statement) :
    Statement.deserialize members = .ok st ↔
      (∃ sid, slotOf (optional string) none (valuesOf (ascii "Sid") members) sid ∧
        st.sid = sid.getD none) ∧
      slotOf Effect.deserialize none (valuesOf (ascii "Effect") members) (some st.effect) ∧
      (∃ condition, slotOf (optional ConditionRule.deserialize) none
        (valuesOf (ascii "Condition") members) condition ∧ st.condition = condition.getD none) ∧
      st.principal = (principalPair.read members).toOption ∧
      actionPair.read members = .ok st.action ∧ resourcePair.read members = .ok st.resource := by
  have hprincipal := principalPair.read_filter _ members principal_collected
  have haction := actionPair.read_filter _ members fun m hm => (action_collected m hm).1
  have hresource := resourcePair.read_filter _ members fun m hm => (resource_collected m hm).1
  rw [Statement.deserialize, bind_eq_ok]
  simp only [visitMembers_eq_ok, finish_eq_ok, Fields.start, List.nil_append]
  constructor
  · rintro ⟨f, ⟨hsid, heffect, hcondition, hcollect⟩, he, hs, hc, hp, ha, hr⟩
    rw [hcollect] at hp ha hr
    rw [he] at heffect
    exact ⟨⟨f.sid, hsid, hs⟩, heffect, ⟨f.condition, hcondition, hc⟩, hprincipal ▸ hp, haction ▸ ha,
      hresource ▸ hr⟩
  · rintro ⟨⟨sid, hsid, hs⟩, heffect, ⟨condition, hcondition, hc⟩, hp, ha, hr⟩
    exact ⟨⟨sid, some st.effect, condition, members.filter collected⟩,
      ⟨hsid, heffect, hcondition, rfl⟩, rfl, hs, hc, hprincipal.symm ▸ hp, haction.symm ▸ ha,
      hresource.symm ▸ hr⟩

theorem acceptable_iff (members : List (Bytes × Json)) :
    Acceptable members ↔ ∃ st, Statement.deserialize members = .ok st := by
  constructor
  · intro h
    obtain ⟨sid, hsid⟩ := (atMostOnce_iff _ _).mp h.sid
    obtain ⟨slot, heffect⟩ := (atMostOnce_iff _ _).mp h.effect
    obtain ⟨condition, hcondition⟩ := (atMostOnce_iff _ _).mp h.condition
    obtain ⟨effect, rfl⟩ := Option.isSome_iff_exists.mp
      ((slotOf_isSome heffect).mpr h.effect_present)
    obtain ⟨action, haction⟩ := (actionPair.leads_iff members).mp h.action
    obtain ⟨resource, hresource⟩ := (resourcePair.leads_iff members).mp h.resource
    exact ⟨⟨sid.getD none, (principalPair.read members).toOption, effect, action, resource,
      condition.getD none⟩, (deserialize_eq_ok _ _).mpr
        ⟨⟨sid, hsid, rfl⟩, heffect, ⟨condition, hcondition, rfl⟩, rfl, haction, hresource⟩⟩
  · rintro ⟨st, hst⟩
    obtain ⟨⟨sid, hsid, -⟩, heffect, ⟨condition, hcondition, -⟩, -, haction, hresource⟩ :=
      (deserialize_eq_ok _ _).mp hst
    exact {
      sid := (atMostOnce_iff _ _).mpr ⟨sid, hsid⟩
      effect := (atMostOnce_iff _ _).mpr ⟨_, heffect⟩
      effect_present := (slotOf_isSome heffect).mp rfl
      condition := (atMostOnce_iff _ _).mpr ⟨condition, hcondition⟩
      action := (actionPair.leads_iff members).mpr ⟨_, haction⟩
      resource := (resourcePair.leads_iff members).mpr ⟨_, hresource⟩ }

/-- A statement that is read stands for its object just when the members of the pairs agree. -/
theorem represents_iff_agreement (members : List (Bytes × Json)) (st : Statement)
    (hst : Statement.deserialize members = .ok st) : Represents st members ↔ Agreement members := by
  obtain ⟨-, -, ⟨condition, hslot, hcondition⟩, hprincipal, haction, hresource⟩ :=
    (deserialize_eq_ok _ _).mp hst
  have hp := principalPair.represents_read_iff members
  have ha := actionPair.represents_read_iff members
  have hr := resourcePair.represents_read_iff members
  rw [← hprincipal] at hp
  rw [haction] at ha
  rw [hresource] at hr
  constructor
  · intro h
    exact ⟨hp.mp h.principal, ha.mp h.action, hr.mp h.resource⟩
  · intro h
    refine ⟨hp.mpr h.principal, ha.mpr h.action, hr.mpr h.resource, fun v hv => ?_⟩
    obtain ⟨x, hx, hsome⟩ := slotOf_value hslot v hv
    rw [hx, hcondition, hsome, Option.getD_some]

/-- An object with a principal that is neither a wildcard nor a map. -/
def strayPrincipal : List (Bytes × Json) :=
  [(ascii "Effect", .string (ascii "Allow")), (ascii "Principal", .string (ascii "bob")),
    (ascii "Action", .string (ascii "*")), (ascii "Resource", .string (ascii "*"))]

/-- An object that both allows an action and leaves one out. -/
def twoActions : List (Bytes × Json) :=
  [(ascii "Effect", .string (ascii "Deny")), (ascii "Action", .string (ascii "s3:GetObject")),
    (ascii "NotAction", .string (ascii "s3:PutObject")), (ascii "Resource", .string (ascii "*"))]

end Weakening

end S3s.Policy
