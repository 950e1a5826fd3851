import S3s.Routing.Plan

/-! # What a plan keeps

The facts about the plan of a group that its dispatcher rests on. The rules have one of three
shapes. The bits of the features are distinct and stand above those of the rules, and the type
has room for them. Each token has one arm, with the bits of the rules that it makes candidates.
-/
namespace S3s.Routing.Fvr
open Grouping BitMask

section Shapes

variable {routes : List Route} {members : List (Bytes × Bytes)}

/-- The shape of a rule, by its kind. -/
inductive Shaped (members : List (Bytes × Bytes)) (rule : Rule) : Prop where
  | single (tok : Token) (hkind : rule.kind = .single) (htokens : rule.tokens = [tok])
      (hneg : rule.negKeys = [])
  | family (tag member : Bytes) (hkind : rule.kind = .family)
      (hmember : members.lookup tag = some member) (hpatterns : rule.patterns = [])
      (hheaders : rule.headers = [])
      (hkeys : rule.keys = [tag, member] ∧ rule.negKeys = [] ∨ rule.keys = [tag] ∧ rule.negKeys = [member])
  | misc (hkind : rule.kind = .misc) (htokens : rule.tokens ≠ [])

/-- A tag that more than one route has. -/
def SharedTag (routes : List Route) (tag : Bytes) : Prop := 1 < (routes.filterMap Route.queryTag).count tag

/-- No route without a tag requires a shared tag as its first query string. -/
def UntaggedApart (routes : List Route) : Prop :=
  ∀ route ∈ routes, route.queryTag = none →
    ∀ tag ∈ route.requiredQueryStrings.head?, ¬SharedTag routes tag

instance (routes : List Route) (tag : Bytes) : Decidable (SharedTag routes tag) :=
  inferInstanceAs (Decidable (1 < (routes.filterMap Route.queryTag).count tag))

instance (routes : List Route) : Decidable (UntaggedApart routes) :=
  inferInstanceAs (Decidable (∀ route ∈ routes, route.queryTag = none →
    ∀ tag ∈ route.requiredQueryStrings.head?, ¬SharedTag routes tag))

/-- What every step of a fold keeps holds at its end. -/
theorem foldlM_invariant {α β : Type} {f : β → α → Option β} {P : β → Prop}
    (hstep : ∀ b a b', P b → f b a = some b' → P b') (l : List α) {b final : β} (hb : P b)
    (h : l.foldlM f b = some final) : P final := by
  induction l generalizing b with
  | nil =>
    obtain rfl := Option.some.inj h
    exact hb
  | cons a l ih =>
    rw [List.foldlM_cons] at h
    obtain ⟨next, hnext, hrest⟩ := Option.bind_eq_some_iff.mp h
    exact ih (hstep b a next hb hnext) hrest

/-- Only shared tags have members. -/
theorem sharedTag_of_lookup (h : sharedTagMembers routes = some members) {tag member : Bytes}
    (hmember : members.lookup tag = some member) : SharedTag routes tag := by
  have hall : ∀ e ∈ members, SharedTag routes e.1 := by
    refine foldlM_invariant (P := fun members => ∀ e ∈ members, SharedTag routes e.1) ?_ routes
      (fun e he => absurd he List.not_mem_nil) h
    intro members route next hstart hnext
    split at hnext
    · next tag member htag hhead =>
      split_ifs at hnext with hcount
      · cases hnext
        intro e he
        rcases List.mem_append.mp he with he | he
        · exact hstart e he
        · rw [List.mem_singleton.mp he]
          exact hcount
      · cases hnext
        exact hstart
    · cases hnext
      exact hstart
  obtain ⟨front, back, hsplit, _⟩ := List.lookup_eq_some_iff.mp hmember
  exact hall (tag, member) (by simp [hsplit])

/-- A rule that is not classified yet and will have a shape. -/
structure Classifiable (members : List (Bytes × Bytes)) (rule : Rule) : Prop where
  tokens_ne : rule.tokens ≠ []
  family : isFamily members rule = true → ∃ tag member, members.lookup tag = some member ∧
    rule.patterns = [] ∧ rule.headers = [] ∧
    (rule.keys = [tag, member] ∧ rule.negKeys = [] ∨ rule.keys = [tag] ∧ rule.negKeys = [member])

theorem classifyRule_shaped {rule : Rule} (h : Classifiable members rule) :
    Shaped members (classifyRule members rule) := by
  by_cases hsingle : rule.tokens.length = 1 ∧ rule.negKeys = []
  · obtain ⟨tok, htok⟩ := List.length_eq_one_iff.mp hsingle.1
    exact .single tok (by simp [classifyRule, hsingle]) htok hsingle.2
  · by_cases hfamily : isFamily members rule = true
    · obtain ⟨tag, member, hmember, hpatterns, hheaders, hkeys⟩ := h.family hfamily
      exact .family tag member (by simp [classifyRule, hsingle, hfamily]) hmember hpatterns hheaders hkeys
    · exact .misc (by simp [classifyRule, hsingle, hfamily]) h.tokens_ne

theorem disambiguationRule_classifiable {finalCount : Nat} {fallbackOpName : Option Bytes}
    {route : Route} {rules : List Rule}
    (h : disambiguationRule finalCount fallbackOpName members route = some rules) :
    ∀ rule ∈ rules, Classifiable members rule := by
  unfold disambiguationRule at h
  split at h
  · next tag pattern rest _ _ =>
    split_ifs at h
    cases h
    intro rule hrule
    rw [List.mem_singleton.mp hrule]
    exact ⟨by simp [Rule.tokens], by simp [isFamily]⟩
  · next tag _ _ =>
    split at h
    · next member hmember =>
      split_ifs at h
      · cases h
        intro rule hrule
        rw [List.mem_singleton.mp hrule]
        exact ⟨by simp [Rule.tokens], fun _ => ⟨tag, member, hmember, rfl, rfl, .inl ⟨rfl, rfl⟩⟩⟩
      · cases h
        intro rule hrule
        rw [List.mem_singleton.mp hrule]
        exact ⟨by simp [Rule.tokens], fun _ => ⟨tag, member, hmember, rfl, rfl, .inr ⟨rfl, rfl⟩⟩⟩
    · cases h
      intro rule hrule
      rw [List.mem_singleton.mp hrule]
      exact ⟨by simp [Rule.tokens], by simp [isFamily]⟩
  · cases h
    intro rule hrule
    rw [List.mem_singleton.mp hrule]
    exact ⟨by simp [Rule.tokens], by simp [isFamily]⟩
  · split at h
    · split_ifs at h
      · cases h
        intro rule hrule
        rw [List.mem_singleton.mp hrule]
        exact ⟨by simp [Rule.tokens], by simp [isFamily]⟩
      · cases h
        simp
    · cases h
      simp

theorem conjunctionRule_classifiable (hmembers : sharedTagMembers routes = some members)
    (hapart : UntaggedApart routes) {route : Route} (hroute : route ∈ routes) {rule : Rule}
    (h : conjunctionRule route = some rule) : Classifiable members rule := by
  unfold conjunctionRule at h
  split_ifs at h with htag hempty
  cases h
  simp only [Bool.or_eq_true, Option.isSome_iff_ne_none, not_or, Decidable.not_not] at htag
  constructor
  · intro htokens
    apply hempty
    simpa [Rule.tokens] using htokens
  · intro hfamily
    exfalso
    rw [isFamily, Option.any_eq_true] at hfamily
    obtain ⟨tag, hhead, hfamily⟩ := hfamily
    obtain ⟨member, hmember, _⟩ := (Option.any_eq_true _ _).mp hfamily
    exact hapart route hroute htag.1 tag hhead (sharedTag_of_lookup hmembers hmember)

theorem exists_of_mem_mapM {α β : Type} {f : α → Option β} {l : List α} {out : List β}
    (h : l.mapM f = some out) {b : β} (hb : b ∈ out) : ∃ a, f a = some b := by
  induction l generalizing out with
  | nil =>
    cases h
    cases hb
  | cons a l ih =>
    rw [List.mapM_cons] at h
    obtain ⟨c, hc, h⟩ := Option.bind_eq_some_iff.mp h
    obtain ⟨rest, hrest, h⟩ := Option.bind_eq_some_iff.mp h
    cases h
    rcases List.mem_cons.mp hb with rfl | hb
    · exact ⟨a, hc⟩
    · exact ih hrest hb

/-- Every rule of a group has its shape. -/
theorem groupRules_shaped (hmembers : sharedTagMembers routes = some members)
    (hapart : UntaggedApart routes) {rules : List Rule} (h : groupRules routes members = some rules) :
    ∀ rule ∈ rules, Shaped members rule := by
  obtain ⟨first, hfirst, rfl⟩ := Option.map_eq_some_iff.mp h
  intro rule hrule
  obtain ⟨source, hsource, rfl⟩ := List.mem_map.mp hrule
  apply classifyRule_shaped
  rcases List.mem_append.mp hsource with hsource | hsource
  · obtain ⟨lists, hlists, rfl⟩ := Option.map_eq_some_iff.mp hfirst
    obtain ⟨list, hlist, hsource⟩ := List.mem_flatten.mp hsource
    obtain ⟨route, hrules⟩ := exists_of_mem_mapM hlists hlist
    exact disambiguationRule_classifiable hrules source hsource
  · obtain ⟨route, hroute, hrule⟩ := List.mem_filterMap.mp hsource
    exact conjunctionRule_classifiable hmembers hapart hroute hrule

end Shapes

section Allocation

variable {n : Nat}

/-- The bits given so far: one for each token, from the number of the rules on. -/
structure Allocated (n : Nat) (state : List (Token × Nat) × Nat) : Prop where
  tokens_nodup : (state.1.map Prod.fst).Nodup
  bits_nodup : (state.1.map Prod.snd).Nodup
  bits_range : ∀ e ∈ state.1, n ≤ e.2 ∧ e.2 < state.2
  le : n ≤ state.2

theorem not_mem_of_lookup_none {bits : List (Token × Nat)} {tok : Token}
    (h : ¬(bits.lookup tok).isSome) : tok ∉ bits.map Prod.fst := by
  intro hmem
  obtain ⟨e, he, rfl⟩ := List.mem_map.mp hmem
  have hnone : bits.lookup e.1 = none := Option.not_isSome_iff_eq_none.mp h
  have hne := List.lookup_eq_none_iff.mp hnone e he
  simp at hne

theorem Allocated.allocate {state : List (Token × Nat) × Nat} (h : Allocated n state) (tok : Token) :
    Allocated n (allocate state tok) := by
  unfold Fvr.allocate
  by_cases hlookup : (state.1.lookup tok).isSome = true
  · rw [if_pos hlookup]
    exact h
  · rw [if_neg hlookup]
    have hfresh : state.2 ∉ state.1.map Prod.snd := by
      intro hmem
      obtain ⟨e, he, hbit⟩ := List.mem_map.mp hmem
      exact Nat.lt_irrefl _ (hbit ▸ (h.bits_range e he).2)
    constructor
    · rw [List.map_append]
      exact h.tokens_nodup.append (List.nodup_singleton _)
        (by simpa using not_mem_of_lookup_none hlookup)
    · rw [List.map_append]
      exact h.bits_nodup.append (List.nodup_singleton _) (by simpa using hfresh)
    · intro e he
      rcases List.mem_append.mp he with he | he
      · exact ⟨(h.bits_range e he).1, Nat.lt_succ_of_lt (h.bits_range e he).2⟩
      · rw [List.mem_singleton.mp he]
        exact ⟨h.le, Nat.lt_succ_self _⟩
    · exact Nat.le_succ_of_le h.le

theorem Allocated.foldl {state : List (Token × Nat) × Nat} (h : Allocated n state) (toks : List Token) :
    Allocated n (toks.foldl Fvr.allocate state) := by
  induction toks generalizing state with
  | nil => exact h
  | cons tok toks ih => exact ih (h.allocate tok)

theorem Allocated.start : Allocated n ([], n) :=
  ⟨List.nodup_nil, List.nodup_nil, by simp, Nat.le_refl n⟩

theorem allocate_mono {state : List (Token × Nat) × Nat} {tok : Token} (tok' : Token)
    (h : (state.1.lookup tok).isSome = true) : ((allocate state tok').1.lookup tok).isSome = true := by
  unfold allocate
  split
  · exact h
  · rw [List.lookup_append]
    simp [h]

theorem allocate_self (state : List (Token × Nat) × Nat) (tok : Token) :
    ((allocate state tok).1.lookup tok).isSome = true := by
  unfold allocate
  split
  · assumption
  · rw [List.lookup_append]
    simp [List.lookup_cons]

/-- Every token that needs a bit has one. -/
theorem lookup_foldl_allocate {toks : List Token} {state : List (Token × Nat) × Nat} {tok : Token}
    (h : tok ∈ toks ∨ (state.1.lookup tok).isSome = true) :
    ((toks.foldl allocate state).1.lookup tok).isSome = true := by
  induction toks generalizing state with
  | nil => simpa using h
  | cons first toks ih =>
    apply ih
    rcases h with h | h
    · rcases List.mem_cons.mp h with rfl | h
      · exact .inr (allocate_self state tok)
      · exact .inl h
    · exact .inr (allocate_mono first h)

theorem le_maskType_bits {bits : Nat} (h : bits ≤ 128) : bits ≤ (maskType bits).bits := by
  unfold maskType
  split_ifs <;> simp only [MaskType.bits] <;> omega

end Allocation

section Arms

variable {rules : List Rule} {bits : List (Token × Nat)}

theorem mem_candidates {tok : Token} {i : Nat} :
    (tok, i) ∈ (rules.zipIdx.flatMap fun r => (scanTokens r.1).map fun tok => (tok, r.2)) ↔
      ∃ rule, rules[i]? = some rule ∧ tok ∈ scanTokens rule := by
  simp only [List.mem_flatMap, List.mem_map, Prod.mk.injEq, Prod.exists, List.mem_zipIdx_iff_getElem?]
  constructor
  · rintro ⟨rule, j, hrule, t, ht, rfl, rfl⟩
    exact ⟨rule, hrule, ht⟩
  · rintro ⟨rule, hrule, ht⟩
    exact ⟨rule, i, hrule, tok, ht, rfl, rfl⟩

theorem foldl_push_snd {α β : Type} (l : List (α × β)) (start : List β) :
    l.foldl (fun acc p => acc ++ [p.2]) start = start ++ l.map Prod.snd := by
  induction l generalizing start with
  | nil => simp
  | cons p l ih => simp [ih]

/-- The rules that an entry names are those that the token makes candidates. -/
theorem mem_tokenRuleBits {tok : Token} {idxs : List Nat} (h : (tok, idxs) ∈ tokenRuleBits rules) (i : Nat) :
    i ∈ idxs ↔ ∃ rule, rules[i]? = some rule ∧ tok ∈ scanTokens rule := by
  obtain ⟨_, rfl⟩ := mem_groupFold.mp h
  rw [foldl_push_snd, List.nil_append, ← mem_candidates]
  simp

theorem exists_tokenRuleBits {rule : Rule} {i : Nat} (hrule : rules[i]? = some rule) {tok : Token}
    (htok : tok ∈ scanTokens rule) : ∃ idxs, (tok, idxs) ∈ tokenRuleBits rules := by
  refine ⟨_, mem_groupFold.mpr ⟨⟨(tok, i), mem_candidates.mpr ⟨rule, hrule, htok⟩, rfl⟩, rfl⟩⟩

/-- What an arm of the plan sets. -/
theorem mem_buildArms {arm : Arm} (h : arm ∈ buildArms rules bits) :
    (∀ i, i ∈ arm.ruleBits ↔ ∃ rule, rules[i]? = some rule ∧ arm.token ∈ scanTokens rule) ∧
      arm.feature = (bits.lookup arm.token).isSome := by
  rcases List.mem_append.mp h with h | h
  · obtain ⟨e, he, rfl⟩ := List.mem_map.mp h
    refine ⟨fun i => ?_, rfl⟩
    rw [List.mem_insertionSort]
    exact mem_tokenRuleBits he i
  · obtain ⟨e, he, rfl⟩ := List.mem_map.mp h
    obtain ⟨hmem, hapart⟩ := List.mem_filter.mp he
    constructor
    · intro i
      simp only [List.not_mem_nil, false_iff]
      rintro ⟨rule, hrule, htok⟩
      obtain ⟨idxs, hidxs⟩ := exists_tokenRuleBits hrule htok
      have hany : ((tokenRuleBits rules).any fun t => t.1 == e.1) = true :=
        List.any_eq_true.mpr ⟨_, hidxs, beq_self_eq_true _⟩
      simp [hany] at hapart
    · by_contra hnone
      have hlookup : ¬(bits.lookup e.1).isSome := by simpa using hnone
      exact not_mem_of_lookup_none hlookup (List.mem_map_of_mem hmem)

theorem exists_buildArms {tok : Token}
    (h : (∃ (i : Nat) (rule : Rule), rules[i]? = some rule ∧ tok ∈ scanTokens rule) ∨ (bits.lookup tok).isSome = true) :
    ∃ arm ∈ buildArms rules bits, arm.token = tok := by
  by_cases hentry : ∃ idxs, (tok, idxs) ∈ tokenRuleBits rules
  · obtain ⟨idxs, hidxs⟩ := hentry
    exact ⟨_, List.mem_append_left _ (List.mem_map_of_mem hidxs), rfl⟩
  · rcases h with ⟨i, rule, hrule, htok⟩ | h
    · exact absurd (exists_tokenRuleBits hrule htok) hentry
    · obtain ⟨bit, hbit⟩ := Option.isSome_iff_exists.mp h
      obtain ⟨front, back, hsplit, _⟩ := List.lookup_eq_some_iff.mp hbit
      have hapart : ((tokenRuleBits rules).any fun t => t.1 == tok) = false := by
        rw [List.any_eq_false]
        intro e he heq
        exact hentry ⟨e.2, by rw [← beq_iff_eq.mp heq]; exact he⟩
      have hmem : (tok, bit) ∈ bits.filter fun e => !(tokenRuleBits rules).any fun t => t.1 == e.1 := by
        rw [List.mem_filter]
        exact ⟨by simp [hsplit], by simp [hapart]⟩
      exact ⟨_, List.mem_append_right _ (List.mem_map_of_mem hmem), rfl⟩

/-- No two arms have one token. -/
theorem buildArms_nodup (h : (bits.map Prod.fst).Nodup) : ((buildArms rules bits).map Arm.token).Nodup := by
  rw [buildArms, List.map_append, List.map_map, List.map_map]
  apply List.Nodup.append
  · exact groupFold_nodup _ _ _ _
  · exact (List.filter_sublist.map Prod.fst).nodup h
  · intro tok hleft hright
    obtain ⟨e, he, rfl⟩ := List.mem_map.mp hleft
    obtain ⟨e', he', heq⟩ := List.mem_map.mp hright
    have hapart := (List.mem_filter.mp he').2
    have hany : ((tokenRuleBits rules).any fun t => t.1 == e'.1) = true :=
      List.any_eq_true.mpr ⟨e, he, by simpa using heq.symm⟩
    simp [hany] at hapart

end Arms

section Plans

variable {group : List Route} {plan : GroupPlan} {members : List (Bytes × Bytes)}

/-- What the dispatcher rests on. -/
structure Planned (members : List (Bytes × Bytes)) (plan : GroupPlan) : Prop where
  shaped : ∀ rule ∈ plan.rules, Shaped members rule
  rules_lt : plan.rules.length < 128
  layers_eq : plan.layers = (buildLayers members plan.rules (low 128 plan.rules.length)).1
  arms_eq : plan.arms = buildArms plan.rules plan.bits
  tokens_nodup : (plan.bits.map Prod.fst).Nodup
  bits_nodup : (plan.bits.map Prod.snd).Nodup
  bits_range : ∀ e ∈ plan.bits, plan.rules.length ≤ e.2 ∧ e.2 < plan.ty.bits
  rules_le : plan.rules.length ≤ plan.ty.bits
  has_bit : ∀ tok ∈ featureTokens plan.rules (buildLayers members plan.rules (low 128 plan.rules.length)).2,
    (plan.bits.lookup tok).isSome = true

/-- Every plan that is built has these properties. -/
theorem GroupPlan.build_planned (h : GroupPlan.build group = some plan)
    (hapart : UntaggedApart (group.filter fun r => !r.isMinio)) : ∃ members, Planned members plan := by
  obtain ⟨members, hmembers, h⟩ := Option.bind_eq_some_iff.mp h
  obtain ⟨rules, hrules, h⟩ := Option.bind_eq_some_iff.mp h
  split_ifs at h with hlength
  simp only at h
  obtain ⟨⟨bits, arms, ty⟩, hvectors, h⟩ := Option.bind_eq_some_iff.mp h
  cases h
  simp only [buildVectors] at hvectors
  split_ifs at hvectors with hbits
  cases hvectors
  have hallocated := (Allocated.start (n := rules.length)).foldl
    (featureTokens rules (buildLayers members rules (low 128 rules.length)).2)
  have hroom := le_maskType_bits hbits
  refine ⟨members, ?_⟩
  constructor
  · exact groupRules_shaped hmembers hapart hrules
  · exact hlength
  · rfl
  · rfl
  · exact hallocated.tokens_nodup
  · exact hallocated.bits_nodup
  · intro e he
    exact ⟨(hallocated.bits_range e he).1, Nat.lt_of_lt_of_le (hallocated.bits_range e he).2 hroom⟩
  · exact Nat.le_trans hallocated.le hroom
  · intro tok htok
    exact lookup_foldl_allocate (.inl htok)

end Plans

end S3s.Routing.Fvr
