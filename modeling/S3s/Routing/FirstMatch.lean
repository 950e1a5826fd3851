import S3s.Routing.Dispatcher
import S3s.Routing.PlanInvariants

/-! # The dispatcher chooses the first match

The layers of a plan keep the bit of a candidate exactly when what its rule asks for beyond the
scan is met: of a family, its member; of another conjunction, the tokens it shares and those of
its own. The predicates and the masks of the dispatcher compute this on the vector of the scan.
-/
namespace S3s.Routing.Fvr
open Grouping BitMask Http

section Layers

variable (qs : Option OrderedQs) (hs : HeaderMap)

/-- Whether the request has what a layer asks for. -/
def Sel.met (sel : Sel) : Bool :=
  (sel.toks.all fun t => present qs hs t) && sel.negs.all fun t => !present qs hs t

/-- Whether a layer keeps a bit. -/
def Layer.keeps (layer : Layer) (i : Nat) : Bool :=
  if layer.sel.met qs hs then layer.keepT.getLsbD i else layer.keepF.getLsbD i

variable {qs hs} {members : List (Bytes × Bytes)} {rules : List Rule} {rule : Rule} {n i : Nat}

theorem mem_indexesOf {kind : RuleKind} :
    (rule, i) ∈ indexesOf rules kind ↔ rules[i]? = some rule ∧ rule.kind = kind := by
  simp [indexesOf, List.mem_zipIdx_iff_getElem?]

theorem foldl_push_family (l : List (Rule × Nat)) (start : List Nat × List Nat) :
    l.foldl (fun group r =>
        if asksMember members r.1 then (group.1 ++ [r.2], group.2) else (group.1, group.2 ++ [r.2])) start =
      (start.1 ++ (l.filter fun r => asksMember members r.1).map Prod.snd,
        start.2 ++ (l.filter fun r => !asksMember members r.1).map Prod.snd) := by
  induction l generalizing start with
  | nil => simp
  | cons r l ih =>
    rw [List.foldl_cons, ih]
    by_cases hasks : asksMember members r.1 = true
    · simp [hasks]
    · simp [hasks]

/-- The rules of a family group. -/
theorem mem_familyGroups {member : Bytes} {pos neg : List Nat}
    (h : (member, pos, neg) ∈ familyGroups members rules) (hrule : rules[i]? = some rule) :
    (i ∈ pos ↔ rule.kind = .family ∧ memberOf members rule = member ∧ asksMember members rule = true) ∧
      (i ∈ neg ↔ rule.kind = .family ∧ memberOf members rule = member ∧ asksMember members rule = false) := by
  obtain ⟨_, hgroup⟩ := mem_groupFold.mp h
  rw [foldl_push_family] at hgroup
  obtain ⟨rfl, rfl⟩ := Prod.mk.inj hgroup
  constructor
  · simp only [List.nil_append, List.mem_map, List.mem_filter, decide_eq_true_eq, Prod.exists,
      exists_eq_right, mem_indexesOf, hrule, Option.some.injEq]
    constructor
    · rintro ⟨_, ⟨⟨rfl, hkind⟩, hmember⟩, hasks⟩
      exact ⟨hkind, hmember, hasks⟩
    · rintro ⟨hkind, hmember, hasks⟩
      exact ⟨rule, ⟨⟨rfl, hkind⟩, hmember⟩, hasks⟩
  · simp only [List.nil_append, List.mem_map, List.mem_filter, decide_eq_true_eq, Prod.exists,
      exists_eq_right, mem_indexesOf, hrule, Option.some.injEq, Bool.not_eq_true']
    constructor
    · rintro ⟨_, ⟨⟨rfl, hkind⟩, hmember⟩, hasks⟩
      exact ⟨hkind, hmember, hasks⟩
    · rintro ⟨hkind, hmember, hasks⟩
      exact ⟨rule, ⟨⟨rfl, hkind⟩, hmember⟩, hasks⟩

theorem exists_familyGroup (members : List (Bytes × Bytes)) (hrule : rules[i]? = some rule) (hkind : rule.kind = .family) :
    ∃ pos neg, (memberOf members rule, pos, neg) ∈ familyGroups members rules :=
  ⟨_, _, mem_groupFold.mpr ⟨⟨(rule, i), mem_indexesOf.mpr ⟨hrule, hkind⟩, rfl⟩, rfl⟩⟩

theorem getLsbD_without (hn : n < 128) (idxs : List Nat) :
    (low 128 n &&& ~~~ofIdxs 128 idxs).getLsbD i = true ↔ i < n ∧ i ∉ idxs := by
  rw [BitVec.getLsbD_and, BitVec.getLsbD_not, getLsbD_low hn, getLsbD_ofIdxs]
  by_cases hi : i < n
  · have hw : i < 128 := Nat.lt_trans hi hn
    simp [hi, hw]
  · simp [hi]

theorem familyLayer_keeps (hn : n < 128) (group : Bytes × List Nat × List Nat) :
    (familyLayer (low 128 n) group).keeps qs hs i = true ↔
      i < n ∧ if present qs hs (.key group.1) then i ∉ group.2.2 else i ∉ group.2.1 := by
  by_cases hpresent : present qs hs (.key group.1) = true
  · simp only [Layer.keeps, Sel.met, familyLayer, List.all_cons, List.all_nil, hpresent, Bool.and_true,
      if_true, getLsbD_without hn]
  · simp only [Layer.keeps, Sel.met, familyLayer, List.all_cons, List.all_nil, hpresent, Bool.and_true,
      Bool.false_eq_true, if_false, getLsbD_without hn]

theorem conjunctionLayer_keeps (hn : n < 128) (toks : List Token) (idxs : List Nat) (negs : List Token) :
    (conjunctionLayer toks idxs negs (low 128 n)).keeps qs hs i = true ↔
      i < n ∧ (i ∈ idxs → (Sel.mk toks negs).met qs hs = true) := by
  by_cases hmet : (Sel.mk toks negs).met qs hs = true
  · simp [Layer.keeps, conjunctionLayer, getLsbD_low hn, hmet]
  · simp only [Layer.keeps, conjunctionLayer, hmet, Bool.false_eq_true, if_false, getLsbD_without hn,
      imp_false]

/-- The layers of the families keep a rule of a family when its member is as it asks. -/
theorem familyLayers_keep (hn : n < 128) (hi : i < n) (hrule : rules[i]? = some rule) :
    (∀ layer ∈ (familyGroups members rules).map (familyLayer (low 128 n)), layer.keeps qs hs i = true) ↔
      (rule.kind = .family →
        present qs hs (.key (memberOf members rule)) = asksMember members rule) := by
  constructor
  · intro hlayers hkind
    obtain ⟨pos, neg, hgroup⟩ := exists_familyGroup members hrule hkind
    have hmem := mem_familyGroups hgroup hrule
    have hkeeps := (familyLayer_keeps hn _).mp (hlayers _ (List.mem_map_of_mem hgroup))
    cases hpresent : present qs hs (.key (memberOf members rule)) with
    | true =>
      have hneg : i ∉ neg := by simpa [hpresent] using hkeeps.2
      simpa [hmem.2, hkind] using hneg
    | false =>
      have hpos : i ∉ pos := by simpa [hpresent] using hkeeps.2
      simpa [hmem.1, hkind] using hpos
  · rintro hfamily layer hlayer
    obtain ⟨⟨member, pos, neg⟩, hgroup, rfl⟩ := List.mem_map.mp hlayer
    have hmem := mem_familyGroups hgroup hrule
    refine (familyLayer_keeps hn _).mpr ⟨hi, ?_⟩
    split_ifs with hpresent
    · rw [hmem.2]
      rintro ⟨hkind, rfl, hasks⟩
      rw [hfamily hkind, hasks] at hpresent
      cases hpresent
    · rw [hmem.1]
      rintro ⟨hkind, rfl, hasks⟩
      exact hpresent ((hfamily hkind).trans hasks)

theorem mem_sharedSets {toks : List Token} {idxs : List Nat} (h : (toks, idxs) ∈ sharedSets rules)
    (hrule : rules[i]? = some rule) :
    i ∈ idxs ↔ rule.kind = .misc ∧ sharedTokens rules rule ≠ [] ∧ sharedTokens rules rule = toks := by
  obtain ⟨_, rfl⟩ := mem_groupFold.mp h
  rw [foldl_push_snd]
  simp only [List.nil_append, List.mem_map, List.mem_filter, decide_eq_true_eq, Prod.exists,
    exists_eq_right, mem_indexesOf, hrule, Option.some.injEq, Bool.not_eq_true', List.isEmpty_eq_false_iff]
  constructor
  · rintro ⟨_, ⟨⟨rfl, hkind⟩, hne⟩, hshared⟩
    exact ⟨hkind, hne, hshared⟩
  · rintro ⟨hkind, hne, hshared⟩
    exact ⟨rule, ⟨⟨rfl, hkind⟩, hne⟩, hshared⟩

theorem exists_sharedSet (hrule : rules[i]? = some rule) (hkind : rule.kind = .misc)
    (hne : sharedTokens rules rule ≠ []) : ∃ idxs, (sharedTokens rules rule, idxs) ∈ sharedSets rules := by
  refine ⟨_, mem_groupFold.mpr ⟨⟨(rule, i), List.mem_filter.mpr ?_, rfl⟩, rfl⟩⟩
  exact ⟨mem_indexesOf.mpr ⟨hrule, hkind⟩, by simpa using hne⟩

/-- The layers of the shared sets keep a remaining rule when all that it shares is there. -/
theorem sharedLayers_keep (hn : n < 128) (hi : i < n) (hrule : rules[i]? = some rule) :
    (∀ layer ∈ (sharedSets rules).map fun set => conjunctionLayer set.1 set.2 [] (low 128 n),
        layer.keeps qs hs i = true) ↔
      (rule.kind = .misc → ∀ tok ∈ sharedTokens rules rule, present qs hs tok = true) := by
  constructor
  · intro hlayers hkind tok htok
    have hne : sharedTokens rules rule ≠ [] := List.ne_nil_of_mem htok
    obtain ⟨idxs, hset⟩ := exists_sharedSet hrule hkind hne
    have hkeeps := (conjunctionLayer_keeps hn _ _ _).mp (hlayers _ (List.mem_map_of_mem hset))
    have hmet := hkeeps.2 ((mem_sharedSets hset hrule).mpr ⟨hkind, hne, rfl⟩)
    simp only [Sel.met, List.all_nil, Bool.and_true, List.all_eq_true] at hmet
    exact hmet tok htok
  · intro hshared layer hlayer
    obtain ⟨⟨toks, idxs⟩, hset, rfl⟩ := List.mem_map.mp hlayer
    refine (conjunctionLayer_keeps hn _ _ _).mpr ⟨hi, ?_⟩
    intro hmem
    obtain ⟨hkind, _, rfl⟩ := (mem_sharedSets hset hrule).mp hmem
    simp only [Sel.met, List.all_nil, Bool.and_true, List.all_eq_true]
    exact hshared hkind

/-- The layer of what is left keeps a remaining rule when its own tokens are there and those it
refuses are not. -/
theorem remainderLayers_keep (hn : n < 128) (hi : i < n) (hrule : rules[i]? = some rule) :
    (∀ layer ∈ (indexesOf rules .misc).filterMap (remainderLayer rules (low 128 n)),
        layer.keeps qs hs i = true) ↔
      (rule.kind = .misc →
        (Sel.mk (ownTokens rules rule) (rule.negKeys.map .key)).met qs hs = true) := by
  constructor
  · intro hlayers hkind
    by_cases hempty : ((ownTokens rules rule).isEmpty && rule.negKeys.isEmpty) = true
    · rw [Bool.and_eq_true, List.isEmpty_iff, List.isEmpty_iff] at hempty
      simp [Sel.met, hempty]
    · have hlayer : remainderLayer rules (low 128 n) (rule, i) =
          some (conjunctionLayer (ownTokens rules rule) [i] (rule.negKeys.map .key) (low 128 n)) :=
        if_neg hempty
      have hmem := List.mem_filterMap.mpr ⟨(rule, i), mem_indexesOf.mpr ⟨hrule, hkind⟩, hlayer⟩
      exact ((conjunctionLayer_keeps hn _ _ _).mp (hlayers _ hmem)).2 (List.mem_singleton_self i)
  · intro hmet layer hlayer
    obtain ⟨⟨other, j⟩, hother, hlayer⟩ := List.mem_filterMap.mp hlayer
    unfold remainderLayer at hlayer
    split_ifs at hlayer
    cases hlayer
    refine (conjunctionLayer_keeps hn _ _ _).mpr ⟨hi, ?_⟩
    intro hmem
    cases List.mem_singleton.mp hmem
    obtain ⟨hget, hkind⟩ := mem_indexesOf.mp hother
    cases hrule.symm.trans hget
    exact hmet hkind

/-- The condition of a rule, by its tokens. -/
theorem ruleCondition_eq : ruleCondition qs hs rule = (Sel.mk rule.tokens (rule.negKeys.map .key)).met qs hs := by
  simp only [ruleCondition, Sel.met, Rule.tokens, List.all_append, List.all_map, Function.comp_def]
  cases rule.keys.all fun k => present qs hs (.key k) <;>
    cases rule.negKeys.all fun k => !present qs hs (.key k) <;> simp

/-- The condition of a rule holds when it is a candidate and the layers keep it. -/
theorem ruleCondition_iff (rules : List Rule) (hshaped : Shaped members rule) :
    ruleCondition qs hs rule = true ↔
      (∃ tok ∈ scanTokens rule, present qs hs tok = true) ∧
      (rule.kind = .family → present qs hs (.key (memberOf members rule)) = asksMember members rule) ∧
      (rule.kind = .misc → ∀ tok ∈ sharedTokens rules rule, present qs hs tok = true) ∧
      (rule.kind = .misc →
        (Sel.mk (ownTokens rules rule) (rule.negKeys.map .key)).met qs hs = true) := by
  cases hshaped with
  | single tok hkind htokens hneg =>
    rw [ruleCondition_eq]
    simp [Sel.met, scanTokens, hkind, htokens, hneg]
  | family tag member hkind hmember hpatterns hheaders hkeys =>
    rcases hkeys with ⟨hkeys, hneg⟩ | ⟨hkeys, hneg⟩
    · simp [ruleCondition, scanTokens, hkind, memberOf, asksMember, hkeys, hneg, hpatterns, hheaders, hmember]
    · simp [ruleCondition, scanTokens, hkind, memberOf, asksMember, hkeys, hneg, hpatterns, hheaders, hmember]
  | misc hkind htokens =>
    rw [ruleCondition_eq]
    simp only [Sel.met, Bool.and_eq_true, List.all_eq_true, hkind, true_implies, scanTokens, sharedTokens,
      ownTokens, List.mem_filter, decide_eq_true_eq, reduceCtorEq, false_implies, true_and]
    constructor
    · rintro ⟨hall, hnone⟩
      obtain ⟨tok, htok⟩ := List.exists_mem_of_ne_nil _ htokens
      exact ⟨⟨tok, htok, hall tok htok⟩, fun t ht => hall t ht.1, fun t ht => hall t ht.1, hnone⟩
    · rintro ⟨_, hshared, hown, hnone⟩
      refine ⟨fun t ht => ?_, hnone⟩
      by_cases hfreq : 2 ≤ freq rules t
      · exact hshared t ⟨ht, hfreq⟩
      · exact hown t ⟨ht, Nat.lt_of_not_le hfreq⟩

end Layers

section Vectors

variable {qs : Option OrderedQs} {hs : HeaderMap} {members : List (Bytes × Bytes)} {plan : GroupPlan}
variable {arms : List Arm} {rule : Rule} {i : Nat}

theorem Planned.arms_nodup (h : Planned members plan) (harms : arms.Perm plan.arms) :
    (arms.map Arm.token).Nodup := by
  rw [(harms.map Arm.token).nodup_iff, h.arms_eq]
  exact buildArms_nodup h.tokens_nodup

theorem Planned.bit_range (h : Planned members plan) {tok : Token} {bit : Nat}
    (hbit : plan.bits.lookup tok = some bit) : plan.rules.length ≤ bit ∧ bit < plan.width :=
  h.bits_range _ ((mem_iff_lookup h.tokens_nodup).mpr hbit)

theorem Planned.bit_injective (h : Planned members plan) {tok tok' : Token} {bit : Nat}
    (hbit : plan.bits.lookup tok = some bit) (hbit' : plan.bits.lookup tok' = some bit) : tok = tok' := by
  have hmem := (mem_iff_lookup h.tokens_nodup).mpr hbit
  have hmem' := (mem_iff_lookup h.tokens_nodup).mpr hbit'
  have heq := List.inj_on_of_nodup_map h.bits_nodup hmem hmem' rfl
  exact congrArg Prod.fst heq

/-- What the scan sets at a bit. -/
theorem Planned.getLsbD_scan_iff (h : Planned members plan) (harms : arms.Perm plan.arms) (j : Nat) :
    (plan.scan qs hs arms).getLsbD j = true ↔
      j < plan.width ∧ ∃ tok, present qs hs tok = true ∧
        ((∃ rule, plan.rules[j]? = some rule ∧ tok ∈ scanTokens rule) ∨ plan.bits.lookup tok = some j) := by
  rw [getLsbD_scan (h.arms_nodup harms)]
  constructor
  · rintro ⟨arm, harm, hpresent, hbit⟩
    obtain ⟨hj, hbit⟩ := (getLsbD_armBits arm j).mp hbit
    have hmem : arm ∈ buildArms plan.rules plan.bits := h.arms_eq ▸ harms.mem_iff.mp harm
    obtain ⟨hrules, _⟩ := mem_buildArms hmem
    refine ⟨hj, arm.token, hpresent, ?_⟩
    rcases hbit with hbit | ⟨_, hbit⟩
    · exact .inl ((hrules j).mp hbit)
    · exact .inr hbit
  · rintro ⟨hj, tok, hpresent, hbit⟩
    have harm : ∃ arm ∈ buildArms plan.rules plan.bits, arm.token = tok := by
      apply exists_buildArms
      rcases hbit with ⟨rule, hrule, htok⟩ | hbit
      · exact .inl ⟨j, rule, hrule, htok⟩
      · exact .inr (by rw [hbit]; rfl)
    obtain ⟨arm, harm, rfl⟩ := harm
    obtain ⟨hrules, hfeature⟩ := mem_buildArms harm
    refine ⟨arm, harms.mem_iff.mpr (h.arms_eq ▸ harm), hpresent, (getLsbD_armBits arm j).mpr ⟨hj, ?_⟩⟩
    rcases hbit with hbit | hbit
    · exact .inl ((hrules j).mpr hbit)
    · exact .inr ⟨by rw [hfeature, hbit]; rfl, hbit⟩

/-- The scan makes a rule a candidate. -/
theorem Planned.getLsbD_scan_rule (h : Planned members plan) (harms : arms.Perm plan.arms)
    (hrule : plan.rules[i]? = some rule) :
    (plan.scan qs hs arms).getLsbD i = true ↔ ∃ tok ∈ scanTokens rule, present qs hs tok = true := by
  have hi : i < plan.rules.length := (List.getElem?_eq_some_iff.mp hrule).1
  rw [h.getLsbD_scan_iff harms]
  constructor
  · rintro ⟨_, tok, hpresent, ⟨other, hother, htok⟩ | hbit⟩
    · cases hrule.symm.trans hother
      exact ⟨tok, htok, hpresent⟩
    · exact absurd (h.bit_range hbit).1 (Nat.not_le_of_lt hi)
  · rintro ⟨tok, htok, hpresent⟩
    exact ⟨Nat.lt_of_lt_of_le hi h.rules_le, tok, hpresent, .inl ⟨rule, hrule, htok⟩⟩

/-- The scan sets the bit of a feature that is there. -/
theorem Planned.getLsbD_scan_feature (h : Planned members plan) (harms : arms.Perm plan.arms)
    {tok : Token} {bit : Nat} (hbit : plan.bits.lookup tok = some bit) :
    (plan.scan qs hs arms).getLsbD bit = present qs hs tok := by
  obtain ⟨hlow, hwidth⟩ := h.bit_range hbit
  rw [Bool.eq_iff_iff, h.getLsbD_scan_iff harms]
  constructor
  · rintro ⟨_, other, hpresent, ⟨rule, hrule, _⟩ | hother⟩
    · exact absurd (List.getElem?_eq_some_iff.mp hrule).1 (Nat.not_lt_of_le hlow)
    · rwa [h.bit_injective hbit hother]
  · intro hpresent
    exact ⟨hwidth, tok, hpresent, .inr hbit⟩

theorem getLsbD_consts (toks : List Token) (j : Nat) :
    (plan.consts toks).getLsbD j = true ↔
      ∃ tok ∈ toks, j < plan.width ∧ plan.bits.lookup tok = some j := by
  rw [GroupPlan.consts, getLsbD_foldl_or, BitVec.getLsbD_zero, Bool.false_or, List.any_eq_true]
  simp only [getLsbD_const]

/-- All the features of a mask are there. -/
theorem Planned.and_consts_eq_iff (h : Planned members plan) (harms : arms.Perm plan.arms)
    {toks : List Token} (hbits : ∀ tok ∈ toks, (plan.bits.lookup tok).isSome = true) :
    plan.scan qs hs arms &&& plan.consts toks = plan.consts toks ↔
      ∀ tok ∈ toks, present qs hs tok = true := by
  simp only [and_eq_mask_iff, getLsbD_consts]
  constructor
  · intro hall tok htok
    obtain ⟨bit, hbit⟩ := Option.isSome_iff_exists.mp (hbits tok htok)
    rw [← h.getLsbD_scan_feature harms hbit]
    exact hall bit ⟨tok, htok, (h.bit_range hbit).2, hbit⟩
  · rintro hall j ⟨tok, htok, _, hbit⟩
    rw [h.getLsbD_scan_feature harms hbit]
    exact hall tok htok

/-- None of the features of a mask is there. -/
theorem Planned.and_consts_eq_zero_iff (h : Planned members plan) (harms : arms.Perm plan.arms)
    {toks : List Token} (hbits : ∀ tok ∈ toks, (plan.bits.lookup tok).isSome = true) :
    plan.scan qs hs arms &&& plan.consts toks = BitVec.ofNat plan.width 0 ↔
      ∀ tok ∈ toks, present qs hs tok = false := by
  simp only [and_eq_zero_iff, getLsbD_consts]
  constructor
  · intro hall tok htok
    obtain ⟨bit, hbit⟩ := Option.isSome_iff_exists.mp (hbits tok htok)
    rw [← h.getLsbD_scan_feature harms hbit]
    exact hall bit ⟨tok, htok, (h.bit_range hbit).2, hbit⟩
  · rintro hall j ⟨tok, htok, _, hbit⟩
    rw [h.getLsbD_scan_feature harms hbit]
    exact hall tok htok

/-- The predicate of a layer on the vector of the scan. -/
theorem Planned.holds_scan (h : Planned members plan) (harms : arms.Perm plan.arms) {sel : Sel}
    (htoks : ∀ tok ∈ sel.toks, (plan.bits.lookup tok).isSome = true)
    (hnegs : ∀ tok ∈ sel.negs, (plan.bits.lookup tok).isSome = true) :
    plan.holds (plan.scan qs hs arms) sel = sel.met qs hs := by
  unfold GroupPlan.holds Sel.met
  congr 1
  · split
    · next heq => simp [heq]
    · next tok heq =>
      have hnone : plan.scan qs hs arms &&& plan.consts [tok] = BitVec.ofNat plan.width 0 ↔
          ∀ t ∈ [tok], present qs hs t = false :=
        h.and_consts_eq_zero_iff harms (by rw [← heq]; exact htoks)
      have hconst : plan.consts [tok] = plan.const tok := by simp [GroupPlan.consts]
      rw [hconst] at hnone
      cases hpresent : present qs hs tok with
      | true => simpa [heq, hpresent] using hnone
      | false => simpa [heq, hpresent] using hnone
    · rw [Bool.eq_iff_iff, beq_iff_eq, h.and_consts_eq_iff harms htoks, List.all_eq_true]
  · by_cases hempty : sel.negs = []
    · simp [hempty]
    · rw [Bool.eq_iff_iff, List.isEmpty_eq_false_iff.mpr hempty, Bool.false_or, beq_iff_eq,
        h.and_consts_eq_zero_iff harms hnegs]
      simp

/-- Every token of a layer has a bit. -/
theorem Planned.layer_bits (h : Planned members plan) {layer : Layer} (hlayer : layer ∈ plan.layers) :
    (∀ tok ∈ layer.sel.toks, (plan.bits.lookup tok).isSome = true) ∧
      ∀ tok ∈ layer.sel.negs, (plan.bits.lookup tok).isSome = true := by
  have hmisc {rule : Rule} {i : Nat} (hmem : (rule, i) ∈ indexesOf plan.rules .misc) {tok : Token}
      (htok : tok ∈ rule.tokens ++ rule.negKeys.map .key) : (plan.bits.lookup tok).isSome = true :=
    h.has_bit tok (List.mem_append_right _ (List.mem_flatMap.mpr ⟨(rule, i), hmem, htok⟩))
  rw [h.layers_eq] at hlayer
  rcases List.mem_append.mp hlayer with hlayer | hlayer
  · rcases List.mem_append.mp hlayer with hlayer | hlayer
    · obtain ⟨group, hgroup, rfl⟩ := List.mem_map.mp hlayer
      refine ⟨?_, by simp [familyLayer]⟩
      intro tok htok
      rw [List.mem_singleton.mp htok]
      exact h.has_bit _ (List.mem_append_left _ (List.mem_map_of_mem hgroup))
    · obtain ⟨⟨toks, idxs⟩, hset, rfl⟩ := List.mem_map.mp hlayer
      refine ⟨?_, by simp [conjunctionLayer]⟩
      obtain ⟨⟨⟨rule, i⟩, hmem, rfl⟩, _⟩ := mem_groupFold.mp hset
      intro tok htok
      exact hmisc (List.mem_filter.mp hmem).1 (List.mem_append_left _ (List.mem_filter.mp htok).1)
  · obtain ⟨⟨rule, i⟩, hmem, hlayer⟩ := List.mem_filterMap.mp hlayer
    unfold remainderLayer at hlayer
    split_ifs at hlayer
    cases hlayer
    constructor
    · intro tok htok
      exact hmisc hmem (List.mem_append_left _ (List.mem_filter.mp htok).1)
    · intro tok htok
      exact hmisc hmem (List.mem_append_right _ htok)

/-- The vector of a layer holds the bits that it keeps. -/
theorem getLsbD_filterVector (v0 : BitVec plan.width) (layer : Layer) (j : Nat) :
    (plan.filterVector v0 layer).getLsbD j =
      (decide (j < plan.width) &&
        if plan.holds v0 layer.sel then layer.keepT.getLsbD j else layer.keepF.getLsbD j) := by
  unfold GroupPlan.filterVector
  cases plan.holds v0 layer.sel with
  | true =>
    simp only [if_true, BitVec.neg_one_eq_allOnes, BitVec.and_allOnes, BitVec.getLsbD_xor,
      BitVec.getLsbD_setWidth]
    cases decide (j < plan.width) <;> cases layer.keepT.getLsbD j <;>
      cases layer.keepF.getLsbD j <;> rfl
  | false =>
    simp

theorem Planned.lt_of_keeps (h : Planned members plan) {layer : Layer} (hlayer : layer ∈ plan.layers)
    (hkeeps : layer.keeps qs hs i = true) : i < plan.rules.length := by
  rw [h.layers_eq] at hlayer
  rcases List.mem_append.mp hlayer with hlayer | hlayer
  · rcases List.mem_append.mp hlayer with hlayer | hlayer
    · obtain ⟨group, _, rfl⟩ := List.mem_map.mp hlayer
      exact ((familyLayer_keeps h.rules_lt group).mp hkeeps).1
    · obtain ⟨set, _, rfl⟩ := List.mem_map.mp hlayer
      exact ((conjunctionLayer_keeps h.rules_lt _ _ _).mp hkeeps).1
  · obtain ⟨r, _, hlayer⟩ := List.mem_filterMap.mp hlayer
    unfold remainderLayer at hlayer
    split_ifs at hlayer
    cases hlayer
    exact ((conjunctionLayer_keeps h.rules_lt _ _ _).mp hkeeps).1

theorem Planned.getLsbD_layer (h : Planned members plan) (harms : arms.Perm plan.arms) {layer : Layer}
    (hlayer : layer ∈ plan.layers) :
    (plan.filterVector (plan.scan qs hs arms) layer).getLsbD i = layer.keeps qs hs i := by
  obtain ⟨htoks, hnegs⟩ := h.layer_bits hlayer
  rw [getLsbD_filterVector, h.holds_scan harms htoks hnegs]
  change (decide (i < plan.width) && layer.keeps qs hs i) = layer.keeps qs hs i
  cases hkeeps : layer.keeps qs hs i with
  | false => simp
  | true =>
    have hi : i < plan.width := Nat.lt_of_lt_of_le (h.lt_of_keeps hlayer hkeeps) h.rules_le
    simp [hi]

/-- The activation holds the candidates that every layer keeps. -/
theorem Planned.getLsbD_activation (h : Planned members plan) (harms : arms.Perm plan.arms) :
    (plan.activation (plan.scan qs hs arms)).getLsbD i = true ↔
      i < plan.rules.length ∧ (plan.scan qs hs arms).getLsbD i = true ∧
        ∀ layer ∈ plan.layers, layer.keeps qs hs i = true := by
  have hle : plan.rules.length ≤ plan.width := h.rules_le
  unfold GroupPlan.activation
  split
  · next hempty =>
    rw [List.isEmpty_iff] at hempty
    simp only [BitVec.getLsbD_and, BitVec.getLsbD_ushiftRight, BitVec.getLsbD_allOnes, Bool.and_eq_true,
      decide_eq_true_eq, hempty, List.not_mem_nil, false_implies, implies_true, and_true]
    constructor
    · rintro ⟨hbit, hi⟩
      exact ⟨by omega, hbit⟩
    · rintro ⟨hi, hbit⟩
      exact ⟨hbit, by omega⟩
  · next hempty =>
    have hne : plan.layers ≠ [] := fun hnil => hempty (by simp [hnil])
    rw [getLsbD_foldl_and, Bool.and_eq_true, List.all_eq_true]
    constructor
    · rintro ⟨hbit, hlayers⟩
      have hkeeps : ∀ layer ∈ plan.layers, layer.keeps qs hs i = true := by
        intro layer hlayer
        rw [← h.getLsbD_layer harms hlayer]
        exact hlayers layer hlayer
      obtain ⟨layer, hlayer⟩ := List.exists_mem_of_ne_nil _ hne
      exact ⟨h.lt_of_keeps hlayer (hkeeps layer hlayer), hbit, hkeeps⟩
    · rintro ⟨_, hbit, hkeeps⟩
      refine ⟨hbit, ?_⟩
      intro layer hlayer
      rw [h.getLsbD_layer harms hlayer]
      exact hkeeps layer hlayer

/-- The bit of a rule is set exactly when its condition holds. -/
theorem Planned.getLsbD_activation_rule (h : Planned members plan) (harms : arms.Perm plan.arms)
    (hrule : plan.rules[i]? = some rule) :
    (plan.activation (plan.scan qs hs arms)).getLsbD i = ruleCondition qs hs rule := by
  have hi : i < plan.rules.length := (List.getElem?_eq_some_iff.mp hrule).1
  rw [Bool.eq_iff_iff, h.getLsbD_activation harms, h.getLsbD_scan_rule harms hrule,
    ruleCondition_iff plan.rules (h.shaped rule (List.mem_of_getElem? hrule)), and_iff_right hi,
    h.layers_eq]
  simp only [buildLayers, List.forall_mem_append, familyLayers_keep h.rules_lt hi hrule,
    sharedLayers_keep h.rules_lt hi hrule, remainderLayers_keep h.rules_lt hi hrule, and_assoc]

end Vectors

/-- For every group that a plan is built for, the emitted dispatcher sets the bit of a rule exactly
when the condition of the rule holds and no bit above the rules, and so it chooses the first rule
of the chain, or the fallback. -/
theorem GroupPlan.dispatch_eq_firstMatch {group : List Route} {plan : GroupPlan}
    (h : GroupPlan.build group = some plan)
    (hapart : UntaggedApart (group.filter fun r => !r.isMinio)) {arms : List Arm}
    (harms : arms.Perm plan.arms) (qs : Option OrderedQs) (hs : HeaderMap) :
    (∀ i (hi : i < plan.rules.length), (plan.activation (plan.scan qs hs arms)).getLsbD i =
        ruleCondition qs hs (plan.rules.get ⟨i, hi⟩)) ∧
      (∀ i, plan.rules.length ≤ i → (plan.activation (plan.scan qs hs arms)).getLsbD i = false) ∧
      plan.dispatch qs hs arms = some (plan.firstMatch qs hs) := by
  obtain ⟨members, hplanned⟩ := GroupPlan.build_planned h hapart
  have hbits : ∀ i (hi : i < plan.rules.length), (plan.activation (plan.scan qs hs arms)).getLsbD i =
      ruleCondition qs hs (plan.rules.get ⟨i, hi⟩) := fun i hi =>
    hplanned.getLsbD_activation_rule harms (List.getElem?_eq_getElem hi)
  have hrest : ∀ i, plan.rules.length ≤ i →
      (plan.activation (plan.scan qs hs arms)).getLsbD i = false := by
    intro i hi
    rw [← Bool.not_eq_true, hplanned.getLsbD_activation harms]
    intro hbit
    exact Nat.not_lt_of_le hi hbit.1
  refine ⟨hbits, hrest, ?_⟩
  obtain ⟨hzero, hset⟩ := find?_eq_trailingZeros hbits hrest
  unfold GroupPlan.dispatch GroupPlan.firstMatch
  by_cases hact : plan.activation (plan.scan qs hs arms) = BitVec.ofNat plan.width 0
  · simp [hact, hzero hact]
  · obtain ⟨rule, hget, hfind⟩ := hset hact
    simp [hact, hget, hfind]

/-- Some routes of objects: a family, a tag, and conjunctions that share tokens. -/
def objectRoutes : List Route := [
  ⟨ascii "GetObjectAnnotation", false, some (ascii "annotation"), [], none, [],
    [ascii "annotationName"]⟩,
  ⟨ascii "ListObjectAnnotations", false, some (ascii "annotation"), [], none, [], []⟩,
  ⟨ascii "PutObjectAcl", false, some (ascii "acl"), [], none, [], []⟩,
  ⟨ascii "UploadPartCopy", false, none, [], none, [ascii "x-amz-copy-source"],
    [ascii "partNumber", ascii "uploadId"]⟩,
  ⟨ascii "UploadPart", false, none, [], none, [], [ascii "partNumber", ascii "uploadId"]⟩,
  ⟨ascii "CopyObject", false, none, [], none, [ascii "x-amz-copy-source"], []⟩,
  ⟨ascii "PutObject", false, none, [], none, [], []⟩]

/-- The query `partNumber=1&uploadId=u`. -/
def partQuery : OrderedQs :=
  .ofPairs [(ascii "partNumber", ascii "1"), (ascii "uploadId", ascii "u")]

theorem dispatch_eq_firstMatch_part :
    UntaggedApart (objectRoutes.filter fun r => !r.isMinio) ∧
      ∃ plan, GroupPlan.build objectRoutes = some plan ∧
        plan.dispatch (some partQuery) ⟨[], by simp⟩ plan.arms = some (.op (ascii "UploadPart")) := by
  have hapart : UntaggedApart (objectRoutes.filter fun r => !r.isMinio) := by decide +kernel
  have hbuild : (GroupPlan.build objectRoutes).isSome = true := by decide +kernel
  obtain ⟨plan, hplan⟩ := Option.isSome_iff_exists.mp hbuild
  have hfirst : ((GroupPlan.build objectRoutes).map fun plan =>
      plan.firstMatch (some partQuery) ⟨[], by simp⟩) = some (.op (ascii "UploadPart")) := by
    decide +kernel
  rw [hplan, Option.map_some, Option.some.injEq] at hfirst
  refine ⟨hapart, plan, hplan, ?_⟩
  rw [(GroupPlan.dispatch_eq_firstMatch hplan hapart (List.Perm.refl _) (some partQuery) ⟨[], by simp⟩).2.2,
    hfirst]

end S3s.Routing.Fvr
