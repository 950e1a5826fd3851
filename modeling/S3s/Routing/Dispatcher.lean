import S3s.Routing.Plan

/-! # The dispatcher of a route group

What the generator emits for a plan: the scan of a request into a vector of bits, the layers
that filter it, and the choice of the lowest bit that is left. It chooses the first rule of the
group whose condition holds.
-/
namespace S3s.Routing.Fvr
open Grouping BitMask Http

section Emitted

variable (qs : Option OrderedQs) (hs : HeaderMap)

/-- Whether a request has a feature: a name in its query, a value that stands alone under its name,
or a header. -/
def present : Token → Bool
  | .key k => qs.any fun q => q.has k
  | .pat k v => qs.any fun q => q.getUnique k == some v
  | .hdr h => containsKey hs h

/-- `rule_condition` -/
def ruleCondition (rule : Rule) : Bool :=
  (rule.keys.all fun k => present qs hs (.key k)) &&
    (rule.negKeys.all fun k => !present qs hs (.key k)) &&
    (rule.patterns.all fun p => present qs hs (.pat p.1 p.2)) &&
    rule.headers.all fun h => present qs hs (.hdr h)

/-- The width of the vectors. -/
def GroupPlan.width (plan : GroupPlan) : Nat := plan.ty.bits

variable (plan : GroupPlan)

/-- The constant of a feature. -/
def GroupPlan.const (tok : Token) : BitVec plan.width :=
  match plan.bits.lookup tok with
  | some bit => BitVec.twoPow plan.width bit
  | none => 0

/-- The constants of some features together. -/
def GroupPlan.consts (toks : List Token) : BitVec plan.width :=
  toks.foldl (fun m tok => m ||| plan.const tok) (BitVec.ofNat plan.width 0)

/-- What an arm of the scan sets. -/
def GroupPlan.armBits (arm : Arm) : BitVec plan.width :=
  ofIdxs plan.width arm.ruleBits |||
    if arm.feature then plan.const arm.token else BitVec.ofNat plan.width 0

/-- `v_hdr` -/
def GroupPlan.vHdr (arms : List Arm) : BitVec plan.width :=
  arms.foldl (fun v arm =>
    match arm.token with
    | .hdr h => if containsKey hs h then v ||| plan.armBits arm else v
    | _ => v) (BitVec.ofNat plan.width 0)

/-- `v_key`: each name of the query is matched against the arms. -/
def GroupPlan.vKey (arms : List Arm) : BitVec plan.width :=
  match qs with
  | none => BitVec.ofNat plan.width 0
  | some q =>
    q.qs.foldl (fun v pair =>
      match arms.find? fun arm => arm.token = .key pair.1 with
      | some arm => v ||| plan.armBits arm
      | none => v) (BitVec.ofNat plan.width 0)

/-- `v_pat` -/
def GroupPlan.vPat (arms : List Arm) : BitVec plan.width :=
  match qs with
  | none => BitVec.ofNat plan.width 0
  | some q =>
    arms.foldl (fun v arm =>
      match arm.token with
      | .pat k value => if q.getUnique k == some value then v ||| plan.armBits arm else v
      | _ => v) (BitVec.ofNat plan.width 0)

/-- `v0`, of the arms in the order they are emitted in. -/
def GroupPlan.scan (arms : List Arm) : BitVec plan.width :=
  plan.vKey qs arms ||| plan.vPat qs arms ||| plan.vHdr hs arms

/-- The predicate of a layer. -/
def GroupPlan.holds (v0 : BitVec plan.width) (sel : Sel) : Bool :=
  (match sel.toks with
    | [] => true
    | [tok] => v0 &&& plan.const tok != BitVec.ofNat plan.width 0
    | toks => v0 &&& plan.consts toks == plan.consts toks) &&
  (sel.negs.isEmpty || v0 &&& plan.consts sel.negs == BitVec.ofNat plan.width 0)

/-- The vector of a layer: `KEEP_XOR & sel ^ KEEP_BASE`. -/
def GroupPlan.filterVector (v0 : BitVec plan.width) (layer : Layer) : BitVec plan.width :=
  let sel := -BitVec.ofNat plan.width (if plan.holds v0 layer.sel then 1 else 0)
  (layer.keepT ^^^ layer.keepF).setWidth plan.width &&& sel ^^^ layer.keepF.setWidth plan.width

/-- `act` -/
def GroupPlan.activation (v0 : BitVec plan.width) : BitVec plan.width :=
  if plan.layers.isEmpty then
    v0 &&& (BitVec.allOnes plan.width >>> (plan.width - plan.rules.length))
  else plan.layers.foldl (fun act layer => act &&& plan.filterVector v0 layer) v0

/-- What a group resolves to. -/
inductive Resolved where
  | op (name : Bytes)
  | unknownOperation
deriving DecidableEq

/-- `emit_fallback_return` -/
def GroupPlan.fallback : Resolved :=
  match plan.fallbackRoute with
  | some route => .op route.opName
  | none => .unknownOperation

/-- The function of `emit_group`; an index out of `GROUP_OPS` would be a panic. -/
def GroupPlan.dispatch (arms : List Arm) : Option Resolved :=
  let act := plan.activation (plan.scan qs hs arms)
  if act ≠ BitVec.ofNat plan.width 0 then
    (plan.rules[BitMask.trailingZeros act]?).map fun rule => .op rule.opName
  else some plan.fallback

/-- The chain that the dispatcher stands for. -/
def GroupPlan.firstMatch : Resolved :=
  match plan.rules.find? (ruleCondition qs hs) with
  | some rule => .op rule.opName
  | none => plan.fallback

end Emitted

section Scan

variable {qs : Option OrderedQs} {hs : HeaderMap} {plan : GroupPlan} {arms : List Arm}

theorem getLsbD_const (tok : Token) (j : Nat) :
    (plan.const tok).getLsbD j = true ↔ j < plan.width ∧ plan.bits.lookup tok = some j := by
  unfold GroupPlan.const
  cases hbit : plan.bits.lookup tok with
  | none => simp
  | some bit =>
    simp only [BitVec.getLsbD_twoPow, Bool.and_eq_true, decide_eq_true_eq, Option.some.injEq]
    constructor
    · rintro ⟨hlt, rfl⟩
      exact ⟨hlt, rfl⟩
    · rintro ⟨hlt, rfl⟩
      exact ⟨hlt, rfl⟩

/-- What an arm sets. -/
theorem getLsbD_armBits (arm : Arm) (j : Nat) :
    (plan.armBits arm).getLsbD j = true ↔
      j < plan.width ∧
        (j ∈ arm.ruleBits ∨ arm.feature = true ∧ plan.bits.lookup arm.token = some j) := by
  unfold GroupPlan.armBits
  rw [BitVec.getLsbD_or, Bool.or_eq_true, getLsbD_ofIdxs]
  by_cases hfeature : arm.feature = true
  · rw [if_pos hfeature, getLsbD_const]
    simp [hfeature, and_or_left]
  · rw [if_neg hfeature]
    simp [hfeature]

theorem getLsbD_vHdr (j : Nat) :
    (plan.vHdr hs arms).getLsbD j = true ↔
      ∃ arm ∈ arms, (∃ h, arm.token = .hdr h ∧ containsKey hs h = true) ∧
        (plan.armBits arm).getLsbD j = true := by
  have hstep : (fun (v : BitVec plan.width) (arm : Arm) =>
      match arm.token with
      | .hdr h => if containsKey hs h then v ||| plan.armBits arm else v
      | _ => v) = fun v arm => v ||| match arm.token with
      | .hdr h => if containsKey hs h then plan.armBits arm else BitVec.ofNat plan.width 0
      | _ => BitVec.ofNat plan.width 0 := by
    funext v arm
    cases arm.token with
    | key k => simp
    | pat k value => simp
    | hdr h => by_cases hh : containsKey hs h = true <;> simp [hh]
  rw [GroupPlan.vHdr, hstep, getLsbD_foldl_or, BitVec.getLsbD_zero, Bool.false_or, List.any_eq_true]
  apply exists_congr
  intro arm
  apply and_congr_right
  intro _
  cases htoken : arm.token with
  | key k => simp
  | pat k value => simp
  | hdr h => by_cases hh : containsKey hs h = true <;> simp [hh]

theorem getLsbD_vPat (j : Nat) :
    (plan.vPat qs arms).getLsbD j = true ↔
      ∃ arm ∈ arms, (∃ k value, arm.token = .pat k value ∧
        (qs.any fun q => q.getUnique k == some value) = true) ∧
        (plan.armBits arm).getLsbD j = true := by
  cases qs with
  | none => simp [GroupPlan.vPat]
  | some q =>
    have hstep : (fun (v : BitVec plan.width) (arm : Arm) =>
        match arm.token with
        | .pat k value => if q.getUnique k == some value then v ||| plan.armBits arm else v
        | _ => v) = fun v arm => v ||| match arm.token with
        | .pat k value =>
          if q.getUnique k == some value then plan.armBits arm else BitVec.ofNat plan.width 0
        | _ => BitVec.ofNat plan.width 0 := by
      funext v arm
      cases arm.token with
      | key k => simp
      | hdr h => simp
      | pat k value => by_cases hh : (q.getUnique k == some value) = true <;> simp [hh]
    simp only [GroupPlan.vPat]
    rw [hstep, getLsbD_foldl_or, BitVec.getLsbD_zero, Bool.false_or, List.any_eq_true]
    apply exists_congr
    intro arm
    apply and_congr_right
    intro _
    cases htoken : arm.token with
    | key k => simp
    | hdr h => simp
    | pat k value => by_cases hh : q.getUnique k = some value <;> simp [hh]

theorem find?_token (hnodup : (arms.map Arm.token).Nodup) {arm : Arm} (h : arm ∈ arms) :
    (arms.find? fun a => a.token = arm.token) = some arm := by
  induction arms with
  | nil => cases h
  | cons a arms ih =>
    rw [List.map_cons, List.nodup_cons] at hnodup
    rcases List.mem_cons.mp h with rfl | h
    · simp
    · have hne : ¬a.token = arm.token := fun heq => hnodup.1 (heq ▸ List.mem_map_of_mem h)
      simp [hne, ih hnodup.2 h]

theorem getLsbD_vKey (hnodup : (arms.map Arm.token).Nodup) (j : Nat) :
    (plan.vKey qs arms).getLsbD j = true ↔
      ∃ arm ∈ arms, (∃ k, arm.token = .key k ∧ (qs.any fun q => q.has k) = true) ∧
        (plan.armBits arm).getLsbD j = true := by
  cases qs with
  | none => simp [GroupPlan.vKey]
  | some q =>
    have hstep : (fun (v : BitVec plan.width) (pair : Bytes × Bytes) =>
        match arms.find? fun arm => arm.token = .key pair.1 with
        | some arm => v ||| plan.armBits arm
        | none => v) = fun v pair => v ||| match arms.find? fun arm => arm.token = .key pair.1 with
        | some arm => plan.armBits arm
        | none => BitVec.ofNat plan.width 0 := by
      funext v pair
      cases arms.find? fun arm => arm.token = .key pair.1 <;> simp
    simp only [GroupPlan.vKey]
    rw [hstep, getLsbD_foldl_or, BitVec.getLsbD_zero, Bool.false_or, List.any_eq_true]
    constructor
    · rintro ⟨pair, hpair, hbit⟩
      cases hfind : arms.find? fun arm => arm.token = .key pair.1 with
      | none => simp [hfind] at hbit
      | some arm =>
        have htoken : arm.token = .key pair.1 := by simpa using List.find?_some hfind
        refine ⟨arm, List.mem_of_find?_eq_some hfind, ⟨pair.1, htoken, ?_⟩, by simpa [hfind] using hbit⟩
        exact (q.has_iff _).mpr ⟨pair, hpair, rfl⟩
    · rintro ⟨arm, harm, ⟨k, htoken, hhas⟩, hbit⟩
      obtain ⟨pair, hpair, hname⟩ := (q.has_iff _).mp hhas
      refine ⟨pair, hpair, ?_⟩
      have hfind := find?_token hnodup harm
      rw [htoken, ← hname] at hfind
      simpa [hfind] using hbit

/-- The scan sets the bits of the features that the request has. -/
theorem getLsbD_scan (hnodup : (arms.map Arm.token).Nodup) (j : Nat) :
    (plan.scan qs hs arms).getLsbD j = true ↔
      ∃ arm ∈ arms, present qs hs arm.token = true ∧ (plan.armBits arm).getLsbD j = true := by
  rw [GroupPlan.scan, BitVec.getLsbD_or, BitVec.getLsbD_or, Bool.or_eq_true, Bool.or_eq_true,
    getLsbD_vKey hnodup, getLsbD_vPat, getLsbD_vHdr]
  constructor
  · rintro ((⟨arm, harm, ⟨k, htoken, hpresent⟩, hbit⟩ | ⟨arm, harm, ⟨k, v, htoken, hpresent⟩, hbit⟩) |
      ⟨arm, harm, ⟨h, htoken, hpresent⟩, hbit⟩)
    · exact ⟨arm, harm, by rw [htoken]; exact hpresent, hbit⟩
    · exact ⟨arm, harm, by rw [htoken]; exact hpresent, hbit⟩
    · exact ⟨arm, harm, by rw [htoken]; exact hpresent, hbit⟩
  · rintro ⟨arm, harm, hpresent, hbit⟩
    cases htoken : arm.token with
    | key k =>
      rw [htoken] at hpresent
      exact .inl (.inl ⟨arm, harm, ⟨k, htoken, hpresent⟩, hbit⟩)
    | pat k v =>
      rw [htoken] at hpresent
      exact .inl (.inr ⟨arm, harm, ⟨k, v, htoken, hpresent⟩, hbit⟩)
    | hdr h =>
      rw [htoken] at hpresent
      exact .inr ⟨arm, harm, ⟨h, htoken, hpresent⟩, hbit⟩

end Scan

end S3s.Routing.Fvr
