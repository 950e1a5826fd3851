import S3s.Library.BitMask
import S3s.Library.Grouping
import S3s.Routing.Router

/-! # Plans of route groups

The generator of the router turns the routes of a group into rules, each a conjunction of
features, and plans a dispatcher for them: which bits a feature sets, and the layers of masks
that clear the bits of the rules whose other conditions fail.
-/
namespace S3s.Routing.Fvr
open Grouping BitMask

/-- `Route`, with what is read of its operation. -/
structure Route where
  opName : Bytes
  isMinio : Bool
  queryTag : Option Bytes
  queryPatterns : List (Bytes × Bytes)
  xId : Option Bytes
  requiredHeaders : List Bytes
  requiredQueryStrings : List Bytes

/-- `RuleKind` -/
inductive RuleKind where
  | single
  | family
  | misc
deriving DecidableEq

/-- `Rule` -/
structure Rule where
  opName : Bytes
  keys : List Bytes
  negKeys : List Bytes
  patterns : List (Bytes × Bytes)
  headers : List Bytes
  kind : RuleKind
deriving DecidableEq

/-- `Token` -/
inductive Token where
  | key (k : Bytes)
  | pat (k v : Bytes)
  | hdr (h : Bytes)
deriving DecidableEq

/-- `Rule::tokens` -/
def Rule.tokens (rule : Rule) : List Token :=
  rule.keys.map .key ++ rule.patterns.map (fun p => .pat p.1 p.2) ++ rule.headers.map .hdr

/-- What the predicate of a layer asks for. -/
structure Sel where
  toks : List Token
  negs : List Token

/-- `Layer` -/
structure Layer where
  sel : Sel
  keepT : BitVec 128
  keepF : BitVec 128

/-- An arm of the scan: the bits of rules, and whether the bit of the feature is among them. -/
structure Arm where
  token : Token
  ruleBits : List Nat
  feature : Bool

/-- The types of masks. -/
inductive MaskType where
  | u8
  | u16
  | u32
  | u64
  | u128

/-- `mask_bits` -/
def MaskType.bits : MaskType → Nat
  | u8 => 8
  | u16 => 16
  | u32 => 32
  | u64 => 64
  | u128 => 128

/-- `GroupPlan`, without the routes of MinIO. The constants of the features are given by their bits. -/
structure GroupPlan where
  rules : List Rule
  fallbackRoute : Option Route
  ty : MaskType
  bits : List (Token × Nat)
  layers : List Layer
  arms : List Arm

section Rules

/-- `is_final` -/
def isFinal (route : Route) : Bool :=
  route.requiredHeaders.isEmpty && route.requiredQueryStrings.isEmpty &&
    route.queryPatterns.isEmpty && route.queryTag.isNone

/-- `shared_tag_members`; it fails when a shared tag has two members. -/
def sharedTagMembers (routes : List Route) : Option (List (Bytes × Bytes)) :=
  let tags := routes.filterMap Route.queryTag
  routes.foldlM (fun members route =>
    match route.queryTag, route.requiredQueryStrings.head? with
    | some tag, some member =>
      if tags.count tag > 1 then
        if (members.lookup tag).isSome then none else some (members ++ [(tag, member)])
      else some members
    | _, _ => some members) []

/-- The rule of a route in `disambiguation_rules`, when it has one. -/
def disambiguationRule (finalCount : Nat) (fallbackOpName : Option Bytes)
    (sharedMembers : List (Bytes × Bytes)) (route : Route) : Option (List Rule) :=
  match route.queryTag, route.queryPatterns with
  | some tag, pattern :: _ =>
    if route.opName = ascii "SelectObjectContent" then
      some [⟨route.opName, [tag], [], [pattern], [], .misc⟩]
    else none
  | some tag, [] =>
    match sharedMembers.lookup tag with
    | some member =>
      if route.requiredQueryStrings.head? = some member then
        some [⟨route.opName, [tag, member], [], [], [], .misc⟩]
      else some [⟨route.opName, [tag], [member], [], [], .misc⟩]
    | none => some [⟨route.opName, [tag], [], [], [], .misc⟩]
  | none, pattern :: _ => some [⟨route.opName, [], [], [pattern], [], .misc⟩]
  | none, [] =>
    match route.xId with
    | some xId =>
      if finalCount > 1 ∧ fallbackOpName ≠ some route.opName then
        some [⟨route.opName, [], [], [(ascii "x-id", xId)], [], .misc⟩]
      else some []
    | none => some []

/-- `disambiguation_rules` -/
def disambiguationRules (routes : List Route) (sharedMembers : List (Bytes × Bytes)) :
    Option (List Rule) :=
  let finalCount := (routes.filter isFinal).length
  let fallbackOpName := (routes.find? isFinal).map Route.opName
  (routes.mapM (disambiguationRule finalCount fallbackOpName sharedMembers)).map List.flatten

/-- The rule of a route in `conjunction_rules`, when it has one. -/
def conjunctionRule (route : Route) : Option Rule :=
  if route.queryTag.isSome || !route.queryPatterns.isEmpty then none
  else if route.requiredQueryStrings.isEmpty && route.requiredHeaders.isEmpty then none
  else some ⟨route.opName, route.requiredQueryStrings, [], [], route.requiredHeaders, .misc⟩

/-- `conjunction_rules` -/
def conjunctionRules (routes : List Route) : List Rule := routes.filterMap conjunctionRule

/-- The test for a family in `classify_rules`. -/
def isFamily (sharedMembers : List (Bytes × Bytes)) (rule : Rule) : Bool :=
  rule.keys.head?.any fun tag =>
    (sharedMembers.lookup tag).any fun member =>
      (rule.keys.length == 2 && rule.keys[1]? == some member) || rule.negKeys.head? == some member

/-- `classify_rules`, of one rule. -/
def classifyRule (sharedMembers : List (Bytes × Bytes)) (rule : Rule) : Rule :=
  { rule with
    kind := if rule.tokens.length = 1 ∧ rule.negKeys = [] then .single
      else if isFamily sharedMembers rule then .family
      else .misc }

end Rules

section Layers

variable (sharedMembers : List (Bytes × Bytes)) (rules : List Rule)

/-- The member of the family of a rule. -/
def memberOf (rule : Rule) : Bytes :=
  (rule.keys.head?.bind fun tag => sharedMembers.lookup tag).getD []

/-- Whether a rule of a family asks for its member. -/
def asksMember (rule : Rule) : Bool :=
  rule.keys.length == 2 && rule.keys[1]? == some (memberOf sharedMembers rule)

/-- The indexes of the rules of a kind. -/
def indexesOf (kind : RuleKind) : List (Rule × Nat) := rules.zipIdx.filter fun r => r.1.kind = kind

/-- The families by their members: those that ask for the member, and those that refuse it. -/
def familyGroups : List (Bytes × List Nat × List Nat) :=
  groupFold (fun r : Rule × Nat => memberOf sharedMembers r.1)
    (fun group r =>
      if asksMember sharedMembers r.1 then (group.1 ++ [r.2], group.2) else (group.1, group.2 ++ [r.2]))
    ([], []) (indexesOf rules .family)

/-- The layer of a family. -/
def familyLayer (low : BitVec 128) (group : Bytes × List Nat × List Nat) : Layer where
  sel := ⟨[.key group.1], []⟩
  keepT := low &&& ~~~ofIdxs 128 group.2.2
  keepF := low &&& ~~~ofIdxs 128 group.2.1

/-- `conjunction_layer` -/
def conjunctionLayer (toks : List Token) (idxs : List Nat) (negs : List Token) (low : BitVec 128) :
    Layer where
  sel := ⟨toks, negs⟩
  keepT := low
  keepF := low &&& ~~~ofIdxs 128 idxs

/-- How often a token stands in the remaining rules. -/
def freq (tok : Token) : Nat := ((indexesOf rules .misc).flatMap fun r => r.1.tokens).count tok

/-- The tokens of a rule that it shares. -/
def sharedTokens (rule : Rule) : List Token := rule.tokens.filter fun t => 2 ≤ freq rules t

/-- The tokens of a rule that no other has. -/
def ownTokens (rule : Rule) : List Token := rule.tokens.filter fun t => freq rules t < 2

/-- The remaining rules by the tokens they share. -/
def sharedSets : List (List Token × List Nat) :=
  groupFold (fun r : Rule × Nat => sharedTokens rules r.1) (fun idxs r => idxs ++ [r.2]) []
    ((indexesOf rules .misc).filter fun r => !(sharedTokens rules r.1).isEmpty)

/-- The layer of what is left of a rule, when something is. -/
def remainderLayer (low : BitVec 128) (r : Rule × Nat) : Option Layer :=
  if (ownTokens rules r.1).isEmpty && r.1.negKeys.isEmpty then none
  else some (conjunctionLayer (ownTokens rules r.1) [r.2] (r.1.negKeys.map .key) low)

/-- `build_layers` -/
def buildLayers (low : BitVec 128) : List Layer × List Token :=
  let families := familyGroups sharedMembers rules
  (families.map (familyLayer low) ++
      (sharedSets rules).map (fun set => conjunctionLayer set.1 set.2 [] low) ++
      (indexesOf rules .misc).filterMap (remainderLayer rules low),
    families.map fun group => .key group.1)

end Layers

section Vectors

/-- A bit for a token that has none. -/
def allocate (state : List (Token × Nat) × Nat) (tok : Token) : List (Token × Nat) × Nat :=
  if (state.1.lookup tok).isSome then state else (state.1 ++ [(tok, state.2)], state.2 + 1)

/-- The tokens that need a bit of their own. -/
def featureTokens (rules : List Rule) (memberTokens : List Token) : List Token :=
  memberTokens ++ (indexesOf rules .misc).flatMap fun r => r.1.tokens ++ r.1.negKeys.map .key

/-- `mask_type` -/
def maskType (bits : Nat) : MaskType :=
  if bits ≤ 8 then .u8
  else if bits ≤ 16 then .u16
  else if bits ≤ 32 then .u32
  else if bits ≤ 64 then .u64
  else .u128

/-- The tokens that make a rule a candidate. -/
def scanTokens (rule : Rule) : List Token :=
  match rule.kind with
  | .single => rule.tokens.take 1
  | .family => (rule.keys.take 1).map .key
  | .misc => rule.tokens

/-- The rules that each token makes candidates. -/
def tokenRuleBits (rules : List Rule) : List (Token × List Nat) :=
  groupFold Prod.fst (fun idxs (p : Token × Nat) => idxs ++ [p.2]) []
    (rules.zipIdx.flatMap fun r => (scanTokens r.1).map fun tok => (tok, r.2))

/-- The arms of the scan. -/
def buildArms (rules : List Rule) (bits : List (Token × Nat)) : List Arm :=
  (tokenRuleBits rules).map (fun e =>
      ⟨e.1, e.2.insertionSort (· ≤ ·), (bits.lookup e.1).isSome⟩) ++
    (bits.filter fun e => !(tokenRuleBits rules).any fun t => t.1 == e.1).map fun e => ⟨e.1, [], true⟩

/-- `build_vectors`: the bits of the features, the arms and the type; it fails without bits enough. -/
def buildVectors (rules : List Rule) (memberTokens : List Token) :
    Option (List (Token × Nat) × List Arm × MaskType) :=
  let (bits, nextBit) := (featureTokens rules memberTokens).foldl allocate ([], rules.length)
  if nextBit ≤ 128 then some (bits, buildArms rules bits, maskType nextBit) else none

end Vectors

/-- The rules of a group, in the order of their bits. -/
def groupRules (routes : List Route) (sharedMembers : List (Bytes × Bytes)) : Option (List Rule) :=
  (disambiguationRules routes sharedMembers).map fun rules =>
    (rules ++ conjunctionRules routes).map (classifyRule sharedMembers)

/-- `GroupPlan::build`; it fails where an assertion does. -/
def GroupPlan.build (group : List Route) : Option GroupPlan := do
  let stdRoutes := group.filter fun r => !r.isMinio
  let sharedMembers ← sharedTagMembers stdRoutes
  let rules ← groupRules stdRoutes sharedMembers
  if rules.length < 128 then
    let (layers, memberTokens) := buildLayers sharedMembers rules (low 128 rules.length)
    let (bits, arms, ty) ← buildVectors rules memberTokens
    some { rules, fallbackRoute := stdRoutes.find? isFinal, ty, bits, layers, arms }
  else none

end S3s.Routing.Fvr
