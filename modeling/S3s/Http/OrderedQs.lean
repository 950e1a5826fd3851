import S3s.Library.Sorted
import S3s.SigV4.CanonicalRequest

/-! # Ordered query strings

The pairs of a query in ascending order of their names. Pairs with the same name
keep the order of the request, and every lookup is one in a sorted list.
-/
namespace S3s.Http
open Sorted

theorem bytes_isOrder : IsOrder Bytes.le where
  total := Bytes.le_total
  trans _ _ _ := Bytes.le_trans
  antisymm _ _ := Bytes.le_antisymm

/-- `str::cmp` -/
def strCmp (s t : Bytes) : Ordering := if s = t then .eq else if Bytes.le s t then .lt else .gt

/-- `OrderedQs` -/
structure OrderedQs where
  qs : List (Bytes × Bytes)
  ascending : Ascending Bytes.le qs

/-- `QsLookup` -/
inductive QsLookup where
  | absent
  | single (value : Bytes)
  | duplicate
deriving DecidableEq

namespace OrderedQs

/-- The sort that `parse` ends with. -/
def ofPairs (v : List (Bytes × Bytes)) : OrderedQs where
  qs := SigV4.stableSortByFirst v
  ascending := ascending_insertionSort bytes_isOrder v

/-- `OrderedQs::parse`, with the decoder of the pairs. -/
def parse (fromStr : Bytes → Option (List (Bytes × Bytes))) (query : Bytes) : Option OrderedQs :=
  (fromStr query).map ofPairs

/-- A query without pairs, `OrderedQs::default`. -/
def empty : OrderedQs := ⟨[], .nil⟩

variable (q : OrderedQs)

/-- `OrderedQs::has` -/
def has (name : Bytes) : Bool := (BinarySearch.binarySearchBy (fun x => strCmp x.1 name) q.qs).isOk

/-- `OrderedQs::get_all`: the entries between the two bounds. -/
def getAll (name : Bytes) : List Bytes :=
  let lowerBound := BinarySearch.partitionPoint (fun x => !Bytes.le name x.1) q.qs
  let upperBound := BinarySearch.partitionPoint (fun x => Bytes.le x.1 name) q.qs
  if lowerBound ≤ upperBound ∧ upperBound ≤ q.qs.length then
    ((q.qs.drop lowerBound).take (upperBound - lowerBound)).map Prod.snd
  else []

/-- `OrderedQs::get_unique` -/
def getUnique (name : Bytes) : Option Bytes := lookupUnique Bytes.le q.qs name

/-- `OrderedQs::lookup` -/
def lookup (name : Bytes) : QsLookup :=
  match q.qs.filter fun x => x.1 == name with
  | [] => .absent
  | [x] => .single x.2
  | _ :: _ :: _ => .duplicate

theorem beq_name_eq (name : Bytes) :
    (fun x : Bytes × Bytes => x.1 == name) = fun x => decide (x.1 = name) := by
  funext x
  by_cases h : x.1 = name <;> simp [h]

/-- The names are in the order that they are searched in. -/
theorem inOrder (name : Bytes) : BinarySearch.InOrder (fun x => strCmp x.1 name) q.qs := by
  refine q.ascending.imp fun {x y} hxy => ?_
  have hrefl (s : Bytes) : Bytes.le s s = true := (Bytes.le_total s s).elim id id
  constructor
  · intro hy
    have hbelow : y.1 ≠ name ∧ Bytes.le y.1 name = true := by
      simp only [strCmp] at hy
      split_ifs at hy with hsame hle
      exact ⟨hsame, hle⟩
    have hx : x.1 ≠ name := by
      intro hname
      exact hbelow.1 (Bytes.le_antisymm hbelow.2 (hname ▸ hxy))
    simp [strCmp, hx, Bytes.le_trans hxy hbelow.2]
  · intro hx
    have habove : x.1 ≠ name ∧ ¬Bytes.le x.1 name = true := by
      simp only [strCmp] at hx
      split_ifs at hx with hsame hle
      exact ⟨hsame, hle⟩
    have hy : ¬Bytes.le y.1 name = true := fun h => habove.2 (Bytes.le_trans hxy h)
    have hne : y.1 ≠ name := by
      intro hname
      rw [hname, hrefl] at hy
      exact hy rfl
    simp [strCmp, hne, hy]

theorem has_iff_any (name : Bytes) : q.has name = q.qs.any fun x => x.1 == name := by
  rw [Bool.eq_iff_iff, has, BinarySearch.binarySearchBy_isOk (q.inOrder name), List.any_eq_true]
  have heq (s : Bytes) : strCmp s name = .eq ↔ (s == name) = true := by
    rw [beq_iff_eq, strCmp]
    constructor
    · intro h
      split_ifs at h with hsame
      exact hsame
    · intro h
      rw [if_pos h]
  simp only [heq]

theorem has_iff (name : Bytes) : q.has name = true ↔ ∃ x ∈ q.qs, x.1 = name := by
  rw [has_iff_any, List.any_eq_true]
  simp only [beq_iff_eq]

theorem has_eq (name : Bytes) : q.has name = !(valuesOf q.qs name).isEmpty := by
  rw [has_iff_any, beq_name_eq, any_key_eq]

theorem getAll_eq (name : Bytes) : q.getAll name = valuesOf q.qs name := by
  have hlower := pairwise_below bytes_isOrder q.ascending name
  have hupper := pairwise_upTo bytes_isOrder q.ascending name
  rw [getAll, BinarySearch.partitionPoint_eq hlower, BinarySearch.partitionPoint_eq hupper]
  obtain ⟨between, hbetween⟩ := takeWhile_lower_prefix bytes_isOrder q.qs name
  have hlength := congrArg List.length hbetween
  rw [List.length_append] at hlength
  have hbounds : (q.qs.takeWhile fun x => !Bytes.le name x.1).length ≤
      (q.qs.takeWhile fun x => Bytes.le x.1 name).length ∧
        (q.qs.takeWhile fun x => Bytes.le x.1 name).length ≤ q.qs.length :=
    ⟨by omega, (List.takeWhile_prefix _).length_le⟩
  rw [if_pos hbounds, ← valuesBetween_eq bytes_isOrder q.ascending name]
  have htake : q.qs.take (q.qs.takeWhile fun x => Bytes.le x.1 name).length =
      q.qs.takeWhile fun x => Bytes.le x.1 name := by
    rw [← BinarySearch.partitionPoint_eq hupper, BinarySearch.take_partitionPoint hupper]
  rw [← List.drop_take, htake, drop_takeWhile_upper bytes_isOrder q.qs name]

theorem getUnique_eq (name : Bytes) : q.getUnique name = match valuesOf q.qs name with
    | [v] => some v
    | _ => none := by
  rw [getUnique, lookupUnique_eq bytes_isOrder q.ascending]
  cases valuesOf q.qs name with
  | nil => rfl
  | cons v vs => cases vs <;> rfl

theorem lookup_eq (name : Bytes) : q.lookup name = match valuesOf q.qs name with
    | [] => .absent
    | [v] => .single v
    | _ :: _ :: _ => .duplicate := by
  rw [lookup, beq_name_eq, valuesOf]
  cases q.qs.filter fun x => decide (x.1 = name) with
  | nil => rfl
  | cons x l => cases l <;> rfl

end OrderedQs

/-- A name stands in both queries for the same values, in any order. -/
def SameValues (q q' : OrderedQs) (name : Bytes) : Prop :=
  (valuesOf q.qs name).Perm (valuesOf q'.qs name)

namespace SameValues

variable {q q' : OrderedQs} {name : Bytes}

theorem has_eq (h : SameValues q q' name) : q.has name = q'.has name := by
  rw [q.has_eq, q'.has_eq, h.isEmpty_eq]

theorem lookup_eq (h : SameValues q q' name) : q.lookup name = q'.lookup name := by
  rw [q.lookup_eq, q'.lookup_eq]
  unfold SameValues at h
  generalize valuesOf q.qs name = vs at h ⊢
  generalize valuesOf q'.qs name = vs' at h ⊢
  match vs, vs', h with
  | [], vs', h => rw [List.nil_perm.mp h]
  | [v], vs', h => rw [List.singleton_perm.mp h]
  | _ :: _ :: _, [], h => cases h.length_eq
  | _ :: _ :: _, [_], h => cases h.length_eq
  | _ :: _ :: _, _ :: _ :: _, _ => rfl

theorem getUnique_eq_of_lookup (h : q.lookup name = q'.lookup name) :
    q.getUnique name = q'.getUnique name := by
  have hunique : ∀ q : OrderedQs, q.getUnique name = match q.lookup name with
      | .single v => some v
      | _ => none := by
    intro q
    rw [q.getUnique_eq, q.lookup_eq]
    cases valuesOf q.qs name with
    | nil => rfl
    | cons v vs => cases vs <;> rfl
  rw [hunique, hunique, h]

end SameValues

end S3s.Http
