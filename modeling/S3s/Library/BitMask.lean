import Mathlib.Data.List.Basic
import Mathlib.Order.Basic
import Mathlib.Tactic.Common

/-! # Masks of bits

Words of a fixed width as sets of bits: masks made of indexes, what it means to select under a
mask, and the lowest bit that is set.
-/
namespace S3s.BitMask

variable {α : Type} {w : Nat}

/-- The mask of some indexes. -/
def ofIdxs (w : Nat) (idxs : List Nat) : BitVec w :=
  idxs.foldl (fun m i => m ||| BitVec.twoPow w i) 0#w

/-- The lowest bits. -/
def low (w n : Nat) : BitVec w := BitVec.twoPow w n - 1#w

/-- `trailing_zeros` -/
def trailingZeros (v : BitVec w) : Nat := (List.range w).findIdx v.getLsbD

theorem getLsbD_foldl_or (f : α → BitVec w) (l : List α) (m : BitVec w) (j : Nat) :
    (l.foldl (fun m a => m ||| f a) m).getLsbD j = (m.getLsbD j || l.any fun a => (f a).getLsbD j) := by
  induction l generalizing m with
  | nil => simp
  | cons a l ih => rw [List.foldl_cons, ih, BitVec.getLsbD_or, List.any_cons, Bool.or_assoc]

theorem getLsbD_foldl_and (f : α → BitVec w) (l : List α) (m : BitVec w) (j : Nat) :
    (l.foldl (fun m a => m &&& f a) m).getLsbD j = (m.getLsbD j && l.all fun a => (f a).getLsbD j) := by
  induction l generalizing m with
  | nil => simp
  | cons a l ih => rw [List.foldl_cons, ih, BitVec.getLsbD_and, List.all_cons, Bool.and_assoc]

theorem getLsbD_ofIdxs (idxs : List Nat) (j : Nat) :
    (ofIdxs w idxs).getLsbD j = (decide (j < w) && decide (j ∈ idxs)) := by
  rw [ofIdxs, getLsbD_foldl_or, Bool.eq_iff_iff]
  simp only [BitVec.getLsbD_zero, Bool.false_or, List.any_eq_true, BitVec.getLsbD_twoPow,
    Bool.and_eq_true, decide_eq_true_eq]
  constructor
  · rintro ⟨i, hi, hw, rfl⟩
    exact ⟨hw, hi⟩
  · rintro ⟨hw, hj⟩
    exact ⟨j, hj, hw, rfl⟩

theorem getLsbD_low {n : Nat} (h : n < w) (j : Nat) : (low w n).getLsbD j = decide (j < n) := by
  have hpow : 2 ^ n < 2 ^ w := Nat.pow_lt_pow_right (by decide) h
  have hone : 1 ≤ 2 ^ n := Nat.one_le_two_pow
  have hval : (low w n).toNat = 2 ^ n - 1 := by
    have hle : (1#w).toNat ≤ (BitVec.twoPow w n).toNat := by
      rw [BitVec.toNat_twoPow, Nat.mod_eq_of_lt hpow]
      simp only [BitVec.toNat_ofNat]
      exact Nat.le_trans (Nat.mod_le _ _) hone
    rw [low, BitVec.toNat_sub_of_le (BitVec.le_def.mpr hle), BitVec.toNat_twoPow, Nat.mod_eq_of_lt hpow,
      BitVec.toNat_ofNat, Nat.mod_eq_of_lt (by omega)]
  rw [BitVec.getLsbD, hval, Nat.testBit_two_pow_sub_one]

/-- All bits of a mask are set. -/
theorem and_eq_mask_iff {v m : BitVec w} :
    v &&& m = m ↔ ∀ j, m.getLsbD j = true → v.getLsbD j = true := by
  constructor
  · intro h j hj
    rw [← h, BitVec.getLsbD_and, Bool.and_eq_true] at hj
    exact hj.1
  · intro h
    apply BitVec.eq_of_getLsbD_eq
    intro j _
    rw [BitVec.getLsbD_and]
    cases hm : m.getLsbD j with
    | false => simp
    | true => simp [h j hm]

/-- No bit of a mask is set. -/
theorem and_eq_zero_iff {v m : BitVec w} :
    v &&& m = 0#w ↔ ∀ j, m.getLsbD j = true → v.getLsbD j = false := by
  constructor
  · intro h j hj
    have hbit := congrArg (fun x => BitVec.getLsbD x j) h
    simpa [BitVec.getLsbD_and, hj] using hbit
  · intro h
    apply BitVec.eq_of_getLsbD_eq
    intro j _
    rw [BitVec.getLsbD_and]
    cases hm : m.getLsbD j with
    | false => simp
    | true => simp [h j hm]

/-- A word that stands for a list, bit by bit, selects its first item with the property. -/
theorem find?_eq_trailingZeros {p : α → Bool} {l : List α} {v : BitVec w}
    (hbits : ∀ i (hi : i < l.length), v.getLsbD i = p (l.get ⟨i, hi⟩))
    (hrest : ∀ i, l.length ≤ i → v.getLsbD i = false) :
    (v = 0#w → l.find? p = none) ∧
      (v ≠ 0#w → ∃ a, l[trailingZeros v]? = some a ∧ l.find? p = some a) := by
  constructor
  · rintro rfl
    rw [List.find?_eq_none]
    intro a ha
    obtain ⟨⟨i, hi⟩, rfl⟩ := List.get_of_mem ha
    rw [← hbits i hi]
    simp
  · intro hne
    have hex : ∃ i ∈ List.range w, v.getLsbD i = true := by
      by_contra hnone
      apply hne
      apply BitVec.eq_of_getLsbD_eq
      intro i hi
      have hbit := fun h => hnone ⟨i, List.mem_range.mpr hi, h⟩
      simpa using hbit
    have hlt : trailingZeros v < (List.range w).length := List.findIdx_lt_length.mpr hex
    have hset : v.getLsbD (trailingZeros v) = true := by
      have hget : v.getLsbD (List.range w)[trailingZeros v] = true := List.findIdx_getElem
      rwa [List.getElem_range] at hget
    have hin : trailingZeros v < l.length := by
      by_contra hout
      rw [hrest _ (Nat.le_of_not_lt hout)] at hset
      cases hset
    refine ⟨l[trailingZeros v], List.getElem?_eq_getElem hin, ?_⟩
    rw [List.find?_eq_some_iff_getElem]
    refine ⟨by rw [← hset]; exact (hbits _ hin).symm, trailingZeros v, hin, rfl, ?_⟩
    intro j hj
    have hnot := List.not_of_lt_findIdx hj
    have hbit : v.getLsbD j = p l[j] := hbits j (Nat.lt_trans hj hin)
    rw [List.getElem_range] at hnot
    simpa [hbit] using hnot

end S3s.BitMask
