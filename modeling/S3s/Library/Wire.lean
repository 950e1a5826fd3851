import S3s.Library.Bytes
import Mathlib.Tactic.Ring

/-! # Words and records on a wire

Big-endian words, readers that return what they leave, and records read one after
the other until nothing is left.
-/
namespace S3s.Wire

/-- A word of a number of bytes, the most significant first. -/
def be : Nat → Nat → Bytes
  | 0, _ => []
  | width + 1, n => UInt8.ofNat (n / 256 ^ width) :: be width n

/-- The number of a big-endian word. -/
def ofBe (s : Bytes) : Nat := s.foldl (fun n b => n * 256 + b.toNat) 0

@[simp] theorem be_length (width n : Nat) : (be width n).length = width := by
  induction width with
  | zero => rfl
  | succ width ih => simp [be, ih]

theorem ofBe_cons (b : UInt8) (s : Bytes) : ofBe (b :: s) = b.toNat * 256 ^ s.length + ofBe s := by
  have hfold : ∀ (s : Bytes) (n : Nat),
      s.foldl (fun n b => n * 256 + b.toNat) n = n * 256 ^ s.length + ofBe s := by
    intro s
    induction s with
    | nil => simp [ofBe]
    | cons b s ih =>
      intro n
      simp only [List.foldl_cons, ofBe, List.length_cons, pow_succ]
      rw [ih, ih (0 * 256 + b.toNat)]
      ring
  simp [ofBe, hfold s b.toNat]

theorem ofBe_be_mod (width n : Nat) : ofBe (be width n) = n % 256 ^ width := by
  induction width with
  | zero => simp [be, ofBe, Nat.mod_one]
  | succ width ih =>
    have hbyte : (UInt8.ofNat (n / 256 ^ width)).toNat = n / 256 ^ width % 256 := by
      simp
    rw [be, ofBe_cons, be_length, ih, hbyte, pow_succ, Nat.mod_mul]
    ring

theorem ofBe_be {width n : Nat} (h : n < 256 ^ width) : ofBe (be width n) = n := by
  rw [ofBe_be_mod, Nat.mod_eq_of_lt h]

/-- A reader: what it has read and what it leaves. -/
abbrev Reader (α : Type) := Bytes → Option (α × Bytes)

/-- So many bytes. -/
def readBytes (n : Nat) : Reader Bytes := fun s =>
  if n ≤ s.length then some (s.take n, s.drop n) else none

/-- A word of so many bytes. -/
def readWord (width : Nat) : Reader Nat := fun s => (readBytes width s).map fun r => (ofBe r.1, r.2)

@[simp] theorem readBytes_append (s rest : Bytes) : readBytes s.length (s ++ rest) = some (s, rest) := by
  simp [readBytes]

theorem readWord_be {width n : Nat} (h : n < 256 ^ width) (rest : Bytes) :
    readWord width (be width n ++ rest) = some (n, rest) := by
  have hread : readBytes width (be width n ++ rest) = some (be width n, rest) := by
    have hbytes := readBytes_append (be width n) rest
    rwa [be_length] at hbytes
  rw [readWord, hread, Option.map_some, ofBe_be h]

variable {α : Type}

/-- Records until the input is used up, in at most so many readings. -/
def readMany (read : Reader α) : Nat → Bytes → Option (List α)
  | _, [] => some []
  | 0, _ :: _ => none
  | fuel + 1, b :: s => do
    let (a, rest) ← read (b :: s)
    let l ← readMany read fuel rest
    some (a :: l)

/-- Records until the input is used up. -/
def readAll (read : Reader α) (s : Bytes) : Option (List α) := readMany read s.length s

/-- What is written record by record is read record by record, when the reader takes back the value
of each one from what is written for it, whatever stands behind. -/
theorem readAll_flatMap {β : Type} {read : Reader α} {write : β → Bytes} {value : β → α} {l : List β}
    (hread : ∀ b ∈ l, ∀ rest, read (write b ++ rest) = some (value b, rest))
    (hwrite : ∀ b ∈ l, write b ≠ []) : readAll read (l.flatMap write) = some (l.map value) := by
  have hmany : ∀ fuel, (l.flatMap write).length ≤ fuel →
      readMany read fuel (l.flatMap write) = some (l.map value) := by
    induction l with
    | nil => simp [readMany]
    | cons b l ih =>
      intro fuel hfuel
      obtain ⟨c, s, hs⟩ := List.exists_cons_of_ne_nil (hwrite b List.mem_cons_self)
      have hfirst := hread b List.mem_cons_self (l.flatMap write)
      have hrest := ih (fun b hb => hread b (List.mem_cons_of_mem _ hb))
        (fun b hb => hwrite b (List.mem_cons_of_mem _ hb))
      simp only [List.flatMap_cons, hs, List.cons_append, List.length_cons, List.length_append]
        at hfuel hfirst ⊢
      cases fuel with
      | zero => omega
      | succ fuel => simp [readMany, hfirst, hrest fuel (by omega)]
  exact hmany _ le_rfl

end S3s.Wire
