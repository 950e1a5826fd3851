import S3s.Library.Bytes
import Mathlib.Data.Fintype.Basic

/-! # Base64

The standard alphabet with padding. Three bytes are four symbols of six bits; a last
group of one or two bytes is filled up with `=`. The decoder is strict: it takes no
other length, no other symbol, and no unused bit that is set.
-/
namespace S3s.Base64

/-- The symbol of six bits. -/
def symbol (n : Nat) : UInt8 :=
  if n < 26 then 65 + UInt8.ofNat n
  else if n < 52 then 71 + UInt8.ofNat n
  else if n < 62 then UInt8.ofNat n - 4
  else if n = 62 then 43
  else 47

/-- The six bits of a symbol. -/
def sextet (c : UInt8) : Option Nat :=
  if 65 ≤ c && c ≤ 90 then some (c.toNat - 65)
  else if 97 ≤ c && c ≤ 122 then some (c.toNat - 71)
  else if 48 ≤ c && c ≤ 57 then some (c.toNat + 4)
  else if c == 43 then some 62
  else if c == 47 then some 63
  else none

/-- `STANDARD.encode` -/
def encode : Bytes → Bytes
  | [] => []
  | [a] => [symbol (a.toNat / 4), symbol (a.toNat % 4 * 16), 61, 61]
  | [a, b] =>
    [symbol (a.toNat / 4), symbol (a.toNat % 4 * 16 + b.toNat / 16), symbol (b.toNat % 16 * 4), 61]
  | a :: b :: c :: rest =>
    symbol (a.toNat / 4) :: symbol (a.toNat % 4 * 16 + b.toNat / 16) ::
      symbol (b.toNat % 16 * 4 + c.toNat / 64) :: symbol (c.toNat % 64) :: encode rest

/-- The last group, one byte long. -/
def decodeOne (a b : UInt8) : Option Bytes := do
  let x ← sextet a
  let y ← sextet b
  if y % 16 = 0 then some [UInt8.ofNat (x * 4 + y / 16)] else none

/-- The last group, two bytes long. -/
def decodeTwo (a b c : UInt8) : Option Bytes := do
  let x ← sextet a
  let y ← sextet b
  let z ← sextet c
  if z % 4 = 0 then some [UInt8.ofNat (x * 4 + y / 16), UInt8.ofNat (y % 16 * 16 + z / 4)] else none

/-- A group of three bytes. -/
def decodeThree (a b c d : UInt8) : Option Bytes := do
  let x ← sextet a
  let y ← sextet b
  let z ← sextet c
  let w ← sextet d
  some [UInt8.ofNat (x * 4 + y / 16), UInt8.ofNat (y % 16 * 16 + z / 4), UInt8.ofNat (z % 4 * 64 + w)]

/-- `STANDARD.decode_to_vec` -/
def decode : Bytes → Option Bytes
  | [] => some []
  | a :: b :: c :: d :: rest =>
    if rest = [] ∧ d = 61 then if c = 61 then decodeOne a b else decodeTwo a b c
    else do
      let group ← decodeThree a b c d
      let bytes ← decode rest
      some (group ++ bytes)
  | _ => none

/-- `STANDARD.check` -/
def check (s : Bytes) : Bool := (decode s).isSome

theorem symbol_spec {n : Nat} (h : n < 64) :
    sextet (symbol n) = some n ∧ symbol n ≠ 61 := by
  have hall : ∀ n : Fin 64, sextet (symbol n) = some n.val ∧ symbol n ≠ 61 := by decide
  exact hall ⟨n, h⟩

theorem decodeOne_symbols (a : UInt8) :
    decodeOne (symbol (a.toNat / 4)) (symbol (a.toNat % 4 * 16)) = some [a] := by
  have ha := a.toNat_lt
  rw [decodeOne, (symbol_spec (by omega)).1, (symbol_spec (by omega)).1]
  have hzero : a.toNat % 4 * 16 % 16 = 0 := by omega
  have hbyte : a.toNat / 4 * 4 + a.toNat % 4 * 16 / 16 = a.toNat := by omega
  simp only [Option.bind_eq_bind, Option.bind_some, hzero, if_true, hbyte, UInt8.ofNat_toNat]

theorem decodeTwo_symbols (a b : UInt8) :
    decodeTwo (symbol (a.toNat / 4)) (symbol (a.toNat % 4 * 16 + b.toNat / 16))
      (symbol (b.toNat % 16 * 4)) = some [a, b] := by
  have ha := a.toNat_lt
  have hb := b.toNat_lt
  rw [decodeTwo, (symbol_spec (by omega)).1, (symbol_spec (by omega)).1, (symbol_spec (by omega)).1]
  have hzero : b.toNat % 16 * 4 % 4 = 0 := by omega
  have hfirst : a.toNat / 4 * 4 + (a.toNat % 4 * 16 + b.toNat / 16) / 16 = a.toNat := by omega
  have hsecond : (a.toNat % 4 * 16 + b.toNat / 16) % 16 * 16 + b.toNat % 16 * 4 / 4 = b.toNat := by
    omega
  simp only [Option.bind_eq_bind, Option.bind_some, hzero, if_true, hfirst, hsecond,
    UInt8.ofNat_toNat]

theorem decodeThree_symbols (a b c : UInt8) :
    decodeThree (symbol (a.toNat / 4)) (symbol (a.toNat % 4 * 16 + b.toNat / 16))
      (symbol (b.toNat % 16 * 4 + c.toNat / 64)) (symbol (c.toNat % 64)) = some [a, b, c] := by
  have ha := a.toNat_lt
  have hb := b.toNat_lt
  have hc := c.toNat_lt
  rw [decodeThree, (symbol_spec (by omega)).1, (symbol_spec (by omega)).1,
    (symbol_spec (by omega)).1, (symbol_spec (by omega)).1]
  have hfirst : a.toNat / 4 * 4 + (a.toNat % 4 * 16 + b.toNat / 16) / 16 = a.toNat := by omega
  have hsecond : (a.toNat % 4 * 16 + b.toNat / 16) % 16 * 16 +
      (b.toNat % 16 * 4 + c.toNat / 64) / 4 = b.toNat := by omega
  have hthird : (b.toNat % 16 * 4 + c.toNat / 64) % 4 * 64 + c.toNat % 64 = c.toNat := by omega
  simp only [Option.bind_eq_bind, Option.bind_some, hfirst, hsecond, hthird, UInt8.ofNat_toNat]

/-- What is encoded is decoded. -/
theorem decode_encode (s : Bytes) : decode (encode s) = some s := by
  fun_induction encode s with
  | case1 => rfl
  | case2 a => simp [decode, decodeOne_symbols]
  | case3 a b =>
    have hb := b.toNat_lt
    have hne := (symbol_spec (n := b.toNat % 16 * 4) (by omega)).2
    simp [decode, decodeTwo_symbols, hne]
  | case4 a b c rest ih =>
    have hne := (symbol_spec (n := c.toNat % 64) (by omega)).2
    simp [decode, decodeThree_symbols, hne, ih]

/-- Every symbol of an encoded text is one of the alphabet, or the padding. -/
theorem mem_encode {s : Bytes} {c : UInt8} (h : c ∈ encode s) :
    c = 61 ∨ ∃ n < 64, c = symbol n := by
  fun_induction encode s with
  | case1 => cases h
  | case2 a =>
    have ha := a.toNat_lt
    simp only [List.mem_cons, List.not_mem_nil, or_false] at h
    rcases h with rfl | rfl | rfl | rfl
    · exact Or.inr ⟨_, by omega, rfl⟩
    · exact Or.inr ⟨_, by omega, rfl⟩
    · exact Or.inl rfl
    · exact Or.inl rfl
  | case3 a b =>
    have ha := a.toNat_lt
    have hb := b.toNat_lt
    simp only [List.mem_cons, List.not_mem_nil, or_false] at h
    rcases h with rfl | rfl | rfl | rfl
    · exact Or.inr ⟨_, by omega, rfl⟩
    · exact Or.inr ⟨_, by omega, rfl⟩
    · exact Or.inr ⟨_, by omega, rfl⟩
    · exact Or.inl rfl
  | case4 a b c rest ih =>
    have ha := a.toNat_lt
    have hb := b.toNat_lt
    have hc := c.toNat_lt
    simp only [List.mem_cons] at h
    rcases h with rfl | rfl | rfl | rfl | h
    · exact Or.inr ⟨_, by omega, rfl⟩
    · exact Or.inr ⟨_, by omega, rfl⟩
    · exact Or.inr ⟨_, by omega, rfl⟩
    · exact Or.inr ⟨_, by omega, rfl⟩
    · exact ih h

example : encode (ascii "light work.") = ascii "bGlnaHQgd29yay4=" := by decide

/-- What is decoded is no longer than the text. -/
theorem decode_length_le {s t : Bytes} (h : decode s = some t) : t.length ≤ s.length := by
  fun_induction decode s generalizing t with
  | case1 => cases h; exact le_rfl
  | case2 a b rest hlast =>
    simp only [decodeOne, Option.bind_eq_bind, Option.bind_eq_some_iff] at h
    obtain ⟨x, -, y, -, h⟩ := h
    split at h
    · cases h; simp
    · cases h
  | case3 a b c rest hlast hc =>
    simp only [decodeTwo, Option.bind_eq_bind, Option.bind_eq_some_iff] at h
    obtain ⟨x, -, y, -, z, -, h⟩ := h
    split at h
    · cases h; simp
    · cases h
  | case4 a b c d rest hlast ih =>
    simp only [decodeThree, Option.bind_eq_bind, Option.bind_eq_some_iff] at h
    obtain ⟨group, ⟨x, -, y, -, z, -, w, -, hgroup⟩, bytes, hbytes, h⟩ := h
    cases hgroup
    cases h
    have hrest := ih hbytes
    simp only [List.length_append, List.length_cons, List.length_nil]
    omega
  | case5 => cases h

end S3s.Base64
