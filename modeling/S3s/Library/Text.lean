import S3s.Library.Bytes

/-! # Taking texts apart

What is needed of `str` to take a text apart at a separator, at its front or at its
end, and to recognise numbers and addresses in it. Addresses are read the way the
standard library reads them: each reader consumes the front of its input, or fails
and consumes nothing.
-/
namespace S3s.Text

/-- `strip_prefix` with a character. -/
def stripPrefix (c : UInt8) : Bytes → Option Bytes
  | [] => none
  | b :: s => if b = c then some s else none

/-- `strip_suffix` with a text. -/
def stripSuffix (suffix s : Bytes) : Option Bytes :=
  if suffix.isSuffixOf s then some (s.take (s.length - suffix.length)) else none

/-- `split_once` with a character. -/
def splitOnce (c : UInt8) (s : Bytes) : Option (Bytes × Bytes) :=
  match s.dropWhile (· != c) with
  | [] => none
  | _ :: rest => some (s.takeWhile (· != c), rest)

/-- `rsplit_once` with a character. -/
def rsplitOnce (c : UInt8) (s : Bytes) : Option (Bytes × Bytes) :=
  (splitOnce c s.reverse).map fun parts => (parts.2.reverse, parts.1.reverse)

/-- The rest of a replacement, with this many bytes of an occurrence still to pass. -/
def replaceFrom (pattern new : Bytes) : Nat → Bytes → Bytes
  | _, [] => []
  | 0, b :: s =>
    if pattern.isPrefixOf (b :: s) then new ++ replaceFrom pattern new (pattern.length - 1) s
    else b :: replaceFrom pattern new 0 s
  | skip + 1, _ :: s => replaceFrom pattern new skip s

/-- `replace` of a text that is not empty. -/
def replace (pattern new s : Bytes) : Bytes := replaceFrom pattern new 0 s

example : replace (ascii "ab") (ascii "x") (ascii "abcabab") = ascii "xcxx" := by decide

theorem stripPrefix_eq_some {c : UInt8} {s rest : Bytes} :
    stripPrefix c s = some rest ↔ s = c :: rest := by
  cases s with
  | nil => simp [stripPrefix]
  | cons b s => by_cases h : b = c <;> simp [stripPrefix, h]

theorem splitOnce_append {c : UInt8} {s : Bytes} (rest : Bytes) (h : c ∉ s) :
    splitOnce c (s ++ c :: rest) = some (s, rest) := by
  have hall : ∀ b ∈ s, (b != c) = true := by
    intro b hb
    rw [bne_iff_ne]
    rintro rfl
    exact h hb
  rw [splitOnce, List.dropWhile_append_of_pos hall, List.takeWhile_append_of_pos hall]
  simp

theorem splitOnce_eq_some {c : UInt8} {s before rest : Bytes} (h : splitOnce c s = some (before, rest)) :
    s = before ++ c :: rest ∧ c ∉ before := by
  unfold splitOnce at h
  split at h
  · cases h
  · next b rest' hdrop =>
    cases h
    have hb : b = c := by
      have hne : s.dropWhile (· != c) ≠ [] := by simp [hdrop]
      have := List.head_dropWhile_not (· != c) hne
      simpa [hdrop] using this
    constructor
    · conv => lhs; rw [← List.takeWhile_append_dropWhile (p := (· != c)) (l := s), hdrop, hb]
    · intro hmem
      have := List.mem_takeWhile_imp (p := (· != c)) hmem
      simp at this

theorem splitOnce_eq_none {c : UInt8} {s : Bytes} (h : splitOnce c s = none) : c ∉ s := by
  unfold splitOnce at h
  split at h
  · next hdrop =>
    intro hmem
    have := List.dropWhile_eq_nil_iff.mp hdrop c hmem
    simp at this
  · cases h

section Numbers

/-- The value of digits in a radix. -/
def valueOf (radix : Nat) (digits : Bytes) : Nat :=
  digits.foldl (fun n c => n * radix + ((Bytes.hexVal c).getD 0).toNat) 0

/-- `str::parse` of a `u16`: decimal digits, with a plus sign or without. -/
def parseU16 (s : Bytes) : Option Nat :=
  let digits := if s.head? = some 43 then s.tail else s
  if digits.isEmpty || digits.any fun b => !Bytes.isDigit b then none
  else if valueOf 10 digits < 2 ^ 16 then some (valueOf 10 digits)
  else none

/-- Whether a byte is a digit in a radix, ten or sixteen. -/
def isRadixDigit (radix : Nat) (c : UInt8) : Bool := (Bytes.hexVal c).any fun d => d.toNat < radix

/-- `read_number`: as many digits as there are, when they are not too many and the value is in
bounds. -/
def readNumber (radix : Nat) (maxDigits : Option Nat) (allowZeroPrefix : Bool) (bound : Nat)
    (s : Bytes) : Option Bytes :=
  let digits := s.takeWhile (isRadixDigit radix)
  if digits.isEmpty || maxDigits.any (· < digits.length) then none
  else if !allowZeroPrefix && s.head? == some 48 && 1 < digits.length then none
  else if valueOf radix digits < bound then some (s.dropWhile (isRadixDigit radix))
  else none

end Numbers

section Addresses

/-- `read_separator` -/
def readSeparator (sep : UInt8) (index : Nat) (inner : Bytes → Option Bytes) (s : Bytes) :
    Option Bytes :=
  if index > 0 then (stripPrefix sep s).bind inner else inner s

/-- `read_ipv4_addr` -/
def readIpv4Addr (s : Bytes) : Option Bytes :=
  (List.range 4).foldlM (fun s i => readSeparator 46 i (readNumber 10 (some 3) false 256) s) s

/-- `read_groups`: how many groups there are, whether the last two are an IPv4 address, and the
rest. -/
def readGroups : Nat → Nat → Bytes → Nat × Bool × Bytes
  | 0, i, s => (i, false, s)
  | left + 1, i, s =>
    match if left > 0 then readSeparator 58 i readIpv4Addr s else none with
    | some rest => (i + 2, true, rest)
    | none =>
      match readSeparator 58 i (readNumber 16 (some 4) true (2 ^ 16)) s with
      | some rest => readGroups left (i + 1) rest
      | none => (i, false, s)

/-- `read_ipv6_addr` -/
def readIpv6Addr (s : Bytes) : Option Bytes :=
  let (headSize, headIpv4, rest) := readGroups 8 0 s
  if headSize = 8 then some rest
  else if headIpv4 then none
  else do
    let rest ← stripPrefix 58 rest
    let rest ← stripPrefix 58 rest
    some (readGroups (8 - (headSize + 1)) 0 rest).2.2

/-- `read_scope_id`, which may be missing. -/
def readScopeId (s : Bytes) : Bytes :=
  ((stripPrefix 37 s).bind (readNumber 10 none true (2 ^ 32))).getD s

/-- `read_port` -/
def readPort (s : Bytes) : Option Bytes := (stripPrefix 58 s).bind (readNumber 10 none true (2 ^ 16))

/-- `str::parse` of an `IpAddr`, whether it succeeds. -/
def isIpAddr (s : Bytes) : Bool := (readIpv4Addr s <|> readIpv6Addr s) == some []

/-- `str::parse` of a `SocketAddr`, whether it succeeds. -/
def isSocketAddr (s : Bytes) : Bool :=
  let v6 := do
    let s ← stripPrefix 91 s
    let s ← readIpv6Addr s
    let s ← stripPrefix 93 (readScopeId s)
    readPort s
  ((readIpv4Addr s).bind readPort <|> v6) == some []

end Addresses

example : ["127.0.0.1", "::1", "1:2:3:4:5:6:7:8", "::ffff:10.0.0.1", "1:2:3:4:5:6:1.2.3.4"].all
    (fun s => isIpAddr (ascii s)) = true := by decide

example : ["127.0.0.01", "1.2.3", "256.1.1.1", "1:2:3:4:5:6:7", "1:2:3:4:5:6:7::8", "localhost",
    "1.2.3.4:80", "[::1]"].all (fun s => !isIpAddr (ascii s)) = true := by decide

end S3s.Text
