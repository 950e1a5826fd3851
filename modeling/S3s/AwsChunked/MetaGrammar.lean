import S3s.AwsChunked.Recognisers

/-! # Chunk metadata against its grammar

A size token that starts with a hexadecimal digit is accepted whatever follows its
digits, and read to its eighth digit. These lines aside, the metadata accepted is that
of the grammar.
-/
namespace S3s.AwsChunked

section Grammar

/-- The hexadecimal digits in front of a text. -/
def hexDigits (s : Bytes) : Bytes := s.takeWhile fun c => (Bytes.hexVal c).isSome

/-- A size: one to eight hexadecimal digits. -/
def IsSize (size : Bytes) : Prop :=
  size ≠ [] ∧ size.length ≤ 8 ∧ ∀ c ∈ size, (Bytes.hexVal c).isSome = true

instance (size : Bytes) : Decidable (IsSize size) := inferInstanceAs (Decidable (_ ∧ _ ∧ _))

/-- What may follow the size, with the signature in it. -/
inductive MetaTail : Bytes → Option Bytes → Prop
  | signed (sig : Bytes) (hsig : sig.length = 64) :
      MetaTail (ascii ";chunk-signature=" ++ sig ++ crlf) (some sig)
  | plain : MetaTail crlf none

/-- The grammar of a metadata line, with the metadata it stands for. -/
inductive MetaLine : Bytes → ChunkMeta → Prop
  | line (size : Bytes) {tail : Bytes} {signature : Option Bytes} (hsize : IsSize size)
      (htail : MetaTail tail signature) : MetaLine (size ++ tail) ⟨hexNumber size, signature⟩

/-- A line whose size token starts with a digit but is not a size: something else follows
the digits, or there are more than eight of them. -/
def Overread (line : Bytes) : Prop :=
  ∃ size tail signature, line = size ++ tail ∧ MetaTail tail signature ∧
    (∀ c ∈ size, endsSize c = false) ∧ hexDigits size ≠ [] ∧ ¬IsSize size

/-- What `hex_u32` of nom is relied on for: it reads the digits in front, at least one and
at most eight of them, and leaves the rest. -/
def ReadsHex (hexU32 : Bytes → Option UInt32) : Prop :=
  ∀ s, hexU32 s =
    if hexDigits s = [] then none else some (UInt32.ofNat (hexNumber ((hexDigits s).take 8)))

theorem reference_readsHex (C : Crypto) : ReadsHex (reference C).hexU32 := by
  intro s
  change (if (hexDigits s).isEmpty then none else _) = _
  by_cases h : hexDigits s = []
  · rw [if_pos h, h]
    rfl
  · rw [if_neg h, if_neg (by simpa using h)]
    rfl

end Grammar

section Sizes

theorem hexDigits_of_all {s : Bytes} (h : ∀ c ∈ s, (Bytes.hexVal c).isSome = true) : hexDigits s = s :=
  List.takeWhile_eq_self_iff.mpr h

theorem hexVal_getD_lt (c : UInt8) : ((Bytes.hexVal c).getD 0).toNat < 16 := by
  apply forall_byte (p := fun c => ((Bytes.hexVal c).getD 0).toNat < 16)
  decide +kernel

theorem hexNumber_lt (s : Bytes) : hexNumber s < 16 ^ s.length := by
  induction s using List.reverseRecOn with
  | nil => simp [hexNumber]
  | append_singleton s c ih =>
    have hc := hexVal_getD_lt c
    simp only [hexNumber, List.foldl_append, List.foldl_cons, List.foldl_nil, List.length_append,
      List.length_singleton, Nat.pow_succ] at ih ⊢
    omega

/-- The digits that are read fit the type they are read into. -/
theorem toNat_hexNumber_take (s : Bytes) :
    (UInt32.ofNat (hexNumber (s.take 8))).toNat = hexNumber (s.take 8) := by
  apply UInt32.toNat_ofNat_of_lt'
  calc hexNumber (s.take 8) < 16 ^ (s.take 8).length := hexNumber_lt _
    _ ≤ 16 ^ 8 := Nat.pow_le_pow_right (by decide) (List.length_take_le _ _)

theorem IsSize.endsSize {size : Bytes} (h : IsSize size) : ∀ c ∈ size, endsSize c = false := by
  have key (c : UInt8) : (Bytes.hexVal c).isSome = true → AwsChunked.endsSize c = false := by
    apply forall_byte (p := fun c => (Bytes.hexVal c).isSome = true → AwsChunked.endsSize c = false)
    decide +kernel
  exact fun c hc => key c (h.2.2 c hc)

end Sizes

section Tails

theorem MetaTail.head {tail : Bytes} {signature : Option Bytes} (h : MetaTail tail signature) :
    ∃ c rest, tail = c :: rest ∧ endsSize c = true := by
  cases h with
  | signed sig hsig => exact ⟨59, ascii "chunk-signature=" ++ sig ++ crlf, rfl, rfl⟩
  | plain => exact ⟨cr, [lf], rfl, rfl⟩

theorem parseSignatureExtension_eq_some {s sig : Bytes} :
    parseSignatureExtension s = some sig ↔ MetaTail s (some sig) := by
  constructor
  · intro h
    simp only [parseSignatureExtension] at h
    split_ifs at h with hkey hrest
    obtain rfl := Option.some.inj h
    obtain ⟨rest, rfl⟩ := List.isPrefixOf_iff_prefix.mp hkey
    obtain ⟨hlen, hrest⟩ := hrest
    rw [← List.drop_drop, List.drop_left] at hrest
    rw [List.drop_left] at hlen ⊢
    have htail := MetaTail.signed (rest.take 64) hlen
    rw [← hrest, List.append_assoc, List.take_append_drop] at htail
    exact htail
  · intro h
    cases h with
    | signed sig hsig => exact parseSignatureExtension_signed sig hsig

/-- A line is cut where its size ends. -/
theorem cut_size {size tail : Bytes} {signature : Option Bytes} (htail : MetaTail tail signature)
    (hsize : ∀ c ∈ size, endsSize c = false) :
    (size ++ tail).takeWhile (fun c => !endsSize c) = size ∧
      (size ++ tail).dropWhile (fun c => !endsSize c) = tail := by
  obtain ⟨c, rest, rfl, hc⟩ := htail.head
  have hs : ∀ b ∈ size, (!endsSize b) = true := fun b hb => by simp [hsize b hb]
  rw [List.takeWhile_append_of_pos hs, List.dropWhile_append_of_pos hs]
  simp [hc]

end Tails

section Lines

variable {X : Externals}

/-- What the parser accepts: a token that starts with a digit, and one of the two ends. -/
theorem parseChunkMeta_eq_some (hX : ReadsHex X.hexU32) {input : Bytes} {m : ChunkMeta} :
    parseChunkMeta X input = some m ↔
      ∃ size tail, input = size ++ tail ∧ (∀ c ∈ size, endsSize c = false) ∧ hexDigits size ≠ [] ∧
        MetaTail tail m.signature ∧ m.size = hexNumber ((hexDigits size).take 8) := by
  constructor
  · intro h
    have hcut : (input.takeWhile fun c => !endsSize c) ++ (input.dropWhile fun c => !endsSize c) = input :=
      List.takeWhile_append_dropWhile
    have hsize : ∀ c ∈ input.takeWhile fun c => !endsSize c, endsSize c = false := by
      intro c hc
      simpa using List.mem_takeWhile_imp hc
    simp only [parseChunkMeta] at h
    generalize input.takeWhile (fun c => !endsSize c) = size at h hcut hsize
    generalize input.dropWhile (fun c => !endsSize c) = tail at h hcut
    by_cases hdigits : hexDigits size = []
    · simp [hX size, hdigits] at h
    · rw [hX size, if_neg hdigits] at h
      refine ⟨size, tail, hcut.symm, hsize, hdigits, ?_⟩
      cases hsig : parseSignatureExtension tail with
      | some sig =>
        simp only [hsig] at h
        split_ifs at h with hempty
        obtain rfl := Option.some.inj h
        exact ⟨parseSignatureExtension_eq_some.mp hsig, toNat_hexNumber_take _⟩
      | none =>
        simp only [hsig] at h
        split_ifs at h with hempty hcrlf
        obtain rfl := Option.some.inj h
        rw [hcrlf]
        exact ⟨MetaTail.plain, toNat_hexNumber_take _⟩
  · rintro ⟨size, tail, rfl, hsize, hdigits, htail, hvalue⟩
    obtain ⟨value, signature⟩ := m
    dsimp only at htail hvalue
    have hne : size ≠ [] := by
      rintro rfl
      exact hdigits rfl
    have hhex := (hX size).trans (if_neg hdigits)
    rw [hvalue, ← toNat_hexNumber_take]
    cases htail with
    | signed sig hsig =>
      rw [← parseChunkMeta_signed X size sig _ hne hsize hhex hsig, signedMeta, List.append_assoc,
        List.append_assoc, List.append_assoc]
    | plain => exact parseChunkMeta_unsigned X size _ hne hsize hhex

/-- A line of the grammar is accepted, with what it stands for. -/
theorem parseChunkMeta_of_line (hX : ReadsHex X.hexU32) {input : Bytes} {m : ChunkMeta}
    (h : MetaLine input m) : parseChunkMeta X input = some m := by
  rw [parseChunkMeta_eq_some hX]
  cases h with
  | line size hsize htail =>
    have hdigits := hexDigits_of_all hsize.2.2
    refine ⟨size, _, rfl, hsize.endsSize, by rw [hdigits]; exact hsize.1, htail, ?_⟩
    rw [hdigits, List.take_of_length_le hsize.2.1]

/-- A line is of the grammar where it is accepted and its size is not overread. -/
theorem line_of_parseChunkMeta (hX : ReadsHex X.hexU32) {input : Bytes} {m : ChunkMeta}
    (hread : ¬Overread input) (h : parseChunkMeta X input = some m) : MetaLine input m := by
  obtain ⟨size, tail, rfl, hends, hdigits, htail, hvalue⟩ := (parseChunkMeta_eq_some hX).mp h
  have hsize : IsSize size := by
    by_contra hnot
    exact hread ⟨size, tail, _, rfl, htail, hends, hdigits, hnot⟩
  rw [hexDigits_of_all hsize.2.2, List.take_of_length_le hsize.2.1] at hvalue
  have hline := MetaLine.line size hsize htail
  rwa [← hvalue] at hline

/-- The token in front of an end is the size of the line. -/
theorem MetaLine.isSize {size tail : Bytes} {signature : Option Bytes} {m : ChunkMeta}
    (h : MetaLine (size ++ tail) m) (hends : ∀ c ∈ size, endsSize c = false)
    (htail : MetaTail tail signature) : IsSize size := by
  have hcut := (cut_size htail hends).1
  generalize size ++ tail = input at h hcut
  cases h with
  | line size' hsize' htail' =>
    rw [(cut_size htail' hsize'.endsSize).1] at hcut
    exact hcut ▸ hsize'

/-- An overread line is accepted, and no line of the grammar. -/
theorem Overread.accepted (hX : ReadsHex X.hexU32) {input : Bytes} (h : Overread input) :
    ∃ m, parseChunkMeta X input = some m ∧ ¬MetaLine input m := by
  obtain ⟨size, tail, signature, rfl, htail, hends, hdigits, hnot⟩ := h
  refine ⟨⟨hexNumber ((hexDigits size).take 8), signature⟩,
    (parseChunkMeta_eq_some hX).mpr ⟨size, tail, rfl, hends, hdigits, htail, rfl⟩, ?_⟩
  exact fun hline => hnot (hline.isSize hends htail)

theorem not_overread {size tail : Bytes} {signature : Option Bytes} (hsize : IsSize size)
    (htail : MetaTail tail signature) : ¬Overread (size ++ tail) := by
  rintro ⟨size', tail', signature', hinput, htail', hends', -, hnot⟩
  have hcut := (cut_size htail hsize.endsSize).1
  rw [hinput, (cut_size htail' hends').1] at hcut
  exact hnot (hcut ▸ hsize)

/-- A metadata line is accepted as the grammar says, with the value of all its digits and
its signature, exactly when its size is not overread. -/
theorem parseChunkMeta_exact_iff (hX : ReadsHex X.hexU32) (input : Bytes) :
    (∀ m, parseChunkMeta X input = some m ↔ MetaLine input m) ↔ ¬Overread input := by
  constructor
  · intro hexact hread
    obtain ⟨m, hsome, hnot⟩ := hread.accepted hX
    exact hnot ((hexact m).mp hsome)
  · exact fun hread m => ⟨line_of_parseChunkMeta hX hread, parseChunkMeta_of_line hX⟩

theorem parseChunkMeta_exact_plain :
    IsSize (ascii "1a") ∧ ∀ m, parseChunkMeta (reference constantCrypto) (ascii "1a" ++ crlf) = some m ↔
      MetaLine (ascii "1a" ++ crlf) m :=
  ⟨by decide +kernel, (parseChunkMeta_exact_iff (reference_readsHex constantCrypto) _).mpr
    (not_overread (by decide +kernel) MetaTail.plain)⟩

theorem parseChunkMeta_accepts_overread :
    ReadsHex (reference constantCrypto).hexU32 ∧
      (parseChunkMeta (reference constantCrypto) (ascii "1g" ++ crlf) = some ⟨1, none⟩ ∧
        ¬∃ m, MetaLine (ascii "1g" ++ crlf) m) ∧
      parseChunkMeta (reference constantCrypto) (ascii "123456789" ++ crlf) = some ⟨0x12345678, none⟩ ∧
        ¬∃ m, MetaLine (ascii "123456789" ++ crlf) m := by
  refine ⟨reference_readsHex _, ⟨by decide, ?_⟩, by decide, ?_⟩
  · rintro ⟨m, hline⟩
    exact absurd (hline.isSize (by decide +kernel) MetaTail.plain) (by decide +kernel)
  · rintro ⟨m, hline⟩
    exact absurd (hline.isSize (by decide +kernel) MetaTail.plain) (by decide +kernel)

end Lines

end S3s.AwsChunked
