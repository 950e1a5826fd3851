import S3s.Fs.Files
import S3s.Library.Delimited

/-! # The names of the files of the store

The name of a file says what the file is of: different files have different names. Their paths
are names in the root, and so are those of the buckets.
-/
namespace S3s.Fs
open LexicalPath Programs FileTree Routing

section Texts

theorem toNat_digit {c : Char} (h : c.isDigit = true) :
    48 ≤ c.toNat ∧ c.toNat ≤ 57 ∧ (UInt8.ofNat c.toNat).toNat = c.toNat := by
  simp only [Char.isDigit, Bool.and_eq_true, decide_eq_true_eq] at h
  have hlow : 48 ≤ c.toNat := h.1
  have hhigh : c.toNat ≤ 57 := h.2
  refine ⟨hlow, hhigh, ?_⟩
  rw [UInt8.toNat_ofNat']
  omega

theorem isDigit_toDigits {n : Nat} {c : Char} (h : c ∈ Nat.toDigits 10 n) : c.isDigit = true :=
  Nat.isDigit_of_mem_toDigits (by decide) (by decide) h

theorem decimal_injective {m n : Nat} (h : Bytes.decimal m = Bytes.decimal n) : m = n := by
  have hdigits : Nat.toDigits 10 m = Nat.toDigits 10 n := by
    refine Delimited.map_inj_of_inj (fun c hc d hd hcd => ?_) h
    have hval := congrArg UInt8.toNat hcd
    rw [(toNat_digit (isDigit_toDigits hc)).2.2, (toNat_digit (isDigit_toDigits hd)).2.2] at hval
    exact Char.toNat_inj.mp hval
  rw [← Nat.ofDigitChars_ten_toDigits (n := m), hdigits, Nat.ofDigitChars_ten_toDigits]

/-- The digits of a number are neither a sign nor a dot. -/
theorem not_mem_decimal {c : UInt8} (hc : c < 48) (n : Nat) : c ∉ Bytes.decimal n := by
  intro h
  obtain ⟨d, hd, rfl⟩ := List.mem_map.mp h
  obtain ⟨hlow, -, hval⟩ := toNat_digit (isDigit_toDigits hd)
  rw [UInt8.lt_iff_toNat_lt, hval] at hc
  exact absurd hc (by simpa using hlow)

theorem partText_injective {m n : Int} (h : partText m = partText n) : m = n := by
  have hsign (k : Nat) (s : Bytes) : Bytes.decimal k ≠ ascii "-" ++ s := by
    intro heq
    exact not_mem_decimal (c := 45) (by decide) k (by simp [heq, ascii])
  unfold partText at h
  split at h <;> split at h
  · have := decimal_injective (List.append_cancel_left h)
    omega
  · exact absurd h.symm (hsign _ _)
  · exact absurd h (hsign _ _)
  · have := decimal_injective h
    omega

theorem dot_not_mem_partText (n : Int) : 46 ∉ partText n := by
  unfold partText
  split
  · simp [not_mem_decimal, ascii]
  · exact not_mem_decimal (by decide) _

theorem not_mem_encodeHex {c : UInt8} (hc : Bytes.isLowercaseHex c = false) (s : Bytes) :
    c ∉ Bytes.encodeHex s := by
  intro h
  have hhex := List.all_eq_true.mp (Bytes.encodeHex_lowercase s) c h
  rw [hc] at hhex
  cases hhex

theorem Uuid.mem_text {u : Uuid} {c : UInt8} (h : c ∈ u.text) :
    c ∈ Bytes.encodeHex u.toList ∨ c = 45 := by
  have hdash : ascii "-" = [45] := by decide
  simp only [text, List.mem_append, hdash, List.mem_singleton] at h
  have hpart (k : Nat) (hmem : c ∈ (Bytes.encodeHex u.toList).drop k) : c ∈ Bytes.encodeHex u.toList :=
    List.mem_of_mem_drop hmem
  rcases h with (((((((h | h) | h) | h) | h) | h) | h) | h) | h
  · exact Or.inl (List.mem_of_mem_take h)
  · exact Or.inr h
  · exact Or.inl (hpart _ (List.mem_of_mem_take h))
  · exact Or.inr h
  · exact Or.inl (hpart _ (List.mem_of_mem_take h))
  · exact Or.inr h
  · exact Or.inl (hpart _ (List.mem_of_mem_take h))
  · exact Or.inr h
  · exact Or.inl (hpart _ h)

theorem Uuid.dot_not_mem_text (u : Uuid) : 46 ∉ u.text := by
  intro h
  rcases Uuid.mem_text h with hhex | hdash
  · exact not_mem_encodeHex (by decide) _ hhex
  · exact absurd hdash (by decide)

theorem Uuid.text_length (u : Uuid) : u.text.length = 36 := by
  have hhex := Bytes.encodeHex_length u.toList
  simp only [text, List.length_append, List.length_take, List.length_drop, hhex, Vector.length_toList]
  simp [ascii]

/-- The digits of a `Uuid` text, without the dashes. -/
theorem Uuid.filter_text (u : Uuid) : (u.text.filter fun c => c != 45) = Bytes.encodeHex u.toList := by
  have hkeep {s : Bytes} (hs : ∀ c ∈ s, c ∈ Bytes.encodeHex u.toList) :
      (s.filter fun c => c != 45) = s := by
    refine List.filter_eq_self.mpr fun c hc => ?_
    rw [bne_iff_ne]
    rintro rfl
    exact not_mem_encodeHex (by decide) _ (hs _ hc)
  have htake (n k : Nat) : ∀ c ∈ ((Bytes.encodeHex u.toList).drop n).take k,
      c ∈ Bytes.encodeHex u.toList :=
    fun c hc => List.mem_of_mem_drop (List.mem_of_mem_take hc)
  have hdash : (ascii "-").filter (fun c => c != 45) = [] := by decide
  simp only [text, List.filter_append, hdash, List.append_nil]
  rw [hkeep (fun c hc => List.mem_of_mem_take hc), hkeep (htake 8 4), hkeep (htake 12 4),
    hkeep (htake 16 4), hkeep (fun c hc => List.mem_of_mem_drop hc)]
  have hjoin (s : Bytes) : s.take 8 ++ (s.drop 8).take 4 ++ (s.drop 12).take 4 ++ (s.drop 16).take 4 ++
      s.drop 20 = s := by
    have h₁ : (s.drop 16).take 4 ++ s.drop 20 = s.drop 16 := by
      rw [show s.drop 20 = (s.drop 16).drop 4 by rw [List.drop_drop], List.take_append_drop]
    have h₂ : (s.drop 12).take 4 ++ s.drop 16 = s.drop 12 := by
      rw [show s.drop 16 = (s.drop 12).drop 4 by rw [List.drop_drop], List.take_append_drop]
    have h₃ : (s.drop 8).take 4 ++ s.drop 12 = s.drop 8 := by
      rw [show s.drop 12 = (s.drop 8).drop 4 by rw [List.drop_drop], List.take_append_drop]
    rw [List.append_assoc, h₁, List.append_assoc, h₂, List.append_assoc, h₃, List.take_append_drop]
  exact hjoin _

theorem Uuid.text_injective {u v : Uuid} (h : u.text = v.text) : u = v := by
  have hhex : Bytes.encodeHex u.toList = Bytes.encodeHex v.toList := by
    rw [← u.filter_text, h, v.filter_text]
  have hlist : u.toList = v.toList := by
    have hdecode := congrArg Bytes.decodeHex hhex
    simpa using hdecode
  exact Vector.toList_inj.mp hlist

/-- An encoded text is its symbols, filled up to a multiple of four. -/
theorem encode_padded (s : Bytes) : ∃ k < 4, (((Base64.encode s).filter fun c => c != 61).length + k) % 4 = 0 ∧
    Base64.encode s = ((Base64.encode s).filter fun c => c != 61) ++ List.replicate k 61 := by
  have hne {n : Nat} (h : n < 64) : (Base64.symbol n != 61) = true :=
    bne_iff_ne.mpr (Base64.symbol_spec h).2
  fun_induction Base64.encode s with
  | case1 => exact ⟨0, by omega, by simp, by simp⟩
  | case2 a =>
    have ha := a.toNat_lt
    refine ⟨2, by omega, ?_, ?_⟩ <;>
      simp [hne (n := a.toNat / 4) (by omega), hne (n := a.toNat % 4 * 16) (by omega)]
  | case3 a b =>
    have ha := a.toNat_lt
    have hb := b.toNat_lt
    refine ⟨1, by omega, ?_, ?_⟩ <;>
      simp [hne (n := a.toNat / 4) (by omega),
        hne (n := a.toNat % 4 * 16 + b.toNat / 16) (by omega), hne (n := b.toNat % 16 * 4) (by omega)]
  | case4 a b c rest ih =>
    have ha := a.toNat_lt
    have hb := b.toNat_lt
    have hc := c.toNat_lt
    obtain ⟨k, hk, hmod, heq⟩ := ih
    have hfilter : ∀ t : Bytes, (Base64.symbol (a.toNat / 4) ::
        Base64.symbol (a.toNat % 4 * 16 + b.toNat / 16) ::
        Base64.symbol (b.toNat % 16 * 4 + c.toNat / 64) :: Base64.symbol (c.toNat % 64) :: t).filter
          (fun c => c != 61) = Base64.symbol (a.toNat / 4) ::
        Base64.symbol (a.toNat % 4 * 16 + b.toNat / 16) ::
        Base64.symbol (b.toNat % 16 * 4 + c.toNat / 64) :: Base64.symbol (c.toNat % 64) ::
          t.filter fun c => c != 61 := by
      intro t
      simp [hne (n := a.toNat / 4) (by omega),
        hne (n := a.toNat % 4 * 16 + b.toNat / 16) (by omega),
        hne (n := b.toNat % 16 * 4 + c.toNat / 64) (by omega), hne (n := c.toNat % 64) (by omega)]
    refine ⟨k, hk, ?_, ?_⟩
    · rw [hfilter]
      simp only [List.length_cons]
      omega
    · rw [hfilter]
      simp only [List.cons_append]
      rw [← heq]

/-- The symbols without those that the URL-safe alphabet puts in. -/
theorem symbol_ne {n : Nat} (h : n < 64) :
    Base64.symbol n ≠ 45 ∧ Base64.symbol n ≠ 95 ∧ Base64.symbol n ≠ 46 := by
  have hall : ∀ n : Fin 64, Base64.symbol n ≠ 45 ∧ Base64.symbol n ≠ 95 ∧ Base64.symbol n ≠ 46 := by
    decide
  exact hall ⟨n, h⟩

theorem symbol_of_mem {s : Bytes} {c : UInt8} (h : c ∈ (Base64.encode s).filter fun c => c != 61) :
    ∃ n < 64, c = Base64.symbol n := by
  obtain ⟨hmem, hne⟩ := List.mem_filter.mp h
  rcases Base64.mem_encode hmem with hpad | hsymbol
  · exact absurd hpad (bne_iff_ne.mp hne)
  · exact hsymbol

theorem encodeUrlSafe_injective {s t : Bytes} (h : encodeUrlSafe s = encodeUrlSafe t) : s = t := by
  have hcore : ((Base64.encode s).filter fun c => c != 61) = (Base64.encode t).filter fun c => c != 61 := by
    refine Delimited.map_inj_of_inj (fun c hc d hd hcd => ?_) h
    obtain ⟨m, hm, rfl⟩ := symbol_of_mem hc
    obtain ⟨n, hn, rfl⟩ := symbol_of_mem hd
    obtain ⟨hm45, hm95, -⟩ := symbol_ne hm
    obtain ⟨hn45, hn95, -⟩ := symbol_ne hn
    grind
  obtain ⟨k, hk, hmod, heq⟩ := encode_padded s
  obtain ⟨k', hk', hmod', heq'⟩ := encode_padded t
  have hkk : k = k' := by
    rw [hcore] at hmod
    omega
  have hencode : Base64.encode s = Base64.encode t := by rw [heq, heq', hcore, hkk]
  have hdecode := congrArg Base64.decode hencode
  rw [Base64.decode_encode, Base64.decode_encode] at hdecode
  exact Option.some.inj hdecode

theorem dot_not_mem_encodeUrlSafe (s : Bytes) : 46 ∉ encodeUrlSafe s := by
  intro h
  obtain ⟨c, hc, hdot⟩ := List.mem_map.mp h
  obtain ⟨n, hn, rfl⟩ := symbol_of_mem hc
  obtain ⟨-, -, hne⟩ := symbol_ne hn
  grind

end Texts

section StoreFiles

/-- The parts of a name, which has a dot in front of each. -/
def StoreFile.parts : StoreFile → List Bytes
  | metadata bucket key none => [ascii "bucket-" ++ encodeUrlSafe bucket,
      ascii "object-" ++ encodeUrlSafe key, ascii "metadata", ascii "json"]
  | metadata bucket key (some u) => [ascii "bucket-" ++ encodeUrlSafe bucket,
      ascii "object-" ++ encodeUrlSafe key, ascii "upload-" ++ u.text, ascii "metadata", ascii "json"]
  | internalInfo bucket key => [ascii "bucket-" ++ encodeUrlSafe bucket,
      ascii "object-" ++ encodeUrlSafe key, ascii "internal", ascii "json"]
  | uploadPart uploadId partNumber => [ascii "upload_id-" ++ uploadId.text,
      ascii "part-" ++ partText partNumber]
  | uploadPartInfo uploadId partNumber => [ascii "upload_part_info-" ++ uploadId.text,
      ascii "part-" ++ partText partNumber, ascii "json"]
  | uploadInfo uploadId => [ascii "upload-" ++ uploadId.text, ascii "json"]
  | temporary counter => [ascii "tmp", Bytes.decimal counter, ascii "internal", ascii "part"]

theorem StoreFile.name_eq (file : StoreFile) : file.name = 46 :: [46].intercalate file.parts := by
  cases file with
  | metadata bucket key uploadId =>
    cases uploadId <;> simp [name, parts, ascii, List.intercalate_cons_cons]
  | internalInfo bucket key => simp [name, parts, ascii, List.intercalate_cons_cons]
  | uploadPart uploadId partNumber => simp [name, parts, ascii, List.intercalate_cons_cons]
  | uploadPartInfo uploadId partNumber => simp [name, parts, ascii, List.intercalate_cons_cons]
  | uploadInfo uploadId => simp [name, parts, ascii, List.intercalate_cons_cons]
  | temporary counter => simp [name, parts, ascii, List.intercalate_cons_cons]

theorem StoreFile.plain_parts (file : StoreFile) : Delimited.Plain 46 file.parts := by
  have hdecimal (n : Nat) : Bytes.decimal n ≠ [] := by
    simp [Bytes.decimal, Nat.toDigits_ne_nil]
  cases file with
  | metadata bucket key uploadId =>
    cases uploadId with
    | none => simp [Delimited.Plain, parts, ascii, dot_not_mem_encodeUrlSafe]
    | some u => simp [Delimited.Plain, parts, ascii, dot_not_mem_encodeUrlSafe, u.dot_not_mem_text]
  | internalInfo bucket key => simp [Delimited.Plain, parts, ascii, dot_not_mem_encodeUrlSafe]
  | uploadPart uploadId partNumber =>
    simp [Delimited.Plain, parts, ascii, uploadId.dot_not_mem_text, dot_not_mem_partText]
  | uploadPartInfo uploadId partNumber =>
    simp [Delimited.Plain, parts, ascii, uploadId.dot_not_mem_text, dot_not_mem_partText]
  | uploadInfo uploadId => simp [Delimited.Plain, parts, ascii, uploadId.dot_not_mem_text]
  | temporary counter =>
    simp [Delimited.Plain, parts, ascii, hdecimal, not_mem_decimal (c := 46) (by decide)]

theorem StoreFile.parts_injective {file file' : StoreFile} (h : file.parts = file'.parts) :
    file = file' := by
  cases file with
  | metadata bucket key uploadId =>
    cases file' with
    | metadata bucket' key' uploadId' =>
      cases uploadId <;> cases uploadId' <;> simp [parts] at h
      · rw [encodeUrlSafe_injective h.1, encodeUrlSafe_injective h.2]
      · rw [encodeUrlSafe_injective h.1, encodeUrlSafe_injective h.2.1, Uuid.text_injective h.2.2]
    | _ => cases uploadId <;> simp [parts, ascii] at h
  | internalInfo bucket key =>
    cases file' with
    | metadata bucket' key' uploadId' => cases uploadId' <;> simp [parts, ascii] at h
    | internalInfo bucket' key' =>
      simp [parts] at h
      rw [encodeUrlSafe_injective h.1, encodeUrlSafe_injective h.2]
    | _ => simp [parts, ascii] at h
  | uploadPart uploadId partNumber =>
    cases file' with
    | metadata bucket' key' uploadId' => cases uploadId' <;> simp [parts, ascii] at h
    | uploadPart uploadId' partNumber' =>
      simp [parts] at h
      rw [Uuid.text_injective h.1, partText_injective h.2]
    | _ => simp [parts, ascii] at h
  | uploadPartInfo uploadId partNumber =>
    cases file' with
    | metadata bucket' key' uploadId' => cases uploadId' <;> simp [parts, ascii] at h
    | uploadPartInfo uploadId' partNumber' =>
      simp [parts] at h
      rw [Uuid.text_injective h.1, partText_injective h.2]
    | _ => simp [parts, ascii] at h
  | uploadInfo uploadId =>
    cases file' with
    | metadata bucket' key' uploadId' => cases uploadId' <;> simp [parts, ascii] at h
    | uploadInfo uploadId' =>
      simp [parts] at h
      rw [Uuid.text_injective h]
    | _ => simp [parts, ascii] at h
  | temporary counter =>
    cases file' with
    | metadata bucket' key' uploadId' => cases uploadId' <;> simp [parts, ascii] at h
    | temporary counter' =>
      simp [parts] at h
      rw [decimal_injective h]
    | _ => simp [parts, ascii] at h

/-- Different files of the store have different names. -/
theorem StoreFile.name_injective {file file' : StoreFile} (h : file.name = file'.name) :
    file = file' := by
  rw [name_eq, name_eq] at h
  exact parts_injective (Delimited.intercalate_inj file.plain_parts file'.plain_parts
    (List.tail_eq_of_cons_eq h))

/-- A file of the store is no bucket. -/
theorem StoreFile.name_ne_bucket {bucket : Bytes} (h : checkBucketName bucket = true)
    (file : StoreFile) : file.name ≠ bucket := by
  rintro rfl
  simp [checkBucketName, file.name_eq, isLowercaseOrDigit, Bytes.isDigit] at h

end StoreFiles

section Paths

variable (fs : FileSystem)

@[simp] theorem getStorePath_eq (file : StoreFile) : fs.getStorePath file = .ret [file.name] := by
  rw [FileSystem.getStorePath, storePath, resolveAbsPath_name fs.lexical fs.root file.isName,
    FileSystem.below, List.drop_left']
  rfl

theorem getBucketPath_eq {bucket : Bytes} (h : IsName bucket) :
    fs.getBucketPath bucket = .ret [bucket] := by
  rw [FileSystem.getBucketPath, Fs.getBucketPath, resolveAbsPath_name fs.lexical fs.root h,
    FileSystem.below, List.drop_left']
  rfl

/-- Where the file of an object is, for a key that does not lead out of the root. -/
def FileSystem.pathOf (bucket key : Bytes) : Option (List Bytes) :=
  (Fs.getObjectPath fs.absolutizeVirtually fs.root bucket key).map fun p => p.drop fs.root.length

theorem getObjectPath_eq (bucket key : Bytes) : fs.getObjectPath bucket key =
    match fs.pathOf bucket key with
    | some p => .ret p
    | none => .fail (internal (.io .other)) := by
  unfold FileSystem.getObjectPath FileSystem.below FileSystem.pathOf
  cases Fs.getObjectPath fs.absolutizeVirtually fs.root bucket key <;> rfl

/-- A key that leads to something below its bucket, if it leads anywhere. -/
def FileSystem.Stays (bucket key : Bytes) : Prop :=
  ∀ p, fs.pathOf bucket key = some p → ∃ rest, rest ≠ [] ∧ p = bucket :: rest

theorem pathOf_of_names {bucket : Bytes} (h : IsName bucket) {key : Bytes}
    (hkey : ∀ s ∈ segments key, IsName s) : fs.pathOf bucket key = some (bucket :: segments key) := by
  have hbelow := below_of_names fs.root bucket hkey
  have hlanding := ((landing_eq_iff fs.root bucket key _).mpr hbelow).1
  have hreturns : Returns fs.root key := by
    rw [← root_landing_iff, hlanding, List.append_assoc]
    exact List.prefix_append _ _
  rw [FileSystem.pathOf, (getObjectPath_eq_some fs.lexical fs.root h).mpr ⟨rfl, hreturns⟩, Option.map_some,
    hlanding, List.append_assoc, List.drop_left]
  rfl

theorem stays_of_names {bucket : Bytes} (h : IsName bucket) {key : Bytes}
    (hkey : ∀ s ∈ segments key, IsName s) : fs.Stays bucket key := by
  intro p hp
  rw [pathOf_of_names fs h hkey] at hp
  exact ⟨_, List.splitOn_ne_nil 47 key, (Option.some.inj hp).symm⟩

end Paths

end S3s.Fs
