import S3s.Fs.Rejections

/-! # Verdicts on checksums

A payload comes with a `Content-MD5`, with checksums in headers and trailers, and with a declared algorithm.
`put_object` and `upload_part` compare what they compare by separate code: `put_object` wants a value of a
declared algorithm, `upload_part` does not look at the `Content-MD5`, and neither compares a header that a
trailer takes the place of.
-/
namespace S3s.Fs
open LexicalPath Programs FileTree

/-- The code of an error that is answered. -/
def Failure.code : Failure → Option S3ErrorCode
  | .error e => some e.code
  | .panic => none

/-- The text of a digest of a payload. -/
def FileSystem.digestText (fs : FileSystem) (payload : Bytes) (a : ChecksumAlgorithm) : Bytes :=
  Base64.encode (fs.digest a payload)

/-- What a payload comes with. -/
structure Supply where
  contentMd5 : Option Bytes
  headers : Checksum
  declared : Option ChecksumAlgorithm
  trailers : Option Http.HeaderMap

namespace Supply

variable (s : Supply)

/-- The request for an object that comes with this. -/
def put (input : PutObjectInput) : PutObjectInput :=
  { input with
    contentMd5 := s.contentMd5
    checksum := s.headers
    checksumAlgorithm := s.declared.map ChecksumAlgorithm.name }

/-- The request for a part that comes with this. -/
def part (input : UploadPartInput) : UploadPartInput :=
  { input with
    contentMd5 := s.contentMd5
    checksum := s.headers
    checksumAlgorithm := s.declared.map ChecksumAlgorithm.name }

/-- The values of an algorithm in the trailers. -/
def trailer (a : ChecksumAlgorithm) : List Bytes :=
  match s.trailers with
  | some trailers => trailers.getAll a.trailer
  | none => []

/-- The trailers are those of the declared algorithm. -/
def TrailersDeclared : Prop := ∀ a, s.trailer a ≠ [] → s.declared = some a

/-- A value that is supplied, in a header or in a trailer. -/
def Gives (a : ChecksumAlgorithm) (text : Bytes) : Prop := s.headers a = some text ∨ text ∈ s.trailer a

/-- The value that is compared: the first one of the trailers, or else the one of the header. -/
def compared : Checksum := fun a => (s.trailer a).head?.or (s.headers a)

/-- The first value, if there is one, is a text. -/
def FirstReadable (values : List Bytes) : Prop :=
  ∀ text, values.head? = some text → (toStr text).isSome = true

/-- The trailers that are looked at are texts. -/
def TrailersReadable : Prop := ∀ a, FirstReadable (s.trailer a)

/-- The `Content-MD5` is Base64. -/
def Md5Readable : Prop := ∀ text, s.contentMd5 = some text → (Base64.decode text).isSome = true

/-- The declared algorithm comes with a value. -/
def DeclaredGiven : Prop := ∀ a, s.declared = some a → (s.compared a).isSome = true

variable (fs : FileSystem) (payload : Bytes)

/-- The `Content-MD5` is that of the payload. -/
def Md5Right : Prop := ∀ text, s.contentMd5 = some text → Base64.decode text = some (fs.digest .md5 payload)

/-- The values that are compared are those of the payload. -/
def ComparedRight : Prop := ∀ a text, s.compared a = some text → text = fs.digestText payload a

/-- The `Content-MD5`, or a value that is supplied, differs from the digest of the payload. -/
def Differs : Prop := ¬s.Md5Right fs payload ∨ ∃ a text, s.Gives a text ∧ text ≠ fs.digestText payload a

variable {s fs payload}

theorem gives_of_compared {a : ChecksumAlgorithm} {text : Bytes} (h : s.compared a = some text) :
    s.Gives a text := by
  unfold compared at h
  cases hhead : (s.trailer a).head? with
  | none =>
    rw [hhead, Option.none_or] at h
    exact Or.inl h
  | some first =>
    rw [hhead, Option.some_or] at h
    rw [← Option.some.inj h]
    exact Or.inr (List.mem_of_head? hhead)

theorem compared_of_gives {a : ChecksumAlgorithm} {text : Bytes} (h : s.Gives a text) :
    (s.compared a).isSome = true := by
  unfold compared
  cases hhead : (s.trailer a).head? with
  | some first => rw [Option.some_or, Option.isSome_some]
  | none =>
    rw [List.head?_eq_none_iff] at hhead
    rcases h with h | h
    · rw [h, Option.none_or, Option.isSome_some]
    · rw [hhead] at h
      cases h

theorem toStr_digestText (fs : FileSystem) (payload : Bytes) (a : ChecksumAlgorithm) :
    (toStr (fs.digestText payload a)).isSome = true := by
  have hsymbols : ∀ n < 64, AwsChunked.isVisible (Base64.symbol n) = true := by decide
  have hall : (fs.digestText payload a).all AwsChunked.isVisible = true := by
    rw [List.all_eq_true]
    intro c hc
    rcases Base64.mem_encode hc with rfl | ⟨n, hn, rfl⟩
    · decide
    · exact hsymbols n hn
  rw [toStr, if_pos hall, Option.isSome_some]

/-- What differs in nothing is readable. -/
theorem right_of_not_differs (h : ¬s.Differs fs payload) :
    s.Md5Right fs payload ∧ s.TrailersReadable ∧ s.ComparedRight fs payload := by
  obtain ⟨hmd5, hvalues⟩ := not_or.mp h
  have hright : ∀ a text, s.Gives a text → text = fs.digestText payload a := by
    intro a text hgives
    by_contra hne
    exact hvalues ⟨a, text, hgives, hne⟩
  refine ⟨not_not.mp hmd5, fun a text hhead => ?_, fun a text hcompared => ?_⟩
  · rw [hright a text (Or.inr (List.mem_of_head? hhead))]
    exact toStr_digestText fs payload a
  · exact hright a text (gives_of_compared hcompared)

theorem Md5Right.readable (h : s.Md5Right fs payload) : s.Md5Readable := by
  intro text htext
  rw [h text htext, Option.isSome_some]

theorem differs_of_not_right (h : ¬s.ComparedRight fs payload) : s.Differs fs payload := by
  apply Or.inr
  by_contra hnone
  apply h
  intro a text hcompared
  by_contra hne
  exact hnone ⟨a, text, gives_of_compared hcompared, hne⟩

end Supply

section Checking

variable {fs : FileSystem} {s : Supply} {payload : Bytes}

/-- An error that says that a digest is bad. -/
abbrev IsBadDigest (e : Failure) : Prop := e.code = some .badDigest

theorem IsIo.not_badDigest {e : Failure} (h : IsIo e) : ¬IsBadDigest e := by
  obtain ⟨kind, rfl⟩ := h
  exact fun h => by cases h

variable {w : World}

/-- The `Content-MD5` is refused as it should be when it is Base64. -/
theorem meets_checkContentMd5 : (checkContentMd5 s.contentMd5 (fs.md5Sum payload)).Meets World.step w
    (fun _ w' => w' = w ∧ s.Md5Right fs payload)
    fun e w' => w' = w ∧ ¬s.Md5Right fs payload ∧ (IsBadDigest e ↔ s.Md5Readable) := by
  unfold checkContentMd5 Supply.Md5Right Supply.Md5Readable
  cases s.contentMd5 with
  | none => exact ⟨rfl, fun _ h => by cases h⟩
  | some text =>
    refine meets_demand.bind ?_ ?_
    · rintro digest _ ⟨rfl, hdecode⟩
      rw [meets_require]
      by_cases hequal : Bytes.encodeHex digest = fs.md5Sum payload
      · rw [if_pos (beq_iff_eq.mpr hequal)]
        refine ⟨rfl, ?_⟩
        rintro _ ⟨⟩
        rw [hdecode, Bytes.encodeHex_injective hequal]
      · rw [if_neg (by simpa using hequal)]
        refine ⟨rfl, fun hright => hequal ?_, iff_of_true rfl ?_⟩
        · have hsame := hdecode.symm.trans (hright text rfl)
          rw [Option.some.inj hsame]
          rfl
        · rintro _ ⟨⟩
          rw [hdecode, Option.isSome_some]
    · rintro e _ ⟨rfl, rfl, hdecode⟩
      refine ⟨rfl, fun hright => ?_, iff_of_false (fun h => by cases h) fun hreadable => ?_⟩
      · rw [hright text rfl] at hdecode
        cases hdecode
      · have hsome := hreadable text rfl
        rw [hdecode] at hsome
        cases hsome

theorem meets_trailingChecksum (trailers : Http.HeaderMap) (expected : Checksum) (a : ChecksumAlgorithm) :
    (trailingChecksum trailers expected a).Meets World.step w
      (fun expected' w' => w' = w ∧ Supply.FirstReadable (trailers.getAll a.trailer) ∧
        expected' = Function.update expected a ((trailers.getAll a.trailer).head?.or (expected a)))
      fun e w' => w' = w ∧ ¬IsBadDigest e ∧ ¬Supply.FirstReadable (trailers.getAll a.trailer) := by
  unfold trailingChecksum Supply.FirstReadable
  cases (trailers.getAll a.trailer).head? with
  | none =>
    refine ⟨rfl, ?_, ?_⟩
    · intro text h
      cases h
    · rw [Option.none_or, Function.update_eq_self]
  | some value =>
    refine meets_demand.bind ?_ ?_
    · rintro text _ ⟨rfl, htext⟩
      have hvalue : value = text := by
        unfold toStr at htext
        split at htext
        · exact Option.some.inj htext
        · cases htext
      refine ⟨rfl, ?_, ?_⟩
      · rintro _ ⟨⟩
        rw [htext, Option.isSome_some]
      · rw [Option.some_or, hvalue]
    · rintro e _ ⟨rfl, rfl, htext⟩
      refine ⟨rfl, ?_, fun hreadable => ?_⟩
      · intro h
        cases h
      · have hsome := hreadable value rfl
        rw [htext] at hsome
        cases hsome

theorem meets_trailingChecksums_list (trailers : Http.HeaderMap) (algorithms : List ChecksumAlgorithm)
    (expected : Checksum) : (algorithms.foldlM (trailingChecksum trailers) expected : Op Checksum).Meets
      World.step w (fun expected' w' => w' = w ∧
        (∀ a ∈ algorithms, Supply.FirstReadable (trailers.getAll a.trailer)) ∧
        ∀ a : ChecksumAlgorithm, expected' a =
          if a ∈ algorithms then (trailers.getAll a.trailer).head?.or (expected a) else expected a)
      fun e w' => w' = w ∧ ¬IsBadDigest e ∧
        ∃ a : ChecksumAlgorithm, ¬Supply.FirstReadable (trailers.getAll a.trailer) := by
  induction algorithms generalizing expected with
  | nil => exact ⟨rfl, fun a ha => absurd ha List.not_mem_nil, fun a => by simp⟩
  | cons a algorithms ih =>
    rw [List.foldlM_cons]
    refine (meets_trailingChecksum trailers expected a).bind ?_ ?_
    · rintro _ _ ⟨rfl, hfirst, rfl⟩
      refine (ih _).mono ?_ fun _ _ h => h
      rintro expected' _ ⟨rfl, hrest, hvalues⟩
      refine ⟨rfl, fun b hb => ?_, fun b => ?_⟩
      · rcases List.mem_cons.mp hb with rfl | hb
        · exact hfirst
        · exact hrest b hb
      · rw [hvalues b]
        by_cases hb : b = a
        · subst hb
          rw [Function.update_self, if_pos List.mem_cons_self]
          cases (trailers.getAll b.trailer).head? <;> simp
        · simp [hb]
    · rintro e _ ⟨rfl, hcode, hnot⟩
      exact ⟨rfl, hcode, a, hnot⟩

theorem meets_trailingChecksums : (trailingChecksums s.trailers s.headers).Meets World.step w
    (fun expected w' => w' = w ∧ s.TrailersReadable ∧ expected = s.compared)
    fun e w' => w' = w ∧ ¬IsBadDigest e ∧ ¬s.TrailersReadable := by
  unfold trailingChecksums Supply.TrailersReadable Supply.compared Supply.trailer
  cases s.trailers with
  | none =>
    refine ⟨rfl, ?_, rfl⟩
    intro a text h
    cases h
  | some trailers =>
    refine (meets_trailingChecksums_list trailers ChecksumAlgorithm.all s.headers).mono ?_ ?_
    · rintro expected _ ⟨rfl, hreadable, hvalues⟩
      refine ⟨rfl, fun a => hreadable a (ChecksumAlgorithm.mem_all a), funext fun a => ?_⟩
      rw [hvalues a, if_pos (ChecksumAlgorithm.mem_all a)]
    · rintro e _ ⟨rfl, hcode, a, hnot⟩
      exact ⟨rfl, hcode, fun h => hnot (h a)⟩

theorem meets_checkPutChecksums (actual expected : Checksum) :
    (checkPutChecksums actual expected).Meets World.step w (fun _ w' => w' = w ∧ actual = expected)
      fun e w' => w' = w ∧ IsBadDigest e ∧ actual ≠ expected := by
  unfold checkPutChecksums
  cases hfind : ChecksumAlgorithm.all.find? fun a => actual a != expected a with
  | none =>
    refine ⟨rfl, funext fun a => ?_⟩
    have ha := List.find?_eq_none.mp hfind a (ChecksumAlgorithm.mem_all a)
    simpa using ha
  | some a =>
    refine ⟨rfl, rfl, fun hequal => ?_⟩
    have ha := List.find?_some hfind
    rw [hequal] at ha
    simp at ha

theorem meets_checkExpected (actual expected : Checksum) :
    (checkExpected actual expected digestMismatch).Meets World.step w
      (fun _ w' => w' = w ∧ Agrees actual expected) fun e w' => w' = w ∧ IsBadDigest e ∧
        ¬Agrees actual expected := by
  unfold checkExpected
  cases hmismatch : checksumMismatch actual expected with
  | none => exact ⟨rfl, checksumMismatch_eq_none_iff.mp hmismatch⟩
  | some a =>
    refine ⟨rfl, rfl, fun hagrees => ?_⟩
    rw [checksumMismatch_eq_none_iff.mpr hagrees] at hmismatch
    cases hmismatch

end Checking

section Judging

variable {fs : FileSystem} {s : Supply} {payload : Bytes} {w : World}

/-- A directory stands where the temporary file goes. -/
def World.Obstructed (w : World) : Prop := w.disk.get w.tmpPath = some .dir

/-- A body that is written and judged: it is accepted, or refused, which may be for a bad digest. -/
theorem meets_judged {α β : Type} {write : List Bytes → Op α} {next : α → Op β} {dest : List Bytes} {a₀ : α}
    {Accepted Refused : Prop} {Q : β → World → Prop} (hexclusive : Accepted → ¬Refused)
    (hwrite : ∀ w₁, w.Open w₁ [] → (write w.tmpPath).Meets World.step w₁
      (fun a w₂ => a = a₀ ∧ Accepted ∧ ∃ content, w.Open w₂ content)
      fun e w₂ => (¬Accepted ∧ (IsBadDigest e ↔ Refused)) ∧ ∃ content, w.Open w₂ content)
    (hnext : ∀ w₂, (next a₀).Meets World.step w₂ Q fun e _ => IsIo e) :
    (fs.writing dest write >>= next).Meets World.step w
      (fun b w' => (¬w.Obstructed ∧ Accepted) ∧ Q b w')
      fun e _ => IsBadDigest e ↔ ¬w.Obstructed ∧ Refused := by
  have hio {e : Failure} (hio : IsIo e) (hwhy : w.Obstructed ∨ Accepted) :
      IsBadDigest e ↔ ¬w.Obstructed ∧ Refused := by
    refine iff_of_false hio.not_badDigest ?_
    rintro ⟨hfree, hrefused⟩
    rcases hwhy with hdir | haccepted
    · exact hfree hdir
    · exact hexclusive haccepted hrefused
  refine (@meets_writing_causes w fs _ _ (fun a _ => a = a₀ ∧ ¬w.Obstructed ∧ Accepted)
    (fun e => ¬w.Obstructed ∧ (IsBadDigest e ↔ Refused)) dest ?_).bind ?_ ?_
  · intro w₁ hopen
    refine (hwrite w₁ hopen).mono ?_ ?_
    · rintro a w₂ ⟨ha, haccepted, content, h₂⟩
      exact ⟨content, ⟨ha, hopen.not_dir, haccepted⟩, h₂⟩
    · rintro e w₂ ⟨⟨-, hcode⟩, h₂⟩
      exact ⟨⟨hopen.not_dir, hcode⟩, h₂⟩
  · rintro a w₂ ⟨_, ⟨rfl, hfree, haccepted⟩, -⟩
    exact (hnext w₂).mono (fun _ _ hQ => ⟨⟨hfree, haccepted⟩, hQ⟩) fun _ _ h => hio h (Or.inr haccepted)
  · rintro e w₂ ⟨⟨hfree, hcode⟩ | ⟨h, hwhy⟩, -⟩
    · exact hcode.trans (iff_and_self.mpr fun _ => hfree)
    · refine hio h (hwhy.imp_right ?_)
      rintro ⟨⟨a, _, -, -, haccepted⟩, -⟩
      exact haccepted

/-- What `put_object` accepts. -/
def FileSystem.PutAccepts (fs : FileSystem) (s : Supply) (payload : Bytes) (actual : Checksum) : Prop :=
  s.Md5Right fs payload ∧ s.TrailersReadable ∧ actual = s.compared

/-- What `put_object` refuses for a bad digest. -/
def FileSystem.PutRefuses (fs : FileSystem) (s : Supply) (payload : Bytes) (actual : Checksum) : Prop :=
  s.Md5Readable ∧ ¬s.Md5Right fs payload ∨ s.Md5Right fs payload ∧ s.TrailersReadable ∧ actual ≠ s.compared

/-- What `upload_part` accepts. -/
def Supply.PartAccepts (s : Supply) (actual : Checksum) : Prop := s.TrailersReadable ∧ Agrees actual s.compared

/-- What `upload_part` refuses for a bad digest. -/
def Supply.PartRefuses (s : Supply) (actual : Checksum) : Prop :=
  s.TrailersReadable ∧ ¬Agrees actual s.compared

theorem meets_receivePut_verdict (input : PutObjectInput) {stream : List (Except StreamError Bytes)}
    (hcontent : contentOf stream = some payload) (hasher : ChecksumAlgorithm → Bool) {w₁ : World}
    (h : w.Open w₁ []) :
    (fs.receivePut (s.put input) s.trailers stream hasher w.tmpPath).Meets World.step w₁
      (fun a w₂ => a = (fs.md5Sum payload, fs.finalize hasher payload) ∧
        fs.PutAccepts s payload (fs.finalize hasher payload) ∧ ∃ content, w.Open w₂ content)
      fun e w₂ => (¬fs.PutAccepts s payload (fs.finalize hasher payload) ∧
        (IsBadDigest e ↔ fs.PutRefuses s payload (fs.finalize hasher payload))) ∧
          ∃ content, w.Open w₂ content := by
  refine (meets_copyBytes stream h).bind ?_ ?_
  · rintro content w₂ ⟨hcontent', h₂⟩
    obtain rfl : payload = content := Option.some.inj (hcontent.symm.trans hcontent')
    refine (@meets_checkContentMd5 fs s payload w₂).bind ?_ ?_
    · rintro _ _ ⟨rfl, hmd5⟩
      refine meets_trailingChecksums.bind ?_ ?_
      · rintro _ _ ⟨rfl, hreadable, rfl⟩
        refine (meets_checkPutChecksums _ _).bind ?_ ?_
        · rintro _ _ ⟨rfl, hequal⟩
          exact ⟨rfl, ⟨hmd5, hreadable, hequal⟩, _, h₂⟩
        · rintro e _ ⟨rfl, hbad, hne⟩
          exact ⟨⟨fun haccepts => hne haccepts.2.2, iff_of_true hbad (Or.inr ⟨hmd5, hreadable, hne⟩)⟩, _, h₂⟩
      · rintro e _ ⟨rfl, hcode, hnot⟩
        refine ⟨⟨fun haccepts => hnot haccepts.2.1, iff_of_false hcode ?_⟩, _, h₂⟩
        rintro (⟨-, hwrong⟩ | ⟨-, hreadable, -⟩)
        · exact hwrong hmd5
        · exact hnot hreadable
    · rintro e _ ⟨rfl, hwrong, hcode⟩
      refine ⟨⟨fun haccepts => hwrong haccepts.1, hcode.trans ⟨fun hreadable => Or.inl ⟨hreadable, hwrong⟩, ?_⟩⟩,
        _, h₂⟩
      rintro (⟨hreadable, -⟩ | ⟨hmd5, -⟩)
      · exact hreadable
      · exact absurd hmd5 hwrong
  · rintro e w₂ ⟨hbroken, -⟩
    rw [hcontent] at hbroken
    cases hbroken

theorem meets_receivePart_verdict {stream : List (Except StreamError Bytes)}
    (hcontent : contentOf stream = some payload) (hasher : ChecksumAlgorithm → Bool) {w₁ : World}
    (h : w.Open w₁ []) :
    (fs.receivePart s.headers s.trailers stream hasher w.tmpPath).Meets World.step w₁
      (fun a w₂ => a = (fs.md5Sum payload, fs.finalize hasher payload) ∧
        s.PartAccepts (fs.finalize hasher payload) ∧ ∃ content, w.Open w₂ content)
      fun e w₂ => (¬s.PartAccepts (fs.finalize hasher payload) ∧
        (IsBadDigest e ↔ s.PartRefuses (fs.finalize hasher payload))) ∧ ∃ content, w.Open w₂ content := by
  refine (meets_copyBytes stream h).bind ?_ ?_
  · rintro content w₂ ⟨hcontent', h₂⟩
    obtain rfl : payload = content := Option.some.inj (hcontent.symm.trans hcontent')
    refine meets_trailingChecksums.bind ?_ ?_
    · rintro _ _ ⟨rfl, hreadable, rfl⟩
      refine (meets_checkExpected _ _).bind ?_ ?_
      · rintro _ _ ⟨rfl, hagrees⟩
        exact ⟨rfl, ⟨hreadable, hagrees⟩, _, h₂⟩
      · rintro e _ ⟨rfl, hbad, hnot⟩
        exact ⟨⟨fun haccepts => hnot haccepts.2, iff_of_true hbad ⟨hreadable, hnot⟩⟩, _, h₂⟩
    · rintro e _ ⟨rfl, hcode, hnot⟩
      exact ⟨⟨fun haccepts => hnot haccepts.1, iff_of_false hcode fun hrefuses => hnot hrefuses.1⟩, _, h₂⟩
  · rintro e w₂ ⟨hbroken, -⟩
    rw [hcontent] at hbroken
    cases hbroken

end Judging

section Serving

variable {fs : FileSystem} {s : Supply} {payload : Bytes} {w : World}

/-- The checksums that are computed for what is supplied. -/
def Supply.enabled (s : Supply) (a : ChecksumAlgorithm) : Bool := (s.headers a).isSome || s.declared == some a

theorem gives_enableGiven (hasher : ChecksumAlgorithm → Bool) (algorithm : Option Bytes) :
    (enableGiven hasher algorithm).Gives fun hasher' =>
      ∀ a, hasher' a = (hasher a || algorithm == some a.name) := by
  cases algorithm with
  | none => exact fun a => by simp
  | some algorithm =>
    simp only [enableGiven, enableChecksumAlgorithm]
    cases hfind : ChecksumAlgorithm.all.find? fun a => a.name == algorithm with
    | none => trivial
    | some b =>
      have hname : b.name = algorithm := by simpa using List.find?_some hfind
      intro a
      by_cases hab : a = b
      · simp [hab, hname]
      · have hne : algorithm ≠ a.name := fun h => hab (ChecksumAlgorithm.name_injective (hname.trans h)).symm
        show (hasher a || a == b) = (hasher a || some algorithm == some a.name)
        rw [beq_eq_false_iff_ne.mpr hab, beq_eq_false_iff_ne.mpr fun h => hne (Option.some.inj h)]

theorem declared_beq (s : Supply) (a : ChecksumAlgorithm) :
    (s.declared.map ChecksumAlgorithm.name == some a.name) = (s.declared == some a) := by
  cases s.declared with
  | none => rfl
  | some b =>
    rw [Option.map_some, Bool.eq_iff_iff, beq_iff_eq, beq_iff_eq, Option.some.injEq, Option.some.injEq]
    exact ⟨ChecksumAlgorithm.name_injective, fun h => h ▸ rfl⟩

theorem gives_putChecks (input : PutObjectInput) : (fs.putChecks (s.put input)).Gives fun x =>
    input.body = some x.1 ∧ x.2.2 = s.enabled := by
  apply (Prog.gives_true _).bind
  intro _ _
  apply (gives_demand _ _).bind
  intro stream hstream
  apply (Prog.gives_true _).bind
  intro objectPath _
  apply (Prog.gives_true _).bind
  intro _ _
  apply (gives_enableGiven _ _).bind
  intro hasher hhasher
  refine ⟨hstream, funext fun a => ?_⟩
  exact (hhasher a).trans (congrArg _ (declared_beq s a))

theorem gives_partChecks (input : UploadPartInput) (cred : Option Bytes) :
    (fs.partChecks (s.part input) cred).Gives fun x =>
      input.body = some x.1 ∧ fs.parseUuid input.uploadId = some x.2.1 ∧
        ∀ a, s.enabled a = true → x.2.2 a = true := by
  apply (Prog.gives_true _).bind
  intro _ _
  apply (gives_demand _ _).bind
  intro stream hstream
  apply (gives_openUpload fs cred _).bind
  intro u hu
  apply (Prog.gives_true _).bind
  intro attrs _
  apply (gives_enableGiven _ _).bind
  intro given hgiven
  apply (gives_enableGiven _ _).bind
  intro hasher hhasher
  refine ⟨hstream, hu, fun a ha => ?_⟩
  have hdeclared : (s.part input).checksumAlgorithm = s.declared.map ChecksumAlgorithm.name := rfl
  show hasher a = true
  rw [hhasher a, hgiven a, hdeclared, declared_beq]
  rcases Bool.or_eq_true_iff.mp ha with ha | ha
  · rw [enableExpectedChecksums, show (s.part input).checksum a = s.headers a from rfl, ha]
    rfl
  · rw [ha, Bool.or_true]

/-- The verdict of `put_object`, and what it stores. -/
theorem meets_putObject_verdict {input : PutObjectInput} {cred : Option Bytes}
    (hadmits : fs.Admits cred w (.putObject (s.put input) s.trailers))
    (hbody : input.body.bind contentOf = some payload) :
    (fs.putObject (s.put input) s.trailers).Meets World.step w
      (fun _ w' => (¬w.Obstructed ∧ fs.PutAccepts s payload (fs.finalize s.enabled payload)) ∧
        fs.infoIn w'.disk (.internalInfo input.bucket input.key) =
          some (modifyInternalInfo (saveETag [] (fs.md5Sum payload)) (fs.finalize s.enabled payload)))
      fun e _ => IsBadDigest e ↔
        ¬w.Obstructed ∧ fs.PutRefuses s payload (fs.finalize s.enabled payload) := by
  obtain ⟨hslash, hpasses⟩ := hadmits
  obtain ⟨⟨stream, objectPath, hasher⟩, w₁, hrun⟩ := eq_ok_of_isOk hpasses
  have hsame := (meets_of_reads (reads_putChecks fs (s.put input)) w).returned hrun
  obtain ⟨hstream, rfl⟩ := ((gives_putChecks input).meets w).returned hrun
  rw [hstream, Option.bind_some] at hbody
  have hobstructed : w₁.Obstructed ↔ w.Obstructed := by
    rw [World.Obstructed, World.tmpPath, hsame.disk, hsame.counter]
    rfl
  rw [putObject_eq, ← hobstructed]
  refine Prog.Meets.of_run hrun ?_
  rw [if_neg (ne_true_of_eq_false hslash)]
  refine meets_judged ?_ (fun w₂ h => meets_receivePut_verdict input hbody s.enabled h) ?_
  · rintro ⟨hmd5, -, hequal⟩ (⟨-, hwrong⟩ | ⟨-, -, hne⟩)
    · exact hwrong hmd5
    · exact hne hequal
  · intro w₂
    refine (meets_saveFile fs _ _).bind ?_ fun _ _ h => h.1.1
    intro _ w₃ _
    refine (meets_saveFile fs _ _).bind ?_ fun _ _ h => h.1.1
    exact fun _ w₄ hsaved => hsaved.infoIn fs

/-- The verdict of `upload_part`, and what it stores. -/
theorem meets_uploadPart_verdict {input : UploadPartInput} {cred : Option Bytes}
    (hadmits : fs.Admits cred w (.uploadPart (s.part input) s.trailers))
    (hbody : input.body.bind contentOf = some payload) : ∃ hasher : ChecksumAlgorithm → Bool,
    (∀ a, s.enabled a = true → hasher a = true) ∧
    (fs.uploadPart (s.part input) cred s.trailers).Meets World.step w
      (fun _ w' => (¬w.Obstructed ∧ s.PartAccepts (fs.finalize hasher payload)) ∧
        ∃ u, fs.parseUuid input.uploadId = some u ∧
          fs.infoIn w'.disk (.uploadPartInfo u input.partNumber) =
            some (modifyInternalInfo (saveETag [] (fs.md5Sum payload)) (fs.finalize hasher payload)))
      fun e _ => IsBadDigest e ↔ ¬w.Obstructed ∧ s.PartRefuses (fs.finalize hasher payload) := by
  obtain ⟨⟨stream, u, hasher⟩, w₁, hrun⟩ := eq_ok_of_isOk hadmits
  have hsame := (meets_of_reads (reads_partChecks fs (s.part input) cred) w).returned hrun
  obtain ⟨hstream, hu, henabled⟩ := ((gives_partChecks input cred).meets w).returned hrun
  rw [hstream, Option.bind_some] at hbody
  have hobstructed : w₁.Obstructed ↔ w.Obstructed := by
    rw [World.Obstructed, World.tmpPath, hsame.disk, hsame.counter]
    rfl
  refine ⟨hasher, henabled, ?_⟩
  rw [uploadPart_eq, ← hobstructed]
  refine Prog.Meets.of_run hrun ?_
  refine meets_judged ?_ (fun w₂ h => meets_receivePart_verdict hbody hasher h) ?_
  · exact fun haccepts hrefuses => hrefuses.2 haccepts.2
  · intro w₂
    refine (meets_saveFile fs _ _).bind ?_ fun _ _ h => h.1.1
    exact fun _ w₃ hsaved => ⟨u, hu, hsaved.infoIn fs⟩

end Serving

section Exactness

variable {fs : FileSystem} {s : Supply} {payload : Bytes} {w w' : World}

/-- The file that tells of the checksums of what a request stores. -/
def FileSystem.infoFile (fs : FileSystem) : Request → Option StoreFile
  | .putObject input _ => some (.internalInfo input.bucket input.key)
  | .uploadPart input _ => (fs.parseUuid input.uploadId).map (.uploadPartInfo · input.partNumber)
  | _ => none

/-- Whether a request is answered with a bad digest. -/
def RepliesBadDigest (x : Except Failure Response) : Prop := ∃ e, x = .error e ∧ IsBadDigest e

/-- A request fails with a bad digest exactly when something that is supplied differs from the payload, and
when it succeeds all that is supplied is stored. -/
structure FileSystem.ExactVerdict (fs : FileSystem) (s : Supply) (payload : Bytes) (cred : Option Bytes)
    (w : World) (r : Request) : Prop where
  refused : RepliesBadDigest (fs.serve cred r w).1 ↔ s.Differs fs payload
  stored : (fs.serve cred r w).1.isOk = true → ∀ a text, s.Gives a text → ∃ f, fs.infoFile r = some f ∧
    (fs.infoIn (fs.serve cred r w).2.disk f).bind (readChecksum · a) = some text

/-- The answer of an operation, by its verdict. -/
theorem alone_verdict {α : Type} {p : Op α} {f : α → Response} {A R : Prop} {S : World → Prop}
    (hexclusive : A → ¬R) (h : p.Meets World.step w (fun _ w' => A ∧ S w') fun e _ => IsBadDigest e ↔ R) :
    (RepliesBadDigest (alone p f w).1 ↔ R) ∧ ((alone p f w).1.isOk = true → S (alone p f w).2) := by
  apply alone_of_meets (f := f) (D := fun x w' => (RepliesBadDigest x ↔ R) ∧ (x.isOk = true → S w'))
  refine h.mono ?_ ?_
  · rintro a w' ⟨haccepted, hS⟩
    refine ⟨iff_of_false ?_ (hexclusive haccepted), fun _ => hS⟩
    rintro ⟨e, he, -⟩
    cases he
  · intro e w' hcode
    refine ⟨?_, fun hok => by cases hok⟩
    constructor
    · rintro ⟨e', he', hbad⟩
      rw [← Except.error.inj he'] at hbad
      exact hcode.mp hbad
    · exact fun hR => ⟨e, rfl, hcode.mpr hR⟩

/-- What is compared is computed. -/
theorem enabled_of_compared (hdeclared : s.TrailersDeclared) {a : ChecksumAlgorithm}
    (h : (s.compared a).isSome = true) : s.enabled a = true := by
  unfold Supply.enabled
  cases hvalues : s.trailer a with
  | nil =>
    rw [Supply.compared, hvalues, List.head?_nil, Option.none_or] at h
    rw [h, Bool.true_or]
  | cons text rest =>
    rw [hdeclared a (by simp [hvalues]), beq_self_eq_true, Bool.or_true]

theorem finalize_of_enabled {hasher : ChecksumAlgorithm → Bool} {a : ChecksumAlgorithm}
    (h : hasher a = true) : fs.finalize hasher payload a = some (fs.digestText payload a) := by
  rw [FileSystem.finalize, if_pos h]
  rfl

/-- `upload_part` compares each value that it looks at. -/
theorem agrees_iff (hdeclared : s.TrailersDeclared) {hasher : ChecksumAlgorithm → Bool}
    (hhasher : ∀ a, s.enabled a = true → hasher a = true) :
    Agrees (fs.finalize hasher payload) s.compared ↔ s.ComparedRight fs payload := by
  have hactual {a : ChecksumAlgorithm} {text : Bytes} (h : s.compared a = some text) :
      fs.finalize hasher payload a = some (fs.digestText payload a) :=
    finalize_of_enabled (hhasher a (enabled_of_compared hdeclared (by rw [h, Option.isSome_some])))
  constructor
  · intro h a text hcompared
    exact Option.some.inj ((h a text hcompared).symm.trans (hactual hcompared))
  · intro h a text hcompared
    rw [hactual hcompared, h a text hcompared]

/-- `put_object` compares each value that it looks at, and wants one of the declared algorithm. -/
theorem finalize_eq_compared_iff (hdeclared : s.TrailersDeclared) :
    fs.finalize s.enabled payload = s.compared ↔ s.ComparedRight fs payload ∧ s.DeclaredGiven := by
  constructor
  · intro h
    refine ⟨(agrees_iff hdeclared fun _ h => h).mp fun a text hcompared => by rw [h, hcompared], ?_⟩
    intro a ha
    have henabled : s.enabled a = true := by rw [Supply.enabled, ha, beq_self_eq_true, Bool.or_true]
    rw [← h, finalize_of_enabled henabled, Option.isSome_some]
  · rintro ⟨hright, hgiven⟩
    funext a
    cases hcompared : s.compared a with
    | some text =>
      have henabled := enabled_of_compared hdeclared (a := a) (by rw [hcompared, Option.isSome_some])
      rw [finalize_of_enabled henabled, hright a text hcompared]
    | none =>
      have hnot : ¬s.enabled a = true := by
        intro henabled
        rcases Bool.or_eq_true_iff.mp henabled with hheader | hdecl
        · obtain ⟨text, htext⟩ := Option.isSome_iff_exists.mp hheader
          have hsome := Supply.compared_of_gives (Or.inl htext)
          rw [hcompared] at hsome
          cases hsome
        · have hsome := hgiven a (eq_of_beq hdecl)
          rw [hcompared] at hsome
          cases hsome
      rw [FileSystem.finalize, if_neg hnot]

/-- What is supplied and differs in nothing is what is stored. -/
theorem stored_of_not_differs (hdeclared : s.TrailersDeclared) (h : ¬s.Differs fs payload)
    {hasher : ChecksumAlgorithm → Bool} (hhasher : ∀ a, s.enabled a = true → hasher a = true)
    {a : ChecksumAlgorithm} {text : Bytes} (hgives : s.Gives a text) :
    fs.finalize hasher payload a = some text := by
  have henabled := enabled_of_compared hdeclared (Supply.compared_of_gives hgives)
  rw [finalize_of_enabled (hhasher a henabled)]
  by_contra hne
  exact h (Or.inr ⟨a, text, hgives, fun heq => hne (by rw [heq])⟩)

/-- A verdict is exact when a digest is refused as it should be: what is stored is then right. -/
theorem exactVerdict_iff {cred : Option Bytes} {r : Request} {R : Prop} {hasher : ChecksumAlgorithm → Bool}
    (hdeclared : s.TrailersDeclared) (hhasher : ∀ a, s.enabled a = true → hasher a = true)
    (hcode : RepliesBadDigest (fs.serve cred r w).1 ↔ R)
    (hstored : (fs.serve cred r w).1.isOk = true → ∃ f, fs.infoFile r = some f ∧
      fs.infoIn (fs.serve cred r w).2.disk f =
        some (modifyInternalInfo (saveETag [] (fs.md5Sum payload)) (fs.finalize hasher payload))) :
    fs.ExactVerdict s payload cred w r ↔ (R ↔ s.Differs fs payload) := by
  constructor
  · exact fun h => hcode.symm.trans h.refused
  · intro h
    refine ⟨hcode.trans h, fun hok a text hgives => ?_⟩
    have hnot : ¬s.Differs fs payload := by
      intro hdiffers
      obtain ⟨e, he, -⟩ := (hcode.trans h).mpr hdiffers
      rw [he] at hok
      cases hok
    obtain ⟨f, hf, hinfo⟩ := hstored hok
    refine ⟨f, hf, ?_⟩
    rw [hinfo, Option.bind_some, readChecksum_modifyInternalInfo]
    exact stored_of_not_differs hdeclared hnot hhasher hgives

theorem putVerdict_iff {input : PutObjectInput} {cred : Option Bytes} (hdeclared : s.TrailersDeclared)
    (hadmits : fs.Admits cred w (.putObject (s.put input) s.trailers))
    (hbody : input.body.bind contentOf = some payload) :
    fs.ExactVerdict s payload cred w (.putObject (s.put input) s.trailers) ↔
      (¬w.Obstructed ∧ fs.PutRefuses s payload (fs.finalize s.enabled payload) ↔ s.Differs fs payload) := by
  have hexclusive : ¬w.Obstructed ∧ fs.PutAccepts s payload (fs.finalize s.enabled payload) →
      ¬(¬w.Obstructed ∧ fs.PutRefuses s payload (fs.finalize s.enabled payload)) := by
    rintro ⟨-, hmd5, -, hequal⟩ ⟨-, ⟨-, hwrong⟩ | ⟨-, -, hne⟩⟩
    · exact hwrong hmd5
    · exact hne hequal
  obtain ⟨hcode, hstored⟩ := alone_verdict (f := Response.put) hexclusive
    (meets_putObject_verdict hadmits hbody)
  exact exactVerdict_iff hdeclared (fun _ h => h) hcode fun hok => ⟨_, rfl, hstored hok⟩

theorem partVerdict_iff {input : UploadPartInput} {cred : Option Bytes} (hdeclared : s.TrailersDeclared)
    (hadmits : fs.Admits cred w (.uploadPart (s.part input) s.trailers))
    (hbody : input.body.bind contentOf = some payload) :
    fs.ExactVerdict s payload cred w (.uploadPart (s.part input) s.trailers) ↔
      (¬w.Obstructed ∧ s.TrailersReadable ∧ ¬s.ComparedRight fs payload ↔ s.Differs fs payload) := by
  obtain ⟨hasher, hhasher, hmeets⟩ := meets_uploadPart_verdict hadmits hbody
  obtain ⟨hcode, hstored⟩ := alone_verdict (f := Response.part)
    (fun haccepts hrefuses => hrefuses.2.2 haccepts.2.2) hmeets
  rw [Supply.PartRefuses, agrees_iff hdeclared hhasher] at hcode
  refine exactVerdict_iff hdeclared hhasher hcode fun hok => ?_
  obtain ⟨u, hu, hinfo⟩ := hstored hok
  exact ⟨.uploadPartInfo u input.partNumber, congrArg (Option.map _) hu, hinfo⟩

/-- The verdicts of `put_object` and `upload_part` are exact if and only if nothing that is supplied differs
and the declared algorithm comes with a value, or a value that both compare differs and they get to it. -/
theorem checksum_verdicts_iff {putInput : PutObjectInput} {partInput : UploadPartInput}
    {putCred partCred : Option Bytes} {putWorld partWorld : World} (hdeclared : s.TrailersDeclared)
    (hput : fs.Admits putCred putWorld (.putObject (s.put putInput) s.trailers))
    (hpart : fs.Admits partCred partWorld (.uploadPart (s.part partInput) s.trailers))
    (hputBody : putInput.body.bind contentOf = some payload)
    (hpartBody : partInput.body.bind contentOf = some payload) :
    fs.ExactVerdict s payload putCred putWorld (.putObject (s.put putInput) s.trailers) ∧
        fs.ExactVerdict s payload partCred partWorld (.uploadPart (s.part partInput) s.trailers) ↔
      ¬s.Differs fs payload ∧ (s.DeclaredGiven ∨ putWorld.Obstructed) ∨
        ¬s.ComparedRight fs payload ∧ s.TrailersReadable ∧ s.Md5Readable ∧
          ¬putWorld.Obstructed ∧ ¬partWorld.Obstructed := by
  rw [putVerdict_iff hdeclared hput hputBody, partVerdict_iff hdeclared hpart hpartBody]
  have hequal := @finalize_eq_compared_iff fs s payload hdeclared
  by_cases hdiffers : s.Differs fs payload
  · rw [iff_true_right hdiffers, iff_true_right hdiffers]
    constructor
    · rintro ⟨⟨hfree, hrefuses⟩, hfree', hreadable, hwrong⟩
      refine Or.inr ⟨hwrong, hreadable, ?_, hfree, hfree'⟩
      rcases hrefuses with ⟨hmd5, -⟩ | ⟨hmd5, -⟩
      · exact hmd5
      · exact hmd5.readable
    · rintro (⟨hnot, -⟩ | ⟨hwrong, hreadable, hmd5, hfree, hfree'⟩)
      · exact absurd hdiffers hnot
      · refine ⟨⟨hfree, ?_⟩, hfree', hreadable, hwrong⟩
        by_cases hright : s.Md5Right fs payload
        · exact Or.inr ⟨hright, hreadable, fun h => hwrong (hequal.mp h).1⟩
        · exact Or.inl ⟨hmd5, hright⟩
  · obtain ⟨hmd5, hreadable, hright⟩ := Supply.right_of_not_differs hdiffers
    rw [iff_false_right hdiffers, iff_false_right hdiffers]
    constructor
    · rintro ⟨hput, -⟩
      refine Or.inl ⟨hdiffers, ?_⟩
      by_contra hneither
      obtain ⟨hgiven, hfree⟩ := not_or.mp hneither
      exact hput ⟨hfree, Or.inr ⟨hmd5, hreadable, fun h => hgiven (hequal.mp h).2⟩⟩
    · rintro (⟨-, hgiven⟩ | ⟨hwrong, -⟩)
      · refine ⟨?_, fun h => h.2.2 hright⟩
        rintro ⟨hfree, ⟨-, hwrong⟩ | ⟨-, -, hne⟩⟩
        · exact hwrong hmd5
        · exact hne (hequal.mpr ⟨hright, hgiven.resolve_right hfree⟩)
      · exact absurd hright hwrong

end Exactness

section Samples

/-- An object of one byte, and a part of one byte, that may come with checksums. -/
def samplePut : PutObjectInput :=
  ⟨ascii "pics", ascii "a", some [.ok [1]], none, none, none, .default, none, none, fun _ => none, none⟩

def samplePart : UploadPartInput :=
  ⟨ascii "pics", ascii "a", sampleId.text, 1, some [.ok [1]], none, fun _ => none, none⟩

/-- Nothing but a CRC32, in a header. -/
def suppliesCrc32 : Supply := ⟨none, fun a => if a = .crc32 then some [] else none, some .crc32, none⟩

/-- A CRC32 is declared, and not given. -/
def declaresCrc32 : Supply := ⟨none, fun _ => none, some .crc32, none⟩

/-- The `Content-MD5` of something else. -/
def suppliesMd5 : Supply := ⟨some (ascii "AAAA"), fun _ => none, none, none⟩

theorem trailersDeclared_of_none {s : Supply} (h : s.trailers = none) : s.TrailersDeclared := by
  intro a hvalues
  rw [Supply.trailer, h] at hvalues
  exact absurd rfl hvalues

theorem repliesBadDigest_of_failureOf {x : Except Failure Response}
    (h : (failureOf x).bind Failure.code = some .badDigest) : RepliesBadDigest x := by
  cases x with
  | error e => exact ⟨e, rfl, h⟩
  | ok _ => cases h

set_option maxRecDepth 100000 in
theorem checksum_verdicts_iff_crc32 :
    uploadStore.ExactVerdict suppliesCrc32 [1] none World.empty (.putObject (suppliesCrc32.put samplePut) none) ∧
      uploadStore.ExactVerdict suppliesCrc32 [1] (some [97]) (behind [asksUpload])
        (.uploadPart (suppliesCrc32.part samplePart) none) := by
  have hdiffers : ¬suppliesCrc32.Differs uploadStore [1] := by
    rintro (hwrong | ⟨a, text, hheader | htrailer, hne⟩)
    · exact hwrong fun text h => by cases h
    · have hvalue : (if a = .crc32 then some [] else none) = some text := hheader
      split at hvalue
      · exact hne (Option.some.inj hvalue).symm
      · cases hvalue
    · cases htrailer
  refine (checksum_verdicts_iff (trailersDeclared_of_none rfl) ⟨?_, ?_⟩ ?_ rfl rfl).mpr
    (Or.inl ⟨hdiffers, Or.inl ?_⟩)
  · decide
  · decide +kernel
  · show ((uploadStore.partChecks (suppliesCrc32.part samplePart) (some [97])).run World.step
      (behind [asksUpload])).1.isOk = true
    decide +kernel
  · rintro a ⟨⟩
    rfl

set_option maxRecDepth 100000 in
/-- `put_object` refuses a declared algorithm without a value, and `upload_part` takes a wrong `Content-MD5`. -/
theorem checksum_verdicts_differ :
    (uploadStore.Admits none World.empty (.putObject (declaresCrc32.put samplePut) none) ∧
      ¬uploadStore.ExactVerdict declaresCrc32 [1] none World.empty
        (.putObject (declaresCrc32.put samplePut) none)) ∧
    uploadStore.Admits (some [97]) (behind [asksUpload]) (.uploadPart (suppliesMd5.part samplePart) none) ∧
      ¬uploadStore.ExactVerdict suppliesMd5 [1] (some [97]) (behind [asksUpload])
        (.uploadPart (suppliesMd5.part samplePart) none) := by
  refine ⟨⟨⟨?_, ?_⟩, fun h => ?_⟩, ?_, fun h => ?_⟩
  · decide
  · decide +kernel
  · have hcode : (failureOf (uploadStore.serve none (.putObject (declaresCrc32.put samplePut) none)
        World.empty).1).bind Failure.code = some .badDigest := by decide +kernel
    rcases h.refused.mp (repliesBadDigest_of_failureOf hcode) with hwrong | ⟨a, text, hheader | htrailer, -⟩
    · exact hwrong fun text h => by cases h
    · cases hheader
    · cases htrailer
  · show ((uploadStore.partChecks (suppliesMd5.part samplePart) (some [97])).run World.step
      (behind [asksUpload])).1.isOk = true
    decide +kernel
  · have hok : (uploadStore.serve (some [97]) (.uploadPart (suppliesMd5.part samplePart) none)
        (behind [asksUpload])).1.isOk = true := by decide +kernel
    have hwrong : ¬suppliesMd5.Md5Right uploadStore [1] := by
      intro hright
      exact absurd (hright (ascii "AAAA") rfl) (by decide +kernel)
    obtain ⟨e, he, -⟩ := h.refused.mpr (Or.inl hwrong)
    rw [he] at hok
    cases hok

end Samples

end S3s.Fs
