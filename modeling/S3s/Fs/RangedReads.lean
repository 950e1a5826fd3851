import S3s.Fs.Rejections

/-! # Ranged reads of objects

A satisfiable range selects an interval of an object. What is read of the object is that interval, unless
the range is a suffix that is longer than the object: the interval is bounded by the object, but the file
is positioned by the length in the header.
-/
namespace S3s.Fs
open LexicalPath Programs FileTree

section Describing

variable {fs : FileSystem} {w : World} {bucket key content : Bytes}

/-- An object with this content, and files that tell of it as the store writes them. -/
structure FileSystem.StoredObject (fs : FileSystem) (disk : Tree Bytes UInt8) (bucket key content : Bytes) :
    Prop where
  object : ∃ p m, fs.pathOf bucket key = some p ∧ disk.get p = some (.file content m)
  attributes : disk.get [(StoreFile.metadata bucket key none).name] ≠ some .dir
  info : ∀ e, disk.get [(StoreFile.internalInfo bucket key).name] = some e →
    ∃ text m info, e = .file text m ∧ fs.info.fromSlice text = some info ∧
      (ChecksumAlgorithm.all.all fun a => (info.find a.field).all Option.isSome) = true

theorem meets_loadAttributes_stored (hnot : w.disk.get [(StoreFile.metadata bucket key none).name] ≠ some .dir) :
    (fs.loadObjectAttributes bucket key none).Meets World.step w (fun _ w' => w.Same w') fun _ _ => False := by
  simp only [FileSystem.loadObjectAttributes, getStorePath_eq, ret_bind]
  refine (meets_pathExists _).bind ?_ fun _ _ h => h
  rintro present w₁ ⟨h₁, hpresent⟩
  cases present with
  | false => exact h₁
  | true =>
    refine (meets_read _).bind ?_ ?_
    · rintro text w₂ ⟨h₂, -⟩
      split
      · exact h₁.trans h₂
      · split <;> exact h₁.trans h₂
    · rintro e w₂ ⟨-, -, hfile⟩
      rw [h₁.disk] at hfile
      obtain ⟨entry, hentry⟩ := Option.isSome_iff_exists.mp hpresent.symm
      cases entry with
      | dir => exact hnot hentry
      | file text m =>
        rw [hentry] at hfile
        exact hfile trivial

/-- The internal info that is read has texts for checksums. -/
theorem meets_loadInternalInfo_stored (hobject : fs.StoredObject w.disk bucket key content) :
    (fs.loadInternalInfo bucket key).Meets World.step w
      (fun info w' => w.Same w' ∧ ∀ i ∈ info,
        (ChecksumAlgorithm.all.all fun a => (i.find a.field).all Option.isSome) = true)
      fun _ _ => False := by
  simp only [FileSystem.loadInternalInfo, FileSystem.loadInfo, getStorePath_eq, ret_bind]
  refine (meets_pathExists _).bind ?_ fun _ _ h => h
  rintro present w₁ ⟨h₁, hpresent⟩
  cases present with
  | false => exact ⟨h₁, fun i hi => by cases hi⟩
  | true =>
    obtain ⟨entry, hentry⟩ := Option.isSome_iff_exists.mp hpresent.symm
    obtain ⟨text, m, info, rfl, hinfo, hfields⟩ := hobject.info entry hentry
    refine (meets_read _).bind ?_ ?_
    · rintro text' w₂ ⟨h₂, m', hfile⟩
      rw [h₁.disk, hentry] at hfile
      cases hfile
      rw [hinfo]
      refine ⟨h₁.trans h₂, ?_⟩
      rintro _ ⟨⟩
      exact hfields
    · rintro e w₂ ⟨-, -, hfile⟩
      rw [h₁.disk, hentry] at hfile
      exact hfile trivial

/-- An object that is stored can be described. -/
theorem meets_describe_stored (hobject : fs.StoredObject w.disk bucket key content) (whole : Bool) :
    (fs.describe bucket key whole).Meets World.step w (fun _ w' => w.Same w') fun _ _ => False := by
  refine (meets_loadAttributes_stored hobject.attributes).bind ?_ fun _ _ h => h
  intro attrs w₁ h₁
  have hobject₁ : fs.StoredObject w₁.disk bucket key content := by rwa [h₁.disk]
  refine (meets_loadInternalInfo_stored hobject₁).bind ?_ fun _ _ h => h
  rintro info w₂ ⟨h₂, hfields⟩
  have hetag : (fs.objectETag bucket key info).Meets World.step w₂ (fun _ w' => w₂.Same w')
      fun _ _ => False := by
    unfold FileSystem.objectETag
    split
    · exact World.Same.refl w₂
    · refine (meets_getMd5Sum fs bucket key).mono (fun _ _ h => h.1) ?_
      rintro e w₃ ⟨-, hfile⟩
      obtain ⟨p, m, hp, hget⟩ := hobject.object
      have hnot := hfile p hp
      rw [(h₁.trans h₂).disk, hget] at hnot
      exact hnot trivial
  refine hetag.bind ?_ fun _ _ h => h
  intro md5Sum w₃ h₃
  have hsame : w.Same w₃ := (h₁.trans h₂).trans h₃
  cases info with
  | none => exact hsame
  | some info =>
    cases whole with
    | false => exact hsame
    | true =>
      have hall := hfields info rfl
      simp only [storedChecksum, fromInternalInfo, if_true, hall, require]
      exact hsame

end Describing

section Ranges

variable {range : Http.Range} {fileLen a b : Nat}

/-- What is selected by positions begins at the first one. -/
theorem check_int {first : Nat} {last : Option Nat}
    (h : (Http.Range.int first last).check fileLen = some (a, b)) : a = first ∧ a < b := by
  simp only [Http.Range.check] at h
  split_ifs at h with hfirst
  cases last with
  | none =>
    cases h
    omega
  | some last =>
    dsimp only at h
    split_ifs at h with hlast
    cases h
    omega

/-- What is selected by a length ends with the object. -/
theorem check_suffix {length : Nat} (h : (Http.Range.suffix length).check fileLen = some (a, b)) :
    0 < length ∧ a = fileLen - min length fileLen ∧ b = fileLen := by
  simp only [Http.Range.check] at h
  split_ifs at h with hlength
  cases h
  exact ⟨Nat.pos_of_ne_zero hlength, rfl, rfl⟩

/-- Where the header says to begin is a position of the file. -/
def InReach (range : Http.Range) (fileLen : Nat) : Prop :=
  match range with
  | .int first _ => first ≤ i64Max
  | .suffix length => length ≤ i64Max ∧ length ≤ fileLen

theorem inReach_iff (range : Http.Range) (fileLen : Nat) :
    InReach range fileLen ↔ (∀ length, range = .suffix length → length ≤ i64Max ∧ length ≤ fileLen) ∧
      ∀ first last, range = .int first last → first ≤ i64Max := by
  cases range with
  | int first last =>
    constructor
    · intro h
      refine ⟨nofun, ?_⟩
      rintro _ _ ⟨⟩
      exact h
    · exact fun h => h.2 first last rfl
  | suffix length =>
    constructor
    · intro h
      refine ⟨?_, nofun⟩
      rintro _ ⟨⟩
      exact h
    · exact fun h => h.1 length rfl

/-- Within reach, the file is positioned where the interval begins, which is not empty. -/
theorem InReach.start (h : InReach range fileLen) (hcheck : range.check fileLen = some (a, b)) :
    a < b ∧ seekPosition (some range) fileLen = .ret a := by
  cases range with
  | int first last =>
    obtain ⟨rfl, hlt⟩ := check_int hcheck
    refine ⟨hlt, ?_⟩
    simp only [seekPosition, require, decide_eq_true (show a ≤ i64Max from h), if_true]
    rfl
  | suffix length =>
    obtain ⟨hpos, rfl, rfl⟩ := check_suffix hcheck
    obtain ⟨hmax, hle⟩ := h
    rw [Nat.min_eq_left hle]
    refine ⟨by omega, ?_⟩
    simp only [seekPosition, require, decide_eq_true hmax, decide_eq_true hle, if_true]
    rfl

/-- Out of reach, the file is not positioned. -/
theorem seekPosition_of_not_inReach (h : ¬InReach range fileLen) :
    ∃ e, seekPosition (some range) fileLen = .fail e := by
  cases range with
  | int first last =>
    refine ⟨internal (.io .other), ?_⟩
    simp only [seekPosition, require, decide_eq_false (show ¬first ≤ i64Max from h)]
    rfl
  | suffix length =>
    by_cases hmax : length ≤ i64Max
    · refine ⟨internal (.io .other), ?_⟩
      have hlong : ¬length ≤ fileLen := fun hle => h ⟨hmax, hle⟩
      simp only [seekPosition, require, decide_eq_true hmax, decide_eq_false hlong, if_true]
      rfl
    · refine ⟨.panic, ?_⟩
      simp only [seekPosition, require, decide_eq_false hmax]
      rfl

/-- The interval is told of unless it is one of the empty object. -/
theorem selectRange_some (hcheck : range.check fileLen = some (a, b)) :
    selectRange (some range) fileLen =
      if b = 0 then .fail .panic
      else .ret (b - a, some (fmtContentRange a (b - 1) fileLen)) := by
  obtain ⟨hle, -⟩ := Http.Range.check_le hcheck
  have hlength : Http.Range.subU64 b a = some (b - a) := if_pos hle
  by_cases hb : b = 0
  · have hunderflow : Http.Range.subU64 b 1 = none := if_neg (by omega)
    simp only [selectRange, hcheck, demand, ret_bind, hlength, hunderflow, fail_bind, if_pos hb]
  · have hend : Http.Range.subU64 b 1 = some (b - 1) := if_pos (by omega)
    simp only [selectRange, hcheck, demand, ret_bind, hlength, hend, if_neg hb]
    rfl

end Ranges

section Reading

variable {fs : FileSystem} {w : World} {bucket key content : Bytes} {range : Http.Range} {a b : Nat}

/-- What is answered is the interval of the object, whichever chunks the file is read in. -/
structure ReadsInterval (content : Bytes) (a b : Nat) (output : GetObjectOutput) : Prop where
  nonempty : a < b
  body : output.body = .ok ((content.drop a).take (b - a))
  chunks : ∀ chunks, chunks.flatten = content.drop a →
    output.body = .ok (bytesStream chunks (b - a)).flatten
  contentLength : output.contentLength = b - a
  contentRange : output.contentRange = some (fmtContentRange a (b - 1) content.length)

theorem meets_getObject_range (hobject : fs.StoredObject w.disk bucket key content)
    (hcheck : range.check content.length = some (a, b)) :
    (fs.getObject bucket key (some range)).Meets World.step w
      (fun output _ => ReadsInterval content a b output ∧ InReach range content.length ∧ b - a ≤ i64Max)
      fun _ _ => ¬(InReach range content.length ∧ b - a ≤ i64Max) := by
  obtain ⟨p, m, hp, hfile⟩ := hobject.object
  rw [FileSystem.getObject, getObjectPath_eq, hp]
  refine (meets_openObject p).bind ?_ ?_
  · rintro file w₁ ⟨h₁, hopened⟩
    obtain rfl : .file content m = file := Option.some.inj (hfile.symm.trans hopened)
    refine (meets_metadata p).bind ?_ ?_
    · rintro stat w₂ ⟨h₂, entry, hentry, rfl⟩
      rw [h₁.disk] at hentry
      obtain rfl : .file content m = entry := Option.some.inj (hfile.symm.trans hentry)
      have hobject₂ : fs.StoredObject w₂.disk bucket key content := by
        rwa [(h₁.trans h₂).disk]
      simp only [Entry.stat, selectRange_some hcheck]
      by_cases hb : b = 0
      · rw [if_pos hb]
        rintro ⟨hreach, -⟩
        have hlt := (hreach.start hcheck).1
        omega
      · rw [if_neg hb, ret_bind]
        by_cases hmax : b - a ≤ i64Max
        · rw [decide_eq_true hmax, require, if_pos rfl, ret_bind]
          by_cases hreach : InReach range content.length
          · obtain ⟨hlt, hstart⟩ := hreach.start hcheck
            rw [hstart, ret_bind]
            refine (meets_describe_stored hobject₂ _).bind ?_ fun _ _ h => h.elim
            rintro ⟨attrs, md5Sum, checksum⟩ w₃ -
            exact ⟨⟨hlt, rfl, fun chunks hchunks => readFrom_file (m := m) hchunks _, rfl, rfl⟩, hreach, hmax⟩
          · obtain ⟨e, he⟩ := seekPosition_of_not_inReach hreach
            rw [he, fail_bind]
            exact fun h => hreach h.1
        · rw [decide_eq_false hmax, require, if_neg Bool.false_ne_true, fail_bind]
          exact fun h => hmax h.2
    · rintro e w₂ ⟨-, -, hnone⟩
      rw [h₁.disk, hfile] at hnone
      cases hnone
  · rintro e w₁ ⟨-, hnone⟩
    rw [hfile] at hnone
    cases hnone

/-- A ranged read answers exactly the interval that the range selects, unless the range is a suffix that
is longer than the object. Lengths and positions are of type `i64`. -/
theorem ranged_read_iff (hobject : fs.StoredObject w.disk bucket key content)
    (hcheck : range.check content.length = some (a, b)) :
    (∃ output w', (fs.getObject bucket key (some range)).run World.step w = (.ok output, w') ∧
      ReadsInterval content a b output) ↔
      (∀ length, range = .suffix length → length ≤ content.length) ∧ b - a ≤ i64Max ∧
        ∀ first last, range = .int first last → first ≤ i64Max := by
  have hmeets := meets_getObject_range hobject hcheck
  have hcondition : InReach range content.length ∧ b - a ≤ i64Max ↔
      (∀ length, range = .suffix length → length ≤ content.length) ∧ b - a ≤ i64Max ∧
        ∀ first last, range = .int first last → first ≤ i64Max := by
    rw [inReach_iff]
    constructor
    · rintro ⟨⟨hsuffix, hint⟩, hmax⟩
      exact ⟨fun length h => (hsuffix length h).2, hmax, hint⟩
    · rintro ⟨hsuffix, hmax, hint⟩
      refine ⟨⟨fun length h => ⟨?_, hsuffix length h⟩, hint⟩, hmax⟩
      subst h
      obtain ⟨-, rfl, rfl⟩ := check_suffix hcheck
      have hle := hsuffix length rfl
      rw [Nat.min_eq_left hle] at hmax
      omega
  rw [← hcondition]
  constructor
  · rintro ⟨output, w', hrun, -⟩
    exact (hmeets.returned hrun).2
  · intro hreach
    rcases hrun : (fs.getObject bucket key (some range)).run World.step w with ⟨e | output, w'⟩
    · exact absurd hreach (hmeets.failed hrun)
    · exact ⟨output, w', rfl, (hmeets.returned hrun).1⟩

end Reading

section Samples

/-- An object without a byte. -/
def asksEmpty : Asked :=
  (none, .putObject ⟨ascii "pics", ascii "a", some [], none, none, none, .default, none, none,
    fun _ => none, none⟩ none)

set_option maxRecDepth 100000 in
theorem storedObject_whole : uploadStore.StoredObject (behind [asksWhole (ascii "a")]).disk (ascii "pics")
    (ascii "a") [1] := by
  refine ⟨⟨[ascii "pics", ascii "a"], 0, by decide +kernel, by decide +kernel⟩, by decide +kernel, ?_⟩
  have hinfo : (behind [asksWhole (ascii "a")]).disk.get
      [(StoreFile.internalInfo (ascii "pics") (ascii "a")).name] = some (.file [1] 0) := by
    decide +kernel
  intro e he
  rw [hinfo] at he
  cases he
  exact ⟨[1], 0, [(ascii "e_tag", some [])], rfl, by decide +kernel, by decide⟩

/-- The last byte of an object of one byte. -/
theorem ranged_read_iff_whole : ∃ output w',
    (uploadStore.getObject (ascii "pics") (ascii "a") (some (.suffix 1))).run World.step
      (behind [asksWhole (ascii "a")]) = (.ok output, w') ∧ ReadsInterval [1] 0 1 output := by
  refine (ranged_read_iff storedObject_whole (by decide)).mpr ⟨?_, by decide, nofun⟩
  rintro _ ⟨⟩
  exact le_refl 1

set_option maxRecDepth 100000 in
/-- The last two bytes of an object of one byte are all of it, but cannot be read; the last byte of an
object without a byte panics. -/
theorem long_suffixes_fail :
    ((Http.Range.suffix 2).check 1 = some (0, 1) ∧
      (behind [asksWhole (ascii "a")]).disk.get [ascii "pics", ascii "a"] = some (.file [1] 0) ∧
      ((uploadStore.getObject (ascii "pics") (ascii "a") (some (.suffix 2))).run World.step
        (behind [asksWhole (ascii "a")])).1 = .error (internal (.io .other))) ∧
    (Http.Range.suffix 1).check 0 = some (0, 0) ∧
      (behind [asksEmpty]).disk.get [ascii "pics", ascii "a"] = some (.file [] 0) ∧
      ((uploadStore.getObject (ascii "pics") (ascii "a") (some (.suffix 1))).run World.step
        (behind [asksEmpty])).1 = .error .panic := by
  refine ⟨⟨by decide, by decide +kernel, eq_error_of_failureOf ?_⟩, by decide, by decide +kernel,
    eq_error_of_failureOf ?_⟩
  all_goals decide +kernel

end Samples

end S3s.Fs
