import S3s.Fs.WholeRuns
import S3s.Library.Decimal
import S3s.Library.FileScan
import S3s.Library.Utf8

/-! # A restart

The store may end at any time, in the middle of requests. When it starts anew, it takes away the temporary
files that were left, and all other files are whole.
-/
namespace S3s.Fs
open LexicalPath Programs FileTree Routing

section Cleaning

/-- A name that `prepare_file_write` may have made. -/
def isOldTmp (name : Bytes) : Bool :=
  Bytes.validUtf8 name && (ascii ".tmp.").isPrefixOf name && (ascii ".internal.part").isSuffixOf name

/-- The old temporary files among the entries of the root, removed. -/
def removeOldTmpFiles : List (Bytes × Bool) → Op Unit
  | [] => pure ()
  | (name, _) :: entries =>
    if isOldTmp name then do
      io (.removeFile [name])
      removeOldTmpFiles entries
    else removeOldTmpFiles entries

/-- `clean_old_tmp_files` -/
def cleanOldTmpFiles : Op Unit := do
  match ← tryIo (.readDir []) with
  | .ok entries => removeOldTmpFiles entries
  | .error .notFound => pure ()
  | .error kind => .fail (internal (.io kind))

/-- `FileSystem::new`: the store on the files that are there. -/
def restart (w : World) : Except Failure Unit × World :=
  ((cleanOldTmpFiles.run World.step w).1, { (cleanOldTmpFiles.run World.step w).2 with counter := 0 })

theorem isOldTmp_temporary (n : Nat) : isOldTmp (StoreFile.temporary n).name = true := by
  have hmarks : ∀ b ∈ ascii ".tmp." ++ ascii ".internal.part", b < 0x80 := by decide +kernel
  have hascii : Bytes.validUtf8 (StoreFile.temporary n).name = true := by
    apply Bytes.validUtf8_of_ascii
    intro b hb
    simp only [StoreFile.name, List.mem_append] at hb
    rcases hb with (hb | hb) | hb
    · exact hmarks b (List.mem_append_left _ hb)
    · have hdigit := Decimal.isDigit_of_mem_decimal hb
      simp only [Bytes.isDigit, Bool.and_eq_true, decide_eq_true_eq, UInt8.le_iff_toNat_le] at hdigit
      rw [UInt8.lt_iff_toNat_lt]
      exact Nat.lt_of_le_of_lt hdigit.2 (by decide)
    · exact hmarks b (List.mem_append_right _ hb)
  have hstart : (ascii ".tmp.").isPrefixOf (StoreFile.temporary n).name = true := by
    rw [List.isPrefixOf_iff_prefix, StoreFile.name, List.append_assoc]
    exact List.prefix_append _ _
  have hend : (ascii ".internal.part").isSuffixOf (StoreFile.temporary n).name = true := by
    rw [List.isSuffixOf_iff_suffix]
    exact List.suffix_append _ _
  simp only [isOldTmp, hascii, hstart, hend, Bool.and_self]

theorem meets_removeFile {w : World} (p : List Bytes) :
    (io (.removeFile p)).Meets World.step w (fun _ w' => Clears w.disk w'.disk p)
      fun _ _ => ¬Entry.IsFile (w.disk.get p) := by
  rw [meets_io]
  simp only [Tree.answer]
  cases hremove : w.disk.removeFile p with
  | ok t => exact (Tree.removeFile_eq_ok hremove).2
  | error kind =>
    intro hfile
    obtain ⟨t, ht, -⟩ := Tree.removeFile_of_file hfile
    rw [hremove] at ht
    cases ht

/-- The old temporary files that are listed are taken away, unless one of them is a directory. -/
theorem meets_removeOldTmpFiles (entries : List (Bytes × Bool)) (hnodup : (entries.map Prod.fst).Nodup)
    {w : World} (hthere : ∀ x ∈ entries, w.disk.get [x.1] ≠ none) :
    (removeOldTmpFiles entries).Meets World.step w
      (fun _ w' => Wipes (fun q => ∃ x ∈ entries, isOldTmp x.1 = true ∧ q = [x.1]) w.disk w'.disk)
      fun _ _ => ∃ x ∈ entries, isOldTmp x.1 = true ∧ w.disk.get [x.1] = some .dir := by
  induction entries generalizing w with
  | nil => exact (Alike.wipes fun _ => rfl).congr fun q => by simp
  | cons entry entries ih =>
    obtain ⟨name, isDir⟩ := entry
    rw [List.map_cons, List.nodup_cons] at hnodup
    rw [removeOldTmpFiles]
    by_cases hname : isOldTmp name = true
    · rw [if_pos hname]
      refine (meets_removeFile [name]).bind ?_ fun _ _ hnot => ?_
      · intro _ w₁ h₁
        have hsame (x : Bytes × Bool) (hx : x ∈ entries) : w₁.disk.get [x.1] = w.disk.get [x.1] := by
          refine h₁.get_of_ne fun heq => hnodup.1 ?_
          rw [← List.head_eq_of_cons_eq heq]
          exact List.mem_map.mpr ⟨x, hx, rfl⟩
        refine (ih hnodup.2 fun x hx => ?_).mono ?_ ?_
        · rw [hsame x hx]
          exact hthere x (List.mem_cons_of_mem _ hx)
        · intro _ w₂ h₂
          refine (h₁.wipes.trans h₂).congr fun q => ?_
          simp [hname]
        · rintro _ _ ⟨x, hx, hold, hdir⟩
          rw [hsame x hx] at hdir
          exact ⟨x, List.mem_cons_of_mem _ hx, hold, hdir⟩
      · refine ⟨(name, isDir), List.mem_cons_self, hname, ?_⟩
        cases hget : w.disk.get [name] with
        | none => exact absurd hget (hthere _ List.mem_cons_self)
        | some e =>
          cases e with
          | file content m =>
            rw [hget] at hnot
            exact absurd trivial hnot
          | dir => rfl
    · rw [if_neg hname]
      refine (ih hnodup.2 fun x hx => hthere x (List.mem_cons_of_mem _ hx)).mono ?_ ?_
      · intro _ w₁ h₁
        refine h₁.congr fun q => ?_
        simp [hname]
      · rintro _ _ ⟨x, hx, hold⟩
        exact ⟨x, List.mem_cons_of_mem _ hx, hold⟩

/-- A start takes away the old temporary files and nothing else. It fails where a directory has the name of
one. -/
theorem meets_cleanOldTmpFiles (w : World) :
    cleanOldTmpFiles.Meets World.step w
      (fun _ w' => Wipes (fun q => ∃ name, isOldTmp name = true ∧ q = [name]) w.disk w'.disk)
      fun _ _ => ∃ name, isOldTmp name = true ∧ w.disk.get [name] = some .dir := by
  let entries := (w.disk.children []).map fun x => (x.1, decide (x.2 = .dir))
  have hlist : (w.disk.answer w.around (.readDir [])).1 = .ok entries := by
    simp only [Tree.answer, Tree.list, Tree.get_nil]
    rfl
  have hlisted (name : Bytes) : (∃ x ∈ entries, x.1 = name) ↔ w.disk.get [name] ≠ none := by
    have hchildren (e : Entry UInt8) : (name, e) ∈ w.disk.children [] ↔ w.disk.get [name] = some e :=
      Tree.mem_children
    rw [Option.ne_none_iff_exists']
    constructor
    · rintro ⟨_, hx, rfl⟩
      obtain ⟨⟨_, e⟩, hentry, rfl⟩ := List.mem_map.mp hx
      exact ⟨e, (hchildren e).mp hentry⟩
    · rintro ⟨e, he⟩
      exact ⟨_, List.mem_map.mpr ⟨(name, e), (hchildren e).mpr he, rfl⟩, rfl⟩
  rw [cleanOldTmpFiles, meets_bind, meets_tryIo, hlist]
  have hnodup : (entries.map Prod.fst).Nodup := by
    have hnames : entries.map Prod.fst = (w.disk.children []).map Prod.fst := by
      simp [entries, Function.comp_def]
    rw [hnames]
    exact Tree.nodup_children w.disk []
  refine (meets_removeOldTmpFiles entries hnodup ?_).mono ?_ ?_
  · intro x hx
    exact (hlisted x.1).mp ⟨x, hx, rfl⟩
  · intro _ w' h
    replace h : Wipes (fun q => ∃ x ∈ entries, isOldTmp x.1 = true ∧ q = [x.1]) w.disk w'.disk := h
    constructor
    · rintro _ ⟨name, hname, rfl⟩
      by_contra hget
      obtain ⟨hnot, hold⟩ := h.get_of_ne_none hget
      have hget : w.disk.get [name] ≠ none := fun hnone => hget (hold.symm.trans hnone)
      obtain ⟨x, hx, rfl⟩ := (hlisted name).mpr hget
      exact hnot ⟨x, hx, hname, rfl⟩
    · intro q hq
      refine h.rest q ?_
      rintro ⟨x, -, hx, rfl⟩
      exact hq ⟨x.1, hx, rfl⟩
  · rintro _ _ ⟨x, -, hx, hdir⟩
    exact ⟨x.1, hx, hdir⟩

end Cleaning

section Recovery

variable {fs : FileSystem} {ι : Type} [DecidableEq ι] {asked : ι → Asked} {programs : ι → Op Response} {w : World}
  {x : Running ι Answer Failure Response World}

/-- Where the store ends in the middle of requests, whichever calls have failed, a start leaves no temporary
file, and every other file as it is, which is whole. It fails only where a directory has the name of a temporary
file. -/
theorem restart_recovers (hprograms : ∀ i, fs.program (asked i).1 (asked i).2 = some (programs i))
    (hordinary : ∀ i, fs.OrdinaryRequest (asked i).2)
    {C : Running ι Answer Failure Response World → ι × Option ErrorKind → Prop}
    (h : Reaches (Running.next frailStore) C (.start programs w) x) :
    ((restart x.state).1.isOk = false → ∃ name, isOldTmp name = true ∧ x.state.disk.get [name] = some .dir) ∧
    ((restart x.state).1.isOk = true →
      (∀ n, (restart x.state).2.disk.get (draftPath n) = none) ∧
      (∀ p, (∀ name, p = [name] → isOldTmp name = false) →
        (restart x.state).2.disk.get p = x.state.disk.get p) ∧
      ∀ p content m, (restart x.state).2.disk.get p = some (.file content m) → fs.Whole asked w.disk p content) := by
  obtain ⟨drafts, hkept, -⟩ := drafts_of_reaches False id (fun h => h.elim)
    hprograms hordinary h
  have hclean := meets_cleanOldTmpFiles x.state
  unfold Prog.Meets at hclean
  unfold restart
  rcases hrun : cleanOldTmpFiles.run World.step x.state with ⟨e | a, w'⟩
  · rw [hrun] at hclean
    exact ⟨fun _ => hclean, fun hok => Bool.noConfusion hok⟩
  · rw [hrun] at hclean
    refine ⟨fun hok => Bool.noConfusion hok, fun _ => ?_⟩
    have hgone (n : Nat) : w'.disk.get (draftPath n) = none := hclean.gone _ ⟨_, isOldTmp_temporary n, rfl⟩
    have hrest (p : List Bytes) (hp : ∀ name, p = [name] → isOldTmp name = false) :
        w'.disk.get p = x.state.disk.get p := by
      refine hclean.rest p ?_
      rintro ⟨name, hname, rfl⟩
      rw [hp name rfl] at hname
      cases hname
    refine ⟨hgone, hrest, fun p content m hfile => ?_⟩
    have hlasting : Lasting p := by
      rintro n rfl
      rw [hgone n] at hfile
      cases hfile
    have hthere : w'.disk.get p ≠ none := by
      rw [show w'.disk.get p = some (.file content m) from hfile]
      exact Option.some_ne_none _
    exact hkept.whole p hlasting content m ((hclean.get_of_ne_none hthere).2.trans hfile)

/-- The store ends where an object is half written. -/
noncomputable def halfWrittenFrail : Running Bool Answer Failure Response World :=
  [(true, none), (true, none), (true, none)].foldl (Running.next frailStore)
    (.start readAsidePrograms (behind [asksWhole (ascii "a")]))

set_option maxRecDepth 100000 in
theorem restart_recovers_sample :
    ((restart halfWrittenFrail.state).1.isOk = true ∧ halfWrittenFrail.state.disk.get (draftPath 3) ≠ none) ∧
    ((restart halfWrittenFrail.state).1.isOk = false →
      ∃ name, isOldTmp name = true ∧ halfWrittenFrail.state.disk.get [name] = some .dir) ∧
    ((restart halfWrittenFrail.state).1.isOk = true →
      (∀ n, (restart halfWrittenFrail.state).2.disk.get (draftPath n) = none) ∧
      (∀ p, (∀ name, p = [name] → isOldTmp name = false) →
        (restart halfWrittenFrail.state).2.disk.get p = halfWrittenFrail.state.disk.get p) ∧
      ∀ p content m, (restart halfWrittenFrail.state).2.disk.get p = some (.file content m) →
        uploadStore.Whole readAside (behind [asksWhole (ascii "a")]).disk p content) :=
  ⟨by decide +kernel, restart_recovers readAside_program readAside_ordinary (reaches_foldl _ _ _)⟩

end Recovery

end S3s.Fs
