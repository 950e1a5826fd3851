import S3s.Fs.Names

/-! # What the parts of the operations do

What a call, and a program that only reads, does to the store; and how a file comes to stand at
its place by way of a temporary file.
-/
namespace S3s.Fs
open LexicalPath Programs FileTree

section Reading

/-- The calls that leave everything as it is. -/
def Call.Reads : Call → Prop
  | .file (.metadata _) => True
  | .file (.open _) => True
  | .file (.read _) => True
  | .file (.readDir _) => True
  | .file _ => False
  | .fetchAdd => False
  | .now => True

/-- The same files and the same counter, at some other time. -/
structure World.Same (w w' : World) : Prop where
  disk : w'.disk = w.disk
  counter : w'.counter = w.counter
  dirStat : w'.dirStat = w.dirStat

namespace World

@[simp] theorem tick_disk (w : World) (disk : Tree Bytes UInt8) : (w.tick disk).disk = disk := rfl

@[simp] theorem tick_counter (w : World) (disk : Tree Bytes UInt8) : (w.tick disk).counter = w.counter := rfl

@[simp] theorem tick_dirStat (w : World) (disk : Tree Bytes UInt8) : (w.tick disk).dirStat = w.dirStat := rfl

theorem Same.refl (w : World) : w.Same w := ⟨rfl, rfl, rfl⟩

theorem Same.trans {w w' w'' : World} (h : w.Same w') (h' : w'.Same w'') : w.Same w'' :=
  ⟨h'.disk.trans h.disk, h'.counter.trans h.counter, h'.dirStat.trans h.dirStat⟩

theorem same_tick (w : World) : w.Same (w.tick w.disk) := ⟨rfl, rfl, rfl⟩

theorem Same.perform {w w' : World} (h : w.Same w') {c : Call} (hc : c.Reads) (fails : Option ErrorKind) :
    w.Same (World.perform fails c w').2 := by
  cases c with
  | file c => cases fails <;> cases c <;> first | exact ⟨h.disk, h.counter, h.dirStat⟩ | exact hc.elim
  | fetchAdd => exact hc.elim
  | now => exact ⟨h.disk, h.counter, h.dirStat⟩

end World

section Only

variable {φ : Call → Prop}

@[simp] theorem only_io (c : FileTree.Call Bytes UInt8) : (io c).Only φ ↔ φ (.file c) := by
  simp only [io, only_call]
  constructor
  · intro h
    exact h.1
  · intro h
    exact ⟨h, fun x => by cases x <;> trivial⟩

@[simp] theorem only_tryIo (c : FileTree.Call Bytes UInt8) : (tryIo c).Only φ ↔ φ (.file c) := by
  simp [tryIo]

@[simp] theorem only_pathExists (p : List Bytes) : (pathExists p).Only φ ↔ φ (.file (.metadata p)) := by
  simp [pathExists]

@[simp] theorem only_fetchAdd : fetchAdd.Only φ ↔ φ .fetchAdd := by simp [fetchAdd]

@[simp] theorem only_systemNow : systemNow.Only φ ↔ φ .now := by simp [systemNow]

@[simp] theorem only_require (b : Bool) (f : Failure) : (require b f).Only φ := by
  cases b <;> trivial

@[simp] theorem only_demand {α : Type} (o : Option α) (f : Failure) : (demand o f).Only φ := by
  cases o <;> trivial

theorem reads_metadata (p : List Bytes) : (io (.metadata p)).Only Call.Reads := (only_io _).mpr trivial

theorem reads_read (p : List Bytes) : (io (.read p)).Only Call.Reads := (only_io _).mpr trivial

theorem reads_readDir (p : List Bytes) : (io (.readDir p)).Only Call.Reads := (only_io _).mpr trivial

theorem reads_pathExists (p : List Bytes) : (pathExists p).Only Call.Reads :=
  (only_pathExists _).mpr trivial

end Only

/-- A program that only reads leaves everything as it is, whatever it returns. -/
theorem meets_of_reads {α : Type} {p : Op α} (hp : p.Only Call.Reads) (w : World) :
    p.Meets World.step w (fun _ w' => w.Same w') fun _ w' => w.Same w' :=
  hp.meets (fun _ _ hc hs => World.Same.perform hs hc none) (World.Same.refl w)

end Reading

section Calls

variable {w : World} {α : Type}

/-- A failure of the file system. -/
def IsIo (f : Failure) : Prop := ∃ kind, f = internal (.io kind)

@[simp] theorem meets_require {b : Bool} {f : Failure} {Q : Unit → World → Prop}
    {E : Failure → World → Prop} : (require b f).Meets World.step w Q E ↔
      if b then Q () w else E f w := by
  cases b <;> rfl

theorem meets_demand {o : Option α} {f : Failure} :
    (demand o f).Meets World.step w (fun a w' => w' = w ∧ o = some a)
      fun e w' => w' = w ∧ e = f ∧ o = none := by
  cases o with
  | none => exact ⟨rfl, rfl, rfl⟩
  | some a => exact ⟨rfl, rfl⟩

theorem meets_io {c : FileTree.Call Bytes UInt8} {Q : c.Payload → World → Prop}
    {E : Failure → World → Prop} : (io c).Meets World.step w Q E ↔
      match w.disk.answer w.around c with
      | (.ok x, t) => Q x (w.tick t)
      | (.error kind, t) => E (internal (.io kind)) (w.tick t) := by
  simp only [io, meets_call, World.step, World.perform]
  rcases w.disk.answer w.around c with ⟨_ | _, t⟩ <;> rfl

theorem meets_tryIo {c : FileTree.Call Bytes UInt8} {Q : Except ErrorKind c.Payload → World → Prop}
    {E : Failure → World → Prop} : (tryIo c).Meets World.step w Q E ↔
      Q (w.disk.answer w.around c).1 (w.tick (w.disk.answer w.around c).2) := Iff.rfl

/-- A call that changes the files, or fails and leaves them as they are. -/
theorem meets_createDirAll (p : List Bytes) :
    (io (.createDirAll p)).Meets World.step w
      (fun _ w' => ∃ t, w.disk.createDirAll p = .ok t ∧ w' = w.tick t)
      fun e w' => w.Same w' ∧ ∃ kind, w.disk.createDirAll p = .error kind ∧ e = internal (.io kind) := by
  rw [meets_io]
  simp only [Tree.answer]
  cases w.disk.createDirAll p with
  | ok t => exact ⟨t, rfl, rfl⟩
  | error kind => exact ⟨w.same_tick, kind, rfl, rfl⟩

theorem meets_rename (src dst : List Bytes) :
    (io (.rename src dst)).Meets World.step w
      (fun _ w' => ∃ t, w.disk.rename src dst = .ok t ∧ w' = w.tick t)
      fun e w' => w.Same w' ∧ ∃ kind, w.disk.rename src dst = .error kind ∧ e = internal (.io kind) := by
  rw [meets_io]
  simp only [Tree.answer]
  cases w.disk.rename src dst with
  | ok t => exact ⟨t, rfl, rfl⟩
  | error kind => exact ⟨w.same_tick, kind, rfl, rfl⟩

theorem meets_createFile (p : List Bytes) :
    (io (.createFile p)).Meets World.step w
      (fun _ w' => ∃ t, w.disk.writeFile p [] w.around.now = .ok t ∧ w' = w.tick t)
      fun e w' => w.Same w' ∧ ∃ kind, w.disk.writeFile p [] w.around.now = .error kind ∧
        e = internal (.io kind) := by
  rw [meets_io]
  simp only [Tree.answer]
  cases w.disk.writeFile p [] w.around.now with
  | ok t => exact ⟨t, rfl, rfl⟩
  | error kind => exact ⟨w.same_tick, kind, rfl, rfl⟩

theorem meets_pathExists (p : List Bytes) :
    (pathExists p).Meets World.step w (fun b w' => w.Same w' ∧ b = (w.disk.get p).isSome)
      fun _ _ => False := by
  refine ⟨w.same_tick, ?_⟩
  show Except.isOk ((w.disk.find p).map _) = _
  unfold Tree.find
  cases w.disk.get p <;> rfl

theorem meets_metadata (p : List Bytes) :
    (io (.metadata p)).Meets World.step w
      (fun s w' => w.Same w' ∧ ∃ e, w.disk.get p = some e ∧ s = e.stat w.around)
      fun e w' => w.Same w' ∧ IsIo e ∧ w.disk.get p = none := by
  cases hget : w.disk.get p with
  | some e =>
    have hfind : w.disk.find p = .ok e := by simp [Tree.find, hget]
    simp only [io, meets_call, World.step, World.perform, Tree.answer, hfind, Except.map]
    exact ⟨w.same_tick, e, rfl, rfl⟩
  | none =>
    have hfind : w.disk.find p = .error (w.disk.missing p) := by simp [Tree.find, hget]
    simp only [io, meets_call, World.step, World.perform, Tree.answer, hfind, Except.map]
    exact ⟨w.same_tick, ⟨_, rfl⟩, trivial⟩

theorem meets_read (p : List Bytes) :
    (io (.read p)).Meets World.step w
      (fun c w' => w.Same w' ∧ ∃ m, w.disk.get p = some (.file c m))
      fun e w' => w.Same w' ∧ IsIo e ∧ ¬Entry.IsFile (w.disk.get p) := by
  cases hget : w.disk.get p with
  | some e =>
    cases e with
    | file c m =>
      have hcontent : w.disk.content p = .ok (c, m) := by simp [Tree.content, hget]
      simp only [io, meets_call, World.step, World.perform, Tree.answer, hcontent, Except.map]
      exact ⟨w.same_tick, m, rfl⟩
    | dir =>
      have hcontent : w.disk.content p = .error .isADirectory := by simp [Tree.content, hget]
      simp only [io, meets_call, World.step, World.perform, Tree.answer, hcontent, Except.map]
      exact ⟨w.same_tick, ⟨_, rfl⟩, fun h => h⟩
  | none =>
    have hcontent : w.disk.content p = .error (w.disk.missing p) := by simp [Tree.content, hget]
    simp only [io, meets_call, World.step, World.perform, Tree.answer, hcontent, Except.map]
    exact ⟨w.same_tick, ⟨_, rfl⟩, fun h => h⟩

/-- The names in a directory, with which of them are those of directories. -/
def Lists (disk : Tree Bytes UInt8) (p : List Bytes) (entries : List (Bytes × Bool)) : Prop :=
  ∀ name isDir, (name, isDir) ∈ entries ↔ ∃ e, disk.get (p ++ [name]) = some e ∧ isDir = decide (e = .dir)

theorem meets_readDir (p : List Bytes) :
    (io (.readDir p)).Meets World.step w (fun entries w' => w.Same w' ∧ Lists w.disk p entries)
      fun e w' => w.Same w' ∧ IsIo e ∧ w.disk.get p ≠ some .dir := by
  rw [meets_io]
  simp only [Tree.answer, Tree.list]
  cases hget : w.disk.get p with
  | none => exact ⟨w.same_tick, ⟨_, rfl⟩, by simp⟩
  | some e =>
    cases e with
    | file c m => exact ⟨w.same_tick, ⟨_, rfl⟩, by simp⟩
    | dir =>
      refine ⟨w.same_tick, fun name isDir => ?_⟩
      simp only [List.mem_map, Prod.mk.injEq, Prod.exists, Tree.mem_children]
      constructor
      · rintro ⟨name', e, he, rfl, rfl⟩
        exact ⟨e, he, rfl⟩
      · rintro ⟨e, he, rfl⟩
        exact ⟨name, e, he, rfl, rfl⟩

end Calls

section Writing

/-- Where the next temporary file is. -/
def World.tmpPath (w : World) : List Bytes := [(StoreFile.temporary w.counter).name]

/-- A temporary file with this content, and nothing else that is new. -/
structure World.Open (w w' : World) (content : Bytes) : Prop where
  counter : w'.counter = w.counter + 1
  dirStat : w'.dirStat = w.dirStat
  not_dir : w.disk.get w.tmpPath ≠ some .dir
  file : ∃ m, w'.disk.get w.tmpPath = some (.file content m)
  rest : ∀ q, q ≠ w.tmpPath → w'.disk.get q = w.disk.get q

/-- The temporary file is gone again, unless there was a directory in its place. -/
structure World.Discarded (w w' : World) : Prop where
  counter : w'.counter = w.counter + 1
  dirStat : w'.dirStat = w.dirStat
  tmp : w'.disk.get w.tmpPath = if w.disk.get w.tmpPath = some .dir then some .dir else none
  rest : ∀ q, q ≠ w.tmpPath → w'.disk.get q = w.disk.get q

/-- The temporary file has taken the place of the destination, in directories. -/
structure World.Placed (w w' : World) (dest : List Bytes) (content : Bytes) : Prop where
  counter : w'.counter = w.counter + 1
  dirStat : w'.dirStat = w.dirStat
  get : ∃ m, ∀ q, w'.disk.get q =
    if q = dest then some (.file content m) else if q = w.tmpPath then none
    else if q <+: dest.dropLast then some .dir else w.disk.get q
  not_dir : w.disk.get dest ≠ some .dir
  free : ∀ q, q <+: dest.dropLast → q ≠ w.tmpPath ∧ ¬Entry.IsFile (w.disk.get q)

/-- Nothing is in the way of a file that is written to a path. -/
structure World.Clear (w : World) (dest : List Bytes) : Prop where
  ne_nil : dest ≠ []
  tmp : w.disk.get w.tmpPath ≠ some .dir
  not_dir : w.disk.get dest ≠ some .dir
  free : ∀ q, q <+: dest.dropLast → q ≠ w.tmpPath ∧ ¬Entry.IsFile (w.disk.get q)

variable {w w₁ : World} {content : Bytes}

theorem tmpPath_ne_nil (w : World) : w.tmpPath ≠ [] := List.cons_ne_nil _ _

theorem meets_append (h : w.Open w₁ content) (added : Bytes) :
    (io (.append w.tmpPath added)).Meets World.step w₁ (fun _ w' => w.Open w' (content ++ added))
      fun _ _ => False := by
  obtain ⟨m, hfile⟩ := h.file
  have hcontent : w₁.disk.content w.tmpPath = .ok (content, m) := by simp [Tree.content, hfile]
  obtain ⟨t, hwrite, hget⟩ := Tree.writeFile_of_holds (Tree.holds_of_file hfile) (content ++ added)
    w₁.around.now
  simp only [io, meets_call, World.step, World.perform, Tree.answer, hcontent, bind, Except.bind, hwrite,
    Tree.commit]
  refine ⟨h.counter, h.dirStat, h.not_dir, ⟨_, by rw [World.tick_disk, hget, if_pos rfl]⟩, fun q hq => ?_⟩
  rw [World.tick_disk, hget, if_neg hq, h.rest q hq]

/-- What a body comes to, when there is no error in it. -/
def contentOf : List (Except StreamError Bytes) → Option Bytes
  | [] => some []
  | .ok bytes :: stream => (contentOf stream).map (bytes ++ ·)
  | .error _ :: _ => none

theorem meets_copyBytes (stream : List (Except StreamError Bytes)) (h : w.Open w₁ content) :
    (copyBytes w.tmpPath stream).Meets World.step w₁
      (fun bytes w' => contentOf stream = some bytes ∧ w.Open w' (content ++ bytes))
      fun _ w' => contentOf stream = none ∧ ∃ content, w.Open w' content := by
  induction stream generalizing w₁ content with
  | nil => exact ⟨rfl, by simpa using h⟩
  | cons x stream ih =>
    cases x with
    | error e => exact ⟨rfl, content, h⟩
    | ok bytes =>
      refine (meets_append h bytes).bind (fun _ w₂ h₂ => ?_) fun _ _ h => h.elim
      refine (ih h₂).bind ?_ ?_
      · rintro rest w₃ ⟨hrest, hopen⟩
        refine ⟨by rw [contentOf, hrest, Option.map_some], by simpa using hopen⟩
      · rintro _ w₃ ⟨hbroken, hopen⟩
        exact ⟨by rw [contentOf, hbroken, Option.map_none], hopen⟩

theorem World.Open.same {w₂ : World} (h : w.Open w₁ content) (h' : w₁.Same w₂) : w.Open w₂ content := by
  refine ⟨h'.counter.trans h.counter, h'.dirStat.trans h.dirStat, h.not_dir, ?_, fun q hq => ?_⟩
  · rw [h'.disk]
    exact h.file
  · rw [h'.disk, h.rest q hq]

theorem meets_discard (h : w.Open w₁ content) :
    (discard w.tmpPath).Meets World.step w₁ (fun _ w' => w.Discarded w') fun _ _ => False := by
  obtain ⟨m, hfile⟩ := h.file
  obtain ⟨t, hremove, hget⟩ := Tree.removeFile_of_file (t := w₁.disk) (p := w.tmpPath)
    (by rw [hfile]; trivial)
  have hanswer : (w₁.disk.answer w₁.around (.removeFile w.tmpPath)).2 = t := by
    simp only [Tree.answer, hremove, Tree.commit]
  refine (meets_tryIo.mpr ?_).bind (fun _ _ hw => hw) fun _ _ h => h
  show w.Discarded (w₁.tick (w₁.disk.answer w₁.around (.removeFile w.tmpPath)).2)
  rw [hanswer]
  refine ⟨h.counter, h.dirStat, ?_, fun q hq => ?_⟩
  · rw [World.tick_disk, hget, if_pos rfl, if_neg h.not_dir]
  · rw [World.tick_disk, hget, if_neg hq, h.rest q hq]

theorem get_of_prefix_dir {t : Tree Bytes UInt8} {p q : List Bytes} (h : t.get p = some .dir)
    (hq : q <+: p) : t.get q = some .dir := by
  by_cases hne : q = p
  · exact hne ▸ h
  · exact Tree.get_above h hq hne

theorem not_prefix_dropLast {p : List Bytes} (h : p ≠ []) : ¬p <+: p.dropLast := by
  intro hp
  have hlength := hp.length_le
  have hpos := List.length_pos_of_ne_nil h
  rw [List.length_dropLast] at hlength
  omega

/-- A failure to put the file in its place leaves the rest as it is. -/
theorem meets_done (h : w.Open w₁ content) (dest : List Bytes) :
    (done w.tmpPath dest).Meets World.step w₁ (fun _ w' => w.Placed w' dest content)
      fun e w' => (IsIo e ∧ ¬w.Clear dest) ∧ w.Open w' content := by
  obtain ⟨m, hfile⟩ := h.file
  have hsame (q : List Bytes) (hq : ¬Entry.IsFile (w₁.disk.get q)) :
      q ≠ w.tmpPath ∧ ¬Entry.IsFile (w.disk.get q) := by
    have hne : q ≠ w.tmpPath := by
      rintro rfl
      rw [hfile] at hq
      exact hq trivial
    exact ⟨hne, by rwa [h.rest q hne] at hq⟩
  refine (meets_createDirAll dest.dropLast).bind ?_ ?_
  · rintro _ _ ⟨t, hdirs, rfl⟩
    obtain ⟨hfree, hget⟩ := Tree.createDirAll_eq_ok hdirs
    have habove (q : List Bytes) (hq : q <+: dest.dropLast) :
        q ≠ w.tmpPath ∧ ¬Entry.IsFile (w.disk.get q) :=
      hsame q fun hIsFile => hfree ⟨q, by simpa using hq, hIsFile⟩
    have hsrc : t.get w.tmpPath = some (.file content m) := by
      rw [hget, if_neg fun hq => (habove _ hq).1 rfl, hfile]
    have hholds (hne : dest ≠ []) (hdest : w₁.disk.get dest ≠ some .dir) : t.Holds dest := by
      refine ⟨hne, ?_, ?_⟩
      · rw [hget, if_pos List.prefix_rfl]
      · rw [hget, if_neg (not_prefix_dropLast hne)]
        exact hdest
    refine (meets_rename w.tmpPath dest).mono ?_ ?_
    · rintro _ _ ⟨t', hrename, rfl⟩
      obtain ⟨c', m', hsrc', hh, hget'⟩ := Tree.rename_eq_ok hrename
      obtain ⟨rfl, rfl⟩ : content = c' ∧ m = m' := by simpa [hsrc] using hsrc'
      have hdest : w.disk.get dest ≠ some .dir := by
        by_cases hne : dest = w.tmpPath
        · exact hne ▸ h.not_dir
        · have hnot := hh.not_dir
          rwa [World.tick_disk, hget, if_neg (not_prefix_dropLast hh.ne_nil), h.rest dest hne] at hnot
      refine ⟨h.counter, h.dirStat, ⟨m, fun q => ?_⟩, hdest, habove⟩
      rw [World.tick_disk, hget', World.tick_disk, hget]
      by_cases hq : q = w.tmpPath
      · simp [hq]
      · simp [hq, h.rest q hq]
    · rintro _ w₂ ⟨hw₂, kind, hrename, rfl⟩
      have hnot : ¬t.Holds dest := by
        intro hh
        obtain ⟨t', ht', -⟩ := Tree.rename_of_holds hsrc hh
        rw [World.tick_disk, ht'] at hrename
        cases hrename
      have hclear : ¬w.Clear dest := by
        intro hclear
        apply hnot
        apply hholds hclear.ne_nil
        by_cases hne : dest = w.tmpPath
        · rw [hne, hfile]
          simp
        · rw [h.rest dest hne]
          exact hclear.not_dir
      -- where a directory is in the place of the file, those above it are there already
      have hdest : dest = [] ∨ w₁.disk.get dest = some .dir := by
        by_contra hneither
        rw [not_or] at hneither
        exact hnot (hholds hneither.1 hneither.2)
      have hold (q : List Bytes) : w₂.disk.get q = w₁.disk.get q := by
        rw [hw₂.disk, World.tick_disk, hget]
        by_cases hq : q <+: dest.dropLast
        · rw [if_pos hq]
          rcases hdest with rfl | hdest
          · rw [List.prefix_nil.mp hq, Tree.get_nil]
          · exact (get_of_prefix_dir hdest (hq.trans (List.dropLast_prefix dest))).symm
        · rw [if_neg hq]
      refine ⟨⟨⟨kind, rfl⟩, hclear⟩, hw₂.counter.trans h.counter, hw₂.dirStat.trans h.dirStat,
        h.not_dir, ⟨m, ?_⟩, fun q hq => ?_⟩
      · rw [hold, hfile]
      · rw [hold, h.rest q hq]
  · rintro _ w₂ ⟨hw₂, kind, hdirs, rfl⟩
    have hblocked : w₁.disk.Blocked dest.dropLast := by
      by_contra hfree
      obtain ⟨t, ht, -⟩ := Tree.createDirAll_of_free hfree
      rw [hdirs] at ht
      cases ht
    have hclear : ¬w.Clear dest := by
      intro hclear
      obtain ⟨q, hq, hIsFile⟩ := hblocked
      obtain ⟨hne, hfree⟩ := hclear.free q (by simpa using hq)
      rw [h.rest q hne] at hIsFile
      exact hfree hIsFile
    refine ⟨⟨⟨kind, rfl⟩, hclear⟩, hw₂.counter.trans h.counter, hw₂.dirStat.trans h.dirStat,
      h.not_dir, ⟨m, ?_⟩, fun q hq => ?_⟩
    · rw [hw₂.disk, hfile]
    · rw [hw₂.disk, h.rest q hq]

/-- A file is written by way of a temporary file: it stands at its place in the end, or nothing is
left of it. The files themselves stand in the way of the temporary file, or of what was written. -/
theorem meets_writing_causes (fs : FileSystem) {α : Type} {write : List Bytes → Op α} {R : α → Bytes → Prop}
    {F : Failure → Prop} (dest : List Bytes)
    (hwrite : ∀ w₁, w.Open w₁ [] → (write w.tmpPath).Meets World.step w₁
      (fun a w₂ => ∃ content, R a content ∧ w.Open w₂ content)
      fun e w₂ => F e ∧ ∃ content, w.Open w₂ content) :
    (fs.writing dest write).Meets World.step w
      (fun a w' => ∃ content, R a content ∧ w.Placed w' dest content)
      fun e w' => (F e ∨ IsIo e ∧ (w.disk.get w.tmpPath = some .dir ∨
        (∃ a content, R a content) ∧ ¬w.Clear dest)) ∧ w.Discarded w' := by
  let w₀ : World := { w with counter := w.counter + 1 }
  have hprepare : fs.prepareFileWrite.Meets World.step w
      (fun tmpPath w₁ => tmpPath = w.tmpPath ∧ w.Open w₁ [])
      fun e w' => (IsIo e ∧ w.disk.get w.tmpPath = some .dir) ∧ w.Discarded w' := by
    rw [FileSystem.prepareFileWrite]
    simp only [getStorePath_eq]
    show Prog.Meets World.step (io (.createFile w.tmpPath) >>= fun _ => pure w.tmpPath) w₀ _ _
    refine (meets_createFile w.tmpPath).bind ?_ ?_
    · rintro _ _ ⟨t, hcreate, rfl⟩
      obtain ⟨hholds, hget⟩ := Tree.writeFile_eq_ok hcreate
      refine ⟨rfl, rfl, rfl, hholds.not_dir, ⟨w₀.around.now, ?_⟩, fun q hq => ?_⟩
      · rw [World.tick_disk, hget, if_pos rfl]
      · rw [World.tick_disk, hget, if_neg hq]
    · rintro _ w' ⟨hw', kind, hcreate, rfl⟩
      have hdir : w.disk.get w.tmpPath = some .dir := by
        by_contra hnot
        have hholds : w.disk.Holds w.tmpPath := ⟨tmpPath_ne_nil w, Tree.get_nil _, hnot⟩
        obtain ⟨t, ht, -⟩ := Tree.writeFile_of_holds hholds [] w₀.around.now
        rw [show w₀.disk = w.disk from rfl, ht] at hcreate
        cases hcreate
      refine ⟨⟨⟨kind, rfl⟩, hdir⟩, hw'.counter, hw'.dirStat, ?_, fun q _ => ?_⟩
      · rw [if_pos hdir, hw'.disk]
        exact hdir
      · rw [hw'.disk]
  refine hprepare.bind ?_ fun e w' he => ⟨Or.inr ⟨he.1.1, Or.inl he.1.2⟩, he.2⟩
  rintro _ w₁ ⟨rfl, hopen⟩
  rw [meets_onFailure]
  let Cause (e : Failure) : Prop := F e ∨ IsIo e ∧ (w.disk.get w.tmpPath = some .dir ∨
    (∃ a content, R a content) ∧ ¬w.Clear dest)
  have hdiscard {e : Failure} {w₂ : World} (he : Cause e) {content : Bytes} (h₂ : w.Open w₂ content) : (discard w.tmpPath).Meets World.step w₂
        (fun _ w' => Cause e ∧ w.Discarded w') fun e w' => Cause e ∧ w.Discarded w' :=
    (meets_discard h₂).mono (fun _ _ hw => ⟨he, hw⟩) fun _ _ h => h.elim
  refine (hwrite w₁ hopen).bind ?_ ?_
  · rintro a w₂ ⟨content, hR, h₂⟩
    refine (meets_done h₂ dest).bind ?_ ?_
    · intro _ w₃ hplaced
      exact ⟨content, hR, hplaced⟩
    · rintro e w₃ ⟨⟨hio, hclear⟩, h₃⟩
      exact hdiscard (Or.inr ⟨hio, Or.inr ⟨⟨a, content, hR⟩, hclear⟩⟩) h₃
  · rintro e w₂ ⟨hF, content, h₂⟩
    exact hdiscard (Or.inl hF) h₂

theorem meets_writing (fs : FileSystem) {α : Type} {write : List Bytes → Op α} {R : α → Bytes → Prop}
    {F : Failure → Prop} (dest : List Bytes)
    (hwrite : ∀ w₁, w.Open w₁ [] → (write w.tmpPath).Meets World.step w₁
      (fun a w₂ => ∃ content, R a content ∧ w.Open w₂ content)
      fun e w₂ => F e ∧ ∃ content, w.Open w₂ content) :
    (fs.writing dest write).Meets World.step w
      (fun a w' => ∃ content, R a content ∧ w.Placed w' dest content)
      fun e w' => (F e ∨ IsIo e ∧ ¬w.Clear dest) ∧ w.Discarded w' := by
  refine (meets_writing_causes fs dest hwrite).mono (fun _ _ h => h) ?_
  rintro e w' ⟨he, hdiscarded⟩
  refine ⟨he.imp_right fun hio => ⟨hio.1, fun hclear => ?_⟩, hdiscarded⟩
  rcases hio.2 with hdir | ⟨-, hnot⟩
  · exact hclear.tmp hdir
  · exact hnot hclear

/-- A file of the store with this content, and nothing else that is new. -/
structure World.Saved (w w' : World) (file : StoreFile) (content : Bytes) : Prop where
  counter : w'.counter = w.counter + 1
  dirStat : w'.dirStat = w.dirStat
  get : ∃ m, ∀ q, w'.disk.get q = if q = [file.name] then some (.file content m)
    else if q = w.tmpPath then none else w.disk.get q

theorem meets_saveFile (fs : FileSystem) (file : StoreFile) (content : Bytes) :
    (fs.saveFile file content).Meets World.step w (fun _ w' => w.Saved w' file content)
      fun e w' => (IsIo e ∧ (w.disk.get w.tmpPath = some .dir ∨ w.disk.get [file.name] = some .dir)) ∧
        w.Discarded w' := by
  have hwriting : (fs.writing [file.name] fun tmpPath => io (.append tmpPath content)).Meets World.step w
      (fun _ w' => ∃ written, written = content ∧ w.Placed w' [file.name] written)
      fun e w' => (False ∨ IsIo e ∧ ¬w.Clear [file.name]) ∧ w.Discarded w' := by
    refine @meets_writing w fs _ _ (fun _ written => written = content) (fun _ => False) [file.name] ?_
    intro w₁ h₁
    exact (meets_append h₁ content).mono (fun _ w₂ h₂ => ⟨content, rfl, by simpa using h₂⟩)
      fun _ _ h => h.elim
  rw [FileSystem.saveFile, getStorePath_eq]
  refine hwriting.mono ?_ ?_
  · rintro _ w' ⟨_, rfl, hplaced⟩
    obtain ⟨m, hget⟩ := hplaced.get
    refine ⟨hplaced.counter, hplaced.dirStat, m, fun q => ?_⟩
    rw [hget]
    by_cases hroot : q = []
    · subst hroot
      simp
    · simp [hroot]
  · rintro e w' ⟨he, hdiscarded⟩
    obtain ⟨hio, hnot⟩ := he.resolve_left fun h => h
    refine ⟨⟨hio, ?_⟩, hdiscarded⟩
    by_contra hneither
    rw [not_or] at hneither
    refine hnot ⟨List.cons_ne_nil _ _, hneither.1, hneither.2, fun q hq => ?_⟩
    rw [List.prefix_nil.mp hq]
    exact ⟨(tmpPath_ne_nil w).symm, by simp [Entry.IsFile]⟩

end Writing

section Removing

variable {w : World}

/-- Nothing is at a path, and the rest is as it was. -/
structure World.Removed (w w' : World) (p : List Bytes) : Prop where
  counter : w'.counter = w.counter
  dirStat : w'.dirStat = w.dirStat
  get : ∀ q, w'.disk.get q = if q = p then none else w.disk.get q

theorem World.Same.removed {w' : World} (h : w.Same w') {p : List Bytes} (hp : w.disk.get p = none) :
    w.Removed w' p := by
  refine ⟨h.counter, h.dirStat, fun q => ?_⟩
  rw [h.disk]
  by_cases hq : q = p
  · rw [if_pos hq, hq, hp]
  · rw [if_neg hq]

theorem meets_removeFileIfExists (p : List Bytes) :
    (removeFileIfExists p).Meets World.step w (fun _ w' => w.Removed w' p)
      fun e w' => (IsIo e ∧ (w.disk.get p = some .dir ∨ w.disk.get p = none ∧ w.disk.Blocked p)) ∧
        w.Same w' := by
  rw [removeFileIfExists, meets_bind, meets_tryIo]
  simp only [Tree.answer]
  cases hremove : w.disk.removeFile p with
  | ok t =>
    obtain ⟨-, hget⟩ := Tree.removeFile_eq_ok hremove
    exact ⟨rfl, rfl, hget⟩
  | error kind =>
    have hwhy : w.disk.get p = none ∧ kind = w.disk.missing p ∨
        w.disk.get p = some .dir ∧ kind = .isADirectory := by
      unfold Tree.removeFile at hremove
      split at hremove
      · cases hremove
      · next hget => exact Or.inr ⟨hget, (Except.error.inj hremove).symm⟩
      · next hget => exact Or.inl ⟨hget, (Except.error.inj hremove).symm⟩
    rcases hwhy with ⟨hget, rfl⟩ | ⟨hget, rfl⟩
    · by_cases hblocked : w.disk.Blocked p
      · rw [Tree.missing, if_pos hblocked]
        exact ⟨⟨⟨_, rfl⟩, Or.inr ⟨hget, hblocked⟩⟩, w.same_tick⟩
      · rw [Tree.missing, if_neg hblocked]
        exact w.same_tick.removed hget
    · exact ⟨⟨⟨_, rfl⟩, Or.inl hget⟩, w.same_tick⟩

end Removing

end S3s.Fs
