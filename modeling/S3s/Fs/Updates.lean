import S3s.Fs.PartOwnership

/-! # Updates of an orderly store

No directory of an orderly store has a name that the store's own files could have, and no temporary
file is left behind. What an operation does to such a store is a few updates of its files.
-/
namespace S3s.Fs
open LexicalPath Programs FileTree Routing

/-- A name that no bucket has: the names of the store's files are such. -/
def IsHidden (name : Bytes) : Prop := name.head? = some 46

theorem StoreFile.isHidden (f : StoreFile) : IsHidden f.name := by
  rw [IsHidden, f.name_eq, List.head?_cons]

theorem isHidden_of_isResidue {u : Uuid} {name : Bytes} (h : isResidue u name = true) : IsHidden name := by
  rcases (Bool.or_eq_true _ _).mp h with hstarts | hstarts
  · obtain ⟨rest, rfl⟩ := List.isPrefixOf_iff_prefix.mp hstarts
    simp [IsHidden, ascii]
  · obtain ⟨rest, rfl⟩ := List.isPrefixOf_iff_prefix.mp hstarts
    simp [IsHidden, ascii]

theorem not_isHidden_bucket {bucket : Bytes} (h : checkBucketName bucket = true) : ¬IsHidden bucket := by
  intro hhidden
  obtain ⟨rest, rfl⟩ := List.head?_eq_some_iff.mp hhidden
  simp [checkBucketName, isLowercaseOrDigit, Bytes.isDigit] at h

/-- An orderly store. -/
structure Orderly (disk : Tree Bytes UInt8) : Prop where
  not_dir : ∀ name, IsHidden name → disk.get [name] ≠ some .dir
  no_temporary : ∀ n, disk.get [(StoreFile.temporary n).name] = none

section Updates

variable {t t' : Tree Bytes UInt8} {p : List Bytes} {content : Bytes}

/-- The same entries everywhere. -/
def Alike (t t' : Tree Bytes UInt8) : Prop := ∀ q, t'.get q = t.get q

/-- A file with this content at a path. -/
def Writes (t t' : Tree Bytes UInt8) (p : List Bytes) (content : Bytes) : Prop :=
  ∃ m, ∀ q, t'.get q = if q = p then some (.file content m) else t.get q

/-- Nothing at a path. -/
def Clears (t t' : Tree Bytes UInt8) (p : List Bytes) : Prop :=
  ∀ q, t'.get q = if q = p then none else t.get q

/-- Directories at a path and above it, where no file is in the way. -/
structure Digs (t t' : Tree Bytes UInt8) (p : List Bytes) : Prop where
  free : ∀ q, q <+: p → ¬Entry.IsFile (t.get q)
  get : ∀ q, t'.get q = if q <+: p then some .dir else t.get q

theorem Writes.get_self (h : Writes t t' p content) : ∃ m, t'.get p = some (.file content m) := by
  obtain ⟨m, hget⟩ := h
  exact ⟨m, by rw [hget, if_pos rfl]⟩

theorem Writes.get_of_ne (h : Writes t t' p content) {q : List Bytes} (hq : q ≠ p) :
    t'.get q = t.get q := by
  obtain ⟨m, hget⟩ := h
  rw [hget, if_neg hq]

theorem Clears.get_self (h : Clears t t' p) : t'.get p = none := by rw [h, if_pos rfl]

theorem Clears.get_of_ne (h : Clears t t' p) {q : List Bytes} (hq : q ≠ p) : t'.get q = t.get q := by
  rw [h, if_neg hq]

/-- A directory that is made stood there before, or nothing did. -/
theorem Digs.get_of_ne (h : Digs t t' p) {q : List Bytes} (hq : t.get q ≠ none) : t'.get q = t.get q := by
  rw [h.get]
  by_cases hprefix : q <+: p
  · have hfree := h.free q hprefix
    obtain ⟨e, he⟩ := Option.ne_none_iff_exists'.mp hq
    cases e with
    | file c m =>
      rw [he] at hfree
      exact absurd trivial hfree
    | dir => rw [if_pos hprefix, he]
  · rw [if_neg hprefix]

/-- Nothing at any of the paths, and the rest as it was. -/
structure Wipes (S : List Bytes → Prop) (t t' : Tree Bytes UInt8) : Prop where
  gone : ∀ q, S q → t'.get q = none
  rest : ∀ q, ¬S q → t'.get q = t.get q

theorem Clears.wipes (h : Clears t t' p) : Wipes (· = p) t t' := by
  constructor
  · rintro _ rfl
    exact h.get_self
  · exact fun _ hq => h.get_of_ne hq

theorem Alike.wipes (h : Alike t t') : Wipes (fun _ => False) t t' :=
  ⟨fun _ hq => hq.elim, fun q _ => h q⟩

theorem Wipes.trans {S S' : List Bytes → Prop} {t'' : Tree Bytes UInt8} (h : Wipes S t t')
    (h' : Wipes S' t' t'') : Wipes (fun q => S q ∨ S' q) t t'' := by
  constructor
  · intro q hq
    by_cases hS' : S' q
    · exact h'.gone q hS'
    · rw [h'.rest q hS', h.gone q (hq.resolve_right hS')]
  · intro q hq
    rw [not_or] at hq
    rw [h'.rest q hq.2, h.rest q hq.1]

theorem Wipes.congr {S S' : List Bytes → Prop} (h : Wipes S t t') (hS : ∀ q, S q ↔ S' q) :
    Wipes S' t t' :=
  ⟨fun q hq => h.gone q ((hS q).mpr hq), fun q hq => h.rest q fun hq' => hq ((hS q).mp hq')⟩

/-- What is there behind a removal was there before it. -/
theorem Wipes.get_of_ne_none {S : List Bytes → Prop} (h : Wipes S t t') {q : List Bytes}
    (hq : t'.get q ≠ none) : ¬S q ∧ t.get q = t'.get q := by
  have hS : ¬S q := fun hS => hq (h.gone q hS)
  exact ⟨hS, (h.rest q hS).symm⟩

theorem Alike.orderly (h : Alike t t') (ht : Orderly t) : Orderly t' := by
  constructor
  · intro name hname
    rw [h]
    exact ht.not_dir name hname
  · intro n
    rw [h]
    exact ht.no_temporary n

theorem Writes.orderly (h : Writes t t' p content) (ht : Orderly t)
    (hp : ∀ n, p ≠ [(StoreFile.temporary n).name]) : Orderly t' := by
  constructor
  · intro name hname
    by_cases hname' : [name] = p
    · obtain ⟨m, hget⟩ := h.get_self
      rw [hname', hget]
      simp
    · rw [h.get_of_ne hname']
      exact ht.not_dir name hname
  · intro n
    rw [h.get_of_ne (hp n).symm]
    exact ht.no_temporary n

theorem Wipes.orderly {S : List Bytes → Prop} (h : Wipes S t t') (ht : Orderly t) : Orderly t' := by
  constructor
  · intro name hname hdir
    have hold := (h.get_of_ne_none (q := [name]) (by rw [hdir]; simp)).2
    rw [hdir] at hold
    exact ht.not_dir name hname hold
  · intro n
    by_contra hget
    have hold := (h.get_of_ne_none hget).2
    rw [ht.no_temporary n] at hold
    exact hget hold.symm

theorem Digs.orderly (h : Digs t t' p) (ht : Orderly t)
    (hp : ∀ name, IsHidden name → p.head? ≠ some name) : Orderly t' := by
  have hold (name : Bytes) (hname : IsHidden name) : t'.get [name] = t.get [name] := by
    rw [h.get, if_neg]
    rintro ⟨rest, rfl⟩
    exact hp name hname rfl
  constructor
  · intro name hname
    rw [hold name hname]
    exact ht.not_dir name hname
  · intro n
    rw [hold _ (StoreFile.isHidden _)]
    exact ht.no_temporary n

end Updates

section Parts

variable (fs : FileSystem) {w w' : World}

theorem alike_of_same (h : w.Same w') : Alike w.disk w'.disk := fun q => by rw [h.disk]

theorem alike_of_discarded (hw : Orderly w.disk) (h : w.Discarded w') : Alike w.disk w'.disk := by
  intro q
  by_cases hq : q = w.tmpPath
  · have hnone : w.disk.get w.tmpPath = none := hw.no_temporary w.counter
    rw [hq, h.tmp, hnone]
    simp
  · exact h.rest q hq

/-- A file of an orderly store is saved. -/
theorem meets_save (hw : Orderly w.disk) (f : StoreFile) (content : Bytes) :
    (fs.saveFile f content).Meets World.step w (fun _ w' => Writes w.disk w'.disk [f.name] content)
      fun _ _ => False := by
  have hnone : w.disk.get w.tmpPath = none := hw.no_temporary w.counter
  refine (meets_saveFile fs f content).mono ?_ ?_
  · rintro _ w' h
    obtain ⟨m, hget⟩ := h.get
    refine ⟨m, fun q => ?_⟩
    rw [hget]
    by_cases hq : q = w.tmpPath
    · rw [hq, hnone, if_pos rfl]
    · rw [if_neg hq]
  · rintro _ w' ⟨⟨-, hdir⟩, -⟩
    rcases hdir with hdir | hdir
    · rw [hnone] at hdir
      cases hdir
    · exact hw.not_dir _ f.isHidden hdir

/-- A file of an orderly store is removed. -/
theorem meets_remove (hw : Orderly w.disk) {name : Bytes} (hname : IsHidden name) :
    (removeFileIfExists [name]).Meets World.step w (fun _ w' => Clears w.disk w'.disk [name])
      fun _ _ => False := by
  refine (meets_removeFileIfExists [name]).mono (fun _ _ h => h.get) ?_
  rintro _ _ ⟨⟨-, hdir | ⟨hnone, q, hq, hfile⟩⟩, -⟩
  · exact hw.not_dir name hname hdir
  · have hq' : q <+: [name] := (List.mem_inits _ _).mp hq
    rcases List.prefix_cons_iff.mp hq' with rfl | ⟨rest, rfl, hrest⟩
    · rw [Tree.get_nil] at hfile
      exact hfile
    · rw [List.prefix_nil.mp hrest, hnone] at hfile
      exact hfile

/-- A file comes to stand at a path, and the directories above it. -/
def Places (t t' : Tree Bytes UInt8) (dest : List Bytes) (content : Bytes) : Prop :=
  t.get dest ≠ some .dir ∧ ∃ t₁, Digs t t₁ dest.dropLast ∧ Writes t₁ t' dest content

theorem places_of_placed (hw : Orderly w.disk) {dest : List Bytes} {content : Bytes}
    (h : w.Placed w' dest content) : Places w.disk w'.disk dest content := by
  have hnone : w.disk.get w.tmpPath = none := hw.no_temporary w.counter
  have hfree (q : List Bytes) (hq : q <+: dest.dropLast) : ¬Entry.IsFile (w.disk.get q) := (h.free q hq).2
  have hnotBlocked : ¬w.disk.Blocked dest.dropLast := by
    rintro ⟨q, hq, hfile⟩
    exact hfree q ((List.mem_inits _ _).mp hq) hfile
  obtain ⟨t₁, -, hget₁⟩ := Tree.createDirAll_of_free hnotBlocked
  obtain ⟨m, hget⟩ := h.get
  refine ⟨h.not_dir, t₁, ⟨hfree, hget₁⟩, m, fun q => ?_⟩
  rw [hget, hget₁]
  by_cases hq : q = w.tmpPath
  · have hprefix : ¬w.tmpPath <+: dest.dropLast := fun hp => (h.free _ hp).1 rfl
    rw [hq, if_pos rfl, if_neg hprefix, hnone]
  · rw [if_neg hq]

/-- The path of an object is below a bucket, and so not the store's. -/
theorem Places.orderly {t t' : Tree Bytes UInt8} {dest : List Bytes} {content : Bytes}
    (h : Places t t' dest content) (ht : Orderly t) (hdest : BelowBucket dest) (hrest : dest.length ≠ 1) :
    Orderly t' := by
  obtain ⟨-, t₁, hdigs, hwrites⟩ := h
  refine hwrites.orderly (hdigs.orderly ht ?_) ?_
  · rintro name hname hhead
    obtain ⟨bucket, rest, hbucket, rfl⟩ := hdest
    cases rest with
    | nil => exact hrest rfl
    | cons n rest =>
      rw [List.dropLast_cons₂, List.head?_cons] at hhead
      exact not_isHidden_bucket hbucket (Option.some.inj hhead ▸ hname)
  · rintro n rfl
    exact hrest rfl

/-- A file of an orderly store is written by way of a temporary file. -/
theorem meets_write {α : Type} {write : List Bytes → Op α} {R : α → Bytes → Prop} {F : Failure → Prop}
    (hw : Orderly w.disk) (dest : List Bytes)
    (hwrite : ∀ w₁, w.Open w₁ [] → (write w.tmpPath).Meets World.step w₁
      (fun a w₂ => ∃ content, R a content ∧ w.Open w₂ content)
      fun e w₂ => F e ∧ ∃ content, w.Open w₂ content) :
    (fs.writing dest write).Meets World.step w
      (fun a w' => ∃ content, R a content ∧ Places w.disk w'.disk dest content)
      fun e w' => (F e ∨ IsIo e ∧ ¬w.Clear dest) ∧ Alike w.disk w'.disk := by
  refine (meets_writing fs dest hwrite).mono ?_ ?_
  · rintro a w' ⟨content, hR, hplaced⟩
    exact ⟨content, hR, places_of_placed hw hplaced⟩
  · rintro e w' ⟨he, hdiscarded⟩
    exact ⟨he, alike_of_discarded hw hdiscarded⟩

/-- A file in the root needs no directories. -/
theorem places_root {t t' : Tree Bytes UInt8} {name content : Bytes} (h : Places t t' [name] content) :
    Writes t t' [name] content := by
  obtain ⟨-, t₁, hdigs, m, hget⟩ := h
  refine ⟨m, fun q => ?_⟩
  rw [hget]
  by_cases hq : q = []
  · subst hq
    simp
  · have hnot : ¬q <+: [name].dropLast := by simpa using hq
    rw [hdigs.get, if_neg hnot]

end Parts

end S3s.Fs
