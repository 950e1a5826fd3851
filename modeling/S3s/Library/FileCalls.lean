import S3s.Library.FileTree

/-! # Calls on a file system

Each call is answered by the tree as a whole: it changes the tree at the paths that it
touches, or fails and changes nothing.
-/
namespace S3s.FileTree

/-- The calls on a file system. -/
inductive Call (ν β : Type) where
  | metadata (p : List ν)
  | open (p : List ν)
  | read (p : List ν)
  | readDir (p : List ν)
  | createDir (p : List ν)
  | createDirAll (p : List ν)
  | createFile (p : List ν)
  | append (p : List ν) (content : List β)
  | rename (src dst : List ν)
  | copy (src dst : List ν)
  | setModified (p : List ν) (modified : Nat)
  | removeFile (p : List ν)
  | removeDir (p : List ν)
  | removeDirAll (p : List ν)

/-- What is told of an entry. -/
structure Stat where
  isDir : Bool
  len : Nat
  modified : Nat
deriving DecidableEq

/-- What a call answers when it does not fail. -/
def Call.Payload {ν β : Type} : Call ν β → Type
  | .metadata _ => Stat
  | .open _ => Entry β
  | .read _ => List β
  | .readDir _ => List (ν × Bool)
  | _ => Unit

/-- What a tree does not say: the time, and what is told of a directory. -/
structure Surroundings where
  now : Nat
  dirStat : Stat

variable {ν β : Type} [DecidableEq ν] [DecidableEq β]

def Entry.stat (around : Surroundings) : Entry β → Stat
  | .file content modified => ⟨false, content.length, modified⟩
  | .dir => around.dirStat

namespace Tree

/-- An entry, if there is one. -/
def find (t : Tree ν β) (p : List ν) : Except ErrorKind (Entry β) :=
  match t.get p with
  | some e => .ok e
  | none => .error (t.missing p)

/-- The content of a file. -/
def content (t : Tree ν β) (p : List ν) : Except ErrorKind (List β × Nat) :=
  match t.get p with
  | some (.file content modified) => .ok (content, modified)
  | some .dir => .error .isADirectory
  | none => .error (t.missing p)

/-- The names in a directory, and which are those of directories. -/
def list (t : Tree ν β) (p : List ν) : Except ErrorKind (List (ν × Bool)) :=
  match t.get p with
  | some .dir => .ok ((t.children p).map fun x => (x.1, decide (x.2 = .dir)))
  | some (.file _ _) => .error .notADirectory
  | none => .error (t.missing p)

/-- A change of the tree, or nothing done when it fails. -/
def commit (t : Tree ν β) : Except ErrorKind (Tree ν β) → Except ErrorKind Unit × Tree ν β
  | .ok t' => (.ok (), t')
  | .error kind => (.error kind, t)

/-- The answer to a call, and the tree behind it. -/
def answer (around : Surroundings) (t : Tree ν β) :
    (c : Call ν β) → Except ErrorKind c.Payload × Tree ν β
  | .metadata p => ((t.find p).map (Entry.stat around), t)
  | .open p => (t.find p, t)
  | .read p => ((t.content p).map Prod.fst, t)
  | .readDir p => (t.list p, t)
  | .createDir p => t.commit (t.createDir p)
  | .createDirAll p => t.commit (t.createDirAll p)
  | .createFile p => t.commit (t.writeFile p [] around.now)
  | .append p added => t.commit do
      let (content, _) ← t.content p
      t.writeFile p (content ++ added) around.now
  | .rename src dst => t.commit (t.rename src dst)
  | .copy src dst => t.commit do
      let (content, _) ← t.content src
      -- the target is truncated before the source is read
      t.writeFile dst (if src = dst then [] else content) around.now
  | .setModified p modified => t.commit do
      let (content, _) ← t.content p
      t.writeFile p content modified
  | .removeFile p => t.commit (t.removeFile p)
  | .removeDir p => t.commit (t.removeDir p)
  | .removeDirAll p => t.commit (t.removeDirAll p)

end Tree

/-- The paths whose entry a call may change. -/
def Call.Touches (t : Tree ν β) : Call ν β → List ν → Prop
  | .metadata _, _ => False
  | .open _, _ => False
  | .read _, _ => False
  | .readDir _, _ => False
  | .createDir p, q => q = p ∧ t.get q = none
  | .createDirAll p, q => q <+: p ∧ t.get q = none
  | .createFile p, q => q = p
  | .append p _, q => q = p
  | .rename src dst, q => q = src ∨ q = dst
  | .copy _ dst, q => q = dst
  | .setModified p _, q => q = p
  | .removeFile p, q => q = p
  | .removeDir p, q => q = p
  | .removeDirAll p, q => p <+: q

namespace Tree

theorem writeFile_eq_ok {t t' : Tree ν β} {p : List ν} {c : List β} {m : Nat}
    (h : t.writeFile p c m = .ok t') :
    t.Holds p ∧ ∀ q, t'.get q = if q = p then some (.file c m) else t.get q := by
  unfold writeFile at h
  split at h
  · next hholds =>
    obtain rfl := Except.ok.inj h
    exact ⟨hholds, fun q => get_set hholds.fits q⟩
  · split at h <;> cases h

theorem writeFile_of_holds {t : Tree ν β} {p : List ν} (h : t.Holds p) (c : List β) (m : Nat) :
    ∃ t', t.writeFile p c m = .ok t' ∧ ∀ q, t'.get q = if q = p then some (.file c m) else t.get q :=
  ⟨_, dif_pos h, fun q => get_set h.fits q⟩

omit [DecidableEq β] in
theorem removeFile_eq_ok {t t' : Tree ν β} {p : List ν} (h : t.removeFile p = .ok t') :
    Entry.IsFile (t.get p) ∧ ∀ q, t'.get q = if q = p then none else t.get q := by
  unfold removeFile at h
  split at h
  · next hget =>
    obtain rfl := Except.ok.inj h
    exact ⟨by rw [hget]; trivial, fun q => get_set _ q⟩
  · cases h
  · cases h

omit [DecidableEq β] in
theorem removeFile_of_file {t : Tree ν β} {p : List ν} (h : Entry.IsFile (t.get p)) :
    ∃ t', t.removeFile p = .ok t' ∧ ∀ q, t'.get q = if q = p then none else t.get q := by
  cases hres : t.removeFile p with
  | ok t' => exact ⟨t', rfl, (removeFile_eq_ok hres).2⟩
  | error kind =>
    unfold removeFile at hres
    split at hres
    · cases hres
    · next hget =>
      rw [hget] at h
      exact h.elim
    · next hget =>
      rw [hget] at h
      exact h.elim

theorem rename_eq_ok {t t' : Tree ν β} {src dst : List ν} (h : t.rename src dst = .ok t') :
    ∃ c m, t.get src = some (.file c m) ∧ t.Holds dst ∧
      ∀ q, t'.get q = if q = dst then some (.file c m) else if q = src then none else t.get q := by
  unfold rename at h
  split at h
  · next c m hsrc =>
    refine ⟨c, m, hsrc, ?_⟩
    cases hwrite : t.writeFile dst c m with
    | error kind => simp [hwrite] at h
    | ok t₁ =>
      obtain ⟨hholds, hget⟩ := writeFile_eq_ok hwrite
      refine ⟨hholds, fun q => ?_⟩
      simp only [hwrite] at h
      by_cases heq : src = dst
      · rw [if_pos heq] at h
        obtain rfl := Except.ok.inj h
        rw [hget]
        by_cases hq : q = dst <;> simp [hq, heq]
      · rw [if_neg heq] at h
        rw [(removeFile_eq_ok h).2, hget]
        by_cases hq : q = src
        · simp [hq, heq]
        · simp [hq]
  · cases h
  · cases h

theorem rename_of_holds {t : Tree ν β} {src dst : List ν} {c : List β} {m : Nat}
    (hsrc : t.get src = some (.file c m)) (hdst : t.Holds dst) :
    ∃ t', t.rename src dst = .ok t' ∧
      ∀ q, t'.get q = if q = dst then some (.file c m) else if q = src then none else t.get q := by
  have hok : ∃ t', t.rename src dst = .ok t' := by
    obtain ⟨t₁, hwrite, hget⟩ := writeFile_of_holds hdst c m
    simp only [rename, hsrc, hwrite]
    by_cases heq : src = dst
    · simp [heq]
    · rw [if_neg heq]
      have hfile : Entry.IsFile (t₁.get src) := by
        rw [hget, if_neg heq, hsrc]
        trivial
      obtain ⟨t', ht', -⟩ := removeFile_of_file hfile
      exact ⟨t', ht'⟩
  obtain ⟨t', ht'⟩ := hok
  obtain ⟨c', m', hsrc', -, hget⟩ := rename_eq_ok ht'
  obtain ⟨rfl, rfl⟩ : c = c' ∧ m = m' := by simpa [hsrc] using hsrc'
  exact ⟨t', ht', hget⟩

theorem createDir_eq_ok {t t' : Tree ν β} {p : List ν} (h : t.createDir p = .ok t') :
    t.get p = none ∧ ∀ q, t'.get q = if q = p then some .dir else t.get q := by
  unfold createDir at h
  split at h
  · split at h
    · cases h
    · next hnone =>
      obtain rfl := Except.ok.inj h
      exact ⟨by simpa using hnone, fun q => get_set _ q⟩
  · split at h <;> cases h

/-- Where no file is in the way, directories come to stand all the way down. -/
theorem get_createDirs {above names : List ν} {t : Tree ν β} (habove : t.get above = some .dir)
    (hfree : ∀ q, above <+: q → q <+: above ++ names → ¬Entry.IsFile (t.get q)) (q : List ν) :
    (t.createDirs above names).get q =
      if above <+: q ∧ q <+: above ++ names then some .dir else t.get q := by
  induction names generalizing above t with
  | nil =>
    by_cases hq : above <+: q ∧ q <+: above ++ []
    · have heq : q = above := by
        rw [List.append_nil] at hq
        exact hq.2.eq_of_length (Nat.le_antisymm hq.2.length_le hq.1.length_le)
      rw [if_pos hq, heq]
      exact habove
    · rw [if_neg hq]
      rfl
  | cons n names ih =>
    have hsplit : above ++ n :: names = above ++ [n] ++ names := by simp
    have hnext : above <+: above ++ [n] ∧ above ++ [n] <+: above ++ n :: names :=
      ⟨List.prefix_append _ _, by rw [hsplit]; exact List.prefix_append _ _⟩
    -- the tree in which the next directory stands
    have hstep : ∃ t₁ : Tree ν β, t.createDirs above (n :: names) = t₁.createDirs (above ++ [n]) names ∧
        ∀ q, t₁.get q = if q = above ++ [n] then some .dir else t.get q := by
      cases hdir : t.createDir (above ++ [n]) with
      | ok t₁ => exact ⟨t₁, by simp [createDirs, hdir], (createDir_eq_ok hdir).2⟩
      | error kind =>
        refine ⟨t, by simp [createDirs, hdir], fun q => ?_⟩
        have hexists : t.get (above ++ [n]) = some .dir := by
          have hsome : (t.get (above ++ [n])).isSome = true := by
            by_contra hnone
            simp [createDir, habove, hnone] at hdir
          obtain ⟨e, he⟩ := Option.isSome_iff_exists.mp hsome
          have hnot := hfree _ hnext.1 hnext.2
          rw [he] at hnot
          cases e with
          | dir => exact he
          | file c m => exact (hnot trivial).elim
        by_cases hq : q = above ++ [n]
        · rw [if_pos hq, hq, hexists]
        · rw [if_neg hq]
    obtain ⟨t₁, heq, hget⟩ := hstep
    rw [heq, ih (by rw [hget, if_pos rfl]) ?_, hget]
    · by_cases hq : q = above ++ [n]
      · rw [hq, if_pos rfl, ite_self, if_pos hnext]
      · rw [if_neg hq, ← hsplit]
        by_cases hroot : q = above
        · subst hroot
          simp [habove]
        · have hiff : above ++ [n] <+: q ∧ q <+: above ++ n :: names ↔
              above <+: q ∧ q <+: above ++ n :: names := by
            constructor
            · rintro ⟨h₁, h₂⟩
              exact ⟨(List.prefix_append _ _).trans h₁, h₂⟩
            · rintro ⟨⟨rest, rfl⟩, h₂⟩
              refine ⟨?_, h₂⟩
              cases rest with
              | nil => simp at hroot
              | cons m rest =>
                rw [List.prefix_append_right_inj, List.cons_prefix_cons] at h₂
                rw [h₂.1, List.prefix_append_right_inj, List.cons_prefix_cons]
                exact ⟨rfl, List.nil_prefix⟩
          simp only [hiff]
    · intro q h₁ h₂
      rw [← hsplit] at h₂
      rw [hget]
      by_cases hq : q = above ++ [n]
      · rw [if_pos hq]
        exact fun h => h
      · rw [if_neg hq]
        exact hfree q ((List.prefix_append _ _).trans h₁) h₂

theorem createDirAll_of_free {t : Tree ν β} {p : List ν} (h : ¬t.Blocked p) :
    ∃ t', t.createDirAll p = .ok t' ∧ ∀ q, t'.get q = if q <+: p then some .dir else t.get q := by
  have hfile : ¬Entry.IsFile (t.get p) := fun hfile => h ⟨p, by simp, hfile⟩
  refine ⟨_, by rw [createDirAll, if_neg hfile, if_neg h], fun q => ?_⟩
  rw [get_createDirs (get_nil t)]
  · simp
  · intro q _ hq hfile
    exact h ⟨q, by simpa using hq, hfile⟩

theorem createDirAll_eq_ok {t t' : Tree ν β} {p : List ν} (h : t.createDirAll p = .ok t') :
    ¬t.Blocked p ∧ ∀ q, t'.get q = if q <+: p then some .dir else t.get q := by
  have hfree : ¬t.Blocked p := by
    intro hblocked
    unfold createDirAll at h
    rw [if_pos hblocked] at h
    split at h <;> cases h
  obtain ⟨t₁, ht₁, hget⟩ := createDirAll_of_free hfree
  rw [h] at ht₁
  obtain rfl := Except.ok.inj ht₁
  exact ⟨hfree, hget⟩

omit [DecidableEq β] in
theorem removeDir_eq_ok {t t' : Tree ν β} {p : List ν} (h : t.removeDir p = .ok t') :
    t.get p = some .dir ∧ ∀ q, t'.get q = if q = p then none else t.get q := by
  unfold removeDir at h
  split at h
  · next hget =>
    split at h
    · obtain rfl := Except.ok.inj h
      exact ⟨hget, fun q => get_set _ q⟩
    · cases h
  · cases h
  · cases h

omit [DecidableEq β] in
theorem removeDirAll_eq_ok {t t' : Tree ν β} {p : List ν} (h : t.removeDirAll p = .ok t') :
    t.get p = some .dir ∧ ∀ q, t'.get q = if p <+: q then none else t.get q := by
  unfold removeDirAll at h
  split at h
  · next hget =>
    split at h
    · cases h
    · next hp =>
      obtain rfl := Except.ok.inj h
      exact ⟨hget, fun q => get_prune t hp q⟩
  · cases h
  · cases h

/-- A call changes nothing but what it touches. -/
theorem answer_frame (around : Surroundings) (t : Tree ν β) (c : Call ν β) {q : List ν}
    (h : ¬c.Touches t q) : (t.answer around c).2.get q = t.get q := by
  have hcommit (r : Except ErrorKind (Tree ν β)) (hr : ∀ t', r = .ok t' → t'.get q = t.get q) :
      (t.commit r).2.get q = t.get q := by
    cases r with
    | error kind => rfl
    | ok t' => exact hr t' rfl
  have hwrite {p : List ν} {content : List β} {m : Nat} (hq : q ≠ p) (t' : Tree ν β)
      (hr : t.writeFile p content m = .ok t') : t'.get q = t.get q := by
    rw [(writeFile_eq_ok hr).2, if_neg hq]
  cases c with
  | metadata p => rfl
  | «open» p => rfl
  | read p => rfl
  | readDir p => rfl
  | createDir p =>
    refine hcommit _ fun t' ht' => ?_
    obtain ⟨hnone, hget⟩ := createDir_eq_ok ht'
    have hq : q ≠ p := fun hq => h ⟨hq, hq ▸ hnone⟩
    rw [hget, if_neg hq]
  | createDirAll p =>
    refine hcommit _ fun t' ht' => ?_
    obtain ⟨hfree, hget⟩ := createDirAll_eq_ok ht'
    rw [hget]
    by_cases hq : q <+: p
    · rw [if_pos hq]
      cases hold : t.get q with
      | none => exact absurd ⟨hq, hold⟩ h
      | some e =>
        cases e with
        | dir => rfl
        | file c m =>
          refine absurd ⟨q, by simpa using hq, ?_⟩ hfree
          rw [hold]
          trivial
    · rw [if_neg hq]
  | createFile p => exact hcommit _ fun t' ht' => hwrite h t' ht'
  | append p added =>
    refine hcommit _ fun t' ht' => ?_
    cases hcontent : t.content p with
    | error kind => simp [hcontent, bind, Except.bind] at ht'
    | ok x =>
      rw [hcontent] at ht'
      exact hwrite h t' ht'
  | rename src dst =>
    refine hcommit _ fun t' ht' => ?_
    obtain ⟨c, m, -, -, hget⟩ := rename_eq_ok ht'
    have hq : ¬q = src ∧ ¬q = dst := not_or.mp h
    rw [hget, if_neg hq.2, if_neg hq.1]
  | copy src dst =>
    refine hcommit _ fun t' ht' => ?_
    cases hcontent : t.content src with
    | error kind => simp [hcontent, bind, Except.bind] at ht'
    | ok x =>
      rw [hcontent] at ht'
      exact hwrite h t' ht'
  | setModified p m =>
    refine hcommit _ fun t' ht' => ?_
    cases hcontent : t.content p with
    | error kind => simp [hcontent, bind, Except.bind] at ht'
    | ok x =>
      rw [hcontent] at ht'
      exact hwrite h t' ht'
  | removeFile p =>
    refine hcommit _ fun t' ht' => ?_
    rw [(removeFile_eq_ok ht').2, if_neg (show ¬q = p from h)]
  | removeDir p =>
    refine hcommit _ fun t' ht' => ?_
    rw [(removeDir_eq_ok ht').2, if_neg (show ¬q = p from h)]
  | removeDirAll p =>
    refine hcommit _ fun t' ht' => ?_
    rw [(removeDirAll_eq_ok ht').2, if_neg (show ¬p <+: q from h)]

end Tree

end S3s.FileTree
