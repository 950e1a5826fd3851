import Mathlib.Algebra.GroupWithZero.Nat
import Mathlib.Data.List.Infix
import S3s.Library.Grouping

/-! # Trees of files and directories

A file system below its root: the entries by their paths. A tree holds at most one entry at
a path, and the parent of an entry is a directory. The calls on a file system are answered
by the tree, which they change at the paths that they touch.
-/
namespace S3s.FileTree
open Grouping

/-- A file, with the time of its last change, or a directory. -/
inductive Entry (β : Type) where
  | file (content : List β) (modified : Nat)
  | dir
deriving DecidableEq

/-- `ErrorKind` -/
inductive ErrorKind where
  | notFound | alreadyExists | notADirectory | isADirectory | directoryNotEmpty | other
deriving DecidableEq

variable {ν β : Type}

def Entry.IsFile : Option (Entry β) → Prop
  | some (.file _ _) => True
  | _ => False

instance (o : Option (Entry β)) : Decidable (Entry.IsFile o) :=
  match o with
  | some (.file _ _) => inferInstanceAs (Decidable True)
  | some .dir => inferInstanceAs (Decidable False)
  | none => inferInstanceAs (Decidable False)

/-- The entries below the root, which is a directory itself. -/
structure Tree (ν β : Type) where
  entries : List (List ν × Entry β)
  nodup : (entries.map Prod.fst).Nodup
  nonroot : ∀ x ∈ entries, x.1 ≠ []
  parents : ∀ p n e, (p ++ [n], e) ∈ entries → p = [] ∨ (p, Entry.dir) ∈ entries

namespace Tree

/-- The tree in which there is nothing. -/
def empty : Tree ν β := ⟨[], by simp, by simp, by simp⟩

/-- Entries, of which each is below a directory among them. -/
def Listed (entries : List (List ν × Entry β)) : Prop :=
  (entries.map Prod.fst).Nodup ∧ ∀ x ∈ entries, x.1 ≠ [] ∧
    (x.1.dropLast = [] ∨ (x.1.dropLast, Entry.dir) ∈ entries)

instance [DecidableEq ν] [DecidableEq β] (entries : List (List ν × Entry β)) :
    Decidable (Listed entries) :=
  inferInstanceAs (Decidable (_ ∧ _))

/-- The tree of the entries. -/
def ofList (entries : List (List ν × Entry β)) (h : Listed entries) : Tree ν β where
  entries := entries
  nodup := h.1
  nonroot x hx := (h.2 x hx).1
  parents p n e hmem := by simpa using (h.2 _ hmem).2

variable [DecidableEq ν]

/-- What is at a path. -/
def get (t : Tree ν β) (p : List ν) : Option (Entry β) :=
  if p = [] then some .dir else @List.lookup _ _ instBEqOfDecidableEq p t.entries

@[simp] theorem get_nil (t : Tree ν β) : t.get [] = some .dir := if_pos rfl

theorem get_eq_some {t : Tree ν β} {p : List ν} (hp : p ≠ []) {e : Entry β} :
    t.get p = some e ↔ (p, e) ∈ t.entries := by
  rw [get, if_neg hp, mem_iff_lookup t.nodup]

theorem get_of_mem {t : Tree ν β} {p : List ν} {e : Entry β} (h : (p, e) ∈ t.entries) :
    t.get p = some e :=
  (get_eq_some (t.nonroot _ h)).mpr h

theorem get_parent {t : Tree ν β} {p : List ν} {n : ν} {e : Entry β} (h : t.get (p ++ [n]) = some e) :
    t.get p = some .dir := by
  rcases t.parents p n e ((get_eq_some (by simp)).mp h) with rfl | hmem
  · exact get_nil t
  · exact get_of_mem hmem

/-- Above an entry there are directories. -/
theorem get_above {t : Tree ν β} {p q : List ν} {e : Entry β} (h : t.get p = some e) (hq : q <+: p)
    (hne : q ≠ p) : t.get q = some .dir := by
  obtain ⟨rest, rfl⟩ := hq
  induction rest using List.reverseRecOn generalizing e with
  | nil => exact absurd (List.append_nil q).symm hne
  | append_singleton rest n ih =>
    rw [← List.append_assoc] at h
    have hparent := get_parent h
    cases rest with
    | nil => simpa using hparent
    | cons m rest => exact ih hparent (by simp)

/-- Below a path that is no directory there is nothing. -/
theorem get_below {t : Tree ν β} {p q : List ν} (h : t.get p ≠ some .dir) (hq : p <+: q) (hne : p ≠ q) :
    t.get q = none := by
  cases hget : t.get q with
  | none => rfl
  | some e => exact absurd (get_above hget hq hne) h

/-- What may stand at a path: something only in a directory, and entries only below a directory. -/
structure Fits (t : Tree ν β) (p : List ν) (o : Option (Entry β)) : Prop where
  ne_nil : p ≠ []
  parent : o ≠ none → t.get p.dropLast = some .dir
  below : o ≠ some .dir → ∀ n, t.get (p ++ [n]) = none

/-- The entries with another one, or none, at a path. -/
def replace (p : List ν) (o : Option (Entry β)) (entries : List (List ν × Entry β)) :
    List (List ν × Entry β) :=
  match o with
  | some e => upsert p (fun _ => e) entries
  | none => entries.filter fun x => x.1 ≠ p

theorem nodup_replace (p : List ν) (o : Option (Entry β)) {entries : List (List ν × Entry β)}
    (h : (entries.map Prod.fst).Nodup) : ((replace p o entries).map Prod.fst).Nodup := by
  cases o with
  | some e => exact upsert_nodup h
  | none => exact (List.filter_sublist.map _).nodup h

theorem mem_replace {p : List ν} {o : Option (Entry β)} {entries : List (List ν × Entry β)}
    (h : (entries.map Prod.fst).Nodup) {q : List ν} {e : Entry β} :
    (q, e) ∈ replace p o entries ↔ if q = p then o = some e else (q, e) ∈ entries := by
  cases o with
  | none =>
    rw [replace, List.mem_filter]
    by_cases hq : q = p <;> simp [hq]
  | some e' =>
    rw [replace, mem_iff_lookup (upsert_nodup h), lookup_upsert, mem_iff_lookup h]
    by_cases hq : q = p <;> simp [hq]

/-- The tree with another entry, or none, at a path. -/
def set (t : Tree ν β) (p : List ν) (o : Option (Entry β)) (h : t.Fits p o) : Tree ν β where
  entries := replace p o t.entries
  nodup := nodup_replace p o t.nodup
  nonroot := by
    rintro ⟨q, e⟩ hmem
    rw [mem_replace t.nodup] at hmem
    split at hmem
    · next hq => exact hq ▸ h.ne_nil
    · exact t.nonroot _ hmem
  parents := by
    intro q n e hmem
    rw [mem_replace t.nodup] at hmem
    by_cases hroot : q = []
    · exact Or.inl hroot
    · right
      rw [mem_replace t.nodup]
      split at hmem
      · next hq =>
        have hdir : t.get q = some .dir := by simpa [← hq] using h.parent (by simp [hmem])
        have hne : q ≠ p := by simp [← hq]
        rw [if_neg hne]
        exact (get_eq_some hroot).mp hdir
      · have hget : t.get (q ++ [n]) = some e := get_of_mem hmem
        by_cases hq : q = p
        · rw [if_pos hq]
          by_contra ho
          subst hq
          rw [h.below ho n] at hget
          cases hget
        · rw [if_neg hq]
          exact (get_eq_some hroot).mp (get_parent hget)

theorem get_set {t : Tree ν β} {p : List ν} {o : Option (Entry β)} (h : t.Fits p o) (q : List ν) :
    (t.set p o h).get q = if q = p then o else t.get q := by
  by_cases hroot : q = []
  · subst hroot
    rw [get_nil, if_neg h.ne_nil.symm, get_nil]
  · apply Option.ext
    intro e
    rw [get_eq_some hroot, set, mem_replace t.nodup]
    by_cases hq : q = p
    · simp [hq]
    · rw [if_neg hq, if_neg hq, get_eq_some hroot]

/-- The tree without a path and what is below it. -/
def prune (t : Tree ν β) (p : List ν) : Tree ν β where
  entries := t.entries.filter fun x => ¬p <+: x.1
  nodup := (List.filter_sublist.map _).nodup t.nodup
  nonroot x hx := t.nonroot x (List.mem_filter.mp hx).1
  parents := by
    intro q n e hmem
    obtain ⟨hmem, hp⟩ := List.mem_filter.mp hmem
    rcases t.parents q n e hmem with hq | hq
    · exact Or.inl hq
    · right
      have hnot : ¬p <+: q ++ [n] := of_decide_eq_true hp
      have hq' : ¬p <+: q := fun h => hnot (h.trans (List.prefix_append q [n]))
      exact List.mem_filter.mpr ⟨hq, decide_eq_true hq'⟩

theorem get_prune (t : Tree ν β) {p : List ν} (hp : p ≠ []) (q : List ν) :
    (t.prune p).get q = if p <+: q then none else t.get q := by
  by_cases hroot : q = []
  · subst hroot
    simp [hp]
  · apply Option.ext
    intro e
    rw [get_eq_some hroot, prune, List.mem_filter]
    by_cases hq : p <+: q
    · simp [hq]
    · simp [hq, get_eq_some hroot]

/-- The names in a directory, with what is there. -/
def children (t : Tree ν β) (p : List ν) : List (ν × Entry β) :=
  t.entries.filterMap fun x => if x.1.dropLast = p then x.1.getLast?.map fun n => (n, x.2) else none

theorem mem_children {t : Tree ν β} {p : List ν} {n : ν} {e : Entry β} :
    (n, e) ∈ t.children p ↔ t.get (p ++ [n]) = some e := by
  rw [get_eq_some (by simp), children, List.mem_filterMap]
  constructor
  · rintro ⟨⟨q, e'⟩, hmem, hx⟩
    split at hx
    · next hp =>
      obtain ⟨m, hm, hpair⟩ := Option.map_eq_some_iff.mp hx
      obtain ⟨rfl, rfl⟩ := Prod.mk.inj hpair
      have hq : p ++ [m] = q := by
        rw [← hp]
        exact List.dropLast_append_getLast? m hm
      rwa [hq]
    · cases hx
  · intro h
    exact ⟨_, h, by simp⟩

/-- Whether a file stands in the way to a path. -/
def Blocked (t : Tree ν β) (p : List ν) : Prop := ∃ q ∈ p.inits, Entry.IsFile (t.get q)

instance (t : Tree ν β) (p : List ν) : Decidable (t.Blocked p) :=
  inferInstanceAs (Decidable (∃ q ∈ p.inits, Entry.IsFile (t.get q)))

/-- Why nothing can be found at a path. -/
def missing (t : Tree ν β) (p : List ν) : ErrorKind := if t.Blocked p then .notADirectory else .notFound

/-- A path in a directory where no directory is. -/
structure Holds (t : Tree ν β) (p : List ν) : Prop where
  ne_nil : p ≠ []
  parent : t.get p.dropLast = some .dir
  not_dir : t.get p ≠ some .dir

variable [DecidableEq β]

instance (t : Tree ν β) (p : List ν) : Decidable (t.Holds p) :=
  decidable_of_iff (p ≠ [] ∧ t.get p.dropLast = some .dir ∧ t.get p ≠ some .dir)
    ⟨fun ⟨h₁, h₂, h₃⟩ => ⟨h₁, h₂, h₃⟩, fun h => ⟨h.ne_nil, h.parent, h.not_dir⟩⟩

omit [DecidableEq β] in
theorem Holds.fits {t : Tree ν β} {p : List ν} (h : t.Holds p) {o : Option (Entry β)} : t.Fits p o :=
  ⟨h.ne_nil, fun _ => h.parent, fun _ n => get_below h.not_dir (List.prefix_append p [n]) (by simp)⟩

omit [DecidableEq β] in
theorem holds_of_file {t : Tree ν β} {p : List ν} {c : List β} {m : Nat}
    (h : t.get p = some (.file c m)) : t.Holds p where
  ne_nil := by
    rintro rfl
    simp at h
  parent := by
    rcases List.eq_nil_or_concat p with rfl | ⟨q, n, rfl⟩
    · simp at h
    · rw [List.concat_eq_append] at *
      simpa using get_parent h
  not_dir := by simp [h]

/-- A file with this content at a path. -/
def writeFile (t : Tree ν β) (p : List ν) (content : List β) (modified : Nat) :
    Except ErrorKind (Tree ν β) :=
  if h : t.Holds p then .ok (t.set p (some (.file content modified)) h.fits)
  else if t.get p = some .dir then .error .isADirectory
  else .error (t.missing p)

/-- Nothing at a path where a file is. -/
def removeFile (t : Tree ν β) (p : List ν) : Except ErrorKind (Tree ν β) :=
  match h : t.get p with
  | some (.file _ _) => .ok (t.set p none (holds_of_file h).fits)
  | some .dir => .error .isADirectory
  | none => .error (t.missing p)

/-- A file moved to another path. -/
def rename (t : Tree ν β) (src dst : List ν) : Except ErrorKind (Tree ν β) :=
  match t.get src with
  | some (.file content modified) =>
    match t.writeFile dst content modified with
    | .ok t' => if src = dst then .ok t' else t'.removeFile src
    | .error kind => .error kind
  | some .dir => .error .other
  | none => .error (t.missing src)

omit [DecidableEq β] in
theorem fits_dir {t : Tree ν β} {p : List ν} (hp : p ≠ []) (hparent : t.get p.dropLast = some .dir) :
    t.Fits p (some .dir) :=
  ⟨hp, fun _ => hparent, fun h => absurd rfl h⟩

/-- A directory at a path where nothing is. -/
def createDir (t : Tree ν β) (p : List ν) : Except ErrorKind (Tree ν β) :=
  if h : p ≠ [] ∧ t.get p.dropLast = some .dir then
    if (t.get p).isSome then .error .alreadyExists else .ok (t.set p (some .dir) (fits_dir h.1 h.2))
  else if p = [] then .error .alreadyExists
  else .error (t.missing p)

/-- Directories at the paths from `above` on down the names, where nothing is. -/
def createDirs (t : Tree ν β) (above : List ν) : List ν → Tree ν β
  | [] => t
  | n :: names =>
    match t.createDir (above ++ [n]) with
    | .ok t' => t'.createDirs (above ++ [n]) names
    | .error _ => t.createDirs (above ++ [n]) names

/-- Directories at a path and above it. -/
def createDirAll (t : Tree ν β) (p : List ν) : Except ErrorKind (Tree ν β) :=
  if Entry.IsFile (t.get p) then .error .alreadyExists
  else if t.Blocked p then .error .notADirectory
  else .ok (t.createDirs [] p)

/-- Nothing at a path where an empty directory is. -/
def removeDir (t : Tree ν β) (p : List ν) : Except ErrorKind (Tree ν β) :=
  match t.get p with
  | some .dir =>
    if h : p ≠ [] ∧ t.children p = [] then
      .ok (t.set p none ⟨h.1, fun ho => absurd rfl ho, fun _ n => by
        cases hget : t.get (p ++ [n]) with
        | none => rfl
        | some e => simpa [h.2] using mem_children.mpr hget⟩)
    else .error .directoryNotEmpty
  | some (.file _ _) => .error .notADirectory
  | none => .error (t.missing p)

/-- Nothing at a path where a directory is, nor below it. -/
def removeDirAll (t : Tree ν β) (p : List ν) : Except ErrorKind (Tree ν β) :=
  match t.get p with
  | some .dir => if p = [] then .error .other else .ok (t.prune p)
  | some (.file _ _) => .error .notADirectory
  | none => .error (t.missing p)

end Tree

end S3s.FileTree
