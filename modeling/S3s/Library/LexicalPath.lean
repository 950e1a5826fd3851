import S3s.Library.Bytes

/-! # Paths by their text

A path is read segment by segment, without a look at any file. Its normal form is how
many directories it climbs and which names it then goes down.
-/
namespace S3s.LexicalPath

/-- One segment, from a directory given by its names. -/
def step (dir : List Bytes) (segment : Bytes) : List Bytes :=
  if segment = [] ∨ segment = ascii "." then dir
  else if segment = ascii ".." then dir.dropLast
  else dir ++ [segment]

/-- The segments one after another. -/
def walk (dir : List Bytes) (segments : List Bytes) : List Bytes := segments.foldl step dir

/-- The segments of a path. -/
def segments (path : Bytes) : List Bytes := path.splitOn 47

def isAbsolute (path : Bytes) : Bool := path.head? == some 47

/-- Where a path leads from a directory. -/
def resolve (dir : List Bytes) (path : Bytes) : List Bytes :=
  walk (if isAbsolute path then [] else dir) (segments path)

/-- How far up, and the names down from there. -/
structure Normal where
  ups : Nat
  names : List Bytes
deriving DecidableEq

/-- One segment behind a normal form. -/
def Normal.step (n : Normal) (segment : Bytes) : Normal :=
  if segment = [] ∨ segment = ascii "." then n
  else if segment = ascii ".." then
    if n.names = [] then ⟨n.ups + 1, []⟩ else ⟨n.ups, n.names.dropLast⟩
  else ⟨n.ups, n.names ++ [segment]⟩

/-- The normal form of a path. -/
def normal (path : Bytes) : Normal := (segments path).foldl Normal.step ⟨0, []⟩

/-- Where a normal form leads from a directory. -/
def Normal.place (n : Normal) (dir : List Bytes) : List Bytes :=
  dir.take (dir.length - n.ups) ++ n.names

theorem Normal.place_step (n : Normal) (dir : List Bytes) (segment : Bytes) :
    (n.step segment).place dir = LexicalPath.step (n.place dir) segment := by
  by_cases hskip : segment = [] ∨ segment = ascii "."
  · simp [step, LexicalPath.step, hskip]
  · by_cases hup : segment = ascii ".."
    · by_cases hnames : n.names = []
      · have htake : (dir.take (dir.length - n.ups)).dropLast =
            dir.take (dir.length - (n.ups + 1)) := by
          rw [List.dropLast_eq_take, List.take_take, List.length_take]
          congr 1
          omega
        simp only [step, LexicalPath.step, if_neg hskip, if_pos hup, if_true, place, hnames,
          List.append_nil, htake]
      · simp only [step, LexicalPath.step, if_neg hskip, if_pos hup, if_neg hnames, place,
          List.dropLast_append_of_ne_nil hnames]
    · simp [step, LexicalPath.step, hskip, hup, place]

theorem walk_place (n : Normal) (dir : List Bytes) (segments : List Bytes) :
    walk (n.place dir) segments = (segments.foldl Normal.step n).place dir := by
  induction segments generalizing n with
  | nil => rfl
  | cons segment segments ih =>
    rw [walk, List.foldl_cons, ← Normal.place_step, ← walk, ih, List.foldl_cons]

/-- A path leads where its normal form does. -/
theorem walk_segments (dir : List Bytes) (path : Bytes) :
    walk dir (segments path) = (normal path).place dir := by
  have hstart : (⟨0, []⟩ : Normal).place dir = dir := by simp [Normal.place]
  rw [normal, ← walk_place, hstart]

theorem resolve_eq (dir : List Bytes) (path : Bytes) :
    resolve dir path = (normal path).place (if isAbsolute path then [] else dir) := by
  rw [resolve, walk_segments]

/-- A name is one segment that is neither empty nor one of the dots. -/
structure IsName (name : Bytes) : Prop where
  ne_nil : name ≠ []
  slash : 47 ∉ name
  ne_dot : name ≠ ascii "."
  ne_dots : name ≠ ascii ".."

theorem IsName.step {name : Bytes} (h : IsName name) (dir : List Bytes) :
    LexicalPath.step dir name = dir ++ [name] := by
  simp [LexicalPath.step, h.ne_nil, h.ne_dot, h.ne_dots]

theorem IsName.not_isAbsolute {name : Bytes} (h : IsName name) (rest : Bytes) :
    isAbsolute (name ++ rest) = false := by
  match name, h with
  | [], h => exact absurd rfl h.ne_nil
  | b :: name, h =>
    have hb : b ≠ 47 := by
      rintro rfl
      exact h.slash List.mem_cons_self
    simp [isAbsolute, hb]

theorem IsName.resolve {name : Bytes} (h : IsName name) (dir : List Bytes) :
    LexicalPath.resolve dir name = dir ++ [name] := by
  have habs : isAbsolute name = false := by simpa using h.not_isAbsolute []
  have hsegments : segments name = [name] := List.splitOn_eq_singleton h.slash
  simp [LexicalPath.resolve, habs, hsegments, walk, h.step]

/-- A name and a path below it. -/
theorem IsName.resolve_append {name : Bytes} (h : IsName name) (dir : List Bytes) (path : Bytes) :
    LexicalPath.resolve dir (name ++ 47 :: path) = (normal path).place (dir ++ [name]) := by
  have hsegments : segments (name ++ 47 :: path) = name :: segments path :=
    List.splitOn_append_cons_self_of_not_mem h.slash path
  rw [LexicalPath.resolve, h.not_isAbsolute, hsegments, if_neg (by simp), walk, List.foldl_cons,
    h.step, ← walk, walk_segments]

end S3s.LexicalPath
