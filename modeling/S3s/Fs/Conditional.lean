import S3s.Fs.Rejections
import S3s.Library.Interleaving

/-! # Conditional writes side by side

The writes of objects as programs of single calls that are made in any order. A conditional write looks
whether the object is there and what its record tells, receives the body, and puts the object in place. The
object may have been replaced by then.
-/
namespace S3s.Fs
open LexicalPath Programs FileTree

/-- A write that may have conditions, and who asks it. -/
inductive Write where
  | put (input : PutObjectInput) (trailers : Option Http.HeaderMap)
  | complete (input : CompleteMultipartUploadInput) (cred : Option Bytes)

namespace Write

/-- The bucket and the key of the object that is written. -/
def target : Write → Bytes × Bytes
  | put input _ => (input.bucket, input.key)
  | complete input _ => (input.bucket, input.key)

def ifNoneMatch : Write → Option ETagCondition
  | put input _ => input.ifNoneMatch
  | complete input _ => input.ifNoneMatch

def ifMatch : Write → Option ETagCondition
  | put input _ => input.ifMatch
  | complete input _ => input.ifMatch

/-- The write wants that there is no object, or the object with an ETag. -/
def isConditional (r : Write) : Bool :=
  r.ifNoneMatch = some .any || r.ifMatch.any fun condition => condition ≠ .any

/-- The calls of a write. -/
def program (fs : FileSystem) : Write → Op Response
  | put input trailers => fs.putObject input trailers >>= fun output => pure (.put output)
  | complete input cred => fs.completeMultipartUpload input cred >>= fun output => pure (.completed output)

def credentials : Write → Option Bytes
  | complete _ cred => cred
  | _ => none

def request : Write → Request
  | put input trailers => .putObject input trailers
  | complete input _ => .completeMultipartUpload input

/-- A write alone is the request. -/
theorem run_program (fs : FileSystem) (r : Write) (w : World) :
    (r.program fs).run World.step w = fs.serve r.credentials r.request w := by
  cases r <;> rfl

end Write

/-- Writes under way on one store. -/
abbrev Writing (ι : Type) := Running ι Answer Failure Response World

/-- What was done by the writes. -/
abbrev History (ι : Type) := List (Event ι Answer)

/-- The store, on which no call fails from outside. -/
def store : Unit → System Answer World := fun _ => World.step

section Events

variable (fs : FileSystem) (bucket key : Bytes)

/-- The place of the record of an object. -/
def recordPath : List Bytes := [(StoreFile.internalInfo bucket key).name]

/-- A call that looks for the object or its record. -/
def FileSystem.looks : Call → Bool
  | .file (.metadata p) => decide (fs.pathOf bucket key = some p ∨ p = recordPath bucket key)
  | .file (.read p) => decide (fs.pathOf bucket key = some p ∨ p = recordPath bucket key)
  | _ => false

/-- A call that finds no object. -/
def FileSystem.misses : (c : Call) → Answer c → Bool
  | .file (.metadata p), x => decide (fs.pathOf bucket key = some p) && !Except.isOk x
  | _, _ => false

/-- A call by which the object, or a directory, comes to stand at its place. -/
def FileSystem.replaces : (c : Call) → Answer c → Bool
  | .file (.rename _ p), x => decide (fs.pathOf bucket key = some p) && Except.isOk x
  | .file (.createDirAll p), x => decide (fs.pathOf bucket key = some p) && Except.isOk x
  | _, _ => false

/-- A call by which the record comes to stand at its place. -/
def records : (c : Call) → Answer c → Bool
  | .file (.rename _ p), x => decide (p = recordPath bucket key) && Except.isOk x
  | _, _ => false

variable {ι : Type} [DecidableEq ι]

/-- How often the object was put in place. -/
def FileSystem.written (history : History ι) : Nat :=
  history.countP fun e => fs.replaces bucket key e.call e.answer

/-- How often the record was put in place. -/
def recorded (history : History ι) : Nat := history.countP fun e => records bucket key e.call e.answer

/-- What a write finds when it first looks: how often the object and the record had been put in place, and
whether it finds no object. -/
structure Look where
  written : Nat
  recorded : Nat
  misses : Bool
deriving DecidableEq

/-- The first look of a write. -/
def FileSystem.firstLook (i : ι) : History ι → Option Look
  | [] => none
  | e :: history => (firstLook i history).or
      (if e.actor = i ∧ fs.looks bucket key e.call = true then
        some ⟨fs.written bucket key history, recorded bucket key history, fs.misses bucket key e.call e.answer⟩
      else none)

/-- The number of the record that a write has looked at last. -/
def FileSystem.admission (i : ι) : History ι → Option Nat
  | [] => none
  | e :: history =>
    if e.actor = i ∧ fs.looks bucket key e.call = true then some (recorded bucket key history)
    else admission i history

/-- The number of the record by which a write was admitted that has put its object in place. -/
def FileSystem.admittedBy (i : ι) : History ι → Option Nat
  | [] => none
  | e :: history =>
    if e.actor = i ∧ fs.replaces bucket key e.call e.answer = true then fs.admission bucket key i history
    else admittedBy i history

/-- The number of the object in whose place a write has put its own. -/
def FileSystem.replacedBy (i : ι) : History ι → Option Nat
  | [] => none
  | e :: history =>
    if e.actor = i ∧ fs.replaces bucket key e.call e.answer = true then some (fs.written bucket key history)
    else replacedBy i history

/-- What a program has found when it first looked, and whether it has put the object in place. -/
def FileSystem.watch (s : Option Bool × Bool) (c : Call) (x : Answer c) : Option Bool × Bool :=
  (s.1.or (if fs.looks bucket key c = true then some (fs.misses bucket key c x) else none),
    s.2 || fs.replaces bucket key c x)

/-- Of the writes that want that there is no object, at most one succeeds, and of those that want the object
with an ETag, at most one of those that were admitted by the same object succeeds. -/
structure FileSystem.Exclusive (writes : ι → Write) (x : Writing ι) : Prop where
  created : ∀ i j, (writes i).ifNoneMatch = some .any → (writes j).ifNoneMatch = some .any →
    (x.left i).isReturn = true → (x.left j).isReturn = true → i = j
  replaced : ∀ i j etag, (writes i).ifMatch = some (.etag etag) → (writes j).ifMatch = some (.etag etag) →
    (x.left i).isReturn = true → (x.left j).isReturn = true →
    fs.admittedBy bucket key i x.history = fs.admittedBy bucket key j x.history → i = j

/-- When a conditional write puts its object in place, the object and the record are those that it looked at
first, and the record is the one of the object. -/
def FileSystem.Timely (writes : ι → Write) (x : Writing ι) (a : ι × Unit) : Prop :=
  ∀ e ∈ x.event store a, fs.replaces bucket key e.call e.answer = true → (writes a.1).isConditional = true →
    ∃ look ∈ fs.firstLook bucket key a.1 x.history, look.written = fs.written bucket key x.history ∧
      look.recorded = recorded bucket key x.history ∧ look.written = look.recorded

instance decidableTimely (writes : ι → Write) (x : Writing ι) (a : ι × Unit) :
    Decidable (fs.Timely bucket key writes x a) := by
  unfold FileSystem.Timely
  infer_instance

variable {fs bucket key}

theorem trackOf_watch (i : ι) (history : History ι) :
    trackOf (fs.watch bucket key) (none, false) i history =
      ((fs.firstLook bucket key i history).map Look.misses, (fs.replacedBy bucket key i history).isSome) := by
  induction history with
  | nil => rfl
  | cons e history ih =>
    simp only [trackOf, FileSystem.firstLook, FileSystem.replacedBy, ih]
    by_cases hactor : e.actor = i
    · simp only [hactor, true_and, if_true, FileSystem.watch]
      cases fs.looks bucket key e.call <;> cases fs.replaces bucket key e.call e.answer <;>
        cases fs.firstLook bucket key i history <;> simp
    · simp [hactor]

/-- Each object is replaced by one write. -/
theorem replacedBy_lt {i : ι} {n : Nat} {history : History ι}
    (h : fs.replacedBy bucket key i history = some n) : n < fs.written bucket key history := by
  induction history with
  | nil => cases h
  | cons e history ih =>
    rw [FileSystem.written, List.countP_cons]
    rw [FileSystem.replacedBy] at h
    split at h
    · next hreplaces =>
      rw [if_pos hreplaces.2, ← Option.some.inj h]
      exact Nat.lt_succ_self _
    · exact Nat.lt_of_lt_of_le (ih h) (Nat.le_add_right _ _)

theorem replacedBy_inj {i j : ι} {n : Nat} {history : History ι}
    (hi : fs.replacedBy bucket key i history = some n) (hj : fs.replacedBy bucket key j history = some n) :
    i = j := by
  induction history with
  | nil => cases hi
  | cons e history ih =>
    rw [FileSystem.replacedBy] at hi hj
    split at hi <;> split at hj
    · next hi' hj' => exact hi'.1.symm.trans hj'.1
    · have hlt := replacedBy_lt hj
      rw [Option.some.inj hi] at hlt
      exact absurd hlt (Nat.lt_irrefl n)
    · have hlt := replacedBy_lt hi
      rw [Option.some.inj hj] at hlt
      exact absurd hlt (Nat.lt_irrefl n)
    · exact ih hi hj

/-- The last look is not before the first one. -/
theorem admission_of_firstLook {i : ι} {look : Look} {history : History ι}
    (h : fs.firstLook bucket key i history = some look) : ∃ n, fs.admission bucket key i history = some n ∧
      look.recorded ≤ n ∧ n ≤ recorded bucket key history := by
  induction history with
  | nil => cases h
  | cons e history ih =>
    have hle : recorded bucket key history ≤ recorded bucket key (e :: history) := by
      rw [recorded, recorded, List.countP_cons]
      exact Nat.le_add_right _ _
    rw [FileSystem.firstLook] at h
    rw [FileSystem.admission]
    by_cases hlooks : e.actor = i ∧ fs.looks bucket key e.call = true
    · rw [if_pos hlooks]
      refine ⟨_, rfl, ?_, hle⟩
      cases hfirst : fs.firstLook bucket key i history with
      | none =>
        rw [hfirst, Option.none_or, if_pos hlooks] at h
        rw [← Option.some.inj h]
      | some look' =>
        rw [hfirst, Option.some_or] at h
        obtain ⟨n, -, hfrom, hupto⟩ := ih (hfirst.trans h)
        exact hfrom.trans hupto
    · rw [if_neg hlooks]
      rw [if_neg hlooks, Option.or_none] at h
      obtain ⟨n, hn, hfrom, hupto⟩ := ih h
      exact ⟨n, hn, hfrom, hupto.trans hle⟩

end Events

section Sparing

variable {fs : FileSystem} {bucket key : Bytes} {p : List Bytes}

/-- A call that does not take away what stands at a path. -/
def Call.Leaves (p : List Bytes) : Call → Prop
  | .file (.createDirAll _) => True
  | .file (.rename src _) => src ≠ p
  | .file c => ∀ t, ¬c.Touches t p
  | _ => True

theorem Call.Within.leaves {c : Call} (h : c.Within fun _ q => q ≠ p) : c.Leaves p := by
  have htouches (c : FileTree.Call Bytes UInt8) (h : Call.Within (fun _ q => q ≠ p) (.file c)) :
      ∀ t, ¬c.Touches t p := fun t htouches => h t p htouches rfl
  cases c with
  | file c =>
    cases c with
    | createDirAll q => trivial
    | rename src dst => exact fun heq => h .empty src (Or.inl rfl) heq
    | _ => exact htouches _ h
  | fetchAdd => trivial
  | now => trivial

theorem present_step {c : Call} {w : World} (h : c.Leaves p) (hpresent : w.disk.get p ≠ none) :
    (World.step c w).2.disk.get p ≠ none := by
  have hframe (c : FileTree.Call Bytes UInt8) (hc : ¬c.Touches w.disk p) :
      (World.step (.file c) w).2.disk.get p ≠ none := by
    show (w.disk.answer w.around c).2.get p ≠ none
    rwa [Tree.answer_frame w.around w.disk c hc]
  cases c with
  | file c =>
    cases c with
    | createDirAll q => exact hframe _ fun htouches => hpresent htouches.2
    | rename src dst =>
      show (w.disk.commit (w.disk.rename src dst)).2.get p ≠ none
      cases hrename : w.disk.rename src dst with
      | error kind => exact hpresent
      | ok disk =>
        obtain ⟨content, m, -, -, hget⟩ := Tree.rename_eq_ok hrename
        show disk.get p ≠ none
        rw [hget]
        by_cases hp : p = dst
        · simp [hp]
        · rwa [if_neg hp, if_neg (Ne.symm h)]
    | _ => exact hframe _ (h w.disk)
  | fetchAdd => exact hpresent
  | now => exact hpresent

variable (hp : ∀ f : StoreFile, p ≠ [f.name])
include hp

/-- Files of the store are not at the place of the object. -/
theorem leaves_of_files {α : Type} {q : Op α}
    (h : q.Only (Call.Within (Area (fun _ => False) fun _ => True))) : q.Only (Call.Leaves p) := by
  apply (within_mono h _).mono
  · exact fun c => Call.Within.leaves
  · rintro t q (⟨_, hq, -⟩ | ⟨f, -, rfl⟩)
    · exact hq.elim
    · exact (hp f).symm

theorem leaves_writing {α : Type} {write : List Bytes → Op α}
    (hwrite : ∀ n, (write [(StoreFile.temporary n).name]).Only
      (Call.Within (Area (fun _ => False) fun _ => True)))
    (dest : List Bytes) : (fs.writing dest write).Only (Call.Leaves p) := by
  apply only_writing fs
  · trivial
  · exact fun n t => hp _
  · exact fun n => leaves_of_files hp (hwrite n)
  · trivial
  · exact fun n => (hp _).symm
  · exact fun n t => hp _

/-- A write does not take the object away. -/
theorem leaves_program (r : Write) : (r.program fs).Only (Call.Leaves p) := by
  cases r with
  | put input trailers =>
    refine Prog.Only.bind ?_ fun _ => trivial
    rw [putObject_eq]
    apply (leaves_of_files hp (within_of_reads (reads_putChecks fs input))).bind
    intro x
    apply only_ite
    · intro _
      apply (only_require _ _).bind
      intro _
      apply Prog.Only.bind
      · exact (only_io _).mpr trivial
      · exact fun _ => trivial
    · intro _
      apply (leaves_writing hp (within_receivePut fs input trailers x.1 x.2.2) _).bind
      intro y
      apply (leaves_of_files hp (within_saveFile fs trivial _)).bind
      intro _
      apply (leaves_of_files hp (within_saveFile fs trivial _)).bind
      exact fun _ => trivial
  | complete input cred =>
    refine Prog.Only.bind ?_ fun _ => trivial
    rw [completeMultipartUpload_eq]
    apply (leaves_of_files hp (within_of_reads (reads_completionChecks fs input cred))).bind
    intro x
    apply (leaves_writing hp (within_assemble fs input x.2.1 x.1 x.2.2.2.2) _).bind
    intro y
    apply (leaves_of_files hp (within_saveUploadAttributes fs trivial _)).bind
    intro _
    apply (leaves_of_files hp (within_saveFile fs trivial _)).bind
    intro _
    apply (leaves_of_files hp (within_cleanup fs (fun _ _ => trivial)
      fun _ _ => ⟨trivial, trivial⟩)).bind
    exact fun _ => trivial

end Sparing

section Watching

variable {fs : FileSystem} {bucket key : Bytes} {α : Type} {s : Option Bool × Bool}

theorem tracks_io {c : FileTree.Call Bytes UInt8} {Q : c.Payload → Option Bool × Bool → Prop}
    (h : ∀ x, Q x (fs.watch bucket key s (.file c) (.ok x))) :
    (io c).Tracks (fs.watch bucket key) s Q fun _ _ => True := by
  intro x
  cases x with
  | ok x => exact h x
  | error kind => trivial

theorem tracks_answered {p : Op α} {f : α → Response} {Q : Option Bool × Bool → Prop}
    (h : p.Tracks (fs.watch bucket key) s (fun _ => Q) fun _ _ => True) :
    (p >>= fun a => pure (f a)).Tracks (fs.watch bucket key) s (fun _ => Q) fun _ _ => True :=
  h.bind (fun _ _ h => h) fun _ _ h => h

/-- What was put in place stays put. -/
theorem tracks_replaced (p : Op α) (hs : s.2 = true) :
    p.Tracks (fs.watch bucket key) s (fun _ s' => s'.2 = true) fun _ _ => True := by
  have honly : p.Only fun _ => True := Prog.only_true p
  apply (honly.tracks (I := fun s : Option Bool × Bool => s.2 = true) _ hs).mono
  · exact fun _ _ h => h
  · exact fun _ _ _ => trivial
  · intro c x s' _ hs'
    simp [FileSystem.watch, hs']

/-- The first look is the first one whatever follows. -/
theorem tracks_looked (p : Op α) {b : Bool} (hs : s.1 = some b) :
    p.Tracks (fs.watch bucket key) s (fun _ s' => s'.1 = some b) fun _ _ => True := by
  have honly : p.Only fun _ => True := Prog.only_true p
  apply (honly.tracks (I := fun s : Option Bool × Bool => s.1 = some b) _ hs).mono
  · exact fun _ _ h => h
  · exact fun _ _ _ => trivial
  · intro c x s' _ hs'
    simp [FileSystem.watch, hs']

theorem tracks_elsewhere {p : Op α} (hp : p.Only fun c => fs.looks bucket key c = false) (hs : s.1 = none) :
    p.Tracks (fs.watch bucket key) s (fun _ s' => s'.1 = none) fun _ _ => True := by
  apply (hp.tracks (I := fun s : Option Bool × Bool => s.1 = none) _ hs).mono
  · exact fun _ _ h => h
  · exact fun _ _ _ => trivial
  · intro c x s' hc hs'
    simp [FileSystem.watch, hs', hc]

/-- A writer that is done has put its object in place. -/
theorem tracks_writing {write : List Bytes → Op α} {dest : List Bytes}
    (hdest : fs.pathOf bucket key = some dest) :
    (fs.writing dest write).Tracks (fs.watch bucket key) s (fun _ s' => s'.2 = true) fun _ _ => True := by
  apply (Prog.tracks_true fs.prepareFileWrite s).bind
  · intro tmpPath s' _
    refine Prog.Tracks.onFailure (?_ : Prog.Tracks _ _ _ _ fun _ _ => True) ?_
    · apply (Prog.tracks_true (write tmpPath) s').bind
      · intro a s'' _
        apply Prog.Tracks.bind (Q := fun _ s => s.2 = true) (E := fun _ _ => True)
        · apply (Prog.tracks_true (io (.createDirAll dest.dropLast)) s'').bind
          · intro _ s₃ _
            apply tracks_io
            intro x
            simp [FileSystem.watch, FileSystem.replaces, hdest, Except.isOk, Except.toBool]
          · exact fun _ _ _ => trivial
        · exact fun _ _ h => h
        · exact fun _ _ _ => trivial
      · exact fun _ _ _ => trivial
    · intro e s'' _
      exact Prog.tracks_true _ _
  · exact fun _ _ _ => trivial

/-- `If-None-Match: *` looks for the object first, and goes on when there is none. -/
theorem tracks_checkConditions {path : List Bytes} (hpath : fs.pathOf bucket key = some path)
    (ifMatch : Option ETagCondition) (hs : s.1 = none) :
    (fs.checkConditions bucket key path (some .any) ifMatch).Tracks (fs.watch bucket key) s
      (fun _ s' => s'.1 = some true) fun _ _ => True := by
  apply Prog.Tracks.bind (Q := fun _ s => s.1 = some true) (E := fun _ _ => True)
  · intro x
    cases x with
    | ok stat => trivial
    | error kind =>
      show (fs.watch bucket key s (.file (.metadata path)) (.error kind)).1 = some true
      simp [FileSystem.watch, FileSystem.looks, FileSystem.misses, hpath, hs, Except.isOk, Except.toBool]
  · exact fun _ s' hs' => tracks_looked _ hs'
  · exact fun _ _ _ => trivial

/-- A write that has returned has put its object in place. -/
theorem tracks_replacing (r : Write) (htarget : r.target = (bucket, key)) :
    (r.program fs).Tracks (fs.watch bucket key) s (fun _ s' => s'.2 = true) fun _ _ => True := by
  cases r with
  | put input trailers =>
    obtain ⟨rfl, rfl⟩ := Prod.mk.inj htarget
    apply tracks_answered
    rw [putObject_eq]
    apply ((Prog.tracks_true (fs.putChecks input) s).and_gives (gives_putChecks_path input)).bind
    · rintro x s' ⟨hpath, -⟩
      split
      · apply (Prog.tracks_true (require _ _) s').bind
        · intro _ s'' _
          apply Prog.Tracks.bind (Q := fun _ s => s.2 = true) (E := fun _ _ => True)
          · apply tracks_io
            intro x
            simp [FileSystem.watch, FileSystem.replaces, hpath, Except.isOk, Except.toBool]
          · exact fun _ _ h => h
          · exact fun _ _ _ => trivial
        · exact fun _ _ _ => trivial
      · exact (tracks_writing hpath).bind (fun _ _ h => tracks_replaced _ h) fun _ _ _ => trivial
    · exact fun _ _ _ => trivial
  | complete input cred =>
    obtain ⟨rfl, rfl⟩ := Prod.mk.inj htarget
    apply tracks_answered
    rw [completeMultipartUpload_eq]
    apply ((Prog.tracks_true (fs.completionChecks input cred) s).and_gives
      (gives_completionChecks input cred)).bind
    · rintro x s' ⟨⟨-, -, hpath⟩, -⟩
      exact (tracks_writing hpath).bind (fun _ _ h => tracks_replaced _ h) fun _ _ _ => trivial
    · exact fun _ _ _ => trivial

theorem not_looks_file (hplace : ∀ f : StoreFile, fs.pathOf bucket key ≠ some [f.name]) {f : StoreFile}
    (hf : f ≠ .internalInfo bucket key) : fs.looks bucket key (.file (.metadata [f.name])) = false ∧
      fs.looks bucket key (.file (.read [f.name])) = false := by
  have hrecord : [f.name] ≠ recordPath bucket key := by
    intro heq
    exact hf (StoreFile.name_injective (List.cons.inj heq).1)
  simp [FileSystem.looks, hplace f, hrecord]

/-- A write with `If-None-Match: *` that has returned found no object when it first looked. -/
theorem tracks_missing (hplace : ∀ f : StoreFile, fs.pathOf bucket key ≠ some [f.name]) (r : Write)
    (htarget : r.target = (bucket, key)) (hcondition : r.ifNoneMatch = some .any) (hs : s.1 = none) :
    (r.program fs).Tracks (fs.watch bucket key) s (fun _ s' => s'.1 = some true) fun _ _ => True := by
  have hchecks {path : List Bytes} (hpath : fs.pathOf bucket key = some path) (ifMatch : Option ETagCondition)
      {β : Type} (f : Unit → Op β) {s : Option Bool × Bool} (hs : s.1 = none) :
      (fs.checkConditions bucket key path (some .any) ifMatch >>= f).Tracks (fs.watch bucket key) s
        (fun _ s' => s'.1 = some true) fun _ _ => True :=
    (tracks_checkConditions hpath ifMatch hs).bind (fun _ _ h => tracks_looked _ h) fun _ _ _ => trivial
  cases r with
  | put input trailers =>
    obtain ⟨rfl, rfl⟩ := Prod.mk.inj htarget
    apply tracks_answered
    rw [FileSystem.putObject, show input.ifNoneMatch = some .any from hcondition]
    apply (tracks_elsewhere (only_require _ _) hs).bind _ fun _ _ _ => trivial
    intro _ s₁ h₁
    apply (tracks_elsewhere (only_demand _ _) h₁).bind _ fun _ _ _ => trivial
    intro stream s₂ h₂
    rw [getObjectPath_eq]
    cases hpath : fs.pathOf input.bucket input.key with
    | none => trivial
    | some path => exact hchecks hpath _ _ h₂
  | complete input cred =>
    obtain ⟨rfl, rfl⟩ := Prod.mk.inj htarget
    apply tracks_answered
    have hopen : (fs.openUpload cred input.uploadId).Only fun c => fs.looks input.bucket input.key c = false :=
      only_openUpload fs (fun u => (not_looks_file hplace (f := .uploadInfo u) (by simp)).1)
        (fun u => (not_looks_file hplace (f := .uploadInfo u) (by simp)).2) cred input.uploadId
    have hload (u : Uuid) : (fs.loadObjectAttributes input.bucket input.key (some u)).Only
        fun c => fs.looks input.bucket input.key c = false :=
      only_loadObjectAttributes fs
        (not_looks_file hplace (f := .metadata input.bucket input.key (some u)) (by simp)).1
        (not_looks_file hplace (f := .metadata input.bucket input.key (some u)) (by simp)).2
    rw [FileSystem.completeMultipartUpload, show input.ifNoneMatch = some .any from hcondition]
    apply (tracks_elsewhere (only_demand _ _) hs).bind _ fun _ _ _ => trivial
    intro multipartUpload s₁ h₁
    apply (tracks_elsewhere (only_require _ _) h₁).bind _ fun _ _ _ => trivial
    intro _ s₂ h₂
    apply (tracks_elsewhere hopen h₂).bind _ fun _ _ _ => trivial
    intro u s₃ h₃
    apply (tracks_elsewhere (only_require _ _) h₃).bind _ fun _ _ _ => trivial
    intro _ s₄ h₄
    apply (tracks_elsewhere (hload u) h₄).bind _ fun _ _ _ => trivial
    intro attrs s₅ h₅
    apply (tracks_elsewhere (only_require _ _) h₅).bind _ fun _ _ _ => trivial
    intro _ s₆ h₆
    rw [getObjectPath_eq]
    cases hpath : fs.pathOf input.bucket input.key with
    | none => trivial
    | some path => exact hchecks hpath _ _ h₆

end Watching

section Runs

variable {fs : FileSystem} {bucket key : Bytes} {ι : Type} [DecidableEq ι] {writes : ι → Write} {w : World}
  {x : Writing ι} {C : Writing ι → ι × Unit → Prop}

theorem absent_of_misses {c : Call} {w : World} (h : fs.misses bucket key c (World.step c w).1 = true) :
    ∃ p, fs.pathOf bucket key = some p ∧ w.disk.get p = none := by
  cases c with
  | file c =>
    cases c with
    | metadata p =>
      obtain ⟨hpath, hfind⟩ := (Bool.and_eq_true _ _).mp h
      refine ⟨p, of_decide_eq_true hpath, ?_⟩
      cases hget : w.disk.get p with
      | none => rfl
      | some e =>
        have hok : (World.step (.file (.metadata p)) w).1 = .ok (Entry.stat w.around e) := by
          simp [World.perform, Tree.answer, Tree.find, hget, Except.map]
        rw [hok] at hfind
        cases hfind
    | _ => cases h
  | fetchAdd => cases h
  | now => cases h

theorem present_of_replaces {c : Call} {w : World} (h : fs.replaces bucket key c (World.step c w).1 = true)
    {p : List Bytes} (hp : fs.pathOf bucket key = some p) : (World.step c w).2.disk.get p ≠ none := by
  cases c with
  | file c =>
    cases c with
    | rename src dst =>
      obtain ⟨hpath, hok⟩ := (Bool.and_eq_true _ _).mp h
      obtain rfl := Option.some.inj (hp.symm.trans (of_decide_eq_true hpath))
      cases hrename : w.disk.rename src p with
      | error kind => simp [World.perform, Tree.answer, Tree.commit, hrename, Except.isOk, Except.toBool] at hok
      | ok disk =>
        obtain ⟨content, m, -, -, hget⟩ := Tree.rename_eq_ok hrename
        show (w.disk.commit (w.disk.rename src p)).2.get p ≠ none
        rw [hrename, Tree.commit, hget, if_pos rfl]
        exact Option.some_ne_none _
    | createDirAll q =>
      obtain ⟨hpath, hok⟩ := (Bool.and_eq_true _ _).mp h
      obtain rfl := Option.some.inj (hp.symm.trans (of_decide_eq_true hpath))
      cases hcreate : w.disk.createDirAll p with
      | error kind => simp [World.perform, Tree.answer, Tree.commit, hcreate, Except.isOk, Except.toBool] at hok
      | ok disk =>
        show (w.disk.commit (w.disk.createDirAll p)).2.get p ≠ none
        rw [hcreate, Tree.commit, (Tree.createDirAll_eq_ok hcreate).2, if_pos List.prefix_rfl]
        exact Option.some_ne_none _
    | _ => cases h
  | fetchAdd => cases h
  | now => cases h

/-- What was put in place is there. -/
theorem present_of_written (hplace : ∀ f : StoreFile, fs.pathOf bucket key ≠ some [f.name]) {p : List Bytes}
    (hp : fs.pathOf bucket key = some p)
    (h : Reaches (Running.next store) C (.start (fun i => (writes i).program fs) w) x)
    (hwritten : 0 < fs.written bucket key x.history) : x.state.disk.get p ≠ none := by
  induction h with
  | start => exact absurd hwritten (Nat.lt_irrefl 0)
  | @next x a h _ ih =>
    rcases @next_cases _ _ _ _ _ _ _ _ store x a with ⟨hsame, -⟩ | ⟨c, next, hleft, -, hnext⟩
    · rw [hsame] at hwritten ⊢
      exact ih hwritten
    · rw [hnext] at hwritten ⊢
      by_cases hreplaces : fs.replaces bucket key c (store a.2 c x.state).1 = true
      · exact present_of_replaces hreplaces hp
      · have honly := only_of_reaches h (leaves_program (p := p)
          (fun f heq => hplace f (hp.trans (congrArg some heq))) (writes a.1))
        rw [hleft] at honly
        simp only [FileSystem.written, List.countP_cons, if_neg hreplaces] at hwritten
        exact present_step honly.1 (ih hwritten)

/-- A write that finds no object looks before any object is put in place. -/
theorem written_of_misses (hplace : ∀ f : StoreFile, fs.pathOf bucket key ≠ some [f.name])
    (h : Reaches (Running.next store) C (.start (fun i => (writes i).program fs) w) x) {i : ι} {look : Look}
    (hlook : fs.firstLook bucket key i x.history = some look) (hmisses : look.misses = true) :
    look.written = 0 := by
  induction h with
  | start => cases hlook
  | @next x a h _ ih =>
    rcases @next_cases _ _ _ _ _ _ _ _ store x a with ⟨hsame, -⟩ | ⟨c, next, hleft, -, hnext⟩
    · rw [hsame] at hlook
      exact ih hlook
    · rw [hnext, FileSystem.firstLook] at hlook
      cases hfirst : fs.firstLook bucket key i x.history with
      | some look' =>
        rw [hfirst, Option.some_or] at hlook
        exact ih (hfirst.trans hlook)
      | none =>
        rw [hfirst, Option.none_or] at hlook
        split at hlook
        · obtain rfl := Option.some.inj hlook
          obtain ⟨p, hp, habsent⟩ := absent_of_misses hmisses
          by_contra hwritten
          exact present_of_written hplace hp h (Nat.pos_of_ne_zero hwritten) habsent
        · cases hlook

/-- A conditional write that is timely replaces the object that it was admitted by, which it found when it
first looked. -/
theorem replaced_admitted
    (h : Reaches (Running.next store) (fs.Timely bucket key writes)
      (.start (fun i => (writes i).program fs) w) x) {i : ι} (hi : (writes i).isConditional = true) {n : Nat}
    (hreplaced : fs.replacedBy bucket key i x.history = some n) :
    (∃ look, fs.firstLook bucket key i x.history = some look ∧ look.written = n) ∧
      fs.admittedBy bucket key i x.history = some n := by
  induction h with
  | start => cases hreplaced
  | @next x a h htimely ih =>
    rcases @next_cases _ _ _ _ _ _ _ _ store x a with ⟨hsame, -⟩ | ⟨c, next, hleft, hevent, hnext⟩
    · rw [hsame] at hreplaced ⊢
      exact ih hreplaced
    · rw [hnext] at hreplaced ⊢
      simp only [FileSystem.replacedBy, FileSystem.firstLook, FileSystem.admittedBy] at hreplaced ⊢
      by_cases hnow : a.1 = i ∧ fs.replaces bucket key c (store a.2 c x.state).1 = true
      · obtain ⟨rfl, hreplaces⟩ := hnow
        obtain ⟨look, hlook, hwritten, hrecorded, heq⟩ := htimely _ hevent hreplaces hi
        rw [if_pos ⟨rfl, hreplaces⟩, ← hwritten] at hreplaced
        obtain ⟨m, hadmission, hfrom, hupto⟩ := admission_of_firstLook hlook
        have hm : m = look.recorded := Nat.le_antisymm (hrecorded ▸ hupto) hfrom
        constructor
        · exact ⟨look, by rw [hlook, Option.some_or], Option.some.inj hreplaced⟩
        · rw [if_pos ⟨rfl, hreplaces⟩, hadmission, hm, ← heq]
          exact hreplaced
      · rw [if_neg hnow] at hreplaced ⊢
        obtain ⟨⟨look, hlook, hwritten⟩, hadmitted⟩ := ih hreplaced
        exact ⟨⟨look, by rw [hlook, Option.some_or], hwritten⟩, hadmitted⟩

/-- The object that a write which has returned has replaced. -/
theorem replacedBy_of_return {i : ι} (htarget : (writes i).target = (bucket, key))
    (h : Reaches (Running.next store) C (.start (fun i => (writes i).program fs) w) x)
    (hreturn : (x.left i).isReturn = true) : ∃ n, fs.replacedBy bucket key i x.history = some n := by
  have htracked := tracked_of_return h (tracks_replacing (s := (none, false)) (writes i) htarget) hreturn
  rw [trackOf_watch] at htracked
  exact Option.isSome_iff_exists.mp htracked

/-- Conditional writes that are timely exclude each other. -/
theorem conditional_writes_exclusive (hplace : ∀ f : StoreFile, fs.pathOf bucket key ≠ some [f.name])
    (htarget : ∀ i, (writes i).target = (bucket, key))
    (h : Reaches (Running.next store) (fs.Timely bucket key writes)
      (.start (fun i => (writes i).program fs) w) x) : fs.Exclusive bucket key writes x := by
  constructor
  · intro i j hi hj hreturni hreturnj
    have hzero {i : ι} (hi : (writes i).ifNoneMatch = some .any) (hreturn : (x.left i).isReturn = true) :
        fs.replacedBy bucket key i x.history = some 0 := by
      have htracked := tracked_of_return h
        (tracks_missing (s := (none, false)) hplace (writes i) (htarget i) hi rfl) hreturn
      rw [trackOf_watch] at htracked
      obtain ⟨look, hlook, hmisses⟩ := Option.map_eq_some_iff.mp htracked
      obtain ⟨n, hn⟩ := replacedBy_of_return (htarget i) h hreturn
      obtain ⟨⟨look', hlook', hwritten⟩, -⟩ := replaced_admitted h (by simp [Write.isConditional, hi]) hn
      obtain rfl := Option.some.inj (hlook.symm.trans hlook')
      rw [hn, ← hwritten, written_of_misses hplace h hlook hmisses]
    exact replacedBy_inj (hzero hi hreturni) (hzero hj hreturnj)
  · intro i j etag hi hj hreturni hreturnj hsame
    have hadmitted {i : ι} (hi : (writes i).ifMatch = some (.etag etag)) (hreturn : (x.left i).isReturn = true) :
        ∃ n, fs.replacedBy bucket key i x.history = some n ∧ fs.admittedBy bucket key i x.history = some n := by
      obtain ⟨n, hn⟩ := replacedBy_of_return (htarget i) h hreturn
      exact ⟨n, hn, (replaced_admitted h (by simp [Write.isConditional, hi]) hn).2⟩
    obtain ⟨m, hm, hadmittedi⟩ := hadmitted hi hreturni
    obtain ⟨n, hn, hadmittedj⟩ := hadmitted hj hreturnj
    rw [hadmittedi, hadmittedj, Option.some_inj] at hsame
    exact replacedBy_inj hm (hsame ▸ hn)

end Runs

section Samples

/-- Two writes of one object that are under the same conditions. -/
def twoWrites (ifMatch ifNoneMatch : Option ETagCondition) (first : Bool) : Write :=
  .put ⟨ascii "pics", ascii "a", some [.ok [if first then 1 else 2]], none, none, none, .default, ifMatch, ifNoneMatch,
    fun _ => none, none⟩ none

/-- The calls of two writes on a store, in an order. -/
noncomputable def sideBySide (writes : Bool → Write) (w : World) (run : List (Bool × Unit)) : Writing Bool :=
  run.foldl (Running.next store) (.start (fun i => (writes i).program uploadStore) w)

/-- The calls of one write, and those of the other one behind them. -/
def oneBehindOther : List (Bool × Unit) := List.replicate 16 (true, ()) ++ List.replicate 16 (false, ())

/-- The calls of two writes by turns. -/
def byTurns : List (Bool × Unit) := (List.replicate 18 [(true, ()), (false, ())]).flatten

theorem pathOf_pics_ne (f : StoreFile) : uploadStore.pathOf (ascii "pics") (ascii "a") ≠ some [f.name] := by
  have hpath : uploadStore.pathOf (ascii "pics") (ascii "a") = some [ascii "pics", ascii "a"] := by decide
  rw [hpath]
  simp

set_option maxRecDepth 100000 in
theorem conditional_writes_exclusive_sample :
    ((sideBySide (twoWrites none (some .any)) World.empty oneBehindOther).left true).isReturn = true ∧
      uploadStore.Exclusive (ascii "pics") (ascii "a") (twoWrites none (some .any))
        (sideBySide (twoWrites none (some .any)) World.empty oneBehindOther) := by
  constructor
  · decide +kernel
  · apply conditional_writes_exclusive pathOf_pics_ne
    · exact fun _ => rfl
    · exact reaches_of_allowed (by decide +kernel)

set_option maxRecDepth 100000 in
/-- Two writes that want that there is no object both succeed where there is none, and two that want the object
with its ETag both replace the object that has it. -/
theorem conditional_writes_race :
    (World.empty.disk.get [ascii "pics", ascii "a"] = none ∧
      Reaches (Running.next store) (fun _ _ => True)
        (.start (fun i => (twoWrites none (some .any) i).program uploadStore) World.empty)
        (sideBySide (twoWrites none (some .any)) World.empty byTurns) ∧
      ¬uploadStore.Exclusive (ascii "pics") (ascii "a") (twoWrites none (some .any))
        (sideBySide (twoWrites none (some .any)) World.empty byTurns)) ∧
    Reaches (Running.next store) (fun _ _ => True)
      (.start (fun i => (twoWrites (some (.etag (.strong []))) none i).program uploadStore)
        (behind [asksWhole (ascii "a")]))
      (sideBySide (twoWrites (some (.etag (.strong []))) none) (behind [asksWhole (ascii "a")]) byTurns) ∧
    ¬uploadStore.Exclusive (ascii "pics") (ascii "a") (twoWrites (some (.etag (.strong []))) none)
      (sideBySide (twoWrites (some (.etag (.strong []))) none) (behind [asksWhole (ascii "a")]) byTurns) := by
  refine ⟨⟨by decide +kernel, reaches_foldl _ _ _, fun h => ?_⟩, reaches_foldl _ _ _, fun h => ?_⟩
  · have hsame := h.created true false rfl rfl (by decide +kernel) (by decide +kernel)
    cases hsame
  · have hsame := h.replaced true false (.strong []) rfl rfl (by decide +kernel) (by decide +kernel)
      (by decide +kernel)
    cases hsame

end Samples

end S3s.Fs
