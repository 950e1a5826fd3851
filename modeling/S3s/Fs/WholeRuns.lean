import S3s.Fs.WholeFiles

/-! # No file is torn, and no temporary file is left

Requests side by side, each of which makes its calls one after another, in whichever order. No file is ever
seen half written, whichever calls fail. Where none fails from outside, no temporary file is left behind.
-/
namespace S3s.Fs
open LexicalPath Programs FileTree Routing

section Programs

variable (fs : FileSystem)

/-- An operation and its answer. -/
def answering {α : Type} (p : Op α) (f : α → Response) : Op Response := p >>= fun a => pure (f a)

/-- The calls of a request. The listings read the files as they are. -/
def FileSystem.program (cred : Option Bytes) : Request → Option (Op Response)
  | .createBucket bucket => some (answering (fs.createBucket bucket) fun _ => .done)
  | .deleteBucket bucket => some (answering (fs.deleteBucket bucket) fun _ => .done)
  | .headBucket bucket => some (answering (fs.headBucket bucket) fun _ => .done)
  | .getBucketLocation bucket => some (answering (fs.headBucket bucket) fun _ => .done)
  | .listBuckets => some (answering Fs.listBuckets .buckets)
  | .listObjects _ => none
  | .listObjectsV2 _ => none
  | .getObject bucket key range => some (answering (fs.getObject bucket key range) .object)
  | .headObject bucket key => some (answering (fs.headObject bucket key) .head)
  | .putObject input trailers => some (answering (fs.putObject input trailers) .put)
  | .copyObject input => some (answering (fs.copyObject input) .copied)
  | .deleteObject bucket key => some (answering (fs.deleteObject bucket key) fun _ => .done)
  | .deleteObjects bucket objects => some (answering (fs.deleteObjects bucket objects) .deleted)
  | .createMultipartUpload input drawn => some (answering (fs.createMultipartUpload input cred drawn) .created)
  | .uploadPart input trailers => some (answering (fs.uploadPart input cred trailers) .part)
  | .uploadPartCopy input => some (answering (fs.uploadPartCopy input cred) .part)
  | .listParts _ _ uploadId => some (answering (fs.listParts uploadId) .parts)
  | .completeMultipartUpload input => some (answering (fs.completeMultipartUpload input cred) .completed)
  | .abortMultipartUpload bucket key uploadId =>
    some (answering (fs.abortMultipartUpload bucket key uploadId cred) fun _ => .done)

/-- A request alone runs its program. -/
theorem serve_of_program {cred : Option Bytes} {r : Request} {p : Op Response} (h : fs.program cred r = some p)
    (w : World) : fs.serve cred r w = p.run World.step w := by
  cases r <;> cases h <;> rfl

/-- What is told by an answer: the body of an object is an interval of something whole. -/
def FileSystem.Told (Whole : List Bytes → Bytes → Prop) : Request → Response → Prop
  | .getObject bucket key range, .object output => fs.Sends Whole bucket key range output
  | _, _ => True

variable {fs} {ι : Type} {asked : ι → Asked} {disk : Tree Bytes UInt8} {calm : Prop} {i : ι} {cred : Option Bytes}

theorem tidy_answering {α : Type} {Whole : List Bytes → Bytes → Prop} {p : Op α} {f : α → Response} {Q : α → Prop}
    {Q' : Response → Prop} (hp : Tidy Whole calm p Q) (h : ∀ a, Q a → Q' (f a)) :
    Tidy Whole calm (answering p f) Q' :=
  Tidy.bind hp fun a ha => tidy_pure (h a ha)

/-- Every request is tidy. -/
theorem tidy_program {r : Request} (hasked : asked i = (cred, r)) (hr : fs.OrdinaryRequest r) {p : Op Response}
    (hp : fs.program cred r = some p) :
    Tidy (fs.Whole asked disk) calm p (fs.Told (fs.Whole asked disk) r) := by
  cases r with
  | createBucket bucket =>
    cases hp
    exact tidy_answering (tidy_of_spares (spares_createBucket fs hr)) fun _ _ => trivial
  | deleteBucket bucket =>
    cases hp
    exact tidy_answering (tidy_of_spares (spares_deleteBucket fs hr)) fun _ _ => trivial
  | headBucket bucket =>
    cases hp
    exact tidy_answering (tidy_of_reads (reads_headBucket fs bucket)) fun _ _ => trivial
  | getBucketLocation bucket =>
    cases hp
    exact tidy_answering (tidy_of_reads (reads_headBucket fs bucket)) fun _ _ => trivial
  | listBuckets =>
    cases hp
    exact tidy_answering (tidy_of_reads reads_listBuckets) fun _ _ => trivial
  | listObjects input => cases hp
  | listObjectsV2 input => cases hp
  | getObject bucket key range =>
    cases hp
    exact tidy_answering (tidy_getObject fs bucket key range) fun _ h => h
  | headObject bucket key =>
    cases hp
    exact tidy_answering (tidy_of_reads (reads_headObject fs bucket key)) fun _ _ => trivial
  | putObject input trailers =>
    cases hp
    exact tidy_answering (tidy_putObject fs hasked hr) fun _ _ => trivial
  | copyObject input =>
    cases hp
    exact tidy_answering (tidy_copyObject fs hasked hr) fun _ _ => trivial
  | deleteObject bucket key =>
    cases hp
    exact tidy_answering (tidy_of_spares (spares_deleteObject fs hr)) fun _ _ => trivial
  | deleteObjects bucket objects =>
    cases hp
    exact tidy_answering (tidy_of_spares (spares_deleteObjects fs hr)) fun _ _ => trivial
  | createMultipartUpload input drawn =>
    cases hp
    exact tidy_answering (tidy_createMultipartUpload fs hasked) fun _ _ => trivial
  | uploadPart input trailers =>
    cases hp
    exact tidy_answering (tidy_uploadPart fs hasked) fun _ _ => trivial
  | uploadPartCopy input =>
    cases hp
    exact tidy_answering (tidy_uploadPartCopy fs hasked) fun _ _ => trivial
  | listParts bucket key uploadId =>
    cases hp
    exact tidy_answering (tidy_of_reads (reads_listParts fs uploadId)) fun _ _ => trivial
  | completeMultipartUpload input =>
    cases hp
    exact tidy_answering (tidy_completeMultipartUpload fs hasked hr) fun _ _ => trivial
  | abortMultipartUpload bucket key uploadId =>
    cases hp
    exact tidy_answering (tidy_of_spares (spares_abortMultipartUpload fs bucket key uploadId cred))
      fun _ _ => trivial

end Programs

section Runs

variable {fs : FileSystem} {ι : Type} [DecidableEq ι] {asked : ι → Asked} {programs : ι → Op Response} {w : World}
  {x : Running ι Answer Failure Response World}

/-- The store, each call of which may fail from outside. -/
def frailStore (fails : Option ErrorKind) : System Answer World := World.perform fails

/-- Before any call is made there are no drafts. -/
theorem kept_start (fs : FileSystem) (asked : ι → Asked) (w : World) :
    Kept (fs.Whole asked w.disk) w.disk w fun _ : ι => .none := by
  constructor
  · exact fun _ _ _ _ hfile => .kept hfile
  · intro i n content h
    cases h
  · intro i n h
    cases h
  · intro i j n h
    cases h
  · exact fun _ hn => Or.inl hn

/-- In every run, the requests have drafts by which the files are kept, and go on to be tidy. -/
theorem drafts_of_reaches {τ : Type} (calm : Prop) (fails : τ → Option ErrorKind) (hcalm : calm → ∀ t, fails t = none)
    (hprograms : ∀ i, fs.program (asked i).1 (asked i).2 = some (programs i))
    (hordinary : ∀ i, fs.OrdinaryRequest (asked i).2)
    {C : Running ι Answer Failure Response World → ι × τ → Prop}
    (h : Reaches (Running.next fun t => World.perform (fails t)) C (.start programs w) x) :
    ∃ drafts, Kept (fs.Whole asked w.disk) w.disk x.state drafts ∧
      ∀ i, (x.left i).Follows (draftProtocol (fs.Whole asked w.disk) calm) (drafts i)
        (fun a s => s = .none ∧ fs.Told (fs.Whole asked w.disk) (asked i).2 a) fun _ s => calm → s = .none :=
  follows_of_reaches (keptBy_draftProtocol hcalm) h (kept_start fs asked w)
    fun i => tidy_program (show asked i = ((asked i).1, (asked i).2) from rfl) (hordinary i) (hprograms i)

/-- No file is torn: what is found at a place, be it by a read or in the end, one request has written as a
whole. -/
theorem files_never_torn (hprograms : ∀ i, fs.program (asked i).1 (asked i).2 = some (programs i))
    (hordinary : ∀ i, fs.OrdinaryRequest (asked i).2)
    {C : Running ι Answer Failure Response World → ι × Option ErrorKind → Prop}
    (h : Reaches (Running.next frailStore) C (.start programs w) x) :
    (∀ p content m, Lasting p → x.state.disk.get p = some (.file content m) →
      fs.Whole asked w.disk p content) ∧
    ∀ i bucket key range output, (asked i).2 = .getObject bucket key range →
      x.left i = .ret (.object output) → fs.Sends (fs.Whole asked w.disk) bucket key range output := by
  obtain ⟨drafts, hkept, hfollows⟩ := drafts_of_reaches False id (fun h => h.elim)
    hprograms hordinary h
  constructor
  · exact fun p content m hp hfile => hkept.whole p hp content m hfile
  · intro i bucket key range output hasked hleft
    have hover := hfollows i
    rw [hleft, hasked] at hover
    exact hover.2

/-- Where no call fails from outside, a request has at most one temporary file, and none once it is over. -/
theorem temporary_files_owned (hprograms : ∀ i, fs.program (asked i).1 (asked i).2 = some (programs i))
    (hordinary : ∀ i, fs.OrdinaryRequest (asked i).2)
    {C : Running ι Answer Failure Response World → ι × Unit → Prop}
    (h : Reaches (Running.next store) C (.start programs w) x) :
    ∃ holds : ι → Option Nat, ∀ n, x.state.disk.get (draftPath n) ≠ none →
      w.disk.get (draftPath n) ≠ none ∨ ∃ i, holds i = some n ∧ (x.left i).isOver = false := by
  obtain ⟨drafts, hkept, hfollows⟩ := drafts_of_reaches True (fun _ : Unit => none) (fun _ _ => rfl)
    hprograms hordinary h
  refine ⟨fun i => (drafts i).number, fun n hn => (hkept.accounted n hn).imp_right ?_⟩
  rintro ⟨i, content, hi⟩
  refine ⟨i, Draft.number_opened hi, ?_⟩
  have hover := hfollows i
  rw [hi] at hover
  cases hleft : x.left i with
  | ret a =>
    rw [hleft] at hover
    cases hover.1
  | fail e =>
    rw [hleft] at hover
    cases hover trivial
  | call c next => rfl

end Runs

section Samples

/-- An object is read while another one is put in its place. -/
def readAside : Bool → Asked
  | true => (none, .putObject ⟨ascii "pics", ascii "a", some [.ok [2], .ok [3]], none, none, none, .default, none, none,
      fun _ => none, none⟩ none)
  | false => (none, .getObject (ascii "pics") (ascii "a") none)

noncomputable def readAsidePrograms (i : Bool) : Op Response :=
  (uploadStore.program (readAside i).1 (readAside i).2).getD (.fail .panic)

theorem readAside_program (i : Bool) :
    uploadStore.program (readAside i).1 (readAside i).2 = some (readAsidePrograms i) := by
  cases i <;> rfl

theorem readAside_ordinary (i : Bool) : uploadStore.OrdinaryRequest (readAside i).2 := by
  cases i with
  | true => exact ordinary_pics
  | false => trivial

/-- The object is opened, then replaced, and read in the end. Its attributes cannot be saved. -/
def readBehind : List (Bool × Option ErrorKind) :=
  [(false, none)] ++ List.replicate 6 (true, none) ++ [(true, some .other)] ++ List.replicate 10 (true, none) ++
    List.replicate 10 (false, none)

noncomputable def readBehindState : Running Bool Answer Failure Response World :=
  readBehind.foldl (Running.next frailStore) (.start readAsidePrograms (behind [asksWhole (ascii "a")]))

set_option maxRecDepth 100000 in
theorem files_never_torn_sample :
    ((readBehindState.left false).isReturn = true ∧ (readBehindState.left true).isOver = true ∧
      readBehindState.state.disk.get [ascii "pics", ascii "a"] ≠ none) ∧
    (∀ p content m, Lasting p → readBehindState.state.disk.get p = some (.file content m) →
      uploadStore.Whole readAside (behind [asksWhole (ascii "a")]).disk p content) ∧
    ∀ i bucket key range output, (readAside i).2 = .getObject bucket key range →
      readBehindState.left i = .ret (.object output) →
      uploadStore.Sends (uploadStore.Whole readAside (behind [asksWhole (ascii "a")]).disk) bucket key range output :=
  ⟨by decide +kernel, files_never_torn readAside_program readAside_ordinary (reaches_foldl _ _ _)⟩

noncomputable def halfWritten : Running Bool Answer Failure Response World :=
  [(true, ()), (true, ()), (true, ())].foldl (Running.next store)
    (.start readAsidePrograms (behind [asksWhole (ascii "a")]))

set_option maxRecDepth 100000 in
theorem temporary_files_owned_sample :
    halfWritten.state.disk.get (draftPath 3) ≠ none ∧ ∃ holds : Bool → Option Nat, ∀ n,
      halfWritten.state.disk.get (draftPath n) ≠ none →
      (behind [asksWhole (ascii "a")]).disk.get (draftPath n) ≠ none ∨
        ∃ i, holds i = some n ∧ (halfWritten.left i).isOver = false :=
  ⟨by decide +kernel, temporary_files_owned readAside_program readAside_ordinary (reaches_foldl _ _ _)⟩

end Samples

end S3s.Fs
