import S3s.Fs.Drafts

/-! # Tidy operations

An operation that keeps to the protocol of the temporary files, and leaves none. The steps that the operations
are made of are tidy, and so is what is made of them.
-/
namespace S3s.Fs
open LexicalPath Programs FileTree

section Moves

variable {Whole : List Bytes → Bytes → Prop} {calm : Prop} {α β : Type} {s : Draft}

/-- A call that is allowed with every draft, and leaves it as it is. -/
def Call.Spares (Whole : List Bytes → Bytes → Prop) : Call → Prop
  | .file (.createDir p) => Clear p
  | .file (.createDirAll p) => Clear p
  | .file (.createFile _) => False
  | .file (.append _ _) => False
  | .file (.rename _ _) => False
  | .file (.copy _ dst) => Lasting dst ∧ ∀ content, Whole dst content
  | .file (.setModified p _) => Lasting p
  | .file (.removeFile p) => Lasting p
  | .file (.removeDir p) => Lasting p
  | .file (.removeDirAll p) => ∀ n, ¬p <+: draftPath n
  | .fetchAdd => False
  | _ => True

theorem Call.Reads.spares {c : Call} (h : c.Reads) : c.Spares Whole := by
  cases c with
  | file c => cases c <;> first | trivial | exact h.elim
  | fetchAdd => exact h.elim
  | now => trivial

theorem Call.Spares.allowed {c : Call} (h : c.Spares Whole) :
    s.may Whole c ∧ ∀ x, s.next c x = s := by
  cases c with
  | fetchAdd => exact h.elim
  | now => exact ⟨by cases s <;> trivial, fun x => by cases s <;> rfl⟩
  | file c =>
    cases c with
    | removeFile p =>
      refine ⟨by cases s <;> exact Or.inl h, fun x => ?_⟩
      cases s with
      | opened n content => exact if_neg fun hp => h n hp.1
      | _ => rfl
    | createFile p => exact h.elim
    | append p added => exact h.elim
    | rename src dst => exact h.elim
    | _ => exact ⟨by cases s <;> exact h, fun x => by cases s <;> rfl⟩

/-- An operation that keeps to the protocol, and leaves no temporary file. Where calls fail from outside, a
failure may leave one. -/
def Tidy (Whole : List Bytes → Bytes → Prop) (calm : Prop) (p : Op α) (Q : α → Prop) : Prop :=
  p.Follows (draftProtocol Whole calm) .none (fun a s => s = .none ∧ Q a) fun _ s => calm → s = .none

theorem Tidy.bind {p : Op α} {f : α → Op β} {Q : α → Prop} {Q' : β → Prop} (hp : Tidy Whole calm p Q)
    (hf : ∀ a, Q a → Tidy Whole calm (f a) Q') : Tidy Whole calm (p >>= f) Q' := by
  refine Prog.Follows.bind hp ?_ fun _ _ h => h
  rintro a _ ⟨rfl, ha⟩
  exact hf a ha

theorem Tidy.mono {p : Op α} {Q Q' : α → Prop} (hp : Tidy Whole calm p Q) (h : ∀ a, Q a → Q' a) :
    Tidy Whole calm p Q' :=
  Prog.Follows.mono hp (fun a _ ha => ⟨ha.1, h a ha.2⟩) fun _ _ h => h

theorem tidy_of_spares {p : Op α} (hp : p.Only (Call.Spares Whole)) : Tidy Whole calm p fun _ => True :=
  (hp.follows fun _ hc => hc.allowed).mono (fun _ _ hs => ⟨hs, trivial⟩) fun _ _ hs _ => hs

theorem tidy_of_reads {p : Op α} (hp : p.Only Call.Reads) : Tidy Whole calm p fun _ => True :=
  tidy_of_spares (hp.mono fun _ => Call.Reads.spares)

theorem tidy_of_gives {p : Op α} {Q : α → Prop} (hp : p.Only Call.Reads) (hgives : p.Gives Q) :
    Tidy Whole calm p Q :=
  (Prog.Follows.and_gives (tidy_of_reads hp) hgives).mono (fun _ _ h => ⟨h.1.1, h.2⟩) fun _ _ h => h

theorem tidy_pure {a : α} {Q : α → Prop} (ha : Q a) : Tidy Whole calm (pure a) Q := ⟨rfl, ha⟩

theorem follows_io {c : FileTree.Call Bytes UInt8} {Q : c.Payload → Draft → Prop} {E : Failure → Draft → Prop}
    (hmay : s.may Whole (.file c))
    (hok : ∀ x, s.answers Whole calm (.file c) (.ok x) → Q x (s.next (.file c) (.ok x)))
    (herror : ∀ kind, E (internal (.io kind)) (s.next (.file c) (.error kind))) :
    (io c).Follows (draftProtocol Whole calm) s Q E := by
  refine ⟨hmay, fun x hx => ?_⟩
  cases x with
  | ok x => exact hok x hx
  | error kind => exact herror kind

/-- What is read at a lasting path is whole. -/
theorem follows_read {p : List Bytes} {E : Failure → Draft → Prop} (hE : ∀ e, E e s) :
    (io (.read p)).Follows (draftProtocol Whole calm) s
      (fun content s' => s' = s ∧ (Lasting p → Whole p content)) E := by
  apply follows_io
  · cases s <;> trivial
  · intro content hanswers
    refine ⟨by cases s <;> rfl, ?_⟩
    cases s <;> exact hanswers content rfl
  · intro kind
    have hnext : s.next (.file (.read p)) (.error kind) = s := by cases s <;> rfl
    rw [hnext]
    exact hE _

variable (fs : FileSystem)

/-- What is written by way of a temporary file comes to stand at its place, if it may be there. -/
theorem tidy_writing {write : List Bytes → Op α} {dest : List Bytes} {R : α → Bytes → Prop}
    (hdest : Lasting dest) (habove : Clear dest.dropLast)
    (hwrite : ∀ n, (write (draftPath n)).Follows (draftProtocol Whole calm) (.opened n [])
      (fun a s => ∃ content, s = .opened n content ∧ R a content) fun _ s => ∃ content, s = .opened n content)
    (hR : ∀ a content, R a content → Whole dest content) :
    Tidy Whole calm (fs.writing dest write) fun a => ∃ content, R a content := by
  have hplace (n : Nat) : (Prog.onFailure (do
      let a ← write (draftPath n)
      done (draftPath n) dest
      pure a) (discard (draftPath n))).Follows (draftProtocol Whole calm) (.opened n [])
      (fun a s => s = .none ∧ ∃ content, R a content) fun _ s => calm → s = .none := by
    refine Prog.Follows.onFailure (F := fun _ s => ∃ content, s = .opened n content) ?_ ?_
    · refine (hwrite n).bind ?_ fun _ _ h => h
      rintro a _ ⟨content, rfl, hcontent⟩
      refine Prog.Follows.bind (Q := fun _ s => s = .none) (E := fun _ s => ∃ content, s = .opened n content)
        ?_ (fun _ s hs => ⟨hs, content, hcontent⟩) fun _ _ h => h
      refine Prog.Follows.bind (Q := fun _ s => s = .opened n content)
        (E := fun _ s => ∃ content, s = .opened n content) ?_ ?_ fun _ _ h => h
      · exact follows_io habove (fun _ _ => rfl) fun _ => ⟨content, rfl⟩
      · rintro _ _ rfl
        exact follows_io ⟨n, content, rfl, rfl, hdest, hR a content hcontent⟩ (fun _ _ => rfl)
          fun _ => ⟨content, rfl⟩
    · rintro e _ ⟨content, rfl⟩
      refine ⟨Or.inr ⟨n, content, rfl, rfl⟩, fun x hx hcalm => ?_⟩
      rw [hx hcalm n content rfl rfl]
      exact if_pos ⟨rfl, rfl⟩
  refine ⟨rfl, fun n _ => ?_⟩
  show ((fs.getStorePath (.temporary n) >>= fun tmpPath =>
    io (.createFile tmpPath) >>= fun _ => pure tmpPath) >>= _).Follows (draftProtocol Whole calm) (.numbered n) _ _
  rw [getStorePath_eq]
  refine ⟨⟨n, rfl, rfl⟩, fun x _ => ?_⟩
  cases x with
  | ok _ => exact hplace n
  | error kind => exact fun _ => rfl

theorem StoreFile.lasting {f : StoreFile} (hf : ∀ n, f ≠ .temporary n) : Lasting [f.name] :=
  fun n => name_ne_temporary hf n

theorem clear_nil : Clear [] := fun _ h => List.cons_ne_nil _ _ (List.prefix_nil.mp h)

theorem tidy_saveFile {f : StoreFile} {content : Bytes} (hf : ∀ n, f ≠ .temporary n)
    (hwhole : Whole [f.name] content) : Tidy Whole calm (fs.saveFile f content) fun _ => True := by
  rw [FileSystem.saveFile, getStorePath_eq]
  refine (tidy_writing fs (R := fun _ written => written = content) (StoreFile.lasting hf) clear_nil ?_ ?_).mono
    fun _ _ => trivial
  · intro n
    exact follows_io ⟨n, [], rfl, rfl⟩ (fun _ _ => ⟨content, rfl, rfl⟩) fun _ => ⟨[], rfl⟩
  · rintro _ _ rfl
    exact hwhole

/-- The body goes to the temporary file, as far as it is received. -/
theorem follows_copyBytes (n : Nat) (content : Bytes) (stream : List (Except StreamError Bytes)) :
    (copyBytes (draftPath n) stream).Follows (draftProtocol Whole calm) (.opened n content)
      (fun bytes s => s = .opened n (content ++ bytes) ∧ contentOf stream = some bytes)
      fun _ s => ∃ content, s = .opened n content := by
  induction stream generalizing content with
  | nil => exact ⟨by rw [List.append_nil], rfl⟩
  | cons x stream ih =>
    cases x with
    | error e => exact ⟨content, rfl⟩
    | ok bytes =>
      refine Prog.Follows.bind (Q := fun _ s => s = .opened n (content ++ bytes))
        (E := fun _ s => ∃ content, s = .opened n content) ?_ ?_ fun _ _ h => h
      · exact follows_io ⟨n, content, rfl, rfl⟩ (fun _ _ => rfl) fun _ => ⟨content, rfl⟩
      · rintro _ _ rfl
        refine (ih (content ++ bytes)).bind ?_ fun _ _ h => h
        rintro rest _ ⟨rfl, hrest⟩
        exact ⟨by rw [List.append_assoc], by rw [contentOf, hrest, Option.map_some]⟩

/-- Checks that are made with a temporary file open. -/
theorem follows_checks {n : Nat} {content : Bytes} {p : Op α} (hp : p.Only Call.Reads) :
    p.Follows (draftProtocol Whole calm) (.opened n content) (fun _ s => s = .opened n content)
      fun _ s => ∃ content, s = .opened n content :=
  ((hp.mono fun _ => Call.Reads.spares).follows fun _ hc => hc.allowed).mono (fun _ _ h => h)
    fun _ _ h => ⟨content, h⟩

end Moves

end S3s.Fs
