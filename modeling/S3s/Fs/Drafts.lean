import S3s.Fs.BucketRuns
import S3s.Library.Protocols

/-! # The protocol of the temporary files

A request writes to a temporary file with a number that it alone has drawn, and moves the file to its place
when it is complete. Between its calls the other requests make theirs, and a call may fail from outside.
-/
namespace S3s.Fs
open LexicalPath Programs FileTree Routing

/-- What a request has of a temporary file: nothing, the number of the next one, or one with a content. -/
inductive Draft where
  | none
  | numbered (n : Nat)
  | opened (n : Nat) (content : Bytes)

/-- The number that is a request's own. -/
def Draft.number : Draft → Option Nat
  | none => .none
  | numbered n => some n
  | opened n _ => some n

/-- The place of a temporary file. -/
def draftPath (n : Nat) : List Bytes := [(StoreFile.temporary n).name]

/-- A path of no temporary file. -/
def Lasting (p : List Bytes) : Prop := ∀ n, p ≠ draftPath n

/-- A path that leads over no temporary file. -/
def Clear (p : List Bytes) : Prop := ∀ n, ¬draftPath n <+: p

section Protocol

variable (Whole : List Bytes → Bytes → Prop) (calm : Prop)

/-- What a request may call, by its draft. -/
def Draft.may : Draft → Call → Prop
  | s, .fetchAdd => s = none
  | _, .now => True
  | _, .file (.createDir p) => Clear p
  | _, .file (.createDirAll p) => Clear p
  | s, .file (.createFile p) => ∃ n, s = numbered n ∧ p = draftPath n
  | s, .file (.append p _) => ∃ n content, s = opened n content ∧ p = draftPath n
  | s, .file (.rename src dst) =>
    ∃ n content, s = opened n content ∧ src = draftPath n ∧ Lasting dst ∧ Whole dst content
  -- a copy is written in its place, so that anything may be found there
  | _, .file (.copy _ dst) => Lasting dst ∧ ∀ content, Whole dst content
  | _, .file (.setModified p _) => Lasting p
  | s, .file (.removeFile p) => Lasting p ∨ ∃ n content, s = opened n content ∧ p = draftPath n
  | _, .file (.removeDir p) => Lasting p
  | _, .file (.removeDirAll p) => ∀ n, ¬p <+: draftPath n
  | _, _ => True

/-- What a request relies on. Where no call fails from outside, its own draft can be removed. -/
def Draft.answers : Draft → (c : Call) → Answer c → Prop
  | _, .file (.open p), x => ∀ content m, x = .ok (Entry.file content m) → Lasting p → Whole p content
  | _, .file (.read p), x => ∀ content, x = .ok content → Lasting p → Whole p content
  | s, .file (.removeFile p), x => calm → ∀ n content, s = opened n content → p = draftPath n → x = .ok ()
  | _, _, _ => True

/-- The draft behind a call. -/
def Draft.next : Draft → (c : Call) → Answer c → Draft
  | none, .fetchAdd, n => numbered n
  | numbered n, .file (.createFile _), x => if Except.isOk x then opened n [] else none
  | opened n content, .file (.append _ added), x => opened n (if Except.isOk x then content ++ added else content)
  | opened n content, .file (.rename _ _), x => if Except.isOk x then none else opened n content
  | opened n content, .file (.removeFile p), x =>
    if p = draftPath n ∧ Except.isOk x then none else opened n content
  | s, _, _ => s

/-- The protocol of the temporary files, for files that may have some contents only. -/
def draftProtocol : Protocol Answer Draft := ⟨Draft.may Whole, Draft.answers Whole calm, Draft.next⟩

variable {ι : Type}

/-- Whatever is at a lasting path may be there, and each draft is the one of a single request. -/
structure Kept (disk : Tree Bytes UInt8) (w : World) (drafts : ι → Draft) : Prop where
  whole : ∀ p, Lasting p → ∀ content m, w.disk.get p = some (.file content m) → Whole p content
  opened : ∀ i n content, drafts i = .opened n content →
    ∃ m, w.disk.get (draftPath n) = some (.file content m)
  below : ∀ i n, (drafts i).number = some n → n < w.counter
  apart : ∀ i j n, (drafts i).number = some n → (drafts j).number = some n → i = j
  accounted : ∀ n, w.disk.get (draftPath n) ≠ none →
    disk.get (draftPath n) ≠ none ∨ ∃ i content, drafts i = .opened n content

end Protocol

section Steps

variable {Whole : List Bytes → Bytes → Prop} {calm : Prop} {ι : Type} [DecidableEq ι] {disk : Tree Bytes UInt8}
  {w w' : World} {drafts : ι → Draft} {i : ι} {s : Draft}

theorem draftPath_inj {m n : Nat} (h : draftPath m = draftPath n) : m = n := by
  have hname := StoreFile.name_injective (List.head_eq_of_cons_eq h)
  injection hname

theorem Draft.number_opened {s : Draft} {n : Nat} {content : Bytes} (h : s = .opened n content) :
    s.number = some n := by
  rw [h, Draft.number]

/-- A step that keeps to the draft of the request. -/
theorem Kept.step (h : Kept Whole disk w drafts) (hcounter : w.counter ≤ w'.counter)
    (hwhole : ∀ p, Lasting p → ∀ content m, w'.disk.get p = some (.file content m) → Whole p content)
    (hnumber : ∀ n, s.number = some n → (drafts i).number = some n ∨ n = w.counter ∧ n < w'.counter)
    (hself : ∀ n content, s = .opened n content → ∃ m, w'.disk.get (draftPath n) = some (.file content m))
    (hothers : ∀ n, (drafts i).number ≠ some n → w'.disk.get (draftPath n) = w.disk.get (draftPath n))
    (hown : ∀ n, (drafts i).number = some n → w'.disk.get (draftPath n) ≠ none →
      (w.disk.get (draftPath n) ≠ none ∧ ∀ content, drafts i ≠ .opened n content) ∨
        ∃ content, s = .opened n content) :
    Kept Whole disk w' (Function.update drafts i s) := by
  have hold {j : ι} {n : Nat} (hj : j ≠ i) (hn : (drafts j).number = some n) : (drafts i).number ≠ some n :=
    fun hi => hj (h.apart j i n hn hi)
  -- a number that was just drawn is not one of the others
  have hnew {j : ι} {n : Nat} (hj : j ≠ i) (hn : (drafts j).number = some n) : s.number ≠ some n := by
    intro hs
    rcases hnumber n hs with hi | ⟨rfl, -⟩
    · exact hold hj hn hi
    · exact Nat.lt_irrefl _ (h.below j _ hn)
  constructor
  · exact hwhole
  · intro j n content hj
    by_cases hi : j = i
    · rw [hi, Function.update_self] at hj
      exact hself n content hj
    · rw [Function.update_of_ne hi] at hj
      rw [hothers n (hold hi (Draft.number_opened hj))]
      exact h.opened j n content hj
  · intro j n hj
    by_cases hi : j = i
    · rw [hi, Function.update_self] at hj
      rcases hnumber n hj with hold | ⟨-, hlt⟩
      · exact Nat.lt_of_lt_of_le (h.below i n hold) hcounter
      · exact hlt
    · rw [Function.update_of_ne hi] at hj
      exact Nat.lt_of_lt_of_le (h.below j n hj) hcounter
  · intro j k n hj hk
    by_cases hi : j = i
    · by_cases hi' : k = i
      · exact hi.trans hi'.symm
      · rw [hi, Function.update_self] at hj
        rw [Function.update_of_ne hi'] at hk
        exact absurd hj (hnew hi' hk)
    · rw [Function.update_of_ne hi] at hj
      by_cases hi' : k = i
      · rw [hi', Function.update_self] at hk
        exact absurd hk (hnew hi hj)
      · rw [Function.update_of_ne hi'] at hk
        exact h.apart j k n hj hk
  · intro n hn
    have hkept (j : ι) (content : Bytes) (hj : drafts j = .opened n content) (hi : j ≠ i) :
        ∃ k content, Function.update drafts i s k = .opened n content :=
      ⟨j, content, (Function.update_of_ne hi _ _).trans hj⟩
    by_cases hi : (drafts i).number = some n
    · rcases hown n hi hn with ⟨hwas, hnot⟩ | ⟨content, hs⟩
      · refine (h.accounted n hwas).imp id ?_
        rintro ⟨j, content, hj⟩
        refine hkept j content hj ?_
        rintro rfl
        exact hnot content hj
      · exact Or.inr ⟨i, content, (Function.update_self _ _ _).trans hs⟩
    · rw [hothers n hi] at hn
      refine (h.accounted n hn).imp id ?_
      rintro ⟨j, content, hj⟩
      refine hkept j content hj ?_
      rintro rfl
      exact hi (Draft.number_opened hj)

/-- A step that leaves the drafts and their files as they are. -/
theorem Kept.same (h : Kept Whole disk w drafts) (hcounter : w'.counter = w.counter)
    (hwhole : ∀ p, Lasting p → ∀ content m, w'.disk.get p = some (.file content m) → Whole p content)
    (hdrafts : ∀ n, w'.disk.get (draftPath n) = w.disk.get (draftPath n)) :
    Kept Whole disk w' (Function.update drafts i (drafts i)) := by
  rw [Function.update_eq_self]
  constructor
  · exact hwhole
  · intro j n content hj
    rw [hdrafts]
    exact h.opened j n content hj
  · rw [hcounter]
    exact h.below
  · exact h.apart
  · intro n
    rw [hdrafts]
    exact h.accounted n

/-- A call that changes the files, or fails and leaves them as they are. -/
theorem perform_cases (fails : Option ErrorKind) (c : FileTree.Call Bytes UInt8) (w : World) :
    (∃ kind, World.perform fails (.file c) w = (.error kind, w.tick w.disk)) ∨
      ∃ x t, w.disk.answer w.around c = (.ok x, t) ∧ World.perform fails (.file c) w = (.ok x, w.tick t) := by
  cases fails with
  | some kind => exact Or.inl ⟨kind, rfl⟩
  | none =>
    have herror (kind : ErrorKind) (h : (w.disk.answer w.around c).1 = .error kind) :
        (w.disk.answer w.around c).2 = w.disk := by
      have hcommit (r : Except ErrorKind (Tree Bytes UInt8)) (h : (w.disk.commit r).1 = .error kind) :
          (w.disk.commit r).2 = w.disk := by
        cases r with
        | ok t => cases h
        | error kind => rfl
      cases c <;> first | rfl | exact hcommit _ h
    cases hanswer : (w.disk.answer w.around c).1 with
    | error kind => exact Or.inl ⟨kind, Prod.ext hanswer (congrArg w.tick (herror kind hanswer))⟩
    | ok x => exact Or.inr ⟨x, _, Prod.ext hanswer rfl, Prod.ext hanswer rfl⟩

/-- A call that fails leaves the draft as it is, or there is none. -/
theorem Kept.failed (h : Kept Whole disk w drafts) {c : FileTree.Call Bytes UInt8}
    (hmay : (drafts i).may Whole (.file c)) (kind : ErrorKind) :
    Kept Whole disk (w.tick w.disk) (Function.update drafts i ((drafts i).next (.file c) (.error kind))) := by
  have hsame (hnext : (drafts i).next (.file c) (.error kind) = drafts i) :
      Kept Whole disk (w.tick w.disk) (Function.update drafts i ((drafts i).next (.file c) (.error kind))) := by
    rw [hnext]
    exact h.same rfl h.whole fun _ => rfl
  cases c with
  | createFile p =>
    obtain ⟨n, hdraft, -⟩ := hmay
    have hnext : (drafts i).next (.file (.createFile p)) (.error kind) = .none := by
      rw [hdraft]
      rfl
    rw [hnext]
    have hcounter : w.counter ≤ (w.tick w.disk).counter := le_refl _
    apply h.step hcounter h.whole
    · intro m hm
      cases hm
    · intro m content hm
      cases hm
    · exact fun _ _ => rfl
    · intro m _ hm
      refine Or.inl ⟨hm, fun content hopened => ?_⟩
      rw [hdraft] at hopened
      cases hopened
  | removeFile p =>
    apply hsame
    cases drafts i with
    | opened n content => exact if_neg fun hok => Bool.noConfusion hok.2
    | _ => rfl
  | _ =>
    apply hsame
    cases drafts i <;> rfl

/-- A change at paths of no temporary file. -/
theorem Kept.lasting (h : Kept Whole disk w drafts) {t : Tree Bytes UInt8} (touched : List Bytes → Prop)
    (htouched : ∀ n, ¬touched (draftPath n)) (hrest : ∀ q, ¬touched q → t.get q = w.disk.get q)
    (hthere : ∀ q, touched q → Lasting q → ∀ content m, t.get q = some (.file content m) → Whole q content) :
    Kept Whole disk (w.tick t) (Function.update drafts i (drafts i)) := by
  apply h.same (show (w.tick t).counter = w.counter from rfl)
  · intro q hq content m hfile
    by_cases hat : touched q
    · exact hthere q hat hq content m hfile
    · refine h.whole q hq content m ?_
      rw [← hrest q hat]
      exact hfile
  · exact fun n => hrest _ (htouched n)

/-- A change of the own draft. -/
theorem Kept.drafted (h : Kept Whole disk w drafts) {n : Nat} {content : Bytes} {m : Nat} {t : Tree Bytes UInt8}
    (hdraft : (drafts i).number = some n)
    (hget : ∀ q, t.get q = if q = draftPath n then some (.file content m) else w.disk.get q) :
    Kept Whole disk (w.tick t) (Function.update drafts i (.opened n content)) := by
  have hcounter : w.counter ≤ (w.tick t).counter := le_refl _
  apply h.step hcounter
  · intro q hq c' m' hfile
    refine h.whole q hq c' m' ?_
    rw [← hfile]
    exact ((hget q).trans (if_neg (hq n))).symm
  · intro k hk
    rw [← hk]
    exact Or.inl hdraft
  · rintro k c' ⟨⟩
    exact ⟨m, (hget _).trans (if_pos rfl)⟩
  · intro k hk
    refine (hget _).trans (if_neg fun heq => hk ?_)
    rw [draftPath_inj heq]
    exact hdraft
  · intro k hk _
    rw [hdraft] at hk
    exact Or.inr ⟨content, by rw [Option.some.inj hk]⟩

/-- The own draft goes, and what it was may come to stand at another place. -/
theorem Kept.finished (h : Kept Whole disk w drafts) {n : Nat} {content : Bytes} {t : Tree Bytes UInt8}
    (hdraft : drafts i = .opened n content) (hgone : t.get (draftPath n) = none)
    (hdrafts : ∀ k, k ≠ n → t.get (draftPath k) = w.disk.get (draftPath k))
    (hwhole : ∀ p, Lasting p → ∀ content m, t.get p = some (.file content m) → Whole p content) :
    Kept Whole disk (w.tick t) (Function.update drafts i .none) := by
  have hcounter : w.counter ≤ (w.tick t).counter := le_refl _
  have hnumber := Draft.number_opened hdraft
  apply h.step hcounter hwhole
  · intro k hk
    cases hk
  · intro k c' hk
    cases hk
  · intro k hk
    refine hdrafts k fun heq => hk ?_
    rw [heq]
    exact hnumber
  · intro k hk hthere
    rw [hnumber] at hk
    rw [← Option.some.inj hk] at hthere
    exact absurd hgone hthere

theorem get_of_content {t : Tree Bytes UInt8} {p : List Bytes} {x : Bytes × Nat} (h : t.content p = .ok x) :
    t.get p = some (.file x.1 x.2) := by
  unfold Tree.content at h
  split at h
  · next hget =>
    cases h
    exact hget
  · cases h
  · cases h

/-- A call that does not fail. -/
theorem Kept.performed (h : Kept Whole disk w drafts) {c : FileTree.Call Bytes UInt8}
    (hmay : (drafts i).may Whole (.file c)) {x : c.Payload} {t : Tree Bytes UInt8}
    (hanswer : w.disk.answer w.around c = (.ok x, t)) :
    Kept Whole disk (w.tick t) (Function.update drafts i ((drafts i).next (.file c) (.ok x))) := by
  have hcommit {r : Except ErrorKind (Tree Bytes UInt8)} {x : Unit} (hr : w.disk.commit r = (.ok x, t)) :
      r = .ok t := by
    cases r with
    | error kind => cases (Prod.mk.inj hr).1
    | ok t' => rw [← (Prod.mk.inj hr).2]
  have hsame (hnext : (drafts i).next (.file c) (.ok x) = drafts i)
      (hkept : Kept Whole disk (w.tick t) (Function.update drafts i (drafts i))) :
      Kept Whole disk (w.tick t) (Function.update drafts i ((drafts i).next (.file c) (.ok x))) := by
    rwa [hnext]
  have hread (ht : t = w.disk) : Kept Whole disk (w.tick t) (Function.update drafts i (drafts i)) := by
    rw [ht]
    exact h.same rfl h.whole fun _ => rfl
  cases c with
  | metadata p => exact hsame (by cases drafts i <;> rfl) (hread (Prod.mk.inj hanswer).2.symm)
  | «open» p => exact hsame (by cases drafts i <;> rfl) (hread (Prod.mk.inj hanswer).2.symm)
  | read p => exact hsame (by cases drafts i <;> rfl) (hread (Prod.mk.inj hanswer).2.symm)
  | readDir p => exact hsame (by cases drafts i <;> rfl) (hread (Prod.mk.inj hanswer).2.symm)
  | createDir p =>
    apply hsame (by cases drafts i <;> rfl)
    have hget := (Tree.createDir_eq_ok (hcommit hanswer)).2
    apply h.lasting (· = p)
    · exact fun n heq => hmay n (heq ▸ List.prefix_rfl)
    · exact fun q hq => (hget q).trans (if_neg hq)
    · intro q hq _ content m hfile
      rw [hget, if_pos hq] at hfile
      cases hfile
  | createDirAll p =>
    apply hsame (by cases drafts i <;> rfl)
    have hget := (Tree.createDirAll_eq_ok (hcommit hanswer)).2
    apply h.lasting (· <+: p)
    · exact hmay
    · exact fun q hq => (hget q).trans (if_neg hq)
    · intro q hq _ content m hfile
      rw [hget, if_pos hq] at hfile
      cases hfile
  | createFile p =>
    obtain ⟨n, hdraft, rfl⟩ := hmay
    have hget := (Tree.writeFile_eq_ok (hcommit hanswer)).2
    have hnext : (drafts i).next (.file (.createFile (draftPath n))) (.ok x) = .opened n [] := by
      rw [hdraft]
      rfl
    rw [hnext]
    exact h.drafted (by rw [hdraft]; rfl) hget
  | append p added =>
    obtain ⟨n, content, hdraft, rfl⟩ := hmay
    obtain ⟨m, hfile⟩ := h.opened i n content hdraft
    have hcontent : w.disk.content (draftPath n) = .ok (content, m) := by simp [Tree.content, hfile]
    have hwrite := hcommit hanswer
    rw [hcontent] at hwrite
    have hget := (Tree.writeFile_eq_ok (show w.disk.writeFile (draftPath n) (content ++ added) w.around.now = .ok t
      from hwrite)).2
    have hnext : (drafts i).next (.file (.append (draftPath n) added)) (.ok x) = .opened n (content ++ added) := by
      rw [hdraft]
      rfl
    rw [hnext]
    exact h.drafted (by rw [hdraft]; rfl) hget
  | rename src dst =>
    obtain ⟨n, content, hdraft, rfl, hlasting, hwhole⟩ := hmay
    obtain ⟨m, hfile⟩ := h.opened i n content hdraft
    obtain ⟨content', m', hsrc, -, hget⟩ := Tree.rename_eq_ok (hcommit hanswer)
    obtain ⟨rfl, rfl⟩ : content = content' ∧ m = m' := by simpa [hfile] using hsrc
    have hnext : (drafts i).next (.file (.rename (draftPath n) dst)) (.ok x) = .none := by
      rw [hdraft]
      rfl
    rw [hnext]
    apply h.finished hdraft
    · rw [hget, if_neg (hlasting n).symm, if_pos rfl]
    · intro k hk
      rw [hget, if_neg (hlasting k).symm, if_neg fun heq => hk (draftPath_inj heq)]
    · intro q hq c' m' hfile'
      rw [hget] at hfile'
      by_cases hdst : q = dst
      · rw [if_pos hdst] at hfile'
        cases hfile'
        rwa [hdst]
      · rw [if_neg hdst, if_neg (hq n)] at hfile'
        exact h.whole q hq c' m' hfile'
  | copy src dst =>
    obtain ⟨hdst, hwhole⟩ := hmay
    apply hsame (by cases drafts i <;> rfl)
    have hwrite := hcommit hanswer
    cases hcontent : w.disk.content src with
    | error kind =>
      rw [hcontent] at hwrite
      cases hwrite
    | ok y =>
      rw [hcontent] at hwrite
      have hget := (Tree.writeFile_eq_ok (show w.disk.writeFile dst (if src = dst then [] else y.1)
        w.around.now = .ok t from hwrite)).2
      apply h.lasting (· = dst)
      · exact fun n heq => hdst n heq.symm
      · exact fun q hq => (hget q).trans (if_neg hq)
      · intro q hq _ content m hfile
        rw [hq]
        exact hwhole content
  | setModified p modified =>
    apply hsame (by cases drafts i <;> rfl)
    have hwrite := hcommit hanswer
    cases hcontent : w.disk.content p with
    | error kind =>
      rw [hcontent] at hwrite
      cases hwrite
    | ok y =>
      rw [hcontent] at hwrite
      have hget := (Tree.writeFile_eq_ok (show w.disk.writeFile p y.1 modified = .ok t from hwrite)).2
      apply h.lasting (· = p)
      · exact fun n heq => hmay n heq.symm
      · exact fun q hq => (hget q).trans (if_neg hq)
      · intro q hq hlasting content m hfile
        rw [hget, if_pos hq] at hfile
        cases hfile
        rw [hq]
        exact h.whole p hmay y.1 y.2 (get_of_content hcontent)
  | removeFile p =>
    have hget := (Tree.removeFile_eq_ok (hcommit hanswer)).2
    by_cases hown : ∃ n content, drafts i = .opened n content ∧ p = draftPath n
    · obtain ⟨n, content, hdraft, rfl⟩ := hown
      have hnext : (drafts i).next (.file (.removeFile (draftPath n))) (.ok x) = .none := by
        rw [hdraft]
        exact if_pos ⟨rfl, rfl⟩
      rw [hnext]
      apply h.finished hdraft
      · rw [hget, if_pos rfl]
      · exact fun k hk => (hget _).trans (if_neg fun heq => hk (draftPath_inj heq))
      · intro q hq c' m' hfile
        rw [hget, if_neg (hq n)] at hfile
        exact h.whole q hq c' m' hfile
    · have hlasting : Lasting p := hmay.resolve_right hown
      have hnext : (drafts i).next (.file (.removeFile p)) (.ok x) = drafts i := by
        cases drafts i with
        | opened n content => exact if_neg fun h => hlasting n h.1
        | _ => rfl
      apply hsame hnext
      apply h.lasting (· = p)
      · exact fun n heq => hlasting n heq.symm
      · exact fun q hq => (hget q).trans (if_neg hq)
      · intro q hq _ content m hfile
        rw [hget, if_pos hq] at hfile
        cases hfile
  | removeDir p =>
    apply hsame (by cases drafts i <;> rfl)
    have hget := (Tree.removeDir_eq_ok (hcommit hanswer)).2
    apply h.lasting (· = p)
    · exact fun n heq => hmay n heq.symm
    · exact fun q hq => (hget q).trans (if_neg hq)
    · intro q hq _ content m hfile
      rw [hget, if_pos hq] at hfile
      cases hfile
  | removeDirAll p =>
    apply hsame (by cases drafts i <;> rfl)
    have hget := (Tree.removeDirAll_eq_ok (hcommit hanswer)).2
    apply h.lasting (p <+: ·)
    · exact hmay
    · exact fun q hq => (hget q).trans (if_neg hq)
    · intro q hq _ content m hfile
      rw [hget, if_pos hq] at hfile
      cases hfile

/-- What is answered is relied on. -/
theorem Kept.answers (h : Kept Whole disk w drafts) {fails : Option ErrorKind} (hcalm : calm → fails = none)
    (c : Call) : (drafts i).answers Whole calm c (World.perform fails c w).1 := by
  cases c with
  | fetchAdd => cases drafts i <;> trivial
  | now => cases drafts i <;> trivial
  | file c =>
    cases c with
    | «open» p =>
      have hopen : ∀ content m, (World.perform fails (.file (.open p)) w).1 = .ok (Entry.file content m) →
          Lasting p → Whole p content := by
        intro content m hx hp
        rcases perform_cases fails (.open p) w with ⟨kind, hfailed⟩ | ⟨x, t, hanswer, hperform⟩
        · rw [hfailed] at hx
          cases hx
        · rw [hperform] at hx
          obtain rfl : x = .file content m := Except.ok.inj hx
          have hfind : w.disk.find p = .ok (.file content m) := (Prod.mk.inj hanswer).1
          unfold Tree.find at hfind
          cases hget : w.disk.get p with
          | none =>
            rw [hget] at hfind
            cases hfind
          | some e =>
            rw [hget] at hfind
            cases hfind
            exact h.whole p hp content m hget
      cases drafts i <;> exact hopen
    | read p =>
      have hread : ∀ content, (World.perform fails (.file (.read p)) w).1 = .ok content →
          Lasting p → Whole p content := by
        intro content hx hp
        rcases perform_cases fails (.read p) w with ⟨kind, hfailed⟩ | ⟨x, t, hanswer, hperform⟩
        · rw [hfailed] at hx
          cases hx
        · rw [hperform] at hx
          obtain rfl : x = content := Except.ok.inj hx
          have hcontent : (w.disk.content p).map Prod.fst = .ok x := (Prod.mk.inj hanswer).1
          cases hget : w.disk.content p with
          | error kind =>
            rw [hget] at hcontent
            cases hcontent
          | ok y =>
            rw [hget] at hcontent
            cases hcontent
            exact h.whole p hp y.1 y.2 (get_of_content hget)
      cases drafts i <;> exact hread
    | removeFile p =>
      have hremove : calm → ∀ n content, drafts i = .opened n content → p = draftPath n →
          (World.perform fails (.file (.removeFile p)) w).1 = .ok () := by
        rintro hc n content hdraft rfl
        obtain ⟨m, hfile⟩ := h.opened i n content hdraft
        obtain ⟨t, hremoved, -⟩ := Tree.removeFile_of_file (t := w.disk) (p := draftPath n)
          (by rw [hfile]; trivial)
        rw [hcalm hc]
        show (w.disk.commit (w.disk.removeFile (draftPath n))).1 = .ok ()
        rw [hremoved]
        rfl
      intro hc n content hdraft hp
      exact hremove hc n content hdraft hp
    | _ => cases drafts i <;> trivial

/-- The store keeps to the protocol. -/
theorem keptBy_draftProtocol {τ : Type} {fails : τ → Option ErrorKind} (hcalm : calm → ∀ t, fails t = none) :
    (draftProtocol Whole calm).KeptBy (fun t => World.perform (fails t)) (Kept (ι := ι) Whole disk) := by
  intro t c w drafts i h hmay
  refine ⟨h.answers (fun hc => hcalm hc t) c, ?_⟩
  cases c with
  | fetchAdd =>
    have hnext : (drafts i).next .fetchAdd w.counter = .numbered w.counter := by
      rw [show drafts i = .none from hmay]
      rfl
    show Kept Whole disk { w with counter := w.counter + 1 } (Function.update drafts i _)
    rw [show (draftProtocol Whole calm).next (drafts i) .fetchAdd (World.perform (fails t) .fetchAdd w).1 =
      .numbered w.counter from hnext]
    have hcounter : w.counter ≤ ({ w with counter := w.counter + 1 } : World).counter := Nat.le_succ _
    have hnone (n : Nat) : (drafts i).number ≠ some n := by
      rw [show drafts i = .none from hmay]
      intro h
      cases h
    apply h.step hcounter h.whole
    · rintro n ⟨⟩
      exact Or.inr ⟨rfl, Nat.lt_succ_self _⟩
    · intro n content hn
      cases hn
    · exact fun _ _ => rfl
    · exact fun n hn => absurd hn (hnone n)
  | now =>
    have hnext (x : Nat) : (drafts i).next .now x = drafts i := by cases drafts i <;> rfl
    show Kept Whole disk (w.tick w.disk) (Function.update drafts i ((drafts i).next .now _))
    rw [hnext]
    exact h.same rfl h.whole fun _ => rfl
  | file c =>
    show Kept Whole disk (World.perform (fails t) (.file c) w).2
      (Function.update drafts i ((drafts i).next (.file c) (World.perform (fails t) (.file c) w).1))
    rcases perform_cases (fails t) c w with ⟨kind, hfailed⟩ | ⟨x, t', hanswer, hperform⟩
    · rw [hfailed]
      exact h.failed hmay kind
    · rw [hperform]
      exact h.performed hmay hanswer

end Steps

end S3s.Fs
