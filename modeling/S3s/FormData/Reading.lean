import S3s.FormData.Grammar

/-! # The readers of the buffer

A stream that carries bytes only, with or without polls that are not ready, is
seen as the text to come: the buffer and the chunks behind it. Every reader
answers as the text says, wherever the chunks end.
-/
namespace S3s.FormData
open Polling Search

variable {ε : Type}

namespace StreamBuffer

/-- An answer that is not ready, or a chunk with bytes in it. -/
def PlainAnswer : Item Bytes (Error ε) → Prop
  | .pending => True
  | .ready (some (.ok bytes)) => bytes ≠ []
  | _ => False

/-- The bytes of an answer. -/
def answerBytes : Item Bytes (Error ε) → Bytes
  | .ready (some (.ok bytes)) => bytes
  | _ => []

def isPending : Item Bytes (Error ε) → Bool
  | .pending => true
  | _ => false

/-- The stream carries bytes only, and has not been found at its end before it is there. -/
structure Plain (b : StreamBuffer ε) : Prop where
  script : ∃ script, b.stream = some script
  answers : ∀ a ∈ b.stream.getD [], PlainAnswer a
  ended : b.eof = true → b.stream = some []

/-- The bytes that the stream still carries. -/
def rest (b : StreamBuffer ε) : Bytes := (b.stream.getD []).flatMap answerBytes

/-- The text to come. -/
def view (b : StreamBuffer ε) : Bytes := b.buf ++ b.rest

/-- How often the stream is still not ready. -/
def pendings (b : StreamBuffer ε) : Nat := (b.stream.getD []).countP isPending

/-- What a reader leaves of a buffer: the text to come, and no more to wait for than before. -/
structure Left (b : StreamBuffer ε) (text : Bytes) (b' : StreamBuffer ε) : Prop where
  plain : b'.Plain
  view : b'.view = text
  active : b'.readUntilActive = b.readUntilActive
  pendings : b'.pendings ≤ b.pendings

/-- Waiting: the text to come is left, and there is less to wait for. -/
def Waits (b : StreamBuffer ε) (text : Bytes) (b' : StreamBuffer ε) : Prop :=
  Left b text b' ∧ b'.pendings < b.pendings

variable {b b' b₁ : StreamBuffer ε} {text mid c : Bytes}

/-- Only the stream matters. -/
theorem Plain.congr (hb : b.Plain) (hstream : b'.stream = b.stream) (heof : b'.eof = b.eof) :
    b'.Plain := by
  refine ⟨?_, ?_, ?_⟩
  · rw [hstream]
    exact hb.script
  · rw [hstream]
    exact hb.answers
  · rw [hstream, heof]
    exact hb.ended

theorem Plain.refl (hb : b.Plain) : Left b b.view b := ⟨hb, rfl, rfl, le_refl _⟩

theorem Left.trans (h₁ : Left b mid b₁) (h₂ : Left b₁ text b') : Left b text b' :=
  ⟨h₂.plain, h₂.view, h₂.active.trans h₁.active, h₂.pendings.trans h₁.pendings⟩

theorem Waits.trans (h₁ : Left b mid b₁) (h₂ : Waits b₁ text b') : Waits b text b' :=
  ⟨h₁.trans h₂.1, h₂.2.trans_le h₁.pendings⟩

/-- What is left when the buffer is replaced and the stream is as before. -/
theorem Left.setBuf (h : Left b text b₁) (buf : Bytes) :
    Left b (buf ++ b₁.rest) { b₁ with buf := buf } :=
  ⟨h.plain.congr rfl rfl, rfl, h.active, h.pendings⟩

/-- Bytes are taken from the front of the buffer. -/
theorem Left.drop (h : Left b text b₁) {n : Nat} (hn : n ≤ b₁.buf.length) :
    Left b (text.drop n) { b₁ with buf := b₁.buf.drop n } := by
  refine ⟨h.plain.congr rfl rfl, ?_, h.active, h.pendings⟩
  rw [← h.view]
  exact (List.drop_append_of_le_length hn).symm

/-- A stream with an answer left has not been found at its end. -/
theorem Plain.not_ended {a : Item Bytes (Error ε)} {script : Script ε} (hb : b.Plain)
    (hscript : b.stream = some (a :: script)) : b.eof = false := by
  by_contra h
  have hnil := hb.ended (by simpa using h)
  rw [hscript] at hnil
  cases hnil

/-- What a poll of the stream can give. -/
theorem Plain.cases (hb : b.Plain) :
    (b.rest = [] ∧ b.pollStream = (.ready none, { b with stream := some [], eof := true })) ∨
    (∃ script, b.pollStream = (.pending, { b with stream := some script }) ∧
      Waits b b.view { b with stream := some script }) ∨
    ∃ c script, c ≠ [] ∧
      b.pollStream = (.ready (some (.ok c)), { b with
        stream := some script, emptyChunks := 0, polledTotal := b.polledTotal + c.length }) ∧
      b.rest = c ++ script.flatMap answerBytes ∧ (∀ a ∈ script, PlainAnswer a) ∧ b.eof = false ∧
      script.countP isPending ≤ b.pendings := by
  obtain ⟨script, hscript⟩ := hb.script
  have hplain := hb.answers
  rw [hscript, Option.getD_some] at hplain
  rcases script with _ | ⟨_ | (_ | (e | bytes)), script⟩
  · refine .inl ⟨?_, ?_⟩
    · rw [rest, hscript]
      rfl
    · rw [pollStream, hscript]
      rfl
  · have heof := hb.not_ended hscript
    refine .inr (.inl ⟨script, ?_, ?_⟩)
    · rw [pollStream, hscript]
      rfl
    · have hview : view { b with stream := some script } = b.view := by
        rw [view, view, rest, rest, hscript]
        rfl
      have hless : pendings { b with stream := some script } < b.pendings := by
        rw [pendings, pendings, hscript, Option.getD_some, Option.getD_some,
          List.countP_cons_of_pos rfl]
        exact Nat.lt_succ_self _
      have hanswers : ∀ a ∈ script, PlainAnswer a := fun a ha => hplain a (List.mem_cons_of_mem _ ha)
      exact ⟨⟨⟨⟨script, rfl⟩, hanswers, fun h => absurd (heof.symm.trans h) (by simp)⟩, hview, rfl,
        hless.le⟩, hless⟩
  · exact (hplain _ (List.mem_cons_self ..)).elim
  · exact (hplain _ (List.mem_cons_self ..)).elim
  · have heof := hb.not_ended hscript
    have hne : bytes ≠ [] := hplain _ (List.mem_cons_self ..)
    refine .inr (.inr ⟨bytes, script, hne, ?_, ?_, fun a ha => hplain a (List.mem_cons_of_mem _ ha),
      heof, ?_⟩)
    · have hempty : bytes.isEmpty = false := by simpa using hne
      rw [pollStream, hscript]
      simp [pollStreamLoop, emptyChunksPerPoll, hempty]
    · rw [rest, hscript]
      rfl
    · rw [pendings, hscript]
      simp [isPending]

/-- A poll that is not ready leaves the text to come. -/
theorem Plain.pending (hb : b.Plain) (h : b.pollStream = (.pending, b')) :
    Waits b b.view b' ∧ b'.buf = b.buf ∧ b'.readUntilCursor = b.readUntilCursor := by
  rcases hb.cases with ⟨-, hpoll⟩ | ⟨script, hpoll, hwaits⟩ | ⟨c, script, -, hpoll, -⟩
  · rw [hpoll] at h
    cases h
  · rw [hpoll] at h
    cases h
    exact ⟨hwaits, rfl, rfl⟩
  · rw [hpoll] at h
    cases h

/-- A chunk that arrives is the front of the bytes that the stream still carried: put behind what is
in the buffer, it leaves the text to come. -/
theorem Plain.chunk (hb : b.Plain) (h : b.pollStream = (.ready (some (.ok c)), b')) (cursor : Nat) :
    Left b b.view { b' with buf := b'.buf ++ c, readUntilCursor := cursor } ∧ c ≠ [] ∧
      b'.buf = b.buf ∧ b'.readUntilCursor = b.readUntilCursor := by
  rcases hb.cases with ⟨-, hpoll⟩ | ⟨script, hpoll, -⟩ |
    ⟨c', script, hne, hpoll, hrest, hplain, heof, hle⟩
  · rw [hpoll] at h
    cases h
  · rw [hpoll] at h
    cases h
  · rw [hpoll] at h
    cases h
    refine ⟨⟨⟨⟨script, rfl⟩, hplain, fun h => absurd (heof.symm.trans h) (by simp)⟩, ?_, rfl, hle⟩, hne,
      rfl, rfl⟩
    rw [view, view, hrest, ← List.append_assoc]
    rfl

theorem Plain.chunk_of_empty (hb : b.Plain) (h : b.pollStream = (.ready (some (.ok c)), b'))
    (hnil : b'.buf = []) : Left b b.view { b' with buf := c } := by
  obtain ⟨hleft, -⟩ := hb.chunk h b'.readUntilCursor
  rw [hnil, List.nil_append] at hleft
  exact hleft

theorem Plain.ends (hb : b.Plain) (h : b.pollStream = (.ready none, b')) :
    b.rest = [] ∧ Left b b.view b' ∧ b'.buf = b.buf ∧ b'.stream = some [] := by
  rcases hb.cases with ⟨hrest, hpoll⟩ | ⟨script, hpoll, -⟩ | ⟨c, script, -, hpoll, -⟩
  · rw [hpoll] at h
    cases h
    refine ⟨hrest, ⟨⟨⟨[], rfl⟩, fun a ha => absurd ha List.not_mem_nil, fun _ => rfl⟩, ?_, rfl,
      Nat.zero_le _⟩, rfl, rfl⟩
    rw [view, view, hrest]
    rfl
  · rw [hpoll] at h
    cases h
  · rw [hpoll] at h
    cases h

theorem Plain.not_error {e : Error ε} (hb : b.Plain)
    (h : b.pollStream = (.ready (some (.error e)), b')) : False := by
  rcases hb.cases with ⟨-, hpoll⟩ | ⟨script, hpoll, -⟩ | ⟨c, script, -, hpoll, -⟩
  · rw [hpoll] at h
    cases h
  · rw [hpoll] at h
    cases h
  · rw [hpoll] at h
    cases h

theorem Plain.view_of_eof (hb : b.Plain) (h : b.eof = true) : b.view = b.buf := by
  rw [view, rest, hb.ended h]
  exact List.append_nil _

theorem view_of_rest (h : b.rest = []) : b.view = b.buf := by
  rw [view, h, List.append_nil]

/-- The answer that a function of the text to come gives, with what is left of the text. -/
def Computes {α : Type} (b : StreamBuffer ε) (flat : Except (Error ε) (α × Bytes)) :
    Except (Error ε) α → StreamBuffer ε → Prop
  | .error e, _ => flat = .error e
  | .ok a, b' => ∃ text, flat = .ok (a, text) ∧ Left b text b'

theorem Computes.trans {α : Type} {flat : Except (Error ε) (α × Bytes)} {r : Except (Error ε) α}
    (h₁ : Left b mid b₁) (h₂ : Computes b₁ flat r b') : Computes b flat r b' := by
  cases r with
  | error e => exact h₂
  | ok a =>
    obtain ⟨text, hflat, hleft⟩ := h₂
    exact ⟨text, hflat, h₁.trans hleft⟩

/-- The buffer is filled, or the text to come is too short. -/
theorem ensureBufLen_yields (len : Nat) (b : StreamBuffer ε) (hb : b.Plain) :
    Yields (Waits b b.view)
      (fun r b' => match r with
        | .error e => e = .incompleteStream ∧ b.view.length < len
        | .ok () => Left b b.view b' ∧ len ≤ b'.buf.length)
      (ensureBufLen len b) := by
  fun_induction ensureBufLen len b with
  | case1 b hlt b₁ hpoll => exact (hb.pending hpoll).1
  | case2 b hlt chunk b₁ hpoll ih =>
    obtain ⟨hleft, -⟩ := hb.chunk hpoll b₁.readUntilCursor
    have h := ih hleft.plain
    rw [hleft.view] at h
    refine h.mono (fun b' hw => .trans hleft hw) fun r b' hr => ?_
    cases r with
    | error e => exact hr
    | ok u => exact ⟨hleft.trans hr.1, hr.2⟩
  | case3 b hlt e b₁ hpoll => exact (hb.not_error hpoll).elim
  | case4 b hlt b₁ hpoll =>
    obtain ⟨hrest, -⟩ := hb.ends hpoll
    rw [view_of_rest hrest]
    exact ⟨rfl, hlt⟩
  | case5 b hlt => exact ⟨hb.refl, Nat.le_of_not_lt hlt⟩

/-- The first bytes of the text to come are in the buffer. -/
theorem Left.take (h : Left b text b₁) {n : Nat} (hn : n ≤ b₁.buf.length) :
    b₁.buf.take n = text.take n := by
  rw [← h.view, StreamBuffer.view, List.take_append_of_le_length hn]

theorem Left.length_le (h : Left b text b₁) : b₁.buf.length ≤ text.length := by
  rw [← h.view, StreamBuffer.view, List.length_append]
  exact Nat.le_add_right _ _

theorem Left.headD (h : Left b text b₁) (hn : 1 ≤ b₁.buf.length) : b₁.buf.headD 0 = text.headD 0 := by
  rw [← h.view, StreamBuffer.view]
  cases hbuf : b₁.buf with
  | nil =>
    rw [hbuf] at hn
    cases hn
  | cons c buf => rfl

theorem consumeCrlf_yields (b : StreamBuffer ε) (hb : b.Plain) :
    Yields (Waits b b.view) (Computes b ((crlfNext b.view).map (Prod.mk ()))) b.consumeCrlf := by
  refine (ensureBufLen_yields 2 b hb).onReady (fun _ hw => hw) ?_ ?_
  · rintro e b' ⟨rfl, hlen⟩
    rw [Computes, crlfNext, if_pos hlen]
    rfl
  · rintro _ b' ⟨hleft, hlen⟩
    have hlong : ¬ b.view.length < 2 := Nat.not_lt.mpr (hlen.trans hleft.length_le)
    rw [hleft.take hlen]
    split
    · next hcrlf =>
      refine ⟨b.view.drop 2, ?_, hleft.drop hlen⟩
      rw [crlfNext, if_neg hlong, if_pos hcrlf]
      rfl
    · next hcrlf =>
      rw [Yields, Computes, crlfNext, if_neg hlong, if_neg hcrlf]
      rfl

/-- Padding at the front does not matter. -/
theorem paddingNext_dropWhile (buf more : Bytes) :
    paddingNext (ε := ε) (buf ++ more) = paddingNext (buf.dropWhile Bytes.isBlank ++ more) := by
  induction buf with
  | nil => rfl
  | cons c buf ih =>
    by_cases hc : Bytes.isBlank c = true
    · have hcr : c ≠ cr := by
        rintro rfl
        cases hc
      rw [List.dropWhile_cons_of_pos hc, List.cons_append, paddingNext, if_neg hcr, if_pos hc]
      exact ih
    · rw [List.dropWhile_cons_of_neg hc]

theorem paddingNext_cr {text : Bytes} (h : text.headD 0 = cr) :
    paddingNext (ε := ε) text = crlfNext text := by
  cases text with
  | nil => cases h
  | cons c text => exact if_pos h

theorem paddingNext_other {text : Bytes} (hne : 1 ≤ text.length) (hcr : text.headD 0 ≠ cr)
    (hpad : ¬ Bytes.isBlank (text.headD 0) = true) :
    paddingNext (ε := ε) text = .error .invalidFormat := by
  cases text with
  | nil => cases hne
  | cons c text => exact (if_neg hcr).trans (if_neg hpad)

/-- Padding may be consumed by a poll that is not ready: the text that is left has the same
meaning. -/
theorem consumePaddingAndCrlf_yields (b : StreamBuffer ε) (hb : b.Plain) :
    Yields (fun b' => ∃ text, Waits b text b' ∧ paddingNext (ε := ε) text = paddingNext b.view)
      (Computes b ((paddingNext b.view).map (Prod.mk ()))) b.consumePaddingAndCrlf := by
  fun_induction consumePaddingAndCrlf b with
  | case1 b b₁ hlen =>
    have h := ensureBufLen_yields 1 b hb
    rw [hlen] at h
    exact ⟨b.view, h, rfl⟩
  | case2 b e b₁ hlen =>
    have h := ensureBufLen_yields 1 b hb
    rw [hlen] at h
    obtain ⟨rfl, hshort⟩ := h
    have hnil : b.view = [] := List.eq_nil_of_length_eq_zero (by omega)
    rw [Yields, Computes, hnil]
    rfl
  | case3 b b₁ hlen hcr =>
    have h := ensureBufLen_yields 1 b hb
    rw [hlen] at h
    obtain ⟨hleft, hlong⟩ := h
    rw [hleft.headD hlong] at hcr
    have hcrlf := consumeCrlf_yields b₁ hleft.plain
    rw [hleft.view] at hcrlf
    rw [paddingNext_cr hcr]
    exact hcrlf.mono (fun b' hw => ⟨b.view, .trans hleft hw, paddingNext_cr hcr⟩)
      fun r b' hr => hr.trans hleft
  | case4 b b₁ hlen hcr hpad ih =>
    have h := ensureBufLen_yields 1 b hb
    rw [hlen] at h
    obtain ⟨hleft, -⟩ := h
    have hpadded := hleft.setBuf (b₁.buf.dropWhile Bytes.isBlank)
    have hsame : paddingNext (ε := ε) (view { b₁ with buf := b₁.buf.dropWhile Bytes.isBlank }) =
        paddingNext b.view := by
      rw [← hleft.view]
      exact (paddingNext_dropWhile b₁.buf b₁.rest).symm
    have h := ih hpadded.plain
    rw [hsame] at h
    refine h.mono (fun b' hw => ?_) fun r b' hr => hr.trans hpadded
    obtain ⟨text, hwaits, htext⟩ := hw
    exact ⟨text, .trans hpadded hwaits, htext⟩
  | case5 b b₁ hlen hcr hpad =>
    have h := ensureBufLen_yields 1 b hb
    rw [hlen] at h
    obtain ⟨hleft, hlong⟩ := h
    rw [hleft.headD hlong] at hcr hpad
    rw [Yields, Computes, paddingNext_other (hlong.trans hleft.length_le) hcr hpad]
    rfl

theorem Computes.error_of_map {α : Type} {next : Except (Error ε) Bytes} {g : Bytes → α × Bytes}
    {e : Error ε} (h : Computes b (next.map g) (.error e) b') : next = .error e := by
  cases next with
  | error e' =>
    cases h
    rfl
  | ok text => cases h

theorem Computes.ok_of_map {next : Except (Error ε) Bytes}
    (h : Computes b (next.map (Prod.mk ())) (.ok ()) b') : ∃ text, next = .ok text ∧ Left b text b' := by
  obtain ⟨text, hnext, hleft⟩ := h
  cases next with
  | error e => cases hnext
  | ok text' =>
    cases hnext
    exact ⟨text, rfl, hleft⟩

/-- A step that goes on to the headers of a part. -/
theorem Computes.toHeaders {next : Except (Error ε) Bytes}
    {r : Poll (Except (Error ε) Unit) × StreamBuffer ε} {wait : StreamBuffer ε → Prop}
    (h : Yields wait (Computes b (next.map (Prod.mk ()))) r) :
    Yields wait (Computes b (next.map fun text => (State.readingPartHeaders, text)))
      (onReady r fun _ b => (.ready (.ok .readingPartHeaders), b)) := by
  refine h.onReady (fun _ hw => hw) ?_ ?_
  · intro e b' herror
    rw [herror.error_of_map]
    rfl
  · intro _ b' hok
    obtain ⟨text, hnext, hleft⟩ := hok.ok_of_map
    rw [hnext]
    exact ⟨text, rfl, hleft⟩

/-- What follows a boundary is read as the text says. When padding has been consumed by a poll that
is not ready, what is left is known to be padding and a line end only by the text before it. -/
theorem advanceAfterBoundary_yields (b : StreamBuffer ε) (hb : b.Plain) :
    Yields
      (fun b' => ∃ text, Waits b text b' ∧ (text = b.view ∨
        Bytes.isBlank (b.view.headD 0) = true ∧ paddingNext (ε := ε) text = paddingNext b.view))
      (Computes b (boundaryNext b.view)) b.advanceAfterBoundary := by
  refine (ensureBufLen_yields 1 b hb).onReady (fun _ hw => ⟨b.view, hw, .inl rfl⟩) ?_ ?_
  · rintro e b' ⟨rfl, hlen⟩
    rw [Computes, boundaryNext, if_pos hlen]
  · rintro _ b₁ ⟨hleft, hlen⟩
    have hlong : ¬ b.view.length < 1 := Nat.not_lt.mpr (hlen.trans hleft.length_le)
    dsimp only
    rw [hleft.headD hlen, boundaryNext, if_neg hlong]
    split
    · have h := ensureBufLen_yields 2 b₁ hleft.plain
      rw [hleft.view] at h
      refine h.onReady (fun b' hw => ⟨b.view, .trans hleft hw, .inl rfl⟩) ?_ ?_
      · rintro e b' ⟨rfl, hshort⟩
        rw [Computes, if_pos hshort]
      · rintro _ b₂ ⟨hleft₂, hlen₂⟩
        have hlong₂ : ¬ b.view.length < 2 := Nat.not_lt.mpr (hlen₂.trans hleft₂.length_le)
        rw [hleft₂.take hlen₂, if_neg hlong₂]
        split
        · exact ⟨_, rfl, hleft.trans (hleft₂.drop hlen₂)⟩
        · rfl
    · split
      · next hblank =>
        have h := consumePaddingAndCrlf_yields b₁ hleft.plain
        rw [hleft.view] at h
        refine (Computes.toHeaders h).mono ?_ fun r b' hr => hr.trans hleft
        rintro b' ⟨text, hw, htext⟩
        exact ⟨text, .trans hleft hw, .inr ⟨hblank, htext⟩⟩
      · split
        · have h := consumeCrlf_yields b₁ hleft.plain
          rw [hleft.view] at h
          exact (Computes.toHeaders h).mono (fun b' hw => ⟨b.view, .trans hleft hw, .inl rfl⟩)
            fun r b' hr => hr.trans hleft
        · rfl

/-- Behind the closing delimiter nothing may follow. -/
theorem epilogue_yields (b : StreamBuffer ε) (hb : b.Plain) :
    Yields (Waits b b.view)
      (fun r _ => match r with
        | .error e => e = .streamPartNotLast ∧ b.view ≠ []
        | .ok () => b.view = [])
      b.epilogue := by
  unfold epilogue
  split
  · next hne =>
    refine ⟨rfl, fun hnil => ?_⟩
    rw [view, List.append_eq_nil_iff] at hnil
    rw [hnil.1] at hne
    cases hne
  · next hempty =>
    have hnil : b.buf = [] := by simpa using hempty
    split
    · next hpoll => exact (hb.pending hpoll).1
    · next hpoll =>
      rw [Yields, view_of_rest (hb.ends hpoll).1, hnil]
    · next c b₁ hpoll =>
      obtain ⟨hleft, hne, -⟩ := hb.chunk hpoll b₁.readUntilCursor
      refine ⟨rfl, fun hview => ?_⟩
      have h := hleft.view
      rw [hview, view, List.append_eq_nil_iff, List.append_eq_nil_iff] at h
      exact hne h.1.2
    · next hpoll => exact (hb.not_error hpoll).elim

/-- All but the tail that is kept may be forgotten where the needle has not been found. -/
theorem readTo_forget {needle buf : Bytes} (more : Bytes) (hfind : find needle buf = none)
    (hneedle : needle ≠ []) :
    afterFirst needle (buf ++ more) =
      afterFirst needle (buf.drop (buf.length - min (needle.length - 1) buf.length) ++ more) := by
  rw [afterFirst_of_find_eq_none hfind hneedle]
  congr 3
  omega

/-- What a reading of the preamble answers. -/
def ReadsTo (needle : Bytes) (b : StreamBuffer ε) :
    Except (Error ε) Unit → StreamBuffer ε → Prop
  | .error e, _ => e = .invalidFormat ∧ afterFirst needle b.view = none
  | .ok (), b' => ∃ text, afterFirst needle b.view = some text ∧ Left b text b'

theorem ReadsTo.trans {needle : Bytes} {r : Except (Error ε) Unit} (h : ReadsTo needle b₁ r b')
    (hleft : Left b mid b₁) (hsame : afterFirst needle b.view = afterFirst needle b₁.view) :
    ReadsTo needle b r b' := by
  rcases r with e | u
  · rw [ReadsTo, hsame]
    exact h
  · obtain ⟨text, htext, hleft'⟩ := h
    exact ⟨text, hsame.trans htext, hleft.trans hleft'⟩

theorem readTo_resumed {needle : Bytes} {r : Poll (Except (Error ε) Unit) × StreamBuffer ε}
    (hleft : Left b mid b₁) (hsame : afterFirst needle b.view = afterFirst needle b₁.view)
    (h : Yields
      (fun b' => ∃ text, Waits b₁ text b' ∧ afterFirst needle text = afterFirst needle b₁.view)
      (ReadsTo needle b₁) r) :
    Yields (fun b' => ∃ text, Waits b text b' ∧ afterFirst needle text = afterFirst needle b.view)
      (ReadsTo needle b) r := by
  rw [hsame]
  refine h.mono ?_ fun r b' hr => hr.trans hleft hsame
  rintro b' ⟨text, hw, htext⟩
  exact ⟨text, .trans hleft hw, htext⟩

/-- The text behind the first occurrence of the needle is found. -/
theorem pollReadTo_yields {needle : Bytes} (hneedle : needle ≠ []) (b : StreamBuffer ε)
    (hb : b.Plain) :
    Yields (fun b' => ∃ text, Waits b text b' ∧ afterFirst needle text = afterFirst needle b.view)
      (ReadsTo needle b) (pollReadTo needle b) := by
  fun_induction pollReadTo needle b with
  | case1 b idx hfind => exact ⟨_, afterFirst_append hfind, hb.refl.setBuf _⟩
  | case2 b hfind heof =>
    refine ⟨rfl, ?_⟩
    rw [hb.view_of_eof heof, afterFirst, hfind]
    rfl
  | case3 b hfind heof b₁ hpoll => exact ⟨b.view, (hb.pending hpoll).1, rfl⟩
  | case4 b hfind heof chunk b₁ hpoll hempty idx hchunk =>
    have hleft := hb.chunk_of_empty hpoll (by simpa using hempty)
    have hview : b.view = chunk ++ b₁.rest := hleft.view.symm
    refine ⟨chunk.drop (idx + needle.length) ++ b₁.rest, ?_, hleft.setBuf _⟩
    rw [hview]
    exact afterFirst_append hchunk
  | case5 b hfind heof chunk b₁ hpoll hempty hchunk keep ih =>
    have hleft := hb.chunk_of_empty hpoll (by simpa using hempty)
    have hsame := readTo_forget b₁.rest hchunk hneedle
    have hview : b.view = chunk ++ b₁.rest := hleft.view.symm
    rw [← hview] at hsame
    exact readTo_resumed (hleft.setBuf _) hsame (ih (hleft.setBuf _).plain)
  | case6 b hfind heof chunk b₁ hpoll hempty buf idx hchunk =>
    obtain ⟨hleft, -⟩ := hb.chunk hpoll b₁.readUntilCursor
    have hview : b.view = buf ++ b₁.rest := hleft.view.symm
    refine ⟨buf.drop (idx + needle.length) ++ b₁.rest, ?_, hleft.setBuf _⟩
    rw [hview]
    exact afterFirst_append hchunk
  | case7 b hfind heof chunk b₁ hpoll hempty buf hchunk keep ih =>
    obtain ⟨hleft, -⟩ := hb.chunk hpoll b₁.readUntilCursor
    have hsame := readTo_forget b₁.rest hchunk hneedle
    have hview : b.view = buf ++ b₁.rest := hleft.view.symm
    rw [← hview] at hsame
    exact readTo_resumed (hleft.setBuf _) hsame (ih (hleft.setBuf _).plain)
  | case8 b hfind heof e b₁ hpoll => exact (hb.not_error hpoll).elim
  | case9 b hfind heof b₁ hpoll =>
    refine ⟨rfl, ?_⟩
    rw [view_of_rest (hb.ends hpoll).1, afterFirst, hfind]
    rfl

/-- What a reading of data answers: the data up to the delimiter, data in which no delimiter starts,
or that the text to come is too short to hold one. -/
def ReadsData (delimiter : Bytes) (b : StreamBuffer ε) :
    Except (Error ε) DataChunk → StreamBuffer ε → Prop
  | .error e, _ =>
    e = .incompleteStream ∧ find delimiter b.view = none ∧ b.view.length < delimiter.length
  | .ok (.last data), b' => ∃ i, find delimiter b.view = some i ∧ data = b.view.take i ∧
    Left b (b.view.drop (i + delimiter.length)) b'
  | .ok (.more data), b' => data ≠ [] ∧ NoneBefore delimiter b.view data.length ∧
    ∃ text, b.view = data ++ text ∧ Left b text b'

theorem ReadsData.trans {delimiter : Bytes} {r : Except (Error ε) DataChunk}
    (hleft : Left b b.view b₁) (h : ReadsData delimiter b₁ r b') : ReadsData delimiter b r b' := by
  rcases r with e | (data | data)
  · rw [ReadsData, hleft.view] at h
    exact h
  · rw [ReadsData, hleft.view] at h
    obtain ⟨i, hfind, hdata, hleft'⟩ := h
    exact ⟨i, hfind, hdata, hleft.trans hleft'⟩
  · rw [ReadsData, hleft.view] at h
    obtain ⟨hne, hnone, text, hview, hleft'⟩ := h
    exact ⟨hne, hnone, text, hview, hleft.trans hleft'⟩

/-- Data with the delimiter in it. -/
theorem ReadsData.found {delimiter : Bytes} {index : Nat} (hleft : Left b b.view b₁)
    (h : searchData b₁.buf delimiter = .found index) :
    ReadsData delimiter b (.ok (.last (b₁.buf.take index)))
      { b₁ with buf := b₁.buf.drop (index + delimiter.length) } := by
  have hfind := searchData_found.mp h
  have hlen := find_length_le hfind
  have hview : find delimiter b.view = some index := by
    rw [← hleft.view]
    exact find_append hfind
  exact ⟨index, hview, hleft.take (by omega), hleft.drop hlen⟩

/-- Data without the delimiter. -/
theorem ReadsData.emit {delimiter : Bytes} {stop : Nat} (hne : delimiter ≠ [])
    (hleft : Left b b.view b₁) (h : searchData b₁.buf delimiter = .emit stop) :
    ReadsData delimiter b (.ok (.more (b₁.buf.take stop))) { b₁ with buf := b₁.buf.drop stop } := by
  obtain ⟨-, hpos, hle, -, hnone⟩ := searchData_emit hne h
  have hlen : (b₁.buf.take stop).length = stop := by
    rw [List.length_take]
    omega
  refine ⟨List.ne_nil_of_length_pos (by omega), ?_, b.view.drop stop, ?_, hleft.drop hle⟩
  · rw [hlen, ← hleft.view]
    exact hnone b₁.rest
  · rw [hleft.take hle, List.take_append_drop]

/-- The data of a part is read as the text says. -/
theorem dataChunkLoop_yields {delimiter : Bytes} (hne : delimiter ≠ []) (b : StreamBuffer ε)
    (hb : b.Plain) :
    Yields (Waits b b.view) (ReadsData delimiter b) (dataChunkLoop delimiter b) := by
  fun_induction dataChunkLoop delimiter b with
  | case1 b index hfound => exact .found hb.refl (searchBuffered_found hfound)
  | case2 b stop hemit => exact .emit hne hb.refl (searchBuffered_emit hemit)
  | case3 b hkeep b₁ hpoll => exact (hb.pending hpoll).1
  | case4 b hkeep chunk b₁ hpoll hfull ih =>
    obtain ⟨hleft, -⟩ := hb.chunk hpoll b₁.readUntilCursor
    have h := ih hleft.plain
    rw [hleft.view] at h
    exact h.mono (fun b' hw => .trans hleft hw) fun r b' hr => hr.trans hleft
  | case5 b hkeep chunk b₁ hpoll hempty index hfound =>
    have hleft := hb.chunk_of_empty hpoll (by simpa using hempty)
    exact .found hleft hfound
  | case6 b hkeep chunk b₁ hpoll hempty stop hemit =>
    have hnil : b₁.buf = [] := by simpa using hempty
    have hleft := hb.chunk_of_empty hpoll hnil
    rw [hnil, List.nil_append]
    exact .emit hne hleft hemit
  | case7 b hkeep chunk b₁ hpoll hempty hall ih =>
    obtain ⟨hleft, -⟩ := hb.chunk hpoll b₁.readUntilCursor
    have h := ih hleft.plain
    rw [hleft.view] at h
    exact h.mono (fun b' hw => .trans hleft hw) fun r b' hr => hr.trans hleft
  | case8 b hkeep e b₁ hpoll => exact (hb.not_error hpoll).elim
  | case9 b hkeep b₁ hpoll =>
    obtain ⟨hfind, hshort⟩ := searchBuffered_keepAll hne hkeep
    rw [Yields, ReadsData, view_of_rest (hb.ends hpoll).1]
    exact ⟨rfl, hfind, hshort⟩

end StreamBuffer
end S3s.FormData
