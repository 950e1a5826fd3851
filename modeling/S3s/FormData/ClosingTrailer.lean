import S3s.FormData.PartStream
import S3s.FormData.Waiting

/-! # The closing trailer

The strict stream reads the closing mark, padding and a line end behind the
delimiter, and then only the end of the stream. It can be resumed at each of the
steps, and says that the body is closed exactly when it is.
-/
namespace S3s.FormData
open Polling Search

variable {ε : Type}

/-- What stands behind the delimiter of the last part: the closing mark, padding and a line end. -/
def Closed (text : Bytes) : Prop :=
  ∃ pad : Bytes, (∀ c ∈ pad, Bytes.isBlank c = true) ∧ text = ascii "--" ++ pad ++ crlf

theorem crlfNext_eq_ok {text rest : Bytes} :
    crlfNext (ε := ε) text = .ok rest ↔ text = crlf ++ rest := by
  constructor
  · intro h
    unfold crlfNext at h
    split at h
    · cases h
    · split at h
      · next hcrlf =>
        cases h
        rw [← hcrlf, List.take_append_drop]
      · cases h
  · rintro rfl
    rfl

theorem paddingNext_eq_ok {text rest : Bytes} :
    paddingNext (ε := ε) text = .ok rest ↔
      ∃ pad : Bytes, (∀ c ∈ pad, Bytes.isBlank c = true) ∧ text = pad ++ crlf ++ rest := by
  constructor
  · intro h
    induction text with
    | nil => cases h
    | cons c text ih =>
      rw [paddingNext] at h
      split at h
      · exact ⟨[], fun c hc => absurd hc List.not_mem_nil, crlfNext_eq_ok.mp h⟩
      · split at h
        · next hblank =>
          obtain ⟨pad, hpad, rfl⟩ := ih h
          refine ⟨c :: pad, fun c' hc' => ?_, rfl⟩
          rcases List.mem_cons.mp hc' with rfl | hmem
          · exact hblank
          · exact hpad c' hmem
        · cases h
  · rintro ⟨pad, hpad, rfl⟩
    induction pad with
    | nil => rfl
    | cons c pad ih =>
      have hblank := hpad c (List.mem_cons_self ..)
      have hcr : c ≠ cr := fun h => by
        rw [h] at hblank
        cases hblank
      have hrest := ih fun c' hc' => hpad c' (List.mem_cons_of_mem _ hc')
      exact (if_neg hcr).trans ((if_pos hblank).trans hrest)

namespace StreamBuffer

variable {b b' b₁ : StreamBuffer ε}

/-- `fill_buf` differs from `poll_ensure_buf_len` in what it says of a stream that has ended. -/
theorem fillBuf_cases (len : Nat) (b : StreamBuffer ε) :
    fillBuf len b = ensureBufLen len b ∨
      ∃ b', fillBuf len b = (.ready (.error .incompleteStreamPart), b') ∧
        ensureBufLen len b = (.ready (.error .incompleteStream), b') := by
  fun_induction fillBuf len b with
  | case1 b hlt b₁ hpoll =>
    rw [ensureBufLen_eq, if_pos hlt, hpoll]
    exact .inl rfl
  | case2 b hlt chunk b₁ hpoll ih =>
    rw [ensureBufLen_eq, if_pos hlt, hpoll]
    exact ih
  | case3 b hlt e b₁ hpoll =>
    rw [ensureBufLen_eq, if_pos hlt, hpoll]
    exact .inl rfl
  | case4 b hlt b₁ hpoll =>
    rw [ensureBufLen_eq, if_pos hlt, hpoll]
    exact .inr ⟨b₁, rfl, rfl⟩
  | case5 b hlt =>
    rw [ensureBufLen_eq, if_neg hlt]
    exact .inl rfl

theorem fillBuf_yields (len : Nat) (b : StreamBuffer ε) (hb : b.Plain) :
    Yields (Waits b b.view)
      (fun r b' => match r with
        | .error _ => b.view.length < len
        | .ok () => Left b b.view b' ∧ len ≤ b'.buf.length)
      (fillBuf len b) := by
  have h := ensureBufLen_yields len b hb
  rcases fillBuf_cases len b with heq | ⟨b', heq, heq'⟩
  · rw [heq]
    refine h.mono (fun _ hw => hw) ?_
    rintro (e | u) b' hr
    · exact hr.2
    · exact hr
  · rw [heq'] at h
    rw [heq]
    exact h.2

theorem closeMark_yields (b : StreamBuffer ε) (hb : b.Plain) :
    Yields (Waits b b.view)
      (fun r b' => match r with
        | .error _ => ∀ text, b.view ≠ ascii "--" ++ text
        | .ok () => ∃ text, b.view = ascii "--" ++ text ∧ Left b text b')
      b.closeMark := by
  refine (fillBuf_yields 2 b hb).onReady (fun _ hw => hw) ?_ ?_
  · intro e b' hlen text htext
    rw [htext, List.length_append] at hlen
    have hshort : (ascii "--").length + text.length < 2 := hlen
    have hmark : (ascii "--").length = 2 := rfl
    omega
  · rintro _ b' ⟨hleft, hlen⟩
    have htake := hleft.take hlen
    split
    · next hmark =>
      refine ⟨b.view.drop 2, ?_, hleft.drop hlen⟩
      rw [← hmark, htake, List.take_append_drop]
    · next hmark =>
      have hnot : ∀ text, b.view ≠ ascii "--" ++ text := by
        intro text htext
        rw [htake, htext] at hmark
        exact hmark rfl
      split
      · exact hnot
      · exact hnot

/-- Padding that has been skipped does not come back. -/
theorem skipPadding_yields (b : StreamBuffer ε) (hb : b.Plain) :
    Yields (fun b' => ∃ text, Waits b text b' ∧ paddingNext (ε := ε) text = paddingNext b.view)
      (fun r b' => match r with
        | .error _ => ∀ text, paddingNext (ε := ε) b.view ≠ .ok text
        | .ok () => ∃ text, Left b text b' ∧ paddingNext (ε := ε) text = paddingNext b.view ∧
          text.headD 0 = cr)
      b.skipPadding := by
  fun_induction skipPadding b with
  | case1 b b₁ hfill =>
    have h := fillBuf_yields 1 b hb
    rw [hfill] at h
    exact ⟨b.view, h, rfl⟩
  | case2 b e b₁ hfill =>
    have h := fillBuf_yields 1 b hb
    rw [hfill] at h
    have hnil : b.view = [] := List.length_eq_zero_iff.mp (Nat.lt_one_iff.mp h)
    intro text
    rw [hnil]
    nofun
  | case3 b b₁ hfill hpad ih =>
    have h := fillBuf_yields 1 b hb
    rw [hfill] at h
    obtain ⟨hleft, hlen⟩ := h
    have hdrop := hleft.drop hlen
    have hsame : paddingNext (ε := ε) (b.view.drop 1) = paddingNext b.view := by
      rw [hleft.headD hlen] at hpad
      cases hview : b.view with
      | nil =>
        rw [hview] at hpad
        cases hpad
      | cons c text =>
        rw [hview] at hpad
        have hcr : c ≠ cr := fun h => by
          rw [h] at hpad
          cases hpad
        exact ((if_neg hcr).trans (if_pos hpad)).symm
    have hrest := ih hdrop.plain
    rw [hdrop.view, hsame] at hrest
    refine hrest.mono ?_ ?_
    · rintro b' ⟨text, hwaits, htext⟩
      exact ⟨text, .trans hdrop hwaits, htext⟩
    · rintro (e | u) b' hr
      · exact hr
      · obtain ⟨text, hleft', htext⟩ := hr
        exact ⟨text, hdrop.trans hleft', htext⟩
  | case4 b b₁ hfill hpad hcr =>
    have h := fillBuf_yields 1 b hb
    rw [hfill] at h
    obtain ⟨hleft, hlen⟩ := h
    rw [hleft.headD hlen] at hcr
    exact ⟨b.view, hleft, rfl, hcr⟩
  | case5 b b₁ hfill hpad hcr =>
    have h := fillBuf_yields 1 b hb
    rw [hfill] at h
    obtain ⟨hleft, hlen⟩ := h
    rw [hleft.headD hlen] at hcr hpad
    intro text
    rw [paddingNext_other (hlen.trans hleft.length_le) hcr hpad]
    nofun

theorem finalCrlf_yields (b : StreamBuffer ε) (hb : b.Plain) :
    Yields (fun b' => ∃ text, Waits b text b' ∧ paddingNext (ε := ε) text = paddingNext b.view)
      (fun r b' => match r with
        | .error _ => ∀ text, paddingNext (ε := ε) b.view ≠ .ok text
        | .ok () => ∃ text, Left b text b' ∧ paddingNext (ε := ε) b.view = .ok text)
      b.finalCrlf := by
  refine (skipPadding_yields b hb).onReady (fun _ hw => hw) (fun _ _ hr => hr) ?_
  rintro _ b₁ ⟨text, hleft, htext, hcr⟩
  obtain rfl := hleft.view
  rw [← htext, paddingNext_cr hcr]
  refine (fillBuf_yields 2 b₁ hleft.plain).onReady ?_ ?_ ?_
  · intro b' hw
    exact ⟨b₁.view, .trans hleft hw, paddingNext_cr hcr⟩
  · intro e b' hshort text hnext
    rw [crlfNext, if_pos hshort] at hnext
    cases hnext
  · rintro _ b' ⟨hleft', hlen⟩
    have htake := hleft'.take hlen
    have hlong : ¬ b₁.view.length < 2 := Nat.not_lt.mpr (hlen.trans hleft'.length_le)
    split
    · next hcrlf =>
      rw [htake] at hcrlf
      refine ⟨b₁.view.drop 2, hleft.trans (hleft'.drop hlen), ?_⟩
      rw [crlfNext, if_neg hlong, if_pos hcrlf]
    · next hcrlf =>
      rw [htake] at hcrlf
      intro text hnext
      rw [crlfNext, if_neg hlong, if_neg hcrlf] at hnext
      cases hnext

theorem skipPadding_spends (b : StreamBuffer ε) : Spends b b.skipPadding := by
  fun_induction skipPadding b with
  | case1 b b₁ hfill =>
    have h := fillBuf_spends 1 b
    rwa [hfill] at h
  | case2 b e b₁ hfill =>
    have h := fillBuf_spends 1 b
    rwa [hfill] at h
  | case3 b b₁ hfill hpad ih =>
    have h := fillBuf_spends 1 b
    rw [hfill] at h
    exact ih.mono ((b₁.weight_drop_le 1).trans h)
  | case4 b b₁ hfill hpad hcr =>
    have h := fillBuf_spends 1 b
    rwa [hfill] at h
  | case5 b b₁ hfill hpad hcr =>
    have h := fillBuf_spends 1 b
    rwa [hfill] at h

theorem closeMark_spends (b : StreamBuffer ε) : Spends b b.closeMark := by
  refine (fillBuf_spends 2 b).onReady fun _ b => ?_
  split
  · exact b.weight_drop_le 2
  · split
    · exact le_refl _
    · exact le_refl _

theorem finalCrlf_spends (b : StreamBuffer ε) : Spends b b.finalCrlf := by
  refine (skipPadding_spends b).onReady fun _ b => (fillBuf_spends 2 b).onReady fun _ b => ?_
  split
  · exact b.weight_drop_le 2
  · exact le_refl _

theorem epilogue_spends (b : StreamBuffer ε) : Spends b b.epilogue := by
  unfold epilogue
  split
  · exact le_refl _
  · have hle := b.pollStream_weight_le
    rcases hpoll : b.pollStream with ⟨_ | (_ | (e | chunk)), b'⟩ <;> rw [hpoll] at hle
    · exact pollStream_pending_weight hpoll
    · exact hle
    · exact hle
    · exact hle

end StreamBuffer

namespace FinalPartDataStream

variable {f f' : FinalPartDataStream ε}

/-- An arm of the trailer does what its step on the buffer does. -/
theorem trailerStep_yields
    {step : StreamBuffer ε → Poll (Except (Error ε) Unit) × StreamBuffer ε} {state : DataState}
    {wait : StreamBuffer ε → Prop} {post : Except (Error ε) Unit → StreamBuffer ε → Prop}
    (h : Yields wait post (step f.buffer)) :
    Yields (fun f' => ∃ b', wait b' ∧ f' = { f with buffer := b' })
      (fun r f' => ∃ b', post r b' ∧
        (r = .ok () → f' = { f with buffer := b', state := state }))
      (f.trailerStep step state) := by
  unfold trailerStep
  rcases hstep : step f.buffer with ⟨_ | (e | u), b'⟩
  · rw [hstep] at h
    exact ⟨b', h, rfl⟩
  · rw [hstep] at h
    exact ⟨b', h, nofun⟩
  · rw [hstep] at h
    exact ⟨b', h, fun _ => rfl⟩

/-- The text to come closes the body. -/
def Closing (f : FinalPartDataStream ε) : Prop :=
  match f.state with
  | .data => False
  | .afterBoundary => Closed f.buffer.view
  | .finalCrlf => paddingNext (ε := ε) f.buffer.view = .ok []
  | .eof => f.buffer.view = []
  | .done => True

/-- What a wait in the trailer leaves. -/
structure AwaitsTrailer (f f' : FinalPartDataStream ε) : Prop where
  plain : f'.buffer.Plain
  closing : f'.Closing ↔ f.Closing
  going : f'.terminated = f.terminated
  trailer : f'.state ≠ .data
  pendings : f'.buffer.pendings < f.buffer.pendings

theorem pollEof_yields (hb : f.buffer.Plain) (hstate : f.state = .eof) :
    Yields (AwaitsTrailer f) (fun r _ => r = .ok () ↔ f.Closing) f.pollEof := by
  have hclosing : f.Closing ↔ f.buffer.view = [] := by rw [Closing, hstate]
  refine (trailerStep_yields (StreamBuffer.epilogue_yields f.buffer hb)).mono ?_ ?_
  · rintro f' ⟨b', ⟨hleft, hless⟩, rfl⟩
    refine ⟨hleft.plain, ?_, rfl, by rw [hstate]; nofun, hless⟩
    rw [hclosing, Closing, hstate]
    exact iff_of_eq (congrArg (· = []) hleft.view)
  · rintro (e | u) f' ⟨b', hpost, -⟩
    · rw [hclosing]
      exact iff_of_false nofun hpost.2
    · rw [hclosing]
      exact iff_of_true rfl hpost

theorem AwaitsTrailer.trans {f₁ : FinalPartDataStream ε} (h : AwaitsTrailer f₁ f')
    (hclosing : f₁.Closing ↔ f.Closing) (hgoing : f₁.terminated = f.terminated)
    (hpendings : f₁.buffer.pendings ≤ f.buffer.pendings) : AwaitsTrailer f f' :=
  ⟨h.plain, h.closing.trans hclosing, h.going.trans hgoing, h.trailer, h.pendings.trans_le hpendings⟩

theorem pollFinalCrlf_yields (hb : f.buffer.Plain) (hstate : f.state = .finalCrlf) :
    Yields (AwaitsTrailer f) (fun r _ => r = .ok () ↔ f.Closing) f.pollFinalCrlf := by
  have hclosing : f.Closing ↔ paddingNext (ε := ε) f.buffer.view = .ok [] := by rw [Closing, hstate]
  refine (trailerStep_yields (StreamBuffer.finalCrlf_yields f.buffer hb)).onReady ?_ ?_ ?_
  · rintro f' ⟨b', ⟨text, ⟨hleft, hless⟩, htext⟩, rfl⟩
    obtain rfl := hleft.view
    refine ⟨hleft.plain, ?_, rfl, by rw [hstate]; nofun, hless⟩
    rw [hclosing, Closing, hstate]
    exact iff_of_eq (congrArg (· = .ok []) htext)
  · rintro e f' ⟨b', hpost, -⟩
    rw [hclosing]
    exact iff_of_false nofun (hpost [])
  · rintro ⟨⟩ f₁ ⟨b₁, ⟨text, hleft, htext⟩, hf₁⟩
    obtain rfl := hf₁ rfl
    have hsame : Closing { f with buffer := b₁, state := .eof } ↔ f.Closing := by
      rw [hclosing, htext, Closing]
      dsimp only
      rw [hleft.view, Except.ok.injEq]
    refine (pollEof_yields (f := { f with buffer := b₁, state := .eof }) hleft.plain rfl).mono ?_ ?_
    · exact fun f' hf' => hf'.trans hsame rfl hleft.pendings
    · exact fun r f' hr => hr.trans hsame

theorem closed_iff {text : Bytes} :
    Closed text ↔ ∃ rest, text = ascii "--" ++ rest ∧ paddingNext (ε := ε) rest = .ok [] := by
  constructor
  · rintro ⟨pad, hpad, rfl⟩
    refine ⟨pad ++ crlf, List.append_assoc _ _ _, paddingNext_eq_ok.mpr ⟨pad, hpad, ?_⟩⟩
    rw [List.append_nil]
  · rintro ⟨rest, rfl, hrest⟩
    obtain ⟨pad, hpad, rfl⟩ := paddingNext_eq_ok.mp hrest
    refine ⟨pad, hpad, ?_⟩
    rw [List.append_nil, List.append_assoc]

theorem pollTrailer_yields (hb : f.buffer.Plain) (hstate : f.state ≠ .data) :
    Yields (AwaitsTrailer f) (fun r _ => r = .ok () ↔ f.Closing) f.pollTrailer := by
  unfold pollTrailer
  cases hwhere : f.state with
  | data => exact (hstate hwhere).elim
  | done =>
    have hclosing : f.Closing := by
      rw [Closing, hwhere]
      trivial
    exact iff_of_true rfl hclosing
  | eof => exact pollEof_yields hb hwhere
  | finalCrlf => exact pollFinalCrlf_yields hb hwhere
  | afterBoundary =>
    have hclosing : f.Closing ↔ Closed f.buffer.view := by rw [Closing, hwhere]
    refine (trailerStep_yields (StreamBuffer.closeMark_yields f.buffer hb)).onReady ?_ ?_ ?_
    · rintro f' ⟨b', ⟨hleft, hless⟩, rfl⟩
      refine ⟨hleft.plain, ?_, rfl, by rw [hwhere]; nofun, hless⟩
      rw [hclosing, Closing, hwhere]
      exact iff_of_eq (congrArg Closed hleft.view)
    · rintro e f' ⟨b', hpost, -⟩
      rw [hclosing, closed_iff (ε := ε)]
      exact iff_of_false nofun fun ⟨rest, hrest, _⟩ => hpost rest hrest
    · rintro ⟨⟩ f₁ ⟨b₁, ⟨text, htext, hleft⟩, hf₁⟩
      obtain rfl := hf₁ rfl
      have hsame : Closing { f with buffer := b₁, state := .finalCrlf } ↔ f.Closing := by
        rw [hclosing, closed_iff (ε := ε), htext, Closing]
        dsimp only
        rw [hleft.view]
        constructor
        · exact fun h => ⟨text, rfl, h⟩
        · rintro ⟨rest, hrest, h⟩
          rwa [List.append_cancel_left hrest]
      refine (pollFinalCrlf_yields (f := { f with buffer := b₁, state := .finalCrlf }) hleft.plain
        rfl).mono ?_ ?_
      · exact fun f' hf' => hf'.trans hsame rfl hleft.pendings
      · exact fun r f' hr => hr.trans hsame

/-- A wait in the trailer, whatever the stream carries. -/
structure Spent (f f' : FinalPartDataStream ε) : Prop where
  weight : f'.buffer.weight < f.buffer.weight
  going : f'.terminated = f.terminated
  trailer : f'.state ≠ .data

theorem Spent.trans {f₁ : FinalPartDataStream ε} (h : Spent f₁ f')
    (hweight : f₁.buffer.weight ≤ f.buffer.weight) (hgoing : f₁.terminated = f.terminated) :
    Spent f f' :=
  ⟨h.weight.trans_le hweight, h.going.trans hgoing, h.trailer⟩

/-- An arm of the trailer that goes on to the next one. -/
theorem trailerStep_spends
    {step : StreamBuffer ε → Poll (Except (Error ε) Unit) × StreamBuffer ε} {state : DataState}
    {k : Unit → FinalPartDataStream ε → Poll (Except (Error ε) Unit) × FinalPartDataStream ε}
    (hstate : f.state ≠ .data) (h : ∀ b : StreamBuffer ε, b.Spends (step b))
    (hk : ∀ f₁ : FinalPartDataStream ε, f₁.state = state →
      Yields (Spent f₁) (fun _ _ => True) (k () f₁)) :
    Yields (Spent f) (fun _ _ => True) (onReady (f.trailerStep step state) k) := by
  refine (trailerStep_yields (h f.buffer)).onReady ?_ (fun _ _ _ => trivial) ?_
  · rintro f' ⟨b', hless, rfl⟩
    exact ⟨hless, rfl, hstate⟩
  · rintro ⟨⟩ f₁ ⟨b₁, hle, hf₁⟩
    obtain rfl := hf₁ rfl
    exact (hk _ rfl).mono (fun f' hf' => hf'.trans hle rfl) fun _ _ _ => trivial

theorem pollTrailer_spends (hstate : f.state ≠ .data) :
    Yields (Spent f) (fun _ _ => True) f.pollTrailer := by
  have heof : ∀ f₁ : FinalPartDataStream ε, f₁.state = .eof →
      Yields (Spent f₁) (fun _ _ => True) f₁.pollEof := by
    intro f₁ hf₁
    refine (trailerStep_yields (StreamBuffer.epilogue_spends f₁.buffer)).mono ?_ fun _ _ _ => trivial
    rintro f' ⟨b', hless, rfl⟩
    exact ⟨hless, rfl, by rw [hf₁]; nofun⟩
  have hcrlf : ∀ f₁ : FinalPartDataStream ε, f₁.state = .finalCrlf →
      Yields (Spent f₁) (fun _ _ => True) f₁.pollFinalCrlf := fun f₁ hf₁ =>
    trailerStep_spends (by rw [hf₁]; nofun) StreamBuffer.finalCrlf_spends heof
  unfold pollTrailer
  cases hwhere : f.state with
  | data => exact (hstate hwhere).elim
  | done => trivial
  | eof => exact heof f hwhere
  | finalCrlf => exact hcrlf f hwhere
  | afterBoundary => exact trailerStep_spends hstate StreamBuffer.closeMark_spends hcrlf

/-- Behind the data, the stream is polled for its trailer. -/
theorem pollNext_trailer {wait : FinalPartDataStream ε → Prop}
    {post : Except (Error ε) Unit → FinalPartDataStream ε → Prop} (hgoing : f.terminated = false)
    (hstate : f.state ≠ .data) (h : Yields wait post f.pollTrailer) :
    Yields wait (fun r _ => ∃ u f', post u f' ∧ r = u.map fun _ => none) (asking pollNext f) := by
  have hend : Yields wait (fun r _ => ∃ u f', post u f' ∧ r = u.map fun _ => none)
      (asking pollEnd f) := by
    unfold asking pollEnd
    rcases htrailer : f.pollTrailer with ⟨_ | (e | u), f₁⟩ <;> rw [htrailer] at h
    · exact h
    · exact ⟨.error e, f₁, h, rfl⟩
    · exact ⟨.ok (), f₁, h, rfl⟩
  have hgo : ¬ f.terminated = true := by simp [hgoing]
  cases hwhere : f.state with
  | data => exact (hstate hwhere).elim
  | done =>
    rw [pollTrailer, hwhere] at h
    rw [asking, pollNext, if_neg hgo, hwhere]
    exact ⟨.ok (), f, h, rfl⟩
  | eof => rwa [asking, pollNext, if_neg hgo, hwhere]
  | finalCrlf => rwa [asking, pollNext, if_neg hgo, hwhere]
  | afterBoundary => rwa [asking, pollNext, if_neg hgo, hwhere]

/-- The strict stream ends behind the delimiter, without an error when the body is closed there and
only then. -/
theorem trailer_drains (hgoing : f.terminated = false) (hstate : f.state ≠ .data) :
    ∃ r f', Drains (asking pollNext) f [] r f' ∧ (f.buffer.Plain → (r = .ok () ↔ f.Closing)) := by
  obtain ⟨r, f', hsettles, u, rfl⟩ := Settles.of_yields
    (P := fun f => f.terminated = false ∧ f.state ≠ .data)
    (Q := fun r _ => ∃ u : Except (Error ε) Unit, r = u.map fun _ => none)
    (fun f => f.buffer.weight)
    (fun f hf => (pollNext_trailer hf.1 hf.2 (pollTrailer_spends hf.2)).mono
      (fun f' hf' => ⟨hf'.weight, hf'.going.trans hf.1, hf'.trailer⟩)
      fun r f' ⟨u, _, _, hr⟩ => ⟨u, hr⟩) f ⟨hgoing, hstate⟩
  refine ⟨u, f', ?_, fun hb => ?_⟩
  · cases u with
    | error e => exact .failed hsettles
    | ok u => exact .done hsettles
  · have hlast := hsettles.invariant
      (P := fun f₁ => f₁.buffer.Plain ∧ f₁.terminated = false ∧ f₁.state ≠ .data ∧
        (f₁.Closing ↔ f.Closing))
      (Q := fun r _ => r = .ok none ↔ f.Closing) (fun f₁ f₂ hf₁ hpoll => ?_)
      (fun f₁ r f₂ hf₁ hpoll => ?_) ⟨hb, hgoing, hstate, Iff.rfl⟩
    · rw [← hlast]
      cases u with
      | error e => exact iff_of_false nofun nofun
      | ok u => exact iff_of_true rfl rfl
    · obtain ⟨hplain, hgoing₁, hstate₁, hclosing⟩ := hf₁
      have hyields := pollNext_trailer hgoing₁ hstate₁ (pollTrailer_yields hplain hstate₁)
      rw [hpoll] at hyields
      exact ⟨hyields.plain, hyields.going.trans hgoing₁, hyields.trailer,
        hyields.closing.trans hclosing⟩
    · obtain ⟨hplain, hgoing₁, hstate₁, hclosing⟩ := hf₁
      have hyields := pollNext_trailer hgoing₁ hstate₁ (pollTrailer_yields hplain hstate₁)
      rw [hpoll] at hyields
      obtain ⟨u, f', hu, rfl⟩ := hyields
      rw [← hclosing, ← hu]
      cases u with
      | error e => exact iff_of_false nofun nofun
      | ok u => exact iff_of_true rfl rfl

end FinalPartDataStream
end S3s.FormData
