import S3s.FormData.Waiting

/-! # Padding behind a boundary

Padding is consumed before the line end has arrived. When the stream is not ready
right behind it, the step behind a boundary is entered again from its first byte,
and a dash that comes next is taken for the closing mark.
-/
namespace S3s.FormData
open Polling Search

variable {ε : Type}

namespace StreamBuffer

/-- The text behind padding, when it starts with a dash and the stream is not ready right before it:
the answers to come, and whether there has been padding already. -/
def strayScript (padded : Bool) : Script ε → Option Bytes
  | [] => none
  | .pending :: script =>
    if padded && decide ((script.flatMap answerBytes).headD 0 = 45) then
      some (script.flatMap answerBytes)
    else strayScript padded script
  | .ready (some (.ok bytes)) :: script =>
    if bytes.all Bytes.isBlank then strayScript true script else none
  | .ready _ :: _ => none

/-- The text behind a boundary and padding that a step which is entered again starts with. -/
def stray (b : StreamBuffer ε) : Option Bytes :=
  if b.buf.all Bytes.isBlank then strayScript (!b.buf.isEmpty) (b.stream.getD []) else none

/-- How the reading of a body ends that goes on behind a boundary with this text. -/
def endsWith (text : Bytes) : Except (Error ε) Unit :=
  match boundaryNext text with
  | .error e => .error e
  | .ok (_, rest) => closingNext rest

/-- Behind this boundary the reading ends in another way than at the padding. -/
def Misread (b : StreamBuffer ε) : Prop :=
  ∃ rest, b.stray = some rest ∧ endsWith (ε := ε) rest ≠ .error .invalidFormat

variable {b b' b₁ : StreamBuffer ε}

theorem strayScript_dash {padded : Bool} {script : Script ε} {rest : Bytes}
    (h : strayScript padded script = some rest) : rest.headD 0 = 45 := by
  fun_induction strayScript padded script with
  | case1 padded => cases h
  | case2 padded script hdash =>
    cases h
    simp only [Bool.and_eq_true, decide_eq_true_eq] at hdash
    exact hdash.2
  | case3 padded script hdash ih => exact ih h
  | case4 padded bytes script hblank ih => exact ih h
  | case5 padded bytes script hblank => cases h
  | case6 => cases h

/-- The answers to come carry padding, and then the text. -/
theorem strayScript_text {padded : Bool} {script : Script ε} {rest : Bytes}
    (hplain : ∀ a ∈ script, PlainAnswer a) (h : strayScript padded script = some rest) :
    ∃ padding, padding.all Bytes.isBlank = true ∧ script.flatMap answerBytes = padding ++ rest ∧
      (padded = false → padding ≠ []) := by
  fun_induction strayScript padded script with
  | case1 padded => cases h
  | case2 padded script hdash =>
    cases h
    refine ⟨[], rfl, rfl, ?_⟩
    rintro rfl
    cases hdash
  | case3 padded script hdash ih => exact ih (fun a ha => hplain a (List.mem_cons_of_mem _ ha)) h
  | case4 padded bytes script hblank ih =>
    have hne : bytes ≠ [] := hplain _ (List.mem_cons_self ..)
    obtain ⟨padding, hall, htext, -⟩ := ih (fun a ha => hplain a (List.mem_cons_of_mem _ ha)) h
    refine ⟨bytes ++ padding, ?_, ?_, fun _ => ?_⟩
    · rw [List.all_append, hblank, hall]
      rfl
    · rw [List.flatMap_cons, htext, List.append_assoc]
      rfl
    · simp [hne]
  | case5 padded bytes script hblank => cases h
  | case6 => cases h

/-- Without a dash next, it does not matter whether there has been padding. -/
theorem strayScript_start {script : Script ε} (h : (script.flatMap answerBytes).headD 0 ≠ 45) :
    strayScript true script = strayScript false script := by
  induction script with
  | nil => rfl
  | cons a script ih =>
    rcases a with _ | (_ | (e | bytes))
    · have hnext : (script.flatMap answerBytes).headD 0 ≠ 45 := h
      rw [strayScript, strayScript, if_neg (by simpa using hnext), if_neg (by simp)]
      exact ih hnext
    · rfl
    · rfl
    · rfl

/-- The text behind the boundary: padding, and then the stray text. -/
theorem stray_text (hb : b.Plain) {rest : Bytes} (h : b.stray = some rest) :
    rest.headD 0 = 45 ∧ ∃ padding, padding.all Bytes.isBlank = true ∧ padding ≠ [] ∧
      b.view = padding ++ rest := by
  unfold stray at h
  split at h
  · next hblank =>
    refine ⟨strayScript_dash h, ?_⟩
    obtain ⟨padding, hall, htext, hne⟩ := strayScript_text hb.answers h
    refine ⟨b.buf ++ padding, ?_, ?_, ?_⟩
    · rw [List.all_append, hblank, hall]
      rfl
    · by_cases hbuf : b.buf = []
      · rw [hbuf] at hne ⊢
        simpa using hne
      · simp [hbuf]
    · rw [view, List.append_assoc, ← htext]
      rfl
  · cases h

/-- Where there is stray text, the text behind the boundary is no line of a boundary. -/
theorem boundaryNext_stray (hb : b.Plain) {rest : Bytes} (h : b.stray = some rest) :
    boundaryNext (ε := ε) b.view = .error .invalidFormat := by
  obtain ⟨hdash, padding, hblank, hne, hview⟩ := stray_text hb h
  have hrest : paddingNext (ε := ε) (padding ++ rest) = .error .invalidFormat := by
    have hdrop : padding.dropWhile Bytes.isBlank = [] := by
      rw [List.dropWhile_eq_nil_iff]
      exact List.all_eq_true.mp hblank
    rw [paddingNext_dropWhile, hdrop, List.nil_append]
    cases rest with
    | nil => cases hdash
    | cons c rest =>
      have hc : c = 45 := hdash
      subst hc
      rfl
  rw [hview]
  cases padding with
  | nil => exact absurd rfl hne
  | cons c padding =>
    have hc : Bytes.isBlank c = true := List.all_eq_true.mp hblank c (List.mem_cons_self ..)
    have hdash' : ¬ c = 45 := by
      rintro rfl
      cases hc
    rw [boundaryNext, if_neg (by simp), List.cons_append, List.headD_cons, if_neg hdash', if_pos hc,
      ← List.cons_append, hrest]
    rfl

/-- A chunk that arrives is put behind what is in the buffer. -/
theorem ensureBufLen_chunk {len : Nat} {c : Bytes} (hlt : b.buf.length < len)
    (h : b.pollStream = (.ready (some (.ok c)), b₁)) :
    ensureBufLen len b = ensureBufLen len { b₁ with buf := b₁.buf ++ c } := by
  rw [ensureBufLen_eq, if_pos hlt, h]

/-- A buffer with nothing but padding in it is emptied. -/
theorem consumePaddingAndCrlf_blank (hblank : b.buf.all Bytes.isBlank = true) :
    consumePaddingAndCrlf b = consumePaddingAndCrlf { b with buf := [] } := by
  by_cases hnil : b.buf = []
  · rw [← hnil]
  · have hlen : 1 ≤ b.buf.length := List.length_pos_of_ne_nil hnil
    have hdrop : b.buf.dropWhile Bytes.isBlank = [] := by
      rw [List.dropWhile_eq_nil_iff]
      exact List.all_eq_true.mp hblank
    have hhead : Bytes.isBlank (b.buf.headD 0) = true := by
      cases hbuf : b.buf with
      | nil => exact absurd hbuf hnil
      | cons c buf =>
        rw [hbuf] at hblank
        exact List.all_eq_true.mp hblank c (List.mem_cons_self ..)
    have hcr : ¬ b.buf.headD 0 = cr := by
      intro hcr
      rw [hcr] at hhead
      cases hhead
    rw [consumePaddingAndCrlf_eq, ensureBufLen_enough hlen, onReady_ok, if_neg hcr, if_pos hhead,
      hdrop]

/-- While the line end is waited for behind padding, its first byte is in the buffer. -/
theorem consumePaddingAndCrlf_line (hb : b.Plain) (hblank : ¬ b.buf.all Bytes.isBlank = true)
    (h : consumePaddingAndCrlf b = (.pending, b')) : 1 ≤ b'.buf.length ∧ b'.buf.headD 0 = cr := by
  have hkept : ∀ b₁ : StreamBuffer ε, b₁.Plain → 1 ≤ b₁.buf.length → b₁.buf.headD 0 = cr →
      b₁.consumeCrlf = (.pending, b') → 1 ≤ b'.buf.length ∧ b'.buf.headD 0 = cr := by
    intro b₁ hb₁ hlen hcr hpoll
    have hfront := consumeCrlf_pending hb₁ hpoll
    exact ⟨hlen.trans hfront.length_le, (headD_of_front hfront hlen).trans hcr⟩
  have hlen : 1 ≤ b.buf.length := by
    by_contra hlen
    have hnil : b.buf = [] := List.eq_nil_of_length_eq_zero (by omega)
    rw [hnil] at hblank
    exact hblank rfl
  rw [consumePaddingAndCrlf_eq, ensureBufLen_enough hlen, onReady_ok] at h
  split at h
  · next hcr => exact hkept b hb hlen hcr h
  · split at h
    · have hrest : 1 ≤ (b.buf.dropWhile Bytes.isBlank).length := by
        by_contra hrest
        have hnil : b.buf.dropWhile Bytes.isBlank = [] :=
          List.eq_nil_of_length_eq_zero (by omega)
        rw [List.dropWhile_eq_nil_iff] at hnil
        exact hblank (List.all_eq_true.mpr hnil)
      rw [consumePaddingAndCrlf_eq, ensureBufLen_enough hrest, onReady_ok] at h
      split at h
      · next hcr =>
        exact hkept { b with buf := b.buf.dropWhile Bytes.isBlank } (hb.congr rfl rfl) hrest hcr h
      · split at h
        · next hpad =>
          have hdrop := dropWhile_blank_length hpad
          rw [List.dropWhile_idempotent] at hdrop
          exact absurd hdrop (lt_irrefl _)
        · cases h
    · cases h

/-- Where no dash comes next, the step behind a boundary consumes padding and a line end. -/
theorem advanceAfterBoundary_padding (hb : b.Plain) (hdash : b.view.headD 0 ≠ 45) :
    b.advanceAfterBoundary =
      onReady b.consumePaddingAndCrlf fun _ b => (.ready (.ok .readingPartHeaders), b) := by
  have hyields := ensureBufLen_yields 1 b hb
  rw [consumePaddingAndCrlf_eq, advanceAfterBoundary]
  rcases hlen : ensureBufLen 1 b with ⟨_ | (e | u), b₁⟩
  · rfl
  · rfl
  · rw [hlen] at hyields
    obtain ⟨hleft, hlong⟩ := hyields
    simp only [onReady_ok]
    have hfirst : ¬ b₁.buf.headD 0 = 45 := by rwa [hleft.headD hlong]
    rw [if_neg hfirst]
    by_cases hpad : Bytes.isBlank (b₁.buf.headD 0) = true
    · have hcr : ¬ b₁.buf.headD 0 = cr := by
        intro hcr
        rw [hcr] at hpad
        cases hpad
      rw [if_pos hpad, if_neg hcr, if_pos hpad, consumePaddingAndCrlf_eq,
        ensureBufLen_enough hlong, onReady_ok, if_neg hcr, if_pos hpad]
    · rw [if_neg hpad, if_neg hpad]
      split
      · rfl
      · rfl

/-- The step behind a boundary as it is when padding follows. -/
def padded (b : StreamBuffer ε) : Poll (Except (Error ε) State) × StreamBuffer ε :=
  onReady b.consumePaddingAndCrlf fun _ b => (.ready (.ok .readingPartHeaders), b)

theorem padded_skips (hb : b.Plain) : Skips padded b :=
  (consumePaddingAndCrlf_skips b hb).onReady fun _ b => ⟨_, b, rfl, rfl⟩

theorem view_prompt (b : StreamBuffer ε) : b.prompt.view = b.view := by
  have hbytes : ∀ script : Script ε, (script.filter fun a => !isPending a).flatMap answerBytes =
      script.flatMap answerBytes := by
    intro script
    induction script with
    | nil => rfl
    | cons a script ih =>
      rcases a with _ | r
      · exact ih
      · exact congrArg (answerBytes (.ready r) ++ ·) ih
  unfold view rest prompt
  cases b.stream with
  | none => rfl
  | some script => exact congrArg (b.buf ++ ·) (hbytes script)

theorem plain_prompt (hb : b.Plain) : b.prompt.Plain := by
  obtain ⟨script, hscript⟩ := hb.script
  have hstream : b.prompt.stream = some (script.filter fun a => !isPending a) := by
    rw [prompt, hscript]
    rfl
  refine ⟨⟨_, hstream⟩, fun a ha => hb.answers a ?_, fun heof => ?_⟩
  · rw [hstream] at ha
    rw [hscript]
    exact (List.mem_filter.mp ha).1
  · rw [prompt, hb.ended heof]
    rfl

/-- Where no dash comes next, also on the stream that is always ready. -/
theorem advanceAfterBoundary_prompt (hb : b.Plain) (hdash : b.view.headD 0 ≠ 45) :
    b.prompt.advanceAfterBoundary = b.prompt.padded :=
  advanceAfterBoundary_padding (plain_prompt hb) (by rwa [view_prompt])

/-- A step that is entered again: where there is no stray text it answers as on the stream that is
always ready; where there is, it is not ready until the stray text comes next. -/
def Resumes (b : StreamBuffer ε) (stray : Option Bytes)
    (step : StreamBuffer ε → Poll (Except (Error ε) State) × StreamBuffer ε) : Prop :=
  Yields
    (fun b' => match stray with
      | none => b'.prompt.advanceAfterBoundary = step b.prompt ∧ b'.stray = none
      | some rest => b'.stray = some rest ∨ b'.view = rest)
    (fun r b' => stray = none ∧ step b.prompt = (.ready r, b'.prompt)) (step b)

theorem Resumes.of_skips {step : StreamBuffer ε → Poll (Except (Error ε) State) × StreamBuffer ε}
    (hskips : Skips step b) (hwait : ∀ b', step b = (.pending, b') →
      b'.prompt.advanceAfterBoundary = step b'.prompt ∧ b'.stray = none) :
    Resumes b none step := by
  unfold Resumes
  unfold Skips at hskips
  rcases hstep : step b with ⟨_ | r, b'⟩
  · rw [hstep] at hskips
    obtain ⟨henter, hnone⟩ := hwait b' hstep
    exact ⟨henter.trans hskips, hnone⟩
  · rw [hstep] at hskips
    exact ⟨rfl, hskips⟩

theorem stray_of_front {c : UInt8} (hlen : 1 ≤ b.buf.length) (hc : b.buf.headD 0 = c)
    (hblank : Bytes.isBlank c = false) : b.stray = none := by
  have hall : ¬ b.buf.all Bytes.isBlank = true := by
    intro hall
    cases hbuf : b.buf with
    | nil =>
      rw [hbuf] at hlen
      cases hlen
    | cons d buf =>
      rw [hbuf] at hall hc
      have hd := List.all_eq_true.mp hall d (List.mem_cons_self ..)
      have hdc : d = c := hc
      rw [hdc, hblank] at hd
      cases hd
  exact if_neg hall

theorem view_headD (hlen : 1 ≤ b.buf.length) : b.view.headD 0 = b.buf.headD 0 :=
  headD_of_front (List.prefix_append _ _) hlen

/-- Padding and more is in the buffer. -/
theorem resumes_line (hb : b.Plain) (hblank : ¬ b.buf.all Bytes.isBlank = true) :
    Resumes b none padded := by
  refine Resumes.of_skips (padded_skips hb) fun b' h => ?_
  have hwait : b.consumePaddingAndCrlf = (.pending, b') := by
    unfold padded at h
    rcases hpoll : b.consumePaddingAndCrlf with ⟨_ | (e | u), b₁⟩
    · rw [hpoll] at h
      cases h
      rfl
    · rw [hpoll] at h
      cases h
    · rw [hpoll] at h
      cases h
  obtain ⟨hlen, hcr⟩ := consumePaddingAndCrlf_line hb hblank hwait
  have hplain : b'.Plain := by
    have hyields := consumePaddingAndCrlf_yields b hb
    rw [hwait] at hyields
    obtain ⟨text, ⟨hleft, -⟩, -⟩ := hyields
    exact hleft.plain
  refine ⟨advanceAfterBoundary_prompt hplain ?_, stray_of_front hlen hcr rfl⟩
  rw [view_headD hlen, hcr]
  decide

/-- Only the polls matter. -/
theorem Resumes.congr {stray : Option Bytes}
    {step step₁ : StreamBuffer ε → Poll (Except (Error ε) State) × StreamBuffer ε}
    (hstep : step b = step₁ b₁) (hprompt : step b.prompt = step₁ b₁.prompt)
    (h : Resumes b₁ stray step₁) : Resumes b stray step := by
  unfold Resumes at h ⊢
  rw [hstep, hprompt]
  exact h

/-- The next answer of the stream, and what is left of it. -/
theorem Plain.next (hb : b.Plain) {a : Item Bytes (Error ε)} {script : Script ε}
    (hscript : b.stream = some (a :: script)) :
    (a = .pending ∧ b.pollStream = (.pending, { b with stream := some script }) ∧
        Plain { b with stream := some script }) ∨
      ∃ bytes b₁, a = .ready (some (.ok bytes)) ∧ bytes ≠ [] ∧
        b.pollStream = (.ready (some (.ok bytes)), b₁) ∧ b₁.stream = some script ∧
        b₁.buf = b.buf := by
  have hplain := hb.answers
  rw [hscript, Option.getD_some] at hplain
  have ha := hplain a (List.mem_cons_self ..)
  rcases a with _ | (_ | (e | bytes))
  · have hpoll : b.pollStream = (.pending, { b with stream := some script }) := by
      rw [StreamBuffer.pollStream, hscript]
      rfl
    exact .inl ⟨rfl, hpoll, (hb.pending hpoll).1.1.plain⟩
  · exact ha.elim
  · exact ha.elim
  · have hne : bytes ≠ [] := ha
    have hempty : bytes.isEmpty = false := by simpa using hne
    have hpoll : b.pollStream = (.ready (some (.ok bytes)), { b with
        stream := some script, emptyChunks := 0, polledTotal := b.polledTotal + bytes.length }) := by
      rw [StreamBuffer.pollStream, hscript]
      simp [pollStreamLoop, emptyChunksPerPoll, hempty]
    exact .inr ⟨bytes, _, rfl, hne, hpoll, rfl, rfl⟩

/-- A chunk that arrives in an empty buffer. -/
theorem padded_chunk {c : Bytes} (hbuf : b.buf = []) (hfirst : b₁.buf = b.buf)
    (h : b.pollStream = (.ready (some (.ok c)), b₁)) : padded b = padded { b₁ with buf := c } := by
  have hlt : b.buf.length < 1 := by simp [hbuf]
  rw [padded, padded, consumePaddingAndCrlf_eq, ensureBufLen_chunk hlt h, hfirst, hbuf,
    List.nil_append, ← consumePaddingAndCrlf_eq]

/-- The buffer is empty, and padding has been consumed. -/
theorem resumes_padding {script : Script ε} (hb : b.Plain) (hbuf : b.buf = [])
    (hscript : b.stream = some script) : Resumes b (strayScript true script) padded := by
  induction script generalizing b with
  | nil =>
    refine Resumes.of_skips (padded_skips hb) fun b' h => ?_
    have hpoll : b.pollStream = (.ready none, { b with stream := some [], eof := true }) := by
      rw [StreamBuffer.pollStream, hscript]
      rfl
    rw [padded, consumePaddingAndCrlf_eq, ensureBufLen_eq, if_pos (by simp [hbuf]), hpoll] at h
    cases h
  | cons a script ih =>
    rcases hb.next hscript with ⟨rfl, hpoll, hplain⟩ | ⟨bytes, b₁, rfl, hne, hpoll, hrest, hfirst⟩
    · have hwait : padded b = (.pending, { b with stream := some script }) := by
        rw [padded, consumePaddingAndCrlf_eq, ensureBufLen_eq, if_pos (by simp [hbuf]), hpoll]
        rfl
      have hview : view { b with stream := some script } = script.flatMap answerBytes := by
        rw [view, hbuf]
        rfl
      unfold Resumes
      rw [hwait, strayScript]
      by_cases hdash : (script.flatMap answerBytes).headD 0 = 45
      · rw [if_pos (by simpa using hdash)]
        exact .inr hview
      · have hstray : stray { b with stream := some script } = strayScript true script := by
          rw [strayScript_start hdash, stray, hbuf]
          rfl
        rw [if_neg (by simpa using hdash)]
        cases hnext : strayScript true script with
        | none =>
          refine ⟨?_, hstray.trans hnext⟩
          rw [advanceAfterBoundary_prompt hplain (by rwa [hview]), hb.prompt_pending hpoll]
        | some rest => exact .inl (hstray.trans hnext)
    · have hchunk := padded_chunk hbuf hfirst hpoll
      have hprompt := padded_chunk (b := b.prompt) hbuf
        (show b₁.prompt.buf = b.prompt.buf from hfirst) (hb.prompt_ready hpoll)
      have hplain : Plain { b₁ with buf := bytes } :=
        (hb.chunk_of_empty hpoll (hfirst.trans hbuf)).plain
      rw [strayScript]
      by_cases hblank : bytes.all Bytes.isBlank = true
      · rw [if_pos hblank]
        have hempty := ih (b := { b₁ with buf := [] }) (hplain.congr rfl rfl) rfl hrest
        refine hempty.congr (hchunk.trans ?_) (hprompt.trans ?_)
        · rw [padded, consumePaddingAndCrlf_blank hblank]
          rfl
        · rw [padded, consumePaddingAndCrlf_blank (b := { b₁.prompt with buf := bytes }) hblank]
          rfl
      · rw [if_neg hblank]
        exact (resumes_line hplain hblank).congr hchunk hprompt

/-- The two dashes of the closing mark. -/
def closingMark (b : StreamBuffer ε) : Poll (Except (Error ε) State) × StreamBuffer ε :=
  onReady (ensureBufLen 2 b) fun _ b =>
    if b.buf.take 2 = ascii "--" then
      (.ready (.ok .readingClosingDelimiter), { b with buf := b.buf.drop 2 })
    else (.ready (.error .invalidFormat), b)

theorem advanceAfterBoundary_dash (hlen : 1 ≤ b.buf.length) (hdash : b.buf.headD 0 = 45) :
    b.advanceAfterBoundary = b.closingMark := by
  rw [advanceAfterBoundary, ensureBufLen_enough hlen, onReady_ok]
  exact if_pos hdash

theorem closingMark_skips (hb : b.Plain) : Skips closingMark b := by
  refine (ensureBufLen_skips 2 b hb).onReady fun _ b => ?_
  by_cases hmark : b.buf.take 2 = ascii "--"
  · exact ⟨_, _, if_pos hmark, if_pos hmark⟩
  · exact ⟨_, _, if_neg hmark, if_neg hmark⟩

theorem closingMark_pending (hb : b.Plain) (h : b.closingMark = (.pending, b')) :
    b.buf <+: b'.buf := by
  have hgrows := ensureBufLen_grows 2 b hb
  unfold closingMark at h
  rcases hlen : ensureBufLen 2 b with ⟨_ | (e | u), b₁⟩
  · rw [hlen] at h hgrows
    cases h
    exact hgrows
  · rw [hlen] at h
    cases h
  · rw [hlen, onReady_ok] at h
    split at h <;> cases h

/-- The first byte behind the boundary is in the buffer. -/
theorem resumes_front (hb : b.Plain) (hlen : 1 ≤ b.buf.length) :
    Resumes b b.stray advanceAfterBoundary := by
  by_cases hdash : b.buf.headD 0 = 45
  · rw [stray_of_front hlen hdash rfl]
    refine Resumes.congr (advanceAfterBoundary_dash hlen hdash)
      (advanceAfterBoundary_dash (b := b.prompt) hlen hdash)
      (.of_skips (closingMark_skips hb) fun b' h => ?_)
    have hfront := closingMark_pending hb h
    have hlen' : 1 ≤ b'.buf.length := hlen.trans hfront.length_le
    have hdash' : b'.buf.headD 0 = 45 := (headD_of_front hfront hlen).trans hdash
    exact ⟨advanceAfterBoundary_dash (b := b'.prompt) hlen' hdash', stray_of_front hlen' hdash' rfl⟩
  · have hview : b.view.headD 0 ≠ 45 := by rwa [view_headD hlen]
    have hstart : b.advanceAfterBoundary = b.padded := advanceAfterBoundary_padding hb hview
    have hprompt : b.prompt.advanceAfterBoundary = b.prompt.padded :=
      advanceAfterBoundary_prompt hb hview
    by_cases hblank : b.buf.all Bytes.isBlank = true
    · obtain ⟨script, hscript⟩ := hb.script
      have hstray : b.stray = strayScript true script := by
        have hfull : b.buf.isEmpty = false := by
          simpa using List.ne_nil_of_length_pos hlen
        rw [stray, if_pos hblank, hscript, hfull]
        rfl
      rw [hstray]
      have hempty := resumes_padding (b := { b with buf := [] }) (hb.congr rfl rfl) rfl hscript
      refine hempty.congr (hstart.trans ?_) (hprompt.trans ?_)
      · rw [padded, consumePaddingAndCrlf_blank hblank]
        rfl
      · rw [padded, consumePaddingAndCrlf_blank (b := b.prompt) hblank]
        rfl
    · rw [stray, if_neg hblank]
      exact (resumes_line hb hblank).congr hstart hprompt

/-- The step behind a boundary, entered again after every poll that is not ready. -/
theorem advanceAfterBoundary_resumes (hb : b.Plain) : Resumes b b.stray advanceAfterBoundary := by
  by_cases hlen : 1 ≤ b.buf.length
  · exact resumes_front hb hlen
  · have hbuf : b.buf = [] := List.eq_nil_of_length_eq_zero (by omega)
    obtain ⟨script, hscript⟩ := hb.script
    have hstray : b.stray = strayScript false script := by
      rw [stray, hbuf, hscript]
      rfl
    have hlt : b.buf.length < 1 := by omega
    rw [hstray]
    cases script with
    | nil =>
      have hpoll : b.pollStream = (.ready none, { b with stream := some [], eof := true }) := by
        rw [StreamBuffer.pollStream, hscript]
        rfl
      have hstart : b.advanceAfterBoundary = (.ready (.error .incompleteStream),
          { b with stream := some [], eof := true }) := by
        rw [advanceAfterBoundary, ensureBufLen_eq, if_pos hlt, hpoll]
        rfl
      have hprompt : b.prompt.advanceAfterBoundary = (.ready (.error .incompleteStream),
          prompt { b with stream := some [], eof := true }) := by
        rw [advanceAfterBoundary, ensureBufLen_eq, if_pos (by exact hlt), hb.prompt_ready hpoll]
        rfl
      unfold Resumes
      rw [hstart]
      exact ⟨rfl, hprompt⟩
    | cons a script =>
      rcases hb.next hscript with ⟨rfl, hpoll, hplain⟩ | ⟨bytes, b₁, rfl, hne, hpoll, hrest, hfirst⟩
      · have hwait : b.advanceAfterBoundary = (.pending, { b with stream := some script }) := by
          rw [advanceAfterBoundary, ensureBufLen_eq, if_pos hlt, hpoll]
          rfl
        have hnext : stray { b with stream := some script } = strayScript false script := by
          rw [stray, hbuf]
          rfl
        unfold Resumes
        rw [hwait, strayScript, if_neg (by simp)]
        cases hmore : strayScript false script with
        | none => exact ⟨by rw [hb.prompt_pending hpoll], hnext.trans hmore⟩
        | some rest => exact .inl (hnext.trans hmore)
      · have hstart : b.advanceAfterBoundary =
            advanceAfterBoundary { b₁ with buf := bytes } := by
          rw [advanceAfterBoundary, ensureBufLen_chunk hlt hpoll, hfirst, hbuf, List.nil_append]
          rfl
        have hprompt : b.prompt.advanceAfterBoundary =
            advanceAfterBoundary (prompt { b₁ with buf := bytes }) := by
          rw [advanceAfterBoundary, ensureBufLen_chunk (by exact hlt) (hb.prompt_ready hpoll),
            prompt_buf, hfirst, hbuf, List.nil_append]
          rfl
        have hplain : Plain { b₁ with buf := bytes } :=
          (hb.chunk_of_empty hpoll (hfirst.trans hbuf)).plain
        have hnext : stray { b₁ with buf := bytes } =
            strayScript false (.ready (some (.ok bytes)) :: script) := by
          have hfull : bytes.isEmpty = false := by simpa using hne
          rw [stray, strayScript, hrest, hfull]
          rfl
        rw [← hnext]
        exact (resumes_front hplain (List.length_pos_of_ne_nil hne)).congr hstart hprompt

/-- Without stray text the step behind a boundary answers as on the stream that is always ready. -/
theorem boundary_prompt (hb : b.Plain) (hnone : b.stray = none) :
    ∃ r b', Settles advanceAfterBoundary b r b' ∧ b.prompt.advanceAfterBoundary = (.ready r, b'.prompt) ∧
      ∀ state, r = .ok state → Left b b'.view b' := by
  refine Settles.of_yields (P := fun b₁ => Left b b₁.view b₁ ∧ b₁.stray = none ∧
    b₁.prompt.advanceAfterBoundary = b.prompt.advanceAfterBoundary) pendings ?_ b ⟨hb.refl, hnone, rfl⟩
  rintro b₁ ⟨hleft, hnone₁, hsame⟩
  have hyields := advanceAfterBoundary_yields b₁ hleft.plain
  have hresumes := advanceAfterBoundary_resumes hleft.plain
  rw [hnone₁, Resumes] at hresumes
  rcases hpoll : b₁.advanceAfterBoundary with ⟨_ | r, b'⟩
  · rw [hpoll] at hyields hresumes
    obtain ⟨text, ⟨hleft', hless⟩, -⟩ := hyields
    obtain ⟨henter, hnone'⟩ := hresumes
    obtain rfl := hleft'.view
    exact ⟨hless, hleft.trans hleft', hnone', henter.trans hsame⟩
  · rw [hpoll] at hyields hresumes
    refine ⟨hsame.symm.trans hresumes.2, ?_⟩
    rintro state rfl
    obtain ⟨text, -, hleft'⟩ := hyields
    obtain rfl := hleft'.view
    exact hleft.trans hleft'

/-- With stray text the step behind a boundary starts again with it. -/
theorem boundary_stray (hb : b.Plain) {rest : Bytes} (hstray : b.stray = some rest) :
    ∃ r b', Settles advanceAfterBoundary b r b' ∧ Computes b (boundaryNext rest) r b' := by
  have hdash := (stray_text hb hstray).1
  refine Settles.of_yields (P := fun b₁ => Left b b₁.view b₁ ∧
    (b₁.stray = some rest ∨ b₁.view = rest)) pendings ?_ b ⟨hb.refl, .inl hstray⟩
  rintro b₁ ⟨hleft, hnext⟩
  have hyields := advanceAfterBoundary_yields b₁ hleft.plain
  rcases hnext with hagain | hview
  · have hresumes := advanceAfterBoundary_resumes hleft.plain
    rw [hagain, Resumes] at hresumes
    rcases hpoll : b₁.advanceAfterBoundary with ⟨_ | r, b'⟩
    · rw [hpoll] at hyields hresumes
      obtain ⟨text, ⟨hleft', hless⟩, -⟩ := hyields
      obtain rfl := hleft'.view
      exact ⟨hless, hleft.trans hleft', hresumes⟩
    · rw [hpoll] at hresumes
      cases hresumes.1
  · rw [hview] at hyields
    refine hyields.mono ?_ fun r b' hr => hr.trans hleft
    rintro b' ⟨text, ⟨hleft', hless⟩, rfl | ⟨hblank, -⟩⟩
    · have hview' := hleft'.view
      refine ⟨hless, hleft.trans ?_, .inr hview'⟩
      rw [hview']
      exact hleft'
    · rw [hdash] at hblank
      cases hblank

end StreamBuffer
end S3s.FormData
