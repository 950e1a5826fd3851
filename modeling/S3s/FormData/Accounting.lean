import S3s.FormData.HandOver

/-! # What has been consumed of a body

Whatever is read, the text to come is what is left of the body behind the bytes
that have been consumed, and these and the bytes in the buffer are the bytes that
have been polled.
-/
namespace S3s.FormData
open Polling

variable {ε : Type}

namespace StreamBuffer

variable {b b₁ b' : StreamBuffer ε}

/-- A reader takes bytes from the front of the text to come, and counts what it polls. -/
structure Moves (b b' : StreamBuffer ε) : Prop where
  text : ∃ taken : Bytes, b.view = taken ++ b'.view ∧
    b'.polledTotal + b.buf.length = b.polledTotal + taken.length + b'.buf.length
  plain : b.Plain → b'.Plain

@[refl] theorem Moves.refl (b : StreamBuffer ε) : Moves b b := ⟨⟨[], rfl, by simp⟩, id⟩

@[trans] theorem Moves.trans (h₁ : Moves b b₁) (h₂ : Moves b₁ b') : Moves b b' := by
  obtain ⟨taken₁, hview₁, hlen₁⟩ := h₁.text
  obtain ⟨taken₂, hview₂, hlen₂⟩ := h₂.text
  refine ⟨⟨taken₁ ++ taken₂, ?_, ?_⟩, fun hb => h₂.plain (h₁.plain hb)⟩
  · rw [hview₁, hview₂, List.append_assoc]
  · rw [List.length_append]
    omega

/-- What a poll hands out is taken from the stream and counted. -/
theorem pollStreamLoop_accounts (b : StreamBuffer ε) (n : Nat) (script : Script ε) :
    (pollStreamLoop b n script).2.buf = b.buf ∧
      script.flatMap answerBytes =
        answerBytes (pollStreamLoop b n script).1 ++ (pollStreamLoop b n script).2.rest ∧
      (pollStreamLoop b n script).2.polledTotal =
        b.polledTotal + (answerBytes (pollStreamLoop b n script).1).length := by
  induction n generalizing b script with
  | zero => simp [pollStreamLoop, answerBytes, rest]
  | succ n ih =>
    rcases script with _ | ⟨_ | (_ | (e | bytes)), script⟩
    · simp [pollStreamLoop, answerBytes, rest]
    · simp [pollStreamLoop, answerBytes, rest]
    · simp [pollStreamLoop, answerBytes, rest]
    · simp [pollStreamLoop, answerBytes, rest]
    · rw [pollStreamLoop]
      split
      · next hempty =>
        obtain rfl : bytes = [] := by simpa using hempty
        dsimp only
        split
        · simp [answerBytes, rest]
        · have h := ih { b with emptyChunks := b.emptyChunks + 1 } script
          simpa [answerBytes] using h
      · simp [answerBytes, rest]

theorem pollStream_accounts (b : StreamBuffer ε) :
    b.pollStream.2.buf = b.buf ∧ b.rest = answerBytes b.pollStream.1 ++ b.pollStream.2.rest ∧
      b.pollStream.2.polledTotal = b.polledTotal + (answerBytes b.pollStream.1).length := by
  unfold pollStream
  split
  · next hs => simp [rest, hs, answerBytes]
  · next script hs =>
    have h := pollStreamLoop_accounts b emptyChunksPerPoll script
    rwa [rest, hs, Option.getD_some]

theorem Plain.pollStream (hb : b.Plain) : b.pollStream.2.Plain := by
  rcases hpoll : b.pollStream with ⟨_ | (_ | (e | c)), b'⟩
  · exact (hb.pending hpoll).1.1.plain
  · exact (hb.ends hpoll).2.1.plain
  · exact (hb.not_error hpoll).elim
  · exact (hb.chunk hpoll b'.readUntilCursor).1.plain.congr rfl rfl

/-- A poll that hands out no bytes. -/
theorem moves_of_poll {r : Item Bytes (Error ε)} (h : b.pollStream = (r, b'))
    (hr : answerBytes r = []) : Moves b b' := by
  have haccounts := b.pollStream_accounts
  have hplain := Plain.pollStream (b := b)
  rw [h, hr] at haccounts
  rw [h] at hplain
  obtain ⟨hbuf, hrest, htotal⟩ := haccounts
  refine ⟨⟨[], ?_, ?_⟩, hplain⟩
  · rw [view, view, hrest, hbuf, List.nil_append, List.nil_append]
  · rw [hbuf, htotal]

/-- The end of the stream is noted. -/
theorem moves_of_end (h : b.pollStream = (.ready none, b')) : Moves b { b' with eof := true } := by
  obtain ⟨text, -⟩ := moves_of_poll h rfl
  refine ⟨text, fun hb => ?_⟩
  obtain ⟨-, hleft, -, hstream⟩ := hb.ends h
  exact ⟨hleft.plain.script, hleft.plain.answers, fun _ => hstream⟩

/-- Where a search is does not matter. -/
theorem moves_of_same (hbuf : b'.buf = b.buf) (hstream : b'.stream = b.stream)
    (heof : b'.eof = b.eof) (htotal : b'.polledTotal = b.polledTotal) : Moves b b' := by
  refine ⟨⟨[], ?_, ?_⟩, fun hb => hb.congr hstream heof⟩
  · rw [view, view, rest, rest, hbuf, hstream, List.nil_append]
  · rw [hbuf, htotal, List.length_nil, Nat.add_zero]

/-- A chunk is put behind the buffer. -/
theorem moves_of_chunk {c : Bytes} (h : b.pollStream = (.ready (some (.ok c)), b')) :
    Moves b { b' with buf := b'.buf ++ c } := by
  have haccounts := b.pollStream_accounts
  have hplain := Plain.pollStream (b := b)
  rw [h] at haccounts hplain
  obtain ⟨hbuf, hrest, htotal⟩ := haccounts
  simp only [answerBytes] at hrest htotal
  refine ⟨⟨[], ?_, ?_⟩, fun hb => (hplain hb).congr rfl rfl⟩
  · change b.buf ++ b.rest = (b'.buf ++ c) ++ b'.rest
    rw [hbuf, hrest, List.append_assoc]
  · rw [List.length_append, hbuf, htotal, List.length_nil]
    omega

/-- Bytes are taken from the front of the buffer. -/
theorem moves_suffix {buf : Bytes} (h : buf <:+ b.buf) : Moves b { b with buf := buf } := by
  obtain ⟨taken, htaken⟩ := h
  refine ⟨⟨taken, ?_, ?_⟩, fun hb => hb.congr rfl rfl⟩
  · change b.buf ++ b.rest = taken ++ (buf ++ b.rest)
    rw [← htaken, List.append_assoc]
  · simp only [← htaken, List.length_append]
    omega

theorem moves_drop (b : StreamBuffer ε) (n : Nat) : Moves b { b with buf := b.buf.drop n } :=
  moves_suffix (List.drop_suffix _ _)

/-- A chunk is put behind the empty buffer, and bytes are taken from its front. -/
theorem moves_of_first {c buf : Bytes} (h : b.pollStream = (.ready (some (.ok c)), b'))
    (hnil : b'.buf = []) (hbuf : buf <:+ c) : Moves b { b' with buf := buf } := by
  have hchunk := moves_of_chunk h
  rw [hnil, List.nil_append] at hchunk
  exact hchunk.trans (moves_suffix hbuf)

theorem Moves.onReady {α β : Type} {r : Poll (Except (Error ε) α) × StreamBuffer ε}
    {k : α → StreamBuffer ε → Poll (Except (Error ε) β) × StreamBuffer ε} (h : Moves b r.2)
    (hk : ∀ a b', Moves b' (k a b').2) : Moves b (Polling.onReady r k).2 := by
  rcases r with ⟨_ | (e | a), b₁⟩
  · exact h
  · exact h
  · exact h.trans (hk a b₁)

theorem ensureBufLen_moves (len : Nat) (b : StreamBuffer ε) : Moves b (ensureBufLen len b).2 := by
  fun_induction ensureBufLen len b with
  | case1 b hlt b₁ hpoll => exact moves_of_poll hpoll rfl
  | case2 b hlt chunk b₁ hpoll ih => exact (moves_of_chunk hpoll).trans ih
  | case3 b hlt e b₁ hpoll => exact moves_of_poll hpoll rfl
  | case4 b hlt b₁ hpoll => exact moves_of_poll hpoll rfl
  | case5 b hlt => rfl

theorem consumeCrlf_moves (b : StreamBuffer ε) : Moves b b.consumeCrlf.2 := by
  refine (ensureBufLen_moves 2 b).onReady fun _ b => ?_
  split
  · exact moves_drop b 2
  · rfl

theorem consumePaddingAndCrlf_moves (b : StreamBuffer ε) : Moves b b.consumePaddingAndCrlf.2 := by
  fun_induction consumePaddingAndCrlf b with
  | case1 b b₁ hlen =>
    have h := ensureBufLen_moves 1 b
    rwa [hlen] at h
  | case2 b e b₁ hlen =>
    have h := ensureBufLen_moves 1 b
    rwa [hlen] at h
  | case3 b b₁ hlen hcr =>
    have h := ensureBufLen_moves 1 b
    rw [hlen] at h
    exact h.trans b₁.consumeCrlf_moves
  | case4 b b₁ hlen hcr hpad ih =>
    have h := ensureBufLen_moves 1 b
    rw [hlen] at h
    exact (h.trans (moves_suffix (List.dropWhile_suffix _))).trans ih
  | case5 b b₁ hlen hcr hpad =>
    have h := ensureBufLen_moves 1 b
    rwa [hlen] at h

theorem dataChunkLoop_moves (delimiter : Bytes) (b : StreamBuffer ε) :
    Moves b (dataChunkLoop delimiter b).2 := by
  fun_induction dataChunkLoop delimiter b with
  | case1 b index hfound => exact moves_drop b _
  | case2 b stop hemit => exact moves_drop b _
  | case3 b hkeep b₁ hpoll => exact moves_of_poll hpoll rfl
  | case4 b hkeep chunk b₁ hpoll hne ih => exact (moves_of_chunk hpoll).trans ih
  | case5 b hkeep chunk b₁ hpoll hempty index hfound =>
    have hnil : b₁.buf = [] := by simpa using hempty
    exact moves_of_first hpoll hnil (List.drop_suffix _ _)
  | case6 b hkeep chunk b₁ hpoll hempty stop hemit =>
    have hnil : b₁.buf = [] := by simpa using hempty
    rw [hnil, List.nil_append]
    exact moves_of_first hpoll hnil (List.drop_suffix _ _)
  | case7 b hkeep chunk b₁ hpoll hempty hall ih => exact (moves_of_chunk hpoll).trans ih
  | case8 b hkeep e b₁ hpoll => exact moves_of_poll hpoll rfl
  | case9 b hkeep b₁ hpoll => exact moves_of_poll hpoll rfl

theorem advanceAfterBoundary_moves (b : StreamBuffer ε) : Moves b b.advanceAfterBoundary.2 := by
  refine (ensureBufLen_moves 1 b).onReady fun _ b => ?_
  dsimp only
  split
  · refine (ensureBufLen_moves 2 b).onReady fun _ b => ?_
    split
    · exact moves_drop b 2
    · rfl
  · split
    · exact b.consumePaddingAndCrlf_moves.onReady fun _ b => Moves.refl b
    · split
      · exact b.consumeCrlf_moves.onReady fun _ b => Moves.refl b
      · rfl

theorem epilogue_moves (b : StreamBuffer ε) : Moves b b.epilogue.2 := by
  unfold epilogue
  split
  · rfl
  · next hempty =>
    rcases hpoll : b.pollStream with ⟨_ | (_ | (e | chunk)), b'⟩
    · exact moves_of_poll hpoll rfl
    · exact moves_of_poll hpoll rfl
    · exact moves_of_poll hpoll rfl
    · have hbuf := b.pollStream_accounts.1
      rw [hpoll] at hbuf
      have hnil : b'.buf = [] := by
        rw [hbuf]
        simpa using hempty
      have h := moves_of_first hpoll hnil (List.nil_suffix)
      rwa [← hnil] at h

theorem readUntilLoop_moves (needle : Bytes) (max : Nat) (b : StreamBuffer ε) :
    Moves b (readUntilLoop needle max b).2 := by
  fun_induction readUntilLoop needle max b with
  | case1 b rel hfind stop hstop => exact moves_of_same rfl rfl rfl rfl
  | case2 b rel hfind stop hstop => exact moves_of_same rfl rfl rfl rfl
  | case3 b hfind hlong => exact moves_of_same rfl rfl rfl rfl
  | case4 b hfind hlong heof => exact moves_of_same rfl rfl rfl rfl
  | case5 b hfind hlong heof b₁ hpoll => exact moves_of_poll hpoll rfl
  | case6 b hfind hlong heof chunk b₁ hpoll ih =>
    refine (moves_of_chunk hpoll).trans (.trans ?_ ih)
    exact moves_of_same rfl rfl rfl rfl
  | case7 b hfind hlong heof e b₁ hpoll =>
    exact (moves_of_poll hpoll rfl).trans (moves_of_same rfl rfl rfl rfl)
  | case8 b hfind hlong heof b₁ hpoll =>
    exact (moves_of_end hpoll).trans (moves_of_same rfl rfl rfl rfl)

theorem pollReadUntil_moves (needle : Bytes) (max : Nat) (b : StreamBuffer ε) :
    Moves b (pollReadUntil needle max b).2 := by
  unfold pollReadUntil
  split
  · exact readUntilLoop_moves needle max b
  · refine .trans ?_ (readUntilLoop_moves needle max _)
    exact moves_of_same rfl rfl rfl rfl

theorem pollReadTo_moves (needle : Bytes) (b : StreamBuffer ε) : Moves b (pollReadTo needle b).2 := by
  fun_induction pollReadTo needle b with
  | case1 b idx hfind => exact moves_drop b _
  | case2 b hfind heof => rfl
  | case3 b hfind heof b₁ hpoll => exact moves_of_poll hpoll rfl
  | case4 b hfind heof chunk b₁ hpoll hempty idx hchunk =>
    exact moves_of_first hpoll (by simpa using hempty) (List.drop_suffix _ _)
  | case5 b hfind heof chunk b₁ hpoll hempty hchunk keep ih =>
    exact (moves_of_first hpoll (by simpa using hempty) (List.drop_suffix _ _)).trans ih
  | case6 b hfind heof chunk b₁ hpoll hempty buf idx hchunk =>
    exact (moves_of_chunk hpoll).trans (moves_suffix (List.drop_suffix _ _))
  | case7 b hfind heof chunk b₁ hpoll hempty buf hchunk keep ih =>
    exact ((moves_of_chunk hpoll).trans (moves_suffix (List.drop_suffix _ _))).trans ih
  | case8 b hfind heof e b₁ hpoll => exact moves_of_poll hpoll rfl
  | case9 b hfind heof b₁ hpoll => exact moves_of_end hpoll

theorem waitForTwo_moves (b : StreamBuffer ε) : Moves b b.waitForTwo.2 := by
  have hquiet : ∀ b : StreamBuffer ε, Moves b { b with readUntilActive := false } :=
    fun b => moves_of_same rfl rfl rfl rfl
  fun_induction waitForTwo b with
  | case1 b hshort b₁ hpoll => exact (hquiet b).trans (moves_of_poll hpoll rfl)
  | case2 b hshort chunk b₁ hpoll ih => exact ((hquiet b).trans (moves_of_chunk hpoll)).trans ih
  | case3 b hshort e b₁ hpoll => exact (hquiet b).trans (moves_of_poll hpoll rfl)
  | case4 b hshort b₁ hpoll => exact (hquiet b).trans (moves_of_end hpoll)
  | case5 b hlong => rfl

theorem pollReadHeaderBlock_moves (max : Nat) (b : StreamBuffer ε) :
    Moves b (pollReadHeaderBlock max b).2 := by
  have h := b.waitForTwo_moves
  unfold pollReadHeaderBlock
  rcases hwait : b.waitForTwo with ⟨_ | (e | u), b₁⟩ <;> rw [hwait] at h
  · exact h
  · exact h
  · dsimp only
    split
    · exact h.trans (moves_of_same rfl rfl rfl rfl)
    · exact h.trans (pollReadUntil_moves _ max b₁)

theorem partDataLoop_moves (delimiter : Bytes) (b : StreamBuffer ε) :
    Moves b (partDataLoop delimiter b).2 := by
  rcases partDataLoop_cases delimiter b with heq | ⟨b', heq, heq'⟩
  · rw [heq]
    exact dataChunkLoop_moves delimiter b
  · have h := dataChunkLoop_moves delimiter b
    rw [heq'] at h
    rw [heq]
    exact h

theorem fillBuf_moves (len : Nat) (b : StreamBuffer ε) : Moves b (fillBuf len b).2 := by
  rcases fillBuf_cases len b with heq | ⟨b', heq, heq'⟩
  · rw [heq]
    exact ensureBufLen_moves len b
  · have h := ensureBufLen_moves len b
    rw [heq'] at h
    rw [heq]
    exact h

theorem skipPadding_moves (b : StreamBuffer ε) : Moves b b.skipPadding.2 := by
  fun_induction skipPadding b with
  | case1 b b₁ hfill =>
    have h := fillBuf_moves 1 b
    rwa [hfill] at h
  | case2 b e b₁ hfill =>
    have h := fillBuf_moves 1 b
    rwa [hfill] at h
  | case3 b b₁ hfill hpad ih =>
    have h := fillBuf_moves 1 b
    rw [hfill] at h
    exact (h.trans (moves_drop b₁ 1)).trans ih
  | case4 b b₁ hfill hpad hcr =>
    have h := fillBuf_moves 1 b
    rwa [hfill] at h
  | case5 b b₁ hfill hpad hcr =>
    have h := fillBuf_moves 1 b
    rwa [hfill] at h

theorem closeMark_moves (b : StreamBuffer ε) : Moves b b.closeMark.2 := by
  refine (fillBuf_moves 2 b).onReady fun _ b => ?_
  split
  · exact moves_drop b 2
  · split
    · rfl
    · rfl

theorem finalCrlf_moves (b : StreamBuffer ε) : Moves b b.finalCrlf.2 := by
  refine (skipPadding_moves b).onReady fun _ b => (fillBuf_moves 2 b).onReady fun _ b => ?_
  split
  · exact moves_drop b 2
  · rfl

/-- From the start on, the bytes consumed and the text to come are the body, and the bytes consumed
and those in the buffer are the bytes polled. -/
theorem Moves.accounts {script : Script ε} (h : Moves (new script) b) :
    (∃ taken, script.flatMap answerBytes = taken ++ b.view ∧ taken.length = b.consumed) ∧
      b.consumed + b.buf.length = b.polledTotal ∧
      b.polledTotal + b.rest.length = (script.flatMap answerBytes).length := by
  obtain ⟨taken, hview, hlen⟩ := h.text
  have hbody : script.flatMap answerBytes = taken ++ b.view := hview
  have htotal : b.polledTotal = taken.length + b.buf.length := by simpa [new] using hlen
  refine ⟨⟨taken, hbody, ?_⟩, ?_, ?_⟩
  · rw [consumed, htotal, Nat.add_sub_cancel]
  · rw [consumed, htotal, Nat.add_sub_cancel]
  · rw [hbody, htotal, view, List.length_append, List.length_append, Nat.add_assoc]

end StreamBuffer

namespace Multipart

variable {H : Httparse} {mp mp₁ mp' : Multipart ε}

/-- What a call leaves of the parser: its buffer has moved on, and it looks for the same delimiter. -/
structure Moves (mp mp' : Multipart ε) : Prop where
  buffer : ∀ b, mp.buffer = some b → ∃ b', mp'.buffer = some b' ∧ b.Moves b'
  finder : mp'.delimiterFinder = mp.delimiterFinder

@[refl] theorem Moves.refl (mp : Multipart ε) : Moves mp mp := ⟨fun b hb => ⟨b, hb, .refl b⟩, rfl⟩

@[trans] theorem Moves.trans (h₁ : Moves mp mp₁) (h₂ : Moves mp₁ mp') : Moves mp mp' := by
  refine ⟨fun b hb => ?_, h₂.finder.trans h₁.finder⟩
  obtain ⟨b₁, hb₁, hmoves₁⟩ := h₁.buffer b hb
  obtain ⟨b', hb', hmoves'⟩ := h₂.buffer b₁ hb₁
  exact ⟨b', hb', hmoves₁.trans hmoves'⟩

theorem moves_of_same (hbuffer : mp'.buffer = mp.buffer)
    (hfinder : mp'.delimiterFinder = mp.delimiterFinder) : Moves mp mp' :=
  ⟨fun b hb => ⟨b, hbuffer.trans hb, .refl b⟩, hfinder⟩

theorem Moves.onReady {α β : Type} {r : Poll (Except (Error ε) α) × Multipart ε}
    {k : α → Multipart ε → Poll (Except (Error ε) β) × Multipart ε} (h : Moves mp r.2)
    (hk : ∀ a mp', Moves mp' (k a mp').2) : Moves mp (Polling.onReady r k).2 := by
  rcases r with ⟨_ | (e | a), mp₁⟩
  · exact h
  · exact h
  · exact h.trans (hk a mp₁)

theorem onBuffer_moves {α : Type} (mp : Multipart ε)
    {f : StreamBuffer ε → Poll (Except (Error ε) α) × StreamBuffer ε} (hf : ∀ b, StreamBuffer.Moves b (f b).2) :
    Moves mp (mp.onBuffer f).2 := by
  unfold onBuffer
  split
  · rfl
  · next b hb =>
    refine ⟨fun b₁ hb₁ => ⟨(f b).2, rfl, ?_⟩, rfl⟩
    obtain rfl := Option.some_inj.mp (hb.symm.trans hb₁)
    exact hf b

theorem finishHeaders_moves (mp : Multipart ε) : Moves mp mp.finishHeaders := by
  unfold finishHeaders
  split
  · rfl
  · next block hblock =>
    split
    · refine ⟨fun b hb => ⟨{ b with buf := b.buf.drop block.dataStart }, ?_, b.moves_drop _⟩, rfl⟩
      rw [hb, Option.map_some]
    · exact moves_of_same rfl rfl

theorem beginData_moves (mp : Multipart ε) : Moves mp mp.beginData := by
  unfold beginData
  split
  · exact mp.finishHeaders_moves
  · rfl

theorem pollEnsureHeaders_moves (H : Httparse) (mp : Multipart ε) :
    Moves mp (mp.pollEnsureHeaders H).2 := by
  unfold pollEnsureHeaders
  split
  · rfl
  · split
    · rfl
    · refine (mp.onBuffer_moves (StreamBuffer.pollReadHeaderBlock_moves _)).onReady fun stop mp => ?_
      unfold parseBuffered
      split
      · rfl
      · split
        · exact moves_of_same rfl rfl
        · rfl

theorem nextHeaderInner_moves (mp : Multipart ε) : Moves mp mp.nextHeaderInner.2 := by
  unfold nextHeaderInner
  split
  · rfl
  · split
    · exact mp.finishHeaders_moves
    · dsimp only
      split
      · exact moves_of_same rfl rfl
      · exact moves_of_same rfl rfl

theorem pollNextHeader_moves (H : Httparse) (mp : Multipart ε) : Moves mp (mp.pollNextHeader H).2 :=
  (mp.pollEnsureHeaders_moves H).onReady fun _ mp => mp.nextHeaderInner_moves

theorem pollNextPartDataChunk_moves (mp : Multipart ε) : Moves mp mp.pollNextPartDataChunk.2 := by
  unfold pollNextPartDataChunk
  split
  · rfl
  · split
    · rfl
    · refine (mp.onBuffer_moves (StreamBuffer.dataChunkLoop_moves _)).onReady fun chunk mp => ?_
      cases chunk with
      | last data => exact moves_of_same rfl rfl
      | more data => rfl

theorem pollNextData_moves (H : Httparse) (mp : Multipart ε) : Moves mp (mp.pollNextData H).2 :=
  (mp.pollEnsureHeaders_moves H).onReady fun _ mp =>
    mp.finishHeaders_moves.trans mp.finishHeaders.pollNextPartDataChunk_moves

theorem pollSkipPartData_moves (mp : Multipart ε) : Moves mp mp.pollSkipPartData.2 := by
  fun_induction pollSkipPartData mp with
  | case1 mp mp₁ hchunk =>
    have h := mp.pollNextPartDataChunk_moves
    rwa [hchunk] at h
  | case2 mp data mp₁ hchunk ih =>
    have h := mp.pollNextPartDataChunk_moves
    rw [hchunk] at h
    exact h.trans ih
  | case3 mp mp₁ hchunk =>
    have h := mp.pollNextPartDataChunk_moves
    rwa [hchunk] at h
  | case4 mp e mp₁ hchunk =>
    have h := mp.pollNextPartDataChunk_moves
    rwa [hchunk] at h

theorem afterBoundary_moves (mp : Multipart ε) :
    Moves mp mp.pollAdvanceAfterBoundary.2 :=
  (mp.onBuffer_moves StreamBuffer.advanceAfterBoundary_moves).onReady fun _ _ => moves_of_same rfl rfl

theorem awaits_moves (H : Httparse) (mp : Multipart ε) : Moves mp (mp.nextPartAwaits H).2 := by
  unfold nextPartAwaits
  cases mp.state with
  | streamTaken => rfl
  | done => rfl
  | findingFirstBoundary =>
    exact (mp.onBuffer_moves (StreamBuffer.pollReadTo_moves _)).onReady fun _ _ => moves_of_same rfl rfl
  | readingPartHeaders =>
    exact (mp.pollEnsureHeaders_moves H).onReady fun _ mp => mp.finishHeaders_moves
  | readingPartData =>
    exact mp.pollSkipPartData_moves.onReady fun _ mp => mp.afterBoundary_moves
  | readingBoundary => exact mp.afterBoundary_moves
  | readingClosingDelimiter =>
    exact (mp.onBuffer_moves StreamBuffer.consumePaddingAndCrlf_moves).onReady
      fun _ _ => moves_of_same rfl rfl
  | readingEpilogue =>
    exact (mp.onBuffer_moves StreamBuffer.epilogue_moves).onReady fun _ _ => moves_of_same rfl rfl

theorem nextPartReturns_moves {r : Except (Error ε) (Option Unit)}
    (h : mp.nextPartReturns = some (r, mp')) : Moves mp mp' := by
  unfold nextPartReturns at h
  split at h
  · cases h
    rfl
  · cases h
    rfl
  · split at h
    · cases h
    · cases h
      exact moves_of_same rfl rfl
  · cases h

/-- A call of the parser that is polled once. -/
inductive Call (H : Httparse) : Multipart ε → Multipart ε → Prop where
  | awaits (mp : Multipart ε) : Call H mp (mp.nextPartAwaits H).2
  | returns {mp mp' : Multipart ε} {r : Except (Error ε) (Option Unit)}
    (arm : mp.nextPartReturns = some (r, mp')) : Call H mp mp'
  | header (mp : Multipart ε) : Call H mp (mp.pollNextHeader H).2
  | data (mp : Multipart ε) : Call H mp (mp.pollNextData H).2

theorem Call.moves (h : Call H mp mp') : Moves mp mp' := by
  cases h with
  | awaits => exact mp.awaits_moves H
  | returns arm => exact nextPartReturns_moves arm
  | header => exact mp.pollNextHeader_moves H
  | data => exact mp.pollNextData_moves H

/-- The states that a caller brings the parser to, polled any number of times. -/
abbrev Called (H : Httparse) : Multipart ε → Multipart ε → Prop := Relation.ReflTransGen (Call H)

theorem Called.moves (h : Called H mp mp') : Moves mp mp' := by
  induction h with
  | refl => rfl
  | tail _ hcall ih => exact ih.trans hcall.moves

/-- A call that is polled until it is ready. -/
theorem called_of_settles {α : Type} {step : Multipart ε → Poll α × Multipart ε} {r : α}
    (hstep : ∀ mp, Call H mp (step mp).2) (h : Settles step mp r mp') : Called H mp mp' := by
  induction h with
  | @ready mp mp' r result =>
    have hcall := hstep mp
    rw [result] at hcall
    exact .single hcall
  | @pending mp mp₁ mp' r result rest ih =>
    have hcall := hstep mp
    rw [result] at hcall
    exact .head hcall ih

theorem called_of_nextPart {r : Except (Error ε) (Option Unit)} (h : NextPart H mp r mp') :
    Called H mp mp' := by
  induction h with
  | returns arm => exact .single (.returns arm)
  | failed arm await => exact called_of_settles .awaits await
  | again arm await rest ih => exact (called_of_settles .awaits await).trans ih

end Multipart

namespace FinalPartDataStream

theorem pollData_moves (f : FinalPartDataStream ε) : f.buffer.Moves f.pollData.2.buffer := by
  unfold pollData
  split
  · rfl
  · have h := f.buffer.partDataLoop_moves f.delimiterFinder
    rcases hloop : f.buffer.partDataLoop f.delimiterFinder with ⟨_ | (e | (data | data)), b'⟩ <;>
      rw [hloop] at h <;> exact h

theorem trailerStep_moves {state : DataState} (f : FinalPartDataStream ε)
    {step : StreamBuffer ε → Poll (Except (Error ε) Unit) × StreamBuffer ε}
    (hstep : ∀ b, StreamBuffer.Moves b (step b).2) :
    f.buffer.Moves (f.trailerStep step state).2.buffer := by
  have h := hstep f.buffer
  unfold trailerStep
  rcases hpoll : step f.buffer with ⟨_ | (e | u), b'⟩ <;> rw [hpoll] at h <;> exact h

theorem onReady_moves {f : FinalPartDataStream ε}
    {r : Poll (Except (Error ε) Unit) × FinalPartDataStream ε}
    {k : Unit → FinalPartDataStream ε → Poll (Except (Error ε) Unit) × FinalPartDataStream ε}
    (h : f.buffer.Moves r.2.buffer) (hk : ∀ f₁ : FinalPartDataStream ε,
      f₁.buffer.Moves (k () f₁).2.buffer) : f.buffer.Moves (onReady r k).2.buffer := by
  rcases r with ⟨_ | (e | u), f₁⟩
  · exact h
  · exact h
  · exact h.trans (hk f₁)

theorem pollFinalCrlf_moves (f : FinalPartDataStream ε) : f.buffer.Moves f.pollFinalCrlf.2.buffer :=
  onReady_moves (f.trailerStep_moves StreamBuffer.finalCrlf_moves) fun f₁ =>
    f₁.trailerStep_moves StreamBuffer.epilogue_moves

theorem pollTrailer_moves (f : FinalPartDataStream ε) : f.buffer.Moves f.pollTrailer.2.buffer := by
  unfold pollTrailer
  cases f.state with
  | data => rfl
  | done => rfl
  | eof => exact f.trailerStep_moves StreamBuffer.epilogue_moves
  | finalCrlf => exact f.pollFinalCrlf_moves
  | afterBoundary =>
    exact onReady_moves (f.trailerStep_moves StreamBuffer.closeMark_moves) fun f₁ =>
      f₁.pollFinalCrlf_moves

theorem pollEnd_moves (f : FinalPartDataStream ε) : f.buffer.Moves f.pollEnd.2.buffer := by
  have h := f.pollTrailer_moves
  unfold pollEnd
  rcases hpoll : f.pollTrailer with ⟨_ | (e | u), f'⟩ <;> rw [hpoll] at h <;> exact h

theorem pollNext_moves (f : FinalPartDataStream ε) : f.buffer.Moves f.pollNext.2.buffer := by
  unfold pollNext
  split
  · rfl
  · cases f.state with
    | data =>
      have h := f.pollData_moves
      rcases hpoll : f.pollData with ⟨_ | (e | (_ | data)), f'⟩ <;> rw [hpoll] at h
      · exact h
      · exact h
      · exact h.trans f'.pollEnd_moves
      · exact h
    | done => rfl
    | eof => exact f.pollEnd_moves
    | finalCrlf => exact f.pollEnd_moves
    | afterBoundary => exact f.pollEnd_moves

end FinalPartDataStream
end S3s.FormData
