import S3s.FormData.Runs

/-! # Polls that are not ready

The same stream with the polls that are not ready left out: a reader that is
resumed after such a poll answers as it answers there. What follows a boundary is
read again from its first byte, also when padding has been consumed before.
-/
namespace S3s.FormData
open Polling Search

variable {ε : Type}

namespace StreamBuffer

/-- The buffer in front of the same stream, which is always ready. -/
def prompt (b : StreamBuffer ε) : StreamBuffer ε :=
  { b with stream := b.stream.map (List.filter fun a => !isPending a) }

variable {b b' b₁ : StreamBuffer ε}

@[simp] theorem prompt_buf (b : StreamBuffer ε) : b.prompt.buf = b.buf := rfl

@[simp] theorem prompt_eof (b : StreamBuffer ε) : b.prompt.eof = b.eof := rfl

@[simp] theorem prompt_readUntilCursor (b : StreamBuffer ε) :
    b.prompt.readUntilCursor = b.readUntilCursor := rfl

@[simp] theorem prompt_readUntilActive (b : StreamBuffer ε) :
    b.prompt.readUntilActive = b.readUntilActive := rfl

/-- A poll of the stream, against one where the stream is always ready. -/
theorem pollStream_prompt (hb : b.Plain) :
    Yields (fun b' => b'.prompt = b.prompt)
      (fun r b' => b.prompt.pollStream = (.ready r, b'.prompt)) b.pollStream := by
  obtain ⟨script, hscript⟩ := hb.script
  have hplain := hb.answers
  obtain ⟨buf, stream, eof, total, cursor, active, empty⟩ := b
  obtain rfl : stream = some script := hscript
  rcases script with _ | ⟨_ | (_ | (e | bytes)), script⟩
  · rfl
  · rfl
  · exact (hplain _ (List.mem_cons_self ..)).elim
  · exact (hplain _ (List.mem_cons_self ..)).elim
  · have hne : bytes ≠ [] := hplain _ (List.mem_cons_self ..)
    have hempty : bytes.isEmpty = false := by simpa using hne
    simp [pollStream, pollStreamLoop, emptyChunksPerPoll, hempty, prompt, isPending, Yields]

theorem Plain.prompt_pending (hb : b.Plain) (h : b.pollStream = (.pending, b')) :
    b'.prompt = b.prompt := by
  have hprompt := pollStream_prompt hb
  rwa [h] at hprompt

theorem Plain.prompt_ready {r : Option (Except (Error ε) Bytes)} (hb : b.Plain)
    (h : b.pollStream = (.ready r, b')) : b.prompt.pollStream = (.ready r, b'.prompt) := by
  have hprompt := pollStream_prompt hb
  rwa [h] at hprompt

/-- A reading that is resumed where the stream was not ready, against one where it always is. -/
def Skips {α : Type} (f : StreamBuffer ε → Poll (Except (Error ε) α) × StreamBuffer ε)
    (b : StreamBuffer ε) : Prop :=
  Yields (fun b' => f b'.prompt = f b.prompt) (fun r b' => f b.prompt = (.ready r, b'.prompt)) (f b)

theorem ensureBufLen_eq (len : Nat) (b : StreamBuffer ε) :
    ensureBufLen len b =
      if b.buf.length < len then
        match b.pollStream with
        | (.pending, b) => (.pending, b)
        | (.ready (some (.ok chunk)), b) => ensureBufLen len { b with buf := b.buf ++ chunk }
        | (.ready (some (.error e)), b) => (.ready (.error e), b)
        | (.ready none, b) => (.ready (.error .incompleteStream), b)
      else (.ready (.ok ()), b) := by
  rw [ensureBufLen]
  split
  · split <;> next h => rw [h]
  · rfl

theorem ensureBufLen_skips (len : Nat) (b : StreamBuffer ε) (hb : b.Plain) :
    Skips (ensureBufLen len) b := by
  unfold Skips
  fun_induction ensureBufLen len b with
  | case1 b hlt b₁ hpoll =>
    exact congrArg (ensureBufLen len) (hb.prompt_pending hpoll)
  | case2 b hlt chunk b₁ hpoll ih =>
    have h := hb.prompt_ready hpoll
    have hstep : ensureBufLen len b.prompt = ensureBufLen len (prompt { b₁ with buf := b₁.buf ++ chunk }) := by
      rw [ensureBufLen_eq, if_pos (by exact hlt), h]
      rfl
    rw [hstep]
    exact ih (hb.chunk hpoll b₁.readUntilCursor).1.plain
  | case3 b hlt e b₁ hpoll => exact (hb.not_error hpoll).elim
  | case4 b hlt b₁ hpoll =>
    have h := hb.prompt_ready hpoll
    rw [Yields, ensureBufLen_eq, if_pos (by exact hlt), h]
  | case5 b hlt =>
    rw [Yields, ensureBufLen_eq, if_neg (by exact hlt)]

/-- A reading and what is done at once with its value. -/
theorem Skips.onReady {α β : Type} {f : StreamBuffer ε → Poll (Except (Error ε) α) × StreamBuffer ε}
    {k : α → StreamBuffer ε → Poll (Except (Error ε) β) × StreamBuffer ε} (h : Skips f b)
    (hk : ∀ a b, ∃ r b', k a b = (.ready r, b') ∧ k a b.prompt = (.ready r, b'.prompt)) :
    Skips (fun b => Polling.onReady (f b) k) b := by
  unfold Skips at h ⊢
  dsimp only
  rcases hf : f b with ⟨_ | (e | a), b₁⟩
  · rw [hf] at h
    have hsame : f b₁.prompt = f b.prompt := h
    rw [onReady_pending, Yields, hsame]
  · rw [hf] at h
    have hready : f b.prompt = (.ready (.error e), b₁.prompt) := h
    rw [onReady_error, Yields, hready, onReady_error]
  · rw [hf] at h
    have hready : f b.prompt = (.ready (.ok a), b₁.prompt) := h
    obtain ⟨r, b', hnext, hprompt⟩ := hk a b₁
    rw [onReady_ok, hnext, Yields, hready, onReady_ok, hprompt]

theorem consumeCrlf_skips (hb : b.Plain) : Skips consumeCrlf b := by
  refine (ensureBufLen_skips 2 b hb).onReady fun _ b => ?_
  by_cases hcrlf : b.buf.take 2 = crlf
  · exact ⟨_, _, if_pos hcrlf, if_pos hcrlf⟩
  · exact ⟨_, _, if_neg hcrlf, if_neg hcrlf⟩

theorem ensureBufLen_enough {len : Nat} (h : len ≤ b.buf.length) :
    ensureBufLen len b = (.ready (.ok ()), b) := by
  rw [ensureBufLen_eq, if_neg (Nat.not_lt.mpr h)]

/-- What has arrived stays in the buffer. -/
theorem ensureBufLen_grows (len : Nat) (b : StreamBuffer ε) (hb : b.Plain) :
    b.buf <+: (ensureBufLen len b).2.buf := by
  fun_induction ensureBufLen len b with
  | case1 b hlt b₁ hpoll => exact (hb.pending hpoll).2.1 ▸ List.prefix_refl _
  | case2 b hlt chunk b₁ hpoll ih =>
    obtain ⟨hleft, -, hbuf, -⟩ := hb.chunk hpoll b₁.readUntilCursor
    have hgrows := ih hleft.plain
    rw [hbuf] at hgrows ⊢
    exact (List.prefix_append _ _).trans hgrows
  | case3 b hlt e b₁ hpoll => exact (hb.not_error hpoll).elim
  | case4 b hlt b₁ hpoll => exact (hb.ends hpoll).2.2.1 ▸ List.prefix_refl _
  | case5 b hlt => exact List.prefix_refl _

theorem headD_of_front {buf more : Bytes} (h : buf <+: more) (hne : 1 ≤ buf.length) :
    more.headD 0 = buf.headD 0 := by
  obtain ⟨rest, rfl⟩ := h
  cases buf with
  | nil => cases hne
  | cons c buf => rfl

theorem consumePaddingAndCrlf_eq (b : StreamBuffer ε) :
    consumePaddingAndCrlf b = onReady (ensureBufLen 1 b) fun _ b =>
      if b.buf.headD 0 = cr then consumeCrlf b
      else if Bytes.isBlank (b.buf.headD 0) = true then
        consumePaddingAndCrlf { b with buf := b.buf.dropWhile Bytes.isBlank }
      else (.ready (.error .invalidFormat), b) := by
  rw [consumePaddingAndCrlf]
  split
  · next h => rw [h, onReady_pending]
  · next h => rw [h, onReady_error]
  · next h =>
    rw [h, onReady_ok]
    split
    · rfl
    · split <;> rfl

/-- While the line end is waited for, its first byte is in the buffer. -/
theorem consumeCrlf_pending (hb : b.Plain) (h : b.consumeCrlf = (.pending, b')) :
    b.buf <+: b'.buf := by
  have hgrows := ensureBufLen_grows 2 b hb
  unfold consumeCrlf at h
  rcases hlen : ensureBufLen 2 b with ⟨_ | (e | u), b₁⟩
  · rw [hlen] at h hgrows
    cases h
    exact hgrows
  · rw [hlen] at h
    cases h
  · rw [hlen, onReady_ok] at h
    split at h <;> cases h

theorem consumePaddingAndCrlf_skips (b : StreamBuffer ε) (hb : b.Plain) :
    Skips consumePaddingAndCrlf b := by
  unfold Skips
  fun_induction consumePaddingAndCrlf b with
  | case1 b b₁ hlen =>
    have h := ensureBufLen_skips 1 b hb
    rw [Skips, hlen] at h
    rw [Yields, consumePaddingAndCrlf_eq, consumePaddingAndCrlf_eq b.prompt, h]
  | case2 b e b₁ hlen =>
    have h := ensureBufLen_skips 1 b hb
    rw [Skips, hlen] at h
    rw [Yields, consumePaddingAndCrlf_eq, h, onReady_error]
  | case3 b b₁ hlen hcr =>
    have h := ensureBufLen_skips 1 b hb
    have hyields := ensureBufLen_yields 1 b hb
    rw [hlen] at hyields
    rw [Skips, hlen] at h
    obtain ⟨hleft, hlong⟩ := hyields
    have hstart : consumePaddingAndCrlf b.prompt = consumeCrlf b₁.prompt := by
      rw [consumePaddingAndCrlf_eq, h, onReady_ok]
      exact if_pos hcr
    have hcrlf := consumeCrlf_skips hleft.plain
    unfold Skips at hcrlf
    rw [hstart]
    rcases hpoll : consumeCrlf b₁ with ⟨_ | r, b'⟩
    · rw [hpoll] at hcrlf
      have hfront := consumeCrlf_pending hleft.plain hpoll
      have hlen' : 1 ≤ b'.prompt.buf.length := hlong.trans hfront.length_le
      rw [Yields, consumePaddingAndCrlf_eq, ensureBufLen_enough hlen', onReady_ok, if_pos]
      · exact hcrlf
      · exact (headD_of_front hfront hlong).trans hcr
    · rw [hpoll] at hcrlf
      exact hcrlf
  | case4 b b₁ hlen hcr hpad ih =>
    have h := ensureBufLen_skips 1 b hb
    have hyields := ensureBufLen_yields 1 b hb
    rw [hlen] at hyields
    rw [Skips, hlen] at h
    have hstart : consumePaddingAndCrlf b.prompt =
        consumePaddingAndCrlf (prompt { b₁ with buf := b₁.buf.dropWhile Bytes.isBlank }) := by
      rw [consumePaddingAndCrlf_eq, h, onReady_ok]
      exact (if_neg hcr).trans (if_pos hpad)
    rw [hstart]
    exact ih (hyields.1.setBuf _).plain
  | case5 b b₁ hlen hcr hpad =>
    have h := ensureBufLen_skips 1 b hb
    rw [Skips, hlen] at h
    rw [Yields, consumePaddingAndCrlf_eq, h, onReady_ok]
    exact (if_neg hcr).trans (if_neg hpad)

theorem epilogue_skips (hb : b.Plain) : Skips epilogue b := by
  have h := pollStream_prompt hb
  unfold Skips epilogue
  by_cases hne : (!b.buf.isEmpty) = true
  · rw [if_pos hne]
    exact if_pos hne
  · rw [if_neg hne, prompt_buf, if_neg hne]
    rcases hpoll : b.pollStream with ⟨_ | (_ | (e | c)), b₁⟩
    · rw [hpoll] at h
      obtain ⟨-, hbuf, -⟩ := hb.pending hpoll
      have hsame : b₁.prompt = b.prompt := h
      rw [Yields, hsame, prompt_buf, if_neg hne]
    · rw [hpoll] at h
      rw [Yields, h]
    · exact (hb.not_error hpoll).elim
    · rw [hpoll] at h
      rw [Yields, h]

theorem dataChunkLoop_eq (delimiter : Bytes) (b : StreamBuffer ε) :
    dataChunkLoop delimiter b =
      match searchBuffered b.buf delimiter with
      | .found index =>
        (.ready (.ok (.last (b.buf.take index))),
          { b with buf := b.buf.drop (index + delimiter.length) })
      | .emit stop => (.ready (.ok (.more (b.buf.take stop))), { b with buf := b.buf.drop stop })
      | .keepAll =>
        match b.pollStream with
        | (.pending, b) => (.pending, b)
        | (.ready (some (.ok chunk)), b) =>
          if !b.buf.isEmpty then dataChunkLoop delimiter { b with buf := b.buf ++ chunk }
          else
            match searchData chunk delimiter with
            | .found index =>
              (.ready (.ok (.last (chunk.take index))),
                { b with buf := chunk.drop (index + delimiter.length) })
            | .emit stop =>
              (.ready (.ok (.more (chunk.take stop))), { b with buf := b.buf ++ chunk.drop stop })
            | .keepAll => dataChunkLoop delimiter { b with buf := b.buf ++ chunk }
        | (.ready (some (.error e)), b) => (.ready (.error e), b)
        | (.ready none, b) => (.ready (.error .incompleteStream), b) := by
  rw [dataChunkLoop]
  cases searchBuffered b.buf delimiter with
  | found index => rfl
  | emit stop => rfl
  | keepAll =>
    dsimp only
    split
    · next h => rw [h]
    · next chunk b₁ h =>
      cases hsearch : searchData chunk delimiter <;> simp only [h, hsearch]
    · next h => rw [h]
    · next h => rw [h]

theorem dataChunkLoop_skips (delimiter : Bytes) (b : StreamBuffer ε) (hb : b.Plain) :
    Skips (dataChunkLoop delimiter) b := by
  unfold Skips
  fun_induction dataChunkLoop delimiter b with
  | case1 b index hfound => rw [Yields, dataChunkLoop_eq, prompt_buf, hfound]; rfl
  | case2 b stop hemit => rw [Yields, dataChunkLoop_eq, prompt_buf, hemit]; rfl
  | case3 b hkeep b₁ hpoll =>
    exact congrArg (dataChunkLoop delimiter) (hb.prompt_pending hpoll)
  | case4 b hkeep chunk b₁ hpoll hfull ih =>
    have h := hb.prompt_ready hpoll
    have hstep : dataChunkLoop delimiter b.prompt =
        dataChunkLoop delimiter (prompt { b₁ with buf := b₁.buf ++ chunk }) := by
      rw [dataChunkLoop_eq, prompt_buf, hkeep, h]
      exact if_pos hfull
    rw [hstep]
    exact ih (hb.chunk hpoll b₁.readUntilCursor).1.plain
  | case5 b hkeep chunk b₁ hpoll hempty index hfound =>
    have h := hb.prompt_ready hpoll
    rw [Yields, dataChunkLoop_eq, prompt_buf, hkeep, h]
    simp only [prompt_buf, if_neg hempty, hfound]
    rfl
  | case6 b hkeep chunk b₁ hpoll hempty stop hemit =>
    have h := hb.prompt_ready hpoll
    rw [Yields, dataChunkLoop_eq, prompt_buf, hkeep, h]
    simp only [prompt_buf, if_neg hempty, hemit]
    rfl
  | case7 b hkeep chunk b₁ hpoll hempty hall ih =>
    have h := hb.prompt_ready hpoll
    have hstep : dataChunkLoop delimiter b.prompt =
        dataChunkLoop delimiter (prompt { b₁ with buf := b₁.buf ++ chunk }) := by
      rw [dataChunkLoop_eq, prompt_buf, hkeep, h]
      simp only [prompt_buf, if_neg hempty, hall]
      rfl
    rw [hstep]
    exact ih (hb.chunk hpoll b₁.readUntilCursor).1.plain
  | case8 b hkeep e b₁ hpoll => exact (hb.not_error hpoll).elim
  | case9 b hkeep b₁ hpoll =>
    have h := hb.prompt_ready hpoll
    rw [Yields, dataChunkLoop_eq, prompt_buf, hkeep, h]

theorem pollReadTo_eq (needle : Bytes) (b : StreamBuffer ε) :
    pollReadTo needle b =
      match find needle b.buf with
      | some idx => (.ready (.ok ()), { b with buf := b.buf.drop (idx + needle.length) })
      | none =>
        if b.eof then (.ready (.error .invalidFormat), b)
        else
          match b.pollStream with
          | (.pending, b) => (.pending, b)
          | (.ready (some (.ok chunk)), b) =>
            let buf := b.buf ++ chunk
            match find needle buf with
            | some idx => (.ready (.ok ()), { b with buf := buf.drop (idx + needle.length) })
            | none =>
              pollReadTo needle { b with
                buf := buf.drop (buf.length - min (needle.length - 1) buf.length) }
          | (.ready (some (.error e)), b) => (.ready (.error e), b)
          | (.ready none, b) => (.ready (.error .invalidFormat), { b with eof := true }) := by
  rw [pollReadTo]
  cases find needle b.buf with
  | some idx => rfl
  | none =>
    dsimp only
    split
    · rfl
    · split
      · next h => rw [h]
      · next chunk b₁ h =>
        by_cases hempty : b₁.buf.isEmpty = true
        · have hnil : b₁.buf = [] := by simpa using hempty
          cases hfind : find needle chunk <;>
            simp only [h, hnil, List.isEmpty_nil, if_true, List.nil_append, hfind]
        · cases hfind : find needle (b₁.buf ++ chunk) <;> simp only [h, if_neg hempty, hfind]
      · next h => rw [h]
      · next h => rw [h]

theorem pollReadTo_skips (needle : Bytes) (b : StreamBuffer ε) (hb : b.Plain) :
    Skips (pollReadTo needle) b := by
  unfold Skips
  fun_induction pollReadTo needle b with
  | case1 b idx hfind =>
    rw [Yields, pollReadTo_eq, prompt_buf, hfind]
    rfl
  | case2 b hfind heof =>
    rw [Yields, pollReadTo_eq, prompt_buf, hfind]
    exact if_pos heof
  | case3 b hfind heof b₁ hpoll =>
    exact congrArg (pollReadTo needle) (hb.prompt_pending hpoll)
  | case4 b hfind heof chunk b₁ hpoll hempty idx hchunk =>
    have hnil : b₁.buf = [] := by simpa using hempty
    rw [Yields, pollReadTo_eq, prompt_buf, hfind]
    refine (if_neg heof).trans ?_
    simp only [hb.prompt_ready hpoll, prompt_buf, hnil, List.nil_append, hchunk]
    rfl
  | case5 b hfind heof chunk b₁ hpoll hempty hchunk keep ih =>
    have hnil : b₁.buf = [] := by simpa using hempty
    have hstep : pollReadTo needle b.prompt =
        pollReadTo needle (prompt { b₁ with buf := chunk.drop (chunk.length - keep) }) := by
      rw [pollReadTo_eq, prompt_buf, hfind]
      refine (if_neg heof).trans ?_
      simp only [hb.prompt_ready hpoll, prompt_buf, hnil, List.nil_append, hchunk]
      rfl
    rw [hstep]
    exact ih ((hb.chunk_of_empty hpoll hnil).setBuf _).plain
  | case6 b hfind heof chunk b₁ hpoll hempty buf idx hchunk =>
    have hfound : find needle (b₁.buf ++ chunk) = some idx := hchunk
    rw [Yields, pollReadTo_eq, prompt_buf, hfind]
    refine (if_neg heof).trans ?_
    simp only [hb.prompt_ready hpoll, prompt_buf, hfound]
    rfl
  | case7 b hfind heof chunk b₁ hpoll hempty buf hchunk keep ih =>
    have hnone : find needle (b₁.buf ++ chunk) = none := hchunk
    have hstep : pollReadTo needle b.prompt =
        pollReadTo needle (prompt { b₁ with buf := buf.drop (buf.length - keep) }) := by
      rw [pollReadTo_eq, prompt_buf, hfind]
      refine (if_neg heof).trans ?_
      simp only [hb.prompt_ready hpoll, prompt_buf, hnone]
      rfl
    rw [hstep]
    exact ih ((hb.chunk hpoll b₁.readUntilCursor).1.setBuf _).plain
  | case8 b hfind heof e b₁ hpoll => exact (hb.not_error hpoll).elim
  | case9 b hfind heof b₁ hpoll =>
    rw [Yields, pollReadTo_eq, prompt_buf, hfind]
    refine (if_neg heof).trans ?_
    rw [hb.prompt_ready hpoll]
    rfl

theorem readUntilLoop_skips (needle : Bytes) (max : Nat) (b : StreamBuffer ε) (hb : b.Plain) :
    Skips (readUntilLoop needle max) b := by
  unfold Skips
  fun_induction readUntilLoop needle max b with
  | case1 b rel hfind stop hstop =>
    rw [Yields, readUntilLoop_eq, prompt_buf, prompt_readUntilCursor, hfind]
    exact if_pos hstop
  | case2 b rel hfind stop hstop =>
    rw [Yields, readUntilLoop_eq, prompt_buf, prompt_readUntilCursor, hfind]
    exact if_neg hstop
  | case3 b hfind hlong =>
    rw [Yields, readUntilLoop_eq, prompt_buf, prompt_readUntilCursor, hfind]
    exact if_pos hlong
  | case4 b hfind hlong heof =>
    rw [Yields, readUntilLoop_eq, prompt_buf, prompt_readUntilCursor, hfind]
    exact (if_neg hlong).trans (if_pos heof)
  | case5 b hfind hlong heof b₁ hpoll =>
    exact congrArg (readUntilLoop needle max) (hb.prompt_pending hpoll)
  | case6 b hfind hlong heof chunk b₁ hpoll ih =>
    have h := hb.prompt_ready hpoll
    have hstep : readUntilLoop needle max b.prompt = readUntilLoop needle max (prompt { b₁ with
        buf := b₁.buf ++ chunk, readUntilCursor := b₁.buf.length - (needle.length - 1) }) := by
      rw [readUntilLoop_eq, prompt_buf, prompt_readUntilCursor, hfind]
      refine (if_neg hlong).trans ((if_neg heof).trans ?_)
      rw [h]
      rfl
    rw [hstep]
    exact ih (hb.chunk hpoll _).1.plain
  | case7 b hfind hlong heof e b₁ hpoll => exact (hb.not_error hpoll).elim
  | case8 b hfind hlong heof b₁ hpoll =>
    have h := hb.prompt_ready hpoll
    rw [Yields, readUntilLoop_eq, prompt_buf, prompt_readUntilCursor, hfind]
    refine (if_neg hlong).trans ((if_neg heof).trans ?_)
    rw [h]
    rfl

/-- While the end of the block is waited for, what has arrived stays in the buffer. -/
theorem readUntilLoop_pending {needle : Bytes} {max : Nat} (b : StreamBuffer ε) (hb : b.Plain) :
    ∀ b', readUntilLoop needle max b = (.pending, b') →
      b.buf <+: b'.buf ∧ b'.readUntilActive = b.readUntilActive ∧ b.eof = false := by
  fun_induction readUntilLoop needle max b with
  | case1 b rel hfind stop hstop => nofun
  | case2 b rel hfind stop hstop => nofun
  | case3 b hfind hlong => nofun
  | case4 b hfind hlong heof => nofun
  | case5 b hfind hlong heof b₁ hpoll =>
    rintro b' ⟨⟩
    obtain ⟨⟨hleft, -⟩, hbuf, -⟩ := hb.pending hpoll
    exact ⟨hbuf ▸ List.prefix_refl _, hleft.active, by simpa using heof⟩
  | case6 b hfind hlong heof chunk b₁ hpoll ih =>
    intro b' h
    obtain ⟨hleft, -, hbuf, -⟩ := hb.chunk hpoll (b₁.buf.length - (needle.length - 1))
    obtain ⟨hfront, hactive, -⟩ := ih hleft.plain b' h
    have hhead : b.buf <+: b₁.buf ++ chunk := hbuf ▸ List.prefix_append _ _
    exact ⟨hhead.trans hfront, hactive.trans hleft.active, by simpa using heof⟩
  | case7 b hfind hlong heof e b₁ hpoll => nofun
  | case8 b hfind hlong heof b₁ hpoll => nofun

theorem waitForTwo_eq (b : StreamBuffer ε) :
    waitForTwo b =
      if b.buf.length < 2 && !b.eof then
        match pollStream { b with readUntilActive := false } with
        | (.pending, b) => (.pending, b)
        | (.ready (some (.ok chunk)), b) => waitForTwo { b with buf := b.buf ++ chunk }
        | (.ready (some (.error e)), b) => (.ready (.error e), b)
        | (.ready none, b) => (.ready (.ok ()), { b with eof := true })
      else (.ready (.ok ()), b) := by
  rw [waitForTwo]
  split
  · split <;> next h => rw [h]
  · rfl

theorem waitForTwo_skips (b : StreamBuffer ε) (hb : b.Plain) : Skips waitForTwo b := by
  unfold Skips
  fun_induction waitForTwo b with
  | case1 b hshort b₁ hpoll =>
    have hb₀ : Plain { b with readUntilActive := false } := hb.congr rfl rfl
    have hstart : waitForTwo b.prompt = waitForTwo (prompt { b with readUntilActive := false }) := by
      rw [waitForTwo_eq, waitForTwo_eq (prompt _)]
      exact (if_pos hshort).trans (if_pos hshort).symm
    rw [Yields, hstart, hb₀.prompt_pending hpoll]
  | case2 b hshort chunk b₁ hpoll ih =>
    have hb₀ : Plain { b with readUntilActive := false } := hb.congr rfl rfl
    have hstep : waitForTwo b.prompt = waitForTwo (prompt { b₁ with buf := b₁.buf ++ chunk }) := by
      rw [waitForTwo_eq]
      refine (if_pos hshort).trans ?_
      rw [show pollStream { b.prompt with readUntilActive := false } = _ from hb₀.prompt_ready hpoll]
      rfl
    rw [hstep]
    exact ih (hb₀.chunk hpoll b₁.readUntilCursor).1.plain
  | case3 b hshort e b₁ hpoll =>
    have hb₀ : Plain { b with readUntilActive := false } := hb.congr rfl rfl
    exact (hb₀.not_error hpoll).elim
  | case4 b hshort b₁ hpoll =>
    have hb₀ : Plain { b with readUntilActive := false } := hb.congr rfl rfl
    rw [Yields, waitForTwo_eq]
    refine (if_pos hshort).trans ?_
    rw [show pollStream { b.prompt with readUntilActive := false } = _ from hb₀.prompt_ready hpoll]
    rfl
  | case5 b hlong =>
    rw [Yields, waitForTwo_eq]
    exact if_neg hlong

/-- Two bytes are there, or the stream has been found at its end. -/
theorem waitForTwo_enough (b : StreamBuffer ε) :
    ∀ b', waitForTwo b = (.ready (.ok ()), b') → 2 ≤ b'.buf.length ∨ b'.eof = true := by
  fun_induction waitForTwo b with
  | case1 b hshort b₁ hpoll => rintro _ ⟨⟩
  | case2 b hshort chunk b₁ hpoll ih => exact ih
  | case3 b hshort e b₁ hpoll => rintro _ ⟨⟩
  | case4 b hshort b₁ hpoll =>
    rintro b' ⟨⟩
    exact .inr rfl
  | case5 b hlong =>
    rintro b' ⟨⟩
    by_cases heof : b.eof = true
    · exact .inr heof
    · refine .inl (Nat.le_of_not_lt fun hshort => hlong ?_)
      simp [hshort, heof]

/-- The search for the end of the block, begun or resumed. -/
theorem pollReadUntil_eq (needle : Bytes) (max : Nat) (b : StreamBuffer ε) :
    ∃ b₀ : StreamBuffer ε, b₀.buf = b.buf ∧ b₀.eof = b.eof ∧ b₀.stream = b.stream ∧
      b₀.readUntilActive = true ∧ pollReadUntil needle max b = readUntilLoop needle max b₀ ∧
      pollReadUntil needle max b.prompt = readUntilLoop needle max b₀.prompt := by
  by_cases hactive : b.readUntilActive = true
  · exact ⟨b, rfl, rfl, rfl, hactive, if_pos hactive, if_pos hactive⟩
  · exact ⟨{ b with readUntilCursor := 0, readUntilActive := true }, rfl, rfl, rfl, rfl,
      if_neg hactive, if_neg hactive⟩

theorem pollReadHeaderBlock_skips (max : Nat) (hb : b.Plain) (hresumable : b.Resumable) :
    Skips (pollReadHeaderBlock max) b := by
  have htwo := waitForTwo_yields b hb hresumable
  have hskips := waitForTwo_skips b hb
  unfold Skips at hskips ⊢
  have hstart : ∀ b₁ : StreamBuffer ε, pollReadHeaderBlock max b₁ =
      onReady b₁.waitForTwo fun _ b =>
        if crlf.isPrefixOf b.buf then (.ready (.ok 2), { b with readUntilActive := false })
        else pollReadUntil (crlf ++ crlf) max b := by
    intro b₁
    unfold pollReadHeaderBlock
    rcases b₁.waitForTwo with ⟨_ | (e | u), b₂⟩ <;> rfl
  rcases hwait : b.waitForTwo with ⟨_ | (e | u), b₁⟩
  · rw [hwait] at hskips
    have hsame : b₁.prompt.waitForTwo = b.prompt.waitForTwo := hskips
    rw [hstart b, hwait, onReady_pending, Yields, hstart, hstart, hsame]
  · rw [hwait] at htwo
    cases htwo.1
  · rw [hwait] at hskips htwo
    have hready : b.prompt.waitForTwo = (.ready (.ok u), b₁.prompt) := hskips
    rw [hstart b, hstart b.prompt, hwait, hready, onReady_ok, onReady_ok, prompt_buf]
    by_cases hcrlf : crlf.isPrefixOf b₁.buf = true
    · rw [if_pos hcrlf, if_pos hcrlf]
      rfl
    · rw [if_neg hcrlf, if_neg hcrlf]
      obtain ⟨b₀, hbuf, heof, hstream, hactive, hloop, hprompt⟩ :=
        pollReadUntil_eq (crlf ++ crlf) max b₁
      have hplain : b₀.Plain := htwo.2.plain.congr hstream heof
      have h := readUntilLoop_skips (crlf ++ crlf) max b₀ hplain
      unfold Skips at h
      rw [hloop, hprompt]
      rcases hpoll : readUntilLoop (crlf ++ crlf) max b₀ with ⟨_ | r, b'⟩
      · rw [hpoll] at h
        obtain ⟨hfront, hactive', hopen⟩ := readUntilLoop_pending b₀ hplain b' hpoll
        rw [hbuf] at hfront
        have hlen : 2 ≤ b₁.buf.length := by
          rcases waitForTwo_enough b b₁ hwait with hlen | hend
          · exact hlen
          · cases hopen.symm.trans (heof.trans hend)
        have hlen' : 2 ≤ b'.buf.length := hlen.trans hfront.length_le
        have hthere : b'.prompt.waitForTwo = (.ready (.ok ()), b'.prompt) := by
          rw [waitForTwo_eq]
          exact if_neg (by simp [Nat.not_lt.mpr hlen'])
        have hline : ¬ crlf.isPrefixOf b'.prompt.buf = true := by
          intro hp
          have hhead := List.isPrefixOf_iff_prefix.mp hp
          exact hcrlf (List.isPrefixOf_iff_prefix.mpr
            (List.prefix_of_prefix_length_le hhead hfront hlen))
        have hresume : b'.prompt.readUntilActive = true := hactive'.trans hactive
        rw [Yields, hstart, hthere, onReady_ok, if_neg hline, pollReadUntil, if_pos hresume]
        exact h
      · rw [hpoll] at h
        exact h

/-- A reader that was resumed until it was ready answers as it does where the stream always is. -/
theorem prompt_of_settles {α : Type} {f : StreamBuffer ε → Poll (Except (Error ε) α) × StreamBuffer ε}
    {P : StreamBuffer ε → Prop} {r : Except (Error ε) α} (hskips : ∀ b, P b → Skips f b)
    (hwait : ∀ b, P b → Yields P (fun _ _ => True) (f b)) (h : Settles f b r b') (hb : P b) :
    f b.prompt = (.ready r, b'.prompt) := by
  induction h with
  | @ready b b' r result =>
    have hready := hskips b hb
    rw [Skips, result] at hready
    exact hready
  | @pending b b₁ b' r result rest ih =>
    have hpending := hskips b hb
    have hnext := hwait b hb
    rw [Skips, result] at hpending
    rw [result] at hnext
    have hsame : f b₁.prompt = f b.prompt := hpending
    exact hsame.symm.trans (ih hnext)

end StreamBuffer
end S3s.FormData
