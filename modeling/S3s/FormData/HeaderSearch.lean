import S3s.FormData.Reading

/-! # The search for the end of a header block

A search goes on where a needle could start that ends in the chunk that arrives. It
answers as a search of the whole text does, wherever the chunks end and however often
the stream is not ready.
-/
namespace S3s.FormData
open Polling Search

variable {ε : Type}

/-- What a search of the whole text answers. -/
def naiveSearch (needle : Bytes) (max : Nat) (text : Bytes) : Except (Error ε) Nat :=
  match find needle text with
  | some i =>
    if i + needle.length > max then .error (.headerSizeExceeded max) else .ok (i + needle.length)
  | none => if text.length > max then .error (.headerSizeExceeded max) else .error .incompleteStream

section Naive

variable {needle text more : Bytes} {max : Nat}

theorem naiveSearch_found {i : Nat} (hfind : find needle text = some i) :
    naiveSearch (ε := ε) needle max text =
      if i + needle.length > max then .error (.headerSizeExceeded max) else .ok (i + needle.length) := by
  rw [naiveSearch, hfind]

/-- More than the limit without a needle: one that is still to come ends behind the limit. -/
theorem naiveSearch_exceeded (hfind : find needle text = none) (hlong : text.length > max) :
    naiveSearch (ε := ε) needle max (text ++ more) = .error (.headerSizeExceeded max) := by
  cases hmore : find needle (text ++ more) with
  | some i =>
    have hlen : text.length < i + needle.length := length_lt_of_find_append hfind hmore
    rw [naiveSearch_found hmore, if_pos (by omega)]
  | none =>
    have hmax : (text ++ more).length > max := by
      rw [List.length_append]
      omega
    rw [naiveSearch, hmore]
    exact if_pos hmax

theorem naiveSearch_incomplete (hfind : find needle text = none) (hlong : ¬ text.length > max) :
    naiveSearch (ε := ε) needle max text = .error .incompleteStream := by
  rw [naiveSearch, hfind]
  exact if_neg hlong

/-- The end of a block that does not begin with a line end. -/
theorem headerEnd_eq (h : ¬ crlf.isPrefixOf text = true) :
    headerEnd (ε := ε) max text = naiveSearch (crlf ++ crlf) max text := by
  rw [headerEnd, if_neg h]
  rfl

end Naive

namespace StreamBuffer

variable {b b' b₁ : StreamBuffer ε} {needle : Bytes}

theorem readUntilLoop_eq (needle : Bytes) (max : Nat) (b : StreamBuffer ε) :
    readUntilLoop needle max b =
      match find needle (b.buf.drop b.readUntilCursor) with
      | some rel =>
        if b.readUntilCursor + rel + needle.length > max then
          (.ready (.error (.headerSizeExceeded max)), { b with readUntilActive := false })
        else (.ready (.ok (b.readUntilCursor + rel + needle.length)),
          { b with readUntilActive := false })
      | none =>
        if b.buf.length > max then
          (.ready (.error (.headerSizeExceeded max)), { b with readUntilActive := false })
        else if b.eof then (.ready (.error .incompleteStream), { b with readUntilActive := false })
        else
          match b.pollStream with
          | (.pending, b) => (.pending, b)
          | (.ready (some (.ok chunk)), b) =>
            readUntilLoop needle max { b with
              buf := b.buf ++ chunk, readUntilCursor := b.buf.length - (needle.length - 1) }
          | (.ready (some (.error e)), b) => (.ready (.error e), { b with readUntilActive := false })
          | (.ready none, b) =>
            (.ready (.error .incompleteStream), { b with eof := true, readUntilActive := false }) := by
  rw [readUntilLoop]
  cases find needle (b.buf.drop b.readUntilCursor) with
  | some rel => rfl
  | none =>
    dsimp only
    split
    · rfl
    · split
      · rfl
      · split <;> next h => rw [h]

/-- One turn of the loop of `poll_read_until`: the poll is over, or a chunk has arrived. -/
def readUntilTurn (needle : Bytes) (max : Nat) (b : StreamBuffer ε) :
    (Poll (Except (Error ε) Nat) × StreamBuffer ε) ⊕ StreamBuffer ε :=
  match find needle (b.buf.drop b.readUntilCursor) with
  | some rel =>
    let stop := b.readUntilCursor + rel + needle.length
    if stop > max then
      .inl (.ready (.error (.headerSizeExceeded max)), { b with readUntilActive := false })
    else .inl (.ready (.ok stop), { b with readUntilActive := false })
  | none =>
    if b.buf.length > max then
      .inl (.ready (.error (.headerSizeExceeded max)), { b with readUntilActive := false })
    else if b.eof then
      .inl (.ready (.error .incompleteStream), { b with readUntilActive := false })
    else
      match b.pollStream with
      | (.pending, b) => .inl (.pending, b)
      | (.ready (some (.ok chunk)), b) =>
        .inr { b with
          buf := b.buf ++ chunk, readUntilCursor := b.buf.length - (needle.length - 1) }
      | (.ready (some (.error e)), b) => .inl (.ready (.error e), { b with readUntilActive := false })
      | (.ready none, b) =>
        .inl (.ready (.error .incompleteStream), { b with eof := true, readUntilActive := false })

/-- The loop takes turns until the poll is over. -/
theorem readUntilLoop_turn (needle : Bytes) (max : Nat) (b : StreamBuffer ε) :
    readUntilLoop needle max b =
      match readUntilTurn needle max b with
      | .inl result => result
      | .inr b₁ => readUntilLoop needle max b₁ := by
  rw [readUntilLoop_eq, readUntilTurn]
  cases find needle (b.buf.drop b.readUntilCursor) with
  | some rel =>
    dsimp only
    split <;> rfl
  | none =>
    dsimp only
    split
    · rfl
    · split
      · rfl
      · rcases b.pollStream with ⟨_ | (_ | (e | chunk)), b₁⟩ <;> rfl

/-- A search that is being resumed: the needle does not start before the cursor. -/
def Resumable (b : StreamBuffer ε) : Prop :=
  b.readUntilActive = true → b.readUntilCursor ≤ b.buf.length ∧
    NoneBefore (crlf ++ crlf) b.view b.readUntilCursor

/-- What is left while a header block is read: the text to come, and where the search is. -/
structure HeaderWait (b b' : StreamBuffer ε) : Prop where
  plain : b'.Plain
  view : b'.view = b.view
  resumable : b'.Resumable
  pendings : b'.pendings < b.pendings

/-- The block lies in the buffer and the search is over. -/
structure HeaderFound (b : StreamBuffer ε) (stop : Nat) (b' : StreamBuffer ε) : Prop where
  plain : b'.Plain
  view : b'.view = b.view
  inactive : b'.readUntilActive = false
  pendings : b'.pendings ≤ b.pendings
  length : stop ≤ b'.buf.length

theorem HeaderFound.take {stop : Nat} (h : HeaderFound b stop b') :
    b'.buf.take stop = b.view.take stop := by
  rw [← h.view, StreamBuffer.view, List.take_append_of_le_length h.length]

/-- What a reading of a header block answers. -/
def ReadsHeader (max : Nat) (b : StreamBuffer ε) : Except (Error ε) Nat → StreamBuffer ε → Prop
  | .error e, _ => headerEnd max b.view = .error e
  | .ok stop, b' => headerEnd (ε := ε) max b.view = .ok stop ∧ HeaderFound b stop b'

/-- A search under way: the cursor is in the buffer, and no needle starts before it. -/
structure Searching (needle : Bytes) (b b' : StreamBuffer ε) : Prop where
  plain : b'.Plain
  view : b'.view = b.view
  cursor : b'.readUntilCursor ≤ b'.buf.length
  unskipped : NoneBefore needle b.view b'.readUntilCursor
  pendings : b'.pendings ≤ b.pendings

/-- What the search is over with. -/
structure Finds (needle : Bytes) (max : Nat) (b : StreamBuffer ε) (r : Except (Error ε) Nat)
    (b' : StreamBuffer ε) : Prop where
  naive : r = naiveSearch needle max b.view
  found : ∀ stop, r = .ok stop → HeaderFound b stop b'

/-- Nothing is found from the cursor on, so nothing is found in the buffer. -/
theorem Searching.find_buf (h : Searching needle b b₁)
    (hfind : find needle (b₁.buf.drop b₁.readUntilCursor) = none) : find needle b₁.buf = none := by
  have hnone : NoneBefore needle b₁.view b₁.readUntilCursor := by
    rw [h.view]
    exact h.unskipped
  rw [find_of_noneBefore (hnone.of_append h.cursor) h.cursor, hfind]
  rfl

/-- What is found from the cursor on is the first occurrence. -/
theorem Searching.find_view (h : Searching needle b b₁) {rel : Nat}
    (hfind : find needle (b₁.buf.drop b₁.readUntilCursor) = some rel) :
    find needle b.view = some (b₁.readUntilCursor + rel) := by
  have hlen : b₁.readUntilCursor ≤ b.view.length := by
    rw [← h.view, StreamBuffer.view, List.length_append]
    exact h.cursor.trans (Nat.le_add_right _ _)
  rw [find_of_noneBefore h.unskipped hlen, ← h.view, StreamBuffer.view,
    List.drop_append_of_le_length h.cursor, find_append hfind, Option.map_some, Nat.add_comm]

/-- The text to come is what is in the buffer. -/
theorem Searching.incomplete (h : Searching needle b b₁) {max : Nat} (hall : b₁.view = b₁.buf)
    (hfind : find needle (b₁.buf.drop b₁.readUntilCursor) = none) (hlong : ¬ b₁.buf.length > max)
    (b' : StreamBuffer ε) : Finds needle max b (.error .incompleteStream) b' := by
  constructor
  · rw [← h.view, hall, naiveSearch_incomplete (h.find_buf hfind) hlong]
  · exact fun stop hstop => by cases hstop

/-- A chunk arrives: a needle that it completes starts behind the new cursor. -/
theorem Searching.chunk (hneedle : needle ≠ []) (h : Searching needle b b₁) {chunk : Bytes}
    {b₂ : StreamBuffer ε} (hfind : find needle (b₁.buf.drop b₁.readUntilCursor) = none)
    (hpoll : b₁.pollStream = (.ready (some (.ok chunk)), b₂)) :
    Searching needle b { b₂ with
      buf := b₂.buf ++ chunk, readUntilCursor := b₂.buf.length - (needle.length - 1) } := by
  obtain ⟨hleft, -, hbuf, -⟩ := h.plain.chunk hpoll (b₂.buf.length - (needle.length - 1))
  refine ⟨hleft.plain, hleft.view.trans h.view, ?_, ?_, hleft.pendings.trans h.pendings⟩
  · simp only [List.length_append]
    omega
  · rw [← h.view, hbuf]
    exact noneBefore_of_find_eq_none (h.find_buf hfind) hneedle

/-- What a turn does to a search under way. -/
def Turns (needle : Bytes) (max : Nat) (b b₁ : StreamBuffer ε) :
    (Poll (Except (Error ε) Nat) × StreamBuffer ε) ⊕ StreamBuffer ε → Prop
  | .inl result => Yields (fun b' => Searching needle b b' ∧ b'.pendings < b₁.pendings)
      (Finds needle max b) result
  | .inr b' => Searching needle b b' ∧ b'.pendings ≤ b₁.pendings ∧ b'.weight < b₁.weight

theorem readUntilTurn_searches (hneedle : needle ≠ []) (max : Nat) (h : Searching needle b b₁) :
    Turns needle max b b₁ (readUntilTurn needle max b₁) := by
  unfold readUntilTurn
  split
  · next rel hfind =>
    have hfound := @naiveSearch_found ε _ _ max _ (h.find_view hfind)
    have hlen := find_length_le hfind
    rw [List.length_drop] at hlen
    dsimp only
    split
    · next hstop =>
      refine ⟨?_, fun stop hok => by cases hok⟩
      rw [hfound, if_pos hstop]
    · next hstop =>
      refine ⟨?_, ?_⟩
      · rw [hfound, if_neg hstop]
      · rintro _ ⟨⟩
        have hcursor := h.cursor
        exact ⟨h.plain.congr rfl rfl, h.view, rfl, h.pendings, by simp only; omega⟩
  · next hfind =>
    split
    · next hlong =>
      refine ⟨?_, fun stop hok => by cases hok⟩
      rw [← h.view, StreamBuffer.view, naiveSearch_exceeded (h.find_buf hfind) hlong]
    · next hlong =>
      split
      · next heof => exact h.incomplete (h.plain.view_of_eof heof) hfind hlong _
      · split
        · next b₂ hpoll =>
          obtain ⟨⟨hleft, hless⟩, hbuf, hcur⟩ := h.plain.pending hpoll
          refine ⟨⟨hleft.plain, hleft.view.trans h.view, ?_, ?_, hless.le.trans h.pendings⟩, hless⟩
          · rw [hcur, hbuf]
            exact h.cursor
          · rw [hcur]
            exact h.unskipped
        · next chunk b₂ hpoll =>
          obtain ⟨hleft, -⟩ := h.plain.chunk hpoll (b₂.buf.length - (needle.length - 1))
          refine ⟨h.chunk hneedle hfind hpoll, hleft.pendings, ?_⟩
          exact weight_lt_of_poll _ _ hpoll (by rw [List.length_append])
        · next e b₂ hpoll => exact (h.plain.not_error hpoll).elim
        · next b₂ hpoll =>
          exact h.incomplete (view_of_rest (h.plain.ends hpoll).1) hfind hlong _

/-- The search, resumed at the cursor. -/
theorem readUntilLoop_searches (hneedle : needle ≠ []) (max : Nat) (h : Searching needle b b₁) :
    Yields (fun b' => Searching needle b b' ∧ b'.pendings < b₁.pendings) (Finds needle max b)
      (readUntilLoop needle max b₁) := by
  induction hn : b₁.weight using Nat.strongRecOn generalizing b₁ with
  | ind n ih =>
    subst hn
    have hturn := readUntilTurn_searches hneedle max h
    rw [readUntilLoop_turn]
    cases hresult : readUntilTurn needle max b₁ with
    | inl result =>
      rw [hresult] at hturn
      exact hturn
    | inr b₂ =>
      rw [hresult] at hturn
      obtain ⟨hnext, hpendings, hless⟩ := hturn
      exact (ih b₂.weight hless hnext rfl).mono
        (fun b' hw => ⟨hw.1, hw.2.trans_le hpendings⟩) fun _ _ hr => hr

theorem HeaderWait.trans (h : HeaderWait b₁ b') (hview : b₁.view = b.view)
    (hpendings : b₁.pendings ≤ b.pendings) : HeaderWait b b' :=
  ⟨h.plain, h.view.trans hview, h.resumable, h.pendings.trans_le hpendings⟩

theorem ReadsHeader.trans {max : Nat} {r : Except (Error ε) Nat} (h : ReadsHeader max b₁ r b')
    (hview : b₁.view = b.view) (hpendings : b₁.pendings ≤ b.pendings) : ReadsHeader max b r b' := by
  cases r with
  | error e =>
    rw [ReadsHeader, ← hview]
    exact h
  | ok stop =>
    obtain ⟨hend, hfound⟩ := h
    rw [hview] at hend
    exact ⟨hend, hfound.plain, hfound.view.trans hview, hfound.inactive,
      hfound.pendings.trans hpendings, hfound.length⟩

/-- The search for the end of the block, resumed at the cursor. -/
theorem readUntilLoop_yields (max : Nat) (b : StreamBuffer ε) (hb : b.Plain)
    (hcursor : b.readUntilCursor ≤ b.buf.length)
    (hnone : NoneBefore (crlf ++ crlf) b.view b.readUntilCursor)
    (hcrlf : ¬ crlf.isPrefixOf b.view = true) :
    Yields (HeaderWait b) (ReadsHeader max b) (readUntilLoop (crlf ++ crlf) max b) := by
  have hneedle : crlf ++ crlf ≠ [] := List.cons_ne_nil _ _
  have hstart : Searching (crlf ++ crlf) b b := ⟨hb, rfl, hcursor, hnone, le_refl _⟩
  refine (readUntilLoop_searches hneedle max hstart).mono ?_ ?_
  · rintro b' ⟨h, hless⟩
    refine ⟨h.plain, h.view, fun _ => ⟨h.cursor, ?_⟩, hless⟩
    rw [h.view]
    exact h.unskipped
  · intro r b' h
    have hend := h.naive
    rw [← headerEnd_eq hcrlf] at hend
    cases r with
    | error e => exact hend.symm
    | ok stop => exact ⟨hend.symm, h.found stop rfl⟩

/-- Two bytes are in the buffer, or all there are. -/
structure HasTwo (b b' : StreamBuffer ε) : Prop where
  plain : b'.Plain
  view : b'.view = b.view
  resumable : b'.Resumable
  pendings : b'.pendings ≤ b.pendings
  enough : 2 ≤ b'.buf.length ∨ b'.view = b'.buf

theorem waitForTwo_yields (b : StreamBuffer ε) (hb : b.Plain) (hresumable : b.Resumable) :
    Yields (HeaderWait b) (fun r b' => r = .ok () ∧ HasTwo b b') b.waitForTwo := by
  fun_induction waitForTwo b with
  | case1 b hshort b₁ hpoll =>
    have hb₀ : Plain { b with readUntilActive := false } := hb.congr rfl rfl
    obtain ⟨⟨hleft, hless⟩, -⟩ := hb₀.pending hpoll
    refine ⟨hleft.plain, hleft.view, fun hactive => ?_, hless⟩
    rw [hleft.active] at hactive
    cases hactive
  | case2 b hshort chunk b₁ hpoll ih =>
    have hb₀ : Plain { b with readUntilActive := false } := hb.congr rfl rfl
    obtain ⟨hleft, -⟩ := hb₀.chunk hpoll b₁.readUntilCursor
    have hquiet : Resumable { b₁ with buf := b₁.buf ++ chunk } := by
      intro hactive
      have hinactive := hleft.active
      rw [hinactive] at hactive
      cases hactive
    refine (ih hleft.plain hquiet).mono (fun b' hw => hw.trans hleft.view hleft.pendings) ?_
    rintro r b' ⟨rfl, htwo⟩
    exact ⟨rfl, htwo.plain, htwo.view.trans hleft.view, htwo.resumable,
      htwo.pendings.trans hleft.pendings, htwo.enough⟩
  | case3 b hshort e b₁ hpoll =>
    have hb₀ : Plain { b with readUntilActive := false } := hb.congr rfl rfl
    exact (hb₀.not_error hpoll).elim
  | case4 b hshort b₁ hpoll =>
    have hb₀ : Plain { b with readUntilActive := false } := hb.congr rfl rfl
    obtain ⟨-, hleft, -, hstream⟩ := hb₀.ends hpoll
    have hend : b₁.rest = [] := by
      rw [rest, hstream]
      rfl
    refine ⟨rfl, ⟨hleft.plain.script, hleft.plain.answers, fun _ => hstream⟩, hleft.view, ?_,
      hleft.pendings, .inr (view_of_rest hend)⟩
    intro hactive
    have hinactive := hleft.active
    rw [hinactive] at hactive
    cases hactive
  | case5 b hlong =>
    refine ⟨rfl, hb, rfl, hresumable, le_refl _, ?_⟩
    by_cases heof : b.eof = true
    · exact .inr (hb.view_of_eof heof)
    · refine .inl (Nat.le_of_not_lt fun hshort => hlong ?_)
      simp [hshort, heof]

/-- The header block is read as the text says. -/
theorem pollReadHeaderBlock_yields (max : Nat) (b : StreamBuffer ε) (hb : b.Plain)
    (hresumable : b.Resumable) :
    Yields (HeaderWait b) (ReadsHeader max b) (pollReadHeaderBlock max b) := by
  have h := waitForTwo_yields b hb hresumable
  unfold pollReadHeaderBlock
  rcases hwait : b.waitForTwo with ⟨_ | (e | u), b₁⟩
  · rw [hwait] at h
    exact h
  · rw [hwait] at h
    cases h.1
  · rw [hwait] at h
    obtain ⟨-, htwo⟩ := h
    dsimp only
    split
    · next hcrlf =>
      have hp := List.isPrefixOf_iff_prefix.mp hcrlf
      have hview : crlf.isPrefixOf b.view = true := by
        rw [← htwo.view]
        exact List.isPrefixOf_iff_prefix.mpr (hp.trans (List.prefix_append _ _))
      exact ⟨if_pos hview, htwo.plain.congr rfl rfl, htwo.view, rfl,
        htwo.pendings, hp.length_le⟩
    · next hcrlf =>
      have hview : ¬ crlf.isPrefixOf b₁.view = true := by
        intro hp
        apply hcrlf
        rcases htwo.enough with hlen | hall
        · exact List.isPrefixOf_iff_prefix.mpr
            (prefix_of_append (List.isPrefixOf_iff_prefix.mp hp) hlen)
        · rwa [hall] at hp
      have hread : Yields (HeaderWait b₁) (ReadsHeader max b₁)
          (pollReadUntil (crlf ++ crlf) max b₁) := by
        unfold pollReadUntil
        split
        · next hactive =>
          obtain ⟨hcursor, hnone⟩ := htwo.resumable hactive
          exact readUntilLoop_yields max b₁ htwo.plain hcursor hnone hview
        · have hstart := readUntilLoop_yields max
            { b₁ with readUntilCursor := 0, readUntilActive := true }
            (htwo.plain.congr rfl rfl) (Nat.zero_le _)
            (noneBefore_zero _ _) hview
          exact hstart.mono (fun b' hw => hw.trans rfl (le_refl _))
            fun r b' hr => hr.trans rfl (le_refl _)
      exact hread.mono (fun b' hw => hw.trans htwo.view htwo.pendings)
        fun r b' hr => hr.trans htwo.view htwo.pendings

section Polls

variable {max : Nat}

/-- Where a poll of `poll_read_until` starts: a read that is not active begins at the front. -/
def resumed (b : StreamBuffer ε) : StreamBuffer ε :=
  if b.readUntilActive then b else { b with readUntilCursor := 0, readUntilActive := true }

theorem pollReadUntil_resumed (needle : Bytes) (max : Nat) (b : StreamBuffer ε) :
    pollReadUntil needle max b = readUntilLoop needle max b.resumed := by
  unfold pollReadUntil resumed
  split <;> rfl

/-- The buffers that are searched from the cursor on, in all polls of a read. -/
inductive Searched (needle : Bytes) (max : Nat) (b : StreamBuffer ε) : StreamBuffer ε → Prop
  | start : Searched needle max b b.resumed
  | turn {b₁ b₂ : StreamBuffer ε} (h : Searched needle max b b₁)
      (hturn : readUntilTurn needle max b₁ = .inr b₂) : Searched needle max b b₂
  | resume {b₁ b₂ : StreamBuffer ε} (h : Searched needle max b b₁)
      (hturn : readUntilTurn needle max b₁ = .inl (.pending, b₂)) : Searched needle max b b₂.resumed

theorem Searching.resumed (h : Searching needle b b₁) : Searching needle b b₁.resumed := by
  unfold StreamBuffer.resumed
  split
  · exact h
  · exact ⟨h.plain.congr rfl rfl, h.view, Nat.zero_le _, noneBefore_zero _ _, h.pendings⟩

/-- A read that begins. -/
theorem searching_resumed (needle : Bytes) (hb : b.Plain) (hidle : b.readUntilActive = false) :
    Searching needle b b.resumed := by
  unfold StreamBuffer.resumed
  rw [hidle, if_neg Bool.false_ne_true]
  exact ⟨hb.congr rfl rfl, rfl, Nat.zero_le _, noneBefore_zero _ _, le_refl _⟩

/-- Every search of a read has the cursor where it skips nothing. -/
theorem Searched.searching (hneedle : needle ≠ []) (hb : b.Plain) (hidle : b.readUntilActive = false)
    (h : Searched needle max b b₁) : Searching needle b b₁ := by
  induction h with
  | start => exact searching_resumed needle hb hidle
  | turn _ hturn ih =>
    have hnext := readUntilTurn_searches hneedle max ih
    rw [hturn] at hnext
    exact hnext.1
  | resume _ hturn ih =>
    have hnext := readUntilTurn_searches hneedle max ih
    rw [hturn] at hnext
    exact hnext.1.resumed

/-- A read is over with the answer of a search of the whole text. -/
theorem pollReadUntil_settles (hneedle : needle ≠ []) (max : Nat) (hb : b.Plain)
    (hidle : b.readUntilActive = false) :
    ∃ r b', Settles (pollReadUntil needle max) b r b' ∧ Finds needle max b r b' := by
  have hpoll (b₁ : StreamBuffer ε) (h : Searching needle b b₁.resumed) :
      Yields (fun b' => b'.pendings < b₁.pendings ∧ Searching needle b b'.resumed)
        (Finds needle max b) (pollReadUntil needle max b₁) := by
    have hsame : b₁.resumed.pendings = b₁.pendings := by
      unfold StreamBuffer.resumed
      split <;> rfl
    rw [pollReadUntil_resumed]
    refine (readUntilLoop_searches hneedle max h).mono ?_ fun _ _ hr => hr
    rintro b' ⟨hnext, hless⟩
    exact ⟨hsame ▸ hless, hnext.resumed⟩
  exact Settles.of_yields (P := fun b₁ => Searching needle b b₁.resumed) pendings hpoll b
    (searching_resumed needle hb hidle)

/-- A resumable read answers as a search of the whole text: the end of the first occurrence of the
needle when it is within the limit, that the limit is exceeded when it is not or when there is more
without one, and that the stream is incomplete when it ends before. Whenever the buffer is searched, the
cursor is in it and no occurrence starts before the cursor. -/
theorem pollReadUntil_exact (hneedle : needle ≠ []) (hb : b.Plain) (hidle : b.readUntilActive = false) :
    (∃ b', Settles (pollReadUntil needle max) b (naiveSearch needle max b.view) b') ∧
      ∀ b₁, Searched needle max b b₁ → b₁.readUntilCursor ≤ b₁.buf.length ∧ b₁.view = b.view ∧
        NoneBefore needle b.view b₁.readUntilCursor := by
  constructor
  · obtain ⟨r, b', hsettles, hfinds⟩ := pollReadUntil_settles hneedle max hb hidle
    rw [hfinds.naive] at hsettles
    exact ⟨b', hsettles⟩
  · intro b₁ hsearched
    have h := hsearched.searching hneedle hb hidle
    exact ⟨h.cursor, h.view, h.unskipped⟩

/-- The end of a block that three chunks share. -/
def splitEnd : StreamBuffer Empty :=
  { new [.pending, .ready (some (.ok [cr])), .pending, .ready (some (.ok [lf, 120]))] with
    buf := ascii "a: b\r\n" }

theorem pollReadUntil_exact_splitEnd :
    (∃ b', Settles (pollReadUntil (crlf ++ crlf) 8) splitEnd (.ok 8) b') ∧
      ∀ b₁, Searched (crlf ++ crlf) 8 splitEnd b₁ → b₁.readUntilCursor ≤ b₁.buf.length ∧
        b₁.view = splitEnd.view ∧ NoneBefore (crlf ++ crlf) splitEnd.view b₁.readUntilCursor := by
  have hplain : splitEnd.Plain := by
    refine ⟨⟨_, rfl⟩, ?_, nofun⟩
    simp [splitEnd, new, PlainAnswer]
  exact pollReadUntil_exact (List.cons_ne_nil _ _) hplain rfl

end Polls

end StreamBuffer
end S3s.FormData
