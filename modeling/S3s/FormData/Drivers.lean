import S3s.FormData.Parser

/-! # The two ways to ask for a part

`poll_next_part` runs the arms of `next_part` in one poll, as far as the stream is
ready. Polled until it is ready it returns what `next_part` returns.
-/
namespace S3s.FormData
open Polling

variable {ε : Type}

/-- What a boundary is followed by. -/
theorem StreamBuffer.advanceAfterBoundary_state {b b' : StreamBuffer ε} {state : State}
    (h : b.advanceAfterBoundary = (.ready (.ok state), b')) :
    state = .readingClosingDelimiter ∨ state = .readingPartHeaders := by
  obtain ⟨u, b₁, -, hfirst⟩ := onReady_eq_ok h
  dsimp only at hfirst
  split at hfirst
  · obtain ⟨u, b₂, -, hmark⟩ := onReady_eq_ok hfirst
    split at hmark
    · cases hmark
      exact .inl rfl
    · cases hmark
  · split at hfirst
    · obtain ⟨u, b₂, -, hheaders⟩ := onReady_eq_ok hfirst
      cases hheaders
      exact .inr rfl
    · split at hfirst
      · obtain ⟨u, b₂, -, hheaders⟩ := onReady_eq_ok hfirst
        cases hheaders
        exact .inr rfl
      · cases hfirst

namespace Multipart

variable {H : Httparse} {mp mp' : Multipart ε}

/-- The state is as before, or behind the data of a part; the same part is handed out. -/
def Stays (mp mp' : Multipart ε) : Prop :=
  (mp'.state = mp.state ∨ mp'.state = .readingBoundary) ∧ mp'.partHandedOut = mp.partHandedOut

theorem Stays.refl (mp : Multipart ε) : Stays mp mp := ⟨.inl rfl, rfl⟩

theorem Stays.trans {mp₁ : Multipart ε} (h₁ : Stays mp mp₁) (h₂ : Stays mp₁ mp') : Stays mp mp' := by
  refine ⟨?_, h₂.2.trans h₁.2⟩
  rcases h₂.1 with hsame | hboundary
  · rw [hsame]
    exact h₁.1
  · exact .inr hboundary

theorem onBuffer_stays {α : Type} (mp : Multipart ε)
    (f : StreamBuffer ε → Poll (Except (Error ε) α) × StreamBuffer ε) :
    Stays mp (mp.onBuffer f).2 ∧ (mp.onBuffer f).2.state = mp.state ∧
      (mp.onBuffer f).2.headers = mp.headers := by
  unfold onBuffer
  split
  · exact ⟨.refl mp, rfl, rfl⟩
  · exact ⟨⟨.inl rfl, rfl⟩, rfl, rfl⟩

/-- A step on the buffer that moves to a state when it is ready. -/
theorem stays_of_move {α : Type} {f : StreamBuffer ε → Poll (Except (Error ε) α) × StreamBuffer ε}
    (next : α → State) {r : Poll (Except (Error ε) Unit)}
    (h : (onReady (mp.onBuffer f) fun a mp => (.ready (.ok ()), { mp with state := next a })) =
      (r, mp')) :
    (r = .pending → Stays mp mp') ∧ (r = .ready (.ok ()) →
      mp'.partHandedOut = mp.partHandedOut ∧ ∃ a mp₁, mp.onBuffer f = (.ready (.ok a), mp₁) ∧
        mp'.state = next a) := by
  obtain ⟨hstays, -⟩ := onBuffer_stays mp f
  rcases hbuffer : mp.onBuffer f with ⟨_ | (e | a), mp₁⟩
  · rw [hbuffer] at h hstays
    cases h
    exact ⟨fun _ => hstays, nofun⟩
  · rw [hbuffer] at h
    cases h
    exact ⟨nofun, nofun⟩
  · rw [hbuffer] at h hstays
    cases h
    exact ⟨nofun, fun _ => ⟨hstays.2, a, mp₁, rfl, rfl⟩⟩

theorem pollNextPartDataChunk_stays (mp : Multipart ε) : Stays mp mp.pollNextPartDataChunk.2 := by
  unfold pollNextPartDataChunk
  split
  · exact .refl mp
  · split
    · exact .refl mp
    · next delimiter hdelimiter =>
      obtain ⟨hstays, -⟩ := onBuffer_stays mp (StreamBuffer.dataChunkLoop delimiter)
      rcases hbuffer : mp.onBuffer (StreamBuffer.dataChunkLoop delimiter) with
        ⟨_ | (e | (data | data)), mp₁⟩
      · rw [hbuffer] at hstays
        exact hstays
      · rw [hbuffer] at hstays
        exact hstays
      · rw [hbuffer] at hstays
        exact ⟨.inr rfl, hstays.2⟩
      · rw [hbuffer] at hstays
        exact hstays

theorem pollSkipPartData_stays (mp : Multipart ε) : Stays mp mp.pollSkipPartData.2 := by
  fun_induction pollSkipPartData mp with
  | case1 mp mp₁ hchunk =>
    have h := mp.pollNextPartDataChunk_stays
    rwa [hchunk] at h
  | case2 mp data mp₁ hchunk ih =>
    have h := mp.pollNextPartDataChunk_stays
    rw [hchunk] at h
    exact h.trans ih
  | case3 mp mp₁ hchunk =>
    have h := mp.pollNextPartDataChunk_stays
    rwa [hchunk] at h
  | case4 mp e mp₁ hchunk =>
    have h := mp.pollNextPartDataChunk_stays
    rwa [hchunk] at h

theorem pollEnsureHeaders_stays {r : Poll (Except (Error ε) Unit)}
    (hstate : mp.state = .readingPartHeaders) (h : mp.pollEnsureHeaders H = (r, mp')) :
    mp'.state = mp.state ∧ mp'.partHandedOut = mp.partHandedOut ∧
      (r = .ready (.ok ()) → mp'.headers.isSome = true) := by
  unfold pollEnsureHeaders at h
  by_cases hheaders : mp.headers.isSome = true
  · rw [if_pos (by simp [hheaders])] at h
    cases h
    exact ⟨rfl, rfl, fun _ => hheaders⟩
  · rw [if_neg (by simp [hheaders, hstate]), if_neg (by simp [hstate])] at h
    obtain ⟨hstays, hsame, -⟩ :=
      onBuffer_stays mp (StreamBuffer.pollReadHeaderBlock mp.maxBufferSize)
    rcases hbuffer : mp.onBuffer (StreamBuffer.pollReadHeaderBlock mp.maxBufferSize) with
      ⟨_ | (e | stop), mp₁⟩
    · rw [hbuffer] at h hstays hsame
      cases h
      exact ⟨hsame, hstays.2, nofun⟩
    · rw [hbuffer] at h hstays hsame
      cases h
      exact ⟨hsame, hstays.2, nofun⟩
    · rw [hbuffer, onReady_ok] at h
      rw [hbuffer] at hstays hsame
      unfold parseBuffered at h
      split at h
      · cases h
        exact ⟨hsame, hstays.2, nofun⟩
      · split at h
        · cases h
          exact ⟨hsame, hstays.2, fun _ => rfl⟩
        · cases h
          exact ⟨hsame, hstays.2, nofun⟩

/-- How many arms of the loop of `poll_next_part` may follow each other. -/
def rank (mp : Multipart ε) : Nat :=
  match mp.state, mp.partHandedOut with
  | .streamTaken, _ => 0
  | .done, _ => 0
  | .readingEpilogue, _ => 1
  | .readingClosingDelimiter, _ => 2
  | .readingPartHeaders, false => 0
  | .readingBoundary, false => 3
  | .readingPartData, false => 3
  | .findingFirstBoundary, false => 4
  | .readingPartHeaders, true => 5
  | .readingBoundary, true => 6
  | .readingPartData, true => 6
  | .findingFirstBoundary, true => 7

theorem pollAdvanceAfterBoundary_moves {r : Poll (Except (Error ε) Unit)}
    (h : mp.pollAdvanceAfterBoundary = (r, mp')) :
    (r = .pending → Stays mp mp') ∧ (r = .ready (.ok ()) →
      mp'.partHandedOut = mp.partHandedOut ∧
        (mp'.state = .readingClosingDelimiter ∨ mp'.state = .readingPartHeaders)) := by
  obtain ⟨hwait, hready⟩ := stays_of_move id h
  refine ⟨hwait, fun hr => ?_⟩
  obtain ⟨hhanded, state, mp₁, hbuffer, hstate⟩ := hready hr
  refine ⟨hhanded, ?_⟩
  rw [hstate]
  unfold onBuffer at hbuffer
  split at hbuffer
  · cases hbuffer
  · next b hb =>
    rcases hadvance : b.advanceAfterBoundary with ⟨r', b'⟩
    rw [hadvance] at hbuffer
    cases hbuffer
    exact StreamBuffer.advanceAfterBoundary_state hadvance

/-- Where the machine stays in an arm that is awaited, it has nothing to return yet. -/
theorem Stays.returns (h : Stays mp mp') (arm : mp.nextPartReturns = none) :
    mp'.nextPartReturns = none := by
  obtain ⟨hstate, hhanded⟩ := h
  unfold nextPartReturns at arm ⊢
  rcases hstate with hsame | hboundary
  · rw [hsame, hhanded]
    cases hmp : mp.state with
    | readingPartHeaders =>
      simp only [hmp] at arm ⊢
      split at arm
      · next hout => rw [if_pos hout]
      · cases arm
    | streamTaken => simp [hmp] at arm
    | done => simp [hmp] at arm
    | findingFirstBoundary => rfl
    | readingPartData => rfl
    | readingBoundary => rfl
    | readingClosingDelimiter => rfl
    | readingEpilogue => rfl
  · rw [hboundary]

/-- The rank is that of the state and of the part that is handed out. -/
theorem rank_lt {state : State} (hhanded : mp'.partHandedOut = mp.partHandedOut)
    (hstate : mp'.state = state)
    (h : ∀ handed, rank { mp with state := state, partHandedOut := handed } <
      rank { mp with partHandedOut := handed }) : mp'.rank < mp.rank := by
  have hrank : mp'.rank = rank { mp with state := state, partHandedOut := mp.partHandedOut } := by
    unfold rank
    rw [hstate, hhanded]
  rw [hrank]
  exact h mp.partHandedOut

theorem rank_after_boundary (hhanded : mp'.partHandedOut = mp.partHandedOut)
    (hmp : mp.state = .readingPartData ∨ mp.state = .readingBoundary)
    (hstate : mp'.state = .readingClosingDelimiter ∨ mp'.state = .readingPartHeaders) :
    mp'.rank < mp.rank := by
  unfold rank
  rw [hhanded]
  rcases hmp with hmp | hmp <;> rcases hstate with hstate | hstate <;> rw [hmp, hstate] <;>
    cases mp.partHandedOut <;> decide

/-- An arm that is awaited and not ready is awaited again; one that is ready is followed by fewer. -/
theorem nextPartAwaits_moves (arm : mp.nextPartReturns = none) {r : Poll (Except (Error ε) Unit)}
    (h : nextPartAwaits H mp = (r, mp')) :
    (r = .pending → mp'.nextPartReturns = none) ∧ (r = .ready (.ok ()) → mp'.rank < mp.rank) := by
  unfold nextPartAwaits at h
  cases hmp : mp.state with
  | streamTaken => simp [nextPartReturns, hmp] at arm
  | done => simp [nextPartReturns, hmp] at arm
  | findingFirstBoundary =>
    rw [hmp] at h
    obtain ⟨hwait, hready⟩ := stays_of_move (fun _ => .readingBoundary) h
    refine ⟨fun hr => (hwait hr).returns arm, fun hr => ?_⟩
    obtain ⟨hhanded, -, -, -, hstate⟩ := hready hr
    refine rank_lt hhanded hstate fun handed => ?_
    cases handed <;> simp [rank, hmp]
  | readingPartHeaders =>
    rw [hmp] at h
    dsimp only at h
    rcases hensure : mp.pollEnsureHeaders H with ⟨_ | (e | u), mp₁⟩
    · obtain ⟨hstate, hhanded, -⟩ := pollEnsureHeaders_stays hmp hensure
      rw [hensure] at h
      cases h
      have hstays : Stays mp mp' := ⟨.inl hstate, hhanded⟩
      exact ⟨fun _ => hstays.returns arm, nofun⟩
    · rw [hensure] at h
      cases h
      exact ⟨nofun, nofun⟩
    · obtain ⟨hstate, hhanded, hsome⟩ := pollEnsureHeaders_stays hmp hensure
      rw [hensure] at h
      cases h
      refine ⟨nofun, fun _ => ?_⟩
      obtain ⟨block, hblock⟩ := Option.isSome_iff_exists.mp (hsome rfl)
      have hout : mp.partHandedOut = true := by
        by_contra hout
        simp [nextPartReturns, hmp, hout] at arm
      simp [finishHeaders, hblock, hstate, hmp, rank, hout]
  | readingPartData =>
    rw [hmp] at h
    dsimp only at h
    have hskip := mp.pollSkipPartData_stays
    rcases hdata : mp.pollSkipPartData with ⟨_ | (e | u), mp₁⟩
    · rw [hdata] at h hskip
      cases h
      exact ⟨fun _ => Stays.returns hskip arm, nofun⟩
    · rw [hdata] at h
      cases h
      exact ⟨nofun, nofun⟩
    · rw [hdata, onReady_ok] at h
      rw [hdata] at hskip
      obtain ⟨hwait, hready⟩ := pollAdvanceAfterBoundary_moves h
      refine ⟨fun hr => (Stays.trans hskip (hwait hr)).returns arm, fun hr => ?_⟩
      obtain ⟨hhanded, hstate⟩ := hready hr
      exact rank_after_boundary (hhanded.trans hskip.2) (.inl hmp) hstate
  | readingBoundary =>
    rw [hmp] at h
    obtain ⟨hwait, hready⟩ := pollAdvanceAfterBoundary_moves h
    refine ⟨fun hr => (hwait hr).returns arm, fun hr => ?_⟩
    obtain ⟨hhanded, hstate⟩ := hready hr
    exact rank_after_boundary hhanded (.inr hmp) hstate
  | readingClosingDelimiter =>
    rw [hmp] at h
    obtain ⟨hwait, hready⟩ := stays_of_move (fun _ => .readingEpilogue) h
    refine ⟨fun hr => (hwait hr).returns arm, fun hr => ?_⟩
    obtain ⟨hhanded, -, -, -, hstate⟩ := hready hr
    refine rank_lt hhanded hstate fun handed => ?_
    cases handed <;> simp [rank, hmp]
  | readingEpilogue =>
    rw [hmp] at h
    obtain ⟨hwait, hready⟩ := stays_of_move (fun _ => .done) h
    refine ⟨fun hr => (hwait hr).returns arm, fun hr => ?_⟩
    obtain ⟨hhanded, -, -, -, hstate⟩ := hready hr
    refine rank_lt hhanded hstate fun handed => ?_
    cases handed <;> simp [rank, hmp]

/-- `poll_next_part` -/
def pollNextPart (H : Httparse) (mp : Multipart ε) :
    Poll (Except (Error ε) (Option Unit)) × Multipart ε :=
  match harm : mp.nextPartReturns with
  | some (r, mp) => (.ready r, mp)
  | none =>
    match hawait : nextPartAwaits H mp with
    | (.pending, mp) => (.pending, mp)
    | (.ready (.error e), mp) => (.ready (.error e), mp)
    | (.ready (.ok ()), mp) => pollNextPart H mp
termination_by mp.rank
decreasing_by exact (nextPartAwaits_moves harm hawait).2 rfl

/-- One poll returns what `next_part` returns, or leaves the machine where `next_part` goes on. -/
theorem pollNextPart_nextPart (mp : Multipart ε) :
    Yields (fun mp' => ∀ r mp₁, NextPart H mp' r mp₁ → NextPart H mp r mp₁) (NextPart H mp)
      (pollNextPart H mp) := by
  fun_induction pollNextPart H mp with
  | case1 mp r mp₁ harm => exact .returns harm
  | case2 mp harm mp₁ hawait =>
    have hwait := (nextPartAwaits_moves harm hawait).1 rfl
    intro r mp₂ h
    cases h with
    | returns arm => cases hwait.symm.trans arm
    | failed arm await => exact .failed harm (.pending hawait await)
    | again arm await rest => exact .again harm (.pending hawait await) rest
  | case3 mp harm e mp₁ hawait => exact .failed harm (.ready hawait)
  | case4 mp harm mp₁ hawait ih =>
    refine Yields.mono ih (fun mp' h r mp₂ hnext => ?_) fun r mp' h => ?_
    · exact .again harm (.ready hawait) (h r mp₂ hnext)
    · exact .again harm (.ready hawait) h

theorem nextPart_of_poll {r : Except (Error ε) (Option Unit)}
    (h : Settles (pollNextPart H) mp r mp') : NextPart H mp r mp' := by
  induction h with
  | @ready mp mp' r result =>
    have hpoll := pollNextPart_nextPart (H := H) mp
    rw [result] at hpoll
    exact hpoll
  | @pending mp mp₁ mp' r result rest ih =>
    have hpoll := pollNextPart_nextPart (H := H) mp
    rw [result] at hpoll
    exact hpoll r mp' ih

theorem pollNextPart_eq (mp : Multipart ε) :
    pollNextPart H mp =
      match mp.nextPartReturns with
      | some (r, mp) => (.ready r, mp)
      | none => onReady (nextPartAwaits H mp) fun _ mp => pollNextPart H mp := by
  rw [pollNextPart]
  split
  · next h => rw [h]
  · next h =>
    rw [h]
    split <;> next h' => rw [h']; rfl

/-- Where one machine is polled as another is, it settles as the other does. -/
theorem poll_of_await {r : Except (Error ε) (Option Unit)} {a : Except (Error ε) Unit}
    {mp₁ : Multipart ε} (arm : mp.nextPartReturns = none) (await : Settles (nextPartAwaits H) mp a mp₁)
    (herror : ∀ e, a = .error e → r = .error e ∧ mp' = mp₁)
    (hok : a = .ok () → Settles (pollNextPart H) mp₁ r mp') : Settles (pollNextPart H) mp r mp' := by
  induction await with
  | @ready mp mp₁ a result =>
    have hpoll := pollNextPart_eq (H := H) mp
    rw [arm, result] at hpoll
    cases a with
    | error e =>
      obtain ⟨rfl, rfl⟩ := herror e rfl
      exact .ready hpoll
    | ok u =>
      cases hok rfl with
      | ready next => exact .ready (hpoll.trans next)
      | pending next rest => exact .pending (hpoll.trans next) rest
  | @pending mp mp₂ mp₁ a result rest ih =>
    have hpoll := pollNextPart_eq (H := H) mp
    rw [arm, result] at hpoll
    exact .pending hpoll (ih ((nextPartAwaits_moves arm result).1 rfl) herror hok)

theorem poll_of_nextPart {r : Except (Error ε) (Option Unit)} (h : NextPart H mp r mp') :
    Settles (pollNextPart H) mp r mp' := by
  induction h with
  | @returns mp mp' r arm =>
    refine .ready ?_
    rw [pollNextPart_eq, arm]
  | @failed mp mp' e arm await =>
    exact poll_of_await arm await (by rintro e' ⟨⟩; exact ⟨rfl, rfl⟩) nofun
  | @again mp mp₁ mp' r arm await rest ih => exact poll_of_await arm await nofun fun _ => ih

/-- Both ways to ask for a part agree, on every machine and every stream. -/
theorem settles_pollNextPart_iff {r : Except (Error ε) (Option Unit)} :
    Settles (pollNextPart H) mp r mp' ↔ NextPart H mp r mp' :=
  ⟨nextPart_of_poll, poll_of_nextPart⟩

end Multipart
end S3s.FormData
