import S3s.FormData.ClosingTrailer
import S3s.FormData.Splitting

/-! # A part that is handed over

The data of a part is the same whether the parser reads it, the stream it hands
over, or the strict stream that goes on from any point of that stream. The strict
stream ends without an error when the body is closed behind the delimiter, and
only then.
-/
namespace S3s.FormData
open Polling Search

variable {ε : Type}

namespace StreamBuffer

variable {b b' : StreamBuffer ε}

/-- The two loops differ in what they say of a stream that has ended. -/
theorem partDataLoop_cases (delimiter : Bytes) (b : StreamBuffer ε) :
    b.partDataLoop delimiter = b.dataChunkLoop delimiter ∨
      ∃ b', b.partDataLoop delimiter = (.ready (.error .incompleteStreamPart), b') ∧
        b.dataChunkLoop delimiter = (.ready (.error .incompleteStream), b') := by
  fun_induction partDataLoop delimiter b with
  | case1 b index hfound =>
    rw [dataChunkLoop, hfound]
    exact .inl rfl
  | case2 b stop hemit =>
    rw [dataChunkLoop, hemit]
    exact .inl rfl
  | case3 b hkeep b₁ hpoll =>
    rw [dataChunkLoop_eq, hkeep, hpoll]
    exact .inl rfl
  | case4 b hkeep chunk b₁ hpoll hne ih =>
    rw [dataChunkLoop_eq, hkeep, hpoll]
    simpa only [hne, if_true] using ih
  | case5 b hkeep chunk b₁ hpoll hempty index hfound =>
    rw [dataChunkLoop_eq, hkeep, hpoll]
    simp only [hempty, hfound]
    exact .inl rfl
  | case6 b hkeep chunk b₁ hpoll hempty stop hemit =>
    rw [dataChunkLoop_eq, hkeep, hpoll]
    simp only [hempty, hemit]
    exact .inl rfl
  | case7 b hkeep chunk b₁ hpoll hempty hall ih =>
    rw [dataChunkLoop_eq, hkeep, hpoll]
    simpa only [hempty, hall, Bool.false_eq_true, if_false] using ih
  | case8 b hkeep e b₁ hpoll =>
    rw [dataChunkLoop_eq, hkeep, hpoll]
    exact .inl rfl
  | case9 b hkeep b₁ hpoll =>
    rw [dataChunkLoop_eq, hkeep, hpoll]
    exact .inr ⟨b₁, rfl, rfl⟩

theorem partDataLoop_yields {delimiter : Bytes} (hne : delimiter ≠ []) (b : StreamBuffer ε)
    (hb : b.Plain) :
    Yields (Waits b b.view)
      (fun r b' => match r with
        | .error _ => find delimiter b.view = none
        | .ok chunk => ReadsData delimiter b (.ok chunk) b')
      (partDataLoop delimiter b) := by
  have h := dataChunkLoop_yields hne b hb
  rcases partDataLoop_cases delimiter b with heq | ⟨b', heq, heq'⟩
  · rw [heq]
    refine h.mono (fun _ hw => hw) ?_
    rintro (e | chunk) b' hr
    · exact hr.2.1
    · exact hr
  · rw [heq'] at h
    rw [heq]
    exact h.2.1

/-- Something has been taken from the stream when the loop is not ready. -/
theorem dataChunkLoop_pending {delimiter : Bytes} (h : b.dataChunkLoop delimiter = (.pending, b')) :
    b'.weight < b.weight := by
  fun_induction dataChunkLoop delimiter b with
  | case1 b index hfound => cases h
  | case2 b stop hemit => cases h
  | case3 b hkeep b₁ hpoll =>
    cases h
    exact pollStream_pending_weight hpoll
  | case4 b hkeep chunk b₁ hpoll hne ih =>
    have hless := weight_lt_of_poll (b₁.buf ++ chunk) b₁.readUntilCursor hpoll
      (by rw [List.length_append])
    exact (ih h).trans hless
  | case5 b hkeep chunk b₁ hpoll hempty index hfound => cases h
  | case6 b hkeep chunk b₁ hpoll hempty stop hemit => cases h
  | case7 b hkeep chunk b₁ hpoll hempty hall ih =>
    have hless := weight_lt_of_poll (b₁.buf ++ chunk) b₁.readUntilCursor hpoll
      (by rw [List.length_append])
    exact (ih h).trans hless
  | case8 b hkeep e b₁ hpoll => cases h
  | case9 b hkeep b₁ hpoll => cases h

end StreamBuffer

namespace Multipart

variable {mp mp' : Multipart ε}

/-- The data of a part is read to its end, or to an error. -/
theorem data_drains (mp : Multipart ε) :
    ∃ chunks r mp', Drains pollNextPartDataChunk mp chunks r mp' := by
  refine Drains.of_measure weight (fun mp => ?_) mp
  rcases hpoll : mp.pollNextPartDataChunk with ⟨_ | r, mp'⟩
  · unfold pollNextPartDataChunk at hpoll
    split at hpoll
    · cases hpoll
    · split at hpoll
      · cases hpoll
      · next delimiter hdelimiter =>
        unfold onBuffer at hpoll
        split at hpoll
        · cases hpoll
        · next b hb =>
          rcases hloop : b.dataChunkLoop delimiter with ⟨_ | (e | (data | data)), b'⟩
          · rw [hloop] at hpoll
            cases hpoll
            simp only [Yields, weight, hb, Option.map_some, Option.getD_some]
            exact StreamBuffer.dataChunkLoop_pending hloop
          all_goals
            rw [hloop] at hpoll
            cases hpoll
  · rintro a rfl
    exact pollNextPartDataChunk_weight hpoll

/-- What a stream has been taken from. -/
theorem takeDataStream_ok {s : PartDataStream ε} (h : mp.takeDataStream = (.ok s, mp')) :
    mp.beginData.state = .readingPartData ∧ mp.beginData.buffer = some s.buffer ∧
      mp.beginData.delimiterFinder = some s.delimiterFinder ∧ s.done = false ∧
      s.terminated = false ∧ s.multipartConsumed = s.buffer.consumed := by
  unfold takeDataStream at h
  dsimp only at h
  split at h
  · cases h
  · next hstate =>
    split at h
    · cases h
    · next buffer hbuffer =>
      split at h
      · cases h
      · next finder hfinder =>
        cases h
        exact ⟨not_not.mp hstate, hbuffer, hfinder, rfl, rfl, rfl⟩

/-- A parser in the data of a part, or behind it, and a stream that is where it is. -/
inductive Follows : Multipart ε → PartDataStream ε → Prop where
  | reading {mp : Multipart ε} {s : PartDataStream ε} (state : mp.state = .readingPartData)
    (buffer : mp.buffer = some s.buffer) (finder : mp.delimiterFinder = some s.delimiterFinder)
    (live : s.done = false) (going : s.terminated = false) : Follows mp s
  | ended {mp : Multipart ε} {s : PartDataStream ε} (state : mp.state ≠ .readingPartData)
    (done : s.done = true) : Follows mp s

/-- The parser and the stream answer alike. -/
theorem Follows.agree {s : PartDataStream ε} (h : Follows mp s) :
    Agree Follows mp.pollNextPartDataChunk (asking PartDataStream.pollNext s) := by
  cases h with
  | reading state buffer finder live going =>
    have hstate : ¬ mp.state ≠ .readingPartData := not_not.mpr state
    rw [pollNextPartDataChunk, if_neg hstate, finder, asking, PartDataStream.pollNext,
      if_neg (by simp [live, going])]
    dsimp only
    unfold onBuffer
    rw [buffer]
    dsimp only
    rcases StreamBuffer.partDataLoop_cases s.delimiterFinder s.buffer with heq | ⟨b', heq, heq'⟩
    · rw [heq]
      rcases s.buffer.dataChunkLoop s.delimiterFinder with ⟨_ | (e | (data | data)), b'⟩
      · exact .reading state rfl finder live going
      · trivial
      · cases hempty : data.isEmpty with
        | true =>
          simp only [onReady_ok, hempty, if_true]
          exact ⟨rfl, .ended (fun h => by cases h) rfl⟩
        | false =>
          simp only [onReady_ok, hempty]
          exact ⟨rfl, .ended (fun h => by cases h) rfl⟩
      · exact ⟨rfl, .reading state rfl finder live going⟩
    · rw [heq, heq']
      trivial
  | ended state done =>
    rw [pollNextPartDataChunk, if_pos state, asking, PartDataStream.pollNext, if_pos (by simp [done])]
    exact ⟨rfl, .ended state done⟩

end Multipart

/-- What the strict stream answers from where a stream is that has not failed: its data, and then
what it answers behind the delimiter. -/
def Continues (f : FinalPartDataStream ε) : Item Bytes (Error ε) × PartDataStream ε → Prop
  | (.pending, s) => s.terminated = false ∧ f.pollNext = (.pending, s.intoFinal)
  | (.ready (some (.ok data)), s) =>
    s.terminated = false ∧ f.pollNext = (.ready (some (.ok data)), s.intoFinal)
  | (.ready none, s) => s.terminated = false ∧ s.done = true ∧ f.pollNext = s.intoFinal.pollNext
  | (.ready (some (.error e)), _) => ∃ f', f.pollNext = (.ready (some (.error e)), f')

namespace PartDataStream

variable {s s' : PartDataStream ε}

theorem continues (hlive : s.terminated = false) : Continues s.intoFinal s.pollNext := by
  obtain ⟨b, delimiter, consumed, done, terminated⟩ := s
  obtain rfl : terminated = false := hlive
  cases done with
  | true => exact ⟨rfl, rfl, rfl⟩
  | false =>
    rcases hloop : b.partDataLoop delimiter with ⟨_ | (e | (data | data)), b'⟩
    · simp [Continues, pollNext, FinalPartDataStream.pollNext, FinalPartDataStream.pollData,
        intoFinal, hloop]
    · simp [Continues, pollNext, FinalPartDataStream.pollNext, FinalPartDataStream.pollData,
        intoFinal, hloop]
    · cases hempty : data.isEmpty with
      | true =>
        simp [Continues, pollNext, FinalPartDataStream.pollNext, FinalPartDataStream.pollData,
          intoFinal, hloop, hempty]
      | false =>
        simp [Continues, pollNext, FinalPartDataStream.pollNext, FinalPartDataStream.pollData,
          intoFinal, hloop, hempty]
    · simp [Continues, pollNext, FinalPartDataStream.pollNext, FinalPartDataStream.pollData,
        intoFinal, hloop]

/-- The stream, polled until it is ready, and the strict stream. -/
def Resumes (f : FinalPartDataStream ε) : Except (Error ε) (Option Bytes) → PartDataStream ε → Prop
  | .ok (some data), s => s.terminated = false ∧
    Settles (asking FinalPartDataStream.pollNext) f (.ok (some data)) s.intoFinal
  | .ok none, s => s.terminated = false ∧ s.done = true ∧
    ∀ r f', Settles (asking FinalPartDataStream.pollNext) s.intoFinal r f' →
      Settles (asking FinalPartDataStream.pollNext) f r f'
  | .error e, _ => ∃ f', Settles (asking FinalPartDataStream.pollNext) f (.error e) f'

theorem resumes {r : Except (Error ε) (Option Bytes)} (hlive : s.terminated = false)
    (h : Settles (asking pollNext) s r s') : Resumes s.intoFinal r s' := by
  induction h with
  | @ready s s' r result =>
    have hcontinues := continues hlive
    rcases hpoll : s.pollNext with ⟨_ | (_ | (e | data)), s₁⟩ <;> rw [asking, hpoll] at result <;>
      cases result <;> rw [hpoll] at hcontinues
    · obtain ⟨hlive', hdone, hfirst⟩ := hcontinues
      exact ⟨hlive', hdone, fun r f' hrest => hrest.of_first (by rw [asking, asking, hfirst])⟩
    · obtain ⟨f', hfirst⟩ := hcontinues
      exact ⟨f', .ready (by rw [asking, hfirst]; rfl)⟩
    · obtain ⟨hlive', hfirst⟩ := hcontinues
      exact ⟨hlive', .ready (by rw [asking, hfirst]; rfl)⟩
  | @pending s s₁ s' r result rest ih =>
    have hcontinues := continues hlive
    rcases hpoll : s.pollNext with ⟨_ | (_ | (e | data)), s₂⟩ <;> rw [asking, hpoll] at result <;>
      cases result
    rw [hpoll] at hcontinues
    obtain ⟨hlive', hfirst⟩ := hcontinues
    have hpending : asking FinalPartDataStream.pollNext s.intoFinal = (.pending, s₂.intoFinal) := by
      rw [asking, hfirst]
      rfl
    rcases r with e | (_ | data)
    · obtain ⟨f', hsettles⟩ := ih hlive'
      exact ⟨f', .pending hpending hsettles⟩
    · obtain ⟨hlive'', hdone, hsettles⟩ := ih hlive'
      exact ⟨hlive'', hdone, fun r f' hrest => .pending hpending (hsettles r f' hrest)⟩
    · obtain ⟨hlive'', hsettles⟩ := ih hlive'
      exact ⟨hlive'', .pending hpending hsettles⟩

/-- What the strict stream hands out from where a stream is: the data that is left, and then what it
says of the text behind the delimiter. -/
theorem final_drains {chunks : List Bytes} {r : Except (Error ε) Unit} (hlive : s.terminated = false)
    (h : Drains (asking pollNext) s chunks r s') :
    (r = .ok () → s'.terminated = false ∧ s'.done = true ∧ ∀ r' f',
      Drains (asking FinalPartDataStream.pollNext) s'.intoFinal [] r' f' →
        Drains (asking FinalPartDataStream.pollNext) s.intoFinal chunks r' f') ∧
    ∀ e, r = .error e → ∃ f',
      Drains (asking FinalPartDataStream.pollNext) s.intoFinal chunks (.error e) f' := by
  induction h with
  | done last =>
    obtain ⟨hlive', hdone, hsettles⟩ := resumes hlive last
    exact ⟨fun _ => ⟨hlive', hdone, fun r' f' hrest => hrest.of_first hsettles⟩, nofun⟩
  | failed last =>
    obtain ⟨f', hsettles⟩ := resumes hlive last
    refine ⟨nofun, ?_⟩
    rintro e ⟨⟩
    exact ⟨f', .failed hsettles⟩
  | item first rest ih =>
    obtain ⟨hlive', hsettles⟩ := resumes hlive first
    obtain ⟨hok, herror⟩ := ih hlive'
    refine ⟨fun hr => ?_, fun e hr => ?_⟩
    · obtain ⟨hlive'', hdone, hrest⟩ := hok hr
      exact ⟨hlive'', hdone, fun r' f' h => .item hsettles (hrest r' f' h)⟩
    · obtain ⟨f', hrest⟩ := herror e hr
      exact ⟨f', .item hsettles hrest⟩

/-- What has been read of a stream, and what is still to be read or has failed. -/
def Partly (chunks : List Bytes) (r : Except (Error ε) Unit) (e : PartDataStream ε)
    (seen : List (Item Bytes (Error ε))) (s : PartDataStream ε) : Prop :=
  (s.terminated = false ∧ (∀ a ∈ seen, a.isError = false) ∧
      ∃ rest, oks seen ++ rest = chunks ∧ Drains (asking pollNext) s rest r e) ∨
    (s.terminated = true ∧ s.done = false ∧ (∃ a ∈ seen, a.isError = true) ∧ oks seen = chunks ∧
      r ≠ .ok ())

/-- An error ends the stream. -/
theorem pollNext_error {e : Error ε} (h : s.pollNext = (.ready (some (.error e)), s')) :
    s'.terminated = true ∧ s'.done = false := by
  unfold pollNext at h
  split at h
  · cases h
  · next hlive =>
    rcases hloop : s.buffer.partDataLoop s.delimiterFinder with ⟨_ | (e' | (data | data)), b'⟩ <;>
      rw [hloop] at h
    · cases h
    · cases h
      simp only [Bool.or_eq_true, not_or, Bool.not_eq_true] at hlive
      exact ⟨rfl, hlive.1⟩
    · cases hempty : data.isEmpty <;> simp [hempty] at h
    · cases h

theorem pollNext_done (h : s.done = true) : s.pollNext = (.ready none, s) := by
  rw [pollNext, if_pos (by simp [h])]

theorem Partly.next {chunks : List Bytes} {r : Except (Error ε) Unit} {e : PartDataStream ε}
    {seen : List (Item Bytes (Error ε))} (h : Partly chunks r e seen s) :
    Partly chunks r e (seen ++ [s.pollNext.1]) s.pollNext.2 := by
  rcases h with ⟨hlive, hseen, rest, hrest, hdrains⟩ | ⟨hended, hundone, ⟨a, ha, herror⟩, hall, hr⟩
  · have hcontinues := continues hlive
    have hmem : ∀ a : Item Bytes (Error ε), a.isError = false →
        ∀ a' ∈ seen ++ [a], a'.isError = false := by
      intro a ha a' ha'
      rcases List.mem_append.mp ha' with hold | hnew
      · exact hseen a' hold
      · obtain rfl := List.mem_singleton.mp hnew
        exact ha
    rcases hpoll : s.pollNext with ⟨_ | (_ | (e' | data)), s₁⟩ <;> rw [hpoll] at hcontinues
    · refine .inl ⟨hcontinues.1, hmem _ rfl, rest, ?_, hdrains.after_pending (by rw [asking, hpoll]; rfl)⟩
      rw [oks_append_singleton]
      simpa [Item.ok?] using hrest
    · have hlast : Drains (asking pollNext) s [] (.ok ()) s₁ :=
        .done (.ready (by rw [asking, hpoll]; rfl))
      obtain ⟨rfl, rfl, rfl⟩ := hdrains.unique hlast
      refine .inl ⟨hcontinues.1, hmem _ rfl, [], ?_, .done (.ready ?_)⟩
      · rw [oks_append_singleton]
        simpa [Item.ok?] using hrest
      · rw [asking, pollNext_done hcontinues.2.1]
        rfl
    · have hlast : Drains (asking pollNext) s [] (.error e') s₁ :=
        .failed (.ready (by rw [asking, hpoll]; rfl))
      obtain ⟨rfl, rfl, rfl⟩ := hdrains.unique hlast
      obtain ⟨hended, hundone⟩ := pollNext_error hpoll
      refine .inr ⟨hended, hundone, ⟨_, List.mem_append_right _ (List.mem_singleton_self _), rfl⟩, ?_,
        error_ne_ok⟩
      rw [oks_append_singleton]
      simpa [Item.ok?] using hrest
    · obtain ⟨rest', rfl, hdrains'⟩ := hdrains.after_item (by rw [asking, hpoll]; rfl)
      refine .inl ⟨hcontinues.1, hmem _ rfl, rest', ?_, hdrains'⟩
      rw [oks_append_singleton, ← hrest]
      simp [Item.ok?]
  · rw [pollNext, if_pos (by simp [hended])]
    refine .inr ⟨hended, hundone, ⟨a, List.mem_append_left _ ha, herror⟩, ?_, hr⟩
    rw [oks_append_singleton]
    simpa [Item.ok?] using hall

/-- The stream after a number of polls. -/
theorem partly_after {chunks : List Bytes} {r : Except (Error ε) Unit} {e : PartDataStream ε}
    (hlive : s.terminated = false) (h : Drains (asking pollNext) s chunks r e) (polls : List Unit) :
    Partly chunks r e (run (fun _ => pollNext) polls s) (after (fun _ => pollNext) polls s) :=
  run_history (P := Partly chunks r e) (fun _ _ _ hs => hs.next) polls [] s
    (.inl ⟨hlive, fun _ ha => absurd ha List.not_mem_nil, chunks, rfl, h⟩)

/-- A stream that has failed is not taken up again. -/
theorem aborted_drains (hended : s.terminated = true) (hundone : s.done = false) :
    ∃ f', Drains (asking FinalPartDataStream.pollNext) s.intoFinal [] (.error .incompleteStreamPart)
      f' := by
  obtain ⟨b, delimiter, consumed, done, terminated⟩ := s
  obtain rfl : terminated = true := hended
  obtain rfl : done = false := hundone
  exact ⟨_, .failed (.ready rfl)⟩

/-- A stream behind the delimiter of a text, when this has been read before it. -/
structure Behind (delimiter text read : Bytes) (s : PartDataStream ε) : Prop where
  done : s.done = true
  live : s.terminated = false
  plain : s.buffer.Plain
  found : ∃ i, find delimiter text = some i ∧ read = text.take i ∧
    s.buffer.view = text.drop (i + delimiter.length)

/-- A stream in a text, when this has been read before it. -/
structure Inside (delimiter text read : Bytes) (s : PartDataStream ε) : Prop where
  undone : s.done = false
  live : s.terminated = false
  finder : s.delimiterFinder = delimiter
  plain : s.buffer.Plain
  split : text = read ++ s.buffer.view
  search : find delimiter text = (find delimiter s.buffer.view).map (· + read.length)

/-- How the reading of a text ends. -/
def EndsText (delimiter text : Bytes) (chunks : List Bytes) :
    Except (Error ε) Unit → PartDataStream ε → Prop
  | .ok (), s => Behind delimiter text chunks.flatten s
  | .error _, _ => find delimiter text = none

theorem Inside.step {delimiter text : Bytes} {seen : List Bytes} (hne : delimiter ≠ [])
    (h : Inside delimiter text seen.flatten s) :
    Yields (fun s' => Inside delimiter text seen.flatten s')
      (Collects (fun seen s' => Inside delimiter text seen.flatten s' ∨
        Behind delimiter text seen.flatten s') (EndsText delimiter text) seen)
      (asking pollNext s) := by
  obtain ⟨b, finder, consumed, done, terminated⟩ := s
  obtain ⟨rfl, rfl, rfl, hplain, hsplit, hsearch⟩ := h
  have hloop := StreamBuffer.partDataLoop_yields hne b hplain
  rw [asking, pollNext, if_neg (by simp)]
  dsimp only at hsplit hsearch ⊢
  rcases hpoll : b.partDataLoop finder with ⟨_ | (e | (data | data)), b'⟩ <;> rw [hpoll] at hloop
  · obtain ⟨hleft, -⟩ := hloop
    refine ⟨rfl, rfl, rfl, hleft.plain, ?_, ?_⟩
    · rw [hleft.view]
      exact hsplit
    · rw [hleft.view]
      exact hsearch
  · have hnone : find finder text = none := by
      rw [hsearch, show find finder b.view = none from hloop, Option.map_none]
    exact hnone
  · obtain ⟨i, hfind, hdata, hleft⟩ := hloop
    have hbehind : Behind finder text (seen ++ [data]).flatten
        { buffer := b', delimiterFinder := finder, multipartConsumed := consumed, done := true,
          terminated := false } := by
      refine ⟨rfl, rfl, hleft.plain, i + seen.flatten.length, ?_, ?_, ?_⟩
      · rw [hsearch, hfind, Option.map_some]
      · rw [List.flatten_append, List.flatten_singleton, hdata, hsplit, Nat.add_comm,
          List.take_length_add_append]
      · rw [hleft.view, hsplit, Nat.add_comm i seen.flatten.length, Nat.add_assoc,
          List.drop_length_add_append]
    cases hempty : data.isEmpty with
    | true =>
      obtain rfl : data = [] := by simpa using hempty
      rw [List.flatten_append, List.flatten_singleton, List.append_nil] at hbehind
      exact hbehind
    | false =>
      simp only [hempty]
      exact .inr hbehind
  · obtain ⟨-, hnone, rest, hview, hleft⟩ := hloop
    refine .inl ⟨rfl, rfl, rfl, hleft.plain, ?_, ?_⟩
    · rw [List.flatten_append, List.flatten_singleton, hleft.view, hsplit, hview, List.append_assoc]
    · have hlen : data.length ≤ b.view.length := by
        rw [hview, List.length_append]
        exact Nat.le_add_right _ _
      rw [hsearch, find_of_noneBefore hnone hlen, hview, List.drop_left, hleft.view, Option.map_map]
      refine congrArg (Option.map · _) (funext fun i => ?_)
      rw [Function.comp_apply, List.flatten_append, List.flatten_singleton, List.length_append]
      omega

/-- What a stream hands out of the text to come: all before the delimiter, with what follows the
delimiter left in the buffer. -/
theorem drains_text {delimiter : Bytes} {chunks : List Bytes} {r : Except (Error ε) Unit}
    (hne : delimiter ≠ []) (hundone : s.done = false) (hlive : s.terminated = false)
    (hfinder : s.delimiterFinder = delimiter) (hb : s.buffer.Plain)
    (h : Drains (asking pollNext) s chunks r s') :
    EndsText delimiter s.buffer.view chunks r s' := by
  have hlast := h.invariant
    (P := fun seen s' => Inside delimiter s.buffer.view seen.flatten s' ∨
      Behind delimiter s.buffer.view seen.flatten s')
    (Q := EndsText delimiter s.buffer.view) (fun seen s₁ hs₁ => ?_) []
    (.inl ⟨hundone, hlive, hfinder, hb, rfl, by simp⟩)
  · exact hlast
  · rcases hs₁ with hinside | hbehind
    · exact (hinside.step hne).mono (fun _ hw => .inl hw) fun _ _ hr => hr
    · rw [asking, pollNext_done hbehind.done]
      exact hbehind

end PartDataStream

theorem Multipart.beginData_finder (mp : Multipart ε) :
    mp.beginData.delimiterFinder = mp.delimiterFinder := by
  unfold beginData finishHeaders
  split
  · split
    · rfl
    · rfl
  · rfl

/-- A stream is read to its end, or to an error. -/
theorem PartDataStream.drains {s : PartDataStream ε} (hundone : s.done = false)
    (hlive : s.terminated = false) : ∃ chunks r sE, Drains (asking pollNext) s chunks r sE := by
  let mp : Multipart ε := {
    buffer := some s.buffer
    firstBoundary := []
    delimiterFinder := some s.delimiterFinder
    maxBufferSize := 0
    state := .readingPartData
    headers := none
    partHandedOut := false }
  obtain ⟨chunks, r, mpE, hparser⟩ := Multipart.data_drains mp
  have hfollows : Multipart.Follows mp s := .reading rfl rfl rfl hundone hlive
  obtain ⟨r', sE, hstream, -⟩ := hparser.simulate (fun _ _ h => h.agree) hfollows
  exact ⟨chunks, r', sE, hstream⟩

/-- The text behind the delimiter is closed when the strict stream finds it so. -/
theorem PartDataStream.Behind.closing {delimiter text read : Bytes} {s : PartDataStream ε}
    (h : Behind delimiter text read s) :
    s.intoFinal.Closing ↔ ∃ rest, afterFirst delimiter text = some rest ∧ Closed rest := by
  obtain ⟨i, hfind, -, hview⟩ := h.found
  have hclosing : s.intoFinal.Closing ↔ Closed s.buffer.view := by
    simp [FinalPartDataStream.Closing, intoFinal, h.done]
  rw [hclosing, hview, afterFirst, hfind, Option.map_some]
  simp

/-- The strict stream hands out the data before the delimiter when it ends without an error; and it
does so when the body is closed there. -/
theorem strict_drains {delimiter : Bytes} {s : PartDataStream ε} (hne : delimiter ≠ [])
    (hundone : s.done = false) (hlive : s.terminated = false) (hfinder : s.delimiterFinder = delimiter)
    (hb : s.buffer.Plain) :
    ∃ chunks strict fE,
      Drains (asking FinalPartDataStream.pollNext) s.intoFinal chunks strict fE ∧
      (strict = .ok () → ∃ i, find delimiter s.buffer.view = some i ∧
        chunks.flatten = s.buffer.view.take i) ∧
      ((∃ text, afterFirst delimiter s.buffer.view = some text ∧ Closed text) → strict = .ok ()) := by
  obtain ⟨chunks, r, sE, hstream⟩ := PartDataStream.drains hundone hlive
  have hends := PartDataStream.drains_text hne hundone hlive hfinder hb hstream
  obtain ⟨hok, herror⟩ := PartDataStream.final_drains hlive hstream
  rcases r with e | u
  · obtain ⟨fE, hfinal⟩ := herror e rfl
    have hnone : find delimiter s.buffer.view = none := hends
    refine ⟨chunks, _, fE, hfinal, nofun, fun ⟨text, htext, _⟩ => ?_⟩
    rw [afterFirst, hnone] at htext
    cases htext
  · obtain ⟨hliveE, hdoneE, hfinal⟩ := hok rfl
    have hbehind : PartDataStream.Behind delimiter s.buffer.view chunks.flatten sE := hends
    obtain ⟨strict, fE, htrailer, hclosing⟩ := FinalPartDataStream.trailer_drains
      (f := sE.intoFinal) rfl (by simp [PartDataStream.intoFinal, hdoneE])
    refine ⟨chunks, strict, fE, hfinal _ _ htrailer, fun _ => ?_, fun hclosed => ?_⟩
    · obtain ⟨i, hfind, hread, -⟩ := hbehind.found
      exact ⟨i, hfind, hread⟩
    · exact (hclosing hbehind.plain).mpr (hbehind.closing.mpr hclosed)

/-- The data of a part is the same from the parser, from the stream that it is handed over to, and
from the strict stream that this one becomes after any number of polls. The strict stream ends
without an error when the body is closed behind the delimiter, and only then; one that goes on from
a stream that has failed never does. -/
theorem part_readers_agree (boundary : Boundary) (mp mp' : Multipart ε) (s : PartDataStream ε)
    (hfinder : mp.delimiterFinder = some (makeDelimiter boundary.bytes))
    (htake : mp.takeDataStream = (.ok s, mp')) :
    ∃ chunks r r' mpE sE,
      Drains Multipart.pollNextPartDataChunk mp.beginData chunks r mpE ∧
      Drains (asking PartDataStream.pollNext) s chunks r' sE ∧ (r = .ok () ↔ r' = .ok ()) ∧
      ∀ polls : List Unit, ∃ rest strict fE,
        oks (run (fun _ => PartDataStream.pollNext) polls s) ++ rest = chunks ∧
        Drains (asking FinalPartDataStream.pollNext)
          (after (fun _ => PartDataStream.pollNext) polls s).intoFinal rest strict fE ∧
        (s.buffer.Plain → (strict = .ok () ↔
          ∃ text, afterFirst (makeDelimiter boundary.bytes) s.buffer.view = some text ∧ Closed text)) ∧
        ((∃ a ∈ run (fun _ => PartDataStream.pollNext) polls s, a.isError = true) →
          rest = [] ∧ strict = .error .incompleteStreamPart) := by
  obtain ⟨hstate, hbuffer, hfinder', hundone, hlive, -⟩ := Multipart.takeDataStream_ok htake
  rw [Multipart.beginData_finder, hfinder, Option.some_inj] at hfinder'
  have hfollows : Multipart.Follows mp.beginData s :=
    .reading hstate hbuffer (by rw [Multipart.beginData_finder, hfinder, hfinder']) hundone hlive
  obtain ⟨chunks, r, mpE, hparser⟩ := Multipart.data_drains mp.beginData
  obtain ⟨r', sE, hstream, hlast⟩ := hparser.simulate (fun _ _ h => h.agree) hfollows
  have hends : s.buffer.Plain →
      PartDataStream.EndsText (makeDelimiter boundary.bytes) s.buffer.view chunks r' sE := fun hb =>
    PartDataStream.drains_text (makeDelimiter_ne_nil _) hundone hlive hfinder'.symm hb hstream
  have hunclosed : s.buffer.Plain → r' ≠ .ok () →
      (∃ text, afterFirst (makeDelimiter boundary.bytes) s.buffer.view = some text ∧ Closed text) =
        False := by
    intro hb hr'
    rcases r' with e | u
    · have hnone : find (makeDelimiter boundary.bytes) s.buffer.view = none := hends hb
      simp [afterFirst, hnone]
    · exact (hr' rfl).elim
  refine ⟨chunks, r, r', mpE, sE, hparser, hstream, ?_, fun polls => ?_⟩
  · rcases r with e | u <;> rcases r' with e' | u'
    · exact iff_of_false error_ne_ok error_ne_ok
    · exact hlast.elim
    · exact hlast.elim
    · exact iff_of_true rfl rfl
  · rcases PartDataStream.partly_after hlive hstream polls with
      ⟨hlive', hnone, rest, hrest, hdrains⟩ | ⟨hended, hundone', hfailed, hall, hr'⟩
    · have hsound : ¬ ∃ a ∈ run (fun _ => PartDataStream.pollNext) polls s, a.isError = true := by
        rintro ⟨a, ha, herror⟩
        rw [hnone a ha] at herror
        cases herror
      obtain ⟨hok, herror⟩ := PartDataStream.final_drains hlive' hdrains
      rcases r' with e | u
      · obtain ⟨fE, hfinal⟩ := herror e rfl
        refine ⟨rest, _, fE, hrest, hfinal, fun hb => ?_, fun h => (hsound h).elim⟩
        rw [hunclosed hb error_ne_ok]
        exact iff_of_false error_ne_ok not_false
      · obtain ⟨hliveE, hdoneE, hfinal⟩ := hok rfl
        obtain ⟨strict, fE, htrailer, hclosing⟩ := FinalPartDataStream.trailer_drains
          (f := sE.intoFinal) rfl (by simp [PartDataStream.intoFinal, hdoneE])
        refine ⟨rest, strict, fE, hrest, hfinal _ _ htrailer, fun hb => ?_, fun h => (hsound h).elim⟩
        have hbehind := hends hb
        rw [hclosing hbehind.plain]
        exact hbehind.closing
    · obtain ⟨fE, hdrains⟩ := PartDataStream.aborted_drains hended hundone'
      refine ⟨[], _, fE, by rw [List.append_nil]; exact hall, hdrains, fun hb => ?_, fun _ => ⟨rfl, rfl⟩⟩
      rw [hunclosed hb hr']
      exact iff_of_false error_ne_ok not_false

/-- A parser in the data of its last part, with a wait in it. -/
def sampleScript : Script Empty :=
  [.ready (some (.ok (ascii "hello wor"))), .pending,
    .ready (some (.ok (ascii "ld\r\n--b-"))), .ready (some (.ok (ascii "- \t\r\n")))]

def sampleTaken : PartDataStream Empty where
  buffer := .new sampleScript
  delimiterFinder := makeDelimiter Multipart.sampleBoundary.bytes
  multipartConsumed := 0
  done := false
  terminated := false

theorem sampleScript_plain : sampleTaken.buffer.Plain := by
  refine ⟨⟨sampleScript, rfl⟩, fun a ha => ?_, nofun⟩
  simp only [sampleTaken, StreamBuffer.new, sampleScript, Option.getD_some, List.mem_cons,
    List.not_mem_nil, or_false] at ha
  rcases ha with rfl | rfl | rfl | rfl
  · exact fun h => by cases h
  · trivial
  · exact fun h => by cases h
  · exact fun h => by cases h

theorem part_readers_agree_sample :
    ∃ chunks rest fE,
      oks (run (fun _ => PartDataStream.pollNext) [(), ()] sampleTaken) ++ rest = chunks ∧
      Drains (asking FinalPartDataStream.pollNext)
        (after (fun _ => PartDataStream.pollNext) [(), ()] sampleTaken).intoFinal rest (.ok ()) fE := by
  obtain ⟨chunks, r, r', mpE, sE, -, -, -, h⟩ := part_readers_agree Multipart.sampleBoundary
    (machine Multipart.sampleBoundary 16 .readingPartData none false (.new sampleScript)) _
    sampleTaken rfl rfl
  obtain ⟨rest, strict, fE, hrest, hdrains, hclean, -⟩ := h [(), ()]
  have hclosed : Closed (ascii "-- \t\r\n") := ⟨ascii " \t", by decide +kernel, by decide +kernel⟩
  obtain rfl : strict = .ok () :=
    (hclean sampleScript_plain).mpr ⟨_, by decide +kernel, hclosed⟩
  exact ⟨chunks, rest, fE, hrest, hdrains⟩

end S3s.FormData
