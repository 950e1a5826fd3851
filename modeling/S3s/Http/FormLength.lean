import S3s.Http.Multipart

/-! # The length of the file of a form

The stream of a file counts down what it hands out. When it ends without an error
it has handed out the data of the file, of the length that was derived; it never
hands out more; and it does end so when nothing but the closing trailer follows.
-/
namespace S3s.Http
open Polling FormData Search

variable {ε : Type}

namespace FileStream

variable {s s' : FileStream ε} {n : Nat}

/-- A stream with a known length, which has this much left. -/
structure Counts (n : Nat) (s : FileStream ε) : Prop where
  len : s.contentLen.isSome = true
  going : s.ended = false
  remaining : s.remaining = n

/-- What a poll of the stream says of a poll of the stream inside. -/
theorem pollNext_cases (h : Counts n s) :
    (∃ inner, s.inner.pollNext = (.pending, inner) ∧
      s.pollNext = (.pending, { s with inner := inner })) ∨
    (∃ bytes inner, s.inner.pollNext = (.ready (some (.ok bytes)), inner) ∧ bytes.length ≤ n ∧
      s.pollNext = (.ready (some (.ok bytes)),
        { s with inner := inner, remaining := n - bytes.length })) ∨
    (∃ inner, s.inner.pollNext = (.ready none, inner) ∧ n = 0 ∧
      s.pollNext = (.ready none, { s with inner := inner })) ∨
    (∃ r inner e, s.inner.pollNext = (r, inner) ∧
      (∀ bytes, r = .ready (some (.ok bytes)) → n < bytes.length) ∧ (r = .ready none → 0 < n) ∧
      r ≠ .pending ∧
      s.pollNext = (.ready (some (.error e)), { s with inner := inner, ended := true })) := by
  obtain ⟨hlen, hgoing, rfl⟩ := h
  have hgo : ¬ s.ended = true := by simp [hgoing]
  rcases hpoll : s.inner.pollNext with ⟨_ | (_ | (e | bytes)), inner⟩ <;>
    rw [pollNext, if_neg hgo, hpoll] <;> dsimp only
  · exact .inl ⟨inner, rfl, rfl⟩
  · by_cases hleft : s.remaining > 0
    · rw [if_pos (by simp [hlen, hleft])]
      exact .inr (.inr (.inr ⟨_, inner, _, rfl, nofun, fun _ => hleft, nofun, rfl⟩))
    · rw [if_neg (by simp [hleft])]
      exact .inr (.inr (.inl ⟨inner, rfl, Nat.eq_zero_of_not_pos hleft, rfl⟩))
  · exact .inr (.inr (.inr ⟨_, inner, _, rfl, nofun, nofun, nofun, rfl⟩))
  · rw [if_pos hlen]
    by_cases hlong : bytes.length > s.remaining
    · rw [if_pos hlong]
      refine .inr (.inr (.inr ⟨_, inner, _, rfl, ?_, nofun, nofun, rfl⟩))
      rintro bytes' ⟨⟩
      exact hlong
    · rw [if_neg hlong]
      exact .inr (.inl ⟨bytes, inner, rfl, Nat.le_of_not_lt hlong, rfl⟩)

/-- Polled until it is ready with an item or its end, the stream says what the stream inside does. -/
theorem settles_inner {o : Option Bytes} (h : Settles (asking pollNext) s (.ok o) s')
    (hs : Counts n s) :
    Settles (asking FinalPartDataStream.pollNext) s.inner (.ok o) s'.inner ∧
      ∃ n', Counts n' s' ∧ n = (o.getD []).length + n' ∧ (o = none → n = 0) := by
  generalize hr : (Except.ok o : Except (FileStreamError ε) (Option Bytes)) = r at h
  induction h generalizing n with
  | @ready s s' r result =>
    subst hr
    rcases pollNext_cases hs with ⟨inner, -, hpoll⟩ | ⟨bytes, inner, hinner, hle, hpoll⟩ |
      ⟨inner, hinner, hzero, hpoll⟩ | ⟨r, inner, e, -, -, -, -, hpoll⟩ <;>
      rw [asking, hpoll] at result <;> cases result
    · exact ⟨.ready (by rw [asking, hinner]; rfl), n - bytes.length, ⟨hs.len, hs.going, rfl⟩,
        (Nat.add_sub_cancel' hle).symm, fun h => by cases h⟩
    · exact ⟨.ready (by rw [asking, hinner]; rfl), n, ⟨hs.len, hs.going, hs.remaining⟩,
        (Nat.zero_add n).symm, fun _ => hzero⟩
  | @pending s s₁ s' r result rest ih =>
    rcases pollNext_cases hs with ⟨inner, hinner, hpoll⟩ | ⟨bytes, inner, hinner, hle, hpoll⟩ |
      ⟨inner, hinner, hzero, hpoll⟩ | ⟨r, inner, e, -, -, -, -, hpoll⟩ <;>
      rw [asking, hpoll] at result <;> cases result
    obtain ⟨hsettles, hcount⟩ := ih ⟨hs.len, hs.going, hs.remaining⟩ hr
    exact ⟨.pending (by rw [asking, hinner]; rfl) hsettles, hcount⟩

/-- A stream that ends without an error has handed out what the stream inside does, as much of it as
it had left. -/
theorem drains_inner {items : List Bytes} (h : Drains (asking pollNext) s items (.ok ()) s')
    (hs : Counts n s) :
    Drains (asking FinalPartDataStream.pollNext) s.inner items (.ok ()) s'.inner ∧
      items.flatten.length = n := by
  generalize hr : (Except.ok () : Except (FileStreamError ε) Unit) = r at h
  induction h generalizing n with
  | done last =>
    obtain ⟨hinner, -, -, -, hzero⟩ := settles_inner last hs
    exact ⟨.done hinner, (hzero rfl).symm⟩
  | failed last => cases hr
  | item first rest ih =>
    obtain ⟨hinner, n', hcounts, hn, -⟩ := settles_inner first hs
    obtain ⟨hrest, hlen⟩ := ih hcounts hr
    refine ⟨.item hinner hrest, ?_⟩
    rw [List.flatten_cons, List.length_append, hlen, hn]
    rfl

theorem settles_of_inner {o : Option Bytes} {f : FinalPartDataStream ε}
    (h : Settles (asking FinalPartDataStream.pollNext) s.inner (.ok o) f) (hs : Counts n s)
    (hle : (o.getD []).length ≤ n) (hzero : o = none → n = 0) :
    ∃ s', Settles (asking pollNext) s (.ok o) s' ∧ s'.inner = f ∧
      Counts (n - (o.getD []).length) s' := by
  generalize hr : (Except.ok o : Except (FormData.Error ε) (Option Bytes)) = r at h
  generalize ht : s.inner = t at h
  induction h generalizing s with
  | @ready t f r result =>
    subst hr ht
    rcases pollNext_cases hs with ⟨inner, hinner, -⟩ | ⟨bytes, inner, hinner, -, hpoll⟩ |
      ⟨inner, hinner, -, hpoll⟩ | ⟨r, inner, e, hinner, hbytes, hnone, hpending, -⟩ <;>
      rw [asking, hinner] at result
    · cases result
    · cases result
      exact ⟨{ s with inner := inner, remaining := n - bytes.length },
        .ready (by rw [asking, hpoll]; rfl), rfl, hs.len, hs.going, rfl⟩
    · cases result
      exact ⟨{ s with inner := inner }, .ready (by rw [asking, hpoll]; rfl), rfl, hs.len, hs.going,
        hs.remaining⟩
    · rcases r with _ | (_ | (e' | bytes))
      · exact (hpending rfl).elim
      · cases result
        exact absurd (hzero rfl) (Nat.ne_of_gt (hnone rfl))
      · cases result
      · cases result
        exact absurd hle (Nat.not_le.mpr (hbytes bytes rfl))
  | @pending t t₁ f r result rest ih =>
    subst ht
    rcases pollNext_cases hs with ⟨inner, hinner, hpoll⟩ | ⟨bytes, inner, hinner, -, -⟩ |
      ⟨inner, hinner, -, -⟩ | ⟨r, inner, e, hinner, -, -, hpending, -⟩ <;>
      rw [asking, hinner] at result
    · cases result
      obtain ⟨s', hsettles, hlast⟩ :=
        ih (s := { s with inner := inner }) ⟨hs.len, hs.going, hs.remaining⟩ hr rfl
      exact ⟨s', .pending (by rw [asking, hpoll]; rfl) hsettles, hlast⟩
    · cases result
    · cases result
    · rcases r with _ | (_ | (e' | bytes))
      · exact (hpending rfl).elim
      · cases result
      · cases result
      · cases result

/-- A stream hands out what the stream inside does when this is as much as it has left. -/
theorem drains_of_inner {items : List Bytes} {f : FinalPartDataStream ε}
    (h : Drains (asking FinalPartDataStream.pollNext) s.inner items (.ok ()) f)
    (hs : Counts items.flatten.length s) :
    ∃ s', Drains (asking pollNext) s items (.ok ()) s' := by
  generalize hr : (Except.ok () : Except (FormData.Error ε) Unit) = r at h
  generalize ht : s.inner = t at h
  induction h generalizing s with
  | done last =>
    subst ht
    obtain ⟨s', hsettles, -⟩ := settles_of_inner last hs (Nat.le_refl _) fun _ => rfl
    exact ⟨s', .done hsettles⟩
  | failed last => cases hr
  | @item t t₁ f a items r first rest ih =>
    subst ht
    have hlen : (a :: items).flatten.length = a.length + items.flatten.length := by
      rw [List.flatten_cons, List.length_append]
    rw [hlen] at hs
    obtain ⟨s₁, hsettles, hinner, hcounts⟩ :=
      settles_of_inner first hs (Nat.le_add_right _ _) nofun
    have hleft : Counts items.flatten.length s₁ := by
      simpa using hcounts
    obtain ⟨s', hdrains⟩ := ih hleft hr hinner
    exact ⟨s', .item hsettles hdrains⟩

/-- What has been handed out and what is left are the length. -/
theorem counts_run (hlen : s.contentLen = some n) (hleft : s.remaining = n) (polls : List Unit) :
    (oks (run (fun _ => pollNext) polls s)).flatten.length +
      (after (fun _ => pollNext) polls s).remaining = n := by
  have hstep : ∀ (rs : List (Item Bytes (FileStreamError ε))) (_ : Unit) (s₁ : FileStream ε),
      s₁.contentLen.isSome = true ∧ (oks rs).flatten.length + s₁.remaining = n →
        s₁.pollNext.2.contentLen.isSome = true ∧
          (oks (rs ++ [s₁.pollNext.1])).flatten.length + s₁.pollNext.2.remaining = n := by
    rintro rs - s₁ ⟨hsome, hsum⟩
    cases hended : s₁.ended with
    | true =>
      rw [pollNext, if_pos hended, oks_append_singleton]
      exact ⟨hsome, by simpa [Item.ok?] using hsum⟩
    | false =>
      rcases pollNext_cases ⟨hsome, hended, rfl⟩ with ⟨inner, -, hpoll⟩ | ⟨bytes, inner, -, hle, hpoll⟩ |
        ⟨inner, -, -, hpoll⟩ | ⟨r, inner, e, -, -, -, -, hpoll⟩ <;>
        rw [hpoll, oks_append_singleton]
      · exact ⟨hsome, by simpa [Item.ok?] using hsum⟩
      · refine ⟨hsome, ?_⟩
        simp only [Item.ok?, Option.toList_some, List.flatten_append, List.length_append,
          List.flatten_singleton]
        omega
      · exact ⟨hsome, by simpa [Item.ok?] using hsum⟩
      · exact ⟨hsome, by simpa [Item.ok?] using hsum⟩
  exact (run_history hstep polls [] s ⟨by simp [hlen], by simp [oks, hleft]⟩).2

theorem pollNext_moves (s : FileStream ε) : s.inner.buffer.Moves s.pollNext.2.inner.buffer := by
  have h := s.inner.pollNext_moves
  unfold pollNext
  split
  · rfl
  · rcases hpoll : s.inner.pollNext with ⟨_ | (_ | (e | bytes)), inner⟩ <;> rw [hpoll] at h <;>
      dsimp only
    · exact h
    · split
      · exact h
      · exact h
    · exact h
    · split
      · split
        · exact h
        · exact h
      · exact h

theorem after_moves (s : FileStream ε) (polls : List Unit) :
    s.inner.buffer.Moves (after (fun _ => pollNext) polls s).inner.buffer :=
  after_invariant (P := fun s' : FileStream ε => s.inner.buffer.Moves s'.inner.buffer)
    (fun _ s' hs' => hs'.trans s'.pollNext_moves) polls s (.refl _)

end FileStream

section Form

variable {H : Httparse} {boundary : Bytes} {limits : MultipartLimits} {totalLen : Option Nat}
  {parser parser' : Parser ε}

theorem ReadsInfo.called {info : PartInfo} {r : Except (MultipartError ε) PartInfo}
    (h : ReadsInfo H parser info r parser') : parser.Called H parser' := by
  induction h with
  | done header => exact Multipart.called_of_settles .header header
  | failed header => exact Multipart.called_of_settles .header header
  | refused header kept => exact Multipart.called_of_settles .header header
  | kept header kept rest ih => exact (Multipart.called_of_settles .header header).trans ih

theorem ReadsValue.called {value : Bytes × Nat} {r : Except (MultipartError ε) (Bytes × Nat)}
    (h : ReadsValue H limits parser value r parser') : parser.Called H parser' := by
  induction h with
  | done data => exact Multipart.called_of_settles .data data
  | failed data => exact Multipart.called_of_settles .data data
  | refused data added => exact Multipart.called_of_settles .data data
  | added data added rest ih => exact (Multipart.called_of_settles .data data).trans ih

/-- The file of a form is the stream that was taken from the parser at a state it was brought to. -/
theorem ReadsForm.taken {progress : Progress} {form : Multipart ε}
    (h : ReadsForm H boundary limits totalLen parser progress (.ok form) parser') :
    ∃ parser₁ parser₂ s, parser.Called H parser₁ ∧ parser₁.takeDataStream = (.ok s, parser₂) ∧
      form.file.stream =
        some (.fromOwned s.intoFinal (contentLength boundary totalLen s.multipartConsumed)) := by
  generalize hr : (.ok form : Except (MultipartError ε) (Multipart ε)) = r at h
  induction h with
  | failed part => cases hr
  | closed part => cases hr
  | tooMany part many => cases hr
  | badHeader part few headers => cases hr
  | badPart part few headers rest => cases hr
  | file part few headers rest =>
    cases hr
    cases rest with
    | file name file taken =>
      exact ⟨_, _, _, (FormData.Multipart.called_of_nextPart part).trans headers.called, taken, rfl⟩
  | field part few headers rest more ih =>
    obtain ⟨parser₁, parser₂, s, hcalled, htaken, hstream⟩ := ih hr
    refine ⟨parser₁, parser₂, s, ?_, htaken, hstream⟩
    cases rest with
    | field name field value readable =>
      exact (((FormData.Multipart.called_of_nextPart part).trans headers.called).trans
        value.called).trans hcalled

end Form

/-- The data of the file that begins behind a number of bytes of a body, and what follows it. -/
def fileData (boundary body : Bytes) (consumed : Nat) : Option (Bytes × Bytes) :=
  (find (makeDelimiter boundary) (body.drop consumed)).map fun i =>
    ((body.drop consumed).take i, (body.drop consumed).drop i)

/-- The bytes of a body that arrives as the script says. -/
abbrev bodyOf (stream : Script ε) : Bytes := stream.flatMap StreamBuffer.answerBytes

/-- What has been consumed and what is in the buffer are what has been polled, and this and what the
stream still carries are the body. -/
def Accounted (body : Bytes) (b : StreamBuffer ε) : Prop :=
  b.consumed + b.buf.length = b.polledTotal ∧ b.polledTotal + b.rest.length = body.length

theorem contentLength_eq_some {boundary : Bytes} {total consumed n : Nat}
    (h : contentLength boundary (some total) consumed = some n) :
    consumed + n + (boundary.length + 8) = total := by
  unfold contentLength at h
  rw [Option.bind_some] at h
  split at h
  · split at h
    · cases h
      omega
    · cases h
  · cases h

/-- The length of a file: when its stream ends without an error, it has handed out the data of the
file, and this is of that length; the stream does end so when the closing delimiter and the end of
the body follow the data; and it never hands out more. -/
structure ExactLength (boundary body : Bytes) (file : FileStream ε) (n : Nat) : Prop where
  data : ∀ items file', Drains (asking FileStream.pollNext) file items (.ok ()) file' →
    ∃ rest, fileData boundary body file.inner.multipartConsumed = some (items.flatten, rest) ∧
      items.flatten.length = n
  ends : ∀ data, fileData boundary body file.inner.multipartConsumed =
      some (data, ascii "\r\n--" ++ boundary ++ ascii "--\r\n") →
    ∃ items file', Drains (asking FileStream.pollNext) file items (.ok ()) file'
  most : ∀ polls : List Unit,
    (oks (run (fun _ => FileStream.pollNext) polls file)).flatten.length ≤ n

/-- The stream of a file, as it is taken from the parser in front of the data. -/
theorem exactLength_of_taken {boundary body taken : Bytes} {s : PartDataStream ε} {n : Nat}
    (hundone : s.done = false) (hlive : s.terminated = false)
    (hfinder : s.delimiterFinder = makeDelimiter boundary) (hb : s.buffer.Plain)
    (hbody : body = taken ++ s.buffer.view) (htaken : taken.length = s.multipartConsumed)
    (hlen : s.multipartConsumed + n + (boundary.length + 8) = body.length) :
    ExactLength boundary body (.fromOwned s.intoFinal (some n)) n := by
  have hcounts : FileStream.Counts n (.fromOwned s.intoFinal (some n)) := ⟨rfl, rfl, rfl⟩
  have hview : body.drop s.multipartConsumed = s.buffer.view := by
    rw [hbody, ← htaken, List.drop_left]
  have hdata : fileData boundary body s.multipartConsumed =
      (find (makeDelimiter boundary) s.buffer.view).map fun i =>
        (s.buffer.view.take i, s.buffer.view.drop i) := by
    rw [fileData, hview]
  obtain ⟨chunks, strict, fE, hstrict, hread, hclosed⟩ :=
    strict_drains (makeDelimiter_ne_nil boundary) hundone hlive hfinder hb
  refine ⟨fun items file' hitems => ?_, fun data htrailer => ?_, fun polls => ?_⟩
  · obtain ⟨hinner, hcount⟩ := FileStream.drains_inner hitems hcounts
    obtain ⟨rfl, rfl, -⟩ := hstrict.unique hinner
    obtain ⟨i, hfind, hchunks⟩ := hread rfl
    refine ⟨s.buffer.view.drop i, ?_, hcount⟩
    change fileData boundary body s.multipartConsumed = _
    rw [hdata, hfind, Option.map_some, hchunks]
  · change fileData boundary body s.multipartConsumed = _ at htrailer
    rw [hdata] at htrailer
    obtain ⟨i, hfind, heq⟩ := Option.map_eq_some_iff.mp htrailer
    obtain ⟨htake, hdrop⟩ := Prod.mk.inj heq
    have hafter : afterFirst (makeDelimiter boundary) s.buffer.view = some (ascii "--\r\n") := by
      rw [afterFirst, hfind, Option.map_some, ← List.drop_drop, hdrop, makeDelimiter, List.drop_left]
    have hclean : strict = .ok () := hclosed ⟨_, hafter, [], fun c hc => absurd hc List.not_mem_nil, rfl⟩
    subst hclean
    obtain ⟨j, hfind', hchunks⟩ := hread rfl
    obtain rfl := Option.some_inj.mp (hfind.symm.trans hfind')
    have hcount : chunks.flatten.length = n := by
      have htotal := congrArg List.length hbody
      have hsplit := congrArg List.length (List.take_append_drop i s.buffer.view)
      rw [List.length_append, hdrop, ← hchunks] at hsplit
      rw [List.length_append] at htotal
      simp only [List.length_append, show (ascii "\r\n--").length = 4 from rfl,
        show (ascii "--\r\n").length = 4 from rfl] at hsplit
      omega
    subst hcount
    obtain ⟨file', hfile⟩ := FileStream.drains_of_inner hstrict hcounts
    exact ⟨chunks, file', hfile⟩
  · have h := FileStream.counts_run (s := .fromOwned s.intoFinal (some n)) rfl rfl polls
    omega

/-- The first part of a form with one header: the calls of the parser up to its data. -/
def firstPart (H : Httparse) (fuel : Nat) (parser : Parser ε) :
    Option ((Except (FormData.Error ε) (Option Unit) × Parser ε) ×
      (Except (FormData.Error ε) (Option Header) × Parser ε) ×
      (Except (FormData.Error ε) (Option Header) × Parser ε)) := do
  let part ← FormData.Multipart.nextPart H fuel parser
  let header ← settle (FormData.Multipart.pollNextHeader H) fuel part.2
  let last ← settle (FormData.Multipart.pollNextHeader H) fuel header.2
  some (part, header, last)

def sampleHeader : Header := ⟨ascii "Content-Disposition", ascii "form-data; name=file"⟩

/-- `httparse` on the header block of a file. -/
def fileHttparse : Httparse where
  parseHeaders block _ :=
    if block = ascii "Content-Disposition: form-data; name=file\r\n\r\n" then
      .complete 45 [⟨.ofLength 0 19, .ofLength 21 20⟩]
    else .failed
  within := by
    intro block slots dataStart headers h
    split at h
    · next hblock =>
      cases h
      rw [hblock]
      decide
    · cases h

/-- A form with a file, which arrives in pieces. -/
def sampleForm : Script Empty :=
  [.ready (some (.ok (ascii "--b\r\nContent-Disposition: form-data; na"))), .pending,
    .ready (some (.ok (ascii "me=file\r\n\r\nhi\r\n--"))), .ready (some (.ok (ascii "b--\r\n")))]

def sampleLimits : MultipartLimits := ⟨64, 64, 1⟩

/-- The form with a file is transformed. -/
theorem sampleForm_transformed :
    ∃ form file, TransformMultipart fileHttparse sampleForm (ascii "b") sampleLimits
      (some (bodyOf sampleForm).length) (.ok form) ∧ form.file.stream = some file ∧
        file.contentLen = some 2 := by
  have hrun : (firstPart fileHttparse 8 (.new sampleForm Multipart.sampleBoundary 64)).any
      (fun run => decide (run.1.1 = .ok (some ())) && decide (run.2.1.1 = .ok (some sampleHeader)) &&
        decide (run.2.2.1 = .ok none) && decide (run.2.2.2.takeDataStream.1.toOption.map
          PartDataStream.multipartConsumed = some 50)) = true := by
    decide +kernel
  obtain ⟨⟨⟨part, parser₁⟩, ⟨header, parser₂⟩, ⟨last, parser₃⟩⟩, hcalls, heq⟩ :=
    (Option.any_eq_true _ _).mp hrun
  simp only [Bool.and_eq_true, decide_eq_true_eq] at heq
  obtain ⟨⟨⟨rfl, rfl⟩, rfl⟩, htaken⟩ := heq
  obtain ⟨_, hpart, hcalls⟩ := Option.bind_eq_some_iff.mp hcalls
  obtain ⟨_, hheader, hcalls⟩ := Option.bind_eq_some_iff.mp hcalls
  obtain ⟨_, hlast, hcalls⟩ := Option.bind_eq_some_iff.mp hcalls
  cases hcalls
  rcases htake : parser₃.takeDataStream with ⟨e | s, parser₄⟩ <;> rw [htake] at htaken
  · cases htaken
  · have hconsumed : s.multipartConsumed = 50 := Option.some_inj.mp htaken
    have hinfo : PartInfo.header (ε := Empty) ⟨none, none, none⟩ sampleHeader =
        .ok ⟨some (ascii "file"), none, none⟩ := by
      decide +kernel
    have hmade : Boundary.new (ε := Empty) (ascii "b") = .ok Multipart.sampleBoundary := rfl
    refine ⟨_, _, .read hmade
      (.file (Multipart.nextPart_sound hpart) (by decide)
        (.kept (settles_of_settle hheader) hinfo (.done (settles_of_settle hlast)))
        (.file rfl (by decide) htake)), rfl, ?_⟩
    change contentLength (ascii "b") (some (bodyOf sampleForm).length) s.multipartConsumed = some 2
    rw [hconsumed]
    decide

end S3s.Http
