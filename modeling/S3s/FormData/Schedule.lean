import S3s.FormData.Drivers
import S3s.FormData.Padding
import S3s.FormData.Splitting

/-! # When the transport is not ready

A caller that reads everything, once with the polls that are not ready and once
without them. Both see the same parts and the same outcome, unless the reading is
resumed right behind padding that follows a boundary, at a dash.
-/
namespace S3s.FormData
open Polling Search

variable {ε : Type}

namespace StreamBuffer

/-- A stream that carries bytes only, between two steps of the machine. -/
structure Idle (b : StreamBuffer ε) : Prop where
  plain : b.Plain
  inactive : b.readUntilActive = false

variable {b b' : StreamBuffer ε} {text : Bytes}

theorem Idle.resumable (hb : b.Idle) : b.Resumable := by
  intro hactive
  rw [hb.inactive] at hactive
  cases hactive

theorem Idle.left (hb : b.Idle) (h : Left b text b') : b'.Idle :=
  ⟨h.plain, h.active.trans hb.inactive⟩

theorem data_prompt {delimiter : Bytes} (hne : delimiter ≠ []) {r : Except (Error ε) DataChunk}
    (hb : b.Plain) (h : Settles (dataChunkLoop delimiter) b r b') :
    dataChunkLoop delimiter b.prompt = (.ready r, b'.prompt) := by
  refine prompt_of_settles (fun b hb => dataChunkLoop_skips delimiter b hb) (fun b hb => ?_) h hb
  exact (dataChunkLoop_yields hne b hb).mono (fun b' hw => hw.1.plain) fun _ _ _ => trivial

theorem header_prompt {max : Nat} {r : Except (Error ε) Nat} (hb : b.Idle)
    (h : Settles (pollReadHeaderBlock max) b r b') :
    pollReadHeaderBlock max b.prompt = (.ready r, b'.prompt) := by
  refine prompt_of_settles (P := fun b => b.Plain ∧ b.Resumable)
    (fun b hb => pollReadHeaderBlock_skips max hb.1 hb.2) (fun b hb => ?_) h ⟨hb.plain, hb.resumable⟩
  exact (pollReadHeaderBlock_yields max b hb.1 hb.2).mono
    (fun b' hw => ⟨hw.plain, hw.resumable⟩) fun _ _ _ => trivial

theorem readTo_prompt {needle : Bytes} (hne : needle ≠ []) {r : Except (Error ε) Unit}
    (hb : b.Plain) (h : Settles (pollReadTo needle) b r b') :
    pollReadTo needle b.prompt = (.ready r, b'.prompt) := by
  refine prompt_of_settles (fun b hb => pollReadTo_skips needle b hb) (fun b hb => ?_) h hb
  refine (pollReadTo_yields hne b hb).mono ?_ fun _ _ _ => trivial
  rintro b' ⟨text, hw, -⟩
  exact hw.1.plain

end StreamBuffer

namespace Multipart

variable {H : Httparse} {boundary : Boundary} {max : Nat} {b : StreamBuffer ε}

/-- The headers of a part, with the polls that are not ready and without them. -/
theorem headers_both (H : Httparse) (boundary : Boundary) (max : Nat) (hb : b.Idle) :
    ∃ headers r mp mp₀,
      Drains (pollNextHeader H) (machine boundary max .readingPartHeaders none true b) headers r mp ∧
      Drains (pollNextHeader H) (machine boundary max .readingPartHeaders none true b.prompt) headers r
        mp₀ ∧
      (r = .ok () → ∃ b', mp = machine boundary max .readingPartData none false b' ∧
        mp₀ = machine boundary max .readingPartData none false b'.prompt ∧ b'.Idle ∧
        b'.view.length ≤ b.view.length) := by
  obtain ⟨r, b₁, hsettles, hread⟩ := StreamBuffer.header_settles max hb.plain hb.resumable
  have hprompt : Settles (StreamBuffer.pollReadHeaderBlock max) b.prompt r b₁.prompt :=
    .ready (StreamBuffer.header_prompt hb hsettles)
  cases r with
  | error e =>
    exact ⟨[], _, _, _, .failed (settles_lift hsettles pollNextHeader_unread rfl),
      .failed (settles_lift hprompt pollNextHeader_unread rfl), nofun⟩
  | ok stop =>
    obtain ⟨-, hfound⟩ := hread
    cases hparse : parseHeaderBlock (ε := ε) H (b₁.buf.take stop) with
    | error e =>
      have hlast : ∀ b' : StreamBuffer ε, b'.buf = b₁.buf →
          (onReady (.ready (.ok stop), machine boundary max .readingPartHeaders none true b')
            fun stop mp => onReady (mp.parseBuffered H stop) fun _ mp =>
              (.ready mp.nextHeaderInner.1, mp.nextHeaderInner.2)) =
          (.ready (.error e), machine boundary max .readingPartHeaders none true b') := by
        intro b' hbuf
        rw [← hbuf] at hparse
        simp only [onReady_ok, parseBuffered, machine, hparse, onReady_error]
      exact ⟨[], _, _, _, .failed (settles_lift hsettles pollNextHeader_unread (hlast b₁ rfl)),
        .failed (settles_lift hprompt pollNextHeader_unread (hlast b₁.prompt rfl)), nofun⟩
    | ok block =>
      obtain ⟨mp, hdrains, hdata⟩ := headers_block boundary hsettles hparse
      obtain ⟨mp₀, hdrains₀, hdata₀⟩ := headers_block boundary hprompt hparse
      refine ⟨_, _, mp, mp₀, hdrains, hdrains₀, fun hok => ⟨_, hdata hok, hdata₀ hok, ?_, ?_⟩⟩
      · exact ⟨hfound.plain.congr rfl rfl, hfound.inactive⟩
      · rw [← hfound.view, StreamBuffer.view, StreamBuffer.view, List.length_append,
          List.length_append, List.length_drop]
        exact Nat.add_le_add_right (Nat.sub_le _ _) _

/-- The data of a part, with the polls that are not ready and without them. -/
theorem data_both (H : Httparse) (boundary : Boundary) (max : Nat) (b : StreamBuffer ε)
    (hb : b.Idle) :
    ∃ chunks r mp mp₀,
      Drains (pollNextData H) (machine boundary max .readingPartData none false b) chunks r mp ∧
      Drains (pollNextData H) (machine boundary max .readingPartData none false b.prompt) chunks r
        mp₀ ∧
      (r = .ok () → ∃ b', mp = machine boundary max .readingBoundary none false b' ∧
        mp₀ = machine boundary max .readingBoundary none false b'.prompt ∧ b'.Idle ∧
        b'.view.length ≤ b.view.length) := by
  induction hn : b.view.length using Nat.strongRecOn generalizing b with
  | ind n ih =>
    have hne := makeDelimiter_ne_nil boundary.bytes
    obtain ⟨r, b₁, hsettles, hread⟩ := StreamBuffer.data_settles hne hb.plain
    have hprompt : Settles (StreamBuffer.dataChunkLoop (makeDelimiter boundary.bytes)) b.prompt r
        b₁.prompt := .ready (StreamBuffer.data_prompt hne hb.plain hsettles)
    rcases r with e | (data | data)
    · exact ⟨[], _, _, _, .failed (settles_lift hsettles pollNextData_data rfl),
        .failed (settles_lift hprompt pollNextData_data rfl), nofun⟩
    · obtain ⟨i, hfind, hdata, hleft⟩ := hread
      have hlast : Settles (pollNextData H) (machine boundary max .readingPartData none false b)
          (.ok (if data.isEmpty then none else some data))
          (machine boundary max .readingBoundary none false b₁) :=
        settles_lift hsettles pollNextData_data rfl
      have hlast₀ : Settles (pollNextData H)
          (machine boundary max .readingPartData none false b.prompt)
          (.ok (if data.isEmpty then none else some data))
          (machine boundary max .readingBoundary none false b₁.prompt) :=
        settles_lift hprompt pollNextData_data rfl
      have hlen : b₁.view.length ≤ n := by
        rw [hleft.view, List.length_drop, ← hn]
        exact Nat.sub_le _ _
      have hdone : ∃ b', machine boundary max .readingBoundary none false b₁ =
            machine boundary max .readingBoundary none false b' ∧
          machine boundary max .readingBoundary none false b₁.prompt =
            machine boundary max .readingBoundary none false b'.prompt ∧ b'.Idle ∧
          b'.view.length ≤ n := ⟨b₁, rfl, rfl, hb.left hleft, hlen⟩
      by_cases hempty : data.isEmpty = true
      · rw [if_pos hempty] at hlast hlast₀
        exact ⟨[], .ok (), _, _, .done hlast, .done hlast₀, fun _ => hdone⟩
      · rw [if_neg hempty] at hlast hlast₀
        exact ⟨[data], .ok (), _, _, .item hlast (.done (.ready (pollNextData_boundary b₁))),
          .item hlast₀ (.done (.ready (pollNextData_boundary b₁.prompt))), fun _ => hdone⟩
    · obtain ⟨hdata, -, text, hview, hleft⟩ := hread
      obtain rfl := hleft.view
      have hpos : 0 < data.length := List.length_pos_of_ne_nil hdata
      have hless : b₁.view.length < n := by
        rw [← hn, hview, List.length_append]
        omega
      obtain ⟨chunks, r, mp, mp₀, hdrains, hdrains₀, hok⟩ := ih _ hless b₁ (hb.left hleft) rfl
      refine ⟨data :: chunks, r, mp, mp₀, .item (settles_lift hsettles pollNextData_data rfl) hdrains,
        .item (settles_lift hprompt pollNextData_data rfl) hdrains₀, fun hr => ?_⟩
      obtain ⟨b', hmp, hmp₀, hidle, hlen⟩ := hok hr
      exact ⟨b', hmp, hmp₀, hidle, hlen.trans hless.le⟩

/-- The buffers with which a caller that reads everything comes behind a boundary. -/
inductive AtBoundary (H : Httparse) : Multipart ε → StreamBuffer ε → Prop where
  | first {mp mp' : Multipart ε} {b : StreamBuffer ε} (state : mp.state = .findingFirstBoundary)
    (await : Settles (nextPartAwaits H) mp (.ok ()) mp') (buffer : mp'.buffer = some b) :
    AtBoundary H mp b
  | next {mp mp₁ mp₂ mp' : Multipart ε} {b : StreamBuffer ε} {headers : List Header}
    {chunks : List Bytes} (next : NextPart H mp (.ok (some ())) mp₁)
    (read : Drains (pollNextHeader H) mp₁ headers (.ok ()) mp₂)
    (data : Drains (pollNextData H) mp₂ chunks (.ok ()) mp') (buffer : mp'.buffer = some b) :
    AtBoundary H mp b
  | later {mp mp₁ mp₂ mp' : Multipart ε} {b : StreamBuffer ε} {headers : List Header}
    {chunks : List Bytes} (next : NextPart H mp (.ok (some ())) mp₁)
    (read : Drains (pollNextHeader H) mp₁ headers (.ok ()) mp₂)
    (data : Drains (pollNextData H) mp₂ chunks (.ok ()) mp') (rest : AtBoundary H mp' b) :
    AtBoundary H mp b

variable {mp mp' mp₁ mp₂ : Multipart ε} {b' : StreamBuffer ε}

/-- A boundary that a caller comes to is behind a part that it has read. -/
theorem AtBoundary.part (h : AtBoundary H mp b') (hstate : mp.state ≠ .findingFirstBoundary) :
    ∃ mp₁ mp₂ mp' headers chunks, NextPart H mp (.ok (some ())) mp₁ ∧
      Drains (pollNextHeader H) mp₁ headers (.ok ()) mp₂ ∧
      Drains (pollNextData H) mp₂ chunks (.ok ()) mp' ∧
      (mp'.buffer = some b' ∨ AtBoundary H mp' b') := by
  cases h with
  | first state await buffer => exact absurd state hstate
  | next next read data buffer => exact ⟨_, _, _, _, _, next, read, data, .inl buffer⟩
  | later next read data rest => exact ⟨_, _, _, _, _, next, read, data, .inr rest⟩

/-- Where no part is handed out, no further boundary is come to. -/
theorem not_atBoundary_of_end {r : Except (Error ε) (Option Unit)}
    (hstate : mp.state ≠ .findingFirstBoundary) (hr : r ≠ .ok (some ())) (h : NextPart H mp r mp') :
    ¬ AtBoundary H mp b' := by
  intro hat
  obtain ⟨mp₁, -, -, -, -, next, -⟩ := hat.part hstate
  exact hr (h.unique next).1

/-- Where the parts end, what is seen. -/
theorem readParts_of_end {r : Except (Error ε) Unit} (h : NextPart H mp (r.map fun _ => none) mp') :
    ReadParts H mp (.ends r) := by
  cases r with
  | error e => exact .failed h
  | ok u => exact .finished h

theorem map_ne_part (r : Except (Error ε) Unit) :
    (r.map fun _ => (none : Option Unit)) ≠ .ok (some ()) := by
  cases r <;> nofun

/-- What is seen with stray text: `next_part` goes on with it. -/
theorem nextPart_stray (H : Httparse) (boundary : Boundary) (max : Nat) {rest : Bytes} (hb : b.Plain)
    (hstray : b.stray = some rest) :
    ∃ mp', NextPart H (machine boundary max .readingBoundary none false b)
      ((StreamBuffer.endsWith rest).map fun _ => none) mp' := by
  have hdash := (StreamBuffer.stray_text hb hstray).1
  obtain ⟨r, b₁, hsettles, hcomputes⟩ := StreamBuffer.boundary_stray hb hstray
  unfold StreamBuffer.endsWith
  cases r with
  | error e =>
    have herror : boundaryNext rest = .error e := hcomputes
    rw [herror]
    exact ⟨_, .failed rfl (settles_lift hsettles (fun _ => rfl) rfl)⟩
  | ok state =>
    obtain ⟨text, hnext, hleft⟩ := hcomputes
    have hstate : state = .readingClosingDelimiter := by
      rw [boundaryNext] at hnext
      split at hnext
      · cases hnext
      · split at hnext
        · cases hnext
        · split at hnext
          · cases hnext
            rfl
          · cases hnext
    subst hstate
    obtain ⟨mp', hclosing⟩ := nextPart_closing H boundary max hleft.plain
    rw [hleft.view] at hclosing
    have hawait : Settles (nextPartAwaits H) (machine boundary max .readingBoundary none false b)
        (.ok ()) (machine boundary max .readingClosingDelimiter none false b₁) :=
      settles_lift hsettles (fun _ => rfl) rfl
    rw [hnext]
    exact ⟨mp', .again rfl hawait hclosing⟩

theorem pendings_prompt (b : StreamBuffer ε) : b.prompt.pendings = 0 := by
  refine List.countP_eq_zero.mpr fun a ha => ?_
  unfold StreamBuffer.prompt at ha
  cases hstream : b.stream with
  | none => simp [hstream] at ha
  | some script =>
    simp only [hstream, Option.map_some, Option.getD_some, List.mem_filter] at ha
    simpa using ha.2

/-- Nothing is misread where the reading ends without stray text. -/
theorem agree_of_end {t : Transcript ε} (hnone : b.stray = none)
    (hend : ∀ b', ¬ AtBoundary H mp b') :
    t = t ↔ ∀ b', b' = b ∨ AtBoundary H mp b' → ¬ b'.Misread := by
  refine ⟨fun _ b' h => ?_, fun _ => rfl⟩
  rcases h with rfl | hat
  · rintro ⟨rest, hstray, -⟩
    cases hnone.symm.trans hstray
  · exact absurd hat (hend b')

/-- The part behind a boundary has been handed out, with the polls that are not ready and without
them: the two callers see the same unless something is misread further on. -/
theorem reads_part_both {mp mp₀ : Multipart ε} {b b₁ : StreamBuffer ε}
    (hstate : mp.state ≠ .findingFirstBoundary) (hnone : b.stray = none) (hb : b₁.Idle)
    (next : NextPart H mp (.ok (some ())) (machine boundary max .readingPartHeaders none true b₁))
    (next₀ : NextPart H mp₀ (.ok (some ()))
      (machine boundary max .readingPartHeaders none true b₁.prompt))
    (later : ∀ b₂ : StreamBuffer ε, b₂.Idle → b₂.view.length ≤ b₁.view.length →
      ∃ t t₀, ReadParts H (machine boundary max .readingBoundary none false b₂) t ∧
        ReadParts H (machine boundary max .readingBoundary none false b₂.prompt) t₀ ∧
        (t = t₀ ↔ ∀ b', b' = b₂ ∨
          AtBoundary H (machine boundary max .readingBoundary none false b₂) b' → ¬ b'.Misread)) :
    ∃ t t₀, ReadParts H mp t ∧ ReadParts H mp₀ t₀ ∧
      (t = t₀ ↔ ∀ b', b' = b ∨ AtBoundary H mp b' → ¬ b'.Misread) := by
  obtain ⟨headers, r, mp₂, mp₂', read, read₀, hdata⟩ := headers_both H boundary max hb
  cases r with
  | error e =>
    refine ⟨_, _, .badHeaders next read, .badHeaders next₀ read₀, agree_of_end hnone fun b' hat => ?_⟩
    obtain ⟨_, _, _, _, _, next', read', -⟩ := hat.part hstate
    obtain ⟨-, rfl⟩ := next.unique next'
    cases (read.unique read').2.1
  | ok u =>
    obtain ⟨b₂, rfl, rfl, hb₂, hlen₂⟩ := hdata rfl
    obtain ⟨chunks, r, mp₃, mp₃', data, data₀, hnext⟩ := data_both H boundary max b₂ hb₂
    cases r with
    | error e =>
      refine ⟨_, _, .badData next read data, .badData next₀ read₀ data₀,
        agree_of_end hnone fun b' hat => ?_⟩
      obtain ⟨_, _, _, _, _, next', read', data', -⟩ := hat.part hstate
      obtain ⟨-, rfl⟩ := next.unique next'
      obtain ⟨-, -, rfl⟩ := read.unique read'
      cases (data.unique data').2.1
    | ok u =>
      obtain ⟨b₃, rfl, rfl, hb₃, hlen₃⟩ := hnext rfl
      obtain ⟨t, t₀, hreads, hreads₀, hagree⟩ := later b₃ hb₃ (hlen₃.trans hlen₂)
      refine ⟨_, _, .part next read data hreads, .part next₀ read₀ data₀ hreads₀, ?_⟩
      have hcons : t.cons ⟨headers, chunks.flatten⟩ = t₀.cons ⟨headers, chunks.flatten⟩ ↔ t = t₀ := by
        refine ⟨fun h => ?_, fun h => by rw [h]⟩
        unfold Transcript.cons at h
        obtain ⟨hparts, hopen, houtcome⟩ := Transcript.mk.inj h
        obtain ⟨parts, openPart, outcome⟩ := t
        obtain ⟨parts₀, openPart₀, outcome₀⟩ := t₀
        cases hparts
        cases hopen
        cases houtcome
        rfl
      rw [hcons, hagree]
      refine ⟨fun h b' hb' => ?_, fun h b' hb' => h b' (.inr ?_)⟩
      · rcases hb' with rfl | hat
        · rintro ⟨rest, hstray, -⟩
          cases hnone.symm.trans hstray
        · obtain ⟨_, _, _, _, _, next', read', data', hat'⟩ := hat.part hstate
          obtain ⟨-, rfl⟩ := next.unique next'
          obtain ⟨-, -, rfl⟩ := read.unique read'
          obtain ⟨-, -, rfl⟩ := data.unique data'
          refine h b' (hat'.imp_left fun hbuffer => ?_)
          exact (Option.some.inj hbuffer).symm
      · rcases hb' with rfl | hat
        · exact .next next read data rfl
        · exact .later next read data hat

/-- Behind a boundary two callers see the same, with the polls that are not ready and without them,
exactly when nothing is misread. -/
theorem reads_both (H : Httparse) (boundary : Boundary) (max : Nat) (b : StreamBuffer ε)
    (hb : b.Idle) :
    ∃ t t₀, ReadParts H (machine boundary max .readingBoundary none false b) t ∧
      ReadParts H (machine boundary max .readingBoundary none false b.prompt) t₀ ∧
      (t = t₀ ↔ ∀ b', b' = b ∨
        AtBoundary H (machine boundary max .readingBoundary none false b) b' → ¬ b'.Misread) := by
  induction hn : b.view.length using Nat.strongRecOn generalizing b with
  | ind n ih =>
    have hplain₀ := StreamBuffer.plain_prompt hb.plain
    have hstate : (machine boundary max .readingBoundary none false b).state ≠
        .findingFirstBoundary := nofun
    cases hstray : b.stray with
    | some rest =>
      obtain ⟨mp', hnext⟩ := nextPart_stray H boundary max hb.plain hstray
      have hwrong := StreamBuffer.boundaryNext_stray hb.plain hstray
      rw [← StreamBuffer.view_prompt] at hwrong
      obtain ⟨mp₀', hnext₀⟩ :=
        nextPart_boundary_error H boundary max hplain₀ (pendings_prompt b) hwrong
      refine ⟨_, _, readParts_of_end hnext, .failed hnext₀, ?_⟩
      have hoff : ∀ b', ¬ AtBoundary H (machine boundary max .readingBoundary none false b) b' :=
        fun b' => not_atBoundary_of_end hstate (map_ne_part _) hnext
      refine ⟨fun h b' hb' => ?_, fun h => ?_⟩
      · rcases hb' with rfl | hat
        · rintro ⟨rest', hrest', hne⟩
          cases hstray.symm.trans hrest'
          exact hne (congrArg Transcript.outcome h)
        · exact absurd hat (hoff b')
      · by_contra hne
        refine h b (.inl rfl) ⟨rest, hstray, fun hends => hne ?_⟩
        rw [hends]
    | none =>
      obtain ⟨r, b₁, hsettles, hready, hleft⟩ := StreamBuffer.boundary_prompt hb.plain hstray
      have hprompt : Settles StreamBuffer.advanceAfterBoundary b.prompt r b₁.prompt := .ready hready
      cases r with
      | error e =>
        have hnext : NextPart H (machine boundary max .readingBoundary none false b) (.error e) _ :=
          .failed rfl (settles_lift hsettles (fun _ => rfl) rfl)
        have hnext₀ : NextPart H (machine boundary max .readingBoundary none false b.prompt)
            (.error e) _ := .failed rfl (settles_lift hprompt (fun _ => rfl) rfl)
        exact ⟨_, _, .failed hnext, .failed hnext₀,
          agree_of_end hstray fun b' => not_atBoundary_of_end (r := .error e) hstate nofun hnext⟩
      | ok state =>
        have hidle := hb.left (hleft state rfl)
        have hawait : Settles (nextPartAwaits H) (machine boundary max .readingBoundary none false b)
            (.ok ()) (machine boundary max state none false b₁) :=
          settles_lift hsettles (fun _ => rfl) rfl
        have hawait₀ : Settles (nextPartAwaits H)
            (machine boundary max .readingBoundary none false b.prompt) (.ok ())
            (machine boundary max state none false b₁.prompt) :=
          settles_lift hprompt (fun _ => rfl) rfl
        have hless : b₁.view.length < n := by
          have hyields := StreamBuffer.advanceAfterBoundary_yields b.prompt hplain₀
          rw [hready] at hyields
          obtain ⟨text, htext, hview⟩ := hyields
          have hlen := boundaryNext_length htext
          rw [← hview.view, StreamBuffer.view_prompt, StreamBuffer.view_prompt, hn] at hlen
          exact hlen
        rcases StreamBuffer.advanceAfterBoundary_state hready with rfl | rfl
        · obtain ⟨mp', hclosing⟩ := nextPart_closing H boundary max hidle.plain
          obtain ⟨mp₀', hclosing₀⟩ :=
            nextPart_closing H boundary max (StreamBuffer.plain_prompt hidle.plain)
          rw [StreamBuffer.view_prompt] at hclosing₀
          have hnext := NextPart.again rfl hawait hclosing
          exact ⟨_, _, readParts_of_end hnext, readParts_of_end (.again rfl hawait₀ hclosing₀),
            agree_of_end hstray fun b' => not_atBoundary_of_end hstate (map_ne_part _) hnext⟩
        · refine reads_part_both hstate hstray hidle (.again rfl hawait (.returns rfl))
            (.again rfl hawait₀ (.returns rfl)) fun b₂ hb₂ hlen => ?_
          exact ih _ (hlen.trans_lt hless) b₂ hb₂ rfl

theorem prompt_new {script : Script ε} {chunks : List Bytes}
    (h : (script.filter fun a => !StreamBuffer.isPending a) = ofChunks chunks) :
    (StreamBuffer.new script).prompt = StreamBuffer.new (ofChunks chunks) := by
  rw [← h]
  rfl

/-- Chunks with bytes in them, and polls that are not ready between them. -/
theorem idle_new {script : Script ε} {chunks : List Bytes} (hne : ∀ c ∈ chunks, c ≠ [])
    (h : (script.filter fun a => !StreamBuffer.isPending a) = ofChunks chunks) :
    (StreamBuffer.new script).Idle := by
  refine ⟨⟨⟨script, rfl⟩, fun a ha => ?_, nofun⟩, rfl⟩
  by_cases hpending : StreamBuffer.isPending a = true
  · rcases a with _ | r
    · trivial
    · cases hpending
  · have hmem : a ∈ ofChunks chunks := by
      rw [← h]
      exact List.mem_filter.mpr ⟨ha, by simpa using hpending⟩
    obtain ⟨c, hc, rfl⟩ := List.mem_map.mp hmem
    exact hne c hc

/-- A body in chunks that are not empty, with polls that are not ready put in between in any way.
`poll_next_part` and `next_part` agree; a caller comes to an end with these polls and without them;
and it sees the same parts and the same outcome exactly when at no boundary it comes to the reading
is resumed at a dash behind padding and goes on to another end there. -/
theorem pending_matters_behind_padding_only (H : Httparse) (boundary : Boundary) (max : Nat)
    (chunks : List Bytes) (script : Script ε) (hne : ∀ c ∈ chunks, c ≠ [])
    (hscript : (script.filter fun a => !StreamBuffer.isPending a) = ofChunks chunks) :
    (∀ (mp mp' : Multipart ε) r, Settles (pollNextPart H) mp r mp' ↔ NextPart H mp r mp') ∧
      (∃ t : Transcript ε, ReadParts H (new script boundary max) t) ∧
      (∃ t₀ : Transcript ε, ReadParts H (new (ofChunks chunks) boundary max) t₀) ∧
      ∀ t t₀ : Transcript ε, ReadParts H (new script boundary max) t →
        ReadParts H (new (ofChunks chunks) boundary max) t₀ →
          (t = t₀ ↔ ∀ b, AtBoundary H (new script boundary max) b → ¬ b.Misread) := by
  have hidle := idle_new hne hscript
  have hboth : ∃ t t₀ : Transcript ε, ReadParts H (new script boundary max) t ∧
      ReadParts H (new (ofChunks chunks) boundary max) t₀ ∧
      (t = t₀ ↔ ∀ b, AtBoundary H (new script boundary max) b → ¬ b.Misread) := by
    have hneedle : makeFirstBoundary boundary.bytes ≠ [] := List.cons_ne_nil _ _
    obtain ⟨r, b₁, hsettles, hread⟩ := StreamBuffer.readTo_settles hneedle hidle.plain
    have hprompt : Settles (StreamBuffer.pollReadTo (makeFirstBoundary boundary.bytes))
        (StreamBuffer.new (ofChunks chunks)) r b₁.prompt := by
      rw [← prompt_new hscript]
      exact .ready (StreamBuffer.readTo_prompt hneedle hidle.plain hsettles)
    cases r with
    | error e =>
      have hfirst : Settles (nextPartAwaits H) (new script boundary max) (.error e) _ :=
        settles_lift hsettles (fun _ => rfl) rfl
      have hnext : NextPart H (new script boundary max) (.error e) _ := .failed rfl hfirst
      refine ⟨_, _, .failed hnext, .failed (.failed rfl (settles_lift hprompt (fun _ => rfl) rfl)),
        fun _ b hat => ?_, fun _ => rfl⟩
      cases hat with
      | first state await buffer => cases (hfirst.unique await).1
      | next next read data buffer => cases (hnext.unique next).1
      | later next read data rest => cases (hnext.unique next).1
    | ok u =>
      obtain ⟨text, -, hleft⟩ := hread
      have hfirst : Settles (nextPartAwaits H) (new script boundary max) (.ok ())
          (machine boundary max .readingBoundary none false b₁) :=
        settles_lift hsettles (fun _ => rfl) rfl
      have hfirst₀ : Settles (nextPartAwaits H) (new (ofChunks chunks) boundary max) (.ok ())
          (machine boundary max .readingBoundary none false b₁.prompt) :=
        settles_lift hprompt (fun _ => rfl) rfl
      have hskip : ∀ {r : Except (Error ε) (Option Unit)} {mp' : Multipart ε},
          NextPart H (new script boundary max) r mp' →
            NextPart H (machine boundary max .readingBoundary none false b₁) r mp' := by
        intro r mp' hnext
        cases hnext with
        | returns arm => cases arm
        | failed arm await => cases (Settles.unique hfirst await).1
        | again arm await rest =>
          obtain ⟨-, rfl⟩ := Settles.unique hfirst await
          exact rest
      obtain ⟨t, t₀, hreads, hreads₀, hagree⟩ := reads_both H boundary max b₁ (hidle.left hleft)
      refine ⟨t, t₀, hreads.again rfl hfirst, hreads₀.again rfl hfirst₀, ?_⟩
      rw [hagree]
      refine ⟨fun h b hat => h b ?_, fun h b hb => h b ?_⟩
      · cases hat with
        | first state await buffer =>
          obtain ⟨-, rfl⟩ := hfirst.unique await
          exact .inl (Option.some.inj buffer).symm
        | next next read data buffer => exact .inr (.next (hskip next) read data buffer)
        | later next read data rest => exact .inr (.later (hskip next) read data rest)
      · rcases hb with rfl | hat
        · exact .first rfl hfirst rfl
        · obtain ⟨_, _, _, _, _, next, read, data, hat'⟩ := hat.part nofun
          have next' : NextPart H (new script boundary max) (.ok (some ())) _ :=
            .again rfl hfirst next
          rcases hat' with buffer | rest
          · exact .next next' read data buffer
          · exact .later next' read data rest
  obtain ⟨u, u₀, hreads, hreads₀, hagree⟩ := hboth
  refine ⟨fun mp mp' r => settles_pollNextPart_iff, ⟨u, hreads⟩, ⟨u₀, hreads₀⟩,
    fun t t₀ h h₀ => ?_⟩
  obtain rfl := h.unique hreads
  obtain rfl := h₀.unique hreads₀
  exact hagree

/-- A boundary with padding behind it, and then what would be the closing mark without it. -/
def paddedChunks : List Bytes := [ascii "--b ", ascii "--\r\n"]

/-- The same chunks, with a poll between them that is not ready. -/
def paddedScript : Script Empty :=
  [.ready (some (.ok (ascii "--b "))), .pending, .ready (some (.ok (ascii "--\r\n")))]

theorem pending_matters_behind_padding_only_sample :
    (∃ t : Transcript Empty, ReadParts sampleHttparse (new paddedScript sampleBoundary 16) t) ∧
      ∀ t t₀ : Transcript Empty, ReadParts sampleHttparse (new paddedScript sampleBoundary 16) t →
        ReadParts sampleHttparse (new (ofChunks paddedChunks) sampleBoundary 16) t₀ →
          (t = t₀ ↔ ∀ b, AtBoundary sampleHttparse (new paddedScript sampleBoundary 16) b →
            ¬ b.Misread) := by
  have h := pending_matters_behind_padding_only sampleHttparse sampleBoundary 16 paddedChunks
    paddedScript (by decide) rfl
  exact ⟨h.2.1, h.2.2.2⟩

/-- Only because the stream is not ready at one point, a body that is malformed is read to its end
without an error. -/
theorem pending_changes_outcome :
    (∀ c ∈ paddedChunks, c ≠ []) ∧
      (paddedScript.filter fun a => !StreamBuffer.isPending a) = ofChunks paddedChunks ∧
      ∃ t t₀ : Transcript Empty,
        ReadParts sampleHttparse (new paddedScript sampleBoundary 16) t ∧
          ReadParts sampleHttparse (new (ofChunks paddedChunks) sampleBoundary 16) t₀ ∧
            t.outcome = .ok () ∧ t₀.outcome = .error .invalidFormat := by
  have h : (readParts sampleHttparse 8 (new paddedScript sampleBoundary 16)).map
      Transcript.outcome = some (.ok ()) := by
    decide +kernel
  have h₀ : (readParts (ε := Empty) sampleHttparse 8
      (new (ofChunks paddedChunks) sampleBoundary 16)).map Transcript.outcome =
        some (.error .invalidFormat) := by
    decide +kernel
  obtain ⟨t, hread, houtcome⟩ := Option.map_eq_some_iff.mp h
  obtain ⟨t₀, hread₀, houtcome₀⟩ := Option.map_eq_some_iff.mp h₀
  exact ⟨by decide, rfl, t, t₀, readParts_sound hread, readParts_sound hread₀, houtcome, houtcome₀⟩

end Multipart
end S3s.FormData
