import S3s.AwsChunked.Chunks

/-! # What a clean end of a signed stream proves

A consumer sees a clean end when the worker stops without an error and the
declared length has been delivered. The worker stops behind the terminal chunk
and its trailers, but also where the body ends instead of a metadata line.
-/
namespace S3s.AwsChunked
open Fragments SigV4 AwsChunkedStream

variable {ε : Type}

namespace AwsChunkedStream

theorem judge_eq_clean {data d : Bytes} {outcome : Except (ErrorKind ε) (Option HeaderMap)}
    {declared : Nat} {t : Option HeaderMap} :
    judge data outcome declared = .clean d t ↔
      outcome = .ok t ∧ d = data ∧ data.length = declared := by
  unfold judge
  by_cases hlong : declared < data.length
  · rw [if_pos hlong]
    constructor
    · intro h; cases h
    · rintro ⟨-, -, h⟩; omega
  · rw [if_neg hlong]
    cases outcome with
    | error k => simp
    | ok trailers =>
      by_cases hshort : data.length < declared
      · simp only [if_pos hshort]
        constructor
        · intro h; cases h
        · rintro ⟨-, -, h⟩; omega
      · have hlen : data.length = declared := by omega
        simp only [if_neg hshort, Verdict.clean.injEq, Except.ok.injEq]
        constructor
        · rintro ⟨rfl, rfl⟩; exact ⟨rfl, rfl, hlen⟩
        · rintro ⟨rfl, rfl, -⟩; exact ⟨rfl, rfl⟩

/-- Some consumer sees a clean end. -/
def EndsClean (X : Externals) (args : StreamArgs) (body : Body UInt8 ε) : Prop :=
  ∃ schedule data trailers, consume (new X args body) schedule = some (.clean data trailers)

/-- A clean end is one of the decoder, at the declared length. -/
theorem endsClean_iff (X : Externals) (args : StreamArgs) (body : Body UInt8 ε) :
    EndsClean X args body ↔
      (∃ t, (decode X args.mode (args.ctx X) (view [] body)).outcome = .ok t) ∧
        (decode X args.mode (args.ctx X) (view [] body)).data.length = args.decodedContentLength := by
  constructor
  · rintro ⟨schedule, data, trailers, h⟩
    have hjudge := judge_eq_clean.mp (consume_new X args body schedule _ h).symm
    exact ⟨⟨trailers, hjudge.1⟩, hjudge.2.2⟩
  · rintro ⟨⟨t, houtcome⟩, hlen⟩
    have hv := consume_new_of_count X args body
      (List.replicate ((new X args body).items.length + 1) true)
      (by rw [List.count_replicate_self]; omega)
    rw [judge_eq_clean.mpr ⟨houtcome, rfl, hlen⟩] at hv
    exact ⟨_, _, _, hv⟩

end AwsChunkedStream

section Signed

variable (X : Externals) (args : StreamArgs) (body : Body UInt8 ε)

/-- The body holds a zero-size chunk behind chunks that are verified, and its signature is the
chain value of the empty data after theirs. -/
def HasTerminalChunk : Prop :=
  ∃ cs ctx tail c rest, Verified X args.maxChunkSize (args.ctx X) body.content cs ctx tail ∧
    Accepted X args.maxChunkSize ctx tail c rest ∧ c.data = []

/-- Behind the terminal chunk stands a block of trailers that carries the signature of its
canonical form, the next link after that of the terminal chunk. -/
def HasSignedTrailers : Prop :=
  ∃ cs ctx tail c rest, Verified X args.maxChunkSize (args.ctx X) body.content cs ctx tail ∧
    Accepted X args.maxChunkSize ctx tail c rest ∧ c.data = [] ∧
    ∃ canonical provided entries,
      parseTrailingHeaders rest =
        (.ok (canonical, some provided, entries) : Except (AwsChunkedStreamError ε) _) ∧
      provided = ((ctx.advance X.toCrypto []).trailerSignature X.toCrypto canonical).hex

/-- Where the next chunk would start, the body ends within the space of a metadata line, and the
chunks before carry the declared length. -/
def Truncated : Prop :=
  ∃ cs ctx tail, Verified X args.maxChunkSize (args.ctx X) body.content cs ctx tail ∧
    lf ∉ tail ∧ tail.length ≤ maxChunkMetaSize ∧ body.fault = none ∧
    (dataOf cs).length = args.decodedContentLength

/-- Behind the terminal chunk there is nothing, or an empty line. -/
def Stripped : Prop :=
  ∃ cs ctx tail c rest, Verified X args.maxChunkSize (args.ctx X) body.content cs ctx tail ∧
    Accepted X args.maxChunkSize ctx tail c rest ∧ c.data = [] ∧
    (rest = [] ∨ rest = crlf) ∧ body.fault = none ∧
    (dataOf cs).length = args.decodedContentLength

variable {X args body}

theorem nextChunk_of_no_lf {tail : Bytes} (h : lf ∉ tail) : nextChunk X tail = none := by
  rw [nextChunk, List.idxOf?_eq_none_iff.mpr h]

/-- The chunk behind the verified ones is determined by the body. -/
theorem Verified.terminal_unique {maxChunkSize : Nat} {ctx ctx₁ ctx₂ : SignatureCtx}
    {content tail₁ tail₂ rest : Bytes} {cs₁ cs₂ : List Chunk} {c : Chunk}
    (h₁ : Verified X maxChunkSize ctx content cs₁ ctx₁ tail₁)
    (h₂ : Verified X maxChunkSize ctx content cs₂ ctx₂ tail₂)
    (hc : Accepted X maxChunkSize ctx₂ tail₂ c rest) (hempty : c.data = [])
    (hend : ∀ c' rest', nextChunk X tail₁ = some (c', rest') → c'.data = []) :
    ctx₁ = ctx₂ ∧ tail₁ = tail₂ := by
  rcases h₁.comparable h₂ with ⟨cs, hmore⟩ | ⟨cs, hmore⟩
  · cases hmore with
    | nil => exact ⟨rfl, rfl⟩
    | cons accepted nonempty more => exact (nonempty (hend _ _ accepted.next)).elim
  · cases hmore with
    | nil => exact ⟨rfl, rfl⟩
    | cons accepted nonempty more =>
      have heq := accepted.next.symm.trans hc.next
      simp only [Option.some.injEq, Prod.mk.injEq] at heq
      exact (nonempty (heq.1 ▸ hempty)).elim

theorem Truncated.not_hasTerminalChunk (h : Truncated X args body) :
    ¬ HasTerminalChunk X args body := by
  rintro ⟨cs₂, ctx₂, tail₂, c, rest, hver₂, hacc, hempty⟩
  obtain ⟨cs, ctx, tail, hver, hlf, -, -, -⟩ := h
  have hnone : nextChunk X tail = none := nextChunk_of_no_lf hlf
  have huniq := hver.terminal_unique hver₂ hacc hempty fun c' rest' h => by
    rw [hnone] at h; cases h
  have hnext := hacc.next
  rw [← huniq.2, hnone] at hnext
  cases hnext

theorem Truncated.endsClean (h : Truncated X args body) :
    EndsClean X args body := by
  obtain ⟨cs, ctx, tail, hver, hlf, hlen, hfault, htotal⟩ := h
  have hdecode : decode X args.mode (args.ctx X) (view [] body) = ⟨dataOf cs, .ok none⟩ := by
    have hview : view [] body = ⟨body.content, body.fault⟩ := rfl
    rw [hview, decode_verified args.mode body.fault hver,
      decode_stop (flatStep_eof hlf hlen hfault), List.append_nil]
  rw [endsClean_iff, hdecode]
  exact ⟨⟨none, rfl⟩, htotal⟩

/-- A clean end comes from the terminal chunk or from a truncated body. -/
theorem endsClean_cases (hsigned : args.unsigned = false) (h : EndsClean X args body) :
    Truncated X args body ∨
      ∃ cs ctx tail c rest t, Verified X args.maxChunkSize (args.ctx X) body.content cs ctx tail ∧
        Accepted X args.maxChunkSize ctx tail c rest ∧ c.data = [] ∧
        (dataOf cs).length = args.decodedContentLength ∧
        flatTrailers X ⟨rest, body.fault⟩ (ctx.advance X.toCrypto []) false = .ok t := by
  obtain ⟨⟨t, houtcome⟩, hlen⟩ := (endsClean_iff X args body).mp h
  obtain ⟨cs, ctx, tail, hver, hdata, hend⟩ :=
    decode_signed X args.mode hsigned (args.ctx X) (view [] body)
  rw [hdata] at hlen
  rw [houtcome] at hend
  generalize hout : (Except.ok t : Except (ErrorKind ε) (Option HeaderMap)) = out at hend
  cases hend with
  | eof nolf short complete => exact .inl ⟨cs, ctx, tail, hver, nolf, short, complete, hlen⟩
  | terminal accepted empty =>
    exact .inr ⟨cs, ctx, tail, _, _, t, hver, accepted, empty, hlen, hout.symm⟩
  | failed k => cases hout

/-- A signed stream that ends cleanly has checked the terminal chunk, unless the body is cut
where a metadata line would start or within one. -/
theorem clean_end_terminal_iff (X : Externals) (args : StreamArgs) (hsigned : args.unsigned = false)
    (body : Body UInt8 ε) :
    (EndsClean X args body → HasTerminalChunk X args body) ↔ ¬ Truncated X args body := by
  constructor
  · intro h htrunc
    exact htrunc.not_hasTerminalChunk (h htrunc.endsClean)
  · intro h hclean
    rcases endsClean_cases hsigned hclean with
      htrunc | ⟨cs, ctx, tail, c, rest, t, hver, hacc, hempty, -, -⟩
    · exact (h htrunc).elim
    · exact ⟨cs, ctx, tail, c, rest, hver, hacc, hempty⟩

/-- What a trailer block that is accepted in signed mode holds. -/
theorem flatTrailers_signed {v : View UInt8 ε} {ctx : SignatureCtx} {t : Option HeaderMap}
    (h : flatTrailers X v ctx false = .ok t) :
    v.content = [] ∨ v.content = crlf ∨
      ∃ canonical provided entries,
        parseTrailingHeaders v.content =
          (.ok (canonical, some provided, entries) : Except (AwsChunkedStreamError ε) _) ∧
        provided = (ctx.trailerSignature X.toCrypto canonical).hex := by
  unfold flatTrailers at h
  split at h
  · cases h
  · unfold View.exhausted at h
    split at h
    · split at h
      · next hnone =>
        rw [Bool.or_eq_true, List.isEmpty_iff, beq_iff_eq] at hnone
        rcases hnone with hnil | hcrlf
        · exact .inl hnil
        · exact .inr (.inl hcrlf)
      · refine .inr (.inr ?_)
        unfold verifyTrailers at h
        split at h
        · cases h
        · next heq =>
          split at heq
          · cases heq
          · next canonical provided entries hparse =>
            rw [Sha256Sum.fromUtf8_bind_fromHex] at heq
            split at heq
            · cases heq
            · next expected hhex =>
              split at heq
              · cases heq
              · next hsig =>
                refine ⟨canonical, provided, entries, hparse, ?_⟩
                rw [not_not] at hsig
                rw [← hsig]
                exact Sha256Sum.fromHex_eq_some.mp hhex
          · next entries hparse => cases heq
    · cases h

theorem flatTrailers_stripped {v : View UInt8 ε} {ctx : SignatureCtx} {unsigned : Bool}
    (hcontent : v.content = [] ∨ v.content = crlf) (hfault : v.fault = none) :
    flatTrailers X v ctx unsigned = .ok none := by
  unfold flatTrailers View.exhausted
  rw [hfault]
  rcases hcontent with h | h
  · rw [h]; rfl
  · rw [h]; rfl

theorem parseTrailingHeaders_stripped {rest : Bytes} (h : rest = [] ∨ rest = crlf) :
    parseTrailingHeaders rest = (.ok ([], none, []) : Except (AwsChunkedStreamError ε) _) := by
  rcases h with rfl | rfl
  · rfl
  · rfl

theorem Stripped.endsClean (h : Stripped X args body) :
    EndsClean X args body := by
  obtain ⟨cs, ctx, tail, c, rest, hver, hacc, hempty, hrest, hfault, htotal⟩ := h
  have hstep := flatStep_accepted args.mode (v := ⟨tail, body.fault⟩) hacc
  have hstop : flatStep X args.mode ctx (⟨tail, body.fault⟩ : View UInt8 ε) =
      ([], .stop (.ok none)) := by
    rw [hstep, hempty, flatAfter, if_pos List.length_nil,
      flatTrailers_stripped (v := ⟨rest, body.fault⟩) hrest hfault]
  have hdecode : decode X args.mode (args.ctx X) (view [] body) = ⟨dataOf cs, .ok none⟩ := by
    have hview : view [] body = ⟨body.content, body.fault⟩ := rfl
    rw [hview, decode_verified args.mode body.fault hver, decode_stop hstop,
      List.append_nil]
  rw [endsClean_iff, hdecode]
  exact ⟨⟨none, rfl⟩, htotal⟩

theorem HasSignedTrailers.hasTerminalChunk (h : HasSignedTrailers X args body) :
    HasTerminalChunk X args body := by
  obtain ⟨cs, ctx, tail, c, rest, hver, hacc, hempty, -⟩ := h
  exact ⟨cs, ctx, tail, c, rest, hver, hacc, hempty⟩

theorem Stripped.not_hasSignedTrailers (h : Stripped X args body) :
    ¬ HasSignedTrailers X args body := by
  rintro ⟨cs₂, ctx₂, tail₂, c₂, rest₂, hver₂, hacc₂, hempty₂, canonical, provided, entries, hparse, -⟩
  obtain ⟨cs, ctx, tail, c, rest, hver, hacc, hempty, hrest, -, -⟩ := h
  have huniq := hver.terminal_unique hver₂ hacc₂ hempty₂ fun c' rest' h => by
    rw [hacc.next] at h
    cases h
    exact hempty
  have hnext := hacc₂.next
  rw [← huniq.2, hacc.next] at hnext
  cases hnext
  rw [parseTrailingHeaders_stripped hrest] at hparse
  cases hparse

/-- A signed stream that ends cleanly has checked a trailer signature, unless the body is cut
before the terminal chunk or nothing but a line end follows it. -/
theorem endsClean_trailers_iff (X : Externals) (args : StreamArgs) (hsigned : args.unsigned = false)
    (body : Body UInt8 ε) :
    (EndsClean X args body → HasSignedTrailers X args body) ↔
      ¬ Truncated X args body ∧ ¬ Stripped X args body := by
  constructor
  · intro h
    refine ⟨fun htrunc => ?_, fun hstrip => ?_⟩
    · exact htrunc.not_hasTerminalChunk (h htrunc.endsClean).hasTerminalChunk
    · exact hstrip.not_hasSignedTrailers (h hstrip.endsClean)
  · rintro ⟨htrunc, hstrip⟩ hclean
    rcases endsClean_cases hsigned hclean with
      h | ⟨cs, ctx, tail, c, rest, t, hver, hacc, hempty, htotal, htrailers⟩
    · exact (htrunc h).elim
    · have hfault : body.fault = none := by
        unfold flatTrailers View.exhausted at htrailers
        split at htrailers
        · cases htrailers
        · split at htrailers
          · assumption
          · cases htrailers
      rcases flatTrailers_signed htrailers with hnil | hcrlf | hsig
      · exact (hstrip ⟨cs, ctx, tail, c, rest, hver, hacc, hempty, .inl hnil, hfault, htotal⟩).elim
      · exact (hstrip ⟨cs, ctx, tail, c, rest, hver, hacc, hempty, .inr hcrlf, hfault, htotal⟩).elim
      · exact ⟨cs, ctx, tail, c, rest, hver, hacc, hempty, hsig⟩

end Signed

/-- One signed chunk of three bytes, and no terminal chunk. -/
def truncatedBody : Body UInt8 Unit :=
  [.ok (signedMeta (ascii "3") (List.replicate 64 48) ++ ascii "abc" ++ crlf)]

theorem truncatedBody_truncated :
    Truncated (reference constantCrypto) (StreamArgs.sample 3 false) truncatedBody := by
  have hacc : Accepted (reference constantCrypto) (StreamArgs.sample 3 false).maxChunkSize
      ((StreamArgs.sample 3 false).ctx (reference constantCrypto)) truncatedBody.content
      ⟨some (List.replicate 64 48), ascii "abc"⟩ [] := by
    refine ⟨by decide, ⟨83, by decide, by decide⟩, by decide, ?_⟩
    rfl
  exact ⟨_, _, [], .cons hacc (by decide) (.nil _ _), by decide, by decide, rfl, by decide⟩

/-- The cut body ends cleanly although it has no terminal chunk. -/
theorem truncatedBody_ends_clean :
    ¬ (EndsClean (reference constantCrypto) (StreamArgs.sample 3 false) truncatedBody →
      HasTerminalChunk (reference constantCrypto) (StreamArgs.sample 3 false) truncatedBody) := by
  intro h
  have hclean := truncatedBody_truncated.endsClean
  exact truncatedBody_truncated.not_hasTerminalChunk (h hclean)

theorem clean_end_terminal_iff_sample :
    (EndsClean (reference constantCrypto) (StreamArgs.sample 3 false) truncatedBody →
      HasTerminalChunk (reference constantCrypto) (StreamArgs.sample 3 false) truncatedBody) ↔
      ¬ Truncated (reference constantCrypto) (StreamArgs.sample 3 false) truncatedBody :=
  clean_end_terminal_iff (reference constantCrypto) (StreamArgs.sample 3 false) rfl truncatedBody

end S3s.AwsChunked
