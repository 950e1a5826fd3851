import S3s.AwsChunked.Chunks

/-! # Every byte is authenticated before delivery

Whatever is polled and whenever, the items a stream hands out are items of its
worker, in order; in signed mode these are the data of chunks whose signatures
form the chain.
-/
namespace S3s.AwsChunked
open Fragments SigV4 Polling AwsChunkedStream

variable {ε : Type}

theorem isError_endResult (s : AwsChunkedStream ε) :
    s.endResult.isError = decide (s.remainingLength ≠ 0) := by
  unfold endResult
  by_cases h : s.remainingLength = 0 <;> simp [h, Item.isError]

theorem ok?_endResult (s : AwsChunkedStream ε) : s.endResult.ok? = none := by
  unfold endResult
  split <;> rfl

/-- No poll hands out anything but the next item of the worker. -/
theorem run_oks_sublist (schedule : List Bool) (s : AwsChunkedStream ε) :
    (oks (run poll schedule s)).Sublist s.items := by
  induction schedule generalizing s with
  | nil => exact List.nil_sublist _
  | cons ready schedule ih =>
    rw [run, oks_cons]
    rcases poll_cases ready s with ⟨hp, -, -⟩ | ⟨item, items, hi, -, -, -, hp⟩ |
      ⟨item, items, hi, -, -, -, hp⟩ | ⟨e, hi, -, -, hp⟩ | ⟨t, hi, -, -, hp⟩ | ⟨-, hp⟩
    · rw [hp]
      exact ih s
    · rw [hp, hi]
      exact (ih { s with items, remainingLength := s.remainingLength - item.length }).cons_cons item
    · rw [hp, hi]
      exact (ih { s with items }).cons item
    · rw [hp]
      exact ih { s with outcome := none }
    · rw [hp]
      simp only [ok?_endResult, Option.toList_none, List.nil_append]
      exact ih { s with outcome := none, trailers := t }
    · rw [hp]
      simp only [ok?_endResult, Option.toList_none, List.nil_append]
      exact ih s

/-- Until the first error no item of the worker is left out. -/
theorem run_oks_untilError_prefix (schedule : List Bool) (s : AwsChunkedStream ε) :
    oks (untilError (run poll schedule s)) <+: s.items := by
  induction schedule generalizing s with
  | nil => exact List.nil_prefix
  | cons ready schedule ih =>
    rw [run]
    rcases poll_cases ready s with ⟨hp, -, -⟩ | ⟨item, items, hi, -, -, -, hp⟩ |
      ⟨item, items, hi, -, -, -, hp⟩ | ⟨e, hi, -, -, hp⟩ | ⟨t, hi, -, -, hp⟩ | ⟨-, hp⟩
    · rw [hp, untilError_cons_of_ok _ rfl]
      exact ih s
    · rw [hp, hi, untilError_cons_of_ok _ rfl]
      exact (List.prefix_cons_inj item).mpr
        (ih { s with items, remainingLength := s.remainingLength - item.length })
    · rw [hp, untilError_cons_of_error _ rfl]
      exact List.nil_prefix
    · rw [hp, untilError_cons_of_error _ rfl]
      exact List.nil_prefix
    · rw [hp]
      by_cases hend : s.remainingLength = 0
      · rw [untilError_cons_of_ok _ (by rw [isError_endResult, hend]; rfl), oks_cons, ok?_endResult]
        exact ih { s with outcome := none, trailers := t }
      · rw [untilError_cons_of_error _ (by rw [isError_endResult]; exact decide_eq_true hend)]
        exact List.nil_prefix
    · rw [hp]
      by_cases hend : s.remainingLength = 0
      · rw [untilError_cons_of_ok _ (by rw [isError_endResult, hend]; rfl), oks_cons, ok?_endResult]
        exact ih s
      · rw [untilError_cons_of_error _ (by rw [isError_endResult]; exact decide_eq_true hend)]
        exact List.nil_prefix

/-- In signed mode the worker's items are the data of a prefix of the body's chunks, along which
every signature is the next link of the chain. -/
theorem worker_items_chained (X : Externals) (args : StreamArgs) (hsigned : args.unsigned = false)
    (body : Body UInt8 ε) :
    ∃ cs, cs <+: bodyChunks X body.content ∧ Chained X (args.ctx X) cs ∧
      (new X args body).items.flatten = dataOf cs := by
  obtain ⟨cs, ctx', tail, hver, hdata, -⟩ :=
    decode_signed X args.mode hsigned (args.ctx X) (view [] body)
  refine ⟨cs, hver.isPrefix_bodyChunks, hver.chained, ?_⟩
  rw [← hdata]
  exact (worker_decode X args.mode (args.ctx X) [] body).1

/-- A signed stream hands out nothing but data whose chunk has been authenticated: before the
first error a prefix of it, and in the whole run never an item from elsewhere. -/
theorem signed_items_authentic (X : Externals) (args : StreamArgs) (hsigned : args.unsigned = false)
    (body : Body UInt8 ε) :
    ∃ cs items, cs <+: bodyChunks X body.content ∧ Chained X (args.ctx X) cs ∧
      items.flatten = dataOf cs ∧
      ∀ schedule : List Bool,
        (oks (untilError (run poll schedule (new X args body)))).flatten <+: dataOf cs ∧
          (oks (run poll schedule (new X args body))).Sublist items := by
  obtain ⟨cs, hprefix, hchained, hdata⟩ := worker_items_chained X args hsigned body
  refine ⟨cs, (new X args body).items, hprefix, hchained, hdata, fun schedule => ⟨?_, ?_⟩⟩
  · obtain ⟨t, ht⟩ := run_oks_untilError_prefix schedule (new X args body)
    rw [← hdata, ← ht, List.flatten_append]
    exact List.prefix_append _ _
  · exact run_oks_sublist schedule (new X args body)

/-- The body of the sample below: a chunk of three bytes in two fragments, and the last chunk. -/
def sampleSignedBody : Body UInt8 Unit :=
  [.ok (signedMeta (ascii "3") (List.replicate 64 48) ++ ascii "ab"),
    .ok (ascii "c" ++ crlf ++ signedMeta (ascii "0") (List.replicate 64 48))]

theorem signed_items_authentic_sample :
    ∃ cs items, cs <+: bodyChunks (reference constantCrypto) sampleSignedBody.content ∧
      Chained (reference constantCrypto)
        ((StreamArgs.sample 3 false).ctx (reference constantCrypto)) cs ∧
      items.flatten = dataOf cs ∧
      ∀ schedule : List Bool,
        (oks (untilError (run poll schedule
          (new (reference constantCrypto) (StreamArgs.sample 3 false) sampleSignedBody)))).flatten <+:
            dataOf cs ∧
          (oks (run poll schedule (new (reference constantCrypto) (StreamArgs.sample 3 false)
            sampleSignedBody))).Sublist items :=
  signed_items_authentic (reference constantCrypto) (StreamArgs.sample 3 false) rfl sampleSignedBody

end S3s.AwsChunked
