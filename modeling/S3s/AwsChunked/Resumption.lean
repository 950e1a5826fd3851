import S3s.AwsChunked.Authenticity

/-! # What follows an error

The worker's errors end its generator, the errors of the length account do not.
Whether a stream is silent after its first error is decided by where the
declared length falls among the items the generator holds.
-/
namespace S3s.AwsChunked
open Fragments SigV4 Polling AwsChunkedStream

variable {ε : Type} {s : AwsChunkedStream ε}

/-- No later poll yields an item. -/
def Silent (s : AwsChunkedStream ε) : Prop :=
  ∀ schedule : List Bool, ∀ r ∈ run poll schedule s, r.ok? = none

/-- A consumer that polls often enough sees the end. -/
def Ends (s : AwsChunkedStream ε) : Prop :=
  ∃ polls, ∀ schedule : List Bool, polls ≤ schedule.count true →
    .ready none ∈ run poll schedule s

/-- Once a poll has returned an error, the stream is silent and ends. -/
def NeverResumes (s : AwsChunkedStream ε) : Prop :=
  ∀ schedule : List Bool, (∃ r ∈ run poll schedule s, r.isError = true) →
    Silent (after poll schedule s) ∧ Ends (after poll schedule s)

/-- The items to come reach the remaining length exactly at the end of one of them, and none of
those behind it is empty. -/
def LengthAtItemEnd (s : AwsChunkedStream ε) : Prop :=
  ∃ before rest, s.items = before ++ rest ∧ before.flatten.length = s.remainingLength ∧ [] ∉ rest

/-- Nothing of the declared length is left, and no item to come would fit into nothing. -/
def Settled (s : AwsChunkedStream ε) : Prop := s.remainingLength = 0 ∧ [] ∉ s.items

theorem settled_poll (ready : Bool) (h : Settled s) :
    (poll ready s).1.ok? = none ∧ Settled (poll ready s).2 := by
  obtain ⟨hr, hitems⟩ := h
  rcases poll_cases ready s with ⟨hp, -, -⟩ | ⟨item, items, hi, -, hle, -, hp⟩ |
    ⟨item, items, hi, -, -, -, hp⟩ | ⟨e, hi, -, -, hp⟩ | ⟨t, hi, -, -, hp⟩ | ⟨-, hp⟩
  · rw [hp]
    exact ⟨rfl, hr, hitems⟩
  · rw [hr, Nat.le_zero, List.length_eq_zero_iff] at hle
    rw [hi, hle] at hitems
    exact (hitems List.mem_cons_self).elim
  · rw [hp]
    rw [hi] at hitems
    exact ⟨rfl, hr, fun h => hitems (List.mem_cons_of_mem _ h)⟩
  · rw [hp]
    exact ⟨rfl, hr, hitems⟩
  · rw [hp]
    exact ⟨ok?_endResult s, hr, hitems⟩
  · rw [hp]
    exact ⟨ok?_endResult s, hr, hitems⟩

theorem Settled.silent (h : Settled s) : Silent s := by
  intro schedule
  exact run_forall (P := Settled) (fun ready s hs => settled_poll ready hs) schedule s h

theorem endResult_of_zero (h : s.remainingLength = 0) : s.endResult = .ready none := by
  rw [endResult, if_neg (not_not.mpr h)]

theorem endResult_of_ne_zero (h : s.remainingLength ≠ 0) :
    s.endResult = .ready (some (.error .incomplete)) := by
  rw [endResult, if_pos h]

/-- One ready poll for each item, one for the outcome and one more reach the end. -/
theorem Settled.sees_end (schedule : List Bool) (s : AwsChunkedStream ε) (h : Settled s)
    (hcount : s.items.length + s.outcome.toList.length < schedule.count true) :
    .ready none ∈ run poll schedule s := by
  induction schedule generalizing s with
  | nil => simp at hcount
  | cons ready schedule ih =>
    have hnext := (settled_poll ready h).2
    rw [run]
    rcases poll_cases ready s with ⟨hp, rfl, -⟩ | ⟨item, items, hi, -, hle, -, hp⟩ |
      ⟨item, items, hi, ho, -, rfl, hp⟩ | ⟨e, hi, ho, rfl, hp⟩ | ⟨t, hi, -, -, hp⟩ | ⟨-, hp⟩
    · rw [hp] at hnext ⊢
      apply List.mem_cons_of_mem
      exact ih s hnext (by simpa using hcount)
    · rw [h.1, Nat.le_zero, List.length_eq_zero_iff] at hle
      have hmem := h.2
      rw [hi, hle] at hmem
      exact (hmem List.mem_cons_self).elim
    · rw [hp] at hnext ⊢
      apply List.mem_cons_of_mem
      apply ih _ hnext
      rw [hi, List.count_cons_self, List.length_cons] at hcount
      simp only
      omega
    · rw [hp] at hnext ⊢
      apply List.mem_cons_of_mem
      apply ih _ hnext
      rw [hi, ho, List.count_cons_self] at hcount
      simp only [hi, Option.toList_some, List.length_singleton, List.length_nil,
        Option.toList_none] at hcount ⊢
      omega
    · rw [hp, endResult_of_zero h.1]
      exact List.mem_cons_self
    · rw [hp, endResult_of_zero h.1]
      exact List.mem_cons_self

theorem Settled.ends (h : Settled s) : Ends s :=
  ⟨s.items.length + s.outcome.toList.length + 1, fun schedule hcount =>
    h.sees_end schedule s (by omega)⟩

/-- Where the length falls at the end of an item, an item that fits is one of those before it. -/
theorem LengthAtItemEnd.of_fit {item : Bytes} {items : List Bytes} (h : LengthAtItemEnd s)
    (hi : s.items = item :: items) (hle : item.length ≤ s.remainingLength) :
    LengthAtItemEnd { s with items, remainingLength := s.remainingLength - item.length } := by
  obtain ⟨before, rest, heq, hlen, hrest⟩ := h
  cases before with
  | nil =>
    have h0 : item = [] := by
      rw [← hlen] at hle
      simpa using hle
    rw [List.nil_append, hi, h0] at heq
    exact (hrest (heq ▸ List.mem_cons_self)).elim
  | cons b before =>
    rw [hi, List.cons_append, List.cons.injEq] at heq
    obtain ⟨rfl, rfl⟩ := heq
    refine ⟨before, rest, rfl, ?_, hrest⟩
    rw [← hlen, List.flatten_cons, List.length_append]
    simp

/-- An item that does not fit is the first one behind the length. -/
theorem LengthAtItemEnd.of_overrun {item : Bytes} {items : List Bytes} (h : LengthAtItemEnd s)
    (hi : s.items = item :: items) (hlt : s.remainingLength < item.length) :
    Settled { s with items } := by
  obtain ⟨before, rest, heq, hlen, hrest⟩ := h
  cases before with
  | nil =>
    rw [List.nil_append, hi] at heq
    exact ⟨hlen.symm, fun h => hrest (heq ▸ List.mem_cons_of_mem _ h)⟩
  | cons b before =>
    rw [hi, List.cons_append, List.cons.injEq] at heq
    rw [List.flatten_cons, List.length_append, ← heq.1] at hlen
    omega

theorem LengthAtItemEnd.of_items_nil (h : LengthAtItemEnd s) (hi : s.items = []) :
    Settled s := by
  obtain ⟨before, rest, heq, hlen, hrest⟩ := h
  rw [hi] at heq
  have hnil := List.nil_eq_append_iff.mp heq
  rw [hnil.1] at hlen
  exact ⟨hlen.symm, by rw [hi]; exact List.not_mem_nil⟩

/-- The step and run lemma of the first error: the length falls at the end of an item until then,
and the stream is settled afterwards. -/
theorem settled_after_error (schedule : List Bool) (s : AwsChunkedStream ε)
    (hended : s.outcome = none → s.items = []) (h : LengthAtItemEnd s)
    (herr : ∃ r ∈ run poll schedule s, r.isError = true) : Settled (after poll schedule s) := by
  have hkeep : ∀ (schedule : List Bool) (s : AwsChunkedStream ε), Settled s →
      Settled (after poll schedule s) :=
    after_invariant (P := Settled) fun ready s hs => (settled_poll ready hs).2
  induction schedule generalizing s with
  | nil =>
    obtain ⟨r, hr, -⟩ := herr
    exact (List.not_mem_nil hr).elim
  | cons ready schedule ih =>
    obtain ⟨r, hr, hbad⟩ := herr
    rw [run] at hr
    rw [after]
    rcases poll_cases ready s with ⟨hp, -, -⟩ | ⟨item, items, hi, ho, hle, -, hp⟩ |
      ⟨item, items, hi, -, hlt, -, hp⟩ | ⟨e, hi, -, -, hp⟩ | ⟨t, hi, -, -, hp⟩ | ⟨hno, hp⟩
    · rw [hp] at hr ⊢
      rcases List.mem_cons.mp hr with rfl | hr
      · cases hbad
      · exact ih s hended h ⟨r, hr, hbad⟩
    · rw [hp] at hr ⊢
      rcases List.mem_cons.mp hr with rfl | hr
      · cases hbad
      · exact ih _ (fun hno => (ho hno).elim) (h.of_fit hi hle) ⟨r, hr, hbad⟩
    · rw [hp]
      exact hkeep schedule _ (h.of_overrun hi hlt)
    · rw [hp]
      exact hkeep schedule _ (h.of_items_nil hi)
    · rw [hp]
      exact hkeep schedule _ (h.of_items_nil hi)
    · rw [hp]
      exact hkeep schedule _ (h.of_items_nil (hended hno))

/-- At the end of the generator with a part of the length missing, every poll is an error. -/
theorem Ends.remaining_eq_zero (h : Ends s) (hno : s.outcome = none) : s.remainingLength = 0 := by
  by_contra hr
  obtain ⟨polls, hpolls⟩ := h
  have hstep : ∀ (ready : Bool) (s : AwsChunkedStream ε), s.outcome = none ∧ s.remainingLength ≠ 0 →
      (poll ready s).1 ≠ .ready none ∧
        ((poll ready s).2.outcome = none ∧ (poll ready s).2.remainingLength ≠ 0) := by
    intro ready s hs
    rcases poll_cases ready s with ⟨-, -, ho⟩ | ⟨item, items, -, ho, -, -, -⟩ |
      ⟨item, items, -, ho, -, -, -⟩ | ⟨e, -, ho, -, -⟩ | ⟨t, -, ho, -, -⟩ | ⟨-, hp⟩
    · exact (ho hs.1).elim
    · exact (ho hs.1).elim
    · exact (ho hs.1).elim
    · rw [hs.1] at ho; cases ho
    · rw [hs.1] at ho; cases ho
    · rw [hp]
      simp only [endResult_of_ne_zero hs.2]
      exact ⟨by simp, hs⟩
  have hall := run_forall (Q := fun r : Item Bytes (AwsChunkedStreamError ε) => r ≠ .ready none)
    (P := fun s : AwsChunkedStream ε => s.outcome = none ∧ s.remainingLength ≠ 0) hstep
    (List.replicate polls true) s ⟨hno, hr⟩
  exact hall _ (hpolls _ (by rw [List.count_replicate_self])) rfl

theorem Ends.of_poll (ready : Bool) (h : Ends s) (hne : (poll ready s).1 ≠ .ready none) :
    Ends (poll ready s).2 := by
  obtain ⟨polls, hpolls⟩ := h
  refine ⟨polls, fun schedule hcount => ?_⟩
  have hmem := hpolls (ready :: schedule) (hcount.trans (List.count_le_count_cons))
  rw [run] at hmem
  rcases List.mem_cons.mp hmem with heq | hmem
  · exact (hne heq.symm).elim
  · exact hmem

theorem Silent.of_poll (ready : Bool) (h : Silent s) : Silent (poll ready s).2 := by
  intro schedule r hr
  exact h (ready :: schedule) r (List.mem_cons_of_mem _ hr)

theorem remaining_of_ends (hi : s.items = []) (ho : s.outcome ≠ none) (h : Ends s) :
    s.remainingLength = 0 := by
  by_contra hr
  rcases poll_cases true s with ⟨-, htrue, -⟩ | ⟨item, items, hi', -⟩ | ⟨item, items, hi', -⟩ |
    ⟨e, -, -, -, hp⟩ | ⟨t, -, -, -, hp⟩ | ⟨hno, -⟩
  · cases htrue
  · rw [hi] at hi'; cases hi'
  · rw [hi] at hi'; cases hi'
  · have hends := h.of_poll true (by rw [hp]; simp)
    rw [hp] at hends
    exact hr (hends.remaining_eq_zero rfl)
  · have hends := h.of_poll true (by rw [hp, endResult_of_ne_zero hr]; simp)
    rw [hp] at hends
    exact hr (hends.remaining_eq_zero rfl)
  · exact ho hno

/-- A stream that is silent and ends is settled. -/
theorem settled_of_silent (ho : s.outcome ≠ none) (hsilent : Silent s) (hends : Ends s) :
    Settled s := by
  induction hn : s.items generalizing s with
  | nil => exact ⟨remaining_of_ends hn ho hends, by rw [hn]; exact List.not_mem_nil⟩
  | cons item items ih =>
    rcases poll_cases true s with ⟨-, htrue, -⟩ | ⟨item', items', hi, -, -, -, hp⟩ |
      ⟨item', items', hi, -, hlt, -, hp⟩ | ⟨e, hi, -⟩ | ⟨t, hi, -⟩ | ⟨hno, -⟩
    · cases htrue
    · have hok := hsilent [true] _ List.mem_cons_self
      rw [hp] at hok
      cases hok
    · rw [hn, List.cons.injEq] at hi
      obtain ⟨rfl, rfl⟩ := hi
      have hs := hsilent.of_poll true
      have he := hends.of_poll true (by rw [hp]; simp)
      rw [hp] at hs he
      obtain ⟨hr, hmem⟩ := ih (s := { s with items }) ho hs he rfl
      refine ⟨hr, ?_⟩
      rw [hn, List.mem_cons, not_or]
      refine ⟨?_, hmem⟩
      rintro rfl
      simp at hlt
    · rw [hn] at hi; cases hi
    · rw [hn] at hi; cases hi
    · exact (ho hno).elim

theorem NeverResumes.of_poll (ready : Bool) (h : NeverResumes s) : NeverResumes (poll ready s).2 := by
  rintro schedule ⟨r, hr, hbad⟩
  exact h (ready :: schedule) ⟨r, List.mem_cons_of_mem _ hr, hbad⟩

/-- A poll that fails leaves a stream that is silent and ends. -/
theorem NeverResumes.of_error (ready : Bool) (h : NeverResumes s)
    (hbad : (poll ready s).1.isError = true) :
    Silent (poll ready s).2 ∧ Ends (poll ready s).2 :=
  h [ready] ⟨_, List.mem_cons_self, hbad⟩

theorem NeverResumes.lengthAtItemEnd (ho : s.outcome ≠ none) (h : NeverResumes s) :
    LengthAtItemEnd s := by
  induction hn : s.items generalizing s with
  | nil =>
    refine ⟨[], [], hn, ?_, List.not_mem_nil⟩
    by_contra hr
    have hne : s.remainingLength ≠ 0 := fun h => hr (by rw [h]; rfl)
    rcases poll_cases true s with ⟨-, htrue, -⟩ | ⟨item, items, hi, -⟩ | ⟨item, items, hi, -⟩ |
      ⟨e, -, -, -, hp⟩ | ⟨t, -, -, -, hp⟩ | ⟨hno, -⟩
    · cases htrue
    · rw [hn] at hi; cases hi
    · rw [hn] at hi; cases hi
    · have hends := (h.of_error true (by rw [hp]; rfl)).2
      rw [hp] at hends
      exact hne (hends.remaining_eq_zero rfl)
    · have hends := (h.of_error true (by rw [hp, endResult_of_ne_zero hne]; rfl)).2
      rw [hp] at hends
      exact hne (hends.remaining_eq_zero rfl)
    · exact ho hno
  | cons item items ih =>
    rcases poll_cases true s with ⟨-, htrue, -⟩ | ⟨item', items', hi, -, hle, -, hp⟩ |
      ⟨item', items', hi, -, hlt, -, hp⟩ | ⟨e, hi, -⟩ | ⟨t, hi, -⟩ | ⟨hno, -⟩
    · cases htrue
    · rw [hn, List.cons.injEq] at hi
      obtain ⟨rfl, rfl⟩ := hi
      have hnext := h.of_poll true
      rw [hp] at hnext
      obtain ⟨before, rest, heq, hlen, hrest⟩ := ih (s := { s with
        items, remainingLength := s.remainingLength - item.length }) ho hnext rfl
      refine ⟨item :: before, rest, ?_, ?_, hrest⟩
      · rw [hn, List.cons_append]
        exact congrArg _ heq
      · rw [List.flatten_cons, List.length_append, hlen]
        simp only
        omega
    · rw [hn, List.cons.injEq] at hi
      obtain ⟨rfl, rfl⟩ := hi
      obtain ⟨hs, he⟩ := h.of_error true (by rw [hp]; rfl)
      rw [hp] at hs he
      obtain ⟨hr, hmem⟩ := settled_of_silent (s := { s with items }) ho hs he
      refine ⟨[], item :: items, hn, hr.symm, ?_⟩
      rw [List.mem_cons, not_or]
      refine ⟨?_, hmem⟩
      rintro rfl
      simp at hlt
    · rw [hn] at hi; cases hi
    · rw [hn] at hi; cases hi
    · exact (ho hno).elim

/-- The sample body with a declared length of one byte: the first fragment overruns it, and the
second one is delivered all the same. -/
theorem sampleSignedBody_overrun :
    run poll [true, true, true]
      (new (reference constantCrypto) (StreamArgs.sample 1 false) sampleSignedBody) =
      [.ready (some (.error .lengthMismatch)), .ready (some (.ok (ascii "c"))), .ready none] := by
  have hworker : worker (reference constantCrypto) (StreamArgs.sample 1 false).mode
      ((StreamArgs.sample 1 false).ctx (reference constantCrypto)) [] sampleSignedBody =
      ⟨[ascii "ab", ascii "c"], .ok none⟩ := by
    rw [worker_next (by rfl), worker_stop (by rfl)]
    rfl
  unfold new
  rw [hworker]
  rfl

end S3s.AwsChunked
