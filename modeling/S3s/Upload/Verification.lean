import S3s.Upload.Stream

/-! # What an upload stream has verified

The bytes accepted from the inner stream are a function of the answers it has
given so far. An invariant over whole runs ties them to the hasher, to the
counter and to what has been handed out.
-/
namespace S3s.Upload
open Polling UploadStream

variable {ε : Type}

/-- The bytes taken from a script so far, and whether more are taken. -/
structure Intake where
  accepted : Bytes
  isOpen : Bool
deriving DecidableEq

/-- One more answer: bytes are taken while their total length fits, and nothing is taken after an
error, after the end or after a fragment that does not fit. -/
def Intake.take (fits : Nat → Bool) (t : Intake) (r : Item Bytes ε) : Intake :=
  if t.isOpen = false then t else
  match r with
  | .pending => t
  | .ready none => ⟨t.accepted, false⟩
  | .ready (some (.error _)) => ⟨t.accepted, false⟩
  | .ready (some (.ok bytes)) =>
    if fits (t.accepted.length + bytes.length) then ⟨t.accepted ++ bytes, true⟩
    else ⟨t.accepted, false⟩

def intake (fits : Nat → Bool) (script : Script ε) : Intake :=
  script.foldl (Intake.take fits) ⟨[], true⟩

/-- The bytes a stream of declared length `n` accepts from the answers `used`. -/
def acceptedBytes (n : Nat) (used : Script ε) : Bytes :=
  (intake (fun k => decide (k ≤ n)) used).accepted

/-- The payload of an inner stream: all its fragments up to its end or its first error. -/
def payload (script : Script ε) : Bytes := (intake (fun _ => true) script).accepted

theorem intake_append (fits : Nat → Bool) (used rest : Script ε) :
    intake fits (used ++ rest) = rest.foldl (Intake.take fits) (intake fits used) := by
  rw [intake, intake, List.foldl_append]

/-- A closed intake stays as it is. -/
theorem foldl_take_closed (fits : Nat → Bool) (rest : Script ε) (acc : Bytes) :
    rest.foldl (Intake.take fits) ⟨acc, false⟩ = ⟨acc, false⟩ := by
  induction rest with
  | nil => rfl
  | cons r rest ih => exact ih

theorem foldl_take_empty (fits : Nat → Bool) (skipped : Script ε) (acc : Bytes)
    (hskipped : ∀ r ∈ skipped, r = .ready (some (.ok []))) (hfits : fits acc.length = true) :
    skipped.foldl (Intake.take fits) ⟨acc, true⟩ = ⟨acc, true⟩ := by
  induction skipped with
  | nil => rfl
  | cons r skipped ih =>
    have htake : Intake.take fits ⟨acc, true⟩ r = ⟨acc, true⟩ := by
      rw [hskipped r List.mem_cons_self]
      simp [Intake.take, hfits]
    rw [List.foldl_cons, htake]
    exact ih fun r hr => hskipped r (List.mem_cons_of_mem _ hr)

/-- The answers before `inner` have all been taken, and they carried `acc`. -/
def Read (n : Nat) (script inner : Script ε) (acc : Bytes) : Prop :=
  ∃ used, script = used ++ inner ∧ intake (fun k => decide (k ≤ n)) used = ⟨acc, true⟩ ∧
    intake (fun _ => true) used = ⟨acc, true⟩

/-- Of the answers before `inner`, the bytes `acc` have been accepted. -/
def Accounted (n : Nat) (script inner : Script ε) (acc : Bytes) : Prop :=
  ∃ used, script = used ++ inner ∧ acceptedBytes n used = acc

namespace Read

variable {n : Nat} {script inner rest : Script ε} {acc : Bytes}

theorem accounted (h : Read n script inner acc) : Accounted n script inner acc := by
  obtain ⟨used, hused, hlimited, -⟩ := h
  exact ⟨used, hused, by rw [acceptedBytes, hlimited]⟩

theorem skip (h : Read n script inner acc) (hlen : acc.length ≤ n) :
    Read n script (skipEmpty inner) acc := by
  obtain ⟨used, hused, hlimited, hall⟩ := h
  obtain ⟨skipped, hskip, hempty⟩ := skipEmpty_eq inner
  refine ⟨used ++ skipped, by rw [List.append_assoc, ← hskip, hused], ?_, ?_⟩
  · rw [intake_append, hlimited]
    exact foldl_take_empty _ skipped acc hempty (decide_eq_true hlen)
  · rw [intake_append, hall]
    exact foldl_take_empty _ skipped acc hempty rfl

theorem pending (h : Read n script (.pending :: rest) acc) : Read n script rest acc := by
  obtain ⟨used, hused, hlimited, hall⟩ := h
  refine ⟨used ++ [.pending], by rw [hused, List.append_assoc, List.singleton_append], ?_, ?_⟩
  · rw [intake_append, hlimited]; rfl
  · rw [intake_append, hall]; rfl

theorem ok {bytes : Bytes} (h : Read n script (.ready (some (.ok bytes)) :: rest) acc)
    (hle : acc.length + bytes.length ≤ n) : Read n script rest (acc ++ bytes) := by
  obtain ⟨used, hused, hlimited, hall⟩ := h
  refine ⟨used ++ [.ready (some (.ok bytes))],
    by rw [hused, List.append_assoc, List.singleton_append], ?_, ?_⟩
  · rw [intake_append, hlimited]
    simp [Intake.take, hle]
  · rw [intake_append, hall]
    simp [Intake.take]

/-- An error, the end or a fragment that does not fit closes the account. -/
theorem close {r : Item Bytes ε} (h : Read n script (r :: rest) acc)
    (hclose : Intake.take (fun k => decide (k ≤ n)) ⟨acc, true⟩ r = ⟨acc, false⟩) :
    Accounted n script rest acc := by
  obtain ⟨used, hused, hlimited, -⟩ := h
  refine ⟨used ++ [r], by rw [hused, List.append_assoc, List.singleton_append], ?_⟩
  rw [acceptedBytes, intake_append, hlimited, List.foldl_cons, List.foldl_nil, hclose]

theorem overrun {bytes : Bytes} (h : Read n script (.ready (some (.ok bytes)) :: rest) acc)
    (hlt : n < acc.length + bytes.length) : Accounted n script rest acc := by
  apply h.close
  simp [Intake.take, hlt]

theorem payload_of_nil (h : Read n script [] acc) : payload script = acc := by
  obtain ⟨used, hused, -, hall⟩ := h
  rw [hused, List.append_nil, payload, hall]

theorem payload_of_end (h : Read n script (.ready none :: rest) acc) : payload script = acc := by
  obtain ⟨used, hused, -, hall⟩ := h
  have hclose : Intake.take (fun _ => true) ⟨acc, true⟩ (.ready none : Item Bytes ε) =
      ⟨acc, false⟩ := rfl
  rw [hused, payload, intake_append, hall, List.foldl_cons, hclose, foldl_take_closed]

end Read

/-- No result so far is an error or the end. -/
def Quiet (rs : List (Item Bytes (UploadStreamError ε))) : Prop :=
  (∀ r ∈ rs, r.isError = false) ∧ .ready none ∉ rs

/-- The run so far, seen from the results `rs` and the stream `s` it has left. -/
structure Invariant (C : Crypto) (n : Nat) (d : Sha256Sum) (script : Script ε)
    (rs : List (Item Bytes (UploadStreamError ε))) (s : UploadStream ε) : Prop where
  expected : s.expectedSha256 = d
  account : ∃ acc, Accounted n script s.inner acc ∧ s.remainingLength + acc.length = n
  completed : 0 < n → (oks rs).flatten.length = n → C.sha256 (oks rs).flatten = d
  reading : s.state = .reading → Quiet rs ∧ Read n script s.inner (oks rs).flatten ∧
    s.hasher = some (oks rs).flatten ∧ s.remainingLength + (oks rs).flatten.length = n ∧
    (s.remainingLength = 0 → n = 0)
  awaiting : s.state = .awaitingEof → Quiet rs ∧ Read n script s.inner (oks rs).flatten ∧
    s.remainingLength = 0 ∧ (oks rs).flatten.length = n ∧ C.sha256 (oks rs).flatten = d
  finished : s.state = .finished → (∀ r ∈ rs, r.isError = false) ∧ (oks rs).flatten.length = n ∧
    C.sha256 (oks rs).flatten = d ∧ (oks rs).flatten = payload script
  failed : s.state = .failed → ∃ r ∈ rs, r.isError = true

section Steps

variable {C : Crypto} {n : Nat} {d : Sha256Sum} {script : Script ε}
  {rs : List (Item Bytes (UploadStreamError ε))} {s : UploadStream ε}

theorem Quiet.snoc {r : Item Bytes (UploadStreamError ε)} (h : Quiet rs) (herr : r.isError = false)
    (hend : r ≠ .ready none) : Quiet (rs ++ [r]) := by
  constructor
  · intro r' hr'
    rcases List.mem_append.mp hr' with hr' | hr'
    · exact h.1 r' hr'
    · rw [List.mem_singleton.mp hr']
      exact herr
  · intro hmem
    rcases List.mem_append.mp hmem with hmem | hmem
    · exact h.2 hmem
    · exact hend (List.mem_singleton.mp hmem).symm

theorem oks_snoc_of_none {r : Item Bytes (UploadStreamError ε)} (h : r.ok? = none) :
    oks (rs ++ [r]) = oks rs := by
  rw [oks_append_singleton, h, Option.toList_none, List.append_nil]

theorem flatten_oks_snoc (rs : List (Item Bytes (UploadStreamError ε))) (bytes : Bytes) :
    (oks (rs ++ [.ready (some (.ok bytes))])).flatten = (oks rs).flatten ++ bytes := by
  rw [oks_append_singleton, List.flatten_append]
  simp [Item.ok?]

/-- A poll that fails leaves the account as it is. -/
theorem Invariant.of_error {e : UploadStreamError ε} (hstate : s.state = .failed)
    (hexpected : s.expectedSha256 = d)
    (haccount : ∃ acc, Accounted n script s.inner acc ∧ s.remainingLength + acc.length = n)
    (hcompleted : 0 < n → (oks rs).flatten.length = n → C.sha256 (oks rs).flatten = d) :
    Invariant C n d script (rs ++ [.ready (some (.error e))]) s where
  expected := hexpected
  account := haccount
  completed := by rwa [oks_snoc_of_none rfl]
  reading h := by rw [hstate] at h; cases h
  awaiting h := by rw [hstate] at h; cases h
  finished h := by rw [hstate] at h; cases h
  failed _ := ⟨_, List.mem_append_right _ (List.mem_singleton_self _), rfl⟩

theorem Invariant.of_end (hstate : s.state = .finished) (hexpected : s.expectedSha256 = d)
    (haccount : ∃ acc, Accounted n script s.inner acc ∧ s.remainingLength + acc.length = n)
    (herr : ∀ r ∈ rs, r.isError = false) (hlen : (oks rs).flatten.length = n)
    (hsha : C.sha256 (oks rs).flatten = d) (hpayload : (oks rs).flatten = payload script) :
    Invariant C n d script (rs ++ [.ready none]) s where
  expected := hexpected
  account := haccount
  completed _ _ := by rwa [oks_snoc_of_none rfl]
  reading h := by rw [hstate] at h; cases h
  awaiting h := by rw [hstate] at h; cases h
  finished _ := by
    rw [oks_snoc_of_none rfl]
    refine ⟨?_, hlen, hsha, hpayload⟩
    intro r hr
    rcases List.mem_append.mp hr with hr | hr
    · exact herr r hr
    · rw [List.mem_singleton.mp hr]
      rfl
  failed h := by rw [hstate] at h; cases h

/-- The step in the state `AwaitingEof`, at the first answer that is not an empty fragment. -/
theorem invariant_awaitStep (inner : Script ε) (hstate : s.state = .awaitingEof)
    (hexpected : s.expectedSha256 = d) (hquiet : Quiet rs)
    (hread : Read n script inner (oks rs).flatten) (hzero : s.remainingLength = 0)
    (hlen : (oks rs).flatten.length = n) (hsha : C.sha256 (oks rs).flatten = d)
    (hne : ∀ bytes rest, inner = .ready (some (.ok bytes)) :: rest → bytes ≠ []) :
    Invariant C n d script (rs ++ [(awaitStep s inner).1]) (awaitStep s inner).2 := by
  have htotal : s.remainingLength + (oks rs).flatten.length = n := by omega
  rcases inner with _ | ⟨_ | (_ | (err | bytes)), rest⟩
  · exact .of_end rfl hexpected ⟨_, hread.accounted, htotal⟩ hquiet.1 hlen hsha
      hread.payload_of_nil.symm
  · refine ⟨hexpected, ⟨_, hread.pending.accounted, htotal⟩, fun _ _ => ?_, fun h => ?_, fun _ => ?_,
      fun h => ?_, fun h => ?_⟩
    · rwa [oks_snoc_of_none rfl]
    · cases hstate.symm.trans h
    · rw [oks_snoc_of_none rfl]
      exact ⟨hquiet.snoc rfl (by simp [awaitStep]), hread.pending, hzero, hlen, hsha⟩
    · cases hstate.symm.trans h
    · cases hstate.symm.trans h
  · exact .of_end rfl hexpected ⟨_, hread.close rfl, htotal⟩ hquiet.1 hlen hsha
      hread.payload_of_end.symm
  · exact .of_error rfl hexpected ⟨_, hread.close rfl, htotal⟩ fun _ _ => hsha
  · have hpos := List.length_pos_of_ne_nil (hne bytes rest rfl)
    exact .of_error rfl hexpected ⟨_, hread.overrun (by omega), htotal⟩ fun _ _ => hsha

/-- A fragment that does not complete the payload. -/
theorem invariant_receive_more {bytes : Bytes} {rest : Script ε} (hstate : s.state = .reading)
    (hexpected : s.expectedSha256 = d) (hquiet : Quiet rs)
    (hread : Read n script (.ready (some (.ok bytes)) :: rest) (oks rs).flatten)
    (htotal : s.remainingLength + (oks rs).flatten.length = n)
    (hlt : bytes.length < s.remainingLength) :
    Invariant C n d script (rs ++ [.ready (some (.ok bytes))])
      { s with
        inner := rest
        hasher := some ((oks rs).flatten ++ bytes)
        remainingLength := s.remainingLength - bytes.length } := by
  have hoks := flatten_oks_snoc rs bytes
  have hnext : Read n script rest ((oks rs).flatten ++ bytes) := hread.ok (by omega)
  have hsum : s.remainingLength - bytes.length + ((oks rs).flatten ++ bytes).length = n := by
    rw [List.length_append]; omega
  refine ⟨hexpected, ⟨_, hnext.accounted, hsum⟩, fun _ hfull => ?_, fun _ => ?_, fun h => ?_,
    fun h => ?_, fun h => ?_⟩
  · rw [hoks] at hfull
    omega
  · rw [hoks]
    exact ⟨hquiet.snoc rfl (by simp), hnext, rfl, hsum, fun h => by simp only at h; omega⟩
  · cases hstate.symm.trans h
  · cases hstate.symm.trans h
  · cases hstate.symm.trans h

/-- The fragment that completes the payload, when the digest is the expected one. -/
theorem invariant_receive_last {bytes : Bytes} {rest : Script ε} (hexpected : s.expectedSha256 = d)
    (hquiet : Quiet rs) (hread : Read n script (.ready (some (.ok bytes)) :: rest) (oks rs).flatten)
    (htotal : s.remainingLength + (oks rs).flatten.length = n)
    (heq : s.remainingLength = bytes.length) (hsha : C.sha256 ((oks rs).flatten ++ bytes) = d) :
    Invariant C n d script (rs ++ [.ready (some (.ok bytes))])
      { s with inner := rest, hasher := none, remainingLength := 0, state := .awaitingEof } := by
  have hoks := flatten_oks_snoc rs bytes
  have hnext : Read n script rest ((oks rs).flatten ++ bytes) := hread.ok (by omega)
  have hlen : ((oks rs).flatten ++ bytes).length = n := by rw [List.length_append]; omega
  refine ⟨hexpected, ⟨_, hnext.accounted, by simp only; omega⟩, fun _ _ => ?_, fun h => ?_,
    fun _ => ?_, fun h => ?_, fun h => ?_⟩
  · rw [hoks]
    exact hsha
  · cases h
  · rw [hoks]
    exact ⟨hquiet.snoc rfl (by simp), hnext, rfl, hlen, hsha⟩
  · cases h
  · cases h

/-- The step in the state `Reading` with bytes still to come. -/
theorem invariant_readStep (inner : Script ε) (hstate : s.state = .reading)
    (hexpected : s.expectedSha256 = d) (hquiet : Quiet rs)
    (hread : Read n script inner (oks rs).flatten) (hhasher : s.hasher = some (oks rs).flatten)
    (htotal : s.remainingLength + (oks rs).flatten.length = n) (hpos : s.remainingLength ≠ 0)
    (hne : ∀ bytes rest, inner = .ready (some (.ok bytes)) :: rest → bytes ≠ []) :
    Invariant C n d script (rs ++ [(readStep C s inner).1]) (readStep C s inner).2 := by
  have hpart : 0 < n → (oks rs).flatten.length = n → C.sha256 (oks rs).flatten = d := by
    intro _ hfull; omega
  rcases inner with _ | ⟨_ | (_ | (err | bytes)), rest⟩
  · exact .of_error rfl hexpected ⟨_, hread.accounted, htotal⟩ hpart
  · refine ⟨hexpected, ⟨_, hread.pending.accounted, htotal⟩, ?_, fun _ => ?_, fun h => ?_,
      fun h => ?_, fun h => ?_⟩
    · rwa [oks_snoc_of_none rfl]
    · rw [oks_snoc_of_none rfl]
      exact ⟨hquiet.snoc rfl (by simp [readStep]), hread.pending, hhasher, htotal, fun h => (hpos h).elim⟩
    · cases hstate.symm.trans h
    · cases hstate.symm.trans h
    · cases hstate.symm.trans h
  · exact .of_error rfl hexpected ⟨_, hread.close rfl, htotal⟩ hpart
  · exact .of_error rfl hexpected ⟨_, hread.close rfl, htotal⟩ hpart
  · rw [readStep]
    by_cases hle : bytes.length ≤ s.remainingLength
    · have hreceive := receive_fits C { s with inner := rest } bytes hhasher hle
      simp only at hreceive
      rw [hreceive]
      by_cases heq : s.remainingLength = bytes.length
      · rw [if_neg (not_not.mpr heq)]
        by_cases hsha : C.sha256 ((oks rs).flatten ++ bytes) = s.expectedSha256
        · rw [if_pos hsha]
          exact invariant_receive_last hexpected hquiet hread htotal heq (hsha.trans hexpected)
        · rw [if_neg hsha]
          refine .of_error rfl hexpected ⟨_, (hread.ok (by omega)).accounted, ?_⟩ hpart
          rw [List.length_append]
          simp only
          omega
      · rw [if_pos heq]
        exact invariant_receive_more hstate hexpected hquiet hread htotal (by omega)
    · have hover : s.remainingLength < bytes.length := by omega
      rw [receive, if_pos hover]
      exact .of_error rfl hexpected ⟨_, hread.overrun (by omega), htotal⟩ hpart

/-- Every poll keeps the invariant. -/
theorem invariant_pollNext (h : Invariant C n d script rs s) :
    Invariant C n d script (rs ++ [(pollNext C s).1]) (pollNext C s).2 := by
  unfold pollNext
  have hne : ∀ bytes rest, skipEmpty s.inner = .ready (some (.ok bytes)) :: rest → bytes ≠ [] :=
    fun bytes rest h => skipEmpty_ok_ne_nil h
  cases hstate : s.state with
  | reading =>
    obtain ⟨hquiet, hread, hhasher, htotal, hzero⟩ := h.reading hstate
    have hskip := hread.skip (by omega)
    by_cases hr : s.remainingLength = 0
    · simp only [pollReading_zero C s s.inner hr hhasher]
      have hlen : (oks rs).flatten.length = n := by omega
      by_cases hsha : C.sha256 (oks rs).flatten = s.expectedSha256
      · rw [if_pos hsha, pollAwaitingEof_eq]
        exact invariant_awaitStep _ rfl h.expected hquiet hskip hr hlen (hsha.trans h.expected) hne
      · rw [if_neg hsha]
        refine .of_error rfl h.expected ⟨_, hread.accounted, htotal⟩ ?_
        intro hn
        have := hzero hr
        omega
    · simp only [pollReading_eq C s s.inner hr]
      exact invariant_readStep _ hstate h.expected hquiet hskip hhasher htotal hr hne
  | awaitingEof =>
    obtain ⟨hquiet, hread, hzero, hlen, hsha⟩ := h.awaiting hstate
    simp only [pollAwaitingEof_eq]
    exact invariant_awaitStep _ hstate h.expected hquiet (hread.skip (by omega)) hzero hlen hsha hne
  | finished =>
    obtain ⟨herr, hlen, hsha, hpayload⟩ := h.finished hstate
    exact .of_end hstate h.expected h.account herr hlen hsha hpayload
  | failed =>
    obtain ⟨r, hr, herr⟩ := h.failed hstate
    refine ⟨h.expected, h.account, ?_, fun hs => ?_, fun hs => ?_, fun hs => ?_, fun _ => ?_⟩
    · rw [oks_snoc_of_none rfl]
      exact h.completed
    · cases hstate.symm.trans hs
    · cases hstate.symm.trans hs
    · cases hstate.symm.trans hs
    · exact ⟨r, List.mem_append_left _ hr, herr⟩

theorem invariant_new (C : Crypto) (n : Nat) (d : Sha256Sum) (script : Script ε) :
    Invariant C n d script [] (new script n d) := by
  have hread : Read n script script [] := ⟨[], rfl, rfl, rfl⟩
  refine ⟨rfl, ⟨[], hread.accounted, rfl⟩, fun hn h => ?_, fun _ => ?_, fun h => ?_, fun h => ?_,
    fun h => ?_⟩
  · have h0 : 0 = n := h
    omega
  · exact ⟨⟨fun r hr => (List.not_mem_nil hr).elim, List.not_mem_nil⟩, hread, rfl, rfl, id⟩
  · cases h
  · cases h
  · cases h

end Steps

/-- The run lemma: the invariant holds after any number of polls. -/
theorem invariant_polls (C : Crypto) (n : Nat) (d : Sha256Sum) (script : Script ε) (k : Nat) :
    Invariant C n d script (polls C k (new script n d)) (afterPolls C k (new script n d)) := by
  have hstep : ∀ rs (_ : Unit) s, Invariant C n d script rs s →
      Invariant C n d script (rs ++ [(pollNext C s).1]) (pollNext C s).2 :=
    fun rs _ s hs => invariant_pollNext hs
  have h := run_history hstep (List.replicate k ()) [] _ (invariant_new C n d script)
  rwa [List.nil_append] at h

/-- A stream that has failed answers every poll with the end and asks nothing of its inner stream. -/
theorem polls_failed (C : Crypto) (s : UploadStream ε) (h : s.state = .failed) (j : Nat) :
    polls C j s = List.replicate j (.ready none) ∧ afterPolls C j s = s := by
  have hpoll : pollNext C s = (.ready none, s) := by rw [pollNext, h]
  induction j with
  | zero => exact ⟨rfl, rfl⟩
  | succ j ih =>
    constructor
    · rw [polls, List.replicate_succ, run, hpoll]
      exact congrArg _ ih.1
    · rw [afterPolls, List.replicate_succ, after, hpoll]
      exact ih.2

/-- After any number of polls of an upload stream over any inner stream: a clean end means that
the whole payload has been handed out and has the declared length and digest; the bytes that
complete the payload are handed out only with that digest; the counter is the declared length less
the bytes accepted; and after an error there is nothing but the end, without another inner poll. -/
theorem upload_stream_verifies (C : Crypto) (n : Nat) (d : Sha256Sum) (script : Script ε) (k : Nat) :
    (.ready none ∈ polls C k (new script n d) →
      (∀ r ∈ polls C k (new script n d), r.isError = false) →
      (oks (polls C k (new script n d))).flatten.length = n ∧
        C.sha256 (oks (polls C k (new script n d))).flatten = d ∧
        (oks (polls C k (new script n d))).flatten = payload script) ∧
    (0 < n → (oks (polls C k (new script n d))).flatten.length = n →
      C.sha256 (oks (polls C k (new script n d))).flatten = d) ∧
    (∃ used, script = used ++ (afterPolls C k (new script n d)).inner ∧
      (afterPolls C k (new script n d)).remainingLength + (acceptedBytes n used).length = n) ∧
    ((∃ r ∈ polls C k (new script n d), r.isError = true) → ∀ j,
      polls C j (afterPolls C k (new script n d)) = List.replicate j (.ready none) ∧
        afterPolls C j (afterPolls C k (new script n d)) = afterPolls C k (new script n d)) := by
  have hinv := invariant_polls C n d script k
  refine ⟨?_, hinv.completed, ?_, ?_⟩
  · intro hend herr
    cases hstate : (afterPolls C k (new script n d)).state with
    | reading => exact ((hinv.reading hstate).1.2 hend).elim
    | awaitingEof => exact ((hinv.awaiting hstate).1.2 hend).elim
    | finished => exact (hinv.finished hstate).2
    | failed =>
      obtain ⟨r, hr, hbad⟩ := hinv.failed hstate
      rw [herr r hr] at hbad
      cases hbad
  · obtain ⟨acc, ⟨used, hused, hacc⟩, htotal⟩ := hinv.account
    exact ⟨used, hused, by rw [hacc]; exact htotal⟩
  · rintro ⟨r, hr, hbad⟩ j
    have hclean : ∀ h : ∀ r ∈ polls C k (new script n d), r.isError = false, False := by
      intro h
      rw [h r hr] at hbad
      cases hbad
    cases hstate : (afterPolls C k (new script n d)).state with
    | reading => exact (hclean (hinv.reading hstate).1.1).elim
    | awaitingEof => exact (hclean (hinv.awaiting hstate).1.1).elim
    | finished => exact (hclean (hinv.finished hstate).1).elim
    | failed => exact polls_failed C _ hstate j

end S3s.Upload
