import S3s.Http.Body

/-! # The size limit of a body

A body under a limit passes the frames of its kind on, and an error in place of data that do not
fit into what is left of the limit. The frames behind such an error are passed on again.
-/
namespace S3s.Http
open Polling

variable {σ τ ι E : Type}

/-- `Body::set_limit` -/
def Body.setLimit (b : Body σ τ) (limit : Option Nat) : Body σ τ := { b with remainingLimit := limit }

/-- The data of a poll. -/
def dataOf {E : Type} : Item Frame E → Option Bytes
  | .ready (some (.ok (.data bytes))) => some bytes
  | _ => none

/-- The bytes that polls have yielded. -/
def received (rs : List (Item Frame E)) : Bytes := (rs.filterMap dataOf).flatten

/-- The error of the limit. -/
def IsExceeded (r : Item Frame (BodyError E)) : Prop :=
  ∃ size limit, r = .ready (some (.error (.sizeLimitExceeded size limit)))

/-- What the limit makes of the polls of the kind. -/
def limitFrames : Nat → List (Item Frame E) → List (Item Frame (BodyError E))
  | _, [] => []
  | n, r :: rs =>
    match dataOf r with
    | none => liftFrame r :: limitFrames n rs
    | some bytes =>
      if bytes.length > n then
        .ready (some (.error (.sizeLimitExceeded bytes.length n))) :: limitFrames n rs
      else liftFrame r :: limitFrames (n - bytes.length) rs

/-- What a limit is for: no more bytes than it allows, no data behind its error, and nothing left
out between the bytes that are seen. -/
def KeepsLimit (n : Nat) (inner : List (Item Frame E)) (outer : List (Item Frame (BodyError E))) :
    Prop :=
  (received outer).length ≤ n ∧
    outer.Pairwise (fun r r' => IsExceeded r → dataOf r' = none) ∧
    received outer <+: received inner

/-- Behind the first data that do not fit into the limit, no data fit into what was left of it. -/
def NothingFits : Nat → List (Item Frame E) → Prop
  | _, [] => True
  | n, r :: rs =>
    match dataOf r with
    | none => NothingFits n rs
    | some bytes =>
      if bytes.length > n then ∀ r' ∈ rs, ∀ data ∈ dataOf r', data.length > n
      else NothingFits (n - bytes.length) rs

section Frames

variable {r : Item Frame E} {rs : List (Item Frame E)} {n : Nat} {bytes : Bytes}

@[simp] theorem dataOf_liftFrame (r : Item Frame E) : dataOf (liftFrame r) = dataOf r := by
  rcases r with _ | (_ | (e | (bytes | headers))) <;> rfl

theorem not_isExceeded_liftFrame (r : Item Frame E) : ¬IsExceeded (liftFrame r) := by
  rintro ⟨size, limit, h⟩
  rcases r with _ | (_ | (e | (bytes | headers))) <;> cases h

theorem limitFrames_none (h : dataOf r = none) :
    limitFrames n (r :: rs) = liftFrame r :: limitFrames n rs := by
  rw [limitFrames, h]

theorem limitFrames_fits (h : dataOf r = some bytes) (hfits : ¬bytes.length > n) :
    limitFrames n (r :: rs) = liftFrame r :: limitFrames (n - bytes.length) rs := by
  simp only [limitFrames, h, if_neg hfits]

theorem limitFrames_exceeds (h : dataOf r = some bytes) (hexceeds : bytes.length > n) :
    limitFrames n (r :: rs) =
      .ready (some (.error (.sizeLimitExceeded bytes.length n))) :: limitFrames n rs := by
  simp only [limitFrames, h, if_pos hexceeds]

theorem received_cons_none {E : Type} {r : Item Frame E} {rs : List (Item Frame E)}
    (h : dataOf r = none) : received (r :: rs) = received rs := by
  rw [received, List.filterMap_cons_none h, received]

theorem received_cons_some {E : Type} {r : Item Frame E} {rs : List (Item Frame E)}
    (h : dataOf r = some bytes) : received (r :: rs) = bytes ++ received rs := by
  rw [received, List.filterMap_cons_some h, List.flatten_cons, received]

theorem received_eq_nil {E : Type} {rs : List (Item Frame E)} (h : ∀ r ∈ rs, dataOf r = none) :
    received rs = [] := by
  rw [received, List.filterMap_eq_nil_iff.mpr h, List.flatten_nil]

/-- The limit holds of all the bytes together, whatever the frames are. -/
theorem received_limitFrames_le (n : Nat) (rs : List (Item Frame E)) :
    (received (limitFrames n rs)).length ≤ n := by
  induction rs generalizing n with
  | nil => exact Nat.zero_le n
  | cons r rs ih =>
    cases hdata : dataOf r with
    | none =>
      rw [limitFrames_none hdata, received_cons_none (by simpa using hdata)]
      exact ih n
    | some bytes =>
      by_cases hexceeds : bytes.length > n
      · rw [limitFrames_exceeds hdata hexceeds, received_cons_none rfl]
        exact ih n
      · rw [limitFrames_fits hdata hexceeds, received_cons_some (by simpa using hdata),
          List.length_append]
        have hrest := ih (n - bytes.length)
        omega

/-- No data come through exactly when none fit. -/
theorem limitFrames_no_data_iff (n : Nat) (rs : List (Item Frame E)) :
    (∀ r' ∈ limitFrames n rs, dataOf r' = none) ↔ ∀ r' ∈ rs, ∀ data ∈ dataOf r', data.length > n := by
  induction rs with
  | nil => simp [limitFrames]
  | cons r rs ih =>
    cases hdata : dataOf r with
    | none =>
      rw [limitFrames_none hdata, List.forall_mem_cons, List.forall_mem_cons, ih]
      simp [hdata]
    | some bytes =>
      by_cases hexceeds : bytes.length > n
      · rw [limitFrames_exceeds hdata hexceeds, List.forall_mem_cons, List.forall_mem_cons, ih]
        simp only [hdata, Option.mem_some_iff, forall_eq', hexceeds, true_and]
        exact and_iff_right rfl
      · rw [limitFrames_fits hdata hexceeds, List.forall_mem_cons, List.forall_mem_cons]
        simp [hdata, hexceeds]

/-- No data come behind an error of the limit exactly when none fit there. -/
theorem limitFrames_pairwise_iff (n : Nat) (rs : List (Item Frame E)) :
    (limitFrames n rs).Pairwise (fun r r' => IsExceeded r → dataOf r' = none) ↔ NothingFits n rs := by
  induction rs generalizing n with
  | nil => simp [limitFrames, NothingFits]
  | cons r rs ih =>
    have hlift (m : Nat) : (liftFrame r :: limitFrames m rs).Pairwise
        (fun r r' => IsExceeded r → dataOf r' = none) ↔ NothingFits m rs := by
      rw [List.pairwise_cons, ih m]
      exact and_iff_right fun r' _ h => absurd h (not_isExceeded_liftFrame r)
    cases hdata : dataOf r with
    | none =>
      rw [limitFrames_none hdata, hlift, NothingFits, hdata]
    | some bytes =>
      by_cases hexceeds : bytes.length > n
      · rw [limitFrames_exceeds hdata hexceeds, List.pairwise_cons]
        simp only [NothingFits, hdata, if_pos hexceeds, ← limitFrames_no_data_iff]
        constructor
        · intro h r' hr'
          exact h.1 r' hr' ⟨_, _, rfl⟩
        · intro h
          refine ⟨fun r' hr' _ => h r' hr', ?_⟩
          exact List.pairwise_of_forall_mem_list fun _ _ r' hr' _ => h r' hr'
      · rw [limitFrames_fits hdata hexceeds, hlift]
        simp only [NothingFits, hdata, if_neg hexceeds]

/-- Nothing is left out between the bytes when nothing fits behind an error. -/
theorem received_limitFrames_prefix {n : Nat} {rs : List (Item Frame E)} (h : NothingFits n rs) :
    received (limitFrames n rs) <+: received rs := by
  induction rs generalizing n with
  | nil => exact List.prefix_refl _
  | cons r rs ih =>
    cases hdata : dataOf r with
    | none =>
      rw [limitFrames_none hdata, received_cons_none (by simpa using hdata), received_cons_none hdata]
      rw [NothingFits, hdata] at h
      exact ih h
    | some bytes =>
      by_cases hexceeds : bytes.length > n
      · simp only [NothingFits, hdata, if_pos hexceeds, ← limitFrames_no_data_iff] at h
        rw [limitFrames_exceeds hdata hexceeds, received_cons_none rfl, received_eq_nil h]
        exact List.nil_prefix
      · simp only [NothingFits, hdata, if_neg hexceeds] at h
        rw [limitFrames_fits hdata hexceeds, received_cons_some (by simpa using hdata),
          received_cons_some hdata]
        exact (List.prefix_append_right_inj bytes).mpr (ih h)

end Frames

/-- One poll of a body under a limit. -/
theorem pollFrame_limited (S : ByteStream σ ι E) (H : HttpBody τ ι E) (i : ι) (kind : Kind σ τ)
    (n : Nat) :
    Body.pollFrame S H i ⟨kind, some n⟩ =
      match dataOf (Body.pollKind S H i kind).1 with
      | none => (liftFrame (Body.pollKind S H i kind).1, ⟨(Body.pollKind S H i kind).2, some n⟩)
      | some bytes =>
        if bytes.length > n then
          (.ready (some (.error (.sizeLimitExceeded bytes.length n))),
            ⟨(Body.pollKind S H i kind).2, some n⟩)
        else (liftFrame (Body.pollKind S H i kind).1,
          ⟨(Body.pollKind S H i kind).2, some (n - bytes.length)⟩) := by
  rcases h : Body.pollKind S H i kind with ⟨_ | (_ | (e | (bytes | headers))), kind'⟩
  all_goals simp [Body.pollFrame, h, dataOf]

/-- The polls of a body under a limit, from those of its kind. -/
theorem run_pollFrame_limited (S : ByteStream σ ι E) (H : HttpBody τ ι E) (schedule : List ι)
    (kind : Kind σ τ) (n : Nat) :
    run (Body.pollFrame S H) schedule ⟨kind, some n⟩ =
      limitFrames n (run (Body.pollKind S H) schedule kind) := by
  induction schedule generalizing kind n with
  | nil => rfl
  | cons i schedule ih =>
    rw [run, run, pollFrame_limited]
    cases hdata : dataOf (Body.pollKind S H i kind).1 with
    | none => rw [limitFrames_none hdata, ih]
    | some bytes =>
      by_cases hexceeds : bytes.length > n
      · simp only [if_pos hexceeds]
        rw [limitFrames_exceeds hdata hexceeds, ih]
      · simp only [if_neg hexceeds]
        rw [limitFrames_fits hdata hexceeds, ih]

/-- A body keeps a limit exactly as long as its kind has no data that fit into what was left of the
limit behind data that did not. -/
theorem body_limit_kept_iff (S : ByteStream σ ι E) (H : HttpBody τ ι E) (b : Body σ τ) (n : Nat)
    (schedule : List ι) :
    KeepsLimit n (run (Body.pollKind S H) schedule b.kind)
        (run (Body.pollFrame S H) schedule (b.setLimit (some n))) ↔
      NothingFits n (run (Body.pollKind S H) schedule b.kind) := by
  rw [Body.setLimit, run_pollFrame_limited, KeepsLimit, limitFrames_pairwise_iff]
  constructor
  · intro h
    exact h.2.1
  · intro h
    exact ⟨received_limitFrames_le _ _, h, received_limitFrames_prefix h⟩

/-- A foreign body that yields the chunks it holds. -/
def chunkedBody : HttpBody (List Bytes) Unit Unit where
  pollFrame _ chunks :=
    match chunks with
    | [] => (.ready none, [])
    | chunk :: rest => (.ready (some (.ok (.data chunk))), rest)
  isEndStream chunks := chunks.isEmpty

/-- A stream that has nothing. -/
def noStream : ByteStream Unit Unit Unit where
  pollNext _ s := (.ready none, s)
  remainingLength _ := .newExact 0

/-- Under a limit of four bytes, the bytes behind a frame of five come through. -/
theorem data_after_limit_exceeded :
    ¬KeepsLimit 4
      (run (Body.pollKind noStream chunkedBody) [(), ()] (.httpBody [[104, 101, 108, 108, 111], [33]]))
      (run (Body.pollFrame noStream chunkedBody) [(), ()]
        ((⟨.httpBody [[104, 101, 108, 108, 111], [33]], none⟩ : Body Unit (List Bytes)).setLimit
          (some 4))) := by
  intro h
  have hafter := List.rel_of_pairwise_cons h.2.1 (List.mem_singleton_self _) ⟨5, 4, rfl⟩
  cases hafter

end S3s.Http
