import Mathlib.Data.List.Basic
import Mathlib.Tactic.Common

/-! # Polled machines

A machine is polled again and again; each poll takes an input from its
surroundings, returns a result and leaves a new state. A stream is a machine
whose results are items, errors, the end, or nothing yet.
-/
namespace S3s.Polling

/-- `Poll` -/
inductive Poll (α : Type) where
  | pending
  | ready (value : α)
deriving DecidableEq

theorem error_ne_ok {ε α : Type} {e : ε} {a : α} : (Except.error e : Except ε α) ≠ .ok a := by
  intro h
  cases h

variable {σ ι ρ : Type}

/-- The results of successive polls. -/
def run (step : ι → σ → ρ × σ) : List ι → σ → List ρ
  | [], _ => []
  | i :: is, s => (step i s).1 :: run step is (step i s).2

/-- The state after successive polls. -/
def after (step : ι → σ → ρ × σ) : List ι → σ → σ
  | [], s => s
  | i :: is, s => after step is (step i s).2

/-- What every poll preserves holds in every state reached. -/
theorem after_invariant {step : ι → σ → ρ × σ} {P : σ → Prop} (hstep : ∀ i s, P s → P (step i s).2)
    (is : List ι) (s : σ) (hs : P s) : P (after step is s) := by
  induction is generalizing s with
  | nil => exact hs
  | cons i is ih => exact ih _ (hstep i s hs)

/-- A property of the results that every poll from a good state has. -/
theorem run_forall {step : ι → σ → ρ × σ} {P : σ → Prop} {Q : ρ → Prop}
    (hstep : ∀ i s, P s → Q (step i s).1 ∧ P (step i s).2) (is : List ι) (s : σ) (hs : P s) :
    ∀ r ∈ run step is s, Q r := by
  induction is generalizing s with
  | nil => simp [run]
  | cons i is ih =>
    intro r hr
    rcases List.mem_cons.mp hr with rfl | hr
    · exact (hstep i s hs).1
    · exact ih _ (hstep i s hs).2 r hr

/-- What every poll preserves, of the results so far and the state, holds after every run. -/
theorem run_history {step : ι → σ → ρ × σ} {P : List ρ → σ → Prop}
    (hstep : ∀ rs i s, P rs s → P (rs ++ [(step i s).1]) (step i s).2) (is : List ι) (rs : List ρ)
    (s : σ) (hs : P rs s) : P (rs ++ run step is s) (after step is s) := by
  induction is generalizing rs s with
  | nil => rwa [run, after, List.append_nil]
  | cons i is ih =>
    have h := ih _ _ (hstep rs i s hs)
    rwa [List.append_assoc, List.singleton_append] at h

/-- What is done with the value of a poll that was ready with one. -/
def onReady {α β E : Type} (r : Poll (Except E α) × σ) (k : α → σ → Poll (Except E β) × σ) :
    Poll (Except E β) × σ :=
  match r with
  | (.pending, s) => (.pending, s)
  | (.ready (.error e), s) => (.ready (.error e), s)
  | (.ready (.ok a), s) => k a s

section OnReady

variable {α β E : Type} {k : α → σ → Poll (Except E β) × σ} {s : σ}

@[simp] theorem onReady_pending : onReady (.pending, s) k = (.pending, s) := rfl

@[simp] theorem onReady_error {e : E} :
    onReady (.ready (.error e), s) k = (.ready (.error e), s) := rfl

@[simp] theorem onReady_ok {a : α} : onReady (.ready (.ok a), s) k = k a s := rfl

/-- A value comes from a value. -/
theorem onReady_eq_ok {r : Poll (Except E α) × σ} {v : β} {s' : σ}
    (h : onReady r k = (.ready (.ok v), s')) :
    ∃ a s, r = (.ready (.ok a), s) ∧ k a s = (.ready (.ok v), s') := by
  rcases r with ⟨_ | (e | a), s⟩
  · cases h
  · cases h
  · exact ⟨a, s, rfl, h⟩

theorem onReady_assoc {γ : Type} (r : Poll (Except E α) × σ) (k : α → σ → Poll (Except E β) × σ)
    (k' : β → σ → Poll (Except E γ) × σ) :
    onReady (onReady r k) k' = onReady r fun a s => onReady (k a s) k' := by
  rcases r with ⟨_ | (e | a), s⟩ <;> rfl

end OnReady

/-- Polled until it is ready: the result, and the state it is left in. -/
inductive Settles (step : σ → Poll ρ × σ) : σ → ρ → σ → Prop where
  | ready {s s' : σ} {r : ρ} (result : step s = (.ready r, s')) : Settles step s r s'
  | pending {s s₁ s' : σ} {r : ρ} (result : step s = (.pending, s₁))
    (rest : Settles step s₁ r s') : Settles step s r s'

/-- The result of polling until ready is unique. -/
theorem Settles.unique {step : σ → Poll ρ × σ} {s s₁ s₂ : σ} {r₁ r₂ : ρ}
    (h₁ : Settles step s r₁ s₁) (h₂ : Settles step s r₂ s₂) : r₁ = r₂ ∧ s₁ = s₂ := by
  induction h₁ with
  | ready result =>
    cases h₂ with
    | ready result' =>
      rw [result] at result'
      cases result'
      exact ⟨rfl, rfl⟩
    | pending result' rest' =>
      rw [result] at result'
      cases result'
  | pending result rest ih =>
    cases h₂ with
    | ready result' =>
      rw [result] at result'
      cases result'
    | pending result' rest' =>
      rw [result] at result'
      cases result'
      exact ih rest'

/-- The result behind a poll that is not ready. -/
theorem Settles.after_pending {step : σ → Poll ρ × σ} {s s₁ s' : σ} {r : ρ}
    (hpoll : step s = (.pending, s₁)) (h : Settles step s r s') : Settles step s₁ r s' := by
  cases h with
  | ready result =>
    rw [hpoll] at result
    cases result
  | pending result rest =>
    rw [hpoll] at result
    cases result
    exact rest

/-- A machine settles as another one does that it is first polled like. -/
theorem Settles.of_first {step : σ → Poll ρ × σ} {s s₁ s' : σ} {r : ρ} (hfirst : step s = step s₁)
    (h : Settles step s₁ r s') : Settles step s r s' := by
  cases h with
  | ready result => exact .ready (hfirst.trans result)
  | pending result rest => exact .pending (hfirst.trans result) rest

/-- What holds before a poll that is not ready, and then again, holds when the machine is ready. -/
theorem Settles.invariant {step : σ → Poll ρ × σ} {P : σ → Prop} {Q : ρ → σ → Prop}
    {s s' : σ} {r : ρ} (hwait : ∀ s s', P s → step s = (.pending, s') → P s')
    (hready : ∀ s r s', P s → step s = (.ready r, s') → Q r s') (h : Settles step s r s')
    (hs : P s) : Q r s' := by
  induction h with
  | ready result => exact hready _ _ _ hs result
  | pending result rest ih => exact ih (hwait _ _ hs result)

/-- A machine whose every poll is ready with a good result, or pending with less left to wait for,
settles with a good result. -/
theorem Settles.of_measure {step : σ → Poll ρ × σ} {P : σ → Prop} {Q : ρ → σ → Prop}
    (measure : σ → Nat)
    (hstep : ∀ s, P s → (∃ r s', step s = (.ready r, s') ∧ Q r s') ∨
      ∃ s', step s = (.pending, s') ∧ measure s' < measure s ∧ P s') (s : σ) (hs : P s) :
    ∃ r s', Settles step s r s' ∧ Q r s' := by
  induction hn : measure s using Nat.strongRecOn generalizing s with
  | ind n ih =>
    rcases hstep s hs with ⟨r, s', hready, hq⟩ | ⟨s', hpending, hlt, hp⟩
    · exact ⟨r, s', .ready hready, hq⟩
    · obtain ⟨r, s'', hrest, hq⟩ := ih (measure s') (hn ▸ hlt) s' hp rfl
      exact ⟨r, s'', .pending hpending hrest, hq⟩

/-- A number of polls that may be enough to be ready. -/
def settle (step : σ → Poll ρ × σ) : Nat → σ → Option (ρ × σ)
  | 0, _ => none
  | fuel + 1, s =>
    match step s with
    | (.ready r, s') => some (r, s')
    | (.pending, s') => settle step fuel s'

theorem settles_of_settle {step : σ → Poll ρ × σ} {fuel : Nat} {s s' : σ} {r : ρ}
    (h : settle step fuel s = some (r, s')) : Settles step s r s' := by
  induction fuel generalizing s with
  | zero => cases h
  | succ fuel ih =>
    rw [settle] at h
    split at h
    · next result =>
      cases h
      exact .ready result
    · next result => exact .pending result (ih h)

section Entering

variable {α β E : Type} {f : σ → Poll (Except E α) × σ} {step : σ → Poll (Except E β) × σ}
  {k : α → σ → Poll (Except E β) × σ} {s s₁ s₂ s' : σ} {a : α} {r : Except E β}

/-- A step that begins with another one goes on where the other one is ready. -/
theorem Settles.enter (hstep : ∀ s, step s = onReady (f s) k) (h : Settles f s (.ok a) s₁)
    (hk : k a s₁ = step s₂) (hrest : Settles step s₂ r s') : Settles step s r s' := by
  generalize hv : Except.ok a = v at h
  induction h with
  | ready result =>
    subst hv
    refine hrest.of_first ?_
    rw [hstep, result, onReady_ok, hk]
  | pending result rest ih =>
    refine .pending ?_ (ih hk hv)
    rw [hstep, result, onReady_pending]

/-- A step that begins with another one and answers at once when that is ready. -/
theorem Settles.onReady (hstep : ∀ s, step s = Polling.onReady (f s) k) (h : Settles f s (.ok a) s₁)
    (hk : k a s₁ = (.ready r, s')) : Settles step s r s' := by
  generalize hv : Except.ok a = v at h
  induction h with
  | ready result =>
    subst hv
    refine .ready ?_
    rw [hstep, result, onReady_ok, hk]
  | pending result rest ih =>
    refine .pending ?_ (ih hk hv)
    rw [hstep, result, onReady_pending]

/-- Conversely, the step it begins with has been ready. -/
theorem Settles.of_onReady {v : β} (hstep : ∀ s, step s = Polling.onReady (f s) k)
    (hk : ∀ a s, ∃ r s', k a s = (.ready r, s')) (h : Settles step s (.ok v) s') :
    ∃ a s₁, Settles f s (.ok a) s₁ ∧ k a s₁ = (.ready (.ok v), s') := by
  generalize hr : Except.ok v = r at h
  induction h with
  | @ready s s' r result =>
    subst hr
    rw [hstep] at result
    obtain ⟨a, s₁, hf, hlast⟩ := onReady_eq_ok result
    exact ⟨a, s₁, .ready hf, hlast⟩
  | @pending s s₁ s' r result rest ih =>
    rw [hstep] at result
    obtain ⟨a, s₂, hf, hlast⟩ := ih hr
    rcases hpoll : f s with ⟨_ | (e | b), s₃⟩
    · rw [hpoll] at result
      cases result
      exact ⟨a, s₂, .pending hpoll hf, hlast⟩
    · rw [hpoll] at result
      cases result
    · rw [hpoll, onReady_ok] at result
      obtain ⟨r', s₄, hready⟩ := hk b s₃
      rw [hready] at result
      cases result

end Entering

/-- What holds of a poll: of the state when it is not ready, of the result and the state when it
is. -/
def Yields (wait : σ → Prop) (post : ρ → σ → Prop) : Poll ρ × σ → Prop
  | (.pending, s) => wait s
  | (.ready r, s) => post r s

section Yields

variable {wait wait' : σ → Prop} {post post' : ρ → σ → Prop}

theorem Yields.mono {r : Poll ρ × σ} (h : Yields wait post r) (hwait : ∀ s, wait s → wait' s)
    (hpost : ∀ a s, post a s → post' a s) : Yields wait' post' r := by
  rcases r with ⟨_ | a, s⟩
  · exact hwait s h
  · exact hpost a s h

/-- The value of a poll is handed on: what is to be shown of an error and of a value. -/
theorem Yields.onReady {α β E : Type} {r : Poll (Except E α) × σ}
    {k : α → σ → Poll (Except E β) × σ} {mid : Except E α → σ → Prop}
    {last : Except E β → σ → Prop} (h : Yields wait mid r) (hwait : ∀ s, wait s → wait' s)
    (herror : ∀ e s, mid (.error e) s → last (.error e) s)
    (hok : ∀ a s, mid (.ok a) s → Yields wait' last (k a s)) :
    Yields wait' last (Polling.onReady r k) := by
  rcases r with ⟨_ | (e | a), s⟩
  · exact hwait s h
  · exact herror e s h
  · exact hok a s h

/-- A machine that is not ready only when there is less left to wait for settles. -/
theorem Settles.of_yields {step : σ → Poll ρ × σ} {P : σ → Prop} {Q : ρ → σ → Prop}
    (measure : σ → Nat)
    (hstep : ∀ s, P s → Yields (fun s' => measure s' < measure s ∧ P s') Q (step s)) (s : σ)
    (hs : P s) : ∃ r s', Settles step s r s' ∧ Q r s' := by
  refine Settles.of_measure measure (fun s hs => ?_) s hs
  have h := hstep s hs
  rcases hr : step s with ⟨_ | r, s'⟩
  · rw [hr] at h
    exact .inr ⟨s', rfl, h⟩
  · rw [hr] at h
    exact .inl ⟨r, s', rfl, h⟩

end Yields

/-- The items of a source that is asked until it has no more or fails. -/
inductive Drains {α E : Type} (next : σ → Poll (Except E (Option α)) × σ) :
    σ → List α → Except E Unit → σ → Prop where
  | done {s s' : σ} (last : Settles next s (.ok none) s') : Drains next s [] (.ok ()) s'
  | failed {s s' : σ} {e : E} (last : Settles next s (.error e) s') : Drains next s [] (.error e) s'
  | item {s s₁ s' : σ} {a : α} {items : List α} {r : Except E Unit}
    (first : Settles next s (.ok (some a)) s₁) (rest : Drains next s₁ items r s') :
    Drains next s (a :: items) r s'

/-- What a source hands out is unique. -/
theorem Drains.unique {α E : Type} {next : σ → Poll (Except E (Option α)) × σ} {s s₁ s₂ : σ}
    {items₁ items₂ : List α} {r₁ r₂ : Except E Unit} (h₁ : Drains next s items₁ r₁ s₁)
    (h₂ : Drains next s items₂ r₂ s₂) : items₁ = items₂ ∧ r₁ = r₂ ∧ s₁ = s₂ := by
  induction h₁ generalizing items₂ with
  | done last =>
    cases h₂ with
    | done last' =>
      obtain ⟨-, rfl⟩ := last.unique last'
      exact ⟨rfl, rfl, rfl⟩
    | failed last' => cases (last.unique last').1
    | item first' rest' => cases (last.unique first').1
  | failed last =>
    cases h₂ with
    | done last' => cases (last.unique last').1
    | failed last' =>
      obtain ⟨heq, rfl⟩ := last.unique last'
      cases heq
      exact ⟨rfl, rfl, rfl⟩
    | item first' rest' => cases (last.unique first').1
  | item first rest ih =>
    cases h₂ with
    | done last' => cases (first.unique last').1
    | failed last' => cases (first.unique last').1
    | item first' rest' =>
      obtain ⟨heq, rfl⟩ := first.unique first'
      cases heq
      obtain ⟨rfl, hr, hs⟩ := ih rest'
      exact ⟨rfl, hr, hs⟩

/-- What is handed out behind a poll that is not ready. -/
theorem Drains.after_pending {α E : Type} {next : σ → Poll (Except E (Option α)) × σ} {s s₁ s' : σ}
    {items : List α} {r : Except E Unit} (hpoll : next s = (.pending, s₁))
    (h : Drains next s items r s') : Drains next s₁ items r s' := by
  have hsettles : ∀ a t, Settles next s a t → Settles next s₁ a t := fun a t h => h.after_pending hpoll
  cases h with
  | done last => exact .done (hsettles _ _ last)
  | failed last => exact .failed (hsettles _ _ last)
  | item first rest => exact .item (hsettles _ _ first) rest

/-- What is handed out behind an item. -/
theorem Drains.after_item {α E : Type} {next : σ → Poll (Except E (Option α)) × σ} {s s₁ s' : σ}
    {a : α} {items : List α} {r : Except E Unit} (hpoll : next s = (.ready (.ok (some a)), s₁))
    (h : Drains next s items r s') : ∃ rest, items = a :: rest ∧ Drains next s₁ rest r s' := by
  have hfirst : Settles next s (.ok (some a)) s₁ := .ready hpoll
  cases h with
  | done last => cases (hfirst.unique last).1
  | failed last => cases (hfirst.unique last).1
  | item first rest =>
    obtain ⟨heq, rfl⟩ := hfirst.unique first
    cases heq
    exact ⟨_, rfl, rest⟩

/-- A number of polls that may be enough to be handed out everything. -/
def drain {α E : Type} (next : σ → Poll (Except E (Option α)) × σ) :
    Nat → σ → Option (List α × Except E Unit × σ)
  | 0, _ => none
  | fuel + 1, s =>
    match settle next fuel s with
    | none => none
    | some (.ok none, s') => some ([], .ok (), s')
    | some (.error e, s') => some ([], .error e, s')
    | some (.ok (some a), s') =>
      match drain next fuel s' with
      | none => none
      | some (items, r, s'') => some (a :: items, r, s'')

theorem drains_of_drain {α E : Type} {next : σ → Poll (Except E (Option α)) × σ} {fuel : Nat}
    {s s' : σ} {items : List α} {r : Except E Unit} (h : drain next fuel s = some (items, r, s')) :
    Drains next s items r s' := by
  induction fuel generalizing s items with
  | zero => cases h
  | succ fuel ih =>
    rw [drain] at h
    split at h
    · cases h
    · next hsettle =>
      cases h
      exact .done (settles_of_settle hsettle)
    · next hsettle =>
      cases h
      exact .failed (settles_of_settle hsettle)
    · next hsettle =>
      split at h
      · cases h
      · next hdrain =>
        cases h
        exact .item (settles_of_settle hsettle) (ih hdrain)

/-- What a source hands out from a state where its first answer is that of another. -/
theorem Drains.of_first {α E : Type} {next : σ → Poll (Except E (Option α)) × σ} {s s₁ s' : σ}
    {items : List α} {r : Except E Unit} (hfirst : ∀ a t, Settles next s₁ a t → Settles next s a t)
    (h : Drains next s₁ items r s') : Drains next s items r s' := by
  cases h with
  | done last => exact .done (hfirst _ _ last)
  | failed last => exact .failed (hfirst _ _ last)
  | item first rest => exact .item (hfirst _ _ first) rest

/-- Two answers, of machines that then are related; what an error says may differ. -/
def Agree {τ α E E' : Type} (R : σ → τ → Prop) :
    Poll (Except E α) × σ → Poll (Except E' α) × τ → Prop
  | (.pending, s), (.pending, t) => R s t
  | (.ready (.ok a), s), (.ready (.ok a'), t) => a = a' ∧ R s t
  | (.ready (.error _), _), (.ready (.error _), _) => True
  | _, _ => False

section Agreement

variable {τ α E E' : Type} {R : σ → τ → Prop} {s s' : σ} {t : τ}

/-- A machine settles with the value that a machine related to it settles with. -/
theorem Settles.simulate {step : σ → Poll (Except E α) × σ} {step' : τ → Poll (Except E' α) × τ}
    {r : Except E α} (hstep : ∀ s t, R s t → Agree R (step s) (step' t))
    (h : Settles step s r s') (hst : R s t) :
    ∃ r' t', Settles step' t r' t' ∧ Agree R (.ready r, s') (.ready r', t') := by
  induction h generalizing t with
  | @ready s s' r result =>
    have hagree := hstep s t hst
    rw [result] at hagree
    rcases hresult : step' t with ⟨_ | r', t'⟩
    · rw [hresult] at hagree
      cases r <;> exact hagree.elim
    · rw [hresult] at hagree
      exact ⟨r', t', .ready hresult, hagree⟩
  | @pending s s₁ s' r result rest ih =>
    have hagree := hstep s t hst
    rw [result] at hagree
    rcases hresult : step' t with ⟨_ | (e | a), t₁⟩
    · rw [hresult] at hagree
      obtain ⟨r', t', hsettles, hlast⟩ := ih hagree
      exact ⟨r', t', .pending hresult hsettles, hlast⟩
    · rw [hresult] at hagree
      exact hagree.elim
    · rw [hresult] at hagree
      exact hagree.elim

/-- A source hands out what a source related to it hands out. -/
theorem Drains.simulate {next : σ → Poll (Except E (Option α)) × σ}
    {next' : τ → Poll (Except E' (Option α)) × τ} {items : List α} {r : Except E Unit}
    (hstep : ∀ s t, R s t → Agree R (next s) (next' t)) (h : Drains next s items r s')
    (hst : R s t) :
    ∃ r' t', Drains next' t items r' t' ∧ Agree R (.ready r, s') (.ready r', t') := by
  induction h generalizing t with
  | done last =>
    obtain ⟨_ | a, t', hsettles, hlast⟩ := last.simulate hstep hst
    · exact hlast.elim
    · obtain ⟨rfl, hst'⟩ := hlast
      exact ⟨.ok (), t', .done hsettles, rfl, hst'⟩
  | failed last =>
    obtain ⟨e | a, t', hsettles, hlast⟩ := last.simulate hstep hst
    · exact ⟨.error e, t', .failed hsettles, trivial⟩
    · exact hlast.elim
  | item first rest ih =>
    obtain ⟨_ | a, t₁, hsettles, hfirst⟩ := first.simulate hstep hst
    · exact hfirst.elim
    · obtain ⟨rfl, hst₁⟩ := hfirst
      obtain ⟨r', t', hdrains, hlast⟩ := ih hst₁
      exact ⟨r', t', .item hsettles hdrains, hlast⟩

end Agreement

/-- What an answer says of the items so far and of the state. -/
def Collects {α E : Type} (P : List α → σ → Prop) (Q : List α → Except E Unit → σ → Prop)
    (items : List α) : Except E (Option α) → σ → Prop
  | .ok (some a), s => P (items ++ [a]) s
  | .ok none, s => Q items (.ok ()) s
  | .error e, s => Q items (.error e) s

/-- What every answer preserves, of the items so far and of the state, holds behind the last one. -/
theorem Drains.invariant {α E : Type} {next : σ → Poll (Except E (Option α)) × σ}
    {P : List α → σ → Prop} {Q : List α → Except E Unit → σ → Prop} {s s' : σ} {items : List α}
    {r : Except E Unit} (hstep : ∀ seen s, P seen s → Yields (P seen) (Collects P Q seen) (next s))
    (h : Drains next s items r s') (seen : List α) (hs : P seen s) : Q (seen ++ items) r s' := by
  have hsettles : ∀ seen s r s', P seen s → Settles next s r s' → Collects P Q seen r s' := by
    intro seen s r s' hs hr
    refine hr.invariant (P := P seen) (fun s s' hs hpoll => ?_) (fun s r s' hs hpoll => ?_) hs
    · have hyields := hstep seen s hs
      rwa [hpoll] at hyields
    · have hyields := hstep seen s hs
      rwa [hpoll] at hyields
  induction h generalizing seen with
  | done last =>
    rw [List.append_nil]
    exact hsettles _ _ _ _ hs last
  | failed last =>
    rw [List.append_nil]
    exact hsettles _ _ _ _ hs last
  | item first rest ih =>
    have hrest := ih _ (hsettles _ _ _ _ hs first)
    rwa [List.append_assoc, List.singleton_append] at hrest

/-- A source with less left after each answer but its last is drained. -/
theorem Drains.of_measure {α E : Type} {next : σ → Poll (Except E (Option α)) × σ}
    (measure : σ → Nat)
    (hstep : ∀ s, Yields (fun s' => measure s' < measure s)
      (fun r s' => ∀ a, r = .ok (some a) → measure s' < measure s) (next s)) (s : σ) :
    ∃ items r s', Drains next s items r s' := by
  induction hn : measure s using Nat.strongRecOn generalizing s with
  | ind n ih =>
    subst hn
    obtain ⟨r, s₁, hsettles, hless⟩ := Settles.of_yields (P := fun s₁ => measure s₁ ≤ measure s)
      (Q := fun r s' => ∀ a, r = .ok (some a) → measure s' < measure s) measure
      (fun s₁ hle => (hstep s₁).mono
        (fun s' hlt => ⟨hlt, Nat.le_trans (Nat.le_of_lt hlt) hle⟩)
        fun r s' hlt a ha => Nat.lt_of_lt_of_le (hlt a ha) hle) s (Nat.le_refl _)
    match r with
    | .error e => exact ⟨[], .error e, s₁, .failed hsettles⟩
    | .ok none => exact ⟨[], .ok (), s₁, .done hsettles⟩
    | .ok (some a) =>
      obtain ⟨items, r', s', hdrains⟩ := ih (measure s₁) (hless a rfl) s₁ rfl
      exact ⟨a :: items, r', s', .item hsettles hdrains⟩

section Streams

variable {α E : Type}

/-- The result of one poll of a stream of items of type `α`. -/
abbrev Item (α E : Type) := Poll (Option (Except E α))

/-- A result with its item and its error seen through functions. -/
def Item.bimap {β E' : Type} (f : α → β) (g : E → E') : Item α E → Item β E'
  | .pending => .pending
  | .ready none => .ready none
  | .ready (some (.error e)) => .ready (some (.error (g e)))
  | .ready (some (.ok a)) => .ready (some (.ok (f a)))

def Item.isError : Item α E → Bool
  | .ready (some (.error _)) => true
  | _ => false

def Item.ok? : Item α E → Option α
  | .ready (some (.ok a)) => some a
  | _ => none

/-- A result as the answer of a source that is asked for its next item. -/
def Item.answer : Item α E → Poll (Except E (Option α))
  | .pending => .pending
  | .ready none => .ready (.ok none)
  | .ready (some (.error e)) => .ready (.error e)
  | .ready (some (.ok a)) => .ready (.ok (some a))

/-- A stream as a source that is asked for its next item. -/
def asking (step : σ → Item α E × σ) (s : σ) : Poll (Except E (Option α)) × σ :=
  ((step s).1.answer, (step s).2)

/-- The items among the results. -/
def oks (rs : List (Item α E)) : List α := rs.filterMap Item.ok?

/-- The results before the first error. -/
def untilError (rs : List (Item α E)) : List (Item α E) := rs.takeWhile fun r => !r.isError

theorem oks_cons (r : Item α E) (rs : List (Item α E)) : oks (r :: rs) = r.ok?.toList ++ oks rs := by
  unfold oks
  rw [List.filterMap_cons]
  cases r.ok? <;> rfl

theorem oks_append_singleton (rs : List (Item α E)) (r : Item α E) :
    oks (rs ++ [r]) = oks rs ++ r.ok?.toList := by
  unfold oks
  rw [List.filterMap_append]
  cases h : r.ok? with
  | none => simp [h]
  | some a => simp [h]

theorem untilError_cons_of_ok {r : Item α E} (rs : List (Item α E)) (h : r.isError = false) :
    untilError (r :: rs) = r :: untilError rs := by
  simp [untilError, h]

theorem untilError_cons_of_error {r : Item α E} (rs : List (Item α E)) (h : r.isError = true) :
    untilError (r :: rs) = [] := by
  simp [untilError, h]

/-- Polled again and again, the stream hands out these items and no error, and ends. -/
inductive ReadsAll (step : ι → σ → Item α E × σ) : σ → List α → Prop where
  | done {s : σ} (i : ι) (result : (step i s).1 = .ready none) : ReadsAll step s []
  | pending {s : σ} {items : List α} (i : ι) (result : (step i s).1 = .pending)
    (rest : ReadsAll step (step i s).2 items) : ReadsAll step s items
  | item {s : σ} {a : α} {items : List α} (i : ι) (result : (step i s).1 = .ready (some (.ok a)))
    (rest : ReadsAll step (step i s).2 items) : ReadsAll step s (a :: items)

section Simulation

variable {σ' β E' : Type} {step : ι → σ → Item α E × σ} {step' : ι → σ' → Item β E' × σ'}
  {S : σ → σ'} {f : α → β} {g : E → E'}

/-- A stream that wraps another hands out the items of the other, seen through a function. -/
theorem ReadsAll.wrap (h : ∀ i s, step' i (S s) = ((step i s).1.bimap f g, S (step i s).2)) {s : σ}
    {items : List α} (hs : ReadsAll step s items) : ReadsAll step' (S s) (items.map f) := by
  induction hs with
  | @done s i result => exact .done i (by rw [h, result]; rfl)
  | @pending s items i result rest ih => exact .pending i (by rw [h, result]; rfl) (by rwa [h])
  | @item s a items i result rest ih => exact .item i (by rw [h, result]; rfl) (by rwa [h])

theorem ReadsAll.unwrap (h : ∀ i s, step' i (S s) = ((step i s).1.bimap f g, S (step i s).2)) {s : σ}
    {items : List β} (hs : ReadsAll step' (S s) items) :
    ∃ items', items = items'.map f ∧ ReadsAll step s items' := by
  generalize ht : S s = t at hs
  induction hs generalizing s with
  | done i result =>
    subst ht
    rw [h] at result
    rcases hr : (step i s).1 with _ | (_ | (e | a))
    · rw [hr] at result; cases result
    · exact ⟨[], rfl, .done i hr⟩
    · rw [hr] at result; cases result
    · rw [hr] at result; cases result
  | pending i result rest ih =>
    subst ht
    have hnext : S (step i s).2 = (step' i (S s)).2 := by rw [h]
    rw [h] at result
    obtain ⟨items', hitems, hreads⟩ := ih hnext
    rcases hr : (step i s).1 with _ | (_ | (e | a))
    · exact ⟨items', hitems, .pending i hr hreads⟩
    · rw [hr] at result; cases result
    · rw [hr] at result; cases result
    · rw [hr] at result; cases result
  | item i result rest ih =>
    subst ht
    have hnext : S (step i s).2 = (step' i (S s)).2 := by rw [h]
    rw [h] at result
    obtain ⟨items', hitems, hreads⟩ := ih hnext
    rcases hr : (step i s).1 with _ | (_ | (e | a))
    · rw [hr] at result; cases result
    · rw [hr] at result; cases result
    · rw [hr] at result; cases result
    · rw [hr] at result
      cases result
      exact ⟨a :: items', by rw [hitems]; rfl, .item i hr hreads⟩

end Simulation

end Streams
end S3s.Polling
