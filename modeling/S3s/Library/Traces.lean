import S3s.Library.Programs

/-! # Traces

The calls that a program makes, each with its answer, whatever it is that answers them. What holds of
every trace of a program holds of its runs on every system.
-/
namespace S3s.Programs
open Prog

variable {κ : Type} {ρ : κ → Type} {ε α β σ : Type}

/-- A call and its answer. -/
abbrev Answered (ρ : κ → Type) := (c : κ) × ρ c

/-- The calls that a program makes when it is answered so, and its outcome. -/
inductive Prog.Traces : Prog ρ ε α → List (Answered ρ) → Except ε α → Prop
  | ret (a : α) : Traces (.ret a) [] (.ok a)
  | fail (e : ε) : Traces (.fail e) [] (.error e)
  | call (c : κ) (next : ρ c → Prog ρ ε α) (x : ρ c) {events : List (Answered ρ)} {r : Except ε α}
      (h : Traces (next x) events r) : Traces (.call c next) (⟨c, x⟩ :: events) r

/-- A result that takes no call. -/
def Prog.ofExcept : Except ε α → Prog ρ ε α
  | .ok a => ret a
  | .error e => fail e

/-- The calls of a program alone on a system. -/
def Prog.log (sys : System ρ σ) : Prog ρ ε α → σ → List (Answered ρ)
  | ret _, _ => []
  | fail _, _ => []
  | call c next, s => ⟨c, (sys c s).1⟩ :: (next (sys c s).1).log sys (sys c s).2

/-- A run has a trace. -/
theorem traces_log (sys : System ρ σ) (p : Prog ρ ε α) (s : σ) :
    p.Traces (p.log sys s) (p.run sys s).1 := by
  induction p generalizing s with
  | ret a => exact .ret a
  | fail e => exact .fail e
  | call c next ih => exact .call c next _ (ih _ _)

/-- Whatever is answered, each call is allowed by the calls and the answers before it, and what is returned
is as it should be behind them all. -/
def Prog.Ensures (allowed : List (Answered ρ) → κ → Prop) (post : List (Answered ρ) → α → Prop) :
    List (Answered ρ) → Prog ρ ε α → Prop
  | before, ret a => post before a
  | _, fail _ => True
  | before, call c next => allowed before c ∧ ∀ x, (next x).Ensures allowed post (before ++ [⟨c, x⟩])

section Ensures

variable {allowed : List (Answered ρ) → κ → Prop} {post : List (Answered ρ) → α → Prop}
  {post' : List (Answered ρ) → β → Prop} {before events earlier later : List (Answered ρ)} {r : Except ε α}

/-- One program behind another. -/
theorem ensures_bind {p : Prog ρ ε α} {f : α → Prog ρ ε β} (hp : p.Ensures allowed post before)
    (hf : ∀ a before, post before a → (f a).Ensures allowed post' before) :
    (p >>= f).Ensures allowed post' before := by
  induction p generalizing before with
  | ret a => exact hf a before hp
  | fail e => trivial
  | call c next ih => exact ⟨hp.1, fun x => ih x (hp.2 x)⟩

/-- A program behind a result that takes no call. -/
theorem ensures_ofExcept_bind {x : Except ε α} {f : α → Prog ρ ε β}
    (h : ∀ a, x = .ok a → (f a).Ensures allowed post' before) :
    (ofExcept x >>= f).Ensures allowed post' before := by
  cases x with
  | ok a => exact h a rfl
  | error e => trivial

theorem ensures_ofExcept {x : Except ε α} (h : ∀ a, x = .ok a → post before a) :
    (ofExcept x : Prog ρ ε α).Ensures allowed post before := by
  cases x with
  | ok a => exact h a rfl
  | error e => trivial

/-- Each call in a trace is allowed. -/
theorem Prog.Ensures.call_allowed {p : Prog ρ ε α} (h : p.Ensures allowed post before)
    (htrace : p.Traces events r) {e : Answered ρ} (hevents : events = earlier ++ e :: later) :
    allowed (before ++ earlier) e.1 := by
  induction htrace generalizing before earlier with
  | ret a => simp at hevents
  | fail e => simp at hevents
  | call c next x _ ih =>
    cases earlier with
    | nil =>
      cases hevents
      rw [List.append_nil]
      exact h.1
    | cons d earlier =>
      cases hevents
      have hallowed := ih (h.2 x) rfl
      rwa [List.append_assoc] at hallowed

/-- What comes out behind a trace is as it should be. -/
theorem Prog.Ensures.returned {p : Prog ρ ε α} (h : p.Ensures allowed post before) {a : α}
    (htrace : p.Traces events (.ok a)) : post (before ++ events) a := by
  generalize hr : Except.ok a = r' at htrace
  induction htrace generalizing before with
  | ret a' =>
    cases hr
    rw [List.append_nil]
    exact h
  | fail e => cases hr
  | @call c next x events r' _ ih =>
    have hpost := ih (h.2 x) hr
    rwa [List.append_assoc] at hpost

end Ensures

end S3s.Programs
