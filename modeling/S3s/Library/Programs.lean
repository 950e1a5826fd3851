import Mathlib.Tactic.Common

/-! # Programs of calls

A program returns, fails, or makes a call and goes on with the answer. What the calls do is
said by a system. A program that runs on a system meets a postcondition, of the value that
it returns or of the failure, and of the state that it leaves.
-/
namespace S3s.Programs

/-- A program whose calls `c` are answered in `ρ c`. -/
inductive Prog {κ : Type} (ρ : κ → Type) (ε α : Type) : Type where
  | ret (a : α)
  | fail (e : ε)
  | call (c : κ) (next : ρ c → Prog ρ ε α)

/-- A system answers a call and changes. -/
abbrev System {κ : Type} (ρ : κ → Type) (σ : Type) := (c : κ) → σ → ρ c × σ

variable {κ : Type} {ρ : κ → Type} {ε ε' α β σ : Type}

namespace Prog

def bind : Prog ρ ε α → (α → Prog ρ ε β) → Prog ρ ε β
  | ret a, f => f a
  | fail e, _ => fail e
  | call c next, f => call c fun x => (next x).bind f

instance : Monad (Prog ρ ε) where
  pure := ret
  bind := bind

/-- The outcome of a program, be it a value or a failure. -/
def attempt : Prog ρ ε α → Prog ρ ε' (Except ε α)
  | ret a => ret (.ok a)
  | fail e => ret (.error e)
  | call c next => call c fun x => (next x).attempt

/-- What is done behind a failure, before it is passed on. -/
def onFailure (p : Prog ρ ε α) (cleanup : Prog ρ ε Unit) : Prog ρ ε α :=
  p.attempt.bind fun
    | .ok a => ret a
    | .error e => cleanup.bind fun _ => fail e

/-- A program alone on a system. -/
def run (sys : System ρ σ) : Prog ρ ε α → σ → Except ε α × σ
  | ret a, s => (.ok a, s)
  | fail e, s => (.error e, s)
  | call c next, s => (next (sys c s).1).run sys (sys c s).2

/-- The program returns a value with `Q`, or fails with `E`. -/
def Meets (sys : System ρ σ) (p : Prog ρ ε α) (s : σ) (Q : α → σ → Prop) (E : ε → σ → Prop) : Prop :=
  match p.run sys s with
  | (.ok a, s') => Q a s'
  | (.error e, s') => E e s'

/-- Every call that the program may make is one with `φ`, whatever the answers are. -/
def Only (φ : κ → Prop) : Prog ρ ε α → Prop
  | ret _ => True
  | fail _ => True
  | call c next => φ c ∧ ∀ x, (next x).Only φ

/-- Every failure that the program may end in is one with `ψ`, whatever the answers are. -/
def FailsOnly (ψ : ε → Prop) : Prog ρ ε α → Prop
  | ret _ => True
  | fail e => ψ e
  | call _ next => ∀ x, (next x).FailsOnly ψ

/-- Every value that the program may return is one with `ψ`, whatever the answers are. -/
def Gives (ψ : α → Prop) : Prog ρ ε α → Prop
  | ret a => ψ a
  | fail _ => True
  | call _ next => ∀ x, (next x).Gives ψ

end Prog

open Prog

section Meets

variable {sys : System ρ σ} {s : σ} {Q : α → σ → Prop} {E : ε → σ → Prop}

@[simp] theorem meets_pure (a : α) : Meets sys (pure a : Prog ρ ε α) s Q E ↔ Q a s := Iff.rfl

@[simp] theorem meets_ret (a : α) : Meets sys (ret a) s Q E ↔ Q a s := Iff.rfl

@[simp] theorem meets_fail (e : ε) : Meets sys (fail e) s Q E ↔ E e s := Iff.rfl

@[simp] theorem meets_call (c : κ) (next : ρ c → Prog ρ ε α) :
    Meets sys (call c next) s Q E ↔ Meets sys (next (sys c s).1) (sys c s).2 Q E :=
  Iff.rfl

@[simp] theorem ret_bind (a : α) (f : α → Prog ρ ε β) : (ret a >>= f) = f a := rfl

@[simp] theorem fail_bind (e : ε) (f : α → Prog ρ ε β) : (fail e >>= f) = fail e := rfl

/-- What follows may be taken together. -/
theorem bind_bind {γ : Type} (p : Prog ρ ε α) (f : α → Prog ρ ε β) (g : β → Prog ρ ε γ) :
    (p >>= f) >>= g = p >>= fun a => f a >>= g := by
  induction p with
  | ret a => rfl
  | fail e => rfl
  | call c next ih => exact congrArg (Prog.call c) (funext ih)

theorem run_bind (p : Prog ρ ε α) (f : α → Prog ρ ε β) (s : σ) :
    (p >>= f).run sys s = match p.run sys s with
      | (.ok a, s') => (f a).run sys s'
      | (.error e, s') => (.error e, s') := by
  induction p generalizing s with
  | ret a => rfl
  | fail e => rfl
  | call c next ih => exact ih _ _

@[simp] theorem meets_bind (p : Prog ρ ε α) (f : α → Prog ρ ε β) {Q : β → σ → Prop} :
    Meets sys (p >>= f) s Q E ↔ Meets sys p s (fun a s' => Meets sys (f a) s' Q E) E := by
  unfold Meets
  rw [run_bind]
  rcases p.run sys s with ⟨_ | _, s'⟩ <;> exact Iff.rfl

theorem run_attempt (p : Prog ρ ε α) (s : σ) :
    (p.attempt : Prog ρ ε' (Except ε α)).run sys s = (.ok (p.run sys s).1, (p.run sys s).2) := by
  induction p generalizing s with
  | ret a => rfl
  | fail e => rfl
  | call c next ih => exact ih _ _

@[simp] theorem meets_attempt (p : Prog ρ ε α) {Q : Except ε α → σ → Prop} {E : ε' → σ → Prop} :
    Meets sys p.attempt s Q E ↔ Meets sys p s (fun a => Q (.ok a)) (fun e => Q (.error e)) := by
  unfold Meets
  rw [run_attempt]
  rcases p.run sys s with ⟨_ | _, s'⟩ <;> exact Iff.rfl

@[simp] theorem meets_onFailure (p : Prog ρ ε α) (cleanup : Prog ρ ε Unit) :
    Meets sys (p.onFailure cleanup) s Q E ↔
      Meets sys p s Q (fun e s' => Meets sys cleanup s' (fun _ => E e) E) := by
  let passOn : Except ε α → Prog ρ ε α
    | .ok a => ret a
    | .error e => cleanup.bind fun _ => fail e
  have hbind : Meets sys (p.attempt.bind passOn) s Q E ↔
      Meets sys (p.attempt : Prog ρ ε (Except ε α)) s (fun x s' => Meets sys (passOn x) s' Q E) E :=
    meets_bind p.attempt passOn
  refine hbind.trans ?_
  rw [meets_attempt]
  simp only [passOn, meets_ret]
  have hcleanup (e : ε) (s' : σ) : Meets sys (cleanup.bind fun _ => fail e) s' Q E ↔
      Meets sys cleanup s' (fun _ => E e) E := meets_bind cleanup fun _ => fail e
  simp only [hcleanup]

theorem Prog.Meets.mono {p : Prog ρ ε α} {Q' : α → σ → Prop} {E' : ε → σ → Prop}
    (h : Meets sys p s Q E) (hQ : ∀ a s', Q a s' → Q' a s') (hE : ∀ e s', E e s' → E' e s') :
    Meets sys p s Q' E' := by
  unfold Meets at *
  rcases hrun : p.run sys s with ⟨_ | _, s'⟩
  · rw [hrun] at h
    exact hE _ _ h
  · rw [hrun] at h
    exact hQ _ _ h

/-- One program behind another, by what the first one meets. -/
theorem Prog.Meets.bind {p : Prog ρ ε α} {f : α → Prog ρ ε β} {Q' : β → σ → Prop} {E' : ε → σ → Prop}
    (hp : Meets sys p s Q E) (hf : ∀ a s', Q a s' → Meets sys (f a) s' Q' E')
    (hE : ∀ e s', E e s' → E' e s') : Meets sys (p >>= f) s Q' E' :=
  (meets_bind p f).mpr (hp.mono hf hE)

theorem Prog.Meets.and {p : Prog ρ ε α} {Q' : α → σ → Prop} {E' : ε → σ → Prop}
    (h : Meets sys p s Q E) (h' : Meets sys p s Q' E') :
    Meets sys p s (fun a s' => Q a s' ∧ Q' a s') (fun e s' => E e s' ∧ E' e s') := by
  unfold Meets at *
  rcases hrun : p.run sys s with ⟨_ | _, s'⟩
  · rw [hrun] at h h'
    exact ⟨h, h'⟩
  · rw [hrun] at h h'
    exact ⟨h, h'⟩

theorem Prog.Meets.returned {p : Prog ρ ε α} (h : Meets sys p s Q E) {a : α} {s' : σ}
    (hrun : p.run sys s = (.ok a, s')) : Q a s' := by
  unfold Meets at h
  rwa [hrun] at h

/-- Behind a program whose outcome is known. -/
theorem Prog.Meets.of_run {p : Prog ρ ε α} {f : α → Prog ρ ε β} {Q : β → σ → Prop} {a : α} {s' : σ}
    (hrun : p.run sys s = (.ok a, s')) (hf : Meets sys (f a) s' Q E) : Meets sys (p >>= f) s Q E := by
  rw [meets_bind]
  unfold Meets at hf ⊢
  rwa [hrun]

theorem Prog.Meets.failed {p : Prog ρ ε α} (h : Meets sys p s Q E) {e : ε} {s' : σ}
    (hrun : p.run sys s = (.error e, s')) : E e s' := by
  unfold Meets at h
  rwa [hrun] at h

end Meets

theorem eq_ok_of_isOk {x : Except ε α × σ} (h : x.1.isOk = true) : ∃ a s, x = (.ok a, s) := by
  obtain ⟨e | a, s⟩ := x
  · cases h
  · exact ⟨a, s, rfl⟩

section Footprint

variable {φ : κ → Prop} {ψ : ε → Prop}

@[simp] theorem only_pure (a : α) : (pure a : Prog ρ ε α).Only φ := trivial

@[simp] theorem only_ret (a : α) : (ret a : Prog ρ ε α).Only φ := trivial

@[simp] theorem only_fail (e : ε) : (fail e : Prog ρ ε α).Only φ := trivial

@[simp] theorem only_call (c : κ) (next : ρ c → Prog ρ ε α) :
    (call c next).Only φ ↔ φ c ∧ ∀ x, (next x).Only φ := Iff.rfl

theorem Prog.Only.bind {p : Prog ρ ε α} {f : α → Prog ρ ε β} (hp : p.Only φ) (hf : ∀ a, (f a).Only φ) :
    (p >>= f).Only φ := by
  induction p with
  | ret a => exact hf a
  | fail e => trivial
  | call c next ih => exact ⟨hp.1, fun x => ih x (hp.2 x)⟩

theorem Prog.Only.attempt {p : Prog ρ ε α} (hp : p.Only φ) :
    (p.attempt : Prog ρ ε' (Except ε α)).Only φ := by
  induction p with
  | ret a => trivial
  | fail e => trivial
  | call c next ih => exact ⟨hp.1, fun x => ih x (hp.2 x)⟩

theorem Prog.Only.onFailure {p : Prog ρ ε α} {cleanup : Prog ρ ε Unit} (hp : p.Only φ)
    (hcleanup : cleanup.Only φ) : (p.onFailure cleanup).Only φ := by
  refine Only.bind hp.attempt fun
    | .ok a => only_ret a
    | .error e => Only.bind hcleanup fun _ => only_fail e

theorem Prog.Only.mono {φ' : κ → Prop} {p : Prog ρ ε α} (hp : p.Only φ) (h : ∀ c, φ c → φ' c) :
    p.Only φ' := by
  induction p with
  | ret a => trivial
  | fail e => trivial
  | call c next ih => exact ⟨h c hp.1, fun x => ih x (hp.2 x)⟩

/-- What every call of the program keeps, the program keeps. -/
theorem Prog.Only.meets {sys : System ρ σ} {I : σ → Prop} {p : Prog ρ ε α} (hp : p.Only φ)
    (hkeeps : ∀ c s, φ c → I s → I (sys c s).2) {s : σ} (hs : I s) :
    Meets sys p s (fun _ s' => I s') (fun _ s' => I s') := by
  induction p generalizing s with
  | ret a => exact hs
  | fail e => exact hs
  | call c next ih => exact ih _ (hp.2 _) (hkeeps c s hp.1 hs)

theorem Prog.Gives.bind {χ : α → Prop} {ψ : β → Prop} {p : Prog ρ ε α} {f : α → Prog ρ ε β}
    (hp : p.Gives χ) (hf : ∀ a, χ a → (f a).Gives ψ) : (p >>= f).Gives ψ := by
  induction p with
  | ret a => exact hf a hp
  | fail e => trivial
  | call c next ih => exact fun x => ih x (hp x)

theorem Prog.gives_true (p : Prog ρ ε α) : p.Gives fun _ => True := by
  induction p with
  | ret a => trivial
  | fail e => trivial
  | call c next ih => exact fun x => ih x

theorem Prog.Only.bind_gives {χ : α → Prop} {p : Prog ρ ε α} {f : α → Prog ρ ε β} (hp : p.Only φ)
    (hgives : p.Gives χ) (hf : ∀ a, χ a → (f a).Only φ) : (p >>= f).Only φ := by
  induction p with
  | ret a => exact hf a hgives
  | fail e => trivial
  | call c next ih => exact ⟨hp.1, fun x => ih x (hp.2 x) (hgives x)⟩

theorem Prog.FailsOnly.bind {p : Prog ρ ε α} {f : α → Prog ρ ε β} (hp : p.FailsOnly ψ)
    (hf : ∀ a, (f a).FailsOnly ψ) : (p >>= f).FailsOnly ψ := by
  induction p with
  | ret a => exact hf a
  | fail e => exact hp
  | call c next ih => exact fun x => ih x (hp x)

theorem Prog.FailsOnly.meets {sys : System ρ σ} {p : Prog ρ ε α} (hp : p.FailsOnly ψ) (s : σ) :
    Meets sys p s (fun _ _ => True) (fun e _ => ψ e) := by
  induction p generalizing s with
  | ret a => trivial
  | fail e => exact hp
  | call c next ih => exact ih _ (hp _) _

/-- What a program gives, it returns. -/
theorem Prog.Gives.meets {sys : System ρ σ} {χ : α → Prop} {p : Prog ρ ε α} (hp : p.Gives χ) (s : σ) :
    Meets sys p s (fun a _ => χ a) (fun _ _ => True) := by
  induction p generalizing s with
  | ret a => exact hp
  | fail e => trivial
  | call c next ih => exact ih _ (hp _) _

/-- An attempt does not fail. -/
theorem Prog.failsOnly_attempt (p : Prog ρ ε α) {ψ : ε' → Prop} :
    (p.attempt : Prog ρ ε' (Except ε α)).FailsOnly ψ := by
  induction p with
  | ret a => trivial
  | fail e => trivial
  | call c next ih => exact fun x => ih x

/-- The failures of a program and of what comes behind it. -/
theorem meets_checked {sys : System ρ σ} {p : Prog ρ ε α} {f : α → Prog ρ ε β} {s : σ}
    {R : α → σ → Prop} {Q : σ → Prop} {E : ε → σ → Prop} (hp : Meets sys p s R fun _ => Q)
    (hf : ∀ a s', R a s' → Meets sys (f a) s' (fun _ _ => True) E) :
    Meets sys (p >>= f) s (fun _ _ => True) fun e s' =>
      (p.run sys s).1.isOk = false ∧ Q s' ∨ (p.run sys s).1.isOk = true ∧ E e s' := by
  unfold Meets at *
  rw [run_bind]
  rcases hrun : p.run sys s with ⟨e | a, s'⟩
  · rw [hrun] at hp
    exact Or.inl ⟨rfl, hp⟩
  · rw [hrun] at hp
    have hrest := hf a s' hp
    rcases hnext : (f a).run sys s' with ⟨_ | _, s''⟩
    · rw [hnext] at hrest
      simpa only [hnext] using Or.inr ⟨rfl, hrest⟩
    · simp only [hnext]

end Footprint

section Histories

variable {τ : Type}

/-- The states that steps lead to, each of which is taken in a state that it has a property with. -/
inductive Reaches (next : σ → τ → σ) (C : σ → τ → Prop) (start : σ) : σ → Prop
  | start : Reaches next C start start
  | next {s : σ} {a : τ} (h : Reaches next C start s) (hstep : C s a) : Reaches next C start (next s a)

/-- What every step keeps holds in every state that is reached. -/
theorem Reaches.invariant {next : σ → τ → σ} {C : σ → τ → Prop} {I : σ → Prop} {start s : σ}
    (h : Reaches next C start s) (hstart : I start)
    (hkeeps : ∀ s a, I s → C s a → I (next s a)) : I s := by
  induction h with
  | start => exact hstart
  | next _ hstep ih => exact hkeeps _ _ ih hstep

theorem Reaches.trans {next : σ → τ → σ} {C : σ → τ → Prop} {start s s' : σ}
    (h : Reaches next C start s) (h' : Reaches next C s s') : Reaches next C start s' := by
  induction h' with
  | start => exact h
  | next _ hstep ih => exact ih.next hstep

/-- The steps of a list, of which nothing is asked. -/
theorem reaches_foldl (next : σ → τ → σ) (start : σ) (run : List τ) :
    Reaches next (fun _ _ => True) start (run.foldl next start) := by
  induction run generalizing start with
  | nil => exact .start
  | cons a run ih => exact (Reaches.start.next trivial).trans (ih (next start a))

end Histories

end S3s.Programs
