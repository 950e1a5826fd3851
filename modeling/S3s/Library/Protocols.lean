import S3s.Library.Interleaving

/-! # Programs that keep to a protocol

A program has a share in the system, which says what it may call. What it is answered it may rely on, as
long as the others keep to the protocol too. The shares and the system are bound together by an invariant,
which every call that is allowed keeps.
-/
namespace S3s.Programs
open Prog

variable {κ : Type} {ρ : κ → Type} {ε ε' α β σ ι τ S : Type}

/-- By its share: what a program may call, what it is answered then, and what its share is behind the
call. -/
structure Protocol {κ : Type} (ρ : κ → Type) (S : Type) where
  may : S → κ → Prop
  answers : S → (c : κ) → ρ c → Prop
  next : S → (c : κ) → ρ c → S

/-- The program keeps to the protocol, and ends with `Q` or `E`. -/
def Prog.Follows (P : Protocol ρ S) : Prog ρ ε α → S → (α → S → Prop) → (ε → S → Prop) → Prop
  | ret a, s, Q, _ => Q a s
  | fail e, s, _, E => E e s
  | call c next, s, Q, E => P.may s c ∧ ∀ x, P.answers s c x → (next x).Follows P (P.next s c x) Q E

variable {P : Protocol ρ S} {s : S} {Q : α → S → Prop} {E : ε → S → Prop}

theorem Prog.Follows.mono {p : Prog ρ ε α} {Q' : α → S → Prop} {E' : ε → S → Prop} (h : p.Follows P s Q E)
    (hQ : ∀ a s', Q a s' → Q' a s') (hE : ∀ e s', E e s' → E' e s') : p.Follows P s Q' E' := by
  induction p generalizing s with
  | ret a => exact hQ a s h
  | fail e => exact hE e s h
  | call c next ih => exact ⟨h.1, fun x hx => ih x (h.2 x hx)⟩

theorem Prog.Follows.bind {p : Prog ρ ε α} {f : α → Prog ρ ε β} {Q' : β → S → Prop} {E' : ε → S → Prop}
    (hp : p.Follows P s Q E) (hf : ∀ a s', Q a s' → (f a).Follows P s' Q' E')
    (hE : ∀ e s', E e s' → E' e s') : (p >>= f).Follows P s Q' E' := by
  induction p generalizing s with
  | ret a => exact hf a s hp
  | fail e => exact hE e s hp
  | call c next ih => exact ⟨hp.1, fun x hx => ih x (hp.2 x hx)⟩

theorem Prog.Follows.attempt {p : Prog ρ ε α} {Q' : Except ε α → S → Prop} {E' : ε' → S → Prop}
    (hp : p.Follows P s (fun a => Q' (.ok a)) fun e => Q' (.error e)) :
    (p.attempt : Prog ρ ε' (Except ε α)).Follows P s Q' E' := by
  induction p generalizing s with
  | ret a => exact hp
  | fail e => exact hp
  | call c next ih => exact ⟨hp.1, fun x hx => ih x (hp.2 x hx)⟩

/-- By the outcome of a program. -/
def byOutcome (Q : α → S → Prop) (F : ε → S → Prop) : Except ε α → S → Prop
  | .ok a => Q a
  | .error e => F e

theorem Prog.Follows.onFailure {p : Prog ρ ε α} {cleanup : Prog ρ ε Unit} {F : ε → S → Prop}
    (hp : p.Follows P s Q F) (hcleanup : ∀ e s', F e s' → cleanup.Follows P s' (fun _ => E e) E) :
    (p.onFailure cleanup).Follows P s Q E := by
  have hattempt : (p.attempt : Prog ρ ε (Except ε α)).Follows P s (byOutcome Q F) fun _ _ => False :=
    Prog.Follows.attempt hp
  refine hattempt.bind ?_ fun _ _ h => h.elim
  intro x s' h
  cases x with
  | ok a => exact h
  | error e => exact (hcleanup e s' h).bind (fun _ _ h => h) fun _ _ h => h

theorem Prog.Follows.and_gives {χ : α → Prop} {p : Prog ρ ε α} (h : p.Follows P s Q E) (hp : p.Gives χ) :
    p.Follows P s (fun a s' => Q a s' ∧ χ a) E := by
  induction p generalizing s with
  | ret a => exact ⟨h, hp⟩
  | fail e => exact h
  | call c next ih => exact ⟨h.1, fun x hx => ih x (h.2 x hx) (hp x)⟩

/-- A program whose calls are all allowed with a share, and leave it as it is. -/
theorem Prog.Only.follows {φ : κ → Prop} {p : Prog ρ ε α} (hp : p.Only φ)
    (hmay : ∀ c, φ c → P.may s c ∧ ∀ x, P.next s c x = s) :
    p.Follows P s (fun _ s' => s' = s) fun _ s' => s' = s := by
  induction p with
  | ret a => rfl
  | fail e => rfl
  | call c next ih =>
    refine ⟨(hmay c hp.1).1, fun x _ => ?_⟩
    rw [(hmay c hp.1).2 x]
    exact ih x (hp.2 x)

section Runs

variable [DecidableEq ι] {sys : τ → System ρ σ} {I : σ → (ι → S) → Prop}

/-- Every call that is allowed is answered as the protocol says, and keeps the invariant. -/
def Protocol.KeptBy (P : Protocol ρ S) (sys : τ → System ρ σ) (I : σ → (ι → S) → Prop) : Prop :=
  ∀ t c w shares i, I w shares → P.may (shares i) c →
    P.answers (shares i) c (sys t c w).1 ∧
      I (sys t c w).2 (Function.update shares i (P.next (shares i) c (sys t c w).1))

/-- Programs that keep to a protocol, each with a share, go on to do so, in whichever order they make their
calls. -/
theorem follows_of_reaches (hkept : P.KeptBy sys I) {C : Running ι ρ ε α σ → ι × τ → Prop}
    {programs : ι → Prog ρ ε α} {w : σ} {x : Running ι ρ ε α σ}
    (h : Reaches (Running.next sys) C (.start programs w) x) {Q : ι → α → S → Prop} {E : ι → ε → S → Prop}
    {shares : ι → S} (hI : I w shares) (hprograms : ∀ i, (programs i).Follows P (shares i) (Q i) (E i)) :
    ∃ shares, I x.state shares ∧ ∀ i, (x.left i).Follows P (shares i) (Q i) (E i) := by
  refine h.invariant (I := fun x => ∃ shares, I x.state shares ∧
    ∀ i, (x.left i).Follows P (shares i) (Q i) (E i)) ⟨shares, hI, hprograms⟩ ?_
  rintro x a ⟨shares, hI, hfollows⟩ -
  rcases @next_cases _ _ _ _ _ _ _ _ sys x a with ⟨hsame, -⟩ | ⟨c, next, hleft, -, hnext⟩
  · rw [hsame]
    exact ⟨shares, hI, hfollows⟩
  · have hcall := hfollows a.1
    rw [hleft] at hcall
    obtain ⟨hanswers, hI'⟩ := hkept a.2 c x.state shares a.1 hI hcall.1
    rw [hnext]
    refine ⟨_, hI', fun i => ?_⟩
    by_cases hi : i = a.1
    · subst hi
      simp only [Function.update_self]
      exact hcall.2 _ hanswers
    · simp only [Function.update_of_ne hi]
      exact hfollows i

end Runs

end S3s.Programs
