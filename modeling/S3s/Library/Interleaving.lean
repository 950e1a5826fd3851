import S3s.Library.Programs

/-! # Programs side by side

Programs run on one system, a call of one of them at a time. The calls that were made are kept in a
history, the latest one first. What a program does whatever its calls are answered is said by an
automaton that reads its calls.
-/
namespace S3s.Programs
open Prog

variable {κ : Type} {ρ : κ → Type} {ε ε' α β σ ι τ S : Type}

/-- A call that was made, by whom, and how it was answered. -/
structure Event (ι : Type) (ρ : κ → Type) where
  actor : ι
  call : κ
  answer : ρ call

/-- A system, what is left of each program, and the calls that were made. -/
structure Running (ι : Type) (ρ : κ → Type) (ε α σ : Type) where
  state : σ
  left : ι → Prog ρ ε α
  history : List (Event ι ρ)

section Automata

/-- The program takes the automaton to a state with `Q` or `E`, whatever the answers are. -/
def Prog.Tracks (δ : S → (c : κ) → ρ c → S) : Prog ρ ε α → S → (α → S → Prop) → (ε → S → Prop) → Prop
  | ret a, s, Q, _ => Q a s
  | fail e, s, _, E => E e s
  | call c next, s, Q, E => ∀ x, (next x).Tracks δ (δ s c x) Q E

variable {δ : S → (c : κ) → ρ c → S} {s : S} {Q : α → S → Prop} {E : ε → S → Prop}

theorem Prog.Tracks.mono {p : Prog ρ ε α} {Q' : α → S → Prop} {E' : ε → S → Prop}
    (h : p.Tracks δ s Q E) (hQ : ∀ a s', Q a s' → Q' a s') (hE : ∀ e s', E e s' → E' e s') :
    p.Tracks δ s Q' E' := by
  induction p generalizing s with
  | ret a => exact hQ a s h
  | fail e => exact hE e s h
  | call c next ih => exact fun x => ih x (h x)

theorem Prog.Tracks.bind {p : Prog ρ ε α} {f : α → Prog ρ ε β} {Q' : β → S → Prop} {E' : ε → S → Prop}
    (hp : p.Tracks δ s Q E) (hf : ∀ a s', Q a s' → (f a).Tracks δ s' Q' E')
    (hE : ∀ e s', E e s' → E' e s') : (p >>= f).Tracks δ s Q' E' := by
  induction p generalizing s with
  | ret a => exact hf a s hp
  | fail e => exact hE e s hp
  | call c next ih => exact fun x => ih x (hp x)

theorem Prog.Tracks.attempt {p : Prog ρ ε α} {Q' : Except ε α → S → Prop} {E' : ε' → S → Prop}
    (hp : p.Tracks δ s (fun a => Q' (.ok a)) fun e => Q' (.error e)) :
    (p.attempt : Prog ρ ε' (Except ε α)).Tracks δ s Q' E' := by
  induction p generalizing s with
  | ret a => exact hp
  | fail e => exact hp
  | call c next ih => exact fun x => ih x (hp x)

theorem Prog.Tracks.onFailure {p : Prog ρ ε α} {cleanup : Prog ρ ε Unit} {E' : ε → S → Prop}
    (hp : p.Tracks δ s Q E') (hcleanup : ∀ e s', E' e s' → cleanup.Tracks δ s' (fun _ => E e) E) :
    (p.onFailure cleanup).Tracks δ s Q E := by
  let Q' (x : Except ε α) (s' : S) : Prop := (∀ a, x = .ok a → Q a s') ∧ ∀ e, x = .error e → E' e s'
  have hattempt : (p.attempt : Prog ρ ε (Except ε α)).Tracks δ s Q' fun _ _ => False := by
    apply Prog.Tracks.attempt
    refine hp.mono (fun a s' h => ⟨?_, ?_⟩) fun e s' h => ⟨?_, ?_⟩
    · rintro _ ⟨⟩
      exact h
    · rintro _ ⟨⟩
    · rintro _ ⟨⟩
    · rintro _ ⟨⟩
      exact h
  refine hattempt.bind ?_ fun _ _ h => h.elim
  rintro x s' ⟨hok, herror⟩
  cases x with
  | ok a => exact hok a rfl
  | error e => exact (hcleanup e s' (herror e rfl)).bind (fun _ _ h => h) fun _ _ h => h

/-- What every call of the program keeps, the program keeps. -/
theorem Prog.Only.tracks {φ : κ → Prop} {I : S → Prop} {p : Prog ρ ε α} (hp : p.Only φ)
    (hkeeps : ∀ c x s, φ c → I s → I (δ s c x)) (hs : I s) :
    p.Tracks δ s (fun _ => I) fun _ => I := by
  induction p generalizing s with
  | ret a => exact hs
  | fail e => exact hs
  | call c next ih => exact fun x => ih x (hp.2 x) (hkeeps c x s hp.1 hs)

theorem Prog.only_true (p : Prog ρ ε α) : p.Only fun _ => True := by
  induction p with
  | ret a => trivial
  | fail e => trivial
  | call c next ih => exact ⟨trivial, ih⟩

theorem Prog.tracks_true (p : Prog ρ ε α) (s : S) : p.Tracks δ s (fun _ _ => True) fun _ _ => True := by
  induction p generalizing s with
  | ret a => trivial
  | fail e => trivial
  | call c next ih => exact fun x => ih x _

theorem Prog.Tracks.and_gives {χ : α → Prop} {p : Prog ρ ε α} (h : p.Tracks δ s Q E) (hp : p.Gives χ) :
    p.Tracks δ s (fun a s' => χ a ∧ Q a s') E := by
  induction p generalizing s with
  | ret a => exact ⟨hp, h⟩
  | fail e => exact h
  | call c next ih => exact fun x => ih x (h x) (hp x)

end Automata

section Runs

variable [DecidableEq ι] (sys : τ → System ρ σ)

/-- What a program does next. -/
def Running.event (x : Running ι ρ ε α σ) (a : ι × τ) : Option (Event ι ρ) :=
  match x.left a.1 with
  | .call c _ => some ⟨a.1, c, (sys a.2 c x.state).1⟩
  | _ => none

/-- One program makes its next call. -/
def Running.next (x : Running ι ρ ε α σ) (a : ι × τ) : Running ι ρ ε α σ :=
  match x.left a.1 with
  | .call c next => ⟨(sys a.2 c x.state).2, Function.update x.left a.1 (next (sys a.2 c x.state).1),
      ⟨a.1, c, (sys a.2 c x.state).1⟩ :: x.history⟩
  | _ => x

/-- Programs that have made no calls. -/
def Running.start (programs : ι → Prog ρ ε α) (s : σ) : Running ι ρ ε α σ := ⟨s, programs, []⟩

/-- A program that has returned. -/
def Prog.isReturn : Prog ρ ε α → Bool
  | ret _ => true
  | _ => false

/-- A program that has returned or failed. -/
def Prog.isOver : Prog ρ ε α → Bool
  | call _ _ => false
  | _ => true

/-- The calls of one program, read by an automaton. -/
def trackOf (δ : S → (c : κ) → ρ c → S) (s : S) (i : ι) : List (Event ι ρ) → S
  | [] => s
  | e :: history =>
    if e.actor = i then δ (trackOf δ s i history) e.call e.answer else trackOf δ s i history

variable {sys} {x : Running ι ρ ε α σ} {a : ι × τ} {δ : S → (c : κ) → ρ c → S}

theorem next_cases : x.next sys a = x ∧ x.event sys a = none ∨
    ∃ c next, x.left a.1 = .call c next ∧
      x.event sys a = some ⟨a.1, c, (sys a.2 c x.state).1⟩ ∧
      x.next sys a = ⟨(sys a.2 c x.state).2, Function.update x.left a.1 (next (sys a.2 c x.state).1),
        ⟨a.1, c, (sys a.2 c x.state).1⟩ :: x.history⟩ := by
  unfold Running.next Running.event
  cases hleft : x.left a.1 with
  | ret a => exact Or.inl ⟨rfl, rfl⟩
  | fail e => exact Or.inl ⟨rfl, rfl⟩
  | call c next => exact Or.inr ⟨c, next, rfl, rfl, rfl⟩

/-- A program stays with what it was found to track at its start. -/
theorem tracks_of_reaches {C : Running ι ρ ε α σ → ι × τ → Prop} {programs : ι → Prog ρ ε α} {w : σ}
    (h : Reaches (Running.next sys) C (.start programs w) x) {i : ι} {s : S} {Q : α → S → Prop}
    {E : ε → S → Prop} (hi : (programs i).Tracks δ s Q E) :
    (x.left i).Tracks δ (trackOf δ s i x.history) Q E := by
  refine h.invariant (I := fun x => (x.left i).Tracks δ (trackOf δ s i x.history) Q E) hi ?_
  intro x a htracks _
  rcases @next_cases _ _ _ _ _ _ _ _ sys x a with ⟨hsame, -⟩ | ⟨c, next, hleft, -, hnext⟩
  · rw [hsame]
    exact htracks
  · rw [hnext]
    by_cases hi : a.1 = i
    · subst hi
      rw [hleft] at htracks
      simp only [trackOf, Function.update_self, if_pos]
      exact htracks _
    · simp only [trackOf, if_neg hi, Function.update_of_ne (Ne.symm hi)]
      exact htracks

/-- A program goes on making calls of the kind that it was found to make at its start. -/
theorem only_of_reaches {φ : κ → Prop} {C : Running ι ρ ε α σ → ι × τ → Prop} {programs : ι → Prog ρ ε α}
    {w : σ} (h : Reaches (Running.next sys) C (.start programs w) x) {i : ι} (hi : (programs i).Only φ) :
    (x.left i).Only φ := by
  refine h.invariant (I := fun x => (x.left i).Only φ) hi ?_
  intro x a honly _
  rcases @next_cases _ _ _ _ _ _ _ _ sys x a with ⟨hsame, -⟩ | ⟨c, next, hleft, -, hnext⟩
  · rw [hsame]
    exact honly
  · rw [hnext]
    by_cases hi : a.1 = i
    · subst hi
      rw [hleft] at honly
      simp only [Function.update_self]
      exact honly.2 _
    · simp only [Function.update_of_ne (Ne.symm hi)]
      exact honly

/-- What a program that has returned has tracked. -/
theorem tracked_of_return {C : Running ι ρ ε α σ → ι × τ → Prop} {programs : ι → Prog ρ ε α} {w : σ}
    (h : Reaches (Running.next sys) C (.start programs w) x) {i : ι} {s : S} {P : S → Prop}
    {E : ε → S → Prop} (hi : (programs i).Tracks δ s (fun _ => P) E) (hover : (x.left i).isReturn = true) :
    P (trackOf δ s i x.history) := by
  have htracks := tracks_of_reaches h hi
  cases hleft : x.left i with
  | ret a =>
    rw [hleft] at htracks
    exact htracks
  | fail e => rw [hleft] at hover; cases hover
  | call c next => rw [hleft] at hover; cases hover

/-- Steps each of which is allowed where it is taken. -/
def Allowed (next : σ → τ → σ) (C : σ → τ → Prop) : σ → List τ → Prop
  | _, [] => True
  | s, a :: run => C s a ∧ Allowed next C (next s a) run

instance decidableAllowed (next : σ → τ → σ) (C : σ → τ → Prop) [∀ s a, Decidable (C s a)] :
    ∀ s run, Decidable (Allowed next C s run)
  | _, [] => instDecidableTrue
  | s, a :: run =>
    haveI := decidableAllowed next C (next s a) run
    inferInstanceAs (Decidable (C s a ∧ Allowed next C (next s a) run))

theorem reaches_of_allowed {next : σ → τ → σ} {C : σ → τ → Prop} {s : σ} {run : List τ}
    (h : Allowed next C s run) : Reaches next C s (run.foldl next s) := by
  induction run generalizing s with
  | nil => exact .start
  | cons a run ih => exact (Reaches.start.next h.1).trans (ih h.2)

end Runs

end S3s.Programs
