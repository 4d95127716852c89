import Mathlib.Logic.Relation
import SevMicroLoader.Lib.Prog

/-!
# Endless loops, and environments that move on their own

`rounds body n a` is the first `n` rounds of a loop without an end; what holds for every `n` holds
of the loop. An `Environment` has a state of its own: it moves between the calls of a program
(`tick`), and a reply depends on the state and changes it. `Guarded` is the program logic for such
an environment: a condition on the state at every call, whenever the environment lets the call
happen, and one at the result. `Guarded.sound` turns it into a fact about every reachable
configuration.

## Main definitions

* `Prog.rounds` — the first rounds of a loop.
* `Environment`, `Environment.Step`, `Environment.Reaches` — programs against an environment.
* `Environment.Guarded` — call conditions and a postcondition that hold whatever the environment
  does.
-/

namespace Prog
variable {ε : Type} {ρ : ε → Type} {α β τ : Type}

/-- The first `n` rounds of a loop that passes `a` from round to round. -/
def rounds (body : α → Prog ε ρ α) : ℕ → α → Prog ε ρ α
  | 0, a => pure a
  | n + 1, a => body a >>= rounds body n

/-! ## Environments -/

/-- What can happen between two calls, and which replies a call can get. -/
structure Environment (ε : Type) (ρ : ε → Type) (τ : Type) where
  tick : τ → τ → Prop
  reply : τ → (e : ε) → ρ e → τ → Prop

namespace Environment
variable {E : Environment ε ρ τ} {P : τ → ε → Prop} {p q : Prog ε ρ α} {s s' : τ}

/-- One step of a program and its environment. -/
inductive Step (E : Environment ε ρ τ) : Prog ε ρ α × τ → Prog ε ρ α × τ → Prop
  | tick (p : Prog ε ρ α) {s s' : τ} (h : E.tick s s') : Step E (p, s) (p, s')
  | reply {e : ε} (k : ρ e → Prog ε ρ α) {s s' : τ} {r : ρ e} (h : E.reply s e r s') :
      Step E (.call e k, s) (k r, s')

/-- Steps lead from one configuration to another. -/
def Reaches (E : Environment ε ρ τ) : Prog ε ρ α × τ → Prog ε ρ α × τ → Prop :=
  Relation.ReflTransGen E.Step

/-- The environment moves by itself. -/
def Moves (E : Environment ε ρ τ) : τ → τ → Prop := Relation.ReflTransGen E.tick

/-- What ticks keep, moves keep. -/
theorem Moves.invariant {I : τ → Prop} (htick : ∀ s s', I s → E.tick s s' → I s')
    (h : E.Moves s s') (hs : I s) : I s' := by
  induction h with
  | refl => exact hs
  | tail _ hstep ih => exact htick _ _ ih hstep

/-- Every call meets `P` in every state it can happen in, and every result meets `Q`. -/
def Guarded (E : Environment ε ρ τ) (P : τ → ε → Prop) (Q : τ → α → Prop) :
    Prog ε ρ α → τ → Prop
  | .ret a, s => Q s a
  | .call e k, s => ∀ s', E.Moves s s' →
      P s' e ∧ ∀ r s'', E.reply s' e r s'' → Guarded E P Q (k r) s''

/-- A step keeps what is left of a program guarded, if the environment cannot break the result. -/
theorem Guarded.step {Q : τ → α → Prop} (hQ : ∀ a s s', Q s a → E.tick s s' → Q s' a)
    {x y : Prog ε ρ α × τ} (h : E.Guarded P Q x.1 x.2) (hstep : E.Step x y) :
    E.Guarded P Q y.1 y.2 := by
  cases hstep with
  | tick p htick =>
      cases p with
      | ret a => exact hQ a _ _ h htick
      | call e k => exact fun s' hmoves => h s' (.head htick hmoves)
  | reply k hreply => exact (h _ .refl).2 _ _ hreply

theorem Guarded.reaches {Q : τ → α → Prop} (hQ : ∀ a s s', Q s a → E.tick s s' → Q s' a)
    {x y : Prog ε ρ α × τ} (h : E.Guarded P Q x.1 x.2) (hreach : E.Reaches x y) :
    E.Guarded P Q y.1 y.2 := by
  induction hreach with
  | refl => exact h
  | tail _ hstep ih => exact ih.step hQ hstep

/-- **Soundness.** In every reachable configuration, the call the program stands at meets its
condition, and a result meets the postcondition. -/
theorem Guarded.sound {Q : τ → α → Prop} (hQ : ∀ a s s', Q s a → E.tick s s' → Q s' a)
    (h : E.Guarded P Q p s) (hreach : E.Reaches (p, s) (q, s')) :
    (∀ e k, q = .call e k → P s' e) ∧ ∀ a, q = .ret a → Q s' a := by
  have hleft : E.Guarded P Q q s' := h.reaches hQ hreach
  constructor
  · rintro e k rfl
    exact (hleft s' .refl).1
  · rintro a rfl
    exact hleft

/-- The sequencing rule. -/
theorem Guarded.bind {Q : τ → β → Prop} {R : τ → α → Prop} {f : α → Prog ε ρ β}
    (hp : E.Guarded P R p s) (hf : ∀ s a, R s a → E.Guarded P Q (f a) s) :
    E.Guarded P Q (p >>= f) s := by
  induction p generalizing s with
  | ret a => exact hf s a hp
  | call e k ih =>
      intro s' hmoves
      exact ⟨(hp s' hmoves).1, fun r s'' hreply => ih r ((hp s' hmoves).2 r s'' hreply)⟩

/-- The loop rule. -/
theorem guarded_rounds {I : τ → α → Prop} {body : α → Prog ε ρ α}
    (hbody : ∀ s a, I s a → E.Guarded P I (body a) s) (n : ℕ) {a : α} (h : I s a) :
    E.Guarded P I (rounds body n a) s := by
  induction n generalizing s a with
  | zero => exact h
  | succ n ih => exact (hbody s a h).bind fun _ _ => ih

end Environment
end Prog
