import Mathlib.Data.List.Basic

/-!
# Programs that call an environment

A `Prog ε ρ α` returns an `α` or makes a call `e : ε` and continues with any reply the
environment chooses from `ρ e`. A call whose reply type is empty never returns. `Runs`
relates a program to the traces it can leave and to its result, over all environments.

`Holds` is the program logic: a state follows the trace, and a judgement gives
a condition on the state at every call and one on the result. `Holds.sound` turns a
judgement about a program into facts about every point of every run.

## Main definitions

* `Prog`, `Prog.perform` — programs and single calls.
* `Prog.Runs` — traces and results under every environment.
* `Prog.Holds` — call conditions and a postcondition, along a state.
* `Prog.AtMost` — programs whose calls are bounded.
* `Prog.embed` — a program within a larger interface.
* `Prog.exec` — the run under one given environment.
-/

/-- A program over calls `e : ε` with replies in `ρ e`. -/
inductive Prog (ε : Type) (ρ : ε → Type) (α : Type) : Type
  | ret (a : α)
  | call (e : ε) (k : ρ e → Prog ε ρ α)

namespace Prog
variable {ε : Type} {ρ : ε → Type} {α β γ σ : Type}

/-- A call with its reply, if the environment ever replies. -/
abbrev Event (ε : Type) (ρ : ε → Type) := (e : ε) × Option (ρ e)

/-- Make one call. -/
def perform (e : ε) : Prog ε ρ (ρ e) := .call e .ret

def bind : Prog ε ρ α → (α → Prog ε ρ β) → Prog ε ρ β
  | .ret a, f => f a
  | .call e k, f => .call e fun r => bind (k r) f

instance : Monad (Prog ε ρ) where
  pure := ret
  bind := bind

theorem map_id (p : Prog ε ρ α) : id <$> p = p := by
  induction p with
  | ret a => rfl
  | call e k ih => exact congrArg (call e) (funext ih)

theorem bind_bind (p : Prog ε ρ α) (f : α → Prog ε ρ β) (g : β → Prog ε ρ γ) :
    p >>= f >>= g = p >>= fun a => f a >>= g := by
  induction p with
  | ret a => rfl
  | call e k ih => exact congrArg (call e) (funext ih)

instance : LawfulMonad (Prog ε ρ) := LawfulMonad.mk' _ map_id (fun _ _ => rfl) bind_bind

/-! ## Runs -/

/-- The traces and results of a program. A run stops short of a result only at a call that no
environment can reply to. -/
inductive Runs : Prog ε ρ α → List (Event ε ρ) → Option α → Prop
  | ret (a : α) : Runs (.ret a) [] (some a)
  | reply {e : ε} {k : ρ e → Prog ε ρ α} {t : List (Event ε ρ)} {o : Option α} (r : ρ e)
      (h : Runs (k r) t o) : Runs (.call e k) (⟨e, some r⟩ :: t) o
  | halt {e : ε} {k : ρ e → Prog ε ρ α} (h : IsEmpty (ρ e)) : Runs (.call e k) [⟨e, none⟩] none

/-- A run without a result ends in a call that never returns. -/
theorem Runs.halted {p : Prog ε ρ α} {t : List (Event ε ρ)} (h : Runs p t none) :
    ∃ t₁ e, IsEmpty (ρ e) ∧ t = t₁ ++ [⟨e, none⟩] := by
  generalize ho : (none : Option α) = o at h
  induction h with
  | ret a => cases ho
  | reply r _ ih =>
      obtain ⟨t₁, e, he, rfl⟩ := ih ho
      exact ⟨_ :: t₁, e, he, rfl⟩
  | halt he => exact ⟨[], _, he, rfl⟩

/-- Every call of a run with a result was replied to. -/
theorem Runs.replied {p : Prog ε ρ α} {t : List (Event ε ρ)} {a : α} (h : Runs p t (some a)) :
    ∀ x ∈ t, x.2 ≠ none := by
  generalize ho : some a = o at h
  induction h with
  | ret b => exact fun x hx => absurd hx List.not_mem_nil
  | reply r _ ih => exact List.forall_mem_cons.mpr ⟨Option.some_ne_none r, ih ho⟩
  | halt he => cases ho

theorem Runs.of_pure {a : α} {t : List (Event ε ρ)} {o : Option α}
    (h : Runs (Pure.pure a : Prog ε ρ α) t o) : t = [] ∧ o = some a := by
  cases h
  exact ⟨rfl, rfl⟩

/-- A run of a call goes on with a reply, or stops at the call. -/
theorem Runs.of_call {e : ε} {k : ρ e → Prog ε ρ α} {t : List (Event ε ρ)} {o : Option α}
    (h : Runs (.call e k) t o) :
    (∃ r t', t = ⟨e, some r⟩ :: t' ∧ Runs (k r) t' o) ∨
      IsEmpty (ρ e) ∧ t = [⟨e, none⟩] ∧ o = none := by
  cases h with
  | reply r h => exact .inl ⟨r, _, rfl, h⟩
  | halt he => exact .inr ⟨he, rfl, rfl⟩

/-- A call that has a reply gets one. -/
theorem Runs.of_replied {e : ε} {k : ρ e → Prog ε ρ α} {t : List (Event ε ρ)} {o : Option α}
    (r₀ : ρ e) (h : Runs (.call e k) t o) : ∃ r t', t = ⟨e, some r⟩ :: t' ∧ Runs (k r) t' o := by
  rcases h.of_call with hreply | ⟨he, -⟩
  · exact hreply
  · exact he.elim r₀

/-- A call that has a reply, with a result behind it. -/
theorem Runs.of_replied_pure {e : ε} {f : ρ e → α} {t : List (Event ε ρ)} {o : Option α} (r₀ : ρ e)
    (h : Runs (.call e fun r => Pure.pure (f r)) t o) :
    ∃ r, t = [⟨e, some r⟩] ∧ o = some (f r) := by
  obtain ⟨r, t', rfl, hret⟩ := h.of_replied r₀
  obtain ⟨rfl, rfl⟩ := hret.of_pure
  exact ⟨r, rfl, rfl⟩

/-- A run of a sequence is a run of the first part and one of the second, or stops in the first. -/
theorem Runs.of_bind {p : Prog ε ρ α} {f : α → Prog ε ρ β} {t : List (Event ε ρ)} {o : Option β}
    (h : Runs (p >>= f) t o) :
    (∃ t₁ a t₂, t = t₁ ++ t₂ ∧ Runs p t₁ (some a) ∧ Runs (f a) t₂ o) ∨
      Runs p t none ∧ o = none := by
  induction p generalizing t with
  | ret a => exact .inl ⟨[], a, t, rfl, .ret a, h⟩
  | call e k ih =>
      rcases Runs.of_call (k := fun r => k r >>= f) h with ⟨r, t', rfl, hr⟩ | ⟨he, rfl, rfl⟩
      · rcases ih r hr with ⟨t₁, a, t₂, rfl, h₁, h₂⟩ | ⟨hstop, rfl⟩
        · exact .inl ⟨_, a, t₂, rfl, .reply r h₁, h₂⟩
        · exact .inr ⟨.reply r hstop, rfl⟩
      · exact .inr ⟨.halt he, rfl⟩

theorem Runs.bind {p : Prog ε ρ α} {f : α → Prog ε ρ β} {t₁ t₂ : List (Event ε ρ)} {a : α}
    {o : Option β} (h₁ : Runs p t₁ (some a)) (h₂ : Runs (f a) t₂ o) :
    Runs (p >>= f) (t₁ ++ t₂) o := by
  generalize ho : some a = o₁ at h₁
  induction h₁ with
  | ret b =>
      cases ho
      exact h₂
  | reply r _ ih => exact .reply r (ih ho)
  | halt he => cases ho

/-- A sequence stops where its first part does. -/
theorem Runs.bind_halted {p : Prog ε ρ α} {f : α → Prog ε ρ β} {t : List (Event ε ρ)}
    (h : Runs p t none) : Runs (p >>= f) t none := by
  generalize ho : (none : Option α) = o at h
  induction h with
  | ret a => cases ho
  | reply r _ ih => exact .reply r (ih ho)
  | halt he => exact .halt he

/-- What a run of a sequence does behind a run of the first part. -/
theorem Runs.of_bind_append {p : Prog ε ρ α} {f : α → Prog ε ρ β} {t₁ t₂ : List (Event ε ρ)}
    {a : α} {o : Option β} (h₁ : Runs p t₁ (some a)) (h : Runs (p >>= f) (t₁ ++ t₂) o) :
    Runs (f a) t₂ o := by
  generalize ho : some a = o₁ at h₁
  induction h₁ with
  | ret b =>
      cases ho
      exact h
  | @reply e k t o₁ r _ ih =>
      obtain ⟨r', t', ht, hrest⟩ := Runs.of_replied (k := fun r => k r >>= f) r h
      cases ht
      exact ih hrest ho
  | halt he => cases ho

theorem Runs.call {e : ε} {r : ρ e} {f : ρ e → Prog ε ρ α} {t : List (Event ε ρ)} {o : Option α}
    (h : Runs (f r) t o) : Runs (perform e >>= f) (⟨e, some r⟩ :: t) o := .reply r h

/-- **One environment, one run.** Two runs whose traces start one list of events are the same. -/
theorem Runs.unique {p : Prog ε ρ α} {t t' u : List (Event ε ρ)} {o o' : Option α}
    (h : Runs p t o) (h' : Runs p t' o') (ht : t <+: u) (ht' : t' <+: u) : t = t' ∧ o = o' := by
  induction h generalizing t' u with
  | ret a =>
      cases h'
      exact ⟨rfl, rfl⟩
  | @reply e k t o r h ih =>
      obtain ⟨u₁, rfl, hrest⟩ := List.cons_prefix_iff.mp ht
      obtain ⟨r', t'', rfl, hr'⟩ := h'.of_replied r
      obtain ⟨heq, hrest'⟩ := List.cons_prefix_cons.mp ht'
      cases heq
      obtain ⟨rfl, rfl⟩ := ih hr' hrest hrest'
      exact ⟨rfl, rfl⟩
  | halt he =>
      rcases Runs.of_call h' with ⟨r', -⟩ | ⟨-, rfl, rfl⟩
      · exact he.elim r'
      · exact ⟨rfl, rfl⟩

/-- Some run returns `a`. -/
def Returns (p : Prog ε ρ α) (a : α) : Prop := ∃ t, Runs p t (some a)

theorem returns_pure (a : α) : Returns (Pure.pure a : Prog ε ρ α) a := ⟨[], .ret a⟩

theorem Returns.bind {p : Prog ε ρ α} {f : α → Prog ε ρ β} {a : α} {b : β} (hp : Returns p a)
    (hf : Returns (f a) b) : Returns (p >>= f) b := by
  obtain ⟨t₁, h₁⟩ := hp
  obtain ⟨t₂, h₂⟩ := hf
  exact ⟨t₁ ++ t₂, h₁.bind h₂⟩

theorem Returns.call {e : ε} {f : ρ e → Prog ε ρ α} {a : α} (r : ρ e) (h : Returns (f r) a) :
    Returns (perform e >>= f) a := by
  obtain ⟨t, hrun⟩ := h
  exact ⟨⟨e, some r⟩ :: t, hrun.call⟩

theorem returns_perform {e : ε} (r : ρ e) : Returns (perform e : Prog ε ρ (ρ e)) r :=
  ⟨[⟨e, some r⟩], .reply r (.ret r)⟩

/-! ## The program logic -/

/-- Follow a trace with a state; a call that is never replied to leaves it. -/
def after (next : σ → (e : ε) → ρ e → σ) (s : σ) (t : List (Event ε ρ)) : σ :=
  t.foldl (fun s x => match x with
    | ⟨e, some r⟩ => next s e r
    | ⟨_, none⟩ => s) s

variable {next : σ → (e : ε) → ρ e → σ} {P : σ → ε → Prop}

@[simp] theorem after_nil (s : σ) : after next s ([] : List (Event ε ρ)) = s := rfl

@[simp] theorem after_cons_some (s : σ) (e : ε) (r : ρ e) (t : List (Event ε ρ)) :
    after next s (⟨e, some r⟩ :: t) = after next (next s e r) t := rfl

@[simp] theorem after_cons_none (s : σ) (e : ε) (t : List (Event ε ρ)) :
    after next s (⟨e, none⟩ :: t) = after next s t := rfl

@[simp] theorem after_append (s : σ) (t t' : List (Event ε ρ)) :
    after next s (t ++ t') = after next (after next s t) t' := List.foldl_append

/-- Every call meets its condition `P` on the state, and every result meets `Q`. -/
def Holds (next : σ → (e : ε) → ρ e → σ) (P : σ → ε → Prop) (Q : σ → α → Prop) :
    Prog ε ρ α → σ → Prop
  | .ret a, s => Q s a
  | .call e k, s => P s e ∧ ∀ r, Holds next P Q (k r) (next s e r)

@[simp] theorem holds_call {Q : σ → α → Prop} {e : ε} {k : ρ e → Prog ε ρ α} {s : σ} :
    Holds next P Q (.call e k) s ↔ P s e ∧ ∀ r, Holds next P Q (k r) (next s e r) := Iff.rfl

@[simp] theorem holds_pure {Q : σ → α → Prop} {a : α} {s : σ} :
    Holds next P Q (Pure.pure a : Prog ε ρ α) s ↔ Q s a := Iff.rfl

/-- The sequencing rule. -/
theorem holds_bind {Q : σ → β → Prop} {p : Prog ε ρ α} {f : α → Prog ε ρ β} {s : σ} :
    Holds next P Q (p >>= f) s ↔
      Holds next P (fun s a => Holds next P Q (f a) s) p s := by
  induction p generalizing s with
  | ret a => rfl
  | call e k ih => exact and_congr_right fun _ => forall_congr' fun r => ih r

/-- The rule for a call whose reply the rest goes on with. -/
theorem holds_perform_bind {Q : σ → α → Prop} {e : ε} {f : ρ e → Prog ε ρ α} {s : σ} :
    Holds next P Q (perform e >>= f) s ↔ P s e ∧ ∀ r, Holds next P Q (f r) (next s e r) := Iff.rfl

/-- The rule for a branch. -/
theorem holds_ite {Q : σ → α → Prop} {c : Prop} [Decidable c] {p q : Prog ε ρ α} {s : σ} :
    Holds next P Q (if c then p else q) s ↔
      (c → Holds next P Q p s) ∧ (¬ c → Holds next P Q q s) := by
  by_cases h : c
  · rw [if_pos h]
    exact ⟨fun hp => ⟨fun _ => hp, fun hn => absurd h hn⟩, fun hpq => hpq.1 h⟩
  · rw [if_neg h]
    exact ⟨fun hq => ⟨fun hc => absurd hc h, fun _ => hq⟩, fun hpq => hpq.2 h⟩

/-- The consequence rule. -/
theorem Holds.mono {Q Q' : σ → α → Prop} {p : Prog ε ρ α} {s : σ} (h : Holds next P Q p s)
    (hQ : ∀ s a, Q s a → Q' s a) : Holds next P Q' p s := by
  induction p generalizing s with
  | ret a => exact hQ s a h
  | call e k ih => exact ⟨h.1, fun r => ih r (h.2 r)⟩

/-- The sequencing rule, with a condition in between. -/
theorem Holds.bind {Q : σ → β → Prop} {R : σ → α → Prop} {p : Prog ε ρ α} {f : α → Prog ε ρ β}
    {s : σ} (hp : Holds next P R p s) (hf : ∀ s a, R s a → Holds next P Q (f a) s) :
    Holds next P Q (p >>= f) s :=
  holds_bind.mpr (hp.mono hf)

/-- **Soundness.** In every run, each call meets its condition at its point of the trace, and the
result meets the postcondition. -/
theorem Holds.sound {Q : σ → α → Prop} {p : Prog ε ρ α} {s : σ} {t : List (Event ε ρ)}
    {o : Option α} (h : Holds next P Q p s) (hr : Runs p t o) :
    (∀ t₁ x t₂, t = t₁ ++ x :: t₂ → P (after next s t₁) x.1) ∧
      ∀ a, o = some a → Q (after next s t) a := by
  induction hr generalizing s with
  | ret a =>
      refine ⟨fun t₁ x t₂ ht => by simp at ht, fun b hb => ?_⟩
      cases hb
      exact h
  | @reply e k t o r _ ih =>
      obtain ⟨hcall, hk⟩ := h
      obtain ⟨hpoints, hresult⟩ := ih (hk r)
      refine ⟨fun t₁ x t₂ ht => ?_, hresult⟩
      cases t₁ with
      | nil =>
          cases ht
          exact hcall
      | cons y t₁ =>
          cases ht
          exact hpoints t₁ x t₂ rfl
  | @halt e k he =>
      refine ⟨fun t₁ x t₂ ht => ?_, fun a ha => by cases ha⟩
      cases t₁ with
      | nil =>
          cases ht
          exact h.1
      | cons y t₁ => simp at ht

/-- A program whose calls all have a reply returns. -/
theorem Holds.returns {Q : σ → α → Prop} {p : Prog ε ρ α} {s : σ} {t : List (Event ε ρ)}
    {o : Option α} (h : Holds next P Q p s) (hP : ∀ s e, P s e → Nonempty (ρ e))
    (hr : Runs p t o) : ∃ a, o = some a := by
  cases o with
  | some a => exact ⟨a, rfl⟩
  | none =>
      obtain ⟨t₁, e, he, rfl⟩ := hr.halted
      have hcall : P (after next s t₁) e := (h.sound hr).1 t₁ _ [] rfl
      exact (hP _ e hcall).elim he.elim

/-! ## Invariants and traces -/

/-- A judgement that restricts the calls and the result carries over to any other state, with an
invariant that the restricted calls keep. -/
theorem Holds.frame {τ : Type} {next' : τ → (e : ε) → ρ e → τ} {P' : τ → ε → Prop} {A : ε → Prop}
    {I : τ → Prop} {R : α → Prop} {p : Prog ε ρ α} {s : σ}
    (h : Holds next (fun _ e => A e) (fun _ a => R a) p s) (hP : ∀ s e, I s → A e → P' s e)
    (hnext : ∀ s e r, I s → A e → I (next' s e r)) {s' : τ} (hs : I s') :
    Holds next' P' (fun s' a => I s' ∧ R a) p s' := by
  induction p generalizing s s' with
  | ret a => exact ⟨hs, h⟩
  | call e k ih => exact ⟨hP s' e hs h.1, fun r => ih r (h.2 r) (hnext s' e r hs h.1)⟩

/-- A judgement carries over along a simulation of its state by another. -/
theorem Holds.simulate {τ : Type} {next' : τ → (e : ε) → ρ e → τ} {P' : τ → ε → Prop}
    {Q : σ → α → Prop} {Q' : τ → α → Prop} {R : σ → τ → Prop} {p : Prog ε ρ α} {s : σ} {s' : τ}
    (h : Holds next P Q p s) (hs : R s s')
    (hnext : ∀ s s' e r, R s s' → R (next s e r) (next' s' e r))
    (hP : ∀ s s' e, R s s' → P s e → P' s' e) (hQ : ∀ s s' a, R s s' → Q s a → Q' s' a) :
    Holds next' P' Q' p s' := by
  induction p generalizing s s' with
  | ret a => exact hQ s s' a hs h
  | call e k ih => exact ⟨hP s s' e hs h.1, fun r => ih r (h.2 r) (hnext s s' e r hs)⟩

/-- A judgement carries over to an image of the state. -/
theorem Holds.map {τ : Type} {next' : τ → (e : ε) → ρ e → τ} {P' : τ → ε → Prop}
    {Q : σ → α → Prop} {Q' : τ → α → Prop} {f : σ → τ} {p : Prog ε ρ α} {s : σ}
    (h : Holds next P Q p s) (hnext : ∀ s e r, next' (f s) e r = f (next s e r))
    (hP : ∀ s e, P s e → P' (f s) e) (hQ : ∀ s a, Q s a → Q' (f s) a) :
    Holds next' P' Q' p (f s) := by
  refine h.simulate (R := fun s s' => s' = f s) rfl ?_ ?_ ?_
  · rintro s _ e r rfl
    exact hnext s e r
  · rintro s _ e rfl
    exact hP s e
  · rintro s _ a rfl
    exact hQ s a

/-- Every call of the program is in `A`. -/
def Only (A : ε → Prop) : Prog ε ρ α → Prop
  | .ret _ => True
  | .call e k => A e ∧ ∀ r, Only A (k r)

section Only
variable {A B : ε → Prop}

theorem only_pure (a : α) : Only A (Pure.pure a : Prog ε ρ α) := trivial

theorem Only.bind {p : Prog ε ρ α} {f : α → Prog ε ρ β} (hp : Only A p)
    (hf : ∀ a, Only A (f a)) : Only A (p >>= f) := by
  induction p with
  | ret a => exact hf a
  | call e k ih => exact ⟨hp.1, fun r => ih r (hp.2 r)⟩

theorem Only.call {e : ε} {f : ρ e → Prog ε ρ α} (h : A e) (hf : ∀ r, Only A (f r)) :
    Only A (perform e >>= f) := ⟨h, hf⟩

theorem Only.mono {p : Prog ε ρ α} (hp : Only A p) (h : ∀ e, A e → B e) : Only B p := by
  induction p with
  | ret a => trivial
  | call e k ih => exact ⟨h e hp.1, fun r => ih r (hp.2 r)⟩

theorem only_true (p : Prog ε ρ α) : Only (fun _ => True) p := by
  induction p with
  | ret a => trivial
  | call e k ih => exact ⟨trivial, ih⟩

/-- Every call of a run is one of the allowed ones. -/
theorem Only.sound {p : Prog ε ρ α} {t : List (Event ε ρ)} {o : Option α} (hp : Only A p)
    (hr : Runs p t o) : ∀ x ∈ t, A x.1 := by
  induction hr with
  | ret a => exact fun x hx => absurd hx List.not_mem_nil
  | reply r _ ih => exact List.forall_mem_cons.mpr ⟨hp.1, ih (hp.2 r)⟩
  | halt he => exact List.forall_mem_singleton.mpr hp.1

/-- Calls that are allowed in an invariant, and keep it. -/
theorem Only.invariant {I : σ → Prop} {p : Prog ε ρ α} (hp : Only A p)
    (hP : ∀ s e, I s → A e → P s e) (hnext : ∀ s e r, I s → A e → I (next s e r)) {s : σ}
    (hs : I s) : Holds next P (fun s' _ => I s') p s := by
  induction p generalizing s with
  | ret a => exact hs
  | call e k ih => exact ⟨hP s e hs hp.1, fun r => ih r (hp.2 r) (hnext s e r hs hp.1)⟩

/-- Calls that are always allowed and change nothing leave the state as it is. -/
theorem Only.holds {p : Prog ε ρ α} (hp : Only A p) (hP : ∀ s e, A e → P s e)
    (hnext : ∀ s e r, A e → next s e r = s) (s : σ) : Holds next P (fun s' _ => s' = s) p s := by
  induction p generalizing s with
  | ret a => rfl
  | call e k ih =>
      refine ⟨hP s e hp.1, fun r => ?_⟩
      rw [hnext s e r hp.1]
      exact ih r (hp.2 r) s

end Only

theorem holds_trivial (p : Prog ε ρ α) (s : σ) :
    Holds next (fun _ _ => True) (fun _ _ => True) p s := by
  induction p generalizing s with
  | ret a => trivial
  | call e k ih => exact ⟨trivial, fun r => ih r _⟩

/-- The state that is the trace itself. -/
def record (h : List (Event ε ρ)) (e : ε) (r : ρ e) : List (Event ε ρ) := h ++ [⟨e, some r⟩]

theorem after_record {p : Prog ε ρ α} {t : List (Event ε ρ)} {a : α} (hr : Runs p t (some a))
    (h : List (Event ε ρ)) : after record h t = h ++ t := by
  generalize ho : some a = o at hr
  induction hr generalizing h with
  | ret b => simp
  | @reply e k t o r _ ih =>
      change after record (h ++ [⟨e, some r⟩]) t = _
      rw [ih _ ho, List.append_assoc, List.singleton_append]
  | halt he => cases ho

/-- Only a call that was never replied to is left out. -/
theorem after_record_subset (h t : List (Event ε ρ)) : after record h t ⊆ h ++ t := by
  induction t generalizing h with
  | nil => exact List.subset_append_left h []
  | cons x t ih =>
      obtain ⟨e, r⟩ := x
      cases r with
      | none =>
          rw [after_cons_none]
          exact List.Subset.trans (ih h) ((List.sublist_cons_self _ t).append_left h).subset
      | some r =>
          have hcut : h ++ ⟨e, some r⟩ :: t = record h e r ++ t := by
            rw [record, List.append_assoc, List.singleton_append]
          rw [after_cons_some, hcut]
          exact ih _

/-- With the trace for its state, a judgement may add that every result comes from a run. -/
theorem Holds.run {P : List (Event ε ρ) → ε → Prop} {Q : List (Event ε ρ) → α → Prop}
    {p : Prog ε ρ α} {h : List (Event ε ρ)} (hp : Holds record P Q p h) :
    Holds record P (fun h' a => Q h' a ∧ ∃ t, h' = h ++ t ∧ Runs p t (some a)) p h := by
  induction p generalizing h with
  | ret a => exact ⟨hp, [], (List.append_nil h).symm, .ret a⟩
  | call e k ih =>
      refine ⟨hp.1, fun r => (ih r (hp.2 r)).mono ?_⟩
      rintro h' a ⟨ha, t, rfl, hrun⟩
      exact ⟨ha, _, List.append_assoc h _ t, .reply r hrun⟩

/-! ## Bounded programs -/

/-- Every run makes at most `n` calls. -/
def AtMost : ℕ → Prog ε ρ α → Prop
  | _, .ret _ => True
  | 0, .call _ _ => False
  | n + 1, .call _ k => ∀ r, AtMost n (k r)

section AtMost
variable {m n : ℕ} {p : Prog ε ρ α}

theorem atMost_pure (n : ℕ) (a : α) : AtMost n (Pure.pure a : Prog ε ρ α) := by
  cases n <;> trivial

theorem AtMost.mono (h : AtMost m p) (hle : m ≤ n) : AtMost n p := by
  induction p generalizing m n with
  | ret a => exact atMost_pure n a
  | call e k ih =>
      cases m with
      | zero => exact h.elim
      | succ m =>
          obtain ⟨n, rfl⟩ := Nat.exists_eq_add_one_of_ne_zero (Nat.ne_of_gt (by omega : 0 < n))
          exact fun r => ih r (h r) (Nat.le_of_succ_le_succ hle)

theorem AtMost.bind {f : α → Prog ε ρ β} (hp : AtMost m p) (hf : ∀ a, AtMost n (f a)) :
    AtMost (m + n) (p >>= f) := by
  induction p generalizing m with
  | ret a => exact (hf a).mono (Nat.le_add_left n m)
  | call e k ih =>
      cases m with
      | zero => exact hp.elim
      | succ m =>
          rw [Nat.add_right_comm]
          exact fun r => ih r (hp r)

theorem AtMost.call {e : ε} {k : ρ e → Prog ε ρ α} (hk : ∀ r, AtMost n (k r)) :
    AtMost (n + 1) (.call e k) := hk

theorem AtMost.perform_bind {e : ε} {f : ρ e → Prog ε ρ α} (hf : ∀ r, AtMost n (f r)) :
    AtMost (n + 1) (perform e >>= f) := hf

theorem AtMost.ite {q : Prog ε ρ α} {b : Prop} [Decidable b] (hp : b → AtMost n p)
    (hq : ¬ b → AtMost n q) : AtMost n (if b then p else q) := by
  split
  · next hb => exact hp hb
  · next hb => exact hq hb

/-- A reply is one call less to make. -/
theorem AtMost.reply {e : ε} {k : ρ e → Prog ε ρ α} (h : AtMost n (.call e k)) (r : ρ e) :
    ∃ m, n = m + 1 ∧ AtMost m (k r) := by
  cases n with
  | zero => exact h.elim
  | succ m => exact ⟨m, rfl, h r⟩

theorem AtMost.length_le {t : List (Event ε ρ)} {o : Option α} (h : AtMost n p)
    (hr : Runs p t o) : t.length ≤ n := by
  induction hr generalizing n with
  | ret a => exact Nat.zero_le n
  | reply r _ ih =>
      obtain ⟨m, rfl, hm⟩ := h.reply r
      exact Nat.succ_le_succ (ih hm)
  | halt he =>
      cases n with
      | zero => exact h.elim
      | succ n => exact Nat.succ_le_succ (Nat.zero_le n)

end AtMost

/-! ## Larger interfaces -/

section Embed
variable {ε' : Type} {ρ' : ε' → Type}

/-- The program with its calls made as calls of a larger interface. -/
def embed (f : ε → ε') : Prog ε (fun e => ρ' (f e)) α → Prog ε' ρ' α
  | .ret a => .ret a
  | .call e k => .call (f e) fun r => embed f (k r)

/-- An embedded program is judged where it came from. -/
theorem holds_embed {next' : σ → (e : ε') → ρ' e → σ} {P' : σ → ε' → Prop}
    {Q : σ → α → Prop} {f : ε → ε'} {p : Prog ε (fun e => ρ' (f e)) α} {s : σ} :
    Holds next' P' Q (embed f p) s ↔
      Holds (fun s e r => next' s (f e) r) (fun s e => P' s (f e)) Q p s := by
  induction p generalizing s with
  | ret a => rfl
  | call e k ih => exact and_congr_right fun _ => forall_congr' fun r => ih r

theorem Only.embed {f : ε → ε'} {A : ε' → Prop} {p : Prog ε (fun e => ρ' (f e)) α}
    (h : Only (fun e => A (f e)) p) : Only A (p.embed f) := by
  induction p with
  | ret a => trivial
  | call e k ih => exact ⟨h.1, fun r => ih r (h.2 r)⟩

theorem only_embed {f : ε → ε'} {A : ε' → Prop} (h : ∀ e, A (f e))
    (p : Prog ε (fun e => ρ' (f e)) α) : Only A (p.embed f) :=
  ((only_true p).mono fun e _ => h e).embed

theorem AtMost.embed {f : ε → ε'} {n : ℕ} {p : Prog ε (fun e => ρ' (f e)) α} (h : AtMost n p) :
    AtMost n (p.embed f) := by
  induction p generalizing n with
  | ret a => exact atMost_pure n a
  | call e k ih =>
      cases n with
      | zero => exact h.elim
      | succ n => exact fun r => ih r (h r)

theorem Runs.embed {f : ε → ε'} {p : Prog ε (fun e => ρ' (f e)) α}
    {t : List (Event ε fun e => ρ' (f e))} {o : Option α} (h : Runs p t o) :
    Runs (p.embed f) (t.map fun x => ⟨f x.1, x.2⟩) o := by
  induction h with
  | ret a => exact .ret a
  | reply r _ ih => exact .reply r ih
  | halt he => exact .halt he

theorem Returns.embed {f : ε → ε'} {p : Prog ε (fun e => ρ' (f e)) α} {a : α}
    (h : Returns p a) : Returns (p.embed f) a := by
  obtain ⟨t, hrun⟩ := h
  exact ⟨_, hrun.embed⟩

end Embed

/-! ## Running under one environment -/

/-- The run under an environment that sees the trace so far. -/
def exec (env : List (Event ε ρ) → (e : ε) → Option (ρ e)) :
    Prog ε ρ α → List (Event ε ρ) → List (Event ε ρ) × Option α
  | .ret a, _ => ([], some a)
  | .call e k, past =>
      match env past e with
      | some r =>
          let rest := exec env (k r) (past ++ [⟨e, some r⟩])
          (⟨e, some r⟩ :: rest.1, rest.2)
      | none => ([⟨e, none⟩], none)

/-- An environment that replies wherever it can makes a run. -/
theorem runs_exec {env : List (Event ε ρ) → (e : ε) → Option (ρ e)}
    (henv : ∀ past e, env past e = none → IsEmpty (ρ e)) (p : Prog ε ρ α)
    (past : List (Event ε ρ)) : Runs p (exec env p past).1 (exec env p past).2 := by
  induction p generalizing past with
  | ret a => exact .ret a
  | call e k ih =>
      cases h : env past e with
      | some r =>
          simp only [exec, h]
          exact .reply r (ih r _)
      | none =>
          simp only [exec, h]
          exact .halt (henv past e h)

/-- What the run shows is what the environment replied. -/
theorem of_mem_exec {env : List (Event ε ρ) → (e : ε) → Option (ρ e)} {p : Prog ε ρ α}
    {past : List (Event ε ρ)} {e : ε} {r : ρ e} (h : ⟨e, some r⟩ ∈ (exec env p past).1) :
    ∃ past', env past' e = some r := by
  induction p generalizing past with
  | ret a => cases h
  | call e' k ih =>
      cases henv : env past e' with
      | some r' =>
          simp only [exec, henv] at h
          rcases List.mem_cons.mp h with heq | hmem
          · cases heq
            exact ⟨past, henv⟩
          · exact ih r' hmem
      | none =>
          simp only [exec, henv] at h
          cases List.mem_singleton.mp h

end Prog
