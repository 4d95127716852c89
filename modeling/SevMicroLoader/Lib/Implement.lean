import SevMicroLoader.Lib.Prog

/-!
# Calls that are made by programs

`implement impl p` is the program `p` with each call `e` made by the program `impl e` over another
interface. Its runs are the runs of `p` with a run of the implementation in the place of each call
(`runs_implement_iff`), if an implementation only stops short where its call never returns. So
what holds of every run of `p` holds of every run of the implemented program.

## Main definitions

* `Prog.implement` — a program with its calls implemented.
* `Prog.Realises` — a trace with the traces of the implementations in it.
-/

namespace Prog
variable {ε ε' : Type} {ρ : ε → Type} {ρ' : ε' → Type} {α : Type}
  {impl : (e : ε) → Prog ε' ρ' (ρ e)}

/-- The program with each of its calls made by a program. -/
def implement (impl : (e : ε) → Prog ε' ρ' (ρ e)) : Prog ε ρ α → Prog ε' ρ' α
  | .ret a => .ret a
  | .call e k => impl e >>= fun r => implement impl (k r)

/-- The second trace has, for each call of the first, a run of its implementation. -/
inductive Realises (impl : (e : ε) → Prog ε' ρ' (ρ e)) :
    List (Event ε ρ) → List (Event ε' ρ') → Prop
  | nil : Realises impl [] []
  | reply {e : ε} {r : ρ e} {t : List (Event ε ρ)} {u u' : List (Event ε' ρ')}
      (h : Runs (impl e) u (some r)) (ht : Realises impl t u') :
      Realises impl (⟨e, some r⟩ :: t) (u ++ u')
  | halt {e : ε} {u : List (Event ε' ρ')} (h : Runs (impl e) u none) :
      Realises impl [⟨e, none⟩] u

/-- A run of an implemented program is a run of the program. -/
theorem Runs.of_implement (himpl : ∀ e u, Runs (impl e) u none → IsEmpty (ρ e)) {p : Prog ε ρ α}
    {u : List (Event ε' ρ')} {o : Option α} (h : Runs (p.implement impl) u o) :
    ∃ t, Runs p t o ∧ Realises impl t u := by
  induction p generalizing u with
  | ret a =>
      obtain ⟨rfl, rfl⟩ := Runs.of_pure h
      exact ⟨[], .ret a, .nil⟩
  | call e k ih =>
      rcases Runs.of_bind h with ⟨u₁, r, u₂, rfl, hcall, hrest⟩ | ⟨hstop, rfl⟩
      · obtain ⟨t, hrun, hreal⟩ := ih r hrest
        exact ⟨_, .reply r hrun, .reply hcall hreal⟩
      · exact ⟨_, .halt (himpl e u hstop), .halt hstop⟩

theorem Runs.implement {p : Prog ε ρ α} {t : List (Event ε ρ)} {u : List (Event ε' ρ')}
    {o : Option α} (h : Runs p t o) (ht : Realises impl t u) : Runs (p.implement impl) u o := by
  induction h generalizing u with
  | ret a =>
      cases ht
      exact .ret a
  | reply r _ ih =>
      cases ht with
      | reply hcall hrest => exact hcall.bind (ih hrest)
  | halt he =>
      cases ht with
      | halt hstop => exact hstop.bind_halted

/-- **The runs of an implemented program** are those of the program, call by call. -/
theorem runs_implement_iff (himpl : ∀ e u, Runs (impl e) u none → IsEmpty (ρ e))
    {p : Prog ε ρ α} {u : List (Event ε' ρ')} {o : Option α} :
    Runs (p.implement impl) u o ↔ ∃ t, Runs p t o ∧ Realises impl t u := by
  refine ⟨fun h => h.of_implement himpl, ?_⟩
  rintro ⟨t, hrun, hreal⟩
  exact hrun.implement hreal

/-- Behind every reply stands a run of the implementation. -/
theorem Realises.of_mem {t : List (Event ε ρ)} {u : List (Event ε' ρ')} (h : Realises impl t u)
    {e : ε} {r : ρ e} (hmem : ⟨e, some r⟩ ∈ t) :
    ∃ u₁ v u₂, u = u₁ ++ v ++ u₂ ∧ Runs (impl e) v (some r) := by
  induction h with
  | nil => exact absurd hmem List.not_mem_nil
  | @reply e' r' t u u' hcall _ ih =>
      rcases List.mem_cons.mp hmem with heq | hmem
      · cases heq
        exact ⟨[], u, u', rfl, hcall⟩
      · obtain ⟨u₁, v, u₂, rfl, hrun⟩ := ih hmem
        exact ⟨u ++ u₁, v, u₂, by simp only [List.append_assoc], hrun⟩
  | halt _ => cases List.mem_singleton.mp hmem

/-- A single call stops short only where it never returns. -/
theorem Runs.isEmpty_of_perform {e : ε'} {u : List (Event ε' ρ')}
    (h : Runs (perform e : Prog ε' ρ' (ρ' e)) u none) : IsEmpty (ρ' e) := by
  rcases h.of_call with ⟨r, u', -, hret⟩ | ⟨he, -⟩
  · cases hret
  · exact he

/-- An invariant that every implementation keeps, with its calls as they may be. -/
theorem holds_implement {σ : Type} {next : σ → (e : ε') → ρ' e → σ} {P : σ → ε' → Prop}
    {I : σ → Prop} (h : ∀ e s, I s → Holds next P (fun s' _ => I s') (impl e) s)
    (p : Prog ε ρ α) {s : σ} (hs : I s) :
    Holds next P (fun s' _ => I s') (p.implement impl) s := by
  induction p generalizing s with
  | ret a => exact hs
  | call e k ih => exact (h e s hs).bind fun s' r hs' => ih r hs'

end Prog
