import Mathlib.Order.Defs.PartialOrder
import SevMicroLoader.Lib.Prog

/-!
# Programs that go through stages

Some calls of a program belong to numbered stages (`rank`). A program `Ascends` from `lo` to `hi`
when the stages of its calls lie in between and never go back. The judgement composes, and in every
run of an ascending program the stages are in order (`Ascends.sound`).
-/

namespace Prog
variable {ε : Type} {ρ : ε → Type} {α β : Type} {rank : ε → Option ℕ} {lo mid hi n : ℕ}

/-- Every call is at a stage from `lo` to `hi`, or at none, and no call behind it goes back. -/
def Ascends (rank : ε → Option ℕ) (hi : ℕ) : ℕ → Prog ε ρ α → Prop
  | _, .ret _ => True
  | lo, .call e k =>
      (∀ n, rank e = some n → lo ≤ n ∧ n ≤ hi) ∧ ∀ r, Ascends rank hi ((rank e).getD lo) (k r)

/-- The calls of one stage, and those of none. -/
def AtStage (rank : ε → Option ℕ) (n : ℕ) (e : ε) : Prop := ∀ m, rank e = some m → m = n

theorem ascends_pure (a : α) : Ascends rank hi lo (Pure.pure a : Prog ε ρ α) := trivial

theorem Ascends.mono {p : Prog ε ρ α} {lo' : ℕ} (hp : Ascends rank hi lo p) (hlo : lo' ≤ lo) :
    Ascends rank hi lo' p := by
  induction p generalizing lo lo' with
  | ret a => trivial
  | call e k ih =>
      refine ⟨fun m hm => ?_, fun r => ih r (hp.2 r) ?_⟩
      · exact ⟨Nat.le_trans hlo (hp.1 m hm).1, (hp.1 m hm).2⟩
      · cases rank e with
        | none => exact hlo
        | some m => exact Nat.le_refl m

/-- What comes next begins where the first part ends. -/
theorem Ascends.bind {p : Prog ε ρ α} {f : α → Prog ε ρ β} (hp : Ascends rank mid lo p)
    (hf : ∀ a, Ascends rank hi mid (f a)) (hlo : lo ≤ mid) (hhi : mid ≤ hi) :
    Ascends rank hi lo (p >>= f) := by
  induction p generalizing lo with
  | ret a => exact (hf a).mono hlo
  | call e k ih =>
      refine ⟨fun m hm => ?_, fun r => ih r (hp.2 r) ?_⟩
      · exact ⟨(hp.1 m hm).1, Nat.le_trans (hp.1 m hm).2 hhi⟩
      · cases hrank : rank e with
        | none => exact hlo
        | some m => exact (hp.1 m hrank).2

/-- A part within one stage, and what comes next. -/
theorem Only.ascends_bind {p : Prog ε ρ α} {f : α → Prog ε ρ β} (hp : Only (AtStage rank n) p)
    (hf : ∀ a, Ascends rank hi n (f a)) (hlo : lo ≤ n) (hhi : n ≤ hi) :
    Ascends rank hi lo (p >>= f) := by
  refine Ascends.bind ?_ hf hlo hhi
  clear hf
  induction p generalizing lo with
  | ret a => trivial
  | call e k ih =>
      refine ⟨fun m hm => ?_, fun r => ih r (hp.2 r) ?_⟩
      · cases hp.1 m hm
        exact ⟨hlo, Nat.le_refl _⟩
      · cases hrank : rank e with
        | none => exact hlo
        | some m => exact Nat.le_of_eq (hp.1 m hrank)

/-- A part within one stage that comes last. -/
theorem Only.ascends {p : Prog ε ρ α} (hp : Only (AtStage rank n) p) : Ascends rank n n p := by
  rw [← bind_pure p]
  exact hp.ascends_bind ascends_pure (Nat.le_refl n) (Nat.le_refl n)

theorem Ascends.only {p : Prog ε ρ α} (hp : Ascends rank hi lo p) :
    Only (fun e => ∀ n, rank e = some n → n ≤ hi) p := by
  induction p generalizing lo with
  | ret a => trivial
  | call e k ih => exact ⟨fun n hn => (hp.1 n hn).2, fun r => ih r (hp.2 r)⟩

theorem Ascends.embed {ε' : Type} {ρ' : ε' → Type} {rank : ε' → Option ℕ} {f : ε → ε'}
    {p : Prog ε (fun e => ρ' (f e)) α} (hp : Ascends (fun e => rank (f e)) hi lo p) :
    Ascends rank hi lo (p.embed f) := by
  induction p generalizing lo with
  | ret a => trivial
  | call e k ih => exact ⟨hp.1, fun r => ih r (hp.2 r)⟩

/-- The stages of a trace. -/
def stages (rank : ε → Option ℕ) (t : List (Event ε ρ)) : List ℕ := t.filterMap fun x => rank x.1

theorem stages_cons (x : Event ε ρ) (t : List (Event ε ρ)) :
    stages rank (x :: t) = (rank x.1).toList ++ stages rank t := by
  rw [stages, List.filterMap_cons]
  cases rank x.1 <;> rfl

/-- **The stages of a run are in order**, from the first to the last. -/
theorem Ascends.sound {p : Prog ε ρ α} {t : List (Event ε ρ)} {o : Option α}
    (hp : Ascends rank hi lo p) (hrun : Runs p t o) :
    (stages rank t).Pairwise (· ≤ ·) ∧ ∀ n ∈ stages rank t, lo ≤ n ∧ n ≤ hi := by
  induction hrun generalizing lo with
  | ret a => exact ⟨List.Pairwise.nil, fun n hn => absurd hn List.not_mem_nil⟩
  | @reply e k t o r _ ih =>
      obtain ⟨hcall, hk⟩ := hp
      obtain ⟨hpairwise, hrest⟩ := ih (hk r)
      rw [stages_cons]
      cases hrank : rank e with
      | none =>
          rw [hrank, Option.getD_none] at hrest
          exact ⟨hpairwise, hrest⟩
      | some n =>
          rw [hrank, Option.getD_some] at hrest
          obtain ⟨hlo, hhi⟩ := hcall n hrank
          refine ⟨List.pairwise_cons.mpr ⟨fun m hm => (hrest m hm).1, hpairwise⟩,
            List.forall_mem_cons.mpr ⟨⟨hlo, hhi⟩, ?_⟩⟩
          exact fun m hm => ⟨Nat.le_trans hlo (hrest m hm).1, (hrest m hm).2⟩
  | @halt e k he =>
      rw [stages_cons]
      cases hrank : rank e with
      | none => exact ⟨List.Pairwise.nil, fun n hn => absurd hn List.not_mem_nil⟩
      | some n => exact ⟨List.pairwise_singleton _ _, List.forall_mem_singleton.mpr (hp.1 n hrank)⟩

end Prog
