import Mathlib.Order.BoundedOrder.Lattice
import Mathlib.Data.List.Range

/-!
# Metered fallible computations

A `Metered ε μ α` either stops with an `ε` or returns an `α`, and carries a meter
reading in a join semilattice with a least element. Sequencing joins the readings,
so a reading bounds every measurement made along the way, including the ones made
before a stop. The value part is an ordinary `Except`; `val_bind` and
`val_bind_of_ok` let a proof about results ignore the meter.

## Main definitions

* `Metered.stop`, `Metered.record` — stop, or record one measurement.
* `Metered.collect` — a counted loop that pushes one element per index.
* `Metered.forallLoop` — a counted loop that leaves at the first failed test.
* `Metered.Within` — the triple of a computation: its meter, its stops and its results.
-/

/-- A result or a stop, with the join of the measurements made on the way. -/
structure Metered (ε μ α : Type) where
  val : Except ε α
  meter : μ

namespace Metered
variable {ε μ α β : Type} [SemilatticeSup μ] [OrderBot μ]

/-- Return a value without measuring anything. -/
def pure (a : α) : Metered ε μ α := ⟨.ok a, ⊥⟩

/-- Stop; the continuation does not run. -/
def stop (e : ε) : Metered ε μ α := ⟨.error e, ⊥⟩

/-- Record one measurement. -/
def record (m : μ) : Metered ε μ Unit := ⟨.ok (), m⟩

/-- Run the continuation on a returned value and join the readings. -/
def bind (x : Metered ε μ α) (f : α → Metered ε μ β) : Metered ε μ β :=
  match x.val with
  | .error e => ⟨.error e, x.meter⟩
  | .ok a => ⟨(f a).val, x.meter ⊔ (f a).meter⟩

instance : Monad (Metered ε μ) where
  pure := pure
  bind := bind

@[simp] theorem val_pure (a : α) : (Pure.pure a : Metered ε μ α).val = .ok a := rfl
@[simp] theorem val_stop (e : ε) : (stop e : Metered ε μ α).val = .error e := rfl
omit [SemilatticeSup μ] [OrderBot μ] in
@[simp] theorem val_record (m : μ) : (record m : Metered ε μ Unit).val = .ok () := rfl

/-- The value part of a sequence is the sequence of the value parts. -/
theorem val_bind (x : Metered ε μ α) (f : α → Metered ε μ β) :
    (x >>= f).val = x.val.bind fun a => (f a).val := by
  change (bind x f).val = _
  unfold bind
  cases x.val <;> rfl

theorem val_bind_of_ok {x : Metered ε μ α} {a : α} (h : x.val = .ok a)
    (f : α → Metered ε μ β) : (x >>= f).val = (f a).val := by
  rw [val_bind, h]
  rfl

theorem val_map_of_ok {x : Metered ε μ α} {a : α} (h : x.val = .ok a) (f : α → β) :
    (f <$> x).val = .ok (f a) := val_bind_of_ok h _

/-- A sequence returns exactly when its head returns and the continuation does. -/
theorem val_bind_eq_ok {x : Metered ε μ α} {f : α → Metered ε μ β} {b : β} :
    (x >>= f).val = .ok b ↔ ∃ a, x.val = .ok a ∧ (f a).val = .ok b := by
  rw [val_bind]
  cases x.val <;> simp [Except.bind]

/-! ## Counted loops -/

/-- Push `f i`, `f (i + 1)`, …, `f (i + k - 1)`. -/
def collectFrom (f : ℕ → Metered ε μ α) : ℕ → ℕ → Metered ε μ (List α)
  | _, 0 => Pure.pure []
  | i, k + 1 => do
      let a ← f i
      let as ← collectFrom f (i + 1) k
      Pure.pure (a :: as)

/-- `for i in 0..n { out.push(f(i)) }`. -/
def collect (n : ℕ) (f : ℕ → Metered ε μ α) : Metered ε μ (List α) := collectFrom f 0 n

theorem val_collectFrom {f : ℕ → Metered ε μ α} {g : ℕ → α} :
    ∀ k i, (∀ j, i ≤ j → j < i + k → (f j).val = .ok (g j)) →
      (collectFrom f i k).val = .ok ((List.range' i k).map g) := by
  intro k
  induction k with
  | zero => intro i _; rfl
  | succ k ih =>
      intro i h
      have htail : (collectFrom f (i + 1) k).val = .ok ((List.range' (i + 1) k).map g) :=
        ih (i + 1) fun j hj hjk => h j (by omega) (by omega)
      rw [collectFrom, val_bind_of_ok (h i le_rfl (by omega)), val_bind_of_ok htail]
      rfl

/-- A loop whose bodies all return is the list of their values. -/
theorem val_collect {n : ℕ} {f : ℕ → Metered ε μ α} {g : ℕ → α}
    (h : ∀ i < n, (f i).val = .ok (g i)) :
    (collect n f).val = .ok ((List.range n).map g) := by
  rw [collect, val_collectFrom n 0 fun j _ hj => h j (by omega), List.range_eq_range']

/-- Test `f i`, …, `f (i + k - 1)` and leave at the first that fails. -/
def forallFrom (f : ℕ → Metered ε μ Bool) : ℕ → ℕ → Metered ε μ Bool
  | _, 0 => Pure.pure true
  | i, k + 1 => do
      let b ← f i
      if b then forallFrom f (i + 1) k else Pure.pure false

/-- `for i in 0..n { if !f(i) { return } }`: whether every test passed. -/
def forallLoop (n : ℕ) (f : ℕ → Metered ε μ Bool) : Metered ε μ Bool := forallFrom f 0 n

theorem val_forallFrom {f : ℕ → Metered ε μ Bool} {p : ℕ → Prop} [DecidablePred p] :
    ∀ k i, (∀ j, i ≤ j → j < i + k → (f j).val = .ok (decide (p j))) →
      (forallFrom f i k).val = .ok (decide (∀ j, i ≤ j → j < i + k → p j)) := by
  intro k
  induction k with
  | zero =>
      intro i _
      have hall : ∀ j, i ≤ j → j < i + 0 → p j := by omega
      rw [decide_eq_true hall]
      rfl
  | succ k ih =>
      intro i h
      rw [forallFrom, val_bind_of_ok (h i le_rfl (by omega))]
      by_cases hp : p i
      · have htail := ih (i + 1) fun j hj hjk => h j (by omega) (by omega)
        simp only [hp, decide_true, if_true, htail]
        congr 2
        refine propext ⟨fun hall j hj hjk => ?_, fun hall j hj hjk => hall j (by omega) (by omega)⟩
        rcases Nat.eq_or_lt_of_le hj with rfl | hlt
        · exact hp
        · exact hall j hlt (by omega)
      · have hnot : ¬ ∀ j, i ≤ j → j < i + (k + 1) → p j := fun hall =>
          hp (hall i le_rfl (by omega))
        simp [hp, hnot]

/-- A loop of tests that all return decides whether every index passes. -/
theorem val_forallLoop {n : ℕ} {f : ℕ → Metered ε μ Bool} {p : ℕ → Prop} [DecidablePred p]
    (h : ∀ i < n, (f i).val = .ok (decide (p i))) :
    (forallLoop n f).val = .ok (decide (∀ i < n, p i)) := by
  rw [forallLoop, val_forallFrom n 0 fun j _ hj => h j (by omega)]
  simp

/-! ## Triples -/

/-- The meter of `x` stays below `u`, it stops only in `E` and returns only results in `Q`. -/
structure Within (u : μ) (E : ε → Prop) (Q : α → Prop) (x : Metered ε μ α) : Prop where
  meter : x.meter ≤ u
  stop : ∀ e, x.val = .error e → E e
  result : ∀ a, x.val = .ok a → Q a

section Within
variable {u : μ} {E : ε → Prop} {P : α → Prop} {Q : β → Prop} {x : Metered ε μ α}

theorem within_pure {a : α} (h : P a) : Within u E P (Pure.pure a : Metered ε μ α) where
  meter := bot_le
  stop := nofun
  result _ ha := by cases ha; exact h

theorem within_stop {e : ε} (h : E e) : Within u E P (stop e : Metered ε μ α) where
  meter := bot_le
  stop _ he := by cases he; exact h
  result := nofun

omit [OrderBot μ] in
theorem within_record {m : μ} (h : m ≤ u) :
    Within u E (fun _ => True) (record m : Metered ε μ Unit) where
  meter := h
  stop := nofun
  result _ _ := trivial

theorem Within.bind {f : α → Metered ε μ β} (hx : Within u E P x)
    (hf : ∀ a, P a → Within u E Q (f a)) : Within u E Q (x >>= f) := by
  change Within u E Q (Metered.bind x f)
  unfold Metered.bind
  cases hv : x.val with
  | error e => exact ⟨hx.meter, fun _ he => by cases he; exact hx.stop e hv, nofun⟩
  | ok a =>
      have ha := hf a (hx.result a hv)
      exact ⟨sup_le hx.meter ha.meter, ha.stop, ha.result⟩

theorem Within.map {f : α → β} (hx : Within u E P x) (hf : ∀ a, P a → Q (f a)) :
    Within u E Q (f <$> x) := hx.bind fun a ha => within_pure (hf a ha)

omit [OrderBot μ] in
theorem Within.mono {u' : μ} {E' : ε → Prop} {P' : α → Prop} (hx : Within u E P x) (hu : u ≤ u')
    (hE : ∀ e, E e → E' e) (hP : ∀ a, P a → P' a) : Within u' E' P' x where
  meter := hx.meter.trans hu
  stop e he := hE e (hx.stop e he)
  result a ha := hP a (hx.result a ha)

omit [OrderBot μ] in
theorem Within.imp {P' : α → Prop} (hx : Within u E P x) (hP : ∀ a, P a → P' a) :
    Within u E P' x := hx.mono le_rfl (fun _ he => he) hP

omit [OrderBot μ] in
/-- A computation that is known to return needs a bound on its meter only. -/
theorem Within.of_ok {a : α} (hx : Within u (fun _ => True) (fun _ => True) x)
    (ha : x.val = .ok a) (hP : P a) : Within u E P x where
  meter := hx.meter
  stop e he := by rw [ha] at he; cases he
  result b hb := by rw [ha] at hb; cases hb; exact hP

omit [OrderBot μ] in
/-- A computation with no stop left returns. -/
theorem Within.exists_ok (hx : Within u (fun _ => False) P x) : ∃ a, x.val = .ok a ∧ P a := by
  cases hv : x.val with
  | error e => exact (hx.stop e hv).elim
  | ok a => exact ⟨a, rfl, hx.result a hv⟩

theorem within_collectFrom {f : ℕ → Metered ε μ α} :
    ∀ k i, (∀ j, i ≤ j → j < i + k → Within u E P (f j)) →
      Within u E (fun as => as.length = k ∧ ∀ a ∈ as, P a) (collectFrom f i k) := by
  intro k
  induction k with
  | zero =>
      intro i _
      exact within_pure ⟨rfl, by simp⟩
  | succ k ih =>
      intro i h
      refine (h i le_rfl (by omega)).bind fun a ha => ?_
      refine (ih (i + 1) fun j hj hjk => h j (by omega) (by omega)).bind fun as has => ?_
      refine within_pure ⟨by rw [List.length_cons, has.1], ?_⟩
      intro b hb
      rcases List.mem_cons.mp hb with rfl | hb
      · exact ha
      · exact has.2 b hb

/-- A counted loop keeps what every round keeps. -/
theorem within_collect {n : ℕ} {f : ℕ → Metered ε μ α} (h : ∀ i < n, Within u E P (f i)) :
    Within u E (fun as => as.length = n ∧ ∀ a ∈ as, P a) (collect n f) :=
  within_collectFrom n 0 fun j _ hj => h j (by omega)

theorem within_forallFrom {f : ℕ → Metered ε μ Bool} :
    ∀ k i, (∀ j, i ≤ j → j < i + k → Within u E (fun _ => True) (f j)) →
      Within u E (fun _ => True) (forallFrom f i k) := by
  intro k
  induction k with
  | zero => exact fun i _ => within_pure trivial
  | succ k ih =>
      intro i h
      refine (h i le_rfl (by omega)).bind fun b _ => ?_
      cases b with
      | false => exact within_pure trivial
      | true => exact ih (i + 1) fun j hj hjk => h j (by omega) (by omega)

theorem within_forallLoop {n : ℕ} {f : ℕ → Metered ε μ Bool}
    (h : ∀ i < n, Within u E (fun _ => True) (f i)) :
    Within u E (fun _ => True) (forallLoop n f) :=
  within_forallFrom n 0 fun j _ hj => h j (by omega)

end Within

end Metered
