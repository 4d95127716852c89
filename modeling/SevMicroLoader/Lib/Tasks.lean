import Mathlib.Data.Multiset.AddSub
import SevMicroLoader.Lib.Loop

/-!
# Tasks over a shared state

A `Pool` is any number of tasks over one shared state. A task is a program with what it holds; a
call of a task acts on the shared state and may give the task something to hold, and a task that is
done gives back what it holds, one thing after the other. A `System` is a pool with a main program
whose calls start tasks.

`Accounting` is the invariant rule: a relation between the shared state and what the tasks hold,
kept by each action of a single task that is judged by the program logic, holds in every
interleaving. A pool of programs whose calls are bounded comes to rest (`Work.le`), and at rest
nothing is held (`Resting.idle`).

## Main definitions

* `Prog.Sharing` — how tasks act on what they share.
* `Prog.droppable` — a task that may be dropped at any call.
* `Prog.Pool`, `Prog.System`, `Sharing.Step`, `Sharing.SystemStep` — all interleavings.
* `Sharing.Accounting` — what one action has to keep.
* `Sharing.Work`, `Sharing.Resting` — the actions of a pool, and a pool without any.
-/

namespace Prog
variable {ε ε₀ : Type} {ρ : ε → Type} {ρ₀ : ε₀ → Type} {α β κ τ : Type}

/-- How tasks act on a shared state `τ`, and what they hold (`κ`). -/
structure Sharing (ε : Type) (ρ : ε → Type) (κ τ : Type) where
  /-- The shared state moves by itself. -/
  tick : τ → τ → Prop
  reply : τ → (e : ε) → ρ e → τ → Prop
  /-- What a task holds after a reply. -/
  hold : κ → (e : ε) → ρ e → κ
  /-- A task that is done gives back one thing it holds. -/
  release : κ → τ → κ → τ → Prop

/-- A program that is left to run, and what it holds. -/
structure Task (ε : Type) (ρ : ε → Type) (α κ : Type) where
  left : Prog ε ρ α
  held : κ

/-- Tasks over one shared state. -/
structure Pool (ε : Type) (ρ : ε → Type) (α κ τ : Type) where
  tasks : List (Task ε ρ α κ)
  shared : τ

/-- A main program, and the tasks it started. -/
structure System (ε₀ : Type) (ρ₀ : ε₀ → Type) (β : Type) (ε : Type) (ρ : ε → Type)
    (α κ τ : Type) where
  main : Prog ε₀ ρ₀ β
  pool : Pool ε ρ α κ τ

/-- What the tasks of a pool hold, all together. -/
def Pool.holdings (c : Pool ε ρ α κ τ) : Multiset κ := (c.tasks.map Task.held : List κ)

/-! ## Tasks that may be dropped -/

/-- The program where any call may be dropped, and all that follows with it. -/
def droppable : Prog ε ρ α → Prog ε (fun e => Option (ρ e)) (Option α)
  | .ret a => .ret (some a)
  | .call e k => .call e fun r => r.elim (.ret none) fun r => droppable (k r)

/-- What is dropped has no result to answer for. -/
theorem Holds.droppable {σ : Type} {next : σ → (e : ε) → Option (ρ e) → σ} {P : σ → ε → Prop}
    {Q : σ → α → Prop} {Q' : σ → Option α → Prop} {p : Prog ε ρ α} {s : σ}
    (h : Holds (fun s e r => next s e (some r)) P Q p s) (hdone : ∀ s a, Q s a → Q' s (some a))
    (hdropped : ∀ s, Q' s none) : Holds next P Q' p.droppable s := by
  induction p generalizing s with
  | ret a => exact hdone s a h
  | call e k ih =>
      rw [Prog.droppable]
      refine ⟨h.1, fun r => ?_⟩
      cases r with
      | some r => exact ih r (h.2 r)
      | none => exact hdropped _

/-- A run where nothing is dropped. -/
theorem Runs.droppable {p : Prog ε ρ α} {t : List (Event ε ρ)} {a : α} (h : Runs p t (some a)) :
    Runs p.droppable (t.map fun x => ⟨x.1, x.2.map some⟩) (some (some a)) := by
  generalize ho : some a = o at h
  induction h with
  | ret b =>
      cases ho
      exact .ret _
  | @reply e k t o r _ ih =>
      have hrest := ih ho
      exact @Runs.reply _ (fun e => Option (ρ e)) _ e
        (fun r => r.elim (.ret none) fun r => (k r).droppable) _ _ (some r) hrest
  | halt he => cases ho

theorem AtMost.droppable {n : ℕ} {p : Prog ε ρ α} (h : AtMost n p) : AtMost n p.droppable := by
  induction p generalizing n with
  | ret a => exact atMost_pure n (some a)
  | call e k ih =>
      cases n with
      | zero => exact h.elim
      | succ n =>
          rw [Prog.droppable]
          intro r
          cases r with
          | some r => exact ih r (h r)
          | none => exact atMost_pure n none

namespace Sharing
variable {S : Sharing ε ρ κ τ} {P : κ → ε → Prop} {Q : κ → α → Prop} {I : τ → Multiset κ → Prop}
  {c c' : Pool ε ρ α κ τ}

/-- One action of one task. -/
inductive Act (S : Sharing ε ρ κ τ) : Pool ε ρ α κ τ → Pool ε ρ α κ τ → Prop
  | call {e : ε} {k : ρ e → Prog ε ρ α} {h : κ} {r : ρ e} {s s' : τ}
      (before after : List (Task ε ρ α κ)) (hreply : S.reply s e r s') :
      Act S ⟨before ++ ⟨.call e k, h⟩ :: after, s⟩ ⟨before ++ ⟨k r, S.hold h e r⟩ :: after, s'⟩
  | release {a : α} {h h' : κ} {s s' : τ} (before after : List (Task ε ρ α κ))
      (hrelease : S.release h s h' s') :
      Act S ⟨before ++ ⟨.ret a, h⟩ :: after, s⟩ ⟨before ++ ⟨.ret a, h'⟩ :: after, s'⟩

/-- One step of a pool. -/
inductive Step (S : Sharing ε ρ κ τ) : Pool ε ρ α κ τ → Pool ε ρ α κ τ → Prop
  | tick {ts : List (Task ε ρ α κ)} {s s' : τ} (h : S.tick s s') : Step S ⟨ts, s⟩ ⟨ts, s'⟩
  | act {c c' : Pool ε ρ α κ τ} (h : Act S c c') : Step S c c'

/-- One step of a system, where the call `e` of the main program starts the tasks `starts e`. -/
inductive SystemStep (S : Sharing ε ρ κ τ) (starts : ε₀ → List (Task ε ρ α κ)) :
    System ε₀ ρ₀ β ε ρ α κ τ → System ε₀ ρ₀ β ε ρ α κ τ → Prop
  | main {e : ε₀} {k : ρ₀ e → Prog ε₀ ρ₀ β} {ts : List (Task ε ρ α κ)} {s : τ} (r : ρ₀ e) :
      SystemStep S starts ⟨.call e k, ⟨ts, s⟩⟩ ⟨k r, ⟨ts ++ starts e, s⟩⟩
  | pool {m : Prog ε₀ ρ₀ β} {c c' : Pool ε ρ α κ τ} (h : S.Step c c') :
      SystemStep S starts ⟨m, c⟩ ⟨m, c'⟩

/-- Any number of steps. -/
def Reaches (S : Sharing ε ρ κ τ) : Pool ε ρ α κ τ → Pool ε ρ α κ τ → Prop :=
  Relation.ReflTransGen S.Step

/-- Any number of steps of a system. -/
def SystemReaches (S : Sharing ε ρ κ τ) (starts : ε₀ → List (Task ε ρ α κ)) :
    System ε₀ ρ₀ β ε ρ α κ τ → System ε₀ ρ₀ β ε ρ α κ τ → Prop :=
  Relation.ReflTransGen (S.SystemStep starts)

/-! ## Invariants -/

/-- Every task is judged where it stands, from what it holds. -/
def Judged (S : Sharing ε ρ κ τ) (P : κ → ε → Prop) (Q : κ → α → Prop)
    (ts : List (Task ε ρ α κ)) : Prop :=
  ∀ t ∈ ts, Holds S.hold P Q t.left t.held

/-- What one action has to keep, for `I` to relate the shared state to what is held. A call is only
made where the judgement allows it, and what a result needs is not given back. -/
structure Accounting (S : Sharing ε ρ κ τ) (P : κ → ε → Prop) (Q : κ → α → Prop)
    (I : τ → Multiset κ → Prop) : Prop where
  tick : ∀ {s s' m}, I s m → S.tick s s' → I s' m
  reply : ∀ {s e r s' h m}, I s (h ::ₘ m) → P h e → S.reply s e r s' →
    I s' (S.hold h e r ::ₘ m)
  release : ∀ {s s' h h' m}, I s (h ::ₘ m) → S.release h s h' s' → I s' (h' ::ₘ m)
  result : ∀ {a s s' h h'}, Q h a → S.release h s h' s' → Q h' a

theorem holdings_middle (before after : List (Task ε ρ α κ)) (t : Task ε ρ α κ) (s : τ) :
    Pool.holdings ⟨before ++ t :: after, s⟩ = t.held ::ₘ Pool.holdings ⟨before ++ after, s⟩ := by
  simp only [Pool.holdings, List.map_append, List.map_cons, Multiset.cons_coe]
  exact Multiset.coe_eq_coe.mpr List.perm_middle

theorem holdings_append (ts ts' : List (Task ε ρ α κ)) (s : τ) :
    Pool.holdings ⟨ts ++ ts', s⟩ = Pool.holdings ⟨ts, s⟩ + Pool.holdings ⟨ts', s⟩ := by
  simp only [Pool.holdings, List.map_append, Multiset.coe_add]

/-- What all elements have, all have with another one in one place. -/
theorem forall_mem_replace {δ : Type} {J : δ → Prop} {before after : List δ} {a b : δ}
    (h : ∀ x ∈ before ++ a :: after, J x) (hb : J b) : ∀ x ∈ before ++ b :: after, J x := by
  intro x hx
  rcases List.mem_append.mp hx with hx | hx
  · exact h x (List.mem_append_left _ hx)
  · rcases List.mem_cons.mp hx with rfl | hx
    · exact hb
    · exact h x (List.mem_append_right _ (List.mem_cons_of_mem _ hx))

theorem mem_middle {δ : Type} (before after : List δ) (a : δ) : a ∈ before ++ a :: after :=
  List.mem_append_right _ List.mem_cons_self

/-- **The step of the invariant rule.** -/
theorem Accounting.step (hI : Accounting S P Q I) (hstep : S.Step c c')
    (hc : Judged S P Q c.tasks ∧ I c.shared c.holdings) :
    Judged S P Q c'.tasks ∧ I c'.shared c'.holdings := by
  obtain ⟨hjudged, hacc⟩ := hc
  cases hstep with
  | tick h => exact ⟨hjudged, hI.tick hacc h⟩
  | act h =>
      cases h with
      | @call e k h r s s' before after hreply =>
          have ht : Holds S.hold P Q (.call e k) h := hjudged _ (mem_middle before after _)
          rw [holdings_middle] at hacc ⊢
          exact ⟨forall_mem_replace hjudged (ht.2 r), hI.reply hacc ht.1 hreply⟩
      | @release a h h' s s' before after hrelease =>
          have ht : Q h a := hjudged _ (mem_middle before after _)
          have ht' : Q h' a := hI.result ht hrelease
          rw [holdings_middle] at hacc ⊢
          exact ⟨forall_mem_replace hjudged ht', hI.release hacc hrelease⟩

/-- **The invariant rule** for a pool. -/
theorem Accounting.reaches (hI : Accounting S P Q I) (hreach : S.Reaches c c')
    (hc : Judged S P Q c.tasks ∧ I c.shared c.holdings) :
    Judged S P Q c'.tasks ∧ I c'.shared c'.holdings := by
  induction hreach with
  | refl => exact hc
  | tail _ hstep ih => exact hI.step hstep ih

/-- **The invariant rule** for a system. The tasks it starts are judged, and hold what counts as
nothing. -/
theorem Accounting.system_reaches {starts : ε₀ → List (Task ε ρ α κ)} {A : ε₀ → Prop}
    {x y : System ε₀ ρ₀ β ε ρ α κ τ} (hI : Accounting S P Q I)
    (hstarts : ∀ e, A e → Judged S P Q (starts e) ∧
      ∀ s m, I s m → I s (m + Pool.holdings ⟨starts e, s⟩))
    (hreach : S.SystemReaches starts x y) (hmain : Only A x.main)
    (hx : Judged S P Q x.pool.tasks ∧ I x.pool.shared x.pool.holdings) :
    Judged S P Q y.pool.tasks ∧ I y.pool.shared y.pool.holdings := by
  suffices h : Only A y.main ∧ Judged S P Q y.pool.tasks ∧ I y.pool.shared y.pool.holdings from h.2
  induction hreach with
  | refl => exact ⟨hmain, hx⟩
  | tail _ hstep ih =>
      obtain ⟨honly, hpool⟩ := ih
      cases hstep with
      | pool h => exact ⟨honly, hI.step h hpool⟩
      | @main e k ts s r =>
          obtain ⟨hjudged, hacc⟩ := hpool
          obtain ⟨hnew, hnothing⟩ := hstarts e honly.1
          refine ⟨honly.2 r, ?_, ?_⟩
          · intro t ht
            exact (List.mem_append.mp ht).elim (hjudged t) (hnew t)
          · rw [holdings_append]
            exact hnothing s _ hacc

/-! ## One task among others -/

/-- The replies of a trace may come, and `next` says what they make of the shared state. -/
def Permits (S : Sharing ε ρ κ τ) (next : τ → (e : ε) → ρ e → τ) : τ → List (Event ε ρ) → Prop
  | _, [] => True
  | s, ⟨e, some r⟩ :: t => S.reply s e r (next s e r) ∧ Permits S next (next s e r) t
  | s, ⟨_, none⟩ :: t => Permits S next s t

theorem permits_append {next : τ → (e : ε) → ρ e → τ} {s : τ} {t t' : List (Event ε ρ)} :
    S.Permits next s (t ++ t') ↔ S.Permits next s t ∧ S.Permits next (after next s t) t' := by
  induction t generalizing s with
  | nil => simp [Permits]
  | cons x t ih =>
      obtain ⟨e, r⟩ := x
      cases r with
      | none => exact ih
      | some r =>
          rw [List.cons_append, Permits, Permits, ih, and_assoc]
          rfl

/-- A task can do what its program does, while the others stand still. -/
theorem reaches_of_runs {next : τ → (e : ε) → ρ e → τ} {p : Prog ε ρ α} {t : List (Event ε ρ)}
    {a : α} {h : κ} {s : τ} (hrun : Runs p t (some a)) (hpermits : S.Permits next s t)
    (before behind : List (Task ε ρ α κ)) :
    S.Reaches ⟨before ++ ⟨p, h⟩ :: behind, s⟩
      ⟨before ++ ⟨.ret a, after S.hold h t⟩ :: behind, after next s t⟩ := by
  generalize ho : some a = o at hrun
  induction hrun generalizing h s with
  | ret b =>
      cases ho
      exact .refl
  | reply r _ ih =>
      obtain ⟨hreply, hrest⟩ := hpermits
      exact (Relation.ReflTransGen.single (.act (.call before behind hreply))).trans (ih hrest ho)
  | halt he => cases ho

/-- The main program stands still, too. -/
theorem Reaches.system {starts : ε₀ → List (Task ε ρ α κ)} (hreach : S.Reaches c c')
    (m : Prog ε₀ ρ₀ β) : S.SystemReaches starts ⟨m, c⟩ ⟨m, c'⟩ := by
  induction hreach with
  | refl => exact .refl
  | tail _ hstep ih => exact ih.tail (.pool hstep)

/-! ## Coming to rest -/

/-- What replies leave of a program keeps in every task of a system, if the tasks that are started
have it. -/
theorem SystemReaches.forall_tasks {starts : ε₀ → List (Task ε ρ α κ)} {A : ε₀ → Prop}
    {J : Prog ε ρ α → Prop} {x y : System ε₀ ρ₀ β ε ρ α κ τ} (hreach : S.SystemReaches starts x y)
    (hJ : ∀ e k, J (.call e k) → ∀ r, J (k r)) (hstarts : ∀ e, A e → ∀ t ∈ starts e, J t.left)
    (hmain : Only A x.main) (hx : ∀ t ∈ x.pool.tasks, J t.left) : ∀ t ∈ y.pool.tasks, J t.left := by
  suffices h : Only A y.main ∧ ∀ t ∈ y.pool.tasks, J t.left from h.2
  induction hreach with
  | refl => exact ⟨hmain, hx⟩
  | tail _ hstep ih =>
      obtain ⟨honly, hpool⟩ := ih
      cases hstep with
      | @main e k ts s r =>
          refine ⟨honly.2 r, fun t ht => ?_⟩
          exact (List.mem_append.mp ht).elim (hpool t) (hstarts e honly.1 t)
      | pool h =>
          refine ⟨honly, ?_⟩
          cases h with
          | tick h => exact hpool
          | act h =>
              -- Only the task that acts changes.
              cases h with
              | @call e k h r s s' before after hreply =>
                  exact forall_mem_replace hpool (hJ e k (hpool _ (mem_middle before after _)) r)
              | @release a h h' s s' before after hrelease =>
                  have hret : J (.ret a) := hpool _ (mem_middle before after _)
                  exact forall_mem_replace hpool hret

end Sharing

namespace Sharing
variable {S : Sharing ε ρ κ τ} {c c' : Pool ε ρ α κ τ} {size : κ → ℕ} {b n : ℕ}

/-- Whatever is held comes in at most `b` things, and each release takes one away. -/
structure Settling (S : Sharing ε ρ κ τ) (size : κ → ℕ) (b : ℕ) : Prop where
  le : ∀ h, size h ≤ b
  release : ∀ {h s h' s'}, S.release h s h' s' → size h' < size h

/-- `n` actions of the tasks, with any moves of the shared state in between. -/
inductive Work (S : Sharing ε ρ κ τ) : ℕ → Pool ε ρ α κ τ → Pool ε ρ α κ τ → Prop
  | refl (c : Pool ε ρ α κ τ) : Work S 0 c c
  | tick {n : ℕ} {c : Pool ε ρ α κ τ} {ts : List (Task ε ρ α κ)} {s s' : τ}
      (h : Work S n c ⟨ts, s⟩) (htick : S.tick s s') : Work S n c ⟨ts, s'⟩
  | act {n : ℕ} {c c' c'' : Pool ε ρ α κ τ} (h : Work S n c c') (hact : S.Act c' c'') :
      Work S (n + 1) c c''

theorem Work.reaches {m : ℕ} (h : S.Work m c c') : S.Reaches c c' := by
  induction h with
  | refl c => exact .refl
  | tick _ htick ih => exact ih.tail (.tick htick)
  | act _ hact ih => exact ih.tail (.act hact)

/-- No task can do anything. -/
def Resting (S : Sharing ε ρ κ τ) (c : Pool ε ρ α κ τ) : Prop := ∀ c', ¬ S.Act c c'

/-- The actions that are left to a task are at most `n`. -/
def Weighs (size : κ → ℕ) (b : ℕ) (t : Task ε ρ α κ) (n : ℕ) : Prop :=
  match t.left with
  | .ret _ => size t.held ≤ n
  | .call e k => ∃ m, AtMost m (.call e k) ∧ m + b ≤ n

theorem weighs_of_atMost (hS : Settling S size b) {t : Task ε ρ α κ} (h : AtMost n t.left) :
    Weighs size b t (n + b) := by
  obtain ⟨left, held⟩ := t
  cases left with
  | ret a => exact (hS.le held).trans (Nat.le_add_left b n)
  | call e k => exact ⟨n, h, le_rfl⟩

/-- The actions that are left to some tasks are at most `n`. -/
def AllWeigh (size : κ → ℕ) (b : ℕ) : List (Task ε ρ α κ) → ℕ → Prop
  | [], _ => True
  | t :: ts, n => ∃ w m, Weighs size b t w ∧ AllWeigh size b ts m ∧ w + m ≤ n

/-- A lighter task in one place makes all of them lighter. -/
theorem AllWeigh.replace {t t' : Task ε ρ α κ}
    (hless : ∀ w, Weighs size b t w → ∃ w' < w, Weighs size b t' w')
    (before : List (Task ε ρ α κ)) {after : List (Task ε ρ α κ)}
    (h : AllWeigh size b (before ++ t :: after) n) :
    ∃ m < n, AllWeigh size b (before ++ t' :: after) m := by
  induction before generalizing n with
  | nil =>
      obtain ⟨w, m, hw, hafter, hle⟩ := h
      obtain ⟨w', hlt, hw'⟩ := hless w hw
      exact ⟨w' + m, by omega, w', m, hw', hafter, le_rfl⟩
  | cons u before ih =>
      obtain ⟨w, m, hw, hrest, hle⟩ := h
      obtain ⟨m', hlt, hm'⟩ := ih hrest
      exact ⟨w + m', by omega, w, m', hw, hm', le_rfl⟩

/-- **An action makes the pool lighter.** -/
theorem Act.lighter (hS : Settling S size b) (hact : S.Act c c')
    (h : AllWeigh size b c.tasks n) : ∃ m < n, AllWeigh size b c'.tasks m := by
  cases hact with
  | @call e k held r s s' before after hreply =>
      refine AllWeigh.replace ?_ before h
      rintro w ⟨m, hm, hle⟩
      obtain ⟨m, rfl, hr⟩ := hm.reply r
      exact ⟨m + b, by omega, weighs_of_atMost hS hr⟩
  | release before after hrelease =>
      refine AllWeigh.replace ?_ before h
      intro w hw
      exact ⟨_, (hS.release hrelease).trans_le hw, le_rfl⟩

theorem allWeigh_of_atMost (hS : Settling S size b) {ts : List (Task ε ρ α κ)}
    (h : ∀ t ∈ ts, AtMost n t.left) : AllWeigh size b ts (ts.length * (n + b)) := by
  induction ts with
  | nil => trivial
  | cons t ts ih =>
      refine ⟨n + b, ts.length * (n + b), weighs_of_atMost hS (h t List.mem_cons_self),
        ih fun u hu => h u (List.mem_cons_of_mem t hu), ?_⟩
      rw [List.length_cons, Nat.succ_mul, Nat.add_comm]

/-- **A pool of bounded programs comes to rest**: the number of actions is bounded, however they
are interleaved. -/
theorem Work.le (hS : Settling S size b) {m : ℕ} (hwork : S.Work m c c')
    (hc : ∀ t ∈ c.tasks, AtMost n t.left) : m ≤ c.tasks.length * (n + b) := by
  suffices h : ∃ w, AllWeigh size b c'.tasks w ∧ w + m ≤ c.tasks.length * (n + b) by
    obtain ⟨w, -, hle⟩ := h
    omega
  induction hwork with
  | refl c => exact ⟨_, allWeigh_of_atMost hS hc, le_rfl⟩
  | tick _ _ ih => exact ih hc
  | act _ hact ih =>
      obtain ⟨w, hw, hle⟩ := ih hc
      obtain ⟨w', hlt, hw'⟩ := hact.lighter hS hw
      exact ⟨w', hw', by omega⟩

/-- **At rest, every task is done and holds nothing**, if every call has a reply and whatever is
held can be given back. -/
theorem Resting.idle (hreply : ∀ s e, ∃ r s', S.reply s e r s')
    (hrelease : ∀ h s, size h ≠ 0 → ∃ h' s', S.release h s h' s') (hrest : S.Resting c) :
    ∀ t ∈ c.tasks, (∃ a, t.left = .ret a) ∧ size t.held = 0 := by
  intro t ht
  obtain ⟨ts, s⟩ := c
  obtain ⟨before, after, rfl⟩ := List.append_of_mem ht
  obtain ⟨left, held⟩ := t
  cases left with
  | call e k =>
      obtain ⟨r, s', h⟩ := hreply s e
      exact absurd (.call before after h) (hrest _)
  | ret a =>
      refine ⟨⟨a, rfl⟩, by_contra fun hne => ?_⟩
      obtain ⟨h', s', h⟩ := hrelease held s hne
      exact hrest _ (.release before after h)

/-- Tasks that are done and have nothing to give back are at rest. -/
theorem resting_of_released (h : ∀ t ∈ c.tasks, (∃ a, t.left = .ret a) ∧
    ∀ s h' s', ¬ S.release t.held s h' s') : S.Resting c := by
  intro c' hact
  cases hact with
  | call before after hreply =>
      obtain ⟨⟨a, hret⟩, -⟩ := h _ (mem_middle before after _)
      cases hret
  | release before after hrelease => exact (h _ (mem_middle before after _)).2 _ _ _ hrelease

end Sharing
end Prog
