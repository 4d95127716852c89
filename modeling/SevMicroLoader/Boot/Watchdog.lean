import Mathlib.Data.Finset.Insert
import Mathlib.Data.Finset.Erase
import SevMicroLoader.Lib.Loop
import SevMicroLoader.Rust.Checked

/-!
# The watchdog

`main` ends in two nested loops: the inner one reaps until `waitpid` has nothing to return, the
outer one sleeps in between. `watchdogRound` is one pass of the inner loop, with the sleep if
the pass breaks out of it, so the rounds of `watchdogRound` are the passes of both loops in order.

The environment is a `Kernel` in which children exit at any moment. No reachable state is
about to sleep on the exit of a supervised child (`watchdog_never_misses`).
-/

namespace SevMicroLoader.Boot

/-- What the watchdog asks of its environment. -/
inductive WatchCall
  /-- `waitpid(-1, &mut status, WNOHANG)`. -/
  | waitpid
  | sleep (secs : ℕ)
  | shutdown (message : String)

/-- What the environment answers. -/
abbrev WatchCall.Reply : WatchCall → Type
  | .waitpid => Int32
  | .sleep _ => Unit
  | .shutdown _ => Empty

/-- A program of the watchdog. -/
abbrev Watchdog := Prog WatchCall WatchCall.Reply

/-- `panic_shutdown`, from the watchdog. -/
def watchdogShutdown (message : String) : Watchdog Unit :=
  .call (.shutdown message) Empty.elim

/-- One pass of the watchdog over the two children, by their process ids. -/
def watchdogRound (childPid attestPid : UInt32) (_ : Unit) : Watchdog Unit :=
  .call .waitpid fun (pid : Int32) =>
    -- With nothing to reap the inner loop breaks, and the outer one sleeps.
    if pid ≤ 0 then .call (.sleep 5) fun _ => pure ()
    else if pid = childPid.toInt32 then
      watchdogShutdown ("Server process (PID " ++ toString pid.toInt ++
        ") exited. System integrity compromised.")
    else if pid = attestPid.toInt32 then
      watchdogShutdown ("Attestation server (PID " ++ toString pid.toInt ++
        ") exited. System integrity compromised.")
    else pure ()

/-! ## Processes -/

/-- The id of a process. -/
abbrev Pid := { p : Int32 // 0 < p }

/-- The children that exited and were not waited for, those among them that are so since the poll
started, and the ones that were waited for. -/
structure Kernel where
  pending : Finset Pid
  due : Finset Pid
  due_subset : due ⊆ pending
  reaped : List Pid

namespace Kernel

/-- PID 1 enters the watchdog with some children waiting. -/
def start (zombies : Finset Pid) : Kernel := ⟨zombies, zombies, subset_rfl, []⟩

/-- A child exits. -/
def exit (k : Kernel) (p : Pid) : Kernel :=
  { k with
    pending := insert p k.pending
    due_subset := k.due_subset.trans (Finset.subset_insert p _) }

/-- A child that exited is waited for. -/
def reap (k : Kernel) (p : Pid) : Kernel where
  pending := k.pending.erase p
  due := k.due.erase p
  due_subset := Finset.erase_subset_erase p k.due_subset
  reaped := k.reaped ++ [p]

/-- A poll starts. -/
def poll (k : Kernel) : Kernel := ⟨k.pending, k.pending, subset_rfl, k.reaped⟩

end Kernel

/-- Children exit between the calls. `waitpid` returns one of them, in any order, and no process id
only when there is none. -/
def kernel : Prog.Environment WatchCall WatchCall.Reply Kernel where
  tick k k' := ∃ p, p ∉ k.pending ∧ k' = k.exit p
  reply
    | k, .waitpid, r, k' => (r ≤ 0 ∧ k.pending = ∅ ∧ k' = k) ∨
        ∃ p, p ∈ k.pending ∧ r = p.val ∧ k' = k.reap p
    | k, .sleep _, _, k' => k' = k.poll
    | _, .shutdown _, _, _ => False

/-- One of the two children. -/
def Supervised (childPid attestPid : UInt32) (p : Pid) : Prop :=
  p.val = childPid.toInt32 ∨ p.val = attestPid.toInt32

section
variable {childPid attestPid : UInt32} {k k' : Kernel}

/-- No supervised exit was reaped. -/
def NoneReaped (childPid attestPid : UInt32) (k : Kernel) : Prop :=
  ∀ p, Supervised childPid attestPid p → p ∉ k.reaped

/-- The last exit that was reaped is the first supervised one. -/
def JustReaped (childPid attestPid : UInt32) (k : Kernel) : Prop :=
  ∃ orphans p, k.reaped = orphans ++ [p] ∧ Supervised childPid attestPid p ∧
    ∀ o ∈ orphans, ¬ Supervised childPid attestPid o

/-- When the watchdog makes which call. -/
def Watched (childPid attestPid : UInt32) (k : Kernel) : WatchCall → Prop
  | .waitpid => NoneReaped childPid attestPid k
  | .sleep _ => NoneReaped childPid attestPid k ∧ k.due = ∅
  | .shutdown _ => JustReaped childPid attestPid k

/-- Exits change neither what is due nor what was reaped. -/
theorem Kernel.of_moves (h : kernel.Moves k k') : k'.due = k.due ∧ k'.reaped = k.reaped := by
  refine h.invariant (I := fun k' => k'.due = k.due ∧ k'.reaped = k.reaped) ?_ ⟨rfl, rfl⟩
  rintro _ _ hk ⟨p, -, rfl⟩
  exact hk

theorem NoneReaped.of_moves (hk : NoneReaped childPid attestPid k) (h : kernel.Moves k k') :
    NoneReaped childPid attestPid k' := by
  rw [NoneReaped, (Kernel.of_moves h).2]
  exact hk

theorem NoneReaped.reap_orphan (hk : NoneReaped childPid attestPid k) {p : Pid}
    (hp : ¬ Supervised childPid attestPid p) : NoneReaped childPid attestPid (k.reap p) := by
  intro q hq hmem
  rcases List.mem_append.mp hmem with hold | hnew
  · exact hk q hq hold
  · exact hp (List.mem_singleton.mp hnew ▸ hq)

theorem NoneReaped.reap_supervised (hk : NoneReaped childPid attestPid k) {p : Pid}
    (hp : Supervised childPid attestPid p) : JustReaped childPid attestPid (k.reap p) :=
  ⟨k.reaped, p, rfl, hp, fun o ho hsup => hk o hsup ho⟩

theorem guarded_watchdogShutdown {Q : Kernel → Unit → Prop} {message : String}
    (hk : JustReaped childPid attestPid k) :
    kernel.Guarded (Watched childPid attestPid) Q (watchdogShutdown message) k := by
  intro k' hmoves
  refine ⟨?_, fun r => r.elim⟩
  rw [Watched, JustReaped, (Kernel.of_moves hmoves).2]
  exact hk

/-- **One pass.** It drains up to the first supervised exit, or sleeps when nothing is due. -/
theorem guarded_watchdogRound (hk : NoneReaped childPid attestPid k) :
    kernel.Guarded (Watched childPid attestPid) (fun k _ => NoneReaped childPid attestPid k)
      (watchdogRound childPid attestPid ()) k := by
  intro k₁ hmoves
  have hk₁ := hk.of_moves hmoves
  refine ⟨hk₁, ?_⟩
  rintro pid k₂ (⟨hnone, hempty, rfl⟩ | ⟨p, -, rfl, rfl⟩)
  · -- Nothing is pending, so nothing is due, whatever exits before the sleep.
    dsimp only
    rw [if_pos hnone]
    intro k₃ hmoves
    have hdue : k₃.due = ∅ := by
      rw [(Kernel.of_moves hmoves).1, ← Finset.subset_empty, ← hempty]
      exact k₂.due_subset
    have hk₃ := hk₁.of_moves hmoves
    refine ⟨⟨hk₃, hdue⟩, ?_⟩
    rintro _ _ rfl
    exact hk₃
  · dsimp only
    rw [if_neg (Int32.not_le.mpr p.property)]
    split
    · next hchild => exact guarded_watchdogShutdown (hk₁.reap_supervised (.inl hchild))
    · next hchild =>
      split
      · next hattest => exact guarded_watchdogShutdown (hk₁.reap_supervised (.inr hattest))
      · next hattest =>
        exact hk₁.reap_orphan fun hsup => hsup.elim hchild hattest

end

/-- The watchdog up to its `n`th pass, among any children, can get to `p` and `k`. -/
def WatchdogReaches (childPid attestPid : UInt32) (p : Watchdog Unit) (k : Kernel) : Prop :=
  ∃ n zombies, kernel.Reaches
    (Prog.rounds (watchdogRound childPid attestPid) n (), Kernel.start zombies) (p, k)

/-- **The watchdog never misses a supervised exit.** Whenever it is about to sleep, neither child
has been reaped or is pending since the poll started; it shuts down only when it has just reaped
one of them, behind orphans only; and once it has, it does shut down. -/
theorem watchdog_never_misses (childPid attestPid : UInt32) (p : Watchdog Unit) (k : Kernel)
    (h : WatchdogReaches childPid attestPid p k) :
    (∀ secs rest, p = .call (.sleep secs) rest →
      ∀ q, Supervised childPid attestPid q → q ∉ k.reaped ∧ q ∉ k.due) ∧
    (∀ message rest, p = .call (.shutdown message) rest →
      ∃ orphans q, k.reaped = orphans ++ [q] ∧ Supervised childPid attestPid q ∧
        ∀ o ∈ orphans, ¬ Supervised childPid attestPid o) ∧
    ((∃ q, Supervised childPid attestPid q ∧ q ∈ k.reaped) →
      ∃ message rest, p = .call (.shutdown message) rest) := by
  obtain ⟨n, zombies, hreach⟩ := h
  have hstable (a : Unit) (k k' : Kernel) (hk : NoneReaped childPid attestPid k)
      (htick : kernel.tick k k') : NoneReaped childPid attestPid k' :=
    hk.of_moves (.single htick)
  have hstart : NoneReaped childPid attestPid (Kernel.start zombies) :=
    fun _ _ => List.not_mem_nil
  have hround (k : Kernel) (a : Unit) (hk : NoneReaped childPid attestPid k) :
      kernel.Guarded (Watched childPid attestPid) (fun k _ => NoneReaped childPid attestPid k)
        (watchdogRound childPid attestPid a) k := guarded_watchdogRound hk
  obtain ⟨hcall, hresult⟩ :=
    (Prog.Environment.guarded_rounds hround n hstart).sound hstable hreach
  refine ⟨?_, fun message => hcall (.shutdown message), ?_⟩
  · rintro secs rest rfl q hq
    obtain ⟨hnone, hdue⟩ := hcall _ rest rfl
    exact ⟨hnone q hq, hdue ▸ Finset.notMem_empty q⟩
  · rintro ⟨q, hq, hmem⟩
    cases p with
    | ret a => exact absurd hmem (hresult a rfl q hq)
    | call e rest =>
        cases e with
        | waitpid => exact absurd hmem (hcall _ rest rfl q hq)
        | sleep secs => exact absurd hmem ((hcall _ rest rfl).1 q hq)
        | shutdown message => exact ⟨message, rest, rfl⟩

/-- An orphan is reaped first, and the server exits while it is. -/
theorem watchdog_never_misses_sample :
    ∃ message rest k, WatchdogReaches 2 3 (.call (.shutdown message) rest) k ∧
      ∃ orphans q, k.reaped = orphans ++ [q] ∧ Supervised 2 3 q := by
  have hreach : ∃ rest, WatchdogReaches 2 3
      (.call (.shutdown "Server process (PID 2) exited. System integrity compromised.") rest)
      ((((Kernel.start {⟨7, by decide⟩}).exit ⟨2, by decide⟩).reap ⟨7, by decide⟩).reap
        ⟨2, by decide⟩) := by
    refine ⟨fun r => Prog.bind (Empty.elim r) (Prog.rounds (watchdogRound 2 3) 0), 2,
      {⟨7, by decide⟩}, ?_⟩
    refine .head (.tick _ ⟨⟨2, by decide⟩, by decide, rfl⟩) ?_
    refine .head (.reply _ (.inr ⟨⟨7, by decide⟩, by decide, rfl, rfl⟩)) ?_
    refine .head (.reply _ (.inr ⟨⟨2, by decide⟩, by decide, rfl, rfl⟩)) ?_
    exact .refl
  obtain ⟨rest, hreach⟩ := hreach
  obtain ⟨orphans, q, hk, hq, -⟩ := (watchdog_never_misses 2 3 _ _ hreach).2.1 _ _ rfl
  exact ⟨_, rest, _, hreach, orphans, q, hk, hq⟩

end SevMicroLoader.Boot
