import SevMicroLoader.Attestation.Limiter

/-!
# Runs of the limiter, and the ledger of one subnet

A `System` is the guarded map with the permits its callers hold; an `Event` is one critical
section. A permit that is not held cannot be dropped, so such an event does nothing.

What a subnet is owed is a `Ledger`: the full history of its accepted requests and how many
permits are live. A ledger is never trimmed and never deleted, and it knows no other subnet.
`trace_filter` is the simulation: over any run with a nondecreasing clock, the limiter answers
each subnet as the subnet's own ledger does.

## Main definitions

* `System`, `step`, `run`, `trace` — the limiter under a sequence of events.
* `Ledger`, `Ledger.step`, `Ledger.run`, `Ledger.trace` — one subnet's purpose.
* `Shows` — the entry of a subnet stands for its ledger at a time.
-/

namespace SevMicroLoader.Attestation
open Rust SlidingWindow

/-! ## The system -/

/-- One critical section of the limiter. -/
inductive Event
  | acquire (ip : IpAddr) (now : ℕ)
  | drop (p : SubnetPermit)
  deriving DecidableEq

/-- The subnet an event is about. -/
def Event.subnet : Event → Subnet
  | .acquire ip _ => Subnet.ofIp ip
  | .drop p => p.subnet

/-- The clock reading of an event that reads the clock. -/
def Event.time? : Event → Option ℕ
  | .acquire _ now => some now
  | .drop _ => none

/-- The clock does not go back along the run, from `c` on. -/
def Nondecreasing (c : ℕ) (evs : List Event) : Prop :=
  (c :: evs.filterMap Event.time?).Pairwise (· ≤ ·)

instance (c : ℕ) (evs : List Event) : Decidable (Nondecreasing c evs) :=
  inferInstanceAs (Decidable (List.Pairwise _ _))

/-- What an `acquire` answers. -/
abbrev Answer := Except String SubnetPermit

/-- The limiter, with the permits that are out. -/
structure System where
  map : SubnetMap
  /-- Permits granted and not yet dropped. -/
  held : List SubnetPermit

/-- No client has come yet. -/
def System.start : System := ⟨∅, []⟩

variable (L : PerSubnetLimiter)

/-- One event, and its answer; only a permit that is out is dropped. -/
def step (σ : System) : Event → System × Option Answer
  | .acquire ip now =>
      match L.acquire σ.map ip now with
      | (.ok p, map) => (⟨map, p :: σ.held⟩, some (.ok p))
      | (.error e, map) => (⟨map, σ.held⟩, some (.error e))
  | .drop p =>
      if p ∈ σ.held then (⟨dropPermit σ.map p, σ.held.erase p⟩, none) else (σ, none)

/-- The system after some events. -/
def run (σ : System) (evs : List Event) : System := evs.foldl (fun σ e => (step L σ e).1) σ

/-- The events of a run with the answers they got. -/
def trace (σ : System) : List Event → List (Event × Option Answer)
  | [] => []
  | e :: evs => (e, (step L σ e).2) :: trace (step L σ e).1 evs

@[simp] theorem run_nil (σ : System) : run L σ [] = σ := rfl

@[simp] theorem run_cons (σ : System) (e : Event) (evs : List Event) :
    run L σ (e :: evs) = run L (step L σ e).1 evs := rfl

theorem run_append (σ : System) (evs evs' : List Event) :
    run L σ (evs ++ evs') = run L (run L σ evs) evs' := List.foldl_append

/-! ## The ledger -/

/-- The history of one subnet, as far as it counts. -/
structure Ledger where
  /-- The times of all accepted requests, oldest first. -/
  accepted : List ℕ
  live : ℕ

namespace Ledger

/-- Nothing was accepted. -/
def start : Ledger := ⟨[], 0⟩

/-- What the limiter is for: accept while fewer than `maxRequests` accepted requests are in the
window and fewer than `maxConcurrent` permits are live. -/
def step (s : Subnet) (l : Ledger) : Event → Ledger × Option Answer
  | .acquire _ now =>
      if L.maxRequests ≤ (recent L.expired now l.accepted).length then
        (l, some (.error "rate_limit_exceeded"))
      else if L.maxConcurrent.toNat ≤ l.live then (l, some (.error "concurrency_exceeded"))
      else (⟨l.accepted ++ [now], l.live + 1⟩, some (.ok ⟨s⟩))
  | .drop _ => (⟨l.accepted, l.live - 1⟩, none)

/-- The ledger after some events of its subnet. -/
def run (s : Subnet) (l : Ledger) (evs : List Event) : Ledger :=
  evs.foldl (fun l e => (step L s l e).1) l

/-- The events of the subnet, with the answers of its ledger. -/
def trace (s : Subnet) (l : Ledger) : List Event → List (Event × Option Answer)
  | [] => []
  | e :: evs => (e, (step L s l e).2) :: trace s (step L s l e).1 evs

@[simp] theorem run_nil (s : Subnet) (l : Ledger) : run L s l [] = l := rfl

@[simp] theorem run_cons (s : Subnet) (l : Ledger) (e : Event) (evs : List Event) :
    run L s l (e :: evs) = run L s (step L s l e).1 evs := rfl

/-- An answer that is not a permit leaves the ledger as it was. -/
theorem step_of_error {s : Subnet} {l : Ledger} {e : Event} {msg : String}
    (h : (step L s l e).2 = some (.error msg)) : (step L s l e).1 = l := by
  cases e with
  | acquire ip now =>
      simp only [step] at h ⊢
      by_cases hrate : L.maxRequests ≤ (recent L.expired now l.accepted).length
      · rw [if_pos hrate]
      · by_cases hconc : L.maxConcurrent.toNat ≤ l.live
        · rw [if_neg hrate, if_pos hconc]
        · simp [hrate, hconc] at h
  | drop p => simp [step] at h

end Ledger

/-! ## The entry shows the ledger -/

/-- At time `c`, the entry `st` stands for the ledger `l`: it has lost only expired requests. -/
structure Shows (c : ℕ) (st : SubnetState) (l : Ledger) : Prop where
  sorted : l.accepted.Pairwise (· ≤ ·)
  past : ∀ t ∈ l.accepted, t ≤ c
  requests : ∃ old, l.accepted = old ++ st.requests ∧ ∀ t ∈ old, L.expired c t
  active : st.activeConnections.toNat = l.live
  bounded : l.live ≤ L.maxConcurrent.toNat
  admitted : Admitted L.expired L.maxRequests l.accepted

variable {L} {c now : ℕ} {st : SubnetState} {l : Ledger} {s : Subnet}

theorem shows_start : Shows L c .empty .start where
  sorted := List.Pairwise.nil
  past := by simp [Ledger.start]
  requests := ⟨[], rfl, by simp⟩
  active := rfl
  bounded := Nat.zero_le _
  admitted := admitted_nil _ _

theorem Shows.later (h : Shows L c st l) (hle : c ≤ now) : Shows L now st l := by
  obtain ⟨old, heq, hold⟩ := h.requests
  exact ⟨h.sorted, fun t ht => (h.past t ht).trans hle,
    ⟨old, heq, fun t ht => L.expiry.later hle (hold t ht)⟩, h.active, h.bounded, h.admitted⟩

/-- Trimming an entry, at any time, does not change what it stands for. -/
theorem Shows.popExpired (h : Shows L now st l) : Shows L now (L.popExpired now st) l := by
  obtain ⟨old, heq, hold⟩ := h.requests
  obtain ⟨old', heq', hold'⟩ := exists_eq_append_trim L.expired now st.requests
  refine ⟨h.sorted, h.past, ⟨old ++ old', ?_, ?_⟩, h.active, h.bounded, h.admitted⟩
  · rw [List.append_assoc, L.requests_popExpired, ← heq', heq]
  · intro t ht
    rcases List.mem_append.mp ht with ht | ht
    · exact hold t ht
    · exact hold' t ht

/-- A trimmed entry holds the recent part of the whole history. -/
theorem Shows.requests_popExpired (h : Shows L now st l) :
    (L.popExpired now st).requests = recent L.expired now l.accepted := by
  obtain ⟨old, heq, hold⟩ := h.requests
  have hsorted : st.requests.Pairwise (· ≤ ·) := (List.pairwise_append.mp (heq ▸ h.sorted)).2.1
  rw [L.requests_popExpired, trim_eq_recent L.expiry hsorted, heq, recent_append_of_expired hold]

/-- A recorded request keeps the entry and the ledger together. -/
theorem Shows.accept (h : Shows L now st l) (hrate : (recent L.expired now l.accepted).length <
    L.maxRequests) (hconc : l.live < L.maxConcurrent.toNat) :
    Shows L now ⟨st.requests ++ [now], st.activeConnections + 1⟩
      ⟨l.accepted ++ [now], l.live + 1⟩ := by
  obtain ⟨old, heq, hold⟩ := h.requests
  constructor
  · refine List.pairwise_append.mpr ⟨h.sorted, List.pairwise_singleton _ _, ?_⟩
    intro t ht t' ht'
    rw [List.mem_singleton.mp ht']
    exact h.past t ht
  · intro t ht
    rcases List.mem_append.mp ht with ht | ht
    · exact h.past t ht
    · exact (List.mem_singleton.mp ht).le
  · exact ⟨old, by rw [heq, List.append_assoc], hold⟩
  · have hlt := L.maxConcurrent.toNat_lt
    have hactive := h.active
    rw [UInt32.toNat_add, UInt32.toNat_one, Nat.mod_eq_of_lt (by omega), hactive]
  · exact hconc
  · exact h.admitted.append_singleton hrate

end SevMicroLoader.Attestation
