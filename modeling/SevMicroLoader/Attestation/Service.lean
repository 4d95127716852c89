import Mathlib.Data.Multiset.Filter
import SevMicroLoader.Lib.Tasks
import SevMicroLoader.Attestation.LimiterRuns
import SevMicroLoader.Attestation.Server

/-!
# The attestation service

The accept loop starts a handler for every connection, and the handlers run side by side over one
limiter and one semaphore. `service` says how the calls of a handler act on these two; a handler
that returns drops its permits, the one of the hardware first. Reads, the device and the responses
are up to the clients and the hardware, and the clock moves at any time.

`Accounted` ties the limiter and the semaphore to what the handlers hold: the limiter is the one
that the recorded critical sections lead to, one after the other (`log`).

## Main definitions

* `Holding`, `Shared`, `service` — permits, and the calls that take them and give them back.
* `Service`, `ServiceReaches` — the accept loop with its handlers, in every interleaving.
* `Entitled` — what a handler holds at a call.
* `Accounted` — the invariant.
-/

namespace SevMicroLoader.Attestation
open Rust

/-! ## Permits -/

/-- The permits a handler has. -/
structure Holding where
  subnet : Option SubnetPermit
  hardware : Bool

/-- A handler starts without a permit. -/
def Holding.nothing : Holding := ⟨none, false⟩

/-- Permits are held from the call that granted them on. -/
def Holding.next (h : Holding) : (c : Call) → c.Reply → Holding
  | .acquire _, .ok permit => { h with subnet := some permit }
  | .tryAcquire, true => { h with hardware := true }
  | _, _ => h

/-- The permits that are left to drop. -/
def Holding.size (h : Holding) : ℕ :=
  (if h.subnet.isSome then 1 else 0) + if h.hardware then 1 else 0

theorem Holding.eq_nothing {h : Holding} (hsize : h.size = 0) : h = .nothing := by
  obtain ⟨_ | p, _ | _⟩ := h
  · rfl
  all_goals simp [Holding.size] at hsize

/-- At most 10 requests in three seconds, and two connections at a time. -/
def subnetLimiter : PerSubnetLimiter where
  maxRequests := 10
  window := 3000000000
  maxConcurrent := 2

/-- The permits of `global_hardware_limiter`. -/
def hardwarePermits : ℕ := 8

/-- What the handlers share, and the clock. -/
structure Shared where
  map : SubnetMap
  available : ℕ
  now : ℕ
  /-- The critical sections of the limiter so far, with their answers. -/
  log : List (Event × Option Answer)

/-- No client has come yet, and the hardware is free. -/
def Shared.start : Shared := ⟨∅, hardwarePermits, 0, []⟩

/-- The critical sections so far, without their answers. -/
def Shared.events (s : Shared) : List Event := s.log.map Prod.fst

/-- `acquire` and `try_acquire` are decided by the shared state; any other reply may come. The
permits of a handler that has returned are dropped in the reverse order of their declarations. -/
def service : Prog.Sharing Call Call.Reply Holding Shared where
  tick s s' := ∃ now, s.now ≤ now ∧ s' = { s with now := now }
  reply
    | s, .acquire ip, r, s' => r = (subnetLimiter.acquire s.map ip s.now).1 ∧
        s' = { s with
          map := (subnetLimiter.acquire s.map ip s.now).2
          log := s.log ++ [(.acquire ip s.now, some r)] }
    | s, .tryAcquire, r, s' => r = decide (0 < s.available) ∧
        s' = { s with available := s.available - 1 }
    | s, _, _, s' => s' = s
  hold := Holding.next
  release h s h' s' :=
    h.hardware = true ∧ h' = { h with hardware := false } ∧
        s' = { s with available := s.available + 1 } ∨
      h.hardware = false ∧ ∃ p, h.subnet = some p ∧ h' = { h with subnet := none } ∧
        s' = { s with map := dropPermit s.map p, log := s.log ++ [(.drop p, none)] }

/-! ## The service -/

/-- A handler, with the permits it holds. -/
abbrev HandlerTask := Prog.Task Call Call.Reply (Except String Unit) Holding

/-- The accept loop and the handlers it has spawned. -/
abbrev Service := Prog.System ServerCall ServerCall.Reply UInt32 Call Call.Reply
  (Except String Unit) Holding Shared

/-- A spawned task starts without a permit. -/
def startedBy : ServerCall → List HandlerTask
  | .spawn task => [⟨task, .nothing⟩]
  | _ => []

variable (X : Externals) (payloadHash : String)

/-- The accept loop alone. -/
def Service.start (n : ℕ) : Service := ⟨runAttestationServer X payloadHash n, ⟨[], .start⟩⟩

/-- The service can get to `σ`, after any number of passes of the accept loop. -/
def ServiceReaches (σ : Service) : Prop :=
  ∃ n, service.SystemReaches startedBy (Service.start X payloadHash n) σ

/-! ## One handler -/

/-- What a handler holds when it makes a call: the subnet's permit behind the `acquire`, and with it
the permit of the hardware at the device. A refusal is answered with `429`, and nothing else is. -/
def Entitled (h : Holding) : Call → Prop
  | .acquire _ => h = .nothing
  | .read => h.subnet.isSome ∧ h.hardware = false
  | .tryAcquire => h.subnet.isSome ∧ h.hardware = false
  | .deviceExists => h.subnet.isSome ∧ h.hardware = true
  | .openDevice => h.subnet.isSome ∧ h.hardware = true
  | .ioctl _ _ => h.subnet.isSome ∧ h.hardware = true
  | .respond r => (r.status = 429 ↔ h.subnet = none) ∧ (r.status = 200 → h.hardware = true)

section Handler
variable {X payloadHash} {h : Holding} {α : Type}

/-- The judgement used here: every call is one the handler is entitled to. -/
abbrev Behaves (Q : Holding → α → Prop) (p : Handler α) (h : Holding) : Prop :=
  Prog.Holds Holding.next Entitled Q p h

theorem behaves_sendHttpResponse {status : ℕ} {body : String}
    (hrefused : status = 429 ↔ h.subnet = none) (hreport : status = 200 → h.hardware = true) :
    Behaves (fun _ _ => True) (sendHttpResponse status body) h :=
  ⟨⟨hrefused, hreport⟩, fun _ => trivial⟩

theorem behaves_readLoop (buf : Bytes) (hsubnet : h.subnet.isSome)
    (hhardware : h.hardware = false) :
    Behaves (fun h' _ => h' = h) (readLoop buf) h := by
  induction buf using readLoop.induct with
  | case1 buf ih =>
      rw [readLoop]
      refine Prog.holds_call.mpr ⟨⟨hsubnet, hhardware⟩, fun r => ?_⟩
      cases r with
      | failed e => rfl
      | timeout => rfl
      | chunk bytes =>
          refine Prog.holds_ite.mpr ⟨fun _ => rfl, fun hnil => ?_⟩
          refine Prog.holds_ite.mpr ⟨fun _ => rfl, fun hbig => ?_⟩
          exact Prog.holds_ite.mpr ⟨fun _ => rfl, fun _ => ih bytes hnil hbig⟩

theorem behaves_getReport (reportData : ByteArr 64) (hsubnet : h.subnet.isSome)
    (hhardware : h.hardware = true) :
    Behaves (fun h' _ => h' = h) (getSnpAttestationReport reportData) h := by
  have hdevice : h.subnet.isSome ∧ h.hardware = true := ⟨hsubnet, hhardware⟩
  refine Prog.holds_call.mpr ⟨hdevice, fun found => ?_⟩
  cases found with
  | false => rfl
  | true =>
      refine Prog.holds_call.mpr ⟨hdevice, fun opened => ?_⟩
      cases opened with
      | error e => rfl
      | ok u =>
          refine Prog.holds_call.mpr ⟨hdevice, fun reply => ?_⟩
          cases reply with
          | error e => rfl
          | ok data => rfl

/-- A response with another status than `429`, behind the subnet's permit. -/
theorem behaves_admitted {status : ℕ} {body : String} (hsubnet : h.subnet.isSome)
    (hstatus : status ≠ 429) (hreport : status = 200 → h.hardware = true) :
    Behaves (fun _ _ => True) (sendHttpResponse status body) h := by
  refine behaves_sendHttpResponse ⟨fun hrefused => absurd hrefused hstatus, fun hnone => ?_⟩ hreport
  rw [hnone] at hsubnet
  cases hsubnet

theorem behaves_answerNonce {nonce : String} {p n : Bytes} (hsubnet : h.subnet.isSome)
    (hhardware : h.hardware = false) :
    Behaves (fun _ _ => True) (answerNonce X payloadHash nonce p n) h := by
  refine Prog.holds_call.mpr ⟨⟨hsubnet, hhardware⟩, fun granted => ?_⟩
  cases granted with
  | false => exact behaves_admitted hsubnet (by decide) fun h200 => absurd h200 (by decide)
  | true =>
      apply (@behaves_getReport ⟨h.subnet, true⟩ (X.sha512 (p ++ n)) hsubnet rfl).bind
      rintro _ r rfl
      cases r with
      | error err => exact behaves_admitted hsubnet (by decide) fun _ => rfl
      | ok report => exact behaves_admitted hsubnet (by decide) fun _ => rfl

theorem behaves_answerRequest (buf : Bytes) (hsubnet : h.subnet.isSome)
    (hhardware : h.hardware = false) :
    Behaves (fun _ _ => True) (answerRequest X payloadHash buf) h := by
  rw [answerRequest]
  refine Prog.holds_ite.mpr ⟨fun _ => trivial, fun _ => ?_⟩
  cases parseRequest buf with
  | none => trivial
  | some query =>
      refine Prog.holds_ite.mpr ⟨fun _ => ?_, fun _ => ?_⟩
      · exact behaves_admitted hsubnet (by decide) fun h200 => absurd h200 (by decide)
      cases X.base16.mixedDecode (nonceHex query) with
      | none => trivial
      | some nonceBytes =>
          cases X.base16.mixedDecode payloadHash with
          | none => trivial
          | some payloadHashBytes => exact behaves_answerNonce hsubnet hhardware

/-- **A handler makes only the calls it holds the permits for.** -/
theorem behaves_handler (X : Externals) (payloadHash : String) (ip : IpAddr) :
    Behaves (fun _ _ => True) (handleAttestationConnection X payloadHash ip) .nothing := by
  refine Prog.holds_call.mpr ⟨rfl, fun answer => ?_⟩
  cases answer with
  | error err =>
      have hrefused : (429 : ℕ) = 429 ↔ Holding.nothing.subnet = none :=
        ⟨fun _ => rfl, fun _ => rfl⟩
      exact Prog.holds_ite.mpr
        ⟨fun _ => behaves_sendHttpResponse hrefused fun h200 => absurd h200 (by decide),
          fun _ => behaves_sendHttpResponse hrefused fun h200 => absurd h200 (by decide)⟩
  | ok permit =>
      apply (@behaves_readLoop ⟨some permit, false⟩ [] rfl rfl).bind
      rintro _ r rfl
      cases r with
      | error early => trivial
      | ok buf => exact behaves_answerRequest buf rfl rfl

end Handler

/-! ## What is shared, and what is held -/

/-- The limiter after the recorded critical sections, one after the other. -/
def Shared.limiter (s : Shared) : System := run subnetLimiter .start s.events

/-- The permits of the limiter that are held. -/
def subnetPermits (held : Multiset Holding) : Multiset SubnetPermit := held.filterMap Holding.subnet

/-- How many hold a permit of the hardware. -/
def hardwareUsers (held : Multiset Holding) : ℕ := held.countP fun h => h.hardware = true

theorem subnetPermits_cons_none {h : Holding} (hnone : h.subnet = none) (m : Multiset Holding) :
    subnetPermits (h ::ₘ m) = subnetPermits m :=
  Multiset.filterMap_cons_none h m hnone

theorem subnetPermits_cons_some {h : Holding} {p : SubnetPermit} (hsome : h.subnet = some p)
    (m : Multiset Holding) : subnetPermits (h ::ₘ m) = p ::ₘ subnetPermits m :=
  Multiset.filterMap_cons_some Holding.subnet h m hsome

theorem subnetPermits_cons_congr {h h' : Holding} (heq : h.subnet = h'.subnet)
    (m : Multiset Holding) : subnetPermits (h ::ₘ m) = subnetPermits (h' ::ₘ m) := by
  cases hpermit : h'.subnet with
  | none => rw [subnetPermits_cons_none hpermit, subnetPermits_cons_none (heq.trans hpermit)]
  | some p => rw [subnetPermits_cons_some hpermit, subnetPermits_cons_some (heq.trans hpermit)]

theorem hardwareUsers_cons (h : Holding) (m : Multiset Holding) :
    hardwareUsers (h ::ₘ m) = hardwareUsers m + if h.hardware = true then 1 else 0 :=
  Multiset.countP_cons _ h m

/-- The limiter is where its critical sections lead, and answered them as they do. -/
structure Logged (s : Shared) : Prop where
  log : s.log = trace subnetLimiter .start s.events
  map : s.map = s.limiter.map
  clock : Nondecreasing 0 s.events
  past : clockAfter 0 s.events ≤ s.now

/-- The permits of the limiter and of the semaphore are those that are held. -/
structure Accounted (s : Shared) (held : Multiset Holding) : Prop where
  logged : Logged s
  permits : (s.limiter.held : Multiset SubnetPermit) = subnetPermits held
  hardware : s.available + hardwareUsers held = hardwarePermits

section Runs
variable {L : PerSubnetLimiter} {c now : ℕ} {evs : List Event}

theorem trace_concat (L : PerSubnetLimiter) (σ : System) (evs : List Event) (e : Event) :
    trace L σ (evs ++ [e]) = trace L σ evs ++ [(e, (step L (run L σ evs) e).2)] := by
  induction evs generalizing σ with
  | nil => rfl
  | cons e' evs ih => exact congrArg _ (ih _)

theorem clockAfter_concat (c : ℕ) (evs : List Event) (e : Event) :
    clockAfter c (evs ++ [e]) = e.clock (clockAfter c evs) := by
  rw [clockAfter, clockAfter, List.foldl_append]
  rfl

theorem nondecreasing_cons {e : Event} (hle : c ≤ e.clock c) (h : Nondecreasing (e.clock c) evs) :
    Nondecreasing c (e :: evs) := by
  cases e with
  | drop p => exact h
  | acquire ip now =>
      refine List.pairwise_cons.mpr ⟨fun t ht => ?_, h⟩
      rcases List.mem_cons.mp ht with rfl | ht
      · exact hle
      · exact hle.trans ((List.pairwise_cons.mp h).1 t ht)

theorem nondecreasing_concat {e : Event} (h : Nondecreasing c evs)
    (hle : clockAfter c evs ≤ e.clock (clockAfter c evs)) : Nondecreasing c (evs ++ [e]) := by
  induction evs generalizing c with
  | nil => exact nondecreasing_cons hle (List.pairwise_singleton _ _)
  | cons e' evs ih =>
      obtain ⟨hfirst, hrest⟩ := h.cons
      exact nondecreasing_cons hfirst (ih hrest hle)

end Runs

theorem logged_start : Logged .start where
  log := rfl
  map := rfl
  clock := List.pairwise_singleton _ _
  past := le_rfl

theorem Logged.tick {s : Shared} {now : ℕ} (hs : Logged s) (hle : s.now ≤ now) :
    Logged { s with now := now } :=
  ⟨hs.log, hs.map, hs.clock, hs.past.trans hle⟩

/-- **A critical section is recorded**, and the limiter is where it leads. -/
theorem Logged.record {s : Shared} {e : Event} {σ : System} {answer : Option Answer}
    (hs : Logged s) (hstep : step subnetLimiter s.limiter e = (σ, answer))
    (hfrom : clockAfter 0 s.events ≤ e.clock (clockAfter 0 s.events))
    (hto : e.clock (clockAfter 0 s.events) ≤ s.now) :
    Logged { s with map := σ.map, log := s.log ++ [(e, answer)] } ∧
      Shared.limiter { s with map := σ.map, log := s.log ++ [(e, answer)] } = σ := by
  have hevents : Shared.events { s with map := σ.map, log := s.log ++ [(e, answer)] } =
      s.events ++ [e] := by
    rw [Shared.events, List.map_append]
    rfl
  have hlimiter : Shared.limiter { s with map := σ.map, log := s.log ++ [(e, answer)] } = σ := by
    rw [Shared.limiter, hevents, run_append, run_cons, run_nil, ← Shared.limiter, hstep]
  refine ⟨⟨?_, ?_, ?_, ?_⟩, hlimiter⟩
  · rw [hevents, trace_concat, ← hs.log, ← Shared.limiter, hstep]
  · rw [hlimiter]
  · rw [hevents]
    exact nondecreasing_concat hs.clock hfrom
  · rw [hevents, clockAfter_concat]
    exact hto

section Step
variable {s : Shared} {h : Holding} {m : Multiset Holding}

theorem accounted_start : Accounted .start 0 where
  logged := logged_start
  permits := rfl
  hardware := rfl

theorem Accounted.acquire (hs : Accounted s (h ::ₘ m)) (hnothing : h = .nothing) (ip : IpAddr) :
    Accounted
      { s with
        map := (subnetLimiter.acquire s.map ip s.now).2
        log := s.log ++ [(.acquire ip s.now, some (subnetLimiter.acquire s.map ip s.now).1)] }
      (h.next (.acquire ip) (subnetLimiter.acquire s.map ip s.now).1 ::ₘ m) := by
  subst hnothing
  have hpermits := hs.permits
  rw [subnetPermits_cons_none rfl] at hpermits
  have hhardware := hs.hardware
  rw [hardwareUsers_cons] at hhardware
  cases hacquire : subnetLimiter.acquire s.map ip s.now with
  | mk answer map =>
      cases answer with
      | error e =>
          have hstep : step subnetLimiter s.limiter (.acquire ip s.now) =
              (⟨map, s.limiter.held⟩, some (.error e)) := by
            rw [step, ← hs.logged.map, hacquire]
          obtain ⟨hlogged, hlimiter⟩ := hs.logged.record hstep hs.logged.past le_rfl
          refine ⟨hlogged, ?_, ?_⟩
          · rw [hlimiter, subnetPermits_cons_none rfl]
            exact hpermits
          · rw [hardwareUsers_cons]
            exact hhardware
      | ok p =>
          have hstep : step subnetLimiter s.limiter (.acquire ip s.now) =
              (⟨map, p :: s.limiter.held⟩, some (.ok p)) := by
            rw [step, ← hs.logged.map, hacquire]
          obtain ⟨hlogged, hlimiter⟩ := hs.logged.record hstep hs.logged.past le_rfl
          refine ⟨hlogged, ?_, ?_⟩
          · rw [hlimiter, subnetPermits_cons_some rfl, ← hpermits]
            rfl
          · rw [hardwareUsers_cons]
            exact hhardware

theorem Accounted.dropSubnet {p : SubnetPermit} (hs : Accounted s (h ::ₘ m))
    (hp : h.subnet = some p) :
    Accounted { s with map := dropPermit s.map p, log := s.log ++ [(.drop p, none)] }
      ({ h with subnet := none } ::ₘ m) := by
  have hpermits := hs.permits
  rw [subnetPermits_cons_some hp] at hpermits
  have hheld : p ∈ s.limiter.held := by
    rw [← Multiset.mem_coe, hpermits]
    exact Multiset.mem_cons_self p _
  have hstep : step subnetLimiter s.limiter (.drop p) =
      (⟨dropPermit s.map p, s.limiter.held.erase p⟩, none) := by
    rw [step, if_pos hheld, hs.logged.map]
  obtain ⟨hlogged, hlimiter⟩ := hs.logged.record hstep le_rfl hs.logged.past
  refine ⟨hlogged, ?_, ?_⟩
  · rw [hlimiter, subnetPermits_cons_none rfl, ← Multiset.coe_erase, hpermits,
      Multiset.erase_cons_head]
  · have hhardware := hs.hardware
    rw [hardwareUsers_cons] at hhardware ⊢
    exact hhardware

theorem Accounted.tryAcquire (hs : Accounted s (h ::ₘ m)) (hno : h.hardware = false) :
    Accounted { s with available := s.available - 1 }
      (h.next .tryAcquire (decide (0 < s.available)) ::ₘ m) := by
  have hhardware := hs.hardware
  rw [hardwareUsers_cons, hno, if_neg Bool.false_ne_true, Nat.add_zero] at hhardware
  have hsubnet : (h.next .tryAcquire (decide (0 < s.available))).subnet = h.subnet := by
    cases decide (0 < s.available) <;> rfl
  refine ⟨⟨hs.logged.log, hs.logged.map, hs.logged.clock, hs.logged.past⟩, ?_, ?_⟩
  · rw [subnetPermits_cons_congr hsubnet]
    exact hs.permits
  · rw [hardwareUsers_cons]
    by_cases havailable : 0 < s.available
    · rw [decide_eq_true havailable]
      change s.available - 1 + (hardwareUsers m + 1) = _
      omega
    · rw [decide_eq_false havailable]
      change s.available - 1 + (hardwareUsers m + if h.hardware = true then 1 else 0) = _
      rw [hno, if_neg Bool.false_ne_true]
      omega

theorem Accounted.dropHardware (hs : Accounted s (h ::ₘ m)) (hyes : h.hardware = true) :
    Accounted { s with available := s.available + 1 } ({ h with hardware := false } ::ₘ m) := by
  have hhardware := hs.hardware
  rw [hardwareUsers_cons, if_pos hyes] at hhardware
  refine ⟨⟨hs.logged.log, hs.logged.map, hs.logged.clock, hs.logged.past⟩, ?_, ?_⟩
  · rw [@subnetPermits_cons_congr ⟨h.subnet, false⟩ h rfl]
    exact hs.permits
  · rw [hardwareUsers_cons, if_neg Bool.false_ne_true]
    change s.available + 1 + (hardwareUsers m + 0) = _
    omega

end Step

/-- **Every action of a handler keeps the accounts.** -/
theorem accounting : service.Accounting Entitled (fun _ (_ : Except String Unit) => True)
    Accounted where
  tick := by
    rintro s _ m hs ⟨now, hle, rfl⟩
    exact ⟨hs.logged.tick hle, hs.permits, hs.hardware⟩
  reply := by
    intro s c r s' h m hs hentitled hreply
    cases c with
    | acquire ip =>
        obtain ⟨rfl, rfl⟩ := hreply
        exact hs.acquire hentitled ip
    | tryAcquire =>
        obtain ⟨rfl, rfl⟩ := hreply
        exact hs.tryAcquire hentitled.2
    | _ =>
        obtain rfl := hreply
        exact hs
  release := by
    rintro s s' h h' m hs (⟨hyes, rfl, rfl⟩ | ⟨-, p, hp, rfl, rfl⟩)
    · exact hs.dropHardware hyes
    · exact hs.dropSubnet hp
  result _ _ := trivial

/-! ## Every reachable state -/

/-- A task that is spawned is a handler of the service. -/
def SpawnsHandlers (X : Externals) (payloadHash : String) (c : ServerCall) : Prop :=
  ∀ task, c = .spawn task → ∃ ip, task = handleAttestationConnection X payloadHash ip

section Reachable
variable {X : Externals} {payloadHash : String} {σ : Service}

theorem only_acceptRound (consecutiveErrors : UInt32) :
    Prog.Only (SpawnsHandlers X payloadHash) (acceptRound X payloadHash consecutiveErrors) := by
  refine ⟨nofun, fun outcome => ?_⟩
  cases outcome with
  | ok ip =>
      refine ⟨?_, fun _ => Prog.only_pure _⟩
      rintro task htask
      cases htask
      exact ⟨ip, rfl⟩
  | error e =>
      dsimp only
      split
      · exact Prog.only_pure _
      split
      · exact ⟨nofun, fun _ => Prog.only_pure _⟩
      · refine ⟨nofun, fun _ => ?_⟩
        split
        · exact ⟨nofun, fun r => r.elim⟩
        · exact Prog.only_pure _

theorem only_rounds_acceptRound (n : ℕ) (consecutiveErrors : UInt32) :
    Prog.Only (SpawnsHandlers X payloadHash)
      (Prog.rounds (acceptRound X payloadHash) n consecutiveErrors) := by
  induction n generalizing consecutiveErrors with
  | zero => exact Prog.only_pure _
  | succ n ih => exact (only_acceptRound _).bind ih

theorem only_runAttestationServer (n : ℕ) :
    Prog.Only (SpawnsHandlers X payloadHash) (runAttestationServer X payloadHash n) := by
  refine ⟨nofun, fun bound => ?_⟩
  cases bound with
  | error e => exact ⟨nofun, fun r => r.elim⟩
  | ok u => exact only_rounds_acceptRound n 0

theorem eq_of_mem_startedBy {c : ServerCall} (hc : SpawnsHandlers X payloadHash c) {t : HandlerTask}
    (ht : t ∈ startedBy c) :
    ∃ ip, t = ⟨handleAttestationConnection X payloadHash ip, .nothing⟩ := by
  cases c with
  | spawn task =>
      obtain ⟨ip, rfl⟩ := hc task rfl
      exact ⟨ip, List.mem_singleton.mp ht⟩
  | _ => cases ht

/-- What a new task holds does not count. -/
theorem Accounted.start {s : Shared} {m : Multiset Holding} (hs : Accounted s m) (c : ServerCall)
    (s' : Shared) : Accounted s (m + Prog.Pool.holdings ⟨startedBy c, s'⟩) := by
  cases c with
  | spawn task =>
      change Accounted s (m + {Holding.nothing})
      rw [add_comm, Multiset.singleton_add]
      refine ⟨hs.logged, ?_, ?_⟩
      · rw [subnetPermits_cons_none rfl]
        exact hs.permits
      · rw [hardwareUsers_cons]
        exact hs.hardware
  | _ =>
      change Accounted s (m + 0)
      rw [add_zero]
      exact hs

/-- **The invariant of the service**: every handler holds what it is entitled by, and the accounts
are kept. -/
theorem ServiceReaches.accounted (h : ServiceReaches X payloadHash σ) :
    service.Judged Entitled (fun _ _ => True) σ.pool.tasks ∧
      Accounted σ.pool.shared σ.pool.holdings := by
  obtain ⟨n, hreach⟩ := h
  refine accounting.system_reaches ?_ hreach (only_runAttestationServer n) ⟨nofun, accounted_start⟩
  intro c hc
  refine ⟨fun t ht => ?_, fun s m hs => hs.start c s⟩
  obtain ⟨ip, rfl⟩ := eq_of_mem_startedBy hc ht
  exact behaves_handler X payloadHash ip

end Reachable

end SevMicroLoader.Attestation
