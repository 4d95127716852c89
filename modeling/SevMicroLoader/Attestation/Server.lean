import Mathlib.Data.List.DropRight
import SevMicroLoader.Lib.Loop
import SevMicroLoader.Attestation.Binding

/-!
# The accept loop

`runAttestationServer` binds its port and accepts connections for ever; `acceptRound` is one pass
of its loop. A pass spawns a handler, or counts an error, or does neither. `othersSinceSuccess` is
what the counter stands for, and `Served` says what any number of passes do with the outcomes of
`accept`.
-/

namespace SevMicroLoader.Attestation
open Rust

/-! ## Calls -/

def attestationPort : UInt16 := 8080

def maxConsecutiveErrors : UInt32 := 10

/-- `std::io::ErrorKind`, as far as the loop tells kinds apart. -/
inductive ErrorKind
  | connectionAborted
  | connectionReset
  | brokenPipe
  | interrupted
  | anyOther
  deriving DecidableEq

/-- `std::io::Error`. -/
structure IoError where
  kind : ErrorKind
  rawOsError : Option Int32

/-- `EMFILE`. -/
def emfile : Int32 := 24

/-- `ENFILE`. -/
def enfile : Int32 := 23

/-- What the accept loop asks of its environment. -/
inductive ServerCall
  /-- `TcpListener::bind(addr)`. -/
  | bind (addr : String)
  /-- `listener.accept()`: the peer's address, with the stream. -/
  | accept
  /-- `tokio::spawn` of a handler for the accepted stream. -/
  | spawn (task : Handler (Except String Unit))
  | sleepMillis (ms : ℕ)
  | shutdown (message : String)

/-- What the environment answers. -/
abbrev ServerCall.Reply : ServerCall → Type
  | .bind _ => Except String Unit
  | .accept => Except IoError IpAddr
  | .spawn _ => Unit
  | .sleepMillis _ => Unit
  | .shutdown _ => Empty

/-- A program of the accept loop. -/
abbrev Server := Prog ServerCall ServerCall.Reply

/-- `panic_shutdown`, from the accept loop. -/
def serverShutdown {α : Type} (message : String) : Server α :=
  .call (.shutdown message) Empty.elim

/-! ## The loop -/

/-- The kinds of error that are ignored. -/
def IoError.isBenign (e : IoError) : Bool :=
  e.kind = .connectionAborted ∨ e.kind = .connectionReset ∨ e.kind = .brokenPipe ∨
    e.kind = .interrupted

/-- The errors that say that descriptors ran out. -/
def IoError.outOfDescriptors (e : IoError) : Bool :=
  e.rawOsError = some emfile ∨ e.rawOsError = some enfile

variable (X : Externals) (payloadHash : String)

/-- One pass of the loop, from counter to counter. -/
def acceptRound (consecutiveErrors : UInt32) : Server UInt32 :=
  .call .accept fun
    | .ok ip =>
        .call (.spawn (handleAttestationConnection X payloadHash ip)) fun _ => pure 0
    | .error e =>
        -- An error that is not counted leaves the counter as it is; only a success resets it.
        if e.isBenign then pure consecutiveErrors
        else if e.outOfDescriptors then .call (.sleepMillis 100) fun _ => pure consecutiveErrors
        else .call (.sleepMillis 100) fun _ =>
          if consecutiveErrors + 1 ≥ maxConsecutiveErrors then
            serverShutdown ("Attestation server failed " ++ toString maxConsecutiveErrors ++
              " consecutive accepts. Possible interference detected. System integrity compromised.")
          else pure (consecutiveErrors + 1)

/-- The address that is listened on. -/
def listenAddr : String := "0.0.0.0:" ++ toString attestationPort

/-- The server, up to its `n`th pass. -/
def runAttestationServer (n : ℕ) : Server UInt32 :=
  .call (.bind listenAddr) fun
    | .error e => serverShutdown ("Failed to bind attestation port: " ++ e)
    | .ok () => Prog.rounds (acceptRound X payloadHash) n 0

/-! ## What a run shows -/

/-- How an `accept` ends. -/
abbrev Outcome := Except IoError IpAddr

/-- A trace of the accept loop. -/
abbrev ServerTrace := List (Prog.Event ServerCall ServerCall.Reply)

/-- The outcomes of `accept`, in order. -/
def outcomes (t : ServerTrace) : List Outcome :=
  t.filterMap fun
    | ⟨.accept, reply⟩ => reply
    | _ => none

/-- The tasks that were spawned, in order. -/
def spawned (t : ServerTrace) : List (Handler (Except String Unit)) :=
  t.filterMap fun
    | ⟨.spawn task, _⟩ => some task
    | _ => none

/-- The last call is a shutdown. -/
def EndsInShutdown (t : ServerTrace) : Prop := ∃ t₀ message, t = t₀ ++ [⟨.shutdown message, none⟩]

/-- A connection was accepted. -/
def Outcome.isSuccess : Outcome → Bool
  | .ok _ => true
  | .error _ => false

/-- An error of none of the four kinds that are ignored, and without one of the two numbers that
say that descriptors ran out: 24, for the process, and 23, for the system. -/
def Outcome.isOther : Outcome → Bool
  | .ok _ => false
  | .error e =>
      e.kind ∉ [ErrorKind.connectionAborted, .connectionReset, .brokenPipe, .interrupted] ∧
        e.rawOsError ∉ [some 24, some 23]

/-- The other errors behind the last success. -/
def othersSinceSuccess (os : List Outcome) : ℕ :=
  (os.rtakeWhile fun x => !Outcome.isSuccess x).countP Outcome.isOther

/-- The outcome `x` behind `before` is an other error, and brings their number to the limit. -/
def Exhausted (before : List Outcome) (x : Outcome) : Prop :=
  Outcome.isOther x ∧ othersSinceSuccess (before ++ [x]) = maxConsecutiveErrors.toNat

/-- The handler of a success. -/
def handlerOf : Outcome → Option (Handler (Except String Unit))
  | .ok ip => some (handleAttestationConnection X payloadHash ip)
  | .error _ => none

/-- The tests of the loop single out the other errors. -/
theorem isOther_error (e : IoError) :
    Outcome.isOther (.error e) = (!e.isBenign && !e.outOfDescriptors) := by
  have hbenign : e.isBenign ↔ e.kind = .connectionAborted ∨ e.kind = .connectionReset ∨
      e.kind = .brokenPipe ∨ e.kind = .interrupted := decide_eq_true_iff
  have hdesc : e.outOfDescriptors ↔ e.rawOsError = some 24 ∨ e.rawOsError = some 23 :=
    decide_eq_true_iff
  rw [Bool.eq_iff_iff, Bool.and_eq_true, Bool.not_eq_true', Bool.not_eq_true', ← Bool.not_eq_true,
    ← Bool.not_eq_true, hbenign, hdesc]
  simp [Outcome.isOther]

/-! ## The counter -/

@[simp] theorem othersSinceSuccess_ok (os : List Outcome) (ip : IpAddr) :
    othersSinceSuccess (os ++ [.ok ip]) = 0 := by
  rw [othersSinceSuccess, List.rtakeWhile_concat_neg _ _ _ (by simp [Outcome.isSuccess])]
  rfl

theorem othersSinceSuccess_error (os : List Outcome) (e : IoError) :
    othersSinceSuccess (os ++ [.error e]) =
      othersSinceSuccess os + if Outcome.isOther (.error e) then 1 else 0 := by
  rw [othersSinceSuccess, List.rtakeWhile_concat_pos _ _ _ rfl, List.countP_append,
    List.countP_singleton]
  rfl

/-- The counter after an outcome; `none` when it reaches its limit. -/
def nextErrors (consecutiveErrors : UInt32) : Outcome → Option UInt32
  | .ok _ => some 0
  | .error e =>
      if Outcome.isOther (.error e) then
        if consecutiveErrors + 1 ≥ maxConsecutiveErrors then none else some (consecutiveErrors + 1)
      else some consecutiveErrors

section
variable {X payloadHash} {c c' : UInt32} {past : List Outcome} {x : Outcome}

/-- The counter counts the other errors behind the last success, and stays below its limit. -/
structure Counts (past : List Outcome) (c : UInt32) : Prop where
  eq : c.toNat = othersSinceSuccess past
  lt : c.toNat < maxConsecutiveErrors.toNat

theorem counts_start : Counts [] 0 := ⟨rfl, by decide⟩

theorem Counts.toNat_succ (hc : Counts past c) : (c + 1).toNat = c.toNat + 1 := by
  have hlt : c.toNat < 10 := hc.lt
  rw [UInt32.toNat_add]
  exact Nat.mod_eq_of_lt (by change c.toNat + 1 < 2 ^ 32; omega)

/-- The limit is reached when one more is. -/
theorem Counts.limit_le_iff (hc : Counts past c) :
    c + 1 ≥ maxConsecutiveErrors ↔ othersSinceSuccess past + 1 = maxConsecutiveErrors.toNat := by
  have hlt := hc.lt
  rw [ge_iff_le, UInt32.le_iff_toNat_le, hc.toNat_succ, ← hc.eq]
  omega

/-- A counter that goes on counts one outcome more, and nothing was exhausted. -/
theorem Counts.of_next_some (hc : Counts past c) (h : nextErrors c x = some c') :
    Counts (past ++ [x]) c' ∧ ¬ Exhausted past x := by
  cases x with
  | ok ip =>
      cases h
      exact ⟨⟨(othersSinceSuccess_ok past ip).symm, by decide⟩, fun h => Bool.false_ne_true h.1⟩
  | error e =>
      rw [nextErrors] at h
      rw [Exhausted, othersSinceSuccess_error]
      split at h
      · next hother =>
        split at h
        · cases h
        · next hlimit =>
          cases h
          rw [hc.limit_le_iff] at hlimit
          rw [if_pos hother]
          refine ⟨⟨?_, ?_⟩, fun hex => hlimit hex.2⟩
          · rw [hc.toNat_succ, othersSinceSuccess_error, if_pos hother, hc.eq]
          · have hlt := hc.lt
            rw [hc.toNat_succ]
            rw [← hc.eq] at hlimit
            omega
      · next hother =>
        cases h
        refine ⟨⟨?_, hc.lt⟩, fun hex => hother hex.1⟩
        rw [othersSinceSuccess_error, if_neg hother, hc.eq, Nat.add_zero]

/-- A counter stops at the outcome that exhausts it. -/
theorem Counts.of_next_none (hc : Counts past c) (h : nextErrors c x = none) :
    Exhausted past x := by
  cases x with
  | ok ip => cases h
  | error e =>
      rw [nextErrors] at h
      split at h
      · next hother =>
        split at h
        · next hlimit =>
          refine ⟨hother, ?_⟩
          rw [othersSinceSuccess_error, if_pos hother]
          exact hc.limit_le_iff.mp hlimit
        · cases h
      · cases h

/-! ## One pass -/

@[simp] theorem outcomes_append (t t' : ServerTrace) :
    outcomes (t ++ t') = outcomes t ++ outcomes t' := List.filterMap_append

@[simp] theorem spawned_append (t t' : ServerTrace) :
    spawned (t ++ t') = spawned t ++ spawned t' := List.filterMap_append

/-- **One pass of a run** has one outcome, spawns its handler if it is a success, and leaves the
counter behind it. -/
theorem runs_acceptRound {t : ServerTrace} {o : Option UInt32}
    (h : Prog.Runs (acceptRound X payloadHash c) t o) :
    ∃ x, outcomes t = [x] ∧ spawned t = (handlerOf X payloadHash x).toList ∧
      o = nextErrors c x := by
  obtain ⟨x, t₁, rfl, hrest⟩ := Prog.Runs.of_replied (.error ⟨.anyOther, none⟩) h
  refine ⟨x, ?_⟩
  cases x with
  | ok ip =>
      obtain ⟨_, rfl, rfl⟩ := Prog.Runs.of_replied_pure () hrest
      exact ⟨rfl, rfl, rfl⟩
  | error e =>
      dsimp only at hrest
      rw [nextErrors, isOther_error]
      -- The cases are split in the order of the tests in the loop.
      cases hbenign : e.isBenign with
      | true =>
          rw [if_pos hbenign] at hrest
          obtain ⟨rfl, rfl⟩ := hrest.of_pure
          exact ⟨rfl, rfl, rfl⟩
      | false =>
          rw [if_neg (Bool.eq_false_iff.mp hbenign)] at hrest
          cases hdesc : e.outOfDescriptors with
          | true =>
              rw [if_pos hdesc] at hrest
              obtain ⟨_, rfl, rfl⟩ := Prog.Runs.of_replied_pure () hrest
              exact ⟨rfl, rfl, rfl⟩
          | false =>
              rw [if_neg (Bool.eq_false_iff.mp hdesc)] at hrest
              obtain ⟨_, t₂, rfl, hcount⟩ := Prog.Runs.of_replied () hrest
              split at hcount
              · next hlimit =>
                rcases Prog.Runs.of_call hcount with ⟨r, -⟩ | ⟨-, rfl, rfl⟩
                · exact r.elim
                · exact ⟨rfl, rfl, (if_pos hlimit).symm⟩
              · next hlimit =>
                obtain ⟨rfl, rfl⟩ := hcount.of_pure
                exact ⟨rfl, rfl, (if_neg hlimit).symm⟩

/-- A listener with one outcome. -/
def acceptEnv (x : Outcome) (_ : ServerTrace) : (call : ServerCall) → Option call.Reply
  | .bind _ => some (.ok ())
  | .accept => some x
  | .spawn _ => some ()
  | .sleepMillis _ => some ()
  | .shutdown _ => none

theorem isEmpty_of_acceptEnv {x : Outcome} {past : ServerTrace} {call : ServerCall}
    (h : acceptEnv x past call = none) : IsEmpty call.Reply := by
  cases call with
  | shutdown message => exact inferInstanceAs (IsEmpty Empty)
  | _ => cases h

/-- Every outcome has a pass. -/
theorem exists_runs_acceptRound (X : Externals) (payloadHash : String) (c : UInt32) (x : Outcome) :
    ∃ t, Prog.Runs (acceptRound X payloadHash c) t (nextErrors c x) ∧ outcomes t = [x] := by
  have henv : ∀ past call, acceptEnv x past call = none → IsEmpty call.Reply :=
    fun _ _ => isEmpty_of_acceptEnv
  have hrun := Prog.runs_exec henv (acceptRound X payloadHash c) []
  obtain ⟨x', hout, -, hnext⟩ := runs_acceptRound hrun
  have hx : outcomes (Prog.exec (acceptEnv x) (acceptRound X payloadHash c) []).1 = x :: _ := rfl
  obtain rfl : x = x' := (List.cons.inj (hx.symm.trans hout)).1
  exact ⟨_, hnext ▸ hrun, hout⟩

/-! ## Any number of passes -/

/-- What `n` passes behind the outcomes `past` come to: they stop at an outcome exactly when it
exhausts the counter, spawn one handler for each success, and take `n` outcomes if they do not
stop. -/
structure Served (X : Externals) (payloadHash : String) (past : List Outcome) (n : ℕ)
    (t : ServerTrace) (o : Option UInt32) : Prop where
  stops : ∀ before x after, outcomes t = before ++ x :: after →
    (after = [] ∧ o = none ↔ Exhausted (past ++ before) x)
  spawns : spawned t = (outcomes t).filterMap (handlerOf X payloadHash)
  consumes : o ≠ none → (outcomes t).length = n
  accepts : o = none → outcomes t ≠ []

variable {n : ℕ} {t t₁ t₂ : ServerTrace} {o : Option UInt32}

/-- No pass, no outcome. -/
theorem Served.zero : Served X payloadHash past 0 [] (some c) where
  stops before x after h := absurd h (by simp [outcomes])
  spawns := rfl
  consumes _ := rfl
  accepts h := nomatch h

/-- A pass that stops is the last. -/
theorem Served.stop (hout : outcomes t = [x])
    (hspawn : spawned t = (handlerOf X payloadHash x).toList) (hex : Exhausted past x) :
    Served X payloadHash past (n + 1) t none where
  stops before y after hsplit := by
    rw [hout] at hsplit
    obtain ⟨rfl, hfirst⟩ | ⟨before', rfl, hlater⟩ := List.cons_eq_append_iff.mp hsplit
    · cases hfirst
      rw [List.append_nil]
      exact ⟨fun _ => hex, fun _ => ⟨rfl, rfl⟩⟩
    · exact absurd hlater.symm (by simp)
  spawns := by
    rw [hspawn, hout]
    cases x <;> rfl
  consumes h := absurd rfl h
  accepts _ := by
    rw [hout]
    exact List.cons_ne_nil _ _

/-- A pass that goes on, and what comes behind it. -/
theorem Served.cons (hout : outcomes t₁ = [x])
    (hspawn : spawned t₁ = (handlerOf X payloadHash x).toList) (hex : ¬ Exhausted past x)
    (h : Served X payloadHash (past ++ [x]) n t₂ o) :
    Served X payloadHash past (n + 1) (t₁ ++ t₂) o where
  stops before y after hsplit := by
    rw [outcomes_append, hout, List.singleton_append] at hsplit
    obtain ⟨rfl, hfirst⟩ | ⟨before', rfl, hlater⟩ := List.cons_eq_append_iff.mp hsplit
    · cases hfirst
      rw [List.append_nil]
      exact ⟨fun ⟨hnil, ho⟩ => absurd hnil (h.accepts ho), fun hyes => absurd hyes hex⟩
    · have hrest := h.stops before' y after hlater
      rwa [List.append_assoc, List.singleton_append] at hrest
  spawns := by
    rw [spawned_append, outcomes_append, hspawn, hout, h.spawns, List.singleton_append,
      List.filterMap_cons]
    cases x <;> rfl
  consumes ho := by
    rw [outcomes_append, hout, List.singleton_append, List.length_cons, h.consumes ho]
  accepts _ := by
    rw [outcomes_append, hout]
    exact List.cons_ne_nil _ _

/-- **Any number of passes.** The induction is on the passes, with the counter standing for the
outcomes so far. -/
theorem served_of_runs (h : Prog.Runs (Prog.rounds (acceptRound X payloadHash) n c) t o)
    (hc : Counts past c) : Served X payloadHash past n t o := by
  induction n generalizing past c t with
  | zero =>
      obtain ⟨rfl, rfl⟩ := h.of_pure
      exact .zero
  | succ n ih =>
      rcases Prog.Runs.of_bind h with ⟨t₁, c', t₂, rfl, hround, hrest⟩ | ⟨hstop, rfl⟩
      · obtain ⟨x, hout, hspawn, hnext⟩ := runs_acceptRound hround
        obtain ⟨hc', hex⟩ := hc.of_next_some hnext.symm
        exact .cons hout hspawn hex (ih hrest hc')
      · obtain ⟨x, hout, hspawn, hnext⟩ := runs_acceptRound hstop
        exact .stop hout hspawn (hc.of_next_none hnext.symm)

/-- Outcomes that stop at the last one at the earliest are those of a run. -/
theorem exists_runs_rounds (os : List Outcome) (hc : Counts past c)
    (hos : ∀ before x after, os = before ++ x :: after → Exhausted (past ++ before) x →
      after = []) :
    ∃ t o, Prog.Runs (Prog.rounds (acceptRound X payloadHash) os.length c) t o ∧
      outcomes t = os := by
  induction os generalizing past c with
  | nil => exact ⟨[], _, .ret _, rfl⟩
  | cons x os ih =>
      obtain ⟨t₁, hround, hout⟩ := exists_runs_acceptRound X payloadHash c x
      cases hnext : nextErrors c x with
      | none =>
          have hexhausted := hc.of_next_none hnext
          rw [← List.append_nil past] at hexhausted
          obtain rfl := hos [] x os rfl hexhausted
          rw [hnext] at hround
          exact ⟨t₁, none, hround.bind_halted, hout⟩
      | some c' =>
          have hc' := (hc.of_next_some hnext).1
          rw [hnext] at hround
          obtain ⟨t₂, o, hrest, hout₂⟩ := ih hc' fun before y after hsplit hex =>
            hos (x :: before) y after (by rw [hsplit, List.cons_append])
              (by rwa [List.append_assoc] at hex)
          refine ⟨t₁ ++ t₂, o, hround.bind hrest, ?_⟩
          rw [outcomes_append, hout, hout₂, List.singleton_append]

/-- The passes of a server that got its port. -/
theorem runs_runAttestationServer
    (h : Prog.Runs (Prog.rounds (acceptRound X payloadHash) n 0) t o) :
    Prog.Runs (runAttestationServer X payloadHash n)
      (⟨.bind listenAddr, some (.ok ())⟩ :: t) o := by
  rw [runAttestationServer]
  exact .reply _ h

/-- The only call that does not return is the shutdown. -/
theorem endsInShutdown_iff {α : Type} {p : Server α} {o : Option α} (h : Prog.Runs p t o) :
    EndsInShutdown t ↔ o = none := by
  constructor
  · rintro ⟨t₀, message, rfl⟩
    cases o with
    | none => rfl
    | some a => exact absurd rfl (h.replied _ (List.mem_append_right _ List.mem_cons_self))
  · rintro rfl
    obtain ⟨t₀, call, hempty, rfl⟩ := h.halted
    cases call with
    | shutdown message => exact ⟨t₀, message, rfl⟩
    | bind addr => exact hempty.elim (.ok ())
    | accept => exact hempty.elim (.error ⟨.anyOther, none⟩)
    | spawn task => exact hempty.elim ()
    | sleepMillis ms => exact hempty.elim ()

end

/-- **The accept watchdog.** With its port bound, the server shuts down right behind an outcome
exactly when this is an other error and the last of as many behind the last success as the limit
says; every success has one handler, in order; and passes that do not end in a shutdown go on. Any
outcomes are those of a run, as long as they do not go on behind such an error. -/
theorem accept_watchdog (X : Externals) (payloadHash : String) :
    (∀ (n : ℕ) (t : ServerTrace) (o : Option UInt32),
      Prog.Runs (runAttestationServer X payloadHash n)
        (⟨.bind listenAddr, some (.ok ())⟩ :: t) o →
      (∀ before x after, outcomes t = before ++ x :: after →
        (after = [] ∧ EndsInShutdown t ↔ Outcome.isOther x ∧
          othersSinceSuccess (before ++ [x]) = maxConsecutiveErrors.toNat)) ∧
      spawned t = (outcomes t).filterMap (handlerOf X payloadHash) ∧
      (¬ EndsInShutdown t → (outcomes t).length = n)) ∧
    ∀ os : List Outcome, (∀ before x after, os = before ++ x :: after →
        Outcome.isOther x ∧ othersSinceSuccess (before ++ [x]) = maxConsecutiveErrors.toNat →
        after = []) →
      ∃ t o, Prog.Runs (runAttestationServer X payloadHash os.length)
        (⟨.bind listenAddr, some (.ok ())⟩ :: t) o ∧ outcomes t = os := by
  constructor
  · intro n t o h
    obtain ⟨r, t', ht, hrounds⟩ := Prog.Runs.of_replied (.ok ()) h
    cases ht
    have hserved := served_of_runs hrounds counts_start
    have hends := endsInShutdown_iff hrounds
    refine ⟨fun before x after hsplit => ?_, hserved.spawns, fun hno => ?_⟩
    · rw [hends]
      exact hserved.stops before x after hsplit
    · exact hserved.consumes (hno ∘ hends.mpr)
  · intro os hos
    obtain ⟨t, o, hrun, hout⟩ := @exists_runs_rounds X payloadHash 0 [] os counts_start hos
    exact ⟨t, o, runs_runAttestationServer hrun, hout⟩

/-- Ten other errors in a row. -/
theorem accept_watchdog_sample :
    ∃ t o, Prog.Runs (runAttestationServer sampleExternals "00" 10)
      (⟨.bind listenAddr, some (.ok ())⟩ :: t) o ∧ EndsInShutdown t := by
  have henv : ∀ past call, acceptEnv (.error ⟨.anyOther, none⟩) past call = none →
      IsEmpty call.Reply := fun _ _ => isEmpty_of_acceptEnv
  have hrun := runs_runAttestationServer
    (Prog.runs_exec henv (Prog.rounds (acceptRound sampleExternals "00") 10 0) [])
  obtain ⟨hstops, -⟩ := (accept_watchdog sampleExternals "00").1 10 _ _ hrun
  refine ⟨_, _, hrun, ?_⟩
  exact ((hstops (List.replicate 9 (.error ⟨.anyOther, none⟩)) _ [] rfl).mpr
    ⟨rfl, by decide⟩).2

end SevMicroLoader.Attestation
