import SevMicroLoader.Dns.Establish
import SevMicroLoader.Time.Floor

/-!
# The session cache

`getOrEstablishSession` runs under the mutex that all clones of a resolver share, so the calls of
any number of callers are a list (`Served`), each from the content of the cache that the call before
it left. `readings` are the times read in a trace.

A call that takes the session from the cache reads the clock once; every other call is an attempt
to establish a session (`Served.Attempts`). `Disciplined` says what one call among the others does.
-/

namespace SevMicroLoader.Dns
open Rust

variable (K : Packages)

/-- The new session is cached; after an error the cache is as it was. -/
def refresh (cache : Option DnscryptClientState) :
    Client (Except String DnscryptClientState × Option DnscryptClientState) := do
  match ← establishDnscryptSession K with
  | .error e => pure (.error e, cache)
  | .ok newSession => pure (.ok newSession, some newSession)

/-- `get_or_establish_session` with the mutex held: its result, and what it leaves in the cache. -/
def getOrEstablishSession (cache : Option DnscryptClientState) :
    Client (Except String DnscryptClientState × Option DnscryptClientState) := do
  match cache with
  | some session =>
      let now ← readClock
      if now < session.tsEnd.toUInt64 then pure (.ok session, cache) else refresh K cache
  | none => refresh K cache

/-! ## Calls in the order of the mutex -/

/-- A call that has returned. -/
structure Served where
  caller : ℕ
  /-- The cache when the caller got the mutex. -/
  before : Option DnscryptClientState
  trace : Trace
  result : Except String DnscryptClientState
  /-- The cache when it released the mutex. -/
  after : Option DnscryptClientState

/-- The calls that can be served one after the other, by any callers, from a content of the cache
on. -/
def Serves : Option DnscryptClientState → List Served → Prop
  | _, [] => True
  | cache, call :: served =>
      call.before = cache ∧
        Prog.Runs (getOrEstablishSession K cache) call.trace (some (call.result, call.after)) ∧
        Serves call.after served

/-- The time of an event that reads the clock. -/
def reading : Prog.Event Call Call.Reply → Option UInt64
  | ⟨.systemTime, some now⟩ => some (now.getD 0)
  | _ => none

/-- The readings of the clock along a trace. -/
def readings (t : Trace) : List UInt64 := t.filterMap reading

/-- The readings that the call took. -/
def Served.readings (call : Served) : List UInt64 := Dns.readings call.trace

/-- The call tried to establish a session. -/
def Served.Attempts (call : Served) : Prop :=
  ∃ ip query reply, ⟨.sendDnsQueryUdp ip query, reply⟩ ∈ call.trace

/-- The call established the session, under a certificate that was valid when it was checked. -/
structure Served.Established (call : Served) (session : DnscryptClientState) : Prop where
  attempts : call.Attempts
  result : call.result = .ok session
  certificate : ∃ resolver ∈ hardcodedResolvers, ∃ raw cert, ∃ now ∈ call.readings,
    (verifyCert K.ed25519 raw resolver.providerPk now).val = .ok (some cert) ∧
    cert.tsStart.toUInt64 ≤ now ∧ now ≤ cert.tsEnd.toUInt64 ∧
    session.resolverIp = resolver.ip ∧ session.clientMagic = cert.clientMagic ∧
    session.tsEnd = cert.tsEnd

/-- What a call does, after the calls `earlier` and before the calls `later`. -/
structure Disciplined (earlier : List Served) (call : Served) (later : List Served) : Prop where
  /-- A session that is returned was established. -/
  established : ∀ session, call.result = .ok session →
    ∃ e ∈ earlier ++ [call], e.Established K session
  /-- From the cache, a session is returned strictly before its end. -/
  fresh : ¬ call.Attempts → ∃ session now, call.result = .ok session ∧
    call.before = some session ∧ call.readings = [now] ∧ now < session.tsEnd.toUInt64
  /-- A session is established only when none was before or the cached one has reached its end. -/
  needed : call.Attempts → (∀ e ∈ earlier, ∀ session, e.result ≠ .ok session) ∨
    ∃ session now, call.before = some session ∧ call.readings.head? = some now ∧
      session.tsEnd.toUInt64 ≤ now
  /-- Until a session that was returned has reached its end, every call returns it. -/
  shared : ∀ earlier' e between session, earlier = earlier' ++ e :: between →
    e.result = .ok session → ∃ now, call.readings.head? = some now ∧
      (now < session.tsEnd.toUInt64 → call.result = .ok session ∧ ¬ call.Attempts)
  /-- A failure leaves the cache as it was. -/
  kept : ∀ msg, call.result = .error msg → call.after = call.before
  /-- What has reached its end by a reading of this call is not taken from the cache later on. -/
  expired : ∀ e ∈ later, ¬ e.Attempts → ∀ session, e.result = .ok session →
    ∀ now ∈ call.readings, now < session.tsEnd.toUInt64

/-! ## One call -/

variable {K} {cache : Option DnscryptClientState} {call : Served} {served : List Served}

theorem mem_readings {t : Trace} {now : UInt64} :
    now ∈ readings t ↔ ∃ r : Option UInt64, ⟨.systemTime, some r⟩ ∈ t ∧ r.getD 0 = now := by
  rw [readings, List.mem_filterMap]
  constructor
  · rintro ⟨⟨c, r⟩, hmem, h⟩
    cases c with
    | systemTime =>
        cases r with
        | none => cases h
        | some r => exact ⟨r, hmem, Option.some.inj h⟩
    | _ => cases h
  · rintro ⟨r, hmem, h⟩
    exact ⟨_, hmem, congrArg some h⟩

/-- The first thing an establishment does is to send a query. -/
theorem exists_query_of_runs {t : Trace} {o : Option (Except String DnscryptClientState)}
    (hrun : Prog.Runs (establishDnscryptSession K) t o) :
    ∃ ip query reply, ⟨.sendDnsQueryUdp ip query, reply⟩ ∈ t := by
  rcases Prog.Runs.of_call hrun with ⟨r, t', rfl, -⟩ | ⟨-, rfl, -⟩
  · exact ⟨_, _, _, List.mem_cons_self⟩
  · exact ⟨_, _, _, List.mem_cons_self⟩

theorem backed_of_runs {t : Trace} {session : DnscryptClientState}
    (hrun : Prog.Runs (establishDnscryptSession K) t (some (.ok session))) :
    Backed K hardcodedResolvers t session := by
  have h : Leaves (fun t r => ∀ session, r = .ok session → Backed K hardcodedResolvers t session)
      (establishDnscryptSession K) [] := leaves_establish fun _ _ hbacked => hbacked
  have hresult := (h.sound hrun).2 _ rfl session rfl
  rwa [Prog.after_record hrun] at hresult

/-- The cases of a call: the session is taken from the cache, or an establishment is tried. -/
theorem cases_of_runs {t : Trace} {result : Except String DnscryptClientState}
    {cache' : Option DnscryptClientState}
    (hrun : Prog.Runs (getOrEstablishSession K cache) t (some (result, cache'))) :
    (∃ session reply, cache = some session ∧ reply.getD 0 < session.tsEnd.toUInt64 ∧
      t = [⟨.systemTime, some reply⟩] ∧ result = .ok session ∧ cache' = some session) ∨
    ∃ t₀ t₁, t = t₀ ++ t₁ ∧ Prog.Runs (establishDnscryptSession K) t₁ (some result) ∧
      (∀ session, result = .ok session → cache' = some session) ∧
      (∀ msg, result = .error msg → cache' = cache) ∧
      (cache = none ∧ t₀ = [] ∨ ∃ session reply, cache = some session ∧
        session.tsEnd.toUInt64 ≤ reply.getD 0 ∧ t₀ = [⟨.systemTime, some reply⟩]) := by
  have hrefresh : ∀ {t : Trace}, Prog.Runs (refresh K cache) t (some (result, cache')) →
      Prog.Runs (establishDnscryptSession K) t (some result) ∧
        (∀ session, result = .ok session → cache' = some session) ∧
        ∀ msg, result = .error msg → cache' = cache := by
    intro t h
    rcases h.of_bind with ⟨t₁, r, t₂, rfl, h₁, h₂⟩ | ⟨-, h₀⟩
    · cases r with
      | error e =>
          cases h₂
          rw [List.append_nil]
          exact ⟨h₁, nofun, fun _ _ => rfl⟩
      | ok session =>
          cases h₂
          rw [List.append_nil]
          refine ⟨h₁, ?_, nofun⟩
          intro session' hsession'
          cases hsession'
          rfl
    · cases h₀
  cases cache with
  | none =>
      obtain ⟨h₁, hok, herr⟩ := hrefresh hrun
      exact .inr ⟨[], t, rfl, h₁, hok, herr, .inl ⟨rfl, rfl⟩⟩
  | some session =>
      rcases Prog.Runs.of_call hrun with ⟨reply, t', rfl, h⟩ | ⟨-, -, h₀⟩
      · change Prog.Runs (if reply.getD 0 < session.tsEnd.toUInt64 then _ else _) t' _ at h
        split at h
        · next hfresh =>
            cases h
            exact .inl ⟨session, reply, rfl, hfresh, rfl, rfl, rfl⟩
        · next hexpired =>
            obtain ⟨h₁, hok, herr⟩ := hrefresh h
            exact .inr ⟨[⟨.systemTime, some reply⟩], t', rfl, h₁, hok, herr,
              .inr ⟨session, reply, rfl, UInt64.not_lt.mp hexpired, rfl⟩⟩
      · cases h₀

/-- What a single call can do. -/
inductive Step (K : Packages) (call : Served) : Prop
  | cached {session : DnscryptClientState} {now : UInt64} (hattempts : ¬ call.Attempts)
      (hbefore : call.before = some session) (hresult : call.result = .ok session)
      (hafter : call.after = some session) (hreadings : call.readings = [now])
      (hfresh : now < session.tsEnd.toUInt64)
  | attempted (hattempts : call.Attempts)
      (hok : ∀ session, call.result = .ok session →
        call.after = some session ∧ call.Established K session)
      (herror : ∀ msg, call.result = .error msg → call.after = call.before)
      (hbefore : call.before = none ∨ ∃ session now, call.before = some session ∧
        call.readings.head? = some now ∧ session.tsEnd.toUInt64 ≤ now)

theorem step_of_runs
    (hrun : Prog.Runs (getOrEstablishSession K call.before) call.trace
      (some (call.result, call.after)))
    (hfloor : ∀ now ∈ call.readings, Time.lastKnownGoodTimeSecs ≤ now) : Step K call := by
  rcases cases_of_runs hrun with ⟨session, reply, hbefore, hfresh, htrace, hresult, hafter⟩ |
    ⟨t₀, t₁, htrace, hrun₁, hok, herror, hbefore⟩
  · refine .cached ?_ hbefore hresult hafter (?_ : call.readings = [reply.getD 0]) hfresh
    · rintro ⟨ip, query, r, hmem⟩
      rw [htrace, List.mem_singleton] at hmem
      cases hmem
    · rw [Served.readings, htrace]
      rfl
  · have hattempts : call.Attempts := by
      obtain ⟨ip, query, r, hmem⟩ := exists_query_of_runs hrun₁
      exact ⟨ip, query, r, htrace ▸ List.mem_append_right t₀ hmem⟩
    refine .attempted hattempts ?_ herror ?_
    · intro session hresult
      refine ⟨hok session hresult, hattempts, hresult, ?_⟩
      rw [hresult] at hrun₁
      obtain ⟨resolver, hresolver, cert, ⟨raw, r, hmem, hverify⟩, hsession⟩ :=
        backed_of_runs hrun₁
      have hnow : r.getD 0 ∈ call.readings := by
        rw [Served.readings, mem_readings]
        exact ⟨r, htrace ▸ List.mem_append_right t₀ hmem, rfl⟩
      have htrusted : 1700000000 < r.getD 0 :=
        UInt64.lt_of_lt_of_le (by decide) (hfloor _ hnow)
      obtain ⟨hstart, hend⟩ := valid_of_verifyCert htrusted hverify
      exact ⟨resolver, hresolver, raw, cert, _, hnow, hverify, hstart, hend, hsession⟩
    · rcases hbefore with ⟨hnone, -⟩ | ⟨session, reply, hsome, hexpired, hread⟩
      · exact .inl hnone
      · refine .inr ⟨session, reply.getD 0, hsome, ?_, hexpired⟩
        rw [Served.readings, htrace, hread]
        rfl

/-! ## All calls -/

/-- The calls, each with what it can do. -/
def Linked (K : Packages) : Option DnscryptClientState → List Served → Prop
  | _, [] => True
  | cache, call :: served => call.before = cache ∧ Step K call ∧ Linked K call.after served

/-- What the calls leave in the cache. -/
def cacheAfter : Option DnscryptClientState → List Served → Option DnscryptClientState
  | cache, [] => cache
  | _, call :: served => cacheAfter call.after served

/-- Only what a call leaves counts, not what came before it. -/
theorem cacheAfter_append_cons (earlier later : List Served) :
    cacheAfter cache (earlier ++ call :: later) = cacheAfter call.after later := by
  induction earlier generalizing cache with
  | nil => rfl
  | cons _ earlier ih => exact ih

theorem linked_of_serves (h : Serves K cache served)
    (hfloor : ∀ now ∈ served.flatMap Served.readings, Time.lastKnownGoodTimeSecs ≤ now) :
    Linked K cache served := by
  induction served generalizing cache with
  | nil => trivial
  | cons call served ih =>
      obtain ⟨hbefore, hrun, hserves⟩ := h
      rw [List.flatMap_cons] at hfloor
      subst hbefore
      refine ⟨rfl, step_of_runs hrun ?_, ih hserves ?_⟩
      · intro now hnow
        exact hfloor now (List.mem_append_left _ hnow)
      · intro now hnow
        exact hfloor now (List.mem_append_right _ hnow)

theorem linked_append {earlier later : List Served} :
    Linked K cache (earlier ++ later) ↔
      Linked K cache earlier ∧ Linked K (cacheAfter cache earlier) later := by
  induction earlier generalizing cache with
  | nil => simp [Linked, cacheAfter]
  | cons call earlier ih => simp [Linked, cacheAfter, ih, and_assoc]

/-- A call that returns a session leaves it in the cache. -/
theorem Step.after_of_ok {session : DnscryptClientState} (h : Step K call)
    (hresult : call.result = .ok session) : call.after = some session := by
  cases h with
  | cached _ _ hresult' hafter =>
      rw [hresult] at hresult'
      cases hresult'
      exact hafter
  | attempted _ hok => exact (hok session hresult).1

/-- What is in the cache was there before or was established. -/
theorem Linked.origin {session : DnscryptClientState} (h : Linked K cache served)
    (hcache : cacheAfter cache served = some session) :
    cache = some session ∨ ∃ e ∈ served, e.Established K session := by
  induction served generalizing cache with
  | nil => exact .inl hcache
  | cons call served ih =>
      obtain ⟨hbefore, hstep, hlinked⟩ := h
      rcases ih hlinked hcache with hafter | ⟨e, he, hestablished⟩
      · cases hstep with
        | cached _ hbefore' _ hafter' =>
            left
            rw [← hbefore, hbefore', ← hafter', hafter]
        | attempted _ hok herror =>
            cases hresult : call.result with
            | error msg =>
                left
                rw [← hbefore, ← herror msg hresult, hafter]
            | ok session' =>
                obtain ⟨hafter', hestablished⟩ := hok session' hresult
                rw [hafter] at hafter'
                cases hafter'
                exact .inr ⟨call, List.mem_cons_self, hestablished⟩
      · exact .inr ⟨e, List.mem_cons_of_mem _ he, hestablished⟩

/-- The cache is empty only when no call has succeeded. -/
theorem Linked.none_succeeded (h : Linked K cache served)
    (hcache : cacheAfter cache served = none) :
    cache = none ∧ ∀ e ∈ served, ∀ session, e.result ≠ .ok session := by
  induction served generalizing cache with
  | nil => exact ⟨hcache, nofun⟩
  | cons call served ih =>
      obtain ⟨hbefore, hstep, hlinked⟩ := h
      obtain ⟨hafter, hlater⟩ := ih hlinked hcache
      have hfailed : ∀ session, call.result ≠ .ok session := by
        intro session hresult
        rw [hstep.after_of_ok hresult] at hafter
        cases hafter
      refine ⟨?_, ?_⟩
      · cases hstep with
        | cached _ _ hresult => exact absurd hresult (hfailed _)
        | attempted _ _ herror =>
            cases hresult : call.result with
            | error msg => rw [← hbefore, ← herror msg hresult, hafter]
            | ok session => exact absurd hresult (hfailed session)
      · intro e he
        rcases List.mem_cons.mp he with rfl | he
        · exact hfailed
        · exact hlater e he

/-- While every reading is before its end, a session stays in the cache. -/
theorem Linked.stays {session : DnscryptClientState} (h : Linked K (some session) served)
    (hfresh : ∀ now ∈ served.flatMap Served.readings, now < session.tsEnd.toUInt64) :
    cacheAfter (some session) served = some session := by
  induction served with
  | nil => rfl
  | cons call served ih =>
      obtain ⟨hbefore, hstep, hlinked⟩ := h
      rw [List.flatMap_cons] at hfresh
      have hafter : call.after = some session := by
        cases hstep with
        | cached _ hbefore' _ hafter => rw [hafter, ← hbefore', hbefore]
        | attempted _ _ _ hexpired =>
            rcases hexpired with hnone | ⟨session', now, hsome, hhead, hend⟩
            · rw [hbefore] at hnone
              cases hnone
            · rw [hbefore] at hsome
              cases hsome
              have hnow := hfresh now (List.mem_append_left _ (List.mem_of_mem_head? hhead))
              exact absurd hnow (UInt64.not_lt.mpr hend)
      rw [cacheAfter, hafter]
      rw [hafter] at hlinked
      exact ih hlinked fun now hnow => hfresh now (List.mem_append_right _ hnow)

section Discipline
variable {earlier later : List Served} {session : DnscryptClientState}

theorem Step.of_not_attempts (h : Step K call) (hattempts : ¬ call.Attempts) :
    ∃ session now, call.result = .ok session ∧ call.before = some session ∧
      call.readings = [now] ∧ now < session.tsEnd.toUInt64 := by
  cases h with
  | cached _ hbefore hresult _ hreadings hfresh =>
      exact ⟨_, _, hresult, hbefore, hreadings, hfresh⟩
  | attempted hattempts' => exact absurd hattempts' hattempts

theorem Step.of_attempts (h : Step K call) (hattempts : call.Attempts) :
    call.before = none ∨ ∃ session now, call.before = some session ∧
      call.readings.head? = some now ∧ session.tsEnd.toUInt64 ≤ now := by
  cases h with
  | cached hattempts' => exact absurd hattempts hattempts'
  | attempted _ _ _ hbefore => exact hbefore

theorem Step.after_of_error {msg : String} (h : Step K call) (hresult : call.result = .error msg) :
    call.after = call.before := by
  cases h with
  | cached _ _ hresult' =>
      rw [hresult] at hresult'
      cases hresult'
  | attempted _ _ herror => exact herror msg hresult

/-- A session that a call returns was established, by this call or by one before. -/
theorem Step.origin (h : Step K call) (hearlier : Linked K none earlier)
    (hbefore : call.before = cacheAfter none earlier) (hresult : call.result = .ok session) :
    ∃ e ∈ earlier ++ [call], e.Established K session := by
  cases h with
  | cached _ hcached hresult' =>
      rw [hresult] at hresult'
      cases hresult'
      rcases hearlier.origin (hbefore.symm.trans hcached) with hnone | ⟨e, he, hestablished⟩
      · cases hnone
      · exact ⟨e, List.mem_append_left _ he, hestablished⟩
  | attempted _ hok =>
      exact ⟨call, List.mem_append_right _ (List.mem_singleton_self _), (hok session hresult).2⟩

/-- A session that is in the cache at every reading before its end is returned at the first one. -/
theorem Step.returns (h : Step K call) (hne : call.before ≠ none)
    (hstays : ∀ now ∈ call.readings, now < session.tsEnd.toUInt64 → call.before = some session) :
    ∃ now, call.readings.head? = some now ∧
      (now < session.tsEnd.toUInt64 → call.result = .ok session ∧ ¬ call.Attempts) := by
  cases h with
  | cached hattempts hcached hresult _ hreadings =>
      refine ⟨_, by rw [hreadings]; rfl, ?_⟩
      intro hfresh
      have hsame := hstays _ (by rw [hreadings]; exact List.mem_singleton_self _) hfresh
      rw [hcached] at hsame
      cases hsame
      exact ⟨hresult, hattempts⟩
  | attempted _ _ _ hbefore =>
      rcases hbefore with hnone | ⟨session', now, hsome, hhead, hend⟩
      · exact absurd hnone hne
      · refine ⟨now, hhead, ?_⟩
        intro hfresh
        have hsame := hstays now (List.mem_of_mem_head? hhead) hfresh
        rw [hsome] at hsame
        cases hsame
        exact absurd hfresh (UInt64.not_lt.mpr hend)

/-- A session that is taken from the cache has not ended at some reading. -/
theorem Linked.fresh_of_mem {e : Served} (h : Linked K cache later) (he : e ∈ later)
    (hattempts : ¬ e.Attempts) (hresult : e.result = .ok session) :
    ∃ now ∈ later.flatMap Served.readings, now < session.tsEnd.toUInt64 := by
  obtain ⟨later₁, later₂, rfl⟩ := List.append_of_mem he
  obtain ⟨-, -, hstep, -⟩ := linked_append.mp h
  obtain ⟨session', now, hresult', -, hreadings, hfresh⟩ := hstep.of_not_attempts hattempts
  rw [hresult] at hresult'
  cases hresult'
  refine ⟨now, List.mem_flatMap.mpr ⟨e, he, ?_⟩, hfresh⟩
  rw [hreadings]
  exact List.mem_singleton_self _

end Discipline

/-- **The session cache.** Whoever calls and in whatever order, with a clock that does not go back
and stays at or above the floor: every session returned was established under a certificate valid
at its check; one from the cache is returned strictly before its end; sessions are established
only when needed and shared until their end; failures change nothing. -/
theorem session_cache (K : Packages) {served : List Served} (hserves : Serves K none served)
    (hclock : (served.flatMap Served.readings).Pairwise (· ≤ ·))
    (hfloor : ∀ now ∈ served.flatMap Served.readings, Time.lastKnownGoodTimeSecs ≤ now)
    {earlier later : List Served} {call : Served} (hcall : served = earlier ++ call :: later) :
    Disciplined K earlier call later := by
  have hlinked := linked_of_serves hserves hfloor
  rw [hcall] at hlinked hclock
  obtain ⟨hearlier, hbefore, hstep, hlater⟩ := linked_append.mp hlinked
  rw [List.flatMap_append, List.flatMap_cons] at hclock
  obtain ⟨-, hfrom, horder⟩ := List.pairwise_append.mp hclock
  constructor
  case established =>
    intro session hresult
    exact hstep.origin hearlier hbefore hresult
  case fresh => exact hstep.of_not_attempts
  case needed =>
    intro hattempts
    refine (hstep.of_attempts hattempts).imp_left fun hnone => ?_
    exact (hearlier.none_succeeded (hbefore.symm.trans hnone)).2
  case shared =>
    intro earlier' e between session hsplit hresult
    subst hsplit
    obtain ⟨-, -, he, hbetween⟩ := linked_append.mp hearlier
    rw [he.after_of_ok hresult] at hbetween
    have hcache : call.before = cacheAfter (some session) between := by
      rw [hbefore, cacheAfter_append_cons, he.after_of_ok hresult]
    apply hstep.returns
    · intro hnone
      rw [hcache] at hnone
      cases (hbetween.none_succeeded hnone).1
    · intro now hnow hfresh
      rw [hcache]
      apply hbetween.stays
      intro now' hnow'
      -- the readings between the two calls come before those of this call
      have hmem : now' ∈ (earlier' ++ e :: between).flatMap Served.readings := by
        rw [List.flatMap_append, List.flatMap_cons]
        exact List.mem_append_right _ (List.mem_append_right _ hnow')
      exact UInt64.lt_of_le_of_lt (horder now' hmem now (List.mem_append_left _ hnow)) hfresh
  case kept =>
    intro msg hresult
    exact hstep.after_of_error hresult
  case expired =>
    intro e he hattempts session hresult now hnow
    obtain ⟨now', hmem, hfresh⟩ := hlater.fresh_of_mem he hattempts hresult
    exact UInt64.lt_of_le_of_lt ((List.pairwise_append.mp hfrom).2.2 now hnow now' hmem) hfresh

/-! ## A cache that outlives its session -/

/-- A certificate from the floor on, for eight thousand seconds. -/
def sampleCert : Bytes :=
  bstr "DNSC" ++ [0x00, 0x02, 0x00, 0x00] ++ List.replicate 64 1 ++ List.replicate 32 2 ++
    List.replicate 8 3 ++ Endian.toBE 4 1 ++ Endian.toBE 4 1780272000 ++ Endian.toBE 4 1780280000

def sampleCertReply : Bytes :=
  [0xab, 0xcd, 0x81, 0x80, 0x00, 0x01, 0x00, 0x01, 0x00, 0x00, 0x00, 0x00] ++
    [0x00, 0x00, 0x10, 0x00, 0x01] ++ [0xc0, 0x0c, 0x00, 0x10, 0x00, 0x01] ++
    [0x00, 0x00, 0x00, 0x3c, 0x00, 0x7d, 0x7c] ++ sampleCert

/-- Packages that take every signature. -/
def samplePackages : Packages where
  ed25519 _ _ _ := true
  cipher := countingCipher
  hchacha20 key _ := key

/-- One time, and resolvers that answer or do not. -/
def sampleEnv (up : Bool) (now : UInt64) (_ : Trace) : (c : Call) → Option c.Reply
  | .sendDnsQueryUdp _ _ => some (if up then .ok sampleCertReply else .error "timed out")
  | .sendDnsQueryTcp _ _ => some (.error "refused")
  | .systemTime => some (some now)
  | .generate => some (some (padded 32 [9]))
  | .computePublicKey _ => some (some (padded 32 [7]))
  | .agreeEphemeral _ _ => some (some (List.replicate 32 5))
  | .fill n => some (some (padded n []))
  | .abort _ => none

theorem sampleEnv_replies {up : Bool} {now : UInt64} (past : Trace) (c : Call)
    (h : sampleEnv up now past c = none) : IsEmpty c.Reply := by
  cases c with
  | abort s => exact ⟨Empty.elim⟩
  | _ => cases h

/-- A call in the environment above. -/
def sampleRun (before : Option DnscryptClientState) (up : Bool) (now : UInt64) :
    Trace × Option (Except String DnscryptClientState × Option DnscryptClientState) :=
  Prog.exec (sampleEnv up now) (getOrEstablishSession samplePackages before) []

theorem runs_sampleRun (before : Option DnscryptClientState) (up : Bool) (now : UInt64) :
    Prog.Runs (getOrEstablishSession samplePackages before) (sampleRun before up now).1
      (sampleRun before up now).2 :=
  Prog.runs_exec sampleEnv_replies _ []

/-- The call as it was served. -/
def sampleCall (caller : ℕ) (before : Option DnscryptClientState) (up : Bool) (now : UInt64) :
    Served where
  caller := caller
  before := before
  trace := (sampleRun before up now).1
  result := ((sampleRun before up now).2.map Prod.fst).getD (.error "")
  after := ((sampleRun before up now).2.map Prod.snd).getD before

theorem serves_sampleCall {caller : ℕ} {before : Option DnscryptClientState} {up : Bool}
    {now : UInt64} {served : List Served} (h : (sampleRun before up now).2.isSome)
    (hserved : Serves samplePackages (sampleCall caller before up now).after served) :
    Serves samplePackages before (sampleCall caller before up now :: served) := by
  have hrun := runs_sampleRun before up now
  refine ⟨rfl, ?_, hserved⟩
  obtain ⟨⟨result, cache⟩, hreturn⟩ := Option.isSome_iff_exists.mp h
  rw [hreturn] at hrun
  simpa [sampleCall, hreturn] using hrun

/-- The first caller establishes. -/
def sampleFirst : Served := sampleCall 1 none true 1780272100

/-- A second later than here, the session has ended. -/
def sampleSecond : Served := sampleCall 2 sampleFirst.after true 1780279999

/-- No resolver answers any more. -/
def sampleThird : Served := sampleCall 1 sampleSecond.after false 1780280000

theorem session_cache_sample :
    Disciplined samplePackages [sampleFirst] sampleSecond [sampleThird] ∧
      sampleSecond.readings = [1780279999] ∧ sampleSecond.after.isSome := by
  have hthird : Serves samplePackages sampleSecond.after [sampleThird] :=
    serves_sampleCall (by decide +kernel) trivial
  have hsecond : Serves samplePackages sampleFirst.after [sampleSecond, sampleThird] :=
    serves_sampleCall (by decide +kernel) hthird
  have hserves : Serves samplePackages none [sampleFirst, sampleSecond, sampleThird] :=
    serves_sampleCall (by decide +kernel) hsecond
  have hreadings : [sampleFirst, sampleSecond, sampleThird].flatMap Served.readings =
      [1780272100, 1780279999, 1780280000] := by decide +kernel
  refine ⟨session_cache samplePackages hserves ?_ ?_ rfl, by decide +kernel, by decide +kernel⟩
  · rw [hreadings]
    decide +kernel
  · rw [hreadings]
    simp only [List.forall_mem_cons, List.not_mem_nil, false_implies, implies_true, and_true]
    decide +kernel

end SevMicroLoader.Dns
