import SevMicroLoader.Dns.Resolver

/-!
# Runs of the resolver

What the invariant says of every state the resolver can get to: however its tasks are interleaved
and wherever they are dropped, the session is established and read by one task at a time, and an
address comes from an answer to the task's own query. The actions of a task are bounded, and the
mutex does not stop it: if every call of a socket returns, then all tasks do and it is free.
-/

namespace SevMicroLoader.Dns
open Rust

/-! ## One section at a time -/

/-- A task with the guard. -/
def holdsGuard (t : ResolverTask) : Bool := t.held.guard.isSome

/-- A session that a section came to its end with. -/
def WasServed (s : Mutex) (session : DnscryptClientState) : Prop :=
  ∃ e ∈ s.served, e.result = .ok session

section Runs
variable {K : Packages}

theorem ResolverReaches.request {client : Prog Request (fun _ => Unit) Unit} {request : Request}
    {ts : List ResolverTask} {s : Mutex}
    (h : ResolverReaches K ⟨.call request fun _ => client, ⟨ts, s⟩⟩) :
    ResolverReaches K ⟨client, ⟨ts ++ tasksOf K request, s⟩⟩ := by
  obtain ⟨start, hreach⟩ := h
  exact ⟨start, hreach.tail (.main ())⟩

theorem ResolverReaches.act {client : Prog Request (fun _ => Unit) Unit}
    {c c' : Prog.Pool ResolverCall (fun c => Option c.Reply) (Option (Except ResolveError Addrs))
      Holding Mutex}
    (h : ResolverReaches K ⟨client, c⟩) (hact : (mutex Awaits).Act c c') :
    ResolverReaches K ⟨client, c'⟩ := by
  obtain ⟨start, hreach⟩ := h
  exact ⟨start, hreach.tail (.pool (.act hact))⟩

theorem ResolverReaches.reply {client : Prog Request (fun _ => Unit) Unit} {c : ResolverCall}
    {k : Option c.Reply → Prog ResolverCall (fun c => Option c.Reply)
      (Option (Except ResolveError Addrs))} {held : Holding} {s s' : Mutex}
    (h : ResolverReaches K ⟨client, ⟨[⟨.call c k, held⟩], s⟩⟩) (r : Option c.Reply)
    (hreply : (mutex Awaits).reply s c r s') :
    ResolverReaches K ⟨client, ⟨[⟨k r, held.next c r⟩], s'⟩⟩ :=
  h.act (.call [] [] hreply)

theorem Serialised.one_guard {s : Mutex} {ts : List ResolverTask}
    (hs : Serialised K s (Prog.Pool.holdings ⟨ts, s⟩)) :
    ts.countP holdsGuard ≤ 1 ∧ (s.guard = none → ts.countP holdsGuard = 0) := by
  have hperm : List.Perm ((ts.map Prog.Task.held).filterMap Holding.guard) s.guard.toList :=
    Multiset.coe_eq_coe.mp hs.guards
  have hcount : ((ts.map Prog.Task.held).filterMap Holding.guard).length =
      ts.countP holdsGuard := by
    rw [List.length_filterMap_eq_countP, List.countP_map]
    rfl
  rw [← hcount, hperm.length_eq]
  cases s.guard with
  | none => exact ⟨Nat.zero_le 1, fun _ => rfl⟩
  | some g => exact ⟨le_rfl, nofun⟩

/-- A task that has the mutex, and awaits its first query. -/
theorem exists_locked (K : Packages) (domain : String) :
    ∃ c k, Awaits (.inside c) ∧ k none = .ret none ∧ ResolverReaches K
      ⟨.ret (), ⟨[⟨.call (.inside c) k, ⟨domain, some ⟨none, []⟩, none, []⟩⟩],
        ⟨none, some ⟨none, []⟩, []⟩⟩⟩ := by
  have hstart : ResolverReaches K ⟨.call ⟨1, domain⟩ fun _ => .ret (), ⟨[], .start⟩⟩ := ⟨_, .refl⟩
  have hrequest : ResolverReaches K
      ⟨.ret (), ⟨[⟨.call .lock _, .start domain⟩], .start⟩⟩ := hstart.request
  have hlocked := hrequest.reply (some none) ⟨rfl, rfl, rfl⟩
  exact ⟨.sendDnsQueryUdp _ _, _, trivial, rfl, hlocked⟩

end Runs

/-! ## A task with the mutex to itself -/

/-- What a reply makes of the mutex. -/
def Mutex.next (s : Mutex) : (c : ResolverCall) → Option c.Reply → Mutex
  | .lock, some content => { s with guard := some ⟨content, []⟩ }
  | .inside c, some r => { s with guard := s.guard.map fun g => g.record c r }
  | .unlock caller result content, some _ =>
      { content := content
        guard := none
        served := s.served ++
          (s.guard.map fun g => ⟨caller, g.before, g.trace, result, content⟩).toList }
  | _, _ => s

abbrev ResolverTrace := List (Prog.Event ResolverCall fun c => Option c.Reply)

/-- The calls of a section, none of them dropped. -/
def insideTrace (t : Trace) : ResolverTrace := t.map fun x => ⟨.inside x.1, x.2.map some⟩

def outsideTrace (t : Trace) : ResolverTrace := t.map fun x => ⟨.outside x.1, x.2.map some⟩

section Alone
variable {s : Mutex} {g : Guard}

theorem permits_insideTrace (t : Trace) :
    (mutex Awaits).Permits Mutex.next s (insideTrace t) := by
  induction t generalizing s with
  | nil => trivial
  | cons x t ih =>
      obtain ⟨c, r⟩ := x
      cases r with
      | none => exact ih
      | some r => exact ⟨rfl, ih⟩

theorem permits_outsideTrace (t : Trace) :
    (mutex Awaits).Permits Mutex.next s (outsideTrace t) := by
  induction t generalizing s with
  | nil => trivial
  | cons x t ih =>
      obtain ⟨c, r⟩ := x
      cases r with
      | none => exact ih
      | some r => exact ⟨rfl, ih⟩

theorem after_insideTrace (t : Trace) (h : s.guard = some g) :
    Prog.after Mutex.next s (insideTrace t) =
      { s with guard := some ⟨g.before, Prog.after Prog.record g.trace t⟩ } := by
  induction t generalizing s g with
  | nil =>
      obtain ⟨content, guard, served⟩ := s
      cases h
      rfl
  | cons x t ih =>
      obtain ⟨c, r⟩ := x
      cases r with
      | none => exact ih h
      | some r =>
          have hguard : (s.next (.inside c) (some r)).guard = some (g.record c r) := by
            rw [Mutex.next, h]
            rfl
          exact ih hguard

theorem after_outsideTrace (t : Trace) : Prog.after Mutex.next s (outsideTrace t) = s := by
  induction t with
  | nil => rfl
  | cons x t ih =>
      obtain ⟨c, r⟩ := x
      cases r with
      | none => exact ih
      | some r => exact ih

theorem domain_after (h : Holding) (t : ResolverTrace) :
    (Prog.after Holding.next h t).domain = h.domain := by
  induction t generalizing h with
  | nil => rfl
  | cons x t ih =>
      obtain ⟨c, r⟩ := x
      cases r with
      | none => exact ih h
      | some r =>
          refine (ih (h.next c r)).trans ?_
          cases c <;> cases r <;> rfl

/-- The calls of a task that finds `before` in the mutex: those of its section, with what this comes
to, and those of its query. -/
def resolveTrace (caller : ℕ) (before : Option DnscryptClientState) (t : Trace)
    (result : Except String DnscryptClientState) (content : Option DnscryptClientState)
    (query : Trace) : ResolverTrace :=
  ⟨.lock, some (some before)⟩ :: (insideTrace t ++
    ⟨.unlock caller result content, some (some ())⟩ :: outsideTrace query)

/-- What a task makes of the result of its query. -/
def resolved : Except String IpAddr → Except ResolveError Addrs
  | .error e => .error ⟨.notFound, e⟩
  | .ok ip => .ok [(ip, 0)]

/-- A section and a query make a run of a task. -/
theorem runs_resolve {K : Packages} (caller : ℕ) (domain : String)
    {before content : Option DnscryptClientState} {session : DnscryptClientState}
    {t query : Trace} {r : Except String IpAddr}
    (hsection : Prog.Runs (getOrEstablishSession K before) t (some (.ok session, content)))
    (hquery : Prog.Runs (resolveDomainViaDnscryptSession K session domain) query (some r)) :
    Prog.Runs (resolve K caller domain).droppable
      (resolveTrace caller before t (.ok session) content query) (some (some (resolved r))) := by
  have hlock : Prog.Runs (lockSession K caller)
      (⟨.lock, some before⟩ :: (t.map (fun x => ⟨.inside x.1, x.2⟩) ++
        [⟨.unlock caller (.ok session) content, some ()⟩])) (some (.ok session)) := by
    refine .call ((hsection.embed (f := ResolverCall.inside)).bind ?_)
    exact .call (.ret _)
  have hresolve : Prog.Runs (resolve K caller domain)
      ((⟨.lock, some before⟩ :: (t.map (fun x => ⟨.inside x.1, x.2⟩) ++
        [⟨.unlock caller (.ok session) content, some ()⟩])) ++
          (query.map (fun x => ⟨.outside x.1, x.2⟩) ++ []))
      (some (resolved r)) := by
    rw [resolve]
    refine hlock.bind (Prog.Runs.bind (hquery.embed (f := ResolverCall.outside)) ?_)
    cases r <;> exact .ret _
  have hwhole := hresolve.droppable
  simpa [resolveTrace, insideTrace, outsideTrace, Function.comp_def] using hwhole

/-- A task can go through its section and its query while the others stand still. -/
theorem reaches_resolve {K : Packages} (caller : ℕ) (domain : String)
    {content : Option DnscryptClientState} {session : DnscryptClientState} {t query : Trace}
    {r : Except String IpAddr} (hguard : s.guard = none)
    (hsection : Prog.Runs (getOrEstablishSession K s.content) t (some (.ok session, content)))
    (hquery : Prog.Runs (resolveDomainViaDnscryptSession K session domain) query (some r))
    (before behind : List ResolverTask) :
    (mutex Awaits).Reaches
      ⟨before ++ ⟨(resolve K caller domain).droppable, .start domain⟩ :: behind, s⟩
      ⟨before ++ ⟨.ret (some (resolved r)), Prog.after Holding.next (.start domain)
          (resolveTrace caller s.content t (.ok session) content query)⟩ :: behind,
        ⟨content, none, s.served ++ [⟨caller, s.content, t, .ok session, content⟩]⟩⟩ := by
  have hpermits : (mutex Awaits).Permits Mutex.next s
      (resolveTrace caller s.content t (.ok session) content query) := by
    refine ⟨⟨hguard, rfl, rfl⟩, Prog.Sharing.permits_append.mpr ⟨permits_insideTrace _, ?_⟩⟩
    exact ⟨rfl, permits_outsideTrace _⟩
  have hafter : Prog.after Mutex.next s
      (resolveTrace caller s.content t (.ok session) content query) =
        ⟨content, none, s.served ++ [⟨caller, s.content, t, .ok session, content⟩]⟩ := by
    rw [resolveTrace, Prog.after_cons_some, Prog.after_append,
      after_insideTrace (g := ⟨s.content, []⟩) t rfl, Prog.after_cons_some, after_outsideTrace,
      Prog.after_record hsection]
    rfl
  have hreach := Prog.Sharing.reaches_of_runs (h := .start domain)
    (runs_resolve caller domain hsection hquery) hpermits before behind
  rwa [hafter] at hreach

end Alone

/-- **The mutex makes one resolver of many.** In every interleaving of the tasks, with any of them
dropped where they await something, the sections that came to their end were served one after the
other and left the session that is cached; at most one task holds the guard, and only it
establishes; any other call is made under a session that was served, and sends nothing but the
query in its box; and the addresses of a name were read from an answer to this query. -/
theorem resolver_serialised (K : Packages) (σ : Resolver) (h : ResolverReaches K σ) :
    Serves K none σ.pool.shared.served ∧
    σ.pool.shared.content = cacheAfter none σ.pool.shared.served ∧
    σ.pool.tasks.countP holdsGuard ≤ 1 ∧
    (∀ t ∈ σ.pool.tasks, ∀ c k, t.left = .call (.inside c) k → holdsGuard t) ∧
    (∀ t ∈ σ.pool.tasks, ∀ c k, t.left = .call (.outside c) k →
      ∃ session, WasServed σ.pool.shared session ∧ Asks K session t.held.domain t.held.asked c) ∧
    ∀ t ∈ σ.pool.tasks, ∀ addrs, t.left = .ret (some (.ok addrs)) →
      ∃ session ip, WasServed σ.pool.shared session ∧ addrs = [(ip, 0)] ∧
        Resolved K session t.held.domain t.held.asked ip := by
  obtain ⟨hjudged, hs⟩ := h.serialised
  have hserved : ∀ t ∈ σ.pool.tasks, ∀ session, t.held.session = some session →
      WasServed σ.pool.shared session := by
    intro t ht
    exact hs.sessions t.held (Multiset.mem_coe.mpr (List.mem_map_of_mem ht))
  refine ⟨hs.served, hs.content, (Serialised.one_guard hs).1, ?_, ?_, ?_⟩
  · intro t ht c k hleft
    have hholds := hjudged t ht
    rw [hleft] at hholds
    exact hholds.1.1
  · intro t ht c k hleft
    have hholds := hjudged t ht
    rw [hleft] at hholds
    obtain ⟨-, session, hsession, hasks⟩ := hholds.1
    exact ⟨session, hserved t ht session hsession, hasks⟩
  · intro t ht addrs hleft
    have hholds := hjudged t ht
    rw [hleft] at hholds
    obtain ⟨session, ip, hsession, haddrs, hresolved⟩ := hholds _ rfl _ rfl
    exact ⟨session, ip, hserved t ht session hsession, haddrs, hresolved⟩

/-- Whether a section serves a session and leaves it. -/
def servesSession : Option (Except String DnscryptClientState × Option DnscryptClientState) → Bool
  | some (.ok session, content) => content = some session
  | _ => false

theorem exists_of_servesSession
    {o : Option (Except String DnscryptClientState × Option DnscryptClientState)}
    (h : servesSession o) : ∃ session, o = some (.ok session, some session) := by
  unfold servesSession at h
  split at h
  · next session content =>
    obtain rfl := of_decide_eq_true h
    exact ⟨session, rfl⟩
  · cases h

/-- A query that gets no random bytes. -/
theorem runs_resolveSession_unfilled (K : Packages) (session : DnscryptClientState)
    (domain : String) : Prog.Runs (resolveDomainViaDnscryptSession K session domain)
      [⟨.fill 12, some none⟩] (some (.error "Entropy read failed: Unspecified")) :=
  .call (.ret _)

/-- A task that was served a session and is done, and a second one in its section. -/
theorem resolver_serialised_locked : ∃ σ session, ResolverReaches samplePackages σ ∧
    WasServed σ.pool.shared session ∧ σ.pool.tasks.length = 2 ∧
    Serves samplePackages none σ.pool.shared.served ∧ σ.pool.shared.content = some session ∧
    σ.pool.tasks.countP holdsGuard = 1 := by
  have hsection := runs_sampleRun none true 1780272100
  obtain ⟨session, hserved⟩ := exists_of_servesSession
    (show servesSession (sampleRun none true 1780272100).2 by decide +kernel)
  rw [hserved] at hsection
  have halone := reaches_resolve 1 "github.com" (s := .start) rfl hsection
    (runs_resolveSession_unfilled samplePackages session "github.com") [] []
  have hfirst : ResolverReaches samplePackages
      ⟨.call ⟨2, "github.com"⟩ fun _ => .ret (), _⟩ :=
    ⟨.call ⟨1, "github.com"⟩ fun _ => .call ⟨2, "github.com"⟩ fun _ => .ret (),
      .head (.main ()) (halone.system _)⟩
  have hsecond := hfirst.request.act (.call [_] []
    (show (mutex Awaits).reply _ .lock (some (some session)) _ from ⟨rfl, rfl, rfl⟩))
  obtain ⟨hserves, -, hguards, -⟩ := resolver_serialised samplePackages _ hsecond
  refine ⟨_, session, hsecond, ⟨_, List.mem_singleton_self _, rfl⟩, rfl, hserves, rfl, ?_⟩
  exact le_antisymm hguards
    (List.countP_pos_iff.mpr ⟨_, List.mem_append_right [_] List.mem_cons_self, rfl⟩)

/-! ## The resolver comes to rest -/

section Rest
variable {K : Packages} {α : Type}

theorem atMost_run (x : Checked α) : Prog.AtMost 1 (run x) := by
  rw [run]
  split
  · exact Prog.atMost_pure _ _
  · exact .call fun r => r.elim

theorem atMost_runResult (x : Checked α) : Prog.AtMost 1 (runResult x) := by
  rw [runResult]
  split
  · exact Prog.atMost_pure _ _
  · exact Prog.atMost_pure _ _
  · exact .call fun r => r.elim

theorem atMost_sendDnsQuery (ip : SocketAddr) (query : Bytes) :
    Prog.AtMost 2 (sendDnsQuery ip query false) := by
  have htcp : Prog.AtMost 1
      (Prog.perform (Call.sendDnsQueryTcp ip query) : Client (Except String Bytes)) :=
    .call fun _ => Prog.atMost_pure _ _
  refine .call fun reply => ?_
  cases reply with
  | error e => exact htcp
  | ok resp => exact .ite (fun _ => htcp) fun _ => Prog.atMost_pure _ _

theorem atMost_bestCert (providerPk : ByteArr 32) (certsRaw : List Bytes)
    (best : Option DnscryptCert) :
    Prog.AtMost (2 * certsRaw.length) (bestCert K providerPk certsRaw best) := by
  induction certsRaw generalizing best with
  | nil => exact Prog.atMost_pure _ _
  | cons certRaw certsRaw ih =>
      have hverify : Prog.AtMost 2 (verifyCertNow K certRaw providerPk) := by
        refine (atMost_run _).bind (n := 1) fun cert => ?_
        cases cert with
        | none => exact Prog.atMost_pure _ _
        | some cert => exact .call fun _ => Prog.atMost_pure _ _
      rw [List.length_cons, Nat.mul_add, Nat.add_comm]
      refine hverify.bind fun cert => ?_
      cases cert with
      | none => exact ih best
      | some cert => exact ih _

theorem length_visitTxt {data : Bytes} {results texts : List Bytes} {rtype : UInt16} {o k : ℕ}
    (h : (visitTxt data results rtype o k).val = .ok texts) :
    texts.length ≤ results.length + 1 := by
  rw [visitTxt] at h
  split at h
  · obtain ⟨_, -, h⟩ := Metered.val_bind_eq_ok.mp h
    obtain ⟨_, -, h⟩ := Metered.val_bind_eq_ok.mp h
    obtain ⟨txtData, -, h⟩ := Metered.val_bind_eq_ok.mp h
    split at h
    · cases h
      exact Nat.le_succ _
    · cases h
      rw [List.length_append, List.length_singleton]
  · cases h
    exact Nat.le_succ _

/-- A walk over `n` answers finds at most `n` texts. -/
theorem length_recordLoop {data : Bytes} {n o : ℕ} {results texts : List Bytes}
    (h : (recordLoop (visitTxt data) data n o results).val = .ok texts) :
    texts.length ≤ results.length + n := by
  induction n generalizing o results with
  | zero =>
      cases h
      exact le_rfl
  | succ n ih =>
      have hstop : ∀ {r : List Bytes}, (pure r : Checked (List Bytes)).val = .ok texts →
          texts.length ≤ r.length + (n + 1) := by
        intro r hr
        cases hr
        exact Nat.le_add_right _ _
      rw [recordLoop] at h
      split at h
      · exact hstop h
      obtain ⟨_, -, h⟩ := Metered.val_bind_eq_ok.mp h
      split at h
      · exact hstop h
      obtain ⟨_, -, h⟩ := Metered.val_bind_eq_ok.mp h
      obtain ⟨_, -, h⟩ := Metered.val_bind_eq_ok.mp h
      split at h
      · exact hstop h
      obtain ⟨_, -, h⟩ := Metered.val_bind_eq_ok.mp h
      obtain ⟨_, -, h⟩ := Metered.val_bind_eq_ok.mp h
      obtain ⟨_, -, h⟩ := Metered.val_bind_eq_ok.mp h
      obtain ⟨_, -, h⟩ := Metered.val_bind_eq_ok.mp h
      obtain ⟨_, -, h⟩ := Metered.val_bind_eq_ok.mp h
      split at h
      · exact hstop h
      obtain ⟨_, hvisit, h⟩ := Metered.val_bind_eq_ok.mp h
      obtain ⟨_, -, h⟩ := Metered.val_bind_eq_ok.mp h
      have hrest := ih h
      have hone := length_visitTxt hvisit
      omega

/-- The count of answers has 16 bits. -/
theorem length_parseTxtResponse {data : Bytes} {texts : List Bytes}
    (h : (parseTxtResponse data).val = .ok texts) : texts.length ≤ 65535 := by
  rw [parseTxtResponse, walkRecords] at h
  split at h
  · cases h
    exact Nat.zero_le _
  obtain ⟨ancount, hcount, h⟩ := Metered.val_bind_eq_ok.mp h
  obtain ⟨_, -, h⟩ := Metered.val_bind_eq_ok.mp h
  obtain ⟨_, -, h⟩ := Metered.val_bind_eq_ok.mp h
  have hlength := length_recordLoop h
  obtain ⟨count, -, hcount⟩ := Metered.val_bind_eq_ok.mp hcount
  cases hcount
  have hlt := count.toNat_lt
  rw [List.length_nil] at hlength
  omega

theorem atMost_agree (resolver : HardcodedResolver) (cert : DnscryptCert) :
    Prog.AtMost 3 (agree K resolver cert) := by
  refine .call fun sk => ?_
  cases sk with
  | none => exact Prog.atMost_pure _ _
  | some sk =>
      refine .call fun pk => ?_
      cases pk with
      | none => exact Prog.atMost_pure _ _
      | some pk =>
          refine .call fun secret => ?_
          cases secret with
          | none => exact Prog.atMost_pure _ _
          | some secret =>
              change Prog.AtMost 0 (if h : secret.length = 32 then _ else _)
              split
              · exact Prog.atMost_pure _ _
              · exact Prog.atMost_pure _ _

/-- For each resolver at most two queries and a reading of the clock for each text; one agreement
in all. -/
theorem atMost_establishFrom (resolvers : List HardcodedResolver) (errors : List String) :
    Prog.AtMost (resolvers.length * 131073 + 3) (establishFrom K resolvers errors) := by
  induction resolvers generalizing errors with
  | nil => exact Prog.atMost_pure _ _
  | cons resolver resolvers ih =>
      have hsplit : (resolvers.length + 1) * 131073 + 3 =
          2 + (131070 + (resolvers.length * 131073 + 4)) := by omega
      rw [establishFrom, List.length_cons, hsplit]
      refine (atMost_sendDnsQuery _ _).bind fun reply => ?_
      cases reply with
      | error e => exact (ih _).mono (by omega)
      | ok respData =>
          have hwithin : Metered.Within (respData.length + 2 ^ 17, 0) (fun _ => False)
              (fun _ => True) (parseTxtResponse respData) := within_parseTxtResponse le_rfl
          obtain ⟨certsRaw, hparse, -⟩ := hwithin.exists_ok
          have hrun : run (parseTxtResponse respData) = pure certsRaw := by rw [run, hparse]
          have hlength := length_parseTxtResponse hparse
          dsimp only
          rw [hrun, pure_bind]
          refine ((atMost_bestCert resolver.providerPk certsRaw none).mono (by omega)).bind
            fun best => ?_
          cases best with
          | some cert => exact (atMost_agree resolver cert).mono (by omega)
          | none => exact (ih _).mono (by omega)

theorem atMost_establish : Prog.AtMost 393222 (establishDnscryptSession K) :=
  atMost_establishFrom hardcodedResolvers []

theorem atMost_getOrEstablishSession (cache : Option DnscryptClientState) :
    Prog.AtMost 393223 (getOrEstablishSession K cache) := by
  have hrefresh : Prog.AtMost 393222 (refresh K cache) := by
    refine atMost_establish.bind (n := 0) fun r => ?_
    cases r <;> exact Prog.atMost_pure _ _
  cases cache with
  | none => exact hrefresh.mono (by omega)
  | some session =>
      refine .call fun now => ?_
      exact .ite (fun _ => Prog.atMost_pure _ _) fun _ => hrefresh

theorem atMost_resolveSession (session : DnscryptClientState) (domain : String) :
    Prog.AtMost 5 (resolveDomainViaDnscryptSession K session domain) := by
  refine .perform_bind fun nonce => ?_
  cases nonce with
  | none => exact Prog.atMost_pure _ _
  | some nonce =>
      dsimp only
      -- Nothing needs to look into the box.
      generalize xchacha20DjbPoly1305Encrypt _ _ _ _ = encrypted
      refine (atMost_run encrypted).bind (n := 3) fun query => ?_
      refine (atMost_sendDnsQuery _ _).bind (n := 1) fun reply => ?_
      cases reply with
      | error e => exact Prog.atMost_pure _ _
      | ok packet => exact atMost_runResult _

/-- **A task is bounded.** -/
theorem atMost_resolve (caller : ℕ) (domain : String) :
    Prog.AtMost 393230 (resolve K caller domain) := by
  have hlock : Prog.AtMost 393225 (lockSession K caller) := by
    refine .perform_bind fun cache => ?_
    refine (Prog.AtMost.embed (f := ResolverCall.inside)
      (atMost_getOrEstablishSession cache)).bind (n := 1) fun served => ?_
    exact .perform_bind fun _ => Prog.atMost_pure _ _
  refine hlock.bind (n := 5) fun r => ?_
  cases r with
  | error e => exact Prog.atMost_pure _ _
  | ok session =>
      refine (Prog.AtMost.embed (f := ResolverCall.outside)
        (atMost_resolveSession session domain)).bind (n := 0) fun r => ?_
      cases r <;> exact Prog.atMost_pure _ _

theorem ResolverReaches.atMost {σ : Resolver} (h : ResolverReaches K σ) :
    ∀ t ∈ σ.pool.tasks, Prog.AtMost 393230 t.left := by
  obtain ⟨client, hreach⟩ := h
  refine hreach.forall_tasks (A := fun _ => True) ?_ ?_ (Prog.only_true client) nofun
  · intro c k hcall r
    obtain ⟨m, hm, hr⟩ := hcall.reply r
    exact hr.mono (by omega)
  · intro request _ t ht
    cases List.mem_singleton.mp ht
    exact (atMost_resolve request.caller request.domain).droppable

/-- The guards a task has to give back. -/
def Holding.size (h : Holding) : ℕ := if h.guard.isSome then 1 else 0

theorem settling_mutex (drops : ResolverCall → Prop) : (mutex drops).Settling Holding.size 1 where
  le h := by
    rw [Holding.size]
    split <;> omega
  release := by
    rintro h s h' s' ⟨hsome, rfl, -⟩
    simp [Holding.size, hsome]

theorem exists_reply {c : Call} (h : ¬ IsAbort c) : Nonempty c.Reply := by
  cases c with
  | sendDnsQueryUdp ip query => exact ⟨.error ""⟩
  | sendDnsQueryTcp ip query => exact ⟨.error ""⟩
  | systemTime => exact ⟨none⟩
  | generate => exact ⟨none⟩
  | computePublicKey sk => exact ⟨none⟩
  | agreeEphemeral sk pk => exact ⟨none⟩
  | fill n => exact ⟨none⟩
  | abort s => exact absurd trivial h

/-- A call that a task is entitled to can be replied to, unless another task has the mutex. -/
theorem exists_reply_mutex {h : Holding} {s : Mutex} {c : ResolverCall} (hentitled : Entitled K h c)
    (hfree : s.guard = none ∨ h.guard.isSome) :
    ∃ r s', (mutex fun _ => False).reply s c r s' := by
  cases c with
  | lock =>
      have hnothing : h = .start h.domain := hentitled
      rcases hfree with hfree | hheld
      · exact ⟨some s.content, _, hfree, rfl, rfl⟩
      · rw [hnothing] at hheld
        cases hheld
  | inside c =>
      obtain ⟨r⟩ := exists_reply hentitled.2
      exact ⟨some r, _, rfl⟩
  | unlock caller result content => exact ⟨some (), _, rfl⟩
  | outside c =>
      obtain ⟨-, session, -, hasks⟩ := hentitled
      have hno : ¬ IsAbort c := by
        intro habort
        cases c <;> first | exact habort | exact hasks
      obtain ⟨r⟩ := exists_reply hno
      exact ⟨some r, _, rfl⟩

/-- **No deadlock.** While a task has not returned or a guard is held, some task can go on. -/
theorem exists_act {ts : List ResolverTask} {s : Mutex}
    (hjudged : Prog.Sharing.Judged (mutex Awaits) (Entitled K) (Ends K) ts)
    (hs : Serialised K s (Prog.Pool.holdings ⟨ts, s⟩))
    (hbusy : s.guard ≠ none ∨ ∃ t ∈ ts, ∀ r, t.left ≠ .ret r) :
    ∃ c', (mutex fun _ => False).Act ⟨ts, s⟩ c' := by
  have hact : ∀ t ∈ ts, (s.guard = none ∧ ∀ r, t.left ≠ .ret r) ∨ t.held.guard.isSome →
      ∃ c', (mutex fun _ => False).Act ⟨ts, s⟩ c' := by
    intro t ht hcan
    obtain ⟨before, after, rfl⟩ := List.append_of_mem ht
    have hholds := hjudged t ht
    obtain ⟨left, held⟩ := t
    cases left with
    | ret r =>
        rcases hcan with ⟨-, hne⟩ | hheld
        · exact absurd rfl (hne r)
        · exact ⟨_, .release before after ⟨hheld, rfl, rfl⟩⟩
    | call c k =>
        obtain ⟨r, s', hreply⟩ := exists_reply_mutex hholds.1 (hcan.imp And.left id)
        exact ⟨_, .call before after hreply⟩
  cases hopen : s.guard with
  | none =>
      rcases hbusy with hne | ⟨t, ht, hne⟩
      · exact absurd hopen hne
      · exact hact t ht (.inl ⟨hopen, hne⟩)
  | some g =>
      -- Whoever has the guard can go on.
      have hmem : g ∈ (ts.map Prog.Task.held).filterMap Holding.guard := by
        have hguards := hs.guards
        rw [hopen] at hguards
        exact (Multiset.coe_eq_coe.mp hguards).mem_iff.mpr (List.mem_singleton_self g)
      obtain ⟨held, hheld, hg⟩ := List.mem_filterMap.mp hmem
      obtain ⟨t, ht, rfl⟩ := List.mem_map.mp hheld
      exact hact t ht (.inr (by rw [hg]; rfl))

end Rest

/-- **The resolver comes to rest**, if every call of a socket returns. While the client asks for no
other name, at most 393231 actions are left for each task, in any interleaving; and when no task can
go on without being dropped, every one has returned and the mutex is free. -/
theorem resolver_comes_to_rest (K : Packages) (σ : Resolver) (h : ResolverReaches K σ) (m : ℕ)
    (c : Prog.Pool ResolverCall (fun c => Option c.Reply) (Option (Except ResolveError Addrs))
      Holding Mutex)
    (hwork : (mutex Awaits).Work m σ.pool c) :
    m ≤ σ.pool.tasks.length * 393231 ∧
    ((mutex fun _ => False).Resting c →
      (∀ t ∈ c.tasks, ∃ r, t.left = .ret r) ∧ c.shared.guard = none) := by
  refine ⟨hwork.le (settling_mutex Awaits) h.atMost, fun hrest => ?_⟩
  obtain ⟨hjudged, hs⟩ := (accounting_mutex Awaits).reaches hwork.reaches h.serialised
  constructor
  · intro t ht
    by_contra hne
    obtain ⟨c', hact⟩ := exists_act hjudged hs (.inr ⟨t, ht, fun r hr => hne ⟨r, hr⟩⟩)
    exact hrest c' hact
  · by_contra hne
    obtain ⟨c', hact⟩ := exists_act hjudged hs (.inl hne)
    exact hrest c' hact

/-- A task that is dropped in its section, and gives the guard back. -/
theorem resolver_comes_to_rest_dropped : ∃ σ c, ResolverReaches samplePackages σ ∧
    (mutex Awaits).Work 2 σ.pool c ∧ 2 ≤ σ.pool.tasks.length * 393231 ∧
    (mutex fun _ => False).Resting c ∧ c.shared.guard = none := by
  obtain ⟨c, k, hawaits, hnone, hreach⟩ := exists_locked samplePackages "github.com"
  have hdrop : (mutex Awaits).Act
      ⟨[⟨.call (.inside c) k, ⟨"github.com", some ⟨none, []⟩, none, []⟩⟩],
        ⟨none, some ⟨none, []⟩, []⟩⟩
      ⟨[⟨k none, ⟨"github.com", some ⟨none, []⟩, none, []⟩⟩], ⟨none, some ⟨none, []⟩, []⟩⟩ :=
    .call [] [] ⟨hawaits, rfl⟩
  rw [hnone] at hdrop
  have hrelease : (mutex Awaits).Act
      ⟨[(⟨.ret none, ⟨"github.com", some ⟨none, []⟩, none, []⟩⟩ : ResolverTask)],
        ⟨none, some ⟨none, []⟩, []⟩⟩
      ⟨[⟨.ret none, .start "github.com"⟩], ⟨none, none, []⟩⟩ :=
    .release [] [] ⟨rfl, rfl, rfl⟩
  have hwork := ((Prog.Sharing.Work.refl _).act hdrop).act hrelease
  have hresting : (mutex fun _ => False).Resting
      ⟨[(⟨.ret none, .start "github.com"⟩ : ResolverTask)], ⟨none, none, []⟩⟩ := by
    refine Prog.Sharing.resting_of_released fun t ht => ?_
    cases List.mem_singleton.mp ht
    exact ⟨⟨none, rfl⟩, fun s h' s' hrel => Bool.false_ne_true hrel.1⟩
  obtain ⟨hle, hrest⟩ := resolver_comes_to_rest samplePackages _ hreach 2 _ hwork
  exact ⟨_, _, hreach, hwork, hle, hresting, (hrest hresting).2⟩

end SevMicroLoader.Dns
