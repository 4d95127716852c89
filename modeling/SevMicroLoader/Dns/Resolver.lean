import SevMicroLoader.Dns.Cache
import SevMicroLoader.Lib.Tasks

/-!
# The resolver of the HTTP client

The client calls `resolve` for a name whenever it connects, and the tasks run side by side over one
session behind a mutex. It may drop a task wherever that awaits something; a guard that is dropped
leaves the mutex free and its content as it was.

A task records its critical section (`Guard`) and the calls it makes afterwards. `Serialised` ties
the mutex to the guards that the tasks hold: there is one at most, and the sections that came to
their end are calls that can be served one after the other.

## Main definitions

* `resolve` — one task.
* `mutex`, `Resolver`, `ResolverReaches` — any number of tasks, in every interleaving.
* `Entitled`, `Resolved` — what a task may call, and what it has to show for an address.
* `Serialised` — the invariant.
-/

namespace SevMicroLoader.Dns
open Rust

/-! ## One task -/

/-- `std::io::ErrorKind`, as far as the resolver makes errors. -/
inductive ErrorKind
  | other
  | notFound

/-- `std::io::Error::new(kind, message)`. -/
structure ResolveError where
  kind : ErrorKind
  message : String

/-- What a task of the resolver asks of its environment. -/
inductive ResolverCall
  /-- `self.session.lock().await`, with the content of the mutex. -/
  | lock
  /-- A call made while the guard is held. -/
  | inside (c : Call)
  /-- The guard goes when `get_or_establish_session` returns, with `content` behind it. -/
  | unlock (caller : ℕ) (result : Except String DnscryptClientState)
      (content : Option DnscryptClientState)
  /-- A call made without the guard. -/
  | outside (c : Call)

/-- What the environment answers. -/
abbrev ResolverCall.Reply : ResolverCall → Type
  | .lock => Option DnscryptClientState
  | .inside c => c.Reply
  | .unlock _ _ _ => Unit
  | .outside c => c.Reply

/-- The addresses of a name, with their ports. -/
abbrev Addrs := List (IpAddr × UInt16)

variable (K : Packages)

/-- `get_or_establish_session`, with its mutex. -/
def lockSession (caller : ℕ) :
    Prog ResolverCall ResolverCall.Reply (Except String DnscryptClientState) := do
  let cache ← Prog.perform ResolverCall.lock
  let served ← Prog.embed ResolverCall.inside (getOrEstablishSession K cache)
  Prog.perform (ResolverCall.unlock caller served.1 served.2)
  pure served.1

/-- `resolve`: a session under the lock, and the query without it. -/
def resolve (caller : ℕ) (domain : String) :
    Prog ResolverCall ResolverCall.Reply (Except ResolveError Addrs) := do
  match ← lockSession K caller with
  | .error e => pure (.error ⟨.other, e⟩)
  | .ok session =>
      match ← Prog.embed ResolverCall.outside
          (resolveDomainViaDnscryptSession K session domain) with
      | .error e => pure (.error ⟨.notFound, e⟩)
      | .ok ip => pure (.ok [(ip, 0)])

/-! ## The mutex -/

/-- A critical section: what it found in the mutex, and its calls so far. -/
structure Guard where
  before : Option DnscryptClientState
  trace : Trace

/-- A call is made under the guard. -/
def Guard.record (g : Guard) (c : Call) (r : c.Reply) : Guard :=
  { g with trace := Prog.record g.trace c r }

/-- What a task holds: the guard, later the session it was given, and its calls from there on. -/
structure Holding where
  domain : String
  guard : Option Guard
  session : Option DnscryptClientState
  asked : Trace

/-- The task has no guard and no session yet. -/
def Holding.start (domain : String) : Holding := ⟨domain, none, none, []⟩

/-- A dropped call leaves everything as it is. -/
def Holding.next (h : Holding) : (c : ResolverCall) → Option c.Reply → Holding
  | .lock, some content => { h with guard := some ⟨content, []⟩ }
  | .inside c, some r => { h with guard := h.guard.map fun g => g.record c r }
  | .unlock _ result _, some _ => { h with guard := none, session := result.toOption }
  | .outside c, some r => { h with asked := Prog.record h.asked c r }
  | _, none => h

/-- `session: Arc<Mutex<Option<DnscryptClientState>>>`. -/
structure Mutex where
  content : Option DnscryptClientState
  /-- The critical section that is open. -/
  guard : Option Guard
  /-- The critical sections that came to their end. -/
  served : List Served

/-- The mutex is free, and no session is cached. -/
def Mutex.start : Mutex := ⟨none, none, []⟩

/-- Where a task awaits something. -/
def Awaits : ResolverCall → Prop
  | .lock => True
  | .inside (.sendDnsQueryUdp _ _) => True
  | .inside (.sendDnsQueryTcp _ _) => True
  | .outside (.sendDnsQueryUdp _ _) => True
  | .outside (.sendDnsQueryTcp _ _) => True
  | _ => False

/-- The tasks over the mutex, where the calls in `drops` may be dropped. The mutex is locked by one
task at a time; any reply to the other calls may come. -/
def mutex (drops : ResolverCall → Prop) :
    Prog.Sharing ResolverCall (fun c => Option c.Reply) Holding Mutex where
  tick _ _ := False
  reply
    | s, .lock, some content, s' => s.guard = none ∧ content = s.content ∧
        s' = { s with guard := some ⟨content, []⟩ }
    | s, .inside c, some r, s' => s' = { s with guard := s.guard.map fun g => g.record c r }
    | s, .unlock caller result content, some _, s' => s' =
        { content := content
          guard := none
          served := s.served ++
            (s.guard.map fun g => ⟨caller, g.before, g.trace, result, content⟩).toList }
    | s, .outside _, some _, s' => s' = s
    | s, c, none, s' => drops c ∧ s' = s
  hold := Holding.next
  release h s h' s' := h.guard.isSome ∧ h' = { h with guard := none } ∧
    s' = { s with guard := none }

/-! ## All tasks -/

/-- The client calls `resolve`. -/
structure Request where
  caller : ℕ
  domain : String

/-- A task, with what it holds. -/
abbrev ResolverTask :=
  Prog.Task ResolverCall (fun c => Option c.Reply) (Option (Except ResolveError Addrs)) Holding

/-- The HTTP client, and the tasks it has started. -/
abbrev Resolver := Prog.System Request (fun _ => Unit) Unit ResolverCall
  (fun c => Option c.Reply) (Option (Except ResolveError Addrs)) Holding Mutex

/-- A request starts one task, which may be dropped at any await. -/
def tasksOf (request : Request) : List ResolverTask :=
  [⟨(resolve K request.caller request.domain).droppable, .start request.domain⟩]

/-- The resolver can get to `σ`, whatever the client asks for and when. -/
def ResolverReaches (σ : Resolver) : Prop :=
  ∃ client, (mutex Awaits).SystemReaches (tasksOf K) ⟨client, ⟨[], .start⟩⟩ σ

/-! ## What a task does -/

/-- The encrypted query for a domain, under a nonce. -/
def requestPacket (session : DnscryptClientState) (nonce : ByteArr 12) (domain : String) : Bytes :=
  session.clientMagic.val ++ session.clientPkBytes.val ++ nonce.val ++
    box K.cipher session.sharedKey (joinNonce nonce ⟨0 :: List.replicate 11 0, rfl⟩)
      (paddedText (buildARecordQuery domain) 1024)

/-- One nonce is drawn, and what is sent goes to the session's resolver: the query in the box, under
this nonce. -/
def Asks (session : DnscryptClientState) (domain : String) (t : Trace) : Call → Prop
  | .fill n => n = 12 ∧ t = []
  | .sendDnsQueryUdp ip packet => ip = session.resolverIp ∧ ∃ nonce rest,
      t = ⟨.fill 12, some (some nonce)⟩ :: rest ∧ packet = requestPacket K session nonce domain
  | .sendDnsQueryTcp ip packet => ip = session.resolverIp ∧ ∃ nonce rest,
      t = ⟨.fill 12, some (some nonce)⟩ :: rest ∧ packet = requestPacket K session nonce domain
  | _ => False

/-- A packet came in, over either transport. -/
def Received (ip : SocketAddr) (query packet : Bytes) (t : Trace) : Prop :=
  ⟨.sendDnsQueryUdp ip query, some (.ok packet)⟩ ∈ t ∨
    ⟨.sendDnsQueryTcp ip query, some (.ok packet)⟩ ∈ t

/-- An address was read from a packet that answers the one query and opens under the session's
key. -/
def Resolved (session : DnscryptClientState) (domain : String) (t : Trace) (ip : IpAddr) : Prop :=
  ∃ nonce rest packet, t = ⟨.fill 12, some (some nonce)⟩ :: rest ∧
    Received session.resolverIp (requestPacket K session nonce domain) packet t ∧
    (handleResponse K.cipher session.sharedKey nonce packet).val = .ok ip

/-- What a task holds when it makes a call. -/
def Entitled (h : Holding) : ResolverCall → Prop
  | .lock => h = .start h.domain
  | .inside c => h.guard.isSome ∧ ¬ IsAbort c
  | .unlock _ result content => ∃ g, h.guard = some g ∧
      Prog.Runs (getOrEstablishSession K g.before) g.trace (some (result, content))
  | .outside c => h.guard = none ∧ ∃ session, h.session = some session ∧
      Asks K session h.domain h.asked c

/-- What a task shows for the addresses it returns. -/
def Shows (h : Holding) (r : Except ResolveError Addrs) : Prop :=
  ∀ addrs, r = .ok addrs → ∃ session ip, h.session = some session ∧ addrs = [(ip, 0)] ∧
    Resolved K session h.domain h.asked ip

section Task
variable {K} {α : Type} {session : DnscryptClientState} {domain : String} {h : Holding}

theorem received_mono {ip : SocketAddr} {query packet : Bytes} {t t' : Trace}
    (h : Received ip query packet t) (ht : t ⊆ t') : Received ip query packet t' :=
  h.imp (fun hudp => ht hudp) fun htcp => ht htcp

/-- A query that may be sent now and later on, with what came in for it. -/
theorem holds_sendDnsQuery {P : Trace → Call → Prop} {ip : SocketAddr} {query : Bytes} {t : Trace}
    (hP : ∀ t', t <+: t' →
      P t' (.sendDnsQueryUdp ip query) ∧ P t' (.sendDnsQueryTcp ip query)) :
    Prog.Holds Prog.record P
      (fun t' r => t <+: t' ∧ ∀ packet, r = .ok packet → Received ip query packet t')
      (sendDnsQuery ip query false) t := by
  have htcp : ∀ t', t <+: t' → Prog.Holds Prog.record P
      (fun t' r => t <+: t' ∧ ∀ packet, r = .ok packet → Received ip query packet t')
      (Prog.perform (Call.sendDnsQueryTcp ip query)) t' := by
    intro t' ht'
    refine ⟨(hP t' ht').2, fun r => ⟨ht'.trans (List.prefix_append _ _), ?_⟩⟩
    rintro packet rfl
    exact .inr (List.mem_append_right _ (List.mem_singleton_self _))
  refine Prog.holds_perform_bind.mpr ⟨(hP t List.prefix_rfl).1, fun reply => ?_⟩
  have hsub := List.prefix_append t [⟨.sendDnsQueryUdp ip query, some reply⟩]
  cases reply with
  | error e => exact htcp _ hsub
  | ok resp =>
      refine Prog.holds_ite.mpr ⟨fun _ => htcp _ hsub, fun _ => ⟨hsub, ?_⟩⟩
      intro packet hpacket
      cases hpacket
      exact .inl (List.mem_append_right _ (List.mem_singleton_self _))

/-- **One query.** It is sent in the box only, and an address is read from an answer to it. -/
theorem holds_resolveSession (session : DnscryptClientState) (domain : String) :
    Prog.Holds Prog.record (Asks K session domain)
      (fun t r => ∀ ip, r = .ok ip → Resolved K session domain t ip)
      (resolveDomainViaDnscryptSession K session domain) [] := by
  refine Prog.holds_perform_bind.mpr ⟨⟨rfl, rfl⟩, fun nonce => ?_⟩
  cases nonce with
  | none =>
      intro ip hip
      cases hip
  | some nonce =>
      have hencrypt (nonce : ByteArr 24) (text : Bytes) :
          (xchacha20DjbPoly1305Encrypt K.cipher session.sharedKey nonce text).val =
            .ok (box K.cipher session.sharedKey nonce text) := val_encrypt text
      refine Prog.holds_bind.mpr ?_
      rw [run, hencrypt]
      have hasks : ∀ t', [⟨.fill 12, some (some nonce)⟩] <+: t' →
          Asks K session domain t'
            (.sendDnsQueryUdp session.resolverIp (requestPacket K session nonce domain)) ∧
          Asks K session domain t'
            (.sendDnsQueryTcp session.resolverIp (requestPacket K session nonce domain)) := by
        rintro _ ⟨rest, rfl⟩
        exact ⟨⟨rfl, nonce, rest, rfl, rfl⟩, ⟨rfl, nonce, rest, rfl, rfl⟩⟩
      apply (holds_sendDnsQuery hasks).bind
      rintro _ reply ⟨⟨rest, rfl⟩, hreceived⟩
      cases reply with
      | error e =>
          intro ip hip
          cases hip
      | ok packet =>
          have hwithin : Metered.Within (packet.length + 2 ^ 17, 0) Stop.IsErr (fun _ => True)
              (handleResponse K.cipher session.sharedKey nonce packet) :=
            within_handleResponse le_rfl
          dsimp only
          rw [runResult]
          split
          · next ip hip =>
            intro ip' hip'
            cases hip'
            exact ⟨nonce, rest, packet, rfl, hreceived packet rfl, hip⟩
          · intro ip hip
            cases hip
          · next p hp => cases hwithin.stop _ hp

/-- **One critical section.** It does not panic, and what it returns is that of its run. -/
theorem holds_getOrEstablishSession (cache : Option DnscryptClientState) :
    Prog.Holds Prog.record (fun _ c => ¬ IsAbort c)
      (fun t served => Prog.Runs (getOrEstablishSession K cache) t (some served))
      (getOrEstablishSession K cache) [] := by
  have hrefresh : ∀ t, Leaves (fun _ _ => True) (refresh K cache) t := by
    intro t
    refine Prog.holds_bind.mpr (leaves_establish fun t' r _ => ?_)
    cases r <;> trivial
  have hleaves : Leaves (fun _ _ => True) (getOrEstablishSession K cache) [] := by
    cases cache with
    | none => exact hrefresh []
    | some session =>
        refine Prog.holds_perform_bind.mpr ⟨id, fun now => ?_⟩
        exact Prog.holds_ite.mpr ⟨fun _ => trivial, fun _ => hrefresh _⟩
  refine (Prog.Holds.run hleaves).mono ?_
  rintro _ served ⟨-, t, rfl, hrun⟩
  exact hrun

/-- A judgement about one task, that is not dropped. -/
abbrev Proceeds (Q : Holding → α → Prop) (p : Prog ResolverCall ResolverCall.Reply α)
    (h : Holding) : Prop :=
  Prog.Holds (fun h c r => Holding.next h c (some r)) (Entitled K) Q p h

theorem proceeds_lockSession (caller : ℕ) :
    @Proceeds K _ (fun h r => h = ⟨domain, none, r.toOption, []⟩) (lockSession K caller)
      (.start domain) := by
  refine Prog.holds_perform_bind.mpr ⟨rfl, fun cache => ?_⟩
  have hsection : @Proceeds K _
      (fun h served => ∃ t, h = ⟨domain, some ⟨cache, t⟩, none, []⟩ ∧
        Prog.Runs (getOrEstablishSession K cache) t (some served))
      (Prog.embed ResolverCall.inside (getOrEstablishSession K cache))
      ⟨domain, some ⟨cache, []⟩, none, []⟩ := by
    apply Prog.holds_embed.mpr
    refine Prog.Holds.map (f := fun t => (⟨domain, some ⟨cache, t⟩, none, []⟩ : Holding))
      (holds_getOrEstablishSession cache) (fun _ _ _ => rfl) (fun _ _ hc => ⟨rfl, hc⟩) ?_
    exact fun t served hrun => ⟨t, rfl, hrun⟩
  apply hsection.bind
  rintro _ ⟨result, content⟩ ⟨t, rfl, hrun⟩
  exact Prog.holds_perform_bind.mpr ⟨⟨_, rfl, hrun⟩, fun _ => rfl⟩

/-- **A task makes only the calls it is entitled to**, and shows where its addresses come from. -/
theorem proceeds_resolve (caller : ℕ) (domain : String) :
    @Proceeds K _ (Shows K) (resolve K caller domain) (.start domain) := by
  apply (proceeds_lockSession caller).bind
  rintro _ result rfl
  cases result with
  | error e => exact nofun
  | ok session =>
      have hquery : @Proceeds K _
          (fun h r => ∃ t, h = ⟨domain, none, some session, t⟩ ∧
            ∀ ip, r = .ok ip → Resolved K session domain t ip)
          (Prog.embed ResolverCall.outside (resolveDomainViaDnscryptSession K session domain))
          ⟨domain, none, some session, []⟩ := by
        apply Prog.holds_embed.mpr
        refine Prog.Holds.map (f := fun t => (⟨domain, none, some session, t⟩ : Holding))
          (holds_resolveSession session domain) (fun _ _ _ => rfl)
          (fun _ _ hc => ⟨rfl, session, rfl, hc⟩) ?_
        exact fun t r hr => ⟨t, rfl, hr⟩
      apply hquery.bind
      rintro _ r ⟨t, rfl, hr⟩
      cases r with
      | error e => exact nofun
      | ok ip =>
          intro addrs haddrs
          cases haddrs
          exact ⟨session, ip, rfl, rfl, hr ip rfl⟩

end Task

/-! ## The mutex and the guards -/

/-- The sections that came to their end were served one after the other and left the content of the
mutex; the guards that are held are the one that is open; and every session is one that was
served. -/
structure Serialised (s : Mutex) (held : Multiset Holding) : Prop where
  served : Serves K none s.served
  content : s.content = cacheAfter none s.served
  guards : held.filterMap Holding.guard = (s.guard.toList : Multiset Guard)
  current : ∀ g, s.guard = some g → g.before = s.content
  sessions : ∀ h ∈ held, ∀ session, h.session = some session →
    ∃ e ∈ s.served, e.result = .ok session

/-- What the end of a task needs: nothing, if it was dropped. -/
def Ends (h : Holding) (r : Option (Except ResolveError Addrs)) : Prop :=
  ∀ r', r = some r' → Shows K h r'

section Mutex
variable {K} {cache : Option DnscryptClientState} {served : List Served} {call : Served} {s : Mutex}
  {h : Holding} {m : Multiset Holding} {g : Guard}

theorem serves_concat (hserves : Serves K cache served)
    (hbefore : call.before = cacheAfter cache served)
    (hrun : Prog.Runs (getOrEstablishSession K call.before) call.trace
      (some (call.result, call.after))) : Serves K cache (served ++ [call]) := by
  induction served generalizing cache with
  | nil =>
      have hcache : call.before = cache := hbefore
      exact ⟨hcache, hcache ▸ hrun, trivial⟩
  | cons e served ih => exact ⟨hserves.1, hserves.2.1, ih hserves.2.2 hbefore⟩

theorem guards_cons_none (hnone : h.guard = none) (m : Multiset Holding) :
    (h ::ₘ m).filterMap Holding.guard = m.filterMap Holding.guard :=
  Multiset.filterMap_cons_none h m hnone

theorem guards_cons_some (hsome : h.guard = some g) (m : Multiset Holding) :
    (h ::ₘ m).filterMap Holding.guard = g ::ₘ m.filterMap Holding.guard :=
  Multiset.filterMap_cons_some Holding.guard h m hsome

theorem guards_cons_congr {h' : Holding} (heq : h.guard = h'.guard) (m : Multiset Holding) :
    (h ::ₘ m).filterMap Holding.guard = (h' ::ₘ m).filterMap Holding.guard := by
  cases hg : h'.guard with
  | none => rw [guards_cons_none hg, guards_cons_none (heq.trans hg)]
  | some g => rw [guards_cons_some hg, guards_cons_some (heq.trans hg)]

theorem serialised_start : Serialised K .start 0 where
  served := trivial
  content := rfl
  guards := rfl
  current := nofun
  sessions h hh := absurd hh (Multiset.notMem_zero h)

/-- A guard that is held is the one that is open, and no other is. -/
theorem Serialised.open_of_held (hs : Serialised K s (h ::ₘ m)) (hg : h.guard = some g) :
    s.guard = some g ∧ m.filterMap Holding.guard = 0 := by
  have hguards := hs.guards
  rw [guards_cons_some hg] at hguards
  cases hopen : s.guard with
  | none =>
      rw [hopen] at hguards
      exact absurd hguards (Multiset.cons_ne_zero)
  | some g' =>
      rw [hopen] at hguards
      obtain ⟨rfl, hrest⟩ := (Multiset.singleton_eq_cons_iff _).mp hguards.symm
      exact ⟨rfl, hrest⟩

theorem sessions_replace {h' : Holding} {es : List Served}
    (hs : ∀ x ∈ h ::ₘ m, ∀ session, x.session = some session →
      ∃ e ∈ s.served, e.result = .ok session)
    (hes : s.served ⊆ es)
    (hnew : ∀ session, h'.session = some session → ∃ e ∈ es, e.result = .ok session) :
    ∀ x ∈ h' ::ₘ m, ∀ session, x.session = some session → ∃ e ∈ es, e.result = .ok session := by
  intro x hx session hsession
  rcases Multiset.mem_cons.mp hx with rfl | hx
  · exact hnew session hsession
  · obtain ⟨e, he, hresult⟩ := hs x (Multiset.mem_cons_of_mem hx) session hsession
    exact ⟨e, hes he, hresult⟩

theorem Serialised.lock (hs : Serialised K s (h ::ₘ m)) (hnone : h.guard = none)
    (hfree : s.guard = none) :
    Serialised K { s with guard := some ⟨s.content, []⟩ }
      ({ h with guard := some ⟨s.content, []⟩ } ::ₘ m) where
  served := hs.served
  content := hs.content
  guards := by
    have hguards := hs.guards
    rw [guards_cons_none hnone, hfree] at hguards
    rw [guards_cons_some rfl, hguards]
    rfl
  current g hg := by
    cases hg
    rfl
  sessions := sessions_replace hs.sessions (List.Subset.refl _)
    (hs.sessions h (Multiset.mem_cons_self h m))

theorem Serialised.inside (hs : Serialised K s (h ::ₘ m)) (hg : h.guard = some g) (c : Call)
    (r : c.Reply) :
    Serialised K { s with guard := s.guard.map fun g => g.record c r }
      ({ h with guard := h.guard.map fun g => g.record c r } ::ₘ m) := by
  obtain ⟨hopen, hrest⟩ := hs.open_of_held hg
  refine ⟨hs.served, hs.content, ?_, ?_, ?_⟩
  · have hnew : h.guard.map (fun g => g.record c r) = some (g.record c r) := by
      rw [hg]
      rfl
    rw [guards_cons_some hnew, hrest, hopen]
    rfl
  · rw [hopen]
    intro g' hg'
    cases hg'
    exact hs.current g hopen
  · exact sessions_replace hs.sessions (List.Subset.refl _)
      (hs.sessions h (Multiset.mem_cons_self h m))

/-- **A section that comes to its end is served next.** -/
theorem Serialised.unlock {caller : ℕ} {result : Except String DnscryptClientState}
    {content : Option DnscryptClientState} (hs : Serialised K s (h ::ₘ m)) (hg : h.guard = some g)
    (hrun : Prog.Runs (getOrEstablishSession K g.before) g.trace (some (result, content))) :
    Serialised K
      { content := content
        guard := none
        served := s.served ++
          (s.guard.map fun g => ⟨caller, g.before, g.trace, result, content⟩).toList }
      ({ h with guard := none, session := result.toOption } ::ₘ m) := by
  obtain ⟨hopen, hrest⟩ := hs.open_of_held hg
  have hbefore : g.before = cacheAfter none s.served := (hs.current g hopen).trans hs.content
  rw [hopen]
  refine ⟨serves_concat hs.served hbefore hrun, ?_, ?_, nofun, ?_⟩
  · exact (@cacheAfter_append_cons none ⟨caller, g.before, g.trace, result, content⟩ s.served
      []).symm
  · rw [guards_cons_none rfl, hrest]
    rfl
  · refine sessions_replace hs.sessions (List.subset_append_left _ _) ?_
    intro session hsession
    refine ⟨_, List.mem_append_right _ (List.mem_singleton_self _), ?_⟩
    cases result with
    | error e => cases hsession
    | ok session' =>
        cases hsession
        rfl

/-- A guard that goes before its section came to its end leaves what was served as it was. -/
theorem Serialised.release (hs : Serialised K s (h ::ₘ m)) (hsome : h.guard.isSome) :
    Serialised K { s with guard := none } ({ h with guard := none } ::ₘ m) := by
  obtain ⟨g, hg⟩ := Option.isSome_iff_exists.mp hsome
  obtain ⟨-, hrest⟩ := hs.open_of_held hg
  refine ⟨hs.served, hs.content, ?_, nofun, ?_⟩
  · rw [guards_cons_none rfl, hrest]
    rfl
  · exact sessions_replace hs.sessions (List.Subset.refl _)
      (hs.sessions h (Multiset.mem_cons_self h m))

theorem Serialised.outside (hs : Serialised K s (h ::ₘ m)) (c : Call) (r : c.Reply) :
    Serialised K s ({ h with asked := Prog.record h.asked c r } ::ₘ m) := by
  refine ⟨hs.served, hs.content, ?_, hs.current, ?_⟩
  · rw [← hs.guards]
    exact @guards_cons_congr { h with asked := Prog.record h.asked c r } h rfl m
  · exact sessions_replace hs.sessions (List.Subset.refl _)
      (hs.sessions h (Multiset.mem_cons_self h m))

/-- **What one action keeps.** -/
theorem accounting_mutex (drops : ResolverCall → Prop) :
    (mutex drops).Accounting (Entitled K) (Ends K) (Serialised K) where
  tick _ htick := htick.elim
  reply := by
    intro s c r s' h m hs hentitled hreply
    cases r with
    | none =>
        have hkept : Holding.next h c none = h := by cases c <;> rfl
        have hsame : s' = s := by cases c <;> exact hreply.2
        change Serialised K s' (Holding.next h c none ::ₘ m)
        rw [hkept, hsame]
        exact hs
    | some r =>
        cases c with
        | lock =>
            obtain ⟨hfree, rfl, rfl⟩ := hreply
            have hnothing : h = .start h.domain := hentitled
            exact hs.lock (by rw [hnothing]; rfl) hfree
        | inside c =>
            obtain rfl := hreply
            obtain ⟨g, hg⟩ := Option.isSome_iff_exists.mp hentitled.1
            exact hs.inside hg c r
        | unlock caller result content =>
            obtain rfl := hreply
            obtain ⟨g, hg, hrun⟩ := hentitled
            exact hs.unlock hg hrun
        | outside c =>
            obtain rfl := hreply
            exact hs.outside c r
  release := by
    rintro s s' h h' m hs ⟨hsome, rfl, rfl⟩
    exact hs.release hsome
  result := by
    rintro a s s' h h' hends ⟨-, rfl, -⟩
    exact hends

/-- **Every state of the resolver is accounted for.** -/
theorem ResolverReaches.serialised {σ : Resolver} (h : ResolverReaches K σ) :
    Prog.Sharing.Judged (mutex Awaits) (Entitled K) (Ends K) σ.pool.tasks ∧
      Serialised K σ.pool.shared σ.pool.holdings := by
  obtain ⟨client, hreach⟩ := h
  refine (accounting_mutex Awaits).system_reaches (A := fun _ => True) ?_ hreach
    (Prog.only_true client) ⟨nofun, serialised_start⟩
  intro request _
  refine ⟨?_, ?_⟩
  · intro t ht
    cases List.mem_singleton.mp ht
    refine Prog.Holds.droppable (proceeds_resolve request.caller request.domain) ?_ nofun
    intro h r hshows r' hr'
    cases hr'
    exact hshows
  · intro s m hs
    have hholdings : m + Prog.Pool.holdings ⟨tasksOf K request, s⟩ =
        .start request.domain ::ₘ m := by
      rw [Multiset.add_comm]
      exact Multiset.singleton_add _ m
    rw [hholdings]
    refine ⟨hs.served, hs.content, ?_, hs.current, ?_⟩
    · rw [guards_cons_none rfl]
      exact hs.guards
    · intro x hx session hsession
      rcases Multiset.mem_cons.mp hx with rfl | hx
      · cases hsession
      · exact hs.sessions x hx session hsession

end Mutex

end SevMicroLoader.Dns
