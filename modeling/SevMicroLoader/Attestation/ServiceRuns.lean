import SevMicroLoader.Attestation.Service

/-!
# Runs of the attestation service

What the accounts say of every state the service can get to: no permit is lost or used twice, the
limiter behaves as if the handlers ran one after the other, and without new connections the service
comes to rest with every permit back.
-/

namespace SevMicroLoader.Attestation
open Rust

/-! ## Permits -/

/-- A handler with a permit of the subnet. -/
def holdsSubnet (s : Subnet) (t : HandlerTask) : Bool := t.held.subnet = some ⟨s⟩

/-- A handler with a permit of the hardware. -/
def holdsHardware (t : HandlerTask) : Bool := t.held.hardware

/-- A handler that is about to use the device. -/
def callsDevice (t : HandlerTask) : Bool :=
  match t.left with
  | .call .deviceExists _ => true
  | .call .openDevice _ => true
  | .call (.ioctl _ _) _ => true
  | _ => false

section Permits
variable {s : Shared} {ts : List HandlerTask}

theorem count_subnetPermits (hs : Accounted s (Prog.Pool.holdings ⟨ts, s⟩)) (subnet : Subnet) :
    s.limiter.held.count ⟨subnet⟩ = ts.countP (holdsSubnet subnet) := by
  have hpermits : (s.limiter.held : Multiset SubnetPermit) =
      ((ts.map Prog.Task.held).filterMap Holding.subnet : List SubnetPermit) := hs.permits
  rw [← Multiset.coe_count, hpermits, Multiset.coe_count, List.count_filterMap, List.countP_map]
  refine List.countP_congr fun t _ => ?_
  simp [holdsSubnet]

theorem hardwareUsers_eq (ts : List HandlerTask) (s : Shared) :
    hardwareUsers (Prog.Pool.holdings ⟨ts, s⟩) = ts.countP holdsHardware := by
  rw [hardwareUsers, Prog.Pool.holdings, Multiset.coe_countP, List.countP_map]
  refine List.countP_congr fun t _ => ?_
  simp [holdsHardware]

/-- The entry of a subnet counts the handlers that hold its permits, within the limit. -/
theorem Accounted.active (hs : Accounted s (Prog.Pool.holdings ⟨ts, s⟩)) (subnet : Subnet) :
    (state s.map subnet).activeConnections.toNat = ts.countP (holdsSubnet subnet) ∧
      ts.countP (holdsSubnet subnet) ≤ 2 := by
  obtain ⟨hshow, hcount⟩ :=
    showsAll_run (L := subnetLimiter) s.events showsAll_start hs.logged.clock subnet
  rw [← Shared.limiter, count_subnetPermits hs] at hcount
  rw [← Shared.limiter, ← hs.logged.map] at hshow
  have hbounded := hshow.bounded
  exact ⟨hshow.active.trans hcount.symm, hcount ▸ hbounded⟩

end Permits

theorem ServiceReaches.main {X : Externals} {payloadHash : String} (c : ServerCall)
    {k : c.Reply → Server UInt32} {ts : List HandlerTask} {s : Shared}
    (h : ServiceReaches X payloadHash ⟨.call c k, ⟨ts, s⟩⟩) (r : c.Reply) :
    ServiceReaches X payloadHash ⟨k r, ⟨ts ++ startedBy c, s⟩⟩ := by
  obtain ⟨n, hreach⟩ := h
  exact ⟨n, hreach.tail (.main r)⟩

theorem ServiceReaches.reply {X : Externals} {payloadHash : String} {main : Server UInt32}
    {c : Call} {k : c.Reply → Handler (Except String Unit)} {held : Holding} {s s' : Shared}
    (h : ServiceReaches X payloadHash ⟨main, ⟨[⟨.call c k, held⟩], s⟩⟩) (r : c.Reply)
    (hreply : service.reply s c r s') :
    ServiceReaches X payloadHash ⟨main, ⟨[⟨k r, held.next c r⟩], s'⟩⟩ := by
  obtain ⟨n, hreach⟩ := h
  exact ⟨n, hreach.tail (.pool (.act (.call [] [] hreply)))⟩

/-- A handler that was admitted reads first, and a timeout ends it. -/
theorem ServiceReaches.exists_read {X : Externals} {payloadHash : String} {main : Server UInt32}
    {f : Except (Except String Unit) Bytes → Handler (Except String Unit)} {held : Holding}
    {s : Shared} (hf : f (.error (.ok ())) = pure (.ok ()))
    (h : ServiceReaches X payloadHash ⟨main, ⟨[⟨readLoop [] >>= f, held⟩], s⟩⟩) :
    ∃ σ k, ServiceReaches X payloadHash σ ∧ σ.pool.tasks = [⟨.call .read k, held⟩] ∧
      k .timeout = pure (.ok ()) := by
  rw [readLoop] at h
  exact ⟨_, _, h, rfl, hf⟩

/-- The service gets to a connection whose handler has its permit. -/
theorem exists_connection : ∃ σ k, ServiceReaches sampleExternals "00" σ ∧
    σ.pool.tasks = [⟨.call .read k, ⟨some ⟨Subnet.ofIp sampleIp⟩, false⟩⟩] ∧
    k .timeout = pure (.ok ()) := by
  have hstart : ServiceReaches sampleExternals "00" (Service.start sampleExternals "00" 1) :=
    ⟨1, .refl⟩
  have haccepted := (hstart.main (.bind listenAddr) (.ok ())).main .accept (.ok sampleIp)
  have hspawned := haccepted.main (.spawn _) ()
  have hanswer : (subnetLimiter.acquire ∅ sampleIp 0).1 = .ok ⟨Subnet.ofIp sampleIp⟩ := by
    apply Option.some.inj
    exact (@acquire_answer subnetLimiter 0 [] sampleIp (by decide)).trans rfl
  refine ServiceReaches.exists_read ?_
    (hspawned.reply (.ok ⟨Subnet.ofIp sampleIp⟩) ⟨hanswer.symm, rfl⟩)
  rfl

/-- **No permit is lost, and none is used twice.** In every interleaving of the accept loop and its
handlers, the entry of a subnet counts the handlers that hold its permit, at most two; the permits
of the semaphore are free or held, eight in all; every handler makes only the calls it holds the
permits for, and so at most eight are at the device. -/
theorem service_permits (X : Externals) (payloadHash : String) (σ : Service)
    (h : ServiceReaches X payloadHash σ) :
    (∀ s, (state σ.pool.shared.map s).activeConnections.toNat =
        σ.pool.tasks.countP (holdsSubnet s) ∧ σ.pool.tasks.countP (holdsSubnet s) ≤ 2) ∧
    σ.pool.shared.available + σ.pool.tasks.countP holdsHardware = 8 ∧
    (∀ t ∈ σ.pool.tasks, ∀ c k, t.left = .call c k → Entitled t.held c) ∧
    σ.pool.tasks.countP callsDevice ≤ 8 := by
  obtain ⟨hjudged, hs⟩ := h.accounted
  have hentitled : ∀ t ∈ σ.pool.tasks, ∀ c k, t.left = .call c k → Entitled t.held c := by
    intro t ht c k hleft
    have hholds := hjudged t ht
    rw [hleft] at hholds
    exact hholds.1
  have hhardware := hs.hardware
  rw [show σ.pool.holdings = Prog.Pool.holdings ⟨σ.pool.tasks, σ.pool.shared⟩ from rfl,
    hardwareUsers_eq] at hhardware
  have hdevice : σ.pool.tasks.countP callsDevice ≤ σ.pool.tasks.countP holdsHardware := by
    refine List.countP_mono_left fun t ht hcalls => ?_
    unfold callsDevice at hcalls
    split at hcalls
    · next k hleft => exact (hentitled t ht _ k hleft).2
    · next k hleft => exact (hentitled t ht _ k hleft).2
    · next k hleft => exact (hentitled t ht _ k hleft).2
    · cases hcalls
  refine ⟨hs.active, hhardware, hentitled, hdevice.trans ?_⟩
  have htotal : σ.pool.shared.available + σ.pool.tasks.countP holdsHardware = 8 := hhardware
  omega

/-- A connection that was admitted. -/
theorem service_permits_connection : ∃ σ, ServiceReaches sampleExternals "00" σ ∧
    (state σ.pool.shared.map (Subnet.ofIp sampleIp)).activeConnections.toNat = 1 ∧
    σ.pool.shared.available = 8 := by
  obtain ⟨σ, k, hreach, htasks, -⟩ := exists_connection
  obtain ⟨hactive, havailable, -⟩ := service_permits sampleExternals "00" σ hreach
  refine ⟨σ, hreach, ?_, ?_⟩
  · rw [(hactive _).1, htasks]
    rfl
  · rw [htasks] at havailable
    exact havailable

/-- **The service is a run of the limiter alone.** However the handlers are interleaved, the
critical sections they went through are a run of the sequential limiter under a clock that does not
go back: each was answered as in that run, the map is the one it leaves, and the permits it counts
as held are those of the handlers. -/
theorem service_refines_limiter (X : Externals) (payloadHash : String) (σ : Service)
    (h : ServiceReaches X payloadHash σ) :
    Nondecreasing 0 σ.pool.shared.events ∧
    σ.pool.shared.log = trace subnetLimiter .start σ.pool.shared.events ∧
    σ.pool.shared.map = (run subnetLimiter .start σ.pool.shared.events).map ∧
    ∀ s, (run subnetLimiter .start σ.pool.shared.events).held.count ⟨s⟩ =
      σ.pool.tasks.countP (holdsSubnet s) := by
  have hs := h.accounted.2
  exact ⟨hs.logged.clock, hs.logged.log, hs.logged.map, count_subnetPermits hs⟩

/-- A connection that was admitted. -/
theorem service_refines_limiter_connection : ∃ σ, ServiceReaches sampleExternals "00" σ ∧
    (run subnetLimiter .start σ.pool.shared.events).held.count ⟨Subnet.ofIp sampleIp⟩ = 1 := by
  obtain ⟨σ, k, hreach, htasks, -⟩ := exists_connection
  refine ⟨σ, hreach, ?_⟩
  rw [(service_refines_limiter sampleExternals "00" σ hreach).2.2.2, htasks]
  rfl

/-! ## The service comes to rest -/

section Rest
variable {X : Externals} {payloadHash : String}

theorem atMost_readLoop (buf : Bytes) (h : buf.length ≤ 8192) :
    Prog.AtMost (8193 - buf.length) (readLoop buf) := by
  induction buf using readLoop.induct with
  | case1 buf ih =>
      have hfuel : 8193 - buf.length = 8192 - buf.length + 1 := by omega
      rw [readLoop, hfuel]
      intro r
      cases r with
      | failed e => exact Prog.atMost_pure _ _
      | timeout => exact Prog.atMost_pure _ _
      | chunk bytes =>
          refine .ite (fun _ => Prog.atMost_pure _ _) fun hnil => ?_
          refine .ite (fun _ => Prog.atMost_pure _ _) fun hbig => ?_
          refine .ite (fun _ => Prog.atMost_pure _ _) fun _ => ?_
          -- Every chunk that is read on is at least one byte.
          have hpos : 0 < bytes.val.length := List.length_pos_iff.mpr hnil
          have hlen : (buf ++ bytes.val).length = buf.length + bytes.val.length :=
            List.length_append
          exact (ih bytes hnil hbig (by omega)).mono (by omega)

theorem atMost_getReport (reportData : ByteArr 64) :
    Prog.AtMost 3 (getSnpAttestationReport reportData) := by
  refine .call fun found => ?_
  cases found with
  | false => exact Prog.atMost_pure _ _
  | true =>
      refine .call fun opened => ?_
      cases opened with
      | error e => exact Prog.atMost_pure _ _
      | ok u =>
          refine .call fun reply => ?_
          cases reply with
          | error e => exact Prog.atMost_pure _ _
          | ok data => exact Prog.atMost_pure _ _

theorem atMost_sendHttpResponse (status : ℕ) (body : String) :
    Prog.AtMost 1 (sendHttpResponse status body) := .call fun _ => Prog.atMost_pure _ _

theorem atMost_answerNonce (nonce : String) (p n : Bytes) :
    Prog.AtMost 5 (answerNonce X payloadHash nonce p n) := by
  refine .call fun granted => ?_
  cases granted with
  | false => exact (atMost_sendHttpResponse _ _).mono (by decide)
  | true =>
      refine (atMost_getReport (X.sha512 (p ++ n))).bind (n := 1) fun r => ?_
      cases r with
      | error err => exact atMost_sendHttpResponse _ _
      | ok report => exact atMost_sendHttpResponse _ _

theorem atMost_answerRequest (buf : Bytes) :
    Prog.AtMost 5 (answerRequest X payloadHash buf) := by
  rw [answerRequest]
  refine .ite (fun _ => Prog.atMost_pure _ _) fun _ => ?_
  cases parseRequest buf with
  | none => exact Prog.atMost_pure _ _
  | some query =>
      refine .ite (fun _ => (atMost_sendHttpResponse _ _).mono (by decide)) fun _ => ?_
      cases X.base16.mixedDecode (nonceHex query) with
      | none => exact Prog.atMost_pure _ _
      | some nonceBytes =>
          cases X.base16.mixedDecode payloadHash with
          | none => exact Prog.atMost_pure _ _
          | some payloadHashBytes => exact atMost_answerNonce _ _ _

/-- **A handler is bounded**: one `acquire`, a read for each byte within the limit and one past it,
and the semaphore, the device and a response. -/
theorem atMost_handler (ip : IpAddr) :
    Prog.AtMost 8199 (handleAttestationConnection X payloadHash ip) := by
  refine .call fun answer => ?_
  cases answer with
  | error err =>
      exact .ite (fun _ => (atMost_sendHttpResponse _ _).mono (by decide))
        fun _ => (atMost_sendHttpResponse _ _).mono (by decide)
  | ok permit =>
      refine (atMost_readLoop [] (by decide)).bind (n := 5) fun r => ?_
      cases r with
      | error early => exact Prog.atMost_pure _ _
      | ok buf => exact atMost_answerRequest buf

theorem ServiceReaches.atMost {σ : Service} (h : ServiceReaches X payloadHash σ) :
    ∀ t ∈ σ.pool.tasks, Prog.AtMost 8199 t.left := by
  obtain ⟨n, hreach⟩ := h
  refine hreach.forall_tasks ?_ ?_ (only_runAttestationServer n) nofun
  · intro c k hcall r
    obtain ⟨m, hm, hr⟩ := hcall.reply r
    exact hr.mono (by omega)
  · intro c hc t ht
    obtain ⟨ip, rfl⟩ := eq_of_mem_startedBy hc ht
    exact atMost_handler ip

/-- A handler that has returned drops its permits, at most two. -/
theorem settling : service.Settling Holding.size 2 where
  le h := by
    rw [Holding.size]
    split <;> split <;> omega
  release := by
    rintro h s h' s' (⟨hyes, rfl, -⟩ | ⟨hno, p, hp, rfl, -⟩)
    · simp [Holding.size, hyes]
    · simp [Holding.size, hno, hp]

end Rest

/-- **The service comes to rest.** While no new connection comes, at most 8201 actions are left for
each handler, in any interleaving; and when no handler can go on, every one has returned, no
subnet has an active connection and all eight permits of the hardware are free. -/
theorem service_comes_to_rest (X : Externals) (payloadHash : String) (σ : Service)
    (h : ServiceReaches X payloadHash σ) (m : ℕ)
    (c : Prog.Pool Call Call.Reply (Except String Unit) Holding Shared)
    (hwork : service.Work m σ.pool c) :
    m ≤ σ.pool.tasks.length * 8201 ∧
    (service.Resting c → (∀ t ∈ c.tasks, ∃ r, t.left = .ret r) ∧
      (∀ s, (state c.shared.map s).activeConnections.toNat = 0) ∧ c.shared.available = 8) := by
  refine ⟨hwork.le settling h.atMost, fun hrest => ?_⟩
  have hreply : ∀ s c, ∃ r s', service.reply s c r s' := by
    intro s c
    cases c with
    | acquire ip => exact ⟨_, _, rfl, rfl⟩
    | tryAcquire => exact ⟨_, _, rfl, rfl⟩
    | read => exact ⟨.timeout, s, rfl⟩
    | deviceExists => exact ⟨true, s, rfl⟩
    | openDevice => exact ⟨.ok (), s, rfl⟩
    | ioctl v req => exact ⟨.error ("", 0), s, rfl⟩
    | respond r => exact ⟨.ok (), s, rfl⟩
  have hrelease : ∀ (h : Holding) (s : Shared), h.size ≠ 0 →
      ∃ h' s', service.release h s h' s' := by
    rintro ⟨_ | p, _ | _⟩ s hne
    · exact absurd rfl hne
    · exact ⟨_, _, .inl ⟨rfl, rfl, rfl⟩⟩
    · exact ⟨_, _, .inr ⟨rfl, p, rfl, rfl, rfl⟩⟩
    · exact ⟨_, _, .inl ⟨rfl, rfl, rfl⟩⟩
  have hidle := hrest.idle hreply hrelease
  obtain ⟨-, hs⟩ := accounting.reaches hwork.reaches h.accounted
  have hnothing : ∀ t ∈ c.tasks, t.held = .nothing := by
    intro t ht
    exact Holding.eq_nothing (hidle t ht).2
  refine ⟨fun t ht => (hidle t ht).1, fun s => ?_, ?_⟩
  · rw [(hs.active s).1, List.countP_eq_zero]
    intro t ht
    simp [holdsSubnet, hnothing t ht, Holding.nothing]
  · have hhardware := hs.hardware
    rw [show c.holdings = Prog.Pool.holdings ⟨c.tasks, c.shared⟩ from rfl, hardwareUsers_eq,
      List.countP_eq_zero.mpr] at hhardware
    · exact hhardware
    · intro t ht
      simp [holdsHardware, hnothing t ht, Holding.nothing]

theorem resting_of_returned (a : Except String Unit) (s : Shared) :
    service.Resting ⟨[(⟨.ret a, .nothing⟩ : HandlerTask)], s⟩ := by
  refine Prog.Sharing.resting_of_released fun t ht => ?_
  cases List.mem_singleton.mp ht
  refine ⟨⟨a, rfl⟩, ?_⟩
  rintro s h' s' (⟨hyes, -⟩ | ⟨-, p, hp, -⟩)
  · cases hyes
  · cases hp

/-- A connection that times out: the handler reads, returns and drops its permit. -/
theorem service_comes_to_rest_timeout : ∃ σ c, ServiceReaches sampleExternals "00" σ ∧
    service.Work 2 σ.pool c ∧ 2 ≤ σ.pool.tasks.length * 8201 ∧ service.Resting c ∧
    (state c.shared.map (Subnet.ofIp sampleIp)).activeConnections.toNat = 0 := by
  obtain ⟨⟨main, ts, s⟩, k, hreach, htasks, htimeout⟩ := exists_connection
  subst htasks
  have hread : service.Act ⟨[⟨.call .read k, ⟨some ⟨Subnet.ofIp sampleIp⟩, false⟩⟩], s⟩
      ⟨[⟨k .timeout, ⟨some ⟨Subnet.ofIp sampleIp⟩, false⟩⟩], s⟩ := .call [] [] rfl
  rw [htimeout] at hread
  have hdrop : service.Act
      ⟨[(⟨.ret (.ok ()), ⟨some ⟨Subnet.ofIp sampleIp⟩, false⟩⟩ : HandlerTask)], s⟩
      ⟨[⟨_, .nothing⟩], _⟩ :=
    .release [] [] (.inr ⟨rfl, _, rfl, rfl, rfl⟩)
  have hwork := ((Prog.Sharing.Work.refl _).act hread).act hdrop
  obtain ⟨hle, hrest⟩ := service_comes_to_rest sampleExternals "00" _ hreach 2 _ hwork
  have hnone := (hrest (resting_of_returned _ _)).2.1 (Subnet.ofIp sampleIp)
  exact ⟨_, _, hreach, hwork, hle, resting_of_returned _ _, hnone⟩

end SevMicroLoader.Attestation
