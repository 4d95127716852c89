import SevMicroLoader.Dns.Failover
import SevMicroLoader.Lib.Frame
import SevMicroLoader.Lib.Implement

/-!
# Queries over sockets

`sendDnsQueryUdp` and `sendDnsQueryTcp` are programs over sockets. `transport` makes the calls of
the client by them, so that `Prog.implement transport` is the client over sockets.

`Contact` follows what goes to a resolver and what comes back, and `Proper` says what a call may do
in it. Over TCP both the query and the reply are messages behind their length (`Endian.frame`).
-/

namespace SevMicroLoader.Dns
open Rust Endian

/-! ## Calls -/

/-- The outcome of what `tokio::time::timeout` waits for. -/
inductive Timeout (α : Type)
  | done (a : α)
  | failed (e : String)
  | elapsed

/-- What fits the buffer of a receive. -/
abbrev Datagram := { bs : Bytes // bs.length ≤ 4096 }

/-- What the client over sockets asks of its environment. -/
inductive WireCall
  /-- `UdpSocket::bind(addr)`. -/
  | bindUdp (addr : String)
  | sendTo (datagram : Bytes) (resolverIp : SocketAddr)
  /-- A receive into a buffer of 4096 bytes, under a timeout of 3 seconds. -/
  | recvFrom
  | sleepMillis (ms : ℕ)
  /-- `TcpStream::connect`, under a timeout of 5 seconds. -/
  | connect (resolverIp : SocketAddr)
  | writeAll (bytes : Bytes)
  | readExact (n : ℕ)
  /-- A call of the client that goes to no resolver. -/
  | client (c : Call)

/-- What the environment answers. -/
abbrev WireCall.Reply : WireCall → Type
  | .bindUdp _ => Except String Unit
  | .sendTo _ _ => Except String Unit
  | .recvFrom => Timeout Datagram
  | .sleepMillis _ => Unit
  | .connect _ => Timeout Unit
  | .writeAll _ => Except String Unit
  | .readExact n => Except String (ByteArr n)
  | .client c => c.Reply

/-- A program over sockets. -/
abbrev Wire := Prog WireCall WireCall.Reply

/-- A trace over sockets. -/
abbrev WireTrace := List (Prog.Event WireCall WireCall.Reply)

/-! ## UDP -/

/-- One attempt: the datagram that comes back, or the error the last attempt ends with. -/
def udpAttempt (resolverIp : SocketAddr) (query : Bytes) : Wire (Except String Bytes) := do
  match ← Prog.perform (WireCall.sendTo query resolverIp) with
  | .error e => pure (.error ("UDP send failed: " ++ e))
  | .ok _ =>
      match ← Prog.perform WireCall.recvFrom with
      | .done datagram => pure (.ok datagram.val)
      | .failed e => pure (.error ("UDP recv failed: " ++ e))
      | .elapsed => pure (.error "UDP query timed out")

/-- The attempts that are left. -/
def udpAttempts (resolverIp : SocketAddr) (query : Bytes) : ℕ → Wire (Except String Bytes)
  | 0 => pure (.error "UDP query failed")
  | left + 1 => do
      match ← udpAttempt resolverIp query with
      | .ok datagram => pure (.ok datagram)
      | .error msg =>
          if left = 0 then pure (.error msg)
          else
            let _ ← Prog.perform (WireCall.sleepMillis 200)
            udpAttempts resolverIp query left

/-- One socket, two attempts. -/
def sendDnsQueryUdp (resolverIp : SocketAddr) (query : Bytes) : Wire (Except String Bytes) := do
  match ← Prog.perform (WireCall.bindUdp "0.0.0.0:0") with
  | .error e => pure (.error ("Failed to bind UDP socket: " ++ e))
  | .ok _ => udpAttempts resolverIp query 2

/-! ## TCP -/

/-- `.map_err(|e| format!("{what}: {}", e))?`, with the rest of the function. -/
def orReturn {α : Type} (what : String) (result : Except String α)
    (rest : α → Wire (Except String Bytes)) : Wire (Except String Bytes) :=
  match result with
  | .error e => pure (.error (what ++ ": " ++ e))
  | .ok a => rest a

/-- `(query.len() as u16).to_be_bytes()`. -/
def lenPrefix (query : Bytes) : Bytes := toBE 2 query.length

/-- The query behind its length, and the message behind its own. -/
def sendDnsQueryTcp (resolverIp : SocketAddr) (query : Bytes) : Wire (Except String Bytes) := do
  match ← Prog.perform (WireCall.connect resolverIp) with
  | .elapsed => pure (.error "TCP connection timeout")
  | .failed e => pure (.error ("TCP connect failed: " ++ e))
  | .done _ =>
      let written ← Prog.perform (WireCall.writeAll (lenPrefix query))
      orReturn "TCP write len failed" written fun _ => do
      let written ← Prog.perform (WireCall.writeAll query)
      orReturn "TCP write data failed" written fun _ => do
      let lenBuf ← Prog.perform (WireCall.readExact 2)
      orReturn "TCP read len failed" lenBuf fun lenBuf => do
      let respBuf ← Prog.perform (WireCall.readExact (ofBE lenBuf.val))
      orReturn "TCP read data failed" respBuf fun respBuf => pure (.ok respBuf.val)

/-! ## The client over sockets -/

/-- The two calls that exchange messages are made over sockets; others stay as they are. -/
def transport : (c : Call) → Wire c.Reply
  | .sendDnsQueryUdp resolverIp query => sendDnsQueryUdp resolverIp query
  | .sendDnsQueryTcp resolverIp query => sendDnsQueryTcp resolverIp query
  | c => Prog.perform (WireCall.client c)

/-- What went to a resolver, and what came back. -/
structure Contact where
  sent : ℕ
  received : Option Datagram
  written : Bytes
  read : Bytes

/-- Nothing was sent. -/
def Contact.start : Contact := ⟨0, none, [], []⟩

/-- Every attempt to send a datagram counts; bytes of a stream do when the call succeeds. -/
def Contact.next (x : Contact) : (c : WireCall) → c.Reply → Contact
  | .sendTo _ _, _ => { x with sent := x.sent + 1 }
  | .recvFrom, .done datagram => { x with received := some datagram }
  | .writeAll bytes, .ok _ => { x with written := x.written ++ bytes }
  | .readExact _, .ok bytes => { x with read := x.read ++ bytes.val }
  | _, _ => x

/-- What passed between client and resolver along a trace. -/
def contact (u : WireTrace) : Contact := Prog.after Contact.next .start u

/-- No datagram came back, or one that was cut short. -/
def Contact.Unanswered (x : Contact) : Prop :=
  ∀ datagram, x.received = some datagram → isTruncated datagram.val = true

/-- What a call may do in a contact that sends a query: at most two datagrams go out, each with
the query, and none behind one that came back; a stream is only opened without an answer, and
what is written to it starts the frame of the query; nothing is read before all of that is
written. -/
def Proper (resolverIp : SocketAddr) (query : Bytes) (x : Contact) : WireCall → Prop
  | .bindUdp _ => x.sent = 0
  | .sendTo datagram ip =>
      datagram = query ∧ ip = resolverIp ∧ x.sent < 2 ∧ x.received = none ∧ x.written = []
  | .recvFrom => 0 < x.sent ∧ x.received = none
  | .sleepMillis _ => x.sent = 1 ∧ x.received = none
  | .connect ip => ip = resolverIp ∧ x.Unanswered
  | .writeAll bytes => x.written ++ bytes <+: frame 2 query
  | .readExact _ => x.written = frame 2 query
  | .client _ => False

section Holds
variable {resolverIp : SocketAddr} {query : Bytes} {x : Contact}

/-- The stream is not touched, and the result is the datagram that came back. -/
structure Contact.ByUdp (x : Contact) (r : Except String Bytes) : Prop where
  received : x.received.map Subtype.val = r.toOption
  written : x.written = []
  read : x.read = []

theorem holds_udpAttempt (hsent : x.sent < 2) (hreceived : x.received = none)
    (hwritten : x.written = []) (hread : x.read = []) :
    Prog.Holds Contact.next (Proper resolverIp query)
      (fun x' r => x'.sent = x.sent + 1 ∧ x'.ByUdp r) (udpAttempt resolverIp query) x := by
  have hnone : ∀ e, x.received.map Subtype.val = (Except.error e : Except String Bytes).toOption :=
    fun e => by rw [hreceived]; rfl
  refine Prog.holds_perform_bind.mpr ⟨⟨rfl, rfl, hsent, hreceived, hwritten⟩, fun sent => ?_⟩
  cases sent with
  | error e => exact ⟨rfl, hnone _, hwritten, hread⟩
  | ok _ =>
      refine Prog.holds_perform_bind.mpr ⟨⟨Nat.succ_pos _, hreceived⟩, fun reply => ?_⟩
      cases reply with
      | done datagram => exact ⟨rfl, rfl, hwritten, hread⟩
      | failed e => exact ⟨rfl, hnone _, hwritten, hread⟩
      | elapsed => exact ⟨rfl, hnone _, hwritten, hread⟩

/-- An attempt that ends in an error leaves the contact as it was, but for the datagram it sent. -/
theorem holds_udpAttempts (left : ℕ) (hsent : x.sent + left = 2) (hreceived : x.received = none)
    (hwritten : x.written = []) (hread : x.read = []) :
    Prog.Holds Contact.next (Proper resolverIp query) Contact.ByUdp
      (udpAttempts resolverIp query left) x := by
  induction left generalizing x with
  | zero => exact ⟨by rw [hreceived]; rfl, hwritten, hread⟩
  | succ left ih =>
      apply (holds_udpAttempt (by omega) hreceived hwritten hread).bind
      rintro x' r ⟨hsent', hudp⟩
      cases r with
      | ok datagram => exact hudp
      | error msg =>
          have hreceived' : x'.received = none := Option.map_eq_none_iff.mp hudp.received
          have hsent'' : x'.sent + left = 2 := by omega
          refine Prog.holds_ite.mpr ⟨fun _ => hudp, fun hleft => ?_⟩
          refine Prog.holds_perform_bind.mpr ⟨⟨by omega, hreceived'⟩, fun _ => ?_⟩
          exact ih (x := x') hsent'' hreceived' hudp.written hudp.read

theorem holds_sendDnsQueryUdp (resolverIp : SocketAddr) (query : Bytes) :
    Prog.Holds Contact.next (Proper resolverIp query) Contact.ByUdp
      (sendDnsQueryUdp resolverIp query) .start := by
  refine Prog.holds_perform_bind.mpr ⟨rfl, fun bound => ?_⟩
  cases bound with
  | error e => exact ⟨rfl, rfl, rfl⟩
  | ok _ => exact holds_udpAttempts 2 rfl rfl rfl rfl

/-- The query and the reply went over the stream, each in its frame. -/
structure Contact.ByTcp (query : Bytes) (x : Contact) (resp : Bytes) : Prop where
  written : x.written = frame 2 query
  read : x.read = frame 2 resp
  fits : resp.length < 2 ^ 16

theorem holds_orReturn {α : Type} {what : String} {result : Except String α}
    {rest : α → Wire (Except String Bytes)} {P : Contact → WireCall → Prop}
    {Q : Contact → Except String Bytes → Prop} (herr : ∀ msg, Q x (.error msg))
    (hok : ∀ a, result = .ok a → Prog.Holds Contact.next P Q (rest a) x) :
    Prog.Holds Contact.next P Q (orReturn what result rest) x := by
  cases result with
  | error e => exact herr _
  | ok a => exact hok a rfl

theorem holds_sendDnsQueryTcp (hunanswered : x.Unanswered) (hwritten : x.written = [])
    (hread : x.read = []) :
    Prog.Holds Contact.next (Proper resolverIp query)
      (fun x' r => x'.received = x.received ∧ ∀ resp, r = .ok resp → x'.ByTcp query resp)
      (sendDnsQueryTcp resolverIp query) x := by
  have hlen : x.written ++ lenPrefix query = lenPrefix query := by rw [hwritten]; rfl
  have hframe : x.written ++ lenPrefix query ++ query = frame 2 query := by rw [hlen]; rfl
  refine Prog.holds_perform_bind.mpr ⟨⟨rfl, hunanswered⟩, fun connected => ?_⟩
  cases connected with
  | elapsed => exact ⟨rfl, nofun⟩
  | failed e => exact ⟨rfl, nofun⟩
  | done _ =>
      refine Prog.holds_perform_bind.mpr ⟨⟨query, hframe⟩, fun sentLen => ?_⟩
      refine holds_orReturn (fun _ => ⟨by cases sentLen <;> rfl, nofun⟩) ?_
      rintro _ rfl
      refine Prog.holds_perform_bind.mpr ⟨⟨[], by rw [List.append_nil]; exact hframe⟩, ?_⟩
      intro sentQuery
      refine holds_orReturn (fun _ => ⟨by cases sentQuery <;> rfl, nofun⟩) ?_
      rintro _ rfl
      refine Prog.holds_perform_bind.mpr ⟨hframe, fun lenBuf => ?_⟩
      refine holds_orReturn (fun _ => ⟨by cases lenBuf <;> rfl, nofun⟩) ?_
      rintro lenBuf rfl
      refine Prog.holds_perform_bind.mpr ⟨hframe, fun respBuf => ?_⟩
      refine holds_orReturn (fun _ => ⟨by cases respBuf <;> rfl, nofun⟩) ?_
      rintro respBuf rfl
      refine ⟨rfl, fun resp hresp => ?_⟩
      cases hresp
      refine ⟨hframe, ?_, ?_⟩
      · change x.read ++ lenBuf.val ++ respBuf.val = frame 2 respBuf.val
        rw [hread, List.nil_append]
        exact append_eq_frame lenBuf.property respBuf.property
      · have hlt := ofBE_lt lenBuf.val
        rw [lenBuf.property] at hlt
        rw [respBuf.property]
        exact hlt

/-! ### A query, first over UDP and then over TCP -/

/-- What the result of a query is, by the contact: a datagram that came back whole is the result,
and every other reply went over the stream. -/
structure Contact.Delivers (query : Bytes) (x : Contact) (r : Except String Bytes) : Prop where
  whole : ∀ datagram, x.received = some datagram → isTruncated datagram.val = false →
    r = .ok datagram.val
  source : ∀ resp, r = .ok resp →
    (∃ datagram, x.received = some datagram ∧ datagram.val = resp ∧ isTruncated resp = false) ∨
      x.ByTcp query resp

/-- Without an answer, TCP decides. -/
theorem holds_byTcp (hunanswered : x.Unanswered) (hwritten : x.written = [])
    (hread : x.read = []) :
    Prog.Holds Contact.next (Proper resolverIp query) (Contact.Delivers query)
      (sendDnsQueryTcp resolverIp query) x := by
  apply (holds_sendDnsQueryTcp hunanswered hwritten hread).mono
  rintro x' r ⟨hreceived, htcp⟩
  refine ⟨fun datagram hdatagram hwhole => ?_, fun resp hresp => .inr (htcp resp hresp)⟩
  rw [hreceived] at hdatagram
  rw [hunanswered datagram hdatagram] at hwhole
  cases hwhole

theorem holds_implement_sendDnsQuery (resolverIp : SocketAddr) (query : Bytes) (forceTcp : Bool) :
    Prog.Holds Contact.next (Proper resolverIp query) (Contact.Delivers query)
      ((sendDnsQuery resolverIp query forceTcp).implement transport) .start := by
  cases forceTcp with
  | true => exact Prog.holds_bind.mpr (holds_byTcp nofun rfl rfl)
  | false =>
      apply (holds_sendDnsQueryUdp resolverIp query).bind
      intro x r hudp
      cases r with
      | error e =>
          have hnone : x.received = none := Option.map_eq_none_iff.mp hudp.received
          have hunanswered : x.Unanswered := by
            intro datagram hdatagram
            rw [hnone] at hdatagram
            cases hdatagram
          exact Prog.holds_bind.mpr (holds_byTcp hunanswered hudp.written hudp.read)
      | ok resp =>
          obtain ⟨datagram, hdatagram, rfl⟩ := Option.map_eq_some_iff.mp hudp.received
          change Prog.Holds _ _ _ (Prog.implement transport
            (if isTruncated datagram.val = true then
              Prog.perform (Call.sendDnsQueryTcp resolverIp query)
            else pure (.ok datagram.val))) x
          by_cases htruncated : isTruncated datagram.val = true
          · have hunanswered : x.Unanswered := by
              intro datagram' hdatagram'
              rw [hdatagram] at hdatagram'
              cases hdatagram'
              exact htruncated
            rw [if_pos htruncated]
            exact Prog.holds_bind.mpr (holds_byTcp hunanswered hudp.written hudp.read)
          · have hwhole : isTruncated datagram.val = false := eq_false_of_ne_true htruncated
            rw [if_neg htruncated]
            refine ⟨fun datagram' hdatagram' _ => ?_, fun resp hresp => ?_⟩
            · rw [hdatagram] at hdatagram'
              cases hdatagram'
              rfl
            · cases hresp
              exact .inl ⟨datagram, hdatagram, rfl, hwhole⟩

/-! ### Every call is replied to -/

theorem Proper.replied {c : WireCall} (h : Proper resolverIp query x c) : Nonempty c.Reply := by
  cases c with
  | bindUdp addr => exact ⟨.error ""⟩
  | sendTo datagram ip => exact ⟨.error ""⟩
  | recvFrom => exact ⟨.elapsed⟩
  | sleepMillis ms => exact ⟨()⟩
  | connect ip => exact ⟨.elapsed⟩
  | writeAll bytes => exact ⟨.error ""⟩
  | readExact n => exact ⟨.error ""⟩
  | client c => exact h.elim

/-- Both ways of sending a query return. -/
theorem isEmpty_of_transport (c : Call) (u : WireTrace) (h : Prog.Runs (transport c) u none) :
    IsEmpty c.Reply := by
  cases c with
  | sendDnsQueryUdp ip query =>
      obtain ⟨r, hr⟩ :=
        (holds_sendDnsQueryUdp ip query).returns (fun _ _ => Proper.replied) h
      cases hr
  | sendDnsQueryTcp ip query =>
      obtain ⟨r, hr⟩ := (holds_sendDnsQueryTcp (x := .start) nofun rfl rfl).returns
        (fun _ _ => Proper.replied) h
      cases hr
  | _ => exact Prog.Runs.isEmpty_of_perform (e := WireCall.client _) h

end Holds

section AtMost
variable {resolverIp : SocketAddr} {query : Bytes}

theorem atMost_udpAttempts (left : ℕ) :
    Prog.AtMost (3 * left + 2) (udpAttempts resolverIp query (left + 1)) := by
  have hattempt : Prog.AtMost 2 (udpAttempt resolverIp query) := by
    refine .call fun sent => ?_
    cases sent with
    | error e => exact Prog.atMost_pure _ _
    | ok _ =>
        refine .call fun reply => ?_
        cases reply <;> exact Prog.atMost_pure _ _
  induction left with
  | zero =>
      refine hattempt.bind (n := 0) fun r => ?_
      cases r <;> exact Prog.atMost_pure _ _
  | succ left ih =>
      refine (hattempt.bind (n := 3 * left + 3) fun r => ?_).mono (by omega)
      cases r with
      | ok datagram => exact Prog.atMost_pure _ _
      | error msg => exact .ite (fun _ => Prog.atMost_pure _ _) fun _ => .call fun _ => ih

theorem atMost_sendDnsQueryUdp : Prog.AtMost 6 (sendDnsQueryUdp resolverIp query) := by
  refine .call fun bound => ?_
  cases bound with
  | error e => exact Prog.atMost_pure _ _
  | ok _ => exact atMost_udpAttempts 1

theorem atMost_orReturn {α : Type} {what : String} {result : Except String α}
    {rest : α → Wire (Except String Bytes)} {n : ℕ} (h : ∀ a, Prog.AtMost n (rest a)) :
    Prog.AtMost n (orReturn what result rest) := by
  cases result with
  | error e => exact Prog.atMost_pure _ _
  | ok a => exact h a

theorem atMost_sendDnsQueryTcp : Prog.AtMost 5 (sendDnsQueryTcp resolverIp query) := by
  refine .call fun connected => ?_
  cases connected with
  | elapsed => exact Prog.atMost_pure _ _
  | failed e => exact Prog.atMost_pure _ _
  | done _ =>
      refine .call fun _ => atMost_orReturn fun _ => ?_
      refine .call fun _ => atMost_orReturn fun _ => ?_
      refine .call fun _ => atMost_orReturn fun _ => ?_
      exact .call fun _ => atMost_orReturn fun _ => Prog.atMost_pure _ _

theorem atMost_implement_sendDnsQuery (forceTcp : Bool) :
    Prog.AtMost 11 ((sendDnsQuery resolverIp query forceTcp).implement transport) := by
  have htcp : Prog.AtMost 5 (Prog.implement transport
      (Prog.perform (Call.sendDnsQueryTcp resolverIp query))) :=
    atMost_sendDnsQueryTcp.bind (n := 0) fun _ => Prog.atMost_pure _ _
  cases forceTcp with
  | true => exact htcp.mono (by omega)
  | false =>
      refine atMost_sendDnsQueryUdp.bind (n := 5) fun r => ?_
      cases r with
      | error e => exact htcp
      | ok resp =>
          change Prog.AtMost 5 (Prog.implement transport
            (if isTruncated resp = true then
              Prog.perform (Call.sendDnsQueryTcp resolverIp query)
            else pure (.ok resp)))
          split
          · exact htcp
          · exact Prog.atMost_pure _ _

end AtMost

/-! ## All runs -/

/-- Whoever reads the streams as messages behind their length reads the reply, and the query if
its length fits the two bytes. -/
theorem Contact.ByTcp.unframed {query resp : Bytes} {x : Contact} (h : x.ByTcp query resp) :
    unframe 2 x.read = some (resp, []) ∧
      (unframe 2 x.written = some (query, []) ↔ query.length < 2 ^ 16) := by
  rw [h.read, h.written, unframe_eq_some_iff, unframe_eq_some_iff, List.append_nil,
    List.append_nil]
  exact ⟨⟨h.fits, rfl⟩, and_iff_left rfl⟩

/-- Every call of the trace is proper where it is made. -/
def KeepsTo (resolverIp : SocketAddr) (query : Bytes) (u : WireTrace) : Prop :=
  ∀ u₁ c reply u₂, u = u₁ ++ ⟨c, reply⟩ :: u₂ → Proper resolverIp query (contact u₁) c

/-- **A query over sockets makes at most eleven calls**, each of them proper, and returns if they
do: nothing but the two receives of a datagram and the connection has a timeout. A datagram that
comes back whole is the reply; every other reply is read off a stream, on which the resolver finds
the query if its length fits the two bytes in front of it. -/
theorem send_query_over_sockets (resolverIp : SocketAddr) (query : Bytes) (forceTcp : Bool)
    {u : WireTrace} {o : Option (Except String Bytes)}
    (hrun : Prog.Runs ((sendDnsQuery resolverIp query forceTcp).implement transport) u o) :
    u.length ≤ 11 ∧ KeepsTo resolverIp query u ∧
      ∃ r, o = some r ∧ (contact u).Delivers query r ∧
        ∀ resp, (contact u).ByTcp query resp →
          unframe 2 (contact u).read = some (resp, []) ∧
            (unframe 2 (contact u).written = some (query, []) ↔ query.length < 2 ^ 16) := by
  have hquery := holds_implement_sendDnsQuery resolverIp query forceTcp
  obtain ⟨hcalls, hresult⟩ := hquery.sound hrun
  obtain ⟨r, rfl⟩ := hquery.returns (fun _ _ => Proper.replied) hrun
  refine ⟨(atMost_implement_sendDnsQuery forceTcp).length_le hrun, ?_, r, rfl, hresult r rfl, ?_⟩
  · intro u₁ c reply u₂ hu
    exact hcalls u₁ _ u₂ hu
  · intro resp hresp
    exact hresp.unframed

/-- A first receive that times out, a datagram for the second, and the loader's own test reply over
TCP. -/
def sampleWireEnv (datagram : Datagram) (past : WireTrace) : (c : WireCall) → Option c.Reply
  | .bindUdp _ => some (.ok ())
  | .sendTo _ _ => some (.ok ())
  | .recvFrom => some (if past.length < 3 then .elapsed else .done datagram)
  | .sleepMillis _ => some ()
  | .connect _ => some (.done ())
  | .writeAll _ => some (.ok ())
  | .readExact n => some (.ok (padded n (if n = 2 then lenPrefix githubReply else githubReply)))
  | .client c => sampleEnv true 1780272100 [] c

theorem runs_sampleWireEnv {α : Type} (datagram : Datagram) (p : Wire α) :
    Prog.Runs p (Prog.exec (sampleWireEnv datagram) p []).1
      (Prog.exec (sampleWireEnv datagram) p []).2 := by
  apply Prog.runs_exec
  intro past c hc
  cases c with
  | client c => exact sampleEnv_replies [] c hc
  | _ => cases hc

/-- A datagram that says it was cut short. -/
def cutShort : Datagram := ⟨githubReply.take 2 ++ [0x83], by decide⟩

/-- A query whose datagram comes back cut short. -/
def sampleWireExchange : WireTrace × Option (Except String Bytes) :=
  Prog.exec (sampleWireEnv cutShort) ((sendDnsQuery (sampleResolver [9, 9, 9, 9]).ip
    (buildARecordQuery "github.com") false).implement transport) []

theorem send_query_over_sockets_github :
    KeepsTo (sampleResolver [9, 9, 9, 9]).ip (buildARecordQuery "github.com") sampleWireExchange.1 ∧
      unframe 2 (contact sampleWireExchange.1).read = some (githubReply, []) ∧
      unframe 2 (contact sampleWireExchange.1).written =
        some (buildARecordQuery "github.com", []) := by
  have hsample : sampleWireExchange.2 = some (.ok githubReply) ∧
      (contact sampleWireExchange.1).received = some cutShort ∧
      githubReply ≠ cutShort.val ∧ (buildARecordQuery "github.com").length < 2 ^ 16 := by
    decide +kernel
  obtain ⟨hreply, hreceived, hother, hfits⟩ := hsample
  obtain ⟨-, hkeeps, r, hr, hdelivers, hunframed⟩ :=
    send_query_over_sockets (sampleResolver [9, 9, 9, 9]).ip (buildARecordQuery "github.com") false
      (runs_sampleWireEnv cutShort _)
  obtain rfl : Except.ok githubReply = r := Option.some.inj (hreply.symm.trans hr)
  rcases hdelivers.source githubReply rfl with ⟨datagram, hdatagram, heq, -⟩ | htcp
  · obtain rfl : cutShort = datagram := Option.some.inj (hreceived.symm.trans hdatagram)
    exact absurd heq.symm hother
  · obtain ⟨hread, hwritten⟩ := hunframed githubReply htcp
    exact ⟨hkeeps, hread, hwritten.mpr hfits⟩

/-- What the part of a trace that makes a call of the client shows of it. -/
def Carried (v : WireTrace) : (c : Call) → c.Reply → Prop
  | .sendDnsQueryUdp resolverIp query, r => KeepsTo resolverIp query v ∧ (contact v).ByUdp r
  | .sendDnsQueryTcp resolverIp query, r =>
      KeepsTo resolverIp query v ∧ ∀ resp, r = .ok resp → (contact v).ByTcp query resp
  | _, _ => True

theorem carried_of_runs {c : Call} {r : c.Reply} {v : WireTrace}
    (h : Prog.Runs (transport c) v (some r)) : Carried v c r := by
  cases c with
  | sendDnsQueryUdp ip query =>
      obtain ⟨hcalls, hresult⟩ := (holds_sendDnsQueryUdp ip query).sound h
      exact ⟨fun u₁ c reply u₂ hu => hcalls u₁ _ u₂ hu, hresult r rfl⟩
  | sendDnsQueryTcp ip query =>
      obtain ⟨hcalls, hresult⟩ :=
        (holds_sendDnsQueryTcp (x := .start) nofun rfl rfl).sound h
      exact ⟨fun u₁ c reply u₂ hu => hcalls u₁ _ u₂ hu, (hresult r rfl).2⟩
  | _ => trivial

/-- **The client over sockets is the client.** Whatever a program of the client does over sockets
is a run of it, with the same result, in which every reply of a resolver was carried by a part of
the trace: a UDP reply is the datagram that part received, and a TCP reply the message it read. -/
theorem client_over_sockets {α : Type} {p : Client α} {u : WireTrace} {o : Option α}
    (hrun : Prog.Runs (p.implement transport) u o) :
    ∃ t, Prog.Runs p t o ∧ ∀ (c : Call) (r : c.Reply), ⟨c, some r⟩ ∈ t →
      ∃ u₁ v u₂, u = u₁ ++ v ++ u₂ ∧ Carried v c r := by
  obtain ⟨t, hclient, hreal⟩ := (Prog.runs_implement_iff isEmpty_of_transport).mp hrun
  refine ⟨t, hclient, fun c r hmem => ?_⟩
  obtain ⟨u₁, v, u₂, hu, hcall⟩ := hreal.of_mem hmem
  exact ⟨u₁, v, u₂, hu, carried_of_runs hcall⟩

/-- The certificate, as a datagram. -/
def certDatagram : Datagram := ⟨sampleCertReply, by decide +kernel⟩

/-- A session over sockets. -/
def sampleEstablishment :
    WireTrace × Option (Except String DnscryptClientState × Option DnscryptClientState) :=
  Prog.exec (sampleWireEnv certDatagram)
    ((getOrEstablishSession samplePackages none).implement transport) []

theorem client_over_sockets_session :
    (∃ session, sampleEstablishment.2 = some (.ok session, some session)) ∧
      ∃ t, Prog.Runs (getOrEstablishSession samplePackages none) t sampleEstablishment.2 ∧
        ∀ (c : Call) (r : c.Reply), ⟨c, some r⟩ ∈ t →
          ∃ u₁ v u₂, sampleEstablishment.1 = u₁ ++ v ++ u₂ ∧ Carried v c r := by
  have hsession : sampleEstablishment.2 = some (.ok ⟨(sampleResolver [9, 9, 9, 9]).ip,
      padded 32 [7], padded 8 (List.replicate 8 3), padded 32 (List.replicate 32 5), 1780280000⟩,
      some ⟨(sampleResolver [9, 9, 9, 9]).ip, padded 32 [7], padded 8 (List.replicate 8 3),
        padded 32 (List.replicate 32 5), 1780280000⟩) := by decide +kernel
  exact ⟨⟨_, hsession⟩, client_over_sockets (runs_sampleWireEnv certDatagram _)⟩

end SevMicroLoader.Dns
