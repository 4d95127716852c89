import SevMicroLoader.Lib.Prog
import SevMicroLoader.Time.Request
import SevMicroLoader.Time.Safety

/-!
# One Roughtime query

`querySingleRoughtime` is a program over the socket and the random source. It draws a nonce, sends
the request at most twice, and verifies the first datagram that comes back. `Exchange` follows its
calls, and `Disciplined` says what each of them may do; a midpoint that comes back is authenticated
for the nonce of this very query.
-/

namespace SevMicroLoader.Time
open Rust Metered

/-! ## Calls -/

/-- What a query asks of its environment. -/
inductive QueryCall
  /-- `UdpSocket::bind(addr)`. -/
  | bindUdp (addr : String)
  /-- `rand::fill` of a buffer of `n` bytes. -/
  | fill (n : ℕ)
  | sendTo (datagram : Bytes) (ip : IpAddr) (port : UInt16)
  /-- A receive into a buffer of 2048 bytes, under a timeout of 15 seconds. -/
  | recvFrom
  | sleepMillis (ms : ℕ)
  | abort (s : Stop)

/-- How a receive ends. -/
inductive RecvReply
  | received (datagram : { bs : Bytes // bs.length ≤ 2048 })
  | failed (e : String)
  | timeout

/-- What the environment answers. -/
abbrev QueryCall.Reply : QueryCall → Type
  | .bindUdp _ => Except String Unit
  | .fill n => Option (ByteArr n)
  | .sendTo _ _ _ => Except String Unit
  | .recvFrom => RecvReply
  | .sleepMillis _ => Unit
  | .abort _ => Empty

/-- A program of a query. -/
abbrev Query := Prog QueryCall QueryCall.Reply

/-- A trace of a query. -/
abbrev QueryTrace := List (Prog.Event QueryCall QueryCall.Reply)

/-! ## The query -/

/-- The attempts that are left: the first datagram that is received. -/
def sendAttempts (ip : IpAddr) (port : UInt16) (req : Bytes) :
    ℕ → Query (Option { bs : Bytes // bs.length ≤ 2048 })
  | 0 => pure none
  | left + 1 => do
      match ← Prog.perform (QueryCall.sendTo req ip port) with
      | .error _ =>
          let _ ← Prog.perform (QueryCall.sleepMillis 300)
          sendAttempts ip port req left
      | .ok _ =>
          match ← Prog.perform QueryCall.recvFrom with
          | .received datagram => pure (some datagram)
          | _ =>
              let _ ← Prog.perform (QueryCall.sleepMillis 300)
              sendAttempts ip port req left

variable (C : Crypto)

/-- The verified midpoint; a panic aborts the process. -/
def verifiedMidpoint (data : Bytes) (nonce : ByteArr 64) (pubkeyBase64 : String) :
    Query (Except String UInt64) :=
  match (verifyRoughtimeResponse C data nonce pubkeyBase64).val with
  | .ok midpoint => pure (.ok midpoint)
  | .error (.err msg) => pure (.error msg)
  | .error (.panic p) => .call (.abort (.panic p)) Empty.elim

/-- One nonce, at most two datagrams, and the midpoint of the answer. -/
def querySingleRoughtime (ip : IpAddr) (port : UInt16) (pubkeyBase64 : String) :
    Query (Except String UInt64) := do
  match ← Prog.perform (QueryCall.bindUdp "0.0.0.0:0") with
  | .error e => pure (.error ("Failed to bind UDP socket: " ++ e))
  | .ok _ =>
      let some nonce ← Prog.perform (QueryCall.fill 64)
        | pure (.error "Entropy read failed: Unspecified")
      match ← sendAttempts ip port (request nonce) 2 with
      | none => pure (.error "Query timed out or failed")
      | some data => verifiedMidpoint C data.val nonce pubkeyBase64

/-! ## What an exchange is -/

/-- The nonce that was drawn, the datagrams that were sent, and the one that was received. -/
structure Exchange where
  nonce : Option (ByteArr 64)
  sent : ℕ
  received : Option { bs : Bytes // bs.length ≤ 2048 }

/-- Nothing was sent. -/
def Exchange.start : Exchange := ⟨none, 0, none⟩

/-- Every attempt to send a datagram counts. -/
def Exchange.next (x : Exchange) : (c : QueryCall) → c.Reply → Exchange
  | .fill 64, some nonce => { x with nonce := some nonce }
  | .sendTo _ _ _, _ => { x with sent := x.sent + 1 }
  | .recvFrom, .received datagram => { x with received := some datagram }
  | _, _ => x

/-- What passed between client and server along a trace. -/
def exchange (t : QueryTrace) : Exchange := Prog.after Exchange.next .start t

/-- What a call may do: each datagram is the request for the nonce, goes to the server and is one
of two, and nothing is sent or received behind a datagram that was received. -/
def Disciplined (ip : IpAddr) (port : UInt16) (x : Exchange) : QueryCall → Prop
  | .fill n => n = 64 ∧ x.nonce = none
  | .sendTo datagram ip' port' => (∃ nonce, x.nonce = some nonce ∧ datagram = request nonce) ∧
      ip' = ip ∧ port' = port ∧ x.sent < 2 ∧ x.received = none
  | .recvFrom => 0 < x.sent ∧ x.received = none
  | .abort _ => False
  | _ => True

variable {C} {ip : IpAddr} {port : UInt16} {key : String} {x : Exchange}

/-- The attempts end with a datagram, or with none. -/
theorem holds_sendAttempts {nonce : ByteArr 64} (left : ℕ) (hnonce : x.nonce = some nonce)
    (hsent : x.sent + left = 2) (hreceived : x.received = none) :
    Prog.Holds Exchange.next (Disciplined ip port)
      (fun x' r => x'.nonce = some nonce ∧ x'.received = r)
      (sendAttempts ip port (request nonce) left) x := by
  induction left generalizing x with
  | zero => exact ⟨hnonce, hreceived⟩
  | succ left ih =>
      have hsend : Disciplined ip port x (.sendTo (request nonce) ip port) :=
        ⟨⟨nonce, hnonce, rfl⟩, rfl, rfl, by omega, hreceived⟩
      have hleft : x.sent + 1 + left = 2 := by omega
      have hagain : Prog.Holds Exchange.next (Disciplined ip port)
          (fun x' r => x'.nonce = some nonce ∧ x'.received = r)
          (Prog.perform (QueryCall.sleepMillis 300) >>= fun _ =>
            sendAttempts ip port (request nonce) left) { x with sent := x.sent + 1 } :=
        Prog.holds_perform_bind.mpr ⟨trivial, fun _ => ih hnonce hleft hreceived⟩
      refine Prog.holds_perform_bind.mpr ⟨hsend, fun sent => ?_⟩
      cases sent with
      | error e => exact hagain
      | ok _ =>
          refine Prog.holds_perform_bind.mpr ⟨⟨Nat.succ_pos _, hreceived⟩, fun reply => ?_⟩
          cases reply with
          | received datagram => exact ⟨hnonce, rfl⟩
          | failed e => exact hagain
          | timeout => exact hagain

/-- What a query returns: an error if nothing was received, and else what verifying it gives. -/
def Returned (C : Crypto) (key : String) (x : Exchange) (r : Except String UInt64) : Prop :=
  match x.received with
  | none => ∃ msg, r = .error msg
  | some data => ∃ nonce, x.nonce = some nonce ∧
      ∀ m, r = .ok m ↔ (verifyRoughtimeResponse C data.val nonce key).val = .ok m

/-- A datagram fits the buffer, so that verifying it does not panic. -/
theorem holds_verifiedMidpoint {data : { bs : Bytes // bs.length ≤ 2048 }} {nonce : ByteArr 64}
    (hnonce : x.nonce = some nonce) (hreceived : x.received = some data) :
    Prog.Holds Exchange.next (Disciplined ip port) (Returned C key)
      (verifiedMidpoint C data.val nonce key) x := by
  have hverify : Within (2 ^ 35, 2 ^ 12) Stop.IsErr (fun _ => True)
      (verifyRoughtimeResponse C data.val nonce key) :=
    within_verifyRoughtimeResponse le_rfl (by have := data.property; omega)
      (by have := data.property; omega)
  have hreturned : ∀ r : Except String UInt64,
      (∀ m, r = .ok m ↔ (verifyRoughtimeResponse C data.val nonce key).val = .ok m) →
        Returned C key x r := by
    intro r hr
    rw [Returned, hreceived]
    exact ⟨nonce, hnonce, hr⟩
  rw [verifiedMidpoint]
  split
  · next m hm =>
      refine hreturned _ fun m' => ?_
      rw [hm, Except.ok.injEq, Except.ok.injEq]
  · next msg hmsg =>
      refine hreturned _ fun m' => ?_
      rw [hmsg]
      exact ⟨nofun, nofun⟩
  · next p hp => exact (hverify.stop _ hp).elim

/-- **A query is disciplined**, and what it returns is what its exchange says. -/
theorem holds_querySingleRoughtime (C : Crypto) (ip : IpAddr) (port : UInt16) (key : String) :
    Prog.Holds Exchange.next (Disciplined ip port) (Returned C key)
      (querySingleRoughtime C ip port key) .start := by
  refine Prog.holds_perform_bind.mpr ⟨trivial, fun bound => ?_⟩
  cases bound with
  | error e => exact ⟨_, rfl⟩
  | ok _ =>
      refine Prog.holds_perform_bind.mpr ⟨⟨rfl, rfl⟩, fun nonce => ?_⟩
      cases nonce with
      | none => exact ⟨_, rfl⟩
      | some nonce =>
          apply (holds_sendAttempts 2 rfl rfl rfl).bind
          rintro x data ⟨hnonce, hreceived⟩
          cases data with
          | none =>
              change Returned C key x _
              rw [Returned, hreceived]
              exact ⟨_, rfl⟩
          | some data => exact holds_verifiedMidpoint hnonce hreceived

/-- A midpoint that is returned was verified. -/
theorem Returned.verified {m : UInt64} (h : Returned C key x (.ok m)) :
    ∃ nonce data, x.nonce = some nonce ∧ x.received = some data ∧
      (verifyRoughtimeResponse C data.val nonce key).val = .ok m := by
  rw [Returned] at h
  split at h
  · next hnone =>
      obtain ⟨msg, hmsg⟩ := h
      cases hmsg
  · next data hdata =>
      obtain ⟨nonce, hnonce, hverified⟩ := h
      exact ⟨nonce, data, hnonce, hdata, (hverified m).mp rfl⟩

theorem atMost_sendAttempts (req : Bytes) (left : ℕ) :
    Prog.AtMost (3 * left) (sendAttempts ip port req left) := by
  induction left with
  | zero => exact Prog.atMost_pure _ _
  | succ left ih =>
      rw [Nat.mul_succ]
      refine .call fun sent => ?_
      cases sent with
      | error e => exact (Prog.AtMost.call fun _ => ih).mono (by omega)
      | ok _ =>
          refine .call fun reply => ?_
          cases reply with
          | received datagram => exact Prog.atMost_pure _ _
          | failed e => exact .call fun _ => ih
          | timeout => exact .call fun _ => ih

theorem atMost_querySingleRoughtime (C : Crypto) (ip : IpAddr) (port : UInt16) (key : String) :
    Prog.AtMost 9 (querySingleRoughtime C ip port key) := by
  refine .call fun bound => ?_
  cases bound with
  | error e => exact Prog.atMost_pure _ _
  | ok _ =>
      refine .call fun nonce => ?_
      cases nonce with
      | none => exact Prog.atMost_pure _ _
      | some nonce =>
          refine (atMost_sendAttempts (request nonce) 2).bind (n := 1) fun data => ?_
          cases data with
          | none => exact Prog.atMost_pure _ _
          | some data =>
              dsimp only
              rw [verifiedMidpoint]
              split
              · exact Prog.atMost_pure _ _
              · exact Prog.atMost_pure _ _
              · exact .call fun r => r.elim

/-- Only an abort never returns, and a query does not abort. -/
theorem Disciplined.replied {c : QueryCall} (h : Disciplined ip port x c) : Nonempty c.Reply := by
  cases c with
  | bindUdp addr => exact ⟨.error ""⟩
  | fill n => exact ⟨none⟩
  | sendTo datagram ip port => exact ⟨.error ""⟩
  | recvFrom => exact ⟨.timeout⟩
  | sleepMillis ms => exact ⟨()⟩
  | abort s => exact h.elim

theorem returns_of_runs {t : QueryTrace} {o : Option (Except String UInt64)}
    (hrun : Prog.Runs (querySingleRoughtime C ip port key) t o) : ∃ r, o = some r :=
  (holds_querySingleRoughtime C ip port key).returns (fun _ _ => Disciplined.replied) hrun

/-! ## All runs -/

/-- **A query returns, and its answer is fresh.** Every run is short, aborts nowhere and keeps to
the discipline: at most two datagrams go out, each the request for the one nonce it drew, and at
most one comes in. A midpoint is authenticated for this nonce by the datagram that came in. -/
theorem query_fresh (C : Crypto) (ip : IpAddr) (port : UInt16) (key : String) {t : QueryTrace}
    {o : Option (Except String UInt64)}
    (hrun : Prog.Runs (querySingleRoughtime C ip port key) t o) :
    t.length ≤ 9 ∧ o ≠ none ∧
    (∀ t₁ c reply t₂, t = t₁ ++ ⟨c, reply⟩ :: t₂ → Disciplined ip port (exchange t₁) c) ∧
    ∀ m, o = some (.ok m) → ∃ nonce data dele srep, (exchange t).nonce = some nonce ∧
      (exchange t).received = some data ∧ Authenticated C data.val nonce key dele srep m := by
  obtain ⟨hcalls, hresult⟩ := (holds_querySingleRoughtime C ip port key).sound hrun
  refine ⟨(atMost_querySingleRoughtime C ip port key).length_le hrun, ?_, ?_, ?_⟩
  · obtain ⟨r, rfl⟩ := returns_of_runs hrun
    exact Option.some_ne_none r
  · intro t₁ c reply t₂ ht
    exact hcalls t₁ _ t₂ ht
  · intro m hm
    obtain ⟨nonce, data, hnonce, hdata, hverified⟩ := (hresult _ hm).verified
    obtain ⟨dele, srep, hauthentic⟩ := authenticated_of_ok hverified
    exact ⟨nonce, data, dele, srep, hnonce, hdata, hauthentic⟩

/-- The first attempt times out, and the second one is answered. -/
def sampleQueryEnv (past : QueryTrace) : (c : QueryCall) → Option c.Reply
  | .bindUdp _ => some (.ok ())
  | .fill n => some (some (padded n (List.replicate n 0x55)))
  | .sendTo _ _ _ => some (.ok ())
  | .recvFrom =>
      some (if past.length < 4 then .timeout else .received ⟨sampleResponse, by decide +kernel⟩)
  | .sleepMillis _ => some ()
  | .abort _ => none

def sampleServerIp : IpAddr := .v4 ⟨[203, 0, 113, 35], rfl⟩

/-- The query in the environment above. -/
def sampleQuery : QueryTrace × Option (Except String UInt64) :=
  Prog.exec sampleQueryEnv (querySingleRoughtime sampleCrypto sampleServerIp 2003
    "0GD7c3yP8xEc4Zl2zeuN2SlLvDVVocjsPSL8/Rl/7zg=") []

theorem query_fresh_second_attempt : (exchange sampleQuery.1).sent = 2 ∧
    ∃ nonce data dele srep, (exchange sampleQuery.1).nonce = some nonce ∧
      Authenticated sampleCrypto data nonce "0GD7c3yP8xEc4Zl2zeuN2SlLvDVVocjsPSL8/Rl/7zg="
        dele srep 1000 := by
  have hrun : Prog.Runs (querySingleRoughtime sampleCrypto sampleServerIp 2003
      "0GD7c3yP8xEc4Zl2zeuN2SlLvDVVocjsPSL8/Rl/7zg=") sampleQuery.1 sampleQuery.2 :=
    Prog.runs_exec (fun _ c hc => by cases c <;> first | exact ⟨Empty.elim⟩ | cases hc) _ []
  have hsample : sampleQuery.2 = some (.ok 1000) ∧ (exchange sampleQuery.1).sent = 2 := by
    decide +kernel
  obtain ⟨-, -, -, hfresh⟩ := query_fresh sampleCrypto _ _ _ hrun
  obtain ⟨nonce, data, dele, srep, hnonce, -, hauthentic⟩ := hfresh 1000 hsample.1
  exact ⟨hsample.2, nonce, data.val, dele, srep, hnonce, hauthentic⟩

end SevMicroLoader.Time
