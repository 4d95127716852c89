import SevMicroLoader.Dns.Client
import SevMicroLoader.Dns.Safety

/-!
# Establishing a DNSCrypt session

`establishDnscryptSession` asks the resolvers in turn for their certificates, keeps the one with the
largest serial among those that verify, and agrees on a key with the resolver it names. The clock is
read once for each certificate whose signature holds.

`leaves_establish` is its specification: no run panics, and a session that comes back is `Backed` by
a certificate of a resolver that was verified at a reading of the clock in the same run.
-/

namespace SevMicroLoader.Dns
open Rust
open Metered (Within)

/-! ## The resolvers -/

/-- A resolver with the key of its provider. -/
structure HardcodedResolver where
  ip : SocketAddr
  providerName : String
  providerPk : ByteArr 32

/-- The key that Quad9 signs its certificates with. -/
def quad9Pk : ByteArr 32 :=
  ⟨[0x67, 0xc8, 0x47, 0xb8, 0xc8, 0x75, 0x8c, 0xd1, 0x20, 0x24, 0x55, 0x43, 0xbe, 0x75, 0x67, 0x46,
    0xdf, 0x34, 0xdf, 0x1d, 0x84, 0xc0, 0x0b, 0x8c, 0x47, 0x03, 0x68, 0xdf, 0x82, 0x1d, 0x86, 0x3e],
    rfl⟩

/-- The resolvers, in the order they are tried. -/
def hardcodedResolvers : List HardcodedResolver :=
  [{ ip := ⟨⟨[9, 9, 9, 9], rfl⟩, 8443⟩
     providerName := "2.dnscrypt-cert.quad9.net"
     providerPk := quad9Pk },
   { ip := ⟨⟨[149, 112, 112, 112], rfl⟩, 8443⟩
     providerName := "2.dnscrypt-cert.quad9.net"
     providerPk := quad9Pk },
   { ip := ⟨⟨[149, 112, 112, 9], rfl⟩, 8443⟩
     providerName := "2.dnscrypt-cert.quad9.net"
     providerPk := quad9Pk }]

/-- A session with a resolver. -/
structure DnscryptClientState where
  resolverIp : SocketAddr
  clientPkBytes : ByteArr 32
  clientMagic : ByteArr 8
  sharedKey : ByteArr 32
  tsEnd : UInt32
  deriving DecidableEq, Repr

/-! ## The program -/

variable (K : Packages)

/-- `verify_cert`, with its reading of the clock. -/
def verifyCertNow (cert : Bytes) (providerPk : ByteArr 32) : Client (Option DnscryptCert) := do
  match ← run (readCert K.ed25519 cert providerPk) with
  | none => pure none
  | some cert => pure (checkValidity cert (← readClock))

/-- `best_cert`, after one more certificate that verified. -/
def betterCert (cert : DnscryptCert) : Option DnscryptCert → DnscryptCert
  | some currentBest => if cert.serial > currentBest.serial then cert else currentBest
  | none => cert

/-- The loop over the certificates of one reply. -/
def bestCert (providerPk : ByteArr 32) :
    List Bytes → Option DnscryptCert → Client (Option DnscryptCert)
  | [], best => pure best
  | certRaw :: certsRaw, best => do
      match ← verifyCertNow K certRaw providerPk with
      | none => bestCert providerPk certsRaw best
      | some cert => bestCert providerPk certsRaw (some (betterCert cert best))

/-- The key agreement with a resolver, under its certificate. -/
def agree (resolver : HardcodedResolver) (cert : DnscryptCert) :
    Client (Except String DnscryptClientState) := do
  let some clientSk ← Prog.perform Call.generate
    | pure (.error "Failed to generate client private key: Unspecified")
  let some clientPkBytes ← Prog.perform (Call.computePublicKey clientSk)
    | pure (.error "Failed to compute client public key: Unspecified")
  let some secret ← Prog.perform (Call.agreeEphemeral clientSk cert.resolverPk)
    | pure (.error "X25519 agreement failed: Unspecified")
  if h : secret.length = 32 then
    let sharedKey := K.hchacha20 ⟨secret, h⟩ ⟨List.replicate 16 0, rfl⟩
    pure (.ok ⟨resolver.ip, clientPkBytes, cert.clientMagic, sharedKey, cert.tsEnd⟩)
  else pure (.error "X25519 agreement failed: Unspecified")

/-- The resolvers that are left, with the errors of those before. -/
def establishFrom : List HardcodedResolver → List String →
    Client (Except String DnscryptClientState)
  | [], errors =>
      pure (.error ("Failed to establish DNSCrypt session: " ++ "; ".intercalate errors))
  | resolver :: resolvers, errors => do
      match ← sendDnsQuery resolver.ip (buildTxtRecordQuery resolver.providerName) false with
      | .error e =>
          establishFrom resolvers
            (errors ++ ["Failed to query cert from " ++ resolver.ip.display ++ ": " ++ e])
      | .ok respData =>
          let certsRaw ← run (parseTxtResponse respData)
          match ← bestCert K resolver.providerPk certsRaw none with
          | some cert => agree K resolver cert
          | none =>
              establishFrom resolvers
                (errors ++ ["No valid certs found for resolver " ++ resolver.ip.display])

/-- A session with the first resolver that gives one. -/
def establishDnscryptSession : Client (Except String DnscryptClientState) :=
  establishFrom K hardcodedResolvers []

/-- One boxed query and its answer. -/
def resolveDomainViaDnscryptSession (session : DnscryptClientState) (domain : String) :
    Client (Except String IpAddr) := do
  let paddedQuery := paddedText (buildARecordQuery domain) 1024
  let some clientNonce ← Prog.perform (Call.fill 12)
    | pure (.error "Entropy read failed: Unspecified")
  let queryNonce := joinNonce clientNonce ⟨List.replicate 12 0, rfl⟩
  let encryptedQuery ← run
    (xchacha20DjbPoly1305Encrypt K.cipher session.sharedKey queryNonce paddedQuery)
  let requestPacket := session.clientMagic.val ++ session.clientPkBytes.val ++ clientNonce.val ++
    encryptedQuery
  match ← sendDnsQuery session.resolverIp requestPacket false with
  | .error e => pure (.error e)
  | .ok responsePacket =>
      runResult (handleResponse K.cipher session.sharedKey clientNonce responsePacket)

/-- A fresh session, and the address of a name over it. -/
def resolveDomainViaDnscrypt (domain : String) :
    Client (Except String (IpAddr × Option UInt64)) := do
  match ← establishDnscryptSession K with
  | .error e => pure (.error e)
  | .ok session =>
      match ← resolveDomainViaDnscryptSession K session domain with
      | .error e => pure (.error e)
      | .ok ip => pure (.ok (ip, none))

/-! ## What stands behind a session -/

variable {K}

/-- A certificate was verified under a provider's key at a reading of the clock. -/
def Accepted (K : Packages) (providerPk : ByteArr 32) (t : Trace) (cert : DnscryptCert) : Prop :=
  ∃ raw reading, ⟨.systemTime, some reading⟩ ∈ t ∧
    (verifyCert K.ed25519 raw providerPk (reading.getD 0)).val = .ok (some cert)

/-- A session was agreed on under an accepted certificate of one of the resolvers. -/
def Backed (K : Packages) (resolvers : List HardcodedResolver) (t : Trace)
    (session : DnscryptClientState) : Prop :=
  ∃ resolver ∈ resolvers, ∃ cert, Accepted K resolver.providerPk t cert ∧
    session.resolverIp = resolver.ip ∧ session.clientMagic = cert.clientMagic ∧
    session.tsEnd = cert.tsEnd

theorem Accepted.mono {providerPk : ByteArr 32} {t t' : Trace} {cert : DnscryptCert}
    (h : Accepted K providerPk t cert) (ht : t ⊆ t') : Accepted K providerPk t' cert := by
  obtain ⟨raw, reading, hmem, hverify⟩ := h
  exact ⟨raw, reading, ht hmem, hverify⟩

/-! ## The steps -/

def IsAbort : Call → Prop
  | .abort _ => True
  | _ => False

section Steps
variable {α : Type} {Q : Trace → α → Prop} {t : Trace}

/-- The judgement used here: no run aborts, and the result stands in `Q` with the trace. -/
abbrev Leaves (Q : Trace → α → Prop) (p : Client α) (t : Trace) : Prop :=
  Prog.Holds Prog.record (fun _ c => ¬ IsAbort c) Q p t

theorem subset_record (t : Trace) (c : Call) (r : c.Reply) : t ⊆ Prog.record t c r :=
  List.subset_append_left _ _

theorem leaves_run {x : Checked α} {a : α} (h : x.val = .ok a) (hQ : Q t a) :
    Leaves Q (run x) t := by
  rw [run, h]
  exact hQ

theorem leaves_runResult {Q : Trace → Except String α → Prop} {x : Checked α}
    (h : ∀ p, x.val ≠ .error (.panic p)) (hQ : ∀ r, Q t r) : Leaves Q (runResult x) t := by
  rw [runResult]
  split
  · exact hQ _
  · exact hQ _
  · next p hp => exact absurd hp (h p)

theorem leaves_sendDnsQuery {Q : Trace → Except String Bytes → Prop} {ip : SocketAddr}
    {query : Bytes} (hQ : ∀ t' r, t ⊆ t' → Q t' r) :
    Leaves Q (sendDnsQuery ip query false) t := by
  have htcp : ∀ t', t ⊆ t' → Leaves Q (Prog.perform (Call.sendDnsQueryTcp ip query)) t' := by
    intro t' ht'
    exact ⟨id, fun r => hQ _ r (List.Subset.trans ht' (subset_record _ _ _))⟩
  refine Prog.holds_perform_bind.mpr ⟨id, fun reply => ?_⟩
  have hsub := subset_record t (.sendDnsQueryUdp ip query) reply
  cases reply with
  | error e => exact htcp _ hsub
  | ok resp =>
      refine Prog.holds_ite.mpr ⟨fun _ => htcp _ hsub, fun _ => hQ _ _ hsub⟩

/-- A certificate that comes back was accepted. -/
theorem leaves_verifyCertNow {Q : Trace → Option DnscryptCert → Prop} {raw : Bytes}
    {providerPk : ByteArr 32}
    (hQ : ∀ t' r, t ⊆ t' → (∀ cert, r = some cert → Accepted K providerPk t' cert) → Q t' r) :
    Leaves Q (verifyCertNow K raw providerPk) t := by
  have hwithin : Within (0, 0) (fun _ => False) (fun _ => True)
      (readCert K.ed25519 raw providerPk) := within_readCert
  obtain ⟨cert?, hread, -⟩ := hwithin.exists_ok
  refine Prog.holds_bind.mpr (leaves_run hread ?_)
  cases cert? with
  | none => exact hQ t none (List.Subset.refl t) nofun
  | some cert =>
      refine Prog.holds_perform_bind.mpr ⟨id, fun reading => hQ _ _ (subset_record _ _ _) ?_⟩
      intro cert' hcert'
      refine ⟨raw, reading, List.mem_append_right _ (List.mem_singleton_self _), ?_⟩
      rw [verifyCert, Metered.val_bind_of_ok hread]
      exact congrArg Except.ok hcert'

theorem leaves_bestCert {Q : Trace → Option DnscryptCert → Prop} {providerPk : ByteArr 32}
    (certsRaw : List Bytes) {best : Option DnscryptCert}
    (hbest : ∀ cert, best = some cert → Accepted K providerPk t cert)
    (hQ : ∀ t' r, t ⊆ t' → (∀ cert, r = some cert → Accepted K providerPk t' cert) → Q t' r) :
    Leaves Q (bestCert K providerPk certsRaw best) t := by
  induction certsRaw generalizing best t with
  | nil => exact hQ t best (List.Subset.refl t) hbest
  | cons certRaw certsRaw ih =>
      refine Prog.holds_bind.mpr (leaves_verifyCertNow ?_)
      intro t' r ht' hr
      have hkept : ∀ cert, best = some cert → Accepted K providerPk t' cert := by
        intro cert hcert
        exact (hbest cert hcert).mono ht'
      have hlater : ∀ t'' r, t' ⊆ t'' → (∀ cert, r = some cert → Accepted K providerPk t'' cert) →
          Q t'' r := by
        intro t'' r ht''
        exact hQ t'' r (List.Subset.trans ht' ht'')
      cases r with
      | none => exact ih hkept hlater
      | some cert =>
          refine ih ?_ hlater
          intro better hbetter
          cases hbetter
          cases best with
          | none => exact hr cert rfl
          | some currentBest =>
              rw [betterCert]
              split
              · exact hr cert rfl
              · exact hkept currentBest rfl

theorem leaves_agree {Q : Trace → Except String DnscryptClientState → Prop}
    {resolver : HardcodedResolver} {cert : DnscryptCert}
    (hQ : ∀ t' r, t ⊆ t' → (∀ session, r = .ok session → session.resolverIp = resolver.ip ∧
      session.clientMagic = cert.clientMagic ∧ session.tsEnd = cert.tsEnd) → Q t' r) :
    Leaves Q (agree K resolver cert) t := by
  refine Prog.holds_perform_bind.mpr ⟨id, fun clientSk => ?_⟩
  have h₁ := subset_record t .generate clientSk
  cases clientSk with
  | none => exact hQ _ _ h₁ nofun
  | some clientSk =>
      refine Prog.holds_perform_bind.mpr ⟨id, fun clientPk => ?_⟩
      have h₂ := List.Subset.trans h₁ (subset_record _ (.computePublicKey clientSk) clientPk)
      cases clientPk with
      | none => exact hQ _ _ h₂ nofun
      | some clientPkBytes =>
          refine Prog.holds_perform_bind.mpr ⟨id, fun secret => ?_⟩
          have h₃ := List.Subset.trans h₂
            (subset_record _ (.agreeEphemeral clientSk cert.resolverPk) secret)
          cases secret with
          | none => exact hQ _ _ h₃ nofun
          | some secret =>
              dsimp only
              split
              · refine hQ _ _ h₃ ?_
                intro session hsession
                cases hsession
                exact ⟨rfl, rfl, rfl⟩
              · exact hQ _ _ h₃ nofun

/-- **An established session is backed**, and establishing one never panics. -/
theorem leaves_establishFrom {Q : Trace → Except String DnscryptClientState → Prop}
    (resolvers : List HardcodedResolver) (errors : List String)
    (hQ : ∀ t' r, (∀ session, r = .ok session → Backed K resolvers t' session) → Q t' r) :
    Leaves Q (establishFrom K resolvers errors) t := by
  induction resolvers generalizing errors t with
  | nil => exact hQ _ _ nofun
  | cons resolver resolvers ih =>
      have hnext : ∀ t' errors', Leaves Q (establishFrom K resolvers errors') t' := by
        intro t' errors'
        refine ih errors' ?_
        intro t'' r hr
        refine hQ t'' r ?_
        intro session hsession
        obtain ⟨resolver', hmem, hbacked⟩ := hr session hsession
        exact ⟨resolver', List.mem_cons_of_mem _ hmem, hbacked⟩
      refine Prog.holds_bind.mpr (leaves_sendDnsQuery ?_)
      intro t₁ reply _
      cases reply with
      | error e => exact hnext t₁ _
      | ok respData =>
          have hwithin : Within (respData.length + 2 ^ 17, 0) (fun _ => False) (fun _ => True)
              (parseTxtResponse respData) := within_parseTxtResponse le_rfl
          obtain ⟨certsRaw, hparse, -⟩ := hwithin.exists_ok
          refine Prog.holds_bind.mpr (leaves_run hparse ?_)
          refine Prog.holds_bind.mpr (leaves_bestCert certsRaw nofun ?_)
          intro t₂ best _ hbest
          cases best with
          | none => exact hnext t₂ _
          | some cert =>
              refine leaves_agree ?_
              intro t₃ r ht₃ hr
              refine hQ t₃ r ?_
              intro session hsession
              exact ⟨resolver, List.mem_cons_self, cert, (hbest cert rfl).mono ht₃,
                hr session hsession⟩

theorem leaves_establish {Q : Trace → Except String DnscryptClientState → Prop}
    (hQ : ∀ t' r, (∀ session, r = .ok session → Backed K hardcodedResolvers t' session) →
      Q t' r) :
    Leaves Q (establishDnscryptSession K) t :=
  leaves_establishFrom hardcodedResolvers [] hQ

theorem leaves_resolveDomainViaDnscryptSession {Q : Trace → Except String IpAddr → Prop}
    {session : DnscryptClientState} {domain : String} (hQ : ∀ t' r, Q t' r) :
    Leaves Q (resolveDomainViaDnscryptSession K session domain) t := by
  refine Prog.holds_perform_bind.mpr ⟨id, fun nonce => ?_⟩
  cases nonce with
  | none => exact hQ _ _
  | some clientNonce =>
      have hencrypt (nonce : ByteArr 24) (text : Bytes) :
          (xchacha20DjbPoly1305Encrypt K.cipher session.sharedKey nonce text).val =
            .ok (box K.cipher session.sharedKey nonce text) := val_encrypt text
      refine Prog.holds_bind.mpr ?_
      rw [run, hencrypt]
      refine Prog.holds_bind.mpr (leaves_sendDnsQuery ?_)
      intro t₂ reply _
      cases reply with
      | error e => exact hQ _ _
      | ok responsePacket =>
          have hwithin : Within (responsePacket.length + 2 ^ 17, 0) Stop.IsErr (fun _ => True)
              (handleResponse K.cipher session.sharedKey clientNonce responsePacket) :=
            within_handleResponse le_rfl
          exact leaves_runResult (fun p hp => hwithin.stop _ hp) (hQ _)

/-- **Resolving a name never panics**, and it never brings a time along. -/
theorem leaves_resolveDomainViaDnscrypt
    {Q : Trace → Except String (IpAddr × Option UInt64) → Prop} {domain : String}
    (hQ : ∀ t' r, (∀ ip fbTime, r = .ok (ip, fbTime) → fbTime = none) → Q t' r) :
    Leaves Q (resolveDomainViaDnscrypt K domain) t := by
  refine Prog.holds_bind.mpr (leaves_establish ?_)
  intro t₁ session _
  cases session with
  | error e => exact hQ _ _ nofun
  | ok session =>
      refine Prog.holds_bind.mpr (leaves_resolveDomainViaDnscryptSession ?_)
      intro t₂ ip
      cases ip with
      | error e => exact hQ _ _ nofun
      | ok ip =>
          refine hQ _ _ ?_
          intro ip' fbTime h
          cases h
          rfl

end Steps

end SevMicroLoader.Dns
