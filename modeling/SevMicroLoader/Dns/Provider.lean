import SevMicroLoader.Dns.Choice
import SevMicroLoader.Dns.Padding
import SevMicroLoader.Dns.Resolver
import SevMicroLoader.Dns.TxtRecords
import SevMicroLoader.Dns.WellFormed

/-!
# The other end of a DNSCrypt session

A `Provider` runs the resolvers: it certifies their keys and opens the queries that come in. Both
ends agree (`provider_agreement`): whatever the network does, the provider opens each query to the
question that was asked, and an address comes back only in a box under the key that the provider
has for the query. X25519 is a parameter, with the secret it gives both ends (`Exchange`).
-/

namespace SevMicroLoader.Dns
open Rust OffsetTable Endian

/-! ## Keys and certificates -/

/-- X25519: the two ends of two key pairs come to one secret. -/
structure Exchange where
  publicKey : EphemeralPrivateKey → ByteArr 32
  secret : (sk : EphemeralPrivateKey) → (pk : ByteArr 32) → ByteArr 32
  secret_comm : ∀ a b, secret a (publicKey b) = secret b (publicKey a)

/-- A key of the resolvers, with what its certificate says. -/
structure Credential where
  sk : EphemeralPrivateKey
  clientMagic : ByteArr 8
  serial : UInt32
  tsStart : UInt32
  tsEnd : UInt32
  extensions : Bytes

namespace Credential
variable (E : Exchange) (c : Credential)

/-- What the client reads in the certificate. -/
def cert : DnscryptCert := ⟨E.publicKey c.sk, c.clientMagic, c.serial, c.tsStart, c.tsEnd⟩

/-- The part of a certificate that is signed. -/
def signedPart : Bytes :=
  (E.publicKey c.sk).val ++ c.clientMagic.val ++ toBE 4 c.serial.toNat ++ toBE 4 c.tsStart.toNat ++
    toBE 4 c.tsEnd.toNat ++ c.extensions

/-- The session key for a client. -/
def sessionKey (K : Packages) (clientPk : ByteArr 32) : ByteArr 32 :=
  K.hchacha20 (E.secret c.sk clientPk) (padded 16 [])

end Credential

/-- The provider of the resolvers: it signs under the key that the loader knows, and a client magic
stands for one of its keys. -/
structure Provider (K : Packages) (E : Exchange) where
  sign : Bytes → ByteArr 64
  verify_sign : ∀ msg, K.ed25519 quad9Pk.val msg (sign msg).val = true
  credentials : List Credential
  distinct : (credentials.map Credential.clientMagic).Nodup

/-- What is read in a packet. -/
structure Opened where
  key : ByteArr 32
  nonce : ByteArr 12
  query : Bytes
  deriving DecidableEq

/-- The answer to an opened query, in the box. -/
def Opened.answer (K : Packages) (q : Opened) (suffix : ByteArr 12) (reply : Bytes) (zeros : ℕ) :
    Bytes :=
  resolverMagic ++ q.nonce.val ++ suffix.val ++
    box K.cipher q.key (joinNonce q.nonce suffix) (reply ++ [0x80] ++ List.replicate zeros 0)

namespace Provider
variable {K : Packages} {E : Exchange} (V : Provider K E)

/-- The certificate on the wire: header, signature and signed part. -/
def certificate (c : Credential) : Bytes :=
  bstr "DNSC" ++ [0x00, 0x02, 0x00, 0x00] ++ (V.sign (c.signedPart E)).val ++ c.signedPart E

/-- The client magic tells the key, and the key opens the box. -/
def readQuery (packet : Bytes) : Option Opened :=
  (V.credentials.find? fun c => c.clientMagic.val = packet.take 8).bind fun c =>
    let key := c.sessionKey E K (padded 32 (piece packet 8 40))
    let nonce := padded 12 (piece packet 40 52)
    let opened : Checked Bytes := do
      unpadResponse (← xchacha20DjbPoly1305Decrypt K.cipher key (joinNonce nonce (padded 12 []))
        (packet.drop 52))
    opened.val.toOption.map fun query => ⟨key, nonce, query⟩

/-- The client and the provider have the same key. -/
def Shares (session : DnscryptClientState) : Prop :=
  ∃ c ∈ V.credentials, session.clientMagic = c.clientMagic ∧
    session.sharedKey = c.sessionKey E K session.clientPkBytes

/-! ## Queries are opened -/

section Queries
variable {V} {session : DnscryptClientState} {nonce : ByteArr 12} {domain : String}

theorem padded_self {n : ℕ} (bs : ByteArr n) : padded n bs.val = bs :=
  padded_of_length bs.property

theorem find_clientMagic {c : Credential} (hc : c ∈ V.credentials) :
    (V.credentials.find? fun c' => c'.clientMagic.val = c.clientMagic.val) = some c := by
  obtain ⟨before, after, hsplit⟩ := List.append_of_mem hc
  have hdistinct := V.distinct
  rw [hsplit, List.map_append, List.map_cons] at hdistinct
  rw [hsplit, List.find?_append, List.find?_cons_of_pos (by simp)]
  have hbefore : (before.find? fun c' => c'.clientMagic.val = c.clientMagic.val) = none := by
    rw [List.find?_eq_none]
    intro c' hc' hsame
    have hmagic : c'.clientMagic = c.clientMagic := Subtype.ext (of_decide_eq_true hsame)
    exact (List.nodup_append.mp hdistinct).2.2 _ (List.mem_map_of_mem hc') _
      List.mem_cons_self hmagic
  rw [hbefore]
  rfl

theorem zeros_eq (h : (List.replicate 12 (0 : UInt8)).length = 12) :
    (⟨List.replicate 12 0, h⟩ : ByteArr 12) = padded 12 [] := rfl

theorem requestPacket_eq : requestPacket K session nonce domain =
    session.clientMagic.val ++ session.clientPkBytes.val ++ nonce.val ++
      box K.cipher session.sharedKey (joinNonce nonce (padded 12 []))
        (paddedText (buildARecordQuery domain) 1024) := rfl

/-- **The provider reads the question that was asked**, and has the key it was asked under. -/
theorem readQuery_requestPacket (hshares : V.Shares session)
    (hdomain : (buildARecordQuery domain).length < 2 ^ 63) :
    V.readQuery (requestPacket K session nonce domain) =
      some ⟨session.sharedKey, nonce, buildARecordQuery domain⟩ := by
  obtain ⟨c, hc, hmagic, hkey⟩ := hshares
  obtain ⟨sealed, hsealed⟩ : ∃ sealed, sealed = box K.cipher session.sharedKey
      (joinNonce nonce (padded 12 [])) (paddedText (buildARecordQuery domain) 1024) := ⟨_, rfl⟩
  have hpacket : requestPacket K session nonce domain =
      c.clientMagic.val ++ (session.clientPkBytes.val ++ (nonce.val ++ sealed)) := by
    rw [hsealed, ← hmagic, requestPacket_eq]
    simp only [List.append_assoc]
  have hpk := session.clientPkBytes.property
  have hnonce := nonce.property
  have htake : (requestPacket K session nonce domain).take 8 = c.clientMagic.val := by
    rw [hpacket, List.take_left' c.clientMagic.property]
  have hdrop8 : (requestPacket K session nonce domain).drop 8 =
      session.clientPkBytes.val ++ (nonce.val ++ sealed) := by
    rw [hpacket, List.drop_left' c.clientMagic.property]
  have hdrop40 : (requestPacket K session nonce domain).drop 40 = nonce.val ++ sealed := by
    have hnext := drop_add_of_drop hdrop8
    rwa [hpk] at hnext
  have hdrop52 : (requestPacket K session nonce domain).drop 52 = sealed := by
    have hnext := drop_add_of_drop hdrop40
    rwa [hnonce] at hnext
  have hpk8 : padded 32 (piece (requestPacket K session nonce domain) 8 40) =
      session.clientPkBytes := by
    rw [piece, hdrop8, List.take_left' hpk, padded_self]
  have hnonce40 : padded 12 (piece (requestPacket K session nonce domain) 40 52) = nonce := by
    rw [piece, hdrop40, List.take_left' hnonce, padded_self]
  have hfits : (buildARecordQuery domain).length + 1 ≤
      paddedLength ((buildARecordQuery domain).length + 1) 1024 :=
    (isLeast_paddedLength (by omega) (by decide)).1.2.1
  have hopen : (do
      unpadResponse (← xchacha20DjbPoly1305Decrypt K.cipher session.sharedKey
        (joinNonce nonce (padded 12 [])) sealed) : Checked Bytes).val =
      .ok (buildARecordQuery domain) := by
    rw [Metered.val_bind_of_ok (val_decrypt_eq_ok_iff.mpr hsealed.symm),
      val_unpadResponse_eq_ok_iff]
    exact ⟨_, paddedText_eq hfits⟩
  rw [readQuery, htake, find_clientMagic hc, Option.bind_some]
  simp only [hpk8, hnonce40, hdrop52, ← hkey, hopen]
  rfl

end Queries

/-! ## Certificates are read back -/

section Certificates
variable {V} {raw : Bytes} {c : Credential}

theorem certOf_of_signedPart (h : raw.drop 72 = c.signedPart E) : certOf raw = c.cert E := by
  have hpk := (E.publicKey c.sk).property
  have hmagic := c.clientMagic.property
  have hnat (x : UInt32) : UInt32.ofNat (ofBE (toBE 4 x.toNat)) = x := by
    rw [ofBE_toBE x.toNat_lt, UInt32.ofNat_toNat]
  simp only [Credential.signedPart, List.append_assoc] at h
  have h104 := drop_add_of_drop h
  rw [hpk] at h104
  have h112 := drop_add_of_drop h104
  rw [hmagic] at h112
  have h116 := drop_add_of_drop h112
  rw [length_toBE] at h116
  have h120 := drop_add_of_drop h116
  rw [length_toBE] at h120
  have hserial : serialOf raw = ofBE (toBE 4 c.serial.toNat) := by
    rw [serialOf, numberAt, piece, h112, List.take_left' (length_toBE _ _)]
  have hstart : numberAt raw 116 = ofBE (toBE 4 c.tsStart.toNat) := by
    rw [numberAt, piece, h116, List.take_left' (length_toBE _ _)]
  have hend : numberAt raw 120 = ofBE (toBE 4 c.tsEnd.toNat) := by
    rw [numberAt, piece, h120, List.take_left' (length_toBE _ _)]
  rw [certOf, hserial, hstart, hend, hnat, hnat, hnat, piece, h, piece, h104,
    List.take_left' hpk, List.take_left' hmagic, padded_self, padded_self]
  rfl

theorem drop_certificate : (V.certificate c).drop 72 = c.signedPart E := by
  refine List.drop_left' ?_
  rw [List.length_append, (V.sign _).property]
  rfl

theorem length_signedPart : 52 ≤ (c.signedPart E).length := by
  simp only [Credential.signedPart, List.length_append, length_toBE, (E.publicKey c.sk).property,
    c.clientMagic.property]
  omega

/-- What the provider publishes has its signature. -/
theorem signed_certificate : Signed K.ed25519 quad9Pk (V.certificate c) := by
  have hsign := (V.sign (c.signedPart E)).property
  have hlen := length_signedPart (E := E) (c := c)
  have hcut : V.certificate c = bstr "DNSC" ++ ([0x00, 0x02] ++ ([0x00, 0x00] ++
      ((V.sign (c.signedPart E)).val ++ c.signedPart E))) := by
    simp only [certificate, List.append_assoc]
    rfl
  have hdrop8 : (V.certificate c).drop 8 = (V.sign (c.signedPart E)).val ++ c.signedPart E := by
    rw [hcut]
    rfl
  constructor
  case length_le =>
    have hbehind := congrArg List.length (drop_certificate (V := V) (c := c))
    rw [List.length_drop] at hbehind
    omega
  case magic => rw [hcut]; rfl
  case version => rw [hcut]; rfl
  case signature =>
    rw [drop_certificate, piece, hdrop8, List.take_left' hsign]
    exact V.verify_sign _

end Certificates

end Provider

/-! ## A session and its certificate -/

/-- The only other query that is sent. -/
def certQuery : Bytes := buildTxtRecordQuery "2.dnscrypt-cert.quad9.net"

/-- The packet of a call that sends one. -/
def sent : Call → Option Bytes
  | .sendDnsQueryUdp _ packet => some packet
  | .sendDnsQueryTcp _ packet => some packet
  | _ => none

/-- X25519 gave the client the session's public key, and the secret that its key comes from. -/
def Agreed (K : Packages) (cert : DnscryptCert) (t : Trace) (session : DnscryptClientState) :
    Prop :=
  ∃ (sk : EphemeralPrivateKey) (secret : ByteArr 32),
    ⟨.computePublicKey sk, some (some session.clientPkBytes)⟩ ∈ t ∧
    ⟨.agreeEphemeral sk cert.resolverPk, some (some secret.val)⟩ ∈ t ∧
    session.clientMagic = cert.clientMagic ∧
    session.sharedKey = K.hchacha20 secret (padded 16 [])

/-- A session was agreed on under a signed certificate that came in. -/
def Established (K : Packages) (t : Trace) (session : DnscryptClientState) : Prop :=
  ∃ ip query packet raws raw, Received ip query packet t ∧
    (parseTxtResponse packet).val = .ok raws ∧ raw ∈ raws ∧ Signed K.ed25519 quad9Pk raw ∧
      Agreed K (certOf raw) t session

section Established
variable {K : Packages} {t : Trace} {raw : Bytes} {providerPk : ByteArr 32}

theorem holds_verifyCertNow : Prog.Holds Prog.record (fun _ c => sent c = none)
    (fun t' r => t ⊆ t' ∧ ∀ cert, r = some cert → Signed K.ed25519 providerPk raw ∧
      cert = certOf raw) (verifyCertNow K raw providerPk) t := by
  refine Prog.holds_bind.mpr ?_
  rw [run, val_readCert]
  by_cases hsigned : Signed K.ed25519 providerPk raw
  · rw [if_pos hsigned]
    refine And.intro rfl fun reading => And.intro (subset_record _ _ _) ?_
    intro cert hcert
    rw [checkValidity] at hcert
    split_ifs at hcert <;> exact ⟨hsigned, (Option.some.inj hcert).symm⟩
  · rw [if_neg hsigned]
    refine ⟨List.Subset.refl t, ?_⟩
    intro cert hcert
    cases hcert

theorem holds_bestCert (certsRaw : List Bytes) (best : Option DnscryptCert) :
    Prog.Holds Prog.record (fun _ c => sent c = none)
      (fun t' r => t ⊆ t' ∧ ∀ cert, r = some cert → best = some cert ∨
        ∃ raw ∈ certsRaw, Signed K.ed25519 providerPk raw ∧ cert = certOf raw)
      (bestCert K providerPk certsRaw best) t := by
  induction certsRaw generalizing best t with
  | nil => exact ⟨List.Subset.refl t, fun cert h => .inl h⟩
  | cons raw certsRaw ih =>
      apply holds_verifyCertNow.bind
      rintro t' r ⟨ht', hr⟩
      cases r with
      | none =>
          refine (ih best).mono ?_
          rintro t'' r' ⟨ht'', hbest⟩
          refine ⟨List.Subset.trans ht' ht'', fun cert hcert => (hbest cert hcert).imp_right ?_⟩
          rintro ⟨raw', hmem, h⟩
          exact ⟨raw', List.mem_cons_of_mem _ hmem, h⟩
      | some cert₀ =>
          obtain ⟨hsigned, rfl⟩ := hr cert₀ rfl
          refine (ih (some (betterCert (certOf raw) best))).mono ?_
          rintro t'' r' ⟨ht'', hbest⟩
          refine ⟨List.Subset.trans ht' ht'', fun cert hcert => ?_⟩
          rcases hbest cert hcert with hbetter | ⟨raw', hmem, h⟩
          · -- the better one is the new one or the one so far
            have hchoice : betterCert (certOf raw) best = certOf raw ∨
                best = some (betterCert (certOf raw) best) := by
              cases best with
              | none => exact .inl rfl
              | some currentBest =>
                  rw [betterCert]
                  split
                  · exact .inl rfl
                  · exact .inr rfl
            rcases hchoice with hnew | hkept
            · exact .inr ⟨raw, List.mem_cons_self, hsigned,
                (Option.some.inj hbetter).symm.trans hnew⟩
            · exact .inl (hkept.trans hbetter)
          · exact .inr ⟨raw', List.mem_cons_of_mem _ hmem, h⟩

theorem holds_agree (resolver : HardcodedResolver) (cert : DnscryptCert) :
    Prog.Holds Prog.record (fun _ c => sent c = none)
      (fun t' r => t ⊆ t' ∧ ∀ session, r = .ok session → Agreed K cert t' session)
      (agree K resolver cert) t := by
  refine Prog.holds_perform_bind.mpr ⟨rfl, fun clientSk => ?_⟩
  have h₁ := subset_record t .generate clientSk
  cases clientSk with
  | none => exact ⟨h₁, fun session h => by cases h⟩
  | some sk =>
      refine Prog.holds_perform_bind.mpr ⟨rfl, fun clientPk => ?_⟩
      have h₂ := List.Subset.trans h₁ (subset_record _ (.computePublicKey sk) clientPk)
      cases clientPk with
      | none => exact ⟨h₂, fun session h => by cases h⟩
      | some pk =>
          refine Prog.holds_perform_bind.mpr ⟨rfl, fun secret => ?_⟩
          have h₃ := List.Subset.trans h₂
            (subset_record _ (.agreeEphemeral sk cert.resolverPk) secret)
          cases secret with
          | none => exact ⟨h₃, fun session h => by cases h⟩
          | some secret =>
              dsimp only
              split
              · next hlen =>
                refine ⟨h₃, fun session hsession => ?_⟩
                cases hsession
                refine ⟨sk, ⟨secret, hlen⟩, ?_, ?_, rfl, rfl⟩
                · exact List.mem_append_left _
                    (List.mem_append_right _ (List.mem_singleton_self _))
                · exact List.mem_append_right _ (List.mem_singleton_self _)
              · exact ⟨h₃, fun session h => by cases h⟩

/-- **A session comes with its certificate**; only the query for certificates is sent for it. -/
theorem holds_establishFrom (resolvers : List HardcodedResolver) (errors : List String)
    (hprovider : ∀ resolver ∈ resolvers, buildTxtRecordQuery resolver.providerName = certQuery ∧
      resolver.providerPk = quad9Pk) :
    Prog.Holds Prog.record (fun _ c => ∀ packet, sent c = some packet → packet = certQuery)
      (fun t' r => ∀ session, r = .ok session → Established K t' session)
      (establishFrom K resolvers errors) t := by
  induction resolvers generalizing errors t with
  | nil =>
      intro session h
      cases h
  | cons resolver resolvers ih =>
      obtain ⟨⟨hquery, hpk⟩, hresolvers⟩ := List.forall_mem_cons.mp hprovider
      have hquiet : ∀ {α : Type} {Q : Trace → α → Prop} {p : Client α} {s : Trace},
          Prog.Holds Prog.record (fun _ c => sent c = none) Q p s →
          Prog.Holds Prog.record
            (fun _ c => ∀ packet, sent c = some packet → packet = certQuery) Q p s := by
        intro α Q p s h
        refine h.map (f := id) (fun _ _ _ => rfl) ?_ fun _ _ hQ => hQ
        intro _ c hnone packet hpacket
        rw [hnone] at hpacket
        cases hpacket
      refine Prog.Holds.bind (holds_sendDnsQuery fun t' _ => ⟨?_, ?_⟩) ?_
      · rintro packet h
        exact (Option.some.inj h).symm.trans hquery
      · rintro packet h
        exact (Option.some.inj h).symm.trans hquery
      rintro t₁ reply ⟨-, hreceived⟩
      cases reply with
      | error e => exact ih _ hresolvers
      | ok packet =>
          have hwithin : Metered.Within (packet.length + 2 ^ 17, 0) (fun _ => False)
              (fun _ => True) (parseTxtResponse packet) := within_parseTxtResponse le_rfl
          obtain ⟨raws, hparse, -⟩ := hwithin.exists_ok
          refine Prog.holds_bind.mpr ?_
          rw [run, hparse]
          apply (hquiet (holds_bestCert raws none)).bind
          rintro t₂ best ⟨ht₂, hbest⟩
          cases best with
          | none => exact ih _ hresolvers
          | some cert =>
              refine (hquiet (holds_agree resolver cert)).mono ?_
              rintro t₃ r ⟨ht₃, hagreed⟩ session hsession
              rcases hbest cert rfl with hnone | ⟨raw, hraw, hsigned, rfl⟩
              · cases hnone
              · have hin := received_mono (hreceived packet rfl) (List.Subset.trans ht₂ ht₃)
                exact ⟨_, _, packet, raws, raw, hin, hparse, hraw, hpk ▸ hsigned,
                  hagreed session hsession⟩

end Established

/-! ## Queries and answers by themselves -/

namespace Provider
variable {K : Packages} {session : DnscryptClientState} {nonce : ByteArr 12} {domain : String}

theorem requestPacket_ne_certQuery
    (hdomain : (buildARecordQuery domain).length < 2 ^ 63) :
    requestPacket K session nonce domain ≠ certQuery := by
  have hroom : 1024 ≤ paddedLength ((buildARecordQuery domain).length + 1) 1024 :=
    (isLeast_paddedLength (by omega) (by decide)).1.2.2
  have hshort : certQuery.length < 1024 := by decide +kernel
  intro hsame
  have hlen := congrArg List.length hsame
  simp only [requestPacket, List.length_append, length_box, length_paddedText] at hlen
  omega

theorem val_handleResponse_answer {q : Opened} {suffix : ByteArr 12} {reply : Bytes} {zeros : ℕ}
    {ip : IpAddr} (hparse : (parseDnsResponse reply).val = .ok (some ip)) :
    (handleResponse K.cipher q.key q.nonce (q.answer K suffix reply zeros)).val = .ok ip := by
  rw [Opened.answer, val_handleResponse (by decide) suffix.property, if_neg (not_not.mpr rfl),
    if_neg (not_not.mpr rfl), val_open_eq_ok_iff]
  exact ⟨reply, zeros, val_encrypt _, hparse⟩

theorem val_parse_certificates {R : TxtReply} :
    (parseTxtResponse (R.encode "2.dnscrypt-cert.quad9.net")).val =
      .ok (R.answers.filterMap Answer.text?) := by
  have hname : ∀ part ∈ split "2.dnscrypt-cert.quad9.net" '.',
      1 ≤ (asBytes part).length ∧ (asBytes part).length ≤ 63 := by decide +kernel
  rw [parseTxtResponse, val_walkRecords_encode hname R (visits_visitTxt _)]
  simp only [txtOf_record]
  rw [List.foldl_append_eq_append, ← List.flatMap_def, List.filterMap_eq_flatMap_toList,
    List.nil_append]

/-- A query whose answer is in the first datagram. -/
theorem runs_answered {response : Bytes} {ip : IpAddr}
    (hwhole : isTruncated response = false)
    (hopen : (handleResponse K.cipher session.sharedKey nonce response).val = .ok ip) :
    Prog.Runs (resolveDomainViaDnscryptSession K session domain)
      [⟨.fill 12, some (some nonce)⟩, ⟨.sendDnsQueryUdp session.resolverIp
        (requestPacket K session nonce domain), some (.ok response)⟩] (some (.ok ip)) := by
  refine Prog.Runs.call ?_
  dsimp only
  rw [run, val_encrypt]
  dsimp only
  rw [pure_bind, zeros_eq, ← requestPacket_eq]
  have hsend : Prog.Runs
      (sendDnsQuery session.resolverIp (requestPacket K session nonce domain) false)
      [⟨.sendDnsQueryUdp session.resolverIp (requestPacket K session nonce domain),
        some (.ok response)⟩] (some (.ok response)) := by
    refine Prog.Runs.call ?_
    dsimp only
    rw [if_neg (by rw [hwhole]; exact Bool.false_ne_true)]
    exact .ret _
  refine hsend.bind ?_
  dsimp only
  rw [runResult, hopen]
  exact .ret _

end Provider

/-! ## Agreement -/

/-- X25519 computed what it should, or nothing. -/
structure Exchange.Computes (E : Exchange) (t : Trace) : Prop where
  publicKey : ∀ sk pk, ⟨.computePublicKey sk, some (some pk)⟩ ∈ t → pk = E.publicKey sk
  secret : ∀ sk pk secret, ⟨.agreeEphemeral sk pk, some (some secret)⟩ ∈ t →
    secret = (E.secret sk pk).val

theorem Exchange.Computes.mono {E : Exchange} {t t' : Trace} (h : E.Computes t') (ht : t ⊆ t') :
    E.Computes t :=
  ⟨fun sk pk hmem => h.publicKey sk pk (ht hmem),
    fun sk pk secret hmem => h.secret sk pk secret (ht hmem)⟩

/-- An address can only be read from the answer to an opened query. -/
theorem exists_answer {K : Packages} {q : Opened} {packet : Bytes} {ip : IpAddr}
    (h : (handleResponse K.cipher q.key q.nonce packet).val = .ok ip) :
    ∃ suffix reply zeros, packet = q.answer K suffix reply zeros ∧
      (parseDnsResponse reply).val = .ok (some ip) := by
  have hlen : 32 ≤ packet.length := by
    rw [handleResponse, val_guard_eq_ok] at h
    exact Nat.not_lt.mp h.1
  obtain ⟨magic, echo, suffix, rest, hmagic, rfl⟩ := exists_cut hlen
  rw [val_handleResponse hmagic suffix.property] at h
  split_ifs at h with hm hecho
  obtain ⟨reply, zeros, hbox, hparse⟩ := val_open_eq_ok_iff.mp h
  rw [val_encrypt] at hbox
  obtain rfl := Subtype.ext (not_not.mp hecho)
  exact ⟨suffix, reply, zeros, by rw [Opened.answer, Except.ok.inj hbox, not_not.mp hm], hparse⟩

namespace Provider
variable {K : Packages} {E : Exchange} (V : Provider K E)

/-- Whoever sent it, no packet that came in has a certificate that the provider did not sign. -/
def Unforged (t : Trace) : Prop :=
  ∀ ip query packet raws, Received ip query packet t → (parseTxtResponse packet).val = .ok raws →
    ∀ raw ∈ raws, Signed K.ed25519 quad9Pk raw → ∃ c ∈ V.credentials, raw.drop 72 = c.signedPart E

/-- The question can be read in whatever is sent, but for the query for certificates. -/
def Readable (domain : String) (packet : Bytes) : Prop :=
  packet = certQuery ∨
    ∃ key nonce, V.readQuery packet = some ⟨key, nonce, buildARecordQuery domain⟩

/-- The address was read in an answer under the key and the nonce that the provider reads in the
query. -/
def Answered (domain : String) (t : Trace) (ip : IpAddr) : Prop :=
  ∃ address packet response q suffix reply zeros, Received address packet response t ∧
    V.readQuery packet = some q ∧ q.query = buildARecordQuery domain ∧
      response = q.answer K suffix reply zeros ∧ (parseDnsResponse reply).val = .ok (some ip)

section Agreement
variable {V} {t t' : Trace} {session : DnscryptClientState} {domain : String}

theorem Unforged.mono (h : V.Unforged t') (ht : t ⊆ t') : V.Unforged t :=
  fun ip query packet raws hin => h ip query packet raws (received_mono hin ht)

/-- **The client and the provider agree on a key.** -/
theorem shares_of_established (h : Established K t session) (hunforged : V.Unforged t)
    (hcomputes : E.Computes t) : V.Shares session := by
  obtain ⟨ip, query, packet, raws, raw, hin, hparse, hraw, hsigned, sk, secret, hpk, hsecret,
    hmagic, hkey⟩ := h
  obtain ⟨c, hc, hpart⟩ := hunforged ip query packet raws hin hparse raw hraw hsigned
  rw [certOf_of_signedPart hpart] at hsecret hmagic
  have hsame : secret = E.secret sk (E.publicKey c.sk) :=
    Subtype.ext (hcomputes.secret _ _ _ hsecret)
  refine ⟨c, hc, hmagic, ?_⟩
  rw [hkey, Credential.sessionKey, hcomputes.publicKey _ _ hpk, hsame, E.secret_comm]

theorem readQuery_of_asks {c : Call} {packet : Bytes} (hshares : V.Shares session)
    (hdomain : (buildARecordQuery domain).length < 2 ^ 63) (hasks : Asks K session domain t c)
    (hpacket : sent c = some packet) :
    ∃ key nonce, V.readQuery packet = some ⟨key, nonce, buildARecordQuery domain⟩ := by
  cases c with
  | sendDnsQueryUdp ip sentPacket =>
      cases hpacket
      obtain ⟨-, nonce, rest, -, rfl⟩ := hasks
      exact ⟨_, _, readQuery_requestPacket hshares hdomain⟩
  | sendDnsQueryTcp ip sentPacket =>
      cases hpacket
      obtain ⟨-, nonce, rest, -, rfl⟩ := hasks
      exact ⟨_, _, readQuery_requestPacket hshares hdomain⟩
  | _ => cases hpacket

theorem answered_of_resolved {ip : IpAddr} (hshares : V.Shares session)
    (hdomain : (buildARecordQuery domain).length < 2 ^ 63)
    (hresolved : Resolved K session domain t ip) : V.Answered domain t ip := by
  obtain ⟨nonce, rest, packet, -, hin, hopen⟩ := hresolved
  obtain ⟨suffix, reply, zeros, hanswer, hparse⟩ :=
    exists_answer (q := ⟨session.sharedKey, nonce, buildARecordQuery domain⟩) hopen
  exact ⟨_, _, packet, _, suffix, reply, zeros, hin, readQuery_requestPacket hshares hdomain, rfl,
    hanswer, hparse⟩

theorem asks_certQuery : ∀ resolver ∈ hardcodedResolvers,
    buildTxtRecordQuery resolver.providerName = certQuery ∧ resolver.providerPk = quad9Pk := by
  intro resolver hresolver
  simp only [hardcodedResolvers, List.mem_cons, List.not_mem_nil, or_false] at hresolver
  obtain rfl | rfl | rfl := hresolver <;> exact ⟨rfl, rfl⟩

/-- The judgement of a whole resolution. -/
theorem holds_resolveDomainViaDnscrypt (hdomain : (buildARecordQuery domain).length < 2 ^ 63) :
    Prog.Holds Prog.record
      (fun t c => V.Unforged t → E.Computes t → ∀ packet, sent c = some packet →
        V.Readable domain packet)
      (fun t r => V.Unforged t → E.Computes t → ∀ ip fbTime, r = .ok (ip, fbTime) →
        V.Answered domain t ip)
      (resolveDomainViaDnscrypt K domain) [] := by
  have hestablish := holds_establishFrom (K := K) (t := []) hardcodedResolvers [] asks_certQuery
  refine Prog.holds_bind.mpr (hestablish.map (f := id) (fun _ _ _ => rfl)
    (fun _ c h _ _ packet hpacket => .inl (h packet hpacket)) ?_)
  intro t₁ r hr
  cases r with
  | error e =>
      intro _ _ ip fbTime h
      cases h
  | ok session =>
      have hsession : ∀ t, V.Unforged (t₁ ++ t) → E.Computes (t₁ ++ t) → V.Shares session := by
        intro t hunforged hcomputes
        have hsub := List.subset_append_left t₁ t
        exact shares_of_established (hr session rfl) (hunforged.mono hsub) (hcomputes.mono hsub)
      have hquery : Prog.Holds Prog.record
          (fun t c => V.Unforged t → E.Computes t → ∀ packet, sent c = some packet →
            V.Readable domain packet)
          (fun t r => V.Unforged t → E.Computes t → ∀ ip, r = .ok ip → V.Answered domain t ip)
          (resolveDomainViaDnscryptSession K session domain) (t₁ ++ []) := by
        refine (holds_resolveSession session domain).map (f := fun t => t₁ ++ t) ?_ ?_ ?_
        · intro t c reply
          exact List.append_assoc _ _ _
        · intro t c hasks hunforged hcomputes packet hpacket
          exact .inr (readQuery_of_asks (hsession t hunforged hcomputes) hdomain hasks hpacket)
        · intro t r hresolved hunforged hcomputes ip hip
          obtain ⟨address, packet, response, q, suffix, reply, zeros, hin, h⟩ :=
            answered_of_resolved (hsession t hunforged hcomputes) hdomain (hresolved ip hip)
          exact ⟨address, packet, response, q, suffix, reply, zeros,
            received_mono hin (List.subset_append_right t₁ t), h⟩
      rw [List.append_nil] at hquery
      apply hquery.bind
      intro t₂ r hanswered
      cases r with
      | error e =>
          intro _ _ ip fbTime h
          cases h
      | ok ip =>
          intro hunforged hcomputes ip' fbTime h
          cases h
          exact hanswered hunforged hcomputes ip rfl

end Agreement

/-- **Both ends agree.** Whatever the network sends, as long as it has no forged certificates: each
packet of a resolution asks for certificates or is opened by the provider to the very question, and
an address comes back only in an answer under the key and the nonce that the provider has read. -/
theorem provider_agreement (domain : String) (hdomain : (buildARecordQuery domain).length < 2 ^ 63)
    {t : Trace} {o : Option (Except String (IpAddr × Option UInt64))}
    (hrun : Prog.Runs (resolveDomainViaDnscrypt K domain) t o) (hunforged : V.Unforged t)
    (hcomputes : E.Computes t) :
    (∀ x ∈ t, ∀ packet, sent x.1 = some packet → V.Readable domain packet) ∧
      ∀ ip fbTime, o = some (.ok (ip, fbTime)) → V.Answered domain t ip := by
  obtain ⟨hsent, hreturned⟩ := (holds_resolveDomainViaDnscrypt hdomain).sound hrun
  constructor
  · rintro ⟨c, reply⟩ hmem packet hpacket
    obtain ⟨t₁, t₂, rfl⟩ := List.append_of_mem hmem
    have hsub := List.Subset.trans (Prog.after_record_subset [] t₁)
      (List.subset_append_left t₁ (⟨c, reply⟩ :: t₂))
    exact hsent t₁ _ t₂ rfl (hunforged.mono hsub) (hcomputes.mono hsub) packet hpacket
  · rintro ip fbTime rfl
    have hend := hreturned _ rfl
    rw [Prog.after_record hrun] at hend
    exact hend hunforged hcomputes ip fbTime rfl

end Provider

/-! ## A resolution with everything in it -/

/-- A secret that both ends can compute. -/
def sampleExchange : Exchange where
  publicKey sk := sk
  secret sk pk := ⟨List.zipWith (· ^^^ ·) sk.val pk.val, by
    rw [List.length_zipWith, sk.property, pk.property, Nat.min_self]⟩
  secret_comm _ _ := Subtype.ext (List.zipWith_comm_of_comm UInt8.xor_comm)

/-- A certificate that is valid for 8000 seconds. -/
def sampleCredential : Credential where
  sk := padded 32 [2]
  clientMagic := padded 8 [3]
  serial := 1
  tsStart := 1780272000
  tsEnd := 1780280000
  extensions := []

/-- A provider with one certificate. -/
def sampleProvider : Provider samplePackages sampleExchange where
  sign msg := padded 64 msg
  verify_sign _ := rfl
  credentials := [sampleCredential]
  distinct := List.nodup_singleton _

/-- The certificate, in one string. -/
def sampleCertificates : TxtReply where
  lead := padded 6 [0xab, 0xcd, 0x81, 0x80, 0x00, 0x01]
  counts := padded 4 []
  answers := [⟨bait.owner, not_false, 1, 60,
    .txt [⟨sampleProvider.certificate sampleCredential, by decide +kernel⟩] (by decide +kernel)⟩]
  length_lt := by decide
  trailing := []

/-- The session that the sample provider shares. -/
def agreedSession : DnscryptClientState where
  resolverIp := ⟨padded 4 [9, 9, 9, 9], 8443⟩
  clientPkBytes := padded 32 [9]
  clientMagic := padded 8 [3]
  sharedKey := padded 32 [11]
  tsEnd := 1780280000

def githubAnswer : Reply := githubReplyFor alignedAnswers (show 3 < 2 ^ 16 by decide)

/-- The query as the provider reads it. -/
def githubOpened : Opened := ⟨agreedSession.sharedKey, padded 12 [], buildARecordQuery "github.com"⟩

/-- What is sent back for a packet. -/
def githubResponse (packet : Bytes) : Bytes :=
  if packet = certQuery then sampleCertificates.encode "2.dnscrypt-cert.quad9.net"
  else githubOpened.answer samplePackages (padded 12 [7]) githubAnswer.encode 3

/-- The datagram with the certificates is lost. -/
def providerEnv (_ : Trace) : (c : Call) → Option c.Reply
  | .sendDnsQueryUdp _ packet =>
      some (if packet = certQuery then .error "timed out" else .ok (githubResponse packet))
  | .sendDnsQueryTcp _ packet => some (.ok (githubResponse packet))
  | .systemTime => some (some 1780272100)
  | .generate => some (some (padded 32 [9]))
  | .computePublicKey sk => some (some sk)
  | .agreeEphemeral sk pk => some (some (sampleExchange.secret sk pk).val)
  | .fill n => some (some (padded n []))
  | .abort _ => none

def sampleEstablish : Trace × Option (Except String DnscryptClientState) :=
  Prog.exec providerEnv (establishDnscryptSession samplePackages) []

theorem runs_sampleEstablish :
    Prog.Runs (establishDnscryptSession samplePackages) sampleEstablish.1
      (some (.ok agreedSession)) := by
  have hrun : Prog.Runs (establishDnscryptSession samplePackages) sampleEstablish.1
      sampleEstablish.2 := by
    refine Prog.runs_exec (fun past c hc => ?_) _ []
    cases c with
    | abort s => exact ⟨Empty.elim⟩
    | _ => cases hc
  have hsession : sampleEstablish.2 = some (.ok agreedSession) := by decide +kernel
  rwa [hsession] at hrun

/-- The boxed query for `github.com`. -/
def githubPacket : Bytes := requestPacket samplePackages agreedSession (padded 12 []) "github.com"

def githubQuery : Trace :=
  [⟨.fill 12, some (some (padded 12 []))⟩,
    ⟨.sendDnsQueryUdp agreedSession.resolverIp githubPacket,
      some (.ok (githubResponse githubPacket))⟩]

def githubTrace : Trace := sampleEstablish.1 ++ (githubQuery ++ [])

theorem githubPacket_ne : githubPacket ≠ certQuery :=
  Provider.requestPacket_ne_certQuery (by decide +kernel)

theorem githubResponse_packet : githubResponse githubPacket =
    githubOpened.answer samplePackages (padded 12 [7]) githubAnswer.encode 3 :=
  if_neg githubPacket_ne

theorem runs_githubQuery : Prog.Runs
    (resolveDomainViaDnscryptSession samplePackages agreedSession "github.com") githubQuery
      (some (.ok (.v4 (padded 4 [140, 82, 121, 4])))) := by
  have hparse : (parseDnsResponse githubAnswer.encode).val =
      .ok (some (.v4 (padded 4 [140, 82, 121, 4]))) := by decide +kernel
  rw [githubQuery, githubResponse_packet]
  exact Provider.runs_answered (by decide +kernel) (Provider.val_handleResponse_answer hparse)

theorem runs_github : Prog.Runs (resolveDomainViaDnscrypt samplePackages "github.com") githubTrace
    (some (.ok (.v4 (padded 4 [140, 82, 121, 4]), none))) :=
  runs_sampleEstablish.bind (runs_githubQuery.bind (.ret _))

/-- What came back is what the environment replies, and two packets were sent. -/
theorem of_mem_githubTrace {c : Call} {r : c.Reply} (h : ⟨c, some r⟩ ∈ githubTrace) :
    providerEnv [] c = some r ∧
      ∀ packet, sent c = some packet → packet = certQuery ∨ packet = githubPacket := by
  rw [githubTrace, List.append_nil] at h
  rcases List.mem_append.mp h with hfirst | hquery
  · obtain ⟨past, henv⟩ := Prog.of_mem_exec hfirst
    obtain ⟨t₁, t₂, ht⟩ := List.append_of_mem hfirst
    have hjudged := holds_establishFrom (K := samplePackages) (t := []) hardcodedResolvers []
      Provider.asks_certQuery
    exact ⟨henv, fun packet hpacket =>
      .inl ((hjudged.sound runs_sampleEstablish).1 t₁ _ t₂ ht packet hpacket)⟩
  · rcases List.mem_cons.mp hquery with hfill | hsend
    · cases hfill
      exact ⟨rfl, fun packet hpacket => by cases hpacket⟩
    · cases List.mem_singleton.mp hsend
      refine ⟨?_, fun packet hpacket => .inr (Option.some.inj hpacket).symm⟩
      rw [providerEnv, if_neg githubPacket_ne]

theorem parse_sampleCertificates :
    (parseTxtResponse (sampleCertificates.encode "2.dnscrypt-cert.quad9.net")).val =
      .ok [sampleProvider.certificate sampleCredential] := by
  rw [Provider.val_parse_certificates]
  decide +kernel

theorem unforged_github : sampleProvider.Unforged githubTrace := by
  intro ip query packet raws hin hparse raw hraw _
  have hpacket : packet = githubResponse query ∧ (query = certQuery ∨ query = githubPacket) := by
    rcases hin with hudp | htcp
    · obtain ⟨henv, hsent⟩ := of_mem_githubTrace hudp
      by_cases hcert : query = certQuery
      · rw [providerEnv, if_pos hcert] at henv
        cases henv
      · rw [providerEnv, if_neg hcert] at henv
        cases henv
        exact ⟨rfl, hsent query rfl⟩
    · obtain ⟨henv, hsent⟩ := of_mem_githubTrace htcp
      cases henv
      exact ⟨rfl, hsent query rfl⟩
  obtain ⟨rfl, rfl | rfl⟩ := hpacket
  · rw [githubResponse, if_pos rfl, parse_sampleCertificates] at hparse
    cases hparse
    rw [List.mem_singleton.mp hraw]
    exact ⟨sampleCredential, List.mem_singleton_self _, Provider.drop_certificate⟩
  · have hnone : (parseTxtResponse (githubOpened.answer samplePackages (padded 12 [7])
        githubAnswer.encode 3)).val = .ok [] := by decide +kernel
    rw [githubResponse_packet, hnone] at hparse
    cases hparse
    cases hraw

theorem computes_github : sampleExchange.Computes githubTrace where
  publicKey sk pk h := by
    cases (of_mem_githubTrace h).1
    rfl
  secret sk pk secret h := by
    cases (of_mem_githubTrace h).1
    rfl

theorem provider_agreement_github :
    (∀ x ∈ githubTrace, ∀ packet, sent x.1 = some packet →
      sampleProvider.Readable "github.com" packet) ∧
      sampleProvider.Answered "github.com" githubTrace (.v4 (padded 4 [140, 82, 121, 4])) := by
  obtain ⟨hreadable, hanswered⟩ := sampleProvider.provider_agreement "github.com"
    (by decide +kernel) runs_github unforged_github computes_github
  exact ⟨hreadable, hanswered _ none rfl⟩

end SevMicroLoader.Dns
