import SevMicroLoader.Dns.Provider
import SevMicroLoader.Dns.ResolverRuns

/-!
# Runs with the provider

The agreement holds of the resolver as a whole (`resolver_agreement`): however its tasks are
interleaved, the provider opens what any of them sends under a session. If the network delivers,
the provider's own address comes back (`honest_provider_believed`).
-/

namespace SevMicroLoader.Dns
open Rust

/-! ## The sessions of the resolver -/

section Sessions
variable {K : Packages} {E : Exchange} {V : Provider K E} {cache : Option DnscryptClientState}
  {served : List Served}

theorem Established.mono {t t' : Trace} {session : DnscryptClientState}
    (h : Established K t session) (ht : t ⊆ t') : Established K t' session := by
  obtain ⟨ip, query, packet, raws, raw, hin, hparse, hraw, hsigned, sk, secret, hpk, hsecret,
    hmagic, hkey⟩ := h
  exact ⟨ip, query, packet, raws, raw, received_mono hin ht, hparse, hraw, hsigned, sk, secret,
    ht hpk, ht hsecret, hmagic, hkey⟩

/-- What a section leaves and returns was cached before or is established by it. -/
theorem established_of_runs {t : Trace}
    {r : Except String DnscryptClientState × Option DnscryptClientState}
    (hrun : Prog.Runs (getOrEstablishSession K cache) t (some r)) :
    ∀ session, r.1 = .ok session ∨ r.2 = some session →
      cache = some session ∨ Established K t session := by
  have hrefresh : ∀ {t r}, Prog.Runs (refresh K cache) t (some r) →
      ∀ session, r.1 = .ok session ∨ r.2 = some session →
        cache = some session ∨ Established K t session := by
    intro t r hrun session hsession
    rcases Prog.Runs.of_bind hrun with ⟨t₁, r₁, t₂, rfl, hestablish, hrest⟩ | ⟨-, hstop⟩
    · have hjudged := holds_establishFrom (K := K) (t := []) hardcodedResolvers []
        Provider.asks_certQuery
      have hend := (hjudged.sound hestablish).2 r₁ rfl
      rw [Prog.after_record hestablish] at hend
      cases r₁ with
      | error e =>
          obtain ⟨-, ho⟩ := Prog.Runs.of_pure hrest
          cases ho
          rcases hsession with hresult | hcached
          · cases hresult
          · exact .inl hcached
      | ok session' =>
          obtain ⟨rfl, ho⟩ := Prog.Runs.of_pure hrest
          cases ho
          have hsame : session' = session := by
            rcases hsession with hresult | hcached
            · exact Except.ok.inj hresult
            · exact Option.some.inj hcached
          rw [List.append_nil]
          exact .inr (hsame ▸ hend session' rfl)
    · cases hstop
  cases hcache : cache with
  | none => 
      subst hcache
      exact hrefresh hrun
  | some cached =>
      subst hcache
      obtain ⟨now, t', rfl, hrest⟩ := Prog.Runs.of_replied none hrun
      change Prog.Runs (if now.getD 0 < cached.tsEnd.toUInt64 then _ else _) t' _ at hrest
      intro session hsession
      split at hrest
      · obtain ⟨-, ho⟩ := Prog.Runs.of_pure hrest
        cases ho
        rcases hsession with hresult | hcached
        · exact .inl (congrArg some (Except.ok.inj hresult))
        · exact .inl hcached
      · exact (hrefresh hrest session hsession).imp_right fun h =>
          h.mono (List.subset_cons_self _ t')

/-- **Every session that was served is shared with the provider.** -/
theorem shares_of_serves (hserves : Serves K cache served)
    (hcache : ∀ session, cache = some session → V.Shares session)
    (hunforged : ∀ e ∈ served, V.Unforged e.trace) (hcomputes : ∀ e ∈ served, E.Computes e.trace) :
    ∀ e ∈ served, ∀ session, e.result = .ok session → V.Shares session := by
  induction served generalizing cache with
  | nil => exact fun e he => absurd he List.not_mem_nil
  | cons call served ih =>
      obtain ⟨-, hrun, hlater⟩ := hserves
      have hcall : ∀ session, call.result = .ok session ∨ call.after = some session →
          V.Shares session := by
        intro session hsession
        rcases established_of_runs hrun session hsession with hcached | hestablished
        · exact hcache session hcached
        · exact Provider.shares_of_established hestablished (hunforged call List.mem_cons_self)
            (hcomputes call List.mem_cons_self)
      intro e he session hresult
      rcases List.mem_cons.mp he with rfl | he
      · exact hcall session (.inl hresult)
      · exact ih hlater (fun session h => hcall session (.inr h))
          (fun e he => hunforged e (List.mem_cons_of_mem _ he))
          (fun e he => hcomputes e (List.mem_cons_of_mem _ he)) e he session hresult

end Sessions

/-- **The tasks agree with the provider.** In every interleaving, with tasks dropped or not: if no
certificate that came in was forged, the provider opens whatever a task sends under a session to
the task's own question, and the addresses a task returns were in an answer to it. -/
theorem resolver_agreement {K : Packages} {E : Exchange} (V : Provider K E) (σ : Resolver)
    (h : ResolverReaches K σ) (hunforged : ∀ e ∈ σ.pool.shared.served, V.Unforged e.trace)
    (hcomputes : ∀ e ∈ σ.pool.shared.served, E.Computes e.trace) :
    ∀ t ∈ σ.pool.tasks, (buildARecordQuery t.held.domain).length < 2 ^ 63 →
      (∀ c k packet, t.left = .call (.outside c) k → sent c = some packet →
        ∃ key nonce, V.readQuery packet = some ⟨key, nonce, buildARecordQuery t.held.domain⟩) ∧
      ∀ addrs, t.left = .ret (some (.ok addrs)) →
        ∃ ip, addrs = [(ip, 0)] ∧ V.Answered t.held.domain t.held.asked ip := by
  obtain ⟨hjudged, hs⟩ := h.serialised
  intro t ht hdomain
  have hshares : ∀ session, t.held.session = some session → V.Shares session := by
    intro session hsession
    obtain ⟨e, he, hresult⟩ :=
      hs.sessions t.held (Multiset.mem_coe.mpr (List.mem_map_of_mem ht)) session hsession
    exact shares_of_serves hs.served (fun _ hnone => by cases hnone) hunforged hcomputes e he
      session hresult
  have hholds := hjudged t ht
  constructor
  · intro c k packet hleft hpacket
    rw [hleft] at hholds
    obtain ⟨-, session, hsession, hasks⟩ := hholds.1
    exact Provider.readQuery_of_asks (hshares session hsession) hdomain hasks hpacket
  · intro addrs hleft
    rw [hleft] at hholds
    obtain ⟨session, ip, hsession, haddrs, hresolved⟩ := hholds _ rfl _ rfl
    exact ⟨ip, haddrs,
      Provider.answered_of_resolved (hshares session hsession) hdomain hresolved⟩

/-- A task that looks up `github.com`. -/
def lookupTrace : ResolverTrace :=
  resolveTrace 1 none sampleEstablish.1 (.ok agreedSession) (some agreedSession) githubQuery

theorem runs_sampleSection : Prog.Runs (getOrEstablishSession samplePackages none)
    sampleEstablish.1 (some (.ok agreedSession, some agreedSession)) := by
  have hrefresh : Prog.Runs (refresh samplePackages none) (sampleEstablish.1 ++ [])
      (some (.ok agreedSession, some agreedSession)) := by
    rw [refresh]
    exact runs_sampleEstablish.bind (.ret _)
  rwa [List.append_nil] at hrefresh

theorem resolver_agreement_github : ∃ σ : Resolver, ResolverReaches samplePackages σ ∧
    ∃ t ∈ σ.pool.tasks, ∃ ip, t.left = .ret (some (.ok [(ip, 0)])) ∧
      sampleProvider.Answered t.held.domain t.held.asked ip := by
  have halone := reaches_resolve 1 "github.com" (s := .start) rfl runs_sampleSection
    runs_githubQuery [] []
  have hreach : ResolverReaches samplePackages ⟨.ret (), _⟩ :=
    ⟨.call ⟨1, "github.com"⟩ fun _ => .ret (), .head (.main ()) (halone.system _)⟩
  have hsub : sampleEstablish.1 ⊆ githubTrace := List.subset_append_left _ _
  have hdomain : (Prog.after Holding.next (.start "github.com") lookupTrace).domain =
      "github.com" := domain_after _ _
  obtain ⟨-, haddrs⟩ := resolver_agreement sampleProvider _ hreach
    (List.forall_mem_singleton.mpr (unforged_github.mono hsub))
    (List.forall_mem_singleton.mpr (computes_github.mono hsub))
    _ (List.mem_singleton_self _) (hdomain.symm ▸ by decide +kernel)
  obtain ⟨ip, hip, hanswered⟩ := haddrs _ rfl
  exact ⟨_, hreach, _, List.mem_singleton_self _, ip,
    congrArg (fun addrs => Prog.ret (some (Except.ok addrs))) hip, hanswered⟩

/-! ## A provider that answers -/

namespace Provider
variable {K : Packages} {E : Exchange} (V : Provider K E)

/-- Every certificate is in the reply, and it has no others with the provider's signature. -/
def Publishes (response : Bytes) : Prop :=
  ∃ R : TxtReply, response = R.encode "2.dnscrypt-cert.quad9.net" ∧
    (∀ c ∈ V.credentials, V.certificate c ∈ R.answers.filterMap Answer.text?) ∧
    ∀ raw ∈ R.answers.filterMap Answer.text?, Signed K.ed25519 quad9Pk raw →
      ∃ c ∈ V.credentials, raw = V.certificate c

/-- What is sent back for a packet: the certificates, or the records for the opened query. -/
def Answers (zone : Bytes → List Record) (packet response : Bytes) : Prop :=
  if packet = certQuery then V.Publishes response
  else ∃ (q : Opened) (reply : Reply) (suffix : ByteArr 12) (zeros : ℕ),
    V.readQuery packet = some q ∧ reply.answers = zone q.query ∧
      response = q.answer K suffix reply.encode zeros

/-- Datagrams may be lost or cut short, but streams are not; the clock stands at `now`, and the
packages do what they should. -/
structure Delivers (zone : Bytes → List Record) (now : UInt64) (t : Trace) : Prop where
  udp : ∀ ip packet response, ⟨.sendDnsQueryUdp ip packet, some (.ok response)⟩ ∈ t →
    isTruncated response ∨ V.Answers zone packet response
  tcp : ∀ ip packet r, ⟨.sendDnsQueryTcp ip packet, some r⟩ ∈ t →
    ∃ response, r = .ok response ∧ V.Answers zone packet response
  clock : ∀ now' ∈ readings t, now' = now
  generated : ∀ r : Option EphemeralPrivateKey, ⟨.generate, some r⟩ ∈ t → r.isSome
  filled : ∀ r : Option (ByteArr 12), ⟨.fill 12, some r⟩ ∈ t → r.isSome
  publicKey : ∀ sk r, ⟨.computePublicKey sk, some r⟩ ∈ t → r = some (E.publicKey sk)
  secret : ∀ sk, ∀ c ∈ V.credentials, ∀ r,
    ⟨.agreeEphemeral sk (E.publicKey c.sk), some r⟩ ∈ t →
      r = some (E.secret sk (E.publicKey c.sk)).val

section Honest
variable {V} {zone : Bytes → List Record} {now : UInt64} {t t' : Trace} {domain : String}
  {session : DnscryptClientState}

theorem Delivers.mono (h : V.Delivers zone now t') (ht : t ⊆ t') : V.Delivers zone now t where
  udp ip packet response hmem := h.udp ip packet response (ht hmem)
  tcp ip packet r hmem := h.tcp ip packet r (ht hmem)
  clock now' hmem := by
    obtain ⟨r, hr, rfl⟩ := mem_readings.mp hmem
    exact h.clock _ (mem_readings.mpr ⟨r, ht hr, rfl⟩)
  generated r hmem := h.generated r (ht hmem)
  filled r hmem := h.filled r (ht hmem)
  publicKey sk r hmem := h.publicKey sk r (ht hmem)
  secret sk c hc r hmem := h.secret sk c hc r (ht hmem)

/-- A query comes to its answer, over one transport or the other. -/
theorem runs_sendDnsQuery {ip : SocketAddr} {packet : Bytes} {o : Option (Except String Bytes)}
    (hrun : Prog.Runs (sendDnsQuery ip packet false) t o) (hdelivers : V.Delivers zone now t) :
    ∃ response, o = some (.ok response) ∧ V.Answers zone packet response := by
  obtain ⟨r, t', rfl, hrest⟩ := Prog.Runs.of_replied (.error "") hrun
  have htcp : ∀ {o}, Prog.Runs (Prog.perform (Call.sendDnsQueryTcp ip packet)) t' o →
      ∃ response, o = some (.ok response) ∧ V.Answers zone packet response := by
    intro o htcp
    obtain ⟨r', t'', rfl, hpure⟩ := Prog.Runs.of_replied (.error "") htcp
    obtain ⟨-, rfl⟩ := Prog.Runs.of_pure hpure
    obtain ⟨response, rfl, hanswers⟩ := hdelivers.tcp ip packet r' (by simp)
    exact ⟨response, rfl, hanswers⟩
  cases r with
  | error e => exact htcp hrest
  | ok response =>
      change Prog.Runs (if isTruncated response then Prog.perform (Call.sendDnsQueryTcp ip packet)
        else pure (.ok response)) t' o at hrest
      by_cases hcut : isTruncated response = true
      · rw [if_pos hcut] at hrest
        exact htcp hrest
      · rw [if_neg hcut] at hrest
        obtain ⟨-, rfl⟩ := Prog.Runs.of_pure hrest
        exact ⟨response, rfl, (hdelivers.udp ip packet response (by simp)).resolve_left hcut⟩

/-! ### The session -/

theorem certOf_certificate (c : Credential) : certOf (V.certificate c) = c.cert E :=
  certOf_of_signedPart drop_certificate

theorem qualifies_certificate {c : Credential} (hstart : c.tsStart.toNat ≤ now.toNat)
    (hend : now.toNat ≤ c.tsEnd.toNat) : Qualifies K.ed25519 quad9Pk now (V.certificate c) := by
  have htsStart : (certOf (V.certificate c)).tsStart.toNat = c.tsStart.toNat := by
    rw [certOf_certificate]
    rfl
  have htsEnd : (certOf (V.certificate c)).tsEnd.toNat = c.tsEnd.toNat := by
    rw [certOf_certificate]
    rfl
  rw [certOf, UInt32.toNat_ofNat_of_lt' (numberAt_lt _ _)] at htsStart htsEnd
  exact ⟨signed_certificate, htsStart ▸ hstart, htsEnd ▸ hend⟩

/-- Of the certificates, one is chosen that the provider has the key for. -/
theorem runs_bestCert_certificates {raws : List Bytes} {o : Option (Option DnscryptCert)}
    (hnow : 1700000000 < now)
    (hcurrent : ∃ c ∈ V.credentials, c.tsStart.toNat ≤ now.toNat ∧ now.toNat ≤ c.tsEnd.toNat)
    (hall : ∀ c ∈ V.credentials, V.certificate c ∈ raws)
    (hno : ∀ raw ∈ raws, Signed K.ed25519 quad9Pk raw → ∃ c ∈ V.credentials,
      raw = V.certificate c)
    (hrun : Prog.Runs (bestCert K quad9Pk raws none) t o) (hdelivers : V.Delivers zone now t) :
    ∃ c ∈ V.credentials, o = some (some (c.cert E)) := by
  obtain ⟨c, hc, hstart, hend⟩ := hcurrent
  have hmem : V.certificate c ∈ raws.filter (Qualifies K.ed25519 quad9Pk now ·) :=
    List.mem_filter.mpr ⟨hall c hc, by simpa using qualifies_certificate hstart hend⟩
  rw [runs_bestCert hnow hrun hdelivers.clock]
  cases hbest : (raws.filter (Qualifies K.ed25519 quad9Pk now ·)).argmax serialOf with
  | none =>
      rw [List.argmax_eq_none] at hbest
      rw [hbest] at hmem
      exact absurd hmem List.not_mem_nil
  | some raw =>
      have hraw := List.mem_filter.mp (List.argmax_mem hbest)
      obtain ⟨c', hc', rfl⟩ := hno raw hraw.1 (of_decide_eq_true hraw.2).toSigned
      exact ⟨c', hc', by rw [Option.map_some, certOf_certificate]⟩

theorem runs_agree {resolver : HardcodedResolver} {c : Credential}
    {o : Option (Except String DnscryptClientState)} (hc : c ∈ V.credentials)
    (hrun : Prog.Runs (agree K resolver (c.cert E)) t o) (hdelivers : V.Delivers zone now t) :
    ∃ session, o = some (.ok session) ∧ V.Shares session := by
  obtain ⟨sk?, t₁, rfl, h₁⟩ := Prog.Runs.of_replied none hrun
  obtain ⟨sk, rfl⟩ := Option.isSome_iff_exists.mp (hdelivers.generated sk? (by simp))
  obtain ⟨pk?, t₂, rfl, h₂⟩ := Prog.Runs.of_replied none h₁
  obtain rfl := hdelivers.publicKey sk pk? (by simp)
  obtain ⟨secret?, t₃, rfl, h₃⟩ := Prog.Runs.of_replied none h₂
  obtain rfl := hdelivers.secret sk c hc secret? (by simp [Credential.cert])
  have hlen := (E.secret sk (E.publicKey c.sk)).property
  change Prog.Runs (if h : _ then _ else _) t₃ o at h₃
  rw [dif_pos hlen] at h₃
  obtain ⟨-, rfl⟩ := Prog.Runs.of_pure h₃
  exact ⟨_, rfl, c, hc, rfl, congrArg (K.hchacha20 · (padded 16 [])) (E.secret_comm sk c.sk)⟩

/-- The first resolver answers, and a session is agreed on. -/
theorem runs_establishFrom {resolvers : List HardcodedResolver} {errors : List String}
    {o : Option (Except String DnscryptClientState)} (hnow : 1700000000 < now)
    (hcurrent : ∃ c ∈ V.credentials, c.tsStart.toNat ≤ now.toNat ∧ now.toNat ≤ c.tsEnd.toNat)
    (hne : resolvers ≠ [])
    (hprovider : ∀ resolver ∈ resolvers, buildTxtRecordQuery resolver.providerName = certQuery ∧
      resolver.providerPk = quad9Pk)
    (hrun : Prog.Runs (establishFrom K resolvers errors) t o)
    (hdelivers : V.Delivers zone now t) : ∃ session, o = some (.ok session) ∧ V.Shares session := by
  obtain ⟨resolver, resolvers, rfl⟩ := List.exists_cons_of_ne_nil hne
  obtain ⟨hquery, hpk⟩ := hprovider resolver List.mem_cons_self
  rw [establishFrom, hquery, hpk] at hrun
  rcases hrun.of_bind with ⟨t₁, r, t₂, rfl, hsend, hrest⟩ | ⟨hstop, -⟩
  · obtain ⟨response, hr, hanswers⟩ :=
      runs_sendDnsQuery hsend (hdelivers.mono (List.subset_append_left _ _))
    cases hr
    rw [Answers, if_pos rfl] at hanswers
    obtain ⟨R, rfl, hall, hno⟩ := hanswers
    have hparse : run (parseTxtResponse (R.encode "2.dnscrypt-cert.quad9.net")) =
        pure (R.answers.filterMap Answer.text?) := by
      rw [run, val_parse_certificates]
    dsimp only at hrest
    rw [hparse] at hrest
    change Prog.Runs (bestCert K quad9Pk _ none >>= _) t₂ o at hrest
    have hlater := hdelivers.mono (List.subset_append_right t₁ t₂)
    rcases Prog.Runs.of_bind hrest with ⟨t₃, best, t₄, rfl, hbest, hagree⟩ | ⟨hstop, -⟩
    · obtain ⟨c, hc, ho⟩ := runs_bestCert_certificates hnow hcurrent hall hno hbest
        (hlater.mono (List.subset_append_left _ _))
      cases ho
      exact runs_agree hc hagree (hlater.mono (List.subset_append_right _ _))
    · obtain ⟨c, hc, ho⟩ := runs_bestCert_certificates hnow hcurrent hall hno hstop hlater
      cases ho
  · obtain ⟨response, hr, -⟩ := runs_sendDnsQuery hstop hdelivers
    cases hr

/-! ### The query -/

theorem runs_resolveSession {ip : IpAddr} {o : Option (Except String IpAddr)}
    (hshares : V.Shares session) (hdomain : (buildARecordQuery domain).length < 2 ^ 63)
    (hstep : InStep (zone (buildARecordQuery domain)))
    (hip : firstAddress (zone (buildARecordQuery domain)) = some ip)
    (hrun : Prog.Runs (resolveDomainViaDnscryptSession K session domain) t o)
    (hdelivers : V.Delivers zone now t) : o = some (.ok ip) := by
  obtain ⟨nonce?, t₁, rfl, hrest⟩ := Prog.Runs.of_replied none hrun
  obtain ⟨nonce, rfl⟩ := Option.isSome_iff_exists.mp (hdelivers.filled nonce? (by simp))
  have hencrypt (text : Bytes) (queryNonce : ByteArr 24) :
      run (xchacha20DjbPoly1305Encrypt K.cipher session.sharedKey queryNonce text) =
        pure (box K.cipher session.sharedKey queryNonce text) := by
    rw [run, val_encrypt]
  dsimp only [Prog.bind] at hrest
  rw [hencrypt, pure_bind, zeros_eq, ← requestPacket_eq] at hrest
  have hlater := hdelivers.mono (List.subset_cons_self _ t₁)
  rcases hrest.of_bind with ⟨t₂, r, t₃, rfl, hquery, hlast⟩ | ⟨hstop, -⟩
  · obtain ⟨response, hr, hanswers⟩ :=
      runs_sendDnsQuery hquery (hlater.mono (List.subset_append_left _ _))
    cases hr
    rw [Answers, if_neg (requestPacket_ne_certQuery hdomain),
      readQuery_requestPacket hshares hdomain] at hanswers
    obtain ⟨q, reply, suffix, zeros, hq, hrecords, rfl⟩ := hanswers
    cases hq
    have hparse : (parseDnsResponse reply.encode).val = .ok (some ip) := by
      rw [parse_of_inStep reply (hrecords ▸ hstep), hrecords, hip]
    have hopen : (handleResponse K.cipher session.sharedKey nonce (Opened.answer K
        ⟨session.sharedKey, nonce, buildARecordQuery domain⟩ suffix reply.encode zeros)).val =
        .ok ip := val_handleResponse_answer hparse
    dsimp only at hlast
    rw [runResult, hopen] at hlast
    exact (Prog.Runs.of_pure hlast).2
  · obtain ⟨response, hr, -⟩ := runs_sendDnsQuery hstop hlater
    cases hr

end Honest

/-- **An honest provider is believed.** If datagrams may be lost but streams are not, the clock
stands at a time at which a certificate is in force, and the provider's records keep the walk in
step, a resolution returns the first address of these records. -/
theorem honest_provider_believed (zone : Bytes → List Record) {now : UInt64}
    (hnow : 1700000000 < now)
    (hcurrent : ∃ c ∈ V.credentials, c.tsStart.toNat ≤ now.toNat ∧ now.toNat ≤ c.tsEnd.toNat)
    (domain : String) (hdomain : (buildARecordQuery domain).length < 2 ^ 63)
    (hstep : InStep (zone (buildARecordQuery domain))) {ip : IpAddr}
    (hip : firstAddress (zone (buildARecordQuery domain)) = some ip) {t : Trace}
    {o : Option (Except String (IpAddr × Option UInt64))}
    (hrun : Prog.Runs (resolveDomainViaDnscrypt K domain) t o)
    (hdelivers : V.Delivers zone now t) : o = some (.ok (ip, none)) := by
  rcases Prog.Runs.of_bind hrun with ⟨t₁, r, t₂, rfl, hfirst, hrest⟩ | ⟨hstop, -⟩
  · obtain ⟨session, hr, hshares⟩ := runs_establishFrom hnow hcurrent
      (List.cons_ne_nil _ _) asks_certQuery hfirst (hdelivers.mono (List.subset_append_left _ _))
    cases hr
    have hlater := hdelivers.mono (List.subset_append_right t₁ t₂)
    rcases Prog.Runs.of_bind hrest with ⟨t₃, r, t₄, rfl, hquery, hlast⟩ | ⟨hstop, -⟩
    · have hr := runs_resolveSession hshares hdomain hstep hip hquery
        (hlater.mono (List.subset_append_left _ _))
      cases hr
      exact (Prog.Runs.of_pure hlast).2
    · have hr := runs_resolveSession hshares hdomain hstep hip hstop hlater
      cases hr
  · obtain ⟨session, hr, -⟩ := runs_establishFrom hnow hcurrent (List.cons_ne_nil _ _)
      asks_certQuery hstop hdelivers
    cases hr

end Provider

theorem answers_github {packet : Bytes} (h : packet = certQuery ∨ packet = githubPacket) :
    sampleProvider.Answers (fun _ => alignedAnswers) packet (githubResponse packet) := by
  rcases h with rfl | rfl
  · have htexts : sampleCertificates.answers.filterMap Answer.text? =
        [sampleProvider.certificate sampleCredential] := by decide +kernel
    rw [Provider.Answers, if_pos rfl, githubResponse, if_pos rfl]
    refine ⟨sampleCertificates, rfl, ?_, ?_⟩
    · rw [htexts]
      intro c hc
      rw [List.mem_singleton.mp hc]
      exact List.mem_singleton_self _
    · rw [htexts]
      intro raw hraw _
      exact ⟨sampleCredential, List.mem_singleton_self _, List.mem_singleton.mp hraw⟩
  · have hshares : sampleProvider.Shares agreedSession :=
      ⟨sampleCredential, List.mem_singleton_self _, rfl, by decide +kernel⟩
    rw [Provider.Answers, if_neg githubPacket_ne, githubResponse_packet]
    exact ⟨githubOpened, githubAnswer, padded 12 [7], 3,
      Provider.readQuery_requestPacket hshares (by decide +kernel), rfl, rfl⟩

theorem delivers_github :
    sampleProvider.Delivers (fun _ => alignedAnswers) 1780272100 githubTrace where
  udp ip packet response h := by
    obtain ⟨henv, hsent⟩ := of_mem_githubTrace h
    by_cases hcert : packet = certQuery
    · rw [providerEnv, if_pos hcert] at henv
      cases henv
    · rw [providerEnv, if_neg hcert] at henv
      cases henv
      exact .inr (answers_github (hsent packet rfl))
  tcp ip packet r h := by
    obtain ⟨henv, hsent⟩ := of_mem_githubTrace h
    cases henv
    exact ⟨_, rfl, answers_github (hsent packet rfl)⟩
  clock now' h := by
    obtain ⟨r, hr, rfl⟩ := mem_readings.mp h
    cases (of_mem_githubTrace hr).1
    rfl
  generated r h := by
    cases (of_mem_githubTrace h).1
    rfl
  filled r h := by
    cases (of_mem_githubTrace h).1
    rfl
  publicKey sk r h := by
    cases (of_mem_githubTrace h).1
    rfl
  secret sk c _ r h := by
    cases (of_mem_githubTrace h).1
    rfl

/-- The certificates come over a stream, and the address in a datagram. -/
theorem honest_provider_believed_github :
    ∃ t o, Prog.Runs (resolveDomainViaDnscrypt samplePackages "github.com") t o ∧
      o = some (.ok (.v4 (padded 4 [140, 82, 121, 4]), none)) := by
  have hcurrent : ∃ c ∈ sampleProvider.credentials, c.tsStart.toNat ≤ (1780272100 : UInt64).toNat ∧
      (1780272100 : UInt64).toNat ≤ c.tsEnd.toNat :=
    ⟨sampleCredential, List.mem_singleton_self _, by decide, by decide⟩
  have hstep : InStep alignedAnswers := inStep_of_keepsStep alignedAnswers (by decide)
  have hip : firstAddress alignedAnswers = some (.v4 (padded 4 [140, 82, 121, 4])) := by
    decide +kernel
  have hbelieved := sampleProvider.honest_provider_believed (fun _ => alignedAnswers)
    (by decide) hcurrent "github.com" (by decide +kernel) hstep hip runs_github delivers_github
  exact ⟨_, _, runs_github, hbelieved⟩

end SevMicroLoader.Dns
