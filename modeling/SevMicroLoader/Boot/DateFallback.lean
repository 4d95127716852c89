import SevMicroLoader.Boot.Clock

/-!
# The `Date` fallback, and when its seconds wrap

The seconds of the header are multiplied by `10 ^ 6` in wrapping arithmetic. When the product leaves
64 bits and the rest of it passes the floor, `main` sets the clock to a time that is not the
header's (`dateExact_iff`). Such runs exist for every header of this kind: it is enough that
neither the resolvers nor the Roughtime servers answer.
-/

namespace SevMicroLoader.Boot
open Rust Time

/-- Whenever `main` sets the clock after a header, it writes the seconds `t`. -/
def DateExact (K : Dns.Packages) (X : Externals) (dateStr : String) (t : UInt64) : Prop :=
  ∀ (trace : InitTrace) (o : Option (ℕ × ℕ)), Prog.Runs (initMain K X) trace o →
    ∀ (t₁ : InitTrace) (ts : Timespec) (t₂ : InitTrace),
    trace = t₁ ++ ⟨.clockSettime ts, some true⟩ :: t₂ → (clockWorld t₁).date = some dateStr →
    ts.tvSec.toInt = (t.toNat : ℤ)

/-! ## Boots in which only the header arrives -/

variable {K : Dns.Packages} {X : Externals} {α β : Type}

/-- No resolver answers. -/
theorem returns_establishFrom (resolvers : List Dns.HardcodedResolver) (errors : List String) :
    ∃ e, Prog.Returns (Dns.establishFrom K resolvers errors) (.error e) := by
  induction resolvers generalizing errors with
  | nil => exact ⟨_, Prog.returns_pure _⟩
  | cons resolver resolvers ih =>
      have hquery : Prog.Returns (Dns.sendDnsQuery resolver.ip
          (Dns.buildTxtRecordQuery resolver.providerName) false) (.error "refused") := by
        apply Prog.Returns.call (.error "timed out")
        exact Prog.returns_perform _
      obtain ⟨e, hrest⟩ := ih (errors ++ ["Failed to query cert from " ++
        resolver.ip.display ++ ": " ++ "refused"])
      exact ⟨e, hquery.bind hrest⟩

theorem returns_resolve (domain : String) :
    ∃ e, Prog.Returns (dns (Dns.resolveDomainViaDnscrypt K domain)) (.error e) := by
  obtain ⟨e, hestablish⟩ := returns_establishFrom (K := K) Dns.hardcodedResolvers []
  have hresolve : Prog.Returns (Dns.resolveDomainViaDnscrypt K domain) (.error e) :=
    Prog.Returns.bind hestablish (Prog.returns_pure _)
  exact ⟨e, Prog.Returns.embed hresolve⟩

theorem returns_resolveServers (servers : List RoughtimeServer)
    (resolved : List (RoughtimeServer × IpAddr)) :
    ∃ resolved', Prog.Returns (resolveServers K servers resolved none) (resolved', none) := by
  induction servers generalizing resolved with
  | nil => exact ⟨_, Prog.returns_pure _⟩
  | cons srv servers ih =>
      obtain ⟨e, hresolve⟩ := returns_resolve (K := K) srv.host
      cases hip : fallbackIp srv.name with
      | none =>
          obtain ⟨resolved', hrest⟩ := ih resolved
          refine ⟨resolved', Prog.Returns.bind hresolve ?_⟩
          dsimp only
          rwa [hip]
      | some ip =>
          obtain ⟨resolved', hrest⟩ := ih (resolved ++ [(srv, ip)])
          refine ⟨resolved', Prog.Returns.bind hresolve ?_⟩
          dsimp only
          rwa [hip]

/-- No Roughtime server answers. -/
theorem returns_awaitRoughtime (servers : List (RoughtimeServer × IpAddr)) :
    ∃ outcomes, Prog.Returns (awaitRoughtime servers) outcomes ∧ validMidpoints outcomes = [] := by
  induction servers with
  | nil => exact ⟨_, Prog.returns_pure _, rfl⟩
  | cons server servers ih =>
      obtain ⟨outcomes, hrest, hvalid⟩ := ih
      refine ⟨none :: outcomes, ?_, hvalid⟩
      apply Prog.Returns.call none
      exact hrest.bind (Prog.returns_pure _)

theorem returns_queryRoughtime {outcomes : List Outcome} (h : validMidpoints outcomes = []) :
    Prog.Returns (dns (Dns.runResult (queryRoughtime outcomes)))
      (.error "No valid Roughtime responses received from any server") := by
  rw [queryRoughtime, if_pos h]
  exact Prog.returns_pure _

/-- Only the response with the header arrives, and it is the last reply. -/
theorem exists_runs_queryMullvadSecureDate (dateStr : String) :
    ∃ t ip, Prog.Runs (queryMullvadSecureDate K) (t ++ [⟨.getDate ip, some (.ok (some dateStr))⟩])
      (some (parseHttpDate dateStr)) := by
  obtain ⟨e, t, hresolve⟩ := returns_resolve (K := K) "am.i.mullvad.net"
  refine ⟨t ++ [⟨.buildDateClient (.v4 ⟨[45, 83, 223, 233], rfl⟩), some true⟩],
    .v4 ⟨[45, 83, 223, 233], rfl⟩, ?_⟩
  rw [List.append_assoc]
  apply Prog.Runs.bind hresolve
  dsimp only
  apply Prog.Runs.call
  apply Prog.Runs.call
  exact .ret _

theorem exists_runs_secureMidpoint (dateStr : String) :
    ∃ t ip, Prog.Runs (secureMidpoint K) (t ++ [⟨.getDate ip, some (.ok (some dateStr))⟩])
      (some ((parseHttpDate dateStr).map (· * 1000000))) := by
  obtain ⟨servers, t₁, hservers⟩ := returns_resolveServers (K := K) roughtimeServers []
  obtain ⟨outcomes, ⟨t₂, hawait⟩, hvalid⟩ := returns_awaitRoughtime servers
  obtain ⟨t₃, hconsensus⟩ := returns_queryRoughtime hvalid
  obtain ⟨t₄, ip, hdate⟩ := exists_runs_queryMullvadSecureDate (K := K) dateStr
  refine ⟨t₁ ++ (t₂ ++ (t₃ ++ t₄)), ip, ?_⟩
  rw [List.append_assoc, List.append_assoc, List.append_assoc]
  apply hservers.bind
  apply hawait.bind
  apply hconsensus.bind
  rw [← List.append_nil (t₄ ++ _)]
  exact hdate.bind (.ret _)

/-- A midpoint from a header that passes the floor is written to the clock, in some run. -/
theorem exists_runs_initMain {dateStr : String} {midpoint : UInt64}
    (hdate : (parseHttpDate dateStr).map (· * 1000000) = some midpoint)
    (hfloor : ¬ midpoint < lastKnownGoodTimeMicros) :
    ∃ t₁ t₂ o,
      Prog.Runs (initMain K X)
        (t₁ ++ ⟨.clockSettime (midpointTimespec midpoint), some true⟩ :: t₂) o ∧
      (clockWorld t₁).date = some dateStr := by
  obtain ⟨t₁, hprepare⟩ := returns_of_exec (p := prepareSystemEnv) (a := ()) (by decide +kernel)
  obtain ⟨t₂, henforce⟩ := returns_of_exec (p := enforceTimeFloor) (a := ()) (by decide +kernel)
  obtain ⟨t₃, hentropy⟩ := returns_of_exec (p := waitForEntropy) (a := ()) (by decide +kernel)
  obtain ⟨t₄, hnetwork⟩ := returns_of_exec (p := checkNetworkReady) (a := ()) (by decide +kernel)
  obtain ⟨t₅, ip, hmidpoint⟩ := exists_runs_secureMidpoint (K := K) dateStr
  rw [hdate] at hmidpoint
  have hset : Prog.Runs (setSystemClock (some midpoint))
      [⟨.clockSettime (midpointTimespec midpoint), some true⟩] (some ()) := by
    rw [setSystemClock, if_neg hfloor]
    apply Prog.Runs.call
    exact .ret ()
  let rest : Init (ℕ × ℕ) := do
    loader (orShutdown "Failed to build HTTP client: " (← Prog.perform InitCall.buildClient))
    loader (main X)
  obtain ⟨t₆, o, hrest⟩ : ∃ t o, Prog.Runs rest t o := ⟨_, _, runs_sampleInitEnv rest []⟩
  refine ⟨t₁ ++ (t₂ ++ (t₃ ++ (⟨.loader (.sleep networkSettleSecs), some ()⟩ ::
    (t₄ ++ (⟨.buildTlsConfig, some (.ok ())⟩ ::
      (t₅ ++ [⟨.getDate ip, some (.ok (some dateStr))⟩])))))), t₆, o, ?_, ?_⟩
  · have hlast : t₅ ++ ⟨.getDate ip, some (.ok (some dateStr))⟩ ::
        ⟨.clockSettime (midpointTimespec midpoint), some true⟩ :: t₆ =
        (t₅ ++ [⟨.getDate ip, some (.ok (some dateStr))⟩]) ++
          ([⟨.clockSettime (midpointTimespec midpoint), some true⟩] ++ t₆) := by simp
    simp only [List.append_assoc, List.cons_append, List.nil_append]
    rw [hlast]
    apply hprepare.bind
    apply henforce.bind
    apply hentropy.bind
    apply Prog.Runs.call
    apply hnetwork.bind
    apply Prog.Runs.call
    apply hmidpoint.bind
    exact hset.bind hrest
  · simp only [clockWorld, Prog.after_append, Prog.after_cons_some, Prog.after_nil]
    rfl

/-! ## Wrapped seconds -/

/-- A product that wraps and still passes the floor becomes a wrong time. -/
theorem not_dateExact_of_wraps {dateStr : String} {t : UInt64}
    (hparse : parseHttpDate dateStr = some t) (hwraps : 2 ^ 64 ≤ t.toNat * 10 ^ 6)
    (hfloor : ¬ t * 1000000 < lastKnownGoodTimeMicros) : ¬ DateExact K X dateStr t := by
  intro hexact
  have hdate : (parseHttpDate dateStr).map (· * 1000000) = some (t * 1000000) := by
    rw [hparse]
    rfl
  obtain ⟨t₁, t₂, o, hrun, hheader⟩ := exists_runs_initMain (K := K) (X := X) hdate hfloor
  have hsecs := hexact _ o hrun t₁ _ t₂ rfl hheader
  rw [toInt_tvSec_midpoint] at hsecs
  have hlt := (t * 1000000).toNat_lt
  omega

/-- **When the header's seconds reach the clock.** They do so in every run exactly when their
product with `10 ^ 6` fits 64 bits or what is left of it is turned away by the floor. -/
theorem dateExact_iff (K : Dns.Packages) (X : Externals) {dateStr : String} {t : UInt64}
    (hparse : parseHttpDate dateStr = some t) :
    DateExact K X dateStr t ↔
      t.toNat * 10 ^ 6 < 2 ^ 64 ∨ t * 1000000 < lastKnownGoodTimeMicros := by
  constructor
  · intro hexact
    by_contra hneither
    obtain ⟨hwraps, hfloor⟩ := not_or.mp hneither
    exact not_dateExact_of_wraps hparse (not_lt.mp hwraps) hfloor hexact
  · intro hcond trace o hrun t₁ ts t₂ htrace hheader
    have hallowed : Allowed (clockWorld t₁) (.clockSettime ts) :=
      ((keeps_initMain K X).sound hrun).1 t₁ _ t₂ htrace
    obtain ⟨hsetting, hfallback⟩ := hallowed
    obtain ⟨hconfigured, hnone⟩ := hfallback (by rw [hheader]; nofun)
    have hmidpoint : (clockWorld t₁).midpoint = some (t * 1000000) := by
      rw [ClockWorld.midpoint, hnone, ClockWorld.fallback, hheader, Option.bind_some, hparse]
      rfl
    obtain ⟨midpoint, hsome, hfloor, -, hsecs, -⟩ := hsetting.exact hconfigured
    rw [hmidpoint] at hsome
    cases hsome
    have hfits := hcond.resolve_right (UInt64.not_lt.mpr hfloor)
    have hproduct : (t * 1000000).toNat = t.toNat * 1000000 := by
      rw [UInt64.toNat_mul]
      exact Nat.mod_eq_of_lt hfits
    have hquotient : (t * 1000000 / 1000000).toNat = t.toNat := by
      rw [UInt64.toNat_div, hproduct]
      exact Nat.mul_div_cancel _ (by decide)
    rw [hsecs, hquotient]

/-- The header of an ordinary day. -/
theorem dateExact_iff_june :
    DateExact sampleDnsPackages sampleExternals "Mon, 01 Jun 2026 12:41:36 GMT" 1780317696 :=
  (dateExact_iff sampleDnsPackages sampleExternals (by decide +kernel)).mpr (.inl (by decide))

/-- Eighteen trillion seconds on the first day of 1970 set the clock into the year 2027. -/
theorem wrapped_date_reaches_clock :
    ¬ ∀ (dateStr : String) (t : UInt64), parseHttpDate dateStr = some t →
      DateExact sampleDnsPackages sampleExternals dateStr t := by
  intro hall
  have hparse : parseHttpDate "Mon, 01 Jan 1970 00:00:18448544073710 GMT" =
      some 18448544073710 := by decide +kernel
  exact not_dateExact_of_wraps hparse (by decide) (by decide) (hall _ _ hparse)

end SevMicroLoader.Boot
