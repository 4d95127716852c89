import SevMicroLoader.Boot.Chain
import SevMicroLoader.Boot.Init
import SevMicroLoader.Time.Median

/-!
# The clock is never set below the floor

`ClockWorld` follows the replies that decide about the clock: the outcomes of the Roughtime tasks,
the `Date` header, and whether `main` has set the clock. `ClockWorld.midpoint` is the time these
replies stand for. `ClockSetting` is what a setting of the clock must be, and `Allowed` adds that
downloads and child processes come after a setting that succeeded.
-/

namespace SevMicroLoader.Boot
open Rust Time

/-! ## The replies that count -/

/-- What a boot knows of the time so far. -/
structure ClockWorld where
  /-- The TLS configuration is built: the time floor lies behind. -/
  configured : Bool
  outcomes : List Outcome
  /-- The text of the last `Date` header. -/
  date : Option String
  /-- `main` has set the clock. -/
  set : Bool

/-- Nothing is known. -/
def ClockWorld.start : ClockWorld := ⟨false, [], none, false⟩

/-- Only replies that succeed count; a setting before the TLS configuration is the floor. -/
def ClockWorld.next (w : ClockWorld) : (c : InitCall) → c.Reply → ClockWorld
  | .buildTlsConfig, .ok _ => { w with configured := true }
  | .querySingleRoughtime srv _, res =>
      { w with outcomes := w.outcomes ++ [res.map (srv.name, ·)] }
  | .getDate _, .ok (some dateStr) => { w with date := some dateStr }
  | .clockSettime _, true => { w with set := w.configured }
  | _, _ => w

/-- What is known after a trace. -/
def clockWorld (t : InitTrace) : ClockWorld := Prog.after ClockWorld.next .start t

/-- The consensus of the servers, if there is one. -/
def ClockWorld.consensus (w : ClockWorld) : Option UInt64 :=
  (queryRoughtime w.outcomes).val.toOption

/-- The time of the `Date` header, in wrapping microseconds. -/
def ClockWorld.fallback (w : ClockWorld) : Option UInt64 :=
  (w.date.bind parseHttpDate).map (· * 1000000)

/-- The consensus of the Roughtime servers, or else the time of the `Date` header. -/
def ClockWorld.midpoint (w : ClockWorld) : Option UInt64 := w.consensus <|> w.fallback

/-! ## What is allowed -/

/-- A setting of the clock: at or above the floor, with no field changed by its cast. Before the TLS
configuration it is the floor itself, and after it the midpoint. -/
structure ClockSetting (w : ClockWorld) (ts : Timespec) : Prop where
  floor : (lastKnownGoodTimeSecs.toNat : ℤ) ≤ ts.tvSec.toInt
  nsec_nonneg : 0 ≤ ts.tvNsec.toInt
  nsec_lt : ts.tvNsec.toInt < 10 ^ 9
  enforced : w.configured = false → ts.tvSec = lastKnownGoodTimeSecs.toInt64 ∧
    ts.tvSec.toInt = lastKnownGoodTimeSecs.toNat
  exact : w.configured = true → ∃ midpoint, w.midpoint = some midpoint ∧
    lastKnownGoodTimeMicros ≤ midpoint ∧ ts.tvSec = (midpoint / 1000000).toInt64 ∧
    ts.tvSec.toInt = (midpoint / 1000000).toNat ∧
    ts.tvSec.toInt * 10 ^ 6 + ts.tvNsec.toInt / 1000 = midpoint.toNat

/-- No process aborts, the clock is set as it should be, and neither a download nor a child process
starts before. A header counts only where there is no consensus. -/
def Allowed (w : ClockWorld) : InitCall → Prop
  | .clockSettime ts =>
      ClockSetting w ts ∧ (w.date ≠ none → w.configured = true ∧ w.consensus = none)
  | .loader (.get _) => w.set = true
  | .loader (.spawn _) => w.set = true
  | .dns c => ¬ Dns.IsAbort c
  | _ => True

/-- The calls that neither need a condition nor count. -/
def Quiet : InitCall → Prop
  | .clockSettime _ => False
  | .loader (.get _) => False
  | .loader (.spawn _) => False
  | .buildTlsConfig => False
  | .querySingleRoughtime _ _ => False
  | .getDate _ => False
  | .dns c => ¬ Dns.IsAbort c
  | _ => True

theorem Quiet.allowed {c : InitCall} (h : Quiet c) (w : ClockWorld) : Allowed w c := by
  cases c with
  | loader c => cases c <;> first | exact trivial | exact h.elim
  | dns c => exact h
  | clockSettime ts => exact h.elim
  | _ => trivial

theorem Quiet.next {c : InitCall} (h : Quiet c) (w : ClockWorld) (r : c.Reply) :
    w.next c r = w := by
  cases c with
  | clockSettime ts => exact h.elim
  | buildTlsConfig => exact h.elim
  | querySingleRoughtime srv ip => exact h.elim
  | getDate ip => exact h.elim
  | _ => rfl

section Judgement
variable {α β : Type} {w : ClockWorld} {Q : ClockWorld → α → Prop}

/-- From `w` on, `p` makes allowed calls only, and ends in `Q`. -/
abbrev Keeps (Q : ClockWorld → α → Prop) (p : Init α) (w : ClockWorld) : Prop :=
  Prog.Holds ClockWorld.next Allowed Q p w

/-! ## The environment does not count -/

theorem quiet_of_harmless (c : InitCall) (h : Harmless c) : Quiet c := by
  cases c with
  | loader c => cases c <;> first | exact trivial | exact h.elim
  | dns c => exact h.elim
  | _ => first | exact trivial | exact h.elim

theorem only_panicShutdown (message : String) :
    Prog.Only Quiet (loader (panicShutdown message) : Init α) :=
  ⟨trivial, fun r => Empty.elim r⟩

theorem only_orShutdown (what : String) (result : Except String α) :
    Prog.Only Quiet (loader (orShutdown what result)) := by
  cases result with
  | ok a => exact Prog.only_pure a
  | error e => exact only_panicShutdown _

theorem only_mountOrShutdown {source fstype data : Option String} {target what : String}
    {flags : List MsFlag} :
    Prog.Only Quiet (loader (mountOrShutdown source target fstype flags data what)) :=
  ⟨trivial, fun mounted => only_orShutdown what mounted⟩

theorem only_prepareSystemEnv : Prog.Only Quiet prepareSystemEnv := by
  refine only_mountOrShutdown.bind fun _ => ?_ -- /proc
  refine only_mountOrShutdown.bind fun _ => ?_ -- /sys
  refine only_mountOrShutdown.bind fun _ => ?_ -- /dev
  refine Prog.Only.call trivial fun _ => Prog.Only.call trivial fun _ => ?_ -- /dev/pts
  refine only_mountOrShutdown.bind fun _ => ?_ -- /tmp
  refine Prog.Only.call trivial fun _ => ?_
  refine only_mountOrShutdown.bind fun _ => ?_ -- /run
  refine Prog.Only.call trivial fun created => ?_
  refine (only_orShutdown _ created).bind fun _ => ?_
  refine only_mountOrShutdown.bind fun _ => ?_ -- /run/payload
  refine (only_initNetworking.mono quiet_of_harmless).bind fun _ => ?_
  exact only_applyKernelHardening.mono quiet_of_harmless

theorem only_waitForEntropy : Prog.Only Quiet waitForEntropy := by
  refine Prog.Only.call trivial fun opened => ?_
  cases opened with
  | error e => exact Prog.only_pure ()
  | ok _ => exact Prog.Only.call trivial fun _ => Prog.only_pure ()

theorem only_checkNetworkReady : Prog.Only Quiet checkNetworkReady :=
  Prog.Only.call trivial fun _ => Prog.only_pure ()

/-- A program of quiet calls does not count for the clock. -/
theorem keeps_of_only {p : Init α} (hp : Prog.Only Quiet p) (w : ClockWorld) :
    Keeps (fun w' _ => w' = w) p w :=
  hp.holds (fun w _ hc => hc.allowed w) (fun w _ r hc => hc.next w r) w

/-! ## The two settings -/

theorem toInt_lastKnownGoodTimeSecs :
    lastKnownGoodTimeSecs.toInt64.toInt = lastKnownGoodTimeSecs.toNat :=
  toInt_toInt64 (by decide)

/-- Before the TLS configuration, the floor may be set. -/
theorem clockSetting_floor (hw : w.configured = false) : ClockSetting w floorTimespec where
  floor := toInt_lastKnownGoodTimeSecs.ge
  nsec_nonneg := by decide
  nsec_lt := by decide
  enforced _ := ⟨rfl, toInt_lastKnownGoodTimeSecs⟩
  exact hconfigured := by rw [hw] at hconfigured; cases hconfigured

/-- After it, a midpoint that is not below the floor. -/
theorem clockSetting_midpoint {midpoint : UInt64} (hw : w.configured = true)
    (hmidpoint : w.midpoint = some midpoint) (hfloor : lastKnownGoodTimeMicros ≤ midpoint) :
    ClockSetting w (midpointTimespec midpoint) := by
  have hsec := toInt_tvSec_midpoint midpoint
  have hnsec := toInt_tvNsec_midpoint midpoint
  have hmicros : 1780272000001000 ≤ midpoint.toNat := UInt64.le_iff_toNat_le.mp hfloor
  have hsecs : lastKnownGoodTimeSecs.toNat = 1780272000 := by decide
  constructor
  case floor =>
    rw [hsec, hsecs]
    omega
  case nsec_nonneg =>
    rw [hnsec]
    omega
  case nsec_lt =>
    rw [hnsec]
    omega
  case enforced =>
    intro hconfigured
    rw [hw] at hconfigured
    cases hconfigured
  case exact =>
    refine fun _ => ⟨midpoint, hmidpoint, hfloor, rfl, ?_, midpointTimespec_exact midpoint⟩
    rw [hsec, UInt64.toNat_div]
    rfl

theorem keeps_enforceTimeFloor (hset : w.set = false) (hconfigured : w.configured = false)
    (hdate : w.date = none) : Keeps (fun w' _ => w' = w) enforceTimeFloor w := by
  have hkept : { w with set := w.configured } = w := by
    cases w with
    | mk configured outcomes date set =>
        cases hset
        cases hconfigured
        rfl
  refine Prog.holds_perform_bind.mpr ⟨trivial, fun reading => ?_⟩
  refine Prog.holds_ite.mpr ⟨fun _ => ?_, fun _ => rfl⟩
  refine ⟨⟨clockSetting_floor hconfigured, fun hne => absurd hdate hne⟩, fun ok => ?_⟩
  cases ok with
  | false => rfl
  | true => exact hkept

/-! ## The midpoint -/

theorem keeps_dns {p : Dns.Client α} {R : α → Prop} (h : Dns.Leaves (fun _ a => R a) p []) :
    Keeps (fun w' a => w' = w ∧ R a) (dns p) w :=
  Prog.holds_embed.mpr (h.frame (fun _ _ _ hc => hc) (fun _ _ _ hw _ => hw) rfl)

variable {K : Dns.Packages}

/-- No server brings a time along. -/
theorem keeps_resolveServers (servers : List RoughtimeServer)
    (resolved : List (RoughtimeServer × IpAddr)) :
    Keeps (fun w' res => w' = w ∧ res.2 = none) (resolveServers K servers resolved none) w := by
  induction servers generalizing resolved with
  | nil => exact ⟨rfl, rfl⟩
  | cons srv servers ih =>
      have hleaves : Dns.Leaves (fun _ r => ∀ ip fbTime, r = .ok (ip, fbTime) → fbTime = none)
          (Dns.resolveDomainViaDnscrypt K srv.host) [] :=
        Dns.leaves_resolveDomainViaDnscrypt fun _ _ hr => hr
      apply (keeps_dns hleaves).bind
      rintro _ res ⟨rfl, hres⟩
      cases res with
      | ok res =>
          obtain ⟨ip, fbTime⟩ := res
          cases hres ip fbTime rfl
          exact ih _
      | error e =>
          dsimp only
          split
          · exact ih _
          · exact ih _

theorem keeps_awaitRoughtime (servers : List (RoughtimeServer × IpAddr)) :
    Keeps (fun w' outcomes => w' = { w with outcomes := w.outcomes ++ outcomes })
      (awaitRoughtime servers) w := by
  induction servers generalizing w with
  | nil =>
      change w = { w with outcomes := w.outcomes ++ [] }
      rw [List.append_nil]
  | cons server servers ih =>
      obtain ⟨srv, ip⟩ := server
      refine Prog.holds_perform_bind.mpr ⟨trivial, fun res => ?_⟩
      apply ih.bind
      rintro _ outcomes rfl
      change _ = _
      simp [ClockWorld.next]

theorem keeps_queryRoughtime (outcomes : List Outcome) :
    Keeps (fun w' r => w' = w ∧ r.toOption = (queryRoughtime outcomes).val.toOption)
      (dns (Dns.runResult (queryRoughtime outcomes))) w := by
  have hval : (queryRoughtime outcomes).val =
      .error (.err "No valid Roughtime responses received from any server") ∨
      ∃ m, (queryRoughtime outcomes).val = .ok m := by
    rw [queryRoughtime]
    split
    · exact .inl rfl
    · next hne =>
        obtain ⟨m, hm, -⟩ := val_median_toNat hne
        exact .inr ⟨m, hm⟩
  rw [Dns.runResult]
  rcases hval with hval | ⟨m, hval⟩
  · rw [hval]
    exact ⟨rfl, rfl⟩
  · rw [hval]
    exact ⟨rfl, rfl⟩

theorem keeps_queryMullvadSecureDate (hdate : w.date = none) :
    Keeps (fun w' r => ∃ date, w' = { w with date := date } ∧ r = date.bind parseHttpDate)
      (queryMullvadSecureDate K) w := by
  have hnone : ∃ date, w = { w with date := date } ∧ none = date.bind parseHttpDate := by
    refine ⟨none, ?_, rfl⟩
    rw [← hdate]
  have hleaves : Dns.Leaves (fun _ _ => True)
      (Dns.resolveDomainViaDnscrypt K "am.i.mullvad.net") [] :=
    Dns.leaves_resolveDomainViaDnscrypt fun _ _ _ => trivial
  apply (keeps_dns hleaves).bind
  rintro _ _ ⟨rfl, -⟩
  refine Prog.holds_perform_bind.mpr ⟨trivial, fun built => ?_⟩
  cases built with
  | false => exact hnone
  | true =>
      refine Prog.holds_perform_bind.mpr ⟨trivial, fun response => ?_⟩
      cases response with
      | error e => exact hnone
      | ok header =>
          cases header with
          | none => exact hnone
          | some dateStr => exact ⟨some dateStr, rfl, rfl⟩

/-- **The midpoint is the time that the replies stand for.** -/
theorem keeps_secureMidpoint (houtcomes : w.outcomes = []) (hdate : w.date = none) :
    Keeps (fun w' r => w'.configured = w.configured ∧ w'.set = w.set ∧ r = w'.midpoint ∧
        (w'.date ≠ none → w'.consensus = none))
      (secureMidpoint K) w := by
  apply (keeps_resolveServers _ _).bind
  rintro w ⟨servers, fallbackTime⟩ ⟨rfl, htime⟩
  cases htime
  apply (keeps_awaitRoughtime servers).bind
  intro w₁ outcomes hw₁
  rw [houtcomes, List.nil_append] at hw₁
  subst hw₁
  apply (keeps_queryRoughtime outcomes).bind
  rintro _ r ⟨rfl, hr⟩
  cases r with
  | ok m =>
      refine ⟨rfl, rfl, ?_, fun hne => absurd hdate hne⟩
      rw [ClockWorld.midpoint, ClockWorld.consensus, ← hr]
      rfl
  | error e =>
      apply (keeps_queryMullvadSecureDate (by exact hdate)).bind
      rintro _ t ⟨date, rfl, rfl⟩
      refine ⟨rfl, rfl, ?_, fun _ => hr.symm⟩
      rw [ClockWorld.midpoint, ClockWorld.consensus, ← hr]
      rfl

/-- The clock is set to the midpoint, or the program does not return. -/
theorem keeps_setSystemClock {midpoint : Option UInt64} (hconfigured : w.configured = true)
    (hmidpoint : midpoint = w.midpoint) (hdate : w.date ≠ none → w.consensus = none) :
    Keeps (fun w' _ => w'.set = true) (setSystemClock midpoint) w := by
  cases midpoint with
  | none => exact holds_loader_panicShutdown trivial
  | some midpoint =>
      refine Prog.holds_ite.mpr ⟨fun _ => holds_loader_panicShutdown trivial, fun hfloor => ?_⟩
      have hsetting := clockSetting_midpoint hconfigured hmidpoint.symm (UInt64.not_lt.mp hfloor)
      refine Prog.holds_perform_bind.mpr ⟨⟨hsetting, ?_⟩, fun ok => ?_⟩
      · intro hne
        exact ⟨hconfigured, hdate hne⟩
      · cases ok with
        | false => exact holds_loader_panicShutdown trivial
        | true => exact hconfigured

/-- Once the clock is set, the boot sequence may do what it does. -/
theorem allowed_of_set (w : ClockWorld) (c : Call) (hset : w.set = true) (_ : True) :
    Allowed w (.loader c) := by
  cases c with
  | get url => exact hset
  | spawn cmd => exact hset
  | _ => trivial

/-! ## All runs -/

theorem keeps_initMain (K : Dns.Packages) (X : Externals) :
    Keeps (fun w _ => w.set = true) (initMain K X) .start := by
  apply (keeps_of_only only_prepareSystemEnv _).bind
  rintro _ _ rfl
  apply (keeps_enforceTimeFloor rfl rfl rfl).bind
  rintro _ _ rfl
  apply (keeps_of_only only_waitForEntropy _).bind
  rintro _ _ rfl
  refine Prog.holds_perform_bind.mpr ⟨trivial, fun _ => ?_⟩
  apply (keeps_of_only only_checkNetworkReady _).bind
  rintro _ _ rfl
  refine Prog.holds_perform_bind.mpr ⟨trivial, fun built => ?_⟩
  apply (holds_loader_orShutdown fun _ => trivial).bind
  rintro _ _ ⟨rfl, rfl⟩
  apply (keeps_secureMidpoint rfl rfl).bind
  rintro w midpoint ⟨hconfigured, -, hmidpoint, hdate⟩
  apply (keeps_setSystemClock hconfigured hmidpoint hdate).bind
  intro w _ hset
  refine Prog.holds_perform_bind.mpr ⟨trivial, fun built => ?_⟩
  apply (holds_loader_orShutdown fun _ => trivial).bind
  rintro _ _ ⟨rfl, rfl⟩
  have hmain : Prog.Holds (fun (_ : Unit) _ _ => ()) (fun _ _ => True) (fun _ _ => True)
      (main X) () := Prog.holds_trivial _ _
  exact Prog.holds_embed.mpr ((hmain.frame allowed_of_set (fun _ _ _ hset _ => hset) hset).mono
    fun _ _ hkept => hkept.1)

end Judgement

/-- Only a shutdown and an abort never return. -/
theorem shutdown_or_abort_of_isEmpty {c : InitCall} (h : IsEmpty c.Reply) :
    (∃ message, c = .loader (.shutdown message)) ∨ ∃ s, c = .dns (.abort s) := by
  cases c with
  | loader c =>
      obtain ⟨message, rfl⟩ := eq_shutdown_of_isEmpty h
      exact .inl ⟨message, rfl⟩
  | dns c =>
      cases c with
      | abort s => exact .inr ⟨s, rfl⟩
      | sendDnsQueryUdp ip query => exact h.elim (.error "")
      | sendDnsQueryTcp ip query => exact h.elim (.error "")
      | _ => exact h.elim none
  | systemTime => exact h.elim none
  | readDir path => exact h.elim none
  | querySingleRoughtime srv ip => exact h.elim none
  | clockSettime ts => exact h.elim true
  | buildDateClient ip => exact h.elim true
  | _ => exact h.elim (.error "")

/-- **The clock is never set below the floor.** Every setting of the clock is the floor or, after
the TLS configuration, exactly the midpoint, which is not below the floor; no cast changes a
field. Downloads come after a setting that succeeded, and a run without one ends in a shutdown. -/
theorem clock_floor (K : Dns.Packages) (X : Externals) {t : InitTrace} {o : Option (ℕ × ℕ)}
    (hrun : Prog.Runs (initMain K X) t o) :
    (∀ t₁ ts reply t₂, t = t₁ ++ ⟨.clockSettime ts, reply⟩ :: t₂ →
      ClockSetting (clockWorld t₁) ts) ∧
    (∀ t₁ url reply t₂, t = t₁ ++ ⟨.loader (.get url), reply⟩ :: t₂ →
      (clockWorld t₁).set = true) ∧
    ((clockWorld t).set = true ∨
      o = none ∧ ∃ t₁ message, t = t₁ ++ [⟨.loader (.shutdown message), none⟩]) := by
  obtain ⟨hcalls, hresult⟩ := (keeps_initMain K X).sound hrun
  refine ⟨?_, ?_, ?_⟩
  · intro t₁ ts reply t₂ ht
    have hallowed : Allowed (clockWorld t₁) (.clockSettime ts) := hcalls t₁ _ t₂ ht
    exact hallowed.1
  · intro t₁ url reply t₂ ht
    exact hcalls t₁ _ t₂ ht
  · cases o with
    | some pids => exact .inl (hresult pids rfl)
    | none =>
        right
        obtain ⟨t₁, c, hc, rfl⟩ := hrun.halted
        rcases shutdown_or_abort_of_isEmpty hc with ⟨message, rfl⟩ | ⟨s, rfl⟩
        · exact ⟨rfl, t₁, message, rfl⟩
        · have hallowed : Allowed (clockWorld t₁) (.dns (.abort s)) := hcalls t₁ _ [] rfl
          exact (hallowed trivial).elim

/-! ## A boot with the `Date` fallback -/

/-- No resolver and no Roughtime server answers. -/
def dnsDown : (c : Dns.Call) → Option c.Reply
  | .sendDnsQueryUdp _ _ => some (.error "timed out")
  | .sendDnsQueryTcp _ _ => some (.error "refused")
  | .systemTime => some none
  | .generate => some none
  | .computePublicKey _ => some none
  | .agreeEphemeral _ _ => some none
  | .fill _ => some none
  | .abort _ => none

/-- The clock starts at the epoch, and only the response with the `Date` header arrives. -/
def sampleInitEnv (_ : InitTrace) : (c : InitCall) → Option c.Reply
  | .loader c => sampleEnv [] c
  | .dns c => dnsDown c
  | .createDir _ => some (.ok ())
  | .createDirAll _ => some (.ok ())
  | .configureLoopback => some (.ok ())
  | .readDir _ => some (some ["lo", "eth0"])
  | .ensureInterfaceUp _ => some (.ok true)
  | .openFile _ => some (.ok ())
  | .readExact _ _ => some (.ok [0])
  | .readToString _ => some (.ok "")
  | .systemTime => some (some 0)
  | .clockSettime _ => some true
  | .buildTlsConfig => some (.ok ())
  | .querySingleRoughtime _ _ => some none
  | .buildDateClient _ => some true
  | .getDate _ => some (.ok (some "Mon, 01 Jun 2026 12:41:36 GMT"))
  | .buildClient => some (.ok ())

theorem sampleInitEnv_replies (past : InitTrace) (c : InitCall)
    (h : sampleInitEnv past c = none) : IsEmpty c.Reply := by
  cases c with
  | loader c => cases c <;> first | exact ⟨Empty.elim⟩ | cases h
  | dns c => cases c <;> first | exact ⟨Empty.elim⟩ | cases h
  | _ => cases h

section SampleRuns
variable {α : Type}

theorem runs_sampleInitEnv (p : Init α) (past : InitTrace) :
    Prog.Runs p (Prog.exec sampleInitEnv p past).1 (Prog.exec sampleInitEnv p past).2 :=
  Prog.runs_exec sampleInitEnv_replies p past

theorem returns_of_exec {p : Init α} {a : α} (h : (Prog.exec sampleInitEnv p []).2 = some a) :
    Prog.Returns p a := by
  have hrun := runs_sampleInitEnv p []
  rw [h] at hrun
  exact ⟨_, hrun⟩

end SampleRuns

/-- No certificate is signed, so that no session is established. -/
def sampleDnsPackages : Dns.Packages where
  ed25519 _ _ _ := false
  cipher := Dns.countingCipher
  hchacha20 key _ := key

/-- The boot in the environment above. -/
def sampleInitRun : InitTrace × Option (ℕ × ℕ) :=
  Prog.exec sampleInitEnv (initMain sampleDnsPackages sampleExternals) []

/-- The setting of the clock that an event asks for. -/
def settingOf : Prog.Event InitCall InitCall.Reply → Option Timespec
  | ⟨.clockSettime ts, _⟩ => some ts
  | _ => none

/-- Both settings of the sample boot: the floor, and the time of the header. -/
theorem clock_floor_sample :
    sampleInitRun.1.filterMap settingOf = [floorTimespec, ⟨1780317696, 0⟩] ∧
    (∀ x ∈ sampleInitRun.1, ∀ ts, settingOf x = some ts → ∃ w, ClockSetting w ts) ∧
    (clockWorld sampleInitRun.1).set = true := by
  have hrun : Prog.Runs (initMain sampleDnsPackages sampleExternals) sampleInitRun.1
      sampleInitRun.2 := runs_sampleInitEnv _ []
  obtain ⟨hsettings, -, hset⟩ := clock_floor sampleDnsPackages sampleExternals hrun
  have hsample : sampleInitRun.1.filterMap settingOf = [floorTimespec, ⟨1780317696, 0⟩] ∧
      sampleInitRun.2 ≠ none := by decide +kernel
  refine ⟨hsample.1, ?_, ?_⟩
  · rintro ⟨c, reply⟩ hmem ts hts
    obtain ⟨t₁, t₂, ht⟩ := List.append_of_mem hmem
    cases c with
    | clockSettime ts' =>
        cases hts
        exact ⟨_, hsettings t₁ _ reply t₂ ht⟩
    | _ => cases hts
  · exact hset.resolve_right fun hnone => hsample.2 hnone.1

end SevMicroLoader.Boot
