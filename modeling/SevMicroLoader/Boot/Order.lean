import SevMicroLoader.Boot.Chain
import SevMicroLoader.Boot.Clock
import SevMicroLoader.Lib.Stages

/-!
# The boot in order

The calls of a boot belong to stages, from the mounts to the attestation server. `boot_in_order`
says that no run goes back to an earlier one: nothing is sent before the kernel is hardened, nothing
is deployed before it was verified, and nothing is started before the lockdown. Pauses, settings of
the clock and the shutdown come in between.
-/

namespace SevMicroLoader.Boot
open Rust Time Prog

/-! ## Stages -/

/-- The stages of a boot, in their order. -/
inductive Stage
  /-- Mounts, network interfaces and sysctls. -/
  | prepare
  | timeFloor
  | entropy
  | network
  | tls
  /-- The names of the time servers, and their times. -/
  | time
  | client
  | binary
  | hash
  | signature
  | verify
  | deploy
  | lockdown
  | server
  | device
  | attestation
  deriving DecidableEq

/-- The place of a stage in the order. -/
def Stage.rank (s : Stage) : ℕ := s.ctorIdx

/-- The stage of a call of the boot sequence. -/
def loaderStage : Call → Option Stage
  | .get url => some (if url = binaryUrl then .binary else if url = hashUrl then .hash
      else .signature)
  | .sleep _ => none
  | .verify _ _ _ => some .verify
  | .write path _ => some (if path = targetPath then .deploy else .prepare)
  | .setPermissions path _ => some (if path = targetPath then .deploy else .device)
  | .mount _ _ _ flags _ => some (if .remount ∈ flags then .lockdown else .prepare)
  | .pathExists _ => some .device
  | .currentExe => some .attestation
  | .spawn cmd => some (if cmd.args = [] then .server else .attestation)
  | .shutdown _ => none

/-- The stage of a call of PID 1; a setting of the clock has none. -/
def stageOf : InitCall → Option Stage
  | .loader c => loaderStage c
  | .dns _ => some .time
  | .createDir _ => some .prepare
  | .createDirAll _ => some .prepare
  | .configureLoopback => some .prepare
  | .readDir _ => some .prepare
  | .ensureInterfaceUp _ => some .prepare
  | .openFile _ => some .entropy
  | .readExact _ _ => some .entropy
  | .readToString _ => some .network
  | .systemTime => some .timeFloor
  | .clockSettime _ => none
  | .buildTlsConfig => some .tls
  | .querySingleRoughtime _ _ => some .time
  | .buildDateClient _ => some .time
  | .getDate _ => some .time
  | .buildClient => some .client

/-- The place of a call of the boot sequence. -/
def loaderRank (c : Call) : Option ℕ := (loaderStage c).map Stage.rank

/-- The place of a call of PID 1. -/
def rankOf (c : InitCall) : Option ℕ := (stageOf c).map Stage.rank

/-- The calls at a stage, or at none. -/
abbrev At (s : Stage) : InitCall → Prop := AtStage rankOf s.rank

/-- The same of the boot sequence. -/
abbrev LoaderAt (s : Stage) : Call → Prop := AtStage loaderRank s.rank

theorem at_of_stage {s : Stage} {c : InitCall} (h : stageOf c = some s) : At s c := by
  intro m hm
  rw [rankOf, h] at hm
  exact (Option.some.inj hm).symm

theorem at_of_none {s : Stage} {c : InitCall} (h : stageOf c = none) : At s c := by
  intro m hm
  rw [rankOf, h] at hm
  cases hm

theorem loaderAt_of_stage {s : Stage} {c : Call} (h : loaderStage c = some s) : LoaderAt s c :=
  at_of_stage (c := .loader c) h

theorem loaderAt_of_none {s : Stage} {c : Call} (h : loaderStage c = none) : LoaderAt s c :=
  at_of_none (c := .loader c) h

/-! ## The steps of the boot sequence -/

section Loader
variable {α : Type} {s : Stage}

theorem only_orShutdown_of {A : Call → Prop} (h : ∀ message, A (.shutdown message))
    (what : String) (result : Except String α) : Only A (orShutdown what result) := by
  cases result with
  | ok a => exact only_pure a
  | error e => exact ⟨h _, fun r => r.elim⟩

theorem only_panicShutdown_at (message : String) :
    Only (LoaderAt s) (panicShutdown message : Loader α) :=
  ⟨loaderAt_of_none rfl, fun r => r.elim⟩

theorem only_orShutdown_at (what : String) (result : Except String α) :
    Only (LoaderAt s) (orShutdown what result) :=
  only_orShutdown_of (fun _ => loaderAt_of_none rfl) what result

theorem only_perform_orShutdown {c : Call} {f : c.Reply → Except String α} {what : String}
    (h : loaderStage c = some s) :
    Only (LoaderAt s) (perform c >>= fun r => orShutdown what (f r)) :=
  Only.call (loaderAt_of_stage h) fun r => only_orShutdown_at what (f r)

theorem only_downloadWithRetry {url : String} (desc : String)
    (h : loaderStage (.get url) = some s) : Only (LoaderAt s) (downloadWithRetry url desc) := by
  rw [downloadWithRetry]
  generalize maxDownloadRetries = left
  generalize "" = lastError
  induction left generalizing lastError with
  | zero => exact only_panicShutdown_at _
  | succ left ih =>
      rw [downloadAttempts_succ]
      have hdelay : Only (LoaderAt s) (delayBefore (maxDownloadRetries - left)) := by
        rw [delayBefore]
        split
        · exact Only.call (loaderAt_of_none rfl) fun _ => only_pure ()
        · exact only_pure ()
      refine hdelay.bind fun _ => Only.call (loaderAt_of_stage h) fun reply => ?_
      rcases afterReply_cases url desc left reply with ⟨body, -, heq⟩ | ⟨-, e, heq⟩
      · rw [heq]
        exact only_pure body
      · rw [heq]
        exact ih e

theorem only_verifySignature (appBytes sigBytes : Bytes) :
    Only (LoaderAt .verify) (verifySignature appBytes sigBytes) := by
  refine Only.call (loaderAt_of_stage rfl) fun valid1 => ?_
  refine Only.call (loaderAt_of_stage rfl) fun valid2 => ?_
  refine Only.call (loaderAt_of_stage rfl) fun valid3 => ?_
  split
  · exact only_panicShutdown_at _
  · exact only_pure ()

theorem only_deployBinary (appBytes : Bytes) :
    Only (LoaderAt .deploy) (deployBinary appBytes) := by
  refine Only.call (loaderAt_of_stage rfl) fun written => ?_
  refine (only_orShutdown_at _ written).bind fun _ => ?_
  exact only_perform_orShutdown rfl

theorem only_lockdownFilesystem : Only (LoaderAt .lockdown) lockdownFilesystem := by
  refine Only.bind (only_perform_orShutdown rfl) fun _ => ?_
  refine Only.bind (only_perform_orShutdown rfl) fun _ => ?_
  exact only_perform_orShutdown rfl

theorem only_exposeSevGuest : Only (LoaderAt .device) exposeSevGuest := by
  refine Only.call (loaderAt_of_stage rfl) fun found => ?_
  split
  · exact Only.call (loaderAt_of_stage rfl) fun _ => only_pure ()
  · exact only_pure ()

theorem only_perform {c : Call} (h : loaderStage c = some s) :
    Only (LoaderAt s) (perform c : Loader c.Reply) :=
  ⟨loaderAt_of_stage h, fun _ => trivial⟩

theorem ascends_spawnChildren (hashHex : String) :
    Ascends loaderRank Stage.attestation.rank Stage.server.rank (spawnChildren hashHex) := by
  refine (only_perform (s := .server) rfl).ascends_bind (fun server => ?_) (by decide) (by decide)
  refine (only_orShutdown_at (s := .server) _ server).ascends_bind (fun childPid => ?_)
    (by decide) (by decide)
  refine only_exposeSevGuest.ascends_bind (fun _ => ?_) (by decide) (by decide)
  refine (only_perform (s := .attestation) rfl).ascends_bind (fun exe => ?_) (by decide) (by decide)
  refine (only_perform (s := .attestation) rfl).ascends_bind (fun attestation => ?_)
    (by decide) (by decide)
  refine (only_orShutdown_at (s := .attestation) _ attestation).ascends_bind (fun attestPid => ?_)
    (by decide) (by decide)
  exact ascends_pure _

/-- The boot sequence goes from the binary to the attestation server. -/
theorem ascends_main (X : Externals) :
    Ascends loaderRank Stage.attestation.rank Stage.binary.rank (main X) := by
  refine (only_downloadWithRetry (s := .binary) _ rfl).ascends_bind (fun appBytes => ?_)
    (by decide) (by decide)
  refine (only_downloadWithRetry (s := .hash) _ rfl).ascends_bind (fun text => ?_)
    (by decide) (by decide)
  dsimp only
  split
  · exact (only_panicShutdown_at (s := .attestation) _).ascends.mono (by decide)
  refine (only_downloadWithRetry (s := .signature) _ rfl).ascends_bind (fun sigBytes => ?_)
    (by decide) (by decide)
  refine (only_verifySignature appBytes sigBytes).ascends_bind (fun _ => ?_) (by decide) (by decide)
  refine (only_deployBinary appBytes).ascends_bind (fun _ => ?_) (by decide) (by decide)
  refine only_lockdownFilesystem.ascends_bind (fun _ => ?_) (by decide) (by decide)
  exact (ascends_spawnChildren _).mono (by decide)

end Loader

/-! ## The steps before -/

section Init
variable {α : Type} {s : Stage}

theorem only_loader_at {p : Loader α} (hp : Only (LoaderAt s) p) : Only (At s) (loader p) :=
  Only.embed (f := InitCall.loader) hp

theorem only_mountOrShutdown_at {source fstype data : Option String} {target what : String}
    {flags : List MsFlag} (hflags : .remount ∉ flags) :
    Only (At .prepare) (loader (mountOrShutdown source target fstype flags data what)) := by
  refine only_loader_at (only_perform_orShutdown ?_)
  rw [loaderStage, if_neg hflags]

theorem only_initNetworking_of {A : InitCall → Prop} (hloopback : A .configureLoopback)
    (hdir : ∀ path, A (.readDir path)) (hup : ∀ name, A (.ensureInterfaceUp name)) :
    Only A initNetworking := by
  have hinterfaces : ∀ names, Only A (configureInterfaces names) := by
    intro names
    induction names with
    | nil => exact only_pure ()
    | cons name names ih =>
        rw [configureInterfaces]
        split
        · exact ih
        · exact Only.call (hup name) fun _ => ih
  refine Only.call hloopback fun _ => Only.call (hdir _) fun names => ?_
  cases names with
  | none => exact only_pure ()
  | some names => exact hinterfaces names

theorem only_writeSysctls_at {entries : List (String × String)}
    (h : ∀ entry ∈ entries, entry.1 ≠ targetPath) : Only (At .prepare) (writeSysctls entries) := by
  induction entries with
  | nil => exact only_pure ()
  | cons entry entries ih =>
      refine Only.call (at_of_stage ?_) fun _ => ih fun e he => h e (List.mem_cons_of_mem _ he)
      rw [stageOf, loaderStage, if_neg (h entry List.mem_cons_self)]

theorem sysctls_ne_targetPath : ∀ entry ∈ sysctls, entry.1 ≠ targetPath := by decide

theorem only_prepareSystemEnv_at : Only (At .prepare) prepareSystemEnv := by
  refine (only_mountOrShutdown_at (by decide)).bind fun _ => ?_ -- /proc
  refine (only_mountOrShutdown_at (by decide)).bind fun _ => ?_ -- /sys
  refine (only_mountOrShutdown_at (by decide)).bind fun _ => ?_ -- /dev
  refine Only.call (at_of_stage rfl) fun _ => Only.call (at_of_stage rfl) fun _ => ?_ -- /dev/pts
  refine (only_mountOrShutdown_at (by decide)).bind fun _ => ?_ -- /tmp
  refine Only.call (at_of_stage rfl) fun _ => ?_
  refine (only_mountOrShutdown_at (by decide)).bind fun _ => ?_ -- /run
  refine Only.call (at_of_stage rfl) fun created => ?_
  refine (only_loader_at (only_orShutdown_at _ created)).bind fun _ => ?_
  refine (only_mountOrShutdown_at (by decide)).bind fun _ => ?_ -- /run/payload
  refine (only_initNetworking_of (at_of_stage rfl) (fun _ => at_of_stage rfl)
    fun _ => at_of_stage rfl).bind fun _ => ?_
  exact only_writeSysctls_at sysctls_ne_targetPath

theorem only_enforceTimeFloor_at : Only (At .timeFloor) enforceTimeFloor := by
  refine Only.call (at_of_stage rfl) fun reading => ?_
  dsimp only
  split
  · exact Only.call (at_of_none rfl) fun _ => only_pure ()
  · exact only_pure ()

theorem only_waitForEntropy_at : Only (At .entropy) waitForEntropy := by
  refine Only.call (at_of_stage rfl) fun opened => ?_
  cases opened with
  | error e => exact only_pure ()
  | ok _ => exact Only.call (at_of_stage rfl) fun _ => only_pure ()

theorem only_dns_at (p : Dns.Client α) : Only (At .time) (dns p) := by
  apply only_embed
  intro c
  exact at_of_stage rfl

variable (K : Dns.Packages)

theorem only_resolveServers_at (servers : List RoughtimeServer)
    (resolved : List (RoughtimeServer × IpAddr)) (fallbackTime : Option UInt64) :
    Only (At .time) (resolveServers K servers resolved fallbackTime) := by
  induction servers generalizing resolved fallbackTime with
  | nil => exact only_pure _
  | cons srv servers ih =>
      refine (only_dns_at _).bind fun res => ?_
      cases res with
      | ok res =>
          obtain ⟨ip, fbTime⟩ := res
          exact ih _ _
      | error e =>
          dsimp only
          split
          · exact ih _ _
          · exact ih _ _

theorem only_awaitRoughtime_at (servers : List (RoughtimeServer × IpAddr)) :
    Only (At .time) (awaitRoughtime servers) := by
  induction servers with
  | nil => exact only_pure _
  | cons server servers ih =>
      obtain ⟨srv, ip⟩ := server
      exact Only.call (at_of_stage rfl) fun res => ih.bind fun outcomes => only_pure _

theorem only_queryMullvadSecureDate_at : Only (At .time) (queryMullvadSecureDate K) := by
  refine (only_dns_at _).bind fun ip => Only.call (at_of_stage rfl) fun built => ?_
  split
  · refine Only.call (at_of_stage rfl) fun response => ?_
    split
    · exact only_pure _
    · exact only_pure _
  · exact only_pure _

theorem only_secureMidpoint_at : Only (At .time) (secureMidpoint K) := by
  refine (only_resolveServers_at K _ _ _).bind fun resolved => ?_
  obtain ⟨servers, fallbackTime⟩ := resolved
  refine (only_awaitRoughtime_at servers).bind fun outcomes => ?_
  refine (only_dns_at _).bind fun r => ?_
  cases r with
  | ok m => exact only_pure _
  | error e =>
      dsimp only
      split
      · exact only_pure _
      · exact (only_queryMullvadSecureDate_at K).bind fun _ => only_pure _

theorem only_setSystemClock_at (midpoint : Option UInt64) :
    Only (At s) (setSystemClock midpoint) := by
  cases midpoint with
  | none => exact only_loader_at (only_panicShutdown_at _)
  | some midpoint =>
      dsimp only [setSystemClock]
      split
      · exact only_loader_at (only_panicShutdown_at _)
      · refine Only.call (at_of_none rfl) fun ok => ?_
        split
        · exact only_pure ()
        · exact only_loader_at (only_panicShutdown_at _)

/-- Between the preparation and the downloads: the clock, and the HTTP client. -/
def setUp : Init Unit := do
  enforceTimeFloor
  waitForEntropy
  loader (perform (Call.sleep networkSettleSecs))
  checkNetworkReady
  loader (orShutdown "TLS 1.3 configuration failed: " (← perform InitCall.buildTlsConfig))
  let midpoint ← secureMidpoint K
  setSystemClock midpoint
  loader (orShutdown "Failed to build HTTP client: " (← perform InitCall.buildClient))

theorem initMain_eq (X : Externals) : initMain K X =
    prepareSystemEnv >>= fun _ => setUp K >>= fun _ => loader (main X) := by
  rw [initMain, setUp]
  simp only [bind_assoc]

theorem ascends_setUp : Ascends rankOf Stage.client.rank Stage.timeFloor.rank (setUp K) := by
  refine only_enforceTimeFloor_at.ascends_bind (fun _ => ?_) (by decide) (by decide)
  refine only_waitForEntropy_at.ascends_bind (fun _ => ?_) (by decide) (by decide)
  have hsettle : Only (At .entropy) (loader (perform (Call.sleep networkSettleSecs))) :=
    only_loader_at ⟨loaderAt_of_none rfl, fun _ => trivial⟩
  refine hsettle.ascends_bind (fun _ => ?_) (by decide) (by decide)
  have hcheck : Only (At .network) checkNetworkReady :=
    Only.call (at_of_stage rfl) fun _ => only_pure ()
  refine hcheck.ascends_bind (fun _ => ?_) (by decide) (by decide)
  have hperform : ∀ {s : Stage} {c : InitCall}, stageOf c = some s →
      Only (At s) (perform c : Init c.Reply) := fun h => ⟨at_of_stage h, fun _ => trivial⟩
  refine (hperform (c := .buildTlsConfig) rfl).ascends_bind (fun built => ?_)
    (by decide) (by decide)
  refine (only_loader_at (s := .tls) (only_orShutdown_at _ built)).ascends_bind (fun _ => ?_)
    (by decide) (by decide)
  refine (only_secureMidpoint_at K).ascends_bind (fun midpoint => ?_) (by decide) (by decide)
  refine (only_setSystemClock_at (s := .time) midpoint).ascends_bind (fun _ => ?_)
    (by decide) (by decide)
  refine (hperform (c := .buildClient) rfl).ascends_bind (fun built => ?_) (by decide) (by decide)
  exact (only_loader_at (s := .client) (only_orShutdown_at _ built)).ascends

theorem ascends_afterPreparation (X : Externals) :
    Ascends rankOf Stage.attestation.rank Stage.timeFloor.rank
      (setUp K >>= fun _ => loader (main X)) := by
  refine (ascends_setUp K).bind (fun _ => ?_) (by decide) (by decide)
  exact (Ascends.embed (f := InitCall.loader) (ascends_main X)).mono (by decide)

/-- **A boot goes through its stages in order.** -/
theorem ascends_initMain (X : Externals) :
    Ascends rankOf Stage.attestation.rank Stage.prepare.rank (initMain K X) := by
  rw [initMain_eq]
  exact only_prepareSystemEnv_at.ascends_bind
    (fun _ => (ascends_afterPreparation K X).mono (by decide)) (by decide) (by decide)

end Init

/-! ## The sysctls -/

/-- The sysctls that were written, and how. -/
def sysctlOf : Event InitCall InitCall.Reply → Option (String × Bytes)
  | ⟨.loader (.write path content), _⟩ => if path = targetPath then none else some (path, content)
  | _ => none

/-- The calls that write nothing. -/
def WritesNothing : InitCall → Prop
  | .loader (.write _ _) => False
  | _ => True

/-- A run that writes these. -/
def Wrote (entries : List (String × String)) (t : InitTrace) : Prop :=
  t.filterMap sysctlOf = entries.map fun entry => (entry.1, bstr entry.2)

section Sysctls
variable {α β : Type} {t : InitTrace}

theorem wrote_nil_of_only {p : Init α} {o : Option α} (hp : Only WritesNothing p)
    (hrun : Runs p t o) : Wrote [] t := by
  refine List.filterMap_eq_nil_iff.mpr fun x hx => ?_
  have hcall := hp.sound hrun x hx
  obtain ⟨c, r⟩ := x
  cases c with
  | loader c =>
      cases c with
      | write path content => exact hcall.elim
      | _ => rfl
  | _ => rfl

theorem Wrote.append {entries entries' : List (String × String)} {t' : InitTrace}
    (h : Wrote entries t) (h' : Wrote entries' t') : Wrote (entries ++ entries') (t ++ t') := by
  rw [Wrote, List.filterMap_append, List.map_append, h, h']

/-- What comes behind a part that writes nothing. -/
theorem Runs.wrote_of_bind {p : Init α} {f : α → Init β} {b : β} {entries : List (String × String)}
    (hrun : Runs (p >>= f) t (some b)) (hp : Only WritesNothing p)
    (hf : ∀ a t₂, Runs (f a) t₂ (some b) → Wrote entries t₂) : Wrote entries t := by
  rcases hrun.of_bind with ⟨t₁, a, t₂, rfl, h₁, h₂⟩ | ⟨-, hnone⟩
  · exact (wrote_nil_of_only hp h₁).append (hf a t₂ h₂)
  · cases hnone

theorem wrote_writeSysctls {entries : List (String × String)}
    (h : ∀ entry ∈ entries, entry.1 ≠ targetPath) (hrun : Runs (writeSysctls entries) t (some ())) :
    Wrote entries t := by
  induction entries generalizing t with
  | nil =>
      obtain ⟨rfl, -⟩ := Runs.of_pure hrun
      rfl
  | cons entry entries ih =>
      obtain ⟨r, t', rfl, hrest⟩ := Runs.of_replied (.ok ()) hrun
      have hrest' := ih (fun e he => h e (List.mem_cons_of_mem _ he)) hrest
      have hfirst : sysctlOf ⟨.loader (.write entry.1 (bstr entry.2)), some r⟩ =
          some (entry.1, bstr entry.2) := if_neg (h entry List.mem_cons_self)
      rw [Wrote, List.filterMap_cons_some hfirst, hrest', List.map_cons]

theorem only_mountOrShutdown_wrote {source fstype data : Option String} {target what : String}
    {flags : List MsFlag} :
    Only WritesNothing (loader (mountOrShutdown source target fstype flags data what)) :=
  Only.embed (f := InitCall.loader)
    (Only.call trivial fun _ => only_orShutdown_of (fun _ => trivial) _ _)

/-- The preparation ends with the sysctls, each written once. -/
theorem wrote_prepareSystemEnv (hrun : Runs prepareSystemEnv t (some ())) : Wrote sysctls t := by
  refine Runs.wrote_of_bind hrun only_mountOrShutdown_wrote fun _ t hrun => ?_ -- /proc
  refine Runs.wrote_of_bind hrun only_mountOrShutdown_wrote fun _ t hrun => ?_ -- /sys
  refine Runs.wrote_of_bind hrun only_mountOrShutdown_wrote fun _ t hrun => ?_ -- /dev
  have hperform : ∀ {c : InitCall}, WritesNothing c →
      Only WritesNothing (perform c : Init c.Reply) := fun h => ⟨h, fun _ => trivial⟩
  refine Runs.wrote_of_bind hrun (hperform trivial) fun _ t hrun => ?_ -- /dev/pts
  refine Runs.wrote_of_bind hrun (hperform trivial) fun _ t hrun => ?_
  refine Runs.wrote_of_bind hrun only_mountOrShutdown_wrote fun _ t hrun => ?_ -- /tmp
  refine Runs.wrote_of_bind hrun (hperform trivial) fun _ t hrun => ?_
  refine Runs.wrote_of_bind hrun only_mountOrShutdown_wrote fun _ t hrun => ?_ -- /run
  refine Runs.wrote_of_bind hrun (hperform trivial) fun created t hrun => ?_
  refine Runs.wrote_of_bind hrun (Only.embed (f := InitCall.loader)
    (only_orShutdown_of (fun _ => trivial) _ created)) fun _ t hrun => ?_
  refine Runs.wrote_of_bind hrun only_mountOrShutdown_wrote fun _ t hrun => ?_ -- /run/payload
  refine Runs.wrote_of_bind hrun (only_initNetworking_of trivial (fun _ => trivial)
    fun _ => trivial) fun _ t hrun => ?_
  exact wrote_writeSysctls sysctls_ne_targetPath hrun

end Sysctls

theorem stageOf_of_sysctlOf {x : Event InitCall InitCall.Reply} (h : sysctlOf x ≠ none) :
    stageOf x.1 = some .prepare := by
  obtain ⟨c, r⟩ := x
  cases c with
  | loader c =>
      cases c with
      | write path content =>
          have hpath : path ≠ targetPath := fun heq => h (if_pos heq)
          rw [stageOf, loaderStage, if_neg hpath]
      | _ => exact absurd rfl h
  | _ => exact absurd rfl h

theorem eq_prepare_of_rank {s : Stage} (h : s.rank = Stage.prepare.rank) : s = .prepare := by
  cases s <;> first | rfl | cases h

/-- A call that belongs to a stage behind the preparation. -/
def Prepared (c : InitCall) : Prop := ∃ s, stageOf c = some s ∧ s ≠ .prepare

/-- **The boot is in order.** No run goes back to an earlier stage, and a run that gets past the
preparation has written all the sysctls, each once and in order. -/
theorem boot_in_order (K : Dns.Packages) (X : Externals) {t : InitTrace} {o : Option (ℕ × ℕ)}
    (hrun : Runs (initMain K X) t o) :
    (stages rankOf t).Pairwise (· ≤ ·) ∧
    ((∃ x ∈ t, Prepared x.1) →
      t.filterMap sysctlOf = sysctls.map fun entry => (entry.1, bstr entry.2)) := by
  refine ⟨((ascends_initMain K X).sound hrun).1, ?_⟩
  rintro ⟨x, hx, s, hs, hne⟩
  rw [initMain_eq] at hrun
  rcases hrun.of_bind with ⟨t₁, _, t₂, rfl, h₁, h₂⟩ | ⟨hstop, -⟩
  · have hrest : Wrote [] t₂ := by
      refine List.filterMap_eq_nil_iff.mpr fun y hy => ?_
      by_contra hne
      have hprepare := stageOf_of_sysctlOf hne
      have hmem : Stage.prepare.rank ∈ stages rankOf t₂ :=
        List.mem_filterMap.mpr ⟨y, hy, by rw [rankOf, hprepare]; rfl⟩
      exact absurd (((ascends_afterPreparation K X).sound h₂).2 _ hmem).1 (by decide)
    have hwrote := (wrote_prepareSystemEnv h₁).append hrest
    rwa [List.append_nil] at hwrote
  · have hrank := only_prepareSystemEnv_at.sound hstop x hx s.rank (by rw [rankOf, hs]; rfl)
    exact absurd (eq_prepare_of_rank hrank) hne

/-- In the sample boot, the sysctls are written before the client is built. -/
theorem boot_in_order_sample :
    (stages rankOf sampleInitRun.1).Pairwise (· ≤ ·) ∧
    sampleInitRun.1.filterMap sysctlOf = sysctls.map fun entry => (entry.1, bstr entry.2) := by
  have hrun : Runs (initMain sampleDnsPackages sampleExternals) sampleInitRun.1 sampleInitRun.2 :=
    runs_sampleInitEnv _ []
  obtain ⟨horder, hwrote⟩ := boot_in_order sampleDnsPackages sampleExternals hrun
  have hclient : sampleInitRun.1.any fun x => stageOf x.1 = some .client := by decide +kernel
  obtain ⟨x, hx, hstage⟩ := List.any_eq_true.mp hclient
  exact ⟨horder, hwrote ⟨x, hx, .client, of_decide_eq_true hstage, by decide⟩⟩

end SevMicroLoader.Boot
