import SevMicroLoader.Boot.Sequence
import SevMicroLoader.Dns.Establish
import SevMicroLoader.Time.Consensus
import SevMicroLoader.Time.Floor
import SevMicroLoader.Time.HttpDate

/-!
# From the start of PID 1 to the downloads

`initMain` is `main` of the loader proper: the mounts and the network, the time floor, the clock
from Roughtime or from a `Date` header, and then the boot sequence. Its calls (`InitCall`) include
those of the boot sequence and those of the DNSCrypt client, whose programs are embedded.
-/

namespace SevMicroLoader.Boot
open Rust Time

/-! ## Calls -/

/-- What PID 1 asks of its environment. -/
inductive InitCall
  | loader (c : Call)
  | dns (c : Dns.Call)
  | createDir (path : String)
  | createDirAll (path : String)
  | configureLoopback
  /-- The names in a directory, when it can be read. -/
  | readDir (path : String)
  | ensureInterfaceUp (name : String)
  | openFile (path : String)
  | readExact (path : String) (n : ℕ)
  | readToString (path : String)
  /-- `SystemTime::now().duration_since(UNIX_EPOCH)`, in whole seconds. -/
  | systemTime
  /-- `clock_settime(CLOCK_REALTIME, &ts) == 0`. -/
  | clockSettime (ts : Timespec)
  | buildTlsConfig
  /-- The task of a Roughtime query, when it is awaited. -/
  | querySingleRoughtime (srv : RoughtimeServer) (ip : IpAddr)
  | buildDateClient (ip : IpAddr)
  /-- The request to `am.i.mullvad.net`, with the text of the `Date` header of the response. -/
  | getDate (ip : IpAddr)
  | buildClient

/-- What the environment answers. -/
abbrev InitCall.Reply : InitCall → Type
  | .loader c => c.Reply
  | .dns c => c.Reply
  | .createDir _ => Except String Unit
  | .createDirAll _ => Except String Unit
  | .configureLoopback => Except String Unit
  | .readDir _ => Option (List String)
  | .ensureInterfaceUp _ => Except String Bool
  | .openFile _ => Except String Unit
  | .readExact _ _ => Except String Bytes
  | .readToString _ => Except String String
  | .systemTime => Option UInt64
  | .clockSettime _ => Bool
  | .buildTlsConfig => Except String Unit
  | .querySingleRoughtime _ _ => Option (Except String UInt64)
  | .buildDateClient _ => Bool
  | .getDate _ => Except String (Option String)
  | .buildClient => Except String Unit

/-- A program of PID 1. -/
abbrev Init := Prog InitCall InitCall.Reply

/-- A trace of `initMain`. -/
abbrev InitTrace := List (Prog.Event InitCall InitCall.Reply)

variable {α : Type}

/-- A program of the boot sequence, run by PID 1. -/
def loader (p : Loader α) : Init α := Prog.embed InitCall.loader p

/-- A program of the DNSCrypt client, run by PID 1. -/
def dns (p : Dns.Client α) : Init α := Prog.embed InitCall.dns p

section Shutdown
variable {σ : Type} {next : σ → (c : InitCall) → c.Reply → σ} {P : σ → InitCall → Prop}
  {Q : σ → α → Prop} {s : σ}

theorem holds_loader_panicShutdown {message : String} (h : P s (.loader (.shutdown message))) :
    Prog.Holds next P Q (loader (panicShutdown message)) s :=
  Prog.holds_embed.mpr (holds_panicShutdown h)

theorem holds_loader_orShutdown {what : String} {result : Except String α}
    (h : ∀ message, P s (.loader (.shutdown message))) :
    Prog.Holds next P (fun s' a => s' = s ∧ result = .ok a) (loader (orShutdown what result))
      s := by
  apply Prog.holds_embed.mpr
  apply holds_orShutdown
  · intro e _
    exact h _
  · intro a ha
    exact ⟨rfl, ha⟩

end Shutdown

/-! ## The environment -/

/-- The loop over the names, which leaves the loopback interface out. -/
def configureInterfaces : List String → Init Unit
  | [] => pure ()
  | name :: names => do
      if name = "lo" then configureInterfaces names
      else
        let _ ← Prog.perform (InitCall.ensureInterfaceUp name)
        configureInterfaces names

/-- Failures are only logged. -/
def initNetworking : Init Unit := do
  let _ ← Prog.perform InitCall.configureLoopback
  match ← Prog.perform (InitCall.readDir "/sys/class/net") with
  | some names => configureInterfaces names
  | none => pure ()

/-- `hardening_sysctls`: the path and the value of each. -/
def sysctls : List (String × String) :=
  [("/proc/sys/net/ipv4/conf/all/rp_filter", "1"),
   ("/proc/sys/net/ipv4/conf/default/rp_filter", "1"),
   ("/proc/sys/net/ipv4/conf/all/accept_redirects", "0"),
   ("/proc/sys/net/ipv4/conf/default/accept_redirects", "0"),
   ("/proc/sys/net/ipv4/conf/all/send_redirects", "0"),
   ("/proc/sys/net/ipv4/conf/default/send_redirects", "0"),
   ("/proc/sys/net/ipv4/conf/all/secure_redirects", "0"),
   ("/proc/sys/net/ipv4/conf/default/secure_redirects", "0"),
   ("/proc/sys/net/ipv4/icmp_echo_ignore_broadcasts", "1"),
   ("/proc/sys/net/ipv4/icmp_ignore_bogus_error_responses", "1"),
   ("/proc/sys/net/ipv4/tcp_syncookies", "1"),
   ("/proc/sys/net/ipv4/tcp_rfc1337", "1"),
   ("/proc/sys/kernel/kptr_restrict", "2"),
   ("/proc/sys/kernel/dmesg_restrict", "1"),
   ("/proc/sys/kernel/unprivileged_bpf_disabled", "1"),
   ("/proc/sys/vm/unprivileged_userfaultfd", "0"),
   ("/proc/sys/kernel/yama/ptrace_scope", "3"),
   ("/proc/sys/kernel/kexec_load_disabled", "1"),
   ("/proc/sys/kernel/perf_event_paranoid", "3"),
   ("/proc/sys/fs/protected_symlinks", "1"),
   ("/proc/sys/fs/protected_hardlinks", "1"),
   ("/proc/sys/fs/protected_fifos", "2"),
   ("/proc/sys/fs/protected_regular", "2"),
   ("/proc/sys/net/core/somaxconn", "8192"),
   ("/proc/sys/net/core/netdev_max_backlog", "16384"),
   ("/proc/sys/net/ipv4/tcp_max_syn_backlog", "8192"),
   ("/proc/sys/net/ipv4/tcp_synack_retries", "2"),
   ("/proc/sys/net/ipv4/tcp_fin_timeout", "10"),
   ("/proc/sys/net/ipv4/tcp_keepalive_time", "60"),
   ("/proc/sys/net/ipv4/tcp_keepalive_intvl", "10"),
   ("/proc/sys/net/ipv4/tcp_keepalive_probes", "6"),
   ("/proc/sys/net/ipv4/tcp_max_orphans", "16384"),
   ("/proc/sys/net/ipv4/tcp_tw_reuse", "1"),
   ("/proc/sys/net/ipv4/icmp_echo_ignore_all", "1")]

/-- A write that fails is only logged. -/
def writeSysctls : List (String × String) → Init Unit
  | [] => pure ()
  | (path, val) :: rest => do
      let _ ← Prog.perform (InitCall.loader (.write path (bstr val)))
      writeSysctls rest

/-- Each entry of the table is written, in order. -/
def applyKernelHardening : Init Unit := writeSysctls sysctls

/-- The flags of `/proc` and `/sys`. -/
def nosuidNodevNoexec : List MsFlag := [.nosuid, .nodev, .noexec]

/-- The devpts mount and the directories of `/dev/pts` and `/run` may fail. -/
def prepareSystemEnv : Init Unit := do
  loader (mountOrShutdown (some "proc") "/proc" (some "proc") nosuidNodevNoexec none
    "Failed to mount /proc: ")
  loader (mountOrShutdown (some "sysfs") "/sys" (some "sysfs") nosuidNodevNoexec none
    "Failed to mount /sys: ")
  loader (mountOrShutdown (some "devtmpfs") "/dev" (some "devtmpfs") [.nosuid] none
    "Failed to mount /dev: ")
  let _ ← Prog.perform (InitCall.createDir "/dev/pts")
  let _ ← Prog.perform
    (InitCall.loader (.mount (some "devpts") "/dev/pts" (some "devpts") [] none))
  loader (mountOrShutdown (some "tmpfs") "/tmp" (some "tmpfs") [.nosuid, .nodev, .noexec]
    (some "size=64m,mode=1700") "Failed to mount /tmp: ")
  let _ ← Prog.perform (InitCall.createDirAll "/run")
  loader (mountOrShutdown (some "tmpfs") "/run" (some "tmpfs") [.nosuid, .nodev, .noexec]
    (some "size=16m,mode=0755") "Failed to mount /run: ")
  loader (orShutdown ("Failed to create " ++ payloadDir ++ ": ")
    (← Prog.perform (InitCall.createDirAll payloadDir)))
  loader (mountOrShutdown (some "tmpfs") payloadDir (some "tmpfs") [.nosuid, .nodev]
    (some "size=256m,mode=0755") ("Failed to mount " ++ payloadDir ++ ": "))
  initNetworking
  applyKernelHardening

/-- The calls of `initNetworking` and `applyKernelHardening`: they touch neither the mounts nor the
clock. -/
def Harmless : InitCall → Prop
  | .configureLoopback => True
  | .readDir _ => True
  | .ensureInterfaceUp _ => True
  | .loader (.write _ _) => True
  | _ => False

theorem only_configureInterfaces (names : List String) :
    Prog.Only Harmless (configureInterfaces names) := by
  induction names with
  | nil => exact Prog.only_pure ()
  | cons name names ih =>
      rw [configureInterfaces]
      split
      · exact ih
      · exact Prog.Only.call trivial fun _ => ih

theorem only_initNetworking : Prog.Only Harmless initNetworking := by
  refine Prog.Only.call trivial fun _ => Prog.Only.call trivial fun names => ?_
  cases names with
  | none => exact Prog.only_pure ()
  | some names => exact only_configureInterfaces names

theorem only_writeSysctls (entries : List (String × String)) :
    Prog.Only Harmless (writeSysctls entries) := by
  induction entries with
  | nil => exact Prog.only_pure ()
  | cons entry entries ih => exact Prog.Only.call trivial fun _ => ih

theorem only_applyKernelHardening : Prog.Only Harmless applyKernelHardening :=
  only_writeSysctls sysctls

/-- A failure to set the clock is only logged. -/
def enforceTimeFloor : Init Unit := do
  let secs := (← Prog.perform InitCall.systemTime).getD 0
  if secs < lastKnownGoodTimeSecs then
    let _ ← Prog.perform (InitCall.clockSettime floorTimespec)

/-- A missing `/dev/random` is only logged. -/
def waitForEntropy : Init Unit := do
  match ← Prog.perform (InitCall.openFile "/dev/random") with
  | .error _ => pure ()
  | .ok _ =>
      let _ ← Prog.perform (InitCall.readExact "/dev/random" 1)

def networkSettleSecs : ℕ := 5

/-- A missing default route is only logged. -/
def checkNetworkReady : Init Unit := do
  let _ ← Prog.perform (InitCall.readToString "/proc/net/route")

/-! ## The clock -/

/-- The hardcoded address of a server whose name could not be resolved. -/
def fallbackIp : String → Option IpAddr
  | "cloudflare" => some (.v4 ⟨[162, 159, 200, 1], rfl⟩)
  | "roughtime.se" => some (.v4 ⟨[192, 36, 143, 134], rfl⟩)
  | "roughtime.int08h.com" => some (.v4 ⟨[51, 81, 57, 55], rfl⟩)
  | "google" => some (.v4 ⟨[173, 194, 45, 81], rfl⟩)
  | _ => none

variable (K : Dns.Packages)

/-- The servers that are left; `resolved_servers` and `dnscrypt_fallback_time` so far. -/
def resolveServers : List RoughtimeServer → List (RoughtimeServer × IpAddr) → Option UInt64 →
    Init (List (RoughtimeServer × IpAddr) × Option UInt64)
  | [], resolved, fallbackTime => pure (resolved, fallbackTime)
  | srv :: servers, resolved, fallbackTime => do
      match ← dns (Dns.resolveDomainViaDnscrypt K srv.host) with
      | .ok (ip, fbTime) =>
          resolveServers servers (resolved ++ [(srv, ip)])
            (if fbTime.isSome && fallbackTime.isNone then fbTime else fallbackTime)
      | .error _ =>
          match fallbackIp srv.name with
          | some ip => resolveServers servers (resolved ++ [(srv, ip)]) fallbackTime
          | none => resolveServers servers resolved fallbackTime

/-- The tasks of `query_roughtime`, awaited in the order of the servers. -/
def awaitRoughtime : List (RoughtimeServer × IpAddr) → Init (List Outcome)
  | [] => pure []
  | (srv, ip) :: servers => do
      let res ← Prog.perform (InitCall.querySingleRoughtime srv ip)
      let outcomes ← awaitRoughtime servers
      pure (res.map (srv.name, ·) :: outcomes)

/-- The time of the `Date` header, if there is one that parses. -/
def queryMullvadSecureDate : Init (Option UInt64) := do
  let ip := match ← dns (Dns.resolveDomainViaDnscrypt K "am.i.mullvad.net") with
    | .ok (ip, _) => ip
    | .error _ => .v4 ⟨[45, 83, 223, 233], rfl⟩
  if ← Prog.perform (InitCall.buildDateClient ip) then
    match ← Prog.perform (InitCall.getDate ip) with
    | .ok (some dateStr) => pure (parseHttpDate dateStr)
    | _ => pure none
  else pure none

/-- `midpoint`, in microseconds; the seconds of a fallback are multiplied in wrapping arithmetic. -/
def secureMidpoint : Init (Option UInt64) := do
  let (resolvedServers, dnscryptFallbackTime) ← resolveServers K roughtimeServers [] none
  let outcomes ← awaitRoughtime resolvedServers
  match ← dns (Dns.runResult (queryRoughtime outcomes)) with
  | .ok m => pure (some m)
  | .error _ =>
      match dnscryptFallbackTime with
      | some fbTime => pure (some (fbTime * 1000000))
      | none => return (← queryMullvadSecureDate K).map (· * 1000000)

/-- No time, a time below the floor, or a setting that fails: each ends in shutdown. -/
def setSystemClock (midpoint : Option UInt64) : Init Unit := do
  match midpoint with
  | none =>
      loader (panicShutdown ("Failed to retrieve secure time from Roughtime AND TLS Date " ++
        "fallback. Unable to proceed securely."))
  | some midpoint =>
      if midpoint < lastKnownGoodTimeMicros then
        loader (panicShutdown ("Secure Roughtime/TLS time " ++ toString midpoint ++
          " is before last known good time floor " ++ toString lastKnownGoodTimeMicros))
      else if ← Prog.perform (InitCall.clockSettime (midpointTimespec midpoint)) then pure ()
      else loader (panicShutdown "Failed to set system clock from Roughtime/TLS response")

/-- `main` of PID 1, up to the watchdog loop. -/
def initMain (X : Externals) : Init (ℕ × ℕ) := do
  prepareSystemEnv
  enforceTimeFloor
  waitForEntropy
  loader (Prog.perform (Call.sleep networkSettleSecs))
  checkNetworkReady
  loader (orShutdown "TLS 1.3 configuration failed: " (← Prog.perform InitCall.buildTlsConfig))
  let midpoint ← secureMidpoint K
  setSystemClock midpoint
  loader (orShutdown "Failed to build HTTP client: " (← Prog.perform InitCall.buildClient))
  loader (main X)

end SevMicroLoader.Boot
