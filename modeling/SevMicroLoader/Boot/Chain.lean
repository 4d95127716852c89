import SevMicroLoader.Boot.Sequence

/-!
# What stands behind a started process

`World` follows the calls of the loader: what was downloaded, checked, written, remounted and
started. `Chain` is the state in which a child may be started: one binary goes through every step,
from its download to the file that is run. `Failed` says that a step has failed, and `Permits` puts
a condition on two calls: a spawn needs the chain, and a shutdown comes before the first child
exactly when a step has failed.
-/

namespace SevMicroLoader.Boot
open Rust

/-! ## The world -/

/-- A signature check that was made. -/
structure Check where
  key : Bytes
  msg : Bytes
  sig : Bytes
  valid : Bool

/-- What a boot has brought about so far. -/
structure World where
  /-- The body of the last whole response, by URL. -/
  downloaded : String → Option Bytes
  /-- The attempts that did not give a whole response, by URL. -/
  failures : String → ℕ
  checks : List Check
  files : String → Option Bytes
  modes : String → Option ℕ
  /-- The flags of the last mount at a path. -/
  mounts : String → Option (List MsFlag)
  /-- The calls that returned an error. -/
  refused : List Call
  spawned : List Command

/-- Nothing has happened. -/
def World.start : World := ⟨fun _ => none, fun _ => 0, [], fun _ => none, fun _ => none,
  fun _ => none, [], []⟩

/-- A response, or an attempt that gave none. -/
def World.receive (w : World) (url : String) : Option Bytes → World
  | some body => { w with downloaded := Function.update w.downloaded url (some body) }
  | none => { w with failures := Function.update w.failures url (w.failures url + 1) }

/-- A call that returned an error. -/
def World.refuse (w : World) (c : Call) : World := { w with refused := w.refused ++ [c] }

/-- A write that fails leaves a file of unknown content; other calls that fail change nothing. -/
def World.next (w : World) : (c : Call) → c.Reply → World
  | .get url, .ok response => w.receive url response.whole
  | .get url, .error _ => w.receive url none
  | .verify key msg sig, valid => { w with checks := w.checks ++ [⟨key, msg, sig, valid⟩] }
  | .write path content, .ok _ => { w with files := Function.update w.files path (some content) }
  | .write path content, .error _ =>
      { w.refuse (.write path content) with files := Function.update w.files path none }
  | .setPermissions path mode, .ok _ =>
      { w with modes := Function.update w.modes path (some mode) }
  | .setPermissions path mode, .error _ => w.refuse (.setPermissions path mode)
  | .mount _ target _ flags _, .ok _ =>
      { w with mounts := Function.update w.mounts target (some flags) }
  | .mount source target fstype flags data, .error _ =>
      w.refuse (.mount source target fstype flags data)
  | .spawn cmd, .ok _ => { w with spawned := w.spawned ++ [cmd] }
  | .spawn cmd, .error _ => w.refuse (.spawn cmd)
  | _, _ => w

/-- A trace of the loader. -/
abbrev Trace := List (Prog.Event Call Call.Reply)

/-- The world after a trace. -/
def world (t : Trace) : World := Prog.after World.next .start t

/-! ## Failed steps, and the chain -/

/-- The three files that a boot downloads. -/
def payloadUrls : List String := [binaryUrl, hashUrl, signatureUrl]

/-- The calls that must not be refused: all but those for `/dev/sev-guest` and for the attestation
server, which come when the server already runs. -/
def Required : Call → Prop
  | .write _ _ => True
  | .setPermissions path _ => path = targetPath
  | .mount _ _ _ _ _ => True
  | .spawn cmd => cmd.program = targetPath ∧ cmd.args = []
  | _ => False

theorem not_required_sevGuest : ¬ Required (.setPermissions "/dev/sev-guest" 0o666) := by
  intro hpath
  have : "/dev/sev-guest" ≠ targetPath := by decide
  exact this hpath

theorem not_required_attestation (exe hashHex : String) :
    ¬ Required (.spawn (attestationCommand exe hashHex)) := by
  intro hspawn
  cases hspawn.2

variable (X : Externals)

/-- The lower-case text of the payload hash. -/
def payloadHash (appBytes : Bytes) : String := Hex.lower (X.sha384 appBytes).val

/-- A step has failed. -/
inductive Failed (w : World) : Prop
  | download {url : String} (hurl : url ∈ payloadUrls) (h : maxDownloadRetries ≤ w.failures url)
  | hash {appBytes text : Bytes} (happ : w.downloaded binaryUrl = some appBytes)
      (htext : w.downloaded hashUrl = some text)
      (h : payloadHash X appBytes ≠ trim (fromUtf8Lossy text))
  | signature {check : Check} (hcheck : check ∈ w.checks) (h : check.valid = false)
  | refused {c : Call} (hc : c ∈ w.refused) (h : Required c)

/-- One binary went through all the steps. -/
structure Chain (w : World) (appBytes text sigBytes : Bytes) : Prop where
  app : w.downloaded binaryUrl = some appBytes
  hashText : w.downloaded hashUrl = some text
  sig : w.downloaded signatureUrl = some sigBytes
  hash : payloadHash X appBytes = trim (fromUtf8Lossy text)
  verified : w.checks = List.replicate 3 ⟨publicKeyBytes.val, appBytes, sigBytes, true⟩
  content : w.files targetPath = some appBytes
  mode : w.modes targetPath = some 0o555
  readOnly : ∃ flags, w.mounts payloadDir = some flags ∧ .remount ∈ flags ∧ .rdonly ∈ flags

/-- The server for a payload hash: it runs the file at the target path, without arguments and as an
unprivileged user, and its environment has the hash under `LOADER_PAYLOAD_HASH`, as the only
value. -/
structure RunsServer (hashHex : String) (cmd : Command) : Prop where
  program : cmd.program = targetPath
  args : cmd.args = []
  hash : ∀ value, ("LOADER_PAYLOAD_HASH", value) ∈ cmd.env ↔ value = hashHex
  development : ∀ value, ("DEVELOPMENT", value) ∈ cmd.env ↔ value = "false"
  user : cmd.uid = 65534 ∧ cmd.gid = 65534
  memory : cmd.secureMemorySetup = true

/-- The attestation server for a payload hash: it gets the hash as its second argument. -/
structure RunsAttestation (hashHex : String) (cmd : Command) : Prop where
  args : cmd.args = ["run-attestation-server", hashHex]
  user : cmd.uid = 65534 ∧ cmd.gid = 65534
  memory : cmd.secureMemorySetup = true

theorem runsServer_serverCommand (hashHex : String) :
    RunsServer hashHex (serverCommand hashHex) where
  program := rfl
  args := rfl
  hash value := by simp [serverCommand]
  development value := by simp [serverCommand]
  user := ⟨rfl, rfl⟩
  memory := rfl

theorem runsAttestation_attestationCommand (exe hashHex : String) :
    RunsAttestation hashHex (attestationCommand exe hashHex) := ⟨rfl, ⟨rfl, rfl⟩, rfl⟩

/-- A child that may be started: the server first, then the attestation server, both with the hash
of the binary that went through the chain. -/
def Licensed (w : World) (cmd : Command) : Prop :=
  ∃ appBytes text sigBytes, Chain X w appBytes text sigBytes ∧
    (RunsServer (payloadHash X appBytes) cmd ∧ w.spawned = [] ∨
      RunsAttestation (payloadHash X appBytes) cmd ∧
        w.spawned = [serverCommand (payloadHash X appBytes)])

/-- Both children run, each with the hash of the binary that went through the chain. -/
def Served (w : World) : Prop :=
  ∃ appBytes text sigBytes server attestation, Chain X w appBytes text sigBytes ∧
    w.spawned = [server, attestation] ∧ RunsServer (payloadHash X appBytes) server ∧
      RunsAttestation (payloadHash X appBytes) attestation

/-- A child is started when its turn has come, and a shutdown before that follows a failed step. -/
def Permits (w : World) : Call → Prop
  | .spawn cmd => Licensed X w cmd
  | .shutdown _ => Failed X w ↔ w.spawned = []
  | _ => True

variable {X} {w : World}

/-- A state with the whole chain and without a failed step. -/
structure Ready (X : Externals) (w : World) (appBytes text sigBytes : Bytes)
    (children : List Command) : Prop where
  chain : Chain X w appBytes text sigBytes
  failures : ∀ url ∈ payloadUrls, w.failures url < maxDownloadRetries
  refused : ∀ c ∈ w.refused, ¬ Required c
  spawned : w.spawned = children

variable {appBytes text sigBytes : Bytes} {children : List Command}

theorem Ready.not_failed (h : Ready X w appBytes text sigBytes children) : ¬ Failed X w := by
  intro hfailed
  cases hfailed with
  | download hurl hk => exact absurd hk (not_le.mpr (h.failures _ hurl))
  | hash happ htext hne =>
      rw [h.chain.app] at happ
      rw [h.chain.hashText] at htext
      cases happ
      cases htext
      exact hne h.chain.hash
  | signature hcheck hvalid =>
      rw [h.chain.verified] at hcheck
      rw [List.eq_of_mem_replicate hcheck] at hvalid
      cases hvalid
  | refused hc hreq => exact h.refused _ hc hreq

/-- Once a child runs, a shutdown is due to no failed step. -/
theorem Ready.stops_with_children (h : Ready X w appBytes text sigBytes children)
    (hchildren : children ≠ []) : Failed X w ↔ w.spawned = [] :=
  iff_of_false h.not_failed (by rwa [h.spawned])

/-- A refusal that is not required to succeed changes nothing of this. -/
theorem Ready.refuse (h : Ready X w appBytes text sigBytes children) {c : Call}
    (hc : ¬ Required c) : Ready X (w.refuse c) appBytes text sigBytes children := by
  refine { h with chain := { h.chain with }, refused := ?_ }
  intro c' hc'
  rcases List.mem_append.mp hc' with hc' | hc'
  · exact h.refused c' hc'
  · rw [List.mem_singleton.mp hc']
    exact hc

theorem Ready.spawn (h : Ready X w appBytes text sigBytes children) (cmd : Command) :
    Ready X { w with spawned := w.spawned ++ [cmd] } appBytes text sigBytes
      (children ++ [cmd]) := by
  refine { h with chain := { h.chain with }, spawned := ?_ }
  rw [h.spawned]

/-! ## The steps, one at a time -/

/-- From `w` to `w'`, the body of `url` arrived, after fewer failures than would stop it. -/
def Fetched (w : World) (url : String) (w' : World) (body : Bytes) : Prop :=
  ∃ k < maxDownloadRetries, w' =
    { w with
      downloaded := Function.update w.downloaded url (some body)
      failures := Function.update w.failures url k }

/-- A failure before does not matter. -/
theorem Fetched.of_receive_none {url : String} {w' : World} {body : Bytes}
    (h : Fetched (w.receive url none) url w' body) : Fetched w url w' body := by
  obtain ⟨k, hk, rfl⟩ := h
  exact ⟨k, hk, by simp only [World.receive, Function.update_idem]⟩

theorem holds_delayBefore (attempt : ℕ) :
    Prog.Holds World.next (Permits X) (fun w' _ => w' = w) (delayBefore attempt) w := by
  unfold delayBefore
  split
  · exact ⟨trivial, fun _ => rfl⟩
  · rfl

theorem next_get (url : String) (reply : Except String HttpResponse) :
    w.next (.get url) reply = w.receive url (bodyOf reply) := by
  cases reply <;> rfl

/-- A download leaves the body it returns; it stops only after the last failure. -/
theorem holds_downloadAttempts {url : String} (hurl : url ∈ payloadUrls) (desc : String)
    (left : ℕ) (lastError : String) (hspawned : w.spawned = [])
    (hcount : w.failures url + left = maxDownloadRetries) :
    Prog.Holds World.next (Permits X) (Fetched w url)
      (downloadAttempts url desc left lastError) w := by
  induction left generalizing w lastError with
  | zero => exact holds_panicShutdown ⟨fun _ => hspawned, fun _ => .download hurl hcount.ge⟩
  | succ left ih =>
      have hretry : ∀ e, Prog.Holds World.next (Permits X) (Fetched w url)
          (downloadAttempts url desc left e) (w.receive url none) := by
        intro e
        have hcount' : (w.receive url none).failures url + left = maxDownloadRetries := by
          simp only [World.receive, Function.update_self]
          omega
        exact (ih (w := w.receive url none) e hspawned hcount').mono
          fun _ _ => Fetched.of_receive_none
      rw [downloadAttempts_succ]
      apply (holds_delayBefore _).bind
      intro w' _ hw'
      subst hw'
      refine Prog.holds_perform_bind.mpr ⟨trivial, fun reply => ?_⟩
      rw [next_get]
      rcases afterReply_cases url desc left reply with ⟨body, hbody, heq⟩ | ⟨hbody, e, heq⟩
      · rw [heq, hbody]
        refine ⟨w'.failures url, by omega, ?_⟩
        simp only [World.receive, Function.update_eq_self]
      · rw [heq, hbody]
        exact hretry e

/-- The three checks all pass, under the key of the loader. -/
theorem holds_verifySignature (hspawned : w.spawned = []) (hchecks : w.checks = []) :
    Prog.Holds World.next (Permits X)
      (fun w' _ => w' =
        { w with checks := List.replicate 3 ⟨publicKeyBytes.val, appBytes, sigBytes, true⟩ })
      (verifySignature appBytes sigBytes) w := by
  refine Prog.holds_perform_bind.mpr ⟨trivial, fun valid1 => ?_⟩
  refine Prog.holds_perform_bind.mpr ⟨trivial, fun valid2 => ?_⟩
  refine Prog.holds_perform_bind.mpr ⟨trivial, fun valid3 => ?_⟩
  refine Prog.holds_ite.mpr ⟨fun hall => ?_, fun hall => ?_⟩
  · apply holds_panicShutdown
    refine ⟨fun _ => hspawned, fun _ => ?_⟩
    obtain ⟨check, hcheck, hvalid⟩ : ∃ check ∈ [valid1, valid2, valid3], check = false := by
      simpa [or_assoc] using hall
    refine Failed.signature (?_ : ⟨publicKeyBytes.val, appBytes, sigBytes, check⟩ ∈ _) hvalid
    simpa [World.next, hchecks] using hcheck
  · have hvalid : valid1 = true ∧ valid2 = true ∧ valid3 = true := by
      simpa [and_assoc] using hall
    obtain ⟨rfl, rfl, rfl⟩ := hvalid
    simp [World.next, hchecks, List.replicate_succ]

theorem mem_refused {c : Call} : c ∈ (w.refuse c).refused :=
  List.mem_append_right _ (List.mem_singleton_self c)

/-- A refused call that is required stops the boot. -/
theorem stops_of_refused {c : Call} (hc : c ∈ w.refused) (hreq : Required c)
    (hspawned : w.spawned = []) : Failed X w ↔ w.spawned = [] :=
  ⟨fun _ => hspawned, fun _ => .refused hc hreq⟩

theorem holds_deployBinary (hspawned : w.spawned = []) :
    Prog.Holds World.next (Permits X)
      (fun w' _ => w' =
        { w with
          files := Function.update w.files targetPath (some appBytes)
          modes := Function.update w.modes targetPath (some 0o555) })
      (deployBinary appBytes) w := by
  refine Prog.holds_perform_bind.mpr ⟨trivial, fun written => ?_⟩
  refine Prog.holds_bind.mpr (holds_orShutdown ?_ ?_)
  · intro e he
    subst he
    exact stops_of_refused mem_refused trivial hspawned
  · intro _ hwritten
    subst hwritten
    refine Prog.holds_perform_bind.mpr ⟨trivial, fun changed => ?_⟩
    refine holds_orShutdown ?_ ?_
    · intro e he
      subst he
      exact stops_of_refused mem_refused rfl hspawned
    · intro _ hchanged
      subst hchanged
      rfl

/-- A mount replaces the flags at its path. -/
theorem holds_mountOrShutdown {source fstype data : Option String} {target what : String}
    {flags : List MsFlag} (hspawned : w.spawned = []) :
    Prog.Holds World.next (Permits X)
      (fun w' _ => w' = { w with mounts := Function.update w.mounts target (some flags) })
      (mountOrShutdown source target fstype flags data what) w := by
  refine Prog.holds_perform_bind.mpr ⟨trivial, fun mounted => holds_orShutdown ?_ ?_⟩
  · intro e he
    subst he
    exact stops_of_refused mem_refused trivial hspawned
  · intro _ hmounted
    subst hmounted
    rfl

theorem holds_lockdownFilesystem (hspawned : w.spawned = []) :
    Prog.Holds World.next (Permits X)
      (fun w' _ => ∃ mounts, w' = { w with mounts := mounts } ∧
        mounts payloadDir = some [.remount, .rdonly, .nosuid, .nodev])
      lockdownFilesystem w := by
  apply Prog.Holds.bind (holds_mountOrShutdown hspawned)
  intro w₁ _ hw₁
  subst hw₁
  apply Prog.Holds.bind (holds_mountOrShutdown (by exact hspawned))
  intro w₂ _ hw₂
  subst hw₂
  refine Prog.Holds.mono (holds_mountOrShutdown (by exact hspawned)) ?_
  intro w₃ _ hw₃
  subst hw₃
  refine ⟨_, rfl, ?_⟩
  dsimp only
  rw [Function.update_of_ne (by decide), Function.update_of_ne (by decide), Function.update_self]

/-- Nothing done for `/dev/sev-guest` touches the chain. -/
theorem holds_exposeSevGuest (h : Ready X w appBytes text sigBytes children) :
    Prog.Holds World.next (Permits X) (fun w' _ => Ready X w' appBytes text sigBytes children)
      exposeSevGuest w := by
  refine Prog.holds_perform_bind.mpr ⟨trivial, fun found => ?_⟩
  cases found with
  | false => exact h
  | true =>
      refine Prog.holds_perform_bind.mpr ⟨trivial, fun changed => ?_⟩
      cases changed with
      | error e => exact h.refuse not_required_sevGuest
      | ok _ =>
          have hmode : Function.update w.modes "/dev/sev-guest" (some 0o666) targetPath =
              some 0o555 := (Function.update_of_ne (by decide) _ _).trans h.chain.mode
          exact { h with chain := { h.chain with mode := hmode } }

/-- The server is started first, the attestation server after it. -/
theorem holds_spawnChildren (h : Ready X w appBytes text sigBytes []) :
    Prog.Holds World.next (Permits X)
      (fun w' _ => ¬ Failed X w' ∧ Served X w') (spawnChildren (payloadHash X appBytes)) w := by
  have hserver := runsServer_serverCommand (payloadHash X appBytes)
  refine Prog.holds_perform_bind.mpr
    ⟨⟨appBytes, text, sigBytes, h.chain, .inl ⟨hserver, h.spawned⟩⟩, fun server => ?_⟩
  refine Prog.holds_bind.mpr (holds_orShutdown ?_ ?_)
  · intro e he
    subst he
    exact stops_of_refused mem_refused ⟨rfl, rfl⟩ h.spawned
  · intro childPid hstarted
    subst hstarted
    apply (holds_exposeSevGuest (h.spawn _)).bind
    intro w₁ _ h₁
    refine Prog.holds_perform_bind.mpr ⟨trivial, fun exe => ?_⟩
    have hattestation exe := runsAttestation_attestationCommand exe (payloadHash X appBytes)
    refine Prog.holds_perform_bind.mpr
      ⟨⟨appBytes, text, sigBytes, h₁.chain, .inr ⟨hattestation _, h₁.spawned⟩⟩,
        fun attestation => ?_⟩
    refine Prog.holds_bind.mpr (holds_orShutdown ?_ ?_)
    · -- the server runs already: this shutdown is due to none of the failed steps
      intro e he
      subst he
      exact (h₁.refuse (not_required_attestation _ _)).stops_with_children (List.cons_ne_nil _ _)
    · intro attestPid hstarted
      subst hstarted
      exact ⟨(h₁.spawn _).not_failed, appBytes, text, sigBytes, _, _, (h₁.spawn _).chain,
        (h₁.spawn _).spawned, hserver, hattestation _⟩

/-- **Every spawn has the chain behind it, and every shutdown before the first child a failed
step.** -/
theorem holds_main (hX : X.base16.Documented) :
    Prog.Holds World.next (Permits X)
      (fun w _ => ¬ Failed X w ∧ Served X w) (main X) .start := by
  have hurl : binaryUrl ∈ payloadUrls ∧ hashUrl ∈ payloadUrls ∧ signatureUrl ∈ payloadUrls := by
    decide
  have hdistinct : binaryUrl ≠ hashUrl ∧ binaryUrl ≠ signatureUrl ∧ hashUrl ≠ signatureUrl := by
    decide
  apply (holds_downloadAttempts hurl.1 _ _ _ rfl rfl).bind
  intro w₁ appBytes hw₁
  obtain ⟨k₁, hk₁, rfl⟩ := hw₁
  refine Prog.holds_bind.mpr
    ((holds_downloadAttempts hurl.2.1 _ _ _ rfl (by simp [hdistinct.1.symm, World.start])).mono ?_)
  intro w₂ text hw₂
  dsimp only
  rw [hX.lower_eq, Prog.holds_ite]
  obtain ⟨k₂, hk₂, rfl⟩ := hw₂
  constructor
  · intro hhash
    apply holds_panicShutdown
    refine ⟨fun _ => rfl, fun _ => Failed.hash (?_ : _ = some appBytes) (?_ : _ = some text) hhash⟩
    · simp [hdistinct]
    · simp
  · intro hhash
    apply (holds_downloadAttempts hurl.2.2 _ _ _ rfl
      (by simp [hdistinct.2.1.symm, hdistinct.2.2.symm, World.start])).bind
    intro w₃ sigBytes hw₃
    obtain ⟨k₃, hk₃, rfl⟩ := hw₃
    apply Prog.Holds.bind (holds_verifySignature rfl rfl)
    intro w₄ _ hw₄
    subst hw₄
    apply Prog.Holds.bind (holds_deployBinary rfl)
    intro w₅ _ hw₅
    subst hw₅
    apply Prog.Holds.bind (holds_lockdownFilesystem rfl)
    intro w₆ _ hw₆
    obtain ⟨mounts, rfl, hmounts⟩ := hw₆
    refine holds_spawnChildren (⟨?_, ?_, ?_, rfl⟩ : Ready X _ appBytes text sigBytes [])
    · constructor
      case app => simp [hdistinct]
      case hashText => simp [hdistinct]
      case sig => simp
      case hash => exact not_not.mp hhash
      case verified => rfl
      case content => simp
      case mode => simp
      case readOnly => exact ⟨_, hmounts, by simp, by simp⟩
    · intro url _
      simp only [Function.update_apply]
      split_ifs
      · exact hk₃
      · exact hk₂
      · exact hk₁
      · exact Nat.succ_pos 4
    · intro c hc
      cases hc

/-! ## The boot chain -/

/-- Only a shutdown never returns. -/
theorem eq_shutdown_of_isEmpty {c : Call} (h : IsEmpty c.Reply) :
    ∃ message, c = .shutdown message := by
  cases c with
  | shutdown message => exact ⟨message, rfl⟩
  | sleep secs => exact h.elim ()
  | verify key msg sig => exact h.elim true
  | pathExists path => exact h.elim true
  | get url => exact h.elim (.error "")
  | write path content => exact h.elim (.error "")
  | setPermissions path mode => exact h.elim (.error "")
  | mount source target fstype flags data => exact h.elim (.error "")
  | currentExe => exact h.elim (.error "")
  | spawn cmd => exact h.elim (.error "")

@[simp] theorem world_shutdown (t : Trace) (message : String) :
    world (t ++ [⟨.shutdown message, none⟩]) = world t := by
  simp [world]

/-- **The boot chain.** In every run, a child is started only with the chain behind it: the file at
the target path is the binary that was downloaded, its hash is the downloaded text, its signature
passed under the loader's key, and it is read-only; the server gets the hash of this binary in its
environment, the attestation server in its arguments. A step fails exactly in the runs that start
nothing and end in a shutdown. A run that returns has started both children so. -/
theorem boot_chain (X : Externals) (hX : X.base16.Documented) {t : Trace} {o : Option (ℕ × ℕ)}
    (hrun : Prog.Runs (main X) t o) :
    (∀ t₁ cmd reply t₂, t = t₁ ++ ⟨.spawn cmd, reply⟩ :: t₂ → Licensed X (world t₁) cmd) ∧
    (Failed X (world t) ↔ (world t).spawned = [] ∧ o = none ∧
      ∃ t₁ message, t = t₁ ++ [⟨.shutdown message, none⟩]) ∧
    ∀ pids, o = some pids → Served X (world t) := by
  obtain ⟨hcalls, hresult⟩ := (holds_main hX).sound hrun
  refine ⟨fun t₁ cmd reply t₂ ht => hcalls t₁ _ t₂ ht, ?_, fun pids ho => (hresult pids ho).2⟩
  constructor
  · intro hfailed
    cases o with
    | some pids => exact absurd hfailed (hresult pids rfl).1
    | none =>
        obtain ⟨t₁, c, hc, rfl⟩ := hrun.halted
        obtain ⟨message, rfl⟩ := eq_shutdown_of_isEmpty hc
        have hstop : Failed X (world t₁) ↔ (world t₁).spawned = [] := hcalls t₁ _ [] rfl
        rw [world_shutdown] at hfailed ⊢
        exact ⟨hstop.mp hfailed, rfl, t₁, message, rfl⟩
  · intro hstopped
    obtain ⟨hspawned, -, t₁, message, rfl⟩ := hstopped
    have hstop : Failed X (world t₁) ↔ (world t₁).spawned = [] := hcalls t₁ _ [] rfl
    rw [world_shutdown] at hspawned ⊢
    exact hstop.mpr hspawned

/-- Packages as documented, with a hash that pads. -/
def sampleExternals : Externals where
  base16 := .reference
  sha384 := padded 48

/-- A whole response in one chunk. -/
def sampleResponse (body : Bytes) : HttpResponse := ⟨200, "200 OK", [body], none⟩

/-- Release servers that answer at once, and a system that refuses nothing. -/
def sampleEnv (_ : Trace) : (c : Call) → Option c.Reply
  | .get url => some (.ok (sampleResponse
      (if url = binaryUrl then [0x7f, 0x45]
      else if url = hashUrl then bstr ("7f45" ++ String.ofList (List.replicate 92 '0') ++ "\n")
      else [1])))
  | .sleep _ => some ()
  | .verify _ _ _ => some true
  | .write _ _ => some (.ok ())
  | .setPermissions _ _ => some (.ok ())
  | .mount _ _ _ _ _ => some (.ok ())
  | .pathExists _ => some true
  | .currentExe => some (.ok "/init")
  | .spawn _ => some (.ok 2)
  | .shutdown _ => none

/-- The run in the environment above. -/
def sampleRun : Trace × Option (ℕ × ℕ) := Prog.exec sampleEnv (main sampleExternals) []

/-- Whether an event starts the server. -/
def isServerSpawn : Prog.Event Call Call.Reply → Bool
  | ⟨.spawn cmd, _⟩ => cmd.program = targetPath
  | _ => false

theorem boot_chain_sample :
    (∃ t₁ cmd, cmd.program = targetPath ∧ Licensed sampleExternals (world t₁) cmd) ∧
    Served sampleExternals (world sampleRun.1) := by
  have hrun : Prog.Runs (main sampleExternals) sampleRun.1 sampleRun.2 :=
    Prog.runs_exec (fun _ c hc => by cases c <;> first | exact ⟨Empty.elim⟩ | cases hc) _ []
  obtain ⟨hcalls, -, hreturns⟩ := boot_chain sampleExternals Base16.documented_reference hrun
  have hsample : sampleRun.1.any isServerSpawn = true ∧ sampleRun.2 = some (2, 2) := by
    decide +kernel
  obtain ⟨⟨c, reply⟩, hmem, hc⟩ := List.any_eq_true.mp hsample.1
  obtain ⟨t₁, t₂, ht⟩ := List.append_of_mem hmem
  refine ⟨?_, hreturns (2, 2) hsample.2⟩
  cases c with
  | spawn cmd => exact ⟨t₁, cmd, by simpa [isServerSpawn] using hc, hcalls t₁ cmd reply t₂ ht⟩
  | _ => cases hc

end SevMicroLoader.Boot
