import SevMicroLoader.Boot.Clock

/-!
# What the lockdown leaves writable and executable

A `MountTable` gives the flags of every mount point; a mount that succeeds replaces those of its
target. `lockedTable` is the table after `prepareSystemEnv` and `lockdownFilesystem`, over any table
before. `/dev` is mounted with `MS_NOSUID` alone and never remounted, so that it stays writable and
executable in every run (`not_lockedDown_of_runs`).
-/

namespace SevMicroLoader.Boot

/-! ## Mount tables -/

/-- The flags of what is mounted at a path, if anything is. -/
abbrev MountTable := String → Option (List MsFlag)

/-- `MS_REMOUNT` says how to mount; it is no flag of the mount. -/
def MountTable.mount (m : MountTable) (target : String) (flags : List MsFlag) : MountTable :=
  Function.update m target (some (flags.filter (· ≠ .remount)))

/-- A mount that fails changes nothing. -/
def MountTable.next (m : MountTable) : (c : InitCall) → c.Reply → MountTable
  | .loader (.mount _ target _ flags _), .ok _ => m.mount target flags
  | _, _ => m

/-- The table after a trace. -/
def MountTable.after (m : MountTable) (t : InitTrace) : MountTable := Prog.after MountTable.next m t

/-- Every mounted filesystem is read-only or cannot be executed from. -/
def LockedDown (m : MountTable) : Prop :=
  ∀ path flags, m path = some flags → .rdonly ∈ flags ∨ .noexec ∈ flags

/-- The two functions that set up and lock down the filesystem. -/
def lockedBoot : Init Unit := do
  prepareSystemEnv
  loader lockdownFilesystem

/-- After `prepareSystemEnv`, with or without the devpts mount. -/
def preparedTable (m : MountTable) (devpts : Bool) : MountTable :=
  let m := (m.mount "/proc" nosuidNodevNoexec).mount "/sys" nosuidNodevNoexec
  let m := m.mount "/dev" [.nosuid]
  let m := if devpts then m.mount "/dev/pts" [] else m
  let m := (m.mount "/tmp" [.nosuid, .nodev, .noexec]).mount "/run" [.nosuid, .nodev, .noexec]
  m.mount payloadDir [.nosuid, .nodev]

/-- After `lockdownFilesystem` as well. -/
def lockedTable (m : MountTable) (devpts : Bool) : MountTable :=
  let m := (preparedTable m devpts).mount payloadDir [.remount, .rdonly, .nosuid, .nodev]
  let m := m.mount "/tmp" [.remount, .nosuid, .nodev, .noexec]
  m.mount "/run" [.remount, .nosuid, .nodev, .noexec]

/-! ## The runs -/

section Runs
variable {α : Type} {m : MountTable}

/-- From the table `m` on, `p` ends in `Q`. -/
abbrev Mounts (Q : MountTable → α → Prop) (p : Init α) (m : MountTable) : Prop :=
  Prog.Holds MountTable.next (fun _ _ => True) Q p m

/-- The same of a program of the boot sequence. -/
abbrev LoaderMounts (Q : MountTable → α → Prop) (p : Loader α) (m : MountTable) : Prop :=
  Prog.Holds (fun (m : MountTable) (c : Call) (r : c.Reply) => m.next (.loader c) r)
    (fun _ _ => True) Q p m

theorem loaderMounts_mountOrShutdown {source fstype data : Option String} {target what : String}
    {flags : List MsFlag} :
    LoaderMounts (fun m' _ => m' = m.mount target flags)
      (mountOrShutdown source target fstype flags data what) m := by
  refine ⟨trivial, fun mounted => ?_⟩
  apply holds_orShutdown
  · intro e _
    trivial
  · rintro _ rfl
    rfl

theorem mounts_mountOrShutdown {source fstype data : Option String} {target what : String}
    {flags : List MsFlag} :
    Mounts (fun m' _ => m' = m.mount target flags)
      (loader (mountOrShutdown source target fstype flags data what)) m :=
  Prog.holds_embed.mpr loaderMounts_mountOrShutdown

theorem next_of_harmless (m : MountTable) (c : InitCall) (r : c.Reply) (h : Harmless c) :
    m.next c r = m := by
  cases c with
  | loader c =>
      cases c with
      | mount source target fstype flags data => exact h.elim
      | _ => rfl
  | _ => rfl

theorem mounts_of_only {p : Init α} (hp : Prog.Only Harmless p) (m : MountTable) :
    Mounts (fun m' _ => m' = m) p m :=
  hp.holds (fun _ _ _ => trivial) next_of_harmless m

theorem mounts_prepareSystemEnv :
    Mounts (fun m' _ => ∃ devpts, m' = preparedTable m devpts) prepareSystemEnv m := by
  apply mounts_mountOrShutdown.bind
  intro m₁ _ hproc
  apply mounts_mountOrShutdown.bind
  intro m₂ _ hsys
  apply mounts_mountOrShutdown.bind
  intro m₃ _ hdev
  refine Prog.holds_perform_bind.mpr ⟨trivial, fun _ => ?_⟩
  refine Prog.holds_perform_bind.mpr ⟨trivial, fun devpts => ?_⟩
  -- the devpts mount is the one whose failure goes unnoticed
  obtain ⟨mounted, hpts⟩ : ∃ mounted : Bool,
      MountTable.next m₃ (.loader (.mount (some "devpts") "/dev/pts" (some "devpts") [] none))
        devpts = if mounted then m₃.mount "/dev/pts" [] else m₃ := by
    cases devpts with
    | ok _ => exact ⟨true, rfl⟩
    | error e => exact ⟨false, rfl⟩
  apply mounts_mountOrShutdown.bind
  intro m₄ _ htmp
  refine Prog.holds_perform_bind.mpr ⟨trivial, fun _ => ?_⟩
  apply mounts_mountOrShutdown.bind
  intro m₅ _ hrunDir
  refine Prog.holds_perform_bind.mpr ⟨trivial, fun created => ?_⟩
  apply (holds_loader_orShutdown fun _ => trivial).bind
  rintro _ _ ⟨rfl, rfl⟩
  apply mounts_mountOrShutdown.bind
  intro m₆ _ hpayload
  apply (mounts_of_only only_initNetworking m₆).bind
  intro m₇ _ hnetwork
  apply (mounts_of_only only_applyKernelHardening m₇).mono
  intro m₈ _ hsysctls
  refine ⟨mounted, ?_⟩
  rw [hsysctls, hnetwork, hpayload, hrunDir, htmp]
  rw [preparedTable, ← hproc, ← hsys, ← hdev, ← hpts]
  rfl

theorem mounts_lockdownFilesystem :
    Mounts (fun m' _ => m' = ((m.mount payloadDir [.remount, .rdonly, .nosuid, .nodev]).mount "/tmp"
        [.remount, .nosuid, .nodev, .noexec]).mount "/run" [.remount, .nosuid, .nodev, .noexec])
      (loader lockdownFilesystem) m := by
  apply Prog.holds_embed.mpr
  apply loaderMounts_mountOrShutdown.bind
  intro m₁ _ hpayload
  apply loaderMounts_mountOrShutdown.bind
  intro m₂ _ htmp
  refine loaderMounts_mountOrShutdown.mono ?_
  intro m₃ _ hrunDir
  rw [hrunDir, htmp, hpayload]

/-- The table after both functions have returned, whatever was mounted before. -/
theorem after_eq_lockedTable {t : InitTrace} (hrun : Prog.Runs lockedBoot t (some ())) :
    ∃ devpts, m.after t = lockedTable m devpts := by
  have hmounts : Mounts (fun m' _ => ∃ devpts, m' = lockedTable m devpts) lockedBoot m := by
    apply mounts_prepareSystemEnv.bind
    rintro _ _ ⟨devpts, rfl⟩
    refine mounts_lockdownFilesystem.mono ?_
    intro m' _ hm'
    exact ⟨devpts, hm'⟩
  exact (hmounts.sound hrun).2 () rfl

end Runs

/-! ## What is left -/

/-- The flags of the mounts the code makes, after the lockdown. -/
def lockedFlags (devpts : Bool) : String → Option (List MsFlag)
  | "/proc" => some [.nosuid, .nodev, .noexec]
  | "/sys" => some [.nosuid, .nodev, .noexec]
  | "/dev" => some [.nosuid]
  | "/dev/pts" => if devpts then some [] else none
  | "/tmp" => some [.nosuid, .nodev, .noexec]
  | "/run" => some [.nosuid, .nodev, .noexec]
  | "/run/payload" => some [.rdonly, .nosuid, .nodev]
  | _ => none

/-- Mounts that the code does not make are as before. -/
theorem lockedTable_apply (m : MountTable) (devpts : Bool) (path : String) :
    lockedTable m devpts path = (lockedFlags devpts path <|> m path) := by
  -- one case for each path the code mounts, where its last mount counts, and one for the others
  unfold lockedFlags
  split
  all_goals
    cases devpts with
    | true =>
        simp_all [lockedTable, preparedTable, MountTable.mount, payloadDir, nosuidNodevNoexec]
    | false =>
        simp_all [lockedTable, preparedTable, MountTable.mount, payloadDir, nosuidNodevNoexec]

theorem after_dev (m : MountTable) {t : InitTrace} (hrun : Prog.Runs lockedBoot t (some ())) :
    m.after t "/dev" = some [.nosuid] := by
  obtain ⟨devpts, hafter⟩ := after_eq_lockedTable (m := m) hrun
  rw [hafter, lockedTable_apply]
  rfl

theorem not_lockedDown_of_dev {m : MountTable} (h : m "/dev" = some [.nosuid]) :
    ¬ LockedDown m := by
  intro hlocked
  have hdev := hlocked "/dev" [.nosuid] h
  simp at hdev

/-- **The lockdown never holds.** Whatever was mounted before and whether or not devpts could be
mounted, once both functions have returned `/dev` is writable and executable. -/
theorem not_lockedDown_of_runs (m : MountTable) {t : InitTrace}
    (hrun : Prog.Runs lockedBoot t (some ())) : ¬ LockedDown (m.after t) :=
  not_lockedDown_of_dev (after_dev m hrun)

/-- A root filesystem, as the kernel unpacks it. -/
def rootTable : MountTable := fun path => if path = "/" then some [] else none

/-- A run in which every mount succeeds. -/
def sampleLockdown : InitTrace := (Prog.exec sampleInitEnv lockedBoot []).1

theorem runs_sampleLockdown : Prog.Runs lockedBoot sampleLockdown (some ()) := by
  have hrun := runs_sampleInitEnv lockedBoot []
  have hreturned : (Prog.exec sampleInitEnv lockedBoot []).2 = some () := by decide +kernel
  rwa [hreturned] at hrun

theorem not_lockedDown_of_runs_root : ¬ LockedDown (rootTable.after sampleLockdown) :=
  not_lockedDown_of_runs rootTable runs_sampleLockdown

/-- With every mount made and every remount done, `/dev` can be written to and executed from. -/
theorem writable_executable_dev_remains :
    ¬ ∀ (m : MountTable) (t : InitTrace), Prog.Runs lockedBoot t (some ()) →
      LockedDown (m.after t) := by
  intro hall
  exact not_lockedDown_of_dev (after_dev rootTable runs_sampleLockdown)
    (hall rootTable sampleLockdown runs_sampleLockdown)

end SevMicroLoader.Boot
