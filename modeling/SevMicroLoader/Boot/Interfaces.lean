import SevMicroLoader.Boot.Clock
import SevMicroLoader.Lib.Implement

/-!
# Interfaces through a control socket

`configureLoopback` and `ensureInterfaceUp` are programs over a control socket and its ioctls, with
the `ifreq` of each of them. `netdevice` makes those two calls of a boot by them and leaves the
others as they are.

`Control` follows the sockets that are open and the flags that were read. On every path of a boot
over ioctls the socket is closed again, so that no process is started while one is open, and flags
are only ever added to those an interface has (`boot_over_ioctls`).
-/

namespace SevMicroLoader.Boot
open Rust

/-! ## The requests -/

/-- The requests that set something. -/
inductive SetRequest
  /-- `SIOCSIFADDR`. -/
  | addr
  /-- `SIOCSIFNETMASK`. -/
  | netmask
  /-- `SIOCSIFFLAGS`. -/
  | flags
  deriving DecidableEq

/-- The text in front of the error of a request. -/
def SetRequest.text : SetRequest → String
  | .addr => "SIOCSIFADDR"
  | .netmask => "SIOCSIFNETMASK"
  | .flags => "SIOCSIFFLAGS"

def iffUp : UInt16 := 0x1

def iffRunning : UInt16 := 0x40

/-- An `ifreq`: the name of an interface in 16 bytes, and a union in 24. -/
def ifreq (name union : Bytes) : ByteArr 40 :=
  ⟨resized name 16 0 ++ resized union 24 0, by
    rw [List.length_append, length_resized, length_resized]⟩

/-- `flags.to_ne_bytes()`, on x86-64. -/
def flagBytes (flags : UInt16) : Bytes := Endian.toLE 2 flags.toNat

/-- A `sockaddr_in`: `AF_INET`, no port, an address and zeros. -/
def sockaddrIn (octets : Bytes) : Bytes := [2, 0] ++ [0, 0] ++ octets ++ List.replicate 8 0

/-- What a boot over ioctls asks of its environment. -/
inductive NetCall
  /-- `socket(AF_INET, SOCK_DGRAM, 0)`. -/
  | socket
  | set (sock : ℕ) (request : SetRequest) (ifr : ByteArr 40)
  /-- `SIOCGIFFLAGS`, with the flags that it writes behind the name. -/
  | getFlags (sock : ℕ) (ifr : ByteArr 40)
  | close (sock : ℕ)
  /-- A call of the boot that goes to no interface. -/
  | init (c : InitCall)

/-- What the environment answers. -/
abbrev NetCall.Reply : NetCall → Type
  | .socket => Except String ℕ
  | .set _ _ _ => Except String Unit
  | .getFlags _ _ => Except String UInt16
  | .close _ => Unit
  | .init c => c.Reply

/-- A program over the control socket. -/
abbrev Net := Prog NetCall NetCall.Reply

/-- A trace over ioctls. -/
abbrev NetTrace := List (Prog.Event NetCall NetCall.Reply)

/-! ## The two functions -/

section Programs
variable {α β : Type}

/-- After an error the socket is closed, and the error is returned. -/
def orClose (sock : ℕ) (what : String) (result : Except String α)
    (rest : α → Net (Except String β)) : Net (Except String β) :=
  match result with
  | .error e => do
      let _ ← Prog.perform (NetCall.close sock)
      pure (.error (what ++ ": " ++ e))
  | .ok a => rest a

/-- One setting, and the rest if it succeeds. -/
def setOrClose (sock : ℕ) (request : SetRequest) (ifr : ByteArr 40) (rest : Net (Except String β)) :
    Net (Except String β) := do
  let result ← Prog.perform (NetCall.set sock request ifr)
  orClose sock request.text result fun _ => rest

/-- Close the socket, and return. -/
def closeWith (sock : ℕ) (b : β) : Net (Except String β) := do
  let _ ← Prog.perform (NetCall.close sock)
  pure (.ok b)

/-- The body of both functions: what they do with a socket. -/
def withSocket (body : ℕ → Net (Except String β)) : Net (Except String β) := do
  match ← Prog.perform NetCall.socket with
  | .error e => pure (.error ("socket(): " ++ e))
  | .ok sock => body sock

end Programs

/-- Address, netmask and flags of `lo`, in this order. -/
def configureLoopback : Net (Except String Unit) :=
  withSocket fun sock =>
    setOrClose sock .addr (ifreq (bstr "lo") (sockaddrIn [127, 0, 0, 1])) <|
    setOrClose sock .netmask (ifreq (bstr "lo") (sockaddrIn [255, 0, 0, 0])) do
    let flags ← Prog.perform (NetCall.getFlags sock (ifreq (bstr "lo") []))
    orClose sock "SIOCGIFFLAGS" flags fun flags =>
    setOrClose sock .flags (ifreq (bstr "lo") (flagBytes (flags ||| iffUp ||| iffRunning))) <|
    closeWith sock ()

/-- Whether the interface had to be brought up. Its name is cut to 15 bytes. -/
def ensureInterfaceUp (name : String) : Net (Except String Bool) :=
  withSocket fun sock => do
    let nameBytes := (asBytes name).take 15
    let flags ← Prog.perform (NetCall.getFlags sock (ifreq nameBytes []))
    orClose sock "SIOCGIFFLAGS" flags fun flags =>
    if flags &&& iffUp ≠ 0 then closeWith sock false
    else
      setOrClose sock .flags (ifreq nameBytes (flagBytes (flags ||| iffUp))) <|
      closeWith sock true

/-- The calls of a boot, with those to interfaces made through the socket. -/
def netdevice : (c : InitCall) → Net c.Reply
  | .configureLoopback => configureLoopback
  | .ensureInterfaceUp name => ensureInterfaceUp name
  | c => Prog.perform (NetCall.init c)

/-! ## What is done through the socket -/

/-- The sockets that are open, and the name and the flags that were read last. -/
structure Control where
  sockets : List ℕ
  read : Option (Bytes × UInt16)

/-- No socket is open. -/
def Control.start : Control := ⟨[], none⟩

/-- What was read counts while its socket is open. -/
def Control.next (s : Control) : (c : NetCall) → c.Reply → Control
  | .socket, .ok sock => ⟨sock :: s.sockets, none⟩
  | .getFlags _ ifr, .ok flags => { s with read := some (ifr.val.take 16, flags) }
  | .close sock, _ => ⟨s.sockets.erase sock, none⟩
  | _, _ => s

/-- The control sockets after a trace. -/
def control (u : NetTrace) : Control := Prog.after Control.next .start u

/-- What a call may do: there is one socket at a time, and none at a call that goes to no interface.
Only the loopback interface gets an address, its own; and flags are set to those that were read for
the same interface, with some added to them. -/
def Careful (s : Control) : NetCall → Prop
  | .socket => s.sockets = []
  | .set sock .addr ifr =>
      s.sockets = [sock] ∧ ifr = ifreq (bstr "lo") (sockaddrIn [127, 0, 0, 1])
  | .set sock .netmask ifr =>
      s.sockets = [sock] ∧ ifr = ifreq (bstr "lo") (sockaddrIn [255, 0, 0, 0])
  | .set sock .flags ifr => s.sockets = [sock] ∧ ∃ name flags added,
      s.read = some (resized name 16 0, flags) ∧ ifr = ifreq name (flagBytes (flags ||| added))
  | .getFlags sock _ => s.sockets = [sock]
  | .close sock => s.sockets = [sock]
  | .init _ => s.sockets = []

/-- A call through the socket. -/
def OnSocket : NetCall → Prop
  | .init _ => False
  | _ => True

section Closes
variable {α β : Type} {s : Control} {sock : ℕ} {name : Bytes}

/-- The judgement used here: every call goes through the socket and is careful, and none is open
at the end. -/
abbrev Closes (p : Net α) (s : Control) : Prop :=
  Prog.Holds Control.next (fun s c => OnSocket c ∧ Careful s c) (fun s' _ => s'.sockets = []) p s

theorem take_ifreq (name union : Bytes) : (ifreq name union).val.take 16 = resized name 16 0 :=
  List.take_left' (length_resized name 16 0)

theorem closes_close (hs : s.sockets = [sock]) (b : β) :
    Closes (Prog.perform (NetCall.close sock) >>= fun _ => pure b : Net β) s := by
  refine Prog.holds_perform_bind.mpr ⟨⟨trivial, hs⟩, fun _ => ?_⟩
  change s.sockets.erase sock = []
  rw [hs]
  exact List.erase_cons_head sock []

theorem closes_orClose {what : String} {result : Except String α}
    {rest : α → Net (Except String β)} (hs : s.sockets = [sock])
    (hok : ∀ a, result = .ok a → Closes (rest a) s) :
    Closes (orClose sock what result rest) s := by
  cases result with
  | error e => exact closes_close hs _
  | ok a => exact hok a rfl

theorem closes_setOrClose {request : SetRequest} {ifr : ByteArr 40}
    {rest : Net (Except String β)} (hs : s.sockets = [sock])
    (hset : Careful s (.set sock request ifr)) (hrest : Closes rest s) :
    Closes (setOrClose sock request ifr rest) s :=
  Prog.holds_perform_bind.mpr
    ⟨⟨trivial, hset⟩, fun _ => closes_orClose (s := s) hs fun _ _ => hrest⟩

/-- The flags are read, and more of them are set. -/
theorem closes_getFlags {rest : UInt16 → Net (Except String β)} (hs : s.sockets = [sock])
    (hrest : ∀ flags, Closes (rest flags) ⟨[sock], some (resized name 16 0, flags)⟩) :
    Closes (Prog.perform (NetCall.getFlags sock (ifreq name [])) >>= fun flags =>
      orClose sock "SIOCGIFFLAGS" flags rest) s := by
  refine Prog.holds_perform_bind.mpr ⟨⟨trivial, hs⟩, fun result => ?_⟩
  cases result with
  | error e => exact closes_close (s := s) hs _
  | ok flags =>
      have hread : s.next (.getFlags sock (ifreq name [])) (.ok flags) =
          ⟨[sock], some (resized name 16 0, flags)⟩ := by
        rw [← hs, ← take_ifreq name []]
        rfl
      rw [hread]
      exact hrest flags

theorem closes_withSocket {body : ℕ → Net (Except String β)} (hs : s.sockets = [])
    (hbody : ∀ sock, Closes (body sock) ⟨[sock], none⟩) : Closes (withSocket body) s := by
  refine Prog.holds_perform_bind.mpr ⟨⟨trivial, hs⟩, fun result => ?_⟩
  cases result with
  | error e => exact hs
  | ok sock =>
      have hopen : s.next .socket (.ok sock) = ⟨[sock], none⟩ := by
        rw [← hs]
        rfl
      rw [hopen]
      exact hbody sock

theorem closes_configureLoopback (hs : s.sockets = []) : Closes configureLoopback s := by
  refine closes_withSocket hs fun sock => ?_
  refine closes_setOrClose rfl ⟨rfl, rfl⟩ (closes_setOrClose rfl ⟨rfl, rfl⟩ ?_)
  refine closes_getFlags rfl fun flags => ?_
  refine closes_setOrClose rfl ⟨rfl, _, flags, iffUp ||| iffRunning, rfl, ?_⟩ (closes_close rfl _)
  rw [UInt16.or_assoc]

theorem closes_ensureInterfaceUp (hs : s.sockets = []) (name : String) :
    Closes (ensureInterfaceUp name) s := by
  refine closes_withSocket hs fun sock => ?_
  refine closes_getFlags rfl fun flags => ?_
  refine Prog.holds_ite.mpr ⟨fun _ => closes_close rfl _, fun _ => ?_⟩
  exact closes_setOrClose rfl ⟨rfl, _, flags, iffUp, rfl, rfl⟩ (closes_close rfl _)

end Closes

/-! ## Boots over ioctls -/

theorem OnSocket.replied {c : NetCall} (h : OnSocket c) : Nonempty c.Reply := by
  cases c with
  | socket => exact ⟨.error ""⟩
  | set sock request ifr => exact ⟨.error ""⟩
  | getFlags sock ifr => exact ⟨.error ""⟩
  | close sock => exact ⟨()⟩
  | init c => exact h.elim

/-- What closes its socket returns. -/
theorem Closes.returns {α : Type} {p : Net α} {s : Control} (h : Closes p s) {u : NetTrace}
    {o : Option α} (hrun : Prog.Runs p u o) : ∃ a, o = some a :=
  Prog.Holds.returns h (fun _ _ hc => hc.1.replied) hrun

theorem isEmpty_of_netdevice (c : InitCall) (u : NetTrace)
    (h : Prog.Runs (netdevice c) u none) : IsEmpty c.Reply := by
  cases c with
  | configureLoopback =>
      obtain ⟨r, hr⟩ := (closes_configureLoopback (s := .start) rfl).returns h
      cases hr
  | ensureInterfaceUp name =>
      obtain ⟨r, hr⟩ := (closes_ensureInterfaceUp (s := .start) rfl name).returns h
      cases hr
  | _ => exact Prog.Runs.isEmpty_of_perform (e := NetCall.init _) h

/-- Between the calls of a boot no socket is open. -/
theorem holds_netdevice (c : InitCall) (s : Control) (hs : s.sockets = []) :
    Prog.Holds Control.next Careful (fun s' _ => s'.sockets = []) (netdevice c) s := by
  cases c with
  | configureLoopback =>
      exact (closes_configureLoopback hs).map (f := id) (fun _ _ _ => rfl) (fun _ _ h => h.2)
        fun _ _ h => h
  | ensureInterfaceUp name =>
      exact (closes_ensureInterfaceUp hs name).map (f := id) (fun _ _ _ => rfl)
        (fun _ _ h => h.2) fun _ _ h => h
  | _ => exact ⟨hs, fun _ => hs⟩

/-- **A boot over ioctls is a boot**, and it is careful: every socket is closed before the next call
that goes to no interface, so that no process inherits one; only the loopback interface gets an
address; and no flag of an interface is ever cleared. -/
theorem boot_over_ioctls (K : Dns.Packages) (X : Externals) {u : NetTrace} {o : Option (ℕ × ℕ)}
    (hrun : Prog.Runs ((initMain K X).implement netdevice) u o) :
    (∃ t, Prog.Runs (initMain K X) t o ∧ Prog.Realises netdevice t u) ∧
      ∀ u₁ c reply u₂, u = u₁ ++ ⟨c, reply⟩ :: u₂ → Careful (control u₁) c := by
  have hcareful :=
    (Prog.holds_implement holds_netdevice (initMain K X) (s := .start) rfl).sound hrun
  exact ⟨(Prog.runs_implement_iff isEmpty_of_netdevice).mp hrun,
    fun u₁ c reply u₂ hu => hcareful.1 u₁ _ u₂ hu⟩

/-- Interfaces that are down, and else the sample boot. -/
def sampleNetEnv (_ : NetTrace) : (c : NetCall) → Option c.Reply
  | .socket => some (.ok 3)
  | .set _ _ _ => some (.ok ())
  | .getFlags _ _ => some (.ok 0x1002)
  | .close _ => some ()
  | .init c => sampleInitEnv [] c

/-- The boot in the environment above. -/
def sampleNetRun : NetTrace × Option (ℕ × ℕ) :=
  Prog.exec sampleNetEnv ((initMain sampleDnsPackages sampleExternals).implement netdevice) []

/-- The flags that an event sets. -/
def setFlags : Prog.Event NetCall NetCall.Reply → Option Bytes
  | ⟨.set _ .flags ifr, _⟩ => some ((ifr.val.drop 16).take 2)
  | _ => none

theorem boot_over_ioctls_sample :
    sampleNetRun.1.filterMap setFlags = [flagBytes 0x1043, flagBytes 0x1003] ∧
      ∀ u₁ c reply u₂, sampleNetRun.1 = u₁ ++ ⟨c, reply⟩ :: u₂ → Careful (control u₁) c := by
  have hrun : Prog.Runs ((initMain sampleDnsPackages sampleExternals).implement netdevice)
      sampleNetRun.1 sampleNetRun.2 := by
    apply Prog.runs_exec
    intro past c hc
    cases c with
    | init c => exact sampleInitEnv_replies [] c hc
    | _ => cases hc
  exact ⟨by decide +kernel, (boot_over_ioctls _ _ hrun).2⟩

end SevMicroLoader.Boot
