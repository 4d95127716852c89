import SevMicroLoader.Attestation.Service
import SevMicroLoader.Boot.Order

/-!
# One executable, two processes

`main` is PID 1, unless its arguments ask for the attestation server. PID 1 starts the attestation
server as a second process of the same executable and hands it the hash of the payload in the
arguments. `Reported` follows a response back from the handler that writes it, over the accept loop
and the process, to a boot; `report_vouches_for_payload` says what stands behind it there.
-/

namespace SevMicroLoader.Boot
open Rust

/-! ## The two processes -/

variable {hashHex : String} {cmd : Command}

/-- The calls in front of the boot sequence leave the world as it is. -/
def World.nextInit (w : World) : (c : InitCall) → c.Reply → World
  | .loader c, r => w.next c r
  | _, _ => w

/-- A child is only started as the boot sequence allows. -/
def Starts (X : Externals) (w : World) : InitCall → Prop
  | .loader (.spawn cmd) => Licensed X w cmd
  | _ => True

/-- What a world has, another one has too. -/
structure Extends (w w' : World) : Prop where
  downloaded : ∀ url body, w.downloaded url = some body → w'.downloaded url = some body
  checks : w'.checks = w.checks
  files : ∀ path content, w.files path = some content → w'.files path = some content
  modes : ∀ path mode, w.modes path = some mode → w'.modes path = some mode
  mounts : ∀ path flags, w.mounts path = some flags → w'.mounts path = some flags
  spawned : w'.spawned = w.spawned

section Extends
variable {w w' : World} {X : Externals}

/-- Updates in one place keep what is there. -/
theorem update_extends {α : Type} {f f' : String → Option α}
    (h : ∀ x a, f x = some a → f' x = some a) (y : String) (v : Option α) :
    ∀ x a, Function.update f y v x = some a → Function.update f' y v x = some a := by
  intro x a hx
  by_cases hxy : x = y
  · subst hxy
    rw [Function.update_self] at hx ⊢
    exact hx
  · rw [Function.update_of_ne hxy] at hx ⊢
    exact h x a hx

theorem Extends.next (h : Extends w w') (c : Call) (r : c.Reply) :
    Extends (w.next c r) (w'.next c r) := by
  cases c with
  | get url =>
      rw [next_get, next_get]
      cases bodyOf r with
      | none => exact { h with }
      | some body => exact { h with downloaded := update_extends h.downloaded _ _ }
  | verify key msg sig => exact { h with checks := congrArg (· ++ [_]) h.checks }
  | write path content =>
      cases r with
      | error e => exact { h with files := update_extends h.files _ _ }
      | ok u => exact { h with files := update_extends h.files _ _ }
  | setPermissions path mode =>
      cases r with
      | error e => exact { h with }
      | ok u => exact { h with modes := update_extends h.modes _ _ }
  | mount source target fstype flags data =>
      cases r with
      | error e => exact { h with }
      | ok u => exact { h with mounts := update_extends h.mounts _ _ }
  | spawn cmd =>
      cases r with
      | error e => exact { h with }
      | ok pid => exact { h with spawned := congrArg (· ++ [cmd]) h.spawned }
  | shutdown message => exact r.elim
  | _ => exact h

theorem Chain.extends {app text sig : Bytes} (hchain : Chain X w app text sig)
    (h : Extends w w') : Chain X w' app text sig where
  app := h.downloaded _ _ hchain.app
  hashText := h.downloaded _ _ hchain.hashText
  sig := h.downloaded _ _ hchain.sig
  hash := hchain.hash
  verified := h.checks.trans hchain.verified
  content := h.files _ _ hchain.content
  mode := h.modes _ _ hchain.mode
  readOnly := by
    obtain ⟨flags, hflags, hremount⟩ := hchain.readOnly
    exact ⟨flags, h.mounts _ _ hflags, hremount⟩

theorem Licensed.extends {cmd : Command} (hcmd : Licensed X w cmd) (h : Extends w w') :
    Licensed X w' cmd := by
  obtain ⟨app, text, sig, hchain, hspawned⟩ := hcmd
  exact ⟨app, text, sig, hchain.extends h, by rwa [h.spawned]⟩

end Extends

/-! ## Every start has the chain behind it -/

/-- Nothing was checked or started. -/
def Untouched (w : World) : Prop := w.checks = [] ∧ w.spawned = []

/-- The calls up to the HTTP client. -/
def Early (c : InitCall) : Prop := ∀ n, rankOf c = some n → n ≤ Stage.client.rank

theorem Untouched.next {w : World} (h : Untouched w) {c : InitCall} (hc : Early c) (r : c.Reply) :
    Untouched (w.nextInit c r) := by
  cases c with
  | loader c =>
      cases c with
      | get url =>
          change Untouched (w.next (.get url) r)
          rw [next_get]
          cases bodyOf r <;> exact h
      | verify key msg sig => exact absurd (hc _ rfl) (by decide)
      | spawn cmd =>
          have hlate := hc _ rfl
          rw [apply_ite Stage.rank] at hlate
          split at hlate <;> exact absurd hlate (by decide)
      | write path content => cases r <;> exact h
      | setPermissions path mode => cases r <;> exact h
      | mount source target fstype flags data => cases r <;> exact h
      | _ => exact h
  | _ => exact h

theorem Early.starts {c : InitCall} (hc : Early c) (X : Externals) (w : World) : Starts X w c := by
  cases c with
  | loader c =>
      cases c with
      | spawn cmd =>
          have hlate := hc _ rfl
          rw [apply_ite Stage.rank] at hlate
          split at hlate <;> exact absurd hlate (by decide)
      | _ => trivial
  | _ => trivial

theorem Untouched.extends {w : World} (h : Untouched w) : Extends .start w where
  downloaded := nofun
  checks := h.1
  files := nofun
  modes := nofun
  mounts := nofun
  spawned := h.2

end SevMicroLoader.Boot
