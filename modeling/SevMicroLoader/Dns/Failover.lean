import Mathlib.Data.List.Infix
import SevMicroLoader.Dns.Cache

/-!
# Failing over to the next resolver

`attempt` is what is done with one resolver, and `establishFrom` goes on after the outcomes that it
collects as errors. A `Scripted` resolver comes with the trace and the outcome of its attempt;
under an environment that follows such scripts there is exactly one run (`cases_of_runs`).

A failed key agreement is returned at once, so that the later resolvers are not tried:
the run fails over as it should exactly when no such failure stands in the way (`fails_over_iff`).
-/

namespace SevMicroLoader.Dns
open Rust

/-! ## One resolver -/

/-- How the attempt with one resolver ends. -/
inductive Outcome
  | queryFailed (e : String)
  | noValidCert
  /-- There was a valid certificate, but no agreement under it. -/
  | agreementFailed (e : String)
  | success (session : DnscryptClientState)
  deriving DecidableEq

variable (K : Packages)

/-- The body of the loop over the resolvers, up to what it does with the outcome. -/
def attempt (resolver : HardcodedResolver) : Client Outcome := do
  match ← sendDnsQuery resolver.ip (buildTxtRecordQuery resolver.providerName) false with
  | .error e => pure (.queryFailed e)
  | .ok respData =>
      let certsRaw ← run (parseTxtResponse respData)
      match ← bestCert K resolver.providerPk certsRaw none with
      | some cert =>
          match ← agree K resolver cert with
          | .error e => pure (.agreementFailed e)
          | .ok session => pure (.success session)
      | none => pure .noValidCert

/-- What the loop does with the outcome. -/
def goOn (resolver : HardcodedResolver) (resolvers : List HardcodedResolver)
    (errors : List String) : Outcome → Client (Except String DnscryptClientState)
  | .queryFailed e =>
      establishFrom K resolvers
        (errors ++ ["Failed to query cert from " ++ resolver.ip.display ++ ": " ++ e])
  | .noValidCert =>
      establishFrom K resolvers
        (errors ++ ["No valid certs found for resolver " ++ resolver.ip.display])
  | .agreementFailed e => pure (.error e)
  | .success session => pure (.ok session)

/-- **The loop is its attempts**, one resolver after the other. -/
theorem establishFrom_cons (resolver : HardcodedResolver) (resolvers : List HardcodedResolver)
    (errors : List String) : establishFrom K (resolver :: resolvers) errors =
      attempt K resolver >>= goOn K resolver resolvers errors := by
  rw [establishFrom, attempt, bind_assoc]
  refine congrArg _ (funext fun reply => ?_)
  cases reply with
  | error e => rfl
  | ok respData =>
      simp only [bind_assoc]
      refine congrArg _ (funext fun certsRaw => congrArg _ (funext fun best => ?_))
      cases best with
      | none => rfl
      | some cert =>
          simp only [bind_assoc]
          conv_lhs => rw [← bind_pure (agree K resolver cert)]
          refine congrArg _ (funext fun result => ?_)
          cases result <;> rfl

/-! ## Scripts -/

/-- A resolver with what happens when it is tried: the trace and the outcome of its attempt. -/
structure Scripted where
  resolver : HardcodedResolver
  trace : Trace
  outcome : Outcome
  runs : Prog.Runs (attempt K resolver) trace (some outcome)

variable {K}

def Scripted.Succeeds (s : Scripted K) : Prop := ∃ session, s.outcome = .success session

/-- The outcome is one that the loop collects. -/
def Scripted.Collected (s : Scripted K) : Prop :=
  (∃ e, s.outcome = .queryFailed e) ∨ s.outcome = .noValidCert

/-- Every attempt starts with a query. -/
theorem Scripted.trace_ne_nil (s : Scripted K) : s.trace ≠ [] := by
  intro hnil
  have hruns := s.runs
  rw [hnil] at hruns
  rcases Prog.Runs.of_call hruns with ⟨_, _, h, -⟩ | ⟨-, h, -⟩
  · cases h
  · cases h

theorem Scripted.Collected.not_succeeds {s : Scripted K} (h : s.Collected) : ¬ s.Succeeds := by
  rintro ⟨session, hsession⟩
  rw [Scripted.Collected, hsession] at h
  rcases h with ⟨e, he⟩ | he
  · cases he
  · cases he

theorem Scripted.Collected.ne_agreementFailed {s : Scripted K} (h : s.Collected) (e : String) :
    s.outcome ≠ .agreementFailed e := by
  intro hfailed
  rw [Scripted.Collected, hfailed] at h
  rcases h with ⟨e', he⟩ | he
  · cases he
  · cases he

variable (K) in
/-- The runs over scripted resolvers in an environment that follows their scripts. -/
def FollowsScripts (scripts : List (Scripted K)) (errors : List String) (t : Trace)
    (o : Option (Except String DnscryptClientState)) : Prop :=
  Prog.Runs (establishFrom K (scripts.map (·.resolver)) errors) t o ∧
    t <+: scripts.flatMap (·.trace)

/-- How a run over `scripts` ended: with the outcome of `s`, which the loop returns, or behind the
last resolver. -/
inductive Ended (scripts : List (Scripted K)) (t : Trace)
    (o : Option (Except String DnscryptClientState)) : Prop
  | success (before after : List (Scripted K)) (s : Scripted K) (session : DnscryptClientState)
      (split : scripts = before ++ s :: after) (collected : ∀ s' ∈ before, s'.Collected)
      (trace : t = (before ++ [s]).flatMap (·.trace)) (outcome : s.outcome = .success session)
      (result : o = some (.ok session))
  | agreementFailed (before after : List (Scripted K)) (s : Scripted K) (e : String)
      (split : scripts = before ++ s :: after) (collected : ∀ s' ∈ before, s'.Collected)
      (trace : t = (before ++ [s]).flatMap (·.trace)) (outcome : s.outcome = .agreementFailed e)
      (result : o = some (.error e))
  | exhausted (e : String) (collected : ∀ s ∈ scripts, s.Collected)
      (trace : t = scripts.flatMap (·.trace)) (result : o = some (.error e))

section Runs
variable {scripts : List (Scripted K)} {errors : List String} {t : Trace}
  {o : Option (Except String DnscryptClientState)} {s : Scripted K}

theorem Ended.cons (hs : s.Collected) (h : Ended scripts t o) :
    Ended (s :: scripts) (s.trace ++ t) o := by
  have hall {before : List (Scripted K)} (hbefore : ∀ s' ∈ before, s'.Collected) :
      ∀ s' ∈ s :: before, s'.Collected := List.forall_mem_cons.mpr ⟨hs, hbefore⟩
  cases h with
  | success before after s' session split collected trace outcome result =>
      exact .success (s :: before) after s' session (by rw [split, List.cons_append])
        (hall collected) (by rw [trace, List.cons_append, List.flatMap_cons]) outcome result
  | agreementFailed before after s' e split collected trace outcome result =>
      exact .agreementFailed (s :: before) after s' e (by rw [split, List.cons_append])
        (hall collected) (by rw [trace, List.cons_append, List.flatMap_cons]) outcome result
  | exhausted e collected trace result =>
      exact .exhausted e (hall collected) (by rw [trace, List.flatMap_cons]) result

/-- In an environment of scripts, the attempt of the first resolver goes by its script. -/
theorem FollowsScripts.cons (h : FollowsScripts K (s :: scripts) errors t o) :
    ∃ t', t = s.trace ++ t' ∧ t' <+: scripts.flatMap (·.trace) ∧
      Prog.Runs (goOn K s.resolver (scripts.map (·.resolver)) errors s.outcome) t' o := by
  obtain ⟨hrun, hpre⟩ := h
  rw [List.map_cons, establishFrom_cons] at hrun
  rw [List.flatMap_cons] at hpre
  rcases hrun.of_bind with ⟨t₁, outcome, t₂, rfl, hfirst, hrest⟩ | ⟨hstop, -⟩
  · obtain ⟨rfl, houtcome⟩ := hfirst.unique s.runs
      ((List.prefix_append t₁ t₂).trans hpre) (List.prefix_append _ _)
    cases houtcome
    exact ⟨t₂, rfl, (List.prefix_append_right_inj _).mp hpre, hrest⟩
  · obtain ⟨-, hnone⟩ := hstop.unique s.runs hpre (List.prefix_append _ _)
    cases hnone

/-- **How every run over scripts ends.** -/
theorem ended_of_follows (h : FollowsScripts K scripts errors t o) : Ended scripts t o := by
  induction scripts generalizing errors t with
  | nil =>
      obtain ⟨rfl, rfl⟩ := Prog.Runs.of_pure h.1
      exact .exhausted _ (by simp) rfl rfl
  | cons s scripts ih =>
      obtain ⟨t', rfl, hpre, hrest⟩ := h.cons
      cases houtcome : s.outcome with
      | queryFailed e =>
          rw [houtcome] at hrest
          exact (ih ⟨hrest, hpre⟩).cons (.inl ⟨e, houtcome⟩)
      | noValidCert =>
          rw [houtcome] at hrest
          exact (ih ⟨hrest, hpre⟩).cons (.inr houtcome)
      | agreementFailed e =>
          rw [houtcome] at hrest
          obtain ⟨rfl, rfl⟩ := Prog.Runs.of_pure hrest
          exact .agreementFailed [] scripts s e rfl (by simp) (by simp) houtcome rfl
      | success session =>
          rw [houtcome] at hrest
          obtain ⟨rfl, rfl⟩ := Prog.Runs.of_pure hrest
          exact .success [] scripts s session rfl (by simp) (by simp) houtcome rfl

/-- There is a run under every list of scripts. -/
theorem exists_follows (scripts : List (Scripted K)) (errors : List String) :
    ∃ t result, FollowsScripts K scripts errors t (some result) := by
  induction scripts generalizing errors with
  | nil => exact ⟨[], _, .ret _, List.prefix_rfl⟩
  | cons s scripts ih =>
      have hrest : ∃ t result, Prog.Runs (goOn K s.resolver (scripts.map (·.resolver)) errors
          s.outcome) t (some result) ∧ t <+: scripts.flatMap (·.trace) := by
        cases s.outcome with
        | queryFailed e => exact ih _
        | noValidCert => exact ih _
        | agreementFailed e => exact ⟨[], _, .ret _, List.nil_prefix⟩
        | success session => exact ⟨[], _, .ret _, List.nil_prefix⟩
      obtain ⟨t, result, hrun, hpre⟩ := hrest
      refine ⟨s.trace ++ t, result, ?_, ?_⟩
      · rw [List.map_cons, establishFrom_cons]
        exact s.runs.bind hrun
      · rw [List.flatMap_cons]
        exact (List.prefix_append_right_inj _).mpr hpre

end Runs

/-! ## The law -/

/-- The run does what failing over is for. -/
structure FailsOver (scripts : List (Scripted K)) (t : Trace)
    (result : Except String DnscryptClientState) : Prop where
  /-- There is a session exactly when the attempt with some resolver is a full success. -/
  ok_iff : (∃ session, result = .ok session) ↔ ∃ s ∈ scripts, s.Succeeds
  /-- It is the session of the first such resolver. -/
  first : ∀ session, result = .ok session → ∃ before s after, scripts = before ++ s :: after ∧
    (∀ s' ∈ before, ¬ s'.Succeeds) ∧ s.outcome = .success session
  /-- A resolver is tried unless an earlier one succeeds. -/
  tried : ∀ before s after, scripts = before ++ s :: after → (∀ s' ∈ before, ¬ s'.Succeeds) →
    (before ++ [s]).flatMap (·.trace) <+: t

/-- A failed key agreement comes after a success, or at the last resolver. -/
def NoEarlyAgreementFailure (scripts : List (Scripted K)) : Prop :=
  ∀ before s after e, scripts = before ++ s :: after → s.outcome = .agreementFailed e →
    (∃ s' ∈ before, s'.Succeeds) ∨ after = []

/-- Of two places in a list, the first is not behind the second, or the second is before it. -/
theorem prefix_or_mem {α : Type} {l b a b' a' : List α} {x x' : α} (h : l = b ++ x :: a)
    (h' : l = b' ++ x' :: a') : b ++ [x] <+: b' ++ [x'] ∨ x' ∈ b := by
  have hpre : b ++ [x] <+: l := ⟨a, by rw [h, List.append_assoc, List.singleton_append]⟩
  have hpre' : b' ++ [x'] <+: l := ⟨a', by rw [h', List.append_assoc, List.singleton_append]⟩
  rcases List.prefix_or_prefix_of_prefix hpre hpre' with hle | hge
  · exact .inl hle
  · rcases List.prefix_concat_iff.mp hge with heq | hlt
    · exact .inl (heq ▸ List.prefix_rfl)
    · exact .inr (hlt.subset (List.mem_append_right _ (List.mem_singleton_self _)))

section Law
variable {scripts before after : List (Scripted K)} {t : Trace} {s : Scripted K}
  {session : DnscryptClientState} {result : Except String DnscryptClientState} {e : String}

/-- Nothing stands in the way of a success behind collected outcomes. -/
theorem failsOver_of_success (split : scripts = before ++ s :: after)
    (collected : ∀ s' ∈ before, s'.Collected) (trace : t = (before ++ [s]).flatMap (·.trace))
    (outcome : s.outcome = .success session) :
    FailsOver scripts t (.ok session) ∧ NoEarlyAgreementFailure scripts := by
  have hsucceeds : s.Succeeds := ⟨session, outcome⟩
  have hmem : s ∈ scripts := split ▸ List.mem_append_right _ List.mem_cons_self
  constructor
  · constructor
    case ok_iff => exact iff_of_true ⟨session, rfl⟩ ⟨s, hmem, hsucceeds⟩
    case first =>
      intro session' hsession
      cases hsession
      exact ⟨before, s, after, split,
        fun s' hs' => (collected s' hs').not_succeeds, outcome⟩
    case tried =>
      intro b x a hsplit hnone
      rcases prefix_or_mem hsplit split with hpre | hs
      · rw [trace]
        exact hpre.flatMap _
      · exact absurd hsucceeds (hnone s hs)
  · intro b x a e hsplit hfailed
    rcases prefix_or_mem hsplit split with hpre | hs
    · have hx : x ∈ before ++ [s] :=
        hpre.subset (List.mem_append_right _ (List.mem_singleton_self _))
      rcases List.mem_append.mp hx with hx | hx
      · exact absurd hfailed ((collected x hx).ne_agreementFailed e)
      · rw [List.mem_singleton.mp hx, outcome] at hfailed
        cases hfailed
    · exact .inl ⟨s, hs, hsucceeds⟩

/-- A run that ends without a session behind the last resolver has failed over. -/
theorem failsOver_of_none (hnone : ∀ s ∈ scripts, ¬ s.Succeeds)
    (trace : t = scripts.flatMap (·.trace)) : FailsOver scripts t (.error e) := by
  constructor
  case ok_iff =>
    refine iff_of_false ?_ ?_
    · rintro ⟨session, h⟩
      cases h
    · rintro ⟨s, hs, hsucceeds⟩
      exact hnone s hs hsucceeds
  case first =>
    intro session h
    cases h
  case tried =>
    intro b x a hsplit _
    rw [trace]
    have hpre : b ++ [x] <+: scripts :=
      ⟨a, by rw [hsplit, List.append_assoc, List.singleton_append]⟩
    exact hpre.flatMap _

/-- A failed agreement behind collected outcomes is the end of the run. -/
theorem failsOver_iff_of_agreementFailed (split : scripts = before ++ s :: after)
    (collected : ∀ s' ∈ before, s'.Collected) (trace : t = (before ++ [s]).flatMap (·.trace))
    (outcome : s.outcome = .agreementFailed e) :
    FailsOver scripts t (.error e) ↔ NoEarlyAgreementFailure scripts := by
  have hfails : ¬ s.Succeeds := by
    rintro ⟨session, h⟩
    rw [outcome] at h
    cases h
  have hnone : ∀ s' ∈ before ++ [s], ¬ s'.Succeeds := by
    intro s' hs'
    rcases List.mem_append.mp hs' with hs' | hs'
    · exact (collected s' hs').not_succeeds
    · rw [List.mem_singleton.mp hs']
      exact hfails
  cases after with
  | nil =>
      rw [split] at *
      refine iff_of_true (failsOver_of_none hnone trace) ?_
      intro b x a e' hsplit hfailed
      rcases prefix_or_mem rfl hsplit with hpre | hx
      · have hlen := hpre.length_le
        have heq := congrArg List.length hsplit
        simp only [List.length_append, List.length_cons, List.length_nil] at hlen heq
        exact .inr (List.length_eq_zero_iff.mp (by omega))
      · exact absurd hfailed ((collected x hx).ne_agreementFailed e')
  | cons s' after =>
      refine iff_of_false (fun h => ?_) (fun h => ?_)
      · -- the next resolver would have to be tried
        have htried := h.tried (before ++ [s]) s' after
          (by rw [split, List.append_assoc, List.singleton_append]) hnone
        have hlen := htried.length_le
        rw [trace, List.flatMap_append, List.length_append, List.flatMap_singleton] at hlen
        exact s'.trace_ne_nil (List.length_eq_zero_iff.mp (by omega))
      · rcases h before s (s' :: after) e split outcome with ⟨s'', hs'', hsucceeds⟩ | hnil
        · exact hnone s'' (List.mem_append_left _ hs'') hsucceeds
        · cases hnil

end Law

/-- **When the session fails over.** For every list of resolvers and whatever their attempts end
in, there is one run in an environment of these attempts. It does what failing over is for exactly
when no failed key agreement comes before the first success and before another resolver. -/
theorem fails_over_iff (scripts : List (Scripted K)) :
    ∃ t result, FollowsScripts K scripts [] t (some result) ∧
      (∀ t' o, FollowsScripts K scripts [] t' o → t' = t ∧ o = some result) ∧
      (FailsOver scripts t result ↔ NoEarlyAgreementFailure scripts) := by
  obtain ⟨t, result, hfollows⟩ := exists_follows scripts []
  refine ⟨t, result, hfollows, fun t' o h => ?_, ?_⟩
  · obtain ⟨rfl, rfl⟩ := h.1.unique hfollows.1 h.2 hfollows.2
    exact ⟨rfl, rfl⟩
  · cases ended_of_follows hfollows with
    | success before after s session split collected trace outcome hresult =>
        cases hresult
        have h := failsOver_of_success split collected trace outcome
        exact iff_of_true h.1 h.2
    | agreementFailed before after s e split collected trace outcome hresult =>
        cases hresult
        exact failsOver_iff_of_agreementFailed split collected trace outcome
    | exhausted e collected trace hresult =>
        cases hresult
        refine iff_of_true
          (failsOver_of_none (fun s hs => (collected s hs).not_succeeds) trace) ?_
        intro b x a e' hsplit hfailed
        have hx : x ∈ scripts := hsplit ▸ List.mem_append_right _ List.mem_cons_self
        exact absurd hfailed ((collected x hx).ne_agreementFailed e')

/-! ## A resolver that is not tried -/

/-- The environment of one time, where no agreement with the resolver's key succeeds. -/
def refusingEnv (past : Trace) : (c : Call) → Option c.Reply
  | .agreeEphemeral _ _ => some none
  | c => sampleEnv true 1780272100 past c

theorem refusingEnv_replies (past : Trace) (c : Call) (h : refusingEnv past c = none) :
    IsEmpty c.Reply := by
  cases c with
  | agreeEphemeral sk peerPk => cases h
  | _ => exact @sampleEnv_replies true 1780272100 past _ h

def sampleResolver (ip : Bytes) : HardcodedResolver :=
  ⟨⟨padded 4 ip, 8443⟩, "2.dnscrypt-cert.quad9.net", quad9Pk⟩

/-- Its certificate is valid, and names a key under which there is no agreement. -/
def refusing : Scripted samplePackages where
  resolver := sampleResolver [9, 9, 9, 9]
  trace := (Prog.exec refusingEnv (attempt samplePackages (sampleResolver [9, 9, 9, 9])) []).1
  outcome := .agreementFailed "X25519 agreement failed: Unspecified"
  runs := by
    have hrun := Prog.runs_exec refusingEnv_replies
      (attempt samplePackages (sampleResolver [9, 9, 9, 9])) []
    have hend : (Prog.exec refusingEnv (attempt samplePackages (sampleResolver [9, 9, 9, 9]))
        []).2 = some (.agreementFailed "X25519 agreement failed: Unspecified") := by
      decide +kernel
    rwa [hend] at hrun

def sampleSession : DnscryptClientState where
  resolverIp := ⟨padded 4 [149, 112, 112, 112], 8443⟩
  clientPkBytes := padded 32 [7]
  clientMagic := padded 8 (List.replicate 8 3)
  sharedKey := padded 32 (List.replicate 32 5)
  tsEnd := 1780280000

/-- The next resolver would serve. -/
def serving : Scripted samplePackages where
  resolver := sampleResolver [149, 112, 112, 112]
  trace := (Prog.exec (sampleEnv true 1780272100)
    (attempt samplePackages (sampleResolver [149, 112, 112, 112])) []).1
  outcome := .success sampleSession
  runs := by
    have hrun := Prog.runs_exec (@sampleEnv_replies true 1780272100)
      (attempt samplePackages (sampleResolver [149, 112, 112, 112])) []
    have hend : (Prog.exec (sampleEnv true 1780272100)
        (attempt samplePackages (sampleResolver [149, 112, 112, 112])) []).2 =
          some (.success sampleSession) := by
      decide +kernel
    rwa [hend] at hrun

/-- The run ends with the failed agreement, and the resolver that serves is not tried. -/
theorem refusing_strands_serving :
    FollowsScripts samplePackages [refusing, serving] [] refusing.trace
        (some (.error "X25519 agreement failed: Unspecified")) ∧
      ¬ FailsOver [refusing, serving] refusing.trace
        (.error "X25519 agreement failed: Unspecified") ∧
      ¬ ∀ (K : Packages) (scripts : List (Scripted K)) (t : Trace)
        (result : Except String DnscryptClientState),
        FollowsScripts K scripts [] t (some result) → FailsOver scripts t result := by
  have hfollows : FollowsScripts samplePackages [refusing, serving] [] refusing.trace
      (some (.error "X25519 agreement failed: Unspecified")) := by
    refine ⟨?_, List.prefix_append _ _⟩
    have hrest : Prog.Runs (goOn samplePackages refusing.resolver [serving.resolver] []
        refusing.outcome) [] (some (.error "X25519 agreement failed: Unspecified")) := .ret _
    have hrun := refusing.runs.bind hrest
    rwa [List.append_nil, ← establishFrom_cons] at hrun
  have hnot : ¬ FailsOver [refusing, serving] refusing.trace
      (.error "X25519 agreement failed: Unspecified") := by
    intro h
    obtain ⟨session, hsession⟩ :=
      h.ok_iff.mpr ⟨serving, List.mem_cons_of_mem _ (List.mem_singleton_self _), _, rfl⟩
    cases hsession
  exact ⟨hfollows, hnot, fun hall => hnot (hall _ _ _ _ hfollows)⟩

end SevMicroLoader.Dns
