import SevMicroLoader.Attestation.Ledger

/-!
# The limiter over whole runs

`showsAll_step` is the step of the simulation: one event keeps every entry in line
with its subnet's ledger, and is answered as the ledger answers. `showsAll_run` and
`trace_filter` carry it over runs. Permit accounting, non-interference and the window bound
are read off the ledgers.
-/

namespace SevMicroLoader.Attestation
open Rust SlidingWindow

variable {L : PerSubnetLimiter} {c now : ℕ} {σ : System} {l : Subnet → Ledger}

/-! ## One step -/

/-- Every entry shows its ledger, and the permits held are the live ones. -/
def ShowsAll (L : PerSubnetLimiter) (c : ℕ) (σ : System) (l : Subnet → Ledger) : Prop :=
  ∀ s, Shows L c (state σ.map s) (l s) ∧ σ.held.count ⟨s⟩ = (l s).live

/-- The clock after an event. -/
def Event.clock (c : ℕ) (e : Event) : ℕ := e.time?.getD c

/-- The ledgers after an event: only its own subnet's moves. -/
def ledgersAfter (L : PerSubnetLimiter) (l : Subnet → Ledger) (e : Event) (s : Subnet) : Ledger :=
  if e.subnet = s then (Ledger.step L s (l s) e).1 else l s

theorem ledgersAfter_acquire (ip : IpAddr) (now : ℕ) (s : Subnet) :
    ledgersAfter L l (.acquire ip now) s =
      if Subnet.ofIp ip = s then (Ledger.step L s (l s) (.acquire ip now)).1 else l s := rfl

theorem ledgersAfter_drop (p : SubnetPermit) (s : Subnet) :
    ledgersAfter L l (.drop p) s =
      if p.subnet = s then (Ledger.step L s (l s) (.drop p)).1 else l s := rfl

theorem Nondecreasing.cons {e : Event} {evs : List Event} (h : Nondecreasing c (e :: evs)) :
    c ≤ e.clock c ∧ Nondecreasing (e.clock c) evs := by
  cases e with
  | acquire ip now =>
      obtain ⟨hc, hnow⟩ := List.pairwise_cons.mp h
      exact ⟨hc now (by simp [Event.time?]), hnow⟩
  | drop p => exact ⟨le_rfl, h⟩

/-- The clock after a run. -/
def clockAfter (c : ℕ) (evs : List Event) : ℕ := evs.foldl (fun c e => e.clock c) c

theorem Nondecreasing.append {evs evs' : List Event} (h : Nondecreasing c (evs ++ evs')) :
    Nondecreasing c evs ∧ Nondecreasing (clockAfter c evs) evs' := by
  constructor
  · rw [Nondecreasing, List.filterMap_append, ← List.cons_append] at h
    exact (List.pairwise_append.mp h).1
  · induction evs generalizing c with
    | nil => exact h
    | cons e evs ih => exact ih h.cons.2

theorem Nondecreasing.earlier {evs : List Event} (h : Nondecreasing now evs) (hle : c ≤ now) :
    Nondecreasing c evs := by
  obtain ⟨hnow, htimes⟩ := List.pairwise_cons.mp h
  exact List.pairwise_cons.mpr ⟨fun t ht => hle.trans (hnow t ht), htimes⟩

theorem showsAll_start : ShowsAll L c .start fun _ => .start := by
  intro s
  exact ⟨by simpa [System.start] using shows_start, rfl⟩

/-- Garbage collection before an entry is looked up is invisible. -/
theorem Shows.beforeEntry {map : SubnetMap} {s : Subnet} {k : Ledger}
    (h : Shows L c (state map s) k) (hle : c ≤ now) :
    Shows L now (state (L.beforeEntry now map) s) k := by
  rcases L.state_beforeEntry now map s with heq | heq
  · rw [heq]
    exact h.later hle
  · rw [heq]
    exact (h.later hle).popExpired

/-- A rejected request stores the trimmed entry, and every subnet keeps its ledger. -/
theorem Shows.rejected {map : SubnetMap} {s s' : Subnet} {k : Ledger}
    (h : Shows L c (state map s') k) (hle : c ≤ now) :
    Shows L now
      (state ((L.beforeEntry now map).insert s (L.popExpired now (state map s))) s') k := by
  rw [state_insert]
  by_cases hs : s = s'
  · rw [if_pos hs, hs]
    exact (h.later hle).popExpired
  · rw [if_neg hs]
    exact h.beforeEntry hle

theorem count_cons_permit (held : List SubnetPermit) (s s' : Subnet) :
    List.count (⟨s'⟩ : SubnetPermit) (⟨s⟩ :: held) =
      held.count ⟨s'⟩ + if s = s' then 1 else 0 := by
  by_cases h : s = s' <;> simp [h]

/-- An `acquire` keeps the simulation and is answered as its subnet's ledger answers. -/
theorem showsAll_acquire (h : ShowsAll L c σ l) (ip : IpAddr) (hle : c ≤ now) :
    ShowsAll L now (step L σ (.acquire ip now)).1 (ledgersAfter L l (.acquire ip now)) ∧
      (step L σ (.acquire ip now)).2 =
        (Ledger.step L (Subnet.ofIp ip) (l (Subnet.ofIp ip)) (.acquire ip now)).2 := by
  obtain ⟨hown, hcount⟩ := h (Subnet.ofIp ip)
  have htrim := (hown.later hle).popExpired
  have hrecent := (hown.later hle).requests_popExpired
  have hactive : (state σ.map (Subnet.ofIp ip)).activeConnections.toNat =
      (l (Subnet.ofIp ip)).live := hown.active
  -- a rejected request moves no ledger
  have hsame (hno : (Ledger.step L (Subnet.ofIp ip) (l (Subnet.ofIp ip)) (.acquire ip now)).1 =
      l (Subnet.ofIp ip)) : ledgersAfter L l (.acquire ip now) = l := by
    ext s : 1
    by_cases hs : Subnet.ofIp ip = s
    · subst hs
      rw [ledgersAfter_acquire, if_pos rfl, hno]
    · rw [ledgersAfter_acquire, if_neg hs]
  rcases L.acquire_cases σ.map ip now with ⟨hrate, heq⟩ | ⟨hrate, hconc, heq⟩ | ⟨hrate, hconc, heq⟩
  · rw [hrecent] at hrate
    have hstep : Ledger.step L (Subnet.ofIp ip) (l (Subnet.ofIp ip)) (.acquire ip now) =
        (l (Subnet.ofIp ip), some (.error "rate_limit_exceeded")) := by
      rw [Ledger.step, if_pos hrate]
    rw [hsame (by rw [hstep]), hstep, step, heq]
    exact ⟨fun s => ⟨(h s).1.rejected hle, (h s).2⟩, rfl⟩
  · rw [hrecent] at hrate
    rw [L.activeConnections_popExpired, UInt32.le_iff_toNat_le, hactive] at hconc
    have hstep : Ledger.step L (Subnet.ofIp ip) (l (Subnet.ofIp ip)) (.acquire ip now) =
        (l (Subnet.ofIp ip), some (.error "concurrency_exceeded")) := by
      rw [Ledger.step, if_neg (by omega), if_pos hconc]
    rw [hsame (by rw [hstep]), hstep, step, heq]
    exact ⟨fun s => ⟨(h s).1.rejected hle, (h s).2⟩, rfl⟩
  · rw [hrecent] at hrate
    rw [L.activeConnections_popExpired, UInt32.lt_iff_toNat_lt, hactive] at hconc
    have hstep : Ledger.step L (Subnet.ofIp ip) (l (Subnet.ofIp ip)) (.acquire ip now) =
        (⟨(l (Subnet.ofIp ip)).accepted ++ [now], (l (Subnet.ofIp ip)).live + 1⟩,
          some (.ok ⟨Subnet.ofIp ip⟩)) := by
      rw [Ledger.step, if_neg (by omega), if_neg (by omega)]
    refine ⟨fun s => ?_, by rw [hstep, step, heq]⟩
    simp only [step, heq, state_insert, count_cons_permit]
    by_cases hs : Subnet.ofIp ip = s
    · subst hs
      rw [ledgersAfter_acquire, if_pos rfl, if_pos rfl, if_pos rfl, hstep]
      exact ⟨htrim.accept hrate hconc, by rw [hcount]⟩
    · rw [ledgersAfter_acquire, if_neg hs, if_neg hs, if_neg hs]
      exact ⟨(h s).1.beforeEntry hle, (h s).2⟩

/-- A drop takes one live permit off its subnet's ledger. -/
theorem showsAll_drop (h : ShowsAll L c σ l) (p : SubnetPermit) :
    ShowsAll L c (step L σ (.drop p)).1 (ledgersAfter L l (.drop p)) := by
  intro s
  obtain ⟨hshow, hcount⟩ := h s
  by_cases hs : p.subnet = s
  · obtain rfl : p = ⟨s⟩ := by rw [← hs]
    rw [ledgersAfter_drop, if_pos rfl]
    by_cases hheld : ⟨s⟩ ∈ σ.held
    · obtain ⟨hreq, hact⟩ := state_dropPermit σ.map ⟨s⟩ s
      have hpos : 0 < (l s).live := hcount ▸ List.count_pos_iff.mpr hheld
      have hactive := hshow.active
      have hpred := toNat_saturatingPred (hactive.symm ▸ hpos)
      rw [step, if_pos hheld]
      refine ⟨⟨hshow.sorted, hshow.past, ?_, ?_, ?_, hshow.admitted⟩, ?_⟩
      · rw [hreq]
        exact hshow.requests
      · rw [hact, if_pos rfl, hpred, hactive]
        rfl
      · exact (Nat.sub_le _ _).trans hshow.bounded
      · rw [List.count_erase_self, hcount]
        rfl
    · -- no permit of the subnet is held, so its ledger has no live one to lose
      have hzero : (l s).live = 0 := by
        rw [← hcount]
        exact List.count_eq_zero_of_not_mem hheld
      have hsame : (Ledger.step L s (l s) (.drop ⟨s⟩)).1 = l s := by
        rw [Ledger.step, hzero]
        exact congrArg (Ledger.mk _) hzero.symm
      rw [step, if_neg hheld, hsame]
      exact ⟨hshow, hcount⟩
  · rw [ledgersAfter_drop, if_neg hs]
    by_cases hheld : p ∈ σ.held
    · obtain ⟨hreq, hact⟩ := state_dropPermit σ.map p s
      have hp : p ≠ ⟨s⟩ := fun heq => hs (by rw [heq])
      rw [step, if_pos hheld, List.count_erase_of_ne hp.symm]
      refine ⟨⟨hshow.sorted, hshow.past, ?_, ?_, hshow.bounded, hshow.admitted⟩, hcount⟩
      · rw [hreq]
        exact hshow.requests
      · rw [hact, if_neg hs]
        exact hshow.active
    · rw [step, if_neg hheld]
      exact ⟨hshow, hcount⟩

/-- **The step of the simulation.** -/
theorem showsAll_step (h : ShowsAll L c σ l) (e : Event) (hle : c ≤ e.clock c) :
    ShowsAll L (e.clock c) (step L σ e).1 (ledgersAfter L l e) ∧
      (step L σ e).2 = (Ledger.step L e.subnet (l e.subnet) e).2 := by
  cases e with
  | acquire ip now => exact showsAll_acquire h ip hle
  | drop p =>
      refine ⟨showsAll_drop h p, ?_⟩
      by_cases hheld : p ∈ σ.held <;> simp [step, Ledger.step, hheld]

/-! ## Whole runs -/

/-- Whether an event is about `s`. -/
def about (s : Subnet) (e : Event) : Bool := e.subnet = s

theorem run_ledgersAfter (l : Subnet → Ledger) (e : Event) (evs : List Event) (s : Subnet) :
    Ledger.run L s (ledgersAfter L l e s) (evs.filter (about s)) =
      Ledger.run L s (l s) ((e :: evs).filter (about s)) := by
  by_cases hs : e.subnet = s
  · rw [List.filter_cons_of_pos (by simpa [about] using hs), Ledger.run_cons, ledgersAfter,
      if_pos hs]
  · rw [List.filter_cons_of_neg (by simpa [about] using hs), ledgersAfter, if_neg hs]

/-- A run keeps every entry in line with the ledger of its subnet's own events. -/
theorem showsAll_run (evs : List Event) (h : ShowsAll L c σ l) (hclock : Nondecreasing c evs) :
    ShowsAll L (clockAfter c evs) (run L σ evs)
      fun s => Ledger.run L s (l s) (evs.filter (about s)) := by
  induction evs generalizing c σ l with
  | nil => exact h
  | cons e evs ih =>
      obtain ⟨hle, hclock⟩ := hclock.cons
      have hrun := ih (showsAll_step h e hle).1 hclock
      simp only [run_ledgersAfter] at hrun
      exact hrun

/-- **The simulation.** In any run, a subnet is answered as its own ledger answers its own
events. -/
theorem trace_filter (s : Subnet) (evs : List Event) (h : ShowsAll L c σ l)
    (hclock : Nondecreasing c evs) :
    (trace L σ evs).filter (fun x => about s x.1) =
      Ledger.trace L s (l s) (evs.filter (about s)) := by
  induction evs generalizing c σ l with
  | nil => rfl
  | cons e evs ih =>
      obtain ⟨hle, hclock⟩ := hclock.cons
      obtain ⟨hnext, hanswer⟩ := showsAll_step h e hle
      have htail := ih hnext hclock
      by_cases hs : e.subnet = s
      · subst hs
        rw [ledgersAfter, if_pos rfl] at htail
        rw [trace, List.filter_cons_of_pos (by simp [about]), htail, hanswer,
          List.filter_cons_of_pos (by simp [about]), Ledger.trace]
      · rw [ledgersAfter, if_neg hs] at htail
        rw [trace, List.filter_cons_of_neg (by simpa [about] using hs), htail,
          List.filter_cons_of_neg (by simpa [about] using hs)]

/-! ## Permit accounting -/

/-- **Permit accounting.** After any run, the count of a subnet's entry is the number of its
permits granted and not yet dropped, within `maxConcurrent`. While one is live, the entry is there
with a positive count, garbage collection at any time keeps it, and a drop takes exactly one. -/
theorem permits_accounted (L : PerSubnetLimiter) (evs : List Event) (h : Nondecreasing 0 evs)
    (s : Subnet) :
    let σ := run L .start evs
    (state σ.map s).activeConnections.toNat = σ.held.count ⟨s⟩ ∧
    σ.held.count ⟨s⟩ ≤ L.maxConcurrent.toNat ∧
    (⟨s⟩ ∈ σ.held →
      (∃ st, σ.map[s]? = some st ∧ 0 < st.activeConnections.toNat) ∧
      (∀ now, ∃ st, (L.collectGarbage now σ.map)[s]? = some st ∧
        0 < st.activeConnections.toNat) ∧
      (state (dropPermit σ.map ⟨s⟩) s).activeConnections.toNat + 1 =
        (state σ.map s).activeConnections.toNat) := by
  intro σ
  obtain ⟨hshow, hcount⟩ := showsAll_run (L := L) evs showsAll_start h s
  have hactive : (state σ.map s).activeConnections.toNat = σ.held.count ⟨s⟩ :=
    hshow.active.trans hcount.symm
  refine ⟨hactive, hcount ▸ hshow.bounded, fun hlive => ?_⟩
  have hpos : 0 < (state σ.map s).activeConnections.toNat := by
    rw [hactive]
    exact List.count_pos_iff.mpr hlive
  refine ⟨getElem?_of_active hpos, fun now => ?_, ?_⟩
  · apply getElem?_of_active
    rw [L.state_collectGarbage]
    exact hpos
  · rw [(state_dropPermit σ.map ⟨s⟩ s).2, if_pos rfl, toNat_saturatingPred hpos]
    omega

/-- Two clients of `192.0.2.0/24`, one of whom leaves. -/
def twoClients : List Event :=
  [.acquire (.v4 ⟨[192, 0, 2, 7], rfl⟩) 5, .acquire (.v4 ⟨[192, 0, 2, 9], rfl⟩) 6,
    .drop ⟨.v4 ⟨[192, 0, 2], rfl⟩⟩]

/-- The other client's permit outlives a collection after the window. -/
theorem permits_accounted_two_clients :
    (state (run ⟨10, 3000000000, 2⟩ .start twoClients).map
      (.v4 ⟨[192, 0, 2], rfl⟩)).activeConnections.toNat = 1 ∧
    ∃ st, (PerSubnetLimiter.collectGarbage ⟨10, 3000000000, 2⟩ 4000000000
        (run ⟨10, 3000000000, 2⟩ .start twoClients).map)[Subnet.v4 ⟨[192, 0, 2], rfl⟩]? =
      some st ∧ 0 < st.activeConnections.toNat := by
  have hclock : Nondecreasing 0 twoClients := by decide
  have hcount : (run ⟨10, 3000000000, 2⟩ .start twoClients).held.count
      ⟨.v4 ⟨[192, 0, 2], rfl⟩⟩ = 1 :=
    (showsAll_run twoClients showsAll_start hclock _).2.trans (by decide)
  obtain ⟨hactive, -, hlive⟩ := permits_accounted ⟨10, 3000000000, 2⟩ twoClients hclock
    (.v4 ⟨[192, 0, 2], rfl⟩)
  have hheld : (⟨.v4 ⟨[192, 0, 2], rfl⟩⟩ : SubnetPermit) ∈
      (run ⟨10, 3000000000, 2⟩ .start twoClients).held := List.count_pos_iff.mp (by omega)
  exact ⟨hactive.trans hcount, (hlive hheld).2.1 4000000000⟩

/-! ## Non-interference -/

/-- What the `acquire` calls of `s` answer, in order, from a state on. -/
def answersFrom (L : PerSubnetLimiter) (s : Subnet) (σ : System) (evs : List Event) :
    List Answer :=
  ((trace L σ evs).filter fun x => about s x.1).filterMap (·.2)

/-- What the `acquire` calls of `s` answer in a run from the empty limiter. -/
def answers (L : PerSubnetLimiter) (s : Subnet) (evs : List Event) : List Answer :=
  answersFrom L s .start evs

theorem answers_eq (L : PerSubnetLimiter) (s : Subnet) {evs : List Event}
    (h : Nondecreasing 0 evs) :
    answers L s evs =
      (Ledger.trace L s .start (evs.filter (about s))).filterMap (·.2) := by
  rw [answers, answersFrom, trace_filter s evs showsAll_start h]

theorem step_answer (ip : IpAddr) :
    (step L σ (.acquire ip now)).2 = some (L.acquire σ.map ip now).1 := by
  rcases h : L.acquire σ.map ip now with ⟨_ | _, map⟩ <;> simp [step, h]

/-- What an `acquire` at the end of a run answers. -/
theorem acquire_answer {evs : List Event} {ip : IpAddr}
    (h : Nondecreasing 0 (evs ++ [.acquire ip now])) :
    some (L.acquire (run L .start evs).map ip now).1 =
      (Ledger.step L (Subnet.ofIp ip) (Ledger.run L (Subnet.ofIp ip) .start
        (evs.filter (about (Subnet.ofIp ip)))) (.acquire ip now)).2 := by
  obtain ⟨hbefore, hafter⟩ := h.append
  have hrun := showsAll_run (L := L) evs showsAll_start hbefore
  rw [← step_answer]
  exact (showsAll_step hrun (.acquire ip now) hafter.cons.1).2

/-- A rejected call leaves what its subnet is answered afterwards unchanged. -/
theorem answersFrom_of_rejected {evs evs' : List Event} {ip : IpAddr} {msg : String}
    (h : Nondecreasing 0 (evs ++ .acquire ip now :: evs'))
    (hrejected : (L.acquire (run L .start evs).map ip now).1 = .error msg) :
    answersFrom L (Subnet.ofIp ip) (run L .start (evs ++ [.acquire ip now])) evs' =
      answersFrom L (Subnet.ofIp ip) (run L .start evs) evs' := by
  obtain ⟨hbefore, hafter⟩ := h.append
  obtain ⟨hle, hlater⟩ := hafter.cons
  have hrun := showsAll_run (L := L) evs showsAll_start hbefore
  obtain ⟨hnext, hanswer⟩ := showsAll_step hrun (.acquire ip now) hle
  rw [step_answer, hrejected] at hanswer
  have hledger := Ledger.step_of_error L hanswer.symm
  have hstep : run L .start (evs ++ [.acquire ip now]) =
      (step L (run L .start evs) (.acquire ip now)).1 := by rw [run_append, run_cons, run_nil]
  rw [answersFrom, answersFrom, hstep, trace_filter _ evs' hnext hlater,
    trace_filter _ evs' hrun (hlater.earlier hle), ledgersAfter_acquire, if_pos rfl]
  exact congrArg (fun k => (Ledger.trace L _ k _).filterMap (·.2)) hledger

/-- **Subnets do not interfere.** Two runs with the same events of `s` answer `s` alike, whatever
the other subnets do, and a rejected call of `s` leaves its later answers unchanged. -/
theorem subnets_do_not_interfere (L : PerSubnetLimiter) (s : Subnet) :
    (∀ evs evs' : List Event, Nondecreasing 0 evs → Nondecreasing 0 evs' →
      evs.filter (about s) = evs'.filter (about s) → answers L s evs = answers L s evs') ∧
    ∀ (evs evs' : List Event) (ip : IpAddr) (now : ℕ) (msg : String),
      Nondecreasing 0 (evs ++ .acquire ip now :: evs') → Subnet.ofIp ip = s →
      (L.acquire (run L .start evs).map ip now).1 = .error msg →
      answersFrom L s (run L .start (evs ++ [.acquire ip now])) evs' =
        answersFrom L s (run L .start evs) evs' := by
  constructor
  · intro evs evs' h h' hsame
    rw [answers_eq L s h, answers_eq L s h', hsame]
  · intro evs evs' ip now msg h hs hrejected
    subst hs
    exact answersFrom_of_rejected h hrejected

/-- A client between two strangers, and the same client alone. -/
theorem subnets_do_not_interfere_strangers :
    answers ⟨1, 3, 2⟩ (.v4 ⟨[192, 0, 2], rfl⟩)
        [.acquire (.v4 ⟨[203, 0, 113, 1], rfl⟩) 0, .acquire (.v4 ⟨[192, 0, 2, 7], rfl⟩) 1,
          .drop ⟨.v4 ⟨[203, 0, 113], rfl⟩⟩, .acquire (.v4 ⟨[192, 0, 2, 9], rfl⟩) 4] =
      answers ⟨1, 3, 2⟩ (.v4 ⟨[192, 0, 2], rfl⟩)
        [.acquire (.v4 ⟨[192, 0, 2, 7], rfl⟩) 1, .acquire (.v4 ⟨[192, 0, 2, 9], rfl⟩) 4] ∧
    answersFrom ⟨1, 3, 2⟩ (.v4 ⟨[192, 0, 2], rfl⟩)
        (run ⟨1, 3, 2⟩ .start ([.acquire (.v4 ⟨[192, 0, 2, 7], rfl⟩) 1] ++
          [.acquire (.v4 ⟨[192, 0, 2, 9], rfl⟩) 4]))
        [.acquire (.v4 ⟨[192, 0, 2, 7], rfl⟩) 5] =
      answersFrom ⟨1, 3, 2⟩ (.v4 ⟨[192, 0, 2], rfl⟩)
        (run ⟨1, 3, 2⟩ .start [.acquire (.v4 ⟨[192, 0, 2, 7], rfl⟩) 1])
        [.acquire (.v4 ⟨[192, 0, 2, 7], rfl⟩) 5] :=
  have hrejected : (PerSubnetLimiter.acquire ⟨1, 3, 2⟩ (run ⟨1, 3, 2⟩ .start
      [.acquire (.v4 ⟨[192, 0, 2, 7], rfl⟩) 1]).map (.v4 ⟨[192, 0, 2, 9], rfl⟩) 4).1 =
      .error "rate_limit_exceeded" := by
    apply Option.some.inj
    rw [acquire_answer (by decide)]
    decide
  ⟨(subnets_do_not_interfere ⟨1, 3, 2⟩ (.v4 ⟨[192, 0, 2], rfl⟩)).1 _ _ (by decide) (by decide)
      (by decide),
    (subnets_do_not_interfere ⟨1, 3, 2⟩ (.v4 ⟨[192, 0, 2], rfl⟩)).2 _ _ _ _ _ (by decide)
      (by decide) hrejected⟩

/-! ## The window bound -/

/-- The time of a successful `acquire` of `s`. -/
def acceptedTime (s : Subnet) : Event × Option Answer → Option ℕ
  | (.acquire ip now, some (.ok _)) => if Subnet.ofIp ip = s then some now else none
  | _ => none

/-- The times of the successful `acquire` calls of `s` in a run, in order. -/
def accepted (L : PerSubnetLimiter) (s : Subnet) (evs : List Event) : List ℕ :=
  (trace L .start evs).filterMap (acceptedTime s)

/-- A ledger records exactly the requests it accepts. -/
theorem Ledger.accepted_run (s : Subnet) (k : Ledger) (evs : List Event)
    (hown : ∀ e ∈ evs, e.subnet = s) :
    (Ledger.run L s k evs).accepted =
      k.accepted ++ (Ledger.trace L s k evs).filterMap (acceptedTime s) := by
  induction evs generalizing k with
  | nil => simp [Ledger.trace]
  | cons e evs ih =>
      have htail := ih (Ledger.step L s k e).1 fun e' he' => hown e' (by simp [he'])
      have hstep : (Ledger.step L s k e).1.accepted =
          k.accepted ++ (acceptedTime s (e, (Ledger.step L s k e).2)).toList := by
        cases e with
        | acquire ip now =>
            have hip : Subnet.ofIp ip = s := hown (.acquire ip now) (by simp)
            unfold Ledger.step
            by_cases hrate : L.maxRequests ≤ (recent L.expired now k.accepted).length
            · simp [hrate, acceptedTime]
            · by_cases hconc : L.maxConcurrent.toNat ≤ k.live
              · simp [hrate, hconc, acceptedTime]
              · simp [hrate, hconc, acceptedTime, hip]
        | drop p => simp [Ledger.step, acceptedTime]
      rw [Ledger.run_cons, htail, hstep, List.append_assoc, Ledger.trace]
      cases h : acceptedTime s (e, (Ledger.step L s k e).2) <;> simp [h]

/-- The accepted requests of a subnet are the history of its ledger. -/
theorem accepted_eq (L : PerSubnetLimiter) (s : Subnet) {evs : List Event}
    (h : Nondecreasing 0 evs) :
    accepted L s evs = (Ledger.run L s .start (evs.filter (about s))).accepted := by
  have hown : ∀ e ∈ evs.filter (about s), e.subnet = s := by
    intro e he
    simpa [about] using (List.mem_filter.mp he).2
  have hother : ∀ x : Event × Option Answer, acceptedTime s x =
      if about s x.1 then acceptedTime s x else none := by
    rintro ⟨e, answer⟩
    by_cases hs : e.subnet = s
    · simp [about, hs]
    · cases e with
      | acquire ip now =>
          have hip : Subnet.ofIp ip ≠ s := hs
          rcases answer with _ | _ | _ <;> simp [acceptedTime, about, Event.subnet, hip]
      | drop p => simp [acceptedTime]
  rw [Ledger.accepted_run s .start _ hown, ← trace_filter s evs showsAll_start h,
    List.filterMap_filter, accepted]
  simp only [← hother]
  rfl

/-- **The sliding-window bound.** Successful `acquire` calls of one subnet that are `maxRequests`
apart are more than `window` apart in time, and no closed interval of length `window` holds more
than `maxRequests` of them. -/
theorem at_most_maxRequests_per_window (L : PerSubnetLimiter) (s : Subnet) (evs : List Event)
    (h : Nondecreasing 0 evs) :
    (∀ (i : ℕ) (hi : i + L.maxRequests < (accepted L s evs).length),
      (accepted L s evs)[i] + L.window < (accepted L s evs)[i + L.maxRequests]) ∧
    ∀ a, (accepted L s evs).countP (fun t => a ≤ t ∧ t ≤ a + L.window) ≤ L.maxRequests := by
  obtain ⟨hshow, -⟩ := showsAll_run (L := L) evs showsAll_start h s
  have hsorted := hshow.sorted
  have hadmitted := hshow.admitted
  rw [← accepted_eq L s h] at hsorted hadmitted
  constructor
  · intro i hi
    have hold := hadmitted.expired_add L.expiry hsorted hi
    simp only [PerSubnetLimiter.expired, decide_eq_true_eq] at hold
    omega
  · intro a
    apply countP_le_of_expired_add L.expiry hsorted
    · intro i hi
      exact hadmitted.expired_add L.expiry hsorted hi
    · intro t t' ht ht' hold
      simp only [PerSubnetLimiter.expired, decide_eq_true_eq] at ht ht' hold
      omega

/-- One request in three time units: the second at distance three is refused. -/
theorem at_most_maxRequests_per_window_boundary :
    (accepted ⟨1, 3, 2⟩ (.v4 ⟨[192, 0, 2], rfl⟩)
      [.acquire (.v4 ⟨[192, 0, 2, 7], rfl⟩) 1, .acquire (.v4 ⟨[192, 0, 2, 9], rfl⟩) 4,
        .acquire (.v4 ⟨[192, 0, 2, 7], rfl⟩) 5]).countP (fun t => 1 ≤ t ∧ t ≤ 1 + 3) ≤ 1 :=
  (at_most_maxRequests_per_window ⟨1, 3, 2⟩ (.v4 ⟨[192, 0, 2], rfl⟩) _ (by decide)).2 1

/-! ## Admission -/

/-- **Requests are refused exactly when their subnet is at a limit.** The answer depends on the
accepted requests of the subnet that are no older than `window`, and on its live permits; refused
requests count for nothing. -/
theorem refused_exactly_at_limit (L : PerSubnetLimiter) (evs : List Event) (ip : IpAddr) (now : ℕ)
    (h : Nondecreasing 0 (evs ++ [.acquire ip now])) :
    (L.acquire (run L .start evs).map ip now).1 =
      if L.maxRequests ≤ (accepted L (Subnet.ofIp ip) evs).countP (fun t => now - t ≤ L.window) then
        .error "rate_limit_exceeded"
      else if L.maxConcurrent.toNat ≤ (run L .start evs).held.count ⟨Subnet.ofIp ip⟩ then
        .error "concurrency_exceeded"
      else .ok ⟨Subnet.ofIp ip⟩ := by
  have hbefore := h.append.1
  have hlive := (showsAll_run (L := L) evs showsAll_start hbefore (Subnet.ofIp ip)).2
  have hrecent : (accepted L (Subnet.ofIp ip) evs).countP (fun t => now - t ≤ L.window) =
      (recent L.expired now (accepted L (Subnet.ofIp ip) evs)).length := by
    rw [recent, List.countP_eq_length_filter]
    refine congrArg List.length (List.filter_congr fun t _ => ?_)
    rw [Bool.eq_iff_iff, PerSubnetLimiter.expired, Bool.not_eq_true', decide_eq_true_eq,
      decide_eq_false_iff_not, gt_iff_lt, Nat.not_lt]
  apply Option.some.inj
  rw [acquire_answer h, hrecent, hlive, accepted_eq L _ hbefore, Ledger.step]
  split
  · rfl
  split
  · rfl
  · rfl

/-- A third connection of a subnet, while two are open. -/
theorem refused_exactly_at_limit_third :
    (PerSubnetLimiter.acquire ⟨10, 3000000000, 2⟩
      (run ⟨10, 3000000000, 2⟩ .start (twoClients.take 2)).map (.v4 ⟨[192, 0, 2, 8], rfl⟩) 7).1 =
        .error "concurrency_exceeded" := by
  have hclock : Nondecreasing 0 (twoClients.take 2) := by decide
  have hlive := (showsAll_run (L := ⟨10, 3000000000, 2⟩) _ showsAll_start hclock
    (Subnet.ofIp (.v4 ⟨[192, 0, 2, 8], rfl⟩))).2
  rw [refused_exactly_at_limit _ _ _ _ (by decide), accepted_eq _ _ hclock, hlive]
  decide

end SevMicroLoader.Attestation
