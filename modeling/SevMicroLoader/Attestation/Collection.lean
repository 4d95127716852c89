import SevMicroLoader.Attestation.LimiterRuns
import SevMicroLoader.Lib.Endian

/-!
# What garbage collection leaves in the map

The map is collected when an `acquire` finds more than 10000 entries in it. Every entry is then
trimmed and in use, and so is the one that the call stores, accepted or not: `Kept` is what the
two have in common. A kept entry is of a live subnet (`live_of_kept`), so that after any
`acquire` the map is small or holds live subnets only. Its size has no bound: a crowd that stays
is in the map as it is (`size_run_arrivals`).
-/

namespace SevMicroLoader.Attestation
open Rust SlidingWindow

variable {L : PerSubnetLimiter} {now : ℕ} {σ : System} {s : Subnet} {st : SubnetState}

/-- At `now` a run has left `s` a live permit, or an accepted request no older than the window. -/
def Live (L : PerSubnetLimiter) (evs : List Event) (now : ℕ) (s : Subnet) : Prop :=
  ⟨s⟩ ∈ (run L .start evs).held ∨ ∃ t ∈ accepted L s evs, t ≤ now ∧ now - t ≤ L.window

/-- The entry has lost its expired requests and is in use. -/
structure Kept (L : PerSubnetLimiter) (now : ℕ) (st : SubnetState) : Prop where
  trimmed : L.popExpired now st = st
  in_use : 0 < st.activeConnections.toNat ∨ st.requests ≠ []

/-! ## Entries in use -/

/-- **A collected map holds kept entries only.** -/
theorem kept_of_collectGarbage {map : SubnetMap}
    (h : (L.collectGarbage now map)[s]? = some st) : Kept L now st := by
  rw [PerSubnetLimiter.collectGarbage, Std.ExtHashMap.getElem?_filterMap'] at h
  obtain ⟨st', -, hst⟩ := Option.bind_eq_some_iff.mp h
  by_cases huse : (L.popExpired now st').activeConnections > 0 ∨
      (L.popExpired now st').requests ≠ []
  · rw [if_pos huse] at hst
    cases hst
    exact ⟨L.popExpired_popExpired now st', huse.imp_left UInt32.lt_iff_toNat_lt.mp⟩
  · rw [if_neg huse] at hst
    cases hst

/-- What an `acquire` stores is kept, or its permit is live. A refusal is because of requests in
the window or because of permits, and there is at least one of them. -/
theorem kept_of_acquire (hreq : 1 ≤ L.maxRequests) (hconc : 1 ≤ L.maxConcurrent) (σ : System)
    (ip : IpAddr) (now : ℕ) :
    ∃ st, (step L σ (.acquire ip now)).1.map =
        (L.beforeEntry now σ.map).insert (Subnet.ofIp ip) st ∧
      (⟨Subnet.ofIp ip⟩ ∈ (step L σ (.acquire ip now)).1.held ∨ Kept L now st) := by
  rcases L.acquire_cases σ.map ip now with ⟨hrate, heq⟩ | ⟨-, hfull, heq⟩ | ⟨-, -, heq⟩
  · refine ⟨_, by rw [step, heq], .inr ⟨L.popExpired_popExpired now _, .inr ?_⟩⟩
    exact List.ne_nil_of_length_pos (by omega)
  · refine ⟨_, by rw [step, heq], .inr ⟨L.popExpired_popExpired now _, .inl ?_⟩⟩
    rw [UInt32.le_iff_toNat_le] at hconc hfull
    exact hconc.trans hfull
  · exact ⟨_, by rw [step, heq], .inl (by rw [step, heq]; exact List.mem_cons_self)⟩

/-- **A kept entry is of a live subnet**: what it shows is the recent part of its history. -/
theorem live_of_kept {evs : List Event} (h : Nondecreasing 0 evs)
    (hnow : clockAfter 0 evs = now) (hentry : (run L .start evs).map[s]? = some st)
    (hkept : Kept L now st) : Live L evs now s := by
  obtain ⟨hshow, hcount⟩ := showsAll_run (L := L) evs showsAll_start h s
  have hstate : state (run L .start evs).map s = st := by rw [state, hentry, Option.getD_some]
  rw [hstate, hnow] at hshow
  rcases hkept.in_use with hactive | hrequests
  · refine .inl (List.count_pos_iff.mp ?_)
    rw [hcount, ← hshow.active]
    exact hactive
  · have hrecent := hshow.requests_popExpired
    rw [hkept.trimmed] at hrecent
    obtain ⟨t, ht⟩ := List.exists_mem_of_ne_nil _ hrequests
    rw [hrecent, recent, List.mem_filter] at ht
    refine .inr ⟨t, ?_, hshow.past t ht.1, ?_⟩
    · rw [accepted_eq L s h]
      exact ht.1
    · simpa [PerSubnetLimiter.expired] using ht.2

/-! ## Crowds

The bound of 10001 is none on the map itself: entries in use outlive every collection, and a crowd
of clients that stay gives the map an entry for each of their subnets. -/

/-- The clients come one after the other, in one instant. -/
def arrivals (ips : List IpAddr) (now : ℕ) : List Event := ips.map (.acquire · now)

theorem nondecreasing_arrivals (ips : List IpAddr) (now : ℕ) :
    Nondecreasing now (arrivals ips now) := by
  have hnow : ∀ t ∈ now :: (arrivals ips now).filterMap Event.time?, t = now := by
    intro t ht
    rcases List.mem_cons.mp ht with rfl | ht
    · rfl
    · obtain ⟨e, he, htime⟩ := List.mem_filterMap.mp ht
      obtain ⟨ip, -, rfl⟩ := List.mem_map.mp he
      exact (Option.some.inj htime).symm
  refine List.pairwise_of_forall_mem_list fun t ht t' ht' => ?_
  rw [hnow t ht, hnow t' ht']

/-- A client of a new subnet gets a permit and an entry of its own. -/
theorem AllBusy.acquire (h : AllBusy σ.map) (hreq : 1 ≤ L.maxRequests)
    (hconc : 1 ≤ L.maxConcurrent) {ip : IpAddr} (hnew : Subnet.ofIp ip ∉ σ.map) (now : ℕ) :
    AllBusy (step L σ (.acquire ip now)).1.map ∧
      (step L σ (.acquire ip now)).1.map.size = σ.map.size + 1 ∧
      ∀ s ∈ (step L σ (.acquire ip now)).1.map, s = Subnet.ofIp ip ∨ s ∈ σ.map := by
  have hempty : state σ.map (Subnet.ofIp ip) = .empty := by
    rw [state, Std.ExtHashMap.getElem?_eq_none hnew, Option.getD_none]
  have hfresh : Subnet.ofIp ip ∉ L.beforeEntry now σ.map := fun hs =>
    hnew (mem_of_mem_beforeEntry hs)
  have hbusy : AllBusy (L.beforeEntry now σ.map) := h.beforeEntry now
  rcases L.acquire_cases σ.map ip now with ⟨hrate, -⟩ | ⟨-, hfull, -⟩ | ⟨-, -, heq⟩
  · rw [hempty] at hrate
    exact absurd (hreq.trans hrate) (Nat.not_succ_le_zero 0)
  · rw [hempty] at hfull
    have hzero := UInt32.le_iff_toNat_le.mp (UInt32.le_trans hconc hfull)
    exact absurd hzero (Nat.not_succ_le_zero 0)
  · rw [hempty] at heq
    rw [step, heq]
    refine ⟨?_, ?_, ?_⟩
    · intro s hs
      rw [state_insert]
      by_cases hsame : Subnet.ofIp ip = s
      · rw [if_pos hsame]
        exact Nat.one_pos
      · rw [if_neg hsame]
        exact hbusy s (Std.ExtHashMap.mem_of_mem_insert hs (by simpa using hsame))
    · rw [Std.ExtHashMap.size_insert, if_neg hfresh, h.size_beforeEntry now]
    · intro s hs
      rcases Std.ExtHashMap.mem_insert.mp hs with heq | hs
      · exact .inl (eq_of_beq heq).symm
      · exact .inr (mem_of_mem_beforeEntry hs)

/-- **A crowd that stays is in the map**, however large, when each comes from a subnet of its
own. -/
theorem size_run_arrivals (hreq : 1 ≤ L.maxRequests) (hconc : 1 ≤ L.maxConcurrent) (now : ℕ)
    (ips : List IpAddr) (hips : (ips.map Subnet.ofIp).Nodup) (h : AllBusy σ.map)
    (hnew : ∀ ip ∈ ips, Subnet.ofIp ip ∉ σ.map) :
    (run L σ (arrivals ips now)).map.size = σ.map.size + ips.length := by
  induction ips generalizing σ with
  | nil => rfl
  | cons ip ips ih =>
      obtain ⟨hip, hips⟩ := List.nodup_cons.mp hips
      obtain ⟨hbusy, hsize, hmem⟩ := h.acquire hreq hconc (hnew ip List.mem_cons_self) now
      have hnext : ∀ ip' ∈ ips, Subnet.ofIp ip' ∉ (step L σ (.acquire ip now)).1.map := by
        intro ip' hip' hs
        rcases hmem _ hs with heq | hs
        · exact hip (heq ▸ List.mem_map_of_mem hip')
        · exact hnew ip' (List.mem_cons_of_mem _ hip') hs
      have hrest := ih hips hbusy hnext
      rw [arrivals, List.map_cons, run_cons, List.length_cons]
      rw [arrivals] at hrest
      omega

/-- The first address of the `i`-th network of `/64`. -/
def client (i : ℕ) : IpAddr := .v6 ⟨Endian.toBE 8 i ++ Endian.toBE 8 1, by simp⟩

/-- `n` clients of as many subnets. -/
def crowd (n : ℕ) : List IpAddr := (List.range n).map client

theorem nodup_crowd {n : ℕ} (h : n ≤ 2 ^ 64) : ((crowd n).map Subnet.ofIp).Nodup := by
  rw [crowd, List.map_map]
  refine List.Nodup.map_on (fun i hi j hj heq => ?_) List.nodup_range
  have hoctets : (Endian.toBE 8 i ++ Endian.toBE 8 1).take 8 =
      (Endian.toBE 8 j ++ Endian.toBE 8 1).take 8 :=
    congrArg Subtype.val (Subnet.v6.inj heq)
  rw [List.take_left' (Endian.length_toBE 8 i), List.take_left' (Endian.length_toBE 8 j)] at hoctets
  rw [List.mem_range] at hi hj
  have hread := congrArg Endian.ofBE hoctets
  rwa [Endian.ofBE_toBE (by omega), Endian.ofBE_toBE (by omega)] at hread

/-- The last of a crowd comes after all the others. -/
theorem arrivals_crowd_succ (n now : ℕ) :
    arrivals (crowd (n + 1)) now = arrivals (crowd n) now ++ [.acquire (client n) now] := by
  rw [crowd, List.range_succ, List.map_append, arrivals, List.map_append]
  rfl

theorem size_run_crowd (hreq : 1 ≤ L.maxRequests) (hconc : 1 ≤ L.maxConcurrent) (now : ℕ) {n : ℕ}
    (h : n ≤ 2 ^ 64) : (run L .start (arrivals (crowd n) now)).map.size = n := by
  have hbusy : AllBusy System.start.map := fun s hs => absurd hs Std.ExtHashMap.not_mem_empty
  have hsize := size_run_arrivals hreq hconc now (crowd n) (nodup_crowd h) hbusy
    fun ip _ => Std.ExtHashMap.not_mem_empty
  rw [hsize, crowd, List.length_map, List.length_range]
  exact Nat.zero_add n

/-! ## After an `acquire` -/

theorem clockAfter_acquire (c : ℕ) (evs : List Event) (ip : IpAddr) (now : ℕ) :
    clockAfter c (evs ++ [.acquire ip now]) = now := by
  rw [clockAfter, List.foldl_append]
  rfl

/-- **No stale subnets pile up.** Right after an `acquire`, successful or not, the map has at most
10001 entries or every entry is of a subnet that is live at that instant. -/
theorem small_or_all_live (L : PerSubnetLimiter) (hreq : 1 ≤ L.maxRequests)
    (hconc : 1 ≤ L.maxConcurrent) (evs : List Event) (ip : IpAddr) (now : ℕ)
    (h : Nondecreasing 0 (evs ++ [.acquire ip now])) :
    (run L .start (evs ++ [.acquire ip now])).map.size ≤ 10001 ∨
      ∀ s ∈ (run L .start (evs ++ [.acquire ip now])).map,
        Live L (evs ++ [.acquire ip now]) now s := by
  have hstep : run L .start (evs ++ [.acquire ip now]) =
      (step L (run L .start evs) (.acquire ip now)).1 := by rw [run_append, run_cons, run_nil]
  obtain ⟨own, hmap, hown⟩ := kept_of_acquire hreq hconc (run L .start evs) ip now
  rw [← hstep] at hmap hown
  by_cases hsize : (run L .start evs).map.size > 10000
  · refine .inr fun s hs => ?_
    obtain ⟨st, hentry⟩ : ∃ st, (run L .start (evs ++ [.acquire ip now])).map[s]? = some st :=
      ⟨_, Std.ExtHashMap.getElem?_eq_some_getElem hs⟩
    have hkept (hk : Kept L now st) : Live L (evs ++ [.acquire ip now]) now s :=
      live_of_kept h (clockAfter_acquire 0 evs ip now) hentry hk
    have hlook := hentry
    rw [hmap, Std.ExtHashMap.getElem?_insert] at hlook
    by_cases hsame : Subnet.ofIp ip = s
    · subst hsame
      rw [if_pos BEq.rfl] at hlook
      cases hlook
      rcases hown with hheld | hk
      · exact .inl hheld
      · exact hkept hk
    · rw [if_neg (by simpa using hsame), PerSubnetLimiter.beforeEntry, if_pos hsize] at hlook
      exact hkept (kept_of_collectGarbage hlook)
  · refine .inl ?_
    have hgrow := Std.ExtHashMap.size_insert_le (m := (run L .start evs).map)
      (k := Subnet.ofIp ip) (v := own)
    rw [hmap, PerSubnetLimiter.beforeEntry, if_neg hsize]
    omega

/-- The map has an entry for each of 10002 clients that stay, and every one is live. -/
theorem small_or_all_live_crowd :
    10001 < (run ⟨10, 3000000000, 2⟩ .start
        (arrivals (crowd 10001) 0 ++ [.acquire (client 10001) 0])).map.size ∧
      ∀ s ∈ (run ⟨10, 3000000000, 2⟩ .start
          (arrivals (crowd 10001) 0 ++ [.acquire (client 10001) 0])).map,
        Live ⟨10, 3000000000, 2⟩ (arrivals (crowd 10001) 0 ++ [.acquire (client 10001) 0]) 0 s := by
  have hsize : (run ⟨10, 3000000000, 2⟩ .start
      (arrivals (crowd 10001) 0 ++ [.acquire (client 10001) 0])).map.size = 10002 := by
    rw [← arrivals_crowd_succ]
    exact size_run_crowd (by decide) (by decide) 0 (by decide)
  refine ⟨by omega, ?_⟩
  rcases small_or_all_live ⟨10, 3000000000, 2⟩ (by decide) (by decide) (arrivals (crowd 10001) 0)
    (client 10001) 0 (arrivals_crowd_succ 10001 0 ▸ nondecreasing_arrivals _ 0) with hsmall | hlive
  · omega
  · exact hlive

end SevMicroLoader.Attestation
