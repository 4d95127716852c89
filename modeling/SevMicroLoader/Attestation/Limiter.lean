import SevMicroLoader.Lib.SlidingWindow
import SevMicroLoader.Rust.Checked

/-!
# The per-subnet rate limiter

`acquire` and `dropPermit` are the two critical sections on the map behind the limiter's
mutex; each takes the map and returns it. Times are nanoseconds, and `duration_since`
saturates at zero, as subtraction on `ℕ` does.

Every other module sees the map through `state`, which reads a missing entry as the empty
one. Through it garbage collection is a trim (`state_collectGarbage`) and each
operation touches one subnet.
-/

namespace SevMicroLoader.Attestation
open Rust SlidingWindow

/-- The networks that share a limit. -/
inductive Subnet
  /-- A `/24`. -/
  | v4 (octets : ByteArr 3)
  /-- A `/64`. -/
  | v6 (octets : ByteArr 8)
  deriving DecidableEq, Hashable

/-- `Subnet::from`. -/
def Subnet.ofIp : IpAddr → Subnet
  | .v4 octets => .v4 ⟨octets.val.take 3, by rw [List.length_take, octets.property]; rfl⟩
  | .v6 octets => .v6 ⟨octets.val.take 8, by rw [List.length_take, octets.property]; rfl⟩

/-- The entry of a subnet. -/
structure SubnetState where
  /-- The times of the accepted requests, oldest first. -/
  requests : List ℕ
  activeConnections : UInt32

/-- The entry `or_insert_with` creates. -/
def SubnetState.empty : SubnetState := ⟨[], 0⟩

/-- The limits, shared by every connection. -/
structure PerSubnetLimiter where
  maxRequests : ℕ
  window : ℕ
  maxConcurrent : UInt32

/-- What the mutex guards. -/
abbrev SubnetMap := Std.ExtHashMap Subnet SubnetState

/-- The right to one connection. -/
structure SubnetPermit where
  subnet : Subnet
  deriving DecidableEq

namespace PerSubnetLimiter
variable (L : PerSubnetLimiter)

/-- `now.duration_since(t) > self.window`. -/
def expired (now t : ℕ) : Bool := now - t > L.window

/-- The loop that pops expired requests from the front. -/
def popExpired (now : ℕ) (st : SubnetState) : SubnetState :=
  { st with requests := trim L.expired now st.requests }

/-- The `retain` pass: trim every entry, keep those still in use. -/
def collectGarbage (now : ℕ) (map : SubnetMap) : SubnetMap :=
  map.filterMap fun _ st =>
    let st := L.popExpired now st
    if st.activeConnections > 0 ∨ st.requests ≠ [] then some st else none

/-- The map after the garbage collection at the start of an `acquire`. -/
def beforeEntry (now : ℕ) (map : SubnetMap) : SubnetMap :=
  if map.size > 10000 then L.collectGarbage now map else map

/-- The critical section of `acquire`, at the time `now`. -/
def acquire (map : SubnetMap) (ip : IpAddr) (now : ℕ) : Except String SubnetPermit × SubnetMap :=
  let subnet := Subnet.ofIp ip
  let map := L.beforeEntry now map
  let st := L.popExpired now (map[subnet]?.getD .empty)
  if st.requests.length ≥ L.maxRequests then
    (.error "rate_limit_exceeded", map.insert subnet st)
  else if st.activeConnections ≥ L.maxConcurrent then
    (.error "concurrency_exceeded", map.insert subnet st)
  else
    (.ok ⟨subnet⟩, map.insert subnet ⟨st.requests ++ [now], st.activeConnections + 1⟩)

end PerSubnetLimiter

/-- `n.saturating_sub(1)`. -/
def saturatingPred (n : UInt32) : UInt32 := if n = 0 then 0 else n - 1

theorem toNat_saturatingPred {n : UInt32} (h : 0 < n.toNat) :
    (saturatingPred n).toNat = n.toNat - 1 := by
  have hne : n ≠ 0 := by
    rintro rfl
    simp at h
  have hone : (1 : UInt32) ≤ n := by
    rw [UInt32.le_iff_toNat_le]
    exact h
  rw [saturatingPred, if_neg hne, UInt32.toNat_sub_of_le _ _ hone]
  rfl

/-- The end of a permit's life: `get_mut` and `saturating_sub`. -/
def dropPermit (map : SubnetMap) (p : SubnetPermit) : SubnetMap :=
  map.modify p.subnet fun st => { st with activeConnections := saturatingPred st.activeConnections }

/-! ## The map through `state` -/

/-- The entry of a subnet; a missing one is the empty one. -/
def state (map : SubnetMap) (s : Subnet) : SubnetState := map[s]?.getD .empty

@[simp] theorem state_empty (s : Subnet) : state ∅ s = .empty := by simp [state]

@[simp] theorem state_insert (map : SubnetMap) (s s' : Subnet) (st : SubnetState) :
    state (map.insert s st) s' = if s = s' then st else state map s' := by
  by_cases h : s = s' <;> simp [state, Std.ExtHashMap.getElem?_insert, h]

/-- An entry with a positive count is in the map. -/
theorem getElem?_of_active {map : SubnetMap} {s : Subnet}
    (h : 0 < (state map s).activeConnections.toNat) :
    ∃ st, map[s]? = some st ∧ 0 < st.activeConnections.toNat := by
  unfold state at h
  cases hentry : map[s]? with
  | none => simp [hentry, SubnetState.empty] at h
  | some st => exact ⟨st, rfl, by simpa [hentry] using h⟩

theorem state_dropPermit (map : SubnetMap) (p : SubnetPermit) (s : Subnet) :
    (state (dropPermit map p) s).requests = (state map s).requests ∧
    (state (dropPermit map p) s).activeConnections =
      if p.subnet = s then saturatingPred (state map s).activeConnections
      else (state map s).activeConnections := by
  by_cases h : p.subnet = s
  · cases he : map[s]? <;>
      simp [state, dropPermit, h, he, SubnetState.empty, saturatingPred]
  · simp [state, dropPermit, Std.ExtHashMap.getElem?_modify, h]

namespace PerSubnetLimiter
variable (L : PerSubnetLimiter)

@[simp] theorem activeConnections_popExpired (now : ℕ) (st : SubnetState) :
    (L.popExpired now st).activeConnections = st.activeConnections := rfl

@[simp] theorem requests_popExpired (now : ℕ) (st : SubnetState) :
    (L.popExpired now st).requests = trim L.expired now st.requests := rfl

theorem expiry : Expiry L.expired := by
  constructor
  · intro now t t' hle h
    simp only [expired, decide_eq_true_eq] at *
    omega
  · intro now now' t hle h
    simp only [expired, decide_eq_true_eq] at *
    omega

/-- **Garbage collection is a trim.** An entry it deletes trims to the empty one. -/
theorem state_collectGarbage (now : ℕ) (map : SubnetMap) (s : Subnet) :
    state (L.collectGarbage now map) s = L.popExpired now (state map s) := by
  rw [state, state, collectGarbage, Std.ExtHashMap.getElem?_filterMap']
  cases map[s]? with
  | none => rfl
  | some st =>
      by_cases hkeep : st.activeConnections > 0 ∨ trim L.expired now st.requests ≠ []
      · simp [hkeep]
      · obtain ⟨hactive, hrequests⟩ := not_or.mp hkeep
        have hzero : st.activeConnections = 0 := by
          simpa [← UInt32.toNat_inj, UInt32.lt_iff_toNat_lt] using hactive
        simp [hzero, not_not.mp hrequests, popExpired, SubnetState.empty]

@[simp] theorem popExpired_popExpired (now : ℕ) (st : SubnetState) :
    L.popExpired now (L.popExpired now st) = L.popExpired now st := by
  simp only [popExpired, trim_trim]

/-- Whether or not the map is collected, an entry shows itself or its trim. -/
theorem state_beforeEntry (now : ℕ) (map : SubnetMap) (s : Subnet) :
    state (L.beforeEntry now map) s = state map s ∨
      state (L.beforeEntry now map) s = L.popExpired now (state map s) := by
  unfold beforeEntry
  by_cases h : map.size > 10000
  · rw [if_pos h]
    exact .inr (L.state_collectGarbage now map s)
  · rw [if_neg h]
    exact .inl rfl

/-- **What an `acquire` can do.** Whatever garbage collection did before, the call decides on the
trimmed entry of its own subnet and stores that entry, with the request recorded if accepted. -/
theorem acquire_cases (map : SubnetMap) (ip : IpAddr) (now : ℕ) :
    let s := Subnet.ofIp ip
    let st := L.popExpired now (state map s)
    (L.maxRequests ≤ st.requests.length ∧ L.acquire map ip now =
      (.error "rate_limit_exceeded", (L.beforeEntry now map).insert s st)) ∨
    (st.requests.length < L.maxRequests ∧ L.maxConcurrent ≤ st.activeConnections ∧
      L.acquire map ip now =
        (.error "concurrency_exceeded", (L.beforeEntry now map).insert s st)) ∨
    (st.requests.length < L.maxRequests ∧ st.activeConnections < L.maxConcurrent ∧
      L.acquire map ip now = (.ok ⟨s⟩, (L.beforeEntry now map).insert s
        ⟨st.requests ++ [now], st.activeConnections + 1⟩)) := by
  intro s st
  have hst : L.popExpired now (state (L.beforeEntry now map) s) = st := by
    rcases L.state_beforeEntry now map s with h | h
    · rw [h]
    · rw [h, popExpired_popExpired]
  have hacquire : L.acquire map ip now =
      if st.requests.length ≥ L.maxRequests then
        (.error "rate_limit_exceeded", (L.beforeEntry now map).insert s st)
      else if st.activeConnections ≥ L.maxConcurrent then
        (.error "concurrency_exceeded", (L.beforeEntry now map).insert s st)
      else (.ok ⟨s⟩, (L.beforeEntry now map).insert s
        ⟨st.requests ++ [now], st.activeConnections + 1⟩) := by
    rw [← hst]
    rfl
  by_cases hrate : st.requests.length ≥ L.maxRequests
  · exact .inl ⟨hrate, by rw [hacquire, if_pos hrate]⟩
  · by_cases hconc : st.activeConnections ≥ L.maxConcurrent
    · exact .inr (.inl ⟨by omega, hconc, by rw [hacquire, if_neg hrate, if_pos hconc]⟩)
    · exact .inr (.inr ⟨by omega, UInt32.not_le.mp hconc,
        by rw [hacquire, if_neg hrate, if_neg hconc]⟩)

end PerSubnetLimiter

/-! ## Busy maps -/

/-- Every entry has a live permit. -/
def AllBusy (map : SubnetMap) : Prop := ∀ s ∈ map, 0 < (state map s).activeConnections.toNat

section Busy
variable {L : PerSubnetLimiter} {now : ℕ} {map : SubnetMap} {s : Subnet}

theorem mem_of_mem_beforeEntry (h : s ∈ L.beforeEntry now map) : s ∈ map := by
  unfold PerSubnetLimiter.beforeEntry at h
  split at h
  · exact Std.ExtHashMap.mem_of_mem_filterMap h
  · exact h

/-- A collection keeps every entry of a busy map. -/
theorem AllBusy.size_collectGarbage (h : AllBusy map) (now : ℕ) :
    (L.collectGarbage now map).size = map.size := by
  refine Std.ExtHashMap.size_filterMap_eq_size_iff.mpr fun s hs => ?_
  have hbusy := h s hs
  rw [state, Std.ExtHashMap.getElem?_eq_some_getElem hs, Option.getD_some] at hbusy
  rw [if_pos (.inl (UInt32.lt_iff_toNat_lt.mpr hbusy)), Option.isSome_some]

theorem AllBusy.size_beforeEntry (h : AllBusy map) (now : ℕ) :
    (L.beforeEntry now map).size = map.size := by
  unfold PerSubnetLimiter.beforeEntry
  split
  · exact h.size_collectGarbage now
  · rfl

theorem AllBusy.beforeEntry (h : AllBusy map) (now : ℕ) : AllBusy (L.beforeEntry now map) := by
  intro s hs
  have hactive := h s (mem_of_mem_beforeEntry hs)
  rcases L.state_beforeEntry now map s with heq | heq
  · rwa [heq]
  · rwa [heq]

end Busy

end SevMicroLoader.Attestation
