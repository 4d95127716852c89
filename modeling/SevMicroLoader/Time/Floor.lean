import Mathlib.Algebra.Order.Group.Nat
import Mathlib.Algebra.Ring.Int.Defs

/-!
# The last known good time

The floor under the system clock, in seconds and in microseconds, and the two `timespec`s the
loader ever passes to `clock_settime`. Both fields are signed, and no `u64` of microseconds
is changed by the casts into them.
-/

namespace SevMicroLoader.Time

/-- June 1, 2026 00:00:00 UTC. -/
def lastKnownGoodTimeSecs : UInt64 := 1780272000

def lastKnownGoodTimeMicros : UInt64 := 1780272000001000

/-- `libc::timespec`. -/
structure Timespec where
  tvSec : Int64
  tvNsec : Int64
  deriving DecidableEq, Repr

/-- What `enforce_time_floor` sets: the floor and one millisecond. -/
def floorTimespec : Timespec := ⟨lastKnownGoodTimeSecs.toInt64, 1000000⟩

/-- What `main` sets for a midpoint in microseconds. -/
def midpointTimespec (midpoint : UInt64) : Timespec :=
  let secs := midpoint / 1000000
  let nsecs := (midpoint % 1000000) * 1000
  ⟨secs.toInt64, nsecs.toInt64⟩

/-- A cast to `i64` keeps every value below `2 ^ 63`. -/
theorem toInt_toInt64 {x : UInt64} (h : x.toNat < 2 ^ 63) : x.toInt64.toInt = x.toNat := by
  change x.toBitVec.toInt = _
  rw [BitVec.toInt_eq_toNat_of_lt]
  · rfl
  · change 2 * x.toNat < 2 ^ 64
    omega

variable (midpoint : UInt64)

theorem toInt_tvSec_midpoint :
    (midpointTimespec midpoint).tvSec.toInt = (midpoint.toNat / 1000000 : ℕ) := by
  have hdiv : (midpoint / 1000000).toNat = midpoint.toNat / 1000000 := by
    simp
  have hlt := midpoint.toNat_lt
  rw [midpointTimespec, toInt_toInt64 (by omega), hdiv]

theorem toInt_tvNsec_midpoint :
    (midpointTimespec midpoint).tvNsec.toInt = (midpoint.toNat % 1000000 * 1000 : ℕ) := by
  have hmod : (midpoint % 1000000 * 1000).toNat = midpoint.toNat % 1000000 * 1000 := by
    simp only [UInt64.toNat_mul, UInt64.toNat_mod, UInt64.reduceToNat]
    omega
  rw [midpointTimespec, toInt_toInt64 (by omega), hmod]

/-- The two fields together are the midpoint. -/
theorem midpointTimespec_exact :
    (midpointTimespec midpoint).tvSec.toInt * 10 ^ 6 +
      (midpointTimespec midpoint).tvNsec.toInt / 1000 = midpoint.toNat := by
  rw [toInt_tvSec_midpoint, toInt_tvNsec_midpoint]
  omega

end SevMicroLoader.Time
