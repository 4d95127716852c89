import Mathlib.Algebra.Order.Group.Nat
import Mathlib.Data.List.Range

/-!
# `u64` arithmetic with its wraps noticed

`checkedAdd`, `checkedSub` and `checkedMul` are the operations of the release profile where these
do not wrap, and `none` where they do. `tryFromNat` is the natural number as a `u64`, if it is one,
so that a chain of checked steps from small numbers is `tryFromNat` of the exact result.
-/

namespace Rust

/-- `a.checked_add(b)`. -/
def checkedAdd (a b : UInt64) : Option UInt64 :=
  if a.toNat + b.toNat < 2 ^ 64 then some (a + b) else none

/-- `a.checked_sub(b)`. -/
def checkedSub (a b : UInt64) : Option UInt64 :=
  if b.toNat ≤ a.toNat then some (a - b) else none

/-- `a.checked_mul(b)`. -/
def checkedMul (a b : UInt64) : Option UInt64 :=
  if a.toNat * b.toNat < 2 ^ 64 then some (a * b) else none

/-- `u64::try_from(n).ok()`. -/
def tryFromNat (n : ℕ) : Option UInt64 := if n < 2 ^ 64 then some (UInt64.ofNat n) else none

variable {a b c : UInt64}

/-! ## A step that is not noticed is the wrapping step -/

theorem eq_add_of_checkedAdd (h : checkedAdd a b = some c) : c = a + b := by
  rw [checkedAdd] at h
  split at h
  · exact (Option.some.inj h).symm
  · cases h

theorem eq_sub_of_checkedSub (h : checkedSub a b = some c) : c = a - b := by
  rw [checkedSub] at h
  split at h
  · exact (Option.some.inj h).symm
  · cases h

theorem eq_mul_of_checkedMul (h : checkedMul a b = some c) : c = a * b := by
  rw [checkedMul] at h
  split at h
  · exact (Option.some.inj h).symm
  · cases h

/-! ## Chains of steps -/

@[simp] theorem isSome_tryFromNat (n : ℕ) : (tryFromNat n).isSome ↔ n < 2 ^ 64 := by
  by_cases h : n < 2 ^ 64
  · rw [tryFromNat, if_pos h]
    exact iff_of_true rfl h
  · rw [tryFromNat, if_neg h]
    exact iff_of_false Bool.false_ne_true h

theorem checkedAdd_eq (a b : UInt64) : checkedAdd a b = tryFromNat (a.toNat + b.toNat) := by
  rw [checkedAdd, tryFromNat, UInt64.ofNat_add, UInt64.ofNat_toNat, UInt64.ofNat_toNat]

theorem checkedMul_eq (a b : UInt64) : checkedMul a b = tryFromNat (a.toNat * b.toNat) := by
  rw [checkedMul, tryFromNat, UInt64.ofNat_mul, UInt64.ofNat_toNat, UInt64.ofNat_toNat]

/-- A sum only grows, so it fits when its last value does. -/
theorem bind_checkedAdd (n : ℕ) (b : UInt64) :
    ((tryFromNat n).bind fun a => checkedAdd a b) = tryFromNat (n + b.toNat) := by
  by_cases hn : n < 2 ^ 64
  · rw [tryFromNat, if_pos hn, Option.bind_some, checkedAdd_eq, UInt64.toNat_ofNat_of_lt' hn]
  · rw [tryFromNat, if_neg hn, Option.bind_none, tryFromNat, if_neg (by omega)]

/-- The same of a product with a positive number. -/
theorem bind_checkedMul (n : ℕ) (hb : 0 < b.toNat) :
    ((tryFromNat n).bind fun a => checkedMul a b) = tryFromNat (n * b.toNat) := by
  by_cases hn : n < 2 ^ 64
  · rw [tryFromNat, if_pos hn, Option.bind_some, checkedMul_eq, UInt64.toNat_ofNat_of_lt' hn]
  · have hle : n ≤ n * b.toNat := Nat.le_mul_of_pos_right n hb
    rw [tryFromNat, if_neg hn, Option.bind_none, tryFromNat, if_neg (by omega)]

end Rust
