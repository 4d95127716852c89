import SevMicroLoader.Lib.OrderStatistic
import SevMicroLoader.Rust.Checked

/-!
# The consensus of the Roughtime servers

`queryRoughtime` takes what awaiting each server's task gave, in the order of the servers,
keeps the midpoints that came back, sorts them and returns the median. The even case
averages two middle midpoints in wrapping 64-bit arithmetic.

The median is a rank of the sorted midpoints, so fewer than half of them can neither move
it outside the interval of the others nor take part in the sum that would wrap.
-/

namespace SevMicroLoader.Time
open Rust

/-- A server of the list, with the text of its key. -/
structure RoughtimeServer where
  name : String
  host : String
  port : UInt16
  pubkeyBase64 : String
  deriving DecidableEq

/-- The servers that are asked. -/
def roughtimeServers : List RoughtimeServer :=
  [⟨"cloudflare", "roughtime.cloudflare.com", 2003,
    "0GD7c3yP8xEc4Zl2zeuN2SlLvDVVocjsPSL8/Rl/7zg="⟩,
   ⟨"roughtime.se", "roughtime.se", 2002,
    "S3AzfZJ5CjSdkJ21ZJGbxqdYP/SoE8fXKY0+aicsehI="⟩,
   ⟨"roughtime.int08h.com", "roughtime.int08h.com", 2002,
    "AW5uAoTSTDfG5NfY1bTh08GUnOqlRb+HVhbJ3ODJvsE="⟩,
   ⟨"sth1.roughtime.netnod.se", "sth1.roughtime.netnod.se", 2002,
    "9l1JN4HakGnG44yyqyNNCb0HN0XfsysBbnl/kbZoZDc="⟩,
   ⟨"sth2.roughtime.netnod.se", "sth2.roughtime.netnod.se", 2002,
    "T/xxX4ERUBAOpt64Z8phWamKsASZxJ0VWuiPm3GS/8g="⟩,
   ⟨"rough.time.nl", "rough.time.nl", 2002,
    "v2CievhgKsxzlWPwIkYFUXeA51Akhkv5uhJCj1/kbiY="⟩,
   ⟨"time.teax.dev", "time.teax.dev", 2002,
    "84pMADvKUcSOq5RNbVRjVrjiU16Dxo2XV2Qkm+4DRTg="⟩,
   ⟨"roughtime.sturdystatistics.com", "roughtime.sturdystatistics.com", 2002,
    "NqIjwLopQn6yQChtE21Mb97dAbAPe5UOuTa0tOakgD8="⟩,
   ⟨"ilimit-rt01.ilimit.cat", "ilimit-rt01.ilimit.cat", 2002,
    "Oj8AxjzCYMlBicllTdeiJOEluLHdxijGd6sSaS993eo="⟩,
   ⟨"ilimit-rt02.ilimit.cat", "ilimit-rt02.ilimit.cat", 2002,
    "XTNZR7TIw4iMV2mNOVNPYzmWxXxg1DA16o2SYLp1k8k="⟩]

/-- What awaiting a handle yields: the server's name with its result, or nothing when the task
did not complete. -/
abbrev Outcome := Option (String × Except String UInt64)

/-- The midpoint of an outcome that is `Ok`. -/
def okMidpoint (o : Outcome) : Option UInt64 := o.bind fun res => res.2.toOption

/-- `valid_midpoints`, in the order of the servers. -/
def validMidpoints (outcomes : List Outcome) : List UInt64 := outcomes.filterMap okMidpoint

/-- `valid_midpoints.sort_unstable()`. -/
def sortUnstable (midpoints : List UInt64) : List UInt64 := midpoints.mergeSort (· ≤ ·)

/-- The median, on sorted midpoints. -/
def median (sorted : List UInt64) : Checked UInt64 :=
  if sorted.length % 2 = 1 then index sorted (sorted.length / 2)
  else do
    let mid := sorted.length / 2
    let a ← index sorted (← sub mid 1)
    let b ← index sorted mid
    pure ((a + b) / 2)

/-- The median of the midpoints that came back, if any did. -/
def queryRoughtime (outcomes : List Outcome) : Checked UInt64 :=
  if validMidpoints outcomes = [] then
    fail "No valid Roughtime responses received from any server"
  else median (sortUnstable (validMidpoints outcomes))

/-! ## The sorted midpoints -/

variable {midpoints midpoints' : List UInt64}

theorem perm_sortUnstable (midpoints : List UInt64) :
    (sortUnstable midpoints).Perm midpoints := List.mergeSort_perm _ _

theorem pairwise_sortUnstable (midpoints : List UInt64) :
    (sortUnstable midpoints).Pairwise (· ≤ ·) := by
  have h : (sortUnstable midpoints).Pairwise fun a b => decide (a ≤ b) = true := by
    apply List.pairwise_mergeSort
    · intro a b c hab hbc
      exact decide_eq_true (UInt64.le_trans (of_decide_eq_true hab) (of_decide_eq_true hbc))
    · intro a b
      simpa using UInt64.le_total a b
  exact h.imp of_decide_eq_true

/-- The sorted list depends only on the multiset of midpoints. -/
theorem sortUnstable_eq_of_perm (h : midpoints.Perm midpoints') :
    sortUnstable midpoints = sortUnstable midpoints' := by
  apply List.Perm.eq_of_pairwise _ (pairwise_sortUnstable _) (pairwise_sortUnstable _)
  · exact (perm_sortUnstable _).trans (h.trans (perm_sortUnstable _).symm)
  · intro a b _ _ hab hba
    exact UInt64.le_antisymm hab hba

/-- The result depends only on the multiset of midpoints. -/
theorem queryRoughtime_eq_of_perm {outcomes outcomes' : List Outcome}
    (h : (validMidpoints outcomes).Perm (validMidpoints outcomes')) :
    queryRoughtime outcomes = queryRoughtime outcomes' := by
  have hempty : validMidpoints outcomes = [] ↔ validMidpoints outcomes' = [] := by
    constructor
    · intro h0
      exact (h0 ▸ h).nil_eq.symm
    · intro h0
      exact (h0 ▸ h).eq_nil
  rw [queryRoughtime, queryRoughtime, sortUnstable_eq_of_perm h]
  simp only [hempty]

/-! ## The median among a minority of outliers -/

/-- A midpoint outside `[lo, hi]`. -/
def outside (lo hi t : UInt64) : Bool := !(decide (lo ≤ t) && decide (t ≤ hi))

/-- A rank of the sorted midpoints with few enough outliers on either side is inside. -/
theorem rank_inside {sorted : List UInt64} {lo hi : UInt64} (hsorted : sorted.Pairwise (· ≤ ·))
    {i : ℕ} (hi' : i < sorted.length) (hbelow : sorted.countP (outside lo hi) ≤ i)
    (habove : sorted.countP (outside lo hi) + i < sorted.length) :
    lo ≤ sorted[i] ∧ sorted[i] ≤ hi := by
  have hlow : ∀ a b : UInt64, a ≤ b → decide (b < lo) → decide (a < lo) := by
    intro a b hab hb
    exact decide_eq_true (UInt64.lt_of_le_of_lt hab (of_decide_eq_true hb))
  have hhigh : ∀ a b : UInt64, a ≤ b → decide (hi < a) → decide (hi < b) := by
    intro a b hab ha
    exact decide_eq_true (UInt64.lt_of_lt_of_le (of_decide_eq_true ha) hab)
  have hout : ∀ a, decide (a < lo) ∨ decide (hi < a) → outside lo hi a := by
    intro a h
    rcases h with h | h
    · simp [outside, UInt64.not_le.mpr (of_decide_eq_true h)]
    · simp [outside, UInt64.not_le.mpr (of_decide_eq_true h)]
  obtain ⟨h₁, h₂⟩ := OrderStatistic.rank_between hsorted hlow hhigh hout hi' hbelow habove
  exact ⟨UInt64.not_lt.mp (by simpa using h₁), UInt64.not_lt.mp (by simpa using h₂)⟩

/-- The wrapping average of two values below `2 ^ 63` lies between them. -/
theorem average_inside {lo hi a b : UInt64} (hhi : hi.toNat < 2 ^ 63) (ha : lo ≤ a ∧ a ≤ hi)
    (hb : lo ≤ b ∧ b ≤ hi) : lo ≤ (a + b) / 2 ∧ (a + b) / 2 ≤ hi := by
  simp only [UInt64.le_iff_toNat_le] at *
  have hsum : ((a + b) / 2).toNat = (a.toNat + b.toNat) / 2 := by
    have hlt : a.toNat + b.toNat < 2 ^ 64 := by omega
    rw [UInt64.toNat_div, UInt64.toNat_add, Nat.mod_eq_of_lt hlt]
    rfl
  omega

theorem median_inside {sorted : List UInt64} {lo hi : UInt64} (hsorted : sorted.Pairwise (· ≤ ·))
    (hminor : 2 * sorted.countP (outside lo hi) < sorted.length) (hhi : hi.toNat < 2 ^ 63) :
    ∃ t, (median sorted).val = .ok t ∧ lo ≤ t ∧ t ≤ hi := by
  by_cases hodd : sorted.length % 2 = 1
  · refine ⟨sorted[sorted.length / 2], ?_, rank_inside hsorted (by omega) (by omega) (by omega)⟩
    rw [median, if_pos hodd, val_index (by omega)]
  · -- an even list with a minority of outliers has at least two elements
    have hlower : lo ≤ sorted[sorted.length / 2 - 1] ∧ sorted[sorted.length / 2 - 1] ≤ hi :=
      rank_inside hsorted (by omega) (by omega) (by omega)
    have hupper : lo ≤ sorted[sorted.length / 2] ∧ sorted[sorted.length / 2] ≤ hi :=
      rank_inside hsorted (by omega) (by omega) (by omega)
    refine ⟨_, ?_, average_inside hhi hlower hupper⟩
    rw [median, if_neg hodd, Metered.val_bind_of_ok (val_sub (by omega)),
      val_index_bind (by omega), val_index_bind (by omega)]
    rfl

/-- **Byzantine robustness of the time consensus.** A minority of arbitrary midpoints cannot
move the result out of an interval below `2 ^ 63` that holds the others; the order of the
outcomes and the ones that are not `Ok` do not matter. -/
theorem queryRoughtime_robust :
    (∀ (outcomes : List Outcome) (lo hi : UInt64), validMidpoints outcomes ≠ [] →
      2 * (validMidpoints outcomes).countP (outside lo hi) < (validMidpoints outcomes).length →
      hi.toNat < 2 ^ 63 →
      ∃ t, (queryRoughtime outcomes).val = .ok t ∧ lo ≤ t ∧ t ≤ hi) ∧
    (∀ outcomes outcomes' : List Outcome, outcomes.Perm outcomes' →
      (queryRoughtime outcomes).val = (queryRoughtime outcomes').val) ∧
    ∀ outcomes : List Outcome, (queryRoughtime outcomes).val =
      (queryRoughtime (outcomes.filter fun o => (okMidpoint o).isSome)).val := by
  refine ⟨?_, ?_, ?_⟩
  · intro outcomes lo hi hne hminor hhi
    have hperm := perm_sortUnstable (validMidpoints outcomes)
    rw [queryRoughtime, if_neg hne]
    apply median_inside (pairwise_sortUnstable _) _ hhi
    rwa [hperm.countP_eq, hperm.length_eq]
  · intro outcomes outcomes' h
    rw [queryRoughtime_eq_of_perm (h.filterMap okMidpoint)]
  · intro outcomes
    have hsame : validMidpoints (outcomes.filter fun o => (okMidpoint o).isSome) =
        validMidpoints outcomes := by
      rw [validMidpoints, validMidpoints, List.filterMap_filter]
      refine List.filterMap_congr fun o _ => ?_
      cases h : okMidpoint o <;> simp
    rw [queryRoughtime_eq_of_perm (List.Perm.of_eq hsame)]

/-- Two of five servers lie, one of them with the largest `u64`, and one does not answer. -/
theorem queryRoughtime_robust_two_liars :
    ∃ t, (queryRoughtime [some ("a", .ok 0xffffffffffffffff), some ("b", .ok 1000),
        some ("c", .error "Query timed out or failed"), some ("d", .ok 1005), none,
        some ("e", .ok 0), some ("f", .ok 1001)]).val = .ok t ∧ 1000 ≤ t ∧ t ≤ 1005 :=
  queryRoughtime_robust.1 _ _ _ (by decide) (by decide) (by decide)

end SevMicroLoader.Time
