import SevMicroLoader.Time.Consensus

/-!
# When the consensus is the exact median

The even case of `median` adds two `u64` values before it halves the sum. The result is the
exact median precisely when the number of midpoints is odd or the sum of the two middle ones
stays below `2 ^ 64`; otherwise it is too small by `2 ^ 63`.
-/

namespace SevMicroLoader.Time
open Rust OrderStatistic

/-- The valid midpoints as numbers. -/
def midpointValues (outcomes : List Outcome) : List ℕ :=
  (validMidpoints outcomes).map UInt64.toNat

/-- The consensus is the exact median of the valid midpoints, and so between two of them. -/
def ConsensusExact (outcomes : List Outcome) : Prop :=
  ∃ t, (queryRoughtime outcomes).val = .ok t ∧
    t.toNat = OrderStatistic.median (midpointValues outcomes) ∧
    InRange (midpointValues outcomes) t.toNat

variable {midpoints : List UInt64}

/-- Sorting `u64` values sorts their numbers. -/
theorem sorted_map_toNat (midpoints : List UInt64) :
    sorted (midpoints.map UInt64.toNat) = (sortUnstable midpoints).map UInt64.toNat := by
  apply sorted_eq_of_perm ((perm_sortUnstable midpoints).map _)
  rw [List.pairwise_map]
  exact (pairwise_sortUnstable midpoints).imp UInt64.le_iff_toNat_le.mp

theorem length_sortUnstable (midpoints : List UInt64) :
    (sortUnstable midpoints).length = midpoints.length := (perm_sortUnstable midpoints).length_eq

theorem getD_sorted_map {i : ℕ} (hi : i < (sortUnstable midpoints).length) :
    (sorted (midpoints.map UInt64.toNat)).getD i 0 = (sortUnstable midpoints)[i].toNat := by
  rw [sorted_map_toNat, List.getD_eq_getElem _ _ (by simpa using hi), List.getElem_map]

/-- **The value of the consensus**: the exact median for an odd number of midpoints, the half of
the wrapped sum for an even one. -/
theorem val_median_toNat (h : midpoints ≠ []) :
    ∃ t, (median (sortUnstable midpoints)).val = .ok t ∧
      t.toNat = if midpoints.length % 2 = 1 then upperMiddle (midpoints.map UInt64.toNat)
        else (lowerMiddle (midpoints.map UInt64.toNat) +
          upperMiddle (midpoints.map UInt64.toNat)) % 2 ^ 64 / 2 := by
  have hpos := List.length_pos_iff.mpr h
  have hlen := length_sortUnstable midpoints
  rw [median, hlen, lowerMiddle, upperMiddle, List.length_map, getD_sorted_map (by omega),
    getD_sorted_map (by omega)]
  by_cases hodd : midpoints.length % 2 = 1
  · rw [if_pos hodd, if_pos hodd]
    exact ⟨_, val_index (by omega), rfl⟩
  · rw [if_neg hodd, if_neg hodd, Metered.val_bind_of_ok (val_sub (by omega)),
      val_index_bind (by omega), val_index_bind (by omega)]
    refine ⟨_, rfl, ?_⟩
    rw [UInt64.toNat_div, UInt64.toNat_add]
    rfl

/-- **When the consensus is the exact median.** It is so for every list of outcomes with a valid
midpoint whose number of midpoints is odd or whose two middle midpoints add up below `2 ^ 64`,
and for no other. -/
theorem consensus_exact_iff (outcomes : List Outcome) (h : validMidpoints outcomes ≠ []) :
    ConsensusExact outcomes ↔ (midpointValues outcomes).length % 2 = 1 ∨
      lowerMiddle (midpointValues outcomes) + upperMiddle (midpointValues outcomes) < 2 ^ 64 := by
  have hne : midpointValues outcomes ≠ [] := by simpa [midpointValues] using h
  have hlen : (midpointValues outcomes).length = (validMidpoints outcomes).length := by
    rw [midpointValues, List.length_map]
  obtain ⟨t, hval, ht⟩ := val_median_toNat h
  change t.toNat = if _ then upperMiddle (midpointValues outcomes) else
    (lowerMiddle (midpointValues outcomes) + upperMiddle (midpointValues outcomes)) %
      2 ^ 64 / 2 at ht
  have hquery : (queryRoughtime outcomes).val = .ok t := by rw [queryRoughtime, if_neg h, hval]
  have hupper := lowerMiddle_le_upperMiddle hne
  constructor
  · rintro ⟨t', ht', hexact, -⟩
    rw [hquery] at ht'
    cases ht'
    by_cases hodd : (validMidpoints outcomes).length % 2 = 1
    · exact .inl (hlen ▸ hodd)
    · rw [OrderStatistic.median, hlen, if_neg hodd] at hexact
      rw [if_neg hodd] at ht
      omega
  · intro hcond
    have hexact : t.toNat = OrderStatistic.median (midpointValues outcomes) := by
      rw [OrderStatistic.median, hlen, ht]
      by_cases hodd : (validMidpoints outcomes).length % 2 = 1
      · rw [if_pos hodd, if_pos hodd]
      · rw [if_neg hodd, if_neg hodd, Nat.mod_eq_of_lt]
        rw [hlen] at hcond
        exact hcond.resolve_left hodd
    exact ⟨t, hquery, hexact, hexact ▸ median_inRange hne⟩

/-- Two servers a few seconds apart, in microseconds. -/
theorem consensus_exact_iff_two :
    ConsensusExact [some ("a", .ok 1780272000001000), some ("b", .ok 1780272004001001)] := by
  refine (consensus_exact_iff _ (by decide)).mpr (.inr ?_)
  have hsorted : sorted [1780272000001000, 1780272004001001] =
      [1780272000001000, 1780272004001001] := sorted_eq_of_perm (.refl _) (by decide)
  change (sorted [1780272000001000, 1780272004001001]).getD 0 0 +
    (sorted [1780272000001000, 1780272004001001]).getD 1 0 < 2 ^ 64
  rw [hsorted]
  decide

/-- Two servers that both answer with the largest `u64` give half of it. -/
theorem consensus_of_two_largest :
    (queryRoughtime [some ("a", .ok 0xffffffffffffffff),
        some ("b", .ok 0xffffffffffffffff)]).val = .ok 0x7fffffffffffffff ∧
      ¬ ConsensusExact
        [some ("a", .ok 0xffffffffffffffff), some ("b", .ok 0xffffffffffffffff)] := by
  have hsorted : sortUnstable [0xffffffffffffffff, 0xffffffffffffffff] =
      [0xffffffffffffffff, 0xffffffffffffffff] := List.mergeSort_of_pairwise (by decide)
  have hval : (queryRoughtime [some ("a", .ok 0xffffffffffffffff),
      some ("b", .ok 0xffffffffffffffff)]).val = .ok 0x7fffffffffffffff := by
    rw [queryRoughtime, if_neg (by decide)]
    change (median (sortUnstable [0xffffffffffffffff, 0xffffffffffffffff])).val = _
    rw [hsorted]
    decide
  refine ⟨hval, ?_⟩
  rintro ⟨t, ht, -, ⟨a, ha, hle⟩, -⟩
  rw [hval] at ht
  cases ht
  -- both midpoints are above the consensus
  have hmid : a ∈ [2 ^ 64 - 1, 2 ^ 64 - 1] := ha
  obtain rfl : a = 2 ^ 64 - 1 := by simpa using hmid
  exact absurd hle (by decide)

end SevMicroLoader.Time
