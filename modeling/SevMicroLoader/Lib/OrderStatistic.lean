import Mathlib.Data.List.Basic
import Mathlib.Data.List.GetD
import Mathlib.Order.Nat

/-!
# Order statistics of a sorted list

The element at rank `i` of a sorted list escapes every downward closed set with at most
`i` members in the list, and every upward closed set that leaves more than `i` elements
outside. `rank_between` combines the two: a rank with few enough outliers on
either side holds no outlier.

`median` is the exact median of a list of naturals; it lies between two of its elements
(`median_inRange`).
-/

namespace OrderStatistic
variable {α : Type} {r : α → α → Prop} {xs : List α}

/-- A downward closed set with at most `i` members does not reach rank `i`. -/
theorem not_low_of_countP_le {low : α → Bool} (hsorted : xs.Pairwise r)
    (hclosed : ∀ a b, r a b → low b → low a) {i : ℕ} (hi : i < xs.length)
    (hcount : xs.countP low ≤ i) : ¬ low xs[i] := by
  induction xs generalizing i with
  | nil => simp at hi
  | cons x xs ih =>
      obtain ⟨hx, hxs⟩ := List.pairwise_cons.mp hsorted
      intro hlow
      cases i with
      | zero =>
          have hpos : 0 < (x :: xs).countP low := List.countP_pos_iff.mpr ⟨x, by simp, hlow⟩
          omega
      | succ i =>
          have hi' : i < xs.length := by simpa using hi
          have hlowx : low x := hclosed x xs[i] (hx _ (List.getElem_mem hi')) hlow
          rw [List.countP_cons_of_pos hlowx] at hcount
          exact ih hxs hi' (by omega) hlow

/-- An upward closed set that leaves more than `i` elements outside does not reach down to
rank `i`. -/
theorem not_high_of_countP_lt {high : α → Bool} (hsorted : xs.Pairwise r)
    (hclosed : ∀ a b, r a b → high a → high b) {i : ℕ} (hi : i < xs.length)
    (hcount : xs.countP high + i < xs.length) : ¬ high xs[i] := by
  induction xs generalizing i with
  | nil => simp at hi
  | cons x xs ih =>
      obtain ⟨hx, hxs⟩ := List.pairwise_cons.mp hsorted
      intro hhigh
      cases i with
      | zero =>
          have hall : (x :: xs).countP high = (x :: xs).length := by
            rw [List.countP_eq_length]
            intro y hy
            rcases List.mem_cons.mp hy with rfl | hy
            · exact hhigh
            · exact hclosed x y (hx y hy) hhigh
          omega
      | succ i =>
          have hle : xs.countP high ≤ (x :: xs).countP high :=
            (List.sublist_cons_self x xs).countP_le
          rw [List.length_cons] at hi hcount
          exact ih hxs (by omega) (by omega) hhigh

/-- **A rank with few outliers on either side holds no outlier.** -/
theorem rank_between {low high : α → Bool} (hsorted : xs.Pairwise r)
    (hlow : ∀ a b, r a b → low b → low a) (hhigh : ∀ a b, r a b → high a → high b)
    {outlier : α → Bool} (hout : ∀ a, low a ∨ high a → outlier a) {i : ℕ} (hi : i < xs.length)
    (hbelow : xs.countP outlier ≤ i) (habove : xs.countP outlier + i < xs.length) :
    ¬ low xs[i] ∧ ¬ high xs[i] := by
  have hcountLow : xs.countP low ≤ xs.countP outlier :=
    List.countP_mono_left fun a _ h => hout a (.inl h)
  have hcountHigh : xs.countP high ≤ xs.countP outlier :=
    List.countP_mono_left fun a _ h => hout a (.inr h)
  constructor
  · exact not_low_of_countP_le hsorted hlow hi (by omega)
  · exact not_high_of_countP_lt hsorted hhigh hi (by omega)

/-! ## The exact median -/

/-- The elements in nondecreasing order. -/
def sorted (xs : List ℕ) : List ℕ := xs.mergeSort (· ≤ ·)

/-- The lower one of the two middle elements of a list of even length. -/
def lowerMiddle (xs : List ℕ) : ℕ := (sorted xs).getD (xs.length / 2 - 1) 0

/-- The middle element, or the upper one of the two. -/
def upperMiddle (xs : List ℕ) : ℕ := (sorted xs).getD (xs.length / 2) 0

/-- The middle element of an odd number of elements, the floor of the average of the two middle
ones of an even number. -/
def median (xs : List ℕ) : ℕ :=
  if xs.length % 2 = 1 then upperMiddle xs else (lowerMiddle xs + upperMiddle xs) / 2

/-- Between the smallest and the largest element. -/
def InRange (xs : List ℕ) (m : ℕ) : Prop := (∃ a ∈ xs, a ≤ m) ∧ ∃ b ∈ xs, m ≤ b

theorem perm_sorted (xs : List ℕ) : (sorted xs).Perm xs := List.mergeSort_perm _ _

theorem length_sorted (xs : List ℕ) : (sorted xs).length = xs.length := (perm_sorted xs).length_eq

theorem pairwise_sorted (xs : List ℕ) : (sorted xs).Pairwise (· ≤ ·) := by
  have h : (sorted xs).Pairwise fun a b => decide (a ≤ b) = true := by
    apply List.pairwise_mergeSort
    · intro a b c hab hbc
      exact decide_eq_true ((of_decide_eq_true hab).trans (of_decide_eq_true hbc))
    · intro a b
      simpa using Nat.le_total a b
  exact h.imp of_decide_eq_true

/-- There is one way to sort a list. -/
theorem sorted_eq_of_perm {xs ys : List ℕ} (hperm : ys.Perm xs) (hys : ys.Pairwise (· ≤ ·)) :
    sorted xs = ys :=
  ((perm_sorted xs).trans hperm.symm).eq_of_pairwise
    (fun _ _ _ _ hab hba => Nat.le_antisymm hab hba) (pairwise_sorted xs) hys

theorem getD_sorted_mem {xs : List ℕ} {i : ℕ} (hi : i < xs.length) :
    (sorted xs).getD i 0 ∈ xs := by
  rw [← length_sorted] at hi
  rw [List.getD_eq_getElem _ _ hi]
  exact (perm_sorted xs).mem_iff.mp (List.getElem_mem hi)

theorem lowerMiddle_le_upperMiddle {xs : List ℕ} (h : xs ≠ []) :
    lowerMiddle xs ≤ upperMiddle xs := by
  have hpos := List.length_pos_iff.mpr h
  have hlen := length_sorted xs
  rw [lowerMiddle, upperMiddle, List.getD_eq_getElem _ _ (by omega),
    List.getD_eq_getElem _ _ (by omega)]
  rcases Nat.eq_or_lt_of_le (show xs.length / 2 - 1 ≤ xs.length / 2 by omega) with heq | hlt
  · simp [heq]
  · exact List.pairwise_iff_getElem.mp (pairwise_sorted xs) _ _ _ _ hlt

/-- **The median lies between the smallest and the largest element.** -/
theorem median_inRange {xs : List ℕ} (h : xs ≠ []) : InRange xs (median xs) := by
  have hpos := List.length_pos_iff.mpr h
  have hle := lowerMiddle_le_upperMiddle h
  have hlower : lowerMiddle xs ∈ xs := getD_sorted_mem (by omega)
  have hupper : upperMiddle xs ∈ xs := getD_sorted_mem (by omega)
  rw [median]
  split
  · exact ⟨⟨_, hupper, le_rfl⟩, _, hupper, le_rfl⟩
  · exact ⟨⟨_, hlower, by omega⟩, _, hupper, by omega⟩

end OrderStatistic
