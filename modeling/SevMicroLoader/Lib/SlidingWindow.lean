import Mathlib.Data.List.Basic
import Mathlib.Data.List.TakeWhile
import Mathlib.Order.Lattice

/-!
# Sliding windows over a history

A history is a list of times, oldest first. `expired now t` says that `t` has left the
window at `now`; older times leave first and never return (`Expiry`). `trim` drops the
expired front of a history, as a deque does, and `recent` is what is left of it. On a
sorted history the two agree, so a history that was trimmed early, late or never shows
the same recent part.

A history is `Admitted` when each entry found fewer than `max` recent ones before it;
then no more than `max` of its entries fit in one window.
-/

namespace SlidingWindow
variable {τ : Type} [LinearOrder τ] {expired : τ → τ → Bool}

/-- Older times expire first, and an expired time stays expired. -/
structure Expiry (expired : τ → τ → Bool) : Prop where
  older : ∀ {now t t' : τ}, t ≤ t' → expired now t' → expired now t
  later : ∀ {now now' t : τ}, now ≤ now' → expired now t → expired now' t

/-- Pop the front of the deque while it is expired. -/
def trim (expired : τ → τ → Bool) (now : τ) (xs : List τ) : List τ := xs.dropWhile (expired now)

/-- The part of a history still in the window. -/
def recent (expired : τ → τ → Bool) (now : τ) (xs : List τ) : List τ :=
  xs.filter fun t => !expired now t

variable {now now' : τ} {xs ys : List τ} {max : ℕ}

omit [LinearOrder τ] in
/-- Trimming removes an expired prefix. -/
theorem exists_eq_append_trim (expired : τ → τ → Bool) (now : τ) (xs : List τ) :
    ∃ old, xs = old ++ trim expired now xs ∧ ∀ t ∈ old, expired now t :=
  ⟨xs.takeWhile (expired now), List.takeWhile_append_dropWhile.symm,
    fun _ ht => List.mem_takeWhile_imp ht⟩

omit [LinearOrder τ] in
/-- Trimming twice at one time is trimming once. -/
@[simp] theorem trim_trim (now : τ) (xs : List τ) :
    trim expired now (trim expired now xs) = trim expired now xs := by
  induction xs with
  | nil => rfl
  | cons x xs ih =>
      by_cases h : expired now x
      · have hdrop : trim expired now (x :: xs) = trim expired now xs :=
          List.dropWhile_cons_of_pos h
        rw [hdrop, ih]
      · have hkeep : trim expired now (x :: xs) = x :: xs := List.dropWhile_cons_of_neg h
        rw [hkeep, hkeep]

/-- On a sorted history, trimming leaves the recent part. -/
theorem trim_eq_recent (H : Expiry expired) (hs : xs.Pairwise (· ≤ ·)) :
    trim expired now xs = recent expired now xs := by
  induction xs with
  | nil => rfl
  | cons x xs ih =>
      obtain ⟨hx, hxs⟩ := List.pairwise_cons.mp hs
      by_cases h : expired now x
      · have htail := ih hxs
        rw [trim, recent] at htail ⊢
        rw [List.dropWhile_cons_of_pos h, List.filter_cons_of_neg (by simp [h]), htail]
      · have hkeep : ∀ y ∈ x :: xs, !expired now y := by
          intro y hy
          have hle : x ≤ y := by
            rcases List.mem_cons.mp hy with rfl | hy
            · exact le_rfl
            · exact hx y hy
          have hfresh : ¬ expired now y := fun hold => h (H.older hle hold)
          simpa using hfresh
        rw [trim, recent, List.dropWhile_cons_of_neg h, List.filter_eq_self.mpr hkeep]

omit [LinearOrder τ] in
/-- An expired prefix does not show. -/
theorem recent_append_of_expired {old : List τ} (h : ∀ t ∈ old, expired now t) :
    recent expired now (old ++ xs) = recent expired now xs := by
  have hnil : recent expired now old = [] := by
    rw [recent, List.filter_eq_nil_iff]
    intro t ht
    simp [h t ht]
  rw [recent, List.filter_append]
  simp only [recent] at hnil ⊢
  rw [hnil, List.nil_append]

/-! ## How many entries one window holds -/

/-- Each entry found fewer than `max` recent entries before it. -/
def Admitted (expired : τ → τ → Bool) (max : ℕ) (xs : List τ) : Prop :=
  ∀ (i : ℕ) (h : i < xs.length), (recent expired xs[i] (xs.take i)).length < max

omit [LinearOrder τ] in
theorem admitted_nil (expired : τ → τ → Bool) (max : ℕ) : Admitted expired max [] := by
  intro i h
  simp at h

omit [LinearOrder τ] in
theorem Admitted.append_singleton (hA : Admitted expired max xs)
    (hnow : (recent expired now xs).length < max) : Admitted expired max (xs ++ [now]) := by
  intro i h
  rw [List.length_append, List.length_singleton] at h
  by_cases hi : i < xs.length
  · rw [List.getElem_append_left hi, List.take_append_of_le_length (by omega)]
    exact hA i hi
  · have hlast : i = xs.length := by omega
    subst hlast
    simpa using hnow

/-- On a sorted history, everything from rank `i` on is at least the entry there. -/
theorem getElem_le_of_mem_drop (hs : xs.Pairwise (· ≤ ·)) {i : ℕ} (hi : i < xs.length) {y : τ}
    (hy : y ∈ xs.drop i) : xs[i] ≤ y := by
  have hdrop : (xs.drop i).Pairwise (· ≤ ·) := hs.drop
  rw [List.drop_eq_getElem_cons hi] at hy hdrop
  rcases List.mem_cons.mp hy with rfl | hy
  · exact le_rfl
  · exact (List.pairwise_cons.mp hdrop).1 y hy

/-- **Two entries `max` apart do not share a window.** -/
theorem Admitted.expired_add (H : Expiry expired) (hs : xs.Pairwise (· ≤ ·))
    (hA : Admitted expired max xs) {i : ℕ} (hi : i + max < xs.length) :
    expired xs[i + max] xs[i] := by
  by_contra hfresh
  -- otherwise the `max` entries from `i` on are all recent at entry `i + max`
  have hblock : ((xs.take (i + max)).drop i).length = max := by
    rw [List.length_drop, List.length_take]
    omega
  have hle : ∀ y ∈ (xs.take (i + max)).drop i, xs[i] ≤ y := by
    intro y hy
    exact getElem_le_of_mem_drop hs (by omega) (((List.take_sublist _ _).drop i).subset hy)
  have hall : recent expired xs[i + max] ((xs.take (i + max)).drop i) =
      (xs.take (i + max)).drop i := by
    refine List.filter_eq_self.mpr fun y hy => ?_
    have hy' : ¬ expired xs[i + max] y := fun hold => hfresh (H.older (hle y hy) hold)
    simpa using hy'
  have hsub : (recent expired xs[i + max] ((xs.take (i + max)).drop i)).length ≤
      (recent expired xs[i + max] (xs.take (i + max))).length :=
    ((List.drop_sublist i _).filter _).length_le
  have hfew := hA (i + max) hi
  rw [hall, hblock] at hsub
  omega

/-- If entries `max` apart never share a window, a window holds at most `max` entries. -/
theorem countP_le_of_expired_add (H : Expiry expired) (hs : xs.Pairwise (· ≤ ·))
    (hfar : ∀ (i : ℕ) (h : i + max < xs.length), expired xs[i + max] xs[i])
    {inside : τ → Bool} (hin : ∀ t t', inside t → inside t' → ¬ expired t' t) :
    xs.countP inside ≤ max := by
  induction xs with
  | nil => simp
  | cons x xs ih =>
      obtain ⟨hx, hxs⟩ := List.pairwise_cons.mp hs
      by_cases h : inside x
      · -- from rank `max` on, every entry has outlived `x`
        have hnone : ((x :: xs).drop max).countP inside = 0 := by
          rw [List.countP_eq_zero]
          intro y hy hyin
          have hlen : max < (x :: xs).length := by
            have hpos := List.length_pos_of_mem hy
            rw [List.length_drop] at hpos
            omega
          have hle : (x :: xs)[max] ≤ y := getElem_le_of_mem_drop hs hlen hy
          have hold := hfar 0 (by omega)
          simp only [Nat.zero_add] at hold
          exact hin x y h hyin (H.later hle hold)
        have htake : ((x :: xs).take max).countP inside ≤ max :=
          le_trans List.countP_le_length (List.length_take_le _ _)
        rw [← List.take_append_drop max (x :: xs), List.countP_append, hnone]
        omega
      · rw [List.countP_cons_of_neg h]
        refine ih hxs fun i hi => ?_
        have hstep := hfar (i + 1) (by rw [List.length_cons]; omega)
        have hshift : i + 1 + max = i + max + 1 := by omega
        simpa [hshift] using hstep

end SlidingWindow
