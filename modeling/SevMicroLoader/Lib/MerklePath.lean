import Mathlib.Algebra.Order.Group.Nat
import Mathlib.Data.List.Basic

/-!
# Hash paths to a Merkle root

`climb` recomputes a root from a node, its index and the sibling hashes from the
bottom up: the low bit of the index says on which side the node stands, and the
index is halved at each level. Leaves and inner nodes are hashed under different
tags. The index is used up at the top exactly when it names a position of a tree of
that height (`consumed_iff`).

From a node of a full tree, the climb with the siblings of its place ends in the root
(`climb_siblings`).

Two climbs that meet in one root either started from the same node or hashed two
different contents to the same value (`eq_or_colliding`); a climb that reaches the
place of another's leaf from below always did the latter (`colliding_of_lower`).
-/

namespace MerklePath
variable {α : Type} (H : List α → List α) (leafTag nodeTag : α)

/-- The hash of a leaf's content. -/
def leaf (x : List α) : List α := H (leafTag :: x)

/-- The hash of two children. -/
def node (l r : List α) : List α := H (nodeTag :: (l ++ r))

/-- The root above the node `h` at index `i`, given its siblings from the bottom up. -/
def climb : List (List α) → ℕ → List α → List α
  | [], _, h => h
  | s :: ss, i, h =>
      climb ss (i / 2) (if i % 2 = 0 then node H nodeTag h s else node H nodeTag s h)

@[simp] theorem climb_nil (i : ℕ) (h : List α) : climb H nodeTag [] i h = h := rfl

theorem climb_cons (s : List α) (ss : List (List α)) (i : ℕ) (h : List α) :
    climb H nodeTag (s :: ss) i h =
      climb H nodeTag ss (i / 2) (if i % 2 = 0 then node H nodeTag h s else node H nodeTag s h) :=
  rfl

/-- The index is used up after `k` levels exactly when it is below `2 ^ k`. -/
theorem consumed_iff (i k : ℕ) : i / 2 ^ k = 0 ↔ i < 2 ^ k :=
  Nat.div_eq_zero_iff_lt (Nat.two_pow_pos k)

/-! ## Binding -/

/-- Some content on the left and a different one on the right hash to the same value. -/
def Colliding (xs ys : List (List α)) : Prop := ∃ x ∈ xs, ∃ y ∈ ys, x ≠ y ∧ H x = H y

/-- What is hashed to combine the node `h` at index `i` with its sibling `s`. -/
def nodeInput (i : ℕ) (h s : List α) : List α :=
  nodeTag :: (if i % 2 = 0 then h ++ s else s ++ h)

/-- What a climb hashes, from the bottom up. -/
def climbInputs : List (List α) → ℕ → List α → List (List α)
  | [], _, _ => []
  | s :: ss, i, h => nodeInput nodeTag i h s :: climbInputs ss (i / 2) (H (nodeInput nodeTag i h s))

/-- What the climb from the leaf with content `x` hashes, the leaf included. -/
def inputs (ss : List (List α)) (i : ℕ) (x : List α) : List (List α) :=
  (leafTag :: x) :: climbInputs H nodeTag ss i (leaf H leafTag x)

variable {H leafTag nodeTag}

theorem Colliding.mono {xs xs' ys ys' : List (List α)} (h : Colliding H xs ys) (hx : xs ⊆ xs')
    (hy : ys ⊆ ys') : Colliding H xs' ys' := by
  obtain ⟨x, hxs, y, hys, hc⟩ := h
  exact ⟨x, hx hxs, y, hy hys, hc⟩

theorem climb_cons_eq (s : List α) (ss : List (List α)) (i : ℕ) (h : List α) :
    climb H nodeTag (s :: ss) i h = climb H nodeTag ss (i / 2) (H (nodeInput nodeTag i h s)) := by
  rw [climb_cons, nodeInput]
  by_cases hi : i % 2 = 0 <;> simp [hi, node]

theorem climb_append (ss ts : List (List α)) (i : ℕ) (h : List α) :
    climb H nodeTag (ss ++ ts) i h =
      climb H nodeTag ts (i / 2 ^ ss.length) (climb H nodeTag ss i h) := by
  induction ss generalizing i h with
  | nil => simp
  | cons s ss ih =>
      rw [List.cons_append, climb_cons_eq, ih, climb_cons_eq, Nat.div_div_eq_div_mul,
        List.length_cons, pow_succ']

theorem climbInputs_append (ss ts : List (List α)) (i : ℕ) (h : List α) :
    climbInputs H nodeTag (ss ++ ts) i h = climbInputs H nodeTag ss i h ++
      climbInputs H nodeTag ts (i / 2 ^ ss.length) (climb H nodeTag ss i h) := by
  induction ss generalizing i h with
  | nil => simp [climbInputs]
  | cons s ss ih =>
      rw [List.cons_append, climbInputs, ih, climbInputs, climb_cons_eq, Nat.div_div_eq_div_mul,
        List.length_cons, pow_succ', List.cons_append]

/-- The content of an inner node determines its child, when the children have one width. -/
theorem eq_of_nodeInput_eq {i : ℕ} {h h' s s' : List α} (hh : h.length = h'.length)
    (hs : s.length = s'.length) (heq : nodeInput nodeTag i h s = nodeInput nodeTag i h' s') :
    h = h' := by
  have hbody := (List.cons.inj heq).2
  by_cases hi : i % 2 = 0
  · rw [if_pos hi, if_pos hi] at hbody
    exact (List.append_inj hbody hh).1
  · rw [if_neg hi, if_neg hi] at hbody
    exact (List.append_inj hbody hs).2

/-- **One place, one node.** Two climbs of the same height and index that meet in one root
start from the same node, or they hash two different contents to the same value. -/
theorem eq_or_colliding {n : ℕ} (hH : ∀ x, (H x).length = n) {ss ts : List (List α)}
    (hlen : ss.length = ts.length) (hss : ∀ s ∈ ss, s.length = n) (hts : ∀ t ∈ ts, t.length = n)
    {i : ℕ} {h h' : List α} (hh : h.length = n) (hh' : h'.length = n)
    (hroot : climb H nodeTag ss i h = climb H nodeTag ts i h') :
    h = h' ∨ Colliding H (climbInputs H nodeTag ss i h) (climbInputs H nodeTag ts i h') := by
  induction ss generalizing ts i h h' with
  | nil =>
      obtain rfl := List.length_eq_zero_iff.mp hlen.symm
      exact .inl hroot
  | cons s ss ih =>
      obtain ⟨t, ts, rfl⟩ := List.exists_cons_of_length_eq_add_one hlen.symm
      rw [climb_cons_eq, climb_cons_eq] at hroot
      have htail := ih (by simpa using hlen) (fun s' hs' => hss s' (List.mem_cons_of_mem _ hs'))
        (fun t' ht' => hts t' (List.mem_cons_of_mem _ ht')) (hH _) (hH _) hroot
      obtain heq | hcol := htail
      · -- the two parents agree: either their contents do, or these contents collide
        by_cases hin : nodeInput nodeTag i h s = nodeInput nodeTag i h' t
        · have hst : s.length = t.length := by
            rw [hss s List.mem_cons_self, hts t List.mem_cons_self]
          exact .inl (eq_of_nodeInput_eq (hh.trans hh'.symm) hst hin)
        · exact .inr ⟨_, List.mem_cons_self, _, List.mem_cons_self, hin, heq⟩
      · exact .inr (hcol.mono (List.subset_cons_self _ _) (List.subset_cons_self _ _))

/-- A climb over at least one level ends in the hash of an inner node it went through. -/
theorem exists_climb_eq_hash {ss : List (List α)} (hne : ss ≠ []) (i : ℕ) (h : List α) :
    ∃ x ∈ climbInputs H nodeTag ss i h, x.head? = some nodeTag ∧ climb H nodeTag ss i h = H x := by
  induction ss generalizing i h with
  | nil => exact absurd rfl hne
  | cons s ss ih =>
      rw [climb_cons_eq, climbInputs]
      cases ss with
      | nil => exact ⟨_, List.mem_cons_self, rfl, rfl⟩
      | cons s' ss =>
          obtain ⟨x, hx, htag, heq⟩ :=
            ih (List.cons_ne_nil _ _) (i / 2) (H (nodeInput nodeTag i h s))
          exact ⟨x, List.mem_cons_of_mem _ hx, htag, heq⟩

section Leaves
variable {n : ℕ} {ss ts : List (List α)} {i j : ℕ} {x y : List α}

/-- Two leaves at one place under one root are equal, or the climbs contain a collision. -/
theorem leaf_eq_or_colliding (hH : ∀ x, (H x).length = n) (hlen : ss.length = ts.length)
    (hss : ∀ s ∈ ss, s.length = n) (hts : ∀ t ∈ ts, t.length = n)
    (hroot : climb H nodeTag ss i (leaf H leafTag x) = climb H nodeTag ts i (leaf H leafTag y)) :
    x = y ∨ Colliding H (inputs H leafTag nodeTag ss i x) (inputs H leafTag nodeTag ts i y) := by
  obtain heq | hcol := eq_or_colliding hH hlen hss hts (hH _) (hH _) hroot
  · by_cases hxy : x = y
    · exact .inl hxy
    · have hne : leafTag :: x ≠ leafTag :: y := fun hc => hxy (List.cons.inj hc).2
      exact .inr ⟨_, List.mem_cons_self, _, List.mem_cons_self, hne, heq⟩
  · exact .inr (hcol.mono (List.subset_cons_self _ _) (List.subset_cons_self _ _))

/-- **A leaf is no inner node.** When the leaf `x` sits where the longer climb from `y` passes
an inner node, the two climbs contain a collision. -/
theorem colliding_of_lower (hH : ∀ x, (H x).length = n) (htag : leafTag ≠ nodeTag)
    (hlen : ss.length < ts.length) (hss : ∀ s ∈ ss, s.length = n) (hts : ∀ t ∈ ts, t.length = n)
    (hij : i = j / 2 ^ (ts.length - ss.length))
    (hroot : climb H nodeTag ss i (leaf H leafTag x) = climb H nodeTag ts j (leaf H leafTag y)) :
    Colliding H (inputs H leafTag nodeTag ss i x) (inputs H leafTag nodeTag ts j y) := by
  -- the lower part of the long climb ends at the height of the leaf `x`
  obtain ⟨lo, hi, rfl, hlo⟩ : ∃ lo hi, ts = lo ++ hi ∧ lo.length = ts.length - ss.length :=
    ⟨_, _, (List.take_append_drop (ts.length - ss.length) ts).symm, by simp⟩
  have hhi : ss.length = hi.length := by
    rw [List.length_append] at hlo hlen
    omega
  have hlow : lo ≠ [] := by
    rw [← List.length_pos_iff]
    omega
  rw [climb_append, hlo, ← hij] at hroot
  obtain ⟨z, hz, hztag, hzeq⟩ := exists_climb_eq_hash hlow j (leaf H leafTag y)
  rw [inputs, inputs, climbInputs_append, hlo, ← hij]
  have hwidth : (climb H nodeTag lo j (leaf H leafTag y)).length = n := by rw [hzeq, hH]
  obtain heq | hcol := eq_or_colliding hH hhi hss
    (fun t ht => hts t (List.mem_append_right _ ht)) (hH _) hwidth hroot
  · refine ⟨leafTag :: x, List.mem_cons_self, z, ?_, ?_, ?_⟩
    · exact List.mem_cons_of_mem _ (List.mem_append_left _ hz)
    · rintro rfl
      exact htag (Option.some.inj hztag)
    · exact heq.trans hzeq
  · refine hcol.mono (List.subset_cons_self _ _) ?_
    exact List.subset_cons_of_subset _ (List.subset_append_right _ _)

end Leaves

/-! ## Full trees -/

variable (H nodeTag) in
/-- The root of the full tree of height `d` over the nodes `hs`, by halves. -/
def root : ℕ → List (List α) → List α
  | 0, hs => hs.headD []
  | d + 1, hs => node H nodeTag (root d (hs.take (2 ^ d))) (root d (hs.drop (2 ^ d)))

variable (H nodeTag) in
/-- The siblings on the way up from place `i` of that tree. -/
def siblings : ℕ → List (List α) → ℕ → List (List α)
  | 0, _, _ => []
  | d + 1, hs, i =>
      if i < 2 ^ d then siblings d (hs.take (2 ^ d)) i ++ [root H nodeTag d (hs.drop (2 ^ d))]
      else siblings d (hs.drop (2 ^ d)) (i - 2 ^ d) ++ [root H nodeTag d (hs.take (2 ^ d))]

section FullTrees
variable {d n i : ℕ} {hs : List (List α)}

theorem length_halves (hlen : hs.length = 2 ^ (d + 1)) :
    (hs.take (2 ^ d)).length = 2 ^ d ∧ (hs.drop (2 ^ d)).length = 2 ^ d := by
  rw [List.length_take, List.length_drop, hlen, pow_succ]
  omega

@[simp] theorem length_siblings : (siblings H nodeTag d hs i).length = d := by
  induction d generalizing hs i with
  | zero => rfl
  | succ d ih =>
      rw [siblings]
      split
      · rw [List.length_append, ih, List.length_singleton]
      · rw [List.length_append, ih, List.length_singleton]

theorem length_root (hH : ∀ x, (H x).length = n) (hlen : hs.length = 2 ^ d)
    (hs_width : ∀ h ∈ hs, h.length = n) : (root H nodeTag d hs).length = n := by
  cases d with
  | zero =>
      obtain ⟨h, rfl⟩ := List.length_eq_one_iff.mp hlen
      exact hs_width h (List.mem_singleton_self h)
  | succ d => exact hH _

theorem length_of_mem_siblings (hH : ∀ x, (H x).length = n) (hlen : hs.length = 2 ^ d)
    (hs_width : ∀ h ∈ hs, h.length = n) : ∀ s ∈ siblings H nodeTag d hs i, s.length = n := by
  induction d generalizing hs i with
  | zero => exact fun s hmem => absurd hmem List.not_mem_nil
  | succ d ih =>
      obtain ⟨hleft, hright⟩ := length_halves hlen
      have hwleft : ∀ h ∈ hs.take (2 ^ d), h.length = n :=
        fun h hmem => hs_width h (List.mem_of_mem_take hmem)
      have hwright : ∀ h ∈ hs.drop (2 ^ d), h.length = n :=
        fun h hmem => hs_width h (List.mem_of_mem_drop hmem)
      intro s hmem
      rw [siblings] at hmem
      split at hmem
      · rcases List.mem_append.mp hmem with hmem | hmem
        · exact ih hleft hwleft s hmem
        · rw [List.mem_singleton.mp hmem]
          exact length_root hH hright hwright
      · rcases List.mem_append.mp hmem with hmem | hmem
        · exact ih hright hwright s hmem
        · rw [List.mem_singleton.mp hmem]
          exact length_root hH hleft hwleft

/-- A climb over `k` levels looks at the low `k` bits of the index. -/
theorem climb_add_mul (ss : List (List α)) (i k : ℕ) (h : List α) :
    climb H nodeTag ss (i + k * 2 ^ ss.length) h = climb H nodeTag ss i h := by
  induction ss generalizing i h with
  | nil => rfl
  | cons s ss ih =>
      have hmod : (i + k * 2 ^ (ss.length + 1)) % 2 = i % 2 := by
        rw [pow_succ, ← mul_assoc]
        omega
      have hdiv : (i + k * 2 ^ (ss.length + 1)) / 2 = i / 2 + k * 2 ^ ss.length := by
        rw [pow_succ, ← mul_assoc]
        omega
      rw [List.length_cons, climb_cons, hmod, hdiv, ih, ← climb_cons]

/-- **Completeness.** The climb from a place of a full tree, with its siblings, ends in the root. -/
theorem climb_siblings (hlen : hs.length = 2 ^ d) (hi : i < 2 ^ d) :
    climb H nodeTag (siblings H nodeTag d hs i) i (hs.getD i []) = root H nodeTag d hs := by
  induction d generalizing hs i with
  | zero =>
      obtain ⟨h, rfl⟩ := List.length_eq_one_iff.mp hlen
      obtain rfl : i = 0 := by omega
      rfl
  | succ d ih =>
      obtain ⟨hleft, hright⟩ := length_halves hlen
      rw [siblings, root]
      by_cases hlow : i < 2 ^ d
      · have hleaf : (hs.take (2 ^ d)).getD i [] = hs.getD i [] := by
          rw [List.getD_eq_getElem?_getD, List.getElem?_take_of_lt hlow,
            ← List.getD_eq_getElem?_getD]
        have htop : i / 2 ^ d = 0 := Nat.div_eq_of_lt hlow
        rw [if_pos hlow, climb_append, length_siblings, htop, ← hleaf, ih hleft hlow]
        rfl
      · have hleaf : (hs.drop (2 ^ d)).getD (i - 2 ^ d) [] = hs.getD i [] := by
          rw [List.getD_eq_getElem?_getD, List.getElem?_drop, ← List.getD_eq_getElem?_getD,
            Nat.add_sub_cancel' (Nat.not_lt.mp hlow)]
        have hindex : i - 2 ^ d + 1 * 2 ^ d = i := by omega
        have htop : i / 2 ^ d = 1 := by
          rw [← hindex, Nat.add_mul_div_right _ _ (Nat.two_pow_pos d), Nat.div_eq_of_lt]
          rw [pow_succ] at hi
          omega
        have hclimb : climb H nodeTag (siblings H nodeTag d (hs.drop (2 ^ d)) (i - 2 ^ d)) i
            (hs.getD i []) = root H nodeTag d (hs.drop (2 ^ d)) := by
          have hadd := @climb_add_mul α H nodeTag
            (siblings H nodeTag d (hs.drop (2 ^ d)) (i - 2 ^ d)) (i - 2 ^ d) 1 (hs.getD i [])
          rw [length_siblings, hindex] at hadd
          rw [hadd, ← hleaf]
          exact ih hright (by rw [pow_succ] at hi; omega)
        rw [if_neg hlow, climb_append, length_siblings, htop, hclimb]
        rfl

end FullTrees

end MerklePath
