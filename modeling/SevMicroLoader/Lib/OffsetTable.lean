import Mathlib.Data.List.TakeDrop
import Mathlib.Order.Nat

/-!
# Cutting a string at running offsets

A table of nondecreasing offsets from `0` to the length of a string cuts it into
consecutive pieces. `endOffset vs` is the table a list of pieces produces; `pieces`
cuts at a table. The two are inverse: cutting a concatenation at its own table
returns the pieces (`pieces_endOffset`), and the pieces cut at a table concatenate
to the string (`flatten_pieces`) and produce that table (`endOffset_pieces`).
-/

namespace OffsetTable
variable {α : Type}

/-- The length of the first `i` pieces together. -/
def endOffset (vs : List (List α)) (i : ℕ) : ℕ := (vs.take i).flatten.length

/-- The elements of `data` at positions `a, …, b - 1`. -/
def piece (data : List α) (a b : ℕ) : List α := (data.drop a).take (b - a)

/-- The `n` pieces between consecutive offsets. -/
def pieces (data : List α) (off : ℕ → ℕ) (n : ℕ) : List (List α) :=
  (List.range n).map fun i => piece data (off i) (off (i + 1))

/-- Offsets that start at zero, never decrease and end at `len`. -/
structure Table (off : ℕ → ℕ) (n len : ℕ) : Prop where
  zero : off 0 = 0
  step : ∀ i < n, off i ≤ off (i + 1)
  last : off n = len

/-! ## The table of a list of pieces -/

@[simp] theorem endOffset_zero (vs : List (List α)) : endOffset vs 0 = 0 := by simp [endOffset]

theorem endOffset_succ {vs : List (List α)} {i : ℕ} (h : i < vs.length) :
    endOffset vs (i + 1) = endOffset vs i + vs[i].length := by
  rw [endOffset, List.take_add_one, List.getElem?_eq_getElem h, List.flatten_append]
  simp [endOffset]

@[simp] theorem endOffset_length (vs : List (List α)) :
    endOffset vs vs.length = vs.flatten.length := by simp [endOffset]

theorem table_endOffset (vs : List (List α)) :
    Table (endOffset vs) vs.length vs.flatten.length where
  zero := endOffset_zero vs
  step i hi := by rw [endOffset_succ hi]; omega
  last := endOffset_length vs

/-- Offsets of a table never exceed a later offset. -/
theorem Table.mono {off : ℕ → ℕ} {n len : ℕ} (H : Table off n len) {i j : ℕ}
    (hij : i ≤ j) (hj : j ≤ n) : off i ≤ off j := by
  induction hij with
  | refl => exact le_rfl
  | @step j _ ih => exact (ih (by omega)).trans (H.step j (by omega))

theorem Table.le_last {off : ℕ → ℕ} {n len : ℕ} (H : Table off n len) {i : ℕ} (hi : i ≤ n) :
    off i ≤ len := (H.mono hi le_rfl).trans_eq H.last

/-! ## The pieces of a table -/

@[simp] theorem length_pieces (data : List α) (off : ℕ → ℕ) (n : ℕ) :
    (pieces data off n).length = n := by simp [pieces]

theorem length_piece {data : List α} {a b : ℕ} (h : b ≤ data.length) :
    (piece data a b).length = b - a := by
  simp [piece]
  omega

/-- Adjacent pieces join without a gap. -/
theorem piece_append_piece (data : List α) {a b c : ℕ} (hab : a ≤ b) (hbc : b ≤ c) :
    piece data a b ++ piece data b c = piece data a c := by
  have hdrop : data.drop b = (data.drop a).drop (b - a) := by
    rw [List.drop_drop]; congr 1; omega
  have hlen : c - a = (b - a) + (c - b) := by omega
  rw [piece, piece, piece, hdrop, hlen, ← List.take_add]

theorem pieces_congr {data : List α} {off off' : ℕ → ℕ} {n : ℕ}
    (h : ∀ i ≤ n, off i = off' i) : pieces data off n = pieces data off' n := by
  refine List.map_congr_left fun i hi => ?_
  have hlt : i < n := List.mem_range.mp hi
  rw [h i (by omega), h (i + 1) (by omega)]

/-- The first `k` pieces join to everything before offset `k`. -/
theorem flatten_take_pieces {data : List α} {off : ℕ → ℕ} {n : ℕ}
    (H : Table off n data.length) {k : ℕ} (hk : k ≤ n) :
    ((pieces data off n).take k).flatten = data.take (off k) := by
  induction k with
  | zero => simp [H.zero]
  | succ k ih =>
      have hlt : k < (pieces data off n).length := by simp; omega
      have hget : (pieces data off n)[k] = piece data (off k) (off (k + 1)) := by simp [pieces]
      have hjoin := piece_append_piece data (Nat.zero_le (off k)) (H.step k (by omega))
      simp only [piece, List.drop_zero, Nat.sub_zero] at hjoin
      rw [List.take_add_one, List.getElem?_eq_getElem hlt, hget, List.flatten_append,
        ih (by omega)]
      simpa [piece] using hjoin

theorem flatten_pieces {data : List α} {off : ℕ → ℕ} {n : ℕ} (H : Table off n data.length) :
    (pieces data off n).flatten = data := by
  have h := flatten_take_pieces H le_rfl
  rwa [List.take_of_length_le (by simp), H.last, List.take_length] at h

theorem endOffset_pieces {data : List α} {off : ℕ → ℕ} {n : ℕ} (H : Table off n data.length)
    {i : ℕ} (hi : i ≤ n) : endOffset (pieces data off n) i = off i := by
  rw [endOffset, flatten_take_pieces H hi, List.length_take]
  exact Nat.min_eq_left (H.le_last hi)

/-- Cutting a concatenation at its own table returns the pieces. -/
theorem pieces_endOffset (vs : List (List α)) :
    pieces vs.flatten (endOffset vs) vs.length = vs := by
  refine List.ext_getElem (by simp) fun i hi hi' => ?_
  have hsplit : vs = vs.take i ++ vs[i] :: vs.drop (i + 1) := by
    rw [List.cons_getElem_drop_succ, List.take_append_drop]
  have hflat : vs.flatten = (vs.take i).flatten ++ (vs[i] ++ (vs.drop (i + 1)).flatten) := by
    conv_lhs => rw [hsplit]
    rw [List.flatten_append, List.flatten_cons]
  have hwidth : endOffset vs (i + 1) - endOffset vs i = vs[i].length := by
    rw [endOffset_succ hi']; omega
  have hdrop : vs.flatten.drop (endOffset vs i) = vs[i] ++ (vs.drop (i + 1)).flatten := by
    rw [hflat, endOffset, List.drop_left]
  simp [pieces, piece, hwidth, hdrop]

end OffsetTable
