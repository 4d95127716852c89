import Mathlib.Data.List.TakeWhile

/-!
# The words of a list

`Words sep l ws` says that `l` is the words `ws` in order, with separators around and between
them. A word is not empty and has no separator, so the words of a list are its parts between
separators without the empty ones: `words_iff`.
-/

variable {α : Type} {sep : α → Bool} {a : α} {l w : List α} {ws : List (List α)}

/-- A word has an element, and none is a separator. -/
def IsWord (sep : α → Bool) (w : List α) : Prop := w ≠ [] ∧ ∀ a ∈ w, sep a = false

/-- A separator in front changes nothing; a word stands in front of a separator or at the end. -/
inductive Words (sep : α → Bool) : List α → List (List α) → Prop
  | nil : Words sep [] []
  | separator (a : α) {l : List α} {ws : List (List α)} (ha : sep a = true)
      (h : Words sep l ws) : Words sep (a :: l) ws
  | word (w : List α) {l : List α} {ws : List (List α)} (hw : IsWord sep w)
      (hl : ∀ a ∈ l.head?, sep a = true) (h : Words sep l ws) : Words sep (w ++ l) (w :: ws)

/-- The parts between separators that are not empty. -/
def nonemptyParts (sep : α → Bool) (l : List α) : List (List α) :=
  (l.splitOnP sep).filter fun part => !part.isEmpty

theorem nonemptyParts_separator (ha : sep a = true) :
    nonemptyParts sep (a :: l) = nonemptyParts sep l := by
  rw [nonemptyParts, List.splitOnP_cons_eq_if_modifyHead, if_pos ha]
  rfl

theorem nonemptyParts_word (hw : IsWord sep w) (hl : ∀ a ∈ l.head?, sep a = true) :
    nonemptyParts sep (w ++ l) = w :: nonemptyParts sep l := by
  have hkeep (parts : List (List α)) : (w :: parts).filter (fun part => !part.isEmpty) =
      w :: parts.filter fun part => !part.isEmpty :=
    List.filter_cons_of_pos (by simpa using hw.1)
  cases l with
  | nil =>
      rw [nonemptyParts, List.append_nil, List.splitOnP_eq_singleton hw.2, hkeep]
      rfl
  | cons a l =>
      have ha : sep a = true := hl a rfl
      rw [nonemptyParts_separator ha, nonemptyParts,
        List.splitOnP_append_cons_of_forall_mem hw.2 a ha, hkeep]
      rfl

/-- Every list is its words and separators. -/
theorem words_nonemptyParts (sep : α → Bool) (l : List α) : Words sep l (nonemptyParts sep l) := by
  induction hn : l.length using Nat.strongRecOn generalizing l with
  | _ n ih =>
      cases l with
      | nil => exact .nil
      | cons a l =>
          rw [List.length_cons] at hn
          cases ha : sep a with
          | true =>
              rw [nonemptyParts_separator ha]
              exact .separator a ha (ih l.length (by omega) l rfl)
          | false =>
              -- The first word ends in front of the next separator.
              have hw : IsWord sep (a :: l.takeWhile (!sep ·)) := by
                refine ⟨List.cons_ne_nil _ _, List.forall_mem_cons.mpr ⟨ha, fun b hb => ?_⟩⟩
                simpa using List.mem_takeWhile_imp hb
              have hl : ∀ b ∈ (l.dropWhile (!sep ·)).head?, sep b = true := by
                intro b hb
                have hstop := List.head?_dropWhile_not (!sep ·) l
                rw [Option.mem_def.mp hb] at hstop
                simpa using hstop
              have hlen := (l.dropWhile_suffix (!sep ·)).length_le
              have hsplit : a :: l = a :: l.takeWhile (!sep ·) ++ l.dropWhile (!sep ·) := by
                rw [List.cons_append, List.takeWhile_append_dropWhile]
              rw [hsplit, nonemptyParts_word hw hl]
              exact .word _ hw hl (ih _ (by omega) _ rfl)

/-- **The words of a list.** -/
theorem words_iff : Words sep l ws ↔ nonemptyParts sep l = ws := by
  constructor
  · intro h
    induction h with
    | nil => rfl
    | separator a ha _ ih => rw [nonemptyParts_separator ha, ih]
    | word w hw hl _ ih => rw [nonemptyParts_word hw hl, ih]
  · rintro rfl
    exact words_nonemptyParts sep l
