import Mathlib.Data.List.Basic

/-!
# Lines that end in CR LF

A block is a number of lines and an empty one, each with CR LF behind it, in front of a text.
`readBlock` reads the block at the front of what it is given. Lines without a CR in them are read as
they were written, whatever the text behind the block is (`readBlock_block`).
-/

namespace Crlf

def lineEnd : List Char := ['\r', '\n']

/-- The first line, and what is behind its end. -/
def takeLine : List Char → Option (List Char × List Char)
  | [] => none
  | c :: cs =>
      if c = '\r' ∧ cs.head? = some '\n' then some ([], cs.tail)
      else (takeLine cs).map fun (line, rest) => (c :: line, rest)

theorem takeLine_append {line : List Char} (h : '\r' ∉ line) (rest : List Char) :
    takeLine (line ++ (lineEnd ++ rest)) = some (line, rest) := by
  induction line with
  | nil => rfl
  | cons c line ih =>
      have hc : c ≠ '\r' := fun heq => h (heq ▸ List.mem_cons_self)
      have hline : '\r' ∉ line := fun hmem => h (List.mem_cons_of_mem c hmem)
      rw [List.cons_append, takeLine, if_neg fun hend => hc hend.1, ih hline]
      rfl

/-- Lines in front of a text, with an empty one between them. -/
def block : List (List Char) → List Char → List Char
  | [], text => lineEnd ++ text
  | line :: lines, text => line ++ (lineEnd ++ block lines text)

/-- The lines of a block of fewer than `n`, and the text behind it. -/
def readBlock : ℕ → List Char → Option (List (List Char) × List Char)
  | 0, _ => none
  | n + 1, cs =>
      match takeLine cs with
      | none => none
      | some ([], text) => some ([], text)
      | some (line, rest) => (readBlock n rest).map fun (lines, text) => (line :: lines, text)

theorem length_block (lines : List (List Char)) (text : List Char) :
    lines.length < (block lines text).length := by
  induction lines with
  | nil => exact Nat.succ_pos _
  | cons line lines ih =>
      rw [block, List.length_append, List.length_append, List.length_cons]
      have hend : lineEnd.length = 2 := rfl
      omega

/-- **A block is read back.** -/
theorem readBlock_block {lines : List (List Char)} {n : ℕ} (hn : lines.length < n)
    (h : ∀ line ∈ lines, line ≠ [] ∧ '\r' ∉ line) (text : List Char) :
    readBlock n (block lines text) = some (lines, text) := by
  induction lines generalizing n with
  | nil =>
      obtain ⟨n, rfl⟩ := Nat.exists_eq_add_one_of_ne_zero (Nat.ne_of_gt hn)
      rfl
  | cons line lines ih =>
      obtain ⟨n, rfl⟩ := Nat.exists_eq_add_one_of_ne_zero (Nat.ne_of_gt (Nat.zero_lt_of_lt hn))
      obtain ⟨hne, hcr⟩ := h line List.mem_cons_self
      have hrest : readBlock n (block lines text) = some (lines, text) :=
        ih (Nat.lt_of_succ_lt_succ hn) fun l hl => h l (List.mem_cons_of_mem line hl)
      rw [block, readBlock, takeLine_append hcr]
      cases line with
      | nil => exact absurd rfl hne
      | cons c line =>
          dsimp only
          rw [hrest]
          rfl

end Crlf
