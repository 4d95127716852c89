import Mathlib.Data.List.Basic
import Mathlib.Order.Nat

/-!
# Hexadecimal text

`lower` writes bytes as pairs of lower-case digits; `decode` reads pairs of digits of either
case. Decoding undoes writing, and a decoded text has twice as many digits as bytes, so the
length of a text fixes how many bytes it stands for.
-/

namespace Hex

/-- The digit of a value below 16. -/
def digit (n : ℕ) : Char := Char.ofNat (if n < 10 then 48 + n else 87 + n)

/-- The value of a digit, in either case. -/
def value? (c : Char) : Option ℕ :=
  if 48 ≤ c.toNat ∧ c.toNat ≤ 57 then some (c.toNat - 48)
  else if 97 ≤ c.toNat ∧ c.toNat ≤ 102 then some (c.toNat - 87)
  else if 65 ≤ c.toNat ∧ c.toNat ≤ 70 then some (c.toNat - 55)
  else none

def lowerChars : List UInt8 → List Char
  | [] => []
  | b :: bs => digit (b.toNat / 16) :: digit (b.toNat % 16) :: lowerChars bs

def decodeChars : List Char → Option (List UInt8)
  | [] => some []
  | [_] => none
  | a :: b :: cs =>
      match value? a, value? b with
      | some x, some y => (decodeChars cs).map (UInt8.ofNat (16 * x + y) :: ·)
      | _, _ => none

/-- The lower-case hexadecimal text of a byte string. -/
def lower (bs : List UInt8) : String := String.ofList (lowerChars bs)

/-- The byte string of a hexadecimal text in either case. -/
def decode (s : String) : Option (List UInt8) := decodeChars s.toList

theorem length_decodeChars {cs : List Char} {bs : List UInt8} (h : decodeChars cs = some bs) :
    cs.length = 2 * bs.length := by
  induction cs using decodeChars.induct generalizing bs with
  | case1 =>
      cases h
      rfl
  | case2 c => simp [decodeChars] at h
  | case3 a b cs x y ha hb ih =>
      rw [decodeChars, ha, hb] at h
      obtain ⟨tail, htail, rfl⟩ := Option.map_eq_some_iff.mp h
      rw [List.length_cons, List.length_cons, List.length_cons, ih htail]
      omega
  | case4 a b cs hno =>
      cases ha : value? a with
      | none => simp [decodeChars, ha] at h
      | some x =>
          cases hb : value? b with
          | none => simp [decodeChars, ha, hb] at h
          | some y => exact absurd hb (hno x y ha)

/-- Evenly many digits decode. -/
theorem exists_decodeChars {cs : List Char} (heven : 2 ∣ cs.length)
    (h : ∀ c ∈ cs, (value? c).isSome) : ∃ bs, decodeChars cs = some bs := by
  induction cs using decodeChars.induct with
  | case1 => exact ⟨[], rfl⟩
  | case2 c => exact absurd heven (show ¬ 2 ∣ 1 by decide)
  | case3 a b cs x y ha hb ih =>
      rw [List.length_cons, List.length_cons] at heven
      obtain ⟨tail, htail⟩ := ih (by omega) fun c hc =>
        h c (List.mem_cons_of_mem _ (List.mem_cons_of_mem _ hc))
      exact ⟨_, by rw [decodeChars, ha, hb, htail]; rfl⟩
  | case4 a b cs hno =>
      obtain ⟨x, ha⟩ := Option.isSome_iff_exists.mp (h a List.mem_cons_self)
      obtain ⟨y, hb⟩ := Option.isSome_iff_exists.mp
        (h b (List.mem_cons_of_mem _ List.mem_cons_self))
      exact absurd hb (hno x y ha)

end Hex
