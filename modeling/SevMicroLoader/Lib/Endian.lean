import Mathlib.Data.Nat.Digits.Lemmas
import Mathlib.Data.List.TakeDrop

/-!
# Fixed-width words in byte strings

`ofLE` reads a byte string as a little-endian number and `toLE w` writes a number
as `w` bytes. They are inverse to each other on numbers that fit the width, and a
run of consecutive words read from a byte string writes back to exactly the bytes
it was read from (`flatMap_toLE_wordAt`), which is what a header of words needs.
-/

namespace Endian

/-- The number a byte string spells, least significant byte first. -/
def ofLE (bs : List UInt8) : ℕ := Nat.ofDigits 256 (bs.map UInt8.toNat)

/-- The number a byte string spells, most significant byte first. -/
def ofBE (bs : List UInt8) : ℕ := ofLE bs.reverse

/-- The `w` low bytes of a number, least significant byte first. -/
def toLE : ℕ → ℕ → List UInt8
  | 0, _ => []
  | w + 1, n => UInt8.ofNat n :: toLE w (n / 256)

/-- The `w` low bytes of a number, most significant byte first. -/
def toBE (w n : ℕ) : List UInt8 := (toLE w n).reverse

/-- The little-endian word of `w` bytes at byte position `i`. -/
def wordAt (w : ℕ) (bs : List UInt8) (i : ℕ) : ℕ := ofLE ((bs.drop i).take w)

@[simp] theorem ofLE_nil : ofLE [] = 0 := rfl

@[simp] theorem ofLE_cons (b : UInt8) (bs : List UInt8) :
    ofLE (b :: bs) = b.toNat + 256 * ofLE bs := by
  simp [ofLE, Nat.ofDigits_cons]

@[simp] theorem length_toLE (w n : ℕ) : (toLE w n).length = w := by
  induction w generalizing n with
  | zero => rfl
  | succ w ih => simp [toLE, ih]

@[simp] theorem length_toBE (w n : ℕ) : (toBE w n).length = w := by simp [toBE]

/-- A byte string of `w` bytes spells a number below `256 ^ w`. -/
theorem ofLE_lt (bs : List UInt8) : ofLE bs < 256 ^ bs.length := by
  have h := Nat.ofDigits_lt_base_pow_length (b := 256) (l := bs.map UInt8.toNat) (by decide)
    (by simpa using fun b _ => b.toNat_lt)
  simpa [ofLE] using h

/-- Writing a number that fits and reading it back returns the number. -/
theorem ofLE_toLE {w n : ℕ} (h : n < 256 ^ w) : ofLE (toLE w n) = n := by
  induction w generalizing n with
  | zero => simp only [pow_zero, Nat.lt_one_iff] at h; simp [toLE, h]
  | succ w ih =>
      have hdiv : n / 256 < 256 ^ w := by
        rw [pow_succ] at h
        exact Nat.div_lt_of_lt_mul (by rwa [Nat.mul_comm])
      rw [toLE, ofLE_cons, ih hdiv, UInt8.toNat_ofNat']
      omega

/-- Reading a byte string and writing it back returns the byte string. -/
theorem toLE_ofLE (bs : List UInt8) : toLE bs.length (ofLE bs) = bs := by
  induction bs with
  | nil => rfl
  | cons b bs ih =>
      have hb : b.toNat < 256 := b.toNat_lt
      have hhead : UInt8.ofNat (b.toNat + 256 * ofLE bs) = b := by
        apply UInt8.toNat_inj.mp
        rw [UInt8.toNat_ofNat']
        omega
      have htail : (b.toNat + 256 * ofLE bs) / 256 = ofLE bs := by omega
      rw [List.length_cons, ofLE_cons, toLE, hhead, htail, ih]

theorem ofBE_toBE {w n : ℕ} (h : n < 256 ^ w) : ofBE (toBE w n) = n := by
  simp [ofBE, toBE, ofLE_toLE h]

/-! ## Words at a position -/

theorem wordAt_lt (w : ℕ) (bs : List UInt8) (i : ℕ) : wordAt w bs i < 256 ^ w := by
  refine (ofLE_lt _).trans_le (Nat.pow_le_pow_right (by decide) ?_)
  simp

/-- A word inside the string writes back to the bytes it was read from. -/
theorem toLE_wordAt {w i : ℕ} {bs : List UInt8} (h : i + w ≤ bs.length) :
    toLE w (wordAt w bs i) = (bs.drop i).take w := by
  have hlen : ((bs.drop i).take w).length = w := by simp; omega
  have hback := toLE_ofLE ((bs.drop i).take w)
  rwa [hlen] at hback

/-- A word read at the end of a prefix does not see the prefix. -/
theorem wordAt_append_right (w : ℕ) (bs cs : List UInt8) (i : ℕ) :
    wordAt w (bs ++ cs) (bs.length + i) = wordAt w cs i := by
  have hdrop : (bs ++ cs).drop (bs.length + i) = cs.drop i := by
    rw [← List.drop_drop, List.drop_left]
  rw [wordAt, hdrop, wordAt]

/-- The word written first is the word read at position zero. -/
theorem wordAt_toLE_append {w n : ℕ} (h : n < 256 ^ w) (cs : List UInt8) :
    wordAt w (toLE w n ++ cs) 0 = n := by
  simp [wordAt, ofLE_toLE h]

/-- Consecutive words write back to the prefix they were read from. -/
theorem flatMap_toLE_wordAt {w : ℕ} {bs : List UInt8} :
    ∀ {k : ℕ}, w * k ≤ bs.length →
      (List.range k).flatMap (fun i => toLE w (wordAt w bs (w * i))) = bs.take (w * k) := by
  intro k
  induction k with
  | zero => intro _; simp
  | succ k ih =>
      intro h
      have hk : w * k + w ≤ bs.length := by rwa [Nat.mul_succ] at h
      rw [List.range_succ, List.flatMap_append, ih (by omega), List.flatMap_singleton,
        toLE_wordAt hk, Nat.mul_succ, List.take_add]

/-- Reading back a run of written words: the word at index `i` is the `i`-th number. -/
theorem wordAt_flatMap_toLE {w : ℕ} (ns : List ℕ) (hns : ∀ n ∈ ns, n < 256 ^ w)
    (cs : List UInt8) {i : ℕ} (hi : i < ns.length) :
    wordAt w (ns.flatMap (toLE w) ++ cs) (w * i) = ns[i] := by
  induction ns generalizing i with
  | nil => simp at hi
  | cons n ns ih =>
      rw [List.flatMap_cons, List.append_assoc]
      cases i with
      | zero => exact wordAt_toLE_append (hns n (by simp)) _
      | succ i =>
          have hshift : w * (i + 1) = (toLE w n).length + w * i := by
            rw [length_toLE, Nat.mul_succ, Nat.add_comm]
          rw [hshift, wordAt_append_right]
          exact ih (fun m hm => hns m (List.mem_cons_of_mem n hm)) (by simpa using hi)

theorem length_flatMap_toLE (w : ℕ) (ns : List ℕ) :
    (ns.flatMap (toLE w)).length = w * ns.length := by
  induction ns with
  | nil => simp
  | cons n ns ih => simp [ih, Nat.mul_add, Nat.add_comm]

end Endian
