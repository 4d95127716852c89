import Mathlib.Order.Lattice.Nat
import SevMicroLoader.Lib.Endian
import SevMicroLoader.Lib.Metered
import SevMicroLoader.Lib.OffsetTable

/-!
# Slices and `usize` arithmetic of the compiled program

Indexing, slicing, subtraction and the growth of a vector stop with a `Panic` where the
program would panic (or, for a subtraction in the release profile, wrap below zero). Sums and
products are exact naturals; the meter keeps the largest one computed and the
largest capacity reserved, so that "no length computation leaves 64 bits" is a bound
on the meter. An early `return Err(msg)` is the stop `err msg`.
-/

namespace Rust

/-- `&[u8]` and `Vec<u8>`. -/
abbrev Bytes := List UInt8

/-- `[u8; n]`. -/
abbrev ByteArr (n : ℕ) := { bs : Bytes // bs.length = n }

/-- `std::net::IpAddr`, by its octets. -/
inductive IpAddr
  | v4 (octets : ByteArr 4)
  | v6 (octets : ByteArr 16)
  deriving DecidableEq, Repr

inductive Panic
  /-- An index at or past the end. -/
  | index
  /-- A slice range outside the slice. -/
  | slice
  /-- A subtraction below zero. -/
  | subtract
  /-- A `copy_from_slice` between different lengths. -/
  | copy
  /-- A vector of more than `isize::MAX` bytes. -/
  | capacity
  deriving DecidableEq, Repr

inductive Stop
  | panic (p : Panic)
  | err (msg : String)
  deriving DecidableEq, Repr

/-- The largest `usize` computed and the largest capacity reserved. -/
abbrev Usage := ℕ × ℕ

abbrev Checked := Metered Stop Usage

variable {α : Type}

/-- `xs[i]`. -/
def index (xs : List α) (i : ℕ) : Checked α :=
  match xs[i]? with
  | some a => pure a
  | none => Metered.stop (.panic .index)

/-- `xs[a..b]`. -/
def slice (xs : List α) (a b : ℕ) : Checked (List α) :=
  if a ≤ b ∧ b ≤ xs.length then pure (OffsetTable.piece xs a b)
  else Metered.stop (.panic .slice)

/-- `xs[a..]`. -/
def sliceFrom (xs : List α) (a : ℕ) : Checked (List α) :=
  if a ≤ xs.length then pure (xs.drop a) else Metered.stop (.panic .slice)

/-- A value was computed in `usize`. -/
def note (n : ℕ) : Checked Unit := Metered.record (n, 0)

/-- `a + b` in `usize`. -/
def add (a b : ℕ) : Checked ℕ := do
  note (a + b)
  pure (a + b)

/-- `a * b` in `usize`. -/
def mul (a b : ℕ) : Checked ℕ := do
  note (a * b)
  pure (a * b)

/-- `a - b` in `usize`. -/
def sub (a b : ℕ) : Checked ℕ :=
  if b ≤ a then pure (a - b) else Metered.stop (.panic .subtract)

/-- `Vec::with_capacity(n)`. -/
def withCapacity (n : ℕ) : Checked Unit := Metered.record (0, n)

/-- `return Err(msg)`. -/
def fail (msg : String) : Checked α := Metered.stop (.err msg)

/-- `o.ok_or(msg)?`. -/
def okOr (o : Option α) (msg : String) : Checked α :=
  match o with
  | some a => pure a
  | none => fail msg

/-- `xs.try_into().map_err(|_| msg)?` into `[u8; n]`. -/
def tryInto (n : ℕ) (xs : Bytes) (msg : String) : Checked (ByteArr n) :=
  if h : xs.length = n then pure ⟨xs, h⟩ else fail msg

/-- `[0; n]` filled by `copy_from_slice(xs)`. -/
def copyFromSlice (n : ℕ) (xs : Bytes) : Checked (ByteArr n) :=
  if h : xs.length = n then pure ⟨xs, h⟩ else Metered.stop (.panic .copy)

/-- An ASCII byte string literal `b"…"`. -/
def bstr (s : String) : Bytes := s.toList.map fun c => UInt8.ofNat c.toNat

/-- `xs.chunks_exact(n)`. -/
def chunksExact (n : ℕ) (xs : List α) : List (List α) :=
  (List.range (xs.length / n)).map fun i => (xs.drop (n * i)).take n

/-- `u32::from_le_bytes([xs[i], xs[i + 1], xs[i + 2], xs[i + 3]])`. -/
def u32FromLE (xs : Bytes) (i : ℕ) : Checked UInt32 := do
  let b0 ← index xs i
  let b1 ← index xs (← add i 1)
  let b2 ← index xs (← add i 2)
  let b3 ← index xs (← add i 3)
  pure (UInt32.ofNat (Endian.ofLE [b0, b1, b2, b3]))

/-- `u16::from_be_bytes([xs[i], xs[i + 1]])`. -/
def u16FromBE (xs : Bytes) (i : ℕ) : Checked UInt16 := do
  let b0 ← index xs i
  let b1 ← index xs (← add i 1)
  pure (UInt16.ofNat (Endian.ofBE [b0, b1]))

/-- `isize::MAX`, which no allocation exceeds. -/
def isizeMax : ℕ := 2 ^ 63 - 1

/-- `xs.push(b)`. -/
def push (xs : Bytes) (b : UInt8) : Checked Bytes :=
  if xs.length + 1 ≤ isizeMax then pure (xs ++ [b]) else Metered.stop (.panic .capacity)

/-- The list cut to length `n`, or filled up with `a`. -/
def resized (xs : List α) (n : ℕ) (a : α) : List α :=
  xs.take n ++ List.replicate (n - xs.length) a

/-- `xs.resize(n, b)`. -/
def resize (xs : Bytes) (n : ℕ) (b : UInt8) : Checked Bytes :=
  if n ≤ isizeMax then pure (resized xs n b) else Metered.stop (.panic .capacity)

theorem length_resized (xs : List α) (n : ℕ) (a : α) : (resized xs n a).length = n := by
  rw [resized, List.length_append, List.length_take, List.length_replicate]
  omega

/-- The bytes cut to length `n`, or filled up with zeros. -/
def padded (n : ℕ) (bs : Bytes) : ByteArr n := ⟨resized bs n 0, length_resized bs n 0⟩

/-! ## Values -/

theorem val_index {xs : List α} {i : ℕ} (h : i < xs.length) : (index xs i).val = .ok xs[i] := by
  simp [index, h]

theorem val_index_eq_ok {xs : List α} {i : ℕ} {a : α} :
    (index xs i).val = .ok a ↔ xs[i]? = some a := by
  cases h : xs[i]? <;> simp [index, h]

theorem val_slice {xs : List α} {a b : ℕ} (hab : a ≤ b) (hb : b ≤ xs.length) :
    (slice xs a b).val = .ok (OffsetTable.piece xs a b) := by
  simp [slice, hab, hb]

theorem val_sliceFrom {xs : List α} {a : ℕ} (h : a ≤ xs.length) :
    (sliceFrom xs a).val = .ok (xs.drop a) := by
  simp [sliceFrom, h]

@[simp] theorem val_note (n : ℕ) : (note n).val = .ok () := rfl
@[simp] theorem val_add (a b : ℕ) : (add a b).val = .ok (a + b) := rfl
@[simp] theorem val_mul (a b : ℕ) : (mul a b).val = .ok (a * b) := rfl
@[simp] theorem val_withCapacity (n : ℕ) : (withCapacity n).val = .ok () := rfl
@[simp] theorem val_fail (msg : String) : (fail msg : Checked α).val = .error (.err msg) := rfl

theorem val_sub {a b : ℕ} (h : b ≤ a) : (sub a b).val = .ok (a - b) := by simp [sub, h]

@[simp] theorem val_okOr_eq_ok {o : Option α} {msg : String} {a : α} :
    (okOr o msg).val = .ok a ↔ o = some a := by
  cases o <;> simp [okOr]

@[simp] theorem val_tryInto_eq_ok {n : ℕ} {xs : Bytes} {msg : String} {a : ByteArr n} :
    (tryInto n xs msg).val = .ok a ↔ xs = a.val := by
  unfold tryInto
  by_cases h : xs.length = n
  · rw [dif_pos h]
    exact ⟨fun e => by cases e; rfl, fun e => by subst e; rfl⟩
  · rw [dif_neg h]
    refine ⟨nofun, fun e => absurd ?_ h⟩
    rw [e, a.property]

theorem val_copyFromSlice {n : ℕ} {xs : Bytes} (h : xs.length = n) :
    (copyFromSlice n xs).val = .ok ⟨xs, h⟩ := by
  rw [copyFromSlice, dif_pos h]
  rfl

/-- A guarded early `Err` returns only when the guard is off. -/
@[simp] theorem val_guard_eq_ok {c : Prop} [Decidable c] {msg : String} {x : Checked α} {a : α} :
    (if c then fail msg else x).val = .ok a ↔ ¬ c ∧ x.val = .ok a := by
  by_cases h : c <;> simp [h]

section Chunks
variable {n : ℕ} {xs chunk : List α}

@[simp] theorem length_chunksExact (n : ℕ) (xs : List α) :
    (chunksExact n xs).length = xs.length / n := by simp [chunksExact]

theorem length_of_mem_chunksExact (h : chunk ∈ chunksExact n xs) : chunk.length = n := by
  rw [chunksExact, List.mem_map] at h
  obtain ⟨i, hi, rfl⟩ := h
  have hfit : n * i + n ≤ xs.length := by
    rw [← Nat.mul_succ]
    exact (Nat.mul_le_mul_left n (List.mem_range.mp hi)).trans (Nat.mul_div_le _ _)
  rw [List.length_take, List.length_drop]
  omega

theorem chunksExact_append {ys : List α} (hn : 0 < n) (hxs : xs.length = n) :
    chunksExact n (xs ++ ys) = xs :: chunksExact n ys := by
  have hcount : (xs ++ ys).length / n = ys.length / n + 1 := by
    rw [List.length_append, hxs, Nat.add_div_left _ hn]
  have hdrop : ∀ i, (xs ++ ys).drop (n * (i + 1)) = ys.drop (n * i) := by
    intro i
    rw [Nat.mul_succ, Nat.add_comm, ← hxs, List.drop_append]
    simp
  rw [chunksExact, hcount, List.range_succ_eq_map, List.map_cons, List.map_map]
  refine congrArg₂ List.cons ?_ ?_
  · rw [Nat.mul_zero, List.drop_zero, ← hxs, List.take_left]
  · refine List.map_congr_left fun i _ => ?_
    rw [Function.comp_apply, Nat.succ_eq_add_one, hdrop]

/-- Pieces of one width are read back from their concatenation. -/
theorem chunksExact_flatten {xss : List (List α)} (hn : 0 < n) (h : ∀ xs ∈ xss, xs.length = n) :
    chunksExact n xss.flatten = xss := by
  induction xss with
  | nil => simp [chunksExact]
  | cons xs xss ih =>
      rw [List.flatten_cons, chunksExact_append hn (h xs List.mem_cons_self),
        ih fun ys hys => h ys (List.mem_cons_of_mem _ hys)]

end Chunks

section Bind
variable {β : Type}

@[simp] theorem val_note_bind (n : ℕ) (f : Unit → Checked β) :
    (note n >>= f).val = (f ()).val := Metered.val_bind_of_ok (val_note n) f
@[simp] theorem val_add_bind (a b : ℕ) (f : ℕ → Checked β) :
    (add a b >>= f).val = (f (a + b)).val := Metered.val_bind_of_ok (val_add a b) f
@[simp] theorem val_mul_bind (a b : ℕ) (f : ℕ → Checked β) :
    (mul a b >>= f).val = (f (a * b)).val := Metered.val_bind_of_ok (val_mul a b) f
@[simp] theorem val_withCapacity_bind (n : ℕ) (f : Unit → Checked β) :
    (withCapacity n >>= f).val = (f ()).val := Metered.val_bind_of_ok (val_withCapacity n) f

theorem val_index_bind {xs : List α} {i : ℕ} (h : i < xs.length) (f : α → Checked β) :
    (index xs i >>= f).val = (f xs[i]).val := Metered.val_bind_of_ok (val_index h) f

end Bind

theorem val_u32FromLE {xs : Bytes} {i : ℕ} (h : i + 4 ≤ xs.length) :
    (u32FromLE xs i).val = .ok (UInt32.ofNat (Endian.wordAt 4 xs i)) := by
  have hword : (xs.drop i).take 4 = [xs[i], xs[i + 1], xs[i + 2], xs[i + 3]] := by
    rw [List.drop_eq_getElem_cons (by omega), List.drop_eq_getElem_cons (by omega),
      List.drop_eq_getElem_cons (by omega), List.drop_eq_getElem_cons (by omega)]
    rfl
  rw [u32FromLE, val_index_bind (by omega), val_add_bind, val_index_bind (by omega),
    val_add_bind, val_index_bind (by omega), val_add_bind, val_index_bind (by omega),
    Endian.wordAt, hword]
  rfl

theorem val_u16FromBE {xs : Bytes} {i : ℕ} (h : i + 2 ≤ xs.length) :
    (u16FromBE xs i).val = .ok (UInt16.ofNat (Endian.ofBE ((xs.drop i).take 2))) := by
  have hword : (xs.drop i).take 2 = [xs[i], xs[i + 1]] := by
    rw [List.drop_eq_getElem_cons (by omega), List.drop_eq_getElem_cons (by omega)]
    rfl
  rw [u16FromBE, val_index_bind (by omega), val_add_bind, val_index_bind (by omega), hword]
  rfl

/-! ## Bounds

Every operation in bounds keeps any limit `u` that its own computed value keeps.
-/

/-- The stops that are not a panic. -/
def Stop.IsErr : Stop → Prop
  | .panic _ => False
  | .err _ => True

section Within
open Metered (Within)
variable {u : Usage} {E : Stop → Prop} {xs : List α} {a b n i : ℕ} {msg : String}

/-- An index reads nothing off the meter, in bounds or not. -/
theorem within_index_any (xs : List α) (i : ℕ) :
    Within u (fun _ => True) (fun _ => True) (index xs i) := by
  rw [index]
  split
  · exact Metered.within_pure trivial
  · exact Metered.within_stop trivial

theorem within_slice_any (xs : List α) (a b : ℕ) :
    Within u (fun _ => True) (fun _ => True) (slice xs a b) := by
  rw [slice]
  split
  · exact Metered.within_pure trivial
  · exact Metered.within_stop trivial

theorem within_index (h : i < xs.length) : Within u E (fun x => xs[i]? = some x) (index xs i) := by
  rw [index, List.getElem?_eq_getElem h]
  exact Metered.within_pure rfl

theorem within_slice (hab : a ≤ b) (hb : b ≤ xs.length) :
    Within u E (fun ys => ys = OffsetTable.piece xs a b) (slice xs a b) := by
  rw [slice, if_pos ⟨hab, hb⟩]
  exact Metered.within_pure rfl

theorem within_sliceFrom (h : a ≤ xs.length) :
    Within u E (fun ys => ys = xs.drop a) (sliceFrom xs a) := by
  rw [sliceFrom, if_pos h]
  exact Metered.within_pure rfl

theorem within_note (h : n ≤ u.1) : Within u E (fun _ => True) (note n) :=
  Metered.within_record ⟨h, Nat.zero_le _⟩

theorem within_withCapacity (h : n ≤ u.2) : Within u E (fun _ => True) (withCapacity n) :=
  Metered.within_record ⟨Nat.zero_le _, h⟩

theorem within_add (h : a + b ≤ u.1) : Within u E (fun c => c = a + b) (add a b) :=
  (within_note h).bind fun _ _ => Metered.within_pure rfl

theorem within_mul (h : a * b ≤ u.1) : Within u E (fun c => c = a * b) (mul a b) :=
  (within_note h).bind fun _ _ => Metered.within_pure rfl

theorem within_sub (h : b ≤ a) : Within u E (fun c => c = a - b) (sub a b) := by
  rw [sub, if_pos h]
  exact Metered.within_pure rfl

theorem within_fail {P : α → Prop} (h : E (.err msg)) : Within u E P (fail msg) :=
  Metered.within_stop h

theorem within_okOr {o : Option α} (h : E (.err msg)) :
    Within u E (fun x => o = some x) (okOr o msg) := by
  cases o with
  | none => exact within_fail h
  | some x => exact Metered.within_pure rfl

theorem within_tryInto {bs : Bytes} (h : E (.err msg)) :
    Within u E (fun arr => bs = arr.val) (tryInto n bs msg) := by
  unfold tryInto
  split
  · exact Metered.within_pure rfl
  · exact within_fail h

theorem within_copyFromSlice {bs : Bytes} (h : bs.length = n) :
    Within u E (fun arr => arr.val = bs) (copyFromSlice n bs) := by
  rw [copyFromSlice, dif_pos h]
  exact Metered.within_pure rfl

theorem within_u32FromLE {bs : Bytes} (h : i + 4 ≤ bs.length) (hu : i + 3 ≤ u.1) :
    Within u E (fun w => w.toNat = Endian.wordAt 4 bs i) (u32FromLE bs i) := by
  have hmeter : Within u (fun _ => True) (fun _ => True) (u32FromLE bs i) := by
    refine (within_index (by omega)).bind fun b0 _ => ?_
    refine (within_add (by omega)).bind fun _ h1 => (within_index (by omega)).bind fun b1 _ => ?_
    refine (within_add (by omega)).bind fun _ h2 => (within_index (by omega)).bind fun b2 _ => ?_
    refine (within_add (by omega)).bind fun _ h3 => (within_index (by omega)).bind fun b3 _ => ?_
    exact Metered.within_pure trivial
  refine hmeter.of_ok (val_u32FromLE h) ?_
  exact UInt32.toNat_ofNat_of_lt' (Endian.wordAt_lt 4 bs i)

theorem within_u16FromBE {bs : Bytes} (h : i + 2 ≤ bs.length) (hu : i + 1 ≤ u.1) :
    Within u E (fun _ => True) (u16FromBE bs i) := by
  refine (within_index (by omega)).bind fun b0 _ => ?_
  refine (within_add (by omega)).bind fun _ h1 => (within_index (by omega)).bind fun b1 _ => ?_
  exact Metered.within_pure trivial

end Within

end Rust
