import SevMicroLoader.Rust.Checked

/-!
# Reading the address out of a DNS reply

`parseDnsResponse` skips the header and the question, walks over the answer records and
returns the first four-byte address. The loop over the labels of a name is shared by
the question and the owner names; after it, one zero byte is skipped if it is there.
-/

namespace SevMicroLoader.Dns
open Rust

/-- `(b & 0xC0) == 0xC0`: the byte starts a compression pointer. -/
def isPointer (b : UInt8) : Bool := b &&& 0xC0 = 0xC0

/-- The loop over the labels of a name: up to the zero byte, or past the first pointer. -/
def skipLabels (data : Bytes) (offset : ℕ) : Checked ℕ :=
  if h : offset < data.length then do
    let b ← index data offset
    if b = 0 then pure offset
    else if isPointer b then add offset 2
    else do
      note (b.toNat + 1)
      note (offset + (b.toNat + 1))
      skipLabels data (offset + (b.toNat + 1))
  else pure offset
termination_by data.length - offset

/-- `if offset < data.len() && data[offset] == 0 { offset += 1 }`. -/
def skipTerminator (data : Bytes) (offset : ℕ) : Checked ℕ :=
  if offset < data.length then do
    let b ← index data offset
    if b = 0 then add offset 1 else pure offset
  else pure offset

/-- A name that does not start with a pointer, or the question's. -/
def skipName (data : Bytes) (offset : ℕ) : Checked ℕ := do
  let offset ← skipLabels data offset
  skipTerminator data offset

/-- The owner name of a record. -/
def skipOwner (data : Bytes) (offset : ℕ) : Checked ℕ := do
  let b ← index data offset
  if isPointer b then add offset 2 else skipName data offset

/-- `Ipv4Addr::new` of the four bytes at `offset`. -/
def readAddress (data : Bytes) (offset : ℕ) : Checked IpAddr := do
  let b0 ← index data offset
  let b1 ← index data (← add offset 1)
  let b2 ← index data (← add offset 2)
  let b3 ← index data (← add offset 3)
  pure (.v4 ⟨[b0, b1, b2, b3], rfl⟩)

/-- `atype == 1 && rdlength == 4 && offset + 4 <= data.len()`. -/
def isAddressAt (data : Bytes) (atype : UInt16) (rdlength offset : ℕ) : Checked Bool :=
  if atype = 1 ∧ rdlength = 4 then do
    let stop ← add offset 4
    pure (stop ≤ data.length)
  else pure false

/-- The loop over the answers: how many are left, and where the next one starts. -/
def answerLoop (data : Bytes) : ℕ → ℕ → Checked (Option IpAddr)
  | 0, _ => pure none
  | n + 1, offset => do
      if (← add offset 12) > data.length then pure none
      else do
        let offset ← skipOwner data offset
        if (← add offset 10) > data.length then pure none
        else do
          let atype ← u16FromBE data offset
          let rdlength ← UInt16.toNat <$> u16FromBE data (← add offset 8)
          let offset ← add offset 10
          if ← isAddressAt data atype rdlength offset then some <$> readAddress data offset
          else answerLoop data n (← add offset rdlength)

def parseDnsResponse (data : Bytes) : Checked (Option IpAddr) :=
  if data.length < 12 then pure none
  else do
    let ancount ← UInt16.toNat <$> u16FromBE data 6
    let offset ← skipName data 12
    let offset ← add offset 4
    answerLoop data ancount offset

/-! ## Reading at a known suffix

`data.drop o = xs` says what is at and after offset `o`; the lemmas below read through it.
-/

variable {data xs : Bytes} {o : ℕ}

theorem getElem?_of_drop (h : data.drop o = xs) (i : ℕ) : data[o + i]? = xs[i]? := by
  rw [← h, List.getElem?_drop]

theorem lt_of_drop (h : data.drop o = xs) {i : ℕ} (hi : i < xs.length) : o + i < data.length := by
  have hlen := congrArg List.length h
  rw [List.length_drop] at hlen
  omega

theorem drop_add_of_drop {ys : Bytes} (h : data.drop o = xs ++ ys) :
    data.drop (o + xs.length) = ys := by
  rw [← List.drop_drop, h, List.drop_left]

theorem drop_succ_of_drop {b : UInt8} {ys : Bytes} (h : data.drop o = b :: ys) :
    data.drop (o + 1) = ys := by
  rw [← List.drop_drop, h, List.drop_one, List.tail_cons]

theorem val_index_of_drop {b : UInt8} (h : data.drop o = b :: xs) :
    (index data o).val = .ok b := by
  have hb := getElem?_of_drop h 0
  exact val_index_eq_ok.mpr (by simpa using hb)

theorem val_u16FromBE_of_drop {b0 b1 : UInt8} (h : data.drop o = b0 :: b1 :: xs) :
    (u16FromBE data o).val = .ok (UInt16.ofNat (Endian.ofBE [b0, b1])) := by
  have hlen : o + 1 < data.length := lt_of_drop h (by simp)
  rw [val_u16FromBE (by omega), h]
  rfl

theorem val_readAddress_of_drop {b0 b1 b2 b3 : UInt8}
    (h : data.drop o = b0 :: b1 :: b2 :: b3 :: xs) :
    (readAddress data o).val = .ok (.v4 ⟨[b0, b1, b2, b3], rfl⟩) := by
  have h1 : (index data (o + 1)).val = .ok b1 := val_index_eq_ok.mpr (getElem?_of_drop h 1)
  have h2 : (index data (o + 2)).val = .ok b2 := val_index_eq_ok.mpr (getElem?_of_drop h 2)
  have h3 : (index data (o + 3)).val = .ok b3 := val_index_eq_ok.mpr (getElem?_of_drop h 3)
  rw [readAddress, Metered.val_bind_of_ok (val_index_of_drop h), val_add_bind,
    Metered.val_bind_of_ok h1, val_add_bind, Metered.val_bind_of_ok h2, val_add_bind,
    Metered.val_bind_of_ok h3]
  rfl

/-! ## One step of each loop -/

theorem val_skipLabels_zero (h : data.drop o = 0 :: xs) : (skipLabels data o).val = .ok o := by
  have hlt : o < data.length := lt_of_drop h (i := 0) (by simp)
  rw [skipLabels, dif_pos hlt, Metered.val_bind_of_ok (val_index_of_drop h), if_pos rfl]
  rfl

theorem val_skipLabels_pointer {b : UInt8} (h : data.drop o = b :: xs) (hb : isPointer b) :
    (skipLabels data o).val = .ok (o + 2) := by
  have hlt : o < data.length := lt_of_drop h (i := 0) (by simp)
  have hne : b ≠ 0 := by
    rintro rfl
    exact absurd hb (by decide)
  rw [skipLabels, dif_pos hlt, Metered.val_bind_of_ok (val_index_of_drop h), if_neg hne, if_pos hb]
  rfl

theorem val_skipLabels_label {b : UInt8} (h : data.drop o = b :: xs) (hne : b ≠ 0)
    (hb : ¬ isPointer b) :
    (skipLabels data o).val = (skipLabels data (o + (b.toNat + 1))).val := by
  have hlt : o < data.length := lt_of_drop h (i := 0) (by simp)
  rw [skipLabels, dif_pos hlt, Metered.val_bind_of_ok (val_index_of_drop h), if_neg hne, if_neg hb,
    val_note_bind, val_note_bind]

theorem val_skipTerminator_zero (h : data.drop o = 0 :: xs) :
    (skipTerminator data o).val = .ok (o + 1) := by
  have hlt : o < data.length := lt_of_drop h (i := 0) (by simp)
  rw [skipTerminator, if_pos hlt, Metered.val_bind_of_ok (val_index_of_drop h), if_pos rfl]
  rfl

theorem val_skipTerminator_of_ne {b : UInt8} (h : data.drop o = b :: xs) (hb : b ≠ 0) :
    (skipTerminator data o).val = .ok o := by
  have hlt : o < data.length := lt_of_drop h (i := 0) (by simp)
  rw [skipTerminator, if_pos hlt, Metered.val_bind_of_ok (val_index_of_drop h), if_neg hb]
  rfl

end SevMicroLoader.Dns
