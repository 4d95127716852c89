import SevMicroLoader.Lib.Envelope
import SevMicroLoader.Rust.Checked

/-!
# The DNSCrypt box

XChaCha20 with a Poly1305 tag in front, keyed by the first 32 bytes of the keystream, and
the ISO/IEC 7816-4 padding inside. The keystream and the authenticator are arbitrary
functions (`Cipher`). Decryption is the exact inverse of encryption
(`val_decrypt_eq_ok_iff`) and unpadding of padding (`val_unpadResponse_eq_ok_iff`).
-/

namespace SevMicroLoader.Dns
open Rust

/-- The two primitives of the box. -/
structure Cipher where
  /-- The XChaCha20 keystream under a key and a nonce. -/
  keystream : ByteArr 32 → ByteArr 24 → ℕ → UInt8
  poly1305 : (key : ByteArr 32) → (msg : Bytes) → ByteArr 16

variable (C : Cipher)

/-- `cipher.apply_keystream(&mut buf)`. -/
def applyKeystream (key : ByteArr 32) (nonce : ByteArr 24) (buf : Bytes) : Bytes :=
  Envelope.mask (· ^^^ ·) (C.keystream key nonce) buf

/-- The loop `out[i] = input[i] ^ keystream[32 + i]`. -/
def xorLoop (input keystream : Bytes) : Checked Bytes :=
  Metered.collect input.length fun i => do
    let b ← index input i
    let k ← index keystream (← add 32 i)
    pure (b ^^^ k)

/-- `poly_key.copy_from_slice(&keystream[0..32])`. -/
def readPolyKey (keystream : Bytes) : Checked (ByteArr 32) := do
  copyFromSlice 32 (← slice keystream 0 32)

/-- The tag, and the text under the keystream from byte 32 on. -/
def xchacha20DjbPoly1305Encrypt (key : ByteArr 32) (nonce : ByteArr 24) (plaintext : Bytes) :
    Checked Bytes := do
  let keystream := applyKeystream C key nonce (List.replicate (← add 32 plaintext.length) 0)
  let polyKey ← readPolyKey keystream
  let ciphertext ← xorLoop plaintext keystream
  let tag := C.poly1305 polyKey ciphertext
  withCapacity (← add 16 ciphertext.length)
  pure (tag.val ++ ciphertext)

/-- The text, if the tag is that of the rest. -/
def xchacha20DjbPoly1305Decrypt (key : ByteArr 32) (nonce : ByteArr 24)
    (ciphertextWithTag : Bytes) : Checked Bytes :=
  if ciphertextWithTag.length < 16 then fail "Ciphertext too short"
  else do
    let tag ← slice ciphertextWithTag 0 16
    let ciphertext ← sliceFrom ciphertextWithTag 16
    let keystream := applyKeystream C key nonce (List.replicate (← add 32 ciphertext.length) 0)
    let polyKey ← readPolyKey keystream
    let computedTag := C.poly1305 polyKey ciphertext
    if computedTag.val ≠ tag then fail "Poly1305 authentication failed"
    else xorLoop ciphertext keystream

/-- The loop that moves `end` back over zero bytes. -/
def skipZeros (decrypted : Bytes) : ℕ → Checked ℕ
  | 0 => pure 0
  | stop + 1 => do
      let b ← index decrypted (← sub (stop + 1) 1)
      if b = 0x00 then skipZeros decrypted stop else pure (stop + 1)

/-- The text in front of the last marker. -/
def unpadResponse (decrypted : Bytes) : Checked Bytes := do
  let stop ← skipZeros decrypted decrypted.length
  if stop = 0 then fail "Invalid ISO/IEC 7816-4 padding"
  else do
    let last ← index decrypted (← sub stop 1)
    if last ≠ 0x80 then fail "Invalid ISO/IEC 7816-4 padding"
    else slice decrypted 0 (← sub stop 1)

/-! ## The box -/

/-- The key of the authenticator. -/
def polyKey (key : ByteArr 32) (nonce : ByteArr 24) : ByteArr 32 :=
  ⟨(List.range 32).map (C.keystream key nonce), by rw [List.length_map, List.length_range]⟩

/-- What encryption produces. -/
def box (key : ByteArr 32) (nonce : ByteArr 24) (plaintext : Bytes) : Bytes :=
  Envelope.sealed (· ^^^ ·) (fun i => C.keystream key nonce (32 + i))
    (fun text => (C.poly1305 (polyKey C key nonce) text).val) plaintext

variable {C} {key : ByteArr 32} {nonce : ByteArr 24}

theorem applyKeystream_zeros (n : ℕ) :
    applyKeystream C key nonce (List.replicate n 0) =
      (List.range n).map (C.keystream key nonce) := by
  apply List.ext_getElem
  · simp [applyKeystream]
  · intro i h₁ h₂
    simp [applyKeystream, Envelope.mask]

theorem val_readPolyKey (n : ℕ) :
    (readPolyKey (applyKeystream C key nonce (List.replicate (32 + n) 0))).val =
      .ok (polyKey C key nonce) := by
  have hfirst : OffsetTable.piece ((List.range (32 + n)).map (C.keystream key nonce)) 0 32 =
      (List.range 32).map (C.keystream key nonce) := by
    rw [OffsetTable.piece, List.drop_zero, ← List.map_take, List.take_range]
    simp
  rw [readPolyKey, applyKeystream_zeros,
    Metered.val_bind_of_ok (val_slice (by omega) (by simp))]
  simp only [hfirst]
  exact val_copyFromSlice _

theorem val_xorLoop (input : Bytes) :
    (xorLoop input (applyKeystream C key nonce (List.replicate (32 + input.length) 0))).val =
      .ok (Envelope.mask (· ^^^ ·) (fun i => C.keystream key nonce (32 + i)) input) := by
  have hbody : ∀ i < input.length,
      (do let b ← index input i
          let k ← index (applyKeystream C key nonce (List.replicate (32 + input.length) 0))
            (← add 32 i)
          pure (b ^^^ k) : Checked UInt8).val =
        .ok (input.getD i 0 ^^^ C.keystream key nonce (32 + i)) := by
    intro i hi
    rw [val_index_bind hi, val_add_bind, val_index_bind (by simpa [applyKeystream] using hi)]
    simp [applyKeystream_zeros, hi]
  rw [xorLoop, Metered.val_collect hbody]
  congr 1
  apply List.ext_getElem
  · simp
  · intro i h₁ h₂
    have hi : i < input.length := by simpa using h₁
    simp [Envelope.mask, hi]

theorem val_encrypt (plaintext : Bytes) :
    (xchacha20DjbPoly1305Encrypt C key nonce plaintext).val = .ok (box C key nonce plaintext) := by
  rw [xchacha20DjbPoly1305Encrypt, val_add_bind, Metered.val_bind_of_ok (val_readPolyKey _),
    Metered.val_bind_of_ok (val_xorLoop _)]
  rfl

theorem xor_xor_cancel (a b : UInt8) : a ^^^ b ^^^ b = a := by
  rw [UInt8.xor_assoc, UInt8.xor_self, UInt8.xor_zero]

/-- **Decryption is the exact inverse of encryption**: it returns a text exactly when it is given
that text's box. -/
theorem val_decrypt_eq_ok_iff {ciphertext plaintext : Bytes} :
    (xchacha20DjbPoly1305Decrypt C key nonce ciphertext).val = .ok plaintext ↔
      box C key nonce plaintext = ciphertext := by
  rw [box, Envelope.sealed_eq_iff (n := 16) xor_xor_cancel (fun t => (C.poly1305 _ t).property),
    xchacha20DjbPoly1305Decrypt, val_guard_eq_ok]
  constructor
  · rintro ⟨hlen, h⟩
    rw [Metered.val_bind_of_ok (val_slice (by omega) (by omega)),
      Metered.val_bind_of_ok (val_sliceFrom (by omega)), val_add_bind,
      Metered.val_bind_of_ok (val_readPolyKey _), val_guard_eq_ok, val_xorLoop] at h
    obtain ⟨htag, htext⟩ := h
    exact ⟨by omega, not_not.mp htag, Except.ok.inj htext⟩
  · rintro ⟨hlen, htag, htext⟩
    refine ⟨by omega, ?_⟩
    rw [Metered.val_bind_of_ok (val_slice (by omega) (by omega)),
      Metered.val_bind_of_ok (val_sliceFrom (by omega)), val_add_bind,
      Metered.val_bind_of_ok (val_readPolyKey _), val_guard_eq_ok, val_xorLoop, htext]
    exact ⟨not_not.mpr htag, rfl⟩

/-! ## The padding -/

/-- The loop stops behind the last byte that is not zero. -/
theorem val_skipZeros (m : Bytes) {b : UInt8} (hb : b ≠ 0) {j k : ℕ} (hj : j ≤ k) :
    (skipZeros (m ++ b :: List.replicate k 0) (m.length + 1 + j)).val = .ok (m.length + 1) := by
  induction j with
  | zero =>
      rw [Nat.add_zero, skipZeros, Metered.val_bind_of_ok (val_sub (by omega)),
        val_index_bind (by simp)]
      simp [hb]
  | succ j ih =>
      have hzero : (m ++ b :: List.replicate k 0)[m.length + 1 + j]? = some 0 := by
        rw [List.getElem?_append_right (by omega), Nat.add_assoc, Nat.add_sub_cancel_left,
          Nat.add_comm 1 j, List.getElem?_cons_succ, List.getElem?_replicate, if_pos (by omega)]
      rw [← Nat.add_assoc, skipZeros, Metered.val_bind_of_ok (val_sub (by omega)),
        Nat.add_sub_cancel, Metered.val_bind_of_ok (val_index_eq_ok.mpr hzero), if_pos rfl]
      exact ih (by omega)

theorem val_skipZeros_fill (j k : ℕ) (hj : j ≤ k) :
    (skipZeros (List.replicate k 0) j).val = .ok 0 := by
  induction j with
  | zero => rfl
  | succ j ih =>
      rw [skipZeros, Metered.val_bind_of_ok (val_sub (by omega)), val_index_bind (by simp; omega)]
      simpa using ih (by omega)

theorem val_unpadResponse (m : Bytes) {b : UInt8} (hb : b ≠ 0) (k : ℕ) :
    (unpadResponse (m ++ b :: List.replicate k 0)).val =
      if b ≠ 0x80 then .error (.err "Invalid ISO/IEC 7816-4 padding") else .ok m := by
  have hlen : (m ++ b :: List.replicate k 0).length = m.length + 1 + k := by
    simp
    omega
  have hlast : (m ++ b :: List.replicate k 0)[m.length]? = some b := by simp
  rw [unpadResponse, hlen, Metered.val_bind_of_ok (val_skipZeros m hb le_rfl), if_neg (by omega),
    Metered.val_bind_of_ok (val_sub (by omega)), Nat.add_sub_cancel,
    Metered.val_bind_of_ok (val_index_eq_ok.mpr hlast)]
  by_cases hmark : b = 0x80
  · rw [if_neg (not_not.mpr hmark), if_neg (not_not.mpr hmark),
      Metered.val_bind_of_ok (val_sub (by omega)), Nat.add_sub_cancel,
      val_slice (by omega) (by omega)]
    simp [OffsetTable.piece]
  · rw [if_pos hmark, if_pos hmark, val_fail]

/-- **Unpadding is the exact inverse of padding**, with any number of trailing zeros. -/
theorem val_unpadResponse_eq_ok_iff {decrypted m : Bytes} :
    (unpadResponse decrypted).val = .ok m ↔
      ∃ k, decrypted = m ++ [0x80] ++ List.replicate k 0 := by
  constructor
  · intro h
    rcases Envelope.padded_or_fill 0 decrypted with ⟨k, rfl⟩ | ⟨m', b, k, hb, rfl⟩
    · rw [unpadResponse, List.length_replicate,
        Metered.val_bind_of_ok (val_skipZeros_fill k k le_rfl), if_pos rfl] at h
      cases h
    · rw [val_unpadResponse m' hb k] at h
      by_cases hmark : b = 0x80
      · rw [if_neg (not_not.mpr hmark)] at h
        cases h
        exact ⟨k, by rw [hmark, List.append_assoc, List.singleton_append]⟩
      · rw [if_pos hmark] at h
        cases h
  · rintro ⟨k, rfl⟩
    rw [List.append_assoc, List.singleton_append, val_unpadResponse m (by decide) k]
    rfl

end SevMicroLoader.Dns
