import SevMicroLoader.Time.Verify

/-!
# Soundness of the nonce's Merkle proof

`pathInputs` lists what the path check hashes, leaf first, for any hash function. Two
paths accepted against one root either prove the same nonce or contain two different
inputs with one truncated hash; a path that is accepted at a place above the leaf of
another always contains such a pair. So a position of a signed root proves at most
one nonce, and no leaf passes for an inner node.
-/

namespace SevMicroLoader.Time
open Rust

variable (C : Crypto)

/-- What the path check hashes: `0x00` and the nonce, then `0x01` and the two children of
each level. -/
def pathInputs (nonce : ByteArr 64) (index : UInt32) (pathBytes : Bytes) : List Bytes :=
  MerklePath.inputs (truncatedHash C) 0x00 0x01 (chunksExact 32 pathBytes) index.toNat nonce.val

/-- One computation hashes an input and the other a different one, to the same value. -/
abbrev HashCollision (xs ys : List Bytes) : Prop := MerklePath.Colliding (truncatedHash C) xs ys

theorem length_truncatedHash (msg : Bytes) : (truncatedHash C msg).length = 32 := by
  rw [truncatedHash, List.length_take, (C.sha512 msg).property]
  rfl

variable {C}

section Accepted
variable {root path₁ path₂ : Bytes} {nonce₁ nonce₂ : ByteArr 64} {index₁ index₂ : UInt32}

/-- Two accepted paths climb to the same truncated root. -/
theorem climb_eq_of_accepted
    (h₁ : (verifyMerklePath C nonce₁ root index₁ path₁).val = .ok ())
    (h₂ : (verifyMerklePath C nonce₂ root index₂ path₂).val = .ok ()) :
    MerklePath.climb (truncatedHash C) 0x01 (chunksExact 32 path₁) index₁.toNat
        (MerklePath.leaf (truncatedHash C) 0x00 nonce₁.val) =
      MerklePath.climb (truncatedHash C) 0x01 (chunksExact 32 path₂) index₂.toNat
        (MerklePath.leaf (truncatedHash C) 0x00 nonce₂.val) :=
  (val_verifyMerklePath_eq_ok C h₁).2.2.1.symm.trans (val_verifyMerklePath_eq_ok C h₂).2.2.1

end Accepted

/-- **Soundness of the Merkle proof.** Take two paths accepted against one root. At the same
depth and index they prove one nonce, or they contain a collision; when one ends where the
other has an inner node, they contain a collision. -/
theorem merkle_proof_sound (C : Crypto) (root : Bytes) (nonce₁ nonce₂ : ByteArr 64)
    (index₁ index₂ : UInt32) (path₁ path₂ : Bytes)
    (h₁ : (verifyMerklePath C nonce₁ root index₁ path₁).val = .ok ())
    (h₂ : (verifyMerklePath C nonce₂ root index₂ path₂).val = .ok ()) :
    (path₁.length / 32 = path₂.length / 32 → index₁ = index₂ →
      nonce₁ = nonce₂ ∨
        HashCollision C (pathInputs C nonce₁ index₁ path₁) (pathInputs C nonce₂ index₂ path₂)) ∧
    (path₁.length / 32 < path₂.length / 32 →
      index₁.toNat = index₂.toNat >>> (path₂.length / 32 - path₁.length / 32) →
        HashCollision C (pathInputs C nonce₁ index₁ path₁)
          (pathInputs C nonce₂ index₂ path₂)) := by
  have hroot := climb_eq_of_accepted h₁ h₂
  constructor
  · intro hlen hidx
    subst hidx
    have hsame := MerklePath.leaf_eq_or_colliding (length_truncatedHash C)
      (by simpa using hlen) (fun _ => length_of_mem_chunksExact)
      (fun _ => length_of_mem_chunksExact) hroot
    exact hsame.imp_left Subtype.ext
  · intro hlen hidx
    rw [Nat.shiftRight_eq_div_pow] at hidx
    exact MerklePath.colliding_of_lower (length_truncatedHash C) (by decide)
      (by simpa using hlen) (fun _ => length_of_mem_chunksExact)
      (fun _ => length_of_mem_chunksExact) (by simpa using hidx) hroot

/-- Primitives whose hash is the same for every message. -/
def constantCrypto : Crypto where
  ed25519Verify _ _ _ := false
  sha512 _ := padded 64 []
  base64Decode _ := none

/-- Under a constant hash two nonces share a place, and a leaf stands for an inner node. -/
theorem merkle_proof_sound_constant :
    HashCollision constantCrypto
        (pathInputs constantCrypto (padded 64 [1]) 0 (List.replicate 32 0))
        (pathInputs constantCrypto (padded 64 [2]) 0 (List.replicate 32 0)) ∧
      HashCollision constantCrypto (pathInputs constantCrypto (padded 64 [1]) 0 [])
        (pathInputs constantCrypto (padded 64 [2]) 1 (List.replicate 32 0)) := by
  have hroot : ∀ (n : ByteArr 64) (i : UInt32), i = 0 ∨ i = 1 →
      (verifyMerklePath constantCrypto n (List.replicate 32 0) i (List.replicate 32 0)).val =
        .ok () := by
    rintro n i (rfl | rfl) <;> rfl
  have hleaf : (verifyMerklePath constantCrypto (padded 64 [1]) (List.replicate 32 0) 0 []).val =
      .ok () := rfl
  constructor
  · have hsame := (merkle_proof_sound constantCrypto (List.replicate 32 0) (padded 64 [1])
      (padded 64 [2]) 0 0 _ _ (hroot _ 0 (.inl rfl)) (hroot _ 0 (.inl rfl))).1 rfl rfl
    exact hsame.resolve_left (by decide)
  · exact (merkle_proof_sound constantCrypto (List.replicate 32 0) (padded 64 [1])
      (padded 64 [2]) 0 1 _ _ hleaf (hroot _ 1 (.inr rfl))).2 (by decide) (by decide)

end SevMicroLoader.Time
