import SevMicroLoader.Time.MerkleProof

/-!
# Completeness of the nonce's Merkle proof

A server batches the nonces of `2 ^ d` clients into the leaves of a full tree and signs
its root. The path check accepts each of these nonces at its own index, with the
siblings of its leaf from the bottom up as `PATH`. At an index that the depth of a path
leaves no place for, it accepts nothing.
-/

namespace SevMicroLoader.Time
open Rust

theorem length_flatten_of_width {α : Type} {n : ℕ} {xss : List (List α)}
    (h : ∀ xs ∈ xss, xs.length = n) : xss.flatten.length = n * xss.length := by
  induction xss with
  | nil => rfl
  | cons xs xss ih =>
      rw [List.flatten_cons, List.length_append, h xs List.mem_cons_self,
        ih fun ys hys => h ys (List.mem_cons_of_mem _ hys), List.length_cons, Nat.mul_succ,
        Nat.add_comm]

/-! ## Batches -/

variable (C : Crypto)

/-- The leaf hashes of a batch of nonces. -/
def leafHashes (nonces : List (ByteArr 64)) : List Bytes :=
  nonces.map fun nonce => MerklePath.leaf (truncatedHash C) 0x00 nonce.val

/-- The `ROOT` a server signs for a batch of `2 ^ d` nonces. -/
def batchRoot (d : ℕ) (nonces : List (ByteArr 64)) : Bytes :=
  MerklePath.root (truncatedHash C) 0x01 d (leafHashes C nonces)

/-- The `PATH` it sends to the client with the nonce at `i`. -/
def batchPath (d : ℕ) (nonces : List (ByteArr 64)) (i : ℕ) : Bytes :=
  (MerklePath.siblings (truncatedHash C) 0x01 d (leafHashes C nonces) i).flatten

section Batch
variable {C} {d i : ℕ} {nonces : List (ByteArr 64)}

@[simp] theorem length_leafHashes : (leafHashes C nonces).length = nonces.length :=
  List.length_map _

theorem length_of_mem_leafHashes : ∀ h ∈ leafHashes C nonces, h.length = 32 := by
  intro h hmem
  obtain ⟨nonce, -, rfl⟩ := List.mem_map.mp hmem
  exact length_truncatedHash C _

theorem length_batchRoot (hlen : nonces.length = 2 ^ d) : (batchRoot C d nonces).length = 32 :=
  MerklePath.length_root (length_truncatedHash C) (length_leafHashes.trans hlen)
    length_of_mem_leafHashes

theorem length_of_mem_siblings (hlen : nonces.length = 2 ^ d) :
    ∀ s ∈ MerklePath.siblings (truncatedHash C) 0x01 d (leafHashes C nonces) i, s.length = 32 :=
  MerklePath.length_of_mem_siblings (length_truncatedHash C) (length_leafHashes.trans hlen)
    length_of_mem_leafHashes

theorem chunksExact_batchPath (hlen : nonces.length = 2 ^ d) :
    chunksExact 32 (batchPath C d nonces i) =
      MerklePath.siblings (truncatedHash C) 0x01 d (leafHashes C nonces) i :=
  chunksExact_flatten (by decide) (length_of_mem_siblings hlen)

theorem length_batchPath (hlen : nonces.length = 2 ^ d) :
    (batchPath C d nonces i).length = 32 * d := by
  rw [batchPath, length_flatten_of_width (length_of_mem_siblings hlen), MerklePath.length_siblings]

/-- The climb from a nonce's own place in the batch ends in the signed root. -/
theorem climb_batchPath (hlen : nonces.length = 2 ^ d) {nonce : ByteArr 64}
    (hnonce : nonces[i]? = some nonce) :
    MerklePath.climb (truncatedHash C) 0x01 (chunksExact 32 (batchPath C d nonces i)) i
      (MerklePath.leaf (truncatedHash C) 0x00 nonce.val) = batchRoot C d nonces := by
  have hi : i < 2 ^ d := hlen ▸ (List.getElem?_eq_some_iff.mp hnonce).1
  have hleaf : (leafHashes C nonces).getD i [] =
      MerklePath.leaf (truncatedHash C) 0x00 nonce.val := by
    rw [leafHashes, List.getD_eq_getElem?_getD, List.getElem?_map, hnonce]
    rfl
  rw [chunksExact_batchPath hlen, ← hleaf]
  exact MerklePath.climb_siblings (length_leafHashes.trans hlen) hi

end Batch

/-- **Completeness of the Merkle proof.** Every nonce of a batch is accepted at its own index
with its own path, and no nonce is accepted with that path at an index past the batch. -/
theorem merkle_proof_complete (C : Crypto) (d : ℕ) (hd : d ≤ 32) (nonces : List (ByteArr 64))
    (hlen : nonces.length = 2 ^ d) (i : ℕ) (nonce : ByteArr 64)
    (hnonce : nonces[i]? = some nonce) :
    (verifyMerklePath C nonce (batchRoot C d nonces) (UInt32.ofNat i)
      (batchPath C d nonces i)).val = .ok () ∧
    ∀ (other : ByteArr 64) (index : UInt32), 2 ^ d ≤ index.toNat →
      ∃ msg, (verifyMerklePath C other (batchRoot C d nonces) index
        (batchPath C d nonces i)).val = .error (.err msg) := by
  have hi : i < 2 ^ d := hlen ▸ (List.getElem?_eq_some_iff.mp hnonce).1
  have hindex : (UInt32.ofNat i).toNat = i :=
    UInt32.toNat_ofNat_of_lt' (hi.trans_le (Nat.pow_le_pow_right (by decide) hd))
  have hpath : ¬ (batchPath C d nonces i).length % 32 ≠ 0 := by
    rw [length_batchPath hlen, Nat.mul_mod_right]
    exact not_not.mpr rfl
  have hdepth : (batchPath C d nonces i).length / 32 = d := by
    rw [length_batchPath hlen, Nat.mul_div_cancel_left _ (by decide)]
  have hroot : (batchRoot C d nonces).length = 32 := length_batchRoot hlen
  have htake : (batchRoot C d nonces).take 32 = batchRoot C d nonces :=
    List.take_of_length_le hroot.le
  constructor
  · rw [val_verifyMerklePath, if_neg hpath, if_neg hroot.not_lt, hindex, htake,
      climb_batchPath hlen hnonce, hdepth, if_neg (not_not.mpr rfl), if_neg (Nat.not_le.mpr hi)]
  · intro other index hpast
    rw [val_verifyMerklePath, if_neg hpath, if_neg hroot.not_lt, hdepth, if_pos hpast]
    split
    · exact ⟨_, rfl⟩
    · exact ⟨_, rfl⟩

/-- The third of four nonces, at its own index and past the batch. -/
theorem merkle_proof_complete_four :
    let nonces := [1, 2, 3, 4].map fun b => padded 64 [b]
    (verifyMerklePath sampleCrypto (padded 64 [3]) (batchRoot sampleCrypto 2 nonces) 2
      (batchPath sampleCrypto 2 nonces 2)).val = .ok () ∧
    ∃ msg, (verifyMerklePath sampleCrypto (padded 64 [3]) (batchRoot sampleCrypto 2 nonces) 6
      (batchPath sampleCrypto 2 nonces 2)).val = .error (.err msg) :=
  have h := merkle_proof_complete sampleCrypto 2 (by decide) _ rfl 2 (padded 64 [3]) rfl
  ⟨h.1, h.2 (padded 64 [3]) 6 (by decide)⟩

end SevMicroLoader.Time
