import SevMicroLoader.Dns.Box
import SevMicroLoader.Dns.Response

/-!
# Accepting a DNSCrypt response

`handleResponse` is what `resolve_domain_via_dnscrypt_session` does with the packet it
received: fixed slices, the echoed nonce, the box, the padding and the reply parser.
Each of these is inverted exactly, so the packets it accepts are exactly the ones a
resolver that holds the session key can build for this client nonce.
-/

namespace SevMicroLoader.Dns
open Rust

def resolverMagic : Bytes := [0x72, 0x36, 0x66, 0x6e, 0x76, 0x57, 0x6a, 0x38]

variable (C : Cipher)

/-- The response half of `resolve_domain_via_dnscrypt_session`. -/
def handleResponse (sharedKey : ByteArr 32) (clientNonce : ByteArr 12) (responsePacket : Bytes) :
    Checked IpAddr :=
  if responsePacket.length < 32 then fail "Response packet too short"
  else do
    let magic ← slice responsePacket 0 8
    if magic ≠ resolverMagic then fail "Invalid resolver magic"
    else do
      let respNonce ← copyFromSlice 24 (← slice responsePacket 8 32)
      let echoed ← slice respNonce.val 0 12
      if echoed ≠ clientNonce.val then fail "Client nonce mismatch in resolver response"
      else do
        let encryptedResponse ← sliceFrom responsePacket 32
        let decrypted ← xchacha20DjbPoly1305Decrypt C sharedKey respNonce encryptedResponse
        let unpadded ← unpadResponse decrypted
        okOr (← parseDnsResponse unpadded) "No A record found in DNSCrypt response"

/-- The client's half of a nonce and the resolver's. -/
def joinNonce (clientNonce suffix : ByteArr 12) : ByteArr 24 :=
  ⟨clientNonce.val ++ suffix.val, by rw [List.length_append, clientNonce.property, suffix.property]⟩

variable {C} {key : ByteArr 32} {nonce : ByteArr 12}

/-- The response half on a packet cut at its fixed offsets. -/
theorem val_handleResponse {magic suffix rest : Bytes} {echo : ByteArr 12}
    (hmagic : magic.length = 8) (hsuffix : suffix.length = 12) :
    (handleResponse C key nonce (magic ++ echo.val ++ suffix ++ rest)).val =
      if magic ≠ resolverMagic then .error (.err "Invalid resolver magic")
      else if echo.val ≠ nonce.val then
        .error (.err "Client nonce mismatch in resolver response")
      else (do
        let decrypted ← xchacha20DjbPoly1305Decrypt C key (joinNonce echo ⟨suffix, hsuffix⟩) rest
        let unpadded ← unpadResponse decrypted
        okOr (← parseDnsResponse unpadded) "No A record found in DNSCrypt response" :
          Checked IpAddr).val := by
  have hecho := echo.property
  have hlen : (magic ++ echo.val ++ suffix ++ rest).length = 32 + rest.length := by
    simp only [List.length_append, hmagic, hecho, hsuffix]
  have hfirst : OffsetTable.piece (magic ++ echo.val ++ suffix ++ rest) 0 8 = magic := by
    rw [OffsetTable.piece, List.drop_zero, List.append_assoc, List.append_assoc,
      List.take_left' hmagic]
  have hnonce : OffsetTable.piece (magic ++ echo.val ++ suffix ++ rest) 8 32 =
      (joinNonce echo ⟨suffix, hsuffix⟩).val := by
    rw [OffsetTable.piece, List.append_assoc, List.append_assoc, List.drop_left' hmagic,
      ← List.append_assoc]
    exact List.take_left' (joinNonce echo ⟨suffix, hsuffix⟩).property
  have hhalf : OffsetTable.piece (joinNonce echo ⟨suffix, hsuffix⟩).val 0 12 = echo.val := by
    rw [OffsetTable.piece, List.drop_zero]
    exact List.take_left' hecho
  have hrest : (magic ++ echo.val ++ suffix ++ rest).drop 32 = rest := by
    refine List.drop_left' ?_
    simp only [List.length_append, hmagic, hecho, hsuffix]
  rw [handleResponse, if_neg (by omega), Metered.val_bind_of_ok (val_slice (by omega) (by omega)),
    hfirst]
  by_cases hm : magic = resolverMagic
  · rw [if_neg (not_not.mpr hm), if_neg (not_not.mpr hm),
      Metered.val_bind_of_ok (val_slice (by omega) (by omega)), hnonce,
      Metered.val_bind_of_ok (val_copyFromSlice (joinNonce echo ⟨suffix, hsuffix⟩).property),
      Metered.val_bind_of_ok (val_slice (by omega) (by
        rw [(joinNonce echo ⟨suffix, hsuffix⟩).property]; omega)), hhalf]
    by_cases hn : echo.val = nonce.val
    · rw [if_neg (not_not.mpr hn), if_neg (not_not.mpr hn),
        Metered.val_bind_of_ok (val_sliceFrom (by omega)), hrest]
    · rw [if_pos hn, if_pos hn, val_fail]
  · rw [if_pos hm, if_pos hm, val_fail]

/-- A packet of 32 bytes or more is cut at its fixed offsets. -/
theorem exists_cut {packet : Bytes} (h : 32 ≤ packet.length) :
    ∃ (magic : Bytes) (echo suffix : ByteArr 12) (rest : Bytes), magic.length = 8 ∧
      packet = magic ++ echo.val ++ suffix.val ++ rest := by
  refine ⟨packet.take 8, ⟨(packet.drop 8).take 12, ?_⟩, ⟨(packet.drop 20).take 12, ?_⟩,
    packet.drop 32, ?_, ?_⟩
  · rw [List.length_take, List.length_drop]
    omega
  · rw [List.length_take, List.length_drop]
    omega
  · rw [List.length_take]
    omega
  · have h20 : packet.drop 20 = (packet.drop 20).take 12 ++ packet.drop 32 := by
      rw [show packet.drop 32 = (packet.drop 20).drop 12 by rw [List.drop_drop],
        List.take_append_drop]
    have h8 : packet.drop 8 = (packet.drop 8).take 12 ++ packet.drop 20 := by
      rw [show packet.drop 20 = (packet.drop 8).drop 12 by rw [List.drop_drop],
        List.take_append_drop]
    rw [List.append_assoc, List.append_assoc, ← h20, ← h8, List.take_append_drop]

/-- What the decrypting end accepts: exactly the box of a padded reply that has an address. -/
theorem val_open_eq_ok_iff {respNonce : ByteArr 24} {rest : Bytes} {ip : IpAddr} :
    (do
      let decrypted ← xchacha20DjbPoly1305Decrypt C key respNonce rest
      let unpadded ← unpadResponse decrypted
      okOr (← parseDnsResponse unpadded) "No A record found in DNSCrypt response" :
        Checked IpAddr).val = .ok ip ↔
      ∃ (m : Bytes) (k : ℕ), (xchacha20DjbPoly1305Encrypt C key respNonce
          (m ++ [0x80] ++ List.replicate k 0)).val = .ok rest ∧
        (parseDnsResponse m).val = .ok (some ip) := by
  simp only [Metered.val_bind_eq_ok, val_okOr_eq_ok, val_decrypt_eq_ok_iff,
    val_unpadResponse_eq_ok_iff, val_encrypt]
  constructor
  · rintro ⟨_, hbox, m, ⟨k, rfl⟩, _, hparse, rfl⟩
    exact ⟨m, k, congrArg Except.ok hbox, hparse⟩
  · rintro ⟨m, k, hbox, hparse⟩
    exact ⟨_, Except.ok.inj hbox, m, ⟨k, rfl⟩, _, hparse, rfl⟩

/-- **The client accepts exactly the well-formed answers to its own query**, and an answer to one
client nonce is turned away by every other. -/
theorem handleResponse_accepts_exactly (C : Cipher) (key : ByteArr 32) (nonce : ByteArr 12)
    (packet : Bytes) :
    (∀ ip, (handleResponse C key nonce packet).val = .ok ip ↔
      ∃ (suffix : ByteArr 12) (m : Bytes) (k : ℕ) (box : Bytes),
        (xchacha20DjbPoly1305Encrypt C key (joinNonce nonce suffix)
          (m ++ [0x80] ++ List.replicate k 0)).val = .ok box ∧
        packet = resolverMagic ++ nonce.val ++ suffix.val ++ box ∧
        (parseDnsResponse m).val = .ok (some ip)) ∧
    ∀ (ip : IpAddr) (key' : ByteArr 32) (nonce' : ByteArr 12),
      (handleResponse C key nonce packet).val = .ok ip → nonce' ≠ nonce →
      (handleResponse C key' nonce' packet).val =
        .error (.err "Client nonce mismatch in resolver response") := by
  have hiff : ∀ ip, (handleResponse C key nonce packet).val = .ok ip ↔
      ∃ (suffix : ByteArr 12) (m : Bytes) (k : ℕ) (box : Bytes),
        (xchacha20DjbPoly1305Encrypt C key (joinNonce nonce suffix)
          (m ++ [0x80] ++ List.replicate k 0)).val = .ok box ∧
        packet = resolverMagic ++ nonce.val ++ suffix.val ++ box ∧
        (parseDnsResponse m).val = .ok (some ip) := by
    intro ip
    constructor
    · intro h
      have hlen : 32 ≤ packet.length := by
        rw [handleResponse, val_guard_eq_ok] at h
        exact Nat.not_lt.mp h.1
      obtain ⟨magic, echo, suffix, rest, hmagic, rfl⟩ := exists_cut hlen
      rw [val_handleResponse hmagic suffix.property] at h
      by_cases hm : magic = resolverMagic
      · by_cases hn : echo.val = nonce.val
        · rw [if_neg (not_not.mpr hm), if_neg (not_not.mpr hn), val_open_eq_ok_iff] at h
          obtain ⟨m, k, hbox, hparse⟩ := h
          obtain rfl := Subtype.ext hn
          exact ⟨suffix, m, k, rest, hbox, by rw [hm], hparse⟩
        · rw [if_neg (not_not.mpr hm), if_pos hn] at h
          cases h
      · rw [if_pos hm] at h
        cases h
    · rintro ⟨suffix, m, k, box, hbox, rfl, hparse⟩
      rw [val_handleResponse (by decide) suffix.property, if_neg (not_not.mpr rfl),
        if_neg (not_not.mpr rfl), val_open_eq_ok_iff]
      exact ⟨m, k, hbox, hparse⟩
  refine ⟨hiff, ?_⟩
  intro ip key' nonce' h hne
  obtain ⟨suffix, m, k, box, -, rfl, -⟩ := (hiff ip).mp h
  have hecho : nonce.val ≠ nonce'.val := fun heq => hne (Subtype.ext heq.symm)
  rw [val_handleResponse (by decide) suffix.property, if_neg (not_not.mpr rfl), if_pos hecho]

/-- The reply of the loader's own parser test: `github.com` at `140.82.121.4`. -/
def githubReply : Bytes :=
  [0xab, 0xcd, 0x81, 0x80, 0x00, 0x01, 0x00, 0x01, 0x00, 0x00, 0x00, 0x00] ++
    [6] ++ bstr "github" ++ [3] ++ bstr "com" ++ [0] ++ [0x00, 0x01, 0x00, 0x01] ++
    [0xc0, 0x0c] ++ [0x00, 0x01, 0x00, 0x01] ++ [0x00, 0x00, 0x00, 0x3c] ++ [0x00, 0x04] ++
    [140, 82, 121, 4]

/-- A counting keystream and a tag cut from its own key. -/
def countingCipher : Cipher where
  keystream key nonce i := UInt8.ofNat (i + key.val.length + nonce.val.length)
  poly1305 key _ := ⟨key.val.take 16, by rw [List.length_take, key.property]; rfl⟩

/-- The reply, boxed for one client nonce with two trailing zeros, and offered for another. -/
theorem handleResponse_accepts_exactly_github :
    (handleResponse countingCipher ⟨List.replicate 32 1, by decide⟩ ⟨List.replicate 12 2, by decide⟩
      (resolverMagic ++ List.replicate 12 2 ++ List.replicate 12 3 ++
        box countingCipher ⟨List.replicate 32 1, by decide⟩
          (joinNonce ⟨List.replicate 12 2, by decide⟩ ⟨List.replicate 12 3, by decide⟩)
          (githubReply ++ [0x80] ++ List.replicate 2 0))).val =
      .ok (.v4 ⟨[140, 82, 121, 4], rfl⟩) ∧
    (handleResponse countingCipher ⟨List.replicate 32 1, by decide⟩ ⟨List.replicate 12 9, by decide⟩
      (resolverMagic ++ List.replicate 12 2 ++ List.replicate 12 3 ++
        box countingCipher ⟨List.replicate 32 1, by decide⟩
          (joinNonce ⟨List.replicate 12 2, by decide⟩ ⟨List.replicate 12 3, by decide⟩)
          (githubReply ++ [0x80] ++ List.replicate 2 0))).val =
      .error (.err "Client nonce mismatch in resolver response") := by
  have hok := ((handleResponse_accepts_exactly countingCipher ⟨List.replicate 32 1, by decide⟩
    ⟨List.replicate 12 2, by decide⟩ _).1 (.v4 ⟨[140, 82, 121, 4], rfl⟩)).mpr
    ⟨⟨List.replicate 12 3, by decide⟩, githubReply, 2, _, val_encrypt _, rfl, by decide +kernel⟩
  exact ⟨hok, (handleResponse_accepts_exactly _ _ _ _).2 _ _ ⟨List.replicate 12 9, by decide⟩ hok
    (by decide)⟩

end SevMicroLoader.Dns
