import SevMicroLoader.Dns.Certificate
import SevMicroLoader.Dns.Session
import SevMicroLoader.Dns.Txt

/-!
# No packet stops the DNS path

Every index and slice of the two record walkers, of the certificate check and of the
response path is in bounds, for every byte string; the loops are total functions. Offsets
may run past the end, by at most a name, a record header and one rdata, so that for
packets of at most 65535 bytes no sum comes near 64 bits.
-/

namespace SevMicroLoader.Dns
open Rust
open Metered (Within)

variable {u : Usage} {E : Stop → Prop} {data : Bytes}

/-! ## The record walkers -/

theorem within_rdlength {o : ℕ} (h : o + 2 ≤ data.length) (hu : o + 1 ≤ u.1) :
    Within u E (fun k => k < 2 ^ 16) (UInt16.toNat <$> u16FromBE data o) :=
  (within_u16FromBE h hu).map fun w _ => w.toNat_lt

theorem within_txtStrings {rdata : Bytes} (hu : rdata.length + 2 ^ 8 ≤ u.1) (i : ℕ)
    (txt : Bytes) : Within u E (fun _ => True) (txtStrings rdata i txt) := by
  induction i, txt using txtStrings.induct rdata with
  | case1 i txt h ih =>
      rw [txtStrings, if_pos h]
      have hchunk : Within u E (fun k => k < 2 ^ 8) (UInt8.toNat <$> index rdata i) :=
        (within_index h).map fun b _ => b.toNat_lt
      refine hchunk.bind fun k hk => ?_
      refine (within_add (by omega)).bind fun j hj => ?_
      refine (within_add (by omega)).bind fun stop hstop => ?_
      split
      · exact Metered.within_pure trivial
      · refine (within_add (by omega)).bind fun j₁ hj₁ => ?_
        refine (within_add (by omega)).bind fun j₂ hj₂ => ?_
        refine (within_add (by omega)).bind fun stop₁ hstop₁ => ?_
        refine (within_slice (by omega) (by omega)).bind fun chunk _ => ?_
        refine (within_note (by omega)).bind fun _ _ => (within_note (by omega)).bind fun _ _ => ?_
        exact ih k 0 chunk
  | case2 i txt h =>
      rw [txtStrings, if_neg h]
      exact Metered.within_pure trivial

/-- The loop body for TXT records stays inside the record it is given. -/
theorem within_visitTxt (hu : data.length + 2 ^ 8 ≤ u.1) (s : List Bytes) (t : UInt16)
    {o k : ℕ} (h : o + k ≤ data.length) :
    Within u E (fun _ => True) (visitTxt data s t o k) := by
  rw [visitTxt]
  split
  · refine (within_add (by omega)).bind fun stop hstop => ?_
    refine (within_slice (by omega) (by omega)).bind fun rdata hrdata => ?_
    have hlen : rdata.length ≤ data.length := by
      rw [hrdata, OffsetTable.length_piece (by omega)]
      omega
    refine (within_txtStrings (by omega) 0 []).bind fun txt _ => ?_
    split
    · exact Metered.within_pure trivial
    · exact Metered.within_pure trivial
  · exact Metered.within_pure trivial

section Walk
variable {σ : Type} {results : σ}

/-- Both loops read a record up to its rdata alike: its fixed part has to be inside the data. -/
theorem within_recordHeader {f : UInt16 → ℕ → ℕ → Checked σ} {o : ℕ} (ho : o < data.length)
    (hu : data.length + 2 ^ 17 ≤ u.1)
    (hf : ∀ t k o', k < 2 ^ 16 → o' ≤ data.length → Within u E (fun _ => True) (f t k o')) :
    Within u E (fun _ => True) (do
      let offset ← skipOwner data o
      if (← add offset 10) > data.length then pure results
      else do
        let rtype ← u16FromBE data offset
        let rdlength ← UInt16.toNat <$> u16FromBE data (← add offset 8)
        let offset ← add offset 10
        f rtype rdlength offset) := by
  refine (within_skipOwner (by omega) ho).bind fun o₁ ho₁ => ?_
  refine (within_add (by omega)).bind fun stop₁₀ h₁₀ => ?_
  split
  · exact Metered.within_pure trivial
  refine (within_u16FromBE (by omega) (by omega)).bind fun t _ => ?_
  refine (within_add (by omega)).bind fun o₈ ho₈ => ?_
  refine (within_rdlength (by omega) (by omega)).bind fun k hk => ?_
  exact (within_add (by omega)).bind fun o₂ ho₂ => hf t k o₂ hk (by omega)

/-- Both walkers start behind the question. -/
theorem within_walk {f : ℕ → ℕ → Checked σ} (hu : data.length + 2 ^ 17 ≤ u.1)
    (hf : ∀ count o, o ≤ data.length + 2 ^ 9 → Within u E (fun _ => True) (f count o)) :
    Within u E (fun _ => True) (if data.length < 12 then pure results
      else do
        let ancount ← UInt16.toNat <$> u16FromBE data 6
        let offset ← skipName data 12
        let offset ← add offset 4
        f ancount offset) := by
  split
  · exact Metered.within_pure trivial
  refine (within_rdlength (by omega) (by omega)).bind fun count _ => ?_
  refine (within_skipName (by omega) 12).bind fun o ho => ?_
  exact (within_add (by omega)).bind fun o₄ ho₄ => hf count o₄ (by omega)

end Walk

theorem within_recordLoop {σ : Type} {visit : σ → UInt16 → ℕ → ℕ → Checked σ}
    (hu : data.length + 2 ^ 17 ≤ u.1)
    (hvisit : ∀ s t o k, o + k ≤ data.length → Within u E (fun _ => True) (visit s t o k))
    (n o : ℕ) (s : σ) : Within u E (fun _ => True) (recordLoop visit data n o s) := by
  induction n generalizing o s with
  | zero => exact Metered.within_pure trivial
  | succ n ih =>
      rw [recordLoop]
      split
      · exact Metered.within_pure trivial
      refine (within_add (by omega)).bind fun stop₂ _ => ?_
      split
      · exact Metered.within_pure trivial
      refine within_recordHeader (by omega) hu fun t k o₂ hk ho₂ => ?_
      refine (within_add (by omega)).bind fun stop hstop => ?_
      split
      · exact Metered.within_pure trivial
      refine (hvisit s t o₂ k (by omega)).bind fun s' _ => ?_
      exact (within_add (by omega)).bind fun o₃ _ => ih o₃ s'

theorem within_parseTxtResponse (hu : data.length + 2 ^ 17 ≤ u.1) :
    Within u E (fun _ => True) (parseTxtResponse data) := by
  rw [parseTxtResponse, walkRecords]
  exact within_walk hu fun count o _ =>
    within_recordLoop hu (fun s t o k h => within_visitTxt (by omega) s t h) count o []

theorem within_readAddress {o : ℕ} (h : o + 4 ≤ data.length) (hu : o + 3 ≤ u.1) :
    Within u E (fun _ => True) (readAddress data o) := by
  refine (within_index (by omega)).bind fun b0 _ => ?_
  refine (within_add (by omega)).bind fun o₁ h₁ => (within_index (by omega)).bind fun b1 _ => ?_
  refine (within_add (by omega)).bind fun o₂ h₂ => (within_index (by omega)).bind fun b2 _ => ?_
  refine (within_add (by omega)).bind fun o₃ h₃ => (within_index (by omega)).bind fun b3 _ => ?_
  exact Metered.within_pure trivial

theorem within_isAddressAt (t : UInt16) {k o : ℕ} (hu : o + 4 ≤ u.1) :
    Within u E (fun b => b = true → o + 4 ≤ data.length) (isAddressAt data t k o) := by
  rw [isAddressAt]
  split
  · refine (within_add hu).bind fun stop hstop => Metered.within_pure ?_
    intro hb
    exact hstop ▸ of_decide_eq_true hb
  · exact Metered.within_pure fun h => absurd h Bool.false_ne_true

/-- The address walker goes on with an offset past the end, by at most a name, a record header
and one rdata. -/
theorem within_answerLoop (hu : data.length + 2 ^ 17 ≤ u.1) (n o : ℕ)
    (ho : o ≤ data.length + 2 ^ 16 + 2 ^ 9) :
    Within u E (fun _ => True) (answerLoop data n o) := by
  induction n generalizing o with
  | zero => exact Metered.within_pure trivial
  | succ n ih =>
      rw [answerLoop]
      refine (within_add (by omega)).bind fun stop₁₂ h₁₂ => ?_
      split
      · exact Metered.within_pure trivial
      refine within_recordHeader (by omega) hu fun t k o₂ hk ho₂ => ?_
      refine (within_isAddressAt t (by omega)).bind fun found hfound => ?_
      split
      · next hb =>
          exact (within_readAddress (hfound hb) (by omega)).map fun _ _ => trivial
      · refine (within_add (by omega)).bind fun o₃ ho₃ => ih o₃ (by omega)

theorem within_parseDnsResponse (hu : data.length + 2 ^ 17 ≤ u.1) :
    Within u E (fun _ => True) (parseDnsResponse data) := by
  rw [parseDnsResponse]
  exact within_walk hu fun count o ho => within_answerLoop hu count o (by omega)

/-! ## The response path -/

section Box
variable {C : Cipher} {key : ByteArr 32}

variable (C key) in
theorem length_applyKeystream (nonce : ByteArr 24) (n : ℕ) :
    (applyKeystream C key nonce (List.replicate n 0)).length = n := by
  rw [applyKeystream_zeros, List.length_map, List.length_range]

theorem within_readPolyKey {keystream : Bytes} (h : 32 ≤ keystream.length) :
    Within u E (fun _ => True) (readPolyKey keystream) := by
  refine (within_slice (by omega) h).bind fun first hfirst => ?_
  refine (within_copyFromSlice ?_).imp fun _ _ => trivial
  rw [hfirst, OffsetTable.length_piece h]

theorem within_xorLoop {input keystream : Bytes} (h : keystream.length = 32 + input.length)
    (hu : 32 + input.length ≤ u.1) :
    Within u E (fun out => out.length = input.length) (xorLoop input keystream) := by
  have hround : ∀ i < input.length, Within u E (fun _ => True)
      (do let b ← index input i
          let k ← index keystream (← add 32 i)
          pure (b ^^^ k) : Checked UInt8) := by
    intro i hi
    refine (within_index hi).bind fun b _ => ?_
    refine (within_add (by omega)).bind fun j hj => ?_
    refine (within_index (by omega)).bind fun k _ => ?_
    exact Metered.within_pure trivial
  exact (Metered.within_collect hround).imp fun _ hout => hout.1

theorem within_decrypt {nonce : ByteArr 24} {ciphertext : Bytes}
    (hE : ∀ msg, E (.err msg)) (hu : 32 + ciphertext.length ≤ u.1) :
    Within u E (fun text => text.length ≤ ciphertext.length)
      (xchacha20DjbPoly1305Decrypt C key nonce ciphertext) := by
  rw [xchacha20DjbPoly1305Decrypt]
  split
  · exact within_fail (hE _)
  refine (within_slice (by omega) (by omega)).bind fun tag _ => ?_
  refine (within_sliceFrom (by omega)).bind fun text htext => ?_
  have hlen : text.length = ciphertext.length - 16 := by rw [htext, List.length_drop]
  refine (within_add (by omega)).bind fun n hn => ?_
  have hstream := length_applyKeystream C key nonce n
  refine (within_readPolyKey (by omega)).bind fun polyKey _ => ?_
  dsimp only
  split
  · exact within_fail (hE _)
  · refine (within_xorLoop (by omega) (by omega)).imp ?_
    intro out hout
    omega

theorem within_skipZeros {decrypted : Bytes} (k : ℕ) (hk : k ≤ decrypted.length) :
    Within u E (fun stop => stop ≤ decrypted.length) (skipZeros decrypted k) := by
  induction k with
  | zero => exact Metered.within_pure hk
  | succ k ih =>
      rw [skipZeros]
      refine (within_sub (by omega)).bind fun i hi => ?_
      refine (within_index (by omega)).bind fun b _ => ?_
      split
      · exact ih (by omega)
      · exact Metered.within_pure hk

theorem within_unpadResponse {decrypted : Bytes} (hE : ∀ msg, E (.err msg)) :
    Within u E (fun m => m.length ≤ decrypted.length) (unpadResponse decrypted) := by
  rw [unpadResponse]
  refine (within_skipZeros _ le_rfl).bind fun stop hstop => ?_
  split
  · exact within_fail (hE _)
  refine (within_sub (by omega)).bind fun i hi => ?_
  refine (within_index (by omega)).bind fun last _ => ?_
  split
  · exact within_fail (hE _)
  · refine (within_sub (by omega)).bind fun j hj => ?_
    refine (within_slice (by omega) (by omega)).imp ?_
    intro m hm
    rw [hm, OffsetTable.length_piece (by omega)]
    omega

/-- The response path stops with an error message at worst. -/
theorem within_handleResponse {nonce : ByteArr 12} {packet : Bytes}
    (hu : packet.length + 2 ^ 17 ≤ u.1) :
    Within u Stop.IsErr (fun _ => True) (handleResponse C key nonce packet) := by
  have hE : ∀ msg, Stop.IsErr (.err msg) := fun _ => trivial
  rw [handleResponse]
  split
  · exact within_fail trivial
  refine (within_slice (by omega) (by omega)).bind fun magic _ => ?_
  split
  · exact within_fail trivial
  refine (within_slice (by omega) (by omega)).bind fun bytes hbytes => ?_
  refine (within_copyFromSlice ?_).bind fun respNonce _ => ?_
  · rw [hbytes, OffsetTable.length_piece (by omega)]
  have hnonce := respNonce.property
  refine (within_slice (by omega) (by omega)).bind fun echoed _ => ?_
  split
  · exact within_fail trivial
  refine (within_sliceFrom (by omega)).bind fun rest hrest => ?_
  have hlen : rest.length = packet.length - 32 := by rw [hrest, List.length_drop]
  refine (within_decrypt hE (by omega)).bind fun decrypted hdecrypted => ?_
  refine (within_unpadResponse hE).bind fun unpadded hunpadded => ?_
  refine (within_parseDnsResponse (by omega)).bind fun ip _ => ?_
  exact (within_okOr trivial).imp fun _ _ => trivial

end Box

/-! ## All packets -/

/-- **No packet from the network stops the DNS path.** Certificate replies are walked and every
certificate in them checked without a stop, whatever the clock says; replies are parsed without
a stop, and the response path ends in an address or an error message. On packets of at most
65535 bytes every computed offset and length fits 64 bits. -/
theorem dns_never_panics (verify : Ed25519) (C : Cipher) :
    (∀ data : Bytes, ∃ certs, (parseTxtResponse data).val = .ok certs ∧
      ∀ cert ∈ certs, ∀ (providerPk : ByteArr 32) (now : UInt64),
        ∃ r, (verifyCert verify cert providerPk now).val = .ok r) ∧
    (∀ data : Bytes, ∃ ip, (parseDnsResponse data).val = .ok ip) ∧
    (∀ (key : ByteArr 32) (nonce : ByteArr 12) (packet : Bytes) (p : Panic),
      (handleResponse C key nonce packet).val ≠ .error (.panic p)) ∧
    ∀ packet : Bytes, packet.length ≤ 65535 →
      (parseTxtResponse packet).meter.1 < 2 ^ 64 ∧ (parseDnsResponse packet).meter.1 < 2 ^ 64 ∧
      (∀ (providerPk : ByteArr 32) (now : UInt64),
        (verifyCert verify packet providerPk now).meter.1 < 2 ^ 64) ∧
      ∀ (key : ByteArr 32) (nonce : ByteArr 12),
        (handleResponse C key nonce packet).meter.1 < 2 ^ 64 := by
  have htxt (data : Bytes) (n : ℕ) (hn : data.length + 2 ^ 17 ≤ n) :
      Within (n, 0) (fun _ => False) (fun _ => True) (parseTxtResponse data) :=
    within_parseTxtResponse hn
  have hdns (data : Bytes) (n : ℕ) (hn : data.length + 2 ^ 17 ≤ n) :
      Within (n, 0) (fun _ => False) (fun _ => True) (parseDnsResponse data) :=
    within_parseDnsResponse hn
  have hcert (cert : Bytes) (providerPk : ByteArr 32) (now : UInt64) :
      Within (0, 0) (fun _ => False) (fun _ => True) (verifyCert verify cert providerPk now) :=
    within_verifyCert now
  have hpath (key : ByteArr 32) (nonce : ByteArr 12) (packet : Bytes) (n : ℕ)
      (hn : packet.length + 2 ^ 17 ≤ n) :
      Within (n, 0) Stop.IsErr (fun _ => True) (handleResponse C key nonce packet) :=
    within_handleResponse hn
  refine ⟨?_, ?_, ?_, ?_⟩
  · intro data
    obtain ⟨certs, hval, -⟩ := (htxt data _ le_rfl).exists_ok
    refine ⟨certs, hval, ?_⟩
    intro cert _ providerPk now
    obtain ⟨r, hr, -⟩ := (hcert cert providerPk now).exists_ok
    exact ⟨r, hr⟩
  · intro data
    obtain ⟨ip, hval, -⟩ := (hdns data _ le_rfl).exists_ok
    exact ⟨ip, hval⟩
  · intro key nonce packet p hp
    exact (hpath key nonce packet _ le_rfl).stop _ hp
  · intro packet hlen
    refine ⟨?_, ?_, ?_, ?_⟩
    · have hmeter := (htxt packet (2 ^ 18) (by omega)).meter.1
      omega
    · have hmeter := (hdns packet (2 ^ 18) (by omega)).meter.1
      omega
    · intro providerPk now
      have hmeter := (hcert packet providerPk now).meter.1
      omega
    · intro key nonce
      have hmeter := (hpath key nonce packet (2 ^ 18) (by omega)).meter.1
      omega

/-- The reply of the parser test stays far below 64 bits. -/
theorem dns_never_panics_github :
    (parseDnsResponse githubReply).meter.1 < 2 ^ 64 ∧
      ∀ certs, (parseTxtResponse githubReply).val = .ok certs → ∀ cert ∈ certs,
        ∃ r, (verifyCert (fun _ _ _ => true) cert (padded 32 []) 0).val = .ok r := by
  have hall := dns_never_panics (fun _ _ _ => true) countingCipher
  obtain ⟨certs, hval, hcerts⟩ := hall.1 githubReply
  refine ⟨(hall.2.2.2 githubReply (by decide)).2.1, ?_⟩
  intro certs' hval' cert hcert
  rw [hval] at hval'
  cases hval'
  exact hcerts cert hcert _ 0

end SevMicroLoader.Dns
