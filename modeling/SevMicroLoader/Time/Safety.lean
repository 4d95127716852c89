import SevMicroLoader.Time.Verify

/-!
# No datagram stops the loader

Parsing returns on every byte string, so a message it returns has as many values as tags
and every lookup in it is in bounds; what is left are fixed slices and the Merkle loop. The
meter bounds the rest: eight times a `u32` count at most, and capacities of no more tags
than the bytes that were parsed have room for.
-/

namespace SevMicroLoader.Time
open Rust Endian
open Metered (Within)

variable {u : Usage} {E : Stop → Prop}

/-! ## The parser -/

namespace RtMessage
variable {d : Bytes}

theorem within_valueEnd (offsets : List ℕ) (numTags valuesLen i : ℕ) :
    Within u (fun _ => True) (fun _ => True) (valueEnd offsets numTags valuesLen i) := by
  rw [valueEnd]
  split
  · exact within_index_any _ _
  · exact Metered.within_pure trivial

theorem within_offsetOk (offsets : List ℕ) (numTags valuesLen i : ℕ) :
    Within u (fun _ => True) (fun _ => True) (offsetOk offsets numTags valuesLen i) := by
  rw [offsetOk]
  refine (within_index_any _ _).bind fun start _ => ?_
  refine (within_valueEnd offsets numTags valuesLen i).bind fun stop _ => ?_
  split
  · exact Metered.within_pure trivial
  · split
    · exact Metered.within_pure trivial
    · exact Metered.within_pure trivial

/-- **What parsing computes and reserves.** The largest product is eight times a `u32`, and no
capacity is reserved before the header is known to fit. -/
theorem within_parse (hcount : 2 ^ 35 ≤ u.1) (hlen : d.length ≤ u.1) (hcap : d.length / 8 ≤ u.2) :
    Within u E (fun o => (parse d).val = .ok o) (parse d) := by
  classical
  have hmeter : Within u (fun _ => True) (fun _ => True) (parse d) := by
    rw [parse]
    split
    · exact Metered.within_pure trivial
    have hnumTags : Within u (fun _ => True) (fun n => n < 2 ^ 32)
        (UInt32.toNat <$> u32FromLE d 0) :=
      (within_u32FromLE (by omega) (by omega)).map fun w _ => w.toNat_lt
    refine hnumTags.bind fun numTags hnum => ?_
    split
    · exact Metered.within_pure trivial
    refine (within_mul (by omega)).bind fun headerLen hheader => ?_
    split
    · exact Metered.within_pure trivial
    have hfit : 8 * numTags ≤ d.length := by omega
    refine (within_withCapacity (by omega)).bind fun _ _ => ?_
    have hoffset : ∀ i < numTags - 1, Within u (fun _ => True) (fun _ => True)
        (do let idx ← add 4 (← mul i 4); UInt32.toNat <$> u32FromLE d idx : Checked ℕ) := by
      intro i hi
      refine (within_mul (by omega)).bind fun j hj => ?_
      refine (within_add (by omega)).bind fun idx hidx => ?_
      exact (within_u32FromLE (by omega) (by omega)).map fun _ _ => trivial
    refine (Metered.within_collect hoffset).bind fun rest _ => ?_
    refine (within_withCapacity (by omega)).bind fun _ _ => ?_
    refine (within_mul (by omega)).bind fun j hj => ?_
    refine (within_add (by omega)).bind fun tagsStart hstart => ?_
    have htag : ∀ i < numTags, Within u (fun _ => True) (fun _ => True)
        (do let idx ← add tagsStart (← mul i 4); u32FromLE d idx : Checked UInt32) := by
      intro i hi
      refine (within_mul (by omega)).bind fun j hj => ?_
      refine (within_add (by omega)).bind fun idx hidx => ?_
      exact (within_u32FromLE (by omega) (by omega)).imp fun _ _ => trivial
    refine (Metered.within_collect htag).bind fun tags _ => ?_
    refine (within_mul (by omega)).bind fun valuesStart hvalues => ?_
    refine (within_sub (by omega)).bind fun valuesLen _ => ?_
    refine (within_sliceFrom (by omega)).bind fun valuesData _ => ?_
    refine (Metered.within_forallLoop fun i _ => within_offsetOk _ _ _ i).bind fun ok _ => ?_
    split
    · exact Metered.within_pure trivial
    refine (within_withCapacity (by omega)).bind fun _ _ => ?_
    have hvalue : ∀ i < numTags, Within u (fun _ => True) (fun _ => True)
        (do
          let start ← index (0 :: rest) i
          let stop ← valueEnd (0 :: rest) numTags valuesLen i
          slice valuesData start stop : Checked Bytes) := by
      intro i _
      refine (within_index_any _ _).bind fun start _ => ?_
      exact (within_valueEnd _ _ _ i).bind fun stop _ => within_slice_any _ _ _
    refine (Metered.within_collect hvalue).bind fun values _ => ?_
    exact Metered.within_pure trivial
  exact hmeter.of_ok (val_parse d) (val_parse d)

/-- A value of a parsed message is no longer than what was parsed. -/
theorem length_le_of_mem_message {v : Bytes} (h : v ∈ (message d).values) :
    v.length ≤ d.length := by
  rw [message, OffsetTable.pieces, List.mem_map] at h
  obtain ⟨i, -, rfl⟩ := h
  rw [OffsetTable.piece, List.length_take, List.length_drop, List.length_drop]
  omega

theorem within_getFrom {values : List Bytes} (tag : UInt32) (ts : List UInt32) (i : ℕ)
    (h : i + ts.length ≤ values.length) :
    Within u E (fun o => ∀ v, o = some v → v ∈ values) (getFrom values tag ts i) := by
  induction ts generalizing i with
  | nil => exact Metered.within_pure nofun
  | cons t ts ih =>
      rw [List.length_cons] at h
      rw [getFrom]
      split
      · refine (within_index (by omega)).bind fun v hv => Metered.within_pure ?_
        intro w hw
        exact Option.some.inj hw ▸ List.mem_of_getElem? hv
      · exact ih (i + 1) (by omega)

/-- A lookup in a parsed message is in bounds. -/
theorem within_get {m : RtMessage} (hm : (parse d).val = .ok (some m)) (tag : UInt32) :
    Within u E (fun o => ∀ v, o = some v → v.length ≤ d.length) (m.get tag) := by
  obtain ⟨-, rfl⟩ := parse_eq_some_iff.mp hm
  have hlen : 0 + (message d).tags.length ≤ (message d).values.length := by simp
  exact (within_getFrom tag _ 0 hlen).imp fun o ho v hv => length_le_of_mem_message (ho v hv)

end RtMessage

/-! ## The verifier -/

section Verifier
variable {C : Crypto} {d : Bytes} {m : RtMessage} {msg : String}

/-- A parsed message, or an error message. -/
theorem within_okOr_parse {α : Type} {Q : α → Prop} {f : RtMessage → Checked α}
    (hcount : 2 ^ 35 ≤ u.1) (hlen : d.length ≤ u.1) (hcap : d.length / 8 ≤ u.2)
    (hf : ∀ m, (RtMessage.parse d).val = .ok (some m) → Within u Stop.IsErr Q (f m)) :
    Within u Stop.IsErr Q (do
      let m ← okOr (← RtMessage.parse d) msg
      f m) :=
  (RtMessage.within_parse hcount hlen hcap).bind fun _ ho =>
    (within_okOr trivial).bind fun m hm => hf m (hm ▸ ho)

theorem within_field (hm : (RtMessage.parse d).val = .ok (some m)) (tag : UInt32) :
    Within u Stop.IsErr (fun v => v.length ≤ d.length) (field m tag msg) :=
  (RtMessage.within_get hm tag).bind fun _ ho => (within_okOr trivial).imp fun v hv => ho v hv

theorem within_u64Field (bytes : Bytes) :
    Within u Stop.IsErr (fun _ => True) (u64Field bytes msg) :=
  (within_tryInto trivial).bind fun _ _ => Metered.within_pure trivial

theorem within_hash32 (msg : Bytes) : Within u E (fun _ => True) (hash32 C msg) := by
  have hlen := (C.sha512 msg).property
  exact (within_slice (by omega) (by omega)).imp fun _ _ => trivial

theorem within_merkleLoop (siblings : List Bytes) (current : Bytes) (idx : UInt32) :
    Within u E (fun _ => True) (merkleLoop C siblings current idx) := by
  induction siblings generalizing current idx with
  | nil => exact Metered.within_pure trivial
  | cons s ss ih => exact (within_hash32 _).bind fun current' _ => ih current' _

theorem within_verifyMerklePath (nonce : ByteArr 64) (root : Bytes) (index : UInt32)
    (path : Bytes) :
    Within u Stop.IsErr (fun _ => True) (verifyMerklePath C nonce root index path) := by
  rw [verifyMerklePath]
  split
  · exact within_fail trivial
  refine (within_hash32 _).bind fun leafHash _ => ?_
  refine (within_merkleLoop _ leafHash index).bind fun climbed _ => ?_
  obtain ⟨current, idx⟩ := climbed
  dsimp only
  split
  · exact within_fail trivial
  refine (within_slice (by omega) (by omega)).bind fun top _ => ?_
  split
  · exact within_fail trivial
  split
  · exact within_fail trivial
  · exact Metered.within_pure trivial

/-- The whole verifier ends in a midpoint or an error message. -/
theorem within_verifyRoughtimeResponse {data : Bytes} {nonce : ByteArr 64} {key : String}
    (hcount : 2 ^ 35 ≤ u.1) (hlen : data.length + 36 ≤ u.1) (hcap : data.length + 36 ≤ u.2) :
    Within u Stop.IsErr (fun _ => True) (verifyRoughtimeResponse C data nonce key) := by
  rw [verifyRoughtimeResponse]
  refine within_okOr_parse hcount (by omega) (by omega) fun resp hresp => ?_
  refine (within_field hresp tagCert).bind fun certBytes hcert => ?_
  refine (within_field hresp tagSrep).bind fun srepBytes hsrep => ?_
  refine (within_field hresp tagSig).bind fun sigBytes _ => ?_
  refine within_okOr_parse hcount (by omega) (by omega) fun cert hcertM => ?_
  refine (within_field hcertM tagDele).bind fun deleBytes hdele => ?_
  refine (within_field hcertM tagSig).bind fun certSigBytes _ => ?_
  refine (within_okOr trivial).bind fun rootKey _ => ?_
  refine (within_add (by omega)).bind fun n hn => ?_
  refine (within_withCapacity (by omega)).bind fun _ _ => ?_
  split
  · exact within_fail trivial
  refine within_okOr_parse hcount (by omega) (by omega) fun dele hdeleM => ?_
  refine (within_field hdeleM tagPubk).bind fun onlinePubkey _ => ?_
  refine (within_field hdeleM tagMint).bind fun mintBytes _ => ?_
  refine (within_field hdeleM tagMaxt).bind fun maxtBytes _ => ?_
  refine (within_u64Field mintBytes).bind fun mint _ => ?_
  refine (within_u64Field maxtBytes).bind fun maxt _ => ?_
  refine (within_add (by omega)).bind fun n hn => ?_
  refine (within_withCapacity (by omega)).bind fun _ _ => ?_
  split
  · exact within_fail trivial
  refine within_okOr_parse hcount (by omega) (by omega) fun srep hsrepM => ?_
  refine (within_field hsrepM tagRoot).bind fun rootHash _ => ?_
  refine (within_field hsrepM tagMidp).bind fun midpointBytes _ => ?_
  refine (within_field hsrepM tagRadi).bind fun radiusBytes _ => ?_
  refine (within_u64Field midpointBytes).bind fun midpoint _ => ?_
  refine (within_tryInto trivial).bind fun radius _ => ?_
  split
  · exact within_fail trivial
  refine (within_field hresp tagIndx).bind fun indexBytes _ => ?_
  refine (within_field hresp tagPath).bind fun pathBytes _ => ?_
  refine (within_tryInto trivial).bind fun index _ => ?_
  refine (within_verifyMerklePath nonce rootHash _ pathBytes).bind fun _ _ => ?_
  exact Metered.within_pure trivial

end Verifier

/-- The four byte strings of a datagram that are parsed: itself, `CERT`, `DELE` and `SREP`. -/
inductive Parsed (data : Bytes) : Bytes → Prop
  | response : Parsed data data
  | cert {cert : Bytes} : HasField data tagCert cert → Parsed data cert
  | dele {cert dele : Bytes} : HasField data tagCert cert → HasField cert tagDele dele →
      Parsed data dele
  | srep {srep : Bytes} : HasField data tagSrep srep → Parsed data srep

theorem HasField.length_le {d v : Bytes} {tag : UInt32} (h : HasField d tag v) :
    v.length ≤ d.length := by
  obtain ⟨m, hm, hv⟩ := h
  have hget : Within (0, 0) (fun _ => True) (fun o => ∀ v, o = some v → v.length ≤ d.length)
      (m.get tag) := RtMessage.within_get hm tag
  exact hget.result _ hv v rfl

theorem Parsed.length_le {data d : Bytes} (h : Parsed data d) : d.length ≤ data.length := by
  cases h with
  | response => exact le_rfl
  | cert hcert => exact hcert.length_le
  | dele hcert hdele => exact hdele.length_le.trans hcert.length_le
  | srep hsrep => exact hsrep.length_le

/-- **No Roughtime datagram stops the loader.** Verification ends in a midpoint or an error
message, everything it computes fits 64 bits, and each of the four nested messages is parsed
with capacities for no more tags than its own bytes have room for. -/
theorem roughtime_never_panics (C : Crypto) (data : Bytes) (nonce : ByteArr 64) (key : String)
    (hlen : data.length ≤ 2048) :
    (∀ p, (verifyRoughtimeResponse C data nonce key).val ≠ .error (.panic p)) ∧
    (verifyRoughtimeResponse C data nonce key).meter.1 < 2 ^ 64 ∧
    ∀ d, Parsed data d → (∃ m, (RtMessage.parse d).val = .ok m) ∧
      8 * (RtMessage.parse d).meter.2 ≤ d.length ∧ d.length ≤ data.length := by
  have hverify : Within (2 ^ 35, 2 ^ 12) Stop.IsErr (fun _ => True)
      (verifyRoughtimeResponse C data nonce key) :=
    within_verifyRoughtimeResponse le_rfl (by omega) (by omega)
  refine ⟨fun p hp => hverify.stop _ hp, ?_, ?_⟩
  · have hmeter := hverify.meter.1
    omega
  · intro d hd
    have hle := hd.length_le
    have hparse : Within (2 ^ 35, d.length / 8) (fun _ => False)
        (fun o => (RtMessage.parse d).val = .ok o) (RtMessage.parse d) :=
      RtMessage.within_parse le_rfl (by omega) le_rfl
    obtain ⟨m, hm, -⟩ := hparse.exists_ok
    have hcap := hparse.meter.2
    exact ⟨⟨m, hm⟩, by omega, hle⟩

/-- A datagram of the largest size that announces 2 ^ 32 - 1 tags. -/
theorem roughtime_never_panics_all_ones :
    (∀ p, (verifyRoughtimeResponse sampleCrypto (List.replicate 2048 0xff) (padded 64 []) "").val ≠
      .error (.panic p)) ∧
    8 * (RtMessage.parse (List.replicate 2048 0xff)).meter.2 ≤
      (List.replicate 2048 (0xff : UInt8)).length := by
  have hall := roughtime_never_panics sampleCrypto (List.replicate 2048 0xff) (padded 64 []) ""
    (List.length_replicate).le
  exact ⟨hall.1, (hall.2.2 _ .response).2.1⟩

end SevMicroLoader.Time
