import SevMicroLoader.Lib.MerklePath
import SevMicroLoader.Time.Message

/-!
# Verifying a Roughtime response

`verifyRoughtimeResponse` reads four nested messages, checks the delegation signature
under the root key and the response signature under the delegated key, and checks the
validity interval and the Merkle path of the nonce. Ed25519 verification, SHA-512 and
base64 decoding are arbitrary functions (`Crypto`).

`Authenticated` states what an accepted midpoint is backed by; every clause reads the
same bytes the signatures cover.
-/

namespace SevMicroLoader.Time
open Rust Endian

/-- The primitives the verifier calls. -/
structure Crypto where
  /-- Whether the signature of the message verifies under the key. -/
  ed25519Verify : (key msg sig : Bytes) → Bool
  sha512 : Bytes → ByteArr 64
  base64Decode : String → Option Bytes

/-- What is put in front of a delegation before it is signed. -/
def delegationContext : Bytes := bstr "RoughTime v1 delegation signature--" ++ [0x00]

/-- What is put in front of a response before it is signed. -/
def responseContext : Bytes := bstr "RoughTime v1 response signature" ++ [0x00]

/-- `resp.get(tag).ok_or(msg)?`. -/
def field (m : RtMessage) (tag : UInt32) (msg : String) : Checked Bytes := do
  okOr (← m.get tag) msg

/-- `u64::from_le_bytes(bytes.try_into()?)`. -/
def u64Field (bytes : Bytes) (msg : String) : Checked UInt64 := do
  let arr ← tryInto 8 bytes msg
  pure (UInt64.ofNat (ofLE arr.val))

variable (C : Crypto)

/-- `hasher.finish().as_ref()[0..32].to_vec()`. -/
def hash32 (msg : Bytes) : Checked Bytes := slice (C.sha512 msg).val 0 32

/-- The loop over the siblings: the current hash and what is left of the index. -/
def merkleLoop : List Bytes → Bytes → UInt32 → Checked (Bytes × UInt32)
  | [], current, idx => pure (current, idx)
  | sibling :: rest, current, idx => do
      let current ← hash32 C (0x01 ::
        (if idx &&& 1 = 0 then current ++ sibling else sibling ++ current))
      merkleLoop rest current (idx >>> 1)

/-- The path check, from the length test on `PATH` to the test that the index is used up. -/
def verifyMerklePath (nonce : ByteArr 64) (rootHash : Bytes) (index : UInt32)
    (pathBytes : Bytes) : Checked Unit :=
  if pathBytes.length % 32 ≠ 0 then fail "Invalid PATH length (not multiple of 32)"
  else do
    let leafHash ← hash32 C (0x00 :: nonce.val)
    let (current, idx) ← merkleLoop C (chunksExact 32 pathBytes) leafHash index
    if rootHash.length < 32 then fail "Invalid ROOT hash length"
    else do
      let root ← slice rootHash 0 32
      if current ≠ root then fail "Merkle proof root mismatch"
      else if idx ≠ 0 then fail "Merkle index out of bounds for the path depth"
      else pure ()

/-- The midpoint of a response, if everything in it fits together. -/
def verifyRoughtimeResponse (data : Bytes) (nonce : ByteArr 64) (pubkeyBase64 : String) :
    Checked UInt64 := do
  let resp ← okOr (← RtMessage.parse data) "Invalid top-level Roughtime response"
  let certBytes ← field resp tagCert "Missing CERT in response"
  let srepBytes ← field resp tagSrep "Missing SREP in response"
  let sigBytes ← field resp tagSig "Missing SIG in response"
  -- the certificate
  let cert ← okOr (← RtMessage.parse certBytes) "Invalid CERT message"
  let deleBytes ← field cert tagDele "Missing DELE in CERT"
  let certSigBytes ← field cert tagSig "Missing SIG in CERT"
  let rootPubkeyBytes ← okOr (C.base64Decode pubkeyBase64)
    ("Failed to decode root public key: " ++ pubkeyBase64)
  withCapacity (← add 36 deleBytes.length)
  if ¬ C.ed25519Verify rootPubkeyBytes (delegationContext ++ deleBytes) certSigBytes then
    fail "Failed to verify delegation signature: Unspecified"
  else do
    -- the delegation
    let dele ← okOr (← RtMessage.parse deleBytes) "Invalid DELE message"
    let onlinePubkey ← field dele tagPubk "Missing PUBK in DELE"
    let mintBytes ← field dele tagMint "Missing MINT in DELE"
    let maxtBytes ← field dele tagMaxt "Missing MAXT in DELE"
    let mint ← u64Field mintBytes "Invalid MINT size"
    let maxt ← u64Field maxtBytes "Invalid MAXT size"
    withCapacity (← add 32 srepBytes.length)
    if ¬ C.ed25519Verify onlinePubkey (responseContext ++ srepBytes) sigBytes then
      fail "Failed to verify response signature: Unspecified"
    else do
      -- the signed response
      let srep ← okOr (← RtMessage.parse srepBytes) "Invalid SREP message"
      let rootHash ← field srep tagRoot "Missing ROOT in SREP"
      let midpointBytes ← field srep tagMidp "Missing MIDP in SREP"
      let radiusBytes ← field srep tagRadi "Missing RADI in SREP"
      let midpoint ← u64Field midpointBytes "Invalid MIDP size"
      let _radius ← tryInto 4 radiusBytes "Invalid RADI size"
      if midpoint < mint ∨ midpoint > maxt then
        fail ("Delegation key not valid at midpoint (midpoint=" ++ toString midpoint
          ++ ", mint=" ++ toString mint ++ ", maxt=" ++ toString maxt ++ ")")
      else do
        let indexBytes ← field resp tagIndx "Missing INDX in response"
        let pathBytes ← field resp tagPath "Missing PATH in response"
        let index ← tryInto 4 indexBytes "Invalid INDX size"
        verifyMerklePath C nonce rootHash (UInt32.ofNat (ofLE index.val)) pathBytes
        pure midpoint

/-! ## Values -/

@[simp] theorem val_field_eq_ok {m : RtMessage} {tag : UInt32} {msg : String} {v : Bytes} :
    (field m tag msg).val = .ok v ↔ (m.get tag).val = .ok (some v) := by
  rw [field, Metered.val_bind_eq_ok]
  constructor
  · rintro ⟨o, ho, hv⟩
    rw [ho, val_okOr_eq_ok.mp hv]
  · intro h
    exact ⟨some v, h, val_okOr_eq_ok.mpr rfl⟩

@[simp] theorem val_u64Field_eq_ok {bs : Bytes} {msg : String} {x : UInt64} :
    (u64Field bs msg).val = .ok x ↔ bs.length = 8 ∧ UInt64.ofNat (ofLE bs) = x := by
  rw [u64Field, Metered.val_bind_eq_ok]
  constructor
  · rintro ⟨arr, harr, hx⟩
    rw [val_tryInto_eq_ok] at harr
    rw [harr]
    exact ⟨arr.property, Except.ok.inj hx⟩
  · rintro ⟨hlen, hx⟩
    exact ⟨⟨bs, hlen⟩, val_tryInto_eq_ok.mpr rfl, congrArg Except.ok hx⟩

/-- A little-endian `u64` keeps the number its eight bytes write. -/
theorem toNat_ofNat_ofLE {bs : Bytes} (h : bs.length = 8) :
    (UInt64.ofNat (ofLE bs)).toNat = ofLE bs := by
  have hlt : ofLE bs < 2 ^ 64 := by simpa [h] using ofLE_lt bs
  exact UInt64.toNat_ofNat_of_lt' hlt

/-- The truncated hash the path check uses. -/
def truncatedHash (msg : Bytes) : Bytes := (C.sha512 msg).val.take 32

@[simp] theorem val_hash32 (msg : Bytes) : (hash32 C msg).val = .ok (truncatedHash C msg) := by
  rw [hash32, val_slice (by omega) (by rw [(C.sha512 msg).property]; omega)]
  simp [truncatedHash, OffsetTable.piece]

/-- **The sibling loop climbs.** It ends in the recomputed root, and what is left of the index
is its quotient by `2 ^ k`. -/
theorem val_merkleLoop (siblings : List Bytes) (current : Bytes) (idx : UInt32) :
    (merkleLoop C siblings current idx).val =
      .ok (MerklePath.climb (truncatedHash C) 0x01 siblings idx.toNat current,
        UInt32.ofNat (idx.toNat / 2 ^ siblings.length)) := by
  induction siblings generalizing current idx with
  | nil => simp [merkleLoop]
  | cons s ss ih =>
      have hhalf : (idx >>> 1).toNat = idx.toNat / 2 := by
        simp [UInt32.toNat_shiftRight, Nat.shiftRight_one]
      have hside : (idx &&& 1 = 0) ↔ idx.toNat % 2 = 0 := by
        rw [← UInt32.toNat_inj]
        simp [UInt32.toNat_and, Nat.and_one_is_mod]
      rw [merkleLoop, Metered.val_bind_of_ok (val_hash32 C _), ih, hhalf, MerklePath.climb_cons,
        Nat.div_div_eq_div_mul, List.length_cons, pow_succ']
      simp only [hside, MerklePath.node]
      by_cases h : idx.toNat % 2 = 0 <;> simp [h]

/-- **The path check as a function**: the two lengths, the climb against the root, and the index
against the depth. -/
theorem val_verifyMerklePath (nonce : ByteArr 64) (root path : Bytes) (index : UInt32) :
    (verifyMerklePath C nonce root index path).val =
      if path.length % 32 ≠ 0 then .error (.err "Invalid PATH length (not multiple of 32)")
      else if root.length < 32 then .error (.err "Invalid ROOT hash length")
      else if MerklePath.climb (truncatedHash C) 0x01 (chunksExact 32 path) index.toNat
          (MerklePath.leaf (truncatedHash C) 0x00 nonce.val) ≠ root.take 32 then
        .error (.err "Merkle proof root mismatch")
      else if 2 ^ (path.length / 32) ≤ index.toNat then
        .error (.err "Merkle index out of bounds for the path depth")
      else .ok () := by
  have hzero : UInt32.ofNat (index.toNat / 2 ^ (path.length / 32)) ≠ 0 ↔
      2 ^ (path.length / 32) ≤ index.toNat := by
    have hsmall : index.toNat / 2 ^ (path.length / 32) < 2 ^ 32 :=
      (Nat.div_le_self _ _).trans_lt index.toNat_lt
    rw [← Nat.not_lt, ← MerklePath.consumed_iff, Ne, ← UInt32.toNat_inj,
      UInt32.toNat_ofNat_of_lt' hsmall]
    rfl
  have hslice : OffsetTable.piece root 0 32 = root.take 32 := by simp [OffsetTable.piece]
  rw [verifyMerklePath]
  by_cases hpath : path.length % 32 ≠ 0
  · rw [if_pos hpath, if_pos hpath]
    rfl
  rw [if_neg hpath, if_neg hpath, Metered.val_bind_of_ok (val_hash32 C _),
    Metered.val_bind_of_ok (val_merkleLoop C _ _ _)]
  dsimp only
  by_cases hroot : root.length < 32
  · rw [if_pos hroot, if_pos hroot]
    rfl
  rw [if_neg hroot, if_neg hroot,
    Metered.val_bind_of_ok (val_slice (Nat.zero_le _) (Nat.not_lt.mp hroot)), hslice,
    length_chunksExact, MerklePath.leaf]
  by_cases hmatch : MerklePath.climb (truncatedHash C) 0x01 (chunksExact 32 path) index.toNat
      (truncatedHash C (0x00 :: nonce.val)) ≠ root.take 32
  · rw [if_pos hmatch, if_pos hmatch]
    rfl
  rw [if_neg hmatch, if_neg hmatch]
  by_cases hdepth : 2 ^ (path.length / 32) ≤ index.toNat
  · rw [if_pos (hzero.mpr hdepth), if_pos hdepth]
    rfl
  · rw [if_neg (mt hzero.mp hdepth), if_neg hdepth]
    rfl

/-- What the path check accepts. -/
theorem val_verifyMerklePath_eq_ok {nonce : ByteArr 64} {root path : Bytes} {index : UInt32}
    (h : (verifyMerklePath C nonce root index path).val = .ok ()) :
    path.length % 32 = 0 ∧ 32 ≤ root.length ∧
      root.take 32 = MerklePath.climb (truncatedHash C) 0x01 (chunksExact 32 path) index.toNat
        (MerklePath.leaf (truncatedHash C) 0x00 nonce.val) ∧
      index.toNat < 2 ^ (path.length / 32) := by
  rw [val_verifyMerklePath] at h
  split_ifs at h with hpath hroot hmatch hdepth
  exact ⟨not_not.mp hpath, Nat.not_lt.mp hroot, (not_not.mp hmatch).symm, Nat.not_le.mp hdepth⟩

/-! ## What an accepted response is backed by -/

/-- `bs` parses, and `tag` is looked up to `v` in it. -/
def HasField (bs : Bytes) (tag : UInt32) (v : Bytes) : Prop :=
  ∃ m, (RtMessage.parse bs).val = .ok (some m) ∧ (m.get tag).val = .ok (some v)

theorem HasField.unique {bs v v' : Bytes} {tag : UInt32} (h : HasField bs tag v)
    (h' : HasField bs tag v') : v = v' := by
  obtain ⟨m, hm, hv⟩ := h
  obtain ⟨m', hm', hv'⟩ := h'
  rw [hm] at hm'
  cases hm'
  rw [hv] at hv'
  cases hv'
  rfl

/-- The response carries `dele` inside its certificate, and `srep`. -/
def Contains (data dele srep : Bytes) : Prop :=
  (∃ cert, HasField data tagCert cert ∧ HasField cert tagDele dele) ∧ HasField data tagSrep srep

/-- The backing of the midpoint `t`: two chained signatures over `dele` and `srep`, and the
nonce under the signed root. -/
structure Authenticated (data : Bytes) (nonce : ByteArr 64) (pubkeyBase64 : String)
    (dele srep : Bytes) (t : UInt64) : Prop where
  contains : Contains data dele srep
  delegated : ∃ rootKey cert sig, C.base64Decode pubkeyBase64 = some rootKey ∧
    HasField data tagCert cert ∧ HasField cert tagSig sig ∧
    C.ed25519Verify rootKey (delegationContext ++ dele) sig = true
  signed : ∃ pubk sig, HasField dele tagPubk pubk ∧ HasField data tagSig sig ∧
    C.ed25519Verify pubk (responseContext ++ srep) sig = true
  midpoint : ∃ midp, HasField srep tagMidp midp ∧ midp.length = 8 ∧ t.toNat = ofLE midp
  interval : ∃ mint maxt, HasField dele tagMint mint ∧ HasField dele tagMaxt maxt ∧
    mint.length = 8 ∧ maxt.length = 8 ∧ ofLE mint ≤ t.toNat ∧ t.toNat ≤ ofLE maxt
  path : ∃ root indx path, HasField srep tagRoot root ∧ HasField data tagIndx indx ∧
    HasField data tagPath path ∧ indx.length = 4 ∧ path.length % 32 = 0 ∧ 32 ≤ root.length ∧
    root.take 32 = MerklePath.climb (truncatedHash C) 0x01 (chunksExact 32 path) (ofLE indx)
      (MerklePath.leaf (truncatedHash C) 0x00 nonce.val) ∧
    ofLE indx < 2 ^ (path.length / 32)

variable {C}

/-- Every check of the verifier, read off an accepted response. -/
theorem authenticated_of_ok {data : Bytes} {nonce : ByteArr 64} {key : String} {t : UInt64}
    (h : (verifyRoughtimeResponse C data nonce key).val = .ok t) :
    ∃ dele srep, Authenticated C data nonce key dele srep t := by
  unfold verifyRoughtimeResponse at h
  simp only [Metered.val_bind_eq_ok, val_guard_eq_ok, val_okOr_eq_ok, val_field_eq_ok,
    val_u64Field_eq_ok, val_tryInto_eq_ok, not_not, not_or, val_add_bind,
    val_withCapacity_bind, Metered.val_pure] at h
  obtain ⟨_, hresp, resp, rfl, certBytes, hcert, srepBytes, hsrep, sig, hsig, _, hcertM, cert,
    rfl, dele, hdele, certSig, hcertSig, rootKey, hkey, hdelegated, h⟩ := h
  obtain ⟨_, hdeleM, deleMsg, rfl, pubk, hpubk, mintB, hmint, maxtB, hmaxt, mint, ⟨hmintLen, rfl⟩,
    maxt, ⟨hmaxtLen, rfl⟩, hsigned, h⟩ := h
  obtain ⟨_, hsrepM, srepMsg, rfl, root, hroot, midpB, hmidp, radi, -, midp, ⟨hmidpLen, rfl⟩,
    _, -, hinterval, h⟩ := h
  obtain ⟨indxB, hindx, pathB, hpath, indx, rfl, _, hmerkle, ht⟩ := h
  cases ht
  have hfield {bs : Bytes} {m : RtMessage} {tag : UInt32} {v : Bytes}
      (hm : (RtMessage.parse bs).val = .ok (some m)) (hv : (m.get tag).val = .ok (some v)) :
      HasField bs tag v := ⟨m, hm, hv⟩
  have hindex : (UInt32.ofNat (ofLE indx.val)).toNat = ofLE indx.val := by
    have hlt : ofLE indx.val < 2 ^ 32 := by simpa [indx.property] using ofLE_lt indx.val
    exact UInt32.toNat_ofNat_of_lt' hlt
  refine ⟨dele, srepBytes, ?_⟩
  constructor
  · exact ⟨⟨certBytes, hfield hresp hcert, hfield hcertM hdele⟩, hfield hresp hsrep⟩
  · exact ⟨rootKey, certBytes, certSig, hkey, hfield hresp hcert, hfield hcertM hcertSig,
      hdelegated⟩
  · exact ⟨pubk, sig, hfield hdeleM hpubk, hfield hresp hsig, hsigned⟩
  · exact ⟨midpB, hfield hsrepM hmidp, hmidpLen, toNat_ofNat_ofLE hmidpLen⟩
  · refine ⟨mintB, maxtB, hfield hdeleM hmint, hfield hdeleM hmaxt, hmintLen, hmaxtLen, ?_, ?_⟩
    · rw [← toNat_ofNat_ofLE hmintLen, ← UInt64.le_iff_toNat_le]
      exact UInt64.not_lt.mp hinterval.1
    · rw [← toNat_ofNat_ofLE hmaxtLen, ← UInt64.le_iff_toNat_le]
      exact UInt64.not_lt.mp hinterval.2
  · obtain ⟨hmod, hlen, hclimb, hlt⟩ := val_verifyMerklePath_eq_ok C hmerkle
    rw [hindex] at hclimb hlt
    exact ⟨root, indx.val, pathB, hfield hsrepM hroot, hfield hresp hindx, hfield hresp hpath,
      indx.property, hmod, hlen, hclimb, hlt⟩

/-- The two signing contexts separate the messages they prefix. -/
theorem delegationContext_append_ne (dele srep : Bytes) :
    delegationContext ++ dele ≠ responseContext ++ srep := by
  intro h
  -- the contexts first differ at their fourteenth byte
  have hprefix := congrArg (List.take 14) h
  rw [List.take_append_of_le_length (by decide), List.take_append_of_le_length (by decide)]
    at hprefix
  exact absurd hprefix (by decide)

/-- The midpoint is a function of the `SREP`. -/
theorem Authenticated.midpoint_eq {data data' dele dele' srep : Bytes} {nonce nonce' : ByteArr 64}
    {key key' : String} {t t' : UInt64} (h : Authenticated C data nonce key dele srep t)
    (h' : Authenticated C data' nonce' key' dele' srep t') : t = t' := by
  obtain ⟨midp, hmidp, -, ht⟩ := h.midpoint
  obtain ⟨midp', hmidp', -, ht'⟩ := h'.midpoint
  obtain rfl := hmidp.unique hmidp'
  exact UInt64.toNat_inj.mp (ht.trans ht'.symm)

/-- The midpoint of an accepted response is a function of its `SREP`. -/
theorem eq_of_contains {data data' : Bytes} {nonce nonce' : ByteArr 64} {key key' : String}
    {t t' : UInt64} {dele dele' srep : Bytes}
    (h : (verifyRoughtimeResponse C data nonce key).val = .ok t)
    (h' : (verifyRoughtimeResponse C data' nonce' key').val = .ok t')
    (hc : Contains data dele srep) (hc' : Contains data' dele' srep) : t = t' := by
  obtain ⟨d₁, s₁, hA⟩ := authenticated_of_ok h
  obtain ⟨d₂, s₂, hA'⟩ := authenticated_of_ok h'
  obtain rfl := hA.contains.2.unique hc.2
  obtain rfl := hA'.contains.2.unique hc'.2
  exact hA.midpoint_eq hA'

/-! ## An accepted response -/

/-- The root key of `roughtime.cloudflare.com`. -/
def sampleRootKey : Bytes :=
  [0xd0, 0x60, 0xfb, 0x73, 0x7c, 0x8f, 0xf3, 0x11, 0x1c, 0xe1, 0x99, 0x76, 0xcd, 0xeb, 0x8d, 0xd9,
    0x29, 0x4b, 0xbc, 0x35, 0x55, 0xa1, 0xc8, 0xec, 0x3d, 0x22, 0xfc, 0xfd, 0x19, 0x7f, 0xef, 0x38]

/-- Stand-ins for the primitives: a signature repeats its key, a hash is the padded message,
and one root key decodes. -/
def sampleCrypto : Crypto where
  ed25519Verify key _ sig := sig == key ++ key
  sha512 := padded 64
  base64Decode s :=
    if s = "0GD7c3yP8xEc4Zl2zeuN2SlLvDVVocjsPSL8/Rl/7zg=" then
      some sampleRootKey
    else none

def sampleDele : Bytes :=
  RtMessage.encode ⟨[tagPubk, tagMint, tagMaxt], [List.replicate 32 7, toLE 8 500, toLE 8 2000]⟩

def sampleSrep : Bytes :=
  RtMessage.encode ⟨[tagRadi, tagMidp, tagRoot],
    [toLE 4 1, toLE 8 1000, 0x01 :: List.replicate 31 0xaa]⟩

/-- The second leaf of a tree of two, under sibling bytes `0xaa`. -/
def sampleResponse : Bytes :=
  RtMessage.encode ⟨[tagSig, tagPath, tagSrep, tagCert, tagIndx],
    [List.replicate 64 7, List.replicate 32 0xaa, sampleSrep,
      RtMessage.encode ⟨[tagSig, tagDele], [sampleRootKey ++ sampleRootKey, sampleDele]⟩, toLE 4 1]⟩

/-! ## Authenticity -/

/-- **Authenticity of Roughtime time.** An accepted midpoint is backed by a delegation and a
signed response carried by the packet, and by this nonce's place under the signed root. No
delegation can be replayed as a response, and one `DELE` and `SREP` give one time. -/
theorem accepted_response_authentic (C : Crypto) :
    (∀ (data : Bytes) (nonce : ByteArr 64) (key : String) (t : UInt64),
      (verifyRoughtimeResponse C data nonce key).val = .ok t →
        ∃ dele srep, Authenticated C data nonce key dele srep t) ∧
    (∀ dele srep : Bytes, delegationContext ++ dele ≠ responseContext ++ srep) ∧
    ∀ (data data' : Bytes) (nonce nonce' : ByteArr 64) (key key' : String) (t t' : UInt64)
      (dele srep : Bytes),
      (verifyRoughtimeResponse C data nonce key).val = .ok t →
      (verifyRoughtimeResponse C data' nonce' key').val = .ok t' →
      Contains data dele srep → Contains data' dele srep → t = t' := by
  refine ⟨?_, delegationContext_append_ne, ?_⟩
  · intro data nonce key t h
    exact authenticated_of_ok h
  · intro data data' nonce nonce' key key' t t' dele srep h h' hc hc'
    exact eq_of_contains h h' hc hc'

/-- A response for the nonce of the loader's own Merkle test, accepted at its midpoint. -/
theorem accepted_response_authentic_sample :
    (∃ dele srep, Authenticated sampleCrypto sampleResponse ⟨List.replicate 64 0x55, by decide⟩
      "0GD7c3yP8xEc4Zl2zeuN2SlLvDVVocjsPSL8/Rl/7zg=" dele srep 1000) ∧
    ∃ dele srep, Contains sampleResponse dele srep :=
  have hok : (verifyRoughtimeResponse sampleCrypto sampleResponse
      ⟨List.replicate 64 0x55, by decide⟩ "0GD7c3yP8xEc4Zl2zeuN2SlLvDVVocjsPSL8/Rl/7zg=").val =
      .ok 1000 := by decide +kernel
  have hA := (accepted_response_authentic sampleCrypto).1 _ _ _ _ hok
  ⟨hA, hA.imp fun _ h => h.imp fun _ h => h.contains⟩

end SevMicroLoader.Time
