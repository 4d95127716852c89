import SevMicroLoader.Time.MerkleTree
import SevMicroLoader.Time.Query

/-!
# An honest Roughtime server

The verifier accepts whatever is `Authenticated` and has a radius (`ok_of_authenticated`), so that
the clauses of `Authenticated` are all it asks for. A `Server` delegates to an online key and signs
the root over a batch of nonces; its answer fits the client's buffer for every batch, and a query
that receives it returns the midpoint the server signed.
-/

namespace SevMicroLoader.Time
open Rust Endian

variable {C : Crypto}

/-! ## What the verifier asks for -/

/-- A byte string is parsed in one way only. -/
theorem HasField.get {bs v : Bytes} {tag : UInt32} {m : RtMessage} (h : HasField bs tag v)
    (hm : (RtMessage.parse bs).val = .ok (some m)) : (m.get tag).val = .ok (some v) := by
  obtain ⟨m', hm', hv⟩ := h
  rw [hm] at hm'
  cases hm'
  exact hv

/-- **The converse of authenticity**: what is authenticated and has a radius is accepted. -/
theorem ok_of_authenticated {data dele srep radi : Bytes} {nonce : ByteArr 64} {key : String}
    {t : UInt64} (h : Authenticated C data nonce key dele srep t)
    (hradi : HasField srep tagRadi radi) (hradiLen : radi.length = 4) :
    (verifyRoughtimeResponse C data nonce key).val = .ok t := by
  obtain ⟨⟨⟨cert, hcert, hdele⟩, hsrep⟩, ⟨rootKey, cert', certSig, hkey, hcert', hcertSig,
    hdelegated⟩, ⟨pubk, sig, hpubk, hsig, hsigned⟩, ⟨midp, hmidp, hmidpLen, ht⟩, ⟨mint, maxt, hmint,
    hmaxt, hmintLen, hmaxtLen, hle, hge⟩, ⟨root, indx, path, hroot, hindx, hpath, hindxLen, hmod,
    hrootLen, hclimb, hlt⟩⟩ := h
  obtain rfl := hcert.unique hcert'
  obtain ⟨resp, hresp, hrespCert⟩ := hcert
  obtain ⟨certMsg, hcertM, hcertDele⟩ := hdele
  obtain ⟨deleMsg, hdeleM, hdelePubk⟩ := hpubk
  obtain ⟨srepMsg, hsrepM, hsrepMidp⟩ := hmidp
  have hindex : (UInt32.ofNat (ofLE indx)).toNat = ofLE indx := by
    have hsmall : ofLE indx < 2 ^ 32 := by simpa [hindxLen] using ofLE_lt indx
    exact UInt32.toNat_ofNat_of_lt' hsmall
  have hmerkle : (verifyMerklePath C nonce root (UInt32.ofNat (ofLE indx)) path).val = .ok () := by
    rw [val_verifyMerklePath, hindex, if_neg (not_not.mpr hmod), if_neg hrootLen.not_gt, hclimb,
      if_neg (not_not.mpr rfl), if_neg (Nat.not_le.mpr hlt)]
  have hinterval : ¬ (t < UInt64.ofNat (ofLE mint) ∨ t > UInt64.ofNat (ofLE maxt)) := by
    rw [UInt64.lt_iff_toNat_lt, gt_iff_lt, UInt64.lt_iff_toNat_lt, toNat_ofNat_ofLE hmintLen,
      toNat_ofNat_ofLE hmaxtLen]
    omega
  unfold verifyRoughtimeResponse
  simp only [Metered.val_bind_eq_ok, val_guard_eq_ok, val_okOr_eq_ok, val_field_eq_ok,
    val_u64Field_eq_ok, val_tryInto_eq_ok, not_not, val_add_bind, val_withCapacity_bind,
    Metered.val_pure]
  refine ⟨_, hresp, resp, rfl, cert, hrespCert, srep, hsrep.get hresp, sig, hsig.get hresp, _,
    hcertM, certMsg, rfl, dele, hcertDele, certSig, hcertSig.get hcertM, rootKey, hkey, hdelegated,
    ?_⟩
  refine ⟨_, hdeleM, deleMsg, rfl, pubk, hdelePubk, mint, hmint.get hdeleM, maxt,
    hmaxt.get hdeleM, _, ⟨hmintLen, rfl⟩, _, ⟨hmaxtLen, rfl⟩, hsigned, ?_⟩
  refine ⟨_, hsrepM, srepMsg, rfl, root, hroot.get hsrepM, midp, hsrepMidp, radi,
    hradi.get hsrepM, t, ⟨hmidpLen, ht ▸ UInt64.ofNat_toNat⟩, ⟨radi, hradiLen⟩, rfl,
    hinterval, ?_⟩
  exact ⟨indx, hindx.get hresp, path, hpath.get hresp, ⟨indx, hindxLen⟩, rfl, (), hmerkle, rfl⟩

/-! ## The server -/

/-- A signature scheme whose signatures the client's verifier accepts. -/
structure Signer (C : Crypto) where
  SecretKey : Type
  publicKey : SecretKey → ByteArr 32
  sign : SecretKey → Bytes → ByteArr 64
  verify_sign : ∀ sk msg, C.ed25519Verify (publicKey sk).val msg (sign sk msg).val = true

/-- The keys of a server, and the time it reads. -/
structure Server (S : Signer C) where
  rootKey : S.SecretKey
  onlineKey : S.SecretKey
  mint : UInt64
  maxt : UInt64
  midpoint : UInt64
  radius : UInt32
  mint_le : mint ≤ midpoint
  le_maxt : midpoint ≤ maxt

namespace Server
variable {S : Signer C} (V : Server S)

/-- The online key, and the interval it may sign for. -/
def deleMessage : RtMessage :=
  ⟨[tagPubk, tagMint, tagMaxt],
    [(S.publicKey V.onlineKey).val, toLE 8 V.mint.toNat, toLE 8 V.maxt.toNat]⟩

/-- The delegation on the wire. -/
def dele : Bytes := V.deleMessage.encode

/-- The delegation with its signature under the root key. -/
def certMessage : RtMessage :=
  ⟨[tagSig, tagDele], [(S.sign V.rootKey (delegationContext ++ V.dele)).val, V.dele]⟩

/-- The certificate on the wire. -/
def cert : Bytes := V.certMessage.encode

/-- The response that is signed, over the root of a batch. -/
def srepMessage (root : Bytes) : RtMessage :=
  ⟨[tagRadi, tagMidp, tagRoot], [toLE 4 V.radius.toNat, toLE 8 V.midpoint.toNat, root]⟩

/-- The signed response on the wire. -/
def srep (root : Bytes) : Bytes := (V.srepMessage root).encode

/-- What the server sends to the client at place `i` of a batch of `2 ^ d` nonces. -/
def answerMessage (d : ℕ) (nonces : List (ByteArr 64)) (i : ℕ) : RtMessage :=
  ⟨[tagSig, tagPath, tagSrep, tagCert, tagIndx],
    [(S.sign V.onlineKey (responseContext ++ V.srep (batchRoot C d nonces))).val,
      batchPath C d nonces i, V.srep (batchRoot C d nonces), V.cert, toLE 4 i]⟩

/-- The answer to the client of index `i`. -/
def answer (d : ℕ) (nonces : List (ByteArr 64)) (i : ℕ) : Bytes :=
  (V.answerMessage d nonces i).encode

/-! ## The messages of the server -/

section Messages
variable {V} {d i : ℕ} {nonces : List (ByteArr 64)} {root : Bytes}

theorem wellFormed_deleMessage : V.deleMessage.WellFormed where
  nonempty := Nat.succ_pos 2
  same_length := rfl
  aligned := by
    simp only [deleMessage, List.forall_mem_cons, length_toLE, (S.publicKey V.onlineKey).property]
    exact ⟨trivial, trivial, trivial, nofun⟩

@[simp] theorem length_dele : V.dele.length = 72 := by
  rw [dele, RtMessage.length_encode wellFormed_deleMessage.nonempty]
  simp [deleMessage, (S.publicKey V.onlineKey).property]

theorem wellFormed_certMessage : V.certMessage.WellFormed where
  nonempty := Nat.succ_pos 1
  same_length := rfl
  aligned := by
    simp only [certMessage, List.forall_mem_cons, length_dele, (S.sign V.rootKey _).property]
    exact ⟨trivial, trivial, nofun⟩

@[simp] theorem length_cert : V.cert.length = 152 := by
  rw [cert, RtMessage.length_encode wellFormed_certMessage.nonempty]
  simp [certMessage, (S.sign V.rootKey _).property]

theorem wellFormed_srepMessage (hroot : root.length = 32) : (V.srepMessage root).WellFormed where
  nonempty := Nat.succ_pos 2
  same_length := rfl
  aligned := by
    simp only [srepMessage, List.forall_mem_cons, length_toLE, hroot]
    exact ⟨trivial, trivial, trivial, nofun⟩

theorem length_srep (hroot : root.length = 32) : (V.srep root).length = 68 := by
  rw [srep, RtMessage.length_encode (wellFormed_srepMessage hroot).nonempty]
  simp [srepMessage, hroot]

theorem wellFormed_answerMessage (hlen : nonces.length = 2 ^ d) :
    (V.answerMessage d nonces i).WellFormed where
  nonempty := Nat.succ_pos 4
  same_length := rfl
  aligned := by
    simp only [answerMessage, List.forall_mem_cons, length_toLE, length_cert,
      length_srep (length_batchRoot hlen), length_batchPath hlen, (S.sign V.onlineKey _).property]
    exact ⟨trivial, by omega, trivial, trivial, trivial, nofun⟩

/-- An answer grows by one sibling with each level of the tree. -/
theorem length_answer (hlen : nonces.length = 2 ^ d) :
    (V.answer d nonces i).length = 328 + 32 * d := by
  rw [answer, RtMessage.length_encode (wellFormed_answerMessage hlen).nonempty]
  simp only [answerMessage, List.flatten_cons, List.flatten_nil, List.length_append,
    List.length_cons, List.length_nil, length_toLE, length_cert,
    length_srep (length_batchRoot hlen), length_batchPath hlen, (S.sign V.onlineKey _).property]
  omega

end Messages

/-- What is looked up in an encoded message is a field of its bytes. -/
theorem hasField_encode {m : RtMessage} (W : m.WellFormed) (hlen : m.encode.length < 2 ^ 32)
    {tag : UInt32} {v : Bytes} (hget : (m.get tag).val = .ok (some v)) :
    HasField m.encode tag v :=
  ⟨m, (RtMessage.parse_eq_some_iff_encode hlen).mpr ⟨W, rfl⟩, hget⟩

/-- **What the server sends is authenticated**, under its root key. -/
theorem authenticated_answer {d i : ℕ} {nonces : List (ByteArr 64)} {nonce : ByteArr 64}
    {key : String} (hd : d ≤ 32) (hlen : nonces.length = 2 ^ d) (hnonce : nonces[i]? = some nonce)
    (hkey : C.base64Decode key = some (S.publicKey V.rootKey).val) :
    Authenticated C (V.answer d nonces i) nonce key V.dele (V.srep (batchRoot C d nonces))
      V.midpoint := by
  have hi : i < 2 ^ d := hlen ▸ (List.getElem?_eq_some_iff.mp hnonce).1
  have hi32 : i < 256 ^ 4 := hi.trans_le (Nat.pow_le_pow_right (by decide) hd)
  have hroot : (batchRoot C d nonces).length = 32 := length_batchRoot hlen
  have hanswer {tag : UInt32} {v : Bytes}
      (hget : ((V.answerMessage d nonces i).get tag).val = .ok (some v)) :
      HasField (V.answer d nonces i) tag v :=
    hasField_encode (wellFormed_answerMessage hlen)
      (by have := length_answer (V := V) (i := i) hlen; rw [answer] at this; omega) hget
  have hcert {tag : UInt32} {v : Bytes} (hget : (V.certMessage.get tag).val = .ok (some v)) :
      HasField V.cert tag v :=
    hasField_encode wellFormed_certMessage
      (by have := length_cert (V := V); rw [cert] at this; omega) hget
  have hdele {tag : UInt32} {v : Bytes} (hget : (V.deleMessage.get tag).val = .ok (some v)) :
      HasField V.dele tag v :=
    hasField_encode wellFormed_deleMessage
      (by have := length_dele (V := V); rw [dele] at this; omega) hget
  have hsrep {tag : UInt32} {v : Bytes}
      (hget : ((V.srepMessage (batchRoot C d nonces)).get tag).val = .ok (some v)) :
      HasField (V.srep (batchRoot C d nonces)) tag v :=
    hasField_encode (wellFormed_srepMessage hroot)
      (by have := length_srep (V := V) hroot; rw [srep] at this; omega) hget
  constructor
  case contains => exact ⟨⟨V.cert, hanswer rfl, hcert rfl⟩, hanswer rfl⟩
  case delegated =>
    exact ⟨_, V.cert, _, hkey, hanswer rfl, hcert rfl, S.verify_sign _ _⟩
  case signed => exact ⟨_, _, hdele rfl, hanswer rfl, S.verify_sign _ _⟩
  case midpoint =>
    exact ⟨_, hsrep rfl, length_toLE _ _, (ofLE_toLE V.midpoint.toNat_lt).symm⟩
  case interval =>
    refine ⟨_, _, hdele rfl, hdele rfl, length_toLE _ _, length_toLE _ _, ?_, ?_⟩
    · rw [ofLE_toLE V.mint.toNat_lt, ← UInt64.le_iff_toNat_le]
      exact V.mint_le
    · rw [ofLE_toLE V.maxt.toNat_lt, ← UInt64.le_iff_toNat_le]
      exact V.le_maxt
  case path =>
    refine ⟨_, _, _, hsrep rfl, hanswer rfl, hanswer rfl, length_toLE _ _, ?_, hroot.ge, ?_, ?_⟩
    · rw [length_batchPath hlen, Nat.mul_mod_right]
    · rw [List.take_of_length_le hroot.le, ofLE_toLE hi32, climb_batchPath hlen hnonce]
    · rw [ofLE_toLE hi32, length_batchPath hlen, Nat.mul_div_cancel_left _ (by decide)]
      exact hi

/-! ## A query to the server -/

/-- The nonce of a request. -/
def readNonce (datagram : Bytes) : Option (ByteArr 64) :=
  match (RtMessage.parse datagram).val with
  | .ok (some m) =>
      match (m.get tagNonc).val with
      | .ok (some v) => if h : v.length = 64 then some ⟨v, h⟩ else none
      | _ => none
  | _ => none

/-- The server reads the nonce of the client's request. -/
theorem readNonce_request (nonce : ByteArr 64) : readNonce (request nonce) = some nonce := by
  have hlen : (request nonce).length < 2 ^ 32 := by
    rw [← encode_requestMessage, length_encode_requestMessage]
    omega
  have hparse : (RtMessage.parse (request nonce)).val = .ok (some (requestMessage nonce)) :=
    (RtMessage.parse_eq_some_iff_encode hlen).mpr
      ⟨wellFormed_requestMessage nonce, encode_requestMessage nonce⟩
  have hget : ((requestMessage nonce).get tagNonc).val = .ok (some nonce.val) := rfl
  simp only [readNonce, hparse, hget, nonce.property]
  rfl

/-- The server answers a datagram within a batch of `2 ^ d` nonces, in any place. -/
def Answers (datagram response : Bytes) : Prop :=
  ∃ d nonces i nonce, d ≤ 32 ∧ nonces.length = 2 ^ d ∧ readNonce datagram = some nonce ∧
    nonces[i]? = some nonce ∧ response = V.answer d nonces i

variable {V}

theorem Answers.verified {nonce : ByteArr 64} {response : Bytes} {key : String}
    (h : V.Answers (request nonce) response)
    (hkey : C.base64Decode key = some (S.publicKey V.rootKey).val) :
    (verifyRoughtimeResponse C response nonce key).val = .ok V.midpoint := by
  obtain ⟨d, nonces, i, nonce', hd, hlen, hread, hnonce, rfl⟩ := h
  rw [readNonce_request, Option.some.injEq] at hread
  subst hread
  have hroot : (batchRoot C d nonces).length = 32 := length_batchRoot hlen
  have hradi : HasField (V.srep (batchRoot C d nonces)) tagRadi (toLE 4 V.radius.toNat) :=
    hasField_encode (wellFormed_srepMessage hroot)
      (by have := length_srep (V := V) hroot; rw [srep] at this; omega) rfl
  exact ok_of_authenticated (V.authenticated_answer hd hlen hnonce hkey) hradi (length_toLE _ _)

/-- Nothing but the server's midpoint is authenticated by its answer. -/
theorem Answers.midpoint_eq {nonce nonce' : ByteArr 64} {response dele srep : Bytes}
    {key key' : String} {m : UInt64} (h : V.Answers (request nonce) response)
    (hkey : C.base64Decode key = some (S.publicKey V.rootKey).val)
    (hm : Authenticated C response nonce' key' dele srep m) : m = V.midpoint := by
  obtain ⟨d, nonces, i, nonce'', hd, hlen, -, hnonce, rfl⟩ := h
  have hanswer := V.authenticated_answer hd hlen hnonce hkey
  obtain rfl := hm.contains.2.unique hanswer.contains.2
  exact hm.midpoint_eq hanswer

theorem Answers.length_le {datagram response : Bytes} (h : V.Answers datagram response) :
    response.length ≤ 2048 := by
  obtain ⟨d, nonces, i, nonce, hd, hlen, -, -, rfl⟩ := h
  rw [length_answer hlen]
  omega

/-- **An honest server is believed.** Whatever the other clients of its batch send, an answer to the
request fits the client's buffer; a query returns the signed midpoint in every run that receives
one, and an error in every run that receives nothing. -/
theorem honest_server_believed {C : Crypto} {S : Signer C} (V : Server S) (ip : IpAddr)
    (port : UInt16) (key : String) (hkey : C.base64Decode key = some (S.publicKey V.rootKey).val) :
    (∀ datagram response, V.Answers datagram response → response.length ≤ 2048) ∧
    ∀ t o, Prog.Runs (querySingleRoughtime C ip port key) t o →
      (∀ nonce data, (exchange t).nonce = some nonce → (exchange t).received = some data →
        V.Answers (request nonce) data.val → o = some (.ok V.midpoint)) ∧
      ((exchange t).received = none → ∃ msg, o = some (.error msg)) := by
  refine ⟨fun datagram response h => h.length_le, fun t o hrun => ?_⟩
  obtain ⟨r, rfl⟩ := returns_of_runs hrun
  have hreturned : Returned C key (exchange t) r :=
    ((holds_querySingleRoughtime C ip port key).sound hrun).2 r rfl
  rw [Returned] at hreturned
  constructor
  · intro nonce data hnonce hdata hanswers
    rw [hdata] at hreturned
    obtain ⟨nonce', hnonce', hverified⟩ := hreturned
    rw [hnonce, Option.some.injEq] at hnonce'
    subst hnonce'
    rw [(hverified V.midpoint).mpr (hanswers.verified hkey)]
  · intro hnone
    rw [hnone] at hreturned
    obtain ⟨msg, rfl⟩ := hreturned
    exact ⟨msg, rfl⟩

/-- Keys that are their own public keys, and signatures that repeat them. -/
def sampleSigner : Signer sampleCrypto where
  SecretKey := ByteArr 32
  publicKey sk := sk
  sign sk _ := ⟨sk.val ++ sk.val, by rw [List.length_append, sk.property]⟩
  verify_sign _ _ := beq_self_eq_true _

/-- A server whose key is the sample root key. -/
def sampleServer : Server sampleSigner where
  rootKey := ⟨sampleRootKey, rfl⟩
  onlineKey := ⟨List.replicate 32 7, List.length_replicate⟩
  mint := 500
  maxt := 2000
  midpoint := 1000
  radius := 1
  mint_le := by decide
  le_maxt := by decide

/-- The nonce of the sample query, behind another one. -/
def sampleBatch : List (ByteArr 64) :=
  [padded 64 [1], padded 64 (List.replicate 64 0x55)]

theorem length_sampleAnswer : (sampleServer.answer 1 sampleBatch 1).length ≤ 2048 := by
  rw [length_answer rfl]
  decide

/-- The answer of the sample server arrives. -/
def sampleServerEnv (past : QueryTrace) : (c : QueryCall) → Option c.Reply
  | .recvFrom => some (.received ⟨_, length_sampleAnswer⟩)
  | c => sampleQueryEnv past c

/-- The query in the environment above. -/
def sampleServerQuery : QueryTrace × Option (Except String UInt64) :=
  Prog.exec sampleServerEnv (querySingleRoughtime sampleCrypto sampleServerIp 2003
    "0GD7c3yP8xEc4Zl2zeuN2SlLvDVVocjsPSL8/Rl/7zg=") []

theorem honest_server_believed_batch :
    (∃ data, (exchange sampleServerQuery.1).received = some data ∧ data.val.length ≤ 2048) ∧
    sampleServerQuery.2 = some (.ok 1000) := by
  have hrun : Prog.Runs (querySingleRoughtime sampleCrypto sampleServerIp 2003
      "0GD7c3yP8xEc4Zl2zeuN2SlLvDVVocjsPSL8/Rl/7zg=") sampleServerQuery.1 sampleServerQuery.2 :=
    Prog.runs_exec (fun _ c hc => by cases c <;> first | exact ⟨Empty.elim⟩ | cases hc) _ []
  have hsample : (exchange sampleServerQuery.1).nonce = some (padded 64 (List.replicate 64 0x55)) ∧
      (exchange sampleServerQuery.1).received = some ⟨_, length_sampleAnswer⟩ := by
    decide +kernel
  have hanswers : sampleServer.Answers (request (padded 64 (List.replicate 64 0x55)))
      (sampleServer.answer 1 sampleBatch 1) :=
    ⟨1, sampleBatch, 1, _, by decide, rfl, readNonce_request _, rfl, rfl⟩
  obtain ⟨hfits, hbelieved⟩ := honest_server_believed sampleServer sampleServerIp
    2003 "0GD7c3yP8xEc4Zl2zeuN2SlLvDVVocjsPSL8/Rl/7zg=" rfl
  exact ⟨⟨_, hsample.2, hfits _ _ hanswers⟩,
    (hbelieved _ _ hrun).1 _ _ hsample.1 hsample.2 hanswers⟩

end Server

end SevMicroLoader.Time
