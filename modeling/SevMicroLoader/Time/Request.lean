import SevMicroLoader.Time.Message

/-!
# The Roughtime request, and the parser as a decoder

`request` is the datagram `query_single_roughtime` builds around its nonce. It is an
encoded message, so the exact description of the parser applies to it.
-/

namespace SevMicroLoader.Time
open Rust Endian

/-- The 1024-byte request: two tags, the nonce, and zero padding up to `resize(1024, 0)`, which is
far from any limit. -/
def request (nonce : ByteArr 64) : Bytes :=
  resized (toLE 4 2 -- num_tags
    ++ toLE 4 64 -- offset of tag 1
    ++ toLE 4 tagNonc.toNat
    ++ toLE 4 tagPad.toNat
    ++ nonce.val) 1024 0

/-- The message a request carries. -/
def requestMessage (nonce : ByteArr 64) : RtMessage :=
  ⟨[tagNonc, tagPad], [nonce.val, List.replicate 944 0]⟩

theorem wellFormed_requestMessage (nonce : ByteArr 64) : (requestMessage nonce).WellFormed where
  nonempty := Nat.zero_lt_two
  same_length := rfl
  aligned := by
    intro v hv
    simp only [requestMessage, List.mem_cons, List.not_mem_nil, or_false] at hv
    rcases hv with rfl | rfl
    · rw [nonce.property]
    · rw [List.length_replicate]

theorem length_encode_requestMessage (nonce : ByteArr 64) :
    (requestMessage nonce).encode.length = 1024 := by
  rw [RtMessage.length_encode (wellFormed_requestMessage nonce).nonempty]
  simp [-List.reduceReplicate, requestMessage, nonce.property]

theorem encode_requestMessage (nonce : ByteArr 64) :
    (requestMessage nonce).encode = request nonce := by
  have hfill : (toLE 4 2 ++ toLE 4 64 ++ toLE 4 tagNonc.toNat ++ toLE 4 tagPad.toNat
      ++ nonce.val).length = 80 := by simp [nonce.property]
  have hend : OffsetTable.endOffset [nonce.val, List.replicate 944 0] 1 = 64 := by
    simp [-List.reduceReplicate, OffsetTable.endOffset, nonce.property]
  rw [request, resized, hfill, List.take_of_length_le (by omega)]
  simp [-List.reduceReplicate, requestMessage, RtMessage.encode, hend]

/-- **The parser is exactly the decoder of the tag-value format.** Below `2 ^ 32` bytes it
accepts the encodings of well-formed messages and nothing else, undoes the encoder, is undone
by it, and never reads two strings as one message; the request parses to its nonce and padding. -/
theorem parse_exactly_decodes :
    (∀ (d : Bytes) (m : RtMessage), d.length < 2 ^ 32 →
      ((RtMessage.parse d).val = .ok (some m) ↔ d = m.encode ∧ m.WellFormed)) ∧
    (∀ m : RtMessage, m.WellFormed → m.encode.length < 2 ^ 32 →
      (RtMessage.parse m.encode).val = .ok (some m)) ∧
    (∀ (d : Bytes) (m : RtMessage), d.length < 2 ^ 32 →
      (RtMessage.parse d).val = .ok (some m) → m.encode = d) ∧
    (∀ (d d' : Bytes) (m : RtMessage), d.length < 2 ^ 32 → d'.length < 2 ^ 32 →
      (RtMessage.parse d).val = .ok (some m) → (RtMessage.parse d').val = .ok (some m) → d = d') ∧
    ∀ nonce : ByteArr 64, (RtMessage.parse (request nonce)).val =
      .ok (some ⟨[tagNonc, tagPad], [nonce.val, List.replicate 944 0]⟩) := by
  refine ⟨?_, ?_, ?_, ?_, ?_⟩
  · intro d m hlen
    rw [RtMessage.parse_eq_some_iff_encode hlen, and_comm, eq_comm]
  · intro m W hlen
    exact (RtMessage.parse_eq_some_iff_encode hlen).mpr ⟨W, rfl⟩
  · intro d m hlen h
    exact ((RtMessage.parse_eq_some_iff_encode hlen).mp h).2
  · intro d d' m hlen hlen' h h'
    rw [← ((RtMessage.parse_eq_some_iff_encode hlen).mp h).2,
      ((RtMessage.parse_eq_some_iff_encode hlen').mp h').2]
  · intro nonce
    have hlen : (request nonce).length < 2 ^ 32 := by
      rw [← encode_requestMessage, length_encode_requestMessage]
      omega
    exact (RtMessage.parse_eq_some_iff_encode hlen).mpr
      ⟨wellFormed_requestMessage nonce, encode_requestMessage nonce⟩

/-- The two-tag message of the loader's own parser test. -/
theorem parse_exactly_decodes_two_tags :
    (RtMessage.parse [2, 0, 0, 0, 4, 0, 0, 0, 78, 79, 78, 67, 80, 65, 68, 255,
        0x11, 0x22, 0x33, 0x44, 0, 0, 0, 0]).val =
      .ok (some ⟨[tagNonc, tagPad], [[0x11, 0x22, 0x33, 0x44], [0, 0, 0, 0]]⟩) :=
  (parse_exactly_decodes.1 _ _ (by decide)).mpr ⟨by decide, ⟨by decide, by decide, by decide⟩⟩

end SevMicroLoader.Time
