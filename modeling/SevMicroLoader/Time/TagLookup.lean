import SevMicroLoader.Time.Verify

/-!
# Looking tags up in a parsed message

The parser validates the offset table and does not look at the tags: any tags may be
written over those of an accepted message (`parse_retag`). A lookup returns the value at
the first position of the tag, so that a message is a map when the values under one tag
agree (`isMap_iff`), and not otherwise.
-/

namespace SevMicroLoader.Time
open Rust Endian

namespace RtMessage
variable {m : RtMessage} {d : Bytes}

/-- Every value is found under the tag at its position. -/
def IsMap (m : RtMessage) : Prop :=
  ∀ (i : ℕ) (tag : UInt32) (value : Bytes), m.tags[i]? = some tag → m.values[i]? = some value →
    (m.get tag).val = .ok (some value)

theorem val_getFrom {values : List Bytes} {tag : UInt32} {ts : List UInt32} {i : ℕ}
    (hlen : i + ts.length = values.length) :
    (getFrom values tag ts i).val = .ok values[i + ts.idxOf tag]? := by
  induction ts generalizing i with
  | nil => simp [getFrom, ← hlen]
  | cons t ts ih =>
      rw [List.length_cons] at hlen
      rw [getFrom]
      by_cases h : t = tag
      · have hi : i < values.length := by omega
        rw [if_pos h, val_index_bind hi, h, List.idxOf_cons_self, Nat.add_zero,
          List.getElem?_eq_getElem hi]
        rfl
      · rw [if_neg h, ih (by omega), List.idxOf_cons_ne _ h, Nat.succ_eq_add_one,
          Nat.add_assoc, Nat.add_comm 1]

/-- **A lookup is the first match.** It finds nothing exactly when the tag does not occur. -/
theorem val_get (hlen : m.values.length = m.tags.length) (tag : UInt32) :
    (m.get tag).val = .ok m.values[m.tags.idxOf tag]? := by
  rw [get, val_getFrom (by rw [Nat.zero_add, hlen]), Nat.zero_add]

theorem getElem?_idxOf {tag : UInt32} (h : tag ∈ m.tags) :
    m.tags[m.tags.idxOf tag]? = some tag := by
  rw [List.getElem?_eq_getElem (List.idxOf_lt_length_of_mem h), List.getElem_idxOf]

theorem isMap_iff (hlen : m.values.length = m.tags.length) :
    m.IsMap ↔ ∀ i j : ℕ, i < m.tags.length → j < m.tags.length →
      m.tags[i]? = m.tags[j]? → m.values[i]? = m.values[j]? := by
  constructor
  · intro hmap i j hi hj htags
    have hfound : ∀ k, k < m.tags.length → m.tags[k]? = m.tags[j]? →
        (m.get m.tags[j]).val = .ok m.values[k]? := by
      intro k hk htag
      rw [← hlen] at hk
      rw [List.getElem?_eq_getElem hk]
      exact hmap k _ _ (htag.trans (List.getElem?_eq_getElem hj)) (List.getElem?_eq_getElem hk)
    have heq := (hfound i hi htags).symm.trans (hfound j hj rfl)
    exact Except.ok.inj heq
  · intro hagree i tag value htag hvalue
    obtain ⟨hi, hget⟩ := List.getElem?_eq_some_iff.mp htag
    have hmem : tag ∈ m.tags := hget ▸ List.getElem_mem hi
    rw [val_get hlen, ← hvalue, hagree _ i (List.idxOf_lt_length_of_mem hmem) hi
      ((getElem?_idxOf hmem).trans htag.symm)]

/-- Messages with pairwise distinct tags are maps. -/
theorem isMap_of_nodup (hlen : m.values.length = m.tags.length) (h : m.tags.Nodup) :
    m.IsMap := by
  refine (isMap_iff hlen).mpr fun i j hi hj htags => ?_
  rw [List.getElem?_eq_getElem hi, List.getElem?_eq_getElem hj, Option.some_inj] at htags
  rw [(h.getElem_inj_iff).mp htags]

/-! ## Other tags -/

/-- The bytes of a message with other tags written over its own. -/
def retag (d : Bytes) (tags : List UInt32) : Bytes :=
  d.take (4 * count d) ++ tags.flatMap (fun t => toLE 4 t.toNat) ++ d.drop (8 * count d)

section Retag
variable {tags : List UInt32}

theorem length_tagBytes (tags : List UInt32) :
    (tags.flatMap fun t => toLE 4 t.toNat).length = 4 * tags.length := by
  have h := length_flatMap_toLE 4 (tags.map UInt32.toNat)
  rwa [List.flatMap_map, List.length_map] at h

theorem length_retag (H : Framed d) (hlen : tags.length = count d) :
    (retag d tags).length = d.length := by
  have hheader := H.header
  rw [retag, List.length_append, List.length_append, List.length_take, List.length_drop,
    length_tagBytes, hlen]
  omega

/-- The count and the offsets stay. -/
theorem word_retag (H : Framed d) {i : ℕ} (hi : i < count d) :
    word (retag d tags) i = word d i := by
  have hheader := H.header
  rw [word, word, wordAt, wordAt, retag, List.append_assoc,
    List.drop_append_of_le_length (by rw [List.length_take]; omega),
    List.take_append_of_le_length (by rw [List.length_drop, List.length_take]; omega),
    List.drop_take, List.take_take, Nat.min_eq_left (by omega)]

theorem count_retag (H : Framed d) : count (retag d tags) = count d := word_retag H H.nonempty

theorem word_retag_tag (H : Framed d) {i : ℕ} (hi : i < tags.length) :
    word (retag d tags) (count d + i) = tags[i].toNat := by
  have hheader := H.header
  have hstart : 4 * (count d + i) = (d.take (4 * count d)).length + 4 * i := by
    rw [List.length_take]
    omega
  have hbytes : tags.flatMap (fun t => toLE 4 t.toNat) =
      (tags.map UInt32.toNat).flatMap (toLE 4) := by rw [List.flatMap_map]
  have hword := wordAt_flatMap_toLE (w := 4) (tags.map UInt32.toNat)
    (by simpa using fun t _ => UInt32.toNat_lt t) (d.drop (8 * count d)) (i := i)
    (by simpa using hi)
  rw [word, hstart, retag, List.append_assoc, wordAt_append_right, hbytes, hword,
    List.getElem_map]

theorem offset_retag (H : Framed d) (hlen : tags.length = count d) :
    offset (retag d tags) = offset d := by
  funext i
  simp only [offset, count_retag H, length_retag H hlen]
  by_cases hi : i < count d
  · rw [if_pos hi, if_pos hi, word_retag H hi]
  · rw [if_neg hi, if_neg hi]

theorem framed_retag (H : Framed d) (hlen : tags.length = count d) : Framed (retag d tags) := by
  have hlength := length_retag H hlen
  have hoffset := offset_retag H hlen
  have hcount : count (retag d tags) = count d := count_retag H
  constructor
  · exact hlength ▸ H.four_le
  · exact hcount ▸ H.nonempty
  · rw [hcount, hlength]
    exact H.header
  · rw [hcount, hlength, hoffset]
    exact H.table
  · rw [hcount, hoffset]
    exact H.aligned

theorem message_retag (H : Framed d) (hlen : tags.length = count d) :
    message (retag d tags) = ⟨tags, (message d).values⟩ := by
  have hheader := H.header
  have hcount : count (retag d tags) = count d := count_retag H
  have harea : (retag d tags).drop (8 * count d) = d.drop (8 * count d) := by
    refine List.drop_left' ?_
    rw [List.length_append, List.length_take, length_tagBytes, hlen]
    omega
  have htags : (message (retag d tags)).tags = tags := by
    refine List.ext_getElem (by rw [length_message_tags, hcount, hlen]) fun i hi hi' => ?_
    simp only [message, List.getElem_map, List.getElem_range, hcount]
    rw [word_retag_tag H hi', UInt32.ofNat_toNat]
  have hvalues : (message (retag d tags)).values = (message d).values := by
    simp only [message, hcount, harea, offset_retag H hlen]
  exact RtMessage.ext htags hvalues

end Retag

/-- **The parser does not look at the tags.** -/
theorem parse_retag (h : (parse d).val = .ok (some m)) {tags : List UInt32}
    (hlen : tags.length = m.tags.length) :
    (parse (retag d tags)).val = .ok (some ⟨tags, m.values⟩) := by
  obtain ⟨H, rfl⟩ := parse_eq_some_iff.mp h
  rw [length_message_tags] at hlen
  exact parse_eq_some_iff.mpr ⟨framed_retag H hlen, message_retag H hlen⟩

/-- **What a lookup in an accepted message returns**: the value at the first position of the tag.
So the message is a map exactly when equal tags carry equal values, and nothing in the parser
asks for that. -/
theorem parsed_lookup_first (d : Bytes) (m : RtMessage) (h : (parse d).val = .ok (some m)) :
    (∀ tag, (m.get tag).val = .ok m.values[m.tags.idxOf tag]?) ∧
    (m.IsMap ↔ ∀ i j : ℕ, i < m.tags.length → j < m.tags.length →
      m.tags[i]? = m.tags[j]? → m.values[i]? = m.values[j]?) ∧
    (m.tags.Nodup → m.IsMap) ∧
    ∀ tags : List UInt32, tags.length = m.tags.length →
      (parse (retag d tags)).val = .ok (some ⟨tags, m.values⟩) := by
  obtain ⟨H, rfl⟩ := parse_eq_some_iff.mp h
  have hlen := (wellFormed_message H).same_length
  exact ⟨val_get hlen, isMap_iff hlen, isMap_of_nodup hlen, fun tags => parse_retag h⟩

/-- A delegation, to be looked up and written over. -/
theorem parsed_lookup_first_dele :
    ((message sampleDele).get tagMint).val = .ok (some (toLE 8 500)) ∧
      (parse (retag sampleDele [tagMint, tagMint, tagMint])).val =
        .ok (some ⟨[tagMint, tagMint, tagMint], (message sampleDele).values⟩) :=
  have hparse : (parse sampleDele).val = .ok (some (message sampleDele)) := by decide +kernel
  have h := parsed_lookup_first sampleDele _ hparse
  ⟨(h.1 tagMint).trans (by decide +kernel), h.2.2.2 _ (by decide +kernel)⟩

/-! ## A response with shadowed values -/

/-- A delegation with a second key behind the first. -/
def shadowedDele : Bytes :=
  encode ⟨[tagPubk, tagMint, tagMaxt, tagPubk],
    [List.replicate 32 7, toLE 8 500, toLE 8 2000, List.replicate 32 8]⟩

/-- A certificate with a second delegation. -/
def shadowedCert : Bytes :=
  encode ⟨[tagSig, tagDele, tagDele],
    [sampleRootKey ++ sampleRootKey, shadowedDele, sampleDele]⟩

/-- A signed response with a second midpoint. -/
def shadowedSrep : Bytes :=
  encode ⟨[tagRadi, tagMidp, tagRoot, tagMidp],
    [toLE 4 1, toLE 8 1000, 0x01 :: List.replicate 31 0xaa, toLE 8 1999]⟩

/-- `sampleResponse` with a second value for one tag of each of its messages. -/
def shadowedResponse : Bytes :=
  encode ⟨[tagSig, tagPath, tagSrep, tagCert, tagIndx, tagSrep],
    [List.replicate 64 7, List.replicate 32 0xaa, shadowedSrep, shadowedCert, toLE 4 1, sampleSrep]⟩

/-- The response is accepted at its first midpoint; none of its messages is a map. -/
theorem shadowed_response_accepted :
    (verifyRoughtimeResponse sampleCrypto shadowedResponse ⟨List.replicate 64 0x55, by decide⟩
      "0GD7c3yP8xEc4Zl2zeuN2SlLvDVVocjsPSL8/Rl/7zg=").val = .ok 1000 ∧
    (∀ d ∈ [shadowedDele, shadowedCert, shadowedSrep, shadowedResponse],
      (parse d).val = .ok (some (message d)) ∧ ¬ (message d).IsMap) ∧
    ¬ ∀ (d : Bytes) (m : RtMessage), (parse d).val = .ok (some m) → m.IsMap := by
  have hdele : ¬ (message shadowedDele).IsMap := fun hmap =>
    absurd (hmap 3 tagPubk (List.replicate 32 8) (by decide +kernel) (by decide +kernel))
      (by decide +kernel)
  have hcert : ¬ (message shadowedCert).IsMap := fun hmap =>
    absurd (hmap 2 tagDele sampleDele (by decide +kernel) (by decide +kernel)) (by decide +kernel)
  have hsrep : ¬ (message shadowedSrep).IsMap := fun hmap =>
    absurd (hmap 3 tagMidp (toLE 8 1999) (by decide +kernel) (by decide +kernel))
      (by decide +kernel)
  have hresponse : ¬ (message shadowedResponse).IsMap := fun hmap =>
    absurd (hmap 5 tagSrep sampleSrep (by decide +kernel) (by decide +kernel)) (by decide +kernel)
  have hparse : (parse shadowedDele).val = .ok (some (message shadowedDele)) := by decide +kernel
  refine ⟨by decide +kernel, ?_, fun hall => hdele (hall _ _ hparse)⟩
  simp only [List.mem_cons, List.not_mem_nil, or_false]
  rintro d (rfl | rfl | rfl | rfl)
  · exact ⟨hparse, hdele⟩
  · exact ⟨by decide +kernel, hcert⟩
  · exact ⟨by decide +kernel, hsrep⟩
  · exact ⟨by decide +kernel, hresponse⟩

end RtMessage
end SevMicroLoader.Time
