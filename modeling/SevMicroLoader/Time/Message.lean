import SevMicroLoader.Rust.Checked

/-!
# Roughtime tag-value messages

`RtMessage.parse` reads the count, the offset table (one entry shorter than the tag
table), the tags and the values of a message, and `RtMessage.get` looks a tag up.
`RtMessage.encode` is the format itself. `val_parse` says once what parsing does:
it never panics, it accepts exactly the `Framed` byte strings, and it returns the
`message` they frame. Everything about parsing is derived from that.
-/

namespace SevMicroLoader.Time
open Rust Endian

def tagNonc : UInt32 := 0x434e4f4e
def tagPad : UInt32 := 0xff444150
def tagCert : UInt32 := 0x54524543
def tagSig : UInt32 := 0x00474953
def tagSrep : UInt32 := 0x50455253
def tagDele : UInt32 := 0x454c4544
def tagPubk : UInt32 := 0x4b425550
def tagMint : UInt32 := 0x544e494d
def tagMaxt : UInt32 := 0x5458414d
def tagRoot : UInt32 := 0x544f4f52
def tagMidp : UInt32 := 0x5044494d
def tagRadi : UInt32 := 0x49444152
def tagIndx : UInt32 := 0x58444e49
def tagPath : UInt32 := 0x48544150

/-- A message: its tags, and the value of each. -/
@[ext] structure RtMessage where
  tags : List UInt32
  values : List Bytes
  deriving DecidableEq, Repr

namespace RtMessage

/-! ## The parser -/

/-- The end of value `i`: the next offset, or the end of the value area. -/
def valueEnd (offsets : List ℕ) (numTags valuesLen i : ℕ) : Checked ℕ :=
  if i + 1 < numTags then index offsets (i + 1) else pure valuesLen

/-- One round of the validation loop: in bounds, increasing and multiples of 4. -/
def offsetOk (offsets : List ℕ) (numTags valuesLen i : ℕ) : Checked Bool := do
  let start ← index offsets i
  let stop ← valueEnd offsets numTags valuesLen i
  if start > stop ∨ stop > valuesLen then pure false
  else if start % 4 ≠ 0 ∨ stop % 4 ≠ 0 then pure false
  else pure true

/-- `RtMessage::parse`. -/
def parse (data : Bytes) : Checked (Option RtMessage) :=
  if data.length < 4 then pure none
  else do
    let numTags ← UInt32.toNat <$> u32FromLE data 0
    if numTags = 0 then pure none
    else do
      let headerLen ← mul 8 numTags
      if data.length < headerLen then pure none
      else do
        withCapacity numTags
        let rest ← Metered.collect (numTags - 1) fun i => do
          let idx ← add 4 (← mul i 4)
          UInt32.toNat <$> u32FromLE data idx
        let offsets := 0 :: rest -- the first value starts at offset 0
        withCapacity numTags
        let tagsStart ← add 4 (← mul (numTags - 1) 4)
        let tags ← Metered.collect numTags fun i => do
          let idx ← add tagsStart (← mul i 4)
          u32FromLE data idx
        let valuesStart ← mul 8 numTags
        let valuesLen ← sub data.length valuesStart
        let valuesData ← sliceFrom data valuesStart
        let ok ← Metered.forallLoop numTags (offsetOk offsets numTags valuesLen)
        if !ok then pure none
        else do
          withCapacity numTags
          let values ← Metered.collect numTags fun i => do
            let start ← index offsets i
            let stop ← valueEnd offsets numTags valuesLen i
            slice valuesData start stop
          pure (some ⟨tags, values⟩)

/-- First match in tag order; `i` is the position of the first tag of the list. -/
def getFrom (values : List Bytes) (tag : UInt32) : List UInt32 → ℕ → Checked (Option Bytes)
  | [], _ => pure none
  | t :: ts, i =>
      if t = tag then do
        let v ← index values i
        pure (some v)
      else getFrom values tag ts (i + 1)

/-- The value of the first tag that is `tag`. -/
def get (m : RtMessage) (tag : UInt32) : Checked (Option Bytes) := getFrom m.values tag m.tags 0

/-! ## The format -/

/-- The count, the end offsets of all values but the last, the tags (all
little-endian `u32`), then the values. -/
def encode (m : RtMessage) : Bytes :=
  toLE 4 m.tags.length
    ++ (List.range (m.tags.length - 1)).flatMap
        (fun i => toLE 4 (OffsetTable.endOffset m.values (i + 1)))
    ++ m.tags.flatMap (fun t => toLE 4 t.toNat)
    ++ m.values.flatten

/-- A message the format can carry. -/
structure WellFormed (m : RtMessage) : Prop where
  nonempty : 0 < m.tags.length
  same_length : m.values.length = m.tags.length
  aligned : ∀ v ∈ m.values, v.length % 4 = 0

/-! ## What a byte string frames -/

/-- The header word at index `i`. -/
def word (d : Bytes) (i : ℕ) : ℕ := wordAt 4 d (4 * i)

/-- The number of tags a byte string announces. -/
def count (d : Bytes) : ℕ := word d 0

/-- The offset at which value `i` starts; the last entry ends the value area. -/
def offset (d : Bytes) (i : ℕ) : ℕ :=
  if i = 0 then 0 else if i < count d then word d i else d.length - 8 * count d

/-- The message a framed byte string carries. -/
def message (d : Bytes) : RtMessage where
  tags := (List.range (count d)).map fun i => UInt32.ofNat (word d (count d + i))
  values := OffsetTable.pieces (d.drop (8 * count d)) (offset d) (count d)

/-- The byte strings `parse` accepts. -/
structure Framed (d : Bytes) : Prop where
  four_le : 4 ≤ d.length
  nonempty : 0 < count d
  header : 8 * count d ≤ d.length
  table : OffsetTable.Table (offset d) (count d) (d.length - 8 * count d)
  aligned : ∀ i ≤ count d, offset d i % 4 = 0

/-! ## What parsing does -/

variable {d : Bytes}

theorem word_lt (d : Bytes) (i : ℕ) : word d i < 2 ^ 32 := wordAt_lt 4 d (4 * i)

@[simp] theorem offset_zero (d : Bytes) : offset d 0 = 0 := rfl

theorem offset_of_lt {i : ℕ} (h0 : i ≠ 0) (h : i < count d) : offset d i = word d i := by
  simp [offset, h0, h]

theorem offset_count (h : 0 < count d) : offset d (count d) = d.length - 8 * count d := by
  simp [offset, h.ne']

/-- Reading the `u32` at header index `i` of a string that holds it. -/
theorem val_word {i : ℕ} (h : 4 * i + 4 ≤ d.length) :
    (u32FromLE d (4 * i)).val = .ok (UInt32.ofNat (word d i)) := val_u32FromLE h

theorem toNat_ofNat_word (d : Bytes) (i : ℕ) : (UInt32.ofNat (word d i)).toNat = word d i :=
  UInt32.toNat_ofNat_of_lt' (word_lt d i)

/-- The offsets the parser collects, with the leading zero. -/
theorem offsets_eq (h : 0 < count d) :
    0 :: (List.range (count d - 1)).map (fun i => word d (i + 1)) =
      (List.range (count d)).map (offset d) := by
  have hcount : count d = count d - 1 + 1 := by omega
  conv_rhs => rw [hcount, List.range_succ_eq_map, List.map_cons, List.map_map]
  rw [offset_zero]
  congr 1
  refine List.map_congr_left fun i hi => ?_
  have hlt : i < count d - 1 := List.mem_range.mp hi
  exact (offset_of_lt (by omega) (by omega)).symm

section Loops
variable (d) in
/-- The offset table as the parser holds it. -/
private def offsetList : List ℕ := (List.range (count d)).map (offset d)

private theorem val_index_offsetList {i : ℕ} (h : i < count d) :
    (index (offsetList d) i).val = .ok (offset d i) := by
  rw [val_index (by simpa [offsetList] using h)]
  simp [offsetList]

private theorem val_valueEnd {i : ℕ} (h : i < count d) :
    (valueEnd (offsetList d) (count d) (d.length - 8 * count d) i).val =
      .ok (offset d (i + 1)) := by
  unfold valueEnd
  by_cases hi : i + 1 < count d
  · rw [if_pos hi, val_index_offsetList hi]
  · have hlast : i + 1 = count d := by omega
    rw [if_neg hi, hlast, offset_count (by omega)]
    rfl

private theorem val_offsetOk {i : ℕ} (h : i < count d) :
    (offsetOk (offsetList d) (count d) (d.length - 8 * count d) i).val =
      .ok (decide ((offset d i ≤ offset d (i + 1) ∧ offset d (i + 1) ≤ d.length - 8 * count d) ∧
        offset d i % 4 = 0 ∧ offset d (i + 1) % 4 = 0)) := by
  rw [offsetOk, Metered.val_bind_of_ok (val_index_offsetList h),
    Metered.val_bind_of_ok (val_valueEnd h)]
  split_ifs with hrange halign
  · simp; omega
  · simp; omega
  · simp; omega

/-- The tests of the validation loop together say that the offsets form a table. -/
private theorem offsets_valid_iff (h : 0 < count d) :
    (∀ i < count d, (offset d i ≤ offset d (i + 1) ∧
        offset d (i + 1) ≤ d.length - 8 * count d) ∧
        offset d i % 4 = 0 ∧ offset d (i + 1) % 4 = 0) ↔
      OffsetTable.Table (offset d) (count d) (d.length - 8 * count d) ∧
        ∀ i ≤ count d, offset d i % 4 = 0 := by
  constructor
  · intro hall
    refine ⟨⟨offset_zero d, fun i hi => (hall i hi).1.1, offset_count h⟩, fun i hi => ?_⟩
    cases i with
    | zero => rfl
    | succ i => exact (hall i (by omega)).2.2
  · rintro ⟨H, halign⟩ i hi
    exact ⟨⟨H.step i hi, H.le_last hi⟩, halign i (by omega), halign (i + 1) hi⟩

end Loops

/-- Parsing never panics: it accepts the framed byte strings, returns what they
frame, and answers `None` on every other byte string. -/
theorem val_parse (d : Bytes) [Decidable (Framed d)] :
    (parse d).val = .ok (if Framed d then some (message d) else none) := by
  unfold parse
  by_cases h4 : d.length < 4
  · have hnot : ¬ Framed d := fun H => by have := H.four_le; omega
    rw [if_pos h4, if_neg hnot]
    rfl
  rw [if_neg h4, Metered.val_bind_of_ok
    (Metered.val_map_of_ok (val_word (d := d) (i := 0) (by omega)) UInt32.toNat),
    toNat_ofNat_word, show word d 0 = count d from rfl]
  by_cases h0 : count d = 0
  · have hnot : ¬ Framed d := fun H => by have := H.nonempty; omega
    rw [if_pos h0, if_neg hnot]
    rfl
  have hpos : 0 < count d := Nat.pos_of_ne_zero h0
  rw [if_neg h0, val_mul_bind]
  by_cases hlen : d.length < 8 * count d
  · have hnot : ¬ Framed d := fun H => by have := H.header; omega
    rw [if_pos hlen, if_neg hnot]
    rfl
  have hoffsets : ∀ i < count d - 1,
      (do let idx ← add 4 (← mul i 4); UInt32.toNat <$> u32FromLE d idx : Checked ℕ).val =
        .ok (word d (i + 1)) := by
    intro i hi
    have hidx : 4 + i * 4 = 4 * (i + 1) := by omega
    rw [val_mul_bind, val_add_bind, hidx,
      Metered.val_map_of_ok (val_word (by omega)), toNat_ofNat_word]
  have htags : ∀ i < count d,
      (do let idx ← add (4 + (count d - 1) * 4) (← mul i 4); u32FromLE d idx :
        Checked UInt32).val = .ok (UInt32.ofNat (word d (count d + i))) := by
    intro i hi
    have hidx : 4 + (count d - 1) * 4 + i * 4 = 4 * (count d + i) := by omega
    rw [val_mul_bind, val_add_bind, hidx, val_word (by omega)]
  rw [if_neg hlen, val_withCapacity_bind, Metered.val_bind_of_ok (Metered.val_collect hoffsets),
    val_withCapacity_bind, val_mul_bind, val_add_bind,
    Metered.val_bind_of_ok (Metered.val_collect htags), val_mul_bind,
    Metered.val_bind_of_ok (val_sub (by omega)),
    Metered.val_bind_of_ok (val_sliceFrom (by omega)), offsets_eq hpos]
  rw [show (List.range (count d)).map (offset d) = offsetList d from rfl,
    Metered.val_bind_of_ok (Metered.val_forallLoop fun i hi => val_offsetOk hi)]
  by_cases hvalid : ∀ i < count d, (offset d i ≤ offset d (i + 1) ∧
      offset d (i + 1) ≤ d.length - 8 * count d) ∧ offset d i % 4 = 0 ∧ offset d (i + 1) % 4 = 0
  · obtain ⟨htable, halign⟩ := (offsets_valid_iff hpos).mp hvalid
    have hframed : Framed d := ⟨by omega, hpos, by omega, htable, halign⟩
    have hvalues : ∀ i < count d,
        (do
          let start ← index (offsetList d) i
          let stop ← valueEnd (offsetList d) (count d) (d.length - 8 * count d) i
          slice (d.drop (8 * count d)) start stop).val =
          .ok (OffsetTable.piece (d.drop (8 * count d)) (offset d i) (offset d (i + 1))) := by
      intro i hi
      rw [Metered.val_bind_of_ok (val_index_offsetList hi),
        Metered.val_bind_of_ok (val_valueEnd hi)]
      exact val_slice (htable.step i hi) (by simpa using htable.le_last hi)
    rw [decide_eq_true hvalid, if_pos hframed]
    simp only [Bool.not_true, Bool.false_eq_true, if_false, val_withCapacity_bind]
    rw [Metered.val_bind_of_ok (Metered.val_collect hvalues)]
    rfl
  · have hnot : ¬ Framed d := fun H =>
      hvalid ((offsets_valid_iff hpos).mpr ⟨H.table, H.aligned⟩)
    rw [decide_eq_false hvalid, if_neg hnot]
    rfl

theorem parse_eq_some_iff {m : RtMessage} :
    (parse d).val = .ok (some m) ↔ Framed d ∧ message d = m := by
  classical
  rw [val_parse]
  by_cases H : Framed d <;> simp [H]

/-! ## Encoding what was parsed -/

/-- The words of a message's header: the count, the end offsets and the tags. -/
def headerWords (m : RtMessage) : List ℕ :=
  m.tags.length :: ((List.range (m.tags.length - 1)).map
      (fun i => OffsetTable.endOffset m.values (i + 1)) ++ m.tags.map UInt32.toNat)

theorem encode_eq (m : RtMessage) :
    m.encode = m.headerWords.flatMap (toLE 4) ++ m.values.flatten := by
  simp [encode, headerWords, List.flatMap_map, List.flatMap_append]

theorem length_headerWords {m : RtMessage} (h : 0 < m.tags.length) :
    m.headerWords.length = 2 * m.tags.length := by
  simp [headerWords]
  omega

theorem length_encode {m : RtMessage} (h : 0 < m.tags.length) :
    m.encode.length = 8 * m.tags.length + m.values.flatten.length := by
  rw [encode_eq, List.length_append, length_flatMap_toLE, length_headerWords h]
  omega

@[simp] theorem length_message_tags (d : Bytes) : (message d).tags.length = count d := by
  simp [message]

@[simp] theorem length_message_values (d : Bytes) : (message d).values.length = count d := by
  simp [message]

/-- The header words of a framed string, in the order of the format. -/
theorem headerWords_message (H : Framed d) :
    (message d).headerWords = (List.range (2 * count d)).map (word d) := by
  have hpos := H.nonempty
  have hcut : 2 * count d = 1 + ((count d - 1) + count d) := by omega
  have hends : (List.range (count d - 1)).map
        (fun i => OffsetTable.endOffset (message d).values (i + 1)) =
      (List.range (count d - 1)).map (fun i => word d (1 + i)) := by
    refine List.map_congr_left fun i hi => ?_
    have hlt : i < count d - 1 := List.mem_range.mp hi
    have htable : OffsetTable.Table (offset d) (count d) (d.drop (8 * count d)).length := by
      simpa using H.table
    rw [message, OffsetTable.endOffset_pieces htable (by omega),
      offset_of_lt (by omega) (by omega), Nat.add_comm]
  have htags : (message d).tags.map UInt32.toNat =
      (List.range (count d)).map (fun i => word d (count d + i)) := by
    rw [message, List.map_map]
    exact List.map_congr_left fun i _ => toNat_ofNat_word d (count d + i)
  rw [headerWords, length_message_tags, hends, htags, hcut, List.range_add, List.range_add]
  simp only [List.map_append, List.map_map, List.range_one, List.map_cons,
    List.singleton_append]
  congr 2
  refine List.map_congr_left fun i _ => ?_
  simp only [Function.comp_apply]
  congr 1
  omega

/-- Re-encoding a parsed message gives the bytes it was parsed from. -/
theorem encode_message (H : Framed d) : (message d).encode = d := by
  have htable : OffsetTable.Table (offset d) (count d) (d.drop (8 * count d)).length := by
    simpa using H.table
  have hheader : (List.range (2 * count d)).flatMap (fun i => toLE 4 (word d i)) =
      d.take (8 * count d) := by
    have h : (List.range (2 * count d)).flatMap (fun i => toLE 4 (wordAt 4 d (4 * i))) =
        d.take (4 * (2 * count d)) := flatMap_toLE_wordAt (by have := H.header; omega)
    rw [show 4 * (2 * count d) = 8 * count d by omega] at h
    exact h
  rw [encode_eq, headerWords_message H, List.flatMap_map, hheader, message,
    OffsetTable.flatten_pieces htable, List.take_append_drop]

theorem wellFormed_message (H : Framed d) : (message d).WellFormed where
  nonempty := by simpa using H.nonempty
  same_length := by simp
  aligned := by
    intro v hv
    obtain ⟨i, hi, rfl⟩ := List.mem_map.mp hv
    have hlt : i < count d := List.mem_range.mp hi
    have hend : offset d (i + 1) ≤ (d.drop (8 * count d)).length := by
      simpa using H.table.le_last hlt
    rw [OffsetTable.length_piece hend]
    have h0 := H.aligned i hlt.le
    have h1 := H.aligned (i + 1) hlt
    have hstep := H.table.step i hlt
    omega

/-! ## Parsing what was encoded -/

variable {m : RtMessage}

/-- The end offsets of a message stay inside its value area. -/
theorem endOffset_le (W : m.WellFormed) {i : ℕ} (hi : i ≤ m.tags.length) :
    OffsetTable.endOffset m.values i ≤ m.values.flatten.length :=
  (OffsetTable.table_endOffset m.values).le_last (by rw [W.same_length]; exact hi)

theorem headerWords_lt (W : m.WellFormed) (hlen : m.encode.length < 2 ^ 32) :
    ∀ n ∈ m.headerWords, n < 256 ^ 4 := by
  have hsize := length_encode W.nonempty
  intro n hn
  simp only [headerWords, List.mem_cons, List.mem_append, List.mem_map, List.mem_range] at hn
  rcases hn with rfl | ⟨i, hi, rfl⟩ | ⟨t, -, rfl⟩
  · omega
  · have hle := endOffset_le W (i := i + 1) (by omega)
    omega
  · exact t.toNat_lt

/-- The header word a parser reads from an encoded message is the word written. -/
theorem word_encode (W : m.WellFormed) (hlen : m.encode.length < 2 ^ 32) {i : ℕ}
    (hi : i < m.headerWords.length) : word m.encode i = m.headerWords[i] := by
  rw [word, encode_eq]
  exact wordAt_flatMap_toLE _ (headerWords_lt W hlen) _ hi

theorem count_encode (W : m.WellFormed) (hlen : m.encode.length < 2 ^ 32) :
    count m.encode = m.tags.length := word_encode W hlen (i := 0) (by simp [headerWords])

theorem offset_encode (W : m.WellFormed) (hlen : m.encode.length < 2 ^ 32) {i : ℕ}
    (hi : i ≤ m.tags.length) : offset m.encode i = OffsetTable.endOffset m.values i := by
  have hcount := count_encode W hlen
  have hsize := length_encode W.nonempty
  rcases Nat.eq_or_lt_of_le hi with rfl | hlt
  · rw [← hcount, offset_count (by rw [hcount]; exact W.nonempty), hcount, ← W.same_length,
      OffsetTable.endOffset_length, W.same_length]
    omega
  cases i with
  | zero => simp
  | succ i =>
      have hword : i + 1 < m.headerWords.length := by rw [length_headerWords W.nonempty]; omega
      rw [offset_of_lt (by omega) (by omega), word_encode W hlen hword]
      have hi' : i < m.tags.length - 1 := by omega
      simp [headerWords, hi']

theorem framed_encode (W : m.WellFormed) (hlen : m.encode.length < 2 ^ 32) :
    Framed m.encode := by
  have hcount := count_encode W hlen
  have hsize := length_encode W.nonempty
  have hpos := W.nonempty
  have hoff : ∀ i ≤ m.tags.length, offset m.encode i = OffsetTable.endOffset m.values i :=
    fun i hi => offset_encode W hlen hi
  have T := OffsetTable.table_endOffset m.values
  refine ⟨by omega, by omega, by omega, ⟨rfl, ?_, ?_⟩, ?_⟩
  · intro i hi
    rw [hcount] at hi
    rw [hoff i hi.le, hoff (i + 1) hi]
    exact T.step i (by rw [W.same_length]; exact hi)
  · exact offset_count (by omega)
  · rw [hcount]
    intro i hi
    rw [hoff i hi]
    -- a sum of aligned lengths is aligned
    induction i with
    | zero => simp
    | succ i ih =>
        have hi' : i < m.values.length := by rw [W.same_length]; exact hi
        have halign := W.aligned _ (List.getElem_mem hi')
        have hprev := ih (by omega)
        rw [OffsetTable.endOffset_succ hi']
        omega

/-- Parsing an encoded message gives the message back. -/
theorem message_encode (W : m.WellFormed) (hlen : m.encode.length < 2 ^ 32) :
    message m.encode = m := by
  have hcount := count_encode W hlen
  have htags : (message m.encode).tags = m.tags := by
    refine List.ext_getElem (by simp [hcount]) fun i hi hi' => ?_
    have hword : m.tags.length + i < m.headerWords.length := by
      rw [length_headerWords W.nonempty]; omega
    have hget : m.headerWords[m.tags.length + i] = m.tags[i].toNat := by
      have hshift : m.tags.length + i = m.tags.length - 1 + i + 1 := by
        have := W.nonempty; omega
      simp [headerWords, hshift]
    simp only [message, List.getElem_map, List.getElem_range, hcount]
    rw [word_encode W hlen hword, hget, UInt32.ofNat_toNat]
  have hvalues : (message m.encode).values = m.values := by
    have harea : m.encode.drop (8 * count m.encode) = m.values.flatten := by
      rw [hcount, encode_eq]
      refine List.drop_left' ?_
      rw [length_flatMap_toLE, length_headerWords W.nonempty]
      omega
    have hcut := OffsetTable.pieces_endOffset m.values
    rw [W.same_length] at hcut
    rw [message, harea, hcount, OffsetTable.pieces_congr fun i hi => offset_encode W hlen hi, hcut]
  exact RtMessage.ext htags hvalues

/-- On strings below `2 ^ 32` bytes, the parser is exactly the decoder of the format. -/
theorem parse_eq_some_iff_encode (hlen : d.length < 2 ^ 32) :
    (parse d).val = .ok (some m) ↔ m.WellFormed ∧ m.encode = d := by
  rw [parse_eq_some_iff]
  constructor
  · rintro ⟨H, rfl⟩
    exact ⟨wellFormed_message H, encode_message H⟩
  · rintro ⟨W, rfl⟩
    exact ⟨framed_encode W hlen, message_encode W hlen⟩

end RtMessage

end SevMicroLoader.Time
