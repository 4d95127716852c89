import SevMicroLoader.Dns.Alignment

/-!
# Which replies are read right

A reply is read right when its answers stay in step up to the first address (`InStep`). For a
question and a list of owner names and TYPEs, every reply of that shape is read right exactly
when the shape keeps step (`KeepsStep`): only the last answer may misalign, and only with a
TYPE above 1. The other shapes have a reply, the trap, that the parser reads wrong.
-/

namespace SevMicroLoader.Dns
open Rust Endian

variable {data rest : Bytes} {o n : ℕ} {r : Record}

/-! ## Answers in step -/

/-- The walk reads every answer up to the first address in step; a last answer without an
address may be out of step unless its TYPE is 0. -/
def InStep : List Record → Prop
  | [] => True
  | r :: rs =>
      (¬ Misaligns r.owner r.type ∧ (r.address? = none → InStep rs)) ∨
        (rs = [] ∧ r.address? = none ∧ r.type ≠ 0)

theorem length_encode_pos (r : Record) : 11 ≤ r.encode.length := by
  have h := length_owner_pos r.owner
  rw [length_encode_record]
  omega

theorem address_of_nil (h : r.rdata.length = 0) : r.address? = none := by
  rw [Record.address?, dif_neg]
  rintro ⟨-, h4⟩
  omega

theorem type_eq_one_iff (a b : UInt8) : UInt16.ofNat (ofBE [a, b]) = 1 ↔ a = 0 ∧ b = 1 := by
  have ha := a.toNat_lt
  have hb := b.toNat_lt
  rw [← UInt16.toNat_inj, ← UInt8.toNat_inj, ← UInt8.toNat_inj, UInt16.toNat_ofNat']
  simp only [ofBE, List.reverse_cons, List.reverse_nil, List.nil_append, List.cons_append,
    ofLE_cons, ofLE_nil, UInt16.toNat_one, UInt8.toNat_zero, UInt8.toNat_one]
  omega

/-- Out of step, no TYPE but 0 can look like an address. -/
theorem val_answerLoop_last (h : data.drop o = r.encode ++ rest)
    (hmis : Misaligns r.owner r.type) (htype : r.type ≠ 0) :
    (answerLoop data 1 o).val = .ok none := by
  cases hnext : r.rdata ++ rest with
  | nil =>
      have howner := val_skipOwner_record h
      rw [if_pos hmis] at howner
      have hlen := drop_length h
      obtain ⟨hr, hrest⟩ := List.append_eq_nil_iff.mp hnext
      rw [hr, hrest, List.length_nil] at hlen
      exact val_answerLoop_break howner (by omega)
  | cons c tail =>
      have hne : UInt8.ofNat r.type.toNat ≠ 0 := by
        intro hzero
        apply htype
        have hlt := hmis.2
        have hnat := congrArg UInt8.toNat hzero
        rw [UInt8.toNat_ofNat', UInt8.toNat_zero] at hnat
        apply UInt16.toNat_inj.mp
        rw [UInt16.toNat_zero]
        omega
      rw [val_answerLoop_misaligned h hmis hnext, if_neg]
      · rfl
      · rintro ⟨hone, -⟩
        exact hne ((type_eq_one_iff _ _).mp hone).1

/-- **Answers in step are read right**, from any offset and before any trailing bytes. -/
theorem val_answerLoop_inStep (rs : List Record)
    (h : data.drop o = rs.flatMap Record.encode ++ rest) (hstep : InStep rs) :
    (answerLoop data rs.length o).val = .ok (firstAddress rs) := by
  induction rs generalizing o with
  | nil => rfl
  | cons r rs ih =>
      rw [List.flatMap_cons, List.append_assoc] at h
      by_cases hmis : Misaligns r.owner r.type
      · obtain ⟨haligned, -⟩ | ⟨rfl, hnone, htype⟩ := hstep
        · exact absurd hmis haligned
        · rw [firstAddress, List.findSome?_cons, hnone]
          exact val_answerLoop_last h hmis htype
      · have htail : r.address? = none → InStep rs := by
          obtain ⟨-, htail⟩ | ⟨rfl, -, -⟩ := hstep
          · exact htail
          · exact fun _ => trivial
        by_cases hfit : 12 ≤ r.encode.length + (rs.flatMap Record.encode ++ rest).length
        · rw [List.length_cons, val_answerLoop_aligned h hmis hfit, firstAddress,
            List.findSome?_cons]
          cases haddr : r.address? with
          | some ip => rfl
          | none => exact ih (drop_record h) (htail haddr)
        · -- eleven bytes: the root name, no rdata, and nothing behind it
          have hlen := drop_length h
          have hrec := length_encode_record r
          have hpos := length_owner_pos r.owner
          cases rs with
          | nil =>
              rw [firstAddress, List.findSome?_cons, address_of_nil (by omega)]
              exact val_answerLoop_short (by omega)
          | cons r' rs' =>
              have hmin' := length_encode_pos r'
              rw [List.flatMap_cons, List.append_assoc, List.length_append] at hfit
              omega

/-! ## From the header to the answers -/

/-- Parsing a reply walks over its answers. -/
theorem val_parse_encode (R : Reply) :
    ∃ o, R.encode.drop o = R.answers.flatMap Record.encode ++ R.trailing ∧
      (parseDnsResponse R.encode).val = (answerLoop R.encode R.answers.length o).val := by
  have hlead := R.lead.property
  have hcounts := R.counts.property
  have hqend := R.questionEnd.property
  have hcount : R.encode.drop 6 = toBE 2 R.answers.length ++ (R.counts.val ++
      (encodeLabels R.question ++ [0] ++ (R.questionEnd.val ++
        (R.answers.flatMap Record.encode ++ R.trailing)))) := by
    have hcut : R.encode = (R.lead.val ++ toBE 2 1) ++ (toBE 2 R.answers.length ++ (R.counts.val ++
        (encodeLabels R.question ++ [0] ++ (R.questionEnd.val ++
          (R.answers.flatMap Record.encode ++ R.trailing))))) := by
      simp only [Reply.encode, List.append_assoc]
    rw [hcut]
    refine List.drop_left' ?_
    rw [List.length_append, hlead, length_toBE]
  have hquestion : R.encode.drop 12 = encodeLabels R.question ++ [0] ++ (R.questionEnd.val ++
      (R.answers.flatMap Record.encode ++ R.trailing)) := by
    rw [← List.append_assoc] at hcount
    have hnext := drop_add_of_drop hcount
    rwa [List.length_append, length_toBE, hcounts] at hnext
  have hanswers : R.encode.drop (12 + (encodeLabels R.question).length + 1 + 4) =
      R.answers.flatMap Record.encode ++ R.trailing := by
    rw [← List.append_assoc] at hquestion
    have hnext := drop_add_of_drop hquestion
    rw [List.length_append, List.length_append, List.length_singleton, hqend] at hnext
    exact hnext
  refine ⟨_, hanswers, ?_⟩
  have hlen : 12 < R.encode.length := by
    have hlt := lt_of_drop hquestion (i := 0) (by simp)
    omega
  rw [parseDnsResponse, if_neg (by omega),
    Metered.val_bind_of_ok (Metered.val_map_of_ok (val_u16FromBE_toBE hcount R.length_lt) _),
    Metered.val_bind_of_ok (val_skipName_labels R.question hquestion), val_add_bind,
    UInt16.toNat_ofNat_of_lt' R.length_lt]

theorem parse_of_inStep (R : Reply) (h : InStep R.answers) :
    (parseDnsResponse R.encode).val = .ok (firstAddress R.answers) := by
  obtain ⟨o, hdrop, hparse⟩ := val_parse_encode R
  rw [hparse, val_answerLoop_inStep R.answers hdrop h]

/-! ## Shapes, and the traps for those that do not keep step -/

/-- The owner name and the TYPE of a record. -/
abbrev Shape := OwnerName × UInt16

def Record.shape (r : Record) : Shape := (r.owner, r.type)

/-- Only the last answer misaligns, if any, and only with a TYPE above 1. -/
def KeepsStep (shapes : List Shape) : Prop :=
  (∀ x ∈ shapes.dropLast, ¬ Misaligns x.1 x.2) ∧
    ∀ x ∈ shapes.getLast?, Misaligns x.1 x.2 → 1 < x.2.toNat

theorem keepsStep_cons_cons (x y : Shape) (shapes : List Shape) :
    KeepsStep (x :: y :: shapes) ↔ ¬ Misaligns x.1 x.2 ∧ KeepsStep (y :: shapes) := by
  simp only [KeepsStep, List.dropLast_cons_cons, List.getLast?_cons_cons, List.forall_mem_cons,
    and_assoc]

theorem keepsStep_singleton (x : Shape) :
    KeepsStep [x] ↔ (Misaligns x.1 x.2 → 1 < x.2.toNat) := by
  simp [KeepsStep]

/-- A shape that keeps step keeps every reply of that shape in step. -/
theorem inStep_of_keepsStep (rs : List Record) (h : KeepsStep (rs.map Record.shape)) :
    InStep rs := by
  induction rs with
  | nil => trivial
  | cons r rs ih =>
      cases rs with
      | nil =>
          by_cases hmis : Misaligns r.owner r.type
          · have htype : 1 < r.type.toNat := (keepsStep_singleton _).mp h hmis
            refine .inr ⟨rfl, ?_, ?_⟩
            · rw [Record.address?, dif_neg]
              rintro ⟨hone, -⟩
              simp [hone] at htype
            · intro hzero
              simp [hzero] at htype
          · exact .inl ⟨hmis, fun _ => trivial⟩
      | cons r' rs =>
          obtain ⟨haligned, htail⟩ := (keepsStep_cons_cons _ _ _).mp h
          exact .inl ⟨haligned, fun _ => ih htail⟩

/-- A record of a shape with no rdata, which answers nothing. -/
def plain (x : Shape) : Record := ⟨x.1, x.2, 0, 0, [], by decide⟩

/-- An address record for `1.2.3.4`, owned by a pointer to the question. -/
def bait : Record := ⟨.pointer ⟨0xc0, 0x0c, by decide⟩, 1, 1, 0, [1, 2, 3, 4], by decide⟩

theorem length_encode_bait : bait.encode.length = 16 := by decide

/-- A record without an address whose rdata, read one byte late, starts with the bait. -/
def baitTrap (x : Shape) : Record where
  owner := x.1
  type := x.2
  cls := 0
  ttl := 0
  rdata := 0 :: bait.encode ++ List.replicate 239 0
  length_lt := by
    rw [List.length_append, List.length_cons, length_encode_bait, List.length_replicate]
    decide

/-- A record of TYPE 0 that, read one byte late, is an address record. -/
def typeTrap (owner : OwnerName) : Record where
  owner := owner
  type := 0
  cls := 0x0100
  ttl := 0
  rdata := [4, 1, 2, 3, 4] ++ List.replicate 251 0
  length_lt := by
    rw [List.length_append, List.length_replicate]
    decide

/-- An address record that misaligns. -/
def addressTrap (owner : OwnerName) : Record := ⟨owner, 1, 0, 0, [1, 2, 3, 4], by decide⟩

theorem length_rdata_baitTrap (x : Shape) : (baitTrap x).rdata.length = 256 := by
  rw [baitTrap, List.length_append, List.length_cons, length_encode_bait, List.length_replicate]

theorem length_rdata_typeTrap (owner : OwnerName) : (typeTrap owner).rdata.length = 256 := by
  rw [typeTrap, List.length_append, List.length_replicate]
  rfl

/-- Out of step, the walk takes the bait. -/
theorem val_answerLoop_baitTrap {x : Shape} (hmis : Misaligns x.1 x.2)
    (h : data.drop o = (baitTrap x).encode ++ rest) :
    (answerLoop data (n + 2) o).val = .ok (some (.v4 ⟨[1, 2, 3, 4], rfl⟩)) := by
  have hdrop := drop_fixed h
  have hbait : data.drop (o + x.1.encode.length + 11) =
      bait.encode ++ (List.replicate 239 0 ++ rest) := by
    rw [← List.append_assoc]
    exact drop_succ_of_drop hdrop
  have hnext : (baitTrap x).rdata ++ rest =
      0 :: (bait.encode ++ List.replicate 239 0 ++ rest) := rfl
  rw [val_answerLoop_misaligned h hmis hnext, length_rdata_baitTrap, if_neg]
  · have hzero : (UInt16.ofNat (ofBE [UInt8.ofNat 256, 0])).toNat = 0 := by decide
    have haddr : bait.address? = some (.v4 ⟨[1, 2, 3, 4], rfl⟩) := by decide
    rw [hzero, Nat.add_zero]
    refine (val_answerLoop_aligned hbait (fun hb => hb.1) ?_).trans ?_
    · rw [length_encode_bait]
      omega
    · rw [haddr]
  · rintro ⟨-, hfour, -⟩
    exact absurd hfour (by decide)

/-- Out of step, a TYPE of 0 and the byte behind it read as an address. -/
theorem val_answerLoop_typeTrap {owner : OwnerName} (hmis : Misaligns owner 0)
    (h : data.drop o = (typeTrap owner).encode ++ rest) :
    (answerLoop data (n + 1) o).val = .ok (some (.v4 ⟨[1, 2, 3, 4], rfl⟩)) := by
  have haddr : data.drop (o + owner.encode.length + 11) =
      1 :: 2 :: 3 :: 4 :: (List.replicate 251 0 ++ rest) :=
    drop_succ_of_drop (drop_fixed h)
  have hnext : (typeTrap owner).rdata ++ rest =
      4 :: ([1, 2, 3, 4] ++ List.replicate 251 0 ++ rest) := rfl
  rw [val_answerLoop_misaligned h hmis hnext, length_rdata_typeTrap, if_pos]
  · exact Metered.val_map_of_ok (val_readAddress_of_drop haddr) _
  · have hcls : (typeTrap owner).cls = 0x0100 := rfl
    refine ⟨(type_eq_one_iff _ _).mpr ⟨rfl, by rw [hcls]; decide⟩, by decide, ?_⟩
    simp only [List.length_append, List.length_cons]
    omega

theorem firstAddress_plain (shapes : List Shape) : firstAddress (shapes.map plain) = none := by
  rw [firstAddress, List.findSome?_eq_none_iff]
  intro r hr
  obtain ⟨x, -, rfl⟩ := List.mem_map.mp hr
  exact address_of_nil rfl

theorem map_shape_plain (shapes : List Shape) : (shapes.map plain).map Record.shape = shapes := by
  rw [List.map_map]
  exact List.map_id' shapes

theorem address_baitTrap (x : Shape) : (baitTrap x).address? = none := by
  refine dif_neg fun hall => ?_
  rw [length_rdata_baitTrap] at hall
  omega

theorem address_typeTrap (owner : OwnerName) : (typeTrap owner).address? = none :=
  dif_neg fun hall => absurd hall.1 (show (0 : UInt16) ≠ 1 by decide)

/-- Wherever these answers stand before `rest`, the walk over them gives something else than their
first address. -/
def ReadWrong (rest : Bytes) (rs : List Record) : Prop :=
  ∀ (data : Bytes) (o : ℕ), data.drop o = rs.flatMap Record.encode ++ rest →
    (answerLoop data rs.length o).val ≠ .ok (firstAddress rs)

theorem readWrong_typeTrap {owner : OwnerName} (hmis : Misaligns owner 0) :
    ReadWrong rest [typeTrap owner] := by
  intro data o hdrop
  rw [List.flatMap_singleton] at hdrop
  rw [List.length_singleton, val_answerLoop_typeTrap hmis hdrop, firstAddress,
    List.findSome?_cons, address_typeTrap]
  simp

theorem readWrong_addressTrap {owner : OwnerName} (hmis : Misaligns owner 1) :
    ReadWrong rest [addressTrap owner] := by
  intro data o hdrop
  rw [List.flatMap_singleton] at hdrop
  have hone : (addressTrap owner).type ≠ 0 := show (1 : UInt16) ≠ 0 by decide
  rw [List.length_singleton, val_answerLoop_last hdrop hmis hone, firstAddress,
    List.findSome?_cons]
  simp [addressTrap, Record.address?]

theorem readWrong_baitTrap {x y : Shape} (hmis : Misaligns x.1 x.2) (shapes : List Shape) :
    ReadWrong rest (baitTrap x :: (y :: shapes).map plain) := by
  intro data o hdrop
  rw [List.flatMap_cons, List.append_assoc] at hdrop
  have hfirst : firstAddress (baitTrap x :: (y :: shapes).map plain) = none := by
    rw [firstAddress, List.findSome?_cons, address_baitTrap]
    exact firstAddress_plain (y :: shapes)
  rw [hfirst, List.length_cons, List.length_map, List.length_cons,
    val_answerLoop_baitTrap hmis hdrop]
  simp

/-- An empty answer in step passes the rest on. -/
theorem ReadWrong.plain_cons {x : Shape} (hmis : ¬ Misaligns x.1 x.2) {rs : List Record}
    (hne : rs ≠ []) (hwrong : ReadWrong rest rs) : ReadWrong rest (plain x :: rs) := by
  intro data o hdrop
  rw [List.flatMap_cons, List.append_assoc] at hdrop
  have hnone : (plain x).address? = none := address_of_nil rfl
  have hfit : 12 ≤ (plain x).encode.length + (rs.flatMap Record.encode ++ rest).length := by
    have hmin := length_encode_pos (plain x)
    cases rs with
    | nil => exact absurd rfl hne
    | cons r rs =>
        have hmin' := length_encode_pos r
        rw [List.flatMap_cons, List.append_assoc, List.length_append]
        omega
  rw [List.length_cons, val_answerLoop_aligned hdrop hmis hfit, hnone, firstAddress,
    List.findSome?_cons, hnone]
  exact hwrong data _ (drop_record hdrop)

/-- **A shape that does not keep step has answers that are read wrong.** The answers before the
first that misaligns are made empty; that one is the trap. -/
theorem exists_wrong (rest : Bytes) (shapes : List Shape) (h : ¬ KeepsStep shapes) :
    ∃ rs : List Record, rs.map Record.shape = shapes ∧ ReadWrong rest rs := by
  induction shapes with
  | nil => exact absurd (by simp [KeepsStep]) h
  | cons x shapes ih =>
      obtain ⟨owner, type⟩ := x
      cases shapes with
      | nil =>
          rw [keepsStep_singleton] at h
          obtain ⟨hmis, htype⟩ := Classical.not_imp.mp h
          have hle : type.toNat ≤ 1 := Nat.not_lt.mp htype
          by_cases hzero : type = 0
          · subst hzero
            exact ⟨[typeTrap owner], rfl, readWrong_typeTrap hmis⟩
          · have hone : type = 1 := by
              rw [← UInt16.toNat_inj] at hzero ⊢
              simp only [UInt16.toNat_zero, UInt16.toNat_one] at hzero ⊢
              omega
            subst hone
            exact ⟨[addressTrap owner], rfl, readWrong_addressTrap hmis⟩
      | cons y ys =>
          by_cases hmis : Misaligns owner type
          · refine ⟨baitTrap (owner, type) :: (y :: ys).map plain, ?_, readWrong_baitTrap hmis ys⟩
            rw [List.map_cons, map_shape_plain]
            rfl
          · rw [keepsStep_cons_cons] at h
            obtain ⟨rs, hshape, hwrong⟩ := ih fun htail => h ⟨hmis, htail⟩
            have hne : rs ≠ [] := by
              intro hnil
              rw [hnil] at hshape
              cases hshape
            refine ⟨plain (owner, type) :: rs, ?_, hwrong.plain_cons hmis hne⟩
            rw [List.map_cons, hshape]
            rfl

/-- **When the parser finds the address of a well-formed reply.** A reply whose answers are in step
is read right; and all replies to its question with the same owner names and TYPEs are read right
exactly when no answer but the last misaligns, and the last only with a TYPE above 1. -/
theorem parseDnsResponse_right_iff (R : Reply) :
    (InStep R.answers → (parseDnsResponse R.encode).val = .ok (firstAddress R.answers)) ∧
    ((∀ S : Reply, S.question = R.question →
        S.answers.map Record.shape = R.answers.map Record.shape →
        (parseDnsResponse S.encode).val = .ok (firstAddress S.answers)) ↔
      KeepsStep (R.answers.map Record.shape)) := by
  refine ⟨parse_of_inStep R, ?_⟩
  constructor
  · intro hright
    by_contra hnot
    obtain ⟨rs, hshape, hwrong⟩ := exists_wrong [] _ hnot
    have hlen : rs.length < 2 ^ 16 := by
      have hsame := congrArg List.length hshape
      rw [List.length_map, List.length_map] at hsame
      exact hsame ▸ R.length_lt
    let S : Reply := ⟨⟨[0, 0, 0, 0], rfl⟩, ⟨[0, 0, 0, 0], rfl⟩, R.question, ⟨[0, 1, 0, 1], rfl⟩, rs,
      [], hlen⟩
    obtain ⟨o, hdrop, hparse⟩ := val_parse_encode S
    exact hwrong S.encode o hdrop (hparse.symm.trans (hright S rfl hshape))
  · intro hkeeps S _ hshape
    exact parse_of_inStep S (inStep_of_keepsStep S.answers (hshape ▸ hkeeps))

instance : DecidablePred KeepsStep := fun _ => inferInstanceAs (Decidable (_ ∧ _))

/-- A reply to `github.com` with the owner names of its answers. -/
def githubReplyFor (answers : List Record) (h : answers.length < 2 ^ 16) : Reply where
  lead := ⟨[0xab, 0xcd, 0x81, 0x80], rfl⟩
  counts := ⟨[0, 0, 0, 0], rfl⟩
  question := [⟨bstr "github", by decide, by decide⟩, ⟨bstr "com", by decide, by decide⟩]
  questionEnd := ⟨[0, 1, 0, 1], rfl⟩
  answers := answers
  trailing := []
  length_lt := h

/-- The three forms of owner name, the mixed one with a TYPE above 255. -/
def alignedAnswers : List Record :=
  [⟨.labels [⟨bstr "www", by decide, by decide⟩], 5, 1, 60, [0xc0, 0x0c], by decide⟩,
    ⟨.labelsThenPointer ⟨bstr "www", by decide, by decide⟩ [] ⟨0xc0, 0x0c, by decide⟩, 257, 1, 60,
      [0, 5], by decide⟩,
    ⟨.pointer ⟨0xc0, 0x0c, by decide⟩, 1, 1, 60, [140, 82, 121, 4], by decide⟩]

theorem parseDnsResponse_right_iff_aligned :
    (parseDnsResponse (githubReplyFor alignedAnswers (by decide)).encode).val =
      .ok (firstAddress alignedAnswers) ∧
    firstAddress alignedAnswers = some (.v4 ⟨[140, 82, 121, 4], rfl⟩) ∧
    ∀ S : Reply, S.question = (githubReplyFor alignedAnswers (by decide)).question →
      S.answers.map Record.shape = alignedAnswers.map Record.shape →
      (parseDnsResponse S.encode).val = .ok (firstAddress S.answers) := by
  have hkeeps : KeepsStep (alignedAnswers.map Record.shape) := by decide
  obtain ⟨hright, hiff⟩ := parseDnsResponse_right_iff (githubReplyFor alignedAnswers (by decide))
  exact ⟨hright (inStep_of_keepsStep _ hkeeps), by decide, hiff.mpr hkeeps⟩

/-- `www` before a pointer to `github.com`, with an address. -/
def mixedAnswers : List Record :=
  [⟨.labelsThenPointer ⟨bstr "www", by decide, by decide⟩ [] ⟨0xc0, 0x0c, by decide⟩, 1, 1, 60,
    [140, 82, 121, 4], by decide⟩]

/-- The parser misses the only address of a well-formed reply. -/
theorem mixed_owner_missed :
    (parseDnsResponse (githubReplyFor mixedAnswers (by decide)).encode).val = .ok none ∧
    firstAddress (githubReplyFor mixedAnswers (by decide)).answers =
      some (.v4 ⟨[140, 82, 121, 4], rfl⟩) ∧
    ¬ ∀ R : Reply, (parseDnsResponse R.encode).val = .ok (firstAddress R.answers) := by
  have hmissed : (parseDnsResponse (githubReplyFor mixedAnswers (by decide)).encode).val =
      .ok none := by decide +kernel
  refine ⟨hmissed, by decide, fun hall => ?_⟩
  have hright := hall (githubReplyFor mixedAnswers (by decide))
  rw [hmissed] at hright
  exact absurd hright (by decide)

end SevMicroLoader.Dns
