import SevMicroLoader.Dns.Reply

/-!
# When the record walk stays in step

`val_answerLoop_succ` is one round of the answer loop in terms of where the owner step ended
up. On a record that does not misalign the round reads exactly that record
(`val_answerLoop_aligned`); on one that does, it reads TYPE and RDLENGTH one byte late
(`val_answerLoop_misaligned`).
-/

namespace SevMicroLoader.Dns
open Rust Endian

variable {data rest : Bytes} {o o' n : ℕ}

/-! ## Reading the fixed part of a record -/

theorem length_fixed (r : Record) : r.fixed.length = 10 := by simp [Record.fixed]

theorem val_u16FromBE_toBE {k : ℕ} (h : data.drop o = toBE 2 k ++ rest) (hk : k < 2 ^ 16) :
    (u16FromBE data o).val = .ok (UInt16.ofNat k) := by
  have hlen : o + 1 < data.length := lt_of_drop h (by simp; omega)
  rw [val_u16FromBE (by omega), h, List.take_left' (length_toBE 2 k), ofBE_toBE (by omega)]

theorem val_isAddressAt (atype : UInt16) (rdlength offset : ℕ) :
    (isAddressAt data atype rdlength offset).val =
      .ok (decide (atype = 1 ∧ rdlength = 4 ∧ offset + 4 ≤ data.length)) := by
  by_cases h : atype = 1 ∧ rdlength = 4
  · rw [isAddressAt, if_pos h, val_add_bind]
    simp [h]
  · rw [isAddressAt, if_neg h, Metered.val_pure]
    have hnot : ¬ (atype = 1 ∧ rdlength = 4 ∧ offset + 4 ≤ data.length) :=
      fun hall => h ⟨hall.1, hall.2.1⟩
    rw [decide_eq_false hnot]

/-- **One round of the answer loop**, once the owner step is known to end at `o'`. -/
theorem val_answerLoop_succ {atype rdlength : UInt16} (hfit : o + 12 ≤ data.length)
    (howner : (skipOwner data o).val = .ok o') (hfixed : o' + 10 ≤ data.length)
    (htype : (u16FromBE data o').val = .ok atype)
    (hlength : (u16FromBE data (o' + 8)).val = .ok rdlength) :
    (answerLoop data (n + 1) o).val =
      if atype = 1 ∧ rdlength.toNat = 4 ∧ o' + 10 + 4 ≤ data.length then
        (some <$> readAddress data (o' + 10)).val
      else (answerLoop data n (o' + 10 + rdlength.toNat)).val := by
  rw [answerLoop, val_add_bind, if_neg (by omega), Metered.val_bind_of_ok howner, val_add_bind,
    if_neg (by omega), Metered.val_bind_of_ok htype, val_add_bind,
    Metered.val_bind_of_ok (Metered.val_map_of_ok hlength _), val_add_bind,
    Metered.val_bind_of_ok (val_isAddressAt _ _ _)]
  by_cases h : atype = 1 ∧ rdlength.toNat = 4 ∧ o' + 10 + 4 ≤ data.length
  · rw [decide_eq_true h, if_pos rfl, if_pos h]
  · rw [decide_eq_false h, if_neg Bool.false_ne_true, if_neg h, val_add_bind]

/-- Fewer than twelve bytes end the loop. -/
theorem val_answerLoop_short (hshort : data.length < o + 12) :
    (answerLoop data (n + 1) o).val = .ok none := by
  rw [answerLoop, val_add_bind, if_pos hshort]
  rfl

/-- A record whose fixed part does not fit behind its owner name ends the loop. -/
theorem val_answerLoop_break (howner : (skipOwner data o).val = .ok o')
    (hshort : data.length < o' + 10) : (answerLoop data (n + 1) o).val = .ok none := by
  by_cases hfit : data.length < o + 12
  · exact val_answerLoop_short hfit
  · rw [answerLoop, val_add_bind, if_neg hfit, Metered.val_bind_of_ok howner, val_add_bind,
      if_pos hshort]
    rfl

/-! ## A record in step -/

variable {r : Record}

theorem fixed_eq_cons (r : Record) (xs : Bytes) :
    r.fixed ++ xs = UInt8.ofNat (r.type.toNat / 256) :: UInt8.ofNat r.type.toNat ::
      (toBE 2 r.cls.toNat ++ toBE 4 r.ttl.toNat ++ toBE 2 r.rdata.length ++ xs) := by
  simp [Record.fixed, toBE_two]

/-- The byte behind an owner name is zero exactly when the TYPE is below 256. -/
theorem type_hi_eq_zero (t : UInt16) : UInt8.ofNat (t.toNat / 256) = 0 ↔ t.toNat < 256 := by
  have hlt := t.toNat_lt
  rw [← UInt8.toNat_inj, UInt8.toNat_ofNat']
  simp only [UInt8.toNat_zero]
  omega

theorem val_skipOwner_record (h : data.drop o = r.encode ++ rest) :
    (skipOwner data o).val =
      .ok (o + r.owner.encode.length + if Misaligns r.owner r.type then 1 else 0) := by
  rw [Record.encode, List.append_assoc, List.append_assoc, fixed_eq_cons] at h
  have hzero : (r.owner.IsMixed ∧ UInt8.ofNat (r.type.toNat / 256) = 0) ↔
      Misaligns r.owner r.type := and_congr_right fun _ => type_hi_eq_zero _
  rw [val_skipOwner r.owner h]
  by_cases hmis : Misaligns r.owner r.type
  · rw [if_pos (hzero.mpr hmis), if_pos hmis]
  · rw [if_neg (mt hzero.mp hmis), if_neg hmis]

theorem drop_owner (h : data.drop o = r.encode ++ rest) :
    data.drop (o + r.owner.encode.length) = r.fixed ++ (r.rdata ++ rest) := by
  rw [Record.encode, List.append_assoc, List.append_assoc] at h
  exact drop_add_of_drop h

theorem drop_fixed (h : data.drop o = r.encode ++ rest) :
    data.drop (o + r.owner.encode.length + 10) = r.rdata ++ rest := by
  have hnext := drop_add_of_drop (drop_owner h)
  rwa [length_fixed] at hnext

theorem drop_record (h : data.drop o = r.encode ++ rest) :
    data.drop (o + r.encode.length) = rest := drop_add_of_drop h

theorem length_encode_record (r : Record) :
    r.encode.length = r.owner.encode.length + 10 + r.rdata.length := by
  simp only [Record.encode, List.length_append, length_fixed]

theorem length_owner_pos (owner : OwnerName) : 1 ≤ owner.encode.length := by
  cases owner <;> simp [OwnerName.encode]

theorem drop_length (h : data.drop o = r.encode ++ rest) :
    data.length = o + r.owner.encode.length + 10 + r.rdata.length + rest.length := by
  have hlen := congrArg List.length h
  have hpos : 0 < r.encode.length := by
    rw [length_encode_record]
    omega
  rw [List.length_drop, List.length_append] at hlen
  rw [length_encode_record] at hlen hpos
  omega

theorem toNat_rdlength (r : Record) :
    (UInt16.ofNat r.rdata.length).toNat = r.rdata.length :=
  UInt16.toNat_ofNat_of_lt' r.length_lt

theorem val_type_record (h : data.drop o = r.encode ++ rest) :
    (u16FromBE data (o + r.owner.encode.length)).val = .ok r.type := by
  have hdrop := drop_owner h
  simp only [Record.fixed, List.append_assoc] at hdrop
  rw [val_u16FromBE_toBE hdrop r.type.toNat_lt, UInt16.ofNat_toNat]

theorem val_rdlength_record (h : data.drop o = r.encode ++ rest) :
    (u16FromBE data (o + r.owner.encode.length + 8)).val =
      .ok (UInt16.ofNat r.rdata.length) := by
  have hdrop : data.drop (o + r.owner.encode.length + 8) =
      toBE 2 r.rdata.length ++ (r.rdata ++ rest) := by
    have hcut := drop_owner h
    rw [Record.fixed, List.append_assoc] at hcut
    exact drop_add_of_drop hcut
  exact val_u16FromBE_toBE hdrop r.length_lt

/-- **A record in step is read as it was written.** -/
theorem val_answerLoop_aligned (h : data.drop o = r.encode ++ rest)
    (hstep : ¬ Misaligns r.owner r.type) (hfit : 12 ≤ r.encode.length + rest.length) :
    (answerLoop data (n + 1) o).val =
      match r.address? with
      | some ip => .ok (some ip)
      | none => (answerLoop data n (o + r.encode.length)).val := by
  have hlen := drop_length h
  have hrec := length_encode_record r
  have howner := val_skipOwner_record h
  rw [if_neg hstep, Nat.add_zero] at howner
  rw [val_answerLoop_succ (by omega) howner (by omega) (val_type_record h)
    (val_rdlength_record h), toNat_rdlength]
  by_cases haddr : r.type = 1 ∧ r.rdata.length = 4
  · rw [if_pos ⟨haddr.1, haddr.2, by omega⟩, Record.address?, dif_pos haddr]
    have hread := drop_fixed h
    obtain ⟨a, b, c, d, habcd⟩ := List.length_eq_four.mp haddr.2
    rw [habcd] at hread
    rw [Metered.val_map_of_ok (val_readAddress_of_drop hread)]
    simp only [habcd]
  · have hno : ¬ (r.type = 1 ∧ r.rdata.length = 4 ∧ o + r.owner.encode.length + 10 + 4 ≤
        data.length) := fun hall => haddr ⟨hall.1, hall.2.1⟩
    rw [if_neg hno, Record.address?, dif_neg haddr, hrec, Nat.add_assoc o, Nat.add_assoc o]

/-! ## A record out of step -/

/-- **A misaligned record is read one byte late**: its TYPE is made of the low byte of the TYPE
and the high byte of the CLASS, its RDLENGTH of the low byte of RDLENGTH and the next byte. -/
theorem val_answerLoop_misaligned {c : UInt8} {tail : Bytes} (h : data.drop o = r.encode ++ rest)
    (hmis : Misaligns r.owner r.type) (hnext : r.rdata ++ rest = c :: tail) :
    (answerLoop data (n + 1) o).val =
      if UInt16.ofNat (ofBE [UInt8.ofNat r.type.toNat, UInt8.ofNat (r.cls.toNat / 256)]) = 1 ∧
        (UInt16.ofNat (ofBE [UInt8.ofNat r.rdata.length, c])).toNat = 4 ∧ 4 ≤ tail.length then
        (some <$> readAddress data (o + r.owner.encode.length + 11)).val
      else (answerLoop data n (o + r.owner.encode.length + 11 +
        (UInt16.ofNat (ofBE [UInt8.ofNat r.rdata.length, c])).toNat)).val := by
  have hlen := drop_length h
  have hpos := length_owner_pos r.owner
  have hsize := congrArg List.length hnext
  rw [List.length_append, List.length_cons] at hsize
  have howner := val_skipOwner_record h
  rw [if_pos hmis] at howner
  have hshift : data.drop (o + r.owner.encode.length + 1) = UInt8.ofNat r.type.toNat ::
      (toBE 2 r.cls.toNat ++ toBE 4 r.ttl.toNat ++ toBE 2 r.rdata.length ++
        (r.rdata ++ rest)) := by
    have hcut := drop_owner h
    rw [fixed_eq_cons] at hcut
    exact drop_succ_of_drop hcut
  have htype : (u16FromBE data (o + r.owner.encode.length + 1)).val =
      .ok (UInt16.ofNat (ofBE [UInt8.ofNat r.type.toNat, UInt8.ofNat (r.cls.toNat / 256)])) :=
    val_u16FromBE_of_drop hshift
  have hlength : (u16FromBE data (o + r.owner.encode.length + 1 + 8)).val =
      .ok (UInt16.ofNat (ofBE [UInt8.ofNat r.rdata.length, c])) := by
    rw [hnext] at hshift
    have hcut : data.drop (o + r.owner.encode.length + 1 + 8) =
        UInt8.ofNat r.rdata.length :: c :: tail := by
      have happ : data.drop (o + r.owner.encode.length + 1) =
          (UInt8.ofNat r.type.toNat :: (toBE 2 r.cls.toNat ++ toBE 4 r.ttl.toNat ++
            [UInt8.ofNat (r.rdata.length / 256)])) ++
          (UInt8.ofNat r.rdata.length :: c :: tail) := by
        rw [hshift]
        simp [toBE_two]
      have hdrop := drop_add_of_drop happ
      simpa using hdrop
    exact val_u16FromBE_of_drop hcut
  rw [val_answerLoop_succ (by omega) howner (by omega) htype hlength]
  have hroom : o + r.owner.encode.length + 1 + 10 + 4 ≤ data.length ↔ 4 ≤ tail.length := by omega
  simp only [hroom]

end SevMicroLoader.Dns
