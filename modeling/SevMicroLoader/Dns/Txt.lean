import SevMicroLoader.Dns.Alignment

/-!
# The TXT record walker

`parseTxtResponse` walks over the answers with a loop of its own: it tests the offset and
the rdata length where the address walker tests twelve bytes at once, and it collects the
character strings of every TXT record. The body of its loop is a parameter (`visit`), so that
the records the loop walks over (`records`) are read off the same loop.

The two walkers agree on every byte string: the address walker returns the address of
the first of these records that holds one.
-/

namespace SevMicroLoader.Dns
open Rust

/-! ## The walker -/

/-- The loop over the character strings of a TXT record. -/
def txtStrings (rdata : Bytes) (i : ℕ) (txtData : Bytes) : Checked Bytes :=
  if i < rdata.length then do
    let chunkLen ← UInt8.toNat <$> index rdata i
    if (← add (← add i 1) chunkLen) > rdata.length then pure txtData
    else do
      let chunk ← slice rdata (← add i 1) (← add (← add i 1) chunkLen)
      note (1 + chunkLen)
      note (i + (1 + chunkLen))
      txtStrings rdata (i + (1 + chunkLen)) (txtData ++ chunk)
  else pure txtData
termination_by rdata.length - i

variable {σ : Type}

/-- The loop over the answers: how many are left, where the next one starts, and what the
rounds so far have gathered. `visit` is its body on a record whose rdata is all there. -/
def recordLoop (visit : σ → UInt16 → ℕ → ℕ → Checked σ) (data : Bytes) :
    ℕ → ℕ → σ → Checked σ
  | 0, _, results => pure results
  | n + 1, offset, results =>
      if offset ≥ data.length then pure results
      else do
        if (← add offset 2) > data.length then pure results
        else do
          let offset ← skipOwner data offset
          if (← add offset 10) > data.length then pure results
          else do
            let rtype ← u16FromBE data offset
            let rdlength ← UInt16.toNat <$> u16FromBE data (← add offset 8)
            let offset ← add offset 10
            if (← add offset rdlength) > data.length then pure results
            else do
              let results ← visit results rtype offset rdlength
              recordLoop visit data n (← add offset rdlength) results

/-- The header, the question and the loop, from what is gathered before. -/
def walkRecords (visit : σ → UInt16 → ℕ → ℕ → Checked σ) (results : σ) (data : Bytes) :
    Checked σ :=
  if data.length < 12 then pure results
  else do
    let ancount ← UInt16.toNat <$> u16FromBE data 6
    let offset ← skipName data 12
    let offset ← add offset 4
    recordLoop visit data ancount offset results

/-- The loop's body: the text of a TXT record is kept unless it is empty. -/
def visitTxt (data : Bytes) (results : List Bytes) (rtype : UInt16) (offset rdlength : ℕ) :
    Checked (List Bytes) :=
  if rtype = 16 then do
    let rdata ← slice data offset (← add offset rdlength)
    let txtData ← txtStrings rdata 0 []
    if txtData.isEmpty then pure results else pure (results ++ [txtData])
  else pure results

def parseTxtResponse (data : Bytes) : Checked (List Bytes) :=
  walkRecords (visitTxt data) [] data

/-- A record's type and rdata. -/
abbrev TypedData := UInt16 × Bytes

/-- The body that keeps every record. -/
def visitRecord (data : Bytes) (results : List TypedData) (rtype : UInt16)
    (offset rdlength : ℕ) : Checked (List TypedData) := do
  let rdata ← slice data offset (← add offset rdlength)
  pure (results ++ [(rtype, rdata)])

/-- The records the loop of `parse_txt_response` walks over with their rdata inside the data. -/
def records (data : Bytes) : Checked (List TypedData) := walkRecords (visitRecord data) [] data

/-! ## Skipping a name

A name is skipped without a panic, moves the offset forward and leaves it at most 256 bytes
behind the end.
-/

section Skip
open Metered (Within)
variable {data : Bytes} {u : Usage} {E : Stop → Prop} {o : ℕ}

theorem within_skipLabels (hu : data.length + 256 ≤ u.1) (o : ℕ) :
    Within u E (fun o' => o ≤ o' ∧ o' ≤ max o (data.length + 256) ∧
      (o < data.length → o' = o → data[o]? = some 0)) (skipLabels data o) := by
  induction o using skipLabels.induct data with
  | case1 o h ih =>
      rw [skipLabels, dif_pos h]
      refine (within_index h).bind fun b hb => ?_
      have hbyte := b.toNat_lt
      by_cases h0 : b = 0
      · rw [if_pos h0]
        exact Metered.within_pure ⟨le_rfl, le_max_left _ _, fun _ _ => by rw [hb, h0]⟩
      · rw [if_neg h0]
        by_cases hp : isPointer b
        · rw [if_pos hp]
          refine (within_add (by omega)).imp ?_
          intro o' ho'
          omega
        · rw [if_neg hp]
          refine (within_note (by omega)).bind fun _ _ => ?_
          refine (within_note (by omega)).bind fun _ _ => ?_
          refine (ih b).imp ?_
          intro o' ho'
          omega
  | case2 o h =>
      rw [skipLabels, dif_neg h]
      exact Metered.within_pure ⟨le_rfl, le_max_left _ _, fun hlt => absurd hlt h⟩

theorem within_skipTerminator (hu : data.length ≤ u.1) (o : ℕ) :
    Within u E (fun o' => o ≤ o' ∧ o' ≤ max o data.length ∧ (data[o]? = some 0 → o < o'))
      (skipTerminator data o) := by
  rw [skipTerminator]
  by_cases h : o < data.length
  · rw [if_pos h]
    refine (within_index h).bind fun b hb => ?_
    by_cases h0 : b = 0
    · rw [if_pos h0]
      refine (within_add (by omega)).imp ?_
      intro o' ho'
      omega
    · rw [if_neg h0]
      refine Metered.within_pure ⟨le_rfl, le_max_left _ _, fun hz => absurd ?_ h0⟩
      exact Option.some.inj (hb.symm.trans hz)
  · rw [if_neg h]
    refine Metered.within_pure ⟨le_rfl, le_max_left _ _, fun hz => absurd ?_ h⟩
    exact (List.getElem?_eq_some_iff.mp hz).1

theorem within_skipName (hu : data.length + 256 ≤ u.1) (o : ℕ) :
    Within u E (fun o' => o ≤ o' ∧ o' ≤ max o (data.length + 256) ∧ (o < data.length → o < o'))
      (skipName data o) := by
  refine (within_skipLabels hu o).bind fun o₁ h₁ => ?_
  refine (within_skipTerminator (by omega) o₁).imp ?_
  intro o' h'
  refine ⟨by omega, by omega, fun hlt => ?_⟩
  rcases Nat.eq_or_lt_of_le h₁.1 with heq | hlt₁
  · have hzero := h₁.2.2 hlt heq.symm
    rw [heq] at hzero
    have := h'.2.2 hzero
    omega
  · omega

theorem within_skipOwner (hu : data.length + 256 ≤ u.1) (ho : o < data.length) :
    Within u E (fun o' => o < o' ∧ o' ≤ data.length + 256) (skipOwner data o) := by
  refine (within_index ho).bind fun b _ => ?_
  by_cases hp : isPointer b
  · rw [if_pos hp]
    refine (within_add (by omega)).imp ?_
    intro o' ho'
    omega
  · rw [if_neg hp]
    refine (within_skipName hu o).imp ?_
    intro o' ho'
    omega

theorem exists_skipOwner (ho : o < data.length) :
    ∃ o', (skipOwner data o).val = .ok o' ∧ o < o' := by
  obtain ⟨o', hval, ho'⟩ :=
    (within_skipOwner (u := (data.length + 256, 0)) le_rfl ho).exists_ok
  exact ⟨o', hval, ho'.1⟩

theorem exists_skipName (data : Bytes) (o : ℕ) : ∃ o', (skipName data o).val = .ok o' := by
  obtain ⟨o', hval, -⟩ := (within_skipName (u := (data.length + 256, 0)) le_rfl o).exists_ok
  exact ⟨o', hval⟩

theorem exists_u16FromBE (ho : o + 2 ≤ data.length) : ∃ w, (u16FromBE data o).val = .ok w :=
  ⟨_, val_u16FromBE ho⟩

end Skip

/-! ## The text of a record -/

/-- The character strings of an rdata, joined, up to the first that is cut short. -/
def txtData : Bytes → Bytes
  | [] => []
  | len :: rest =>
      if len.toNat ≤ rest.length then rest.take len.toNat ++ txtData (rest.drop len.toNat) else []
termination_by rdata => rdata.length
decreasing_by
  simp only [List.length_drop, List.length_cons]
  omega

theorem val_txtStrings (rdata : Bytes) (i : ℕ) (txt : Bytes) :
    (txtStrings rdata i txt).val = .ok (txt ++ txtData (rdata.drop i)) := by
  induction i, txt using txtStrings.induct rdata with
  | case1 i txt h ih =>
      have hlen : (UInt8.toNat <$> index rdata i).val = .ok rdata[i].toNat :=
        Metered.val_map_of_ok (val_index h) _
      rw [txtStrings, if_pos h, Metered.val_bind_of_ok hlen, val_add_bind, val_add_bind,
        List.drop_eq_getElem_cons h, txtData, List.length_drop]
      by_cases hfit : rdata.length < i + 1 + rdata[i].toNat
      · rw [if_pos hfit, if_neg (by omega), List.append_nil]
        rfl
      · rw [if_neg hfit, if_pos (by omega), val_add_bind, val_add_bind, val_add_bind,
          Metered.val_bind_of_ok (val_slice (by omega) (by omega)), val_note_bind, val_note_bind,
          ih _ 0, OffsetTable.piece, List.drop_drop, List.append_assoc, Nat.add_sub_cancel_left,
          Nat.add_assoc]
  | case2 i txt h =>
      rw [txtStrings, if_neg h, List.drop_of_length_le (Nat.not_lt.mp h), txtData, List.append_nil]
      rfl

/-- What a record adds to the results of the TXT walker. -/
def txtOf (r : TypedData) : Option Bytes :=
  if r.1 = 16 ∧ txtData r.2 ≠ [] then some (txtData r.2) else none

/-- The address a record holds. -/
def addressOf (r : TypedData) : Option IpAddr :=
  if h : r.1 = 1 ∧ r.2.length = 4 then some (.v4 ⟨r.2, h.2⟩) else none

/-! ## The two walkers -/

section Agreement
variable {data : Bytes} {o n : ℕ}

/-- `visit` returns `f` of what is gathered and of the record, on every record inside `data`. -/
def Visits (data : Bytes) (visit : σ → UInt16 → ℕ → ℕ → Checked σ) (f : σ → TypedData → σ) :
    Prop :=
  ∀ s t o k, o + k ≤ data.length →
    (visit s t o k).val = .ok (f s (t, OffsetTable.piece data o (o + k)))

theorem visits_visitRecord (data : Bytes) :
    Visits data (visitRecord data) fun rs r => rs ++ [r] := by
  intro s t o k h
  rw [visitRecord, val_add_bind, Metered.val_bind_of_ok (val_slice (by omega) h)]
  rfl

theorem visits_visitTxt (data : Bytes) :
    Visits data (visitTxt data) fun rs r => rs ++ (txtOf r).toList := by
  intro s t o k h
  change _ = Except.ok (s ++ (txtOf (t, OffsetTable.piece data o (o + k))).toList)
  rw [visitTxt, txtOf]
  by_cases ht : t = 16
  · rw [if_pos ht, val_add_bind, Metered.val_bind_of_ok (val_slice (by omega) h),
      Metered.val_bind_of_ok (val_txtStrings _ _ _), List.nil_append, List.drop_zero]
    by_cases hempty : txtData (OffsetTable.piece data o (o + k)) = []
    · simp [hempty]
    · simp [hempty, ht]
  · simp [ht]

/-- An offset at the end, or a record whose name or fixed part is cut short, ends the walk. -/
theorem val_recordLoop_end {visit : σ → UInt16 → ℕ → ℕ → Checked σ} (n : ℕ) (s : σ)
    (h : data.length ≤ o) : (recordLoop visit data n o s).val = .ok s := by
  cases n with
  | zero => rfl
  | succ n =>
      rw [recordLoop, if_pos h]
      rfl

theorem val_answerLoop_end (n : ℕ) (h : data.length < o + 12) :
    (answerLoop data n o).val = .ok none := by
  cases n with
  | zero => rfl
  | succ n => exact val_answerLoop_short h

theorem val_recordLoop_break {visit : σ → UInt16 → ℕ → ℕ → Checked σ} {o' : ℕ} (s : σ)
    (howner : (skipOwner data o).val = .ok o') (hshort : data.length < o' + 10) :
    (recordLoop visit data (n + 1) o s).val = .ok s := by
  rw [recordLoop]
  by_cases hend : o ≥ data.length
  · rw [if_pos hend, Metered.val_pure]
  · rw [if_neg hend, val_add_bind]
    by_cases htwo : data.length < o + 2
    · rw [if_pos htwo, Metered.val_pure]
    · rw [if_neg htwo, Metered.val_bind_of_ok howner, val_add_bind, if_pos hshort,
        Metered.val_pure]

/-- One round of the walk over a record whose fixed part is inside the data. -/
theorem val_recordLoop_succ {visit : σ → UInt16 → ℕ → ℕ → Checked σ} {f : σ → TypedData → σ}
    (hvisit : Visits data visit f) {o' : ℕ} (s : σ) {rtype rdlength : UInt16}
    (howner : (skipOwner data o).val = .ok o') (hlt : o < o') (hfixed : o' + 10 ≤ data.length)
    (htype : (u16FromBE data o').val = .ok rtype)
    (hlength : (u16FromBE data (o' + 8)).val = .ok rdlength) :
    (recordLoop visit data (n + 1) o s).val =
      if o' + 10 + rdlength.toNat ≤ data.length then
        (recordLoop visit data n (o' + 10 + rdlength.toNat)
          (f s (rtype, OffsetTable.piece data (o' + 10) (o' + 10 + rdlength.toNat)))).val
      else .ok s := by
  rw [recordLoop, if_neg (by omega), val_add_bind, if_neg (by omega),
    Metered.val_bind_of_ok howner, val_add_bind, if_neg (by omega),
    Metered.val_bind_of_ok htype, val_add_bind,
    Metered.val_bind_of_ok (Metered.val_map_of_ok hlength _), val_add_bind, val_add_bind]
  by_cases hfit : o' + 10 + rdlength.toNat ≤ data.length
  · rw [if_neg (by omega), if_pos hfit, Metered.val_bind_of_ok (hvisit s _ _ _ hfit), val_add_bind]
  · rw [if_pos (by omega), if_neg hfit, Metered.val_pure]

theorem val_readAddress (h : o + 4 ≤ data.length) :
    (readAddress data o).val =
      .ok (.v4 ⟨OffsetTable.piece data o (o + 4), by rw [OffsetTable.length_piece h]; omega⟩) := by
  have hcut : data.drop o =
      data[o] :: data[o + 1] :: data[o + 2] :: data[o + 3] :: data.drop (o + 4) := by
    rw [List.drop_eq_getElem_cons (by omega), List.drop_eq_getElem_cons (by omega),
      List.drop_eq_getElem_cons (by omega), List.drop_eq_getElem_cons (by omega)]
  rw [val_readAddress_of_drop hcut]
  congr 3
  rw [OffsetTable.piece, hcut, Nat.add_sub_cancel_left]
  rfl

/-- **Both loops walk over one list of records.** The record walker folds its body over it, and
the address walker returns the first address in it. -/
theorem exists_walk (data : Bytes) (n o : ℕ) :
    ∃ W : List TypedData,
      (∀ (σ : Type) (visit : σ → UInt16 → ℕ → ℕ → Checked σ) (f : σ → TypedData → σ),
        Visits data visit f → ∀ s, (recordLoop visit data n o s).val = .ok (W.foldl f s)) ∧
      (answerLoop data n o).val = .ok (W.findSome? addressOf) := by
  induction n generalizing o with
  | zero => exact ⟨[], fun _ _ _ _ _ => rfl, rfl⟩
  | succ n ih =>
      by_cases hend : data.length ≤ o
      · exact ⟨[], fun _ _ _ _ s => val_recordLoop_end _ s hend, val_answerLoop_end _ (by omega)⟩
      obtain ⟨o', howner, hlt⟩ := exists_skipOwner (Nat.not_le.mp hend)
      by_cases hfixed : data.length < o' + 10
      · exact ⟨[], fun _ _ _ _ s => val_recordLoop_break s howner hfixed,
          val_answerLoop_break howner hfixed⟩
      have hfixed' : o' + 10 ≤ data.length := Nat.not_lt.mp hfixed
      obtain ⟨t, htype⟩ : ∃ t, (u16FromBE data o').val = .ok t := exists_u16FromBE (by omega)
      obtain ⟨k, hlength⟩ : ∃ k, (u16FromBE data (o' + 8)).val = .ok k :=
        exists_u16FromBE (by omega)
      by_cases hfit : o' + 10 + k.toNat ≤ data.length
      · obtain ⟨W, hrecords, haddress⟩ := ih (o' + 10 + k.toNat)
        refine ⟨(t, OffsetTable.piece data (o' + 10) (o' + 10 + k.toNat)) :: W, ?_, ?_⟩
        · intro σ visit f hvisit s
          rw [val_recordLoop_succ hvisit s howner hlt hfixed' htype hlength, if_pos hfit,
            hrecords σ visit f hvisit, List.foldl_cons]
        · have hlen : (OffsetTable.piece data (o' + 10) (o' + 10 + k.toNat)).length = k.toNat := by
            rw [OffsetTable.length_piece hfit, Nat.add_sub_cancel_left]
          by_cases hnear : data.length < o + 12
          · -- the record ends the data, so the rest of the walk is empty, and so is its rdata
            have hrest := haddress.symm.trans (val_answerLoop_end n (by omega))
            rw [val_answerLoop_end _ hnear, List.findSome?_cons, addressOf,
              dif_neg (fun hc => by rw [hlen] at hc; omega)]
            exact hrest.symm
          · rw [val_answerLoop_succ (by omega) howner hfixed' htype hlength, List.findSome?_cons,
              addressOf]
            by_cases haddr : t = 1 ∧ k.toNat = 4
            · rw [if_pos ⟨haddr.1, haddr.2, by omega⟩,
                dif_pos ⟨haddr.1, hlen.trans haddr.2⟩,
                Metered.val_map_of_ok (val_readAddress (by omega))]
              simp only [haddr.2]
            · rw [if_neg (fun hc => haddr ⟨hc.1, hc.2.1⟩),
                dif_neg (fun hc => haddr ⟨hc.1, hlen.symm.trans hc.2⟩), haddress]
      · -- the record runs past the end: one loop stops, the other goes on past the end
        refine ⟨[], ?_, ?_⟩
        · intro σ visit f hvisit s
          rw [val_recordLoop_succ hvisit s howner hlt hfixed' htype hlength, if_neg hfit,
            List.foldl_nil]
        · by_cases hnear : data.length < o + 12
          · exact val_answerLoop_end _ hnear
          · rw [val_answerLoop_succ (by omega) howner hfixed' htype hlength,
              if_neg (by omega), val_answerLoop_end n (by omega)]
            rfl

end Agreement

/-- **The two record walkers agree.** On every byte string the TXT walker returns the texts of
the records it walks over, and the address walker the first address among these records. -/
theorem walkers_agree (data : Bytes) :
    ∃ W, (records data).val = .ok W ∧ (parseTxtResponse data).val = .ok (W.filterMap txtOf) ∧
      (parseDnsResponse data).val = .ok (W.findSome? addressOf) := by
  by_cases hshort : data.length < 12
  · refine ⟨[], ?_, ?_, ?_⟩
    · rw [records, walkRecords, if_pos hshort, Metered.val_pure]
    · rw [parseTxtResponse, walkRecords, if_pos hshort, Metered.val_pure, List.filterMap_nil]
    · rw [parseDnsResponse, if_pos hshort, Metered.val_pure, List.findSome?_nil]
  obtain ⟨count, hcount⟩ : ∃ w, (u16FromBE data 6).val = .ok w := exists_u16FromBE (by omega)
  obtain ⟨o, hname⟩ := exists_skipName data 12
  obtain ⟨W, hrecords, haddress⟩ := exists_walk data count.toNat (o + 4)
  have hwalk : ∀ (σ : Type) (visit : σ → UInt16 → ℕ → ℕ → Checked σ) (f : σ → TypedData → σ),
      Visits data visit f → ∀ s, (walkRecords visit s data).val = .ok (W.foldl f s) := by
    intro σ visit f hvisit s
    rw [walkRecords, if_neg hshort, Metered.val_bind_of_ok (Metered.val_map_of_ok hcount _),
      Metered.val_bind_of_ok hname, val_add_bind, hrecords σ visit f hvisit]
  refine ⟨W, ?_, ?_, ?_⟩
  · rw [records, hwalk _ _ _ (visits_visitRecord data), List.foldl_append_eq_append,
      ← List.flatMap_def, List.flatMap_singleton', List.nil_append]
  · rw [parseTxtResponse, hwalk _ _ _ (visits_visitTxt data), List.foldl_append_eq_append,
      ← List.flatMap_def, List.filterMap_eq_flatMap_toList, List.nil_append]
  · rw [parseDnsResponse, if_neg hshort,
      Metered.val_bind_of_ok (Metered.val_map_of_ok hcount _), Metered.val_bind_of_ok hname,
      val_add_bind, haddress]

end SevMicroLoader.Dns
