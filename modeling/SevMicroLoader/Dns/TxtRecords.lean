import SevMicroLoader.Dns.Query

/-!
# Replies full of TXT records

A `TxtReply` answers the TXT query for a domain: a header, the question as the builder
writes it, and answers whose owner names are labels up to a zero or a bare pointer. The walker
stays in step with such answers, whatever else they hold, and so it returns the texts of
the TXT records in their order, without the empty ones.
-/

namespace SevMicroLoader.Dns
open Rust Endian

/-! ## The replies -/

/-- A character string of RFC 1035. -/
structure CharString where
  bytes : Bytes
  length_le : bytes.length ≤ 255

/-- The length, and the bytes. -/
def CharString.encode (s : CharString) : Bytes := UInt8.ofNat s.bytes.length :: s.bytes

/-- The data of a TXT record. -/
def encodeStrings (strings : List CharString) : Bytes := strings.flatMap CharString.encode

/-- The rdata of an answer: the strings of a TXT record, or any bytes under another type. -/
inductive AnswerData
  | txt (strings : List CharString) (length_lt : (encodeStrings strings).length < 2 ^ 16)
  | other (type : UInt16) (not_txt : type ≠ 16) (rdata : Bytes) (length_lt : rdata.length < 2 ^ 16)

/-- A record whose name is not mixed. -/
structure Answer where
  owner : OwnerName
  not_mixed : ¬ owner.IsMixed
  cls : UInt16
  ttl : UInt32
  data : AnswerData

/-- The record of an answer; that of a TXT has the type 16. -/
def Answer.record (a : Answer) : Record :=
  match a.data with
  | .txt strings length_lt => ⟨a.owner, 16, a.cls, a.ttl, encodeStrings strings, length_lt⟩
  | .other type _ rdata length_lt => ⟨a.owner, type, a.cls, a.ttl, rdata, length_lt⟩

/-- The joined strings of a TXT record, unless there is nothing in them. -/
def Answer.text? (a : Answer) : Option Bytes :=
  match a.data with
  | .txt strings _ =>
      let text := strings.flatMap (·.bytes)
      if text = [] then none else some text
  | .other _ _ _ _ => none

/-- A reply to a TXT query, apart from the question, which is that of the query. -/
structure TxtReply where
  /-- The identifier, the flags and the number of questions. -/
  lead : ByteArr 6
  /-- The counts of the sections after the answers. -/
  counts : ByteArr 4
  answers : List Answer
  length_lt : answers.length < 2 ^ 16
  trailing : Bytes

/-- The message, with the question of the query for `domain`. -/
def TxtReply.encode (R : TxtReply) (domain : String) : Bytes :=
  R.lead.val ++ toBE 2 R.answers.length ++ R.counts.val ++ (buildTxtRecordQuery domain).drop 12
    ++ R.answers.flatMap (fun a => a.record.encode) ++ R.trailing

/-! ## Texts -/

@[simp] theorem txtData_nil : txtData [] = [] := by rw [txtData]

/-- **The strings of a TXT record are read back**, joined. -/
theorem txtData_encodeStrings (strings : List CharString) :
    txtData (encodeStrings strings) = strings.flatMap (·.bytes) := by
  induction strings with
  | nil => exact txtData_nil
  | cons s strings ih =>
      have hle := s.length_le
      have hnat : (UInt8.ofNat s.bytes.length).toNat = s.bytes.length :=
        UInt8.toNat_ofNat_of_lt' (hle.trans_lt (by decide))
      have hcons : encodeStrings (s :: strings) =
          UInt8.ofNat s.bytes.length :: (s.bytes ++ encodeStrings strings) := rfl
      rw [hcons, txtData, hnat, if_pos (by rw [List.length_append]; omega), List.take_left,
        List.drop_left, ih, List.flatMap_cons]

/-- What the walker adds for an answer is its text. -/
theorem txtOf_record (a : Answer) : txtOf (a.record.type, a.record.rdata) = a.text? := by
  rw [txtOf, Answer.record, Answer.text?]
  cases a.data with
  | txt strings length_lt =>
      simp only [txtData_encodeStrings, true_and]
      by_cases h : strings.flatMap (·.bytes) = []
      · rw [if_pos h, if_neg (not_not.mpr h)]
      · rw [if_neg h, if_pos h]
  | other type not_txt rdata length_lt => exact if_neg fun h => not_txt h.1

theorem not_misaligns (a : Answer) : ¬ Misaligns a.record.owner a.record.type := by
  have howner : a.record.owner = a.owner := by
    rw [Answer.record]
    cases a.data <;> rfl
  rw [Misaligns, howner]
  exact fun h => a.not_mixed h.1

/-! ## The walk -/

section Walk
variable {data rest : Bytes} {o n : ℕ} {r : Record} {σ : Type}
  {visit : σ → UInt16 → ℕ → ℕ → Checked σ} {f : σ → TypedData → σ}

/-- **A record in step is visited as it was written**, and the walk goes on behind it. -/
theorem val_recordLoop_aligned (hvisit : Visits data visit f) (s : σ)
    (h : data.drop o = r.encode ++ rest) (hstep : ¬ Misaligns r.owner r.type) :
    (recordLoop visit data (n + 1) o s).val =
      (recordLoop visit data n (o + r.encode.length) (f s (r.type, r.rdata))).val := by
  have hlen := drop_length h
  have hpos := length_owner_pos r.owner
  have howner := val_skipOwner_record h
  rw [if_neg hstep, Nat.add_zero] at howner
  have hrdata : OffsetTable.piece data (o + r.owner.encode.length + 10)
      (o + r.owner.encode.length + 10 + r.rdata.length) = r.rdata := by
    rw [OffsetTable.piece, Nat.add_sub_cancel_left, drop_fixed h, List.take_left]
  rw [val_recordLoop_succ hvisit s howner (by omega) (by omega) (val_type_record h)
    (val_rdlength_record h), toNat_rdlength, if_pos (by omega), hrdata, length_encode_record,
    Nat.add_assoc o, Nat.add_assoc o]

theorem val_recordLoop_answers (hvisit : Visits data visit f) (answers : List Answer) (s : σ)
    (h : data.drop o = answers.flatMap (fun a => a.record.encode) ++ rest) :
    (recordLoop visit data answers.length o s).val =
      .ok (answers.foldl (fun s a => f s (a.record.type, a.record.rdata)) s) := by
  induction answers generalizing o s with
  | nil => rfl
  | cons a answers ih =>
      rw [List.flatMap_cons, List.append_assoc] at h
      rw [List.length_cons, val_recordLoop_aligned hvisit s h (not_misaligns a),
        ih _ (drop_record h), List.foldl_cons]

end Walk

/-! ## The reply -/

/-- Parts of at most 63 bytes are labels. -/
theorem exists_labels {parts : List String}
    (h : ∀ part ∈ parts, 1 ≤ (asBytes part).length ∧ (asBytes part).length ≤ 63) :
    ∃ ls : List Label, encodeLabels ls = parts.flatMap labelBytes := by
  induction parts with
  | nil => exact ⟨[], rfl⟩
  | cons part parts ih =>
      obtain ⟨⟨hpos, hle⟩, hparts⟩ := List.forall_mem_cons.mp h
      obtain ⟨ls, hls⟩ := ih hparts
      exact ⟨⟨asBytes part, hpos, hle⟩ :: ls, by
        rw [List.flatMap_cons, ← hls]
        rfl⟩

section Parse
variable {domain : String}
  (hdomain : ∀ part ∈ split domain '.', 1 ≤ (asBytes part).length ∧ (asBytes part).length ≤ 63)
include hdomain

/-- The question that the builder writes is skipped as a whole. -/
theorem val_skipName_question {data rest : Bytes} {o : ℕ}
    (h : data.drop o = (buildTxtRecordQuery domain).drop 12 ++ rest) :
    ∃ o', (skipName data o).val = .ok o' ∧ data.drop (o' + 4) = rest := by
  obtain ⟨ls, hls⟩ := exists_labels hdomain
  have hquestion : data.drop o =
      encodeLabels ls ++ [0] ++ ([0x00, 0x10, 0x00, 0x01] ++ rest) := by
    rw [h, buildTxtRecordQuery, drop_buildRecordQuery, ← hls]
    simp only [List.append_assoc]
  refine ⟨_, val_skipName_labels ls hquestion, ?_⟩
  have hbehind := drop_add_of_drop (drop_add_of_drop hquestion)
  rwa [List.length_append, List.length_singleton, ← Nat.add_assoc] at hbehind

theorem val_walkRecords_encode (R : TxtReply) {σ : Type}
    {visit : σ → UInt16 → ℕ → ℕ → Checked σ} {f : σ → TypedData → σ}
    (hvisit : Visits (R.encode domain) visit f) (s : σ) :
    (walkRecords visit s (R.encode domain)).val =
      .ok (R.answers.foldl (fun s a => f s (a.record.type, a.record.rdata)) s) := by
  have hlead := R.lead.property
  have hcounts := R.counts.property
  have hcount : (R.encode domain).drop 6 = toBE 2 R.answers.length ++ (R.counts.val ++
      ((buildTxtRecordQuery domain).drop 12 ++
        (R.answers.flatMap (fun a => a.record.encode) ++ R.trailing))) := by
    simp only [TxtReply.encode, List.append_assoc]
    exact List.drop_left' hlead
  have hquestion : (R.encode domain).drop 12 = (buildTxtRecordQuery domain).drop 12 ++
      (R.answers.flatMap (fun a => a.record.encode) ++ R.trailing) := by
    have hnext := drop_add_of_drop (drop_add_of_drop hcount)
    rwa [length_toBE, hcounts] at hnext
  obtain ⟨o, hname, hanswers⟩ := val_skipName_question hdomain hquestion
  have hlen : ¬ (R.encode domain).length < 12 := by
    simp only [TxtReply.encode, List.length_append, hlead, hcounts, length_toBE]
    omega
  have hancount : (UInt16.toNat <$> u16FromBE (R.encode domain) 6).val =
      .ok R.answers.length := by
    rw [Metered.val_map_of_ok (val_u16FromBE_toBE hcount R.length_lt),
      UInt16.toNat_ofNat_of_lt' R.length_lt]
  rw [walkRecords, if_neg hlen, Metered.val_bind_of_ok hancount, Metered.val_bind_of_ok hname,
    val_add_bind, val_recordLoop_answers hvisit R.answers s hanswers]

end Parse

/-- **Every TXT record and nothing else.** Of a reply to the TXT query for a domain, the walker
returns the texts of the TXT records in their order, leaving out the empty ones. -/
theorem txt_response_complete (domain : String)
    (hdomain : ∀ part ∈ split domain '.', 1 ≤ (asBytes part).length ∧ (asBytes part).length ≤ 63)
    (R : TxtReply) :
    (parseTxtResponse (R.encode domain)).val = .ok (R.answers.filterMap Answer.text?) := by
  rw [parseTxtResponse, val_walkRecords_encode hdomain R (visits_visitTxt _)]
  simp only [txtOf_record]
  rw [List.foldl_append_eq_append, ← List.flatMap_def, List.filterMap_eq_flatMap_toList,
    List.nil_append]

/-- A certificate in two strings, an address, and an empty TXT record. -/
def sampleTxtReply : TxtReply where
  lead := padded 6 [0xab, 0xcd, 0x81, 0x80, 0x00, 0x01]
  counts := padded 4 []
  answers :=
    [⟨.pointer ⟨0xc1, 0x0c, rfl⟩, not_false, 1, 60,
        .txt [⟨bstr "DNSC", by decide⟩, ⟨[0x00, 0x02], by decide⟩] (by decide)⟩,
      ⟨.labels [⟨bstr "a", by decide, by decide⟩], not_false, 1, 60,
        .other 1 (by decide) [10, 0, 0, 1] (by decide)⟩,
      ⟨.pointer ⟨0xc1, 0x0c, rfl⟩, not_false, 1, 60, .txt [⟨[], by decide⟩] (by decide)⟩]
  length_lt := by decide
  trailing := [0xff]

theorem txt_response_complete_sample :
    (parseTxtResponse (sampleTxtReply.encode "2.dnscrypt-cert.quad9.net")).val =
      .ok [bstr "DNSC" ++ [0x00, 0x02]] :=
  txt_response_complete "2.dnscrypt-cert.quad9.net" (by decide +kernel) sampleTxtReply

end SevMicroLoader.Dns
