import SevMicroLoader.Dns.Response

/-!
# Well-formed DNS replies

A `Reply` is a message as RFC 1035 lays it out, with one question and any answers; its names
and records carry their own bounds. `Reply.encode` writes it. The lemmas after the
grammar say where the parser's name and record steps end up on encoded bytes.

A record `Misaligns` when its owner name is labels followed by a pointer and the high byte of
its TYPE is zero: the step that skips a terminating zero then eats that byte.
-/

namespace SevMicroLoader.Dns
open Rust Endian

/-! ## The grammar -/

/-- A label of a name, 1 to 63 bytes. -/
structure Label where
  bytes : Bytes
  length_pos : 1 ≤ bytes.length
  length_le : bytes.length ≤ 63

/-- A compression pointer: its two high bits are set. -/
structure Pointer where
  hi : UInt8
  lo : UInt8
  marked : isPointer hi

/-- The owner names of RFC 1035: labels up to a zero, a pointer, or labels up to a pointer. -/
inductive OwnerName
  | labels (ls : List Label)
  | pointer (p : Pointer)
  | labelsThenPointer (l : Label) (ls : List Label) (p : Pointer)

/-- A resource record. -/
structure Record where
  owner : OwnerName
  type : UInt16
  cls : UInt16
  ttl : UInt32
  rdata : Bytes
  length_lt : rdata.length < 2 ^ 16

/-- A reply with one question. -/
structure Reply where
  /-- The identifier and the flags. -/
  lead : ByteArr 4
  /-- The counts of the sections after the answers. -/
  counts : ByteArr 4
  question : List Label
  /-- The type and the class of the question. -/
  questionEnd : ByteArr 4
  answers : List Record
  trailing : Bytes
  length_lt : answers.length < 2 ^ 16

/-- The length, and the bytes. -/
def Label.encode (l : Label) : Bytes := UInt8.ofNat l.bytes.length :: l.bytes

/-- The labels, without an end. -/
def encodeLabels (ls : List Label) : Bytes := ls.flatMap Label.encode

/-- Labels end in a zero or in a pointer. -/
def OwnerName.encode : OwnerName → Bytes
  | .labels ls => encodeLabels ls ++ [0]
  | .pointer p => [p.hi, p.lo]
  | .labelsThenPointer l ls p => encodeLabels (l :: ls) ++ [p.hi, p.lo]

/-- TYPE, CLASS, TTL and RDLENGTH. -/
def Record.fixed (r : Record) : Bytes :=
  toBE 2 r.type.toNat ++ toBE 2 r.cls.toNat ++ toBE 4 r.ttl.toNat ++ toBE 2 r.rdata.length

/-- The record on the wire. -/
def Record.encode (r : Record) : Bytes := r.owner.encode ++ r.fixed ++ r.rdata

/-- The reply on the wire. -/
def Reply.encode (r : Reply) : Bytes :=
  r.lead.val ++ toBE 2 1 ++ toBE 2 r.answers.length ++ r.counts.val
    ++ (encodeLabels r.question ++ [0]) ++ r.questionEnd.val
    ++ r.answers.flatMap Record.encode ++ r.trailing

/-- The address of a record with TYPE 1 and four bytes of rdata. -/
def Record.address? (r : Record) : Option IpAddr :=
  if h : r.type = 1 ∧ r.rdata.length = 4 then some (.v4 ⟨r.rdata, h.2⟩) else none

/-- What the reply answers: the address of the first record that has one. -/
def firstAddress (rs : List Record) : Option IpAddr := rs.findSome? Record.address?

/-- Whether an owner name is labels followed by a pointer. -/
def OwnerName.IsMixed : OwnerName → Prop
  | .labelsThenPointer _ _ _ => True
  | _ => False

instance (o : OwnerName) : Decidable o.IsMixed := by
  cases o
  · exact instDecidableFalse
  · exact instDecidableFalse
  · exact instDecidableTrue

/-- The zero skipped after the owner name is the high byte of the TYPE. -/
def Misaligns (owner : OwnerName) (type : UInt16) : Prop := owner.IsMixed ∧ type.toNat < 256

instance (owner : OwnerName) (type : UInt16) : Decidable (Misaligns owner type) :=
  inferInstanceAs (Decidable (_ ∧ _))

/-! ## Names -/

variable {data rest : Bytes} {o : ℕ}

@[simp] theorem length_encode_label (l : Label) : l.encode.length = l.bytes.length + 1 := rfl

theorem toBE_two (n : ℕ) : toBE 2 n = [UInt8.ofNat (n / 256), UInt8.ofNat n] := rfl

/-- A length byte is neither zero nor the start of a pointer. -/
theorem length_byte (l : Label) :
    UInt8.ofNat l.bytes.length ≠ 0 ∧ ¬ isPointer (UInt8.ofNat l.bytes.length) ∧
      (UInt8.ofNat l.bytes.length).toNat = l.bytes.length := by
  have hall : ∀ n < 64, 1 ≤ n →
      UInt8.ofNat n ≠ 0 ∧ ¬ isPointer (UInt8.ofNat n) ∧ (UInt8.ofNat n).toNat = n := by decide
  have hle := l.length_le
  exact hall l.bytes.length (by omega) l.length_pos

/-- The label loop passes over whole labels. -/
theorem val_skipLabels_labels (ls : List Label) (h : data.drop o = encodeLabels ls ++ rest) :
    (skipLabels data o).val = (skipLabels data (o + (encodeLabels ls).length)).val := by
  induction ls generalizing o with
  | nil => rfl
  | cons l ls ih =>
      obtain ⟨hne, hptr, hnat⟩ := length_byte l
      have hcons : encodeLabels (l :: ls) = l.encode ++ encodeLabels ls := rfl
      rw [hcons, List.append_assoc] at h
      have hnext := drop_add_of_drop h
      have hbyte : data.drop o =
          UInt8.ofNat l.bytes.length :: (l.bytes ++ (encodeLabels ls ++ rest)) := h
      have hstep := val_skipLabels_label hbyte hne hptr
      rw [hstep, hnat, hcons, List.length_append]
      simpa only [length_encode_label, Nat.add_assoc] using ih hnext

/-- A name of labels up to a zero. -/
theorem val_skipName_labels (ls : List Label)
    (h : data.drop o = encodeLabels ls ++ [0] ++ rest) :
    (skipName data o).val = .ok (o + (encodeLabels ls).length + 1) := by
  rw [List.append_assoc] at h
  have hzero := drop_add_of_drop h
  have hlabels := (val_skipLabels_labels ls h).trans (val_skipLabels_zero hzero)
  rw [skipName, Metered.val_bind_of_ok hlabels, val_skipTerminator_zero hzero]

/-- A name of labels up to a pointer: the byte behind it is skipped when it is zero. -/
theorem val_skipName_pointer (ls : List Label) (p : Pointer) {b : UInt8}
    (h : data.drop o = encodeLabels ls ++ [p.hi, p.lo] ++ b :: rest) :
    (skipName data o).val =
      .ok (o + (encodeLabels ls).length + 2 + if b = 0 then 1 else 0) := by
  rw [List.append_assoc] at h
  have hptr := drop_add_of_drop h
  have hbehind : data.drop (o + (encodeLabels ls).length + 2) = b :: rest :=
    (drop_add_of_drop hptr :)
  have hlabels := (val_skipLabels_labels ls h).trans (val_skipLabels_pointer hptr p.marked)
  rw [skipName, Metered.val_bind_of_ok hlabels]
  by_cases hb : b = 0
  · subst hb
    rw [val_skipTerminator_zero hbehind, if_pos rfl]
  · rw [val_skipTerminator_of_ne hbehind hb, if_neg hb]

/-- **Where the owner step ends up**: behind the owner name, or one byte further. -/
theorem val_skipOwner (owner : OwnerName) {b : UInt8}
    (h : data.drop o = owner.encode ++ b :: rest) :
    (skipOwner data o).val =
      .ok (o + owner.encode.length + if owner.IsMixed ∧ b = 0 then 1 else 0) := by
  cases owner with
  | pointer p =>
      have hfirst : data.drop o = p.hi :: p.lo :: b :: rest := h
      rw [skipOwner, Metered.val_bind_of_ok (val_index_of_drop hfirst), if_pos p.marked]
      simp [OwnerName.encode, OwnerName.IsMixed]
  | labels ls =>
      have hname := val_skipName_labels ls h
      have hfirst : ∃ c xs, data.drop o = c :: xs ∧ ¬ isPointer c := by
        cases ls with
        | nil => exact ⟨0, b :: rest, h, by decide⟩
        | cons l ls =>
            exact ⟨_, l.bytes ++ encodeLabels ls ++ [0] ++ b :: rest,
              by simpa [OwnerName.encode, encodeLabels, Label.encode] using h,
              (length_byte l).2.1⟩
      obtain ⟨c, xs, hc, hptr⟩ := hfirst
      rw [skipOwner, Metered.val_bind_of_ok (val_index_of_drop hc), if_neg hptr, hname]
      simp [OwnerName.encode, OwnerName.IsMixed, Nat.add_assoc]
  | labelsThenPointer l ls p =>
      have hname := val_skipName_pointer (l :: ls) p h
      have hfirst : data.drop o = UInt8.ofNat l.bytes.length ::
          (l.bytes ++ encodeLabels ls ++ [p.hi, p.lo] ++ b :: rest) := by
        simpa [OwnerName.encode, encodeLabels, Label.encode] using h
      rw [skipOwner, Metered.val_bind_of_ok (val_index_of_drop hfirst),
        if_neg (length_byte l).2.1, hname]
      simp [OwnerName.encode, OwnerName.IsMixed, Nat.add_assoc]

end SevMicroLoader.Dns
