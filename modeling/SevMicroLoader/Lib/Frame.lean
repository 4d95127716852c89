import SevMicroLoader.Lib.Endian

/-!
# Messages behind their length

`frame w m` is a message behind its length in `w` bytes, most significant byte first, and `unframe`
takes the message at the front of a stream. It takes exactly the messages whose length fits
(`unframe_eq_some_iff`); the length of a longer one is cut to its low bytes.
-/

namespace Endian

theorem toBE_ofBE (bs : List UInt8) : toBE bs.length (ofBE bs) = bs := by
  have hback : toLE bs.reverse.length (ofLE bs.reverse) = bs.reverse := toLE_ofLE _
  rw [List.length_reverse] at hback
  rw [toBE, ofBE, hback, List.reverse_reverse]

theorem ofBE_lt (bs : List UInt8) : ofBE bs < 256 ^ bs.length := by
  have h := ofLE_lt bs.reverse
  rwa [List.length_reverse] at h

/-- A message behind its length. -/
def frame (w : ℕ) (m : List UInt8) : List UInt8 := toBE w m.length ++ m

/-- The message at the front of a stream, and the rest of it. -/
def unframe (w : ℕ) (bs : List UInt8) : Option (List UInt8 × List UInt8) :=
  if w + ofBE (bs.take w) ≤ bs.length then
    some ((bs.drop w).take (ofBE (bs.take w)), (bs.drop w).drop (ofBE (bs.take w)))
  else none

/-- A header that gives the length of what stands behind it is the frame of it. -/
theorem append_eq_frame {w : ℕ} {header m : List UInt8} (hw : header.length = w)
    (hm : m.length = ofBE header) : header ++ m = frame w m := by
  rw [frame, hm, ← hw, toBE_ofBE]

theorem unframe_frame {w : ℕ} {m : List UInt8} (h : m.length < 256 ^ w) (rest : List UInt8) :
    unframe w (frame w m ++ rest) = some (m, rest) := by
  have hcut : frame w m ++ rest = toBE w m.length ++ (m ++ rest) := List.append_assoc _ _ _
  have hheader : (frame w m ++ rest).take w = toBE w m.length := by
    rw [hcut]
    exact List.take_left' (length_toBE w m.length)
  have hbody : (frame w m ++ rest).drop w = m ++ rest := by
    rw [hcut]
    exact List.drop_left' (length_toBE w m.length)
  have hlength : w + m.length ≤ (frame w m ++ rest).length := by
    rw [hcut, List.length_append, length_toBE, List.length_append]
    omega
  rw [unframe, hheader, ofBE_toBE h, if_pos hlength, hbody, List.take_left, List.drop_left]

/-- **What is taken from a stream** is a message whose length fits, from its frame. -/
theorem unframe_eq_some_iff {w : ℕ} {bs m rest : List UInt8} :
    unframe w bs = some (m, rest) ↔ m.length < 256 ^ w ∧ bs = frame w m ++ rest := by
  constructor
  · intro h
    rw [unframe] at h
    split at h
    · next hlength =>
        obtain ⟨rfl, rfl⟩ := Prod.mk.inj (Option.some.inj h)
        have hheader : (bs.take w).length = w := by
          rw [List.length_take]
          omega
        have hbody : ((bs.drop w).take (ofBE (bs.take w))).length = ofBE (bs.take w) := by
          rw [List.length_take, List.length_drop]
          omega
        refine ⟨?_, ?_⟩
        · have hlt := ofBE_lt (bs.take w)
          rwa [hheader, ← hbody] at hlt
        · rw [← append_eq_frame hheader hbody, List.append_assoc, List.take_append_drop,
            List.take_append_drop]
    · cases h
  · rintro ⟨h, rfl⟩
    exact unframe_frame h rest

end Endian
