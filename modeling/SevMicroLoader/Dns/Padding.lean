import Mathlib.Order.Bounds.Defs
import SevMicroLoader.Dns.Client
import SevMicroLoader.Dns.Safety

/-!
# Padded queries

A query is padded to a multiple of 64 bytes before it is put in the box. Padding is undone
whatever the query ends in, and the length of the box tells no more than the padded length,
which is the least one that has room for the query, the marker and the minimum
(`isLeast_paddedLength`). A vector has at most `isize::MAX` bytes, so padding panics where that
length is larger, and the round-up is a product in `usize`: it wraps for a minimum with no
multiple of 64 above it.
-/

namespace SevMicroLoader.Dns
open Rust
open Metered (Within)

variable {C : Cipher} {key : ByteArr 32} {nonce : ByteArr 24} {query : Bytes} {minLen : ℕ}

variable (C key nonce query minLen) in
/-- Pad and box a query. -/
def paddedBox : Checked Bytes := do
  xchacha20DjbPoly1305Encrypt C key nonce (← padQuery query minLen)

variable (C key nonce query minLen) in
/-- Pad and box a query, then open the box and take the padding off. -/
def paddedRoundTrip : Checked Bytes := do
  let decrypted ← xchacha20DjbPoly1305Decrypt C key nonce (← paddedBox C key nonce query minLen)
  unpadResponse decrypted

/-- What is put in the box has the least length that is allowed. -/
theorem isLeast_paddedLength {length : ℕ} (hlen : length ≤ 2 ^ 64 - 64)
    (hmin : minLen ≤ 2 ^ 64 - 64) :
    IsLeast {n | 64 ∣ n ∧ length ≤ n ∧ minLen ≤ n} (paddedLength length minLen) := by
  simp only [paddedLength]
  generalize htarget : (if length < minLen then minLen else length) = target
  have hlength : length ≤ target ∧ minLen ≤ target := by
    rw [← htarget]
    split <;> omega
  have hle : target ≤ 2 ^ 64 - 64 := by
    rw [← htarget]
    split <;> assumption
  have hleast : ∀ n, length ≤ n → minLen ≤ n → target ≤ n := by
    intro n hn hn'
    rw [← htarget]
    split <;> assumption
  by_cases haligned : target % 64 ≠ 0
  · rw [if_pos haligned, Nat.mod_eq_of_lt (by omega)]
    refine ⟨⟨Nat.dvd_mul_left _ _, by omega, by omega⟩, ?_⟩
    rintro n ⟨hdvd, hn, hn'⟩
    have hbelow := hleast n hn hn'
    omega
  · rw [if_neg haligned]
    refine ⟨⟨by omega, hlength.1, hlength.2⟩, ?_⟩
    rintro n ⟨-, hn, hn'⟩
    exact hleast n hn hn'

/-- From the last multiple of 64 on, only the wrap is left. -/
theorem paddedLength_of_lt {length : ℕ} (hlen : length ≤ 2 ^ 64 - 64)
    (hmin : 2 ^ 64 - 64 < minLen) (hmin' : minLen < 2 ^ 64) : paddedLength length minLen = 0 := by
  have htarget : (if length < minLen then minLen else length) = minLen := if_pos (by omega)
  have hround : minLen / 64 + 1 = 2 ^ 58 := by omega
  simp only [paddedLength, htarget]
  rw [if_pos (by omega), hround]
  rfl

@[simp] theorem length_paddedText :
    (paddedText query minLen).length = paddedLength (query.length + 1) minLen :=
  length_resized _ _ _

/-- With room for the marker, padding is the query, the marker and zeros. -/
theorem paddedText_eq (h : query.length + 1 ≤ paddedLength (query.length + 1) minLen) :
    paddedText query minLen = query ++ [0x80] ++
      List.replicate (paddedLength (query.length + 1) minLen - (query.length + 1)) 0 := by
  have hlen : (query ++ [0x80]).length = query.length + 1 := by simp
  rw [paddedText, resized, hlen, List.take_of_length_le (by rw [hlen]; exact h)]

/-- **Where padding returns**: the query with its marker fits a vector, and so does the padded
length. -/
theorem val_padQuery_eq_ok_iff {padded : Bytes} : (padQuery query minLen).val = .ok padded ↔
    query.length + 1 ≤ isizeMax ∧ paddedLength (query.length + 1) minLen ≤ isizeMax ∧
      padded = paddedText query minLen := by
  have hlen : (query ++ [0x80]).length = query.length + 1 := by simp
  rw [padQuery, push]
  by_cases hpush : query.length + 1 ≤ isizeMax
  · rw [if_pos hpush, Metered.val_bind_of_ok (Metered.val_pure _), resize, hlen]
    by_cases hresize : paddedLength (query.length + 1) minLen ≤ isizeMax
    · rw [if_pos hresize, Metered.val_pure, Except.ok.injEq, eq_comm, paddedText]
      exact ⟨fun h => ⟨hpush, hresize, h⟩, fun h => h.2.2⟩
    · rw [if_neg hresize]
      exact iff_of_false nofun fun h => hresize h.2.1
  · rw [if_neg hpush]
    exact iff_of_false nofun fun h => hpush h.1

/-- Up to the last multiple of 64 below `isize::MAX`, a vector has room for the padded query. -/
theorem paddedLength_le (hfits : max (query.length + 1) minLen ≤ 2 ^ 63 - 64) :
    paddedLength (query.length + 1) minLen ≤ 2 ^ 63 - 64 := by
  obtain ⟨hquery, hmin⟩ := max_le_iff.mp hfits
  exact (isLeast_paddedLength (by omega) (by omega)).2 ⟨by decide, hquery, hmin⟩

theorem val_padQuery (hfits : max (query.length + 1) minLen ≤ 2 ^ 63 - 64) :
    (padQuery query minLen).val = .ok (paddedText query minLen) := by
  have hlength := paddedLength_le hfits
  have hquery := (max_le_iff.mp hfits).1
  rw [val_padQuery_eq_ok_iff, isizeMax]
  exact ⟨by omega, by omega, rfl⟩

/-- The client pads as `pad_query` does. -/
theorem run_padQuery (hfits : max (query.length + 1) minLen ≤ 2 ^ 63 - 64) :
    run (padQuery query minLen) = pure (paddedText query minLen) := by
  rw [run, val_padQuery hfits]

theorem val_paddedBox (hfits : max (query.length + 1) minLen ≤ 2 ^ 63 - 64) :
    (paddedBox C key nonce query minLen).val =
      .ok (box C key nonce (paddedText query minLen)) := by
  rw [paddedBox, Metered.val_bind_of_ok (val_padQuery hfits)]
  exact val_encrypt _

@[simp] theorem length_box (plaintext : Bytes) :
    (box C key nonce plaintext).length = 16 + plaintext.length := by
  rw [box, Envelope.sealed, List.length_append, (C.poly1305 _ _).property, Envelope.length_mask]

/-- What comes back is what unpadding makes of the padded query. -/
theorem val_paddedRoundTrip_eq_ok_iff {text : Bytes} :
    (paddedRoundTrip C key nonce query minLen).val = .ok text ↔
      ∃ padded, (padQuery query minLen).val = .ok padded ∧
        (unpadResponse padded).val = .ok text := by
  have hopen (padded : Bytes) : (xchacha20DjbPoly1305Decrypt C key nonce
      (box C key nonce padded)).val = .ok padded := val_decrypt_eq_ok_iff.mpr rfl
  simp only [paddedRoundTrip, paddedBox, Metered.val_bind_eq_ok]
  constructor
  · rintro ⟨_, ⟨padded, hpadded, hboxed⟩, decrypted, hdecrypted, htext⟩
    rw [val_encrypt] at hboxed
    cases hboxed
    rw [hopen] at hdecrypted
    cases hdecrypted
    exact ⟨padded, hpadded, htext⟩
  · rintro ⟨padded, hpadded, htext⟩
    exact ⟨_, ⟨padded, hpadded, val_encrypt padded⟩, padded, hopen padded, htext⟩

/-- **The bound is exact.** Behind it, padding asks for too large a vector or wraps to nothing. -/
theorem val_paddedRoundTrip_iff (hquery : query.length < 2 ^ 63) (hmin : minLen < 2 ^ 64) :
    (paddedRoundTrip C key nonce query minLen).val = .ok query ↔
      max (query.length + 1) minLen ≤ 2 ^ 63 - 64 := by
  rw [val_paddedRoundTrip_eq_ok_iff]
  constructor
  · rintro ⟨padded, hpadded, htext⟩
    obtain ⟨hpush, hresize, rfl⟩ := val_padQuery_eq_ok_iff.mp hpadded
    rw [isizeMax] at hpush hresize
    by_cases hwraps : 2 ^ 64 - 64 < minLen
    · -- the round-up wraps, and the empty text has no marker
      have hzero : paddedLength (query.length + 1) minLen = 0 :=
        paddedLength_of_lt (by omega) hwraps hmin
      obtain ⟨k, hk⟩ := val_unpadResponse_eq_ok_iff.mp htext
      have hlength := congrArg List.length hk
      rw [length_paddedText, hzero] at hlength
      simp at hlength
    · have hleast : IsLeast {n | 64 ∣ n ∧ query.length + 1 ≤ n ∧ minLen ≤ n}
          (paddedLength (query.length + 1) minLen) :=
        isLeast_paddedLength (by omega) (not_lt.mp hwraps)
      obtain ⟨⟨⟨n, hn⟩, hroom⟩, -⟩ := hleast
      exact max_le_iff.mpr ⟨by omega, by omega⟩
  · intro hfits
    refine ⟨_, val_padQuery hfits, val_unpadResponse_eq_ok_iff.mpr ⟨_, paddedText_eq ?_⟩⟩
    obtain ⟨hquery', hmin'⟩ := max_le_iff.mp hfits
    exact (isLeast_paddedLength (by omega) (by omega)).1.2.1

section Meter
variable {u : Usage} {E : Stop → Prop}

theorem within_padQuery (hfits : max (query.length + 1) minLen ≤ 2 ^ 63 - 64) :
    Within u E (fun padded => padded.length ≤ 2 ^ 63 - 64) (padQuery query minLen) := by
  have hmeter : Within u (fun _ => True) (fun _ => True) (padQuery query minLen) := by
    rw [padQuery, push]
    split
    · refine (Metered.within_pure (P := fun _ => True) trivial).bind fun padded _ => ?_
      rw [resize]
      split
      · exact Metered.within_pure trivial
      · exact Metered.within_stop trivial
    · exact (Metered.within_stop (P := fun _ => False) trivial).bind fun _ => False.elim
  refine hmeter.of_ok (val_padQuery hfits) ?_
  rw [length_paddedText]
  exact paddedLength_le hfits

theorem within_encrypt {plaintext : Bytes} (hu : 32 + plaintext.length ≤ u.1)
    (hcap : 16 + plaintext.length ≤ u.2) :
    Within u E (fun sealed => sealed.length = 16 + plaintext.length)
      (xchacha20DjbPoly1305Encrypt C key nonce plaintext) := by
  rw [xchacha20DjbPoly1305Encrypt]
  refine (within_add (by omega)).bind fun n hn => ?_
  have hstream := length_applyKeystream C key nonce n
  refine (within_readPolyKey (by omega)).bind fun polyKey _ => ?_
  refine (within_xorLoop (by omega) (by omega)).bind fun ciphertext hciphertext => ?_
  refine (within_add (by omega)).bind fun capacity hcapacity => ?_
  refine (within_withCapacity (by omega)).bind fun _ _ => ?_
  refine Metered.within_pure ?_
  rw [List.length_append, (C.poly1305 _ _).property, hciphertext]

/-- No length on the way exceeds `isize::MAX`, so every other vector has room too. -/
theorem meter_paddedRoundTrip (hfits : max (query.length + 1) minLen ≤ 2 ^ 63 - 64) :
    (paddedRoundTrip C key nonce query minLen).meter ≤ (isizeMax, isizeMax) := by
  have hmax : isizeMax = 2 ^ 63 - 1 := rfl
  have hwithin : Within (isizeMax, isizeMax) (fun _ => True) (fun _ => True)
      (paddedRoundTrip C key nonce query minLen) := by
    rw [paddedRoundTrip, paddedBox]
    refine ((within_padQuery hfits).bind fun padded hpadded =>
      within_encrypt (by dsimp only; omega) (by dsimp only; omega)
        |>.imp fun sealed hsealed => (by omega : sealed.length ≤ 2 ^ 63 - 48)).bind
      fun sealed hsealed => ?_
    refine (within_decrypt (fun _ => trivial) (by dsimp only; omega)).bind fun decrypted _ => ?_
    exact (within_unpadResponse fun _ => trivial).imp fun _ _ => trivial
  exact hwithin.meter

end Meter

/-- **Encryption loses nothing and hides the length.** Whatever the query ends in, it is recovered
from its padded box, exactly as long as a vector has room for the padded query; the padded length
is the least allowed one, so that all queries below the minimum have boxes of one length; and
unpadding accepts exactly a text, the marker and zeros. -/
theorem padded_query_recovered (C : Cipher) :
    (∀ (key : ByteArr 32) (nonce : ByteArr 24) (query : Bytes) (minLen : ℕ),
      max (query.length + 1) minLen ≤ 2 ^ 63 - 64 →
        (paddedRoundTrip C key nonce query minLen).val = .ok query ∧
        (paddedRoundTrip C key nonce query minLen).meter ≤ (isizeMax, isizeMax) ∧
        ∃ padded, (padQuery query minLen).val = .ok padded ∧
          IsLeast {n | 64 ∣ n ∧ max (query.length + 1) minLen ≤ n} padded.length) ∧
    (∀ (key key' : ByteArr 32) (nonce nonce' : ByteArr 24) (query query' : Bytes) (minLen : ℕ),
      minLen ≤ 2 ^ 63 - 64 → query.length < minLen → query'.length < minLen →
        ∃ c c', (paddedBox C key nonce query minLen).val = .ok c ∧
          (paddedBox C key' nonce' query' minLen).val = .ok c' ∧ c.length = c'.length) ∧
    (∀ decrypted text : Bytes, (unpadResponse decrypted).val = .ok text ↔
      ∃ k, decrypted = text ++ [0x80] ++ List.replicate k 0x00) ∧
    ∀ (key : ByteArr 32) (nonce : ByteArr 24) (query : Bytes) (minLen : ℕ),
      query.length < 2 ^ 63 → minLen < 2 ^ 64 →
        ((paddedRoundTrip C key nonce query minLen).val = .ok query ↔
          max (query.length + 1) minLen ≤ 2 ^ 63 - 64) := by
  refine ⟨?_, ?_, fun decrypted text => val_unpadResponse_eq_ok_iff,
    fun key nonce query minLen hquery hmin => val_paddedRoundTrip_iff hquery hmin⟩
  · intro key nonce query minLen hfits
    obtain ⟨hquery, hmin⟩ := max_le_iff.mp hfits
    refine ⟨(val_paddedRoundTrip_iff (by omega) (by omega)).mpr hfits,
      meter_paddedRoundTrip hfits, _, val_padQuery hfits, ?_⟩
    simp only [length_paddedText, max_le_iff]
    exact isLeast_paddedLength (by omega) (by omega)
  · intro key key' nonce nonce' query query' minLen hmin hquery hquery'
    refine ⟨_, _, val_paddedBox (max_le (by omega) hmin), val_paddedBox (max_le (by omega) hmin),
      ?_⟩
    -- both padded lengths are the least multiple of 64 from the minimum on
    obtain ⟨⟨hdvd, -, hfrom⟩, hbelow⟩ : IsLeast _ (paddedLength (query.length + 1) minLen) :=
      isLeast_paddedLength (by omega) (by omega)
    obtain ⟨⟨hdvd', -, hfrom'⟩, hbelow'⟩ : IsLeast _ (paddedLength (query'.length + 1) minLen) :=
      isLeast_paddedLength (by omega) (by omega)
    have hle := hbelow ⟨hdvd', by omega, hfrom'⟩
    have hge := hbelow' ⟨hdvd, by omega, hfrom⟩
    rw [length_box, length_box, length_paddedText, length_paddedText, Nat.le_antisymm hle hge]

/-- A stand-in cipher: a constant keystream, and a tag of zeros. -/
def sampleCipher : Cipher where
  keystream _ _ _ := 0x5a
  poly1305 _ _ := padded 16 []

/-- A query that ends like padding, under the resolver's own minimum. -/
theorem padded_query_recovered_marker :
    (paddedRoundTrip sampleCipher (padded 32 []) (padded 24 []) [0x61, 0x80, 0x00] 1024).val =
      .ok [0x61, 0x80, 0x00] :=
  ((padded_query_recovered sampleCipher).1 (padded 32 []) (padded 24 []) [0x61, 0x80, 0x00] 1024
    (by decide)).1

/-- Past the last multiple of 64 the round-up wraps to zero, and nothing is left of the query; where
it does not wrap, there is no vector for the padded query. -/
theorem wrapped_padding_fails :
    (padQuery [0x61] (2 ^ 64 - 1)).val = .ok [] ∧
      (padQuery [0x61] (2 ^ 63)).val = .error (.panic .capacity) ∧
      (paddedRoundTrip sampleCipher (padded 32 []) (padded 24 []) [0x61] (2 ^ 64 - 1)).val =
        .error (.err "Invalid ISO/IEC 7816-4 padding") ∧
      ¬ ∀ (C : Cipher) (key : ByteArr 32) (nonce : ByteArr 24) (query : Bytes) (minLen : ℕ),
        query.length < 2 ^ 64 → minLen < 2 ^ 64 →
          (paddedRoundTrip C key nonce query minLen).val = .ok query := by
  have hfails : (paddedRoundTrip sampleCipher (padded 32 []) (padded 24 []) [0x61]
      (2 ^ 64 - 1)).val = .error (.err "Invalid ISO/IEC 7816-4 padding") := by decide +kernel
  refine ⟨by decide +kernel, by decide +kernel, hfails, fun hall => ?_⟩
  have hok := hall sampleCipher (padded 32 []) (padded 24 []) [0x61] (2 ^ 64 - 1) (by decide)
    (by decide)
  rw [hfails] at hok
  cases hok

end SevMicroLoader.Dns
