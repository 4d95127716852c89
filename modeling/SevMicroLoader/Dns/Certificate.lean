import SevMicroLoader.Rust.Checked

/-!
# DNSCrypt certificates

`verifyCert` cuts a certificate at its fixed offsets: magic, version, signature, the
resolver's key, the client magic, the serial and the two ends of the validity interval. The
clock is only read once the signature holds, so the part before it is `readCert`. Ed25519
verification is an arbitrary function.
-/

namespace SevMicroLoader.Dns
open Rust

/-- What a certificate says. -/
structure DnscryptCert where
  resolverPk : ByteArr 32
  clientMagic : ByteArr 8
  serial : UInt32
  tsStart : UInt32
  tsEnd : UInt32
  deriving DecidableEq, Repr

/-- Whether the signature of a message verifies under a key. -/
abbrev Ed25519 := (key msg sig : Bytes) → Bool

/-- `u32::from_be_bytes(cert[a..b].try_into().ok()?)`. -/
def u32FieldBE (cert : Bytes) (a b : ℕ) : Checked (Option UInt32) := do
  let bytes ← slice cert a b
  pure (if bytes.length = 4 then some (UInt32.ofNat (Endian.ofBE bytes)) else none)

/-- `verify_cert` up to the reading of the clock. -/
def readCert (verify : Ed25519) (cert : Bytes) (providerPk : ByteArr 32) :
    Checked (Option DnscryptCert) :=
  if cert.length < 124 then pure none
  else do
    let magic ← slice cert 0 4
    if magic ≠ bstr "DNSC" then pure none
    else do
      let version ← slice cert 4 6
      if version ≠ [0x00, 0x02] then pure none
      else do
        let signed ← sliceFrom cert 72
        let signature ← slice cert 8 72
        if ¬ verify providerPk.val signed signature then pure none
        else do
          let resolverPk ← copyFromSlice 32 (← slice cert 72 104)
          let clientMagic ← copyFromSlice 8 (← slice cert 104 112)
          let some serial ← u32FieldBE cert 112 116 | pure none
          let some tsStart ← u32FieldBE cert 116 120 | pure none
          let some tsEnd ← u32FieldBE cert 120 124 | pure none
          pure (some { resolverPk, clientMagic, serial, tsStart, tsEnd })

/-- The validity check at the time `now`; before 1_700_000_000 the clock is not trusted and
every certificate passes. -/
def checkValidity (cert : DnscryptCert) (now : UInt64) : Option DnscryptCert :=
  if now > 1700000000 then
    if now < cert.tsStart.toUInt64 ∨ now > cert.tsEnd.toUInt64 then none else some cert
  else some cert

/-- A certificate that is signed by the provider and valid now. -/
def verifyCert (verify : Ed25519) (cert : Bytes) (providerPk : ByteArr 32) (now : UInt64) :
    Checked (Option DnscryptCert) := do
  let some cert ← readCert verify cert providerPk | pure none
  pure (checkValidity cert now)

/-- Once the clock is trusted, a certificate that verifies is valid at the time of the check. -/
theorem valid_of_verifyCert {verify : Ed25519} {raw : Bytes} {providerPk : ByteArr 32}
    {now : UInt64} {cert : DnscryptCert} (hnow : 1700000000 < now)
    (h : (verifyCert verify raw providerPk now).val = .ok (some cert)) :
    cert.tsStart.toUInt64 ≤ now ∧ now ≤ cert.tsEnd.toUInt64 := by
  obtain ⟨cert?, -, h⟩ := Metered.val_bind_eq_ok.mp h
  cases cert? with
  | none => cases h
  | some cert₀ =>
      have hvalid : checkValidity cert₀ now = some cert := Except.ok.inj h
      rw [checkValidity, if_pos hnow] at hvalid
      split at hvalid
      · cases hvalid
      · next hin =>
          cases hvalid
          obtain ⟨hstart, hend⟩ := not_or.mp hin
          exact ⟨UInt64.not_lt.mp hstart, UInt64.not_lt.mp hend⟩

/-! ## Every slice is inside the certificate -/

section Within
open Metered (Within)
variable {u : Usage} {E : Stop → Prop} {verify : Ed25519} {cert : Bytes} {providerPk : ByteArr 32}

theorem within_u32FieldBE {a b : ℕ} (hab : a ≤ b) (hb : b ≤ cert.length) :
    Within u E (fun _ => True) (u32FieldBE cert a b) :=
  (within_slice hab hb).bind fun _ _ => Metered.within_pure trivial

theorem within_readCert : Within u E (fun _ => True) (readCert verify cert providerPk) := by
  rw [readCert]
  split
  · exact Metered.within_pure trivial
  have hlen : 124 ≤ cert.length := by omega
  refine (within_slice (by omega) (by omega)).bind fun magic _ => ?_
  split
  · exact Metered.within_pure trivial
  refine (within_slice (by omega) (by omega)).bind fun version _ => ?_
  split
  · exact Metered.within_pure trivial
  refine (within_sliceFrom (by omega)).bind fun signed _ => ?_
  refine (within_slice (by omega) (by omega)).bind fun signature _ => ?_
  split
  · exact Metered.within_pure trivial
  refine (within_slice (by omega) (by omega)).bind fun pk hpk => ?_
  refine (within_copyFromSlice ?_).bind fun resolverPk _ => ?_
  · rw [hpk, OffsetTable.length_piece (by omega)]
  refine (within_slice (by omega) (by omega)).bind fun mg hmg => ?_
  refine (within_copyFromSlice ?_).bind fun clientMagic _ => ?_
  · rw [hmg, OffsetTable.length_piece (by omega)]
  refine (within_u32FieldBE (by omega) (by omega)).bind fun serial _ => ?_
  cases serial with
  | none => exact Metered.within_pure trivial
  | some serial =>
      refine (within_u32FieldBE (by omega) (by omega)).bind fun tsStart _ => ?_
      cases tsStart with
      | none => exact Metered.within_pure trivial
      | some tsStart =>
          refine (within_u32FieldBE (by omega) (by omega)).bind fun tsEnd _ => ?_
          cases tsEnd with
          | none => exact Metered.within_pure trivial
          | some tsEnd => exact Metered.within_pure trivial

theorem within_verifyCert (now : UInt64) :
    Within u E (fun _ => True) (verifyCert verify cert providerPk now) := by
  refine within_readCert.bind fun cert? _ => ?_
  cases cert? with
  | none => exact Metered.within_pure trivial
  | some cert => exact Metered.within_pure trivial

end Within

end SevMicroLoader.Dns
