import Mathlib.Data.List.MinMax
import SevMicroLoader.Dns.Cache

/-!
# Which certificate is chosen

Under a clock that reads one trusted time, an entry of a resolver's answer counts exactly when it
`Qualifies`: its fixed fields, its signature and its validity interval are read off its bytes. The
loop over the entries leaves the first of those with the largest serial
(`runs_bestCert`), and the others do not matter.
-/

namespace SevMicroLoader.Dns
open Rust OffsetTable

/-! ## Entries -/

/-- The big-endian number of four bytes. -/
def numberAt (raw : Bytes) (a : ℕ) : ℕ := Endian.ofBE (piece raw a (a + 4))

def serialOf (raw : Bytes) : ℕ := numberAt raw 112

/-- The certificate that the bytes spell. -/
def certOf (raw : Bytes) : DnscryptCert where
  resolverPk := padded 32 (piece raw 72 104)
  clientMagic := padded 8 (piece raw 104 112)
  serial := UInt32.ofNat (serialOf raw)
  tsStart := UInt32.ofNat (numberAt raw 116)
  tsEnd := UInt32.ofNat (numberAt raw 120)

/-- The fixed fields are right, and the provider has signed what follows the signature. -/
structure Signed (verify : Ed25519) (providerPk : ByteArr 32) (raw : Bytes) : Prop where
  length_le : 124 ≤ raw.length
  magic : piece raw 0 4 = bstr "DNSC"
  version : piece raw 4 6 = [0x00, 0x02]
  signature : verify providerPk.val (raw.drop 72) (piece raw 8 72) = true

/-- The entry passes every check at `now`. -/
structure Qualifies (verify : Ed25519) (providerPk : ByteArr 32) (now : UInt64) (raw : Bytes) :
    Prop extends Signed verify providerPk raw where
  started : numberAt raw 116 ≤ now.toNat
  not_ended : now.toNat ≤ numberAt raw 120

section Decidable
variable (verify : Ed25519) (providerPk : ByteArr 32) (now : UInt64) (raw : Bytes)

instance : Decidable (Signed verify providerPk raw) :=
  decidable_of_iff (124 ≤ raw.length ∧ piece raw 0 4 = bstr "DNSC" ∧
      piece raw 4 6 = [0x00, 0x02] ∧ verify providerPk.val (raw.drop 72) (piece raw 8 72) = true)
    ⟨fun ⟨h₁, h₂, h₃, h₄⟩ => ⟨h₁, h₂, h₃, h₄⟩, fun ⟨h₁, h₂, h₃, h₄⟩ => ⟨h₁, h₂, h₃, h₄⟩⟩

instance : Decidable (Qualifies verify providerPk now raw) :=
  decidable_of_iff (Signed verify providerPk raw ∧ numberAt raw 116 ≤ now.toNat ∧
      now.toNat ≤ numberAt raw 120)
    ⟨fun ⟨h₁, h₂, h₃⟩ => ⟨h₁, h₂, h₃⟩, fun ⟨h₁, h₂, h₃⟩ => ⟨h₁, h₂, h₃⟩⟩

end Decidable

/-! ## One entry -/

variable {K : Packages} {verify : Ed25519} {providerPk : ByteArr 32} {now : UInt64} {raw : Bytes}

theorem numberAt_lt (raw : Bytes) (a : ℕ) : numberAt raw a < 2 ^ 32 := by
  have hlen : (piece raw a (a + 4)).reverse.length ≤ 4 := by
    rw [List.length_reverse, piece, List.length_take]
    omega
  have hlt := Endian.ofLE_lt (piece raw a (a + 4)).reverse
  exact hlt.trans_le (Nat.pow_le_pow_right (by decide) hlen)

theorem toNat_serial_certOf (raw : Bytes) : (certOf raw).serial.toNat = serialOf raw :=
  UInt32.toNat_ofNat_of_lt' (numberAt_lt raw 112)

theorem padded_of_length {n : ℕ} {bs : Bytes} (h : bs.length = n) : padded n bs = ⟨bs, h⟩ := by
  refine Subtype.ext ?_
  change resized bs n 0 = bs
  rw [resized, h, Nat.sub_self, List.replicate_zero, List.append_nil,
    List.take_of_length_le h.le]

theorem val_u32FieldBE {a : ℕ} (h : a + 4 ≤ raw.length) :
    (u32FieldBE raw a (a + 4)).val = .ok (some (UInt32.ofNat (numberAt raw a))) := by
  have hlen : (piece raw a (a + 4)).length = 4 := by
    rw [length_piece h]
    omega
  rw [u32FieldBE, Metered.val_bind_of_ok (val_slice (by omega) h), if_pos hlen]
  rfl

/-- A certificate is read exactly off the signed entries. -/
theorem val_readCert : (readCert verify raw providerPk).val =
    .ok (if Signed verify providerPk raw then some (certOf raw) else none) := by
  rw [readCert]
  by_cases hlen : raw.length < 124
  · rw [if_pos hlen, if_neg fun h => absurd h.length_le (Nat.not_le.mpr hlen)]
    rfl
  rw [if_neg hlen, Metered.val_bind_of_ok (val_slice (by omega) (by omega))]
  by_cases hmagic : piece raw 0 4 = bstr "DNSC"
  swap
  · rw [if_pos hmagic, if_neg fun h => hmagic h.magic]
    rfl
  rw [if_neg (not_not.mpr hmagic), Metered.val_bind_of_ok (val_slice (by omega) (by omega))]
  by_cases hversion : piece raw 4 6 = [0x00, 0x02]
  swap
  · rw [if_pos hversion, if_neg fun h => hversion h.version]
    rfl
  rw [if_neg (not_not.mpr hversion), Metered.val_bind_of_ok (val_sliceFrom (by omega)),
    Metered.val_bind_of_ok (val_slice (by omega) (by omega))]
  by_cases hsig : verify providerPk.val (raw.drop 72) (piece raw 8 72) = true
  swap
  · rw [if_pos hsig, if_neg fun h => hsig h.signature]
    rfl
  have hpk : (piece raw 72 104).length = 32 := length_piece (by omega)
  have hclient : (piece raw 104 112).length = 8 := length_piece (by omega)
  rw [if_neg (not_not.mpr hsig), if_pos ⟨Nat.not_lt.mp hlen, hmagic, hversion, hsig⟩,
    Metered.val_bind_of_ok (val_slice (by omega) (by omega)),
    Metered.val_bind_of_ok (val_copyFromSlice hpk),
    Metered.val_bind_of_ok (val_slice (by omega) (by omega)),
    Metered.val_bind_of_ok (val_copyFromSlice hclient),
    Metered.val_bind_of_ok (val_u32FieldBE (by omega)),
    Metered.val_bind_of_ok (val_u32FieldBE (by omega)),
    Metered.val_bind_of_ok (val_u32FieldBE (by omega)), certOf, padded_of_length hpk,
    padded_of_length hclient]
  rfl

/-- A signed entry is valid at a trusted time when its interval says so. -/
theorem checkValidity_certOf (hnow : 1700000000 < now) (hsigned : Signed verify providerPk raw) :
    checkValidity (certOf raw) now =
      if Qualifies verify providerPk now raw then some (certOf raw) else none := by
  have hstart : (certOf raw).tsStart.toUInt64.toNat = numberAt raw 116 := by
    rw [UInt32.toNat_toUInt64]
    exact UInt32.toNat_ofNat_of_lt' (numberAt_lt raw 116)
  have hend : (certOf raw).tsEnd.toUInt64.toNat = numberAt raw 120 := by
    rw [UInt32.toNat_toUInt64]
    exact UInt32.toNat_ofNat_of_lt' (numberAt_lt raw 120)
  rw [checkValidity, if_pos hnow]
  by_cases hq : Qualifies verify providerPk now raw
  · rw [if_pos hq, if_neg]
    rw [UInt64.lt_iff_toNat_lt, gt_iff_lt, UInt64.lt_iff_toNat_lt, hstart, hend]
    have hstarted := hq.started
    have hnotEnded := hq.not_ended
    omega
  · rw [if_neg hq, if_pos]
    rw [UInt64.lt_iff_toNat_lt, gt_iff_lt, UInt64.lt_iff_toNat_lt, hstart, hend]
    by_contra hin
    exact hq ⟨hsigned, by omega, by omega⟩

/-! ## The loop over the entries -/

theorem readings_append (t t' : Trace) : readings (t ++ t') = readings t ++ readings t' :=
  List.filterMap_append

section Runs
variable {t : Trace}

theorem runs_verifyCertNow {o : Option (Option DnscryptCert)} (hnow : 1700000000 < now)
    (hrun : Prog.Runs (verifyCertNow K raw providerPk) t o)
    (hclock : ∀ now' ∈ readings t, now' = now) :
    o = some (if Qualifies K.ed25519 providerPk now raw then some (certOf raw) else none) := by
  have hread : run (readCert K.ed25519 raw providerPk) =
      pure (if Signed K.ed25519 providerPk raw then some (certOf raw) else none) := by
    rw [run, val_readCert]
  rw [verifyCertNow, hread] at hrun
  by_cases hsigned : Signed K.ed25519 providerPk raw
  · rw [if_pos hsigned] at hrun
    obtain ⟨r, t', rfl, hrest⟩ := Prog.Runs.of_replied none hrun
    have hr : r.getD 0 = now := hclock _ (mem_readings.mpr ⟨r, List.mem_cons_self, rfl⟩)
    obtain ⟨-, rfl⟩ := Prog.Runs.of_pure hrest
    rw [hr, checkValidity_certOf hnow hsigned]
  · rw [if_neg hsigned] at hrun
    obtain ⟨-, rfl⟩ := Prog.Runs.of_pure hrun
    rw [if_neg fun h => hsigned h.toSigned]

/-- The loop folds over the entries that qualify. -/
theorem runs_bestCert_foldl {o : Option (Option DnscryptCert)} {certsRaw : List Bytes}
    {best : Option DnscryptCert} (hnow : 1700000000 < now)
    (hrun : Prog.Runs (bestCert K providerPk certsRaw best) t o)
    (hclock : ∀ now' ∈ readings t, now' = now) :
    o = some ((certsRaw.filter (Qualifies K.ed25519 providerPk now ·)).foldl
      (fun best raw => some (betterCert (certOf raw) best)) best) := by
  induction certsRaw generalizing best t with
  | nil =>
      obtain ⟨-, rfl⟩ := Prog.Runs.of_pure hrun
      rfl
  | cons raw certsRaw ih =>
      rcases hrun.of_bind with ⟨t₁, r, t₂, rfl, hfirst, hrest⟩ | ⟨hstop, -⟩
      · rw [readings_append] at hclock
        have hr := runs_verifyCertNow hnow hfirst fun now' h =>
          hclock now' (List.mem_append_left _ h)
        have hclock₂ := fun now' h => hclock now' (List.mem_append_right (readings t₁) h)
        by_cases hq : Qualifies K.ed25519 providerPk now raw
        · rw [if_pos hq] at hr
          cases hr
          rw [List.filter_cons_of_pos (by simpa using hq), List.foldl_cons]
          exact ih hrest hclock₂
        · rw [if_neg hq] at hr
          cases hr
          rw [List.filter_cons_of_neg (by simpa using hq)]
          exact ih hrest hclock₂
      · have hr := runs_verifyCertNow hnow hstop hclock
        cases hr

/-- Keeping the better certificate is keeping the better entry. -/
theorem foldl_betterCert (raws : List Bytes) (o : Option Bytes) :
    raws.foldl (fun best raw => some (betterCert (certOf raw) best)) (o.map certOf) =
      (raws.foldl (List.argAux fun b c => serialOf c < serialOf b) o).map certOf := by
  induction raws generalizing o with
  | nil => rfl
  | cons raw raws ih =>
      rw [List.foldl_cons, List.foldl_cons, ← ih]
      cases o with
      | none => rfl
      | some raw₀ =>
          have hlt : (certOf raw).serial > (certOf raw₀).serial ↔
              serialOf raw₀ < serialOf raw := by
            rw [gt_iff_lt, UInt32.lt_iff_toNat_lt, toNat_serial_certOf, toNat_serial_certOf]
          by_cases h : serialOf raw₀ < serialOf raw
          · simp only [Option.map_some, betterCert, List.argAux, if_pos h, if_pos (hlt.mpr h)]
          · simp only [Option.map_some, betterCert, List.argAux, if_neg h, if_neg (mt hlt.mp h)]

/-- **The loop leaves the first qualifying entry with the largest serial.** -/
theorem runs_bestCert {o : Option (Option DnscryptCert)} {certsRaw : List Bytes}
    (hnow : 1700000000 < now) (hrun : Prog.Runs (bestCert K providerPk certsRaw none) t o)
    (hclock : ∀ now' ∈ readings t, now' = now) :
    o = some (((certsRaw.filter (Qualifies K.ed25519 providerPk now ·)).argmax serialOf).map
      certOf) := by
  rw [runs_bestCert_foldl hnow hrun hclock, List.argmax]
  exact congrArg some (foldl_betterCert _ none)

end Runs

/-! ## The choice -/

/-- Before the chosen element of a list all have a smaller key, and behind it none has a larger. -/
theorem exists_split_of_mem_argmax {α : Type} [DecidableEq α] {f : α → ℕ} {l : List α} {m : α}
    (h : m ∈ l.argmax f) : ∃ before after, l = before ++ m :: after ∧
      (∀ a ∈ before, f a < f m) ∧ ∀ a ∈ after, f a ≤ f m := by
  obtain ⟨hmem, hmax, hfirst⟩ := List.mem_argmax_iff.mp h
  have hlt : l.idxOf m < l.length := List.idxOf_lt_length_of_mem hmem
  have hcut : l = l.take (l.idxOf m) ++ m :: l.drop (l.idxOf m + 1) := by
    have hdrop := List.drop_eq_getElem_cons hlt
    rw [List.getElem_idxOf] at hdrop
    rw [← hdrop, List.take_append_drop]
  refine ⟨_, _, hcut, fun a ha => ?_, fun a ha => hmax a (List.mem_of_mem_drop ha)⟩
  by_contra hge
  have hal : a ∈ l := List.mem_of_mem_take ha
  have hle := hfirst a hal (Nat.not_lt.mp hge)
  have hbefore := (List.mem_take_iff_idxOf_lt hal).mp ha
  omega

/-- **Certificate choice.** At a trusted time every run of the loop returns; it selects a
certificate exactly when an entry qualifies, and then that of the earliest qualifying entry with
the largest serial. Entries that do not qualify make no difference. -/
theorem certificate_choice (K : Packages) (providerPk : ByteArr 32) (now : UInt64)
    (hnow : 1700000000 < now) (certsRaw : List Bytes) (t : Trace)
    (o : Option (Option DnscryptCert))
    (hrun : Prog.Runs (bestCert K providerPk certsRaw none) t o)
    (hclock : ∀ now' ∈ readings t, now' = now) :
    ∃ best, o = some best ∧
      (best.isSome ↔ ∃ raw ∈ certsRaw, Qualifies K.ed25519 providerPk now raw) ∧
      (∀ cert, best = some cert → ∃ before raw after, certsRaw = before ++ raw :: after ∧
        cert = certOf raw ∧ Qualifies K.ed25519 providerPk now raw ∧
        (∀ raw' ∈ before, Qualifies K.ed25519 providerPk now raw' →
          serialOf raw' < serialOf raw) ∧
        ∀ raw' ∈ after, Qualifies K.ed25519 providerPk now raw' → serialOf raw' ≤ serialOf raw) ∧
      ∀ (certsRaw' : List Bytes) (t' : Trace) (best' : Option DnscryptCert),
        Prog.Runs (bestCert K providerPk certsRaw' none) t' (some best') →
        (∀ now' ∈ readings t', now' = now) →
        certsRaw'.filter (Qualifies K.ed25519 providerPk now ·) =
          certsRaw.filter (Qualifies K.ed25519 providerPk now ·) → best' = best := by
  refine ⟨_, runs_bestCert hnow hrun hclock, ?_, ?_, ?_⟩
  · rw [Option.isSome_map, Option.isSome_iff_ne_none, ne_eq, List.argmax_eq_none,
      List.filter_eq_nil_iff]
    simp
  · intro cert hcert
    obtain ⟨raw, hraw, rfl⟩ := Option.map_eq_some_iff.mp hcert
    obtain ⟨before, after, hsplit, hbefore, hafter⟩ := exists_split_of_mem_argmax hraw
    -- the entries between the qualifying ones are put back
    obtain ⟨l₁, l₂, rfl, rfl, hl₂⟩ := List.filter_eq_append_iff.mp hsplit
    obtain ⟨l₃, l₄, rfl, hl₃, hq, rfl⟩ := List.filter_eq_cons_iff.mp hl₂
    refine ⟨l₁ ++ l₃, raw, l₄, by rw [List.append_assoc], rfl, by simpa using hq, ?_, ?_⟩
    · intro raw' hmem hq'
      rcases List.mem_append.mp hmem with h | h
      · exact hbefore raw' (List.mem_filter.mpr ⟨h, by simpa using hq'⟩)
      · exact absurd hq' (by simpa using hl₃ raw' h)
    · intro raw' hmem hq'
      exact hafter raw' (List.mem_filter.mpr ⟨hmem, by simpa using hq'⟩)
  · intro certsRaw' t' best' hrun' hclock' hsame
    have hbest := runs_bestCert hnow hrun' hclock'
    rw [hsame] at hbest
    exact Option.some.inj hbest

/-- Garbage, a certificate and the same certificate again, under the environment of one time. -/
def sampleChoice : Trace × Option (Option DnscryptCert) :=
  Prog.exec (sampleEnv true 1780272100)
    (bestCert samplePackages quad9Pk [bstr "garbage", sampleCert, sampleCert] none) []

theorem certificate_choice_sample :
    ∃ best, sampleChoice.2 = some best ∧ (best.isSome ↔ ∃ raw ∈
      [bstr "garbage", sampleCert, sampleCert],
        Qualifies samplePackages.ed25519 quad9Pk 1780272100 raw) := by
  have hrun : Prog.Runs (bestCert samplePackages quad9Pk
      [bstr "garbage", sampleCert, sampleCert] none) sampleChoice.1 sampleChoice.2 :=
    Prog.runs_exec sampleEnv_replies _ []
  have hreadings : readings sampleChoice.1 = [1780272100, 1780272100] := by decide +kernel
  have hclock : ∀ now' ∈ readings sampleChoice.1, now' = 1780272100 := by
    rw [hreadings]
    simp only [List.forall_mem_cons, List.not_mem_nil, false_implies, implies_true, and_true]
  obtain ⟨best, hbest, hiff, -⟩ := certificate_choice samplePackages quad9Pk 1780272100
    (by decide) _ _ _ hrun hclock
  exact ⟨best, hbest, hiff⟩

end SevMicroLoader.Dns
