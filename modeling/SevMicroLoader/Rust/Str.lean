import Mathlib.Tactic.IntervalCases
import SevMicroLoader.Lib.Hex
import SevMicroLoader.Lib.Words
import SevMicroLoader.Rust.Checked

/-!
# Text

The string functions the program calls, on the characters of a `String`. `fromUtf8Lossy`
replaces each maximal part of an ill-formed sequence by one U+FFFD; white space is the
Unicode property. The hexadecimal codec is a package of its own: `Base16` stands for it and
`Base16.Documented` says what its documentation promises.
-/

namespace Rust

/-! ## UTF-8 -/

/-- U+FFFD. -/
def replacement : Char := Char.ofNat 0xfffd

/-- By its first byte: how many bytes follow, and the bounds on the second. -/
def sequenceStart (b : UInt8) : Option (ℕ × UInt8 × UInt8) :=
  if 0xc2 ≤ b ∧ b ≤ 0xdf then some (1, 0x80, 0xbf)
  else if b = 0xe0 then some (2, 0xa0, 0xbf)
  else if b = 0xed then some (2, 0x80, 0x9f)
  else if 0xe1 ≤ b ∧ b ≤ 0xef then some (2, 0x80, 0xbf)
  else if b = 0xf0 then some (3, 0x90, 0xbf)
  else if 0xf1 ≤ b ∧ b ≤ 0xf3 then some (3, 0x80, 0xbf)
  else if b = 0xf4 then some (3, 0x80, 0x8f)
  else none

/-- The bytes that continue a sequence, as far as they are well-formed. -/
def continuation : ℕ → UInt8 → UInt8 → Bytes → Bytes
  | 0, _, _, _ => []
  | _ + 1, _, _, [] => []
  | n + 1, lo, hi, b :: bs =>
      if lo ≤ b ∧ b ≤ hi then b :: continuation n 0x80 0xbf bs else []

/-- The scalar value of a whole sequence. -/
def sequenceChar (b : UInt8) (more : Bytes) : Char :=
  Char.ofNat (more.foldl (fun acc c => acc * 64 + c.toNat % 64)
    (b.toNat % 2 ^ (6 - more.length)))

def lossyChars : Bytes → List Char
  | [] => []
  | b :: bs =>
      if b < 0x80 then Char.ofNat b.toNat :: lossyChars bs
      else
        match sequenceStart b with
        | none => replacement :: lossyChars bs
        | some (n, lo, hi) =>
            let more := continuation n lo hi bs
            (if more.length = n then sequenceChar b more else replacement) ::
              lossyChars (bs.drop more.length)
termination_by bs => bs.length

/-- `String::from_utf8_lossy`. -/
def fromUtf8Lossy (bs : Bytes) : String := String.ofList (lossyChars bs)

/-! ## Searching and splitting -/

/-- The Unicode property White_Space. -/
def isWhitespace (c : Char) : Bool :=
  let n := c.toNat
  (9 ≤ n ∧ n ≤ 13) ∨ n = 0x20 ∨ n = 0x85 ∨ n = 0xa0 ∨ n = 0x1680 ∨ (0x2000 ≤ n ∧ n ≤ 0x200a) ∨
    n = 0x2028 ∨ n = 0x2029 ∨ n = 0x202f ∨ n = 0x205f ∨ n = 0x3000

/-- `s.trim()`. -/
def trim (s : String) : String :=
  String.ofList ((s.toList.dropWhile isWhitespace).reverse.dropWhile isWhitespace).reverse

/-- `s.lines().next().unwrap_or("")`: up to the first LF, without a CR in front of it. -/
def firstLine (s : String) : String :=
  let line := s.toList.takeWhile (· ≠ '\n')
  if line.length < s.toList.length ∧ line.getLast? = some '\r' then String.ofList line.dropLast
  else String.ofList line

/-- `s.split_whitespace().collect()`. -/
def splitWhitespace (s : String) : List String :=
  ((s.toList.splitOnP isWhitespace).filter (· ≠ [])).map String.ofList

/-- `s.starts_with(start)`. -/
def startsWith (s start : String) : Bool := start.toList.isPrefixOf s.toList

/-- `s.split_once(sep)`. -/
def splitOnce (s : String) (sep : Char) : Option (String × String) :=
  match s.toList.dropWhile (· ≠ sep) with
  | [] => none
  | _ :: after => some (String.ofList (s.toList.takeWhile (· ≠ sep)), String.ofList after)

/-- `s.split(sep)`. -/
def split (s : String) (sep : Char) : List String :=
  (s.toList.splitOn sep).map String.ofList

/-- `s.as_bytes()`. -/
def asBytes (s : String) : Bytes := s.toUTF8.data.toList

/-- `c.is_ascii_hexdigit()`. -/
def isAsciiHexdigit (c : Char) : Bool :=
  (48 ≤ c.toNat ∧ c.toNat ≤ 57) ∨ (65 ≤ c.toNat ∧ c.toNat ≤ 70) ∨ (97 ≤ c.toNat ∧ c.toNat ≤ 102)

/-! ## Numbers -/

/-- The value of an ASCII digit. -/
def digitValue? (c : Char) : Option ℕ :=
  if 48 ≤ c.toNat ∧ c.toNat ≤ 57 then some (c.toNat - 48) else none

/-- The digits of a `u64`, in checked arithmetic. -/
def parseDigits : List Char → ℕ → Option ℕ
  | [], acc => some acc
  | c :: cs, acc => do
      let d ← digitValue? c
      if acc * 10 + d < 2 ^ 64 then parseDigits cs (acc * 10 + d) else none

def stripPlus : List Char → List Char
  | '+' :: rest => rest
  | cs => cs

/-- `s.parse::<u64>().ok()`: digits, after a `+` or not. -/
def parseU64 (s : String) : Option UInt64 :=
  if stripPlus s.toList = [] then none
  else (parseDigits (stripPlus s.toList) 0).map UInt64.ofNat

/-! ## Reading up to an ASCII byte -/

/-- The second byte of a sequence is not ASCII. -/
theorem le_of_sequenceStart {b lo hi : UInt8} {n : ℕ} (h : sequenceStart b = some (n, lo, hi)) :
    0x80 ≤ lo := by
  unfold sequenceStart at h
  split_ifs at h <;> cases h <;> decide

theorem length_continuation_le (n : ℕ) (lo hi : UInt8) (bs : Bytes) :
    (continuation n lo hi bs).length ≤ bs.length := by
  induction bs generalizing n lo hi with
  | nil => cases n <;> exact le_rfl
  | cons b bs ih =>
      cases n with
      | zero => exact Nat.zero_le _
      | succ n =>
          rw [continuation]
          split
          · exact Nat.succ_le_succ (ih n 0x80 0xbf)
          · exact Nat.zero_le _

/-- A sequence ends in front of an ASCII byte. -/
theorem continuation_append_ascii {b lo : UInt8} (hb : b < 0x80) (hlo : 0x80 ≤ lo) (n : ℕ)
    (hi : UInt8) (bs ys : Bytes) :
    continuation n lo hi (bs ++ b :: ys) = continuation n lo hi bs := by
  induction bs generalizing n lo hi with
  | nil =>
      cases n with
      | zero => rfl
      | succ n =>
          have hout : ¬ (lo ≤ b ∧ b ≤ hi) := fun h =>
            absurd (UInt8.le_trans hlo h.1) (UInt8.not_le.mpr hb)
          exact if_neg hout
  | cons c bs ih =>
      cases n with
      | zero => rfl
      | succ n => rw [List.cons_append, continuation, continuation, ih (UInt8.le_refl _)]

/-- **An ASCII byte is a boundary.** What is read in front of it does not depend on what comes
behind it. -/
theorem lossyChars_append_ascii {b : UInt8} (hb : b < 0x80) (xs ys : Bytes) :
    lossyChars (xs ++ b :: ys) = lossyChars xs ++ Char.ofNat b.toNat :: lossyChars ys := by
  induction xs using lossyChars.induct with
  | case1 =>
      have hfirst : lossyChars (b :: ys) = Char.ofNat b.toNat :: lossyChars ys := by
        rw [lossyChars, if_pos hb]
      rw [List.nil_append, hfirst, lossyChars, List.nil_append]
  | case2 c bs hc ih =>
      rw [List.cons_append, lossyChars, if_pos hc, lossyChars, if_pos hc]
      exact congrArg _ ih
  | case3 c bs hc hstart ih =>
      rw [List.cons_append, lossyChars, if_neg hc, hstart, lossyChars, if_neg hc, hstart]
      exact congrArg _ ih
  | case4 c bs hc n lo hi hstart more ih =>
      have hmore : continuation n lo hi (bs ++ b :: ys) = more :=
        continuation_append_ascii hb (le_of_sequenceStart hstart) n hi bs ys
      rw [List.cons_append, lossyChars, if_neg hc, hstart, lossyChars, if_neg hc, hstart]
      dsimp only
      rw [hmore, List.drop_append_of_le_length (length_continuation_le n lo hi bs), ih]
      rfl
/-- The first line does not depend on what comes behind its end. -/
theorem firstLine_append_newline (cs ds ds' : List Char) :
    firstLine (String.ofList (cs ++ '\n' :: ds)) =
      firstLine (String.ofList (cs ++ '\n' :: ds')) := by
  have htake (ds : List Char) :
      (cs ++ '\n' :: ds).takeWhile (· ≠ '\n') = cs.takeWhile (· ≠ '\n') := by
    induction cs with
    | nil => rfl
    | cons c cs ih => rw [List.cons_append, List.takeWhile_cons, List.takeWhile_cons, ih]
  have hlen (ds : List Char) : (cs.takeWhile (· ≠ '\n')).length < (cs ++ '\n' :: ds).length := by
    have hle := (cs.takeWhile_prefix (· ≠ '\n')).length_le
    rw [List.length_append, List.length_cons]
    omega
  simp only [firstLine, String.toList_ofList, htake, hlen, true_and]

/-! ## Splitting a text at its separators -/

/-- A word in front of a space is the first word. -/
theorem splitWhitespace_word {w : List Char} (hne : w ≠ []) (hw : ∀ c ∈ w, isWhitespace c = false)
    (rest : List Char) :
    splitWhitespace (String.ofList (w ++ ' ' :: rest)) =
      String.ofList w :: splitWhitespace (String.ofList rest) := by
  rw [splitWhitespace, splitWhitespace, String.toList_ofList, String.toList_ofList,
    List.splitOnP_append_cons_of_forall_mem hw ' ' (by decide), List.filter_cons_of_pos (by simpa),
    List.map_cons]

/-- The words of a text. -/
theorem splitWhitespace_eq_iff {s : String} {words : List String} :
    splitWhitespace s = words ↔ Words isWhitespace s.toList (words.map String.toList) := by
  have hparts : (splitWhitespace s).map String.toList = nonemptyParts isWhitespace s.toList := by
    rw [splitWhitespace, nonemptyParts, List.map_map]
    simp only [Function.comp_def, String.toList_ofList, List.map_id']
    exact List.filter_congr fun part _ => by cases part <;> rfl
  rw [words_iff, ← hparts]
  exact ((List.map_injective_iff.mpr fun a b => String.toList_inj.mp).eq_iff).symm

/-- What stands in front of a separator is the first part. -/
theorem split_part {w : List Char} {sep : Char} (hw : sep ∉ w) (rest : List Char) :
    split (String.ofList (w ++ sep :: rest)) sep =
      String.ofList w :: split (String.ofList rest) sep := by
  have hp : ∀ c ∈ w, (c == sep) = false := by
    intro c hc
    exact beq_eq_false_iff_ne.mpr fun h => hw (h ▸ hc)
  rw [split, split, String.toList_ofList, String.toList_ofList, List.splitOn_eq_splitOnP,
    List.splitOn_eq_splitOnP, List.splitOnP_append_cons_of_forall_mem hp sep (by simp),
    List.map_cons]

theorem split_last {w : List Char} {sep : Char} (hw : sep ∉ w) :
    split (String.ofList w) sep = [String.ofList w] := by
  rw [split, String.toList_ofList, List.splitOn_eq_singleton hw]
  rfl

/-- A text with a separator splits at the first one. -/
theorem splitOnce_eq_some_iff {s before after : String} {sep : Char} :
    splitOnce s sep = some (before, after) ↔
      s.toList = before.toList ++ sep :: after.toList ∧ sep ∉ before.toList := by
  constructor
  · intro h
    unfold splitOnce at h
    split at h
    · cases h
    · next c rest hdrop =>
      obtain ⟨rfl, rfl⟩ := Prod.mk.injEq _ _ _ _ ▸ Option.some.inj h
      have hsep : c = sep := by
        have hstop := List.head?_dropWhile_not (· ≠ sep) s.toList
        rw [hdrop] at hstop
        simpa using hstop
      rw [String.toList_ofList, String.toList_ofList, ← hsep, ← hdrop, hsep,
        List.takeWhile_append_dropWhile]
      exact ⟨rfl, fun hmem => by simpa using List.mem_takeWhile_imp hmem⟩
  · rintro ⟨hs, hsep⟩
    have hbefore : ∀ c ∈ before.toList, decide (c ≠ sep) = true := by
      intro c hc
      exact decide_eq_true fun heq => hsep (heq ▸ hc)
    rw [splitOnce, hs, List.dropWhile_append_of_pos hbefore, List.takeWhile_append_of_pos hbefore]
    simp

theorem splitOnce_eq_none_iff {s : String} {sep : Char} :
    splitOnce s sep = none ↔ sep ∉ s.toList := by
  constructor
  · intro h hmem
    obtain ⟨before, after, hs, hsep⟩ := List.eq_append_cons_of_mem hmem
    have hsome : splitOnce s sep = some (String.ofList before, String.ofList after) := by
      rw [splitOnce_eq_some_iff, String.toList_ofList, String.toList_ofList]
      exact ⟨hs, hsep⟩
    rw [h] at hsome
    cases hsome
  · intro h
    cases hsplit : splitOnce s sep with
    | none => rfl
    | some parts =>
        obtain ⟨hs, -⟩ := splitOnce_eq_some_iff.mp hsplit
        exact absurd (hs ▸ List.mem_append_right _ List.mem_cons_self) h

theorem startsWith_iff {s start : String} : startsWith s start ↔ ∃ rest, s = start ++ rest := by
  rw [startsWith, List.isPrefixOf_iff_prefix]
  constructor
  · rintro ⟨rest, hrest⟩
    exact ⟨String.ofList rest, String.toList_inj.mp (by
      rw [String.toList_append, String.toList_ofList, hrest])⟩
  · rintro ⟨rest, rfl⟩
    exact ⟨rest.toList, String.toList_append.symm⟩

/-! ## Hexadecimal digits -/

/-- ASCII characters are one byte each. -/
theorem utf8ByteSize_of_ascii {cs : List Char} (h : ∀ c ∈ cs, c.utf8Size = 1) :
    (String.ofList cs).utf8ByteSize = cs.length := by
  induction cs with
  | nil => rfl
  | cons c cs ih =>
      obtain ⟨hc, hcs⟩ := List.forall_mem_cons.mp h
      have hcons : String.ofList (c :: cs) = String.singleton c ++ String.ofList cs := by
        apply String.toList_inj.mp
        rw [String.toList_append, String.toList_ofList, String.toList_ofList,
          String.toList_singleton, List.singleton_append]
      rw [hcons, String.utf8ByteSize_append, String.utf8ByteSize_singleton, hc, ih hcs,
        List.length_cons, Nat.add_comm]

theorem utf8Size_of_isAsciiHexdigit {c : Char} (h : isAsciiHexdigit c) : c.utf8Size = 1 := by
  rw [isAsciiHexdigit, decide_eq_true_eq] at h
  rw [Char.utf8Size_eq_one_iff, UInt32.le_iff_toNat_le]
  change c.toNat ≤ 127
  omega

theorem isSome_value?_of_isAsciiHexdigit {c : Char} (h : isAsciiHexdigit c) :
    (Hex.value? c).isSome := by
  rw [isAsciiHexdigit, decide_eq_true_eq] at h
  unfold Hex.value?
  split_ifs <;> first | rfl | omega

/-! ## Reading a decimal number -/

/-- The number a list of digits writes, after the number `acc`. -/
def decimalValue (acc : ℕ) (cs : List Char) : ℕ :=
  cs.foldl (fun acc c => acc * 10 + (c.toNat - 48)) acc

theorem le_decimalValue (acc : ℕ) (cs : List Char) : acc ≤ decimalValue acc cs := by
  induction cs generalizing acc with
  | nil => exact le_rfl
  | cons c cs ih =>
      have htail := ih (acc * 10 + (c.toNat - 48))
      rw [decimalValue, List.foldl_cons]
      rw [decimalValue] at htail
      omega

theorem digitValue?_of_isDigit {c : Char} (h : c.isDigit) :
    digitValue? c = some (c.toNat - 48) := by
  rw [Char.isDigit, Bool.and_eq_true, decide_eq_true_eq, decide_eq_true_eq] at h
  exact if_pos h

/-- Digits whose number fits are read as that number. -/
theorem parseDigits_eq_some {cs : List Char} {acc : ℕ} (hdigit : ∀ c ∈ cs, c.isDigit)
    (hfit : decimalValue acc cs < 2 ^ 64) : parseDigits cs acc = some (decimalValue acc cs) := by
  induction cs generalizing acc with
  | nil => rfl
  | cons c cs ih =>
      have hnext : decimalValue acc (c :: cs) = decimalValue (acc * 10 + (c.toNat - 48)) cs := rfl
      rw [hnext] at hfit ⊢
      have hle := le_decimalValue (acc * 10 + (c.toNat - 48)) cs
      rw [parseDigits, digitValue?_of_isDigit (hdigit c List.mem_cons_self)]
      change (if _ then _ else none) = _
      rw [if_pos (by omega)]
      exact ih (fun c' hc' => hdigit c' (List.mem_cons_of_mem _ hc')) hfit

theorem decimalValue_append (acc : ℕ) (cs ds : List Char) :
    decimalValue acc (cs ++ ds) = decimalValue (decimalValue acc cs) ds := List.foldl_append

theorem toNat_digitChar {d : ℕ} (h : d < 10) : d.digitChar.toNat - 48 = d := by
  interval_cases d <;> rfl

/-- The decimal digits of a number write that number. -/
theorem decimalValue_toDigits (n : ℕ) : decimalValue 0 (Nat.toDigits 10 n) = n := by
  induction n using Nat.strong_induction_on with
  | _ n ih =>
      by_cases h : n < 10
      · rw [Nat.toDigits_of_lt_base h]
        change 0 * 10 + (n.digitChar.toNat - 48) = n
        rw [toNat_digitChar h]
        omega
      · rw [Nat.toDigits_of_base_le (by decide) (by omega), decimalValue_append,
          ih (n / 10) (by omega)]
        change n / 10 * 10 + ((n % 10).digitChar.toNat - 48) = n
        rw [toNat_digitChar (Nat.mod_lt n (by decide))]
        omega

theorem stripPlus_of_isDigit {cs : List Char} (h : ∀ c ∈ cs, c.isDigit) : stripPlus cs = cs := by
  unfold stripPlus
  split
  · exact absurd (h '+' List.mem_cons_self) (by decide)
  · rfl

/-- **A number written in digits is read back**, as long as it fits. -/
theorem parseU64_digits {cs : List Char} (hne : cs ≠ []) (hdigit : ∀ c ∈ cs, c.isDigit)
    (hfit : decimalValue 0 cs < 2 ^ 64) :
    parseU64 (String.ofList cs) = some (UInt64.ofNat (decimalValue 0 cs)) := by
  rw [parseU64, String.toList_ofList, stripPlus_of_isDigit hdigit, if_neg hne,
    parseDigits_eq_some hdigit hfit]
  rfl

/-! ### Numerals -/

/-- A `u64` in decimal digits, after a `+` or not. -/
def Numeral (cs : List Char) (n : UInt64) : Prop :=
  ∃ digits, (cs = digits ∨ cs = '+' :: digits) ∧ digits ≠ [] ∧ (∀ c ∈ digits, c.isDigit) ∧
    decimalValue 0 digits = n.toNat

theorem isDigit_of_digitValue? {c : Char} {d : ℕ} (h : digitValue? c = some d) :
    c.isDigit ∧ d = c.toNat - 48 := by
  unfold digitValue? at h
  split at h
  · next hc =>
    rw [Char.isDigit, Bool.and_eq_true, decide_eq_true_eq, decide_eq_true_eq]
    exact ⟨hc, (Option.some.inj h).symm⟩
  · cases h

/-- What is read as a number is digits that write it. -/
theorem digits_of_parseDigits {cs : List Char} {acc n : ℕ} (hacc : acc < 2 ^ 64)
    (h : parseDigits cs acc = some n) :
    (∀ c ∈ cs, c.isDigit) ∧ decimalValue acc cs = n ∧ n < 2 ^ 64 := by
  induction cs generalizing acc with
  | nil =>
      cases h
      exact ⟨nofun, rfl, hacc⟩
  | cons c cs ih =>
      obtain ⟨d, hd, hnext⟩ := Option.bind_eq_some_iff.mp h
      obtain ⟨hc, rfl⟩ := isDigit_of_digitValue? hd
      split at hnext
      · next hfit =>
        obtain ⟨hcs, hvalue, hlt⟩ := ih hfit hnext
        exact ⟨List.forall_mem_cons.mpr ⟨hc, hcs⟩, hvalue, hlt⟩
      · cases hnext

theorem eq_stripPlus (cs : List Char) : cs = stripPlus cs ∨ cs = '+' :: stripPlus cs := by
  unfold stripPlus
  split
  · exact .inr rfl
  · exact .inl rfl

/-- **A number is read from its numerals, and from nothing else.** -/
theorem parseU64_eq_some_iff {s : String} {n : UInt64} :
    parseU64 s = some n ↔ Numeral s.toList n := by
  constructor
  · intro h
    rw [parseU64] at h
    split at h
    · cases h
    · next hne =>
      obtain ⟨value, hvalue, rfl⟩ := Option.map_eq_some_iff.mp h
      obtain ⟨hdigit, hdecimal, hlt⟩ := digits_of_parseDigits (by decide) hvalue
      refine ⟨stripPlus s.toList, eq_stripPlus _, hne, hdigit, ?_⟩
      rw [hdecimal, UInt64.toNat_ofNat_of_lt' hlt]
  · rintro ⟨digits, hs, hne, hdigit, hvalue⟩
    have hstrip : stripPlus s.toList = digits := by
      rcases hs with hs | hs
      · rw [hs, stripPlus_of_isDigit hdigit]
      · rw [hs, stripPlus]
    rw [parseU64, hstrip, if_neg hne, parseDigits_eq_some hdigit (hvalue ▸ n.toNat_lt), hvalue,
      Option.map_some, UInt64.ofNat_toNat]

theorem Numeral.colon_not_mem {cs : List Char} {n : UInt64} (h : Numeral cs n) : ':' ∉ cs := by
  obtain ⟨digits, hcs, -, hdigit, -⟩ := h
  intro hmem
  have hdigits : ':' ∈ digits := by
    rcases hcs with rfl | rfl
    · exact hmem
    · exact (List.mem_cons.mp hmem).resolve_left (by decide)
  exact absurd (hdigit _ hdigits) (by decide)
/-! ## The `base16ct` package -/

structure Base16 where
  /-- `base16ct::lower::encode_string`. -/
  lowerEncode : Bytes → String
  /-- `base16ct::mixed::decode_vec`; an error is `none`. -/
  mixedDecode : String → Option Bytes

/-- What the package documents: lower-case text out, text of either case in. -/
structure Base16.Documented (B : Base16) : Prop where
  lower_eq : ∀ bs, B.lowerEncode bs = Hex.lower bs
  mixed_eq : ∀ s, B.mixedDecode s = Hex.decode s

/-- The package as documented. -/
def Base16.reference : Base16 := ⟨Hex.lower, Hex.decode⟩

theorem Base16.documented_reference : Base16.reference.Documented := ⟨fun _ => rfl, fun _ => rfl⟩

/-- The lossy reading of the examples in the documentation: an ill-formed byte, and a sequence
cut short before an ASCII byte. -/
example : fromUtf8Lossy [0x48, 0xf0, 0x90, 0x80, 0x57, 0xc3, 0xa9] =
    String.ofList ['H', replacement, 'W', 'é'] := by decide +kernel

end Rust
