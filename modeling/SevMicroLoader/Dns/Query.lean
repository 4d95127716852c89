import SevMicroLoader.Dns.Client

/-!
# Host names in queries

`decodeName` reads a name as RFC 1035 has it: labels of at most 63 bytes up to a zero. The
query builders push the length of a label as one byte, whatever it is, and take the root
dot for the start of one more label. So a query decodes to the labels of its host name
exactly when these have at most 63 bytes and no dot follows them (`encoded_iff`).
-/

namespace SevMicroLoader.Dns
open Rust

/-! ## Names -/

/-- The labels of an uncompressed name, and what follows its terminator. -/
def decodeName : Bytes → Option (List Bytes × Bytes)
  | [] => none
  | len :: rest =>
      if len = 0 then some ([], rest)
      else if len.toNat ≤ 63 ∧ len.toNat ≤ rest.length then
        (decodeName (rest.drop len.toNat)).map fun (labels, after) =>
          (rest.take len.toNat :: labels, after)
      else none
termination_by bytes => bytes.length
decreasing_by
  simp only [List.length_drop, List.length_cons]
  omega

/-- What a builder writes for one part of the domain. -/
def labelBytes (part : String) : Bytes := UInt8.ofNat (asBytes part).length :: asBytes part

theorem drop_buildRecordQuery (domain : String) (question : Bytes) :
    (buildRecordQuery domain question).drop 12 =
      (split domain '.').flatMap labelBytes ++ ([0] ++ question) := by
  simp only [buildRecordQuery, List.append_assoc]
  rfl

variable {parts : List String} {labels : List Bytes} {rest after : Bytes}

theorem decodeName_zero (rest : Bytes) : decodeName (0 :: rest) = some ([], rest) := by
  rw [decodeName, if_pos rfl]

theorem length_asBytes_pos {part : String} (h : part ≠ "") : 0 < (asBytes part).length := by
  have hsize : (asBytes part).length = part.utf8ByteSize := rfl
  rw [hsize, Nat.pos_iff_ne_zero]
  exact mt String.utf8ByteSize_eq_zero_iff.mp h

theorem decodeName_labelBytes_cons {part : String} (hne : part ≠ "") :
    decodeName (labelBytes part ++ rest) = some (asBytes part :: labels, after) ↔
      (asBytes part).length ≤ 63 ∧ decodeName rest = some (labels, after) := by
  have hpos := length_asBytes_pos hne
  rw [labelBytes, List.cons_append, decodeName]
  constructor
  · intro h
    by_cases hzero : UInt8.ofNat (asBytes part).length = 0
    · rw [if_pos hzero] at h
      cases h
    · rw [if_neg hzero] at h
      by_cases hfit : (UInt8.ofNat (asBytes part).length).toNat ≤ 63 ∧
          (UInt8.ofNat (asBytes part).length).toNat ≤ (asBytes part ++ rest).length
      · rw [if_pos hfit] at h
        obtain ⟨⟨labels', after'⟩, hrest, heq⟩ := Option.map_eq_some_iff.mp h
        simp only [Prod.mk.injEq, List.cons.injEq] at heq
        obtain ⟨⟨hlabel, rfl⟩, rfl⟩ := heq
        -- as many bytes were read as the length byte says, and they are those of the part
        have hlen := congrArg List.length hlabel
        rw [List.length_take, Nat.min_eq_left hfit.2] at hlen
        rw [hlen, List.drop_left] at hrest
        exact ⟨hlen ▸ hfit.1, hrest⟩
      · rw [if_neg hfit] at h
        cases h
  · rintro ⟨hle, hrest⟩
    have hnat : (UInt8.ofNat (asBytes part).length).toNat = (asBytes part).length :=
      UInt8.toNat_ofNat_of_lt' (hle.trans_lt (by decide))
    have hzero : UInt8.ofNat (asBytes part).length ≠ 0 := by
      intro hc
      rw [hc, UInt8.toNat_zero] at hnat
      omega
    rw [if_neg hzero, hnat, if_pos ⟨hle, by rw [List.length_append]; omega⟩, List.take_left,
      List.drop_left, hrest]
    rfl

/-- **Names read back.** Nonempty parts decode to themselves exactly when they all fit. -/
theorem decodeName_labelBytes (hne : ∀ part ∈ parts, part ≠ "") :
    decodeName (parts.flatMap labelBytes ++ rest) = some (parts.map asBytes ++ labels, after) ↔
      (∀ part ∈ parts, (asBytes part).length ≤ 63) ∧ decodeName rest = some (labels, after) := by
  induction parts with
  | nil => simp
  | cons part parts ih =>
      obtain ⟨hpart, hparts⟩ := List.forall_mem_cons.mp hne
      rw [List.flatMap_cons, List.append_assoc, List.map_cons, List.cons_append,
        decodeName_labelBytes_cons hpart, ih hparts, List.forall_mem_cons, and_assoc]

/-! ## Host names -/

/-- A part of a host name between dots. -/
structure HostLabel where
  text : String
  nonempty : text ≠ ""
  no_dot : '.' ∉ text.toList

/-- A host as a URL names it: labels between dots, maybe with the dot of the root behind. -/
structure HostName where
  labels : List HostLabel
  labels_ne : labels ≠ []
  rootDot : Bool

namespace HostName
variable (host : HostName)

/-- The name as it is written. -/
def text : String :=
  ".".intercalate (host.labels.map (·.text)) ++ if host.rootDot then "." else ""

/-- The bytes of its labels. -/
def wireLabels : List Bytes := host.labels.map fun l => asBytes l.text

/-- Both queries for the host decode to its labels, with the type and the class right behind. -/
def Encoded : Prop :=
  decodeName ((buildARecordQuery host.text).drop 12) =
      some (host.wireLabels, [0x00, 0x01, 0x00, 0x01]) ∧
    decodeName ((buildTxtRecordQuery host.text).drop 12) =
      some (host.wireLabels, [0x00, 0x10, 0x00, 0x01])

/-- The builders see one more part, an empty one, behind the root dot. -/
theorem split_text : split host.text '.' =
    host.labels.map (·.text) ++ if host.rootDot then [""] else [] := by
  have hne : host.labels.map (·.text) ≠ [] := mt List.map_eq_nil_iff.mp host.labels_ne
  have hparts : host.text = ".".intercalate
      (host.labels.map (·.text) ++ if host.rootDot then [""] else []) := by
    rw [text]
    cases host.rootDot with
    | false => simp
    | true =>
        rw [if_pos rfl, if_pos rfl, String.intercalate_append_of_ne_nil hne (List.cons_ne_nil _ _),
          String.intercalate_singleton, String.append_empty]
  have hdots : ∀ l ∈ (host.labels.map (·.text) ++ if host.rootDot then [""] else []).map
      String.toList, '.' ∉ l := by
    intro l hl
    obtain ⟨part, hpart, rfl⟩ := List.mem_map.mp hl
    obtain hlabel | hroot := List.mem_append.mp hpart
    · obtain ⟨label, -, rfl⟩ := List.mem_map.mp hlabel
      exact label.no_dot
    · by_cases hdot : host.rootDot = true
      · rw [if_pos hdot, List.mem_singleton] at hroot
        rw [hroot]
        exact List.not_mem_nil
      · rw [if_neg hdot] at hroot
        exact absurd hroot List.not_mem_nil
  rw [hparts, split, String.toList_intercalate, show ".".toList = ['.'] from rfl,
    List.splitOn_intercalate _ hdots (by simp [host.labels_ne]), List.map_map]
  simp

/-- What a builder writes for a host decodes to its labels when they fit and no dot follows. -/
theorem decodeName_query_iff (question : Bytes) :
    decodeName ((buildRecordQuery host.text question).drop 12) =
        some (host.wireLabels, question) ↔
      host.rootDot = false ∧ ∀ l ∈ host.labels, (asBytes l.text).length ≤ 63 := by
  have hne : ∀ part ∈ host.labels.map (·.text), part ≠ "" := by
    intro part hpart
    obtain ⟨l, -, rfl⟩ := List.mem_map.mp hpart
    exact l.nonempty
  have hlabels : host.wireLabels = (host.labels.map (·.text)).map asBytes ++ [] := by
    rw [wireLabels, List.append_nil, List.map_map]
    rfl
  have hfits : (∀ part ∈ host.labels.map (·.text), (asBytes part).length ≤ 63) ↔
      ∀ l ∈ host.labels, (asBytes l.text).length ≤ 63 := List.forall_mem_map
  rw [drop_buildRecordQuery, split_text, List.flatMap_append, List.append_assoc, hlabels,
    decodeName_labelBytes hne, hfits, and_comm]
  refine and_congr_left fun _ => ?_
  cases host.rootDot with
  | false => exact iff_of_true (decodeName_zero _) rfl
  | true =>
      -- the empty label ends the name, and its own terminator is left over
      have hroot : decodeName ((if true then [""] else []).flatMap labelBytes ++
          ([0] ++ question)) = some ([], 0 :: question) := decodeName_zero _
      rw [hroot]
      refine iff_of_false (fun h => ?_) Bool.noConfusion
      simp only [Option.some.injEq, Prod.mk.injEq] at h
      exact List.cons_ne_self _ _ h.2

/-- **Which hosts are encoded right**: those whose labels have at most 63 bytes, named without
the dot of the root. -/
theorem encoded_iff :
    host.Encoded ↔ host.rootDot = false ∧ ∀ l ∈ host.labels, (asBytes l.text).length ≤ 63 := by
  constructor
  · rintro ⟨haddress, -⟩
    exact (host.decodeName_query_iff _).mp haddress
  · intro h
    exact ⟨(host.decodeName_query_iff _).mpr h, (host.decodeName_query_iff _).mpr h⟩

/-- `github.com` with the dot of the root. -/
def githubRooted : HostName where
  labels := [⟨"github", by decide, by decide⟩, ⟨"com", by decide, by decide⟩]
  labels_ne := List.cons_ne_nil _ _
  rootDot := true

/-- A label of 64 bytes. -/
def overlong : HostName where
  labels := [⟨String.ofList (List.replicate 64 'a'), by decide, by decide⟩]
  labels_ne := List.cons_ne_nil _ _
  rootDot := false

/-- The root dot leaves a zero byte in front of the type; a label of 64 bytes does not decode. -/
theorem rooted_and_overlong_not_encoded :
    decodeName ((buildARecordQuery "github.com.").drop 12) =
        some ([bstr "github", bstr "com"], [0x00, 0x00, 0x01, 0x00, 0x01]) ∧
      githubRooted.text = "github.com." ∧ ¬ githubRooted.Encoded ∧
      decodeName ((buildARecordQuery overlong.text).drop 12) = none ∧ ¬ overlong.Encoded ∧
      ¬ ∀ host : HostName, host.Encoded := by
  have hrooted : decodeName ((buildARecordQuery githubRooted.text).drop 12) =
      some ([bstr "github", bstr "com"], [0x00, 0x00, 0x01, 0x00, 0x01]) := by decide +kernel
  have hoverlong : decodeName ((buildARecordQuery overlong.text).drop 12) = none := by
    decide +kernel
  have hnot : ¬ githubRooted.Encoded := by
    rintro ⟨haddress, -⟩
    rw [hrooted] at haddress
    exact absurd haddress (by decide)
  have hnot' : ¬ overlong.Encoded := by
    rintro ⟨haddress, -⟩
    rw [hoverlong] at haddress
    cases haddress
  exact ⟨by decide +kernel, by decide +kernel, hnot, hoverlong, hnot', fun hall => hnot (hall _)⟩

end HostName
end SevMicroLoader.Dns
