import Mathlib.Data.List.Infix
import SevMicroLoader.Attestation.Handler

/-!
# The request grammar

`RequestLine`, `FirstPair` and `IsNonce` say which requests the endpoint answers, without any of
the splitting and searching that `parseRequest`, `extractQueryParam` and `nonceAdmitted` do;
each of these decides its part of the grammar.
-/

namespace SevMicroLoader.Attestation
open Rust

/-! ## The grammar -/

/-- The line the request is read from. -/
def requestLine (buf : Bytes) : String := firstLine (fromUtf8Lossy buf)

/-- The path of the endpoint, with a query behind the first `?` or without one. -/
def Target (target query : String) : Prop :=
  target = "/v1/attestation" ∧ query = "" ∨ target = "/v1/attestation?" ++ query

/-- `GET`, a target of the endpoint and a version, apart by white space. -/
def RequestLine (line query : String) : Prop :=
  ∃ target version, Target target query ∧
    Words isWhitespace line.toList ["GET".toList, target.toList, ("HTTP/" ++ version).toList]

/-- `value` is that of the first pair of the query with the key `key`. -/
def FirstPair (query key value : String) : Prop :=
  ∃ before after, query.toList.splitOn '&' = before ++ (key ++ "=" ++ value).toList :: after ∧
    ∀ pair ∈ before, ¬ (key ++ "=").toList <+: pair

/-- Evenly many hexadecimal digits, 2 to 256. -/
structure IsNonce (nonce : String) : Prop where
  two_le : 2 ≤ nonce.toList.length
  le : nonce.toList.length ≤ 256
  even : 2 ∣ nonce.toList.length
  digits : ∀ c ∈ nonce.toList, isAsciiHexdigit c

/-- The first nonce of the query is one. -/
def HasNonce (query : String) : Prop := ∃ nonce, FirstPair query "nonce" nonce ∧ IsNonce nonce

/-! ## What the functions of the source decide -/

/-- The blank line may stand anywhere. -/
theorem hasBlankLine_iff {buf : Bytes} : hasBlankLine buf ↔ [13, 10, 13, 10] <:+: buf := by
  rw [hasBlankLine, List.any_eq_true]
  constructor
  · rintro ⟨t, ht, hstart⟩
    exact (List.isPrefixOf_iff_prefix.mp hstart).isInfix.trans ((List.mem_tails _ _).mp ht).isInfix
  · intro h
    obtain ⟨t, hstart, hend⟩ := List.infix_iff_prefix_suffix.mp h
    exact ⟨t, (List.mem_tails _ _).mpr hend, List.isPrefixOf_iff_prefix.mpr hstart⟩

theorem target_iff {target query : String} :
    (splitOnce target '?').getD (target, "") = ("/v1/attestation", query) ↔
      Target target query := by
  have hpath : '?' ∉ "/v1/attestation".toList := by decide
  have hquery : ("/v1/attestation?" ++ query).toList =
      "/v1/attestation".toList ++ '?' :: query.toList := by
    have hmark : "/v1/attestation?".toList = "/v1/attestation".toList ++ ['?'] := by decide
    rw [String.toList_append, hmark, List.append_assoc, List.singleton_append]
  cases hsplit : splitOnce target '?' with
  | none =>
      rw [Option.getD_none, Prod.mk.injEq, Target, eq_comm (a := "")]
      refine ⟨.inl, fun h => h.resolve_right ?_⟩
      rintro rfl
      rw [splitOnce_eq_none_iff] at hsplit
      exact hsplit (hquery ▸ List.mem_append_right _ List.mem_cons_self)
  | some parts =>
      obtain ⟨path, rest⟩ := parts
      obtain ⟨htarget, -⟩ := splitOnce_eq_some_iff.mp hsplit
      rw [Option.getD_some, Prod.mk.injEq]
      constructor
      · rintro ⟨rfl, rfl⟩
        exact .inr (String.toList_inj.mp (htarget.trans hquery.symm))
      · rintro (⟨rfl, rfl⟩ | rfl)
        · exact absurd (htarget ▸ List.mem_append_right _ List.mem_cons_self) hpath
        · have hsome : splitOnce ("/v1/attestation?" ++ query) '?' =
              some ("/v1/attestation", query) :=
            splitOnce_eq_some_iff.mpr ⟨hquery, hpath⟩
          rw [hsome] at hsplit
          cases hsplit
          exact ⟨rfl, rfl⟩

/-- **The request line is the grammar's.** -/
theorem parseRequest_eq_some_iff {buf : Bytes} {query : String} :
    parseRequest buf = some query ↔ RequestLine (requestLine buf) query := by
  rw [requestLine]
  constructor
  · intro h
    unfold parseRequest at h
    split at h
    · next method target version hwords =>
      split at h
      · cases h
      · next hmethod =>
        obtain ⟨hmethod, hversion⟩ := not_or.mp hmethod
        obtain rfl := not_not.mp hmethod
        obtain ⟨version, rfl⟩ := startsWith_iff.mp (not_not.mp hversion)
        split at h
        · cases h
        · cases hpair : (splitOnce target '?').getD (target, "") with
          | mk path rest =>
              rw [hpair] at h
              dsimp only at h
              split at h
              · cases h
              · next hpath =>
                cases h
                obtain rfl := not_not.mp hpath
                exact ⟨target, version, target_iff.mp hpair, splitWhitespace_eq_iff.mp hwords⟩
    · cases h
  · rintro ⟨target, version, htarget, hwords⟩
    have hwords : splitWhitespace (firstLine (fromUtf8Lossy buf)) =
        ["GET", target, "HTTP/" ++ version] := splitWhitespace_eq_iff.mpr hwords
    have hversion : startsWith ("HTTP/" ++ version) "HTTP/" := startsWith_iff.mpr ⟨version, rfl⟩
    have hstart : startsWith target "/v1/attestation" := by
      rw [startsWith_iff]
      rcases htarget with ⟨rfl, -⟩ | rfl
      · exact ⟨"", rfl⟩
      · exact ⟨"?" ++ query, by rw [← String.append_assoc]; rfl⟩
    unfold parseRequest
    rw [hwords]
    dsimp only
    rw [if_neg (by simp [hversion]), if_neg (by simp [hstart]), target_iff.mpr htarget]
    rfl

/-- A line has one query. -/
theorem RequestLine.unique {buf : Bytes} {query query' : String}
    (h : RequestLine (requestLine buf) query) (h' : RequestLine (requestLine buf) query') :
    query = query' := by
  rw [← parseRequest_eq_some_iff] at h h'
  exact Option.some.inj (h.symm.trans h')

/-- The value of a pair, if it has the key. -/
def pairValue (key pair : String) : Option String :=
  match splitOnce pair '=' with
  | some (k, v) => if k = key then some v else none
  | none => none

theorem pairValue_eq_some_iff {key pair value : String} (hkey : '=' ∉ key.toList) :
    pairValue key pair = some value ↔ pair = key ++ "=" ++ value := by
  constructor
  · intro h
    unfold pairValue at h
    split at h
    · next k v hsplit =>
      obtain ⟨rfl, hvalue⟩ := Option.ite_none_right_eq_some.mp h
      cases hvalue
      obtain ⟨hpair, -⟩ := splitOnce_eq_some_iff.mp hsplit
      apply String.toList_inj.mp
      rw [hpair, String.toList_append, String.toList_append, List.append_assoc]
      rfl
    · cases h
  · rintro rfl
    have hsplit : splitOnce (key ++ "=" ++ value) '=' = some (key, value) := by
      rw [splitOnce_eq_some_iff, String.toList_append, String.toList_append, List.append_assoc]
      exact ⟨rfl, hkey⟩
    rw [pairValue, hsplit]
    exact if_pos rfl

theorem pairValue_eq_none_iff {key pair : String} (hkey : '=' ∉ key.toList) :
    pairValue key pair = none ↔ ¬ (key ++ "=").toList <+: pair.toList := by
  rw [← List.isPrefixOf_iff_prefix, ← startsWith, startsWith_iff, Option.eq_none_iff_forall_ne_some,
    not_exists]
  exact forall_congr' fun value => not_congr (pairValue_eq_some_iff hkey)

/-- **The parameter is that of the first pair with the key.** -/
theorem extractQueryParam_eq_some_iff {query key value : String} (hkey : '=' ∉ key.toList) :
    extractQueryParam query key = some value ↔ FirstPair query key value := by
  have hfind : extractQueryParam query key =
      (query.toList.splitOn '&').findSome? fun pair => pairValue key (String.ofList pair) := by
    rw [extractQueryParam, split, List.findSome?_map]
    rfl
  rw [hfind, List.findSome?_eq_some_iff]
  constructor
  · rintro ⟨before, pair, after, hsplit, hpair, hbefore⟩
    rw [pairValue_eq_some_iff hkey] at hpair
    refine ⟨before, after, ?_, fun other hother => ?_⟩
    · rw [hsplit, ← hpair, String.toList_ofList]
    · have hnone := (pairValue_eq_none_iff hkey).mp (hbefore other hother)
      rwa [String.toList_ofList] at hnone
  · rintro ⟨before, after, hsplit, hbefore⟩
    refine ⟨before, _, after, hsplit, ?_, fun other hother => ?_⟩
    · rw [String.ofList_toList]
      exact (pairValue_eq_some_iff hkey).mpr rfl
    · rw [pairValue_eq_none_iff hkey, String.toList_ofList]
      exact hbefore other hother

theorem nonceAdmitted_iff {nonce : String} : nonceAdmitted nonce ↔ IsNonce nonce := by
  have hsize (h : ∀ c ∈ nonce.toList, isAsciiHexdigit c) :
      nonce.utf8ByteSize = nonce.toList.length := by
    rw [← utf8ByteSize_of_ascii fun c hc => utf8Size_of_isAsciiHexdigit (h c hc),
      String.ofList_toList]
  rw [nonceAdmitted, decide_eq_true_eq, not_or, not_or, not_or, not_not, not_not, List.all_eq_true]
  constructor
  · rintro ⟨hshort, hlong, hodd, hdigits⟩
    rw [hsize hdigits] at hshort hlong hodd
    exact ⟨by omega, by omega, by omega, hdigits⟩
  · rintro ⟨htwo, hle, heven, hdigits⟩
    rw [hsize hdigits]
    exact ⟨by omega, by omega, by omega, hdigits⟩

/-- A nonce that is admitted is that of the query. -/
theorem firstPair_nonceHex {query : String} (h : nonceAdmitted (nonceHex query)) :
    FirstPair query "nonce" (nonceHex query) := by
  rw [nonceAdmitted_iff, nonceHex] at h
  rw [nonceHex]
  cases hparam : extractQueryParam query "nonce" with
  | none =>
      rw [hparam] at h
      exact absurd h.two_le (by decide)
  | some nonce => exact (extractQueryParam_eq_some_iff (by decide)).mp hparam

/-- **The handler admits the first nonce of a query, if there is one.** -/
theorem nonceAdmitted_nonceHex_iff {query : String} :
    nonceAdmitted (nonceHex query) ↔ HasNonce query := by
  constructor
  · intro h
    exact ⟨_, firstPair_nonceHex h, nonceAdmitted_iff.mp h⟩
  · rintro ⟨nonce, hpair, hnonce⟩
    rw [← extractQueryParam_eq_some_iff (by decide)] at hpair
    rw [nonceHex, hpair]
    exact nonceAdmitted_iff.mpr hnonce

/-! ## Decoding -/

/-- A nonce stands for half as many bytes as it has digits. -/
theorem IsNonce.exists_decode {nonce : String} (h : IsNonce nonce) :
    ∃ bytes, Hex.decode nonce = some bytes ∧ nonce.toList.length = 2 * bytes.length ∧
      1 ≤ bytes.length ∧ bytes.length ≤ 128 := by
  obtain ⟨htwo, hle, heven, hdigits⟩ := h
  obtain ⟨bytes, hbytes⟩ := Hex.exists_decodeChars heven fun c hc =>
    isSome_value?_of_isAsciiHexdigit (hdigits c hc)
  have hlen := Hex.length_decodeChars hbytes
  exact ⟨bytes, hbytes, hlen, by omega, by omega⟩

end SevMicroLoader.Attestation
