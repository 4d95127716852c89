import Mathlib.Order.Bounds.Basic
import SevMicroLoader.Attestation.Endpoint

/-!
# Requests in segments

A byte stream reaches the read loop in chunks, cut anywhere. The loop tests the size of what it
has read before it looks for the blank line, and it counts whole chunks, so bytes behind the
headers may count or not. `leadsTo_iff` gives the result of the loop from the chunk that
completes the blank line; `independent_iff` says for which streams the cuts do not matter.
-/

namespace SevMicroLoader.Attestation
open Rust

/-! ## Deliveries -/

/-- What one read returns of a stream that is not over. -/
abbrev Chunk := { bs : Bytes // bs.length ≤ 1024 ∧ bs ≠ [] }

/-- The bytes of a delivery. -/
def delivered (chunks : List Chunk) : Bytes := (chunks.map Subtype.val).flatten

@[simp] theorem delivered_nil : delivered [] = [] := rfl

@[simp] theorem delivered_cons (c : Chunk) (chunks : List Chunk) :
    delivered (c :: chunks) = c.val ++ delivered chunks := rfl

@[simp] theorem delivered_append (chunks chunks' : List Chunk) :
    delivered (chunks ++ chunks') = delivered chunks ++ delivered chunks' := by
  rw [delivered, List.map_append, List.flatten_append]
  rfl

/-- The reads that return the chunks. -/
def reads (chunks : List Chunk) : Trace :=
  chunks.map fun c => ⟨.read, some (.chunk ⟨c.val, c.property.1⟩)⟩

/-- The read loop ends with `r` on reads that start the delivery. -/
def LeadsTo (chunks : List Chunk) (r : Except (Except String Unit) Bytes) : Prop :=
  ∃ t, t <+: reads chunks ∧ Prog.Runs (readLoop []) t (some r)

/-- The request line that is parsed; a connection that is dropped has none. -/
def outcome : Except (Except String Unit) Bytes → Option String
  | .ok buf => some (requestLine buf)
  | .error _ => none

/-- The outcome is the same however the stream is delivered. -/
def Independent (s : Bytes) : Prop :=
  ∀ chunks chunks' r r', delivered chunks = s → delivered chunks' = s →
    LeadsTo chunks r → LeadsTo chunks' r' → outcome r = outcome r'

/-- The first blank line of the stream ends behind `e` bytes. -/
def FirstBlankLine (s : Bytes) (e : ℕ) : Prop := IsLeast {k | [13, 10, 13, 10] <:+ s.take k} e

/-- Every byte on its own is a delivery. -/
theorem exists_delivered (s : Bytes) : ∃ chunks, delivered chunks = s := by
  induction s with
  | nil => exact ⟨[], rfl⟩
  | cons b s ih =>
      obtain ⟨chunks, rfl⟩ := ih
      exact ⟨⟨[b], Nat.le_of_ble_eq_true rfl, List.cons_ne_nil _ _⟩ :: chunks, rfl⟩

/-- A delivery has a chunk that takes it to any length the stream reaches. -/
theorem exists_chunk_at {chunks : List Chunk} {e : ℕ} (hpos : 0 < e)
    (hlen : e ≤ (delivered chunks).length) :
    ∃ before c after, chunks = before ++ c :: after ∧ (delivered before).length < e ∧
      e ≤ (delivered before ++ c.val).length := by
  induction chunks generalizing e with
  | nil => exact absurd hlen (Nat.not_le.mpr hpos)
  | cons c chunks ih =>
      by_cases hc : e ≤ c.val.length
      · exact ⟨[], c, chunks, rfl, hpos, hc⟩
      · rw [delivered_cons, List.length_append] at hlen
        obtain ⟨before, d, after, rfl, hbefore, hd⟩ := @ih (e - c.val.length) (by omega) (by omega)
        rw [List.length_append] at hd
        refine ⟨c :: before, d, after, rfl, ?_, ?_⟩
        · rw [delivered_cons, List.length_append]
          omega
        · rw [delivered_cons, List.length_append, List.length_append]
          omega

/-! ## Blank lines -/

section Blank
variable {s : Bytes} {e : ℕ}

/-- The request line ends at the first newline at the latest. -/
theorem requestLine_newline (xs ys zs : Bytes) :
    requestLine (xs ++ 10 :: ys) = requestLine (xs ++ 10 :: zs) := by
  have hnewline : (10 : UInt8) < 0x80 := by decide
  rw [requestLine, requestLine, fromUtf8Lossy, fromUtf8Lossy, lossyChars_append_ascii hnewline,
    lossyChars_append_ascii hnewline]
  exact firstLine_append_newline _ _ _

/-- What is read has the blank line from its end on. -/
theorem FirstBlankLine.hasBlankLine_take (he : FirstBlankLine s e) (m : ℕ) :
    hasBlankLine (s.take m) ↔ e ≤ m := by
  rw [hasBlankLine_iff]
  constructor
  · intro h
    obtain ⟨t, hend, hstart⟩ := List.infix_iff_suffix_prefix.mp h
    have ht : t = s.take t.length := by
      rw [← List.prefix_iff_eq_take]
      exact hstart.trans (List.take_prefix m s)
    have hle := he.2 (show [13, 10, 13, 10] <:+ s.take t.length from ht ▸ hend)
    exact hle.trans (hstart.length_le.trans (List.length_take_le m s))
  · intro hle
    exact he.1.isInfix.trans (List.take_prefix_take_left hle).isInfix

theorem FirstBlankLine.le_length (he : FirstBlankLine s e) : e ≤ s.length := by
  have hall := (he.hasBlankLine_take e).mpr le_rfl
  rcases Nat.le_total e s.length with hle | hge
  · exact hle
  · rw [List.take_of_length_le hge, ← List.take_length (l := s)] at hall
    exact (he.hasBlankLine_take s.length).mp hall

theorem FirstBlankLine.pos (he : FirstBlankLine s e) : 0 < e := by
  have hlen := he.1.length_le.trans (List.length_take_le e s)
  exact Nat.lt_of_lt_of_le (by decide) hlen

theorem FirstBlankLine.take_ne_nil (he : FirstBlankLine s e) {m : ℕ} (hm : e ≤ m) :
    s.take m ≠ [] := by
  have hpos := he.pos
  have hlen := he.le_length
  rw [← List.length_pos_iff, List.length_take]
  omega

/-- All that is read from the end of the blank line on has the request line of the stream. -/
theorem FirstBlankLine.requestLine_take (he : FirstBlankLine s e) {m : ℕ} (hm : e ≤ m) :
    requestLine (s.take m) = requestLine s := by
  obtain ⟨head, hhead⟩ := he.1
  have hend (tail : Bytes) : s.take e ++ tail = head ++ [13] ++ 10 :: ([13, 10] ++ tail) := by
    rw [← hhead, List.append_assoc, List.append_assoc]
    rfl
  obtain ⟨tail, htail⟩ : s.take e <+: s.take m := List.take_prefix_take_left hm
  calc requestLine (s.take m)
      _ = requestLine (head ++ [13] ++ 10 :: ([13, 10] ++ tail)) := by rw [← htail, hend]
      _ = requestLine (head ++ [13] ++ 10 :: ([13, 10] ++ s.drop e)) := requestLine_newline _ _ _
      _ = requestLine s := by rw [← hend, List.take_append_drop]

/-- A blank line behind a text without a carriage return is the first. -/
theorem firstBlankLine_append {head : Bytes} (hhead : 13 ∉ head) (rest : Bytes) :
    FirstBlankLine (head ++ [13, 10, 13, 10] ++ rest) (head.length + 4) := by
  constructor
  · change [13, 10, 13, 10] <:+ List.take _ _
    rw [List.take_append_of_le_length (by simp), List.take_of_length_le (by simp)]
    exact List.suffix_append head _
  · rintro k ⟨pre, hpre⟩
    by_contra hk
    have hlen : pre.length + 4 ≤ k := by
      have hle := List.length_take_le k (head ++ [13, 10, 13, 10] ++ rest)
      rw [← hpre, List.length_append] at hle
      exact hle
    have hread : pre ++ [13] <+: head ++ [13, 10, 13, 10] ++ rest := by
      refine List.IsPrefix.trans ⟨[10, 13, 10], ?_⟩ (List.take_prefix k _)
      rw [List.append_assoc]
      exact hpre
    rw [List.append_assoc] at hread
    have hcr := List.prefix_of_prefix_length_le hread (List.prefix_append head _)
      (by rw [List.length_append, List.length_singleton]; omega)
    exact hhead (hcr.subset (List.mem_append_right _ (List.mem_singleton_self _)))

end Blank

/-! ## The read loop over a delivery -/

section Loop
variable {s buf : Bytes} {e : ℕ} {before after : List Chunk} {c : Chunk} {t : Trace}
  {o : Option (Except (Except String Unit) Bytes)}

/-- What the loop does with a chunk. -/
def afterChunk (buf : Bytes) : Handler (Except (Except String Unit) Bytes) :=
  if buf.length > 8192 then pure (.error (.ok ()))
  else if hasBlankLine buf then pure (.ok buf)
  else readLoop buf

/-- What the loop leaves once it has the blank line. -/
def completed (buf : Bytes) : Except (Except String Unit) Bytes :=
  if buf.length > 8192 then .error (.ok ()) else .ok buf

theorem afterChunk_of_hasBlankLine (h : hasBlankLine buf) :
    afterChunk buf = pure (completed buf) := by
  rw [afterChunk, completed, if_pos h]
  split <;> rfl

theorem runs_readLoop_cons (h : Prog.Runs (afterChunk (buf ++ c.val)) t o) :
    Prog.Runs (readLoop buf) (reads [c] ++ t) o := by
  rw [readLoop]
  refine .reply _ ?_
  dsimp only
  rw [if_neg c.property.2]
  exact h

/-- Without a blank line, and within the limit, the loop reads on. -/
theorem runs_readLoop_append (hblank : ¬ hasBlankLine (buf ++ delivered before))
    (hlen : (buf ++ delivered before).length ≤ 8192)
    (h : Prog.Runs (readLoop (buf ++ delivered before)) t o) :
    Prog.Runs (readLoop buf) (reads before ++ t) o := by
  induction before generalizing buf with
  | nil =>
      rw [delivered_nil, List.append_nil] at h
      exact h
  | cons c before ih =>
      rw [delivered_cons, ← List.append_assoc] at hblank hlen h
      have hstart := List.prefix_append (buf ++ c.val) (delivered before)
      have hmore : afterChunk (buf ++ c.val) = readLoop (buf ++ c.val) := by
        rw [afterChunk, if_neg (Nat.not_lt.mpr (hstart.length_le.trans hlen)), if_neg]
        rw [hasBlankLine_iff] at hblank ⊢
        exact fun hpart => hblank (hpart.trans hstart.isInfix)
      have hrest := ih hblank hlen h
      rw [← hmore] at hrest
      exact runs_readLoop_cons hrest

/-- **The result of a delivery** is decided by the chunk that completes the blank line: all that
was read up to its end, unless that is too much. -/
theorem leadsTo_iff (he : FirstBlankLine s e) (hle : e ≤ 8192)
    (hs : delivered (before ++ c :: after) = s) (hbefore : (delivered before).length < e)
    (hc : e ≤ (delivered before ++ c.val).length) {r : Except (Except String Unit) Bytes} :
    LeadsTo (before ++ c :: after) r ↔ r = completed (delivered before ++ c.val) := by
  rw [delivered_append, delivered_cons] at hs
  have hbefore_take : delivered before = s.take (delivered before).length :=
    List.prefix_iff_eq_take.mp ⟨_, hs⟩
  have hc_take : delivered before ++ c.val = s.take (delivered before ++ c.val).length :=
    List.prefix_iff_eq_take.mp ⟨_, by rw [List.append_assoc, hs]⟩
  have hno : ¬ hasBlankLine (delivered before) := by
    rw [hbefore_take, he.hasBlankLine_take]
    exact Nat.not_le.mpr hbefore
  have hyes : hasBlankLine (delivered before ++ c.val) := by
    rw [hc_take, he.hasBlankLine_take]
    exact hc
  -- The limit is not reached in front of the last chunk, since the blank line ends within it.
  have hrun : Prog.Runs (readLoop []) (reads before ++ (reads [c] ++ []))
      (some (completed (delivered before ++ c.val))) := by
    refine runs_readLoop_append hno (hbefore.le.trans hle) (runs_readLoop_cons ?_)
    rw [List.nil_append, afterChunk_of_hasBlankLine hyes]
    exact .ret _
  have hstart : reads before ++ (reads [c] ++ []) <+: reads (before ++ c :: after) :=
    ⟨reads after, by simp [reads]⟩
  constructor
  · rintro ⟨t, ht, hr⟩
    exact Option.some.inj (hr.unique hrun ht hstart).2
  · rintro rfl
    exact ⟨_, hstart, hrun⟩

/-- Every delivery has a result. -/
theorem exists_leadsTo (he : FirstBlankLine s e) (hle : e ≤ 8192) {chunks : List Chunk}
    (hs : delivered chunks = s) : ∃ r, LeadsTo chunks r := by
  obtain ⟨before, c, after, rfl, hbefore, hc⟩ := exists_chunk_at he.pos (hs ▸ he.le_length)
  exact ⟨_, (leadsTo_iff he hle hs hbefore hc).mpr rfl⟩

end Loop

/-! ## Which streams do not depend on the cuts -/

section Cuts
variable {s : Bytes} {e : ℕ}

/-- A request line decides the answer. -/
theorem answerRequest_congr (X : Externals) (payload : String) {buf buf' : Bytes} (hne : buf ≠ [])
    (hne' : buf' ≠ []) (h : requestLine buf = requestLine buf') :
    answerRequest X payload buf = answerRequest X payload buf' := by
  have hparse : parseRequest buf = parseRequest buf' := by
    unfold parseRequest
    rw [← requestLine, ← requestLine, h]
  rw [answerRequest, answerRequest, if_neg hne, if_neg hne', hparse]

/-- A stream that fits, or whose blank line leaves room for one more chunk, is never dropped. -/
theorem ok_of_leadsTo (he : FirstBlankLine s e) (hle : e ≤ 8192)
    (hfit : s.length ≤ 8192 ∨ e ≤ 7169) {chunks : List Chunk}
    {r : Except (Except String Unit) Bytes} (hs : delivered chunks = s) (h : LeadsTo chunks r) :
    ∃ m, e ≤ m ∧ r = .ok (s.take m) := by
  obtain ⟨before, c, after, rfl, hbefore, hc⟩ := exists_chunk_at he.pos (hs ▸ he.le_length)
  have hstart : delivered before ++ c.val <+: s := by
    rw [← hs, delivered_append, delivered_cons, ← List.append_assoc]
    exact List.prefix_append _ _
  have hsmall : (delivered before ++ c.val).length ≤ 8192 := by
    rcases hfit with hshort | hearly
    · exact hstart.length_le.trans hshort
    · have hchunk := c.property.1
      rw [List.length_append]
      omega
  rw [leadsTo_iff he hle hs hbefore hc, completed, if_neg (Nat.not_lt.mpr hsmall)] at h
  exact ⟨_, hc, h.trans (congrArg _ (List.prefix_iff_eq_take.mp hstart))⟩

/-- A delivery with a chunk of `k` bytes, or up to the end, that starts at the last byte of the
blank line. -/
theorem exists_cut (he : FirstBlankLine s e) {k : ℕ} (hpos : 0 < k) (hk : k ≤ 1024) :
    ∃ before c after, delivered (before ++ c :: after) = s ∧
      (delivered before).length < e ∧ delivered before ++ c.val = s.take (e - 1 + k) := by
  have hepos := he.pos
  have hlen := he.le_length
  obtain ⟨before, hbefore⟩ := exists_delivered (s.take (e - 1))
  obtain ⟨after, hafter⟩ := exists_delivered (s.drop (e - 1 + k))
  have hc : ((s.drop (e - 1)).take k).length ≤ 1024 ∧ (s.drop (e - 1)).take k ≠ [] := by
    rw [← List.length_pos_iff, List.length_take, List.length_drop]
    omega
  have hread : delivered before ++ (s.drop (e - 1)).take k = s.take (e - 1 + k) := by
    rw [hbefore, ← List.take_add]
  refine ⟨before, ⟨_, hc⟩, after, ?_, ?_, hread⟩
  · rw [delivered_append, delivered_cons, ← List.append_assoc, hread, hafter,
      List.take_append_drop]
  · rw [hbefore, List.length_take]
    omega

/-- Any other stream is parsed when a chunk ends with the blank line, and dropped when the chunk
that ends it is full. -/
theorem not_independent (he : FirstBlankLine s e) (hle : e ≤ 8192) (hlong : 8192 < s.length)
    (hlate : 7169 < e) : ¬ Independent s := by
  intro hindep
  obtain ⟨before, c, after, hs, hbefore, hread⟩ := @exists_cut s e he 1 (by decide) (by decide)
  obtain ⟨before', c', after', hs', hbefore', hread'⟩ :=
    @exists_cut s e he 1024 (by decide) (by decide)
  have hlen : (delivered before ++ c.val).length = e := by
    rw [hread, List.length_take]
    omega
  have hlen' : (delivered before' ++ c'.val).length > 8192 := by
    rw [hread', List.length_take]
    omega
  have hparsed := (leadsTo_iff he hle hs hbefore hlen.ge).mpr rfl
  have hdropped := (leadsTo_iff he hle hs' hbefore' (by omega)).mpr rfl
  rw [completed, if_neg (by omega)] at hparsed
  rw [completed, if_pos hlen'] at hdropped
  cases hindep _ _ _ _ hs hs' hparsed hdropped

end Cuts

/-- **Segmentation.** Every delivery of a stream whose first blank line ends within the limit has a
result. The outcome is the same for all of them exactly when the stream has at most 8192 bytes in
all or the blank line ends within the first 7169; the request is then answered as the whole stream
would be. -/
theorem independent_iff (s : Bytes) (e : ℕ) (he : FirstBlankLine s e) (hle : e ≤ 8192) :
    (∀ chunks, delivered chunks = s → ∃ r, LeadsTo chunks r) ∧
    (Independent s ↔ s.length ≤ 8192 ∨ e ≤ 7169) ∧
    (s.length ≤ 8192 ∨ e ≤ 7169 → ∀ chunks r, delivered chunks = s → LeadsTo chunks r →
      outcome r = some (requestLine s) ∧ ∃ buf, r = .ok buf ∧
        ∀ X payload, answerRequest X payload buf = answerRequest X payload s) := by
  have hsame (hfit : s.length ≤ 8192 ∨ e ≤ 7169) (chunks : List Chunk)
      (r : Except (Except String Unit) Bytes) (hs : delivered chunks = s) (h : LeadsTo chunks r) :
      ∃ m, e ≤ m ∧ r = .ok (s.take m) ∧ outcome r = some (requestLine s) := by
    obtain ⟨m, hm, rfl⟩ := ok_of_leadsTo he hle hfit hs h
    exact ⟨m, hm, rfl, congrArg some (he.requestLine_take hm)⟩
  refine ⟨fun chunks hs => exists_leadsTo he hle hs, ⟨fun hindep => ?_, ?_⟩, ?_⟩
  · by_contra hno
    obtain ⟨hlong, hlate⟩ := not_or.mp hno
    exact not_independent he hle (Nat.not_le.mp hlong) (Nat.not_le.mp hlate) hindep
  · intro hfit chunks chunks' r r' hs hs' h h'
    obtain ⟨-, -, -, hr⟩ := hsame hfit chunks r hs h
    obtain ⟨-, -, -, hr'⟩ := hsame hfit chunks' r' hs' h'
    exact hr.trans hr'.symm
  · intro hfit chunks r hs h
    obtain ⟨m, hm, rfl, hr⟩ := hsame hfit chunks r hs h
    have hne : s ≠ [] := List.take_length (l := s) ▸ he.take_ne_nil he.le_length
    exact ⟨hr, _, rfl, fun X payload =>
      answerRequest_congr X payload (he.take_ne_nil hm) hne (he.requestLine_take hm)⟩

/-- A request with its blank line in one segment, and another segment behind it. -/
theorem independent_iff_sample :
    Independent (bstr "GET /v1/attestation?nonce=00 HTTP/1.1" ++ [13, 10, 13, 10] ++
      List.replicate 9000 97) :=
  (independent_iff _ _ (firstBlankLine_append (by decide) _) (by decide)).2.1.mpr
    (.inr (by decide))

/-- A long target, and bytes behind the headers. -/
def longRequest : Bytes :=
  bstr "GET /v1/attestation?nonce=00&pad=" ++ List.replicate 8000 97 ++ bstr " HTTP/1.1" ++
    [13, 10, 13, 10] ++ List.replicate 1000 97

/-- Whether it is answered depends on where the segments are cut. -/
theorem longRequest_not_independent :
    FirstBlankLine longRequest 8046 ∧ 8046 ≤ 8192 ∧ ¬ Independent longRequest := by
  have hhead : 13 ∉ bstr "GET /v1/attestation?nonce=00&pad=" ++ List.replicate 8000 97 ++
      bstr " HTTP/1.1" := by
    rw [List.mem_append, List.mem_append, not_or, not_or]
    exact ⟨⟨by decide, fun h => absurd (List.eq_of_mem_replicate h) (by decide)⟩, by decide⟩
  have hlength : (bstr "GET /v1/attestation?nonce=00&pad=" ++ List.replicate 8000 97 ++
      bstr " HTTP/1.1").length = 8042 := by
    rw [List.length_append, List.length_append, List.length_replicate]
    decide
  have hfirst := firstBlankLine_append hhead (List.replicate 1000 97)
  rw [hlength] at hfirst
  have hlong : 8192 < longRequest.length := by
    rw [longRequest, List.length_append, List.length_append, hlength, List.length_replicate]
    decide
  exact ⟨hfirst, by decide, not_independent hfirst (by decide) hlong (by decide)⟩

end SevMicroLoader.Attestation
