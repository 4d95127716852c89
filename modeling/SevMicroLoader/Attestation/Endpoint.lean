import SevMicroLoader.Attestation.Binding

/-!
# What the endpoint answers

A buffer that was read ends at the hardware, in a `400` response, or in silence, by the grammar of
requests alone.
-/

namespace SevMicroLoader.Attestation
open Rust

theorem IsPayloadHash.exists_decode {payload : String} (h : IsPayloadHash payload) :
    ∃ bytes, Hex.decode payload = some bytes := by
  obtain ⟨hlen, hdigits⟩ := h
  exact Hex.exists_decodeChars (by omega) fun c hc =>
    isSome_value?_of_isAsciiHexdigit (List.all_eq_true.mp hdigits c hc)

/-! ## Answers -/

/-- The hardware semaphore is tried. -/
def ReachesHardware (t : Trace) : Prop := ∃ x ∈ t, x.1 = .tryAcquire

/-- A response with the status is written. -/
def Responds (status : ℕ) (t : Trace) : Prop := ∃ x ∈ t, ∃ r, x.1 = .respond r ∧ r.status = status

section Answers
variable {X : Externals} {payload nonce : String} {p n buf : Bytes} {t : Trace}
  {o : Option (Except String Unit)}

/-- A call that is no `400` response. -/
def NotRefusal : Call → Prop
  | .respond r => r.status ≠ 400
  | _ => True

theorem only_sendHttpResponse {status : ℕ} (h : status ≠ 400) (body : String) :
    Prog.Only NotRefusal (sendHttpResponse status body) := ⟨h, fun _ => trivial⟩

theorem only_getSnpAttestationReport (reportData : ByteArr 64) :
    Prog.Only NotRefusal (getSnpAttestationReport reportData) := by
  refine ⟨trivial, fun found => ?_⟩
  cases found with
  | false => trivial
  | true =>
      refine ⟨trivial, fun opened => ?_⟩
      cases opened with
      | error e => trivial
      | ok u => exact ⟨trivial, fun reply => by cases reply <;> trivial⟩

theorem only_answerNonce : Prog.Only NotRefusal (answerNonce X payload nonce p n) := by
  refine ⟨trivial, fun granted => ?_⟩
  cases granted with
  | false => exact only_sendHttpResponse (by decide) _
  | true =>
      refine (only_getSnpAttestationReport _).bind fun r => ?_
      cases r with
      | error err => exact only_sendHttpResponse (by decide) _
      | ok report => exact only_sendHttpResponse (by decide) _

/-- From the decoded nonce on, the hardware is tried and the request is not refused. -/
theorem runs_answerNonce (h : Prog.Runs (answerNonce X payload nonce p n) t o) :
    ReachesHardware t ∧ ¬ Responds 400 t := by
  constructor
  · obtain ⟨r, t', rfl, -⟩ := h.of_replied false
    exact ⟨_, List.mem_cons_self, rfl⟩
  · rintro ⟨x, hx, r, hr, h400⟩
    have hcall := only_answerNonce.sound h x hx
    rw [hr] at hcall
    exact hcall h400

/-- A response is all there is of a run that sends one. -/
theorem runs_sendHttpResponse {status : ℕ} {body : String}
    (h : Prog.Runs (sendHttpResponse status body) t o) :
    Responds status t ∧ ¬ ReachesHardware t := by
  obtain ⟨r, rfl, -⟩ := Prog.Runs.of_replied_pure (f := id) (.ok ()) h
  refine ⟨⟨_, List.mem_cons_self, _, rfl, rfl⟩, ?_⟩
  rintro ⟨x, hx, hcall⟩
  cases List.mem_singleton.mp hx
  cases hcall

variable (hX : X.base16.Documented) (hpay : IsPayloadHash payload)
include hX hpay

/-- **What is done with a buffer**, by the grammar alone. -/
theorem runs_answerRequest (h : Prog.Runs (answerRequest X payload buf) t o) :
    (¬ (∃ query, RequestLine (requestLine buf) query) ∧ t = [] ∧ o = some (.ok ())) ∨
      (∃ query, RequestLine (requestLine buf) query ∧ ¬ HasNonce query) ∧
        Responds 400 t ∧ ¬ ReachesHardware t ∨
      (∃ query, RequestLine (requestLine buf) query ∧ HasNonce query) ∧
        ReachesHardware t ∧ ¬ Responds 400 t := by
  simp only [← parseRequest_eq_some_iff, ← nonceAdmitted_nonceHex_iff]
  rw [answerRequest] at h
  split at h
  · next hempty =>
    subst hempty
    obtain ⟨rfl, rfl⟩ := h.of_pure
    have hnone : parseRequest [] = none := by
      unfold parseRequest
      rw [fromUtf8Lossy, lossyChars]
      rfl
    refine .inl ⟨not_exists.mpr fun query hsome => ?_, rfl, rfl⟩
    exact Option.some_ne_none query (hsome.symm.trans hnone)
  · cases hquery : parseRequest buf with
    | none =>
        rw [hquery] at h
        obtain ⟨rfl, rfl⟩ := h.of_pure
        refine .inl ⟨not_exists.mpr fun query hsome => ?_, rfl, rfl⟩
        exact Option.some_ne_none query hsome.symm
    | some query =>
        rw [hquery] at h
        dsimp only at h
        split at h
        · next hrefused => exact .inr (.inl ⟨⟨query, rfl, hrefused⟩, runs_sendHttpResponse h⟩)
        · next hadmitted =>
          have hadmitted := not_not.mp hadmitted
          obtain ⟨n, hn, -⟩ := (nonceAdmitted_iff.mp hadmitted).exists_decode
          obtain ⟨p, hp⟩ := hpay.exists_decode
          rw [hX.mixed_eq, hX.mixed_eq, hn, hp] at h
          exact .inr (.inr ⟨⟨query, rfl, hadmitted⟩, runs_answerNonce h⟩)

end Answers

/-- A request with a nonce is none without. -/
theorem not_refused_of_accepted {buf : Bytes}
    (h : ∃ query, RequestLine (requestLine buf) query ∧ HasNonce query) :
    ¬ ∃ query, RequestLine (requestLine buf) query ∧ ¬ HasNonce query := by
  obtain ⟨query, hline, hnonce⟩ := h
  rintro ⟨query', hline', hnonce'⟩
  exact hnonce' (hline.unique hline' ▸ hnonce)

/-! ## The endpoint -/

/-- **The endpoint accepts exactly its grammar.** Behind the limiter and the reads that leave a
buffer, the hardware is tried exactly when the first line is a request with a nonce; a `400` is
written exactly when it is a request without one; and any other buffer ends the connection in
silence. Every nonce decodes, to half as many bytes. -/
theorem endpoint_accepts_grammar (X : Externals) (hX : X.base16.Documented) (payload : String)
    (hpay : IsPayloadHash payload) (ip : IpAddr) :
    (∀ (permit : SubnetPermit) (buf : Bytes) (reads rest : Trace) (o : Option (Except String Unit)),
      Prog.Runs (readLoop []) reads (some (.ok buf)) →
      Prog.Runs (handleAttestationConnection X payload ip)
        (⟨.acquire ip, some (.ok permit)⟩ :: (reads ++ rest)) o →
      (ReachesHardware rest ↔
        ∃ query, RequestLine (requestLine buf) query ∧ HasNonce query) ∧
      (Responds 400 rest ↔
        ∃ query, RequestLine (requestLine buf) query ∧ ¬ HasNonce query) ∧
      (¬ (∃ query, RequestLine (requestLine buf) query) → rest = [] ∧ o = some (.ok ()))) ∧
    ∀ nonce, IsNonce nonce → ∃ bytes, X.base16.mixedDecode nonce = some bytes ∧
      nonce.toList.length = 2 * bytes.length ∧ 1 ≤ bytes.length ∧ bytes.length ≤ 128 := by
  constructor
  · intro permit buf reads rest o hreads hrun
    obtain ⟨r, t, ht, hrest⟩ := Prog.Runs.of_replied (.ok permit) hrun
    cases ht
    have hanswer := hreads.of_bind_append hrest
    change Prog.Runs (answerRequest X payload buf) rest o at hanswer
    rcases runs_answerRequest hX hpay hanswer with
      ⟨hline, rfl, rfl⟩ | ⟨hrefused, h400, hhw⟩ | ⟨haccepted, hhw, h400⟩
    · refine ⟨iff_of_false ?_ ?_, iff_of_false ?_ ?_, fun _ => ⟨rfl, rfl⟩⟩
      · rintro ⟨x, hx, -⟩
        exact List.not_mem_nil hx
      · exact fun h => hline (h.imp fun _ h => h.1)
      · rintro ⟨x, hx, -⟩
        exact List.not_mem_nil hx
      · exact fun h => hline (h.imp fun _ h => h.1)
    · refine ⟨iff_of_false hhw ?_, iff_of_true h400 hrefused, fun hno => absurd ?_ hno⟩
      · exact fun haccepted => not_refused_of_accepted haccepted hrefused
      · exact hrefused.imp fun _ h => h.1
    · refine ⟨iff_of_true hhw haccepted, iff_of_false h400 ?_, fun hno => absurd ?_ hno⟩
      · exact not_refused_of_accepted haccepted
      · exact haccepted.imp fun _ h => h.1
  · intro nonce hnonce
    rw [hX.mixed_eq]
    exact hnonce.exists_decode

/-- A whole request in one chunk. -/
theorem runs_readLoop_chunk {bytes : { bs : Bytes // bs.length ≤ 1024 }} (hne : bytes.val ≠ [])
    (hblank : hasBlankLine bytes.val = true) :
    Prog.Runs (readLoop []) [⟨.read, some (.chunk bytes)⟩] (some (.ok bytes.val)) := by
  have hlen := bytes.property
  rw [readLoop]
  refine .reply _ ?_
  dsimp only
  rw [if_neg hne, List.nil_append, if_neg (by omega), if_pos hblank]
  exact .ret _

/-- A request whose nonce is not the first parameter. -/
def sampleRequest : { bs : Bytes // bs.length ≤ 1024 } :=
  ⟨bstr "GET /v1/attestation?a=1&nonce=0a HTTP/1.1" ++ [13, 10, 13, 10], by decide⟩

theorem endpoint_accepts_grammar_sample :
    ∃ rest o, Prog.Runs (handleAttestationConnection sampleExternals
        (String.ofList (List.replicate 96 'b')) sampleIp)
      (⟨.acquire sampleIp, some (.ok ⟨Subnet.ofIp sampleIp⟩)⟩ ::
        ([⟨.read, some (.chunk sampleRequest)⟩] ++ rest)) o ∧ ReachesHardware rest := by
  have henv : ∀ past c, sampleEnv past c = none → IsEmpty c.Reply :=
    fun _ c hc => by cases c <;> cases hc
  have hne : sampleRequest.val ≠ [] := List.append_ne_nil_of_right_ne_nil _ (by decide)
  have hreads := runs_readLoop_chunk hne (hasBlankLine_iff.mpr ⟨_, [], List.append_nil _⟩)
  have hrest := Prog.runs_exec henv (answerRequest sampleExternals
    (String.ofList (List.replicate 96 'b')) sampleRequest.val) []
  have hrun : Prog.Runs (handleAttestationConnection sampleExternals
      (String.ofList (List.replicate 96 'b')) sampleIp)
      (⟨.acquire sampleIp, some (.ok ⟨Subnet.ofIp sampleIp⟩)⟩ :: (_ ++ _)) _ :=
    .reply _ (hreads.bind hrest)
  refine ⟨_, _, hrun, ?_⟩
  refine ((endpoint_accepts_grammar sampleExternals Base16.documented_reference _
    (isPayloadHash_replicate rfl) sampleIp).1 _ _ _ _ _ hreads hrun).1.mpr ?_
  exact ⟨"a=1&nonce=0a", parseRequest_eq_some_iff.mp (by decide +kernel),
    nonceAdmitted_nonceHex_iff.mp (by decide +kernel)⟩

end SevMicroLoader.Attestation
