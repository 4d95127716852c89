import SevMicroLoader.Attestation.Binding
import SevMicroLoader.Lib.Crlf
import SevMicroLoader.Lib.Implement

/-!
# Responses on the wire

`httpResponse` is the text that `send_http_response` writes, and `readHttp` reads such a text: the
start line, the fields, and the body behind the empty line. What is read is the response that was
written, whatever its body has in it (`readHttp_httpResponse`).

`overStream` makes the response of a handler by writing to the stream, flushing and shutting it
down, and leaves the other calls as they are. On every connection at most one message is written.
-/

namespace SevMicroLoader.Attestation
open Rust Crlf

/-! ## The text of a response -/

/-- The text of a status code. -/
def statusText : ℕ → String
  | 200 => "OK"
  | 400 => "Bad Request"
  | 429 => "Too Many Requests"
  | 404 => "Not Found"
  | 405 => "Method Not Allowed"
  | 503 => "Service Unavailable"
  | _ => "Error"

/-- The text of a response: status line, fields, an empty line and the body. -/
def httpResponse (r : Response) : String :=
  "HTTP/1.1 " ++ toString r.status ++ " " ++ statusText r.status ++ "\r\n" ++
  "Content-Type: " ++ r.contentType ++ "\r\n" ++
  "Content-Length: " ++ toString r.body.utf8ByteSize ++ "\r\n" ++
  "Connection: close\r\n" ++
  "X-Content-Type-Options: nosniff\r\n" ++
  "Cache-Control: no-store\r\n" ++
  "\r\n" ++
  r.body

/-! ## Reading it -/

/-- An HTTP response. -/
structure HttpMessage where
  version : String
  status : String
  reason : String
  fields : List (String × String)
  body : String
  deriving DecidableEq

/-- The version, the status and the reason of a start line. -/
def readStart (line : List Char) : Option (String × String × String) := do
  let (version, rest) ← splitOnce (String.ofList line) ' '
  let (status, reason) ← splitOnce rest ' '
  pure (version, status, reason)

/-- A field, with a blank behind its colon. -/
def readField (line : List Char) : Option (String × String) := do
  let (name, value) ← splitOnce (String.ofList line) ':'
  let (before, value) ← splitOnce value ' '
  if before = "" then pure (name, value) else none

/-- An HTTP message: start line, fields up to the empty line, and the body. -/
def readHttp (text : String) : Option HttpMessage := do
  let (lines, body) ← readBlock (text.toList.length + 1) text.toList
  let (version, status, reason) ← readStart (lines.headD [])
  let fields ← lines.tail.mapM readField
  pure ⟨version, status, reason, fields, String.ofList body⟩

/-- What a response is to be read as. -/
def Response.message (r : Response) : HttpMessage where
  version := "HTTP/1.1"
  status := toString r.status
  reason := statusText r.status
  fields := [("Content-Type", r.contentType),
    ("Content-Length", toString r.body.utf8ByteSize),
    ("Connection", "close"),
    ("X-Content-Type-Options", "nosniff"),
    ("Cache-Control", "no-store")]
  body := r.body

/-- The start line that is read as the one of `m`. -/
def startLine (m : HttpMessage) : List Char :=
  m.version.toList ++ ' ' :: (m.status.toList ++ ' ' :: m.reason.toList)

/-- The line that is read as the field. -/
def fieldLine (field : String × String) : List Char :=
  field.1.toList ++ ':' :: ' ' :: field.2.toList

/-- What can be a field: the name ends at the first colon, and nothing ends the line. -/
structure IsField (field : String × String) : Prop where
  name : ':' ∉ field.1.toList
  noReturn : '\r' ∉ field.1.toList ∧ '\r' ∉ field.2.toList

section Read
variable {m : HttpMessage} {field : String × String}

theorem readStart_startLine (hversion : ' ' ∉ m.version.toList) (hstatus : ' ' ∉ m.status.toList) :
    readStart (startLine m) = some (m.version, m.status, m.reason) := by
  have hfirst : splitOnce (String.ofList (startLine m)) ' ' =
      some (m.version, String.ofList (m.status.toList ++ ' ' :: m.reason.toList)) :=
    splitOnce_eq_some_iff.mpr ⟨by rw [String.toList_ofList, String.toList_ofList, startLine],
      hversion⟩
  have hsecond : splitOnce (String.ofList (m.status.toList ++ ' ' :: m.reason.toList)) ' ' =
      some (m.status, m.reason) :=
    splitOnce_eq_some_iff.mpr ⟨String.toList_ofList, hstatus⟩
  rw [readStart, hfirst]
  dsimp only [Option.bind_eq_bind, Option.bind_some]
  rw [hsecond]
  rfl

theorem readField_fieldLine (h : IsField field) : readField (fieldLine field) = some field := by
  have hfirst : splitOnce (String.ofList (fieldLine field)) ':' =
      some (field.1, String.ofList (' ' :: field.2.toList)) :=
    splitOnce_eq_some_iff.mpr ⟨by rw [String.toList_ofList, String.toList_ofList, fieldLine],
      h.name⟩
  have hsecond : splitOnce (String.ofList (' ' :: field.2.toList)) ' ' = some ("", field.2) :=
    splitOnce_eq_some_iff.mpr ⟨String.toList_ofList, List.not_mem_nil⟩
  rw [readField, hfirst]
  dsimp only [Option.bind_eq_bind, Option.bind_some]
  rw [hsecond]
  rfl

theorem mapM_readField {fields : List (String × String)} (h : ∀ field ∈ fields, IsField field) :
    (fields.map fieldLine).mapM readField = some fields := by
  induction fields with
  | nil => rfl
  | cons field fields ih =>
      have hrest := ih fun f hf => h f (List.mem_cons_of_mem field hf)
      rw [List.map_cons, List.mapM_cons, readField_fieldLine (h field List.mem_cons_self), hrest]
      rfl

/-- **A message is read back** from its lines, with any body behind them. -/
theorem readHttp_block (hversion : ' ' ∉ m.version.toList) (hstatus : ' ' ∉ m.status.toList)
    (hstart : '\r' ∉ startLine m) (hfields : ∀ field ∈ m.fields, IsField field) {text : String}
    (htext : text.toList = block (startLine m :: m.fields.map fieldLine) m.body.toList) :
    readHttp text = some m := by
  have hlines : ∀ line ∈ startLine m :: m.fields.map fieldLine, line ≠ [] ∧ '\r' ∉ line := by
    intro line hline
    rcases List.mem_cons.mp hline with rfl | hline
    · exact ⟨List.append_ne_nil_of_right_ne_nil _ (List.cons_ne_nil _ _), hstart⟩
    · obtain ⟨field, hfield, rfl⟩ := List.mem_map.mp hline
      obtain ⟨-, hname, hvalue⟩ := hfields field hfield
      refine ⟨List.append_ne_nil_of_right_ne_nil _ (List.cons_ne_nil _ _), ?_⟩
      simp [fieldLine, hname, hvalue]
  have hread : readBlock (text.toList.length + 1) text.toList =
      some (startLine m :: m.fields.map fieldLine, m.body.toList) := by
    rw [htext]
    exact readBlock_block (Nat.lt_succ_of_lt (length_block _ _)) hlines _
  rw [readHttp, hread]
  dsimp only [Option.bind_eq_bind, Option.bind_some, List.headD_cons, List.tail_cons]
  rw [readStart_startLine hversion hstatus, mapM_readField hfields]
  dsimp only [Option.bind_some, Option.pure_def]
  rw [String.ofList_toList]

end Read

/-- The decimal digits of a number are nothing but digits. -/
theorem not_mem_toString {c : Char} (hc : c.isDigit = false) (n : ℕ) :
    c ∉ (toString n).toList := by
  intro hmem
  rw [Nat.toString_eq_repr, Nat.toList_repr] at hmem
  have hdigit := Nat.isDigit_of_mem_toDigits (by decide) (by decide) hmem
  rw [hc] at hdigit
  cases hdigit

theorem noReturn_statusText (status : ℕ) : '\r' ∉ (statusText status).toList := by
  unfold statusText
  split <;> decide

/-- The text of a response is a block of lines, in front of the body. -/
theorem toList_httpResponse (r : Response) :
    (httpResponse r).toList =
      block (startLine r.message :: r.message.fields.map fieldLine) r.message.body.toList := by
  have hversion : "HTTP/1.1 ".toList = "HTTP/1.1".toList ++ [' '] := by decide +kernel
  have hblank : " ".toList = [' '] := by decide +kernel
  have hend : "\r\n".toList = lineEnd := by decide +kernel
  have htype : "Content-Type: ".toList = "Content-Type".toList ++ [':', ' '] := by decide +kernel
  have hlength : "Content-Length: ".toList = "Content-Length".toList ++ [':', ' '] := by
    decide +kernel
  have hclose : "Connection: close\r\n".toList =
      "Connection".toList ++ ([':', ' '] ++ ("close".toList ++ lineEnd)) := by
    decide +kernel
  have hnosniff : "X-Content-Type-Options: nosniff\r\n".toList =
      "X-Content-Type-Options".toList ++ ([':', ' '] ++ ("nosniff".toList ++ lineEnd)) := by
    decide +kernel
  have hnoStore : "Cache-Control: no-store\r\n".toList =
      "Cache-Control".toList ++ ([':', ' '] ++ ("no-store".toList ++ lineEnd)) := by
    decide +kernel
  unfold httpResponse
  simp only [String.toList_append, List.append_assoc]
  rw [hversion, hblank, hend, htype, hlength, hclose, hnosniff, hnoStore]
  simp only [Response.message, startLine, fieldLine, block, List.map_cons, List.map_nil,
    List.append_assoc, List.cons_append, List.nil_append]

/-- **A response is read back**, whatever is in its body. -/
theorem readHttp_httpResponse {r : Response} (h : '\r' ∉ r.contentType.toList) :
    readHttp (httpResponse r) = some r.message := by
  have hstatus : '\r' ∉ (toString r.status).toList := not_mem_toString (by decide) _
  have hlength : '\r' ∉ (toString r.body.utf8ByteSize).toList := not_mem_toString (by decide) _
  have hreason := noReturn_statusText r.status
  apply readHttp_block
  · exact (by decide : ' ' ∉ "HTTP/1.1".toList)
  · exact not_mem_toString (by decide) _
  · have hversion : '\r' ∉ "HTTP/1.1".toList := by decide
    simp only [startLine, Response.message, List.mem_append, List.mem_cons, not_or]
    exact ⟨hversion, by decide, hstatus, by decide, hreason⟩
  · intro field hfield
    simp only [Response.message, List.mem_cons, List.not_mem_nil, or_false] at hfield
    rcases hfield with rfl | rfl | rfl | rfl | rfl
    · exact ⟨(by decide : ':' ∉ "Content-Type".toList),
        (by decide : '\r' ∉ "Content-Type".toList), h⟩
    · exact ⟨(by decide : ':' ∉ "Content-Length".toList),
        (by decide : '\r' ∉ "Content-Length".toList), hlength⟩
    · exact ⟨by decide, by decide, by decide⟩
    · exact ⟨by decide, by decide, by decide⟩
    · exact ⟨by decide, by decide, by decide⟩
  · exact toList_httpResponse r

/-! ## The stream -/

/-- What a handler over its stream asks of its environment. -/
inductive StreamCall
  | writeAll (bytes : Bytes)
  | flush
  | shutdown
  /-- A call of the handler that does not write. -/
  | handler (c : Call)

/-- What the environment answers. -/
abbrev StreamCall.Reply : StreamCall → Type
  | .writeAll _ => Except String Unit
  | .flush => Except String Unit
  | .shutdown => Except String Unit
  | .handler c => c.Reply

/-- A program over the stream. -/
abbrev Stream := Prog StreamCall StreamCall.Reply

/-- A trace over the stream. -/
abbrev StreamTrace := List (Prog.Event StreamCall StreamCall.Reply)

/-- `send_http_response`. -/
def writeHttpResponse (r : Response) : Stream (Except String Unit) := do
  match ← Prog.perform (StreamCall.writeAll (asBytes (httpResponse r))) with
  | .error e => pure (.error e)
  | .ok _ =>
      match ← Prog.perform StreamCall.flush with
      | .error e => pure (.error e)
      | .ok _ => Prog.perform StreamCall.shutdown

/-- A response is written to the stream; other calls stay as they are. -/
def overStream : (c : Call) → Stream c.Reply
  | .respond r => writeHttpResponse r
  | c => Prog.perform (StreamCall.handler c)

/-- What an event writes. -/
def written : Prog.Event StreamCall StreamCall.Reply → Option Bytes
  | ⟨.writeAll bytes, _⟩ => some bytes
  | _ => none

/-- What was written, write by write. -/
def writes (u : StreamTrace) : List Bytes := u.filterMap written

/-- The response an event has sent. -/
def response : Prog.Event Call Call.Reply → Option Response
  | ⟨.respond r, some _⟩ => some r
  | _ => none

/-- The responses of a handler, in order. -/
def responses (t : Trace) : List Response := t.filterMap response

/-! ### One response -/

/-- The responses sent, with a call behind those so far. -/
def Sends (sent : List Response) : (c : Call) → c.Reply → List Response
  | .respond r, _ => sent ++ [r]
  | _, _ => sent

/-- A response is the first one, and of one of four kinds, in JSON. -/
def SendsOnce (sent : List Response) : Call → Prop
  | .respond r => sent = [] ∧ r.status ∈ [200, 400, 429, 503] ∧ r.contentType = "application/json"
  | _ => True

/-- The responses that were sent so far: one at most. -/
def AtMostOne (sent : List Response) : Prop :=
  sent = [] ∨ ∃ r, sent = [r] ∧ r.status ∈ [200, 400, 429, 503] ∧ r.contentType = "application/json"

/-- A call that sends no response. -/
def Silent : Call → Prop
  | .respond _ => False
  | _ => True

section Handler
variable {α : Type} {X : Externals} {payloadHash : String}

theorem holds_silent {p : Handler α} (h : Prog.Only Silent p) (sent : List Response) :
    Prog.Holds Sends SendsOnce (fun sent' _ => sent' = sent) p sent := by
  apply h.holds
  · intro sent c hc
    cases c with
    | respond r => exact hc.elim
    | _ => trivial
  · intro sent c reply hc
    cases c with
    | respond r => exact hc.elim
    | _ => rfl

theorem silent_readLoop (buf : Bytes) : Prog.Only Silent (readLoop buf) := by
  induction buf using readLoop.induct with
  | case1 buf ih =>
      rw [readLoop]
      refine ⟨trivial, fun reply => ?_⟩
      cases reply with
      | failed e => trivial
      | timeout => trivial
      | chunk bytes =>
          dsimp only
          split
          · trivial
          · next hnil =>
            split
            · trivial
            · next hbig =>
              split
              · trivial
              · exact ih bytes hnil hbig

theorem silent_getSnpAttestationReport (reportData : ByteArr 64) :
    Prog.Only Silent (getSnpAttestationReport reportData) := by
  refine ⟨trivial, fun found => ?_⟩
  cases found with
  | false => trivial
  | true =>
      refine ⟨trivial, fun opened => ?_⟩
      cases opened with
      | error e => trivial
      | ok _ =>
          refine ⟨trivial, fun reply => ?_⟩
          cases reply <;> trivial

/-- The judgement used here: the program sends one response at most. -/
abbrev SendsAtMostOne (p : Handler α) : Prop :=
  Prog.Holds Sends SendsOnce (fun sent _ => AtMostOne sent) p []

theorem sends_sendHttpResponse {status : ℕ} (h : status ∈ [200, 400, 429, 503]) (body : String) :
    SendsAtMostOne (sendHttpResponse status body) :=
  ⟨⟨rfl, h, rfl⟩, fun _ => .inr ⟨_, rfl, h, rfl⟩⟩

theorem sends_answerNonce {nonce : String} {p n : Bytes} :
    SendsAtMostOne (answerNonce X payloadHash nonce p n) := by
  refine Prog.holds_call.mpr ⟨trivial, fun granted => ?_⟩
  cases granted with
  | false => exact sends_sendHttpResponse (by decide) _
  | true =>
      apply (holds_silent (silent_getSnpAttestationReport (X.sha512 (p ++ n))) []).bind
      rintro _ r rfl
      cases r with
      | error err => exact sends_sendHttpResponse (by decide) _
      | ok report => exact sends_sendHttpResponse (by decide) _

theorem sends_answerRequest (buf : Bytes) :
    SendsAtMostOne (answerRequest X payloadHash buf) := by
  rw [answerRequest]
  refine Prog.holds_ite.mpr ⟨fun _ => .inl rfl, fun _ => ?_⟩
  cases parseRequest buf with
  | none => exact .inl rfl
  | some query =>
      refine Prog.holds_ite.mpr ⟨fun _ => sends_sendHttpResponse (by decide) _, fun _ => ?_⟩
      cases X.base16.mixedDecode (nonceHex query) with
      | none => exact .inl rfl
      | some nonceBytes =>
          cases X.base16.mixedDecode payloadHash with
          | none => exact .inl rfl
          | some payloadHashBytes => exact sends_answerNonce

theorem sends_handler (X : Externals) (payloadHash : String) (ip : IpAddr) :
    SendsAtMostOne (handleAttestationConnection X payloadHash ip) := by
  refine Prog.holds_call.mpr ⟨trivial, fun answer => ?_⟩
  cases answer with
  | error err =>
      exact Prog.holds_ite.mpr ⟨fun _ => sends_sendHttpResponse (by decide) _,
        fun _ => sends_sendHttpResponse (by decide) _⟩
  | ok permit =>
      apply (holds_silent (silent_readLoop []) []).bind
      rintro _ r rfl
      cases r with
      | error early => exact .inl rfl
      | ok buf => exact sends_answerRequest buf

end Handler

theorem after_sends (sent : List Response) (t : Trace) :
    Prog.after Sends sent t = sent ++ responses t := by
  induction t generalizing sent with
  | nil => exact (List.append_nil sent).symm
  | cons x t ih =>
      obtain ⟨c, reply⟩ := x
      cases reply with
      | none =>
          rw [Prog.after_cons_none, ih]
          cases c <;> rfl
      | some reply =>
          rw [Prog.after_cons_some, ih]
          cases c with
          | respond r => exact List.append_assoc sent [r] (responses t)
          | _ => rfl

/-! ### One message -/

theorem StreamCall.replied (c : StreamCall) : Nonempty c.Reply := by
  cases c with
  | writeAll bytes => exact ⟨.ok ()⟩
  | flush => exact ⟨.ok ()⟩
  | shutdown => exact ⟨.ok ()⟩
  | handler c =>
      cases c with
      | acquire ip => exact ⟨.error ""⟩
      | read => exact ⟨.timeout⟩
      | tryAcquire => exact ⟨true⟩
      | deviceExists => exact ⟨true⟩
      | openDevice => exact ⟨.ok ()⟩
      | ioctl v req => exact ⟨.error ("", 0)⟩
      | respond r => exact ⟨.ok ()⟩

/-- Nothing stops a program over the stream. -/
theorem returns_of_stream {α : Type} {p : Stream α} {u : StreamTrace} {o : Option α}
    (h : Prog.Runs p u o) : ∃ a, o = some a := by
  have htrivial : Prog.Holds (fun (s : Unit) _ _ => s) (fun _ _ => True) (fun _ _ => True) p () :=
    Prog.holds_trivial p ()
  exact htrivial.returns (fun _ c _ => c.replied) h

theorem writes_writeHttpResponse {r : Response} {u : StreamTrace} {reply : Except String Unit}
    (h : Prog.Runs (writeHttpResponse r) u (some reply)) :
    writes u = [asBytes (httpResponse r)] := by
  obtain ⟨sent, u, rfl, hsent⟩ := Prog.Runs.of_replied
    (e := StreamCall.writeAll (asBytes (httpResponse r))) (.ok ()) h
  cases sent with
  | error e =>
      obtain ⟨rfl, -⟩ := Prog.Runs.of_pure (a := Except.error e) hsent
      rfl
  | ok _ =>
      obtain ⟨flushed, u, rfl, hflushed⟩ :=
        Prog.Runs.of_replied (e := StreamCall.flush) (.ok ()) hsent
      cases flushed with
      | error e =>
          obtain ⟨rfl, -⟩ := Prog.Runs.of_pure (a := Except.error e) hflushed
          rfl
      | ok _ =>
          obtain ⟨shut, u, rfl, hshut⟩ :=
            Prog.Runs.of_replied (e := StreamCall.shutdown) (.ok ()) hflushed
          obtain ⟨rfl, -⟩ := Prog.Runs.of_pure (a := shut) hshut
          rfl

/-- **What is written** is the text of each response. -/
theorem writes_of_realises {t : Trace} {u : StreamTrace} (h : Prog.Realises overStream t u) :
    writes u = (responses t).map fun r => asBytes (httpResponse r) := by
  have hother : ∀ {c : Call} {r : c.Reply} {u : StreamTrace},
      Prog.Runs (Prog.perform (StreamCall.handler c) : Stream c.Reply) u (some r) →
        writes u = [] := by
    intro c r u hcall
    obtain ⟨reply, u, rfl, hret⟩ := Prog.Runs.of_replied (e := StreamCall.handler c) r hcall
    obtain ⟨rfl, -⟩ := hret.of_pure
    rfl
  induction h with
  | nil => rfl
  | @reply c r t u u' hcall _ ih =>
      have happend : writes (u ++ u') = writes u ++ writes u' := List.filterMap_append
      rw [happend, ih]
      cases c with
      | respond r =>
          rw [writes_writeHttpResponse hcall]
          rfl
      | _ => exact congrArg (· ++ _) (hother hcall)
  | halt hstop =>
      obtain ⟨a, ha⟩ := returns_of_stream hstop
      cases ha

/-- **One connection, one message at most.** Over the stream, the handler does what it does; it
writes nothing, or the text of a single response, once; and whoever reads that text as an HTTP
message reads this response, with the length of its body and no field from its body. -/
theorem one_message_per_connection (X : Externals) (payloadHash : String) (ip : IpAddr)
    {u : StreamTrace} {o : Option (Except String Unit)}
    (hrun : Prog.Runs ((handleAttestationConnection X payloadHash ip).implement overStream) u o) :
    (∃ result, o = some result) ∧
      ∃ t, Prog.Runs (handleAttestationConnection X payloadHash ip) t o ∧
        writes u = (responses t).map (fun r => asBytes (httpResponse r)) ∧
        (responses t = [] ∨ ∃ r, responses t = [r] ∧ r.status ∈ [200, 400, 429, 503] ∧
          readHttp (httpResponse r) = some r.message) := by
  obtain ⟨result, rfl⟩ := returns_of_stream hrun
  refine ⟨⟨result, rfl⟩, ?_⟩
  have hstops : ∀ c u, Prog.Runs (overStream c) u none → IsEmpty c.Reply := by
    intro c u hstop
    obtain ⟨a, ha⟩ := returns_of_stream hstop
    cases ha
  obtain ⟨t, hhandler, hreal⟩ := (Prog.runs_implement_iff hstops).mp hrun
  refine ⟨t, hhandler, writes_of_realises hreal, ?_⟩
  have hsends := ((sends_handler X payloadHash ip).sound hhandler).2 result rfl
  rw [after_sends, List.nil_append] at hsends
  rcases hsends with hnone | ⟨r, hone, hstatus, htype⟩
  · exact .inl hnone
  · refine .inr ⟨r, hone, hstatus, readHttp_httpResponse ?_⟩
    rw [htype]
    decide

/-- The stream takes everything, and the hardware answers. -/
def sampleStreamEnv (_ : StreamTrace) : (c : StreamCall) → Option c.Reply
  | .writeAll _ => some (.ok ())
  | .flush => some (.ok ())
  | .shutdown => some (.ok ())
  | .handler c => sampleEnv [] c

def sampleStream : StreamTrace × Option (Except String Unit) :=
  Prog.exec sampleStreamEnv ((handleAttestationConnection sampleExternals
    (String.ofList (List.replicate 96 'a')) sampleIp).implement overStream) []

theorem one_message_per_connection_sample :
    ∃ r, writes sampleStream.1 = [asBytes (httpResponse r)] ∧
      readHttp (httpResponse r) = some r.message := by
  have hrun : Prog.Runs ((handleAttestationConnection sampleExternals
      (String.ofList (List.replicate 96 'a')) sampleIp).implement overStream)
      sampleStream.1 sampleStream.2 := by
    apply Prog.runs_exec
    intro past c hc
    cases c with
    | handler c => cases c <;> cases hc
    | _ => cases hc
  have hwrites : writes sampleStream.1 ≠ [] := by decide +kernel
  obtain ⟨-, t, -, hwritten, hnone | ⟨r, hone, -, hread⟩⟩ :=
    one_message_per_connection sampleExternals _ sampleIp hrun
  · rw [hnone] at hwritten
    exact absurd hwritten hwrites
  · rw [hone] at hwritten
    exact ⟨r, hwritten, hread⟩

end SevMicroLoader.Attestation
