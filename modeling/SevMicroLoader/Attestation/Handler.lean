import SevMicroLoader.Attestation.Limiter
import SevMicroLoader.Lib.Prog
import SevMicroLoader.Rust.Str

/-!
# One attestation connection

`handleAttestationConnection` is a program over the calls it makes on the limiter, the socket, the
hardware semaphore and `/dev/sev-guest`. What is computed between the calls (the request line, the
nonce, the report data and the bodies) is pure and under the names of the source.
-/

namespace SevMicroLoader.Attestation
open Rust

/-! ## Calls -/

/-- What the ioctl is handed. -/
structure SnpReportReq where
  userData : ByteArr 64
  vmpl : UInt32
  rsvd : ByteArr 28

/-- What `send_http_response` is called with. -/
structure Response where
  status : ℕ
  contentType : String
  body : String

/-- What a handler asks of its environment. -/
inductive Call
  /-- `subnet_limiter.acquire(ip)`. -/
  | acquire (ip : IpAddr)
  /-- A read of at most 1024 bytes under a timeout of three seconds. -/
  | read
  /-- `global_hardware_limiter.try_acquire()`. -/
  | tryAcquire
  | deviceExists
  | openDevice
  /-- The `SNP_GET_REPORT` ioctl. -/
  | ioctl (msgVersion : UInt8) (req : SnpReportReq)
  /-- Write a response, flush and shut the stream down. -/
  | respond (r : Response)

/-- How a read ends. -/
inductive ReadReply
  | chunk (bytes : { bs : Bytes // bs.length ≤ 1024 })
  | failed (e : String)
  | timeout

/-- What each call returns; the error of the ioctl is the system's and the firmware's. -/
abbrev Call.Reply : Call → Type
  | .acquire _ => Except String SubnetPermit
  | .read => ReadReply
  | .tryAcquire => Bool
  | .deviceExists => Bool
  | .openDevice => Except String Unit
  | .ioctl _ _ => Except (String × ℕ) (ByteArr 4000)
  | .respond _ => Except String Unit

/-- A program of a connection. -/
abbrev Handler := Prog Call Call.Reply

/-- The packages the handler calls. -/
structure Externals where
  base16 : Base16
  sha512 : Bytes → ByteArr 64
  base64UrlEncode : Bytes → String

/-! ## Reading the request -/

/-- `buf.windows(4).any(|w| w == b"\r\n\r\n")`. -/
def hasBlankLine (buf : Bytes) : Bool := buf.tails.any fun t => [13, 10, 13, 10].isPrefixOf t

/-- The read loop: the buffer it leaves, or what the handler returns early. -/
def readLoop (buf : Bytes) : Handler (Except (Except String Unit) Bytes) :=
  .call .read fun
    | .failed e => pure (.error (.error e))
    | .timeout => pure (.error (.ok ()))
    | .chunk bytes =>
        if bytes.val = [] then pure (.ok buf)
        else if (buf ++ bytes.val).length > 8192 then pure (.error (.ok ()))
        else if hasBlankLine (buf ++ bytes.val) then pure (.ok (buf ++ bytes.val))
        else readLoop (buf ++ bytes.val)
termination_by 8193 - buf.length
decreasing_by
  have hpos : 0 < bytes.val.length := List.length_pos_iff.mpr (by assumption)
  simp only [List.length_append] at *
  omega

/-- The query of a request line the endpoint answers. -/
def parseRequest (buf : Bytes) : Option String :=
  match splitWhitespace (firstLine (fromUtf8Lossy buf)) with
  | [method, pathQuery, version] =>
      if method ≠ "GET" ∨ ¬ startsWith version "HTTP/" then none
      else if ¬ startsWith pathQuery "/v1/attestation" then none
      else
        let (path, query) := (splitOnce pathQuery '?').getD (pathQuery, "")
        if path ≠ "/v1/attestation" then none else some query
  | _ => none

/-- The value of the first pair with the key. -/
def extractQueryParam (query key : String) : Option String :=
  (split query '&').findSome? fun pair =>
    match splitOnce pair '=' with
    | some (k, v) => if k = key then some v else none
    | none => none

/-- The nonce text of a query. -/
def nonceHex (query : String) : String := (extractQueryParam query "nonce").getD ""

/-- Whether a nonce text is admitted: 2 to 256 hexadecimal digits, evenly many. -/
def nonceAdmitted (nonce : String) : Bool :=
  ¬ (nonce.utf8ByteSize < 2 ∨ nonce.utf8ByteSize > 256 ∨ nonce.utf8ByteSize % 2 ≠ 0 ∨
    ¬ nonce.toList.all isAsciiHexdigit)

/-! ## Responses -/

/-- The fields of a report. -/
structure ReportBody where
  platform : String
  nonce : String
  payloadSha384 : String
  reportDataHex : String
  attestationReport : String

/-- The body as it is written, field by field. -/
def ReportBody.render (b : ReportBody) : String :=
  "\x7b\n" ++
  "  \"version\": 1,\n" ++
  "  \"platform\": \"" ++ b.platform ++ "\",\n" ++
  "  \"nonce\": \"" ++ b.nonce ++ "\",\n" ++
  "  \"payload_sha384\": \"" ++ b.payloadSha384 ++ "\",\n" ++
  "  \"report_data_hex\": \"" ++ b.reportDataHex ++ "\",\n" ++
  "  \"attestation_report\": \"" ++ b.attestationReport ++ "\"\n" ++
  "\x7d"

/-- `err.replace('"', "'")`. -/
def replaceQuotes (err : String) : String :=
  String.ofList (err.toList.map fun c => if c = Char.ofNat 34 then Char.ofNat 39 else c)

/-- The body when there is no report. -/
def snpUnavailable (err payloadHashHex nonce : String) : String :=
  "\x7b\"error\":\"snp_unavailable\",\"message\":\"" ++ replaceQuotes err ++
    "\",\"payload_sha384\":\"" ++ payloadHashHex ++ "\",\"nonce\":\"" ++ nonce ++ "\"\x7d"

/-- `send_http_response` of a JSON body; a failure ends the handler. -/
def sendHttpResponse (status : ℕ) (body : String) : Handler (Except String Unit) :=
  Prog.perform (Call.respond ⟨status, "application/json", body⟩)

/-! ## The handler -/

/-- The report of the hardware over the data, from `/dev/sev-guest`. -/
def getSnpAttestationReport (reportData : ByteArr 64) : Handler (Except String Bytes) :=
  .call .deviceExists fun (found : Bool) =>
    if !found then
      pure (.error "SEV-SNP device not available (/dev/sev-guest not found)")
    else .call .openDevice fun
      | .error e => pure (.error ("Failed to open /dev/sev-guest: " ++ e))
      | .ok () =>
          .call (.ioctl 1 ⟨reportData, 0, ⟨List.replicate 28 0, List.length_replicate⟩⟩) fun
            | .error (errno, exitinfo2) =>
                pure (.error ("SNP_GET_REPORT ioctl failed: " ++ errno ++ " (fw_err: " ++
                  toString (exitinfo2 % 2 ^ 32) ++ ")"))
            | .ok data => pure (.ok (data.val.take 1184))

variable (X : Externals)

/-- From the decoded nonce on: the report data, the hardware and the answer. -/
def answerNonce (payloadHashHex nonce : String) (payloadHashBytes nonceBytes : Bytes) :
    Handler (Except String Unit) :=
  let reportData := X.sha512 (payloadHashBytes ++ nonceBytes)
  .call .tryAcquire fun (granted : Bool) =>
    if !granted then
      sendHttpResponse 503
        "\x7b\"error\":\"server_busy\",\"message\":\"Hardware attestation queue is full\"\x7d"
    else do
      match ← getSnpAttestationReport reportData with
      | .error err => sendHttpResponse 503 (snpUnavailable err payloadHashHex nonce)
      | .ok report =>
          sendHttpResponse 200 (ReportBody.render
            { platform := "amd-sev-snp"
              nonce := nonce
              payloadSha384 := payloadHashHex
              reportDataHex := X.base16.lowerEncode reportData.val
              attestationReport := X.base64UrlEncode report })

/-- What is done with a buffer that was read. -/
def answerRequest (payloadHashHex : String) (buf : Bytes) : Handler (Except String Unit) :=
  if buf = [] then pure (.ok ())
  else
    match parseRequest buf with
    | none => pure (.ok ())
    | some query =>
        if ¬ nonceAdmitted (nonceHex query) then
          sendHttpResponse 400 ("\x7b\"error\":\"invalid_nonce\",\"hint\":\"nonce must be a " ++
            "hex-encoded string between 1 and 128 bytes (2 to 256 hex characters)\"\x7d")
        else
          match X.base16.mixedDecode (nonceHex query) with
          | none => pure (.ok ())
          | some nonceBytes =>
              match X.base16.mixedDecode payloadHashHex with
              | none => pure (.ok ())
              | some payloadHashBytes =>
                  answerNonce X payloadHashHex (nonceHex query) payloadHashBytes nonceBytes

/-- One connection, from its rate limit to its response. -/
def handleAttestationConnection (payloadHashHex : String) (ip : IpAddr) :
    Handler (Except String Unit) :=
  .call (.acquire ip) fun
    | .error err =>
        if err = "rate_limit_exceeded" then
          sendHttpResponse 429
            "\x7b\"error\":\"too_many_requests\",\"message\":\"Subnet rate limit exceeded\"\x7d"
        else
          sendHttpResponse 429
            ("\x7b\"error\":\"too_many_requests\"," ++
              "\"message\":\"Subnet concurrency limit exceeded\"\x7d")
    | .ok _ => do
        match ← readLoop [] with
        | .error early => pure early
        | .ok buf => answerRequest X payloadHashHex buf

end SevMicroLoader.Attestation
