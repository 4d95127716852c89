import SevMicroLoader.Dns.Certificate
import SevMicroLoader.Dns.Session
import SevMicroLoader.Dns.Txt
import SevMicroLoader.Lib.Prog
import SevMicroLoader.Rust.Str

/-!
# The DNSCrypt client's calls, and its queries

The client is a program over `Call`: datagrams and streams, the clock, fresh keys and random bytes.
A panic aborts the process, and nothing comes back from `abort`. The packages the client computes
with are arbitrary functions (`Packages`).
-/

namespace SevMicroLoader.Dns
open Rust

/-! ## Calls -/

/-- `SocketAddr::new(IpAddr::V4(octets), port)`; every resolver has an address of this kind. -/
structure SocketAddr where
  octets : ByteArr 4
  port : UInt16
  deriving DecidableEq, Repr

/-- The `Display` of an address. -/
def SocketAddr.display (a : SocketAddr) : String :=
  ".".intercalate (a.octets.val.map toString) ++ ":" ++ toString a.port

/-- `agreement::EphemeralPrivateKey` for X25519. -/
abbrev EphemeralPrivateKey := ByteArr 32

/-- What the client asks of its environment. -/
inductive Call
  | sendDnsQueryUdp (resolverIp : SocketAddr) (query : Bytes)
  | sendDnsQueryTcp (resolverIp : SocketAddr) (query : Bytes)
  /-- `SystemTime::now().duration_since(UNIX_EPOCH)`, in whole seconds. -/
  | systemTime
  /-- `EphemeralPrivateKey::generate(&X25519, &rng)`. -/
  | generate
  | computePublicKey (sk : EphemeralPrivateKey)
  /-- `agree_ephemeral(sk, pk, …)`, with the secret its closure is given. -/
  | agreeEphemeral (sk : EphemeralPrivateKey) (peerPk : ByteArr 32)
  /-- `rand::fill` of a buffer of `n` bytes. -/
  | fill (n : ℕ)
  | abort (s : Stop)

/-- An error of the packages is `Unspecified`, and so is no more than `none`; a time before the
epoch is `none` too. -/
abbrev Call.Reply : Call → Type
  | .sendDnsQueryUdp _ _ => Except String Bytes
  | .sendDnsQueryTcp _ _ => Except String Bytes
  | .systemTime => Option UInt64
  | .generate => Option EphemeralPrivateKey
  | .computePublicKey _ => Option (ByteArr 32)
  | .agreeEphemeral _ _ => Option Bytes
  | .fill n => Option (ByteArr n)
  | .abort _ => Empty

/-- A program of the client. -/
abbrev Client := Prog Call Call.Reply

/-- A trace of the client. -/
abbrev Trace := List (Prog.Event Call Call.Reply)

/-- The packages the client computes with. -/
structure Packages where
  ed25519 : Ed25519
  cipher : Cipher
  /-- `hchacha::<R20>`. -/
  hchacha20 : (key : ByteArr 32) → (input : ByteArr 16) → ByteArr 32

variable {α : Type}

/-- The process aborts: nothing comes behind it. -/
def abort (s : Stop) : Client α := .call (.abort s) fun r => Empty.elim r

/-- A function that does not return a `Result`. -/
def run (x : Checked α) : Client α :=
  match x.val with
  | .ok a => pure a
  | .error s => abort s

/-- A function that returns a `Result`. -/
def runResult (x : Checked α) : Client (Except String α) :=
  match x.val with
  | .ok a => pure (.ok a)
  | .error (.err msg) => pure (.error msg)
  | .error (.panic p) => abort (.panic p)

/-- `….unwrap_or_default().as_secs()`. -/
def readClock : Client UInt64 := do
  pure ((← Prog.perform Call.systemTime).getD 0)

/-! ## Queries -/

/-- The header, the labels of a domain, and the record type with the class. -/
def buildRecordQuery (domain : String) (question : Bytes) : Bytes :=
  [0xab, 0xcd, 0x01, 0x00, 0x00, 0x01, 0x00, 0x00, 0x00, 0x00, 0x00, 0x00] ++
    (split domain '.').flatMap (fun part =>
      UInt8.ofNat (asBytes part).length :: asBytes part) ++
    [0] ++ question

/-- A query for TXT records, in class IN. -/
def buildTxtRecordQuery (domain : String) : Bytes :=
  buildRecordQuery domain [0x00, 0x10, 0x00, 0x01]

/-- A query for A records, in class IN. -/
def buildARecordQuery (domain : String) : Bytes :=
  buildRecordQuery domain [0x00, 0x01, 0x00, 0x01]

/-- `target_len`, from the length with the padding's first byte; the product wraps. -/
def paddedLength (length minLen : ℕ) : ℕ :=
  let targetLen := if length < minLen then minLen else length
  if targetLen % 64 ≠ 0 then (targetLen / 64 + 1) * 64 % 2 ^ 64 else targetLen

/-- The marker, and zeros up to the padded length. -/
def padQuery (query : Bytes) (minLen : ℕ) : Checked Bytes := do
  let padded ← push query 0x80
  resize padded (paddedLength padded.length minLen) 0x00

/-- What `padQuery` returns where a vector has room for it. The client takes this of the queries it
builds, as of everything it allocates. -/
def paddedText (query : Bytes) (minLen : ℕ) : Bytes :=
  resized (query ++ [0x80]) (paddedLength (query.length + 1) minLen) 0x00

/-- A reply that is not a DNSCrypt packet and says that it was cut short. -/
def isTruncated (resp : Bytes) : Bool :=
  !(8 ≤ resp.length && resp.take 8 == resolverMagic) &&
    (3 ≤ resp.length && resp.getD 2 0 &&& 0x02 != 0)

/-- UDP first, TCP after a failure or for a reply that was cut short. -/
def sendDnsQuery (resolverIp : SocketAddr) (query : Bytes) (forceTcp : Bool) :
    Client (Except String Bytes) := do
  if forceTcp then Prog.perform (Call.sendDnsQueryTcp resolverIp query)
  else
    match ← Prog.perform (Call.sendDnsQueryUdp resolverIp query) with
    | .ok resp =>
        if isTruncated resp then Prog.perform (Call.sendDnsQueryTcp resolverIp query)
        else pure (.ok resp)
    | .error _ => Prog.perform (Call.sendDnsQueryTcp resolverIp query)

end SevMicroLoader.Dns
