import SevMicroLoader.Boot.Download

/-!
# From the downloads to the two child processes

`main` from its first download on: the release binary and its hash are fetched and compared, the
signature is fetched and checked three times, the binary is written and locked down, and the server
and the attestation server are started. The watchdog loop over their process ids comes next.
-/

namespace SevMicroLoader.Boot
open Rust

/-! ## Configuration -/

/-- The trusted signing key: a P-384 point, uncompressed. -/
def publicKeyBytes : ByteArr 97 :=
  ⟨[0x04, 0xf0, 0x7c, 0x7f, 0x7c, 0xb0, 0x87, 0x82, 0x38, 0x1d, 0x72, 0x91, 0xf0, 0xcc,
    0xc2, 0xcd, 0xa4, 0x8c, 0x6b, 0x06, 0x21, 0xdc, 0x73, 0x1a, 0xf0, 0x83, 0x62, 0xcf,
    0xfc, 0x97, 0x89, 0x9d, 0xc1, 0x06, 0xd8, 0x44, 0x12, 0x50, 0xa3, 0xca, 0x41, 0xf0,
    0x20, 0xd8, 0xfd, 0x0f, 0x41, 0xc6, 0x19, 0xe9, 0x11, 0x76, 0x14, 0x26, 0xd8, 0x23,
    0xe9, 0xb0, 0xb0, 0xc8, 0x8c, 0x94, 0x73, 0xb0, 0xe7, 0xd5, 0x9c, 0xce, 0x0f, 0x45,
    0xfb, 0x3d, 0x55, 0xa5, 0x9b, 0x0b, 0xb4, 0xec, 0xea, 0x5d, 0xb4, 0x35, 0x42, 0x3a,
    0x43, 0xb0, 0x07, 0x4a, 0x30, 0x2b, 0xba, 0x9d, 0xb6, 0x24, 0x52, 0xff, 0x0f], rfl⟩

def binaryUrl : String :=
  "https://github.com/deadrouter-ai/the-server/releases/latest/download/the_server"

def signatureUrl : String :=
  "https://github.com/deadrouter-ai/the-server/releases/latest/download/the_server.sig"

def hashUrl : String :=
  "https://github.com/deadrouter-ai/the-server/releases/latest/download/the_server_hash.txt"

/-- Where the payload is mounted. -/
def payloadDir : String := "/run/payload"

/-- Where the server lies. -/
def targetPath : String := "/run/payload/the_server"

/-- The packages the loader computes with. -/
structure Externals where
  base16 : Base16
  sha384 : Bytes → ByteArr 48

/-! ## The steps -/

/-- Three redundant checks of one signature. -/
def verifySignature (appBytes sigBytes : Bytes) : Loader Unit := do
  let valid1 ← Prog.perform (Call.verify publicKeyBytes.val appBytes sigBytes)
  let valid2 ← Prog.perform (Call.verify publicKeyBytes.val appBytes sigBytes)
  let valid3 ← Prog.perform (Call.verify publicKeyBytes.val appBytes sigBytes)
  if !valid1 || !valid2 || !valid3 then
    panicShutdown ("CRITICAL: Signature verification FAILED!\n" ++
      "Binary does NOT match the trusted signing key.\n" ++
      "System shutting down to prevent execution of untrusted code.")
  else pure ()

/-- Write the binary, and make it executable and read-only. -/
def deployBinary (appBytes : Bytes) : Loader Unit := do
  orShutdown "Failed to write binary: " (← Prog.perform (Call.write targetPath appBytes))
  orShutdown "Failed to chmod binary: " (← Prog.perform (Call.setPermissions targetPath 0o555))

/-- `mount(…).unwrap_or_else(…)`. -/
def mountOrShutdown (source : Option String) (target : String) (fstype : Option String)
    (flags : List MsFlag) (data : Option String) (what : String) : Loader Unit := do
  orShutdown what (← Prog.perform (Call.mount source target fstype flags data))

/-- Remount the payload read-only, `/tmp` and `/run` without execution. -/
def lockdownFilesystem : Loader Unit := do
  mountOrShutdown none payloadDir none [.remount, .rdonly, .nosuid, .nodev] none
    ("Failed to lockdown " ++ payloadDir ++ " to Read-Only: ")
  mountOrShutdown none "/tmp" none [.remount, .nosuid, .nodev, .noexec]
    (some "size=64m,mode=1700") "Failed to remount /tmp noexec: "
  mountOrShutdown none "/run" none [.remount, .nosuid, .nodev, .noexec]
    (some "size=16m,mode=0755") "Failed to remount /run noexec: "

/-- The server, with the hash of its binary in its environment. -/
def serverCommand (hashHex : String) : Command where
  program := targetPath
  args := []
  env := [("DEVELOPMENT", "false"), ("LOADER_PAYLOAD_HASH", hashHex)]
  uid := 65534
  gid := 65534
  secureMemorySetup := true

/-- The loader itself, as an attestation server for the hash. -/
def attestationCommand (currentExe hashHex : String) : Command where
  program := currentExe
  args := ["run-attestation-server", hashHex]
  env := []
  uid := 65534
  gid := 65534
  secureMemorySetup := true

/-- The device is opened to the unprivileged children, if there is one. -/
def exposeSevGuest : Loader Unit := do
  if ← Prog.perform (Call.pathExists "/dev/sev-guest") then
    let _ ← Prog.perform (Call.setPermissions "/dev/sev-guest" 0o666)

/-- Both children, by their process ids. -/
def spawnChildren (hashHex : String) : Loader (ℕ × ℕ) := do
  let childPid ← orShutdown "Failed to spawn server: "
    (← Prog.perform (Call.spawn (serverCommand hashHex)))
  exposeSevGuest
  let currentExe := match ← Prog.perform Call.currentExe with
    | .ok path => path
    | .error _ => "/init"
  let attestPid ← orShutdown "Failed to spawn attestation server: "
    (← Prog.perform (Call.spawn (attestationCommand currentExe hashHex)))
  pure (childPid, attestPid)

/-- `main`, once there is a client and the clock is set. -/
def main (X : Externals) : Loader (ℕ × ℕ) := do
  let appBytes ← downloadWithRetry binaryUrl "production binary"
  let expectedHashBytes ← downloadWithRetry hashUrl "server hash"
  let expectedHash := trim (fromUtf8Lossy expectedHashBytes)
  let hashHex := X.base16.lowerEncode (X.sha384 appBytes).val
  if hashHex ≠ expectedHash then
    panicShutdown
      ("CRITICAL: Hash mismatch! Expected: " ++ expectedHash ++ ", Computed: " ++ hashHex)
  else
    let sigBytes ← downloadWithRetry signatureUrl "cryptographic signature"
    verifySignature appBytes sigBytes
    deployBinary appBytes
    lockdownFilesystem
    spawnChildren hashHex

end SevMicroLoader.Boot
