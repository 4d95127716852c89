import SevMicroLoader.Lib.Prog
import SevMicroLoader.Rust.Str

/-!
# The loader's calls, and its downloads

The loader is a program over `Call`, and the environment chooses every reply. A response body comes
in finitely many chunks, since the client bounds the whole request in time; how the chunks end is
the environment's choice too. `panicShutdown` never returns: there is no reply to `shutdown`.
-/

namespace SevMicroLoader.Boot
open Rust

/-! ## Calls -/

/-- The flags of `mount` that the loader uses. -/
inductive MsFlag
  | rdonly
  | nosuid
  | nodev
  | noexec
  | remount
  deriving DecidableEq

/-- `std::process::Command`, as it is built up before `spawn`. -/
structure Command where
  program : String
  args : List String
  env : List (String × String)
  uid : ℕ
  gid : ℕ
  /-- `pre_exec(secure_memory_setup)`. -/
  secureMemorySetup : Bool
  deriving DecidableEq

/-- A response: its status code, how the code is displayed, and what `chunk()` yields until it
yields no chunk (`none`) or an error. -/
structure HttpResponse where
  status : ℕ
  statusText : String
  chunks : List Bytes
  ending : Option String

/-- What the loader asks of its environment. -/
inductive Call
  /-- `client.get(url).send()`. -/
  | get (url : String)
  | sleep (secs : ℕ)
  /-- `UnparsedPublicKey::new(&ECDSA_P384_SHA384_FIXED, key).verify(msg, sig).is_ok()`. -/
  | verify (key msg sig : Bytes)
  | write (path : String) (content : Bytes)
  | setPermissions (path : String) (mode : ℕ)
  | mount (source : Option String) (target : String) (fstype : Option String)
      (flags : List MsFlag) (data : Option String)
  | pathExists (path : String)
  | currentExe
  | spawn (cmd : Command)
  | shutdown (message : String)

/-- What the environment answers. -/
abbrev Call.Reply : Call → Type
  | .get _ => Except String HttpResponse
  | .sleep _ => Unit
  | .verify _ _ _ => Bool
  | .write _ _ => Except String Unit
  | .setPermissions _ _ => Except String Unit
  | .mount _ _ _ _ _ => Except String Unit
  | .pathExists _ => Bool
  | .currentExe => Except String String
  | .spawn _ => Except String ℕ
  | .shutdown _ => Empty

/-- A program of the loader. -/
abbrev Loader := Prog Call Call.Reply

variable {α : Type}

/-- `panic_shutdown`: nothing comes behind it. -/
def panicShutdown (message : String) : Loader α := .call (.shutdown message) fun r => Empty.elim r

/-- `result.unwrap_or_else(|e| panic_shutdown(&format!("…{}", e)))`. -/
def orShutdown (what : String) : Except String α → Loader α
  | .ok a => pure a
  | .error e => panicShutdown (what ++ e)

section Shutdown
variable {σ : Type} {next : σ → (c : Call) → c.Reply → σ} {P : σ → Call → Prop}
  {Q : σ → α → Prop} {s : σ}

/-- Nothing comes after a shutdown. -/
theorem holds_panicShutdown {message : String} (h : P s (.shutdown message)) :
    Prog.Holds next P Q (panicShutdown message) s :=
  ⟨h, fun r => Empty.elim r⟩

theorem holds_orShutdown {what : String} {result : Except String α}
    (herr : ∀ e, result = .error e → P s (.shutdown (what ++ e)))
    (hok : ∀ a, result = .ok a → Q s a) : Prog.Holds next P Q (orShutdown what result) s := by
  cases result with
  | ok a => exact hok a rfl
  | error e => exact holds_panicShutdown (herr e rfl)

end Shutdown

/-! ## Downloads -/

def maxDownloadRetries : ℕ := 5

def retryDelaySecs : ℕ := 3

/-- The largest body, 100 MiB. -/
def maxDownloadBytes : ℕ := 100 * 1024 * 1024

/-- The chunk loop: the bytes it leaves, and whether the limit was exceeded. -/
def readChunks (bytes : Bytes) : List Bytes → Bytes × Bool
  | [] => (bytes, false)
  | chunk :: chunks =>
      if bytes.length + chunk.length > maxDownloadBytes then (bytes, true)
      else readChunks (bytes ++ chunk) chunks

/-- What one attempt makes of a response: the body, or the `last_error` it leaves. -/
def readResponse (url desc : String) (response : HttpResponse) : Except String Bytes :=
  if ¬ (200 ≤ response.status ∧ response.status < 300) then
    .error ("HTTP " ++ response.statusText ++ " for " ++ url)
  else
    let (bytes, limitExceeded) := readChunks [] response.chunks
    if limitExceeded then
      .error ("Response size limit exceeded (max 100MB) for " ++ desc)
    else
      match response.ending with
      | some e => .error ("Body read failed: " ++ e)
      | none => if bytes = [] then .error ("Empty response for " ++ desc) else .ok bytes

/-- Only the first attempt goes out without a delay. -/
def delayBefore (attempt : ℕ) : Loader Unit :=
  if attempt > 1 then Prog.perform (Call.sleep retryDelaySecs) else pure ()

/-- The attempts that are left, after those that ended in `lastError`. -/
def downloadAttempts (url desc : String) : ℕ → String → Loader Bytes
  | 0, lastError =>
      panicShutdown ("Failed to download " ++ desc ++ " after " ++ toString maxDownloadRetries ++
        " attempts: " ++ lastError)
  | left + 1, _ => do
      delayBefore (maxDownloadRetries - left)
      match ← Prog.perform (Call.get url) with
      | .error e => downloadAttempts url desc left ("Connection failed: " ++ e)
      | .ok response =>
          match readResponse url desc response with
          | .error e => downloadAttempts url desc left e
          | .ok bytes => pure bytes

/-- The body of the first whole response. -/
def downloadWithRetry (url desc : String) : Loader Bytes :=
  downloadAttempts url desc maxDownloadRetries ""

/-! ## Whole responses -/

/-- The body of a response that succeeded and arrived to its end within the limit. -/
def HttpResponse.whole (r : HttpResponse) : Option Bytes :=
  if (200 ≤ r.status ∧ r.status < 300) ∧ r.ending = none ∧ r.chunks.flatten ≠ [] ∧
      r.chunks.flatten.length ≤ maxDownloadBytes then some r.chunks.flatten
  else none

/-- Within the limit, every chunk is kept. -/
theorem readChunks_of_le {chunks : List Bytes} {bytes : Bytes}
    (h : (bytes ++ chunks.flatten).length ≤ maxDownloadBytes) :
    readChunks bytes chunks = (bytes ++ chunks.flatten, false) := by
  induction chunks generalizing bytes with
  | nil => simp [readChunks]
  | cons chunk chunks ih =>
      rw [List.flatten_cons, ← List.append_assoc] at h
      have hfits : ¬ bytes.length + chunk.length > maxDownloadBytes := by
        simp only [List.length_append] at h
        omega
      rw [readChunks, if_neg hfits, ih h, List.flatten_cons, List.append_assoc]

/-- Past the limit, the loop notices. -/
theorem readChunks_of_gt {chunks : List Bytes} {bytes : Bytes}
    (hbytes : bytes.length ≤ maxDownloadBytes)
    (h : maxDownloadBytes < (bytes ++ chunks.flatten).length) :
    (readChunks bytes chunks).2 = true := by
  induction chunks generalizing bytes with
  | nil =>
      simp only [List.flatten_nil, List.append_nil] at h
      omega
  | cons chunk chunks ih =>
      rw [readChunks]
      by_cases hbig : bytes.length + chunk.length > maxDownloadBytes
      · rw [if_pos hbig]
      · rw [if_neg hbig]
        apply ih
        · rw [List.length_append]
          omega
        · rwa [List.append_assoc, ← List.flatten_cons]

/-- **An attempt succeeds exactly on a whole response**, with its body. -/
theorem toOption_readResponse (url desc : String) (r : HttpResponse) :
    (readResponse url desc r).toOption = r.whole := by
  unfold readResponse HttpResponse.whole
  by_cases hstatus : 200 ≤ r.status ∧ r.status < 300
  · rw [if_neg (not_not.mpr hstatus)]
    by_cases hlen : r.chunks.flatten.length ≤ maxDownloadBytes
    · have hread : readChunks [] r.chunks = (r.chunks.flatten, false) := readChunks_of_le hlen
      rw [hread]
      cases hend : r.ending with
      | some e => simp [Except.toOption]
      | none =>
          by_cases hnil : r.chunks.flatten = []
          · simp [hnil, Except.toOption]
          · simp [-List.length_flatten, hnil, hstatus, hlen, Except.toOption]
    · have hbig : (readChunks [] r.chunks).2 = true :=
        readChunks_of_gt (Nat.zero_le _) (not_le.mp hlen)
      simp [-List.length_flatten, hbig, hlen, Except.toOption]
  · rw [if_pos hstatus, if_neg fun h => hstatus h.1]
    rfl

/-! ## One attempt -/

/-- The body of a whole response; a connection error has none. -/
def bodyOf (reply : Except String HttpResponse) : Option Bytes :=
  reply.toOption.bind HttpResponse.whole

/-- What follows a reply: its body is returned, or the next attempt is made. -/
def afterReply (url desc : String) (left : ℕ) : Except String HttpResponse → Loader Bytes
  | .error e => downloadAttempts url desc left ("Connection failed: " ++ e)
  | .ok response =>
      match readResponse url desc response with
      | .error e => downloadAttempts url desc left e
      | .ok bytes => pure bytes

theorem downloadAttempts_succ (url desc : String) (left : ℕ) (lastError : String) :
    downloadAttempts url desc (left + 1) lastError = (do
      delayBefore (maxDownloadRetries - left)
      let reply ← Prog.perform (Call.get url)
      afterReply url desc left reply) := by
  rw [downloadAttempts]
  refine congrArg _ (funext fun _ => congrArg _ (funext fun reply => ?_))
  cases reply with
  | error e => rfl
  | ok response =>
      cases hread : readResponse url desc response with
      | error e => simp only [afterReply, hread]
      | ok bytes => simp only [afterReply, hread]

/-- The next attempt is made exactly when the reply has no body. -/
theorem afterReply_cases (url desc : String) (left : ℕ) (reply : Except String HttpResponse) :
    (∃ body, bodyOf reply = some body ∧ afterReply url desc left reply = pure body) ∨
      bodyOf reply = none ∧
        ∃ e, afterReply url desc left reply = downloadAttempts url desc left e := by
  cases reply with
  | error e => exact .inr ⟨rfl, _, rfl⟩
  | ok response =>
      have hbody : bodyOf (.ok response) = (readResponse url desc response).toOption :=
        (toOption_readResponse url desc response).symm
      cases hread : readResponse url desc response with
      | error e =>
          rw [hread] at hbody
          exact .inr ⟨hbody, e, by simp only [afterReply, hread]⟩
      | ok body =>
          rw [hread] at hbody
          exact .inl ⟨body, hbody, by simp only [afterReply, hread]⟩

end SevMicroLoader.Boot
