import Mathlib.Data.List.Infix
import SevMicroLoader.Boot.Download

/-!
# Downloads over whole runs

An environment is a sequence of replies, one for each request: `Follows` says that a run takes its
replies from there. One attempt makes one request (`runs_downloadAttempts_succ`). By induction on
the attempts that are left, a run returns the body of the first reply that has one, or shuts down
behind the last attempt (`ended_of_follows`).
-/

namespace SevMicroLoader.Boot
open Rust

/-- The reply, if the event is a request. -/
def requestReply : Prog.Event Call Call.Reply → Option (Except String HttpResponse)
  | ⟨.get _, some reply⟩ => some reply
  | _ => none

/-- The replies to the requests of a trace, in order. Every request is replied to. -/
def replies (t : List (Prog.Event Call Call.Reply)) : List (Except String HttpResponse) :=
  t.filterMap requestReply

/-- The `i`th request of the trace is replied to by `b i`. -/
def Follows (b : ℕ → Except String HttpResponse) (t : List (Prog.Event Call Call.Reply)) : Prop :=
  ∀ i reply, (replies t)[i]? = some reply → reply = b i

section Runs
variable {url desc lastError : String} {left : ℕ} {b : ℕ → Except String HttpResponse}
  {t t' : List (Prog.Event Call Call.Reply)} {o : Option Bytes}
  {reply : Except String HttpResponse}

/-- A request behind a trace without one is the first. -/
theorem replies_append_get (h : replies t = []) :
    replies (t ++ ⟨.get url, some reply⟩ :: t') = reply :: replies t' := by
  rw [replies, List.filterMap_append, ← replies, h]
  rfl

theorem Follows.of_nil (ht : replies t = []) : Follows b t := by
  intro i reply hi
  rw [ht] at hi
  cases hi

theorem Follows.uncons (h : Follows b t) (ht : replies t = reply :: replies t') :
    reply = b 0 ∧ Follows (fun i => b (i + 1)) t' := by
  refine ⟨h 0 reply (by rw [ht]; rfl), fun i reply' hi => h (i + 1) reply' ?_⟩
  rw [ht, List.getElem?_cons_succ, hi]

theorem Follows.cons (ht : replies t = b 0 :: replies t') (h : Follows (fun i => b (i + 1)) t') :
    Follows b t := by
  intro i reply hi
  rw [ht] at hi
  cases i with
  | zero => exact (Option.some.inj hi).symm
  | succ i => exact h i reply hi

/-! ## One attempt -/

/-- The wait before an attempt is over at some point, and makes no request. -/
theorem exists_runs_delayBefore (attempt : ℕ) :
    ∃ t, Prog.Runs (delayBefore attempt) t (some ()) ∧ replies t = [] := by
  unfold delayBefore
  split
  · exact ⟨[⟨.sleep retryDelaySecs, some ()⟩], .reply _ (.ret _), rfl⟩
  · exact ⟨[], .ret _, rfl⟩

theorem replies_delayBefore {attempt : ℕ} {u : Option Unit}
    (h : Prog.Runs (delayBefore attempt) t u) : replies t = [] ∧ u = some () := by
  unfold delayBefore at h
  split at h
  · obtain ⟨_, rfl, rfl⟩ := Prog.Runs.of_replied_pure (f := id) () h
    exact ⟨rfl, rfl⟩
  · obtain ⟨rfl, rfl⟩ := h.of_pure
    exact ⟨rfl, rfl⟩

/-- **One attempt of a run.** It makes one request; the run is over with the body of the reply, or
goes on with the attempts that are left. -/
theorem runs_downloadAttempts_succ
    (h : Prog.Runs (downloadAttempts url desc (left + 1) lastError) t o) :
    ∃ reply t', replies t = reply :: replies t' ∧ t' <:+ t ∧
      ((∃ body, bodyOf reply = some body ∧ t' = [] ∧ o = some body) ∨
        bodyOf reply = none ∧ ∃ e, Prog.Runs (downloadAttempts url desc left e) t' o) := by
  rw [downloadAttempts_succ] at h
  rcases h.of_bind with ⟨t₁, _, t₂, rfl, hdelay, hrest⟩ | ⟨hstop, -⟩
  · obtain ⟨hsilent, -⟩ := replies_delayBefore hdelay
    obtain ⟨reply, t', rfl, hafter⟩ := Prog.Runs.of_replied (.error "") hrest
    refine ⟨reply, t', replies_append_get hsilent,
      (List.suffix_cons _ t').trans (List.suffix_append t₁ _), ?_⟩
    change Prog.Runs (afterReply url desc left reply) t' o at hafter
    rcases afterReply_cases url desc left reply with ⟨body, hbody, heq⟩ | ⟨hbody, e, heq⟩
    · rw [heq] at hafter
      obtain ⟨rfl, rfl⟩ := hafter.of_pure
      exact .inl ⟨body, hbody, rfl, rfl⟩
    · rw [heq] at hafter
      exact .inr ⟨hbody, e, hafter⟩
  · cases (replies_delayBefore hstop).2

/-! ## Whole runs -/

/-- How a run over `left` attempts ends: with the first body, or in a shutdown. -/
inductive Ended (b : ℕ → Except String HttpResponse) (left : ℕ)
    (t : List (Prog.Event Call Call.Reply)) (o : Option Bytes) : Prop
  | whole (i : ℕ) (body : Bytes) (attempt : i < left) (whole : bodyOf (b i) = some body)
      (earlier : ∀ j < i, bodyOf (b j) = none) (requests : (replies t).length = i + 1)
      (result : o = some body)
  | exhausted (t₀ : List (Prog.Event Call Call.Reply)) (message : String)
      (failed : ∀ i < left, bodyOf (b i) = none) (requests : (replies t).length = left)
      (trace : t = t₀ ++ [⟨.shutdown message, none⟩]) (result : o = none)

theorem Ended.cons (h : Ended (fun i => b (i + 1)) left t' o) (hbody : bodyOf (b 0) = none)
    (ht : replies t = b 0 :: replies t') (hsuffix : t' <:+ t) : Ended b (left + 1) t o := by
  have hall {n : ℕ} (hrest : ∀ i < n, bodyOf (b (i + 1)) = none) :
      ∀ i < n + 1, bodyOf (b i) = none
    | 0, _ => hbody
    | i + 1, hi => hrest i (Nat.lt_of_succ_lt_succ hi)
  cases h with
  | whole i body attempt whole earlier requests result =>
      exact .whole (i + 1) body (Nat.succ_lt_succ attempt) whole (hall earlier)
        (by rw [ht, List.length_cons, requests]) result
  | exhausted t₀ message failed requests trace result =>
      obtain ⟨t₁, rfl⟩ := hsuffix
      exact .exhausted (t₁ ++ t₀) message (hall failed)
        (by rw [ht, List.length_cons, requests]) (by rw [trace, List.append_assoc]) result

theorem ended_of_follows (h : Prog.Runs (downloadAttempts url desc left lastError) t o)
    (hb : Follows b t) : Ended b left t o := by
  induction left generalizing b t lastError with
  | zero =>
      rcases Prog.Runs.of_call h with ⟨r, -⟩ | ⟨-, rfl, rfl⟩
      · exact r.elim
      · exact .exhausted [] _ (fun i hi => absurd hi (Nat.not_lt_zero i)) rfl rfl rfl
  | succ left ih =>
      obtain ⟨reply, t', ht, hsuffix, hnext⟩ := runs_downloadAttempts_succ h
      obtain ⟨rfl, hb'⟩ := hb.uncons ht
      rcases hnext with ⟨body, hbody, rfl, rfl⟩ | ⟨hbody, e, hrest⟩
      · exact .whole 0 body (Nat.succ_pos left) hbody (fun j hj => absurd hj (Nat.not_lt_zero j))
          (by rw [ht]; rfl) rfl
      · exact (ih hrest hb').cons hbody ht hsuffix

/-- Every environment has a run. -/
theorem exists_follows (url desc : String) (left : ℕ) (lastError : String)
    (b : ℕ → Except String HttpResponse) :
    ∃ t o, Prog.Runs (downloadAttempts url desc left lastError) t o ∧ Follows b t := by
  induction left generalizing b lastError with
  | zero => exact ⟨_, none, .halt ⟨Empty.elim⟩, .of_nil rfl⟩
  | succ left ih =>
      obtain ⟨t₁, hdelay, hsilent⟩ := exists_runs_delayBefore (maxDownloadRetries - left)
      have hstep : ∀ {t' : List (Prog.Event Call Call.Reply)} {o : Option Bytes},
          Prog.Runs (afterReply url desc left (b 0)) t' o → Follows (fun i => b (i + 1)) t' →
            ∃ t o, Prog.Runs (downloadAttempts url desc (left + 1) lastError) t o ∧
              Follows b t := by
        intro t' o hafter hb
        refine ⟨t₁ ++ ⟨.get url, some (b 0)⟩ :: t', o, ?_, hb.cons (replies_append_get hsilent)⟩
        rw [downloadAttempts_succ]
        exact hdelay.bind hafter.call
      rcases afterReply_cases url desc left (b 0) with ⟨body, -, heq⟩ | ⟨-, e, heq⟩
      · rw [heq] at hstep
        exact hstep (.ret body) (.of_nil rfl)
      · obtain ⟨t', o, hrest, hb⟩ := ih e fun i => b (i + 1)
        rw [heq] at hstep
        exact hstep hrest hb

end Runs

/-- **Whole or nothing.** Under every sequence of replies, a download returns the body of the first
whole response, after the requests up to it; if no attempt gets one, it shuts down
after its last request. -/
theorem download_whole_or_nothing (url desc : String) (b : ℕ → Except String HttpResponse) :
    (∃ t o, Prog.Runs (downloadWithRetry url desc) t o ∧ Follows b t) ∧
      ∀ t o, Prog.Runs (downloadWithRetry url desc) t o → Follows b t →
        (∀ i < maxDownloadRetries, ∀ body, bodyOf (b i) = some body →
          (∀ j < i, bodyOf (b j) = none) → o = some body ∧ (replies t).length = i + 1) ∧
        ((∀ i < maxDownloadRetries, bodyOf (b i) = none) →
          o = none ∧ (replies t).length = maxDownloadRetries ∧
            ∃ t₀ message, t = t₀ ++ [⟨.shutdown message, none⟩]) := by
  refine ⟨exists_follows url desc _ _ b, fun t o hrun hb => ?_⟩
  cases ended_of_follows hrun hb with
  | whole i body attempt whole earlier requests result =>
      refine ⟨fun i' _ body' hbody hearlier => ?_, fun hnone => ?_⟩
      · -- both are first
        obtain rfl : i' = i := by
          rcases Nat.lt_trichotomy i' i with hlt | heq | hgt
          · cases (earlier i' hlt).symm.trans hbody
          · exact heq
          · cases (hearlier i hgt).symm.trans whole
        obtain rfl : body' = body := Option.some.inj (hbody.symm.trans whole)
        exact ⟨result, requests⟩
      · cases (hnone i attempt).symm.trans whole
  | exhausted t₀ message failed requests trace result =>
      refine ⟨fun i hi body hbody _ => ?_, fun _ => ⟨result, requests, t₀, message, trace⟩⟩
      cases (failed i hi).symm.trans hbody

/-- A refused connection, then a body that breaks off, then a whole one. -/
def sampleReplies : ℕ → Except String HttpResponse
  | 1 => .ok ⟨200, "200 OK", [[1]], some "connection reset"⟩
  | 2 => .ok ⟨200, "200 OK", [[2], [3]], none⟩
  | _ => .error "refused"

theorem download_whole_or_nothing_third (url desc : String) :
    ∃ t, Prog.Runs (downloadWithRetry url desc) t (some [2, 3]) ∧ Follows sampleReplies t ∧
      (replies t).length = 3 := by
  obtain ⟨⟨t, o, hrun, hb⟩, hends⟩ := download_whole_or_nothing url desc sampleReplies
  have hearlier : ∀ j < 2, bodyOf (sampleReplies j) = none := by decide
  obtain ⟨rfl, hrequests⟩ := (hends t o hrun hb).1 2 (by decide) [2, 3] (by decide) hearlier
  exact ⟨t, hrun, hb, hrequests⟩

end SevMicroLoader.Boot
