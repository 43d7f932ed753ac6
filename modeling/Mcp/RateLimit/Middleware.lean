import Mcp.Lib.Separation
import Mcp.RateLimit.TokenBucket

namespace Mcp.RateLimit
open Mcp.Lib Bytes

structure Request where
  id : Nat
  client : Bytes
  method : Bytes

def endpointKey (client method : Bytes) : Bytes := client ++ 58 :: method

structure Limiting (ο : Type) where
  skipMethods : List Bytes
  perEndpoint : Bool
  fresh : Bytes → Int → ο
  -- the lock sections of one request by number, up to the one that decides
  proceed : Nat → ο → Int → ο × Option Bool
  lastUsed : ο → Int

structure Slot (ο : Type) where
  limiters : List ο
  entry : Option Nat
  -- the limiter that a request holds, and how many lock sections are behind it
  held : Nat → Option (Nat × Nat)
  doomed : Bool

def Slot.empty {ο : Type} : Slot ο := { limiters := [], entry := none, held := fun _ => none, doomed := false }

inductive Event
  | load (time : Int) (req : Request)
  | proceed (time : Int) (req : Request)
  | look (key : Bytes) (cutoff : Int)
  | delete (key : Bytes)

namespace Limiting

variable {ο : Type} (m : Limiting ο)

def skips (req : Request) : Bool := m.skipMethods.any (· = req.method)

def requestKey (req : Request) : Bytes := if m.perEndpoint then endpointKey req.client req.method else req.client

def eventKey : Event → Bytes
  | .load _ req => m.requestKey req
  | .proceed _ req => m.requestKey req
  | .look key _ => key
  | .delete key => key

def act (slot : Slot ο) : Event → Slot ο × Option Bool
  | .load time req =>
    if m.skips req then (slot, some true)
    else
      match slot.entry with
      | some i => ({ slot with held := Function.update slot.held req.id (some (i, 0)) }, none)
      | none =>
        ({ slot with
            limiters := slot.limiters ++ [m.fresh (m.requestKey req) time]
            entry := some slot.limiters.length
            held := Function.update slot.held req.id (some (slot.limiters.length, 0)) }, none)
  | .proceed time req =>
    if m.skips req then (slot, none)
    else
      match slot.held req.id with
      | some (i, count) =>
        match slot.limiters[i]? with
        | some limiter =>
          let result := m.proceed count limiter time
          ({ slot with
              limiters := slot.limiters.set i result.1
              held := Function.update slot.held req.id
                (if result.2.isSome then none else some (i, count + 1)) },
            result.2)
        | none => (slot, none)
      | none => (slot, none)
  | .look _ cutoff =>
    match slot.entry.bind fun i => slot.limiters[i]? with
    | some limiter => ({ slot with doomed := m.lastUsed limiter < cutoff }, none)
    | none => (slot, none)
  | .delete _ => (if slot.doomed then { slot with entry := none, doomed := false } else slot, none)

end Limiting

def enhancedRateLimit (rl : TokenBucketRateLimiter) (skipMethods : List Bytes) (perEndpoint : Bool) :
    Limiting TokenBucket where
  skipMethods := skipMethods
  perEndpoint := perEndpoint
  fresh key now := rl.newBucket key now
  proceed _ b now := ((b.allowN 1 now).1, some (b.allowN 1 now).2)
  lastUsed b := b.lastSeen

structure RateLimiterEntry (ℓ : Type) where
  limiter : ℓ
  lastUsed : Int

def rateLimit {ℓ : Type} (newLimiter : ℓ) (allow : ℓ → Int → ℓ × Bool) (skipMethods : List Bytes)
    (perEndpoint : Bool) : Limiting (RateLimiterEntry ℓ) where
  skipMethods := skipMethods
  perEndpoint := perEndpoint
  fresh _ now := { limiter := newLimiter, lastUsed := now }
  proceed
    | 0, entry, now => ({ entry with lastUsed := now }, none)
    | _, entry, now => ({ entry with limiter := (allow entry.limiter now).1 }, some (allow entry.limiter now).2)
  lastUsed entry := entry.lastUsed

namespace Event

def request : Event → Option Request
  | .load _ req => some req
  | .proceed _ req => some req
  | .look _ _ => none
  | .delete _ => none

def isFrom (client : Bytes) (e : Event) : Bool := e.request.any fun req => req.client = client

end Event

namespace Limiting

variable {ο : Type} (m : Limiting ο)

def decisions (client : Bytes) (events : List Event) : List (Event × Option Bool) :=
  Separation.outcomes m.eventKey m.act (Event.isFrom client) (fun _ => .empty) events

def Noninterfering (c₁ c₂ : Bytes) (events : List Event) : Prop :=
  m.decisions c₁ events = m.decisions c₁ (events.filter fun e => !e.isFrom c₂)

def Apart (skipMethods : List Bytes) (c₁ c₂ : Bytes) (events : List Event) : Prop :=
  ∀ e ∈ events, ∀ e' ∈ events, ∀ req ∈ e.request, ∀ req' ∈ e'.request, req.client = c₁ → req'.client = c₂ →
    skipMethods.any (· = req.method) = false → skipMethods.any (· = req'.method) = false →
    endpointKey req.client req.method ≠ endpointKey req'.client req'.method

variable {m} {c₁ c₂ : Bytes} {events : List Event}

variable {e : Event} {req : Request}

theorem inert_of_skips (sent : e.request = some req) (skipped : m.skips req = true) : Separation.Inert m.act e := by
  cases e with
  | load time req =>
    cases sent
    exact ⟨some true, fun slot => if_pos skipped⟩
  | proceed time req =>
    cases sent
    exact ⟨none, fun slot => if_pos skipped⟩
  | look | delete => cases sent

theorem eventKey_of_request (endpoints : m.perEndpoint = true)
    (sent : e.request = some req) : m.eventKey e = endpointKey req.client req.method := by
  cases e with
  | load | proceed =>
    cases sent
    exact if_pos endpoints
  | look | delete => cases sent

theorem request_of_isFrom {client : Bytes} (sent : e.isFrom client = true) :
    ∃ req, e.request = some req ∧ req.client = client := by
  simpa [Event.isFrom, Option.any_eq_true] using sent

theorem noninterfering_of_apart (endpoints : m.perEndpoint = true) (different : c₁ ≠ c₂)
    (apart : Apart m.skipMethods c₁ c₂ events) : m.Noninterfering c₁ c₂ events := by
  refine Separation.outcomes_filter (fun _ _ _ _ => rfl) (fun e member e' member' sent sent' => ?_)
  obtain ⟨req, found, client⟩ := request_of_isFrom sent
  obtain ⟨req', found', client'⟩ := request_of_isFrom sent'
  refine ⟨?_, fun active active' => ?_⟩
  · rintro rfl
    cases found.symm.trans found'
    exact different (client.symm.trans client')
  · have counted : m.skips req = false :=
      eq_false_of_ne_true fun skipped => active (inert_of_skips found skipped)
    have counted' : m.skips req' = false :=
      eq_false_of_ne_true fun skipped => active' (inert_of_skips found' skipped)
    rw [eventKey_of_request endpoints found, eventKey_of_request endpoints found']
    exact apart e member e' member' req found req' found' client client' counted counted'

end Limiting

/-- Two clients can send requests with the same joined key if the key of one, with a colon after it, begins that
of the other. -/
def Confusable (c₁ c₂ : Bytes) : Prop := c₁ ++ [58] <+: c₂ ++ [58] ∨ c₂ ++ [58] <+: c₁ ++ [58]

theorem endpointKey_eq_append (client method : Bytes) : endpointKey client method = client ++ [58] ++ method := by
  simp [endpointKey]

variable {c₁ c₂ : Bytes}

theorem exists_endpointKey_eq_iff : (∃ m₁ m₂, endpointKey c₁ m₁ = endpointKey c₂ m₂) ↔ Confusable c₁ c₂ := by
  simp only [endpointKey_eq_append]
  constructor
  · rintro ⟨m₁, m₂, same⟩
    exact List.prefix_or_prefix_of_prefix (List.prefix_append ..) (same.symm ▸ List.prefix_append ..)
  · rintro (⟨rest, longer⟩ | ⟨rest, longer⟩)
    · exact ⟨rest, [], by rw [longer, List.append_nil]⟩
    · exact ⟨[], rest, by rw [longer, List.append_nil]⟩

theorem apart_of_not_confusable (clear : ¬ Confusable c₁ c₂) (skipMethods : List Bytes)
    (events : List Event) : Limiting.Apart skipMethods c₁ c₂ events := by
  rintro e - e' - req - req' - rfl rfl - - same
  exact clear (exists_endpointKey_eq_iff.mp ⟨req.method, req'.method, same⟩)

def oneEach (c₁ m₁ c₂ m₂ : Bytes) : List Event :=
  [.load 0 ⟨0, c₂, m₂⟩, .proceed 0 ⟨0, c₂, m₂⟩, .load 0 ⟨1, c₁, m₁⟩, .proceed 0 ⟨1, c₁, m₁⟩]

theorem not_noninterfering_oneEach {m₁ m₂ : Bytes} (different : c₁ ≠ c₂)
    (same : endpointKey c₁ m₁ = endpointKey c₂ m₂) :
    ¬ (enhancedRateLimit (newTokenBucketRateLimiter 1 1) [] true).Noninterfering c₁ c₂ (oneEach c₁ m₁ c₂ m₂) := by
  intro equal
  simp only [Limiting.Noninterfering, Limiting.decisions, oneEach] at equal
  simp [Separation.outcomes, Separation.run, Event.isFrom, Event.request, different, different.symm,
    Limiting.eventKey, Limiting.requestKey, Limiting.act, Limiting.skips, enhancedRateLimit, Slot.empty, same] at equal
  have fresh (key : Bytes) : (newTokenBucketRateLimiter 1 1).newBucket key 0 = newTokenBucket 1 1 0 := rfl
  have alone : ((newTokenBucket 1 1 0).allowN 1 0).2 = true := by decide +kernel
  have after : (((newTokenBucket 1 1 0).allowN 1 0).1.allowN 1 0).2 = false := by decide +kernel
  rw [fresh, alone, after] at equal
  cases equal

/-- Whatever two clients send, and however the requests and the clean-ups interleave, in either middleware the
requests of one do not change what is decided about the other: exactly for clients whose joined keys cannot
be confused. -/
theorem noninterfering_iff (c₁ c₂ : Bytes) (different : c₁ ≠ c₂) :
    (∀ (rl : TokenBucketRateLimiter) (skipMethods : List Bytes) (events : List Event),
        (enhancedRateLimit rl skipMethods true).Noninterfering c₁ c₂ events) ∧
      (∀ (ℓ : Type) (newLimiter : ℓ) (allow : ℓ → Int → ℓ × Bool) (skipMethods : List Bytes) (events : List Event),
        (rateLimit newLimiter allow skipMethods true).Noninterfering c₁ c₂ events) ↔
    ¬ Confusable c₁ c₂ := by
  constructor
  · rintro ⟨separate, -⟩ confusable
    obtain ⟨m₁, m₂, same⟩ := exists_endpointKey_eq_iff.mpr confusable
    exact not_noninterfering_oneEach different same (separate _ _ _)
  · intro clear
    exact ⟨fun rl skipMethods events =>
        Limiting.noninterfering_of_apart rfl different (apart_of_not_confusable clear skipMethods events),
      fun ℓ newLimiter allow skipMethods events =>
        Limiting.noninterfering_of_apart rfl different (apart_of_not_confusable clear skipMethods events)⟩

theorem noninterfering_plain :
    (97 :: [] : Bytes) ≠ [98] ∧ ¬ Confusable [97] [98] ∧
      (enhancedRateLimit (newTokenBucketRateLimiter 1 1) [] true).Noninterfering [97] [98]
        (oneEach [97] [109] [98] [109]) := by
  have different : (97 :: [] : Bytes) ≠ [98] := by decide
  have clear : ¬ Confusable [97] [98] := by
    unfold Confusable
    decide
  exact ⟨different, clear, ((noninterfering_iff [97] [98] different).mpr clear).1 _ _ _⟩

theorem not_noninterfering_colon :
    ofString "a" ≠ ofString "a:b" ∧
      ¬ (enhancedRateLimit (newTokenBucketRateLimiter 1 1) [] true).Noninterfering (ofString "a") (ofString "a:b")
        (oneEach (ofString "a") (ofString "b:c") (ofString "a:b") (ofString "c")) :=
  ⟨by decide +kernel, not_noninterfering_oneEach (by decide +kernel) (by decide +kernel)⟩

end Mcp.RateLimit
