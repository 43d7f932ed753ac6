import Mcp.Json
import Mcp.Lib.JsonSyntax
import Mcp.Middleware.Cache
import Mcp.Middleware.CacheKey

namespace Mcp.Middleware
open Mcp.Lib Bytes Mcp.Auth

structure ResponseType (ρ : Type) where
  isError : ρ → Bool
  result : ρ → Json
  marshal : ρ → Option Bytes

structure SuccessResponse where
  result : Json

-- `result` is not exported, so the encoding has no members
def successResponse : ResponseType SuccessResponse where
  isError _ := false
  result r := r.result
  marshal _ := some [123, 125]

def unmarshalResponse (ρ : Type) (data : Bytes) : Option (Option ρ) :=
  let text := ((data.dropWhile JsonSyntax.isSpace).reverse.dropWhile JsonSyntax.isSpace).reverse
  if text = ofString "null" then some none else none

structure CachingMiddleware where
  maxSize : Int
  ttl : Int

def newCachingMiddleware (maxSize ttl : Int) : CachingMiddleware :=
  { maxSize := maxSize, ttl := if ttl = 0 then 300 * second else ttl }

def skipMethods (method : Bytes) : Bool := method = ofString "tools/call"

inductive CachingCall (ρ ε : Type) where
  | calling (req : CacheRequest)
  | returned (req : CacheRequest) (called : Bool) (answer : Except ε (Option ρ))

structure CachingState (ρ ε : Type) where
  cache : CacheState
  calls : List (CachingCall ρ ε) := []

inductive CachingLabel (ρ ε : Type) where
  | request (req : CacheRequest)
  | respond (i : Nat) (answer : Except ε (Option ρ))
  | wait (d : Nat)
  | evict
  | cleanup (i : Nat)

namespace CachingState

variable {ρ ε : Type} (responses : ResponseType ρ) (m : CachingMiddleware)

def arrive (s : CachingState ρ ε) (req : CacheRequest) : CachingCall ρ ε :=
  if skipMethods req.method then .calling req
  else
    match (s.cache.cache.get req.generateKey s.cache.now).1.bind (unmarshalResponse ρ) with
    | some resp => .returned req false (.ok resp)
    | none => .calling req

def request (s : CachingState ρ ε) (req : CacheRequest) : Option (CachingState ρ ε) :=
  if skipMethods req.method then some { s with calls := s.calls ++ [s.arrive req] }
  else (s.cache.step (.get req.generateKey)).map fun cache => { cache := cache, calls := s.calls ++ [s.arrive req] }

def stored (req : CacheRequest) : Except ε (Option ρ) → Option Bytes
  | .ok (some resp) => if skipMethods req.method || responses.isError resp then none else responses.marshal resp
  | _ => none

def respond (s : CachingState ρ ε) (i : Nat) (answer : Except ε (Option ρ)) : Option (CachingState ρ ε) :=
  match s.calls[i]? with
  | some (.calling req) =>
    let calls := s.calls.set i (.returned req true answer)
    match stored responses req answer with
    | some data => (s.cache.step (.set req.generateKey data m.ttl)).map fun cache => { cache := cache, calls := calls }
    | none => some { s with calls := calls }
  | _ => none

def step (s : CachingState ρ ε) : CachingLabel ρ ε → Option (CachingState ρ ε)
  | .request req => s.request req
  | .respond i answer => s.respond responses m i answer
  | .wait d => (s.cache.step (.wait d)).map fun cache => { s with cache := cache }
  | .evict => (s.cache.step .evict).map fun cache => { s with cache := cache }
  | .cleanup i => (s.cache.step (.cleanup i)).map fun cache => { s with cache := cache }

end CachingState

def cachingMiddleware {ρ : Type} (ε : Type) (responses : ResponseType ρ) (m : CachingMiddleware) (begin : Int) :
    Machine (CachingState ρ ε) (CachingLabel ρ ε) where
  start := { cache := (caching m.maxSize begin).start }
  step := CachingState.step responses m

namespace CachingState

variable {ρ ε : Type} {responses : ResponseType ρ} {m : CachingMiddleware} {begin : Int} {s s' : CachingState ρ ε}
  {req : CacheRequest} {data : Bytes}

/-- Answered with a response, without a call of the next handler. -/
def FromCache : CachingCall ρ ε → Prop
  | .returned _ false (.ok (some _)) => True
  | _ => False

theorem unmarshalResponse_ne (data : Bytes) (resp : ρ) : unmarshalResponse ρ data ≠ some (some resp) := by
  intro decoded
  obtain ⟨-, same⟩ := Option.ite_none_right_eq_some.mp decoded
  cases Option.some.inj same

theorem arrive_not_fromCache (s : CachingState ρ ε) (req : CacheRequest) : ¬ FromCache (s.arrive req) := by
  unfold arrive
  split_ifs
  · exact id
  · split
    · rename_i resp decoded
      obtain ⟨data, -, decoded⟩ := Option.bind_eq_some_iff.mp decoded
      cases resp with
      | none => exact id
      | some resp => exact (unmarshalResponse_ne data resp decoded).elim
    · exact id

theorem request_calls (step : s.request req = some s') : s'.calls = s.calls ++ [s.arrive req] := by
  unfold request at step
  split_ifs at step
  · cases step
    rfl
  · obtain ⟨cache, -, rfl⟩ := Option.map_eq_some_iff.mp step
    rfl

theorem respond_calls {i : Nat} {answer : Except ε (Option ρ)} (step : s.respond responses m i answer = some s') :
    ∃ req, s'.calls = s.calls.set i (.returned req true answer) := by
  unfold respond at step
  split at step
  · rename_i req found
    refine ⟨req, ?_⟩
    dsimp only at step
    split at step
    · obtain ⟨cache, -, rfl⟩ := Option.map_eq_some_iff.mp step
      rfl
    · cases step
      rfl
  · cases step

theorem not_fromCache_step {l : CachingLabel ρ ε} (none : ∀ call ∈ s.calls, ¬ FromCache call)
    (step : s.step responses m l = some s') : ∀ call ∈ s'.calls, ¬ FromCache call := by
  cases l with
  | request req =>
    rw [request_calls step]
    intro call member
    rcases List.mem_append.mp member with old | new
    · exact none call old
    · rw [List.mem_singleton.mp new]
      exact s.arrive_not_fromCache req
  | respond i answer =>
    obtain ⟨req, calls⟩ := respond_calls step
    rw [calls]
    intro call member
    rcases List.mem_or_eq_of_mem_set member with old | rfl
    · exact none call old
    · exact id
  | wait d =>
    cases step
    exact none
  | evict | cleanup i =>
    obtain ⟨cache, -, rfl⟩ := Option.map_eq_some_iff.mp step
    exact none

theorem arrive_of_hit (cacheable : skipMethods req.method = false)
    (hit : (s.cache.cache.get req.generateKey s.cache.now).1 = some data) :
    s.arrive req = if (unmarshalResponse ρ data).isSome then .returned req false (.ok none) else .calling req := by
  simp only [arrive, cacheable, hit, Option.bind_some]
  cases decoded : unmarshalResponse ρ data with
  | none => simp
  | some resp =>
    cases resp with
    | none => simp
    | some resp => exact (unmarshalResponse_ne data resp decoded).elim

/-- In no run is a request answered with a response from the cache: one whose key is found calls the next
handler all the same, or returns a nil response if `null` is stored. -/
theorem caching_never_answers (ε : Type) (responses : ResponseType ρ) (m : CachingMiddleware) (begin : Int)
    {ls : List (CachingLabel ρ ε)} {t : CachingState ρ ε}
    (run : (cachingMiddleware ε responses m begin).run (cachingMiddleware ε responses m begin).start ls = some t) :
    (∀ call ∈ t.calls, ¬ FromCache call) ∧
    ∀ req data t', skipMethods req.method = false →
      (t.cache.cache.get req.generateKey t.cache.now).1 = some data →
      (cachingMiddleware ε responses m begin).step t (.request req) = some t' →
      t'.calls = t.calls ++
        [if (unmarshalResponse ρ data).isSome then .returned req false (.ok none) else .calling req] := by
  constructor
  · refine Machine.run_invariant (P := fun s => ∀ call ∈ s.calls, ¬ FromCache call) ?_ ?_ run
    · intro s l s' none step
      exact not_fromCache_step none step
    · intro call member
      cases member
  · intro req data t' cacheable hit step
    rw [request_calls step, arrive_of_hit cacheable hit]

def isCalling : CachingCall ρ ε → Bool
  | .calling _ => true
  | .returned .. => false

def listing : Machine (CachingState SuccessResponse String) (CachingLabel SuccessResponse String) :=
  cachingMiddleware String successResponse (newCachingMiddleware 1024 0) 0

def listedOnce : List (CachingLabel SuccessResponse String) :=
  [.request CacheRequest.listResources, .respond 0 (.ok (some ⟨.object [("resources", .array [])]⟩)), .wait 1]

theorem caching_never_answers_listed :
    ∃ t t' data, listing.run listing.start listedOnce = some t ∧
      (t.cache.cache.get CacheRequest.listResources.generateKey t.cache.now).1 = some data ∧
      listing.step t (.request CacheRequest.listResources) = some t' ∧
      t'.calls = t.calls ++ [if (unmarshalResponse SuccessResponse data).isSome
        then .returned CacheRequest.listResources false (.ok none) else .calling CacheRequest.listResources] ∧
      ∀ call ∈ t'.calls, ¬ FromCache call := by
  have facts : ((listing.run listing.start listedOnce).bind fun t =>
      (listing.step t (.request CacheRequest.listResources)).map fun _ =>
        (t.cache.cache.get CacheRequest.listResources.generateKey t.cache.now).1) = some (some [123, 125]) := by
    decide +kernel
  obtain ⟨t, run, facts⟩ := Option.bind_eq_some_iff.mp facts
  obtain ⟨t', step, hit⟩ := Option.map_eq_some_iff.mp facts
  have both : listing.run listing.start (listedOnce ++ [.request CacheRequest.listResources]) = some t' :=
    listing.run_append.mpr ⟨t, run, listing.run_cons.mpr ⟨t', step, rfl⟩⟩
  exact ⟨t, t', _, run, hit, step,
    (caching_never_answers String successResponse (newCachingMiddleware 1024 0) 0 run).2 _ _ t' rfl hit step,
    (caching_never_answers String successResponse (newCachingMiddleware 1024 0) 0 both).1⟩

theorem cached_list_called_again :
    ∃ t t', listing.run listing.start listedOnce = some t ∧
      (t.cache.cache.get CacheRequest.listResources.generateKey t.cache.now).1 = some [123, 125] ∧
      t.cache.now < 300 * second ∧ listing.step t (.request CacheRequest.listResources) = some t' ∧
      t'.calls.map isCalling = [false, true] := by
  have facts : ((listing.run listing.start listedOnce).bind fun t =>
      (listing.step t (.request CacheRequest.listResources)).map fun t' =>
        ((t.cache.cache.get CacheRequest.listResources.generateKey t.cache.now).1, t.cache.now,
          t'.calls.map isCalling)) =
      some (some [123, 125], 1, [false, true]) := by decide +kernel
  obtain ⟨t, run, facts⟩ := Option.bind_eq_some_iff.mp facts
  obtain ⟨t', step, values⟩ := Option.map_eq_some_iff.mp facts
  obtain ⟨hit, now, calls⟩ : _ ∧ _ ∧ _ := by simpa only [Prod.mk.injEq] using values
  refine ⟨t, t', run, hit, ?_, step, calls⟩
  rw [now]
  decide

end CachingState

end Mcp.Middleware
