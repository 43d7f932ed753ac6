import Mcp.Auth.Provider
import Mcp.Lib.Machine

namespace Mcp.Auth.Middleware
open Mcp.Lib Bytes

-- `authToken` is the member `auth_token` of the params, when it is there and a string.
structure MCPRequest where
  method : Bytes
  authHeader : Option Bytes := none
  authToken : Option Bytes := none

structure CachedToken where
  token : AccessToken
  expiresAt : Int

structure AuthConfig where
  skipMethods : List Bytes := []
  cacheTimeout : Int := 0

structure AuthenticationMiddleware where
  skipMethods : List Bytes
  cacheTimeout : Int
  tokenCache : Bytes → Option CachedToken := fun _ => none

def newAuthenticationMiddleware (config : AuthConfig) : AuthenticationMiddleware where
  skipMethods := [ofString "initialize", ofString "initialized", ofString "ping"] ++ config.skipMethods
  cacheTimeout := if config.cacheTimeout = 0 then 5 * 60 * second else config.cacheTimeout

def toLower (c : UInt8) : UInt8 := if 65 ≤ c ∧ c ≤ 90 then c + 32 else c

def parseAuthorizationHeader (header : Bytes) : Except OAuthError Bytes :=
  if header = [] then .error ⟨errorInvalidRequest, "Missing authorization header"⟩
  else match cut 32 header with
    | some (scheme, token) =>
      if scheme.map toLower = ofString "bearer" then .ok token
      else .error ⟨errorInvalidRequest, "Invalid authorization header format"⟩
    | none => .error ⟨errorInvalidRequest, "Invalid authorization header format"⟩

def extractToken (req : MCPRequest) : Option Bytes :=
  match req.authHeader with
  | some header => (parseAuthorizationHeader header).toOption
  | none => req.authToken

namespace AuthenticationMiddleware

def askProvider (m : AuthenticationMiddleware) (p : MemoryOAuthProvider) (token : Bytes) (now : Int) :
    AuthenticationMiddleware × MemoryOAuthProvider × Except OAuthError AccessToken :=
  match p.validateAccessToken token now with
  | (p, .error e) => (m, p, .error e)
  | (p, .ok accessToken) =>
    ({ m with tokenCache := Function.update m.tokenCache token (some ⟨accessToken, now + m.cacheTimeout⟩) }, p,
      .ok accessToken)

def validateTokenWithCache (m : AuthenticationMiddleware) (p : MemoryOAuthProvider) (token : Bytes) (now : Int) :
    AuthenticationMiddleware × MemoryOAuthProvider × Except OAuthError AccessToken :=
  match m.tokenCache token with
  | some entry =>
    if now < entry.expiresAt then (m, p, .ok entry.token)
    else { m with tokenCache := Function.update m.tokenCache token none }.askProvider p token now
  | none => m.askProvider p token now

end AuthenticationMiddleware

inductive Outcome where
  | skipped
  | passed (token : Bytes) (accessToken : AccessToken)
  | refused (e : OAuthError)

def apply (m : AuthenticationMiddleware) (p : MemoryOAuthProvider) (req : MCPRequest) (now : Int) :
    AuthenticationMiddleware × MemoryOAuthProvider × Outcome :=
  if req.method ∈ m.skipMethods then (m, p, .skipped)
  else match extractToken req with
    | none => (m, p, .refused ⟨errorInvalidRequest, "Authentication required"⟩)
    | some token =>
      match m.validateTokenWithCache p token now with
      | (m, p, .error _) => (m, p, .refused ⟨errorInvalidClient, "Invalid authentication"⟩)
      | (m, p, .ok accessToken) => (m, p, .passed token accessToken)

inductive Event where
  | request (req : MCPRequest)
  | createAccessToken (authCode : AuthorizationCode) (accessToken refreshToken : Option Bytes)
  | refreshAccessToken (token : Bytes) (accessToken : Option Bytes)
  | revokeToken (token : Bytes)

structure Handled where
  time : Int
  provider : MemoryOAuthProvider
  outcome : Outcome

structure State where
  middleware : AuthenticationMiddleware
  provider : MemoryOAuthProvider := {}
  now : Int
  log : List Handled := []

def perform (s : State) (now : Int) : Event → State
  | .request req =>
    match apply s.middleware s.provider req now with
    | (m, p, outcome) =>
      { middleware := m, provider := p, now := now, log := ⟨now, s.provider, outcome⟩ :: s.log }
  | .createAccessToken authCode accessToken refreshToken =>
    { s with provider := (s.provider.createAccessToken authCode now accessToken refreshToken).1, now := now }
  | .refreshAccessToken token accessToken =>
    { s with provider := (s.provider.refreshAccessToken token now accessToken).1, now := now }
  | .revokeToken token => { s with provider := s.provider.revokeToken token, now := now }

def machine (config : AuthConfig) (begin : Int) : Machine State (Int × Event) where
  start := { middleware := newAuthenticationMiddleware config, now := begin }
  step s label := if s.now ≤ label.1 then some (perform s label.1 label.2) else none

structure Handled.Valid (x : Handled) (token : Bytes) (accessToken : AccessToken) : Prop where
  passed : x.outcome = .passed token accessToken
  held : x.provider.accessTokens token = some accessToken
  early : x.time ≤ accessToken.expiresAt

/-- A valid request that the cache remembers when `x` comes, or `x` itself. -/
def Vouched (timeout : Int) (x : Handled) (before : List Handled) (token : Bytes) (accessToken : AccessToken) : Prop :=
  ∃ y ∈ x :: before, y.Valid token accessToken ∧ y.time ≤ x.time ∧ (y = x ∨ x.time < y.time + timeout)

structure Cached (timeout : Int) (s : State) : Prop where
  constant : s.middleware.cacheTimeout = timeout
  past : ∀ x ∈ s.log, x.time ≤ s.now
  known : ∀ token entry, s.middleware.tokenCache token = some entry →
    ∃ x ∈ s.log, x.Valid token entry.token ∧ entry.expiresAt = x.time + timeout
  vouched : ∀ after x before token accessToken, s.log = after ++ x :: before → x.outcome = .passed token accessToken →
    Vouched timeout x before token accessToken

variable {m m' : AuthenticationMiddleware} {p p' : MemoryOAuthProvider} {token : Bytes} {now : Int}

structure Served (m : AuthenticationMiddleware) (p : MemoryOAuthProvider) (token : Bytes) (now : Int)
    (m' : AuthenticationMiddleware) (result : Except OAuthError AccessToken) : Prop where
  constant : m'.cacheTimeout = m.cacheTimeout
  known : ∀ t entry, m'.tokenCache t = some entry → m.tokenCache t = some entry ∨
    t = token ∧ result = .ok entry.token ∧ entry.expiresAt = now + m.cacheTimeout ∧
      p.accessTokens token = some entry.token ∧ now ≤ entry.token.expiresAt
  valid : ∀ accessToken, result = .ok accessToken →
    (p.accessTokens token = some accessToken ∧ now ≤ accessToken.expiresAt) ∨
      ∃ entry, m.tokenCache token = some entry ∧ entry.token = accessToken ∧ now < entry.expiresAt

variable {result : Except OAuthError AccessToken} {outcome : Outcome} {timeout : Int} {s : State}

theorem askProvider_served (asked : m.askProvider p token now = (m', p', result)) : Served m p token now m' result := by
  unfold AuthenticationMiddleware.askProvider at asked
  cases validated : p.validateAccessToken token now with
  | mk q reply =>
    cases reply with
    | error e =>
      simp only [validated, Prod.mk.injEq] at asked
      obtain ⟨rfl, rfl, rfl⟩ := asked
      exact ⟨rfl, fun _ _ found => .inl found, by simp⟩
    | ok accessToken =>
      obtain ⟨-, held, early⟩ := MemoryOAuthProvider.validateAccessToken_ok validated
      simp only [validated, Prod.mk.injEq] at asked
      obtain ⟨rfl, rfl, rfl⟩ := asked
      refine ⟨rfl, ?_, ?_⟩
      · intro t entry found
        by_cases same : t = token
        · subst same
          simp only [Function.update_self, Option.some.injEq] at found
          subst found
          exact .inr ⟨rfl, rfl, rfl, held, early⟩
        · exact .inl ((Function.update_of_ne same ..).symm.trans found)
      · intro accessToken' same
        cases same
        exact .inl ⟨held, early⟩

theorem validateTokenWithCache_served
    (done : m.validateTokenWithCache p token now = (m', p', result)) : Served m p token now m' result := by
  unfold AuthenticationMiddleware.validateTokenWithCache at done
  cases cached : m.tokenCache token with
  | none =>
    simp only [cached] at done
    exact askProvider_served done
  | some entry =>
    simp only [cached] at done
    split_ifs at done with live
    · cases done
      refine ⟨rfl, fun _ _ found => .inl found, ?_⟩
      intro accessToken ok
      cases ok
      exact .inr ⟨entry, cached, rfl, live⟩
    · -- The entry that has run out is gone before the provider is asked.
      have served := askProvider_served done
      refine ⟨served.constant, ?_, ?_⟩
      · intro t entry' found
        exact (served.known t entry' found).imp_left MemoryOAuthProvider.eq_some_of_update_none
      · intro accessToken ok
        refine (served.valid accessToken ok).imp_right ?_
        rintro ⟨entry', found, rest⟩
        exact ⟨entry', MemoryOAuthProvider.eq_some_of_update_none found, rest⟩

theorem apply_known {req : MCPRequest} (applied : apply m p req now = (m', p', outcome)) :
    m'.cacheTimeout = m.cacheTimeout ∧
      (∀ t entry, m'.tokenCache t = some entry → m.tokenCache t = some entry ∨
        entry.expiresAt = now + m.cacheTimeout ∧ Handled.Valid ⟨now, p, outcome⟩ t entry.token) ∧
      ∀ t accessToken, outcome = .passed t accessToken → Handled.Valid ⟨now, p, outcome⟩ t accessToken ∨
        ∃ entry, m.tokenCache t = some entry ∧ entry.token = accessToken ∧ now < entry.expiresAt := by
  unfold apply at applied
  split_ifs at applied
  · cases applied
    exact ⟨rfl, fun _ _ found => .inl found, by simp⟩
  · cases extracted : extractToken req with
    | none =>
      simp only [extracted] at applied
      cases applied
      exact ⟨rfl, fun _ _ found => .inl found, by simp⟩
    | some token =>
      simp only [extracted] at applied
      cases done : m.validateTokenWithCache p token now with
      | mk m₁ rest =>
        obtain ⟨p₁, result⟩ := rest
        obtain ⟨constant, known, valid⟩ := validateTokenWithCache_served done
        simp only [done] at applied
        cases result with
        | error e =>
          cases applied
          refine ⟨constant, fun t entry found => .inl ?_, by simp⟩
          exact (known t entry found).resolve_right (by simp)
        | ok accessToken =>
          cases applied
          refine ⟨constant, ?_, ?_⟩
          · intro t entry found
            refine (known t entry found).imp_right ?_
            rintro ⟨rfl, ok, expires, held, early⟩
            cases ok
            exact ⟨expires, rfl, held, early⟩
          · intro t accessToken' passed
            cases passed
            refine (valid accessToken rfl).imp_left ?_
            rintro ⟨held, early⟩
            exact ⟨rfl, held, early⟩

theorem Cached.request (cached : Cached timeout s) (later : s.now ≤ now) (req : MCPRequest) :
    Cached timeout (perform s now (.request req)) := by
  cases applied : apply s.middleware s.provider req now with
  | mk m rest =>
    obtain ⟨p, outcome⟩ := rest
    obtain ⟨constant, known, valid⟩ := apply_known applied
    simp only [perform, applied]
    refine ⟨constant.trans cached.constant, ?_, ?_, ?_⟩
    · intro x member
      rcases List.mem_cons.mp member with rfl | old
      · exact le_rfl
      · exact (cached.past x old).trans later
    · intro token entry found
      obtain old | ⟨expires, fresh⟩ := known token entry found
      · obtain ⟨x, member, was, expires⟩ := cached.known token entry old
        exact ⟨x, List.mem_cons_of_mem _ member, was, expires⟩
      · exact ⟨_, List.mem_cons_self .., fresh, cached.constant ▸ expires⟩
    · intro after x before token accessToken split passed
      cases after with
      | nil =>
        obtain ⟨rfl, rfl⟩ := List.cons.inj split
        obtain fresh | ⟨entry, old, rfl, live⟩ := valid token accessToken passed
        · exact ⟨_, List.mem_cons_self .., fresh, le_rfl, .inl rfl⟩
        · obtain ⟨y, member, was, expires⟩ := cached.known token entry old
          exact ⟨y, List.mem_cons_of_mem _ member, was, (cached.past y member).trans later, .inr (expires ▸ live)⟩
      | cons z after => exact cached.vouched after x before token accessToken (List.cons.inj split).2 passed

theorem Cached.perform (cached : Cached timeout s) (later : s.now ≤ now) (event : Event) :
    Cached timeout (perform s now event) := by
  cases event with
  | request req => exact cached.request later req
  | createAccessToken | refreshAccessToken | revokeToken =>
    exact ⟨cached.constant, fun x member => (cached.past x member).trans later, cached.known, cached.vouched⟩

/-- A request that is passed on with a token comes when the provider holds the token and it has not expired, or less
than the timeout of the cache after another request for which this was so. -/
theorem passed_vouched (config : AuthConfig) (begin : Int) (s : State) (reachable : (machine config begin).Reachable s)
    (after before : List Handled) (x : Handled) (token : Bytes) (accessToken : AccessToken)
    (split : s.log = after ++ x :: before) (passed : x.outcome = .passed token accessToken) :
    Vouched (newAuthenticationMiddleware config).cacheTimeout x before token accessToken := by
  have cached : Cached (newAuthenticationMiddleware config).cacheTimeout s := by
    refine reachable.invariant ?_ ?_
    · constructor <;> simp [machine, newAuthenticationMiddleware]
    · intro s label s' cached step
      simp only [machine] at step
      split_ifs at step with later
      cases step
      exact cached.perform later label.2
  exact cached.vouched after x before token accessToken split passed

def bearer : Bytes := List.replicate 64 97

def bearerRequest : Event := .request ⟨ofString "tools/list", some (ofString "Bearer " ++ bearer), none⟩

def revokedRun : List (Int × Event) :=
  [(0, .createAccessToken ⟨[99], []⟩ (some bearer) (some (List.replicate 64 98))), (1, bearerRequest),
    (2, .revokeToken bearer), (3, bearerRequest)]

def Outcome.passes : Outcome → Bool
  | .passed token _ => token = bearer
  | _ => false

theorem Outcome.exists_of_passes (passes : outcome.passes) : ∃ accessToken, outcome = .passed bearer accessToken := by
  cases outcome with
  | passed token accessToken =>
    simp only [Outcome.passes, decide_eq_true_eq] at passes
    exact ⟨accessToken, by rw [passes]⟩
  | skipped | refused => simp [Outcome.passes] at passes

theorem passed_vouched_revoked : ∃ s x before accessToken,
    (machine {} 0).run (machine {} 0).start revokedRun = some s ∧ s.log = x :: before ∧
      x.outcome = .passed bearer accessToken ∧ x.time = 3 ∧ Vouched (5 * 60 * second) x before bearer accessToken := by
  have facts : ((machine {} 0).run (machine {} 0).start revokedRun).map
      (fun s => s.log.map fun x => (x.outcome.passes, x.time)) = some [(true, 3), (true, 1)] := by
    decide +kernel
  obtain ⟨s, run, outcomes⟩ := Option.map_eq_some_iff.mp facts
  obtain ⟨x, before, log, first, -⟩ := List.map_eq_cons_iff.mp outcomes
  obtain ⟨passes, time⟩ := Prod.mk.inj first
  obtain ⟨accessToken, passed⟩ := Outcome.exists_of_passes passes
  refine ⟨s, x, before, accessToken, run, log, passed, time, ?_⟩
  exact passed_vouched {} 0 s ⟨revokedRun, run⟩ [] before x bearer accessToken log passed

def Handled.Current (x : Handled) : Prop :=
  ∀ token accessToken, x.outcome = .passed token accessToken →
    ∃ held, x.provider.accessTokens token = some held ∧ x.time ≤ held.expiresAt

theorem passed_after_revocation : ∃ s,
    (machine {} 0).run (machine {} 0).start revokedRun = some s ∧ ∃ x ∈ s.log, ¬ x.Current := by
  have facts : ((machine {} 0).run (machine {} 0).start revokedRun).map
      (fun s => s.log.map fun x => (x.outcome.passes, (x.provider.accessTokens bearer).isSome)) =
        some [(true, false), (true, true)] := by
    decide +kernel
  obtain ⟨s, run, outcomes⟩ := Option.map_eq_some_iff.mp facts
  obtain ⟨x, before, log, first, -⟩ := List.map_eq_cons_iff.mp outcomes
  obtain ⟨passes, absent⟩ := Prod.mk.inj first
  obtain ⟨accessToken, passed⟩ := Outcome.exists_of_passes passes
  refine ⟨s, run, x, by simp [log], fun current => ?_⟩
  obtain ⟨held, found, -⟩ := current bearer accessToken passed
  simp [found] at absent

end Mcp.Auth.Middleware
