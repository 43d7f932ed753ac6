import Mcp.Lib.Bytes
import Mcp.Lib.Strconv

namespace Mcp.Auth
open Mcp.Lib Bytes Function

def second : Int := 10 ^ 9

-- The difference of two times saturates.
def timeSub (t u : Int) : Int := max minInt (min maxInt (t - u))

def defaultAccessTokenExpirationSeconds : Int := 3600

def defaultRefreshTokenExpirationSeconds : Int := 86400 * 30

def errorInvalidRequest : String := "invalid_request"

def errorInvalidClient : String := "invalid_client"

def errorInvalidGrant : String := "invalid_grant"

structure OAuthError where
  code : String
  description : String
deriving DecidableEq

inductive ProviderError where
  | random (message : String)
  | oauth (e : OAuthError)
deriving DecidableEq

structure AuthorizationCode where
  clientID : Bytes
  scopes : List Bytes

structure AccessToken where
  accessToken : Bytes
  tokenType : Bytes
  expiresIn : Int
  refreshToken : Bytes
  scope : Bytes
  clientID : Bytes
  scopes : List Bytes
  expiresAt : Int
deriving DecidableEq

structure RefreshToken where
  token : Bytes
  clientID : Bytes
  scopes : List Bytes
  expiresAt : Int
deriving DecidableEq

def newAccessToken (accessToken refreshToken clientID : Bytes) (scopes : List Bytes) (now : Int) : AccessToken where
  accessToken := accessToken
  tokenType := ofString "Bearer"
  expiresIn := defaultAccessTokenExpirationSeconds
  refreshToken := refreshToken
  scope := (scopes.intersperse (ofString " ")).flatten
  clientID := clientID
  scopes := scopes
  expiresAt := now + defaultAccessTokenExpirationSeconds * second

structure MemoryOAuthProvider where
  accessTokens : Bytes → Option AccessToken := fun _ => none
  refreshTokens : Bytes → Option RefreshToken := fun _ => none

namespace MemoryOAuthProvider

def createAccessToken (p : MemoryOAuthProvider) (authCode : AuthorizationCode) (now : Int)
    (accessToken refreshToken : Option Bytes) : MemoryOAuthProvider × Except ProviderError AccessToken :=
  match accessToken, refreshToken with
  | none, _ => (p, .error (.random "generate access token"))
  | some _, none => (p, .error (.random "generate refresh token"))
  | some accessToken, some refreshToken =>
    let token := newAccessToken accessToken refreshToken authCode.clientID authCode.scopes now
    let refresh : RefreshToken :=
      { token := refreshToken
        clientID := authCode.clientID
        scopes := authCode.scopes
        expiresAt := now + defaultRefreshTokenExpirationSeconds * second }
    ({ accessTokens := update p.accessTokens accessToken (some token)
       refreshTokens := update p.refreshTokens refreshToken (some refresh) }, .ok token)

def refreshAccessToken (p : MemoryOAuthProvider) (refreshTokenStr : Bytes) (now : Int)
    (accessToken : Option Bytes) : MemoryOAuthProvider × Except ProviderError AccessToken :=
  match p.refreshTokens refreshTokenStr with
  | none => (p, .error (.oauth ⟨errorInvalidGrant, "Refresh token not found"⟩))
  | some refresh =>
    if refresh.expiresAt < now then
      ({ p with refreshTokens := update p.refreshTokens refreshTokenStr none },
        .error (.oauth ⟨errorInvalidGrant, "Refresh token expired"⟩))
    else match accessToken with
      | none => (p, .error (.random "generate access token"))
      | some accessToken =>
        let token := newAccessToken accessToken refreshTokenStr refresh.clientID refresh.scopes now
        ({ p with accessTokens := update p.accessTokens accessToken (some token) }, .ok token)

def validateAccessToken (p : MemoryOAuthProvider) (tokenStr : Bytes) (now : Int) :
    MemoryOAuthProvider × Except OAuthError AccessToken :=
  match p.accessTokens tokenStr with
  | none => (p, .error ⟨errorInvalidClient, "Access token not found"⟩)
  | some token =>
    if token.expiresAt < now then
      ({ p with accessTokens := update p.accessTokens tokenStr none },
        .error ⟨errorInvalidClient, "Access token expired"⟩)
    else (p, .ok token)

def revokeToken (p : MemoryOAuthProvider) (token : Bytes) : MemoryOAuthProvider :=
  if (p.accessTokens token).isSome then { p with accessTokens := update p.accessTokens token none }
  else if (p.refreshTokens token).isSome then { p with refreshTokens := update p.refreshTokens token none }
  else p

variable {p p' : MemoryOAuthProvider} {now : Int}

theorem validateAccessToken_ok {tokenStr : Bytes} {token : AccessToken}
    (validated : p.validateAccessToken tokenStr now = (p', .ok token)) :
    p' = p ∧ p.accessTokens tokenStr = some token ∧ now ≤ token.expiresAt := by
  unfold validateAccessToken at validated
  cases found : p.accessTokens tokenStr with
  | none => simp [found] at validated
  | some token' =>
    simp only [found] at validated
    split_ifs at validated with late
    · simp at validated
    · simp only [Prod.mk.injEq, Except.ok.injEq] at validated
      obtain ⟨rfl, rfl⟩ := validated
      exact ⟨rfl, rfl, Int.not_lt.mp late⟩

structure Less (p p' : MemoryOAuthProvider) : Prop where
  access : ∀ b token, p'.accessTokens b = some token → p.accessTokens b = some token
  refresh : ∀ b token, p'.refreshTokens b = some token → p.refreshTokens b = some token

theorem Less.refl (p : MemoryOAuthProvider) : Less p p := ⟨fun _ _ found => found, fun _ _ found => found⟩

variable {α : Type*} {k b : Bytes}

theorem eq_some_or_eq_of_update {m : Bytes → Option α} {v : Option α} {x : α}
    (found : update m k v b = some x) : m b = some x ∨ k = b := by
  by_cases same : b = k
  · exact .inr same.symm
  · rw [update_of_ne same] at found
    exact .inl found

theorem eq_some_of_update_none {m : Bytes → Option α} {x : α} (found : update m k none b = some x) : m b = some x := by
  by_cases same : b = k
  · rw [same, update_self] at found
    cases found
  · rwa [update_of_ne same] at found

theorem less_of_access (k : Bytes) : Less p { p with accessTokens := update p.accessTokens k none } :=
  ⟨fun _ _ found => eq_some_of_update_none found, fun _ _ found => found⟩

theorem less_of_refresh (k : Bytes) : Less p { p with refreshTokens := update p.refreshTokens k none } :=
  ⟨fun _ _ found => found, fun _ _ found => eq_some_of_update_none found⟩

theorem revokeToken_less (p : MemoryOAuthProvider) (token : Bytes) : Less p (p.revokeToken token) := by
  unfold revokeToken
  split_ifs
  · exact less_of_access token
  · exact less_of_refresh token
  · exact .refl p

theorem revokeToken_access (p : MemoryOAuthProvider) (token : Bytes) :
    (p.revokeToken token).accessTokens token = none := by
  unfold revokeToken
  split_ifs with held
  · exact update_self ..
  · simpa using held
  · simpa using held

theorem revokeToken_refresh {token : Bytes} (absent : p.accessTokens token = none) :
    (p.revokeToken token).refreshTokens token = none := by
  unfold revokeToken
  rw [if_neg (by simp [absent])]
  split_ifs with held
  · exact update_self ..
  · simpa using held

theorem validateAccessToken_less (p : MemoryOAuthProvider) (tokenStr : Bytes) (now : Int) :
    Less p (p.validateAccessToken tokenStr now).1 := by
  unfold validateAccessToken
  cases p.accessTokens tokenStr with
  | none => exact .refl p
  | some token =>
    simp only
    split_ifs
    · exact less_of_access tokenStr
    · exact .refl p

theorem createAccessToken_cases (p : MemoryOAuthProvider) (authCode : AuthorizationCode) (now : Int)
    (accessToken refreshToken : Option Bytes) :
    (∃ e, p.createAccessToken authCode now accessToken refreshToken = (p, .error e)) ∨
      ∃ a r refresh token, accessToken = some a ∧ refreshToken = some r ∧
        p.createAccessToken authCode now accessToken refreshToken =
          ({ accessTokens := update p.accessTokens a (some token)
             refreshTokens := update p.refreshTokens r (some refresh) }, .ok token) ∧
        token.accessToken = a ∧ token.refreshToken = r ∧
        token.expiresAt = now + defaultAccessTokenExpirationSeconds * second := by
  cases accessToken with
  | none => exact .inl ⟨_, rfl⟩
  | some a =>
    cases refreshToken with
    | none => exact .inl ⟨_, rfl⟩
    | some r => exact .inr ⟨a, r, _, _, rfl, rfl, rfl, rfl, rfl, rfl⟩

theorem refreshAccessToken_cases (p : MemoryOAuthProvider) (refreshTokenStr : Bytes) (now : Int)
    (accessToken : Option Bytes) :
    (∃ p' e, p.refreshAccessToken refreshTokenStr now accessToken = (p', .error e) ∧ Less p p') ∨
      ∃ a refresh token, accessToken = some a ∧ p.refreshTokens refreshTokenStr = some refresh ∧
        now ≤ refresh.expiresAt ∧
        p.refreshAccessToken refreshTokenStr now accessToken =
          ({ p with accessTokens := update p.accessTokens a (some token) }, .ok token) ∧
        token.accessToken = a ∧ token.refreshToken = refreshTokenStr ∧
        token.expiresAt = now + defaultAccessTokenExpirationSeconds * second := by
  unfold refreshAccessToken
  cases found : p.refreshTokens refreshTokenStr with
  | none => exact .inl ⟨p, _, rfl, .refl p⟩
  | some refresh =>
    simp only
    split_ifs with late
    · exact .inl ⟨_, _, rfl, less_of_refresh refreshTokenStr⟩
    · cases accessToken with
      | none => exact .inl ⟨p, _, rfl, .refl p⟩
      | some a => exact .inr ⟨a, refresh, _, rfl, rfl, Int.not_lt.mp late, rfl, rfl, rfl, rfl⟩

end MemoryOAuthProvider

end Mcp.Auth
