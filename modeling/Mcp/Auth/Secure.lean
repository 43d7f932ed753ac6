import Mcp.Auth.Provider
import Mcp.Lib.Machine

namespace Mcp.Auth
open Mcp.Lib Bytes

structure SecureTokenStorage where
  nonceSize : Nat
  cipherSeal : Bytes → Bytes → Bytes
  cipherOpen : Bytes → Bytes → Option Bytes
  encode : Bytes → Bytes
  decode : Bytes → Option Bytes
  marshal : AccessToken → Option Bytes
  unmarshal : Bytes → Option AccessToken

inductive Error where
  | rotationRequired
  | revoked
  | tampered
  | expired
  | invalidFormat
  | encryptionFailed
  | decryptionFailed
  | provider (e : ProviderError)
deriving DecidableEq

namespace SecureTokenStorage

variable (storage : SecureTokenStorage)

def encryptToken (nonce : Option Bytes) (token : AccessToken) : Except Error Bytes :=
  match storage.marshal token, nonce with
  | some plaintext, some nonce => .ok (storage.encode (nonce ++ storage.cipherSeal nonce plaintext))
  | _, _ => .error .encryptionFailed

def plaintext (encrypted : Bytes) : Except Error AccessToken :=
  match storage.decode encrypted with
  | none => .error .decryptionFailed
  | some ciphertext =>
    if ciphertext.length < storage.nonceSize then .error .invalidFormat
    else match storage.cipherOpen (ciphertext.take storage.nonceSize) (ciphertext.drop storage.nonceSize) with
      | none => .error .decryptionFailed
      | some text =>
        match storage.unmarshal text with
        | none => .error .decryptionFailed
        | some token => .ok token

def decryptToken (encrypted : Bytes) (now : Int) : Except Error AccessToken :=
  match storage.plaintext encrypted with
  | .error e => .error e
  | .ok token => if token.expiresAt < now then .error .expired else .ok token

def isEncryptedToken (token : Bytes) : Bool :=
  match storage.decode token with
  | none => false
  | some decoded =>
    if decoded.length ≤ storage.nonceSize ∨ decoded.length < 100 then false
    else (storage.cipherOpen (decoded.take storage.nonceSize) (decoded.drop storage.nonceSize)).isSome

end SecureTokenStorage

-- The zero `time.Time` is the beginning of the year 1.
def zeroTime : Int := -62135596800 * second

structure SecureToken where
  token : AccessToken
  version : Int := 1
  fingerprint : Bytes
  issuedAt : Int
  lastUsed : Int
  useCount : Int := 0
  rotationCount : Int
  signature : Bytes := []
  originalTokenStr : Bytes

def validateTokenIntegrity (st : SecureToken) : Bool :=
  st.version = 1 ∧ st.fingerprint ≠ [] ∧ st.signature ≠ [] ∧ st.issuedAt ≠ zeroTime

structure TokenRotationPolicy where
  maxAge : Int
  maxUseCount : Int
  inactivityPeriod : Int
  forceRotateAfter : Int
  maxUseCount_le : maxUseCount ≤ maxInt

def defaultTokenRotationPolicy : TokenRotationPolicy where
  maxAge := 24 * 3600 * second
  maxUseCount := 10000
  inactivityPeriod := 2 * 3600 * second
  forceRotateAfter := 7 * 24 * 3600 * second
  maxUseCount_le := by decide

structure SecureOAuthProvider where
  provider : MemoryOAuthProvider := {}
  revokedTokens : Bytes → Option Int := fun _ => none
  tokenMetadata : Bytes → Option SecureToken := fun _ => none

structure Setup where
  storage : SecureTokenStorage
  rotationPolicy : TokenRotationPolicy
  hmac : Bytes → Bytes

def ofInt (n : Int) : Bytes := ofString (String.ofList (formatInt n))

namespace Setup

variable (setup : Setup)

def signToken (st : SecureToken) : Bytes :=
  let tokenStr := if st.originalTokenStr = [] then st.token.accessToken else st.originalTokenStr
  setup.hmac (tokenStr ++ ofString "|" ++ ofInt st.version ++ ofString "|" ++ st.fingerprint ++ ofString "|" ++
    ofInt (st.issuedAt / second) ++ ofString "|" ++ ofInt st.rotationCount)

def needsRotation (st : SecureToken) (now : Int) : Bool :=
  if timeSub now st.issuedAt > setup.rotationPolicy.maxAge then true
  else if st.useCount ≥ setup.rotationPolicy.maxUseCount then true
  else if timeSub now st.lastUsed > setup.rotationPolicy.inactivityPeriod then true
  else if timeSub now st.issuedAt > setup.rotationPolicy.forceRotateAfter then true
  else false

def protect (p : SecureOAuthProvider) (base : AccessToken) (now : Int) (rotationCount : Int) (fingerprint : Bytes)
    (nonce : Option Bytes) : SecureOAuthProvider × Except Error AccessToken :=
  let st : SecureToken :=
    { token := base
      fingerprint := fingerprint
      issuedAt := now
      lastUsed := now
      rotationCount := rotationCount
      originalTokenStr := base.accessToken }
  let st := { st with signature := setup.signToken st }
  match setup.storage.encryptToken nonce base with
  | .error e => (p, .error e)
  | .ok encrypted =>
    let renamed := { base with accessToken := encrypted }
    ({ p with
        tokenMetadata := Function.update p.tokenMetadata base.accessToken (some { st with token := renamed })
        provider :=
          { p.provider with
            accessTokens := Function.update p.provider.accessTokens base.accessToken (some renamed) } },
      .ok renamed)

def createAccessToken (p : SecureOAuthProvider) (authCode : AuthorizationCode) (now : Int)
    (accessToken refreshToken nonce : Option Bytes) (fingerprint : Bytes) :
    SecureOAuthProvider × Except Error AccessToken :=
  match p.provider.createAccessToken authCode now accessToken refreshToken with
  | (provider, .error e) => ({ p with provider := provider }, .error (.provider e))
  | (provider, .ok base) => setup.protect { p with provider := provider } base now 0 fingerprint nonce

def refreshOf (token : Bytes) (now : Int) : Except Error Bytes :=
  if setup.storage.isEncryptedToken token then
    match setup.storage.decryptToken token now with
    | .error e => .error e
    | .ok decrypted => .ok decrypted.refreshToken
  else .ok token

def refreshAccessToken (p : SecureOAuthProvider) (refreshToken : Bytes) (now : Int)
    (accessToken nonce : Option Bytes) (fingerprint : Bytes) : SecureOAuthProvider × Except Error AccessToken :=
  match setup.refreshOf refreshToken now with
  | .error e => (p, .error e)
  | .ok decryptedRefresh =>
    match p.provider.refreshAccessToken decryptedRefresh now accessToken with
    | (provider, .error e) => ({ p with provider := provider }, .error (.provider e))
    | (provider, .ok newToken) =>
      let rotationCount :=
        match p.tokenMetadata decryptedRefresh with
        | some old => old.rotationCount + 1
        | none => 0
      setup.protect { p with provider := provider } newToken now rotationCount fingerprint nonce

-- The original string of a stored token is never empty, so it makes no difference that an empty one is not
-- replaced when a later check fails.
def check (p : SecureOAuthProvider) (encrypted : Bytes) (now : Int) : Except Error (Bytes × SecureToken) :=
  if (p.revokedTokens encrypted).isSome then .error .revoked
  else match setup.storage.decryptToken encrypted now with
    | .error e => .error e
    | .ok token =>
      match p.tokenMetadata token.accessToken with
      | none => .error .tampered
      | some st =>
        let st :=
          if st.originalTokenStr = [] then { st with originalTokenStr := token.accessToken } else st
        if !validateTokenIntegrity st then .error .tampered
        else if st.signature ≠ setup.signToken st then .error .tampered
        else if setup.needsRotation st now then .error .rotationRequired
        else .ok (token.accessToken, st)

def validateAccessToken (p : SecureOAuthProvider) (encrypted : Bytes) (now : Int) :
    SecureOAuthProvider × Except Error AccessToken :=
  match setup.check p encrypted now with
  | .error e => (p, .error e)
  | .ok (accessToken, st) =>
    let st := { st with lastUsed := now, useCount := wrap (st.useCount + 1) }
    let p := { p with tokenMetadata := Function.update p.tokenMetadata accessToken (some st) }
    match p.provider.validateAccessToken accessToken now with
    | (provider, .error e) => ({ p with provider := provider }, .error (.provider (.oauth e)))
    | (provider, .ok token) => ({ p with provider := provider }, .ok token)

def revokeToken (p : SecureOAuthProvider) (token : Bytes) (now : Int) : SecureOAuthProvider :=
  let p := { p with revokedTokens := Function.update p.revokedTokens token (some now) }
  if setup.storage.isEncryptedToken token then
    match setup.storage.decryptToken token now with
    | .ok decrypted => { p with provider := p.provider.revokeToken decrypted.accessToken }
    | .error _ => { p with provider := p.provider.revokeToken token }
  else { p with provider := p.provider.revokeToken token }

end Setup

namespace SecureTokenStorage

variable {storage : SecureTokenStorage} {now : Int} {encrypted : Bytes}

theorem decryptToken_ok {token : AccessToken} (decrypted : storage.decryptToken encrypted now = .ok token) :
    storage.plaintext encrypted = .ok token ∧ now ≤ token.expiresAt := by
  unfold decryptToken at decrypted
  cases text : storage.plaintext encrypted with
  | error e => simp [text] at decrypted
  | ok token' =>
    simp only [text] at decrypted
    split_ifs at decrypted with late
    cases decrypted
    exact ⟨rfl, Int.not_lt.mp late⟩

variable {e : Error}

theorem plaintext_error (failed : storage.plaintext encrypted = .error e) (e' : ProviderError) : e ≠ .provider e' := by
  rintro rfl
  unfold plaintext at failed
  cases decoded : storage.decode encrypted with
  | none => simp [decoded] at failed
  | some ciphertext =>
    simp only [decoded] at failed
    split_ifs at failed
    · simp at failed
    · cases opened : storage.cipherOpen (ciphertext.take storage.nonceSize) (ciphertext.drop storage.nonceSize) with
      | none => simp [opened] at failed
      | some text => cases parsed : storage.unmarshal text <;> simp [opened, parsed] at failed

theorem decryptToken_error (failed : storage.decryptToken encrypted now = .error e) (e' : ProviderError) :
    e ≠ .provider e' := by
  unfold decryptToken at failed
  cases text : storage.plaintext encrypted with
  | error e'' =>
    simp only [text, Except.error.injEq] at failed
    exact failed ▸ plaintext_error text e'
  | ok token =>
    simp only [text] at failed
    split_ifs at failed
    simp only [Except.error.injEq] at failed
    simp [← failed]

end SecureTokenStorage

namespace Setup

variable {setup : Setup} {p : SecureOAuthProvider} {now : Int}

structure Within (policy : TokenRotationPolicy) (st : SecureToken) (now : Int) : Prop where
  age : timeSub now st.issuedAt ≤ policy.maxAge
  count : st.useCount < policy.maxUseCount
  inactive : timeSub now st.lastUsed ≤ policy.inactivityPeriod
  force : timeSub now st.issuedAt ≤ policy.forceRotateAfter

theorem within_of_needsRotation {st : SecureToken} (rested : setup.needsRotation st now = false) :
    Within setup.rotationPolicy st now := by
  unfold needsRotation at rested
  split_ifs at rested with age count inactive force
  exact ⟨Int.not_lt.mp age, Int.not_le.mp count, Int.not_lt.mp inactive, Int.not_lt.mp force⟩

variable {encrypted : Bytes}

theorem check_ok {a : Bytes} {st' : SecureToken} (passed : setup.check p encrypted now = .ok (a, st')) :
    ∃ token st, setup.storage.plaintext encrypted = .ok token ∧ token.accessToken = a ∧
      p.tokenMetadata a = some st ∧ Within setup.rotationPolicy st now ∧ st'.issuedAt = st.issuedAt ∧
      st'.useCount = st.useCount := by
  unfold check at passed
  split_ifs at passed
  cases decrypted : setup.storage.decryptToken encrypted now with
  | error e => simp [decrypted] at passed
  | ok token =>
    cases found : p.tokenMetadata token.accessToken with
    | none => simp [decrypted, found] at passed
    | some st =>
      simp only [decrypted, found] at passed
      split_ifs at passed with empty
      all_goals
        rename_i rested
        simp only [Except.ok.injEq, Prod.mk.injEq] at passed
        obtain ⟨rfl, rfl⟩ := passed
        have within := within_of_needsRotation (Bool.not_eq_true _ ▸ rested)
        exact ⟨token, st, (SecureTokenStorage.decryptToken_ok decrypted).1, rfl, found,
          ⟨within.age, within.count, within.inactive, within.force⟩, rfl, rfl⟩

theorem check_error {e : Error} (failed : setup.check p encrypted now = .error e) (e' : ProviderError) :
    e ≠ .provider e' := by
  unfold check at failed
  split_ifs at failed
  · cases failed
    simp
  · cases decrypted : setup.storage.decryptToken encrypted now with
    | error e'' =>
      simp only [decrypted, Except.error.injEq] at failed
      exact failed ▸ SecureTokenStorage.decryptToken_error decrypted e'
    | ok token =>
      cases found : p.tokenMetadata token.accessToken with
      | none =>
        simp only [decrypted, found, Except.error.injEq] at failed
        simp [← failed]
      | some st =>
        simp only [decrypted, found] at failed
        split_ifs at failed
        all_goals
          simp only [Except.error.injEq] at failed
          simp [← failed]

end Setup

end Mcp.Auth
