import Mcp.Auth.Secure
import Mcp.Lib.Base64

namespace Mcp.Auth
open Mcp.Lib Bytes Function

inductive Call where
  | createAccessToken (authCode : AuthorizationCode) (accessToken refreshToken nonce : Option Bytes)
      (fingerprint : Bytes)
  | validateAccessToken (token : Bytes)
  | refreshAccessToken (token : Bytes) (accessToken nonce : Option Bytes) (fingerprint : Bytes)
  | revokeToken (token : Bytes)

inductive Reply where
  | token (t : AccessToken)
  | done
  | failed (e : Error)

def Reply.of : Except Error AccessToken → Reply
  | .ok t => .token t
  | .error e => .failed e

structure Entry where
  time : Int
  call : Call
  reply : Reply

namespace Call

def accessDraw : Call → Option Bytes
  | createAccessToken _ accessToken _ _ _ | refreshAccessToken _ accessToken _ _ => accessToken
  | _ => none

def refreshDraw : Call → Option Bytes
  | createAccessToken _ _ refreshToken _ _ => refreshToken
  | _ => none

def nonce : Call → Option Bytes
  | createAccessToken _ _ _ nonce _ | refreshAccessToken _ _ nonce _ => nonce
  | _ => none

def isIssue : Call → Bool
  | createAccessToken .. | refreshAccessToken .. => true
  | _ => false

def drawn (call : Call) : List Bytes := call.accessDraw.toList ++ call.refreshDraw.toList

end Call

def isHexDigit (c : UInt8) : Bool := 48 ≤ c ∧ c ≤ 57 ∨ 97 ≤ c ∧ c ≤ 102

def IsRandom (s : Bytes) : Prop := s.length = 64 ∧ ∀ c ∈ s, isHexDigit c

instance (s : Bytes) : Decidable (IsRandom s) := inferInstanceAs (Decidable (_ ∧ _))

def accessDrawn (log : List Entry) : List Bytes := log.flatMap fun x => x.call.accessDraw.toList

def refreshDrawn (log : List Entry) : List Bytes := log.flatMap fun x => x.call.refreshDraw.toList

def Fresh (log : List Entry) (nonceSize : Nat) (call : Call) : Prop :=
  call.drawn.Nodup ∧ (∀ x ∈ call.drawn, IsRandom x ∧ x ∉ accessDrawn log ∧ x ∉ refreshDrawn log) ∧
    ∀ nonce ∈ call.nonce, nonce.length = nonceSize

def Timely (log : List Entry) (now : Int) : Prop := ∀ x ∈ log.head?, x.time ≤ now

instance (log : List Entry) (nonceSize : Nat) (call : Call) : Decidable (Fresh log nonceSize call) :=
  inferInstanceAs (Decidable (_ ∧ _ ∧ _))

instance (log : List Entry) (now : Int) : Decidable (Timely log now) :=
  inferInstanceAs (Decidable (∀ x ∈ log.head?, x.time ≤ now))

structure State where
  provider : SecureOAuthProvider := {}
  log : List Entry := []

namespace Setup

variable (setup : Setup)

def perform (p : SecureOAuthProvider) (now : Int) : Call → SecureOAuthProvider × Reply
  | .createAccessToken authCode accessToken refreshToken nonce fingerprint =>
    let (p, result) := setup.createAccessToken p authCode now accessToken refreshToken nonce fingerprint
    (p, .of result)
  | .validateAccessToken token =>
    let (p, result) := setup.validateAccessToken p token now
    (p, .of result)
  | .refreshAccessToken token accessToken nonce fingerprint =>
    let (p, result) := setup.refreshAccessToken p token now accessToken nonce fingerprint
    (p, .of result)
  | .revokeToken token => (setup.revokeToken p token now, .done)

def machine : Machine State (Int × Call) where
  start := {}
  step s label :=
    if Timely s.log label.1 ∧ Fresh s.log setup.storage.nonceSize label.2 then
      let (p, reply) := setup.perform s.provider label.1 label.2
      some { provider := p, log := ⟨label.1, label.2, reply⟩ :: s.log }
    else none

end Setup

structure Grown (call : Call) (p p' : MemoryOAuthProvider) : Prop where
  access : ∀ b token, p'.accessTokens b = some token → p.accessTokens b = some token ∨ call.accessDraw = some b
  refresh : ∀ b token, p'.refreshTokens b = some token → p.refreshTokens b = some token ∨ call.refreshDraw = some b

def Setup.revokedName (setup : Setup) (token : Bytes) (now : Int) : Bytes :=
  if setup.storage.isEncryptedToken token then
    match setup.storage.decryptToken token now with
    | .ok decrypted => decrypted.accessToken
    | .error _ => token
  else token

inductive Effect (setup : Setup) (p : SecureOAuthProvider) (now : Int) :
    Call → SecureOAuthProvider → Reply → Prop
  | issued {call : Call} {a encrypted : Bytes} {base : AccessToken} {st : SecureToken} {provider : MemoryOAuthProvider}
      (draws : call.accessDraw = some a) (named : base.accessToken = a)
      (encrypts : setup.storage.encryptToken call.nonce base = .ok encrypted)
      (fresh : st.issuedAt = now ∧ st.lastUsed = now ∧ st.useCount = 0)
      (expires : base.expiresAt = now + defaultAccessTokenExpirationSeconds * second)
      (grown : Grown call p.provider provider)
      (held : provider.accessTokens a = some { base with accessToken := encrypted })
      (others : ∀ b, b ≠ a → provider.accessTokens b = p.provider.accessTokens b)
      (refreshes : call.refreshDraw = some base.refreshToken ∨
        ∃ token nonce fingerprint refresh, call = .refreshAccessToken token (some a) nonce fingerprint ∧
          setup.refreshOf token now = .ok base.refreshToken ∧
          p.provider.refreshTokens base.refreshToken = some refresh ∧ now ≤ refresh.expiresAt) :
      Effect setup p now call
        { p with provider := provider, tokenMetadata := update p.tokenMetadata a (some st) }
        (.token { base with accessToken := encrypted })
  | unissued {call : Call} {provider : MemoryOAuthProvider} {e : Error} (kind : call.isIssue)
      (grown : Grown call p.provider provider) :
      Effect setup p now call { p with provider := provider } (.failed e)
  | rejected {token : Bytes} {e : Error} (notProvider : ∀ e', e ≠ .provider e') :
      Effect setup p now (.validateAccessToken token) p (.failed e)
  | passed {token a : Bytes} {st st' : SecureToken} {reply : Except OAuthError AccessToken}
      {provider : MemoryOAuthProvider} {text : AccessToken}
      (decrypts : setup.storage.plaintext token = .ok text) (named : text.accessToken = a)
      (found : p.tokenMetadata a = some st) (within : Setup.Within setup.rotationPolicy st now)
      (used : st'.issuedAt = st.issuedAt ∧ st'.lastUsed = now ∧ st'.useCount = wrap (st.useCount + 1))
      (validated : p.provider.validateAccessToken a now = (provider, reply)) :
      Effect setup p now (.validateAccessToken token)
        { p with provider := provider, tokenMetadata := update p.tokenMetadata a (some st') }
        (.of (reply.mapError fun e => .provider (.oauth e)))
  | revoked {token : Bytes} :
      Effect setup p now (.revokeToken token)
        { p with
          provider := p.provider.revokeToken (setup.revokedName token now)
          revokedTokens := update p.revokedTokens token (some now) } .done

namespace Setup

variable {setup : Setup} {p : SecureOAuthProvider} {now : Int}

theorem effect_revoke (token : Bytes) :
    Effect setup p now (.revokeToken token) (setup.revokeToken p token now) .done := by
  have same : setup.revokeToken p token now =
      { p with
        provider := p.provider.revokeToken (setup.revokedName token now)
        revokedTokens := update p.revokedTokens token (some now) } := by
    unfold revokeToken revokedName
    simp only
    split_ifs
    · cases setup.storage.decryptToken token now <;> rfl
    · rfl
  rw [same]
  exact .revoked

theorem effect_validate (token : Bytes) :
    Effect setup p now (.validateAccessToken token) (setup.validateAccessToken p token now).1
      (.of (setup.validateAccessToken p token now).2) := by
  unfold validateAccessToken
  cases checked : setup.check p token now with
  | error e => exact .rejected (check_error checked)
  | ok result =>
    obtain ⟨a, st'⟩ := result
    obtain ⟨text, st, decrypts, named, found, within, issuedAt, useCount⟩ := check_ok checked
    have used {r : SecureToken} (eq : r = { st' with lastUsed := now, useCount := wrap (st'.useCount + 1) }) :
        r.issuedAt = st.issuedAt ∧ r.lastUsed = now ∧ r.useCount = wrap (st.useCount + 1) := by
      rw [eq]
      exact ⟨issuedAt, rfl, by rw [useCount]⟩
    cases validated : p.provider.validateAccessToken a now with
    | mk provider reply =>
      cases reply with
      | error | ok =>
        simp only [validated]
        exact .passed decrypts named found within (used rfl) validated

theorem protect_cases (p : SecureOAuthProvider) (base : AccessToken) (now rotationCount : Int)
    (fingerprint : Bytes) (nonce : Option Bytes) :
    (∃ e, setup.protect p base now rotationCount fingerprint nonce = (p, .error e)) ∨
      ∃ encrypted st, setup.storage.encryptToken nonce base = .ok encrypted ∧
        (st.issuedAt = now ∧ st.lastUsed = now ∧ st.useCount = 0) ∧
          setup.protect p base now rotationCount fingerprint nonce =
          ({ p with
              tokenMetadata := update p.tokenMetadata base.accessToken (some st)
              provider :=
                { p.provider with
                  accessTokens := update p.provider.accessTokens base.accessToken
                    (some { base with accessToken := encrypted }) } }, .ok { base with accessToken := encrypted }) := by
  unfold protect
  cases encrypts : setup.storage.encryptToken nonce base with
  | error e => exact .inl ⟨e, rfl⟩
  | ok encrypted => exact .inr ⟨encrypted, _, rfl, ⟨rfl, rfl, rfl⟩, rfl⟩

theorem effect_protect (call : Call) {provider : MemoryOAuthProvider} {base : AccessToken} {rotationCount : Int}
    {fingerprint a : Bytes} (kind : call.isIssue) (draws : call.accessDraw = some a) (named : base.accessToken = a)
    (expires : base.expiresAt = now + defaultAccessTokenExpirationSeconds * second)
    (grown : Grown call p.provider provider)
    (others : ∀ b, b ≠ a → provider.accessTokens b = p.provider.accessTokens b)
    (refreshes : call.refreshDraw = some base.refreshToken ∨
      ∃ token nonce fingerprint refresh, call = .refreshAccessToken token (some a) nonce fingerprint ∧
        setup.refreshOf token now = .ok base.refreshToken ∧
        p.provider.refreshTokens base.refreshToken = some refresh ∧ now ≤ refresh.expiresAt) : Effect setup p now call
      (setup.protect { p with provider := provider } base now rotationCount fingerprint call.nonce).1
      (.of (setup.protect { p with provider := provider } base now rotationCount fingerprint call.nonce).2) := by
  subst named
  obtain ⟨e, failed⟩ | ⟨encrypted, st, encrypts, fresh, result⟩ :=
    setup.protect_cases { p with provider := provider } base now rotationCount fingerprint call.nonce
  · rw [failed]
    exact .unissued kind grown
  · rw [result]
    refine .issued draws rfl encrypts fresh expires ⟨?_, grown.refresh⟩ (update_self ..) ?_ refreshes
    · intro b token found
      obtain old | rfl := MemoryOAuthProvider.eq_some_or_eq_of_update found
      · exact grown.access b token old
      · exact .inr draws
    · intro b other
      exact (update_of_ne other ..).trans (others b other)

theorem drawn_of_update {ν : Type*} {table : Bytes → Option ν} {a b : Bytes} {new token : ν}
    (found : update table a (some new) b = some token) : table b = some token ∨ some a = some b :=
  (MemoryOAuthProvider.eq_some_or_eq_of_update found).imp_right (congrArg some)

theorem effect_create (authCode : AuthorizationCode) (accessToken refreshToken nonce : Option Bytes)
    (fingerprint : Bytes) :
    Effect setup p now (.createAccessToken authCode accessToken refreshToken nonce fingerprint)
      (setup.createAccessToken p authCode now accessToken refreshToken nonce fingerprint).1
      (.of (setup.createAccessToken p authCode now accessToken refreshToken nonce fingerprint).2) := by
  unfold createAccessToken
  obtain ⟨e, failed⟩ | ⟨a, r, refresh, token, rfl, rfl, made, named, named', expires⟩ :=
    p.provider.createAccessToken_cases authCode now accessToken refreshToken
  · rw [failed]
    exact .unissued rfl ⟨fun _ _ found => .inl found, fun _ _ found => .inl found⟩
  · rw [made]
    refine effect_protect (.createAccessToken authCode (some a) (some r) nonce fingerprint) rfl rfl named
      expires ⟨fun _ _ => drawn_of_update, fun _ _ => drawn_of_update⟩ ?_ (.inl (congrArg some named'.symm))
    intro b other
    exact update_of_ne other ..

theorem effect_refresh (token : Bytes) (accessToken nonce : Option Bytes) (fingerprint : Bytes) :
    Effect setup p now (.refreshAccessToken token accessToken nonce fingerprint)
      (setup.refreshAccessToken p token now accessToken nonce fingerprint).1
      (.of (setup.refreshAccessToken p token now accessToken nonce fingerprint).2) := by
  unfold refreshAccessToken
  cases decrypted : setup.refreshOf token now with
  | error e => exact .unissued rfl ⟨fun _ _ found => .inl found, fun _ _ found => .inl found⟩
  | ok decryptedRefresh =>
    obtain ⟨provider, e, failed, less⟩ | ⟨a, refresh, base, rfl, held, early, made, named, rfl, expires⟩ :=
      p.provider.refreshAccessToken_cases decryptedRefresh now accessToken
    · simp only [failed]
      exact .unissued rfl ⟨fun b t found => .inl (less.access b t found),
        fun b t found => .inl (less.refresh b t found)⟩
    · simp only [made]
      refine effect_protect (.refreshAccessToken token (some a) nonce fingerprint) rfl rfl named
        expires ⟨fun _ _ => drawn_of_update, fun _ _ found => .inl found⟩ ?_
        (.inr ⟨token, nonce, fingerprint, refresh, rfl, decrypted, held, early⟩)
      intro b other
      exact update_of_ne other ..

theorem effect (p : SecureOAuthProvider) (now : Int) (call : Call) :
    Effect setup p now call (setup.perform p now call).1 (setup.perform p now call).2 := by
  cases call with
  | createAccessToken authCode accessToken refreshToken nonce fingerprint =>
    exact effect_create authCode accessToken refreshToken nonce fingerprint
  | validateAccessToken token => exact effect_validate token
  | refreshAccessToken token accessToken nonce fingerprint => exact effect_refresh token accessToken nonce fingerprint
  | revokeToken token => exact effect_revoke token

theorem machine_step {s s' : State} {label : Int × Call} (step : setup.machine.step s label = some s') :
    Timely s.log label.1 ∧ Fresh s.log setup.storage.nonceSize label.2 ∧
      ∃ p reply, s' = { provider := p, log := ⟨label.1, label.2, reply⟩ :: s.log } ∧
        Effect setup s.provider label.1 label.2 p reply := by
  simp only [machine] at step
  split_ifs at step with allowed
  cases step
  exact ⟨allowed.1, allowed.2, _, _, rfl, effect s.provider label.1 label.2⟩

end Setup

variable {setup : Setup} {s : State} {x : Entry} {log : List Entry} {b a : Bytes} {token : AccessToken}

theorem Setup.log_calls {labels : List (Int × Call)} (run : setup.machine.run setup.machine.start labels = some s) :
    s.log.map (fun x => (x.time, x.call)) = labels.reverse := by
  have start : setup.machine.start.log.map (fun x => (x.time, x.call)) = ([] : List (Int × Call)).reverse := rfl
  refine Machine.run_history (P := fun before s => s.log.map (fun x => (x.time, x.call)) = before.reverse) ?_ start run
  intro before s label s' holds step
  obtain ⟨-, -, p, reply, rfl, -⟩ := Setup.machine_step step
  simp [holds]

structure SecureTokenStorage.Sound (storage : SecureTokenStorage) : Prop where
  decode_encode : ∀ bytes, storage.decode (storage.encode bytes) = some bytes
  decode_length : ∀ text bytes, storage.decode text = some bytes → bytes.length ≤ text.length
  open_seal : ∀ nonce text, nonce.length = storage.nonceSize →
    storage.cipherOpen nonce (storage.cipherSeal nonce text) = some text
  seal_length : ∀ nonce text, text.length ≤ (storage.cipherSeal nonce text).length
  marshal_length : ∀ token text, IsRandom token.accessToken → IsRandom token.refreshToken →
    storage.marshal token = some text → token.accessToken.length + token.refreshToken.length ≤ text.length
  unmarshal_marshal : ∀ token text, IsRandom token.accessToken → IsRandom token.refreshToken →
    storage.marshal token = some text → ∃ token', storage.unmarshal text = some token' ∧
      token'.accessToken = token.accessToken ∧ token'.refreshToken = token.refreshToken ∧
      token'.expiresAt = token.expiresAt

namespace SecureTokenStorage

variable {storage : SecureTokenStorage} {nonce encrypted : Bytes} {base : AccessToken}

theorem encryptToken_ok {nonce : Option Bytes} (encrypts : storage.encryptToken nonce base = .ok encrypted) :
    ∃ nonce' text, nonce = some nonce' ∧ storage.marshal base = some text ∧
      encrypted = storage.encode (nonce' ++ storage.cipherSeal nonce' text) := by
  unfold encryptToken at encrypts
  cases marshalled : storage.marshal base with
  | none => simp [marshalled] at encrypts
  | some text =>
    cases nonce with
    | none => simp [marshalled] at encrypts
    | some nonce' =>
      simp only [marshalled, Except.ok.injEq] at encrypts
      exact ⟨nonce', text, rfl, rfl, encrypts.symm⟩

theorem Sound.plaintext (sound : storage.Sound) (size : nonce.length = storage.nonceSize)
    (access : IsRandom base.accessToken) (refresh : IsRandom base.refreshToken)
    (encrypts : storage.encryptToken (some nonce) base = .ok encrypted) :
    ∃ text, storage.plaintext encrypted = .ok text ∧ text.accessToken = base.accessToken ∧
      text.refreshToken = base.refreshToken ∧ text.expiresAt = base.expiresAt := by
  obtain ⟨nonce', text, same, marshalled, rfl⟩ := encryptToken_ok encrypts
  cases same
  obtain ⟨token, parsed, named, refreshed, expires⟩ := sound.unmarshal_marshal base text access refresh marshalled
  refine ⟨token, ?_, named, refreshed, expires⟩
  unfold SecureTokenStorage.plaintext
  have long : ¬ (nonce ++ storage.cipherSeal nonce text).length < storage.nonceSize := by
    rw [List.length_append]
    omega
  simp only [sound.decode_encode, if_neg long]
  rw [← size, List.take_left, List.drop_left, sound.open_seal nonce text size]
  simp only [parsed]

theorem Sound.isEncryptedToken (sound : storage.Sound) (size : nonce.length = storage.nonceSize)
    (access : IsRandom base.accessToken) (refresh : IsRandom base.refreshToken)
    (encrypts : storage.encryptToken (some nonce) base = .ok encrypted) :
    storage.isEncryptedToken encrypted = true := by
  obtain ⟨nonce', text, same, marshalled, rfl⟩ := encryptToken_ok encrypts
  cases same
  have textLong := sound.marshal_length base text access refresh marshalled
  have sealedLong := sound.seal_length nonce text
  rw [access.1, refresh.1] at textLong
  unfold SecureTokenStorage.isEncryptedToken
  have long : ¬ ((nonce ++ storage.cipherSeal nonce text).length ≤ storage.nonceSize ∨
      (nonce ++ storage.cipherSeal nonce text).length < 100) := by
    rw [List.length_append]
    omega
  simp only [sound.decode_encode, if_neg long]
  rw [← size, List.take_left, List.drop_left, sound.open_seal nonce text size]
  rfl

theorem Sound.not_isEncryptedToken (sound : storage.Sound) {token : Bytes} (random : IsRandom token) :
    storage.isEncryptedToken token = false := by
  unfold SecureTokenStorage.isEncryptedToken
  cases decoded : storage.decode token with
  | none => rfl
  | some bytes =>
    have short := sound.decode_length token bytes decoded
    rw [random.1] at short
    simp only
    rw [if_pos (.inr (by omega))]

end SecureTokenStorage

def Entry.issued (x : Entry) (a : Bytes) : Option AccessToken :=
  match x.reply with
  | .token t => if x.call.accessDraw = some a then some t else none
  | _ => none

structure Issued (setup : Setup) (log : List Entry) (a : Bytes) (token : AccessToken) : Prop where
  drawn : a ∈ accessDrawn log
  refresh : token.refreshToken ∈ refreshDrawn log
  encrypted : setup.storage.isEncryptedToken token.accessToken = true
  plaintext : ∃ text, setup.storage.plaintext token.accessToken = .ok text ∧ text.accessToken = a ∧
    text.refreshToken = token.refreshToken ∧ text.expiresAt = token.expiresAt

structure Recorded (setup : Setup) (s : State) : Prop where
  access : ∀ b token, s.provider.provider.accessTokens b = some token → b ∈ accessDrawn s.log
  refresh : ∀ b token, s.provider.provider.refreshTokens b = some token → b ∈ refreshDrawn s.log
  metadata : ∀ b st, s.provider.tokenMetadata b = some st → b ∈ accessDrawn s.log
  random : ∀ b, b ∈ accessDrawn s.log ∨ b ∈ refreshDrawn s.log → IsRandom b
  disjoint : ∀ b ∈ accessDrawn s.log, b ∉ refreshDrawn s.log
  issued : ∀ x ∈ s.log, ∀ a token, x.issued a = some token → Issued setup s.log a token

theorem mem_accessDrawn_cons : b ∈ accessDrawn (x :: log) ↔ x.call.accessDraw = some b ∨ b ∈ accessDrawn log := by
  simp [accessDrawn]

theorem mem_refreshDrawn_cons : b ∈ refreshDrawn (x :: log) ↔ x.call.refreshDraw = some b ∨ b ∈ refreshDrawn log := by
  simp [refreshDrawn]

theorem Issued.cons
    (issued : Issued setup log a token) (x : Entry) : Issued setup (x :: log) a token where
  drawn := mem_accessDrawn_cons.mpr (.inr issued.drawn)
  refresh := mem_refreshDrawn_cons.mpr (.inr issued.refresh)
  encrypted := issued.encrypted
  plaintext := issued.plaintext

theorem Entry.issued_eq_some : x.issued a = some token ↔ x.call.accessDraw = some a ∧ x.reply = .token token := by
  unfold Entry.issued
  cases x.reply with
  | token t =>
    by_cases draws : x.call.accessDraw = some a <;> simp [draws]
  | done | failed => simp

section Effects

variable {setup : Setup} {p p' : SecureOAuthProvider} {now : Int} {call : Call} {reply : Reply}

theorem Effect.grown (effect : Effect setup p now call p' reply) : Grown call p.provider p'.provider := by
  have less {q : MemoryOAuthProvider} (less : p.provider.Less q) : Grown call p.provider q :=
    ⟨fun b token found => .inl (less.access b token found), fun b token found => .inl (less.refresh b token found)⟩
  cases effect with
  | issued _ _ _ _ _ grown | unissued _ grown => exact grown
  | rejected => exact less (.refl _)
  | @passed token a st st' result provider text _ _ _ _ _ validated =>
    have known := p.provider.validateAccessToken_less a now
    rw [validated] at known
    exact less known
  | revoked => exact less (p.provider.revokeToken_less _)

theorem Effect.metadata (effect : Effect setup p now call p' reply) {b : Bytes} {st : SecureToken}
    (found : p'.tokenMetadata b = some st) : (∃ st, p.tokenMetadata b = some st) ∨ call.accessDraw = some b := by
  cases effect with
  | issued draws =>
    obtain old | rfl := MemoryOAuthProvider.eq_some_or_eq_of_update found
    · exact .inl ⟨st, old⟩
    · exact .inr draws
  | unissued | rejected | revoked => exact .inl ⟨st, found⟩
  | passed _ _ known =>
    obtain old | rfl := MemoryOAuthProvider.eq_some_or_eq_of_update found
    · exact .inl ⟨st, old⟩
    · exact .inl ⟨_, known⟩

variable {a r : Bytes}

theorem Effect.issues (effect : Effect setup p now call p' reply) {token : AccessToken}
    (issued : Entry.issued ⟨now, call, reply⟩ a = some token) :
    ∃ base st, reply = .token token ∧ base.accessToken = a ∧ token = { base with accessToken := token.accessToken } ∧
      setup.storage.encryptToken call.nonce base = .ok token.accessToken ∧
      (st.issuedAt = now ∧ st.lastUsed = now ∧ st.useCount = 0) ∧
      token.expiresAt = now + defaultAccessTokenExpirationSeconds * second ∧
      p'.tokenMetadata = update p.tokenMetadata a (some st) ∧ p'.provider.accessTokens a = some token ∧
      (call.refreshDraw = some token.refreshToken ∨
        ∃ t nonce fingerprint refresh, call = .refreshAccessToken t (some a) nonce fingerprint ∧
          setup.refreshOf t now = .ok token.refreshToken ∧
          p.provider.refreshTokens token.refreshToken = some refresh ∧ now ≤ refresh.expiresAt) := by
  obtain ⟨draws, replied⟩ := Entry.issued_eq_some.mp issued
  cases effect with
  | issued draws' named encrypts fresh expires _ held _ refreshes =>
    cases draws.symm.trans draws'
    cases replied
    exact ⟨_, _, rfl, named, rfl, encrypts, fresh, expires, rfl, held, refreshes⟩
  | unissued => cases replied
  | rejected | passed | revoked => cases draws

theorem mem_drawn_access (draws : call.accessDraw = some a) : a ∈ call.drawn := by
  simp [Call.drawn, draws]

theorem mem_drawn_refresh (draws : call.refreshDraw = some r) : r ∈ call.drawn := by
  simp [Call.drawn, draws]

theorem accessDraw_ne_refreshDraw (nodup : call.drawn.Nodup) (draws : call.accessDraw = some a)
    (draws' : call.refreshDraw = some r) : a ≠ r := by
  simp only [Call.drawn, draws, draws', Option.toList_some, List.singleton_append, List.nodup_cons,
    List.mem_singleton] at nodup
  exact nodup.1

end Effects

section Step

variable {setup : Setup} {s : State} {now : Int} {call : Call} {p : SecureOAuthProvider} {reply : Reply}

variable {b : Bytes}

theorem Recorded.random_cons (recorded : Recorded setup s) (fresh : Fresh s.log setup.storage.nonceSize call)
    (member : b ∈ accessDrawn (⟨now, call, reply⟩ :: s.log) ∨ b ∈ refreshDrawn (⟨now, call, reply⟩ :: s.log)) :
    IsRandom b := by
  rw [mem_accessDrawn_cons, mem_refreshDrawn_cons] at member
  rcases member with (draws | old) | (draws | old)
  · exact (fresh.2.1 b (mem_drawn_access draws)).1
  · exact recorded.random b (.inl old)
  · exact (fresh.2.1 b (mem_drawn_refresh draws)).1
  · exact recorded.random b (.inr old)

theorem Recorded.disjoint_cons (recorded : Recorded setup s) (fresh : Fresh s.log setup.storage.nonceSize call)
    (member : b ∈ accessDrawn (⟨now, call, reply⟩ :: s.log)) : b ∉ refreshDrawn (⟨now, call, reply⟩ :: s.log) := by
  obtain ⟨nodup, new, -⟩ := fresh
  intro member'
  rw [mem_accessDrawn_cons] at member
  rw [mem_refreshDrawn_cons] at member'
  rcases member with draws | old
  · rcases member' with draws' | old'
    · exact accessDraw_ne_refreshDraw nodup draws draws' rfl
    · exact (new b (mem_drawn_access draws)).2.2 old'
  · rcases member' with draws' | old'
    · exact (new b (mem_drawn_refresh draws')).2.1 old
    · exact recorded.disjoint b old old'

theorem Recorded.issued_now (sound : setup.storage.Sound) (recorded : Recorded setup s)
    (fresh : Fresh s.log setup.storage.nonceSize call) (effect : Effect setup s.provider now call p reply) {a : Bytes}
    {token : AccessToken} (issued : Entry.issued ⟨now, call, reply⟩ a = some token) :
    Issued setup (⟨now, call, reply⟩ :: s.log) a token := by
  obtain ⟨base, st, -, named, eq, encrypts, -, -, -, -, refreshes⟩ := effect.issues issued
  have draws : call.accessDraw = some a := (Entry.issued_eq_some.mp issued).1
  have drawn : a ∈ accessDrawn (⟨now, call, reply⟩ :: s.log) := mem_accessDrawn_cons.mpr (.inl draws)
  have refresh : token.refreshToken ∈ refreshDrawn (⟨now, call, reply⟩ :: s.log) := by
    rcases refreshes with draws' | ⟨_, _, _, refresh, _, _, held, _⟩
    · exact mem_refreshDrawn_cons.mpr (.inl draws')
    · exact mem_refreshDrawn_cons.mpr (.inr (recorded.refresh _ _ held))
  have sameRefresh : base.refreshToken = token.refreshToken := by rw [eq]
  have sameExpires : base.expiresAt = token.expiresAt := by rw [eq]
  have access : IsRandom base.accessToken := named ▸ recorded.random_cons fresh (.inl drawn)
  have refreshRandom : IsRandom base.refreshToken := sameRefresh ▸ recorded.random_cons fresh (.inr refresh)
  obtain ⟨nonce, -, given, -⟩ := SecureTokenStorage.encryptToken_ok encrypts
  rw [given] at encrypts
  have length := fresh.2.2 nonce given
  refine ⟨drawn, refresh, sound.isEncryptedToken length access refreshRandom encrypts, ?_⟩
  obtain ⟨text, decrypts, named', refreshed, expires⟩ := sound.plaintext length access refreshRandom encrypts
  exact ⟨text, decrypts, named'.trans named, refreshed.trans sameRefresh, expires.trans sameExpires⟩

theorem Recorded.step (sound : setup.storage.Sound) (recorded : Recorded setup s)
    (fresh : Fresh s.log setup.storage.nonceSize call) (effect : Effect setup s.provider now call p reply) :
    Recorded setup { provider := p, log := ⟨now, call, reply⟩ :: s.log } := by
  refine ⟨?_, ?_, ?_, fun b => recorded.random_cons fresh, fun b => recorded.disjoint_cons fresh, ?_⟩
  · intro b token found
    exact mem_accessDrawn_cons.mpr ((effect.grown.access b token found).symm.imp_right (recorded.access b token))
  · intro b token found
    exact mem_refreshDrawn_cons.mpr ((effect.grown.refresh b token found).symm.imp_right (recorded.refresh b token))
  · intro b st found
    obtain ⟨st', old⟩ | draws := effect.metadata found
    · exact mem_accessDrawn_cons.mpr (.inr (recorded.metadata b st' old))
    · exact mem_accessDrawn_cons.mpr (.inl draws)
  · intro x member a token issued
    rcases List.mem_cons.mp member with rfl | old
    · exact recorded.issued_now sound fresh effect issued
    · exact (recorded.issued x old a token issued).cons _

end Step

theorem Setup.recorded (sound : setup.storage.Sound) (reachable : setup.machine.Reachable s) : Recorded setup s := by
  refine reachable.invariant ?_ ?_
  · constructor <;> simp [Setup.machine, accessDrawn, refreshDrawn]
  · intro s label s' recorded step
    obtain ⟨-, fresh, p, reply, rfl, effect⟩ := Setup.machine_step step
    exact recorded.step sound fresh effect

def plainStamp (n : Nat) : Bytes := (List.range 8).map fun i => UInt8.ofNat (n / 256 ^ i)

def ofPlainStamp (bytes : Bytes) : Nat := bytes.foldr (fun c n => c.toNat + 256 * n) 0

def plainStorage : SecureTokenStorage where
  nonceSize := 12
  cipherSeal _ text := text ++ List.replicate 16 0
  cipherOpen _ ciphertext :=
    if ciphertext.drop (ciphertext.length - 16) = List.replicate 16 0 then
      some (ciphertext.take (ciphertext.length - 16))
    else none
  encode := Base64.encode
  decode := Base64.decode
  marshal token :=
    if 0 ≤ token.expiresAt ∧ token.expiresAt < 2 ^ 64 then
      some (token.accessToken ++ token.refreshToken ++ plainStamp token.expiresAt.toNat)
    else none
  unmarshal text :=
    some
      { accessToken := text.take 64
        tokenType := []
        expiresIn := 0
        refreshToken := (text.drop 64).take 64
        scope := []
        clientID := []
        scopes := []
        expiresAt := ofPlainStamp (text.drop 128) }

theorem ofPlainStamp_plainStamp {n : Nat} (fits : n < 2 ^ 64) : ofPlainStamp (plainStamp n) = n := by
  simp only [ofPlainStamp, plainStamp, List.range, List.range.loop, List.map_cons, List.map_nil, List.foldr_cons,
    List.foldr_nil, UInt8.toNat_ofNat']
  omega

theorem plainStorage_sound : plainStorage.Sound where
  decode_encode := Base64.decode_encode
  decode_length _ _ := Base64.length_le_of_decode
  open_seal nonce text size := by simp [plainStorage]
  seal_length nonce text := by simp [plainStorage]
  marshal_length token text access refresh marshalled := by
    simp only [plainStorage] at marshalled
    split_ifs at marshalled
    cases marshalled
    simp
  unmarshal_marshal token text access refresh marshalled := by
    simp only [plainStorage] at marshalled ⊢
    split_ifs at marshalled with fits
    cases marshalled
    have stamp := ofPlainStamp_plainStamp (n := token.expiresAt.toNat) (by omega)
    refine ⟨_, rfl, ?_, ?_, ?_⟩
    · simp [← access.1]
    · rw [List.append_assoc, ← access.1, List.drop_left, access.1, ← refresh.1, List.take_left]
    · have both : (token.accessToken ++ token.refreshToken).length = 128 := by
        rw [List.length_append, access.1, refresh.1]
      rw [← both, List.drop_left]
      change (ofPlainStamp _ : Int) = token.expiresAt
      rw [stamp]
      exact Int.toNat_of_nonneg fits.1

def plainSetup (maxUseCount : Int) (fits : maxUseCount ≤ maxInt) : Setup where
  storage := plainStorage
  rotationPolicy := { defaultTokenRotationPolicy with maxUseCount := maxUseCount, maxUseCount_le := fits }
  hmac := id

def plainAccess : Bytes := List.replicate 64 97

def plainRefresh : Bytes := List.replicate 64 98

def Entry.token? (x : Entry) : Option AccessToken :=
  match x.reply with
  | .token t => some t
  | _ => none

theorem Entry.token?_eq_some {t : AccessToken} : x.token? = some t ↔ x.reply = .token t := by
  unfold Entry.token?
  cases x.reply <;> simp

def plainCreate : Call :=
  .createAccessToken ⟨[99], []⟩ (some plainAccess) (some plainRefresh) (some (List.replicate 12 0)) [102]

def plainEncrypted : Bytes :=
  plainStorage.encode (List.replicate 12 0 ++ plainAccess ++ plainRefresh ++ plainStamp 3600000000000 ++
    List.replicate 16 0)

end Mcp.Auth
