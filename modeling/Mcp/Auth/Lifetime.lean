import Mcp.Auth.Calls

namespace Mcp.Auth
open Mcp.Lib Bytes

def Setup.inner (setup : Setup) (token : Bytes) : Option Bytes :=
  match setup.storage.plaintext token with
  | .ok text => some text.accessToken
  | .error _ => none

namespace Entry

def validated (setup : Setup) (a : Bytes) (x : Entry) : Bool :=
  match x.call, x.reply with
  | .validateAccessToken token, .token _ => setup.inner token = some a
  | _, _ => false

def passed (setup : Setup) (a : Bytes) (x : Entry) : Bool :=
  match x.call, x.reply with
  | .validateAccessToken token, .token _ => setup.inner token = some a
  | .validateAccessToken token, .failed (.provider (.oauth _)) => setup.inner token = some a
  | _, _ => false

end Entry

def lastUse (setup : Setup) (a : Bytes) (issue : Entry) (since : List Entry) : Int :=
  match since.find? (Entry.passed setup a) with
  | some x => x.time
  | none => issue.time

structure Limits (setup : Setup) (a : Bytes) (token : AccessToken) (issue x : Entry) (since : List Entry) : Prop where
  age : x.time ≤ issue.time + setup.rotationPolicy.maxAge
  force : x.time ≤ issue.time + setup.rotationPolicy.forceRotateAfter
  expiry : x.time ≤ token.expiresAt
  active : x.time ≤ lastUse setup a issue since + setup.rotationPolicy.inactivityPeriod
  unrevoked : ∀ y ∈ since, y.call ≠ .revokeToken token.accessToken

structure Tracked (setup : Setup) (p : SecureOAuthProvider) (a : Bytes) (token : AccessToken) (issue : Entry)
    (newer : List Entry) (st : SecureToken) : Prop where
  found : p.tokenMetadata a = some st
  issuedAt : st.issuedAt = issue.time
  counted : (newer.countP (Entry.validated setup a) : Int) ≤ st.useCount
  bounded : st.useCount ≤ max 0 setup.rotationPolicy.maxUseCount
  lastUsed : st.lastUsed = lastUse setup a issue newer
  later : issue.time ≤ st.lastUsed
  expires : token.expiresAt = issue.time + defaultAccessTokenExpirationSeconds * second
  held : ∀ t, p.provider.accessTokens a = some t → t.expiresAt = token.expiresAt
  revoked : ∀ y ∈ newer, y.call = .revokeToken token.accessToken →
    p.provider.accessTokens a = none ∨ token.expiresAt < y.time
  lawful : ∀ after x since, newer = after ++ x :: since → x.validated setup a → Limits setup a token issue x since

section Records

variable {setup : Setup} {p p' : SecureOAuthProvider} {a : Bytes} {token : AccessToken} {issue x : Entry}
  {newer : List Entry} {st : SecureToken}

theorem lastUse_cons_of_passed (passed : x.passed setup a) : lastUse setup a issue (x :: newer) = x.time := by
  simp [lastUse, passed]

theorem lastUse_cons_of_not_passed (passed : ¬ x.passed setup a) :
    lastUse setup a issue (x :: newer) = lastUse setup a issue newer := by
  simp [lastUse, passed]

theorem lawful_cons (lawful : ∀ after y since, newer = after ++ y :: since → y.validated setup a →
      Limits setup a token issue y since)
    (last : x.validated setup a → Limits setup a token issue x newer) (after : List Entry) (y : Entry)
    (since : List Entry) (split : x :: newer = after ++ y :: since) (validated : y.validated setup a) :
    Limits setup a token issue y since := by
  cases after with
  | nil =>
    obtain ⟨rfl, rfl⟩ := List.cons.inj split
    exact last validated
  | cons z after =>
    exact lawful after y since (List.cons.inj split).2 validated

theorem Entry.not_validated_of_not_passed (passed : ¬ x.passed setup a) : ¬ x.validated setup a := by
  intro holds
  obtain ⟨time, call, reply⟩ := x
  cases call with
  | validateAccessToken token =>
    cases reply with
    | token t => exact passed holds
    | done | failed e => simp [validated] at holds
  | createAccessToken | refreshAccessToken | revokeToken => simp [validated] at holds

theorem eq_none_of_less (less : ∀ t, p'.provider.accessTokens a = some t → p.provider.accessTokens a = some t)
    (gone : p.provider.accessTokens a = none) : p'.provider.accessTokens a = none := by
  cases now : p'.provider.accessTokens a with
  | none => rfl
  | some t => cases gone.symm.trans (less t now)

theorem Tracked.frame (tracked : Tracked setup p a token issue newer st) (same : p'.tokenMetadata a = p.tokenMetadata a)
    (less : ∀ t, p'.provider.accessTokens a = some t → p.provider.accessTokens a = some t)
    (unused : ¬ x.passed setup a)
    (revoked : x.call = .revokeToken token.accessToken →
      p'.provider.accessTokens a = none ∨ token.expiresAt < x.time) :
    Tracked setup p' a token issue (x :: newer) st where
  found := same.trans tracked.found
  issuedAt := tracked.issuedAt
  counted := by
    rw [List.countP_cons_of_neg (Entry.not_validated_of_not_passed unused)]
    exact tracked.counted
  bounded := tracked.bounded
  lastUsed := by
    rw [lastUse_cons_of_not_passed unused]
    exact tracked.lastUsed
  later := tracked.later
  expires := tracked.expires
  held t found := tracked.held t (less t found)
  revoked y member call := by
    rcases List.mem_cons.mp member with rfl | old
    · exact revoked call
    · exact (tracked.revoked y old call).imp_left (eq_none_of_less less)
  lawful := lawful_cons tracked.lawful fun validated =>
    absurd validated (Entry.not_validated_of_not_passed unused)

theorem le_of_timeSub_le {t u d : Int} (limited : timeSub t u ≤ d) (fits : t - u ≤ maxInt) : t - u ≤ d := by
  have low : t - u ≤ timeSub t u := by
    unfold timeSub
    rw [min_eq_right fits]
    exact le_max_right ..
  exact low.trans limited

theorem Tracked.count_next (tracked : Tracked setup p a token issue newer st)
    (within : Setup.Within setup.rotationPolicy st now) : wrap (st.useCount + 1) = st.useCount + 1 := by
  have nonneg : (0 : Int) ≤ st.useCount := (Int.natCast_nonneg _).trans tracked.counted
  have bound := setup.rotationPolicy.maxUseCount_le
  have count := within.count
  apply wrap_of_fits
  · unfold minInt
    omega
  · omega

theorem Tracked.limits (tracked : Tracked setup p a token issue newer st)
    (within : Setup.Within setup.rotationPolicy st x.time) {t : AccessToken}
    (held : p.provider.accessTokens a = some t) (early : x.time ≤ t.expiresAt)
    (sorted : ∀ y ∈ newer, y.time ≤ x.time) : Limits setup a token issue x newer := by
  rw [tracked.held t held] at early
  have issuedAt := tracked.issuedAt
  have expires := tracked.expires
  have later := tracked.later
  have hour : defaultAccessTokenExpirationSeconds * second ≤ maxInt := by decide
  have age := le_of_timeSub_le within.age (by omega)
  have force := le_of_timeSub_le within.force (by omega)
  have inactive := le_of_timeSub_le within.inactive (by omega)
  refine ⟨by omega, by omega, early, ?_, ?_⟩
  · rw [← tracked.lastUsed]
    omega
  · intro y member call
    obtain gone | late := tracked.revoked y member call
    · cases gone.symm.trans held
    · have before := sorted y member
      omega

theorem Tracked.use (tracked : Tracked setup p a token issue newer st) {st' : SecureToken}
    (within : Setup.Within setup.rotationPolicy st x.time)
    (used : st'.issuedAt = st.issuedAt ∧ st'.lastUsed = x.time ∧ st'.useCount = wrap (st.useCount + 1))
    (found : p'.tokenMetadata a = some st')
    (less : ∀ t, p'.provider.accessTokens a = some t → p.provider.accessTokens a = some t)
    (passed : x.passed setup a) (notRevoked : x.call ≠ .revokeToken token.accessToken)
    (after : issue.time ≤ x.time) (sorted : ∀ y ∈ newer, y.time ≤ x.time)
    (valid : x.validated setup a → ∃ t, p.provider.accessTokens a = some t ∧ x.time ≤ t.expiresAt) :
    Tracked setup p' a token issue (x :: newer) st' := by
  have next : st'.useCount = st.useCount + 1 := used.2.2.trans (tracked.count_next within)
  refine ⟨found, used.1.trans tracked.issuedAt, ?_, ?_, ?_, ?_, tracked.expires,
    fun t held => tracked.held t (less t held), ?_, ?_⟩
  · have old := tracked.counted
    rw [next, List.countP_cons]
    split_ifs
    · push_cast
      omega
    · push_cast
      omega
  · have count := within.count
    rw [next]
    omega
  · rw [lastUse_cons_of_passed passed]
    exact used.2.1
  · rw [used.2.1]
    exact after
  · intro y member call
    rcases List.mem_cons.mp member with rfl | old
    · exact absurd call notRevoked
    · exact (tracked.revoked y old call).imp_left (eq_none_of_less less)
  · refine lawful_cons tracked.lawful fun validated => ?_
    obtain ⟨t, held, early⟩ := valid validated
    exact tracked.limits within held early sorted

end Records

section Runs

variable {setup : Setup}

structure Followed (setup : Setup) (s : State) : Prop where
  sorted : s.log.Pairwise fun x y => y.time ≤ x.time
  drawn : ∀ x ∈ s.log, ∀ a, x.validated setup a → a ∈ accessDrawn s.log
  quiet : ∀ newer issue older a token, s.log = newer ++ issue :: older → issue.issued a = some token →
    ∀ y ∈ older, ¬ y.validated setup a
  tracked : ∀ newer issue older a token, s.log = newer ++ issue :: older → issue.issued a = some token →
    ∃ st, Tracked setup s.provider a token issue newer st

variable {token a : Bytes} {text : AccessToken} {log : List Entry} {now : Int} {p p' : SecureOAuthProvider}
  {call : Call} {reply : Reply} {s : State}

theorem Setup.inner_eq_some (decrypts : setup.storage.plaintext token = .ok text) :
    setup.inner token = some text.accessToken := by
  simp [inner, decrypts]

theorem Timely.all (timely : Timely log now) (sorted : log.Pairwise fun x y => y.time ≤ x.time) :
    ∀ x ∈ log, x.time ≤ now := by
  cases log with
  | nil => simp
  | cons y log =>
    have head : y.time ≤ now := timely y rfl
    intro x member
    rcases List.mem_cons.mp member with rfl | old
    · exact head
    · exact ((List.pairwise_cons.mp sorted).1 x old).trans head

theorem Effect.of_passed (effect : Effect setup p now call p' reply)
    (passed : Entry.passed setup a ⟨now, call, reply⟩) :
    ∃ st st', p.tokenMetadata a = some st ∧ Setup.Within setup.rotationPolicy st now ∧
      (st'.issuedAt = st.issuedAt ∧ st'.lastUsed = now ∧ st'.useCount = wrap (st.useCount + 1)) ∧
        p'.tokenMetadata a = some st' ∧
      (Entry.validated setup a ⟨now, call, reply⟩ → ∃ t, p.provider.accessTokens a = some t ∧ now ≤ t.expiresAt) := by
  cases effect with
  | issued draws =>
    cases call with
    | createAccessToken | refreshAccessToken => simp [Entry.passed] at passed
    | validateAccessToken | revokeToken => cases draws
  | unissued kind =>
    cases call with
    | createAccessToken | refreshAccessToken => simp [Entry.passed] at passed
    | validateAccessToken | revokeToken => cases kind
  | @rejected token e notProvider =>
    cases e with
    | provider e => exact absurd rfl (notProvider e)
    | _ => simp [Entry.passed] at passed
  | revoked => simp [Entry.passed] at passed
  | @passed token b st st' result provider text decrypts named found within used validated =>
    have inner := Setup.inner_eq_some decrypts
    rw [named] at inner
    have same : b = a := by
      cases result <;> simpa [Entry.passed, Reply.of, Except.mapError, inner] using passed
    subst same
    refine ⟨st, st', found, within, used, Function.update_self .., fun success => ?_⟩
    cases result with
    | error e => simp [Entry.validated, Reply.of, Except.mapError] at success
    | ok t =>
      obtain ⟨-, held, early⟩ := MemoryOAuthProvider.validateAccessToken_ok validated
      exact ⟨t, held, early⟩

theorem Effect.passed_of_result {b : Bytes} (decrypts : setup.storage.plaintext token = .ok text)
    (named : text.accessToken = b) (result : Except OAuthError AccessToken) :
    Entry.passed setup b ⟨now, .validateAccessToken token, .of (result.mapError fun e => .provider (.oauth e))⟩ := by
  have inner := Setup.inner_eq_some decrypts
  rw [named] at inner
  cases result <;> simp [Entry.passed, Reply.of, Except.mapError, inner]

theorem Effect.metadata_of_not_passed
    (effect : Effect setup p now call p' reply) (passed : ¬ Entry.passed setup a ⟨now, call, reply⟩)
    (draws : call.accessDraw ≠ some a) : p'.tokenMetadata a = p.tokenMetadata a := by
  cases effect with
  | issued draws' =>
    apply Function.update_of_ne
    rintro rfl
    exact draws draws'
  | unissued | rejected | revoked => rfl
  | @passed token b st st' result provider text decrypts named =>
    apply Function.update_of_ne
    rintro rfl
    exact passed (Effect.passed_of_result decrypts named result)

theorem Effect.revokes {token : AccessToken} (effect : Effect setup p now call p' reply)
    (issued : Issued setup log a token) (revoke : call = .revokeToken token.accessToken) :
    p'.provider.accessTokens a = none ∨ token.expiresAt < now := by
  subst revoke
  cases effect with
  | issued draws => cases draws
  | unissued kind => cases kind
  | revoked =>
    obtain ⟨text, decrypts, named, -, expires⟩ := issued.plaintext
    by_cases late : token.expiresAt < now
    · exact .inr late
    · have decrypted : setup.storage.decryptToken token.accessToken now = .ok text := by
        simp only [SecureTokenStorage.decryptToken, decrypts, expires, if_neg late]
      have name : setup.revokedName token.accessToken now = a := by
        simp only [Setup.revokedName, issued.encrypted, if_true, decrypted, named]
      rw [name]
      exact .inl (p.provider.revokeToken_access a)

theorem Effect.tracks {token : AccessToken} (effect : Effect setup p now call p' reply)
    (issued : Entry.issued ⟨now, call, reply⟩ a = some token) :
    ∃ st, Tracked setup p' a token ⟨now, call, reply⟩ [] st := by
  obtain ⟨base, st, -, -, -, -, ⟨issuedAt, lastUsed, unused⟩, expires, metadata, held, -⟩ := effect.issues issued
  refine ⟨st, ?_, issuedAt, ?_, ?_, lastUsed, lastUsed.ge, expires, ?_, ?_, ?_⟩
  · rw [metadata, Function.update_self]
  · rw [unused]
    exact le_rfl
  · rw [unused]
    exact le_max_left ..
  · intro t found
    cases held.symm.trans found
    rfl
  · simp
  · intro after x since split
    simp at split

theorem Followed.step (recorded : Recorded setup s) (followed : Followed setup s) (timely : Timely s.log now)
    (fresh : Fresh s.log setup.storage.nonceSize call) (effect : Effect setup s.provider now call p reply) :
    Followed setup { provider := p, log := ⟨now, call, reply⟩ :: s.log } := by
  have earlier := timely.all followed.sorted
  have new {a : Bytes} (draws : call.accessDraw = some a) : a ∉ accessDrawn s.log :=
    (fresh.2.1 a (mem_drawn_access draws)).2.1
  -- A string drawn now has neither been validated nor issued before.
  have unvalidated {a : Bytes} {token : AccessToken} (issued : Entry.issued ⟨now, call, reply⟩ a = some token) :
      ∀ y ∈ s.log, ¬ y.validated setup a := fun y member validated =>
    new (Entry.issued_eq_some.mp issued).1 (followed.drawn y member a validated)
  refine ⟨List.pairwise_cons.mpr ⟨earlier, followed.sorted⟩, ?_, ?_, ?_⟩
  · intro x member a validated
    rcases List.mem_cons.mp member with rfl | old
    · by_cases passed : Entry.passed setup a ⟨now, call, reply⟩
      · obtain ⟨st, -, found, -⟩ := effect.of_passed passed
        exact mem_accessDrawn_cons.mpr (.inr (recorded.metadata a st found))
      · exact absurd validated (Entry.not_validated_of_not_passed passed)
    · exact mem_accessDrawn_cons.mpr (.inr (followed.drawn x old a validated))
  · intro newer issue older a token split issued y member
    cases newer with
    | nil =>
      obtain ⟨rfl, rfl⟩ := List.cons.inj split
      exact unvalidated issued y member
    | cons z newer => exact followed.quiet newer issue older a token (List.cons.inj split).2 issued y member
  · intro newer issue older a token split issued
    cases newer with
    | nil =>
      obtain ⟨rfl, rfl⟩ := List.cons.inj split
      exact effect.tracks issued
    | cons z newer =>
      obtain ⟨rfl, rest⟩ := List.cons.inj split
      obtain ⟨st, tracked⟩ := followed.tracked newer issue older a token rest issued
      have member : issue ∈ s.log := by simp [rest]
      have known := recorded.issued issue member a token issued
      have draws : call.accessDraw ≠ some a := fun draws => new draws known.drawn
      have less : ∀ t, p.provider.accessTokens a = some t → s.provider.provider.accessTokens a = some t :=
        fun t found => (effect.grown.access a t found).resolve_right draws
      by_cases passed : Entry.passed setup a ⟨now, call, reply⟩
      · obtain ⟨st₀, st', found, within, used, found', valid⟩ := effect.of_passed passed
        cases tracked.found.symm.trans found
        refine ⟨st', tracked.use within used found' less passed ?_ (earlier issue member) ?_ valid⟩
        · rintro rfl
          simp [Entry.passed] at passed
        · intro y newest
          exact earlier y (by simp [rest, newest])
      · exact ⟨st, tracked.frame (effect.metadata_of_not_passed passed draws) less passed (effect.revokes known)⟩

theorem Setup.followed (sound : setup.storage.Sound) (reachable : setup.machine.Reachable s) : Followed setup s := by
  refine reachable.invariant' ?_ ?_
  · constructor <;> simp [Setup.machine]
  · intro s label s' reachable followed step
    obtain ⟨timely, fresh, p, reply, rfl, effect⟩ := Setup.machine_step step
    exact followed.step (setup.recorded sound reachable) timely fresh effect

/-- For every issued token: the strings that decrypt to it are validated at most as often as the policy says, only
after the issue, and each time within all limits. -/
theorem token_lifetime (sound : setup.storage.Sound) (s : State) (reachable : setup.machine.Reachable s)
    (newer older : List Entry) (issue : Entry) (a : Bytes) (token : AccessToken)
    (split : s.log = newer ++ issue :: older) (issued : issue.issued a = some token) :
    setup.inner token.accessToken = some a ∧
      s.log.countP (Entry.validated setup a) ≤ setup.rotationPolicy.maxUseCount.toNat ∧
      (∀ x ∈ older, ¬ x.validated setup a) ∧
      ∀ after x since, newer = after ++ x :: since → x.validated setup a → Limits setup a token issue x since := by
  have followed := setup.followed sound reachable
  obtain ⟨st, tracked⟩ := followed.tracked newer issue older a token split issued
  have quiet := followed.quiet newer issue older a token split issued
  have member : issue ∈ s.log := by simp [split]
  obtain ⟨text, decrypts, named, -⟩ := ((setup.recorded sound reachable).issued issue member a token issued).plaintext
  refine ⟨named ▸ Setup.inner_eq_some decrypts, ?_, quiet, tracked.lawful⟩
  have own : ¬ issue.validated setup a := by
    obtain ⟨draws, -⟩ := Entry.issued_eq_some.mp issued
    obtain ⟨time, call, reply⟩ := issue
    cases call with
    | createAccessToken | refreshAccessToken => simp [Entry.validated]
    | validateAccessToken | revokeToken => cases draws
  have counted := tracked.counted
  have bounded := tracked.bounded
  rw [split, List.countP_append, List.countP_cons_of_neg own, List.countP_eq_zero.mpr quiet]
  omega

def threeUses : List (Int × Call) :=
  [(0, plainCreate), (1, .validateAccessToken plainEncrypted), (2, .validateAccessToken (newline :: plainEncrypted)),
    (3, .validateAccessToken plainEncrypted)]

theorem token_lifetime_three_uses : ∃ s,
    (plainSetup 2 (by decide)).machine.run (plainSetup 2 (by decide)).machine.start threeUses = some s ∧
      s.log.countP (Entry.validated (plainSetup 2 (by decide)) plainAccess) = 2 ∧
      s.log.countP (Entry.validated (plainSetup 2 (by decide)) plainAccess) ≤ 2 := by
  have facts : ((plainSetup 2 (by decide)).machine.run (plainSetup 2 (by decide)).machine.start threeUses).map
      (fun s => (s.log.countP (Entry.validated (plainSetup 2 (by decide)) plainAccess),
        s.log.any fun x => (x.issued plainAccess).isSome)) = some (2, true) := by
    decide +kernel
  obtain ⟨s, run, counts⟩ := Option.map_eq_some_iff.mp facts
  obtain ⟨count, any⟩ := Prod.mk.inj counts
  obtain ⟨issue, member, issued⟩ := List.any_eq_true.mp any
  obtain ⟨token, issued⟩ := Option.isSome_iff_exists.mp issued
  obtain ⟨newer, older, split⟩ := List.append_of_mem member
  refine ⟨s, run, count, ?_⟩
  exact (token_lifetime plainStorage_sound s ⟨threeUses, run⟩ newer older issue plainAccess token split issued).2.1

end Runs

end Mcp.Auth
