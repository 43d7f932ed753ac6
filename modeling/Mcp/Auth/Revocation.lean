import Mcp.Auth.Calls

namespace Mcp.Auth
open Mcp.Lib Bytes

def IssuedString (log : List Entry) (t : Bytes) : Prop :=
  ∃ x ∈ log, ∃ a token, x.issued a = some token ∧ (t = token.accessToken ∨ t = token.refreshToken)

/-- The string was issued and later revoked. -/
def Revoked (log : List Entry) (t : Bytes) : Prop :=
  ∃ newer x older, log = newer ++ x :: older ∧ x.call = .revokeToken t ∧ IssuedString older t

/-- `RefreshAccessToken` succeeds with the string. -/
def Entry.Refreshes (x : Entry) (t : Bytes) : Prop :=
  ∃ accessToken nonce fingerprint token, x.call = .refreshAccessToken t accessToken nonce fingerprint ∧
    x.reply = .token token

def spent (setup : Setup) (s : State) (label : Int × Call) : Bool :=
  match label.2 with
  | .refreshAccessToken t _ _ _ =>
    if (s.provider.revokedTokens t).isSome && setup.storage.isEncryptedToken t then
      match setup.storage.decryptToken t label.1 with
      | .error _ => true
      | .ok text =>
        match s.provider.provider.refreshTokens text.refreshToken with
        | none => true
        | some refresh => refresh.expiresAt < label.1
    else true
  | _ => true

section Runs

variable {setup : Setup} {log : List Entry} {x : Entry} {t : Bytes}

theorem revoked_cons (revoked : Revoked (x :: log) t) :
    (x.call = .revokeToken t ∧ IssuedString log t) ∨ Revoked log t := by
  obtain ⟨newer, y, older, split, call, issued⟩ := revoked
  cases newer with
  | nil =>
    obtain ⟨rfl, rfl⟩ := List.cons.inj split
    exact .inl ⟨call, issued⟩
  | cons z newer => exact .inr ⟨newer, y, older, (List.cons.inj split).2, call, issued⟩

structure Final (setup : Setup) (s : State) : Prop where
  marked : ∀ t, Revoked s.log t → (s.provider.revokedTokens t).isSome
  gone : ∀ t, Revoked s.log t → setup.storage.isEncryptedToken t = true ∨
    t ∈ refreshDrawn s.log ∧ s.provider.provider.refreshTokens t = none
  refused : ∀ after x before t, s.log = after ++ x :: before → x.Refreshes t → ¬ Revoked before t

variable {p p' : SecureOAuthProvider} {now : Int} {call : Call} {reply : Reply} {s : State}

theorem Effect.marks (effect : Effect setup p now call p' reply)
    (marked : (p.revokedTokens t).isSome ∨ call = .revokeToken t) : (p'.revokedTokens t).isSome := by
  cases effect with
  | issued draws =>
    rcases marked with old | rfl
    · exact old
    · cases draws
  | unissued kind =>
    rcases marked with old | rfl
    · exact old
    · cases kind
  | rejected | passed => exact marked.resolve_right (by simp)
  | @revoked token =>
    by_cases same : t = token
    · simp [same]
    · have old := marked.resolve_right (by simpa using Ne.symm same)
      simpa [Function.update_of_ne same] using old

theorem Effect.deletes (sound : setup.storage.Sound) (recorded : Recorded setup s)
    (effect : Effect setup s.provider now (.revokeToken t) p reply)
    (drawn : t ∈ refreshDrawn s.log) : p.provider.refreshTokens t = none := by
  have absent : s.provider.provider.accessTokens t = none := by
    cases found : s.provider.provider.accessTokens t with
    | none => rfl
    | some token => exact absurd drawn (recorded.disjoint t (recorded.access t token found))
  cases effect with
  | issued draws => cases draws
  | unissued kind => cases kind
  | revoked =>
    have name : setup.revokedName t now = t := by
      simp [Setup.revokedName, sound.not_isEncryptedToken (recorded.random t (.inr drawn))]
    rw [name]
    exact MemoryOAuthProvider.revokeToken_refresh absent

theorem Effect.refreshes (effect : Effect setup p now call p' reply) (success : Entry.Refreshes ⟨now, call, reply⟩ t) :
    ∃ r refresh, setup.refreshOf t now = .ok r ∧ p.provider.refreshTokens r = some refresh ∧
      now ≤ refresh.expiresAt := by
  obtain ⟨accessToken, nonce, fingerprint, token, rfl, rfl⟩ := success
  cases effect with
  | issued _ _ _ _ _ _ _ _ refreshes =>
    obtain draws | ⟨_, _, _, refresh, same, decrypts, held, early⟩ := refreshes
    · cases draws
    · cases same
      exact ⟨_, refresh, decrypts, held, early⟩

theorem Final.refuses (sound : setup.storage.Sound) (recorded : Recorded setup s) (final : Final setup s)
    (allowed : spent setup s (now, call) = true)
    (effect : Effect setup s.provider now call p reply) (success : Entry.Refreshes ⟨now, call, reply⟩ t) :
    ¬ Revoked s.log t := by
  intro revoked
  obtain ⟨r, refresh, decrypts, held, early⟩ := effect.refreshes success
  obtain ⟨accessToken, nonce, fingerprint, token, rfl, -⟩ := success
  obtain encrypted | ⟨drawn, gone⟩ := final.gone t revoked
  · unfold Setup.refreshOf at decrypts
    simp only [spent, final.marked t revoked, encrypted, Bool.and_self, if_true] at allowed
    rw [if_pos encrypted] at decrypts
    cases decrypted : setup.storage.decryptToken t now with
    | error e => simp [decrypted] at decrypts
    | ok text =>
      simp only [decrypted, Except.ok.injEq] at decrypts allowed
      rw [decrypts, held] at allowed
      have late := of_decide_eq_true allowed
      omega
  · have plain := sound.not_isEncryptedToken (recorded.random t (.inr drawn))
    rw [Setup.refreshOf, if_neg (by simp [plain])] at decrypts
    cases decrypts
    cases gone.symm.trans held

theorem Final.step (sound : setup.storage.Sound) (recorded : Recorded setup s) (final : Final setup s)
    (fresh : Fresh s.log setup.storage.nonceSize call) (allowed : spent setup s (now, call) = true)
    (effect : Effect setup s.provider now call p reply) :
    Final setup { provider := p, log := ⟨now, call, reply⟩ :: s.log } := by
  refine ⟨?_, ?_, ?_⟩
  · intro t revoked
    obtain ⟨call', -⟩ | old := revoked_cons revoked
    · exact effect.marks (.inr call')
    · exact effect.marks (.inl (final.marked t old))
  · intro t revoked
    obtain ⟨rfl, y, member, a, token, issued, same⟩ | old := revoked_cons revoked
    · have known := recorded.issued y member a token issued
      rcases same with rfl | rfl
      · exact .inl known.encrypted
      · exact .inr ⟨mem_refreshDrawn_cons.mpr (.inr known.refresh), effect.deletes sound recorded known.refresh⟩
    · refine (final.gone t old).imp_right fun ⟨drawn, gone⟩ => ⟨mem_refreshDrawn_cons.mpr (.inr drawn), ?_⟩
      cases found : p.provider.refreshTokens t with
      | none => rfl
      | some refresh =>
        obtain held | draws := effect.grown.refresh t refresh found
        · cases gone.symm.trans held
        · exact absurd drawn (fresh.2.1 t (mem_drawn_refresh draws)).2.2
  · intro after x before t split success
    cases after with
    | nil =>
      obtain ⟨rfl, rfl⟩ := List.cons.inj split
      exact final.refuses sound recorded allowed effect success
    | cons z after => exact final.refused after x before t (List.cons.inj split).2 success

/-- If a revoked access token is refreshed only when it or its refresh token has run out, no string is ever refreshed
after it was issued and revoked. -/
theorem revocation_final (sound : setup.storage.Sound) (labels : List (Int × Call)) (s : State)
    (each : setup.machine.EachStep (fun s label => spent setup s label = true) setup.machine.start labels)
    (run : setup.machine.run setup.machine.start labels = some s) (after before : List Entry) (x : Entry) (t : Bytes)
    (split : s.log = after ++ x :: before) (success : x.Refreshes t) : ¬ Revoked before t := by
  have final : Final setup s := by
    refine Machine.invariant_of_eachStep ?_ ?_ each run
    · constructor <;> simp [Setup.machine, Revoked]
    · intro s label s' reachable final allowed step
      obtain ⟨-, fresh, p, reply, rfl, effect⟩ := Setup.machine_step step
      exact final.step sound (setup.recorded sound reachable) fresh allowed effect
  exact final.refused after x before t split success

end Runs

def refreshedRun : List (Int × Call) :=
  [(0, plainCreate), (1, .revokeToken plainEncrypted),
    (2, .refreshAccessToken plainRefresh (some (List.replicate 64 99)) (some (List.replicate 12 0)) [102])]

theorem revocation_final_refreshed : ∃ s x before,
    (plainSetup 2 (by decide)).machine.run (plainSetup 2 (by decide)).machine.start refreshedRun = some s ∧
      s.log = x :: before ∧ x.Refreshes plainRefresh ∧ ¬ Revoked before plainRefresh := by
  have facts : ((plainSetup 2 (by decide)).machine.run (plainSetup 2 (by decide)).machine.start refreshedRun).map
      (fun s => s.log.map fun x => x.token?.isSome) = some [true, false, true] := by
    decide +kernel
  obtain ⟨s, run, tokens⟩ := Option.map_eq_some_iff.mp facts
  obtain ⟨x, before, log, token, -⟩ := List.map_eq_cons_iff.mp tokens
  have calls := Setup.log_calls run
  rw [log, List.map_cons] at calls
  obtain ⟨t, replied⟩ := Option.isSome_iff_exists.mp token
  have success : x.Refreshes plainRefresh :=
    ⟨_, _, _, t, (Prod.mk.inj (List.cons.inj calls).1).2, Entry.token?_eq_some.mp replied⟩
  refine ⟨s, x, before, run, log, success, ?_⟩
  exact revocation_final plainStorage_sound refreshedRun s (Machine.eachStep_of_checks (by decide +kernel)) run []
    before x plainRefresh log success

def revivedRun : List (Int × Call) :=
  [(0, plainCreate), (1, .revokeToken plainEncrypted),
    (2, .refreshAccessToken plainEncrypted (some (List.replicate 64 99)) (some (List.replicate 12 0)) [102])]

theorem revocation_revived : ∃ s x before,
    (plainSetup 2 (by decide)).machine.run (plainSetup 2 (by decide)).machine.start revivedRun = some s ∧
      s.log = x :: before ∧ x.Refreshes plainEncrypted ∧ Revoked before plainEncrypted := by
  have facts : ((plainSetup 2 (by decide)).machine.run (plainSetup 2 (by decide)).machine.start revivedRun).map
      (fun s => s.log.map fun x => x.token?.map AccessToken.accessToken) =
        some [some (plainStorage.encode (List.replicate 12 0 ++ List.replicate 64 99 ++ plainRefresh ++
          plainStamp 3600000000002 ++ List.replicate 16 0)), none, some plainEncrypted] := by
    decide +kernel
  obtain ⟨s, run, tokens⟩ := Option.map_eq_some_iff.mp facts
  obtain ⟨x, before, log, token, tokens⟩ := List.map_eq_cons_iff.mp tokens
  obtain ⟨y, older, rfl, -, tokens⟩ := List.map_eq_cons_iff.mp tokens
  obtain ⟨z, rest, rfl, token', -⟩ := List.map_eq_cons_iff.mp tokens
  have calls := Setup.log_calls run
  rw [log, List.map_cons, List.map_cons, List.map_cons] at calls
  obtain ⟨first, calls⟩ := List.cons.inj calls
  obtain ⟨second, calls⟩ := List.cons.inj calls
  obtain ⟨third, -⟩ := List.cons.inj calls
  obtain ⟨t, replied, -⟩ := Option.map_eq_some_iff.mp token
  obtain ⟨t', replied', named⟩ := Option.map_eq_some_iff.mp token'
  have drawn : z.call.accessDraw = some plainAccess := congrArg (Call.accessDraw ∘ Prod.snd) third
  refine ⟨s, x, _, run, log, ⟨_, _, _, t, (Prod.mk.inj first).2, Entry.token?_eq_some.mp replied⟩, ?_⟩
  refine ⟨[], y, _, rfl, (Prod.mk.inj second).2, z, List.mem_cons_self .., plainAccess, t', ?_, .inl named.symm⟩
  exact Entry.issued_eq_some.mpr ⟨drawn, Entry.token?_eq_some.mp replied'⟩

end Mcp.Auth
